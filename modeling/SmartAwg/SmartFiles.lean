import SmartAwg.SmartSettings

/-!
The file names of the settings of a tunnel, and which of them the file system takes for the same.
-/

namespace SmartAwg.Smart

open Go

section names

/-- The bytes that file names keep. -/
def isStemByte (b : UInt8) : Bool :=
  within 0x61 0x7A b || within 0x41 0x5A b || within 0x30 0x39 b || b == 0x5F || b == 0x2D || b == 0x2E

def legacyTunnelFileStem (tunnelName : Str) : Str :=
  (runes tunnelName).map fun r => if r < 0x80 && isStemByte r.toUInt8 then r.toUInt8 else 0x5F

/-- The bytes `._-`. -/
def isCut (b : UInt8) : Bool := b == 0x2E || b == 0x5F || b == 0x2D

/-- `strings.Trim` with the cut set `._-`. -/
def trimCut (s : Str) : Str := ((s.dropWhile isCut).reverse.dropWhile isCut).reverse

/-- The readable part of a file name. -/
def readableStem (tunnelName : Str) : Str :=
  let safe := trimCut (legacyTunnelFileStem (trimSpace tunnelName))
  let safe := if safe = [] then ascii "profile" else safe
  safe.take 48

/-- SHA-256, and what the file system compares instead of file names. -/
structure Naming where
  sha256 : Str → Str
  key : Str → Str

/-- The file system tells names apart at least up to the case of letters. -/
structure Naming.Lawful (p : Naming) : Prop where
  folds : ∀ x y, IsAscii x → IsAscii y → p.key x = p.key y → x.map lowerByte = y.map lowerByte
  digest : ∀ x, (p.sha256 x).length = 32

variable (p : Naming)

/-- The 48 bits of the hash that a file name shows. -/
def Naming.tag (tunnelName : Str) : Str := (p.sha256 tunnelName).take 6

def Naming.safeTunnelFileStem (tunnelName : Str) : Str :=
  readableStem tunnelName ++ 0x2D :: hexEncode (p.tag tunnelName)

/-- The name of `settingsPath` in its directory. -/
def Naming.settingsFile (tunnelName : Str) : Str := p.safeTunnelFileStem tunnelName ++ ascii ".json"

/-- The name of `legacySettingsPath` in the same directory. -/
def legacyFile (tunnelName : Str) : Str := legacyTunnelFileStem tunnelName ++ ascii ".json"

/-- The name of `historyPath` in the same directory. -/
def Naming.historyFile (tunnelName : Str) : Str :=
  p.settingsFile tunnelName ++ ascii ".history.json"

end names

section bytes

theorem isStemByte_facts (b : UInt8) (h : isStemByte b = true) :
    b < 0x80 ∧ isCut (lowerByte b) = isCut b := by
  have hall : ∀ n : Fin 256, isStemByte n.val.toUInt8 = true →
      n.val.toUInt8 < 0x80 ∧ isCut (lowerByte n.val.toUInt8) = isCut n.val.toUInt8 := by
    decide +kernel
  simpa using hall ⟨b.toNat, b.toNat_lt⟩ (by simpa using h)

theorem legacyTunnelFileStem_bytes (tunnelName : Str) :
    ∀ b ∈ legacyTunnelFileStem tunnelName, isStemByte b = true := by
  intro b hb
  obtain ⟨r, -, rfl⟩ := List.mem_map.mp hb
  split
  · rename_i hr
    exact (Bool.and_eq_true _ _ ▸ hr).2
  · decide

theorem mem_of_mem_trimCut (s : Str) (b : UInt8) (h : b ∈ trimCut s) : b ∈ s := by
  have h₁ := (List.dropWhile_sublist _).subset (List.mem_reverse.mp h)
  exact (List.dropWhile_sublist _).subset (List.mem_reverse.mp h₁)

theorem readableStem_bytes (tunnelName : Str) : ∀ b ∈ readableStem tunnelName, isStemByte b = true := by
  intro b hb
  have hb := List.mem_of_mem_take hb
  split at hb
  · have hall : ∀ c ∈ ascii "profile", isStemByte c = true := by decide +kernel
    exact hall b hb
  · exact legacyTunnelFileStem_bytes _ b (mem_of_mem_trimCut _ b hb)

theorem hexEncode_facts (s : Str) (b : UInt8) (h : b ∈ hexEncode s) :
    b < 0x80 ∧ isCut b = false ∧ b ≠ 0x79 ∧ lowerByte b = b := by
  have hdigit : ∀ d : Fin 16, digitByte d.val < 0x80 ∧ isCut (digitByte d.val) = false ∧
      digitByte d.val ≠ 0x79 ∧ lowerByte (digitByte d.val) = digitByte d.val := by decide
  induction s with
  | nil => cases h
  | cons c s ih =>
    have hc := c.toNat_lt
    rcases List.mem_cons.mp h with rfl | h
    · exact hdigit ⟨c.toNat / 16, by omega⟩
    rcases List.mem_cons.mp h with rfl | h
    · exact hdigit ⟨c.toNat % 16, by omega⟩
    · exact ih h

theorem hexEncode_lower (s : Str) : (hexEncode s).map lowerByte = hexEncode s :=
  (List.map_congr_left fun b hb => (hexEncode_facts s b hb).2.2.2).trans (List.map_id _)

end bytes

section trimming

/-- What `trimCut` takes away is cut bytes, and the rest begins with another one. -/
theorem trimCut_split (s : Str) : ∃ pre post, s = pre ++ trimCut s ++ post ∧
    (∀ b ∈ pre, isCut b = true) ∧ (∀ b ∈ post, isCut b = true) ∧
    ∀ b rest, trimCut s = b :: rest → isCut b = false := by
  have hcut : ∀ t : Str, ∀ b ∈ t.takeWhile isCut, isCut b = true :=
    fun t b hb => List.all_eq_true.mp (List.all_takeWhile ..) b hb
  have hsplit : s.dropWhile isCut = trimCut s ++ ((s.dropWhile isCut).reverse.takeWhile isCut).reverse := by
    have h := congrArg List.reverse
      (List.takeWhile_append_dropWhile (p := isCut) (l := (s.dropWhile isCut).reverse))
    rw [List.reverse_append, List.reverse_reverse] at h
    exact h.symm
  refine ⟨s.takeWhile isCut, ((s.dropWhile isCut).reverse.takeWhile isCut).reverse, ?_, hcut s,
    fun b hb => hcut _ b (List.mem_reverse.mp hb), fun b rest hb => ?_⟩
  · rw [List.append_assoc, ← hsplit, List.takeWhile_append_dropWhile]
  · have hhead := List.head?_dropWhile_not isCut s
    rw [hsplit, hb] at hhead
    exact hhead

/-- A valid name is written byte by byte, and all of it can be read in the file name. -/
theorem legacyTunnelFileStem_of_valid (tunnelName : Str) (h : Conf.tunnelNameIsValid tunnelName = true) :
    trimSpace tunnelName = tunnelName ∧ (legacyTunnelFileStem tunnelName).length ≤ 32 := by
  have hname := Conf.tunnelNameIsValid_format h
  refine ⟨Conf.trimSpace_tunnelName h, ?_⟩
  rw [legacyTunnelFileStem, List.length_map,
    runes_ascii _ fun b hb => Conf.allowedNameByte_ascii b (hname.1 b hb), List.length_map]
  exact hname.2.2

/-- The legacy name of a valid name is not its readable name with an ending, whatever the case. -/
theorem legacyTunnelFileStem_ne (tunnelName ending : Str) (last : UInt8)
    (h : Conf.tunnelNameIsValid tunnelName = true) (hlast : isCut (lowerByte last) = false) :
    (legacyTunnelFileStem tunnelName).map lowerByte ≠
      (readableStem tunnelName ++ (ending ++ [last])).map lowerByte := by
  obtain ⟨htrim, hlength⟩ := legacyTunnelFileStem_of_valid tunnelName h
  obtain ⟨pre, post, hsplit, hpre, hpost, hhead⟩ := trimCut_split (legacyTunnelFileStem tunnelName)
  have hstem := legacyTunnelFileStem_bytes tunnelName
  have hlower : ∀ b ∈ legacyTunnelFileStem tunnelName, isCut (lowerByte b) = isCut b :=
    fun b hb => (isStemByte_facts b (hstem b hb)).2
  intro heq
  -- the last byte of the legacy name is not a cut byte, so nothing was trimmed at its end
  have hends : ∀ b, (legacyTunnelFileStem tunnelName).getLast? = some b → isCut b = false := by
    intro b hb
    have hl := congrArg List.getLast? heq
    rw [List.getLast?_map, hb, List.getLast?_map] at hl
    simp only [← List.append_assoc, List.getLast?_concat, Option.map_some, Option.some.injEq] at hl
    rw [← hlower b (List.mem_of_getLast? hb), hl, hlast]
  have hpostnil : post = [] := by
    rcases List.eq_nil_or_concat post with hnil | ⟨front, b, rfl⟩
    · exact hnil
    · have hb := hends b (by rw [hsplit]; simp)
      rw [hpost b (by simp)] at hb
      cases hb
  subst hpostnil
  rw [List.append_nil] at hsplit
  cases hsafe : trimCut (legacyTunnelFileStem tunnelName) with
  | nil =>
    -- every byte of the legacy name is a cut byte
    rw [hsafe, List.append_nil] at hsplit
    rcases List.eq_nil_or_concat pre with hnil | ⟨front, b, rfl⟩
    · rw [hsplit, hnil] at heq
      simp at heq
    · have hb := hends b (by rw [hsplit]; simp)
      rw [hpre b (by simp)] at hb
      cases hb
  | cons b rest =>
    have hreadable : readableStem tunnelName = b :: rest := by
      have hle : (b :: rest).length ≤ 32 := by
        have := congrArg List.length hsplit
        rw [List.length_append, hsafe] at this
        omega
      rw [readableStem, htrim, hsafe, if_neg (List.cons_ne_nil _ _), List.take_of_length_le (by omega)]
    rw [hsafe] at hsplit
    cases pre with
    | nil =>
      have := congrArg List.length heq
      rw [hreadable, hsplit] at this
      simp at this
    | cons c pre =>
      -- the names begin with a cut byte and with another one
      rw [hreadable] at heq
      have hfirst : lowerByte c = lowerByte b := by
        rw [hsplit] at heq
        exact (List.cons.inj heq).1
      have hb := hhead b rest hsafe
      have hbmem : b ∈ legacyTunnelFileStem tunnelName := by rw [hsplit]; simp
      have hcmem : c ∈ legacyTunnelFileStem tunnelName := by rw [hsplit]; simp
      rw [← hlower b hbmem, ← hfirst, hlower c hcmem, hpre c (List.mem_cons_self ..)] at hb
      cases hb

end trimming

section files

theorem isAscii_append {s t : Str} (hs : IsAscii s) (ht : IsAscii t) : IsAscii (s ++ t) :=
  fun b hb => (List.mem_append.mp hb).elim (hs b) (ht b)

theorem isAscii_of_stem {s : Str} (h : ∀ b ∈ s, isStemByte b = true) : IsAscii s :=
  fun b hb => (isStemByte_facts b (h b hb)).1

theorem safeTunnelFileStem_ascii (p : Naming) (a : Str) : IsAscii (p.safeTunnelFileStem a) := by
  refine isAscii_append (isAscii_of_stem (readableStem_bytes a)) fun b hb => ?_
  rcases List.mem_cons.mp hb with rfl | hb
  · decide
  · exact (hexEncode_facts _ b hb).1

theorem settingsFile_ascii (p : Naming) (a : Str) : IsAscii (p.settingsFile a) :=
  isAscii_append (safeTunnelFileStem_ascii p a) (by decide)

theorem historyFile_ascii (p : Naming) (a : Str) : IsAscii (p.historyFile a) :=
  isAscii_append (settingsFile_ascii p a) (by decide)

theorem legacyFile_ascii (a : Str) : IsAscii (legacyFile a) :=
  isAscii_append (isAscii_of_stem (legacyTunnelFileStem_bytes a)) (by decide)

variable {p : Naming} (hp : p.Lawful)
include hp

/-- Names with one ending that are one file have one beginning, up to case. -/
theorem Naming.Lawful.stem_eq {s t : Str} (ending : Str) (hs : IsAscii (s ++ ending))
    (ht : IsAscii (t ++ ending)) (h : p.key (s ++ ending) = p.key (t ++ ending)) :
    s.map lowerByte = t.map lowerByte := by
  have hfold := hp.folds _ _ hs ht h
  rw [List.map_append, List.map_append] at hfold
  exact List.append_cancel_right hfold

theorem Naming.Lawful.tag_length (a : Str) : (p.tag a).length = 6 := by
  rw [Naming.tag, List.length_take, hp.digest]
  rfl

/-- The last byte of the stem of a settings file is a digit of the hash. -/
theorem Naming.Lawful.stem_concat (a : Str) : ∃ front last, last ∈ hexEncode (p.tag a) ∧
    p.safeTunnelFileStem a = readableStem a ++ (front ++ [last]) := by
  have hlength := hexEncode_length (p.tag a)
  rw [hp.tag_length a] at hlength
  rcases List.eq_nil_or_concat (hexEncode (p.tag a)) with hnil | ⟨front, last, heq⟩
  · rw [hnil] at hlength
    cases hlength
  · refine ⟨0x2D :: front, last, by rw [heq]; simp, ?_⟩
    rw [Naming.safeTunnelFileStem, heq]
    simp

/-- Profiles share a settings file only if they share the part of the hash in its name. -/
theorem Naming.Lawful.settingsFile_key {a b : Str}
    (h : p.key (p.settingsFile a) = p.key (p.settingsFile b)) : p.tag a = p.tag b := by
  have hstem := hp.stem_eq _ (settingsFile_ascii p a) (settingsFile_ascii p b) h
  simp only [Naming.safeTunnelFileStem, List.map_append, List.map_cons, hexEncode_lower] at hstem
  have htail := (List.append_inj' hstem (by
    simp only [List.length_cons, hexEncode_length, hp.tag_length])).2
  exact hexEncode_injective (List.cons.inj htail).2

/-- No settings file is a history file. -/
theorem Naming.Lawful.historyFile_ne (a b : Str) :
    p.key (p.historyFile a) ≠ p.key (p.settingsFile b) := by
  intro h
  have hname : p.historyFile a = (p.settingsFile a ++ ascii ".history") ++ ascii ".json" := by
    rw [Naming.historyFile, List.append_assoc]
    rfl
  obtain ⟨front, last, hlast, hstem⟩ := hp.stem_concat b
  have heq := hp.stem_eq (ascii ".json") (hname ▸ historyFile_ascii p a) (settingsFile_ascii p b)
    (hname ▸ h)
  have hgetLast := congrArg List.getLast? heq
  obtain ⟨-, -, hy, hlower⟩ := hexEncode_facts _ last hlast
  have hhistory : ((p.settingsFile a ++ ascii ".history").map lowerByte).getLast? = some 0x79 := by
    rw [List.getLast?_map, List.getLast?_append_of_ne_nil _ (by decide)]
    rfl
  rw [hhistory, hstem, ← List.append_assoc, List.getLast?_map, List.getLast?_concat,
    Option.map_some, hlower] at hgetLast
  exact hy (Option.some.inj hgetLast).symm

theorem Naming.Lawful.legacyFile_ne {a : Str} (ha : Conf.tunnelNameIsValid a = true) :
    p.key (legacyFile a) ≠ p.key (p.settingsFile a) := by
  intro h
  obtain ⟨front, last, hlast, hstem⟩ := hp.stem_concat a
  obtain ⟨-, hcut, -, hlower⟩ := hexEncode_facts _ last hlast
  have heq := hp.stem_eq (ascii ".json") (legacyFile_ascii a) (settingsFile_ascii p a) h
  rw [hstem] at heq
  exact legacyTunnelFileStem_ne a front last ha (hlower.symm ▸ hcut) heq

theorem Naming.Lawful.legacyFile_ne_history {a : Str} (ha : Conf.tunnelNameIsValid a = true) :
    p.key (legacyFile a) ≠ p.key (p.historyFile a) := by
  intro h
  have hname : p.historyFile a = (readableStem a ++ ((0x2D :: hexEncode (p.tag a) ++
      ascii ".json.histor") ++ [0x79])) ++ ascii ".json" := by
    simp only [Naming.historyFile, Naming.settingsFile, Naming.safeTunnelFileStem, List.append_assoc]
    rfl
  have heq := hp.stem_eq (ascii ".json") (legacyFile_ascii a) (hname ▸ historyFile_ascii p a)
    (hname ▸ h)
  exact legacyTunnelFileStem_ne a _ 0x79 ha (by decide) heq

end files

end SmartAwg.Smart
