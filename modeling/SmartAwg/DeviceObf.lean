import Mathlib.Algebra.GroupWithZero.Nat
import SmartAwg.ConfRoundTrip

/-!
The obfuscation chains of the device (`newObfChain`). A description that `ValidateCPS` accepts
builds a chain with one element for each of its tags.
-/

namespace SmartAwg.Awg

open Go

/-- One element of a chain. -/
inductive Obf where
  | bytes (data : Str)
  | timestamp
  | rand (length : Nat)
  | randChar (length : Nat)
  | randDigits (length : Nat)
  | data
  | dataString
  | dataSize (length : Nat)
  deriving DecidableEq

/-- `EncodedLen` of the base64 encoding without padding. -/
def rawEncodedLen (n : Nat) : Nat := n / 3 * 4 + (n % 3 * 8 + 5) / 6

/-- `ObfuscatedLen` of one element. -/
def Obf.obfuscatedLen (n : Nat) : Obf → Nat
  | .bytes content => content.length
  | .timestamp => 4
  | .rand length => length
  | .randChar length => length
  | .randDigits length => length
  | .data => n
  | .dataString => rawEncodedLen n
  | .dataSize length => length

inductive ObfError where
  | text (msg : String)
  | num (e : NumError)
  | hex (e : HexError)
  deriving DecidableEq

/-- The builders with a length: `Atoi` and the bounds check. -/
def newLengthObf (make : Nat → Obf) (val : Str) : Except ObfError Obf :=
  match atoi val with
  | .error e => .error (.num e)
  | .ok length =>
    if length < 0 ∨ length > 65507 then .error (.text "CPS length is out of bounds")
    else .ok (make length.toNat)

def newRandObf (val : Str) : Except ObfError Obf := newLengthObf .rand val

def newRandCharObf (val : Str) : Except ObfError Obf := newLengthObf .randChar val

def newRandDigitsObf (val : Str) : Except ObfError Obf := newLengthObf .randDigits val

def newDataSizeObf (val : Str) : Except ObfError Obf := newLengthObf .dataSize val

def newBytesObf (val : Str) : Except ObfError Obf :=
  let val := if (ascii "0x").isPrefixOf val then val.drop 2 else val
  if val.length = 0 then .error (.text "empty argument")
  else if val.length % 2 ≠ 0 then .error (.text "odd amount of symbols")
  else
    match hexDecode val with
    | .error e => .error (.hex e)
    | .ok data => .ok (.bytes data)

inductive ObfBuilder where
  | b | t | r | rc | rd | d | ds | dz
  deriving DecidableEq

def ObfBuilder.build (val : Str) : ObfBuilder → Except ObfError Obf
  | b => newBytesObf val
  | t => .ok .timestamp
  | r => newRandObf val
  | rc => newRandCharObf val
  | rd => newRandDigitsObf val
  | d => .ok .data
  | ds => .ok .dataString
  | dz => newDataSizeObf val

def obfBuilders : List (String × ObfBuilder) :=
  [("b", .b), ("t", .t), ("r", .r), ("rc", .rc), ("rd", .rd), ("d", .d), ("ds", .ds), ("dz", .dz)]

/-- What goes wrong with one tag; the errors of all tags are joined. -/
inductive TagError where
  | emptyTag
  | unknownTag (key : Str)
  | failedToBuild (key : Str) (e : ObfError)
  deriving DecidableEq

inductive ChainError where
  | missingClose
  | joined (errs : List TagError)
  deriving DecidableEq

structure ObfChain where
  spec : Str
  obfs : List Obf
  deriving DecidableEq

/-- One tag: the first field names the builder, the second is its argument. -/
def buildTag (tag : Str) : Except TagError Obf :=
  match fields tag with
  | [] => .error .emptyTag
  | key :: rest =>
    match lookupKey obfBuilders key with
    | none => .error (.unknownTag key)
    | some builder =>
      match builder.build (rest.head?.getD []) with
      | .error e => .error (.failedToBuild key e)
      | .ok o => .ok o

/-- The loop of `newObfChain`. Each round removes at least two bytes, so with the length as
fuel the first equation only meets a text without tags. -/
def obfLoop : Nat → Str → List Obf → List TagError → Outcome ChainError (List Obf × List TagError)
  | 0, remaining, obfs, errs => if 0x3C ∈ remaining then .panic else .ok (obfs, errs)
  | fuel + 1, remaining, obfs, errs =>
    match indexByte remaining 0x3C with
    | none => .ok (obfs, errs)
    | some start =>
      sliceFrom remaining start >>= fun opened =>
      match indexByte opened 0x3E with
      | none => .err .missingClose
      | some close =>
        slice remaining (start + 1) (close + start) >>= fun tag =>
        sliceFrom remaining (close + start + 1) >>= fun remaining' =>
        match buildTag tag with
        | .error e => obfLoop fuel remaining' obfs (errs ++ [e])
        | .ok o => obfLoop fuel remaining' (obfs ++ [o]) errs

/-- `newObfChain`; a text without tags gives no chain. -/
def newObfChain (spec : Str) : Outcome ChainError (Option ObfChain) :=
  obfLoop spec.length spec [] [] >>= fun (obfs, errs) =>
  if errs ≠ [] then .err (.joined errs)
  else if obfs = [] then .ok none
  else .ok (some ⟨spec, obfs⟩)

section accepted
open Conf

theorem newLengthObf_ok (make : Nat → Obf) (arg : Str) (n : Nat) (hn : n ≤ 65507)
    (h : parseUint arg 16 = .ok n) : newLengthObf make arg = .ok (make n) := by
  rw [newLengthObf, atoi_of_parseUint arg 16 n (by decide) h]
  simp only [Int.toNat_natCast]
  rw [if_neg (by omega)]

/-- A range without a minus sign is one number. -/
theorem parseAWGRange_single (arg : Str) (bits : Nat) (r : Nat × Nat) (hminus : 0x2D ∉ arg)
    (h : parseAWGRange arg bits = .ok r) : parseUint arg bits = .ok r.1 := by
  rw [parseAWGRange, List.splitOn_eq_singleton hminus] at h
  simp only [rangeBoundary] at h
  split at h
  · cases h
  split at h
  · split at h
    · rename_i n hn
      cases h
      exact hn
    · cases h
  · cases h

theorem hexDecode_length (s t : Str) (h : hexDecode s = .ok t) : s.length / 2 = t.length := by
  fun_induction hexDecode s generalizing t with
  | case1 =>
    cases h
    rfl
  | case2 => cases h
  | case3 => cases h
  | case4 => cases h
  | case5 => cases h
  | case6 p q rest a b hp hq ih =>
    cases hrest : hexDecode rest with
    | error e =>
      rw [hrest] at h
      cases h
    | ok t' =>
      rw [hrest] at h
      cases h
      have := ih t' hrest
      simp only [List.length_cons]
      omega

theorem newBytesObf_of_hex (arg data bytes : Str)
    (hdata : data = if (ascii "0x").isPrefixOf arg then arg.drop 2 else arg)
    (hshape : ¬(data = [] ∨ data.length % 2 ≠ 0)) (hhex : hexDecode data = .ok bytes) :
    newBytesObf arg = .ok (.bytes bytes) := by
  unfold newBytesObf
  simp only [← hdata]
  rw [if_neg (by simpa using (not_or.mp hshape).1), if_neg (not_or.mp hshape).2]
  simp only [hhex]

/-- A tag the validator counts builds an element of the size it adds. -/
theorem cpsTag_builds (tag arg : Str) (size timestamps size' timestamps' : Nat)
    (hsize : size' ≤ 65507) (h : cpsTag tag arg size timestamps = .ok (size', timestamps')) :
    ∃ builder o, lookupKey obfBuilders tag = some builder ∧ builder.build arg = .ok o ∧
      size' = size + o.obfuscatedLen 0 := by
  unfold cpsTag at h
  split at h
  · rename_i hmem
    split at h
    · rename_i low high hrange
      split at h
      · cases h
      · rename_i hsingle
        cases h
        have hparse := parseAWGRange_single arg 16 _ (not_or.mp hsingle).2 hrange
        have hlow : low ≤ 65507 := by omega
        have htags : ∀ t ∈ ["r", "rc", "rd", "dz"].map ascii, lookupKey obfBuilders t = some .r ∨
            lookupKey obfBuilders t = some .rc ∨ lookupKey obfBuilders t = some .rd ∨
            lookupKey obfBuilders t = some .dz := by decide +kernel
        rcases htags tag hmem with ht | ht | ht | ht
        all_goals exact ⟨_, _, ht, newLengthObf_ok _ arg low hlow hparse, rfl⟩
    · cases h
  split at h
  · rename_i hb
    subst hb
    simp only at h
    generalize hdata : (if (ascii "0x").isPrefixOf arg then arg.drop 2 else arg) = data at h
    split at h
    · cases h
    rename_i hshape
    split at h
    · cases h
    · rename_i bytes hhex
      cases h
      have hbuild := newBytesObf_of_hex arg data bytes hdata.symm hshape hhex
      refine ⟨.b, .bytes bytes, by decide +kernel, hbuild, ?_⟩
      rw [Obf.obfuscatedLen, hexDecode_length _ _ hhex]
  split at h
  · rename_i ht
    subst ht
    split at h
    · cases h
    split at h
    · cases h
    · cases h
      exact ⟨.t, .timestamp, by decide +kernel, rfl, rfl⟩
  split at h
  · rename_i hd
    split at h
    · cases h
    cases h
    rcases hd with rfl | rfl
    · exact ⟨.d, .data, by decide +kernel, rfl, rfl⟩
    · exact ⟨.ds, .dataString, by decide +kernel, rfl, rfl⟩
  · cases h

theorem buildTag_of_cps (inside tag arg : Str) (builder : ObfBuilder) (o : Obf)
    (hparts : cpsParts inside = .ok (tag, arg)) (hlookup : lookupKey obfBuilders tag = some builder)
    (hbuild : builder.build arg = .ok o) : buildTag inside = .ok o := by
  unfold cpsParts at hparts
  split at hparts
  · rename_i hfields
    cases hparts
    simp [buildTag, hfields, hlookup, hbuild]
  · rename_i hfields
    cases hparts
    simp [buildTag, hfields, hlookup, hbuild]
  · cases hparts

/-- White space has no angle bracket in it. -/
theorem not_solid_ne (b : UInt8) (h : ¬ Solid b) : b ≠ 0x3C := by
  rintro rfl
  exact h (by decide)

theorem white_no_bracket {s : Str} (h : White s) : 0x3C ∉ s :=
  fun hmem => not_solid_ne _ (h.not_solid _ hmem) rfl

/-- What is left for the device is what is left for the validator, with white space around it. -/
structure SameTags (remaining rest : Str) : Prop where
  split : ∃ lead trail, White lead ∧ White trail ∧ remaining = lead ++ rest ++ trail

theorem sameTags_trimSpace (rest trail : Str) (h : White trail) :
    SameTags (rest ++ trail) (trimSpace rest) := by
  obtain ⟨a, b, ha, hb, hs⟩ := trimSpace_split rest
  refine ⟨a, b ++ trail, ha, hb.append h, ?_⟩
  rw [← List.append_assoc, ← hs]

/-- A description: tags, given by what is between their brackets, and white space between them. -/
inductive CpsText : Str → List Str → Prop
  | blank {w : Str} : White w → CpsText w []
  | tag {w inside rest : Str} {tags : List Str} : White w → 0x3E ∉ inside → CpsText rest tags →
    CpsText (w ++ 0x3C :: (inside ++ 0x3E :: rest)) (inside :: tags)

/-- The loop of `ValidateCPS` with both numbers it keeps: the size and the number of tags. -/
def cpsScan : Nat → Str → Nat → Nat → Nat → Outcome Err (Nat × Nat)
  | 0, rest, size, count, _ => if rest = [] then .ok (size, count) else .panic
  | fuel + 1, rest, size, count, timestamps =>
    if rest = [] then .ok (size, count)
    else
      index rest 0 >>= fun first =>
      if first ≠ 0x3C then .err (.text "CPS must consist of <tag> elements")
      else
        match indexByte rest 0x3E with
        | none => .err (.text "CPS has an unclosed tag")
        | some close =>
          slice rest 1 close >>= fun inside =>
          .ofExcept (cpsParts inside) >>= fun (tag, arg) =>
          .ofExcept (cpsTag tag arg size timestamps) >>= fun (size', timestamps') =>
          if size' > 65507 then .err (.text "CPS packet exceeds UDP payload limit")
          else if count + 1 > 4096 then .err (.text "too many CPS tags")
          else
            sliceFrom rest (close + 1) >>= fun rest' =>
            cpsScan fuel (trimSpace rest') size' (count + 1) timestamps'

/-- The validator returns the number of tags of the scan. -/
theorem cpsLoop_eq_scan (fuel : Nat) (rest : Str) (size count timestamps : Nat) :
    cpsLoop fuel rest size count timestamps =
      cpsScan fuel rest size count timestamps >>= fun sums => .ok sums.2 := by
  induction fuel generalizing rest size count timestamps with
  | zero =>
    unfold cpsLoop cpsScan
    split <;> rfl
  | succ fuel ih =>
    unfold cpsLoop cpsScan
    split
    · rfl
    · simp only [bind_assoc]
      congr 1
      funext first
      split
      · rfl
      cases indexByte rest 0x3E with
      | none => rfl
      | some close =>
        simp only [bind_assoc]
        congr 1
        funext inside
        congr 1
        funext parts
        congr 1
        funext sums
        split
        · rfl
        split
        · rfl
        · simp only [bind_assoc, ih]

/-- What one round of the validator has seen. -/
theorem cpsScan_succ_ok (fuel : Nat) (rest : Str) (size count timestamps : Nat) (sums : Nat × Nat)
    (h : cpsScan (fuel + 1) rest size count timestamps = .ok sums) :
    (rest = [] ∧ sums = (size, count)) ∨
      ∃ inside tail tag arg size' timestamps', rest = 0x3C :: (inside ++ 0x3E :: tail) ∧
        0x3E ∉ inside ∧ cpsParts inside = .ok (tag, arg) ∧
        cpsTag tag arg size timestamps = .ok (size', timestamps') ∧ size' ≤ 65507 ∧
        cpsScan fuel (trimSpace tail) size' (count + 1) timestamps' = .ok sums := by
  unfold cpsScan at h
  split at h
  · rename_i hnil
    cases h
    exact Or.inl ⟨hnil, rfl⟩
  rename_i hne
  obtain ⟨b, rest, rfl⟩ := List.exists_cons_of_ne_nil hne
  obtain ⟨first, hfirst, h⟩ := (Outcome.bind_eq_ok _ _ _).mp h
  split at h
  · cases h
  rename_i hlt
  cases hfirst
  obtain rfl : b = 0x3C := by simpa using hlt
  split at h
  · cases h
  rename_i close hclose
  obtain ⟨a, tail, ha, hnot, rfl⟩ := (indexByte_eq_some _ _ _).mp hclose
  obtain ⟨inside, rfl⟩ : ∃ inside, a = 0x3C :: inside := by
    cases a with
    | nil => cases ha
    | cons c a =>
      cases ha
      exact ⟨a, rfl⟩
  rw [ha] at h
  have hinside : (slice (0x3C :: inside ++ 0x3E :: tail) 1 (0x3C :: inside).length :
      Outcome Err Str) = .ok inside := by
    rw [slice_of_le _ _ _ (by simp) (by simp)]
    simp
  rw [hinside, Outcome.ok_bind] at h
  obtain ⟨⟨tag, arg⟩, hparts, h⟩ := (Outcome.bind_eq_ok _ _ _).mp h
  obtain ⟨⟨size', timestamps'⟩, htag, h⟩ := (Outcome.bind_eq_ok _ _ _).mp h
  dsimp only at h
  split at h
  · cases h
  split at h
  · cases h
  rename_i hsize _
  obtain ⟨rest', hrest', h⟩ := (Outcome.bind_eq_ok _ _ _).mp h
  rw [sliceFrom_append_cons] at hrest'
  cases hrest'
  exact Or.inr ⟨inside, tail, tag, arg, size', timestamps', ha,
    fun hx => hnot (List.mem_cons_of_mem _ hx), (Outcome.ofExcept_eq_ok _ _).mp hparts,
    (Outcome.ofExcept_eq_ok _ _).mp htag, by omega, h⟩

theorem obfLoop_done (fuel : Nat) (remaining : Str) (obfs : List Obf) (errs : List TagError)
    (h : 0x3C ∉ remaining) : obfLoop fuel remaining obfs errs = .ok (obfs, errs) := by
  cases fuel with
  | zero => rw [obfLoop, if_neg h]
  | succ fuel => rw [obfLoop, (indexByte_eq_none remaining _).mpr h]

theorem obfLoop_tag (fuel : Nat) (lead inside tail : Str) (obfs : List Obf) (errs : List TagError)
    (o : Obf) (hlead : 0x3C ∉ lead) (hinside : 0x3E ∉ inside) (ho : buildTag inside = .ok o) :
    obfLoop (fuel + 1) (lead ++ 0x3C :: (inside ++ 0x3E :: tail)) obfs errs =
      obfLoop fuel tail (obfs ++ [o]) errs := by
  have hopened : (sliceFrom (lead ++ 0x3C :: (inside ++ 0x3E :: tail)) lead.length :
      Outcome ChainError Str) = .ok (0x3C :: inside ++ 0x3E :: tail) := by
    rw [sliceFrom_of_le _ _ (by simp)]
    simp
  have hclose : indexByte (0x3C :: inside ++ 0x3E :: tail) 0x3E = some (inside.length + 1) :=
    indexByte_append_cons (0x3C :: inside) tail 0x3E (by simpa using hinside)
  have htag : (slice (lead ++ 0x3C :: (inside ++ 0x3E :: tail)) (lead.length + 1)
      (inside.length + 1 + lead.length) : Outcome ChainError Str) = .ok inside := by
    have hlen : inside.length + 1 + lead.length = (lead ++ 0x3C :: inside).length := by
      simp
      omega
    rw [hlen, slice_of_le _ _ _ (by simp) (by simp),
      show lead ++ 0x3C :: (inside ++ 0x3E :: tail) = (lead ++ 0x3C :: inside) ++ 0x3E :: tail by simp,
      List.take_left]
    simp
  have hrest : (sliceFrom (lead ++ 0x3C :: (inside ++ 0x3E :: tail))
      (inside.length + 1 + lead.length + 1) : Outcome ChainError Str) = .ok tail := by
    have := sliceFrom_append_cons (ε := ChainError) (lead ++ 0x3C :: inside) tail 0x3E
    rw [show (lead ++ 0x3C :: inside).length + 1 = inside.length + 1 + lead.length + 1 by
      simp; omega] at this
    simpa using this
  rw [obfLoop, indexByte_append_cons lead _ _ hlead]
  simp only [hopened, Outcome.ok_bind, hclose, htag, hrest, ho]

/-- Accepted tags, and the elements they build. -/
structure Builds (remaining : Str) (tags : List Str) (new : List Obf) : Prop where
  text : CpsText remaining tags
  elements : List.Forall₂ (fun inside o => buildTag inside = .ok o) tags new

/-- What the rest of the loops of the validator and of the device have in common. -/
def SameEnd (fuel : Nat) (remaining : Str) (obfs : List Obf) (size count : Nat) (sums : Nat × Nat) : Prop :=
  ∃ tags new, Builds remaining tags new ∧ obfLoop fuel remaining obfs [] = .ok (obfs ++ new, []) ∧
    sums = (size + (new.map (Obf.obfuscatedLen 0)).sum, count + new.length) ∧ sums.1 ≤ 65507

theorem sameEnd_blank (fuel : Nat) (remaining : Str) (obfs : List Obf) (size count : Nat)
    (hsame : SameTags remaining []) (hsize : size ≤ 65507) :
    SameEnd fuel remaining obfs size count (size, count) := by
  obtain ⟨lead, trail, hlead, htrail, rfl⟩ := hsame
  rw [List.append_nil]
  have hwhite := hlead.append htrail
  refine ⟨[], [], ⟨.blank hwhite, .nil⟩, ?_, rfl, hsize⟩
  rw [obfLoop_done fuel _ obfs [] (white_no_bracket hwhite), List.append_nil]

/-- The device reads the tags the validator counted, one element of the same size for each. -/
theorem obfLoop_of_cpsScan (fuel fuel' : Nat) (rest remaining : Str)
    (size count timestamps : Nat) (sums : Nat × Nat) (obfs : List Obf) (hfuel : remaining.length ≤ fuel')
    (hsame : SameTags remaining rest) (hsize : size ≤ 65507)
    (h : cpsScan fuel rest size count timestamps = .ok sums) :
    SameEnd fuel' remaining obfs size count sums := by
  -- Induction on the validator's fuel; each round of it is one round of the device.
  induction fuel generalizing fuel' rest remaining size count timestamps obfs with
  | zero =>
    unfold cpsScan at h
    split at h
    · rename_i hnil
      subst hnil
      cases h
      exact sameEnd_blank fuel' remaining obfs size count hsame hsize
    · cases h
  | succ fuel ih =>
    rcases cpsScan_succ_ok fuel rest size count timestamps sums h with ⟨rfl, rfl⟩ |
      ⟨inside, tail, tag, arg, size', timestamps', rfl, hinside, hparts, htag, hsize', hnext⟩
    · exact sameEnd_blank fuel' remaining obfs size count hsame hsize
    · obtain ⟨lead, trail, hlead, htrail, rfl⟩ := hsame
      obtain ⟨builder, o, hlookup, hbuild, hlen⟩ := cpsTag_builds tag arg _ _ _ _ hsize' htag
      have ho := buildTag_of_cps inside tag arg builder o hparts hlookup hbuild
      simp only [List.length_append, List.length_cons] at hfuel
      obtain ⟨fuel'', rfl⟩ : ∃ f, fuel' = f + 1 := ⟨fuel' - 1, by omega⟩
      have hstep := obfLoop_tag fuel'' lead inside (tail ++ trail) obfs [] o (white_no_bracket hlead) hinside ho
      have hsame' := sameTags_trimSpace tail trail htrail
      obtain ⟨tags, new, hbuilds, hnew, hsums, hmax⟩ := ih fuel'' (trimSpace tail) (tail ++ trail) size'
        (count + 1) timestamps' (obfs ++ [o]) (by rw [List.length_append]; omega) hsame' hsize' hnext
      have htext : lead ++ 0x3C :: (inside ++ 0x3E :: tail) ++ trail =
        lead ++ 0x3C :: (inside ++ 0x3E :: (tail ++ trail)) := by simp
      refine ⟨inside :: tags, o :: new, ?_, ?_, ?_, hmax⟩
      · rw [htext]
        exact ⟨.tag hlead hinside hbuilds.text, .cons ho hbuilds.elements⟩
      · rw [htext, hstep, hnew]
        simp
      · rw [hsums, hlen]
        simp only [List.map_cons, List.sum_cons, List.length_cons, Prod.mk.injEq]
        omega

theorem cpsScan_of_validateCPS (spec : Str) (h : validateCPS spec = .ok ()) :
    ∃ size count, cpsScan spec.length (trimSpace spec) 0 0 0 = .ok (size, count) ∧ count ≠ 0 := by
  unfold validateCPS at h
  split at h
  · cases h
  obtain ⟨total, hloop, h⟩ := (Outcome.bind_eq_ok _ _ _).mp h
  split at h
  · cases h
  rename_i htotal
  rw [cpsLoop_eq_scan] at hloop
  obtain ⟨⟨size, count⟩, hscan, hcount⟩ := (Outcome.bind_eq_ok _ _ _).mp hloop
  cases hcount
  exact ⟨size, count, hscan, htotal⟩

/-- An accepted description builds a chain: an element for each tag, with the sizes the validator
summed. -/
theorem newObfChain_of_scan (spec : Str) (size count : Nat) (hcount : count ≠ 0)
    (hscan : cpsScan spec.length (trimSpace spec) 0 0 0 = .ok (size, count)) :
    ∃ tags obfs, newObfChain spec = .ok (some ⟨spec, obfs⟩) ∧ Builds spec tags obfs ∧
      size = (obfs.map (Obf.obfuscatedLen 0)).sum ∧ count = obfs.length ∧ size ≤ 65507 := by
  have hsame : SameTags spec (trimSpace spec) := by
    simpa using sameTags_trimSpace spec [] White.nil
  obtain ⟨tags, obfs, hbuilds, hloop, hsums, hmax⟩ := obfLoop_of_cpsScan _ spec.length _ spec 0 0 0
    (size, count) [] (Nat.le_refl _) hsame (Nat.zero_le _) hscan
  obtain ⟨hsize, hlen⟩ := Prod.mk.inj hsums
  rw [Nat.zero_add] at hsize hlen
  have hne : obfs ≠ [] := by
    rintro rfl
    exact hcount hlen
  exact ⟨tags, obfs, by simp [newObfChain, hloop, hne], hbuilds, hsize, hlen, hmax⟩

theorem newObfChain_of_validateCPS (spec : Str) (h : validateCPS spec = .ok ()) :
    ∃ chain, newObfChain spec = .ok (some chain) ∧ chain.spec = spec := by
  obtain ⟨size, count, hscan, hcount⟩ := cpsScan_of_validateCPS spec h
  obtain ⟨tags, obfs, hchain, -⟩ := newObfChain_of_scan spec size count hcount hscan
  exact ⟨⟨spec, obfs⟩, hchain, rfl⟩

end accepted

end SmartAwg.Awg
