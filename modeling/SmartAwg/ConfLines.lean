import SmartAwg.ConfSafety
import SmartAwg.ConfWriter

/-! What the parser does with a line the writer wrote: the key is found again whatever the
value holds, as long as the value is trimmed and has no line feed and no number sign. -/
namespace SmartAwg.Conf
open Go

/-- A text that can stand as the value of a line. -/
def CleanText (v : Str) : Prop := Trimmed v ∧ 0x0A ∉ v ∧ 0x23 ∉ v

instance (v : Str) : Decidable (CleanText v) :=
  inferInstanceAs (Decidable (Trimmed v ∧ 0x0A ∉ v ∧ 0x23 ∉ v))

def isAlnum (b : UInt8) : Bool := within 0x30 0x39 b || within 0x41 0x5A b || within 0x61 0x7A b

theorem isAlnum_facts (b : UInt8) (h : isAlnum b = true) :
    Solid b ∧ b < 0x80 ∧ b ∉ [0x0A, 0x23, 0x3D, 0x5B] ∧ isAlnum (lowerByte b) = true := by
  revert h
  refine byte_forall (fun b => isAlnum b = true → Solid b ∧ b < 0x80 ∧
    b ∉ [0x0A, 0x23, 0x3D, 0x5B] ∧ isAlnum (lowerByte b) = true) ?_ b
  decide +kernel

/-- A key as the writer prints it: a nonempty word of letters and digits. -/
def IsWord (s : Str) : Prop := s ≠ [] ∧ ∀ b ∈ s, isAlnum b = true

instance (s : Str) : Decidable (IsWord s) :=
  inferInstanceAs (Decidable (s ≠ [] ∧ ∀ b ∈ s, isAlnum b = true))

theorem IsWord.not_mem {s : Str} (h : IsWord s) (b : UInt8) (hb : b ∈ [0x0A, 0x23, 0x3D, 0x5B]) :
    b ∉ s :=
  fun hs => (isAlnum_facts b (h.2 b hs)).2.2.1 hb

theorem IsWord.solid {s : Str} (h : IsWord s) : ∀ b ∈ s, Solid b :=
  fun b hb => (isAlnum_facts b (h.2 b hb)).1

theorem IsWord.isAscii {s : Str} (h : IsWord s) : IsAscii s :=
  fun b hb => (isAlnum_facts b (h.2 b hb)).2.1

theorem IsWord.map_lowerByte {s : Str} (h : IsWord s) : IsWord (s.map lowerByte) := by
  refine ⟨by simpa using h.1, fun b hb => ?_⟩
  obtain ⟨c, hc, rfl⟩ := List.mem_map.mp hb
  exact (isAlnum_facts c (h.2 c hc)).2.2.2

/-- A word with a blank after it, as the key is cut from its line. -/
theorem trimSpace_word_space (s : Str) (h : IsWord s) : trimSpace (s ++ [0x20]) = s := by
  have htrim := trimmed_of_solid s h.solid
  have hlead : NoLead (s ++ [0x20]) := by
    cases s with
    | nil => exact absurd rfl h.1
    | cons b s => exact noLead_cons b _ (h.solid b (by simp))
  have hrev : (s ++ [0x20]).reverse = 0x20 :: s.reverse := by simp
  have hfind : ((spaces.map List.reverse).find? fun w => w.isPrefixOf (0x20 :: s.reverse)) =
      some [0x20] := rfl
  rw [trimSpace, trimLeft_of_noLead _ hlead, trimRight, hrev, List.length_append, List.length_singleton]
  simp only [stripFront, hfind, List.length_singleton, List.drop_succ_cons, List.drop_zero]
  rw [stripFront_eq_self _ _ _ ((noTrail_iff_reverse s).mp htrim.2), List.reverse_reverse]

section entry
variable (label : String) (v : Str) (hl : IsWord (ascii label)) (hv : CleanText v) (hne : v ≠ [])
include hl hv hne

theorem entryText_trimmed : Trimmed (entryText label v) := by
  obtain ⟨b, s, hs⟩ := List.exists_cons_of_ne_nil hl.1
  rw [entryText, hs, List.cons_append]
  have := trimmed_cons_append b 0x20 (s ++ [0x20, 0x3D]) v (hl.solid b (by simp [hs])) (by decide)
    hv.1.2 hne
  simpa using this

theorem lineText_entryText : lineText (entryText label v) = entryText label v := by
  have hpound : 0x23 ∉ entryText label v := by
    have := hl.not_mem 0x23 (by simp)
    simp [entryText, this, hv.2.2]
  have hall : (entryText label v).takeWhile (fun b => b != 0x23) = entryText label v := by
    rw [List.takeWhile_eq_self_iff]
    intro b hb
    simp only [bne_iff_ne]
    rintro rfl
    exact hpound hb
  rw [lineText, hall, trimSpace_of_trimmed _ (entryText_trimmed label v hl hv hne)]

omit hv hne in
theorem toLower_entryText :
    toLower (entryText label v) = (ascii label).map lowerByte ++ 0x20 :: 0x3D :: 0x20 :: toLower v := by
  rw [entryText, toLower_append_ascii _ _ hl.isAscii, toLower_cons_ascii _ _ (by decide),
    toLower_cons_ascii _ _ (by decide), toLower_cons_ascii _ _ (by decide)]
  rfl

omit hv hne in
/-- The lower-cased line starts with a letter or a digit, so it is no section header. -/
theorem toLower_entryText_ne (t : Str) (ht : t.head? = some 0x5B) :
    toLower (entryText label v) ≠ t := by
  rw [toLower_entryText label v hl]
  obtain ⟨b, s, hs⟩ := List.exists_cons_of_ne_nil hl.map_lowerByte.1
  rintro rfl
  rw [hs, List.cons_append, List.head?_cons, Option.some.injEq] at ht
  exact hl.map_lowerByte.not_mem 0x5B (by simp) (by simp [hs, ht])

/-- A written line is an assignment of the value to the lower-cased key. -/
theorem parseLine_entry (st : ParserState) :
    parseLine st (entryText label v) =
      if st.state = .notInASection then
        .err (.parse "Line must occur in a section" (entryText label v))
      else st.assign ((ascii label).map lowerByte) v := by
  have hline := lineText_entryText label v hl hv hne
  have hnil : (entryText label v).length ≠ 0 := by simp [entryText]
  have hequals : indexByte (entryText label v) 0x3D = some ((ascii label).length + 1) := by
    have hmem : 0x3D ∉ ascii label ++ [0x20] := by
      have := hl.not_mem 0x3D (by simp)
      simp [this]
    have := indexByte_append_cons (ascii label ++ [0x20]) (0x20 :: v) 0x3D hmem
    simpa [entryText] using this
  have hkey : (slice (toLower (entryText label v)) 0 ((ascii label).length + 1) : Outcome Err Str) =
      .ok ((ascii label).map lowerByte ++ [0x20]) := by
    have := slice_zero_append (ε := Err) ((ascii label).map lowerByte ++ [0x20])
      (0x3D :: 0x20 :: toLower v)
    rw [toLower_entryText label v hl]
    simpa using this
  have hval : (sliceFrom (entryText label v) ((ascii label).length + 1 + 1) : Outcome Err Str) =
      .ok (0x20 :: v) := by
    have := sliceFrom_append_cons (ε := Err) (ascii label ++ [0x20]) (0x20 :: v) 0x3D
    simpa [entryText] using this
  have hvlen : v.length ≠ 0 := by simpa using hne
  rw [parseLine, stripComment_eq, Outcome.ok_bind]
  simp only
  rw [← lineText, hline, if_neg hnil, if_neg (toLower_entryText_ne label v hl _ rfl),
    if_neg (toLower_entryText_ne label v hl _ rfl)]
  simp only [hequals, hkey, hval, Outcome.ok_bind, trimSpace_word_space _ hl.map_lowerByte,
    trimSpace_space_cons, trimSpace_of_trimmed v hv.1, hvlen, and_false, if_false]

end entry

theorem parseLine_blank (st : ParserState) : parseLine st [] = .ok st := rfl

theorem parseLine_interface_header (st : ParserState) :
    parseLine st (ascii "[Interface]") =
      .ok { st with conf := st.addPeer, peer := none, state := .inInterfaceSection } := by
  have hline : lineText (ascii "[Interface]") = ascii "[Interface]" := by decide +kernel
  have hlower : toLower (ascii "[Interface]") = ascii "[interface]" := by decide +kernel
  rw [parseLine, stripComment_eq, Outcome.ok_bind]
  simp only
  rw [← lineText, hline, if_neg (by decide), if_pos hlower]

theorem parseLine_peer_header (st : ParserState) :
    parseLine st (ascii "[Peer]") =
      .ok { st with conf := st.addPeer, peer := some Peer.zero, state := .inPeerSection } := by
  have hline : lineText (ascii "[Peer]") = ascii "[Peer]" := by decide +kernel
  have hlower : toLower (ascii "[Peer]") = ascii "[peer]" := by decide +kernel
  rw [parseLine, stripComment_eq, Outcome.ok_bind]
  simp only
  rw [← lineText, hline, if_neg (by decide), if_neg (by rw [hlower]; decide), if_pos hlower]

-- One evaluation of the whole table is cheaper than one per key.
theorem interfaceKeys_label : ∀ k ∈ interfaceKeys.map Prod.snd,
    IsWord (ascii k.label) ∧
      lookupKey interfaceKeys ((ascii k.label).map lowerByte) = some k := by
  decide +kernel

theorem mem_interfaceKeys (k : InterfaceKey) : k ∈ interfaceKeys.map Prod.snd := by
  cases k with
  | size k => cases k <;> decide
  | text k => cases k <;> decide
  | packet k => cases k <;> decide
  | _ => decide

theorem interfaceKey_label (k : InterfaceKey) :
    IsWord (ascii k.label) ∧
      lookupKey interfaceKeys ((ascii k.label).map lowerByte) = some k :=
  interfaceKeys_label k (mem_interfaceKeys k)

theorem peerKeys_label : ∀ k ∈ peerKeys.map Prod.snd,
    IsWord (ascii k.label) ∧ lookupKey peerKeys ((ascii k.label).map lowerByte) = some k := by
  decide +kernel

theorem peerKey_label (k : PeerKey) :
    IsWord (ascii k.label) ∧ lookupKey peerKeys ((ascii k.label).map lowerByte) = some k :=
  peerKeys_label k (by cases k <;> decide)

def Interface.applyEntry (i : Interface) (e : InterfaceKey × Str) : Outcome Err Interface :=
  i.apply e.1 e.2

def Peer.applyEntry (p : Peer) (e : PeerKey × Str) : Outcome Err Peer := p.apply e.1 e.2

/-- In the interface section the written lines are applied to the interface one by one. -/
theorem parseLines_interface (entries : List (InterfaceKey × Str))
    (hv : ∀ e ∈ entries, CleanText e.2 ∧ e.2 ≠ []) (st : ParserState)
    (hst : st.state = .inInterfaceSection) :
    parseLines st (entries.map fun (k, v) => entryText k.label v) =
      forEach Interface.applyEntry st.conf.interface entries >>= fun i =>
        .ok { st with
          conf := { st.conf with interface := i }
          sawPrivateKey := st.sawPrivateKey || entries.any fun e => e.1 == .privateKey } := by
  induction entries generalizing st with
  | nil => simp [parseLines]
  | cons e entries ih =>
    obtain ⟨k, v⟩ := e
    obtain ⟨hclean, hne⟩ := hv (k, v) (by simp)
    obtain ⟨hword, hlookup⟩ := interfaceKey_label k
    have hline := parseLine_entry k.label v hword hclean hne st
    rw [hst, if_neg (by decide), ParserState.assign, hst] at hline
    simp only [hlookup] at hline
    simp only [parseLines, List.map_cons, forEach_cons] at ih ⊢
    rw [hline]
    change _ = (st.conf.interface.apply k v >>= _) >>= _
    cases happly : st.conf.interface.apply k v with
    | ok i =>
      simp only [Outcome.ok_bind]
      rw [ih (fun e he => hv e (by simp [he])) _ rfl]
      simp [Bool.or_assoc, hst]
    | err e => rfl
    | panic => rfl

/-- In a peer section the written lines are applied to the peer one by one. -/
theorem parseLines_peer (entries : List (PeerKey × Str))
    (hv : ∀ e ∈ entries, CleanText e.2 ∧ e.2 ≠ []) (st : ParserState) (p : Peer)
    (hst : st.state = .inPeerSection) (hp : st.peer = some p) :
    parseLines st (entries.map fun (k, v) => entryText k.label v) =
      forEach Peer.applyEntry p entries >>= fun p' => .ok { st with peer := some p' } := by
  induction entries generalizing st p with
  | nil => simp [parseLines, ← hp]
  | cons e entries ih =>
    obtain ⟨k, v⟩ := e
    obtain ⟨hclean, hne⟩ := hv (k, v) (by simp)
    obtain ⟨hword, hlookup⟩ := peerKey_label k
    have hline := parseLine_entry k.label v hword hclean hne st
    rw [hst, if_neg (by decide), ParserState.assign, hst] at hline
    simp only [hlookup, hp] at hline
    simp only [parseLines, List.map_cons, forEach_cons] at ih ⊢
    rw [hline]
    change _ = (p.apply k v >>= _) >>= _
    cases happly : p.apply k v with
    | ok p' =>
      simp only [Outcome.ok_bind]
      rw [ih (fun e he => hv e (by simp [he])) _ p' rfl rfl]
      simp [hst]
    | err e => rfl
    | panic => rfl

end SmartAwg.Conf
