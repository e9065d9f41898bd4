import SmartAwg.ConfLines

/-! Every kind of value, printed and read again: keys, numbers, prefixes, lists, keepalives. -/
namespace SmartAwg.Conf
open Go

/-- A byte that is no white space, no number sign and no comma. -/
def isPlain (b : UInt8) : Bool := decide (Solid b) && b != 0x23 && b != 0x2C

def PlainText (s : Str) : Prop := ∀ b ∈ s, isPlain b = true

theorem PlainText.clean {s : Str} (h : PlainText s) : CleanText s := by
  refine ⟨trimmed_of_solid s fun b hb => ?_, fun hb => ?_, fun hb => ?_⟩
  · have := h b hb
    simp only [isPlain, Bool.and_eq_true, decide_eq_true_eq] at this
    exact this.1.1
  · exact absurd (h _ hb) (by decide)
  · exact absurd (h _ hb) (by decide)

theorem PlainText.no_comma {s : Str} (h : PlainText s) : 0x2C ∉ s :=
  fun hb => absurd (h _ hb) (by decide)

theorem isPlain_of_written (b : UInt8) (h : isBase64 b = true ∨ isAddrByte b = true ∨ b = 0x2F) :
    isPlain b = true := by
  revert h
  refine byte_forall
    (fun b => isBase64 b = true ∨ isAddrByte b = true ∨ b = 0x2F → isPlain b = true) ?_ b
  decide +kernel

theorem itoa_plain (n : Nat) : PlainText (itoa n) := fun b hb =>
  isPlain_of_written b (Or.inr (Or.inl (by simp [isAddrByte, isDigit_isHex b (itoa_isDigit n b hb)])))

theorem key_string_plain (k : Key) : PlainText k.string := fun b hb =>
  isPlain_of_written b (Or.inl (base64Encode_isBase64 _ b hb))

theorem key_string_ne_nil (k : Key) : k.string ≠ [] := by
  obtain ⟨bytes, hlen⟩ := k
  match bytes, hlen with
  | a :: b :: c :: rest, _ => simp [Key.string, base64Encode, base64Group]

theorem parseKeyBase64_string (k : Key) : parseKeyBase64 k.string = .ok k := by
  simp [parseKeyBase64, Key.string, base64Decode_encode, k.length_eq]

theorem parseBounded_itoa (lo hi : Int) (why : String) (v : UInt16) (hlo : lo ≤ v.toNat)
    (hhi : (v.toNat : Int) ≤ hi) : parseBounded lo hi why (itoa v.toNat) = .ok v := by
  have hv := v.toNat_lt
  rw [parseBounded, atoi_itoa v.toNat (by omega)]
  simp only
  rw [if_neg (by omega)]
  simp

theorem parseUint16_itoa (v : UInt16) (name : String) :
    parseUint16 (itoa v.toNat) name = .ok v :=
  parseBounded_itoa _ _ _ v (by omega) (by have := v.toNat_lt; omega)

theorem parsePort_itoa (v : UInt16) : parsePort (itoa v.toNat) = .ok v :=
  parseBounded_itoa _ _ _ v (by omega) (by have := v.toNat_lt; omega)

theorem parseMTU_itoa (v : UInt16) (h : 576 ≤ v.toNat) : parseMTU (itoa v.toNat) = .ok v :=
  parseBounded_itoa _ _ _ v (by omega) (by have := v.toNat_lt; omega)

/-- An address of one of the two families in its own length, with a prefix that fits it. -/
def IPCidr.Fits (r : IPCidr) : Prop :=
  (r.ip.length = 4 ∧ r.cidr.toNat ≤ 32) ∨
    (r.ip.length = 16 ∧ to4 r.ip = none ∧ r.cidr.toNat ≤ 128)

instance (r : IPCidr) : Decidable r.Fits := by
  unfold IPCidr.Fits
  infer_instance

theorem IPCidr.Fits.length {r : IPCidr} (h : r.Fits) : r.ip.length = 4 ∨ r.ip.length = 16 :=
  h.imp And.left And.left

theorem ipCidr_string_plain (r : IPCidr) (h : r.Fits) : PlainText r.string := by
  intro b hb
  rw [IPCidr.string, List.mem_append, List.mem_cons] at hb
  rcases hb with hb | rfl | hb
  · exact isPlain_of_written b (Or.inr (Or.inl (ipString_bytes _ h.length b hb)))
  · decide
  · exact itoa_plain _ b hb

theorem ipCidr_string_ne_nil (r : IPCidr) : r.string ≠ [] := by simp [IPCidr.string]

/-- A prefix is read back as it was printed. -/
theorem parseIPCidr_string (r : IPCidr) (h : r.Fits) : parseIPCidr r.string = .ok r := by
  have hslash : 0x2F ∉ ipString r.ip := by
    intro hmem
    have := ipString_bytes r.ip h.length _ hmem
    simp [isAddrByte, isHex, hexVal] at this
  have hcut : cutCidr r.string = .ok (ipString r.ip, some (itoa r.cidr.toNat)) := by
    rw [cutCidr, IPCidr.string, indexByte_append_cons _ _ _ hslash]
    simp only [slice_zero_append, sliceFrom_append_cons, Outcome.ok_bind]
  have hbits := r.cidr.toNat_lt
  rw [parseIPCidr, hcut, Outcome.ok_bind]
  simp only
  rw [makeIPCidr]
  rcases h with ⟨hlen, hle⟩ | ⟨hlen, hnone, hle⟩
  · have h4 : to4 (v4InV6 ++ r.ip) = some r.ip := by
      rw [to4_eq_some _ _ (by simp [v4InV6, hlen])]
    simp only [parseIP_ipString_four r.ip hlen, h4, Option.getD_some, Option.isSome_some, and_true,
      atoi_itoa _ (show r.cidr.toNat < 2 ^ 63 by omega)]
    rw [if_neg (by omega), if_neg (by omega)]
    simp
  · simp only [parseIP_ipString_sixteen r.ip hlen, hnone, Option.getD_none, Option.isSome_none,
      Bool.false_eq_true, and_false, if_false, atoi_itoa _ (show r.cidr.toNat < 2 ^ 63 by omega)]
    rw [if_neg (by omega)]
    simp

theorem forEach_appendIPCidr (acc cidrs : List IPCidr) (h : ∀ r ∈ cidrs, r.Fits) :
    forEach appendIPCidr acc (cidrs.map IPCidr.string) = .ok (acc ++ cidrs) := by
  induction cidrs generalizing acc with
  | nil => simp
  | cons r cidrs ih =>
    rw [List.map_cons, forEach_cons, appendIPCidr, parseIPCidr_string r (h r (by simp))]
    simp only [Outcome.ok_bind]
    rw [ih _ fun r' hr' => h r' (by simp [hr'])]
    simp

/-- A part of a comma-separated list. -/
def ListPart (s : Str) : Prop := CleanText s ∧ s ≠ [] ∧ 0x2C ∉ s

theorem splitOn_join_comma (p : Str) (ps : List Str) (h : ∀ q ∈ p :: ps, 0x2C ∉ q) :
    (join (p :: ps) (ascii ", ")).splitOn 0x2C = p :: ps.map (0x20 :: ·) := by
  induction ps generalizing p with
  | nil =>
    rw [join_singleton, List.splitOn_eq_singleton (h p (by simp))]
    rfl
  | cons q ps ih =>
    have hsep : ascii ", " = [0x2C, 0x20] := rfl
    have hblank : 0x2C ∉ 0x20 :: q := by simpa using h q (by simp)
    rw [join_cons_cons, hsep, List.cons_append,
      List.splitOn_append_cons_self_of_not_mem (h p (by simp)), List.singleton_append, ← hsep]
    -- The blank after the comma belongs to the next part.
    have htail := ih (0x20 :: q) (by
      intro r hr
      rcases List.mem_cons.mp hr with rfl | hr
      · exact hblank
      · exact h r (by simp [hr]))
    cases ps with
    | nil => simpa using htail
    | cons r ps => simpa using htail

theorem splitListFrom_trimmed (whole : Str) (ps : List Str) (h : ∀ q ∈ ps, Trimmed q ∧ q ≠ []) :
    splitListFrom whole (ps.map (0x20 :: ·)) = .ok ps := by
  induction ps with
  | nil => rfl
  | cons q ps ih =>
    obtain ⟨htrim, hne⟩ := h q (by simp)
    rw [List.map_cons, splitListFrom]
    simp only [trimSpace_space_cons, trimSpace_of_trimmed q htrim, List.length_eq_zero_iff, hne,
      if_false, ih fun r hr => h r (by simp [hr])]
    rfl

/-- A printed list is split into its parts. -/
theorem splitList_join (ps : List Str) (hne : ps ≠ []) (h : ∀ q ∈ ps, ListPart q) :
    splitList (join ps (ascii ", ")) = .ok ps := by
  obtain ⟨p, ps, rfl⟩ := List.exists_cons_of_ne_nil hne
  obtain ⟨hclean, hpne, -⟩ := h p (by simp)
  rw [splitList, splitOn_join_comma p ps fun q hq => (h q hq).2.2, splitListFrom]
  simp only [trimSpace_of_trimmed p hclean.1, List.length_eq_zero_iff, hpne, if_false]
  rw [splitListFrom_trimmed _ ps fun q hq => ⟨(h q (by simp [hq])).1.1, (h q (by simp [hq])).2.1⟩]
  rfl

theorem join_ne_nil (ps : List Str) (hne : ps ≠ []) (h : ∀ q ∈ ps, q ≠ []) :
    join ps (ascii ", ") ≠ [] := by
  match ps, hne with
  | [p], _ => simpa using h p (by simp)
  | p :: q :: ps, _ => simp [h p (by simp)]

theorem join_clean (ps : List Str) (h : ∀ q ∈ ps, ListPart q) : CleanText (join ps (ascii ", ")) := by
  refine ⟨⟨?_, ?_⟩, ?_, ?_⟩
  · match ps with
    | [] => exact noLead_nil
    | [p] => simpa using (h p (by simp)).1.1.1
    | p :: q :: ps =>
      rw [join_cons_cons]
      exact (noLead_append_cons p _ 0x2C (by decide)).mpr (h p (by simp)).1.1.1
  · induction ps with
    | nil => exact noTrail_nil
    | cons p ps ih =>
      cases ps with
      | nil => simpa using (h p (by simp)).1.1.2
      | cons q ps =>
        have htail := ih fun r hr => h r (by simp [hr])
        have hne := join_ne_nil (q :: ps) (by simp) fun r hr => (h r (by simp [hr])).2.1
        rw [join_cons_cons, show ascii ", " = [0x2C, 0x20] from rfl] at *
        have := noTrail_append_ascii (p ++ [0x2C]) _ 0x20 (by decide) hne htail
        simpa using this
  · intro hmem
    rcases mem_join _ _ _ hmem with ⟨p, hp, hb⟩ | hb
    · exact (h p hp).1.2.1 hb
    · exact absurd hb (by decide)
  · intro hmem
    rcases mem_join _ _ _ hmem with ⟨p, hp, hb⟩ | hb
    · exact (h p hp).1.2.2 hb
    · exact absurd hb (by decide)

theorem PlainText.listPart {s : Str} (h : PlainText s) (hne : s ≠ []) : ListPart s :=
  ⟨h.clean, hne, h.no_comma⟩

theorem ipCidr_listPart (cidrs : List IPCidr) (h : ∀ r ∈ cidrs, r.Fits) :
    ∀ q ∈ cidrs.map IPCidr.string, ListPart q := by
  intro q hq
  obtain ⟨r, hr, rfl⟩ := List.mem_map.mp hq
  exact (ipCidr_string_plain r (h r hr)).listPart (ipCidr_string_ne_nil r)

end SmartAwg.Conf
