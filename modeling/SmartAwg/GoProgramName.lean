import SmartAwg.GoFilepathAgain
import SmartAwg.GoUtf8Ends

/-!
File names with the extension of a program, in any case. The extension is found by its bytes, and
nothing at such an end is trimmed or cleaned.
-/

namespace SmartAwg.Go

section extension

/-- A file name with the extension of a program, in any case. -/
def EndsExe (s : Str) : Prop := ∃ front e, s = front ++ e ∧ e.map lowerByte = ascii ".exe"

theorem EndsExe.bytes {e : Str} (he : e.map lowerByte = ascii ".exe") :
    IsAscii e ∧ e ≠ [] ∧ ∀ b ∈ e, Solid b ∧ b ≠ 0x22 := by
  have hall : ∀ b : UInt8, lowerByte b ∈ ascii ".exe" → b < 0x80 ∧ Solid b ∧ b ≠ 0x22 :=
    byte_forall _ (by decide +kernel)
  have hmem : ∀ b ∈ e, lowerByte b ∈ ascii ".exe" := fun b hb => he ▸ List.mem_map_of_mem hb
  refine ⟨fun b hb => (hall b (hmem b hb)).1, ?_, fun b hb => (hall b (hmem b hb)).2⟩
  rintro rfl
  rw [exe_bytes] at he
  cases he

theorem endsExe_iff (s : Str) : (ascii ".exe").isSuffixOf (toLower s) = true ↔ EndsExe s := by
  have hmem : ∀ x ∈ ([0x2E, 0x65, 0x78, 0x65] : Str), x ∈ ascii ".exe" := by
    rw [exe_bytes]
    exact fun x hx => hx
  rw [List.isSuffixOf_iff_suffix]
  constructor
  · rintro ⟨t, ht⟩
    rw [exe_bytes] at ht
    obtain ⟨s, c4, rfl, h4, hc4, ht⟩ := toLower_snoc s (t ++ [0x2E, 0x65, 0x78]) 0x65 (hmem _ (by simp)) (by simp [← ht])
    obtain ⟨s, c3, rfl, h3, hc3, ht⟩ := toLower_snoc s (t ++ [0x2E, 0x65]) 0x78 (hmem _ (by simp)) (by simp [ht])
    obtain ⟨s, c2, rfl, h2, hc2, ht⟩ := toLower_snoc s (t ++ [0x2E]) 0x65 (hmem _ (by simp)) (by simp [ht])
    obtain ⟨s, c1, rfl, h1, hc1, ht⟩ := toLower_snoc s t 0x2E (hmem _ (by simp)) ht
    refine ⟨s, [c1, c2, c3, c4], by simp, ?_⟩
    rw [exe_bytes, List.map_cons, List.map_cons, List.map_cons, List.map_cons, hc1, hc2, hc3, hc4, List.map_nil]
  · rintro ⟨front, e, rfl, he⟩
    obtain ⟨hascii, hne, -⟩ := EndsExe.bytes he
    obtain ⟨c, e, rfl⟩ := List.exists_cons_of_ne_nil hne
    obtain ⟨hc, hrest⟩ := List.forall_mem_cons.mp hascii
    refine ⟨toLower front, ?_⟩
    rw [toLower_append_cons front e c hc, toLower_ascii e hrest, ← he]
    rfl

theorem foldRune_ascii (b : UInt8) (hb : b < 0x80) : foldRune b.toNat = (lowerByte b).toNat := by
  have hlarge : ∀ e ∈ foldExceptions, 0x80 ≤ e.1 := by decide
  unfold foldRune
  split
  · rename_i c image hfind
    have hsame := List.find?_some hfind
    have hc := hlarge _ (List.mem_of_find?_eq_some hfind)
    simp only [beq_iff_eq] at hsame hc
    exact absurd hc (hsame ▸ Nat.not_le.mpr hb)
  rw [lowerRune_ascii b.toNat hb]
  revert hb
  exact byte_forall (fun b => b < 0x80 → (if 0x41 ≤ b.toNat ∧ b.toNat ≤ 0x5A then b.toNat + 32 else b.toNat) =
    (lowerByte b).toNat) (by decide +kernel) b

theorem foldRune_large (r : Nat) (hr : 0x80 ≤ r) : ∀ x ∈ ascii ".exe", foldRune r ≠ x.toNat := by
  have hsmall : ∀ x ∈ ascii ".exe", x.toNat < 0x80 ∧ x.toNat ≠ 0x69 ∧ x.toNat ≠ 0x6B ∧ x.toNat ≠ 0x73 := by
    rw [exe_bytes]
    decide
  have himages : ∀ e ∈ foldExceptions, 0x80 ≤ e.2 ∨ e.2 = 0x73 := by decide
  intro x hx
  obtain ⟨hlt, hi, hk, hs⟩ := hsmall x hx
  unfold foldRune
  split
  · rename_i image hfind
    have := himages _ (List.mem_of_find?_eq_some hfind)
    simp only at this
    omega
  · have := lowerRune_large r hr
    omega

/-- A string whose runes are folded to an extension is that extension. -/
theorem equalFold_exe (s : Str) (h : equalFold s (ascii ".exe") = true) : s.map lowerByte = ascii ".exe" := by
  have hsmall : IsAscii (ascii ".exe") ∧ (ascii ".exe").map lowerByte = ascii ".exe" := by
    rw [exe_bytes]
    exact ⟨by unfold IsAscii; decide, by decide⟩
  rw [equalFold_iff, runes_ascii (ascii ".exe") hsmall.1, List.map_map] at h
  have hfold : (ascii ".exe").map (foldRune ∘ UInt8.toNat) = (ascii ".exe").map UInt8.toNat := by
    calc
      (ascii ".exe").map (foldRune ∘ UInt8.toNat) = (ascii ".exe").map (UInt8.toNat ∘ lowerByte) :=
        List.map_congr_left fun b hb => foldRune_ascii b (hsmall.1 b hb)
      _ = (ascii ".exe").map UInt8.toNat := by rw [← List.map_map, hsmall.2]
  rw [hfold] at h
  have hascii : IsAscii s := by
    refine isAscii_of_runes s fun r hr => Nat.lt_of_not_le fun hlarge => ?_
    obtain ⟨x, hx, heq⟩ := List.mem_map.mp (h ▸ List.mem_map_of_mem hr : foldRune r ∈ (ascii ".exe").map UInt8.toNat)
    exact foldRune_large r hlarge x hx heq.symm
  rw [runes_ascii s hascii, List.map_map] at h
  refine List.map_injective_iff.mpr (fun a b hab => UInt8.toNat_inj.mp hab) ?_
  rw [← h, List.map_map]
  exact (List.map_congr_left fun b hb => (foldRune_ascii b (hascii b hb)).symm)

theorem lastElement_suffix (s : Str) : lastElement s <:+ s := by
  rw [lastElement, ← List.reverse_prefix, List.reverse_reverse]
  exact List.takeWhile_prefix _

theorem endsExe_of_ext (s : Str) (h : equalFold (ext s) (ascii ".exe") = true) : EndsExe s := by
  have hexe := equalFold_exe _ h
  have hsuffix : ext s <:+ s := by
    unfold ext
    split
    · exact (List.drop_suffix _ _).trans (lastElement_suffix s)
    · exact List.nil_suffix
  obtain ⟨front, hfront⟩ := hsuffix
  exact ⟨front, ext s, hfront.symm, hexe⟩

theorem EndsExe.ne_nil {s : Str} (h : EndsExe s) : s ≠ [] := by
  obtain ⟨a, e, rfl, he⟩ := h
  exact fun hnil => (EndsExe.bytes he).2.1 (List.append_eq_nil_iff.mp hnil).2

/-- A name of a program has nothing at its end that is trimmed. -/
theorem EndsExe.noTrail {s : Str} (h : EndsExe s) : NoTrail s := by
  obtain ⟨front, e, rfl, he⟩ := h
  obtain ⟨-, hne, hbytes⟩ := EndsExe.bytes he
  rcases List.eq_nil_or_concat' e with rfl | ⟨e, c, rfl⟩
  · exact absurd rfl hne
  rw [← List.append_assoc]
  exact noTrail_concat _ c (hbytes c (by simp)).1

theorem EndsExe.endsPlain {s : Str} (h : EndsExe s) : EndsPlain s := by
  obtain ⟨front, e, rfl, he⟩ := h
  have hlast := congrArg List.getLast? he
  rw [List.getLast?_map] at hlast
  have hexe : (ascii ".exe").getLast? = some 0x65 := by
    rw [exe_bytes]
    rfl
  obtain ⟨b, hb, hlower⟩ := Option.map_eq_some_iff.mp (hlast.trans hexe)
  have hne : e ≠ [] := by
    rintro rfl
    cases hb
  refine ⟨b, by rw [List.getLast?_append_of_ne_nil _ hne, hb], ?_⟩
  revert hlower
  exact byte_forall (fun b => lowerByte b = 0x65 → b ∉ ([0x2E, 0x2F, 0x3A, 0x3F, 0x5C] : Str))
    (by decide +kernel) b

/-- What is cut off in front of a program does not reach into the extension. -/
theorem EndsExe.of_front {a s : Str} (h : EndsExe (a ++ s)) (ha : ∀ b ∈ a, ¬(Solid b ∧ b ≠ 0x22)) :
    EndsExe s := by
  obtain ⟨front, e, hsplit, he⟩ := h
  rcases List.append_eq_append_iff.mp hsplit with ⟨u, -, hs⟩ | ⟨u, rfl, hu⟩
  · exact ⟨u, e, hs, he⟩
  · cases u with
    | nil => exact ⟨[], e, hu.symm, he⟩
    | cons c u =>
      have hc : c ∈ e := by
        rw [hu]
        exact List.mem_cons_self
      exact absurd ((EndsExe.bytes he).2.2 c hc) (ha c (by simp))

theorem EndsExe.trimSpace {s : Str} (h : EndsExe s) :
    EndsExe (trimSpace s) ∧ ∃ front, s = front ++ Go.trimSpace s := by
  obtain ⟨a, b, ha, hb, hs⟩ := trimSpace_split s
  have hnil : b = [] := by
    obtain ⟨parts, hparts, rfl⟩ := hb
    rcases List.eq_nil_or_concat' parts with rfl | ⟨parts, w, rfl⟩
    · rfl
    · refine absurd ⟨a ++ Go.trimSpace s ++ parts.flatten, ?_⟩ (h.noTrail w (hparts w (by simp)))
      conv_rhs => rw [hs]
      simp
  rw [hnil, List.append_nil] at hs
  rw [hs] at h
  exact ⟨h.of_front fun c hc hsolid => ha.not_solid c hc hsolid.1, a, hs⟩

end extension

end SmartAwg.Go
