import SmartAwg.GoStrings

/-!
Case operations seen from the end of a string: an ASCII byte is never part of a longer encoding, and no
letter outside ASCII becomes a letter of a file extension.
-/

namespace SmartAwg.Go

section runes

theorem leadByte_low (b lo hi : UInt8) (n : Nat) (h : leadByte b = some (n, lo, hi)) :
    0x80 ≤ lo ∧ (n = 2 ∨ n = 3 ∨ n = 4) := by
  have hall : ∀ m : Fin 256, (leadByte m.val.toUInt8).all fun (n, lo, _) =>
      0x80 ≤ lo ∧ (n = 2 ∨ n = 3 ∨ n = 4) := by decide +kernel
  have hb := hall ⟨b.toNat, b.toNat_lt⟩
  simpa [h] using hb

theorem within_ascii (lo hi b : UInt8) (hlo : 0x80 ≤ lo) (hb : b < 0x80) : within lo hi b = false := by
  have : ¬lo ≤ b := by
    simp only [UInt8.le_iff_toNat_le, UInt8.lt_iff_toNat_lt] at hlo hb ⊢
    omega
  rw [within, decide_eq_false this, Bool.false_and]

/-- A rune does not reach into an ASCII byte. -/
theorem decodeRune_append_ascii (a s : Str) (b : UInt8) (ha : a ≠ []) (hb : b < 0x80) :
    decodeRune (a ++ b :: s) = decodeRune a ∧ (decodeRune a).2 ≤ a.length := by
  rcases a with _ | ⟨b0, a⟩
  · exact absurd rfl ha
  rw [List.cons_append]
  by_cases h0 : b0 < 0x80
  · rw [decodeRune_ascii _ _ h0, decodeRune_ascii _ _ h0]
    exact ⟨rfl, Nat.succ_le_succ (Nat.zero_le _)⟩
  have hlast : within 0x80 0xBF b = false := within_ascii _ _ b (by decide) hb
  cases hlead : leadByte b0 with
  | none => simp [decodeRune, h0, hlead]
  | some row =>
    obtain ⟨n, lo, hi⟩ := row
    obtain ⟨hlow, hn⟩ := leadByte_low b0 lo hi n hlead
    have hfirst : within lo hi b = false := within_ascii _ _ b hlow hb
    -- the bytes of the encoding are all there, or one of them is missing or the ASCII byte
    rcases hn with rfl | rfl | rfl <;> rcases a with _ | ⟨b1, _ | ⟨b2, _ | ⟨b3, a⟩⟩⟩ <;>
      rcases s with _ | ⟨c1, _ | ⟨c2, s⟩⟩ <;>
      simp only [decodeRune, h0, hlead, hfirst, hlast, if_false, List.cons_append, List.nil_append,
        Bool.and_false, Bool.false_and, Bool.false_eq_true, true_and, List.length_cons, List.length_nil] <;>
      first | omega | (split <;> simp)

theorem runesFrom_append_ascii (a s : Str) (b : UInt8) (hb : b < 0x80) (skip : Nat) (h : skip ≤ a.length) :
    runesFrom skip (a ++ b :: s) = runesFrom skip a ++ runes (b :: s) := by
  induction a generalizing skip with
  | nil =>
    obtain rfl := Nat.le_zero.mp h
    rfl
  | cons x a ih =>
    cases skip with
    | zero =>
      obtain ⟨hsame, hwidth⟩ := decodeRune_append_ascii (x :: a) s b (List.cons_ne_nil _ _) hb
      rw [List.cons_append] at hsame ⊢
      rw [runesFrom, hsame, runesFrom, List.cons_append, ih _ (by rw [List.length_cons] at hwidth; omega)]
    | succ skip =>
      rw [List.cons_append, runesFrom, runesFrom, ih skip (Nat.le_of_succ_le_succ h)]

theorem runes_append_ascii (a s : Str) (b : UInt8) (hb : b < 0x80) :
    runes (a ++ b :: s) = runes a ++ runes (b :: s) :=
  runesFrom_append_ascii a s b hb 0 (Nat.zero_le _)

theorem toLower_append_cons (a s : Str) (b : UInt8) (hb : b < 0x80) :
    toLower (a ++ b :: s) = toLower a ++ lowerByte b :: toLower s := by
  rw [← toLower_cons_ascii b s hb, toLower, runes_append_ascii a s b hb, List.flatMap_append]
  rfl

theorem runesFrom_beyond (skip : Nat) (s : Str) (h : s.length ≤ skip) : runesFrom skip s = [] := by
  induction s generalizing skip with
  | nil => cases skip <;> rfl
  | cons x s ih =>
    obtain ⟨skip, rfl⟩ : ∃ k, skip = k + 1 := ⟨skip - 1, by rw [List.length_cons] at h; omega⟩
    exact ih skip (Nat.le_of_succ_le_succ h)

theorem isAscii_of_runes (s : Str) (h : ∀ r ∈ runes s, r < 0x80) : IsAscii s := by
  induction s with
  | nil => nofun
  | cons b s ih =>
    by_cases hb : b < 0x80
    · rw [runes_cons_ascii b s hb] at h
      exact List.forall_mem_cons.mpr ⟨hb, ih (List.forall_mem_cons.mp h).2⟩
    · have hhead : (decodeRune (b :: s)).1 ∈ runes (b :: s) := List.mem_cons_self
      exact absurd (decodeRune_nonascii b s hb) (Nat.not_le.mpr (h _ hhead))

/-- A last byte outside ASCII belongs to a rune outside ASCII. -/
theorem runesFrom_last (s : Str) (c : UInt8) (hc : ¬c < 0x80) (hlast : s.getLast? = some c) (skip : Nat)
    (h : skip < s.length) : ∃ rs r, runesFrom skip s = rs ++ [r] ∧ 0x80 ≤ r := by
  induction s generalizing skip with
  | nil => cases hlast
  | cons x s ih =>
    have htail : s ≠ [] → s.getLast? = some c := by
      intro hne
      rwa [List.getLast?_cons_of_ne_nil hne] at hlast
    cases skip with
    | zero =>
      rw [runesFrom]
      by_cases hmore : (decodeRune (x :: s)).2 - 1 < s.length
      · have hne : s ≠ [] := by
          rintro rfl
          exact absurd hmore (Nat.not_lt_zero _)
        obtain ⟨rs, r, hrs, hr⟩ := ih (htail hne) _ hmore
        exact ⟨(decodeRune (x :: s)).1 :: rs, r, by rw [hrs]; rfl, hr⟩
      · rw [runesFrom_beyond _ s (Nat.le_of_not_lt hmore)]
        refine ⟨[], _, rfl, decodeRune_nonascii x s fun hx => ?_⟩
        -- an ASCII byte is a rune of its own, so it would be the last byte
        rw [decodeRune_ascii x s hx, Nat.sub_self, Nat.not_lt, Nat.le_zero, List.length_eq_zero_iff] at hmore
        subst hmore
        cases hlast
        exact hc hx
    | succ skip =>
      have hlt := Nat.lt_of_succ_lt_succ h
      exact ih (htail fun hnil => by rw [hnil] at hlt; cases hlt) skip hlt

end runes

section lower

theorem lowerRune_large (r : Nat) (hr : 0x80 ≤ r) :
    0x80 ≤ lowerRune r ∨ lowerRune r = 0x69 ∨ lowerRune r = 0x6B := by
  have htable : ∀ row ∈ lowerTable, row.2.1 < 0x80 ∨ 0x80 ≤ row.2.2.2 ∨
      row.1 = row.2.1 ∧ (row.2.2.2 = 0x69 ∨ row.2.2.2 = 0x6B) := by decide +kernel
  unfold lowerRune
  split
  · rename_i lo hi step image hfind
    have hrow := htable _ (List.mem_of_find?_eq_some hfind)
    have hin := List.find?_some hfind
    simp only [Bool.and_eq_true, decide_eq_true_eq] at hin hrow ⊢
    omega
  · exact Or.inl hr

theorem encodeRune_large (r : Nat) (hr : 0x80 ≤ r) : encodeRune r ≠ [] ∧ ∀ b ∈ encodeRune r, 0x80 ≤ b := by
  have hbyte : ∀ n : Nat, 0x80 ≤ n → n < 256 → 0x80 ≤ n.toUInt8 := by
    intro n hlo hhi
    rw [UInt8.le_iff_toNat_le, Nat.toUInt8_eq, UInt8.toNat_ofNat']
    have : (0x80 : UInt8).toNat = 0x80 := rfl
    omega
  unfold encodeRune
  rw [if_neg (Nat.not_lt.mpr hr)]
  split
  · refine ⟨List.cons_ne_nil _ _, ?_⟩
    simp only [List.forall_mem_cons]
    exact ⟨hbyte _ (by omega) (by omega), hbyte _ (by omega) (by omega), nofun⟩
  split
  · refine ⟨List.cons_ne_nil _ _, ?_⟩
    simp only [List.forall_mem_cons]
    exact ⟨by decide, by decide, by decide, nofun⟩
  split
  · refine ⟨List.cons_ne_nil _ _, ?_⟩
    simp only [List.forall_mem_cons]
    exact ⟨hbyte _ (by omega) (by omega), hbyte _ (by omega) (by omega), hbyte _ (by omega) (by omega), nofun⟩
  · refine ⟨List.cons_ne_nil _ _, ?_⟩
    simp only [List.forall_mem_cons]
    exact ⟨hbyte _ (by omega) (by omega), hbyte _ (by omega) (by omega), hbyte _ (by omega) (by omega),
      hbyte _ (by omega) (by omega), nofun⟩

theorem exe_bytes : ascii ".exe" = [0x2E, 0x65, 0x78, 0x65] := by decide +kernel

/-- The bytes of an extension, as lower-casing writes them, come from such bytes. -/
theorem toLower_snoc (s t : Str) (x : UInt8) (hx : x ∈ ascii ".exe") (h : toLower s = t ++ [x]) :
    ∃ a c, s = a ++ [c] ∧ c < 0x80 ∧ lowerByte c = x ∧ toLower a = t := by
  rcases List.eq_nil_or_concat' s with rfl | ⟨a, c, rfl⟩
  · exact absurd h.symm (by simp)
  by_cases hc : c < 0x80
  · rw [toLower_append_cons a [] c hc, toLower_nil] at h
    obtain ⟨ha, hlast⟩ := List.append_inj' h rfl
    exact ⟨a, c, rfl, hc, (List.cons.inj hlast).1, ha⟩
  · obtain ⟨rs, r, hrs, hr⟩ := runesFrom_last (a ++ [c]) c hc (by simp) 0 (by simp)
    rw [toLower, runes, hrs, List.flatMap_append, List.flatMap_singleton] at h
    have hmem : encodeRune (lowerRune r) ≠ [] → x ∈ encodeRune (lowerRune r) := by
      intro hne
      have hlast := congrArg List.getLast? h
      rw [List.getLast?_append_of_ne_nil _ hne, List.getLast?_append_of_ne_nil _ (List.cons_ne_nil _ _)] at hlast
      exact List.mem_of_getLast? hlast
    rcases lowerRune_large r hr with hlarge | hi | hk
    · obtain ⟨hne, hall⟩ := encodeRune_large _ hlarge
      have hsmall : ∀ y ∈ ([0x2E, 0x65, 0x78, 0x65] : Str), ¬0x80 ≤ y := by decide
      rw [exe_bytes] at hx
      exact absurd (hall x (hmem hne)) (hsmall x hx)
    · rw [hi] at hmem
      rw [List.mem_singleton.mp (hmem (by decide)), exe_bytes] at hx
      exact absurd hx (by decide)
    · rw [hk] at hmem
      rw [List.mem_singleton.mp (hmem (by decide)), exe_bytes] at hx
      exact absurd hx (by decide)

end lower

end SmartAwg.Go
