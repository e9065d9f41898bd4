import Mathlib.Data.List.Basic
import Mathlib.Data.List.Find
import Mathlib.Data.List.Infix
import SmartAwg.GoUtf8

/-! The `strings` package on byte lists: searching, splitting and trimming. White space is
the Unicode class, given by its UTF-8 encodings; an encoding starts with a byte that never
continues another one, so it may be looked for at any byte position and from either end. -/
namespace SmartAwg.Go

/-- `strings.IndexByte`. -/
def indexByte (s : Str) (b : UInt8) : Option Nat := s.idxOf? b

/-- `strings.LastIndexByte`. -/
def lastIndexByte (s : Str) (b : UInt8) : Option Nat :=
  (s.reverse.idxOf? b).map fun i => s.length - 1 - i

theorem indexByte_eq_none (s : Str) (b : UInt8) : indexByte s b = none ↔ b ∉ s := by
  simp [indexByte]

theorem indexByte_append_cons (a s : Str) (b : UInt8) (hb : b ∉ a) :
    indexByte (a ++ b :: s) b = some a.length := by
  induction a with
  | nil => simp [indexByte, List.idxOf?_cons]
  | cons c a ih =>
    have hc : c ≠ b := fun h => hb (by simp [h])
    have ha : b ∉ a := fun h => hb (by simp [h])
    have := ih ha
    simp only [indexByte] at this
    simp [indexByte, List.idxOf?_cons, hc, this]

/-- The first occurrence splits the string into a part without the byte and a rest. -/
theorem indexByte_eq_some (s : Str) (b : UInt8) (i : Nat) :
    indexByte s b = some i ↔ ∃ a t, s = a ++ b :: t ∧ b ∉ a ∧ i = a.length := by
  constructor
  · intro h
    have hmem : b ∈ s := by
      by_contra hb
      rw [(indexByte_eq_none s b).mpr hb] at h
      cases h
    obtain ⟨a, t, rfl, hb⟩ := List.append_of_mem hmem |>.elim fun a ⟨t, h⟩ =>
      List.eq_append_cons_of_mem hmem
    rw [indexByte_append_cons a t b hb] at h
    exact ⟨a, t, rfl, hb, by simpa using h.symm⟩
  · rintro ⟨a, t, rfl, hb, rfl⟩
    exact indexByte_append_cons a t b hb

theorem lastIndexByte_eq_none (s : Str) (b : UInt8) : lastIndexByte s b = none ↔ b ∉ s := by
  simp [lastIndexByte]

theorem lastIndexByte_append_cons (a s : Str) (b : UInt8) (hb : b ∉ s) :
    lastIndexByte (a ++ b :: s) b = some a.length := by
  have hrev : (a ++ b :: s).reverse = s.reverse ++ b :: a.reverse := by simp
  have hidx := indexByte_append_cons s.reverse a.reverse b (by simpa using hb)
  simp only [indexByte] at hidx
  rw [lastIndexByte, hrev, hidx]
  simp

/-- The last occurrence splits the string into a part and a rest without the byte. -/
theorem lastIndexByte_eq_some (s : Str) (b : UInt8) (i : Nat) :
    lastIndexByte s b = some i ↔ ∃ a t, s = a ++ b :: t ∧ b ∉ t ∧ i = a.length := by
  constructor
  · intro h
    have hmem : b ∈ s.reverse := by
      by_contra hb
      rw [(lastIndexByte_eq_none s b).mpr (by simpa using hb)] at h
      cases h
    obtain ⟨t, a, hs, hb⟩ := List.eq_append_cons_of_mem hmem
    have hs' : s = a.reverse ++ b :: t.reverse := by
      rw [← List.reverse_reverse s, hs]
      simp
    have hb' : b ∉ t.reverse := by simpa using hb
    rw [hs', lastIndexByte_append_cons _ _ _ hb'] at h
    exact ⟨a.reverse, t.reverse, hs', hb', by simpa using h.symm⟩
  · rintro ⟨a, t, rfl, hb, rfl⟩
    exact lastIndexByte_append_cons a t b hb

theorem indexByte_lt (s : Str) (b : UInt8) (i : Nat) (h : indexByte s b = some i) :
    i < s.length := by
  obtain ⟨a, t, rfl, -, rfl⟩ := (indexByte_eq_some s b i).mp h
  simp

theorem lastIndexByte_lt (s : Str) (b : UInt8) (i : Nat) (h : lastIndexByte s b = some i) :
    i < s.length := by
  obtain ⟨a, t, rfl, -, rfl⟩ := (lastIndexByte_eq_some s b i).mp h
  simp

/-- The UTF-8 encodings of the code points with the White_Space property. -/
def spaces : List Str :=
  [[0x09], [0x0A], [0x0B], [0x0C], [0x0D], [0x20], [0xC2, 0x85], [0xC2, 0xA0],
   [0xE1, 0x9A, 0x80], [0xE2, 0x80, 0x80], [0xE2, 0x80, 0x81], [0xE2, 0x80, 0x82],
   [0xE2, 0x80, 0x83], [0xE2, 0x80, 0x84], [0xE2, 0x80, 0x85], [0xE2, 0x80, 0x86],
   [0xE2, 0x80, 0x87], [0xE2, 0x80, 0x88], [0xE2, 0x80, 0x89], [0xE2, 0x80, 0x8A],
   [0xE2, 0x80, 0xA8], [0xE2, 0x80, 0xA9], [0xE2, 0x80, 0xAF], [0xE2, 0x81, 0x9F],
   [0xE3, 0x80, 0x80]]

/-- Drops members of `ws` from the front while there is one; the fuel is the length. -/
def stripFront (ws : List Str) : Nat → Str → Str
  | 0, s => s
  | n + 1, s =>
    match ws.find? fun w => w.isPrefixOf s with
    | some w => stripFront ws n (s.drop w.length)
    | none => s

def trimLeft (s : Str) : Str := stripFront spaces s.length s

def trimRight (s : Str) : Str :=
  (stripFront (spaces.map List.reverse) s.length s.reverse).reverse

/-- `strings.TrimSpace`. -/
def trimSpace (s : Str) : Str := trimRight (trimLeft s)

/-- No white space at the front. -/
def NoLead (s : Str) : Prop := ∀ w ∈ spaces, ¬ w <+: s

/-- No white space at the end. -/
def NoTrail (s : Str) : Prop := ∀ w ∈ spaces, ¬ w <:+ s

def Trimmed (s : Str) : Prop := NoLead s ∧ NoTrail s

instance (s : Str) : Decidable (NoLead s) :=
  inferInstanceAs (Decidable (∀ w ∈ spaces, ¬ w <+: s))

instance (s : Str) : Decidable (NoTrail s) :=
  inferInstanceAs (Decidable (∀ w ∈ spaces, ¬ w <:+ s))

instance (s : Str) : Decidable (Trimmed s) := inferInstanceAs (Decidable (NoLead s ∧ NoTrail s))

section strip
variable (ws : List Str)

theorem stripFront_suffix (n : Nat) (s : Str) : stripFront ws n s <:+ s := by
  induction n generalizing s with
  | zero => exact List.suffix_refl s
  | succ n ih =>
    unfold stripFront
    split
    · exact (ih _).trans (List.drop_suffix _ s)
    · exact List.suffix_refl s

theorem stripFront_eq_self (n : Nat) (s : Str) (h : ∀ w ∈ ws, ¬ w <+: s) :
    stripFront ws n s = s := by
  cases n with
  | zero => rfl
  | succ n =>
    have hnone : (ws.find? fun w => w.isPrefixOf s) = none := by
      rw [List.find?_eq_none]
      intro w hw
      simpa [List.isPrefixOf_iff_prefix] using h w hw
    simp [stripFront, hnone]

theorem stripFront_stripped (hne : ∀ w ∈ ws, w ≠ []) (n : Nat) (s : Str) (hn : s.length ≤ n) :
    ∀ w ∈ ws, ¬ w <+: stripFront ws n s := by
  induction n generalizing s with
  | zero =>
    intro w hw hp
    have hs : s = [] := List.length_eq_zero_iff.mp (by omega)
    subst hs
    exact hne w hw (List.prefix_nil.mp hp)
  | succ n ih =>
    unfold stripFront
    split
    · rename_i w hfind
      have hw := List.mem_of_find?_eq_some hfind
      have hpos : 0 < w.length := List.length_pos_of_ne_nil (hne w hw)
      exact ih _ (by simp only [List.length_drop]; omega)
    · rename_i hfind
      intro w hw hp
      have := List.find?_eq_none.mp hfind w hw
      exact this (List.isPrefixOf_iff_prefix.mpr hp)

end strip

theorem spaces_ne_nil : ∀ w ∈ spaces, w ≠ [] := by decide

theorem trimLeft_noLead (s : Str) : NoLead (trimLeft s) :=
  stripFront_stripped spaces spaces_ne_nil s.length s (Nat.le_refl _)

theorem trimLeft_of_noLead (s : Str) (h : NoLead s) : trimLeft s = s :=
  stripFront_eq_self spaces s.length s h

theorem trimLeft_suffix (s : Str) : trimLeft s <:+ s := stripFront_suffix spaces s.length s

theorem noTrail_iff_reverse (s : Str) :
    NoTrail s ↔ ∀ w ∈ spaces.map List.reverse, ¬ w <+: s.reverse := by
  simp only [NoTrail, List.forall_mem_map, List.reverse_prefix]

theorem trimRight_noTrail (s : Str) : NoTrail (trimRight s) := by
  rw [noTrail_iff_reverse, trimRight, List.reverse_reverse]
  exact stripFront_stripped _ (by decide) _ _ (by simp)

theorem trimRight_of_noTrail (s : Str) (h : NoTrail s) : trimRight s = s := by
  rw [trimRight, stripFront_eq_self _ _ _ ((noTrail_iff_reverse s).mp h),
    List.reverse_reverse]

theorem trimRight_isPrefix (s : Str) : trimRight s <+: s := by
  have h := stripFront_suffix (spaces.map List.reverse) s.length s.reverse
  rw [← List.reverse_prefix, List.reverse_reverse] at h
  exact h

theorem NoLead.of_front {s t : Str} (h : NoLead s) (ht : t <+: s) : NoLead t :=
  fun w hw hp => h w hw (hp.trans ht)

/-- What `TrimSpace` returns has no white space at either end. -/
theorem trimSpace_trimmed (s : Str) : Trimmed (trimSpace s) :=
  ⟨(trimLeft_noLead s).of_front (trimRight_isPrefix _), trimRight_noTrail _⟩

theorem trimSpace_of_trimmed (s : Str) (h : Trimmed s) : trimSpace s = s := by
  rw [trimSpace, trimLeft_of_noLead s h.1, trimRight_of_noTrail s h.2]

theorem trimSpace_eq_self_iff (s : Str) : trimSpace s = s ↔ Trimmed s :=
  ⟨fun h => h ▸ trimSpace_trimmed s, trimSpace_of_trimmed s⟩

theorem trimSpace_isInfix (s : Str) : trimSpace s <:+: s :=
  (trimRight_isPrefix _).isInfix.trans (trimLeft_suffix s).isInfix

theorem trimSpace_length_le (s : Str) : (trimSpace s).length ≤ s.length :=
  (trimSpace_isInfix s).length_le

theorem mem_of_mem_trimSpace (s : Str) (b : UInt8) (h : b ∈ trimSpace s) : b ∈ s :=
  (trimSpace_isInfix s).subset h

theorem trimSpace_space_cons (s : Str) : trimSpace (0x20 :: s) = trimSpace s := by
  have hfind : (spaces.find? fun w => w.isPrefixOf (0x20 :: s)) = some [0x20] := rfl
  have : trimLeft (0x20 :: s) = trimLeft s := by
    simp only [trimLeft, List.length_cons, stripFront, hfind, List.length_nil, List.drop_succ_cons,
      List.drop_zero]
  rw [trimSpace, this, trimSpace]

/-- A byte that is part of no white-space encoding. -/
def Solid (b : UInt8) : Prop := ∀ w ∈ spaces, b ∉ w

instance (b : UInt8) : Decidable (Solid b) := inferInstanceAs (Decidable (∀ w ∈ spaces, b ∉ w))

/-- Only the bytes up to a solid one decide whether a string starts with white space. -/
theorem noLead_append_cons (a s : Str) (b : UInt8) (hb : Solid b) :
    NoLead (a ++ b :: s) ↔ NoLead a := by
  refine ⟨fun h => h.of_front (List.prefix_append _ _), fun h w hw ⟨t, ht⟩ => ?_⟩
  rcases List.append_eq_append_iff.mp ht with ⟨u, ha, -⟩ | ⟨u, rfl, hu⟩
  · exact h w hw ⟨u, ha.symm⟩
  · rcases List.cons_eq_append_iff.mp hu with ⟨rfl, -⟩ | ⟨u', rfl, -⟩
    · exact h (a ++ []) hw (by simp)
    · exact hb _ hw (by simp)

/-- Where a white-space encoding that ends `a ++ b :: s` can begin. -/
theorem suffix_append_cons_cases (w a s : Str) (b : UInt8) (h : w <:+ a ++ b :: s) :
    w <:+ s ∨ ∃ u, w = u ++ b :: s := by
  obtain ⟨t, ht⟩ := h
  rcases List.append_eq_append_iff.mp ht with ⟨u, -, hw⟩ | ⟨u, -, hu⟩
  · exact Or.inr ⟨u, hw⟩
  · rcases List.cons_eq_append_iff.mp hu with ⟨-, hw⟩ | ⟨u', -, hs⟩
    · exact Or.inr ⟨[], hw⟩
    · exact Or.inl ⟨u', hs.symm⟩

theorem noTrail_append_cons (a s : Str) (b : UInt8) (hb : Solid b) :
    NoTrail (a ++ b :: s) ↔ NoTrail s := by
  constructor
  · exact fun h w hw hs => h w hw ((hs.trans (List.suffix_cons b s)).trans (List.suffix_append _ _))
  · intro h w hw hs
    rcases suffix_append_cons_cases w a s b hs with hs | ⟨u, rfl⟩
    · exact h w hw hs
    · exact hb _ hw (by simp)

theorem spaces_ascii_length : ∀ w ∈ spaces, ∀ b ∈ w, b < 0x80 → w.length = 1 := by
  decide +kernel

/-- A line feed after a text that is not all white space is not at its front. -/
theorem stripFront_newline (m n : Nat) (s : Str) (hm : s.length ≤ m) (hn : s.length < n) :
    stripFront spaces n (s ++ [0x0A]) =
      if stripFront spaces m s = [] then [] else stripFront spaces m s ++ [0x0A] := by
  induction n generalizing m s with
  | zero => omega
  | succ n ih =>
    cases s with
    | nil =>
      rw [stripFront_eq_self spaces m [] fun w hw hfront => spaces_ne_nil w hw (List.prefix_nil.mp hfront),
        if_pos rfl]
      change stripFront spaces n [] = []
      exact stripFront_eq_self spaces n [] fun w hw hfront => spaces_ne_nil w hw (List.prefix_nil.mp hfront)
    | cons b s =>
      obtain ⟨m, rfl⟩ : ∃ k, m = k + 1 := ⟨m - 1, by simp only [List.length_cons] at hm; omega⟩
      -- the two texts begin with the same white space
      have hsame : (spaces.find? fun w => w.isPrefixOf (b :: s ++ [0x0A])) =
          spaces.find? fun w => w.isPrefixOf (b :: s) := by
        refine List.find?_congr fun w hw => ?_
        rw [Bool.eq_iff_iff, List.isPrefixOf_iff_prefix, List.isPrefixOf_iff_prefix,
          List.prefix_concat_iff]
        refine or_iff_right fun heq => ?_
        have hlength := spaces_ascii_length w hw 0x0A (by rw [heq]; simp) (by decide)
        rw [heq] at hlength
        simp at hlength
      unfold stripFront
      rw [hsame]
      split
      · rename_i w hfind
        have hpos := List.length_pos_of_ne_nil (spaces_ne_nil w (List.mem_of_find?_eq_some hfind))
        have hfront : w.isPrefixOf (b :: s) = true := by simpa using List.find?_some hfind
        have hle := (List.isPrefixOf_iff_prefix.mp hfront).length_le
        rw [List.drop_append_of_le_length hle]
        simp only [List.length_cons] at hm hn hle
        exact ih m _ (by simp only [List.length_drop, List.length_cons]; omega)
          (by simp only [List.length_drop, List.length_cons]; omega)
      · rw [if_neg (List.cons_ne_nil _ _)]

theorem trimSpace_newline (s : Str) : trimSpace (s ++ [0x0A]) = trimSpace s := by
  have hright : ∀ t : Str, trimRight (t ++ [0x0A]) = trimRight t := by
    intro t
    have hfind : ((spaces.map List.reverse).find? fun w => w.isPrefixOf (0x0A :: t.reverse)) =
        some [0x0A] := rfl
    simp only [trimRight, List.length_append, List.length_cons, List.length_nil, Nat.zero_add,
      List.reverse_append, List.reverse_cons, List.reverse_nil, List.nil_append, List.cons_append,
      stripFront, hfind, List.drop_succ_cons, List.drop_zero]
  have hleft := stripFront_newline s.length (s ++ [0x0A]).length s (Nat.le_refl _) (by simp)
  rw [trimSpace, trimSpace, trimLeft, hleft]
  split
  · rename_i hnil
    rw [trimLeft, hnil]
  · exact hright _

/-- An ASCII byte, white space or not, is no part of a longer encoding. -/
theorem noTrail_append_ascii (a s : Str) (b : UInt8) (hb : b < 0x80) (hs : s ≠ [])
    (h : NoTrail s) : NoTrail (a ++ b :: s) := by
  intro w hw hsuf
  rcases suffix_append_cons_cases w a s b hsuf with hsuf | ⟨u, rfl⟩
  · exact h w hw hsuf
  · have hlen := spaces_ascii_length _ hw b (by simp) hb
    have hpos := List.length_pos_of_ne_nil hs
    simp only [List.length_append, List.length_cons] at hlen
    omega

theorem noLead_nil : NoLead [] := by decide

theorem noTrail_nil : NoTrail [] := by decide

theorem noLead_cons (b : UInt8) (s : Str) (hb : Solid b) : NoLead (b :: s) :=
  (noLead_append_cons [] s b hb).mpr noLead_nil

theorem noTrail_concat (s : Str) (b : UInt8) (hb : Solid b) : NoTrail (s ++ [b]) :=
  (noTrail_append_cons s [] b hb).mpr noTrail_nil

/-- A string of solid bytes is trimmed. -/
theorem trimmed_of_solid (s : Str) (h : ∀ b ∈ s, Solid b) : Trimmed s := by
  constructor
  · cases s with
    | nil => exact noLead_nil
    | cons b s => exact noLead_cons b s (h b (by simp))
  · rcases List.eq_nil_or_concat s with rfl | ⟨t, b, rfl⟩
    · exact noTrail_nil
    · rw [List.concat_eq_append] at h ⊢
      exact noTrail_concat t b (h b (by simp))

/-- A key, a separator and a nonempty trimmed value make a trimmed line. -/
theorem trimmed_cons_append (b c : UInt8) (a v : Str) (hb : Solid b) (hc : c < 0x80)
    (hv : NoTrail v) (hne : v ≠ []) : Trimmed (b :: (a ++ c :: v)) :=
  ⟨noLead_cons b _ hb, by simpa using noTrail_append_ascii (b :: a) v c hc hne hv⟩

theorem stripFront_split (ws : List Str) (n : Nat) (s : Str) :
    ∃ parts : List Str, (∀ w ∈ parts, w ∈ ws) ∧ s = parts.flatten ++ stripFront ws n s := by
  induction n generalizing s with
  | zero => exact ⟨[], by simp, rfl⟩
  | succ n ih =>
    unfold stripFront
    split
    · rename_i w hw
      obtain ⟨parts, hparts, hs⟩ := ih (s.drop w.length)
      have hfront : w.isPrefixOf s = true := by simpa using List.find?_some hw
      obtain ⟨t, rfl⟩ := List.isPrefixOf_iff_prefix.mp hfront
      rw [List.drop_left] at hs ⊢
      refine ⟨w :: parts, List.forall_mem_cons.mpr ⟨List.mem_of_find?_eq_some hw, hparts⟩, ?_⟩
      rw [List.flatten_cons, List.append_assoc, ← hs]
    · exact ⟨[], by simp, rfl⟩

/-- A text of white space only. -/
def White (s : Str) : Prop := ∃ parts : List Str, (∀ w ∈ parts, w ∈ spaces) ∧ s = parts.flatten

theorem White.nil : White [] := ⟨[], by simp, rfl⟩

theorem White.append {s t : Str} (hs : White s) (ht : White t) : White (s ++ t) := by
  obtain ⟨ps, hps, rfl⟩ := hs
  obtain ⟨qs, hqs, rfl⟩ := ht
  refine ⟨ps ++ qs, fun w hw => (List.mem_append.mp hw).elim (hps w) (hqs w), ?_⟩
  rw [List.flatten_append]

theorem White.not_solid {s : Str} (h : White s) : ∀ x ∈ s, ¬Solid x := by
  obtain ⟨parts, hparts, rfl⟩ := h
  intro x hx hsolid
  obtain ⟨w, hw, hxw⟩ := List.mem_flatten.mp hx
  exact hsolid w (hparts w hw) hxw

/-- What `TrimSpace` takes away is white space. -/
theorem trimSpace_split (s : Str) : ∃ a b, White a ∧ White b ∧ s = a ++ trimSpace s ++ b := by
  obtain ⟨front, hfront, hs⟩ := stripFront_split spaces s.length s
  obtain ⟨back, hback, ht⟩ :=
    stripFront_split (spaces.map List.reverse) (trimLeft s).length (trimLeft s).reverse
  refine ⟨front.flatten, back.flatten.reverse, ⟨front, hfront, rfl⟩, ?_, ?_⟩
  · refine ⟨(back.map List.reverse).reverse, fun w hw => ?_, List.reverse_flatten⟩
    obtain ⟨v, hv, rfl⟩ := List.mem_map.mp (List.mem_reverse.mp hw)
    obtain ⟨u, hu, rfl⟩ := List.mem_map.mp (hback v hv)
    rwa [List.reverse_reverse]
  · have hright : trimLeft s = trimSpace s ++ back.flatten.reverse := by
      rw [trimSpace, trimRight, ← List.reverse_append, ← ht, List.reverse_reverse]
    rw [List.append_assoc, ← hright]
    exact hs

/-- A `switch` over constant strings, or a map with them as keys. -/
def lookupKey {κ : Type} (table : List (String × κ)) (key : Str) : Option κ :=
  (table.find? fun entry => ascii entry.1 == key).map Prod.snd

theorem lookupKey_eq_some {κ : Type} (table : List (String × κ)) (key : Str) (k : κ)
    (h : lookupKey table key = some k) : ∃ label, (label, k) ∈ table ∧ ascii label = key := by
  obtain ⟨⟨label, k'⟩, hfind, rfl⟩ := Option.map_eq_some_iff.mp h
  exact ⟨label, List.mem_of_find?_eq_some hfind, by simpa using List.find?_some hfind⟩

/-- The parts of a split string are made of its other bytes. -/
theorem mem_splitOn (s : Str) (b : UInt8) :
    ∀ part ∈ s.splitOn b, ∀ x ∈ part, x ∈ s ∧ x ≠ b := by
  induction s with
  | nil => simp
  | cons c s ih =>
    rw [List.splitOn_cons_eq_if_modifyHead]
    split
    · intro part hpart x hx
      rcases List.mem_cons.mp hpart with rfl | hpart
      · cases hx
      · exact ⟨List.mem_cons_of_mem c (ih part hpart x hx).1, (ih part hpart x hx).2⟩
    · rename_i hc
      obtain ⟨p, ps, hps⟩ := List.exists_cons_of_ne_nil (List.splitOn_ne_nil b s)
      rw [hps] at ih ⊢
      intro part hpart x hx
      rcases List.mem_cons.mp hpart with rfl | hpart
      · rcases List.mem_cons.mp hx with rfl | hx
        · exact ⟨List.mem_cons_self .., by simpa using hc⟩
        · have := ih p (by simp) x hx
          exact ⟨List.mem_cons_of_mem c this.1, this.2⟩
      · have := ih part (by simp [hpart]) x hx
        exact ⟨List.mem_cons_of_mem c this.1, this.2⟩

/-- `strings.Fields`: `skip` counts the bytes left of the white space just seen and
`word` is the field being read. -/
def fieldsFrom : Nat → Str → Str → List Str
  | _, word, [] => if word = [] then [] else [word]
  | 0, word, b :: rest =>
    match spaces.find? fun w => w.isPrefixOf (b :: rest) with
    | some w => (if word = [] then [] else [word]) ++ fieldsFrom (w.length - 1) [] rest
    | none => fieldsFrom 0 (word ++ [b]) rest
  | skip + 1, word, _ :: rest => fieldsFrom skip word rest

def fields (s : Str) : List Str := fieldsFrom 0 [] s

theorem find_spaces_of_solid (b : UInt8) (rest : Str) (hb : Solid b) :
    (spaces.find? fun w => w.isPrefixOf (b :: rest)) = none := by
  have hne : ∀ w ∈ spaces, w ≠ [] := by decide
  refine List.find?_eq_none.mpr fun w hw hfront => ?_
  obtain ⟨c, v, rfl⟩ := List.exists_cons_of_ne_nil (hne w hw)
  have hc : c = b := (List.cons_prefix_cons.mp (List.isPrefixOf_iff_prefix.mp hfront)).1
  exact hb _ hw (by simp [hc])

theorem fieldsFrom_solid (word s : Str) (h : ∀ b ∈ s, Solid b) :
    fieldsFrom 0 word s = if word ++ s = [] then [] else [word ++ s] := by
  induction s generalizing word with
  | nil => simp [fieldsFrom]
  | cons b s ih =>
    rw [fieldsFrom, find_spaces_of_solid b s (h b (by simp))]
    simp only
    rw [ih _ fun c hc => h c (by simp [hc])]
    simp

/-- `strings.Join`. -/
def join (parts : List Str) (sep : Str) : Str := sep.intercalate parts

@[simp] theorem join_nil (sep : Str) : join [] sep = [] := by simp [join]

@[simp] theorem join_singleton (p sep : Str) : join [p] sep = p := by simp [join]

@[simp] theorem join_cons_cons (p q : Str) (ps : List Str) (sep : Str) :
    join (p :: q :: ps) sep = p ++ (sep ++ join (q :: ps) sep) := by
  simp [join, List.intercalate_cons_cons]

theorem mem_join (parts : List Str) (sep : Str) (b : UInt8) (h : b ∈ join parts sep) :
    (∃ p ∈ parts, b ∈ p) ∨ b ∈ sep := by
  induction parts with
  | nil => simp at h
  | cons p ps ih =>
    cases ps with
    | nil => exact Or.inl ⟨p, by simp, by simpa using h⟩
    | cons q ps =>
      rw [join_cons_cons, List.mem_append, List.mem_append] at h
      rcases h with h | h | h
      · exact Or.inl ⟨p, by simp, h⟩
      · exact Or.inr h
      · rcases ih h with ⟨r, hr, hb⟩ | hb
        · exact Or.inl ⟨r, List.mem_cons_of_mem _ hr, hb⟩
        · exact Or.inr hb

theorem join_length_le (parts : List Str) (sep : Str) (m : Nat) (h : ∀ p ∈ parts, p.length ≤ m) :
    (join parts sep).length ≤ (m + sep.length) * parts.length := by
  induction parts with
  | nil => simp
  | cons p ps ih =>
    have hp := h p (by simp)
    have hps := ih fun q hq => h q (by simp [hq])
    cases ps with
    | nil => simp; omega
    | cons q ps =>
      rw [join_cons_cons, List.length_append, List.length_append, List.length_cons, Nat.mul_succ]
      omega

end SmartAwg.Go
