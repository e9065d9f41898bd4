import Mathlib.Data.List.Induction

/-!
A loop that keeps the lightest element so far, below a limit: it ends with the first one of the
lightest, unless none is below the limit.
-/

namespace SmartAwg.LowestFirst

variable {α : Type} (weight : α → Nat)

def lighter (best : Nat × Option α) (a : α) : Nat × Option α :=
  if weight a < best.1 then (weight a, some a) else best

def lightest (limit : Nat) (l : List α) : Nat × Option α := l.foldl (lighter weight) (limit, none)

/-- The element that is kept, where it stands in the list. -/
structure Kept (limit : Nat) (l pre : List α) (a : α) (post : List α) : Prop where
  split : l = pre ++ a :: post
  below : weight a < limit
  before : ∀ b ∈ pre, weight a < weight b
  behind : ∀ b ∈ post, weight a ≤ weight b

section kept
variable {weight} {limit : Nat} {l pre : List α} {a : α} {post : List α}

theorem Kept.mem (h : Kept weight limit l pre a post) : a ∈ l := by
  rw [h.split]
  simp

theorem Kept.le (h : Kept weight limit l pre a post) (b : α) (hb : b ∈ l) : weight a ≤ weight b := by
  rw [h.split, List.mem_append, List.mem_cons] at hb
  rcases hb with hb | rfl | hb
  · exact Nat.le_of_lt (h.before b hb)
  · exact Nat.le_refl _
  · exact h.behind b hb

/-- An occurrence of any element is before the one that is kept, is it, or is behind it. -/
theorem Kept.place (h : Kept weight limit l pre a post) {pre' post' : List α} {b : α}
    (hb : l = pre' ++ b :: post') : weight a < weight b ∨ b = a ∨ a ∈ pre' := by
  have hsplit := h.split.symm.trans hb
  rcases List.append_eq_append_iff.mp hsplit with ⟨mid, hpre, hpost⟩ | ⟨mid, hpre, hpost⟩
  · cases mid with
    | nil => exact Or.inr (Or.inl (List.cons.inj hpost).1.symm)
    | cons c mid =>
      right
      right
      rw [hpre, (List.cons.inj hpost).1]
      simp
  · cases mid with
    | nil => exact Or.inr (Or.inl (List.cons.inj hpost).1)
    | cons c mid =>
      left
      apply h.before
      rw [hpre, (List.cons.inj hpost).1]
      simp

end kept

theorem lightest_cases (limit : Nat) (l : List α) :
    (lightest weight limit l = (limit, none) ∧ ∀ a ∈ l, limit ≤ weight a) ∨
      ∃ pre a post, lightest weight limit l = (weight a, some a) ∧
        Kept weight limit l pre a post := by
  induction l using List.reverseRecOn with
  | nil => exact Or.inl ⟨rfl, by simp⟩
  | append_singleton l b ih =>
    have hstep : lightest weight limit (l ++ [b]) = lighter weight (lightest weight limit l) b := by
      rw [lightest, List.foldl_append]
      rfl
    rw [hstep]
    rcases ih with ⟨hnone, hall⟩ | ⟨pre, a, post, hsome, hkept⟩
    · rw [hnone, lighter]
      by_cases hlt : weight b < limit
      · rw [if_pos hlt]
        refine Or.inr ⟨l, b, [], rfl, rfl, hlt, ?_, by simp⟩
        intro c hc
        exact Nat.lt_of_lt_of_le hlt (hall c hc)
      · rw [if_neg hlt]
        refine Or.inl ⟨rfl, ?_⟩
        intro c hc
        rcases List.mem_append.mp hc with hc | hc
        · exact hall c hc
        · rw [List.mem_singleton.mp hc]
          exact Nat.not_lt.mp hlt
    · rw [hsome, lighter]
      by_cases hlt : weight b < weight a
      · rw [if_pos hlt]
        refine Or.inr ⟨l, b, [], rfl, rfl, Nat.lt_trans hlt hkept.below, ?_, by simp⟩
        intro c hc
        exact Nat.lt_of_lt_of_le hlt (hkept.le c hc)
      · rw [if_neg hlt]
        refine Or.inr ⟨pre, a, post ++ [b], rfl, by simp [hkept.split], hkept.below, hkept.before, ?_⟩
        intro c hc
        rcases List.mem_append.mp hc with hc | hc
        · exact hkept.behind c hc
        · rw [List.mem_singleton.mp hc]
          exact Nat.not_lt.mp hlt

/-- The element that the loop ends with is kept. -/
theorem lightest_kept {limit : Nat} {l : List α} {a : α} (h : (lightest weight limit l).2 = some a) :
    ∃ pre post, Kept weight limit l pre a post := by
  rcases lightest_cases weight limit l with ⟨hnone, -⟩ | ⟨pre, b, post, hsome, hb⟩
  · rw [hnone] at h
    cases h
  · rw [hsome] at h
    cases h
    exact ⟨pre, post, hb⟩

end SmartAwg.LowestFirst
