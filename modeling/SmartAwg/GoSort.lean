import Mathlib.Tactic.Common

/-!
What `sort.Slice` asks of a comparison and what it gives back. The sort is not stable, and where two
elements tie nothing is said about their order.
-/

namespace SmartAwg.Go

open Std

section order
variable {α : Type} {less : α → α → Bool}

/-- The comparisons that `sort.Slice` allows. -/
structure StrictWeakOrder (less : α → α → Bool) : Prop where
  irrefl : ∀ a, less a a = false
  asymm : ∀ a b, less a b = true → less b a = false
  trans : ∀ a b c, less a b = true → less b c = true → less a c = true
  incomparable_trans : ∀ a b c, less a b = false → less b a = false →
    less b c = false → less c b = false → less a c = false ∧ less c a = false

section compare
variable (cmp : α → α → Ordering) (h : ∀ a b, less a b = true ↔ cmp a b = .lt)
include h

/-- Two elements of which neither is less tie. -/
theorem compare_eq_of_not_less [OrientedCmp cmp] (a b : α) (hab : less a b = false)
    (hba : less b a = false) : cmp a b = .eq := by
  rw [← Bool.not_eq_true, h] at hab hba
  -- the third answer would be the first one for the arguments the other way round
  cases hcmp : cmp a b with
  | lt => exact absurd hcmp hab
  | eq => rfl
  | gt => exact absurd (OrientedCmp.gt_iff_lt.mp hcmp) hba

/-- A comparison with three answers gives such an order. -/
theorem StrictWeakOrder.of_compare [TransCmp cmp] : StrictWeakOrder less := by
  have hfalse : ∀ a b, less a b = false ↔ cmp a b ≠ .lt := by
    intro a b
    rw [← Bool.not_eq_true, h]
  constructor
  · intro a
    rw [hfalse, show cmp a a = .eq from ReflCmp.compare_self]
    decide
  · intro a b hab
    rw [hfalse, show cmp b a = (cmp a b).swap from OrientedCmp.eq_swap, (h a b).mp hab]
    decide
  · intro a b c hab hbc
    rw [h] at *
    exact TransCmp.lt_trans hab hbc
  · intro a b c hab hba hbc hcb
    have hac : cmp a c = .eq := TransCmp.eq_trans (compare_eq_of_not_less cmp h a b hab hba)
      (compare_eq_of_not_less cmp h b c hbc hcb)
    rw [hfalse, hfalse, show cmp c a = (cmp a c).swap from OrientedCmp.eq_swap, hac]
    decide

end compare

/-- Neither element before the other, or not after it: the order a sorted list is in. -/
theorem StrictWeakOrder.le_trans (h : StrictWeakOrder less) (a b c : α) (hab : less b a = false)
    (hbc : less c b = false) : less c a = false := by
  by_contra hca
  rw [Bool.not_eq_false] at hca
  cases hcb : less b c with
  | true => exact Bool.noConfusion (hab.symm.trans (h.trans b c a hcb hca))
  | false =>
    cases hba : less a b with
    | true => exact Bool.noConfusion (hbc.symm.trans (h.trans c a b hca hba))
    | false =>
      have hnone := (h.incomparable_trans a b c hba hab hcb hbc).2
      exact Bool.noConfusion (hnone.symm.trans hca)

theorem StrictWeakOrder.le_total (h : StrictWeakOrder less) (a b : α) :
    less b a = false ∨ less a b = false := by
  cases hba : less b a with
  | false => exact Or.inl rfl
  | true => exact Or.inr (h.asymm b a hba)

end order

/-- `sort.Slice`: some rearrangement in which no element is after a greater one. -/
structure Sorter where
  run : {α : Type} → (α → α → Bool) → List α → List α
  perm : ∀ {α : Type} (less : α → α → Bool) (l : List α), (run less l).Perm l
  sorted : ∀ {α : Type} (less : α → α → Bool), StrictWeakOrder less → ∀ l : List α,
    (run less l).Pairwise fun a b => less b a = false

/-- One such sort, which happens to be stable. -/
def Sorter.stable : Sorter where
  run less l := l.mergeSort fun a b => !less b a
  perm less l := List.mergeSort_perm l _
  sorted less h l := by
    have hsorted : (l.mergeSort fun a b => !less b a).Pairwise fun a b => (!less b a) = true := by
      apply List.pairwise_mergeSort
      · intro a b c hab hbc
        rw [Bool.not_eq_true'] at *
        exact h.le_trans a b c hab hbc
      · intro a b
        rw [Bool.or_eq_true, Bool.not_eq_true', Bool.not_eq_true']
        exact h.le_total a b
    apply hsorted.imp
    intro a b hab
    exact (Bool.not_eq_true' _).mp hab

end SmartAwg.Go
