import Mathlib.Data.List.Infix

/-!
Reading values from a stream that can end at any place. A reader takes a value off the front, or
fails; in either case it says what is left. A text is the text of a value for a reader when the value
is read from it, whatever follows, and when nothing is read from a part of it, which is used up.
-/

namespace SmartAwg

abbrev Reader (β α : Type) := List β → Option α × List β

namespace Reader
variable {β α γ : Type}

def pure (a : α) : Reader β α := fun s => (some a, s)

def andThen (r : Reader β α) (k : α → Reader β γ) : Reader β γ := fun s =>
  match r s with
  | (some a, rest) => k a rest
  | (none, rest) => (none, rest)

/-- The text `x` is the text of `a`. -/
structure Reads (r : Reader β α) (x : List β) (a : α) : Prop where
  whole : ∀ rest, r (x ++ rest) = (some a, rest)
  cut : ∀ p, p <+: x → p ≠ x → r p = (none, [])

/-- A part of two texts is a part of the first, or the first and a part of the second. -/
theorem cut_append {x y p : List β} (h : p <+: x ++ y) (hne : p ≠ x ++ y) :
    (p <+: x ∧ p ≠ x) ∨ ∃ q, p = x ++ q ∧ q <+: y ∧ q ≠ y := by
  obtain ⟨t, ht⟩ := h
  rcases List.append_eq_append_iff.mp ht with ⟨q, hx, -⟩ | ⟨q, hp, hy⟩
  · by_cases heq : p = x
    · refine Or.inr ⟨[], by simpa using heq, List.nil_prefix, ?_⟩
      intro hy
      exact hne (by simpa [← hy] using heq)
    · exact Or.inl ⟨⟨q, hx.symm⟩, heq⟩
  · refine Or.inr ⟨q, hp, ⟨t, hy.symm⟩, ?_⟩
    intro heq
    exact hne (by rw [hp, heq])

theorem Reads.pure (a : α) : Reads (Reader.pure a : Reader β α) [] a where
  whole := fun _ => rfl
  cut := fun _ hp hne => absurd (List.prefix_nil.mp hp) hne

theorem Reads.andThen {r : Reader β α} {k : α → Reader β γ} {x y : List β} {a : α} {c : γ}
    (hr : Reads r x a) (hk : Reads (k a) y c) : Reads (r.andThen k) (x ++ y) c where
  whole := by
    intro rest
    rw [List.append_assoc, Reader.andThen, hr.whole]
    exact hk.whole rest
  cut := by
    intro p hp hne
    rcases cut_append hp hne with ⟨hx, hnx⟩ | ⟨q, rfl, hq, hnq⟩
    · rw [Reader.andThen, hr.cut p hx hnx]
    · rw [Reader.andThen, hr.whole]
      exact hk.cut q hq hnq

end Reader

end SmartAwg
