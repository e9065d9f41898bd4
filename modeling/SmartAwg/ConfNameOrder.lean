import SmartAwg.GoSort
import SmartAwg.GoStrconv
import SmartAwg.GoUtf8

/-!
The natural order of tunnel names. A name is cut into runs of digits and runs of other bytes; a run
of digits that fits an `int` is compared as a number, a longer one as text.
-/

namespace SmartAwg.Conf

open Go Std

section tokens

/-- A number unless there is a text. -/
structure NaturalSortToken where
  maybeString : Str
  maybeNumber : Int
  deriving DecidableEq

/-- `naturalSortDigitFinder.FindAllString`, the runs of `\d+|\D+`. -/
def naturalSortDigitFinder (s : Str) : List Str := s.splitBy fun a b => isDigit a == isDigit b

def naturalSortToken (run : Str) : NaturalSortToken :=
  match atoi run with
  | .ok n => ⟨[], n⟩
  | .error _ => ⟨run, 0⟩

/-- The tokens of `newNaturalSortString`. -/
def newNaturalSortString (s : Str) : List NaturalSortToken :=
  (naturalSortDigitFinder (toLower (join (fields s) [0x20]))).map naturalSortToken

def NaturalSortToken.cmp (f1 f2 : NaturalSortToken) : Ordering :=
  if f1.maybeString = [] then
    if f2.maybeString ≠ [] ∨ f1.maybeNumber < f2.maybeNumber then .lt
    else if f1.maybeNumber > f2.maybeNumber then .gt
    else .eq
  else if f2.maybeString = [] ∨ compare f1.maybeString f2.maybeString = .gt then .gt
  else if compare f1.maybeString f2.maybeString = .lt then .lt
  else .eq

/-- The loop of `TunnelNameIsLess` over the tokens of the second name. -/
def tokensLess : List NaturalSortToken → List NaturalSortToken → Bool
  | _, [] => false
  | [], _ :: _ => true
  | a :: as, t :: ts =>
    match a.cmp t with
    | .lt => true
    | .gt => false
    | .eq => tokensLess as ts

def tunnelNameIsLess (a b : Str) : Bool :=
  if a = b then false else tokensLess (newNaturalSortString a) (newNaturalSortString b)

end tokens

section order

/-- Numbers come before texts. -/
def NaturalSortToken.kind (t : NaturalSortToken) : Nat := if t.maybeString = [] then 0 else 1

/-- The number of a text does not count. -/
def NaturalSortToken.number (t : NaturalSortToken) : Int :=
  if t.maybeString = [] then t.maybeNumber else 0

theorem NaturalSortToken.cmp_eq : NaturalSortToken.cmp =
    compareLex (compareOn kind) (compareLex (compareOn number) (compareOn maybeString)) := by
  funext f1 f2
  simp only [compareLex, compareOn, kind, number, cmp]
  by_cases h1 : f1.maybeString = []
  · by_cases h2 : f2.maybeString = []
    · rw [if_pos h1, if_pos h1, if_pos h1, if_pos h2, if_pos h2, h1, h2]
      rcases Int.lt_trichotomy f1.maybeNumber f2.maybeNumber with hlt | heq | hgt
      · rw [if_pos (Or.inr hlt), compare_lt_iff_lt.mpr hlt]
        rfl
      · simp [heq]
      · rw [if_neg (by simpa using hgt.le), if_pos hgt, compare_gt_iff_gt.mpr hgt]
        rfl
    · rw [if_pos h1, if_pos (Or.inl h2), if_pos h1, if_neg h2]
      rfl
  · by_cases h2 : f2.maybeString = []
    · rw [if_neg h1, if_pos (Or.inl h2), if_neg h1, if_pos h2]
      rfl
    · -- two texts are compared byte by byte
      rw [if_neg h1, if_neg h1, if_neg h1, if_neg h2, if_neg h2]
      simp only [h2, false_or]
      cases compare f1.maybeString f2.maybeString <;> rfl

instance : TransCmp NaturalSortToken.cmp := by
  rw [NaturalSortToken.cmp_eq]
  infer_instance

theorem tokensLess_iff (as bs : List NaturalSortToken) :
    tokensLess as bs = true ↔ List.compareLex NaturalSortToken.cmp as bs = .lt := by
  fun_induction tokensLess as bs with
  | case1 as =>
    cases as with
    | nil => simp [List.compareLex_nil_nil]
    | cons a as => simp [List.compareLex_cons_nil]
  | case2 t ts => simp [List.compareLex_nil_cons]
  | case3 a as t ts hlt => simp [List.compareLex_cons_cons, hlt]
  | case4 a as t ts hgt => simp [List.compareLex_cons_cons, hgt]
  | case5 a as t ts heq ih => simp [List.compareLex_cons_cons, heq, ih]

/-- Two names are compared by their tokens, and equal names are a tie. -/
theorem tunnelNameIsLess_iff (a b : Str) :
    tunnelNameIsLess a b = true ↔
      List.compareLex NaturalSortToken.cmp (newNaturalSortString a) (newNaturalSortString b) = .lt := by
  unfold tunnelNameIsLess
  split
  · rename_i heq
    rw [heq, show List.compareLex NaturalSortToken.cmp _ _ = .eq from ReflCmp.compare_self]
    decide
  · exact tokensLess_iff _ _

theorem tunnelNameIsLess_strictWeakOrder : StrictWeakOrder tunnelNameIsLess := by
  have htrans : TransCmp fun a b : Str =>
      List.compareLex NaturalSortToken.cmp (newNaturalSortString a) (newNaturalSortString b) := by
    refine { eq_swap := ?_, isLE_trans := ?_ }
    · intro a b
      exact OrientedCmp.eq_swap
    · intro a b c hab hbc
      exact TransCmp.isLE_trans hab hbc
  exact StrictWeakOrder.of_compare _ tunnelNameIsLess_iff

/-- A number too long for an `int` is a text, leading zeros do not count, and a number comes before
any text. -/
example : tunnelNameIsLess (ascii "a  7") (ascii "a 10") = true ∧
    tunnelNameIsLess (ascii "A007") (ascii "a7") = false ∧
    tunnelNameIsLess (ascii "a7") (ascii "A007") = false ∧
    tunnelNameIsLess (ascii "a9") (ascii "a99999999999999999999") = true := by
  decide +kernel

end order

end SmartAwg.Conf
