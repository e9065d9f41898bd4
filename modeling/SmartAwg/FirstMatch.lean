import Mathlib.Data.List.Basic

/-!
Rules tried in order: the first one that applies decides, and a default decides when none does.
-/

namespace SmartAwg.FirstMatch

variable {ρ σ τ : Type}

def firstMatch (applies : ρ → Bool) (outcome : ρ → τ) (rules : List ρ) (default : τ) : τ :=
  ((rules.find? applies).map outcome).getD default

section rules
variable (applies : ρ → Bool) (outcome : ρ → τ)

@[simp] theorem firstMatch_nil (d : τ) : firstMatch applies outcome [] d = d := rfl

theorem firstMatch_cons (r : ρ) (rules : List ρ) (d : τ) :
    firstMatch applies outcome (r :: rules) d =
      if applies r then outcome r else firstMatch applies outcome rules d := by
  unfold firstMatch
  cases h : applies r <;> simp [h]

/-- The default of a list of rules is what the rules behind it decide. -/
theorem firstMatch_append (as bs : List ρ) (d : τ) :
    firstMatch applies outcome (as ++ bs) d =
      firstMatch applies outcome as (firstMatch applies outcome bs d) := by
  induction as with
  | nil => rfl
  | cons a as ih => rw [List.cons_append, firstMatch_cons, firstMatch_cons, ih]

theorem firstMatch_of_none (rules : List ρ) (d : τ) (h : ∀ r ∈ rules, applies r = false) :
    firstMatch applies outcome rules d = d := by
  rw [firstMatch, List.find?_eq_none.mpr fun r hr => by simp [h r hr]]
  rfl

/-- Rules with one outcome between them act as one rule. -/
theorem firstMatch_of_const (rules : List ρ) (o d : τ) (h : ∀ r ∈ rules, outcome r = o) :
    firstMatch applies outcome rules d = if rules.any applies then o else d := by
  induction rules with
  | nil => rfl
  | cons r rules ih =>
    rw [firstMatch_cons, ih fun x hx => h x (by simp [hx]), List.any_cons, h r (by simp)]
    cases applies r <;> rfl

theorem firstMatch_cases (rules : List ρ) (d : τ) :
    (∃ r, rules.find? applies = some r ∧ firstMatch applies outcome rules d = outcome r) ∨
      (rules.find? applies = none ∧ firstMatch applies outcome rules d = d) := by
  unfold firstMatch
  cases rules.find? applies with
  | none => exact Or.inr ⟨rfl, rfl⟩
  | some r => exact Or.inl ⟨r, rfl, rfl⟩

theorem firstMatch_filter (keep : ρ → Bool) (rules : List ρ) (d : τ) :
    firstMatch applies outcome (rules.filter keep) d =
      firstMatch (fun r => keep r && applies r) outcome rules d := by
  induction rules with
  | nil => rfl
  | cons r rules ih =>
    rw [List.filter_cons, firstMatch_cons, ← ih]
    cases keep r with
    | false => rfl
    | true => simp only [if_true, firstMatch_cons, Bool.true_and]

/-- Only the rules that apply matter. -/
theorem firstMatch_congr (applies' : ρ → Bool) (rules : List ρ) (d : τ)
    (h : ∀ r ∈ rules, applies r = applies' r) :
    firstMatch applies outcome rules d = firstMatch applies' outcome rules d := by
  induction rules with
  | nil => rfl
  | cons r rules ih =>
    rw [firstMatch_cons, firstMatch_cons, h r (by simp), ih fun x hx => h x (by simp [hx])]

/-- Outcomes that are related rule by rule stay related. -/
theorem firstMatch_rel (R : τ → σ → Prop) (outcome' : ρ → σ) (rules : List ρ) (d : τ) (d' : σ)
    (hrules : ∀ r ∈ rules, R (outcome r) (outcome' r)) (hd : R d d') :
    R (firstMatch applies outcome rules d) (firstMatch applies outcome' rules d') := by
  induction rules with
  | nil => exact hd
  | cons r rules ih =>
    rw [firstMatch_cons, firstMatch_cons]
    split
    · exact hrules r (by simp)
    · exact ih fun x hx => hrules x (by simp [hx])

end rules

/-- Two lists of rules that agree rule by rule decide the same. -/
theorem firstMatch_map (f : σ → ρ) (applies : ρ → Bool) (applies' : σ → Bool) (outcome : ρ → τ)
    (outcome' : σ → τ) (rules : List σ) (d : τ)
    (h : ∀ r ∈ rules, applies (f r) = applies' r ∧ (applies' r = true → outcome (f r) = outcome' r)) :
    firstMatch applies outcome (rules.map f) d = firstMatch applies' outcome' rules d := by
  induction rules with
  | nil => rfl
  | cons r rules ih =>
    obtain ⟨happlies, houtcome⟩ := h r (by simp)
    rw [List.map_cons, firstMatch_cons, firstMatch_cons, ih fun x hx => h x (by simp [hx]), happlies]
    cases happ : applies' r with
    | false => rfl
    | true => simp only [if_true, houtcome happ]

/-- A group of rules with one outcome acts as the rule it was made from. -/
theorem firstMatch_flatMap (f : σ → List ρ) (applies : ρ → Bool) (applies' : σ → Bool)
    (outcome : ρ → τ) (outcome' : σ → τ) (rules : List σ) (d : τ)
    (happlies : ∀ r ∈ rules, (f r).any applies = applies' r)
    (houtcome : ∀ r ∈ rules, ∀ x ∈ f r, outcome x = outcome' r) :
    firstMatch applies outcome (rules.flatMap f) d = firstMatch applies' outcome' rules d := by
  induction rules with
  | nil => rfl
  | cons r rules ih =>
    have hrest := ih (fun x hx => happlies x (by simp [hx])) (fun x hx => houtcome x (by simp [hx]))
    rw [List.flatMap_cons, firstMatch_append, hrest, firstMatch_cons,
      firstMatch_of_const applies outcome (f r) (outcome' r) _ (houtcome r (by simp)),
      happlies r (by simp)]

end SmartAwg.FirstMatch
