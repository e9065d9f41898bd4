import Mathlib.Data.List.Nodup

/-!
Names are given to a list of things one after another. A name that is taken gets the mark of its
position, once, and is not looked up again. The names are different exactly when no marked name was
given before.
-/

namespace SmartAwg

section rename
variable {α : Type*} [DecidableEq α] (mark : α → Nat → α)

/-- The names given from position `i` on; `used` are the names before. -/
def renameRepeated : Nat → List α → List α → List α
  | _, _, [] => []
  | i, used, name :: rest =>
    let name := if name ∈ used then mark name i else name
    name :: renameRepeated (i + 1) (name :: used) rest

theorem renameRepeated_cons (i : Nat) (used rest : List α) (name given : α)
    (h : name ∈ used ∧ given = mark name i ∨ name ∉ used ∧ given = name) :
    renameRepeated mark i used (name :: rest) =
      given :: renameRepeated mark (i + 1) (given :: used) rest := by
  rcases h with ⟨hused, rfl⟩ | ⟨hused, rfl⟩
  · rw [renameRepeated, if_pos hused]
  · rw [renameRepeated, if_neg hused]

/-- A name is taken before a position: something before it asked for the name, or something before it
asked for a taken name and got this one instead. -/
inductive Taken (asked : List α) : Nat → α → Prop
  | asked {i j : Nat} {name : α} : j < i → asked[j]? = some name → Taken asked i name
  | marked {i j : Nat} {name : α} :
    j < i → asked[j]? = some name → Taken asked j name → Taken asked i (mark name j)

/-- The mark of a taken name was not asked for before. -/
def ClearAt (asked : List α) (i : Nat) : Prop :=
  ∀ name, asked[i]? = some name → Taken mark asked i name → ∀ j < i, asked[j]? ≠ some (mark name i)

variable {mark} {asked : List α} {i : Nat} {name : α}

omit [DecidableEq α] in
theorem taken_zero (x : α) : ¬Taken mark asked 0 x := by
  intro h
  cases h with
  | asked hlt => exact absurd hlt (Nat.not_lt_zero _)
  | marked hlt => exact absurd hlt (Nat.not_lt_zero _)

omit [DecidableEq α] in
theorem taken_succ (hi : asked[i]? = some name) (x : α) :
    Taken mark asked (i + 1) x ↔
      Taken mark asked i x ∨ x = name ∨ Taken mark asked i name ∧ x = mark name i := by
  constructor
  · intro h
    cases h with
    | @asked _ j _ hlt hj =>
      rcases Nat.lt_succ_iff_lt_or_eq.mp hlt with hlt | rfl
      · exact Or.inl (.asked hlt hj)
      · rw [hi] at hj
        exact Or.inr (Or.inl (Option.some.inj hj).symm)
    | @marked _ j y hlt hj htaken =>
      rcases Nat.lt_succ_iff_lt_or_eq.mp hlt with hlt | rfl
      · exact Or.inl (.marked hlt hj htaken)
      · rw [hi] at hj
        obtain rfl := Option.some.inj hj
        exact Or.inr (Or.inr ⟨htaken, rfl⟩)
  · rintro (h | rfl | ⟨htaken, rfl⟩)
    · cases h with
      | asked hlt hj => exact .asked (Nat.lt_succ_of_lt hlt) hj
      | marked hlt hj htaken => exact .marked (Nat.lt_succ_of_lt hlt) hj htaken
    · exact .asked (Nat.lt_succ_self i) hi
    · exact .marked (Nat.lt_succ_self i) hi htaken

/-- The used names after a step are the taken ones. -/
theorem used_step {used : List α} (hi : asked[i]? = some name)
    (hused : ∀ x, x ∈ used ↔ Taken mark asked i x) (x : α) :
    x ∈ (if name ∈ used then mark name i else name) :: used ↔ Taken mark asked (i + 1) x := by
  rw [taken_succ hi]
  by_cases htaken : Taken mark asked i name
  · rw [if_pos ((hused name).mpr htaken), List.mem_cons, hused]
    constructor
    · rintro (rfl | hx)
      · exact Or.inr (Or.inr ⟨htaken, rfl⟩)
      · exact Or.inl hx
    · rintro (hx | rfl | ⟨-, rfl⟩)
      · exact Or.inr hx
      · exact Or.inr htaken
      · exact Or.inl rfl
  · rw [if_neg (mt (hused name).mp htaken), List.mem_cons, hused]
    constructor
    · rintro (rfl | hx)
      · exact Or.inr (Or.inl rfl)
      · exact Or.inl hx
    · rintro (hx | rfl | ⟨hx, -⟩)
      · exact Or.inr hx
      · exact Or.inl rfl
      · exact absurd hx htaken

/-- A marked name can only be one that was asked for: marks of other positions differ. -/
theorem step_fresh_iff {used : List α} (hmark : ∀ a b i j, mark a i = mark b j → i = j)
    (hi : asked[i]? = some name) (hused : ∀ x, x ∈ used ↔ Taken mark asked i x) :
    (if name ∈ used then mark name i else name) ∉ used ↔ ClearAt mark asked i := by
  by_cases htaken : Taken mark asked i name
  · rw [if_pos ((hused name).mpr htaken), hused]
    constructor
    · intro hfresh y hy _ j hj hasked
      rw [hi] at hy
      obtain rfl := Option.some.inj hy
      exact hfresh (.asked hj hasked)
    · intro hclear h
      generalize hx : mark name i = x at h
      cases h with
      | @asked _ j _ hlt hj => exact hclear name hi htaken j hlt (hx ▸ hj)
      | @marked _ j y hlt hj _ => exact absurd (hmark _ _ _ _ hx) (Nat.ne_of_gt hlt)
  · rw [if_neg (mt (hused name).mp htaken), hused]
    refine ⟨fun _ y hy h => ?_, fun _ => htaken⟩
    rw [hi] at hy
    exact absurd (Option.some.inj hy ▸ h) htaken

/-- The rest of the names, one step at a time. -/
theorem renameRepeated_nodup_from (hmark : ∀ a b i j, mark a i = mark b j → i = j)
    (rest used : List α) (hrest : ∀ k, asked[i + k]? = rest[k]?)
    (hused : ∀ x, x ∈ used ↔ Taken mark asked i x) :
    ((renameRepeated mark i used rest).Nodup ∧ ∀ x ∈ renameRepeated mark i used rest, x ∉ used) ↔
      ∀ k, ClearAt mark asked (i + k) := by
  induction rest generalizing i used with
  | nil =>
    refine ⟨fun _ k name hname => ?_, fun _ => ⟨List.nodup_nil, fun x hx => by cases hx⟩⟩
    rw [hrest k] at hname
    cases hname
  | cons name rest ih =>
    have hi : asked[i]? = some name := hrest 0
    have hnext : ∀ k, asked[i + 1 + k]? = rest[k]? := fun k => by
      rw [Nat.add_right_comm, Nat.add_assoc, hrest (k + 1)]
      rfl
    have hrec := ih _ hnext (used_step hi hused)
    have hfresh := step_fresh_iff hmark hi hused
    simp only [renameRepeated, List.nodup_cons, List.forall_mem_cons]
    generalize (if name ∈ used then mark name i else name) = given at hrec hfresh ⊢
    constructor
    · rintro ⟨⟨hgiven, hnodup⟩, hused', hold⟩ k
      cases k with
      | zero => exact hfresh.mp hused'
      | succ k =>
        have := hrec.mp ⟨hnodup, fun x hx hmem => (List.mem_cons.mp hmem).elim
          (fun heq => hgiven (heq ▸ hx)) (hold x hx)⟩ k
        rwa [Nat.add_assoc, Nat.add_comm 1 k] at this
    · intro hclear
      obtain ⟨hnodup, hnew⟩ := hrec.mpr fun k => by
        have := hclear (k + 1)
        rwa [Nat.add_assoc, Nat.add_comm 1 k]
      exact ⟨⟨fun hmem => hnew _ hmem (List.mem_cons_self ..), hnodup⟩, hfresh.mpr (hclear 0),
        fun x hx hmem => hnew x hx (List.mem_cons_of_mem _ hmem)⟩

theorem renameRepeated_nodup_iff (hmark : ∀ a b i j, mark a i = mark b j → i = j) (asked : List α) :
    (renameRepeated mark 0 [] asked).Nodup ↔ ∀ i, ClearAt mark asked i := by
  have h := renameRepeated_nodup_from (i := 0) hmark asked [] (fun k => by rw [Nat.zero_add])
    fun x => ⟨fun hx => absurd hx List.not_mem_nil, fun hx => absurd hx (taken_zero x)⟩
  simp only [Nat.zero_add] at h
  rw [← h]
  exact ⟨fun hnodup => ⟨hnodup, fun x _ hx => by cases hx⟩, And.left⟩

end rename

end SmartAwg
