import Mathlib.Tactic.Common

/-! Byte strings and the three ways a call can end: a value, an error, or a run-time
panic. Slice and index expressions are the operations that can panic, so they are
checked here and the callers stay in the monad. -/
namespace SmartAwg.Go

/-- A string is a byte sequence; nothing assumes that it is valid UTF-8. -/
abbrev Str := List UInt8

instance : LawfulBEq Str := inferInstance

/-- The elements of a list are checked one by one, also where their type is finite. -/
instance (priority := 2000) decidableForallMem {α : Type} {p : α → Prop} [DecidablePred p] (l : List α) :
    Decidable (∀ x ∈ l, p x) := List.decidableBAll p l

/-- The bytes of a literal whose characters are all ASCII. -/
def ascii (s : String) : Str := s.toList.map fun c => c.toNat.toUInt8

inductive Outcome (ε α : Type) where
  | ok (a : α)
  | err (e : ε)
  | panic
  deriving Repr, DecidableEq

namespace Outcome
variable {ε α β γ : Type}

@[inline] def bind (x : Outcome ε α) (f : α → Outcome ε β) : Outcome ε β :=
  match x with
  | ok a => f a
  | err e => err e
  | panic => panic

instance : Monad (Outcome ε) where
  pure := ok
  bind := Outcome.bind

@[simp] theorem pure_eq (a : α) : (pure a : Outcome ε α) = ok a := rfl

@[simp] theorem ok_bind (a : α) (f : α → Outcome ε β) : (ok a >>= f) = f a := rfl

@[simp] theorem err_bind (e : ε) (f : α → Outcome ε β) : (err e >>= f) = err e := rfl

@[simp] theorem panic_bind (f : α → Outcome ε β) : ((panic : Outcome ε α) >>= f) = panic := rfl

theorem bind_eq_ok (x : Outcome ε α) (f : α → Outcome ε β) (b : β) :
    (x >>= f) = ok b ↔ ∃ a, x = ok a ∧ f a = ok b := by
  cases x <;> simp

theorem bind_eq_panic (x : Outcome ε α) (f : α → Outcome ε β) :
    (x >>= f) = panic ↔ x = panic ∨ ∃ a, x = ok a ∧ f a = panic := by
  cases x <;> simp

instance : LawfulMonad (Outcome ε) := LawfulMonad.mk' _
  (by rintro _ (_ | _ | _) <;> rfl) (by intros; rfl)
  (by rintro _ _ _ (_ | _ | _) _ _ <;> rfl)

/-- A call that ended without a panic. -/
def Safe (x : Outcome ε α) : Prop := x ≠ panic

theorem safe_ok (a : α) : (ok a : Outcome ε α).Safe := by simp [Safe]

theorem safe_err (e : ε) : (err e : Outcome ε α).Safe := by simp [Safe]

theorem safe_bind (x : Outcome ε α) (f : α → Outcome ε β) (hx : x.Safe)
    (hf : ∀ a, x = ok a → (f a).Safe) : (x >>= f).Safe := by
  intro h
  rcases (bind_eq_panic x f).mp h with hp | ⟨a, ha, hp⟩
  · exact hx hp
  · exact hf a ha hp

def toOption : Outcome ε α → Option α
  | ok a => some a
  | _ => none

theorem exists_of_isSome (x : Outcome ε α) (h : x.toOption.isSome = true) : ∃ a, x = ok a := by
  cases x with
  | ok a => exact ⟨a, rfl⟩
  | err e => cases h
  | panic => cases h

def ofExcept : Except ε α → Outcome ε α
  | .ok a => ok a
  | .error e => err e

@[simp] theorem ofExcept_ok (a : α) : ofExcept (.ok a : Except ε α) = ok a := rfl

@[simp] theorem ofExcept_error (e : ε) : ofExcept (.error e : Except ε α) = err e := rfl

theorem ofExcept_eq_ok (x : Except ε α) (a : α) : ofExcept x = ok a ↔ x = .ok a := by
  cases x <;> simp

def mapErr {ε' : Type} (f : ε → ε') : Outcome ε α → Outcome ε' α
  | ok a => ok a
  | err e => err (f e)
  | panic => panic

theorem safe_ofExcept (x : Except ε α) : (ofExcept x).Safe := by
  cases x <;> simp [Safe]

end Outcome

/-- The checked slice expression `s[lo:hi]`. -/
def slice {ε α : Type} (s : List α) (lo hi : Nat) : Outcome ε (List α) :=
  if lo ≤ hi ∧ hi ≤ s.length then .ok ((s.take hi).drop lo) else .panic

/-- The checked slice expression `s[lo:]`. -/
def sliceFrom {ε α : Type} (s : List α) (lo : Nat) : Outcome ε (List α) := slice s lo s.length

/-- The checked index expression `s[i]`. -/
def index {ε α : Type} (s : List α) (i : Nat) : Outcome ε α :=
  match s[i]? with
  | some a => .ok a
  | none => .panic

section slices
variable {ε α : Type}

theorem slice_of_le (s : List α) (lo hi : Nat) (hlo : lo ≤ hi) (hhi : hi ≤ s.length) :
    (slice s lo hi : Outcome ε (List α)) = .ok ((s.take hi).drop lo) := by
  simp [slice, hlo, hhi]

theorem sliceFrom_of_le (s : List α) (lo : Nat) (h : lo ≤ s.length) :
    (sliceFrom s lo : Outcome ε (List α)) = .ok (s.drop lo) := by
  rw [sliceFrom, slice_of_le s lo s.length h (Nat.le_refl _), List.take_length]

theorem slice_eq_panic (s : List α) (lo hi : Nat) :
    (slice s lo hi : Outcome ε (List α)) = .panic ↔ hi < lo ∨ s.length < hi := by
  unfold slice
  split <;> rename_i h <;> simp <;> omega

theorem slice_zero_append (a b : List α) :
    (slice (a ++ b) 0 a.length : Outcome ε (List α)) = .ok a := by
  simp [slice]

theorem sliceFrom_append_cons (a b : List α) (x : α) :
    (sliceFrom (a ++ x :: b) (a.length + 1) : Outcome ε (List α)) = .ok b := by
  rw [sliceFrom_of_le _ _ (by simp)]
  simp

theorem slice_safe (s : List α) (lo hi : Nat) (hlo : lo ≤ hi) (hhi : hi ≤ s.length) :
    (slice s lo hi : Outcome ε (List α)).Safe := by
  rw [slice_of_le s lo hi hlo hhi]
  exact Outcome.safe_ok _

theorem index_of_lt (s : List α) (i : Nat) (hi : i < s.length) :
    (index s i : Outcome ε α) = .ok s[i] := by
  simp [index, hi]

theorem index_safe (s : List α) (i : Nat) (h : i < s.length) :
    (index s i : Outcome ε α).Safe := by
  rw [index_of_lt s i h]
  exact Outcome.safe_ok _

end slices

/-- `for` over a slice with an accumulator, leaving at the first error. -/
def forEach {ε α σ : Type} (step : σ → α → Outcome ε σ) : σ → List α → Outcome ε σ
  | st, [] => .ok st
  | st, a :: rest => step st a >>= fun st' => forEach step st' rest

section loops
variable {ε α σ : Type} (step : σ → α → Outcome ε σ)

@[simp] theorem forEach_nil (st : σ) : forEach step st [] = .ok st := rfl

@[simp] theorem forEach_cons (st : σ) (a : α) (rest : List α) :
    forEach step st (a :: rest) = step st a >>= fun st' => forEach step st' rest := rfl

theorem forEach_append (st : σ) (as bs : List α) :
    forEach step st (as ++ bs) = forEach step st as >>= fun st' => forEach step st' bs := by
  induction as generalizing st with
  | nil => simp
  | cons a rest ih =>
    simp only [List.cons_append, forEach_cons]
    cases step st a <;> simp [ih]

/-- A relation with an abstract state, kept by every step that returns, holds when the loop
returns. -/
theorem forEach_simulation {τ : Type} (R : τ → σ → Prop) (abs : τ → α → τ) (as : List α)
    (hstep : ∀ t st, ∀ a ∈ as, ∀ st', R t st → step st a = .ok st' → R (abs t a) st')
    (t : τ) (st st' : σ) (h0 : R t st) (h : forEach step st as = .ok st') :
    R (as.foldl abs t) st' := by
  induction as generalizing t st with
  | nil =>
    cases h
    exact h0
  | cons a rest ih =>
    obtain ⟨mid, hmid, hrest⟩ := (Outcome.bind_eq_ok _ _ _).mp h
    exact ih (fun t st b hb => hstep t st b (List.mem_cons_of_mem _ hb)) (abs t a) mid
      (hstep t st a (List.mem_cons_self ..) mid h0 hmid) hrest

/-- An invariant kept by every step that returns holds when the loop returns. -/
theorem forEach_invariant (P : σ → Prop) (as : List α)
    (hstep : ∀ st, ∀ a ∈ as, ∀ st', P st → step st a = .ok st' → P st') (st st' : σ)
    (h0 : P st) (h : forEach step st as = .ok st') : P st' :=
  forEach_simulation step (fun (_ : Unit) => P) (fun t _ => t) as
    (fun _ st a ha st' hst hs => hstep st a ha st' hst hs) () st st' h0 h

/-- A loop that returns has made every one of its steps, and each of them returned. -/
theorem forEach_eq_ok_mem (as : List α) (st st' : σ) (h : forEach step st as = .ok st') (a : α)
    (ha : a ∈ as) : ∃ mid mid', step mid a = .ok mid' := by
  obtain ⟨pre, post, rfl⟩ := List.append_of_mem ha
  rw [forEach_append] at h
  obtain ⟨mid, -, hmid⟩ := (Outcome.bind_eq_ok _ _ _).mp h
  obtain ⟨mid', hmid', -⟩ := (Outcome.bind_eq_ok _ _ _).mp hmid
  exact ⟨mid, mid', hmid'⟩

theorem forEach_safe (h : ∀ st a, (step st a).Safe)
    (st : σ) (as : List α) : (forEach step st as).Safe := by
  induction as generalizing st with
  | nil => exact Outcome.safe_ok _
  | cons a rest ih => exact Outcome.safe_bind _ _ (h st a) fun st' _ => ih st'

/-- A loop panics exactly when some iteration does, after the ones before it returned. -/
theorem forEach_eq_panic (st : σ) (as : List α) :
    forEach step st as = .panic ↔
      ∃ pre a post mid, as = pre ++ a :: post ∧ forEach step st pre = .ok mid ∧
        step mid a = .panic := by
  induction as generalizing st with
  | nil => simp
  | cons a rest ih =>
    rw [forEach_cons, Outcome.bind_eq_panic]
    constructor
    · rintro (hp | ⟨mid, hmid, hp⟩)
      · exact ⟨[], a, rest, st, rfl, rfl, hp⟩
      · obtain ⟨pre, b, post, last, rfl, hpre, hb⟩ := (ih mid).mp hp
        exact ⟨a :: pre, b, post, last, rfl, by simp [hmid, hpre], hb⟩
    · rintro ⟨pre, b, post, mid, heq, hpre, hb⟩
      cases pre with
      | nil =>
        cases heq
        cases hpre
        exact Or.inl hb
      | cons c pre =>
        cases heq
        obtain ⟨first, hfirst, hpre⟩ := (Outcome.bind_eq_ok _ _ _).mp hpre
        exact Or.inr ⟨first, hfirst, (ih first).mpr ⟨pre, b, post, mid, rfl, hpre, hb⟩⟩

/-- A loop that appends what each member gives. -/
theorem forEach_concat {ε α β : Type} (g : α → Outcome ε (List β)) (f : α → List β) (as : List α)
    (acc : List β) (h : ∀ a ∈ as, g a = .ok (f a)) :
    forEach (fun bs a => do
      let new ← g a
      .ok (bs ++ new)) acc as = .ok (acc ++ as.flatMap f) := by
  induction as generalizing acc with
  | nil => simp
  | cons a as ih =>
    obtain ⟨ha, has⟩ := List.forall_mem_cons.mp h
    rw [forEach_cons, ha, Outcome.ok_bind, Outcome.ok_bind, ih _ has, List.flatMap_cons,
      List.append_assoc]

end loops

end SmartAwg.Go
