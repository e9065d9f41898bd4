import Mathlib.Tactic.Common
import Mathlib.Data.List.Basic

/-!
Programs that change a state and ask a system that may refuse anything it is asked. The answers
come from a feed, one for each question in the order in which the questions are asked, so a
program has one ending for each feed. An error does not undo what was done before it.

`wp G m R s` says how `m` ends when it is started in `s`: with `R`, for every feed whose answers
keep to `G`. The rules below are all a proof about a program needs.
-/

namespace SmartAwg.Fallible

variable {Q A σ ε α β : Type}

/-- The answers still to come; the answer may depend on the question it is given to. -/
abbrev Feed (Q A : Type) := Nat → Q → A

def Feed.tail (f : Feed Q A) : Feed Q A := fun k => f (k + 1)

def Feed.cons (a : Q → A) (f : Feed Q A) : Feed Q A
  | 0 => a
  | k + 1 => f k

@[simp] theorem Feed.tail_cons (a : Q → A) (f : Feed Q A) : (Feed.cons a f).tail = f := rfl

/-- How a program ended: its value or its error, the state and the answers not yet used. -/
structure Ending (Q A σ ε α : Type) where
  value : Except ε α
  state : σ
  rest : Feed Q A

def Prog (Q A σ ε α : Type) : Type := σ → Feed Q A → Ending Q A σ ε α

namespace Prog

instance : Monad (Prog Q A σ ε) where
  pure a := fun s f => ⟨.ok a, s, f⟩
  bind m k := fun s f =>
    let r := m s f
    match r.value with
    | .ok a => k a r.state r.rest
    | .error e => ⟨.error e, r.state, r.rest⟩

theorem bind_of_ok {m : Prog Q A σ ε α} {k : α → Prog Q A σ ε β} {s : σ} {f : Feed Q A} {a : α}
    (h : (m s f).value = .ok a) : (m >>= k) s f = k a (m s f).state (m s f).rest := by
  simp only [Bind.bind, h]

theorem bind_of_error {m : Prog Q A σ ε α} {k : α → Prog Q A σ ε β} {s : σ} {f : Feed Q A} {e : ε}
    (h : (m s f).value = .error e) :
    (m >>= k) s f = ⟨.error e, (m s f).state, (m s f).rest⟩ := by
  simp only [Bind.bind, h]

theorem bind_assoc {γ : Type} (m : Prog Q A σ ε α) (k : α → Prog Q A σ ε β)
    (l : β → Prog Q A σ ε γ) : m >>= k >>= l = m >>= fun a => k a >>= l := by
  funext s f
  cases hv : (m s f).value with
  | error e => rw [bind_of_error hv, bind_of_error (by rw [bind_of_error hv]), bind_of_error hv]
  | ok a =>
    rw [bind_of_ok hv]
    simp only [Bind.bind, hv]

def fail (e : ε) : Prog Q A σ ε α := fun s f => ⟨.error e, s, f⟩

def read : Prog Q A σ ε σ := fun s f => ⟨.ok s, s, f⟩

def change (g : σ → σ) : Prog Q A σ ε Unit := fun s f => ⟨.ok (), g s, f⟩

/-- Takes the next answer; what it does to the state is up to the caller. -/
def ask (q : Q) : Prog Q A σ ε A := fun s f => ⟨.ok (f 0 q), s, f.tail⟩

/-- Looks at the next answer without taking it: what is learned in this way is no answer to a call. -/
def peek (q : Q) : Prog Q A σ ε A := fun s f => ⟨.ok (f 0 q), s, f⟩

/-- An error becomes a value, for callers that look at it and go on. -/
def attempt (m : Prog Q A σ ε α) : Prog Q A σ ε (Except ε α) := fun s f =>
  let r := m s f
  ⟨.ok r.value, r.state, r.rest⟩

theorem attempt_bind_eq (m : Prog Q A σ ε α) (k : Except ε α → Prog Q A σ ε β) (s : σ)
    (f : Feed Q A) : (attempt m >>= k) s f = k (m s f).value (m s f).state (m s f).rest := rfl

/-- The same program with its error put into a context. -/
def mapError (g : ε → ε) (m : Prog Q A σ ε α) : Prog Q A σ ε α := fun s f =>
  let r := m s f
  ⟨r.value.mapError g, r.state, r.rest⟩

/-- One call for each member, up to the first error. -/
def collect (call : α → Prog Q A σ ε β) : List α → Prog Q A σ ε (List β)
  | [] => pure []
  | a :: rest => do
    let b ← call a
    let bs ← collect call rest
    return b :: bs

/-- One call for each member, whatever the calls before it returned; the errors in order. -/
def gather (call : α → Prog Q A σ ε Unit) : List α → Prog Q A σ ε (List ε)
  | [] => pure []
  | a :: rest => do
    match ← attempt (call a) with
    | .ok () => gather call rest
    | .error e =>
      let es ← gather call rest
      return e :: es

end Prog

open Prog

/-- Every answer of the feed keeps to `G`. -/
def Grants (G : Q → A → Prop) (f : Feed Q A) : Prop := ∀ k q, G q (f k q)

theorem Grants.tail {G : Q → A → Prop} {f : Feed Q A} (h : Grants G f) : Grants G f.tail :=
  fun k q => h (k + 1) q

/-- The answers that occur in a feed: what the feed itself keeps to. -/
def givenBy (f : Feed Q A) : Q → A → Prop := fun q a => ∃ k, a = f k q

theorem grants_givenBy (f : Feed Q A) : Grants (givenBy f) f := fun k _ => ⟨k, rfl⟩

def wp (G : Q → A → Prop) (m : Prog Q A σ ε α) (R : Except ε α → σ → Prop) (s : σ) : Prop :=
  ∀ f, Grants G f → R (m s f).value (m s f).state ∧ Grants G (m s f).rest

section rules
variable {G : Q → A → Prop} {s : σ} {T R : Except ε α → σ → Prop} {m : Prog Q A σ ε α}

theorem wp.ending (h : wp G m R s) (f : Feed Q A) (hf : Grants G f) :
    R (m s f).value (m s f).state := (h f hf).1

theorem wp.mono (h : wp G m T s) (hTR : ∀ r s', T r s' → R r s') :
    wp G m R s := fun f hf => ⟨hTR _ _ (h f hf).1, (h f hf).2⟩

theorem wp.and (h : wp G m T s) (h' : wp G m R s) :
    wp G m (fun r s' => T r s' ∧ R r s') s := fun f hf => ⟨⟨(h f hf).1, (h' f hf).1⟩, (h f hf).2⟩

theorem wp_pure (a : α) (h : R (.ok a) s) : wp G (pure a) R s := fun _ hf => ⟨h, hf⟩

theorem wp_fail (e : ε) (h : R (.error e) s) : wp G (fail e) R s := fun _ hf => ⟨h, hf⟩

theorem wp_ask {R : Except ε A → σ → Prop} (q : Q) (h : ∀ a, G q a → R (.ok a) s) :
    wp G (ask q) R s := fun _ hf => ⟨h _ (hf 0 q), hf.tail⟩

theorem wp_peek {R : Except ε A → σ → Prop} (q : Q) (h : ∀ a, G q a → R (.ok a) s) :
    wp G (peek q) R s := fun _ hf => ⟨h _ (hf 0 q), hf⟩

theorem wp_change {R : Except ε Unit → σ → Prop} (g : σ → σ) (h : R (.ok ()) (g s)) :
    wp G (change g) R s := fun _ hf => ⟨h, hf⟩

theorem wp_ite {m' : Prog Q A σ ε α} (c : Prop) [Decidable c] (h : c → wp G m R s)
    (h' : ¬c → wp G m' R s) : wp G (if c then m else m') R s := by
  split
  · exact h ‹_›
  · exact h' ‹_›

theorem wp.bind {k : α → Prog Q A σ ε β} {R : Except ε β → σ → Prop}
    (hm : wp G m T s) (hok : ∀ a s', T (.ok a) s' → wp G (k a) R s')
    (herr : ∀ e s', T (.error e) s' → R (.error e) s') : wp G (m >>= k) R s := by
  intro f hf
  obtain ⟨hT, hrest⟩ := hm f hf
  cases hv : (m s f).value with
  | error e =>
    rw [Prog.bind_of_error hv]
    exact ⟨herr e _ (hv ▸ hT), hrest⟩
  | ok a =>
    rw [Prog.bind_of_ok hv]
    exact hok a _ (hv ▸ hT) _ hrest

theorem wp.read_bind {k : σ → Prog Q A σ ε β} {R : Except ε β → σ → Prop} (h : wp G (k s) R s) :
    wp G (read >>= k) R s := fun f hf => h f hf

theorem wp.change_bind {g : σ → σ} {k : Unit → Prog Q A σ ε β} {R : Except ε β → σ → Prop}
    (h : wp G (k ()) R (g s)) : wp G (change g >>= k) R s := fun f hf => h f hf

theorem wp.attempt (h : wp G m T s) : wp G (attempt m) (fun r s' => ∃ v, r = .ok v ∧ T v s') s :=
  fun f hf => ⟨⟨_, rfl, (h f hf).1⟩, (h f hf).2⟩

theorem wp.attempt_bind {k : Except ε α → Prog Q A σ ε β}
    {R : Except ε β → σ → Prop} (hm : wp G m T s) (h : ∀ r s', T r s' → wp G (k r) R s') :
    wp G (Prog.attempt m >>= k) R s := by
  refine hm.attempt.bind ?_ ?_
  · rintro v s' ⟨_, hv, hT⟩
    cases hv
    exact h v s' hT
  · rintro e s' ⟨v, hv, -⟩
    cases hv

theorem wp.mapError (g : ε → ε) (hm : wp G m T s) (hok : ∀ a s', T (.ok a) s' → R (.ok a) s')
    (herr : ∀ e s', T (.error e) s' → R (.error (g e)) s') : wp G (m.mapError g) R s := by
  intro f hf
  obtain ⟨hT, hrest⟩ := hm f hf
  refine ⟨?_, hrest⟩
  change R ((m s f).value.mapError g) _
  cases hv : (m s f).value with
  | error e => exact herr e _ (hv ▸ hT)
  | ok a => exact hok a _ (hv ▸ hT)

end rules

section loops
variable {G : Q → A → Prop} {s : σ}

/-- The loop up to the first error: an invariant of the members done, what they returned and the
state. -/
theorem wp_collect (call : α → Prog Q A σ ε β) (I : List α → List β → σ → Prop) (E : σ → Prop)
    (as done : List α) (bs : List β) (h0 : I done bs s)
    (hstep : ∀ done bs s', ∀ a ∈ as, I done bs s' → wp G (call a) (fun r s'' =>
      (∀ b, r = .ok b → I (done ++ [a]) (bs ++ [b]) s'') ∧ ∀ e, r = .error e → E s'') s') :
    wp G (collect call as) (fun r s' => (∀ more, r = .ok more → I (done ++ as) (bs ++ more) s') ∧
      ∀ e, r = .error e → E s') s := by
  induction as generalizing done bs s with
  | nil =>
    refine wp_pure _ ⟨fun more hmore => ?_, fun e he => by cases he⟩
    cases hmore
    simpa using h0
  | cons a rest ih =>
    have hrest := fun d x s' b (hb : b ∈ rest) => hstep d x s' b (List.mem_cons_of_mem _ hb)
    refine (hstep done bs s a (List.mem_cons_self ..) h0).bind ?_ ?_
    · rintro b s' ⟨hb, -⟩
      refine (ih _ _ (hb b rfl) hrest).bind ?_ ?_
      · rintro more s'' ⟨hmore, -⟩
        refine wp_pure _ ⟨fun cs hcs => ?_, fun e he => by cases he⟩
        cases hcs
        simpa using hmore more rfl
      · rintro e s'' ⟨-, he⟩
        exact ⟨fun _ hcs => (by cases hcs), fun _ _ => he e rfl⟩
    · rintro e s' ⟨-, he⟩
      exact ⟨fun _ hcs => (by cases hcs), fun _ _ => he e rfl⟩

/-- The loop that goes on after errors: an invariant of the members done, the errors so far and
the state. -/
theorem wp_gather (call : α → Prog Q A σ ε Unit) (I : List α → List ε → σ → Prop) (as : List α)
    (done : List α) (es : List ε) (h0 : I done es s)
    (hstep : ∀ done es s', ∀ a ∈ as, I done es s' → wp G (call a) (fun r s'' =>
      (r = .ok () → I (done ++ [a]) es s'') ∧ ∀ e, r = .error e → I (done ++ [a]) (es ++ [e]) s'') s') :
    wp G (gather call as)
      (fun r s' => ∃ more, r = .ok more ∧ I (done ++ as) (es ++ more) s') s := by
  induction as generalizing done es s with
  | nil => exact wp_pure _ ⟨[], rfl, by simpa using h0⟩
  | cons a rest ih =>
    have hrest := fun d x s' b (hb : b ∈ rest) => hstep d x s' b (List.mem_cons_of_mem _ hb)
    refine (hstep done es s a (List.mem_cons_self ..) h0).attempt_bind ?_
    rintro (e | ⟨⟩) s' ⟨hok, herr⟩
    · refine (ih _ _ (herr e rfl) hrest).bind ?_ fun e s' hs => by simp at hs
      rintro more s'' ⟨_, hmore, hI⟩
      cases hmore
      exact wp_pure _ ⟨e :: more, rfl, by simpa using hI⟩
    · refine (ih _ _ (hok rfl) hrest).mono ?_
      rintro r s'' ⟨more, hmore, hI⟩
      exact ⟨more, hmore, by simpa using hI⟩

/-- The calls that were made one after the other, each with what it returned. -/
inductive Made (call : α → Prog Q A σ ε β) :
    σ → Feed Q A → List (α × Except ε β) → σ → Feed Q A → Prop
  | none (s : σ) (f : Feed Q A) : Made call s f [] s f
  | more {a : α} {s s' : σ} {f f' : Feed Q A} {v : Except ε β} {rest : List (α × Except ε β)}
    (hv : (call a s f).value = v) (h : Made call (call a s f).state (call a s f).rest rest s' f') :
    Made call s f ((a, v) :: rest) s' f'

end loops

end SmartAwg.Fallible
