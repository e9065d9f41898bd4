import Mathlib.Algebra.GroupWithZero.Nat

/-!
Power events. A suspend pauses the smart engine in a goroutine of its own, which can run at any later
time; a resume clears the flag at once. Both count a generation under one mutex, and the pause runs only
while the generation is still the one of its suspend.
-/

namespace SmartAwg.Power

section model

inductive Kind where
  | suspend
  | resume
  deriving DecidableEq

/-- The event codes the handler knows. -/
def kindOf (eventType : UInt32) : Option Kind :=
  if eventType = 0x0004 then some .suspend
  else if eventType = 0x0007 ∨ eventType = 0x0012 then some .resume
  else none

/-- Where `handleSmartPowerEvent` is. It holds the mutex from the count to the end of its change of the
flag; after that a suspend still has to start its callback. -/
inductive Handler where
  | idle
  | locking (kind : Kind)
  | counted (kind : Kind)
  | changed (kind : Kind)
  | starting (generation : UInt64)
  deriving DecidableEq

/-- Where a callback is: `pausing` and `stopping` are the body of `pauseSmartForSuspend`, before and
after it stores the flag. -/
inductive Stage where
  | waiting
  | locked
  | pausing
  | stopping
  | done
  deriving DecidableEq

structure Callback where
  generation : UInt64
  stage : Stage
  deriving DecidableEq

inductive Holder where
  | handler
  | callback (i : Nat)
  deriving DecidableEq

/-- The mutex, the two variables, the handler, the callbacks in the order of their start and, for the
statements, the events delivered and the events counted so far, the last one first. -/
structure State where
  mutex : Option Holder
  powerGeneration : UInt64
  smartSystemSuspended : Bool
  handler : Handler
  callbacks : List Callback
  events : List Kind
  handled : List Kind

def State.start : State := ⟨none, 0, false, .idle, [], [], []⟩

def State.move (s : State) (i : Nat) (stage : Stage) : State :=
  { s with callbacks := s.callbacks.modify i fun c => { c with stage := stage } }

/-- One step of the handler or of a callback. -/
inductive Step : State → State → Prop
  -- handleSmartPowerEvent
  | ignore (s : State) (eventType : UInt32) (hidle : s.handler = .idle) (hkind : kindOf eventType = none) :
    Step s s
  | enter (s : State) (eventType : UInt32) (kind : Kind) (hidle : s.handler = .idle)
    (hkind : kindOf eventType = some kind) :
    Step s { s with handler := .locking kind, events := kind :: s.events }
  | count (s : State) (kind : Kind) (hlocking : s.handler = .locking kind) (hfree : s.mutex = none) :
    Step s { s with
      mutex := some .handler
      powerGeneration := s.powerGeneration + 1
      handler := .counted kind
      handled := kind :: s.handled }
  | change (s : State) (kind : Kind) (hcounted : s.handler = .counted kind) :
    Step s { s with smartSystemSuspended := kind == .suspend, handler := .changed kind }
  | unlockSuspend (s : State) (hchanged : s.handler = .changed .suspend) :
    Step s { s with mutex := none, handler := .starting s.powerGeneration }
  | unlockResume (s : State) (hchanged : s.handler = .changed .resume) :
    Step s { s with mutex := none, handler := .idle }
  | runAsync (s : State) (generation : UInt64) (hstarting : s.handler = .starting generation) :
    Step s { s with handler := .idle, callbacks := s.callbacks ++ [⟨generation, .waiting⟩] }
  -- a callback
  | lock (s : State) (i : Nat) (generation : UInt64) (hwaiting : s.callbacks[i]? = some ⟨generation, .waiting⟩)
    (hfree : s.mutex = none) : Step s { s.move i .locked with mutex := some (.callback i) }
  | stale (s : State) (i : Nat) (generation : UInt64) (hlocked : s.callbacks[i]? = some ⟨generation, .locked⟩)
    (hgeneration : generation ≠ s.powerGeneration) : Step s { s.move i .done with mutex := none }
  | fresh (s : State) (i : Nat) (generation : UInt64) (hlocked : s.callbacks[i]? = some ⟨generation, .locked⟩)
    (hgeneration : generation = s.powerGeneration) : Step s (s.move i .pausing)
  | store (s : State) (i : Nat) (generation : UInt64) (hpausing : s.callbacks[i]? = some ⟨generation, .pausing⟩) :
    Step s { s.move i .stopping with smartSystemSuspended := true }
  | finish (s : State) (i : Nat) (generation : UInt64) (hstopping : s.callbacks[i]? = some ⟨generation, .stopping⟩) :
    Step s { s.move i .done with mutex := none }

inductive Reachable : State → Prop
  | start : Reachable State.start
  | step {s s' : State} : Reachable s → Step s s' → Reachable s'

end model

section invariant
variable {s s' : State}

/-- The callback holds the mutex. -/
def Stage.inside : Stage → Bool
  | .waiting => false
  | .done => false
  | _ => true

/-- The body of `pauseSmartForSuspend` runs. -/
def Stage.body (stage : Stage) : Bool := stage = .pausing || stage = .stopping

/-- The handler holds the mutex. -/
def Handler.inside : Handler → Bool
  | .counted _ => true
  | .changed _ => true
  | _ => false

/-- The events of which the handler has counted, or the one it is waiting with. -/
def Handler.counts : Handler → List Kind → List Kind
  | .locking kind, handled => kind :: handled
  | _, handled => handled

/-- The last event counted was a suspend. -/
def State.lastSuspend (s : State) : Bool := s.handled.head? == some .suspend

/-- A callback holds the mutex while it is inside. Its generation is an old one, or the last event is its
suspend; the latter in the body. -/
structure CallbackOk (s : State) (i : Nat) (c : Callback) : Prop where
  mutex : c.stage.inside = true ↔ s.mutex = some (.callback i)
  old : c.generation.toNat ≤ s.powerGeneration.toNat
  last : c.generation = s.powerGeneration → s.lastSuspend = true
  body : c.stage.body = true → c.generation = s.powerGeneration

/-- The flag agrees with the last event, except between the count and the change of the handler. -/
structure Inv (s : State) : Prop where
  events : s.events = s.handler.counts s.handled
  generation : s.powerGeneration.toNat = s.handled.length
  mutex : s.handler.inside = true ↔ s.mutex = some .handler
  last : ∀ kind, s.handler = .counted kind ∨ s.handler = .changed kind → s.handled.head? = some kind
  flag : (∀ kind, s.handler ≠ .counted kind) → s.smartSystemSuspended = s.lastSuspend
  starting : ∀ g, s.handler = .starting g → g = s.powerGeneration ∧ s.lastSuspend = true
  callbacks : ∀ i c, s.callbacks[i]? = some c → CallbackOk s i c
  holder : ∀ i, s.mutex = some (.callback i) → i < s.callbacks.length

theorem inv_start : Inv State.start where
  events := rfl
  generation := rfl
  mutex := by decide
  last := fun kind h => h.elim nofun nofun
  flag := fun _ => rfl
  starting := nofun
  callbacks := nofun
  holder := nofun

/-- A change of the handler and of the mutex that the callbacks do not see. -/
theorem CallbackOk.of_handler {i : Nat} {c : Callback} (h : CallbackOk s i c) (flag : Bool)
    (handler : Handler) (m : Option Holder) (hbefore : s.mutex = none ∨ s.mutex = some .handler)
    (hafter : m = none ∨ m = some .handler) :
    CallbackOk { s with mutex := m, smartSystemSuspended := flag, handler := handler } i c := by
  refine ⟨?_, h.old, h.last, h.body⟩
  rw [h.mutex]
  rcases hbefore with hb | hb <;> rcases hafter with ha | ha <;> simp [hb, ha]

theorem callbacks_move (i : Nat) (c : Callback) (stage : Stage) (hc : s.callbacks[i]? = some c) (j : Nat)
    (c' : Callback) (h : (s.move i stage).callbacks[j]? = some c') :
    (j = i ∧ c' = { c with stage := stage }) ∨ (j ≠ i ∧ s.callbacks[j]? = some c') := by
  simp only [State.move, List.getElem?_modify] at h
  by_cases hij : i = j
  · subst hij
    rw [hc] at h
    exact Or.inl ⟨rfl, (Option.some.inj h).symm.trans (if_pos rfl)⟩
  · simp only [if_neg hij] at h
    exact Or.inr ⟨Ne.symm hij, by simpa using h⟩

/-- A step of a callback. Only the body, in which its suspend is the last event, sets the flag. -/
theorem Inv.callback (h : Inv s) (i : Nat) (c : Callback) (stage : Stage) (flag : Bool) (m : Option Holder)
    (hc : s.callbacks[i]? = some c)
    (hmutex : s.mutex = none ∨ s.mutex = some (.callback i))
    (hm : m = if stage.inside then some (.callback i) else none)
    (hbody : stage.body = true → c.generation = s.powerGeneration)
    (hflag : flag = s.smartSystemSuspended ∨ flag = true ∧ c.generation = s.powerGeneration) :
    Inv { s.move i stage with mutex := m, smartSystemSuspended := flag } := by
  subst hm
  have hok := h.callbacks i c hc
  have houtside : s.handler.inside = false := by
    rw [← Bool.not_eq_true, h.mutex]
    rcases hmutex with hm | hm <;> simp [hm]
  refine ⟨h.events, h.generation, ?_, h.last, ?_, h.starting, ?_, ?_⟩
  · change s.handler.inside = true ↔ _
    rw [houtside]
    split <;> simp
  · intro hcounted
    rcases hflag with rfl | ⟨rfl, hgeneration⟩
    · exact h.flag hcounted
    · exact (hok.last hgeneration).symm
  · intro j c' hj
    rcases callbacks_move i c stage hc j c' hj with ⟨rfl, rfl⟩ | ⟨hji, hj⟩
    · refine ⟨?_, hok.old, hok.last, hbody⟩
      change stage.inside = true ↔ (if stage.inside then some (Holder.callback j) else none) = _
      cases stage.inside <;> simp
    · have hother := h.callbacks j c' hj
      refine ⟨?_, hother.old, hother.last, hother.body⟩
      rw [hother.mutex]
      have hne : Holder.callback i ≠ Holder.callback j := fun heq => hji (Holder.callback.inj heq).symm
      rcases hmutex with hm | hm <;> cases stage.inside <;> simp [hm, hne]
  · intro j hj
    have hlength : (s.move i stage).callbacks.length = s.callbacks.length := List.length_modify _ _ _
    change j < (s.move i stage).callbacks.length
    rw [hlength]
    cases hinside : stage.inside with
    | false =>
      rw [hinside] at hj
      cases hj
    | true =>
      rw [hinside] at hj
      obtain rfl : i = j := Holder.callback.inj (Option.some.inj hj)
      exact (List.getElem?_eq_some_iff.mp hc).1

/-- After an event the handler gives the mutex back. -/
theorem Inv.unlock (h : Inv s) {kind : Kind} (hchanged : s.handler = .changed kind) (next : Handler)
    (hcounts : next.counts s.handled = s.handled) (hinside : next.inside ≠ true)
    (hstarting : ∀ g, next = .starting g → g = s.powerGeneration ∧ s.lastSuspend = true) :
    Inv { s with mutex := none, handler := next } := by
  have hheld : s.mutex = some .handler := h.mutex.mp (by rw [hchanged]; rfl)
  have hflag := h.flag (fun k => by rw [hchanged]; simp)
  have hevents := h.events
  rw [hchanged] at hevents
  refine ⟨hevents.trans hcounts.symm, h.generation, ⟨fun hin => (hinside hin).elim, nofun⟩, ?_,
    fun _ => hflag, hstarting, ?_, nofun⟩
  · rintro k (rfl | rfl) <;> exact (hinside rfl).elim
  · intro i c hc
    exact (h.callbacks i c hc).of_handler _ _ none (Or.inr hheld) (Or.inl rfl)

theorem Step.events_length (h : Step s s') : s.events.length ≤ s'.events.length := by
  cases h with
  | enter => exact Nat.le_succ _
  | _ => exact Nat.le_refl _

/-- The word that counts the events does not come back to an earlier value while there are fewer than `2 ^ 64`. -/
theorem Inv.step (h : Inv s) (hstep : Step s s') (hbound : s'.events.length < 2 ^ 64) : Inv s' := by
  have hevents := h.events
  cases hstep with
  | ignore => exact h
  | enter eventType kind hidle hkind =>
    have hflag := h.flag (fun k => by rw [hidle]; simp)
    have hmutex := h.mutex
    rw [hidle] at hmutex hevents
    exact ⟨congrArg (kind :: ·) hevents, h.generation, hmutex, fun k hk => hk.elim nofun nofun, fun _ => hflag,
      nofun, fun i c hc => ⟨(h.callbacks i c hc).mutex, (h.callbacks i c hc).old,
        (h.callbacks i c hc).last, (h.callbacks i c hc).body⟩, h.holder⟩
  | count kind hlocking hfree =>
    rw [hlocking] at hevents
    have hnext : (s.powerGeneration + 1).toNat = s.powerGeneration.toNat + 1 := by
      have hlength := congrArg List.length hevents
      rw [Handler.counts, List.length_cons, ← h.generation] at hlength
      rw [UInt64.toNat_add]
      exact Nat.mod_eq_of_lt (hlength ▸ hbound)
    refine ⟨hevents, hnext.trans (congrArg (· + 1) h.generation), by simp [Handler.inside], ?_, ?_, nofun, ?_, nofun⟩
    · intro k hk
      rcases hk with hk | hk <;> cases hk
      rfl
    · intro hcounted
      exact absurd rfl (hcounted kind)
    · -- with the mutex free no callback is inside, and all generations are old now
      intro i c hc
      have hok := h.callbacks i c hc
      have houtside : c.stage.inside = false := by
        rw [← Bool.not_eq_true, hok.mutex, hfree]
        simp
      have hbody : c.stage.body = false := by
        obtain ⟨g, stage⟩ := c
        cases stage <;> first | rfl | cases houtside
      refine ⟨by simp [houtside], hnext ▸ Nat.le_succ_of_le hok.old, fun heq => ?_, fun hb => ?_⟩
      · have hold := hok.old
        rw [heq, hnext] at hold
        exact absurd hold (Nat.not_succ_le_self _)
      · rw [hbody] at hb
        cases hb
  | change kind hcounted =>
    have hlast := h.last kind (Or.inl hcounted)
    have hheld : s.mutex = some .handler := h.mutex.mp (by rw [hcounted]; rfl)
    rw [hcounted] at hevents
    refine ⟨hevents, h.generation, by simp [Handler.inside, hheld], ?_, fun _ => ?_, nofun, ?_, h.holder⟩
    · intro k hk
      rcases hk with hk | hk <;> cases hk
      exact hlast
    · change (kind == Kind.suspend) = (s.handled.head? == some Kind.suspend)
      rw [hlast]
      rfl
    · intro i c hc
      exact (h.callbacks i c hc).of_handler _ _ s.mutex (Or.inr hheld) (Or.inr hheld)
  | unlockSuspend hchanged =>
    have hlast := h.last .suspend (Or.inr hchanged)
    have hsuspend : s.lastSuspend = true := by simp [State.lastSuspend, hlast]
    refine h.unlock hchanged _ rfl nofun fun g hg => ?_
    cases hg
    exact ⟨rfl, hsuspend⟩
  | unlockResume hchanged => exact h.unlock hchanged _ rfl nofun nofun
  | runAsync generation hstarting =>
    obtain ⟨rfl, hlast⟩ := h.starting generation hstarting
    have hflag := h.flag (fun k => by rw [hstarting]; simp)
    have hmutex := h.mutex
    rw [hstarting] at hmutex hevents
    refine ⟨hevents, h.generation, hmutex, ?_, fun _ => hflag, nofun, ?_, ?_⟩
    · intro k hk
      rcases hk with hk | hk <;> cases hk
    · intro i c hc
      change (s.callbacks ++ [⟨s.powerGeneration, .waiting⟩])[i]? = some c at hc
      rcases Nat.lt_or_ge i s.callbacks.length with hlt | hge
      · rw [List.getElem?_append_left hlt] at hc
        have hok := h.callbacks i c hc
        exact ⟨hok.mutex, hok.old, hok.last, hok.body⟩
      · -- the new callback, which does not hold the mutex
        rw [List.getElem?_append_right hge] at hc
        obtain rfl := List.mem_singleton.mp (List.mem_of_getElem? hc)
        refine ⟨⟨nofun, fun hheld => absurd (h.holder i hheld) (Nat.not_lt.mpr hge)⟩, Nat.le_refl _,
          fun _ => hlast, nofun⟩
    · intro i hi
      rw [List.length_append]
      exact Nat.lt_of_lt_of_le (h.holder i hi) (Nat.le_add_right _ _)
  | lock i generation hwaiting hfree =>
    exact h.callback i _ .locked _ _ hwaiting (Or.inl hfree) rfl nofun (Or.inl rfl)
  | stale i generation hlocked hgeneration =>
    have hheld := (h.callbacks i _ hlocked).mutex.mp rfl
    exact h.callback i _ .done _ _ hlocked (Or.inr hheld) rfl nofun (Or.inl rfl)
  | fresh i generation hlocked hgeneration =>
    have hheld := (h.callbacks i _ hlocked).mutex.mp rfl
    exact h.callback i _ .pausing _ _ hlocked (Or.inr hheld) hheld (fun _ => hgeneration) (Or.inl rfl)
  | store i generation hpausing =>
    have hok := h.callbacks i _ hpausing
    have hheld := hok.mutex.mp rfl
    exact h.callback i _ .stopping _ _ hpausing (Or.inr hheld) hheld (fun _ => hok.body rfl)
      (Or.inr ⟨rfl, hok.body rfl⟩)
  | finish i generation hstopping =>
    have hheld := (h.callbacks i _ hstopping).mutex.mp rfl
    exact h.callback i _ .done _ _ hstopping (Or.inr hheld) rfl nofun (Or.inl rfl)

theorem Reachable.inv (h : Reachable s) (hbound : s.events.length < 2 ^ 64) : Inv s := by
  induction h with
  | start => exact inv_start
  | step _ hstep ih => exact (ih (Nat.lt_of_le_of_lt hstep.events_length hbound)).step hstep hbound

/-- Suspend and resume are not reordered. Whenever no event is being handled, the flag says whether the
last event was a suspend. A pause runs only while no event has been counted after its suspend. -/
theorem power_events_ordered (s : State) (h : Reachable s) (hbound : s.events.length < 2 ^ 64) :
    (s.handler = .idle → s.handled = s.events ∧
      (s.smartSystemSuspended = true ↔ s.events.head? = some .suspend)) ∧
    ∀ c ∈ s.callbacks, c.stage.body = true →
      c.generation.toNat = s.handled.length ∧ s.handled.head? = some .suspend := by
  have hinv := h.inv hbound
  constructor
  · intro hidle
    have hevents := hinv.events
    rw [hidle] at hevents
    have hflag := hinv.flag fun kind => by rw [hidle]; simp
    refine ⟨hevents.symm, ?_⟩
    rw [hflag, State.lastSuspend, hevents, Handler.counts, beq_iff_eq]
    exact nofun
  · intro c hc hbody
    obtain ⟨i, hi⟩ := List.mem_iff_getElem?.mp hc
    have hok := hinv.callbacks i c hi
    have hlast := hok.body hbody
    exact ⟨(congrArg UInt64.toNat hlast).trans hinv.generation, beq_iff_eq.mp (hok.last hlast)⟩

end invariant

section samples

/-- A suspend whose callback has not run yet. -/
theorem reachable_suspended : Reachable
    ⟨none, 1, true, .idle, [⟨1, .waiting⟩], [.suspend], [.suspend]⟩ := by
  have h1 := Reachable.start.step (.enter _ 0x0004 .suspend rfl rfl)
  have h2 := h1.step (.count _ .suspend rfl rfl)
  have h3 := h2.step (.change _ .suspend rfl)
  have h4 := h3.step (.unlockSuspend _ rfl)
  exact h4.step (.runAsync _ 1 rfl)

/-- The callback in its body, and the callback that comes after a resume. -/
theorem power_events_late_callback :
    (∃ s, Reachable s ∧ s.callbacks = [⟨1, .pausing⟩] ∧ s.handled.head? = some .suspend) ∧
    ∃ s, Reachable s ∧ s.callbacks = [⟨1, .done⟩] ∧ s.events = [.resume, .suspend] ∧
      ¬s.smartSystemSuspended = true := by
  constructor
  · have h1 := reachable_suspended.step (.lock _ 0 1 rfl rfl)
    have h2 := h1.step (.fresh _ 0 1 rfl rfl)
    exact ⟨_, h2, rfl, ((power_events_ordered _ h2 (by decide)).2 ⟨1, .pausing⟩ (by decide) rfl).2⟩
  · have h1 := reachable_suspended.step (.enter _ 0x0012 .resume rfl rfl)
    have h2 := h1.step (.count _ .resume rfl rfl)
    have h3 := h2.step (.change _ .resume rfl)
    have h4 := h3.step (.unlockResume _ rfl)
    have h5 := h4.step (.lock _ 0 1 rfl rfl)
    have h6 := h5.step (.stale _ 0 1 rfl (by decide))
    refine ⟨_, h6, rfl, rfl, fun hflag => ?_⟩
    exact absurd (((power_events_ordered _ h6 (by decide)).1 rfl).2.mp hflag) (by decide)

end samples

end SmartAwg.Power
