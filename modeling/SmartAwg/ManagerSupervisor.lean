import Mathlib.Tactic.SplitIfs
import SmartAwg.GoOutcome

/-!
The recovery supervisor of the smart engine: a loop that takes requests, success signals, ticks and
its own timer from channels, in any order in which they are ready. Requests and success signals come
from other goroutines, through two channels that have no order between them.
-/

namespace SmartAwg.Supervisor

open Go

section model

/-- Times and delays are in nanoseconds. -/
structure Request where
  reason : Str
  force : Bool
  delay : Int
  deriving DecidableEq

/-- A request in the channel, with its number among all requests accepted. -/
structure Queued where
  id : Nat
  request : Request
  deriving DecidableEq

/-- The pending recovery: the requests that are part of it, and when its timer fires. -/
structure Pending where
  members : List Nat
  reason : Str
  force : Bool
  due : Int
  deriving DecidableEq

inductive Phase where
  | selecting
  | recovering (members : List Nat) (reason : Str) (force : Bool)
  | done
  deriving DecidableEq

structure Config where
  networkSettle : Int
  unhealthyPolls : Nat
  retryDelay : Nat → Int

inductive Desired where
  | unreadable
  | missing
  | tunnel (name : Str)
  deriving DecidableEq

/-- What the dependencies say at a tick. -/
structure Observation where
  networkErr : Bool
  signature : Str
  online : Bool
  desired : Desired
  healthy : Str → Bool

/-- The three channels, the variables of the loop and, for the statements, the number of requests
accepted and the recoveries begun: whose they were, and whether they were forced. -/
structure State where
  requests : List Queued
  reset : Bool
  stop : Bool
  phase : Phase
  pending : Option Pending
  attempts : Nat
  unhealthyCount : Nat
  lastSignature : Str
  lastOnline : Bool
  haveSignature : Bool
  accepted : Nat
  handed : List (List Nat × Bool)

def State.start (o : Observation) : State where
  requests := []
  reset := false
  stop := false
  phase := .selecting
  pending := none
  attempts := 0
  unhealthyCount := 0
  lastSignature := o.signature
  lastOnline := o.online
  haveSignature := !o.networkErr
  accepted := 0
  handed := []

def queueCapacity : Nat := 8

def Pending.merge (p : Pending) (members : List Nat) (r : Request) (due : Int) : Pending where
  members := p.members ++ members
  reason := if p.reason = [] then r.reason else p.reason
  force := p.force || r.force
  due := if due < p.due then due else p.due

/-- `schedule` for the requests in `members`. -/
def State.schedule (s : State) (members : List Nat) (r : Request) (now : Int) : State :=
  match s.pending with
  | some p => { s with pending := some (p.merge members r (now + r.delay)) }
  | none => { s with pending := some ⟨members, r.reason, r.force, now + r.delay⟩ }

inductive Event where
  | request (r : Request)
  | markHealthy
  | close
  | takeRequest (now : Int)
  | takeReset
  | tick (now : Int) (o : Observation)
  | fire (now : Int)
  | recovered (now : Int) (ok : Bool)
  | takeStop

/-- The call `request`: a full queue drops it. -/
def State.request (s : State) (r : Request) : State :=
  if s.requests.length < queueCapacity then
    { s with
      requests := s.requests ++ [⟨s.accepted, { r with delay := max r.delay 0 }⟩]
      accepted := s.accepted + 1 }
  else s

/-- The network part of a tick. -/
def State.observeNetwork (cfg : Config) (s : State) (now : Int) (o : Observation) : State :=
  if o.networkErr then s
  else
    let s :=
      if s.haveSignature ∧ o.online ∧ (!s.lastOnline ∨ o.signature ≠ s.lastSignature) then
        s.schedule [] ⟨ascii "network changed", true, cfg.networkSettle⟩ now
      else s
    { s with lastSignature := o.signature, lastOnline := o.online, haveSignature := true }

/-- The health part of a tick. -/
def State.observeHealth (cfg : Config) (s : State) (now : Int) (o : Observation) : State :=
  match o.desired with
  | .unreadable => s
  | .missing => { s with unhealthyCount := 0, attempts := 0 }
  | .tunnel name =>
    if o.online && o.healthy name then { s with unhealthyCount := 0, attempts := 0 }
    else if !o.online then { s with unhealthyCount := 0 }
    else if s.unhealthyCount + 1 ≥ cfg.unhealthyPolls ∧ s.pending = none then
      { s.schedule [] ⟨ascii "health check failed", false, 0⟩ now with unhealthyCount := 0 }
    else { s with unhealthyCount := s.unhealthyCount + 1 }

/-- A case of the `select`, when the loop is there and the case is ready. -/
def State.select (cfg : Config) (s : State) : Event → State
  | .takeRequest now =>
    match s.requests with
    | [] => s
    | q :: rest => { s with requests := rest }.schedule [q.id] q.request now
  | .takeReset =>
    if s.reset then { s with reset := false, attempts := 0, unhealthyCount := 0, pending := none } else s
  | .tick now o => (s.observeNetwork cfg now o).observeHealth cfg now o
  | .fire now =>
    match s.pending with
    | none => s
    | some p =>
      if p.due ≤ now then
        { s with
          pending := none
          phase := .recovering p.members p.reason p.force
          handed := s.handed ++ [(p.members, p.force)] }
      else s
  | .takeStop => if s.stop then { s with pending := none, phase := .done } else s
  | _ => s

/-- The end of a recovery. -/
def State.recovered (cfg : Config) (s : State) (members : List Nat) (reason : Str) (force : Bool)
    (now : Int) (ok : Bool) : State :=
  let s := { s with phase := .selecting }
  if ok then { s with attempts := 0, unhealthyCount := 0 }
  else
    let delay := cfg.retryDelay s.attempts
    { s with attempts := s.attempts + 1 }.schedule members ⟨reason, force, delay⟩ now

/-- One step of a caller or of the loop; a step that is not possible does nothing. -/
def State.step (cfg : Config) (s : State) (e : Event) : State :=
  match e with
  | .request r => s.request r
  | .markHealthy => { s with reset := true }
  | .close => { s with stop := true }
  | .recovered now ok =>
    match s.phase with
    | .recovering members reason force => s.recovered cfg members reason force now ok
    | _ => s
  | e => if s.phase = .selecting then s.select cfg e else s

def State.run (cfg : Config) (s : State) (events : List Event) : State := events.foldl (State.step cfg) s

end model

section kept
variable {cfg : Config} {s : State} {q : Queued}

/-- A request is still queued, is part of the pending recovery, or was handed to a recovery, which is
forced if the request is. -/
def State.Kept (q : Queued) (s : State) : Prop :=
  q ∈ s.requests ∨
  (∃ p, s.pending = some p ∧ q.id ∈ p.members ∧ (q.request.force = true → p.force = true)) ∨
  ∃ h ∈ s.handed, q.id ∈ h.1 ∧ (q.request.force = true → h.2 = true)

/-- Another request does not take anything from the pending recovery. -/
theorem State.Kept.schedule (h : s.Kept q) (members : List Nat) (r : Request) (now : Int) :
    (s.schedule members r now).Kept q := by
  unfold State.schedule
  cases hpending : s.pending with
  | none =>
    rcases h with hqueued | ⟨p, hp, -⟩ | hhanded
    · exact Or.inl hqueued
    · rw [hpending] at hp
      cases hp
    · exact Or.inr (Or.inr hhanded)
  | some p =>
    rcases h with hqueued | ⟨p', hp, hmember, hforce⟩ | hhanded
    · exact Or.inl hqueued
    · rw [hpending] at hp
      cases hp
      refine Or.inr (Or.inl ⟨_, rfl, List.mem_append_left _ hmember, fun hq => ?_⟩)
      simp [Pending.merge, hforce hq]
    · exact Or.inr (Or.inr hhanded)

/-- The request that is taken from the queue becomes part of the pending recovery. -/
theorem schedule_taken (s : State) (q : Queued) (now : Int) : (s.schedule [q.id] q.request now).Kept q := by
  refine Or.inr (Or.inl ?_)
  unfold State.schedule
  cases s.pending with
  | none => exact ⟨_, rfl, List.mem_singleton_self _, fun hforce => hforce⟩
  | some p =>
    refine ⟨_, rfl, List.mem_append_right _ (List.mem_singleton_self _), fun hforce => ?_⟩
    simp [Pending.merge, hforce]

/-- Scheduling changes the pending recovery and nothing else. -/
theorem schedule_eq (s : State) (members : List Nat) (r : Request) (now : Int) :
    ∃ p, s.schedule members r now = { s with pending := some p } ∧
      ∀ i ∈ p.members, i ∈ members ∨ ∃ p', s.pending = some p' ∧ i ∈ p'.members := by
  unfold State.schedule
  cases hpending : s.pending with
  | none => exact ⟨_, rfl, fun i hi => Or.inl hi⟩
  | some p =>
    refine ⟨_, rfl, fun i hi => ?_⟩
    rcases List.mem_append.mp hi with hi | hi
    · exact Or.inr ⟨p, rfl, hi⟩
    · exact Or.inl hi

/-- A change that leaves the channels, the phase and the recoveries begun alone, and takes no request
out of the pending recovery and puts none into it. -/
structure Quiet (s s' : State) : Prop where
  requests : s'.requests = s.requests
  reset : s'.reset = s.reset
  stop : s'.stop = s.stop
  phase : s'.phase = s.phase
  accepted : s'.accepted = s.accepted
  handed : s'.handed = s.handed
  kept : ∀ q, s.Kept q → s'.Kept q
  members : ∀ p', s'.pending = some p' → ∀ i ∈ p'.members, ∃ p, s.pending = some p ∧ i ∈ p.members

theorem Quiet.refl (s : State) : Quiet s s :=
  ⟨rfl, rfl, rfl, rfl, rfl, rfl, fun _ h => h, fun p hp _ hi => ⟨p, hp, hi⟩⟩

/-- The counters of the loop and what it knows of the network do not matter. -/
theorem quiet_counters (s : State) (attempts unhealthyCount : Nat) (signature : Str) (online known : Bool) :
    Quiet s { s with
      attempts := attempts
      unhealthyCount := unhealthyCount
      lastSignature := signature
      lastOnline := online
      haveSignature := known } :=
  ⟨rfl, rfl, rfl, rfl, rfl, rfl, fun _ h => h, fun p hp _ hi => ⟨p, hp, hi⟩⟩

theorem Quiet.trans {s₁ s₂ s₃ : State} (h : Quiet s₁ s₂) (h' : Quiet s₂ s₃) : Quiet s₁ s₃ where
  requests := h'.requests.trans h.requests
  reset := h'.reset.trans h.reset
  stop := h'.stop.trans h.stop
  phase := h'.phase.trans h.phase
  accepted := h'.accepted.trans h.accepted
  handed := h'.handed.trans h.handed
  kept := fun q hq => h'.kept q (h.kept q hq)
  members := fun p₃ hp₃ i hi => by
    obtain ⟨p₂, hp₂, hi₂⟩ := h'.members p₃ hp₃ i hi
    exact h.members p₂ hp₂ i hi₂

/-- The loop's own requests stand for no caller. -/
theorem quiet_schedule (s : State) (r : Request) (now : Int) : Quiet s (s.schedule [] r now) := by
  have hkept : ∀ q, s.Kept q → (s.schedule [] r now).Kept q := fun q hq => hq.schedule [] r now
  obtain ⟨p, heq, hmembers⟩ := schedule_eq s [] r now
  rw [heq] at hkept ⊢
  refine ⟨rfl, rfl, rfl, rfl, rfl, rfl, hkept, fun p' hp' i hi => ?_⟩
  cases hp'
  exact (hmembers i hi).resolve_left List.not_mem_nil

theorem quiet_observeNetwork (s : State) (now : Int) (o : Observation) :
    Quiet s (s.observeNetwork cfg now o) := by
  have hseen (t : State) : Quiet t
      { t with lastSignature := o.signature, lastOnline := o.online, haveSignature := true } :=
    quiet_counters t _ _ _ _ _
  unfold State.observeNetwork
  split
  · exact Quiet.refl s
  · dsimp only
    split
    · exact (quiet_schedule s _ now).trans (hseen _)
    · exact hseen s

theorem quiet_observeHealth (s : State) (now : Int) (o : Observation) :
    Quiet s (s.observeHealth cfg now o) := by
  have hcounted (t : State) (n m : Nat) : Quiet t { t with unhealthyCount := n, attempts := m } :=
    quiet_counters t _ _ _ _ _
  unfold State.observeHealth
  split
  · exact Quiet.refl s
  · exact hcounted s 0 0
  · split
    · exact hcounted s 0 0
    split
    · exact hcounted s 0 s.attempts
    split
    · exact (quiet_schedule s _ now).trans (hcounted _ 0 _)
    · exact hcounted s _ s.attempts

theorem quiet_tick (s : State) (now : Int) (o : Observation) : Quiet s (s.select cfg (.tick now o)) :=
  (quiet_observeNetwork s now o).trans (quiet_observeHealth _ now o)

end kept

section steps
variable {cfg : Config} {s : State} {q : Queued}

/-- Without a success signal in the channel, the cases of the `select` keep a request, unless the
supervisor is stopped. -/
theorem State.Kept.select (h : s.Kept q) (hreset : s.reset = false) (e : Event) :
    (s.select cfg e).reset = false ∧ ((s.select cfg e).stop = true ∨ (s.select cfg e).Kept q) := by
  cases e with
  | takeRequest now =>
    simp only [State.select]
    cases hrequests : s.requests with
    | nil => exact ⟨hreset, Or.inr h⟩
    | cons first rest =>
      have hkept : ({ s with requests := rest }.schedule [first.id] first.request now).Kept q := by
        by_cases hfirst : q = first
        · subst hfirst
          exact schedule_taken _ _ now
        · apply State.Kept.schedule
          rcases h with hqueued | hlater
          · rw [hrequests] at hqueued
            exact Or.inl ((List.mem_cons.mp hqueued).resolve_left hfirst)
          · exact Or.inr hlater
      obtain ⟨p, heq, -⟩ := schedule_eq { s with requests := rest } [first.id] first.request now
      exact ⟨(congrArg State.reset heq).trans hreset, Or.inr hkept⟩
  | takeReset =>
    have hnone : s.select cfg .takeReset = s := if_neg (by simp [hreset])
    rw [hnone]
    exact ⟨hreset, Or.inr h⟩
  | tick now o =>
    have hquiet := (quiet_tick s now o : Quiet s (s.select cfg (.tick now o)))
    exact ⟨hquiet.reset.trans hreset, Or.inr (hquiet.kept q h)⟩
  | fire now =>
    simp only [State.select]
    cases hpending : s.pending with
    | none => exact ⟨hreset, Or.inr h⟩
    | some p =>
      dsimp only
      split
      · refine ⟨hreset, Or.inr ?_⟩
        rcases h with hqueued | ⟨p', hp', hmember, hforce⟩ | ⟨t, ht, hmember⟩
        · exact Or.inl hqueued
        · -- the pending recovery begins with all its requests
          rw [hpending] at hp'
          cases hp'
          exact Or.inr (Or.inr ⟨(p.members, p.force), by simp, hmember, hforce⟩)
        · exact Or.inr (Or.inr ⟨t, List.mem_append_left _ ht, hmember⟩)
      · exact ⟨hreset, Or.inr h⟩
  | takeStop =>
    simp only [State.select]
    split
    · exact ⟨hreset, Or.inl ‹_›⟩
    · exact ⟨hreset, Or.inr h⟩
  | request | markHealthy | close | recovered => exact ⟨hreset, Or.inr h⟩

theorem State.Kept.step (h : s.Kept q) (hreset : s.reset = false) {e : Event} (he : e ≠ .markHealthy) :
    (s.step cfg e).reset = false ∧ ((s.step cfg e).stop = true ∨ (s.step cfg e).Kept q) := by
  cases e with
  | request r =>
    simp only [State.step, State.request]
    split
    · refine ⟨hreset, Or.inr ?_⟩
      rcases h with hqueued | hlater
      · exact Or.inl (List.mem_append_left _ hqueued)
      · exact Or.inr hlater
    · exact ⟨hreset, Or.inr h⟩
  | markHealthy => exact absurd rfl he
  | close => exact ⟨hreset, Or.inl rfl⟩
  | recovered now ok =>
    simp only [State.step]
    split
    · rename_i members reason force hphase
      unfold State.recovered
      cases ok with
      | true => exact ⟨hreset, Or.inr h⟩
      | false =>
        have hkept : s.Kept q → ({ s with phase := .selecting, attempts := s.attempts + 1 }.schedule members
            ⟨reason, force, cfg.retryDelay s.attempts⟩ now).Kept q := fun hq =>
          State.Kept.schedule (s := { s with phase := .selecting, attempts := s.attempts + 1 }) hq _ _ _
        obtain ⟨p, heq, -⟩ := schedule_eq { s with phase := .selecting, attempts := s.attempts + 1 } members
          ⟨reason, force, cfg.retryDelay s.attempts⟩ now
        exact ⟨(congrArg State.reset heq).trans hreset, Or.inr (hkept h)⟩
    · exact ⟨hreset, Or.inr h⟩
  | takeRequest | takeReset | tick | fire | takeStop =>
    simp only [State.step]
    split
    · exact h.select hreset _
    · exact ⟨hreset, Or.inr h⟩

/-- Numbers are given once: all that are known are below the number of requests accepted. And the loop
has ended only if it was told to. -/
structure State.Numbered (s : State) : Prop where
  requests : ∀ q ∈ s.requests, q.id < s.accepted
  pending : ∀ p, s.pending = some p → ∀ i ∈ p.members, i < s.accepted
  recovering : ∀ members reason force, s.phase = .recovering members reason force →
    ∀ i ∈ members, i < s.accepted
  handed : ∀ h ∈ s.handed, ∀ i ∈ h.1, i < s.accepted
  done : s.phase = .done → s.stop = true

theorem Quiet.numbered {s' : State} (h : Quiet s s') (hs : s.Numbered) : s'.Numbered where
  requests := by
    rw [h.requests, h.accepted]
    exact hs.requests
  pending := by
    intro p' hp' i hi
    obtain ⟨p, hp, hi⟩ := h.members p' hp' i hi
    rw [h.accepted]
    exact hs.pending p hp i hi
  recovering := by
    rw [h.phase, h.accepted]
    exact hs.recovering
  handed := by
    rw [h.handed, h.accepted]
    exact hs.handed
  done := by
    rw [h.phase, h.stop]
    exact hs.done

theorem State.Numbered.schedule (h : s.Numbered) {members : List Nat} (hmembers : ∀ i ∈ members, i < s.accepted)
    (r : Request) (now : Int) : (s.schedule members r now).Numbered := by
  obtain ⟨p, heq, hp⟩ := schedule_eq s members r now
  rw [heq]
  refine ⟨h.requests, fun p' hp' i hi => ?_, h.recovering, h.handed, h.done⟩
  cases hp'
  rcases hp i hi with hi | ⟨p', hp', hi⟩
  · exact hmembers i hi
  · exact h.pending p' hp' i hi

theorem State.Numbered.select (h : s.Numbered) (e : Event) : (s.select cfg e).Numbered := by
  cases e with
  | takeRequest now =>
    simp only [State.select]
    cases hrequests : s.requests with
    | nil => exact h
    | cons first rest =>
      have hall := h.requests
      rw [hrequests] at hall
      have hrest : State.Numbered { s with requests := rest } :=
        ⟨fun q hq => hall q (List.mem_cons_of_mem _ hq), h.pending, h.recovering, h.handed, h.done⟩
      refine hrest.schedule (fun i hi => ?_) _ now
      rw [List.mem_singleton.mp hi]
      exact hall first List.mem_cons_self
  | takeReset =>
    simp only [State.select]
    split
    · exact ⟨h.requests, fun p hp => (by cases hp), h.recovering, h.handed, h.done⟩
    · exact h
  | tick now o => exact (quiet_tick s now o).numbered h
  | fire now =>
    simp only [State.select]
    cases hpending : s.pending with
    | none => exact h
    | some p =>
      dsimp only
      split
      · refine ⟨h.requests, fun p hp => (by cases hp), fun members reason force hphase => ?_, fun t ht => ?_,
          fun hdone => (by cases hdone)⟩
        · cases hphase
          exact h.pending p hpending
        · rcases List.mem_append.mp ht with ht | ht
          · exact h.handed t ht
          · rw [List.mem_singleton.mp ht]
            exact h.pending p hpending
      · exact h
  | takeStop =>
    simp only [State.select]
    split
    · exact ⟨h.requests, fun p hp => (by cases hp), fun _ _ _ hphase => (by cases hphase), h.handed, fun _ => ‹_›⟩
    · exact h
  | request | markHealthy | close | recovered => exact h

theorem State.Numbered.step (h : s.Numbered) (e : Event) : (s.step cfg e).Numbered := by
  cases e with
  | request r =>
    simp only [State.step, State.request]
    split
    · refine ⟨fun q hq => ?_, fun p hp i hi => Nat.lt_succ_of_lt (h.pending p hp i hi),
        fun members reason force hphase i hi =>
          Nat.lt_succ_of_lt (h.recovering members reason force hphase i hi),
        fun t ht i hi => Nat.lt_succ_of_lt (h.handed t ht i hi), h.done⟩
      rcases List.mem_append.mp hq with hq | hq
      · exact Nat.lt_succ_of_lt (h.requests q hq)
      · rw [List.mem_singleton.mp hq]
        exact Nat.lt_succ_self _
    · exact h
  | markHealthy => exact ⟨h.requests, h.pending, h.recovering, h.handed, h.done⟩
  | close => exact ⟨h.requests, h.pending, h.recovering, h.handed, fun _ => rfl⟩
  | recovered now ok =>
    simp only [State.step]
    split
    · rename_i members reason force hphase
      have hmembers := h.recovering members reason force hphase
      unfold State.recovered
      cases ok with
      | true =>
        exact ⟨h.requests, h.pending, fun _ _ _ hp => (by cases hp), h.handed, fun hdone => (by cases hdone)⟩
      | false =>
        have hback : State.Numbered { s with phase := .selecting, attempts := s.attempts + 1 } :=
          ⟨h.requests, h.pending, fun _ _ _ hp => (by cases hp), h.handed, fun hdone => (by cases hdone)⟩
        exact hback.schedule hmembers _ now
    · exact h
  | takeRequest | takeReset | tick | fire | takeStop =>
    simp only [State.step]
    split
    · exact h.select _
    · exact h

end steps

section runs
variable {cfg : Config} {s : State}

theorem State.run_append (s : State) (pre post : List Event) :
    s.run cfg (pre ++ post) = (s.run cfg pre).run cfg post := List.foldl_append ..

theorem State.Numbered.run (h : s.Numbered) (events : List Event) : (s.run cfg events).Numbered := by
  induction events generalizing s with
  | nil => exact h
  | cons e events ih => exact ih (h.step e)

theorem numbered_start (o : Observation) : (State.start o).Numbered where
  requests := fun q hq => (by cases hq)
  pending := fun p hp => (by cases hp)
  recovering := fun _ _ _ hphase => (by cases hphase)
  handed := fun t ht => (by cases ht)
  done := fun hdone => (by cases hdone)

theorem select_stop (s : State) (e : Event) : (s.select cfg e).stop = s.stop := by
  cases e with
  | takeRequest now =>
    simp only [State.select]
    cases s.requests with
    | nil => rfl
    | cons q rest =>
      obtain ⟨p, heq, -⟩ := schedule_eq { s with requests := rest } [q.id] q.request now
      exact (congrArg State.stop heq).trans rfl
  | tick now o => exact (quiet_tick s now o).stop
  | takeReset | takeStop =>
    simp only [State.select]
    split <;> rfl
  | fire now =>
    simp only [State.select]
    split
    · rfl
    · split <;> rfl
  | request | markHealthy | close | recovered => rfl

/-- The channel `stop` is closed for good. -/
theorem step_stop (h : s.stop = true) (e : Event) : (s.step cfg e).stop = true := by
  cases e with
  | request r =>
    simp only [State.step, State.request]
    split <;> exact h
  | markHealthy => exact h
  | close => rfl
  | recovered now ok =>
    simp only [State.step]
    split
    · rename_i members reason force hphase
      unfold State.recovered
      cases ok with
      | true => exact h
      | false =>
        obtain ⟨p, heq, -⟩ := schedule_eq { s with phase := .selecting, attempts := s.attempts + 1 } members
          ⟨reason, force, cfg.retryDelay s.attempts⟩ now
        exact (congrArg State.stop heq).trans h
    · exact h
  | takeRequest | takeReset | tick | fire | takeStop =>
    simp only [State.step]
    split
    · exact (select_stop s _).trans h
    · exact h

/-- A request that is kept stays kept as long as no success signal comes. -/
theorem State.Kept.run {q : Queued} (h : s.stop = true ∨ s.Kept q) (hreset : s.stop = true ∨ s.reset = false)
    {events : List Event} (hevents : ∀ e ∈ events, e ≠ .markHealthy) :
    (s.run cfg events).stop = true ∨ (s.run cfg events).Kept q := by
  induction events generalizing s with
  | nil => exact h
  | cons e events ih =>
    have hrest : ∀ e' ∈ events, e' ≠ .markHealthy := fun e' he' => hevents e' (List.mem_cons_of_mem _ he')
    by_cases hstop : s.stop = true
    · exact ih (Or.inl (step_stop hstop e)) (Or.inl (step_stop hstop e)) hrest
    · obtain ⟨hreset', hkept'⟩ := (h.resolve_left hstop).step (hreset.resolve_left hstop)
        (hevents e List.mem_cons_self)
      exact ih hkept' (Or.inr hreset') hrest

/-- The loop can take all requests, one after another, before anything else. -/
theorem run_takeRequests (hphase : s.phase = .selecting) :
    ∃ s', s.run cfg (List.replicate s.requests.length (.takeRequest 0)) = s' ∧ s'.requests = [] ∧
      s'.phase = .selecting ∧ s'.reset = s.reset ∧ s'.stop = s.stop ∧ s'.handed = s.handed := by
  induction hrequests : s.requests generalizing s with
  | nil => exact ⟨s, rfl, hrequests, hphase, rfl, rfl, rfl⟩
  | cons q rest ih =>
    obtain ⟨p, heq, -⟩ := schedule_eq { s with requests := rest } [q.id] q.request 0
    have hstep : s.step cfg (.takeRequest 0) = { s with requests := rest, pending := some p } := by
      change (if s.phase = .selecting then s.select cfg (.takeRequest 0) else s) = _
      rw [if_pos hphase, State.select, hrequests]
      exact heq
    obtain ⟨s', hrun, hempty, hphase', hreset, hstop, hhanded⟩ :=
      ih (s := { s with requests := rest, pending := some p }) hphase rfl
    refine ⟨s', ?_, hempty, hphase', hreset, hstop, hhanded⟩
    rw [List.length_cons, List.replicate_succ, State.run, List.foldl_cons, hstep]
    exact hrun

/-- Then it can take the success signal, and nothing is left. -/
theorem exists_lost_selecting (cfg : Config) (hphase : s.phase = .selecting) (hreset : s.reset = true) :
    ∃ events, (∀ e ∈ events, e ≠ .markHealthy) ∧ (s.run cfg events).requests = [] ∧
      (s.run cfg events).pending = none ∧ (s.run cfg events).stop = s.stop ∧
      (s.run cfg events).handed = s.handed := by
  obtain ⟨s', hrun, hempty, hphase', hreset', hstop, hhanded⟩ := run_takeRequests hphase
  refine ⟨List.replicate s.requests.length (.takeRequest 0) ++ [.takeReset], ?_, ?_⟩
  · intro e he
    rcases List.mem_append.mp he with he | he
    · rw [(List.mem_replicate.mp he).2]
      exact Event.noConfusion
    · rw [List.mem_singleton.mp he]
      exact Event.noConfusion
  · have hend : s.run cfg (List.replicate s.requests.length (.takeRequest 0) ++ [.takeReset]) =
        { s' with reset := false, attempts := 0, unhealthyCount := 0, pending := none } := by
      rw [State.run_append, hrun]
      change (if s'.phase = .selecting then s'.select cfg .takeReset else s') = _
      rw [if_pos hphase', State.select, if_pos (hreset'.trans hreset)]
    rw [hend]
    exact ⟨hempty, rfl, hstop, hhanded⟩

/-- A loop that is in a recovery can come back first. -/
theorem exists_lost (cfg : Config) (hrunning : s.phase ≠ .done) (hreset : s.reset = true) :
    ∃ events, (∀ e ∈ events, e ≠ .markHealthy) ∧ (s.run cfg events).requests = [] ∧
      (s.run cfg events).pending = none ∧ (s.run cfg events).stop = s.stop ∧
      (s.run cfg events).handed = s.handed := by
  cases hphase : s.phase with
  | selecting => exact exists_lost_selecting cfg hphase hreset
  | recovering members reason force =>
    have hback : s.step cfg (.recovered 0 true) =
        { s with phase := .selecting, attempts := 0, unhealthyCount := 0 } := by
      simp only [State.step, hphase, State.recovered, if_true]
    obtain ⟨events, hevents, hend⟩ := exists_lost_selecting cfg
      (s := { s with phase := .selecting, attempts := 0, unhealthyCount := 0 }) rfl hreset
    refine ⟨.recovered 0 true :: events, fun e he => ?_, ?_⟩
    · rcases List.mem_cons.mp he with rfl | he
      · exact Event.noConfusion
      · exact hevents e he
    · rw [State.run, List.foldl_cons, hback]
      exact hend
  | done => exact absurd hphase hrunning

/-- A request that finds room is put at the end of the queue. -/
theorem request_accepted (h : s.requests.length < queueCapacity) (r : Request) :
    (s.request r).requests = s.requests ++ [⟨s.accepted, { r with delay := max r.delay 0 }⟩] ∧
      (s.request r).phase = s.phase ∧ (s.request r).reset = s.reset ∧ (s.request r).stop = s.stop ∧
      (s.request r).handed = s.handed := by
  rw [State.request, if_pos h]
  exact ⟨rfl, rfl, rfl, rfl, rfl⟩

/-- A request that is accepted is safe from the success signals before it exactly when none of them is
still in the channel, or the supervisor is being stopped. -/
theorem request_not_cancelled_iff (cfg : Config) (o : Observation) (pre : List Event) (r : Request)
    (haccepted : ((State.start o).run cfg pre).requests.length < queueCapacity) :
    (∀ post, (∀ e ∈ post, e ≠ .markHealthy) →
        ((State.start o).run cfg (pre ++ .request r :: post)).stop = true ∨
          ((State.start o).run cfg (pre ++ .request r :: post)).Kept
            ⟨((State.start o).run cfg pre).accepted, { r with delay := max r.delay 0 }⟩) ↔
      ((State.start o).run cfg pre).stop = true ∨ ((State.start o).run cfg pre).reset = false := by
  have hnumbered : ((State.start o).run cfg pre).Numbered := (numbered_start o).run pre
  have hsplit : ∀ post, (State.start o).run cfg (pre ++ .request r :: post) =
      (((State.start o).run cfg pre).request r).run cfg post := fun post => State.run_append ..
  simp only [hsplit]
  generalize (State.start o).run cfg pre = s at *
  obtain ⟨hrequests, hphase, hreset, hstop, hhanded⟩ := request_accepted haccepted r
  generalize s.request r = t at *
  constructor
  · intro h
    by_contra hnot
    obtain ⟨hrunning, hsignal⟩ := not_or.mp hnot
    obtain ⟨events, hevents, hempty, hpending, hstop', hhanded'⟩ :=
      exists_lost cfg (s := t) (fun hdone => hrunning (hnumbered.done (hphase.symm.trans hdone)))
        (hreset.trans (by simpa using hsignal))
    rcases h events hevents with hstopped | hqueued | ⟨p, hp, -⟩ | ⟨a, ha, hmember, -⟩
    · exact hrunning ((hstop'.trans hstop).symm.trans hstopped)
    · rw [hempty] at hqueued
      cases hqueued
    · rw [hpending] at hp
      cases hp
    · rw [hhanded', hhanded] at ha
      exact absurd (hnumbered.handed a ha _ hmember) (Nat.lt_irrefl _)
  · intro h post hpost
    rw [← hstop, ← hreset] at h
    refine State.Kept.run (Or.inr (Or.inl ?_)) h hpost
    rw [hrequests]
    exact List.mem_append_right _ (List.mem_singleton_self _)

def sampleConfig : Config := ⟨2500000000, 2, fun _ => 1000000000⟩

/-- A network that is there, and no tunnel to watch. -/
def sampleObservation : Observation := ⟨false, ascii "net", true, .missing, fun _ => true⟩

/-- The request after the system has resumed. -/
def resumeRequest : Request := ⟨ascii "system resumed", true, 2000000000⟩

theorem request_not_cancelled_after_reset :
    ((State.start sampleObservation).run sampleConfig [.markHealthy, .takeReset]).requests.length <
        queueCapacity ∧
      ∀ post, (∀ e ∈ post, e ≠ .markHealthy) →
        ((State.start sampleObservation).run sampleConfig
            ([.markHealthy, .takeReset] ++ .request resumeRequest :: post)).stop = true ∨
          ((State.start sampleObservation).run sampleConfig
            ([.markHealthy, .takeReset] ++ .request resumeRequest :: post)).Kept ⟨0, resumeRequest⟩ := by
  have hroom : ((State.start sampleObservation).run sampleConfig [.markHealthy, .takeReset]).requests.length <
      queueCapacity := by decide
  exact ⟨hroom, (request_not_cancelled_iff sampleConfig sampleObservation [.markHealthy, .takeReset]
    resumeRequest hroom).mpr (Or.inr rfl)⟩

/-- The system is suspended and resumed while the loop is busy elsewhere: the loop takes the request
first and the older success signal after it, and the request is lost. -/
theorem resume_request_lost :
    let s := (State.start sampleObservation).run sampleConfig
      [.markHealthy, .request resumeRequest, .takeRequest 0, .takeReset]
    ((State.start sampleObservation).run sampleConfig [.markHealthy]).requests.length < queueCapacity ∧
      s.stop = false ∧ ¬s.Kept ⟨0, resumeRequest⟩ := by
  refine ⟨by decide, rfl, ?_⟩
  rintro (hqueued | ⟨p, hp, -⟩ | ⟨t, ht, -⟩)
  · cases hqueued
  · cases hp
  · cases ht

end runs

end SmartAwg.Supervisor
