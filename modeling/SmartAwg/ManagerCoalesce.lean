import SmartAwg.ManagerSupervisor

/-!
The variables of the supervisor's loop: the timer, its channel, the pending request and when it is due,
and the counters. Requests coalesce into one pending recovery with one timer. The loop is followed by
the model in which the pending recovery is one value.
-/

namespace SmartAwg.Supervisor

open Go

section model

/-- `smartRecoveryDelay`, in nanoseconds. -/
def smartRecoveryDelay (attempt : Nat) : Int :=
  ([1, 2, 5, 10, 30, 60] : List Int).getD attempt 60 * 1000000000

/-- A timer of the runtime. -/
structure Timer where
  id : Nat
  deadline : Int
  deriving DecidableEq

/-- What the loop does that the statements are about. -/
inductive Entry where
  | scheduled (due : Int) (force : Bool)
  | emptied
  | called (force : Bool)
  | failed
  | succeeded
  | reset
  | healthy
  | absent
  deriving DecidableEq

/-- The variables of `run`. `next` and `armed` are the runtime's: the timers made so far, and those that
run or whose value was not received. The log has the newest entry first. -/
structure Loop where
  next : Nat
  armed : List Timer
  timer : Option Timer
  timerChannel : Option Timer
  pending : Request
  pendingAt : Option Int
  hasPending : Bool
  attempts : Nat
  unhealthyCount : Nat
  lastSignature : Str
  lastOnline : Bool
  haveSignature : Bool
  log : List Entry

def Loop.start (o : Observation) : Loop where
  next := 0
  armed := []
  timer := none
  timerChannel := none
  pending := ⟨[], false, 0⟩
  pendingAt := none
  hasPending := false
  attempts := 0
  unhealthyCount := 0
  lastSignature := o.signature
  lastOnline := o.online
  haveSignature := !o.networkErr
  log := []

/-- The times of one round: when the `select` takes its case, when `schedule` reads the clock, and when
it reads it again for the timer. -/
structure Moment where
  start : Int
  now : Int
  later : Int
  start_le : start ≤ now
  now_le : now ≤ later

def Loop.note (l : Loop) (e : Entry) : Loop := { l with log := e :: l.log }

/-- `stopTimer`: the timer does not run any more, and its channel is empty. -/
def Loop.stopTimer (l : Loop) : Loop :=
  match l.timer with
  | none => l
  | some timer => { l with armed := l.armed.erase timer }

/-- The end of `schedule`: a new timer for the time until `due`. -/
def Loop.arm (l : Loop) (due later : Int) : Loop :=
  let timer : Timer := ⟨l.next, later + max 0 (due - later)⟩
  { l with
    pendingAt := some due
    next := l.next + 1
    armed := l.armed ++ [timer]
    timer := some timer
    timerChannel := some timer }

/-- `schedule`. The zero time is not after any time. -/
def Loop.schedule (l : Loop) (r : Request) (t : Moment) : Loop :=
  let due := t.now + r.delay
  let l := l.note (.scheduled due r.force)
  if l.hasPending then
    let l := { l with pending := { l.pending with
      force := l.pending.force || r.force
      reason := if l.pending.reason = [] then r.reason else l.pending.reason } }
    if l.pendingAt.any (due < ·) then l.stopTimer.arm due t.later else l
  else { l with pending := r, hasPending := true }.arm due t.later

def Loop.cancelPending (l : Loop) : Loop :=
  { l.stopTimer.note .emptied with
    timer := none
    timerChannel := none
    hasPending := false
    pending := ⟨[], false, 0⟩
    pendingAt := none }

/-- The network part of a tick. -/
def Loop.observeNetwork (cfg : Config) (l : Loop) (t : Moment) (o : Observation) : Loop :=
  if o.networkErr then l
  else
    let l :=
      if l.haveSignature ∧ o.online ∧ (!l.lastOnline ∨ o.signature ≠ l.lastSignature) then
        l.schedule ⟨ascii "network changed", true, cfg.networkSettle⟩ t
      else l
    { l with lastSignature := o.signature, lastOnline := o.online, haveSignature := true }

/-- The health part of a tick. -/
def Loop.observeHealth (cfg : Config) (l : Loop) (t : Moment) (o : Observation) : Loop :=
  match o.desired with
  | .unreadable => l
  | .missing => { l.note .absent with unhealthyCount := 0, attempts := 0 }
  | .tunnel name =>
    if o.online && o.healthy name then { l.note .healthy with unhealthyCount := 0, attempts := 0 }
    else if !o.online then { l with unhealthyCount := 0 }
    else
      let l := { l with unhealthyCount := l.unhealthyCount + 1 }
      if l.unhealthyCount ≥ cfg.unhealthyPolls ∧ !l.hasPending then
        { l.schedule ⟨ascii "health check failed", false, 0⟩ t with unhealthyCount := 0 }
      else l

/-- The case of the timer's channel; `ok` is what `recover` returns. -/
def Loop.fired (cfg : Config) (l : Loop) (timer : Timer) (t : Moment) (ok : Bool) : Loop :=
  let request := l.pending
  let l := { l.note .emptied with
    armed := l.armed.erase timer
    timer := none
    timerChannel := none
    hasPending := false }
  let l := l.note (.called request.force)
  if ok then { l.note .succeeded with attempts := 0, unhealthyCount := 0 }
  else
    let delay := cfg.retryDelay l.attempts
    { l.note .failed with attempts := l.attempts + 1 }.schedule ⟨request.reason, request.force, delay⟩ t

inductive Case where
  | request (r : Request)
  | reset
  | tick (o : Observation)
  | timer (ok : Bool)

structure Occurrence where
  moment : Moment
  case : Case

/-- One round of the loop. A value of a timer can be received when its time has come. -/
def Loop.step (cfg : Config) (l : Loop) (e : Occurrence) : Option Loop :=
  match e.case with
  | .request r => some (l.schedule { r with delay := max r.delay 0 } e.moment)
  | .reset => some { l.cancelPending.note .reset with attempts := 0, unhealthyCount := 0 }
  | .tick o => some ((l.observeNetwork cfg e.moment o).observeHealth cfg e.moment o)
  | .timer ok =>
    match l.timerChannel with
    | none => none
    | some timer =>
      if timer ∈ l.armed ∧ timer.deadline ≤ e.moment.start then some (l.fired cfg timer e.moment ok)
      else none

def Loop.run (cfg : Config) : Loop → List Occurrence → Option Loop
  | l, [] => some l
  | l, e :: rest => (l.step cfg e).bind fun l' => l'.run cfg rest

end model

section meaning

/-- The requests scheduled since nothing was pending: when each is due, and whether it is forced. -/
def waiting : List Entry → List (Int × Bool)
  | [] => []
  | .scheduled due force :: log => (due, force) :: waiting log
  | .emptied :: _ => []
  | _ :: log => waiting log

/-- The calls of `recover` that failed since the last success, reset, healthy poll or absent record. -/
def failures : List Entry → Nat
  | [] => 0
  | .failed :: log => failures log + 1
  | .succeeded :: _ => 0
  | .reset :: _ => 0
  | .healthy :: _ => 0
  | .absent :: _ => 0
  | _ :: log => failures log

/-- The force flags of the calls of `recover`, the last one first. -/
def calls : List Entry → List Bool
  | [] => []
  | .called force :: log => force :: calls log
  | _ :: log => calls log

end meaning

section invariant
variable {cfg : Config} {l : Loop}

/-- Something is pending: it has the one timer there is, it is due with the first of the requests, and it
is forced if one of them is. -/
structure Loop.Pending (l : Loop) : Prop where
  hasPending : l.hasPending = true
  timer : ∃ timer, l.timer = some timer ∧ l.timerChannel = some timer ∧ l.armed = [timer] ∧
    ∃ due, l.pendingAt = some due ∧ due ≤ timer.deadline
  due : l.pendingAt = ((waiting l.log).map Prod.fst).min?
  force : l.pending.force = (waiting l.log).any Prod.snd

structure Loop.Idle (l : Loop) : Prop where
  hasPending : l.hasPending = false
  timer : l.timer = none
  timerChannel : l.timerChannel = none
  armed : l.armed = []
  waiting : waiting l.log = []

structure Loop.Sound (l : Loop) : Prop where
  pending : l.Pending ∨ l.Idle
  attempts : l.attempts = failures l.log

/-- What the two parts of the invariant look at. -/
structure Loop.Same (l l' : Loop) : Prop where
  armed : l'.armed = l.armed
  timer : l'.timer = l.timer
  timerChannel : l'.timerChannel = l.timerChannel
  pending : l'.pending = l.pending
  pendingAt : l'.pendingAt = l.pendingAt
  hasPending : l'.hasPending = l.hasPending
  waiting : waiting l'.log = waiting l.log

theorem pending_or_idle_of_same {l' : Loop} (hl : l.Pending ∨ l.Idle) (h : l.Same l') :
    l'.Pending ∨ l'.Idle := by
  rcases hl with hp | hi
  · refine Or.inl ⟨h.hasPending.trans hp.hasPending, ?_, ?_, ?_⟩
    · rw [h.timer, h.timerChannel, h.armed, h.pendingAt]
      exact hp.timer
    · rw [h.pendingAt, h.waiting]
      exact hp.due
    · rw [h.pending, h.waiting]
      exact hp.force
  · exact Or.inr ⟨h.hasPending.trans hi.hasPending, h.timer.trans hi.timer,
      h.timerChannel.trans hi.timerChannel, h.armed.trans hi.armed, h.waiting.trans hi.waiting⟩

theorem min_cons (x m : Int) (xs : List Int) (h : xs.min? = some m) :
    (x :: xs).min? = some (if x < m then x else m) := by
  rw [List.min?_cons, h]
  change some (min x m) = _
  congr 1
  rw [Int.min_def]
  split <;> split <;> omega

theorem le_arm_deadline (due later : Int) : due ≤ later + max 0 (due - later) := by omega

/-- Scheduling keeps the pending part of the invariant. -/
theorem schedule_pending (hl : l.Pending ∨ l.Idle) (r : Request) (t : Moment) :
    (l.schedule r t).Pending := by
  rcases hl with hp | hi
  · obtain ⟨timer, htimer, hchannel, harmed, due, hdue, hdeadline⟩ := hp.timer
    have hmin := hp.due
    rw [hdue] at hmin
    have hnew := min_cons (t.now + r.delay) due _ hmin.symm
    have hforce : (l.pending.force || r.force) = (r.force || (waiting l.log).any Prod.snd) := by
      rw [hp.force, Bool.or_comm]
    by_cases hbefore : t.now + r.delay < due
    · -- the old timer is stopped before the new one is made
      rw [if_pos hbefore] at hnew
      unfold Loop.schedule
      simp only [Loop.note, hp.hasPending, if_true, hdue, Option.any_some, hbefore, decide_true,
        Loop.stopTimer, htimer, harmed, List.erase_cons_head, Loop.arm, List.nil_append]
      exact ⟨rfl, ⟨_, rfl, rfl, rfl, _, rfl, le_arm_deadline _ _⟩, hnew.symm, hforce⟩
    · rw [if_neg hbefore] at hnew
      unfold Loop.schedule
      simp only [Loop.note, hp.hasPending, if_true, hdue, Option.any_some, hbefore, decide_false,
        Bool.false_eq_true, if_false]
      exact ⟨rfl, ⟨timer, htimer, hchannel, harmed, due, rfl, hdeadline⟩, hnew.symm, hforce⟩
  · unfold Loop.schedule
    simp only [Loop.note, hi.hasPending, Bool.false_eq_true, if_false, Loop.arm, hi.armed,
      List.nil_append]
    refine ⟨rfl, ⟨_, rfl, rfl, rfl, _, rfl, le_arm_deadline _ _⟩, ?_, ?_⟩
    · simp [waiting, hi.waiting]
    · simp [waiting, hi.waiting]

/-- Scheduling does not count as a failure or as a call. -/
theorem schedule_rest (l : Loop) (r : Request) (t : Moment) :
    (l.schedule r t).log = .scheduled (t.now + r.delay) r.force :: l.log ∧
      (l.schedule r t).attempts = l.attempts ∧ (l.schedule r t).unhealthyCount = l.unhealthyCount := by
  unfold Loop.schedule Loop.stopTimer Loop.arm Loop.note
  dsimp only
  split
  · split
    · split <;> exact ⟨rfl, rfl, rfl⟩
    · exact ⟨rfl, rfl, rfl⟩
  · exact ⟨rfl, rfl, rfl⟩

theorem Loop.Sound.schedule (h : l.Sound) (r : Request) (t : Moment) : (l.schedule r t).Sound := by
  obtain ⟨hlog, hattempts, -⟩ := schedule_rest l r t
  refine ⟨Or.inl (schedule_pending h.pending r t), ?_⟩
  rw [hlog, hattempts]
  exact h.attempts

theorem stopTimer_armed (hl : l.Pending ∨ l.Idle) : l.stopTimer.armed = [] := by
  rcases hl with hp | hi
  · obtain ⟨timer, htimer, -, harmed, -⟩ := hp.timer
    simp only [Loop.stopTimer, htimer, harmed, List.erase_cons_head]
  · simp only [Loop.stopTimer, hi.timer, hi.armed]

theorem cancelPending_idle (hl : l.Pending ∨ l.Idle) : l.cancelPending.Idle :=
  ⟨rfl, rfl, rfl, stopTimer_armed hl, rfl⟩

theorem sound_observeNetwork (h : l.Sound) (t : Moment) (o : Observation) :
    (l.observeNetwork cfg t o).Sound := by
  have hseen (k : Loop) (hk : k.Sound) : Loop.Sound
      { k with lastSignature := o.signature, lastOnline := o.online, haveSignature := true } :=
    ⟨pending_or_idle_of_same hk.pending ⟨rfl, rfl, rfl, rfl, rfl, rfl, rfl⟩, hk.attempts⟩
  unfold Loop.observeNetwork
  split
  · exact h
  · dsimp only
    split
    · exact hseen _ (h.schedule _ t)
    · exact hseen l h

theorem sound_observeHealth (h : l.Sound) (t : Moment) (o : Observation) :
    (l.observeHealth cfg t o).Sound := by
  have hcount (k : Loop) (hk : k.Sound) (n : Nat) : Loop.Sound { k with unhealthyCount := n } :=
    ⟨pending_or_idle_of_same hk.pending ⟨rfl, rfl, rfl, rfl, rfl, rfl, rfl⟩, hk.attempts⟩
  unfold Loop.observeHealth
  split
  · exact h
  · exact ⟨pending_or_idle_of_same h.pending ⟨rfl, rfl, rfl, rfl, rfl, rfl, rfl⟩, rfl⟩
  · split
    · exact ⟨pending_or_idle_of_same h.pending ⟨rfl, rfl, rfl, rfl, rfl, rfl, rfl⟩, rfl⟩
    split
    · exact hcount l h 0
    dsimp only
    split
    · exact hcount _ ((hcount l h _).schedule _ t) 0
    · exact hcount l h _

/-- What the loop has when `recover` returns: nothing pending, and one call more. -/
theorem sound_fired (h : l.Sound) (timer : Timer) (hchannel : l.timerChannel = some timer) (t : Moment)
    (ok : Bool) : (l.fired cfg timer t ok).Sound := by
  obtain ⟨hp | hi, hattempts⟩ := h
  · obtain ⟨timer', -, hchannel', harmed, -⟩ := hp.timer
    obtain rfl : timer' = timer := Option.some.inj (hchannel'.symm.trans hchannel)
    have herase : l.armed.erase timer' = [] := by rw [harmed, List.erase_cons_head]
    unfold Loop.fired
    dsimp only [Loop.note]
    split
    · exact ⟨Or.inr ⟨rfl, rfl, rfl, herase, rfl⟩, rfl⟩
    · refine Loop.Sound.schedule ⟨Or.inr ⟨rfl, rfl, rfl, herase, rfl⟩, ?_⟩ _ t
      exact congrArg (· + 1) hattempts
  · rw [hi.timerChannel] at hchannel
    cases hchannel

theorem Loop.Sound.step (h : l.Sound) (e : Occurrence) (l' : Loop) (hstep : l.step cfg e = some l') :
    l'.Sound := by
  obtain ⟨t, case⟩ := e
  cases case with
  | request r =>
    cases hstep
    exact h.schedule _ t
  | reset =>
    cases hstep
    exact ⟨pending_or_idle_of_same (Or.inr (cancelPending_idle h.pending))
      ⟨rfl, rfl, rfl, rfl, rfl, rfl, rfl⟩, rfl⟩
  | tick o =>
    cases hstep
    exact sound_observeHealth (sound_observeNetwork h t o) t o
  | timer ok =>
    simp only [Loop.step] at hstep
    split at hstep
    · cases hstep
    rename_i timer hchannel
    split at hstep
    · cases hstep
      exact sound_fired h timer hchannel t ok
    · cases hstep

theorem Loop.Sound.run (h : l.Sound) (es : List Occurrence) (l' : Loop) (hrun : l.run cfg es = some l') :
    l'.Sound := by
  induction es generalizing l with
  | nil =>
    cases hrun
    exact h
  | cons e es ih =>
    obtain ⟨m, hm, hrest⟩ := Option.bind_eq_some_iff.mp hrun
    exact ih (h.step e m hm) hrest

theorem start_sound (o : Observation) : (Loop.start o).Sound :=
  ⟨Or.inr ⟨rfl, rfl, rfl, rfl, rfl⟩, rfl⟩

end invariant

section rounds
variable {cfg : Config} {l : Loop}

/-- The timer the loop waits for is the only one, and there is one while something is pending. -/
theorem Loop.Sound.armed_eq (h : l.Sound) :
    l.armed = l.timerChannel.toList ∧ l.timerChannel.isSome = l.hasPending := by
  rcases h.pending with hp | hi
  · obtain ⟨timer, -, hchannel, harmed, -⟩ := hp.timer
    simp [hp.hasPending, harmed, hchannel]
  · simp [hi.hasPending, hi.armed, hi.timerChannel]

theorem Loop.Sound.waiting_iff (h : l.Sound) : l.hasPending = true ↔ waiting l.log ≠ [] := by
  rcases h.pending with hp | hi
  · obtain ⟨timer, -, -, -, due, hdue, -⟩ := hp.timer
    refine ⟨fun _ hnil => ?_, fun _ => hp.hasPending⟩
    have := hp.due
    rw [hnil, hdue] at this
    cases this
  · simp [hi.hasPending, hi.waiting]

/-- The timer's case: one call with the force flag of the pending recovery, not before it is due, and
after a failure one retry. -/
theorem Loop.Sound.timer_step (h : l.Sound) (t : Moment) (ok : Bool) (l' : Loop)
    (hstep : l.step cfg ⟨t, .timer ok⟩ = some l') :
    l.hasPending = true ∧ (∃ due, l.pendingAt = some due ∧ due ≤ t.start) ∧
      calls l'.log = l.pending.force :: calls l.log ∧
      (ok = true → l'.hasPending = false ∧ l'.attempts = 0) ∧
      (ok = false → l'.hasPending = true ∧ l'.attempts = l.attempts + 1 ∧
        waiting l'.log = [(t.now + cfg.retryDelay l.attempts, l.pending.force)]) := by
  simp only [Loop.step] at hstep
  split at hstep
  · cases hstep
  rename_i timer hchannel
  split at hstep
  case isFalse => cases hstep
  rename_i harmed
  cases hstep
  have hnot : ¬l.Idle := fun hi => by
    rw [hi.timerChannel] at hchannel
    cases hchannel
  have hp := h.pending.resolve_right hnot
  obtain ⟨timer', -, hchannel', -, due, hdue, hdeadline⟩ := hp.timer
  obtain rfl : timer' = timer := Option.some.inj (hchannel'.symm.trans hchannel)
  refine ⟨hp.hasPending, ⟨due, hdue, Int.le_trans hdeadline harmed.2⟩, ?_, ?_, ?_⟩
  · unfold Loop.fired
    cases ok with
    | true => rfl
    | false =>
      simp only [Bool.false_eq_true, if_false, (schedule_rest _ _ _).1]
      rfl
  · rintro rfl
    exact ⟨rfl, rfl⟩
  · rintro rfl
    have hsound : (l.fired cfg timer' t false).Sound := sound_fired h timer' hchannel t false
    unfold Loop.fired at hsound ⊢
    simp only [Bool.false_eq_true, if_false] at hsound ⊢
    refine ⟨?_, (schedule_rest _ _ _).2.1, ?_⟩
    · rcases hsound.pending with hp' | hi'
      · exact hp'.hasPending
      · have := hi'.waiting
        rw [(schedule_rest _ _ _).1] at this
        cases this
    · rw [(schedule_rest _ _ _).1]
      rfl

/-- No other case calls `recover`. -/
theorem other_step_calls (e : Occurrence) (hcase : ∀ ok, e.case ≠ .timer ok) (l' : Loop)
    (hstep : l.step cfg e = some l') : calls l'.log = calls l.log := by
  have hschedule (k : Loop) (r : Request) (t : Moment) : calls (k.schedule r t).log = calls k.log := by
    rw [(schedule_rest k r t).1]
    rfl
  have hnetwork (t : Moment) (o : Observation) : calls (l.observeNetwork cfg t o).log = calls l.log := by
    unfold Loop.observeNetwork
    split
    · rfl
    · dsimp only
      split
      · exact hschedule l _ t
      · rfl
  have hhealth (k : Loop) (t : Moment) (o : Observation) :
      calls (k.observeHealth cfg t o).log = calls k.log := by
    unfold Loop.observeHealth
    split
    · rfl
    · rfl
    · split
      · rfl
      split
      · rfl
      dsimp only
      split
      · exact hschedule _ _ t
      · rfl
  obtain ⟨t, case⟩ := e
  cases case with
  | request r =>
    cases hstep
    exact hschedule l _ t
  | reset =>
    cases hstep
    unfold Loop.cancelPending Loop.stopTimer
    dsimp only [Loop.note]
    cases l.timer <;> rfl
  | tick o =>
    cases hstep
    exact (hhealth _ t o).trans (hnetwork t o)
  | timer ok => exact absurd rfl (hcase ok)

/-- A poll of the same online network. -/
def Loop.QuietPoll (l : Loop) (e : Occurrence) : Prop :=
  ∃ o, e.case = .tick o ∧ o.networkErr = false ∧ o.online = true ∧ l.lastOnline = true ∧
    o.signature = l.lastSignature

/-- A run of such polls. -/
inductive QuietRun (cfg : Config) : Loop → Loop → Prop
  | refl (l : Loop) : QuietRun cfg l l
  | poll {l l' l'' : Loop} (e : Occurrence) : l.QuietPoll e → l.step cfg e = some l' →
    QuietRun cfg l' l'' → QuietRun cfg l l''

/-- While something is pending, a poll of the same network leaves it and its timer alone. -/
theorem quietPoll_same (hpending : l.hasPending = true) (e : Occurrence) (hquiet : l.QuietPoll e)
    (l' : Loop) (hstep : l.step cfg e = some l') : l.Same l' := by
  obtain ⟨t, case⟩ := e
  obtain ⟨o, hcase, herr, honline, hlast, hsame⟩ := hquiet
  obtain rfl : case = .tick o := hcase
  cases hstep
  have hnetwork : l.observeNetwork cfg t o =
      { l with lastSignature := o.signature, lastOnline := o.online, haveSignature := true } := by
    simp [Loop.observeNetwork, herr, hlast, hsame]
  rw [hnetwork]
  unfold Loop.observeHealth
  split
  · exact ⟨rfl, rfl, rfl, rfl, rfl, rfl, rfl⟩
  · exact ⟨rfl, rfl, rfl, rfl, rfl, rfl, rfl⟩
  · split
    · exact ⟨rfl, rfl, rfl, rfl, rfl, rfl, rfl⟩
    split
    · exact ⟨rfl, rfl, rfl, rfl, rfl, rfl, rfl⟩
    dsimp only
    rw [if_neg (by simp [hpending])]
    exact ⟨rfl, rfl, rfl, rfl, rfl, rfl, rfl⟩

theorem quietRun_same {l' : Loop} (hrun : QuietRun cfg l l') (hpending : l.hasPending = true) :
    l.Same l' := by
  induction hrun with
  | refl l => exact ⟨rfl, rfl, rfl, rfl, rfl, rfl, rfl⟩
  | poll e hquiet hstep _ ih =>
    have hfirst := quietPoll_same hpending e hquiet _ hstep
    have hrest := ih (hfirst.hasPending.trans hpending)
    exact ⟨hrest.armed.trans hfirst.armed, hrest.timer.trans hfirst.timer,
      hrest.timerChannel.trans hfirst.timerChannel, hrest.pending.trans hfirst.pending,
      hrest.pendingAt.trans hfirst.pendingAt, hrest.hasPending.trans hfirst.hasPending,
      hrest.waiting.trans hfirst.waiting⟩

theorem Loop.Sound.quietRun {l' : Loop} (h : l.Sound) (hrun : QuietRun cfg l l') : l'.Sound := by
  induction hrun with
  | refl l => exact h
  | poll e _ hstep _ ih => exact ih (h.step e _ hstep)

/-- Requests coalesce. In every state of the loop: there is one timer or none, as something is pending or
not; the pending recovery is due with the first request scheduled since nothing was pending, and forced
if one of them was; `attempts` counts the failures. Only the timer's case calls `recover`, once, with
the force flag of the pending recovery; a failure leaves one retry, with the delay for the attempts so
far. Polls of the same online network do not bring the call forward. -/
theorem requests_coalesce (cfg : Config) (o : Observation) (es : List Occurrence) (l : Loop)
    (hrun : (Loop.start o).run cfg es = some l) :
    l.armed = l.timerChannel.toList ∧ l.timerChannel.isSome = l.hasPending ∧
      (l.hasPending = true ↔ waiting l.log ≠ []) ∧
      (l.hasPending = true → l.pendingAt = ((waiting l.log).map Prod.fst).min? ∧
        l.pending.force = (waiting l.log).any Prod.snd) ∧
      l.attempts = failures l.log ∧
      (∀ e l', l.step cfg e = some l' → (∀ ok, e.case ≠ .timer ok) → calls l'.log = calls l.log) ∧
      (∀ t ok l', l.step cfg ⟨t, .timer ok⟩ = some l' →
        l.hasPending = true ∧ calls l'.log = l.pending.force :: calls l.log ∧
        (ok = true → l'.hasPending = false) ∧
        (ok = false → l'.hasPending = true ∧
          waiting l'.log = [(t.now + cfg.retryDelay l.attempts, l.pending.force)])) ∧
      ∀ l₁ l₂ t ok, l.hasPending = true → QuietRun cfg l l₁ →
        l₁.step cfg ⟨t, .timer ok⟩ = some l₂ → ∃ due, l.pendingAt = some due ∧ due ≤ t.start := by
  have hsound := (start_sound o).run es l hrun
  refine ⟨hsound.armed_eq.1, hsound.armed_eq.2, hsound.waiting_iff, ?_, hsound.attempts, ?_, ?_, ?_⟩
  · intro hpending
    have hp := hsound.pending.resolve_right fun hi => by
      rw [hi.hasPending] at hpending
      cases hpending
    exact ⟨hp.due, hp.force⟩
  · intro e l' hstep hcase
    exact other_step_calls e hcase l' hstep
  · intro t ok l' hstep
    obtain ⟨hpending, -, hcalls, hok, hfail⟩ := hsound.timer_step t ok l' hstep
    exact ⟨hpending, hcalls, fun h => (hok h).1, fun h => ⟨(hfail h).1, (hfail h).2.2⟩⟩
  · intro l₁ l₂ t ok hpending hquiet hstep
    obtain ⟨-, ⟨due, hdue, hstart⟩, -⟩ := (hsound.quietRun hquiet).timer_step t ok l₂ hstep
    exact ⟨due, (quietRun_same hquiet hpending).pendingAt.symm.trans hdue, hstart⟩

end rounds

section followed
variable {cfg : Config} {l : Loop} {s : State}

/-- The pending recovery of the loop as one value: its reason, its force flag and when it is due. -/
def Loop.view (l : Loop) : Option (Str × Bool × Int) :=
  if l.hasPending then l.pendingAt.map fun due => (l.pending.reason, l.pending.force, due) else none

/-- The loop and the model with one pending value are at the same place, with empty channels. -/
structure Follows (l : Loop) (s : State) : Prop where
  phase : s.phase = .selecting
  requests : s.requests = []
  reset : s.reset = false
  pending : (s.pending.map fun p => (p.reason, p.force, p.due)) = l.view
  attempts : s.attempts = l.attempts
  unhealthyCount : s.unhealthyCount = l.unhealthyCount
  lastSignature : s.lastSignature = l.lastSignature
  lastOnline : s.lastOnline = l.lastOnline
  haveSignature : s.haveSignature = l.haveSignature
  recovers : s.handed.map Prod.snd = (calls l.log).reverse

/-- What the model does in a round of the loop: what is received has been sent just before. -/
def Occurrence.events (e : Occurrence) : List Event :=
  match e.case with
  | .request r => [.request r, .takeRequest e.moment.now]
  | .reset => [.markHealthy, .takeReset]
  | .tick o => [.tick e.moment.now o]
  | .timer ok => [.fire e.moment.start, .recovered e.moment.now ok]

theorem Loop.Pending.view (hp : l.Pending) :
    ∃ due, l.pendingAt = some due ∧ l.view = some (l.pending.reason, l.pending.force, due) := by
  obtain ⟨timer, -, -, -, due, hdue, -⟩ := hp.timer
  exact ⟨due, hdue, by simp [Loop.view, hp.hasPending, hdue]⟩

theorem Loop.Idle.view (hi : l.Idle) : l.view = none := by
  simp [Loop.view, hi.hasPending]

/-- The view of the loop after `schedule`. -/
theorem schedule_view (hl : l.Pending ∨ l.Idle) (r : Request) (t : Moment) :
    (l.schedule r t).view = match l.view with
      | some (reason, force, due) => some (if reason = [] then r.reason else reason, force || r.force,
          if t.now + r.delay < due then t.now + r.delay else due)
      | none => some (r.reason, r.force, t.now + r.delay) := by
  rcases hl with hp | hi
  · obtain ⟨due, hdue, hview⟩ := hp.view
    rw [hview]
    unfold Loop.schedule
    simp only [Loop.note, hp.hasPending, if_true, hdue, Option.any_some, decide_eq_true_eq]
    split
    · cases l.timer <;> simp [Loop.stopTimer, Loop.arm, Loop.view]
    · simp [Loop.view]
  · rw [hi.view]
    unfold Loop.schedule
    simp [Loop.note, hi.hasPending, Loop.arm, Loop.view]

theorem schedule_network (l : Loop) (r : Request) (t : Moment) :
    (l.schedule r t).lastSignature = l.lastSignature ∧ (l.schedule r t).lastOnline = l.lastOnline ∧
      (l.schedule r t).haveSignature = l.haveSignature := by
  unfold Loop.schedule Loop.stopTimer Loop.arm Loop.note
  dsimp only
  split
  · split
    · split <;> exact ⟨rfl, rfl, rfl⟩
    · exact ⟨rfl, rfl, rfl⟩
  · exact ⟨rfl, rfl, rfl⟩

theorem Follows.schedule (h : Follows l s) (hl : l.Sound) (members : List Nat) (r : Request) (t : Moment) :
    Follows (l.schedule r t) (s.schedule members r t.now) := by
  obtain ⟨hlog, hattempts, hunhealthy⟩ := schedule_rest l r t
  obtain ⟨hsignature, honline, hhave⟩ := schedule_network l r t
  have hcalls : calls (l.schedule r t).log = calls l.log := by
    rw [hlog]
    rfl
  have hrecovers := h.recovers.trans (congrArg List.reverse hcalls.symm)
  have hview := schedule_view hl.pending r t
  rw [← h.pending] at hview
  unfold State.schedule
  cases hpending : s.pending with
  | none =>
    rw [hpending] at hview
    exact ⟨h.phase, h.requests, h.reset, hview.symm, h.attempts.trans hattempts.symm,
      h.unhealthyCount.trans hunhealthy.symm, h.lastSignature.trans hsignature.symm,
      h.lastOnline.trans honline.symm, h.haveSignature.trans hhave.symm, hrecovers⟩
  | some p =>
    rw [hpending] at hview
    exact ⟨h.phase, h.requests, h.reset, hview.symm, h.attempts.trans hattempts.symm,
      h.unhealthyCount.trans hunhealthy.symm, h.lastSignature.trans hsignature.symm,
      h.lastOnline.trans honline.symm, h.haveSignature.trans hhave.symm, hrecovers⟩

theorem Follows.observeNetwork (h : Follows l s) (hl : l.Sound) (t : Moment) (o : Observation) :
    Follows (l.observeNetwork cfg t o) (s.observeNetwork cfg t.now o) := by
  have hseen (k : Loop) (u : State) (hk : Follows k u) : Follows
      { k with lastSignature := o.signature, lastOnline := o.online, haveSignature := true }
      { u with lastSignature := o.signature, lastOnline := o.online, haveSignature := true } :=
    ⟨hk.phase, hk.requests, hk.reset, hk.pending, hk.attempts, hk.unhealthyCount, rfl, rfl, rfl, hk.recovers⟩
  unfold Loop.observeNetwork State.observeNetwork
  rw [h.haveSignature, h.lastOnline, h.lastSignature]
  split
  · exact h
  · dsimp only
    split
    · exact hseen _ _ (h.schedule hl [] _ t)
    · exact hseen l s h

theorem Follows.observeHealth (h : Follows l s) (hl : l.Sound) (t : Moment) (o : Observation) :
    Follows (l.observeHealth cfg t o) (s.observeHealth cfg t.now o) := by
  have hcount (n : Nat) : Follows { l with unhealthyCount := n } { s with unhealthyCount := n } :=
    ⟨h.phase, h.requests, h.reset, h.pending, h.attempts, rfl, h.lastSignature, h.lastOnline,
      h.haveSignature, h.recovers⟩
  have hidle : s.pending = none ↔ (!l.hasPending) = true := by
    have hview := h.pending
    rcases hl.pending with hp | hi
    · obtain ⟨due, -, hv⟩ := hp.view
      rw [hv] at hview
      cases hpending : s.pending with
      | none =>
        rw [hpending] at hview
        cases hview
      | some p => simp [hp.hasPending]
    · rw [hi.view] at hview
      simp [Option.map_eq_none_iff.mp hview, hi.hasPending]
  have hreset (e : Entry) (he : calls (e :: l.log) = calls l.log) : Follows { l.note e with unhealthyCount := 0, attempts := 0 }
      { s with unhealthyCount := 0, attempts := 0 } :=
    ⟨h.phase, h.requests, h.reset, h.pending, rfl, rfl, h.lastSignature, h.lastOnline, h.haveSignature,
      h.recovers.trans (congrArg List.reverse he.symm)⟩
  unfold Loop.observeHealth State.observeHealth
  cases o.desired with
  | unreadable => exact h
  | missing => exact hreset .absent rfl
  | tunnel name =>
    dsimp only
    split
    · exact hreset .healthy rfl
    split
    · exact hcount 0
    rw [h.unhealthyCount]
    by_cases hpoll : l.unhealthyCount + 1 ≥ cfg.unhealthyPolls ∧ s.pending = none
    · rw [if_pos hpoll, if_pos ⟨hpoll.1, hidle.mp hpoll.2⟩]
      have hcounted : Loop.Sound { l with unhealthyCount := l.unhealthyCount + 1 } :=
        ⟨pending_or_idle_of_same hl.pending ⟨rfl, rfl, rfl, rfl, rfl, rfl, rfl⟩, hl.attempts⟩
      have hs := (hcount (l.unhealthyCount + 1)).schedule hcounted []
        ⟨ascii "health check failed", false, 0⟩ t
      have hstate : (State.schedule { s with unhealthyCount := l.unhealthyCount + 1 } []
          ⟨ascii "health check failed", false, 0⟩ t.now) =
          { s.schedule [] ⟨ascii "health check failed", false, 0⟩ t.now with
            unhealthyCount := l.unhealthyCount + 1 } := by
        simp only [State.schedule, hpoll.2]
      rw [hstate] at hs
      exact ⟨hs.phase, hs.requests, hs.reset, hs.pending, hs.attempts, rfl, hs.lastSignature,
        hs.lastOnline, hs.haveSignature, hs.recovers⟩
    · rw [if_neg hpoll, if_neg fun hand => hpoll ⟨hand.1, hidle.mpr hand.2⟩]
      exact hcount _

theorem run_request (hphase : s.phase = .selecting) (hrequests : s.requests = []) (r : Request) (now : Int) :
    s.run cfg [.request r, .takeRequest now] = ({ s with accepted := s.accepted + 1 } : State).schedule
      [s.accepted] { r with delay := max r.delay 0 } now := by
  obtain ⟨requests, reset, stop, phase⟩ := s
  cases hphase
  cases hrequests
  rfl

theorem run_reset (hphase : s.phase = .selecting) :
    s.run cfg [.markHealthy, .takeReset] =
      { s with reset := false, attempts := 0, unhealthyCount := 0, pending := none } := by
  obtain ⟨requests, reset, stop, phase⟩ := s
  cases hphase
  rfl

theorem run_tick (hphase : s.phase = .selecting) (now : Int) (o : Observation) :
    s.run cfg [.tick now o] = (s.observeNetwork cfg now o).observeHealth cfg now o := by
  obtain ⟨requests, reset, stop, phase⟩ := s
  cases hphase
  rfl

theorem run_fire (hphase : s.phase = .selecting) (p : Pending) (hpending : s.pending = some p)
    (start now : Int) (hdue : p.due ≤ start) (ok : Bool) :
    s.run cfg [.fire start, .recovered now ok] = State.recovered cfg
      { s with
        pending := none
        phase := .recovering p.members p.reason p.force
        handed := s.handed ++ [(p.members, p.force)] } p.members p.reason p.force now ok := by
  have hfire : s.step cfg (.fire start) = { s with
      pending := none
      phase := .recovering p.members p.reason p.force
      handed := s.handed ++ [(p.members, p.force)] } := by
    simp only [State.step, hphase, if_true, State.select, hpending, if_pos hdue]
  rw [State.run, List.foldl_cons, hfire]
  rfl

theorem Follows.timer (h : Follows l s) (hl : l.Sound) (t : Moment) (ok : Bool) (l' : Loop)
    (hstep : l.step cfg ⟨t, .timer ok⟩ = some l') :
    Follows l' (s.run cfg (Occurrence.events ⟨t, .timer ok⟩)) := by
  obtain ⟨-, ⟨due, hdue, hstart⟩, -⟩ := hl.timer_step t ok l' hstep
  simp only [Loop.step] at hstep
  split at hstep
  · cases hstep
  rename_i timer hchannel
  split at hstep
  case isFalse => cases hstep
  cases hstep
  have hp : l.Pending := hl.pending.resolve_right fun hi => by
    rw [hi.timerChannel] at hchannel
    cases hchannel
  obtain ⟨due', hdue', hview⟩ := hp.view
  obtain rfl : due = due' := Option.some.inj (hdue.symm.trans hdue')
  obtain ⟨p, hpending, hp'⟩ : ∃ p, s.pending = some p ∧
      (p.reason, p.force, p.due) = (l.pending.reason, l.pending.force, due) :=
    Option.map_eq_some_iff.mp (h.pending.trans hview)
  obtain ⟨hreason, hforce, rfl⟩ : p.reason = l.pending.reason ∧ p.force = l.pending.force ∧
      p.due = due := by simpa using hp'
  have hrecovers : (s.handed ++ [(p.members, l.pending.force)]).map Prod.snd =
      (l.pending.force :: calls l.log).reverse := by
    rw [List.map_append, h.recovers, List.reverse_cons]
    rfl
  rw [Occurrence.events, run_fire h.phase p hpending t.start t.now hstart ok, hreason, hforce]
  unfold Loop.fired State.recovered
  dsimp only [Loop.note]
  split
  · exact ⟨rfl, h.requests, h.reset, rfl, rfl, rfl, h.lastSignature, h.lastOnline, h.haveSignature,
      hrecovers⟩
  · obtain ⟨timer', -, hchannel', harmed, -⟩ := hp.timer
    obtain rfl : timer' = timer := Option.some.inj (hchannel'.symm.trans hchannel)
    rw [h.attempts]
    refine Follows.schedule ?_ ⟨Or.inr ⟨rfl, rfl, rfl, ?_, rfl⟩, ?_⟩ _ _ t
    · exact ⟨rfl, h.requests, h.reset, rfl, rfl, h.unhealthyCount, h.lastSignature, h.lastOnline,
        h.haveSignature, hrecovers⟩
    · change l.armed.erase timer' = []
      rw [harmed, List.erase_cons_head]
    · exact congrArg (· + 1) hl.attempts

/-- Every round of the loop is a few steps of the model with one pending value. -/
theorem Follows.step (h : Follows l s) (hl : l.Sound) (e : Occurrence) (l' : Loop)
    (hstep : l.step cfg e = some l') : Follows l' (s.run cfg e.events) := by
  obtain ⟨t, case⟩ := e
  cases case with
  | request r =>
    cases hstep
    rw [Occurrence.events, run_request h.phase h.requests]
    refine Follows.schedule ?_ hl _ _ t
    exact ⟨h.phase, h.requests, h.reset, h.pending, h.attempts, h.unhealthyCount, h.lastSignature,
      h.lastOnline, h.haveSignature, h.recovers⟩
  | reset =>
    cases hstep
    rw [Occurrence.events, run_reset h.phase]
    have hnetwork : l.stopTimer.lastSignature = l.lastSignature ∧
        l.stopTimer.lastOnline = l.lastOnline ∧ l.stopTimer.haveSignature = l.haveSignature ∧
        calls l.stopTimer.log = calls l.log := by
      unfold Loop.stopTimer
      split <;> exact ⟨rfl, rfl, rfl, rfl⟩
    obtain ⟨hsignature, honline, hhave, hcalls⟩ := hnetwork
    exact ⟨h.phase, h.requests, rfl, rfl, rfl, rfl, h.lastSignature.trans hsignature.symm,
      h.lastOnline.trans honline.symm, h.haveSignature.trans hhave.symm,
      h.recovers.trans (congrArg List.reverse hcalls.symm)⟩
  | tick o =>
    cases hstep
    rw [Occurrence.events, run_tick h.phase]
    exact (h.observeNetwork hl t o).observeHealth (sound_observeNetwork hl t o) t o
  | timer ok => exact h.timer hl t ok l' hstep

theorem Follows.run (h : Follows l s) (hl : l.Sound) (es : List Occurrence) (l' : Loop)
    (hrun : l.run cfg es = some l') : Follows l' (s.run cfg (es.flatMap Occurrence.events)) := by
  induction es generalizing l s with
  | nil =>
    cases hrun
    exact h
  | cons e es ih =>
    obtain ⟨m, hm, hrest⟩ := Option.bind_eq_some_iff.mp hrun
    rw [List.flatMap_cons, State.run, List.foldl_append]
    exact ih (h.step hl e m hm) (hl.step e m hm) hrest

/-- Every run of the loop is the run of the model with one pending value in which the same things happen
at the same times; the calls of `recover` are the same, in the same order. -/
theorem loop_followed (cfg : Config) (o : Observation) (es : List Occurrence) (l : Loop)
    (hrun : (Loop.start o).run cfg es = some l) :
    Follows l ((State.start o).run cfg (es.flatMap Occurrence.events)) :=
  Follows.run ⟨rfl, rfl, rfl, rfl, rfl, rfl, rfl, rfl, rfl, rfl⟩ (start_sound o) es l hrun

end followed

section samples

/-- The defaults of `newSmartRecoverySupervisor`. -/
def defaultConfig : Config := ⟨2500000000, 2, smartRecoveryDelay⟩

def moment (t : Int) : Moment := ⟨t, t, t, Int.le_refl t, Int.le_refl t⟩

/-- An online network and a tunnel that is not healthy. -/
def sickTunnel : Observation := ⟨false, ascii "net", true, .tunnel (ascii "home"), fun _ => false⟩

/-- Two requests, the second one earlier and forced, two polls, and a recovery that fails. -/
def failingRounds : List Occurrence :=
  [⟨moment 0, .request ⟨ascii "first", false, 9⟩⟩, ⟨moment 1, .request ⟨ascii "second", true, 3⟩⟩,
    ⟨moment 2, .tick sickTunnel⟩, ⟨moment 3, .tick sickTunnel⟩, ⟨moment 5, .timer false⟩]

theorem requests_coalesce_failing : ∃ l, (Loop.start sickTunnel).run defaultConfig failingRounds = some l ∧
    l.hasPending = true ∧ l.armed.length = 1 ∧ calls l.log = [true] ∧ l.attempts = 1 ∧
    l.pendingAt = some 1000000005 ∧ l.pending.force = true := by
  obtain ⟨l, hrun⟩ : ∃ l, (Loop.start sickTunnel).run defaultConfig failingRounds = some l :=
    Option.isSome_iff_exists.mp (by decide +kernel)
  have hlog : l.log = [.scheduled 1000000005 true, .failed, .called true, .emptied,
      .scheduled 4 true, .scheduled 9 false] := by
    have := congrArg (Option.map Loop.log) hrun
    exact (Option.some.inj (this.symm.trans (by decide +kernel :
      ((Loop.start sickTunnel).run defaultConfig failingRounds).map Loop.log = some _)))
  obtain ⟨harmed, hchannel, hiff, hpending, hattempts, -⟩ :=
    requests_coalesce defaultConfig sickTunnel failingRounds l hrun
  rw [hlog] at hiff hpending hattempts
  have hp := hiff.mpr (by decide)
  refine ⟨l, hrun, hp, ?_, by rw [hlog]; rfl, hattempts, (hpending hp).1, (hpending hp).2⟩
  rw [harmed, Option.length_toList, hchannel, hp]
  rfl

theorem loop_followed_failing : ∃ l, (Loop.start sickTunnel).run defaultConfig failingRounds = some l ∧
    Follows l ((State.start sickTunnel).run defaultConfig (failingRounds.flatMap Occurrence.events)) := by
  obtain ⟨l, hrun⟩ : ∃ l, (Loop.start sickTunnel).run defaultConfig failingRounds = some l :=
    Option.isSome_iff_exists.mp (by decide +kernel)
  exact ⟨l, hrun, loop_followed defaultConfig sickTunnel failingRounds l hrun⟩

end samples

end SmartAwg.Supervisor
