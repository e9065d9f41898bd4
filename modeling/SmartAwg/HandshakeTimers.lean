import SmartAwg.DeviceFrame

/-!
The retries of a handshake: an initiation is sent when somebody asks for one or when the timer of the last
one runs out, but not sooner than the timeout after the one before.
-/

namespace SmartAwg.Awg

section model

/-- In nanoseconds. -/
def second : Int := 1000000000

def rekeyTimeout : Int := 5 * second

def rekeyTimeoutJitterMaxMs : UInt32 := 334

def rekeyMinTimeout (rekeyTimeoutSec : UintRange) : Int :=
  if rekeyTimeoutSec.isZero then rekeyTimeout else rekeyTimeoutSec.lo.toNat * second

def retransmitHandshakeTimeout (rekeyTimeoutSec : UintRange) (random : UInt32) : Int :=
  if rekeyTimeoutSec.isZero then rekeyTimeout else (rekeyTimeoutSec.pickOne random).toNat * second

/-- The handshake of a peer as its timer sees it; the timer is set to a time or not pending. -/
structure Retries where
  lastSentHandshake : Int
  handshakeAttempts : UInt32
  maxHandshakeAttempts : UInt32
  retransmitHandshake : Option Int

/-- A call with its time, what it draws, how long the sending takes, and whether a message can be made. -/
structure Attempt where
  now : Int
  max : UInt32
  random : UInt32
  jitter : UInt32
  takes : ℕ
  created : Bool

inductive End where
  | gaveUp
  | completed
  | responded
  | failed

inductive Effect where
  | nothing
  | sent (now : Int)
  | ended (why : End)

/-- What happens to a running peer, until `ExpireCurrentKeypairs` allows a message at once. -/
inductive Event where
  | request (e : Attempt)
  | expire (e : Attempt)
  | complete (now : Int) (max : UInt32)
  | respond (now : Int)

variable (t : UintRange)

def Retries.sendHandshakeInitiation (s : Retries) (isRetry : Bool) (e : Attempt) : Retries × Effect :=
  let s := if isRetry then s else { s with handshakeAttempts := 0, maxHandshakeAttempts := e.max }
  if e.now - s.lastSentHandshake < rekeyMinTimeout t then (s, .nothing)
  else
    let s := { s with lastSentHandshake := e.now }
    if !e.created then (s, .ended .failed)
    else
      let jitter : ℕ := (fastrandn e.jitter rekeyTimeoutJitterMaxMs).toNat * 1000000
      let due := e.now + e.takes + retransmitHandshakeTimeout t e.random + jitter
      ({ s with retransmitHandshake := some due }, .sent e.now)

/-- `expiredRetransmitHandshake`, once the timer is due. -/
def Retries.expire (s : Retries) (e : Attempt) : Retries × Effect :=
  match s.retransmitHandshake with
  | none => (s, .nothing)
  | some due =>
    if e.now < due then (s, .nothing)
    else
      let s := { s with retransmitHandshake := none }
      if s.handshakeAttempts > s.maxHandshakeAttempts then (s, .ended .gaveUp)
      else { s with handshakeAttempts := s.handshakeAttempts + 1 }.sendHandshakeInitiation t true e

def Retries.step (s : Retries) : Event → Retries × Effect
  | .request e => s.sendHandshakeInitiation t false e
  | .expire e => s.expire t e
  | .complete _ max => ({ s with
      retransmitHandshake := none, handshakeAttempts := 0, maxHandshakeAttempts := max }, .ended .completed)
  -- `SendHandshakeResponse`
  | .respond now => ({ s with lastSentHandshake := now }, .ended .responded)

/-- The state after a run, and what was done in it. -/
def Retries.run (s : Retries) : List Event → Retries × List Effect
  | [] => (s, [])
  | event :: events =>
    let (s, effect) := s.step t event
    let (s, effects) := s.run events
    (s, effect :: effects)

def Event.now : Event → Int
  | .request e => e.now
  | .expire e => e.now
  | .complete now _ => now
  | .respond now => now

/-- The clock does not go back. -/
def Clocked (start : Int) : List Event → Prop
  | [] => True
  | event :: events => start ≤ event.now ∧ Clocked event.now events

/-- Every initiation is at least the given time after the one before. -/
def Spaced (gap last : Int) : List Effect → Prop
  | [] => True
  | .sent now :: effects => last + gap ≤ now ∧ Spaced gap now effects
  | _ :: effects => Spaced gap last effects

/-- An initiation was sent, and nothing ended the wait for its answer. -/
def waiting (w : Bool) : List Effect → Bool
  | [] => w
  | .nothing :: effects => waiting w effects
  | .sent _ :: effects => waiting true effects
  | .ended _ :: effects => waiting false effects

end model

section runs
variable {t : UintRange} {s : Retries} {now last : Int} {w : Bool}

/-- While an answer is waited for the timer is set, and to a time at which the next message may be sent. -/
structure Kept (t : UintRange) (now last : Int) (w : Bool) (s : Retries) : Prop where
  le : last ≤ s.lastSentHandshake
  clock : s.lastSentHandshake ≤ now
  timer : w = true → ∃ due, s.retransmitHandshake = some due ∧ s.lastSentHandshake + rekeyMinTimeout t ≤ due

inductive Moves (t : UintRange) (now last : Int) (w : Bool) : Retries × Effect → Prop
  | stays {s : Retries} (h : Kept t now last w s) : Moves t now last w (s, .nothing)
  | sends {s : Retries} (gap : last + rekeyMinTimeout t ≤ now) (h : Kept t now now true s) : Moves t now last w (s, .sent now)
  | ends {s : Retries} (why : End) (h : Kept t now last false s) : Moves t now last w (s, .ended why)

theorem Kept.idle (hle : last ≤ s.lastSentHandshake) (hclock : s.lastSentHandshake ≤ now) : Kept t now last false s :=
  ⟨hle, hclock, fun hw => by cases hw⟩

theorem rekeyMinTimeout_le (ht : t.lo ≤ t.hi) (random : UInt32) :
    rekeyMinTimeout t ≤ retransmitHandshakeTimeout t random := by
  rw [rekeyMinTimeout, retransmitHandshakeTimeout]
  split
  · exact le_refl _
  · have hcontains := pickOne_contains t random ht
    rw [UintRange.contains, Bool.and_eq_true, decide_eq_true_eq, UInt32.le_iff_toNat_le] at hcontains
    simp only [second]
    omega

theorem send_moves (ht : t.lo ≤ t.hi) {e : Attempt} (isRetry : Bool) (hle : last ≤ s.lastSentHandshake)
    (hclock : s.lastSentHandshake ≤ e.now)
    (hsoon : e.now - s.lastSentHandshake < rekeyMinTimeout t → Kept t e.now last w s) :
    Moves t e.now last w (s.sendHandshakeInitiation t isRetry e) := by
  have hdue := rekeyMinTimeout_le ht e.random
  cases isRetry
  all_goals
    simp only [Retries.sendHandshakeInitiation, Bool.false_eq_true, if_true, if_false]
    split
    · next hgap => exact .stays ⟨(hsoon hgap).le, (hsoon hgap).clock, (hsoon hgap).timer⟩
    split
    · exact .ends _ (.idle (hle.trans hclock) (le_refl _))
    · exact .sends (by omega) ⟨le_refl _, le_refl _, fun _ => ⟨_, rfl, by simp only; omega⟩⟩

theorem step_moves (ht : t.lo ≤ t.hi) (event : Event) (h : Kept t event.now last w s) :
    Moves t event.now last w (s.step t event) := by
  cases event with
  | request e => exact send_moves ht false h.le h.clock fun _ => h
  | expire e =>
    rw [Retries.step, Retries.expire]
    split
    · exact .stays h
    next due hpending =>
    split
    · exact .stays h
    next hdue =>
    simp only
    split
    · exact .ends _ (.idle h.le h.clock)
    -- the timer is not set any more, but it was set to a time that is not too soon
    refine send_moves ht true ?_ ?_ fun hsoon => ?_
    · exact h.le
    · exact h.clock
    refine ⟨h.le, h.clock, fun hw => ?_⟩
    obtain ⟨due', hdue', hgap⟩ := h.timer hw
    cases hpending.symm.trans hdue'
    simp only [Event.now] at *
    omega
  | complete now max => exact .ends _ (.idle h.le h.clock)
  | respond now => exact .ends _ (.idle (h.le.trans h.clock) (le_refl _))

theorem run_kept (ht : t.lo ≤ t.hi) (events : List Event) (hclock : Clocked now events) (h : Kept t now last w s) :
    Spaced (rekeyMinTimeout t) last (s.run t events).2 ∧
      ∃ now last, Kept t now last (waiting w (s.run t events).2) (s.run t events).1 := by
  induction events generalizing s now last w with
  | nil => exact ⟨trivial, now, last, h⟩
  | cons event events ih =>
    have hmoves := step_moves ht event ⟨h.le, h.clock.trans hclock.1, h.timer⟩
    rw [Retries.run]
    generalize s.step t event = r at hmoves ⊢
    cases hmoves with
    | stays h => exact ih hclock.2 h
    | sends gap h => exact ⟨⟨gap, (ih hclock.2 h).1⟩, (ih hclock.2 h).2⟩
    | ends why h => exact ih hclock.2 h

/-- Initiations keep their distance, whoever asks for them; and while one is waiting for its answer there is
a timer that sends the next one, at a time when that is allowed. -/
theorem retries_go_on (ht : t.lo ≤ t.hi) (s : Retries) (events : List Event)
    (hclock : Clocked s.lastSentHandshake events) :
    Spaced (rekeyMinTimeout t) s.lastSentHandshake (s.run t events).2 ∧
      (waiting false (s.run t events).2 = true →
        ∃ due, (s.run t events).1.retransmitHandshake = some due ∧
          (s.run t events).1.lastSentHandshake + rekeyMinTimeout t ≤ due) := by
  obtain ⟨hspaced, now, last, hkept⟩ :=
    run_kept ht events hclock (.idle (le_refl s.lastSentHandshake) (le_refl _))
  exact ⟨hspaced, hkept.timer⟩

/-- A message, and another one when its timer runs out. -/
theorem retries_go_on_twice :
    let e : Attempt := ⟨5000000000, 18, 0, 0, 0, true⟩
    let r := Retries.run ⟨0, 0⟩ ⟨0, 0, 0, none⟩ [.request e, .request e, .expire { e with now := 10000000000 }]
    r.1.handshakeAttempts = 1 ∧ ∃ due, r.1.retransmitHandshake = some due ∧
      r.1.lastSentHandshake + rekeyMinTimeout ⟨0, 0⟩ ≤ due :=
  ⟨by decide, (retries_go_on (by decide) _ _ (by exact ⟨by decide, by decide, by decide, trivial⟩)).2 (by decide)⟩

end runs

end SmartAwg.Awg
