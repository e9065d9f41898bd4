import SmartAwg.ManagerRun

/-!
Two places where the manager does one thing in two ways: a native tunnel is started by `Start` and
by `SmartStart`, and `Stop` compares names byte by byte and under case folding.
-/

namespace SmartAwg.Manager

open Go Smart Fallible

section starts
variable {w : World} {a : Attempt} {name : Str} {f : Feed Question Answer}

/-- What is left of `SmartStart` once the native tunnel runs: the two calls that `Start` does not
make. -/
def forgetSmart (a : Attempt) (name : Str) : Op Unit := do
  clearGuard a
  match ← Prog.attempt (clearSmartDesired a) with
  | .ok () => return ()
  | .error e =>
    let _ ← Prog.attempt (stopNativeTunnel a name)
    Prog.fail (.wrap "clear smart recovery state" e)

theorem forgetSmart_spec (u : World) : wp (fun _ _ => True) (forgetSmart a name)
    (fun r u' => r = .ok () → u' = { u with guard := none, desired := none }) u := by
  refine (clearGuard_spec a).bind ?_ fun e u' _ h => by cases h
  rintro ⟨⟩ u' (⟨-, rfl⟩ | ⟨e, he, -⟩)
  · refine (clearSmartDesired_spec a).attempt_bind ?_
    rintro r u' (⟨rfl, rfl⟩ | ⟨e, rfl, rfl, -⟩)
    · exact wp_pure _ fun _ => rfl
    · refine (wp.attempt_bind (T := fun _ _ => True) ?_ fun _ _ _ => wp_fail _ fun h => by cases h)
      exact (stopNativeTunnelsLocked_spec a [name]).mono fun _ _ _ => trivial
  · cases he

theorem startNative_of_started (restore : SmartProcess → Op Unit) (hnone : w.smartProcess = none)
    (hstart : (startNativeUnlocked a name w f).value = .ok ())
    (hok : (startNative restore a name true w f).value = .ok ()) :
    (startNative restore a name true w f).state =
      { (startNativeUnlocked a name w f).state with guard := none, desired := none } := by
  -- no engine is recorded, so stopping it changes nothing and asks nothing
  have hlock (place : Place) : lock a place w f = ⟨.ok w, w, f⟩ := by
    have hsame : effect (f 0 ⟨a, .lock place⟩) w (.lock place) = w := by
      simp only [effect, World.detached_of_none hnone, ite_self]
    simp only [lock, Prog.peek, Prog.change, Prog.read, Bind.bind, hsame]
  have hstop : smartStopUnlocked a w f = ⟨.ok (), w, f⟩ := by
    have hdetach : detachSmartProcess a w f = ⟨.ok none, w, f⟩ := by
      have hw : { w with smartProcess := none } = w := by rw [← hnone]
      simp only [detachSmartProcess, Bind.bind, hlock, Prog.change, pure, hnone, hw]
    simp only [smartStopUnlocked, Bind.bind, hdetach, stopSmartProcessState, pure]
  have heq : startNative restore a name true w f = forgetSmart a name
      (startNativeUnlocked a name w f).state (startNativeUnlocked a name w f).rest := by
    simp only [startNative, hlock, Prog.mapError, Prog.attempt, Bind.bind, hstop, hstart,
      Except.mapError, forgetSmart]
    rfl
  rw [heq] at hok ⊢
  exact (forgetSmart_spec _).ending _ (fun _ _ => trivial) hok

/-- With settings that a native tunnel serves, only the first call comes before that start. -/
theorem startWith_of_native (env : Env) (restore : SmartProcess → Op Unit) {s : RoutingSettings}
    (hnative : usesNativeTunnel s = true) {persist : Bool} {own : Question → Answer}
    (hok : (startWith env restore a name s persist w (f.cons own)).value = .ok ()) :
    startWith env restore a name s persist w (f.cons own) = startNative restore a name persist w f := by
  have hbranch : startWith env restore a name s persist =
      must ⟨a, .preflight⟩ >>= fun _ => startNative restore a name persist := by
    simp only [startWith, hnative, Bool.true_eq_false, dite_false]
  rw [hbranch] at hok ⊢
  cases hown : (own ⟨a, .preflight⟩).fault with
  | none =>
    have hmust : must ⟨a, .preflight⟩ w (f.cons own) = ⟨.ok (own ⟨a, .preflight⟩), w, f⟩ := by
      simp only [must, os, Prog.ask, Prog.change, Bind.bind, pure, Feed.cons, Feed.tail_cons, hown,
        effect]
    rw [Prog.bind_of_ok (congrArg Ending.value hmust), hmust]
  | some fault =>
    have hmust : (must ⟨a, .preflight⟩ w (f.cons own)).value = .error (.os .preflight fault) := by
      simp only [must, os, Prog.ask, Prog.change, Bind.bind, pure, Feed.cons, hown, Prog.fail]
    rw [Prog.bind_of_error hmust] at hok
    cases hok

/-- `Start` and `SmartStart` with settings that a native tunnel serves, given the same answers to
the calls they share (`SmartStart` makes one call of its own before them) while no engine exits, lead
to the same tunnels and to no engine and no record. They agree on the guard exactly when none was
installed, since only `SmartStart` lifts it. -/
theorem starts_agree_iff (env : Env) (decode : Str → Except SmartErr RoutingSettings) (w : World)
    (hengines : w.engines = []) (elevated : Bool) (name raw : Str) (s : RoutingSettings)
    (hs : parseSettingsPayload env decode raw = .ok s) (hnative : usesNativeTunnel s = true)
    (own : Question → Answer) (f : Feed Question Answer) (halive : Still (givenBy f))
    (hstart : (start name w f).value = .ok ())
    (hsmart : (smartStart env decode elevated name raw w (f.cons own)).value = .ok ()) :
    ((∀ n, (start name w f).state.services.state n =
          (smartStart env decode elevated name raw w (f.cons own)).state.services.state n) ∧
        (start name w f).state.engines = [] ∧
        (smartStart env decode elevated name raw w (f.cons own)).state.engines = [] ∧
        (start name w f).state.desired = none ∧
        (smartStart env decode elevated name raw w (f.cons own)).state.desired = none ∧
        ((start name w f).state.guard = none ↔
          (smartStart env decode elevated name raw w (f.cons own)).state.guard = none)) ↔
      w.guard = none := by
  -- the tunnel was started, so no engine was recorded
  have hend : NativeEnd (givenBy f) .target name w (start name w f).value
      (start name w f).state := by
    obtain ⟨w₀, hmissed, hend⟩ := (startNativeUnlocked_spec .target name).ending f (grants_givenBy f)
      (s := w)
    obtain rfl := hmissed.of_not (halive _)
    exact hend
  rw [hstart] at hend
  obtain ⟨v, hnone, hstate⟩ : ∃ v, w.smartProcess = none ∧
      (start name w f).state = { w with services := v, desired := none } := by
    generalize (start name w f).state = u at hend
    cases hend with
    | started v hnone _ _ => exact ⟨v, hnone, rfl⟩
  have hturn : (smartStart env decode elevated name raw w (f.cons own)).state =
      { (start name w f).state with guard := none, desired := none } := by
    cases elevated with
    | false => cases hsmart
    | true =>
      have hlocked : smartStart env decode true name raw =
          startWith env (restoreSmart env) .target name s true := by
        simp only [smartStart, hs, if_true]
        rfl
      rw [hlocked] at hsmart ⊢
      have hturn := startWith_of_native env (restoreSmart env) hnative hsmart
      rw [hturn] at hsmart ⊢
      exact startNative_of_started _ hnone hstart hsmart
  rw [hturn, hstate]
  constructor
  · rintro ⟨-, -, -, -, -, hguard⟩
    exact hguard.mpr rfl
  · intro hguard
    exact ⟨fun _ => rfl, hengines, hengines, rfl, rfl, fun _ => rfl, fun _ => hguard⟩

theorem value_of_isOk {r : Except ManagerErr Unit} (h : r.isOk = true) : r = .ok () := by
  cases r with
  | ok => rfl
  | error e => cases h

/-- What a native start asks is granted. -/
def granted : Feed Question Answer := answering fun _ => false

theorem starts_agree_clean :
    (start (ascii "work") cleanWorld granted).state.guard = none ↔
      (smartStart plainEnv (fun _ => .ok plainSettings) true (ascii "work") (ascii "\x7b\x7d")
        cleanWorld (granted.cons (granted 0))).state.guard = none :=
  ((starts_agree_iff plainEnv (fun _ => .ok plainSettings) cleanWorld rfl true (ascii "work")
    (ascii "\x7b\x7d") plainSettings (by decide +kernel) (by decide +kernel) (granted 0) granted
    (answering_still _)
    (value_of_isOk (by decide +kernel)) (value_of_isOk (by decide +kernel))).mpr rfl).2.2.2.2.2

/-- The guard that a crashed engine has left stays installed under a tunnel that `Start` has
started. -/
theorem start_keeps_left_guard :
    (start (ascii "work") crashedWorld granted).value = .ok () ∧
      (smartStart plainEnv (fun _ => .ok plainSettings) true (ascii "work") (ascii "\x7b\x7d")
        crashedWorld (granted.cons (granted 0))).value = .ok () ∧
      (start (ascii "work") crashedWorld granted).state.guard ≠ none ∧
      (smartStart plainEnv (fun _ => .ok plainSettings) true (ascii "work") (ascii "\x7b\x7d")
        crashedWorld (granted.cons (granted 0))).state.guard = none := by
  refine ⟨value_of_isOk ?_, value_of_isOk ?_, ?_, ?_⟩
  · decide +kernel
  · decide +kernel
  · decide +kernel
  · decide +kernel

end starts

section identity

/-- All calls are granted and no engine exits. The record that `Stop` removes leaves no engine of its tunnel and no
guard behind exactly when it is the record of that very name: the engine is stopped and the guard
lifted byte by byte, the record is removed under case folding. -/
theorem stop_identity_iff (env : Env) (w : World) (d : DesiredState) (hd : w.desired = some d)
    (hsame : ∀ process, w.smartProcess = some process → process.pid ∈ w.engines →
      process.tunnelName = d.tunnelName)
    (name : Str) (f : Feed Question Answer) (hf : ∀ k q, (f k q).fault = none)
    (halive : Still (givenBy f)) :
    ((stop env name w f).state.desired = none →
        (∀ process, (stop env name w f).state.smartProcess = some process →
          process.tunnelName = d.tunnelName → process.pid ∉ (stop env name w f).state.engines) ∧
        (stop env name w f).state.guard = none) ↔
      (MatchesDesired env w name →
        (∀ process, w.smartProcess = some process → process.pid ∈ w.engines →
          process.tunnelName = name) ∧
        (w.guard = none ∨ (smartStateForTunnel w name).isSome = true ∨ NamesDesired env w name)) := by
  have hgranted (q : Question) : Granted (givenBy f) q := by
    rintro _ ⟨k, rfl⟩
    exact hf k q
  obtain ⟨w₀, hmissed, u, removed, lifted, v, hend⟩ := (stop_spec env name).ending f
    (grants_givenBy f) (s := w)
  rw [hmissed.of_not (halive _)] at hend
  obtain rfl := hend.engine.of_not fun ⟨place, hexit⟩ => halive place hexit
  have hremoved : MatchesDesired env w name ↔ removed = true :=
    ⟨fun h => hend.removes h (hgranted _) (hgranted _), hend.of_removed⟩
  have hlifted : (smartStateForTunnel w name).isSome = true ∨ NamesDesired env w name ↔
      lifted = true := by
    refine ⟨fun h => hend.lifts (h.imp_right fun hn => ⟨hn, hgranted _⟩) (hgranted _), hend.of_lifted⟩
  -- an engine of another name is left alone, one of this name is stopped
  have hprocess (process : SmartProcess) (hsome : w.smartProcess = some process)
      (hne : process.tunnelName ≠ name) : w.without name = w := by
    rcases w.without_cases name with ⟨h, -⟩ | ⟨-, hw⟩
    · simp [smartStateForTunnel, hsome, hne] at h
    · exact hw
  rw [hend.state, hremoved]
  constructor
  · rintro h rfl
    obtain ⟨hengine, hguard⟩ := h rfl
    refine ⟨fun process hsome hpid => ?_, ?_⟩
    · by_contra hne
      have hw := hprocess process hsome hne
      refine hengine process ?_ (hsame process hsome hpid) ?_
      · rw [hw]
        exact hsome
      · rw [hw]
        exact hpid
    · cases lifted with
      | true => exact Or.inr (hlifted.mpr rfl)
      | false => exact Or.inl hguard
  · intro h hnone
    change (if removed then none else w.desired) = none at hnone
    have hremoved : removed = true := by
      cases removed with
      | true => rfl
      | false => exact absurd (hd.symm.trans hnone) (Option.some_ne_none d)
    obtain ⟨hengine, hguard⟩ := h hremoved
    refine ⟨fun process hsome _ hpid => ?_, ?_⟩
    · change (w.without name).smartProcess = some process at hsome
      change process.pid ∈ (w.without name).engines at hpid
      rcases w.without_cases name with ⟨-, hw⟩ | ⟨hother, hw⟩
      · rw [hw] at hsome
        cases hsome
      · rw [hw] at hsome hpid
        have hname := hengine process hsome hpid
        simp [smartStateForTunnel, hsome, hname] at hother
    · change (if lifted then none else w.guard) = none
      rcases hguard with hnone | hlift
      · rw [hnone, ite_self]
      · rw [hlifted.mp hlift, if_pos rfl]

theorem homeWorld_same (process : SmartProcess) (h : homeWorld.smartProcess = some process) :
    process.tunnelName = ascii "Home" := by
  cases h
  rfl

theorem stop_identity_home :
    (stop plainEnv (ascii "Home") homeWorld granted).state.desired = none ∧
      (stop plainEnv (ascii "Home") homeWorld granted).state.guard = none := by
  have hremoved : (stop plainEnv (ascii "Home") homeWorld granted).state.desired = none := by
    decide +kernel
  refine ⟨hremoved, ((stop_identity_iff plainEnv homeWorld _ rfl ?_ (ascii "Home") granted
    (fun _ _ => rfl) (answering_still _)).mpr (fun _ => ⟨?_, Or.inr (Or.inl ?_)⟩) hremoved).2⟩
  · exact fun process hsome _ => homeWorld_same process hsome
  · exact fun process hsome _ => homeWorld_same process hsome
  · decide +kernel

/-- Stopping "home" removes the record of "Home" but neither stops its engine nor lifts the
guard. -/
theorem stop_folded_keeps_engine :
    (stop plainEnv (ascii "home") homeWorld granted).state.desired = none ∧
      (stop plainEnv (ascii "home") homeWorld granted).state.engines = [0] ∧
      ((stop plainEnv (ascii "home") homeWorld granted).state.smartProcess.map
        SmartProcess.tunnelName) = some (ascii "Home") ∧
      (stop plainEnv (ascii "home") homeWorld granted).state.guard = some 7 := by
  refine ⟨?_, ?_, ?_, ?_⟩
  · decide +kernel
  · decide +kernel
  · decide +kernel
  · decide +kernel

end identity

end SmartAwg.Manager
