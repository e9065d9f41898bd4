import SmartAwg.ManagerNative

/-!
Starting the engine: what is checked before anything is touched, the switch from the predecessor,
and its restoration when the switch fails.
-/

namespace SmartAwg.Manager

open Go Smart Fallible

section engine

/-- `detachSmartProcessLocked`. -/
def detachSmartProcess (a : Attempt) : Op (Option SmartProcess) := do
  let w ← lock a .detach
  Prog.change fun w => { w with smartProcess := none }
  return w.smartProcess

/-- Kill and wait; a process that had ended before is no error. -/
def stopEngine (a : Attempt) (pid : Nat) : Op Unit := do
  let r ← os ⟨a, .kill pid⟩
  match r.fault with
  | none => return ()
  | some .processDone => return ()
  | some fault => Prog.fail (.os (.kill pid) fault)

def stopSmartProcessState (a : Attempt) : Option SmartProcess → Op Unit
  | none => return ()
  | some process => stopEngine a process.pid

def smartStopUnlocked (a : Attempt) : Op Unit := do
  let process ← detachSmartProcess a
  stopSmartProcessState a process

/-- All that is done before the switch: none of it touches a connection. -/
def prepareEngine (a : Attempt) (name : Str) : Op Unit := do
  let _ ← must ⟨a, .loadConfig name⟩
  let _ ← must ⟨a, .buildConfig name⟩
  let _ ← must ⟨a, .diagnosticListener⟩
  let _ ← must ⟨a, .diagnosticInbound⟩
  let _ ← must ⟨a, .smartPaths name⟩
  let _ ← must ⟨a, .writeConfig⟩
  let _ ← must ⟨a, .findEngine⟩
  let _ ← (must ⟨a, .checkEngine⟩).mapError (.wrap "routing config validation failed")
  return ()

def setGuard (a : Attempt) (luid : Nat) : Op Unit := do
  let _ ← must ⟨a, .setGuard luid⟩
  return ()

def clearGuard (a : Attempt) : Op Unit := do
  let _ ← must ⟨a, .clearGuard⟩
  return ()

/-- The guard with the interface of the engine let through. -/
def guardInterface (a : Attempt) : Op Unit := do
  let _ ← must ⟨a, .interfaceByName⟩
  let r ← must ⟨a, .luidFromIndex⟩
  setGuard a r.luid

/-- A step of the start after the process is there: its failure stops the process. -/
def orStop (a : Attempt) (pid : Nat) (m : Op Unit) : Op Unit := do
  match ← Prog.attempt m with
  | .ok () => return ()
  | .error e =>
    let _ ← Prog.attempt (stopEngine a pid)
    Prog.fail e

/-- The guard in the state that an engine with these settings wants. -/
def activateGuard (a : Attempt) (settings : RoutingSettings) : Op Unit :=
  if Protected settings then (guardInterface a).mapError (.wrap "activate protection")
  else clearGuard a

/-- What is done while the new process is already running. -/
def bringUp (env : Env) (a : Attempt) (pid : Nat) (name : Str) (settings : RoutingSettings)
    (persist : Bool) : Op Unit := do
  let _ ← (must ⟨a, .assignToJob pid⟩).mapError (.wrap "attach smart engine to lifecycle job")
  let _ ← (must ⟨a, .waitForInterface pid⟩).mapError (.wrap "start smart engine")
  activateGuard a settings
  if persist then
    (saveSmartDesired env a name settings).mapError (.wrap "persist smart recovery state")
  else return ()

/-- The part of `smartStartLocked` between the two assignments of `smartProcess`; each of its
errors is followed by the restoration of the predecessor. -/
def launchEngine (env : Env) (a : Attempt) (name : Str) (settings : RoutingSettings)
    (persist : Bool) : Op Nat := do
  let previous ← detachSmartProcess a
  (stopSmartProcessState a previous).mapError (.wrap "stop previous smart routing")
  let _ ← must ⟨a, .rotateLog⟩
  let _ ← must ⟨a, .openLog⟩
  let w ← Prog.read
  let _ ← (must ⟨a, .startProcess⟩).mapError (.wrap "start smart engine")
  let pid := w.spawned
  orStop a pid (bringUp env a pid name settings persist)
  return pid

end engine

section start

def tooManyPredecessors : ManagerErr :=
  .text "multiple native predecessors; stop extra profiles explicitly"

/-- The loop over the listed tunnels for the one that a start can return to. -/
def findPrior (a : Attempt) : Option Str → List (Str × TunnelState) → Op (Option Str)
  | prior, [] => return prior
  | prior, (name, st) :: rest => do
    let w ← lock a (.loop name)
    if (smartStateForTunnel w name).isNone ∧ st.inUse then
      if prior.isSome then Prog.fail tooManyPredecessors else findPrior a (some name) rest
    else findPrior a prior rest

/-- `priorNative` and `priorSmart`. -/
def findPriors (a : Attempt) : Op (Option Str × Option SmartProcess) := do
  let states ← nativeTunnelStates a .list
  let priorNative ← findPrior a none states
  let w ← lock a .prior
  return (priorNative, w.smartProcess)

/-- The provisional guard when the services could not be stopped: with a predecessor it goes back
to what the predecessor needs. -/
def releaseGuard (a : Attempt) (settings : RoutingSettings) (priorNative : Option Str)
    (priorSmart : Option SmartProcess) (e : ManagerErr) : Op Unit := do
  if Protected settings ∧ (priorNative.isSome ∨ priorSmart.isSome) then
    match ← Prog.attempt
        (if priorSmart.any fun process => Protected process.settings then guardInterface a
        else clearGuard a) with
    | .ok () => Prog.fail e
    | .error guardErr => Prog.fail (.join [e, guardErr])
  else Prog.fail e

/-- `restoreNative`; `restore` starts an engine again. It always returns an error. -/
def restoreNative (restore : SmartProcess → Op Unit) (priorNative : Option Str)
    (priorSmart : Option SmartProcess) (cause : ManagerErr) : Op Unit :=
  match priorNative, priorSmart with
  | none, none => Prog.fail cause
  | none, some process => do
    match ← Prog.attempt (restore process) with
    | .ok () => Prog.fail cause
    | .error e => Prog.fail (.join [cause, .wrap "restore smart predecessor" e])
  | some name, _ => do
    let guardErr ← Prog.attempt (clearGuard .predecessor)
    let cause := match guardErr with
      | .ok () => cause
      | .error e => .join [cause, e]
    match ← Prog.attempt (startNativeUnlocked .predecessor name) with
    | .ok () => Prog.fail (.wrap "native AWG was restored" cause)
    | .error e => Prog.fail (.join [cause, .wrap "restore native AWG" e])

/-- The provisional guard of a start that asks for protection. -/
def raiseGuard (a : Attempt) (settings : RoutingSettings) : Op Unit :=
  if Protected settings then (setGuard a 0).mapError (.wrap "enable protection") else return ()

/-- The branch of `smartStartLocked` for settings that need the engine. -/
def startSmart (env : Env) (restore : SmartProcess → Op Unit) (a : Attempt) (name : Str)
    (settings : RoutingSettings) (smart : usesNativeTunnel settings = false) (persist : Bool) :
    Op Unit := do
  prepareEngine a name
  let prior ← findPriors a
  raiseGuard a settings
  match ← Prog.attempt (stopAllNativeTunnels a) with
  | .error e => releaseGuard a settings prior.1 prior.2 e
  | .ok () =>
    match ← Prog.attempt (launchEngine env a name settings persist) with
    | .error cause => restoreNative restore prior.1 prior.2 cause
    | .ok pid => Prog.change fun w => { w with smartProcess := some ⟨name, settings, pid, smart⟩ }

/-- The branch of `smartStartLocked` for settings that a native tunnel serves. -/
def startNative (restore : SmartProcess → Op Unit) (a : Attempt) (name : Str) (persist : Bool) :
    Op Unit := do
  let w ← lock a .prior
  (smartStopUnlocked a).mapError (.wrap "stop smart routing before native tunnel")
  match ← Prog.attempt (startNativeUnlocked a name) with
  | .error e =>
    match w.smartProcess with
    | none => Prog.fail e
    | some previous =>
      match ← Prog.attempt (restore previous) with
      | .ok () => Prog.fail e
      | .error e' => Prog.fail (.join [e, e'])
  | .ok () =>
    clearGuard a
    if persist then
      match ← Prog.attempt (clearSmartDesired a) with
      | .ok () => return ()
      | .error e =>
        let _ ← Prog.attempt (stopNativeTunnel a name)
        Prog.fail (.wrap "clear smart recovery state" e)
    else return ()

/-- The body of `smartStartLocked`, with its call of itself as an argument. -/
def startWith (env : Env) (restore : SmartProcess → Op Unit) (a : Attempt) (name : Str)
    (settings : RoutingSettings) (persist : Bool) : Op Unit := do
  let _ ← must ⟨a, .preflight⟩
  if h : usesNativeTunnel settings = false then startSmart env restore a name settings h persist
  else startNative restore a name persist

/-- A predecessor is started when no engine is recorded, and then there is nothing to restore. -/
def restoreSmart (env : Env) (process : SmartProcess) : Op Unit :=
  startWith env (fun _ => return ()) .predecessor process.tunnelName process.settings false

def smartStartLocked (env : Env) (a : Attempt) (name : Str) (settings : RoutingSettings)
    (persist : Bool) : Op Unit := startWith env (restoreSmart env) a name settings persist

end start

section engineSpecs
variable {G : Question → Answer → Prop} {w : World} (env : Env) (a : Attempt)

theorem stopEngine_spec (pid : Nat) :
    wp G (stopEngine a pid) (fun r w' => w' = { w with engines := w.engines.filter (· ≠ pid) } ∧
      ∀ e, r = .error e → ¬Granted G ⟨a, .kill pid⟩) w := by
  refine (os_spec _).bind ?_ fun e w' h => by simp at h
  rintro r w' ⟨_, hr, hG, rfl⟩
  cases hr
  split
  · exact wp_pure _ ⟨rfl, fun e he => by cases he⟩
  · exact wp_pure _ ⟨rfl, fun e he => by cases he⟩
  · rename_i fault hnotdone hfault
    refine wp_fail _ ⟨rfl, fun e _ hgranted => ?_⟩
    rw [hgranted r hG] at hfault
    cases hfault

/-- The engine that is taken out, unless it is missed before. -/
theorem detachSmartProcess_spec :
    wp G (detachSmartProcess a) (fun r w' => ∃ w₀, Missed (Exits G .detach) w w₀ ∧
      r = .ok w₀.smartProcess ∧ w' = { w₀ with smartProcess := none }) w :=
  wp_lock_bind a .detach fun w₀ hmissed => wp.change_bind (wp_pure _ ⟨w₀, hmissed, rfl, rfl⟩)

/-- The recorded engine is one whose process may not be killed. -/
def KillRefused (G : Question → Answer → Prop) (a : Attempt) (process : Option SmartProcess) :
    Prop := ∃ p, process = some p ∧ ¬Granted G ⟨a, .kill p.pid⟩

theorem stopSmartProcessState_spec (process : Option SmartProcess) :
    wp G (stopSmartProcessState a process) (fun r w' =>
      w' = { w with engines := leftOver process w.engines } ∧
        ∀ e, r = .error e → KillRefused G a process) w := by
  cases process with
  | none => exact wp_pure _ ⟨rfl, fun e he => by cases he⟩
  | some p =>
    refine (stopEngine_spec a p.pid).mono ?_
    rintro r w' ⟨hw, hrefused⟩
    exact ⟨hw, fun e he => ⟨p, rfl, hrefused e he⟩⟩

/-- Nothing is refused for an engine that is missed. -/
theorem KillRefused.of_missed {exit : Prop} {w₀ : World} (h : KillRefused G a w₀.smartProcess)
    (hmissed : Missed exit w w₀) : KillRefused G a w.smartProcess := by
  obtain ⟨p, hp, hg⟩ := h
  rw [hmissed.of_some hp] at hp
  exact ⟨p, hp, hg⟩

theorem smartStopUnlocked_spec :
    wp G (smartStopUnlocked a) (fun r w' => w' = w.detached ∧
      ∀ e, r = .error e → KillRefused G a w.smartProcess) w := by
  refine (detachSmartProcess_spec a).bind ?_ fun e w' h => by simp at h
  rintro process w' ⟨w₀, hmissed, hprocess, rfl⟩
  obtain rfl := Except.ok.inj hprocess
  rw [← hmissed.detached]
  refine (stopSmartProcessState_spec a _).mono ?_
  rintro r w' ⟨hw, hrefused⟩
  exact ⟨hw, fun e he => (hrefused e he).of_missed a hmissed⟩

theorem orStop_spec (pid : Nat) (m : Op Unit) {T : Except ManagerErr Unit → World → Prop}
    (h : wp G m T w) :
    wp G (orStop a pid m) (fun r w' => (r = .ok () ∧ T (.ok ()) w') ∨ ∃ e w₁, r = .error e ∧
      T (.error e) w₁ ∧ w' = { w₁ with engines := w₁.engines.filter (· ≠ pid) }) w := by
  refine h.attempt_bind ?_
  rintro (e | ⟨⟩) w₁ hT
  · refine (stopEngine_spec a pid).attempt_bind ?_
    rintro r w' ⟨rfl, -⟩
    exact wp_fail _ (Or.inr ⟨e, w₁, rfl, hT, rfl⟩)
  · exact wp_pure _ (Or.inl ⟨rfl, hT⟩)

theorem prepareEngine_spec (name : Str) :
    wp G (prepareEngine a name) (fun r w' => w' = w ∧ ∀ e, r = .error e → Refused G a) w := by
  have hstop : ∀ (st : Step) (e : ManagerErr), ¬Granted G ⟨a, st⟩ →
      w = w ∧ ∀ e', (.error e : Except ManagerErr Unit) = .error e' → Refused G a :=
    fun st _ hg => ⟨rfl, fun _ _ => ⟨st, hg⟩⟩
  refine wp_quiet_bind (fun _ => rfl) (fun _ _ _ => ?_) (hstop _)
  refine wp_quiet_bind (fun _ => rfl) (fun _ _ _ => ?_) (hstop _)
  refine wp_quiet_bind (fun _ => rfl) (fun _ _ _ => ?_) (hstop _)
  refine wp_quiet_bind (fun _ => rfl) (fun _ _ _ => ?_) (hstop _)
  refine wp_quiet_bind (fun _ => rfl) (fun _ _ _ => ?_) (hstop _)
  refine wp_quiet_bind (fun _ => rfl) (fun _ _ _ => ?_) (hstop _)
  refine wp_quiet_bind (fun _ => rfl) (fun _ _ _ => ?_) (hstop _)
  refine (wp_quiet_mapError _ (fun _ => rfl)).bind ?_ ?_
  · rintro r w' ⟨rfl, -⟩
    exact wp_pure _ ⟨rfl, fun e he => by cases he⟩
  · rintro e w' ⟨rfl, he⟩
    exact hstop _ e (he e rfl)

theorem setGuard_spec (luid : Nat) :
    wp G (setGuard a luid) (fun r w' => (r = .ok () ∧ w' = { w with guard := some luid }) ∨
      ∃ e, r = .error e ∧ w' = w ∧ LateRefused G a) w := by
  refine wp_must_bind (fun r hG hf => ?_) fun r e hG hf => ?_
  · refine wp_pure _ (Or.inl ⟨rfl, ?_⟩)
    simp only [effect, hf, if_true]
  · refine Or.inr ⟨e, rfl, ?_, _, rfl, fun hgranted => hf (hgranted r hG)⟩
    simp only [effect, hf, if_false]

theorem clearGuard_spec :
    wp G (clearGuard a) (fun r w' => (r = .ok () ∧ w' = { w with guard := none }) ∨
      ∃ e, r = .error e ∧ w' = w ∧ ¬Granted G ⟨a, .clearGuard⟩) w := by
  refine wp_must_bind (fun r hG hf => ?_) fun r e hG hf => ?_
  · refine wp_pure _ (Or.inl ⟨rfl, ?_⟩)
    simp only [effect, hf, if_true]
  · refine Or.inr ⟨e, rfl, ?_, fun hgranted => hf (hgranted r hG)⟩
    simp only [effect, hf, if_false]

theorem guardInterface_spec :
    wp G (guardInterface a) (fun r w' => (∃ luid, r = .ok () ∧ w' = { w with guard := some luid }) ∨
      ∃ e, r = .error e ∧ w' = w ∧ LateRefused G a) w := by
  refine wp_quiet_bind (fun _ => rfl) (fun _ _ _ => ?_) fun e hg => Or.inr ⟨e, rfl, rfl, _, rfl, hg⟩
  refine wp_quiet_bind (fun _ => rfl) (fun r _ _ => ?_) fun e hg => Or.inr ⟨e, rfl, rfl, _, rfl, hg⟩
  refine (setGuard_spec a r.luid).mono ?_
  rintro r' w' (⟨hr, hw⟩ | herr)
  · exact Or.inl ⟨_, hr, hw⟩
  · exact Or.inr herr

theorem saveSmartDesired_spec (name : Str) (s : RoutingSettings) :
    wp G (saveSmartDesired env a name s) (fun r w' =>
      (∃ d, r = .ok () ∧ normalizeSmartDesired env ⟨name, s⟩ = .ok d ∧
        w' = { w with desired := some d }) ∨ ∃ e, r = .error e ∧ w' = w ∧
          (LateRefused G a ∨ ∀ d, normalizeSmartDesired env ⟨name, s⟩ ≠ .ok d)) w := by
  unfold saveSmartDesired
  cases hd : normalizeSmartDesired env ⟨name, s⟩ with
  | error e => exact wp_fail _ (Or.inr ⟨e, rfl, rfl, Or.inr fun d h => by cases h⟩)
  | ok d =>
    refine wp_must_bind (fun r hG hf => ?_) fun r e hG hf => ?_
    · refine wp_pure _ (Or.inl ⟨d, rfl, rfl, ?_⟩)
      simp only [effect, hf, if_true]
    · refine Or.inr ⟨e, rfl, ?_, Or.inl ⟨_, rfl, fun hgranted => hf (hgranted r hG)⟩⟩
      simp only [effect, hf, if_false]

/-- The guard that an engine with these settings runs under. -/
def GuardFor (s : RoutingSettings) (g : Option Nat) : Prop :=
  (Protected s → g ≠ none) ∧ (¬Protected s → g = none)

/-- How the launch of an engine ends. A failed one leaves no new process behind, and it may have
brought the guard into the state the engine wanted. -/
inductive LaunchEnd (G : Question → Answer → Prop) (env : Env) (a : Attempt) (name : Str)
    (s : RoutingSettings) (persist : Bool) (w : World) : Except ManagerErr Nat → World → Prop
  | failed (e : ManagerErr) (engines : List Nat) (spawned : Nat) (guard : Option Nat)
    (old : ∀ pid ∈ engines, pid ∈ w.detached.engines) (hguard : guard = w.guard ∨ GuardFor s guard)
    (why : LateRefused G a ∨ KillRefused G a w.smartProcess ∨
      persist = true ∧ ∀ d, normalizeSmartDesired env ⟨name, s⟩ ≠ .ok d) :
    LaunchEnd G env a name s persist w (.error e)
      { w.detached with engines := engines, spawned := spawned, guard := guard }
  | launched (guard : Option Nat) (desired : Option DesiredState) (hguard : GuardFor s guard)
    (kept : persist = false → desired = w.desired)
    (saved : persist = true → ∃ d, desired = some d ∧ normalizeSmartDesired env ⟨name, s⟩ = .ok d) :
    LaunchEnd G env a name s persist w (.ok w.spawned)
      { w.detached with
        engines := w.spawned :: w.detached.engines
        spawned := w.spawned + 1
        guard := guard
        desired := desired }

theorem activateGuard_spec (s : RoutingSettings) :
    wp G (activateGuard a s) (fun r w' =>
      (r = .ok () ∧ ∃ g, GuardFor s g ∧ w' = { w with guard := g }) ∨
        ∃ e, r = .error e ∧ w' = w ∧ LateRefused G a) w := by
  refine wp_ite _ (fun hs => ?_) fun hs => ?_
  · refine wp.mapError _ (guardInterface_spec a) ?_ ?_
    · rintro ⟨⟩ w' (⟨luid, -, rfl⟩ | ⟨e, he, -⟩)
      · exact Or.inl ⟨rfl, some luid, ⟨fun _ => by simp, fun h => absurd hs h⟩, rfl⟩
      · cases he
    · rintro e w' (⟨luid, he, -⟩ | ⟨e', -, hw, hrefused⟩)
      · cases he
      · exact Or.inr ⟨_, rfl, hw, hrefused⟩
  · refine (clearGuard_spec a).mono ?_
    rintro r w' (⟨hr, rfl⟩ | ⟨e, hr, hw, hg⟩)
    · exact Or.inl ⟨hr, none, ⟨fun h => absurd h hs, fun _ => rfl⟩, rfl⟩
    · exact Or.inr ⟨e, hr, hw, _, rfl, hg⟩

theorem bringUp_spec (pid : Nat) (name : Str) (s : RoutingSettings) (persist : Bool) :
    wp G (bringUp env a pid name s persist) (fun r w' =>
      ∃ g d, w' = { w with guard := g, desired := d } ∧
        (r = .ok () → GuardFor s g ∧ (persist = false → d = w.desired) ∧
          (persist = true → ∃ d', d = some d' ∧ normalizeSmartDesired env ⟨name, s⟩ = .ok d')) ∧
        ∀ e, r = .error e → d = w.desired ∧ (g = w.guard ∨ GuardFor s g) ∧
          (LateRefused G a ∨ persist = true ∧ ∀ d, normalizeSmartDesired env ⟨name, s⟩ ≠ .ok d)) w := by
  have hquiet : ∀ (e : ManagerErr), LateRefused G a →
      ∃ g d, w = { w with guard := g, desired := d } ∧
        ((.error e : Except ManagerErr Unit) = .ok () → GuardFor s g ∧
          (persist = false → d = w.desired) ∧
          (persist = true → ∃ d', d = some d' ∧ normalizeSmartDesired env ⟨name, s⟩ = .ok d')) ∧
        ∀ e', (.error e : Except ManagerErr Unit) = .error e' → d = w.desired ∧
          (g = w.guard ∨ GuardFor s g) ∧
          (LateRefused G a ∨ persist = true ∧ ∀ d, normalizeSmartDesired env ⟨name, s⟩ ≠ .ok d) :=
    fun e hlate => ⟨w.guard, w.desired, rfl, fun h => (by cases h),
      fun _ _ => ⟨rfl, Or.inl rfl, Or.inl hlate⟩⟩
  refine (wp_quiet_mapError _ fun _ => rfl).bind ?_
    fun e w' h => h.1 ▸ hquiet e ⟨_, rfl, h.2 e rfl⟩
  rintro _ w ⟨rfl, -⟩
  refine (wp_quiet_mapError _ fun _ => rfl).bind ?_
    fun e w' h => h.1 ▸ hquiet e ⟨_, rfl, h.2 e rfl⟩
  rintro _ w ⟨rfl, -⟩
  refine (activateGuard_spec a s).bind ?_ ?_
  · rintro ⟨⟩ w' (⟨-, g, hg, rfl⟩ | ⟨e, he, -⟩)
    · refine wp_ite _ (fun hp => ?_) fun hp => ?_
      · refine wp.mapError _ (saveSmartDesired_spec env a name s) ?_ ?_
        · rintro ⟨⟩ w' (⟨d, -, hd, rfl⟩ | ⟨e, he, -⟩)
          · exact ⟨g, some d, rfl, fun _ => ⟨hg, fun h => (by simp [hp] at h),
              fun _ => ⟨d, rfl, hd⟩⟩, fun e he => by cases he⟩
          · cases he
        · rintro e w' (⟨d, he, -⟩ | ⟨e', -, rfl, hwhy⟩)
          · cases he
          · exact ⟨g, w.desired, rfl, fun h => (by cases h),
              fun _ _ => ⟨rfl, Or.inr hg, hwhy.imp_right fun hd => ⟨hp, hd⟩⟩⟩
      · exact wp_pure _ ⟨g, w.desired, rfl, fun _ => ⟨hg, fun _ => rfl, fun h => absurd h hp⟩,
          fun e he => by cases he⟩
    · cases he
  · rintro e w' (⟨he, -⟩ | ⟨e', -, rfl, hlate⟩)
    · cases he
    · exact hquiet e hlate

theorem launchEngine_spec (name : Str) (s : RoutingSettings) (persist : Bool) :
    wp G (launchEngine env a name s persist) (LaunchEnd G env a name s persist w) w := by
  have hstop : ∀ (q : Step) (e : ManagerErr), q.prepares = false → ¬Granted G ⟨a, q⟩ →
      LaunchEnd G env a name s persist w (.error e) w.detached :=
    fun q e hq hg => .failed e w.detached.engines w.spawned w.guard (fun _ h => h) (Or.inl rfl)
      (Or.inl ⟨q, hq, hg⟩)
  refine (detachSmartProcess_spec a).bind ?_ fun e w' h => by simp at h
  rintro process w' ⟨w₀, hmissed, hprocess, rfl⟩
  obtain rfl := Except.ok.inj hprocess
  refine (wp.mapError (R := fun r w' => w' = w.detached ∧
    ∀ e, r = .error e → KillRefused G a w.smartProcess) _ (stopSmartProcessState_spec a _)
    (fun _ _ h => ⟨h.1.trans hmissed.detached, fun e he => by cases he⟩)
    fun e _ h => ⟨h.1.trans hmissed.detached, fun _ _ => (h.2 e rfl).of_missed a hmissed⟩).bind ?_ ?_
  swap
  · rintro e w' ⟨rfl, hrefused⟩
    exact .failed e w.detached.engines w.spawned w.guard (fun _ h => h) (Or.inl rfl)
      (Or.inr (Or.inl (hrefused e rfl)))
  rintro ⟨⟩ w' ⟨rfl, -⟩
  refine wp_quiet_bind (fun _ => rfl) (fun _ _ _ => ?_) fun e => hstop _ e rfl
  refine wp_quiet_bind (fun _ => rfl) (fun _ _ _ => ?_) fun e => hstop _ e rfl
  refine wp.read_bind ?_
  refine wp.bind (T := fun r w' => (∃ x, r = .ok x ∧ w' = { w.detached with
      engines := w.spawned :: w.detached.engines, spawned := w.spawned + 1 }) ∨
    ∃ e, r = .error e ∧ w' = w.detached ∧ ¬Granted G ⟨a, .startProcess⟩) ?_ ?_ ?_
  · refine wp.mapError (T := fun r w' => (∃ x, r = .ok x ∧ w' = { w.detached with
        engines := w.spawned :: w.detached.engines, spawned := w.spawned + 1 }) ∨
      ∃ e, r = .error e ∧ w' = w.detached ∧ ¬Granted G ⟨a, .startProcess⟩) _
      (wp_must _ (fun x hG hf => ?_) fun x e hG hf => ?_) (fun _ _ h => h) ?_
    · refine Or.inl ⟨x, rfl, ?_⟩
      simp only [effect, hf, if_true]
      rfl
    · refine Or.inr ⟨e, rfl, ?_, fun hgranted => hf (hgranted x hG)⟩
      simp only [effect, hf, if_false]
    · rintro e w' (⟨x, hx, -⟩ | ⟨e', -, hw, hg⟩)
      · cases hx
      · exact Or.inr ⟨_, rfl, hw, hg⟩
  · rintro x w' (⟨_, -, rfl⟩ | ⟨e, he, -⟩)
    · refine (orStop_spec a w.spawned _ (bringUp_spec env a w.spawned name s persist)).bind ?_ ?_
      · rintro ⟨⟩ w' (⟨-, g, d, rfl, hok, -⟩ | ⟨e, w₁, he, -⟩)
        · obtain ⟨hguard, hkept, hsaved⟩ := hok rfl
          exact wp_pure _ (.launched g d hguard hkept hsaved)
        · cases he
      · rintro e w' (⟨he, -⟩ | ⟨e', w₁, he, ⟨g, d, rfl, -, herr⟩, rfl⟩)
        · cases he
        · obtain ⟨rfl, hguard, hwhy⟩ := herr e' rfl
          refine .failed e _ (w.spawned + 1) g ?_ hguard (hwhy.imp_right Or.inr)
          intro pid hpid
          obtain ⟨hmem, hne⟩ := List.mem_filter.mp hpid
          rcases List.mem_cons.mp hmem with rfl | hmem
          · simp at hne
          · exact hmem
    · cases he
  · rintro e w' (⟨_, he, -⟩ | ⟨e', -, rfl, hg⟩)
    · cases he
    · exact hstop _ e rfl hg

end engineSpecs

section priors
variable {G : Question → Answer → Prop} {w : World} (a : Attempt)

/-- The native tunnels a start can return to. -/
def predecessors (w : World) (states : List (Str × TunnelState)) : List Str :=
  (states.filter fun (name, st) => (smartStateForTunnel w name).isNone ∧ st.inUse).map Prod.fst

def onlyOne : List Str → Except ManagerErr (Option Str)
  | [] => .ok none
  | [name] => .ok (some name)
  | _ => .error tooManyPredecessors

/-- What the loop finds when nothing is missed meanwhile. -/
def findPredecessor (w : World) (states : List (Str × TunnelState)) :
    Except ManagerErr (Option Str) := onlyOne (predecessors w states)

/-- No exit is noticed while the tunnels are listed and the list is gone through, or there is no
engine that could exit. -/
def ListHolds (G : Question → Answer → Prop) (w : World) : Prop :=
  (∀ n, ¬Exits G (.list n) ∧ ¬Exits G (.loop n)) ∨ w.smartProcess = none

theorem ListHolds.list (h : ListHolds G w) {w' : World}
    (hmissed : Missed (∃ n, Exits G (.list n)) w w') : w' = w := by
  rcases h with h | hnone
  · exact hmissed.of_not fun ⟨n, hn⟩ => (h n).1 hn
  · exact hmissed.of_none hnone

theorem ListHolds.loop (h : ListHolds G w) {w' : World}
    (hmissed : Missed (∃ n, Exits G (.loop n)) w w') : w' = w := by
  rcases h with h | hnone
  · exact hmissed.of_not fun ⟨n, hn⟩ => (h n).2 hn
  · exact hmissed.of_none hnone

theorem findPrior_spec (prior : Option Str) (states : List (Str × TunnelState)) :
    wp G (findPrior a prior states) (fun r w' => Missed (∃ n, Exits G (.loop n)) w w' ∧
      (ListHolds G w → r = onlyOne (prior.toList ++ predecessors w states))) w := by
  induction states generalizing prior w with
  | nil =>
    refine wp_pure _ ⟨Missed.refl _ w, fun _ => ?_⟩
    cases prior <;> rfl
  | cons p rest ih =>
    obtain ⟨name, st⟩ := p
    refine wp_lock_bind a (.loop name) fun w₀ hmissed => ?_
    replace hmissed : Missed (∃ n, Exits G (.loop n)) w w₀ := hmissed.mono fun h => ⟨name, h⟩
    have hpred : ListHolds G w → predecessors w ((name, st) :: rest) =
        if (smartStateForTunnel w₀ name).isNone ∧ st.inUse then name :: predecessors w rest
        else predecessors w rest := by
      intro h
      rw [h.loop hmissed]
      by_cases hc : (smartStateForTunnel w name).isNone ∧ st.inUse
      · simp only [predecessors, List.filter_cons, hc, and_self, decide_true, if_true, List.map_cons]
      · simp only [predecessors, List.filter_cons, hc, decide_false, Bool.false_eq_true, if_false]
    have hrest (prior' : Option Str) (heq : ListHolds G w →
        prior'.toList ++ predecessors w rest = prior.toList ++ predecessors w ((name, st) :: rest)) :
        wp G (findPrior a prior' rest) (fun r w' => Missed (∃ n, Exits G (.loop n)) w w' ∧
          (ListHolds G w → r = onlyOne (prior.toList ++ predecessors w ((name, st) :: rest)))) w₀ := by
      refine (ih prior').mono ?_
      rintro r w' ⟨hmissed', hr⟩
      refine ⟨hmissed.trans hmissed', fun h => ?_⟩
      obtain rfl := h.loop hmissed
      rw [hr h, heq h]
    refine wp_ite _ (fun hc => wp_ite _ (fun hsome => wp_fail _ ⟨hmissed, fun h => ?_⟩) fun hnone => ?_)
      fun hc => ?_
    · obtain ⟨p, rfl⟩ := Option.isSome_iff_exists.mp hsome
      rw [hpred h, if_pos hc]
      rfl
    · refine hrest (some name) fun h => ?_
      rw [hpred h, if_pos hc, Option.not_isSome_iff_eq_none.mp hnone]
      rfl
    · refine hrest prior fun h => ?_
      rw [hpred h, if_neg hc]

theorem findPriors_spec :
    wp G (findPriors a) (fun r w' => Missed (∃ place, Exits G place) w w' ∧
      (∀ prior, r = .ok prior → prior.2 = w'.smartProcess ∧
        (ListHolds G w → findPredecessor w (listing w) = .ok prior.1)) ∧
      ∀ e, r = .error e → Refused G a ∨
        (ListHolds G w → ∃ e', findPredecessor w (listing w) = .error e')) w := by
  refine (nativeTunnelStates_spec a .list).bind ?_ ?_
  · rintro states w₁ ⟨hlist, hstates, -⟩
    have hany : Missed (∃ place, Exits G place) w w₁ := hlist.mono fun ⟨n, hn⟩ => ⟨_, hn⟩
    have hlisted : ListHolds G w → states = listing w :=
      fun h => (hstates states rfl).same (h.list hlist)
    refine (findPrior_spec a none states).bind ?_ ?_
    · rintro prior w₂ ⟨hloop, hprior⟩
      refine wp_lock_bind a .prior fun w₃ hlast => wp_pure _ ⟨?_, fun p hp => ?_, fun e he => by cases he⟩
      · refine (hany.trans ?_).trans (hlast.mono fun h => ⟨_, h⟩)
        exact hloop.mono fun ⟨n, hn⟩ => ⟨_, hn⟩
      · cases hp
        refine ⟨rfl, fun h => ?_⟩
        obtain rfl := h.list hlist
        rw [← hlisted h]
        exact (hprior h).symm
    · rintro e w₂ ⟨hloop, hprior⟩
      refine ⟨hany.trans (hloop.mono fun ⟨n, hn⟩ => ⟨_, hn⟩), fun _ hp => (by cases hp),
        fun _ _ => Or.inr fun h => ⟨e, ?_⟩⟩
      obtain rfl := h.list hlist
      rw [← hlisted h]
      exact (hprior h).symm
  · rintro e w₁ ⟨hlist, -, he⟩
    exact ⟨hlist.mono fun ⟨n, hn⟩ => ⟨_, hn⟩, fun _ hp => (by cases hp),
      fun _ _ => Or.inl (he e rfl).late.refused⟩

end priors

end SmartAwg.Manager
