import SmartAwg.ManagerStart

/-!
The operations of the manager service, which a lock puts one after the other, and what can happen
between them.
-/

namespace SmartAwg.Manager

open Go Smart Fallible

section operations
variable (env : Env) (decode : Str → Except SmartErr RoutingSettings)

/-- The errors among results that are joined at the end. -/
def errorsOf (rs : List (Except ManagerErr Unit)) : List ManagerErr :=
  rs.filterMap fun
    | .ok () => none
    | .error e => some e

def start (name : Str) : Op Unit := startNativeUnlocked .target name

/-- `smartStopTunnel`: the engine of one tunnel is stopped, if it runs. -/
def stopIfSmart (name : Str) : Op Unit := do
  let w ← lock .target .matchesStop
  if (smartStateForTunnel w name).isSome then smartStopUnlocked .target else return ()

/-- `exists && before.TunnelName == tunnelName`, with no record when it could not be read. -/
def namedBefore (name : Str) : Except ManagerErr (Option DesiredState) → Bool
  | .ok (some d) => d.tunnelName = name
  | _ => false

def stop (name : Str) : Op Unit := do
  let before ← Prog.attempt (loadSmartDesired env .target)
  let w ← lock .target .beforeStop
  let clearProtection := (smartStateForTunnel w name).isSome || namedBefore name before
  let desiredErr ← Prog.attempt (clearSmartDesiredForTunnel env .target name)
  let smartErr ← Prog.attempt (stopIfSmart name)
  let nativeErr ← Prog.attempt (stopNativeTunnel .target name)
  let guardErr ← Prog.attempt (if clearProtection then clearGuard .target else return ())
  finish (errorsOf [desiredErr, smartErr, nativeErr, guardErr])

def accessDenied : ManagerErr := .text "Access is denied."

def delete (elevated : Bool) (name : Str) : Op Unit := do
  if elevated then
    stop env name
    let _ ← must ⟨.target, .deleteConfig name⟩
    return ()
  else Prog.fail accessDenied

def smartStart (elevated : Bool) (name raw : Str) : Op Unit :=
  if elevated then
    match parseSettingsPayload env decode raw with
    | .error e => Prog.fail (.settings e)
    | .ok settings => smartStartLocked env .target name settings true
  else Prog.fail accessDenied

def smartStop (elevated : Bool) : Op Unit := do
  if elevated then
    let desiredErr ← Prog.attempt (clearSmartDesired .target)
    let stopErr ← Prog.attempt (smartStopUnlocked .target)
    let guardErr ← Prog.attempt (clearGuard .target)
    finish (errorsOf [desiredErr, stopErr, guardErr])
  else Prog.fail accessDenied

/-- `smartProcessHealthyFor`: here names are compared under case folding. -/
def smartProcessHealthyFor (name : Str) : Op Bool := do
  let w ← lock .target .healthy
  if w.smartProcess.any fun process => equalFold process.tunnelName name then
    let r ← os ⟨.target, .interfaceByName⟩
    return decide (r.fault = none) && r.up
  else return false

/-- The loop of `recoverWithFallbacks`: the names tried so far, in lower case, and their errors. -/
def recoverWithFallbacks (start : Str → Op Unit) :
    List Str → List ManagerErr → List Str → Op Unit
  | _, errs, [] => finish errs
  | seen, errs, name :: rest => do
    if seen.elem (toLower name) then recoverWithFallbacks start seen errs rest
    else
      match ← Prog.attempt (start name) with
      | .ok () => return ()
      | .error e =>
        recoverWithFallbacks start (toLower name :: seen) (errs ++ [.named "" name e]) rest

/-- One attempt of the recovery; a fallback that runs becomes the desired tunnel. -/
def recoverAs (d : DesiredState) (name : Str) : Op Unit := do
  smartStartLocked env .target name d.settings false
  if name ≠ d.tunnelName then saveSmartDesired env .target name d.settings else return ()

/-- A recovery that is not forced leaves a healthy engine alone. -/
def recoveryNeeded (force : Bool) (name : Str) : Op Bool :=
  if force then return true
  else do
    let healthy ← smartProcessHealthyFor name
    return !healthy

def recoverSmartDesired (force : Bool) : Op Unit := do
  let w ← Prog.read
  if w.suspended then Prog.fail (.text "system is suspended")
  else
    match ← loadSmartDesired env .target with
    | none => return ()
    | some d =>
      let network ← must ⟨.target, .physicalNetwork⟩
      if network.up then
        let needed ← recoveryNeeded force d.tunnelName
        if needed then
          recoverWithFallbacks (recoverAs env d) [] []
            (d.tunnelName :: d.settings.fallbackProfiles)
        else return ()
      else Prog.fail (.text "no usable physical network is available")

def pauseSmartForSuspend : Op Unit := do
  Prog.change fun w => { w with suspended := true }
  match ← loadSmartDesired env .target with
  | none => return ()
  | some _ => smartStopUnlocked .target

end operations

section runs

/-- An operation, or something that happens between two of them: a process exits and is missed some
time later, a service changes by itself, the service manager stops or starts the manager. An exit that
is noticed during an operation is part of the answers given to it. -/
inductive Event where
  | start (name : Str)
  | stop (name : Str)
  | delete (elevated : Bool) (name : Str)
  | smartStart (elevated : Bool) (name raw : Str)
  | smartStop (elevated : Bool)
  | recover (force : Bool)
  | suspend
  | resume
  | managerStop
  | managerStart
  | engineExit (pid : Nat)
  | exitNoticed (pid : Nat)
  | serviceChange (name : Str) (left : TunnelState)

/-- The end of the manager takes its engines with it, and a new manager knows of none. -/
def World.restarted (w : World) : World :=
  { w with engines := [], smartProcess := none, suspended := false }

def Event.program (env : Env) (decode : Str → Except SmartErr RoutingSettings) : Event → Op Unit
  | .start name => Manager.start name
  | .stop name => Manager.stop env name
  | .delete elevated name => Manager.delete env elevated name
  | .smartStart elevated name raw => Manager.smartStart env decode elevated name raw
  | .smartStop elevated => Manager.smartStop elevated
  | .recover force => recoverSmartDesired env force
  | .suspend => pauseSmartForSuspend env
  | .resume => Prog.change fun w => { w with suspended := false }
  | .managerStop => smartStopUnlocked .target
  | .managerStart => Prog.change World.restarted
  | .engineExit pid => Prog.change fun w => { w with engines := w.engines.filter (· ≠ pid) }
  | .exitNoticed pid => Prog.change fun w =>
    if pid ∉ w.engines ∧ w.smartProcess.any fun process => process.pid = pid then
      { w with smartProcess := none }
    else w
  | .serviceChange name left => Prog.change fun w =>
    { w with services := w.services.settle name left }

/-- An event with the answers the system gives to it; the clock and the catalog may have changed
since the last one. -/
structure Happening where
  event : Event
  env : Env
  feed : Feed Question Answer

def happen (decode : Str → Except SmartErr RoutingSettings) (w : World) (h : Happening) : World :=
  (h.event.program h.env decode w h.feed).state

def run (decode : Str → Except SmartErr RoutingSettings) (w : World) (hs : List Happening) :
    World := hs.foldl (happen decode) w

/-- What every event of the run keeps holds after it. -/
theorem run_invariant (decode : Str → Except SmartErr RoutingSettings) (P : World → Prop)
    (allowed : World → Happening → Prop)
    (hstep : ∀ w h, P w → allowed w h → P (happen decode w h)) (hs : List Happening) (w : World)
    (hw : P w) (hall : ∀ pre h post, hs = pre ++ h :: post → allowed (run decode w pre) h) :
    P (run decode w hs) := by
  induction hs generalizing w with
  | nil => exact hw
  | cons h rest ih =>
    refine ih (happen decode w h) (hstep w h hw (hall [] h rest rfl)) fun pre h' post heq => ?_
    exact hall (h :: pre) h' post (by rw [heq, List.cons_append])

end runs

section specs
variable {G : Question → Answer → Prop} {w : World} (env : Env)

theorem loadSmartDesired_spec (a : Attempt) :
    wp G (loadSmartDesired env a) (fun r w' => w' = w ∧ (r = .ok none → w.desired = none) ∧
      (∀ d', r = .ok (some d') → ∃ d, w.desired = some d ∧ normalizeSmartDesired env d = .ok d') ∧
      ∀ e, r = .error e → ¬Granted G ⟨a, .readDesired⟩ ∨
        ∃ d e', w.desired = some d ∧ normalizeSmartDesired env d = .error e') w := by
  refine wp_quiet_bind (fun _ => rfl) (fun _ _ _ => ?_) fun e hg =>
    ⟨rfl, fun h => (by cases h), fun _ h => (by cases h), fun _ _ => Or.inl hg⟩
  refine wp.read_bind ?_
  cases hd : w.desired with
  | none => exact wp_pure _ ⟨rfl, fun _ => rfl, fun _ h => (by cases h), fun _ h => by cases h⟩
  | some d =>
    cases hn : normalizeSmartDesired env d with
    | error e =>
      simp only [hn]
      exact wp_fail _ ⟨rfl, fun h => (by cases h), fun _ h => (by cases h),
        fun _ _ => Or.inr ⟨d, e, rfl, hn⟩⟩
    | ok d' =>
      simp only [hn]
      refine wp_pure _ ⟨rfl, fun h => (by cases h), fun d'' h => ?_, fun _ h => by cases h⟩
      cases h
      exact ⟨d, rfl, hn⟩

/-- The record can be read and belongs to the tunnel, under case folding. -/
def MatchesDesired (w : World) (name : Str) : Prop :=
  ∃ d d', w.desired = some d ∧ normalizeSmartDesired env d = .ok d' ∧
    equalFold d'.tunnelName name = true

/-- The record can be read and names the tunnel byte by byte. -/
def NamesDesired (w : World) (name : Str) : Prop :=
  ∃ d d', w.desired = some d ∧ normalizeSmartDesired env d = .ok d' ∧ d'.tunnelName = name

theorem clearSmartDesiredForTunnel_spec (a : Attempt) (name : Str) :
    wp G (clearSmartDesiredForTunnel env a name) (fun _ w' => ∃ removed : Bool,
      w' = { w with desired := if removed then none else w.desired } ∧
      (removed = true → MatchesDesired env w name) ∧
      (MatchesDesired env w name → Granted G ⟨a, .readDesired⟩ → Granted G ⟨a, .removeDesired⟩ →
        removed = true)) w := by
  refine (loadSmartDesired_spec env a).bind ?_ ?_
  · rintro r w' ⟨rfl, hnone, hsome, -⟩
    cases r with
    | none =>
      refine wp_pure _ ⟨false, rfl, fun h => (by cases h), fun hm _ _ => ?_⟩
      obtain ⟨d, d', hd, -⟩ := hm
      rw [hnone rfl] at hd
      cases hd
    | some d' =>
      obtain ⟨d, hd, hn⟩ := hsome d' rfl
      refine wp_ite _ (fun hfold => ?_) fun hfold => ?_
      · refine (clearSmartDesired_spec a).mono ?_
        rintro r w'' (⟨-, rfl⟩ | ⟨e, -, rfl, hg⟩)
        · exact ⟨true, rfl, fun _ => ⟨d, d', hd, hn, hfold⟩, fun _ _ _ => rfl⟩
        · exact ⟨false, rfl, fun h => (by cases h), fun _ _ h => absurd h hg⟩
      · refine wp_pure _ ⟨false, rfl, fun h => (by cases h), fun hm _ _ => ?_⟩
        obtain ⟨d₁, d₁', hd₁, hn₁, hfold₁⟩ := hm
        obtain rfl := Option.some.inj (hd.symm.trans hd₁)
        obtain rfl := Except.ok.inj (hn.symm.trans hn₁)
        exact absurd hfold₁ hfold
  · rintro e w' ⟨rfl, -, -, herr⟩
    refine ⟨false, rfl, fun h => (by cases h), fun hm hread _ => ?_⟩
    obtain ⟨d, d', hd, hn, -⟩ := hm
    rcases herr e rfl with hg | ⟨d₁, e', hd₁, hn₁⟩
    · exact absurd hread hg
    · obtain rfl := Option.some.inj (hd.symm.trans hd₁)
      rw [hn] at hn₁
      cases hn₁

theorem namedBefore_of_load (name : Str) (r : Except ManagerErr (Option DesiredState))
    (hnone : r = .ok none → w.desired = none)
    (hsome : ∀ d', r = .ok (some d') → ∃ d, w.desired = some d ∧ normalizeSmartDesired env d = .ok d')
    (herr : ∀ e, r = .error e → ¬Granted G ⟨.target, .readDesired⟩ ∨
      ∃ d e', w.desired = some d ∧ normalizeSmartDesired env d = .error e') :
    (namedBefore name r = true → NamesDesired env w name) ∧
      (NamesDesired env w name → Granted G ⟨.target, .readDesired⟩ → namedBefore name r = true) := by
  cases r with
  | error e =>
    refine ⟨fun h => (by cases h), ?_⟩
    rintro ⟨d, d', hd, hn, -⟩ hread
    rcases herr e rfl with hg | ⟨d₁, e', hd₁, hn₁⟩
    · exact absurd hread hg
    · obtain rfl := Option.some.inj (hd.symm.trans hd₁)
      rw [hn] at hn₁
      cases hn₁
  | ok r =>
    cases r with
    | none =>
      refine ⟨fun h => (by cases h), ?_⟩
      rintro ⟨d, d', hd, -⟩
      rw [hnone rfl] at hd
      cases hd
    | some d₁' =>
      obtain ⟨d₁, hd₁, hn₁⟩ := hsome d₁' rfl
      refine ⟨fun h => ⟨d₁, d₁', hd₁, hn₁, of_decide_eq_true h⟩, ?_⟩
      rintro ⟨d, d', hd, hn, hname⟩ -
      obtain rfl := Option.some.inj (hd.symm.trans hd₁)
      obtain rfl := Except.ok.inj (hn.symm.trans hn₁)
      exact decide_eq_true hname

/-- The world once the engine of a tunnel is stopped. -/
def World.without (w : World) (name : Str) : World :=
  if (smartStateForTunnel w name).isSome then w.detached else w

theorem World.without_cases (w : World) (name : Str) :
    ((smartStateForTunnel w name).isSome = true ∧ w.without name = w.detached) ∨
      ((smartStateForTunnel w name).isSome = false ∧ w.without name = w) := by
  unfold World.without
  cases h : (smartStateForTunnel w name).isSome with
  | true => exact Or.inl ⟨rfl, rfl⟩
  | false => exact Or.inr ⟨rfl, rfl⟩

theorem stopIfSmart_spec (name : Str) :
    wp G (stopIfSmart name) (fun _ w' => Missed (∃ place, Exits G place) (w.without name) w') w := by
  refine wp_lock_bind .target .matchesStop fun w₀ hmissed => ?_
  suffices h : wp G _ (fun _ w' => w' = w₀.without name) w₀ by
    refine h.mono ?_
    rintro r w' rfl
    rcases hmissed with rfl | ⟨hexit, rfl⟩
    · exact Missed.refl _ _
    · -- the engine was missed before it could be stopped
      rcases w.without_cases name with ⟨-, hw⟩ | ⟨-, hw⟩
      · rw [hw]
        exact Or.inl rfl
      · rw [hw]
        exact Or.inr ⟨⟨_, hexit⟩, rfl⟩
  refine wp_ite _ (fun h => ?_) fun h => ?_
  · refine (smartStopUnlocked_spec .target).mono ?_
    rintro r w' ⟨rfl, -⟩
    rw [World.without, if_pos h]
  · refine wp_pure _ ?_
    rw [World.without, if_neg h]

/-- How `Stop` ends: whether the record is removed is decided under case folding, whether the
engine is stopped and the guard lifted byte by byte. -/
structure StopEnd (G : Question → Answer → Prop) (env : Env) (name : Str) (w u w' : World)
    (removed lifted : Bool) (v : Services) : Prop where
  engine : Missed (∃ place, Exits G place) (w.without name) u
  state : w' = { u with
    services := v
    desired := if removed then none else w.desired
    guard := if lifted then none else w.guard }
  within : ∀ n, w.services.state n = .stopped → v.state n = .stopped
  of_removed : removed = true → MatchesDesired env w name
  removes : MatchesDesired env w name → Granted G ⟨.target, .readDesired⟩ →
    Granted G ⟨.target, .removeDesired⟩ → removed = true
  of_lifted : lifted = true → (smartStateForTunnel w name).isSome = true ∨ NamesDesired env w name
  lifts : (smartStateForTunnel w name).isSome = true ∨
      (NamesDesired env w name ∧ Granted G ⟨.target, .readDesired⟩) →
    Granted G ⟨.target, .clearGuard⟩ → lifted = true

/-- Removing the record and stopping the engine do not see each other. -/
theorem World.without_desired (w : World) (d : Option DesiredState) (name : Str) :
    World.without { w with desired := d } name = { w.without name with desired := d } := by
  rcases w.without_cases name with ⟨h, hw⟩ | ⟨h, hw⟩
  · rw [hw]
    exact if_pos h
  · rw [hw]
    exact if_neg (Bool.eq_false_iff.mp h)

/-- What is missed does not depend on the record, and leaves the rest as it is. -/
theorem Missed.without {exit : Prop} {d : Option DesiredState} {name : Str} {u : World}
    (h : Missed exit (World.without { w with desired := d } name) u) :
    ∃ u₀, Missed exit (w.without name) u₀ ∧ u = { u₀ with desired := d } ∧
      u₀.services = w.services ∧ u₀.guard = w.guard := by
  rw [World.without_desired] at h
  have hsame : (w.without name).services = w.services ∧ (w.without name).guard = w.guard := by
    rcases w.without_cases name with ⟨-, hw⟩ | ⟨-, hw⟩ <;> rw [hw] <;> exact ⟨rfl, rfl⟩
  rcases h with rfl | ⟨hexit, rfl⟩
  · exact ⟨_, Missed.refl _ _, rfl, hsame⟩
  · exact ⟨_, Or.inr ⟨hexit, rfl⟩, rfl, hsame⟩

theorem stop_spec (name : Str) :
    wp G (stop env name) (fun _ w' => ∃ w₀, Missed (Exits G .beforeStop) w w₀ ∧
      ∃ u removed lifted v, StopEnd G env name w₀ u w' removed lifted v) w := by
  refine (loadSmartDesired_spec env .target).attempt_bind ?_
  rintro before w ⟨rfl, hnone, hsome, herr⟩
  refine wp_lock_bind .target .beforeStop fun w₀ hmissed => ?_
  have hdesired : w₀.desired = w.desired := by rw [hmissed.frame]
  rw [← hdesired] at hnone hsome herr
  obtain ⟨hof, hto⟩ := namedBefore_of_load env name before hnone hsome herr
  refine (clearSmartDesiredForTunnel_spec env .target name).attempt_bind ?_
  rintro r₁ w₁ ⟨removed, rfl, hremoved, hremoves⟩
  refine (stopIfSmart_spec name).attempt_bind ?_
  rintro r₂ w₂ hengine
  obtain ⟨u, hu, rfl, hservices, hguard⟩ := hengine.without
  refine (stopNativeTunnelsLocked_spec .target [name]).attempt_bind ?_
  rintro r₃ w₃ ⟨low, -⟩
  obtain ⟨v, rfl⟩ := low.onlyServices
  have hwithin : ∀ n, w₀.services.state n = .stopped → v.state n = .stopped := by
    intro n hn
    refine low.within n ?_
    change u.services.state n = .stopped
    rw [hservices, hn]
  refine wp.attempt_bind (T := fun _ w' => ∃ w₀, Missed (Exits G .beforeStop) w w₀ ∧
    ∃ u removed lifted v, StopEnd G env name w₀ u w' removed lifted v) ?_ ?_
  · refine wp_ite _ (fun hclear => ?_) fun hclear => ?_
    · refine (clearGuard_spec .target).mono ?_
      rintro r w' (⟨-, rfl⟩ | ⟨e, -, rfl, hg⟩)
      · refine ⟨w₀, hmissed, u, removed, true, v, hu, rfl, hwithin, hremoved, hremoves, fun _ => ?_,
          fun _ _ => rfl⟩
        rcases Bool.or_eq_true_iff.mp hclear with h | h
        · exact Or.inl h
        · exact Or.inr (hof h)
      · refine ⟨w₀, hmissed, u, removed, false, v, hu, ?_, hwithin, hremoved, hremoves,
          fun h => (by cases h), fun _ h => absurd h hg⟩
        rw [← hguard]
        rfl
    · refine wp_pure _ ⟨w₀, hmissed, u, removed, false, v, hu, ?_, hwithin, hremoved, hremoves,
        fun h => (by cases h), fun h _ => absurd ?_ hclear⟩
      · rw [← hguard]
        rfl
      · rw [Bool.or_eq_true_iff]
        rcases h with h | ⟨h, hread⟩
        · exact Or.inl h
        · exact Or.inr (hto h hread)
  · intro r w' hend
    exact wp_finish _ (fun _ => hend) fun _ _ => hend

/-- The attempts of a recovery keep what each of them keeps. -/
theorem recoverWithFallbacks_spec (P : World → Prop) (begin : Str → Op Unit)
    (h : ∀ name u, P u → wp G (begin name) (fun _ w' => P w') u) (seen : List Str)
    (errs : List ManagerErr) (names : List Str) (hw : P w) :
    wp G (recoverWithFallbacks begin seen errs names) (fun _ w' => P w') w := by
  induction names generalizing seen errs w with
  | nil => exact wp_finish _ (fun _ => hw) fun _ _ => hw
  | cons name rest ih =>
    refine wp_ite _ (fun _ => ih seen errs hw) fun _ => ?_
    refine (h name w hw).attempt_bind ?_
    rintro (e | ⟨⟩) w' hw'
    · exact ih _ _ hw'
    · exact wp_pure _ hw'

/-- A recovery that is not needed has found the engine of the tunnel. -/
theorem recoveryNeeded_spec (force : Bool) (name : Str) :
    wp G (recoveryNeeded force name) (fun r w' => Missed (Exits G .healthy) w w' ∧
      (r = .ok false → ∃ process, w'.smartProcess = some process ∧
        equalFold process.tunnelName name = true)) w := by
  refine wp_ite _ (fun _ => wp_pure _ ⟨Missed.refl _ w, fun h => by cases h⟩) fun _ => ?_
  refine wp.bind (T := fun r w' => Missed (Exits G .healthy) w w' ∧ (r = .ok true → ∃ process,
    w'.smartProcess = some process ∧ equalFold process.tunnelName name = true)) ?_ ?_ ?_
  · refine wp_lock_bind .target .healthy fun w₀ hmissed => ?_
    refine wp_ite _ (fun hany => ?_) fun _ => wp_pure _ ⟨hmissed, fun h => by cases h⟩
    refine (os_spec _).bind ?_ fun e w' h => by simp at h
    rintro r w' ⟨_, -, -, rfl⟩
    obtain ⟨process, hprocess, hfold⟩ := (Option.any_eq_true _ _).mp hany
    exact wp_pure _ ⟨hmissed, fun _ => ⟨process, hprocess, hfold⟩⟩
  · rintro healthy w₀ ⟨hmissed, hhealthy⟩
    refine wp_pure _ ⟨hmissed, fun h => hhealthy ?_⟩
    cases healthy with
    | true => rfl
    | false => cases h
  · rintro e w₀ ⟨hmissed, -⟩
    exact ⟨hmissed, fun h => by cases h⟩

/-- What `recoverSmartDesired` does before its first attempt: it finds the record to recover, if there is
something to do. -/
def recoveryTarget (force : Bool) : Op (Option DesiredState) := do
  let w ← Prog.read
  if w.suspended then Prog.fail (.text "system is suspended")
  else
    match ← loadSmartDesired env .target with
    | none => return none
    | some d =>
      let network ← must ⟨.target, .physicalNetwork⟩
      if network.up then
        let needed ← recoveryNeeded force d.tunnelName
        if needed then return some d else return none
      else Prog.fail (.text "no usable physical network is available")

/-- The attempts for the record that was found. -/
def recoverFrom : Option DesiredState → Op Unit
  | none => return ()
  | some d => recoverWithFallbacks (recoverAs env d) [] [] (d.tunnelName :: d.settings.fallbackProfiles)

theorem recoverSmartDesired_eq (force : Bool) :
    recoverSmartDesired env force = recoveryTarget env force >>= recoverFrom env := by
  unfold recoverSmartDesired recoveryTarget
  rw [Prog.bind_assoc]
  congr 1
  funext w
  cases w.suspended with
  | true => rfl
  | false =>
    rw [if_neg Bool.false_ne_true, if_neg Bool.false_ne_true, Prog.bind_assoc]
    congr 1
    funext found
    cases found with
    | none => rfl
    | some d =>
      simp only
      rw [Prog.bind_assoc]
      congr 1
      funext network
      cases network.up with
      | false => rfl
      | true =>
        rw [if_pos rfl, if_pos rfl, Prog.bind_assoc]
        congr 1
        funext needed
        cases needed <;> rfl

theorem recoveryTarget_spec (force : Bool) :
    wp G (recoveryTarget env force) (fun r w' => Missed (Exits G .healthy) w w' ∧
      (∀ d, r = .ok (some d) → ∃ d₀, w.desired = some d₀ ∧ normalizeSmartDesired env d₀ = .ok d) ∧
      (r = .ok none → w.desired = none ∨ ∃ d₀ process, w.desired = some d₀ ∧
        w'.smartProcess = some process ∧
        equalFold process.tunnelName (trimSpace d₀.tunnelName) = true)) w := by
  refine wp.read_bind (wp_ite _ (fun _ => wp_fail _ ⟨Missed.refl _ w, nofun, nofun⟩) fun _ => ?_)
  refine (loadSmartDesired_spec env .target).bind ?_ fun e w' h => ⟨Or.inl h.1, nofun, nofun⟩
  rintro r w ⟨rfl, hnone, hsome, -⟩
  cases r with
  | none => exact wp_pure _ ⟨Missed.refl _ w, nofun, fun _ => Or.inl (hnone rfl)⟩
  | some d =>
    obtain ⟨d₀, hd₀, hd⟩ := hsome d rfl
    refine wp_quiet_bind (fun _ => rfl) (fun network _ _ => ?_)
      fun e _ => ⟨Missed.refl _ w, nofun, nofun⟩
    refine wp_ite _ (fun _ => ?_) fun _ => wp_fail _ ⟨Missed.refl _ w, nofun, nofun⟩
    refine (recoveryNeeded_spec force d.tunnelName).bind ?_ fun e w' h => ⟨h.1, nofun, nofun⟩
    rintro needed w' ⟨hmissed, hunneeded⟩
    refine wp_ite _ (fun _ => wp_pure _ ⟨hmissed, fun d' hd' => ?_, nofun⟩) fun hneeded => ?_
    · cases hd'
      exact hsome d rfl
    · refine wp_pure _ ⟨hmissed, nofun, fun _ => Or.inr ?_⟩
      obtain ⟨process, hprocess, hfold⟩ := hunneeded (congrArg _ (by simpa using hneeded))
      rw [((normalizeSmartDesired_eq_ok env d₀ d).mp hd).2.2.2] at hfold
      exact ⟨d₀, process, hd₀, hprocess, hfold⟩

/-- A recovery either does nothing but miss an engine or makes attempts for the record it has read. -/
theorem recoverSmartDesired_spec (P : World → Prop) (force : Bool) (hw : P w) (hgone : P w.detached)
    (h : ∀ d₀ d, w.desired = some d₀ → normalizeSmartDesired env d₀ = .ok d → ∀ name u, P u →
      wp G (recoverAs env d name) (fun _ w' => P w') u) :
    wp G (recoverSmartDesired env force) (fun _ w' => P w') w := by
  have hP : ∀ {w'}, Missed (Exits G .healthy) w w' → P w' := by
    rintro w' (rfl | ⟨-, rfl⟩)
    · exact hw
    · exact hgone
  rw [recoverSmartDesired_eq]
  refine (recoveryTarget_spec env force).bind ?_ fun e w' hend => hP hend.1
  rintro found w' ⟨hmissed, hsome, -⟩
  cases found with
  | none => exact wp_pure _ (hP hmissed)
  | some d =>
    obtain ⟨d₀, hd₀, hd⟩ := hsome d rfl
    exact recoverWithFallbacks_spec P _ (h d₀ d hd₀ hd) _ _ _ (hP hmissed)

/-- Suspending stops the engine or does nothing. -/
theorem pauseSmartForSuspend_spec :
    wp G (pauseSmartForSuspend env) (fun _ w' => w' = { w with suspended := true } ∨
      w' = { w.detached with suspended := true }) w := by
  refine wp.change_bind ?_
  refine (loadSmartDesired_spec env .target).bind ?_ fun e w' h => Or.inl h.1
  rintro r w' ⟨rfl, -⟩
  cases r with
  | none => exact wp_pure _ (Or.inl rfl)
  | some d => exact (smartStopUnlocked_spec .target).mono fun _ _ h => Or.inr h.1

/-- `SmartStop` stops the engine; the record and the guard go unless the system refuses. -/
theorem smartStop_spec (elevated : Bool) :
    wp G (smartStop elevated) (fun _ w' => w' = w ∨ ∃ d g,
      w' = { w.detached with desired := d, guard := g } ∧ (d = none ∨ d = w.desired) ∧
        (g = none ∨ g = w.guard ∧ ¬Granted G ⟨.target, .clearGuard⟩)) w := by
  refine wp_ite _ (fun _ => ?_) fun _ => wp_fail _ (Or.inl rfl)
  refine wp.attempt_bind (T := fun _ w' => ∃ d, w' = { w with desired := d } ∧
    (d = none ∨ d = w.desired)) ((clearSmartDesired_spec .target).mono ?_) ?_
  · rintro r w' (⟨-, rfl⟩ | ⟨e, -, rfl, -⟩)
    · exact ⟨none, rfl, Or.inl rfl⟩
    · exact ⟨w'.desired, rfl, Or.inr rfl⟩
  rintro r₁ _ ⟨d, rfl, hd⟩
  refine (smartStopUnlocked_spec .target).attempt_bind ?_
  rintro r₂ _ ⟨rfl, -⟩
  refine (clearGuard_spec .target).attempt_bind ?_
  rintro r₃ w' hend
  have hw' : ∃ d g, w' = { w.detached with desired := d, guard := g } ∧ (d = none ∨ d = w.desired) ∧
      (g = none ∨ g = w.guard ∧ ¬Granted G ⟨.target, .clearGuard⟩) := by
    rcases hend with ⟨-, rfl⟩ | ⟨e, -, rfl, hg⟩
    · exact ⟨d, none, rfl, hd, Or.inl rfl⟩
    · exact ⟨d, w.guard, rfl, hd, Or.inr ⟨rfl, hg⟩⟩
  exact wp_finish _ (fun _ => Or.inr hw') fun _ _ => Or.inr hw'

end specs

section samples

/-- Nothing runs and nothing is left over from before. -/
def cleanWorld : World where
  services := ⟨[], fun _ => .stopped, fun _ h => absurd rfl h⟩
  profiles := []
  engines := []
  spawned := 0
  smartProcess := none
  desired := none
  guard := none
  suspended := false

/-- What a protected engine leaves behind that was killed together with its manager. -/
def crashedWorld : World :=
  { cleanWorld with desired := some ⟨ascii "home", guardedSettings⟩, guard := some 0 }

/-- A system that refuses some calls; the services it is asked about are stopped, and no engine
exits. -/
def answering (refused : Question → Bool) : Feed Question Answer := fun _ q =>
  ⟨if refused q then some .other else none, .stopped, 7, true, false⟩

theorem answering_still (refused : Question → Bool) : Still (givenBy (answering refused)) := by
  rintro place ⟨a, _, ⟨k, rfl⟩, hexit⟩
  cases hexit

/-- The protected engine of the tunnel "Home". -/
def homeWorld : World :=
  { cleanWorld with
    engines := [0]
    spawned := 1
    smartProcess := some ⟨ascii "Home", guardedSettings, 0, by decide +kernel⟩
    desired := some ⟨ascii "Home", guardedSettings⟩
    guard := some 7 }

end samples

end SmartAwg.Manager
