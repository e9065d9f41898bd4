import Mathlib.Data.List.Dedup
import SmartAwg.ManagerWorld

/-!
Starting and stopping native tunnels, and the file with the desired state.
-/

namespace SmartAwg.Manager

open Go Smart Fallible

section queries

/-- `smartStateForTunnel`: names are compared byte by byte. -/
def smartStateForTunnel (w : World) (name : Str) : Option TunnelState :=
  match w.smartProcess with
  | some process => if process.tunnelName = name then some .started else none
  | none => none

def smartAnyStarted (w : World) : Bool := w.smartProcess.isSome

/-- What `State` reports: the engine first, then the service. -/
def reported (w : World) (name : Str) : TunnelState :=
  (smartStateForTunnel w name).getD (w.services.state name)

/-- `ManagerService.State`. -/
def tunnelState (a : Attempt) (place : Str → Place) (name : Str) : Op TunnelState := do
  let w ← lock a (place name)
  match smartStateForTunnel w name with
  | some st => return st
  | none =>
    let _ ← must ⟨a, .queryService name⟩
    return w.services.state name

/-- The configured tunnels and those with a service, each once. -/
def nameSet (w : World) : List Str := (w.profiles ++ w.services.names).dedup

def nativeTunnelStates (a : Attempt) (place : Str → Place) : Op (List (Str × TunnelState)) := do
  let _ ← must ⟨a, .listConfigNames⟩
  let w ← Prog.read
  Prog.collect (fun name => do
    let st ← (tunnelState a place name).mapError (.named "query native tunnel" name)
    return (name, st)) (nameSet w)

end queries

section switching

/-- `sort.Strings`. -/
def sortStrings (names : List Str) : List Str := names.mergeSort fun a b => decide (a ≤ b)

theorem mem_sortStrings (names : List Str) (n : Str) : n ∈ sortStrings names ↔ n ∈ names :=
  List.mem_mergeSort

structure NativeSwitchPlan where
  stop : List Str
  wait : List Str
  install : Bool

def planNativeSwitch (target : Str) (states : List (Str × TunnelState)) : NativeSwitchPlan where
  stop := sortStrings ((states.filter fun (name, st) => name ≠ target ∧ st ≠ .stopped).map Prod.fst)
  wait := sortStrings ((states.filter fun (name, st) =>
    if name = target then st = .stopping else st ≠ .stopped).map Prod.fst)
  install := !states.any fun (name, st) =>
    name = target ∧ (st = .started ∨ st = .starting ∨ st = .unknown)

/-- The end of a function that has collected errors. -/
def finish (es : List ManagerErr) : Op Unit :=
  match joinErrors es with
  | none => return ()
  | some e => Prog.fail e

/-- The two loops that every change of native tunnels makes, and the errors of both. -/
def stopThenWait (stop wait : Str → Op Unit) (stops waits : List Str) : Op (List ManagerErr) := do
  let stopErrs ← Prog.gather (fun n => (stop n).mapError (.named "stop native tunnel" n)) stops
  let waitErrs ← Prog.gather (fun n => (wait n).mapError (.named "wait for native tunnel" n)) waits
  return stopErrs ++ waitErrs

def executeNativeSwitch (plan : NativeSwitchPlan) (stop wait : Str → Op Unit)
    (install : Op Unit) : Op Unit := do
  let errs ← stopThenWait stop wait plan.stop plan.wait
  if errs.isEmpty ∧ plan.install then install else finish errs

def normalizeNativeUninstallError : Option Fault → Option Fault
  | some .serviceMarkedForDelete => none
  | some .serviceDoesNotExist => none
  | fault => fault

/-- `normalizeNativeUninstallError(UninstallTunnel(name))`. -/
def uninstallTunnel (a : Attempt) (name : Str) : Op Unit := do
  let r ← os ⟨a, .uninstallTunnel name⟩
  match normalizeNativeUninstallError r.fault with
  | none => return ()
  | some fault => Prog.fail (.os (.uninstallTunnel name) fault)

def waitForStop (a : Attempt) (name : Str) : Op Unit := do
  let _ ← must ⟨a, .waitForStop name⟩
  return ()

def installTunnel (a : Attempt) (name : Str) : Op Unit := do
  let _ ← must ⟨a, .installTunnel name⟩
  return ()

def stopNativeTunnelsLocked (a : Attempt) (names : List Str) : Op Unit := do
  let ordered := sortStrings (names.filter (· ≠ [])).dedup
  let errs ← stopThenWait (uninstallTunnel a) (waitForStop a) ordered ordered
  finish errs

def stopNativeTunnel (a : Attempt) (name : Str) : Op Unit := stopNativeTunnelsLocked a [name]

def stopAllNativeTunnels (a : Attempt) : Op Unit := do
  let states ← nativeTunnelStates a .state
  stopNativeTunnelsLocked a ((states.filter fun (_, st) => st ≠ .stopped).map Prod.fst)

end switching

section desired

def normalizeSmartDesired (env : Env) (d : DesiredState) : Except ManagerErr DesiredState :=
  let name := trimSpace d.tunnelName
  if !Conf.tunnelNameIsValid name then .error (.text "invalid desired tunnel name")
  else
    match d.settings.normalized env with
    | .error e => .error (.settings e)
    | .ok settings =>
      if usesNativeTunnel settings then
        .error (.text "native all-traffic tunnels do not use smart recovery")
      else .ok ⟨name, settings⟩

theorem normalizeSmartDesired_eq_ok (env : Env) (d d' : DesiredState) :
    normalizeSmartDesired env d = .ok d' ↔ Conf.tunnelNameIsValid (trimSpace d.tunnelName) = true ∧
      d.settings.normalized env = .ok d'.settings ∧ usesNativeTunnel d'.settings = false ∧
      d'.tunnelName = trimSpace d.tunnelName := by
  unfold normalizeSmartDesired
  simp only
  constructor
  · intro h
    split at h
    · cases h
    rename_i hvalid
    split at h
    · cases h
    rename_i settings hn
    split at h
    · cases h
    rename_i hnative
    cases h
    exact ⟨by simpa using hvalid, hn, by simpa using hnative, rfl⟩
  · rintro ⟨hvalid, hn, hnative, hname⟩
    rw [if_neg (by simp [hvalid]), hn]
    simp only
    rw [if_neg (by simp [hnative]), ← hname]

def saveSmartDesired (env : Env) (a : Attempt) (name : Str) (settings : RoutingSettings) :
    Op Unit :=
  match normalizeSmartDesired env ⟨name, settings⟩ with
  | .error e => Prog.fail e
  | .ok d => do
    let _ ← must ⟨a, .writeDesired d⟩
    return ()

def loadSmartDesired (env : Env) (a : Attempt) : Op (Option DesiredState) := do
  let _ ← must ⟨a, .readDesired⟩
  let w ← Prog.read
  match w.desired with
  | none => return none
  | some d =>
    match normalizeSmartDesired env d with
    | .error e => Prog.fail (.wrap "validate desired state" e)
    | .ok d => return some d

def clearSmartDesired (a : Attempt) : Op Unit := do
  let _ ← must ⟨a, .removeDesired⟩
  return ()

/-- Here names are compared under case folding. -/
def clearSmartDesiredForTunnel (env : Env) (a : Attempt) (name : Str) : Op Unit := do
  match ← loadSmartDesired env a with
  | none => return ()
  | some d => if equalFold d.tunnelName name then clearSmartDesired a else return ()

end desired

section start

/-- One round of the loop that brings stopped tunnels back after a failed switch. -/
def restoreStopped (states : List (Str × TunnelState)) (name : Str) : Op Unit := do
  if (states.lookup name).any TunnelState.inUse then
    let st ← tunnelState .predecessor .state name
    if st = .stopped then
      Prog.mapError (.named "restore" name) do
        let _ ← must ⟨.predecessor, .loadConfig name⟩
        let _ ← must ⟨.predecessor, .configPath name⟩
        installTunnel .predecessor name
    else return ()
  else return ()

/-- The switch itself, with the restoration of what it stopped when it fails. -/
def switchNative (a : Attempt) (name : Str) : Op Unit := do
  let states ← nativeTunnelStates a .state
  let plan := planNativeSwitch name states
  match ← Prog.attempt (executeNativeSwitch plan (uninstallTunnel a) (waitForStop a)
      (installTunnel a name)) with
  | .ok () => return ()
  | .error switchErr =>
    let errs ← Prog.gather (restoreStopped states) plan.stop
    finish (switchErr :: errs)

def startNativeUnlocked (a : Attempt) (name : Str) : Op Unit := do
  let _ ← must ⟨a, .preflight⟩
  let _ ← must ⟨a, .loadConfig name⟩
  let _ ← must ⟨a, .configPath name⟩
  let w ← lock a .anyStarted
  if smartAnyStarted w then
    Prog.fail (.text "smart routing is active; stop it before starting a native tunnel")
  else
    switchNative a name
    match ← Prog.attempt (clearSmartDesired a) with
    | .ok () => return ()
    | .error e =>
      let e := ManagerErr.wrap "clear smart recovery state after native start" e
      -- the rollback stops the tunnel that was asked for, also when it had been running before
      match ← Prog.attempt (stopNativeTunnelsLocked a [name]) with
      | .ok () => Prog.fail e
      | .error rollbackErr => Prog.fail (.join [e, rollbackErr])

end start

section specs
variable {G : Question → Answer → Prop} {w : World} (a : Attempt)

/-- Some call of the attempt is refused by a feed that keeps to `G`. -/
def Refused (G : Question → Answer → Prop) (a : Attempt) : Prop := ∃ st, ¬Granted G ⟨a, st⟩

/-- All calls but the two that clear up once a tunnel runs. -/
def Step.switches : Step → Bool
  | .clearGuard => false
  | .removeDesired => false
  | _ => true

/-- Some call that belongs to the switch itself is refused. -/
def SwitchRefused (G : Question → Answer → Prop) (a : Attempt) : Prop :=
  ∃ st, Step.switches st = true ∧ ¬Granted G ⟨a, st⟩

theorem SwitchRefused.refused {a : Attempt} (h : SwitchRefused G a) : Refused G a := by
  obtain ⟨st, -, hg⟩ := h
  exact ⟨st, hg⟩

/-- The calls of a start with an engine that come before the provisional guard and not again after
it. -/
def Step.prepares : Step → Bool
  | .preflight | .loadConfig _ | .buildConfig _ | .diagnosticListener | .diagnosticInbound |
    .smartPaths _ | .writeConfig | .findEngine | .checkEngine => true
  | _ => false

/-- Some call that may come after the provisional guard is refused. -/
def LateRefused (G : Question → Answer → Prop) (a : Attempt) : Prop :=
  ∃ st, Step.prepares st = false ∧ ¬Granted G ⟨a, st⟩

theorem LateRefused.refused {a : Attempt} (h : LateRefused G a) : Refused G a := by
  obtain ⟨st, -, hg⟩ := h
  exact ⟨st, hg⟩

/-- Some call that lists or stops services is refused. -/
def ClearRefused (G : Question → Answer → Prop) (a : Attempt) : Prop :=
  ∃ st, Step.switches st = true ∧ Step.prepares st = false ∧ ¬Granted G ⟨a, st⟩

theorem ClearRefused.switch {a : Attempt} (h : ClearRefused G a) : SwitchRefused G a := by
  obtain ⟨st, hst, -, hg⟩ := h
  exact ⟨st, hst, hg⟩

theorem ClearRefused.late {a : Attempt} (h : ClearRefused G a) : LateRefused G a := by
  obtain ⟨st, -, hst, hg⟩ := h
  exact ⟨st, hst, hg⟩

theorem tunnelState_spec (place : Str → Place) (name : Str) :
    wp G (tunnelState a place name) (fun r w' => Missed (Exits G (place name)) w w' ∧
      (∀ st, r = .ok st → st = reported w' name) ∧ ∀ e, r = .error e → ClearRefused G a) w := by
  refine wp_lock_bind a (place name) fun w' hmissed => ?_
  cases h : smartStateForTunnel w' name with
  | some st =>
    refine wp_pure _ ⟨hmissed, fun st' hst => ?_, fun e he => ?_⟩
    · cases hst
      rw [reported, h]
      rfl
    · cases he
  | none =>
    refine wp_quiet_bind (fun _ => rfl) (fun _ _ _ => ?_) fun e he => ?_
    · refine wp_pure _ ⟨hmissed, fun st' hst => ?_, fun e he => ?_⟩
      · cases hst
        rw [reported, h]
        rfl
      · cases he
    · exact ⟨hmissed, fun st hst => (by cases hst), fun _ _ => ⟨_, rfl, rfl, he⟩⟩

/-- What `nativeTunnelStates` returns when it returns and nothing is missed meanwhile. -/
def listing (w : World) : List (Str × TunnelState) :=
  (nameSet w).map fun name => (name, reported w name)

theorem mem_listing (n : Str) (st : TunnelState) (h : (n, st) ∈ listing w) :
    st = reported w n := by
  obtain ⟨m, -, hm⟩ := List.mem_map.mp h
  cases hm
  rfl

theorem listing_of_running (n : Str) (h : w.services.state n ≠ .stopped) :
    (n, reported w n) ∈ listing w := by
  refine List.mem_map_of_mem (List.mem_dedup.mpr (List.mem_append_right _ ?_))
  exact (w.services.listed n h).2

theorem reported_of_none (h : w.smartProcess = none) (n : Str) :
    reported w n = w.services.state n := by
  rw [reported, smartStateForTunnel, h]
  rfl

/-- A running engine is reported as started, never as stopped. -/
theorem reported_ne_stopped (n : Str) (h : w.services.state n ≠ .stopped) :
    reported w n ≠ .stopped := by
  unfold reported smartStateForTunnel
  split
  · split
    · exact fun hrep => by cases hrep
    · exact h
  · exact h

/-- What the calls of `State` for these tunnels return, one after the other: once the engine has
been missed, what the service of its tunnel does. -/
structure Listed (w w' : World) (names : List Str) (states : List (Str × TunnelState)) : Prop where
  named : states.map Prod.fst = names
  seen : ∀ n st, (n, st) ∈ states → st = reported w n ∨ st = w.services.state n
  same : w' = w → states = names.map fun n => (n, reported w n)

theorem Listed.next {exit : Prop} {w₁ w₂ : World} {names : List Str}
    {states : List (Str × TunnelState)} (h : Listed w w₁ names states) (h₁ : Missed exit w w₁)
    (h₂ : Missed exit w₁ w₂) (n : Str) :
    Listed w w₂ (names ++ [n]) (states ++ [(n, reported w₂ n)]) where
  named := by simp [h.named]
  seen := by
    intro m st hm
    rcases List.mem_append.mp hm with hm | hm
    · exact h.seen m st hm
    · obtain ⟨rfl, rfl⟩ := Prod.mk.inj (List.mem_singleton.mp hm)
      rcases h₁.trans h₂ with rfl | ⟨-, rfl⟩
      · exact Or.inl rfl
      · exact Or.inr (reported_of_none rfl m)
  same := by
    rintro rfl
    -- what is missed once stays so, and nothing was missed in the end
    have hw₁ : w₁ = w₂ := by
      rcases h₁ with rfl | ⟨-, rfl⟩
      · rfl
      · exact (h₂.of_none rfl).symm
    rw [h.same hw₁, List.map_append]
    rfl

theorem nativeTunnelStates_spec (place : Str → Place) :
    wp G (nativeTunnelStates a place) (fun r w' => Missed (∃ n, Exits G (place n)) w w' ∧
      (∀ states, r = .ok states → Listed w w' (nameSet w) states) ∧
      ∀ e, r = .error e → ClearRefused G a) w := by
  refine wp_quiet_bind (fun _ => rfl) (fun _ _ _ => ?_)
    fun e he => ⟨Missed.refl _ w, fun _ hst => (by cases hst), fun _ _ => ⟨_, rfl, rfl, he⟩⟩
  refine wp.read_bind ((wp_collect _ (fun done states w' => Missed (∃ n, Exits G (place n)) w w' ∧
    Listed w w' done states) (fun w' => Missed (∃ n, Exits G (place n)) w w' ∧ ClearRefused G a)
    (nameSet w) [] [] ⟨Missed.refl _ w, rfl, fun _ _ h => absurd h List.not_mem_nil, fun _ => rfl⟩
    ?_).mono ?_)
  · rintro done states w₁ name - ⟨hmissed, hlisted⟩
    refine (wp.mapError (R := fun r w₂ => Missed (∃ n, Exits G (place n)) w₁ w₂ ∧
      (∀ st, r = .ok st → st = reported w₂ name) ∧ ∀ e, r = .error e → ClearRefused G a) _
      (tunnelState_spec a place name) ?_ ?_).bind ?_ ?_
    · rintro st w₂ ⟨h, hst, he⟩
      exact ⟨h.mono fun hexit => ⟨name, hexit⟩, hst, he⟩
    · rintro e w₂ ⟨h, -, he⟩
      exact ⟨h.mono fun hexit => ⟨name, hexit⟩, fun _ hst => (by cases hst), fun _ _ => he e rfl⟩
    · rintro st w₂ ⟨h, hst, -⟩
      refine wp_pure _ ⟨fun p hp => ?_, fun e he => by cases he⟩
      cases hp
      rw [hst st rfl]
      exact ⟨hmissed.trans h, hlisted.next hmissed h name⟩
    · rintro e w₂ ⟨h, -, he⟩
      exact ⟨fun _ hp => (by cases hp), fun _ _ => ⟨hmissed.trans h, he e rfl⟩⟩
  · rintro (e | states) w' ⟨hok, herr⟩
    · exact ⟨(herr e rfl).1, fun _ hst => (by cases hst), fun _ _ => (herr e rfl).2⟩
    · refine ⟨(hok states rfl).1, fun _ hst => ?_, fun _ he => by cases he⟩
      cases hst
      simpa using (hok states rfl).2

end specs

section lowering
variable {G : Question → Answer → Prop} {w : World} (a : Attempt)

/-- Only services were touched, only those named, and none of them was started. -/
structure Lowered (touched : List Str) (w w' : World) : Prop where
  frame : w' = { w with services := w'.services }
  within : ∀ n, w.services.state n = .stopped → w'.services.state n = .stopped
  same : ∀ n ∉ touched, w'.services.state n = w.services.state n

theorem Lowered.refl (touched : List Str) (w : World) : Lowered touched w w where
  frame := rfl
  within := fun _ h => h
  same := fun _ _ => rfl

theorem Lowered.trans {t t' : List Str} {w w' w'' : World} (h : Lowered t w w')
    (h' : Lowered t' w' w'') : Lowered (t ++ t') w w'' where
  frame := by
    rw [h'.frame, h.frame]
  within := fun n hn => h'.within n (h.within n hn)
  same := by
    intro n hn
    rw [List.mem_append, not_or] at hn
    rw [h'.same n hn.2, h.same n hn.1]

theorem Lowered.mono {t t' : List Str} {w w' : World} (h : Lowered t w w') (ht : t ⊆ t') :
    Lowered t' w w' where
  frame := h.frame
  within := h.within
  same := fun n hn => h.same n fun hmem => hn (ht hmem)

theorem lowered_settle (n : Str) (left : TunnelState) :
    Lowered [n] w { w with services := w.services.settle n left } where
  frame := rfl
  within := fun m hm => w.services.settle_of_stopped n m left hm
  same := by
    intro m hm
    exact w.services.settle_state_of_ne n m left (by simpa using hm)

theorem uninstallTunnel_spec (n : Str) :
    wp G (uninstallTunnel a n) (fun r w' => Lowered [n] w w' ∧
      ∀ e, r = .error e → ¬Granted G ⟨a, .uninstallTunnel n⟩) w := by
  refine (os_spec _).bind ?_ fun e w' h => by simp at h
  rintro r _ ⟨_, hr, hG, rfl⟩
  cases hr
  cases hf : normalizeNativeUninstallError r.fault with
  | none => exact wp_pure _ ⟨lowered_settle n r.left, fun e he => by cases he⟩
  | some fault =>
    refine wp_fail _ ⟨lowered_settle n r.left, fun e _ hgranted => ?_⟩
    rw [hgranted r hG] at hf
    cases hf

theorem waitForStop_spec (n : Str) :
    wp G (waitForStop a n) (fun r w' => Lowered [n] w w' ∧
      (r = .ok () → w'.services.state n = .stopped) ∧
      ∀ e, r = .error e → ¬Granted G ⟨a, .waitForStop n⟩) w := by
  refine wp_must_bind (fun r hG hf => ?_) fun r e hG hf => ?_
  · refine wp_pure _ ⟨lowered_settle n _, fun _ => ?_, fun e he => by cases he⟩
    simp only [effect, hf, if_true]
    exact w.services.settle_stopped n
  · refine ⟨lowered_settle n _, fun h => (by cases h), fun _ _ hgranted => hf (hgranted r hG)⟩

/-- The two loops stop what they wait for, and an error is the refusal of one of their calls. -/
theorem stopThenWait_spec (stops waits : List Str) :
    wp G (stopThenWait (uninstallTunnel a) (waitForStop a) stops waits) (fun r w' =>
      ∃ es, r = .ok es ∧ Lowered (stops ++ waits) w w' ∧
        (∀ n ∈ waits, es = [] ∨ Granted G ⟨a, .waitForStop n⟩ → w'.services.state n = .stopped) ∧
        (es ≠ [] → (∃ n ∈ stops, ¬Granted G ⟨a, .uninstallTunnel n⟩) ∨
          ∃ n ∈ waits, ¬Granted G ⟨a, .waitForStop n⟩)) w := by
  -- the first loop: who was uninstalled, and who refused
  refine (wp_gather _ (fun done es w' => Lowered done w w' ∧
    (es ≠ [] → ∃ n ∈ done, ¬Granted G ⟨a, .uninstallTunnel n⟩)) stops [] []
    ⟨Lowered.refl [] w, fun h => absurd rfl h⟩ ?_).bind ?_ fun e w' h => by simp at h
  · rintro done es w' n - ⟨hlow, hes⟩
    refine wp.mapError _ (uninstallTunnel_spec a n) ?_ ?_
    · rintro ⟨⟩ w'' ⟨hlow', -⟩
      refine ⟨fun _ => ⟨hlow.trans hlow', fun h => ?_⟩, fun e he => by cases he⟩
      obtain ⟨m, hm, hg⟩ := hes h
      exact ⟨m, List.mem_append_left _ hm, hg⟩
    · rintro e w'' ⟨hlow', hrefused⟩
      refine ⟨fun h => (by cases h), fun _ _ => ⟨hlow.trans hlow', fun _ => ?_⟩⟩
      exact ⟨n, List.mem_append_right _ (List.mem_singleton_self n), hrefused e rfl⟩
  rintro es w₁ ⟨_, hes, hlow₁, hrefused₁⟩
  cases hes
  -- the second loop: what has been waited for stays stopped
  refine (wp_gather _ (fun done es w' => Lowered done w₁ w' ∧
    (∀ n ∈ done, es = [] ∨ Granted G ⟨a, .waitForStop n⟩ → w'.services.state n = .stopped) ∧
    (es ≠ [] → ∃ n ∈ done, ¬Granted G ⟨a, .waitForStop n⟩)) waits [] []
    ⟨Lowered.refl [] w₁, fun n hn => (by simp at hn), fun h => absurd rfl h⟩ ?_).bind ?_
    fun e w' h => by simp at h
  · rintro done es w' n - ⟨hlow, hstopped, hes⟩
    refine wp.mapError _ (waitForStop_spec a n) ?_ ?_
    · rintro ⟨⟩ w'' ⟨hlow', hn, -⟩
      refine ⟨fun _ => ⟨hlow.trans hlow', fun m hm h => ?_, fun h => ?_⟩, fun e he => by cases he⟩
      · rcases List.mem_append.mp hm with hm | hm
        · exact hlow'.within m (hstopped m hm h)
        · rw [List.mem_singleton.mp hm]
          exact hn rfl
      · obtain ⟨m, hm, hg⟩ := hes h
        exact ⟨m, List.mem_append_left _ hm, hg⟩
    · rintro e w'' ⟨hlow', -, hrefused⟩
      refine ⟨fun h => (by cases h), fun _ _ => ⟨hlow.trans hlow', fun m hm h => ?_, fun _ => ?_⟩⟩
      · have hgranted : Granted G ⟨a, .waitForStop m⟩ := h.resolve_left (by simp)
        rcases List.mem_append.mp hm with hm | hm
        · exact hlow'.within m (hstopped m hm (Or.inr hgranted))
        · rw [List.mem_singleton.mp hm] at hgranted
          exact absurd hgranted (hrefused e rfl)
      · exact ⟨n, List.mem_append_right _ (List.mem_singleton_self n), hrefused e rfl⟩
  rintro es' w₂ ⟨_, hes', hlow₂, hstopped, hrefused₂⟩
  cases hes'
  refine wp_pure _ ⟨_, rfl, hlow₁.trans hlow₂, fun n hn h => hstopped n hn (h.imp_left fun h => ?_),
    fun h => ?_⟩
  · exact (List.append_eq_nil_iff.mp h).2
  · by_cases hnil : es = []
    · exact Or.inr (hrefused₂ (by simpa [hnil] using h))
    · exact Or.inl (hrefused₁ hnil)

theorem wp_finish {R : Except ManagerErr Unit → World → Prop} (es : List ManagerErr)
    (hok : es = [] → R (.ok ()) w) (herr : ∀ e, es ≠ [] → R (.error e) w) :
    wp G (finish es) R w := by
  cases es with
  | nil => exact wp_pure _ (hok rfl)
  | cons e es => exact wp_fail _ (herr _ (by simp))

/-- One of the calls that stop a tunnel of the list is refused. -/
def StopRefused (G : Question → Answer → Prop) (a : Attempt) (names : List Str) : Prop :=
  ∃ n ∈ names, ¬Granted G ⟨a, .uninstallTunnel n⟩ ∨ ¬Granted G ⟨a, .waitForStop n⟩

theorem stopNativeTunnelsLocked_spec (names : List Str) :
    wp G (stopNativeTunnelsLocked a names) (fun r w' => Lowered names w w' ∧
      (r = .ok () → ∀ n ∈ names, w'.services.state n = .stopped) ∧
      ∀ e, r = .error e → StopRefused G a names) w := by
  have hsub : ∀ n ∈ sortStrings (names.filter (· ≠ [])).dedup, n ∈ names := by
    intro n hn
    rw [mem_sortStrings, List.mem_dedup] at hn
    exact List.mem_of_mem_filter hn
  refine (stopThenWait_spec a _ _).bind ?_ fun e w' h => by simp at h
  rintro es w' ⟨_, hes, hlow, hstopped, hrefused⟩
  cases hes
  have hlow := hlow.mono (List.append_subset.mpr ⟨hsub, hsub⟩)
  refine wp_finish es (fun hnil => ⟨hlow, fun _ n hn => ?_, fun e he => by cases he⟩)
    fun e hne => ⟨hlow, fun h => (by cases h), fun _ _ => ?_⟩
  · -- the empty name is left out, and no service has it
    by_cases hempty : n = []
    · by_contra hrun
      exact (w'.services.listed n hrun).1 hempty
    · refine hstopped n ?_ (Or.inl hnil)
      rw [mem_sortStrings, List.mem_dedup]
      exact List.mem_filter.mpr ⟨hn, by simpa using hempty⟩
  · rcases hrefused hne with ⟨n, hn, hg⟩ | ⟨n, hn, hg⟩
    · exact ⟨n, hsub n hn, Or.inl hg⟩
    · exact ⟨n, hsub n hn, Or.inr hg⟩

/-- Stopping everything either fails before it has touched anything, or it fails for one of the
tunnels that were reported as not stopped, or no service is left. -/
theorem stopAllNativeTunnels_spec :
    wp G (stopAllNativeTunnels a) (fun r w' => ∃ w₁, Missed (∃ n, Exits G (.state n)) w w₁ ∧
      (∃ t, Lowered t w₁ w') ∧ (r = .ok () → w'.services.AllStopped) ∧
      ∀ e, r = .error e → (w' = w₁ ∧ ClearRefused G a) ∨
        ∃ n, reported w n ≠ .stopped ∧ StopRefused G a [n]) w := by
  refine (nativeTunnelStates_spec a .state).bind ?_ ?_
  · rintro states w₁ ⟨hmissed, hstates, -⟩
    have hlisted := hstates states rfl
    have hservices : w₁.services = w.services := by rw [hmissed.frame]
    refine (stopNativeTunnelsLocked_spec a _).mono ?_
    rintro r w' ⟨hlow, hstopped, hrefused⟩
    refine ⟨w₁, hmissed, ⟨_, hlow⟩, fun hr n => ?_, fun e he => Or.inr ?_⟩
    · by_cases hrun : w.services.state n = .stopped
      · exact hlow.within n (by rw [hservices, hrun])
      · have hname : n ∈ states.map Prod.fst := by
          rw [hlisted.named]
          exact List.mem_dedup.mpr (List.mem_append_right _ (w.services.listed n hrun).2)
        obtain ⟨⟨m, st⟩, hmem, rfl⟩ := List.mem_map.mp hname
        refine hstopped hr m (List.mem_map.mpr ⟨(m, st), List.mem_filter.mpr ⟨hmem, ?_⟩, rfl⟩)
        rcases hlisted.seen m st hmem with rfl | rfl
        · simpa using reported_ne_stopped m hrun
        · simpa using hrun
    · obtain ⟨n, hn, hg⟩ := hrefused e he
      obtain ⟨⟨m, st⟩, hmem, rfl⟩ := List.mem_map.mp hn
      obtain ⟨hmem, hst⟩ := List.mem_filter.mp hmem
      refine ⟨m, ?_, m, List.mem_singleton_self m, hg⟩
      rcases hlisted.seen m st hmem with rfl | rfl
      · simpa using hst
      · exact reported_ne_stopped m (by simpa using hst)
  · rintro e w₁ ⟨hmissed, -, he⟩
    exact ⟨w₁, hmissed, ⟨[], Lowered.refl [] _⟩, fun h => (by cases h),
      fun _ _ => Or.inl ⟨rfl, he e rfl⟩⟩

end lowering

section native
variable {G : Question → Answer → Prop} {w : World} (a : Attempt)

/-- Nothing but the services has changed. -/
def OnlyServices (w w' : World) : Prop := ∃ v, w' = { w with services := v }

theorem OnlyServices.refl (w : World) : OnlyServices w w := ⟨w.services, rfl⟩

theorem OnlyServices.trans {w w' w'' : World} (h : OnlyServices w w') (h' : OnlyServices w' w'') :
    OnlyServices w w'' := by
  obtain ⟨v, rfl⟩ := h
  obtain ⟨v', rfl⟩ := h'
  exact ⟨v', rfl⟩

theorem Lowered.onlyServices {t : List Str} {w w' : World} (h : Lowered t w w') :
    OnlyServices w w' := ⟨_, h.frame⟩

theorem installTunnel_spec (n : Str) :
    wp G (installTunnel a n) (fun r w' => OnlyServices w w' ∧
      (∀ m, m ≠ n → w'.services.state m = w.services.state m) ∧
      (r = .ok () → n ≠ [] → (w'.services.state n).inUse = true) ∧
      ∀ e, r = .error e → SwitchRefused G a) w := by
  refine wp_must_bind (fun r hG hf => ?_) fun r e hG hf => ?_
  · refine wp_pure _ ⟨⟨_, rfl⟩, fun m hm => w.services.install_state_of_ne n m _ hm,
      fun _ hn => ?_, fun e he => by cases he⟩
    simp only [effect, hf, if_true]
    rw [w.services.install_state_self n _ hn]
    exact TunnelState.installed_inUse _
  · exact ⟨⟨_, rfl⟩, fun m hm => w.services.install_state_of_ne n m _ hm, fun h => (by cases h),
      fun _ _ => ⟨_, rfl, fun hgranted => hf (hgranted r hG)⟩⟩

theorem stopRefused_refused {names : List Str} (h : StopRefused G a names) : ClearRefused G a := by
  obtain ⟨n, -, hg | hg⟩ := h
  · exact ⟨_, rfl, rfl, hg⟩
  · exact ⟨_, rfl, rfl, hg⟩

/-- A switch that succeeds has stopped what it waited for, and it has installed its target when
the plan says so. One that fails has still stopped what it could wait for. -/
theorem executeNativeSwitch_spec (plan : NativeSwitchPlan) (n : Str) :
    wp G (executeNativeSwitch plan (uninstallTunnel a) (waitForStop a) (installTunnel a n))
      (fun r w' => OnlyServices w w' ∧
        (∀ m, m ≠ n → w.services.state m = .stopped ∨
          m ∈ plan.wait ∧ (r = .ok () ∨ Granted G ⟨a, .waitForStop m⟩) →
          w'.services.state m = .stopped) ∧
        (n ∉ plan.stop → n ∉ plan.wait → plan.install = false →
          w'.services.state n = w.services.state n) ∧
        (r = .ok () → plan.install = true → n ≠ [] → (w'.services.state n).inUse = true) ∧
        ∀ e, r = .error e → SwitchRefused G a) w := by
  refine (stopThenWait_spec a _ _).bind ?_ fun e w' h => by simp at h
  rintro es w₁ ⟨_, hes, hlow, hstopped, hrefused⟩
  cases hes
  have hsame : n ∉ plan.stop → n ∉ plan.wait → w₁.services.state n = w.services.state n :=
    fun hstop hwait => hlow.same n (by simp [hstop, hwait])
  refine wp_ite _ (fun hc => ?_) fun hc => ?_
  · refine (installTunnel_spec a n).mono ?_
    rintro r w₂ ⟨hserv, hother, hinstalled, he⟩
    refine ⟨hlow.onlyServices.trans hserv, fun m hmn hm => ?_, fun _ _ hinstall => ?_,
      fun hr _ => hinstalled hr, he⟩
    · rw [hother m hmn]
      rcases hm with hm | ⟨hm, -⟩
      · exact hlow.within m hm
      · exact hstopped m hm (Or.inl (List.isEmpty_iff.mp hc.1))
    · exact absurd hc.2 (by simp [hinstall])
  · refine wp_finish es (fun hnil => ⟨hlow.onlyServices, fun m _ hm => ?_,
      fun hstop hwait _ => hsame hstop hwait, fun _ hinstall => ?_, fun e he => by cases he⟩)
      fun e hne => ⟨hlow.onlyServices, fun m _ hm => ?_, fun hstop hwait _ => hsame hstop hwait,
        fun h => (by cases h), fun _ _ => ?_⟩
    · rcases hm with hm | ⟨hm, -⟩
      · exact hlow.within m hm
      · exact hstopped m hm (Or.inl hnil)
    · exact absurd ⟨by simp [hnil], hinstall⟩ hc
    · rcases hm with hm | ⟨hm, hgranted⟩
      · exact hlow.within m hm
      · exact hstopped m hm (Or.inr (hgranted.resolve_left fun h => by cases h))
    · rcases hrefused hne with ⟨m, -, hg⟩ | ⟨m, -, hg⟩
      · exact ⟨_, rfl, hg⟩
      · exact ⟨_, rfl, hg⟩

/-- A round of the restoration touches its own tunnel only. If the system lets it, a tunnel that was
in use before and is stopped now is started again. -/
structure RoundEnd (G : Question → Answer → Prop) (states : List (Str × TunnelState)) (n : Str)
    (w w' : World) : Prop where
  services : OnlyServices w w'
  others : ∀ m, m ≠ n → w'.services.state m = w.services.state m
  running : w.services.state n ≠ .stopped → w'.services.state n = w.services.state n
  back : (∀ st, Granted G ⟨.predecessor, st⟩) → (states.lookup n).any TunnelState.inUse = true →
    w.services.state n = .stopped → n ≠ [] → (w'.services.state n).inUse = true

theorem restoreStopped_spec (h : w.smartProcess = none) (states : List (Str × TunnelState)) (n : Str) :
    wp G (restoreStopped states n) (fun _ w' => RoundEnd G states n w w') w := by
  have hrefl (hno : (∀ st, Granted G ⟨.predecessor, st⟩) → (states.lookup n).any TunnelState.inUse = true →
      w.services.state n = .stopped → False) : RoundEnd G states n w w :=
    ⟨OnlyServices.refl w, fun _ _ => rfl, fun _ => rfl, fun hg huse hs _ => (hno hg huse hs).elim⟩
  refine wp_ite _ (fun _ => ?_) fun hnot => wp_pure _ (hrefl fun _ huse _ => hnot huse)
  refine (tunnelState_spec .predecessor .state n).bind ?_ ?_
  · rintro st w₁ ⟨hmissed, hst, -⟩
    obtain rfl := hmissed.of_none h
    have hst := (hst st rfl).trans (reported_of_none h n)
    refine wp_ite _ (fun hstopped => ?_) fun hrun => wp_pure _ (hrefl fun _ _ hs => hrun (hst.trans hs))
    refine wp.mapError (T := fun r w' => OnlyServices w₁ w' ∧
      (∀ m, m ≠ n → w'.services.state m = w₁.services.state m) ∧
      (r = .ok () → n ≠ [] → (w'.services.state n).inUse = true) ∧
      ∀ e, r = .error e → Refused G .predecessor) _ ?_ ?_ ?_
    · have hstop : ∀ (q : Step) (e : ManagerErr), ¬Granted G ⟨.predecessor, q⟩ → OnlyServices w₁ w₁ ∧
          (∀ m, m ≠ n → w₁.services.state m = w₁.services.state m) ∧
          ((.error e : Except ManagerErr Unit) = .ok () → n ≠ [] →
            (w₁.services.state n).inUse = true) ∧
          ∀ e', (.error e : Except ManagerErr Unit) = .error e' → Refused G .predecessor :=
        fun q e hg => ⟨OnlyServices.refl w₁, fun _ _ => rfl, fun he => (by cases he), fun _ _ => ⟨q, hg⟩⟩
      refine wp_quiet_bind (fun _ => rfl) (fun _ _ _ => ?_) fun e => hstop _ e
      refine wp_quiet_bind (fun _ => rfl) (fun _ _ _ => ?_) fun e => hstop _ e
      refine (installTunnel_spec .predecessor n).mono ?_
      rintro r w' ⟨hserv, hother, hinstalled, he⟩
      exact ⟨hserv, hother, hinstalled, fun e hr => (he e hr).refused⟩
    · rintro ⟨⟩ w' ⟨hserv, hother, hinstalled, -⟩
      exact ⟨hserv, hother, fun hrun => absurd (hst.symm.trans hstopped) hrun,
        fun _ _ _ hn => hinstalled rfl hn⟩
    · rintro e w' ⟨hserv, hother, -, he⟩
      refine ⟨hserv, hother, fun hrun => absurd (hst.symm.trans hstopped) hrun, fun hg => ?_⟩
      obtain ⟨q, hq⟩ := he e rfl
      exact absurd (hg q) hq
  · rintro e w₁ ⟨hmissed, -, he⟩
    obtain rfl := hmissed.of_none h
    refine hrefl fun hg _ _ => ?_
    obtain ⟨q, -, -, hq⟩ := he e rfl
    exact hq (hg q)

section plan

/-- Without an engine the plan waits for every service that runs beside the target. -/
theorem mem_plan_wait (h : w.smartProcess = none) (n m : Str) (hmn : m ≠ n)
    (hrun : w.services.state m ≠ .stopped) : m ∈ (planNativeSwitch n (listing w)).wait := by
  refine (mem_sortStrings _ m).mpr (List.mem_map.mpr ⟨_, List.mem_filter.mpr
    ⟨listing_of_running m hrun, ?_⟩, rfl⟩)
  rw [reported_of_none h]
  simpa [hmn] using hrun

theorem mem_plan_stop (h : w.smartProcess = none) (n m : Str) :
    m ∈ (planNativeSwitch n (listing w)).stop ↔ m ≠ n ∧ w.services.state m ≠ .stopped := by
  refine (mem_sortStrings _ m).trans ⟨fun hm => ?_, fun ⟨hmn, hrun⟩ => ?_⟩
  · obtain ⟨⟨k, st⟩, hmem, rfl⟩ := List.mem_map.mp hm
    obtain ⟨hmem, hcond⟩ := List.mem_filter.mp hmem
    rw [mem_listing k st hmem, reported_of_none h] at hcond
    simpa using hcond
  · refine List.mem_map.mpr ⟨_, List.mem_filter.mpr ⟨listing_of_running m hrun, ?_⟩, rfl⟩
    rw [reported_of_none h]
    simpa [hmn] using hrun

theorem plan_installs (n : Str) (h : reported w n = .stopped) :
    (planNativeSwitch n (listing w)).install = true := by
  simp only [planNativeSwitch, Bool.not_eq_true', List.any_eq_false]
  rintro ⟨m, st⟩ hmem
  rw [mem_listing m st hmem]
  by_cases hmn : m = n
  · simp [hmn, h]
  · simp [hmn]

/-- A target that is in use is neither stopped nor installed. -/
theorem plan_of_inUse (h : w.smartProcess = none) (n : Str)
    (huse : (w.services.state n).inUse = true) :
    n ∉ (planNativeSwitch n (listing w)).wait ∧ (planNativeSwitch n (listing w)).install = false := by
  have hrun := TunnelState.ne_stopped huse
  have hst : w.services.state n = .started ∨ w.services.state n = .starting := by
    simpa [TunnelState.inUse] using huse
  refine ⟨fun hwait => ?_, ?_⟩
  · obtain ⟨⟨m, st⟩, hmem, rfl⟩ := List.mem_map.mp ((mem_sortStrings _ n).mp hwait)
    obtain ⟨hmem, hcond⟩ := List.mem_filter.mp hmem
    rw [mem_listing m st hmem, reported_of_none h] at hcond
    rcases hst with hst | hst <;> simp [hst] at hcond
  · simp only [planNativeSwitch, Bool.not_eq_false', List.any_eq_true]
    refine ⟨_, listing_of_running n hrun, ?_⟩
    rw [reported_of_none h]
    rcases hst with hst | hst <;> simp [hst]

theorem lookup_listing (h : w.smartProcess = none) (n : Str) (hrun : w.services.state n ≠ .stopped) :
    (listing w).lookup n = some (w.services.state n) := by
  have hmem : n ∈ nameSet w := by
    obtain ⟨⟨m, st⟩, hmem, heq⟩ : ∃ p ∈ listing w, p = (n, reported w n) :=
      ⟨_, listing_of_running n hrun, rfl⟩
    cases heq
    obtain ⟨k, hk, heq⟩ := List.mem_map.mp hmem
    cases heq
    exact hk
  have hlookup : ∀ names : List Str, n ∈ names →
      (names.map fun m => (m, reported w m)).lookup n = some (reported w n) := by
    intro names hn
    induction names with
    | nil => cases hn
    | cons m rest ih =>
      by_cases hmn : n = m
      · subst hmn
        simp
      · rw [List.map_cons, List.lookup_cons, beq_eq_false_iff_ne.mpr hmn]
        exact ih ((List.mem_cons.mp hn).resolve_left hmn)
  rw [← reported_of_none h]
  exact hlookup (nameSet w) hmem

end plan

/-- What a failed switch has not taken away, as long as the calls for it are granted. -/
structure Kept (G : Question → Answer → Prop) (a : Attempt) (name : Str) (v v' : Services) : Prop where
  back : (∀ st, Granted G ⟨.predecessor, st⟩) → ∀ p, (v.state p).inUse = true →
    Granted G ⟨a, .waitForStop p⟩ → (v'.state p).inUse = true
  others : (∀ m, m ≠ name → v.state m = .stopped) → ∀ m, m ≠ name → v'.state m = .stopped

theorem Kept.refl (n : Str) (v : Services) : Kept G a n v v where
  back := fun _ _ h _ => h
  others := fun h => h

/-- In the loop after a failed switch a tunnel is stopped until its round comes, and in use after it. -/
structure Rounds (G : Question → Answer → Prop) (a : Attempt) (n : Str) (w w₁ : World)
    (done : List Str) (u : World) : Prop where
  services : OnlyServices w u
  target : u.services.state n = w₁.services.state n
  others : ∀ m, m ≠ n → w.services.state m = .stopped → u.services.state m = .stopped
  back : (∀ st, Granted G ⟨.predecessor, st⟩) → ∀ p, p ≠ n → (w.services.state p).inUse = true →
    Granted G ⟨a, .waitForStop p⟩ → (u.services.state p).inUse = true ∨
      u.services.state p = .stopped ∧ p ∉ done

/-- A round, whether it ends with an error or not. -/
theorem Rounds.round {w₁ u u' : World} {n m : Str} {done : List Str}
    (h : Rounds G a n w w₁ done u) (hmn : m ≠ n) (hrun : w.services.state m ≠ .stopped)
    (hlookup : (listing w).lookup m = some (w.services.state m))
    (hm : RoundEnd G (listing w) m u u') : Rounds G a n w w₁ (done ++ [m]) u' := by
  refine ⟨h.services.trans hm.services, (hm.others n hmn.symm).trans h.target, fun k hkn hk => ?_,
    fun hg p hpn huse hwait => ?_⟩
  · have hkm : k ≠ m := fun heq => hrun (heq ▸ hk)
    rw [hm.others k hkm]
    exact h.others k hkn hk
  · by_cases hpm : p = m
    · subst hpm
      left
      rcases h.back hg p hpn huse hwait with hp | ⟨hp, -⟩
      · rw [hm.running (TunnelState.ne_stopped hp)]
        exact hp
      · refine hm.back hg ?_ hp (w.services.listed p hrun).1
        rw [hlookup]
        exact huse
    · rw [hm.others p hpm]
      refine (h.back hg p hpn huse hwait).imp_right fun hp => ⟨hp.1, ?_⟩
      simp [hp.2, hpm]

/-- The loop after a failed switch: what was in use before is in use again. -/
theorem restoreStopped_all (h : w.smartProcess = none) (n : Str) {w₁ : World} (hw₁ : OnlyServices w w₁)
    (hdown : ∀ m, m ≠ n → w.services.state m = .stopped ∨
      m ∈ (planNativeSwitch n (listing w)).wait ∧ Granted G ⟨a, .waitForStop m⟩ →
      w₁.services.state m = .stopped)
    (htarget : (w.services.state n).inUse = true → w₁.services.state n = w.services.state n) :
    wp G (Prog.gather (restoreStopped (listing w)) (planNativeSwitch n (listing w)).stop)
      (fun r w' => (∃ es, r = .ok es) ∧ OnlyServices w w' ∧ Kept G a n w.services w'.services) w₁ := by
  have hnone : ∀ u, OnlyServices w u → u.smartProcess = none := by
    rintro u ⟨v, rfl⟩
    exact h
  refine (wp_gather _ (fun done _ u => Rounds G a n w w₁ done u) _ [] []
    ⟨hw₁, rfl, fun m hmn hm => hdown m hmn (Or.inl hm), ?_⟩ ?_).mono ?_
  · intro _ p hpn huse hwait
    have hmem := mem_plan_wait h n p hpn (TunnelState.ne_stopped huse)
    exact Or.inr ⟨hdown p hpn (Or.inr ⟨hmem, hwait⟩), by simp⟩
  · intro done es u m hm hu
    obtain ⟨hmn, hrun⟩ := (mem_plan_stop h n m).mp hm
    refine (restoreStopped_spec (hnone u hu.services) _ m).mono fun r u' hround => ?_
    have hu' := hu.round a hmn hrun (lookup_listing h m hrun) hround
    exact ⟨fun _ => hu', fun _ _ => hu'⟩
  · rintro r w' ⟨es, rfl, hw'⟩
    refine ⟨⟨es, rfl⟩, hw'.services, fun hg p huse hwait => ?_,
      fun hall m hmn => hw'.others m hmn (hall m hmn)⟩
    by_cases hpn : p = n
    · subst hpn
      rw [hw'.target, htarget huse]
      exact huse
    · refine (hw'.back hg p hpn huse hwait).resolve_right fun hp => hp.2 ?_
      exact (mem_plan_stop h n p).mpr ⟨hpn, TunnelState.ne_stopped huse⟩

theorem switchNative_spec (h : w.smartProcess = none) (n : Str) :
    wp G (switchNative a n) (fun r w' => OnlyServices w w' ∧
      (r = .ok () → ∀ m, m ≠ n → w'.services.state m = .stopped) ∧
      (r = .ok () → w.services.state n = .stopped → n ≠ [] → (w'.services.state n).inUse = true) ∧
      ∀ e, r = .error e → SwitchRefused G a ∧ Kept G a n w.services w'.services) w := by
  refine (nativeTunnelStates_spec a .state).bind ?_ ?_
  · rintro states w₁ ⟨hmissed, hstates, -⟩
    obtain rfl := hmissed.of_none h
    have hstates : states = listing w₁ := (hstates states rfl).same rfl
    rw [hstates]
    refine (executeNativeSwitch_spec a _ n).attempt_bind ?_
    rintro (e | ⟨⟩) w' ⟨hserv, hdown, htarget, hinstalled, hrefused⟩
    · refine (restoreStopped_all a h n hserv (fun m hmn hm => hdown m hmn ?_) fun huse => ?_).bind ?_
        fun e w'' hw => by simp at hw
      · exact hm.imp_right fun hm => ⟨hm.1, Or.inr hm.2⟩
      · obtain ⟨hwait, hinstall⟩ := plan_of_inUse h n huse
        exact htarget (fun hstop => ((mem_plan_stop h n n).mp hstop).1 rfl) hwait hinstall
      · rintro es w'' ⟨-, hw'', hkept⟩
        exact wp_finish _ (fun hnil => by simp at hnil) fun _ _ => ⟨hw'', fun h => (by cases h),
          fun h => (by cases h), fun _ _ => ⟨hrefused e rfl, hkept⟩⟩
    · refine wp_pure _ ⟨hserv, fun _ m hmn => hdown m hmn ?_, fun _ hn hne => ?_,
        fun e he => by cases he⟩
      · by_cases hrun : w₁.services.state m = .stopped
        · exact Or.inl hrun
        · exact Or.inr ⟨mem_plan_wait h n m hmn hrun, Or.inl rfl⟩
      · exact hinstalled rfl (plan_installs n (by rw [reported_of_none h, hn])) hne
  · rintro e w₁ ⟨hmissed, -, he⟩
    obtain rfl := hmissed.of_none h
    exact ⟨OnlyServices.refl w₁, fun h => (by cases h), fun h => (by cases h),
      fun _ _ => ⟨(he e rfl).switch, Kept.refl a n _⟩⟩

theorem clearSmartDesired_spec :
    wp G (clearSmartDesired a) (fun r w' => (r = .ok () ∧ w' = { w with desired := none }) ∨
      ∃ e, r = .error e ∧ w' = w ∧ ¬Granted G ⟨a, .removeDesired⟩) w := by
  refine wp_must_bind (fun r hG hf => ?_) fun r e hG hf => ?_
  · refine wp_pure _ (Or.inl ⟨rfl, ?_⟩)
    simp only [effect, hf, if_true]
  · refine Or.inr ⟨e, rfl, ?_, fun hgranted => hf (hgranted r hG)⟩
    simp only [effect, hf, if_false]

/-- How the start of a native tunnel ends. Only services change when it fails, and not even those
while an engine runs; when it succeeds no engine was running, the other services are stopped and
no desired state is left. -/
inductive NativeEnd (G : Question → Answer → Prop) (a : Attempt) (name : Str) (w : World) :
    Except ManagerErr Unit → World → Prop
  | failed (e : ManagerErr) (v : Services) (h : w.smartProcess ≠ none → v = w.services)
    (why : SwitchRefused G a ∨ ¬Granted G ⟨a, .removeDesired⟩ ∨ w.smartProcess ≠ none)
    (others : (∀ m, m ≠ name → w.services.state m = .stopped) → ∀ m, m ≠ name → v.state m = .stopped)
    (kept : Granted G ⟨a, .removeDesired⟩ → Kept G a name w.services v) :
    NativeEnd G a name w (.error e) { w with services := v }
  | started (v : Services) (h : w.smartProcess = none)
    (others : ∀ m, m ≠ name → v.state m = .stopped)
    (target : w.services.state name = .stopped → name ≠ [] → (v.state name).inUse = true) :
    NativeEnd G a name w (.ok ()) { w with services := v, desired := none }

theorem NativeEnd.unchanged {n : Str} (e : ManagerErr)
    (why : SwitchRefused G a ∨ ¬Granted G ⟨a, .removeDesired⟩ ∨ w.smartProcess ≠ none) :
    NativeEnd G a n w (.error e) w :=
  .failed e w.services (fun _ => rfl) why (fun h => h) fun _ => Kept.refl a n _

/-- An engine that has exited before it is looked for is missed first. -/
theorem startNativeUnlocked_spec (n : Str) :
    wp G (startNativeUnlocked a n) (fun r w' => ∃ w₀, Missed (Exits G .anyStarted) w w₀ ∧
      NativeEnd G a n w₀ r w') w := by
  have hstop : ∀ (q : Step) (e : ManagerErr), q.switches = true → ¬Granted G ⟨a, q⟩ →
      ∃ w₀, Missed (Exits G .anyStarted) w w₀ ∧ NativeEnd G a n w₀ (.error e) w :=
    fun q e hq hg => ⟨w, Missed.refl _ w, .unchanged a e (Or.inl ⟨q, hq, hg⟩)⟩
  refine wp_quiet_bind (fun _ => rfl) (fun _ _ _ => ?_) fun e => hstop _ e rfl
  refine wp_quiet_bind (fun _ => rfl) (fun _ _ _ => ?_) fun e => hstop _ e rfl
  refine wp_quiet_bind (fun _ => rfl) (fun _ _ _ => ?_) fun e => hstop _ e rfl
  refine wp_lock_bind a .anyStarted fun w₀ hmissed => ?_
  suffices hend : ∀ {m : Op Unit}, wp G m (NativeEnd G a n w₀) w₀ →
      wp G m (fun r w' => ∃ w₀, Missed (Exits G .anyStarted) w w₀ ∧ NativeEnd G a n w₀ r w') w₀ by
    refine hend (wp_ite _ (fun hsome => ?_) fun hnone => ?_)
    · refine wp_fail _ (.unchanged a _ (Or.inr (Or.inr fun h => ?_)))
      rw [smartAnyStarted, h] at hsome
      cases hsome
    have h : w₀.smartProcess = none := by simpa [smartAnyStarted] using hnone
    refine (switchNative_spec a h n).bind ?_ ?_
    · rintro ⟨⟩ _ ⟨⟨v, rfl⟩, hothers, htarget, -⟩
      refine (clearSmartDesired_spec a).attempt_bind ?_
      rintro r w' (⟨rfl, rfl⟩ | ⟨e, rfl, rfl, hg⟩)
      · exact wp_pure _ (.started v h (hothers rfl) (htarget rfl))
      · refine (stopNativeTunnelsLocked_spec a [n]).attempt_bind ?_
        rintro r w' ⟨hlow, -⟩
        obtain ⟨v', hv'⟩ := hlow.onlyServices
        have hothers' : ∀ m, m ≠ n → v'.state m = .stopped := fun m hmn => by
          have := hlow.within m (hothers rfl m hmn)
          rwa [hv'] at this
        subst hv'
        cases r with
        | ok => exact wp_fail _ (.failed _ v' (fun hsome => absurd h hsome) (Or.inr (Or.inl hg))
            (fun _ => hothers') fun hgranted => absurd hgranted hg)
        | error e => exact wp_fail _ (.failed _ v' (fun hsome => absurd h hsome) (Or.inr (Or.inl hg))
            (fun _ => hothers') fun hgranted => absurd hgranted hg)
    · rintro e _ ⟨⟨v, rfl⟩, -, -, hrefused⟩
      obtain ⟨hswitch, hkept⟩ := hrefused e rfl
      exact .failed e v (fun hsome => absurd h hsome) (Or.inl hswitch) hkept.others fun _ => hkept
  exact fun hm => hm.mono fun r w' hend => ⟨w₀, hmissed, hend⟩

end native

end SmartAwg.Manager
