import SmartAwg.SmartSettings
import SmartAwg.Fallible

/-!
What the manager service controls and what it asks of the system: the native tunnel services, the
engine processes, the file with the desired state and the filters of the guard. Every call into
the system is a question; the answer says whether the call failed and what it left behind.
-/

namespace SmartAwg.Manager

open Go Smart Fallible

section state

inductive TunnelState where
  | unknown
  | started
  | stopped
  | starting
  | stopping
  deriving DecidableEq

/-- The states in which a tunnel counts as a predecessor. -/
def TunnelState.inUse (st : TunnelState) : Bool := st = .started || st = .starting

theorem TunnelState.ne_stopped {st : TunnelState} (h : st.inUse = true) : st ≠ .stopped := by
  rintro rfl
  cases h

/-- The native tunnel services; those without a service are stopped. Every service that is not
stopped is among the tracked names, and no tunnel is named by the empty text. -/
structure Services where
  names : List Str
  state : Str → TunnelState
  listed : ∀ n, state n ≠ .stopped → n ≠ [] ∧ n ∈ names

/-- One service comes into a new state. -/
def Services.set (v : Services) (n : Str) (hn : n ≠ []) (st : TunnelState) : Services where
  names := if n ∈ v.names then v.names else v.names ++ [n]
  state := Function.update v.state n st
  listed := by
    intro m hm
    by_cases hmn : m = n
    · subst hmn
      refine ⟨hn, ?_⟩
      split
      · assumption
      · simp
    · rw [Function.update_of_ne hmn] at hm
      obtain ⟨hne, hv⟩ := v.listed m hm
      refine ⟨hne, ?_⟩
      split
      · exact hv
      · simp [hv]

def Services.install (v : Services) (n : Str) (st : TunnelState) : Services :=
  if hn : n = [] then v else v.set n hn st

/-- A service on its way down can be left in any state, but a stopped one does not start. -/
def Services.settle (v : Services) (n : Str) (left : TunnelState) : Services :=
  if h : v.state n = .stopped then v else v.set n (v.listed n h).1 left

def Services.AllStopped (v : Services) : Prop := ∀ n, v.state n = .stopped

theorem Services.install_state_self (v : Services) (n : Str) (st : TunnelState) (hn : n ≠ []) :
    (v.install n st).state n = st := by
  rw [Services.install, dif_neg hn]
  exact Function.update_self ..

theorem Services.install_state_of_ne (v : Services) (n m : Str) (st : TunnelState) (h : m ≠ n) :
    (v.install n st).state m = v.state m := by
  unfold Services.install
  split
  · rfl
  · exact Function.update_of_ne h ..

theorem Services.settle_state_of_ne (v : Services) (n m : Str) (left : TunnelState) (h : m ≠ n) :
    (v.settle n left).state m = v.state m := by
  unfold Services.settle
  split
  · rfl
  · exact Function.update_of_ne h ..

theorem Services.settle_of_stopped (v : Services) (n m : Str) (left : TunnelState)
    (h : v.state m = .stopped) : (v.settle n left).state m = .stopped := by
  by_cases hmn : m = n
  · subst hmn
    rw [Services.settle, dif_pos h, h]
  · rw [Services.settle_state_of_ne v n m left hmn, h]

theorem Services.settle_stopped (v : Services) (n : Str) :
    (v.settle n .stopped).state n = .stopped := by
  unfold Services.settle
  split
  · assumption
  · exact Function.update_self ..

/-- `smartProcessState`: an engine process with the tunnel and the settings it was started for.
The number stands for the process object; no two processes have the same. -/
structure SmartProcess where
  tunnelName : Str
  settings : RoutingSettings
  pid : Nat
  smart : usesNativeTunnel settings = false

/-- `smartDesiredState`, as far as it is read again. -/
structure DesiredState where
  tunnelName : Str
  settings : RoutingSettings
  deriving DecidableEq

/-- `Protection = "all"`. -/
def Protected (s : RoutingSettings) : Prop := s.protection = ascii "all"

instance (s : RoutingSettings) : Decidable (Protected s) :=
  inferInstanceAs (Decidable (s.protection = ascii "all"))

/-- What the operations change. The guard holds the interface it lets through (0 for none) while
its blocking filters are installed; `spawned` counts the engines started so far. -/
structure World where
  services : Services
  profiles : List Str
  engines : List Nat
  spawned : Nat
  smartProcess : Option SmartProcess
  desired : Option DesiredState
  guard : Option Nat
  suspended : Bool

/-- The processes that are left once an engine is gone. -/
def leftOver (process : Option SmartProcess) (engines : List Nat) : List Nat :=
  match process with
  | none => engines
  | some process => engines.filter (· ≠ process.pid)

/-- The world once its engine is gone and no longer recorded. -/
def World.detached (w : World) : World :=
  { w with smartProcess := none, engines := leftOver w.smartProcess w.engines }

theorem World.detached_of_none {w : World} (h : w.smartProcess = none) : w.detached = w := by
  obtain ⟨services, profiles, engines, spawned, process, desired, guard, suspended⟩ := w
  obtain rfl : process = none := h
  rfl

@[simp] theorem World.detached_detached (w : World) : w.detached.detached = w.detached :=
  World.detached_of_none rfl

end state

section questions

/-- The errors that the code tells apart. -/
inductive Fault where
  | serviceMarkedForDelete
  | serviceDoesNotExist
  | processDone
  | other
  deriving DecidableEq

/-- Where `smartProcessLock` is taken. Between two of these places the goroutine that waits for the
recorded engine may find that it has exited. -/
inductive Place where
  /-- `State` of a tunnel, while `smartStartLocked` lists the tunnels. -/
  | list (name : Str)
  /-- `smartStateForTunnel`, while it looks for a predecessor in the list. -/
  | loop (name : Str)
  /-- The engine that a start would return to is read. -/
  | prior
  /-- The engine is taken out to be stopped. -/
  | detach
  | state (name : Str)
  | anyStarted
  | beforeStop
  | matchesStop
  | healthy
  deriving DecidableEq

/-- The calls that can fail, and the taking of the lock, which cannot. -/
inductive Step where
  | preflight
  | loadConfig (name : Str)
  | configPath (name : Str)
  | deleteConfig (name : Str)
  | listConfigNames
  | queryService (name : Str)
  | installTunnel (name : Str)
  | uninstallTunnel (name : Str)
  | waitForStop (name : Str)
  | buildConfig (name : Str)
  | diagnosticListener
  | diagnosticInbound
  | smartPaths (name : Str)
  | writeConfig
  | findEngine
  | checkEngine
  | rotateLog
  | openLog
  | startProcess
  | assignToJob (pid : Nat)
  | waitForInterface (pid : Nat)
  | kill (pid : Nat)
  | interfaceByName
  | luidFromIndex
  | setGuard (luid : Nat)
  | clearGuard
  | readDesired
  | writeDesired (d : DesiredState)
  | removeDesired
  | physicalNetwork
  | lock (place : Place)
  deriving DecidableEq

def Step.place : Step → Option Place
  | .lock place => some place
  | _ => none

/-- Whether a call belongs to what was asked for or to bringing a predecessor back. -/
inductive Attempt where
  | target
  | predecessor
  deriving DecidableEq

structure Question where
  attempt : Attempt
  step : Step
  deriving DecidableEq

/-- The error of a call, if any, and what it found or left: the state of the service it was made
for, the interface, whether the interface or the network is up, and whether the engine has exited
since the lock was held last. -/
structure Answer where
  fault : Option Fault
  left : TunnelState
  luid : Nat
  up : Bool
  exited : Bool

/-- A tunnel that was installed is running or about to. -/
def TunnelState.installed (st : TunnelState) : TunnelState :=
  if st = .starting then .starting else .started

theorem TunnelState.installed_inUse (st : TunnelState) : st.installed.inUse = true := by
  cases st <;> rfl

/-- What a call does to the world. A process that was killed is waited for, so it is gone even
when the kill reported an error; the two changes of the guard and the writing of the desired state
are transactions. -/
def effect (a : Answer) (w : World) : Step → World
  | .installTunnel n =>
    { w with services :=
        w.services.install n (if a.fault = none then a.left.installed else a.left) }
  | .uninstallTunnel n => { w with services := w.services.settle n a.left }
  | .waitForStop n =>
    { w with services := w.services.settle n (if a.fault = none then .stopped else a.left) }
  | .startProcess =>
    if a.fault = none then { w with engines := w.spawned :: w.engines, spawned := w.spawned + 1 }
    else w
  | .kill pid => { w with engines := w.engines.filter (· ≠ pid) }
  | .setGuard luid => if a.fault = none then { w with guard := some luid } else w
  | .clearGuard => if a.fault = none then { w with guard := none } else w
  | .writeDesired d => if a.fault = none then { w with desired := some d } else w
  | .removeDesired => if a.fault = none then { w with desired := none } else w
  | .deleteConfig n =>
    if a.fault = none then { w with profiles := w.profiles.filter (· ≠ n) } else w
  | .lock _ => if a.exited then w.detached else w
  | _ => w

inductive ManagerErr where
  | os (step : Step) (fault : Fault)
  | settings (e : SmartErr)
  | text (msg : String)
  | wrap (msg : String) (e : ManagerErr)
  | named (msg : String) (name : Str) (e : ManagerErr)
  | join (es : List ManagerErr)

/-- `errors.Join`: no error when all are nil. -/
def joinErrors (es : List ManagerErr) : Option ManagerErr := if es.isEmpty then none else some (.join es)

abbrev Op := Prog Question Answer World ManagerErr

/-- A call with its effect; the caller looks at the error itself. -/
def os (q : Question) : Op Answer := do
  let a ← Prog.ask q
  Prog.change fun w => effect a w q.step
  return a

/-- A call whose error is returned. -/
def must (q : Question) : Op Answer := do
  let a ← os q
  match a.fault with
  | none => return a
  | some fault => Prog.fail (.os q.step fault)

/-- Takes the lock and reads the world: a missed engine is no longer recorded then. The lock is no
call, so the answers to the calls stay the same. -/
def lock (a : Attempt) (place : Place) : Op World := do
  let r ← Prog.peek ⟨a, .lock place⟩
  Prog.change fun w => effect r w (.lock place)
  Prog.read

end questions

section specs
variable {G : Question → Answer → Prop} {w : World}

/-- What the feeds that keep to `G` never refuse. -/
def Granted (G : Question → Answer → Prop) (q : Question) : Prop := ∀ a, G q a → a.fault = none

/-- Some feed that keeps to `G` lets the engine exit before the lock is taken there. -/
def Exits (G : Question → Answer → Prop) (place : Place) : Prop :=
  ∃ a r, G ⟨a, .lock place⟩ r ∧ r.exited = true

/-- No engine exits while the calls are made. -/
def Still (G : Question → Answer → Prop) : Prop := ∀ place, ¬Exits G place

/-- The same world, or the one in which the engine has been missed, which takes an exit. -/
def Missed (exit : Prop) (w w' : World) : Prop := w' = w ∨ exit ∧ w' = w.detached

section missed
variable {exit exit' : Prop} {w' w'' : World}

theorem Missed.refl (exit : Prop) (w : World) : Missed exit w w := Or.inl rfl

theorem Missed.mono (h : Missed exit w w') (himp : exit → exit') : Missed exit' w w' :=
  h.imp_right fun hexit => ⟨himp hexit.1, hexit.2⟩

theorem Missed.of_not (h : Missed exit w w') (hno : ¬exit) : w' = w :=
  h.resolve_right fun hexit => hno hexit.1

theorem Missed.of_none (h : Missed exit w w') (hnone : w.smartProcess = none) : w' = w := by
  rcases h with rfl | ⟨-, rfl⟩
  · rfl
  · exact World.detached_of_none hnone

theorem Missed.trans (h : Missed exit w w') (h' : Missed exit w' w'') : Missed exit w w'' := by
  rcases h with rfl | ⟨hexit, rfl⟩
  · exact h'
  · exact Or.inr ⟨hexit, h'.of_none rfl⟩

/-- Nothing but the engine is different. -/
theorem Missed.frame (h : Missed exit w w') :
    w' = { w with smartProcess := w'.smartProcess, engines := w'.engines } := by
  rcases h with rfl | ⟨-, rfl⟩ <;> rfl

theorem Missed.detached (h : Missed exit w w') : w'.detached = w.detached := by
  rcases h with rfl | ⟨-, rfl⟩
  · rfl
  · exact World.detached_detached w

/-- An engine that is recorded afterwards was so before, and then nothing was missed. -/
theorem Missed.of_some (h : Missed exit w w') {process : SmartProcess}
    (hsome : w'.smartProcess = some process) : w' = w := by
  rcases h with rfl | ⟨-, rfl⟩
  · rfl
  · cases hsome

end missed

theorem lock_spec (a : Attempt) (place : Place) :
    wp G (lock a place) (fun r w' => r = .ok w' ∧ Missed (Exits G place) w w') w := by
  refine (wp_peek _ fun r hr => ?_ : wp G _ (fun r w' => ∃ ans, r = .ok ans ∧
    G ⟨a, .lock place⟩ ans ∧ w' = w) w).bind ?_ ?_
  · exact ⟨r, rfl, hr, rfl⟩
  · rintro r w ⟨_, hr, hG, rfl⟩
    cases hr
    refine wp.change_bind ((wp.read_bind (wp_pure _ ⟨rfl, rfl⟩) : wp G Prog.read
      (fun r' w' => r' = .ok (effect r w (.lock place)) ∧ w' = effect r w (.lock place)) _).mono ?_)
    rintro r' w' ⟨rfl, rfl⟩
    refine ⟨rfl, ?_⟩
    cases hexit : r.exited with
    | false => exact Or.inl (by simp [effect, hexit])
    | true => exact Or.inr ⟨⟨a, r, hG, hexit⟩, by simp [effect, hexit]⟩
  · rintro e w' ⟨_, hr, -⟩
    cases hr

theorem wp_lock_bind {β : Type} {k : World → Op β} {R : Except ManagerErr β → World → Prop}
    (a : Attempt) (place : Place)
    (h : ∀ w', Missed (Exits G place) w w' → wp G (k w') R w') : wp G (lock a place >>= k) R w := by
  refine (lock_spec a place).bind ?_ fun e w' hend => by simp at hend
  rintro u w' ⟨hu, hmissed⟩
  obtain rfl := Except.ok.inj hu
  exact h u hmissed

theorem os_spec (q : Question) :
    wp G (os q) (fun r w' => ∃ a, r = .ok a ∧ G q a ∧ w' = effect a w q.step) w := by
  refine (wp_ask q fun a ha => ?_ : wp G _ (fun r w' => ∃ a, r = .ok a ∧ G q a ∧ w' = w) w).bind
    ?_ ?_
  · exact ⟨a, rfl, ha, rfl⟩
  · rintro a _ ⟨_, ha, hG, rfl⟩
    cases ha
    exact wp.change_bind (wp_pure _ ⟨a, rfl, hG, rfl⟩)
  · rintro e w' ⟨a, ha, -⟩
    cases ha

theorem wp_must {R : Except ManagerErr Answer → World → Prop} (q : Question)
    (hok : ∀ a, G q a → a.fault = none → R (.ok a) (effect a w q.step))
    (herr : ∀ a e, G q a → a.fault ≠ none → R (.error e) (effect a w q.step)) :
    wp G (must q) R w := by
  refine (os_spec q).bind ?_ fun e w' h => by simp at h
  rintro a w' ⟨_, ha, hG, rfl⟩
  cases ha
  cases hf : a.fault with
  | none => exact wp_pure _ (hok a hG hf)
  | some fault => exact wp_fail _ (herr a _ hG (by simp [hf]))

variable {β : Type} {k : Answer → Op β} {R : Except ManagerErr β → World → Prop}

theorem wp_must_bind {q : Question}
    (hok : ∀ a, G q a → a.fault = none → wp G (k a) R (effect a w q.step))
    (herr : ∀ a e, G q a → a.fault ≠ none → R (.error e) (effect a w q.step)) :
    wp G (must q >>= k) R w := by
  refine (wp_must q (R := fun r w' => (∀ a, r = .ok a → wp G (k a) R w') ∧
    ∀ e, r = .error e → R (.error e) w') ?_ ?_).bind (fun a w' h => h.1 a rfl) fun e w' h => h.2 e rfl
  · intro a hG hf
    refine ⟨fun b hb => ?_, fun e he => ?_⟩
    · cases hb
      exact hok a hG hf
    · cases he
  · intro a e hG hf
    refine ⟨fun b hb => ?_, fun e he => ?_⟩
    · cases hb
    · cases he
      exact herr a e hG hf

/-- A call that changes nothing. -/
theorem wp_quiet_bind {q : Question} (hq : ∀ a, effect a w q.step = w)
    (hok : ∀ a, G q a → a.fault = none → wp G (k a) R w)
    (herr : ∀ e, ¬Granted G q → R (.error e) w) : wp G (must q >>= k) R w := by
  refine wp_must_bind (fun a hG hf => ?_) fun a e hG hf => ?_
  · rw [hq a]
    exact hok a hG hf
  · rw [hq a]
    exact herr e fun hgranted => hf (hgranted a hG)

theorem wp_quiet_mapError {q : Question} (g : ManagerErr → ManagerErr)
    (hq : ∀ a, effect a w q.step = w) :
    wp G ((must q).mapError g) (fun r w' => w' = w ∧ ∀ e, r = .error e → ¬Granted G q) w := by
  refine wp.mapError (T := fun r w' => w' = w ∧ ∀ e, r = .error e → ¬Granted G q) g ?_ (fun _ _ h => h)
    fun e _ h => ⟨h.1, fun _ _ => h.2 e rfl⟩
  refine wp_must q (fun a _ _ => ⟨hq a, fun e he => by cases he⟩) fun a e hG hf => ?_
  exact ⟨hq a, fun _ _ hgranted => hf (hgranted a hG)⟩

end specs

end SmartAwg.Manager
