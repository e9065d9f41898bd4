import SmartAwg.ManagerSmart

/-!
How `smartStartLocked` can end. The two relations say what every way out leaves behind; what holds
of all ways out is proved by going through their cases.
-/

namespace SmartAwg.Manager

open Go Smart Fallible

section ends
variable (G : Question → Answer → Prop) (env : Env) (a : Attempt) (name : Str)
  (s : RoutingSettings) (persist : Bool)

/-- What starting a predecessor again leads to. -/
abbrev Back := SmartProcess → World → Except ManagerErr Unit → World → Prop

/-- The world at the launch: the services stopped and the provisional guard raised. -/
def World.cleared (w : World) (v : Services) (s : RoutingSettings) : World :=
  { w with services := v, guard := if Protected s then some 0 else w.guard }

/-- The guard after a failed attempt to stop the services, for the tunnel and the engine that the
start would return to. -/
structure ReleasedGuard (prior : Option Str) (engine : Option SmartProcess) (before g : Option Nat) :
    Prop where
  open_same : ¬Protected s → g = before
  alone : Protected s → prior = none → engine = none → g ≠ none
  closed : Protected s → (∃ process, engine = some process ∧ Protected process.settings) → g ≠ none
  lifted : Protected s → prior ≠ none → engine = none → Granted G ⟨a, .clearGuard⟩ → g = none

/-- The ends of a start with an engine, once it is known what the start would return to: the native
tunnel `prior` or the engine recorded in `w`. -/
inductive SmartEnd (prior : Option Str) (back : Back) (w : World) :
    Except ManagerErr Unit → World → Prop
  | unguarded (e : ManagerErr) (why : Refused G a) : SmartEnd prior back w (.error e) w
  | unstopped (e : ManagerErr) (w₁ : World) (v : Services) (g : Option Nat) (touched : List Str)
    (missed : Missed (∃ place, Exits G place) w w₁) (low : Lowered touched w { w with services := v })
    (why : LateRefused G a)
    (cause : v = w.services ∨ ∃ n, reported w n ≠ .stopped ∧ StopRefused G a [n])
    (released : ReleasedGuard G a s prior w.smartProcess w.guard g) :
    SmartEnd prior back w (.error e) { w₁ with services := v, guard := g }
  | alone (e cause : ManagerErr) (v : Services) (w₁ : World) (hprior : prior = none)
    (hnone : w.smartProcess = none) (hv : v.AllStopped)
    (launch : LaunchEnd G env a name s persist (w.cleared v s) (.error cause) w₁) :
    SmartEnd prior back w (.error e) w₁
  | restored (e cause : ManagerErr) (v : Services) (w₁ w' : World) (process : SmartProcess)
    (r : Except ManagerErr Unit) (hprior : prior = none) (hsome : w.smartProcess = some process)
    (hv : v.AllStopped)
    (launch : LaunchEnd G env a name s persist (w.cleared v s) (.error cause) w₁)
    (hback : back process w₁ r w') :
    SmartEnd prior back w (.error e) w'
  | native (e cause : ManagerErr) (v : Services) (w₁ w' : World) (n : Str) (g : Option Nat)
    (r : Except ManagerErr Unit) (hprior : prior = some n) (hv : v.AllStopped)
    (launch : LaunchEnd G env a name s persist (w.cleared v s) (.error cause) w₁)
    (hguard : g = none ∨ g = w₁.guard ∧ ¬Granted G ⟨.predecessor, .clearGuard⟩)
    (hback : NativeEnd G .predecessor n { w₁ with guard := g } r w') :
    SmartEnd prior back w (.error e) w'
  | running (v : Services) (w₁ : World) (pid : Nat) (smart : usesNativeTunnel s = false)
    (hv : v.AllStopped)
    (launch : LaunchEnd G env a name s persist (w.cleared v s) (.ok pid) w₁) :
    SmartEnd prior back w (.ok ()) { w₁ with smartProcess := some ⟨name, s, pid, smart⟩ }

/-- The ends of a start that a native tunnel serves. -/
inductive TurnEnd (back : Back) (w : World) : Except ManagerErr Unit → World → Prop
  | unstopped (e : ManagerErr) (hg : KillRefused G a w.smartProcess) :
    TurnEnd back w (.error e) w.detached
  | failed (e : ManagerErr) (w' : World) (hnone : w.smartProcess = none)
    (hend : NativeEnd G a name w.detached (.error e) w') : TurnEnd back w (.error e) w'
  | restored (e cause : ManagerErr) (w₁ w' : World) (process : SmartProcess)
    (r : Except ManagerErr Unit) (hsome : w.smartProcess = some process)
    (hend : NativeEnd G a name w.detached (.error cause) w₁)
    (hback : back process w₁ r w') : TurnEnd back w (.error e) w'
  | guarded (e : ManagerErr) (v : Services) (others : ∀ m, m ≠ name → v.state m = .stopped)
    (hg : ¬Granted G ⟨a, .clearGuard⟩) :
    TurnEnd back w (.error e) { w.detached with services := v, desired := none }
  | undone (e : ManagerErr) (v : Services) (hg : ¬Granted G ⟨a, .removeDesired⟩) :
    TurnEnd back w (.error e) { w.detached with services := v, desired := none, guard := none }
  | started (v : Services) (others : ∀ m, m ≠ name → v.state m = .stopped) :
    TurnEnd back w (.ok ()) { w.detached with services := v, desired := none, guard := none }

/-- The ends of `smartStartLocked`. An engine that exits before the start has read what it would
return to is missed by then. -/
inductive StartEnd (back : Back) (w : World) : Except ManagerErr Unit → World → Prop
  | untouched (e : ManagerErr) (w₀ : World) (missed : Missed (∃ place, Exits G place) w w₀)
    (why : Refused G a ∨ (ListHolds G w → ∃ e', findPredecessor w (listing w) = .error e')) :
    StartEnd back w (.error e) w₀
  | smart (r : Except ManagerErr Unit) (w₀ w' : World) (prior : Option Str)
    (h : usesNativeTunnel s = false) (missed : Missed (∃ place, Exits G place) w w₀)
    (found : ListHolds G w → findPredecessor w (listing w) = .ok prior)
    (hend : SmartEnd G env a name s persist prior back w₀ r w') : StartEnd back w r w'
  | native (r : Except ManagerErr Unit) (w₀ w' : World) (h : usesNativeTunnel s = true)
    (missed : Missed (∃ place, Exits G place) w w₀)
    (hend : TurnEnd G a name back w₀ r w') : StartEnd back w r w'

end ends

section specs
variable {G : Question → Answer → Prop} {w : World} (env : Env) (a : Attempt) (name : Str)
  (s : RoutingSettings) (persist : Bool)

theorem raiseGuard_spec :
    wp G (raiseGuard a s) (fun r w' => (r = .ok () ∧ w' = w.cleared w.services s) ∨
      ∃ e, r = .error e ∧ w' = w ∧ LateRefused G a) w := by
  refine wp_ite _ (fun hs => ?_) fun hs => ?_
  · refine wp.mapError _ (setGuard_spec a 0) ?_ ?_
    · rintro ⟨⟩ w' (⟨-, rfl⟩ | ⟨e, he, -⟩)
      · refine Or.inl ⟨rfl, ?_⟩
        rw [World.cleared, if_pos hs]
      · cases he
    · rintro e w' (⟨he, -⟩ | ⟨e', -, hw, hrefused⟩)
      · cases he
      · exact Or.inr ⟨_, rfl, hw, hrefused⟩
  · refine wp_pure _ (Or.inl ⟨rfl, ?_⟩)
    rw [World.cleared, if_neg hs]

theorem releaseGuard_spec (prior : Option Str) (engine : Option SmartProcess) (v : Services)
    (e : ManagerErr) :
    wp G (releaseGuard a s prior engine e) (fun r w' => ∃ e' g, r = .error e' ∧
      w' = { w with services := v, guard := g } ∧
      ReleasedGuard G a s prior engine w.guard g) (w.cleared v s) := by
  refine wp_ite _ (fun hc => ?_) fun hc => ?_
  · obtain ⟨hs, hprior⟩ := hc
    have hcleared : w.cleared v s = { w with services := v, guard := some 0 } := by
      rw [World.cleared, if_pos hs]
    rw [hcleared]
    have hnone : ¬(prior = none ∧ engine = none) := by
      rintro ⟨rfl, rfl⟩
      simp at hprior
    refine wp.attempt_bind (T := fun _ w' => ∃ g, w' = { w with services := v, guard := g } ∧
      ReleasedGuard G a s prior engine w.guard g) ?_ ?_
    · refine wp_ite _ (fun hany => ?_) fun hany => ?_
      · refine (guardInterface_spec a).mono ?_
        have hlift : engine ≠ none := by
          rintro rfl
          cases hany
        rintro r w' (⟨luid, -, rfl⟩ | ⟨_, -, rfl, -⟩)
        · exact ⟨some luid, rfl, fun h => absurd hs h, fun _ _ _ => by simp, fun _ _ => by simp,
            fun _ _ h => absurd h hlift⟩
        · exact ⟨some 0, rfl, fun h => absurd hs h, fun _ _ _ => by simp, fun _ _ => by simp,
            fun _ _ h => absurd h hlift⟩
      · have hopen : ¬∃ process, engine = some process ∧ Protected process.settings := by
          rintro ⟨process, rfl, hp⟩
          exact hany (by simpa using hp)
        refine (clearGuard_spec a).mono ?_
        rintro r w' (⟨-, rfl⟩ | ⟨_, -, rfl, hg⟩)
        · exact ⟨none, rfl, fun h => absurd hs h, fun _ hn hw => absurd ⟨hn, hw⟩ hnone,
            fun _ h => absurd h hopen, fun _ _ _ _ => rfl⟩
        · exact ⟨some 0, rfl, fun h => absurd hs h, fun _ _ _ => by simp, fun _ _ => by simp,
            fun _ _ _ h => absurd h hg⟩
    · rintro (e' | ⟨⟩) w' ⟨g, rfl, hreleased⟩
      · exact wp_fail _ ⟨_, g, rfl, rfl, hreleased⟩
      · exact wp_fail _ ⟨_, g, rfl, rfl, hreleased⟩
  · refine wp_fail _ ⟨e, _, rfl, rfl, ?_⟩
    refine ⟨fun h => if_neg h, fun h _ _ => ?_, fun h hex => ?_, fun h hne hw => ?_⟩
    · rw [if_pos h]
      simp
    · rw [if_pos h]
      simp
    · refine absurd ⟨h, Or.inl ?_⟩ hc
      exact Option.isSome_iff_ne_none.mpr hne

variable {back : Back} {restore : SmartProcess → Op Unit}

theorem LaunchEnd.smartProcess_none {w w₁ : World} {r : Except ManagerErr Nat}
    (h : LaunchEnd G env a name s persist w r w₁) : w₁.smartProcess = none := by
  cases h <;> rfl

/-- A launch detaches the engine, so it does not matter whether it was missed before. -/
theorem LaunchEnd.of_missed {exit : Prop} {w₁ w' : World} (hmissed : Missed exit w w₁) {v : Services}
    {r : Except ManagerErr Nat} (h : LaunchEnd G env a name s persist (w₁.cleared v s) r w') :
    LaunchEnd G env a name s persist (w.cleared v s) r w' := by
  rcases hmissed with rfl | ⟨-, rfl⟩
  · exact h
  · cases h with
    | failed e engines spawned guard old hguard why =>
      refine .failed e engines spawned guard old hguard (why.imp_right (Or.imp_left ?_))
      rintro ⟨p, hp, -⟩
      cases hp
    | launched guard desired hguard kept saved => exact .launched guard desired hguard kept saved

/-- Stopping the services once the guard is raised; an exit noticed meanwhile changes nothing else. -/
theorem stopServices_spec :
    wp G (stopAllNativeTunnels a) (fun r w' => ∃ w₁ v t, Missed (∃ place, Exits G place) w w₁ ∧
      w' = w₁.cleared v s ∧ Lowered t w { w with services := v } ∧ (r = .ok () → v.AllStopped) ∧
      ∀ e, r = .error e → LateRefused G a ∧
        (v = w.services ∨ ∃ n, reported w n ≠ .stopped ∧ StopRefused G a [n]))
      (w.cleared w.services s) := by
  refine (stopAllNativeTunnels_spec a).mono ?_
  rintro r w' ⟨w₁, hmissed, ⟨t, low⟩, hstopped, herr⟩
  obtain ⟨v, rfl⟩ := low.onlyServices
  have hservices : w₁.services = w.services := by rw [hmissed.frame]; rfl
  have hlow : Lowered t w { w with services := v } :=
    ⟨rfl, fun n hn => low.within n (by rw [hservices, hn]), fun n hn => by
      rw [← hservices]
      exact low.same n hn⟩
  have hcause : ∀ e, r = .error e → LateRefused G a ∧
      (v = w.services ∨ ∃ n, reported w n ≠ .stopped ∧ StopRefused G a [n]) := by
    intro e he
    rcases herr e he with ⟨hw, hr⟩ | ⟨n, hn, hr⟩
    · exact ⟨hr.late, Or.inl ((congrArg World.services hw).trans hservices)⟩
    · exact ⟨(stopRefused_refused a hr).late, Or.inr ⟨n, hn, hr⟩⟩
  rcases hmissed with rfl | ⟨⟨n, hexit⟩, rfl⟩
  · exact ⟨w, v, t, Missed.refl _ w, rfl, hlow, hstopped, hcause⟩
  · exact ⟨w.detached, v, t, Or.inr ⟨⟨_, hexit⟩, rfl⟩, rfl, hlow, hstopped, hcause⟩

/-- The engine is started again only while none is recorded, so the caller of `startSmart` has to
know only what its callback does then. -/
theorem startSmart_spec (smart : usesNativeTunnel s = false)
    (hrestore : ∀ process u, u.smartProcess = none → wp G (restore process) (back process u) u) :
    wp G (startSmart env restore a name s smart persist)
      (StartEnd G env a name s persist back w) w := by
  refine (prepareEngine_spec a name).bind ?_ ?_
  swap
  · rintro e w' ⟨rfl, hrefused⟩
    exact .untouched e _ (Missed.refl _ _) (Or.inl (hrefused e rfl))
  rintro ⟨⟩ w ⟨rfl, -⟩
  refine (findPriors_spec a).bind ?_ ?_
  swap
  · rintro e w₀ ⟨hmissed, -, hwhy⟩
    exact .untouched e w₀ hmissed (hwhy e rfl)
  rintro ⟨prior, engine⟩ w₀ ⟨hmissed, hfound, -⟩
  obtain ⟨rfl, hprior⟩ := hfound _ rfl
  suffices h : wp G _ (SmartEnd G env a name s persist prior back w₀) w₀ from
    h.mono fun r w' hend => .smart r w₀ w' prior smart hmissed hprior hend
  refine (raiseGuard_spec a s).bind ?_ ?_
  swap
  · rintro e w' (⟨he, -⟩ | ⟨_, -, rfl, hrefused⟩)
    · cases he
    · exact .unguarded e hrefused.refused
  rintro ⟨⟩ _ (⟨-, rfl⟩ | ⟨_, he, -⟩)
  swap
  · cases he
  refine (stopServices_spec a s).attempt_bind ?_
  rintro (e | ⟨⟩) _ ⟨w₁, v, t, hmissed₁, rfl, low, hstopped, herr⟩
  · -- the services could not be stopped: nothing else is given up
    obtain ⟨hrefused, hcause⟩ := herr e rfl
    refine (releaseGuard_spec a s prior w₀.smartProcess v e).mono ?_
    rintro _ _ ⟨e', g, rfl, rfl, hreleased⟩
    have hguard : w₁.guard = w₀.guard := by rw [hmissed₁.frame]
    rw [hguard] at hreleased
    exact .unstopped e' w₁ v g t hmissed₁ low hrefused hcause hreleased
  · have hv := hstopped rfl
    refine (launchEngine_spec env a name s persist).attempt_bind ?_
    rintro (cause | pid) w₂ launch
    · replace launch := LaunchEnd.of_missed env a name s persist hmissed₁ launch
      have hnone : w₂.smartProcess = none := LaunchEnd.smartProcess_none _ _ _ _ _ launch
      cases prior with
      | none =>
        cases hw : w₀.smartProcess with
        | none => exact wp_fail _ (.alone _ cause v w₂ rfl hw hv launch)
        | some process =>
          refine (hrestore process w₂ hnone).attempt_bind ?_
          rintro (e | ⟨⟩) w' hback
          all_goals exact wp_fail _ (.restored _ cause v w₂ w' process _ rfl hw hv launch hback)
      | some n =>
        refine wp.attempt_bind (T := fun _ w' => ∃ g, w' = { w₂ with guard := g } ∧
          (g = none ∨ g = w₂.guard ∧ ¬Granted G ⟨.predecessor, .clearGuard⟩)) ?_ ?_
        · refine (clearGuard_spec .predecessor).mono ?_
          rintro r w' (⟨-, rfl⟩ | ⟨_, -, rfl, hg⟩)
          · exact ⟨none, rfl, Or.inl rfl⟩
          · exact ⟨w'.guard, rfl, Or.inr ⟨rfl, hg⟩⟩
        · rintro r _ ⟨g, rfl, hguard⟩
          refine (startNativeUnlocked_spec .predecessor n).attempt_bind ?_
          rintro (e | ⟨⟩) w' ⟨w₃, hmissed₃, hback⟩
          all_goals obtain rfl := hmissed₃.of_none hnone
          all_goals exact wp_fail _ (.native _ cause v w₂ w' n g _ rfl hv launch hguard hback)
    · exact wp_change _ (.running v w₂ pid smart hv (LaunchEnd.of_missed env a name s persist hmissed₁ launch))

theorem startNative_spec (native : usesNativeTunnel s = true)
    (hrestore : ∀ process u, u.smartProcess = none → wp G (restore process) (back process u) u) :
    wp G (startNative restore a name persist) (StartEnd G env a name s persist back w) w := by
  refine wp_lock_bind a .prior fun w₀ hmissed => ?_
  suffices h : wp G _ (TurnEnd G a name back w₀) w₀ from h.mono fun r w' hend =>
    .native r w₀ w' native (hmissed.mono fun h => ⟨_, h⟩) hend
  refine (wp.mapError (R := fun r w' => w' = w₀.detached ∧
    ∀ e, r = .error e → KillRefused G a w₀.smartProcess) _ (smartStopUnlocked_spec a)
    (fun _ _ h => h) fun e _ h => ⟨h.1, fun _ _ => h.2 e rfl⟩).bind ?_ ?_
  swap
  · rintro e w' ⟨rfl, hrefused⟩
    exact .unstopped e (hrefused e rfl)
  rintro ⟨⟩ w' ⟨rfl, -⟩
  refine (startNativeUnlocked_spec a name).attempt_bind ?_
  rintro r w' ⟨w₁, hmissed₁, hend⟩
  obtain rfl := hmissed₁.of_none rfl
  cases r with
  | error e =>
    cases hw : w₀.smartProcess with
    | none => exact wp_fail _ (.failed e w' hw hend)
    | some process =>
      have hnone : w'.smartProcess = none := by cases hend; rfl
      refine (hrestore process w' hnone).attempt_bind ?_
      rintro (e' | ⟨⟩) w'' hback
      all_goals exact wp_fail _ (.restored _ e w' w'' process _ hw hend hback)
  | ok =>
    cases hend with
    | started v _ others _ =>
      refine (clearGuard_spec a).bind ?_ ?_
      · rintro ⟨⟩ w' (⟨-, rfl⟩ | ⟨_, he, -⟩)
        · refine wp_ite _ (fun _ => ?_) fun _ => wp_pure _ (.started v others)
          refine (clearSmartDesired_spec a).attempt_bind ?_
          rintro r w' (⟨rfl, rfl⟩ | ⟨e, rfl, rfl, hg⟩)
          · exact wp_pure _ (.started v others)
          · refine (stopNativeTunnelsLocked_spec a [name]).attempt_bind ?_
            rintro r w' ⟨low, -⟩
            obtain ⟨v', rfl⟩ := low.onlyServices
            exact wp_fail _ (.undone _ v' hg)
        · cases he
      · rintro e w' (⟨he, -⟩ | ⟨_, -, rfl, hg⟩)
        · cases he
        · exact .guarded e v others hg

theorem startWith_spec
    (hrestore : ∀ process u, u.smartProcess = none → wp G (restore process) (back process u) u) :
    wp G (startWith env restore a name s persist) (StartEnd G env a name s persist back w) w := by
  refine wp_quiet_bind (fun _ => rfl) (fun _ _ _ => ?_) fun e hg =>
    .untouched e w (Missed.refl _ w) (Or.inl ⟨_, hg⟩)
  split
  · rename_i h
    exact startSmart_spec env a name s persist h hrestore
  · rename_i h
    exact startNative_spec env a name s persist (Bool.not_eq_false _ ▸ h) hrestore

/-- The ends of starting a predecessor again, from a world without an engine. -/
def restoredEnd (G : Question → Answer → Prop) (env : Env) : Back := fun process u r w' =>
  u.smartProcess = none ∧ StartEnd G env .predecessor process.tunnelName process.settings false
    (fun _ _ _ _ => True) u r w'

theorem restoreSmart_spec (process : SmartProcess) (u : World) (hu : u.smartProcess = none) :
    wp G (restoreSmart env process) (restoredEnd G env process u) u := by
  have h : wp G (restoreSmart env process) (StartEnd G env .predecessor process.tunnelName
      process.settings false (fun _ _ _ _ => True) u) u :=
    startWith_spec env .predecessor _ _ false fun _ _ _ => wp_pure _ trivial
  exact h.mono fun r w' hend => ⟨hu, hend⟩

theorem smartStartLocked_spec :
    wp G (smartStartLocked env a name s persist)
      (StartEnd G env a name s persist (restoredEnd G env) w) w :=
  startWith_spec env a name s persist (restoreSmart_spec env)

end specs

end SmartAwg.Manager
