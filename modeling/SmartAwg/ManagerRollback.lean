import SmartAwg.ManagerGuard

/-!
What becomes of the connection that a failed `SmartStart` was to replace. A start with an engine
brings it back on every way out, provided the system lets it. So does a start that a native tunnel
serves, except for two errors that come after the switch, when the predecessor is already gone.
-/

namespace SmartAwg.Manager

open Go Smart Fallible

section predecessor

/-- The connection before the call. -/
inductive Predecessor where
  | engine (process : SmartProcess)
  | native (name : Str)

/-- It is the only one. -/
def Predecessor.Only (w : World) : Predecessor → Prop
  | .engine process => w.smartProcess = some process ∧ process.pid ∈ w.engines ∧
      w.services.AllStopped
  | .native p => (w.services.state p).inUse = true ∧ (∀ n, n ≠ p → w.services.state n = .stopped) ∧
      w.smartProcess = none ∧ w.engines = []

/-- It runs: the same tunnel, and for an engine the same settings. -/
def Predecessor.Running (w : World) : Predecessor → Prop
  | .engine process => ∃ process', w.smartProcess = some process' ∧ process'.pid ∈ w.engines ∧
      process'.tunnelName = process.tunnelName ∧ process'.settings = process.settings
  | .native p => (w.services.state p).inUse = true

/-- The calls by which the target stops it. -/
def Predecessor.stops : Predecessor → List Step
  | .engine process => [.kill process.pid]
  | .native p => [.uninstallTunnel p, .waitForStop p]

/-- The calls that stop it, wait for it or start it again succeed, and it does not exit by itself. -/
structure Predecessor.Served (pred : Predecessor) (G : Question → Answer → Prop) : Prop where
  back : ∀ st, Granted G ⟨.predecessor, st⟩
  stop : ∀ st ∈ pred.stops, Granted G ⟨.target, st⟩
  alive : Still G

variable {G : Question → Answer → Prop} {w w' : World} {pred : Predecessor}

theorem Predecessor.Only.running (h : pred.Only w) : pred.Running w := by
  cases pred with
  | engine process => exact ⟨process, h.1, h.2.1, rfl, rfl⟩
  | native p => exact h.1

theorem Predecessor.Served.not_refused (h : pred.Served G) : ¬Refused G .predecessor := by
  rintro ⟨st, hg⟩
  exact hg (h.back st)

theorem Predecessor.Served.same (h : pred.Served G) (hmissed : Missed (∃ place, Exits G place) w w') :
    w' = w := hmissed.of_not fun ⟨place, hexit⟩ => h.alive place hexit

theorem findPredecessor_inUse {n : Str} (h : findPredecessor w (listing w) = .ok (some n)) :
    (w.services.state n).inUse = true := by
  have hmem : n ∈ predecessors w (listing w) := by
    unfold findPredecessor onlyOne at h
    split at h
    · cases h
    · rename_i heq
      cases h
      rw [heq]
      exact List.mem_singleton_self n
    · cases h
  exact ((mem_predecessors n).mp hmem).2.2

/-- With at most one service there are not several predecessors. -/
theorem findPredecessor_of_single {n : Str} (h : ∀ m, m ≠ n → w.services.state m = .stopped) :
    ∃ prior, findPredecessor w (listing w) = .ok prior := by
  have hnodup : (predecessors w (listing w)).Nodup := by
    have hnames : (listing w).map Prod.fst = nameSet w := by
      rw [listing, List.map_map]
      exact List.map_id _
    refine List.Nodup.sublist (List.filter_sublist.map Prod.fst) ?_
    rw [hnames]
    exact List.nodup_dedup _
  have hall : ∀ m ∈ predecessors w (listing w), m = n := by
    intro m hm
    by_contra hne
    exact TunnelState.ne_stopped ((mem_predecessors m).mp hm).2.2 (h m hne)
  unfold findPredecessor onlyOne
  generalize predecessors w (listing w) = names at hnodup hall
  split
  · exact ⟨_, rfl⟩
  · exact ⟨_, rfl⟩
  · rename_i hnil hone
    match names with
    | [] => exact absurd rfl hnil
    | [m] => exact absurd rfl (hone m)
    | m :: k :: rest =>
      have hmk : m = k := (hall m (by simp)).trans (hall k (by simp)).symm
      subst hmk
      simp at hnodup

end predecessor

section restored
variable {G : Question → Answer → Prop} {env : Env} {w w' : World} {name : Str}
  {s : RoutingSettings}

/-- An engine that is started again with nothing refused, and with at most one service in its way,
runs. -/
theorem restoredEnd_running {pred : Predecessor} {process : SmartProcess} {u u' : World}
    {r : Except ManagerErr Unit} (hserved : pred.Served G) {n : Str}
    (hu : ∀ m, m ≠ n → u.services.state m = .stopped)
    (hend : restoredEnd G env process u r u') : (Predecessor.engine process).Running u' := by
  obtain ⟨hnone, hend⟩ := hend
  obtain ⟨prior, hfind⟩ := findPredecessor_of_single hu
  have hlaunch {w₀ w₁ : World} (hw₀ : w₀.smartProcess = none) {v : Services} {e : ManagerErr}
      (launch : LaunchEnd G env .predecessor process.tunnelName process.settings false
        (w₀.cleared v process.settings) (.error e) w₁) : False := by
    cases launch with
    | failed _ _ _ _ _ _ why =>
      rcases why with hlate | ⟨p, hp, -⟩ | ⟨hp, -⟩
      · exact hserved.not_refused hlate.refused
      · exact absurd (hw₀.symm.trans hp) (by simp)
      · cases hp
  cases hend with
  | untouched e w₀ missed why =>
    rcases why with hrefused | hno
    · exact absurd hrefused hserved.not_refused
    · obtain ⟨e', he'⟩ := hno (Or.inr hnone)
      exact absurd (hfind.symm.trans he') (by simp)
  | native _ _ _ hnative => exact absurd process.smart (by simp [hnative])
  | smart _ w₀ _ prior' _ missed _ hend =>
    obtain rfl := missed.of_none hnone
    cases hend with
    | unguarded e why => exact absurd why hserved.not_refused
    | unstopped e w₁ v g _ _ _ why => exact absurd why.refused hserved.not_refused
    | alone e cause v _ _ _ hv launch => exact (hlaunch hnone launch).elim
    | restored e cause v _ _ p _ _ hsome => exact absurd (hnone.symm.trans hsome) (by simp)
    | native e cause v _ _ n g _ _ _ launch => exact (hlaunch hnone launch).elim
    | running v _ pid smart hv launch =>
      cases launch with
      | launched => exact ⟨_, rfl, List.mem_cons_self .., rfl, rfl⟩

/-- Every failure of a start with an engine leaves the predecessor running. -/
theorem SmartEnd.restores {pred : Predecessor} (h : pred.Only w) (hserved : pred.Served G)
    {prior : Option Str} (hprior : findPredecessor w (listing w) = .ok prior) {e : ManagerErr}
    (hend : SmartEnd G env .target name s true prior (restoredEnd G env) w (.error e) w') :
    pred.Running w' := by
  cases hend with
  | unguarded => exact h.running
  | unstopped _ w₁ v g _ missed _ _ cause =>
    obtain rfl := hserved.same missed
    cases pred with
    | engine process => exact ⟨process, h.1, h.2.1, rfl, rfl⟩
    | native p =>
      obtain ⟨huse, hothers, hnone, -⟩ := h
      rcases cause with rfl | ⟨n, hn, hrefused⟩
      · exact huse
      · -- only the predecessor was there to be stopped, and that is granted
        rw [reported_of_none hnone] at hn
        obtain rfl : n = p := by
          by_contra hne
          exact hn (hothers n hne)
        obtain ⟨m, hm, hg⟩ := hrefused
        obtain rfl := List.mem_singleton.mp hm
        rcases hg with hg | hg
        all_goals exact absurd (hserved.stop _ (by simp [Predecessor.stops])) hg
  | alone _ cause v _ hnil hnone =>
    cases pred with
    | engine process => exact absurd (hnone.symm.trans h.1) (by simp)
    | native p => exact absurd hnil (findPredecessor_ne_none hnone h.1 hprior)
  | restored _ cause v w₁ _ process r _ hsome hv launch hback =>
    cases pred with
    | engine process' =>
      obtain rfl := Option.some.inj (hsome.symm.trans h.1)
      refine restoredEnd_running (n := []) hserved (fun m _ => ?_) hback
      cases launch
      exact hv m
    | native p => exact absurd (h.2.2.1.symm.trans hsome) (by simp)
  | native _ cause v w₁ _ n g r hn hv launch _ hback =>
    subst hn
    have huse := findPredecessor_inUse hprior
    cases pred with
    | engine process => exact absurd (h.2.2 n) (TunnelState.ne_stopped huse)
    | native p =>
      obtain rfl : n = p := by
        by_contra hne
        exact TunnelState.ne_stopped huse (h.2.1 n hne)
      have hnone : w₁.smartProcess = none := LaunchEnd.smartProcess_none _ _ _ _ _ launch
      have hstopped : w₁.services.AllStopped := by
        cases launch
        exact hv
      have hne : n ≠ [] := (w.services.listed n (TunnelState.ne_stopped huse)).1
      cases hback with
      | failed _ _ _ why =>
        rcases why with hrefused | hg | hsome
        · exact absurd hrefused.refused hserved.not_refused
        · exact absurd (hserved.back _) hg
        · exact absurd hnone hsome
      | started v' _ _ target => exact target (hstopped n) hne

/-- Every failure of a start that a native tunnel serves leaves the predecessor running, if neither
the removal of the record nor the lifting of the guard is refused. -/
theorem TurnEnd.restores {pred : Predecessor} (h : pred.Only w) (hserved : pred.Served G)
    (hrecord : Granted G ⟨.target, .removeDesired⟩) (hguard : Granted G ⟨.target, .clearGuard⟩)
    {e : ManagerErr} (hend : TurnEnd G .target name (restoredEnd G env) w (.error e) w') :
    pred.Running w' := by
  cases hend with
  | unstopped _ hkill =>
    obtain ⟨process, hsome, hg⟩ := hkill
    cases pred with
    | engine process' =>
      obtain rfl := Option.some.inj (hsome.symm.trans h.1)
      exact absurd (hserved.stop _ (by simp [Predecessor.stops])) hg
    | native p => exact absurd (h.2.2.1.symm.trans hsome) (by simp)
  | failed _ _ hnone hend =>
    cases pred with
    | engine process => exact absurd (hnone.symm.trans h.1) (by simp)
    | native p =>
      cases hend with
      | failed _ v _ _ _ kept =>
        exact (kept hrecord).back hserved.back p h.1 (hserved.stop _ (by simp [Predecessor.stops]))
  | restored _ cause w₁ _ process r hsome hend hback =>
    cases pred with
    | engine process' =>
      obtain rfl := Option.some.inj (hsome.symm.trans h.1)
      refine restoredEnd_running (n := name) hserved (fun m hm => ?_) hback
      cases hend with
      | failed _ v _ _ others => exact others (fun k _ => h.2.2 k) m hm
    | native p => exact absurd (h.2.2.1.symm.trans hsome) (by simp)
  | guarded _ v _ hg => exact absurd hguard hg
  | undone _ v hg => exact absurd hrecord hg

end restored

section lost
variable {G : Question → Answer → Prop} {w : World} {a : Attempt}

/-- The call fails whenever it is made. -/
def AlwaysRefused (G : Question → Answer → Prop) (q : Question) : Prop :=
  ∀ ans, G q ans → ans.fault ≠ none

theorem clearSmartDesired_refused (h : AlwaysRefused G ⟨a, .removeDesired⟩) :
    wp G (clearSmartDesired a) (fun r w' => (∃ e, r = .error e) ∧ w' = w) w := by
  refine wp_must_bind (fun ans hG hf => absurd hf (h ans hG)) fun ans e hG hf => ⟨⟨e, rfl⟩, ?_⟩
  simp only [effect, hf, if_false]

theorem clearGuard_refused (h : AlwaysRefused G ⟨a, .clearGuard⟩) :
    wp G (clearGuard a) (fun r w' => (∃ e, r = .error e) ∧ w' = w) w := by
  refine wp_must_bind (fun ans hG hf => absurd hf (h ans hG)) fun ans e hG hf => ⟨⟨e, rfl⟩, ?_⟩
  simp only [effect, hf, if_false]

/-- When only the record cannot be removed, the switch is made and its target is stopped again:
nothing is left. -/
theorem startNativeUnlocked_undone (hgranted : ¬SwitchRefused G a)
    (hrefused : AlwaysRefused G ⟨a, .removeDesired⟩) (hnone : w.smartProcess = none) (n : Str) :
    wp G (startNativeUnlocked a n)
      (fun r w' => (∃ e, r = .error e) ∧ w'.services.AllStopped) w := by
  have hgrant (st : Step) (hst : st.switches = true) : Granted G ⟨a, st⟩ := by
    by_contra hg
    exact hgranted ⟨st, hst, hg⟩
  refine wp_quiet_bind (fun _ => rfl) (fun _ _ _ => ?_) fun e hg => absurd (hgrant _ rfl) hg
  refine wp_quiet_bind (fun _ => rfl) (fun _ _ _ => ?_) fun e hg => absurd (hgrant _ rfl) hg
  refine wp_quiet_bind (fun _ => rfl) (fun _ _ _ => ?_) fun e hg => absurd (hgrant _ rfl) hg
  refine wp_lock_bind a .anyStarted fun w₀ hmissed => ?_
  obtain rfl := hmissed.of_none hnone
  refine wp_ite _ (fun hsome => ?_) fun _ => ?_
  · rw [smartAnyStarted, hnone] at hsome
    cases hsome
  refine (switchNative_spec a hnone n).bind ?_ fun e w' hend => absurd (hend.2.2.2 e rfl).1 hgranted
  rintro ⟨⟩ w₁ ⟨-, hothers, -⟩
  refine (clearSmartDesired_refused hrefused).attempt_bind ?_
  rintro _ w₁ ⟨⟨e, rfl⟩, rfl⟩
  refine (stopNativeTunnelsLocked_spec a [n]).attempt_bind ?_
  rintro (e' | ⟨⟩) w₂ ⟨low, hstopped, hrefused⟩
  · exact absurd (stopRefused_refused a (hrefused e' rfl)).switch hgranted
  · refine wp_fail _ ⟨⟨_, rfl⟩, fun m => ?_⟩
    by_cases hmn : m = n
    · exact hmn ▸ hstopped rfl n (List.mem_singleton_self n)
    · exact low.within m (hothers rfl m hmn)

/-- The engine is stopped without an error unless that is refused. -/
theorem smartStopUnlocked_granted (g : ManagerErr → ManagerErr)
    (h : ¬KillRefused G a w.smartProcess) :
    wp G ((smartStopUnlocked a).mapError g) (fun r w' => w' = w.detached ∧ ∀ e, r ≠ .error e) w := by
  refine wp.mapError g (smartStopUnlocked_spec a) (fun _ _ hend => ⟨hend.1, fun _ he => by cases he⟩) ?_
  rintro e w' ⟨-, hkill⟩
  exact absurd (hkill e rfl) h

theorem startNative_loses_native (restore : SmartProcess → Op Unit) (hgranted : ¬SwitchRefused G a)
    (hrefused : AlwaysRefused G ⟨a, .removeDesired⟩) (hnone : w.smartProcess = none) (n : Str)
    (persist : Bool) :
    wp G (startNative restore a n persist)
      (fun r w' => (∃ e, r = .error e) ∧ w'.services.AllStopped) w := by
  refine wp_lock_bind a .prior fun w₀ hmissed => ?_
  obtain rfl := hmissed.of_none hnone
  refine (smartStopUnlocked_granted _ ?_).bind ?_ ?_
  · rintro ⟨p, hp, -⟩
    exact absurd (hnone.symm.trans hp) (by simp)
  · rintro ⟨⟩ w' ⟨rfl, -⟩
    refine (startNativeUnlocked_undone hgranted hrefused (w := w₀.detached) rfl n).attempt_bind ?_
    rintro _ w' ⟨⟨e, rfl⟩, hstopped⟩
    simp only [hnone]
    exact wp_fail _ ⟨⟨e, rfl⟩, hstopped⟩
  · rintro e w' ⟨-, hno⟩
    exact absurd rfl (hno e)

/-- When only the guard cannot be lifted, the native tunnel replaces the engine, and the error
comes too late to start the engine again. -/
theorem startNative_loses_engine (restore : SmartProcess → Op Unit) (hgranted : ¬SwitchRefused G a)
    (hrecord : Granted G ⟨a, .removeDesired⟩) (hrefused : AlwaysRefused G ⟨a, .clearGuard⟩) (n : Str)
    (persist : Bool) :
    wp G (startNative restore a n persist)
      (fun r w' => (∃ e, r = .error e) ∧ w'.smartProcess = none) w := by
  refine wp_lock_bind a .prior fun w₀ _ => (smartStopUnlocked_granted _ ?_).bind ?_ ?_
  · rintro ⟨p, -, hg⟩
    exact hgranted ⟨_, rfl, hg⟩
  · rintro ⟨⟩ w' ⟨rfl, -⟩
    refine (startNativeUnlocked_spec a n).attempt_bind ?_
    rintro r w' ⟨w₁, hmissed, hend⟩
    obtain rfl := hmissed.of_none rfl
    cases hend with
    | failed e v _ why =>
      rcases why with hr | hg | hsome
      · exact absurd hr hgranted
      · exact absurd hrecord hg
      · exact absurd rfl hsome
    | started v =>
      refine (clearGuard_refused hrefused).bind ?_ ?_
      · rintro ⟨⟩ w' ⟨⟨e, he⟩, -⟩
        cases he
      · rintro e w' ⟨-, rfl⟩
        exact ⟨⟨e, rfl⟩, rfl⟩
  · rintro e w' ⟨-, hno⟩
    exact absurd rfl (hno e)

end lost

section verdict

/-- The one call that is refused after the switch. -/
def Predecessor.lateRefusal : Predecessor → Step
  | .engine _ => .clearGuard
  | .native _ => .removeDesired

/-- A system that refuses this call of the target and no other. -/
def Predecessor.lostFeed (pred : Predecessor) : Feed Question Answer :=
  answering fun q => q = ⟨.target, pred.lateRefusal⟩

theorem Predecessor.lostFeed_granted (pred : Predecessor) (q : Question)
    (hq : q ≠ ⟨.target, pred.lateRefusal⟩) : Granted (givenBy pred.lostFeed) q := by
  rintro _ ⟨k, rfl⟩
  simp [lostFeed, answering, hq]

theorem Predecessor.lostFeed_refused (pred : Predecessor) :
    AlwaysRefused (givenBy pred.lostFeed) ⟨.target, pred.lateRefusal⟩ := by
  rintro _ ⟨k, rfl⟩
  simp [lostFeed, answering]

theorem Predecessor.lostFeed_switch (pred : Predecessor) :
    ¬SwitchRefused (givenBy pred.lostFeed) .target := by
  rintro ⟨st, hst, hg⟩
  refine hg (pred.lostFeed_granted _ fun hq => ?_)
  obtain rfl : st = pred.lateRefusal := congrArg Question.step hq
  cases pred <;> cases hst

theorem Predecessor.lostFeed_served (pred : Predecessor) : pred.Served (givenBy pred.lostFeed) where
  back := fun st => pred.lostFeed_granted _ (by simp)
  stop := by
    intro st hst
    refine pred.lostFeed_granted _ fun hq => ?_
    obtain rfl : st = pred.lateRefusal := congrArg Question.step hq
    cases pred <;> simp [stops, lateRefusal] at hst
  alive := answering_still _

/-- A start that a native tunnel serves loses every predecessor under this feed. -/
theorem Predecessor.lost (env : Env) {w : World} {pred : Predecessor} (h : pred.Only w) (name : Str)
    {s : RoutingSettings} (hnative : usesNativeTunnel s = true) :
    wp (givenBy pred.lostFeed) (smartStartLocked env .target name s true)
      (fun r w' => (∃ e, r = .error e) ∧ ¬pred.Running w') w := by
  have hgranted := pred.lostFeed_switch
  refine wp_quiet_bind (fun _ => rfl) (fun _ _ _ => ?_) fun e hg => absurd ⟨_, rfl, hg⟩ hgranted
  simp only [hnative, Bool.true_eq_false, dite_false]
  cases hpred : pred with
  | native p =>
    subst hpred
    refine (startNative_loses_native _ hgranted (lostFeed_refused _) h.2.2.1 name true).mono ?_
    rintro r w' ⟨he, hstopped⟩
    exact ⟨he, fun hrun => TunnelState.ne_stopped hrun (hstopped p)⟩
  | engine process =>
    subst hpred
    refine (startNative_loses_engine _ hgranted (lostFeed_granted _ _ (by simp [lateRefusal]))
      (lostFeed_refused _) name true).mono ?_
    rintro r w' ⟨he, hnone⟩
    refine ⟨he, ?_⟩
    rintro ⟨process', hsome, -⟩
    exact absurd (hnone.symm.trans hsome) (by simp)

/-- A `SmartStart` that fails gives the previous connection back, as long as the calls for that
connection itself succeed: with settings that need the engine whatever else fails, with settings that
a native tunnel serves if the record can be removed and the guard lifted. These two calls come too
late: for every such start there are answers that refuse one of them only and lose the connection. -/
theorem failed_switch_restores (env : Env) (decode : Str → Except SmartErr RoutingSettings)
    (w : World) (pred : Predecessor) (h : pred.Only w) (elevated : Bool) (name raw : Str) :
    (∀ f, pred.Served (givenBy f) →
        (∀ s, elevated = true → parseSettingsPayload env decode raw = .ok s → usesNativeTunnel s = true →
          Granted (givenBy f) ⟨.target, .removeDesired⟩ ∧ Granted (givenBy f) ⟨.target, .clearGuard⟩) →
        (∃ e, (smartStart env decode elevated name raw w f).value = .error e) →
        pred.Running (smartStart env decode elevated name raw w f).state) ∧
      ((elevated = true ∧ ∃ s, parseSettingsPayload env decode raw = .ok s ∧ usesNativeTunnel s = true) →
        ∃ f, pred.Served (givenBy f) ∧
          (∀ q, q ≠ ⟨.target, pred.lateRefusal⟩ → Granted (givenBy f) q) ∧
          (∃ e, (smartStart env decode elevated name raw w f).value = .error e) ∧
          ¬pred.Running (smartStart env decode elevated name raw w f).state) := by
  have hlocked {s : RoutingSettings} (hs : parseSettingsPayload env decode raw = .ok s) :
      smartStart env decode true name raw = smartStartLocked env .target name s true := by
    simp only [smartStart, hs, if_true]
  constructor
  · intro f hserved hlate ⟨e, he⟩
    cases elevated with
    | false => exact h.running
    | true =>
      cases hs : parseSettingsPayload env decode raw with
      | error e =>
        have hfail : smartStart env decode true name raw = Prog.fail (.settings e) := by
          simp only [smartStart, hs, if_true]
        rw [hfail]
        exact h.running
      | ok s =>
        rw [hlocked hs] at he ⊢
        have hend := (smartStartLocked_spec (w := w) env .target name s true).ending f (grants_givenBy f)
        rw [he] at hend
        generalize (smartStartLocked env .target name s true w f).state = w' at hend
        cases hend with
        | untouched _ _ missed =>
          rw [hserved.same missed]
          exact h.running
        | smart _ w₀ _ prior _ missed found hend =>
          obtain rfl := hserved.same missed
          exact hend.restores h hserved (found (Or.inl fun n => ⟨hserved.alive _, hserved.alive _⟩))
        | native _ w₀ _ hnative missed hend =>
          obtain rfl := hserved.same missed
          obtain ⟨hrecord, hguard⟩ := hlate s rfl hs hnative
          exact hend.restores h hserved hrecord hguard
  · rintro ⟨rfl, s, hs, hnative⟩
    have hlost := (Predecessor.lost env h name hnative).ending _ (grants_givenBy _)
    rw [← hlocked hs] at hlost
    exact ⟨pred.lostFeed, pred.lostFeed_served, pred.lostFeed_granted, hlost⟩

/-- One native tunnel runs and nothing else. -/
def workWorld : World :=
  { cleanWorld with services := cleanWorld.services.install (ascii "work") .started }

theorem workWorld_only : (Predecessor.native (ascii "work")).Only workWorld :=
  ⟨by decide +kernel, fun n hn => cleanWorld.services.install_state_of_ne _ n _ hn, rfl, rfl⟩

/-- "home" is to run as a native tunnel and cannot be installed: "work" has been stopped for it, and
is started again. -/
theorem failed_switch_restores_work :
    (Predecessor.native (ascii "work")).Running
      (smartStart plainEnv (fun _ => .ok plainSettings) true (ascii "home") (ascii "\x7b\x7d")
        workWorld (answering fun q => q = ⟨.target, .installTunnel (ascii "home")⟩)).state := by
  refine (failed_switch_restores plainEnv (fun _ => .ok plainSettings) workWorld
    (.native (ascii "work")) workWorld_only true (ascii "home") (ascii "\x7b\x7d")).1 _ ?_ ?_ ?_
  · refine ⟨fun st => ?_, fun st hst => ?_, answering_still _⟩
    · rintro _ ⟨k, rfl⟩
      rfl
    · rintro _ ⟨k, rfl⟩
      rcases List.mem_pair.mp hst with rfl | rfl
      · rfl
      · rfl
  · refine fun _ _ _ _ => ⟨?_, ?_⟩
    · rintro _ ⟨k, rfl⟩
      rfl
    · rintro _ ⟨k, rfl⟩
      rfl
  · have hfailed : (smartStart plainEnv (fun _ => .ok plainSettings) true (ascii "home")
        (ascii "\x7b\x7d") workWorld
        (answering fun q => q = ⟨.target, .installTunnel (ascii "home")⟩)).value.isOk = false := by
      decide +kernel
    generalize (smartStart plainEnv (fun _ => .ok plainSettings) true (ascii "home")
      (ascii "\x7b\x7d") workWorld
      (answering fun q => q = ⟨.target, .installTunnel (ascii "home")⟩)).value = r at hfailed
    cases r with
    | ok => cases hfailed
    | error e => exact ⟨e, rfl⟩

/-- With settings for all traffic "home" is to run as a native tunnel. The switch is made, the
record cannot be removed, "home" is stopped again, and "work" is not started. -/
theorem native_switch_loses_work :
    (Predecessor.native (ascii "work")).Only workWorld ∧
      (Predecessor.native (ascii "work")).Served
        (givenBy (answering fun q => q = ⟨.target, .removeDesired⟩)) ∧
      (smartStart plainEnv (fun _ => .ok plainSettings) true (ascii "home") (ascii "\x7b\x7d")
        workWorld (answering fun q => q = ⟨.target, .removeDesired⟩)).value.isOk = false ∧
      ¬(Predecessor.native (ascii "work")).Running
        (smartStart plainEnv (fun _ => .ok plainSettings) true (ascii "home") (ascii "\x7b\x7d")
          workWorld (answering fun q => q = ⟨.target, .removeDesired⟩)).state := by
  refine ⟨workWorld_only, (Predecessor.native (ascii "work")).lostFeed_served, ?_, ?_⟩
  · decide +kernel
  · intro hrun
    have hstopped : ((smartStart plainEnv (fun _ => .ok plainSettings) true (ascii "home")
        (ascii "\x7b\x7d") workWorld (answering fun q => q = ⟨.target, .removeDesired⟩)).state.services.state
          (ascii "work")).inUse = false := by
      decide +kernel
    exact absurd (hstopped.symm.trans hrun) (by simp)

end verdict

end SmartAwg.Manager
