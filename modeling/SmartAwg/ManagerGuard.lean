import SmartAwg.ManagerExclusion

/-!
The guard of protected settings stays closed while a protected connection is recovered, unless the
engine exits at the wrong moment: a start that has listed the tunnel of its engine as running and
misses the engine before it looks at the list takes the tunnel for a native one.
-/

namespace SmartAwg.Manager

open Go Smart Fallible

section settings

theorem protected_smart {s : RoutingSettings} (h : Protected s) : usesNativeTunnel s = false := by
  have hne : s.protection ≠ [] := by
    rw [show s.protection = ascii "all" from h]
    decide
  simp [usesNativeTunnel, hne]

/-- The normal form of a record asks for protection exactly when the record does. -/
theorem protected_normalized {env : Env} {d d' : DesiredState}
    (h : normalizeSmartDesired env d = .ok d') : Protected d'.settings ↔ Protected d.settings := by
  obtain ⟨-, hn, -, -⟩ := (normalizeSmartDesired_eq_ok env d d').mp h
  obtain ⟨-, -, -, -, catalog, rules, -, -, hsettings⟩ :=
    (RoutingSettings.normalized_eq_ok env _ _).mp hn
  rw [Protected, Protected, hsettings]

/-- A persisted record asks for protection. -/
def Covered (w : World) : Prop := ∃ d, w.desired = some d ∧ Protected d.settings

end settings

section predecessors
variable {w : World}

theorem mem_predecessors (n : Str) : n ∈ predecessors w (listing w) ↔
    n ∈ nameSet w ∧ smartStateForTunnel w n = none ∧ (w.services.state n).inUse = true := by
  constructor
  · intro h
    obtain ⟨_, hmem, rfl⟩ := List.mem_map.mp h
    obtain ⟨hmem, hcond⟩ := List.mem_filter.mp hmem
    obtain ⟨m, hm, rfl⟩ := List.mem_map.mp hmem
    have hcond : smartStateForTunnel w m = none ∧ (reported w m).inUse = true := by
      simpa using hcond
    refine ⟨hm, hcond.1, ?_⟩
    rw [reported, hcond.1] at hcond
    exact hcond.2
  · rintro ⟨hmem, hnone, huse⟩
    refine List.mem_map.mpr ⟨(n, reported w n), List.mem_filter.mpr
      ⟨List.mem_map_of_mem hmem, ?_⟩, rfl⟩
    simpa [reported, hnone] using huse

theorem findPredecessor_of_allStopped (h : w.services.AllStopped) :
    findPredecessor w (listing w) = .ok none := by
  have hnil : predecessors w (listing w) = [] := by
    refine List.eq_nil_iff_forall_not_mem.mpr fun n hn => ?_
    exact TunnelState.ne_stopped ((mem_predecessors n).mp hn).2.2 (h n)
  rw [findPredecessor, hnil, onlyOne]

/-- A tunnel in use is found, unless there are several. -/
theorem findPredecessor_ne_none (hnone : w.smartProcess = none) {n : Str}
    (huse : (w.services.state n).inUse = true) {prior : Option Str}
    (h : findPredecessor w (listing w) = .ok prior) : prior ≠ none := by
  have hmem : n ∈ predecessors w (listing w) := by
    refine (mem_predecessors n).mpr ⟨?_, ?_, huse⟩
    · exact List.mem_dedup.mpr (List.mem_append_right _ (w.services.listed n (TunnelState.ne_stopped huse)).2)
    · rw [smartStateForTunnel, hnone]
  unfold findPredecessor onlyOne at h
  split at h
  · rename_i hnil
    rw [hnil] at hmem
    cases hmem
  · cases h
    simp
  · cases h

end predecessors

section closed
variable {G : Question → Answer → Prop} {w w' : World} {env : Env} {a : Attempt} {name : Str}
  {s : RoutingSettings} {back : Back} {r : Except ManagerErr Unit} {process : SmartProcess}

/-- A record asks for protection and no native tunnel is there to return to. -/
structure Sealed (w : World) : Prop where
  covered : Covered w
  quiet : w.services.AllStopped

theorem Sealed.missed {exit : Prop} (h : Sealed w) (hmissed : Missed exit w w') : Sealed w' := by
  rw [hmissed.frame]
  exact ⟨h.covered, h.quiet⟩

/-- Starting an engine without persisting it leaves such a record where it is: only a native
predecessor would have it removed. -/
theorem Sealed.startEnd (h : Sealed w) (hlist : ListHolds G w) (hsmart : usesNativeTunnel s = false)
    (hback : ∀ process u r u', w.smartProcess = some process → Sealed u → back process u r u' →
      Sealed u') (hend : StartEnd G env a name s false back w r w') : Sealed w' := by
  cases hend with
  | untouched e _ missed => exact h.missed missed
  | native _ _ _ hnative => exact absurd hsmart (by simp [hnative])
  | smart _ w₀ _ prior _ missed found hend =>
    have hw₀ := h.missed missed
    obtain rfl := Except.ok.inj ((findPredecessor_of_allStopped h.quiet).symm.trans (found hlist))
    have hlaunch {v : Services} (hv : v.AllStopped) {e : ManagerErr} {w₁ : World}
        (launch : LaunchEnd G env a name s false (w₀.cleared v s) (.error e) w₁) : Sealed w₁ := by
      cases launch
      exact ⟨hw₀.covered, hv⟩
    cases hend with
    | unguarded => exact hw₀
    | unstopped e w₁ v g _ missed₁ low =>
      exact ⟨(hw₀.missed missed₁).covered, fun n => low.within n (hw₀.quiet n)⟩
    | alone e cause v _ _ _ hv launch => exact hlaunch hv launch
    | restored e cause v w₁ _ process _ _ hsome hv launch hb =>
      exact hback process w₁ _ _ (missed.of_some hsome ▸ hsome) (hlaunch hv launch) hb
    | native e cause v w₁ _ n g _ hprior => cases hprior
    | running v _ pid smart hv launch =>
      cases launch with
      | launched guard desired _ kept _ =>
        obtain rfl := kept rfl
        exact ⟨hw₀.covered, hv⟩

theorem Sealed.restoredEnd {u u' : World}
    (h : Sealed u) (hend : restoredEnd G env process u r u') : Sealed u' := by
  obtain ⟨hnone, hend⟩ := hend
  refine h.startEnd (Or.inr hnone) process.smart (fun p _ _ _ hsome => ?_) hend
  rw [hnone] at hsome
  cases hsome

/-- A protected connection that is up or being brought back. -/
structure Closed (w : World) : Prop where
  guard : w.guard ≠ none
  covered : Covered w
  quiet : w.services.AllStopped
  engine : ∀ process, w.smartProcess = some process → Protected process.settings

theorem Closed.detached (h : Closed w) : Closed w.detached :=
  ⟨h.guard, h.covered, h.quiet, fun process hsome => by cases hsome⟩

theorem Closed.missed {exit : Prop} (h : Closed w) (hmissed : Missed exit w w') : Closed w' := by
  rcases hmissed with rfl | ⟨-, rfl⟩
  · exact h
  · exact h.detached

theorem Closed.launch_failed (h : Closed w) (hs : Protected s) {v : Services} (hv : v.AllStopped)
    {e : ManagerErr} (launch : LaunchEnd G env a name s false (w.cleared v s) (.error e) w') :
    Closed w' := by
  cases launch with
  | failed _ engines spawned guard _ hguard _ =>
    refine ⟨?_, h.covered, hv, fun process hsome => by cases hsome⟩
    change guard ≠ none
    rcases hguard with rfl | hguard
    · simp [World.cleared, hs]
    · exact hguard.1 hs

/-- The start of a protected engine lifts the guard on none of its ways out. -/
theorem Closed.startEnd (h : Closed w) (hlist : ListHolds G w) (hs : Protected s)
    (hback : ∀ process u r u', w.smartProcess = some process → Closed u →
      Protected process.settings → back process u r u' → Closed u')
    (hend : StartEnd G env a name s false back w r w') : Closed w' := by
  cases hend with
  | untouched e _ missed => exact h.missed missed
  | native _ _ _ hnative => exact absurd (protected_smart hs) (by simp [hnative])
  | smart _ w₀ _ prior _ missed found hend =>
    have hw₀ := h.missed missed
    obtain rfl := Except.ok.inj ((findPredecessor_of_allStopped h.quiet).symm.trans (found hlist))
    cases hend with
    | unguarded => exact hw₀
    | unstopped e w₁ v g _ missed₁ low _ _ released =>
      have hw₁ := hw₀.missed missed₁
      refine ⟨?_, hw₁.covered, fun n => low.within n (hw₀.quiet n), hw₁.engine⟩
      change g ≠ none
      cases hw : w₀.smartProcess with
      | none => exact released.alone hs rfl hw
      | some process => exact released.closed hs ⟨process, hw, hw₀.engine process hw⟩
    | alone e cause v _ _ _ hv launch => exact hw₀.launch_failed hs hv launch
    | restored e cause v w₁ _ process _ _ hsome hv launch hb =>
      exact hback process w₁ _ _ (missed.of_some hsome ▸ hsome) (hw₀.launch_failed hs hv launch)
        (hw₀.engine process hsome) hb
    | native e cause v w₁ _ n g _ hprior => cases hprior
    | running v _ pid smart hv launch =>
      cases launch with
      | launched guard desired hguard kept _ =>
        refine ⟨hguard.1 hs, ?_, hv, fun process hsome => ?_⟩
        · obtain rfl := kept rfl
          exact hw₀.covered
        · cases hsome
          exact hs

theorem Closed.restoredEnd {u u' : World}
    (h : Closed u) (hs : Protected process.settings) (hend : restoredEnd G env process u r u') :
    Closed u' := by
  obtain ⟨hnone, hend⟩ := hend
  refine h.startEnd (Or.inr hnone) hs (fun p _ _ _ hsome => ?_) hend
  rw [hnone] at hsome
  cases hsome

/-- No exit is noticed between the listing of the tunnels and the end of the loop over the list. -/
def Steady (G : Question → Answer → Prop) : Prop := ∀ n, ¬Exits G (.list n) ∧ ¬Exits G (.loop n)

theorem recoverAs_closed (env : Env) (d : DesiredState) (hd : Protected d.settings) (name : Str)
    (hsteady : Steady G) (h : Closed w) : wp G (recoverAs env d name) (fun _ w' => Closed w') w := by
  have hstart : wp G (smartStartLocked env .target name d.settings false) (fun _ w' => Closed w') w :=
    (smartStartLocked_spec env .target name d.settings false).mono fun _ _ hend =>
      h.startEnd (Or.inl hsteady) hd (fun _ _ _ _ _ hu hp => hu.restoredEnd hp) hend
  refine hstart.bind ?_ fun _ _ hw => hw
  rintro ⟨⟩ w' hw'
  refine wp_ite _ (fun _ => ?_) fun _ => wp_pure _ hw'
  refine (saveSmartDesired_spec env .target name d.settings).mono ?_
  rintro r w'' (⟨d', -, hn, rfl⟩ | ⟨e, -, rfl, -⟩)
  · exact ⟨hw'.guard, ⟨d', rfl, (protected_normalized hn).mpr hd⟩, hw'.quiet, hw'.engine⟩
  · exact hw'

/-- What happens to a connection between the operations of its user. -/
def Event.Automatic : Event → Prop
  | .recover _ | .suspend | .resume | .managerStop | .managerStart | .engineExit _ |
    .exitNoticed _ | .serviceChange _ _ => True
  | _ => False

theorem Event.program_closed (env : Env) (decode : Str → Except SmartErr RoutingSettings)
    (e : Event) (he : e.Automatic) (hsteady : Steady G) (h : Closed w) :
    wp G (e.program env decode) (fun _ w' => Closed w') w := by
  cases e with
  | recover force =>
    refine recoverSmartDesired_spec env Closed force h h.detached fun d₀ d hd₀ hn name u hu => ?_
    obtain ⟨d₁, hd₁, hprotected⟩ := h.covered
    obtain rfl := Option.some.inj (hd₁.symm.trans hd₀)
    exact recoverAs_closed env d ((protected_normalized hn).mpr hprotected) name hsteady hu
  | suspend =>
    refine (pauseSmartForSuspend_spec env).mono ?_
    rintro r w' (rfl | rfl)
    · exact ⟨h.guard, h.covered, h.quiet, h.engine⟩
    · exact ⟨h.guard, h.covered, h.quiet, fun process hsome => by cases hsome⟩
  | resume => exact wp_change _ ⟨h.guard, h.covered, h.quiet, h.engine⟩
  | managerStop => exact (smartStopUnlocked_spec .target).mono fun _ _ hend => hend.1 ▸ h.detached
  | managerStart =>
    exact wp_change _ ⟨h.guard, h.covered, h.quiet, fun process hsome => by cases hsome⟩
  | engineExit pid => exact wp_change _ ⟨h.guard, h.covered, h.quiet, h.engine⟩
  | exitNoticed pid =>
    refine wp_change _ ?_
    split
    · exact ⟨h.guard, h.covered, h.quiet, fun process hsome => by cases hsome⟩
    · exact h
  | serviceChange name left =>
    exact wp_change _ ⟨h.guard, h.covered,
      fun n => w.services.settle_of_stopped name n left (h.quiet n), h.engine⟩
  | _ => exact he.elim

/-- From a protected connection on, no recovery, suspension, exit or restart opens the guard or
loses the record, whatever the system answers and wherever else an exit is noticed: only none may be
noticed while an attempt of a recovery lists the tunnels and goes through the list. -/
theorem protection_stays_closed (decode : Str → Except SmartErr RoutingSettings) (w : World)
    (h : Closed w) (hs : List Happening)
    (hall : ∀ e ∈ hs, e.event.Automatic ∧ Steady (givenBy e.feed)) :
    (run decode w hs).guard ≠ none ∧ Covered (run decode w hs) := by
  have hclosed : Closed (run decode w hs) := by
    refine run_invariant decode Closed (fun _ e => e.event.Automatic ∧ Steady (givenBy e.feed))
      (fun u e hu he => ?_) hs w h fun pre e post heq => hall e (heq ▸ by simp)
    exact (Event.program_closed e.env decode e.event he.1 he.2 hu).ending _ (grants_givenBy e.feed)
  exact ⟨hclosed.guard, hclosed.covered⟩

/-- A system in which the engine exits before a lock is taken at some places. -/
def exiting (exits : Place → Bool) (refused : Question → Bool) : Feed Question Answer := fun k q =>
  { answering refused k q with exited := q.step.place.any exits }

/-- The protected engine of "Home" exits when a recovery has found no other tunnel to return to, and
its start fails; then the manager is restarted, and the next recovery fails too. -/
theorem protection_stays_closed_exit :
    (run (fun _ => .ok guardedSettings) { homeWorld with profiles := [ascii "Home"] }
      [⟨.recover true, plainEnv, exiting (· = .prior) fun q => q.step = .rotateLog⟩,
        ⟨.managerStart, plainEnv, answering fun _ => false⟩,
        ⟨.recover true, plainEnv, answering fun q => q.step = .startProcess⟩]).guard ≠ none ∧
      Covered (run (fun _ => .ok guardedSettings) { homeWorld with profiles := [ascii "Home"] }
        [⟨.recover true, plainEnv, exiting (· = .prior) fun q => q.step = .rotateLog⟩,
          ⟨.managerStart, plainEnv, answering fun _ => false⟩,
          ⟨.recover true, plainEnv, answering fun q => q.step = .startProcess⟩]) := by
  have hstill (refused : Question → Bool) : Steady (givenBy (answering refused)) :=
    fun n => ⟨answering_still refused _, answering_still refused _⟩
  refine protection_stays_closed _ _ ⟨?_, ?_, fun _ => rfl, ?_⟩ _ ?_
  · exact Option.some_ne_none 7
  · exact ⟨_, rfl, rfl⟩
  · intro process hsome
    cases hsome
    rfl
  · intro e he
    rcases List.mem_cons.mp he with rfl | he
    · refine ⟨trivial, fun n => ⟨?_, ?_⟩⟩
      · rintro ⟨a, _, ⟨k, rfl⟩, hexit⟩
        cases hexit
      · rintro ⟨a, _, ⟨k, rfl⟩, hexit⟩
        cases hexit
    · rcases List.mem_pair.mp he with rfl | rfl
      · exact ⟨trivial, hstill _⟩
      · exact ⟨trivial, hstill _⟩

/-- The same engine exits after its tunnel was listed as started and before the loop comes to it. The
tunnel is taken for a native one; when the start fails, the guard is lifted for it and the record
removed. -/
theorem exit_in_recovery_opens_guard :
    Closed { homeWorld with profiles := [ascii "Home"] } ∧ (Event.recover true).Automatic ∧
      (run (fun _ => .ok guardedSettings) { homeWorld with profiles := [ascii "Home"] }
        [⟨.recover true, plainEnv, exiting (· = .loop (ascii "Home"))
          fun q => q.step = .rotateLog⟩]).guard = none ∧
      (run (fun _ => .ok guardedSettings) { homeWorld with profiles := [ascii "Home"] }
        [⟨.recover true, plainEnv, exiting (· = .loop (ascii "Home"))
          fun q => q.step = .rotateLog⟩]).desired = none := by
  refine ⟨⟨?_, ⟨_, rfl, rfl⟩, fun _ => rfl, ?_⟩, trivial, ?_, ?_⟩
  · exact Option.some_ne_none 7
  · intro process hsome
    cases hsome
    rfl
  · decide +kernel
  · decide +kernel

end closed

end SmartAwg.Manager
