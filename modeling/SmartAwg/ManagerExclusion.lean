import SmartAwg.ManagerRun

/-!
The two kinds of tunnels exclude each other: at most one engine is alive, it is the recorded one,
and no native service runs beside it.
-/

namespace SmartAwg.Manager

open Go Smart Fallible

section invariant
variable {G : Question → Answer → Prop} {w w' : World} {env : Env} {a : Attempt} {name : Str}
  {s : RoutingSettings} {persist : Bool} {back : Back} {r : Except ManagerErr Unit}

/-- The recorded engine may have exited, so only an engine that is alive has to be recorded; but
already a record keeps native tunnels from being started. -/
structure Exclusive (w : World) : Prop where
  recorded : ∀ pid ∈ w.engines, ∃ process, w.smartProcess = some process ∧ process.pid = pid
  single : w.engines.length ≤ 1
  quiet : w.smartProcess ≠ none → w.services.AllStopped

/-- Without an engine there is nothing to exclude. -/
theorem Exclusive.of_idle (hnone : w.smartProcess = none) (hengines : w.engines = []) :
    Exclusive w where
  recorded := by simp [hengines]
  single := by simp [hengines]
  quiet := fun h => absurd hnone h

theorem Exclusive.detached_engines (h : Exclusive w) : w.detached.engines = [] := by
  refine List.eq_nil_iff_forall_not_mem.mpr fun pid hpid => ?_
  cases hw : w.smartProcess with
  | none =>
    have hmem : pid ∈ w.engines := by simpa [World.detached, leftOver, hw] using hpid
    obtain ⟨process, hprocess, -⟩ := h.recorded pid hmem
    rw [hw] at hprocess
    cases hprocess
  | some process =>
    have hmem : pid ∈ w.engines ∧ pid ≠ process.pid := by
      simpa [World.detached, leftOver, hw] using hpid
    obtain ⟨process', hprocess, heq⟩ := h.recorded pid hmem.1
    rw [hw] at hprocess
    cases hprocess
    exact hmem.2 heq.symm

theorem Exclusive.detached (h : Exclusive w) : Exclusive w.detached :=
  .of_idle rfl h.detached_engines

theorem Exclusive.missed {exit : Prop} (h : Exclusive w) (hmissed : Missed exit w w') :
    Exclusive w' := by
  rcases hmissed with rfl | ⟨-, rfl⟩
  · exact h
  · exact h.detached

/-- After a failed launch no engine is there. -/
theorem Exclusive.launch_failed (h : Exclusive w) {e : ManagerErr}
    (launch : LaunchEnd G env a name s persist w (.error e) w') :
    w'.smartProcess = none ∧ w'.engines = [] := by
  cases launch with
  | failed _ engines _ _ old =>
    refine ⟨rfl, List.eq_nil_iff_forall_not_mem.mpr fun pid hpid => ?_⟩
    have hmem := old pid hpid
    rw [h.detached_engines] at hmem
    cases hmem

theorem Exclusive.nativeEnd (h : Exclusive w)
    (hend : NativeEnd G a name w r w') : Exclusive w' := by
  cases hend with
  | failed e v hv =>
    refine ⟨h.recorded, h.single, fun hsome => ?_⟩
    change v.AllStopped
    rw [hv hsome]
    exact h.quiet hsome
  | started v hnone _ _ => exact ⟨h.recorded, h.single, fun hsome => absurd hnone hsome⟩

/-- One case for each way out of the start of an engine. -/
theorem Exclusive.smartEnd (h : Exclusive w)
    (hback : ∀ process u r u', w.smartProcess = some process → Exclusive u → back process u r u' →
      Exclusive u') {prior : Option Str}
    (hend : SmartEnd G env a name s persist prior back w r w') : Exclusive w' := by
  -- raising the guard and stopping the services leaves the engine as it is
  have hcleared (v : Services) (hv : v.AllStopped) : Exclusive (w.cleared v s) :=
    ⟨h.recorded, h.single, fun _ => hv⟩
  cases hend with
  | unguarded => exact h
  | unstopped e w₁ v g touched missed low =>
    have hw₁ := h.missed missed
    refine ⟨hw₁.recorded, hw₁.single, fun hsome n => low.within n (h.quiet (fun hnone => hsome ?_) n)⟩
    rw [missed.of_none hnone]
    exact hnone
  | alone e cause v _ _ _ hv launch =>
    obtain ⟨hnone, hengines⟩ := (hcleared v hv).launch_failed launch
    exact .of_idle hnone hengines
  | restored e cause v w₁ _ process _ _ hsome hv launch hb =>
    obtain ⟨hnone, hengines⟩ := (hcleared v hv).launch_failed launch
    exact hback process w₁ _ _ hsome (.of_idle hnone hengines) hb
  | native e cause v w₁ _ n g _ _ hv launch _ hb =>
    obtain ⟨hnone, hengines⟩ := (hcleared v hv).launch_failed launch
    have hw₁ : Exclusive { w₁ with guard := g } := .of_idle hnone hengines
    exact hw₁.nativeEnd hb
  | running v _ pid smart hv launch =>
    have hengines := (hcleared v hv).detached_engines
    cases launch with
    | launched guard desired =>
      refine ⟨fun pid hpid => ?_, ?_, fun _ => hv⟩
      · change pid ∈ (w.cleared v s).spawned :: (w.cleared v s).detached.engines at hpid
        rw [hengines, List.mem_singleton] at hpid
        exact ⟨_, rfl, hpid.symm⟩
      · change ((w.cleared v s).spawned :: (w.cleared v s).detached.engines).length ≤ 1
        rw [hengines]
        exact Nat.le_refl 1

theorem Exclusive.turnEnd (h : Exclusive w)
    (hback : ∀ process u r u', w.smartProcess = some process → Exclusive u → back process u r u' →
      Exclusive u') (hend : TurnEnd G a name back w r w') : Exclusive w' := by
  have hidle (u : World) (hnone : u.smartProcess = none)
      (hengines : u.engines = w.detached.engines) : Exclusive u :=
    .of_idle hnone (hengines.trans h.detached_engines)
  cases hend with
  | unstopped => exact hidle _ rfl rfl
  | failed e _ _ hend => exact h.detached.nativeEnd hend
  | restored e cause w₁ _ process _ hsome hend hb =>
    exact hback process w₁ _ _ hsome (h.detached.nativeEnd hend) hb
  | guarded => exact hidle _ rfl rfl
  | undone => exact hidle _ rfl rfl
  | started => exact hidle _ rfl rfl

theorem Exclusive.startEnd (h : Exclusive w)
    (hback : ∀ process u r u', w.smartProcess = some process → Exclusive u → back process u r u' →
      Exclusive u') (hend : StartEnd G env a name s persist back w r w') : Exclusive w' := by
  -- an engine that is still recorded once the start has looked was so before
  have hback' {w₀ : World} (missed : Missed (∃ place, Exits G place) w w₀) :
      ∀ process u r u', w₀.smartProcess = some process → Exclusive u → back process u r u' →
        Exclusive u' := fun process u r u' hsome => hback process u r u' (missed.of_some hsome ▸ hsome)
  cases hend with
  | untouched e w₀ missed => exact h.missed missed
  | smart _ w₀ _ prior _ missed _ hend => exact (h.missed missed).smartEnd (hback' missed) hend
  | native _ w₀ _ _ missed hend => exact (h.missed missed).turnEnd (hback' missed) hend

/-- Restoring a predecessor starts from a world without an engine, so it has none to restore. -/
theorem Exclusive.restoredEnd {process : SmartProcess} {u u' : World}
    (h : Exclusive u) (hend : restoredEnd G env process u r u') : Exclusive u' := by
  obtain ⟨hnone, hend⟩ := hend
  refine h.startEnd (fun p _ _ _ hsome => ?_) hend
  rw [hnone] at hsome
  cases hsome

end invariant

section events
variable {G : Question → Answer → Prop} {w : World} (env : Env)

theorem smartStartLocked_exclusive (a : Attempt) (name : Str) (s : RoutingSettings)
    (persist : Bool) (h : Exclusive w) :
    wp G (smartStartLocked env a name s persist) (fun _ w' => Exclusive w') w :=
  (smartStartLocked_spec env a name s persist).mono fun _ _ hend =>
    h.startEnd (fun _ _ _ _ _ hu => hu.restoredEnd) hend

theorem stop_exclusive (name : Str) (h : Exclusive w) :
    wp G (stop env name) (fun _ w' => Exclusive w') w := by
  refine (stop_spec env name).mono ?_
  rintro r w' ⟨w₀, missed, u, removed, lifted, v, hend⟩
  have hw₀ := h.missed missed
  have hu : Exclusive u ∧ (u.smartProcess ≠ none → w₀.smartProcess ≠ none) := by
    have hwithout : Exclusive (w₀.without name) ∧
        ((w₀.without name).smartProcess ≠ none → w₀.smartProcess ≠ none) := by
      rcases w₀.without_cases name with ⟨-, hw⟩ | ⟨-, hw⟩
      · rw [hw]
        exact ⟨hw₀.detached, fun hsome => absurd rfl hsome⟩
      · rw [hw]
        exact ⟨hw₀, fun hsome => hsome⟩
    refine ⟨hwithout.1.missed hend.engine, fun hsome => hwithout.2 fun hnone => hsome ?_⟩
    rw [hend.engine.of_none hnone]
    exact hnone
  rw [hend.state]
  exact ⟨hu.1.recorded, hu.1.single, fun hsome n => hend.within n (hw₀.quiet (hu.2 hsome) n)⟩

theorem recoverAs_exclusive (d : DesiredState) (name : Str) (h : Exclusive w) :
    wp G (recoverAs env d name) (fun _ w' => Exclusive w') w := by
  refine (smartStartLocked_exclusive env .target name d.settings false h).bind ?_ fun _ _ hw => hw
  rintro ⟨⟩ w' hw'
  refine wp_ite _ (fun _ => ?_) fun _ => wp_pure _ hw'
  refine (saveSmartDesired_spec env .target name d.settings).mono ?_
  rintro r w'' (⟨d', -, -, rfl⟩ | ⟨e, -, rfl, -⟩)
  · exact ⟨hw'.recorded, hw'.single, hw'.quiet⟩
  · exact hw'

/-- Every event keeps the two kinds of tunnels apart. -/
theorem Event.program_exclusive (decode : Str → Except SmartErr RoutingSettings) (e : Event)
    (h : Exclusive w) : wp G (e.program env decode) (fun _ w' => Exclusive w') w := by
  cases e with
  | start name =>
    exact (startNativeUnlocked_spec .target name).mono fun _ _ ⟨_, missed, hend⟩ =>
      (h.missed missed).nativeEnd hend
  | stop name => exact stop_exclusive env name h
  | delete elevated name =>
    refine wp_ite _ (fun _ => ?_) fun _ => wp_fail _ h
    refine (stop_exclusive env name h).bind ?_ fun _ _ hw => hw
    rintro ⟨⟩ w' hw'
    refine wp_must_bind (fun r _ hf => wp_pure _ ?_) fun r _ _ hf => ?_
    · simp only [effect, hf, if_true]
      exact ⟨hw'.recorded, hw'.single, hw'.quiet⟩
    · simp only [effect, hf, if_false]
      exact hw'
  | smartStart elevated name raw =>
    refine wp_ite _ (fun _ => ?_) fun _ => wp_fail _ h
    cases parseSettingsPayload env decode raw with
    | error e => exact wp_fail _ h
    | ok s => exact smartStartLocked_exclusive env .target name s true h
  | smartStop elevated =>
    refine (smartStop_spec elevated).mono ?_
    rintro r w' (rfl | ⟨d, g, rfl, -⟩)
    · exact h
    · exact .of_idle rfl h.detached_engines
  | recover force =>
    exact recoverSmartDesired_spec env Exclusive force h h.detached fun _ d _ _ name u hu =>
      recoverAs_exclusive env d name hu
  | suspend =>
    refine (pauseSmartForSuspend_spec env).mono ?_
    rintro r w' (rfl | rfl)
    · exact ⟨h.recorded, h.single, h.quiet⟩
    · exact .of_idle rfl h.detached_engines
  | resume => exact wp_change _ ⟨h.recorded, h.single, h.quiet⟩
  | managerStop => exact (smartStopUnlocked_spec .target).mono fun _ _ hend => hend.1 ▸ h.detached
  | managerStart => exact wp_change _ (.of_idle rfl rfl)
  | engineExit pid =>
    refine wp_change _ ⟨fun p hp => h.recorded p (List.mem_of_mem_filter hp), ?_, h.quiet⟩
    exact (List.length_filter_le _ _).trans h.single
  | exitNoticed pid =>
    refine wp_change _ ?_
    split
    · rename_i hdead
      -- the engine that is missed is the only one that could have been alive
      refine .of_idle rfl (List.eq_nil_iff_forall_not_mem.mpr fun p hp => ?_)
      obtain ⟨process, hprocess, rfl⟩ := h.recorded p hp
      rw [hprocess] at hdead
      have hpid : process.pid = pid := by simpa using hdead.2
      exact hdead.1 (hpid ▸ hp)
    · exact h
  | serviceChange name left =>
    refine wp_change _ ⟨h.recorded, h.single, fun hsome n => ?_⟩
    exact w.services.settle_of_stopped name n left (h.quiet hsome n)

end events

/-- Whatever the system answers and whatever happens between the operations of a manager: at most
one engine is alive, it is the recorded one, and while it is alive no native service runs. -/
theorem engines_exclusive (decode : Str → Except SmartErr RoutingSettings) (w : World)
    (hs : List Happening) :
    (run decode w.restarted hs).engines.length ≤ 1 ∧
      (∀ pid ∈ (run decode w.restarted hs).engines, ∃ process,
        (run decode w.restarted hs).smartProcess = some process ∧ process.pid = pid) ∧
      ((run decode w.restarted hs).engines ≠ [] →
        ∀ n, (run decode w.restarted hs).services.state n = .stopped) := by
  have h : Exclusive (run decode w.restarted hs) := by
    refine run_invariant decode Exclusive (fun _ _ => True) (fun u happening hu _ => ?_) hs _
      (.of_idle rfl rfl) fun _ _ _ _ => trivial
    exact (Event.program_exclusive (G := fun _ _ => True) happening.env decode happening.event
      hu).ending _ fun _ _ => trivial
  refine ⟨h.single, h.recorded, fun hne => h.quiet fun hnone => ?_⟩
  obtain ⟨pid, hpid⟩ := List.exists_mem_of_ne_nil _ hne
  obtain ⟨process, hprocess, -⟩ := h.recorded pid hpid
  rw [hnone] at hprocess
  cases hprocess

end SmartAwg.Manager
