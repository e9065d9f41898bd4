import SmartAwg.ManagerGuard

/-!
The guard is orphaned when its filters block the traffic although no engine runs and no record
asks for protection. From a clean start this does not happen as long as every operation meets the
condition stated here; each part of the condition names a way in which the manager orphans it.
-/

namespace SmartAwg.Manager

open Go Smart Fallible

section orphans
variable {G : Question → Answer → Prop} {w w' : World} {env : Env} {a : Attempt} {name : Str}
  {s : RoutingSettings} {persist : Bool} {back : Back}
  {r : Except ManagerErr Unit} {e : ManagerErr} {process : SmartProcess} {u : World} {d : DesiredState}

/-- An installed guard has a record that asks for it, and an engine that asks for protection has
no record that does not. -/
structure Guarded (w : World) : Prop where
  covered : w.guard ≠ none → Covered w
  matched : ∀ process d, w.smartProcess = some process → w.desired = some d →
    Protected process.settings → Protected d.settings

/-- Lifting the guard and removing the record are never refused. -/
structure Liftable (G : Question → Answer → Prop) : Prop where
  guard : ∀ a, Granted G ⟨a, .clearGuard⟩
  record : ∀ a, Granted G ⟨a, .removeDesired⟩

theorem Guarded.of_none (hguard : w.guard = none) (hnone : w.smartProcess = none) : Guarded w where
  covered := fun h => absurd hguard h
  matched := by
    intro process d hsome
    rw [hnone] at hsome
    cases hsome

/-- The same guard and record without an engine. -/
theorem Guarded.idle (h : Guarded w) (hguard : w'.guard = w.guard) (hdesired : w'.desired = w.desired)
    (hnone : w'.smartProcess = none) : Guarded w' where
  covered := by
    intro hne
    obtain ⟨d, hd, hp⟩ := h.covered (hguard ▸ hne)
    exact ⟨d, hdesired.trans hd, hp⟩
  matched := by
    intro process d hsome
    rw [hnone] at hsome
    cases hsome

theorem Guarded.missed {exit : Prop} (h : Guarded w) (hmissed : Missed exit w w') : Guarded w' := by
  rcases hmissed with rfl | ⟨-, rfl⟩
  · exact h
  · exact h.idle rfl rfl rfl

theorem Guarded.nativeEnd (h : Guarded w) (hguard : w.guard = none)
    (hend : NativeEnd G a name w r w') : Guarded w' := by
  cases hend with
  | failed e v => exact ⟨fun hne => absurd hguard hne, h.matched⟩
  | started v hnone _ _ => exact .of_none hguard hnone

/-- After a failed launch: either the record covers the guard, or the guard was not raised. -/
theorem Guarded.launch_failed (h : Guarded w) (hs : Protected s → Covered w) {v : Services}
    (launch : LaunchEnd G env a name s persist (w.cleared v s) (.error e) w') :
    Guarded w' := by
  cases launch with
  | failed _ engines spawned guard _ hguard _ =>
    refine ⟨fun hne => ?_, fun process d hsome => by cases hsome⟩
    change guard ≠ none at hne
    by_cases hp : Protected s
    · exact hs hp
    · rcases hguard with rfl | hguard
      · have hsame : (w.cleared v s).guard = w.guard := if_neg hp
        rw [hsame] at hne
        exact h.covered hne
      · exact absurd (hguard.2 hp) hne

/-- An engine that runs has written its record, or it runs on the one that is there. -/
theorem Guarded.launched (hs : Protected s → Covered w ∨ persist = true) {v : Services} {pid : Nat}
    (launch : LaunchEnd G env a name s persist (w.cleared v s) (.ok pid) w')
    (smart : usesNativeTunnel s = false) :
    Guarded { w' with smartProcess := some ⟨name, s, pid, smart⟩ } := by
  cases launch with
  | launched guard desired hguard kept saved =>
    have hcover : Protected s → ∃ d, desired = some d ∧ Protected d.settings := by
      intro hp
      cases persist with
      | true =>
        obtain ⟨d, hd, hn⟩ := saved rfl
        exact ⟨d, hd, (protected_normalized hn).mpr hp⟩
      | false =>
        rw [kept rfl]
        exact (hs hp).resolve_right nofun
    refine ⟨fun hne => ?_, fun process d hsome hd hp => ?_⟩
    · change guard ≠ none at hne
      by_cases hp : Protected s
      · exact hcover hp
      · exact absurd (hguard.2 hp) hne
    · cases hsome
      obtain ⟨d', hd', hp'⟩ := hcover hp
      obtain rfl := Option.some.inj (hd.symm.trans hd')
      exact hp'

/-- Once such a start has raised the guard it comes to write its record: nothing that it asks for in
between is refused, and the record is one that can be written. -/
structure Persists (G : Question → Answer → Prop) (env : Env) (a : Attempt) (name : Str)
    (s : RoutingSettings) : Prop where
  smart : usesNativeTunnel s = false
  granted : ¬LateRefused G a
  written : ∃ d, normalizeSmartDesired env ⟨name, s⟩ = .ok d

theorem Persists.launches (h : Persists G env a name s)
    (launch : LaunchEnd G env a name s persist w (.error e) w') : False := by
  cases launch with
  | failed _ _ _ _ _ _ why =>
    rcases why with hlate | ⟨p, -, hg⟩ | ⟨-, hno⟩
    · exact h.granted hlate
    · exact h.granted ⟨_, rfl, hg⟩
    · obtain ⟨d, hd⟩ := h.written
      exact hno d hd

/-- The start of an engine leaves no guard behind when a record covers it already, when the tunnel
it replaces is a native one, since then every failure lifts the guard, or when it comes to write its
own record. -/
theorem Guarded.startEnd (h : Guarded w) (hx : Exclusive w) (hlift : Liftable G)
    (hs : Protected s → Covered w ∨ persist = true ∧
      ((∃ n, (w.services.state n).inUse = true) ∨ Persists G env a name s))
    (he : ∀ process, w.smartProcess = some process → Protected process.settings →
      Covered w ∨ Persists G env a name s)
    (hback : ∀ process u r u', w.smartProcess = some process → Exclusive u → Guarded u →
      (Protected process.settings → Covered u) → back process u r u' → Guarded u')
    (hend : StartEnd G env a name s persist back w r w') : Guarded w' := by
  cases hend with
  | untouched e w₀ missed => exact h.missed missed
  | native _ w₀ _ hnative missed hend =>
    have hw₀ := h.missed missed
    have hx₀ := hx.missed missed
    have hdetached : Guarded w₀.detached := hw₀.idle rfl rfl rfl
    cases hend with
    | unstopped => exact hdetached
    | failed e _ _ hend =>
      cases hend with
      | failed e v => exact hw₀.idle rfl rfl rfl
    | restored e cause w₁ _ process _ hsome hend hb =>
      have hw := missed.of_some hsome
      subst hw
      have hx₁ := hx₀.detached.nativeEnd hend
      cases hend with
      | failed _ v =>
        refine hback process _ _ _ hsome hx₁ (hw₀.idle rfl rfl rfl) (fun hp => ?_) hb
        exact (he process hsome hp).resolve_right fun hpersists => by simp [hpersists.smart] at hnative
    | guarded e v _ hg => exact absurd (hlift.guard a) hg
    | undone e v hg => exact absurd (hlift.record a) hg
    | started v _ => exact .of_none rfl rfl
  | smart _ w₀ _ prior _ missed found hend =>
    have hw₀ := h.missed missed
    have hx₀ := hx.missed missed
    have hcovered₀ : Covered w → Covered w₀ := fun hcovered => by
      rw [missed.frame]
      exact hcovered
    -- a native tunnel in use is the predecessor, and there is no engine beside it
    have hnative : ∀ n, (w.services.state n).inUse = true →
        w.smartProcess = none ∧ w₀.smartProcess = none ∧ prior ≠ none := by
      intro n huse
      have hnone : w.smartProcess = none := by
        by_contra hsome
        exact TunnelState.ne_stopped huse (hx.quiet hsome n)
      refine ⟨hnone, ?_, findPredecessor_ne_none hnone huse (found (Or.inr hnone))⟩
      rw [missed.of_none hnone, hnone]
    -- without a predecessor a launch fails only where a record covers the guard already
    have hcovered {u u' : World} {e : ManagerErr} (hprior : prior = none)
        (launch : LaunchEnd G env a name s persist u (.error e) u') (hp : Protected s) : Covered w₀ := by
      rcases hs hp with hcovered | ⟨-, ⟨n, huse⟩ | hpersists⟩
      · exact hcovered₀ hcovered
      · exact absurd hprior (hnative n huse).2.2
      · exact (hpersists.launches launch).elim
    cases hend with
    | unguarded => exact hw₀
    | unstopped e w₁ v g _ missed₁ _ why _ released =>
      have hw₁ := hw₀.missed missed₁
      refine ⟨fun hne => ?_, hw₁.matched⟩
      change g ≠ none at hne
      suffices hcovered : Covered w₀ by
        obtain ⟨d, hd, hp⟩ := hcovered
        exact ⟨d, by rw [missed₁.frame]; exact hd, hp⟩
      by_cases hp : Protected s
      · rcases hs hp with hcovered | ⟨-, ⟨n, huse⟩ | hpersists⟩
        · exact hcovered₀ hcovered
        · obtain ⟨-, hnone, hsome⟩ := hnative n huse
          exact absurd (released.lifted hp hsome hnone (hlift.guard a)) hne
        · exact absurd why hpersists.granted
      · rw [released.open_same hp] at hne
        exact hw₀.covered hne
    | alone e cause v _ hprior hnone hv launch => exact hw₀.launch_failed (hcovered hprior launch) launch
    | restored e cause v w₁ _ process _ hprior hsome hv launch hb =>
      have hw := missed.of_some hsome
      subst hw
      have hcleared : Exclusive (w₀.cleared v s) := ⟨hx₀.recorded, hx₀.single, fun _ => hv⟩
      obtain ⟨hnone, hengines⟩ := hcleared.launch_failed launch
      refine hback process w₁ _ _ hsome (.of_idle hnone hengines)
        (hw₀.launch_failed (hcovered hprior launch) launch) (fun hp => ?_) hb
      have hkept := (he process hsome hp).resolve_right fun hpersists => hpersists.launches launch
      cases launch with
      | failed => exact hkept
    | native e cause v w₁ _ n g _ _ hv launch hguard hb =>
      have hnone : w₁.smartProcess = none := LaunchEnd.smartProcess_none _ _ _ _ _ launch
      rcases hguard with rfl | ⟨-, hg⟩
      · have hw₁ : Guarded { w₁ with guard := none } := .of_none rfl hnone
        exact hw₁.nativeEnd rfl hb
      · exact absurd (hlift.guard _) hg
    | running v _ pid smart hv launch => exact .launched (fun hp => (hs hp).imp hcovered₀ And.left) launch smart

theorem Guarded.restoredEnd {u' : World} (h : Guarded u) (hx : Exclusive u) (hlift : Liftable G)
    (hs : Protected process.settings → Covered u) (hend : restoredEnd G env process u r u') :
    Guarded u' := by
  obtain ⟨hnone, hend⟩ := hend
  have hno : ∀ p, u.smartProcess ≠ some p := fun p => by simp [hnone]
  exact h.startEnd hx hlift (fun hp => Or.inl (hs hp)) (fun p hsome => absurd hsome (hno p))
    (fun p _ _ _ hsome => absurd hsome (hno p)) hend

/-- An unprotected start that succeeds has lifted the guard. -/
theorem StartEnd.opened (hs : ¬Protected s)
    (hend : StartEnd G env a name s persist back w (.ok ()) w') : w'.guard = none := by
  cases hend with
  | smart _ w₀ _ prior _ _ _ hend =>
    cases hend with
    | running v _ pid smart hv launch =>
      cases launch with
      | launched guard desired hguard => exact hguard.2 hs
  | native _ w₀ _ _ _ hend =>
    cases hend
    rfl

/-- No recorded engine asks for protection. -/
def Unprotected (w : World) : Prop :=
  ∀ process, w.smartProcess = some process → ¬Protected process.settings

theorem Unprotected.of_none (hnone : w.smartProcess = none) : Unprotected w := by
  intro process hsome
  rw [hnone] at hsome
  cases hsome

theorem Unprotected.missed {exit : Prop} (h : Unprotected w) (hmissed : Missed exit w w') :
    Unprotected w' := by
  intro process hsome
  exact h process (hmissed.of_some hsome ▸ hsome)

theorem Unprotected.startEnd (h : Unprotected w) (hs : ¬Protected s)
    (hback : ∀ process u r u', w.smartProcess = some process → back process u r u' → Unprotected u')
    (hend : StartEnd G env a name s persist back w r w') : Unprotected w' := by
  have hend_none {u u' : World} {b : Attempt} {n : Str} {r : Except ManagerErr Unit}
      (hnone : u.smartProcess = none) (hend : NativeEnd G b n u r u') : Unprotected u' := by
    cases hend <;> exact .of_none hnone
  cases hend with
  | untouched e w₀ missed => exact h.missed missed
  | native _ w₀ _ _ missed hend =>
    cases hend with
    | restored e cause w₁ _ process _ hsome _ hb =>
      exact hback process _ _ _ (missed.of_some hsome ▸ hsome) hb
    | failed e _ _ hend => exact hend_none rfl hend
    | _ => exact .of_none rfl
  | smart _ w₀ _ prior _ missed _ hend =>
    have hw₀ := h.missed missed
    cases hend with
    | unguarded => exact hw₀
    | unstopped e w₁ v g _ missed₁ =>
      have hw₁ := hw₀.missed missed₁
      exact hw₁
    | alone e cause v _ _ _ hv launch =>
      exact .of_none (LaunchEnd.smartProcess_none _ _ _ _ _ launch)
    | restored e cause v w₁ _ process _ hprior hsome hv launch hb =>
      exact hback process w₁ _ _ (missed.of_some hsome ▸ hsome) hb
    | native e cause v w₁ _ n g _ _ hv launch hguard hb =>
      have hnone : w₁.smartProcess = none := LaunchEnd.smartProcess_none _ _ _ _ _ launch
      exact hend_none (u := { w₁ with guard := g }) hnone hb
    | running v _ pid smart hv launch =>
      intro process hsome
      cases hsome
      exact hs

theorem Unprotected.restoredEnd {u' : World} (hs : ¬Protected process.settings)
    (hend : restoredEnd G env process u r u') : Unprotected u' := by
  obtain ⟨hnone, hend⟩ := hend
  have hno : ∀ p, u.smartProcess ≠ some p := fun p => by simp [hnone]
  exact Unprotected.startEnd (fun p hsome => absurd hsome (hno p)) hs
    (fun p _ _ _ hsome => absurd hsome (hno p)) hend

/-- `Stop` orphans no guard when it lifts the guard of the record it removes. -/
theorem Guarded.stopEnd (h : Guarded w) (hlift : Liftable G)
    (hsafe : w.guard = none ∨ (smartStateForTunnel w name).isSome = true ∨
      ¬MatchesDesired env w name ∨ NamesDesired env w name ∧ Granted G ⟨.target, .readDesired⟩)
    {removed lifted : Bool} {v : Services}
    (hend : StopEnd G env name w u w' removed lifted v) : Guarded w' := by
  have hguard : lifted = true ∨ w.guard = none ∨ removed = false := by
    rcases hsafe with hnone | hsome | hno | hnames
    · exact Or.inr (Or.inl hnone)
    · exact Or.inl (hend.lifts (Or.inl hsome) (hlift.guard _))
    · refine Or.inr (Or.inr (Bool.eq_false_iff.mpr fun hremoved => hno (hend.of_removed hremoved)))
    · exact Or.inl (hend.lifts (Or.inr hnames) (hlift.guard _))
  have hprocess : ∀ process, u.smartProcess = some process → w.smartProcess = some process := by
    intro process hsome
    rw [hend.engine.of_some hsome] at hsome
    rcases w.without_cases name with ⟨-, hw⟩ | ⟨-, hw⟩
    · rw [hw] at hsome
      cases hsome
    · rwa [hw] at hsome
  rw [hend.state]
  refine ⟨fun hne => ?_, fun process d hsome hd => ?_⟩
  · change (if lifted then none else w.guard) ≠ none at hne
    rcases hguard with rfl | hnone | rfl
    · exact absurd rfl hne
    · rw [hnone, ite_self] at hne
      exact absurd rfl hne
    · refine h.covered fun hnone => hne ?_
      rw [hnone, ite_self]
  · change (if removed then none else w.desired) = some d at hd
    cases removed with
    | true => cases hd
    | false => exact h.matched process d (hprocess process hsome) hd

/-- What the attempts of a recovery keep, when the record asks for protection and when it does
not. -/
structure Recovering (d : DesiredState) (w : World) : Prop where
  exclusive : Exclusive w
  guarded : Guarded w
  sealed_of : Protected d.settings → Sealed w
  unprotected : ¬Protected d.settings → Unprotected w

theorem Recovering.detached (h : Recovering d w) : Recovering d w.detached where
  exclusive := h.exclusive.detached
  guarded := h.guarded.idle rfl rfl rfl
  sealed_of := fun hd => ⟨(h.sealed_of hd).covered, (h.sealed_of hd).quiet⟩
  unprotected := fun _ => .of_none rfl

theorem Recovering.smartStart (h : Recovering d w) (hlift : Liftable G)
    (hsteady : Protected d.settings → Steady G) :
    wp G (smartStartLocked env .target name d.settings false) (fun r w' => Recovering d w' ∧
      (r = .ok () → ¬Protected d.settings → w'.guard = none)) w := by
  have he : ∀ process, w.smartProcess = some process → Protected process.settings → Covered w := by
    intro process hsome hp
    by_cases hd : Protected d.settings
    · exact (h.sealed_of hd).covered
    · exact absurd hp (h.unprotected hd process hsome)
  refine ((smartStartLocked_exclusive env .target name d.settings false h.exclusive).and
    (smartStartLocked_spec env .target name d.settings false)).mono ?_
  rintro r w' ⟨hx, hend⟩
  refine ⟨⟨hx, ?_, fun hd => ?_, fun hd => ?_⟩, ?_⟩
  · exact h.guarded.startEnd h.exclusive hlift (fun hd => Or.inl (h.sealed_of hd).covered)
      (fun process hsome hp => Or.inl (he process hsome hp))
      (fun _ _ _ _ _ hxu hu hp hb => hu.restoredEnd hxu hlift hp hb) hend
  · exact (h.sealed_of hd).startEnd (Or.inl (hsteady hd)) (protected_smart hd)
      (fun _ _ _ _ _ hu hb => hu.restoredEnd hb) hend
  · exact (h.unprotected hd).startEnd hd
      (fun process _ _ _ hsome hb => .restoredEnd (h.unprotected hd process hsome) hb) hend
  · rintro rfl hd
    exact hend.opened hd

theorem Recovering.recoverAs (h : Recovering d w) (hlift : Liftable G)
    (hsteady : Protected d.settings → Steady G) :
    wp G (recoverAs env d name) (fun _ w' => Recovering d w') w := by
  refine (h.smartStart hlift hsteady).bind ?_ fun _ _ hw => hw.1
  rintro ⟨⟩ w ⟨hw, hopened⟩
  refine wp_ite _ (fun _ => ?_) fun _ => wp_pure _ hw
  refine (saveSmartDesired_spec env .target name d.settings).mono ?_
  rintro r w' (⟨d', -, hn, rfl⟩ | ⟨e, -, rfl, -⟩)
  swap
  · exact hw
  -- the new record asks for protection exactly when the old one did
  have hd' := protected_normalized hn
  refine ⟨⟨hw.exclusive.recorded, hw.exclusive.single, hw.exclusive.quiet⟩,
    ⟨fun hne => ?_, fun process _ hsome hd hp => ?_⟩, fun hd => ?_, hw.unprotected⟩
  · by_cases hd : Protected d.settings
    · exact ⟨d', rfl, hd'.mpr hd⟩
    · exact absurd (hopened rfl hd) hne
  · cases hd
    by_cases hd : Protected d.settings
    · exact hd'.mpr hd
    · exact absurd hp (hw.unprotected hd process hsome)
  · exact ⟨⟨d', rfl, hd'.mpr hd⟩, (hw.sealed_of hd).quiet⟩

theorem Guarded.stop_keeps (h : Guarded w) (hlift : Liftable G)
    (hsafe : w.guard = none ∨ ((smartStateForTunnel w name).isSome = true ∧ ¬Exits G .beforeStop) ∨
      ¬MatchesDesired env w name ∨ NamesDesired env w name ∧ Granted G ⟨.target, .readDesired⟩) :
    wp G (stop env name) (fun _ w' => Guarded w') w := by
  refine (stop_spec env name).mono ?_
  rintro r w' ⟨w₀, missed, u, removed, lifted, v, hend⟩
  refine (h.missed missed).stopEnd hlift ?_ hend
  rcases hsafe with hnone | ⟨hsome, hno⟩ | hno | hnames
  · exact Or.inl (by rw [missed.frame]; exact hnone)
  · exact Or.inr (Or.inl (by rw [missed.of_not hno]; exact hsome))
  · exact Or.inr (Or.inr (Or.inl (by rw [missed.frame]; exact hno)))
  · exact Or.inr (Or.inr (Or.inr (by rw [missed.frame]; exact hnames)))

theorem Guarded.recover_keeps (h : Guarded w) (hx : Exclusive w) (hlift : Liftable G) (force : Bool)
    (hsafe : Covered w → w.services.AllStopped ∧ Steady G) :
    wp G (recoverSmartDesired env force) (fun _ w' => Guarded w') w := by
  have hrecovering : ∀ d₀ d, w.desired = some d₀ → normalizeSmartDesired env d₀ = .ok d →
      Recovering d w ∧ (Protected d.settings → Steady G) := by
    intro d₀ d hd₀ hn
    have hcovered (hd : Protected d.settings) : Covered w :=
      ⟨d₀, hd₀, (protected_normalized hn).mp hd⟩
    refine ⟨⟨hx, h, fun hd => ⟨hcovered hd, (hsafe (hcovered hd)).1⟩, fun hd process hsome hp => ?_⟩,
      fun hd => (hsafe (hcovered hd)).2⟩
    exact hd ((protected_normalized hn).mpr (h.matched process d₀ hsome hd₀ hp))
  have hkept := recoverSmartDesired_spec (G := G) env
    (fun u => Guarded u ∧ ∀ d₀ d, w.desired = some d₀ → normalizeSmartDesired env d₀ = .ok d →
      Recovering d u) force ⟨h, fun d₀ d hd₀ hn => (hrecovering d₀ d hd₀ hn).1⟩
    ⟨h.idle rfl rfl rfl, fun d₀ d hd₀ hn => (hrecovering d₀ d hd₀ hn).1.detached⟩
    fun d₀ d hd₀ hn name u hu => ?_
  · exact hkept.mono fun _ _ hu => hu.1
  · refine ((hu.2 d₀ d hd₀ hn).recoverAs hlift (hrecovering d₀ d hd₀ hn).2).mono
      fun _ u' hu' => ⟨hu'.guarded, ?_⟩
    intro d₁ d' hd₁ hn'
    obtain rfl := Option.some.inj (hd₀.symm.trans hd₁)
    obtain rfl := Except.ok.inj (hn.symm.trans hn')
    exact hu'

end orphans

section runs

/-- The condition under which one event does not orphan the guard:
- a start that asks for protection, or that replaces an engine which did, has a record that asks
  for protection to fall back on, or a native tunnel to return to, or it comes to write its record;
- a native start, which does not lift the guard, finds none or is refused for an engine that runs;
- a stop that removes the record names its tunnel byte by byte and reads it, or it finds its engine;
- a protected record is recovered only while no native tunnel is there to return to, and no exit is
  noticed while an attempt lists the tunnels and goes through the list. -/
def Happening.Safe (decode : Str → Except SmartErr RoutingSettings) (w : World) (h : Happening) :
    Prop :=
  match h.event with
  | .smartStart true name raw => ∀ s, parseSettingsPayload h.env decode raw = .ok s →
      (Protected s ∨ ∃ process, w.smartProcess = some process ∧ Protected process.settings) →
      Covered w ∨ (∃ n, (w.services.state n).inUse = true) ∨
        Persists (givenBy h.feed) h.env .target name s
  | .start _ => w.guard = none ∨ w.smartProcess ≠ none ∧ ¬Exits (givenBy h.feed) .anyStarted
  | .stop name | .delete true name => w.guard = none ∨
      ((smartStateForTunnel w name).isSome = true ∧ ¬Exits (givenBy h.feed) .beforeStop) ∨
      ¬MatchesDesired h.env w name ∨
      NamesDesired h.env w name ∧ Granted (givenBy h.feed) ⟨.target, .readDesired⟩
  | .recover _ => Covered w → w.services.AllStopped ∧ Steady (givenBy h.feed)
  | _ => True

/-- Every event that meets the condition keeps the guard covered. -/
theorem Happening.keeps_guarded (decode : Str → Except SmartErr RoutingSettings) {w : World}
    (e : Happening) (hx : Exclusive w) (h : Guarded w) (hsafe : e.Safe decode w)
    (hlift : Liftable (givenBy e.feed)) : Guarded (happen decode w e) := by
  obtain ⟨event, env, f⟩ := e
  suffices hwp : wp (givenBy f) (event.program env decode) (fun _ w' => Guarded w') w from
    hwp.ending f (grants_givenBy f)
  cases event with
  | start name =>
    refine (startNativeUnlocked_spec .target name).mono ?_
    rintro r w' ⟨w₀, missed, hend⟩
    have hw₀ := h.missed missed
    cases hend with
    | failed e v => exact ⟨hw₀.covered, hw₀.matched⟩
    | started v hnone _ _ =>
      rcases hsafe with hguard | ⟨hsome, hno⟩
      · exact .of_none (by rw [missed.frame]; exact hguard) hnone
      · exact absurd (missed.of_not hno ▸ hnone) hsome
  | stop name => exact h.stop_keeps hlift hsafe
  | delete elevated name =>
    refine wp_ite _ (fun helevated => ?_) fun _ => wp_fail _ h
    subst helevated
    refine (h.stop_keeps hlift hsafe).bind ?_ fun _ _ hw => hw
    rintro ⟨⟩ w' hw'
    refine wp_must_bind (fun r _ hf => wp_pure _ ?_) fun r _ _ hf => ?_
    · simp only [effect, hf, if_true]
      exact ⟨hw'.covered, hw'.matched⟩
    · simp only [effect, hf, if_false]
      exact hw'
  | smartStart elevated name raw =>
    refine wp_ite _ (fun helevated => ?_) fun _ => wp_fail _ h
    subst helevated
    cases hs : parseSettingsPayload env decode raw with
    | error e => exact wp_fail _ h
    | ok s =>
      have hcover := hsafe s hs
      refine (smartStartLocked_spec env .target name s true).mono fun r w' hend => ?_
      refine h.startEnd hx hlift (fun hp => ?_) (fun process hsome hp => ?_)
        (fun _ _ _ _ _ hxu hu hp hb => hu.restoredEnd hxu hlift hp hb) hend
      · exact (hcover (Or.inl hp)).imp_right fun hn => ⟨rfl, hn⟩
      · refine (hcover (Or.inr ⟨process, hsome, hp⟩)).imp_right fun hn => hn.resolve_left ?_
        rintro ⟨n, huse⟩
        exact TunnelState.ne_stopped huse (hx.quiet (by simp [hsome]) n)
  | smartStop elevated =>
    refine (smartStop_spec elevated).mono ?_
    rintro r w' (rfl | ⟨d, g, rfl, -, rfl | ⟨-, hg⟩⟩)
    · exact h
    · exact .of_none rfl rfl
    · exact absurd (hlift.guard _) hg
  | recover force => exact h.recover_keeps hx hlift force hsafe
  | suspend =>
    refine (pauseSmartForSuspend_spec env).mono ?_
    rintro r w' (rfl | rfl)
    · exact ⟨h.covered, h.matched⟩
    · exact h.idle rfl rfl rfl
  | resume => exact wp_change _ ⟨h.covered, h.matched⟩
  | managerStop =>
    refine (smartStopUnlocked_spec .target).mono ?_
    rintro r w' ⟨rfl, -⟩
    exact h.idle rfl rfl rfl
  | managerStart => exact wp_change _ (h.idle rfl rfl rfl)
  | engineExit pid => exact wp_change _ ⟨h.covered, h.matched⟩
  | exitNoticed pid =>
    refine wp_change _ ?_
    split
    · exact h.idle rfl rfl rfl
    · exact h
  | serviceChange name left => exact wp_change _ ⟨h.covered, h.matched⟩

/-- No engine, no tunnel, no record and no guard. -/
structure World.Clean (w : World) : Prop where
  services : w.services.AllStopped
  engines : w.engines = []
  process : w.smartProcess = none
  desired : w.desired = none
  guard : w.guard = none

/-- From a clean start, as long as every event meets the condition and the system does not refuse
to lift the guard or to remove the record: whenever the guard blocks, an engine runs or a record
asks for protection. -/
theorem guard_never_orphaned (decode : Str → Except SmartErr RoutingSettings) (w : World)
    (hw : w.Clean) (hs : List Happening) (hall : ∀ pre e post, hs = pre ++ e :: post →
      e.Safe decode (run decode w pre) ∧ Liftable (givenBy e.feed))
    (hguard : (run decode w hs).guard ≠ none) :
    (run decode w hs).engines ≠ [] ∨ Covered (run decode w hs) := by
  have hinv : Exclusive (run decode w hs) ∧ Guarded (run decode w hs) := by
    refine run_invariant decode (fun u => Exclusive u ∧ Guarded u)
      (fun u e => e.Safe decode u ∧ Liftable (givenBy e.feed)) (fun u e hu he => ⟨?_, ?_⟩) hs w
      ⟨.of_idle hw.process hw.engines, .of_none hw.guard hw.process⟩ hall
    · exact (Event.program_exclusive e.env decode e.event hu.1).ending _ (grants_givenBy e.feed)
    · exact e.keeps_guarded decode hu.1 hu.2 he.1 he.2
  exact Or.inr (hinv.2.covered hguard)

theorem cleanWorld_clean : cleanWorld.Clean := ⟨fun _ => rfl, rfl, rfl, rfl, rfl⟩

theorem liftable_answering (refused : Question → Bool)
    (h : ∀ a, refused ⟨a, .clearGuard⟩ = false ∧ refused ⟨a, .removeDesired⟩ = false) :
    Liftable (givenBy (answering refused)) where
  guard := by
    rintro a _ ⟨k, rfl⟩
    simp [answering, (h a).1]
  record := by
    rintro a _ ⟨k, rfl⟩
    simp [answering, (h a).2]

/-- A first start with protection, and then a recovery that misses the engine and fails. -/
def guardedRun : List Happening :=
  [⟨.smartStart true (ascii "home") (ascii "\x7b\x7d"), plainEnv, answering fun _ => false⟩,
    ⟨.recover true, plainEnv, exiting (· = .prior) fun q => q.step = .rotateLog⟩]

theorem guardedSettings_persists :
    Persists (givenBy (answering fun _ => false)) plainEnv .target (ascii "home") guardedSettings where
  smart := by decide +kernel
  granted := by
    rintro ⟨st, -, hg⟩
    refine hg ?_
    rintro _ ⟨k, rfl⟩
    rfl
  written := by
    have hok : (normalizeSmartDesired plainEnv ⟨ascii "home", guardedSettings⟩).isOk = true := by
      decide +kernel
    cases hd : normalizeSmartDesired plainEnv ⟨ascii "home", guardedSettings⟩ with
    | ok d => exact ⟨d, rfl⟩
    | error e =>
      rw [hd] at hok
      cases hok

theorem guard_never_orphaned_exit :
    (run (fun _ => .ok guardedSettings) cleanWorld guardedRun).guard ≠ none ∧
      ((run (fun _ => .ok guardedSettings) cleanWorld guardedRun).engines ≠ [] ∨
        Covered (run (fun _ => .ok guardedSettings) cleanWorld guardedRun)) := by
  have hguard : (run (fun _ => .ok guardedSettings) cleanWorld guardedRun).guard ≠ none := by
    decide +kernel
  refine ⟨hguard, guard_never_orphaned _ _ cleanWorld_clean _ (fun pre e post heq => ?_) hguard⟩
  match pre with
  | [] =>
    cases heq
    refine ⟨fun s hs _ => Or.inr (Or.inr ?_), liftable_answering (fun _ => false) fun _ => ⟨rfl, rfl⟩⟩
    have hparsed : parseSettingsPayload plainEnv (fun _ => .ok guardedSettings) (ascii "\x7b\x7d") =
        .ok guardedSettings := by decide +kernel
    obtain rfl := Except.ok.inj (hparsed.symm.trans hs)
    exact guardedSettings_persists
  | [_] =>
    cases heq
    refine ⟨fun _ => ⟨?_, fun n => ⟨?_, ?_⟩⟩, ⟨?_, ?_⟩⟩
    · -- the engine that was started runs alone
      refine ((Event.program_exclusive (G := fun _ _ => True) plainEnv (fun _ => .ok guardedSettings)
        (.smartStart true (ascii "home") (ascii "\x7b\x7d")) (w := cleanWorld)
        (.of_idle rfl rfl)).ending (answering fun _ => false) fun _ _ => trivial).quiet ?_
      exact Option.isSome_iff_ne_none.mp (by decide +kernel)
    · rintro ⟨a, _, ⟨k, rfl⟩, hexit⟩
      cases hexit
    · rintro ⟨a, _, ⟨k, rfl⟩, hexit⟩
      cases hexit
    · rintro a _ ⟨k, rfl⟩
      rfl
    · rintro a _ ⟨k, rfl⟩
      rfl
  | _ :: _ :: _ => simp [guardedRun] at heq

/-- The first protected start fails after the guard was raised: there is no record that a recovery
or a stop could find. -/
theorem protected_start_orphans_guard :
    ∃ e : Happening, cleanWorld.Clean ∧ Liftable (givenBy e.feed) ∧
      (happen (fun _ => .ok guardedSettings) cleanWorld e).guard ≠ none ∧
      (happen (fun _ => .ok guardedSettings) cleanWorld e).engines = [] ∧
      ¬Covered (happen (fun _ => .ok guardedSettings) cleanWorld e) := by
  refine ⟨⟨.smartStart true (ascii "home") (ascii "\x7b\x7d"), plainEnv,
    answering fun q => q.step = .startProcess⟩, cleanWorld_clean, ?_, ?_, ?_, ?_⟩
  · exact liftable_answering _ fun _ => ⟨rfl, rfl⟩
  · decide +kernel
  · decide +kernel
  · rintro ⟨d, hd, -⟩
    have hnone : (happen (fun _ => .ok guardedSettings) cleanWorld
        ⟨.smartStart true (ascii "home") (ascii "\x7b\x7d"), plainEnv,
          answering fun q => q.step = .startProcess⟩).desired = none := by
      decide +kernel
    rw [hnone] at hd
    cases hd

end runs

end SmartAwg.Manager
