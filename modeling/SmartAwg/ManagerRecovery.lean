import SmartAwg.ManagerExclusion

/-!
The recovery of the desired tunnel: which profiles it tries, and what runs when it reports success.
-/

namespace SmartAwg.Manager

open Go Smart Fallible

section names

/-- The first of the names that differ in case only; `seen` holds those before, in lower case. -/
def distinctNames : List Str → List Str → List Str
  | _, [] => []
  | seen, name :: rest =>
    if seen.elem (toLower name) then distinctNames seen rest
    else name :: distinctNames (toLower name :: seen) rest

theorem distinctNames_sublist (seen names : List Str) : (distinctNames seen names).Sublist names := by
  induction names generalizing seen with
  | nil => exact List.Sublist.refl []
  | cons name rest ih =>
    unfold distinctNames
    split
    · exact (ih seen).cons name
    · exact (ih _).cons_cons name

theorem distinctNames_unseen (seen names : List Str) :
    ∀ name ∈ distinctNames seen names, toLower name ∉ seen := by
  induction names generalizing seen with
  | nil => exact fun name hname => absurd hname List.not_mem_nil
  | cons first rest ih =>
    unfold distinctNames
    split
    · exact ih seen
    · rename_i hnew
      intro name hname
      rcases List.mem_cons.mp hname with rfl | hname
      · exact mt List.elem_iff.mpr hnew
      · exact fun hseen => ih _ name hname (List.mem_cons_of_mem _ hseen)

theorem distinctNames_pairwise (seen names : List Str) :
    (distinctNames seen names).Pairwise fun a b => toLower a ≠ toLower b := by
  induction names generalizing seen with
  | nil => exact List.Pairwise.nil
  | cons name rest ih =>
    unfold distinctNames
    split
    · exact ih seen
    · refine List.pairwise_cons.mpr ⟨fun other hother heq => ?_, ih _⟩
      exact distinctNames_unseen _ rest other hother (heq ▸ List.mem_cons_self)

end names

section attempts

/-- A search through alternatives: it ends with the first that succeeds, or it has failed for all of
them. -/
inductive Search (names : List Str) :
    List (Str × Except ManagerErr Unit) → Except ManagerErr Unit → Prop
  | found (failures : List (Str × Except ManagerErr Unit)) (name : Str)
    (failed : ∀ t ∈ failures, ∃ e, t.2 = .error e)
    (order : failures.map Prod.fst ++ [name] <+: names) :
    Search names (failures ++ [(name, .ok ())]) (.ok ())
  | exhausted (failures : List (Str × Except ManagerErr Unit)) (e : ManagerErr)
    (failed : ∀ t ∈ failures, ∃ e, t.2 = .error e) (all : failures.map Prod.fst = names) :
    Search names failures (.error e)

theorem Search.order {names : List Str} {tries : List (Str × Except ManagerErr Unit)}
    {r : Except ManagerErr Unit} (h : Search names tries r) : tries.map Prod.fst <+: names := by
  cases h with
  | found failures name _ order => simpa using order
  | exhausted failures e _ all => rw [all]

/-- A failed attempt in front of a search. -/
theorem Search.after {names : List Str} {tries : List (Str × Except ManagerErr Unit)}
    {r : Except ManagerErr Unit} (h : Search names tries r) (name : Str) (e : ManagerErr) :
    Search (name :: names) ((name, .error e) :: tries) r := by
  have hcons : ∀ failures : List (Str × Except ManagerErr Unit), (∀ t ∈ failures, ∃ e, t.2 = .error e) →
      ∀ t ∈ (name, .error e) :: failures, ∃ e, t.2 = .error e :=
    fun failures hfailed => List.forall_mem_cons.mpr ⟨⟨e, rfl⟩, hfailed⟩
  cases h with
  | found failures last failed order =>
    refine .found ((name, .error e) :: failures) last (hcons failures failed) ?_
    exact (List.prefix_cons_inj name).mpr order
  | exhausted _ e' failed all =>
    refine .exhausted _ e' (hcons tries failed) ?_
    rw [List.map_cons, all]

/-- The attempts of `recoverWithFallbacks`; errors of earlier attempts are there already when no name is
left. -/
theorem recoverWithFallbacks_made (begin : Str → Op Unit) (seen : List Str) (errs : List ManagerErr)
    (names : List Str) (herrs : errs = [] → distinctNames seen names ≠ []) (w : World)
    (f : Feed Question Answer) :
    ∃ tries, Made begin w f tries (recoverWithFallbacks begin seen errs names w f).state
        (recoverWithFallbacks begin seen errs names w f).rest ∧
      Search (distinctNames seen names) tries (recoverWithFallbacks begin seen errs names w f).value := by
  induction names generalizing seen errs w f with
  | nil =>
    cases errs with
    | nil => exact absurd rfl (herrs rfl)
    | cons e es => exact ⟨[], .none w f, .exhausted [] _ (fun t ht => absurd ht List.not_mem_nil) rfl⟩
  | cons name rest ih =>
    unfold recoverWithFallbacks distinctNames
    unfold distinctNames at herrs
    split
    · rename_i hseen
      rw [if_pos hseen] at herrs
      exact ih seen errs herrs w f
    · rw [Prog.attempt_bind_eq]
      cases hvalue : (begin name w f).value with
      | ok =>
        refine ⟨_, .more hvalue (.none _ _), .found [] name (fun t ht => absurd ht List.not_mem_nil) ?_⟩
        exact ⟨_, rfl⟩
      | error e =>
        obtain ⟨tries, hmade, hsearch⟩ := ih (toLower name :: seen) (errs ++ [.named "" name e])
          (fun h => absurd h (by simp)) (begin name w f).state (begin name w f).rest
        exact ⟨_, .more hvalue hmade, hsearch.after name e⟩

end attempts

section success
variable {G : Question → Answer → Prop} {w : World} (env : Env)

/-- The recorded engine is alive and belongs to the tunnel. -/
def World.Runs (w : World) (name : Str) : Prop :=
  ∃ process, w.smartProcess = some process ∧ process.tunnelName = name ∧ process.pid ∈ w.engines

/-- What a recovery is for: an engine alone, and the record with its name. A record is read without
the blanks around the name. -/
def World.Recovered (w : World) : Prop :=
  ∃ record process, w.desired = some record ∧ w.smartProcess = some process ∧
    w.engines = [process.pid] ∧ equalFold (trimSpace record.tunnelName) process.tunnelName = true

theorem Exclusive.engines_eq (h : Exclusive w) {pid : Nat} (hpid : pid ∈ w.engines) :
    w.engines = [pid] := by
  obtain ⟨other, hother⟩ := List.length_eq_one_iff.mp
    (Nat.le_antisymm h.single (List.length_pos_of_mem hpid))
  rw [hother, List.mem_singleton] at hpid
  rw [hother, hpid]

theorem smartStartLocked_runs (a : Attempt) (name : Str) (s : RoutingSettings)
    (hs : usesNativeTunnel s = false) :
    wp G (smartStartLocked env a name s false) (fun r w' => r = .ok () →
      w'.desired = w.desired ∧ w'.Runs name) w := by
  refine (smartStartLocked_spec env a name s false).mono ?_
  rintro r w' hend rfl
  cases hend with
  | native _ _ _ hnative => rw [hs] at hnative; cases hnative
  | smart _ w₀ _ prior _ missed _ hend =>
    cases hend with
    | running v w₁ pid smart hv launch =>
      cases launch with
      | launched guard desired hguard kept saved =>
        refine ⟨(kept rfl).trans ?_, _, rfl, rfl, List.mem_cons_self⟩
        change w₀.desired = w.desired
        rw [missed.frame]

/-- One attempt that succeeds: the primary leaves the record as it is, a fallback writes its own. -/
theorem recoverAs_runs (d : DesiredState) (hd : usesNativeTunnel d.settings = false) (name : Str) :
    wp G (recoverAs env d name) (fun r w' => r = .ok () → w'.Runs name ∧
      if name = d.tunnelName then w'.desired = w.desired
      else ∃ d', w'.desired = some d' ∧ normalizeSmartDesired env ⟨name, d.settings⟩ = .ok d') w := by
  refine (smartStartLocked_runs env .target name d.settings hd).bind ?_ fun e w' _ he => by cases he
  rintro ⟨⟩ w' hstarted
  obtain ⟨hkept, hruns⟩ := hstarted rfl
  refine wp_ite _ (fun hne => ?_) fun heq => wp_pure _ fun _ => ⟨hruns, ?_⟩
  · refine (saveSmartDesired_spec env .target name d.settings).mono ?_
    rintro r w'' (⟨d', -, hd', rfl⟩ | ⟨e, rfl, -⟩) hr
    · refine ⟨hruns, ?_⟩
      rw [if_neg hne]
      exact ⟨d', rfl, hd'⟩
    · cases hr
  · rw [if_pos (not_not.mp heq)]
    exact hkept

/-- A search that ends well ends with an attempt that went well, made in a world of the invariant. -/
theorem recoverWithFallbacks_ok (I R : World → Prop) (begin : Str → Op Unit) (seen : List Str)
    (errs : List ManagerErr) (names : List Str) (herrs : errs ≠ [])
    (h : ∀ name ∈ names, toLower name ∉ seen → ∀ u, I u →
      wp G (begin name) (fun r w' => I w' ∧ (r = .ok () → R w')) u) (hw : I w) :
    wp G (recoverWithFallbacks begin seen errs names) (fun r w' => r = .ok () → R w') w := by
  induction names generalizing seen errs w with
  | nil => exact wp_finish errs (fun hnil => absurd hnil herrs) fun e _ he => by cases he
  | cons name rest ih =>
    have hrest := fun other (hother : other ∈ rest) => h other (List.mem_cons_of_mem _ hother)
    refine wp_ite _ (fun _ => ih seen errs herrs hrest hw) fun hnew => ?_
    refine (h name List.mem_cons_self (mt List.elem_iff.mpr hnew) w hw).attempt_bind ?_
    rintro (e | ⟨⟩) w' ⟨hI, hok⟩
    · refine ih _ _ (by simp) (fun other hother hunseen => ?_) hI
      exact hrest other hother fun hseen => hunseen (List.mem_cons_of_mem _ hseen)
    · exact wp_pure _ fun _ => hok rfl

/-- The attempts for the names of a record that was read. -/
theorem recoverWithFallbacks_recovered (hw : Exclusive w) (d₀ d : DesiredState)
    (hd₀ : w.desired = some d₀) (hd : normalizeSmartDesired env d₀ = .ok d) :
    wp G (recoverWithFallbacks (recoverAs env d) [] [] (d.tunnelName :: d.settings.fallbackProfiles))
      (fun r w' => r = .ok () → w'.Recovered) w := by
  obtain ⟨-, hn, hsmart, hname⟩ := (normalizeSmartDesired_eq_ok env d₀ d).mp hd
  have hattempt := fun name (u : World) (hu : Exclusive u) =>
    (recoverAs_exclusive (G := G) env d name hu).and (recoverAs_runs env d hsmart name)
  refine wp_ite _ (fun hseen => absurd hseen (by simp)) fun _ => ?_
  refine (hattempt d.tunnelName w hw).attempt_bind ?_
  rintro (e | ⟨⟩) w' ⟨hw', hok⟩
  · -- the names behind the first one are fallbacks, each with a record of its own
    refine recoverWithFallbacks_ok Exclusive World.Recovered _ _ _ _ (by simp) ?_ hw'
    intro name hmem hunseen u hu
    have hne : name ≠ d.tunnelName := fun heq => hunseen (by rw [heq]; exact List.mem_singleton_self _)
    refine (hattempt name u hu).mono ?_
    rintro r u' ⟨hu', hok⟩
    refine ⟨hu', fun hr => ?_⟩
    obtain ⟨⟨process, hprocess, htunnel, hpid⟩, hrecord⟩ := hok hr
    rw [if_neg hne] at hrecord
    obtain ⟨d', hd', hsaved⟩ := hrecord
    obtain ⟨-, -, -, hvalid, catalog, rules, -, -, hsettings⟩ :=
      (RoutingSettings.normalized_eq_ok env d₀.settings d.settings).mp hn
    have htrim : trimSpace name = name :=
      Conf.trimSpace_tunnelName (hvalid name (by rwa [hsettings] at hmem))
    have hname' := ((normalizeSmartDesired_eq_ok env ⟨name, d.settings⟩ d').mp hsaved).2.2.2
    refine ⟨d', process, hd', hprocess, hu'.engines_eq hpid, ?_⟩
    rw [htunnel, hname', htrim, htrim, equalFold_iff]
  · refine wp_pure _ fun _ => ?_
    obtain ⟨⟨process, hprocess, htunnel, hpid⟩, hrecord⟩ := hok rfl
    rw [if_pos rfl, hd₀] at hrecord
    refine ⟨d₀, process, hrecord, hprocess, hw'.engines_eq hpid, ?_⟩
    rw [htunnel, hname, equalFold_iff]

/-- A recovery that reports success has nothing to do or has done it. -/
theorem recoverSmartDesired_recovered (force : Bool) (hw : Exclusive w)
    (hlive : ∀ process, w.smartProcess = some process → process.pid ∈ w.engines)
    (hdesired : w.desired ≠ none) :
    wp G (recoverSmartDesired env force) (fun r w' => r = .ok () → w'.Recovered) w := by
  rw [recoverSmartDesired_eq]
  refine (recoveryTarget_spec env force).bind ?_ fun e w' _ he => by cases he
  rintro found w' ⟨hmissed, hsome, hnone⟩
  have hrecord : w'.desired = w.desired := by rw [hmissed.frame]
  cases found with
  | some d =>
    obtain ⟨d₀, hd₀, hd⟩ := hsome d rfl
    exact recoverWithFallbacks_recovered env (hw.missed hmissed) d₀ d (hrecord.trans hd₀) hd
  | none =>
    refine wp_pure _ fun _ => ?_
    obtain ⟨d₀, process, hd₀, hprocess, hfold⟩ := (hnone rfl).resolve_left hdesired
    obtain rfl := hmissed.of_some hprocess
    refine ⟨d₀, process, hd₀, hprocess, hw.engines_eq (hlive process hprocess), ?_⟩
    rw [equalFold_comm]
    exact hfold

end success

/-- The attempts of a recovery are for names that differ in more than case, first the desired tunnel
and then its fallbacks, up to the first that succeeds; without an exit meanwhile nothing else is
changed. When a recovery reports success there is a record, and the only engine runs for it. -/
theorem recovery_runs_desired (env : Env) (force : Bool) (w : World) (f : Feed Question Answer)
    (halive : Still (givenBy f)) (d₀ : DesiredState) (hd₀ : w.desired = some d₀) (hw : Exclusive w)
    (hlive : ∀ process, w.smartProcess = some process → process.pid ∈ w.engines) :
    ((∀ d, (recoveryTarget env force w f).value ≠ .ok (some d)) →
      (recoverSmartDesired env force w f).state = w ∧
        (recoverSmartDesired env force w f).rest = (recoveryTarget env force w f).rest) ∧
    (∀ d, (recoveryTarget env force w f).value = .ok (some d) →
      normalizeSmartDesired env d₀ = .ok d ∧ ∃ tries,
        Made (recoverAs env d) w (recoveryTarget env force w f).rest tries
          (recoverSmartDesired env force w f).state (recoverSmartDesired env force w f).rest ∧
        (tries.map Prod.fst).Pairwise (fun a b => toLower a ≠ toLower b) ∧
        (tries.map Prod.fst).Sublist (d.tunnelName :: d.settings.fallbackProfiles) ∧
        Search (distinctNames [] (d.tunnelName :: d.settings.fallbackProfiles)) tries
          (recoverSmartDesired env force w f).value) ∧
    ((recoverSmartDesired env force w f).value = .ok () →
      ∃ record process, (recoverSmartDesired env force w f).state.desired = some record ∧
        (recoverSmartDesired env force w f).state.smartProcess = some process ∧
        (recoverSmartDesired env force w f).state.engines = [process.pid] ∧
        equalFold (trimSpace record.tunnelName) process.tunnelName = true) := by
  obtain ⟨hmissed, hfound, -⟩ := (recoveryTarget_spec (w := w) env force).ending f (grants_givenBy f)
  have hsame := hmissed.of_not (halive _)
  refine ⟨fun hnothing => ?_, fun d htarget => ?_, ?_⟩
  · rw [recoverSmartDesired_eq]
    cases hvalue : (recoveryTarget env force w f).value with
    | error e =>
      rw [Prog.bind_of_error hvalue]
      exact ⟨hsame, rfl⟩
    | ok found =>
      rw [Prog.bind_of_ok hvalue]
      cases found with
      | none => exact ⟨hsame, rfl⟩
      | some d => exact absurd hvalue (hnothing d)
  · obtain ⟨d₁, hd₁, hd⟩ := hfound d htarget
    obtain rfl := Option.some.inj (hd₀.symm.trans hd₁)
    rw [recoverSmartDesired_eq, Prog.bind_of_ok htarget, hsame]
    obtain ⟨tries, hmade, hsearch⟩ := recoverWithFallbacks_made (recoverAs env d) [] []
      (d.tunnelName :: d.settings.fallbackProfiles) (fun _ => List.cons_ne_nil _ _) w
      (recoveryTarget env force w f).rest
    refine ⟨hd, tries, hmade, ?_, ?_, hsearch⟩
    · exact (distinctNames_pairwise [] _).sublist hsearch.order.sublist
    · exact hsearch.order.sublist.trans (distinctNames_sublist [] _)
  · have hdesired : w.desired ≠ none := by
      rw [hd₀]
      exact Option.some_ne_none d₀
    exact (recoverSmartDesired_recovered (G := fun _ _ => True) env force hw hlive hdesired).ending f
      fun _ _ => trivial

/-- The engine of "home" is gone, and so is the profile; "work" is started in its place. -/
def strandedWorld : World :=
  { cleanWorld with
    desired := some ⟨ascii "home", { guardedSettings with fallbackProfiles := [ascii "HOME", ascii "work"] }⟩ }

theorem recovery_runs_fallback :
    ∃ record process,
      (recoverSmartDesired plainEnv false strandedWorld
        (answering fun q => q.step = .loadConfig (ascii "home"))).state.desired = some record ∧
      (recoverSmartDesired plainEnv false strandedWorld
        (answering fun q => q.step = .loadConfig (ascii "home"))).state.smartProcess = some process ∧
      (recoverSmartDesired plainEnv false strandedWorld
        (answering fun q => q.step = .loadConfig (ascii "home"))).state.engines = [process.pid] ∧
      equalFold (trimSpace record.tunnelName) process.tunnelName = true := by
  refine (recovery_runs_desired plainEnv false strandedWorld _ (answering_still _) _ rfl
    (.of_idle rfl rfl) nofun).2.2 ?_
  have hok : (recoverSmartDesired plainEnv false strandedWorld
      (answering fun q => q.step = .loadConfig (ascii "home"))).value.isOk = true := by
    decide +kernel
  generalize (recoverSmartDesired plainEnv false strandedWorld
    (answering fun q => q.step = .loadConfig (ascii "home"))).value = r at hok
  cases r with
  | ok => rfl
  | error e => cases hok

end SmartAwg.Manager
