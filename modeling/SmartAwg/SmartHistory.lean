import SmartAwg.SmartStore

/-!
What is read back of settings that were saved one after another: the last ones as the settings,
and those before them as the history, of which the newest twelve are kept.
-/

namespace SmartAwg.Smart

open Go Fallible Fallible.Prog

section lists
variable {α : Type}

theorem lastTwelve_map {β : Type} (f : α → β) (xs : List α) :
    lastTwelve (xs.map f) = (lastTwelve xs).map f := by
  rw [lastTwelve, lastTwelve, List.length_map, List.map_drop]

theorem lastTwelve_length (xs : List α) : (lastTwelve xs).length ≤ 12 := by
  rw [lastTwelve, List.length_drop]
  omega

theorem mem_of_mem_lastTwelve {xs : List α} {x : α} (h : x ∈ lastTwelve xs) : x ∈ xs :=
  List.mem_of_mem_drop h

/-- What is dropped before a revision is added would be dropped afterwards. -/
theorem lastTwelve_concat (xs : List α) (x : α) :
    lastTwelve (lastTwelve xs ++ [x]) = lastTwelve (xs ++ [x]) := by
  unfold lastTwelve
  have hsplit : xs.drop (xs.length - 12) ++ [x] = (xs ++ [x]).drop (xs.length - 12) := by
    rw [List.drop_append_of_le_length (by omega)]
  rw [hsplit, List.drop_drop, List.length_drop]
  congr 1
  simp only [List.length_append, List.length_cons, List.length_nil]
  omega

theorem lastTwelve_concat_getLast (xs : List α) (x : α) :
    (lastTwelve (xs ++ [x])).getLast? = some x := by
  have hne : ¬(xs ++ [x]).length ≤ (xs ++ [x]).length - 12 := by
    simp only [List.length_append, List.length_cons, List.length_nil]
    omega
  rw [lastTwelve, List.getLast?_drop, if_neg hne, List.getLast?_concat]

end lists

section reading
variable (p : StoreEnv) {raw : Str} {n : RoutingSettings}

/-- What is read back, in the environment `env'`, of settings saved in the environment `env`. -/
def readBack (env env' : Env) (settings : RoutingSettings) : Except SmartErr RoutingSettings :=
  match settings.normalized env with
  | .error e => .error e
  | .ok normalized => parseSettingsPayload env' p.decode (p.encode normalized)

/-- Settings saved one after another, with the environments in which they were. -/
abbrev SaveLog := List (Env × RoutingSettings)

/-- The revisions that a sequence of saves leaves: each save reads what the one before it wrote. -/
def revisionsOf (saves : SaveLog) : List (Except SmartErr RoutingSettings) :=
  List.zipWith (fun x y => readBack p x.1 y.1 x.2) saves saves.tail

theorem revisionsOf_concat (saves : SaveLog) (x y : Env × RoutingSettings) :
    revisionsOf p (saves ++ [x] ++ [y]) = revisionsOf p (saves ++ [x]) ++ [readBack p x.1 y.1 x.2] := by
  obtain ⟨t, ht, hlength⟩ : ∃ t, (saves ++ [x]).tail = t ∧ saves.length = t.length :=
    ⟨_, rfl, by simp⟩
  have htail : (saves ++ [x] ++ [y]).tail = t ++ [y] := by
    rw [List.tail_append_of_ne_nil (by simp), ht]
  unfold revisionsOf
  rw [htail, ht, List.append_assoc, List.zipWith_append hlength]
  nth_rewrite 2 [← List.append_nil t]
  rw [List.zipWith_append hlength]
  simp

theorem length_newline_le (h : raw.length < maxSettingsSize) :
    (raw ++ [0x0A]).length ≤ maxSettingsSize := by
  rw [List.length_append]
  exact h

theorem parseSettingsPayload_newline (env : Env) (decode : Str → Except SmartErr RoutingSettings)
    (h : raw.length < maxSettingsSize) :
    parseSettingsPayload env decode (raw ++ [0x0A]) = parseSettingsPayload env decode raw := by
  have hlong : ¬(raw ++ [0x0A]).length > maxSettingsSize := Nat.not_lt.mpr (length_newline_le h)
  have hshort : ¬raw.length > maxSettingsSize := by omega
  unfold parseSettingsPayload
  rw [if_neg hlong, if_neg hshort, trimSpace_newline]

theorem normalized_version {env : Env} {s : RoutingSettings} (h : s.normalized env = .ok n) :
    n.version = settingsVersion := by
  obtain ⟨-, -, -, -, _, _, -, -, rfl⟩ := (RoutingSettings.normalized_eq_ok env s n).mp h
  rfl

theorem parseSettingsPayload_version {env : Env} {decode : Str → Except SmartErr RoutingSettings}
    (h : parseSettingsPayload env decode raw = .ok n) : n.version = settingsVersion := by
  unfold parseSettingsPayload at h
  simp only at h
  split at h
  · cases h
  split at h
  · exact normalized_version h
  split at h
  · cases h
  · exact normalized_version h

end reading

section laws
variable (p : StoreEnv) (Usual : Env → Prop) (Plain : RoutingSettings → Prop)

/-- The settings that some save leaves to be read back. -/
def StoreEnv.IsRead (r : RoutingSettings) : Prop :=
  ∃ env env', ∃ s n : RoutingSettings, Usual env ∧ Usual env' ∧ Plain s ∧ s.normalized env = .ok n ∧
    (p.encode n).length < maxSettingsSize ∧ parseSettingsPayload env' p.decode (p.encode n) = .ok r

/-- The revisions that saves record; `compact` is what writing and reading makes of settings: the
catalog without its white space, and empty lists for none. -/
structure StoreEnv.Records (compact : RoutingSettings → RoutingSettings) (e : SettingsRevision) : Prop where
  time : ∃ env, Usual env ∧ e.time = env.now
  reason : e.reason = changeReason
  settings : ∃ r, p.IsRead Usual Plain r ∧ (e.settings = r ∨ e.settings = compact r)

/-- The encodings as far as they matter here: of settings with valid strings, at times that have a
text. The version can be read back, and so can a history of what saves record, which also fits into
its file. -/
structure StoreEnv.Keeps (compact : RoutingSettings → RoutingSettings) : Prop where
  naming : p.toNaming.Lawful
  version : ∀ env s n, Usual env → Plain s → s.normalized env = .ok n →
    p.storedVersion (p.encode n ++ [0x0A]) = settingsVersion
  plain : ∀ r, p.IsRead Usual Plain r → Plain (compact r)
  idempotent : ∀ s, compact (compact s) = compact s
  history : ∀ h : List SettingsRevision, h.length ≤ 12 → (∀ e ∈ h, p.Records Usual Plain compact e) →
    (p.encodeHistory h).length ≤ maxHistorySize ∧ p.decodeHistory (p.encodeHistory h) =
      .ok (h.map fun e => { e with settings := compact e.settings })

end laws

section runs
variable {p : StoreEnv} {Usual : Env → Prop} {Plain : RoutingSettings → Prop}
  {compact : RoutingSettings → RoutingSettings} {name : Str}
  {env : Env} {s : RoutingSettings} {d d' : Disk} {saves : SaveLog} {last : Env × RoutingSettings}
  {answers : Feed FileStep (Option SmartErr)}

/-- The files after saves that all succeeded, whatever was answered to them. -/
inductive Saves (p : StoreEnv) (name : Str) (d : Disk) : SaveLog → Disk → Prop where
  | nil : Saves p name d [] d
  | concat {saves : SaveLog} {d' : Disk} (before : Saves p name d saves d') (env : Env)
      (settings : RoutingSettings) (answers : Feed FileStep (Option SmartErr))
      (done : (saveSettings p env name settings d' answers).value = .ok ()) :
      Saves p name d (saves ++ [(env, settings)]) (saveSettings p env name settings d' answers).state

/-- What a history looks like when it has been written and read. -/
theorem StoreEnv.Records.compacted (hp : p.Keeps Usual Plain compact) {e : SettingsRevision}
    (h : p.Records Usual Plain compact e) :
    p.Records Usual Plain compact { e with settings := compact e.settings } ∧ Plain (compact e.settings) := by
  obtain ⟨r, hr, hsettings⟩ := h.settings
  have hcompact : compact e.settings = compact r := by
    rcases hsettings with h | h
    · rw [h]
    · rw [h, hp.idempotent]
  exact ⟨⟨h.time, h.reason, r, hr, .inr hcompact⟩, hcompact ▸ hp.plain r hr⟩

/-- The files of a profile after some saves and a last one. -/
structure Kept (p : StoreEnv) (Usual : Env → Prop) (Plain : RoutingSettings → Prop)
    (compact : RoutingSettings → RoutingSettings) (name : Str) (saves : SaveLog) (last : Env × RoutingSettings)
    (d : Disk) : Prop where
  settings : ∃ n, last.2.normalized last.1 = .ok n ∧ (p.encode n).length < maxSettingsSize ∧
    d (p.key (p.settingsFile name)) = some (p.encode n ++ [0x0A])
  usual : Usual last.1
  plain : Plain last.2
  history : ∃ h, pastOf p name d = .ok h ∧
    h.map (fun r => Except.ok r.settings) =
      (lastTwelve (revisionsOf p (saves ++ [last]))).map (Except.map compact) ∧
    ∀ e ∈ h, p.Records Usual Plain compact e ∧ compact e.settings = e.settings

theorem saved_ok (h : saved p env name s d = .ok d') :
    ∃ n d₁, s.normalized env = .ok n ∧ (p.encode n).length < maxSettingsSize ∧
      recorded p env name d = .ok d₁ ∧
      d' = d₁.put p.toNaming (p.settingsFile name) (p.encode n ++ [0x0A]) := by
  unfold saved at h
  split at h
  · cases h
  rename_i n hn
  split at h
  · cases h
  rename_i hsize
  cases hrec : recorded p env name d with
  | error e =>
    rw [hrec] at h
    cases h
  | ok d₁ =>
    rw [hrec] at h
    cases h
    exact ⟨n, d₁, hn, Nat.not_le.mp hsize, rfl, rfl⟩

theorem pastOf_put_settings (hp : p.toNaming.Lawful) (d : Disk) (text : Str) :
    pastOf p name (d.put p.toNaming (p.settingsFile name) text) = pastOf p name d := by
  unfold pastOf Disk.content
  rw [Disk.put_other (hp.historyFile_ne name name)]

/-- The first save: there is nothing to record. -/
theorem Kept.first (hp : p.Keeps Usual Plain compact)
    (henv : Usual env) (hplain : Plain s) (hsettings : d (p.key (p.settingsFile name)) = none)
    (hhistory : d (p.key (p.historyFile name)) = none) (h : saved p env name s d = .ok d') :
    Kept p Usual Plain compact name [] (env, s) d' := by
  obtain ⟨n, d₁, hn, hsize, hrec, rfl⟩ := saved_ok h
  have hsame : d₁ = d := by
    unfold recorded Disk.content at hrec
    rw [hsettings] at hrec
    cases hrec
    rfl
  subst hsame
  refine ⟨⟨n, hn, hsize, Function.update_self ..⟩, henv, hplain, [], ?_, rfl, fun e he => (by cases he)⟩
  rw [pastOf_put_settings hp.naming]
  unfold pastOf Disk.content
  rw [hhistory]

/-- Every further save records what the one before it left to be read. -/
theorem Kept.next (hp : p.Keeps Usual Plain compact)
    (hkept : Kept p Usual Plain compact name saves last d)
    (henv : Usual env) (hplain : Plain s) (h : saved p env name s d = .ok d') :
    Kept p Usual Plain compact name (saves ++ [last]) (env, s) d' ∧
      ∃ r, readBack p last.1 env last.2 = .ok r := by
  obtain ⟨n, d₁, hn, hsize, hrec, rfl⟩ := saved_ok h
  obtain ⟨m, hm, hmsize, hfile⟩ := hkept.settings
  obtain ⟨past, hpast, hmap, hread⟩ := hkept.history
  have hcontent := content_of_short hfile (length_newline_le hmsize)
  unfold recorded at hrec
  rw [hcontent] at hrec
  simp only [parseSettingsPayload_newline env p.decode hmsize] at hrec
  have hback : readBack p last.1 env last.2 = parseSettingsPayload env p.decode (p.encode m) := by
    unfold readBack
    rw [hm]
  cases hparse : parseSettingsPayload env p.decode (p.encode m) with
  | error e =>
    rw [hparse] at hrec
    cases hrec
  | ok r =>
    rw [hparse, hpast] at hrec
    cases hrec
    rw [hparse] at hback
    refine ⟨⟨⟨n, hn, hsize, Function.update_self ..⟩, henv, hplain, ?_⟩, r, hback⟩
    -- the new history is written out of settings that were read, and read again
    have hisRead : p.IsRead Usual Plain r :=
      ⟨last.1, env, last.2, m, hkept.usual, henv, hkept.plain, hm, hmsize, hparse⟩
    have hentries : ∀ e ∈ lastTwelve (past ++ [revisionOf env r]), p.Records Usual Plain compact e := by
      intro e he
      rcases List.mem_append.mp (mem_of_mem_lastTwelve he) with he | he
      · exact (hread e he).1
      · obtain rfl := List.mem_singleton.mp he
        exact ⟨⟨env, henv, rfl⟩, rfl, r, hisRead, .inl rfl⟩
    obtain ⟨hfits, hdecode⟩ := hp.history _ (lastTwelve_length _) hentries
    have hcompact : ∀ e ∈ (lastTwelve (past ++ [revisionOf env r])).map fun e =>
        ({ e with settings := compact e.settings } : SettingsRevision),
        p.Records Usual Plain compact e ∧ compact e.settings = e.settings :=
      List.forall_mem_map.mpr fun e he => ⟨((hentries e he).compacted hp).1, hp.idempotent _⟩
    refine ⟨_, ?_, ?_, hcompact⟩
    · rw [pastOf_put_settings hp.naming]
      unfold pastOf Disk.content Disk.put
      simp only [Function.update_self]
      rw [if_neg (Nat.not_lt.mpr hfits)]
      exact hdecode
    · have hsame : past.map (fun e => (Except.ok (compact e.settings) : Except SmartErr _)) =
          past.map fun e => Except.ok e.settings := by
        refine List.map_congr_left fun e he => ?_
        rw [(hread e he).2]
      rw [List.map_map]
      calc (lastTwelve (past ++ [revisionOf env r])).map (fun e => Except.ok (compact e.settings))
          = lastTwelve ((past.map fun e => Except.ok e.settings) ++ [Except.ok (compact r)]) := by
            rw [← lastTwelve_map, List.map_append, hsame]
            rfl
        _ = lastTwelve ((revisionsOf p (saves ++ [last])).map (Except.map compact) ++
              [Except.ok (compact r)]) := by
          rw [hmap, ← lastTwelve_map, lastTwelve_concat]
        _ = (lastTwelve (revisionsOf p (saves ++ [last] ++ [(env, s)]))).map (Except.map compact) := by
          rw [revisionsOf_concat, hback, ← lastTwelve_map, List.map_append]
          rfl

theorem saveSettings_done (h : (saveSettings p env name s d answers).value = .ok ()) :
    saved p env name s d = .ok (saveSettings p env name s d answers).state :=
  ((saveSettings_spec s).ending answers (grants_givenBy answers)).done h

theorem Saves.kept (hp : p.Keeps Usual Plain compact) {log : SaveLog}
    (hsettings : d (p.key (p.settingsFile name)) = none)
    (hhistory : d (p.key (p.historyFile name)) = none) (h : Saves p name d log d')
    (husual : ∀ x ∈ log, Usual x.1 ∧ Plain x.2) :
    log = [] ∧ d' = d ∨ ∃ saves last, log = saves ++ [last] ∧ Kept p Usual Plain compact name saves last d' := by
  induction h with
  | nil => exact .inl ⟨rfl, rfl⟩
  | concat before env settings answers done ih =>
    obtain ⟨henv, hplain⟩ := husual (env, settings) (by simp)
    refine .inr ⟨_, _, rfl, ?_⟩
    rcases ih fun x hx => husual x (List.mem_append_left _ hx) with ⟨rfl, rfl⟩ | ⟨saves, last, rfl, hkept⟩
    · exact .first hp henv hplain hsettings hhistory (saveSettings_done done)
    · exact (hkept.next hp henv hplain (saveSettings_done done)).1

theorem Kept.loaded (hp : p.Keeps Usual Plain compact)
    (hkept : Kept p Usual Plain compact name saves last d) (env : Env) :
    loadedFrom p env name d = readBack p last.1 env last.2 ∧ afterLoad p env name d = d := by
  obtain ⟨n, hn, hsize, hfile⟩ := hkept.settings
  have hstored : storedIn p name d = .ok (some (p.encode n ++ [0x0A], false)) := by
    simp only [storedIn, content_of_short hfile (length_newline_le hsize)]
  unfold loadedFrom afterLoad readBack
  simp only [hstored, hn, parseSettingsPayload_newline env p.decode hsize, true_and]
  cases hparse : parseSettingsPayload env p.decode (p.encode n) with
  | error e => rfl
  | ok r =>
    refine if_neg ?_
    rw [hp.version _ _ n hkept.usual hkept.plain hn, parseSettingsPayload_version hparse]
    simp

theorem restoreSettingsRevision_done {index : Int}
    (h : (restoreSettingsRevision p env name index d answers).value = .ok ()) :
    ∃ history revision, pastOf p name d = .ok history ∧ 0 ≤ index ∧
      history[index.toNat]? = some revision ∧ saved p env name revision.settings d =
        .ok (restoreSettingsRevision p env name index d answers).state := by
  have hspec : wp (givenBy answers) (restoreSettingsRevision p env name index) (fun r d' =>
      r = .ok () → ∃ history revision, pastOf p name d = .ok history ∧ 0 ≤ index ∧
        history[index.toNat]? = some revision ∧ saved p env name revision.settings d = .ok d') d := by
    refine loadSettingsHistory_sees.bind ?_ fun e _ h => (by cases h)
    intro history hpast
    by_cases hindex : index < 0
    · rw [if_pos hindex]
      exact wp_fail _ fun h => (by cases h)
    · rw [if_neg hindex]
      cases hrevision : history[index.toNat]? with
      | none => exact wp_fail _ fun h => (by cases h)
      | some revision =>
        refine (saveSettings_spec revision.settings).mono fun r d' hend hr => ?_
        exact ⟨history, revision, hpast, Int.not_lt.mp hindex, hrevision, hend.done hr⟩
  exact hspec.ending answers (grants_givenBy answers) h

/-- A save that fails can only have written the history. -/
theorem saveSettings_failed (hp : p.toNaming.Lawful) (hname : Conf.tunnelNameIsValid name = true)
    {e : SmartErr} (h : (saveSettings p env name s d answers).value = .error e) (env' : Env) :
    loadedFrom p env' name (saveSettings p env name s d answers).state = loadedFrom p env' name d := by
  have hend : SaveEnd p env name s (givenBy answers) d _ _ :=
    (saveSettings_spec s).ending answers (grants_givenBy answers)
  rcases hend.failed e h with ⟨-, hsame⟩ | ⟨-, hsame | hrec⟩
  · rw [hsame]
  · rw [hsame]
  · exact loadedFrom_congr (recorded_other hrec (hp.historyFile_ne name name).symm)
      (recorded_other hrec (hp.legacyFile_ne_history hname))

/-- The store of settings, from no files on. After any number of saves the settings are what can
be read of the last ones, and the history holds what could be read of up to twelve before them; a
revision can be restored, and a save that fails changes nothing that is read. -/
theorem settings_read_back (p : StoreEnv) (Usual : Env → Prop) (Plain : RoutingSettings → Prop)
    (compact : RoutingSettings → RoutingSettings) (hp : p.Keeps Usual Plain compact) (name : Str)
    (hname : Conf.tunnelNameIsValid name = true) (d₀ : Disk)
    (hsettings : d₀ (p.key (p.settingsFile name)) = none)
    (hhistory : d₀ (p.key (p.historyFile name)) = none) (saves : SaveLog) (last : Env × RoutingSettings)
    (husual : ∀ x ∈ saves ++ [last], Usual x.1 ∧ Plain x.2) (d : Disk) (hruns : Saves p name d₀ (saves ++ [last]) d) :
    (∀ env, (loadSettings p env name d granted).value = readBack p last.1 env last.2 ∧
        (loadSettings p env name d granted).state = d) ∧
      (∃ history, (loadSettingsHistory p name d granted).value = .ok history ∧
        history.map (fun r => Except.ok r.settings) =
          (lastTwelve (revisionsOf p (saves ++ [last]))).map (Except.map compact)) ∧
      (∀ env index answers, Usual env →
        (restoreSettingsRevision p env name index d answers).value = .ok () →
        ∃ history revision, (loadSettingsHistory p name d granted).value = .ok history ∧ 0 ≤ index ∧
          history[index.toNat]? = some revision ∧
          (∀ env', (loadSettings p env' name (restoreSettingsRevision p env name index d answers).state
            granted).value = readBack p env env' revision.settings) ∧
          ∃ history', (loadSettingsHistory p name
              (restoreSettingsRevision p env name index d answers).state granted).value = .ok history' ∧
            history'.getLast?.map (fun r => Except.ok r.settings) =
              some ((readBack p last.1 env last.2).map compact)) ∧
      ∀ env s answers d e, (saveSettings p env name s d answers).value = .error e → ∀ env',
        (loadSettings p env' name (saveSettings p env name s d answers).state granted).value =
          (loadSettings p env' name d granted).value := by
  have hkept : Kept p Usual Plain compact name saves last d := by
    rcases hruns.kept hp hsettings hhistory husual with ⟨hnil, -⟩ | ⟨saves', last', heq, hkept⟩
    · simp at hnil
    · obtain ⟨rfl, hlast⟩ := List.append_inj' heq rfl
      cases hlast
      exact hkept
  simp only [loadSettings_granted, loadSettingsHistory_granted]
  refine ⟨fun env => hkept.loaded hp env, ?_, ?_, ?_⟩
  · obtain ⟨history, hpast, hmap, -⟩ := hkept.history
    exact ⟨history, hpast, hmap⟩
  · intro env index answers henv hdone
    obtain ⟨history, revision, hpast, hindex, hrevision, hsaved⟩ := restoreSettingsRevision_done hdone
    obtain ⟨past, hpast₀, -, hread⟩ := hkept.history
    obtain rfl : history = past := Except.ok.inj (hpast.symm.trans hpast₀)
    obtain ⟨hrecords, hcompact⟩ := hread revision (List.mem_of_getElem? hrevision)
    obtain ⟨hnext, r, hr⟩ := hkept.next hp henv (hcompact ▸ (hrecords.compacted hp).2) hsaved
    refine ⟨history, revision, hpast, hindex, hrevision, fun env' => (hnext.loaded hp env').1, ?_⟩
    obtain ⟨history', hpast', hmap, -⟩ := hnext.history
    refine ⟨history', hpast', ?_⟩
    rw [← List.getLast?_map, hmap, revisionsOf_concat, List.getLast?_map, lastTwelve_concat_getLast]
    rfl
  · intro env s answers d e hfailed env'
    exact saveSettings_failed hp.naming hname hfailed env'

theorem sampleStore_isRead (r : RoutingSettings)
    (h : sampleStore.IsRead (· = plainEnv) (fun s => ∃ mode, s = modeOnly mode) r) : ∃ mode, r = modeOnly mode := by
  obtain ⟨_, _, _, n, rfl, rfl, -, -, -, hr⟩ := h
  have hparse : ∀ mode, parseSettingsPayload plainEnv sampleStore.decode (settingsText mode) =
      .ok (modeOnly mode) := by
    intro mode
    cases mode <;> decide +kernel
  exact ⟨modeOf n, Except.ok.inj (hr.symm.trans (hparse _))⟩

/-- Settings with a mode, saved and read in the first second of 1970. -/
theorem sampleStore_keeps : sampleStore.Keeps (· = plainEnv) (fun s => ∃ mode, s = modeOnly mode) id where
  naming := sampleStore_naming
  version := by
    rintro _ _ n rfl ⟨mode, rfl⟩ hn
    have hnormal : (modeOnly mode).normalized plainEnv = .ok (modeOnly mode) := by cases mode <;> rfl
    obtain rfl : modeOnly mode = n := Except.ok.inj (hnormal.symm.trans hn)
    cases mode <;> decide +kernel
  plain := sampleStore_isRead
  idempotent := fun _ => rfl
  history := by
    intro h hlength hrecords
    obtain ⟨hshort, hdecode⟩ := sampleStore_history h
    refine ⟨hshort.trans ?_, hdecode.trans (congrArg _ (List.map_congr_left fun e he => ?_))⟩
    · rw [maxHistorySize]
      omega
    · obtain ⟨⟨env, rfl, htime⟩, hreason, r, hr, hsettings⟩ := hrecords e he
      obtain ⟨mode, rfl⟩ := sampleStore_isRead r hr
      obtain ⟨time, reason, settings⟩ := e
      obtain rfl : settings = modeOnly mode := hsettings.elim (fun h => h) fun h => h
      simp only [modeOf_modeOnly] at htime hreason ⊢
      rw [htime, hreason]
      rfl

/-- Two saves: the second is read back, and the first is the history. -/
theorem settings_read_back_twice : ∃ d,
    Saves sampleStore (ascii "home") (fun _ => none)
      [(plainEnv, modeOnly .selected), (plainEnv, modeOnly .all)] d ∧
    (loadSettings sampleStore plainEnv (ascii "home") d granted).value = .ok (modeOnly .all) ∧
    ∃ history, (loadSettingsHistory sampleStore (ascii "home") d granted).value = .ok history ∧
      history.map (fun r => Except.ok r.settings) =
        [(Except.ok (modeOnly .selected) : Except SmartErr RoutingSettings)] := by
  have hfirst : Saves sampleStore (ascii "home") (fun _ => none) [(plainEnv, modeOnly .selected)] _ :=
    Saves.nil.concat plainEnv (modeOnly .selected) granted (by decide +kernel)
  have hruns : Saves sampleStore (ascii "home") (fun _ => none)
      ([(plainEnv, modeOnly .selected)] ++ [(plainEnv, modeOnly .all)]) _ :=
    hfirst.concat plainEnv (modeOnly .all) granted (by decide +kernel)
  have husual : ∀ x ∈ [(plainEnv, modeOnly .selected)] ++ [(plainEnv, modeOnly .all)],
      x.1 = plainEnv ∧ ∃ mode, x.2 = modeOnly mode := by
    simp
  obtain ⟨hload, ⟨history, hhistory, hmap⟩, -, -⟩ := settings_read_back sampleStore _ _ _
    sampleStore_keeps (ascii "home") (by decide +kernel) (fun _ => none) rfl rfl _ _ husual _ hruns
  refine ⟨_, hruns, ?_, history, hhistory, ?_⟩
  · rw [(hload plainEnv).1]
    decide +kernel
  · rw [hmap]
    decide +kernel

end runs

end SmartAwg.Smart
