import SmartAwg.SmartStore

/-!
Whether the settings of one profile change with those of another. An operation on a profile
reaches three files, its settings, their legacy form and their history, and the settings of
another one are read from two.
-/

namespace SmartAwg.Smart

open Go Fallible Fallible.Prog

section operations

/-- What can be done to the settings of a profile. -/
inductive SettingsOp where
  | load
  | save (settings : RoutingSettings)
  | saveMode (mode : Str)
  | delete
  | restore (index : Int)

/-- The files after an operation, none of whose file operations failed. -/
def SettingsOp.after (p : StoreEnv) (env : Env) (name : Str) (op : SettingsOp) (d : Disk) : Disk :=
  match op with
  | .load => (loadSettings p env name d granted).state
  | .save settings => (saveSettings p env name settings d granted).state
  | .saveMode mode => (Smart.saveMode p env name mode d granted).state
  | .delete => (deleteSettings p name d granted).state
  | .restore index => (restoreSettingsRevision p env name index d granted).state

theorem SettingsOp.after_other (p : StoreEnv) (env : Env) (name : Str) (op : SettingsOp) (d : Disk)
    {k : Str} (hsettings : k ≠ p.key (p.settingsFile name)) (hhistory : k ≠ p.key (p.historyFile name))
    (hlegacy : k ≠ p.key (legacyFile name)) : op.after p env name d k = d k := by
  cases op with
  | load =>
    rw [SettingsOp.after, loadSettings_granted]
    exact afterLoad_other hsettings hhistory hlegacy
  | save settings =>
    rw [SettingsOp.after, saveSettings_granted]
    exact afterSave_other settings hsettings hhistory
  | saveMode mode =>
    rw [SettingsOp.after, saveMode_granted]
    exact (afterSave_other _ hsettings hhistory).trans (afterLoad_other hsettings hhistory hlegacy)
  | delete =>
    rw [SettingsOp.after, deleteSettings_granted, Disk.erase_other hlegacy, Disk.erase_other hsettings]
  | restore index =>
    rw [SettingsOp.after]
    rcases restoreSettingsRevision_granted index d with ⟨e, h⟩ | ⟨settings, h⟩
    · rw [h]
    · rw [h, saveSettings_granted]
      exact afterSave_other settings hsettings hhistory

end operations

section sharing
variable {p : StoreEnv} {env : Env}

theorem normalized_default (env : Env) (mode : Str) :
    ∃ n, RoutingSettings.normalized env { defaultSettings env with mode := mode } = .ok n := by
  refine ⟨_, (RoutingSettings.normalized_eq_ok _ _ _).mpr ⟨Int.le_refl _, .inl rfl, Nat.zero_le _,
    fun name h => (by cases h), builtinServiceCatalog, [], rfl, rfl, rfl⟩⟩

/-- A text that is not an object is a mode. -/
theorem parseSettingsPayload_mode (env : Env) (decode : Str → Except SmartErr RoutingSettings) {raw : Str}
    (hshort : raw.length ≤ maxSettingsSize) (hobject : (trimSpace raw).head? ≠ some 0x7B) :
    ∃ n, parseSettingsPayload env decode raw = .ok n ∧ n.mode = (normalizeMode (trimSpace raw)).text := by
  obtain ⟨n, hn⟩ := normalized_default env (normalizeMode (trimSpace raw)).text
  refine ⟨n, ?_, ?_⟩
  · unfold parseSettingsPayload
    rw [if_neg (Nat.not_lt.mpr hshort)]
    simp only
    rw [if_pos hobject, hn]
  · rw [(RoutingSettings.normalized_ok _ _ _ hn).mode, normalizeMode_text]

theorem loadedFrom_nothing (name : Str) :
    loadedFrom p env name (fun _ => none) = .ok (defaultSettings env) := by
  unfold loadedFrom storedIn Disk.content
  simp only
  split
  all_goals simp_all [Except.map]

theorem loadedFrom_sole {name k text : Str} (hp : p.toNaming.Lawful)
    (hname : Conf.tunnelNameIsValid name = true) (hshort : text.length ≤ maxSettingsSize)
    (hk : k = p.key (p.settingsFile name) ∨ k = p.key (legacyFile name)) :
    loadedFrom p env name (soleFile k text) = parseSettingsPayload env p.decode text := by
  have hne := hp.legacyFile_ne hname
  unfold loadedFrom storedIn Disk.content soleFile
  rcases hk with rfl | rfl
  · rw [Function.update_self]
    simp only
    rw [if_neg (Nat.not_lt.mpr hshort)]
  · rw [Function.update_of_ne (Ne.symm hne), Function.update_self]
    simp only
    rw [if_neg fun h => hne (congrArg p.key h), if_neg (Nat.not_lt.mpr hshort)]
    rfl

/-- A file that both profiles take for their settings goes away with the settings of one. -/
theorem delete_reaches {a b : Str} (hp : p.toNaming.Lawful) (hb : Conf.tunnelNameIsValid b = true)
    {k : Str} (hka : k = p.key (p.settingsFile a) ∨ k = p.key (legacyFile a))
    (hkb : k = p.key (p.settingsFile b) ∨ k = p.key (legacyFile b)) :
    loadedFrom p env b (SettingsOp.delete.after p env a (soleFile k (ascii "selected"))) ≠
      loadedFrom p env b (soleFile k (ascii "selected")) := by
  have hgone : SettingsOp.delete.after p env a (soleFile k (ascii "selected")) = fun _ => none := by
    rw [SettingsOp.after, deleteSettings_granted]
    funext j
    unfold Disk.erase soleFile
    rcases hka with rfl | rfl
    all_goals
      simp only [Function.update_apply]
      split <;> simp_all
  obtain ⟨n, hn, hmode⟩ := parseSettingsPayload_mode env p.decode
    (show (ascii "selected").length ≤ maxSettingsSize by decide) (by decide +kernel)
  rw [hgone, loadedFrom_nothing, loadedFrom_sole hp hb (by decide) hkb, hn]
  intro h
  cases h
  have hselected : (normalizeMode (trimSpace (ascii "selected"))).text = Mode.selected.text := by
    decide +kernel
  rw [hselected] at hmode
  cases hmode

/-- What is needed of the encodings: an array of blanks is an empty history, and settings that say
nothing are short, also as the only revision of a history. -/
structure StoreEnv.Lawful (p : StoreEnv) : Prop where
  naming : p.toNaming.Lawful
  blankHistory : ∀ blanks, p.decodeHistory (0x5B :: (List.replicate blanks 0x20 ++ [0x5D])) = .ok []
  shortSettings : (p.encode plainSettings).length < maxSettingsSize
  shortHistory : ∀ env, ∃ rest, p.encodeHistory [revisionOf env plainSettings] = 0x5B :: rest ∧
    rest.length < maxSettingsSize

/-- An empty history with blanks in it. -/
def blankHistory (blanks : Nat) : Str := 0x5B :: (List.replicate blanks 0x20 ++ [0x5D])

theorem blankHistory_length (blanks : Nat) : (blankHistory blanks).length = blanks + 2 := by
  rw [blankHistory, List.length_cons, List.length_append, List.length_replicate, List.length_singleton]

/-- Settings that say nothing, with a history of blanks. -/
def blankPast (p : StoreEnv) (a : Str) (blanks : Nat) : Disk :=
  (soleFile (p.key (p.historyFile a)) (blankHistory blanks)).put p.toNaming (p.settingsFile a) []

theorem recorded_blankPast {a : Str} (hp : p.Lawful) {blanks : Nat} (hblanks : blanks + 2 ≤ maxHistorySize) :
    recorded p plainEnv a (blankPast p a blanks) = .ok ((blankPast p a blanks).put p.toNaming (p.historyFile a)
      (p.encodeHistory [revisionOf plainEnv plainSettings])) := by
  have hparse : parseSettingsPayload plainEnv p.decode [] = .ok plainSettings := rfl
  have hpast : pastOf p a (blankPast p a blanks) = .ok [] := by
    unfold pastOf Disk.content blankPast
    rw [Disk.put_other (hp.naming.historyFile_ne a a), soleFile, Function.update_self]
    simp only
    rw [if_neg (by rw [blankHistory_length]; omega)]
    exact hp.blankHistory blanks
  unfold recorded
  have hcontent : (blankPast p a blanks).content p (p.settingsFile a) maxSettingsSize = .ok (some []) := by
    unfold Disk.content blankPast Disk.put
    rw [Function.update_self]
    rfl
  rw [hcontent]
  simp only [hparse, hpast]
  rfl

/-- A text that begins with a bracket is not an object. -/
theorem bracket_not_object (rest : Str) : (trimSpace (0x5B :: rest)).head? ≠ some 0x7B := by
  intro hhead
  rw [trimSpace, trimLeft_of_noLead _ (noLead_cons 0x5B rest (by decide))] at hhead
  have hfront := trimRight_isPrefix (0x5B :: rest)
  cases htrim : trimRight (0x5B :: rest) with
  | nil =>
    rw [htrim] at hhead
    cases hhead
  | cons c t =>
    rw [htrim] at hhead hfront
    cases hhead
    have hfirst := (List.cons_prefix_cons.mp hfront).1
    cases hfirst

/-- A history that is another profile's legacy file is read as its settings: too long a history
makes them unreadable, until it is written again. -/
theorem save_reaches {a b : Str} (hp : p.Lawful) (hb : Conf.tunnelNameIsValid b = true)
    (htag : p.tag a ≠ p.tag b) (hk : p.key (p.historyFile a) = p.key (legacyFile b)) :
    loadedFrom p plainEnv b ((SettingsOp.save plainSettings).after p plainEnv a (blankPast p a maxSettingsSize)) ≠
      loadedFrom p plainEnv b (blankPast p a maxSettingsSize) := by
  have hsettings : p.key (p.settingsFile b) ≠ p.key (p.settingsFile a) :=
    fun h => htag (hp.naming.settingsFile_key h).symm
  have hhistory : p.key (p.settingsFile b) ≠ p.key (p.historyFile a) :=
    (hp.naming.historyFile_ne a b).symm
  have hlegacy : legacyFile b ≠ p.settingsFile b :=
    fun h => hp.naming.legacyFile_ne hb (congrArg p.key h)
  have hlegacySettings : p.key (legacyFile b) ≠ p.key (p.settingsFile a) :=
    hk ▸ hp.naming.historyFile_ne a a
  have hnone : blankPast p a maxSettingsSize (p.key (p.settingsFile b)) = none := by
    rw [blankPast, Disk.put_other hsettings, soleFile, Function.update_of_ne hhistory]
  have hbefore : ∃ e, loadedFrom p plainEnv b (blankPast p a maxSettingsSize) = .error e := by
    have hlong : blankPast p a maxSettingsSize (p.key (legacyFile b)) =
        some (blankHistory maxSettingsSize) := by
      rw [blankPast, Disk.put_other hlegacySettings, soleFile, hk, Function.update_self]
    simp only [loadedFrom, storedIn, Disk.content, hnone, hlong]
    rw [if_neg hlegacy, if_pos (by rw [blankHistory_length]; omega)]
    exact ⟨_, rfl⟩
  have hafter : ∃ n, loadedFrom p plainEnv b
      ((SettingsOp.save plainSettings).after p plainEnv a (blankPast p a maxSettingsSize)) = .ok n := by
    obtain ⟨rest, htext, hshort⟩ := hp.shortHistory plainEnv
    have hnormal : plainSettings.normalized plainEnv = .ok plainSettings := rfl
    have hsaved : (SettingsOp.save plainSettings).after p plainEnv a (blankPast p a maxSettingsSize) =
        ((blankPast p a maxSettingsSize).put p.toNaming (p.historyFile a) (0x5B :: rest)).put p.toNaming
          (p.settingsFile a) (p.encode plainSettings ++ [0x0A]) := by
      rw [SettingsOp.after, saveSettings_granted]
      simp only [afterSave, saved, hnormal]
      rw [if_neg (Nat.not_le.mpr hp.shortSettings), recorded_blankPast hp (by decide), htext]
      rfl
    have hsettings' : (SettingsOp.save plainSettings).after p plainEnv a (blankPast p a maxSettingsSize)
        (p.key (p.settingsFile b)) = none := by
      rw [hsaved, Disk.put_other hsettings, Disk.put_other hhistory, hnone]
    have hlegacy' : (SettingsOp.save plainSettings).after p plainEnv a (blankPast p a maxSettingsSize)
        (p.key (legacyFile b)) = some (0x5B :: rest) := by
      rw [hsaved, Disk.put_other hlegacySettings, Disk.put, hk, Function.update_self]
    have hfits : (0x5B :: rest).length ≤ maxSettingsSize := hshort
    obtain ⟨n, hn, -⟩ := parseSettingsPayload_mode plainEnv p.decode hfits (bracket_not_object rest)
    refine ⟨n, ?_⟩
    simp only [loadedFrom, storedIn, Disk.content, hsettings', hlegacy']
    rw [if_neg hlegacy, if_neg (Nat.not_lt.mpr hfits)]
    exact hn
  obtain ⟨e, he⟩ := hbefore
  obtain ⟨n, hn⟩ := hafter
  rw [he, hn]
  intro h
  cases h

/-- The settings of a profile are out of reach of what is done to another one exactly if none of
the files of the other is its legacy file, and its file is not a legacy file either. The part of
the hash in the file names is taken to tell the two names apart. -/
theorem profiles_isolated_iff (p : StoreEnv) (hp : p.Lawful) (a b : Str)
    (hb : Conf.tunnelNameIsValid b = true) (hne : a ≠ b) (htags : p.tag a = p.tag b → a = b) :
    (∀ env env' op d, (loadSettings p env' b (SettingsOp.after p env a op d) granted).value =
        (loadSettings p env' b d granted).value) ↔
      p.key (legacyFile a) ≠ p.key (p.settingsFile b) ∧ p.key (legacyFile a) ≠ p.key (legacyFile b) ∧
        p.key (p.settingsFile a) ≠ p.key (legacyFile b) ∧
        p.key (p.historyFile a) ≠ p.key (legacyFile b) := by
  have htag : p.tag a ≠ p.tag b := fun h => hne (htags h)
  simp only [loadSettings_granted]
  constructor
  · intro h
    refine ⟨fun hk => ?_, fun hk => ?_, fun hk => ?_, fun hk => ?_⟩
    · exact delete_reaches hp.naming hb (.inr rfl) (.inl hk) (h plainEnv plainEnv _ _)
    · exact delete_reaches hp.naming hb (.inr rfl) (.inr hk) (h plainEnv plainEnv _ _)
    · exact delete_reaches hp.naming hb (.inl rfl) (.inr hk) (h plainEnv plainEnv _ _)
    · exact save_reaches hp hb htag hk (h plainEnv plainEnv _ _)
  · rintro ⟨hlegacy, hlegacies, hsettings, hhistory⟩ env env' op d
    refine loadedFrom_congr ?_ ?_
    · exact op.after_other p env a d (fun h => htag (hp.naming.settingsFile_key h).symm)
        (hp.naming.historyFile_ne a b).symm hlegacy.symm
    · exact op.after_other p env a d hsettings.symm hhistory.symm hlegacies.symm

theorem sampleStore_lawful : sampleStore.Lawful where
  naming := sampleStore_naming
  blankHistory := by
    intro blanks
    have hnone : ∀ fuel, revisionsIn fuel (List.replicate blanks 0x20 ++ [0x5D]) = [] := by
      induction blanks with
      | zero =>
        rintro (_ | _ | fuel)
        · rfl
        · exact revisionsIn_skip 0 0x5D [] (by decide)
        · exact revisionsIn_skip (fuel + 1) 0x5D [] (by decide)
      | succ blanks ih =>
        rintro (_ | fuel)
        · rfl
        · exact (revisionsIn_skip fuel 0x20 _ (by decide)).trans (ih fuel)
    change Except.ok ((revisionsIn _ (List.replicate blanks 0x20 ++ [0x5D])).map _) = _
    rw [hnone]
    rfl
  shortSettings := by decide +kernel
  shortHistory := fun env => ⟨revisionsText [.all], rfl, by decide +kernel⟩

theorem profiles_isolated_home_work :
    Conf.tunnelNameIsValid (ascii "work") = true ∧
      sampleStore.tag (ascii "home") ≠ sampleStore.tag (ascii "work") ∧
      (loadSettings sampleStore plainEnv (ascii "work")
        (SettingsOp.after sampleStore plainEnv (ascii "home") .delete
          (soleFile (ascii "work.json") (ascii "selected"))) granted).value =
        (loadSettings sampleStore plainEnv (ascii "work")
          (soleFile (ascii "work.json") (ascii "selected")) granted).value := by
  have hname : Conf.tunnelNameIsValid (ascii "work") = true := by decide +kernel
  have htag : sampleStore.tag (ascii "home") ≠ sampleStore.tag (ascii "work") := by decide +kernel
  have hiff := profiles_isolated_iff sampleStore sampleStore_lawful (ascii "home") (ascii "work")
    hname (by decide) (fun h => absurd h htag)
  exact ⟨hname, htag, hiff.mpr (by decide +kernel) plainEnv plainEnv .delete _⟩

/-- Two names with one legacy name: the settings of the second, stored by an older release, are
gone when the first profile is deleted. -/
theorem delete_reaches_namesake :
    Conf.tunnelNameIsValid (ascii "x=y") = true ∧ Conf.tunnelNameIsValid (ascii "x+y") = true ∧
      sampleStore.tag (ascii "x=y") ≠ sampleStore.tag (ascii "x+y") ∧
      (loadSettings sampleStore plainEnv (ascii "x+y")
        (soleFile (ascii "x_y.json") (ascii "selected")) granted).value = .ok (modeOnly .selected) ∧
      (loadSettings sampleStore plainEnv (ascii "x+y")
        (SettingsOp.delete.after sampleStore plainEnv (ascii "x=y")
          (soleFile (ascii "x_y.json") (ascii "selected"))) granted).value = .ok (modeOnly .all) := by
  decide +kernel

end sharing

end SmartAwg.Smart
