import SmartAwg.SmartHistory
import SmartAwg.SmartIsolation

/-!
What is left of a profile whose settings were deleted. The settings, their legacy form and their
history are three files, written by different operations; `DeleteSettings` removes two of them.
-/

namespace SmartAwg.Smart

open Go Fallible Fallible.Prog

section revisions
variable {p : StoreEnv} {env : Env} {name : Str} {d d' : Disk}

/-- The encodings as far as they matter here: a history with revisions is never read as none. -/
structure StoreEnv.Remembers (p : StoreEnv) : Prop where
  naming : p.toNaming.Lawful
  revisions : ∀ h, h ≠ [] → p.decodeHistory (p.encodeHistory h) ≠ .ok []

/-- Every history file was written with some revision in it. -/
def HasRevisions (p : StoreEnv) (d : Disk) : Prop :=
  ∀ name text, d (p.key (p.historyFile name)) = some text → ∃ h, h ≠ [] ∧ text = p.encodeHistory h

theorem HasRevisions.of_removed (h : HasRevisions p d) (hremoved : ∀ k, d' k = d k ∨ d' k = none) :
    HasRevisions p d' := by
  intro name text htext
  rcases hremoved (p.key (p.historyFile name)) with hsame | hnone
  · exact h name text (hsame ▸ htext)
  · rw [hnone] at htext
    cases htext

theorem HasRevisions.recorded (h : HasRevisions p d) (hrec : recorded p env name d = .ok d') :
    HasRevisions p d' := by
  intro b text htext
  by_cases hkey : p.key (p.historyFile b) = p.key (p.historyFile name)
  · unfold Smart.recorded at hrec
    split at hrec
    · cases hrec
    · cases hrec
      exact h b text htext
    · split at hrec
      · cases hrec
      rename_i previous _
      cases hpast : pastOf p name d with
      | error e =>
        rw [hpast] at hrec
        cases hrec
      | ok history =>
        rw [hpast] at hrec
        cases hrec
        rw [hkey] at htext
        have hput := (Function.update_self ..).symm.trans htext
        refine ⟨lastTwelve (history ++ [revisionOf env previous]), ?_, (Option.some.inj hput).symm⟩
        intro hnil
        have hlast := lastTwelve_concat_getLast history (revisionOf env previous)
        rw [hnil] at hlast
        cases hlast
  · exact h b text ((recorded_other hrec hkey) ▸ htext)

theorem HasRevisions.saved (hp : p.toNaming.Lawful) (h : HasRevisions p d) {s : RoutingSettings}
    (hsaved : saved p env name s d = .ok d') : HasRevisions p d' := by
  obtain ⟨n, d₁, -, -, hrec, rfl⟩ := saved_ok hsaved
  intro b text htext
  rw [Disk.put_other (hp.historyFile_ne b name)] at htext
  exact h.recorded hrec b text htext

end revisions

section steps
variable {p : StoreEnv} {env : Env} {name : Str} {d : Disk} {G : FileStep → Option SmartErr → Prop}

theorem saveSettings_hasRevisions (hp : p.toNaming.Lawful) (h : HasRevisions p d)
    (s : RoutingSettings) : wp G (saveSettings p env name s) (fun _ d' => HasRevisions p d') d := by
  refine (saveSettings_spec s).mono ?_
  rintro (e | ⟨⟩) d' hend
  · rcases hend.failed e rfl with ⟨-, rfl⟩ | ⟨-, rfl | hrec⟩
    · exact h
    · exact h
    · exact h.recorded hrec
  · exact h.saved hp (hend.done rfl)

theorem removeFile_removes (file : Str) :
    wp G (removeFile p file) (fun _ d' => ∀ k, d' k = d k ∨ d' k = none) d := by
  refine wp_perform ?_ fun _ _ k => .inl rfl
  intro k
  by_cases hk : k = p.key file
  · exact .inr (by rw [hk, Disk.erase, Function.update_self])
  · exact .inl (Disk.erase_other hk)

theorem loadSettings_hasRevisions (hp : p.toNaming.Lawful) (h : HasRevisions p d) :
    wp G (loadSettings p env name) (fun _ d' => HasRevisions p d') d := by
  refine readStored_sees.bind ?_ fun e _ => h
  rintro (_ | ⟨data, loadedLegacy⟩) -
  · exact wp_pure _ h
  simp only
  cases parseSettingsPayload env p.decode data with
  | error e => exact wp_fail _ h
  | ok settings =>
    refine wp_ite _ (fun _ => ?_) fun _ => wp_pure _ h
    have hmigrate : wp G (migrateStored p env name settings loadedLegacy)
        (fun _ d' => HasRevisions p d') d := by
      refine (saveSettings_hasRevisions hp h settings).attempt_bind ?_
      rintro (e | ⟨⟩) d' hd'
      · exact wp_pure _ hd'
      · refine wp_ite _ (fun _ => ?_) fun _ => wp_pure _ hd'
        refine (removeFile_removes (legacyFile name)).attempt_bind ?_
        exact fun r d'' hremoved => wp_pure _ (hd'.of_removed hremoved)
    exact hmigrate.bind (fun _ d' hd' => wp_pure _ hd') fun _ _ hd' => hd'

theorem restoreSettingsRevision_hasRevisions (hp : p.toNaming.Lawful) (h : HasRevisions p d)
    (index : Int) : wp G (restoreSettingsRevision p env name index) (fun _ d' => HasRevisions p d') d := by
  refine loadSettingsHistory_sees.bind ?_ fun e _ => h
  intro history _
  generalize (if index < 0 then none else history[index.toNat]?) = found
  cases found with
  | none => exact wp_fail _ h
  | some revision => exact saveSettings_hasRevisions hp h revision.settings

theorem saveMode_hasRevisions (hp : p.toNaming.Lawful) (h : HasRevisions p d) (mode : Str) :
    wp G (saveMode p env name mode) (fun _ d' => HasRevisions p d') d := by
  refine (loadSettings_hasRevisions hp h).attempt_bind ?_
  exact fun r d' hd' => saveSettings_hasRevisions hp hd' _

theorem deleteSettings_removes :
    wp G (deleteSettings p name) (fun _ d' => ∀ k, d' k = d k ∨ d' k = none) d := by
  refine (wp_gather _ (fun _ _ d' => ∀ k, d' k = d k ∨ d' k = none) _ [] [] (fun k => .inl rfl)
    ?_).mono fun r d' hall => hall.choose_spec.2
  intro _ _ d₁ file _ h₁
  refine (removeFile_removes file).mono fun r d₂ h₂ => ?_
  have hboth : ∀ k, d₂ k = d k ∨ d₂ k = none := by
    intro k
    rcases h₂ k with hk | hk
    · rw [hk]
      exact h₁ k
    · exact .inr hk
  exact ⟨fun _ => hboth, fun _ _ => hboth⟩

/-- `DeleteSettings` without an error has removed both of its files, and nothing else. -/
theorem deleteSettings_done :
    wp G (deleteSettings p name) (fun r d' => r = .ok [] → d' =
      [p.settingsFile name, legacyFile name].dedup.foldl (fun d file => d.erase p.toNaming file) d) d := by
  refine (wp_gather _ (fun done es d' => es = [] → d' =
    done.foldl (fun d file => d.erase p.toNaming file) d) _ [] [] (fun _ => rfl) ?_).mono ?_
  · intro done es d₁ file _ h₁
    refine wp_perform ⟨fun _ hes => ?_, fun e he => (by cases he)⟩ fun _ e =>
      ⟨fun h => (by cases h), fun e' _ hes => by simp at hes⟩
    rw [h₁ hes, List.foldl_append]
    rfl
  · rintro r d' ⟨more, rfl, hall⟩ hr
    simp only [List.nil_append] at hall
    exact hall (Except.ok.inj hr)

end steps

section runs
variable {p : StoreEnv} {name : Str} {d : Disk}

/-- The files after an operation, whatever was answered to its file operations. -/
def SettingsOp.leaves (p : StoreEnv) (env : Env) (name : Str) (op : SettingsOp) (d : Disk)
    (answers : Feed FileStep (Option SmartErr)) : Disk :=
  match op with
  | .load => (loadSettings p env name d answers).state
  | .save settings => (saveSettings p env name settings d answers).state
  | .saveMode mode => (Smart.saveMode p env name mode d answers).state
  | .delete => (deleteSettings p name d answers).state
  | .restore index => (restoreSettingsRevision p env name index d answers).state

/-- The files that operations on any profiles lead to, from no history on. -/
inductive Reached (p : StoreEnv) : Disk → Prop where
  | start (d : Disk) (hnone : ∀ name, d (p.key (p.historyFile name)) = none) : Reached p d
  | step {d : Disk} (before : Reached p d) (env : Env) (name : Str) (op : SettingsOp)
      (answers : Feed FileStep (Option SmartErr)) : Reached p (op.leaves p env name d answers)

theorem SettingsOp.leaves_hasRevisions (hp : p.toNaming.Lawful) (h : HasRevisions p d) (env : Env)
    (op : SettingsOp) (answers : Feed FileStep (Option SmartErr)) :
    HasRevisions p (op.leaves p env name d answers) := by
  have hall := grants_givenBy answers
  cases op with
  | load => exact (loadSettings_hasRevisions hp h).ending answers hall
  | save settings => exact (saveSettings_hasRevisions hp h settings).ending answers hall
  | saveMode mode => exact (saveMode_hasRevisions hp h mode).ending answers hall
  | delete => exact h.of_removed (deleteSettings_removes.ending answers hall)
  | restore index => exact (restoreSettingsRevision_hasRevisions hp h index).ending answers hall

theorem Reached.hasRevisions (hp : p.toNaming.Lawful) (h : Reached p d) : HasRevisions p d := by
  induction h with
  | start d hnone =>
    intro name text htext
    rw [hnone name] at htext
    cases htext
  | step before env name op answers ih => exact SettingsOp.leaves_hasRevisions hp ih env op answers

end runs

section deletion
variable {p : StoreEnv} {name : Str} {d : Disk}

/-- Nothing of a profile can be read any more: its settings are the default ones, there is no
history, and no revision can be restored. -/
structure Forgotten (p : StoreEnv) (name : Str) (d : Disk) : Prop where
  settings : ∀ env, (loadSettings p env name d granted).value = .ok (defaultSettings env)
  history : (loadSettingsHistory p name d granted).value = .ok []
  revisions : ∀ env index answers, (restoreSettingsRevision p env name index d answers).value ≠ .ok ()

theorem pastOf_missing (h : d (p.key (p.historyFile name)) = none) : pastOf p name d = .ok [] := by
  unfold pastOf Disk.content
  rw [h]

theorem loadedFrom_missing (env : Env) (hsettings : d (p.key (p.settingsFile name)) = none)
    (hlegacy : d (p.key (legacyFile name)) = none) :
    loadedFrom p env name d = .ok (defaultSettings env) := by
  have hstored : storedIn p name d = .ok none := by
    simp only [storedIn, Disk.content, hsettings, hlegacy]
    split <;> rfl
  unfold loadedFrom
  rw [hstored]

theorem forgotten_of_missing (hsettings : d (p.key (p.settingsFile name)) = none)
    (hlegacy : d (p.key (legacyFile name)) = none) (hhistory : d (p.key (p.historyFile name)) = none) :
    Forgotten p name d where
  settings := by
    intro env
    rw [loadSettings_granted]
    exact loadedFrom_missing env hsettings hlegacy
  history := by
    rw [loadSettingsHistory_granted]
    exact pastOf_missing hhistory
  revisions := by
    intro env index answers hdone
    obtain ⟨history, revision, hpast, -, hrevision, -⟩ := restoreSettingsRevision_done hdone
    rw [pastOf_missing hhistory] at hpast
    cases hpast
    simp at hrevision

/-- What `DeleteSettings` of a valid name leaves: the history as it was, and neither of the
other two files. -/
theorem deleteSettings_leaves (hp : p.toNaming.Lawful) (hname : Conf.tunnelNameIsValid name = true)
    {answers : Feed FileStep (Option SmartErr)} (h : (deleteSettings p name d answers).value = .ok []) :
    let d' := (deleteSettings p name d answers).state
    d' (p.key (p.settingsFile name)) = none ∧ d' (p.key (legacyFile name)) = none ∧
      d' (p.key (p.historyFile name)) = d (p.key (p.historyFile name)) := by
  intro d'
  have hstate := deleteSettings_done.ending answers (grants_givenBy answers) h
  have hdiffer : p.settingsFile name ≠ legacyFile name :=
    fun heq => hp.legacyFile_ne hname (congrArg p.key heq.symm)
  rw [List.dedup_cons_of_notMem (by simpa using hdiffer), List.dedup_cons_of_notMem (by simp),
    List.dedup_nil] at hstate
  have herased : d' = (d.erase p.toNaming (p.settingsFile name)).erase p.toNaming (legacyFile name) := hstate
  rw [herased]
  refine ⟨?_, Function.update_self .., ?_⟩
  · rw [Disk.erase_other (hp.legacyFile_ne hname).symm]
    exact Function.update_self ..
  · rw [Disk.erase_other (hp.legacyFile_ne_history hname).symm, Disk.erase_other (hp.historyFile_ne name name)]

/-- Deleting the settings of a profile is complete exactly if it has no history file. -/
theorem deleteSettings_complete_iff (p : StoreEnv) (hp : p.Remembers) (name : Str)
    (hname : Conf.tunnelNameIsValid name = true) (d : Disk) (hd : Reached p d) :
    (∀ answers, (deleteSettings p name d answers).value = .ok [] →
        Forgotten p name (deleteSettings p name d answers).state) ↔
      d (p.key (p.historyFile name)) = none := by
  constructor
  · intro hall
    have hdone : (deleteSettings p name d granted).value = .ok [] := by
      have hspec := wp_gather (G := fun _ a => a = none) (removeFile p) (fun _ es _ => es = [])
        [p.settingsFile name, legacyFile name].dedup [] [] (s := d) rfl fun _ es d' file _ hes =>
          wp_perform ⟨fun _ => hes, fun e he => (by cases he)⟩ fun hG _ => absurd hG not_refuses
      obtain ⟨more, hmore, hnil⟩ := hspec.ending granted grants_granted
      exact hmore.trans (congrArg Except.ok hnil)
    have hhistory := (hall granted hdone).history
    obtain ⟨-, -, hkept⟩ := deleteSettings_leaves hp.naming hname hdone
    rw [loadSettingsHistory_granted] at hhistory
    -- a file that is there holds revisions, and they would be read
    cases hfile : d (p.key (p.historyFile name)) with
    | none => rfl
    | some text =>
      obtain ⟨h, hne, rfl⟩ := hd.hasRevisions hp.naming name text hfile
      exfalso
      unfold pastOf Disk.content at hhistory
      rw [hkept, hfile] at hhistory
      simp only at hhistory
      split at hhistory
      · cases hhistory
      · rename_i hlong heq
        split at heq <;> cases heq
      · rename_i data heq
        split at heq
        · cases heq
        · cases heq
          exact hp.revisions h hne hhistory
  · intro hnone answers hdone
    obtain ⟨hsettings, hlegacy, hkept⟩ := deleteSettings_leaves hp.naming hname hdone
    exact forgotten_of_missing hsettings hlegacy (hkept.trans hnone)

theorem sampleStore_remembers : sampleStore.Remembers where
  naming := sampleStore_naming
  revisions := by
    intro h hne hnil
    rw [(sampleStore_history h).2] at hnil
    exact hne (List.map_eq_nil_iff.mp (Except.ok.inj hnil))

/-- The files after settings were saved for `home`, once and once more. -/
def savedOnce : Disk :=
  SettingsOp.leaves sampleStore plainEnv (ascii "home") (.save (modeOnly .selected)) (fun _ => none) granted

def savedTwice : Disk :=
  SettingsOp.leaves sampleStore plainEnv (ascii "home") (.save (modeOnly .all)) savedOnce granted

theorem savedOnce_reached : Reached sampleStore savedOnce :=
  .step (.start _ fun _ => rfl) plainEnv (ascii "home") _ granted

theorem deleteSettings_complete_once :
    Reached sampleStore savedOnce ∧
      (deleteSettings sampleStore (ascii "home") savedOnce granted).value = .ok [] ∧
      Forgotten sampleStore (ascii "home")
        (deleteSettings sampleStore (ascii "home") savedOnce granted).state := by
  have hdone : (deleteSettings sampleStore (ascii "home") savedOnce granted).value = .ok [] := by
    decide +kernel
  refine ⟨savedOnce_reached, hdone, ?_⟩
  exact (deleteSettings_complete_iff sampleStore sampleStore_remembers (ascii "home") (by decide +kernel)
    savedOnce savedOnce_reached).mpr (by decide +kernel) granted hdone

/-- The profile is deleted, and a new one of its name is saved: the first revision of the new
one's history is of the old profile, and can be restored. -/
theorem deleted_history_returns :
    let deleted := deleteSettings sampleStore (ascii "home") savedTwice granted
    let new := SettingsOp.leaves sampleStore plainEnv (ascii "home") (.save (modeOnly .all)) deleted.state granted
    let restored := restoreSettingsRevision sampleStore plainEnv (ascii "home") 0 new granted
    Reached sampleStore savedTwice ∧ Conf.tunnelNameIsValid (ascii "home") = true ∧
      deleted.value = .ok [] ∧
      (loadSettingsHistory sampleStore (ascii "home") deleted.state granted).value ≠ .ok [] ∧
      restored.value = .ok () ∧
      (loadSettings sampleStore plainEnv (ascii "home") restored.state granted).value =
        .ok (modeOnly .selected) := by
  refine ⟨savedOnce_reached.step plainEnv (ascii "home") _ granted, ?_⟩
  decide +kernel

end deletion

end SmartAwg.Smart
