import Mathlib.Data.List.Dedup
import SmartAwg.Fallible
import SmartAwg.SmartFiles

/-!
The store of the settings: one directory, with the settings of every tunnel in a file and their
revisions in another. Any file operation can fail; a write is to a temporary file which a rename
puts into place, so a file has its old content or its new one.
-/

namespace SmartAwg.Smart

open Go Fallible Fallible.Prog

section store

structure SettingsRevision where
  time : Int
  reason : Str
  settings : RoutingSettings
  deriving DecidableEq

/-- The JSON encodings, and the file names. A text that states no version has version 0. -/
structure StoreEnv extends Naming where
  decode : Str → Except SmartErr RoutingSettings
  storedVersion : Str → Int
  encode : RoutingSettings → Str
  decodeHistory : Str → Except SmartErr (List SettingsRevision)
  encodeHistory : List SettingsRevision → Str

/-- The files of the directory, by what the file system compares. -/
abbrev Disk := Str → Option Str

def Disk.put (p : Naming) (d : Disk) (name text : Str) : Disk :=
  Function.update d (p.key name) (some text)

/-- One file, and nothing else. -/
def soleFile (k text : Str) : Disk := Function.update (fun _ => none) k (some text)

def Disk.erase (p : Naming) (d : Disk) (name : Str) : Disk := Function.update d (p.key name) none

/-- The file operations. A file that does not exist is no error of reading or removing it. -/
inductive FileStep where
  | mkdirAll
  | createTemp
  | writeTemp
  | rename (name : Str)
  | readFile (name : Str)
  | remove (name : Str)

/-- The answer to an operation is its error. -/
abbrev Store (α : Type) := Prog FileStep (Option SmartErr) Disk SmartErr α

def perform (q : FileStep) (effect : Disk → Disk) : Store Unit := do
  match ← ask q with
  | some e => fail e
  | none => change effect

end store

section operations
variable (p : StoreEnv) (env : Env)

/-- `readLimitedFile`; `none` is `os.ErrNotExist`. -/
def readLimitedFile (name : Str) (limit : Nat) : Store (Option Str) := do
  match ← ask (.readFile name) with
  | some e => fail e
  | none =>
    match (← read) (p.key name) with
    | none => return none
    | some data =>
      if data.length > limit then fail (.text "файл превышает допустимый размер")
      else return some data

def writeAtomic (name data : Str) : Store Unit := do
  perform .mkdirAll id
  perform .createTemp id
  perform .writeTemp id
  perform (.rename name) fun d => d.put p.toNaming name data

def maxHistorySize : Nat := 13 * 1024 * 1024

def loadSettingsHistory (name : Str) : Store (List SettingsRevision) := do
  match ← readLimitedFile p (p.historyFile name) maxHistorySize with
  | none => return []
  | some data =>
    if data.length > maxHistorySize then fail (.text "история настроек слишком велика")
    else
      match p.decodeHistory data with
      | .error e => fail e
      | .ok history => return history

/-- The newest twelve. -/
def lastTwelve {α : Type} (xs : List α) : List α := xs.drop (xs.length - 12)

def changeReason : Str := utf8 "До изменения настроек"

def revisionOf (previous : RoutingSettings) : SettingsRevision := ⟨env.now, changeReason, previous⟩

def recordPreviousSettings (name : Str) : Store Unit := do
  match ← readLimitedFile p (p.settingsFile name) maxSettingsSize with
  | none => return ()
  | some data =>
    match parseSettingsPayload env p.decode data with
    | .error e => fail e
    | .ok previous =>
      let history ← loadSettingsHistory p name
      writeAtomic p (p.historyFile name)
        (p.encodeHistory (lastTwelve (history ++ [revisionOf env previous])))

/-- The check of `SaveSettings` on the size of what it is about to write. -/
def checkSize (data : Str) : Store Unit :=
  if data.length ≥ maxSettingsSize then fail (.text "настройки превышают 1 МБ") else pure ()

def saveSettings (name : Str) (settings : RoutingSettings) : Store Unit :=
  match settings.normalized env with
  | .error e => fail e
  | .ok normalized => do
    perform .mkdirAll id
    checkSize (p.encode normalized)
    perform .createTemp id
    perform .writeTemp id
    recordPreviousSettings p env name
    perform (.rename (p.settingsFile name)) fun d =>
      d.put p.toNaming (p.settingsFile name) (p.encode normalized ++ [0x0A])

/-- The file that `LoadSettings` reads, and whether it is the legacy one. -/
def readStored (name : Str) : Store (Option (Str × Bool)) := do
  match ← readLimitedFile p (p.settingsFile name) maxSettingsSize with
  | some data => return some (data, false)
  | none =>
    if legacyFile name = p.settingsFile name then return none
    else
      match ← readLimitedFile p (legacyFile name) maxSettingsSize with
      | some data => return some (data, true)
      | none => return none

def removeFile (name : Str) : Store Unit :=
  perform (.remove name) fun d => d.erase p.toNaming name

/-- `LoadSettings` writes what it read in the present form; it does not matter whether it can. -/
def migrateStored (name : Str) (settings : RoutingSettings) (loadedLegacy : Bool) : Store Unit := do
  match ← attempt (saveSettings p env name settings) with
  | .error _ => return ()
  | .ok () =>
    if loadedLegacy then do
      let _ ← attempt (removeFile p (legacyFile name))
      return ()
    else return ()

def loadSettings (name : Str) : Store RoutingSettings := do
  match ← readStored p name with
  | none => return defaultSettings env
  | some (data, loadedLegacy) =>
    match parseSettingsPayload env p.decode data with
    | .error e => fail e
    | .ok settings =>
      if loadedLegacy = true ∨ p.storedVersion data ≠ settings.version then do
        migrateStored p env name settings loadedLegacy
        return settings
      else return settings

/-- `DeleteSettings`: the errors it joins, if any. -/
def deleteSettings (name : Str) : Store (List SmartErr) :=
  gather (removeFile p) [p.settingsFile name, legacyFile name].dedup

def saveMode (name mode : Str) : Store Unit := do
  let loaded ← attempt (loadSettings p env name)
  let settings := match loaded with
    | .ok settings => settings
    | .error _ => defaultSettings env
  saveSettings p env name { settings with mode := (normalizeMode mode).text }

def restoreSettingsRevision (name : Str) (index : Int) : Store Unit := do
  let history ← loadSettingsHistory p name
  match if index < 0 then none else history[index.toNat]? with
  | none => fail (.text "версия настроек не найдена")
  | some revision => saveSettings p env name revision.settings

end operations

section outcomes
variable (p : StoreEnv) (env : Env) (name : Str)

/-! What the operations come to when no file operation fails, as functions of the files. -/

def Disk.content (d : Disk) (file : Str) (limit : Nat) : Except SmartErr (Option Str) :=
  match d (p.key file) with
  | none => .ok none
  | some data =>
    if data.length > limit then .error (.text "файл превышает допустимый размер")
    else .ok (some data)

def pastOf (d : Disk) : Except SmartErr (List SettingsRevision) :=
  match d.content p (p.historyFile name) maxHistorySize with
  | .error e => .error e
  | .ok none => .ok []
  | .ok (some data) => p.decodeHistory data

def recorded (d : Disk) : Except SmartErr Disk :=
  match d.content p (p.settingsFile name) maxSettingsSize with
  | .error e => .error e
  | .ok none => .ok d
  | .ok (some data) =>
    match parseSettingsPayload env p.decode data with
    | .error e => .error e
    | .ok previous => (pastOf p name d).map fun history => d.put p.toNaming (p.historyFile name)
        (p.encodeHistory (lastTwelve (history ++ [revisionOf env previous])))

def saved (settings : RoutingSettings) (d : Disk) : Except SmartErr Disk :=
  match settings.normalized env with
  | .error e => .error e
  | .ok normalized =>
    if (p.encode normalized).length ≥ maxSettingsSize then .error (.text "настройки превышают 1 МБ")
    else (recorded p env name d).map fun d' =>
      d'.put p.toNaming (p.settingsFile name) (p.encode normalized ++ [0x0A])

def storedIn (d : Disk) : Except SmartErr (Option (Str × Bool)) :=
  match d.content p (p.settingsFile name) maxSettingsSize with
  | .error e => .error e
  | .ok (some data) => .ok (some (data, false))
  | .ok none =>
    if legacyFile name = p.settingsFile name then .ok none
    else (d.content p (legacyFile name) maxSettingsSize).map fun data => data.map (·, true)

def loadedFrom (d : Disk) : Except SmartErr RoutingSettings :=
  match storedIn p name d with
  | .error e => .error e
  | .ok none => .ok (defaultSettings env)
  | .ok (some (data, _)) => parseSettingsPayload env p.decode data

def migrated (settings : RoutingSettings) (loadedLegacy : Bool) (d : Disk) : Disk :=
  match saved p env name settings d with
  | .error _ => d
  | .ok d' => if loadedLegacy then d'.erase p.toNaming (legacyFile name) else d'

/-- The files after `SaveSettings`. -/
def afterSave (settings : RoutingSettings) (d : Disk) : Disk :=
  match saved p env name settings d with
  | .error _ => d
  | .ok d' => d'

/-- The files after `LoadSettings`. -/
def afterLoad (d : Disk) : Disk :=
  match storedIn p name d with
  | .error _ => d
  | .ok none => d
  | .ok (some (data, loadedLegacy)) =>
    match parseSettingsPayload env p.decode data with
    | .error _ => d
    | .ok settings =>
      if loadedLegacy = true ∨ p.storedVersion data ≠ settings.version then
        migrated p env name settings loadedLegacy d
      else d

end outcomes

section specs
variable {p : StoreEnv} {env : Env} {name : Str} {G : FileStep → Option SmartErr → Prop} {d : Disk}

/-- Some file operation may fail. -/
def Refuses (G : FileStep → Option SmartErr → Prop) : Prop := ∃ q e, G q (some e)

theorem wp_perform {q : FileStep} {effect : Disk → Disk} {R : Except SmartErr Unit → Disk → Prop}
    (h : R (.ok ()) (effect d)) (hrefused : Refuses G → ∀ e, R (.error e) d) :
    wp G (perform q effect) R d := by
  refine (wp_ask (R := fun r d' => d' = d ∧ ∃ a, r = .ok a ∧ G q a) q
    fun a ha => ⟨rfl, a, rfl, ha⟩).bind ?_ ?_
  · rintro a _ ⟨rfl, _, h', ha⟩
    cases h'
    cases a with
    | none => exact wp_change _ h
    | some e => exact wp_fail _ (hrefused ⟨q, e, ha⟩ e)
  · rintro e _ ⟨-, a, ha, -⟩
    cases ha

theorem perform_bind {α : Type} {q : FileStep} {effect : Disk → Disk} {k : Unit → Store α}
    {R : Except SmartErr α → Disk → Prop} (h : wp G (k ()) R (effect d))
    (hrefused : Refuses G → ∀ e, R (.error e) d) : wp G (perform q effect >>= k) R d := by
  refine (wp_perform (R := fun r d' => (r = .ok () ∧ d' = effect d) ∨
    Refuses G ∧ d' = d ∧ ∃ e, r = .error e) (.inl ⟨rfl, rfl⟩)
    fun hG e => .inr ⟨hG, rfl, e, rfl⟩).bind ?_ ?_
  · rintro ⟨⟩ d' (⟨-, rfl⟩ | ⟨-, -, e, he⟩)
    · exact h
    · cases he
  · rintro e d' (⟨he, -⟩ | ⟨hG, rfl, -⟩)
    · cases he
    · exact hrefused hG e

/-- A program that changes no file: it finds out `x`, or one of its operations fails. -/
def Sees {α : Type} (G : FileStep → Option SmartErr → Prop) (x : Except SmartErr α) (m : Store α)
    (d : Disk) : Prop :=
  wp G m (fun r d' => d' = d ∧ (r = x ∨ Refuses G ∧ ∃ e, r = .error e)) d

theorem Sees.bind {α β : Type} {x : Except SmartErr α} {m : Store α} {k : α → Store β}
    {R : Except SmartErr β → Disk → Prop} (hm : Sees G x m d) (hok : ∀ a, x = .ok a → wp G (k a) R d)
    (herr : ∀ e, x = .error e ∨ Refuses G → R (.error e) d) : wp G (m >>= k) R d := by
  refine wp.bind hm ?_ ?_
  · rintro a _ ⟨rfl, hx | ⟨-, e, he⟩⟩
    · exact hok a hx.symm
    · cases he
  · rintro e _ ⟨rfl, hx | ⟨hG, -⟩⟩
    · exact herr e (.inl hx.symm)
    · exact herr e (.inr hG)

theorem readLimitedFile_sees (file : Str) (limit : Nat) :
    Sees G (d.content p file limit) (readLimitedFile p file limit) d := by
  refine (wp_ask (R := fun r d' => d' = d ∧ ∃ a, r = .ok a ∧ G (.readFile file) a) _
    fun a ha => ⟨rfl, a, rfl, ha⟩).bind ?_ ?_
  · rintro a d ⟨rfl, _, h', ha⟩
    cases h'
    cases a with
    | some e => exact wp_fail _ ⟨rfl, .inr ⟨⟨_, e, ha⟩, e, rfl⟩⟩
    | none =>
      refine wp.read_bind ?_
      unfold Disk.content
      cases d (p.key file) with
      | none => exact wp_pure _ ⟨rfl, .inl rfl⟩
      | some data =>
        exact wp_ite _ (fun hlong => wp_fail _ ⟨rfl, .inl (if_pos hlong).symm⟩)
          fun hshort => wp_pure _ ⟨rfl, .inl (if_neg hshort).symm⟩
  · rintro e _ ⟨-, a, ha, -⟩
    cases ha

theorem Disk.content_ok {file data : Str} {limit : Nat}
    (h : d.content p file limit = .ok (some data)) : d (p.key file) = some data ∧ data.length ≤ limit := by
  unfold Disk.content at h
  split at h
  · cases h
  · split at h
    · cases h
    · rename_i hfile hshort
      cases h
      exact ⟨hfile, Nat.not_lt.mp hshort⟩

theorem content_of_short {file x : Str} {limit : Nat} (hx : d (p.key file) = some x)
    (hshort : x.length ≤ limit) : d.content p file limit = .ok (some x) := by
  unfold Disk.content
  rw [hx]
  exact if_neg (Nat.not_lt.mpr hshort)

theorem loadSettingsHistory_sees : Sees G (pastOf p name d) (loadSettingsHistory p name) d := by
  unfold pastOf
  refine (readLimitedFile_sees _ _).bind ?_ ?_
  · rintro (_ | data) hdata
    · rw [hdata]
      exact wp_pure _ ⟨rfl, .inl rfl⟩
    · rw [hdata]
      simp only
      rw [if_neg (Nat.not_lt.mpr (Disk.content_ok hdata).2)]
      cases p.decodeHistory data with
      | error e => exact wp_fail _ ⟨rfl, .inl rfl⟩
      | ok history => exact wp_pure _ ⟨rfl, .inl rfl⟩
  · rintro e (he | hG)
    · rw [he]
      exact ⟨rfl, .inl rfl⟩
    · exact ⟨rfl, .inr ⟨hG, e, rfl⟩⟩

theorem recordPreviousSettings_spec :
    wp G (recordPreviousSettings p env name) (fun r d' => (r = .ok () → recorded p env name d = .ok d') ∧
      ∀ e, r = .error e → d' = d ∧ (recorded p env name d = .error e ∨ Refuses G)) d := by
  have hfailed : ∀ e, recorded p env name d = .error e ∨ Refuses G →
      (Except.error e = .ok () → recorded p env name d = .ok d) ∧
      ∀ e', Except.error e = (.error e' : Except SmartErr Unit) →
        d = d ∧ (recorded p env name d = .error e' ∨ Refuses G) := by
    intro e he
    refine ⟨fun h => (by cases h), fun e' h => ?_⟩
    cases h
    exact ⟨rfl, he⟩
  refine (readLimitedFile_sees _ _).bind ?_ ?_
  · rintro (_ | data) hdata
    · refine wp_pure _ ⟨fun _ => ?_, fun e he => (by cases he)⟩
      unfold recorded
      rw [hdata]
    · simp only
      cases hparse : parseSettingsPayload env p.decode data with
      | error e =>
        refine wp_fail _ (hfailed e (.inl ?_))
        unfold recorded
        simp only [hdata, hparse]
      | ok previous =>
        have hrec : recorded p env name d = (pastOf p name d).map fun history =>
            d.put p.toNaming (p.historyFile name)
              (p.encodeHistory (lastTwelve (history ++ [revisionOf env previous]))) := by
          unfold recorded
          simp only [hdata, hparse]
        refine loadSettingsHistory_sees.bind ?_ ?_
        · intro history hpast
          have hG := fun h : Refuses G => fun e => hfailed e (.inr h)
          refine perform_bind (perform_bind (perform_bind (wp_perform ?_ hG) hG) hG) hG
          refine ⟨fun _ => ?_, fun e he => (by cases he)⟩
          rw [hrec, hpast]
          rfl
        · rintro e (he | hG)
          · refine hfailed e (.inl ?_)
            rw [hrec, he]
            rfl
          · exact hfailed e (.inr hG)
  · rintro e (he | hG)
    · refine hfailed e (.inl ?_)
      unfold recorded
      rw [he]
    · exact hfailed e (.inr hG)

/-- How `SaveSettings` can end. Only a rename can fail after the revision has been written. -/
structure SaveEnd (p : StoreEnv) (env : Env) (name : Str) (settings : RoutingSettings)
    (G : FileStep → Option SmartErr → Prop) (d : Disk) (r : Except SmartErr Unit) (d' : Disk) :
    Prop where
  done : r = .ok () → saved p env name settings d = .ok d'
  failed : ∀ e, r = .error e → (saved p env name settings d = .error e ∧ d' = d) ∨
    Refuses G ∧ (d' = d ∨ recorded p env name d = .ok d')

theorem saveSettings_spec (settings : RoutingSettings) :
    wp G (saveSettings p env name settings) (SaveEnd p env name settings G d) d := by
  have herror : ∀ e, saved p env name settings d = .error e →
      SaveEnd p env name settings G d (.error e) d := by
    intro e he
    refine ⟨fun h => (by cases h), fun e' h => .inl ⟨?_, rfl⟩⟩
    cases h
    exact he
  have hrefused : Refuses G → ∀ e, SaveEnd p env name settings G d (.error e) d :=
    fun hG e => ⟨fun h => (by cases h), fun _ _ => .inr ⟨hG, .inl rfl⟩⟩
  unfold saveSettings
  split
  · rename_i e hnormal
    refine wp_fail _ (herror e ?_)
    unfold saved
    rw [hnormal]
  rename_i normalized hnormal
  have hsaved : saved p env name settings d =
      if (p.encode normalized).length ≥ maxSettingsSize then
        .error (.text "настройки превышают 1 МБ")
      else (recorded p env name d).map fun d' =>
        d'.put p.toNaming (p.settingsFile name) (p.encode normalized ++ [0x0A]) := by
    unfold saved
    rw [hnormal]
  refine perform_bind ?_ hrefused
  unfold checkSize
  split
  · rename_i hsize
    rw [if_pos hsize] at hsaved
    exact fun f hf => ⟨herror _ hsaved, hf⟩
  · rename_i hsize
    rw [if_neg hsize] at hsaved
    refine perform_bind (perform_bind ?_ hrefused) hrefused
    refine (recordPreviousSettings_spec (d := d)).bind ?_ ?_
    · rintro ⟨⟩ d' ⟨hrec, -⟩
      refine wp_perform ⟨fun _ => ?_, fun e he => (by cases he)⟩ fun hG e =>
        ⟨fun h => (by cases h), fun _ _ => .inr ⟨hG, .inr (hrec rfl)⟩⟩
      rw [hsaved, hrec rfl]
      rfl
    · rintro e d' ⟨-, herr⟩
      obtain ⟨rfl, hrec | hG⟩ := herr e rfl
      · refine herror e ?_
        rw [hsaved, hrec]
        rfl
      · exact hrefused hG e

theorem readStored_sees : Sees G (storedIn p name d) (readStored p name) d := by
  unfold storedIn
  refine (readLimitedFile_sees _ _).bind ?_ ?_
  · rintro (_ | data) hdata
    · rw [hdata]
      simp only
      refine wp_ite _ (fun hsame => wp_pure _ ⟨rfl, .inl (if_pos hsame).symm⟩) fun hother => ?_
      rw [if_neg hother]
      refine (readLimitedFile_sees _ _).bind ?_ ?_
      · rintro (_ | data) hlegacy
        · rw [hlegacy]
          exact wp_pure _ ⟨rfl, .inl rfl⟩
        · rw [hlegacy]
          exact wp_pure _ ⟨rfl, .inl rfl⟩
      · rintro e (he | hG)
        · rw [he]
          exact ⟨rfl, .inl rfl⟩
        · exact ⟨rfl, .inr ⟨hG, e, rfl⟩⟩
    · rw [hdata]
      exact wp_pure _ ⟨rfl, .inl rfl⟩
  · rintro e (he | hG)
    · rw [he]
      exact ⟨rfl, .inl rfl⟩
    · exact ⟨rfl, .inr ⟨hG, e, rfl⟩⟩

theorem migrateStored_spec (settings : RoutingSettings) (loadedLegacy : Bool) :
    wp G (migrateStored p env name settings loadedLegacy) (fun r d' => r = .ok () ∧
      (Refuses G ∨ d' = migrated p env name settings loadedLegacy d)) d := by
  refine (saveSettings_spec settings).attempt_bind ?_
  rintro (e | ⟨⟩) d' hend
  · refine wp_pure _ ⟨rfl, ?_⟩
    rcases hend.failed e rfl with ⟨hsaved, rfl⟩ | ⟨hG, -⟩
    · refine .inr ?_
      unfold migrated
      rw [hsaved]
    · exact .inl hG
  · have hmigrated : migrated p env name settings loadedLegacy d =
        if loadedLegacy then d'.erase p.toNaming (legacyFile name) else d' := by
      unfold migrated
      rw [hend.done rfl]
    refine wp_ite _ (fun hlegacy => ?_) fun hlegacy => wp_pure _ ⟨rfl, .inr ?_⟩
    · refine (wp_perform (R := fun r d'' => Refuses G ∨ r = .ok () ∧
        d'' = d'.erase p.toNaming (legacyFile name)) (.inr ⟨rfl, rfl⟩)
        fun hG _ => .inl hG).attempt_bind ?_
      rintro r d'' (hG | ⟨-, rfl⟩)
      · exact wp_pure _ ⟨rfl, .inl hG⟩
      · refine wp_pure _ ⟨rfl, .inr ?_⟩
        rw [hmigrated, if_pos hlegacy]
    · rw [hmigrated, if_neg hlegacy]

theorem loadSettings_spec :
    wp G (loadSettings p env name) (fun r d' =>
      Refuses G ∨ r = loadedFrom p env name d ∧ d' = afterLoad p env name d) d := by
  unfold loadedFrom afterLoad
  refine readStored_sees.bind ?_ ?_
  · rintro (_ | ⟨data, loadedLegacy⟩) hstored
    · rw [hstored]
      exact wp_pure _ (.inr ⟨rfl, rfl⟩)
    · rw [hstored]
      simp only
      cases parseSettingsPayload env p.decode data with
      | error e => exact wp_fail _ (.inr ⟨rfl, rfl⟩)
      | ok settings =>
        simp only
        refine wp_ite _ (fun hold => ?_) fun hnew => wp_pure _ (.inr ⟨rfl, (if_neg hnew).symm⟩)
        rw [if_pos hold]
        refine (migrateStored_spec settings loadedLegacy).bind ?_ ?_
        · rintro ⟨⟩ d' ⟨-, hG | rfl⟩
          · exact wp_pure _ (.inl hG)
          · exact wp_pure _ (.inr ⟨rfl, rfl⟩)
        · rintro e d' ⟨he, -⟩
          cases he
  · rintro e (he | hG)
    · rw [he]
      exact .inr ⟨rfl, rfl⟩
    · exact .inl hG

end specs

section frame
variable {p : StoreEnv} {env : Env} {name k : Str} {d : Disk}

theorem Disk.put_other {file text : Str} (h : k ≠ p.key file) : d.put p.toNaming file text k = d k :=
  Function.update_of_ne h _ _

theorem Disk.erase_other {file : Str} (h : k ≠ p.key file) : d.erase p.toNaming file k = d k :=
  Function.update_of_ne h _ _

theorem recorded_other {d' : Disk} (h : recorded p env name d = .ok d')
    (hhistory : k ≠ p.key (p.historyFile name)) : d' k = d k := by
  unfold recorded at h
  split at h
  · cases h
  · cases h
    rfl
  · split at h
    · cases h
    · cases hpast : pastOf p name d with
      | error e =>
        rw [hpast] at h
        cases h
      | ok history =>
        rw [hpast] at h
        cases h
        exact Disk.put_other hhistory

theorem saved_other {d' : Disk} {settings : RoutingSettings} (h : saved p env name settings d = .ok d')
    (hsettings : k ≠ p.key (p.settingsFile name)) (hhistory : k ≠ p.key (p.historyFile name)) :
    d' k = d k := by
  unfold saved at h
  split at h
  · cases h
  split at h
  · cases h
  cases hrec : recorded p env name d with
  | error e =>
    rw [hrec] at h
    cases h
  | ok d₁ =>
    rw [hrec] at h
    cases h
    exact (Disk.put_other hsettings).trans (recorded_other hrec hhistory)

theorem afterSave_other (settings : RoutingSettings) (hsettings : k ≠ p.key (p.settingsFile name))
    (hhistory : k ≠ p.key (p.historyFile name)) : afterSave p env name settings d k = d k := by
  cases hsaved : saved p env name settings d with
  | error e => rw [afterSave, hsaved]
  | ok d' =>
    rw [afterSave, hsaved]
    exact saved_other hsaved hsettings hhistory

theorem migrated_other (settings : RoutingSettings) (loadedLegacy : Bool)
    (hsettings : k ≠ p.key (p.settingsFile name)) (hhistory : k ≠ p.key (p.historyFile name))
    (hlegacy : k ≠ p.key (legacyFile name)) : migrated p env name settings loadedLegacy d k = d k := by
  cases hsaved : saved p env name settings d with
  | error e => rw [migrated, hsaved]
  | ok d' =>
    have hsame := saved_other hsaved hsettings hhistory
    rw [migrated, hsaved]
    cases loadedLegacy with
    | false => exact hsame
    | true => exact (Disk.erase_other hlegacy).trans hsame

theorem afterLoad_cases : afterLoad p env name d = d ∨ ∃ settings loadedLegacy,
    afterLoad p env name d = migrated p env name settings loadedLegacy d := by
  unfold afterLoad
  split
  · exact .inl rfl
  · exact .inl rfl
  split
  · exact .inl rfl
  split
  · exact .inr ⟨_, _, rfl⟩
  · exact .inl rfl

theorem afterLoad_other (hsettings : k ≠ p.key (p.settingsFile name))
    (hhistory : k ≠ p.key (p.historyFile name)) (hlegacy : k ≠ p.key (legacyFile name)) :
    afterLoad p env name d k = d k := by
  rcases afterLoad_cases with h | ⟨settings, loadedLegacy, h⟩
  · rw [h]
  · rw [h]
    exact migrated_other settings loadedLegacy hsettings hhistory hlegacy

/-- The settings of a profile are those in its file, or else in its legacy file. -/
theorem loadedFrom_congr {d' : Disk} (hsettings : d (p.key (p.settingsFile name)) =
    d' (p.key (p.settingsFile name))) (hlegacy : d (p.key (legacyFile name)) = d' (p.key (legacyFile name))) :
    loadedFrom p env name d = loadedFrom p env name d' := by
  unfold loadedFrom storedIn Disk.content
  rw [hsettings, hlegacy]

end frame

section granted
variable {p : StoreEnv} {env : Env} {name : Str}

/-- No file operation fails. -/
def granted : Feed FileStep (Option SmartErr) := fun _ _ => none

theorem grants_granted : Grants (fun _ a => a = none) granted := fun _ _ => rfl

theorem not_refuses : ¬Refuses fun _ a => a = none := by
  rintro ⟨q, e, h⟩
  cases h

theorem run_granted {α : Type} {m : Store α} {d d' : Disk} {x : Except SmartErr α}
    (h : wp (fun _ a => a = none) m (fun r d'' => r = x ∧ d'' = d') d) :
    m d granted = ⟨x, d', granted⟩ := by
  obtain ⟨⟨hvalue, hstate⟩, hrest⟩ := h granted grants_granted
  have hgranted : (m d granted).rest = granted := funext fun k => funext fun q => hrest k q
  calc m d granted = ⟨(m d granted).value, (m d granted).state, (m d granted).rest⟩ := rfl
    _ = ⟨x, d', granted⟩ := by rw [hvalue, hstate, hgranted]

theorem loadSettingsHistory_granted (d : Disk) :
    loadSettingsHistory p name d granted = ⟨pastOf p name d, d, granted⟩ := by
  refine run_granted (loadSettingsHistory_sees.mono ?_)
  rintro r d' ⟨rfl, hr | ⟨hG, -⟩⟩
  · exact ⟨hr, rfl⟩
  · exact absurd hG not_refuses

theorem saveSettings_granted (settings : RoutingSettings) (d : Disk) :
    saveSettings p env name settings d granted =
      ⟨(saved p env name settings d).map fun _ => (), afterSave p env name settings d, granted⟩ := by
  refine run_granted ((saveSettings_spec settings).mono ?_)
  intro r d' hend
  unfold afterSave
  cases r with
  | ok u =>
    rw [hend.done rfl]
    exact ⟨rfl, rfl⟩
  | error e =>
    rcases hend.failed e rfl with ⟨hsaved, hstate⟩ | ⟨hG, -⟩
    · rw [hsaved]
      exact ⟨rfl, hstate⟩
    · exact absurd hG not_refuses

theorem loadSettings_granted (d : Disk) : loadSettings p env name d granted =
    ⟨loadedFrom p env name d, afterLoad p env name d, granted⟩ :=
  run_granted (loadSettings_spec.mono fun _ _ h => h.resolve_left not_refuses)

/-- The settings that `SaveMode` saves. -/
def withMode (p : StoreEnv) (env : Env) (name mode : Str) (d : Disk) : RoutingSettings :=
  let settings := match loadedFrom p env name d with
    | .ok settings => settings
    | .error _ => defaultSettings env
  { settings with mode := (normalizeMode mode).text }

theorem saveMode_granted (mode : Str) (d : Disk) : saveMode p env name mode d granted =
    ⟨(saved p env name (withMode p env name mode d) (afterLoad p env name d)).map fun _ => (),
      afterSave p env name (withMode p env name mode d) (afterLoad p env name d), granted⟩ := by
  rw [← saveSettings_granted]
  simp only [saveMode, Bind.bind, attempt, loadSettings_granted]
  rfl

/-- A revision that is not there is an error, and any other is saved. -/
theorem restoreSettingsRevision_granted (index : Int) (d : Disk) :
    (∃ e, restoreSettingsRevision p env name index d granted = ⟨.error e, d, granted⟩) ∨
      ∃ settings, restoreSettingsRevision p env name index d granted =
        saveSettings p env name settings d granted := by
  simp only [restoreSettingsRevision, Bind.bind, loadSettingsHistory_granted]
  cases pastOf p name d with
  | error e => exact .inl ⟨e, rfl⟩
  | ok history =>
    simp only
    generalize (if index < 0 then none else history[index.toNat]?) = found
    cases found with
    | none => exact .inl ⟨_, rfl⟩
    | some revision => exact .inr ⟨revision.settings, rfl⟩

theorem deleteSettings_granted (d : Disk) :
    (deleteSettings p name d granted).state =
      (d.erase p.toNaming (p.settingsFile name)).erase p.toNaming (legacyFile name) := by
  unfold deleteSettings
  by_cases hsame : p.settingsFile name = legacyFile name
  · rw [hsame, List.dedup_cons_of_mem (by simp), List.dedup_cons_of_notMem (by simp), List.dedup_nil,
      Disk.erase, Disk.erase, Function.update_idem]
    rfl
  · rw [List.dedup_cons_of_notMem (by simpa using hsame), List.dedup_cons_of_notMem (by simp),
      List.dedup_nil]
    rfl

end granted

section samples

/-- Settings that choose a mode and nothing else. -/
def modeOnly (mode : Mode) : RoutingSettings := { plainSettings with mode := mode.text }

def modeOf (s : RoutingSettings) : Mode := if s.mode = Mode.selected.text then .selected else .all

/-- The file of such settings, without its last newline. -/
def settingsText (mode : Mode) : Str :=
  ascii "\x7b\n  \"version\": 5,\n  \"mode\": \"" ++ mode.text ++ ascii "\",\n  \"selected_apps\": []\n\x7d"

/-- A revision with such settings, in the first second of 1970. -/
def revisionText (mode : Mode) : Str :=
  ascii "\x7b\"At\":\"1970-01-01T00:00:00Z\",\"Reason\":\"" ++ changeReason ++
    ascii "\",\"Settings\":\x7b\"version\":5,\"mode\":\"" ++ mode.text ++ ascii "\",\"selected_apps\":[]\x7d\x7d"

/-- An array of revisions, behind its bracket. -/
def revisionsText : List Mode → Str
  | [] => [0x5D]
  | [mode] => revisionText mode ++ [0x5D]
  | mode :: rest => revisionText mode ++ 0x2C :: revisionsText rest

/-- The revisions that begin somewhere in a text. -/
def revisionsIn : Nat → Str → List Mode
  | 0, _ => []
  | _, [] => []
  | fuel + 1, b :: rest =>
    match [Mode.all, .selected].find? fun mode => (revisionText mode).isPrefixOf (b :: rest) with
    | none => revisionsIn fuel rest
    | some mode => mode :: revisionsIn fuel ((b :: rest).drop (revisionText mode).length)

/-- The JSON of settings that choose a mode and nothing else, in a file system that ignores case. -/
def sampleStore : StoreEnv where
  sha256 := fun s => (s ++ List.replicate 32 0).take 32
  key := List.map lowerByte
  decode := fun raw =>
    match [Mode.all, .selected].find? fun mode => raw = settingsText mode with
    | none => .error (.text "unexpected end of JSON input")
    | some mode => .ok (modeOnly mode)
  storedVersion := fun raw =>
    if [Mode.all, .selected].any fun mode => raw = settingsText mode ++ [0x0A] then settingsVersion else 0
  encode := fun s => settingsText (modeOf s)
  decodeHistory := fun raw =>
    match raw with
    | 0x5B :: rest => .ok ((revisionsIn rest.length rest).map fun mode => ⟨0, changeReason, modeOnly mode⟩)
    | _ => .error (.text "invalid character")
  encodeHistory := fun history => 0x5B :: revisionsText (history.map fun r => modeOf r.settings)

theorem sampleStore_naming : sampleStore.toNaming.Lawful where
  folds := fun _ _ _ _ h => h
  digest := fun x => by simp [sampleStore]

theorem modeOf_modeOnly (mode : Mode) : modeOf (modeOnly mode) = mode := by
  cases mode <;> rfl

theorem revisionText_cons (mode : Mode) : ∃ rest, revisionText mode = 0x7B :: rest := ⟨_, rfl⟩

theorem revisionsIn_text (fuel : Nat) (mode : Mode) (rest : Str) :
    revisionsIn (fuel + 1) (revisionText mode ++ rest) = mode :: revisionsIn fuel rest := by
  have hself : (revisionText mode).isPrefixOf (revisionText mode ++ rest) = true :=
    List.isPrefixOf_iff_prefix.mpr ( List.prefix_append _ _)
  have hfind : ([Mode.all, .selected].find? fun m => (revisionText m).isPrefixOf (revisionText mode ++ rest)) =
      some mode := by
    cases mode with
    | all => rw [List.find?_cons, hself]
    | selected =>
      have hother : (revisionText .all).isPrefixOf (revisionText .selected ++ rest) = false := by
        rw [Bool.eq_false_iff, ne_eq, List.isPrefixOf_iff_prefix]
        intro h
        have hshort := List.prefix_of_prefix_length_le h ( List.prefix_append _ _) (by decide +kernel)
        exact absurd hshort (by decide +kernel)
      rw [List.find?_cons, hother, List.find?_cons, hself]
  obtain ⟨tail, htail⟩ := revisionText_cons mode
  have hcons : revisionText mode ++ rest = 0x7B :: (tail ++ rest) := by rw [htail, List.cons_append]
  rw [hcons] at hfind ⊢
  rw [revisionsIn, hfind]
  simp only
  rw [← hcons, List.drop_left]

/-- Between revisions there is nothing to find. -/
theorem revisionsIn_skip (fuel : Nat) (b : UInt8) (rest : Str) (h : b ≠ 0x7B) :
    revisionsIn (fuel + 1) (b :: rest) = revisionsIn fuel rest := by
  have hnone : ([Mode.all, .selected].find? fun m => (revisionText m).isPrefixOf (b :: rest)) = none := by
    rw [List.find?_eq_none]
    intro mode _ hprefix
    obtain ⟨tail, htail⟩ := revisionText_cons mode
    rw [htail, List.isPrefixOf_iff_prefix, List.cons_prefix_cons] at hprefix
    exact h hprefix.1.symm
  rw [revisionsIn, hnone]

theorem revisionsIn_revisionsText (modes : List Mode) (fuel : Nat) (h : 2 * modes.length < fuel) :
    revisionsIn fuel (revisionsText modes) = modes := by
  induction modes generalizing fuel with
  | nil =>
    obtain ⟨fuel, rfl⟩ : ∃ k, fuel = k + 1 := ⟨fuel - 1, by omega⟩
    rw [revisionsText, revisionsIn_skip fuel 0x5D [] (by decide)]
    cases fuel <;> rfl
  | cons mode rest ih =>
    obtain ⟨fuel, rfl⟩ : ∃ k, fuel = k + 2 := ⟨fuel - 2, by rw [List.length_cons] at h; omega⟩
    cases rest with
    | nil =>
      rw [revisionsText, revisionsIn_text, revisionsIn_skip fuel 0x5D [] (by decide)]
      cases fuel <;> rfl
    | cons next rest =>
      rw [revisionsText, revisionsIn_text, revisionsIn_skip fuel 0x2C _ (by decide), ih fuel]
      · simp only [List.length_cons] at h ⊢
        omega
      · simp

theorem revisionsText_length (modes : List Mode) :
    2 * modes.length < (revisionsText modes).length ∧ (revisionsText modes).length ≤ 200 * modes.length + 1 := by
  have htext : ∀ mode, 2 ≤ (revisionText mode).length ∧ (revisionText mode).length < 200 := by
    intro mode
    cases mode <;> decide +kernel
  induction modes with
  | nil => decide
  | cons mode rest ih =>
    have hmode := htext mode
    cases rest with
    | nil =>
      simp only [revisionsText, List.length_append, List.length_cons, List.length_nil]
      omega
    | cons next rest =>
      simp only [revisionsText, List.length_append, List.length_cons] at ih ⊢
      omega

/-- A history is read as it was written, but for what is not the mode. -/
theorem sampleStore_history (h : List SettingsRevision) :
    (sampleStore.encodeHistory h).length ≤ 200 * h.length + 2 ∧
      sampleStore.decodeHistory (sampleStore.encodeHistory h) =
        .ok (h.map fun r => ⟨0, changeReason, modeOnly (modeOf r.settings)⟩) := by
  obtain ⟨hlong, hshort⟩ := revisionsText_length (h.map fun r => modeOf r.settings)
  constructor
  · rw [List.length_map] at hshort
    exact Nat.succ_le_succ hshort
  · change Except.ok ((revisionsIn _ (revisionsText _)).map _) = _
    rw [revisionsIn_revisionsText _ _ hlong, List.map_map]
    rfl

end samples

end SmartAwg.Smart
