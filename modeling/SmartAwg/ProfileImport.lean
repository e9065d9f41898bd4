import SmartAwg.ConfStore
import SmartAwg.ConfAccepted
import SmartAwg.GoFilepath

/-!
Importing profile files. The client reads `.conf` files and the `.conf` files in `.zip` archives, and
has the manager create a profile for each text that it can parse. The name of a profile is the base
name of its file; nobody asks whether it is taken.
-/

namespace SmartAwg.Conf

open Go

section reading

/-- A file in an archive. Reading it can fail when it is opened and later. -/
structure ZipFile where
  name : Str
  uncompressedSize : Nat
  opens : Bool
  data : Option Str
  deriving DecidableEq

/-- The files that the client sees; `none` is an error of the operating system. -/
structure FileEnv where
  stat : Str → Option Nat
  readFile : Str → Option Str
  openZip : Str → Option (List ZipFile)

structure UnparsedProfile where
  name : Str
  config : Str
  deriving DecidableEq

inductive ImportErr where
  | text (msg : String)
  | tooLarge (name : Str)
  | system
  | parse (name : Str) (e : Err)
  | create (name : Str) (e : StoreErr)
  deriving DecidableEq

def maxImportedProfileSize : Nat := 1024 * 1024

def maxImportedProfileCount : Nat := 100

def countErr : ImportErr := .text "достигнут лимит 100 профилей; остальные файлы пропущены"

/-- The profiles read so far and the errors joined so far. -/
structure Reading where
  profiles : List UnparsedProfile
  errors : List ImportErr
  deriving DecidableEq

def Reading.failed (r : Reading) (e : ImportErr) : Reading := { r with errors := r.errors ++ [e] }

/-- The name without the directory and without the ending of the file. -/
def profileName (path : Str) : Str :=
  let name := base path
  if (ext path).isSuffixOf name then name.take (name.length - (ext path).length) else name

def Reading.found (r : Reading) (path data : Str) : Reading :=
  { r with profiles := r.profiles ++ [⟨profileName path, data⟩] }

def readConf (env : FileEnv) (r : Reading) (path : Str) : Reading :=
  match env.stat path with
  | none => r.failed .system
  | some size =>
    if size > maxImportedProfileSize then r.failed (.tooLarge (base path))
    else
      match env.readFile path with
      | none => r.failed .system
      | some data => r.found path data

def readZipFile (r : Reading) (file : ZipFile) : Reading :=
  if toLower (ext file.name) ≠ ascii ".conf" then r
  else if file.uncompressedSize > maxImportedProfileSize then r.failed (.tooLarge (base file.name))
  else if !file.opens then r.failed .system
  else
    match file.data with
    | none => r.failed .system
    | some data =>
      let data := data.take (maxImportedProfileSize + 1)
      if data.length > maxImportedProfileSize then r.failed (.tooLarge (base file.name))
      else r.found file.name data

def readZip (r : Reading) : List ZipFile → Reading
  | [] => r
  | file :: rest =>
    if r.profiles.length ≥ maxImportedProfileCount then r.failed countErr
    else readZip (readZipFile r file) rest

def readPaths (env : FileEnv) (r : Reading) : List Str → Reading
  | [] => r
  | path :: rest =>
    if r.profiles.length ≥ maxImportedProfileCount then r.failed countErr
    else if toLower (ext path) = ascii ".conf" then readPaths env (readConf env r path) rest
    else if toLower (ext path) = ascii ".zip" then
      match env.openZip path with
      | none => readPaths env (r.failed .system) rest
      | some files => readPaths env (readZip r files) rest
    else readPaths env r rest

def readProfileFiles (env : FileEnv) (paths : List Str) : Reading :=
  let r := readPaths env ⟨[], []⟩ paths
  if r.profiles = [] ∧ r.errors = [] then
    r.failed (.text "в выбранных файлах нет профилей .conf")
  else r

end reading

section importing

/-- The state of the import: the store, the names of the profiles created, and the errors. -/
structure Importing where
  store : ProfileStore
  createdNames : List Str
  errors : List ImportErr

/-- The number that the client reports. -/
def Importing.created (s : Importing) : Nat := s.createdNames.length

/-- One item. `elevated` and `fails` are what the call of `Create` meets. -/
def importItem (decoders : List Decoder) (elevated fails : Bool) (s : Importing) (item : UnparsedProfile) :
    Outcome Err Importing :=
  match fromWgQuickWithUnknownEncoding decoders item.config item.name with
  | .panic => .panic
  | .err e => .ok { s with errors := s.errors ++ [.parse item.name e] }
  | .ok c =>
    match create elevated fails s.store c with
    | .error e => .ok { s with errors := s.errors ++ [.create item.name e] }
    | .ok store => .ok { s with store := store, createdNames := s.createdNames ++ [c.name] }

/-- The loop over the items; `fails n` is about the item with the number `n`. -/
def importItems (decoders : List Decoder) (elevated : Bool) (fails : Nat → Bool) :
    Nat → Importing → List UnparsedProfile → Outcome Err Importing
  | _, s, [] => .ok s
  | n, s, item :: rest => do
    let s ← importItem decoders elevated (fails n) s item
    importItems decoders elevated fails (n + 1) s rest

/-- `ImportProfiles` once files are selected. When no profile could be read it only shows the errors. -/
def importProfiles (env : FileEnv) (decoders : List Decoder) (elevated : Bool) (fails : Nat → Bool)
    (store : ProfileStore) (paths : List Str) : Outcome Err Importing :=
  let r := readProfileFiles env paths
  if r.profiles = [] then .ok ⟨store, [], r.errors⟩
  else importItems decoders elevated fails 0 ⟨store, [], r.errors⟩ r.profiles

/-- The file that an item becomes, if its text can be parsed and `Create` does not fail. -/
def importedFile (decoders : List Decoder) (elevated fails : Bool) (item : UnparsedProfile) :
    Option StoredProfile :=
  match fromWgQuickWithUnknownEncoding decoders item.config item.name with
  | .ok c =>
    if h : tunnelNameIsValid c.name = true then
      if elevated && !fails then some ⟨c.name, toWgQuick c, h⟩ else none
    else none
  | _ => none

def importedFiles (decoders : List Decoder) (elevated : Bool) (fails : Nat → Bool) (n : Nat)
    (items : List UnparsedProfile) : List StoredProfile :=
  (items.zipIdx n).filterMap fun (item, k) => importedFile decoders elevated (fails k) item

variable {decoders : List Decoder} {elevated : Bool} {fails : Nat → Bool}

/-- An item leaves the store as it is, or its file is put into the store and counted. -/
theorem importItem_spec {b : Bool} {s s' : Importing} {item : UnparsedProfile}
    (h : importItem decoders elevated b s item = .ok s') :
    s'.store = s.store.putAll (importedFile decoders elevated b item).toList ∧
      s'.created = s.created + (importedFile decoders elevated b item).toList.length := by
  unfold importItem at h
  unfold importedFile
  cases hparse : fromWgQuickWithUnknownEncoding decoders item.config item.name with
  | panic =>
    rw [hparse] at h
    cases h
  | err e =>
    rw [hparse] at h
    cases h
    exact ⟨rfl, rfl⟩
  | ok c =>
    obtain ⟨t, ht⟩ := fromWgQuickWithUnknownEncoding_ok hparse
    have hvalid : tunnelNameIsValid c.name = true := by
      rw [(fromWgQuick_name ht).1]
      exact (fromWgQuick_name ht).2
    rw [hparse] at h
    simp only [dif_pos hvalid] at h ⊢
    cases elevated with
    | false =>
      cases h
      exact ⟨rfl, rfl⟩
    | true =>
      rw [create_ok hvalid] at h
      cases b with
      | true =>
        cases h
        exact ⟨rfl, rfl⟩
      | false =>
        cases h
        exact ⟨rfl, List.length_append⟩

theorem importItems_spec {n : Nat} {s s' : Importing} {items : List UnparsedProfile}
    (h : importItems decoders elevated fails n s items = .ok s') :
    s'.store = s.store.putAll (importedFiles decoders elevated fails n items) ∧
      s'.created = s.created + (importedFiles decoders elevated fails n items).length := by
  induction items generalizing n s with
  | nil =>
    cases h
    exact ⟨rfl, rfl⟩
  | cons item rest ih =>
    obtain ⟨mid, hitem, hrest⟩ := (Outcome.bind_eq_ok _ _ _).mp h
    obtain ⟨hstore, hcreated⟩ := importItem_spec hitem
    obtain ⟨hstore', hcreated'⟩ := ih hrest
    have hfiles : importedFiles decoders elevated fails n (item :: rest) =
        (importedFile decoders elevated (fails n) item).toList ++
          importedFiles decoders elevated fails (n + 1) rest := by
      simp only [importedFiles, List.zipIdx_cons, List.filterMap_cons]
      cases importedFile decoders elevated (fails n) item <;> rfl
    rw [hfiles, hstore', hstore, hcreated', hcreated, List.length_append, Nat.add_assoc]
    exact ⟨(List.foldl_append ..).symm, rfl⟩

/-- The store after an import, whatever was read. -/
theorem importProfiles_spec {env : FileEnv} {store : ProfileStore} {paths : List Str} {s : Importing}
    (h : importProfiles env decoders elevated fails store paths = .ok s) :
    s.store = store.putAll (importedFiles decoders elevated fails 0 (readProfileFiles env paths).profiles) ∧
      s.created = (importedFiles decoders elevated fails 0 (readProfileFiles env paths).profiles).length := by
  unfold importProfiles at h
  simp only at h
  split at h
  · rename_i hnone
    cases h
    rw [hnone]
    exact ⟨rfl, rfl⟩
  · obtain ⟨hstore, hcreated⟩ := importItems_spec h
    exact ⟨hstore, hcreated.trans (Nat.zero_add _)⟩

/-- An import that finishes keeps every profile and adds as many as it reports exactly when the names
of the profiles it creates differ, whatever the case, from each other and from those stored. -/
theorem import_keeps_profiles_iff (env : FileEnv) (decoders : List Decoder) (elevated : Bool)
    (fails : Nat → Bool) (store : ProfileStore) (paths : List Str) (s : Importing)
    (h : importProfiles env decoders elevated fails store paths = .ok s) :
    ((∀ f ∈ store.entries, f ∈ s.store.entries) ∧ s.store.size = store.size + s.created) ↔
      (store.keys ++ (importedFiles decoders elevated fails 0
        (readProfileFiles env paths).profiles).map StoredProfile.key).Nodup := by
  obtain ⟨hstore, hcreated⟩ := importProfiles_spec h
  rw [hstore, hcreated]
  constructor
  · rintro ⟨-, hsize⟩
    exact (KeyedList.putAll_size_iff _ _).mp hsize
  · intro hnodup
    refine ⟨fun f hf => ?_, (KeyedList.putAll_size_iff _ _).mpr hnodup⟩
    rw [KeyedList.putAll_entries hnodup]
    exact List.mem_append_left _ hf

/-- A store with the one profile `home`. -/
def homeStore : ProfileStore := ⟨[⟨ascii "home", ascii "old", by decide +kernel⟩], by simp⟩

/-- Every file can be read and holds the same text. -/
def oneTextEnv : FileEnv where
  stat := fun _ => some keyOnlyText.length
  readFile := fun _ => some keyOnlyText
  openZip := fun _ => none

theorem import_keeps_profiles_work :
    ∃ s, importProfiles oneTextEnv unicodeAll true (fun _ => false) homeStore [ascii "C:\\in\\work.conf"] =
        .ok s ∧ (∀ f ∈ homeStore.entries, f ∈ s.store.entries) ∧
      s.store.size = homeStore.size + s.created := by
  obtain ⟨s, hs⟩ := Outcome.exists_of_isSome
    (importProfiles oneTextEnv unicodeAll true (fun _ => false) homeStore [ascii "C:\\in\\work.conf"])
    (by decide +kernel)
  exact ⟨s, hs, (import_keeps_profiles_iff _ _ _ _ _ _ s hs).mpr (by decide +kernel)⟩

/-- A file `HOME.conf` takes the place of the profile `home`; the client reports one profile more. -/
theorem import_replaces_profile :
    ∃ s, importProfiles oneTextEnv unicodeAll true (fun _ => false) homeStore [ascii "C:\\in\\HOME.conf"] =
        .ok s ∧ s.created = 1 ∧ s.errors = [] ∧ s.store.size = homeStore.size ∧
      ¬∀ f ∈ homeStore.entries, f ∈ s.store.entries := by
  obtain ⟨s, hs⟩ := Outcome.exists_of_isSome
    (importProfiles oneTextEnv unicodeAll true (fun _ => false) homeStore [ascii "C:\\in\\HOME.conf"])
    (by decide +kernel)
  have hfacts : (importProfiles oneTextEnv unicodeAll true (fun _ => false) homeStore
      [ascii "C:\\in\\HOME.conf"]).toOption.any (fun s => s.created = 1 ∧ s.errors = [] ∧
        s.store.size = homeStore.size ∧ ¬∀ f ∈ homeStore.entries, f ∈ s.store.entries) = true := by
    decide +kernel
  rw [hs] at hfacts
  exact ⟨s, hs, by simpa [Outcome.toOption] using hfacts⟩

end importing

end SmartAwg.Conf
