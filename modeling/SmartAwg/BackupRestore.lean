import SmartAwg.ConfStore
import SmartAwg.ConfAccepted
import SmartAwg.SmartSettings

/-!
Encrypted backups. A backup is validated when it is decrypted, and then restored into the store under
names that are not taken. The two steps parse the profiles with different parsers.
-/

namespace SmartAwg.Smart

open Go Conf

section archive

structure BackupProfile where
  name : Str
  config : Str
  settings : RoutingSettings
  deriving DecidableEq

/-- Times are in nanoseconds. -/
structure Backup where
  version : Int
  createdAt : Int
  profiles : List BackupProfile
  deriving DecidableEq

inductive BackupErr where
  | text (msg : String)
  | config (name : Str) (e : Err)
  | settings (name : Str) (e : SmartErr)
  | parse (e : Err)
  | create (e : StoreErr)
  | system
  deriving DecidableEq

/-- The loop of `validateBackup`; `seen` are the names before. -/
def validateProfiles (decoders : List Decoder) (env : Env) (seen : List Str) :
    List BackupProfile → Outcome BackupErr Unit
  | [] => .ok ()
  | profile :: rest =>
    if !tunnelNameIsValid profile.name ∨ profile.name ∈ seen then
      .err (.text "некорректное или повторяющееся имя профиля")
    else if profile.config.length > 1024 * 1024 then .err (.text "профиль превышает 1 МБ")
    else
      match fromWgQuickWithUnknownEncoding decoders profile.config profile.name with
      | .panic => .panic
      | .err e => .err (.config profile.name e)
      | .ok _ =>
        match profile.settings.normalized env with
        | .error e => .err (.settings profile.name e)
        | .ok _ => validateProfiles decoders env (profile.name :: seen) rest

def validateBackup (decoders : List Decoder) (env : Env) (backup : Backup) : Outcome BackupErr Unit :=
  if backup.version ≠ 1 ∨ backup.profiles = [] ∨ backup.profiles.length > 100 then
    .err (.text "некорректная версия или количество профилей")
  else validateProfiles decoders env [] backup.profiles

/-- The key derivation, the cipher and the strict JSON decoder; `none` is an error. -/
structure BackupEnv where
  scryptKey : Str → Str → Option Str
  gcmOpen : Str → Str → Str → Str → Option Str
  decodeStrictJSON : Str → Option Backup

def backupLimit : Nat := 16 * 1024 * 1024

def backupMagic : Str := ascii "PINUS-BACKUP\x01"

def decryptBackup (decoders : List Decoder) (env : Env) (crypt : BackupEnv) (data password : Str) :
    Outcome BackupErr Backup :=
  let headerLen := backupMagic.length + 16 + 12
  if data.length < headerLen + 16 ∨ data.length > backupLimit + headerLen + 16 ∨
      !backupMagic.isPrefixOf data then
    .err (.text "неподдерживаемый или повреждённый архив Pinus")
  else
    let salt := (data.drop backupMagic.length).take 16
    let nonce := (data.drop (backupMagic.length + 16)).take 12
    match crypt.scryptKey password salt with
    | none => .err .system
    | some key =>
      match crypt.gcmOpen key nonce (data.drop headerLen) (data.take headerLen) with
      | none => .err (.text "неверный пароль или повреждённый архив")
      | some plain =>
        match crypt.decodeStrictJSON plain with
        | none => .err (.text "некорректное содержимое резервной копии")
        | some backup => do
          validateBackup decoders env backup
          return backup

end archive

section names

def copyName (base : Str) (n : Nat) : Str := base ++ ascii "-copy" ++ itoa n

/-- The first twenty characters of a name. -/
def shorten (base : Str) : Str :=
  if (runes base).length > 20 then ((runes base).take 20).flatMap encodeRune else base

/-- The name and the set of names used after it. The loop ends, since it tries more names than are
used. -/
def uniqueRestoredName (base : Str) (used : List Str) : Str × List Str :=
  if toLower base ∉ used then (base, toLower base :: used)
  else
    let short := shorten base
    let n := firstUnused (fun n => toLower (copyName short n)) used used.length 2
    (copyName short n, toLower (copyName short n) :: used)

/-- The names of the restored profiles, chosen one after another. -/
def restoredNames (used : List Str) : List Str → List Str
  | [] => []
  | name :: rest => (uniqueRestoredName name used).1 :: restoredNames (uniqueRestoredName name used).2 rest

/-- The map `rename`. -/
def renameMap (used names : List Str) : List (Str × Str) := names.zip (restoredNames used names)

end names

section restore

structure Restoring where
  store : ProfileStore
  saved : List (Str × RoutingSettings)
  restored : Nat
  err : Option BackupErr

/-- What the operations of one profile meet: whether `Create` fails, and whether `SaveSettings` does. -/
structure Faults where
  create : Bool
  save : Bool

def renameFallbacks (rename : List (Str × Str)) (settings : RoutingSettings) : RoutingSettings :=
  { settings with
    fallbackProfiles := settings.fallbackProfiles.map fun name => (rename.lookup name).getD name }

/-- The loop over the profiles, which ends at the first error. -/
def restoreLoop (rename : List (Str × Str)) (elevated : Bool) (faults : Nat → Faults) :
    Nat → Restoring → List BackupProfile → Outcome BackupErr Restoring
  | _, s, [] => .ok s
  | n, s, p :: rest =>
    if s.err.isSome then .ok s
    else
      match fromWgQuick p.config ((rename.lookup p.name).getD []) with
      | .panic => .panic
      | .err e => .ok { s with err := some (.parse e) }
      | .ok config =>
        match create elevated (faults n).create s.store config with
        | .error e => .ok { s with err := some (.create e) }
        | .ok store =>
          if (faults n).save then
            restoreLoop rename elevated faults (n + 1)
              { s with store := store, restored := s.restored + 1, err := some .system } rest
          else
            restoreLoop rename elevated faults (n + 1)
              ⟨store, s.saved ++ [(config.name, renameFallbacks rename p.settings)], s.restored + 1, none⟩ rest

/-- `restoreBackupProfiles`; `listFails` is about the list of tunnels, which are the stored profiles. -/
def restoreBackupProfiles (listFails elevated : Bool) (faults : Nat → Faults) (store : ProfileStore)
    (profiles : List BackupProfile) : Outcome BackupErr Restoring :=
  let tunnels := if listFails then [] else store.entries.map StoredProfile.name
  let rename := renameMap (tunnels.map toLower) (profiles.map BackupProfile.name)
  restoreLoop rename elevated faults 0 ⟨store, [], 0, if listFails then some .system else none⟩ profiles

end restore

section room
variable {base name : Str} {used : List Str}

/-- A name that is not used, or a copy of it that is not used and not too long. -/
def RoomFor (used : List Str) (name : Str) : Prop :=
  toLower name ∉ used ∨ ∃ n ≥ 2, (copyName (shorten name) n).length ≤ 32 ∧
    toLower (copyName (shorten name) n) ∉ used

/-- There is room for each name with the names used when its turn comes. -/
def RoomForAll (used : List Str) : List Str → Prop
  | [] => True
  | name :: rest => RoomFor used name ∧ RoomForAll (uniqueRestoredName name used).2 rest

/-- No long name is reserved. -/
theorem tunnelNameIsValid_of_long (hbytes : ∀ b ∈ name, allowedNameByte b = true)
    (hlong : 5 ≤ name.length) (hshort : name.length ≤ 32) : tunnelNameIsValid name = true := by
  have hspecial : hasSpecialChars name = false := by
    have hall : ∀ b : UInt8, allowedNameByte b = true → specialChars.elem b = false ∧
        netshellDllForbidden.elem b = false ∧ serviceNameForbidden.elem b = false :=
      byte_forall _ (by decide +kernel)
    simp only [hasSpecialChars, containsAny, Bool.or_eq_false_iff, List.any_eq_false, Bool.not_eq_true]
    exact ⟨⟨fun b hb => (hall b (hbytes b hb)).1, fun b hb => (hall b (hbytes b hb)).2.1⟩,
      fun b hb => (hall b (hbytes b hb)).2.2⟩
  have hreserved : isReserved name = false := by
    have hlengths : ∀ r ∈ reservedNames, (runes (ascii r)).length ≤ 4 := by decide +kernel
    have hrunes : (runes name).length = name.length := by
      rw [runes_ascii name fun b hb => allowedNameByte_ascii b (hbytes b hb), List.length_map]
    unfold isReserved
    simp only [Bool.and_eq_false_iff, List.any_eq_false, Bool.not_eq_true]
    refine Or.inr fun r hr => ?_
    rw [← Bool.not_eq_true]
    intro hfold
    have hsame := congrArg List.length ((equalFold_iff _ _).mp hfold)
    rw [List.length_map, List.length_map, hrunes] at hsame
    have := hlengths r hr
    omega
  unfold tunnelNameIsValid
  rw [hreserved, hspecial]
  simp only [Bool.or_self, Bool.false_eq_true, if_false, allowedNameFormat, Bool.and_eq_true,
    List.all_eq_true, decide_eq_true_eq]
  exact ⟨⟨hbytes, by omega⟩, hshort⟩

theorem shorten_allowed (h : ∀ b ∈ base, allowedNameByte b = true) : shorten base = base.take 20 := by
  have hascii : IsAscii base := fun b hb => allowedNameByte_ascii b (h b hb)
  have hencode : ∀ b ∈ base.take 20, encodeRune b.toNat = [b] := by
    intro b hb
    have hall : ∀ b : UInt8, b < 0x80 → encodeRune b.toNat = [b] := byte_forall _ (by decide +kernel)
    exact hall b (hascii b (List.mem_of_mem_take hb))
  unfold shorten
  rw [runes_ascii base hascii, List.length_map]
  split
  · rw [← List.map_take, List.flatMap_map]
    calc
      (base.take 20).flatMap (fun b => encodeRune b.toNat) = (base.take 20).flatMap fun b => [b] :=
        List.flatMap_congr hencode
      _ = base.take 20 := by simp
  · exact (List.take_of_length_le (by omega)).symm

theorem copyName_allowed (h : ∀ b ∈ base, allowedNameByte b = true) (n : Nat) :
    ∀ b ∈ copyName base n, allowedNameByte b = true := by
  intro b hb
  have hdigit : ∀ b : UInt8, isDigit b = true → allowedNameByte b = true := byte_forall _ (by decide +kernel)
  have hcopy : ∀ b ∈ ascii "-copy", allowedNameByte b = true := by decide +kernel
  simp only [copyName, List.mem_append] at hb
  rcases hb with (hb | hb) | hb
  · exact h b hb
  · exact hcopy b hb
  · exact hdigit b (itoa_isDigit n b hb)

/-- Different numbers make different copies. -/
theorem copyName_injective (h : ∀ b ∈ base, allowedNameByte b = true) :
    Function.Injective fun n => toLower (copyName base n) := by
  have hdigit : ∀ b : UInt8, isDigit b = true → lowerByte b = b := byte_forall _ (by decide +kernel)
  have hitoa : ∀ n, (itoa n).map lowerByte = itoa n := by
    intro n
    calc
      (itoa n).map lowerByte = (itoa n).map id := List.map_congr_left fun b hb => hdigit b (itoa_isDigit n b hb)
      _ = itoa n := List.map_id _
  have hlower : ∀ n, toLower (copyName base n) = fileKey base ++ fileKey (ascii "-copy") ++ itoa n := by
    intro n
    rw [toLower_name (copyName_allowed h n)]
    simp only [fileKey, copyName, List.map_append, hitoa]
  intro n m hsame
  simp only [hlower] at hsame
  exact itoa_injective (List.append_cancel_left hsame)

theorem copyName_length_mono {m n : Nat} (h : m ≤ n) : (copyName base m).length ≤ (copyName base n).length := by
  have hpos : 0 < (itoa n).length := List.length_pos_of_ne_nil (itoa_ne_nil n)
  have hn : n < 10 ^ (itoa n).length := (digits_length_le 10 n _ (by decide) hpos).mp (Nat.le_refl _)
  have hm : (itoa m).length ≤ (itoa n).length :=
    (digits_length_le 10 m _ (by decide) hpos).mpr (Nat.lt_of_le_of_lt h hn)
  simp only [copyName, List.length_append]
  omega

theorem shorten_bytes (h : tunnelNameIsValid name = true) : ∀ b ∈ shorten name, allowedNameByte b = true := by
  intro b hb
  have hallowed := (tunnelNameIsValid_format h).1
  rw [shorten_allowed hallowed] at hb
  exact hallowed b (List.mem_of_mem_take hb)

theorem uniqueRestoredName_used (name : Str) (used : List Str) :
    (uniqueRestoredName name used).2 = toLower (uniqueRestoredName name used).1 :: used := by
  unfold uniqueRestoredName
  split <;> rfl

theorem uniqueRestoredName_fresh (used : List Str) (h : tunnelNameIsValid name = true) :
    toLower (uniqueRestoredName name used).1 ∉ used := by
  unfold uniqueRestoredName
  split
  · assumption
  · exact firstUnused_not_mem (copyName_injective (shorten_bytes h)) 2

/-- The name chosen for a profile is valid exactly when there is room for it. -/
theorem uniqueRestoredName_valid_iff (h : tunnelNameIsValid name = true) :
    tunnelNameIsValid (uniqueRestoredName name used).1 = true ↔ RoomFor used name := by
  have hshort := shorten_bytes h
  unfold uniqueRestoredName
  split
  · rename_i hfree
    exact iff_of_true h (Or.inl hfree)
  · rename_i htaken
    simp only
    obtain ⟨hfrom, hleast⟩ : 2 ≤ firstUnused (fun n => toLower (copyName (shorten name) n)) used
      used.length 2 ∧ _ := firstUnused_least _ 2
    have hfree : toLower (copyName (shorten name) (firstUnused
      (fun n => toLower (copyName (shorten name) n)) used used.length 2)) ∉ used :=
      firstUnused_not_mem (copyName_injective hshort) 2
    generalize firstUnused (fun n => toLower (copyName (shorten name) n)) used used.length 2 = k at *
    constructor
    · intro hvalid
      exact Or.inr ⟨k, hfrom, (tunnelNameIsValid_format hvalid).2.2, hfree⟩
    · rintro (hunused | ⟨n, hn, hlength, hunused⟩)
      · exact absurd hunused htaken
      · -- the loop stops at the first free number, and longer numbers make longer names
        have hkn : k ≤ n := Nat.le_of_not_lt fun hlt => hunused (hleast n hn hlt)
        have hcopy : 5 ≤ (copyName (shorten name) k).length := by
          simp only [copyName, List.length_append]
          have : (ascii "-copy").length = 5 := rfl
          omega
        exact tunnelNameIsValid_of_long (copyName_allowed hshort k) hcopy
          ((copyName_length_mono hkn).trans hlength)

/-- All names chosen are valid exactly when there is room for all. -/
theorem restoredNames_valid_iff (names : List Str) (h : ∀ name ∈ names, tunnelNameIsValid name = true) :
    (∀ name ∈ restoredNames used names, tunnelNameIsValid name = true) ↔ RoomForAll used names := by
  induction names generalizing used with
  | nil => exact iff_of_true (fun name hname => by cases hname) trivial
  | cons name rest ih =>
    simp only [restoredNames, List.forall_mem_cons, RoomForAll]
    exact and_congr (uniqueRestoredName_valid_iff (h name List.mem_cons_self))
      (ih fun name hname => h name (List.mem_cons_of_mem _ hname))

/-- The names chosen differ from each other and from those used. -/
theorem restoredNames_nodup (used names : List Str) (h : ∀ name ∈ names, tunnelNameIsValid name = true) :
    ((restoredNames used names).map toLower).Nodup ∧
      ∀ name ∈ restoredNames used names, toLower name ∉ used := by
  induction names generalizing used with
  | nil => exact ⟨List.nodup_nil, fun name hname => by cases hname⟩
  | cons name rest ih =>
    have hfresh := uniqueRestoredName_fresh used (h name List.mem_cons_self)
    have hused := uniqueRestoredName_used name used
    obtain ⟨hnodup, hrest⟩ := ih (uniqueRestoredName name used).2
      fun name hname => h name (List.mem_cons_of_mem _ hname)
    rw [hused] at hrest hnodup
    simp only [restoredNames, hused, List.map_cons, List.nodup_cons, List.forall_mem_cons]
    refine ⟨⟨fun hmem => ?_, hnodup⟩, hfresh, fun name hname hmem =>
      hrest name hname (List.mem_cons_of_mem _ hmem)⟩
    obtain ⟨other, hother, hsame⟩ := List.mem_map.mp hmem
    exact hrest other hother (hsame ▸ List.mem_cons_self)

theorem restoredNames_length (used names : List Str) : (restoredNames used names).length = names.length := by
  induction names generalizing used with
  | nil => rfl
  | cons name rest ih => exact congrArg Nat.succ (ih _)

/-- Every name is looked up as the one chosen for it. -/
theorem map_lookup_zip {names news : List Str} (h : names.Nodup) (hlength : names.length = news.length) :
    (names.map fun name => ((names.zip news).lookup name).getD []) = news := by
  induction names generalizing news with
  | nil => exact (List.length_eq_zero_iff.mp hlength.symm).symm
  | cons name rest ih =>
    cases news with
    | nil => cases hlength
    | cons new news =>
      obtain ⟨hnew, hrest⟩ := List.nodup_cons.mp h
      rw [List.map_cons, List.zip_cons_cons, List.lookup_cons_self]
      refine congrArg (new :: ·) ((List.map_congr_left fun other hother => ?_).trans
        (ih hrest (Nat.succ.inj hlength)))
      have hne : (other == name) = false := beq_false_of_ne fun heq => hnew (heq ▸ hother)
      rw [List.lookup_cons, hne]

end room

section validation
variable {decoders : List Decoder} {env : Env}

theorem validateProfiles_ok {seen : List Str} {profiles : List BackupProfile}
    (h : validateProfiles decoders env seen profiles = .ok ()) :
    (∀ p ∈ profiles, tunnelNameIsValid p.name = true ∧ p.name ∉ seen ∧
        ∃ c, fromWgQuickWithUnknownEncoding decoders p.config p.name = .ok c) ∧
      (profiles.map BackupProfile.name).Nodup := by
  induction profiles generalizing seen with
  | nil => exact ⟨fun p hp => (by cases hp), List.nodup_nil⟩
  | cons p rest ih =>
    unfold validateProfiles at h
    split at h
    · cases h
    rename_i hname
    split at h
    · cases h
    split at h
    · cases h
    · cases h
    rename_i c hparse
    split at h
    · cases h
    · obtain ⟨hrest, hnodup⟩ := ih h
      have hvalid : tunnelNameIsValid p.name = true ∧ p.name ∉ seen := by simpa using hname
      refine ⟨?_, ?_⟩
      · intro q hq
        rcases List.mem_cons.mp hq with rfl | hq
        · exact ⟨hvalid.1, hvalid.2, c, hparse⟩
        · obtain ⟨hq1, hq2, hq3⟩ := hrest q hq
          exact ⟨hq1, fun hmem => hq2 (List.mem_cons_of_mem _ hmem), hq3⟩
      · rw [List.map_cons, List.nodup_cons]
        refine ⟨fun hmem => ?_, hnodup⟩
        obtain ⟨q, hq, hsame⟩ := List.mem_map.mp hmem
        exact (hrest q hq).2.1 (hsame ▸ List.mem_cons_self)

/-- What is decrypted has been validated. -/
theorem decryptBackup_ok {crypt : BackupEnv} {data password : Str} {backup : Backup}
    (h : decryptBackup decoders env crypt data password = .ok backup) :
    validateProfiles decoders env [] backup.profiles = .ok () := by
  unfold decryptBackup at h
  simp only at h
  split at h
  · cases h
  split at h
  · cases h
  split at h
  · cases h
  split at h
  · cases h
  · obtain ⟨u, hvalidate, hsame⟩ := (Outcome.bind_eq_ok _ _ _).mp h
    cases hsame
    unfold validateBackup at hvalidate
    split at hvalidate
    · cases hvalidate
    · exact hvalidate

end validation

section restoring

/-- No operation fails. -/
def noFaults : Nat → Faults := fun _ => ⟨false, false⟩

/-- The file of a restored profile. -/
def HoldsConfig (rename : List (Str × Str)) (p : BackupProfile) (f : StoredProfile) : Prop :=
  ∃ c, fromWgQuick p.config ((rename.lookup p.name).getD []) = .ok c ∧ f.name = c.name ∧
    f.text = toWgQuick c

variable {rename : List (Str × Str)}

/-- Profiles that the parser accepts are all put into the store. -/
theorem restoreLoop_all {n : Nat} {s : Restoring} {profiles : List BackupProfile} (herr : s.err = none)
    (h : ∀ p ∈ profiles, ∃ c, fromWgQuick p.config ((rename.lookup p.name).getD []) = .ok c) :
    ∃ s' files, restoreLoop rename true noFaults n s profiles = .ok s' ∧
      s'.store = s.store.putAll files ∧ List.Forall₂ (HoldsConfig rename) profiles files ∧ s'.err = none := by
  induction profiles generalizing n s with
  | nil => exact ⟨s, [], rfl, rfl, List.Forall₂.nil, herr⟩
  | cons p rest ih =>
    obtain ⟨c, hparse⟩ := h p List.mem_cons_self
    have hvalid : tunnelNameIsValid c.name = true := by
      rw [(fromWgQuick_name hparse).1]
      exact (fromWgQuick_name hparse).2
    obtain ⟨s', files, hrest, hstore, hfiles, herr'⟩ := ih (n := n + 1)
      (s := ⟨s.store.put ⟨c.name, toWgQuick c, hvalid⟩,
        s.saved ++ [(c.name, renameFallbacks rename p.settings)], s.restored + 1, none⟩) rfl
      fun q hq => h q (List.mem_cons_of_mem _ hq)
    refine ⟨s', ⟨c.name, toWgQuick c, hvalid⟩ :: files, ?_, hstore, ?_, herr'⟩
    · rw [restoreLoop, herr, hparse]
      simpa [noFaults, create_ok hvalid] using hrest
    · exact List.Forall₂.cons ⟨c, hparse, rfl, rfl⟩ hfiles

/-- When every profile has been added, the parser has accepted every profile. -/
theorem restoreLoop_full {n : Nat} {s s' : Restoring} {profiles : List BackupProfile} (herr : s.err = none)
    (h : restoreLoop rename true noFaults n s profiles = .ok s') :
    s'.store.size ≤ s.store.size + profiles.length ∧
      (s'.store.size = s.store.size + profiles.length →
        ∀ p ∈ profiles, ∃ c, fromWgQuick p.config ((rename.lookup p.name).getD []) = .ok c) := by
  induction profiles generalizing n s with
  | nil =>
    cases h
    exact ⟨Nat.le_refl _, fun _ p hp => by cases hp⟩
  | cons p rest ih =>
    rw [restoreLoop, herr] at h
    simp only [Option.isSome_none, Bool.false_eq_true, if_false] at h
    split at h
    · cases h
    · cases h
      refine ⟨Nat.le_add_right _ _, fun hsize => ?_⟩
      simp only [List.length_cons] at hsize
      omega
    · rename_i c hparse
      have hvalid : tunnelNameIsValid c.name = true := by
        rw [(fromWgQuick_name hparse).1]
        exact (fromWgQuick_name hparse).2
      rw [create_ok hvalid] at h
      simp only [noFaults, Bool.false_eq_true, if_false] at h
      obtain ⟨hle, hfull⟩ := ih rfl h
      have hone := s.store.putAll_size_le [⟨c.name, toWgQuick c, hvalid⟩]
      simp only [KeyedList.putAll, List.foldl_cons, List.foldl_nil, List.length_singleton] at hone
      simp only [List.length_cons] at hle hfull ⊢
      refine ⟨by omega, fun hsize q hq => ?_⟩
      rcases List.mem_cons.mp hq with rfl | hq
      · exact ⟨c, hparse⟩
      · exact hfull (by omega) q hq

/-- One new profile for each profile of the backup, with the configuration that was validated, and the
old profiles as they were. -/
def Restored (decoders : List Decoder) (store store' : ProfileStore) (profiles : List BackupProfile) : Prop :=
  ∃ files, store'.entries = store.entries ++ files ∧ List.Forall₂ (fun p (f : StoredProfile) =>
    ∃ c, fromWgQuickWithUnknownEncoding decoders p.config p.name = .ok c ∧
      f.text = toWgQuick (c.rename f.name)) profiles files

/-- The names used at first are those of the store. -/
def storedNames (store : ProfileStore) : List Str := store.entries.map fun f => toLower f.name

theorem storedNames_eq (store : ProfileStore) : storedNames store = store.keys := by
  apply List.map_congr_left
  intro f hf
  exact toLower_name (tunnelNameIsValid_format f.valid).1

/-- The keys of the files of restored profiles are those of the names chosen for them. -/
theorem keys_of_holdsConfig {profiles : List BackupProfile} {files : List StoredProfile}
    (h : List.Forall₂ (HoldsConfig rename) profiles files) :
    files.map StoredProfile.key =
      (profiles.map fun p => (rename.lookup p.name).getD []).map toLower := by
  induction h with
  | nil => rfl
  | @cons p f profiles files hfile hrest ih =>
    obtain ⟨c, hparse, hname, -⟩ := hfile
    have hkey : f.key = toLower ((rename.lookup p.name).getD []) := by
      rw [← (fromWgQuick_name hparse).1, ← hname]
      exact (toLower_name (tunnelNameIsValid_format f.valid).1).symm
    rw [List.map_cons, List.map_cons, List.map_cons, ih, hkey]

/-- A backup that decrypts is restored completely exactly when `FromWgQuick` accepts each of its texts
as it is, without another encoding, and there is room for all names. -/
theorem backup_restored_iff (decoders : List Decoder) (env : Env) (crypt : BackupEnv) (data password : Str)
    (backup : Backup) (h : decryptBackup decoders env crypt data password = .ok backup)
    (store : ProfileStore) :
    (∃ s, restoreBackupProfiles false true noFaults store backup.profiles = .ok s ∧ s.err = none ∧
        Restored decoders store s.store backup.profiles) ↔
      (∀ p ∈ backup.profiles, ∃ c, fromWgQuick p.config p.name = .ok c) ∧
        RoomForAll (storedNames store) (backup.profiles.map BackupProfile.name) := by
  obtain ⟨hprofiles, hnodup⟩ := validateProfiles_ok (decryptBackup_ok h)
  have hnames : ∀ name ∈ backup.profiles.map BackupProfile.name, tunnelNameIsValid name = true := by
    intro name hname
    obtain ⟨p, hp, rfl⟩ := List.mem_map.mp hname
    exact (hprofiles p hp).1
  obtain ⟨hdistinct, hunused⟩ := restoredNames_nodup (storedNames store) _ hnames
  -- the map gives each profile the name that was chosen for it
  have hrenamed : (backup.profiles.map fun p => ((renameMap (storedNames store)
      (backup.profiles.map BackupProfile.name)).lookup p.name).getD []) =
      restoredNames (storedNames store) (backup.profiles.map BackupProfile.name) := by
    have hzip := map_lookup_zip hnodup (restoredNames_length (storedNames store) _).symm
    rw [List.map_map] at hzip
    exact hzip
  have hstart : restoreBackupProfiles false true noFaults store backup.profiles =
      restoreLoop (renameMap (storedNames store) (backup.profiles.map BackupProfile.name)) true noFaults 0
        ⟨store, [], 0, none⟩ backup.profiles := by
    simp only [restoreBackupProfiles, storedNames, Bool.false_eq_true, if_false, List.map_map]
    rfl
  rw [hstart, ← restoredNames_valid_iff _ hnames, ← hrenamed]
  generalize renameMap (storedNames store) (backup.profiles.map BackupProfile.name) = rename at *
  constructor
  · rintro ⟨s, hloop, -, files, hentries, hfiles⟩
    have hsize : s.store.size = store.size + backup.profiles.length := by
      rw [KeyedList.size, hentries, List.length_append, ← hfiles.length_eq]
      rfl
    have haccepted := (restoreLoop_full rfl hloop).2 hsize
    refine ⟨fun p hp => ?_, fun name hname => ?_⟩
    · obtain ⟨c, hparse⟩ := haccepted p hp
      exact ⟨_, fromWgQuick_rename p.name hparse (hprofiles p hp).1⟩
    · obtain ⟨p, hp, rfl⟩ := List.mem_map.mp hname
      obtain ⟨c, hparse⟩ := haccepted p hp
      exact (fromWgQuick_name hparse).2
  · rintro ⟨haccepted, hvalid⟩
    have haccepted' : ∀ p ∈ backup.profiles,
        ∃ c, fromWgQuick p.config ((rename.lookup p.name).getD []) = .ok c := by
      intro p hp
      obtain ⟨c, hparse⟩ := haccepted p hp
      exact ⟨_, fromWgQuick_rename _ hparse (hvalid _ (List.mem_map_of_mem hp))⟩
    obtain ⟨s, files, hloop, hstore, hfiles, herr⟩ :=
      restoreLoop_all (n := 0) (s := ⟨store, [], 0, none⟩) rfl haccepted'
    have hkeys : (store.keys ++ files.map StoredProfile.key).Nodup := by
      rw [keys_of_holdsConfig hfiles, hrenamed, ← storedNames_eq, List.nodup_append]
      refine ⟨storedNames_eq store ▸ store.distinct, hdistinct, fun k hk k' hk' hsame => ?_⟩
      obtain ⟨name, hname, rfl⟩ := List.mem_map.mp hk'
      exact hunused name hname (hsame ▸ hk)
    have hboth : List.Forall₂ (fun p f => p ∈ backup.profiles ∧ HoldsConfig rename p f)
        backup.profiles files := (List.forall₂_and_left _ _).mpr ⟨fun p hp => hp, hfiles⟩
    refine ⟨s, hloop, herr, files, hstore ▸ KeyedList.putAll_entries hkeys, hboth.imp ?_⟩
    rintro p f ⟨hp, c, hparse, hname, htext⟩
    have hdirect := fromWgQuick_rename p.name hparse (hprofiles p hp).1
    refine ⟨c.rename p.name, fromWgQuickWithUnknownEncoding_of_ok hdirect, ?_⟩
    rw [htext, hname]
    rfl

/-- A cipher that hides nothing; the archive holds a fixed backup. -/
def openArchive (backup : Backup) : BackupEnv where
  scryptKey := fun _ _ => some []
  gcmOpen := fun _ _ _ _ => some []
  decodeStrictJSON := fun _ => some backup

def sampleArchive : Str := backupMagic ++ List.replicate 44 0

/-- A backup with one profile `home`. -/
def homeBackup (config : Str) : Backup := ⟨1, 0, [⟨ascii "home", config, plainSettings⟩]⟩

/-- A store that has a profile `Home` already. -/
def takenStore : ProfileStore := ⟨[⟨ascii "Home", ascii "old", by decide +kernel⟩], by simp⟩

theorem backup_restored_home :
    decryptBackup unicodeAll plainEnv (openArchive (homeBackup keyOnlyText)) sampleArchive [] =
        .ok (homeBackup keyOnlyText) ∧
      ∃ s, restoreBackupProfiles false true noFaults takenStore (homeBackup keyOnlyText).profiles = .ok s ∧
        s.err = none ∧ Restored unicodeAll takenStore s.store (homeBackup keyOnlyText).profiles := by
  have hdecrypt : decryptBackup unicodeAll plainEnv (openArchive (homeBackup keyOnlyText)) sampleArchive [] =
      .ok (homeBackup keyOnlyText) := by decide +kernel
  refine ⟨hdecrypt, (backup_restored_iff _ _ _ _ _ _ hdecrypt takenStore).mpr ⟨fun p hp => ?_, ?_⟩⟩
  · obtain rfl := List.mem_singleton.mp hp
    exact ⟨_, keyOnlyText_parses⟩
  · exact ⟨Or.inr ⟨2, by decide, by decide +kernel, by decide +kernel⟩, trivial⟩

/-- The same text in UTF-16, as some editors save it. -/
def wideText : Str := keyOnlyText.flatMap fun b => [b, 0]

/-- The backup with the text in UTF-16 decrypts, and nothing of it is restored. -/
theorem backup_not_restored_utf16 :
    decryptBackup unicodeAll plainEnv (openArchive (homeBackup wideText)) sampleArchive [] =
        .ok (homeBackup wideText) ∧
      ∀ s, restoreBackupProfiles false true noFaults takenStore (homeBackup wideText).profiles = .ok s →
        s.restored = 0 ∧ s.err ≠ none ∧ s.store.entries = takenStore.entries ∧
          ¬Restored unicodeAll takenStore s.store (homeBackup wideText).profiles := by
  refine ⟨by decide +kernel, fun s hs => ?_⟩
  have hfacts : (restoreBackupProfiles false true noFaults takenStore
      (homeBackup wideText).profiles).toOption.all (fun s => s.restored = 0 ∧ s.err ≠ none ∧
        s.store.entries = takenStore.entries) = true := by decide +kernel
  rw [hs] at hfacts
  obtain ⟨hrestored, herr, hstore⟩ : s.restored = 0 ∧ s.err ≠ none ∧
      s.store.entries = takenStore.entries := by simpa [Outcome.toOption] using hfacts
  refine ⟨hrestored, herr, hstore, ?_⟩
  rintro ⟨files, hentries, hfiles⟩
  rw [hstore] at hentries
  have hnone : files = [] := List.self_eq_append_right.mp hentries
  rw [hnone] at hfiles
  cases hfiles

end restoring

end SmartAwg.Smart
