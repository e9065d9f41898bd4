import SmartAwg.BackupRestore
import SmartAwg.SmartEnvelope

/-!
From a backup to the encrypted archive and back. The reader finds the salt, the nonce and the sealed text
where the writer put them, and validates what it has read once more. Only the catalogs of the settings are
other texts than at the first validation.
-/

namespace SmartAwg.Smart

open Go Conf

section writer

/-- The JSON encoder and the cipher, which takes the key, the nonce, the text and the additional data;
`none` is an error. -/
structure BackupWriter where
  marshal : Backup → Option Str
  gcmSeal : Str → Str → Str → Str → Str

/-- `EncryptBackup`; `salt` and `nonce` are what `rand.Read` gives, if anything. -/
def encryptBackup (decoders : List Decoder) (env : Env) (crypt : BackupEnv) (writer : BackupWriter)
    (salt : Option (Vector UInt8 16)) (nonce : Option (Vector UInt8 12)) (backup : Backup) (password : Str) :
    Outcome BackupErr Str :=
  if (runes password).length < 12 then
    .err (.text "для резервной копии нужен пароль не короче 12 символов")
  else do
    validateBackup decoders env backup
    match writer.marshal backup with
    | none => .err .system
    | some plain =>
      if plain.length > backupLimit then .err (.text "резервная копия превышает 16 МБ")
      else
        match salt with
        | none => .err .system
        | some salt =>
          match crypt.scryptKey password salt.toList with
          | none => .err .system
          | some key =>
            match nonce with
            | none => .err .system
            | some nonce =>
              let header := backupMagic ++ salt.toList ++ nonce.toList
              .ok (header ++ writer.gcmSeal key nonce.toList plain header)

def BackupProfile.strings (p : BackupProfile) : List Str := p.name :: p.config :: p.settings.strings

def Backup.strings (b : Backup) : List Str := b.profiles.flatMap BackupProfile.strings

/-- The backup with its envelopes in compact form; times are the same when they are the same instant. -/
def Backup.compacted (b : Backup) : Backup :=
  { b with profiles := b.profiles.map fun p => { p with settings := p.settings.compacted } }

/-- The settings as a value of the source is listed here: its maps in the order of their keys, and no name of a
kind or of a target among the other texts. -/
structure RoutingSettings.Canonical (s : RoutingSettings) : Prop where
  modes : (s.serviceRoutes.map Prod.fst).Pairwise (· < ·)
  services : ∀ routes ∈ s.serviceRoutes, (routes.2.map Prod.fst).Pairwise (· < ·)
  kinds : ∀ r ∈ s.customRules, ∀ text, r.kind = .other text →
    text ∉ List.map ascii ["application", "domain", "cidr"]
  targets : ∀ r ∈ s.customRules, ∀ text, r.target = .other text → text ∉ List.map ascii ["vpn", "direct"]

/-- `Open` inverts `Seal`, which adds a tag of sixteen bytes, for the same key, nonce and additional data.
The strict decoder reads what the encoder has written; the encoder sorts maps and replaces invalid UTF-8. -/
structure BackupCodec (crypt : BackupEnv) (writer : BackupWriter) : Prop where
  opens : ∀ key nonce plain header, crypt.gcmOpen key nonce (writer.gcmSeal key nonce plain header) header =
    some plain
  tagged : ∀ key nonce plain header, (writer.gcmSeal key nonce plain header).length = plain.length + 16
  decodes : ∀ backup plain, (∀ p ∈ backup.profiles, p.settings.Canonical) →
    (∀ s ∈ backup.strings, validUtf8 s = true) → writer.marshal backup = some plain →
    crypt.decodeStrictJSON plain = some backup.compacted

end writer

section trip
variable {decoders : List Decoder} {env : Env} {crypt : BackupEnv} {writer : BackupWriter}
  {salt : Option (Vector UInt8 16)} {nonce : Option (Vector UInt8 12)} {backup : Backup} {password : Str}

/-- All that is checked, and the parts of the archive. -/
theorem encryptBackup_ok
    {data : Str} (h : encryptBackup decoders env crypt writer salt nonce backup password = .ok data) :
    validateBackup decoders env backup = .ok () ∧ ∃ plain key, ∃ salt : Vector UInt8 16, ∃ nonce : Vector UInt8 12,
      writer.marshal backup = some plain ∧ plain.length ≤ backupLimit ∧
      crypt.scryptKey password salt.toList = some key ∧
      data = backupMagic ++ salt.toList ++ nonce.toList ++
        writer.gcmSeal key nonce.toList plain (backupMagic ++ salt.toList ++ nonce.toList) := by
  unfold encryptBackup at h
  split at h
  · cases h
  obtain ⟨u, hvalidate, h⟩ := (Outcome.bind_eq_ok _ _ _).mp h
  refine ⟨hvalidate, ?_⟩
  split at h
  · cases h
  rename_i plain hplain
  split at h
  · cases h
  rename_i hsize
  split at h
  · cases h
  split at h
  · cases h
  rename_i key hkey
  split at h
  · cases h
  cases h
  exact ⟨plain, key, _, _, hplain, Nat.not_lt.mp hsize, hkey, rfl⟩

/-- The reader takes an archive apart where the writer put it together. -/
theorem decryptBackup_sealed (hcodec : BackupCodec crypt writer) (salt : Vector UInt8 16)
    (nonce : Vector UInt8 12) {key plain : Str} (hkey : crypt.scryptKey password salt.toList = some key)
    (hsize : plain.length ≤ backupLimit) (hplain : crypt.decodeStrictJSON plain = some backup) :
    decryptBackup decoders env crypt (backupMagic ++ salt.toList ++ nonce.toList ++
      writer.gcmSeal key nonce.toList plain (backupMagic ++ salt.toList ++ nonce.toList)) password =
      (validateBackup decoders env backup >>= fun _ => .ok backup) := by
  have hsalt : salt.toList.length = 16 := Vector.length_toList
  have hnonce : nonce.toList.length = 12 := Vector.length_toList
  have hmagic : backupMagic.length = 13 := rfl
  have hheader : (backupMagic ++ salt.toList ++ nonce.toList).length = backupMagic.length + 16 + 12 := by
    rw [List.length_append, List.length_append, hsalt, hnonce]
  generalize hsealed : writer.gcmSeal key nonce.toList plain (backupMagic ++ salt.toList ++ nonce.toList) = text
  have hlength : text.length = plain.length + 16 := hsealed ▸ hcodec.tagged ..
  have hopen : crypt.gcmOpen key nonce.toList text (backupMagic ++ salt.toList ++ nonce.toList) = some plain :=
    hsealed ▸ hcodec.opens ..
  have hmagical : backupMagic.isPrefixOf (backupMagic ++ salt.toList ++ nonce.toList ++ text) = true := by
    rw [List.append_assoc, List.append_assoc]
    exact List.isPrefixOf_iff_prefix.mpr ( List.prefix_append _ _)
  have hdropSalt : ((backupMagic ++ salt.toList ++ nonce.toList ++ text).drop backupMagic.length).take 16 =
      salt.toList := by
    rw [List.append_assoc, List.append_assoc, List.drop_left, List.take_left' hsalt]
  have hdropNonce : ((backupMagic ++ salt.toList ++ nonce.toList ++ text).drop (backupMagic.length + 16)).take 12 =
      nonce.toList := by
    have hfront : (backupMagic ++ salt.toList).length = backupMagic.length + 16 := by
      rw [List.length_append, hsalt]
    rw [List.append_assoc, List.drop_left' hfront, List.take_left' hnonce]
  unfold decryptBackup
  simp only
  rw [if_neg, hdropSalt, hkey]
  · simp only
    rw [hdropNonce, ← hheader, List.drop_left, List.take_left, hopen]
    simp only
    rw [hplain]
    rfl
  · simp only [hmagical, Bool.not_true, Bool.false_eq_true, or_false, not_or, Nat.not_lt, List.length_append,
      hsalt, hnonce, hlength]
    omega

/-- Profiles that were accepted are accepted with compact envelopes, at every later time, when these are not
too long. -/
theorem validateProfiles_compacted (henv : env.ReadsLayouts) (t : Int) (ht : env.now ≤ t) {seen : List Str}
    {profiles : List BackupProfile} (h : validateProfiles decoders env seen profiles = .ok ()) :
    validateProfiles decoders { env with now := t } seen
        (profiles.map fun p => { p with settings := p.settings.compacted }) = .ok () ↔
      ∀ p ∈ profiles, (jsonCompact p.settings.catalogEnvelope).length ≤ presetMaxEnvelope := by
  induction profiles generalizing seen with
  | nil => exact iff_of_true rfl nofun
  | cons p rest ih =>
    rw [validateProfiles] at h
    split at h
    · cases h
    rename_i hname
    split at h
    · cases h
    rename_i hsize
    split at h
    · cases h
    · cases h
    rename_i c hconfig
    split at h
    · cases h
    rename_i n hn
    have hrelaid := RoutingSettings.normalized_relaid henv (Or.inl rfl) hn t ht
    rw [List.map_cons, validateProfiles, if_neg hname, if_neg hsize, hconfig, List.forall_mem_cons, ← ih h]
    constructor
    · intro haccept
      simp only at haccept
      split at haccept
      · cases haccept
      · rename_i n' hn'
        exact ⟨((hrelaid n').mp hn').1, haccept⟩
    · rintro ⟨hfits, hrest⟩
      have hn' : p.settings.compacted.normalized { env with now := t } = .ok _ := (hrelaid _).mpr ⟨hfits, rfl⟩
      simp only [hn']
      exact hrest

theorem Backup.compacted_compacted (b : Backup) : b.compacted.compacted = b.compacted := by
  simp only [Backup.compacted, List.map_map, Function.comp_def, RoutingSettings.compacted_compacted]

/-- What comes back from an archive, if anything does. -/
theorem decryptBackup_encryptBackup (henv : env.ReadsLayouts) (hcodec : BackupCodec crypt writer)
    (hcanonical : ∀ p ∈ backup.profiles, p.settings.Canonical)
    (hstrings : ∀ s ∈ backup.strings, validUtf8 s = true) {data : Str}
    (h : encryptBackup decoders env crypt writer salt nonce backup password = .ok data) (t : Int)
    (ht : env.now ≤ t) (b : Backup) :
    decryptBackup decoders { env with now := t } crypt data password = .ok b ↔
      (∀ p ∈ backup.profiles, (jsonCompact p.settings.catalogEnvelope).length ≤ presetMaxEnvelope) ∧
        b = backup.compacted := by
  obtain ⟨hvalidate, plain, key, salt, nonce, hplain, hsize, hkey, rfl⟩ := encryptBackup_ok h
  rw [decryptBackup_sealed hcodec salt nonce hkey hsize (hcodec.decodes backup plain hcanonical hstrings hplain)]
  have hcount : ¬(backup.version ≠ 1 ∨ backup.profiles = [] ∨ backup.profiles.length > 100) := by
    intro hbad
    rw [validateBackup, if_pos hbad] at hvalidate
    cases hvalidate
  rw [validateBackup, if_neg hcount] at hvalidate
  have hcount' : ¬(backup.compacted.version ≠ 1 ∨ backup.compacted.profiles = [] ∨
      backup.compacted.profiles.length > 100) := by
    simpa only [Backup.compacted, List.map_eq_nil_iff, List.length_map] using hcount
  rw [validateBackup, if_neg hcount', ← validateProfiles_compacted henv t ht hvalidate, Outcome.bind_eq_ok]
  constructor
  · rintro ⟨u, haccept, hb⟩
    cases hb
    exact ⟨haccept, rfl⟩
  · rintro ⟨haccept, rfl⟩
    exact ⟨(), haccept, rfl⟩

/-- A backup comes back from its archive, at every later time, exactly when the catalogs of its settings,
with the characters escaped that the encoder escapes, are not too long for a catalog. -/
theorem backup_round_trip_iff (decoders : List Decoder) (env : Env) (henv : env.ReadsLayouts)
    (crypt : BackupEnv) (writer : BackupWriter) (hcodec : BackupCodec crypt writer)
    (salt : Option (Vector UInt8 16)) (nonce : Option (Vector UInt8 12)) (backup : Backup)
    (hcanonical : ∀ p ∈ backup.profiles, p.settings.Canonical)
    (hstrings : ∀ s ∈ backup.strings, validUtf8 s = true) (password data : Str)
    (h : encryptBackup decoders env crypt writer salt nonce backup password = .ok data) (t : Int)
    (ht : env.now ≤ t) :
    (∃ b, decryptBackup decoders { env with now := t } crypt data password = .ok b ∧
        b.compacted = backup.compacted) ↔
      ∀ p ∈ backup.profiles, (jsonCompact p.settings.catalogEnvelope).length ≤ presetMaxEnvelope := by
  have hback := decryptBackup_encryptBackup henv hcodec hcanonical hstrings h t ht
  constructor
  · rintro ⟨b, hb, -⟩
    exact ((hback b).mp hb).1
  · intro hfits
    exact ⟨backup.compacted, (hback _).mpr ⟨hfits, rfl⟩, backup.compacted_compacted⟩

end trip

section samples

/-- What follows the brackets in the envelope below. -/
def envelopeRest : Str := ascii "\"," ++ signedFields 3

/-- A signed envelope whose first key identifier is `n` brackets; the second one replaces it. -/
def envelopeText (n : Nat) : Str :=
  ascii "\x7b\"key_id\":\"" ++ (List.replicate n 0x3C ++ envelopeRest)

/-- Nothing in it is changed when it is compacted. -/
theorem envelopeRest_compact : compactFrom .inside envelopeRest = envelopeRest ∧ envelopeRest.length = 737 := by
  decide +kernel

/-- Each bracket takes six bytes in compact form. -/
theorem envelopeText_length (n : Nat) :
    (envelopeText n).length = n + 748 ∧ (jsonCompact (envelopeText n)).length = 6 * n + 748 := by
  have hbytes : ascii "\x7b\"key_id\":\"" = [0x7B, 0x22, 0x6B, 0x65, 0x79, 0x5F, 0x69, 0x64, 0x22, 0x3A, 0x22] := rfl
  have hstart : jsonCompact (envelopeText n) = ascii "\x7b\"key_id\":\"" ++
      compactFrom .inside (List.replicate n 0x3C ++ envelopeRest) := by
    rw [envelopeText, hbytes]
    generalize List.replicate n 0x3C ++ envelopeRest = text
    simp [jsonCompact, compactFrom, compactStep, isJsonSpace, isHtmlByte, isLineSeparator, JsonPlace.inString]
  obtain ⟨hcompact, hrest⟩ := envelopeRest_compact
  constructor
  · rw [envelopeText, hbytes, List.length_append, List.length_append, List.length_replicate, hrest, Nat.add_comm]
    exact Nat.add_assoc n 737 11
  · rw [hstart, hbytes, List.length_append, compactFrom_html_length 0x3C rfl, hcompact, hrest, Nat.add_comm]
    exact Nat.add_assoc (6 * n) 737 11

/-- The environment of the small catalogs, where such an envelope is decoded, in any layout. -/
def signedEnv : Env :=
  { smallPresets.env with
    decodeEnvelope := fun data =>
      let text := jsonCompact data
      if text = jsonCompact (envelopeText ((text.length - 748) / 6)) then .ok (signedPreset 3)
      else .error (.text "unexpected EOF") }

theorem signedEnv_envelopeText (n : Nat) : signedEnv.decodeEnvelope (envelopeText n) = .ok (signedPreset 3) := by
  have hn : (6 * n + 748 - 748) / 6 = n := by omega
  simp only [signedEnv, (envelopeText_length n).2, hn, if_true]

theorem signedEnv_readsLayouts : signedEnv.ReadsLayouts where
  empty := by
    intro v hv
    simp only [signedEnv] at hv
    split at hv
    · rename_i heq
      have hlength := congrArg List.length heq
      rw [(envelopeText_length _).2] at hlength
      cases hlength
    · cases hv
  relaid := by
    intro text text' v hrelaid hv
    simp only [signedEnv, hrelaid.jsonCompact_eq] at hv ⊢
    exact hv

def signedSettings (n : Nat) : RoutingSettings := { plainSettings with catalogEnvelope := envelopeText n }

/-- A backup with one profile that carries this envelope. -/
def signedBackup (n : Nat) : Backup := ⟨1, 0, [⟨ascii "home", keyOnlyText, signedSettings n⟩]⟩

/-- The backup as the encoder writes it, up to the envelope. -/
def signedFront : Str :=
  ascii "\x7b\"Version\":1,\"CreatedAt\":\"1970-01-01T00:00:00Z\",\"Profiles\":[\x7b\"Name\":\"home\",\"Config\":\"" ++
    ascii "[Interface]\\nPrivateKey=" ++ sampleKeyText ++ ascii "\",\"Settings\":\x7b\"catalog_envelope\":"

def signedText (n : Nat) : Str :=
  signedFront ++ jsonCompact (envelopeText n) ++ ascii ",\"version\":5,\"mode\":\"all\",\"selected_apps\":[]\x7d\x7d]\x7d"

theorem signedSettings_normalized (n : Nat) (hn : n + 748 ≤ presetMaxEnvelope) :
    ∃ s, (signedSettings n).normalized signedEnv = .ok s := by
  have hvalid : (validatePresetPayload signedEnv (presetText 3)).toOption.isSome = true := by decide +kernel
  cases hpayload : validatePresetPayload signedEnv (presetText 3) with
  | error e =>
    rw [hpayload] at hvalid
    cases hvalid
  | ok payload =>
    have hlength := (envelopeText_length n).1
    have hne : envelopeText n ≠ [] := List.ne_nil_of_length_pos (by omega)
    have hsize : ¬(presetText 3 = [] ∨ (presetText 3).length > presetMaxPayload) := by decide +kernel
    have hsigned : signedEnv.verifySignature (presetText 3) (List.replicate 64 0) = true := by
      simp [signedEnv, smallPresets]
    have hverified : verifyPresetEnvelope signedEnv (envelopeText n) = .ok payload := by
      unfold verifyPresetEnvelope
      rw [if_neg (not_or.mpr ⟨hne, Nat.not_lt.mpr (hlength.trans_le hn)⟩), signedEnv_envelopeText n]
      simp only [signedPreset, base64Decode_encode, if_neg hsize, hsigned, hpayload, List.length_replicate]
      rfl
    have hcatalog : verifiedSettingsCatalog signedEnv (envelopeText n) = .ok payload.services := by
      rw [verifiedSettingsCatalog, if_neg hne, hverified]
      rfl
    exact ⟨_, (RoutingSettings.normalized_eq_ok _ _ _).mpr ⟨Int.le_refl _, .inl rfl, Nat.zero_le 8,
      List.forall_mem_nil _, payload.services, [], hcatalog, rfl, rfl⟩⟩

/-- A cipher that hides nothing, and the texts of one backup. -/
def plainWriter (n : Nat) : BackupWriter where
  marshal := fun b => if b = signedBackup n then some (signedText n) else none
  gcmSeal := fun _ _ plain _ => plain ++ List.replicate 16 0

def plainReader (n : Nat) : BackupEnv where
  scryptKey := fun _ _ => some []
  gcmOpen := fun _ _ text _ => some (text.take (text.length - 16))
  decodeStrictJSON := fun text => if text = signedText n then some (signedBackup n).compacted else none

theorem plain_backupCodec (n : Nat) : BackupCodec (plainReader n) (plainWriter n) where
  opens := by
    intro key nonce plain header
    simp [plainReader, plainWriter]
  tagged := by
    intro key nonce plain header
    simp [plainWriter]
  decodes := by
    intro b plain _ _ hb
    have hsame : b = signedBackup n := by
      by_contra hne
      exact nomatch (if_neg hne).symm.trans hb
    have hplain : signedText n = plain := Option.some.inj ((if_pos hsame).symm.trans hb)
    simp only [hsame, ← hplain, plainReader, if_true]

def samplePassword : Str := ascii "correct horse"

theorem signedBackup_encrypted (n : Nat) (hn : n + 748 ≤ presetMaxEnvelope) :
    ∃ data, encryptBackup unicodeAll signedEnv (plainReader n) (plainWriter n)
      (some (Vector.replicate 16 0)) (some (Vector.replicate 12 0)) (signedBackup n) samplePassword = .ok data := by
  obtain ⟨s, hs⟩ := signedSettings_normalized n hn
  have hvalidate : validateBackup unicodeAll signedEnv (signedBackup n) = .ok () := by
    have hname : ¬(!tunnelNameIsValid (ascii "home") ∨ ascii "home" ∈ ([] : List Str)) := by decide +kernel
    have hsize : ¬keyOnlyText.length > 1024 * 1024 := by decide +kernel
    have hcount : ¬((signedBackup n).version ≠ 1 ∨ (signedBackup n).profiles = [] ∨ (signedBackup n).profiles.length > 100) := by
      simp [signedBackup]
    rw [validateBackup, if_neg hcount]
    change (if _ then _ else _) = _
    rw [if_neg hname, if_neg hsize, fromWgQuickWithUnknownEncoding_of_ok keyOnlyText_parses]
    simp only [hs]
    rfl
  have hmarshal : (plainWriter n).marshal (signedBackup n) = some (signedText n) := if_pos rfl
  have hlength : ¬(signedText n).length > backupLimit := by
    have hframe : signedFront.length + (ascii ",\"version\":5,\"mode\":\"all\",\"selected_apps\":[]\x7d\x7d]\x7d").length ≤
      1000 := by decide +kernel
    rw [presetMaxEnvelope] at hn
    rw [signedText, List.length_append, List.length_append, (envelopeText_length n).2, backupLimit]
    omega
  rw [encryptBackup, if_neg (by decide +kernel), hvalidate, Outcome.ok_bind, hmarshal]
  simp only [if_neg hlength]
  exact ⟨_, rfl⟩

theorem signedBackup_canonical (n : Nat) : ∀ p ∈ (signedBackup n).profiles, p.settings.Canonical := by
  intro p hp
  rw [List.mem_singleton.mp hp]
  exact ⟨.nil, nofun, nofun, nofun⟩

theorem signedBackup_strings (n : Nat) : ∀ s ∈ (signedBackup n).strings, validUtf8 s = true := by
  have hall : ∀ s ∈ (signedBackup 0).strings, validUtf8 s = true := by decide +kernel
  exact hall

theorem signedBackup_fits (n : Nat) :
    (∀ p ∈ (signedBackup n).profiles, (jsonCompact p.settings.catalogEnvelope).length ≤ presetMaxEnvelope) ↔
      6 * n + 748 ≤ presetMaxEnvelope := by
  rw [← (envelopeText_length n).2]
  exact List.forall_mem_singleton

theorem backup_round_trip_signed :
    ∃ data b, encryptBackup unicodeAll signedEnv (plainReader 3) (plainWriter 3)
        (some (Vector.replicate 16 0)) (some (Vector.replicate 12 0)) (signedBackup 3) samplePassword = .ok data ∧
      decryptBackup unicodeAll signedEnv (plainReader 3) data samplePassword = .ok b ∧
        b.compacted = (signedBackup 3).compacted := by
  obtain ⟨data, hdata⟩ := signedBackup_encrypted 3 (by decide)
  obtain ⟨b, hb⟩ := (backup_round_trip_iff unicodeAll signedEnv signedEnv_readsLayouts _ _
    (plain_backupCodec 3) _ _ _ (signedBackup_canonical 3) (signedBackup_strings 3) _ _ hdata 0
    (Int.le_refl _)).mpr ((signedBackup_fits 3).mpr (by decide))
  exact ⟨data, b, hdata, hb⟩

/-- An envelope that grows over the limit: the archive is written, and refused when it is read. -/
theorem backup_round_trip_refused :
    ∃ data, encryptBackup unicodeAll signedEnv (plainReader 100000) (plainWriter 100000)
        (some (Vector.replicate 16 0)) (some (Vector.replicate 12 0)) (signedBackup 100000) samplePassword = .ok data ∧
      ∀ b, decryptBackup unicodeAll signedEnv (plainReader 100000) data samplePassword ≠ .ok b := by
  obtain ⟨data, hdata⟩ := signedBackup_encrypted 100000 (by decide)
  refine ⟨data, hdata, fun b hb => ?_⟩
  have hfits := ((decryptBackup_encryptBackup signedEnv_readsLayouts (plain_backupCodec _)
    (signedBackup_canonical _) (signedBackup_strings _) hdata 0 (Int.le_refl _) b).mp hb).1
  exact absurd ((signedBackup_fits 100000).mp hfits) (by decide)

end samples

end SmartAwg.Smart
