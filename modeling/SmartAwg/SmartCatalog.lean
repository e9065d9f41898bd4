import SmartAwg.SmartNormalize

/-!
Services and their catalogs: the built-in one, the regional groups, and signed catalogs with the
checks of `ValidatePresetPayload`. JSON decoding and the signature scheme are parameters.
-/

namespace SmartAwg.Smart

open Go

structure Service where
  id : Str
  name : Str
  description : Str
  processNames : List Str
  domains : List Str
  domainSuffixes : List Str
  deriving DecidableEq

def discordService : Service where
  id := ascii "discord"
  name := ascii "Discord"
  description := utf8 "Приложение, звонки и Web"
  processNames := List.map ascii
    ["Discord.exe", "DiscordCanary.exe", "DiscordPTB.exe"]
  domains := List.map ascii
    ["discord.com", "discord.gg", "dis.gd"]
  domainSuffixes := List.map ascii
    [".discord.com", ".discord.gg", ".discordapp.com", ".discordapp.net", ".discordcdn.com",
     ".discord.media", ".discordstatus.com", ".dis.gd"]

def youtubeService : Service where
  id := ascii "youtube"
  name := ascii "YouTube"
  description := utf8 "Видео, обложки и служебные API"
  processNames := []
  domains := List.map ascii
    ["youtube.com", "youtu.be", "youtube-nocookie.com"]
  domainSuffixes := List.map ascii
    [".youtube.com", ".youtu.be", ".youtube-nocookie.com", ".googlevideo.com", ".ytimg.com",
     ".youtubei.googleapis.com", ".youtube.googleapis.com", ".ggpht.com"]

def telegramService : Service where
  id := ascii "telegram"
  name := ascii "Telegram"
  description := utf8 "Desktop, Web и звонки"
  processNames := List.map ascii
    ["Telegram.exe"]
  domains := List.map ascii
    ["t.me", "telegram.org", "telegram.me", "telegram.dog"]
  domainSuffixes := List.map ascii
    [".t.me", ".telegram.org", ".telegram.me", ".telegram.dog", ".tdesktop.com"]

def instagramService : Service where
  id := ascii "instagram"
  name := ascii "Instagram"
  description := utf8 "Сайт, медиа и CDN"
  processNames := []
  domains := List.map ascii
    ["instagram.com"]
  domainSuffixes := List.map ascii
    [".instagram.com", ".cdninstagram.com", ".fbcdn.net"]

def aiService : Service where
  id := ascii "ai"
  name := utf8 "Нейросети"
  description := utf8 "ChatGPT, Claude, Gemini, Grok и другие"
  processNames := List.map ascii
    ["ChatGPT.exe", "Claude.exe", "Perplexity.exe", "Copilot.exe", "Cursor.exe", "Windsurf.exe"]
  domains := List.map ascii
    ["chatgpt.com", "openai.com", "claude.ai", "anthropic.com", "gemini.google.com",
     "aistudio.google.com", "ai.google.dev", "generativelanguage.googleapis.com",
     "notebooklm.google.com", "grok.com", "x.ai", "perplexity.ai", "pplx.ai", "deepseek.com",
     "deepseek.ai", "copilot.microsoft.com", "copilot.com", "mistral.ai", "poe.com",
     "character.ai", "meta.ai", "huggingface.co", "midjourney.com", "suno.com", "runwayml.com",
     "leonardo.ai", "ideogram.ai", "cursor.com", "windsurf.com", "codeium.com", "phind.com",
     "kimi.com", "qwen.ai", "manus.im", "genspark.ai", "stability.ai", "dreamstudio.ai",
     "replicate.com", "fal.ai", "together.ai", "groq.com", "cohere.com", "openrouter.ai"]
  domainSuffixes := List.map ascii
    [".chatgpt.com", ".openai.com", ".oaistatic.com", ".oaiusercontent.com", ".oaistatsig.com",
     ".openaimerge.com", ".workos.com", ".workoscdn.com", ".claude.ai", ".anthropic.com",
     ".claudeusercontent.com", ".gemini.google.com", ".aistudio.google.com", ".ai.google.dev",
     ".generativelanguage.googleapis.com", ".notebooklm.google.com", ".bard.google.com",
     ".grok.com", ".x.ai", ".perplexity.ai", ".pplx.ai", ".deepseek.com", ".deepseek.ai",
     ".copilot.microsoft.com", ".copilot.com", ".githubcopilot.com",
     ".individual.githubcopilot.com", ".business.githubcopilot.com",
     ".enterprise.githubcopilot.com", ".copilot-proxy.githubusercontent.com",
     ".origin-tracker.githubusercontent.com", ".copilot-telemetry.githubusercontent.com",
     ".cloud.microsoft", ".mistral.ai", ".poe.com", ".character.ai", ".characterai.io",
     ".meta.ai", ".huggingface.co", ".hf.co", ".hf.space", ".midjourney.com",
     ".midjourneycdn.com", ".suno.com", ".suno.ai", ".runwayml.com", ".leonardo.ai",
     ".ideogram.ai", ".cursor.com", ".cursor.sh", ".windsurf.com", ".codeium.com", ".phind.com",
     ".kimi.com", ".moonshot.ai", ".moonshot.cn", ".qwen.ai", ".dashscope.aliyuncs.com",
     ".manus.im", ".genspark.ai", ".stability.ai", ".dreamstudio.ai", ".replicate.com",
     ".fal.ai", ".together.ai", ".groq.com", ".cohere.com", ".openrouter.ai"]

def builtinServiceCatalog : List Service :=
  [discordService, youtubeService, telegramService, instagramService, aiService]

def vkServiceID : Str := ascii "vk"

def russianServiceID : Str := ascii "russian-services"

def regionalCatalogRevision : String := "2026-09-08"

def vkService : Service where
  id := ascii "vk"
  name := ascii "VK"
  description := utf8 "Сайт, фото, музыка, видео и звонки"
  processNames := List.map ascii
    ["vk-calls.exe", "vk-messenger.exe", "vk-messenger-x64.exe", "VKMessenger.exe"]
  domains := List.map ascii
    ["api.ok.ru", "api.mycdn.me", "st.mycdn.me", "vkcalls.production.vklanding.ru",
     "vkcalls-native-ac.vk-apps.com", "upload.object2.vk-apps.com"]
  domainSuffixes := List.map ascii
    [".vk.ru", ".vk.com", ".vk.me", ".vkvideo.ru", ".vkvideo.com", ".vk.cc", ".vkuserphoto.ru",
     ".vkuserdocs.ru", ".userapi.com", ".vkuseraudio.net", ".vkuseraudio.ru", ".vkuseraudio.com",
     ".vkuservideo.net", ".vkuservideo.ru", ".vkuservideo.com", ".vkuserlive.net", ".vk-cdn.net",
     ".vk-portal.net", ".vkclips.app", ".vkcombo.ru", ".vkpay.com", ".calls.okcdn.ru",
     ".calls-sdk.cdn-vk.ru"]

def russianService : Service where
  id := ascii "russian-services"
  name := utf8 "Белые списки"
  description := utf8 "Популярные российские сервисы"
  processNames := []
  domains := []
  domainSuffixes := List.map ascii
    [".ya.ru", ".yandex.ru", ".yandex.com", ".yandex.net", ".yastatic.net", ".kinopoisk.ru",
     ".mail.ru", ".imgsmail.ru", ".ok.ru", ".okcdn.ru", ".dzen.ru", ".dzeninfra.ru", ".max.ru",
     ".ozon.ru", ".ozon.com", ".ozone.ru", ".ozonusercontent.com", ".wildberries.ru", ".wb.ru",
     ".wbbasket.ru", ".wbstatic.net", ".wbcontent.net", ".avito.ru", ".avito.st",
     ".gosuslugi.ru", ".mos.ru", ".nalog.ru", ".nalog.gov.ru", ".sberbank.ru", ".sber.ru",
     ".tbank.ru", ".tinkoff.ru", ".tinkoffcdn.ru", ".cdn-tinkoff.ru", ".t-static.ru",
     ".alfabank.ru", ".vtb.ru", ".gazprombank.ru", ".nspk.ru", ".rshb.ru", ".2gis.ru",
     ".2gis.com", ".2gisapis.ru", ".rzd.ru", ".tutu.ru", ".aviasales.ru", ".hh.ru",
     ".superjob.ru", ".rutube.ru", ".rutubelist.ru", ".ivi.ru", ".ivi.tv", ".okko.tv"]

def regionalServices : List Service := [vkService, russianService]

def isRegionalService (id : Str) : Bool := id == vkServiceID || id == russianServiceID

def builtinCatalogRevision : Nat := 1

structure PresetPayload where
  schema : Int
  revision : Nat
  publishedAt : Option Int
  services : List Service

structure PresetEnvelope where
  schema : Int
  keyID : Str
  payload : Str
  signature : Str

/-- The world outside the package: the name conversion, JSON and signatures, the catalog this
process shows, and the time. -/
structure Env where
  toASCII : Str → Option Str
  decodeEnvelope : Str → Except SmartErr PresetEnvelope
  decodePayload : Str → Except SmartErr PresetPayload
  verifySignature : Str → Str → Bool
  serviceCatalog : List Service
  now : Int

section validation

def presetMaxEnvelope : Nat := 512 * 1024

def presetMaxPayload : Nat := 384 * 1024

def presetPublicKeyID : Str := ascii "434f57314cd1ee6c"

/-- The pattern `^[a-z0-9][a-z0-9-]{0,31}$`. -/
def presetIDPattern (id : Str) : Bool :=
  let alnum : UInt8 → Bool := fun b => within 0x61 0x7A b || within 0x30 0x39 b
  match id with
  | [] => false
  | b :: rest => alnum b && rest.length ≤ 31 && rest.all fun c => alnum c || c == 0x2D

/-- `unicode.IsControl`. -/
def isControlRune (r : Nat) : Bool := r < 0x20 || (0x7F ≤ r && r < 0xA0)

def validatePresetText (value : Str) (minRunes maxRunes : Nat) : Except SmartErr Unit :=
  if value ≠ trimSpace value ∨ !validUtf8 value then .error (.text "text is not normalized UTF-8")
  else if (runes value).any isControlRune then
    .error (.text "control characters are not allowed")
  else if (runes value).length < minRunes ∨ (runes value).length > maxRunes then
    .error (.text "text length is outside the allowed range")
  else .ok ()

/-- The programs no preset may name. -/
def blockedProcesses : List Str :=
  List.map ascii ["csrss.exe", "lsass.exe", "services.exe", "smss.exe", "svchost.exe", "wininit.exe",
    "winlogon.exe"]

/-- One process name, after the lower-cased names in `seen`. -/
def presetProcessOk (seen : List Str) (value : Str) : Bool :=
  value == trimSpace value && value.length ≤ 128 &&
    !Conf.containsAny value [0x5C, 0x2F, 0x3A, 0x2A, 0x3F, 0x22, 0x3C, 0x3E, 0x7C] &&
    base value == value && (ascii ".exe").isSuffixOf (toLower value) &&
    !blockedProcesses.elem (toLower value) && !seen.elem (toLower value)

def validatePresetProcesses : List Str → List Str → Except SmartErr Unit
  | _, [] => .ok ()
  | seen, value :: rest =>
    if presetProcessOk seen value then validatePresetProcesses (toLower value :: seen) rest
    else .error (.quoted "invalid, unsafe, or duplicate process" value)

/-- The domain of an entry; a suffix has a dot before it. -/
def presetDomain (isSuffix : Bool) (value : Str) : Str :=
  if isSuffix then trimFront [0x2E] value else value

def validatePresetDomains (env : Env) (isSuffix : Bool) : List Str → List Str → Except SmartErr Unit
  | _, [] => .ok ()
  | seen, value :: rest =>
    if isSuffix && value.head? != some 0x2E then
      .error (.quoted "domain suffix must start with a dot" value)
    else if normalizeDomain env.toASCII (presetDomain isSuffix value) =
        .ok (presetDomain isSuffix value) ∧ value ∉ seen then
      validatePresetDomains env isSuffix (value :: seen) rest
    else .error (.quoted "invalid or duplicate domain" value)

def Service.entryCount (s : Service) : Nat :=
  s.processNames.length + s.domains.length + s.domainSuffixes.length

/-- The texts and entries of one service; `total` counts the entries so far, this one included. -/
def validateService (env : Env) (total : Nat) (s : Service) : Except SmartErr Unit := do
  (validatePresetText s.name 1 64).mapError (.service s.id "name")
  (validatePresetText s.description 1 160).mapError (.service s.id "description")
  if s.processNames.length > 64 ∨ s.domains.length > 256 ∨ s.domainSuffixes.length > 256 then
    .error (.quoted "service has too many route entries" s.id)
  else if total > 4096 ∨ s.entryCount = 0 then
    .error (.text "preset route entry count is invalid")
  else do
    (validatePresetProcesses [] s.processNames).mapError (.service s.id "processes")
    (validatePresetDomains env false [] s.domains).mapError (.service s.id "domains")
    (validatePresetDomains env true [] s.domainSuffixes).mapError (.service s.id "domain suffixes")

/-- The loop over the services: the index, the identifiers seen and the entries so far. -/
def validateServices (env : Env) : Nat → List Str → Nat → List Service → Except SmartErr Unit
  | _, _, _, [] => .ok ()
  | index, seen, total, s :: rest =>
    if !presetIDPattern s.id || seen.elem s.id then
      .error (.text s!"service {index + 1} has an invalid or duplicate ID")
    else
      match validateService env (total + s.entryCount) s with
      | .error e => .error e
      | .ok () => validateServices env (index + 1) (s.id :: seen) (total + s.entryCount) rest

def day : Int := 24 * 60 * 60

/-- `ValidatePresetPayload`. -/
def validatePresetPayload (env : Env) (data : Str) : Except SmartErr PresetPayload :=
  if data = [] ∨ data.length > presetMaxPayload then
    .error (.text "preset payload has an invalid size")
  else
    match env.decodePayload data with
    | .error e => .error (.wrap "decode preset payload" e)
    | .ok payload =>
      if payload.schema ≠ 1 then .error (.text "unsupported preset payload schema")
      else if payload.revision < builtinCatalogRevision then
        .error (.text "preset revision is below the built-in floor")
      else if payload.publishedAt.all fun t => t > env.now + day then
        .error (.text "preset publication time is invalid")
      else if payload.services = [] ∨ payload.services.length > 64 then
        .error (.text "preset service count is invalid")
      else
        match validateServices env 0 [] 0 payload.services with
        | .error e => .error e
        | .ok () =>
          match builtinServiceCatalog.find? fun b => !payload.services.any fun s => s.id == b.id with
          | some b => .error (.quoted "required built-in service is missing" b.id)
          | none => .ok payload

/-- `verifyPresetEnvelope`. -/
def verifyPresetEnvelope (env : Env) (data : Str) : Except SmartErr PresetPayload :=
  if data = [] ∨ data.length > presetMaxEnvelope then
    .error (.text "preset envelope has an invalid size")
  else
    match env.decodeEnvelope data with
    | .error e => .error (.wrap "decode preset envelope" e)
    | .ok envelope =>
      if envelope.schema ≠ 1 ∨ envelope.keyID ≠ presetPublicKeyID then
        .error (.text "preset envelope schema or key ID mismatch")
      else
        match base64Decode envelope.payload with
        | .error _ => .error (.text "preset payload has an invalid encoding or size")
        | .ok payload =>
          if payload = [] ∨ payload.length > presetMaxPayload then
            .error (.text "preset payload has an invalid encoding or size")
          else
            match base64Decode envelope.signature with
            | .error _ => .error (.text "preset signature has an invalid encoding or size")
            | .ok signature =>
              if signature.length ≠ 64 then
                .error (.text "preset signature has an invalid encoding or size")
              else if !env.verifySignature payload signature then
                .error (.text "preset signature verification failed")
              else validatePresetPayload env payload

/-- `verifiedSettingsCatalog`. -/
def verifiedSettingsCatalog (env : Env) (envelope : Str) : Except SmartErr (List Service) :=
  if envelope = [] then .ok builtinServiceCatalog
  else (verifyPresetEnvelope env envelope).map PresetPayload.services

end validation

section sound

/-- What the matching of a service relies on: its programs are files, its domains are not empty,
and its suffixes are a dot and a domain without a dot at its end. -/
structure Service.Sound (s : Service) : Prop where
  processNames : ∀ n ∈ s.processNames, IsFile n
  domains : ∀ d ∈ s.domains, d ≠ []
  domainSuffixes : ∀ x ∈ s.domainSuffixes, ∃ root, x = 0x2E :: root ∧ root ≠ [] ∧
    root.getLast? ≠ some 0x2E ∧ ∀ b ∈ root, isHostChar b = true

/-- The same, as a test. -/
def Service.sound (s : Service) : Bool :=
  s.processNames.all (fun n => IsFile n) && s.domains.all (· ≠ []) &&
    s.domainSuffixes.all fun x => x.head? = some 0x2E ∧ x.tail ≠ [] ∧
      x.tail.getLast? ≠ some 0x2E ∧ x.tail.all isHostChar

theorem Service.sound_of_test (s : Service) (h : s.sound = true) : s.Sound := by
  simp only [Service.sound, Bool.and_eq_true, List.all_eq_true, decide_eq_true_eq] at h
  obtain ⟨⟨hnames, hdomains⟩, hsuffixes⟩ := h
  refine ⟨hnames, hdomains, fun x hx => ?_⟩
  obtain ⟨hhead, hrest⟩ := hsuffixes x hx
  cases x with
  | nil => cases hhead
  | cons b root => exact ⟨root, by rw [Option.some.inj hhead], hrest⟩

theorem builtin_sound : ∀ s ∈ builtinServiceCatalog, s.Sound := by
  have htest : ∀ s ∈ builtinServiceCatalog, s.sound = true := by decide +kernel
  exact fun s hs => s.sound_of_test (htest s hs)

theorem regional_sound : ∀ s ∈ regionalServices, s.Sound := by
  have htest : ∀ s ∈ regionalServices, s.sound = true := by decide +kernel
  exact fun s hs => s.sound_of_test (htest s hs)

theorem validatePresetProcesses_ok (seen names : List Str)
    (h : validatePresetProcesses seen names = .ok ()) : ∀ n ∈ names, IsFile n := by
  induction names generalizing seen with
  | nil => simp
  | cons n names ih =>
    unfold validatePresetProcesses at h
    split at h
    · rename_i hok
      simp only [presetProcessOk, Bool.and_eq_true] at hok
      obtain ⟨⟨⟨⟨⟨⟨-, -⟩, hchars⟩, -⟩, hexe⟩, -⟩, -⟩ := hok
      have hsep : ∀ c ∈ n, isPathSeparator c = false := by
        intro c hc
        have : ¬ c ∈ [0x5C, 0x2F, 0x3A, 0x2A, 0x3F, 0x22, 0x3C, 0x3E, 0x7C] := by
          simp only [Conf.containsAny, Bool.not_eq_true', List.any_eq_false] at hchars
          simpa using hchars c hc
        simp only [List.mem_cons, not_or] at this
        simp [isPathSeparator, this.1, this.2.1]
      exact List.forall_mem_cons.mpr ⟨isFile_of_exe n hsep hexe, ih _ h⟩
    · cases h

theorem validatePresetDomains_ok (env : Env) (isSuffix : Bool) (seen values : List Str)
    (h : validatePresetDomains env isSuffix seen values = .ok ()) :
    ∀ v ∈ values, (isSuffix = true → v.head? = some 0x2E) ∧
      normalizeDomain env.toASCII (presetDomain isSuffix v) = .ok (presetDomain isSuffix v) := by
  induction values generalizing seen with
  | nil => simp
  | cons v values ih =>
    unfold validatePresetDomains at h
    split at h
    · cases h
    rename_i hhead
    split at h
    · rename_i hok
      refine List.forall_mem_cons.mpr ⟨⟨fun hs => ?_, hok.1⟩, ih _ h⟩
      simpa [hs] using hhead
    · cases h

section signed
variable {env : Env} (hlookup : IsLookup env.toASCII)
include hlookup

theorem validateService_sound (total : Nat) (s : Service)
    (h : validateService env total s = .ok ()) : s.Sound := by
  have hmap : ∀ (x : Except SmartErr Unit) (f : SmartErr → SmartErr),
      x.mapError f = .ok () → x = .ok () := by
    intro x f hx
    cases x with
    | error e => cases hx
    | ok u => rfl
  have hbind : ∀ (x : Except SmartErr Unit) (f : Unit → Except SmartErr Unit),
      (x >>= f) = .ok () → x = .ok () ∧ f () = .ok () := by
    intro x f hx
    cases x with
    | error e => cases hx
    | ok u => exact ⟨rfl, hx⟩
  unfold validateService at h
  obtain ⟨-, h⟩ := hbind _ _ h
  obtain ⟨-, h⟩ := hbind _ _ h
  split at h
  · cases h
  split at h
  · cases h
  obtain ⟨hprocesses, h⟩ := hbind _ _ h
  obtain ⟨hdomains, hsuffixes⟩ := hbind _ _ h
  refine ⟨validatePresetProcesses_ok [] _ (hmap _ _ hprocesses), fun d hd => ?_, fun x hx => ?_⟩
  · obtain ⟨-, hd'⟩ := validatePresetDomains_ok env false [] _ (hmap _ _ hdomains) d hd
    exact normalizeDomain_ne_nil _ _ _ hd'
  · obtain ⟨hhead, hw⟩ := validatePresetDomains_ok env true [] _ (hmap _ _ hsuffixes) x hx
    have hdot := hhead rfl
    cases x with
    | nil => cases hdot
    | cons b root =>
      obtain rfl : b = 0x2E := Option.some.inj hdot
      rw [show presetDomain true (0x2E :: root) = root from rfl] at hw
      exact ⟨root, rfl, normalizeDomain_ne_nil _ _ _ hw, normalizeDomain_fixed_last hlookup root hw,
        normalizeDomain_plain hlookup root root hw⟩

theorem validateServices_sound (index total : Nat) (seen : List Str) (services : List Service)
    (h : validateServices env index seen total services = .ok ()) : ∀ s ∈ services, s.Sound := by
  induction services generalizing index total seen with
  | nil => simp
  | cons s services ih =>
    unfold validateServices at h
    split at h
    · cases h
    split at h
    · cases h
    · rename_i hs
      exact List.forall_mem_cons.mpr ⟨validateService_sound hlookup _ s hs, ih _ _ _ h⟩

omit hlookup in
theorem validatePresetPayload_services (data : Str) (payload : PresetPayload)
    (h : validatePresetPayload env data = .ok payload) :
    validateServices env 0 [] 0 payload.services = .ok () := by
  unfold validatePresetPayload at h
  split at h
  · cases h
  split at h
  · cases h
  split at h
  · cases h
  split at h
  · cases h
  split at h
  · cases h
  split at h
  · cases h
  split at h
  · cases h
  rename_i hservices
  split at h
  · cases h
  · cases h
    exact hservices

omit hlookup in
theorem verifyPresetEnvelope_services (data : Str) (payload : PresetPayload)
    (h : verifyPresetEnvelope env data = .ok payload) :
    validateServices env 0 [] 0 payload.services = .ok () := by
  unfold verifyPresetEnvelope at h
  split at h
  · cases h
  split at h
  · cases h
  split at h
  · cases h
  split at h
  · cases h
  split at h
  · cases h
  split at h
  · cases h
  split at h
  · cases h
  split at h
  · cases h
  · exact validatePresetPayload_services _ payload h

omit hlookup in
/-- The catalog of the settings is the built-in one or one whose services were validated. -/
theorem verifiedSettingsCatalog_services (envelope : Str) (catalog : List Service)
    (h : verifiedSettingsCatalog env envelope = .ok catalog) :
    catalog = builtinServiceCatalog ∨ validateServices env 0 [] 0 catalog = .ok () := by
  unfold verifiedSettingsCatalog at h
  split at h
  · cases h
    exact Or.inl rfl
  cases hp : verifyPresetEnvelope env envelope with
  | error e =>
    rw [hp] at h
    cases h
  | ok payload =>
    rw [hp] at h
    cases h
    exact Or.inr (verifyPresetEnvelope_services envelope payload hp)

/-- The services of every catalog the settings can use are sound. -/
theorem verifiedSettingsCatalog_sound (envelope : Str) (catalog : List Service)
    (h : verifiedSettingsCatalog env envelope = .ok catalog) : ∀ s ∈ catalog, s.Sound := by
  rcases verifiedSettingsCatalog_services envelope catalog h with rfl | hservices
  · exact builtin_sound
  · exact validateServices_sound hlookup 0 0 [] _ hservices

end signed

section identifiers

theorem validateServices_ids (env : Env) (index total : Nat) (seen : List Str) (services : List Service)
    (h : validateServices env index seen total services = .ok ()) :
    ∀ s ∈ services, presetIDPattern s.id = true := by
  induction services generalizing index total seen with
  | nil => nofun
  | cons s services ih =>
    unfold validateServices at h
    split at h
    · cases h
    rename_i hid
    split at h
    · cases h
    · refine List.forall_mem_cons.mpr ⟨?_, ih _ _ _ h⟩
      rw [Bool.not_eq_true, Bool.or_eq_false_iff, Bool.not_eq_false'] at hid
      exact hid.1

/-- The identifiers of every catalog keep to the pattern. -/
theorem verifiedSettingsCatalog_ids (env : Env) (envelope : Str) (catalog : List Service)
    (h : verifiedSettingsCatalog env envelope = .ok catalog) : ∀ s ∈ catalog, presetIDPattern s.id = true := by
  rcases verifiedSettingsCatalog_services envelope catalog h with rfl | hservices
  · decide +kernel
  · exact validateServices_ids env 0 0 [] _ hservices

theorem presetIDPattern_bytes (id : Str) (h : presetIDPattern id = true) :
    id ≠ [] ∧ ∀ b ∈ id, isHostChar b = true := by
  have hall : ∀ b : UInt8, (within 0x61 0x7A b || within 0x30 0x39 b || b == 0x2D) = true →
      isHostChar b = true := byte_forall _ (by decide +kernel)
  cases id with
  | nil => cases h
  | cons b id =>
    simp only [presetIDPattern, Bool.and_eq_true, List.all_eq_true] at h
    refine ⟨List.cons_ne_nil _ _, List.forall_mem_cons.mpr ⟨hall b ?_, fun c hc => hall c (h.2 c hc)⟩⟩
    rw [h.1.1, Bool.true_or]

end identifiers

end sound

end SmartAwg.Smart
