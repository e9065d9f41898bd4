import SmartAwg.SmartCatalog

/-!
The routing settings of a tunnel and their normal form.
-/

namespace SmartAwg.Smart

open Go

section types

inductive Mode where
  | all
  | selected
  deriving DecidableEq

def Mode.text : Mode → Str
  | .all => ascii "all"
  | .selected => ascii "selected"

/-- The kinds of rules; stored settings can hold any other text. -/
inductive RuleKind where
  | application
  | domain
  | cidr
  | other (text : Str)
  deriving DecidableEq

inductive RouteTarget where
  | vpn
  | direct
  | other (text : Str)
  deriving DecidableEq

structure CustomRule where
  id : Str
  name : Str
  kind : RuleKind
  value : Str
  target : RouteTarget
  enabled : Bool
  deriving DecidableEq

/-- The settings as they are stored: the mode is still a text, and the selection can be missing. -/
structure RoutingSettings where
  serviceRoutes : List (Str × List (Str × Bool))
  catalogEnvelope : Str
  fallbackProfiles : List Str
  protection : Str
  version : Int
  mode : Str
  selectedApps : Option (List Str)
  customRules : List CustomRule
  deriving DecidableEq

end types

section normalization

def settingsVersion : Int := 5

def aiServiceID : Str := ascii "ai"

def legacyDefaultServiceIDs : List Str :=
  List.map ascii ["discord", "youtube", "telegram", "instagram"]

def normalizeMode (mode : Str) : Mode :=
  let mode := toLower (trimSpace mode)
  if mode = ascii "selected" ∨ mode = ascii "social" then .selected
  else if mode = ascii "bypass" then .all
  else if mode = ascii "native" then .selected
  else .all

theorem normalizeMode_text (mode : Mode) : normalizeMode mode.text = mode := by
  cases mode <;> decide +kernel

def defaultServiceIDs (env : Env) : List Str := env.serviceCatalog.map Service.id

def defaultSettings (env : Env) : RoutingSettings where
  serviceRoutes := []
  catalogEnvelope := []
  fallbackProfiles := []
  protection := []
  version := settingsVersion
  mode := Mode.all.text
  selectedApps := some (defaultServiceIDs env)
  customRules := []

def normalizeID (id : Str) : Str := toLower (trimSpace id)

def selectedExactlyMatches (values expected : List Str) : Bool :=
  values.all (fun v => expected.elem (normalizeID v)) &&
    (values.map normalizeID).dedup.length == expected.dedup.length

/-- The value of a rule in the normal form of its kind. -/
def normalizeValue (env : Env) : RuleKind → Str → Except SmartErr Str
  | .application, value => normalizeApplication value
  | .domain, value => normalizeDomain env.toASCII value
  | .cidr, value => normalizeCIDR value
  | .other _, _ => .error (.text "неизвестный тип правила")

/-- `CustomRule.normalized`. -/
def CustomRule.normalized (env : Env) (index : Nat) (rule : CustomRule) :
    Except SmartErr CustomRule :=
  let id := trimSpace rule.id
  let name := trimSpace rule.name
  match normalizeValue env rule.kind rule.value with
  | .error e => .error e
  | .ok value =>
    if rule.target ≠ .vpn ∧ rule.target ≠ .direct then
      .error (.text "неизвестное направление правила")
    else .ok { rule with
      id := if id = [] then ascii "rule-" ++ itoa (index + 1) else id
      name := if name = [] then value else name
      value := value }

/-- The loop over the rules: the index, and the identifiers given so far. -/
def normalizeRules (env : Env) : Nat → List Str → List CustomRule →
    Except SmartErr (List CustomRule)
  | _, _, [] => .ok []
  | index, ids, rule :: rest =>
    match rule.normalized env index with
    | .error e => .error (.wrap s!"правило {index + 1}" e)
    | .ok rule =>
      let id := if ids.elem rule.id then rule.id ++ 0x2D :: itoa (index + 1) else rule.id
      (normalizeRules env (index + 1) (id :: ids) rest).map ({ rule with id := id } :: ·)

/-- The selection of older versions: a missing one is the default, and the four services of the
first releases are joined by the fifth. -/
def migratedApps (env : Env) (s : RoutingSettings) : List Str :=
  let legacyMode := s.mode = ascii "social" ∨ s.mode = ascii "native"
  let apps :=
    if s.version = 0 ∧ (s.selectedApps = none ∨ legacyMode) then defaultServiceIDs env
    else s.selectedApps.getD []
  if 0 < s.version ∧ s.version < settingsVersion ∧
      selectedExactlyMatches apps legacyDefaultServiceIDs then apps ++ [aiServiceID]
  else apps

/-- The identifiers of known services, each once; `seen` holds those before. -/
def knownApps (catalog : List Service) : List Str → List Str → List Str
  | _, [] => []
  | seen, app :: rest =>
    let id := normalizeID app
    if catalog.any (fun s => s.id == id) && !seen.elem id then
      id :: knownApps catalog (id :: seen) rest
    else knownApps catalog seen rest

/-- `RoutingSettings.Normalized`. -/
def RoutingSettings.normalized (env : Env) (s : RoutingSettings) :
    Except SmartErr RoutingSettings :=
  if s.version > settingsVersion then .error (.text "unsupported settings version")
  else if s.protection ≠ [] ∧ s.protection ≠ ascii "all" then
    .error (.text "unknown protection policy")
  else if s.fallbackProfiles.length > 8 then .error (.text "не более 8 резервных профилей")
  else if s.fallbackProfiles.any fun name => !Conf.tunnelNameIsValid name then
    .error (.text "неверное имя резервного профиля")
  else
    match verifiedSettingsCatalog env s.catalogEnvelope with
    | .error e => .error e
    | .ok catalog =>
      match normalizeRules env 0 [] s.customRules with
      | .error e => .error e
      | .ok rules => .ok { s with
          mode := (normalizeMode s.mode).text
          version := settingsVersion
          selectedApps := some (knownApps catalog [] (migratedApps env s))
          customRules := rules }

def maxSettingsSize : Nat := 1024 * 1024

/-- `ParseSettingsPayload`; `decode` is the JSON decoder for settings. A payload that is not an
object is a mode of the first releases. -/
def parseSettingsPayload (env : Env) (decode : Str → Except SmartErr RoutingSettings) (raw : Str) :
    Except SmartErr RoutingSettings :=
  if raw.length > maxSettingsSize then .error (.text "настройки превышают 1 МБ")
  else
    let raw := trimSpace raw
    if raw.head? ≠ some 0x7B then
      { defaultSettings env with mode := (normalizeMode raw).text }.normalized env
    else
      match decode raw with
      | .error e => .error (.wrap "не удалось прочитать настройки маршрутизации" e)
      | .ok settings => settings.normalized env

end normalization

section choices

def RoutingSettings.enabledRules (s : RoutingSettings) : List CustomRule :=
  s.customRules.filter CustomRule.enabled

def hasEnabledCustomRules (s : RoutingSettings) : Bool := s.customRules.any CustomRule.enabled

/-- `RoutingSettings.ServiceUsesVPN`. -/
def RoutingSettings.serviceUsesVPN (s : RoutingSettings) (id : Str) : Bool :=
  if isRegionalService id then
    match (s.serviceRoutes.lookup (normalizeMode s.mode).text).bind (List.lookup id) with
    | some enabled => enabled
    | none => normalizeMode s.mode = .all
  else if normalizeMode s.mode = .all then true
  else (s.selectedApps.getD []).elem id

def hasDirectServiceExceptions (s : RoutingSettings) : Bool :=
  normalizeMode s.mode = .all &&
    (!s.serviceUsesVPN vkServiceID || !s.serviceUsesVPN russianServiceID)

/-- `RoutingSettings.SelectedServices`. -/
def RoutingSettings.selectedServices (env : Env) (s : RoutingSettings) : List Service :=
  match verifiedSettingsCatalog env s.catalogEnvelope with
  | .error _ => []
  | .ok catalog => catalog.filter fun v => (s.selectedApps.getD []).elem v.id

/-- `usesNativeTunnel` of the manager: the settings that need no rules. -/
def usesNativeTunnel (s : RoutingSettings) : Bool :=
  normalizeMode s.mode = .all && !hasEnabledCustomRules s && !hasDirectServiceExceptions s &&
    s.protection = [] && s.fallbackProfiles = []

end choices

section normal

/-- A rule in normal form: its value is a normal form of its kind, and its target is known. -/
structure CustomRule.Normal (env : Env) (rule : CustomRule) : Prop where
  value : ∃ value, normalizeValue env rule.kind value = .ok rule.value
  target : rule.target = .vpn ∨ rule.target = .direct

/-- What a rule is checked for, and what changes in it. -/
theorem CustomRule.normalized_eq_ok (env : Env) (index : Nat) (rule rule' : CustomRule) :
    rule.normalized env index = .ok rule' ↔
      ∃ value, normalizeValue env rule.kind rule.value = .ok value ∧
        (rule.target = .vpn ∨ rule.target = .direct) ∧
        rule' = { rule with
          id := if trimSpace rule.id = [] then ascii "rule-" ++ itoa (index + 1) else trimSpace rule.id
          name := if trimSpace rule.name = [] then value else trimSpace rule.name
          value := value } := by
  unfold CustomRule.normalized
  simp only
  constructor
  · intro h
    split at h
    · cases h
    rename_i value hvalue
    split at h
    · cases h
    rename_i htarget
    cases h
    refine ⟨value, hvalue, ?_, rfl⟩
    by_contra hnot
    exact htarget (not_or.mp hnot)
  · rintro ⟨value, hvalue, htarget, rfl⟩
    rw [hvalue]
    simp only
    rw [if_neg fun h => htarget.elim h.1 h.2]

theorem CustomRule.normalized_ok (env : Env) (index : Nat) (rule rule' : CustomRule)
    (h : rule.normalized env index = .ok rule') :
    rule'.Normal env ∧ rule'.enabled = rule.enabled := by
  obtain ⟨value, hvalue, htarget, rfl⟩ := (CustomRule.normalized_eq_ok env index rule rule').mp h
  exact ⟨⟨⟨rule.value, hvalue⟩, htarget⟩, rfl⟩

/-- One round of the loop over the rules. -/
theorem normalizeRules_cons_eq_ok (env : Env) (index : Nat) (ids : List Str) (rule : CustomRule)
    (rules rules' : List CustomRule) :
    normalizeRules env index ids (rule :: rules) = .ok rules' ↔
      ∃ rule' id rest, rule.normalized env index = .ok rule' ∧
        id = (if ids.elem rule'.id then rule'.id ++ 0x2D :: itoa (index + 1) else rule'.id) ∧
        normalizeRules env (index + 1) (id :: ids) rules = .ok rest ∧
        rules' = { rule' with id := id } :: rest := by
  rw [normalizeRules]
  constructor
  · intro h
    split at h
    · cases h
    rename_i rule' hrule
    simp only at h
    generalize hid : (if ids.elem rule'.id then rule'.id ++ 0x2D :: itoa (index + 1) else rule'.id) = id
      at h
    cases hrest : normalizeRules env (index + 1) (id :: ids) rules with
    | error e =>
      rw [hrest] at h
      cases h
    | ok rest =>
      rw [hrest] at h
      cases h
      exact ⟨rule', id, rest, hrule, hid.symm, hrest, rfl⟩
  · rintro ⟨rule', id, rest, hrule, hid, hrest, rfl⟩
    rw [hrule]
    simp only
    rw [← hid, hrest]
    rfl

/-- The rules keep their order and their switches; only the identifiers can change once more. -/
theorem normalizeRules_ok (env : Env) (index : Nat) (ids : List Str) (rules rules' : List CustomRule)
    (h : normalizeRules env index ids rules = .ok rules') :
    (∀ r ∈ rules', r.Normal env) ∧
      rules'.map CustomRule.enabled = rules.map CustomRule.enabled := by
  induction rules generalizing index ids rules' with
  | nil =>
    cases h
    exact ⟨by simp, rfl⟩
  | cons rule rules ih =>
    obtain ⟨rule', id, rest, hrule, -, hrest, rfl⟩ :=
      (normalizeRules_cons_eq_ok env index ids rule rules rules').mp h
    obtain ⟨hnormal, henabled⟩ := CustomRule.normalized_ok env index rule rule' hrule
    obtain ⟨hnormals, hswitches⟩ := ih _ _ _ hrest
    refine ⟨List.forall_mem_cons.mpr ⟨⟨hnormal.value, hnormal.target⟩, hnormals⟩, ?_⟩
    rw [List.map_cons, List.map_cons, hswitches, henabled]

/-- A rule that is kept comes from one with the same switch and the same target. -/
theorem normalizeRules_source (env : Env) (index : Nat) (ids : List Str)
    (rules rules' : List CustomRule) (h : normalizeRules env index ids rules = .ok rules')
    (r : CustomRule) (hr : r ∈ rules') :
    ∃ r₀ ∈ rules, r₀.enabled = r.enabled ∧ r₀.target = r.target := by
  induction rules generalizing index ids rules' with
  | nil =>
    cases h
    cases hr
  | cons rule rules ih =>
    obtain ⟨rule', id, rest, hrule, -, hrest, rfl⟩ :=
      (normalizeRules_cons_eq_ok env index ids rule rules rules').mp h
    rcases List.mem_cons.mp hr with rfl | hr
    · obtain ⟨value, -, -, rfl⟩ := (CustomRule.normalized_eq_ok env index rule rule').mp hrule
      exact ⟨rule, List.mem_cons_self, rfl, rfl⟩
    · obtain ⟨r₀, hr₀, hsame⟩ := ih _ _ _ hrest hr
      exact ⟨r₀, List.mem_cons_of_mem _ hr₀, hsame⟩

/-- What the readers of normal settings rely on. -/
structure RoutingSettings.Normal (env : Env) (s n : RoutingSettings) : Prop where
  mode : n.mode = (normalizeMode s.mode).text
  rules : ∀ r ∈ n.customRules, r.Normal env
  switches : n.customRules.map CustomRule.enabled = s.customRules.map CustomRule.enabled
  routes : n.serviceRoutes = s.serviceRoutes
  catalog : ∃ catalog, verifiedSettingsCatalog env n.catalogEnvelope = .ok catalog

/-- All that is checked, and all that changes. -/
theorem RoutingSettings.normalized_eq_ok (env : Env) (s n : RoutingSettings) :
    s.normalized env = .ok n ↔ s.version ≤ settingsVersion ∧
      (s.protection = [] ∨ s.protection = ascii "all") ∧ s.fallbackProfiles.length ≤ 8 ∧
      (∀ name ∈ s.fallbackProfiles, Conf.tunnelNameIsValid name = true) ∧
      ∃ catalog rules, verifiedSettingsCatalog env s.catalogEnvelope = .ok catalog ∧
        normalizeRules env 0 [] s.customRules = .ok rules ∧
        n = { s with
          mode := (normalizeMode s.mode).text
          version := settingsVersion
          selectedApps := some (knownApps catalog [] (migratedApps env s))
          customRules := rules } := by
  unfold RoutingSettings.normalized
  constructor
  · intro h
    split at h
    · cases h
    rename_i hversion
    split at h
    · cases h
    rename_i hprotection
    split at h
    · cases h
    rename_i hlength
    split at h
    · cases h
    rename_i hnames
    split at h
    · cases h
    rename_i catalog hcatalog
    split at h
    · cases h
    rename_i rules hrules
    cases h
    refine ⟨Int.not_lt.mp hversion, ?_, Nat.not_lt.mp hlength, ?_, catalog, rules, hcatalog, hrules, rfl⟩
    · by_contra hne
      exact hprotection (not_or.mp hne)
    · simpa using hnames
  · rintro ⟨hversion, hprotection, hlength, hnames, catalog, rules, hcatalog, hrules, rfl⟩
    rw [if_neg (Int.not_lt.mpr hversion), if_neg fun h => hprotection.elim h.1 h.2,
      if_neg (Nat.not_lt.mpr hlength), if_neg (by simpa using hnames), hcatalog]
    simp only [hrules]

theorem RoutingSettings.normalized_ok (env : Env) (s n : RoutingSettings)
    (h : s.normalized env = .ok n) : RoutingSettings.Normal env s n := by
  obtain ⟨-, -, -, -, catalog, rules, hcatalog, hrules, rfl⟩ :=
    (RoutingSettings.normalized_eq_ok env s n).mp h
  obtain ⟨hnormal, hswitches⟩ := normalizeRules_ok env 0 [] _ _ hrules
  exact ⟨rfl, hnormal, hswitches, rfl, catalog, hcatalog⟩

variable {env : Env} {s n : RoutingSettings}

theorem RoutingSettings.Normal.normalizeMode_eq (h : RoutingSettings.Normal env s n) :
    normalizeMode n.mode = normalizeMode s.mode := by
  rw [h.mode, normalizeMode_text]

theorem RoutingSettings.Normal.mode_selected (h : RoutingSettings.Normal env s n) :
    n.mode = Mode.selected.text ↔ normalizeMode s.mode = .selected := by
  rw [h.mode]
  refine ⟨fun htext => ?_, congrArg Mode.text⟩
  have := congrArg normalizeMode htext
  rwa [normalizeMode_text, normalizeMode_text] at this

theorem RoutingSettings.Normal.hasEnabledCustomRules_eq (h : RoutingSettings.Normal env s n) :
    hasEnabledCustomRules n = hasEnabledCustomRules s := by
  have hany : ∀ rules : List CustomRule,
      rules.any CustomRule.enabled = (rules.map CustomRule.enabled).any id := fun rules => by
    rw [List.any_map, Function.id_comp]
  rw [hasEnabledCustomRules, hasEnabledCustomRules, hany, hany, h.switches]

/-- The regional services are routed as the stored settings say. -/
theorem RoutingSettings.Normal.serviceUsesVPN_eq (h : RoutingSettings.Normal env s n) (id : Str)
    (hid : isRegionalService id = true) : n.serviceUsesVPN id = s.serviceUsesVPN id := by
  rw [RoutingSettings.serviceUsesVPN, RoutingSettings.serviceUsesVPN, if_pos hid, if_pos hid,
    h.normalizeMode_eq, h.routes]

/-- The selected services are sound ones. -/
theorem RoutingSettings.selectedServices_sound (hlookup : IsLookup env.toASCII)
    (s : RoutingSettings) : ∀ v ∈ s.selectedServices env, v.Sound := by
  intro v hv
  unfold RoutingSettings.selectedServices at hv
  split at hv
  · cases hv
  · rename_i catalog hcatalog
    exact verifiedSettingsCatalog_sound hlookup _ catalog hcatalog v (List.mem_filter.mp hv).1

theorem mem_enabledRules (r : CustomRule) : r ∈ s.enabledRules ↔ r ∈ s.customRules ∧ r.enabled :=
  List.mem_filter

/-- Normalising once more finds nothing to migrate, so no service is selected anew. -/
theorem migratedApps_of_current (hversion : s.version = settingsVersion) :
    migratedApps env s = s.selectedApps.getD [] := by
  unfold migratedApps
  simp only [hversion]
  rw [if_neg fun h => absurd h.2.1 (by decide), if_neg fun h => absurd h.1 (by decide)]

/-- The identifiers of a catalog are their own normal form. -/
theorem normalizeID_of_pattern (id : Str) (h : presetIDPattern id = true) : normalizeID id = id := by
  obtain ⟨-, hbytes⟩ := presetIDPattern_bytes id h
  rw [normalizeID, trimSpace_of_trimmed id (trimmed_of_solid id fun b hb => isHostChar_solid b (hbytes b hb)),
    toLower_plain id hbytes]

/-- What is selected: known identifiers in normal form, each once and none seen before. -/
theorem knownApps_spec (catalog : List Service) (seen apps : List Str) :
    (knownApps catalog seen apps).Nodup ∧ ∀ id ∈ knownApps catalog seen apps,
      id ∉ seen ∧ ∃ v ∈ catalog, v.id = id := by
  induction apps generalizing seen with
  | nil => exact ⟨List.nodup_nil, nofun⟩
  | cons app apps ih =>
    rw [knownApps]
    split
    · rename_i hknown
      obtain ⟨hany, hseen⟩ := Bool.and_eq_true_iff.mp hknown
      obtain ⟨v, hv, hid⟩ := List.any_eq_true.mp hany
      obtain ⟨hnodup, hrest⟩ := ih (normalizeID app :: seen)
      refine ⟨List.nodup_cons.mpr ⟨fun hmem => (hrest _ hmem).1 List.mem_cons_self, hnodup⟩,
        List.forall_mem_cons.mpr ⟨⟨by simpa using hseen, v, hv, beq_iff_eq.mp hid⟩, fun id hmem => ?_⟩⟩
      obtain ⟨hnew, hcatalog⟩ := hrest id hmem
      exact ⟨fun hold => hnew (List.mem_cons_of_mem _ hold), hcatalog⟩
    · exact ih seen

theorem knownApps_fixed (catalog : List Service) (hids : ∀ v ∈ catalog, presetIDPattern v.id = true)
    (seen apps : List Str) (hnodup : apps.Nodup)
    (happs : ∀ id ∈ apps, id ∉ seen ∧ ∃ v ∈ catalog, v.id = id) : knownApps catalog seen apps = apps := by
  induction apps generalizing seen with
  | nil => rfl
  | cons app apps ih =>
    obtain ⟨hnew, hnodup⟩ := List.nodup_cons.mp hnodup
    obtain ⟨⟨hseen, v, hv, hid⟩, hrest⟩ := List.forall_mem_cons.mp happs
    have hnormal : normalizeID app = app := hid ▸ normalizeID_of_pattern v.id (hids v hv)
    have hknown : (catalog.any (fun s => s.id == app) && !seen.elem app) = true := by
      rw [Bool.and_eq_true]
      exact ⟨List.any_eq_true.mpr ⟨v, hv, beq_iff_eq.mpr hid⟩, by simpa using hseen⟩
    rw [knownApps, hnormal, if_pos hknown, ih (app :: seen) hnodup fun id hmem => ?_]
    obtain ⟨hold, hcatalog⟩ := hrest id hmem
    refine ⟨fun hseen' => ?_, hcatalog⟩
    rcases List.mem_cons.mp hseen' with rfl | hseen'
    · exact hnew hmem
    · exact hold hseen'

end normal

section samples

/-- A system without services to choose from. -/
def plainEnv : Env where
  toASCII := some
  decodeEnvelope := fun _ => .error (.text "no envelope")
  decodePayload := fun _ => .error (.text "no payload")
  verifySignature := fun _ _ => false
  serviceCatalog := []
  now := 0

def allTraffic (protection : Str) : RoutingSettings where
  serviceRoutes := []
  catalogEnvelope := []
  fallbackProfiles := []
  protection := protection
  version := settingsVersion
  mode := Mode.all.text
  selectedApps := some []
  customRules := []

def guardedSettings : RoutingSettings := allTraffic (ascii "all")

def plainSettings : RoutingSettings := allTraffic []

end samples

end SmartAwg.Smart
