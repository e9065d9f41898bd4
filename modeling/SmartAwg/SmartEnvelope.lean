import SmartAwg.GoJsonText
import SmartAwg.SmartPresets
import SmartAwg.SmartSettings

/-!
Stored settings carry the signed catalog as a raw JSON text. The encoder lays this text out anew each time
the settings are written, so the catalog is verified from other bytes than before.
-/

namespace SmartAwg.Smart

open Go

section layout

/-- The texts that the encoder makes of a raw message, on one line or indented. -/
def Relaid (text text' : Str) : Prop :=
  text' = jsonCompact text ∨ ∃ depth, text' = jsonIndent depth (jsonCompact text)

/-- The decoder of envelopes reads a text as before when it has been laid out anew; there is nothing in the
empty text. -/
structure Env.ReadsLayouts (env : Env) : Prop where
  empty : ∀ v, env.decodeEnvelope [] ≠ .ok v
  relaid : ∀ text text' v, Relaid text text' → env.decodeEnvelope text = .ok v →
    env.decodeEnvelope text' = .ok v

theorem Relaid.jsonCompact_eq {text text' : Str} (h : Relaid text text') :
    jsonCompact text' = jsonCompact text := by
  rcases h with rfl | ⟨depth, rfl⟩
  · exact jsonCompact_jsonCompact text
  · rw [jsonCompact_jsonIndent, jsonCompact_jsonCompact]

theorem Relaid.nil {text' : Str} (h : Relaid [] text') : text' = [] := by
  rcases h with rfl | ⟨depth, rfl⟩ <;> rfl

end layout

section texts

def CustomRule.strings (r : CustomRule) : List Str :=
  [r.id, r.name, r.value] ++ (match r.kind with | .other text => [text] | _ => []) ++
    match r.target with | .other text => [text] | _ => []

/-- The strings of the settings; the envelope is not one of them. -/
def RoutingSettings.strings (s : RoutingSettings) : List Str :=
  s.serviceRoutes.flatMap (fun routes => routes.1 :: routes.2.map Prod.fst) ++ s.fallbackProfiles ++
    [s.protection, s.mode] ++ s.selectedApps.getD [] ++ s.customRules.flatMap CustomRule.strings

/-- The settings as `json.Marshal` writes them. -/
def RoutingSettings.compacted (s : RoutingSettings) : RoutingSettings :=
  { s with catalogEnvelope := jsonCompact s.catalogEnvelope }

theorem RoutingSettings.compacted_compacted (s : RoutingSettings) : s.compacted.compacted = s.compacted := by
  simp only [RoutingSettings.compacted, jsonCompact_jsonCompact]

end texts

section catalog
variable {env : Env} {text text' : Str}

/-- The catalog of the settings is accepted at every later time. -/
theorem verifiedSettingsCatalog_later (env : Env) (t : Int) (ht : env.now ≤ t) (envelope : Str)
    (catalog : List Service) (h : verifiedSettingsCatalog env envelope = .ok catalog) :
    verifiedSettingsCatalog { env with now := t } envelope = .ok catalog := by
  unfold verifiedSettingsCatalog at h ⊢
  split at h
  · rename_i hnil
    rw [if_pos hnil, h]
  · rename_i hnil
    rw [if_neg hnil]
    cases hp : verifyPresetEnvelope env envelope with
    | error e =>
      rw [hp] at h
      cases h
    | ok payload =>
      rw [hp] at h
      have hlater := verifyPresetEnvelope_later ⟨env, fun _ => none, id⟩ ht hp
      have hclock : PresetEnv.clock ⟨env, fun _ => none, id⟩ t = { env with now := t } := rfl
      rw [← hclock, hlater, h]

theorem verifyPresetEnvelope_decoded {payload : PresetPayload} (h : verifyPresetEnvelope env text = .ok payload) :
    ∃ v, env.decodeEnvelope text = .ok v := by
  unfold verifyPresetEnvelope at h
  split at h
  · cases h
  split at h
  · cases h
  · exact ⟨_, by assumption⟩

/-- Texts with the same envelope differ only in their size. -/
theorem verifyPresetEnvelope_same (hdecode : env.decodeEnvelope text' = env.decodeEnvelope text)
    (hne : text' ≠ []) (hfits : text'.length ≤ presetMaxEnvelope) {payload : PresetPayload}
    (h : verifyPresetEnvelope env text = .ok payload) : verifyPresetEnvelope env text' = .ok payload := by
  unfold verifyPresetEnvelope at h ⊢
  split at h
  · cases h
  · rw [if_neg (not_or.mpr ⟨hne, Nat.not_lt.mpr hfits⟩), hdecode]
    exact h

theorem verifyPresetEnvelope_fits {payload : PresetPayload} (h : verifyPresetEnvelope env text = .ok payload) :
    text.length ≤ presetMaxEnvelope := by
  unfold verifyPresetEnvelope at h
  split at h
  · cases h
  · rename_i hsize
    exact Nat.not_lt.mp (not_or.mp hsize).2

/-- An accepted envelope that is laid out anew is accepted again when it is not too long. -/
theorem verifiedSettingsCatalog_relaid (henv : env.ReadsLayouts) (hrelaid : Relaid text text')
    {catalog : List Service} (h : verifiedSettingsCatalog env text = .ok catalog) (t : Int) (ht : env.now ≤ t)
    (catalog' : List Service) :
    verifiedSettingsCatalog { env with now := t } text' = .ok catalog' ↔
      text'.length ≤ presetMaxEnvelope ∧ catalog' = catalog := by
  by_cases hnil : text = []
  · rw [hnil] at hrelaid h
    have hlater := verifiedSettingsCatalog_later env t ht _ catalog h
    rw [hrelaid.nil, hlater, Except.ok.injEq, eq_comm]
    exact (and_iff_right (Nat.zero_le _)).symm
  · have hlater := verifiedSettingsCatalog_later env t ht _ catalog h
    rw [verifiedSettingsCatalog, if_neg hnil] at h hlater
    cases hp : verifyPresetEnvelope { env with now := t } text with
    | error e =>
      rw [hp] at hlater
      cases hlater
    | ok payload =>
      rw [hp] at hlater
      obtain ⟨v, hv⟩ := verifyPresetEnvelope_decoded hp
      have hv' := henv.relaid _ _ v hrelaid hv
      have hne : text' ≠ [] := by
        intro hempty
        rw [hempty] at hv'
        exact henv.empty v hv'
      have hsame := fun hfits => @verifyPresetEnvelope_same { env with now := t } text text'
        (hv'.trans hv.symm) hne hfits payload hp
      rw [verifiedSettingsCatalog, if_neg hne]
      constructor
      · intro haccept
        cases hp' : verifyPresetEnvelope { env with now := t } text' with
        | error e =>
          rw [hp'] at haccept
          cases haccept
        | ok payload' =>
          have hfits := verifyPresetEnvelope_fits hp'
          rw [hsame hfits] at haccept
          exact ⟨hfits, Except.ok.inj (haccept.symm.trans hlater)⟩
      · rintro ⟨hfits, rfl⟩
        rw [hsame hfits]
        exact hlater

end catalog

section settings
variable {env env' : Env}

/-- Of the environment, the rules use only the name conversion. -/
theorem normalizeRules_congr (henv : env'.toASCII = env.toASCII) (index : Nat) (ids : List Str)
    (rules : List CustomRule) : normalizeRules env' index ids rules = normalizeRules env index ids rules := by
  have hvalue : ∀ kind value, normalizeValue env' kind value = normalizeValue env kind value := by
    intro kind value
    cases kind with
    | domain => rw [normalizeValue, normalizeValue, henv]
    | application => rfl
    | cidr => rfl
    | other text => rfl
  induction rules generalizing index ids with
  | nil => rfl
  | cons rule rules ih => simp only [normalizeRules, CustomRule.normalized, hvalue, ih]

/-- Settings that were accepted are accepted with the envelope laid out anew, at every later time, when it
is not too long; nothing else of their normal form changes. -/
theorem RoutingSettings.normalized_relaid (henv : env.ReadsLayouts) {s n : RoutingSettings} {text' : Str}
    (hrelaid : Relaid s.catalogEnvelope text') (h : s.normalized env = .ok n) (t : Int) (ht : env.now ≤ t)
    (n' : RoutingSettings) :
    { s with catalogEnvelope := text' }.normalized { env with now := t } = .ok n' ↔
      text'.length ≤ presetMaxEnvelope ∧ n' = { n with catalogEnvelope := text' } := by
  obtain ⟨hversion, hprotection, hlength, hnames, catalog, rules, hcatalog, hrules, rfl⟩ :=
    (RoutingSettings.normalized_eq_ok env s n).mp h
  have hrules' : normalizeRules { env with now := t } 0 [] s.customRules = .ok rules :=
    (@normalizeRules_congr env { env with now := t } rfl 0 [] s.customRules).trans hrules
  have haccept := verifiedSettingsCatalog_relaid henv hrelaid hcatalog t ht
  rw [RoutingSettings.normalized_eq_ok]
  constructor
  · rintro ⟨-, -, -, -, catalog', rules', hcatalog', hsame, rfl⟩
    obtain ⟨hfits, rfl⟩ := (haccept catalog').mp hcatalog'
    obtain rfl : rules' = rules := Except.ok.inj (hsame.symm.trans hrules')
    exact ⟨hfits, rfl⟩
  · rintro ⟨hfits, rfl⟩
    exact ⟨hversion, hprotection, hlength, hnames, catalog, rules, (haccept catalog).mpr ⟨hfits, rfl⟩, hrules', rfl⟩

end settings

end SmartAwg.Smart
