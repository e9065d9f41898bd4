import SmartAwg.SmartEnvelope
import SmartAwg.SmartPolicy
import SmartAwg.SmartRuleIDs
import SmartAwg.SmartStableValues

/-!
When normalised settings are their own normal form. Everything that is checked at later times is checked
again with the same result; the rules stay as they are when their values do and when no two of them
were given the same identifier.
-/

namespace SmartAwg.Smart

open Go

section rules
variable {env env' : Env} (hlookup : IsTotalLookup env.toASCII)

/-- Whether the value of a rule stays when it is normalised once more. -/
def CustomRule.Stays (env : Env) (r : CustomRule) : Prop :=
  (r.kind = .application → ProgramStays r.value) ∧ (r.kind = .domain → DomainStays env.toASCII r.value)

instance (env : Env) (r : CustomRule) : Decidable (r.Stays env) :=
  inferInstanceAs (Decidable ((r.kind = .application → ProgramStays r.value) ∧
    (r.kind = .domain → DomainStays env.toASCII r.value)))

include hlookup

theorem normalizeValue_again (henv : env'.toASCII = env.toASCII) (r : CustomRule) (w : Str)
    (h : normalizeValue env r.kind r.value = .ok w) :
    normalizeValue env' r.kind w = .ok w ↔ r.Stays env := by
  unfold CustomRule.Stays
  cases hkind : r.kind with
  | application =>
    rw [hkind] at h
    rw [normalizeValue]
    simpa using normalizeApplication_again r.value w h
  | domain =>
    rw [hkind] at h
    rw [normalizeValue, henv]
    simpa using normalizeDomain_again hlookup r.value w h
  | cidr =>
    rw [hkind] at h
    rw [normalizeValue]
    simpa using normalizeCIDR_again r.value w h
  | other text =>
    rw [hkind] at h
    cases h

/-- A value that stays can be the name of its rule. -/
theorem normalizeValue_trimmed (henv : env'.toASCII = env.toASCII) (kind : RuleKind) (w : Str)
    (h : normalizeValue env' kind w = .ok w) : Trimmed w ∧ w ≠ [] := by
  cases kind with
  | application =>
    have hexe := normalizeApplication_endsExe w w h
    have hlead := ((unquoted_program hexe).2.2.mp (unquoted_of_fixed hexe h)).1
    exact ⟨⟨hlead, hexe.noTrail⟩, hexe.ne_nil⟩
  | domain =>
    rw [normalizeValue, henv] at h
    have hplain := normalizeDomain_plain hlookup.toIsLookup w w h
    exact ⟨trimmed_of_solid w fun b hb => isHostChar_solid b (hplain b hb), normalizeDomain_ne_nil _ _ _ h⟩
  | cidr =>
    obtain ⟨number, bits, hmasked, htext⟩ := normalizeCIDR_text w w h
    rw [htext]
    exact ⟨trimmed_of_solid _ (netText_solid number bits hmasked), by simp [netText]⟩
  | other text => cases h

omit hlookup

/-- A rule as normalisation leaves it, but for its value. -/
structure CustomRule.Tidy (r : CustomRule) : Prop where
  id : Trimmed r.id ∧ r.id ≠ []
  name : Trimmed r.name ∧ r.name ≠ [] ∨ r.name = r.value
  target : r.target = .vpn ∨ r.target = .direct

theorem itoa_solid (n : Nat) : ∀ b ∈ itoa n, Solid b := by
  have hdigit : ∀ b : UInt8, isDigit b = true → Solid b := byte_forall _ (by decide +kernel)
  exact fun b hb => hdigit b (itoa_isDigit n b hb)

theorem CustomRule.askedID_trimmed (index : Nat) (r : CustomRule) :
    Trimmed (r.askedID index) ∧ r.askedID index ≠ [] := by
  unfold CustomRule.askedID
  split
  · refine ⟨trimmed_of_solid _ (List.forall_mem_append.mpr ⟨by decide +kernel, itoa_solid _⟩), ?_⟩
    simp [itoa_ne_nil]
  · rename_i hne
    exact ⟨trimSpace_trimmed _, hne⟩

theorem numberedID_trimmed (id : Str) (index : Nat) (h : Trimmed id) :
    Trimmed (numberedID id index) ∧ numberedID id index ≠ [] := by
  have hdigits := trimmed_of_solid _ (itoa_solid (index + 1))
  refine ⟨⟨?_, ?_⟩, by simp [numberedID]⟩
  · exact (noLead_append_cons id _ 0x2D (by decide)).mpr h.1
  · exact (noTrail_append_cons id _ 0x2D (by decide)).mpr hdigits.2

/-- The rules after normalisation, and which of them keep their values. -/
theorem normalizeRules_values (hlookup : IsTotalLookup env.toASCII) (henv : env'.toASCII = env.toASCII)
    (index : Nat) (ids : List Str) (rules rules' : List CustomRule)
    (h : normalizeRules env index ids rules = .ok rules') :
    (∀ r ∈ rules', r.Tidy) ∧
      ((∀ r ∈ rules', normalizeValue env' r.kind r.value = .ok r.value) ↔ ∀ r ∈ rules, r.Stays env) := by
  induction rules generalizing index ids rules' with
  | nil =>
    cases h
    exact ⟨nofun, Iff.rfl.trans ⟨fun _ => nofun, fun _ => nofun⟩⟩
  | cons rule rules ih =>
    obtain ⟨rule', id, rest, hrule, hid, hrest, rfl⟩ :=
      (normalizeRules_cons_eq_ok env index ids rule rules rules').mp h
    obtain ⟨htidy, hvalues⟩ := ih _ _ _ hrest
    have hasked := CustomRule.normalized_id env index rule rule' hrule
    obtain ⟨value, hvalue, htarget, rfl⟩ := (CustomRule.normalized_eq_ok env index rule rule').mp hrule
    have hagain := normalizeValue_again hlookup henv rule value hvalue
    obtain ⟨htrimmed, hne⟩ := CustomRule.askedID_trimmed index rule
    rw [hasked] at hid
    refine ⟨List.forall_mem_cons.mpr ⟨⟨?_, ?_, htarget⟩, htidy⟩, ?_⟩
    · rw [hid]
      split
      · exact numberedID_trimmed _ index htrimmed
      · exact ⟨htrimmed, hne⟩
    · simp only
      split
      · exact Or.inr rfl
      · rename_i hname
        exact Or.inl ⟨trimSpace_trimmed _, hname⟩
    · rw [List.forall_mem_cons, List.forall_mem_cons, hvalues, ← hagain]

/-- A tidy rule stays when its value does. -/
theorem CustomRule.Tidy.normalized_iff (hlookup : IsTotalLookup env.toASCII)
    (henv : env'.toASCII = env.toASCII) {r : CustomRule} (h : r.Tidy) (index : Nat) :
    r.normalized env' index = .ok r ↔ normalizeValue env' r.kind r.value = .ok r.value := by
  rw [CustomRule.normalized_eq_ok]
  constructor
  · rintro ⟨value, hvalue, -, heq⟩
    have hsame : r.value = value := congrArg CustomRule.value heq
    rwa [← hsame] at hvalue
  · intro hvalue
    have hid := trimSpace_of_trimmed r.id h.id.1
    have hname : Trimmed r.name ∧ r.name ≠ [] := by
      rcases h.name with hname | hname
      · exact hname
      · rw [hname]
        exact normalizeValue_trimmed hlookup henv r.kind r.value hvalue
    refine ⟨r.value, hvalue, h.target, ?_⟩
    rw [hid, if_neg h.id.2, trimSpace_of_trimmed r.name hname.1, if_neg hname.2]

theorem CustomRule.Tidy.askedID_eq {r : CustomRule} (h : r.Tidy) (index : Nat) : r.askedID index = r.id := by
  rw [CustomRule.askedID, trimSpace_of_trimmed r.id h.id.1, if_neg h.id.2]

/-- Tidy rules stay when their values do and their identifiers are different. -/
theorem normalizeRules_again (hlookup : IsTotalLookup env.toASCII) (henv : env'.toASCII = env.toASCII)
    (index : Nat) (ids : List Str) (rules : List CustomRule) (htidy : ∀ r ∈ rules, r.Tidy) :
    normalizeRules env' index ids rules = .ok rules ↔
      (∀ r ∈ rules, normalizeValue env' r.kind r.value = .ok r.value) ∧
        (rules.map CustomRule.id).Nodup ∧ ∀ id ∈ rules.map CustomRule.id, id ∉ ids := by
  induction rules generalizing index ids with
  | nil => exact ⟨fun _ => ⟨nofun, List.nodup_nil, nofun⟩, fun _ => rfl⟩
  | cons rule rules ih =>
    obtain ⟨hrule, hrules⟩ := List.forall_mem_cons.mp htidy
    have hstep := hrule.normalized_iff hlookup henv index
    rw [normalizeRules_cons_eq_ok, List.forall_mem_cons, List.map_cons, List.nodup_cons, List.forall_mem_cons]
    constructor
    · rintro ⟨rule', id, rest, hnormal, hid, hrest, heq⟩
      obtain ⟨hfirst, rfl⟩ := List.cons.inj heq
      have hasked := (CustomRule.normalized_id env' index rule rule' hnormal).trans (hrule.askedID_eq index)
      have hgiven : id = rule.id := (congrArg CustomRule.id hfirst).symm
      have hfree : rule.id ∉ ids := by
        intro hmem
        rw [hgiven, hasked, if_pos (List.elem_iff.mpr hmem)] at hid
        exact absurd hid.symm (by simp)
      have hsame : rule = rule' := by
        rw [hgiven, ← hasked] at hfirst
        exact hfirst
      rw [← hsame] at hnormal
      obtain ⟨hvalues, hnodup, hother⟩ := (ih (index + 1) (id :: ids) hrules).mp hrest
      rw [hgiven] at hother
      exact ⟨⟨hstep.mp hnormal, hvalues⟩, ⟨fun hmem => hother _ hmem List.mem_cons_self, hnodup⟩, hfree,
        fun x hx hmem => hother x hx (List.mem_cons_of_mem _ hmem)⟩
    · rintro ⟨⟨hvalue, hvalues⟩, ⟨hnew, hnodup⟩, hfree, hother⟩
      refine ⟨rule, rule.id, rules, hstep.mpr hvalue, ?_, (ih (index + 1) (rule.id :: ids) hrules).mpr
        ⟨hvalues, hnodup, fun id hid hmem => ?_⟩, rfl⟩
      · rw [if_neg (mt List.elem_iff.mp hfree)]
      · rcases List.mem_cons.mp hmem with rfl | hmem
        · exact hnew hid
        · exact hother id hid hmem

end rules

section settings

/-- Normalised settings are their own normal form, at every later time, exactly when the values of the
rules stay and no number of a rule clashed. -/
theorem normalized_again_iff (env : Env) (hlookup : IsTotalLookup env.toASCII) (t : Int) (ht : env.now ≤ t)
    (s n : RoutingSettings) (h : s.normalized env = .ok n) :
    n.normalized { env with now := t } = .ok n ↔
      NumbersFree s.customRules ∧ ∀ r ∈ s.customRules, r.Stays env := by
  obtain ⟨hversion, hprotection, hlength, hnames, catalog, rules, hcatalog, hrules, rfl⟩ :=
    (RoutingSettings.normalized_eq_ok env s n).mp h
  have hids := normalizeRules_ids_nodup_iff env s.customRules rules hrules
  obtain ⟨htidy, hvalues⟩ := @normalizeRules_values env { env with now := t } hlookup rfl 0 [] _ _ hrules
  have hagain := @normalizeRules_again env { env with now := t } hlookup rfl 0 [] rules htidy
  have happs := knownApps_spec catalog [] (migratedApps env s)
  have hfixed := knownApps_fixed catalog (verifiedSettingsCatalog_ids env _ catalog hcatalog) [] _ happs.1 happs.2
  rw [← hids, ← hvalues, RoutingSettings.normalized_eq_ok]
  constructor
  · rintro ⟨-, -, -, -, catalog', rules', -, hrules', heq⟩
    have hsame : rules = rules' := congrArg RoutingSettings.customRules heq
    rw [← hsame] at hrules'
    obtain ⟨hstay, hnodup, -⟩ := hagain.mp hrules'
    exact ⟨hnodup, hstay⟩
  · rintro ⟨hnodup, hstay⟩
    refine ⟨Int.le_refl _, hprotection, hlength, hnames, catalog, rules,
      verifiedSettingsCatalog_later env t ht _ catalog hcatalog,
      hagain.mpr ⟨hstay, hnodup, fun _ _ => List.not_mem_nil⟩, ?_⟩
    have hcurrent := @migratedApps_of_current { env with now := t } { s with
      mode := (normalizeMode s.mode).text
      version := settingsVersion
      selectedApps := some (knownApps catalog [] (migratedApps env s))
      customRules := rules } rfl
    rw [hcurrent, normalizeMode_text, Option.getD_some, hfixed]

theorem sampleEnv_isTotalLookup : IsTotalLookup sampleEnv.toASCII where
  toIsLookup := sampleEnv_isLookup
  total := fun _ h => if_pos (List.all_eq_true.mpr h)

def ruleFor (id : Str) (kind : RuleKind) (value : Str) : CustomRule := ⟨id, [], kind, value, .vpn, true⟩

/-- Rules of each kind as they may be entered. -/
def enteredRules : List CustomRule :=
  [ruleFor [] .application (ascii "\"C:/Apps/../Tool.EXE\""),
    ruleFor (ascii "d") .domain (ascii "https://*.Example.com./path"),
    ruleFor (ascii " d ") .cidr (ascii "10.1.2.3/8")]

/-- The same rules in normal form. -/
def settledRules : List CustomRule :=
  [⟨ascii "rule-1", ascii "C:\\Tool.EXE", .application, ascii "C:\\Tool.EXE", .vpn, true⟩,
    ⟨ascii "d", ascii "example.com", .domain, ascii "example.com", .vpn, true⟩,
    ⟨ascii "d-3", ascii "10.0.0.0/8", .cidr, ascii "10.0.0.0/8", .vpn, true⟩]

theorem normalized_again_settled :
    (sampleSettings enteredRules).normalized sampleEnv = .ok (sampleSettings settledRules) ∧
      NumbersFree enteredRules ∧ ∀ r ∈ enteredRules, r.Stays sampleEnv := by
  have h : (sampleSettings enteredRules).normalized sampleEnv = .ok (sampleSettings settledRules) := by
    decide +kernel
  exact ⟨h, (normalized_again_iff sampleEnv sampleEnv_isTotalLookup 1 (by decide) _ _ h).mp (by decide +kernel)⟩

/-- Rules that change when they are normalised a second time: a blank behind a quote, a colon left in the
buffer of a path that was shortened, a name that becomes a drive, two dots at the end of a domain, and
identifiers whose numbers clash. -/
def unsettledRules : List (List CustomRule) :=
  [[ruleFor [] .application (ascii "\" foo.exe\"")],
    [ruleFor [] .application (ascii ".\\abcdefgh:\\..\\c.exe")],
    [ruleFor [] .application (ascii "\\x\\..\\:.\\a.exe")],
    [ruleFor [] .domain (ascii "a.b..")],
    clashingRules]

theorem normalized_again_changes :
    (unsettledRules.map fun rules => ((sampleSettings rules).normalized sampleEnv).toOption.map
      fun n => decide (n.normalized sampleEnv = .ok n)) = List.replicate 5 (some false) := by
  decide +kernel

end settings

end SmartAwg.Smart
