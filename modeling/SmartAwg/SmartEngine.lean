import SmartAwg.FirstMatch
import SmartAwg.SmartBuild

/-!
How the engine reads its configuration: rules are tried in order, the first final one that applies
decides. The engine is not part of the repository; this is the part of its documented behaviour
that the rules rely on. Over it, what the rules say in terms of the settings.
-/

namespace SmartAwg.Smart

open Go FirstMatch

section engine

/-- What is known about a connection. -/
structure Connection where
  process : Option Str
  domain : Option Str
  ip : Option Str
  protocol : Option Str

namespace Connection
variable (c : Connection)

def hasName (names : List Str) : Bool := c.process.any fun app => names.any (equalFold (base app))

def hasPath (paths : List Str) : Bool :=
  c.process.any fun app => paths.any fun path => equalFold (clean app) (clean path)

def hasDomain (domains : List Str) : Bool := c.domain.any fun d => domains.elem d

def hasSuffix (suffixes : List Str) : Bool :=
  c.domain.any fun d => suffixes.any fun suffix => suffix.isSuffixOf d

def inNetworks (cidrs : List Str) : Bool := c.ip.any fun ip => cidrs.any (cidrContains · ip)

def hasVersion (version : Nat) : Bool :=
  c.ip.any fun ip => version == if isIPv4 ip then 4 else 6

end Connection

/-- The fields on the destination are alternatives. -/
def RouteRule.destinationApplies (r : RouteRule) (c : Connection) : Bool :=
  r.domain.isNone && r.domainSuffix.isNone && r.ipCidr.isNone ||
    (r.domain.any c.hasDomain || r.domainSuffix.any c.hasSuffix || r.ipCidr.any c.inNetworks)

def RouteRule.applies (r : RouteRule) (c : Connection) : Bool :=
  r.processName.all c.hasName && r.processPath.all c.hasPath && r.destinationApplies c &&
    r.ipVersion.all c.hasVersion && r.protocol.all fun p => c.protocol == some p

inductive Verdict where
  | outbound (o : Outbound)
  | reject
  deriving DecidableEq

/-- The end of a connection, when an action is one. -/
def Action.final : Action → Option Verdict
  | .sniff _ => none
  | .hijackDNS => none
  | .route o => some (.outbound o)
  | .reject => some .reject

def RouteRule.decides (r : RouteRule) (c : Connection) : Bool :=
  r.action.final.isSome && r.applies c

def RouteRule.verdict (r : RouteRule) : Verdict := r.action.final.getD .reject

def RouteOptions.verdict (route : RouteOptions) (c : Connection) : Verdict :=
  firstMatch (·.decides c) RouteRule.verdict route.rules (.outbound route.final)

def DnsRule.applies (r : DnsRule) (d : Str) : Bool :=
  r.domain.elem d || r.domainSuffix.any fun suffixes => suffixes.any fun x => x.isSuffixOf d

/-- The tag of the server that resolves a name. -/
def DnsOptions.resolver (dns : DnsOptions) (d : Str) : Str :=
  firstMatch (·.applies d) DnsRule.server dns.rules dns.final

end engine

section meaning

/-- A domain and all domains below it, the value taken as it is. -/
def coversDomain (value d : Str) : Bool := d == value || (0x2E :: value).isSuffixOf d

/-- Whether a rule is about a connection; `reads` says which domains a value covers. -/
def CustomRule.matchesAs (reads : Str → Str → Bool) (r : CustomRule) (c : Connection) : Bool :=
  match r.kind with
  | .application => if isPath r.value then c.hasPath [r.value] else c.hasName [r.value]
  | .domain => c.domain.any (reads r.value)
  | .cidr => c.inNetworks [r.value]
  | .other _ => false

def CustomRule.matches (r : CustomRule) (c : Connection) : Bool := r.matchesAs coversDomain c

/-- The domains of a service: those it lists, and those of its suffixes with their roots. -/
def Service.covers (s : Service) (d : Str) : Bool :=
  s.domains.elem d || s.domainSuffixes.any fun x => d == trimFront [0x2E] x || x.isSuffixOf d

def Service.matches (s : Service) (c : Connection) : Bool :=
  c.hasName s.processNames || c.domain.any s.covers

end meaning

section rules
variable (c : Connection)

theorem decides_processName (names : List Str) (o : Outbound) :
    RouteRule.decides { processName := some names, action := .route o } c = c.hasName names := by
  simp [RouteRule.decides, RouteRule.applies, RouteRule.destinationApplies, Action.final]

theorem decides_processPath (paths : List Str) (o : Outbound) :
    RouteRule.decides { processPath := some paths, action := .route o } c = c.hasPath paths := by
  simp [RouteRule.decides, RouteRule.applies, RouteRule.destinationApplies, Action.final]

theorem decides_domain (domains suffixes : List Str) (o : Outbound) :
    RouteRule.decides { domain := some domains, domainSuffix := some suffixes, action := .route o } c =
      (c.hasDomain domains || c.hasSuffix suffixes) := by
  simp [RouteRule.decides, RouteRule.applies, RouteRule.destinationApplies, Action.final]

theorem decides_ipCidr (cidrs : List Str) (o : Outbound) :
    RouteRule.decides { ipCidr := some cidrs, action := .route o } c = c.inNetworks cidrs := by
  simp [RouteRule.decides, RouteRule.applies, RouteRule.destinationApplies, Action.final]

theorem decides_ipVersion (version : Nat) :
    RouteRule.decides { ipVersion := some version, action := .reject } c = c.hasVersion version := by
  simp [RouteRule.decides, RouteRule.applies, RouteRule.destinationApplies, Action.final]

/-- The rule of a custom rule applies where the custom rule does. -/
theorem decides_customRuleObject (r : CustomRule) (hkind : ∀ text, r.kind ≠ .other text) :
    (customRuleObject r).decides c = r.matches c := by
  unfold customRuleObject CustomRule.matches CustomRule.matchesAs
  cases hk : r.kind with
  | application =>
    simp only
    split
    · exact decides_processPath c _ _
    · exact decides_processName c _ _
  | domain =>
    simp only
    rw [decides_domain]
    unfold Connection.hasDomain Connection.hasSuffix
    cases c.domain with
    | none => rfl
    | some d =>
      rw [Bool.eq_iff_iff]
      simp [coversDomain]
  | cidr => exact decides_ipCidr c _ _
  | other text => exact absurd hk (hkind text)

theorem verdict_customRuleObject (r : CustomRule) :
    (customRuleObject r).verdict = .outbound r.target.outbound := by
  unfold customRuleObject
  cases r.kind with
  | application =>
    simp only
    split <;> rfl
  | domain => rfl
  | cidr => rfl
  | other text => rfl

end rules

section services
variable (c : Connection)

theorem hasDomain_nil : c.hasDomain [] = false := by
  unfold Connection.hasDomain
  cases c.domain <;> rfl

theorem hasSuffix_nil : c.hasSuffix [] = false := by
  unfold Connection.hasSuffix
  cases c.domain <;> rfl

theorem hasName_nil : c.hasName [] = false := by
  unfold Connection.hasName
  cases c.process <;> rfl

theorem hasDomain_roots (s : Service) :
    (c.hasDomain (s.domains ++ s.domainSuffixes.map (trimFront [0x2E])) ||
      c.hasSuffix s.domainSuffixes) = c.domain.any s.covers := by
  unfold Connection.hasDomain Connection.hasSuffix
  cases c.domain with
  | none => rfl
  | some d =>
    rw [Bool.eq_iff_iff]
    simp only [Option.any_some, Service.covers, Bool.or_eq_true, List.elem_eq_mem,
      decide_eq_true_eq, List.mem_append, List.mem_map, List.any_eq_true, beq_iff_eq]
    constructor
    · rintro ((hd | ⟨x, hx, rfl⟩) | ⟨x, hx, hsuffix⟩)
      · exact Or.inl hd
      · exact Or.inr ⟨x, hx, Or.inl rfl⟩
      · exact Or.inr ⟨x, hx, Or.inr hsuffix⟩
    · rintro (hd | ⟨x, hx, rfl | hsuffix⟩)
      · exact Or.inl (Or.inl hd)
      · exact Or.inl (Or.inr ⟨x, hx, rfl⟩)
      · exact Or.inr ⟨x, hx, hsuffix⟩

/-- The two rules of a regional service together apply where the service does. -/
theorem any_regionalRules (o : Outbound) (s : Service) :
    (regionalRules o s).any (·.decides c) = s.matches c := by
  unfold regionalRules Service.matches
  split
  · rename_i hnone
    rw [hnone, hasName_nil, List.nil_append, List.any_cons, List.any_nil, decides_domain,
      hasDomain_roots, Bool.or_false, Bool.false_or]
  · rw [List.any_append, List.any_cons, List.any_nil, List.any_cons, List.any_nil, Bool.or_false,
      Bool.or_false, decides_processName, decides_domain, hasDomain_roots]

theorem verdict_regionalRules (o : Outbound) (s : Service) :
    ∀ r ∈ regionalRules o s, r.verdict = .outbound o := by
  unfold regionalRules
  intro r hr
  split at hr
  · rw [List.mem_singleton.mp hr]
    rfl
  · rcases List.mem_cons.mp hr with rfl | hr
    · rfl
    · rw [List.mem_singleton.mp hr]
      rfl

theorem mem_addNew (values : List Str) (v x : Str) : x ∈ addNew values v ↔ x ∈ values ∨ x = v := by
  unfold addNew
  split
  · rename_i hv
    exact ⟨Or.inl, fun h => h.elim id fun he => he ▸ hv⟩
  · rw [List.mem_append, List.mem_singleton]

theorem mem_foldl_addNew (new values : List Str) (x : Str) :
    x ∈ new.foldl addNew values ↔ x ∈ values ∨ x ∈ new := by
  induction new generalizing values with
  | nil => simp
  | cons v new ih => rw [List.foldl_cons, ih, mem_addNew, List.mem_cons, or_assoc]

/-- What the entries of merged services say about a connection. -/
def ServiceEntries.matches (e : ServiceEntries) : Bool :=
  c.hasName e.processes || (c.hasDomain e.domains || c.hasSuffix e.suffixes)

theorem ServiceEntries.addSuffix_matches (e : ServiceEntries) (x : Str) :
    (e.addSuffix x).matches c =
      (e.matches c || c.domain.any fun d => (trimFront [0x2E] x != [] && d == trimFront [0x2E] x) ||
        x.isSuffixOf d) := by
  unfold ServiceEntries.addSuffix ServiceEntries.matches Connection.hasDomain Connection.hasSuffix
  cases c.domain with
  | none => simp
  | some d =>
    rw [Bool.eq_iff_iff]
    simp only [Option.any_some, Bool.or_eq_true, List.elem_eq_mem, decide_eq_true_eq,
      List.any_eq_true, Bool.and_eq_true, bne_iff_ne, beq_iff_eq, mem_addNew]
    by_cases hroot : trimFront [0x2E] x = []
    · simp only [hroot, if_true, ne_eq, not_true_eq_false, false_and, false_or]
      grind
    · simp only [hroot, if_false, ne_eq, not_false_eq_true, true_and, mem_addNew]
      grind

theorem ServiceEntries.addService_matches (e : ServiceEntries) (s : Service) (hs : s.Sound) :
    (e.addService s).matches c = (e.matches c || s.matches c) := by
  have hsuffixes : ∀ (xs : List Str) (e : ServiceEntries),
      (∀ x ∈ xs, trimFront [0x2E] x ≠ []) →
      (xs.foldl ServiceEntries.addSuffix e).matches c = (e.matches c || c.domain.any fun d =>
        xs.any fun x => d == trimFront [0x2E] x || x.isSuffixOf d) := by
    intro xs
    induction xs with
    | nil =>
      intro e _
      cases c.domain <;> simp
    | cons x xs ih =>
      intro e hroots
      obtain ⟨hroot, hroots⟩ := List.forall_mem_cons.mp hroots
      rw [List.foldl_cons, ih _ hroots, ServiceEntries.addSuffix_matches, Bool.or_assoc]
      congr 1
      cases c.domain with
      | none => rfl
      | some d =>
        have hne : (trimFront [0x2E] x != []) = true := bne_iff_ne.mpr hroot
        rw [Option.any_some, Option.any_some, Option.any_some, List.any_cons, hne, Bool.true_and]
  have hroots : ∀ x ∈ s.domainSuffixes, trimFront [0x2E] x ≠ [] := by
    intro x hx
    obtain ⟨root, rfl, hne, -⟩ := hs.domainSuffixes x hx
    exact hne
  unfold ServiceEntries.addService
  rw [hsuffixes _ _ hroots]
  unfold ServiceEntries.matches Service.matches Connection.hasName Connection.hasDomain
    Connection.hasSuffix
  -- membership in the merged lists, component by component
  have hnames : ∀ app, (s.processNames.foldl addNew e.processes).any (equalFold (base app)) =
      (e.processes.any (equalFold (base app)) || s.processNames.any (equalFold (base app))) := by
    intro app
    rw [Bool.eq_iff_iff]
    simp only [List.any_eq_true, Bool.or_eq_true, mem_foldl_addNew]
    grind
  have hdomains : ∀ d, (s.domains.foldl addNew e.domains).elem d =
      (e.domains.elem d || s.domains.elem d) := by
    intro d
    rw [Bool.eq_iff_iff]
    simp only [List.elem_eq_mem, decide_eq_true_eq, Bool.or_eq_true, mem_foldl_addNew]
  cases c.process <;> cases c.domain <;>
    simp only [Option.any_some, Option.any_none, hnames, hdomains, Service.covers] <;> ac_rfl

theorem foldl_addService_matches (services : List Service) (e : ServiceEntries)
    (hs : ∀ s ∈ services, s.Sound) :
    (services.foldl ServiceEntries.addService e).matches c =
      (e.matches c || services.any (·.matches c)) := by
  induction services generalizing e with
  | nil => simp
  | cons s services ih =>
    obtain ⟨hs, hrest⟩ := List.forall_mem_cons.mp hs
    rw [List.foldl_cons, ih _ hrest, ServiceEntries.addService_matches c e s hs, List.any_cons,
      Bool.or_assoc]

/-- The merged rules apply where one of the services does. -/
theorem any_serviceRuleObjects (services : List Service) (o : Outbound)
    (hs : ∀ s ∈ services, s.Sound) :
    (serviceRuleObjects services o).any (·.decides c) = services.any (·.matches c) := by
  have hentries := foldl_addService_matches c services {} hs
  have hempty : ServiceEntries.matches c {} = false := by
    unfold ServiceEntries.matches
    rw [hasName_nil, hasDomain_nil, hasSuffix_nil]
    rfl
  rw [hempty, Bool.false_or] at hentries
  rw [← hentries, serviceRuleObjects]
  generalize services.foldl ServiceEntries.addService {} = e
  have hprocesses : (if e.processes = [] then []
      else [({ processName := some e.processes, action := .route o } : RouteRule)]).any
        (·.decides c) = c.hasName e.processes := by
    split
    · rename_i hnone
      rw [hnone, hasName_nil]
      rfl
    · rw [List.any_cons, List.any_nil, Bool.or_false, decides_processName]
  have hdomains : (if e.domains = [] ∧ e.suffixes = [] then []
      else [({ domain := some e.domains, domainSuffix := some e.suffixes,
               action := .route o } : RouteRule)]).any (·.decides c) =
        (c.hasDomain e.domains || c.hasSuffix e.suffixes) := by
    split
    · rename_i hnone
      rw [hnone.1, hnone.2, hasDomain_nil, hasSuffix_nil]
      rfl
    · rw [List.any_cons, List.any_nil, Bool.or_false, decides_domain]
  rw [List.any_append, hprocesses, hdomains]
  rfl

theorem verdict_serviceRuleObjects (services : List Service) (o : Outbound) :
    ∀ r ∈ serviceRuleObjects services o, r.verdict = .outbound o := by
  intro r hr
  unfold serviceRuleObjects at hr
  rcases List.mem_append.mp hr with hr | hr
  · split at hr
    · cases hr
    · rw [List.mem_singleton.mp hr]
      rfl
  · split at hr
    · cases hr
    · rw [List.mem_singleton.mp hr]
      rfl

end services

section verdict
variable (env : Env) (n : RoutingSettings) (f : ProfileFamilies) (c : Connection)

def finalOutbound : Outbound := if n.mode = Mode.selected.text then .direct else .awgOut

/-- The rules behind those of the user and the regional ones. -/
def lateVerdict : Verdict :=
  firstMatch (·.decides c) RouteRule.verdict (localRule :: modeRules env n f)
    (.outbound (finalOutbound n))

theorem firstMatch_regional (d : Verdict) :
    firstMatch (·.decides c) RouteRule.verdict (regionalRuleObjects n) d =
      firstMatch (·.matches c) (fun s => .outbound (n.serviceTarget s).outbound)
        regionalServices d := by
  unfold regionalRuleObjects
  apply firstMatch_flatMap
  · intro s _
    exact any_regionalRules c _ s
  · intro s _
    exact verdict_regionalRules _ s

variable {env n} in
/-- The verdict in the terms of the settings, up to the local networks. -/
theorem firstMatch_routeRules {s : RoutingSettings} (hn : RoutingSettings.Normal env s n) :
    firstMatch (·.decides c) RouteRule.verdict (routeRules env n f) (.outbound (finalOutbound n)) =
      firstMatch (·.matches c) (fun r => .outbound r.target.outbound) n.enabledRules
        (firstMatch (·.matches c) (fun s => .outbound (n.serviceTarget s).outbound)
          regionalServices (lateVerdict env n f c)) := by
  have hprelude : ∀ d, firstMatch (·.decides c) RouteRule.verdict preludeRules d = d := by
    intro d
    apply firstMatch_of_none
    intro r hr
    rcases List.mem_cons.mp hr with rfl | hr
    · rfl
    · rw [List.mem_singleton.mp hr]
      rfl
  have hcustom : ∀ d, firstMatch (·.decides c) RouteRule.verdict
      (n.enabledRules.map customRuleObject) d =
      firstMatch (·.matches c) (fun r => .outbound r.target.outbound) n.enabledRules d := by
    intro d
    apply firstMatch_map
    intro r hr
    refine ⟨decides_customRuleObject c r ?_, fun _ => verdict_customRuleObject r⟩
    intro text hkind
    obtain ⟨value, hvalue⟩ := (hn.rules r ((mem_enabledRules r).mp hr).1).value
    rw [hkind] at hvalue
    cases hvalue
  rw [routeRules, List.append_assoc, firstMatch_append, firstMatch_append, firstMatch_append,
    hprelude, hcustom, firstMatch_regional]
  rfl

theorem lateVerdict_local (h : c.inNetworks localCIDRs = true) :
    lateVerdict env n f c = .outbound .direct := by
  rw [lateVerdict, firstMatch_cons, localRule, decides_ipCidr, if_pos h]
  rfl

/-- Behind the local networks a full tunnel drops what it cannot carry. -/
theorem lateVerdict_all (h : c.inNetworks localCIDRs = false) (hmode : n.mode ≠ Mode.selected.text) :
    lateVerdict env n f c =
      if !f.ipv4 && c.hasVersion 4 then .reject
      else if !f.ipv6 && c.hasVersion 6 then .reject else .outbound .awgOut := by
  have hguard : ∀ (family : Bool) (version : Nat) (d : Verdict),
      firstMatch (·.decides c) RouteRule.verdict
        (if family then [] else [{ ipVersion := some version, action := .reject }]) d =
        if !family && c.hasVersion version then .reject else d := by
    intro family version d
    cases family with
    | true => rfl
    | false =>
      rw [if_neg Bool.false_ne_true, firstMatch_cons, firstMatch_nil, decides_ipVersion,
        Bool.not_false, Bool.true_and]
      rfl
  rw [lateVerdict, firstMatch_cons, localRule, decides_ipCidr, h, if_neg Bool.false_ne_true,
    modeRules, if_neg hmode, firstMatch_append, hguard, hguard, finalOutbound, if_neg hmode]

theorem lateVerdict_selected (h : c.inNetworks localCIDRs = false)
    (hmode : n.mode = Mode.selected.text) (hs : ∀ v ∈ n.selectedServices env, v.Sound) :
    lateVerdict env n f c =
      if (n.selectedServices env).any (·.matches c) || c.hasDomain updateDomains then
        .outbound .awgOut
      else .outbound .direct := by
  have hupdate : RouteRule.decides { domain := some updateDomains, action := .route .awgOut } c =
      c.hasDomain updateDomains := by
    simp [RouteRule.decides, RouteRule.applies, RouteRule.destinationApplies, Action.final]
  rw [lateVerdict, firstMatch_cons, localRule, decides_ipCidr, h, if_neg Bool.false_ne_true,
    modeRules, if_pos hmode, firstMatch_append,
    firstMatch_of_const _ _ _ _ _ (verdict_serviceRuleObjects _ _), any_serviceRuleObjects c _ _ hs,
    firstMatch_cons, firstMatch_nil, hupdate, finalOutbound, if_pos hmode]
  cases (n.selectedServices env).any (·.matches c) <;> rfl

end verdict

end SmartAwg.Smart
