import SmartAwg.ConfLossless
import SmartAwg.SmartEngine

/-!
What a compiled policy guarantees: a full tunnel leaves only the exceptions of the settings
outside, and names are resolved where their connections go.
-/

namespace SmartAwg.Smart

open Go FirstMatch

section sample

/-- Names that are plain already are looked up as they are, and there is no signed catalog. -/
def sampleEnv : Env where
  toASCII := fun s => if s.all isHostChar then some s else none
  decodeEnvelope := fun _ => .error (.text "no envelope")
  decodePayload := fun _ => .error (.text "no payload")
  verifySignature := fun _ _ => false
  serviceCatalog := builtinServiceCatalog
  now := 0

def sampleSettings (rules : List CustomRule) : RoutingSettings where
  serviceRoutes := []
  catalogEnvelope := []
  fallbackProfiles := []
  protection := []
  version := settingsVersion
  mode := Mode.all.text
  selectedApps := some []
  customRules := rules

def sampleProfile : Conf.Config := Conf.sampleConfig (ascii "198.51.100.7")

/-- A rule of each kind. -/
def sampleRules : List CustomRule :=
  [⟨ascii "rule-1", ascii "Tool", .application, ascii "tool.exe", .vpn, true⟩,
    ⟨ascii "rule-2", ascii "Site", .domain, ascii "example.com", .direct, true⟩,
    ⟨ascii "rule-3", ascii "Office", .cidr, ascii "198.18.0.0/15", .direct, true⟩]

theorem sampleRules_normalized :
    (sampleSettings sampleRules).normalized sampleEnv = .ok (sampleSettings sampleRules) := by
  decide +kernel

theorem sample_builds :
    ∃ box, buildConfig sampleEnv sampleProfile (sampleSettings sampleRules) = .ok box :=
  Outcome.exists_of_isSome _ (by decide +kernel)

theorem sampleEnv_isLookup : IsLookup sampleEnv.toASCII where
  plain := by
    intro s t h b hb
    obtain ⟨hall, heq⟩ := Option.ite_none_right_eq_some.mp h
    cases heq
    exact List.all_eq_true.mp hall b hb
  fixed := by
    intro s t _ h
    exact (Option.some.inj (Option.ite_none_right_eq_some.mp h).2).symm

end sample

section verdict

theorem outbound_direct (target : RouteTarget) :
    target.outbound = .direct ↔ target ≠ .vpn := by
  unfold RouteTarget.outbound
  split
  · rename_i h
    refine ⟨fun hd => ?_, fun hne => absurd h hne⟩
    cases hd
  · rename_i h
    exact ⟨fun _ => h, fun _ => rfl⟩

theorem serviceTarget_outbound_direct (n : RoutingSettings) (v : Service) :
    (n.serviceTarget v).outbound = .direct ↔ n.serviceUsesVPN v.id = false := by
  unfold RoutingSettings.serviceTarget
  cases n.serviceUsesVPN v.id <;> decide

variable {env : Env} {config : Conf.Config} {s n : RoutingSettings} {box : BoxConfig}

/-- The verdict of a configuration in the terms of the settings. -/
theorem buildConfig_verdict (hbuild : buildConfig env config s = .ok box)
    (hn : s.normalized env = .ok n) (c : Connection) :
    box.route.verdict c =
      firstMatch (·.matches c) (fun r => .outbound r.target.outbound) n.enabledRules
        (firstMatch (·.matches c) (fun v => .outbound (n.serviceTarget v).outbound)
          regionalServices (lateVerdict env n (detectProfileFamilies config) c)) := by
  obtain ⟨n', endpoint, first, rest, hn', -, -, rfl⟩ := buildConfig_ok env config s box hbuild
  cases hn.symm.trans hn'
  exact firstMatch_routeRules _ c (RoutingSettings.normalized_ok env s n hn)

theorem regional_isRegional : ∀ v ∈ regionalServices, isRegionalService v.id = true := by
  decide +kernel

/-- The exceptions of a full tunnel. -/
theorem direct_cases (hbuild : buildConfig env config s = .ok box)
    (hmode : normalizeMode s.mode = .all) (hn : s.normalized env = .ok n) (c : Connection)
    (h : box.route.verdict c = .outbound .direct) :
    (∃ r, n.enabledRules.find? (·.matches c) = some r ∧ r.target = .direct) ∨
    (n.enabledRules.find? (·.matches c) = none ∧
      ∃ v, regionalServices.find? (·.matches c) = some v ∧ s.serviceUsesVPN v.id = false) ∨
    (n.enabledRules.find? (·.matches c) = none ∧ regionalServices.find? (·.matches c) = none ∧
      c.inNetworks localCIDRs = true) := by
  have hnormal := RoutingSettings.normalized_ok env s n hn
  rw [buildConfig_verdict hbuild hn c] at h
  rcases firstMatch_cases (·.matches c) (fun r => Verdict.outbound r.target.outbound)
    n.enabledRules _ with ⟨r, hr, heq⟩ | ⟨hnone, heq⟩
  · rw [heq, Verdict.outbound.injEq, outbound_direct] at h
    have hmem := ((mem_enabledRules r).mp (List.mem_of_find?_eq_some hr)).1
    exact Or.inl ⟨r, hr, (hnormal.rules r hmem).target.resolve_left h⟩
  rw [heq] at h
  rcases firstMatch_cases (·.matches c) (fun v => Verdict.outbound (n.serviceTarget v).outbound)
    regionalServices _ with ⟨v, hv, heq'⟩ | ⟨hnone', heq'⟩
  · rw [heq', Verdict.outbound.injEq, serviceTarget_outbound_direct,
      hnormal.serviceUsesVPN_eq v.id (regional_isRegional v (List.mem_of_find?_eq_some hv))] at h
    exact Or.inr (Or.inl ⟨hnone, v, hv, h⟩)
  rw [heq'] at h
  refine Or.inr (Or.inr ⟨hnone, hnone', ?_⟩)
  by_contra hlocal
  have hselected : n.mode ≠ Mode.selected.text := by
    rw [Ne, hnormal.mode_selected, hmode]
    decide
  rw [lateVerdict_all env n _ c (by simpa using hlocal) hselected] at h
  -- neither guard nor the final outbound is direct
  split at h
  · cases h
  · split at h <;> cases h

/-- A full tunnel drops the families its profile does not carry. -/
theorem unmatched_verdict (hbuild : buildConfig env config s = .ok box)
    (hmode : normalizeMode s.mode = .all) (hn : s.normalized env = .ok n) (c : Connection) (ip : Str)
    (hip : c.ip = some ip) (hlen : ip.length = 4 ∨ ip.length = 16)
    (hcustom : n.enabledRules.find? (·.matches c) = none)
    (hregional : regionalServices.find? (·.matches c) = none)
    (hlocal : c.inNetworks localCIDRs = false) :
    box.route.verdict c =
      if (detectProfileFamilies config).accepts ip then .outbound .awgOut else .reject := by
  have hnormal := RoutingSettings.normalized_ok env s n hn
  have hselected : n.mode ≠ Mode.selected.text := by
    rw [Ne, hnormal.mode_selected, hmode]
    decide
  have hall : ∀ {ρ : Type} (applies : ρ → Bool) (rules : List ρ), rules.find? applies = none →
      ∀ r ∈ rules, applies r = false := fun applies rules h r hr => by
    simpa using List.find?_eq_none.mp h r hr
  rw [buildConfig_verdict hbuild hn c, firstMatch_of_none _ _ _ _ (hall _ _ hcustom),
    firstMatch_of_none _ _ _ _ (hall _ _ hregional), lateVerdict_all env n _ c hlocal hselected]
  unfold Connection.hasVersion ProfileFamilies.accepts isIPv6
  rw [hip, Option.any_some, Option.any_some]
  have hsize : (ip.length == 4 || ip.length == 16) = true := by simpa using hlen
  rw [hsize, Bool.and_true]
  generalize detectProfileFamilies config = f
  obtain ⟨ipv4, ipv6⟩ := f
  cases isIPv4 ip <;> cases ipv4 <;> cases ipv6 <;> rfl

/-- Settings that need no rules route both regional services through the tunnel. -/
theorem native_regional (h : usesNativeTunnel s = true) :
    ∀ v ∈ regionalServices, s.serviceUsesVPN v.id = true := by
  simp only [usesNativeTunnel, hasDirectServiceExceptions, Bool.and_eq_true, decide_eq_true_eq,
    Bool.not_eq_true', Bool.and_eq_false_iff, decide_eq_false_iff_not, Bool.or_eq_false_iff,
    Bool.not_eq_false'] at h
  obtain ⟨⟨⟨⟨hmode, -⟩, hexceptions⟩, -⟩, -⟩ := h
  obtain ⟨hvk, hrussian⟩ := hexceptions.resolve_left fun hne => hne hmode
  intro v hv
  rcases List.mem_cons.mp hv with rfl | hv
  · exact hvk
  · rw [List.mem_singleton.mp hv]
    exact hrussian

/-- Direct connections of a full tunnel come from the settings or stay local, and what no rule is
about never leaves outside the tunnel. -/
theorem fullTunnel_no_leak (env : Env) (config : Conf.Config) (s n : RoutingSettings)
    (box : BoxConfig) (hbuild : buildConfig env config s = .ok box)
    (hmode : normalizeMode s.mode = .all) (hn : s.normalized env = .ok n) (c : Connection) (ip : Str)
    (hip : c.ip = some ip) (hlen : ip.length = 4 ∨ ip.length = 16) :
    (box.route.verdict c = .outbound .direct →
      (∃ r, n.enabledRules.find? (·.matches c) = some r ∧ r.target = .direct) ∨
      (n.enabledRules.find? (·.matches c) = none ∧
        ∃ v, regionalServices.find? (·.matches c) = some v ∧ s.serviceUsesVPN v.id = false) ∨
      (n.enabledRules.find? (·.matches c) = none ∧ regionalServices.find? (·.matches c) = none ∧
        c.inNetworks localCIDRs = true)) ∧
    (n.enabledRules.find? (·.matches c) = none → regionalServices.find? (·.matches c) = none →
      c.inNetworks localCIDRs = false →
      box.route.verdict c =
        if (detectProfileFamilies config).accepts ip then .outbound .awgOut else .reject) ∧
    (usesNativeTunnel s = true → box.route.verdict c = .outbound .direct →
      c.inNetworks localCIDRs = true) := by
  refine ⟨direct_cases hbuild hmode hn c, ?_, ?_⟩
  · intro hcustom hregional hlocal
    exact unmatched_verdict hbuild hmode hn c ip hip hlen hcustom hregional hlocal
  · intro hnative hdirect
    have hnormal := RoutingSettings.normalized_ok env s n hn
    rcases direct_cases hbuild hmode hn c hdirect with ⟨r, hr, -⟩ | ⟨-, v, hv, hvpn⟩ | ⟨-, -, hlocal⟩
    · -- there is no enabled rule to match
      have henabled : hasEnabledCustomRules s = false := by
        simp only [usesNativeTunnel, Bool.and_eq_true, Bool.not_eq_true'] at hnative
        exact hnative.1.1.1.2
      rw [← hnormal.hasEnabledCustomRules_eq] at henabled
      obtain ⟨hmem, hon⟩ := (mem_enabledRules r).mp (List.mem_of_find?_eq_some hr)
      exact absurd hon (List.any_eq_false.mp henabled r hmem)
    · rw [native_regional hnative v (List.mem_of_find?_eq_some hv)] at hvpn
      cases hvpn
    · exact hlocal

/-- An address in the network of a rule, and one that no rule is about. -/
theorem fullTunnel_no_leak_sample :
    ∃ box, buildConfig sampleEnv sampleProfile (sampleSettings sampleRules) = .ok box ∧
      box.route.verdict ⟨none, none, some [198, 18, 0, 1], none⟩ = .outbound .direct ∧
      (∃ r, (sampleSettings sampleRules).enabledRules.find?
        (·.matches ⟨none, none, some [198, 18, 0, 1], none⟩) = some r ∧ r.target = .direct) ∧
      box.route.verdict ⟨none, none, some [1, 2, 3, 4], none⟩ = .outbound .awgOut := by
  obtain ⟨box, hbox⟩ := sample_builds
  have hoffice : box.route.verdict ⟨none, none, some [198, 18, 0, 1], none⟩ = .outbound .direct := by
    rw [buildConfig_verdict hbox sampleRules_normalized]
    decide +kernel
  have h := fun ip => fullTunnel_no_leak sampleEnv sampleProfile (sampleSettings sampleRules) _ box hbox
    (by decide +kernel) sampleRules_normalized ⟨none, none, some ip, none⟩ ip rfl
  refine ⟨box, hbox, hoffice, ?_, ?_⟩
  · rcases (h _ (Or.inl rfl)).1 hoffice with hrule | ⟨hnone, -⟩ | ⟨hnone, -⟩
    · exact hrule
    · exact absurd hnone (by decide +kernel)
    · exact absurd hnone (by decide +kernel)
  · rw [(h _ (Or.inl rfl)).2.1 (by decide +kernel) rfl (by decide +kernel)]
    decide +kernel

end verdict

section names

/-- A connection of which only the name is known. -/
def Connection.named (d : Str) : Connection where
  process := none
  domain := some d
  ip := none
  protocol := none

variable (env : Env) (config : Conf.Config) (n : RoutingSettings) (d : Str)

/-- The server for a target. -/
def serverFor (vpnServer : Str) (o : Outbound) : Str := if o = .awgOut then vpnServer else directDNS

theorem dnsRule_custom (vpnServer : Str) (strategy : DnsStrategy) (r : CustomRule)
    (h : r.kind = .domain) :
    dnsRule vpnServer strategy (r.target = .vpn) (customRuleObject r) = some {
      domain := [r.value]
      domainSuffix := some [0x2E :: r.value]
      server := serverFor vpnServer r.target.outbound
      strategy := if r.target = .vpn then strategy else .preferIPv4 } := by
  unfold customRuleObject dnsRule serverFor RouteTarget.outbound
  rw [h]
  by_cases hvpn : r.target = .vpn
  · simp [hvpn]
  · simp [hvpn]

/-- The names of the custom rules go where their connections go. -/
theorem firstMatch_dns_custom (vpnServer : Str) (strategy : DnsStrategy) (dflt : Str) :
    firstMatch (·.applies d) DnsRule.server
      ((n.customRules.filter fun r => r.enabled && r.kind == .domain).filterMap fun r =>
        dnsRule vpnServer strategy (r.target = .vpn) (customRuleObject r)) dflt =
      firstMatch (·.matches (.named d)) (fun r => serverFor vpnServer r.target.outbound)
        n.enabledRules dflt := by
  have hfilter : (n.customRules.filter fun r => r.enabled && r.kind == .domain) =
      n.enabledRules.filter fun r => r.kind == .domain := by
    rw [RoutingSettings.enabledRules, List.filter_filter]
    exact List.filter_congr fun r _ => Bool.and_comm _ _
  rw [hfilter, List.filterMap_eq_flatMap_toList]
  have hdomain : ∀ r ∈ n.enabledRules.filter (fun r => r.kind == .domain), r.kind = .domain := by
    intro r hr
    simpa using (List.mem_filter.mp hr).2
  rw [firstMatch_flatMap _ _ (·.matches (.named d)) _
    (fun r => serverFor vpnServer r.target.outbound), firstMatch_filter]
  · -- rules of the other kinds are not about a connection known by its name only
    apply firstMatch_congr
    intro r _
    unfold CustomRule.matches CustomRule.matchesAs
    cases r.kind with
    | application =>
      simp only [Connection.hasPath, Connection.hasName, Connection.named, Option.any_none]
      split <;> rfl
    | domain => rfl
    | cidr => rfl
    | other text => rfl
  · intro r hr
    rw [dnsRule_custom vpnServer strategy r (hdomain r hr)]
    unfold CustomRule.matches CustomRule.matchesAs
    rw [hdomain r hr]
    simp [DnsRule.applies, Connection.named, coversDomain, Bool.beq_eq_decide_eq]
  · intro r hr x hx
    rw [dnsRule_custom vpnServer strategy r (hdomain r hr)] at hx
    rw [List.mem_singleton.mp hx]

theorem firstMatch_dns_regional (vpnServer : Str) (strategy : DnsStrategy) (dflt : Str) :
    firstMatch (·.applies d) DnsRule.server
      ((regionalRuleObjects n).filterMap fun r =>
        dnsRule vpnServer strategy (r.action = .route .awgOut) r) dflt =
      firstMatch (·.matches (.named d))
        (fun v => serverFor vpnServer (n.serviceTarget v).outbound) regionalServices dflt := by
  -- of the rules of a service only the one on its domains is left
  have hrules : ∀ (o : Outbound) (v : Service), ((regionalRules o v).filterMap fun r =>
      dnsRule vpnServer strategy (r.action = .route .awgOut) r) = [{
        domain := v.domains ++ v.domainSuffixes.map (trimFront [0x2E])
        domainSuffix := some v.domainSuffixes
        server := serverFor vpnServer o
        strategy := if o = .awgOut then strategy else .preferIPv4 }] := by
    intro o v
    unfold regionalRules
    split <;> cases o <;> rfl
  rw [regionalRuleObjects, List.filterMap_flatMap]
  apply firstMatch_flatMap
  · intro v _
    have hname : (Connection.named d).hasName v.processNames = false := rfl
    rw [hrules, Service.matches, hname, Bool.false_or, ← hasDomain_roots, List.any_cons,
      List.any_nil, Bool.or_false]
    rfl
  · intro v _ x hx
    rw [hrules] at hx
    rw [List.mem_singleton.mp hx]

variable {env config n d} {s : RoutingSettings} {box : BoxConfig}

/-- The verdict on a name and the server for it are decided by the same rule, or by none. -/
theorem named_cases (hbuild : buildConfig env config s = .ok box) (hn : s.normalized env = .ok n)
    (d : Str) : ∃ first rest,
      dnsServers config .awgOut (detectProfileFamilies config) = first :: rest ∧
      box.dns.servers = first :: rest ++ [directServer] ∧
      ((∃ o, box.route.verdict (.named d) = .outbound o ∧
          box.dns.resolver d = serverFor first.tag o) ∨
        (box.route.verdict (.named d) =
            lateVerdict env n (detectProfileFamilies config) (.named d) ∧
          box.dns.resolver d = first.tag)) := by
  rw [buildConfig_verdict hbuild hn]
  obtain ⟨n', endpoint, first, rest, hn', -, hservers, rfl⟩ := buildConfig_ok env config s box hbuild
  cases hn.symm.trans hn'
  refine ⟨first, rest, hservers, rfl, ?_⟩
  have hresolver : (boxConfig env n (detectProfileFamilies config) endpoint (first :: rest)
      first.tag).dns.resolver d =
      firstMatch (·.matches (.named d)) (fun r => serverFor first.tag r.target.outbound)
        n.enabledRules (firstMatch (·.matches (.named d))
          (fun v => serverFor first.tag (n.serviceTarget v).outbound) regionalServices first.tag) := by
    rw [← firstMatch_dns_regional n d first.tag (detectProfileFamilies config).dnsStrategy first.tag,
      ← firstMatch_dns_custom n d first.tag (detectProfileFamilies config).dnsStrategy,
      ← firstMatch_append]
    rfl
  rw [hresolver]
  unfold firstMatch
  cases n.enabledRules.find? (·.matches (.named d)) with
  | some r => exact Or.inl ⟨_, rfl, rfl⟩
  | none =>
    cases regionalServices.find? (·.matches (.named d)) with
    | some v => exact Or.inl ⟨_, rfl, rfl⟩
    | none => exact Or.inr ⟨rfl, rfl⟩

/-- A name is resolved outside the tunnel only if its connections go outside, and inside if they go
inside; in a full tunnel the two agree. -/
theorem dns_follows_routing (env : Env) (config : Conf.Config) (s : RoutingSettings)
    (box : BoxConfig) (hbuild : buildConfig env config s = .ok box) (d : Str) :
    (box.dns.resolver d = directDNS → box.route.verdict (.named d) = .outbound .direct) ∧
    (box.route.verdict (.named d) = .outbound .awgOut →
      (∃ server ∈ box.dns.servers, server.tag = box.dns.resolver d) ∧
      ∀ server ∈ box.dns.servers, server.tag = box.dns.resolver d → server.detour = .awgOut) ∧
    (normalizeMode s.mode = .all →
      (box.dns.resolver d = directDNS ↔ box.route.verdict (.named d) = .outbound .direct)) := by
  obtain ⟨n, -, -, -, hn, -⟩ := buildConfig_ok env config s box hbuild
  obtain ⟨first, rest, hservers, hall, hcases⟩ := named_cases hbuild hn d
  have hbehind : ∀ server ∈ first :: rest, server.Behind .awgOut := by
    rw [← hservers]
    exact dnsServers_behind config .awgOut _
  have hfirst : first.tag ≠ directDNS := (hbehind first List.mem_cons_self).tag
  have hserver : (∃ server ∈ box.dns.servers, server.tag = first.tag) ∧
      ∀ server ∈ box.dns.servers, server.tag = first.tag → server.detour = .awgOut := by
    rw [hall]
    refine ⟨⟨first, List.mem_cons_self, rfl⟩, fun server hmem htag => ?_⟩
    rcases List.mem_append.mp hmem with hmem | hmem
    · exact (hbehind server hmem).detour
    · rw [List.mem_singleton.mp hmem] at htag
      exact absurd htag.symm hfirst
  rcases hcases with ⟨o, hverdict, hresolver⟩ | ⟨hverdict, hresolver⟩
  · -- one rule decided both
    rw [hverdict, hresolver]
    cases o with
    | awgOut =>
      refine ⟨fun h => absurd h hfirst, fun _ => hserver, fun _ => ⟨fun h => absurd h hfirst, ?_⟩⟩
      intro h
      cases h
    | direct =>
      refine ⟨fun _ => rfl, fun h => ?_, fun _ => ⟨fun _ => rfl, fun _ => rfl⟩⟩
      cases h
  · rw [hverdict, hresolver]
    refine ⟨fun h => absurd h hfirst, fun _ => hserver, fun hmode => ⟨fun h => absurd h hfirst, ?_⟩⟩
    have hselected : n.mode ≠ Mode.selected.text := by
      rw [Ne, (RoutingSettings.normalized_ok env s n hn).mode_selected, hmode]
      decide
    rw [lateVerdict_all env n _ (.named d) rfl hselected]
    intro h
    -- a connection without an address has no family to reject
    simp only [Connection.hasVersion, Connection.named, Option.any_none, Bool.and_false] at h
    cases h

theorem dns_follows_routing_sample :
    ∃ box, buildConfig sampleEnv sampleProfile (sampleSettings sampleRules) = .ok box ∧
      box.route.verdict (.named (ascii "www.example.com")) = .outbound .direct ∧
      box.dns.resolver (ascii "www.example.com") = directDNS := by
  obtain ⟨box, hbox⟩ := sample_builds
  have hdirect : box.route.verdict (.named (ascii "www.example.com")) = .outbound .direct := by
    rw [buildConfig_verdict hbox sampleRules_normalized]
    decide +kernel
  exact ⟨box, hbox, hdirect, ((dns_follows_routing sampleEnv sampleProfile (sampleSettings sampleRules) box hbox
    (ascii "www.example.com")).2.2 (by decide +kernel)).mpr hdirect⟩

end names

end SmartAwg.Smart
