import SmartAwg.SmartPolicy

/-!
The decision of the dashboard to disconnect when the settings send nothing through the tunnel, and
what it means for the policy that would be compiled from them.
-/

namespace SmartAwg.Smart

open Go FirstMatch

section decision

def hasSelectedVPNRoute (settings : RoutingSettings) : Bool :=
  decide ((settings.selectedApps.getD []).length > 0) ||
    (settings.mode == Mode.selected.text &&
      (settings.serviceUsesVPN vkServiceID || settings.serviceUsesVPN russianServiceID)) ||
    settings.customRules.any fun rule => rule.enabled && rule.target == .vpn

def shouldDisconnectForRoutingSettings (settings : RoutingSettings) : Bool :=
  normalizeMode settings.mode == .selected && !hasSelectedVPNRoute settings

/-- Settings that leave the tunnel without work. -/
structure RoutingSettings.Unused (n : RoutingSettings) : Prop where
  mode : n.mode = Mode.selected.text
  apps : n.selectedApps.getD [] = []
  regional : ∀ v ∈ regionalServices, n.serviceUsesVPN v.id = false
  rules : ∀ r ∈ n.enabledRules, r.target = .direct

end decision

section unused
variable {env env₀ : Env} {s₀ s n : RoutingSettings}

/-- What the dashboard decides on survives the normalisation that the compiler starts with. -/
theorem unused_of_shouldDisconnect (hs : s₀.normalized env₀ = .ok s)
    (hdisconnect : shouldDisconnectForRoutingSettings s = true) (hn : s.normalized env = .ok n) :
    n.Unused := by
  have hnormal := RoutingSettings.normalized_ok env s n hn
  obtain ⟨-, -, -, -, catalog₀, rules₀, -, -, hs⟩ :=
    (RoutingSettings.normalized_eq_ok env₀ s₀ s).mp hs
  have hversion : s.version = settingsVersion := by rw [hs]
  have htext : s.mode = (normalizeMode s₀.mode).text := by rw [hs]
  simp only [shouldDisconnectForRoutingSettings, hasSelectedVPNRoute, Bool.and_eq_true,
    beq_iff_eq, Bool.not_eq_true', Bool.or_eq_false_iff, decide_eq_false_iff_not, Nat.not_lt,
    Nat.le_zero, List.length_eq_zero_iff, Bool.and_eq_false_iff, beq_eq_false_iff_ne,
    List.any_eq_false, not_and] at hdisconnect
  obtain ⟨hmode, ⟨happs, hregional⟩, hrules⟩ := hdisconnect
  have hselected : s.mode = Mode.selected.text := by
    rw [htext, normalizeMode_text] at hmode
    rw [htext, hmode]
  obtain ⟨hvk, hrussian⟩ := hregional.resolve_left fun hne => hne hselected
  obtain ⟨-, -, -, -, catalog, rules, -, hkept, heq⟩ :=
    (RoutingSettings.normalized_eq_ok env s n).mp hn
  refine ⟨hnormal.mode_selected.mpr hmode, ?_, ?_, ?_⟩
  · rw [heq, migratedApps_of_current hversion, happs]
    rfl
  · intro v hv
    rw [hnormal.serviceUsesVPN_eq v.id (regional_isRegional v hv)]
    rcases List.mem_cons.mp hv with rfl | hv
    · exact hvk
    · rw [List.mem_singleton.mp hv]
      exact hrussian
  · intro r hr
    obtain ⟨hmem, henabled⟩ := (mem_enabledRules r).mp hr
    refine (hnormal.rules r hmem).target.resolve_left fun hvpn => ?_
    have hsource : r ∈ rules := by rwa [heq] at hmem
    obtain ⟨r₀, hr₀, hswitch, htarget⟩ := normalizeRules_source env 0 [] _ _ hkept r hsource
    exact hrules r₀ hr₀ (hswitch.trans henabled) (htarget.trans hvpn)

end unused

section policy
variable {env : Env} {n : RoutingSettings} (hn : n.Unused)
include hn

theorem RoutingSettings.Unused.selectedServices : n.selectedServices env = [] := by
  unfold RoutingSettings.selectedServices
  rw [hn.apps]
  split
  · rfl
  · exact List.filter_eq_nil_iff.mpr fun v _ => by simp

/-- Only the downloads of updates are left for the tunnel. -/
theorem RoutingSettings.Unused.lateVerdict (f : ProfileFamilies) (c : Connection) :
    lateVerdict env n f c = .outbound .awgOut → c.hasDomain updateDomains = true := by
  intro h
  by_cases hlocal : c.inNetworks localCIDRs = true
  · rw [lateVerdict_local env n f c hlocal] at h
    cases h
  · rw [lateVerdict_selected env n f c (by simpa using hlocal) hn.mode
      (by rw [hn.selectedServices]; nofun), hn.selectedServices, List.any_nil, Bool.false_or] at h
    split at h
    · assumption
    · cases h

theorem RoutingSettings.Unused.policyDNSRules (vpnServer : Str) (strategy : DnsStrategy) :
    ∀ rule ∈ policyDNSRules n vpnServer strategy, rule.server = directDNS := by
  have hserver : ∀ (r : RouteRule) (rule : DnsRule), dnsRule vpnServer strategy false r = some rule →
      rule.server = directDNS := by
    intro r rule h
    obtain ⟨domain, -, rfl⟩ := Option.map_eq_some_iff.mp h
    rfl
  refine List.forall_mem_append.mpr ⟨?_, ?_⟩
  · intro rule hrule
    obtain ⟨r, hr, h⟩ := List.mem_filterMap.mp hrule
    obtain ⟨hmem, hkind⟩ := List.mem_filter.mp hr
    have hdirect := hn.rules r ((mem_enabledRules r).mpr ⟨hmem, (Bool.and_eq_true_iff.mp hkind).1⟩)
    rw [hdirect] at h
    exact hserver _ rule h
  · intro rule hrule
    obtain ⟨r, hr, h⟩ := List.mem_filterMap.mp hrule
    obtain ⟨v, hv, hr⟩ := List.mem_flatMap.mp hr
    rw [(serviceTarget_outbound_direct n v).mpr (hn.regional v hv)] at hr
    rw [decide_eq_false fun haction => ?_] at h
    · exact hserver _ rule h
    -- a rule of another outbound has another verdict
    have hverdict := verdict_regionalRules .direct v r hr
    rw [RouteRule.verdict, haction] at hverdict
    cases hverdict

end policy

/-- Settings the dashboard disconnects for send nothing but the downloads of updates through the
tunnel, and no rule resolves a name behind it. -/
theorem disconnect_sound (env env₀ : Env) (config : Conf.Config) (s₀ s : RoutingSettings)
    (hs : s₀.normalized env₀ = .ok s)
    (hdisconnect : shouldDisconnectForRoutingSettings s = true) (box : BoxConfig)
    (hbuild : buildConfig env config s = .ok box) :
    (∀ c : Connection, box.route.verdict c = .outbound .awgOut →
      c.domain = some (ascii "github.com") ∨ c.domain = some (ascii "raw.githubusercontent.com")) ∧
    ∀ rule ∈ box.dns.rules, ∀ server ∈ box.dns.servers, server.tag = rule.server →
      server.detour = .direct := by
  obtain ⟨n, endpoint, first, rest, hn, -, hservers, hbox⟩ := buildConfig_ok env config s box hbuild
  have hunused := unused_of_shouldDisconnect hs hdisconnect hn
  constructor
  · intro c hverdict
    rw [buildConfig_verdict hbuild hn c] at hverdict
    rcases firstMatch_cases (·.matches c) (fun r => Verdict.outbound r.target.outbound)
      n.enabledRules _ with ⟨r, hr, heq⟩ | ⟨-, heq⟩
    · rw [heq, hunused.rules r (List.mem_of_find?_eq_some hr)] at hverdict
      cases hverdict
    rw [heq] at hverdict
    rcases firstMatch_cases (·.matches c) (fun v => Verdict.outbound (n.serviceTarget v).outbound)
      regionalServices _ with ⟨v, hv, heq'⟩ | ⟨-, heq'⟩
    · rw [heq', (serviceTarget_outbound_direct n v).mpr
        (hunused.regional v (List.mem_of_find?_eq_some hv))] at hverdict
      cases hverdict
    rw [heq'] at hverdict
    obtain ⟨d, hd, hmem⟩ := (Option.any_eq_true _ _).mp (hunused.lateVerdict _ c hverdict)
    rcases List.mem_cons.mp (List.elem_iff.mp hmem) with rfl | hmem
    · exact Or.inr hd
    · rw [List.mem_singleton.mp hmem] at hd
      exact Or.inl hd
  · rw [hbox]
    intro rule hrule server hserver htag
    have hdirect := hunused.policyDNSRules _ _ rule hrule
    rcases List.mem_append.mp hserver with hserver | hserver
    · -- the servers behind the tunnel have tags of their own
      rw [← hservers] at hserver
      exact absurd (htag.trans hdirect) (dnsServers_behind config .awgOut _ server hserver).tag
    · rw [List.mem_singleton.mp hserver]
      rfl

/-- One rule, for a network outside the tunnel. -/
def outsideSettings : RoutingSettings :=
  { sampleSettings [⟨ascii "office", ascii "office", .cidr, ascii "198.18.0.0/15", .direct, true⟩] with
    mode := Mode.selected.text }

theorem disconnect_sound_outside :
    ∃ box, buildConfig sampleEnv sampleProfile outsideSettings = .ok box ∧
      ∀ c : Connection, box.route.verdict c = .outbound .awgOut →
        c.domain = some (ascii "github.com") ∨ c.domain = some (ascii "raw.githubusercontent.com") := by
  obtain ⟨box, hbox⟩ : ∃ box, buildConfig sampleEnv sampleProfile outsideSettings = .ok box :=
    Outcome.exists_of_isSome _ (by decide +kernel)
  exact ⟨box, hbox, (disconnect_sound sampleEnv sampleEnv sampleProfile outsideSettings outsideSettings
    (by decide +kernel) (by decide +kernel) box hbox).1⟩

end SmartAwg.Smart
