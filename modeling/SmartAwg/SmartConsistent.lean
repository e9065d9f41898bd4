import SmartAwg.ConfSafety
import SmartAwg.SmartPolicy

/-!
The references inside a compiled configuration. Rules, outbounds and the endpoint name DNS servers
by their tags and each other by theirs; the lists they refer to are filtered by address family and
without repetitions.
-/

namespace SmartAwg.Smart

open Go Conf

section servers
variable (config : Config) (detour : Outbound) (f : ProfileFamilies)

/-- What `addServer` adds. -/
def udpServer (tag address : Str) : DnsServer where
  type := .udp
  tag := tag
  server := some address
  serverPort := some 53
  detour := detour
  preferGo := none

theorem addServer_cases (servers : List DnsServer) (tag address : Str) :
    addServer detour servers tag address = servers ∨
      addServer detour servers tag address = servers ++ [udpServer detour tag address] := by
  unfold addServer
  split
  · exact .inl rfl
  · exact .inr rfl

def profileTag (n : Nat) : Str := ascii "profile-dns-" ++ itoa n

theorem profileTag_injective : Function.Injective profileTag :=
  fun _ _ h => itoa_injective (List.append_cancel_left h)

example : profileTag 10 = ascii "profile-dns-10" := by decide +kernel

/-- A server has the address of a DNS entry that the families of the profile can reach. -/
def DnsServer.Reachable (s : DnsServer) : Prop :=
  s.detour = detour ∧ ∃ address ip, s.server = some address ∧ parseIP address = some ip ∧
    f.accepts ip = true

theorem accepts_of_parse {ip ip' : Str} (h4 : isIPv4 ip' = isIPv4 ip) (h6 : isIPv6 ip' = isIPv6 ip) :
    f.accepts ip' = f.accepts ip := by
  rw [ProfileFamilies.accepts, ProfileFamilies.accepts, h4, h6]

/-- An address that is accepted is printed as one of the same family. -/
theorem parseIP_ipString_accepted (ip : Str) (h : f.accepts ip = true) :
    ∃ ip', parseIP (ipString ip) = some ip' ∧ f.accepts ip' = true := by
  have hlen : ip.length = 4 ∨ ip.length = 16 := by
    unfold ProfileFamilies.accepts at h
    split at h
    · rename_i h4
      obtain ⟨p4, hp4⟩ := Option.isSome_iff_exists.mp h4
      unfold to4 at hp4
      split at hp4
      · exact .inl ‹_›
      · split at hp4
        · rename_i hlong
          exact .inr hlong.1
        · cases hp4
    · simp only [isIPv6, Bool.and_eq_true, Bool.or_eq_true, beq_iff_eq] at h
      exact h.1.2
  rcases hlen with hfour | hsixteen
  · -- four bytes are read back in their long form
    refine ⟨v4InV6 ++ ip, parseIP_ipString_four ip hfour, ?_⟩
    have hlong : (v4InV6 ++ ip).length = 16 := by
      rw [List.length_append, hfour]
      rfl
    have h4 : isIPv4 (v4InV6 ++ ip) = isIPv4 ip := by
      rw [isIPv4, isIPv4, (to4_eq_some _ ip hlong).mpr rfl, to4_of_length_four ip hfour]
    have hv4 : isIPv4 ip = true := by rw [isIPv4, to4_of_length_four ip hfour]; rfl
    rw [accepts_of_parse f h4 (by simp only [isIPv6, h4, hv4, Bool.not_true, Bool.false_and])]
    exact h
  · exact ⟨ip, parseIP_ipString_sixteen ip hsixteen, h⟩

/-- The servers of the profile carry the numbers of their places. -/
theorem profileServers_tags :
    (profileServers config detour f).map DnsServer.tag =
      (List.range (profileServers config detour f).length).map profileTag := by
  unfold profileServers
  apply List.foldlRecOn (motive := fun servers : List DnsServer =>
    servers.map DnsServer.tag = (List.range servers.length).map profileTag)
  · rfl
  · intro servers hservers dns _
    split
    · exact hservers
    · rcases addServer_cases detour servers (profileTag servers.length) (ipString dns) with h | h
      · rw [← profileTag, h]
        exact hservers
      · rw [← profileTag, h, List.map_append, List.length_append, List.length_singleton,
          List.range_succ, List.map_append, hservers]
        rfl

theorem profileServers_reachable :
    ∀ s ∈ profileServers config detour f, s.Reachable detour f := by
  unfold profileServers
  apply List.foldlRecOn (motive := fun servers : List DnsServer => ∀ s ∈ servers, s.Reachable detour f)
  · exact fun s hs => absurd hs List.not_mem_nil
  · intro servers hservers dns _
    split
    · exact hservers
    · rename_i hdns
      simp only [Bool.or_eq_true, decide_eq_true_eq, Bool.not_eq_eq_eq_not, Bool.not_true,
        not_or, Bool.not_eq_false] at hdns
      rcases addServer_cases detour servers (profileTag servers.length) (ipString dns) with h | h
      · rw [← profileTag, h]
        exact hservers
      · rw [← profileTag, h]
        obtain ⟨ip, hip, haccepts⟩ := parseIP_ipString_accepted f dns hdns.2
        exact List.forall_mem_append.mpr
          ⟨hservers, List.forall_mem_singleton.mpr ⟨rfl, _, ip, rfl, hip, haccepts⟩⟩

/-- A step of the loop never takes a server away, and adds one for the first address it accepts. -/
theorem profileServers_ne_nil (dns : Str) (hmem : dns ∈ config.interface.dns)
    (haccepts : f.accepts dns = true) : profileServers config detour f ≠ [] := by
  have haddress : ipString dns ≠ [] := by
    obtain ⟨ip, hip, -⟩ := parseIP_ipString_accepted f dns haccepts
    intro hnil
    rw [hnil, parseIP_nil] at hip
    cases hip
  have hdns : dns ≠ [] := by
    rintro rfl
    cases haccepts
  have hkeeps (servers : List DnsServer) (tag address : Str) (h : servers ≠ []) :
      addServer detour servers tag address ≠ [] := by
    rcases addServer_cases detour servers tag address with heq | heq
    · rw [heq]
      exact h
    · rw [heq]
      exact List.append_ne_nil_of_right_ne_nil _ (List.cons_ne_nil _ _)
  have hloop (servers : List DnsServer) (entries : List Str) (h : servers ≠ [] ∨ dns ∈ entries) :
      entries.foldl (fun servers dns => if dns = [] || !f.accepts dns then servers
        else addServer detour servers (ascii "profile-dns-" ++ itoa servers.length) (ipString dns))
        servers ≠ [] := by
    induction entries generalizing servers with
    | nil => exact h.resolve_right List.not_mem_nil
    | cons entry entries ih =>
      apply ih
      by_cases hservers : servers = []
      · rcases List.mem_cons.mp (h.resolve_left (not_not_intro hservers)) with rfl | hrest
        · left
          dsimp only
          rw [if_neg (by simp [hdns, haccepts]), hservers, addServer, if_neg (by simp [haddress])]
          exact List.cons_ne_nil _ _
        · exact .inr hrest
      · left
        dsimp only
        split
        · exact hservers
        · exact hkeeps _ _ _ hservers
  exact hloop [] config.interface.dns (.inr hmem)

/-- The resolvers that stand in when the profile has none. -/
def publicServers : List DnsServer :=
  (if f.ipv4 then [udpServer detour (ascii "cloudflare-ipv4") (ascii "1.1.1.1")] else []) ++
    if f.ipv6 then [udpServer detour (ascii "cloudflare-ipv6") (ascii "2606:4700:4700::1111")] else []

theorem dnsServers_eq : dnsServers config detour f =
    if profileServers config detour f = [] then publicServers detour f
    else profileServers config detour f := by
  unfold dnsServers publicServers
  simp only
  split
  · rename_i hnil
    rw [hnil]
    cases f.ipv4 <;> cases f.ipv6 <;> rfl
  · rfl

theorem publicServers_reachable : ∀ s ∈ publicServers detour f, s.Reachable detour f := by
  obtain ⟨v4, v6⟩ := f
  have hfour (h : v4 = true) : ∃ ip, parseIP (ascii "1.1.1.1") = some ip ∧
      ProfileFamilies.accepts ⟨v4, v6⟩ ip = true := by
    subst h
    cases v6 <;> exact ⟨[0, 0, 0, 0, 0, 0, 0, 0, 0, 0, 0xFF, 0xFF, 1, 1, 1, 1], by decide +kernel⟩
  have hsix (h : v6 = true) : ∃ ip, parseIP (ascii "2606:4700:4700::1111") = some ip ∧
      ProfileFamilies.accepts ⟨v4, v6⟩ ip = true := by
    subst h
    cases v4 <;> exact
      ⟨[0x26, 0x06, 0x47, 0, 0x47, 0, 0, 0, 0, 0, 0, 0, 0, 0, 0x11, 0x11], by decide +kernel⟩
  unfold publicServers
  intro s hs
  rcases List.mem_append.mp hs with hs | hs
  · obtain ⟨h, rfl⟩ : v4 = true ∧ s = _ := by simpa using hs
    obtain ⟨ip, hip, haccepts⟩ := hfour h
    exact ⟨rfl, _, ip, rfl, hip, haccepts⟩
  · obtain ⟨h, rfl⟩ : v6 = true ∧ s = _ := by simpa using hs
    obtain ⟨ip, hip, haccepts⟩ := hsix h
    exact ⟨rfl, _, ip, rfl, hip, haccepts⟩

theorem dnsServers_reachable : ∀ s ∈ dnsServers config detour f, s.Reachable detour f := by
  rw [dnsServers_eq]
  split
  · exact publicServers_reachable detour f
  · exact profileServers_reachable config detour f

theorem dnsServers_tags_nodup : ((dnsServers config detour f).map DnsServer.tag).Nodup := by
  rw [dnsServers_eq]
  split
  · unfold publicServers
    cases detour <;> cases f.ipv4 <;> cases f.ipv6 <;> decide +kernel
  · rw [profileServers_tags]
    exact List.nodup_range.map profileTag_injective

/-- With one of the two families there is a server, so that the first can be read. -/
theorem dnsServers_ne_nil (h : f.ipv4 = true ∨ f.ipv6 = true) : dnsServers config detour f ≠ [] := by
  rw [dnsServers_eq]
  split
  · unfold publicServers
    rcases h with h | h <;> simp [h]
  · assumption

end servers

section references

/-- The DNS servers that a configuration refers to. -/
def BoxConfig.usedServers (box : BoxConfig) : List Str :=
  box.dns.final :: box.route.defaultDomainResolver :: box.dns.rules.map DnsRule.server ++
    box.outbounds.map DirectOutbound.resolver ++
    box.endpoints.flatMap fun e => e.tcpIPv4FallbackResolver.toList

def BoxConfig.serverTags (box : BoxConfig) : List Str := box.dns.servers.map DnsServer.tag

def Action.outbound : Action → Option Outbound
  | .route o => some o
  | _ => none

def BoxConfig.usedOutbounds (box : BoxConfig) : List Outbound :=
  box.route.final :: box.route.rules.filterMap fun r => r.action.outbound

def BoxConfig.outboundTags (box : BoxConfig) : List Outbound :=
  box.endpoints.map AwgEndpoint.tag ++ box.outbounds.map DirectOutbound.tag

def publicTags : List Str := [ascii "cloudflare-ipv4", ascii "cloudflare-ipv6"]

/-- The references of a configuration are to what it lists, and its servers fit the profile. -/
structure BoxConfig.Consistent (config : Config) (box : BoxConfig) : Prop where
  distinct : box.serverTags.Nodup
  servers : ∀ t ∈ box.usedServers, t ∈ box.serverTags
  outbounds : ∀ o ∈ box.usedOutbounds, o ∈ box.outboundTags
  fallback : ∀ e ∈ box.endpoints,
    (e.tcpIPv4FallbackResolver.isSome = true ↔ (detectProfileFamilies config).ipv4 = true) ∧
      ∀ t ∈ e.tcpIPv4FallbackResolver, ∃ s ∈ box.dns.servers, s.tag = t ∧ s.detour = .awgOut
  carried : ∀ s ∈ box.dns.servers, s.tag ≠ directDNS →
    s.Reachable .awgOut (detectProfileFamilies config)
  fallbackOnly : ∀ s ∈ box.dns.servers, s.tag ∈ publicTags →
    ∀ dns ∈ config.interface.dns, (detectProfileFamilies config).accepts dns = false

variable {config : Config} {f : ProfileFamilies}

theorem profileTag_not_public (n : Nat) : profileTag n ∉ publicTags := by
  have hhead : (profileTag n).head? = some 0x70 := rfl
  intro h
  have : ∀ t ∈ publicTags, t.head? ≠ some 0x70 := by decide +kernel
  exact this _ h hhead

theorem public_only (s : DnsServer) (hs : s ∈ dnsServers config .awgOut f) (htag : s.tag ∈ publicTags) :
    ∀ dns ∈ config.interface.dns, f.accepts dns = false := by
  intro dns hdns
  cases haccepts : f.accepts dns with
  | false => rfl
  | true =>
    -- an address of the profile is accepted, so all servers have numbered tags
    have hne := profileServers_ne_nil config .awgOut f dns hdns haccepts
    rw [dnsServers_eq, if_neg hne] at hs
    have hnumbered := List.mem_map_of_mem (f := DnsServer.tag) hs
    rw [profileServers_tags] at hnumbered
    obtain ⟨n, -, hn⟩ := List.mem_map.mp hnumbered
    rw [← hn] at htag
    exact absurd htag (profileTag_not_public n)

theorem dnsRule_server {vpnServer : Str} {strategy : DnsStrategy} {vpn : Bool} {rule : RouteRule}
    {r : DnsRule} (h : dnsRule vpnServer strategy vpn rule = some r) :
    r.server = vpnServer ∨ r.server = directDNS := by
  obtain ⟨domain, -, rfl⟩ := Option.map_eq_some_iff.mp h
  cases vpn
  · exact .inr rfl
  · exact .inl rfl

theorem policyDNSRules_servers (settings : RoutingSettings) (vpnServer : Str) (strategy : DnsStrategy) :
    ∀ r ∈ policyDNSRules settings vpnServer strategy, r.server = vpnServer ∨ r.server = directDNS := by
  intro r hr
  rcases List.mem_append.mp hr with hr | hr
  · obtain ⟨_, _, h⟩ := List.mem_filterMap.mp hr
    exact dnsRule_server h
  · obtain ⟨_, _, h⟩ := List.mem_filterMap.mp hr
    exact dnsRule_server h

/-- The server for retries is one of those behind the tunnel. -/
theorem fallbackDNS_mem (first : DnsServer) (rest : List DnsServer) :
    fallbackDNS (first :: rest) first.tag ∈ (first :: rest).map DnsServer.tag := by
  unfold fallbackDNS
  split
  · rename_i s hs
    exact List.mem_map_of_mem (List.mem_of_find?_eq_some hs)
  · exact List.mem_map_of_mem List.mem_cons_self

theorem awgEndpoint_safe (config : Config) : (awgEndpoint config).Safe := by
  unfold awgEndpoint
  apply Outcome.safe_bind
  · cases h : validateAWG config with
    | ok _ => exact Outcome.safe_ok _
    | err _ => exact Outcome.safe_err _
    | panic => exact absurd h (validateAWG_safe config)
  · intro _ _
    split
    · exact Outcome.safe_err _
    split
    · exact Outcome.safe_err _
    split
    · exact Outcome.safe_err _
    exact Outcome.safe_ok _

/-- The list of servers is not empty where its first element is read. -/
theorem buildConfig_safe (env : Env) (config : Config) (settings : RoutingSettings) :
    (buildConfig env config settings).Safe := by
  unfold buildConfig
  apply Outcome.safe_bind _ _ (Outcome.safe_ofExcept _)
  intro n _
  apply Outcome.safe_bind _ _ (awgEndpoint_safe config)
  intro endpoint _
  dsimp only
  split
  · exact Outcome.safe_err _
  · rename_i hfamilies
    have hsome : (detectProfileFamilies config).ipv4 = true ∨ (detectProfileFamilies config).ipv6 = true := by
      cases h4 : (detectProfileFamilies config).ipv4 with
      | true => exact .inl rfl
      | false =>
        cases h6 : (detectProfileFamilies config).ipv6 with
        | true => exact .inr rfl
        | false =>
          rw [h4, h6] at hfamilies
          exact absurd rfl hfamilies
    have hne := dnsServers_ne_nil config .awgOut _ hsome
    apply Outcome.safe_bind
    · exact index_safe _ 0 (List.length_pos_iff.mpr hne)
    · exact fun _ _ => Outcome.safe_ok _

section compiled
variable (env : Env) (n : RoutingSettings) (endpoint : AwgEndpoint) (first : DnsServer)
  (rest : List DnsServer)

/-- Every reference to a server is to the first one, to the direct one, or that of the endpoint. -/
theorem usedServers_cases {t : Str}
    (h : t ∈ (boxConfig env n f endpoint (first :: rest) first.tag).usedServers) :
    t = first.tag ∨ t = directDNS ∨ f.ipv4 = true ∧ t = fallbackDNS (first :: rest) first.tag := by
  simp only [BoxConfig.usedServers, boxConfig, List.cons_append, List.mem_cons, List.mem_append,
    List.mem_map, List.mem_flatMap, List.not_mem_nil, or_false] at h
  rcases h with h | h | (⟨r, hr, rfl⟩ | ⟨o, rfl, rfl⟩) | ⟨e, rfl, he⟩
  · exact .inl h
  · exact .inl h
  · rcases policyDNSRules_servers _ _ _ r hr with h | h
    · exact .inl h
    · exact .inr (.inl h)
  · exact .inr (.inl rfl)
  · have hsome : f.ipv4 = true ∧ t = fallbackDNS (first :: rest) first.tag := by
      cases h4 : f.ipv4 with
      | false => simp [h4] at he
      | true => exact ⟨rfl, by simpa [h4] using he⟩
    exact .inr (.inr hsome)

theorem boxConfig_consistent (htag : endpoint.tag = .awgOut)
    (hservers : dnsServers config .awgOut (detectProfileFamilies config) = first :: rest) :
    (boxConfig env n (detectProfileFamilies config) endpoint (first :: rest) first.tag).Consistent
      config := by
  have hbehind := dnsServers_behind config .awgOut (detectProfileFamilies config)
  have hdistinct := dnsServers_tags_nodup config .awgOut (detectProfileFamilies config)
  have hreachable := dnsServers_reachable config .awgOut (detectProfileFamilies config)
  rw [hservers] at hbehind hdistinct hreachable
  have hlisted : ∀ t ∈ (first :: rest).map DnsServer.tag,
      t ∈ ((first :: rest) ++ [directServer]).map DnsServer.tag := by
    intro t ht
    rw [List.map_append]
    exact List.mem_append_left _ ht
  constructor
  case distinct =>
    -- the tag of the direct server is not one of the others
    change (((first :: rest) ++ [directServer]).map DnsServer.tag).Nodup
    rw [List.map_append]
    apply hdistinct.append (List.nodup_singleton _)
    intro t ht hdirect
    obtain ⟨s, hs, rfl⟩ := List.mem_map.mp ht
    exact (hbehind s hs).tag (List.mem_singleton.mp hdirect)
  case servers =>
    intro t ht
    rcases usedServers_cases env n endpoint first rest ht with rfl | rfl | ⟨-, rfl⟩
    · exact hlisted _ (List.mem_map_of_mem List.mem_cons_self)
    · change directServer.tag ∈ ((first :: rest) ++ [directServer]).map DnsServer.tag
      exact List.mem_map_of_mem (List.mem_append_right _ (List.mem_singleton_self _))
    · exact hlisted _ (fallbackDNS_mem first rest)
  case outbounds =>
    intro o _
    cases o with
    | awgOut => exact List.mem_append_left _ (List.mem_singleton.mpr htag.symm)
    | direct => exact List.mem_append_right _ (List.mem_singleton.mpr rfl)
  case fallback =>
    intro e he
    obtain rfl := List.mem_singleton.mp he
    dsimp only
    cases (detectProfileFamilies config).ipv4 with
    | false => exact ⟨by simp, fun t ht => by cases ht⟩
    | true =>
      refine ⟨by simp, fun t ht => ?_⟩
      obtain rfl := Option.some.inj ht
      obtain ⟨s, hs, hstag⟩ := List.mem_map.mp (fallbackDNS_mem first rest)
      exact ⟨s, List.mem_append_left _ hs, hstag, (hbehind s hs).detour⟩
  case carried =>
    intro s hs hne
    rcases List.mem_append.mp hs with hs | hs
    · exact hreachable s hs
    · rw [List.mem_singleton.mp hs] at hne
      exact absurd rfl hne
  case fallbackOnly =>
    intro s hs hpublic
    rcases List.mem_append.mp hs with hs | hs
    · exact public_only s (hservers ▸ hs) hpublic
    · rw [List.mem_singleton.mp hs] at hpublic
      exact absurd hpublic (by decide +kernel)

end compiled

/-- A compiled configuration is consistent, and compiling never runs past the end of a list. -/
theorem compiled_config_consistent (env : Env) (config : Config) (settings : RoutingSettings) :
    buildConfig env config settings ≠ .panic ∧
      ∀ box, buildConfig env config settings = .ok box → box.Consistent config := by
  refine ⟨buildConfig_safe env config settings, fun box hbox => ?_⟩
  obtain ⟨n, endpoint, first, rest, -, hendpoint, hservers, rfl⟩ := buildConfig_ok env config settings box hbox
  exact boxConfig_consistent env n endpoint first rest (awgEndpoint_ok hendpoint).1 hservers

theorem compiled_config_consistent_sample :
    ∃ box, buildConfig sampleEnv sampleProfile (sampleSettings sampleRules) = .ok box ∧
      box.Consistent sampleProfile := by
  obtain ⟨box, hbox⟩ := sample_builds
  exact ⟨box, hbox, (compiled_config_consistent sampleEnv sampleProfile (sampleSettings sampleRules)).2 box hbox⟩

end references

end SmartAwg.Smart
