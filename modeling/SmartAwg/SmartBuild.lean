import SmartAwg.SmartSettings
import SmartAwg.ConfValidate

/-!
The configuration of the engine: `BuildConfig` and the generators of its rules. The result is the
value that is encoded as JSON; a field that is left out of an object is `none`.
-/

namespace SmartAwg.Smart

open Go Conf

section endpoint

/-- The values of the optional fields of an endpoint. -/
inductive Value where
  | int (n : Nat)
  | str (s : Str)
  | bool (b : Bool)
  deriving DecidableEq

structure EndpointPeer where
  address : Str
  port : Nat
  publicKey : Str
  allowedIPs : List Str
  persistentKeepaliveInterval : Str
  presharedKey : Option Str
  deriving DecidableEq

/-- The outbounds of the engine, the endpoint `awg-out` among them. -/
inductive Outbound where
  | awgOut
  | direct
  deriving DecidableEq

structure AwgEndpoint where
  tag : Outbound
  useIntegratedTun : Bool
  privateKey : Str
  address : List Str
  mtu : Nat
  peers : List EndpointPeer
  options : List (Str × Value)
  tcpIPv4FallbackResolver : Option Str
  deriving DecidableEq

def ipcidrs (values : List IPCidr) : List Str := values.map IPCidr.string

def firstNonZeroMTU (config : Config) : Nat :=
  if config.interface.mtu > 0 then config.interface.mtu.toNat else 1408

def addUint16 (key : String) (value : UInt16) : List (Str × Value) :=
  if value > 0 then [(ascii key, .int value.toNat)] else []

def addString (key : String) (value : Str) : List (Str × Value) :=
  if value = [] then [] else [(ascii key, .str value)]

def addIPackets (values : StringMap) : List (Str × Value) :=
  values.entries.flatMap fun e => if e.2 = [] then [] else [(toLower e.1, .str e.2)]

def addKey (key : String) (value : Key) : List (Str × Value) :=
  if value.isZero then [] else [(ascii key, .str value.string)]

/-- A switch; a value that is not one is written as `false`. -/
def addBool (key : String) (value : Str) : List (Str × Value) :=
  if value = [] then []
  else [(ascii key, .bool (match parseAWGBool value with | .ok b => b | .error _ => false))]

/-- The fields of an endpoint that are written when they are set, in their order. -/
def endpointOptions (i : Interface) : List (Str × Value) :=
  addUint16 "jc" i.junkPacketCount ++ addUint16 "jmin" i.junkPacketMinSize ++
  addUint16 "jmax" i.junkPacketMaxSize ++ addUint16 "s1" i.initPacketJunkSize ++
  addUint16 "s2" i.responsePacketJunkSize ++ addUint16 "s3" i.cookieReplyPacketJunkSize ++
  addUint16 "s4" i.transportPacketJunkSize ++ addString "h1" i.initPacketMagicHeader ++
  addString "h2" i.responsePacketMagicHeader ++ addString "h3" i.underloadPacketMagicHeader ++
  addString "h4" i.transportPacketMagicHeader ++
  addKey "header_protection_key" i.headerProtectionKey ++
  addString "content_padding_addition" i.contentPaddingAddition ++
  addString "rekey_after_time" i.rekeyAfterTime ++ addString "rekey_timeout" i.rekeyTimeout ++
  addString "reject_after_time" i.rejectAfterTime ++
  addString "keepalive_timeout" i.keepaliveTimeout ++
  addString "max_handshake_attempts" i.maxHandshakeAttempts ++
  addBool "random_trailers" i.randomTrailers ++ addBool "disable_cookies" i.disableCookies ++
  addIPackets i.ipackets

/-- The networks of a peer; a peer without any gets the two default routes. -/
def endpointAllowedIPs (peer : Peer) : List Str :=
  if peer.allowedIPs = [] then [ascii "0.0.0.0/0", ascii "::/0"] else ipcidrs peer.allowedIPs

def endpointPeer (peer : Peer) : EndpointPeer where
  address := peer.endpoint.host
  port := peer.endpoint.port.toNat
  publicKey := peer.publicKey.string
  allowedIPs := endpointAllowedIPs peer
  persistentKeepaliveInterval := peer.persistentKeepalive
  presharedKey := if peer.presharedKey.isZero then none else some peer.presharedKey.string

def awgEndpoint (config : Config) : Outcome SmartErr AwgEndpoint := do
  (validateAWG config).mapErr .conf
  if config.interface.addresses = [] then
    .err (.text "smart mode requires at least one interface address")
  else if config.peers = [] then .err (.text "smart mode requires at least one peer")
  else if config.peers.any fun peer => peer.endpoint.isEmpty then
    .err (.text "smart mode requires peer endpoint")
  else .ok {
    tag := .awgOut
    useIntegratedTun := false
    privateKey := config.interface.privateKey.string
    address := ipcidrs config.interface.addresses
    mtu := firstNonZeroMTU config
    peers := config.peers.map endpointPeer
    options := endpointOptions config.interface
    tcpIPv4FallbackResolver := none }

/-- What an endpoint is built from; every peer has an address to be reached at. -/
theorem awgEndpoint_ok {config : Config} {endpoint : AwgEndpoint} (h : awgEndpoint config = .ok endpoint) :
    endpoint.tag = .awgOut ∧ endpoint.options = endpointOptions config.interface ∧
      endpoint.peers = config.peers.map endpointPeer ∧ ∀ p ∈ config.peers, p.endpoint.isEmpty = false := by
  unfold awgEndpoint at h
  obtain ⟨-, -, h⟩ := (Outcome.bind_eq_ok _ _ _).mp h
  split at h
  · cases h
  split at h
  · cases h
  split at h
  · cases h
  · rename_i hempty
    cases h
    exact ⟨rfl, rfl, rfl, by simpa using hempty⟩

end endpoint

section families

structure ProfileFamilies where
  ipv4 : Bool
  ipv6 : Bool
  deriving DecidableEq

def isIPv4 (ip : Str) : Bool := (to4 ip).isSome

/-- `To16` is not `nil` although `To4` is. -/
def isIPv6 (ip : Str) : Bool := !isIPv4 ip && (ip.length == 4 || ip.length == 16)

def detectProfileFamilies (config : Config) : ProfileFamilies :=
  let defaults := (config.peers.flatMap Peer.allowedIPs).filter fun a => a.cidr == 0
  { ipv4 := config.interface.addresses.any (fun a => isIPv4 a.ip) &&
      defaults.any fun a => isIPv4 a.ip
    ipv6 := config.interface.addresses.any (fun a => isIPv6 a.ip) &&
      defaults.any fun a => isIPv6 a.ip }

inductive DnsStrategy where
  | preferIPv4
  | ipv4Only
  | ipv6Only
  deriving DecidableEq

def ProfileFamilies.dnsStrategy (f : ProfileFamilies) : DnsStrategy :=
  if f.ipv4 && f.ipv6 then .preferIPv4 else if f.ipv4 then .ipv4Only else .ipv6Only

def ProfileFamilies.accepts (f : ProfileFamilies) (ip : Str) : Bool :=
  if isIPv4 ip then f.ipv4 else isIPv6 ip && f.ipv6

end families

section servers

inductive ServerType where
  | udp
  | localDNS
  deriving DecidableEq

structure DnsServer where
  type : ServerType
  tag : Str
  server : Option Str
  serverPort : Option Nat
  detour : Outbound
  preferGo : Option Bool
  deriving DecidableEq

/-- `addServer`; the addresses seen are those of the servers so far. -/
def addServer (detour : Outbound) (servers : List DnsServer) (tag address : Str) :
    List DnsServer :=
  if address = [] || servers.any fun s => s.server == some address then servers
  else servers ++ [{
    type := .udp, tag := tag, server := some address, serverPort := some 53, detour := detour,
    preferGo := none }]

/-- The servers of the profile that its families can reach. -/
def profileServers (config : Config) (detour : Outbound) (f : ProfileFamilies) : List DnsServer :=
  config.interface.dns.foldl (fun servers dns =>
    if dns = [] || !f.accepts dns then servers
    else addServer detour servers (ascii "profile-dns-" ++ itoa servers.length) (ipString dns)) []

def dnsServers (config : Config) (detour : Outbound) (f : ProfileFamilies) : List DnsServer :=
  let servers := profileServers config detour f
  if servers = [] then
    let servers :=
      if f.ipv4 then addServer detour servers (ascii "cloudflare-ipv4") (ascii "1.1.1.1")
      else servers
    if f.ipv6 then addServer detour servers (ascii "cloudflare-ipv6") (ascii "2606:4700:4700::1111")
    else servers
  else servers

def directDNS : Str := ascii "direct-dns"

def directServer : DnsServer where
  type := .localDNS
  tag := directDNS
  server := none
  serverPort := none
  detour := .direct
  preferGo := some true

end servers

section rules

inductive Action where
  | sniff (timeout : String)
  | hijackDNS
  | route (outbound : Outbound)
  | reject
  deriving DecidableEq

/-- A rule of the engine: what it is about, and what to do. -/
structure RouteRule where
  processName : Option (List Str) := none
  processPath : Option (List Str) := none
  domain : Option (List Str) := none
  domainSuffix : Option (List Str) := none
  ipCidr : Option (List Str) := none
  ipVersion : Option Nat := none
  protocol : Option Str := none
  action : Action
  deriving DecidableEq

def RouteTarget.outbound (target : RouteTarget) : Outbound :=
  if target = .vpn then .awgOut else .direct

def customRuleObject (rule : CustomRule) : RouteRule :=
  let action := Action.route rule.target.outbound
  match rule.kind with
  | .application =>
    if isPath rule.value then { processPath := some [rule.value], action := action }
    else { processName := some [rule.value], action := action }
  | .domain =>
    { domain := some [rule.value], domainSuffix := some [0x2E :: rule.value], action := action }
  | .cidr => { ipCidr := some [rule.value], action := action }
  | .other _ => { action := action }

/-- A list without repetition, and whether a value is in it, in one. -/
def addNew (values : List Str) (v : Str) : List Str := if v ∈ values then values else values ++ [v]

structure ServiceEntries where
  processes : List Str := []
  domains : List Str := []
  suffixes : List Str := []

/-- A suffix stands for its root as well. -/
def ServiceEntries.addSuffix (e : ServiceEntries) (suffix : Str) : ServiceEntries :=
  let root := trimFront [0x2E] suffix
  { e with
    suffixes := addNew e.suffixes suffix
    domains := if root = [] then e.domains else addNew e.domains root }

def ServiceEntries.addService (e : ServiceEntries) (s : Service) : ServiceEntries :=
  s.domainSuffixes.foldl ServiceEntries.addSuffix { e with
    processes := s.processNames.foldl addNew e.processes
    domains := s.domains.foldl addNew e.domains }

def serviceRuleObjects (services : List Service) (outbound : Outbound) : List RouteRule :=
  let e := services.foldl ServiceEntries.addService {}
  (if e.processes = [] then []
    else [{ processName := some e.processes, action := .route outbound }]) ++
  (if e.domains = [] ∧ e.suffixes = [] then []
    else [{ domain := some e.domains, domainSuffix := some e.suffixes, action := .route outbound }])

/-- The rules of one regional service. -/
def regionalRules (outbound : Outbound) (s : Service) : List RouteRule :=
  (if s.processNames = [] then []
    else [{ processName := some s.processNames, action := .route outbound }]) ++
  [{ domain := some (s.domains ++ s.domainSuffixes.map (trimFront [0x2E])),
     domainSuffix := some s.domainSuffixes, action := .route outbound }]

def RoutingSettings.serviceTarget (settings : RoutingSettings) (s : Service) : RouteTarget :=
  if settings.serviceUsesVPN s.id then .vpn else .direct

def regionalRuleObjects (settings : RoutingSettings) : List RouteRule :=
  regionalServices.flatMap fun s => regionalRules (settings.serviceTarget s).outbound s

structure DnsRule where
  domain : List Str
  domainSuffix : Option (List Str)
  server : Str
  strategy : DnsStrategy
  deriving DecidableEq

/-- `add` of `policyDNSRules`: only rules on domains are about names. -/
def dnsRule (vpnServer : Str) (vpnStrategy : DnsStrategy) (vpn : Bool) (rule : RouteRule) :
    Option DnsRule :=
  rule.domain.map fun domain => {
    domain := domain
    domainSuffix := rule.domainSuffix
    server := if vpn then vpnServer else directDNS
    strategy := if vpn then vpnStrategy else .preferIPv4 }

def policyDNSRules (settings : RoutingSettings) (vpnServer : Str) (vpnStrategy : DnsStrategy) :
    List DnsRule :=
  ((settings.customRules.filter fun r => r.enabled && r.kind == .domain).filterMap fun r =>
    dnsRule vpnServer vpnStrategy (r.target = .vpn) (customRuleObject r)) ++
  (regionalRuleObjects settings).filterMap fun r =>
    dnsRule vpnServer vpnStrategy (r.action = .route .awgOut) r

def localCIDRs : List Str :=
  List.map ascii ["10.0.0.0/8", "172.16.0.0/12", "192.168.0.0/16", "169.254.0.0/16", "127.0.0.0/8",
    "224.0.0.0/4", "255.255.255.255/32", "::1/128", "fc00::/7", "fe80::/10", "ff00::/8"]

/-- The rules that are not about a destination of their own. -/
def preludeRules : List RouteRule :=
  [{ action := .sniff "300ms" }, { protocol := some (ascii "dns"), action := .hijackDNS }]

def localRule : RouteRule := { ipCidr := some localCIDRs, action := .route .direct }

def updateDomains : List Str := List.map ascii ["raw.githubusercontent.com", "github.com"]

/-- What follows the rules on local networks: the selected services, or the guards against a
family that the profile does not carry. -/
def modeRules (env : Env) (settings : RoutingSettings) (f : ProfileFamilies) : List RouteRule :=
  if settings.mode = Mode.selected.text then
    serviceRuleObjects (settings.selectedServices env) .awgOut ++
      [{ domain := some updateDomains, action := .route .awgOut }]
  else
    (if f.ipv4 then [] else [{ ipVersion := some 4, action := .reject }]) ++
      (if f.ipv6 then [] else [{ ipVersion := some 6, action := .reject }])

def routeRules (env : Env) (settings : RoutingSettings) (f : ProfileFamilies) : List RouteRule :=
  preludeRules ++ settings.enabledRules.map customRuleObject ++ regionalRuleObjects settings ++
    [localRule] ++ modeRules env settings f

end rules

section config

structure DnsOptions where
  servers : List DnsServer
  rules : List DnsRule
  independentCache : Bool
  final : Str
  strategy : DnsStrategy
  reverseMapping : Bool
  cacheCapacity : Nat
  deriving DecidableEq

structure TunInbound where
  interfaceName : Str
  address : List Str
  mtu : Nat
  autoRoute : Bool
  strictRoute : Bool
  stack : String
  endpointIndependentNat : Bool
  deriving DecidableEq

structure DirectOutbound where
  tag : Outbound
  resolver : Str
  strategy : DnsStrategy
  deriving DecidableEq

structure RouteOptions where
  defaultDomainResolver : Str
  rules : List RouteRule
  final : Outbound
  autoDetectInterface : Bool
  deriving DecidableEq

structure BoxConfig where
  dns : DnsOptions
  endpoints : List AwgEndpoint
  inbounds : List TunInbound
  outbounds : List DirectOutbound
  route : RouteOptions
  deriving DecidableEq

def tunInbound : TunInbound where
  interfaceName := ascii "pinus-smart-preview"
  address := List.map ascii ["172.19.77.1/30", "fdfe:dcba:9876::1/126"]
  mtu := 1400
  autoRoute := true
  strictRoute := true
  stack := "mixed"
  endpointIndependentNat := true

/-- The first server with an IPv4 address, for retries over IPv4. -/
def fallbackDNS (servers : List DnsServer) (finalDNS : Str) : Str :=
  match servers.find? fun s =>
      s.server.any fun address => (parseIP address).any fun ip => isIPv4 ip with
  | some s => s.tag
  | none => finalDNS

/-- The configuration of normal settings, once the checks are done. -/
def boxConfig (env : Env) (settings : RoutingSettings) (f : ProfileFamilies)
    (endpoint : AwgEndpoint) (servers : List DnsServer) (finalDNS : Str) : BoxConfig where
  dns := {
    servers := servers ++ [directServer]
    rules := policyDNSRules settings finalDNS f.dnsStrategy
    independentCache := true
    final := finalDNS
    strategy := f.dnsStrategy
    reverseMapping := true
    cacheCapacity := 4096 }
  endpoints := [{ endpoint with
    tcpIPv4FallbackResolver := if f.ipv4 then some (fallbackDNS servers finalDNS) else none }]
  inbounds := [tunInbound]
  outbounds := [{ tag := .direct, resolver := directDNS, strategy := .preferIPv4 }]
  route := {
    defaultDomainResolver := finalDNS
    rules := routeRules env settings f
    final := if settings.mode = Mode.selected.text then .direct else .awgOut
    autoDetectInterface := true }

def buildConfig (env : Env) (config : Config) (settings : RoutingSettings) :
    Outcome SmartErr BoxConfig := do
  let settings ← Outcome.ofExcept (settings.normalized env)
  let endpoint ← awgEndpoint config
  let f := detectProfileFamilies config
  if !f.ipv4 && !f.ipv6 then
    .err (.text ("smart mode requires an IPv4 or IPv6 default AllowedIPs route " ++
      "with a matching interface address"))
  else
    let servers := dnsServers config .awgOut f
    let first ← index servers 0
    .ok (boxConfig env settings f endpoint servers first.tag)

end config

section result

/-- A server behind the given outbound, under a tag of its own. -/
structure DnsServer.Behind (detour : Outbound) (s : DnsServer) : Prop where
  detour : s.detour = detour
  tag : s.tag ≠ directDNS

theorem addServer_behind (detour : Outbound) (servers : List DnsServer) (tag address : Str)
    (htag : tag ≠ directDNS) (h : ∀ s ∈ servers, s.Behind detour) :
    ∀ s ∈ addServer detour servers tag address, s.Behind detour := by
  unfold addServer
  split
  · exact h
  · exact List.forall_mem_append.mpr ⟨h, List.forall_mem_singleton.mpr ⟨rfl, htag⟩⟩

theorem profileServers_behind (config : Config) (detour : Outbound) (f : ProfileFamilies) :
    ∀ s ∈ profileServers config detour f, s.Behind detour := by
  -- every step of the fold adds at most one server, with this detour
  unfold profileServers
  apply List.foldlRecOn (motive := fun servers : List DnsServer => ∀ s ∈ servers, s.Behind detour)
  · exact fun s hs => absurd hs List.not_mem_nil
  · intro servers hservers dns _
    split
    · exact hservers
    · apply addServer_behind detour servers _ _ _ hservers
      intro htag
      have hhead := congrArg List.head? htag
      rw [show ascii "profile-dns-" = 0x70 :: ascii "rofile-dns-" from by decide,
        show directDNS = 0x64 :: ascii "irect-dns" from by decide] at hhead
      cases hhead

theorem dnsServers_behind (config : Config) (detour : Outbound) (f : ProfileFamilies) :
    ∀ s ∈ dnsServers config detour f, s.Behind detour := by
  have hprofile := profileServers_behind config detour f
  unfold dnsServers
  simp only
  split
  · have hipv4 : ∀ s ∈ (if f.ipv4 then addServer detour (profileServers config detour f)
        (ascii "cloudflare-ipv4") (ascii "1.1.1.1") else profileServers config detour f),
        s.Behind detour := by
      split
      · exact addServer_behind detour _ _ _ (by decide) hprofile
      · exact hprofile
    split
    · exact addServer_behind detour _ _ _ (by decide) hipv4
    · exact hipv4
  · exact hprofile

/-- What a configuration is made of. -/
theorem buildConfig_ok (env : Env) (config : Config) (settings : RoutingSettings) (box : BoxConfig)
    (h : buildConfig env config settings = .ok box) :
    ∃ n endpoint first rest, settings.normalized env = .ok n ∧ awgEndpoint config = .ok endpoint ∧
      dnsServers config .awgOut (detectProfileFamilies config) = first :: rest ∧
      box = boxConfig env n (detectProfileFamilies config) endpoint (first :: rest) first.tag := by
  unfold buildConfig at h
  obtain ⟨n, hn, h⟩ := (Outcome.bind_eq_ok _ _ _).mp h
  obtain ⟨endpoint, hendpoint, h⟩ := (Outcome.bind_eq_ok _ _ _).mp h
  simp only at h
  split at h
  · cases h
  obtain ⟨first, hfirst, h⟩ := (Outcome.bind_eq_ok _ _ _).mp h
  cases hservers : dnsServers config .awgOut (detectProfileFamilies config) with
  | nil =>
    rw [hservers] at hfirst
    cases hfirst
  | cons server rest =>
    rw [hservers] at hfirst h
    cases hfirst
    cases h
    exact ⟨n, endpoint, first, rest, (Outcome.ofExcept_eq_ok _ _).mp hn, hendpoint, rfl, rfl⟩

end result

end SmartAwg.Smart
