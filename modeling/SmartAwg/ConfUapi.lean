import SmartAwg.ConfValues

/-!
The text `ToUAPI` writes for the device, and the name resolution it uses. The answers of the
system's resolver are a parameter.
-/

namespace SmartAwg.Conf

open Go

/-- What `GetAddrInfoW` and its callers report. -/
inductive ResolveError where
  | nul
  | tryAgain
  | hostNotFound
  | other (code : Nat)
  deriving DecidableEq

/-- One entry of the address list; other families are skipped. -/
inductive AddrInfo where
  | inet4 (addr : {s : Str // s.length = 4})
  | inet6 (addr : {s : Str // s.length = 16}) (scope : UInt32)
  | other
  deriving DecidableEq

/-- The system around one call of `resolveHostname`: the answer and the state of the network
at each try. -/
structure Resolver where
  justBooted : Bool
  connected : Nat → Bool
  query : Nat → Str → Except ResolveError (List AddrInfo)

def inet6Text (addr : Str) (scope : UInt32) : Str :=
  ipString addr ++ if scope ≠ 0 then 0x25 :: itoa scope.toNat else []

/-- The loop over the list: the first IPv4 address, or else the first IPv6 one. -/
def pickAddress : List AddrInfo → Str → Except ResolveError Str
  | [], ipv6 => if ipv6 ≠ [] then .ok ipv6 else .error .hostNotFound
  | .inet4 addr :: _, _ => .ok (ipString addr.1)
  | .inet6 addr scope :: rest, ipv6 =>
    pickAddress rest (if ipv6 ≠ [] then ipv6 else inet6Text addr.1 scope)
  | .other :: rest, ipv6 => pickAddress rest ipv6

def resolveHostnameOnce (r : Resolver) (attempt : Nat) (name : Str) : Except ResolveError Str :=
  if 0x00 ∈ name then .error .nul
  else
    match r.query attempt name with
    | .error e => .error e
    | .ok infos => pickAddress infos []

/-- The retry loop; the waits between the tries are left out. -/
def resolveLoop (r : Resolver) (name : Str) : Nat → Nat → Except ResolveError Str
  | 0, _ => .error .hostNotFound
  | left + 1, attempt =>
    match resolveHostnameOnce r attempt name with
    | .ok t => .ok t
    | .error e =>
      if left = 0 then .error e
      else if e = .tryAgain ∨ (e = .hostNotFound ∧ r.justBooted ∧ ¬ r.connected attempt) then
        resolveLoop r name left (attempt + 1)
      else .error e

def resolveHostname (r : Resolver) (name : Str) : Except ResolveError Str :=
  resolveLoop r name (if r.justBooted then 40 else 10) 0

def boolToUAPI (v : Str) : Str :=
  if toLower (trimSpace v) ∈ ["on", "1", "true", "t", "yes"].map ascii then ascii "1" else ascii "0"

inductive UapiError where
  | validation (e : Err)
  | resolve (e : ResolveError)
  deriving DecidableEq

section entries

/-- A line `key=value`. -/
abbrev UapiEntry := String × Str

def uapiNum (key : String) (v : UInt16) : List UapiEntry :=
  if v > 0 then [(key, itoa v.toNat)] else []

def uapiText (key : String) (v : Str) : List UapiEntry := if v.length > 0 then [(key, v)] else []

def uapiKey (key : String) (k : Key) : List UapiEntry :=
  if !k.isZero then [(key, k.hexString)] else []

def uapiBool (key : String) (v : Str) : List UapiEntry :=
  if v.length > 0 then [(key, boolToUAPI v)] else []

/-- Of an entry that is written or left out: its key. -/
theorem entry_key {α β : Type} {c : Prop} [Decidable c] (key : α) (v : β) :
    ∀ e ∈ (if c then [(key, v)] else []), e.1 = key := by
  intro e he
  split at he
  · rw [List.mem_singleton.mp he]
  · cases he

end entries

/-- The lines before the first peer. -/
def Interface.uapiGroups (i : Interface) : List (List UapiEntry) :=
  [[("private_key", i.privateKey.hexString)],
   uapiNum "listen_port" i.listenPort,
   uapiNum "jc" i.junkPacketCount,
   uapiNum "jmin" i.junkPacketMinSize,
   uapiNum "jmax" i.junkPacketMaxSize,
   uapiNum "s1" i.initPacketJunkSize,
   uapiNum "s2" i.responsePacketJunkSize,
   uapiNum "s3" i.cookieReplyPacketJunkSize,
   uapiNum "s4" i.transportPacketJunkSize,
   uapiText "h1" i.initPacketMagicHeader,
   uapiText "h2" i.responsePacketMagicHeader,
   uapiText "h3" i.underloadPacketMagicHeader,
   uapiText "h4" i.transportPacketMagicHeader,
   PacketKey.all.flatMap fun k => uapiText k.name (i.packet k),
   uapiKey "header_protection_key" i.headerProtectionKey,
   uapiText "content_padding_addition" i.contentPaddingAddition,
   uapiText "rekey_after_time" i.rekeyAfterTime,
   uapiText "rekey_timeout" i.rekeyTimeout,
   uapiText "reject_after_time" i.rejectAfterTime,
   uapiText "keepalive_timeout" i.keepaliveTimeout,
   uapiText "max_handshake_attempts" i.maxHandshakeAttempts,
   uapiBool "random_trailers" i.randomTrailers,
   uapiBool "disable_cookies" i.disableCookies]

/-- The keepalive as the device takes it; the absent one and `off` are zero. -/
def Peer.uapiKeepalive (p : Peer) : Str :=
  if p.persistentKeepalive = [] ∨ p.persistentKeepalive = ascii "off" then ascii "0"
  else p.persistentKeepalive

/-- The lines of a peer, given its resolved endpoint. -/
def Peer.uapiGroups (p : Peer) (endpoint : Option Endpoint) : List (List UapiEntry) :=
  [[("public_key", p.publicKey.hexString)],
   uapiKey "preshared_key" p.presharedKey,
   endpoint.toList.map fun e => ("endpoint", e.string),
   [("persistent_keepalive_interval", p.uapiKeepalive)],
   if p.allowedIPs.length > 0 then
     ("replace_allowed_ips", ascii "true") :: p.allowedIPs.map fun a => ("allowed_ip", a.string)
   else []]

/-- The endpoint with its host replaced by the address it resolves to. -/
def Peer.resolve (resolve : Str → Except ResolveError Str) (p : Peer) :
    Except ResolveError (Option Endpoint) :=
  if p.endpoint.isEmpty then .ok none
  else
    match resolve p.endpoint.host with
    | .error e => .error e
    | .ok ip => .ok (some ⟨ip, p.endpoint.port⟩)

def peersUapi (resolve : Str → Except ResolveError Str) :
    List Peer → Except ResolveError (List UapiEntry)
  | [] => .ok []
  | p :: rest =>
    match p.resolve resolve with
    | .error e => .error e
    | .ok endpoint => (peersUapi resolve rest).map ((p.uapiGroups endpoint).flatten ++ ·)

/-- The lines of the whole configuration. -/
def Config.uapiEntries (c : Config) (peers : List UapiEntry) : List UapiEntry :=
  c.interface.uapiGroups.flatten ++
    ((if c.peers.length > 0 then [("replace_peers", ascii "true")] else []) ++ peers)

def uapiLine (e : UapiEntry) : Str := ascii e.1 ++ 0x3D :: e.2

/-- `ToUAPI`. -/
def toUAPI (resolve : Str → Except ResolveError Str) (c : Config) : Outcome UapiError Str :=
  match validateAWG c with
  | .panic => .panic
  | .err e => .err (.validation e)
  | .ok () =>
    match peersUapi resolve c.peers with
    | .error e => .err (.resolve e)
    | .ok peers => .ok ((c.uapiEntries peers).flatMap fun e => uapiLine e ++ [0x0A])

/-- The text has the lines of all peers, whose endpoints were resolved. -/
theorem toUAPI_entries {resolve : Str → Except ResolveError Str} {c : Config} {text : Str}
    (h : toUAPI resolve c = .ok text) : ∃ es, peersUapi resolve c.peers = .ok es ∧
      text = (c.uapiEntries es).flatMap fun e => uapiLine e ++ [0x0A] := by
  unfold toUAPI at h
  split at h
  · cases h
  · cases h
  split at h
  · cases h
  · rename_i es hes
    cases h
    exact ⟨es, hes, rfl⟩

end SmartAwg.Conf
