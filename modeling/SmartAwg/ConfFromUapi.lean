import Mathlib.Algebra.GroupWithZero.Nat
import SmartAwg.ConfAccepted

/-!
`FromUAPI`: the reader of the answer a device gives to `get=1`. Keys and numbers are those of the
answer; what the device does not report is taken from the profile it was started with.
-/

namespace SmartAwg.Conf

open Go

section values

def parseKeyHex (s : Str) : Except Err Key :=
  match hexDecode s with
  | .error _ => .error (.parse "Invalid key" s)
  | .ok k =>
    if h : k.length = keyLength then .ok ⟨k, h⟩
    else .error (.parse "Keys must decode to exactly 32 bytes" s)

def parseBytesOrStamp (s : Str) : Except Err UInt64 :=
  match parseUint s 64 with
  | .error _ => .error (.parse "Number must be a number between 0 and 2^64-1" s)
  | .ok n => .ok n.toUInt64

/-- A `time.Duration` of so many units, which wraps around. -/
def duration (t : UInt64) (unit : Nat) : Int := ((t.toNat * unit : Nat) : Int).bmod (2 ^ 64)

end values

section keys

/-- The cases of the switch for the interface. -/
inductive UapiInterfaceKey where
  | privateKey
  | listenPort
  | size (k : SizeKey)
  | text (k : TextKey)
  | packet (k : PacketKey)
  | headerProtectionKey
  | fwmark
  deriving DecidableEq

def uapiInterfaceKeys : List (String × UapiInterfaceKey) :=
  [("private_key", .privateKey), ("listen_port", .listenPort),
   ("jc", .size .jc), ("jmin", .size .jmin), ("jmax", .size .jmax),
   ("s1", .size .s1), ("s2", .size .s2), ("s3", .size .s3), ("s4", .size .s4),
   ("h1", .text .h1), ("h2", .text .h2), ("h3", .text .h3), ("h4", .text .h4),
   ("i1", .packet .i1), ("i2", .packet .i2), ("i3", .packet .i3), ("i4", .packet .i4),
   ("i5", .packet .i5), ("header_protection_key", .headerProtectionKey),
   ("content_padding_addition", .text .contentPaddingAddition),
   ("rekey_after_time", .text .rekeyAfterTime), ("rekey_timeout", .text .rekeyTimeout),
   ("reject_after_time", .text .rejectAfterTime), ("keepalive_timeout", .text .keepaliveTimeout),
   ("max_handshake_attempts", .text .maxHandshakeAttempts),
   ("random_trailers", .text .randomTrailers), ("disable_cookies", .text .disableCookies),
   ("fwmark", .fwmark)]

/-- The cases of the switch for a peer. -/
inductive UapiPeerKey where
  | publicKey
  | presharedKey
  | protocolVersion
  | allowedIP
  | persistentKeepaliveInterval
  | endpoint
  | txBytes
  | rxBytes
  | lastHandshakeTimeSec
  | lastHandshakeTimeNsec
  deriving DecidableEq

def uapiPeerKeys : List (String × UapiPeerKey) :=
  [("public_key", .publicKey), ("preshared_key", .presharedKey),
   ("protocol_version", .protocolVersion), ("allowed_ip", .allowedIP),
   ("persistent_keepalive_interval", .persistentKeepaliveInterval), ("endpoint", .endpoint),
   ("tx_bytes", .txBytes), ("rx_bytes", .rxBytes),
   ("last_handshake_time_sec", .lastHandshakeTimeSec),
   ("last_handshake_time_nsec", .lastHandshakeTimeNsec)]

def Interface.applyUapi (i : Interface) (key : UapiInterfaceKey) (val : Str) : Outcome Err Interface :=
  match key with
  | .privateKey => .ofExcept (parseKeyHex val) >>= fun k => .ok { i with privateKey := k }
  | .listenPort => .ofExcept (parsePort val) >>= fun p => .ok { i with listenPort := p }
  | .size k => .ofExcept (parseUint16 val k.errorName) >>= fun v => .ok (k.set i v)
  | .text k => .ok (k.set i val)
  | .packet k => .ok { i with ipackets := i.ipackets.insert (ascii k.name) val }
  | .headerProtectionKey =>
    match parseKeyHex val with
    | .ok k => .ok { i with headerProtectionKey := k }
    | .error _ => .err (.text "invalid HeaderProtectionKey")
  | .fwmark => .ok i

def Peer.applyUapi (p : Peer) (key : UapiPeerKey) (val : Str) : Outcome Err Peer :=
  match key with
  | .publicKey => .ofExcept (parseKeyHex val) >>= fun k => .ok { p with publicKey := k }
  | .presharedKey => .ofExcept (parseKeyHex val) >>= fun k => .ok { p with presharedKey := k }
  | .protocolVersion =>
    if val ≠ ascii "1" then .err (.parse "Protocol version must be 1" val) else .ok p
  | .allowedIP => parseIPCidr val >>= fun a => .ok { p with allowedIPs := p.allowedIPs ++ [a] }
  | .persistentKeepaliveInterval =>
    .ofExcept (parsePersistentKeepalive val) >>= fun k => .ok { p with persistentKeepalive := k }
  | .endpoint => parseEndpoint val >>= fun e => .ok { p with endpoint := e }
  | .txBytes => .ofExcept (parseBytesOrStamp val) >>= fun b => .ok { p with txBytes := b }
  | .rxBytes => .ofExcept (parseBytesOrStamp val) >>= fun b => .ok { p with rxBytes := b }
  | .lastHandshakeTimeSec =>
    .ofExcept (parseBytesOrStamp val) >>= fun t => .ok { p with
      lastHandshakeTime := (p.lastHandshakeTime + duration t (10 ^ 9)).bmod (2 ^ 64) }
  | .lastHandshakeTimeNsec =>
    .ofExcept (parseBytesOrStamp val) >>= fun t => .ok { p with
      lastHandshakeTime := (p.lastHandshakeTime + duration t 1).bmod (2 ^ 64) }

end keys

section lines

/-- What is taken over from the profile; keys, the port and the peers are not. -/
def Interface.forUapi (i : Interface) : Interface := { i with privateKey := Key.zero, listenPort := 0 }

/-- The profile that is built up, and the peer being read; without one the answer is still about
the interface. -/
structure UapiState where
  conf : Config
  peer : Option Peer

def UapiState.init (existing : Config) : UapiState where
  conf := { existing with interface := existing.interface.forUapi, peers := [] }
  peer := none

def UapiState.addPeer (st : UapiState) : Config :=
  { st.conf with peers := st.conf.peers ++ st.peer.toList }

/-- A key that is not of the whole answer, in the section that the answer is in. -/
def UapiState.assign (st : UapiState) (key val : Str) : Outcome Err UapiState :=
  match st.peer with
  | none =>
    match lookupKey uapiInterfaceKeys key with
    | none => .err (.parse "Invalid key for interface section" key)
    | some k =>
      st.conf.interface.applyUapi k val >>= fun i =>
      .ok { st with conf := { st.conf with interface := i } }
  | some p =>
    match lookupKey uapiPeerKeys key with
    | none => .err (.parse "Invalid key for peer section" key)
    | some k => p.applyUapi k val >>= fun p' => .ok { st with peer := some p' }

/-- A line that is not empty. -/
def answerLine (st : UapiState) (line : Str) : Outcome Err UapiState :=
  match indexByte line 0x3D with
  | none => .err (.parse "Config key is missing an equals separator" line)
  | some equals =>
    slice line 0 equals >>= fun key =>
    sliceFrom line (equals + 1) >>= fun val =>
    if val.length = 0 then .err (.parse "Key must have a value" line)
    else if key = ascii "errno" then
      if val = ascii "0" then .ok st else .err (.parse "Error in getting configuration" val)
    else if key = ascii "public_key" then
      UapiState.assign ⟨st.addPeer, some Peer.zero⟩ key val
    else st.assign key val

/-- The loop over the lines, up to the first empty one; the text behind the last line end is not a
line. -/
def answerLines : UapiState → List Str → Outcome Err UapiState
  | _, [] => .err (.text "EOF")
  | _, [_] => .err (.text "EOF")
  | st, line :: rest =>
    if line.length = 0 then .ok st else answerLine st line >>= fun st' => answerLines st' rest

def fromUAPI (text : Str) (existing : Config) : Outcome Err Config :=
  answerLines (UapiState.init existing) (text.splitOn 0x0A) >>= fun st => .ok st.addPeer

end lines

section networks

/-- The addresses of a profile and the networks of its peers are all canonical. -/
def Config.Networks (c : Config) : Prop :=
  (∀ a ∈ c.interface.addresses, a.Fits) ∧ ∀ p ∈ c.peers, ∀ a ∈ p.allowedIPs, a.Fits

theorem fromWgQuick_networks (text name : Str) (c : Config) (h : fromWgQuick text name = .ok c) :
    c.Networks := by
  obtain ⟨-, -, hinterface, -, hpeers⟩ := fromWgQuick_printable text name c h
  exact ⟨hinterface.addresses, fun p hp => (hpeers p hp).allowedIPs⟩

/-- No key of the answer is about an interface address. -/
theorem Interface.applyUapi_addresses (i i' : Interface) (key : UapiInterfaceKey) (val : Str)
    (h : i.applyUapi key val = .ok i') : i'.addresses = i.addresses := by
  cases key with
  | privateKey | listenPort =>
    obtain ⟨k, -, hok⟩ := (Outcome.bind_eq_ok _ _ _).mp h
    cases hok
    rfl
  | size k =>
    obtain ⟨v, -, hok⟩ := (Outcome.bind_eq_ok _ _ _).mp h
    cases hok
    cases k <;> rfl
  | text k =>
    cases h
    cases k <;> rfl
  | packet k | fwmark =>
    cases h
    rfl
  | headerProtectionKey =>
    simp only [Interface.applyUapi] at h
    split at h
    · cases h
      rfl
    · cases h

/-- A line of a peer adds the network that it names, or none. -/
theorem Peer.applyUapi_allowedIPs (p p' : Peer) (key : UapiPeerKey) (val : Str)
    (h : p.applyUapi key val = .ok p') :
    p'.allowedIPs = p.allowedIPs ∨
      ∃ a, parseIPCidr val = .ok a ∧ p'.allowedIPs = p.allowedIPs ++ [a] := by
  cases key with
  | allowedIP =>
    obtain ⟨a, ha, hok⟩ := (Outcome.bind_eq_ok _ _ _).mp h
    cases hok
    exact Or.inr ⟨a, ha, rfl⟩
  | protocolVersion =>
    simp only [Peer.applyUapi] at h
    split at h
    · cases h
    · cases h
      exact Or.inl rfl
  | publicKey | presharedKey | persistentKeepaliveInterval | endpoint | txBytes | rxBytes
  | lastHandshakeTimeSec | lastHandshakeTimeNsec =>
    obtain ⟨v, -, hok⟩ := (Outcome.bind_eq_ok _ _ _).mp h
    cases hok
    exact Or.inl rfl

/-- The networks read so far, those of the peer being read among them. -/
def UapiState.Networks (st : UapiState) : Prop := st.addPeer.Networks

theorem UapiState.assign_networks (st st' : UapiState) (key val : Str)
    (h : st.assign key val = .ok st') (hst : st.Networks) : st'.Networks := by
  obtain ⟨conf, peer⟩ := st
  unfold UapiState.assign at h
  cases peer with
  | none =>
    dsimp only at h
    split at h
    · cases h
    · obtain ⟨i, hi, hok⟩ := (Outcome.bind_eq_ok _ _ _).mp h
      cases hok
      refine ⟨?_, hst.2⟩
      have hsame : i.addresses = conf.interface.addresses := Interface.applyUapi_addresses _ _ _ _ hi
      intro a ha
      exact hst.1 a (show a ∈ conf.interface.addresses from hsame ▸ ha)
  | some p =>
    dsimp only at h
    split at h
    · cases h
    · obtain ⟨p', hp', hok⟩ := (Outcome.bind_eq_ok _ _ _).mp h
      cases hok
      have hp : ∀ a ∈ p.allowedIPs, a.Fits := hst.2 p (List.mem_append_right _ (List.mem_singleton_self _))
      refine ⟨hst.1, ?_⟩
      intro q hq
      rcases List.mem_append.mp hq with hold | hnew
      · exact hst.2 q (List.mem_append_left _ hold)
      · obtain rfl : q = p' := List.mem_singleton.mp hnew
        rcases Peer.applyUapi_allowedIPs _ _ _ _ hp' with hsame | ⟨a, ha, hadd⟩
        · rwa [hsame]
        · rw [hadd, List.forall_mem_append, List.forall_mem_singleton]
          exact ⟨hp, parseIPCidr_fits _ _ ha⟩

theorem answerLine_networks (st st' : UapiState) (line : Str) (h : answerLine st line = .ok st')
    (hst : st.Networks) : st'.Networks := by
  have hnew : UapiState.Networks ⟨st.addPeer, some Peer.zero⟩ := by
    refine ⟨hst.1, ?_⟩
    intro p hp
    rcases List.mem_append.mp hp with hold | hzero
    · exact hst.2 p hold
    · rw [List.mem_singleton.mp hzero]
      intro a ha
      cases ha
  unfold answerLine at h
  split at h
  · cases h
  · obtain ⟨key, -, h⟩ := (Outcome.bind_eq_ok _ _ _).mp h
    obtain ⟨val, -, h⟩ := (Outcome.bind_eq_ok _ _ _).mp h
    split_ifs at h
    · cases h
      exact hst
    · exact UapiState.assign_networks _ _ _ _ h hnew
    · exact UapiState.assign_networks _ _ _ _ h hst

theorem answerLines_networks (st st' : UapiState) (lines : List Str)
    (h : answerLines st lines = .ok st') (hst : st.Networks) : st'.Networks := by
  fun_induction answerLines st lines with
  | case1 => cases h
  | case2 => cases h
  | case3 st line rest hrest hempty =>
    cases h
    exact hst
  | case4 st line rest hrest hline ih =>
    obtain ⟨mid, hmid, hloop⟩ := (Outcome.bind_eq_ok _ _ _).mp h
    exact ih mid hloop (answerLine_networks st mid line hmid hst)

theorem fromUAPI_networks (text : Str) (existing c : Config) (h : fromUAPI text existing = .ok c)
    (hexisting : existing.Networks) : c.Networks := by
  obtain ⟨st, hst, hok⟩ := (Outcome.bind_eq_ok _ _ _).mp h
  cases hok
  apply answerLines_networks _ _ _ hst
  refine ⟨hexisting.1, ?_⟩
  intro p hp
  cases hp

end networks

end SmartAwg.Conf
