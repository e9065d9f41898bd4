import SmartAwg.DeviceObf
import SmartAwg.GoScanner
import SmartAwg.RouteTable

/-!
The "set" operation of the device's configuration protocol (`IpcSetOperation`). What the
operation needs from outside, the socket bind and the curve, is a parameter. An operation that
fails keeps what it changed before the failing line, so errors carry the state.
-/

namespace SmartAwg.Awg

open Go

structure UintRange where
  lo : UInt32
  hi : UInt32
  deriving DecidableEq

namespace UintRange

def zero : UintRange := ⟨0, 0⟩

def isZero (r : UintRange) : Bool := r == zero

def overlap (l r : UintRange) : Bool := l.lo ≤ r.hi && r.lo ≤ l.hi

end UintRange

/-- What a wrapped error says; `std` stands for the standard library's own message. -/
inductive Cause where
  | none
  | text (msg : String)
  | value (v : Str)
  | num (e : NumError)
  | hex (e : HexError)
  | chain (e : ChainError)
  | std (func : String) (input : Str)
  deriving DecidableEq

def UintRange.fromString (str : Str) : Except Cause UintRange :=
  match str.splitOn 0x2D with
  | [first] =>
    match parseUint first 32 with
    | .error e => .error (.num e)
    | .ok lo => .ok ⟨lo.toUInt32, lo.toUInt32⟩
  | [first, second] =>
    match parseUint first 32 with
    | .error e => .error (.num e)
    | .ok lo =>
      match parseUint second 32 with
      | .error e => .error (.num e)
      | .ok hi =>
        if hi < lo then .error (.text "wrong range specified") else .ok ⟨lo.toUInt32, hi.toUInt32⟩
  | _ => .error (.text "wrong format")

/-- One value for each of the four packet types. -/
structure Quad (α : Type) where
  init : α
  response : α
  cookie : α
  transport : α
  deriving DecidableEq

inductive Slot where
  | init | response | cookie | transport
  deriving DecidableEq

namespace Quad
variable {α : Type}

def toList (q : Quad α) : List α := [q.init, q.response, q.cookie, q.transport]

def get (q : Quad α) : Slot → α
  | .init => q.init
  | .response => q.response
  | .cookie => q.cookie
  | .transport => q.transport

def set (q : Quad α) (v : α) : Slot → Quad α
  | .init => { q with init := v }
  | .response => { q with response := v }
  | .cookie => { q with cookie := v }
  | .transport => { q with transport := v }

end Quad

def noiseKeySize : Nat := 32

def headerCipherNonceSize : UInt32 := 12

def maxPeers : Nat := 65536

def zeroKey : Str := List.replicate noiseKeySize 0

structure DevicePeer where
  presharedKey : Str
  endpoint : Option (Addr × UInt16)
  persistentKeepalive : UintRange
  deriving DecidableEq

def DevicePeer.new : DevicePeer := ⟨zeroKey, none, UintRange.zero⟩

inductive RangeKey where
  | contentPaddingAddition | rekeyAfterTime | rekeyTimeout | rejectAfterTime | keepaliveTimeout
  | maxHandshakeAttempts
  deriving DecidableEq

inductive FlagKey where
  | randomTrailers | disableCookies
  deriving DecidableEq

/-- The settings of the junk packets. -/
inductive JunkKey where
  | jc | jmin | jmax
  deriving DecidableEq

structure Device where
  privateKey : Str
  publicKey : Str
  port : UInt16
  fwmark : UInt32
  junk : JunkKey → UInt32
  headers : Quad UintRange
  paddings : Quad UInt32
  headerProtectionKey : Str
  ipackets : Fin 5 → Option ObfChain
  ranges : RangeKey → UintRange
  flags : FlagKey → Bool
  peers : List (Str × DevicePeer)
  allowedips : RouteTable Str

/-- The parts of the outside world the operation uses. -/
structure Env where
  publicKeyOf : Str → Str
  bindUpdate : UInt16 → Bool
  bindSetMark : UInt32 → Bool
  parseEndpoint : Str → Option (Addr × UInt16)

/-- The device `NewDevice` returns; its headers are the plain message types. -/
def Device.new : Device where
  privateKey := zeroKey
  publicKey := zeroKey
  port := 0
  fwmark := 0
  junk := fun _ => 0
  headers := ⟨⟨1, 1⟩, ⟨2, 2⟩, ⟨3, 3⟩, ⟨4, 4⟩⟩
  paddings := ⟨0, 0, 0, 0⟩
  headerProtectionKey := zeroKey
  ipackets := fun _ => none
  ranges := fun _ => UintRange.zero
  flags := fun _ => false
  peers := []
  allowedips := []

inductive IpcCode where
  | io | protocol | invalid | portInUse
  deriving DecidableEq

structure IPCError where
  code : IpcCode
  msg : String
  cause : Cause
  deriving DecidableEq

/-- The headers, paddings and key that are merged into the device at the end. -/
structure IpcSetDevice where
  headers : Quad UintRange
  paddings : Quad UInt32
  headerProtectionKey : Str
  deriving DecidableEq

/-- The peer being configured; a dummy stands for none of the device's peers. -/
structure IpcSetPeer where
  publicKey : Str
  dummy : Bool
  created : Bool
  deriving DecidableEq

structure IpcState where
  device : Device
  ipcDev : IpcSetDevice
  peer : Option IpcSetPeer

/-- The state after a line, or the error with the state it left. -/
abbrev Handled := Except (IPCError × IpcState) IpcState

def IpcState.fail (st : IpcState) (code : IpcCode) (msg : String) (cause : Cause) : Handled :=
  .error (⟨code, msg, cause⟩, st)

/-- A parse, its error wrapped with the message of the caller. -/
def IpcState.parsed {α : Type} (st : IpcState) (msg : String) (x : Except Cause α)
    (k : α → Handled) : Handled :=
  match x with
  | .error cause => st.fail .invalid msg cause
  | .ok a => k a

def parseNum (value : Str) (bits : Nat) : Except Cause Nat :=
  match parseUint value bits with
  | .error e => .error (.num e)
  | .ok n => .ok n

/-- `strconv.ParseBool`. -/
def parseBool (value : Str) : Except Cause Bool :=
  if value ∈ ["1", "t", "T", "true", "TRUE", "True"].map ascii then .ok true
  else if value ∈ ["0", "f", "F", "false", "FALSE", "False"].map ascii then .ok false
  else .error (.num ⟨"ParseBool", value, .invalidSyntax⟩)

def loadExactHex (src : Str) : Except Cause Str :=
  match hexDecode src with
  | .error e => .error (.hex e)
  | .ok slice =>
    if slice.length ≠ noiseKeySize then .error (.text "hex string does not fit the slice")
    else .ok slice

def parseChain (value : Str) : Except Cause (Option ObfChain) :=
  match newObfChain value with
  | .ok chain => .ok chain
  | .err e => .error (.chain e)
  -- the slices of `newObfChain` are in range
  | .panic => .error (.text "slice bounds out of range")

def clamp (sk : Str) : Str :=
  (sk.modify 0 (· &&& 248)).modify 31 fun b => (b &&& 127) ||| 64

/-- The zero key is not clamped. -/
def fromMaybeZeroHex (src : Str) : Except Cause Str :=
  match loadExactHex src with
  | .error e => .error e
  | .ok key => if key = zeroKey then .ok key else .ok (clamp key)

def Device.removePeer (d : Device) (key : Str) : Device :=
  { d with
    peers := d.peers.filter fun p => p.1 ≠ key
    allowedips := d.allowedips.removeValue key }

def Device.removeAllPeers (d : Device) : Device :=
  { d with
    peers := []
    allowedips := d.peers.foldl (fun t p => t.removeValue p.1) d.allowedips }

def Device.setPrivateKey (d : Device) (env : Env) (sk : Str) : Device :=
  if sk = d.privateKey then d
  else
    let publicKey := env.publicKeyOf sk
    { (if d.peers.any fun p => p.1 == publicKey then d.removePeer publicKey else d) with
      privateKey := sk
      publicKey := publicKey }

inductive DeviceKey where
  | privateKey
  | listenPort
  | fwmark
  | replacePeers
  | junk (k : JunkKey)
  | padding (k : Slot)
  | header (k : Slot)
  | ipacket (i : Fin 5)
  | headerProtectionKey
  | range (k : RangeKey)
  | flag (k : FlagKey)
  deriving DecidableEq

/-- The cases of the switch in `handleDeviceLine`. -/
def deviceKeys : List (String × DeviceKey) :=
  [("private_key", .privateKey), ("listen_port", .listenPort), ("fwmark", .fwmark),
   ("replace_peers", .replacePeers), ("jc", .junk .jc), ("jmin", .junk .jmin),
   ("jmax", .junk .jmax), ("s1", .padding .init), ("s2", .padding .response),
   ("s3", .padding .cookie), ("s4", .padding .transport), ("h1", .header .init),
   ("h2", .header .response), ("h3", .header .cookie), ("h4", .header .transport),
   ("i1", .ipacket 0), ("i2", .ipacket 1), ("i3", .ipacket 2), ("i4", .ipacket 3),
   ("i5", .ipacket 4), ("header_protection_key", .headerProtectionKey),
   ("content_padding_addition", .range .contentPaddingAddition),
   ("rekey_after_time", .range .rekeyAfterTime), ("rekey_timeout", .range .rekeyTimeout),
   ("reject_after_time", .range .rejectAfterTime),
   ("keepalive_timeout", .range .keepaliveTimeout),
   ("max_handshake_attempts", .range .maxHandshakeAttempts),
   ("random_trailers", .flag .randomTrailers), ("disable_cookies", .flag .disableCookies)]

/-- The message before the wrapped parse error of each key. -/
def DeviceKey.parseMessage : DeviceKey → String
  | .privateKey => "failed to set private_key"
  | .listenPort => "failed to parse listen_port"
  | .fwmark => "invalid fwmark"
  | .replacePeers => "failed to set replace_peers, invalid value"
  | .junk .jc => "failed to parse jc"
  | .junk .jmin => "failed to parse jmin"
  | .junk .jmax => "failed to parse jmax"
  | .padding .init => "failed to parse s1"
  | .padding .response => "failed to parse s2"
  | .padding .cookie => "failed to parse s3"
  | .padding .transport => "failed to parse s4"
  | .header .init => "failed to parse H1"
  | .header .response => "failed to parse H2"
  | .header .cookie => "failed to parse H3"
  | .header .transport => "failed to parse H4"
  | .ipacket i => s!"failed to parse I{i.val + 1}"
  | .headerProtectionKey => "failed to set header_protection_key"
  | .range .contentPaddingAddition => "failed to parse content_padding_addition"
  | .range .rekeyAfterTime => "failed to parse rekey after time"
  | .range .rekeyTimeout => "failed to parse rekey timeout"
  | .range .rejectAfterTime => "failed to parse reject after time"
  | .range .keepaliveTimeout => "failed to parse keepalive timeout"
  | .range .maxHandshakeAttempts => "failed to parse max handshake attempts"
  | .flag .randomTrailers => "failed to parse random trailers"
  | .flag .disableCookies => "failed to parse disable cookies"

/-- One case of the switch. -/
def applyDeviceKey (env : Env) (st : IpcState) (key : DeviceKey) (value : Str) : Handled :=
  let d := st.device
  match key with
  | .privateKey =>
    st.parsed key.parseMessage (fromMaybeZeroHex value) fun sk =>
      .ok { st with device := d.setPrivateKey env sk }
  | .listenPort =>
    st.parsed key.parseMessage (parseNum value 16) fun port =>
      let st' := { st with device := { d with port := port.toUInt16 } }
      if env.bindUpdate port.toUInt16 then .ok st'
      else st'.fail .portInUse "failed to set listen_port" .none
  | .fwmark =>
    st.parsed key.parseMessage (parseNum value 32) fun mark =>
      if env.bindSetMark mark.toUInt32 then
        .ok { st with device := { d with fwmark := mark.toUInt32 } }
      else st.fail .portInUse "failed to update fwmark" .none
  | .replacePeers =>
    if value ≠ ascii "true" then st.fail .invalid key.parseMessage (.value value)
    else .ok { st with device := d.removeAllPeers }
  | .junk k =>
    st.parsed key.parseMessage (parseNum value 32) fun n =>
      .ok { st with device := { d with junk := Function.update d.junk k n.toUInt32 } }
  | .padding k =>
    st.parsed key.parseMessage (parseNum value 16) fun n =>
      .ok { st with ipcDev := { st.ipcDev with paddings := st.ipcDev.paddings.set n.toUInt32 k } }
  | .header k =>
    st.parsed key.parseMessage (UintRange.fromString value) fun r =>
      .ok { st with ipcDev := { st.ipcDev with headers := st.ipcDev.headers.set r k } }
  | .ipacket i =>
    st.parsed key.parseMessage (parseChain value) fun chain =>
      .ok { st with device := { d with ipackets := Function.update d.ipackets i chain } }
  | .headerProtectionKey =>
    st.parsed key.parseMessage (loadExactHex value) fun k =>
      .ok { st with ipcDev := { st.ipcDev with headerProtectionKey := k } }
  | .range k =>
    st.parsed key.parseMessage (UintRange.fromString value) fun r =>
      .ok { st with device := { d with ranges := Function.update d.ranges k r } }
  | .flag k =>
    st.parsed key.parseMessage (parseBool value) fun b =>
      .ok { st with device := { d with flags := Function.update d.flags k b } }

def handleDeviceLine (env : Env) (st : IpcState) (key value : Str) : Handled :=
  match lookupKey deviceKeys key with
  | none => st.fail .invalid "invalid UAPI device key" (.value key)
  | some k => applyDeviceKey env st k value

/-- Load or create the peer; the device's own public key is ignored. -/
def handlePublicKeyLine (st : IpcState) (value : Str) : Handled :=
  st.parsed "failed to get peer by public key" (loadExactHex value) fun publicKey =>
    let d := st.device
    if d.publicKey = publicKey then .ok { st with peer := some ⟨publicKey, true, false⟩ }
    else if d.peers.any fun p => p.1 == publicKey then
      .ok { st with peer := some ⟨publicKey, false, false⟩ }
    else if d.peers.length ≥ maxPeers then
      st.fail .invalid "failed to create new peer" (.text "too many peers")
    else
      .ok { st with
        device := { d with peers := d.peers ++ [(publicKey, DevicePeer.new)] }
        peer := some ⟨publicKey, false, true⟩ }

def Device.updatePeer (d : Device) (key : Str) (f : DevicePeer → DevicePeer) : Device :=
  { d with peers := d.peers.map fun p => if p.1 = key then (p.1, f p.2) else p }

/-- A change to the current peer; on a dummy it is lost. -/
def IpcState.updatePeer (st : IpcState) (peer : IpcSetPeer) (f : DevicePeer → DevicePeer) :
    IpcState :=
  if peer.dummy then st else { st with device := st.device.updatePeer peer.publicKey f }

inductive PeerLineKey where
  | updateOnly
  | remove
  | presharedKey
  | endpoint
  | persistentKeepalive
  | replaceAllowedIPs
  | allowedIP
  | protocolVersion
  deriving DecidableEq

/-- The cases of the switch in `handlePeerLine`. -/
def peerLineKeys : List (String × PeerLineKey) :=
  [("update_only", .updateOnly), ("remove", .remove), ("preshared_key", .presharedKey),
   ("endpoint", .endpoint), ("persistent_keepalive_interval", .persistentKeepalive),
   ("replace_allowed_ips", .replaceAllowedIPs), ("allowed_ip", .allowedIP),
   ("protocol_version", .protocolVersion)]

def parseEndpointValue (env : Env) (value : Str) : Except Cause (Addr × UInt16) :=
  match env.parseEndpoint value with
  | none => .error (.std "ParseEndpoint" value)
  | some e => .ok e

def parsePrefixValue (value : Str) : Except Cause Prefix :=
  match parsePrefix value with
  | none => .error (.std "ParsePrefix" value)
  | some p => .ok p

def applyPeerKey (env : Env) (st : IpcState) (peer : IpcSetPeer) (key : PeerLineKey) (value : Str) :
    Handled :=
  let d := st.device
  match key with
  | .updateOnly =>
    if value ≠ ascii "true" then
      st.fail .invalid "failed to set update only, invalid value" (.value value)
    else if peer.created && !peer.dummy then
      .ok { st with device := d.removePeer peer.publicKey, peer := some { peer with dummy := true } }
    else .ok st
  | .remove =>
    if value ≠ ascii "true" then
      st.fail .invalid "failed to set remove, invalid value" (.value value)
    else
      .ok { st with
        device := if peer.dummy then d else d.removePeer peer.publicKey
        peer := some { peer with dummy := true } }
  | .presharedKey =>
    st.parsed "failed to set preshared key" (loadExactHex value) fun k =>
      .ok (st.updatePeer peer fun p => { p with presharedKey := k })
  | .endpoint =>
    st.parsed "failed to set endpoint" (parseEndpointValue env value) fun e =>
      .ok (st.updatePeer peer fun p => { p with endpoint := some e })
  | .persistentKeepalive =>
    st.parsed "failed to set persistent keepalive interval" (UintRange.fromString value) fun r =>
      .ok (st.updatePeer peer fun p => { p with persistentKeepalive := r })
  | .replaceAllowedIPs =>
    if value ≠ ascii "true" then
      st.fail .invalid "failed to replace allowedips, invalid value" (.value value)
    else if peer.dummy then .ok st
    else .ok { st with device := { d with allowedips := d.allowedips.removeValue peer.publicKey } }
  | .allowedIP =>
    let add := value.head? ≠ some 0x2D
    st.parsed "failed to set allowed ip"
      (parsePrefixValue (if add then value else value.drop 1)) fun p =>
      if peer.dummy then .ok st
      else if add then
        .ok { st with device := { d with
          allowedips := d.allowedips.insert (Net.ofPrefix p) peer.publicKey } }
      else
        .ok { st with device := { d with
          allowedips := d.allowedips.remove (Net.ofPrefix p) peer.publicKey } }
  | .protocolVersion =>
    if value ≠ ascii "1" then st.fail .invalid "invalid protocol version" (.value value) else .ok st

def handlePeerLine (env : Env) (st : IpcState) (peer : IpcSetPeer) (key value : Str) : Handled :=
  match lookupKey peerLineKeys key with
  | none => st.fail .invalid "invalid UAPI peer key" (.value key)
  | some k => applyPeerKey env st peer k value

/-- One line that is not blank; until the first public key the lines are for the device. -/
def ipcLine (env : Env) (st : IpcState) (line : Str) : Handled :=
  match indexByte line 0x3D with
  | none => st.fail .protocol "failed to parse line" (.value line)
  | some i =>
    let key := line.take i
    let value := line.drop (i + 1)
    if key = ascii "public_key" then handlePublicKeyLine st value
    else
      match st.peer with
      | none => handleDeviceLine env st key value
      | some peer => handlePeerLine env st peer key value

/-- Every pair of the four headers, the earlier one first. -/
def anyOverlap : List UintRange → Bool
  | [] => false
  | r :: rest => rest.any (fun s => r.overlap s) || anyOverlap rest

/-- The index of the first padding too small for the header cipher. -/
def shortPadding (paddings : List UInt32) : Option Nat :=
  paddings.findIdx? fun p => p < headerCipherNonceSize

def mergeWithDevice (ipcDev : IpcSetDevice) (d : Device) : Device × Option Cause :=
  if anyOverlap ipcDev.headers.toList then (d, some (.text "headers must not overlap"))
  else
    let d' := { d with headers := ipcDev.headers }
    match if ipcDev.headerProtectionKey = zeroKey then none else shortPadding ipcDev.paddings.toList with
    | some i => (d', some (.text s!"S{i} must be more then 12 to use headerProtection"))
    | none =>
      ({ d' with
        paddings := ipcDev.paddings
        headerProtectionKey := ipcDev.headerProtectionKey }, none)

/-- The merge at a blank line or at the end of the input. -/
def ipcFinish (st : IpcState) : Device × Option IPCError :=
  match mergeWithDevice st.ipcDev st.device with
  | (d, some cause) => (d, some ⟨.invalid, "failed to merge with device", cause⟩)
  | (d, none) => (d, none)

/-- The loop over the scanned lines; `tooLong` is the scanner's error after the last of them. -/
def ipcLoop (env : Env) (tooLong : Bool) : IpcState → List Str → Device × Option IPCError
  | st, [] =>
    match ipcFinish st with
    | (d, some e) => (d, some e)
    | (d, none) =>
      if tooLong then (d, some ⟨.io, "failed to read input", .text "bufio.Scanner: token too long"⟩)
      else (d, none)
  | st, line :: rest =>
    if line = [] then ipcFinish st
    else
      match ipcLine env st line with
      | .error (e, st') => (st'.device, some e)
      | .ok st' => ipcLoop env tooLong st' rest

/-- The state the operation starts from (`fromDevice`). -/
def IpcState.start (d : Device) : IpcState :=
  ⟨d, ⟨d.headers, d.paddings, d.headerProtectionKey⟩, none⟩

/-- `IpcSetOperation`: the device after it, and the error if there was one. -/
def ipcSetOperation (env : Env) (d : Device) (input : Str) : Device × Option IPCError :=
  ipcLoop env (scanLines input).2 (IpcState.start d) (scanLines input).1

end SmartAwg.Awg
