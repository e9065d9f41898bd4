import SmartAwg.ConfValidate

/-! `FromWgQuick`: the line-based reader of profiles. The state carries the section, the
configuration under construction and the peer being read; every slice and index expression
of the source is a checked one. -/
namespace SmartAwg.Conf
open Go

/-- The parts of an address before and after the slash. -/
def cutCidr (s : Str) : Outcome Err (Str × Option Str) :=
  match indexByte s 0x2F with
  | none => .ok (s, none)
  | some i =>
    slice s 0 i >>= fun addrStr =>
    sliceFrom s (i + 1) >>= fun cidrStr => .ok (addrStr, some cidrStr)

def makeIPCidr (s addrStr : Str) (cidrStr : Option Str) : Except Err IPCidr :=
  match parseIP addrStr with
  | none => .error (.parse "Invalid IP address" s)
  | some addr =>
    let maybeV4 := to4 addr
    let ip := maybeV4.getD addr
    match cidrStr with
    | none => .ok ⟨ip, if maybeV4.isSome then 32 else 128⟩
    | some text =>
      match atoi text with
      | .error _ => .error (.parse "Invalid network prefix length" s)
      | .ok cidr =>
        if cidr < 0 ∨ cidr > 128 then .error (.parse "Invalid network prefix length" s)
        else if cidr > 32 ∧ maybeV4.isSome then .error (.parse "Invalid network prefix length" s)
        else .ok ⟨ip, cidr.toNat.toUInt8⟩

def parseIPCidr (s : Str) : Outcome Err IPCidr :=
  cutCidr s >>= fun (addrStr, cidrStr) => .ofExcept (makeIPCidr s addrStr cidrStr)

/-- The bounded integers: one parse, with the range and the message of each caller. -/
def parseBounded (lo hi : Int) (why : String) (s : Str) : Except Err UInt16 :=
  match atoi s with
  | .error e => .error (.num e)
  | .ok m => if m < lo ∨ m > hi then .error (.parse why s) else .ok m.toNat.toUInt16

def parseMTU (s : Str) : Except Err UInt16 := parseBounded 576 65535 "Invalid MTU" s

def parsePort (s : Str) : Except Err UInt16 := parseBounded 0 65535 "Invalid port" s

def parseUint16 (value : Str) (name : String) : Except Err UInt16 :=
  parseBounded 0 65535 ("Invalid " ++ name) value

/-- Where the literal inside the brackets ends: at the last percent sign, if there is one. -/
def bracketEnd (host : Str) : Nat :=
  match lastIndexByte host 0x25 with
  | some i => if i > 1 then i else host.length - 1
  | none => host.length - 1

/-- The host of an endpoint written with brackets or with a colon in it. -/
def parseBracketHost (host : Str) (hostColon : Option Nat) : Outcome Err Str :=
  let err : Err := .parse "Brackets must contain an IPv6 address" host
  index host 0 >>= fun first =>
  index host (host.length - 1) >>= fun last =>
  if host.length > 3 ∧ first = 0x5B ∧ last = 0x5D ∧ (∃ c ∈ hostColon, 0 < c) then
    slice host 1 (bracketEnd host) >>= fun literal =>
    match parseIP literal with
    | none => .err err
    | some maybeV6 =>
      if maybeV6.length ≠ 16 then .err err else slice host 1 (host.length - 1)
  else .err err

def parseEndpoint (s : Str) : Outcome Err Endpoint :=
  match lastIndexByte s 0x3A with
  | none => .err (.parse "Missing port from endpoint" s)
  | some i =>
    slice s 0 i >>= fun host =>
    sliceFrom s (i + 1) >>= fun portStr =>
    if host.length < 1 then .err (.parse "Invalid endpoint host" host)
    else
      .ofExcept (parsePort portStr) >>= fun port =>
      let hostColon := indexByte host 0x3A
      index host 0 >>= fun first =>
      index host (host.length - 1) >>= fun last =>
      if first = 0x5B ∨ last = 0x5D ∨ (∃ c ∈ hostColon, 0 < c) then
        parseBracketHost host hostColon >>= fun inner => .ok ⟨inner, port⟩
      else .ok ⟨host, port⟩

def parseTableOff (s : Str) : Except Err Bool :=
  if s = ascii "off" then .ok true
  else if s = ascii "auto" ∨ s = ascii "main" then .ok false
  else
    match parseUint s 32 with
    | .ok _ => .ok false
    | .error e => .error (.num e)

def parseKeyBase64 (s : Str) : Except Err Key :=
  match base64Decode s with
  | .error at_ => .error (.parse s!"Invalid key: illegal base64 data at input byte {at_}" s)
  | .ok k =>
    if h : k.length = keyLength then .ok ⟨k, h⟩
    else .error (.parse "Keys must decode to exactly 32 bytes" s)

def splitListFrom (whole : Str) : List Str → Except Err (List Str)
  | [] => .ok []
  | part :: rest =>
    let trim := trimSpace part
    if trim.length = 0 then .error (.parse "Two commas in a row" whole)
    else (splitListFrom whole rest).map (trim :: ·)

def splitList (s : Str) : Except Err (List Str) := splitListFrom s (s.splitOn 0x2C)

inductive SectionState where
  | inInterfaceSection
  | inPeerSection
  | notInASection
  deriving DecidableEq

/-- The junk and padding sizes, all read by `parseUint16`. -/
inductive SizeKey where
  | jc | jmin | jmax | s1 | s2 | s3 | s4
  deriving DecidableEq

namespace SizeKey

def all : List SizeKey := [jc, jmin, jmax, s1, s2, s3, s4]

/-- The name in the error message. -/
def errorName : SizeKey → String
  | jc => "junkPacketCount"
  | jmin => "junkPacketMinSize"
  | jmax => "junkPacketMaxSize"
  | s1 => "initPacketJunkSize"
  | s2 => "responsePacketJunkSize"
  | s3 => "cookieReplyPacketJunkSize"
  | s4 => "transportPacketJunkSize"

def get (i : Interface) : SizeKey → UInt16
  | jc => i.junkPacketCount
  | jmin => i.junkPacketMinSize
  | jmax => i.junkPacketMaxSize
  | s1 => i.initPacketJunkSize
  | s2 => i.responsePacketJunkSize
  | s3 => i.cookieReplyPacketJunkSize
  | s4 => i.transportPacketJunkSize

def set (i : Interface) (v : UInt16) : SizeKey → Interface
  | jc => { i with junkPacketCount := v }
  | jmin => { i with junkPacketMinSize := v }
  | jmax => { i with junkPacketMaxSize := v }
  | s1 => { i with initPacketJunkSize := v }
  | s2 => { i with responsePacketJunkSize := v }
  | s3 => { i with cookieReplyPacketJunkSize := v }
  | s4 => { i with transportPacketJunkSize := v }

end SizeKey

/-- The fields that keep the text of their line. -/
inductive TextKey where
  | h1 | h2 | h3 | h4
  | contentPaddingAddition | rekeyAfterTime | rekeyTimeout | rejectAfterTime
  | keepaliveTimeout | maxHandshakeAttempts | randomTrailers | disableCookies
  | preUp | postUp | preDown | postDown
  deriving DecidableEq

namespace TextKey

def get (i : Interface) : TextKey → Str
  | h1 => i.initPacketMagicHeader
  | h2 => i.responsePacketMagicHeader
  | h3 => i.underloadPacketMagicHeader
  | h4 => i.transportPacketMagicHeader
  | contentPaddingAddition => i.contentPaddingAddition
  | rekeyAfterTime => i.rekeyAfterTime
  | rekeyTimeout => i.rekeyTimeout
  | rejectAfterTime => i.rejectAfterTime
  | keepaliveTimeout => i.keepaliveTimeout
  | maxHandshakeAttempts => i.maxHandshakeAttempts
  | randomTrailers => i.randomTrailers
  | disableCookies => i.disableCookies
  | preUp => i.preUp
  | postUp => i.postUp
  | preDown => i.preDown
  | postDown => i.postDown

def set (i : Interface) (v : Str) : TextKey → Interface
  | h1 => { i with initPacketMagicHeader := v }
  | h2 => { i with responsePacketMagicHeader := v }
  | h3 => { i with underloadPacketMagicHeader := v }
  | h4 => { i with transportPacketMagicHeader := v }
  | contentPaddingAddition => { i with contentPaddingAddition := v }
  | rekeyAfterTime => { i with rekeyAfterTime := v }
  | rekeyTimeout => { i with rekeyTimeout := v }
  | rejectAfterTime => { i with rejectAfterTime := v }
  | keepaliveTimeout => { i with keepaliveTimeout := v }
  | maxHandshakeAttempts => { i with maxHandshakeAttempts := v }
  | randomTrailers => { i with randomTrailers := v }
  | disableCookies => { i with disableCookies := v }
  | preUp => { i with preUp := v }
  | postUp => { i with postUp := v }
  | preDown => { i with preDown := v }
  | postDown => { i with postDown := v }

end TextKey

inductive PacketKey where
  | i1 | i2 | i3 | i4 | i5
  deriving DecidableEq

namespace PacketKey

def all : List PacketKey := [i1, i2, i3, i4, i5]

def name : PacketKey → String
  | i1 => "i1"
  | i2 => "i2"
  | i3 => "i3"
  | i4 => "i4"
  | i5 => "i5"

end PacketKey

inductive InterfaceKey where
  | privateKey
  | listenPort
  | size (k : SizeKey)
  | text (k : TextKey)
  | packet (k : PacketKey)
  | headerProtectionKey
  | mtu
  | address
  | dns
  | table
  deriving DecidableEq

/-- The cases of the switch for the `[Interface]` section. -/
def interfaceKeys : List (String × InterfaceKey) :=
  [("privatekey", .privateKey), ("listenport", .listenPort),
   ("jc", .size .jc), ("jmin", .size .jmin), ("jmax", .size .jmax),
   ("s1", .size .s1), ("s2", .size .s2), ("s3", .size .s3), ("s4", .size .s4),
   ("h1", .text .h1), ("h2", .text .h2), ("h3", .text .h3), ("h4", .text .h4),
   ("i1", .packet .i1), ("i2", .packet .i2), ("i3", .packet .i3), ("i4", .packet .i4),
   ("i5", .packet .i5), ("headerprotectionkey", .headerProtectionKey),
   ("contentpaddingaddition", .text .contentPaddingAddition),
   ("rekeyaftertime", .text .rekeyAfterTime), ("rekeytimeout", .text .rekeyTimeout),
   ("rejectaftertime", .text .rejectAfterTime), ("keepalivetimeout", .text .keepaliveTimeout),
   ("maxhandshakeattempts", .text .maxHandshakeAttempts),
   ("randomtrailers", .text .randomTrailers), ("disablecookies", .text .disableCookies),
   ("mtu", .mtu), ("address", .address), ("dns", .dns),
   ("preup", .text .preUp), ("postup", .text .postUp), ("predown", .text .preDown),
   ("postdown", .text .postDown), ("table", .table)]

inductive PeerKey where
  | publicKey
  | presharedKey
  | allowedIPs
  | persistentKeepalive
  | endpoint
  deriving DecidableEq

/-- The cases of the switch for a `[Peer]` section. -/
def peerKeys : List (String × PeerKey) :=
  [("publickey", .publicKey), ("presharedkey", .presharedKey), ("allowedips", .allowedIPs),
   ("persistentkeepalive", .persistentKeepalive), ("endpoint", .endpoint)]

/-- The keys whose value may be empty. -/
def specialHandshakeTags : List String :=
  ["i1", "i2", "i3", "i4", "i5", "j1", "j2", "j3", "itime"]

def appendIPCidr (acc : List IPCidr) (address : Str) : Outcome Err (List IPCidr) :=
  parseIPCidr address >>= fun a => .ok (acc ++ [a])

/-- A name server goes to `DNS`, anything else to `DNSSearch`. -/
def Interface.addDNS (i : Interface) (address : Str) : Interface :=
  match parseIP address with
  | none => { i with dnsSearch := i.dnsSearch ++ [address] }
  | some a => { i with dns := i.dns ++ [a] }

/-- One case of the switch for the `[Interface]` section. -/
def Interface.apply (i : Interface) (key : InterfaceKey) (val : Str) : Outcome Err Interface :=
  match key with
  | .privateKey => .ofExcept (parseKeyBase64 val) >>= fun k => .ok { i with privateKey := k }
  | .listenPort => .ofExcept (parsePort val) >>= fun p => .ok { i with listenPort := p }
  | .size k => .ofExcept (parseUint16 val k.errorName) >>= fun v => .ok (k.set i v)
  | .text k => .ok (k.set i val)
  | .packet k =>
    if val.length = 0 then .ok i
    else .ok { i with ipackets := i.ipackets.insert (ascii k.name) val }
  | .headerProtectionKey =>
    match parseKeyBase64 val with
    | .ok k => .ok { i with headerProtectionKey := k }
    | .error _ => .err (.text "invalid HeaderProtectionKey (expected a 32-byte base64 key)")
  | .mtu => .ofExcept (parseMTU val) >>= fun m => .ok { i with mtu := m }
  | .address =>
    .ofExcept (splitList val) >>= fun addresses =>
    forEach appendIPCidr i.addresses addresses >>= fun all => .ok { i with addresses := all }
  | .dns =>
    .ofExcept (splitList val) >>= fun addresses => .ok (addresses.foldl Interface.addDNS i)
  | .table => .ofExcept (parseTableOff val) >>= fun off => .ok { i with tableOff := off }

/-- One case of the switch for a `[Peer]` section. -/
def Peer.apply (p : Peer) (key : PeerKey) (val : Str) : Outcome Err Peer :=
  match key with
  | .publicKey => .ofExcept (parseKeyBase64 val) >>= fun k => .ok { p with publicKey := k }
  | .presharedKey => .ofExcept (parseKeyBase64 val) >>= fun k => .ok { p with presharedKey := k }
  | .allowedIPs =>
    .ofExcept (splitList val) >>= fun addresses =>
    forEach appendIPCidr p.allowedIPs addresses >>= fun all => .ok { p with allowedIPs := all }
  | .persistentKeepalive =>
    .ofExcept (parsePersistentKeepalive val) >>= fun k => .ok { p with persistentKeepalive := k }
  | .endpoint => parseEndpoint val >>= fun e => .ok { p with endpoint := e }

structure ParserState where
  state : SectionState
  conf : Config
  sawPrivateKey : Bool
  peer : Option Peer
  deriving DecidableEq

namespace ParserState

def init (name : Str) : ParserState where
  state := .notInASection
  conf := ⟨name, { Interface.zero with mtu := 1420 }, []⟩
  sawPrivateKey := false
  peer := none

/-- `maybeAddPeer` on the peer being read. -/
def addPeer (st : ParserState) : Config :=
  { st.conf with peers := st.conf.peers ++ st.peer.toList }

/-- A key and its value, in the section the parser is in. -/
def assign (st : ParserState) (key val : Str) : Outcome Err ParserState :=
  match st.state with
  | .inInterfaceSection =>
    match lookupKey interfaceKeys key with
    | none => .err (.parse "Invalid key for [Interface] section" key)
    | some k =>
      st.conf.interface.apply k val >>= fun i =>
      .ok { st with
        conf := { st.conf with interface := i }
        sawPrivateKey := st.sawPrivateKey || k == .privateKey }
  | .inPeerSection =>
    match lookupKey peerKeys key with
    | none => .err (.parse "Invalid key for [Peer] section" key)
    | some k =>
      match st.peer with
      | none => .panic
      | some p => p.apply k val >>= fun p' => .ok { st with peer := some p' }
  | .notInASection => .ok st

end ParserState

def stripComment (line : Str) : Outcome Err Str :=
  match indexByte line 0x23 with
  | none => .ok line
  | some pound => slice line 0 pound

/-- The body of the loop over the lines. -/
def parseLine (st : ParserState) (raw : Str) : Outcome Err ParserState :=
  stripComment raw >>= fun stripped =>
  let line := trimSpace stripped
  let lineLower := toLower line
  if line.length = 0 then .ok st
  else if lineLower = ascii "[interface]" then
    .ok { st with conf := st.addPeer, peer := none, state := .inInterfaceSection }
  else if lineLower = ascii "[peer]" then
    .ok { st with conf := st.addPeer, peer := some Peer.zero, state := .inPeerSection }
  else if st.state = .notInASection then .err (.parse "Line must occur in a section" line)
  else
    match indexByte line 0x3D with
    | none => .err (.parse "Config key is missing an equals separator" line)
    | some equals =>
      slice lineLower 0 equals >>= fun keyText =>
      sliceFrom line (equals + 1) >>= fun valText =>
      let key := trimSpace keyText
      let val := trimSpace valText
      if key ∉ specialHandshakeTags.map ascii ∧ val.length = 0 then
        .err (.parse "Key must have a value" line)
      else st.assign key val

def parseLines (st : ParserState) (lines : List Str) : Outcome Err ParserState :=
  forEach parseLine st lines

/-- The checks after the last line. -/
def finishConfig (st : ParserState) : Outcome Err Config :=
  let conf := st.addPeer
  if !st.sawPrivateKey then
    .err (.parse "An interface must have a private key" (ascii "[none specified]"))
  else if conf.peers.any fun p => p.publicKey.isZero then
    .err (.parse "All peers must have public keys" (ascii "[none specified]"))
  else validateAWG conf >>= fun _ => .ok conf

def fromWgQuick (s name : Str) : Outcome Err Config :=
  if !tunnelNameIsValid name then .err (.parse "Tunnel name is not valid" name)
  else parseLines (ParserState.init name) (s.splitOn 0x0A) >>= finishConfig

end SmartAwg.Conf
