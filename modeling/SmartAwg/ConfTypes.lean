import Mathlib.Data.List.AList
import SmartAwg.GoCodec
import SmartAwg.GoNetIP

/-! The profile of `core/conf`: keys, addresses, endpoints, the interface and its peers, and
which tunnel names are allowed. -/
namespace SmartAwg.Conf
open Go

def keyLength : Nat := 32

/-- A `Key` is an array of exactly 32 bytes. -/
structure Key where
  bytes : Str
  length_eq : bytes.length = keyLength
  deriving DecidableEq

namespace Key

def zero : Key := ⟨List.replicate keyLength 0, by simp⟩

instance : Inhabited Key := ⟨zero⟩

def string (k : Key) : Str := base64Encode k.bytes

def hexString (k : Key) : Str := hexEncode k.bytes

def isZero (k : Key) : Bool := k == zero

end Key

structure IPCidr where
  ip : Str
  cidr : UInt8
  deriving DecidableEq

namespace IPCidr

def string (r : IPCidr) : Str := ipString r.ip ++ 0x2F :: itoa r.cidr.toNat

def bits (r : IPCidr) : UInt8 := if (to4 r.ip).isSome then 32 else 128

end IPCidr

structure Endpoint where
  host : Str
  port : UInt16
  deriving DecidableEq

namespace Endpoint

def empty : Endpoint := ⟨[], 0⟩

def string (e : Endpoint) : Str :=
  if 0x3A ∈ e.host then 0x5B :: (e.host ++ 0x5D :: 0x3A :: itoa e.port.toNat)
  else e.host ++ 0x3A :: itoa e.port.toNat

def isEmpty (e : Endpoint) : Bool := e.host.isEmpty

end Endpoint

/-- A `map[string]string`. -/
abbrev StringMap := AList fun _ : Str => Str

instance : DecidableEq StringMap := fun a b =>
  decidable_of_iff (a.entries = b.entries) AList.ext_iff.symm

structure Interface where
  privateKey : Key
  addresses : List IPCidr
  listenPort : UInt16
  mtu : UInt16
  dns : List Str
  dnsSearch : List Str
  preUp : Str
  postUp : Str
  preDown : Str
  postDown : Str
  tableOff : Bool
  junkPacketCount : UInt16
  junkPacketMinSize : UInt16
  junkPacketMaxSize : UInt16
  initPacketJunkSize : UInt16
  responsePacketJunkSize : UInt16
  cookieReplyPacketJunkSize : UInt16
  transportPacketJunkSize : UInt16
  initPacketMagicHeader : Str
  responsePacketMagicHeader : Str
  underloadPacketMagicHeader : Str
  transportPacketMagicHeader : Str
  headerProtectionKey : Key
  contentPaddingAddition : Str
  rekeyAfterTime : Str
  rekeyTimeout : Str
  rejectAfterTime : Str
  keepaliveTimeout : Str
  maxHandshakeAttempts : Str
  randomTrailers : Str
  disableCookies : Str
  ipackets : StringMap
  deriving DecidableEq

/-- The zero value, which the parser starts from. -/
def Interface.zero : Interface where
  privateKey := Key.zero
  addresses := []
  listenPort := 0
  mtu := 0
  dns := []
  dnsSearch := []
  preUp := []
  postUp := []
  preDown := []
  postDown := []
  tableOff := false
  junkPacketCount := 0
  junkPacketMinSize := 0
  junkPacketMaxSize := 0
  initPacketJunkSize := 0
  responsePacketJunkSize := 0
  cookieReplyPacketJunkSize := 0
  transportPacketJunkSize := 0
  initPacketMagicHeader := []
  responsePacketMagicHeader := []
  underloadPacketMagicHeader := []
  transportPacketMagicHeader := []
  headerProtectionKey := Key.zero
  contentPaddingAddition := []
  rekeyAfterTime := []
  rekeyTimeout := []
  rejectAfterTime := []
  keepaliveTimeout := []
  maxHandshakeAttempts := []
  randomTrailers := []
  disableCookies := []
  ipackets := ∅

structure Peer where
  publicKey : Key
  presharedKey : Key
  allowedIPs : List IPCidr
  endpoint : Endpoint
  persistentKeepalive : Str
  rxBytes : UInt64
  txBytes : UInt64
  lastHandshakeTime : Int
  deriving DecidableEq

def Peer.zero : Peer where
  publicKey := Key.zero
  presharedKey := Key.zero
  allowedIPs := []
  endpoint := Endpoint.empty
  persistentKeepalive := []
  rxBytes := 0
  txBytes := 0
  lastHandshakeTime := 0

structure Config where
  name : Str
  interface : Interface
  peers : List Peer
  deriving DecidableEq

/-- Names reserved by Windows. -/
def reservedNames : List String :=
  ["CON", "PRN", "AUX", "NUL",
   "COM1", "COM2", "COM3", "COM4", "COM5", "COM6", "COM7", "COM8", "COM9",
   "LPT1", "LPT2", "LPT3", "LPT4", "LPT5", "LPT6", "LPT7", "LPT8", "LPT9"]

def serviceNameForbidden : Str := [0x24]

-- \ / : * ? " < > | and a tab
def netshellDllForbidden : Str := [0x5C, 0x2F, 0x3A, 0x2A, 0x3F, 0x22, 0x3C, 0x3E, 0x7C, 0x09]

-- / \ < > : " | ? * and the control characters
def specialChars : Str :=
  [0x2F, 0x5C, 0x3C, 0x3E, 0x3A, 0x22, 0x7C, 0x3F, 0x2A] ++ (List.range 32).map Nat.toUInt8

def isReserved (name : Str) : Bool :=
  !name.isEmpty && reservedNames.any fun reserved => equalFold name (ascii reserved)

def containsAny (s chars : Str) : Bool := s.any fun b => chars.elem b

def hasSpecialChars (name : Str) : Bool :=
  containsAny name specialChars || containsAny name netshellDllForbidden ||
    containsAny name serviceNameForbidden

/-- The class `[a-zA-Z0-9_=+.-]` of `allowedNameFormat`. -/
def allowedNameByte (b : UInt8) : Bool :=
  within 0x61 0x7A b || within 0x41 0x5A b || within 0x30 0x39 b ||
    b == 0x5F || b == 0x3D || b == 0x2B || b == 0x2E || b == 0x2D

def allowedNameFormat (name : Str) : Bool :=
  name.all allowedNameByte && 1 ≤ name.length && name.length ≤ 32

def tunnelNameIsValid (name : Str) : Bool :=
  if isReserved name || hasSpecialChars name then false else allowedNameFormat name

/-- What a valid name is made of. -/
theorem tunnelNameIsValid_format {name : Str} (h : tunnelNameIsValid name = true) :
    (∀ b ∈ name, allowedNameByte b = true) ∧ name ≠ [] ∧ name.length ≤ 32 := by
  unfold tunnelNameIsValid at h
  split at h
  · cases h
  · simp only [allowedNameFormat, Bool.and_eq_true, List.all_eq_true, decide_eq_true_eq] at h
    exact ⟨h.1.1, List.ne_nil_of_length_pos h.1.2, h.2⟩

theorem allowedNameByte_ascii (b : UInt8) (h : allowedNameByte b = true) : b < 0x80 := by
  revert h
  exact byte_forall (fun b => allowedNameByte b = true → b < 0x80) (by decide +kernel) b

/-- No byte of a valid name is part of white space. -/
theorem trimSpace_tunnelName {name : Str} (h : tunnelNameIsValid name = true) :
    trimSpace name = name := by
  have hsolid : ∀ b, allowedNameByte b = true → Solid b :=
    byte_forall (fun b => allowedNameByte b = true → Solid b) (by decide +kernel)
  apply trimSpace_of_trimmed
  exact trimmed_of_solid name fun b hb => hsolid b ((tunnelNameIsValid_format h).1 b hb)

end SmartAwg.Conf
