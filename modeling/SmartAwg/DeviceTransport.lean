import SmartAwg.DeviceFrame
import SmartAwg.ReplayFilter
import Mathlib.Data.List.ReduceOption
import Mathlib.Data.List.Nodup

/-!
A packet on its way through a session: read from the tunnel, padded, sealed and framed at one end;
received, opened, checked against replays and for its source, cut to its length and written to the
tunnel at the other.
-/

namespace SmartAwg.Awg

open Go Replay

section sender

def paddingMultiple : Nat := 16

/-- Up to the next multiple of 16, but not beyond the MTU. -/
def calculatePaddingSize (packetSize mtu : Nat) : Nat :=
  if mtu = 0 then (packetSize + paddingMultiple - 1) / paddingMultiple * paddingMultiple - packetSize
  else
    let lastUnit := if packetSize > mtu then packetSize % mtu else packetSize
    let paddedSize := (lastUnit + paddingMultiple - 1) / paddingMultiple * paddingMultiple
    (if paddedSize > mtu then mtu else paddedSize) - lastUnit

/-- What the sizes of the datagrams to a peer depend on, with the random number that is drawn. -/
structure Sizing where
  contentPaddingAddition : UintRange
  randomTrailers : Bool
  udpWindow : UInt32
  mtu : Nat
  random : UInt32

def Sizing.randomPaddingAddition (z : Sizing) (packetSize : Nat) : Option Nat :=
  if z.contentPaddingAddition.isZero then none
  else if z.udpWindow.toNat < packetSize then some 0
  else some (min (z.contentPaddingAddition.pickOne z.random).toNat (z.udpWindow.toNat - packetSize))

def Sizing.randomTrailer (z : Sizing) (packetSize : Nat) : Option Nat :=
  if !z.randomTrailers then none
  else if z.udpWindow.toNat < packetSize then some 0
  else some (fastrandn z.random (z.udpWindow.toNat - packetSize).toUInt32).toNat

/-- The zeros after the content. -/
def Sizing.paddingSize (z : Sizing) (padding length : Nat) : Nat :=
  let packetSize := length + messageSize .transport + padding
  match z.randomPaddingAddition packetSize with
  | some n => n
  | none =>
    match z.randomTrailer packetSize with
    | some n => n
    | none => calculatePaddingSize length z.mtu

/-- What is sent: a packet with its nonce, and what is random about its datagram. -/
structure Outbound where
  packet : Str
  nonce : UInt64
  random : UInt32
  crypt : Str
  sizing : Sizing

/-- The content with the zeros after it, as it is sealed. -/
def Outbound.content (o : Outbound) : Str :=
  o.packet ++ List.replicate (o.sizing.paddingSize o.crypt.length o.packet.length) 0

/-- The message of `RoutineEncryption` but for its type. -/
def Outbound.body (o : Outbound) (aead : Aead) (sendKey : Str) (remoteIndex : UInt32) : Str :=
  putLittle 4 remoteIndex.toNat ++ (putLittle 8 o.nonce.toNat ++ aead.encrypt sendKey o.nonce.toNat o.content [])

def Outbound.message (o : Outbound) (f : Framing) (aead : Aead) (sendKey : Str) (remoteIndex : UInt32) : Str :=
  putLittle 4 ((f.headers.get .transport).pickOne o.random).toNat ++ o.body aead sendKey remoteIndex

/-- The size of the buffers on Windows. -/
def maxMessageSize : Nat := 2016

/-- A message that does not fit the buffer is sealed into a new one, and its header is hidden in the old. -/
def Outbound.datagram (o : Outbound) (f : Framing) (chacha : Str → Str → Nat → UInt8) (aead : Aead) (sendKey : Str)
    (remoteIndex : UInt32) : Str :=
  let message := o.message f aead sendKey remoteIndex
  if o.crypt.length + message.length ≤ maxMessageSize then f.send chacha .transport o.crypt message []
  else o.crypt ++ message

end sender

section receiver
variable {π : Type} [DecidableEq π]

def ipv4HeaderLen : Nat := 20

def ipv6HeaderLen : Nat := 40

/-- The packet as it is written to the tunnel: cut to its length, if its source belongs to the peer. -/
def deliver (lookup : Str → Option π) (peer : π) (packet : Str) : Option Str :=
  match packet with
  | [] => none
  | first :: _ =>
    if first = 0 then none
    else if first >>> 4 = 4 then
      if packet.length < ipv4HeaderLen then none
      else
        let length := big ((packet.drop 2).take 2)
        if length > packet.length ∨ length < ipv4HeaderLen then none
        else if lookup ((packet.drop 12).take 4) = some peer then some (packet.take length) else none
    else if first >>> 4 = 6 then
      if packet.length < ipv6HeaderLen then none
      else
        -- the length is a 16-bit number
        let length := (big ((packet.drop 4).take 2) + ipv6HeaderLen) % 65536
        if length > packet.length then none
        else if lookup ((packet.drop 8).take 16) = some peer then some (packet.take length) else none
    else none

/-- The keypair an index stands for. -/
structure Session (π : Type) where
  peer : π
  receiveKey : Str
  expired : Bool

def rejectAfterMessages : UInt64 := 18446744073709543423

/-- The receiving end: its settings, its sessions by index, the table of allowed addresses, and what its
bind makes of a datagram that is longer than the buffer: sockets cut it, rings drop it. -/
structure Receiver (π : Type) where
  framing : Framing
  chacha : Str → Str → Nat → UInt8
  aead : Aead
  index : UInt32 → Option (Session π)
  lookup : Str → Option π
  oversized : Str → Option Str

def Receiver.buffered (r : Receiver π) (datagram : Str) : Option Str :=
  if datagram.length ≤ maxMessageSize then some datagram else r.oversized datagram

/-- A datagram comes in; `filters` are the filters of the sessions. -/
def Receiver.step (r : Receiver π) (filters : UInt32 → Filter) (datagram : Str) : (UInt32 → Filter) × Option Str :=
  match (r.buffered datagram).bind (r.framing.receive r.chacha) with
  | some (.transport, _, packet) =>
    let receiver := (little ((packet.drop 4).take 4)).toUInt32
    match r.index receiver with
    | none => (filters, none)
    | some session =>
      if session.expired then (filters, none)
      else
        let counter := (little ((packet.drop 8).take 8)).toUInt64
        match r.aead.decrypt session.receiveKey counter.toNat (packet.drop messageTransportHeaderSize) [] with
        | none => (filters, none)
        | some content =>
          let checked := (filters receiver).validateCounter counter rejectAfterMessages
          (Function.update filters receiver checked.1,
            if checked.2 then deliver r.lookup session.peer content else none)
  | _ => (filters, none)

def Receiver.run (r : Receiver π) (filters : UInt32 → Filter) : List Str → List (Option Str)
  | [] => []
  | d :: ds => (r.step filters d).2 :: r.run (r.step filters d).1 ds

end receiver

section packets

theorem fastrandn_le (random n : UInt32) : (fastrandn random n).toNat ≤ n.toNat := by
  by_cases hn : 0 < n.toNat
  · exact Nat.le_of_lt (fastrandn_lt random n hn)
  · have hzero : n = 0 := UInt32.toNat_inj.mp (Nat.eq_zero_of_not_pos hn)
    rw [hzero]
    simp [fastrandn]

theorem calculatePaddingSize_le (packetSize mtu : Nat) (h : packetSize ≤ mtu) :
    packetSize + calculatePaddingSize packetSize mtu ≤ mtu := by
  by_cases hmtu : mtu = 0
  · obtain rfl : packetSize = 0 := by omega
    rw [hmtu]
    rfl
  have hround : packetSize ≤ (packetSize + paddingMultiple - 1) / paddingMultiple * paddingMultiple := by
    change packetSize ≤ (packetSize + 16 - 1) / 16 * 16
    omega
  have hshort : ¬ packetSize > mtu := by omega
  rw [calculatePaddingSize, if_neg hmtu, if_neg hshort]
  simp only
  split <;> omega

theorem paddingSize_le (z : Sizing) (padding length : Nat) (h : length ≤ z.mtu) :
    padding + messageSize .transport + length + z.paddingSize padding length ≤
      max z.udpWindow.toNat (padding + messageSize .transport + z.mtu) := by
  have hcalculate := calculatePaddingSize_le length z.mtu h
  have hwindow := z.udpWindow.toNat_lt
  rw [Sizing.paddingSize]
  -- the three ways the size of the padding is found
  cases hadd : z.randomPaddingAddition (length + messageSize .transport + padding) with
  | some n =>
    rw [Sizing.randomPaddingAddition] at hadd
    split_ifs at hadd with hzero hsmall
    · cases hadd
      simp only
      omega
    · cases hadd
      simp only
      omega
  | none =>
    cases htrailer : z.randomTrailer (length + messageSize .transport + padding) with
    | some n =>
      rw [Sizing.randomTrailer] at htrailer
      split_ifs at htrailer with hoff hsmall
      · cases htrailer
        simp only
        omega
      · cases htrailer
        have hle := fastrandn_le z.random (z.udpWindow.toNat - (length + messageSize .transport + padding)).toUInt32
        have hspace : (z.udpWindow.toNat - (length + messageSize .transport + padding)).toUInt32.toNat =
            z.udpWindow.toNat - (length + messageSize .transport + padding) := by
          apply UInt32.toNat_ofNat_of_lt'
          change _ < 2 ^ 32
          omega
        rw [hspace] at hle
        simp only
        omega
    | none =>
      simp only
      omega

theorem Outbound.message_length (o : Outbound) (f : Framing) (aead : Aead) (sendKey : Str) (remoteIndex : UInt32) :
    (o.message f aead sendKey remoteIndex).length =
      messageSize .transport + o.packet.length + o.sizing.paddingSize o.crypt.length o.packet.length := by
  rw [message, body, content, List.length_append, List.length_append, List.length_append, putLittle_length,
    putLittle_length, putLittle_length, aead.encrypt_length, List.length_append, List.length_replicate]
  change _ = 32 + _ + _
  omega

theorem Outbound.datagram_length (o : Outbound) (f : Framing) (chacha : Str → Str → Nat → UInt8) (aead : Aead)
    (sendKey : Str) (remoteIndex : UInt32) : (o.datagram f chacha aead sendKey remoteIndex).length =
      o.crypt.length + (o.message f aead sendKey remoteIndex).length := by
  rw [datagram]
  split
  · rw [Framing.send, List.append_nil, List.length_append, mask_length]
  · exact List.length_append

/-- A datagram is not larger than the window, or than the MTU with what is put before and after the
content. -/
theorem datagram_bounded (o : Outbound) (f : Framing) (chacha : Str → Str → Nat → UInt8) (aead : Aead) (sendKey : Str)
    (remoteIndex : UInt32) (h : o.packet.length ≤ o.sizing.mtu) :
    (o.datagram f chacha aead sendKey remoteIndex).length ≤
      max o.sizing.udpWindow.toNat (o.crypt.length + messageSize .transport + o.sizing.mtu) := by
  rw [Outbound.datagram_length, Outbound.message_length, ← Nat.add_assoc, ← Nat.add_assoc]
  exact paddingSize_le o.sizing o.crypt.length o.packet.length h

/-- A packet of 1400 bytes, to which zeros are added up to a window of 1600. -/
theorem datagram_bounded_window : (Outbound.datagram
    ⟨List.replicate 1400 7, 5, 0, List.replicate 20 1, ⟨⟨50, 300⟩, false, 1600, 1420, 99⟩⟩ Device.new.framing
      (fun _ _ _ => 0) Aead.plain zeroKey 7).length ≤ 1600 :=
  datagram_bounded ⟨List.replicate 1400 7, 5, 0, List.replicate 20 1, ⟨⟨50, 300⟩, false, 1600, 1420, 99⟩⟩ _ _ _ _ _
    (List.length_replicate.trans_le (by decide))

/-- The source address of a packet. -/
def source (packet : Str) : Str :=
  if packet.head?.map (fun b : UInt8 => b >>> 4) = some 4 then (packet.drop 12).take 4 else (packet.drop 8).take 16

variable {π : Type} [DecidableEq π]

end packets

section session
variable {π : Type} [DecidableEq π] (r : Receiver π) (sendKey : Str) (remoteIndex : UInt32) (peer : π)

/-- The arrivals whose counters are accepted. -/
def kept (accepted : List UInt64) : List Outbound → List Outbound
  | [] => []
  | o :: os =>
    if Verdict accepted o.nonce rejectAfterMessages then o :: kept (o.nonce :: accepted) os else kept accepted os

end session

end SmartAwg.Awg
