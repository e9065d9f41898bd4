import SmartAwg.DeviceHeaders
import SmartAwg.GoBinary

/-!
How a message is put on the wire and found again: random bytes before it, its header mixed with a key
stream, and random bytes after it. The receiver tells the type of a message by its size and its header,
at the place where a message of that type would begin.
-/

namespace SmartAwg.Awg

open Go

section model

/-- `runtime.fastrandn`, with the random number it draws. -/
def fastrandn (random n : UInt32) : UInt32 := ((random.toUInt64 * n.toUInt64) >>> 32).toUInt32

def UintRange.pickOne (r : UintRange) (random : UInt32) : UInt32 := r.lo + fastrandn random (r.hi - r.lo + 1)

/-- The settings both ends have in common. -/
structure Framing where
  headers : Quad UintRange
  paddings : Quad UInt32
  headerProtectionKey : Str
  randomTrailers : Bool
  deriving DecidableEq

def Device.framing (d : Device) : Framing :=
  ⟨d.headers, d.paddings, d.headerProtectionKey, d.flags .randomTrailers⟩

/-- The sizes of the messages; a transport message has at least this size. -/
def messageSize : Slot → Nat
  | .init => 148
  | .response => 92
  | .cookie => 64
  | .transport => 32

def messageTransportHeaderSize : Nat := 16

/-- The place of a message of a type. -/
def Framing.padding (f : Framing) (k : Slot) : Nat := (f.paddings.get k).toNat

/-- How much of a message is hidden. -/
def maskSize (k : Slot) : Nat := if k = .transport then messageTransportHeaderSize else messageSize k

/-- `HeaderProtectionCipher`; `chacha` gives the key stream of a key and a nonce. -/
def Framing.cipher (f : Framing) (chacha : Str → Str → Nat → UInt8) (salt : Str) : Option (Nat → UInt8) :=
  if f.headerProtectionKey = zeroKey then none else some (chacha f.headerProtectionKey salt)

def applyHash (src hash : Str) : Str := List.zipWith (· ^^^ ·) src hash

/-- The size is one of a message of this type. -/
def Framing.fits (f : Framing) (size : Nat) : Slot → Bool
  | .transport => size ≥ f.padding .transport + messageSize .transport
  | k => size == f.padding k + messageSize k || f.randomTrailers && size > f.padding k + messageSize k

/-- One of the four tests of `DeterminePacketTypeAndPadding`. -/
def Framing.claims (f : Framing) (packet typeHash : Str) (k : Slot) : Bool :=
  f.fits packet.length k &&
    (f.headers.get k).contains (little (applyHash ((packet.drop (f.padding k)).take 4) typeHash)).toUInt32

def Framing.determine (f : Framing) (packet typeHash : Str) : Option Slot :=
  [.init, .response, .cookie, .transport].find? (f.claims packet typeHash)

/-- The first four bytes of the key stream. -/
def typeHash : Option (Nat → UInt8) → Str
  | none => List.replicate 4 0
  | some ks => xorStream ks 0 (List.replicate 4 0)

/-- The type of a message is read. -/
def unmaskType (cip : Option (Nat → UInt8)) (packet : Str) : Str :=
  match cip with
  | none => packet
  | some _ => applyHash (packet.take 4) (typeHash cip) ++ packet.drop 4

/-- The bytes of a message between its type and place `n` are read; the cipher has been used on four. -/
def unmask (cip : Option (Nat → UInt8)) (n : Nat) (packet : Str) : Str :=
  match cip with
  | none => packet
  | some ks => packet.take 4 ++ xorStream ks 4 ((packet.take n).drop 4) ++ packet.drop n

/-- A datagram as `RoutineReceiveIncoming` reads it: the type, the place and the message. -/
def Framing.receive (f : Framing) (chacha : Str → Str → Nat → UInt8) (packet : Str) : Option (Slot × Nat × Str) :=
  if packet.length < 32 then none
  else
    let cip := f.cipher chacha (packet.take 12)
    match f.determine packet (typeHash cip) with
    | none => none
    | some k =>
      let packet := packet.drop (f.padding k)
      let packet := if k = .transport then packet else packet.take (messageSize k)
      let packet := unmaskType cip packet
      if (if k = .transport then packet.length < messageSize k else packet.length ≠ messageSize k) then none
      else some (k, f.padding k, unmask cip (maskSize k) packet)

/-- The first `n` bytes of a message are hidden. -/
def mask (cip : Option (Nat → UInt8)) (n : Nat) (message : Str) : Str :=
  match cip with
  | none => message
  | some ks => xorStream ks 0 (message.take n) ++ message.drop n

/-- A message as it is sent; of a transport message only the header is mixed with the key stream. -/
def Framing.send (f : Framing) (chacha : Str → Str → Nat → UInt8) (k : Slot) (crypt message trailer : Str) : Str :=
  crypt ++ mask (f.cipher chacha ((crypt ++ message).take 12)) (maskSize k) message ++ trailer

end model

section wire

theorem fastrandn_lt (random n : UInt32) (hn : 0 < n.toNat) : (fastrandn random n).toNat < n.toNat := by
  have hrandom := random.toNat_lt
  have hsize := n.toNat_lt
  have hprod : random.toNat * n.toNat < 2 ^ 32 * n.toNat := Nat.mul_lt_mul_of_pos_right hrandom hn
  have hdiv : random.toNat * n.toNat / 2 ^ 32 < n.toNat := Nat.div_lt_of_lt_mul hprod
  have hword : random.toNat * n.toNat < 2 ^ 64 := by
    calc random.toNat * n.toNat < 2 ^ 32 * n.toNat := hprod
      _ ≤ 2 ^ 32 * 2 ^ 32 := Nat.mul_le_mul_left _ (Nat.le_of_lt hsize)
      _ = 2 ^ 64 := by decide
  have hvalue : (fastrandn random n).toNat = random.toNat * n.toNat / 2 ^ 32 := by
    rw [fastrandn, UInt64.toNat_toUInt32, UInt64.toNat_shiftRight, UInt64.toNat_mul, UInt32.toNat_toUInt64,
      UInt32.toNat_toUInt64, Nat.mod_eq_of_lt hword]
    change (random.toNat * n.toNat) >>> 32 % 2 ^ 32 = _
    rw [Nat.shiftRight_eq_div_pow, Nat.mod_eq_of_lt (by omega)]
  omega

/-- A header is picked from its range. -/
theorem pickOne_contains (r : UintRange) (random : UInt32) (h : r.lo ≤ r.hi) : r.contains (r.pickOne random) = true := by
  have hle : r.lo.toNat ≤ r.hi.toNat := h
  have hhi := r.hi.toNat_lt
  have hcount : (r.hi - r.lo + 1).toNat = (r.hi.toNat - r.lo.toNat + 1) % 2 ^ 32 := by
    rw [UInt32.toNat_add, UInt32.toNat_sub_of_le _ _ h]
    rfl
  have hpick : (fastrandn random (r.hi - r.lo + 1)).toNat ≤ r.hi.toNat - r.lo.toNat := by
    by_cases hzero : (r.hi - r.lo + 1).toNat = 0
    · -- the whole range of 32 bits
      have hnone : fastrandn random (r.hi - r.lo + 1) = 0 := by
        rw [UInt32.toNat_inj.mp (hzero.trans rfl : (r.hi - r.lo + 1).toNat = (0 : UInt32).toNat)]
        simp [fastrandn]
      rw [hnone]
      exact Nat.zero_le _
    · have hlt := fastrandn_lt random (r.hi - r.lo + 1) (Nat.pos_of_ne_zero hzero)
      omega
  have hsum : (r.pickOne random).toNat = r.lo.toNat + (fastrandn random (r.hi - r.lo + 1)).toNat := by
    rw [UintRange.pickOne, UInt32.toNat_add, Nat.mod_eq_of_lt (by omega)]
  rw [UintRange.contains, Bool.and_eq_true, decide_eq_true_eq, decide_eq_true_eq, UInt32.le_iff_toNat_le,
    UInt32.le_iff_toNat_le, hsum]
  omega

/-- Different types have different headers, and the nonce of the header cipher lies before the message. -/
structure Framing.Sound (f : Framing) : Prop where
  apart : ∀ num j k, (f.headers.get j).contains num = true → (f.headers.get k).contains num = true → j = k
  long : f.headerProtectionKey ≠ zeroKey → ∀ k, 12 ≤ f.padding k

/-- What the sender puts on the wire. -/
structure Framing.Sends (f : Framing) (k : Slot) (crypt message trailer : Str) : Prop where
  crypt_length : crypt.length = f.padding k
  message_length : if k = .transport then messageSize k ≤ message.length else message.length = messageSize k
  header : (f.headers.get k).contains (little (message.take 4)).toUInt32 = true
  trailer : trailer = [] ∨ f.randomTrailers = true ∧ k ≠ .transport

/-- The types that the receiver tries before. -/
def Slot.before : Slot → List Slot
  | .init => []
  | .response => [.init]
  | .cookie => [.init, .response]
  | .transport => [.init, .response, .cookie]

/-- No type that is tried before is looked for at another place of a datagram of this size. -/
def Framing.Unclaimed (f : Framing) (k : Slot) (size : Nat) : Prop :=
  ∀ j ∈ k.before, f.fits size j = true → f.padding j = f.padding k

variable (f : Framing) (chacha : Str → Str → Nat → UInt8)

theorem find?_slots (p : Slot → Bool) (k : Slot) (hk : p k = true) (hbefore : ∀ j ∈ k.before, p j = false) :
    [Slot.init, .response, .cookie, .transport].find? p = some k := by
  cases k <;> simp_all [Slot.before]

theorem Framing.Sends.length {f : Framing} {k : Slot} {crypt message trailer : Str}
    (h : f.Sends k crypt message trailer) : messageSize k ≤ message.length := by
  have hlength := h.message_length
  split at hlength
  · exact hlength
  · exact Nat.le_of_eq hlength.symm

theorem messageSize_le (k : Slot) : 32 ≤ messageSize k := by
  cases k <;> decide

theorem Framing.Sends.fits {f : Framing} {k : Slot} {crypt message trailer : Str}
    (h : f.Sends k crypt message trailer) : f.fits (crypt.length + message.length + trailer.length) k = true := by
  have hcrypt := h.crypt_length
  have hlength := h.message_length
  have handshake : k ≠ .transport → (crypt.length + message.length + trailer.length == f.padding k + messageSize k ||
      f.randomTrailers && decide (crypt.length + message.length + trailer.length > f.padding k + messageSize k)) = true := by
    intro hk
    rw [if_neg hk] at hlength
    rcases h.trailer with rfl | ⟨htrailers, -⟩
    · simp [hcrypt, hlength]
    · rw [htrailers, Bool.true_and, Bool.or_eq_true, beq_iff_eq, decide_eq_true_eq]
      omega
  cases k with
  | transport =>
    have hsize : messageSize .transport ≤ message.length := hlength
    apply decide_eq_true
    omega
  | init | response | cookie => exact handshake (by decide)

theorem mask_length (cip : Option (Nat → UInt8)) (n : Nat) (message : Str) : (mask cip n message).length = message.length := by
  cases cip with
  | none => rfl
  | some ks =>
    rw [mask, List.length_append, xorStream_length, List.length_take, List.length_drop]
    omega

/-- A message in three parts: its type, what is hidden with it, and the rest. -/
theorem split_message (n : Nat) (hn : 4 ≤ n) (message : Str) (hm : n ≤ message.length) :
    ∃ a b c, message = a ++ b ++ c ∧ a.length = 4 ∧ 4 + b.length = n := by
  refine ⟨message.take 4, (message.take n).drop 4, message.drop n, ?_, ?_, ?_⟩
  · have hfront : message.take 4 = (message.take n).take 4 := by rw [List.take_take, Nat.min_eq_left hn]
    rw [hfront, List.take_append_drop, List.take_append_drop]
  · rw [List.length_take]
    omega
  · rw [List.length_drop, List.length_take]
    omega

theorem mask_parts (ks : Nat → UInt8) (a b c : Str) (ha : a.length = 4) :
    mask (some ks) (4 + b.length) (a ++ b ++ c) = xorStream ks 0 a ++ (xorStream ks 4 b ++ c) := by
  have hn : 4 + b.length = (a ++ b).length := by rw [List.length_append, ha]
  rw [mask, hn, List.take_left, List.drop_left, xorStream_append, ha, List.append_assoc]

/-- The type of a hidden message. -/
theorem applyHash_mask (cip : Option (Nat → UInt8)) (n : Nat) (hn : 4 ≤ n) (message trailer : Str)
    (hm : n ≤ message.length) :
    applyHash ((mask cip n message ++ trailer).take 4) (typeHash cip) = message.take 4 := by
  obtain ⟨a, b, c, rfl, ha, hb⟩ := split_message n hn message hm
  have htake : (a ++ b ++ c).take 4 = a := by rw [List.append_assoc, ← ha, List.take_left]
  cases cip with
  | none =>
    have hfront : (a ++ b ++ c ++ trailer).take 4 = a := by
      rw [List.append_assoc, List.append_assoc, ← ha, List.take_left]
    have hzero : ∀ s : Str, List.zipWith (· ^^^ ·) s (List.replicate s.length 0) = s := by
      intro s
      induction s with
      | nil => rfl
      | cons b s ih => rw [List.length_cons, List.replicate_succ, List.zipWith_cons_cons, ih, UInt8.xor_zero]
    rw [mask, hfront, htake, applyHash, typeHash, ← ha, hzero]
  | some ks =>
    have hfront : (xorStream ks 0 a ++ (xorStream ks 4 b ++ c) ++ trailer).take 4 = xorStream ks 0 a := by
      rw [List.append_assoc, show 4 = (xorStream ks 0 a).length by rw [xorStream_length, ha], List.take_left]
    have hzeros := zipWith_xorStream_zero ks 0 (xorStream ks 0 a)
    rw [xorStream_length, ha, xorStream_xorStream] at hzeros
    rw [← hb, mask_parts ks a b c ha, hfront, htake, applyHash, typeHash]
    exact hzeros

theorem unmask_mask (cip : Option (Nat → UInt8)) (n : Nat) (hn : 4 ≤ n) (message : Str) (hm : n ≤ message.length) :
    unmask cip n (unmaskType cip (mask cip n message)) = message := by
  have hread := applyHash_mask cip n hn message [] hm
  rw [List.append_nil] at hread
  cases cip with
  | none => rfl
  | some ks =>
    rw [unmaskType, hread]
    obtain ⟨a, b, c, rfl, ha, hb⟩ := split_message n hn message hm
    have htake : (a ++ b ++ c).take 4 = a := by rw [List.append_assoc, ← ha, List.take_left]
    have hdrop : (mask (some ks) n (a ++ b ++ c)).drop 4 = xorStream ks 4 b ++ c := by
      rw [← hb, mask_parts ks a b c ha, show 4 = (xorStream ks 0 a).length by rw [xorStream_length, ha], List.drop_left,
        xorStream_length, ha]
    have hfront : a ++ (xorStream ks 4 b ++ c) = (a ++ xorStream ks 4 b) ++ c := (List.append_assoc _ _ _).symm
    have hsize : n = (a ++ xorStream ks 4 b).length := by rw [List.length_append, xorStream_length, ha, hb]
    have htake4 : (a ++ (xorStream ks 4 b ++ c)).take 4 = a := by rw [← ha, List.take_left]
    have hmid : ((a ++ (xorStream ks 4 b ++ c)).take n).drop 4 = xorStream ks 4 b := by
      rw [hfront, hsize, List.take_left, ← ha, List.drop_left]
    have hrest : (a ++ (xorStream ks 4 b ++ c)).drop n = c := by rw [hfront, hsize, List.drop_left]
    rw [htake, hdrop, unmask, htake4, hmid, hrest, xorStream_xorStream]

theorem unmaskType_length (cip : Option (Nat → UInt8)) (packet : Str) (h : 4 ≤ packet.length) :
    (unmaskType cip packet).length = packet.length := by
  cases cip with
  | none => rfl
  | some ks =>
    rw [unmaskType, List.length_append, applyHash, List.length_zipWith, typeHash, xorStream_length,
      List.length_replicate, List.length_take, List.length_drop]
    omega

theorem maskSize_bounds (k : Slot) : 4 ≤ maskSize k ∧ maskSize k ≤ messageSize k := by
  cases k <;> decide

/-- What was sent is what is received, with its type, unless a type that is tried before is looked for
at another place. -/
theorem receive_send (hf : f.Sound) (k : Slot) (crypt message trailer : Str) (hs : f.Sends k crypt message trailer)
    (hclear : f.Unclaimed k (crypt.length + message.length + trailer.length)) :
    f.receive chacha (f.send chacha k crypt message trailer) = some (k, f.padding k, message) := by
  have hsize := hs.length
  have hmin := messageSize_le k
  obtain ⟨hfour, hmask⟩ := maskSize_bounds k
  have hm : maskSize k ≤ message.length := Nat.le_trans hmask hsize
  -- the nonce of the receiver is the one of the sender
  have hcipher : f.cipher chacha ((f.send chacha k crypt message trailer).take 12) =
      f.cipher chacha ((crypt ++ message).take 12) := by
    rw [Framing.cipher, Framing.cipher]
    by_cases hkey : f.headerProtectionKey = zeroKey
    · rw [if_pos hkey, if_pos hkey]
    · have hlong : 12 ≤ crypt.length := by
        rw [hs.crypt_length]
        exact hf.long hkey k
      rw [Framing.send, List.append_assoc, List.take_append_of_le_length hlong, List.take_append_of_le_length hlong]
  rw [Framing.receive]
  simp only [hcipher]
  rw [Framing.send]
  generalize f.cipher chacha ((crypt ++ message).take 12) = cip
  have hlength : (crypt ++ mask cip (maskSize k) message ++ trailer).length =
      crypt.length + message.length + trailer.length := by
    rw [List.length_append, List.length_append, mask_length]
  have hplace : (crypt ++ mask cip (maskSize k) message ++ trailer).drop (f.padding k) =
      mask cip (maskSize k) message ++ trailer := by
    rw [List.append_assoc, ← hs.crypt_length, List.drop_left]
  have hclaims : ∀ j, f.padding j = f.padding k →
      f.claims (crypt ++ mask cip (maskSize k) message ++ trailer) (typeHash cip) j =
        (f.fits (crypt.length + message.length + trailer.length) j &&
          (f.headers.get j).contains (little (message.take 4)).toUInt32) := by
    intro j hj
    rw [Framing.claims, hlength, hj, hplace, applyHash_mask cip _ hfour message trailer hm]
  have hdetermine : f.determine (crypt ++ mask cip (maskSize k) message ++ trailer) (typeHash cip) = some k := by
    apply find?_slots
    · rw [hclaims k rfl, hs.fits, hs.header]
      rfl
    · intro j hj
      cases hfit : f.fits (crypt.length + message.length + trailer.length) j with
      | false => rw [Framing.claims, hlength, hfit, Bool.false_and]
      | true =>
        rw [hclaims j (hclear j hj hfit), hfit, Bool.true_and, Bool.eq_false_iff]
        intro hheader
        have hsame := hf.apart _ j k hheader hs.header
        rw [hsame] at hj
        cases k <;> simp [Slot.before] at hj
  have hbody : (if k = .transport then mask cip (maskSize k) message ++ trailer
      else (mask cip (maskSize k) message ++ trailer).take (messageSize k)) = mask cip (maskSize k) message := by
    by_cases hk : k = .transport
    · rcases hs.trailer with rfl | ⟨-, hne⟩
      · rw [if_pos hk, List.append_nil]
      · exact absurd hk hne
    · have hexact := hs.message_length
      rw [if_neg hk] at hexact
      rw [if_neg hk, ← hexact, ← mask_length cip (maskSize k) message, List.take_left]
  have hkept : (unmaskType cip (mask cip (maskSize k) message)).length = message.length := by
    rw [unmaskType_length _ _ (by rw [mask_length]; omega), mask_length]
  have haccept : ¬ (if k = .transport then (unmaskType cip (mask cip (maskSize k) message)).length < messageSize k
      else (unmaskType cip (mask cip (maskSize k) message)).length ≠ messageSize k) := by
    have hexact := hs.message_length
    rw [hkept]
    by_cases hk : k = .transport
    · rw [if_pos hk]
      omega
    · rw [if_neg hk] at hexact ⊢
      omega
  rw [if_neg (by rw [hlength]; omega), hdetermine]
  simp only [hplace, hbody, if_neg haccept, unmask_mask cip _ hfour message hm]

end wire

section configured

/-- The settings of the device that a merge changes. -/
def Device.merged (d : Device) : IpcSetDevice := ⟨d.headers, d.paddings, d.headerProtectionKey⟩

/-- The state after a line, also after one that failed. -/
def Handled.state : Handled → IpcState
  | .ok st => st
  | .error e => e.2

/-- What a line can do to the settings of a merge: nothing to those of the device, and to the ones it
collects a header with an ordered range. -/
structure Collects (st st' : IpcState) : Prop where
  merged : st'.device.merged = st.device.merged
  headers : st'.ipcDev.headers = st.ipcDev.headers ∨
    ∃ r k, r.lo ≤ r.hi ∧ st'.ipcDev.headers = st.ipcDev.headers.set r k

theorem Collects.refl (st : IpcState) : Collects st st := ⟨rfl, Or.inl rfl⟩

theorem parsed_collects {α : Type} (st : IpcState) (msg : String) (x : Except Cause α) (k : α → Handled)
    (hk : ∀ a, x = .ok a → Collects st (Handled.state (k a))) : Collects st (Handled.state (st.parsed msg x k)) := by
  cases x with
  | error cause => exact .refl st
  | ok a => exact hk a rfl

theorem setPrivateKey_merged (env : Env) (d : Device) (sk : Str) : (d.setPrivateKey env sk).merged = d.merged := by
  rw [Device.setPrivateKey]
  split
  · rfl
  · simp only
    split <;> rfl

theorem updatePeer_collects (st : IpcState) (peer : IpcSetPeer) (g : DevicePeer → DevicePeer) :
    Collects st (st.updatePeer peer g) := by
  rw [IpcState.updatePeer]
  split
  · exact .refl st
  · exact ⟨rfl, Or.inl rfl⟩

theorem fromString_ordered (value : Str) (r : UintRange) (h : UintRange.fromString value = .ok r) : r.lo ≤ r.hi := by
  unfold UintRange.fromString at h
  split at h
  · split at h
    · cases h
    · cases h
      exact UInt32.le_refl _
  · split at h
    · cases h
    · rename_i lo hlo
      split at h
      · cases h
      · rename_i hi hhi
        split_ifs at h with hlt
        cases h
        have hbound : hi < 2 ^ 32 := parseUint_lt _ 32 hi hhi
        rw [UInt32.le_iff_toNat_le]
        simp only [Nat.toUInt32, UInt32.toNat_ofNat']
        omega
  · cases h

/-- One device line. -/
theorem applyDeviceKey_collects (env : Env) (st : IpcState) (key : DeviceKey) (value : Str) :
    Collects st (Handled.state (applyDeviceKey env st key value)) := by
  cases key with
  | privateKey => exact parsed_collects st _ _ _ fun sk _ => ⟨setPrivateKey_merged env st.device sk, Or.inl rfl⟩
  | listenPort =>
    apply parsed_collects st
    intro port _
    simp only
    split <;> exact ⟨rfl, Or.inl rfl⟩
  | fwmark =>
    apply parsed_collects st
    intro mark _
    split <;> exact ⟨rfl, Or.inl rfl⟩
  | replacePeers =>
    rw [applyDeviceKey]
    split <;> exact ⟨rfl, Or.inl rfl⟩
  | header k => exact parsed_collects st _ _ _ fun r hr => ⟨rfl, Or.inr ⟨r, k, fromString_ordered value r hr, rfl⟩⟩
  | junk | padding | ipacket | headerProtectionKey | range | flag =>
    exact parsed_collects st _ _ _ fun _ _ => ⟨rfl, Or.inl rfl⟩

theorem applyPeerKey_collects (env : Env) (st : IpcState) (peer : IpcSetPeer) (key : PeerLineKey) (value : Str) :
    Collects st (Handled.state (applyPeerKey env st peer key value)) := by
  cases key with
  | updateOnly | replaceAllowedIPs =>
    rw [applyPeerKey]
    split
    · exact .refl st
    · split <;> exact ⟨rfl, Or.inl rfl⟩
  | remove =>
    rw [applyPeerKey]
    split
    · exact .refl st
    · refine ⟨?_, Or.inl rfl⟩
      simp only [Handled.state]
      split <;> rfl
  | presharedKey | endpoint | persistentKeepalive =>
    exact parsed_collects st _ _ _ fun _ _ => updatePeer_collects st peer _
  | allowedIP =>
    apply parsed_collects st
    intro p _
    split
    · exact .refl st
    · split <;> exact ⟨rfl, Or.inl rfl⟩
  | protocolVersion =>
    rw [applyPeerKey]
    split <;> exact .refl st

theorem ipcLine_collects (env : Env) (st : IpcState) (line : Str) : Collects st (Handled.state (ipcLine env st line)) := by
  rw [ipcLine]
  split
  · exact .refl st
  · simp only
    split
    · -- a peer is loaded or created
      apply parsed_collects st
      intro publicKey _
      simp only
      split
      · exact ⟨rfl, Or.inl rfl⟩
      · split
        · exact ⟨rfl, Or.inl rfl⟩
        · split <;> exact ⟨rfl, Or.inl rfl⟩
    · split
      · rw [handleDeviceLine]
        split
        · exact .refl st
        · exact applyDeviceKey_collects env st _ _
      · rw [handlePeerLine]
        split
        · exact .refl st
        · exact applyPeerKey_collects env st _ _ _

def Quad.Ordered (q : Quad UintRange) : Prop := ∀ k, (q.get k).lo ≤ (q.get k).hi

/-- The headers are ranges that do not overlap, and the paddings have room for the nonce. -/
structure Wired (d : IpcSetDevice) : Prop extends Mergeable d where
  ordered : Quad.Ordered d.headers

theorem ordered_set (q : Quad UintRange) (h : Quad.Ordered q) (r : UintRange) (hr : r.lo ≤ r.hi) (j : Slot) :
    Quad.Ordered (q.set r j) := by
  intro k
  cases j <;> cases k <;> first
    | exact hr
    | exact h .init
    | exact h .response
    | exact h .cookie
    | exact h .transport

theorem Collects.ordered {st st' : IpcState} (hc : Collects st st') (h : Quad.Ordered st.ipcDev.headers) :
    Quad.Ordered st'.ipcDev.headers := by
  rcases hc.headers with heq | ⟨r, j, hr, heq⟩
  · rw [heq]
    exact h
  · rw [heq]
    exact ordered_set _ h r hr j

/-- A merge that fails leaves the old paddings and the old key, with headers that do not overlap. -/
theorem mergeWithDevice_wired (ipcDev : IpcSetDevice) (d : Device) (h : Wired d.merged)
    (hordered : Quad.Ordered ipcDev.headers) :
    Wired (mergeWithDevice ipcDev d).1.merged := by
  rw [mergeWithDevice]
  by_cases hoverlap : anyOverlap ipcDev.headers.toList = true
  · rw [if_pos hoverlap]
    exact h
  · have hheaders : anyOverlap ipcDev.headers.toList = false := Bool.eq_false_iff.mpr hoverlap
    rw [if_neg hoverlap]
    simp only
    split
    · exact ⟨⟨hheaders, h.paddings⟩, hordered⟩
    · rename_i hshort
      refine ⟨⟨hheaders, ?_⟩, hordered⟩
      by_cases hkey : ipcDev.headerProtectionKey = zeroKey
      · exact Or.inl hkey
      · rw [if_neg hkey] at hshort
        exact Or.inr hshort

theorem ipcFinish_wired (st : IpcState) (h : Wired st.device.merged)
    (hordered : Quad.Ordered st.ipcDev.headers) :
    Wired (ipcFinish st).1.merged := by
  have hmerge := mergeWithDevice_wired st.ipcDev st.device h hordered
  rw [ipcFinish]
  split
  · rename_i d cause heq
    rw [heq] at hmerge
    exact hmerge
  · rename_i d heq
    rw [heq] at hmerge
    exact hmerge

theorem ipcLoop_wired (env : Env) (tooLong : Bool) (lines : List Str) (st : IpcState) (h : Wired st.device.merged)
    (hordered : Quad.Ordered st.ipcDev.headers) :
    Wired (ipcLoop env tooLong st lines).1.merged := by
  induction lines generalizing st with
  | nil =>
    have hfinish := ipcFinish_wired st h hordered
    rw [ipcLoop]
    split
    · rename_i d e heq
      rw [heq] at hfinish
      exact hfinish
    · rename_i d heq
      rw [heq] at hfinish
      split <;> exact hfinish
  | cons line rest ih =>
    have hline := ipcLine_collects env st line
    rw [ipcLoop]
    split
    · exact ipcFinish_wired st h hordered
    · split
      · -- what was changed before the failing line stays
        rename_i e st' heq
        rw [heq] at hline
        exact (congrArg Wired hline.merged).mpr h
      · rename_i st' heq
        rw [heq] at hline
        exact ih st' ((congrArg Wired hline.merged).mpr h) (hline.ordered hordered)

theorem Wired.sound {d : Device} (h : Wired d.merged) : d.framing.Sound where
  apart := h.classified
  long := by
    intro hkey k
    exact UInt32.le_iff_toNat_le.mp (h.long hkey k)

/-- The device after some configuration operations, of which any may fail. -/
def Device.configured (env : Env) (inputs : List Str) : Device :=
  inputs.foldl (fun d input => (ipcSetOperation env d input).1) Device.new

theorem configured_wired (env : Env) (inputs : List Str) : Wired (Device.configured env inputs).merged := by
  have hrun : ∀ d : Device, Wired d.merged →
      Wired (inputs.foldl (fun d input => (ipcSetOperation env d input).1) d).merged := by
    induction inputs with
    | nil => exact fun d h => h
    | cons input inputs ih =>
      intro d h
      rw [List.foldl_cons]
      exact ih _ (ipcLoop_wired env _ _ (IpcState.start d) h h.ordered)
  apply hrun Device.new
  refine ⟨⟨by decide, Or.inl rfl⟩, fun k => ?_⟩
  cases k <;> decide

/-- A message that begins with a header from the range of its type. -/
theorem Framing.Sends.of_pick (f : Framing) (k : Slot) (random : UInt32) (crypt body trailer : Str)
    (hordered : (f.headers.get k).lo ≤ (f.headers.get k).hi) (hcrypt : crypt.length = f.padding k)
    (hbody : if k = .transport then messageSize k ≤ 4 + body.length else 4 + body.length = messageSize k)
    (htrailer : trailer = [] ∨ f.randomTrailers = true ∧ k ≠ .transport) :
    f.Sends k crypt (putLittle 4 ((f.headers.get k).pickOne random).toNat ++ body) trailer where
  crypt_length := hcrypt
  message_length := by
    rw [List.length_append, putLittle_length]
    exact hbody
  header := by
    have hfront : (putLittle 4 ((f.headers.get k).pickOne random).toNat ++ body).take 4 =
        putLittle 4 ((f.headers.get k).pickOne random).toNat := List.take_left' (putLittle_length 4 _)
    rw [hfront, little_putLittle _ _ (UInt32.toNat_lt _)]
    have hback : ((f.headers.get k).pickOne random).toNat.toUInt32 = (f.headers.get k).pickOne random :=
      UInt32.ofNat_toNat
    rw [hback]
    exact pickOne_contains _ random hordered
  trailer := htrailer

/-- However a device was configured, a message that it sends with a header it picks is read back with its
type, unless a type that is tried before is looked for at another place. -/
theorem configured_round_trip (env : Env) (inputs : List Str) (chacha : Str → Str → Nat → UInt8) (k : Slot)
    (random : UInt32) (crypt body trailer : Str) :
    let f := (Device.configured env inputs).framing
    let message := putLittle 4 ((f.headers.get k).pickOne random).toNat ++ body
    crypt.length = f.padding k →
    (if k = .transport then messageSize k ≤ 4 + body.length else 4 + body.length = messageSize k) →
    (trailer = [] ∨ f.randomTrailers = true ∧ k ≠ .transport) →
    f.Unclaimed k (crypt.length + message.length + trailer.length) →
    f.receive chacha (f.send chacha k crypt message trailer) = some (k, f.padding k, message) := by
  intro f message hcrypt hbody htrailer hclear
  have hwired := configured_wired env inputs
  exact receive_send f chacha hwired.sound k crypt message trailer
    (Framing.Sends.of_pick f k random crypt body trailer (hwired.ordered k) hcrypt hbody htrailer) hclear

/-- Two operations, of which the second one fails. -/
def trailingInputs : List Str :=
  [ascii "s1=20\ns2=20\ns3=12\ns4=13\nh1=100-200\nh2=300-400\nrandom_trailers=true\nheader_protection_key=" ++
    List.replicate 64 0x37 ++ ascii "\n", ascii "h3=350\n"]

/-- A hidden response that is as long as an initiation. -/
theorem configured_round_trip_response :
    let f := (Device.configured sampleEnv trailingInputs).framing
    let message := putLittle 4 ((f.headers.get .response).pickOne 12345).toNat ++ List.replicate 88 7
    f.receive (fun _ _ i => i.toUInt8)
      (f.send (fun _ _ i => i.toUInt8) .response (List.replicate 20 1) message (List.replicate 60 2)) =
        some (.response, f.padding .response, message) := by
  have hf : (Device.configured sampleEnv trailingInputs).framing =
      ⟨⟨⟨100, 200⟩, ⟨300, 400⟩, ⟨3, 3⟩, ⟨4, 4⟩⟩, ⟨20, 20, 12, 13⟩,
        List.replicate 32 0x77, true⟩ := by decide +kernel
  apply configured_round_trip
  · rw [hf]
    decide
  · decide
  · rw [hf]
    decide
  · intro j hj _
    rw [List.mem_singleton.mp hj, hf]
    decide

end configured

end SmartAwg.Awg
