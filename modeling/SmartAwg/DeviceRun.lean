import SmartAwg.ConfUapi
import SmartAwg.DeviceUapi

/-!
Runs of the device over the lines of a written configuration: each kind of value `ToUAPI`
writes is read by the device, and each group of lines keeps what the merge at the end needs.
-/

namespace SmartAwg.Awg

open Go Conf

section values

theorem parseNum_itoa (n bits : Nat) (h : n < 2 ^ bits) : parseNum (itoa n) bits = .ok n := by
  rw [parseNum, parseUint_itoa n bits h]

theorem loadExactHex_hexString (k : Key) : loadExactHex k.hexString = .ok k.bytes := by
  have hlen : k.bytes.length = noiseKeySize := k.length_eq
  rw [loadExactHex, Key.hexString, hexDecode_encode]
  simp only [hlen, ne_eq, not_true_eq_false, if_false]

theorem fromMaybeZeroHex_hexString (k : Key) : ∃ sk, fromMaybeZeroHex k.hexString = .ok sk := by
  rw [fromMaybeZeroHex, loadExactHex_hexString]
  simp only
  split
  · exact ⟨_, rfl⟩
  · exact ⟨_, rfl⟩

theorem rangeBoundary_parseUint (part : Str) (bits n : Nat) (h : rangeBoundary part bits = .ok n) :
    parseUint part bits = .ok n := by
  unfold rangeBoundary at h
  split at h
  · cases h
  split at h
  · split at h
    · rename_i hok
      cases h
      exact hok
    · cases h
  · cases h

/-- The device reads every range the validator accepts, with the same bounds. -/
theorem fromString_of_range (s : Str) (bits : Nat) (r : Nat × Nat) (hb : bits ≤ 32)
    (h : parseAWGRange s bits = .ok r) :
    UintRange.fromString s = .ok ⟨r.1.toUInt32, r.2.toUInt32⟩ := by
  have hone : ∀ part n, rangeBoundary part bits = .ok n → parseUint part 32 = .ok n :=
    fun part n hp => parseUint_mono part bits 32 n hb (rangeBoundary_parseUint part bits n hp)
  unfold parseAWGRange at h
  split at h
  · rename_i part hsplit
    cases hp : rangeBoundary part bits with
    | error e =>
      rw [hp] at h
      cases h
    | ok n =>
      rw [hp] at h
      cases h
      simp only [UintRange.fromString, hsplit, hone part n hp]
  · rename_i first second hsplit
    cases hfirst : rangeBoundary first bits with
    | error e =>
      rw [hfirst] at h
      cases h
    | ok lo =>
      cases hsecond : rangeBoundary second bits with
      | error e =>
        rw [hfirst, hsecond] at h
        cases h
      | ok hi =>
        rw [hfirst, hsecond] at h
        simp only at h
        split at h
        · cases h
        · rename_i hle
          cases h
          simp only [UintRange.fromString, hsplit, hone first _ hfirst, hone second _ hsecond]
          rw [if_neg hle]
  · cases h

theorem parseChain_of_validateCPS (spec : Str) (h : validateCPS spec = .ok ()) :
    ∃ chain, parseChain spec = .ok chain := by
  obtain ⟨chain, hchain, -⟩ := newObfChain_of_validateCPS spec h
  exact ⟨some chain, by rw [parseChain, hchain]⟩

theorem parseBool_boolToUAPI (v : Str) : ∃ b, parseBool (boolToUAPI v) = .ok b := by
  unfold boolToUAPI
  split
  · exact ⟨true, by decide +kernel⟩
  · exact ⟨false, by decide +kernel⟩

theorem parsePrefix_ipCidr (a : IPCidr) (h : a.Fits) :
    parsePrefix a.string = some ⟨⟨a.ip, []⟩, a.cidr.toNat⟩ := by
  rw [IPCidr.string]
  exact parsePrefix_ipString a.ip a.cidr.toNat h

end values

/-- The lines of some entries, one after the other. -/
def runEntries (env : Env) : IpcState → List UapiEntry → Handled
  | st, [] => .ok st
  | st, e :: rest =>
    match ipcLine env st (uapiLine e) with
    | .error x => .error x
    | .ok st' => runEntries env st' rest

/-- From every state with `P` the entries are accepted and lead to a state with `Q`. -/
def Triple (env : Env) (P : IpcState → Prop) (es : List UapiEntry) (Q : IpcState → Prop) : Prop :=
  ∀ st, P st → ∃ st', runEntries env st es = .ok st' ∧ Q st'

section triples
variable {env : Env} {P Q R : IpcState → Prop}

theorem Triple.nil : Triple env P [] P := fun st h => ⟨st, rfl, h⟩

theorem Triple.append {es fs : List UapiEntry} (h1 : Triple env P es Q) (h2 : Triple env Q fs R) :
    Triple env P (es ++ fs) R := by
  intro st hst
  obtain ⟨mid, hmid, hq⟩ := h1 st hst
  obtain ⟨st', hst', hr⟩ := h2 mid hq
  refine ⟨st', ?_, hr⟩
  clear h1 h2 hst hr hq
  induction es generalizing st with
  | nil =>
    cases hmid
    exact hst'
  | cons e es ih =>
    rw [List.cons_append, runEntries]
    rw [runEntries] at hmid
    split at hmid
    · cases hmid
    · rename_i st1 hst1
      exact ih st1 hmid

theorem Triple.cons {e : UapiEntry} {es : List UapiEntry} (h1 : Triple env P [e] Q)
    (h2 : Triple env Q es R) : Triple env P (e :: es) R :=
  h1.append h2

theorem Triple.single {e : UapiEntry}
    (h : ∀ st, P st → ∃ st', ipcLine env st (uapiLine e) = .ok st' ∧ Q st') :
    Triple env P [e] Q := by
  intro st hst
  obtain ⟨st', hst', hq⟩ := h st hst
  exact ⟨st', by simp only [runEntries, hst'], hq⟩

/-- A group of lines that is empty unless a condition holds. -/
theorem Triple.ite {c : Prop} [Decidable c] {es : List UapiEntry}
    (h1 : c → Triple env P es Q) (h2 : ¬ c → ∀ st, P st → Q st) :
    Triple env P (if c then es else []) Q := by
  split
  · rename_i hc
    exact h1 hc
  · rename_i hc
    exact fun st hst => ⟨st, rfl, h2 hc st hst⟩

theorem Triple.flatMap {α : Type} (as : List α) (f : α → List UapiEntry)
    (h : ∀ a ∈ as, Triple env P (f a) P) : Triple env P (as.flatMap f) P := by
  induction as with
  | nil => exact Triple.nil
  | cons a as ih =>
    rw [List.flatMap_cons]
    exact (h a (by simp)).append (ih fun b hb => h b (by simp [hb]))

end triples

section lines
variable (env : Env) (st : IpcState)

theorem ipcLine_uapiLine (e : UapiEntry) (h : 0x3D ∉ ascii e.1) :
    ipcLine env st (uapiLine e) =
      if ascii e.1 = ascii "public_key" then handlePublicKeyLine st e.2
      else
        match st.peer with
        | none => handleDeviceLine env st (ascii e.1) e.2
        | some peer => handlePeerLine env st peer (ascii e.1) e.2 := by
  have hdrop : (ascii e.1 ++ 0x3D :: e.2).drop ((ascii e.1).length + 1) = e.2 := by simp
  rw [ipcLine, uapiLine, indexByte_append_cons _ _ _ h]
  cases st.peer <;> simp only [List.take_left, hdrop]

-- One evaluation of the whole table is cheaper than one per key.
theorem deviceKeys_label : ∀ e ∈ deviceKeys, lookupKey deviceKeys (ascii e.1) = some e.2 ∧
    ascii e.1 ≠ ascii "public_key" ∧ 0x3D ∉ ascii e.1 := by
  decide +kernel

theorem peerLineKeys_label : ∀ e ∈ peerLineKeys, lookupKey peerLineKeys (ascii e.1) = some e.2 ∧
    ascii e.1 ≠ ascii "public_key" ∧ 0x3D ∉ ascii e.1 := by
  decide +kernel

theorem ipcLine_device (label : String) (key : DeviceKey) (v : Str)
    (hmem : (label, key) ∈ deviceKeys) (hpeer : st.peer = none) :
    ipcLine env st (uapiLine (label, v)) = applyDeviceKey env st key v := by
  obtain ⟨hlookup, hne, hequals⟩ := deviceKeys_label _ hmem
  rw [ipcLine_uapiLine env st _ hequals, if_neg hne, hpeer]
  simp only [handleDeviceLine, hlookup]

theorem ipcLine_peer (label : String) (key : PeerLineKey) (v : Str) (peer : IpcSetPeer)
    (hmem : (label, key) ∈ peerLineKeys) (hpeer : st.peer = some peer) :
    ipcLine env st (uapiLine (label, v)) = applyPeerKey env st peer key v := by
  obtain ⟨hlookup, hne, hequals⟩ := peerLineKeys_label _ hmem
  rw [ipcLine_uapiLine env st _ hequals, if_neg hne, hpeer]
  simp only [handlePeerLine, hlookup]

theorem ipcLine_publicKey (v : Str) :
    ipcLine env st (uapiLine ("public_key", v)) = handlePublicKeyLine st v := by
  rw [ipcLine_uapiLine env st _ (by decide +kernel : 0x3D ∉ ascii "public_key"), if_pos rfl]

end lines

/-- Before the first peer: what is to be merged, and no peers yet. -/
structure DevState (d : IpcSetDevice) (st : IpcState) : Prop where
  peer : st.peer = none
  ipcDev : st.ipcDev = d
  peers : st.device.peers = []

/-- A padding is written unless it is zero. -/
def IpcSetDevice.withPadding (d : IpcSetDevice) (k : Slot) (v : UInt16) : IpcSetDevice :=
  { d with paddings := d.paddings.set (if v > 0 then v.toNat.toUInt32 else d.paddings.get k) k }

/-- A header is written unless it is empty. -/
def IpcSetDevice.withHeader (d : IpcSetDevice) (k : Slot) (text : Str) (r : Nat × Nat) :
    IpcSetDevice :=
  { d with headers :=
      d.headers.set (if text = [] then d.headers.get k else ⟨r.1.toUInt32, r.2.toUInt32⟩) k }

def IpcSetDevice.withKey (d : IpcSetDevice) (k : Key) : IpcSetDevice :=
  { d with headerProtectionKey := if k.isZero then d.headerProtectionKey else k.bytes }

theorem quad_set_get {α : Type} (q : Quad α) (k : Slot) : q.set (q.get k) k = q := by
  cases k <;> rfl

section device
variable {env : Env} (d : IpcSetDevice)

theorem triple_device (label : String) (key : DeviceKey) (v : Str) (d' : IpcSetDevice)
    (hmem : (label, key) ∈ deviceKeys)
    (h : ∀ st, DevState d st → ∃ st', applyDeviceKey env st key v = .ok st' ∧ DevState d' st') :
    Triple env (DevState d) [(label, v)] (DevState d') :=
  Triple.single fun st hst => by
    rw [ipcLine_device env st label key v hmem hst.peer]
    exact h st hst

theorem triple_privateKey (k : Key) :
    Triple env (DevState d) [("private_key", k.hexString)] (DevState d) := by
  refine triple_device d _ .privateKey _ d (by decide) fun st hst => ?_
  obtain ⟨sk, hsk⟩ := fromMaybeZeroHex_hexString k
  refine ⟨{ st with device := st.device.setPrivateKey env sk }, ?_, hst.peer, hst.ipcDev, ?_⟩
  · simp only [applyDeviceKey, IpcState.parsed, hsk]
  · unfold Device.setPrivateKey
    split
    · exact hst.peers
    · simp [hst.peers]

theorem triple_listenPort (hbind : ∀ port, env.bindUpdate port = true) (v : UInt16) :
    Triple env (DevState d) (uapiNum "listen_port" v) (DevState d) := by
  refine Triple.ite (fun _ => ?_) fun _ _ hst => hst
  refine triple_device d _ .listenPort _ d (by decide) fun st hst => ?_
  refine ⟨{ st with device := { st.device with port := v.toNat.toUInt16 } }, ?_, hst.peer,
    hst.ipcDev, hst.peers⟩
  simp only [applyDeviceKey, IpcState.parsed, parseNum_itoa _ 16 v.toNat_lt, hbind, if_true]

theorem triple_junk (label : String) (k : JunkKey) (v : UInt16)
    (hmem : (label, DeviceKey.junk k) ∈ deviceKeys) :
    Triple env (DevState d) (uapiNum label v) (DevState d) := by
  refine Triple.ite (fun _ => ?_) fun _ _ hst => hst
  refine triple_device d _ (.junk k) _ d hmem fun st hst => ?_
  have hv : v.toNat < 2 ^ 32 := Nat.lt_trans v.toNat_lt (by decide)
  refine ⟨{ st with device := { st.device with
    junk := Function.update st.device.junk k v.toNat.toUInt32 } }, ?_, hst.peer, hst.ipcDev,
    hst.peers⟩
  simp only [applyDeviceKey, IpcState.parsed, parseNum_itoa _ 32 hv]

theorem triple_padding (label : String) (k : Slot) (v : UInt16)
    (hmem : (label, DeviceKey.padding k) ∈ deviceKeys) :
    Triple env (DevState d) (uapiNum label v) (DevState (d.withPadding k v)) := by
  refine Triple.ite (fun hpos => ?_) fun hzero st hst => ?_
  · refine triple_device d _ (.padding k) _ _ hmem fun st hst => ?_
    refine ⟨{ st with ipcDev := { st.ipcDev with
      paddings := st.ipcDev.paddings.set v.toNat.toUInt32 k } }, ?_, hst.peer, ?_, hst.peers⟩
    · simp only [applyDeviceKey, IpcState.parsed, parseNum_itoa _ 16 v.toNat_lt]
    · simp only [IpcSetDevice.withPadding, if_pos hpos, hst.ipcDev]
  · rw [IpcSetDevice.withPadding, if_neg hzero, quad_set_get]
    exact hst

theorem triple_header (label : String) (k : Slot) (v : Str) (r : Nat × Nat)
    (hmem : (label, DeviceKey.header k) ∈ deviceKeys)
    (hr : v ≠ [] → parseAWGRange v 32 = .ok r) :
    Triple env (DevState d) (uapiText label v) (DevState (d.withHeader k v r)) := by
  refine Triple.ite (fun hpos => ?_) fun hzero st hst => ?_
  · have hne : v ≠ [] := List.ne_nil_of_length_pos hpos
    refine triple_device d _ (.header k) _ _ hmem fun st hst => ?_
    refine ⟨{ st with ipcDev := { st.ipcDev with
      headers := st.ipcDev.headers.set ⟨r.1.toUInt32, r.2.toUInt32⟩ k } }, ?_, hst.peer, ?_,
      hst.peers⟩
    · simp only [applyDeviceKey, IpcState.parsed,
        fromString_of_range v 32 r (Nat.le_refl _) (hr hne)]
    · simp only [IpcSetDevice.withHeader, if_neg hne, hst.ipcDev]
  · have hnil : v = [] := List.eq_nil_of_length_eq_zero (by omega)
    rw [IpcSetDevice.withHeader, if_pos hnil, quad_set_get]
    exact hst

theorem triple_packet (label : String) (i : Fin 5) (v : Str)
    (hmem : (label, DeviceKey.ipacket i) ∈ deviceKeys)
    (hv : v ≠ [] → validateCPS v = .ok ()) :
    Triple env (DevState d) (uapiText label v) (DevState d) := by
  refine Triple.ite (fun hpos => ?_) fun _ _ hst => hst
  refine triple_device d _ (.ipacket i) _ d hmem fun st hst => ?_
  obtain ⟨chain, hchain⟩ := parseChain_of_validateCPS v (hv (List.ne_nil_of_length_pos hpos))
  refine ⟨{ st with device := { st.device with
    ipackets := Function.update st.device.ipackets i chain } }, ?_, hst.peer, hst.ipcDev, hst.peers⟩
  simp only [applyDeviceKey, IpcState.parsed, hchain]

theorem triple_headerProtectionKey (k : Key) :
    Triple env (DevState d) (uapiKey "header_protection_key" k) (DevState (d.withKey k)) := by
  refine Triple.ite (fun hkey => ?_) fun hzero st hst => ?_
  · refine triple_device d _ .headerProtectionKey _ _ (by decide) fun st hst => ?_
    refine ⟨{ st with ipcDev := { st.ipcDev with headerProtectionKey := k.bytes } }, ?_, hst.peer,
      ?_, hst.peers⟩
    · simp only [applyDeviceKey, IpcState.parsed, loadExactHex_hexString]
    · rw [IpcSetDevice.withKey, if_neg (by simpa using hkey), hst.ipcDev]
  · rw [IpcSetDevice.withKey, if_pos (by simpa using hzero)]
    exact hst

theorem triple_range (label : String) (k : RangeKey) (v : Str)
    (hmem : (label, DeviceKey.range k) ∈ deviceKeys)
    (hv : v ≠ [] → ∃ r, parseAWGRange v 16 = .ok r) :
    Triple env (DevState d) (uapiText label v) (DevState d) := by
  refine Triple.ite (fun hpos => ?_) fun _ _ hst => hst
  refine triple_device d _ (.range k) _ d hmem fun st hst => ?_
  obtain ⟨r, hr⟩ := hv (List.ne_nil_of_length_pos hpos)
  refine ⟨{ st with device := { st.device with
    ranges := Function.update st.device.ranges k ⟨r.1.toUInt32, r.2.toUInt32⟩ } }, ?_, hst.peer,
    hst.ipcDev, hst.peers⟩
  simp only [applyDeviceKey, IpcState.parsed, fromString_of_range v 16 r (by decide) hr]

theorem triple_flag (label : String) (k : FlagKey) (v : Str)
    (hmem : (label, DeviceKey.flag k) ∈ deviceKeys) :
    Triple env (DevState d) (uapiBool label v) (DevState d) := by
  refine Triple.ite (fun _ => ?_) fun _ _ hst => hst
  refine triple_device d _ (.flag k) _ d hmem fun st hst => ?_
  obtain ⟨b, hb⟩ := parseBool_boolToUAPI v
  refine ⟨{ st with device := { st.device with flags := Function.update st.device.flags k b } }, ?_,
    hst.peer, hst.ipcDev, hst.peers⟩
  simp only [applyDeviceKey, IpcState.parsed, hb]

theorem triple_replacePeers :
    Triple env (DevState d) [("replace_peers", ascii "true")] (DevState d) := by
  refine triple_device d _ .replacePeers _ d (by decide) fun st hst => ?_
  refine ⟨{ st with device := st.device.removeAllPeers }, ?_, hst.peer, hst.ipcDev, rfl⟩
  simp only [applyDeviceKey, ne_eq, not_true_eq_false, if_false]

end device

/-- Between two peers: what is to be merged, and how many peers there are at most. -/
structure PeersState (d : IpcSetDevice) (n : Nat) (st : IpcState) : Prop where
  ipcDev : st.ipcDev = d
  peers : st.device.peers.length ≤ n

/-- Among the lines of a peer. -/
structure PeerState (d : IpcSetDevice) (n : Nat) (st : IpcState) : Prop
    extends PeersState d n st where
  peer : st.peer.isSome = true

section peer
variable {env : Env} (d : IpcSetDevice) (n : Nat)

theorem triple_publicKey (k : Key) (hn : n < maxPeers) :
    Triple env (PeersState d n) [("public_key", k.hexString)] (PeerState d (n + 1)) := by
  refine Triple.single fun st hst => ?_
  have hpeers := hst.peers
  simp only [ipcLine_publicKey, handlePublicKeyLine, IpcState.parsed, loadExactHex_hexString]
  split
  · exact ⟨_, rfl, ⟨hst.ipcDev, by simp only; omega⟩, rfl⟩
  split
  · exact ⟨_, rfl, ⟨hst.ipcDev, by simp only; omega⟩, rfl⟩
  · rw [if_neg (by omega)]
    exact ⟨_, rfl, ⟨hst.ipcDev, by simp only [List.length_append, List.length_singleton]; omega⟩, rfl⟩

theorem triple_peer (label : String) (key : PeerLineKey) (v : Str)
    (hmem : (label, key) ∈ peerLineKeys)
    (h : ∀ st peer, st.peer = some peer → PeerState d n st →
      ∃ st', applyPeerKey env st peer key v = .ok st' ∧ PeerState d n st') :
    Triple env (PeerState d n) [(label, v)] (PeerState d n) :=
  Triple.single fun st hst => by
    obtain ⟨peer, hpeer⟩ := Option.isSome_iff_exists.mp hst.peer
    rw [ipcLine_peer env st label key v peer hmem hpeer]
    exact h st peer hpeer hst

/-- A change to the current peer keeps the number of peers. -/
theorem PeerState.updatePeer {d : IpcSetDevice} {n : Nat} {st : IpcState} (h : PeerState d n st)
    (peer : IpcSetPeer) (f : DevicePeer → DevicePeer) : PeerState d n (st.updatePeer peer f) := by
  unfold IpcState.updatePeer
  split
  · exact h
  · exact ⟨⟨h.ipcDev, by simpa [Device.updatePeer] using h.peers⟩, h.peer⟩

theorem triple_presharedKey (k : Key) :
    Triple env (PeerState d n) (uapiKey "preshared_key" k) (PeerState d n) := by
  refine Triple.ite (fun _ => ?_) fun _ _ hst => hst
  refine triple_peer d n _ .presharedKey _ (by decide) fun st peer _ hst => ?_
  refine ⟨_, ?_, hst.updatePeer peer fun p => { p with presharedKey := k.bytes }⟩
  simp only [applyPeerKey, IpcState.parsed, loadExactHex_hexString]

theorem triple_endpoint (v : Str) (hv : (env.parseEndpoint v).isSome = true) :
    Triple env (PeerState d n) [("endpoint", v)] (PeerState d n) := by
  refine triple_peer d n _ .endpoint _ (by decide) fun st peer _ hst => ?_
  obtain ⟨e, he⟩ := Option.isSome_iff_exists.mp hv
  refine ⟨_, ?_, hst.updatePeer peer fun p => { p with endpoint := some e }⟩
  simp only [applyPeerKey, IpcState.parsed, parseEndpointValue, he]

theorem triple_keepalive (v : Str) (r : Nat × Nat) (hr : parseAWGRange v 16 = .ok r) :
    Triple env (PeerState d n) [("persistent_keepalive_interval", v)] (PeerState d n) := by
  refine triple_peer d n _ .persistentKeepalive _ (by decide) fun st peer _ hst => ?_
  refine ⟨_, ?_, hst.updatePeer peer fun p =>
    { p with persistentKeepalive := ⟨r.1.toUInt32, r.2.toUInt32⟩ }⟩
  simp only [applyPeerKey, IpcState.parsed, fromString_of_range v 16 r (by decide) hr]

theorem triple_replaceAllowedIPs :
    Triple env (PeerState d n) [("replace_allowed_ips", ascii "true")] (PeerState d n) := by
  refine triple_peer d n _ .replaceAllowedIPs _ (by decide) fun st peer _ hst => ?_
  simp only [applyPeerKey, ne_eq, not_true_eq_false, if_false]
  split
  · exact ⟨st, rfl, hst⟩
  · exact ⟨_, rfl, ⟨hst.ipcDev, hst.peers⟩, hst.peer⟩

theorem ipCidr_string_head (a : IPCidr) (h : a.Fits) : a.string.head? ≠ some 0x2D := by
  intro hhead
  have hmem : 0x2D ∈ ipString a.ip ++ 0x2F :: itoa a.cidr.toNat := List.mem_of_mem_head? hhead
  rcases List.mem_append.mp hmem with hip | hrest
  · exact absurd (ipString_bytes a.ip h.length 0x2D hip) (by decide)
  · rcases List.mem_cons.mp hrest with hslash | hdigit
    · exact absurd hslash (by decide)
    · exact absurd (itoa_isDigit _ _ hdigit) (by decide)

theorem triple_allowedIP (a : IPCidr) (h : a.Fits) :
    Triple env (PeerState d n) [("allowed_ip", a.string)] (PeerState d n) := by
  refine triple_peer d n _ .allowedIP _ (by decide) fun st peer _ hst => ?_
  simp only [applyPeerKey, ne_eq, ipCidr_string_head a h, not_false_eq_true, if_true,
    IpcState.parsed, parsePrefixValue, parsePrefix_ipCidr a h]
  split
  · exact ⟨st, rfl, hst⟩
  · exact ⟨_, rfl, ⟨hst.ipcDev, hst.peers⟩, hst.peer⟩

theorem triple_allowedIPs (as : List IPCidr) (h : ∀ a ∈ as, a.Fits) :
    Triple env (PeerState d n) (as.map fun a => ("allowed_ip", a.string)) (PeerState d n) := by
  induction as with
  | nil => exact Triple.nil
  | cons a as ih =>
    exact (triple_allowedIP d n a (h a (by simp))).cons (ih fun b hb => h b (by simp [hb]))

end peer

end SmartAwg.Awg
