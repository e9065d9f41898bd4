import SmartAwg.ConfAccepted
import SmartAwg.DeviceRun

/-!
Runs of the device over a whole validated configuration. Two validators meet here: what
`ValidateAWG` lets through is parsed by the device, line by line, and can be merged at the end.
-/

namespace SmartAwg.Awg

open Go Conf

section validated

theorem validatePadding_ok (n : Nat) (ps : List (UInt16 × Nat))
    (h : validatePadding true n ps = .ok ()) : ∀ p ∈ ps, ¬ p.1 < 12 := by
  induction ps generalizing n with
  | nil => simp
  | cons p ps ih =>
    obtain ⟨v, payload⟩ := p
    unfold validatePadding at h
    split at h
    · cases h
    split at h
    · cases h
    · rename_i hsmall
      exact List.forall_mem_cons.mpr ⟨by simpa using hsmall, ih _ h⟩

theorem validateEach_ok {α : Type} (check : Str → Except Err α) (table : List (String × Str))
    (h : validateEach check table = .ok ()) :
    ∀ e ∈ table, e.2 ≠ [] → ∃ r, check e.2 = .ok r := by
  induction table with
  | nil => simp
  | cons e table ih =>
    obtain ⟨name, value⟩ := e
    unfold validateEach at h
    split at h
    · rename_i hnil
      exact List.forall_mem_cons.mpr ⟨fun hne => absurd hnil hne, ih h⟩
    · split at h
      · cases h
      · rename_i r hr
        exact List.forall_mem_cons.mpr ⟨fun _ => ⟨r, hr⟩, ih h⟩

/-- The range of a header, an empty one standing for its number. -/
def HeaderRange (n : Nat) (h : Str) (r : Nat × Nat) : Prop :=
  parseAWGRange (if h = [] then itoa (n + 1) else h) 32 = .ok r

def Disjoint (earlier r : Nat × Nat) : Prop := ¬ (r.1 ≤ earlier.2 ∧ earlier.1 ≤ r.2)

theorem validateHeaders_cons (ranges : List (Nat × Nat)) (h : Str) (rest : List Str)
    (hok : validateHeaders ranges (h :: rest) = .ok ()) :
    ∃ r, HeaderRange ranges.length h r ∧ (∀ e ∈ ranges, Disjoint e r) ∧
      validateHeaders (ranges ++ [r]) rest = .ok () := by
  unfold validateHeaders at hok
  simp only at hok
  split at hok
  · cases hok
  · rename_i lo hi hr
    split at hok
    · cases hok
    · rename_i hnone
      refine ⟨(lo, hi), hr, fun e he hmeet => ?_, hok⟩
      have := List.findIdx?_eq_none_iff.mp hnone e he
      simp only [Bool.and_eq_false_imp, decide_eq_true_eq, decide_eq_false_iff_not] at this
      exact this hmeet.1 hmeet.2

theorem parseAWGRange_lt (s : Str) (bits : Nat) (r : Nat × Nat)
    (h : parseAWGRange s bits = .ok r) : r.1 < 2 ^ bits ∧ r.2 < 2 ^ bits := by
  have hone : ∀ part n, rangeBoundary part bits = .ok n → n < 2 ^ bits := fun part n hp =>
    parseUint_lt part bits n (rangeBoundary_parseUint part bits n hp)
  unfold parseAWGRange at h
  split at h
  · rename_i part hsplit
    cases hp : rangeBoundary part bits with
    | error e =>
      rw [hp] at h
      cases h
    | ok n =>
      rw [hp] at h
      cases h
      exact ⟨hone part n hp, hone part n hp⟩
  · rename_i first second hsplit
    split at h
    · cases h
    · cases h
    · rename_i lo hi hfirst hsecond
      split at h
      · cases h
      · cases h
        exact ⟨hone first _ hfirst, hone second _ hsecond⟩
  · cases h

/-- The four header ranges and their pairwise disjointness, as the validator saw them. -/
theorem validateHeaders_four (h1 h2 h3 h4 : Str)
    (h : validateHeaders [] [h1, h2, h3, h4] = .ok ()) :
    ∃ r1 r2 r3 r4, HeaderRange 0 h1 r1 ∧ HeaderRange 1 h2 r2 ∧ HeaderRange 2 h3 r3 ∧
      HeaderRange 3 h4 r4 ∧ Disjoint r1 r2 ∧ Disjoint r1 r3 ∧ Disjoint r2 r3 ∧ Disjoint r1 r4 ∧
      Disjoint r2 r4 ∧ Disjoint r3 r4 := by
  obtain ⟨r1, hr1, -, h⟩ := validateHeaders_cons _ _ _ h
  obtain ⟨r2, hr2, hd2, h⟩ := validateHeaders_cons _ _ _ h
  obtain ⟨r3, hr3, hd3, h⟩ := validateHeaders_cons _ _ _ h
  obtain ⟨r4, hr4, hd4, -⟩ := validateHeaders_cons _ _ _ h
  exact ⟨r1, r2, r3, r4, hr1, hr2, hr3, hr4, hd2 r1 (by simp), hd3 r1 (by simp), hd3 r2 (by simp),
    hd4 r1 (by simp), hd4 r2 (by simp), hd4 r3 (by simp)⟩

theorem toUInt32_toNat (n : Nat) (h : n < 2 ^ 32) : n.toUInt32.toNat = n :=
  UInt32.toNat_ofNat_of_lt' h

/-- Disjoint for the validator is disjoint for the device. -/
theorem overlap_of_disjoint (l r : Nat × Nat) (hl : l.1 < 2 ^ 32 ∧ l.2 < 2 ^ 32)
    (hr : r.1 < 2 ^ 32 ∧ r.2 < 2 ^ 32) (h : Disjoint l r) :
    UintRange.overlap ⟨l.1.toUInt32, l.2.toUInt32⟩ ⟨r.1.toUInt32, r.2.toUInt32⟩ = false := by
  rw [← Bool.not_eq_true]
  intro hover
  simp only [UintRange.overlap, Bool.and_eq_true, decide_eq_true_eq, UInt32.le_iff_toNat_le,
    toUInt32_toNat _ hl.1, toUInt32_toNat _ hl.2, toUInt32_toNat _ hr.1,
    toUInt32_toNat _ hr.2] at hover
  exact h ⟨hover.2, hover.1⟩

theorem headerRange_parses {n : Nat} {h : Str} {r : Nat × Nat} (hr : HeaderRange n h r)
    (hne : h ≠ []) : parseAWGRange h 32 = .ok r := by
  rwa [HeaderRange, if_neg hne] at hr

/-- An empty header keeps the number the device starts with. -/
theorem headerRange_default {n : Nat} {h : Str} {r : Nat × Nat} (hr : HeaderRange n h r)
    (hn : n < 4) (hnil : h = []) : r = (n + 1, n + 1) := by
  have hdefault : ∀ n < 4, parseAWGRange (itoa (n + 1)) 32 = .ok (n + 1, n + 1) := by decide +kernel
  rw [HeaderRange, if_pos hnil, hdefault n hn] at hr
  exact (Except.ok.inj hr).symm

end validated

section merge

/-- What `mergeWithDevice` asks for. -/
structure Mergeable (d : IpcSetDevice) : Prop where
  headers : anyOverlap d.headers.toList = false
  paddings : d.headerProtectionKey = zeroKey ∨ shortPadding d.paddings.toList = none

/-- After a merge the device has what was merged. -/
theorem Mergeable.merged {d : IpcSetDevice} (h : Mergeable d) (device : Device) :
    mergeWithDevice d device = ({ device with
      headers := d.headers
      paddings := d.paddings
      headerProtectionKey := d.headerProtectionKey }, none) := by
  have hshort : (if d.headerProtectionKey = zeroKey then none else shortPadding d.paddings.toList) = none := by
    rcases h.paddings with hzero | hnone
    · rw [if_pos hzero]
    · rw [hnone, ite_self]
  rw [mergeWithDevice, h.headers]
  simp only [Bool.false_eq_true, if_false, hshort]

theorem ipcFinish_ok (st : IpcState) (h : Mergeable st.ipcDev) : (ipcFinish st).2 = none := by
  rw [ipcFinish, h.merged]

/-- What the operation merges when it has read the lines of an interface. -/
def IpcSetDevice.ofInterface (i : Interface) (r1 r2 r3 r4 : Nat × Nat) : IpcSetDevice :=
  ((((((((((IpcState.start Device.new).ipcDev
    |>.withPadding .init i.initPacketJunkSize)
    |>.withPadding .response i.responsePacketJunkSize)
    |>.withPadding .cookie i.cookieReplyPacketJunkSize)
    |>.withPadding .transport i.transportPacketJunkSize)
    |>.withHeader .init i.initPacketMagicHeader r1)
    |>.withHeader .response i.responsePacketMagicHeader r2)
    |>.withHeader .cookie i.underloadPacketMagicHeader r3)
    |>.withHeader .transport i.transportPacketMagicHeader r4)
    |>.withKey i.headerProtectionKey)

def rangeOf (r : Nat × Nat) : UintRange := ⟨r.1.toUInt32, r.2.toUInt32⟩

theorem ofInterface_headers (i : Interface) (r1 r2 r3 r4 : Nat × Nat)
    (h1 : HeaderRange 0 i.initPacketMagicHeader r1)
    (h2 : HeaderRange 1 i.responsePacketMagicHeader r2)
    (h3 : HeaderRange 2 i.underloadPacketMagicHeader r3)
    (h4 : HeaderRange 3 i.transportPacketMagicHeader r4) :
    (IpcSetDevice.ofInterface i r1 r2 r3 r4).headers =
      ⟨rangeOf r1, rangeOf r2, rangeOf r3, rangeOf r4⟩ := by
  have hvalue : ∀ (n : Nat) (h : Str) (r : Nat × Nat) (u : UintRange), n < 4 → HeaderRange n h r →
      u = rangeOf (n + 1, n + 1) → (if h = [] then u else ⟨r.1.toUInt32, r.2.toUInt32⟩) = rangeOf r := by
    intro n h r u hn hr hu
    split
    · rename_i hnil
      rw [hu, headerRange_default hr hn hnil]
    · rfl
  have e1 := hvalue 0 _ r1 ⟨1, 1⟩ (by decide) h1 rfl
  have e2 := hvalue 1 _ r2 ⟨2, 2⟩ (by decide) h2 rfl
  have e3 := hvalue 2 _ r3 ⟨3, 3⟩ (by decide) h3 rfl
  have e4 := hvalue 3 _ r4 ⟨4, 4⟩ (by decide) h4 rfl
  simp only [IpcSetDevice.ofInterface, IpcSetDevice.withKey, IpcSetDevice.withHeader,
    IpcSetDevice.withPadding, Quad.set, Quad.get, IpcState.start, Device.new, e1, e2, e3, e4]

theorem padding_not_short (v : UInt16) (u : UInt32) (h : ¬ v < 12) :
    ¬ (if v > 0 then v.toNat.toUInt32 else u) < headerCipherNonceSize := by
  have hv : 12 ≤ v.toNat := by simpa [UInt16.lt_iff_toNat_lt] using h
  have hpos : v > 0 := by
    rw [gt_iff_lt, UInt16.lt_iff_toNat_lt]
    exact Nat.lt_of_lt_of_le (by decide) hv
  have hlt : v.toNat < 2 ^ 32 := Nat.lt_trans v.toNat_lt (by decide)
  rw [if_pos hpos, UInt32.lt_iff_toNat_lt, toUInt32_toNat _ hlt]
  exact Nat.not_lt.mpr hv

theorem ofInterface_mergeable (c : Config) (hv : ValidAWG c) (r1 r2 r3 r4 : Nat × Nat)
    (h1 : HeaderRange 0 c.interface.initPacketMagicHeader r1)
    (h2 : HeaderRange 1 c.interface.responsePacketMagicHeader r2)
    (h3 : HeaderRange 2 c.interface.underloadPacketMagicHeader r3)
    (h4 : HeaderRange 3 c.interface.transportPacketMagicHeader r4)
    (h12 : Disjoint r1 r2) (h13 : Disjoint r1 r3) (h23 : Disjoint r2 r3) (h14 : Disjoint r1 r4)
    (h24 : Disjoint r2 r4) (h34 : Disjoint r3 r4) :
    Mergeable (IpcSetDevice.ofInterface c.interface r1 r2 r3 r4) where
  headers := by
    have l1 := parseAWGRange_lt _ 32 r1 h1
    have l2 := parseAWGRange_lt _ 32 r2 h2
    have l3 := parseAWGRange_lt _ 32 r3 h3
    have l4 := parseAWGRange_lt _ 32 r4 h4
    rw [ofInterface_headers c.interface r1 r2 r3 r4 h1 h2 h3 h4]
    simp only [Quad.toList, anyOverlap, rangeOf, List.any_cons, List.any_nil, Bool.or_false,
      overlap_of_disjoint r1 r2 l1 l2 h12, overlap_of_disjoint r1 r3 l1 l3 h13,
      overlap_of_disjoint r1 r4 l1 l4 h14, overlap_of_disjoint r2 r3 l2 l3 h23,
      overlap_of_disjoint r2 r4 l2 l4 h24, overlap_of_disjoint r3 r4 l3 l4 h34]
  paddings := by
    cases hkey : c.interface.headerProtectionKey.isZero with
    | true => exact Or.inl (by simp [IpcSetDevice.ofInterface, IpcSetDevice.withKey, hkey]; rfl)
    | false =>
      have hpad := hv.padding
      rw [hkey] at hpad
      have hlarge := validatePadding_ok 0 _ hpad
      simp only [Interface.paddings, List.forall_mem_cons] at hlarge
      obtain ⟨p1, p2, p3, p4, -⟩ := hlarge
      refine Or.inr (List.findIdx?_eq_none_iff.mpr fun p hp => ?_)
      simp only [IpcSetDevice.ofInterface, IpcSetDevice.withKey, IpcSetDevice.withHeader,
        IpcSetDevice.withPadding, Quad.set, Quad.get, Quad.toList, List.mem_cons, List.not_mem_nil,
        or_false] at hp
      rw [decide_eq_false_iff_not]
      rcases hp with rfl | rfl | rfl | rfl
      · exact padding_not_short _ _ p1
      · exact padding_not_short _ _ p2
      · exact padding_not_short _ _ p3
      · exact padding_not_short _ _ p4

end merge

section runs
variable {env : Env}

theorem packet_label (k : PacketKey) : ∃ i, (k.name, DeviceKey.ipacket i) ∈ deviceKeys := by
  cases k
  · exact ⟨0, by decide⟩
  · exact ⟨1, by decide⟩
  · exact ⟨2, by decide⟩
  · exact ⟨3, by decide⟩
  · exact ⟨4, by decide⟩

theorem packet_valid (c : Config) (hv : ValidAWG c) (k : PacketKey)
    (hne : c.interface.packet k ≠ []) : validateCPS (c.interface.packet k) = .ok () :=
  ((validatePackets_iff _).mp hv.packets _ (packet_mem_entries c.interface k hne)).2

/-- The lines of a validated interface are all accepted, and what they leave can be merged. -/
theorem triple_interface (c : Config) (hv : ValidAWG c)
    (hbind : ∀ port, env.bindUpdate port = true) :
    ∃ d, Mergeable d ∧ Triple env (DevState (IpcState.start Device.new).ipcDev)
      c.interface.uapiGroups.flatten (DevState d) := by
  obtain ⟨r1, r2, r3, r4, h1, h2, h3, h4, h12, h13, h23, h14, h24, h34⟩ :=
    validateHeaders_four _ _ _ _ hv.headers
  have htimers := validateEach_ok _ _ hv.timers
  simp only [Interface.timers, List.forall_mem_cons] at htimers
  obtain ⟨t1, t2, t3, t4, t5, t6, -⟩ := htimers
  refine ⟨_, ofInterface_mergeable c hv r1 r2 r3 r4 h1 h2 h3 h4 h12 h13 h23 h14 h24 h34, ?_⟩
  simp only [Interface.uapiGroups, List.flatten_cons, List.flatten_nil]
  refine (triple_privateKey _ _).append ((triple_listenPort _ hbind _).append ?_)
  refine (triple_junk _ _ .jc _ (by decide)).append ((triple_junk _ _ .jmin _ (by decide)).append
    ((triple_junk _ _ .jmax _ (by decide)).append ?_))
  refine (triple_padding _ _ .init _ (by decide)).append
    ((triple_padding _ _ .response _ (by decide)).append
      ((triple_padding _ _ .cookie _ (by decide)).append
        ((triple_padding _ _ .transport _ (by decide)).append ?_)))
  refine (triple_header _ _ .init _ r1 (by decide) (headerRange_parses h1)).append
    ((triple_header _ _ .response _ r2 (by decide) (headerRange_parses h2)).append
      ((triple_header _ _ .cookie _ r3 (by decide) (headerRange_parses h3)).append
        ((triple_header _ _ .transport _ r4 (by decide) (headerRange_parses h4)).append ?_)))
  refine Triple.append (Triple.flatMap PacketKey.all _ fun k _ => ?_)
    ((triple_headerProtectionKey _ _).append ?_)
  · obtain ⟨i, hi⟩ := packet_label k
    exact triple_packet _ _ i _ hi (packet_valid c hv k)
  refine (triple_range _ _ .contentPaddingAddition _ (by decide) t1).append
    ((triple_range _ _ .rekeyAfterTime _ (by decide) t2).append
      ((triple_range _ _ .rekeyTimeout _ (by decide) t3).append
        ((triple_range _ _ .rejectAfterTime _ (by decide) t4).append
          ((triple_range _ _ .keepaliveTimeout _ (by decide) t5).append
            ((triple_range _ _ .maxHandshakeAttempts _ (by decide) t6).append ?_)))))
  exact (triple_flag _ _ .randomTrailers _ (by decide)).append
    ((triple_flag _ _ .disableCookies _ (by decide)).append Triple.nil)

/-- The endpoint of a peer resolves to the text of an address. -/
def Resolves (r : Resolver) (p : Peer) : Prop :=
  p.endpoint.isEmpty = false →
    ∃ t a, resolveHostname r p.endpoint.host = .ok t ∧ parseAddr t = some a

/-- The texts `resolveHostname` returns; a zone is a number. -/
inductive Literal : Str → Prop where
  | inet4 (addr : Str) (h : addr.length = 4) : Literal (ipString addr)
  | inet6 (addr : Str) (scope : UInt32) (h : addr.length = 16) : Literal (inet6Text addr scope)

/-- The socket layer takes the endpoints `ToUAPI` writes, if their hosts are addresses. -/
def TakesEndpoints (env : Env) : Prop :=
  ∀ t port, Literal t → (parseAddr t).isSome = true → (env.parseEndpoint (Endpoint.string ⟨t, port⟩)).isSome = true

theorem pickAddress_literal (infos : List AddrInfo) (ipv6 t : Str)
    (hipv6 : ipv6 = [] ∨ Literal ipv6) (h : pickAddress infos ipv6 = .ok t) : Literal t := by
  induction infos generalizing ipv6 with
  | nil =>
    unfold pickAddress at h
    split at h
    · rename_i hne
      cases h
      exact hipv6.resolve_left hne
    · cases h
  | cons info infos ih =>
    cases info with
    | inet4 addr =>
      cases h
      exact .inet4 _ addr.2
    | inet6 addr scope =>
      refine ih _ ?_ h
      split
      · exact hipv6
      · exact Or.inr (.inet6 _ scope addr.2)
    | other => exact ih _ hipv6 h

theorem resolveLoop_literal (r : Resolver) (name t : Str) (left attempt : Nat)
    (h : resolveLoop r name left attempt = .ok t) : Literal t := by
  induction left generalizing attempt with
  | zero => cases h
  | succ left ih =>
    unfold resolveLoop at h
    split at h
    · rename_i u hu
      cases h
      unfold resolveHostnameOnce at hu
      split at hu
      · cases hu
      split at hu
      · cases hu
      · exact pickAddress_literal _ [] t (Or.inl rfl) hu
    · split at h
      · cases h
      split at h
      · exact ih _ h
      · cases h

/-- The resolved endpoint of a peer. -/
theorem resolve_endpoint (r : Resolver) (p : Peer) (h : Resolves r p) :
    ∃ e, p.resolve (resolveHostname r) = .ok e ∧
      ∀ x ∈ e, Literal x.host ∧ (parseAddr x.host).isSome = true := by
  cases hempty : p.endpoint.isEmpty with
  | true => exact ⟨none, by simp [Peer.resolve, hempty], by simp⟩
  | false =>
    obtain ⟨t, a, ht, ha⟩ := h hempty
    refine ⟨some ⟨t, p.endpoint.port⟩, by simp [Peer.resolve, hempty, ht], ?_⟩
    simp only [Option.mem_def, Option.some.injEq]
    rintro x rfl
    exact ⟨resolveLoop_literal r _ t _ _ ht, Option.isSome_of_eq_some ha⟩

theorem uapiKeepalive_range (p : Peer)
    (h : p.persistentKeepalive = [] ∨ ∃ r, parseAWGRange p.persistentKeepalive 16 = .ok r) :
    ∃ r, parseAWGRange p.uapiKeepalive 16 = .ok r := by
  unfold Peer.uapiKeepalive
  split
  · exact ⟨(0, 0), by decide +kernel⟩
  · rename_i hne
    exact h.resolve_left fun hnil => hne (Or.inl hnil)

theorem triple_peerGroups (d : IpcSetDevice) (n : Nat) (hn : n < maxPeers) (p : Peer)
    (hp : p.Printable) (e : Option Endpoint)
    (he : ∀ x ∈ e, (env.parseEndpoint x.string).isSome = true) :
    Triple env (PeersState d n) (p.uapiGroups e).flatten (PeersState d (n + 1)) := by
  obtain ⟨r, hr⟩ := uapiKeepalive_range p hp.keepalive
  have hendpoint : Triple env (PeerState d (n + 1))
      (e.toList.map fun e => ("endpoint", e.string)) (PeerState d (n + 1)) := by
    cases e with
    | none => exact Triple.nil
    | some x => exact triple_endpoint d _ _ (he x rfl)
  have hdone : Triple env (PeerState d (n + 1)) [] (PeersState d (n + 1)) :=
    fun st hst => ⟨st, rfl, hst.toPeersState⟩
  simp only [Peer.uapiGroups, List.flatten_cons, List.flatten_nil]
  refine (triple_publicKey d n _ hn).append ((triple_presharedKey d _ _).append
    (hendpoint.append ((triple_keepalive d _ _ r hr).append (Triple.append ?_ hdone))))
  exact Triple.ite (fun _ => (triple_replaceAllowedIPs d _).cons (triple_allowedIPs d _ _ hp.allowedIPs))
    fun _ _ hst => hst

theorem triple_peers (r : Resolver) (henv : TakesEndpoints env) (d : IpcSetDevice)
    (ps : List Peer) (hp : ∀ p ∈ ps, p.Printable) (hr : ∀ p ∈ ps, Resolves r p) (n : Nat)
    (hn : n + ps.length ≤ maxPeers) :
    ∃ es, peersUapi (resolveHostname r) ps = .ok es ∧
      Triple env (PeersState d n) es (PeersState d (n + ps.length)) := by
  induction ps generalizing n with
  | nil => exact ⟨[], rfl, Triple.nil⟩
  | cons p ps ih =>
    rw [List.length_cons] at hn ⊢
    obtain ⟨e, he, hread⟩ := resolve_endpoint r p (hr p (by simp))
    obtain ⟨es, hes, hrest⟩ := ih (fun q hq => hp q (by simp [hq])) (fun q hq => hr q (by simp [hq]))
      (n + 1) (by omega)
    refine ⟨(p.uapiGroups e).flatten ++ es, by simp only [peersUapi, he, hes]; rfl, ?_⟩
    rw [show n + (ps.length + 1) = n + 1 + ps.length by omega]
    exact (triple_peerGroups d n (by omega) p (hp p (by simp)) e fun x hx =>
      henv x.host x.port (hread x hx).1 (hread x hx).2).append hrest

/-- All lines of a validated configuration are accepted, and what they leave can be merged. -/
theorem triple_config (r : Resolver) (henv : TakesEndpoints env)
    (hbind : ∀ port, env.bindUpdate port = true) (c : Config) (hv : ValidAWG c)
    (hp : ∀ p ∈ c.peers, p.Printable) (hr : ∀ p ∈ c.peers, Resolves r p)
    (hn : c.peers.length ≤ maxPeers) :
    ∃ es, peersUapi (resolveHostname r) c.peers = .ok es ∧
      Triple env (DevState (IpcState.start Device.new).ipcDev) (c.uapiEntries es)
        fun st => Mergeable st.ipcDev := by
  obtain ⟨d, hd, hinterface⟩ := triple_interface c hv hbind
  obtain ⟨es, hes, hpeers⟩ := triple_peers r henv d c.peers hp hr 0 (by omega)
  have hreplace : Triple env (DevState d)
      (if c.peers.length > 0 then [("replace_peers", ascii "true")] else []) (PeersState d 0) := by
    have hempty : ∀ st, DevState d st → PeersState d 0 st := fun st hst =>
      ⟨hst.ipcDev, by rw [hst.peers]; rfl⟩
    refine Triple.ite (fun _ st hst => ?_) fun _ => hempty
    obtain ⟨st', hrun, hst'⟩ := triple_replacePeers d st hst
    exact ⟨st', hrun, hempty st' hst'⟩
  refine ⟨es, hes, fun st hst => ?_⟩
  obtain ⟨st', hrun, hst'⟩ := hinterface.append (hreplace.append hpeers) st hst
  exact ⟨st', hrun, (congrArg Mergeable hst'.ipcDev).mpr hd⟩

end runs

end SmartAwg.Awg
