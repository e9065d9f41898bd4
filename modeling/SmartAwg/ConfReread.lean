import SmartAwg.ConfRoundTrip

/-! The written lines, applied one group after another, rebuild the profile. -/
namespace SmartAwg.Conf
open Go

theorem forEach_singleton {ε α σ : Type} (step : σ → α → Outcome ε σ) (st : σ) (a : α) :
    forEach step st [a] = step st a := by
  rw [forEach_cons]
  cases step st a <;> rfl

theorem sizeKey_set_get (i : Interface) (k : SizeKey) : k.set i (k.get i) = i := by
  cases k <;> rfl

theorem sizeKey_get_set (i : Interface) (v : UInt16) (k k' : SizeKey) (h : k ≠ k') :
    k'.get (k.set i v) = k'.get i := by
  cases k <;> cases k' <;> first | rfl | exact absurd rfl h

theorem textKey_set_get (i : Interface) (k : TextKey) : k.set i (k.get i) = i := by
  cases k <;> rfl

theorem textKey_get_set (i : Interface) (v : Str) (k k' : TextKey) (h : k ≠ k') :
    k'.get (k.set i v) = k'.get i := by
  cases k <;> cases k' <;> first | rfl | exact absurd rfl h

/-- The junk and padding sizes: a size of zero is not written, and is the default. -/
theorem forEach_sizes (src : Interface) (ks : List SizeKey) (hnd : ks.Nodup) (i : Interface)
    (h0 : ∀ k ∈ ks, k.get i = 0) :
    forEach Interface.applyEntry i (ks.flatMap fun k => numEntry (.size k) (k.get src)) =
      .ok (ks.foldl (fun j k => k.set j (k.get src)) i) := by
  induction ks generalizing i with
  | nil => rfl
  | cons k ks ih =>
    obtain ⟨hk, hnd⟩ := List.nodup_cons.mp hnd
    have hone : forEach Interface.applyEntry i (numEntry (.size k) (k.get src)) =
        .ok (k.set i (k.get src)) := by
      unfold numEntry
      split
      · rw [forEach_singleton, Interface.applyEntry, Interface.apply, parseUint16_itoa]
        rfl
      · rename_i hz
        have hzero : k.get src = 0 := by
          have : ¬ 0 < (k.get src).toNat := hz
          exact UInt16.toNat_inj.mp (by simpa using this)
        rw [forEach_nil, hzero, ← h0 k (by simp), sizeKey_set_get]
    rw [List.flatMap_cons, forEach_append, hone, Outcome.ok_bind, List.foldl_cons]
    apply ih hnd
    intro k' hk'
    rw [sizeKey_get_set _ _ k k' (by rintro rfl; exact hk hk'), h0 k' (by simp [hk'])]

/-- The text fields: an empty one is not written, and is the default. -/
theorem forEach_texts (src : Interface) (ks : List TextKey) (hnd : ks.Nodup) (i : Interface)
    (h0 : ∀ k ∈ ks, k.get i = []) :
    forEach Interface.applyEntry i (ks.flatMap fun k => textEntry (.text k) (k.get src)) =
      .ok (ks.foldl (fun j k => k.set j (k.get src)) i) := by
  induction ks generalizing i with
  | nil => rfl
  | cons k ks ih =>
    obtain ⟨hk, hnd⟩ := List.nodup_cons.mp hnd
    have hone : forEach Interface.applyEntry i (textEntry (.text k) (k.get src)) =
        .ok (k.set i (k.get src)) := by
      unfold textEntry
      split
      · rw [forEach_singleton]
        rfl
      · rename_i hz
        have hnil : k.get src = [] := List.length_eq_zero_iff.mp (by omega)
        rw [forEach_nil, hnil, ← h0 k (by simp), textKey_set_get]
    rw [List.flatMap_cons, forEach_append, hone, Outcome.ok_bind, List.foldl_cons]
    apply ih hnd
    intro k' hk'
    rw [textKey_get_set _ _ k k' (by rintro rfl; exact hk hk'), h0 k' (by simp [hk'])]

section folds
variable (src i : Interface)

theorem foldl_sizes : SizeKey.all.foldl (fun j k => k.set j (k.get src)) i =
    { i with
      junkPacketCount := src.junkPacketCount
      junkPacketMinSize := src.junkPacketMinSize
      junkPacketMaxSize := src.junkPacketMaxSize
      initPacketJunkSize := src.initPacketJunkSize
      responsePacketJunkSize := src.responsePacketJunkSize
      cookieReplyPacketJunkSize := src.cookieReplyPacketJunkSize
      transportPacketJunkSize := src.transportPacketJunkSize } := by
  simp only [SizeKey.all, List.foldl_cons, List.foldl_nil, SizeKey.set, SizeKey.get]

theorem foldl_headers : TextKey.headers.foldl (fun j k => k.set j (k.get src)) i =
    { i with
      initPacketMagicHeader := src.initPacketMagicHeader
      responsePacketMagicHeader := src.responsePacketMagicHeader
      underloadPacketMagicHeader := src.underloadPacketMagicHeader
      transportPacketMagicHeader := src.transportPacketMagicHeader } := by
  simp only [TextKey.headers, List.foldl_cons, List.foldl_nil, TextKey.set, TextKey.get]

theorem foldl_extras : TextKey.extras.foldl (fun j k => k.set j (k.get src)) i =
    { i with
      contentPaddingAddition := src.contentPaddingAddition
      rekeyAfterTime := src.rekeyAfterTime
      rekeyTimeout := src.rekeyTimeout
      rejectAfterTime := src.rejectAfterTime
      keepaliveTimeout := src.keepaliveTimeout
      maxHandshakeAttempts := src.maxHandshakeAttempts
      randomTrailers := src.randomTrailers
      disableCookies := src.disableCookies } := by
  simp only [TextKey.extras, List.foldl_cons, List.foldl_nil, TextKey.set, TextKey.get]

theorem foldl_scripts : TextKey.scripts.foldl (fun j k => k.set j (k.get src)) i =
    { i with
      preUp := src.preUp
      postUp := src.postUp
      preDown := src.preDown
      postDown := src.postDown } := by
  simp only [TextKey.scripts, List.foldl_cons, List.foldl_nil, TextKey.set, TextKey.get]

end folds

theorem forEach_packets (src : Interface) (ks : List PacketKey) (i : Interface) :
    forEach Interface.applyEntry i (ks.flatMap fun k => textEntry (.packet k) (src.packet k)) =
      .ok { i with ipackets := ks.foldl src.addPacket i.ipackets } := by
  induction ks generalizing i with
  | nil => rfl
  | cons k ks ih =>
    have hone : forEach Interface.applyEntry i (textEntry (.packet k) (src.packet k)) =
        .ok { i with ipackets := src.addPacket i.ipackets k } := by
      unfold textEntry Interface.addPacket
      by_cases hnil : src.packet k = []
      · simp [hnil]
      · have hlen : (src.packet k).length ≠ 0 := by simpa using hnil
        rw [if_pos (Nat.pos_of_ne_zero hlen), forEach_singleton, if_neg hnil, Interface.applyEntry]
        simp only [Interface.apply, hlen, if_false]
    rw [List.flatMap_cons, forEach_append, hone, Outcome.ok_bind, ih, List.foldl_cons]

theorem foldl_addDNS (i : Interface) (ips search : List Str) (hips : ∀ ip ∈ ips, ip.length = 16)
    (hsearch : ∀ d ∈ search, parseIP d = none) :
    (ips.map ipString ++ search).foldl Interface.addDNS i =
      { i with dns := i.dns ++ ips, dnsSearch := i.dnsSearch ++ search } := by
  induction ips generalizing i with
  | nil =>
    rw [List.map_nil, List.nil_append, List.append_nil]
    induction search generalizing i with
    | nil => simp
    | cons d search ih =>
      rw [List.foldl_cons, Interface.addDNS, hsearch d (by simp)]
      simp only
      rw [ih fun d' hd' => hsearch d' (by simp [hd'])]
      simp
  | cons ip ips ih =>
    rw [List.map_cons, List.cons_append, List.foldl_cons, Interface.addDNS,
      parseIP_ipString_sixteen ip (hips ip (by simp))]
    simp only
    rw [ih _ fun ip' hip' => hips ip' (by simp [hip'])]
    simp

/-- The interface the parser starts from. -/
def Interface.start : Interface := { Interface.zero with mtu := 1420 }

theorem forEach_interface_entries (src : Interface) (h : src.Printable) :
    forEach Interface.applyEntry Interface.start src.entries = .ok src.reread := by
  have hport : ∀ i : Interface, i.listenPort = 0 →
      forEach Interface.applyEntry i (numEntry .listenPort src.listenPort) =
        .ok { i with listenPort := src.listenPort } := by
    intro i hi
    unfold numEntry
    split
    · rw [forEach_singleton, Interface.applyEntry, Interface.apply, parsePort_itoa]
      rfl
    · rename_i hz
      have hzero : src.listenPort = 0 := by
        have : ¬ 0 < src.listenPort.toNat := hz
        exact UInt16.toNat_inj.mp (by simpa using this)
      rw [forEach_nil, hzero, ← hi]
  have hmtu : ∀ i : Interface, forEach Interface.applyEntry i (numEntry .mtu src.mtu) =
      .ok { i with mtu := src.mtu } := by
    intro i
    have hpos : src.mtu > 0 := by
      have : 0 < src.mtu.toNat := by have := h.mtu; omega
      exact this
    rw [numEntry, if_pos hpos, forEach_singleton, Interface.applyEntry, Interface.apply,
      parseMTU_itoa _ h.mtu]
    rfl
  have hkey : ∀ i : Interface, i.headerProtectionKey = Key.zero →
      forEach Interface.applyEntry i (keyEntry .headerProtectionKey src.headerProtectionKey) =
        .ok { i with headerProtectionKey := src.headerProtectionKey } := by
    intro i hi
    unfold keyEntry
    split
    · rw [forEach_singleton, Interface.applyEntry]
      simp only [Interface.apply, parseKeyBase64_string]
    · rename_i hz
      have hzero : src.headerProtectionKey = Key.zero := by simpa [Key.isZero] using hz
      rw [forEach_nil, hzero, ← hi]
  have haddresses : ∀ i : Interface, i.addresses = [] →
      forEach Interface.applyEntry i (listEntry .address (src.addresses.map IPCidr.string)) =
        .ok { i with addresses := src.addresses } := by
    intro i hi
    unfold listEntry
    split
    · rename_i hlen
      rw [forEach_singleton, Interface.applyEntry]
      simp only [Interface.apply]
      rw [splitList_join _ (List.ne_nil_of_length_pos hlen) (ipCidr_listPart _ h.addresses),
        Outcome.ofExcept_ok, Outcome.ok_bind, forEach_appendIPCidr _ _ h.addresses, hi]
      rfl
    · rename_i hz
      have hnil : src.addresses = [] := by simpa using hz
      rw [forEach_nil, hnil, ← hi]
  have hdns : ∀ i : Interface, i.dns = [] → i.dnsSearch = [] →
      forEach Interface.applyEntry i (listEntry .dns (src.dns.map ipString ++ src.dnsSearch)) =
        .ok { i with dns := src.dns, dnsSearch := src.dnsSearch } := by
    intro i hi hi'
    unfold listEntry
    split
    · rename_i hlen
      rw [forEach_singleton, Interface.applyEntry]
      simp only [Interface.apply]
      rw [splitList_join _ (List.ne_nil_of_length_pos hlen) (dns_listPart src h),
        Outcome.ofExcept_ok, Outcome.ok_bind,
        foldl_addDNS i _ _ h.dns fun d hd => (h.dnsSearch d hd).2, hi, hi']
      rfl
    · rename_i hz
      simp only [List.length_append, List.length_map, gt_iff_lt, Nat.not_lt, Nat.le_zero,
        Nat.add_eq_zero_iff, List.length_eq_zero_iff] at hz
      rw [forEach_nil, hz.1, hz.2]
      nth_rewrite 1 [← hi, ← hi']
      rfl
  have htable : ∀ i : Interface, i.tableOff = false →
      forEach Interface.applyEntry i (if src.tableOff then [(.table, ascii "off")] else []) =
        .ok { i with tableOff := src.tableOff } := by
    intro i hi
    split
    · rename_i ht
      rw [forEach_singleton, ht]
      rfl
    · rename_i ht
      have hf : src.tableOff = false := by simpa using ht
      rw [forEach_nil, hf, ← hi]
  simp only [Interface.entries, Interface.entryGroups, List.flatten_cons, List.flatten_nil,
    List.append_nil, forEach_append, forEach_singleton]
  have hprivate : Interface.applyEntry Interface.start (.privateKey, src.privateKey.string) =
      .ok { Interface.start with privateKey := src.privateKey } := by
    simp only [Interface.applyEntry, Interface.apply, parseKeyBase64_string, Outcome.ofExcept_ok,
      Outcome.ok_bind]
  rw [hprivate, Outcome.ok_bind, hport _ rfl, Outcome.ok_bind,
    forEach_sizes src SizeKey.all (by decide) _ (fun k _ => by cases k <;> rfl), Outcome.ok_bind,
    foldl_sizes, forEach_texts src TextKey.headers (by decide) _ (fun k _ => by cases k <;> rfl),
    Outcome.ok_bind, foldl_headers, forEach_packets, Outcome.ok_bind, hkey _ rfl, Outcome.ok_bind,
    forEach_texts src TextKey.extras (by decide) _
      (fun k hk => by cases k <;> first | rfl | exact absurd hk (by decide)),
    Outcome.ok_bind, foldl_extras, haddresses _ rfl, Outcome.ok_bind, hdns _ rfl rfl,
    Outcome.ok_bind, hmtu, Outcome.ok_bind,
    forEach_texts src TextKey.scripts (by decide) _
      (fun k hk => by cases k <;> first | rfl | exact absurd hk (by decide)),
    Outcome.ok_bind, foldl_scripts, htable _ rfl]
  rfl

theorem forEach_peer_entries (src : Peer) (h : src.Printable) (hr : src.EndpointReads) :
    forEach Peer.applyEntry Peer.zero src.entries = .ok src.reread := by
  have hpublic : Peer.applyEntry Peer.zero (.publicKey, src.publicKey.string) =
      .ok { Peer.zero with publicKey := src.publicKey } := by
    simp only [Peer.applyEntry, Peer.apply, parseKeyBase64_string, Outcome.ofExcept_ok,
      Outcome.ok_bind]
  have hpreshared : ∀ p : Peer, p.presharedKey = Key.zero →
      forEach Peer.applyEntry p (keyEntry .presharedKey src.presharedKey) =
        .ok { p with presharedKey := src.presharedKey } := by
    intro p hp
    unfold keyEntry
    split
    · rw [forEach_singleton, Peer.applyEntry]
      simp only [Peer.apply, parseKeyBase64_string, Outcome.ofExcept_ok, Outcome.ok_bind]
    · rename_i hz
      have hzero : src.presharedKey = Key.zero := by simpa [Key.isZero] using hz
      rw [forEach_nil, hzero, ← hp]
  have hallowed : ∀ p : Peer, p.allowedIPs = [] →
      forEach Peer.applyEntry p (listEntry .allowedIPs (src.allowedIPs.map IPCidr.string)) =
        .ok { p with allowedIPs := src.allowedIPs } := by
    intro p hp
    unfold listEntry
    split
    · rename_i hlen
      rw [forEach_singleton, Peer.applyEntry]
      simp only [Peer.apply]
      rw [splitList_join _ (List.ne_nil_of_length_pos hlen) (ipCidr_listPart _ h.allowedIPs),
        Outcome.ofExcept_ok, Outcome.ok_bind, forEach_appendIPCidr _ _ h.allowedIPs, hp]
      rfl
    · rename_i hz
      have hnil : src.allowedIPs = [] := by simpa using hz
      rw [forEach_nil, hnil, ← hp]
  have hendpoint : ∀ p : Peer, p.endpoint = Endpoint.empty →
      forEach Peer.applyEntry p
        (if !src.endpoint.isEmpty then [(.endpoint, src.endpoint.string)] else []) =
        .ok { p with endpoint := src.reread.endpoint } := by
    intro p hp
    by_cases hnil : src.endpoint.host = []
    · simp [Endpoint.isEmpty, hnil, Peer.reread, ← hp]
    · have hparse := hr.resolve_left hnil
      rw [if_pos (by simp [Endpoint.isEmpty, hnil]), forEach_singleton, Peer.applyEntry]
      simp only [Peer.apply, hparse, Outcome.ok_bind, Peer.reread, hnil, if_false]
  have hkeepalive : ∀ p : Peer, p.persistentKeepalive = [] →
      forEach Peer.applyEntry p
        (if src.persistentKeepalive.length > 0 ∧ src.persistentKeepalive ≠ ascii "0" ∧
            src.persistentKeepalive ≠ ascii "off" then
          [(.persistentKeepalive, src.persistentKeepalive)] else []) =
        .ok { p with persistentKeepalive := src.reread.persistentKeepalive } := by
    intro p hp
    by_cases hdrop : src.persistentKeepalive = ascii "0" ∨ src.persistentKeepalive = ascii "off"
    · rw [if_neg (by rcases hdrop with h | h <;> simp [h]), forEach_nil]
      simp only [Peer.reread, hdrop, if_true]
      rw [← hp]
    · obtain ⟨h0, hoff⟩ := not_or.mp hdrop
      simp only [Peer.reread, hdrop, if_false]
      rcases h.keepalive with hnil | ⟨r, hr⟩
      · rw [if_neg (by simp [hnil]), forEach_nil, hnil, ← hp]
      · obtain ⟨b, t, hbt, -⟩ := (parseAWGRange_bytes _ _ r hr).1
        rw [if_pos ⟨by simp [hbt], h0, hoff⟩, forEach_singleton, Peer.applyEntry]
        simp only [Peer.apply, parsePersistentKeepalive_range _ r hr, Outcome.ofExcept_ok,
          Outcome.ok_bind]
  simp only [Peer.entries, Peer.entryGroups, List.flatten_cons, List.flatten_nil, List.append_nil,
    forEach_append, forEach_singleton]
  rw [hpublic, Outcome.ok_bind, hpreshared _ rfl, Outcome.ok_bind, hallowed _ rfl, Outcome.ok_bind,
    hendpoint _ rfl, Outcome.ok_bind, hkeepalive _ rfl]
  rfl

def peerLines (p : Peer) : List Str :=
  [] :: ascii "[Peer]" :: p.entries.map fun (k, v) => entryText k.label v

/-- The peer sections append the peers in order. -/
theorem parseLines_peers (ps : List Peer) (h : ∀ p ∈ ps, p.Printable)
    (hr : ∀ p ∈ ps, p.EndpointReads) (st : ParserState) :
    ∃ st', parseLines st (ps.flatMap peerLines) = .ok st' ∧
      st'.addPeer = { st.addPeer with peers := st.addPeer.peers ++ ps.map Peer.reread } ∧
      st'.sawPrivateKey = st.sawPrivateKey := by
  induction ps generalizing st with
  | nil => exact ⟨st, rfl, by simp [ParserState.addPeer], rfl⟩
  | cons p ps ih =>
    have hone : parseLines st (peerLines p) =
        .ok ⟨.inPeerSection, st.addPeer, st.sawPrivateKey, some p.reread⟩ := by
      rw [parseLines, peerLines, forEach_cons, parseLine_blank, Outcome.ok_bind, forEach_cons,
        parseLine_peer_header, Outcome.ok_bind, ← parseLines,
        parseLines_peer _ (peer_entries_good p (h p (by simp))) _ Peer.zero rfl rfl,
        forEach_peer_entries p (h p (by simp)) (hr p (by simp))]
      rfl
    obtain ⟨st', hst', hadd, hsaw⟩ := ih (fun q hq => h q (by simp [hq]))
      (fun q hq => hr q (by simp [hq])) ⟨.inPeerSection, st.addPeer, st.sawPrivateKey, some p.reread⟩
    refine ⟨st', ?_, ?_, hsaw⟩
    · rw [List.flatMap_cons, parseLines, forEach_append, ← parseLines, hone, Outcome.ok_bind]
      exact hst'
    · rw [hadd]
      simp [ParserState.addPeer]

theorem entries_saw_privateKey (i : Interface) :
    (i.entries.any fun e => e.1 == .privateKey) = true := by
  simp [Interface.entries, Interface.entryGroups]

theorem wgQuickLines_no_newline (c : Config) (hi : c.interface.Printable)
    (hp : ∀ p ∈ c.peers, p.Printable) : ∀ l ∈ wgQuickLines c, 0x0A ∉ l := by
  have hentry : ∀ (label : String) (v : Str), IsWord (ascii label) → GoodEntry ((), v) →
      0x0A ∉ entryText label v := by
    intro label v hword hgood
    have := hword.not_mem 0x0A (by simp)
    simp [entryText, this, hgood.1.2.1]
  intro l hl
  rw [wgQuickLines, List.cons_append, List.mem_cons, List.mem_append, List.mem_flatMap] at hl
  rcases hl with rfl | hl | ⟨p, hpmem, hl⟩
  · decide
  · obtain ⟨⟨k, v⟩, he, rfl⟩ := List.mem_map.mp hl
    exact hentry _ _ (interfaceKey_label k).1 (interface_entries_good _ hi (k, v) he)
  · rw [List.mem_cons, List.mem_cons] at hl
    rcases hl with rfl | rfl | hl
    · simp
    · decide
    · obtain ⟨⟨k, v⟩, he, rfl⟩ := List.mem_map.mp hl
      exact hentry _ _ (peerKey_label k).1 (peer_entries_good p (hp p hpmem) (k, v) he)

theorem packetKey_name_injective (k k' : PacketKey) (h : ascii k.name = ascii k'.name) :
    k = k' := by
  cases k <;> cases k' <;> first | rfl | exact absurd h (by decide +kernel)

section packets
variable (src : Interface)

theorem lookup_addPacket_ne (m : StringMap) (k : PacketKey) (key : Str) (h : ascii k.name ≠ key) :
    (src.addPacket m k).lookup key = m.lookup key := by
  unfold Interface.addPacket
  split
  · rfl
  · exact AList.lookup_insert_ne (Ne.symm h)

theorem lookup_foldl_addPacket_ne (ks : List PacketKey) (m : StringMap) (key : Str)
    (h : ∀ k ∈ ks, ascii k.name ≠ key) : (ks.foldl src.addPacket m).lookup key = m.lookup key := by
  induction ks generalizing m with
  | nil => rfl
  | cons k ks ih =>
    rw [List.foldl_cons, ih _ fun k' hk' => h k' (by simp [hk']),
      lookup_addPacket_ne src m k key (h k (by simp))]

theorem lookup_foldl_addPacket (ks : List PacketKey) (hnd : ks.Nodup) (k : PacketKey) (hk : k ∈ ks)
    (m : StringMap) (hm : m.lookup (ascii k.name) = none) :
    (ks.foldl src.addPacket m).lookup (ascii k.name) =
      if src.packet k = [] then none else some (src.packet k) := by
  induction ks generalizing m with
  | nil => cases hk
  | cons k' ks ih =>
    obtain ⟨hk', hnd⟩ := List.nodup_cons.mp hnd
    rw [List.foldl_cons]
    rcases List.mem_cons.mp hk with rfl | hk
    · rw [lookup_foldl_addPacket_ne]
      · unfold Interface.addPacket
        split
        · exact hm
        · exact AList.lookup_insert m
      · intro k'' hk'' heq
        rw [packetKey_name_injective _ _ heq] at hk''
        exact hk' hk''
    · refine ih hnd hk _ ?_
      rw [lookup_addPacket_ne src m k', hm]
      intro heq
      rw [packetKey_name_injective _ _ heq] at hk'
      exact hk' hk

/-- Only nonempty descriptions are in the map that was read back. -/
theorem mem_foldl_addPacket (ks : List PacketKey) (m : StringMap)
    (hm : ∀ e ∈ m.entries, ∃ k : PacketKey, e.1 = ascii k.name ∧ e.2 = src.packet k ∧ e.2 ≠ []) :
    ∀ e ∈ (ks.foldl src.addPacket m).entries,
      ∃ k : PacketKey, e.1 = ascii k.name ∧ e.2 = src.packet k ∧ e.2 ≠ [] := by
  induction ks generalizing m with
  | nil => exact hm
  | cons k ks ih =>
    rw [List.foldl_cons]
    apply ih
    unfold Interface.addPacket
    split
    · exact hm
    · rename_i hne
      intro e he
      rw [AList.entries_insert, List.mem_cons] at he
      rcases he with rfl | he
      · exact ⟨k, rfl, rfl, hne⟩
      · exact hm e ((List.kerase_sublist _ _).subset he)

end packets

theorem packetKey_mem_all (k : PacketKey) : k ∈ PacketKey.all := by
  cases k <;> decide

theorem reread_lookup (i : Interface) (k : PacketKey) :
    i.reread.ipackets.lookup (ascii k.name) =
      if i.packet k = [] then none else some (i.packet k) :=
  lookup_foldl_addPacket i PacketKey.all (by decide) k (packetKey_mem_all k) ∅ (AList.lookup_empty _)

theorem reread_packet (i : Interface) (k : PacketKey) : i.reread.packet k = i.packet k := by
  rw [Interface.packet, reread_lookup]
  split
  · rename_i h
    rw [h]
    rfl
  · rfl

theorem packet_mem_entries (i : Interface) (k : PacketKey) (h : i.packet k ≠ []) :
    (⟨ascii k.name, i.packet k⟩ : Sigma fun _ : Str => Str) ∈ i.ipackets.entries := by
  apply AList.mem_lookup_iff.mp
  unfold Interface.packet at h ⊢
  cases hl : i.ipackets.lookup (ascii k.name) with
  | none => simp [hl] at h
  | some v => simp

theorem validAWG_reread (c : Config) (h : ValidAWG c) : ValidAWG c.reread where
  jmin := h.jmin
  jmax := h.jmax
  padding := h.padding
  headers := h.headers
  timers := h.timers
  switches := h.switches
  keepalives := by
    have hall := (validateKeepalives_iff c.peers).mp h.keepalives
    rw [validateKeepalives_iff]
    intro p hp
    obtain ⟨q, hq, rfl⟩ := List.mem_map.mp hp
    simp only [Peer.reread]
    split
    · exact Or.inl rfl
    · exact hall q hq
  packets := by
    have hall := (validatePackets_iff _).mp h.packets
    rw [validatePackets_iff]
    intro e he
    obtain ⟨k, hkey, hval, hne⟩ := mem_foldl_addPacket c.interface PacketKey.all ∅ (by simp) e he
    rw [hval] at hne
    have := hall _ (packet_mem_entries c.interface k hne)
    rw [hkey, hval]
    exact this

theorem parseLines_interface_section (name : Str) (i : Interface) (h : i.Printable) :
    parseLines (ParserState.init name) (ascii "[Interface]" ::
      i.entries.map fun (k, v) => entryText k.label v) =
      .ok ⟨.inInterfaceSection, ⟨name, i.reread, []⟩, true, none⟩ := by
  rw [parseLines, forEach_cons, parseLine_interface_header, Outcome.ok_bind, ← parseLines,
    parseLines_interface _ (interface_entries_good _ h) _ rfl]
  change (forEach Interface.applyEntry Interface.start _ >>= _) = _
  rw [forEach_interface_entries _ h, Outcome.ok_bind, entries_saw_privateKey]
  rfl

/-- A printable profile is read back up to what its text does not hold. -/
theorem fromWgQuick_toWgQuick (c : Config) (hname : tunnelNameIsValid c.name = true)
    (hi : c.interface.Printable) (hp : ∀ p ∈ c.peers, p.Printable)
    (hr : ∀ p ∈ c.peers, p.EndpointReads) (hv : ValidAWG c) :
    fromWgQuick (toWgQuick c) c.name = .ok c.reread := by
  obtain ⟨st, hst, hadd, hsaw⟩ := parseLines_peers c.peers hp hr
    ⟨.inInterfaceSection, ⟨c.name, c.interface.reread, []⟩, true, none⟩
  have hlines : parseLines (ParserState.init c.name) (wgQuickLines c ++ [[]]) = .ok st := by
    rw [parseLines, forEach_append, wgQuickLines, forEach_append, ← parseLines,
      parseLines_interface_section _ _ hi, Outcome.ok_bind]
    change (parseLines _ (c.peers.flatMap peerLines) >>= _) = _
    rw [hst, Outcome.ok_bind]
    rfl
  have hconf : st.addPeer = c.reread := by
    rw [hadd]
    simp [ParserState.addPeer, Config.reread]
  have hpublic : (c.reread.peers.any fun p => p.publicKey.isZero) = false := by
    rw [List.any_eq_false]
    intro p hpm
    obtain ⟨q, hq, rfl⟩ := List.mem_map.mp hpm
    have := (hp q hq).publicKey
    simp [Peer.reread, this]
  have hvalid := (validateAWG_iff c.reread).mpr (validAWG_reread c hv)
  rw [fromWgQuick, hname, toWgQuick_eq_unlines, splitOn_unlines _ (wgQuickLines_no_newline c hi hp),
    hlines]
  simp only [Bool.not_true, Bool.false_eq_true, if_false, Outcome.ok_bind, finishConfig, hsaw,
    hconf, hpublic, hvalid]

end SmartAwg.Conf
