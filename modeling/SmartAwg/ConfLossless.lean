import SmartAwg.ConfEndpoint
import SmartAwg.ConfReread

/-!
The wg-quick text is a lossless encoding of well-formed configs: reading back what was
written gives the same config, field by field.
-/

namespace SmartAwg.Conf

open Go

/-- An IPv6 literal, possibly with a zone that has no white space and none of the bytes
`forbidden` in it. -/
def IsIPv6Host (forbidden : Str) (host : Str) : Prop :=
  ∃ literal, 0x3A ∈ literal ∧ (parseIP literal).isSome = true ∧
    (host = literal ∨ ∃ zone, host = literal ++ 0x25 :: zone ∧
      (∀ w ∈ spaces, ¬ w <:+: zone) ∧ ∀ b ∈ forbidden, b ∉ zone)

/-- A host that is neither bracketed nor mistaken for a comment. -/
structure IsPlainHost (host : Str) : Prop where
  ne_nil : host ≠ []
  trimmed : Trimmed host
  bytes : ∀ b ∈ ascii ":[]#\n", b ∉ host

structure Interface.WellFormed (i : Interface) : Prop where
  mtu : 576 ≤ i.mtu.toNat
  text : ∀ k : TextKey, CleanText (k.get i)
  packets : ∀ key v, i.ipackets.lookup key = some v →
    v ≠ [] ∧ CleanText v ∧ ∃ k : PacketKey, key = ascii k.name
  addresses : ∀ a ∈ i.addresses, a.Fits
  dns : ∀ ip ∈ i.dns, ∃ t, parseIP t = some ip
  dnsSearch : ∀ d ∈ i.dnsSearch, CleanText d ∧ d ≠ [] ∧ 0x2C ∉ d ∧ parseIP d = none

structure Peer.WellFormed (forbidden : Str) (p : Peer) : Prop where
  publicKey : p.publicKey.isZero = false
  allowedIPs : ∀ a ∈ p.allowedIPs, a.Fits
  endpoint : p.endpoint = Endpoint.empty ∨ IsPlainHost p.endpoint.host ∨
    IsIPv6Host forbidden p.endpoint.host
  keepalive : p.persistentKeepalive = [] ∨
    (p.persistentKeepalive ≠ ascii "0" ∧ ∃ r, parseAWGRange p.persistentKeepalive 16 = .ok r)
  rxBytes : p.rxBytes = 0
  txBytes : p.txBytes = 0
  lastHandshakeTime : p.lastHandshakeTime = 0

/-- The configs the text encoding is meant for; zones are free of the bytes `forbidden`. -/
structure Config.WellFormed (forbidden : Str) (c : Config) : Prop where
  name : tunnelNameIsValid c.name = true
  valid : validateAWG c = .ok ()
  interface : c.interface.WellFormed
  peers : ∀ p ∈ c.peers, p.WellFormed forbidden

/-- Equality field by field, the packet map being compared by its lookups. -/
structure Config.SameFields (c d : Config) : Prop where
  name : c.name = d.name
  interface : { c.interface with ipackets := d.interface.ipackets } = d.interface
  ipackets : ∀ key, c.interface.ipackets.lookup key = d.interface.ipackets.lookup key
  peers : c.peers = d.peers

theorem isPlainHost_endpoint (e : Endpoint) (h : IsPlainHost e.host) :
    CleanText e.string ∧ parseEndpoint e.string = .ok e := by
  have hcolon : 0x3A ∉ e.host := h.bytes _ (by decide)
  have hopen : 0x5B ∉ e.host := h.bytes _ (by decide)
  have hclose : 0x5D ∉ e.host := h.bytes _ (by decide)
  refine ⟨endpoint_string_clean e (Or.inr h.trimmed.1) (h.bytes _ (by decide))
    (h.bytes _ (by decide)), parseEndpoint_string_plain e hcolon h.ne_nil ?_⟩
  rintro (hb | hb | hb)
  · exact hopen (List.mem_of_mem_head? hb)
  · exact hclose (List.mem_of_getLast? hb)
  · exact hcolon hb.1

theorem isAddrByte_not_mem (literal : Str) (b : UInt8) (h : (parseIP literal).isSome = true)
    (hb : isAddrByte b = false) : b ∉ literal := by
  obtain ⟨ip, hip⟩ := Option.isSome_iff_exists.mp h
  intro hmem
  exact absurd ((parseIP_some literal ip hip).2 b hmem) (by simp [hb])

theorem newline_mem_spaces : [0x0A] ∈ spaces := by decide

/-- A zone with a number sign is cut off as a comment, and of two percent signs the last one
counts; with neither the host comes back as it was. -/
theorem isIPv6Host_endpoint (e : Endpoint) (h : IsIPv6Host (ascii "]#%") e.host) :
    CleanText e.string ∧ parseEndpoint e.string = .ok e := by
  obtain ⟨literal, hcolon, hip, hhost⟩ := h
  have hpercent := isAddrByte_not_mem literal 0x25 hip (by decide)
  have hnl := isAddrByte_not_mem literal 0x0A hip (by decide)
  have hhash := isAddrByte_not_mem literal 0x23 hip (by decide)
  rcases hhost with hlit | ⟨zone, hlit, hspaces, hfree⟩
  · have hc : 0x3A ∈ e.host := hlit ▸ hcolon
    refine ⟨endpoint_string_clean e (Or.inl hc) (hlit ▸ hnl) (hlit ▸ hhash),
      (parseEndpoint_string_colon e e hc).mpr ⟨rfl, ?_⟩⟩
    rw [hlit, beforeZone_of_not_mem literal hpercent, hip]
  · have hc : 0x3A ∈ e.host := by simp [hlit, hcolon]
    have hznl : 0x0A ∉ zone := by
      intro hmem
      obtain ⟨a, t, rfl⟩ := List.append_of_mem hmem
      exact hspaces _ newline_mem_spaces ⟨a, t, by simp⟩
    have hzhash : 0x23 ∉ zone := hfree _ (by decide)
    have hzpercent : 0x25 ∉ zone := hfree _ (by decide)
    refine ⟨endpoint_string_clean e (Or.inl hc) (by simp [hlit, hnl, hznl])
      (by simp [hlit, hhash, hzhash]), (parseEndpoint_string_colon e e hc).mpr ⟨rfl, ?_⟩⟩
    rw [hlit, beforeZone_append literal zone hzpercent, hip]

theorem wellFormed_packet (i : Interface) (h : i.WellFormed) (k : PacketKey) :
    CleanText (i.packet k) := by
  unfold Interface.packet
  cases hl : i.ipackets.lookup (ascii k.name) with
  | none => exact (by decide : CleanText [])
  | some v => exact (h.packets _ v hl).2.1

theorem wellFormed_printable (i : Interface) (h : i.WellFormed) : i.Printable where
  mtu := h.mtu
  text := h.text
  packet := wellFormed_packet i h
  addresses := h.addresses
  dns := fun ip hip => by
    obtain ⟨t, ht⟩ := h.dns ip hip
    exact (parseIP_some t ip ht).1
  dnsSearch := fun d hd => by
    obtain ⟨hclean, hne, hcomma, hnot⟩ := h.dnsSearch d hd
    exact ⟨⟨hclean, hne, hcomma⟩, hnot⟩

theorem wellFormed_peer_printable (p : Peer) (h : p.WellFormed (ascii "]#%")) : p.Printable where
  publicKey := h.publicKey
  allowedIPs := h.allowedIPs
  endpoint := by
    rcases h.endpoint with he | he | he
    · exact Or.inl (by rw [he]; rfl)
    · exact Or.inr (isPlainHost_endpoint _ he).1
    · exact Or.inr (isIPv6Host_endpoint _ he).1
  keepalive := h.keepalive.imp_right And.right

theorem wellFormed_endpointReads (p : Peer) (h : p.WellFormed (ascii "]#%")) :
    p.EndpointReads := by
  rcases h.endpoint with he | he | he
  · exact Or.inl (by rw [he]; rfl)
  · exact Or.inr (isPlainHost_endpoint _ he).2
  · exact Or.inr (isIPv6Host_endpoint _ he).2

theorem wellFormed_lookup (i : Interface) (h : i.WellFormed) (key : Str) :
    i.reread.ipackets.lookup key = i.ipackets.lookup key := by
  by_cases hk : ∃ k : PacketKey, key = ascii k.name
  · obtain ⟨k, rfl⟩ := hk
    rw [reread_lookup, Interface.packet]
    cases hl : i.ipackets.lookup (ascii k.name) with
    | none => rfl
    | some v => simp [(h.packets _ v hl).1]
  · have hnone : i.ipackets.lookup key = none := by
      cases hl : i.ipackets.lookup key with
      | none => rfl
      | some v => exact absurd (h.packets key v hl).2.2 hk
    rw [hnone]
    exact lookup_foldl_addPacket_ne i _ _ key fun k _ heq => hk ⟨k, heq.symm⟩

theorem parseAWGRange_ne_off (s : Str) (r : Nat × Nat) (h : parseAWGRange s 16 = .ok r) :
    s ≠ ascii "off" := by
  rintro rfl
  cases h

theorem wellFormed_peer_reread (p : Peer) (h : p.WellFormed (ascii "]#%")) : p.reread = p := by
  have hendpoint : (if p.endpoint.host = [] then Endpoint.empty else p.endpoint) = p.endpoint := by
    split
    · rename_i hnil
      rcases h.endpoint with he | he | ⟨literal, hcolon, -, he | ⟨zone, he, -⟩⟩
      · exact he.symm
      · exact absurd hnil he.ne_nil
      · rw [← he, hnil] at hcolon
        cases hcolon
      · simp [he] at hnil
    · rfl
  have hkeep : ¬ (p.persistentKeepalive = ascii "0" ∨ p.persistentKeepalive = ascii "off") := by
    rcases h.keepalive with hk | ⟨hk, r, hr⟩
    · rw [hk]
      decide
    · exact not_or.mpr ⟨hk, parseAWGRange_ne_off _ r hr⟩
  rw [Peer.reread, hendpoint, if_neg hkeep]
  obtain ⟨-, -, -, -, hrx, htx, htime⟩ := h
  cases p
  simp only at hrx htx htime
  rw [hrx, htx, htime]

theorem wellFormed_reread (c : Config) (h : c.WellFormed (ascii "]#%")) :
    fromWgQuick (toWgQuick c) c.name = .ok c.reread :=
  fromWgQuick_toWgQuick c h.name (wellFormed_printable _ h.interface)
    (fun p hp => wellFormed_peer_printable p (h.peers p hp))
    (fun p hp => wellFormed_endpointReads p (h.peers p hp)) ((validateAWG_iff c).mp h.valid)

/-- Reading a written well-formed config gives it back. -/
theorem wgQuick_lossless (c : Config) (h : c.WellFormed (ascii "]#%")) :
    ∃ d, fromWgQuick (toWgQuick c) c.name = .ok d ∧ c.SameFields d := by
  refine ⟨c.reread, wellFormed_reread c h, rfl, rfl,
    fun key => (wellFormed_lookup _ h.interface key).symm, ?_⟩
  exact ((List.map_congr_left fun p hp => wellFormed_peer_reread p (h.peers p hp)).trans
    (List.map_id _)).symm

def sampleInterface : Interface :=
  { Interface.zero with
    mtu := 1420
    addresses := [⟨[10, 8, 0, 2], 32⟩]
    ipackets := AList.singleton (ascii "i1") (ascii "<b 0x01>") }

def sampleKey : Key := ⟨List.replicate 32 1, rfl⟩

/-- A tunnel with one peer, behind the given host. -/
def sampleConfig (host : Str) : Config where
  name := ascii "home"
  interface := sampleInterface
  peers := [⟨sampleKey, Key.zero, [⟨[0, 0, 0, 0], 0⟩], ⟨host, 51820⟩, ascii "20-30", 0, 0, 0⟩]

theorem sampleInterface_wellFormed : sampleInterface.WellFormed where
  mtu := by decide
  text := fun k => by cases k <;> exact (by decide : CleanText [])
  packets := fun key v h => by
    cases List.mem_singleton.mp (AList.mem_lookup_iff.mp h)
    exact ⟨by decide, by decide, PacketKey.i1, rfl⟩
  addresses := by decide
  dns := fun _ h => by cases h
  dnsSearch := fun _ h => by cases h

theorem sampleConfig_wellFormed (forbidden zone : Str)
    (hspaces : ∀ w ∈ spaces, ¬ w <:+: zone) (hfree : ∀ b ∈ forbidden, b ∉ zone) :
    (sampleConfig (ascii "fe80::1" ++ 0x25 :: zone)).WellFormed forbidden where
  name := (by decide +kernel : tunnelNameIsValid (ascii "home") = true)
  valid := (by decide +kernel : validateAWG (sampleConfig []) = .ok ())
  interface := sampleInterface_wellFormed
  peers := by
    intro p hp
    obtain rfl := List.mem_singleton.mp hp
    exact
      { publicKey := (by decide : sampleKey.isZero = false)
        allowedIPs := (by decide : ∀ a ∈ [(⟨[0, 0, 0, 0], 0⟩ : IPCidr)], a.Fits)
        endpoint := Or.inr (Or.inr ⟨ascii "fe80::1", by decide, by decide +kernel,
          Or.inr ⟨zone, rfl, hspaces, hfree⟩⟩)
        keepalive := Or.inr ⟨(by decide : ascii "20-30" ≠ ascii "0"), (20, 30),
          (by decide +kernel : parseAWGRange (ascii "20-30") 16 = .ok (20, 30))⟩
        rxBytes := rfl
        txBytes := rfl
        lastHandshakeTime := rfl }

theorem wgQuick_lossless_sample :
    (sampleConfig (ascii "fe80::1%eth0")).WellFormed (ascii "]#%") ∧
      ∃ d, fromWgQuick (toWgQuick (sampleConfig (ascii "fe80::1%eth0"))) (ascii "home") = .ok d ∧
        (sampleConfig (ascii "fe80::1%eth0")).SameFields d :=
  have h := sampleConfig_wellFormed (ascii "]#%") (ascii "eth0") (by decide +kernel)
    (by decide +kernel)
  ⟨h, wgQuick_lossless _ h⟩

/-- A zone with a number sign in it: the written endpoint ends at the comment mark. -/
theorem wgQuick_zone_hash_lost :
    (sampleConfig (ascii "fe80::1%a#b")).WellFormed (ascii "]") ∧
      ∀ d, fromWgQuick (toWgQuick (sampleConfig (ascii "fe80::1%a#b"))) (ascii "home") ≠ .ok d := by
  refine ⟨sampleConfig_wellFormed (ascii "]") (ascii "a#b") (by decide +kernel) (by decide +kernel),
    fun d h => ?_⟩
  have herr : (fromWgQuick (toWgQuick (sampleConfig (ascii "fe80::1%a#b"))) (ascii "home")).toOption =
      none := by decide +kernel
  rw [h] at herr
  cases herr

end SmartAwg.Conf
