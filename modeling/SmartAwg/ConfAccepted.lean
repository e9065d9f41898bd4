import Mathlib.Data.List.ReduceOption
import SmartAwg.ConfLossless

/-!
What the reader accepts, and whether it accepts it again once written. Every field of an
accepted config is printable; the endpoints are the only values that may be printed in a form
the reader refuses.
-/

namespace SmartAwg.Conf

open Go

section values

theorem parseBounded_ok (lo hi : Int) (why : String) (s : Str) (v : UInt16) (hlo : 0 ≤ lo)
    (hhi : hi ≤ 65535) (h : parseBounded lo hi why s = .ok v) :
    lo ≤ v.toNat ∧ (v.toNat : Int) ≤ hi := by
  unfold parseBounded at h
  split at h
  · cases h
  · rename_i m hm
    split at h
    · cases h
    · rename_i hrange
      cases h
      have hsmall : m.toNat < 65536 := by omega
      have hval : m.toNat.toUInt16.toNat = m.toNat := UInt16.toNat_ofNat_of_lt' hsmall
      omega

theorem makeIPCidr_fits (s addr : Str) (cidr : Option Str) (r : IPCidr)
    (h : makeIPCidr s addr cidr = .ok r) : r.Fits := by
  unfold makeIPCidr at h
  split at h
  · cases h
  · rename_i a ha
    have hlen := (parseIP_some addr a ha).1
    simp only at h
    -- The address is the four bytes if there are any, and the sixteen otherwise.
    have hshape : ∀ bits : UInt8, bits.toNat ≤ 128 → ((to4 a).isSome = true → bits.toNat ≤ 32) →
        (⟨(to4 a).getD a, bits⟩ : IPCidr).Fits := by
      intro bits h128 h32
      cases hv4 : to4 a with
      | none => exact Or.inr ⟨hlen, hv4, h128⟩
      | some v4 =>
        refine Or.inl ⟨?_, h32 (by rw [hv4]; rfl)⟩
        rw [(to4_eq_some a v4 hlen).mp hv4, List.length_append] at hlen
        exact Nat.add_left_cancel hlen
    split at h
    · cases h
      apply hshape
      · split <;> decide
      · intro hsome
        rw [if_pos hsome]
        decide
    · split at h
      · cases h
      · rename_i n hn
        split at h
        · cases h
        split at h
        · cases h
        rename_i hrange hv4
        cases h
        have hsmall : n.toNat < 256 := by omega
        have hval : n.toNat.toUInt8.toNat = n.toNat := UInt8.toNat_ofNat_of_lt' hsmall
        apply hshape
        · omega
        · intro hsome
          have : ¬ n > 32 := fun hgt => hv4 ⟨hgt, hsome⟩
          omega

theorem parseIPCidr_fits (s : Str) (r : IPCidr) (h : parseIPCidr s = .ok r) : r.Fits := by
  obtain ⟨⟨addr, cidr⟩, -, h⟩ := (Outcome.bind_eq_ok _ _ _).mp h
  exact makeIPCidr_fits s addr cidr r ((Outcome.ofExcept_eq_ok _ _).mp h)

theorem forEach_appendIPCidr_fits (acc parts : _) (all : List IPCidr)
    (h0 : ∀ a ∈ acc, a.Fits) (h : forEach appendIPCidr acc parts = .ok all) :
    ∀ a ∈ all, a.Fits := by
  refine forEach_invariant appendIPCidr (fun as => ∀ a ∈ as, a.Fits) parts ?_ acc all h0 h
  intro as part _ as' has hstep
  obtain ⟨r, hr, hok⟩ := (Outcome.bind_eq_ok _ _ _).mp hstep
  cases hok
  simpa [or_imp, forall_and, has] using ⟨has, parseIPCidr_fits part r hr⟩

theorem splitListFrom_ok (whole : Str) (pieces parts : List Str)
    (h : splitListFrom whole pieces = .ok parts) :
    ∀ part ∈ parts, part ≠ [] ∧ ∃ piece ∈ pieces, part = trimSpace piece := by
  induction pieces generalizing parts with
  | nil =>
    cases h
    simp
  | cons piece pieces ih =>
    unfold splitListFrom at h
    simp only at h
    split at h
    · cases h
    · rename_i hlen
      cases hrest : splitListFrom whole pieces with
      | error e =>
        rw [hrest] at h
        cases h
      | ok rest =>
        rw [hrest] at h
        cases h
        intro part hpart
        rcases List.mem_cons.mp hpart with rfl | hpart
        · exact ⟨fun hnil => hlen (by rw [hnil]; rfl), piece, by simp, rfl⟩
        · obtain ⟨hne, q, hq, hpq⟩ := ih rest hrest part hpart
          exact ⟨hne, q, by simp [hq], hpq⟩

theorem splitList_ok (s : Str) (parts : List Str) (hs : CleanText s) (h : splitList s = .ok parts) :
    ∀ part ∈ parts, ListPart part := by
  intro part hpart
  obtain ⟨hne, piece, hpiece, rfl⟩ := splitListFrom_ok s _ parts h part hpart
  have hmem := fun x hx => mem_splitOn s 0x2C piece hpiece x (mem_of_mem_trimSpace piece x hx)
  exact ⟨⟨trimSpace_trimmed piece, fun hx => hs.2.1 (hmem _ hx).1, fun hx => hs.2.2 (hmem _ hx).1⟩,
    hne, fun hx => (hmem _ hx).2 rfl⟩

theorem parsePersistentKeepalive_ok (s k : Str) (h : parsePersistentKeepalive s = .ok k) :
    ∃ r, parseAWGRange k 16 = .ok r := by
  unfold parsePersistentKeepalive at h
  split at h
  · cases h
    exact ⟨(0, 0), by decide +kernel⟩
  · split at h
    · rename_i r hr
      cases h
      exact ⟨r, hr⟩
    · cases h

/-- The endpoint of an accepted text is printed as a clean text. -/
theorem parseEndpoint_clean (t : Str) (e : Endpoint) (ht : CleanText t)
    (h : parseEndpoint t = .ok e) : e.host ≠ [] ∧ CleanText e.string := by
  obtain ⟨host, port, rfl, hport⟩ := parseEndpoint_eq_ok_split t e h
  obtain ⟨hne, -, hhost⟩ := (parseEndpoint_append_eq_ok host port hport e).mp h
  have hlead := (noLead_append_cons host port _ colon_solid).mp ht.1.1
  have hnl : 0x0A ∉ host := fun hx => ht.2.1 (by simp [hx])
  have hhash : 0x23 ∉ host := fun hx => ht.2.2 (by simp [hx])
  rcases hhost with ⟨-, heq⟩ | ⟨rfl, hcolon, -⟩
  · rw [← heq] at hne hlead hnl hhash
    exact ⟨hne, endpoint_string_clean e (Or.inr hlead) hnl hhash⟩
  · exact ⟨List.ne_nil_of_mem hcolon, endpoint_string_clean e (Or.inl hcolon)
      (fun hx => hnl (by simp [hx])) (fun hx => hhash (by simp [hx]))⟩

/-- An endpoint text whose host starts with a colon and is no address. -/
def colonHost (t : Str) : Bool :=
  match lastIndexByte t 0x3A with
  | some i => (t.take i).head? == some 0x3A && (parseIP (beforeZone (t.take i))).isNone
  | none => false

theorem colonHost_append (host port : Str) (hport : 0x3A ∉ port) :
    colonHost (host ++ 0x3A :: port) = true ↔
      host.head? = some 0x3A ∧ parseIP (beforeZone host) = none := by
  rw [colonHost, lastIndexByte_append_cons host port 0x3A hport]
  simp

/-- The printed form of an accepted endpoint is refused exactly when its host starts with a
colon and is no address: it is then printed in brackets. -/
theorem parseEndpoint_string_iff (t : Str) (e e' : Endpoint) (h : parseEndpoint t = .ok e) :
    parseEndpoint e.string = .ok e' ↔ e' = e ∧ colonHost t = false := by
  obtain ⟨host, port, rfl, hport⟩ := parseEndpoint_eq_ok_split t e h
  obtain ⟨hne, -, hhost⟩ := (parseEndpoint_append_eq_ok host port hport e).mp h
  rw [← Bool.not_eq_true, colonHost_append host port hport]
  rcases hhost with ⟨hb, rfl⟩ | ⟨rfl, hcolon, hip⟩
  · by_cases hcolon : 0x3A ∈ e.host
    · have hhead : e.host.head? = some 0x3A := by
        by_contra hhead
        exact hb (Or.inr (Or.inr ⟨hcolon, hhead⟩))
      simp only [parseEndpoint_string_colon e _ hcolon, hhead, true_and,
        ← Option.not_isSome_iff_eq_none, Bool.not_eq_true, Bool.not_eq_false]
    · rw [parseEndpoint_string_plain e hcolon hne hb]
      have hfree : ¬ (e.host.head? = some 0x3A ∧ parseIP (beforeZone e.host) = none) :=
        fun hc => hcolon (List.mem_of_mem_head? hc.1)
      rw [Outcome.ok.injEq, eq_comm, and_iff_left hfree]
  · rw [parseEndpoint_string_colon e e' hcolon]
    simp [hip]

end values

section sections

theorem Interface.start_printable : Interface.start.Printable where
  mtu := by decide
  text := fun k => by cases k <;> exact (by decide : CleanText [])
  packet := fun k => by cases k <;> exact (by decide : CleanText [])
  addresses := fun _ h => by cases h
  dns := fun _ h => by cases h
  dnsSearch := fun _ h => by cases h

/-- The names of the packets are all different, so one write changes one packet. -/
theorem packet_insert (i : Interface) (k k' : PacketKey) (v : Str) :
    ({ i with ipackets := i.ipackets.insert (ascii k'.name) v } : Interface).packet k =
      if k = k' then v else i.packet k := by
  unfold Interface.packet
  split
  · rename_i h
    rw [h, AList.lookup_insert]
    rfl
  · rename_i h
    rw [AList.lookup_insert_ne fun hk => h (packetKey_name_injective k k' hk)]

theorem Interface.Printable.of_text {i : Interface} (h : i.Printable) (k : TextKey) (v : Str)
    (hv : CleanText v) : (k.set i v).Printable where
  mtu := by cases k <;> exact h.mtu
  text := fun k' => by
    by_cases hk : k = k'
    · subst hk
      cases k <;> exact hv
    · rw [textKey_get_set i v k k' hk]
      exact h.text k'
  packet := fun k' => by cases k <;> exact h.packet k'
  addresses := by cases k <;> exact h.addresses
  dns := by cases k <;> exact h.dns
  dnsSearch := by cases k <;> exact h.dnsSearch

theorem Interface.Printable.of_addDNS {i : Interface} (h : i.Printable) (part : Str)
    (hpart : ListPart part) : (i.addDNS part).Printable := by
  unfold Interface.addDNS
  split
  · rename_i hip
    exact { h with
      dnsSearch := fun d hd => by
        rcases List.mem_append.mp hd with hd | hd
        · exact h.dnsSearch d hd
        · rw [List.mem_singleton.mp hd]
          exact ⟨hpart, hip⟩ }
  · rename_i a hip
    exact { h with
      dns := fun d hd => by
        rcases List.mem_append.mp hd with hd | hd
        · exact h.dns d hd
        · rw [List.mem_singleton.mp hd]
          exact (parseIP_some part a hip).1 }

theorem Interface.Printable.of_addDNSs {i : Interface} (h : i.Printable) (parts : List Str)
    (hparts : ∀ part ∈ parts, ListPart part) : (parts.foldl Interface.addDNS i).Printable := by
  induction parts generalizing i with
  | nil => exact h
  | cons part parts ih =>
    exact ih (h.of_addDNS part (hparts part (by simp))) fun q hq => hparts q (by simp [hq])

/-- Setting a key keeps the interface printable. -/
theorem interface_apply_printable (i i' : Interface) (key : InterfaceKey) (val : Str)
    (hi : i.Printable) (hv : CleanText val) (h : i.apply key val = .ok i') : i'.Printable := by
  cases key with
  | privateKey =>
    obtain ⟨k, -, hok⟩ := (Outcome.bind_eq_ok _ _ _).mp h
    cases hok
    exact { hi with }
  | listenPort =>
    obtain ⟨k, -, hok⟩ := (Outcome.bind_eq_ok _ _ _).mp h
    cases hok
    exact { hi with }
  | size k =>
    obtain ⟨v, -, hok⟩ := (Outcome.bind_eq_ok _ _ _).mp h
    cases hok
    cases k <;> exact { hi with }
  | text k =>
    cases h
    exact hi.of_text k val hv
  | packet k =>
    simp only [Interface.apply] at h
    split at h
    · cases h
      exact hi
    · cases h
      exact { hi with
        packet := fun k' => by
          rw [packet_insert]
          split
          · exact hv
          · exact hi.packet k' }
  | headerProtectionKey =>
    simp only [Interface.apply] at h
    split at h
    · cases h
      exact { hi with }
    · cases h
  | mtu =>
    obtain ⟨m, hm, hok⟩ := (Outcome.bind_eq_ok _ _ _).mp h
    cases hok
    have := parseBounded_ok 576 65535 _ val m (by decide) (by decide)
      ((Outcome.ofExcept_eq_ok _ _).mp hm)
    exact { hi with mtu := by simp only; omega }
  | address =>
    obtain ⟨parts, -, h⟩ := (Outcome.bind_eq_ok _ _ _).mp h
    obtain ⟨all, hall, hok⟩ := (Outcome.bind_eq_ok _ _ _).mp h
    cases hok
    exact { hi with addresses := forEach_appendIPCidr_fits _ parts all hi.addresses hall }
  | dns =>
    obtain ⟨parts, hparts, hok⟩ := (Outcome.bind_eq_ok _ _ _).mp h
    cases hok
    exact hi.of_addDNSs parts (splitList_ok val parts hv ((Outcome.ofExcept_eq_ok _ _).mp hparts))
  | table =>
    obtain ⟨off, -, hok⟩ := (Outcome.bind_eq_ok _ _ _).mp h
    cases hok
    exact { hi with }

/-- The endpoint of a peer whose last endpoint text is `t`. -/
def EndpointOf : Option Str → Endpoint → Prop
  | none, e => e = Endpoint.empty
  | some t, e => CleanText t ∧ parseEndpoint t = .ok e

/-- A peer read so far, with the last endpoint text of its section. -/
structure PeerOf (t : Option Str) (p : Peer) : Prop where
  allowedIPs : ∀ a ∈ p.allowedIPs, a.Fits
  endpoint : EndpointOf t p.endpoint
  keepalive : p.persistentKeepalive = [] ∨ ∃ r, parseAWGRange p.persistentKeepalive 16 = .ok r

theorem peerOf_zero : PeerOf none Peer.zero where
  allowedIPs := fun _ h => by cases h
  endpoint := rfl
  keepalive := Or.inl rfl

theorem peer_apply_of (t : Option Str) (p p' : Peer) (key : PeerKey) (val : Str) (hp : PeerOf t p)
    (hv : CleanText val) (h : p.apply key val = .ok p') :
    PeerOf (if key = .endpoint then some val else t) p' := by
  cases key with
  | publicKey =>
    obtain ⟨k, -, hok⟩ := (Outcome.bind_eq_ok _ _ _).mp h
    cases hok
    exact { hp with }
  | presharedKey =>
    obtain ⟨k, -, hok⟩ := (Outcome.bind_eq_ok _ _ _).mp h
    cases hok
    exact { hp with }
  | allowedIPs =>
    obtain ⟨parts, -, h⟩ := (Outcome.bind_eq_ok _ _ _).mp h
    obtain ⟨all, hall, hok⟩ := (Outcome.bind_eq_ok _ _ _).mp h
    cases hok
    exact { hp with allowedIPs := forEach_appendIPCidr_fits _ parts all hp.allowedIPs hall }
  | persistentKeepalive =>
    obtain ⟨k, hk, hok⟩ := (Outcome.bind_eq_ok _ _ _).mp h
    cases hok
    exact { hp with
      keepalive := Or.inr (parsePersistentKeepalive_ok val k ((Outcome.ofExcept_eq_ok _ _).mp hk)) }
  | endpoint =>
    obtain ⟨e, he, hok⟩ := (Outcome.bind_eq_ok _ _ _).mp h
    cases hok
    exact { hp with endpoint := ⟨hv, he⟩ }

end sections

/-- The scan of a text for the endpoints of its `[Peer]` sections: whether it is in one, and the
last endpoint text of each, the latest section first. -/
def scanLine (scan : Bool × List (Option Str)) (raw : Str) : Bool × List (Option Str) :=
  if toLower (lineText raw) = ascii "[interface]" then (false, scan.2)
  else if toLower (lineText raw) = ascii "[peer]" then (true, none :: scan.2)
  else
    match scan.1, scan.2, keyValue (lineText raw) with
    | true, last :: older, some (key, val) =>
      (true, (if key = ascii "endpoint" then some val else last) :: older)
    | _, _, _ => scan

/-- The endpoint texts that decide the endpoints of the peers. -/
def endpointTexts (s : Str) : List Str :=
  ((s.splitOn 0x0A).foldl scanLine (false, [])).2.reduceOption

/-- What the reader knows of a config, given the scan of the text so far. -/
structure Accepted (name : Str) (scan : Bool × List (Option Str)) (st : ParserState) : Prop where
  name : st.conf.name = name
  interface : st.conf.interface.Printable
  inPeer : scan.1 = true ↔ st.state = .inPeerSection
  peer : st.state = .inPeerSection ↔ st.peer.isSome = true
  peers : List.Forall₂ PeerOf scan.2 (st.peer.toList ++ st.conf.peers.reverse)

theorem lineText_bytes (raw : Str) (b : UInt8) (h : b ∈ lineText raw) : b ∈ raw ∧ b ≠ 0x23 := by
  have hmem := mem_of_mem_trimSpace _ b h
  exact ⟨( List.takeWhile_prefix _).subset hmem, by simpa using List.mem_takeWhile_imp hmem⟩

theorem keyValue_clean (raw key val : Str) (hraw : 0x0A ∉ raw)
    (h : keyValue (lineText raw) = some (key, val)) : CleanText val := by
  obtain ⟨equals, -, heq⟩ := Option.map_eq_some_iff.mp h
  cases heq
  have hmem : ∀ b ∈ trimSpace ((lineText raw).drop (equals + 1)), b ∈ raw ∧ b ≠ 0x23 :=
    fun b hb => lineText_bytes raw b (List.mem_of_mem_drop (mem_of_mem_trimSpace _ b hb))
  exact ⟨trimSpace_trimmed _, fun hb => hraw (hmem _ hb).1, fun hb => (hmem _ hb).2 rfl⟩

theorem lookupKey_endpoint (key : Str) (k : PeerKey) (h : lookupKey peerKeys key = some k) :
    k = .endpoint ↔ key = ascii "endpoint" := by
  obtain ⟨label, hmem, hkey⟩ := lookupKey_eq_some _ key k h
  have htable : ∀ e ∈ peerKeys, (e.2 = .endpoint ↔ ascii e.1 = ascii "endpoint") := by
    decide +kernel
  rw [← hkey]
  exact htable _ hmem

theorem forall₂_addPeer (texts : List (Option Str)) (st : ParserState)
    (h : List.Forall₂ PeerOf texts (st.peer.toList ++ st.conf.peers.reverse)) :
    List.Forall₂ PeerOf texts st.addPeer.peers.reverse := by
  unfold ParserState.addPeer
  cases hp : st.peer with
  | none => simpa [hp] using h
  | some p => simpa [hp] using h

/-- One line keeps what is known. -/
theorem parseLine_accepted (name : Str) (scan : Bool × List (Option Str)) (st : ParserState)
    (raw : Str) (st' : ParserState) (hraw : 0x0A ∉ raw) (hst : Accepted name scan st)
    (h : parseLine st raw = .ok st') : Accepted name (scanLine scan raw) st' := by
  rcases parseLine_cases st raw st' h with ⟨hline, rfl⟩ | ⟨hline, rfl⟩ | ⟨hline, rfl⟩ |
    ⟨hni, hnp, hstate, key, val, hkv, hassign⟩
  · have hscan : scanLine scan raw = scan := by
      obtain ⟨inPeer, texts⟩ := scan
      simp only [scanLine, hline]
      rw [if_neg (by decide), if_neg (by decide)]
      cases inPeer <;> cases texts <;> rfl
    rw [hscan]
    exact hst
  · rw [scanLine, if_pos hline]
    exact ⟨hst.name, hst.interface, by simp, by simp, by simpa using forall₂_addPeer _ st hst.peers⟩
  · rw [scanLine, if_neg (by rw [hline]; decide), if_pos hline]
    refine ⟨hst.name, hst.interface, by simp, by simp, ?_⟩
    exact List.Forall₂.cons peerOf_zero (forall₂_addPeer _ st hst.peers)
  · have hclean := keyValue_clean raw key val hraw hkv
    rw [scanLine, if_neg hni, if_neg hnp, hkv]
    unfold ParserState.assign at hassign
    split at hassign
    · rename_i hsec
      have hscan : scan.1 = false := by
        rw [← Bool.not_eq_true, hst.inPeer, hsec]
        decide
      split at hassign
      · cases hassign
      · obtain ⟨i, hi, hok⟩ := (Outcome.bind_eq_ok _ _ _).mp hassign
        cases hok
        simp only [hscan]
        exact ⟨hst.name, interface_apply_printable _ i _ val hst.interface hclean hi, hst.inPeer,
          hst.peer, hst.peers⟩
    · rename_i hsec
      have hscan : scan.1 = true := hst.inPeer.mpr hsec
      split at hassign
      · cases hassign
      · rename_i k hk
        split at hassign
        · cases hassign
        · rename_i p hp
          obtain ⟨p', hp', hok⟩ := (Outcome.bind_eq_ok _ _ _).mp hassign
          cases hok
          have hpeers := hst.peers
          rw [hp, Option.toList_some, List.singleton_append] at hpeers
          obtain ⟨last, older, hhead, htail, htexts⟩ := List.forall₂_cons_right_iff.mp hpeers
          simp only [hscan, htexts]
          refine ⟨hst.name, hst.interface, by simp [hsec], by simp [hsec], ?_⟩
          have hof := peer_apply_of last p p' k val hhead hclean hp'
          simp only [lookupKey_endpoint key k hk] at hof
          exact List.Forall₂.cons hof htail
    · rename_i hsec
      exact absurd hsec hstate

theorem accepted_init (name : Str) : Accepted name (false, []) (ParserState.init name) :=
  ⟨rfl, Interface.start_printable, by simp [ParserState.init], by simp [ParserState.init],
    List.Forall₂.nil⟩

/-- What `FromWgQuick` returns, and the texts its endpoints were read from. -/
theorem fromWgQuick_accepted (s name : Str) (c : Config) (h : fromWgQuick s name = .ok c) :
    tunnelNameIsValid name = true ∧ c.name = name ∧ c.interface.Printable ∧ ValidAWG c ∧
      (∀ p ∈ c.peers, p.publicKey.isZero = false) ∧
      List.Forall₂ PeerOf ((s.splitOn 0x0A).foldl scanLine (false, [])).2 c.peers.reverse := by
  unfold fromWgQuick at h
  split at h
  · cases h
  rename_i hname
  obtain ⟨st, hst, hfin⟩ := (Outcome.bind_eq_ok _ _ _).mp h
  have hacc := forEach_simulation parseLine (Accepted name) scanLine (s.splitOn 0x0A)
    (fun scan st raw hraw st' hst hok => parseLine_accepted name scan st raw st'
      (fun hnl => (mem_splitOn s 0x0A raw hraw _ hnl).2 rfl) hst hok)
    _ _ st (accepted_init name) hst
  unfold finishConfig at hfin
  simp only at hfin
  split at hfin
  · cases hfin
  split at hfin
  · cases hfin
  rename_i hkeys
  obtain ⟨_, hvalid, hok⟩ := (Outcome.bind_eq_ok _ _ _).mp hfin
  cases hok
  refine ⟨by simpa using hname, hacc.name, hacc.interface, (validateAWG_iff _).mp hvalid, ?_,
    forall₂_addPeer _ st hacc.peers⟩
  simpa using hkeys

theorem peerOf_printable (t : Option Str) (p : Peer) (h : PeerOf t p)
    (hkey : p.publicKey.isZero = false) : p.Printable where
  publicKey := hkey
  allowedIPs := h.allowedIPs
  endpoint := by
    cases t with
    | none => exact Or.inl (by rw [show p.endpoint = Endpoint.empty from h.endpoint]; rfl)
    | some t => exact Or.inr (parseEndpoint_clean t p.endpoint h.endpoint.1 h.endpoint.2).2
  keepalive := h.keepalive

theorem forall₂_mem_left {α β : Type} {R : α → β → Prop} {as : List α} {bs : List β}
    (h : List.Forall₂ R as bs) {a : α} (ha : a ∈ as) : ∃ b ∈ bs, R a b := by
  induction h with
  | nil => cases ha
  | cons hab _ ih =>
    rcases List.mem_cons.mp ha with rfl | ha
    · exact ⟨_, List.mem_cons_self .., hab⟩
    · obtain ⟨b, hb, hr⟩ := ih ha
      exact ⟨b, List.mem_cons_of_mem _ hb, hr⟩

/-- What `FromWgQuick` returns can be written and is valid. -/
theorem fromWgQuick_printable (s name : Str) (c : Config) (h : fromWgQuick s name = .ok c) :
    tunnelNameIsValid name = true ∧ c.name = name ∧ c.interface.Printable ∧ ValidAWG c ∧
      ∀ p ∈ c.peers, p.Printable := by
  obtain ⟨hname, hcname, hi, hv, hkeys, hof⟩ := fromWgQuick_accepted s name c h
  refine ⟨hname, hcname, hi, hv, fun p hp => ?_⟩
  obtain ⟨t, -, ht⟩ := forall₂_mem_left hof.flip (List.mem_reverse.mpr hp)
  exact peerOf_printable t p ht (hkeys p hp)

theorem interface_reread_entries (i : Interface) : i.reread.entries = i.entries := by
  have hpackets : ∀ k, i.reread.packet k = i.packet k := reread_packet i
  simp only [Interface.entries, Interface.entryGroups, hpackets]
  rfl

theorem peer_reread_entries (p : Peer) : p.reread.entries = p.entries := by
  have hendpoint : (if !p.reread.endpoint.isEmpty then
      [(PeerKey.endpoint, p.reread.endpoint.string)] else []) =
      if !p.endpoint.isEmpty then [(PeerKey.endpoint, p.endpoint.string)] else [] := by
    by_cases hnil : p.endpoint.host = [] <;> simp [Peer.reread, hnil, Endpoint.isEmpty, Endpoint.empty]
  have hkeepalive : ∀ k, p.reread.persistentKeepalive = k →
      (if k.length > 0 ∧ k ≠ ascii "0" ∧ k ≠ ascii "off" then
        [(PeerKey.persistentKeepalive, k)] else []) =
      if p.persistentKeepalive.length > 0 ∧ p.persistentKeepalive ≠ ascii "0" ∧
          p.persistentKeepalive ≠ ascii "off" then
        [(PeerKey.persistentKeepalive, p.persistentKeepalive)] else [] := by
    rintro k rfl
    unfold Peer.reread
    simp only
    split
    · rename_i hk
      rcases hk with hk | hk <;> simp [hk]
    · rfl
  rw [Peer.entries, Peer.entries, Peer.entryGroups, Peer.entryGroups, hendpoint,
    hkeepalive _ rfl]
  rfl

/-- Rereading changes nothing that is written. -/
theorem toWgQuick_reread (c : Config) : toWgQuick c.reread = toWgQuick c := by
  simp only [toWgQuick, Config.reread, interface_reread_entries, List.flatMap_map,
    peer_reread_entries]

/-- A written endpoint line is accepted only if its value is. -/
theorem parseLine_endpoint_ok (st st' : ParserState) (v : Str) (hv : CleanText v) (hne : v ≠ [])
    (h : parseLine st (entryText PeerKey.endpoint.label v) = .ok st') :
    ∃ e, parseEndpoint v = .ok e := by
  obtain ⟨hword, hlookup⟩ := peerKey_label .endpoint
  rw [parseLine_entry _ v hword hv hne] at h
  split at h
  · cases h
  have hinterface : lookupKey interfaceKeys ((ascii PeerKey.endpoint.label).map lowerByte) = none := by
    decide +kernel
  unfold ParserState.assign at h
  rw [hlookup, hinterface] at h
  split at h
  · cases h
  · simp only at h
    split at h
    · cases h
    · obtain ⟨p', hp', -⟩ := (Outcome.bind_eq_ok _ _ _).mp h
      obtain ⟨e, he, -⟩ := (Outcome.bind_eq_ok _ _ _).mp hp'
      exact ⟨e, he⟩
  · rename_i hnot _ hsec
    exact absurd hsec hnot

theorem endpoint_line_mem (c : Config) (p : Peer) (hp : p ∈ c.peers) (hne : p.endpoint.host ≠ []) :
    entryText PeerKey.endpoint.label p.endpoint.string ∈ wgQuickLines c := by
  have hentry : (PeerKey.endpoint, p.endpoint.string) ∈ p.entries :=
    List.mem_flatten.mpr ⟨[(PeerKey.endpoint, p.endpoint.string)],
      by simp [Peer.entryGroups, Endpoint.isEmpty, hne], by simp⟩
  refine List.mem_append_right _ (List.mem_flatMap.mpr ⟨p, hp, ?_⟩)
  exact List.mem_cons_of_mem _ (List.mem_cons_of_mem _
    (List.mem_map.mpr ⟨(PeerKey.endpoint, p.endpoint.string), hentry, rfl⟩))

/-- Only a config without such an endpoint text is read again. -/
theorem colonHost_of_reread (c c' : Config) (hi : c.interface.Printable) (hp : ∀ p ∈ c.peers, p.Printable)
    (p : Peer) (hmem : p ∈ c.peers) (t : Str) (ht : CleanText t) (hparse : parseEndpoint t = .ok p.endpoint)
    (name : Str) (hread : fromWgQuick (toWgQuick c) name = .ok c') : colonHost t = false := by
  have hclean := parseEndpoint_clean t p.endpoint ht hparse
  unfold fromWgQuick at hread
  split at hread
  · cases hread
  rw [toWgQuick_eq_unlines, splitOn_unlines _ (wgQuickLines_no_newline c hi hp)] at hread
  obtain ⟨st, hst, -⟩ := (Outcome.bind_eq_ok _ _ _).mp hread
  obtain ⟨mid, mid', hmid⟩ := forEach_eq_ok_mem parseLine _ _ st hst _
    (List.mem_append_left _ (endpoint_line_mem c p hmem hclean.1))
  obtain ⟨e, he⟩ := parseLine_endpoint_ok mid mid' _ hclean.2 (endpoint_string_ne_nil _) hmid
  exact ((parseEndpoint_string_iff t p.endpoint e hparse).mp he).2

/-- An endpoint without such a text is read again. -/
theorem PeerOf.endpointReads {t : Option Str} {p : Peer} (h : PeerOf t p)
    (hplain : ∀ u, t = some u → colonHost u = false) : p.EndpointReads := by
  cases t with
  | none => exact Or.inl (by rw [show p.endpoint = Endpoint.empty from h.endpoint]; rfl)
  | some t =>
    exact Or.inr ((parseEndpoint_string_iff t p.endpoint p.endpoint h.endpoint.2).mpr ⟨rfl, hplain t rfl⟩)

/-- Writing an accepted config and reading it again gives a config with the same text, unless
some endpoint text has a host that starts with a colon and is no address. -/
theorem fromWgQuick_stable_iff (s name : Str) (c : Config) (h : fromWgQuick s name = .ok c) :
    (∃ c', fromWgQuick (toWgQuick c) name = .ok c' ∧ toWgQuick c' = toWgQuick c) ↔
      ∀ t ∈ endpointTexts s, colonHost t = false := by
  obtain ⟨hname, rfl, hi, hv, -, hpeers⟩ := fromWgQuick_accepted s name c h
  obtain ⟨-, -, -, -, hprint⟩ := fromWgQuick_printable s c.name c h
  constructor
  · rintro ⟨c', hc', -⟩ t ht
    obtain ⟨p, hp, hpt⟩ := forall₂_mem_left hpeers (List.reduceOption_mem_iff.mp ht)
    exact colonHost_of_reread c c' hi hprint p (List.mem_reverse.mp hp) t hpt.endpoint.1 hpt.endpoint.2 _ hc'
  · intro hall
    refine ⟨c.reread, fromWgQuick_toWgQuick c hname hi hprint (fun p hp => ?_) hv,
      toWgQuick_reread c⟩
    obtain ⟨t, hmem, ht⟩ := forall₂_mem_left hpeers.flip (List.mem_reverse.mpr hp)
    exact ht.endpointReads fun u hu => hall u (List.reduceOption_mem_iff.mpr (hu ▸ hmem))

theorem fromWgQuick_stable_sample :
    let c := (sampleConfig (ascii "fe80::1%eth0")).reread
    fromWgQuick (toWgQuick (sampleConfig (ascii "fe80::1%eth0"))) (ascii "home") = .ok c ∧
      ∃ c', fromWgQuick (toWgQuick c) (ascii "home") = .ok c' ∧ toWgQuick c' = toWgQuick c := by
  have hw := sampleConfig_wellFormed (ascii "]#%") (ascii "eth0") (by decide +kernel)
    (by decide +kernel)
  have h := wellFormed_reread _ hw
  exact ⟨h, (fromWgQuick_stable_iff _ _ _ h).mpr (by decide +kernel)⟩

def sampleKeyText : Str :=
  (List.replicate 10 [0x41, 0x51, 0x45, 0x42]).flatten ++ [0x41, 0x51, 0x45, 0x3D]

/-- The shortest profile. -/
def keyOnlyText : Str := ascii "[Interface]\nPrivateKey=" ++ sampleKeyText

def keyOnlyConfig : Config where
  name := ascii "home"
  interface := { Interface.start with privateKey := sampleKey }
  peers := []

theorem keyOnlyText_parses : fromWgQuick keyOnlyText (ascii "home") = .ok keyOnlyConfig := by decide +kernel

def colonText : Str :=
  ascii "[Interface]\nPrivateKey=" ++ sampleKeyText ++ ascii "\n[Peer]\nPublicKey=" ++
    sampleKeyText ++ ascii "\nEndpoint=:abc:80"

def colonConfig : Config where
  name := ascii "home"
  interface := { Interface.start with privateKey := sampleKey }
  peers := [{ Peer.zero with publicKey := sampleKey, endpoint := ⟨ascii ":abc", 80⟩ }]

/-- The endpoint `:abc:80` is accepted, printed as `[:abc]:80` and then refused. -/
theorem fromWgQuick_colon_unstable :
    fromWgQuick colonText (ascii "home") = .ok colonConfig ∧
      ∀ c', fromWgQuick (toWgQuick colonConfig) (ascii "home") ≠ .ok c' := by
  refine ⟨by decide +kernel, fun c' h => ?_⟩
  have herr : (fromWgQuick (toWgQuick colonConfig) (ascii "home")).toOption = none := by
    decide +kernel
  rw [h] at herr
  cases herr

end SmartAwg.Conf
