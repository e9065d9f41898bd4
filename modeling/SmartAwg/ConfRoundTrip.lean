import SmartAwg.ConfValues

/-! Reading what `ToWgQuick` wrote. A printable profile is read back as itself, up to what the
text does not hold: traffic counters, a keepalive of zero, the port of an absent endpoint
and the order of the packet map. -/
namespace SmartAwg.Conf
open Go

theorem rangeBoundary_ok (part : Str) (bits n : Nat) (h : rangeBoundary part bits = .ok n) :
    part ≠ [] ∧ ∀ b ∈ part, isDigit b = true := by
  unfold rangeBoundary at h
  split at h
  · cases h
  · rename_i hne
    split at h
    · rename_i hall
      exact ⟨hne, List.all_eq_true.mp hall⟩
    · cases h

/-- A range is digits with at most one minus sign between them. -/
theorem parseAWGRange_bytes (value : Str) (bits : Nat) (r : Nat × Nat)
    (h : parseAWGRange value bits = .ok r) :
    (∃ b t, value = b :: t ∧ isDigit b = true) ∧ ∀ b ∈ value, isDigit b = true ∨ b = 0x2D := by
  have hjoin : List.intercalate [0x2D] (value.splitOn 0x2D) = value := List.intercalate_splitOn 0x2D
  unfold parseAWGRange at h
  split at h
  · rename_i part hsplit
    rw [hsplit, List.intercalate_singleton] at hjoin
    cases hpart : rangeBoundary part bits with
    | error e =>
      rw [hpart] at h
      cases h
    | ok n =>
      obtain ⟨hne, hall⟩ := rangeBoundary_ok part bits n hpart
      obtain ⟨b, t, hbt⟩ := List.exists_cons_of_ne_nil hne
      subst hjoin
      exact ⟨⟨b, t, hbt, hall b (by simp [hbt])⟩, fun c hc => Or.inl (hall c hc)⟩
  · rename_i first second hsplit
    rw [hsplit, List.intercalate_cons_cons, List.intercalate_singleton] at hjoin
    cases hfirst : rangeBoundary first bits with
    | error e =>
      rw [hfirst] at h
      cases h
    | ok lo =>
      cases hsecond : rangeBoundary second bits with
      | error e =>
        rw [hfirst, hsecond] at h
        cases h
      | ok hi =>
        obtain ⟨hne, hall⟩ := rangeBoundary_ok first bits lo hfirst
        obtain ⟨-, hall'⟩ := rangeBoundary_ok second bits hi hsecond
        obtain ⟨b, t, hbt⟩ := List.exists_cons_of_ne_nil hne
        subst hjoin
        refine ⟨⟨b, t ++ [0x2D] ++ second, by simp [hbt], hall b (by simp [hbt])⟩, fun c hc => ?_⟩
        simp only [List.append_assoc, List.mem_append, List.mem_singleton] at hc
        rcases hc with hc | hc | hc
        · exact Or.inl (hall c hc)
        · exact Or.inr hc
        · exact Or.inl (hall' c hc)
  · cases h

theorem parseAWGRange_plain (value : Str) (bits : Nat) (r : Nat × Nat)
    (h : parseAWGRange value bits = .ok r) : PlainText value := by
  intro b hb
  rcases (parseAWGRange_bytes value bits r h).2 b hb with hd | rfl
  · exact isPlain_of_written b (Or.inr (Or.inl (by simp [isAddrByte, isDigit_isHex b hd])))
  · decide

theorem equalFold_off_of_digit (b : UInt8) (s : Str) (h : isDigit b = true) :
    equalFold (b :: s) (ascii "off") = false := by
  have hdigit : ∀ b : UInt8, isDigit b = true → b < 0x80 ∧ foldRune b.toNat ≠ 0x6F := by
    refine byte_forall (fun b => isDigit b = true → b < 0x80 ∧ foldRune b.toNat ≠ 0x6F) ?_
    decide +kernel
  obtain ⟨hascii, hfold⟩ := hdigit b h
  have hoff : (runes (ascii "off")).map foldRune = [0x6F, 0x66, 0x66] := by decide +kernel
  rw [Bool.eq_false_iff, ne_eq, equalFold_iff, runes_cons_ascii b s hascii, hoff, List.map_cons]
  intro heq
  exact hfold (List.cons.inj heq).1

theorem parsePersistentKeepalive_range (s : Str) (r : Nat × Nat)
    (h : parseAWGRange s 16 = .ok r) : parsePersistentKeepalive s = .ok s := by
  obtain ⟨b, t, rfl, hb⟩ := (parseAWGRange_bytes s 16 r h).1
  simp [parsePersistentKeepalive, equalFold_off_of_digit b t hb, h]

theorem validateKeepalives_iff (peers : List Peer) :
    validateKeepalives peers = .ok () ↔
      ∀ p ∈ peers, p.persistentKeepalive = [] ∨
        ∃ k, parsePersistentKeepalive p.persistentKeepalive = .ok k := by
  induction peers with
  | nil => simp [validateKeepalives]
  | cons p peers ih =>
    rw [validateKeepalives, List.forall_mem_cons, ← ih]
    by_cases hnil : p.persistentKeepalive = []
    · simp [hnil]
    · cases hparse : parsePersistentKeepalive p.persistentKeepalive <;> simp [hnil]

theorem validatePackets_iff (entries : List (Sigma fun _ : Str => Str)) :
    validatePackets entries = .ok () ↔
      ∀ e ∈ entries, (∃ name ∈ packetNames, ascii name = e.1) ∧ validateCPS e.2 = .ok () := by
  induction entries with
  | nil => simp [validatePackets]
  | cons e entries ih =>
    obtain ⟨key, spec⟩ := e
    rw [validatePackets, List.forall_mem_cons, ← ih]
    cases hfind : packetNames.find? fun name => ascii name == key with
    | none =>
      have hnone := List.find?_eq_none.mp hfind
      simp only [beq_iff_eq] at hnone
      simp only [reduceCtorEq, false_iff, not_and]
      rintro ⟨⟨name, hmem, hname⟩, -⟩ -
      exact hnone name hmem hname
    | some name =>
      have hmem := List.mem_of_find?_eq_some hfind
      have hname : ascii name = key := by simpa using List.find?_some hfind
      have hex : ∃ name ∈ packetNames, ascii name = key := ⟨name, hmem, hname⟩
      cases hcps : validateCPS spec <;> simp [hex]

/-- The checks of `ValidateAWG`, one by one. -/
structure ValidAWG (c : Config) : Prop where
  jmin : ¬ c.interface.junkPacketMinSize > c.interface.junkPacketMaxSize
  jmax : ¬ c.interface.junkPacketMaxSize > 65507
  padding : validatePadding (!c.interface.headerProtectionKey.isZero) 0 c.interface.paddings = .ok ()
  headers : validateHeaders [] c.interface.headers = .ok ()
  timers : validateEach (parseAWGRange · 16) c.interface.timers = .ok ()
  switches : validateEach parseAWGBool c.interface.switches = .ok ()
  keepalives : validateKeepalives c.peers = .ok ()
  packets : validatePackets c.interface.ipackets.entries = .ok ()

theorem validateAWG_iff (c : Config) : validateAWG c = .ok () ↔ ValidAWG c := by
  unfold validateAWG
  simp only
  constructor
  · intro h
    split at h
    · cases h
    split at h
    · cases h
    rename_i hmin hmax
    obtain ⟨_, h1, h⟩ := (Outcome.bind_eq_ok _ _ _).mp h
    obtain ⟨_, h2, h⟩ := (Outcome.bind_eq_ok _ _ _).mp h
    obtain ⟨_, h3, h⟩ := (Outcome.bind_eq_ok _ _ _).mp h
    obtain ⟨_, h4, h⟩ := (Outcome.bind_eq_ok _ _ _).mp h
    obtain ⟨_, h5, h⟩ := (Outcome.bind_eq_ok _ _ _).mp h
    rw [Outcome.ofExcept_eq_ok] at h1 h2 h3 h4 h5
    exact ⟨hmin, hmax, h1, h2, h3, h4, h5, h⟩
  · rintro ⟨hmin, hmax, h1, h2, h3, h4, h5, h6⟩
    rw [if_neg hmin, if_neg hmax, h1, h2, h3, h4, h5]
    exact h6

structure Interface.Printable (i : Interface) : Prop where
  mtu : 576 ≤ i.mtu.toNat
  text : ∀ k : TextKey, CleanText (k.get i)
  packet : ∀ k : PacketKey, CleanText (i.packet k)
  addresses : ∀ a ∈ i.addresses, a.Fits
  dns : ∀ ip ∈ i.dns, ip.length = 16
  dnsSearch : ∀ d ∈ i.dnsSearch, ListPart d ∧ parseIP d = none

structure Peer.Printable (p : Peer) : Prop where
  publicKey : p.publicKey.isZero = false
  allowedIPs : ∀ a ∈ p.allowedIPs, a.Fits
  endpoint : p.endpoint.host = [] ∨ CleanText p.endpoint.string
  keepalive : p.persistentKeepalive = [] ∨
    ∃ r, parseAWGRange p.persistentKeepalive 16 = .ok r

/-- The endpoint, if there is one, is what is read from its text. -/
def Peer.EndpointReads (p : Peer) : Prop :=
  p.endpoint.host = [] ∨ parseEndpoint p.endpoint.string = .ok p.endpoint

/-- The packet map with one more description, unless it is empty. -/
def Interface.addPacket (src : Interface) (m : StringMap) (k : PacketKey) : StringMap :=
  if src.packet k = [] then m else m.insert (ascii k.name) (src.packet k)

/-- What is left of an interface after writing and reading it. -/
def Interface.reread (i : Interface) : Interface :=
  { i with ipackets := PacketKey.all.foldl i.addPacket ∅ }

/-- What is left of a peer after writing and reading it. -/
def Peer.reread (p : Peer) : Peer :=
  { p with
    endpoint := if p.endpoint.host = [] then Endpoint.empty else p.endpoint
    persistentKeepalive :=
      if p.persistentKeepalive = ascii "0" ∨ p.persistentKeepalive = ascii "off" then []
      else p.persistentKeepalive
    rxBytes := 0
    txBytes := 0
    lastHandshakeTime := 0 }

def Config.reread (c : Config) : Config :=
  { c with interface := c.interface.reread, peers := c.peers.map Peer.reread }

theorem endpoint_string_ne_nil (e : Endpoint) : e.string ≠ [] := by
  unfold Endpoint.string
  split <;> simp

section values
variable {κ : Type} (key : κ)

/-- What is asked of the value of every written line. -/
def GoodEntry (e : κ × Str) : Prop := CleanText e.2 ∧ e.2 ≠ []

theorem numEntry_good (v : UInt16) : ∀ e ∈ numEntry key v, GoodEntry e := by
  unfold numEntry
  split
  · simp [GoodEntry, (itoa_plain _).clean, itoa_ne_nil]
  · simp

theorem textEntry_good (v : Str) (h : CleanText v) : ∀ e ∈ textEntry key v, GoodEntry e := by
  unfold textEntry
  split
  · rename_i hlen
    simpa [GoodEntry, h] using List.ne_nil_of_length_pos hlen
  · simp

theorem keyEntry_good (k : Key) : ∀ e ∈ keyEntry key k, GoodEntry e := by
  unfold keyEntry
  split
  · simp [GoodEntry, (key_string_plain k).clean, key_string_ne_nil]
  · simp

theorem listEntry_good (vs : List Str) (h : ∀ v ∈ vs, ListPart v) :
    ∀ e ∈ listEntry key vs, GoodEntry e := by
  unfold listEntry
  split
  · rename_i hlen
    simpa [GoodEntry, join_clean vs h] using
      join_ne_nil vs (List.ne_nil_of_length_pos hlen) fun v hv => (h v hv).2.1
  · simp

end values

theorem flatMap_good {κ α : Type} (ks : List α) (f : α → List (κ × Str))
    (h : ∀ k ∈ ks, ∀ e ∈ f k, GoodEntry e) : ∀ e ∈ ks.flatMap f, GoodEntry e := by
  intro e he
  obtain ⟨k, hk, hek⟩ := List.mem_flatMap.mp he
  exact h k hk e hek

theorem dns_listPart (i : Interface) (h : i.Printable) :
    ∀ v ∈ i.dns.map ipString ++ i.dnsSearch, ListPart v := by
  intro v hv
  rcases List.mem_append.mp hv with hv | hv
  · obtain ⟨ip, hip, rfl⟩ := List.mem_map.mp hv
    have hlen := h.dns ip hip
    have hplain : PlainText (ipString ip) := fun b hb =>
      isPlain_of_written b (Or.inr (Or.inl (ipString_bytes ip (Or.inr hlen) b hb)))
    refine hplain.listPart fun hnil => ?_
    have := parseIP_ipString_sixteen ip hlen
    rw [hnil] at this
    cases this
  · exact (h.dnsSearch v hv).1

theorem interface_entries_good (i : Interface) (h : i.Printable) :
    ∀ e ∈ i.entries, GoodEntry e := by
  intro e he
  obtain ⟨group, hgroup, he⟩ := List.mem_flatten.mp he
  simp only [Interface.entryGroups, List.mem_cons, List.not_mem_nil, or_false] at hgroup
  rcases hgroup with rfl | rfl | rfl | rfl | rfl | rfl | rfl | rfl | rfl | rfl | rfl | rfl
  · rw [List.mem_singleton.mp he]
    exact ⟨(key_string_plain _).clean, key_string_ne_nil _⟩
  · exact numEntry_good _ _ e he
  · exact flatMap_good _ _ (fun k _ => numEntry_good _ _) e he
  · exact flatMap_good _ _ (fun k _ => textEntry_good _ _ (h.text k)) e he
  · exact flatMap_good _ _ (fun k _ => textEntry_good _ _ (h.packet k)) e he
  · exact keyEntry_good _ _ e he
  · exact flatMap_good _ _ (fun k _ => textEntry_good _ _ (h.text k)) e he
  · exact listEntry_good _ _ (ipCidr_listPart _ h.addresses) e he
  · exact listEntry_good _ _ (dns_listPart i h) e he
  · exact numEntry_good _ _ e he
  · exact flatMap_good _ _ (fun k _ => textEntry_good _ _ (h.text k)) e he
  · split at he
    · rw [List.mem_singleton.mp he]
      exact ⟨by decide, by decide⟩
    · cases he

theorem peer_entries_good (p : Peer) (h : p.Printable) : ∀ e ∈ p.entries, GoodEntry e := by
  intro e he
  obtain ⟨group, hgroup, he⟩ := List.mem_flatten.mp he
  simp only [Peer.entryGroups, List.mem_cons, List.not_mem_nil, or_false] at hgroup
  rcases hgroup with rfl | rfl | rfl | rfl | rfl
  · rw [List.mem_singleton.mp he]
    exact ⟨(key_string_plain _).clean, key_string_ne_nil _⟩
  · exact keyEntry_good _ _ e he
  · exact listEntry_good _ _ (ipCidr_listPart _ h.allowedIPs) e he
  · split at he
    · rename_i hhost
      rw [List.mem_singleton.mp he]
      rcases h.endpoint with hnil | hclean
      · simp [Endpoint.isEmpty, hnil] at hhost
      · exact ⟨hclean, endpoint_string_ne_nil _⟩
    · cases he
  · split at he
    · rename_i hka
      rw [List.mem_singleton.mp he]
      rcases h.keepalive with hnil | ⟨r, hr⟩
      · simp [hnil] at hka
      · exact ⟨(parseAWGRange_plain _ _ r hr).clean, List.ne_nil_of_length_pos hka.1⟩
    · cases he

end SmartAwg.Conf
