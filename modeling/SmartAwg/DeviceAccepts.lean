import SmartAwg.DeviceMerge

/-!
Which accepted profiles the device accepts. The device's reader takes lines of less than 64 KiB,
while the validator bounds packet descriptions by 256 KiB and ranges only by their value, so a
profile is accepted exactly when the lines of these texts fit.
-/

namespace SmartAwg.Conf

open Go

/-- The texts the validator does not bound by the length of a line, with their keys. -/
def Interface.longTexts (i : Interface) : List UapiEntry :=
  [("h1", i.initPacketMagicHeader),
   ("h2", i.responsePacketMagicHeader),
   ("h3", i.underloadPacketMagicHeader),
   ("h4", i.transportPacketMagicHeader),
   ("content_padding_addition", i.contentPaddingAddition),
   ("rekey_after_time", i.rekeyAfterTime),
   ("rekey_timeout", i.rekeyTimeout),
   ("reject_after_time", i.rejectAfterTime),
   ("keepalive_timeout", i.keepaliveTimeout),
   ("max_handshake_attempts", i.maxHandshakeAttempts)] ++
    PacketKey.all.map fun k => (k.name, i.packet k)

def Config.longTexts (c : Config) : List UapiEntry :=
  c.interface.longTexts ++ c.peers.map fun p => ("persistent_keepalive_interval", p.uapiKeepalive)

/-- The lines of these texts fit into the buffer of the device's reader. -/
def Config.LinesFit (c : Config) : Prop :=
  ∀ e ∈ c.longTexts, (uapiLine e).length < maxScanTokenSize

instance (c : Config) : Decidable c.LinesFit :=
  inferInstanceAs (Decidable (∀ e ∈ c.longTexts, (uapiLine e).length < maxScanTokenSize))

end SmartAwg.Conf

namespace SmartAwg.Awg

open Go Conf

section lines

/-- A key that is short and has no line feed in it. -/
def ShortLabel (label : String) : Prop := (ascii label).length ≤ 64 ∧ 0x0A ∉ ascii label

instance (label : String) : Decidable (ShortLabel label) :=
  inferInstanceAs (Decidable ((ascii label).length ≤ 64 ∧ 0x0A ∉ ascii label))

/-- A line that is scanned as it was written, if it is not one of the long texts. -/
structure Scannable (long : List UapiEntry) (e : UapiEntry) : Prop where
  label : ShortLabel e.1
  value : CleanText e.2
  fits : e ∈ long ∨ e.2.length ≤ 128

theorem CleanText.no_cr {v : Str} (h : CleanText v) : v.getLast? ≠ some 0x0D := by
  intro hlast
  refine h.1.2 [0x0D] (by decide) ?_
  obtain ⟨init, rfl⟩ := List.getLast?_eq_some_iff.mp hlast
  exact ⟨init, rfl⟩

variable {long : List UapiEntry} {e : UapiEntry}

theorem Scannable.no_newline (h : Scannable long e) : 0x0A ∉ uapiLine e := by
  simp only [uapiLine, List.mem_append, List.mem_cons, not_or]
  exact ⟨h.label.2, by decide, h.value.2.1⟩

theorem Scannable.no_cr (h : Scannable long e) : (uapiLine e).getLast? ≠ some 0x0D := by
  rw [uapiLine, List.getLast?_append, List.getLast?_cons]
  cases hlast : e.2.getLast? with
  | none => simp
  | some b =>
    have := CleanText.no_cr h.value
    simpa [hlast] using this

theorem uapiLine_length (e : UapiEntry) : (uapiLine e).length = (ascii e.1).length + 1 + e.2.length := by
  simp only [uapiLine, List.length_append, List.length_cons]
  omega

theorem Scannable.length_lt (h : Scannable long e)
    (hlong : ∀ x ∈ long, (uapiLine x).length < maxScanTokenSize) :
    (uapiLine e).length < maxScanTokenSize := by
  rcases h.fits with hmem | hshort
  · exact hlong e hmem
  · have := h.label.1
    rw [uapiLine_length, maxScanTokenSize]
    omega

theorem hexString_plain (k : Key) : PlainText k.hexString := fun b hb =>
  isPlain_of_written b (Or.inr (Or.inl (by simp [isAddrByte, isHex, hexEncode_hexVal _ b hb])))

variable {label : String} (hl : ShortLabel label)
include hl

theorem uapiNum_scannable (v : UInt16) : ∀ e ∈ uapiNum label v, Scannable long e := by
  intro e he
  have hv := v.toNat_lt
  unfold uapiNum at he
  split at he
  · rw [List.mem_singleton.mp he]
    have hlen := (digits_length_le 10 v.toNat 5 (by decide) (by decide)).mpr (by omega)
    exact ⟨hl, (itoa_plain _).clean, Or.inr (hlen.trans (by decide))⟩
  · cases he

theorem hexString_scannable (k : Key) : Scannable long (label, k.hexString) := by
  refine ⟨hl, (hexString_plain k).clean, Or.inr ?_⟩
  rw [Key.hexString, hexEncode_length, k.length_eq]
  decide

theorem uapiKey_scannable (k : Key) : ∀ e ∈ uapiKey label k, Scannable long e := by
  intro e he
  unfold uapiKey at he
  split at he
  · rw [List.mem_singleton.mp he]
    exact hexString_scannable hl k
  · cases he

theorem uapiBool_scannable (v : Str) : ∀ e ∈ uapiBool label v, Scannable long e := by
  have hdigit : ∀ w, w = ascii "1" ∨ w = ascii "0" → CleanText w ∧ w.length ≤ 128 := by
    rintro w (rfl | rfl) <;> decide +kernel
  intro e he
  unfold uapiBool at he
  split at he
  · rw [List.mem_singleton.mp he]
    have hw := hdigit (boolToUAPI v) (by unfold boolToUAPI; split <;> simp)
    exact ⟨hl, hw.1, Or.inr hw.2⟩
  · cases he

theorem uapiText_scannable (v : Str) (hv : CleanText v) (hmem : (label, v) ∈ long) :
    ∀ e ∈ uapiText label v, Scannable long e := by
  intro e he
  unfold uapiText at he
  split at he
  · rw [List.mem_singleton.mp he]
    exact ⟨hl, hv, Or.inl hmem⟩
  · cases he

end lines

section entries

-- Every key the writer uses.
def uapiLabels : List String :=
  deviceKeys.map Prod.fst ++ "public_key" :: peerLineKeys.map Prod.fst

theorem uapiLabels_short : ∀ label ∈ uapiLabels, ShortLabel label := by decide +kernel

theorem packet_mem_longTexts (i : Interface) (k : PacketKey) : (k.name, i.packet k) ∈ i.longTexts :=
  List.mem_append_right _ (List.mem_map_of_mem (packetKey_mem_all k))

theorem packet_name_label (k : PacketKey) : k.name ∈ uapiLabels := by
  cases k <;> decide

theorem interface_scannable (i : Interface) (h : i.Printable) :
    ∀ g ∈ i.uapiGroups, ∀ e ∈ g, Scannable i.longTexts e := by
  have hl : ∀ label ∈ uapiLabels, ShortLabel label := uapiLabels_short
  have htext : ∀ (label : String) (k : TextKey), label ∈ uapiLabels →
      (label, k.get i) ∈ i.longTexts → ∀ e ∈ uapiText label (k.get i), Scannable i.longTexts e :=
    fun label k hmem hlong => uapiText_scannable (hl label hmem) _ (h.text k) hlong
  have hpacket : ∀ e ∈ PacketKey.all.flatMap fun k => uapiText k.name (i.packet k),
      Scannable i.longTexts e := by
    intro e he
    obtain ⟨k, -, he⟩ := List.mem_flatMap.mp he
    exact uapiText_scannable (hl _ (packet_name_label k)) _ (h.packet k) (packet_mem_longTexts i k) e he
  simp only [Interface.uapiGroups, List.forall_mem_cons, List.not_mem_nil, false_imp_iff, implies_true,
    and_true]
  exact ⟨hexString_scannable (hl _ (by decide)) _,
    uapiNum_scannable (hl _ (by decide)) _, uapiNum_scannable (hl _ (by decide)) _,
    uapiNum_scannable (hl _ (by decide)) _, uapiNum_scannable (hl _ (by decide)) _,
    uapiNum_scannable (hl _ (by decide)) _, uapiNum_scannable (hl _ (by decide)) _,
    uapiNum_scannable (hl _ (by decide)) _, uapiNum_scannable (hl _ (by decide)) _,
    htext "h1" .h1 (by decide) (by simp [Interface.longTexts, TextKey.get]),
    htext "h2" .h2 (by decide) (by simp [Interface.longTexts, TextKey.get]),
    htext "h3" .h3 (by decide) (by simp [Interface.longTexts, TextKey.get]),
    htext "h4" .h4 (by decide) (by simp [Interface.longTexts, TextKey.get]),
    hpacket, uapiKey_scannable (hl _ (by decide)) _,
    htext _ .contentPaddingAddition (by decide) (by simp [Interface.longTexts, TextKey.get]),
    htext _ .rekeyAfterTime (by decide) (by simp [Interface.longTexts, TextKey.get]),
    htext _ .rekeyTimeout (by decide) (by simp [Interface.longTexts, TextKey.get]),
    htext _ .rejectAfterTime (by decide) (by simp [Interface.longTexts, TextKey.get]),
    htext _ .keepaliveTimeout (by decide) (by simp [Interface.longTexts, TextKey.get]),
    htext _ .maxHandshakeAttempts (by decide) (by simp [Interface.longTexts, TextKey.get]),
    uapiBool_scannable (hl _ (by decide)) _, uapiBool_scannable (hl _ (by decide)) _⟩

/-- The text of a resolved address. -/
structure AddressText (t : Str) : Prop where
  plain : PlainText t
  length_le : t.length ≤ 64

theorem ipString_addressText (ip : Str) (h : ip.length = 4 ∨ ip.length = 16) :
    AddressText (ipString ip) :=
  ⟨fun b hb => isPlain_of_written b (Or.inr (Or.inl (ipString_bytes ip h b hb))),
    (ipString_length_le ip h).trans (by decide)⟩

theorem inet6Text_addressText (ip : Str) (scope : UInt32) (h : ip.length = 16) :
    AddressText (inet6Text ip scope) := by
  have hip := ipString_addressText ip (Or.inr h)
  have hlen := ipString_length_le ip (Or.inr h)
  unfold inet6Text
  split
  · have hscope := (digits_length_le 10 scope.toNat 10 (by decide) (by decide)).mpr
      (Nat.lt_trans scope.toNat_lt (by decide))
    constructor
    · intro b hb
      rcases List.mem_append.mp hb with hb | hb
      · exact hip.plain b hb
      · rcases List.mem_cons.mp hb with rfl | hb
        · decide
        · exact itoa_plain _ b hb
    · rw [List.length_append, List.length_cons, itoa]
      omega
  · rw [List.append_nil]
    exact hip

theorem Literal.addressText {t : Str} (h : Literal t) : AddressText t := by
  cases h with
  | inet4 addr haddr => exact ipString_addressText addr (Or.inl haddr)
  | inet6 addr scope haddr => exact inet6Text_addressText addr scope haddr

theorem endpoint_scannable (long : List UapiEntry) (e : Endpoint) (h : AddressText e.host) :
    Scannable long ("endpoint", e.string) := by
  have hport := (digits_length_le 10 e.port.toNat 5 (by decide) (by decide)).mpr
    (Nat.lt_trans e.port.toNat_lt (by decide))
  have hhost := h.length_le
  have hplain : PlainText e.string := by
    intro b hb
    unfold Endpoint.string at hb
    split at hb
    · simp only [List.mem_cons, List.mem_append] at hb
      rcases hb with rfl | hb | rfl | rfl | hb
      · decide
      · exact h.plain b hb
      · decide
      · decide
      · exact itoa_plain _ b hb
    · simp only [List.mem_cons, List.mem_append] at hb
      rcases hb with hb | rfl | hb
      · exact h.plain b hb
      · decide
      · exact itoa_plain _ b hb
  refine ⟨uapiLabels_short "endpoint" (by decide), hplain.clean, Or.inr ?_⟩
  rw [← itoa] at hport
  unfold Endpoint.string
  split <;> simp only [List.length_cons, List.length_append] <;> omega

theorem allowedIP_scannable (long : List UapiEntry) (a : IPCidr) (h : a.Fits) :
    Scannable long ("allowed_ip", a.string) := by
  have hip := ipString_length_le a.ip h.length
  have hcidr := (digits_length_le 10 a.cidr.toNat 3 (by decide) (by decide)).mpr
    (Nat.lt_trans a.cidr.toNat_lt (by decide))
  refine ⟨uapiLabels_short "allowed_ip" (by decide), (ipCidr_string_plain a h).clean, Or.inr ?_⟩
  rw [← itoa] at hcidr
  rw [IPCidr.string, List.length_append, List.length_cons]
  omega

theorem peer_scannable (long : List UapiEntry) (p : Peer) (hp : p.Printable) (e : Option Endpoint)
    (he : ∀ x ∈ e, AddressText x.host)
    (hmem : ("persistent_keepalive_interval", p.uapiKeepalive) ∈ long) :
    ∀ g ∈ p.uapiGroups e, ∀ x ∈ g, Scannable long x := by
  have hl : ∀ label ∈ uapiLabels, ShortLabel label := uapiLabels_short
  obtain ⟨r, hr⟩ := uapiKeepalive_range p hp.keepalive
  have hendpoint : ∀ x ∈ e.toList.map fun e => ("endpoint", e.string), Scannable long x := by
    intro x hx
    obtain ⟨y, hy, rfl⟩ := List.mem_map.mp hx
    exact endpoint_scannable long y (he y (Option.mem_toList.mp hy))
  have hkeepalive : Scannable long ("persistent_keepalive_interval", p.uapiKeepalive) :=
    ⟨hl "persistent_keepalive_interval" (by decide), (parseAWGRange_plain _ 16 r hr).clean, Or.inl hmem⟩
  have hallowed : ∀ x ∈ (if p.allowedIPs.length > 0 then
      ("replace_allowed_ips", ascii "true") :: p.allowedIPs.map fun a => ("allowed_ip", a.string)
      else []), Scannable long x := by
    intro x hx
    split at hx
    · rcases List.mem_cons.mp hx with rfl | hx
      · exact ⟨hl _ (by decide), by decide +kernel, Or.inr (by decide +kernel)⟩
      · obtain ⟨a, ha, rfl⟩ := List.mem_map.mp hx
        exact allowedIP_scannable long a (hp.allowedIPs a ha)
    · cases hx
  simp only [Peer.uapiGroups, List.forall_mem_cons, List.not_mem_nil, false_imp_iff, implies_true,
    and_true]
  exact ⟨hexString_scannable (hl _ (by decide)) _, uapiKey_scannable (hl _ (by decide)) _, hendpoint,
    hkeepalive, hallowed⟩

theorem peersUapi_cons_ok (resolve : Str → Except ResolveError Str) (p : Peer) (ps : List Peer)
    (es : List UapiEntry) (h : peersUapi resolve (p :: ps) = .ok es) :
    ∃ e rest, p.resolve resolve = .ok e ∧ peersUapi resolve ps = .ok rest ∧
      es = (p.uapiGroups e).flatten ++ rest := by
  unfold peersUapi at h
  split at h
  · cases h
  · rename_i e he
    cases hps : peersUapi resolve ps with
    | error x =>
      rw [hps] at h
      cases h
    | ok rest =>
      rw [hps] at h
      exact ⟨e, rest, he, rfl, (Except.ok.inj h).symm⟩

theorem resolve_addressText (r : Resolver) (p : Peer) (e : Option Endpoint)
    (h : p.resolve (resolveHostname r) = .ok e) : ∀ x ∈ e, AddressText x.host := by
  intro x hx
  unfold Peer.resolve at h
  split at h
  · cases h
    cases hx
  split at h
  · cases h
  · rename_i ip hip
    cases h
    cases hx
    exact (resolveLoop_literal r _ ip _ _ hip).addressText

theorem peers_scannable (r : Resolver) (long : List UapiEntry) (ps : List Peer)
    (hp : ∀ p ∈ ps, p.Printable)
    (hmem : ∀ p ∈ ps, ("persistent_keepalive_interval", p.uapiKeepalive) ∈ long)
    (es : List UapiEntry) (h : peersUapi (resolveHostname r) ps = .ok es) :
    ∀ x ∈ es, Scannable long x := by
  induction ps generalizing es with
  | nil =>
    cases h
    simp
  | cons p ps ih =>
    obtain ⟨e, rest, he, hrest, rfl⟩ := peersUapi_cons_ok _ p ps es h
    intro x hx
    rcases List.mem_append.mp hx with hx | hx
    · obtain ⟨g, hg, hx⟩ := List.mem_flatten.mp hx
      exact peer_scannable long p (hp p (by simp)) e (resolve_addressText r p e he) (hmem p (by simp))
        g hg x hx
    · exact ih (fun q hq => hp q (by simp [hq])) (fun q hq => hmem q (by simp [hq])) rest hrest x hx

theorem Scannable.weaken {long long' : List UapiEntry} {e : UapiEntry} (h : Scannable long e)
    (hsub : ∀ x ∈ long, x ∈ long') : Scannable long' e :=
  ⟨h.label, h.value, h.fits.imp (hsub e) id⟩

theorem config_scannable (r : Resolver) (c : Config) (hi : c.interface.Printable)
    (hp : ∀ p ∈ c.peers, p.Printable) (es : List UapiEntry)
    (h : peersUapi (resolveHostname r) c.peers = .ok es) :
    ∀ x ∈ c.uapiEntries es, Scannable c.longTexts x := by
  intro x hx
  rcases List.mem_append.mp hx with hx | hx
  · obtain ⟨g, hg, hx⟩ := List.mem_flatten.mp hx
    exact (interface_scannable c.interface hi g hg x hx).weaken fun y hy =>
      List.mem_append_left _ hy
  rcases List.mem_append.mp hx with hx | hx
  · split at hx
    · rw [List.mem_singleton.mp hx]
      exact ⟨uapiLabels_short _ (by decide), by decide +kernel, Or.inr (by decide +kernel)⟩
    · cases hx
  · exact peers_scannable r _ c.peers hp
      (fun p hmem => List.mem_append_right _ (List.mem_map.mpr ⟨p, hmem, rfl⟩)) es h x hx

theorem longTexts_label (c : Config) : ∀ e ∈ c.longTexts, ShortLabel e.1 := by
  intro e he
  refine uapiLabels_short _ ?_
  rcases List.mem_append.mp he with he | he
  · rcases List.mem_append.mp he with he | he
    · have hlabels : ∀ x ∈ c.interface.longTexts.take 10, x.1 ∈ uapiLabels := by
        simp only [Interface.longTexts, List.cons_append, List.take_succ_cons, List.take_zero,
          List.forall_mem_cons]
        decide
      exact hlabels e (by simpa [Interface.longTexts] using he)
    · obtain ⟨k, -, rfl⟩ := List.mem_map.mp he
      exact packet_name_label k
  · obtain ⟨p, -, rfl⟩ := List.mem_map.mp he
    exact (by decide : "persistent_keepalive_interval" ∈ uapiLabels)

theorem keepalive_written (resolve : Str → Except ResolveError Str) (ps : List Peer) (p : Peer)
    (hp : p ∈ ps) (es : List UapiEntry) (h : peersUapi resolve ps = .ok es) :
    ("persistent_keepalive_interval", p.uapiKeepalive) ∈ es := by
  induction ps generalizing es with
  | nil => cases hp
  | cons q ps ih =>
    obtain ⟨e, rest, -, hrest, rfl⟩ := peersUapi_cons_ok resolve q ps es h
    rcases List.mem_cons.mp hp with rfl | hp
    · refine List.mem_append_left _ (List.mem_flatten.mpr
        ⟨[("persistent_keepalive_interval", p.uapiKeepalive)], ?_, List.mem_singleton_self _⟩)
      simp [Peer.uapiGroups]
    · exact List.mem_append_right _ (ih hp rest hrest)

/-- A long text that is not empty is written. -/
theorem longTexts_written (resolve : Str → Except ResolveError Str) (c : Config)
    (es : List UapiEntry) (h : peersUapi resolve c.peers = .ok es) (e : UapiEntry)
    (he : e ∈ c.longTexts) (hne : e.2 ≠ []) : e ∈ c.uapiEntries es := by
  have htext : ∀ label : String, ∀ v : Str, (label, v) = e → e ∈ uapiText label v := by
    rintro label v rfl
    rw [uapiText, if_pos (List.length_pos_iff.mpr hne)]
    exact List.mem_singleton_self _
  have hgroup : (∃ g ∈ c.interface.uapiGroups, e ∈ g) → e ∈ c.uapiEntries es := fun hg =>
    List.mem_append_left _ (List.mem_flatten.mpr hg)
  rcases List.mem_append.mp he with he | he
  · refine hgroup ?_
    rcases List.mem_append.mp he with he | he
    · simp only [List.mem_cons, List.not_mem_nil, or_false] at he
      simp only [Interface.uapiGroups, List.mem_cons, List.not_mem_nil, or_false, exists_eq_or_imp,
        exists_eq_left]
      rcases he with he | he | he | he | he | he | he | he | he | he
      all_goals
        have := htext _ _ he.symm
        simp only [this, true_or, or_true]
    · obtain ⟨k, hk, he⟩ := List.mem_map.mp he
      refine ⟨PacketKey.all.flatMap fun k => uapiText k.name (c.interface.packet k), ?_,
        List.mem_flatMap.mpr ⟨k, hk, htext _ _ he⟩⟩
      simp [Interface.uapiGroups]
  · refine List.mem_append_right _ (List.mem_append_right _ ?_)
    obtain ⟨p, hp, rfl⟩ := List.mem_map.mp he
    exact keepalive_written resolve c.peers p hp es h

end entries

section operation
variable {env : Env}

theorem ipcLoop_runEntries (tooLong : Bool) (es : List UapiEntry) (st st' : IpcState)
    (h : runEntries env st es = .ok st') :
    ipcLoop env tooLong st (es.map uapiLine) = ipcLoop env tooLong st' [] := by
  induction es generalizing st with
  | nil =>
    cases h
    rfl
  | cons e es ih =>
    unfold runEntries at h
    split at h
    · cases h
    · rename_i st1 hst1
      have hne : uapiLine e ≠ [] := by simp [uapiLine]
      rw [List.map_cons, ← ih st1 h, ipcLoop, if_neg hne, hst1]

/-- A scan that failed is reported, unless a line or the merge was refused before. -/
theorem ipcLoop_tooLong (lines : List Str) (hne : ∀ l ∈ lines, l ≠ []) (st : IpcState) :
    (ipcLoop env true st lines).2 ≠ none := by
  induction lines generalizing st with
  | nil =>
    unfold ipcLoop
    split <;> simp
  | cons l lines ih =>
    rw [ipcLoop, if_neg (hne l (by simp))]
    split
    · simp
    · exact ih (fun x hx => hne x (by simp [hx])) _

theorem entries_splitOn (es : List UapiEntry) (h : ∀ e ∈ es, 0x0A ∉ uapiLine e) :
    (es.flatMap fun e => uapiLine e ++ [0x0A]).splitOn 0x0A = es.map uapiLine ++ [[]] := by
  rw [← unlines_map, splitOn_unlines _ (List.forall_mem_map.mpr h)]

/-- The device accepts the text of a validated, printable configuration exactly when its long
lines fit. -/
theorem toUAPI_accepted_printable_iff (env : Env) (r : Resolver) (c : Config) (hi : c.interface.Printable)
    (hp : ∀ p ∈ c.peers, p.Printable) (hv : ValidAWG c) (hr : ∀ p ∈ c.peers, Resolves r p)
    (hpeers : c.peers.length ≤ 65535) (hbind : ∀ port, env.bindUpdate port = true)
    (henv : TakesEndpoints env) :
    ∃ text, toUAPI (resolveHostname r) c = .ok text ∧
      ((ipcSetOperation env Device.new text).2 = none ↔ c.LinesFit) := by
  obtain ⟨es, hes, htriple⟩ := triple_config r henv hbind c hv hp hr
    (hpeers.trans (by decide : 65535 ≤ maxPeers))
  have hscan := config_scannable r c hi hp es hes
  have hcr : ∀ l ∈ (c.uapiEntries es).map uapiLine, l.getLast? ≠ some 0x0D :=
    List.forall_mem_map.mpr fun e he => (hscan e he).no_cr
  refine ⟨(c.uapiEntries es).flatMap fun e => uapiLine e ++ [0x0A], ?_, ?_⟩
  · simp only [toUAPI, (validateAWG_iff c).mpr hv, hes]
  rw [ipcSetOperation, scanLines, entries_splitOn _ fun e he => (hscan e he).no_newline]
  constructor
  · intro hok e he
    by_contra hlong
    have hne : e.2 ≠ [] := by
      intro hnil
      have hlabel := (longTexts_label c e he).1
      rw [uapiLine_length, hnil, List.length_nil, maxScanTokenSize] at hlong
      omega
    have hmem := longTexts_written _ c es hes e he hne
    have herr := scanTokens_long ((c.uapiEntries es).map uapiLine) [] (uapiLine e)
      (List.mem_map_of_mem hmem) (Nat.not_lt.mp hlong)
    rw [herr] at hok
    refine ipcLoop_tooLong _ (fun l hl => ?_) _ hok
    obtain ⟨x, -, rfl⟩ := List.mem_map.mp (scanTokens_mem _ hcr l hl)
    simp [uapiLine]
  · intro hfit
    obtain ⟨st, hrun, hst⟩ := htriple (IpcState.start Device.new) ⟨rfl, rfl, rfl⟩
    rw [scanTokens_fit _ (List.forall_mem_map.mpr fun e he => (hscan e he).length_lt hfit) hcr]
    rw [ipcLoop_runEntries _ _ _ st hrun, ipcLoop]
    have hmerge := ipcFinish_ok st hst
    split
    · rename_i heq
      rw [heq] at hmerge
      cases hmerge
    · rfl

end operation

/-- A profile `FromWgQuick` returned, with resolved endpoints, is accepted by a new device exactly
when its long lines fit. -/
theorem toUAPI_accepted_iff (env : Env) (r : Resolver) (s name : Str) (c : Config)
    (hc : fromWgQuick s name = .ok c) (hr : ∀ p ∈ c.peers, Resolves r p)
    (hpeers : c.peers.length ≤ 65535) (hbind : ∀ port, env.bindUpdate port = true)
    (henv : TakesEndpoints env) :
    ∃ text, toUAPI (resolveHostname r) c = .ok text ∧
      ((ipcSetOperation env Device.new text).2 = none ↔ c.LinesFit) := by
  obtain ⟨-, -, hi, hv, hp⟩ := fromWgQuick_printable s name c hc
  exact toUAPI_accepted_printable_iff env r c hi hp hv hr hpeers hbind henv

section sample

/-- The socket layer of the standard bind, whose port is always free. -/
def sampleEnv : Env where
  publicKeyOf := fun sk => sk.map (· ^^^ 0xFF)
  bindUpdate := fun _ => true
  bindSetMark := fun _ => true
  parseEndpoint := parseAddrPort

theorem sampleEnv_takes : TakesEndpoints sampleEnv := by
  intro t port _ ht
  obtain ⟨a, ha⟩ := Option.isSome_iff_exists.mp ht
  exact Option.isSome_of_eq_some (parseAddrPort_of_parseAddr t a port ha)

/-- A resolver that knows one address. -/
def sampleResolver : Resolver where
  justBooted := false
  connected := fun _ => true
  query := fun _ _ => .ok [.inet4 ⟨[192, 0, 2, 7], rfl⟩]

theorem toUAPI_accepted_sample :
    let c := (sampleConfig (ascii "fe80::1%eth0")).reread
    fromWgQuick (toWgQuick (sampleConfig (ascii "fe80::1%eth0"))) (ascii "home") = .ok c ∧
      c.LinesFit ∧ ∃ text, toUAPI (resolveHostname sampleResolver) c = .ok text ∧
        (ipcSetOperation sampleEnv Device.new text).2 = none := by
  have hw := sampleConfig_wellFormed (ascii "]#%") (ascii "eth0") (by decide +kernel) (by decide +kernel)
  have h := wellFormed_reread _ hw
  have hfit : (sampleConfig (ascii "fe80::1%eth0")).reread.LinesFit := by decide +kernel
  have hresolve : ∀ p ∈ (sampleConfig (ascii "fe80::1%eth0")).reread.peers,
      Resolves sampleResolver p := by
    intro p hp _
    obtain rfl := List.mem_singleton.mp hp
    exact ⟨ascii "192.0.2.7", ⟨[192, 0, 2, 7], []⟩, by decide +kernel, by decide +kernel⟩
  obtain ⟨text, htext, hiff⟩ := toUAPI_accepted_iff sampleEnv sampleResolver _ _ _ h hresolve
    (by decide) (fun _ => rfl) sampleEnv_takes
  exact ⟨h, hfit, text, htext, hiff.mpr hfit⟩

/-- A packet of the given bytes. -/
def bytesPacket (data : Str) : Str := (0x3C :: (ascii "b 0x" ++ hexEncode data)) ++ [0x3E]

theorem bytesPacket_ne_nil (data : Str) : bytesPacket data ≠ [] := List.cons_ne_nil _ _

theorem bytesPacket_length (data : Str) : (bytesPacket data).length = 2 * data.length + 6 := by
  have htag : (ascii "b 0x").length = 4 := by decide
  rw [bytesPacket, List.length_append, List.length_cons, List.length_append, hexEncode_length, htag,
    List.length_singleton]
  omega

theorem hexEncode_solid (data : Str) : ∀ b ∈ hexEncode data, Solid b := fun b hb =>
  isAddrByte_solid b (by simp [isAddrByte, isHex, hexEncode_hexVal data b hb])

theorem bytesPacket_fields (data : Str) :
    fields (ascii "b 0x" ++ hexEncode data) = [ascii "b", ascii "0x" ++ hexEncode data] := by
  have hsolid : ∀ b ∈ ascii "0x" ++ hexEncode data, Solid b := by
    intro b hb
    rcases List.mem_append.mp hb with hb | hb
    · exact (by decide +kernel : ∀ b ∈ ascii "0x", Solid b) b hb
    · exact hexEncode_solid data b hb
  have hblank : (spaces.find? fun w => w.isPrefixOf (0x20 :: (ascii "0x" ++ hexEncode data))) =
      some [0x20] := rfl
  have hsplit : ascii "b 0x" ++ hexEncode data =
      0x62 :: 0x20 :: (ascii "0x" ++ hexEncode data) := rfl
  rw [fields, hsplit, fieldsFrom, find_spaces_of_solid 0x62 _ (by decide)]
  simp only
  rw [fieldsFrom, hblank]
  simp only
  rw [List.length_singleton, fieldsFrom_solid [] _ hsolid]
  rfl

theorem bytesPacket_tag (data : Str) (hne : data ≠ []) :
    cpsTag (ascii "b") (ascii "0x" ++ hexEncode data) 0 0 = .ok (data.length, 0) := by
  have hpos : 0 < data.length := List.length_pos_iff.mpr hne
  have hlen := hexEncode_length data
  have hfront : (ascii "0x").isPrefixOf (ascii "0x" ++ hexEncode data) = true := by
    rw [List.isPrefixOf_iff_prefix]
    exact List.prefix_append _ _
  have hdrop : (ascii "0x" ++ hexEncode data).drop 2 = hexEncode data := rfl
  have hok : ¬ (hexEncode data = [] ∨ (hexEncode data).length % 2 ≠ 0) := by
    rintro (hnil | hodd)
    · rw [hnil, List.length_nil] at hlen
      omega
    · omega
  have hlist : ascii "b" ∉ ["r", "rc", "rd", "dz"].map ascii := by decide
  simp only [cpsTag, if_neg hlist, if_true, hfront, hdrop, if_neg hok, hexDecode_encode]
  rw [hlen, Nat.mul_div_cancel_left _ (by decide : 0 < 2), Nat.zero_add]

theorem gt_not_mem_inside (data : Str) : 0x3E ∉ 0x3C :: (ascii "b 0x" ++ hexEncode data) := by
  intro h
  rcases List.mem_cons.mp h with h | h
  · exact absurd h (by decide)
  rcases List.mem_append.mp h with h | h
  · exact absurd h (by decide)
  · exact absurd (hexEncode_hexVal data _ h) (by decide)

theorem bytesPacket_trimmed (data : Str) : Trimmed (bytesPacket data) :=
  ⟨noLead_cons _ _ (by decide),
    noTrail_concat (0x3C :: (ascii "b 0x" ++ hexEncode data)) 0x3E (by decide)⟩

/-- A packet of bytes within the payload limit is valid. -/
theorem validateCPS_bytes (data : Str) (hne : data ≠ []) (hlen : data.length ≤ 65507) :
    validateCPS (bytesPacket data) = .ok () := by
  have hsize := bytesPacket_length data
  have hclose : indexByte (bytesPacket data) 0x3E =
      some (0x3C :: (ascii "b 0x" ++ hexEncode data)).length :=
    indexByte_append_cons (0x3C :: (ascii "b 0x" ++ hexEncode data)) [] 0x3E (gt_not_mem_inside data)
  have hslice : (slice (bytesPacket data) 1 (0x3C :: (ascii "b 0x" ++ hexEncode data)).length :
      Outcome Err Str) = .ok (ascii "b 0x" ++ hexEncode data) := by
    rw [slice_of_le _ _ _ (by simp) (by simp [bytesPacket]), bytesPacket, List.take_left]
    rfl
  have hrest : (sliceFrom (bytesPacket data)
      ((0x3C :: (ascii "b 0x" ++ hexEncode data)).length + 1) : Outcome Err Str) = .ok [] :=
    sliceFrom_append_cons _ [] _
  have hone : ∀ fuel, cpsLoop (fuel + 1) (bytesPacket data) 0 0 0 = .ok 1 := by
    intro fuel
    rw [cpsLoop, if_neg (bytesPacket_ne_nil data),
      show (index (bytesPacket data) 0 : Outcome Err UInt8) = .ok 0x3C from rfl, Outcome.ok_bind, if_neg (by decide), hclose]
    simp only
    rw [hslice, Outcome.ok_bind, cpsParts, bytesPacket_fields]
    simp only [Outcome.ofExcept, Outcome.ok_bind, bytesPacket_tag data hne]
    rw [if_neg (by omega), if_neg (by decide), hrest, Outcome.ok_bind]
    cases fuel <;> rfl
  rw [validateCPS, if_neg (by omega), trimSpace_of_trimmed _ (bytesPacket_trimmed data), hsize, hone]
  rfl

/-- A profile whose first packet has 40000 bytes. -/
def longConfig : Config where
  name := ascii "home"
  interface := { sampleInterface with
    ipackets := AList.singleton (ascii "i1") (bytesPacket (List.replicate 40000 0)) }
  peers := []

theorem longPacket_valid : validateCPS (bytesPacket (List.replicate 40000 0)) = .ok () := by
  have hlen : (List.replicate 40000 (0 : UInt8)).length = 40000 := List.length_replicate
  exact validateCPS_bytes _ (List.ne_nil_of_length_pos (by rw [hlen]; decide)) (by rw [hlen]; decide)

theorem bytesPacket_clean (data : Str) : CleanText (bytesPacket data) := by
  have hnot : ∀ b : UInt8, (hexVal b).isSome = false → b ∉ ascii "b 0x" → b ≠ 0x3C → b ≠ 0x3E →
      b ∉ bytesPacket data := by
    intro b hval htext hlt hgt hb
    simp only [bytesPacket, List.mem_cons, List.mem_append, List.not_mem_nil, or_false] at hb
    rcases hb with (hb | hb | hb) | hb
    · exact hlt hb
    · exact htext hb
    · rw [hexEncode_hexVal data b hb] at hval
      cases hval
    · exact hgt hb
  exact ⟨bytesPacket_trimmed data, hnot _ (by decide) (by decide) (by decide) (by decide),
    hnot _ (by decide) (by decide) (by decide) (by decide)⟩

theorem longConfig_valid : ValidAWG longConfig where
  jmin := (by decide : ¬ sampleInterface.junkPacketMinSize > sampleInterface.junkPacketMaxSize)
  jmax := (by decide : ¬ sampleInterface.junkPacketMaxSize > 65507)
  padding := (by decide +kernel : validatePadding (!sampleInterface.headerProtectionKey.isZero) 0
    sampleInterface.paddings = .ok ())
  headers := (by decide +kernel : validateHeaders [] sampleInterface.headers = .ok ())
  timers := (by decide +kernel : validateEach (parseAWGRange · 16) sampleInterface.timers = .ok ())
  switches := (by decide +kernel : validateEach parseAWGBool sampleInterface.switches = .ok ())
  keepalives := rfl
  packets := (validatePackets_iff _).mpr fun e he => by
    cases List.mem_singleton.mp he
    exact ⟨⟨"i1", by decide, rfl⟩, longPacket_valid⟩

theorem longConfig_wellFormed : longConfig.WellFormed (ascii "]#%") where
  name := (by decide +kernel : tunnelNameIsValid (ascii "home") = true)
  valid := (validateAWG_iff _).mpr longConfig_valid
  interface :=
    { sampleInterface_wellFormed with
      packets := fun key v h => by
        cases List.mem_singleton.mp (AList.mem_lookup_iff.mp h)
        exact ⟨bytesPacket_ne_nil _, bytesPacket_clean _, PacketKey.i1, rfl⟩ }
  peers := fun _ h => by cases h

theorem linesFit_packet {c : Config} (h : c.LinesFit) (k : PacketKey) :
    (c.interface.packet k).length < maxScanTokenSize := by
  have hfit := h _ (List.mem_append_left _ (packet_mem_longTexts c.interface k))
  rw [uapiLine_length] at hfit
  exact Nat.lt_of_le_of_lt (Nat.le_add_left _ _) hfit

/-- A valid packet of 40000 bytes: its line has over 80000 characters and the device's reader
refuses it. -/
theorem toUAPI_long_packet_refused :
    fromWgQuick (toWgQuick longConfig) (ascii "home") = .ok longConfig.reread ∧
      ∃ text, toUAPI (resolveHostname sampleResolver) longConfig.reread = .ok text ∧
        (ipcSetOperation sampleEnv Device.new text).2 ≠ none := by
  have hread := wellFormed_reread longConfig longConfig_wellFormed
  obtain ⟨-, -, hi, hv, hp⟩ := fromWgQuick_printable _ _ _ hread
  have hpeers : longConfig.reread.peers = [] := rfl
  have hresolve : ∀ p ∈ longConfig.reread.peers, Resolves sampleResolver p := by
    rw [hpeers]
    exact nofun
  have hbind : ∀ port, sampleEnv.bindUpdate port = true := fun _ => rfl
  obtain ⟨text, htext, hiff⟩ := toUAPI_accepted_printable_iff sampleEnv sampleResolver _ hi hp hv hresolve
    (by rw [hpeers]; exact Nat.zero_le _) hbind sampleEnv_takes
  refine ⟨hread, text, htext, fun hok => ?_⟩
  have hfit := linesFit_packet (hiff.mp hok) .i1
  have hpacket : longConfig.reread.interface.packet .i1 = bytesPacket (List.replicate 40000 0) :=
    reread_packet longConfig.interface .i1
  rw [hpacket, bytesPacket_length, List.length_replicate, maxScanTokenSize] at hfit
  omega

end sample

end SmartAwg.Awg
