import Mathlib.Data.List.Forall2
import SmartAwg.DeviceAccepts
import SmartAwg.SmartBuild

/-!
The two engines and the parameters of the protocol. A profile reaches the one as the text of
`ToUAPI` and the other as the object of `awgEndpoint`; each writes a parameter only if it is set,
and each has its own form of keys and switches.
-/

namespace SmartAwg.Smart

open Go Conf

section entries
variable {α β : Type}

/-- The values of a key, in their order. -/
def valuesOf (key : Str) (es : List (Str × α)) : List α :=
  es.filterMap fun e => if e.1 = key then some e.2 else none

theorem valuesOf_append (key : Str) (es fs : List (Str × α)) :
    valuesOf key (es ++ fs) = valuesOf key es ++ valuesOf key fs := List.filterMap_append

theorem valuesOf_of_ne {key : Str} {es : List (Str × α)} (h : ∀ e ∈ es, e.1 ≠ key) :
    valuesOf key es = [] := by
  rw [valuesOf, List.filterMap_eq_nil_iff]
  intro e he
  exact if_neg (h e he)

theorem valuesOf_of_eq {key : Str} {es : List (Str × α)} (h : ∀ e ∈ es, e.1 = key) :
    valuesOf key es = es.map Prod.snd := by
  rw [valuesOf, ← List.filterMap_eq_map]
  apply List.filterMap_congr
  intro e he
  exact if_pos (h e he)

/-- In a table whose rows have keys of their own, the values of a key are those of its row. -/
theorem valuesOf_flatMap (key : β → Str) (write : β → List (Str × α)) {rows : List β}
    (hkey : ∀ b, ∀ e ∈ write b, e.1 = key b) (hnodup : (rows.map key).Nodup) {b : β} (hb : b ∈ rows) :
    valuesOf (key b) (rows.flatMap write) = (write b).map Prod.snd := by
  induction rows with
  | nil => cases hb
  | cons row rows ih =>
    rw [List.map_cons, List.nodup_cons] at hnodup
    rw [List.flatMap_cons, valuesOf_append]
    rcases List.mem_cons.mp hb with rfl | hb
    · have hrest : valuesOf (key b) (rows.flatMap write) = [] := by
        apply valuesOf_of_ne
        intro e he heq
        obtain ⟨row, hrow, he⟩ := List.mem_flatMap.mp he
        exact hnodup.1 (List.mem_map.mpr ⟨row, hrow, (hkey row e he).symm.trans heq⟩)
      rw [hrest, List.append_nil, valuesOf_of_eq (hkey b)]
    · have hhead : valuesOf (key b) (write row) = [] := by
        apply valuesOf_of_ne
        intro e he heq
        exact hnodup.1 (List.mem_map.mpr ⟨b, hb, heq.symm.trans (hkey row e he)⟩)
      rw [hhead, List.nil_append, ih hnodup.2 hb]

/-- A line `key=value` in its two parts. -/
def cutEntry (line : Str) : Option (Str × Str) :=
  (indexByte line 0x3D).map fun i => (line.take i, line.drop (i + 1))

/-- The lines of a text for the device. -/
def readUapi (text : Str) : List (Str × Str) := (text.splitOn 0x0A).filterMap cutEntry

/-- The lines before the first peer, and those of each peer. -/
def bySection : List (Str × Str) → List (Str × Str) × List (List (Str × Str))
  | [] => ([], [])
  | e :: es =>
    if e.1 = ascii "public_key" then ([], (e :: (bySection es).1) :: (bySection es).2)
    else (e :: (bySection es).1, (bySection es).2)

theorem cutEntry_uapiLine (e : UapiEntry) (h : 0x3D ∉ ascii e.1) :
    cutEntry (uapiLine e) = some (ascii e.1, e.2) := by
  rw [cutEntry, uapiLine, indexByte_append_cons _ _ _ h]
  simp

theorem readUapi_entries (es : List UapiEntry) (hline : ∀ e ∈ es, 0x0A ∉ uapiLine e)
    (hkey : ∀ e ∈ es, 0x3D ∉ ascii e.1) :
    readUapi (es.flatMap fun e => uapiLine e ++ [0x0A]) = es.map fun e => (ascii e.1, e.2) := by
  rw [readUapi, Awg.entries_splitOn es hline, List.filterMap_append, List.filterMap_map,
    List.filterMap_congr (g := fun e => some (ascii e.1, e.2))]
  · rw [show (fun e : UapiEntry => some (ascii e.1, e.2)) = some ∘ fun e => (ascii e.1, e.2) from rfl,
      List.filterMap_eq_map]
    exact List.append_nil _
  · intro e he
    exact cutEntry_uapiLine e (hkey e he)

theorem bySection_append {es : List (Str × Str)} (fs : List (Str × Str))
    (h : ∀ e ∈ es, e.1 ≠ ascii "public_key") :
    bySection (es ++ fs) = (es ++ (bySection fs).1, (bySection fs).2) := by
  induction es with
  | nil => rfl
  | cons e es ih =>
    rw [List.forall_mem_cons] at h
    rw [List.cons_append, bySection, if_neg h.1, ih h.2]
    rfl

end entries

section table

/-- What stands for a parameter in a profile. -/
inductive Parameter where
  | num (v : UInt16)
  | text (v : Str)
  | key (k : Key)
  | switch (v : Str)

/-- The lines of `ToUAPI` for a parameter. -/
def Parameter.uapi (label : String) : Parameter → List UapiEntry
  | .num v => uapiNum label v
  | .text v => uapiText label v
  | .key k => uapiKey label k
  | .switch v => uapiBool label v

/-- The fields of `awgEndpoint` for it. -/
def Parameter.option (label : String) : Parameter → List (Str × Value)
  | .num v => addUint16 label v
  | .text v => addString label v
  | .key k => addKey label k
  | .switch v => addBool label v

inductive ParameterKind where
  | num
  | text
  | key
  | switch
  deriving DecidableEq

def Parameter.kind : Parameter → ParameterKind
  | .num _ => .num
  | .text _ => .text
  | .key _ => .key
  | .switch _ => .switch

/-- A text for the device and a field of the object have the same meaning. -/
def Denotes : ParameterKind → Str → Value → Prop
  | .num, text, .int n => atoi text = .ok (n : Int)
  | .text, text, .str s => text = s
  | .key, text, .str s => ∃ k : Key, hexDecode text = .ok k.bytes ∧ base64Decode s = .ok k.bytes
  | .switch, text, .bool b => text = if b then ascii "1" else ascii "0"
  | _, _, _ => False

def sizeParameters (i : Interface) : List (String × Parameter) :=
  [("jc", .num i.junkPacketCount), ("jmin", .num i.junkPacketMinSize),
   ("jmax", .num i.junkPacketMaxSize), ("s1", .num i.initPacketJunkSize),
   ("s2", .num i.responsePacketJunkSize), ("s3", .num i.cookieReplyPacketJunkSize),
   ("s4", .num i.transportPacketJunkSize), ("h1", .text i.initPacketMagicHeader),
   ("h2", .text i.responsePacketMagicHeader), ("h3", .text i.underloadPacketMagicHeader),
   ("h4", .text i.transportPacketMagicHeader)]

def packetParameters (i : Interface) : List (String × Parameter) :=
  PacketKey.all.map fun k => (k.name, .text (i.packet k))

def laterParameters (i : Interface) : List (String × Parameter) :=
  [("header_protection_key", .key i.headerProtectionKey),
   ("content_padding_addition", .text i.contentPaddingAddition),
   ("rekey_after_time", .text i.rekeyAfterTime), ("rekey_timeout", .text i.rekeyTimeout),
   ("reject_after_time", .text i.rejectAfterTime), ("keepalive_timeout", .text i.keepaliveTimeout),
   ("max_handshake_attempts", .text i.maxHandshakeAttempts),
   ("random_trailers", .switch i.randomTrailers), ("disable_cookies", .switch i.disableCookies)]

def parameters (i : Interface) : List (String × Parameter) :=
  sizeParameters i ++ packetParameters i ++ laterParameters i

/-- The parameters of the protocol, with their kinds. -/
def protocolParameters : List (String × ParameterKind) :=
  [("jc", .num), ("jmin", .num), ("jmax", .num), ("s1", .num), ("s2", .num), ("s3", .num), ("s4", .num),
   ("h1", .text), ("h2", .text), ("h3", .text), ("h4", .text),
   ("i1", .text), ("i2", .text), ("i3", .text), ("i4", .text), ("i5", .text),
   ("header_protection_key", .key), ("content_padding_addition", .text), ("rekey_after_time", .text),
   ("rekey_timeout", .text), ("reject_after_time", .text), ("keepalive_timeout", .text),
   ("max_handshake_attempts", .text), ("random_trailers", .switch), ("disable_cookies", .switch)]

/-- The keys of the lines before the first peer. -/
def deviceLabels : List String :=
  "private_key" :: "listen_port" :: "replace_peers" :: protocolParameters.map Prod.fst

/-- The keys of the lines of a peer. -/
def peerLabels : List String :=
  ["public_key", "preshared_key", "endpoint", "persistent_keepalive_interval", "replace_allowed_ips",
   "allowed_ip"]

theorem labels_nodup : ((deviceLabels ++ peerLabels).map ascii).Nodup := by decide +kernel

theorem labels_plain : ∀ label ∈ deviceLabels ++ peerLabels, 0x3D ∉ ascii label := by decide +kernel

/-- No two keys are written alike. -/
theorem label_bytes_ne {a b : String} (ha : a ∈ deviceLabels ++ peerLabels)
    (hb : b ∈ deviceLabels ++ peerLabels) (h : a ≠ b) : ascii a ≠ ascii b :=
  fun heq => h (List.inj_on_of_nodup_map labels_nodup ha hb heq)

variable (i : Interface)

theorem parameters_kinds : (parameters i).map (fun p => (p.1, p.2.kind)) = protocolParameters := rfl

theorem parameters_nodup : ((parameters i).map fun p => ascii p.1).Nodup := by
  have hlabels : (parameters i).map (fun p => ascii p.1) = (protocolParameters.map Prod.fst).map ascii := by
    rw [← parameters_kinds i, List.map_map, List.map_map]
    rfl
  have hsub : (protocolParameters.map Prod.fst).Sublist (deviceLabels ++ peerLabels) :=
    ((List.suffix_append ["private_key", "listen_port", "replace_peers"] _).sublist).trans
      (List.sublist_append_left _ _)
  rw [hlabels]
  exact labels_nodup.sublist (hsub.map ascii)

theorem uapiGroups_eq : i.uapiGroups.flatten =
    ("private_key", i.privateKey.hexString) :: uapiNum "listen_port" i.listenPort ++
      (parameters i).flatMap fun p => p.2.uapi p.1 := by
  simp only [Interface.uapiGroups, parameters, sizeParameters, packetParameters, laterParameters,
    Parameter.uapi, List.flatten_cons, List.flatten_nil, List.flatMap_append, List.flatMap_cons,
    List.flatMap_nil, List.flatMap_map, List.cons_append, List.nil_append, List.append_nil]

theorem endpointOptions_eq : endpointOptions i =
    (sizeParameters i ++ laterParameters i).flatMap (fun p => p.2.option p.1) ++
      addIPackets i.ipackets := by
  rw [List.flatMap_eq_foldl]
  rfl

theorem Parameter.uapi_label (label : String) (p : Parameter) : ∀ e ∈ p.uapi label, e.1 = label := by
  cases p <;> exact entry_key label _

theorem Parameter.option_label (label : String) (p : Parameter) :
    ∀ e ∈ p.option label, e.1 = ascii label := by
  intro e he
  cases p <;> simp only [Parameter.option, addUint16, addString, addKey, addBool] at he <;> split at he
  all_goals
    first
    | rw [List.mem_singleton.mp he]
    | cases he

/-- A switch that the validator takes is the same for both. -/
theorem boolToUAPI_eq {v : Str} {b : Bool} (htrim : Trimmed v) (h : parseAWGBool v = .ok b) :
    boolToUAPI v = if b then ascii "1" else ascii "0" := by
  have hwords : ∀ w, w ∈ ["on", "1", "true", "t", "yes"].map ascii ↔
      w ∈ ["on", "true", "1", "yes", "t"].map ascii := by
    intro w
    simp only [List.map_cons, List.map_nil, List.mem_cons, List.not_mem_nil, or_false]
    tauto
  rw [boolToUAPI, trimSpace_of_trimmed v htrim]
  unfold parseAWGBool at h
  dsimp only at h
  split at h
  · rename_i hon
    cases h
    rw [if_pos ((hwords _).mpr hon)]
    rfl
  · rename_i hon
    split at h
    · cases h
      rw [if_neg (mt (hwords _).mp hon)]
      rfl
    · cases h

/-- The text of a switch is one, and has no white space around it. -/
def Parameter.Readable : Parameter → Prop
  | .switch v => v ≠ [] → Trimmed v ∧ ∃ b, parseAWGBool v = .ok b
  | _ => True

theorem Parameter.denotes (label : String) (p : Parameter) (h : p.Readable) :
    List.Forall₂ (Denotes p.kind) ((p.uapi label).map Prod.snd) ((p.option label).map Prod.snd) := by
  cases p with
  | num v =>
    simp only [Parameter.uapi, Parameter.option, uapiNum, addUint16]
    split
    · have hv := v.toNat_lt
      exact .cons (atoi_itoa v.toNat (by omega)) .nil
    · exact .nil
  | text v =>
    simp only [Parameter.uapi, Parameter.option, uapiText, addString, List.length_pos_iff]
    by_cases hv : v = []
    · rw [if_neg (not_not_intro hv), if_pos hv]
      exact .nil
    · rw [if_pos hv, if_neg hv]
      exact .cons rfl .nil
  | key k =>
    simp only [Parameter.uapi, Parameter.option, uapiKey, addKey]
    cases k.isZero with
    | true => exact .nil
    | false => exact .cons ⟨k, hexDecode_encode k.bytes, base64Decode_encode k.bytes⟩ .nil
  | switch v =>
    simp only [Parameter.uapi, Parameter.option, uapiBool, addBool, List.length_pos_iff]
    by_cases hv : v = []
    · rw [if_neg (not_not_intro hv), if_pos hv]
      exact .nil
    · obtain ⟨htrim, b, hb⟩ := h hv
      rw [if_pos hv, if_neg hv, hb]
      exact .cons (boolToUAPI_eq htrim hb) .nil

end table

section packets
variable {c : Config}

theorem valuesOf_entries (key : Str) (entries : List (Sigma fun _ : Str => Str))
    (hnodup : entries.NodupKeys) :
    valuesOf key (entries.map fun e => (e.1, e.2)) = (entries.dlookup key).toList := by
  induction entries with
  | nil => rfl
  | cons e entries ih =>
    obtain ⟨k, v⟩ := e
    obtain ⟨hhead, htail⟩ := List.nodupKeys_cons.mp hnodup
    rw [List.map_cons, ← List.singleton_append, valuesOf_append, ih htail]
    by_cases hk : k = key
    · subst hk
      rw [List.dlookup_cons_eq, List.dlookup_eq_none.mpr hhead, valuesOf_of_eq (by simp)]
      rfl
    · rw [List.dlookup_cons_ne _ _ (Ne.symm hk), valuesOf_of_ne (by simpa using hk)]
      rfl

theorem validateCPS_nil : validateCPS [] ≠ .ok () := by decide

/-- The packets of a valid profile are written under their own names. -/
theorem addIPackets_eq (hv : ValidAWG c) : addIPackets c.interface.ipackets =
    (c.interface.ipackets.entries.map fun e => (e.1, e.2)).map fun e => (e.1, Value.str e.2) := by
  have hall := (validatePackets_iff _).mp hv.packets
  unfold addIPackets
  rw [List.map_map, ← List.flatMap_singleton' (List.map _ _), List.flatMap_map]
  apply List.flatMap_congr
  intro e he
  obtain ⟨⟨name, hname, hkey⟩, hcps⟩ := hall e he
  have hlower : ∀ name ∈ packetNames, toLower (ascii name) = ascii name := by decide
  have hne : e.2 ≠ [] := by
    intro hnil
    rw [hnil] at hcps
    exact validateCPS_nil hcps
  rw [if_neg hne, ← hkey, hlower name hname, hkey]
  rfl

theorem valuesOf_map_str (key : Str) (es : List (Str × Str)) :
    valuesOf key (es.map fun e => (e.1, Value.str e.2)) = (valuesOf key es).map Value.str := by
  rw [valuesOf, valuesOf, List.filterMap_map, List.map_filterMap]
  apply List.filterMap_congr
  intro e _
  by_cases hk : e.1 = key
  · simp [hk]
  · simp [hk]

theorem valuesOf_addIPackets (hv : ValidAWG c) (key : Str) :
    valuesOf key (addIPackets c.interface.ipackets) =
      (c.interface.ipackets.lookup key).toList.map Value.str := by
  rw [addIPackets_eq hv, valuesOf_map_str, valuesOf_entries key _ c.interface.ipackets.nodupKeys]
  rfl

theorem addIPackets_names (hv : ValidAWG c) :
    ∀ e ∈ addIPackets c.interface.ipackets, ∃ name ∈ packetNames, ascii name = e.1 := by
  intro e he
  rw [addIPackets_eq hv, List.map_map] at he
  obtain ⟨entry, hentry, rfl⟩ := List.mem_map.mp he
  exact ((validatePackets_iff _).mp hv.packets entry hentry).1

/-- Under the name of a packet stands its description, if there is one. -/
theorem valuesOf_packet (hv : ValidAWG c) (k : PacketKey) :
    valuesOf (ascii k.name) (addIPackets c.interface.ipackets) =
      ((Parameter.text (c.interface.packet k)).option k.name).map Prod.snd := by
  rw [valuesOf_addIPackets hv]
  cases hlookup : c.interface.ipackets.lookup (ascii k.name) with
  | none =>
    have hnil : c.interface.packet k = [] := by rw [Interface.packet, hlookup]; rfl
    rw [hnil]
    rfl
  | some spec =>
    have hpacket : c.interface.packet k = spec := by rw [Interface.packet, hlookup]; rfl
    have hmem := List.of_mem_dlookup hlookup
    have hcps := ((validatePackets_iff _).mp hv.packets _ hmem).2
    have hne : spec ≠ [] := by
      rintro rfl
      exact validateCPS_nil hcps
    rw [hpacket, Parameter.option, addString, if_neg hne]
    rfl

theorem packetNames_key : ∀ name ∈ packetNames, ∃ k : PacketKey, k.name = name := by
  have hkeys : ∀ name ∈ packetNames, ∃ k ∈ PacketKey.all, k.name = name := by decide
  intro name hname
  obtain ⟨k, -, hk⟩ := hkeys name hname
  exact ⟨k, hk⟩

theorem plain_label_ne_packet (i : Interface) :
    ∀ p ∈ sizeParameters i ++ laterParameters i, ∀ k : PacketKey, ascii p.1 ≠ ascii k.name := by
  have hlabels : ∀ label ∈ (sizeParameters Interface.zero ++ laterParameters Interface.zero).map Prod.fst,
      ∀ k ∈ PacketKey.all, label ≠ k.name := by decide
  intro p hp k heq
  have hlabel : p.1 ∈ (sizeParameters i ++ laterParameters i).map Prod.fst := List.mem_map_of_mem hp
  have hplain : p ∈ parameters i := by
    simp only [parameters, List.mem_append] at hp ⊢
    tauto
  have hpacket : (k.name, Parameter.text (i.packet k)) ∈ parameters i :=
    List.mem_append_left _ (List.mem_append_right _ (List.mem_map_of_mem (packetKey_mem_all k)))
  have hsame := List.inj_on_of_nodup_map (parameters_nodup i) hplain hpacket heq
  exact hlabels p.1 hlabel k (packetKey_mem_all k) (congrArg Prod.fst hsame)

/-- A parameter that is no packet is found in the first part of the object. -/
theorem valuesOf_plain (hv : ValidAWG c) (p : String × Parameter)
    (hp : p ∈ sizeParameters c.interface ++ laterParameters c.interface) :
    valuesOf (ascii p.1) (endpointOptions c.interface) = (p.2.option p.1).map Prod.snd := by
  have hpackets : valuesOf (ascii p.1) (addIPackets c.interface.ipackets) = [] := by
    apply valuesOf_of_ne
    intro e he heq
    obtain ⟨name, hname, hkey⟩ := addIPackets_names hv e he
    obtain ⟨k, rfl⟩ := packetNames_key name hname
    exact plain_label_ne_packet c.interface p hp k (heq.symm.trans hkey.symm)
  have hnodup : ((sizeParameters c.interface ++ laterParameters c.interface).map fun p =>
      ascii p.1).Nodup := by
    have hall := parameters_nodup c.interface
    rw [parameters, List.append_assoc, List.map_append, List.map_append] at hall
    rw [List.map_append]
    exact hall.sublist ((List.sublist_append_right _ _).append_left _)
  rw [endpointOptions_eq, valuesOf_append, hpackets, List.append_nil]
  exact valuesOf_flatMap (fun p : String × Parameter => ascii p.1) _
    (fun p => p.2.option_label p.1) hnodup hp

/-- The fields of the object for a parameter are those of its row. -/
theorem valuesOf_endpointOptions (hv : ValidAWG c) (p : String × Parameter)
    (hp : p ∈ parameters c.interface) :
    valuesOf (ascii p.1) (endpointOptions c.interface) = (p.2.option p.1).map Prod.snd := by
  rw [parameters, List.append_assoc] at hp
  rcases List.mem_append.mp hp with hp | hp
  · exact valuesOf_plain hv p (List.mem_append_left _ hp)
  rcases List.mem_append.mp hp with hp | hp
  · obtain ⟨k, -, rfl⟩ := List.mem_map.mp hp
    have hplain : valuesOf (ascii k.name) ((sizeParameters c.interface ++
        laterParameters c.interface).flatMap fun p => p.2.option p.1) = [] := by
      apply valuesOf_of_ne
      intro e he heq
      obtain ⟨q, hq, he⟩ := List.mem_flatMap.mp he
      exact plain_label_ne_packet c.interface q hq k ((q.2.option_label q.1 e he).symm.trans heq)
    rw [endpointOptions_eq, valuesOf_append, valuesOf_packet hv k, hplain]
    rfl
  · exact valuesOf_plain hv p (List.mem_append_right _ hp)

theorem parameters_readable (hi : c.interface.Printable) (hv : ValidAWG c) :
    ∀ p ∈ parameters c.interface, p.2.Readable := by
  have hswitch := Awg.validateEach_ok _ _ hv.switches
  intro p hp
  rcases List.mem_append.mp hp with hp | hp
  · rcases List.mem_append.mp hp with hp | hp
    · simp only [sizeParameters, List.mem_cons, List.not_mem_nil, or_false] at hp
      rcases hp with rfl | rfl | rfl | rfl | rfl | rfl | rfl | rfl | rfl | rfl | rfl <;> trivial
    · obtain ⟨k, -, rfl⟩ := List.mem_map.mp hp
      trivial
  · simp only [laterParameters, List.mem_cons, List.not_mem_nil, or_false] at hp
    rcases hp with rfl | rfl | rfl | rfl | rfl | rfl | rfl | rfl | rfl
    all_goals try trivial
    · intro hne
      exact ⟨(hi.text .randomTrailers).1, hswitch ("RandomTrailers", _) (by simp [Interface.switches]) hne⟩
    · intro hne
      exact ⟨(hi.text .disableCookies).1, hswitch ("DisableCookies", _) (by simp [Interface.switches]) hne⟩

end packets

section peers

/-- A line as the device reads it. -/
def entryBytes (e : UapiEntry) : Str × Str := (ascii e.1, e.2)

/-- The lines of a peer but for its networks, by their keys. -/
def peerRows (p : Peer) (e : Option Endpoint) : List (String × List Str) :=
  [("public_key", [p.publicKey.hexString]),
   ("preshared_key", if p.presharedKey.isZero then [] else [p.presharedKey.hexString]),
   ("endpoint", e.toList.map Endpoint.string),
   ("persistent_keepalive_interval", [p.uapiKeepalive])]

def networkEntries (p : Peer) : List UapiEntry :=
  if p.allowedIPs.length > 0 then
    ("replace_allowed_ips", ascii "true") :: p.allowedIPs.map fun a => ("allowed_ip", a.string)
  else []

theorem peerEntries_eq (p : Peer) (e : Option Endpoint) :
    (p.uapiGroups e).flatten.map entryBytes =
      (peerRows p e).flatMap (fun row => row.2.map fun v => (ascii row.1, v)) ++
        (networkEntries p).map entryBytes := by
  have hkey : (uapiKey "preshared_key" p.presharedKey).map entryBytes =
      (if p.presharedKey.isZero then [] else [p.presharedKey.hexString]).map
        fun v => (ascii "preshared_key", v) := by
    unfold uapiKey
    cases p.presharedKey.isZero <;> rfl
  simp only [Peer.uapiGroups, peerRows, networkEntries, List.flatten_cons, List.flatten_nil,
    List.map_append, List.flatMap_cons, List.flatMap_nil, List.append_assoc, hkey, List.map_map,
    List.append_nil]
  rfl

theorem networkEntries_label (p : Peer) :
    ∀ e ∈ networkEntries p, e.1 = "replace_allowed_ips" ∨ e.1 = "allowed_ip" := by
  intro e he
  unfold networkEntries at he
  split at he
  · rcases List.mem_cons.mp he with rfl | he
    · exact .inl rfl
    · obtain ⟨a, -, rfl⟩ := List.mem_map.mp he
      exact .inr rfl
  · cases he

theorem peerRow_labels (p : Peer) (e : Option Endpoint) :
    (peerRows p e).map Prod.fst = peerLabels.take 4 := rfl

/-- Only the first line of a peer has the key that opens a section. -/
theorem peerEntries_cons (p : Peer) (e : Option Endpoint) :
    ∃ lines, (p.uapiGroups e).flatten.map entryBytes =
        (ascii "public_key", p.publicKey.hexString) :: lines ∧
      ∀ x ∈ lines, ∃ label ∈ peerLabels.tail, x.1 = ascii label := by
  refine ⟨_, peerEntries_eq p e, fun x hx => ?_⟩
  rcases List.mem_append.mp hx with hx | hx
  · obtain ⟨row, hrow, hx⟩ := List.mem_flatMap.mp hx
    obtain ⟨v, -, rfl⟩ := List.mem_map.mp hx
    have hlabel : row.1 ∈ (peerRows p e).tail.map Prod.fst := List.mem_map_of_mem hrow
    exact ⟨row.1, List.mem_append_left ["replace_allowed_ips", "allowed_ip"] hlabel, rfl⟩
  · obtain ⟨y, hy, rfl⟩ := List.mem_map.mp hx
    refine ⟨y.1, ?_, rfl⟩
    rcases networkEntries_label p y hy with h | h
    · rw [h]
      decide
    · rw [h]
      decide

theorem valuesOf_peer (p : Peer) (e : Option Endpoint) (row : String × List Str)
    (hrow : row ∈ peerRows p e) :
    valuesOf (ascii row.1) ((p.uapiGroups e).flatten.map entryBytes) = row.2 := by
  have hlabel : row.1 ∈ peerLabels.take 4 := peerRow_labels p e ▸ List.mem_map_of_mem hrow
  have hnetworks : valuesOf (ascii row.1) ((networkEntries p).map entryBytes) = [] := by
    have hlabels : ∀ label ∈ peerLabels.take 4,
        "replace_allowed_ips" ≠ label ∧ "allowed_ip" ≠ label := by decide
    have hne := hlabels row.1 hlabel
    have hmem := List.mem_append_right deviceLabels (List.mem_of_mem_take hlabel)
    apply valuesOf_of_ne
    intro x hx
    obtain ⟨y, hy, rfl⟩ := List.mem_map.mp hx
    rcases networkEntries_label p y hy with h | h
    · rw [entryBytes, h]
      exact label_bytes_ne (by decide) hmem hne.1
    · rw [entryBytes, h]
      exact label_bytes_ne (by decide) hmem hne.2
  have hnodup : ((peerRows p e).map fun row => ascii row.1).Nodup := by
    rw [show (fun row : String × List Str => ascii row.1) = ascii ∘ Prod.fst from rfl, ← List.map_map,
      peerRow_labels]
    exact labels_nodup.sublist
      (((List.take_sublist 4 _).trans (List.sublist_append_right _ _)).map ascii)
  rw [peerEntries_eq, valuesOf_append, hnetworks, List.append_nil,
    valuesOf_flatMap (fun row : String × List Str => ascii row.1)
      (fun row => row.2.map fun v => (ascii row.1, v)) _ hnodup hrow, List.map_map]
  · exact List.map_id _
  · intro b x hx
    obtain ⟨v, -, rfl⟩ := List.mem_map.mp hx
    rfl

/-- The sections of the peers, in their order. -/
theorem bySection_peers {resolve : Str → Except ResolveError Str} {ps : List Peer}
    {es : List UapiEntry} (h : peersUapi resolve ps = .ok es) :
    (bySection (es.map entryBytes)).1 = [] ∧
      List.Forall₂ (fun p lines => ∃ e, p.resolve resolve = .ok e ∧
        lines = (p.uapiGroups e).flatten.map entryBytes) ps (bySection (es.map entryBytes)).2 := by
  induction ps generalizing es with
  | nil =>
    cases h
    exact ⟨rfl, .nil⟩
  | cons p ps ih =>
    obtain ⟨e, rest, he, hrest, rfl⟩ := Awg.peersUapi_cons_ok resolve p ps es h
    obtain ⟨hlead, hsections⟩ := ih hrest
    obtain ⟨lines, hlines, hlabel⟩ := peerEntries_cons p e
    have hplain : ∀ x ∈ lines, x.1 ≠ ascii "public_key" := by
      intro x hx
      obtain ⟨label, hmem, hx⟩ := hlabel x hx
      have hne : ∀ label ∈ peerLabels.tail, label ≠ "public_key" := by decide
      rw [hx]
      exact label_bytes_ne (List.mem_append_right _ (List.mem_of_mem_tail hmem)) (by decide)
        (hne label hmem)
    rw [List.map_append, hlines, List.cons_append, bySection, if_pos rfl,
      bySection_append _ hplain, hlead, List.append_nil]
    exact ⟨rfl, .cons ⟨e, he, hlines.symm⟩ hsections⟩

/-- The port in the text of an endpoint: what follows the last colon. -/
def SamePort (text : Str) (port : Nat) : Prop :=
  ∃ i, lastIndexByte text 0x3A = some i ∧ atoi (text.drop (i + 1)) = .ok (port : Int)

theorem samePort_string (e : Endpoint) : SamePort e.string e.port.toNat := by
  have hcolon := colon_not_mem_itoa e.port.toNat
  have hport : atoi (itoa e.port.toNat) = .ok (e.port.toNat : Int) := by
    have hlt := e.port.toNat_lt
    exact atoi_itoa _ (by omega)
  have htext (front : Str) (h : e.string = front ++ 0x3A :: itoa e.port.toNat) :
      SamePort e.string e.port.toNat := by
    refine ⟨front.length, ?_, ?_⟩
    · rw [h, lastIndexByte_append_cons _ _ _ hcolon]
    · rw [h]
      simpa using hport
  by_cases h : 0x3A ∈ e.host
  · apply htext (0x5B :: (e.host ++ [0x5D]))
    rw [Endpoint.string, if_pos h]
    simp
  · apply htext e.host
    rw [Endpoint.string, if_neg h]

/-- The lines of a peer and its object. -/
structure SamePeerEntry (lines : List (Str × Str)) (p : EndpointPeer) : Prop where
  publicKey : List.Forall₂ (Denotes .key) (valuesOf (ascii "public_key") lines) [.str p.publicKey]
  presharedKey : List.Forall₂ (Denotes .key) (valuesOf (ascii "preshared_key") lines)
    (p.presharedKey.toList.map Value.str)
  port : List.Forall₂ SamePort (valuesOf (ascii "endpoint") lines) [p.port]
  keepalive : valuesOf (ascii "persistent_keepalive_interval") lines =
    [if p.persistentKeepaliveInterval = [] then ascii "0" else p.persistentKeepaliveInterval]

/-- A keepalive that was read is never the word `off`. -/
theorem keepalive_ne_off {p : Peer} (hp : p.Printable) : p.persistentKeepalive ≠ ascii "off" := by
  intro hoff
  rcases hp.keepalive with h | ⟨r, hr⟩
  · rw [hoff] at h
    exact absurd h (by decide)
  · have hnone : (parseAWGRange (ascii "off") 16).toOption = none := by decide
    rw [← hoff, hr] at hnone
    cases hnone

theorem samePeer_endpointPeer {resolve : Str → Except ResolveError Str} {p : Peer} {e : Option Endpoint}
    (hp : p.Printable) (hendpoint : p.endpoint.isEmpty = false) (he : p.resolve resolve = .ok e) :
    SamePeerEntry ((p.uapiGroups e).flatten.map entryBytes) (endpointPeer p) := by
  have hrows := valuesOf_peer p e
  simp only [peerRows, List.forall_mem_cons] at hrows
  obtain ⟨hpublic, hpreshared, hport, hkeepalive, -⟩ := hrows
  constructor
  case publicKey =>
    rw [hpublic]
    exact .cons ⟨p.publicKey, hexDecode_encode _, base64Decode_encode _⟩ .nil
  case presharedKey =>
    rw [hpreshared, endpointPeer]
    cases p.presharedKey.isZero with
    | true => exact .nil
    | false => exact .cons ⟨p.presharedKey, hexDecode_encode _, base64Decode_encode _⟩ .nil
  case port =>
    rw [hport]
    unfold Peer.resolve at he
    rw [hendpoint] at he
    simp only [Bool.false_eq_true, if_false] at he
    split at he
    · cases he
    · rename_i ip hip
      cases he
      exact .cons (samePort_string ⟨ip, p.endpoint.port⟩) .nil
  case keepalive =>
    rw [hkeepalive, endpointPeer, Peer.uapiKeepalive]
    simp only [keepalive_ne_off hp, or_false]

end peers

section engines

/-- The lines before the first peer. -/
def deviceEntries (c : Config) : List UapiEntry :=
  c.interface.uapiGroups.flatten ++ if c.peers.length > 0 then [("replace_peers", ascii "true")] else []

theorem deviceEntries_label (c : Config) : ∀ e ∈ deviceEntries c, e.1 ∈ deviceLabels := by
  intro e he
  rcases List.mem_append.mp he with he | he
  · rw [uapiGroups_eq] at he
    rcases List.mem_append.mp he with he | he
    · rcases List.mem_cons.mp he with rfl | he
      · exact List.mem_cons_self
      · rw [(Parameter.num c.interface.listenPort).uapi_label "listen_port" e he]
        exact List.mem_cons_of_mem _ List.mem_cons_self
    · obtain ⟨p, hp, he⟩ := List.mem_flatMap.mp he
      rw [p.2.uapi_label p.1 e he]
      have hlabel : p.1 ∈ (parameters c.interface).map Prod.fst := List.mem_map_of_mem hp
      exact List.mem_cons_of_mem _ (List.mem_cons_of_mem _ (List.mem_cons_of_mem _ hlabel))
  · split at he
    · rw [List.mem_singleton.mp he]
      decide
    · cases he

theorem deviceLabels_plain (label : String) (h : label ∈ deviceLabels) :
    ascii label ≠ ascii "public_key" ∧ 0x3D ∉ ascii label := by
  have hmem := List.mem_append_left peerLabels h
  have hne : ∀ label ∈ deviceLabels, label ≠ "public_key" := by decide
  exact ⟨label_bytes_ne hmem (by decide) (hne label h), labels_plain label hmem⟩

/-- The lines for a parameter are those of its row. -/
theorem valuesOf_deviceEntries (c : Config) (p : String × Parameter) (hp : p ∈ parameters c.interface) :
    valuesOf (ascii p.1) ((deviceEntries c).map entryBytes) = (p.2.uapi p.1).map Prod.snd := by
  have hother : ∀ label ∈ ["private_key", "listen_port", "replace_peers"], ascii label ≠ ascii p.1 := by
    have hlabels : ∀ label ∈ ["private_key", "listen_port", "replace_peers"],
        ∀ q ∈ protocolParameters.map Prod.fst, label ≠ q := by decide
    have hlabel : p.1 ∈ (parameters c.interface).map Prod.fst := List.mem_map_of_mem hp
    intro label h
    exact label_bytes_ne (List.mem_append_left _ (List.mem_append_left _ h))
      (List.mem_append_left _ (List.mem_append_right ["private_key", "listen_port", "replace_peers"] hlabel))
      (hlabels label h p.1 hlabel)
  have hempty (label : String) (h : label ∈ ["private_key", "listen_port", "replace_peers"])
      (es : List UapiEntry) (hes : ∀ e ∈ es, e.1 = label) :
      valuesOf (ascii p.1) (es.map entryBytes) = [] := by
    apply valuesOf_of_ne
    intro e he
    obtain ⟨x, hx, rfl⟩ := List.mem_map.mp he
    rw [entryBytes, hes x hx]
    exact hother label h
  have hport : ∀ e ∈ uapiNum "listen_port" c.interface.listenPort, e.1 = "listen_port" :=
    (Parameter.num c.interface.listenPort).uapi_label "listen_port"
  have hreplace : ∀ e ∈ (if c.peers.length > 0 then [("replace_peers", ascii "true")] else []
      : List UapiEntry), e.1 = "replace_peers" := by
    split <;> simp
  rw [deviceEntries, uapiGroups_eq, ← List.singleton_append, List.map_append, List.map_append,
    List.map_append, valuesOf_append, valuesOf_append, valuesOf_append,
    hempty "private_key" (by decide) _ (by simp),
    hempty "listen_port" (by decide) _ hport,
    hempty "replace_peers" (by decide) _ hreplace, List.nil_append, List.nil_append,
    List.append_nil, List.map_flatMap,
    valuesOf_flatMap (fun p : String × Parameter => ascii p.1)
      (fun p => (p.2.uapi p.1).map entryBytes) _ (parameters_nodup c.interface) hp,
    List.map_map]
  · rfl
  · intro q x hx
    obtain ⟨e, he, rfl⟩ := List.mem_map.mp hx
    rw [entryBytes, q.2.uapi_label q.1 e he]

theorem peersUapi_label {resolve : Str → Except ResolveError Str} {ps : List Peer}
    {es : List UapiEntry} (h : peersUapi resolve ps = .ok es) :
    ∀ e ∈ es, 0x3D ∉ ascii e.1 := by
  induction ps generalizing es with
  | nil =>
    cases h
    exact fun e he => absurd he List.not_mem_nil
  | cons p ps ih =>
    obtain ⟨endpoint, rest, -, hrest, rfl⟩ := Awg.peersUapi_cons_ok resolve p ps es h
    intro e he
    rcases List.mem_append.mp he with he | he
    · have hbytes : entryBytes e ∈ (p.uapiGroups endpoint).flatten.map entryBytes := List.mem_map_of_mem he
      obtain ⟨lines, hlines, hlabel⟩ := peerEntries_cons p endpoint
      rw [hlines] at hbytes
      change 0x3D ∉ (entryBytes e).1
      rcases List.mem_cons.mp hbytes with h | h
      · rw [h]
        exact labels_plain "public_key" (by decide)
      · obtain ⟨label, hmem, hx⟩ := hlabel _ h
        rw [hx]
        exact labels_plain label (List.mem_append_right _ (List.mem_of_mem_tail hmem))
    · exact ih hrest e he

theorem uapiEntries_eq (c : Config) (es : List UapiEntry) : c.uapiEntries es = deviceEntries c ++ es := by
  rw [Config.uapiEntries, deviceEntries, List.append_assoc]

theorem uapiEntries_label {resolve : Str → Except ResolveError Str} {c : Config} {es : List UapiEntry}
    (h : peersUapi resolve c.peers = .ok es) : ∀ e ∈ c.uapiEntries es, 0x3D ∉ ascii e.1 := by
  intro e he
  rw [uapiEntries_eq] at he
  rcases List.mem_append.mp he with he | he
  · exact (deviceLabels_plain _ (deviceEntries_label c e he)).2
  · exact peersUapi_label h e he

/-- Both engines get the same parameters and the same peers from a profile that was read. -/
theorem engines_same_parameters (r : Resolver) (s name : Str) (c : Config)
    (hc : fromWgQuick s name = .ok c) (endpoint : AwgEndpoint) (hendpoint : awgEndpoint c = .ok endpoint)
    (text : Str) (htext : toUAPI (resolveHostname r) c = .ok text) :
    (∀ p ∈ protocolParameters, List.Forall₂ (Denotes p.2)
      (valuesOf (ascii p.1) (bySection (readUapi text)).1) (valuesOf (ascii p.1) endpoint.options)) ∧
    List.Forall₂ SamePeerEntry (bySection (readUapi text)).2 endpoint.peers := by
  obtain ⟨-, -, hi, hv, hp⟩ := fromWgQuick_printable s name c hc
  obtain ⟨-, hoptions, hpeers, hendpoints⟩ := awgEndpoint_ok hendpoint
  obtain ⟨es, hes, rfl⟩ := toUAPI_entries htext
  obtain ⟨hlead, hsections⟩ := bySection_peers hes
  have hread : bySection (readUapi ((c.uapiEntries es).flatMap fun e => uapiLine e ++ [0x0A])) =
      ((deviceEntries c).map entryBytes, (bySection (es.map entryBytes)).2) := by
    have hnewline : ∀ e ∈ c.uapiEntries es, 0x0A ∉ uapiLine e :=
      fun e he => (Awg.config_scannable r c hi hp es hes e he).no_newline
    have hplain : ∀ e ∈ (deviceEntries c).map entryBytes, e.1 ≠ ascii "public_key" :=
      List.forall_mem_map.mpr fun e he => (deviceLabels_plain _ (deviceEntries_label c e he)).1
    rw [readUapi_entries _ hnewline (uapiEntries_label hes), uapiEntries_eq]
    change bySection ((deviceEntries c ++ es).map entryBytes) = _
    rw [List.map_append, bySection_append _ hplain, hlead, List.append_nil]
  rw [hread]
  constructor
  · rw [← parameters_kinds c.interface, List.forall_mem_map]
    intro p hmem
    rw [valuesOf_deviceEntries c p hmem, hoptions, valuesOf_endpointOptions hv p hmem]
    exact p.2.denotes p.1 (parameters_readable hi hv p hmem)
  · rw [hpeers, List.forall₂_map_right_iff]
    have hall : ∀ p ∈ c.peers, p.Printable ∧ p.endpoint.isEmpty = false :=
      fun p hmem => ⟨hp p hmem, hendpoints p hmem⟩
    refine (((List.forall₂_and_left _ _).mpr ⟨hall, hsections⟩).imp ?_).flip
    rintro p lines ⟨⟨hprintable, hnonempty⟩, e, he, rfl⟩
    exact samePeer_endpointPeer hprintable hnonempty he

theorem engines_same_parameters_sample :
    let c := (sampleConfig (ascii "fe80::1%eth0")).reread
    fromWgQuick (toWgQuick (sampleConfig (ascii "fe80::1%eth0"))) (ascii "home") = .ok c ∧
      ∃ endpoint text, awgEndpoint c = .ok endpoint ∧
        toUAPI (resolveHostname Awg.sampleResolver) c = .ok text ∧
        List.Forall₂ SamePeerEntry (bySection (readUapi text)).2 endpoint.peers := by
  have hread := wellFormed_reread _
    (sampleConfig_wellFormed (ascii "]#%") (ascii "eth0") (by decide +kernel) (by decide +kernel))
  obtain ⟨endpoint, hendpoint⟩ := Outcome.exists_of_isSome
    (awgEndpoint (sampleConfig (ascii "fe80::1%eth0")).reread) (by decide +kernel)
  obtain ⟨text, htext⟩ := Outcome.exists_of_isSome
    (toUAPI (resolveHostname Awg.sampleResolver) (sampleConfig (ascii "fe80::1%eth0")).reread)
    (by decide +kernel)
  exact ⟨hread, endpoint, text, hendpoint, htext,
    (engines_same_parameters Awg.sampleResolver _ _ _ hread endpoint hendpoint text htext).2⟩

end engines

end SmartAwg.Smart
