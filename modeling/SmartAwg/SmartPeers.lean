import SmartAwg.ConfUapi
import SmartAwg.RouteTable
import SmartAwg.SmartPolicy

/-!
Which peer an address is sent to: by the lines of `ToUAPI` in the native tunnel, and by the
endpoint of `awgEndpoint` in the smart engine.
-/

namespace SmartAwg.Smart

open Go Conf

section tables

def netOf (text : Str) : Option Net := (parsePrefix text).map Net.ofPrefix

/-- The routes of a peer, in the order of its networks. -/
def routesOf (key : Str) (texts : List Str) : List (Net × Str) :=
  texts.filterMap fun text => (netOf text).map fun net => (net, key)

/-- The routes of some lines; `peer` is the one the lines are about. -/
def uapiRoutes : Option Str → List UapiEntry → List (Net × Str)
  | _, [] => []
  | peer, (label, value) :: rest =>
    if label = "public_key" then uapiRoutes (hexDecode value).toOption rest
    else if label = "allowed_ip" then
      peer.toList.flatMap (routesOf · [value]) ++ uapiRoutes peer rest
    else uapiRoutes peer rest

def endpointRoutes (peers : List EndpointPeer) : List (Net × Str) :=
  peers.flatMap fun peer => (base64Decode peer.publicKey).toOption.toList.flatMap
    (routesOf · peer.allowedIPs)

def nativeTable (entries : List UapiEntry) : RouteTable Str :=
  RouteTable.ofRoutes (uapiRoutes none entries)

def smartTable (endpoint : AwgEndpoint) : RouteTable Str :=
  RouteTable.ofRoutes (endpointRoutes endpoint.peers)

end tables

section routes

/-- Lines about neither peers nor networks. -/
def IsPlainLabel (label : String) : Prop := label ≠ "public_key" ∧ label ≠ "allowed_ip"

instance (label : String) : Decidable (IsPlainLabel label) :=
  inferInstanceAs (Decidable (label ≠ "public_key" ∧ label ≠ "allowed_ip"))

theorem uapiRoutes_plain (peer : Option Str) (entries rest : List UapiEntry)
    (h : ∀ e ∈ entries, IsPlainLabel e.1) :
    uapiRoutes peer (entries ++ rest) = uapiRoutes peer rest := by
  induction entries with
  | nil => rfl
  | cons e entries ih =>
    obtain ⟨⟨hkey, hip⟩, hrest⟩ := List.forall_mem_cons.mp h
    obtain ⟨label, value⟩ := e
    rw [List.cons_append, uapiRoutes, if_neg hkey, if_neg hip, ih hrest]

theorem uapiRoutes_allowedIPs (key : Str) (values : List Str) (rest : List UapiEntry) :
    uapiRoutes (some key) (values.map (fun v => ("allowed_ip", v)) ++ rest) =
      routesOf key values ++ uapiRoutes (some key) rest := by
  induction values with
  | nil => rfl
  | cons v values ih =>
    have hcons : routesOf key (v :: values) = routesOf key [v] ++ routesOf key values :=
      List.filterMap_append (l := [v])
    rw [List.map_cons, List.cons_append, uapiRoutes, if_neg (by decide), if_pos rfl, ih, hcons,
      List.append_assoc]
    simp

theorem optional_plain (cond : Prop) [Decidable cond] (label : String) (v : Str)
    (h : IsPlainLabel label) :
    ∀ e ∈ (if cond then [(label, v)] else [] : List UapiEntry), IsPlainLabel e.1 := by
  split
  · exact List.forall_mem_singleton.mpr h
  · exact fun e he => absurd he List.not_mem_nil

theorem packet_plain (k : PacketKey) : IsPlainLabel k.name := by cases k <;> decide

theorem interface_plain (i : Interface) : ∀ e ∈ i.uapiGroups.flatten, IsPlainLabel e.1 := by
  have hgroups : ∀ group ∈ i.uapiGroups, ∀ e ∈ group, IsPlainLabel e.1 := by
    unfold Interface.uapiGroups uapiNum uapiText uapiKey uapiBool
    simp only [List.forall_mem_cons]
    refine ⟨⟨by decide, fun e he => absurd he List.not_mem_nil⟩, ?_⟩
    repeat' constructor
    all_goals first
      | exact optional_plain _ _ _ (by decide)
      | skip
    · intro e he
      obtain ⟨k, -, he⟩ := List.mem_flatMap.mp he
      exact optional_plain _ _ _ (packet_plain k) e he
    · exact fun group hgroup => absurd hgroup List.not_mem_nil
  intro e he
  obtain ⟨group, hgroup, he⟩ := List.mem_flatten.mp he
  exact hgroups group hgroup e he

/-- The lines of a peer make the routes of its networks. -/
theorem uapiRoutes_peer (current : Option Str) (p : Peer) (endpoint : Option Endpoint)
    (rest : List UapiEntry) :
    uapiRoutes current ((p.uapiGroups endpoint).flatten ++ rest) =
      routesOf p.publicKey.bytes (ipcidrs p.allowedIPs) ++
        uapiRoutes (some p.publicKey.bytes) rest := by
  have hkey : (hexDecode p.publicKey.hexString).toOption = some p.publicKey.bytes := by
    rw [Key.hexString, hexDecode_encode]
    rfl
  have hplain : ∀ e ∈ uapiKey "preshared_key" p.presharedKey ++
      (endpoint.toList.map (fun e => ("endpoint", e.string)) ++
        [("persistent_keepalive_interval", p.uapiKeepalive)]), IsPlainLabel e.1 := by
    intro e he
    rcases List.mem_append.mp he with he | he
    · exact optional_plain _ _ _ (by decide) e he
    rcases List.mem_append.mp he with he | he
    · obtain ⟨x, -, rfl⟩ := List.mem_map.mp he
      exact (by decide : IsPlainLabel "endpoint")
    · rw [List.mem_singleton.mp he]
      exact (by decide : IsPlainLabel "persistent_keepalive_interval")
  have hshape : (p.uapiGroups endpoint).flatten ++ rest =
      ("public_key", p.publicKey.hexString) ::
        ((uapiKey "preshared_key" p.presharedKey ++
          (endpoint.toList.map (fun e => ("endpoint", e.string)) ++
            [("persistent_keepalive_interval", p.uapiKeepalive)])) ++
          ((if p.allowedIPs.length > 0 then ("replace_allowed_ips", ascii "true") ::
              p.allowedIPs.map fun a => ("allowed_ip", a.string) else []) ++ rest)) := by
    unfold Peer.uapiGroups
    simp only [List.flatten_cons, List.flatten_nil, List.append_nil, List.append_assoc,
      List.cons_append, List.nil_append]
  rw [hshape, uapiRoutes, if_pos rfl, hkey, uapiRoutes_plain _ _ _ hplain]
  split
  · have hmap : (p.allowedIPs.map fun a => (("allowed_ip", a.string) : UapiEntry)) =
        (ipcidrs p.allowedIPs).map fun v => ("allowed_ip", v) := by
      rw [ipcidrs, List.map_map]
      rfl
    rw [List.cons_append, uapiRoutes, if_neg (by decide), if_neg (by decide), hmap,
      uapiRoutes_allowedIPs]
  · rename_i hnone
    have hnil : p.allowedIPs = [] := List.eq_nil_of_length_eq_zero (by omega)
    rw [hnil]
    rfl

/-- The routes of the native tunnel are those of its peers. -/
theorem uapiRoutes_config (resolve : Str → Except ResolveError Str) (c : Config)
    (peers : List UapiEntry) (h : peersUapi resolve c.peers = .ok peers) :
    uapiRoutes none (c.uapiEntries peers) =
      c.peers.flatMap fun p => routesOf p.publicKey.bytes (ipcidrs p.allowedIPs) := by
  have hpeers : ∀ (ps : List Peer) (entries : List UapiEntry) (current : Option Str),
      peersUapi resolve ps = .ok entries → uapiRoutes current entries =
        ps.flatMap fun p => routesOf p.publicKey.bytes (ipcidrs p.allowedIPs) := by
    intro ps
    induction ps with
    | nil =>
      intro entries current h
      cases h
      rfl
    | cons p ps ih =>
      intro entries current h
      rw [peersUapi] at h
      split at h
      · cases h
      rename_i endpoint _
      cases hrest : peersUapi resolve ps with
      | error e =>
        rw [hrest] at h
        cases h
      | ok rest =>
        rw [hrest] at h
        cases h
        rw [uapiRoutes_peer, ih rest _ hrest, List.flatMap_cons]
  have hreplace : ∀ e ∈ (if c.peers.length > 0 then [("replace_peers", ascii "true")] else []
      : List UapiEntry), IsPlainLabel e.1 := optional_plain _ _ _ (by decide)
  rw [Config.uapiEntries, uapiRoutes_plain _ _ _ (interface_plain c.interface),
    uapiRoutes_plain _ _ _ hreplace, hpeers c.peers peers none h]

theorem endpointRoutes_config (c : Config) :
    endpointRoutes (c.peers.map endpointPeer) =
      c.peers.flatMap fun p => routesOf p.publicKey.bytes (endpointAllowedIPs p) := by
  unfold endpointRoutes
  rw [List.flatMap_map]
  apply List.flatMap_congr
  intro p _
  have hkey : (base64Decode (endpointPeer p).publicKey).toOption = some p.publicKey.bytes := by
    rw [show (endpointPeer p).publicKey = base64Encode p.publicKey.bytes from rfl,
      base64Decode_encode]
    rfl
  rw [hkey]
  exact List.append_nil _

end routes

section lookup

/-- The networks a peer lists. -/
def peerNets (p : Peer) : List Net := (ipcidrs p.allowedIPs).filterMap netOf

/-- A peer lists the default network of the family of the address. -/
def listsDefault (addr : Str) (p : Peer) : Bool :=
  (peerNets p).any fun n => n.contains addr && n.bits == 0

/-- Some peer lists a longer network that holds the address. -/
def listsLonger (c : Config) (addr : Str) : Bool :=
  c.peers.any fun p => (peerNets p).any fun n => n.contains addr && n.bits != 0

/-- The public key of the last peer with a property. -/
def lastKey (c : Config) (has : Peer → Bool) : Option Str :=
  (c.peers.reverse.find? has).map fun p => p.publicKey.bytes

/-- The routes of some peers, given the networks that are written for each. -/
def peerRoutes (texts : Peer → List Str) (c : Config) : List (Net × Str) :=
  c.peers.flatMap fun p => routesOf p.publicKey.bytes (texts p)

variable (addr : Str) (c : Config)

theorem routesOf_key (key : Str) (texts : List Str) : ∀ r ∈ routesOf key texts, r.2 = key := by
  intro r hr
  obtain ⟨text, -, hr⟩ := List.mem_filterMap.mp hr
  obtain ⟨net, -, rfl⟩ := Option.map_eq_some_iff.mp hr
  rfl

theorem mem_routesOf (key : Str) (texts : List Str) (r : Net × Str) :
    r ∈ routesOf key texts ↔ r.1 ∈ texts.filterMap netOf ∧ r.2 = key := by
  constructor
  · intro hr
    refine ⟨?_, routesOf_key key texts r hr⟩
    obtain ⟨text, htext, hr⟩ := List.mem_filterMap.mp hr
    obtain ⟨net, hnet, rfl⟩ := Option.map_eq_some_iff.mp hr
    exact List.mem_filterMap.mpr ⟨text, htext, hnet⟩
  · rintro ⟨hnet, hkey⟩
    obtain ⟨text, htext, hnet⟩ := List.mem_filterMap.mp hnet
    refine List.mem_filterMap.mpr ⟨text, htext, ?_⟩
    rw [hnet, ← hkey]
    rfl

/-- The last route of some peers belongs to the last peer that has one. -/
theorem getLast_flatMap_key (f : Peer → List (Net × Str))
    (hkey : ∀ p ∈ c.peers, ∀ r ∈ f p, r.2 = p.publicKey.bytes) :
    (c.peers.flatMap f).getLast?.map Prod.snd = lastKey c fun p => !(f p).isEmpty := by
  unfold lastKey
  generalize c.peers = ps at hkey
  induction ps with
  | nil => rfl
  | cons p ps ih =>
    obtain ⟨hp, hps⟩ := List.forall_mem_cons.mp hkey
    have hlast := ih hps
    rw [List.flatMap_cons, List.getLast?_append, List.reverse_cons, List.find?_append]
    cases hrest : (ps.flatMap f).getLast? with
    | some r =>
      rw [hrest] at hlast
      cases hfind : ps.reverse.find? fun p => !(f p).isEmpty with
      | none =>
        rw [hfind] at hlast
        cases hlast
      | some q =>
        rw [hfind] at hlast
        exact hlast
    | none =>
      rw [hrest] at hlast
      have hfind : ps.reverse.find? (fun p => !(f p).isEmpty) = none :=
        Option.map_eq_none_iff.mp hlast.symm
      rw [hfind, Option.none_or, Option.none_or, List.find?_cons]
      cases hf : f p with
      | nil => rfl
      | cons r rest =>
        have hmem : (r :: rest).getLast (List.cons_ne_nil _ _) ∈ f p := by
          rw [hf]
          exact List.getLast_mem _
        rw [List.getLast?_eq_getLast_of_ne_nil (List.cons_ne_nil _ _), Option.map_some, hp _ hmem]
        rfl

/-- Where no longer network holds the address, the last default route takes it. -/
theorem lookup_default (texts : Peer → List Str)
    (hzero : ∀ r ∈ peerRoutes texts c, r.1.contains addr = true → r.1.bits = 0) :
    (RouteTable.ofRoutes (peerRoutes texts c)).lookup addr =
      lastKey c fun p => ((texts p).filterMap netOf).any fun n => n.contains addr && n.bits == 0 := by
  let isDefault : Net × Str → Bool := fun r => r.1.contains addr && r.1.bits == 0
  have hfold : (peerRoutes texts c).foldl (RouteTable.choose addr) none =
      ((peerRoutes texts c).filter isDefault).getLast? := by
    by_cases hmem : ∃ r ∈ peerRoutes texts c, r.1.contains addr = true ∧ r.1.bits = 0
    · exact RouteTable.foldl_choose_eq_getLast addr _ 0 hmem
        fun r hr hc => Nat.le_of_eq (hzero r hr hc)
    · have hnil : (peerRoutes texts c).filter isDefault = [] := by
        rw [List.filter_eq_nil_iff]
        intro r hr hd
        simp only [isDefault, Bool.and_eq_true, beq_iff_eq] at hd
        exact hmem ⟨r, hr, hd⟩
      rw [hnil]
      cases hfound : (peerRoutes texts c).foldl (RouteTable.choose addr) none with
      | none => rfl
      | some f =>
        obtain ⟨hf, hfc⟩ := RouteTable.foldl_choose_mem addr _ f hfound
        exact absurd ⟨f, hf, hfc, hzero f hf hfc⟩ hmem
  rw [RouteTable.lookup, RouteTable.best_ofRoutes, hfold, peerRoutes, List.filter_flatMap,
    getLast_flatMap_key]
  · unfold lastKey
    congr 2
    funext p
    rw [Bool.eq_iff_iff]
    simp only [Bool.not_eq_true', List.isEmpty_eq_false_iff_exists_mem, List.mem_filter, isDefault,
      mem_routesOf, List.any_eq_true]
    constructor
    · rintro ⟨r, ⟨hnet, -⟩, hd⟩
      exact ⟨r.1, hnet, hd⟩
    · rintro ⟨n, hnet, hd⟩
      exact ⟨(n, p.publicKey.bytes), ⟨hnet, rfl⟩, hd⟩
  · intro p _ r hr
    exact routesOf_key _ _ r (List.mem_filter.mp hr).1

/-- The two networks written for a peer without any are the default ones of both families. -/
theorem filled_default (hlen : addr.length = 4 ∨ addr.length = 16) :
    ([ascii "0.0.0.0/0", ascii "::/0"].filterMap netOf).any
      (fun n => n.contains addr && n.bits == 0) = true := by
  have hnets : [ascii "0.0.0.0/0", ascii "::/0"].filterMap netOf =
      [⟨List.replicate 4 0, 0⟩, ⟨List.replicate 16 0, 0⟩] := by
    decide +kernel
  rw [hnets]
  rcases hlen with hlen | hlen
  · simp [Net.contains, maskBits_zero, hlen]
  · simp [Net.contains, maskBits_zero, hlen]

theorem filled_bits (n : Net) (h : n ∈ [ascii "0.0.0.0/0", ascii "::/0"].filterMap netOf) :
    n.bits = 0 := by
  have hall : ∀ n ∈ [ascii "0.0.0.0/0", ascii "::/0"].filterMap netOf, n.bits = 0 := by
    decide +kernel
  exact hall n h

/-- Both engines agree on the addresses of a longer network. -/
theorem lookup_longer (h : listsLonger c addr = true) :
    (RouteTable.ofRoutes (peerRoutes endpointAllowedIPs c)).lookup addr =
      (RouteTable.ofRoutes (peerRoutes (fun p => ipcidrs p.allowedIPs) c)).lookup addr := by
  obtain ⟨p, hp, hany⟩ := List.any_eq_true.mp h
  obtain ⟨n, hn, hd⟩ := List.any_eq_true.mp hany
  simp only [Bool.and_eq_true, bne_iff_ne] at hd
  have hroute : (n, p.publicKey.bytes) ∈ peerRoutes (fun p => ipcidrs p.allowedIPs) c :=
    List.mem_flatMap.mpr ⟨p, hp, (mem_routesOf _ _ _).mpr ⟨hn, rfl⟩⟩
  obtain ⟨f, hfound, hle⟩ := RouteTable.foldl_choose_max addr _ _ hroute hd.1
  obtain ⟨hf, hfc⟩ := RouteTable.foldl_choose_mem addr _ f hfound
  have hlong : f.1.bits ≠ 0 := by
    have := hd.2
    simp only at hle
    omega
  have hmax : ∀ r ∈ peerRoutes (fun p => ipcidrs p.allowedIPs) c, r.1.contains addr = true →
      r.1.bits ≤ f.1.bits := by
    intro r hr hc
    obtain ⟨g, hg, hle⟩ := RouteTable.foldl_choose_max addr _ r hr hc
    rw [hfound] at hg
    cases hg
    exact hle
  -- a route that only the engine has is a default one
  have hextra : ∀ p ∈ c.peers, ∀ r ∈ routesOf p.publicKey.bytes (endpointAllowedIPs p),
      r ∈ routesOf p.publicKey.bytes (ipcidrs p.allowedIPs) ∨ r.1.bits = 0 := by
    intro p _ r hr
    unfold endpointAllowedIPs at hr
    split at hr
    · exact Or.inr (filled_bits r.1 ((mem_routesOf _ _ _).mp hr).1)
    · exact Or.inl hr
  have hmax' : ∀ r ∈ peerRoutes endpointAllowedIPs c, r.1.contains addr = true →
      r.1.bits ≤ f.1.bits := by
    intro r hr hc
    obtain ⟨q, hq, hr⟩ := List.mem_flatMap.mp hr
    rcases hextra q hq r hr with hr | hzero
    · exact hmax r (List.mem_flatMap.mpr ⟨q, hq, hr⟩) hc
    · omega
  have hfilter : (peerRoutes endpointAllowedIPs c).filter
      (fun r => r.1.contains addr && r.1.bits == f.1.bits) =
      (peerRoutes (fun p => ipcidrs p.allowedIPs) c).filter
        (fun r => r.1.contains addr && r.1.bits == f.1.bits) := by
    rw [peerRoutes, peerRoutes, List.filter_flatMap, List.filter_flatMap]
    apply List.flatMap_congr
    intro q _
    unfold endpointAllowedIPs
    split
    · rename_i hnone
      rw [hnone]
      refine (List.filter_eq_nil_iff.mpr fun r hr hmatch => ?_).trans rfl
      simp only [Bool.and_eq_true, beq_iff_eq] at hmatch
      exact hlong (hmatch.2 ▸ filled_bits r.1 ((mem_routesOf _ _ _).mp hr).1)
    · rfl
  have hmem' : ∃ r ∈ peerRoutes endpointAllowedIPs c, r.1.contains addr = true ∧
      r.1.bits = f.1.bits := by
    have hf' : f ∈ (peerRoutes endpointAllowedIPs c).filter
        (fun r => r.1.contains addr && r.1.bits == f.1.bits) := by
      rw [hfilter]
      exact List.mem_filter.mpr ⟨hf, by simp [hfc]⟩
    exact ⟨f, (List.mem_filter.mp hf').1, hfc, rfl⟩
  rw [RouteTable.lookup, RouteTable.lookup, RouteTable.best_ofRoutes, RouteTable.best_ofRoutes,
    RouteTable.foldl_choose_eq_getLast addr _ f.1.bits hmem' hmax',
    RouteTable.foldl_choose_eq_getLast addr _ f.1.bits ⟨f, hf, hfc, rfl⟩ hmax, hfilter]

/-- Elsewhere the native tunnel asks who lists the default network, the engine who lists it or
nothing at all. -/
theorem lookup_shorter (hlen : addr.length = 4 ∨ addr.length = 16)
    (h : listsLonger c addr = false) :
    (RouteTable.ofRoutes (peerRoutes (fun p => ipcidrs p.allowedIPs) c)).lookup addr =
        lastKey c (listsDefault addr) ∧
      (RouteTable.ofRoutes (peerRoutes endpointAllowedIPs c)).lookup addr =
        lastKey c fun p => listsDefault addr p || p.allowedIPs = [] := by
  have hzero : ∀ p ∈ c.peers, ∀ n ∈ peerNets p, n.contains addr = true → n.bits = 0 := by
    intro p hp n hn hc
    have hpeer := (Bool.not_eq_true _).mp (List.any_eq_false.mp h p hp)
    have hany := List.any_eq_false.mp hpeer n hn
    simpa [hc] using hany
  constructor
  · apply lookup_default
    intro r hr hc
    obtain ⟨p, hp, hr⟩ := List.mem_flatMap.mp hr
    exact hzero p hp r.1 ((mem_routesOf _ _ _).mp hr).1 hc
  · rw [lookup_default]
    · unfold lastKey
      congr 2
      funext p
      unfold endpointAllowedIPs
      by_cases hnone : p.allowedIPs = []
      · rw [if_pos hnone, filled_default addr hlen, decide_eq_true hnone, Bool.or_true]
      · rw [if_neg hnone, decide_eq_false hnone, Bool.or_false]
        rfl
    · intro r hr hc
      obtain ⟨p, hp, hr⟩ := List.mem_flatMap.mp hr
      have hnet := ((mem_routesOf _ _ _).mp hr).1
      unfold endpointAllowedIPs at hnet
      split at hnet
      · exact filled_bits r.1 hnet
      · exact hzero p hp r.1 hnet hc

/-- The peers agree on who gets an address outside the longer networks. -/
def SamePeer : Prop :=
  listsLonger c addr = true ∨ lastKey c (listsDefault addr) = none ∨
    lastKey c (listsDefault addr) = lastKey c fun p => listsDefault addr p || p.allowedIPs = []

end lookup

theorem nativeTable_eq (resolve : Str → Except ResolveError Str) (c : Config)
    (peers : List UapiEntry) (hpeers : peersUapi resolve c.peers = .ok peers) :
    nativeTable (c.uapiEntries peers) =
      RouteTable.ofRoutes (peerRoutes (fun p => ipcidrs p.allowedIPs) c) := by
  rw [nativeTable, uapiRoutes_config resolve c peers hpeers]
  rfl

theorem smartTable_eq (c : Config) (endpoint : AwgEndpoint) (hendpoint : awgEndpoint c = .ok endpoint) :
    smartTable endpoint = RouteTable.ofRoutes (peerRoutes endpointAllowedIPs c) := by
  rw [smartTable, (awgEndpoint_ok hendpoint).2.2.1, endpointRoutes_config]
  rfl

section sample

def secondKey : Key := ⟨List.replicate 32 2, rfl⟩

/-- Two peers, the first one with the default route. -/
def twoPeers (nets : List IPCidr) : Config :=
  { sampleProfile with
    peers := sampleProfile.peers ++ [{ Peer.zero with
      publicKey := secondKey, allowedIPs := nets, endpoint := ⟨ascii "198.51.100.8", 51820⟩ }] }

def sampleResolve : Str → Except ResolveError Str := .ok

theorem twoPeers_uapi (nets : List IPCidr) (h : validateAWG (twoPeers nets) = .ok ()) :
    ∃ text peers, toUAPI sampleResolve (twoPeers nets) = .ok text ∧
      peersUapi sampleResolve (twoPeers nets).peers = .ok peers := by
  obtain ⟨peers, hpeers⟩ : ∃ peers, peersUapi sampleResolve (twoPeers nets).peers = .ok peers :=
    ⟨_, rfl⟩
  refine ⟨(((twoPeers nets).uapiEntries peers).flatMap fun e => uapiLine e ++ [0x0A]), peers, ?_,
    hpeers⟩
  unfold toUAPI
  rw [h, hpeers]

end sample

/-- The lines of `ToUAPI` and the endpoint of `BuildConfig` send an address to the same peer exactly
when a longer network holds it, no peer lists the default network, or no later peer without
networks takes it over. -/
theorem same_peer_iff (env : Env) (settings : RoutingSettings)
    (resolve : Str → Except ResolveError Str) (c : Config) (text : Str) (box : BoxConfig)
    (peers : List UapiEntry) (endpoint : AwgEndpoint) (addr : Str)
    (huapi : toUAPI resolve c = .ok text) (hpeers : peersUapi resolve c.peers = .ok peers)
    (hbuild : buildConfig env c settings = .ok box) (hendpoint : awgEndpoint c = .ok endpoint)
    (hlen : addr.length = 4 ∨ addr.length = 16) :
    text = ((c.uapiEntries peers).flatMap fun e => uapiLine e ++ [0x0A]) ∧
      box.endpoints.map AwgEndpoint.peers = [endpoint.peers] ∧
      ((∀ key, (nativeTable (c.uapiEntries peers)).lookup addr = some key →
        (smartTable endpoint).lookup addr = some key) ↔ SamePeer addr c) := by
  refine ⟨?_, ?_, ?_⟩
  · obtain ⟨es, hes, rfl⟩ := toUAPI_entries huapi
    rw [Except.ok.inj (hpeers.symm.trans hes)]
  · obtain ⟨n, endpoint', first, rest, -, hendpoint', -, rfl⟩ := buildConfig_ok env c settings box hbuild
    cases hendpoint.symm.trans hendpoint'
    rfl
  rw [nativeTable_eq resolve c peers hpeers, smartTable_eq c endpoint hendpoint]
  cases hlonger : listsLonger c addr with
  | true =>
    rw [lookup_longer addr c hlonger]
    exact iff_of_true (fun key hkey => hkey) (Or.inl hlonger)
  | false =>
    obtain ⟨hdefault, hfilled⟩ := lookup_shorter addr c hlen hlonger
    rw [hdefault, hfilled, SamePeer, hlonger]
    constructor
    · intro hsame
      cases hlast : lastKey c (listsDefault addr) with
      | none => exact Or.inr (Or.inl rfl)
      | some key => exact Or.inr (Or.inr (hsame key hlast).symm)
    · rintro (hlong | hnone | heq) key hkey
      · cases hlong
      · rw [hnone] at hkey
        cases hkey
      · rw [← heq]
        exact hkey

theorem same_peer_sample :
    ∃ text peers box endpoint,
      toUAPI sampleResolve (twoPeers [⟨[10, 0, 0, 0], 8⟩]) = .ok text ∧
      peersUapi sampleResolve (twoPeers [⟨[10, 0, 0, 0], 8⟩]).peers = .ok peers ∧
      buildConfig sampleEnv (twoPeers [⟨[10, 0, 0, 0], 8⟩]) (sampleSettings []) = .ok box ∧
      awgEndpoint (twoPeers [⟨[10, 0, 0, 0], 8⟩]) = .ok endpoint ∧
      ∀ key, (nativeTable ((twoPeers [⟨[10, 0, 0, 0], 8⟩]).uapiEntries peers)).lookup [10, 1, 2, 3] =
          some key → (smartTable endpoint).lookup [10, 1, 2, 3] = some key := by
  obtain ⟨text, peers, htext, hpeers⟩ := twoPeers_uapi [⟨[10, 0, 0, 0], 8⟩] (by decide +kernel)
  obtain ⟨box, hbox⟩ := Outcome.exists_of_isSome
    (buildConfig sampleEnv (twoPeers [⟨[10, 0, 0, 0], 8⟩]) (sampleSettings [])) (by decide +kernel)
  obtain ⟨n, endpoint, first, rest, -, hendpoint, -, -⟩ := buildConfig_ok _ _ _ _ hbox
  refine ⟨text, peers, box, endpoint, htext, hpeers, hbox, hendpoint, ?_⟩
  exact (same_peer_iff sampleEnv (sampleSettings []) sampleResolve _ text box peers endpoint
    [10, 1, 2, 3] htext hpeers hbox hendpoint (Or.inl rfl)).2.2.mpr (Or.inl (by decide +kernel))

/-- A second peer without networks takes every address from the first one. -/
theorem filled_networks_take_over :
    ∃ text peers box endpoint,
      toUAPI sampleResolve (twoPeers []) = .ok text ∧
      peersUapi sampleResolve (twoPeers []).peers = .ok peers ∧
      buildConfig sampleEnv (twoPeers []) (sampleSettings []) = .ok box ∧
      awgEndpoint (twoPeers []) = .ok endpoint ∧
      (nativeTable ((twoPeers []).uapiEntries peers)).lookup [1, 2, 3, 4] = some sampleKey.bytes ∧
      (smartTable endpoint).lookup [1, 2, 3, 4] = some secondKey.bytes := by
  obtain ⟨text, peers, htext, hpeers⟩ := twoPeers_uapi [] (by decide +kernel)
  obtain ⟨box, hbox⟩ := Outcome.exists_of_isSome
    (buildConfig sampleEnv (twoPeers []) (sampleSettings [])) (by decide +kernel)
  obtain ⟨n, endpoint, first, rest, -, hendpoint, -, -⟩ := buildConfig_ok _ _ _ _ hbox
  refine ⟨text, peers, box, endpoint, htext, hpeers, hbox, hendpoint, ?_⟩
  rw [nativeTable_eq sampleResolve _ peers hpeers, smartTable_eq _ endpoint hendpoint]
  decide +kernel

end SmartAwg.Smart
