import SmartAwg.ConfAccepted
import SmartAwg.GoNetMasks
import SmartAwg.RouteTable

/-!
The network setup of a native tunnel: the routes of `configureInterface`, the restriction of
`enableFirewall` and the test `hasDefaultRoute`. System calls are taken to succeed.
-/

namespace SmartAwg.Tunnel

open Go Conf

section networks

/-- `IPCidr.IPNet`; a prefix that is too long has no mask. -/
def ipNet (r : IPCidr) : IPNet :=
  ⟨r.ip, if r.cidr ≤ r.bits then cidrMask r.cidr.toNat (r.bits.toNat / 8) else []⟩

/-- `IPCidr.MaskSelf`, which indexes the address and the mask. -/
def maskSelf (r : IPCidr) : Outcome Err IPCidr :=
  let len := r.bits.toNat / 8
  if r.cidr ≤ r.bits ∧ len ≤ r.ip.length then
    .ok { r with ip := List.zipWith (· &&& ·) r.ip (cidrMask r.cidr.toNat len) ++ r.ip.drop len }
  else .panic

inductive Family where
  | v4
  | v6
  deriving DecidableEq

def ipv4zero : Str := v4InV6 ++ List.replicate 4 0

def ipv6zero : Str := List.replicate 16 0

structure RouteData where
  destination : IPNet
  nextHop : Str
  metric : Nat
  deriving DecidableEq

def RouteData.prefixLength (r : RouteData) : Option Nat := IPNet.maskLength r.destination.mask

end networks

section routes

/-- `bytes.Compare`. -/
def bytesCompare : Str → Str → Ordering
  | [], [] => .eq
  | [], _ :: _ => .lt
  | _ :: _, [] => .gt
  | a :: s, b :: t => if a < b then .lt else if b < a then .gt else bytesCompare s t

/-- The order of the routes: metric, next hop, address, mask. -/
def routeCompare (a b : RouteData) : Ordering :=
  (compare a.metric b.metric).then <| (bytesCompare a.nextHop b.nextHop).then <|
    (bytesCompare a.destination.ip b.destination.ip).then <|
      bytesCompare a.destination.mask b.destination.mask

/-- Equal neighbours are kept once. -/
def dropRepeated : List RouteData → List RouteData
  | [] => []
  | a :: rest =>
    match rest with
    | [] => [a]
    | b :: _ => if a = b then dropRepeated rest else a :: dropRepeated rest

def haveAddress (c : Config) (bits : UInt8) : Bool := c.interface.addresses.any fun a => a.bits == bits

/-- The route of an allowed IP, unless the interface has no address of its family. -/
def allowedRoute (c : Config) (a : IPCidr) : Outcome Err (List RouteData) := do
  let a ← maskSelf a
  if (a.bits == 32 && !haveAddress c 32) || (a.bits == 128 && !haveAddress c 128) then .ok []
  else .ok [{
    destination := ipNet a
    nextHop := if a.bits == 32 then ipv4zero else ipv6zero
    metric := 0 }]

def allowedRoutes (c : Config) : Outcome Err (List RouteData) :=
  forEach (fun routes a => do
    let new ← allowedRoute c a
    .ok (routes ++ new)) [] (c.peers.flatMap Peer.allowedIPs)

/-- `SetRoutesForFamily` adds the routes of one family. -/
def routesForFamily (family : Family) (routes : List RouteData) : List RouteData :=
  routes.filter fun r => (to4 r.destination.ip).isSome == (family == .v4)

/-- What `configureInterface` asks the system for. -/
structure InterfaceSetup where
  addresses : List IPNet
  routes : List RouteData
  mtu : Option Nat
  metricZero : Bool
  dns : List Str
  dnsSearch : List Str

def configureInterface (family : Family) (c : Config) : Outcome Err InterfaceSetup := do
  let routes ← allowedRoutes c
  let sorted := routes.mergeSort fun a b => (routeCompare a b).isLE
  .ok {
    addresses := c.interface.addresses.map ipNet
    routes := if c.interface.tableOff then [] else routesForFamily family (dropRepeated sorted)
    mtu := if c.interface.mtu > 0 then some c.interface.mtu.toNat else none
    -- the metric of the interface is fixed when a default route was found
    metricZero := (c.peers.flatMap Peer.allowedIPs).any fun a =>
      a.cidr == 0 && a.bits == (if family = .v4 then 32 else 128) && haveAddress c a.bits
    dns := c.interface.dns
    dnsSearch := c.interface.dnsSearch }

end routes

section firewall

/-- The first argument of interest of `EnableFirewall`: only a single peer with a default network
is restricted. -/
def doNotRestrict (c : Config) : Bool :=
  match c.peers with
  | [peer] => c.interface.tableOff || !peer.allowedIPs.any fun a => a.cidr == 0 && a.ip.all (· == 0)
  | _ => true

def Family.length : Family → Nat
  | .v4 => 4
  | .v6 => 16

/-- The zero address, and the one with the first bit set. -/
def Family.zero (f : Family) : Str := List.replicate f.length 0

def Family.half (f : Family) : Str := 0x80 :: List.replicate (f.length - 1) 0

def Family.other : Family → Family
  | .v4 => .v6
  | .v6 => .v4

/-- The address is one of the family; what `len(IP)` says in `hasDefaultRoute`. -/
def Family.lists (f : Family) (ip : Str) (bits : UInt8) (a : IPCidr) : Bool :=
  a.cidr == bits && a.ip.length == f.length && a.ip == ip

def hasDefaultRoute (f : Family) (peers : List Peer) : Bool :=
  let ips := peers.flatMap Peer.allowedIPs
  ips.any (f.lists f.zero 0) || (ips.any (f.lists f.zero 1) && ips.any (f.lists f.half 1))

end firewall

section installed

theorem mem_dropRepeated (routes : List RouteData) (r : RouteData) :
    r ∈ dropRepeated routes ↔ r ∈ routes := by
  induction routes with
  | nil => rfl
  | cons a rest ih =>
    cases rest with
    | nil => rfl
    | cons b rest =>
      rw [dropRepeated]
      split
      · rename_i heq
        rw [ih, heq]
        exact ⟨List.mem_cons_of_mem _, fun h => (List.mem_cons.mp h).elim (fun hr => hr ▸ List.mem_cons_self) id⟩
      · rw [List.mem_cons, ih]
        exact List.mem_cons.symm

theorem fits_bits (a : IPCidr) (h : a.Fits) :
    a.bits.toNat = 8 * a.ip.length ∧ a.cidr ≤ a.bits := by
  unfold IPCidr.bits
  rcases h with ⟨hlen, hcidr⟩ | ⟨hlen, hnone, hcidr⟩
  · have hsome : (to4 a.ip).isSome = true := by
      rw [to4_of_length_four a.ip hlen]
      rfl
    rw [if_pos hsome, hlen]
    exact ⟨rfl, UInt8.le_iff_toNat_le.mpr hcidr⟩
  · rw [hnone, hlen]
    exact ⟨rfl, UInt8.le_iff_toNat_le.mpr hcidr⟩

/-- The masked form of an allowed IP. -/
def masked (a : IPCidr) : IPCidr := { a with ip := maskBits a.ip a.cidr.toNat }

theorem maskSelf_fits (a : IPCidr) (h : a.Fits) : maskSelf a = .ok (masked a) := by
  obtain ⟨hbits, hcidr⟩ := fits_bits a h
  have hlen : a.bits.toNat / 8 = a.ip.length := by omega
  unfold maskSelf
  simp only [hlen]
  rw [if_pos ⟨hcidr, Nat.le_refl _⟩, zipWith_cidrMask, List.drop_length, List.append_nil]
  rfl

theorem masked_bits (a : IPCidr) (h : a.Fits) : (masked a).bits = a.bits := by
  unfold IPCidr.bits masked
  rcases h with ⟨hlen, -⟩ | ⟨hlen, hnone, -⟩
  · rw [to4_of_length_four _ hlen, to4_of_length_four _ ((maskBits_length _ _).trans hlen)]
    rfl
  · rw [hnone, to4_maskBits a.ip _ hlen hnone]

/-- The route of an allowed IP that fits. -/
def routeOf (a : IPCidr) : RouteData where
  destination := ⟨maskBits a.ip a.cidr.toNat, cidrMask a.cidr.toNat a.ip.length⟩
  nextHop := if a.bits == 32 then ipv4zero else ipv6zero
  metric := 0

theorem allowedRoute_fits (c : Config) (a : IPCidr) (h : a.Fits) :
    allowedRoute c a = .ok (if haveAddress c a.bits then [routeOf a] else []) := by
  obtain ⟨hbits, hcidr⟩ := fits_bits a h
  have hlen : a.bits.toNat / 8 = a.ip.length := by omega
  have hnet : ipNet (masked a) = (routeOf a).destination := by
    unfold ipNet
    rw [masked_bits a h, hlen, if_pos (show (masked a).cidr ≤ a.bits from hcidr)]
    rfl
  unfold allowedRoute
  rw [maskSelf_fits a h, Outcome.ok_bind, masked_bits a h, hnet]
  have hcases : a.bits = 32 ∨ a.bits = 128 := by
    unfold IPCidr.bits
    split
    · exact Or.inl rfl
    · exact Or.inr rfl
  rcases hcases with hb | hb
  · rw [hb]
    cases haveAddress c 32 <;> simp [routeOf, hb]
  · rw [hb]
    cases haveAddress c 128 <;> simp [routeOf, hb]

/-- The routes asked for are those of the allowed IPs whose family has an address. -/
theorem configureInterface_fits (f : Family) (c : Config)
    (h : ∀ a ∈ c.peers.flatMap Peer.allowedIPs, a.Fits) :
    ∃ setup, configureInterface f c = .ok setup ∧
      (c.interface.tableOff = false → ∀ r, r ∈ setup.routes ↔
        (∃ a ∈ c.peers.flatMap Peer.allowedIPs, haveAddress c a.bits = true ∧ r = routeOf a) ∧
          (to4 r.destination.ip).isSome = (f == .v4)) := by
  have hroutes : allowedRoutes c = .ok ((c.peers.flatMap Peer.allowedIPs).flatMap fun a =>
      if haveAddress c a.bits then [routeOf a] else []) := by
    rw [allowedRoutes, forEach_concat _ _ _ [] fun a ha => allowedRoute_fits c a (h a ha),
      List.nil_append]
  unfold configureInterface
  rw [hroutes, Outcome.ok_bind]
  refine ⟨_, rfl, fun htable r => ?_⟩
  simp only [htable, Bool.false_eq_true, if_false, routesForFamily, List.mem_filter,
    mem_dropRepeated, List.mem_mergeSort, List.mem_flatMap, beq_iff_eq]
  apply and_congr_left
  intro _
  constructor
  · rintro ⟨a, ha, hr⟩
    split at hr
    · rename_i haddr
      exact ⟨a, ha, haddr, List.mem_singleton.mp hr⟩
    · cases hr
  · rintro ⟨a, ha, haddr, rfl⟩
    refine ⟨a, ha, ?_⟩
    rw [if_pos haddr]
    exact List.mem_singleton_self _

end installed

section coverage

/-- The networks a peer lists, as the conditions below name them. -/
def Family.network (f : Family) (ip : Family → Str) (bits : UInt8) : IPCidr := ⟨ip f, bits⟩

/-- A default route of the family is either the zero network itself, or it is listed for the other
family and this one has both halves. -/
def Covered (f : Family) (ips : List IPCidr) : Prop :=
  (∃ a ∈ ips, a.ip.length = f.length ∧ a.cidr = 0) →
    f.network Family.zero 0 ∈ ips ∨
      (f.other.network Family.zero 0 ∈ ips ∧ f.network Family.zero 1 ∈ ips ∧
        f.network Family.half 1 ∈ ips)

theorem any_lists (f : Family) (ip : Family → Str) (bits : UInt8) (ips : List IPCidr)
    (hip : (ip f).length = f.length) :
    ips.any (f.lists (ip f) bits) = true ↔ f.network ip bits ∈ ips := by
  rw [List.any_eq_true]
  constructor
  · rintro ⟨a, ha, hlists⟩
    simp only [Family.lists, Bool.and_eq_true, beq_iff_eq] at hlists
    obtain ⟨⟨hcidr, -⟩, heq⟩ := hlists
    have hnet : a = f.network ip bits := by
      rw [Family.network, ← heq, ← hcidr]
    rwa [hnet] at ha
  · intro hmem
    refine ⟨_, hmem, ?_⟩
    simp [Family.lists, Family.network, hip]

theorem half_length (f : Family) : f.half.length = f.length := by cases f <;> rfl

theorem hasDefaultRoute_iff (f : Family) (peer : Peer) :
    hasDefaultRoute f [peer] = true ↔
      f.network Family.zero 0 ∈ peer.allowedIPs ∨
        (f.network Family.zero 1 ∈ peer.allowedIPs ∧ f.network Family.half 1 ∈ peer.allowedIPs) := by
  have hzero : f.zero.length = f.length := List.length_replicate
  unfold hasDefaultRoute
  simp only [List.flatMap_cons, List.flatMap_nil, List.append_nil, Bool.or_eq_true,
    Bool.and_eq_true]
  rw [any_lists f Family.zero 0 _ hzero, any_lists f Family.zero 1 _ hzero,
    any_lists f Family.half 1 _ (half_length f)]

/-- The firewall restricts when the zero network of one of the families is listed. -/
theorem doNotRestrict_iff (c : Config) (peer : Peer) (hpeer : c.peers = [peer])
    (htable : c.interface.tableOff = false) (hfits : ∀ a ∈ peer.allowedIPs, a.Fits) (f : Family) :
    doNotRestrict c = false ↔
      f.network Family.zero 0 ∈ peer.allowedIPs ∨ f.other.network Family.zero 0 ∈ peer.allowedIPs := by
  have hone : doNotRestrict c = false ↔ Family.v4.network Family.zero 0 ∈ peer.allowedIPs ∨
      Family.v6.network Family.zero 0 ∈ peer.allowedIPs := by
    unfold doNotRestrict
    simp only [hpeer, htable, Bool.false_or, Bool.not_eq_false', List.any_eq_true]
    constructor
    · rintro ⟨a, ha, hzero⟩
      simp only [Bool.and_eq_true, beq_iff_eq, List.all_eq_true] at hzero
      obtain ⟨hcidr, hbytes⟩ := hzero
      have hip : a.ip = List.replicate a.ip.length 0 := List.eq_replicate_of_mem hbytes
      rcases (hfits a ha).length with hlen | hlen
      · left
        have hnet : a = Family.v4.network Family.zero 0 := by
          rw [Family.network, Family.zero, Family.length, ← hlen, ← hip, ← hcidr]
        rwa [hnet] at ha
      · right
        have hnet : a = Family.v6.network Family.zero 0 := by
          rw [Family.network, Family.zero, Family.length, ← hlen, ← hip, ← hcidr]
        rwa [hnet] at ha
    · rintro (hmem | hmem)
      · exact ⟨_, hmem, by decide⟩
      · exact ⟨_, hmem, by decide⟩
  cases f with
  | v4 => exact hone
  | v6 => exact hone.trans or_comm

theorem routeOf_default (a : IPCidr) (h : a.Fits) :
    (routeOf a).prefixLength = some 0 ↔ a.cidr = 0 := by
  have hcidr : a.cidr.toNat ≤ 8 * a.ip.length := by
    rcases h with ⟨hlen, hle⟩ | ⟨hlen, -, hle⟩
    · rw [hlen]
      exact hle
    · rw [hlen]
      exact hle
  unfold RouteData.prefixLength routeOf
  rw [maskLength_cidrMask _ _ hcidr, Option.some.injEq]
  exact UInt8.toNat_inj (b := 0)

/-- Which family a route is added for. -/
theorem routeOf_family (a : IPCidr) (h : a.Fits) (f : Family) :
    (to4 (routeOf a).destination.ip).isSome = (f == .v4) ↔ a.ip.length = f.length := by
  have hip : (routeOf a).destination.ip = maskBits a.ip a.cidr.toNat := rfl
  rw [hip]
  rcases h with ⟨hlen, -⟩ | ⟨hlen, hnone, -⟩
  · rw [to4_of_length_four _ ((maskBits_length _ _).trans hlen), hlen, Option.isSome_some]
    cases f <;> decide
  · rw [to4_maskBits a.ip _ hlen hnone, hlen]
    cases f <;> decide

theorem haveAddress_family (c : Config) (hfits : ∀ a ∈ c.interface.addresses, a.Fits) (f : Family)
    (haddr : ∃ a ∈ c.interface.addresses, a.ip.length = f.length) (a : IPCidr) (ha : a.Fits)
    (hlen : a.ip.length = f.length) : haveAddress c a.bits = true := by
  obtain ⟨b, hb, hblen⟩ := haddr
  refine List.any_eq_true.mpr ⟨b, hb, beq_iff_eq.mpr (UInt8.toNat_inj.mp ?_)⟩
  rw [(fits_bits b (hfits b hb)).1, (fits_bits a ha).1, hblen, hlen]

end coverage

/-- A profile with one address and one peer, up to its networks. -/
def profile (nets : List IPCidr) : Config where
  name := ascii "home"
  interface := sampleInterface
  peers := [{ Peer.zero with publicKey := sampleKey, allowedIPs := nets }]

theorem profile_parses (nets : List IPCidr) (h : ∀ a ∈ nets, a.Fits) :
    fromWgQuick (toWgQuick (profile nets)) (ascii "home") = .ok (profile nets).reread := by
  apply wellFormed_reread (profile nets)
  refine ⟨?_, ?_, sampleInterface_wellFormed, ?_⟩
  · exact (sampleConfig_wellFormed (ascii "]#%") [] (by decide +kernel) (by decide +kernel)).name
  · exact (by decide +kernel : validateAWG (profile []) = .ok ())
  · intro p hp
    rw [List.mem_singleton.mp hp]
    exact ⟨(by decide : sampleKey.isZero = false), h, Or.inl rfl, Or.inl rfl, rfl, rfl, rfl⟩

/-- The kill switch covers the default routes of a profile with one peer exactly when the zero
network is what is listed for them. -/
theorem killSwitch_covers_iff (text name : Str) (c : Config) (peer : Peer) (f : Family)
    (hparse : fromWgQuick text name = .ok c) (hpeer : c.peers = [peer])
    (htable : c.interface.tableOff = false)
    (haddr : ∃ a ∈ c.interface.addresses, a.ip.length = f.length) :
    ∃ setup, configureInterface f c = .ok setup ∧
      (((∃ r ∈ setup.routes, r.prefixLength = some 0) →
        doNotRestrict c = false ∧ hasDefaultRoute f c.peers = true) ↔ Covered f peer.allowedIPs) := by
  obtain ⟨-, -, hinterface, -, hpeers⟩ := fromWgQuick_printable text name c hparse
  have hfits : ∀ a ∈ peer.allowedIPs, a.Fits :=
    (hpeers peer (hpeer ▸ List.mem_singleton_self _)).allowedIPs
  have hips : c.peers.flatMap Peer.allowedIPs = peer.allowedIPs := by
    rw [hpeer, List.flatMap_cons, List.flatMap_nil, List.append_nil]
  obtain ⟨setup, hsetup, hroutes⟩ := configureInterface_fits f c fun a ha => hfits a (hips ▸ ha)
  refine ⟨setup, hsetup, ?_⟩
  have hinstalled : (∃ r ∈ setup.routes, r.prefixLength = some 0) ↔
      ∃ a ∈ peer.allowedIPs, a.ip.length = f.length ∧ a.cidr = 0 := by
    constructor
    · rintro ⟨r, hr, hdefault⟩
      obtain ⟨⟨a, ha, -, rfl⟩, hfamily⟩ := (hroutes htable r).mp hr
      rw [hips] at ha
      exact ⟨a, ha, (routeOf_family a (hfits a ha) f).mp hfamily,
        (routeOf_default a (hfits a ha)).mp hdefault⟩
    · rintro ⟨a, ha, hlen, hcidr⟩
      refine ⟨routeOf a, (hroutes htable _).mpr ⟨⟨a, hips.symm ▸ ha, ?_, rfl⟩, ?_⟩, ?_⟩
      · exact haveAddress_family c hinterface.addresses f haddr a (hfits a ha) hlen
      · exact (routeOf_family a (hfits a ha) f).mpr hlen
      · exact (routeOf_default a (hfits a ha)).mpr hcidr
  rw [hinstalled, doNotRestrict_iff c peer hpeer htable hfits f, hpeer, hasDefaultRoute_iff, Covered]
  apply imp_congr_right
  intro _
  constructor
  · rintro ⟨hzero | hother, hdefault | hhalves⟩
    · exact Or.inl hzero
    · exact Or.inl hzero
    · exact Or.inl hdefault
    · exact Or.inr ⟨hother, hhalves⟩
  · rintro (hzero | ⟨hother, hhalves⟩)
    · exact ⟨Or.inl hzero, Or.inl hzero⟩
    · exact ⟨Or.inr hother, Or.inr hhalves⟩

theorem killSwitch_covers_sample :
    let c := (profile [⟨[0, 0, 0, 0], 0⟩]).reread
    fromWgQuick (toWgQuick (profile [⟨[0, 0, 0, 0], 0⟩])) (ascii "home") = .ok c ∧
      ∃ setup, configureInterface .v4 c = .ok setup ∧
        ((∃ r ∈ setup.routes, r.prefixLength = some 0) →
          doNotRestrict c = false ∧ hasDefaultRoute .v4 c.peers = true) := by
  have hparse := profile_parses [⟨[0, 0, 0, 0], 0⟩] (by decide)
  obtain ⟨setup, hsetup, hiff⟩ := killSwitch_covers_iff _ _ _ _ .v4 hparse rfl rfl
    ⟨⟨[10, 8, 0, 2], 32⟩, List.mem_singleton_self _, rfl⟩
  exact ⟨hparse, setup, hsetup, hiff.mpr fun _ => Or.inl (List.mem_singleton_self _)⟩

/-- The network `1.2.3.4/0` becomes a default route that nothing guards. -/
theorem killSwitch_unmasked_missed :
    let c := (profile [⟨[1, 2, 3, 4], 0⟩]).reread
    fromWgQuick (toWgQuick (profile [⟨[1, 2, 3, 4], 0⟩])) (ascii "home") = .ok c ∧
      (∃ setup, configureInterface .v4 c = .ok setup ∧
        ∃ r ∈ setup.routes, r.prefixLength = some 0) ∧
      doNotRestrict c = true ∧ hasDefaultRoute .v4 c.peers = false := by
  refine ⟨profile_parses _ (by decide), ?_, by decide +kernel, by decide +kernel⟩
  obtain ⟨setup, hsetup, hroutes⟩ := configureInterface_fits .v4
    (profile [⟨[1, 2, 3, 4], 0⟩]).reread (by decide +kernel)
  refine ⟨setup, hsetup, routeOf ⟨[1, 2, 3, 4], 0⟩,
    (hroutes rfl _).mpr ⟨⟨⟨[1, 2, 3, 4], 0⟩, List.mem_singleton_self _, ?_, rfl⟩, ?_⟩, ?_⟩
  · decide +kernel
  · decide +kernel
  · decide +kernel

end SmartAwg.Tunnel
