import SmartAwg.ConfFromUapi
import SmartAwg.GoSort
import SmartAwg.TunnelFirewall

/-!
The routes of a profile whose networks come from one of its readers: masking them is safe, and the
list that `configureInterface` sorts and rids of equal neighbours has each masked network once, in
the order of the comparison.
-/

namespace SmartAwg.Tunnel

open Go Conf Std

section bits

/-- The bit of an address at a position, counted from the front. -/
def ipBit (ip : Str) (i : Nat) : Bool := (ip.getD (i / 8) 0).toNat.testBit (7 - i % 8)

theorem ipBit_first (b : UInt8) (ip : Str) (i : Nat) (h : i < 8) :
    ipBit (b :: ip) i = b.toNat.testBit (7 - i) := by
  rw [ipBit, Nat.div_eq_of_lt h, Nat.mod_eq_of_lt h]
  rfl

theorem ipBit_later (b : UInt8) (ip : Str) (i : Nat) : ipBit (b :: ip) (i + 8) = ipBit ip i := by
  rw [ipBit, Nat.add_div_right i (by decide), Nat.add_mod_right]
  rfl

/-- The byte of a mask in which it ends. -/
theorem maskByte_testBit : ∀ n < 8, ∀ i < 8,
    (~~~((0xFF : UInt8) >>> n.toUInt8)).toNat.testBit (7 - i) = decide (i < n) := by
  decide

/-- Masking keeps the first bits and clears the others. -/
theorem maskBits_bit (ip : Str) (n i : Nat) :
    ipBit (maskBits ip n) i = (decide (i < n) && ipBit ip i) := by
  induction ip generalizing n i with
  | nil => simp [maskBits, ipBit]
  | cons b ip ih =>
    rw [maskBits]
    by_cases hi : i < 8
    · by_cases hn : 8 ≤ n
      · rw [if_pos hn, ipBit_first _ _ _ hi, ipBit_first _ _ _ hi, decide_eq_true (by omega),
          Bool.true_and]
      · rw [if_neg hn, ipBit_first _ _ _ hi, ipBit_first _ _ _ hi, UInt8.toNat_and,
          Nat.testBit_and, maskByte_testBit n (by omega) i hi, Bool.and_comm]
    · obtain ⟨j, rfl⟩ : ∃ j, i = j + 8 := ⟨i - 8, by omega⟩
      by_cases hn : 8 ≤ n
      · rw [if_pos hn, ipBit_later, ipBit_later, ih]
        congr 1
        exact decide_eq_decide.mpr (by omega)
      · rw [if_neg hn, ipBit_later, ipBit_later, ih, decide_eq_false (by omega),
          decide_eq_false (by omega)]

end bits

section masks

/-- What masking an address of a profile relies on and gives. -/
structure MaskSafe (r : IPCidr) : Prop where
  length : r.ip.length * 8 = r.bits.toNat
  cidr : r.cidr ≤ r.bits
  netMask : (ipNet r).mask.length = r.ip.length
  /-- No index is out of range, and the result is the network address. -/
  maskSelf : ∃ m, maskSelf r = .ok m ∧ m.bits = r.bits ∧ m.cidr = r.cidr ∧
    m.ip.length = r.ip.length ∧ (∀ i, ipBit m.ip i = (decide (i < r.cidr.toNat) && ipBit r.ip i)) ∧
    Tunnel.maskSelf m = .ok m

theorem masked_fits (r : IPCidr) (h : r.Fits) : (masked r).Fits := by
  unfold masked
  rcases h with ⟨hlen, hcidr⟩ | ⟨hlen, hnone, hcidr⟩
  · exact Or.inl ⟨(maskBits_length _ _).trans hlen, hcidr⟩
  · exact Or.inr ⟨(maskBits_length _ _).trans hlen, to4_maskBits r.ip _ hlen hnone, hcidr⟩

theorem masked_masked (r : IPCidr) : masked (masked r) = masked r := by
  unfold masked
  rw [maskBits_maskBits]

theorem maskSafe_of_fits (r : IPCidr) (h : r.Fits) : MaskSafe r := by
  obtain ⟨hbits, hcidr⟩ := fits_bits r h
  refine ⟨by omega, hcidr, ?_, masked r, maskSelf_fits r h, masked_bits r h, rfl, ?_, ?_, ?_⟩
  · simp only [ipNet, if_pos hcidr, cidrMask_length]
    omega
  · exact maskBits_length _ _
  · exact maskBits_bit _ _
  · rw [maskSelf_fits _ (masked_fits r h), masked_masked]

/-- The route of a network is the route of its masked form, and tells the masked form. -/
theorem routeOf_eq_iff (a b : IPCidr) (ha : a.Fits) (hb : b.Fits) :
    routeOf a = routeOf b ↔ masked a = masked b := by
  constructor
  · intro h
    have hip : maskBits a.ip a.cidr.toNat = maskBits b.ip b.cidr.toNat :=
      congrArg (fun r => r.destination.ip) h
    have hmask : cidrMask a.cidr.toNat a.ip.length = cidrMask b.cidr.toNat b.ip.length :=
      congrArg (fun r => r.destination.mask) h
    have hcidr : a.cidr.toNat = b.cidr.toNat := by
      have hlength := congrArg IPNet.maskLength hmask
      have hle (r : IPCidr) (hr : r.Fits) : r.cidr.toNat ≤ 8 * r.ip.length := by
        obtain ⟨hbits, hcidr⟩ := fits_bits r hr
        rw [← hbits]
        exact UInt8.le_iff_toNat_le.mp hcidr
      rwa [maskLength_cidrMask _ _ (hle a ha), maskLength_cidrMask _ _ (hle b hb),
        Option.some.injEq] at hlength
    unfold masked
    rw [hip, UInt8.toNat_inj.mp hcidr]
  · intro h
    have hself (r : IPCidr) (hr : r.Fits) : routeOf r = routeOf (masked r) := by
      simp only [routeOf, masked_bits r hr]
      simp only [masked, maskBits_maskBits, maskBits_length]
    rw [hself a ha, hself b hb, h]

end masks

section order

theorem bytesCompare_eq (s t : Str) : bytesCompare s t = compare s t := by
  induction s generalizing t with
  | nil => cases t <;> rfl
  | cons a s ih =>
    cases t with
    | nil => rfl
    | cons b t =>
      have hcons : compare (a :: s) (b :: t) = (compare a b).then (compare s t) :=
        List.compareLex_cons_cons
      have hbyte : compare a b = if a < b then .lt else if a = b then .eq else .gt := rfl
      rw [bytesCompare, ih, hcons, hbyte]
      by_cases hlt : a < b
      · rw [if_pos hlt, if_pos hlt]
        rfl
      · rw [if_neg hlt, if_neg hlt]
        by_cases heq : a = b
        · rw [if_pos heq, if_neg (heq ▸ UInt8.lt_irrefl a)]
          rfl
        · have hgt : b < a := UInt8.lt_of_le_of_ne (UInt8.not_lt.mp hlt) (Ne.symm heq)
          rw [if_neg heq, if_pos hgt]
          rfl

theorem routeCompare_eq : routeCompare =
    compareLex (compareOn RouteData.metric) (compareLex (compareOn RouteData.nextHop)
      (compareLex (compareOn fun r => r.destination.ip) (compareOn fun r => r.destination.mask))) := by
  funext a b
  simp only [routeCompare, bytesCompare_eq]
  rfl

instance : TransCmp routeCompare := by
  rw [routeCompare_eq]
  infer_instance

/-- The comparison is total: it ties equal routes only. -/
instance : LawfulEqCmp routeCompare where
  eq_of_compare := by
    rintro ⟨⟨ip, mask⟩, hop, metric⟩ ⟨⟨ip', mask'⟩, hop', metric'⟩ h
    simp only [routeCompare, bytesCompare_eq, Ordering.then_eq_eq,
      LawfulEqCmp.compare_eq_iff_eq] at h
    obtain ⟨rfl, rfl, rfl, rfl⟩ := h
    rfl

/-- The function that the routes are sorted by. -/
def routeLess (a b : RouteData) : Bool := routeCompare a b == .lt

theorem routeLess_iff (a b : RouteData) : routeLess a b = true ↔ routeCompare a b = .lt := by
  simp [routeLess]

theorem routeLess_strictWeakOrder : StrictWeakOrder routeLess :=
  StrictWeakOrder.of_compare routeCompare routeLess_iff

theorem eq_of_not_routeLess (a b : RouteData) (hab : routeLess a b = false)
    (hba : routeLess b a = false) : a = b :=
  LawfulEqCmp.eq_of_compare (compare_eq_of_not_less routeCompare routeLess_iff a b hab hba)

/-- Without equal neighbours a sorted list is strictly sorted. -/
theorem dropRepeated_sorted (routes : List RouteData)
    (h : routes.Pairwise fun a b => routeLess b a = false) :
    (dropRepeated routes).Pairwise fun a b => routeLess a b = true := by
  induction routes with
  | nil => exact List.Pairwise.nil
  | cons a rest ih =>
    obtain ⟨ha, hrest⟩ := List.pairwise_cons.mp h
    cases rest with
    | nil => exact List.pairwise_singleton _ _
    | cons b rest =>
      rw [dropRepeated]
      split
      · exact ih hrest
      · rename_i hne
        apply List.pairwise_cons.mpr
        refine ⟨?_, ih hrest⟩
        intro x hx
        rw [mem_dropRepeated] at hx
        -- a tie with a later route would be one with the neighbour
        by_contra hnot
        rw [Bool.not_eq_true] at hnot
        have hax : a = x := eq_of_not_routeLess a x hnot (ha x hx)
        have hbx : routeLess x b = false := by
          rcases List.mem_cons.mp hx with rfl | hx
          · exact routeLess_strictWeakOrder.irrefl _
          · exact (List.pairwise_cons.mp hrest).1 x hx
        exact hne (eq_of_not_routeLess a b (hax ▸ hbx) (ha b List.mem_cons_self))

/-- The sort has one result only, whichever sort it is. -/
theorem sorted_unique (l l' routes : List RouteData) (hl : l.Perm routes) (hl' : l'.Perm routes)
    (h : l.Pairwise fun a b => routeLess b a = false)
    (h' : l'.Pairwise fun a b => routeLess b a = false) : l = l' := by
  apply List.Perm.eq_of_pairwise _ h h' (hl.trans hl'.symm)
  intro a b _ _ hba hab
  exact eq_of_not_routeLess a b hab hba

theorem mergeSort_routeCompare (routes : List RouteData) :
    (routes.mergeSort fun a b => (routeCompare a b).isLE) = Sorter.stable.run routeLess routes := by
  have hle : ∀ a b, (routeCompare a b).isLE = !routeLess b a := by
    intro a b
    rw [routeLess, show routeCompare b a = (routeCompare a b).swap from OrientedCmp.eq_swap]
    cases routeCompare a b <;> rfl
  simp only [hle]
  rfl

end order

section routes

/-- The routes of `configureInterface` before they are split by family, with any sort. -/
def deduplicatedRoutes (sorter : Sorter) (c : Config) : Outcome Err (List RouteData) := do
  let routes ← allowedRoutes c
  .ok (dropRepeated (sorter.run routeLess routes))

/-- Every allowed IP whose family has an address has a route, and there are no others. -/
theorem allowedRoutes_fits (c : Config) (h : ∀ a ∈ c.peers.flatMap Peer.allowedIPs, a.Fits) :
    ∃ routes, allowedRoutes c = .ok routes ∧ ∀ r, r ∈ routes ↔
      ∃ a ∈ c.peers.flatMap Peer.allowedIPs, haveAddress c a.bits = true ∧ r = routeOf a := by
  refine ⟨_, forEach_concat _ _ _ [] fun a ha => allowedRoute_fits c a (h a ha), ?_⟩
  intro r
  simp only [List.nil_append, List.mem_flatMap, List.mem_ite_nil_right, List.mem_singleton]

/-- The list has the masked networks of the families with an address, each once and in order, and
the system is asked for those of one family. -/
theorem deduplicatedRoutes_fits (sorter : Sorter) (c : Config)
    (h : ∀ a ∈ c.peers.flatMap Peer.allowedIPs, a.Fits) :
    ∃ routes, deduplicatedRoutes sorter c = .ok routes ∧
      (routes.Pairwise fun a b => routeLess a b = true) ∧
      (∀ r, r ∈ routes ↔ ∃ a ∈ c.peers.flatMap Peer.allowedIPs,
        haveAddress c a.bits = true ∧ r = routeOf a) ∧
      ∀ f, ∃ setup, configureInterface f c = .ok setup ∧
        setup.routes = if c.interface.tableOff then [] else routesForFamily f routes := by
  obtain ⟨routes, hroutes, hmem⟩ := allowedRoutes_fits c h
  have hperm := sorter.perm routeLess routes
  have hsorted := sorter.sorted routeLess routeLess_strictWeakOrder routes
  refine ⟨dropRepeated (sorter.run routeLess routes), ?_, dropRepeated_sorted _ hsorted, ?_, ?_⟩
  · rw [deduplicatedRoutes, hroutes]
    rfl
  · intro r
    rw [mem_dropRepeated, hperm.mem_iff, hmem]
  · intro f
    have hmerge : (routes.mergeSort fun a b => (routeCompare a b).isLE) =
        sorter.run routeLess routes := by
      rw [mergeSort_routeCompare]
      exact sorted_unique _ _ routes (Sorter.stable.perm _ _) hperm
        (Sorter.stable.sorted _ routeLess_strictWeakOrder _) hsorted
    refine ⟨_, by rw [configureInterface, hroutes, Outcome.ok_bind], ?_⟩
    simp only [hmerge]

/-- The networks of a profile that was read from a file or from a device are canonical: masking
them is safe, and each masked network has one route. -/
theorem readNetworks_canonical (text name answer : Str) (c₀ c : Config)
    (hfile : fromWgQuick text name = .ok c₀)
    (hread : c = c₀ ∨ fromUAPI answer c₀ = .ok c) (sorter : Sorter) :
    (∀ r ∈ c.interface.addresses ++ c.peers.flatMap Peer.allowedIPs, MaskSafe r) ∧
    ∃ routes, deduplicatedRoutes sorter c = .ok routes ∧
      (routes.Pairwise fun a b => routeLess a b = true) ∧
      (∀ r, r ∈ routes ↔ ∃ a ∈ c.peers.flatMap Peer.allowedIPs,
        haveAddress c a.bits = true ∧ r = routeOf (masked a)) ∧
      (∀ a ∈ c.peers.flatMap Peer.allowedIPs, ∀ b ∈ c.peers.flatMap Peer.allowedIPs,
        routeOf (masked a) = routeOf (masked b) → masked a = masked b) ∧
      ∀ f, ∃ setup, configureInterface f c = .ok setup ∧
        setup.routes = if c.interface.tableOff then [] else routesForFamily f routes := by
  have hnetworks : c.Networks := by
    have hold := fromWgQuick_networks text name c₀ hfile
    rcases hread with rfl | hread
    · exact hold
    · exact fromUAPI_networks answer c₀ c hread hold
  have hfits : ∀ a ∈ c.peers.flatMap Peer.allowedIPs, a.Fits := by
    intro a ha
    obtain ⟨p, hp, hap⟩ := List.mem_flatMap.mp ha
    exact hnetworks.2 p hp a hap
  have hself : ∀ a ∈ c.peers.flatMap Peer.allowedIPs, routeOf (masked a) = routeOf a := by
    intro a ha
    rw [routeOf_eq_iff _ _ (masked_fits a (hfits a ha)) (hfits a ha), masked_masked]
  obtain ⟨routes, hroutes, hsorted, hmem, hsetup⟩ := deduplicatedRoutes_fits sorter c hfits
  refine ⟨?_, routes, hroutes, hsorted, ?_, ?_, hsetup⟩
  · intro r hr
    rcases List.mem_append.mp hr with haddr | hallowed
    · exact maskSafe_of_fits r (hnetworks.1 r haddr)
    · exact maskSafe_of_fits r (hfits r hallowed)
  · intro r
    rw [hmem]
    constructor
    · rintro ⟨a, ha, haddr, rfl⟩
      exact ⟨a, ha, haddr, (hself a ha).symm⟩
    · rintro ⟨a, ha, haddr, rfl⟩
      exact ⟨a, ha, haddr, hself a ha⟩
  · intro a ha b hb hsame
    rw [hself a ha, hself b hb] at hsame
    exact (routeOf_eq_iff a b (hfits a ha) (hfits b hb)).mp hsame

/-- The answer of a device with one peer. -/
def sampleAnswer : Str :=
  ascii "public_key=" ++ sampleKey.hexString ++ ascii "\nallowed_ip=10.1.2.3/16\nerrno=0\n\n"

/-- An unmasked network of a device gets the route of its network. -/
theorem readNetworks_device :
    ∃ c, fromUAPI sampleAnswer (profile []).reread = .ok c ∧
      c.peers.flatMap Peer.allowedIPs = [⟨[10, 1, 2, 3], 16⟩] ∧ MaskSafe ⟨[10, 1, 2, 3], 16⟩ ∧
      ∃ routes, deduplicatedRoutes Sorter.stable c = .ok routes ∧
        ∀ r, r ∈ routes → r.destination = ⟨[10, 1, 0, 0], [255, 255, 0, 0]⟩ := by
  have hanswer : (fromUAPI sampleAnswer (profile []).reread).toOption.map
      (fun c => c.peers.flatMap Peer.allowedIPs) = some [⟨[10, 1, 2, 3], 16⟩] := by
    decide +kernel
  obtain ⟨c, hread⟩ := Outcome.exists_of_isSome (fromUAPI sampleAnswer (profile []).reread)
    (by decide +kernel)
  have hips : c.peers.flatMap Peer.allowedIPs = [⟨[10, 1, 2, 3], 16⟩] := by
    rw [hread] at hanswer
    exact Option.some.inj hanswer
  obtain ⟨hsafe, routes, hroutes, -, hmem, -⟩ := readNetworks_canonical _ _ _ _ c
    (profile_parses [] (by decide)) (Or.inr hread) Sorter.stable
  rw [hips] at hsafe hmem
  refine ⟨c, hread, hips, hsafe _ (by simp), routes, hroutes, ?_⟩
  intro r hr
  obtain ⟨a, ha, -, rfl⟩ := (hmem r).mp hr
  rw [List.mem_singleton.mp ha]
  decide +kernel

end routes

end SmartAwg.Tunnel
