import SmartAwg.TunnelRoutes

/-!
The bytes that `deterministicGUID` hashes: the name, the public key, and the peers with their
networks, each list sorted and with its length before it. The public key of a private one and the
normal form of Unicode are parameters.
-/

namespace SmartAwg.Tunnel

open Go Conf Std

section input

structure GuidEnv where
  publicKey : Key → Key
  /-- `norm.NFC`, which leaves ASCII as it is. -/
  nfc : Str → Str
  nfc_ascii : ∀ s, IsAscii s → nfc s = s

def deterministicGUIDLabel : Str := ascii "Deterministic WireGuard Windows GUID v1 jason@zx2c4.com"

/-- `binary.LittleEndian.PutUint32`. -/
def putUint32 (n : Nat) : Str :=
  [n.toUInt8, (n / 256).toUInt8, (n / 65536).toUInt8, (n / 16777216).toUInt8]

def b2Number (n : Nat) : Outcome Empty Str := if n > 4294967295 then .panic else .ok (putUint32 n)

def b2String (env : GuidEnv) (s : Str) : Outcome Empty Str := do
  let bytes := env.nfc s
  let length ← b2Number bytes.length
  .ok (length ++ bytes)

/-- The writes of a loop, one after the other. -/
def b2All : List (Outcome Empty Str) → Outcome Empty Str
  | [] => .ok []
  | x :: rest => do
    let bytes ← x
    let more ← b2All rest
    .ok (bytes ++ more)

def peerLess (a b : Peer) : Bool := bytesCompare a.publicKey.bytes b.publicKey.bytes == .lt

/-- The order of the allowed IPs: family, length, address. -/
def ipCompare (a b : IPCidr) : Ordering :=
  (compare a.bits b.bits).then <| (compare a.cidr b.cidr).then <| bytesCompare a.ip b.ip

def ipLess (a b : IPCidr) : Bool := ipCompare a b == .lt

def b2Peer (env : GuidEnv) (sorter : Sorter) (p : Peer) : Outcome Empty Str := do
  let count ← b2Number p.allowedIPs.length
  let ips ← b2All ((sorter.run ipLess p.allowedIPs).map fun a => b2String env a.string)
  .ok (p.publicKey.bytes ++ (count ++ ips))

/-- What `deterministicGUID` writes to the hash. -/
def deterministicGUID (env : GuidEnv) (sorter : Sorter) (c : Config) : Outcome Empty Str := do
  let name ← b2String env c.name
  let count ← b2Number c.peers.length
  let peers ← b2All ((sorter.run peerLess c.peers).map (b2Peer env sorter))
  .ok (deterministicGUIDLabel ++ (name ++
    ((env.publicKey c.interface.privateKey).bytes ++ (count ++ peers))))

/-- The same peer with its allowed IPs in another order. -/
def PeerRearranged (p q : Peer) : Prop :=
  ∃ ips, ips.Perm p.allowedIPs ∧ q = { p with allowedIPs := ips }

/-- The same profile with its peers, and the allowed IPs inside them, in another order. -/
def Rearranged (c c' : Config) : Prop :=
  ∃ mid peers, List.Forall₂ PeerRearranged c.peers mid ∧ peers.Perm mid ∧ c' = { c with peers }

end input

section numbers

theorem putUint32_inj (n m : Nat) (hn : n ≤ 4294967295) (hm : m ≤ 4294967295)
    (h : putUint32 n = putUint32 m) : n = m := by
  simp only [putUint32, List.cons.injEq, and_true, ← UInt8.toNat_inj, UInt8.toNat_ofNat'] at h
  omega

/-- The texts with their lengths before them. -/
def b2Strings (texts : List Str) : Str := texts.flatMap fun t => putUint32 t.length ++ t

/-- The lengths say where each text ends, so that the texts can be read back. -/
theorem b2Strings_inj (texts texts' : List Str) (rest rest' : Str)
    (hlen : texts.length = texts'.length) (h : ∀ t ∈ texts, t.length ≤ 4294967295)
    (h' : ∀ t ∈ texts', t.length ≤ 4294967295)
    (heq : b2Strings texts ++ rest = b2Strings texts' ++ rest') : texts = texts' := by
  induction texts generalizing texts' with
  | nil =>
    rw [List.eq_nil_of_length_eq_zero hlen.symm]
  | cons t texts ih =>
    cases texts' with
    | nil => cases hlen
    | cons t' texts' =>
      obtain ⟨ht, htexts⟩ := List.forall_mem_cons.mp h
      obtain ⟨ht', htexts'⟩ := List.forall_mem_cons.mp h'
      simp only [b2Strings, List.flatMap_cons, List.append_assoc] at heq
      obtain ⟨hnumber, heq⟩ := List.append_inj heq rfl
      obtain ⟨rfl, hrest⟩ := List.append_inj heq (putUint32_inj _ _ ht ht' hnumber)
      rw [ih texts' (Nat.succ.inj hlen) htexts htexts' hrest]

end numbers

section sorted

instance : TransCmp ipCompare := by
  have heq : ipCompare =
      compareLex (compareOn IPCidr.bits) (compareLex (compareOn IPCidr.cidr) (compareOn IPCidr.ip)) := by
    funext a b
    simp only [ipCompare, bytesCompare_eq]
    rfl
  rw [heq]
  infer_instance

theorem ipLess_iff (a b : IPCidr) : ipLess a b = true ↔ ipCompare a b = .lt := by
  simp [ipLess]

theorem eq_of_not_ipLess (a b : IPCidr) (hab : ipLess a b = false) (hba : ipLess b a = false) :
    a = b := by
  have hcmp := compare_eq_of_not_less ipCompare ipLess_iff a b hab hba
  obtain ⟨ip, cidr⟩ := a
  obtain ⟨ip', cidr'⟩ := b
  simp only [ipCompare, bytesCompare_eq, Ordering.then_eq_eq, LawfulEqCmp.compare_eq_iff_eq] at hcmp
  obtain ⟨-, rfl, rfl⟩ := hcmp
  rfl

/-- The allowed IPs have one sorted order. -/
theorem run_ipLess_eq (sorter sorter' : Sorter) (ips ips' : List IPCidr) (h : ips.Perm ips') :
    sorter.run ipLess ips = sorter'.run ipLess ips' := by
  have hless := StrictWeakOrder.of_compare ipCompare ipLess_iff
  apply List.Perm.eq_of_pairwise _ (sorter.sorted _ hless ips) (sorter'.sorted _ hless ips')
  · exact (sorter.perm _ _).trans (h.trans (sorter'.perm _ _).symm)
  · intro a b _ _ hba hab
    exact eq_of_not_ipLess a b hab hba

theorem peerLess_iff (a b : Peer) :
    peerLess a b = true ↔ compareOn (fun p : Peer => p.publicKey.bytes) a b = .lt := by
  simp [peerLess, bytesCompare_eq, compareOn]

theorem peerLess_strictWeakOrder : StrictWeakOrder peerLess :=
  StrictWeakOrder.of_compare _ peerLess_iff

theorem key_eq_of_not_peerLess (a b : Peer) (hab : peerLess a b = false)
    (hba : peerLess b a = false) : a.publicKey = b.publicKey := by
  have hcmp := compare_eq_of_not_less _ peerLess_iff a b hab hba
  rw [compareOn, LawfulEqCmp.compare_eq_iff_eq] at hcmp
  exact Key.mk.injEq _ _ _ _ ▸ hcmp

end sorted

section order

/-- Peers with one public key have the same allowed IPs, up to their order. -/
def KeysTell (c : Config) : Prop :=
  ∀ p ∈ c.peers, ∀ q ∈ c.peers, p.publicKey = q.publicKey → p.allowedIPs.Perm q.allowedIPs

/-- No list is longer than a length field can say. -/
def Countable (c : Config) : Prop :=
  c.peers.length ≤ 4294967295 ∧ ∀ p ∈ c.peers, p.allowedIPs.length ≤ 4294967295

variable (env : GuidEnv)

theorem b2Peer_congr (sorter sorter' : Sorter) (p q : Peer) (hkey : p.publicKey = q.publicKey)
    (hips : p.allowedIPs.Perm q.allowedIPs) : b2Peer env sorter p = b2Peer env sorter' q := by
  unfold b2Peer
  rw [run_ipLess_eq sorter sorter' _ _ hips, hips.length_eq, hkey]

/-- A peer by the key that it is sorted by and what is written for it. -/
def keyed (sorter : Sorter) (p : Peer) : Key × Outcome Empty Str := (p.publicKey, b2Peer env sorter p)

theorem keyed_rearranged (sorter sorter' : Sorter) {peers mid : List Peer}
    (h : List.Forall₂ PeerRearranged peers mid) :
    mid.map (keyed env sorter') = peers.map (keyed env sorter) := by
  induction h with
  | nil => rfl
  | cons hpeer _ ih =>
    obtain ⟨ips, hips, rfl⟩ := hpeer
    rw [List.map_cons, List.map_cons, ih]
    congr 1
    exact Prod.ext rfl (b2Peer_congr env sorter' sorter _ _ rfl hips)

/-- Where the keys tell the networks, the order of the peers does not show. -/
theorem deterministicGUID_rearranged (sorter sorter' : Sorter) (c c' : Config) (hc : KeysTell c)
    (h : Rearranged c c') : deterministicGUID env sorter' c' = deterministicGUID env sorter c := by
  obtain ⟨mid, peers, hmid, hperm, rfl⟩ := h
  have hlists : (sorter'.run peerLess peers).map (keyed env sorter') =
      (sorter.run peerLess c.peers).map (keyed env sorter) := by
    have hkeyed : (sorter'.run peerLess peers).map (keyed env sorter') |>.Perm
        (c.peers.map (keyed env sorter)) := by
      rw [← keyed_rearranged env sorter sorter' hmid]
      exact ((sorter'.perm _ _).trans hperm).map _
    refine @List.Perm.eq_of_pairwise _
      (fun x y => (bytesCompare y.1.bytes x.1.bytes == .lt) = false) _ _ ?_ ?_ ?_ ?_
    · intro x y hx hy hyx hxy
      -- both are written for peers of one profile, whose keys tell their networks
      obtain ⟨p, hp, rfl⟩ := List.mem_map.mp (hkeyed.mem_iff.mp hx)
      obtain ⟨q, hq, rfl⟩ := List.mem_map.mp hy
      have hkey := key_eq_of_not_peerLess p q hxy hyx
      have hips := hc p hp q ((sorter.perm _ _).mem_iff.mp hq) hkey
      exact Prod.ext hkey (b2Peer_congr env sorter sorter p q hkey hips)
    · exact List.pairwise_map.mpr (sorter'.sorted _ peerLess_strictWeakOrder _)
    · exact List.pairwise_map.mpr (sorter.sorted _ peerLess_strictWeakOrder _)
    · exact hkeyed.trans ((sorter.perm _ _).map _).symm
  have hblocks := congrArg (List.map Prod.snd) hlists
  rw [List.map_map, List.map_map] at hblocks
  have hcount : peers.length = c.peers.length := hperm.length_eq.trans hmid.length_eq.symm
  unfold deterministicGUID
  rw [show (sorter'.run peerLess peers).map (b2Peer env sorter') = _ from hblocks, hcount]
  rfl

theorem b2All_panic (l : List (Outcome Empty Str)) (h : .panic ∈ l) : b2All l = .panic := by
  induction l with
  | nil => cases h
  | cons x l ih =>
    rw [b2All]
    cases x with
    | err e => cases e
    | panic => rfl
    | ok bytes =>
      rw [Outcome.ok_bind, ih (by simpa using h)]
      rfl

theorem b2Number_of_gt (n : Nat) (h : 4294967295 < n) : b2Number n = .panic := if_pos h

/-- A list that is too long stops everything. -/
theorem deterministicGUID_uncountable (sorter : Sorter) (c : Config) (h : ¬Countable c) :
    deterministicGUID env sorter c = .panic := by
  unfold deterministicGUID
  cases b2String env c.name with
  | err e => cases e
  | panic => rfl
  | ok name =>
    rw [Outcome.ok_bind]
    by_cases hpeers : c.peers.length ≤ 4294967295
    · have hlong : ∃ p ∈ c.peers, 4294967295 < p.allowedIPs.length := by
        by_contra hnone
        apply h
        refine ⟨hpeers, ?_⟩
        intro p hp
        exact Nat.not_lt.mp fun hlt => hnone ⟨p, hp, hlt⟩
      obtain ⟨p, hp, hlt⟩ := hlong
      have hpanic : b2Peer env sorter p = .panic := by
        rw [b2Peer, b2Number_of_gt _ hlt]
        rfl
      have hmem : .panic ∈ (sorter.run peerLess c.peers).map (b2Peer env sorter) :=
        List.mem_map.mpr ⟨p, (sorter.perm _ _).mem_iff.mpr hp, hpanic⟩
      rw [b2All_panic _ hmem]
      cases b2Number c.peers.length with
      | err e => cases e
      | panic => rfl
      | ok count => rfl
    · rw [b2Number_of_gt _ (Nat.not_le.mp hpeers)]
      rfl

theorem Rearranged.countable {c c' : Config} (h : Rearranged c c') (hc' : Countable c') :
    Countable c := by
  obtain ⟨mid, peers, hmid, hperm, rfl⟩ := h
  obtain ⟨hlen, hpeers⟩ := hc'
  constructor
  · rw [hmid.length_eq, ← hperm.length_eq]
    exact hlen
  · intro p hp
    obtain ⟨q, hq, ips, hips, rfl⟩ := forall₂_mem_left hmid hp
    rw [← hips.length_eq]
    exact hpeers _ (hperm.mem_iff.mpr hq)

end order

section decode
variable (env : GuidEnv)

theorem b2Number_of_le (n : Nat) (h : n ≤ 4294967295) : b2Number n = .ok (putUint32 n) :=
  if_neg (Nat.not_lt.mpr h)

theorem b2All_ok {α : Type} (f : α → Outcome Empty Str) (g : α → Str) (l : List α)
    (h : ∀ a ∈ l, f a = .ok (g a)) : b2All (l.map f) = .ok (l.flatMap g) := by
  induction l with
  | nil => rfl
  | cons a l ih =>
    obtain ⟨ha, hl⟩ := List.forall_mem_cons.mp h
    rw [List.map_cons, b2All, ha, Outcome.ok_bind, ih hl]
    rfl

theorem ipCidr_string_length (a : IPCidr) (h : a.Fits) : a.string.length ≤ 4294967295 := by
  have hip := ipString_length_le a.ip h.length
  have hcidr : (itoa a.cidr.toNat).length ≤ 3 :=
    (digits_length_le 10 _ 3 (by decide) (by decide)).mpr (by have := a.cidr.toNat_lt; omega)
  rw [IPCidr.string, List.length_append, List.length_cons]
  omega

theorem isAddrByte_ascii (b : UInt8) (h : isAddrByte b = true) : b < 0x80 := by
  revert h
  exact byte_forall (fun b => isAddrByte b = true → b < 0x80) (by decide +kernel) b

theorem ipCidr_string_ascii (a : IPCidr) (h : a.Fits) : IsAscii a.string := by
  intro b hb
  rw [IPCidr.string, List.mem_append, List.mem_cons] at hb
  rcases hb with hip | rfl | hcidr
  · exact isAddrByte_ascii b (ipString_bytes a.ip h.length b hip)
  · decide
  · apply isAddrByte_ascii b
    rw [isAddrByte, isDigit_isHex b (itoa_isDigit _ b hcidr)]
    rfl

theorem b2String_ipCidr (a : IPCidr) (h : a.Fits) :
    b2String env a.string = .ok (putUint32 a.string.length ++ a.string) := by
  unfold b2String
  rw [env.nfc_ascii _ (ipCidr_string_ascii a h)]
  dsimp only
  rw [b2Number_of_le _ (ipCidr_string_length a h)]
  rfl

/-- The texts of the allowed IPs as they are written. -/
def sortedTexts (p : Peer) : List Str := (Sorter.stable.run ipLess p.allowedIPs).map IPCidr.string

def peerBytes (p : Peer) : Str :=
  p.publicKey.bytes ++ (putUint32 p.allowedIPs.length ++ b2Strings (sortedTexts p))

theorem b2Peer_eq (p : Peer) (hcount : p.allowedIPs.length ≤ 4294967295)
    (hfits : ∀ a ∈ p.allowedIPs, a.Fits) : b2Peer env Sorter.stable p = .ok (peerBytes p) := by
  have htexts := b2All_ok (fun a => b2String env a.string)
    (fun a => putUint32 a.string.length ++ a.string) (Sorter.stable.run ipLess p.allowedIPs)
    fun a ha => b2String_ipCidr env a (hfits a ((Sorter.stable.perm _ _).mem_iff.mp ha))
  rw [b2Peer, b2Number_of_le _ hcount, Outcome.ok_bind, htexts, Outcome.ok_bind, peerBytes,
    b2Strings, sortedTexts, List.flatMap_map]

/-- What is written for a peer, followed by anything, tells its allowed IPs. -/
theorem peerBytes_inj (p q : Peer) (rest rest' : Str) (hkey : p.publicKey = q.publicKey)
    (hp : p.allowedIPs.length ≤ 4294967295 ∧ ∀ a ∈ p.allowedIPs, a.Fits)
    (hq : q.allowedIPs.length ≤ 4294967295 ∧ ∀ a ∈ q.allowedIPs, a.Fits)
    (h : peerBytes p ++ rest = peerBytes q ++ rest') : p.allowedIPs.Perm q.allowedIPs := by
  have hlength (p : Peer) : (sortedTexts p).length = p.allowedIPs.length := by
    rw [sortedTexts, List.length_map, (Sorter.stable.perm _ _).length_eq]
  have hsorted (p : Peer) (hp : ∀ a ∈ p.allowedIPs, a.Fits) :
      ∀ a ∈ Sorter.stable.run ipLess p.allowedIPs, a.Fits :=
    fun a ha => hp a ((Sorter.stable.perm _ _).mem_iff.mp ha)
  have hshort (p : Peer) (hp : ∀ a ∈ p.allowedIPs, a.Fits) :
      ∀ t ∈ sortedTexts p, t.length ≤ 4294967295 := by
    intro t ht
    obtain ⟨a, ha, rfl⟩ := List.mem_map.mp ht
    exact ipCidr_string_length a (hsorted p hp a ha)
  simp only [peerBytes, List.append_assoc, hkey] at h
  obtain ⟨hcount, h⟩ := List.append_inj (List.append_cancel_left h) rfl
  have hsame : p.allowedIPs.length = q.allowedIPs.length := putUint32_inj _ _ hp.1 hq.1 hcount
  have htexts : sortedTexts p = sortedTexts q :=
    b2Strings_inj _ _ _ _ (by rw [hlength, hlength, hsame]) (hshort p hp.2) (hshort q hq.2) h
  have hread (p : Peer) (hp : ∀ a ∈ p.allowedIPs, a.Fits) :
      (sortedTexts p).map parseIPCidr = (Sorter.stable.run ipLess p.allowedIPs).map Outcome.ok := by
    rw [sortedTexts, List.map_map]
    exact List.map_congr_left fun a ha => parseIPCidr_string a (hsorted p hp a ha)
  have hips : Sorter.stable.run ipLess p.allowedIPs = Sorter.stable.run ipLess q.allowedIPs := by
    have hboth := congrArg (List.map parseIPCidr) htexts
    rw [hread p hp.2, hread q hq.2] at hboth
    exact List.map_injective_iff.mpr (fun a b hab => Outcome.ok.inj hab) hboth
  have hperm := Sorter.stable.perm ipLess p.allowedIPs
  rw [hips] at hperm
  exact hperm.symm.trans (Sorter.stable.perm _ _)

/-- What is written for peers that are sorted already. -/
theorem deterministicGUID_sorted (c : Config) (peers : List Peer) (name : Str)
    (hname : b2String env c.name = .ok name)
    (hsorted : peers.Pairwise fun a b => peerLess b a = false)
    (hcount : peers.length ≤ 4294967295)
    (hpeers : ∀ p ∈ peers, b2Peer env Sorter.stable p = .ok (peerBytes p)) :
    deterministicGUID env Sorter.stable { c with peers } =
      .ok (deterministicGUIDLabel ++ (name ++ ((env.publicKey c.interface.privateKey).bytes ++
        (putUint32 peers.length ++ peers.flatMap peerBytes)))) := by
  have hself : Sorter.stable.run peerLess peers = peers := by
    apply List.mergeSort_of_pairwise
    apply hsorted.imp
    intro a b hba
    rw [hba]
    rfl
  unfold deterministicGUID
  simp only [hname, hself, Outcome.ok_bind, b2Number_of_le _ hcount, b2All_ok _ _ _ hpeers]

theorem rearranged_of_perm (c : Config) (peers : List Peer) (h : peers.Perm c.peers) :
    Rearranged c { c with peers } :=
  ⟨c.peers, peers, List.forall₂_same.mpr fun p _ => ⟨p.allowedIPs, List.Perm.refl _, rfl⟩, h, rfl⟩

theorem swapped_perm {α : Type} (x y : α) (as bs cs : List α) :
    (as ++ y :: (bs ++ x :: cs)).Perm (as ++ x :: (bs ++ y :: cs)) := by
  apply List.Perm.append_left
  have hy : (y :: (bs ++ x :: cs)).Perm (y :: x :: (bs ++ cs)) := List.perm_middle.cons y
  have hx : (x :: (bs ++ y :: cs)).Perm (x :: y :: (bs ++ cs)) := List.perm_middle.cons x
  exact hy.trans ((List.Perm.swap x y _).trans hx.symm)

/-- Two peers with one key are sorted in both orders, and the bytes tell which was first. -/
theorem allowedIPs_perm_of_same (c : Config) (name : Str) (hname : b2String env c.name = .ok name)
    (x y : Peer) (as bs cs : List Peer)
    (hsorted : (as ++ x :: (bs ++ y :: cs)).Pairwise fun a b => peerLess b a = false)
    (hcount : (as ++ x :: (bs ++ y :: cs)).length ≤ 4294967295)
    (hpeers : ∀ p ∈ as ++ x :: (bs ++ y :: cs),
      p.allowedIPs.length ≤ 4294967295 ∧ ∀ a ∈ p.allowedIPs, a.Fits)
    (hkey : x.publicKey = y.publicKey)
    (hsame : deterministicGUID env Sorter.stable { c with peers := as ++ y :: (bs ++ x :: cs) } =
      deterministicGUID env Sorter.stable { c with peers := as ++ x :: (bs ++ y :: cs) }) :
    x.allowedIPs.Perm y.allowedIPs := by
  have hswap := swapped_perm x y as bs cs
  have hkeys : ∀ peers : List Peer, (peers.Pairwise fun a b => peerLess b a = false) ↔
      (peers.map Peer.publicKey).Pairwise fun k k' => (bytesCompare k'.bytes k.bytes == .lt) = false := by
    intro peers
    rw [List.pairwise_map]
    rfl
  have hsorted' : (as ++ y :: (bs ++ x :: cs)).Pairwise fun a b => peerLess b a = false := by
    rw [hkeys] at hsorted ⊢
    simpa only [List.map_append, List.map_cons, hkey] using hsorted
  have hblock : ∀ p ∈ as ++ x :: (bs ++ y :: cs), b2Peer env Sorter.stable p = .ok (peerBytes p) :=
    fun p hp => b2Peer_eq env p (hpeers p hp).1 (hpeers p hp).2
  rw [deterministicGUID_sorted env c _ name hname hsorted hcount hblock,
    deterministicGUID_sorted env c _ name hname hsorted' (hswap.length_eq ▸ hcount)
      fun p hp => hblock p (hswap.mem_iff.mp hp)] at hsame
  simp only [Outcome.ok.injEq, hswap.length_eq, List.append_cancel_left_eq, List.flatMap_append,
    List.flatMap_cons] at hsame
  exact peerBytes_inj x y _ _ hkey (hpeers x (by simp)) (hpeers y (by simp)) hsame.symm

theorem keysTell_of_orderFree (c : Config) (name : Str) (hname : b2String env c.name = .ok name)
    (hcount : Countable c) (hfits : ∀ p ∈ c.peers, ∀ a ∈ p.allowedIPs, a.Fits)
    (hfree : ∀ sorter sorter' c', Rearranged c c' →
      deterministicGUID env sorter' c' = deterministicGUID env sorter c) : KeysTell c := by
  have hperm := Sorter.stable.perm peerLess c.peers
  have hsorted := Sorter.stable.sorted peerLess peerLess_strictWeakOrder c.peers
  have htell (x y : Peer) (as bs cs : List Peer) (h : (as ++ x :: (bs ++ y :: cs)).Perm c.peers)
      (hs : (as ++ x :: (bs ++ y :: cs)).Pairwise fun a b => peerLess b a = false)
      (hkey : x.publicKey = y.publicKey) : x.allowedIPs.Perm y.allowedIPs := by
    apply allowedIPs_perm_of_same env c name hname x y as bs cs hs (h.length_eq ▸ hcount.1) _ hkey
    · exact (hfree Sorter.stable Sorter.stable _
        (rearranged_of_perm c _ ((swapped_perm x y as bs cs).trans h))).trans
        (hfree Sorter.stable Sorter.stable _ (rearranged_of_perm c _ h)).symm
    · intro p hp
      exact ⟨hcount.2 p (h.mem_iff.mp hp), hfits p (h.mem_iff.mp hp)⟩
  intro p hp q hq hkey
  obtain ⟨as, bs, hsplit⟩ := List.append_of_mem (hperm.mem_iff.mpr hp)
  rw [hsplit] at hperm hsorted
  -- the other peer is before the first one, is the first one, or is behind it
  rcases List.mem_append.mp (hperm.mem_iff.mpr hq) with hbefore | hafter
  · obtain ⟨as, mid, rfl⟩ := List.append_of_mem hbefore
    rw [List.append_assoc, List.cons_append] at hperm hsorted
    exact (htell q p as mid bs hperm hsorted hkey.symm).symm
  · rcases List.mem_cons.mp hafter with rfl | hafter
    · exact List.Perm.refl _
    · obtain ⟨mid, bs, rfl⟩ := List.append_of_mem hafter
      exact htell p q as mid bs hperm hsorted hkey

end decode

section main

/-- The bytes do not depend on the order of the peers and of their networks exactly when peers with
one public key have the same networks; profiles with lists too long to be counted apart. -/
theorem deterministicGUID_orderFree_iff (env : GuidEnv) (text name : Str) (c : Config)
    (h : fromWgQuick text name = .ok c) :
    (∀ sorter sorter' c', Rearranged c c' →
      deterministicGUID env sorter' c' = deterministicGUID env sorter c) ↔
      (Countable c → KeysTell c) := by
  constructor
  · intro hfree hcount
    obtain ⟨hvalid, hname, -⟩ := fromWgQuick_printable text name c h
    obtain ⟨hbytes, -, hlength⟩ := tunnelNameIsValid_format hvalid
    have hascii : env.nfc c.name = c.name := by
      apply env.nfc_ascii
      rw [hname]
      exact fun b hb => allowedNameByte_ascii b (hbytes b hb)
    have hwritten : b2String env c.name = .ok (putUint32 c.name.length ++ c.name) := by
      unfold b2String
      rw [hascii]
      dsimp only
      rw [b2Number_of_le _ (by rw [hname]; omega)]
      rfl
    exact keysTell_of_orderFree env c _ hwritten hcount (fromWgQuick_networks text name c h).2 hfree
  · intro htell sorter sorter' c' hc'
    by_cases hcount : Countable c
    · exact deterministicGUID_rearranged env sorter sorter' c c' (htell hcount) hc'
    · rw [deterministicGUID_uncountable env sorter c hcount,
        deterministicGUID_uncountable env sorter' c' fun hcount' => hcount (hc'.countable hcount')]

/-- Keys and texts as they are. -/
def plainGuidEnv : GuidEnv := ⟨id, id, fun _ _ => rfl⟩

/-- A profile with two peers. -/
def peersWith (key key' : Key) (nets nets' : List IPCidr) : Config :=
  { profile [] with peers := [{ Peer.zero with publicKey := key, allowedIPs := nets },
    { Peer.zero with publicKey := key', allowedIPs := nets' }] }

theorem peersWith_parses (key key' : Key) (nets nets' : List IPCidr) (hkey : key.isZero = false)
    (hkey' : key'.isZero = false) (hfits : ∀ a ∈ nets, a.Fits) (hfits' : ∀ a ∈ nets', a.Fits) :
    fromWgQuick (toWgQuick (peersWith key key' nets nets')) (ascii "home") = .ok (peersWith key key' nets nets').reread := by
  apply wellFormed_reread (peersWith key key' nets nets')
  refine ⟨?_, ?_, sampleInterface_wellFormed, ?_⟩
  · exact (sampleConfig_wellFormed (ascii "]#%") [] (by decide +kernel) (by decide +kernel)).name
  · exact (by decide +kernel : validateAWG (profile []) = .ok ())
  · intro p hp
    rcases List.mem_pair.mp hp with rfl | rfl
    · exact ⟨hkey, hfits, Or.inl rfl, Or.inl rfl, rfl, rfl, rfl⟩
    · exact ⟨hkey', hfits', Or.inl rfl, Or.inl rfl, rfl, rfl, rfl⟩

/-- Two peers with two networks each. -/
def otherKeys : Config :=
  peersWith ⟨List.replicate 32 5, rfl⟩ sampleKey [⟨[192, 168, 0, 0], 16⟩, ⟨[10, 0, 0, 0], 8⟩]
    [⟨[10, 2, 0, 0], 16⟩, ⟨[10, 1, 0, 0], 16⟩]

theorem otherKeys_orderFree :
    fromWgQuick (toWgQuick otherKeys) (ascii "home") = .ok otherKeys.reread ∧
      ∀ sorter sorter' c', Rearranged otherKeys.reread c' →
        deterministicGUID plainGuidEnv sorter' c' = deterministicGUID plainGuidEnv sorter otherKeys.reread := by
  have hparse : fromWgQuick (toWgQuick otherKeys) (ascii "home") = .ok otherKeys.reread :=
    peersWith_parses _ _ _ _ (by decide) (by decide) (by decide) (by decide)
  refine ⟨hparse, (deterministicGUID_orderFree_iff plainGuidEnv _ _ _ hparse).mpr ?_⟩
  intro _ p hp q hq hkey
  rcases List.mem_pair.mp hp with rfl | rfl <;> rcases List.mem_pair.mp hq with rfl | rfl
  · exact List.Perm.refl _
  · exact absurd hkey (by decide)
  · exact absurd hkey (by decide)
  · exact List.Perm.refl _

/-- Two peers that have one key. -/
def sameKeys : Config := peersWith sampleKey sampleKey [⟨[10, 0, 0, 0], 8⟩] [⟨[10, 1, 0, 0], 16⟩]

theorem sameKeys_parses :
    fromWgQuick (toWgQuick sameKeys) (ascii "home") = .ok sameKeys.reread :=
  peersWith_parses _ _ _ _ (by decide) (by decide) (by decide) (by decide)

theorem sameKeys_order_shows :
    fromWgQuick (toWgQuick sameKeys) (ascii "home") = .ok sameKeys.reread ∧
      Rearranged sameKeys.reread { sameKeys.reread with peers := sameKeys.reread.peers.reverse } ∧
      deterministicGUID plainGuidEnv Sorter.stable
          { sameKeys.reread with peers := sameKeys.reread.peers.reverse } ≠
        deterministicGUID plainGuidEnv Sorter.stable sameKeys.reread := by
  refine ⟨sameKeys_parses, rearranged_of_perm _ _ (List.reverse_perm _), ?_⟩
  intro hsame
  have hfits := (fromWgQuick_networks _ _ _ sameKeys_parses).2
  have hperm := allowedIPs_perm_of_same plainGuidEnv sameKeys.reread _ rfl
    sameKeys.reread.peers[0] sameKeys.reread.peers[1] [] [] [] (by decide +kernel) (by decide)
    (fun p hp => ⟨by revert p; decide +kernel, hfits p hp⟩) rfl hsame
  exact absurd hperm (by decide +kernel)

end main


end SmartAwg.Tunnel
