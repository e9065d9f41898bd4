import SmartAwg.ConfUapi
import SmartAwg.TunnelFirewall

/-!
The kill switch of the profile editor. Its check box rewrites the networks of the only peer: two
halves become the whole of a family, or the other way round. What is left of it is a text; the
tunnel is later set up from what is read of that text.
-/

namespace SmartAwg.Ui

open Go Conf Tunnel

section toggle

/-- `net.IP.Equal`. -/
def ipEqual (a b : Str) : Bool :=
  if a.length = b.length then a == b
  else if a.length = 4 ∧ b.length = 16 then b.take 12 == v4InV6 && a == b.drop 12
  else if a.length = 16 ∧ b.length = 4 then a.take 12 == v4InV6 && a.drop 12 == b
  else false

def equalIPCidrs (a b : IPCidr) : Bool := ipEqual a.ip b.ip && a.cidr == b.cidr

def v400 : IPCidr := ⟨ipv4zero, 0⟩

def v600000 : IPCidr := ⟨ipv6zero, 0⟩

def v401 : IPCidr := ⟨ipv4zero, 1⟩

def v600001 : IPCidr := ⟨ipv6zero, 1⟩

def v41281 : IPCidr := ⟨v4InV6 ++ [0x80, 0, 0, 0], 1⟩

def v680001 : IPCidr := ⟨0x80 :: List.replicate 15 0, 1⟩

/-- What the loop of the checked box has found, and what it keeps. -/
structure Halves where
  foundV401 : Bool
  foundV41281 : Bool
  foundV600001 : Bool
  foundV680001 : Bool
  newAllowedIPs : List IPCidr

def Halves.step (h : Halves) (allowedip : IPCidr) : Halves :=
  if equalIPCidrs allowedip v600001 then { h with foundV600001 := true }
  else if equalIPCidrs allowedip v680001 then { h with foundV680001 := true }
  else if equalIPCidrs allowedip v401 then { h with foundV401 := true }
  else if equalIPCidrs allowedip v41281 then { h with foundV41281 := true }
  else { h with newAllowedIPs := h.newAllowedIPs ++ [allowedip] }

/-- The networks of one family after the loop: both halves are one network. -/
def joinHalves (low high : Bool) (whole lowNet highNet : IPCidr) : List IPCidr :=
  if low && high then [whole] else if low then [lowNet] else if high then [highNet] else []

/-- The networks once the box is checked; `none` is the error exit. -/
def block (allowedIPs : List IPCidr) : Option (List IPCidr) :=
  let h := allowedIPs.foldl Halves.step ⟨false, false, false, false, []⟩
  if !((h.foundV401 && h.foundV41281) || (h.foundV600001 && h.foundV680001)) then none
  else some (h.newAllowedIPs ++ joinHalves h.foundV401 h.foundV41281 v400 v401 v41281 ++
    joinHalves h.foundV600001 h.foundV680001 v600000 v600001 v680001)

structure Defaults where
  foundV400 : Bool
  foundV600000 : Bool
  newAllowedIPs : List IPCidr

def Defaults.step (d : Defaults) (allowedip : IPCidr) : Defaults :=
  if equalIPCidrs allowedip v600000 then { d with foundV600000 := true }
  else if equalIPCidrs allowedip v400 then { d with foundV400 := true }
  else { d with newAllowedIPs := d.newAllowedIPs ++ [allowedip] }

/-- The networks once the box is cleared; `none` is the error exit. -/
def unblock (allowedIPs : List IPCidr) : Option (List IPCidr) :=
  let d := allowedIPs.foldl Defaults.step ⟨false, false, []⟩
  if !(d.foundV400 || d.foundV600000) then none
  else some (d.newAllowedIPs ++ (if d.foundV400 then [v401, v41281] else []) ++
    (if d.foundV600000 then [v600001, v680001] else []))

/-- The config that the check box makes of another one. -/
def toggled (checked : Bool) (cfg : Config) : Option Config :=
  match cfg.peers with
  | [peer] => (if checked then block peer.allowedIPs else unblock peer.allowedIPs).map fun newAllowedIPs =>
      { cfg with peers := [{ peer with allowedIPs := newAllowedIPs }] }
  | _ => none

/-- The text in the editor after the check box was changed. On the error exit the text is set
again, which only brings the check box back to it. -/
def onBlockUntunneledTrafficCBCheckedChanged (guard checked : Bool) (text : Str) : Outcome Err Str :=
  if guard then .ok text
  else
    match fromWgQuick text (ascii "temporary") with
    | .panic => .panic
    | .err _ => .ok text
    | .ok cfg =>
      match toggled checked cfg with
      | none => .ok text
      | some cfg' => .ok (toWgQuick cfg')

end toggle

section forms

/-- A network with the four bytes of an IPv4 address, as the reader has it. -/
def short (a : IPCidr) : IPCidr := { a with ip := (to4 a.ip).getD a.ip }

theorem to4_length {ip v : Str} (h : to4 ip = some v) : v.length = 4 := by
  unfold to4 at h
  split at h
  · cases h
    assumption
  · split at h
    · rename_i hform
      cases h
      rw [List.length_drop, hform.1]
    · cases h

theorem to4_getD (ip : Str) : to4 ((to4 ip).getD ip) = to4 ip := by
  cases h : to4 ip with
  | none => exact h
  | some v => exact to4_of_length_four v (to4_length h)

theorem short_of_fits {a : IPCidr} (h : a.Fits) : short a = a := by
  rcases h with ⟨hlen, -⟩ | ⟨-, hnone, -⟩
  · rw [short, to4_of_length_four _ hlen, Option.getD_some]
  · rw [short, hnone, Option.getD_none]

/-- A network that was read equals one of the dialog's if it is the short form of it. -/
theorem equalIPCidrs_iff {a b : IPCidr} (ha : a.Fits) (hb : b.ip.length = 16) :
    equalIPCidrs a b = true ↔ a = short b := by
  obtain ⟨ip, cidr⟩ := a
  obtain ⟨ip', cidr'⟩ := b
  simp only [equalIPCidrs, Bool.and_eq_true, beq_iff_eq, short, IPCidr.mk.injEq]
  refine and_congr_left fun _ => ?_
  simp only at hb
  rcases ha with ⟨hlen, -⟩ | ⟨hlen, hnone, -⟩
  · simp only at hlen
    rw [ipEqual, if_neg (by omega), if_pos ⟨hlen, hb⟩, Bool.and_eq_true, beq_iff_eq, beq_iff_eq]
    cases h4 : to4 ip' with
    | none =>
      rw [Option.getD_none]
      constructor
      · rintro ⟨hlead, -⟩
        rw [to4, if_neg (by omega), if_pos ⟨hb, hlead⟩] at h4
        cases h4
      · rintro rfl
        omega
    | some v =>
      rw [Option.getD_some]
      have hform := (to4_eq_some ip' v hb).mp h4
      rw [hform]
      simp [v4InV6]
  · simp only at hlen hnone
    rw [ipEqual, if_pos (by omega), beq_iff_eq]
    cases h4 : to4 ip' with
    | none => rfl
    | some v =>
      rw [Option.getD_some]
      constructor
      · rintro rfl
        rw [hnone] at h4
        cases h4
      · rintro rfl
        rw [to4_length h4] at hlen
        omega

theorem short_string (a : IPCidr) (h : a.ip.length = 4 ∨ a.ip.length = 16) : (short a).string = a.string := by
  obtain ⟨ip, cidr⟩ := a
  simp only [IPCidr.string, short]
  cases h4 : to4 ip with
  | none => rfl
  | some v =>
    rcases h with hlen | hlen
    · rw [to4_of_length_four _ hlen] at h4
      cases h4
      rfl
    · rw [Option.getD_some, (ipString_to4 ip v hlen h4).2]

theorem short_contains (a : IPCidr) (x : Str) : (ipNet (short a)).contains x = (ipNet a).contains x := by
  have hip : (to4 (ipNet (short a)).ip).getD (ipNet (short a)).ip = (to4 (ipNet a).ip).getD (ipNet a).ip := by
    change (to4 ((to4 a.ip).getD a.ip)).getD ((to4 a.ip).getD a.ip) = (to4 a.ip).getD a.ip
    rw [to4_getD]
    cases to4 a.ip <;> rfl
  have hbits : (short a).bits = a.bits := by
    rw [IPCidr.bits, IPCidr.bits, short, to4_getD]
  have hmask : (ipNet (short a)).mask = (ipNet a).mask := by
    rw [ipNet, ipNet, hbits]
    rfl
  have hnumber : (ipNet (short a)).numberAndMask = (ipNet a).numberAndMask := by
    simp only [IPNet.numberAndMask, hmask, hip]
  rw [IPNet.contains, IPNet.contains, hnumber]

/-- The networks of the dialog are those of the two families. -/
theorem short_networks :
    short v400 = Family.v4.network Family.zero 0 ∧ short v600000 = Family.v6.network Family.zero 0 ∧
      short v401 = Family.v4.network Family.zero 1 ∧ short v600001 = Family.v6.network Family.zero 1 ∧
      short v41281 = Family.v4.network Family.half 1 ∧ short v680001 = Family.v6.network Family.half 1 := by
  decide +kernel

end forms

section coverage

/-- The networks of a list cover an address. -/
def Covers (ips : List IPCidr) (x : Str) : Prop := ∃ a ∈ ips, (ipNet a).contains x = true

theorem covers_append (as bs : List IPCidr) (x : Str) : Covers (as ++ bs) x ↔ Covers as x ∨ Covers bs x := by
  simp only [Covers, List.mem_append, or_and_right, exists_or]

theorem covers_short (ips : List IPCidr) (x : Str) : Covers (ips.map short) x ↔ Covers ips x := by
  constructor
  · rintro ⟨_, hmem, hx⟩
    obtain ⟨a, ha, rfl⟩ := List.mem_map.mp hmem
    exact ⟨a, ha, short_contains a x ▸ hx⟩
  · rintro ⟨a, ha, hx⟩
    exact ⟨short a, List.mem_map_of_mem ha, (short_contains a x).trans hx⟩

/-- A mask of one bit, and of none, on an address of the family. -/
theorem zipWith_first (b m : UInt8) (rest : Str) (k : Nat) (h : rest.length = k) :
    List.zipWith (· &&& ·) (b :: rest) (m :: List.replicate k 0) = (b &&& m) :: List.replicate k 0 := by
  rw [List.zipWith_cons_cons]
  congr 1
  subst h
  induction rest with
  | nil => rfl
  | cons c rest ih =>
    rw [List.length_cons, List.replicate_succ, List.zipWith_cons_cons, ih]
    simp

theorem network_contains (f : Family) (number : Family → Str) (bits : UInt8) (first mask : UInt8) (x : Str)
    (h : (ipNet (f.network number bits)).numberAndMask =
      some (first :: List.replicate (f.length - 1) 0, mask :: List.replicate (f.length - 1) 0)) :
    (ipNet (f.network number bits)).contains x = true ↔
      ∃ b rest, (to4 x).getD x = b :: rest ∧ rest.length = f.length - 1 ∧ first &&& mask = b &&& mask := by
  rw [IPNet.contains, h]
  simp only [Bool.and_eq_true, beq_iff_eq, List.length_cons, List.length_replicate,
    zipWith_first first mask _ _ List.length_replicate]
  cases hx : (to4 x).getD x with
  | nil =>
    simp
  | cons b rest =>
    simp only [List.length_cons, Nat.add_right_cancel_iff, List.cons.injEq]
    constructor
    · rintro ⟨hlen, hsame⟩
      rw [zipWith_first b mask rest _ hlen] at hsame
      exact ⟨b, rest, ⟨rfl, rfl⟩, hlen, (List.cons.inj hsame).1⟩
    · rintro ⟨b', rest', ⟨rfl, rfl⟩, hlen, hsame⟩
      refine ⟨hlen, ?_⟩
      rw [zipWith_first b mask rest _ hlen, hsame]

/-- The whole of a family is its two halves. -/
theorem whole_contains (f : Family) (x : Str) :
    (ipNet (f.network Family.zero 0)).contains x = true ↔
      (ipNet (f.network Family.zero 1)).contains x = true ∨
        (ipNet (f.network Family.half 1)).contains x = true := by
  have hbit : ∀ b : UInt8, (0 : UInt8) &&& 0x80 = b &&& 0x80 ∨ (0x80 : UInt8) &&& 0x80 = b &&& 0x80 :=
    byte_forall _ (by decide +kernel)
  rw [network_contains f Family.zero 0 0 0 x (by cases f <;> decide +kernel),
    network_contains f Family.zero 1 0 0x80 x (by cases f <;> decide +kernel),
    network_contains f Family.half 1 0x80 0x80 x (by cases f <;> decide +kernel)]
  constructor
  · rintro ⟨b, rest, hx, hlen, -⟩
    exact (hbit b).imp (fun h => ⟨b, rest, hx, hlen, h⟩) fun h => ⟨b, rest, hx, hlen, h⟩
  · rintro (⟨b, rest, hx, hlen, -⟩ | ⟨b, rest, hx, hlen, -⟩)
    · exact ⟨b, rest, hx, hlen, by simp⟩
    · exact ⟨b, rest, hx, hlen, by simp⟩

theorem covers_joinHalves (low high : Bool) {whole lowNet highNet : IPCidr} (x : Str)
    (hwhole : (ipNet whole).contains x = true ↔
      (ipNet lowNet).contains x = true ∨ (ipNet highNet).contains x = true) :
    Covers (joinHalves low high whole lowNet highNet) x ↔
      low = true ∧ (ipNet lowNet).contains x = true ∨ high = true ∧ (ipNet highNet).contains x = true := by
  cases low <;> cases high <;> simp [Covers, joinHalves, hwhole]

/-- The two networks of a family in the dialog's form. -/
theorem whole_v4 (x : Str) : (ipNet v400).contains x = true ↔
    (ipNet v401).contains x = true ∨ (ipNet v41281).contains x = true := by
  obtain ⟨h400, -, h401, -, h41281, -⟩ := short_networks
  rw [← short_contains v400, ← short_contains v401, ← short_contains v41281, h400, h401, h41281]
  exact whole_contains .v4 x

theorem whole_v6 (x : Str) : (ipNet v600000).contains x = true ↔
    (ipNet v600001).contains x = true ∨ (ipNet v680001).contains x = true := by
  obtain ⟨-, h600000, -, h600001, -, h680001⟩ := short_networks
  rw [← short_contains v600000, ← short_contains v600001, ← short_contains v680001, h600000, h600001, h680001]
  exact whole_contains .v6 x

end coverage

section loops
variable {ips : List IPCidr} {b : IPCidr} {new : List IPCidr}

/-- None of the halves. -/
def isOther (a : IPCidr) : Bool :=
  !(equalIPCidrs a v600001 || equalIPCidrs a v680001 || equalIPCidrs a v401 || equalIPCidrs a v41281)

/-- Neither of the wholes. -/
def isPart (a : IPCidr) : Bool := !(equalIPCidrs a v600000 || equalIPCidrs a v400)

/-- A network that was read equals one of the dialog's exactly if it is listed. -/
theorem any_equal (hips : ∀ a ∈ ips, a.Fits) (hb : b.ip.length = 16) :
    (ips.any fun a => equalIPCidrs a b) = true ↔ short b ∈ ips := by
  rw [List.any_eq_true]
  constructor
  · rintro ⟨a, ha, heq⟩
    rwa [← (equalIPCidrs_iff (hips a ha) hb).mp heq]
  · intro hmem
    exact ⟨_, hmem, (equalIPCidrs_iff (hips _ hmem) hb).mpr rfl⟩

/-- A network equals at most one of the dialog's. -/
theorem equal_once {a c : IPCidr} (ha : a.Fits) (hb : b.ip.length = 16) (hc : c.ip.length = 16)
    (hne : short b ≠ short c) (h : equalIPCidrs a b = true) : equalIPCidrs a c = false := by
  by_contra hsame
  exact hne (((equalIPCidrs_iff ha hb).mp h).symm.trans
    ((equalIPCidrs_iff ha hc).mp (Bool.not_eq_false _ ▸ hsame)))

theorem halves_foldl (hips : ∀ a ∈ ips, a.Fits) (h : Halves) :
    ips.foldl Halves.step h =
      { foundV401 := h.foundV401 || ips.any fun a => equalIPCidrs a v401
        foundV41281 := h.foundV41281 || ips.any fun a => equalIPCidrs a v41281
        foundV600001 := h.foundV600001 || ips.any fun a => equalIPCidrs a v600001
        foundV680001 := h.foundV680001 || ips.any fun a => equalIPCidrs a v680001
        newAllowedIPs := h.newAllowedIPs ++ ips.filter isOther } := by
  induction ips generalizing h with
  | nil => simp
  | cons a rest ih =>
    obtain ⟨ha, hrest⟩ := List.forall_mem_cons.mp hips
    rw [List.foldl_cons, ih hrest]
    by_cases h1 : equalIPCidrs a v600001 = true
    · have h2 := equal_once ha rfl (c := v680001) rfl (by decide +kernel) h1
      have h3 := equal_once ha rfl (c := v401) rfl (by decide +kernel) h1
      have h4 := equal_once ha rfl (c := v41281) rfl (by decide +kernel) h1
      simp [Halves.step, isOther, h1, h2, h3, h4]
    by_cases h2 : equalIPCidrs a v680001 = true
    · have h3 := equal_once ha rfl (c := v401) rfl (by decide +kernel) h2
      have h4 := equal_once ha rfl (c := v41281) rfl (by decide +kernel) h2
      simp [Halves.step, isOther, h1, h2, h3, h4]
    by_cases h3 : equalIPCidrs a v401 = true
    · have h4 := equal_once ha rfl (c := v41281) rfl (by decide +kernel) h3
      simp [Halves.step, isOther, h1, h2, h3, h4]
    by_cases h4 : equalIPCidrs a v41281 = true
    · simp [Halves.step, isOther, h1, h2, h3, h4]
    · simp [Halves.step, isOther, h1, h2, h3, h4]

theorem defaults_foldl (hips : ∀ a ∈ ips, a.Fits) (d : Defaults) :
    ips.foldl Defaults.step d =
      { foundV400 := d.foundV400 || ips.any fun a => equalIPCidrs a v400
        foundV600000 := d.foundV600000 || ips.any fun a => equalIPCidrs a v600000
        newAllowedIPs := d.newAllowedIPs ++ ips.filter isPart } := by
  induction ips generalizing d with
  | nil => simp
  | cons a rest ih =>
    obtain ⟨ha, hrest⟩ := List.forall_mem_cons.mp hips
    rw [List.foldl_cons, ih hrest]
    by_cases h1 : equalIPCidrs a v600000 = true
    · have h2 := equal_once ha rfl (c := v400) rfl (by decide +kernel) h1
      simp [Defaults.step, isPart, h1, h2]
    by_cases h2 : equalIPCidrs a v400 = true
    · simp [Defaults.step, isPart, h1, h2]
    · simp [Defaults.step, isPart, h1, h2]

/-- What a list covers, with one network taken out of it. -/
theorem any_contains (hips : ∀ a ∈ ips, a.Fits) (hb : b.ip.length = 16) (x : Str) :
    (∃ a ∈ ips, equalIPCidrs a b = true ∧ (ipNet a).contains x = true) ↔
      (ips.any fun a => equalIPCidrs a b) = true ∧ (ipNet b).contains x = true := by
  rw [any_equal hips hb]
  constructor
  · rintro ⟨a, ha, heq, hx⟩
    have hshort := (equalIPCidrs_iff (hips a ha) hb).mp heq
    rw [hshort] at ha hx
    exact ⟨ha, (short_contains b x).symm.trans hx⟩
  · rintro ⟨hmem, hx⟩
    exact ⟨_, hmem, (equalIPCidrs_iff (hips _ hmem) hb).mpr rfl, (short_contains b x).trans hx⟩

theorem block_covers (hips : ∀ a ∈ ips, a.Fits) (h : block ips = some new) (x : Str) :
    Covers new x ↔ Covers ips x := by
  unfold block at h
  rw [halves_foldl hips] at h
  simp only [Bool.false_or, List.nil_append] at h
  split at h
  · cases h
  cases h
  rw [covers_append, covers_append, covers_joinHalves _ _ x (whole_v4 x), covers_joinHalves _ _ x (whole_v6 x),
    ← any_contains hips rfl, ← any_contains hips rfl, ← any_contains hips rfl, ← any_contains hips rfl]
  constructor
  · rintro ((⟨a, ha, hx⟩ | ⟨a, ha, -, hx⟩ | ⟨a, ha, -, hx⟩) | ⟨a, ha, -, hx⟩ | ⟨a, ha, -, hx⟩)
    · exact ⟨a, List.mem_of_mem_filter ha, hx⟩
    all_goals exact ⟨a, ha, hx⟩
  · rintro ⟨a, ha, hx⟩
    by_cases hother : isOther a = true
    · exact .inl (.inl ⟨a, List.mem_filter.mpr ⟨ha, hother⟩, hx⟩)
    · simp only [isOther, Bool.not_eq_true', Bool.not_eq_false, Bool.or_eq_true] at hother
      rcases hother with ((h1 | h2) | h3) | h4
      · exact .inr (.inl ⟨a, ha, h1, hx⟩)
      · exact .inr (.inr ⟨a, ha, h2, hx⟩)
      · exact .inl (.inr (.inl ⟨a, ha, h3, hx⟩))
      · exact .inl (.inr (.inr ⟨a, ha, h4, hx⟩))

theorem unblock_covers (hips : ∀ a ∈ ips, a.Fits) (h : unblock ips = some new) (x : Str) :
    Covers new x ↔ Covers ips x := by
  unfold unblock at h
  rw [defaults_foldl hips] at h
  simp only [Bool.false_or, List.nil_append] at h
  split at h
  · cases h
  cases h
  have hpair : ∀ (found : Bool) (a b : IPCidr), Covers (if found then [a, b] else []) x ↔
      found = true ∧ ((ipNet a).contains x = true ∨ (ipNet b).contains x = true) := by
    intro found a b
    cases found <;> simp [Covers]
  rw [covers_append, covers_append, hpair, hpair, ← whole_v4, ← whole_v6, ← any_contains hips rfl,
    ← any_contains hips rfl]
  constructor
  · rintro ((⟨a, ha, hx⟩ | ⟨a, ha, -, hx⟩) | ⟨a, ha, -, hx⟩)
    · exact ⟨a, List.mem_of_mem_filter ha, hx⟩
    all_goals exact ⟨a, ha, hx⟩
  · rintro ⟨a, ha, hx⟩
    by_cases hpart : isPart a = true
    · exact .inl (.inl ⟨a, List.mem_filter.mpr ⟨ha, hpart⟩, hx⟩)
    · simp only [isPart, Bool.not_eq_true', Bool.not_eq_false, Bool.or_eq_true] at hpart
      rcases hpart with h1 | h2
      · exact .inr ⟨a, ha, h1, hx⟩
      · exact .inl (.inr ⟨a, ha, h2, hx⟩)

/-- The networks that the dialog itself writes. -/
def networks : List IPCidr := [v400, v600000, v401, v600001, v41281, v680001]

theorem networks_forms : ∀ b ∈ networks, b.ip.length = 16 ∧ (short b).Fits := by decide +kernel

theorem mem_joinHalves {low high : Bool} {whole lowNet highNet : IPCidr}
    (h : b ∈ joinHalves low high whole lowNet highNet) : b ∈ [whole, lowNet, highNet] := by
  cases low <;> cases high <;> simp_all [joinHalves]

theorem mem_block (hips : ∀ a ∈ ips, a.Fits) (h : block ips = some new) :
    (∀ b ∈ new, b ∈ ips ∨ b ∈ networks) ∧ (v400 ∈ new ∨ v600000 ∈ new) := by
  unfold block at h
  rw [halves_foldl hips] at h
  simp only [Bool.false_or, List.nil_append] at h
  split at h
  · cases h
  rename_i hfound
  cases h
  constructor
  · intro b hb
    rcases List.mem_append.mp hb with hb | hb
    · rcases List.mem_append.mp hb with hb | hb
      · exact .inl (List.mem_of_mem_filter hb)
      · exact .inr ((by decide : [v400, v401, v41281] ⊆ networks) (mem_joinHalves hb))
    · exact .inr ((by decide : [v600000, v600001, v680001] ⊆ networks) (mem_joinHalves hb))
  · simp only [Bool.not_eq_true', Bool.not_eq_false, Bool.or_eq_true] at hfound
    rcases hfound with hboth | hboth
    · left
      simp [joinHalves, hboth]
    · right
      simp [joinHalves, hboth]

theorem mem_unblock (hips : ∀ a ∈ ips, a.Fits) (h : unblock ips = some new) :
    ∀ b ∈ new, b ∈ ips ∧ isPart b = true ∨ b ∈ [v401, v41281, v600001, v680001] := by
  unfold unblock at h
  rw [defaults_foldl hips] at h
  simp only [Bool.false_or, List.nil_append] at h
  split at h
  · cases h
  cases h
  have hpair : ∀ (found : Bool) {a b c : IPCidr}, c ∈ (if found then [a, b] else []) → c ∈ [a, b] := by
    intro found a b c hc
    cases found
    · cases hc
    · exact hc
  intro b hb
  rcases List.mem_append.mp hb with hb | hb
  · rcases List.mem_append.mp hb with hb | hb
    · exact .inl (List.mem_filter.mp hb)
    · exact .inr (List.mem_append_left [v600001, v680001] (hpair _ hb))
  · exact .inr (List.mem_append_right [v401, v41281] (hpair _ hb))

end loops

section rewritten
variable {c c' : Config} {peer : Peer} {checked : Bool} {new : List IPCidr} {ips : List IPCidr}

/-- The config with other networks of its only peer. -/
def withNetworks (c : Config) (peer : Peer) (ips : List IPCidr) : Config :=
  { c with peers := [{ peer with allowedIPs := ips }] }

/-- What the check box makes of the networks. -/
def rewrite (checked : Bool) (ips : List IPCidr) : Option (List IPCidr) :=
  if checked then block ips else unblock ips

theorem toggled_eq_some (h : toggled checked c = some c') :
    ∃ peer new, c.peers = [peer] ∧ rewrite checked peer.allowedIPs = some new ∧ c' = withNetworks c peer new := by
  unfold toggled at h
  split at h
  · rename_i peer hpeer
    obtain ⟨new, hnew, rfl⟩ := Option.map_eq_some_iff.mp h
    exact ⟨peer, new, hpeer, hnew, rfl⟩
  · cases h

theorem rewrite_covers (hips : ∀ a ∈ ips, a.Fits) (h : rewrite checked ips = some new) (x : Str) :
    Covers new x ↔ Covers ips x := by
  cases checked with
  | true => exact block_covers hips h x
  | false => exact unblock_covers hips h x

theorem mem_rewrite (hips : ∀ a ∈ ips, a.Fits) (h : rewrite checked ips = some new) :
    ∀ b ∈ new, b ∈ ips ∨ b ∈ networks := by
  cases checked with
  | true => exact (mem_block hips h).1
  | false =>
    intro b hb
    rcases mem_unblock hips h b hb with ⟨hold, -⟩ | hown
    · exact .inl hold
    · exact .inr ((by decide : [v401, v41281, v600001, v680001] ⊆ networks) hown)

/-- Every network of the new list is written, and its short form fits. -/
theorem rewrite_forms (hips : ∀ a ∈ ips, a.Fits) (h : rewrite checked ips = some new) :
    ∀ b ∈ new, (b.ip.length = 4 ∨ b.ip.length = 16) ∧ (short b).Fits := by
  intro b hb
  rcases mem_rewrite hips h b hb with hold | hown
  · exact ⟨(hips b hold).length, (short_of_fits (hips b hold)).symm ▸ hips b hold⟩
  · exact ⟨.inr (networks_forms b hown).1, (networks_forms b hown).2⟩

/-- A zero network is listed, once it is read again, exactly if the box was checked. -/
theorem rewrite_zero (hips : ∀ a ∈ ips, a.Fits) (h : rewrite checked ips = some new) :
    (Family.v4.network Family.zero 0 ∈ new.map short ∨ Family.v6.network Family.zero 0 ∈ new.map short) ↔
      checked = true := by
  obtain ⟨h400, h600000, -⟩ := short_networks
  rw [← h400, ← h600000]
  cases checked with
  | true =>
    refine iff_of_true ?_ rfl
    exact (mem_block hips h).2.imp List.mem_map_of_mem List.mem_map_of_mem
  | false =>
    refine iff_of_false ?_ Bool.false_ne_true
    -- a kept network was compared with the zero networks, and a half is none of them
    have hnot : ∀ z : IPCidr, z = v400 ∨ z = v600000 → short z ∉ new.map short := by
      rintro z hz hmem
      obtain ⟨b, hb, hsame⟩ := List.mem_map.mp hmem
      rcases mem_unblock hips h b hb with ⟨hold, hpart⟩ | hown
      · rw [short_of_fits (hips b hold)] at hsame
        simp only [isPart, Bool.not_eq_true', Bool.or_eq_false_iff] at hpart
        rcases hz with rfl | rfl
        · rw [(equalIPCidrs_iff (hips b hold) rfl).mpr hsame] at hpart
          cases hpart.2
        · rw [(equalIPCidrs_iff (hips b hold) rfl).mpr hsame] at hpart
          cases hpart.1
      · have hhalves : ∀ b ∈ [v401, v41281, v600001, v680001], short b ≠ short v400 ∧ short b ≠ short v600000 := by
          decide +kernel
        rcases hz with rfl | rfl
        · exact (hhalves b hown).1 hsame
        · exact (hhalves b hown).2 hsame
    rintro (hzero | hzero)
    · exact hnot v400 (.inl rfl) hzero
    · exact hnot v600000 (.inr rfl) hzero

/-- The short forms are written alike. -/
theorem toWgQuick_short (h : ∀ b ∈ new, b.ip.length = 4 ∨ b.ip.length = 16) :
    toWgQuick (withNetworks c peer (new.map short)) = toWgQuick (withNetworks c peer new) := by
  have htexts : (new.map short).map IPCidr.string = new.map IPCidr.string := by
    rw [List.map_map]
    exact List.map_congr_left fun b hb => short_string b (h b hb)
  have hentries : ({ peer with allowedIPs := new.map short } : Peer).entries =
      ({ peer with allowedIPs := new } : Peer).entries := by
    simp only [Peer.entries, Peer.entryGroups, htexts]
  simp only [toWgQuick, withNetworks, List.flatMap_cons, hentries]

end rewritten

section settings

/-- What the text has of a peer besides its networks; no keepalive is one of zero. -/
def peerSettings (p : Peer) : Key × Key × Endpoint × Str :=
  (p.publicKey, p.presharedKey, p.endpoint, p.uapiKeepalive)

structure SameSettings (c d : Config) : Prop where
  name : d.name = c.name
  interface : { d.interface with ipackets := c.interface.ipackets } = c.interface
  packet : ∀ k, d.interface.packet k = c.interface.packet k
  peers : d.peers.map peerSettings = c.peers.map peerSettings

theorem peerSettings_reread {t : Option Str} {p : Peer} (h : PeerOf t p) : peerSettings p.reread = peerSettings p := by
  have hendpoint : p.reread.endpoint = p.endpoint := by
    cases t with
    | none =>
      have hempty : p.endpoint = Endpoint.empty := h.endpoint
      simp [Peer.reread, hempty, Endpoint.empty]
    | some t =>
      have hne := (parseEndpoint_clean t p.endpoint h.endpoint.1 h.endpoint.2).1
      simp [Peer.reread, hne]
  have hkeepalive : p.reread.uapiKeepalive = p.uapiKeepalive := by
    by_cases hzero : p.persistentKeepalive = ascii "0" ∨ p.persistentKeepalive = ascii "off"
    · rcases hzero with hk | hk <;> simp [Peer.uapiKeepalive, Peer.reread, hk]
    · simp [Peer.uapiKeepalive, Peer.reread, hzero]
  simp only [peerSettings, hendpoint, hkeepalive]
  rfl

/-- The networks that the peers of a config route. -/
def routed (c : Config) : List IPCidr := c.peers.flatMap Peer.allowedIPs

/-- Changing the check box keeps the other settings and what is routed, and the firewall then
restricts exactly if it was checked, unless the endpoint of the profile is written in a way that is
not read again. -/
theorem toggle_keeps_routes_iff (text : Str) (c c' : Config) (checked : Bool)
    (hread : fromWgQuick text (ascii "temporary") = .ok c) (htoggle : toggled checked c = some c') :
    (∃ text' d, onBlockUntunneledTrafficCBCheckedChanged false checked text = .ok text' ∧
      fromWgQuick text' (ascii "temporary") = .ok d ∧ SameSettings c d ∧
      (∀ x, Covers (routed d) x ↔ Covers (routed c) x) ∧
      (c.interface.tableOff = false → (doNotRestrict d = false ↔ checked = true))) ↔
      ∀ t ∈ endpointTexts text, colonHost t = false := by
  obtain ⟨hname, hcname, hi, hv, hkeys, hof⟩ := fromWgQuick_accepted text _ c hread
  obtain ⟨-, -, -, -, hprint⟩ := fromWgQuick_printable text _ c hread
  obtain ⟨peer, new, hpeer, hnew, rfl⟩ := toggled_eq_some htoggle
  have hfits : ∀ a ∈ peer.allowedIPs, a.Fits := (hprint peer (hpeer ▸ List.mem_singleton_self _)).allowedIPs
  have hforms := rewrite_forms hfits hnew
  have hshown : onBlockUntunneledTrafficCBCheckedChanged false checked text =
      .ok (toWgQuick (withNetworks c peer new)) := by
    simp [onBlockUntunneledTrafficCBCheckedChanged, hread, htoggle]
  -- the config that is written has the same text as the one with the short forms
  let d := withNetworks c peer (new.map short)
  have htext : toWgQuick d = toWgQuick (withNetworks c peer new) := toWgQuick_short fun b hb => (hforms b hb).1
  obtain ⟨t, hmem, ht⟩ : ∃ t ∈ ((text.splitOn 0x0A).foldl scanLine (false, [])).2, PeerOf t peer :=
    forall₂_mem_left hof.flip (List.mem_reverse.mpr (hpeer ▸ List.mem_singleton_self _))
  have hprint' : ∀ p ∈ d.peers, p.Printable := by
    intro p hp
    rw [List.mem_singleton.mp hp]
    refine { hprint peer (hpeer ▸ List.mem_singleton_self _) with allowedIPs := fun a ha => ?_ }
    obtain ⟨b, hb, rfl⟩ := List.mem_map.mp ha
    exact (hforms b hb).2
  constructor
  · rintro ⟨text', d', htext', hd', -⟩ u hu
    cases hshown.symm.trans htext'
    obtain ⟨p, hp, hpt⟩ := forall₂_mem_left hof (List.reduceOption_mem_iff.mp hu)
    rw [hpeer] at hp
    cases List.mem_singleton.mp (List.mem_reverse.mp hp)
    rw [← htext] at hd'
    exact colonHost_of_reread d d' hi hprint' _ (List.mem_singleton_self _) u hpt.endpoint.1 hpt.endpoint.2 _ hd'
  · intro hall
    have hplain : ∀ u, t = some u → colonHost u = false := fun u hu =>
      hall u (List.reduceOption_mem_iff.mpr (hu ▸ hmem))
    have hv' : ValidAWG d := by
      have hkeepalives := hv.keepalives
      rw [hpeer] at hkeepalives
      exact { hv with keepalives := hkeepalives }
    have hd : fromWgQuick (toWgQuick (withNetworks c peer new)) (ascii "temporary") = .ok d.reread := by
      rw [← htext, ← hcname]
      refine fromWgQuick_toWgQuick d (hcname.symm ▸ hname) hi hprint' (fun p hp => ?_) hv'
      rw [List.mem_singleton.mp hp]
      exact ht.endpointReads hplain
    refine ⟨_, d.reread, hshown, hd, ⟨rfl, rfl, reread_packet c.interface, ?_⟩, fun x => ?_, fun htable => ?_⟩
    · rw [hpeer]
      have hsettings : peerSettings peer.reread = peerSettings peer := peerSettings_reread ht
      exact congrArg (fun s => [s]) hsettings
    · have hold : routed c = peer.allowedIPs := by
        rw [routed, hpeer, List.flatMap_cons, List.flatMap_nil, List.append_nil]
      have hnow : routed d.reread = new.map short := List.append_nil _
      rw [hold, hnow, covers_short, rewrite_covers hfits hnew]
    · have hrestrict := doNotRestrict_iff d.reread _ rfl htable (fun a ha => ?_) .v4
      · exact hrestrict.trans (rewrite_zero hfits hnew)
      · obtain ⟨b, hb, rfl⟩ := List.mem_map.mp ha
        exact (hforms b hb).2

/-- A profile with one peer, up to the lines of the peer. -/
def peerText (lines : Str) : Str :=
  ascii "[Interface]\nPrivateKey=" ++ sampleKeyText ++ ascii "\n[Peer]\nPublicKey=" ++ sampleKeyText ++ lines

def peerConfig (nets : List IPCidr) (endpoint : Endpoint) : Config where
  name := ascii "temporary"
  interface := { Interface.start with privateKey := sampleKey }
  peers := [{ Peer.zero with publicKey := sampleKey, allowedIPs := nets, endpoint := endpoint }]

theorem toggle_keeps_routes_halves :
    let text := peerText (ascii "\nAllowedIPs=0.0.0.0/1, 128.0.0.0/1")
    let c := peerConfig [⟨[0, 0, 0, 0], 1⟩, ⟨[128, 0, 0, 0], 1⟩] Endpoint.empty
    fromWgQuick text (ascii "temporary") = .ok c ∧ toggled true c = some (peerConfig [v400] Endpoint.empty) ∧
      ∃ text' d, onBlockUntunneledTrafficCBCheckedChanged false true text = .ok text' ∧
        fromWgQuick text' (ascii "temporary") = .ok d ∧ SameSettings c d ∧
        (∀ x, Covers (routed d) x ↔ Covers (routed c) x) ∧ (doNotRestrict d = false ↔ true = true) := by
  have hread : fromWgQuick (peerText (ascii "\nAllowedIPs=0.0.0.0/1, 128.0.0.0/1")) (ascii "temporary") =
      .ok (peerConfig [⟨[0, 0, 0, 0], 1⟩, ⟨[128, 0, 0, 0], 1⟩] Endpoint.empty) := by decide +kernel
  have htoggle : toggled true (peerConfig [⟨[0, 0, 0, 0], 1⟩, ⟨[128, 0, 0, 0], 1⟩] Endpoint.empty) =
      some (peerConfig [v400] Endpoint.empty) := by decide +kernel
  obtain ⟨text', d, hshown, hd, hsame, hroutes, hfirewall⟩ :=
    (toggle_keeps_routes_iff _ _ _ true hread htoggle).mpr (by decide +kernel)
  exact ⟨hread, htoggle, text', d, hshown, hd, hsame, hroutes, hfirewall rfl⟩

/-- With the endpoint `:abc:80` the text that the check box leaves is refused. -/
theorem toggle_loses_profile :
    let text := peerText (ascii "\nAllowedIPs=0.0.0.0/0\nEndpoint=:abc:80")
    fromWgQuick text (ascii "temporary") = .ok (peerConfig [⟨[0, 0, 0, 0], 0⟩] ⟨ascii ":abc", 80⟩) ∧
      toggled false (peerConfig [⟨[0, 0, 0, 0], 0⟩] ⟨ascii ":abc", 80⟩) =
        some (peerConfig [v401, v41281] ⟨ascii ":abc", 80⟩) ∧
      onBlockUntunneledTrafficCBCheckedChanged false false text =
        .ok (toWgQuick (peerConfig [v401, v41281] ⟨ascii ":abc", 80⟩)) ∧
      ∀ d, fromWgQuick (toWgQuick (peerConfig [v401, v41281] ⟨ascii ":abc", 80⟩)) (ascii "temporary") ≠ .ok d := by
  have hread : fromWgQuick (peerText (ascii "\nAllowedIPs=0.0.0.0/0\nEndpoint=:abc:80")) (ascii "temporary") =
      .ok (peerConfig [⟨[0, 0, 0, 0], 0⟩] ⟨ascii ":abc", 80⟩) := by decide +kernel
  have htoggle : toggled false (peerConfig [⟨[0, 0, 0, 0], 0⟩] ⟨ascii ":abc", 80⟩) =
      some (peerConfig [v401, v41281] ⟨ascii ":abc", 80⟩) := by decide +kernel
  refine ⟨hread, htoggle, ?_, fun d hd => ?_⟩
  · simp only [onBlockUntunneledTrafficCBCheckedChanged, hread, htoggle, Bool.false_eq_true, if_false]
  · have herr : (fromWgQuick (toWgQuick (peerConfig [v401, v41281] ⟨ascii ":abc", 80⟩)) (ascii "temporary")).toOption =
        none := by decide +kernel
    rw [hd] at herr
    cases herr

end settings

end SmartAwg.Ui
