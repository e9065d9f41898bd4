import SmartAwg.GoNetCIDR

/-!
Masks of networks and the text of a network: a mask keeps the first bits of an address, and the text of
a masked network is read back as that network.
-/

namespace SmartAwg.Go

section masks

theorem masked_byte_ne (b : UInt8) (n : Nat) (h : n < 8) :
    b &&& ~~~((0xFF : UInt8) >>> n.toUInt8) ≠ 0xFF := by
  have hall : ∀ n : Fin 8, (~~~((0xFF : UInt8) >>> n.val.toUInt8)).toNat < 255 := by decide
  have hmask := hall ⟨n, h⟩
  intro hones
  have hnat := congrArg UInt8.toNat hones
  rw [UInt8.toNat_and] at hnat
  have hle := Nat.and_le_right (n := b.toNat) (m := (~~~((0xFF : UInt8) >>> n.toUInt8)).toNat)
  have hvalue : (0xFF : UInt8).toNat = 255 := rfl
  simp only at hmask
  omega

/-- Masking an address is taking its bits up to the length of the mask. -/
theorem zipWith_cidrMask (ip : Str) (n : Nat) :
    List.zipWith (· &&& ·) ip (cidrMask n ip.length) = maskBits ip n := by
  unfold cidrMask
  induction ip generalizing n with
  | nil => rfl
  | cons b ip ih =>
    rw [List.length_cons, List.replicate_succ, maskBits, maskBits]
    split
    · rw [List.zipWith_cons_cons, ih]
      congr 1
      exact UInt8.toBitVec_inj.mp BitVec.and_allOnes
    · rw [List.zipWith_cons_cons, ih]
      congr 2
      exact UInt8.toBitVec_inj.mp BitVec.allOnes_and

/-- A byte of ones is left only where the mask does not reach. -/
theorem maskBits_ones (ip : Str) (n i : Nat) (h : (maskBits ip n)[i]? = some 0xFF) :
    8 * (i + 1) ≤ n ∧ (maskBits ip n).take (i + 1) = ip.take (i + 1) := by
  induction ip generalizing n i with
  | nil => cases h
  | cons b ip ih =>
    rw [maskBits] at h ⊢
    by_cases hn : 8 ≤ n
    · rw [if_pos hn] at h ⊢
      cases i with
      | zero => exact ⟨by omega, rfl⟩
      | succ i =>
        obtain ⟨hle, htake⟩ := ih (n - 8) i (by simpa using h)
        refine ⟨by omega, ?_⟩
        rw [List.take_succ_cons, List.take_succ_cons, htake]
    · rw [if_neg hn] at h
      cases i with
      | zero => exact absurd (Option.some.inj h) (masked_byte_ne b n (by omega))
      | succ i =>
        have := (ih 0 i (by simpa using h)).1
        omega

/-- Masking never makes an IPv6 address look like an IPv4 one. -/
theorem to4_maskBits (ip : Str) (n : Nat) (hlen : ip.length = 16) (h : to4 ip = none) :
    to4 (maskBits ip n) = none := by
  have hmask := maskBits_length ip n
  cases hto4 : to4 (maskBits ip n) with
  | none => rfl
  | some v =>
    exfalso
    unfold to4 at hto4 h
    rw [if_neg (by omega)] at hto4 h
    split at hto4
    · rename_i hfront
      obtain ⟨-, hfront⟩ := hfront
      have hones : (maskBits ip n)[11]? = some 0xFF := by
        have hget := congrArg (fun l : Str => l[11]?) hfront
        simpa [v4InV6, List.getElem?_take] using hget
      have htake := (maskBits_ones ip n 11 hones).2
      rw [if_pos ⟨hlen, htake ▸ hfront⟩] at h
      cases h
    · cases hto4

theorem cidrMask_succ (n len : Nat) : cidrMask n (len + 1) =
    if 8 ≤ n then 0xFF :: cidrMask (n - 8) len
    else ((0xFF : UInt8) &&& ~~~((0xFF : UInt8) >>> n.toUInt8)) :: List.replicate len 0 := by
  rw [cidrMask, List.replicate_succ, maskBits, maskBits_zero, List.length_replicate]
  rfl

/-- The length of a mask is read off its bits. -/
theorem maskLength_cidrMask (n len : Nat) (h : n ≤ 8 * len) :
    IPNet.maskLength (cidrMask n len) = some n := by
  induction len generalizing n with
  | zero =>
    obtain rfl : n = 0 := by omega
    rfl
  | succ len ih =>
    rw [cidrMask_succ]
    split
    · rw [IPNet.maskLength, ih (n - 8) (by omega), Option.map_some]
      congr 1
      omega
    · rename_i hn
      have hall : ∀ m : Fin 8, (0xFF : UInt8) &&& ~~~((0xFF : UInt8) >>> m.val.toUInt8) ≠ 0xFF ∧
          (List.range 8).find? (fun k => ((0xFF : UInt8) &&& ~~~((0xFF : UInt8) >>> m.val.toUInt8)) ==
            ~~~((0xFF : UInt8) >>> k.toUInt8)) = some m.val := by
        decide +kernel
      obtain ⟨hne, hfind⟩ := hall ⟨n, Nat.lt_of_not_le hn⟩
      rw [IPNet.maskLength, hfind]
      · simp
      · exact hne

end masks

section text

theorem decVal_itoa (n : Nat) : decVal (itoa n) = n := by
  refine digits_induction 10 (by decide) (fun m s => decVal s = m) ?_ ?_ n
  · intro d hd
    simp [decVal, (digitByte_decimal d hd).2]
  · intro m d s _ hd _ ih
    rw [decVal, List.foldl_append]
    change decVal s * 10 + digitVal (digitByte d) = m * 10 + d
    rw [ih, (digitByte_decimal d hd).2]

theorem maskBits_whole (ip : Str) (n : Nat) (h : 8 * ip.length ≤ n) : maskBits ip n = ip := by
  induction ip generalizing n with
  | nil => rfl
  | cons b ip ih =>
    rw [List.length_cons] at h
    rw [maskBits, if_pos (by omega), ih _ (by omega)]

theorem maskBits_maskBits (ip : Str) (n : Nat) : maskBits (maskBits ip n) n = maskBits ip n := by
  induction ip generalizing n with
  | nil => rfl
  | cons b ip ih =>
    rw [maskBits]
    split
    · rename_i hn
      rw [maskBits, if_pos hn, ih]
    · rename_i hn
      rw [maskBits, if_neg hn, ih]
      congr 1
      rw [UInt8.and_assoc, UInt8.and_self]

theorem maskBits_drop (ip : Str) (n k : Nat) (h : 8 * k ≤ n) :
    (maskBits ip n).drop k = maskBits (ip.drop k) (n - 8 * k) := by
  induction k generalizing ip n with
  | zero => rfl
  | succ k ih =>
    cases ip with
    | nil => rfl
    | cons b ip =>
      rw [maskBits, if_pos (by omega), List.drop_succ_cons, List.drop_succ_cons, ih _ _ (by omega)]
      congr 1
      omega

/-- A network in the form it is written in: an address of either length, never a mapped one, with the
bits behind the mask cleared. -/
structure Masked (number : Str) (bits : Nat) : Prop where
  family : number.length = 4 ∨ number.length = 16 ∧ to4 number = none
  bits_le : bits ≤ 8 * number.length
  cleared : maskBits number bits = number

/-- The text of a network. -/
def netText (number : Str) (bits : Nat) : Str := ipString number ++ 0x2F :: itoa bits

theorem cidrMask_length (n len : Nat) : (cidrMask n len).length = len := by
  rw [cidrMask, maskBits_length, List.length_replicate]

theorem ipMask_four (ip mask : Str) (hip : ip.length = 4) (hmask : mask.length = 4) :
    ipMask (v4InV6 ++ ip) mask = List.zipWith (· &&& ·) ip mask := by
  have hfront : (v4InV6 ++ ip).take 12 = v4InV6 := List.take_left' rfl
  have hback : (v4InV6 ++ ip).drop 12 = ip := List.drop_left' rfl
  have hlong : (v4InV6 ++ ip).length = 16 := by
    rw [List.length_append, hip]
    rfl
  simp [ipMask, hmask, hlong, hfront, hback, hip]

theorem ipMask_sixteen (ip mask : Str) (hip : ip.length = 16) (hmask : mask.length = 16) :
    ipMask ip mask = List.zipWith (· &&& ·) ip mask := by
  simp [ipMask, hmask, hip]

/-- `IP.Mask` clears the bits of an address in the length it was written in. -/
theorem ipMask_as16 (a : Addr) (n : Nat) (h : a.bytes.length = 4 ∨ a.bytes.length = 16) :
    ipMask a.as16 (cidrMask n a.bytes.length) = maskBits a.bytes n := by
  have hlen := cidrMask_length n a.bytes.length
  rcases h with h4 | h16
  · have has16 : a.as16 = v4InV6 ++ a.bytes := by
      rw [Addr.as16, Addr.is4, h4, if_pos (by decide)]
    rw [has16, ipMask_four _ _ h4 (hlen.trans h4), zipWith_cidrMask]
  · have has16 : a.as16 = a.bytes := by
      rw [Addr.as16, Addr.is4, h16, if_neg (by decide)]
    rw [has16, ipMask_sixteen _ _ h16 (hlen.trans h16), zipWith_cidrMask]

theorem string_masked (number : Str) (bits : Nat) (h : Masked number bits) :
    IPNet.string ⟨number, cidrMask bits number.length⟩ = netText number bits := by
  have hnumber : IPNet.numberAndMask ⟨number, cidrMask bits number.length⟩ =
      some (number, cidrMask bits number.length) := by
    unfold IPNet.numberAndMask
    simp only [cidrMask_length]
    rcases h.family with h4 | ⟨h16, hnone⟩
    · rw [to4_of_length_four number h4, Option.getD_some, if_pos ⟨h4, h4⟩]
    · rw [hnone, Option.getD_none, if_neg (by omega), if_neg (by omega), if_pos ⟨h16, h16⟩]
  unfold IPNet.string
  rw [hnumber]
  simp only
  rw [maskLength_cidrMask bits _ h.bits_le]
  rfl

/-- The text of the network of an address is the text of a masked one. -/
theorem string_network (a : Addr) (n : Nat) (h : a.bytes.length = 4 ∨ a.bytes.length = 16)
    (hn : n ≤ 8 * a.bytes.length) : ∃ number bits, Masked number bits ∧
      IPNet.string ⟨maskBits a.bytes n, cidrMask n a.bytes.length⟩ = netText number bits := by
  have hlen := maskBits_length a.bytes n
  have hclear := maskBits_maskBits a.bytes n
  by_cases hfamily : (maskBits a.bytes n).length = 4 ∨
      (maskBits a.bytes n).length = 16 ∧ to4 (maskBits a.bytes n) = none
  · have hmasked : Masked (maskBits a.bytes n) n := ⟨hfamily, by omega, hclear⟩
    exact ⟨_, _, hmasked, by rw [← string_masked _ _ hmasked, hlen]⟩
  · -- a mapped address is written as the one it stands for, with the mask of its last bytes
    have h16 : (maskBits a.bytes n).length = 16 := by omega
    obtain ⟨p4, hp4⟩ : ∃ p4, to4 (maskBits a.bytes n) = some p4 :=
      Option.ne_none_iff_exists'.mp fun hnone => hfamily (Or.inr ⟨h16, hnone⟩)
    have hmapped := (to4_eq_some _ p4 h16).mp hp4
    have hones : (maskBits a.bytes n)[11]? = some 0xFF := by
      rw [hmapped]
      rfl
    have h96 := (maskBits_ones a.bytes n 11 hones).1
    have hp4len := (ipString_to4 _ p4 h16 hp4).1
    have hdrop : p4 = maskBits (a.bytes.drop 12) (n - 96) := by
      rw [← maskBits_drop a.bytes n 12 (by omega), hmapped]
      rfl
    have hmasked : Masked p4 (n - 96) :=
      ⟨Or.inl hp4len, by omega, by rw [hdrop, maskBits_maskBits]⟩
    have hmask : (cidrMask n 16).drop 12 = cidrMask (n - 96) p4.length := by
      rw [cidrMask, maskBits_drop _ n 12 (by omega), List.drop_replicate, hp4len]
      rfl
    have hnumber : IPNet.numberAndMask ⟨maskBits a.bytes n, cidrMask n 16⟩ =
        IPNet.numberAndMask ⟨p4, cidrMask (n - 96) p4.length⟩ := by
      unfold IPNet.numberAndMask
      simp only [hp4, to4_of_length_four p4 hp4len, Option.getD_some, cidrMask_length, hmask, hp4len]
      rw [if_neg (by decide), if_pos ⟨trivial, trivial⟩, if_pos ⟨trivial, trivial⟩]
    refine ⟨p4, n - 96, hmasked, ?_⟩
    rw [← string_masked p4 (n - 96) hmasked, ← hlen, h16, IPNet.string, IPNet.string, hnumber]

/-- The text of a network is read as that network. -/
theorem parseCIDR_netText (number : Str) (bits : Nat) (h : Masked number bits) :
    parseCIDR (netText number bits) =
      some ((⟨number, []⟩ : Addr).as16, ⟨number, cidrMask bits number.length⟩) := by
  have hslash : 0x2F ∉ ipString number := by
    intro hmem
    have := ipString_bytes number (h.family.imp_right And.left) _ hmem
    exact absurd this (by decide)
  have hmask := ipMask_as16 ⟨number, []⟩ bits (h.family.imp_right And.left)
  have hdigits : (itoa bits).all isDigit = true := List.all_eq_true.mpr (itoa_isDigit bits)
  have hdrop : (ipString number ++ 0x2F :: itoa bits).drop ((ipString number).length + 1) = itoa bits := by
    simp
  rw [parseCIDR, netText, indexByte_append_cons _ _ _ hslash]
  simp only [List.take_left, parseAddr_ipString number h.family, hdrop, decVal_itoa, hmask, h.cleared]
  rw [if_neg]
  rintro (hzone | hnil | hdigit | hbits)
  · exact hzone rfl
  · exact itoa_ne_nil bits hnil
  · exact hdigit hdigits
  · exact absurd h.bits_le (Nat.not_le.mpr hbits)

/-- Every network that is read has the text of a masked one. -/
theorem parseCIDR_string (s ip : Str) (net : IPNet) (h : parseCIDR s = some (ip, net)) :
    ∃ number bits, Masked number bits ∧
      IPNet.string { net with ip := ipMask ip net.mask } = netText number bits := by
  unfold parseCIDR at h
  split at h
  · cases h
  rename_i i hi
  simp only at h
  split at h
  · cases h
  rename_i a ha
  split at h
  · cases h
  rename_i hok
  cases h
  have hfamily : a.bytes.length = 4 ∨ a.bytes.length = 16 :=
    (parseAddr_some _ a ha).imp And.left And.left
  have hbits : decVal (s.drop (i + 1)) ≤ 8 * a.bytes.length :=
    Nat.le_of_not_lt fun hlt => hok (Or.inr (Or.inr (Or.inr hlt)))
  obtain ⟨number, bits, hmasked, htext⟩ := string_network a _ hfamily hbits
  refine ⟨number, bits, hmasked, ?_⟩
  rw [ipMask_as16 a _ hfamily]
  exact htext

/-- The text of a single address, with the mask of its length. -/
theorem netText_of_ip (ip : Str) (h : ip.length = 16) :
    ∃ number bits, Masked number bits ∧
      ipString ip ++ (if (to4 ip).isSome then ascii "/32" else ascii "/128") = netText number bits := by
  have h32 : ascii "/32" = 0x2F :: itoa 32 := by decide +kernel
  have h128 : ascii "/128" = 0x2F :: itoa 128 := by decide +kernel
  cases h4 : to4 ip with
  | none =>
    refine ⟨ip, 128, ⟨Or.inr ⟨h, h4⟩, by omega, maskBits_whole ip 128 (by omega)⟩, ?_⟩
    rw [if_neg (by simp), h128]
    rfl
  | some p4 =>
    obtain ⟨hlen, hstr⟩ := ipString_to4 ip p4 h h4
    refine ⟨p4, 32, ⟨Or.inl hlen, by omega, maskBits_whole p4 32 (by omega)⟩, ?_⟩
    rw [if_pos (by simp), h32, hstr]
    rfl

end text

end SmartAwg.Go
