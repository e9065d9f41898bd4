import SmartAwg.GoNetIP

/-!
Prefixes and address-port pairs as `net/netip` reads them, and masks of address bytes.
-/

namespace SmartAwg.Go

/-- A `netip.Prefix`; the address is kept as it was written, not masked. -/
structure Prefix where
  addr : Addr
  bits : Nat
  deriving DecidableEq

/-- `netip.ParsePrefix`. -/
def parsePrefix (s : Str) : Option Prefix :=
  match lastIndexByte s 0x2F with
  | none => none
  | some i =>
    match parseAddr (s.take i) with
    | none => none
    | some ip =>
      let bitsStr := s.drop (i + 1)
      if ip.zone ≠ [] then none
      -- no sign and no leading zero, which Atoi would take
      else if bitsStr.length > 1 ∧ ∃ b ∈ bitsStr.head?, b < 0x31 ∨ b > 0x39 then none
      else
        match atoi bitsStr with
        | .error _ => none
        | .ok bits =>
          if bits < 0 ∨ bits > (if ip.is4 then 32 else 128) then none
          else some ⟨ip, bits.toNat⟩

/-- The address text and the port text of `netip.ParseAddrPort`, and whether there were brackets. -/
def splitAddrPort (s : Str) : Option (Str × Str × Bool) :=
  match lastIndexByte s 0x3A with
  | none => none
  | some i =>
    let ip := s.take i
    let port := s.drop (i + 1)
    if ip = [] ∨ port = [] then none
    else if ip.head? = some 0x5B then
      if ip.length < 2 ∨ ip.getLast? ≠ some 0x5D then none
      else some ((ip.drop 1).dropLast, port, true)
    else some (ip, port, false)

/-- `netip.ParseAddrPort`. -/
def parseAddrPort (s : Str) : Option (Addr × UInt16) :=
  match splitAddrPort s with
  | none => none
  | some (ip, port, v6) =>
    match parseUint port 16 with
    | .error _ => none
    | .ok p =>
      match parseAddr ip with
      | none => none
      | some a => if a.is4 = v6 then none else some (a, p.toUInt16)

/-- The bytes of an address with all bits from position `n` on cleared. -/
def maskBits : Str → Nat → Str
  | [], _ => []
  | b :: rest, n =>
    if 8 ≤ n then b :: maskBits rest (n - 8)
    else (b &&& ~~~(0xFF >>> n.toUInt8)) :: maskBits rest 0

theorem maskBits_zero (addr : Str) : maskBits addr 0 = List.replicate addr.length 0 := by
  induction addr with
  | nil => rfl
  | cons b addr ih =>
    have hclear : b &&& ~~~((0xFF : UInt8) >>> (0 : Nat).toUInt8) = 0 := by
      have hmask : ~~~((0xFF : UInt8) >>> (0 : Nat).toUInt8) = 0 := by decide
      rw [hmask, UInt8.and_zero]
    rw [maskBits, if_neg (by decide), ih, hclear, List.length_cons, List.replicate_succ]

theorem maskBits_length (ip : Str) (n : Nat) : (maskBits ip n).length = ip.length := by
  induction ip generalizing n with
  | nil => rfl
  | cons b ip ih =>
    rw [maskBits]
    split
    · rw [List.length_cons, List.length_cons, ih]
    · rw [List.length_cons, List.length_cons, ih]

theorem digits_head (n : Nat) (h : 10 ≤ n) : ∃ b ∈ (itoa n).head?, 0x31 ≤ b ∧ b ≤ 0x39 := by
  have hone : ∀ d < 10, d ≠ 0 → 0x31 ≤ digitByte d ∧ digitByte d ≤ 0x39 := by decide
  have hall : ∀ m, m ≠ 0 → ∃ b ∈ (itoa m).head?, 0x31 ≤ b ∧ b ≤ 0x39 := by
    intro m
    induction m using Nat.strongRecOn with
    | _ m ih =>
      intro hm
      by_cases hlt : m < 10
      · exact ⟨digitByte m, by rw [itoa, digits_of_lt 10 m hlt]; rfl, hone m hlt hm⟩
      · obtain ⟨b, hb, hrange⟩ := ih (m / 10) (by omega) (by omega)
        refine ⟨b, ?_, hrange⟩
        rw [itoa, digits_of_le 10 m (by omega) (by omega)]
        rw [itoa] at hb
        cases hd : digits 10 (m / 10) with
        | nil => exact absurd hd (digits_ne_nil 10 _)
        | cons c s =>
          rw [hd] at hb
          exact hb
  exact hall n (by omega)

theorem slash_not_mem_itoa (n : Nat) : 0x2F ∉ itoa n := fun h => by
  have := itoa_isDigit n _ h
  revert this
  decide

/-- A printed prefix is read back. -/
theorem parsePrefix_ipString (ip : Str) (bits : Nat)
    (h : ip.length = 4 ∧ bits ≤ 32 ∨ ip.length = 16 ∧ to4 ip = none ∧ bits ≤ 128) :
    parsePrefix (ipString ip ++ 0x2F :: itoa bits) = some ⟨⟨ip, []⟩, bits⟩ := by
  have haddr := parseAddr_ipString ip (h.imp And.left fun h => ⟨h.1, h.2.1⟩)
  have hbits : bits ≤ 128 := by omega
  have hlead : ¬ ((itoa bits).length > 1 ∧ ∃ b ∈ (itoa bits).head?, b < 0x31 ∨ b > 0x39) := by
    rintro ⟨hlen, b, hb, hrange⟩
    by_cases hten : 10 ≤ bits
    · obtain ⟨c, hc, hlo, hhi⟩ := digits_head bits hten
      cases Option.some.inj (hb.symm.trans hc)
      rcases hrange with hlt | hgt
      · exact absurd hlo (UInt8.not_le.mpr hlt)
      · exact absurd hhi (UInt8.not_le.mpr hgt)
    · rw [itoa, digits_of_lt 10 bits (by omega)] at hlen
      simp at hlen
  have hmax : ¬ ((bits : Int) < 0 ∨ (bits : Int) > if (⟨ip, []⟩ : Addr).is4 then 32 else 128) := by
    rcases h with ⟨hlen, hb⟩ | ⟨hlen, -, hb⟩
    · simp [Addr.is4, hlen]
      omega
    · simp [Addr.is4, hlen]
      omega
  rw [parsePrefix, lastIndexByte_append_cons _ _ _ (slash_not_mem_itoa bits)]
  simp only [List.take_left, haddr, ne_eq, not_true_eq_false, if_false]
  have hdrop : (ipString ip ++ 0x2F :: itoa bits).drop ((ipString ip).length + 1) = itoa bits := by
    simp
  rw [hdrop, if_neg hlead, atoi_itoa bits (by omega)]
  simp only [if_neg hmax, Int.toNat_natCast]

theorem parseAddr_some (t : Str) (a : Addr) (h : parseAddr t = some a) :
    (a.bytes.length = 4 ∧ ∀ b ∈ t, isDigit b = true ∨ b = 0x2E) ∨
      (a.bytes.length = 16 ∧ 0x3A ∈ t) := by
  unfold parseAddr at h
  split at h
  · obtain ⟨bytes, hb, rfl⟩ := Option.map_eq_some_iff.mp h
    exact Or.inl (v4Loop_some [] 0 0 t bytes (by simp) hb)
  · rename_i hfind
    refine Or.inr ⟨?_, List.mem_of_find?_eq_some hfind⟩
    unfold parseIPv6 at h
    split at h
    · obtain ⟨bytes, hb, rfl⟩ := Option.map_eq_some_iff.mp h
      exact (v6Bytes_some _ bytes hb).1
    · split at h
      · cases h
      · obtain ⟨bytes, hb, rfl⟩ := Option.map_eq_some_iff.mp h
        exact (v6Bytes_some _ bytes hb).1
  · cases h

theorem splitAddrPort_append (ip port : Str) (hcolon : 0x3A ∉ port) (hip : ip ≠ [])
    (hport : port ≠ []) :
    splitAddrPort (ip ++ 0x3A :: port) =
      if ip.head? = some 0x5B then
        if ip.length < 2 ∨ ip.getLast? ≠ some 0x5D then none
        else some ((ip.drop 1).dropLast, port, true)
      else some (ip, port, false) := by
  have hdrop : (ip ++ 0x3A :: port).drop (ip.length + 1) = port := by simp
  rw [splitAddrPort, lastIndexByte_append_cons ip port _ hcolon]
  simp only [List.take_left, hdrop, hip, hport, or_self, if_false]

/-- An address with a port, in brackets exactly when it has a colon in it, is read back. -/
theorem parseAddrPort_of_parseAddr (t : Str) (a : Addr) (port : UInt16)
    (h : parseAddr t = some a) :
    parseAddrPort (if 0x3A ∈ t then 0x5B :: (t ++ 0x5D :: 0x3A :: itoa port.toNat)
      else t ++ 0x3A :: itoa port.toNat) = some (a, port) := by
  have hcolon : 0x3A ∉ itoa port.toNat := fun hmem =>
    absurd (itoa_isDigit _ _ hmem) (by decide)
  have hport : parseUint (itoa port.toNat) 16 = .ok port.toNat :=
    parseUint_itoa _ 16 port.toNat_lt
  have hne : t ≠ [] := by
    rintro rfl
    cases h
  rcases parseAddr_some t a h with ⟨hlen, hbytes⟩ | ⟨hlen, hmem⟩
  · have hnot : ∀ b : UInt8, isDigit b = false → b ≠ 0x2E → b ∉ t := fun b hd hdot hb =>
      (hbytes b hb).elim (fun hx => by simp [hx] at hd) hdot
    have hhead : t.head? ≠ some 0x5B := fun hx =>
      hnot 0x5B (by decide) (by decide) (List.mem_of_mem_head? hx)
    rw [if_neg (hnot 0x3A (by decide) (by decide)), parseAddrPort,
      splitAddrPort_append t _ hcolon hne (itoa_ne_nil _), if_neg hhead]
    simp [hport, h, Addr.is4, hlen]
  · have heq : 0x5B :: (t ++ 0x5D :: 0x3A :: itoa port.toNat) =
        (0x5B :: (t ++ [0x5D])) ++ 0x3A :: itoa port.toNat := by simp
    have hlast : ¬ ((0x5B :: (t ++ [0x5D])).length < 2 ∨
        (0x5B :: (t ++ [0x5D])).getLast? ≠ some 0x5D) := by
      simp [List.getLast?_cons]
    rw [if_pos hmem, heq, parseAddrPort,
      splitAddrPort_append _ _ hcolon (List.cons_ne_nil _ _) (itoa_ne_nil _), if_pos List.head?_cons,
      if_neg hlast]
    simp [hport, h, Addr.is4, hlen]

end SmartAwg.Go
