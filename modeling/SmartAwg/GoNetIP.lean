import Mathlib.Data.List.TakeWhile
import SmartAwg.GoStrconv

/-! IP addresses as `net` and `net/netip` read and print them. An address is its bytes in
network order, four or sixteen of them. -/
namespace SmartAwg.Go

/-- A `netip.Addr`: four or sixteen bytes, and for the latter an optional zone. -/
structure Addr where
  bytes : Str
  zone : Str
  deriving Repr, DecidableEq

def Addr.is4 (a : Addr) : Bool := a.bytes.length == 4

/-- The fields of a dotted address; `dig` counts the digits of the current octet. -/
def v4Loop : Str → Nat → Nat → Str → Option Str
  | octets, val, _, [] => if octets.length < 3 then none else some (octets ++ [val.toUInt8])
  | octets, val, dig, b :: rest =>
    if isDigit b then
      if dig = 1 ∧ val = 0 then none
      else if val * 10 + digitVal b > 255 then none
      else v4Loop octets (val * 10 + digitVal b) (dig + 1) rest
    else if b = 0x2E then
      -- no digit before the dot, or none after it
      if dig = 0 ∨ rest = [] then none
      else if octets.length = 3 then none
      else v4Loop (octets ++ [val.toUInt8]) 0 0 rest
    else none

def v4Fields (s : Str) : Option Str := v4Loop [] 0 0 s

def isHex (b : UInt8) : Bool := (hexVal b).isSome

def hexFold (s : Str) : Nat := s.foldl (fun acc b => acc * 16 + (hexVal b).getD 0) 0

def groupBytes (g : Nat) : Str := [(g / 256).toUInt8, (g % 256).toUInt8]

/-- The loop over colon-separated groups: bytes so far, position of the ellipsis, rest of
the text. The fuel is the number of groups still missing, so the loop condition `i < 16`. -/
def v6Loop : Nat → Str → Option Nat → Str → Option (Str × Option Nat × Str)
  | 0, ip, ellipsis, s => some (ip, ellipsis, s)
  | fuel + 1, ip, ellipsis, s =>
    let group := s.takeWhile isHex
    if group.length > 4 ∨ group = [] then none
    else
      match s.dropWhile isHex with
      | [] => some (ip ++ groupBytes (hexFold group), ellipsis, [])
      | 0x2E :: _ =>
        if ellipsis = none ∧ ip.length ≠ 12 then none
        else if ip.length + 4 > 16 then none
        else (v4Fields s).map fun octets => (ip ++ octets, ellipsis, [])
      | 0x3A :: rest =>
        match rest with
        | [] => none
        | 0x3A :: rest' =>
          if ellipsis.isSome then none
          else if rest' = [] then
            some (ip ++ groupBytes (hexFold group), some (ip.length + 2), [])
          else v6Loop fuel (ip ++ groupBytes (hexFold group)) (some (ip.length + 2)) rest'
        | _ => v6Loop fuel (ip ++ groupBytes (hexFold group)) ellipsis rest
      | _ => none

/-- Expands the ellipsis; without one there must be sixteen bytes, with one fewer. -/
def v6Finish : Str × Option Nat × Str → Option Str
  | (ip, ellipsis, rest) =>
    if rest ≠ [] then none
    else if ip.length < 16 then
      ellipsis.map fun k => ip.take k ++ List.replicate (16 - ip.length) 0 ++ ip.drop k
    else if ellipsis.isSome then none
    else some ip

def v6Bytes (s : Str) : Option Str :=
  match s with
  | 0x3A :: 0x3A :: rest =>
    if rest = [] then some (List.replicate 16 0) else v6Loop 8 [] (some 0) rest >>= v6Finish
  | _ => v6Loop 8 [] none s >>= v6Finish

/-- `parseIPv6`: the zone is what follows the first `%` and must not be empty. -/
def parseIPv6 (s : Str) : Option Addr :=
  match indexByte s 0x25 with
  | none => (v6Bytes s).map fun bytes => ⟨bytes, []⟩
  | some i =>
    if s.drop (i + 1) = [] then none
    else (v6Bytes (s.take i)).map fun bytes => ⟨bytes, s.drop (i + 1)⟩

/-- `netip.ParseAddr`. -/
def parseAddr (s : Str) : Option Addr :=
  match s.find? fun b => b == 0x2E || b == 0x3A || b == 0x25 with
  | some 0x2E => (v4Fields s).map fun bytes => ⟨bytes, []⟩
  | some 0x3A => parseIPv6 s
  | _ => none

/-- The first twelve bytes of an IPv4 address in its sixteen-byte form. -/
def v4InV6 : Str := [0, 0, 0, 0, 0, 0, 0, 0, 0, 0, 0xFF, 0xFF]

def Addr.as16 (a : Addr) : Str := if a.is4 then v4InV6 ++ a.bytes else a.bytes

/-- `net.ParseIP`; the result always has sixteen bytes. -/
def parseIP (s : Str) : Option Str :=
  match parseAddr s with
  | some a => if a.zone = [] then some a.as16 else none
  | none => none

/-- `net.IP.To4`. -/
def to4 (ip : Str) : Option Str :=
  if ip.length = 4 then some ip
  else if ip.length = 16 ∧ ip.take 12 = v4InV6 then some (ip.drop 12)
  else none

def v4String (ip : Str) : Str := join (ip.map fun b => itoa b.toNat) [0x2E]

def groupsOf : Str → List Nat
  | a :: b :: rest => (a.toNat * 256 + b.toNat) :: groupsOf rest
  | _ => []

/-- The leftmost longest run of at least two zero groups, as start and length. -/
def zeroRun (gs : List Nat) : Nat × Nat :=
  (List.range 8).foldl (fun (start, len) i =>
    let l := ((gs.drop i).takeWhile (· == 0)).length
    if l ≥ 2 ∧ l > len then (i, l) else (start, len)) (255, 0)

def groupsString (gs : List Nat) : Str := join (gs.map (digits 16)) [0x3A]

/-- `netip.Addr.appendTo6` without a zone. -/
def v6String (ip : Str) : Str :=
  let gs := groupsOf ip
  let (start, len) := zeroRun gs
  if len = 0 then groupsString gs
  else groupsString (gs.take start) ++ [0x3A, 0x3A] ++ groupsString (gs.drop (start + len))

/-- `net.IP.String`. -/
def ipString (ip : Str) : Str :=
  if ip = [] then ascii "<nil>"
  else if ip.length ≠ 4 ∧ ip.length ≠ 16 then
    0x3F :: (ip.flatMap fun b => [digitByte (b.toNat / 16), digitByte (b.toNat % 16)])
  else
    match to4 ip with
    | some p4 => v4String p4
    | none => v6String ip

section dotted

theorem v4Loop_itoa (octets : Str) (n : Nat) (hn : n ≤ 255) (rest : Str) :
    v4Loop octets 0 0 (itoa n ++ rest) = v4Loop octets n (itoa n).length rest := by
  refine digits_induction 10 (by decide)
    (fun m s => m ≤ 255 → ∀ rest, v4Loop octets 0 0 (s ++ rest) = v4Loop octets m s.length rest)
    ?_ ?_ n hn rest
  · intro d hd hle rest
    obtain ⟨h1, h2⟩ := digitByte_decimal d hd
    simp [v4Loop, h1, h2, Nat.not_lt.mpr hle]
  · intro m d s hm hd _ ih hle rest
    obtain ⟨h1, h2⟩ := digitByte_decimal d hd
    rw [List.append_assoc, ih (by omega)]
    simp only [List.cons_append, List.nil_append, v4Loop, h1, h2, if_true, List.length_append,
      List.length_cons, List.length_nil]
    rw [if_neg (by omega), if_neg (by omega)]

/-- One octet and the dot after it. -/
theorem v4Loop_octet (octets : Str) (b : UInt8) (rest : Str) (hlen : octets.length < 3)
    (hrest : rest ≠ []) :
    v4Loop octets 0 0 (itoa b.toNat ++ 0x2E :: rest) = v4Loop (octets ++ [b]) 0 0 rest := by
  have hb := b.toNat_lt
  have hpos : (itoa b.toNat).length ≠ 0 := by simp [itoa_ne_nil]
  rw [v4Loop_itoa octets b.toNat (by omega)]
  simp only [v4Loop]
  rw [if_neg (by decide), if_pos trivial, if_neg (by simp [hpos, hrest]), if_neg (by omega)]
  simp

theorem v4Fields_v4String (ip : Str) (h : ip.length = 4) : v4Fields (v4String ip) = some ip := by
  match ip, h with
  | [a, b, c, d], _ =>
    have hd := d.toNat_lt
    simp only [v4Fields, v4String, List.map_cons, List.map_nil, join_cons_cons, join_singleton,
      List.cons_append, List.nil_append]
    rw [v4Loop_octet _ _ _ (by decide) (by simp), v4Loop_octet _ _ _ (by simp) (by simp),
      v4Loop_octet _ _ _ (by simp) (by simp [itoa_ne_nil])]
    rw [← List.append_nil (itoa d.toNat), v4Loop_itoa _ _ (by omega)]
    simp [v4Loop]

/-- The first of the three bytes that decide the syntax of an address. -/
theorem find_mark (s : Str) (m : UInt8) (hm : m ∈ s) (hmark : m = 0x2E ∨ m = 0x3A ∨ m = 0x25)
    (honly : ∀ b ∈ s, b = 0x2E ∨ b = 0x3A ∨ b = 0x25 → b = m) :
    (s.find? fun b => b == 0x2E || b == 0x3A || b == 0x25) = some m := by
  cases hf : s.find? fun b => b == 0x2E || b == 0x3A || b == 0x25 with
  | none =>
    have := List.find?_eq_none.mp hf m hm
    simp only [Bool.or_eq_true, beq_iff_eq] at this
    exact absurd (by simpa [or_assoc] using hmark) this
  | some b =>
    have hp := List.find?_some hf
    simp only [Bool.or_eq_true, beq_iff_eq, or_assoc] at hp
    rw [honly b (List.mem_of_find?_eq_some hf) hp]

theorem v4String_bytes (ip : Str) : ∀ b ∈ v4String ip, isDigit b = true ∨ b = 0x2E := by
  intro b hb
  rcases mem_join _ _ b hb with ⟨p, hp, hbp⟩ | h
  · obtain ⟨c, -, rfl⟩ := List.mem_map.mp hp
    exact Or.inl (itoa_isDigit _ b hbp)
  · exact Or.inr (by simpa using h)

theorem dot_mem_v4String (ip : Str) (h : 2 ≤ ip.length) : 0x2E ∈ v4String ip := by
  match ip, h with
  | a :: b :: rest, _ => simp [v4String]

theorem parseAddr_v4String (ip : Str) (h : ip.length = 4) :
    parseAddr (v4String ip) = some ⟨ip, []⟩ := by
  have hmark := find_mark (v4String ip) 0x2E (dot_mem_v4String ip (by omega)) (by simp) (by
    intro b hb hm
    rcases v4String_bytes ip b hb with hd | hd
    · rcases hm with rfl | rfl | rfl <;> simp [isDigit] at hd ⊢
    · exact hd)
  rw [parseAddr, hmark]
  simp [v4Fields_v4String ip h]

end dotted

section groups

theorem digits16_isHex (g : Nat) : ∀ b ∈ digits 16 g, isHex b = true := by
  intro b hb
  obtain ⟨d, hd, rfl⟩ := digits_bytes 16 g (by decide) b hb
  simp [isHex, hexVal_digitByte d hd]

theorem hexFold_digits (g : Nat) : hexFold (digits 16 g) = g := by
  refine digits_induction 16 (by decide) (fun m s => hexFold s = m) ?_ ?_ g
  · intro d hd
    simp [hexFold, hexVal_digitByte d hd]
  · intro m d s _ hd _ ih
    rw [hexFold, List.foldl_append]
    change (hexFold s) * 16 + (hexVal (digitByte d)).getD 0 = m * 16 + d
    rw [ih, hexVal_digitByte d hd]
    rfl

theorem takeWhile_digits16 (g : Nat) (rest : Str) (hrest : ∀ b ∈ rest.head?, isHex b = false) :
    (digits 16 g ++ rest).takeWhile isHex = digits 16 g ∧
      (digits 16 g ++ rest).dropWhile isHex = rest := by
  rw [List.takeWhile_append_of_pos (digits16_isHex g),
    List.dropWhile_append_of_pos (digits16_isHex g)]
  cases rest with
  | nil => simp
  | cons b rest =>
    have hb : isHex b = false := hrest b (by simp)
    simp [hb]

theorem digits16_group (g : Nat) (hg : g < 65536) :
    ¬ ((digits 16 g).length > 4 ∨ digits 16 g = []) := by
  have := (digits_length_le 16 g 4 (by decide) (by decide)).mpr hg
  simp only [digits_ne_nil, or_false]
  omega

theorem digits16_head (g : Nat) : ∃ b s, digits 16 g = b :: s ∧ isHex b = true := by
  cases h : digits 16 g with
  | nil => exact absurd h (digits_ne_nil 16 g)
  | cons b s => exact ⟨b, s, rfl, digits16_isHex g b (by simp [h])⟩

theorem v6Loop_last (fuel : Nat) (ip : Str) (e : Option Nat) (g : Nat) (hg : g < 65536) :
    v6Loop (fuel + 1) ip e (digits 16 g) = some (ip ++ groupBytes g, e, []) := by
  obtain ⟨h1, h2⟩ := takeWhile_digits16 g [] (by simp)
  rw [List.append_nil] at h1 h2
  simp only [v6Loop, h1, h2, if_neg (digits16_group g hg), hexFold_digits]

theorem v6Loop_colon (fuel : Nat) (ip : Str) (e : Option Nat) (g : Nat) (hg : g < 65536)
    (b : UInt8) (rest : Str) (hb : b ≠ 0x3A) :
    v6Loop (fuel + 1) ip e (digits 16 g ++ 0x3A :: b :: rest) =
      v6Loop fuel (ip ++ groupBytes g) e (b :: rest) := by
  obtain ⟨h1, h2⟩ := takeWhile_digits16 g (0x3A :: b :: rest) (by simp [isHex, hexVal])
  simp only [v6Loop, h1, h2, if_neg (digits16_group g hg), hexFold_digits]
  split <;> simp_all

theorem v6Loop_ellipsis (fuel : Nat) (ip : Str) (g : Nat) (hg : g < 65536) (rest : Str) :
    v6Loop (fuel + 1) ip none (digits 16 g ++ 0x3A :: 0x3A :: rest) =
      if rest = [] then some (ip ++ groupBytes g, some (ip.length + 2), [])
      else v6Loop fuel (ip ++ groupBytes g) (some (ip.length + 2)) rest := by
  obtain ⟨h1, h2⟩ := takeWhile_digits16 g (0x3A :: 0x3A :: rest) (by simp [isHex, hexVal])
  simp only [v6Loop, h1, h2, if_neg (digits16_group g hg), hexFold_digits, Option.isSome_none,
    Bool.false_eq_true, if_false]

theorem hex_ne_colon (b : UInt8) (h : isHex b = true) : b ≠ 0x3A := by
  rintro rfl
  simp [isHex, hexVal] at h

def groupsBytes (gs : List Nat) : Str := gs.flatMap groupBytes

theorem groupsBytes_length (gs : List Nat) : (groupsBytes gs).length = 2 * gs.length := by
  induction gs with
  | nil => rfl
  | cons g gs ih =>
    simp only [groupsBytes, List.flatMap_cons, List.length_append] at ih ⊢
    rw [ih]
    simp [groupBytes]
    omega

theorem groupsString_head (gs : List Nat) (hne : gs ≠ []) :
    ∃ b s, groupsString gs = b :: s ∧ isHex b = true := by
  match gs, hne with
  | [g], _ =>
    obtain ⟨b, s, hs, hb⟩ := digits16_head g
    exact ⟨b, s, by simp [groupsString, hs], hb⟩
  | g :: g' :: gs, _ =>
    obtain ⟨b, s, hs, hb⟩ := digits16_head g
    exact ⟨b, s ++ 0x3A :: groupsString (g' :: gs), by simp [groupsString, hs], hb⟩

theorem groupsString_cons_cons (g g' : Nat) (gs : List Nat) :
    groupsString (g :: g' :: gs) = digits 16 g ++ 0x3A :: groupsString (g' :: gs) := by
  simp [groupsString]

/-- The loop reads a colon-separated list of groups to its end. -/
theorem v6Loop_groups (gs : List Nat) (hne : gs ≠ []) (hg : ∀ g ∈ gs, g < 65536) (fuel : Nat)
    (hfuel : gs.length ≤ fuel) (ip : Str) (e : Option Nat) :
    v6Loop fuel ip e (groupsString gs) = some (ip ++ groupsBytes gs, e, []) := by
  induction gs generalizing fuel ip with
  | nil => exact absurd rfl hne
  | cons g gs ih =>
    obtain ⟨fuel, rfl⟩ : ∃ k, fuel = k + 1 := ⟨fuel - 1, by simp at hfuel; omega⟩
    cases gs with
    | nil =>
      simp only [groupsString, List.map_cons, List.map_nil, join_singleton]
      rw [v6Loop_last fuel ip e g (hg g (by simp))]
      simp [groupsBytes]
    | cons g' gs =>
      have htail := ih (by simp) (fun x hx => hg x (by simp [hx])) fuel
        (by simpa using hfuel) (ip ++ groupBytes g)
      obtain ⟨b, t, ht, hb⟩ := groupsString_head (g' :: gs) (by simp)
      rw [groupsString_cons_cons, ht,
        v6Loop_colon fuel ip e g (hg g (by simp)) b t (hex_ne_colon b hb), ← ht, htail]
      simp [groupsBytes]

/-- The loop reads a list of groups up to an ellipsis. -/
theorem v6Loop_groups_ellipsis (gs : List Nat) (hne : gs ≠ []) (hg : ∀ g ∈ gs, g < 65536)
    (fuel : Nat) (hfuel : gs.length ≤ fuel) (ip rest : Str) :
    v6Loop fuel ip none (groupsString gs ++ 0x3A :: 0x3A :: rest) =
      if rest = [] then some (ip ++ groupsBytes gs, some (ip ++ groupsBytes gs).length, [])
      else v6Loop (fuel - gs.length) (ip ++ groupsBytes gs) (some (ip ++ groupsBytes gs).length)
        rest := by
  induction gs generalizing fuel ip with
  | nil => exact absurd rfl hne
  | cons g gs ih =>
    obtain ⟨fuel, rfl⟩ : ∃ k, fuel = k + 1 := ⟨fuel - 1, by simp at hfuel; omega⟩
    cases gs with
    | nil =>
      simp only [groupsString, List.map_cons, List.map_nil, join_singleton]
      rw [v6Loop_ellipsis fuel ip g (hg g (by simp)) rest]
      simp [groupsBytes, groupBytes]
    | cons g' gs =>
      have htail := ih (by simp) (fun x hx => hg x (by simp [hx])) fuel
        (by simpa using hfuel) (ip ++ groupBytes g)
      obtain ⟨b, t, ht, hb⟩ := groupsString_head (g' :: gs) (by simp)
      rw [groupsString_cons_cons, ht, List.append_assoc, List.cons_append, List.cons_append,
        v6Loop_colon fuel ip none g (hg g (by simp)) b _ (hex_ne_colon b hb),
        ← List.cons_append, ← ht, htail]
      simp [groupsBytes]

end groups

section colons

theorem v6Bytes_of_head (b : UInt8) (s : Str) (hb : isHex b = true) :
    v6Bytes (b :: s) = v6Loop 8 [] none (b :: s) >>= v6Finish := by
  have := hex_ne_colon b hb
  unfold v6Bytes
  split <;> simp_all

theorem v6Bytes_groups (gs : List Nat) (hlen : gs.length = 8) (hg : ∀ g ∈ gs, g < 65536) :
    v6Bytes (groupsString gs) = some (groupsBytes gs) := by
  have hne : gs ≠ [] := by rintro rfl; simp at hlen
  have hloop := v6Loop_groups gs hne hg 8 (by omega) [] none
  have hbytes := groupsBytes_length gs
  obtain ⟨b, s, hs, hb⟩ := groupsString_head gs hne
  rw [hs, v6Bytes_of_head b s hb, ← hs, hloop, List.nil_append]
  simp [v6Finish, hbytes, hlen]

theorem v6Bytes_ellipsis (gs hs : List Nat) (hlen : gs.length + hs.length < 8)
    (hg : ∀ g ∈ gs, g < 65536) (hh : ∀ g ∈ hs, g < 65536) :
    v6Bytes (groupsString gs ++ 0x3A :: 0x3A :: groupsString hs) =
      some (groupsBytes gs ++ List.replicate (16 - 2 * (gs.length + hs.length)) 0
        ++ groupsBytes hs) := by
  have hbg := groupsBytes_length gs
  have hbh := groupsBytes_length hs
  have hnil : hs ≠ [] → groupsString hs ≠ [] := by
    intro hne
    obtain ⟨b, s, hs', -⟩ := groupsString_head hs hne
    simp [hs']
  -- What the finishing step makes of the groups before and after the ellipsis.
  have hfinish : v6Finish (groupsBytes gs ++ groupsBytes hs, some (groupsBytes gs).length, []) =
      some (groupsBytes gs ++ List.replicate (16 - 2 * (gs.length + hs.length)) 0
        ++ groupsBytes hs) := by
    have hlt : (groupsBytes gs ++ groupsBytes hs).length < 16 := by
      rw [List.length_append, hbg, hbh]
      omega
    rw [v6Finish, if_neg (by simp), if_pos hlt, Option.map_some, List.take_left, List.drop_left,
      List.length_append, hbg, hbh, Nat.mul_add]
  by_cases hgs : gs = []
  · subst hgs
    by_cases hhs : hs = []
    · subst hhs
      rfl
    · have hloop := v6Loop_groups hs hhs hh 8 (by omega) [] (some 0)
      change (if groupsString hs = [] then _ else v6Loop 8 [] (some 0) (groupsString hs) >>= _) = _
      rw [if_neg (hnil hhs), hloop]
      exact hfinish
  · have hloop := v6Loop_groups_ellipsis gs hgs hg 8 (by omega) [] (groupsString hs)
    obtain ⟨b, s, hs', hb⟩ := groupsString_head gs hgs
    rw [hs', List.cons_append, v6Bytes_of_head b _ hb, ← List.cons_append, ← hs', hloop,
      List.nil_append]
    by_cases hhs : hs = []
    · subst hhs
      rw [if_pos (by simp [groupsString])]
      simpa [groupsBytes] using hfinish
    · rw [if_neg (hnil hhs), v6Loop_groups hs hhs hh _ (by omega) _ _]
      exact hfinish

theorem groupsOf_length (ip : Str) (k : Nat) (h : ip.length = 2 * k) : (groupsOf ip).length = k := by
  induction k generalizing ip with
  | zero =>
    rw [List.length_eq_zero_iff.mp h]
    rfl
  | succ k ih =>
    match ip, h with
    | a :: b :: rest, h => simp [groupsOf, ih rest (by simp at h; omega)]

theorem groupsOf_lt (ip : Str) : ∀ g ∈ groupsOf ip, g < 65536 := by
  induction ip using groupsOf.induct with
  | case1 a b rest ih =>
    have ha := a.toNat_lt
    have hb := b.toNat_lt
    intro g hg
    rcases List.mem_cons.mp hg with rfl | hg
    · omega
    · exact ih g hg
  | case2 ip h => simp [groupsOf]

theorem groupsBytes_groupsOf (ip : Str) (k : Nat) (h : ip.length = 2 * k) :
    groupsBytes (groupsOf ip) = ip := by
  induction k generalizing ip with
  | zero =>
    rw [List.length_eq_zero_iff.mp h]
    rfl
  | succ k ih =>
    match ip, h with
    | a :: b :: rest, h =>
      have hb := b.toNat_lt
      have htail := ih rest (by simp at h; omega)
      simp only [groupsBytes] at htail
      simp only [groupsOf, groupsBytes, List.flatMap_cons, groupBytes, htail, List.cons_append,
        List.nil_append]
      rw [show (a.toNat * 256 + b.toNat) / 256 = a.toNat by omega,
        show (a.toNat * 256 + b.toNat) % 256 = b.toNat by omega]
      simp

/-- The run that is printed as an ellipsis consists of zero groups. -/
theorem zeroRun_spec (gs : List Nat) (start len : Nat) (h : zeroRun gs = (start, len))
    (hlen : len ≠ 0) :
    2 ≤ len ∧ gs = gs.take start ++ List.replicate len 0 ++ gs.drop (start + len) := by
  have hinv : ∀ (is : List Nat) (acc : Nat × Nat),
      (acc.2 ≠ 0 → 2 ≤ acc.2 ∧
        gs = gs.take acc.1 ++ List.replicate acc.2 0 ++ gs.drop (acc.1 + acc.2)) →
      let r := is.foldl (fun (start, len) i =>
        let l := ((gs.drop i).takeWhile (· == 0)).length
        if l ≥ 2 ∧ l > len then (i, l) else (start, len)) acc
      r.2 ≠ 0 → 2 ≤ r.2 ∧ gs = gs.take r.1 ++ List.replicate r.2 0 ++ gs.drop (r.1 + r.2) := by
    intro is
    induction is with
    | nil => exact fun acc hacc => hacc
    | cons i is ih =>
      intro acc hacc
      rw [List.foldl_cons]
      apply ih
      simp only
      split
      · rename_i hl
        intro _
        refine ⟨hl.1, ?_⟩
        have hrep : (gs.drop i).takeWhile (· == 0) =
            List.replicate ((gs.drop i).takeWhile (· == 0)).length 0 := by
          rw [List.eq_replicate_iff]
          refine ⟨rfl, fun b hb => ?_⟩
          simpa using List.mem_takeWhile_imp hb
        have hsplit := List.takeWhile_append_dropWhile (p := (· == 0)) (l := gs.drop i)
        have hdrop : gs.drop (i + ((gs.drop i).takeWhile (· == 0)).length) =
            (gs.drop i).dropWhile (· == 0) := by
          rw [← List.drop_drop]
          nth_rewrite 2 [← hsplit]
          exact List.drop_left
        rw [← hrep, hdrop, List.append_assoc, hsplit, List.take_append_drop]
      · exact hacc
  have := hinv (List.range 8) (255, 0) (fun h => absurd rfl h)
  rw [zeroRun] at h
  simp only [h] at this
  exact this hlen

theorem groupsString_bytes (gs : List Nat) :
    ∀ b ∈ groupsString gs, isHex b = true ∨ b = 0x3A := by
  intro b hb
  rcases mem_join _ _ b hb with ⟨p, hp, hbp⟩ | h
  · obtain ⟨g, -, rfl⟩ := List.mem_map.mp hp
    exact Or.inl (digits16_isHex g b hbp)
  · exact Or.inr (by simpa using h)

/-- The printed form lists all groups, or the groups before and after a run of zeros. -/
theorem v6String_cases (ip : Str) :
    v6String ip = groupsString (groupsOf ip) ∨
      ∃ gs n hs, 2 ≤ n ∧ groupsOf ip = gs ++ List.replicate n 0 ++ hs ∧
        v6String ip = groupsString gs ++ 0x3A :: 0x3A :: groupsString hs := by
  cases hrun : zeroRun (groupsOf ip) with
  | mk start len =>
    by_cases hz : len = 0
    · exact Or.inl (by simp [v6String, hrun, hz])
    · obtain ⟨htwo, hsplit⟩ := zeroRun_spec _ start len hrun hz
      exact Or.inr ⟨_, len, _, htwo, hsplit, by simp [v6String, hrun, hz]⟩

theorem v6String_bytes (ip : Str) : ∀ b ∈ v6String ip, isHex b = true ∨ b = 0x3A := by
  intro b hb
  rcases v6String_cases ip with h | ⟨gs, n, hs, -, -, h⟩ <;> rw [h] at hb
  · exact groupsString_bytes _ b hb
  · rw [List.mem_append, List.mem_cons, List.mem_cons] at hb
    rcases hb with hb | hb | hb | hb
    · exact groupsString_bytes _ b hb
    · exact Or.inr hb
    · exact Or.inr hb
    · exact groupsString_bytes _ b hb

theorem colon_mem_v6String (ip : Str) (h : ip.length = 16) : 0x3A ∈ v6String ip := by
  have hlen := groupsOf_length ip 8 h
  rcases v6String_cases ip with hs | ⟨gs, n, hs, -, -, hs⟩ <;> rw [hs]
  · match groupsOf ip, hlen with
    | g :: g' :: gs, _ => simp [groupsString]
  · simp

theorem v6Bytes_v6String (ip : Str) (h : ip.length = 16) : v6Bytes (v6String ip) = some ip := by
  have hlen := groupsOf_length ip 8 h
  have hlt := groupsOf_lt ip
  have hback := groupsBytes_groupsOf ip 8 h
  rcases v6String_cases ip with hs | ⟨gs, n, hs, hn, hsplit, hstr⟩
  · rw [hs, v6Bytes_groups _ hlen hlt, hback]
  · rw [hsplit] at hlen hlt hback
    simp only [List.length_append, List.length_replicate] at hlen
    rw [hstr, v6Bytes_ellipsis gs hs (by omega) (fun g hg => hlt g (by simp [hg]))
      (fun g hg => hlt g (by simp [hg])), ← hback]
    rw [show 16 - 2 * (gs.length + hs.length) = 2 * n by omega]
    have hzeros : ∀ k : Nat, groupsBytes (List.replicate k 0) = List.replicate (2 * k) 0 := by
      intro k
      induction k with
      | zero => rfl
      | succ k ih =>
        rw [List.replicate_succ, groupsBytes, List.flatMap_cons, ← groupsBytes, ih,
          Nat.mul_succ, Nat.add_comm, ← List.replicate_append_replicate]
        rfl
    rw [← hzeros]
    simp [groupsBytes]

theorem parseAddr_v6String (ip : Str) (h : ip.length = 16) :
    parseAddr (v6String ip) = some ⟨ip, []⟩ := by
  have honly : ∀ b ∈ v6String ip, b = 0x2E ∨ b = 0x3A ∨ b = 0x25 → b = 0x3A := by
    intro b hb hm
    rcases v6String_bytes ip b hb with hd | hd
    · rcases hm with rfl | rfl | rfl <;> simp [isHex, hexVal] at hd ⊢
    · exact hd
  have hpercent : indexByte (v6String ip) 0x25 = none := by
    rw [indexByte_eq_none]
    intro hmem
    exact absurd (honly 0x25 hmem (by simp)) (by decide)
  rw [parseAddr, find_mark _ 0x3A (colon_mem_v6String ip h) (by simp) honly]
  simp [parseIPv6, hpercent, v6Bytes_v6String ip h]

end colons

theorem to4_of_length_four (ip : Str) (h : ip.length = 4) : to4 ip = some ip := by simp [to4, h]

theorem to4_eq_some (ip p4 : Str) (h : ip.length = 16) :
    to4 ip = some p4 ↔ ip = v4InV6 ++ p4 := by
  rw [to4, if_neg (by omega)]
  constructor
  · intro hs
    split at hs
    · rename_i hm
      cases hs
      rw [← hm.2, List.take_append_drop]
    · cases hs
  · rintro rfl
    simp [v4InV6] at h ⊢
    omega

/-- The printed form of an address is read back as it was. -/
theorem parseAddr_ipString (ip : Str) (h : ip.length = 4 ∨ ip.length = 16 ∧ to4 ip = none) :
    parseAddr (ipString ip) = some ⟨ip, []⟩ := by
  rcases h with h | ⟨h, h4⟩
  · have hne : ip ≠ [] := by rintro rfl; simp at h
    rw [ipString, if_neg hne, if_neg (by omega), to4_of_length_four ip h]
    exact parseAddr_v4String ip h
  · have hne : ip ≠ [] := by rintro rfl; simp at h
    rw [ipString, if_neg hne, if_neg (by omega), h4]
    exact parseAddr_v6String ip h

theorem parseIP_ipString_four (ip : Str) (h : ip.length = 4) :
    parseIP (ipString ip) = some (v4InV6 ++ ip) := by
  simp [parseIP, parseAddr_ipString ip (Or.inl h), Addr.as16, Addr.is4, h]

/-- A mapped address is printed as the IPv4 one. -/
theorem ipString_to4 (ip p4 : Str) (h : ip.length = 16) (h4 : to4 ip = some p4) :
    p4.length = 4 ∧ ipString ip = ipString p4 := by
  have hlen : p4.length = 4 := by
    rw [(to4_eq_some ip p4 h).mp h4] at h
    simp [v4InV6] at h
    omega
  have hne : ip ≠ [] := by rintro rfl; simp at h
  have hne4 : p4 ≠ [] := by rintro rfl; simp at hlen
  refine ⟨hlen, ?_⟩
  rw [ipString, if_neg hne, if_neg (by omega), h4, ipString, if_neg hne4, if_neg (by omega),
    to4_of_length_four p4 hlen]

/-- A sixteen-byte address survives printing and parsing, also when it is an IPv4 one. -/
theorem parseIP_ipString_sixteen (ip : Str) (h : ip.length = 16) :
    parseIP (ipString ip) = some ip := by
  cases h4 : to4 ip with
  | none => simp [parseIP, parseAddr_ipString ip (Or.inr ⟨h, h4⟩), Addr.as16, Addr.is4, h]
  | some p4 =>
    obtain ⟨hlen, hstr⟩ := ipString_to4 ip p4 h h4
    rw [hstr, parseIP_ipString_four p4 hlen, (to4_eq_some ip p4 h).mp h4]

/-- The bytes a printed address is made of. -/
def isAddrByte (b : UInt8) : Bool := isHex b || b == 0x2E || b == 0x3A

theorem isDigit_isHex (b : UInt8) (h : isDigit b = true) : isHex b = true := by
  simp only [isDigit, Bool.and_eq_true, decide_eq_true_eq] at h
  simp [isHex, hexVal, h]

theorem ipString_bytes (ip : Str) (h : ip.length = 4 ∨ ip.length = 16) :
    ∀ b ∈ ipString ip, isAddrByte b = true := by
  intro b hb
  have hne : ip ≠ [] := by rintro rfl; simp at h
  rw [ipString, if_neg hne, if_neg (by omega)] at hb
  split at hb
  · rcases v4String_bytes _ b hb with h | h
    · simp [isAddrByte, isDigit_isHex b h]
    · simp [isAddrByte, h]
  · rcases v6String_bytes _ b hb with h | h <;> simp [isAddrByte, h]

theorem groupsString_length_le (gs : List Nat) (h : ∀ g ∈ gs, g < 65536) :
    (groupsString gs).length ≤ 5 * gs.length := by
  refine (join_length_le _ [0x3A] 4 fun p hp => ?_).trans (by simp)
  obtain ⟨g, hg, rfl⟩ := List.mem_map.mp hp
  exact (digits_length_le 16 g 4 (by decide) (by decide)).mpr (h g hg)

theorem v6String_length_le (ip : Str) (h : ip.length = 16) : (v6String ip).length ≤ 42 := by
  have hlen := groupsOf_length ip 8 h
  have hlt := groupsOf_lt ip
  rcases v6String_cases ip with hs | ⟨gs, n, hs, -, hsplit, hs'⟩
  · have := groupsString_length_le _ hlt
    rw [hs]
    omega
  · rw [hsplit] at hlen hlt
    have hg := groupsString_length_le gs fun g hg => hlt g (by simp [hg])
    have hh := groupsString_length_le hs fun g hg => hlt g (by simp [hg])
    simp only [List.length_append, List.length_replicate] at hlen
    rw [hs', List.length_append, List.length_cons, List.length_cons]
    omega

theorem v4String_length_le (ip : Str) (h : ip.length = 4) : (v4String ip).length ≤ 16 := by
  refine (join_length_le _ [0x2E] 3 fun p hp => ?_).trans (by simp [h])
  obtain ⟨b, -, rfl⟩ := List.mem_map.mp hp
  have hb := b.toNat_lt
  exact (digits_length_le 10 _ 3 (by decide) (by decide)).mpr (by omega)

theorem ipString_length_le (ip : Str) (h : ip.length = 4 ∨ ip.length = 16) :
    (ipString ip).length ≤ 42 := by
  have hne : ip ≠ [] := by
    rintro rfl
    simp at h
  have hfour : ¬ (ip.length ≠ 4 ∧ ip.length ≠ 16) := by omega
  rw [ipString, if_neg hne, if_neg hfour]
  rcases h with h | h
  · rw [to4_of_length_four ip h]
    exact (v4String_length_le ip h).trans (by decide)
  · cases hto : to4 ip with
    | none => exact v6String_length_le ip h
    | some p4 =>
      have hp4 : p4.length = 4 := by
        unfold to4 at hto
        split at hto
        · omega
        split at hto
        · cases hto
          simp [h]
        · cases hto
      exact (v4String_length_le p4 hp4).trans (by decide)

theorem isAddrByte_solid (b : UInt8) (h : isAddrByte b = true) : Solid b := by
  have hall : ∀ n : Fin 256, isAddrByte n.val.toUInt8 = true → Solid n.val.toUInt8 := by
    decide +kernel
  simpa using hall ⟨b.toNat, b.toNat_lt⟩ (by simpa using h)

section accepted

theorem v4Loop_some (octets : Str) (val dig : Nat) (s r : Str) (hlen : octets.length ≤ 3)
    (h : v4Loop octets val dig s = some r) :
    r.length = 4 ∧ ∀ b ∈ s, isDigit b = true ∨ b = 0x2E := by
  induction s generalizing octets val dig with
  | nil =>
    rw [v4Loop] at h
    split at h
    · cases h
    · cases h
      simp
      omega
  | cons b s ih =>
    rw [v4Loop] at h
    split at h
    · rename_i hd
      split at h
      · cases h
      split at h
      · cases h
      obtain ⟨hr, hs⟩ := ih _ _ _ hlen h
      exact ⟨hr, List.forall_mem_cons.mpr ⟨Or.inl hd, hs⟩⟩
    · split at h
      · rename_i hdot
        split at h
        · cases h
        split at h
        · cases h
        obtain ⟨hr, hs⟩ := ih _ _ _ (by simp; omega) h
        exact ⟨hr, List.forall_mem_cons.mpr ⟨Or.inr hdot, hs⟩⟩
      · cases h

theorem isAddrByte_dotted (b : UInt8) (h : isDigit b = true ∨ b = 0x2E) : isAddrByte b = true := by
  rcases h with h | h
  · simp [isAddrByte, isDigit_isHex b h]
  · simp [isAddrByte, h]

/-- One round of the group loop consumes the group and what separates it from the rest. -/
theorem mem_takeWhile_or_dropWhile (s : Str) (b : UInt8) (h : b ∈ s) :
    isHex b = true ∨ b ∈ s.dropWhile isHex := by
  rw [← List.takeWhile_append_dropWhile (p := isHex) (l := s), List.mem_append] at h
  exact h.imp_left List.mem_takeWhile_imp

theorem v6Loop_some (fuel : Nat) (ip : Str) (e : Option Nat) (s ip' : Str) (e' : Option Nat)
    (rest : Str) (hlen : ip.length + 2 * fuel = 16) (he : ∀ k ∈ e, k ≤ ip.length)
    (h : v6Loop fuel ip e s = some (ip', e', rest)) :
    ip'.length ≤ 16 ∧ (∀ k ∈ e', k ≤ ip'.length) ∧ (rest = [] → ∀ b ∈ s, isAddrByte b = true) := by
  induction fuel generalizing ip e s with
  | zero =>
    cases h
    refine ⟨by omega, he, ?_⟩
    rintro rfl
    simp
  | succ fuel ih =>
    rw [v6Loop] at h
    split at h
    · cases h
    have hgroup : ∀ (g : Nat), (ip ++ groupBytes g).length = ip.length + 2 := by simp [groupBytes]
    -- The bytes of `s` are those of the group and those after it.
    have hbytes : ∀ tail, s.dropWhile isHex = tail → (∀ b ∈ tail, isAddrByte b = true) →
        ∀ b ∈ s, isAddrByte b = true := by
      rintro tail rfl htail b hb
      rcases mem_takeWhile_or_dropWhile s b hb with hx | hx
      · simp [isAddrByte, hx]
      · exact htail b hx
    split at h
    · rename_i hdrop
      cases h
      refine ⟨by rw [hgroup]; omega, fun k hk => ?_, fun _ => hbytes [] hdrop (by simp)⟩
      have := he k hk
      rw [hgroup]
      omega
    · split at h
      · cases h
      split at h
      · cases h
      cases hv4 : v4Fields s with
      | none => simp [hv4] at h
      | some octets =>
        rw [hv4] at h
        cases h
        obtain ⟨hoct, hs⟩ := v4Loop_some [] 0 0 s octets (by simp) hv4
        refine ⟨by simp; omega, fun k hk => ?_, fun _ b hb => isAddrByte_dotted b (hs b hb)⟩
        have := he k hk
        simp
        omega
    · rename_i tail hdrop
      split at h
      · cases h
      · rename_i tail'
        split at h
        · cases h
        split at h
        · rename_i hnil
          cases h
          refine ⟨by rw [hgroup]; omega, fun k hk => ?_, fun _ => hbytes _ hdrop ?_⟩
          · cases hk
            rw [hgroup]
          · simp [hnil, isAddrByte]
        · obtain ⟨h1, h2, h3⟩ := ih _ _ _ (by rw [hgroup]; omega) (by simp [groupBytes]) h
          refine ⟨h1, h2, fun hrest => hbytes _ hdrop ?_⟩
          have := h3 hrest
          simpa [isAddrByte] using this
      · obtain ⟨h1, h2, h3⟩ := ih _ _ _ (by rw [hgroup]; omega)
          (fun k hk => by have := he k hk; rw [hgroup]; omega) h
        refine ⟨h1, h2, fun hrest => hbytes _ hdrop ?_⟩
        have := h3 hrest
        simpa [isAddrByte] using this
    · cases h

theorem v6Finish_some (ip : Str) (e : Option Nat) (rest r : Str) (hlen : ip.length ≤ 16)
    (he : ∀ k ∈ e, k ≤ ip.length) (h : v6Finish (ip, e, rest) = some r) :
    r.length = 16 ∧ rest = [] := by
  rw [v6Finish] at h
  split at h
  · cases h
  · rename_i hrest
    refine ⟨?_, by simpa using hrest⟩
    split at h
    · cases e with
      | none => cases h
      | some k =>
        cases h
        have := he k rfl
        simp
        omega
    · split at h
      · cases h
      · cases h
        omega

theorem v6Bytes_some (s r : Str) (h : v6Bytes s = some r) :
    r.length = 16 ∧ ∀ b ∈ s, isAddrByte b = true := by
  have hloop : ∀ (e : Option Nat) (t : Str), (∀ k ∈ e, k ≤ 0) →
      v6Loop 8 [] e t >>= v6Finish = some r →
      r.length = 16 ∧ ∀ b ∈ t, isAddrByte b = true := by
    intro e t he ht
    obtain ⟨⟨ip, e', rest⟩, hl, hf⟩ := Option.bind_eq_some_iff.mp ht
    obtain ⟨h1, h2, h3⟩ := v6Loop_some 8 [] e t ip e' rest rfl (by simpa using he) hl
    obtain ⟨h4, h5⟩ := v6Finish_some ip e' rest r h1 h2 hf
    exact ⟨h4, h3 h5⟩
  unfold v6Bytes at h
  split at h
  · split at h
    · rename_i hnil
      cases h
      simp [hnil, isAddrByte]
    · obtain ⟨h1, h2⟩ := hloop _ _ (by simp) h
      exact ⟨h1, by simpa [isAddrByte] using h2⟩
  · exact hloop _ _ (by simp) h

/-- An address accepted by `ParseIP` has sixteen bytes, and its text only address bytes. -/
theorem parseIP_some (s ip : Str) (h : parseIP s = some ip) :
    ip.length = 16 ∧ ∀ b ∈ s, isAddrByte b = true := by
  unfold parseIP parseAddr at h
  split at h
  · rename_i a ha
    split at h
    · rename_i hzone
      cases h
      split at ha
      · obtain ⟨bytes, hb, rfl⟩ := Option.map_eq_some_iff.mp ha
        obtain ⟨hlen, hs⟩ := v4Loop_some [] 0 0 s bytes (by simp) hb
        exact ⟨by simp [Addr.as16, Addr.is4, hlen, v4InV6], fun b hb => isAddrByte_dotted b (hs b hb)⟩
      · unfold parseIPv6 at ha
        split at ha
        · obtain ⟨bytes, hb, rfl⟩ := Option.map_eq_some_iff.mp ha
          obtain ⟨hlen, hs⟩ := v6Bytes_some s bytes hb
          exact ⟨by simp [Addr.as16, Addr.is4, hlen], hs⟩
        · split at ha
          · cases ha
          · rename_i hne
            obtain ⟨bytes, -, rfl⟩ := Option.map_eq_some_iff.mp ha
            exact absurd hzone hne
      · cases ha
    · cases h
  · cases h

end accepted

example : parseIP (ascii "fe80::1:0:0:2") = some
    [0xFE, 0x80, 0, 0, 0, 0, 0, 0, 0, 1, 0, 0, 0, 0, 0, 2] := by decide +kernel
example : ipString [0xFE, 0x80, 0, 0, 0, 0, 0, 0, 0, 1, 0, 0, 0, 0, 0, 2] =
    ascii "fe80::1:0:0:2" := by decide +kernel

end SmartAwg.Go
