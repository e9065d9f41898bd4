import SmartAwg.GoOutcome

/-! UTF-8 decoding as a `range` loop over a string sees it, and the two case operations
built on it. An invalid byte decodes to U+FFFD with width 1, so lower-casing a string can
lengthen it; several capital letters have a shorter lower-case form, so it can also
shorten it. -/
namespace SmartAwg.Go

/-- What holds of each of the 256 bytes. -/
theorem byte_forall (P : UInt8 → Prop) (h : ∀ n : Fin 256, P n.val.toUInt8) (b : UInt8) : P b := by
  simpa using h ⟨b.toNat, b.toNat_lt⟩

def runeError : Nat := 0xFFFD

/-- The length announced by a leading byte and the range its second byte must lie in. -/
def leadByte (b : UInt8) : Option (Nat × UInt8 × UInt8) :=
  if b < 0xC2 then none
  else if b < 0xE0 then some (2, 0x80, 0xBF)
  else if b = 0xE0 then some (3, 0xA0, 0xBF)
  else if b = 0xED then some (3, 0x80, 0x9F)
  else if b < 0xF0 then some (3, 0x80, 0xBF)
  else if b = 0xF0 then some (4, 0x90, 0xBF)
  else if b < 0xF4 then some (4, 0x80, 0xBF)
  else if b = 0xF4 then some (4, 0x80, 0x8F)
  else none

def within (lo hi b : UInt8) : Bool := lo ≤ b && b ≤ hi

/-- `utf8.DecodeRuneInString`: the rune at the front and its width. -/
def decodeRune : Str → Nat × Nat
  | [] => (runeError, 0)
  | b0 :: rest =>
    if b0 < 0x80 then (b0.toNat, 1)
    else
      match leadByte b0, rest with
      | some (2, lo, hi), b1 :: _ =>
        if within lo hi b1 then ((b0.toNat % 32) * 64 + b1.toNat % 64, 2) else (runeError, 1)
      | some (3, lo, hi), b1 :: b2 :: _ =>
        if within lo hi b1 && within 0x80 0xBF b2 then
          ((b0.toNat % 16) * 4096 + (b1.toNat % 64) * 64 + b2.toNat % 64, 3)
        else (runeError, 1)
      | some (4, lo, hi), b1 :: b2 :: b3 :: _ =>
        if within lo hi b1 && within 0x80 0xBF b2 && within 0x80 0xBF b3 then
          ((b0.toNat % 8) * 262144 + (b1.toNat % 64) * 4096 + (b2.toNat % 64) * 64
            + b3.toNat % 64, 4)
        else (runeError, 1)
      | _, _ => (runeError, 1)

/-- `utf8.AppendRune`; surrogates and values past U+10FFFF are written as U+FFFD. -/
def encodeRune (r : Nat) : Str :=
  if r < 0x80 then [r.toUInt8]
  else if r < 0x800 then [(0xC0 + r / 64).toUInt8, (0x80 + r % 64).toUInt8]
  else if (0xD800 ≤ r ∧ r < 0xE000) ∨ 0x110000 ≤ r then [0xEF, 0xBF, 0xBD]
  else if r < 0x10000 then
    [(0xE0 + r / 4096).toUInt8, (0x80 + r / 64 % 64).toUInt8, (0x80 + r % 64).toUInt8]
  else
    [(0xF0 + r / 262144).toUInt8, (0x80 + r / 4096 % 64).toUInt8, (0x80 + r / 64 % 64).toUInt8,
      (0x80 + r % 64).toUInt8]

/-- The bytes of a text. -/
def utf8 (s : String) : Str := s.toList.flatMap fun c => encodeRune c.toNat

/-- The runes of a string; `skip` counts the bytes left of the rune just taken. -/
def runesFrom : Nat → Str → List Nat
  | _, [] => []
  | 0, b :: rest => (decodeRune (b :: rest)).1 :: runesFrom ((decodeRune (b :: rest)).2 - 1) rest
  | skip + 1, _ :: rest => runesFrom skip rest

def runes (s : Str) : List Nat := runesFrom 0 s

/-- The letters with a simple lower-case form: first, last, stride, image of the first. -/
def lowerTable : List (Nat × Nat × Nat × Nat) :=
  [(0x41, 0x5A, 1, 0x61), (0xC0, 0xD6, 1, 0xE0), (0xD8, 0xDE, 1, 0xF8), (0x100, 0x12E, 2, 0x101),
   (0x130, 0x130, 1, 0x69), (0x132, 0x136, 2, 0x133), (0x139, 0x147, 2, 0x13A),
   (0x14A, 0x176, 2, 0x14B), (0x178, 0x178, 1, 0xFF), (0x179, 0x17D, 2, 0x17A),
   (0x181, 0x181, 1, 0x253), (0x182, 0x184, 2, 0x183), (0x186, 0x186, 1, 0x254),
   (0x187, 0x187, 1, 0x188), (0x189, 0x18A, 1, 0x256), (0x18B, 0x18B, 1, 0x18C),
   (0x18E, 0x18E, 1, 0x1DD), (0x18F, 0x18F, 1, 0x259), (0x190, 0x190, 1, 0x25B),
   (0x191, 0x191, 1, 0x192), (0x193, 0x193, 1, 0x260), (0x194, 0x194, 1, 0x263),
   (0x196, 0x196, 1, 0x269), (0x197, 0x197, 1, 0x268), (0x198, 0x198, 1, 0x199),
   (0x19C, 0x19C, 1, 0x26F), (0x19D, 0x19D, 1, 0x272), (0x19F, 0x19F, 1, 0x275),
   (0x1A0, 0x1A4, 2, 0x1A1), (0x1A6, 0x1A6, 1, 0x280), (0x1A7, 0x1A7, 1, 0x1A8),
   (0x1A9, 0x1A9, 1, 0x283), (0x1AC, 0x1AC, 1, 0x1AD), (0x1AE, 0x1AE, 1, 0x288),
   (0x1AF, 0x1AF, 1, 0x1B0), (0x1B1, 0x1B2, 1, 0x28A), (0x1B3, 0x1B5, 2, 0x1B4),
   (0x1B7, 0x1B7, 1, 0x292), (0x1B8, 0x1B8, 1, 0x1B9), (0x1BC, 0x1BC, 1, 0x1BD),
   (0x1C4, 0x1C4, 1, 0x1C6), (0x1C5, 0x1C5, 1, 0x1C6), (0x1C7, 0x1C7, 1, 0x1C9),
   (0x1C8, 0x1C8, 1, 0x1C9), (0x1CA, 0x1CA, 1, 0x1CC), (0x1CB, 0x1DB, 2, 0x1CC),
   (0x1DE, 0x1EE, 2, 0x1DF), (0x1F1, 0x1F1, 1, 0x1F3), (0x1F2, 0x1F4, 2, 0x1F3),
   (0x1F6, 0x1F6, 1, 0x195), (0x1F7, 0x1F7, 1, 0x1BF), (0x1F8, 0x21E, 2, 0x1F9),
   (0x220, 0x220, 1, 0x19E), (0x222, 0x232, 2, 0x223), (0x23A, 0x23A, 1, 0x2C65),
   (0x23B, 0x23B, 1, 0x23C), (0x23D, 0x23D, 1, 0x19A), (0x23E, 0x23E, 1, 0x2C66),
   (0x241, 0x241, 1, 0x242), (0x243, 0x243, 1, 0x180), (0x244, 0x244, 1, 0x289),
   (0x245, 0x245, 1, 0x28C), (0x246, 0x24E, 2, 0x247), (0x370, 0x372, 2, 0x371),
   (0x376, 0x376, 1, 0x377), (0x37F, 0x37F, 1, 0x3F3), (0x386, 0x386, 1, 0x3AC),
   (0x388, 0x38A, 1, 0x3AD), (0x38C, 0x38C, 1, 0x3CC), (0x38E, 0x38F, 1, 0x3CD),
   (0x391, 0x3A1, 1, 0x3B1), (0x3A3, 0x3AB, 1, 0x3C3), (0x3CF, 0x3CF, 1, 0x3D7),
   (0x3D8, 0x3EE, 2, 0x3D9), (0x3F4, 0x3F4, 1, 0x3B8), (0x3F7, 0x3F7, 1, 0x3F8),
   (0x3F9, 0x3F9, 1, 0x3F2), (0x3FA, 0x3FA, 1, 0x3FB), (0x3FD, 0x3FF, 1, 0x37B),
   (0x400, 0x40F, 1, 0x450), (0x410, 0x42F, 1, 0x430), (0x460, 0x480, 2, 0x461),
   (0x48A, 0x4BE, 2, 0x48B), (0x4C0, 0x4C0, 1, 0x4CF), (0x4C1, 0x4CD, 2, 0x4C2),
   (0x4D0, 0x52E, 2, 0x4D1), (0x531, 0x556, 1, 0x561), (0x10A0, 0x10C5, 1, 0x2D00),
   (0x10C7, 0x10C7, 1, 0x2D27), (0x10CD, 0x10CD, 1, 0x2D2D), (0x13A0, 0x13EF, 1, 0xAB70),
   (0x13F0, 0x13F5, 1, 0x13F8), (0x1C90, 0x1CBA, 1, 0x10D0), (0x1CBD, 0x1CBF, 1, 0x10FD),
   (0x1E00, 0x1E94, 2, 0x1E01), (0x1E9E, 0x1E9E, 1, 0xDF), (0x1EA0, 0x1EFE, 2, 0x1EA1),
   (0x1F08, 0x1F0F, 1, 0x1F00), (0x1F18, 0x1F1D, 1, 0x1F10), (0x1F28, 0x1F2F, 1, 0x1F20),
   (0x1F38, 0x1F3F, 1, 0x1F30), (0x1F48, 0x1F4D, 1, 0x1F40), (0x1F59, 0x1F5F, 2, 0x1F51),
   (0x1F68, 0x1F6F, 1, 0x1F60), (0x1F88, 0x1F8F, 1, 0x1F80), (0x1F98, 0x1F9F, 1, 0x1F90),
   (0x1FA8, 0x1FAF, 1, 0x1FA0), (0x1FB8, 0x1FB9, 1, 0x1FB0), (0x1FBA, 0x1FBB, 1, 0x1F70),
   (0x1FBC, 0x1FBC, 1, 0x1FB3), (0x1FC8, 0x1FCB, 1, 0x1F72), (0x1FCC, 0x1FCC, 1, 0x1FC3),
   (0x1FD8, 0x1FD9, 1, 0x1FD0), (0x1FDA, 0x1FDB, 1, 0x1F76), (0x1FE8, 0x1FE9, 1, 0x1FE0),
   (0x1FEA, 0x1FEB, 1, 0x1F7A), (0x1FEC, 0x1FEC, 1, 0x1FE5), (0x1FF8, 0x1FF9, 1, 0x1F78),
   (0x1FFA, 0x1FFB, 1, 0x1F7C), (0x1FFC, 0x1FFC, 1, 0x1FF3), (0x2126, 0x2126, 1, 0x3C9),
   (0x212A, 0x212A, 1, 0x6B), (0x212B, 0x212B, 1, 0xE5), (0x2132, 0x2132, 1, 0x214E),
   (0x2160, 0x216F, 1, 0x2170), (0x2183, 0x2183, 1, 0x2184), (0x24B6, 0x24CF, 1, 0x24D0),
   (0x2C00, 0x2C2F, 1, 0x2C30), (0x2C60, 0x2C60, 1, 0x2C61), (0x2C62, 0x2C62, 1, 0x26B),
   (0x2C63, 0x2C63, 1, 0x1D7D), (0x2C64, 0x2C64, 1, 0x27D), (0x2C67, 0x2C6B, 2, 0x2C68),
   (0x2C6D, 0x2C6D, 1, 0x251), (0x2C6E, 0x2C6E, 1, 0x271), (0x2C6F, 0x2C6F, 1, 0x250),
   (0x2C70, 0x2C70, 1, 0x252), (0x2C72, 0x2C72, 1, 0x2C73), (0x2C75, 0x2C75, 1, 0x2C76),
   (0x2C7E, 0x2C7F, 1, 0x23F), (0x2C80, 0x2CE2, 2, 0x2C81), (0x2CEB, 0x2CED, 2, 0x2CEC),
   (0x2CF2, 0x2CF2, 1, 0x2CF3), (0xA640, 0xA66C, 2, 0xA641), (0xA680, 0xA69A, 2, 0xA681),
   (0xA722, 0xA72E, 2, 0xA723), (0xA732, 0xA76E, 2, 0xA733), (0xA779, 0xA77B, 2, 0xA77A),
   (0xA77D, 0xA77D, 1, 0x1D79), (0xA77E, 0xA786, 2, 0xA77F), (0xA78B, 0xA78B, 1, 0xA78C),
   (0xA78D, 0xA78D, 1, 0x265), (0xA790, 0xA792, 2, 0xA791), (0xA796, 0xA7A8, 2, 0xA797),
   (0xA7AA, 0xA7AA, 1, 0x266), (0xA7AB, 0xA7AB, 1, 0x25C), (0xA7AC, 0xA7AC, 1, 0x261),
   (0xA7AD, 0xA7AD, 1, 0x26C), (0xA7AE, 0xA7AE, 1, 0x26A), (0xA7B0, 0xA7B0, 1, 0x29E),
   (0xA7B1, 0xA7B1, 1, 0x287), (0xA7B2, 0xA7B2, 1, 0x29D), (0xA7B3, 0xA7B3, 1, 0xAB53),
   (0xA7B4, 0xA7C2, 2, 0xA7B5), (0xA7C4, 0xA7C4, 1, 0xA794), (0xA7C5, 0xA7C5, 1, 0x282),
   (0xA7C6, 0xA7C6, 1, 0x1D8E), (0xA7C7, 0xA7C9, 2, 0xA7C8), (0xA7D0, 0xA7D0, 1, 0xA7D1),
   (0xA7D6, 0xA7D8, 2, 0xA7D7), (0xA7F5, 0xA7F5, 1, 0xA7F6), (0xFF21, 0xFF3A, 1, 0xFF41),
   (0x10400, 0x10427, 1, 0x10428), (0x104B0, 0x104D3, 1, 0x104D8), (0x10570, 0x1057A, 1, 0x10597),
   (0x1057C, 0x1058A, 1, 0x105A3), (0x1058C, 0x10592, 1, 0x105B3), (0x10594, 0x10595, 1, 0x105BB),
   (0x10C80, 0x10CB2, 1, 0x10CC0), (0x118A0, 0x118BF, 1, 0x118C0), (0x16E40, 0x16E5F, 1, 0x16E60),
   (0x1E900, 0x1E921, 1, 0x1E922)]

def lowerRune (r : Nat) : Nat :=
  match lowerTable.find? fun (lo, hi, step, _) => lo ≤ r && r ≤ hi && (r - lo) % step == 0 with
  | some (lo, _, _, image) => image + (r - lo)
  | none => r

/-- The runes whose simple folding class is not the one of their lower-case form. -/
def foldExceptions : List (Nat × Nat) :=
  [(0xB5, 0x3BC), (0x130, 0x130), (0x17F, 0x73), (0x345, 0x3B9), (0x3C2, 0x3C3), (0x3D0, 0x3B2),
   (0x3D1, 0x3B8), (0x3D5, 0x3C6), (0x3D6, 0x3C0), (0x3F0, 0x3BA), (0x3F1, 0x3C1), (0x3F5, 0x3B5),
   (0x1C80, 0x432), (0x1C81, 0x434), (0x1C82, 0x43E), (0x1C83, 0x441), (0x1C84, 0x442),
   (0x1C85, 0x442), (0x1C86, 0x44A), (0x1C87, 0x463), (0x1C88, 0xA64B), (0x1E9B, 0x1E61),
   (0x1FBE, 0x3B9)]

def foldRune (r : Nat) : Nat :=
  match foldExceptions.find? fun (c, _) => c == r with
  | some (_, image) => image
  | none => lowerRune r

/-- `utf8.ValidString`: an invalid byte is not what its rune encodes to. -/
def validUtf8 (s : Str) : Bool := (runes s).flatMap encodeRune == s

/-- `strings.ToLower`. -/
def toLower (s : Str) : Str := (runes s).flatMap fun r => encodeRune (lowerRune r)

/-- `strings.EqualFold`: equality under simple case folding. -/
def equalFold (s t : Str) : Bool := (runes s).map foldRune == (runes t).map foldRune

/-- Lower-casing of one ASCII byte. -/
def lowerByte (b : UInt8) : UInt8 := if 0x41 ≤ b ∧ b ≤ 0x5A then b + 32 else b

def IsAscii (s : Str) : Prop := ∀ b ∈ s, b < 0x80

instance (s : Str) : Decidable (IsAscii s) := List.decidableBAll (· < 0x80) s

theorem decodeRune_ascii (b : UInt8) (s : Str) (hb : b < 0x80) :
    decodeRune (b :: s) = (b.toNat, 1) := by
  simp [decodeRune, hb]

theorem runes_cons_ascii (b : UInt8) (s : Str) (hb : b < 0x80) :
    runes (b :: s) = b.toNat :: runes s := by
  simp [runes, runesFrom, decodeRune_ascii b s hb]

theorem runes_ascii (a : Str) (ha : IsAscii a) : runes a = a.map UInt8.toNat := by
  induction a with
  | nil => rfl
  | cons b a ih =>
    rw [runes_cons_ascii b a (ha b (List.mem_cons_self ..)),
      ih fun c hc => ha c (List.mem_cons_of_mem _ hc), List.map_cons]

-- Every row of the table but the first lies above ASCII.
theorem lowerTable_tail : ∀ row ∈ lowerTable.tail, 0x80 ≤ row.1 := by decide +kernel

theorem lowerRune_ascii (r : Nat) (hr : r < 0x80) :
    lowerRune r = if 0x41 ≤ r ∧ r ≤ 0x5A then r + 32 else r := by
  have hsplit : lowerTable = (0x41, 0x5A, 1, 0x61) :: lowerTable.tail := rfl
  have htail : (lowerTable.tail.find? fun (lo, hi, step, _) =>
      decide (lo ≤ r) && decide (r ≤ hi) && (r - lo) % step == 0) = none := by
    rw [List.find?_eq_none]
    rintro ⟨lo, hi, step, image⟩ hrow
    have : 0x80 ≤ lo := lowerTable_tail _ hrow
    simp only [Bool.and_eq_true, decide_eq_true_eq, not_and]
    omega
  unfold lowerRune
  rw [hsplit, List.find?_cons, htail]
  by_cases h : 0x41 ≤ r ∧ r ≤ 0x5A
  · simp only [h.1, h.2, decide_true, Bool.and_self, Nat.mod_one, beq_self_eq_true, and_self,
      if_true]
    omega
  · have : (decide (0x41 ≤ r) && decide (r ≤ 0x5A)) = false := by
      simpa [Bool.and_eq_false_iff, Nat.not_le] using h
    simp only [this, Bool.false_and, if_neg h]

/-- The table agrees with the byte-wise rule on ASCII. -/
theorem encode_lowerRune_ascii (b : UInt8) (hb : b < 0x80) :
    encodeRune (lowerRune b.toNat) = [lowerByte b] := by
  have hall : ∀ n : Fin 128, encodeRune (if 0x41 ≤ n.val ∧ n.val ≤ 0x5A then n.val + 32 else n.val)
      = [lowerByte n.val.toUInt8] := by decide
  have hlt : b.toNat < 128 := hb
  rw [lowerRune_ascii b.toNat hlt]
  simpa using hall ⟨b.toNat, hlt⟩

theorem toLower_cons_ascii (b : UInt8) (s : Str) (hb : b < 0x80) :
    toLower (b :: s) = lowerByte b :: toLower s := by
  simp [toLower, runes_cons_ascii b s hb, encode_lowerRune_ascii b hb]

@[simp] theorem toLower_nil : toLower [] = [] := rfl

theorem toLower_append_ascii (a s : Str) (ha : IsAscii a) :
    toLower (a ++ s) = a.map lowerByte ++ toLower s := by
  induction a with
  | nil => rfl
  | cons b a ih =>
    rw [List.cons_append, toLower_cons_ascii b _ (ha b (by simp)),
      ih fun c hc => ha c (by simp [hc])]
    rfl

theorem toLower_ascii (a : Str) (ha : IsAscii a) : toLower a = a.map lowerByte := by
  simpa using toLower_append_ascii a [] ha

theorem equalFold_iff (s t : Str) :
    equalFold s t = true ↔ (runes s).map foldRune = (runes t).map foldRune := by
  simp [equalFold]

theorem equalFold_comm (s t : Str) : equalFold s t = equalFold t s := by
  rw [Bool.eq_iff_iff, equalFold_iff, equalFold_iff]
  exact eq_comm

/-- A leading byte, or the least second byte it allows, rules out the short encodings. -/
theorem leadByte_large (b lo hi : UInt8) (n : Nat) (h : leadByte b = some (n, lo, hi)) :
    (n = 2 → 2 ≤ b.toNat % 32) ∧ (n = 3 → 1 ≤ b.toNat % 16 ∨ 0xA0 ≤ lo ∧ hi ≤ 0xBF) ∧
      (n = 4 → 1 ≤ b.toNat % 8 ∨ 0x90 ≤ lo ∧ hi ≤ 0xBF) := by
  have hall : ∀ m : Fin 256, (leadByte m.val.toUInt8).all fun (n, lo, hi) =>
      (n = 2 → 2 ≤ m.val.toUInt8.toNat % 32) ∧
      (n = 3 → 1 ≤ m.val.toUInt8.toNat % 16 ∨ 0xA0 ≤ lo ∧ hi ≤ 0xBF) ∧
      (n = 4 → 1 ≤ m.val.toUInt8.toNat % 8 ∨ 0x90 ≤ lo ∧ hi ≤ 0xBF) := by decide +kernel
  have hb := hall ⟨b.toNat, b.toNat_lt⟩
  simpa [h, imp_iff_not_or] using hb

/-- A second byte in such a range has a large low part. -/
theorem within_mod (lo hi b : UInt8) (k : Nat) (hw : within lo hi b = true) (hk : 0x80 + k ≤ lo.toNat)
    (hhi : hi ≤ 0xBF) : k ≤ b.toNat % 64 := by
  simp only [within, Bool.and_eq_true, decide_eq_true_eq, UInt8.le_iff_toNat_le] at hw hhi
  have : (0xBF : UInt8).toNat = 0xBF := rfl
  omega

theorem decodeRune_nonascii (b : UInt8) (s : Str) (hb : ¬ b < 0x80) :
    0x80 ≤ (decodeRune (b :: s)).1 := by
  unfold decodeRune
  simp only [hb, if_false]
  split
  · rename_i lo hi b1 _ hlead
    have := (leadByte_large b lo hi 2 hlead).1 rfl
    split
    · simp only
      omega
    · decide
  · rename_i lo hi b1 b2 _ hlead
    have hlarge := (leadByte_large b lo hi 3 hlead).2.1 rfl
    split
    · rename_i hwithin
      simp only
      rcases hlarge with hlarge | ⟨hlo, hhi⟩
      · omega
      · have := within_mod lo hi b1 32 (Bool.and_eq_true_iff.mp hwithin).1 hlo hhi
        omega
    · decide
  · rename_i lo hi b1 b2 b3 _ hlead
    have hlarge := (leadByte_large b lo hi 4 hlead).2.2 rfl
    split
    · rename_i hwithin
      simp only [Bool.and_eq_true] at hwithin
      simp only
      rcases hlarge with hlarge | ⟨hlo, hhi⟩
      · omega
      · have := within_mod lo hi b1 16 hwithin.1.1 hlo hhi
        omega
    · decide
  · decide

theorem foldRune_eq_dot (r : Nat) (h : foldRune r = 0x2E) : r = 0x2E := by
  have hexceptions : ∀ e ∈ foldExceptions, e.2 ≠ 0x2E := by decide
  have htable : ∀ row ∈ lowerTable, 0x2E < row.2.2.2 := by decide +kernel
  unfold foldRune at h
  split at h
  · rename_i image hfind
    exact absurd h (hexceptions _ (List.mem_of_find?_eq_some hfind))
  · unfold lowerRune at h
    split at h
    · rename_i lo hi step image hfind
      have := htable _ (List.mem_of_find?_eq_some hfind)
      simp only at this
      omega
    · exact h

theorem runes_ne_nil (b : UInt8) (s : Str) : runes (b :: s) ≠ [] := by
  simp [runes, runesFrom]

/-- Only a dot is a dot under case folding. -/
theorem equalFold_dot (v : Str) (h : equalFold [0x2E] v = true) : v = [0x2E] := by
  rw [equalFold_iff] at h
  have hdot : (runes [0x2E]).map foldRune = [0x2E] := by decide +kernel
  rw [hdot] at h
  cases v with
  | nil => cases h
  | cons b s =>
    by_cases hb : b < 0x80
    · rw [runes_cons_ascii b s hb, List.map_cons] at h
      obtain ⟨hhead, htail⟩ := List.cons.inj h
      have hbyte : b = 0x2E := UInt8.toNat_inj.mp (foldRune_eq_dot _ hhead.symm)
      cases s with
      | nil => rw [hbyte]
      | cons c s => exact absurd (List.map_eq_nil_iff.mp htail.symm) (runes_ne_nil c s)
    · obtain ⟨r, hr, hfold⟩ := List.map_eq_singleton_iff.mp h.symm
      have hrune : (decodeRune (b :: s)).1 = r := by
        have := congrArg List.head? hr
        simpa [runes, runesFrom] using this
      have hlarge := decodeRune_nonascii b s hb
      rw [hrune, foldRune_eq_dot r hfold] at hlarge
      exact absurd hlarge (by decide)

-- KELVIN SIGN takes three bytes and its lower-case form one; an invalid byte grows to three.
example : toLower [0xE2, 0x84, 0xAA, 0x3D] = [0x6B, 0x3D] := by decide +kernel
example : toLower [0xFF] = [0xEF, 0xBF, 0xBD] := by decide +kernel

end SmartAwg.Go
