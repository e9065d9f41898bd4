import Mathlib.Algebra.Group.Nat.Defs
import SmartAwg.GoStrings

/-! The decimal and hexadecimal conversions of `strconv`. Parsing walks the text once and
stops at the first byte that is not a digit or makes the value too large, which is also the
order in which the package reports its two errors. -/
namespace SmartAwg.Go

/-- The text of a number in a base of at most 16, with lower-case letters. -/
def digits (base n : Nat) : Str := (Nat.toDigits base n).map fun c => c.toNat.toUInt8

/-- `strconv.Itoa` and the verb `%d` on a natural number. -/
def itoa (n : Nat) : Str := digits 10 n

def digitByte (d : Nat) : UInt8 := d.digitChar.toNat.toUInt8

def isDigit (b : UInt8) : Bool := 0x30 ≤ b && b ≤ 0x39

def digitVal (b : UInt8) : Nat := b.toNat - 0x30

def hexVal (b : UInt8) : Option Nat :=
  if 0x30 ≤ b ∧ b ≤ 0x39 then some (b.toNat - 0x30)
  else if 0x61 ≤ b ∧ b ≤ 0x66 then some (b.toNat - 0x57)
  else if 0x41 ≤ b ∧ b ≤ 0x46 then some (b.toNat - 0x37)
  else none

inductive NumErrorKind where
  | invalidSyntax
  | outOfRange
  deriving Repr, DecidableEq

/-- `strconv.NumError`. -/
structure NumError where
  func : String
  num : Str
  kind : NumErrorKind
  deriving Repr, DecidableEq

def decLoop (maxVal : Nat) : Nat → Str → Except NumErrorKind Nat
  | n, [] => .ok n
  | n, b :: rest =>
    if isDigit b then
      if n * 10 + digitVal b > maxVal then .error .outOfRange
      else decLoop maxVal (n * 10 + digitVal b) rest
    else .error .invalidSyntax

/-- `strconv.ParseUint(s, 10, bits)`. -/
def parseUint (s : Str) (bits : Nat) : Except NumError Nat :=
  if s = [] then .error ⟨"ParseUint", s, .invalidSyntax⟩
  else
    match decLoop (2 ^ bits - 1) 0 s with
    | .ok n => .ok n
    | .error k => .error ⟨"ParseUint", s, k⟩

/-- A sign and the text after it. -/
def cutSign : Str → Bool × Str
  | 0x2B :: rest => (false, rest)
  | 0x2D :: rest => (true, rest)
  | s => (false, s)

/-- The signed 64-bit parse shared by `ParseInt(s, 10, 64)` and `Atoi`. -/
def parseSigned (func : String) (s : Str) : Except NumError Int :=
  let (neg, body) := cutSign s
  if body = [] then .error ⟨func, s, .invalidSyntax⟩
  else
    match decLoop (2 ^ 64 - 1) 0 body with
    | .error k => .error ⟨func, s, k⟩
    | .ok n =>
      if neg then
        if n > 2 ^ 63 then .error ⟨func, s, .outOfRange⟩ else .ok (-(n : Int))
      else
        if n ≥ 2 ^ 63 then .error ⟨func, s, .outOfRange⟩ else .ok n

/-- `strconv.Atoi` on a 64-bit machine. -/
def atoi (s : Str) : Except NumError Int := parseSigned "Atoi" s

theorem digits_of_lt (base n : Nat) (h : n < base) : digits base n = [digitByte n] := by
  simp [digits, Nat.toDigits_of_lt_base h, digitByte]

theorem digits_of_le (base n : Nat) (hb : 1 < base) (h : base ≤ n) :
    digits base n = digits base (n / base) ++ [digitByte (n % base)] := by
  simp [digits, Nat.toDigits_of_base_le hb h, digitByte]

theorem digits_ne_nil (base n : Nat) : digits base n ≠ [] := by simp [digits]

theorem digits_length_le (base n k : Nat) (hb : 1 < base) (hk : 0 < k) :
    (digits base n).length ≤ k ↔ n < base ^ k := by
  rw [digits, List.length_map]
  exact Nat.length_toDigits_le_iff hb hk

/-- The digits of a number, read from the left: a digit, or the digits of the quotient
followed by one digit. -/
theorem digits_induction (base : Nat) (hb : 1 < base) (P : Nat → Str → Prop)
    (hsmall : ∀ d, d < base → P d [digitByte d])
    (hstep : ∀ n d s, 0 < n → d < base → s = digits base n → P n s →
      P (n * base + d) (s ++ [digitByte d]))
    (n : Nat) : P n (digits base n) := by
  induction n using Nat.strongRecOn with
  | ind n ih =>
    by_cases h : n < base
    · rw [digits_of_lt base n h]
      exact hsmall n h
    · have hle : base ≤ n := by omega
      have hpos : 0 < n / base := Nat.div_pos hle (by omega)
      have hlt : n / base < n := Nat.div_lt_self (by omega) hb
      have := hstep (n / base) (n % base) _ hpos (Nat.mod_lt n (by omega)) rfl (ih _ hlt)
      rw [digits_of_le base n hb hle]
      rwa [Nat.mul_comm, Nat.div_add_mod] at this

theorem digitByte_decimal (d : Nat) (h : d < 10) :
    isDigit (digitByte d) = true ∧ digitVal (digitByte d) = d := by
  have hall : ∀ d : Fin 10, isDigit (digitByte d.val) = true ∧
      digitVal (digitByte d.val) = d.val := by decide
  exact hall ⟨d, h⟩

theorem hexVal_digitByte (d : Nat) (h : d < 16) : hexVal (digitByte d) = some d := by
  have hall : ∀ d : Fin 16, hexVal (digitByte d.val) = some d.val := by decide
  exact hall ⟨d, h⟩

theorem digits_bytes (base n : Nat) (hb : 1 < base) :
    ∀ b ∈ digits base n, ∃ d < base, b = digitByte d := by
  refine digits_induction base hb (fun _ s => ∀ b ∈ s, ∃ d < base, b = digitByte d) ?_ ?_ n
  · intro d hd b hmem
    exact ⟨d, hd, by simpa using hmem⟩
  · intro m d s _ hd _ ih b hmem
    rcases List.mem_append.mp hmem with h | h
    · exact ih b h
    · exact ⟨d, hd, by simpa using h⟩

theorem itoa_isDigit (n : Nat) : ∀ b ∈ itoa n, isDigit b = true := by
  intro b hb
  obtain ⟨d, hd, rfl⟩ := digits_bytes 10 n (by decide) b hb
  exact (digitByte_decimal d hd).1

theorem itoa_ne_nil (n : Nat) : itoa n ≠ [] := digits_ne_nil 10 n

theorem isDigit_ne (b c : UInt8) (h : isDigit b = true) (hc : isDigit c = false) : b ≠ c := by
  rintro rfl
  rw [hc] at h
  cases h

theorem decLoop_append (M n : Nat) (s t : Str) :
    decLoop M n (s ++ t) = (decLoop M n s).bind fun m => decLoop M m t := by
  induction s generalizing n with
  | nil => rfl
  | cons b s ih =>
    simp only [List.cons_append, decLoop]
    split
    · split
      · rfl
      · exact ih _
    · rfl

/-- Reading back what `Itoa` wrote. -/
theorem decLoop_itoa (M n : Nat) (h : n ≤ M) : decLoop M 0 (itoa n) = .ok n := by
  refine digits_induction 10 (by decide)
    (fun m s => m ≤ M → decLoop M 0 s = .ok m) ?_ ?_ n h
  · intro d hd hM
    obtain ⟨h1, h2⟩ := digitByte_decimal d hd
    simp [decLoop, h1, h2, Nat.not_lt.mpr hM]
  · intro m d s _ hd _ ih hM
    obtain ⟨h1, h2⟩ := digitByte_decimal d hd
    rw [decLoop_append, ih (by omega)]
    simp [Except.bind, decLoop, h1, h2, Nat.not_lt.mpr hM]

theorem itoa_injective : Function.Injective itoa := by
  intro n m h
  have hn := decLoop_itoa (max n m) n (le_max_left n m)
  rw [h, decLoop_itoa (max n m) m (le_max_right n m)] at hn
  exact (Except.ok.inj hn).symm

/-- A larger bound accepts what a smaller one does. -/
theorem decLoop_mono (M M' n r : Nat) (s : Str) (hM : M ≤ M') (h : decLoop M n s = .ok r) :
    decLoop M' n s = .ok r := by
  induction s generalizing n with
  | nil => exact h
  | cons b s ih =>
    unfold decLoop at h ⊢
    split at h
    · rename_i hd
      split at h
      · cases h
      · rename_i hle
        rw [if_pos hd, if_neg (by omega)]
        exact ih _ h
    · cases h

theorem decLoop_le (M n r : Nat) (s : Str) (hn : n ≤ M) (h : decLoop M n s = .ok r) : r ≤ M := by
  induction s generalizing n with
  | nil =>
    cases h
    exact hn
  | cons b s ih =>
    unfold decLoop at h
    split at h
    · split at h
      · cases h
      · exact ih _ (by omega) h
    · cases h

theorem parseUint_ok (s : Str) (bits n : Nat) (h : parseUint s bits = .ok n) :
    s ≠ [] ∧ decLoop (2 ^ bits - 1) 0 s = .ok n := by
  unfold parseUint at h
  split at h
  · cases h
  · rename_i hne
    split at h
    · rename_i hok
      cases h
      exact ⟨hne, hok⟩
    · cases h

theorem parseUint_lt (s : Str) (bits n : Nat) (h : parseUint s bits = .ok n) : n < 2 ^ bits := by
  have := decLoop_le _ 0 n s (Nat.zero_le _) (parseUint_ok s bits n h).2
  have := Nat.two_pow_pos bits
  omega

/-- A wider number accepts what a narrower one does. -/
theorem parseUint_mono (s : Str) (bits bits' n : Nat) (hb : bits ≤ bits')
    (h : parseUint s bits = .ok n) : parseUint s bits' = .ok n := by
  obtain ⟨hne, hok⟩ := parseUint_ok s bits n h
  have hle : 2 ^ bits - 1 ≤ 2 ^ bits' - 1 := Nat.sub_le_sub_right (Nat.pow_le_pow_right (by omega) hb) 1
  rw [parseUint, if_neg hne, decLoop_mono _ _ _ _ _ hle hok]

theorem parseUint_itoa (n bits : Nat) (h : n < 2 ^ bits) : parseUint (itoa n) bits = .ok n := by
  simp [parseUint, itoa_ne_nil, decLoop_itoa (2 ^ bits - 1) n (by omega)]

theorem cutSign_of_digit (b : UInt8) (s : Str) (h : isDigit b = true) :
    cutSign (b :: s) = (false, b :: s) := by
  have h1 : b ≠ 0x2B := isDigit_ne b _ h (by decide)
  have h2 : b ≠ 0x2D := isDigit_ne b _ h (by decide)
  unfold cutSign
  split <;> simp_all

theorem parseSigned_itoa (func : String) (n : Nat) (h : n < 2 ^ 63) :
    parseSigned func (itoa n) = .ok (n : Int) := by
  have hcut : cutSign (itoa n) = (false, itoa n) := by
    cases hs : itoa n with
    | nil => exact absurd hs (itoa_ne_nil n)
    | cons b s => exact cutSign_of_digit b s (itoa_isDigit n b (by simp [hs]))
  simp only [parseSigned, hcut, itoa_ne_nil, if_false, decLoop_itoa (2 ^ 64 - 1) n (by omega)]
  rw [if_neg (by decide), if_neg (Nat.not_le.mpr h)]

/-- An unsigned number of at most 32 bits is also read by `Atoi`. -/
theorem atoi_of_parseUint (s : Str) (bits n : Nat) (hb : bits ≤ 32) (h : parseUint s bits = .ok n) :
    atoi s = .ok (n : Int) := by
  obtain ⟨hne, hok⟩ := parseUint_ok s bits n h
  have hpow : 2 ^ bits ≤ 2 ^ 32 := Nat.pow_le_pow_right (by omega) hb
  have hcut : cutSign s = (false, s) := by
    cases s with
    | nil => exact absurd rfl hne
    | cons b s =>
      unfold decLoop at hok
      split at hok
      · rename_i hd
        exact cutSign_of_digit b s hd
      · cases hok
  have hlt := parseUint_lt s bits n h
  simp only [atoi, parseSigned, hcut, hne, if_false,
    decLoop_mono (2 ^ bits - 1) (2 ^ 64 - 1) 0 n s (by omega) hok]
  rw [if_neg (by decide), if_neg (by omega)]

theorem atoi_itoa (n : Nat) (h : n < 2 ^ 63) : atoi (itoa n) = .ok (n : Int) :=
  parseSigned_itoa "Atoi" n h

end SmartAwg.Go
