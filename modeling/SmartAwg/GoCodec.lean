import SmartAwg.GoStrconv

/-! Standard base64 and hexadecimal. The base64 decoder skips carriage returns and line
feeds anywhere and is not strict about the unused bits of the last group, as the package's
`StdEncoding`; its error carries the offset of the offending input byte. -/
namespace SmartAwg.Go

def base64Char (n : Nat) : UInt8 :=
  if n < 26 then (0x41 + n).toUInt8
  else if n < 52 then (0x61 + (n - 26)).toUInt8
  else if n < 62 then (0x30 + (n - 52)).toUInt8
  else if n = 62 then 0x2B
  else 0x2F

def base64Val (b : UInt8) : Option Nat :=
  if 0x41 ≤ b ∧ b ≤ 0x5A then some (b.toNat - 0x41)
  else if 0x61 ≤ b ∧ b ≤ 0x7A then some (b.toNat - 0x61 + 26)
  else if 0x30 ≤ b ∧ b ≤ 0x39 then some (b.toNat - 0x30 + 52)
  else if b = 0x2B then some 62
  else if b = 0x2F then some 63
  else none

/-- The characters of one group whose first `n` positions carry data. -/
def base64Group (a b c n : Nat) : Str :=
  let v := a * 65536 + b * 256 + c
  ([v / 262144, v / 4096 % 64, v / 64 % 64, v % 64].map base64Char).take n

/-- `base64.StdEncoding.EncodeToString`. -/
def base64Encode : Str → Str
  | a :: b :: c :: rest => base64Group a.toNat b.toNat c.toNat 4 ++ base64Encode rest
  | [a, b] => base64Group a.toNat b.toNat 0 3 ++ [0x3D]
  | [a] => base64Group a.toNat 0 0 2 ++ [0x3D, 0x3D]
  | [] => []

/-- The first `n` bytes of a group of four 6-bit values. -/
def base64Bytes (x y z w n : Nat) : Str :=
  let v := x * 262144 + y * 4096 + z * 64 + w
  ([v / 65536, v / 256 % 256, v % 256].map Nat.toUInt8).take n

def isNewline (b : UInt8) : Bool := b == 0x0A || b == 0x0D

/-- After the padding only line breaks may follow. -/
def base64Tail (si : Nat) (out : Str) : Str → Except Nat Str
  | [] => .ok out
  | b :: rest => if isNewline b then base64Tail (si + 1) out rest else .error si

/-- The second `=` of a group with two data characters. -/
def base64SecondPad (total si : Nat) (out : Str) : Str → Except Nat Str
  | [] => .error total
  | b :: rest =>
    if isNewline b then base64SecondPad total (si + 1) out rest
    else if b = 0x3D then base64Tail (si + 1) out rest
    else .error (si - 1)

/-- The decoding loop at offset `si`, with the group read so far in `buf`. -/
def base64Loop (total : Nat) : Nat → List Nat → Str → Except Nat Str
  | si, buf, [] => if buf = [] then .ok [] else .error (si - buf.length)
  | si, buf, b :: rest =>
    match base64Val b with
    | some v =>
      match buf with
      | [x, y, z] => (base64Loop total (si + 1) [] rest).map (base64Bytes x y z v 3 ++ ·)
      | _ => base64Loop total (si + 1) (buf ++ [v]) rest
    | none =>
      if isNewline b then base64Loop total (si + 1) buf rest
      else if b ≠ 0x3D then .error si
      else
        match buf with
        | [x, y] => base64SecondPad total (si + 1) (base64Bytes x y 0 0 1) rest
        | [x, y, z] => base64Tail (si + 1) (base64Bytes x y z 0 2) rest
        | _ => .error si

/-- `base64.StdEncoding.DecodeString`; the error is the offset of a `CorruptInputError`. -/
def base64Decode (s : Str) : Except Nat Str := base64Loop s.length 0 [] s

inductive HexError where
  | invalidByte (b : UInt8)
  | oddLength
  deriving Repr, DecidableEq

/-- `hex.EncodeToString`. -/
def hexEncode : Str → Str
  | [] => []
  | b :: rest => digitByte (b.toNat / 16) :: digitByte (b.toNat % 16) :: hexEncode rest

/-- `hex.DecodeString`. -/
def hexDecode : Str → Except HexError Str
  | [] => .ok []
  | [p] =>
    match hexVal p with
    | none => .error (.invalidByte p)
    | some _ => .error .oddLength
  | p :: q :: rest =>
    match hexVal p, hexVal q with
    | none, _ => .error (.invalidByte p)
    | some _, none => .error (.invalidByte q)
    | some a, some b => (hexDecode rest).map ((a * 16 + b).toUInt8 :: ·)

theorem base64Val_char (n : Nat) (h : n < 64) : base64Val (base64Char n) = some n := by
  have hall : ∀ n : Fin 64, base64Val (base64Char n.val) = some n.val := by decide
  exact hall ⟨n, h⟩

/-- Four characters of the alphabet are one round of the loop. -/
theorem base64Loop_group (total si x y z w : Nat) (rest : Str) (hx : x < 64) (hy : y < 64)
    (hz : z < 64) (hw : w < 64) :
    base64Loop total si [] ([x, y, z, w].map base64Char ++ rest) =
      (base64Loop total (si + 4) [] rest).map (base64Bytes x y z w 3 ++ ·) := by
  simp only [List.map_cons, List.map_nil, List.cons_append, List.nil_append, base64Loop,
    base64Val_char x hx, base64Val_char y hy, base64Val_char z hz, base64Val_char w hw]

theorem base64Loop_pad (total si x y z : Nat) (hx : x < 64) (hy : y < 64) (hz : z < 64) :
    base64Loop total si [] ([x, y, z].map base64Char ++ [0x3D]) = .ok (base64Bytes x y z 0 2) := by
  simp only [List.map_cons, List.map_nil, List.cons_append, List.nil_append, base64Loop,
    base64Val_char x hx, base64Val_char y hy, base64Val_char z hz]
  rfl

theorem base64Loop_pad_pad (total si x y : Nat) (hx : x < 64) (hy : y < 64) :
    base64Loop total si [] ([x, y].map base64Char ++ [0x3D, 0x3D]) =
      .ok (base64Bytes x y 0 0 1) := by
  simp only [List.map_cons, List.map_nil, List.cons_append, List.nil_append, base64Loop,
    base64Val_char x hx, base64Val_char y hy]
  rfl

theorem base64Bytes_group (a b c : UInt8) :
    let v := a.toNat * 65536 + b.toNat * 256 + c.toNat
    base64Bytes (v / 262144) (v / 4096 % 64) (v / 64 % 64) (v % 64) 3 = [a, b, c] := by
  intro v
  have ha := a.toNat_lt
  have hb := b.toNat_lt
  have hc := c.toNat_lt
  have hv : v / 262144 * 262144 + v / 4096 % 64 * 4096 + v / 64 % 64 * 64 + v % 64 = v := by omega
  have h1 : v / 65536 = a.toNat := by omega
  have h2 : v / 256 % 256 = b.toNat := by omega
  have h3 : v % 256 = c.toNat := by omega
  simp [base64Bytes, hv, h1, h2, h3]

theorem base64Bytes_take (x y z w n : Nat) :
    base64Bytes x y z w n = (base64Bytes x y z w 3).take n := by
  simp [base64Bytes]

theorem base64Loop_encode (total si : Nat) (s : Str) :
    base64Loop total si [] (base64Encode s) = .ok s := by
  induction s using base64Encode.induct generalizing si with
  | case1 a b c rest ih =>
    have ha := a.toNat_lt
    have hb := b.toNat_lt
    have hc := c.toNat_lt
    rw [base64Encode, base64Group, List.take_of_length_le (by simp),
      base64Loop_group _ _ _ _ _ _ _ (by omega) (by omega) (by omega) (by omega), ih,
      base64Bytes_group]
    rfl
  | case2 a b =>
    have ha := a.toNat_lt
    have hb := b.toNat_lt
    have hgroup := base64Bytes_group a b 0
    simp only [UInt8.toNat_zero] at hgroup
    rw [show (a.toNat * 65536 + b.toNat * 256 + 0) % 64 = 0 by omega] at hgroup
    rw [base64Encode, base64Group, ← List.map_take]
    simp only [List.take_succ_cons, List.take_zero]
    rw [base64Loop_pad _ _ _ _ _ (by omega) (by omega) (by omega), base64Bytes_take, hgroup]
    rfl
  | case3 a =>
    have ha := a.toNat_lt
    have hgroup := base64Bytes_group a 0 0
    simp only [UInt8.toNat_zero] at hgroup
    rw [show (a.toNat * 65536 + 0 * 256 + 0) % 64 = 0 by omega,
      show (a.toNat * 65536 + 0 * 256 + 0) / 64 % 64 = 0 by omega] at hgroup
    rw [base64Encode, base64Group, ← List.map_take]
    simp only [List.take_succ_cons, List.take_zero]
    rw [base64Loop_pad_pad _ _ _ _ (by omega) (by omega), base64Bytes_take, hgroup]
    rfl
  | case4 => rfl

/-- Decoding an encoded string gives it back. -/
theorem base64Decode_encode (s : Str) : base64Decode (base64Encode s) = .ok s :=
  base64Loop_encode _ 0 s

/-- The bytes base64 text is made of. -/
def isBase64 (b : UInt8) : Bool := (base64Val b).isSome || b == 0x3D

theorem base64Char_isBase64 (n : Nat) (h : n < 64) : isBase64 (base64Char n) = true := by
  simp [isBase64, base64Val_char n h]

theorem base64Group_isBase64 (a b c n : Nat) (ha : a < 256) (hb : b < 256) (hc : c < 256) :
    ∀ x ∈ base64Group a b c n, isBase64 x = true := by
  intro x hx
  obtain ⟨d, hd, rfl⟩ := List.mem_map.mp (List.mem_of_mem_take hx)
  apply base64Char_isBase64
  simp only [List.mem_cons, List.not_mem_nil, or_false] at hd
  omega

theorem base64Encode_isBase64 (s : Str) : ∀ x ∈ base64Encode s, isBase64 x = true := by
  induction s using base64Encode.induct with
  | case1 a b c rest ih =>
    intro x hx
    rcases List.mem_append.mp hx with h | h
    · exact base64Group_isBase64 _ _ _ _ a.toNat_lt b.toNat_lt c.toNat_lt x h
    · exact ih x h
  | case2 a b =>
    intro x hx
    rcases List.mem_append.mp hx with h | h
    · exact base64Group_isBase64 _ _ _ _ a.toNat_lt b.toNat_lt (by decide) x h
    · rw [List.mem_singleton.mp h]
      rfl
  | case3 a =>
    intro x hx
    rcases List.mem_append.mp hx with h | h
    · exact base64Group_isBase64 _ _ _ _ a.toNat_lt (by decide) (by decide) x h
    · simp only [List.mem_cons, List.not_mem_nil, or_false, or_self] at h
      rw [h]
      rfl
  | case4 => simp [base64Encode]

theorem hexDecode_encode (s : Str) : hexDecode (hexEncode s) = .ok s := by
  induction s with
  | nil => rfl
  | cons b s ih =>
    have hb := b.toNat_lt
    rw [hexEncode, hexDecode, hexVal_digitByte _ (by omega), hexVal_digitByte _ (by omega)]
    simp only [ih, Except.map, Nat.div_add_mod', Except.ok.injEq, List.cons.injEq, and_true]
    simp

theorem hexEncode_injective : Function.Injective hexEncode := by
  intro s t h
  have hdecode := hexDecode_encode s
  rw [h, hexDecode_encode, Except.ok.injEq] at hdecode
  exact hdecode.symm

theorem hexEncode_length (s : Str) : (hexEncode s).length = 2 * s.length := by
  induction s with
  | nil => rfl
  | cons b s ih =>
    simp only [hexEncode, List.length_cons, ih]
    omega

theorem hexEncode_hexVal (s : Str) : ∀ x ∈ hexEncode s, (hexVal x).isSome = true := by
  have hdigit : ∀ d < 16, (hexVal (digitByte d)).isSome = true := fun d hd => by
    rw [hexVal_digitByte d hd]
    rfl
  induction s with
  | nil => simp [hexEncode]
  | cons b s ih =>
    have hb := b.toNat_lt
    simp only [hexEncode, List.forall_mem_cons]
    exact ⟨hdigit _ (by omega), hdigit _ (by omega), ih⟩

end SmartAwg.Go
