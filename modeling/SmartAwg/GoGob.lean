import Mathlib.Algebra.GroupWithZero.Nat
import SmartAwg.StreamReader
import SmartAwg.GoOutcome

/-!
`encoding/gob` for the basic types, sent one by one. Every value is a message of its own: its length,
the number of its type, a zero byte, and the value. Basic types need no definition in the stream, so
a message does not depend on the encoder that made it or on what was sent before.
-/

namespace SmartAwg.Go

section numbers

/-- The last `k` bytes of a number, the highest first. -/
def bytesOf : Nat → Nat → Str
  | 0, _ => []
  | k + 1, n => bytesOf k (n / 256) ++ [(n % 256).toUInt8]

/-- The number that bytes stand for, the highest first. -/
def ofBytes (s : Str) : Nat := s.foldl (fun n b => n * 256 + b.toNat) 0

/-- The bytes of a `uint64` without the zeros in front. -/
def significant (n : Nat) : Str := (bytesOf 8 n).dropWhile (· == 0)

/-- `encodeUint`: a small number is one byte; before the bytes of another stands their count,
negated. -/
def encodeUint (n : Nat) : Str :=
  if n ≤ 0x7F then [n.toUInt8] else (256 - (significant n).length).toUInt8 :: significant n

/-- `decodeUintReader`. -/
def readUint : Reader UInt8 Nat
  | [] => (none, [])
  | b :: rest =>
    if b ≤ 0x7F then (some b.toNat, rest)
    else
      let n := 256 - b.toNat
      if n > 8 then (none, rest)
      else if rest.length < n then (none, [])
      else (some (ofBytes (rest.take n)), rest.drop n)

theorem ofBytes_dropWhile (s : Str) : ofBytes (s.dropWhile (· == 0)) = ofBytes s := by
  induction s with
  | nil => rfl
  | cons b s ih =>
    by_cases hb : b = 0
    · subst hb
      exact ih
    · rw [List.dropWhile_cons_of_neg (by simpa using hb)]

theorem bytesOf_length (k n : Nat) : (bytesOf k n).length = k := by
  induction k generalizing n with
  | zero => rfl
  | succ k ih => simp [bytesOf, ih]

theorem ofBytes_bytesOf (k n : Nat) : ofBytes (bytesOf k n) = n % 256 ^ k := by
  induction k generalizing n with
  | zero => simp [ofBytes, bytesOf, Nat.mod_one]
  | succ k ih =>
    have hlast : ofBytes (bytesOf (k + 1) n) = ofBytes (bytesOf k (n / 256)) * 256 + n % 256 := by
      simp [ofBytes, bytesOf]
    rw [hlast, ih, Nat.pow_succ', Nat.mod_mul]
    omega

theorem ofBytes_significant (n : Nat) (h : n < 2 ^ 64) : ofBytes (significant n) = n := by
  rw [significant, ofBytes_dropWhile, ofBytes_bytesOf]
  exact Nat.mod_eq_of_lt h

theorem significant_length (n : Nat) : (significant n).length ≤ 8 := by
  rw [← bytesOf_length 8 n]
  exact (List.dropWhile_sublist _).length_le

theorem significant_ne_nil (n : Nat) (h : n < 2 ^ 64) (hn : 0 < n) : significant n ≠ [] := by
  intro hnil
  have hzero := ofBytes_significant n h
  rw [hnil] at hzero
  exact absurd hzero (Nat.ne_of_lt hn)

theorem reads_uint (n : Nat) (h : n < 2 ^ 64) : Reader.Reads readUint (encodeUint n) n := by
  unfold encodeUint
  split
  · rename_i hsmall
    have hbyte : n.toUInt8.toNat = n := by
      simp only [Nat.toUInt8, UInt8.toNat_ofNat']
      omega
    refine ⟨fun rest => ?_, fun p hp hne => ?_⟩
    · have hle : n.toUInt8 ≤ 0x7F := UInt8.le_iff_toNat_le.mpr (by rw [hbyte]; exact hsmall)
      rw [List.singleton_append, readUint, if_pos hle, hbyte]
    · have hnil : p = [] := by
        rcases List.prefix_cons_iff.mp hp with hnil | ⟨t, rfl, ht⟩
        · exact hnil
        · exact absurd (by rw [List.prefix_nil.mp ht]) hne
      rw [hnil]
      rfl
  · rename_i hlarge
    have hlong := significant_length n
    have hpos := List.length_pos_of_ne_nil (significant_ne_nil n h (by omega))
    have hcount : (256 - (significant n).length).toUInt8.toNat = 256 - (significant n).length := by
      simp only [Nat.toUInt8, UInt8.toNat_ofNat']
      omega
    have hhigh : ¬(256 - (significant n).length).toUInt8 ≤ 0x7F := by
      rw [UInt8.le_iff_toNat_le, hcount]
      change ¬256 - (significant n).length ≤ 127
      omega
    have hback : 256 - (256 - (significant n).length) = (significant n).length := by omega
    refine ⟨fun rest => ?_, fun p hp hne => ?_⟩
    · rw [List.cons_append, readUint, if_neg hhigh]
      simp only [hcount, hback]
      rw [if_neg (by omega), if_neg (by simp), List.take_left, List.drop_left, ofBytes_significant n h]
    · rcases List.prefix_cons_iff.mp hp with rfl | ⟨q, rfl, hq⟩
      · rfl
      · -- the count is there, and fewer bytes than it says
        have hshort : q.length < (significant n).length := by
          apply Nat.lt_of_le_of_ne hq.length_le
          intro heq
          exact hne (by rw [hq.eq_of_length heq])
        rw [readUint, if_neg hhigh]
        simp only [hcount, hback]
        rw [if_neg (by omega), if_pos hshort]

end numbers

section messages

/-- Messages of this size are refused by the encoder and by the decoder. -/
def tooBig : Nat := 2 ^ 33

/-- The number of the type, the zero byte of a value that is no struct, and the value. -/
def gobPayload (typeId : Nat) (body : Str) : Str := encodeUint (2 * typeId) ++ 0 :: body

/-- `none` is the error of the encoder. -/
def encodeMessage (typeId : Nat) (body : Str) : Option Str :=
  let payload := gobPayload typeId body
  if payload.length ≥ tooBig then none else some (encodeUint payload.length ++ payload)

/-- The payload of the next message. -/
def readMessage : Reader UInt8 Str := readUint.andThen fun n s =>
  if n ≥ tooBig then (none, s)
  else if s.length < n then (none, [])
  else (some (s.take n), s.drop n)

/-- What follows the number of the type. A message with another type, or with the definition of one, is
an error. -/
def openPayload (typeId : Nat) (payload : Str) : Option Str :=
  match readUint payload with
  | (some id, rest) =>
    if id ≠ 2 * typeId then none
    else
      match readUint rest with
      | (some 0, body) => some body
      | _ => none
  | _ => none

/-- One call of `Decode` for a type. -/
def readValue {α : Type} (typeId : Nat) (decode : Str → Option α) : Reader UInt8 α := fun s =>
  match readMessage s with
  | (some payload, rest) => ((openPayload typeId payload).bind decode, rest)
  | (none, rest) => (none, rest)

theorem openPayload_gobPayload (typeId : Nat) (h : typeId < 2 ^ 32) (body : Str) :
    openPayload typeId (gobPayload typeId body) = some body := by
  have hzero : readUint (0 :: body) = (some 0, body) := rfl
  unfold openPayload gobPayload
  rw [(reads_uint (2 * typeId) (by omega)).whole]
  simp only [ne_eq, not_true_eq_false, if_false, hzero]

/-- The text of a message is the text of its payload. -/
theorem reads_payload {payload : Str} (h : payload.length < tooBig) :
    Reader.Reads readMessage (encodeUint payload.length ++ payload) payload := by
  have hlength : payload.length < 2 ^ 64 := Nat.lt_trans h (by decide)
  refine Reader.Reads.andThen (reads_uint payload.length hlength) ⟨fun rest => ?_, fun p hp hne => ?_⟩
  · rw [if_neg (Nat.not_le.mpr h), if_neg (by simp), List.take_left, List.drop_left]
  · have hshort : p.length < payload.length := by
      apply Nat.lt_of_le_of_ne hp.length_le
      intro heq
      exact hne (hp.eq_of_length heq)
    rw [if_neg (Nat.not_le.mpr h), if_pos hshort]

theorem reads_value {α : Type} {typeId : Nat} {body text : Str} {decode : Str → Option α} {a : α}
    (hid : typeId < 2 ^ 32) (htext : encodeMessage typeId body = some text) (hbody : decode body = some a) :
    Reader.Reads (readValue typeId decode) text a := by
  unfold encodeMessage at htext
  dsimp only at htext
  split at htext
  · cases htext
  rename_i hfits
  cases htext
  have hread := reads_payload (Nat.lt_of_not_ge hfits)
  refine ⟨fun rest => ?_, fun p hp hne => ?_⟩
  · rw [readValue, hread.whole]
    simp only [openPayload_gobPayload typeId hid, Option.bind_some, hbody]
  · rw [readValue, hread.cut p hp hne]

end messages

section basic

def boolType : Nat := 1

def intType : Nat := 2

def uintType : Nat := 3

def stringType : Nat := 6

/-- The sign is the lowest bit, and the rest of a negative number is inverted. -/
def foldSign (i : Int) : Nat := if i < 0 then 2 * (-i - 1).toNat + 1 else 2 * i.toNat

def unfoldSign (n : Nat) : Int := if n % 2 = 1 then -(n / 2 : Nat) - 1 else (n / 2 : Nat)

theorem unfoldSign_foldSign (i : Int) : unfoldSign (foldSign i) = i := by
  unfold foldSign unfoldSign
  split <;> split <;> omega

def encodeInt (i : Int64) : Option Str := encodeMessage intType (encodeUint (foldSign i.toInt))

def readInt : Reader UInt8 Int64 :=
  readValue intType fun body => (readUint body).1.map fun n => Int64.ofInt (unfoldSign n)

def encodeUint32 (n : UInt32) : Option Str := encodeMessage uintType (encodeUint n.toNat)

/-- A number that does not fit is an error. -/
def readUint32 : Reader UInt8 UInt32 :=
  readValue uintType fun body => (readUint body).1.bind fun n =>
    if n < 2 ^ 32 then some (UInt32.ofNat n) else none

def encodeUint64 (n : UInt64) : Option Str := encodeMessage uintType (encodeUint n.toNat)

def readUint64 : Reader UInt8 UInt64 :=
  readValue uintType fun body => (readUint body).1.map UInt64.ofNat

def encodeBool (b : Bool) : Option Str := encodeMessage boolType (encodeUint b.toNat)

def readBool : Reader UInt8 Bool := readValue boolType fun body => (readUint body).1.map (· != 0)

def encodeString (s : Str) : Option Str := encodeMessage stringType (encodeUint s.length ++ s)

def readString : Reader UInt8 Str :=
  readValue stringType fun body =>
    match readUint body with
    | (some n, rest) => if n > rest.length then none else some (rest.take n)
    | (none, _) => none

theorem readUint_encodeUint (n : Nat) (h : n < 2 ^ 64) : readUint (encodeUint n) = (some n, []) := by
  simpa using (reads_uint n h).whole []

theorem reads_int {i : Int64} {text : Str} (h : encodeInt i = some text) : Reader.Reads readInt text i := by
  have hlow := i.le_toInt
  have hhigh := i.toInt_lt
  have hfits : foldSign i.toInt < 2 ^ 64 := by
    unfold foldSign
    split <;> omega
  apply reads_value (by decide) h
  rw [readUint_encodeUint _ hfits, Option.map_some, unfoldSign_foldSign, Int64.ofInt_toInt]

theorem reads_uint32 {n : UInt32} {text : Str} (h : encodeUint32 n = some text) :
    Reader.Reads readUint32 text n := by
  have hfits := n.toNat_lt
  apply reads_value (by decide) h
  rw [readUint_encodeUint _ (by omega), Option.bind_some, if_pos hfits, UInt32.ofNat_toNat]

theorem reads_uint64 {n : UInt64} {text : Str} (h : encodeUint64 n = some text) :
    Reader.Reads readUint64 text n := by
  apply reads_value (by decide) h
  rw [readUint_encodeUint _ n.toNat_lt, Option.map_some, UInt64.ofNat_toNat]

theorem reads_bool {b : Bool} {text : Str} (h : encodeBool b = some text) : Reader.Reads readBool text b := by
  apply reads_value (by decide) h
  cases b <;> rfl

theorem reads_string {s text : Str} (h : encodeString s = some text) : Reader.Reads readString text s := by
  have hfits : s.length < 2 ^ 64 := by
    unfold encodeString encodeMessage at h
    dsimp only at h
    split at h
    · cases h
    · rename_i hsize
      simp only [gobPayload, List.length_append, List.length_cons, tooBig] at hsize
      omega
  apply reads_value (by decide) h
  rw [(reads_uint s.length hfits).whole]
  simp

end basic

end SmartAwg.Go
