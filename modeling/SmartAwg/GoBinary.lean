import SmartAwg.GoOutcome
import Mathlib.Algebra.GroupWithZero.Nat

/-!
Numbers as bytes, key streams, which give a text back when it is mixed with them again, and
authenticated encryption.
-/

namespace SmartAwg.Go

section numbers

/-- The `k` bytes of a number. -/
def putLittle : Nat → Nat → Str
  | 0, _ => []
  | k + 1, n => n.toUInt8 :: putLittle k (n / 256)

def little : Str → Nat
  | [] => 0
  | b :: s => b.toNat + 256 * little s

def big (s : Str) : Nat := s.foldl (fun acc b => acc * 256 + b.toNat) 0

@[simp] theorem putLittle_length (k n : Nat) : (putLittle k n).length = k := by
  induction k generalizing n with
  | zero => rfl
  | succ k ih => rw [putLittle, List.length_cons, ih]

theorem little_putLittle (k n : Nat) (h : n < 256 ^ k) : little (putLittle k n) = n := by
  induction k generalizing n with
  | zero => exact (Nat.lt_one_iff.mp h).symm
  | succ k ih =>
    have hbyte : n.toUInt8.toNat = n % 256 := UInt8.toNat_ofNat'
    have hdiv : n / 256 < 256 ^ k := by
      apply Nat.div_lt_of_lt_mul
      rwa [Nat.mul_comm, ← Nat.pow_succ]
    rw [putLittle, little, ih (n / 256) hdiv, hbyte, Nat.mod_add_div]

end numbers

section streams

/-- The text mixed with the key stream from a place on. -/
def xorStream (ks : Nat → UInt8) : Nat → Str → Str
  | _, [] => []
  | i, b :: s => (b ^^^ ks i) :: xorStream ks (i + 1) s

variable (ks : Nat → UInt8)

@[simp] theorem xorStream_length (i : Nat) (s : Str) : (xorStream ks i s).length = s.length := by
  induction s generalizing i with
  | nil => rfl
  | cons b s ih => rw [xorStream, List.length_cons, List.length_cons, ih]

theorem xorStream_xorStream (i : Nat) (s : Str) : xorStream ks i (xorStream ks i s) = s := by
  induction s generalizing i with
  | nil => rfl
  | cons b s ih => rw [xorStream, xorStream, ih, UInt8.xor_assoc, UInt8.xor_self, UInt8.xor_zero]

theorem xorStream_append (i : Nat) (s t : Str) :
    xorStream ks i (s ++ t) = xorStream ks i s ++ xorStream ks (i + s.length) t := by
  induction s generalizing i with
  | nil => rfl
  | cons b s ih =>
    rw [List.cons_append, xorStream, xorStream, ih, List.cons_append, List.length_cons]
    congr 3
    omega

/-- Mixing zeros shows the key stream, and a text mixed with it bytewise is mixed with the stream. -/
theorem zipWith_xorStream_zero (i : Nat) (s : Str) :
    List.zipWith (· ^^^ ·) s (xorStream ks i (List.replicate s.length 0)) = xorStream ks i s := by
  induction s generalizing i with
  | nil => rfl
  | cons b s ih =>
    rw [List.length_cons, List.replicate_succ, xorStream, List.zipWith_cons_cons, ih, xorStream, UInt8.zero_xor]

end streams

section sealing

/-- Authenticated encryption: key, nonce, text and the data that goes with it. -/
structure Aead where
  encrypt : Str → Nat → Str → Str → Str
  decrypt : Str → Nat → Str → Str → Option Str
  decrypt_encrypt : ∀ key nonce text data, decrypt key nonce (encrypt key nonce text data) data = some text
  encrypt_length : ∀ key nonce text data, (encrypt key nonce text data).length = text.length + 16

/-- The text with a tag of zeros. -/
def Aead.plain : Aead where
  encrypt := fun _ _ text _ => text ++ List.replicate 16 0
  decrypt := fun _ _ text _ => some (text.take (text.length - 16))
  decrypt_encrypt := by
    intro key nonce text data
    rw [List.length_append, List.length_replicate, Nat.add_sub_cancel, List.take_left]
  encrypt_length := by
    intro key nonce text data
    rw [List.length_append, List.length_replicate]

end sealing

end SmartAwg.Go
