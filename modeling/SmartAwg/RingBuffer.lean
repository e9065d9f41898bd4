import Mathlib.Algebra.GroupWithZero.Nat
import Mathlib.Data.List.Basic
import Mathlib.Logic.Function.Basic

/-!
A ring of `n` slots that is written at one position after the other. Seen from the position that
is written next, it is a queue of the last `n` values.
-/

namespace SmartAwg.RingBuffer

variable {α : Type} {n : Nat} [NeZero n]

/-- The `k` slots from a position on. -/
def unrolled (slots : Fin n → α) (pos k : Nat) : List α :=
  (List.range k).map fun l => slots (Fin.ofNat n (pos + l))

@[simp] theorem unrolled_zero (slots : Fin n → α) (pos : Nat) : unrolled slots pos 0 = [] := rfl

@[simp] theorem unrolled_length (slots : Fin n → α) (pos k : Nat) : (unrolled slots pos k).length = k := by
  simp [unrolled]

theorem unrolled_succ (slots : Fin n → α) (pos k : Nat) :
    unrolled slots pos (k + 1) = slots (Fin.ofNat n pos) :: unrolled slots (pos + 1) k := by
  simp only [unrolled, List.range_succ_eq_map, List.map_cons, List.map_map, Nat.add_zero]
  congr 1
  apply List.map_congr_left
  intro l _
  rw [Function.comp_apply, Nat.succ_eq_add_one, Nat.add_right_comm, Nat.add_assoc]

theorem unrolled_concat (slots : Fin n → α) (pos k : Nat) :
    unrolled slots pos (k + 1) = unrolled slots pos k ++ [slots (Fin.ofNat n (pos + k))] := by
  simp only [unrolled, List.range_succ, List.map_append, List.map_cons, List.map_nil]

theorem ofNat_eq_iff (i j : Nat) : Fin.ofNat n i = Fin.ofNat n j ↔ i % n = j % n := by
  simp [Fin.ext_iff]

theorem ofNat_add_congr {i j : Nat} (h : i % n = j % n) (l : Nat) :
    Fin.ofNat n (i + l) = Fin.ofNat n (j + l) :=
  (ofNat_eq_iff _ _).mpr (by rw [Nat.add_mod, h, ← Nat.add_mod])

/-- Only the slot of the position matters. -/
theorem unrolled_congr (slots : Fin n → α) {pos pos' : Nat} (h : pos % n = pos' % n) (k : Nat) :
    unrolled slots pos k = unrolled slots pos' k := by
  apply List.map_congr_left
  intro l _
  rw [ofNat_add_congr h]

theorem unrolled_drop (slots : Fin n → α) (pos k j : Nat) :
    (unrolled slots pos (j + k)).drop j = unrolled slots (pos + j) k := by
  induction j generalizing pos with
  | zero => rw [Nat.zero_add, List.drop_zero, Nat.add_zero]
  | succ j ih =>
    rw [Nat.add_right_comm, unrolled_succ, List.drop_succ_cons, ih, Nat.add_assoc, Nat.add_comm 1 j]

/-- Positions less than a round apart have slots of their own. -/
theorem ofNat_ne {i j : Nat} (hij : i < j) (hj : j < i + n) : Fin.ofNat n i ≠ Fin.ofNat n j := by
  intro h
  have hzero := Nat.sub_mod_eq_zero_of_mod_eq ((ofNat_eq_iff _ _).mp h.symm)
  rw [Nat.mod_eq_of_lt (by omega)] at hzero
  omega

/-- A write: the oldest value goes, and the new one is the last. -/
theorem unrolled_update (slots : Fin n → α) (pos : Nat) (x : α) :
    unrolled (Function.update slots (Fin.ofNat n pos) x) (pos + 1) n = (unrolled slots pos n).tail ++ [x] := by
  obtain ⟨m, hm⟩ : ∃ m, n = m + 1 := ⟨n - 1, by have := Nat.pos_of_ne_zero (NeZero.ne n); omega⟩
  have hround : Fin.ofNat n (pos + 1 + m) = Fin.ofNat n pos := by
    rw [ofNat_eq_iff, Nat.add_assoc, Nat.add_comm 1 m, ← hm, Nat.add_mod_right]
  have hothers : unrolled (Function.update slots (Fin.ofNat n pos) x) (pos + 1) m =
      unrolled slots (pos + 1) m := by
    apply List.map_congr_left
    intro l hl
    rw [List.mem_range] at hl
    apply Function.update_of_ne
    exact (ofNat_ne (by omega) (by omega)).symm
  calc unrolled (Function.update slots (Fin.ofNat n pos) x) (pos + 1) n
      = unrolled (Function.update slots (Fin.ofNat n pos) x) (pos + 1) (m + 1) := congrArg _ hm
    _ = unrolled slots (pos + 1) m ++ [x] := by
      rw [unrolled_concat, hothers, hround, Function.update_self]
    _ = (unrolled slots pos (m + 1)).tail ++ [x] := by rw [unrolled_succ, List.tail_cons]
    _ = (unrolled slots pos n).tail ++ [x] := by rw [congrArg (unrolled slots pos) hm]

end SmartAwg.RingBuffer
