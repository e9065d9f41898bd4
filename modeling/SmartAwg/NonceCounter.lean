import SmartAwg.DeviceTransport
import Mathlib.Data.Fintype.Card
import Mathlib.Algebra.GroupWithZero.Nat

/-!
The nonces of a session when several goroutines send at once. Each takes its nonce with an atomic
addition; who finds that the nonces are used up puts the counter back with a store of its own, between
which and the addition anything may happen.
-/

namespace SmartAwg.Awg

section counter
variable {n : ℕ}

/-- The counter of a keypair, and the goroutines that are about to put it back. -/
structure Sending (n : ℕ) where
  sendNonce : UInt64
  storing : Fin n → Bool

/-- What a goroutine does to the counter next, in `SendStagedPackets` or in `ExpireCurrentKeypairs`. -/
inductive Turn (n : ℕ) where
  | add (t : Fin n)
  | store (t : Fin n)
  | expire

/-- The state after a turn, and the nonce if one was given to a packet. -/
def Sending.step (s : Sending n) : Turn n → Sending n × Option UInt64
  | .add t =>
    if s.storing t then (s, none)
    else
      -- `sendNonce.Add(1) - 1`
      let nonce := s.sendNonce
      if nonce ≥ rejectAfterMessages then (⟨s.sendNonce + 1, Function.update s.storing t true⟩, none)
      else (⟨s.sendNonce + 1, s.storing⟩, some nonce)
  | .store t => if s.storing t then (⟨rejectAfterMessages, Function.update s.storing t false⟩, none) else (s, none)
  | .expire => (⟨rejectAfterMessages, s.storing⟩, none)

/-- The nonces given to packets over a run, in their order. -/
def Sending.run (s : Sending n) : List (Turn n) → List UInt64
  | [] => []
  | turn :: turns => (s.step turn).2.toList ++ (s.step turn).1.run turns

/-- A keypair is made with no nonce used. -/
def Sending.fresh : Sending n := ⟨0, fun _ => false⟩

end counter

section invariant
variable {n : ℕ} {s : Sending n} {k : ℕ}

/-- How many goroutines are about to put the counter back. -/
def Sending.late (s : Sending n) : ℕ := (Finset.univ.filter fun t => s.storing t = true).card

/-- The counter counts the nonces given out, until it has passed the limit; and it has passed it by no more
than there are goroutines that will put it back. -/
structure Counted (s : Sending n) (k : ℕ) : Prop where
  given : s.sendNonce < rejectAfterMessages → s.sendNonce.toNat = k
  limit : k ≤ rejectAfterMessages.toNat
  late : s.sendNonce.toNat ≤ rejectAfterMessages.toNat + s.late
  passed : ∀ t, s.storing t = true → rejectAfterMessages ≤ s.sendNonce

theorem rejectAfterMessages_toNat : rejectAfterMessages.toNat + 8192 = 2 ^ 64 - 1 := by decide

theorem fresh_counted : Counted (Sending.fresh : Sending n) 0 := by
  refine ⟨fun _ => rfl, Nat.zero_le _, Nat.zero_le _, ?_⟩
  intro t ht
  cases ht

theorem late_update (s : Sending n) (t : Fin n) (nonce : UInt64) (h : s.storing t = false) :
    Sending.late ⟨nonce, Function.update s.storing t true⟩ = s.late + 1 := by
  have hinsert : (Finset.univ.filter fun u => Function.update s.storing t true u = true) =
      insert t (Finset.univ.filter fun u => s.storing u = true) := by
    ext u
    by_cases hu : u = t
    · simp [hu]
    · simp [hu]
  rw [Sending.late, hinsert, Finset.card_insert_of_notMem, Sending.late]
  simp [h]

/-- Who is not about to put the counter back is not counted. -/
theorem late_lt (s : Sending n) (t : Fin n) (h : s.storing t = false) : s.late < n := by
  have hne : t ∉ Finset.univ.filter fun u => s.storing u = true := by simp [h]
  calc s.late < (Finset.univ : Finset (Fin n)).card := by
        apply Finset.card_lt_card
        refine ⟨Finset.filter_subset _ _, fun hall => hne (hall (Finset.mem_univ t))⟩
    _ = n := Finset.card_fin n

variable (hn : n ≤ 8192)

include hn in
/-- Past the limit an addition still does not wrap around. -/
theorem Counted.add_toNat (h : Counted s k) (t : Fin n) (ht : s.storing t = false) :
    (s.sendNonce + 1).toNat = s.sendNonce.toNat + 1 := by
  have hlate := late_lt s t ht
  have hcount := h.late
  have hlimit := rejectAfterMessages_toNat
  rw [UInt64.toNat_add]
  apply Nat.mod_eq_of_lt
  change s.sendNonce.toNat + 1 < 2 ^ 64
  omega

include hn in
theorem Counted.add (h : Counted s k) (t : Fin n) (ht : s.storing t = false) :
    (s.step (.add t)).2 = none ∧ Counted (s.step (.add t)).1 k ∨
      (s.step (.add t)).2 = some (UInt64.ofNat k) ∧ Counted (s.step (.add t)).1 (k + 1) := by
  have hadd := h.add_toNat hn t ht
  rw [Sending.step, if_neg (by simp [ht])]
  by_cases hlimit : s.sendNonce ≥ rejectAfterMessages
  · left
    simp only [hlimit, if_true, true_and]
    have hle : rejectAfterMessages.toNat ≤ s.sendNonce.toNat := UInt64.le_iff_toNat_le.mp hlimit
    have hpassed : rejectAfterMessages ≤ s.sendNonce + 1 := by
      rw [UInt64.le_iff_toNat_le, hadd]
      omega
    refine ⟨fun hlt => absurd hlt (UInt64.not_lt.mpr hpassed), h.limit, ?_, fun _ _ => hpassed⟩
    have hcount := h.late
    rw [late_update s t _ ht]
    change (s.sendNonce + 1).toNat ≤ _
    omega
  · right
    have hlt : s.sendNonce < rejectAfterMessages := UInt64.not_le.mp hlimit
    have hltNat := UInt64.lt_iff_toNat_lt.mp hlt
    have hk := h.given hlt
    simp only [hlimit, if_false]
    refine ⟨by rw [← hk, UInt64.ofNat_toNat], fun _ => ?_, ?_, ?_, ?_⟩
    · change (s.sendNonce + 1).toNat = _
      omega
    · omega
    · change (s.sendNonce + 1).toNat ≤ _
      omega
    · -- nobody is late as long as the limit is not reached
      exact fun u hu => absurd (h.passed u hu) hlimit

theorem Counted.store (h : Counted s k) (storing : Fin n → Bool) :
    Counted ⟨rejectAfterMessages, storing⟩ k where
  given := fun hlt => absurd hlt (UInt64.lt_irrefl _)
  limit := h.limit
  late := Nat.le_add_right _ _
  passed := fun _ _ => UInt64.le_refl _

include hn in
theorem Counted.step (h : Counted s k) (turn : Turn n) :
    (s.step turn).2 = none ∧ Counted (s.step turn).1 k ∨
      (s.step turn).2 = some (UInt64.ofNat k) ∧ Counted (s.step turn).1 (k + 1) := by
  cases turn with
  | add t =>
    cases ht : s.storing t with
    | false => exact h.add hn t ht
    | true =>
      rw [Sending.step, if_pos ht]
      exact Or.inl ⟨rfl, h⟩
  | store t =>
    left
    rw [Sending.step]
    split
    · exact ⟨rfl, h.store _⟩
    · exact ⟨rfl, h⟩
  | expire => exact Or.inl ⟨rfl, h.store _⟩

include hn in
theorem Counted.run (h : Counted s k) (turns : List (Turn n)) :
    ∃ m, k + m ≤ rejectAfterMessages.toNat ∧ s.run turns = (List.range' k m).map UInt64.ofNat := by
  induction turns generalizing s k with
  | nil => exact ⟨0, h.limit, rfl⟩
  | cons turn turns ih =>
    rcases h.step hn turn with ⟨hnone, hnext⟩ | ⟨hsome, hnext⟩
    · obtain ⟨m, hm, hrun⟩ := ih hnext
      refine ⟨m, hm, ?_⟩
      rw [Sending.run, hnone, hrun]
      rfl
    · obtain ⟨m, hm, hrun⟩ := ih hnext
      refine ⟨m + 1, by omega, ?_⟩
      rw [Sending.run, hsome, hrun]
      rfl

include hn in
/-- With no more than 8192 goroutines, which is what the limit leaves room for, the packets of a session get
the nonces 0, 1, 2 and so on, whichever of them is delayed at whatever point: none is given twice. -/
theorem nonces_consecutive (turns : List (Turn n)) :
    (∃ m ≤ rejectAfterMessages.toNat, Sending.fresh.run turns = (List.range m).map UInt64.ofNat) ∧
      (Sending.fresh.run turns).Nodup := by
  obtain ⟨m, hm, hrun⟩ := fresh_counted.run hn turns
  rw [Nat.zero_add] at hm
  have hlimit := rejectAfterMessages_toNat
  have hsize : UInt64.size = 2 ^ 64 := rfl
  rw [← List.range_eq_range'] at hrun
  refine ⟨⟨m, hm, hrun⟩, ?_⟩
  rw [hrun]
  apply List.Nodup.map_on _ List.nodup_range
  intro i hi j hj hij
  have hi := List.mem_range.mp hi
  have hj := List.mem_range.mp hj
  have hnat := congrArg UInt64.toNat hij
  rw [UInt64.toNat_ofNat_of_lt' (by omega), UInt64.toNat_ofNat_of_lt' (by omega)] at hnat
  exact hnat

/-- Two senders and an expiry between them. -/
theorem nonces_consecutive_two : (Sending.fresh.run [Turn.add 0, .add (1 : Fin 2), .expire, .add 0, .store 0]).Nodup :=
  (nonces_consecutive (by decide) _).2

end invariant

end SmartAwg.Awg
