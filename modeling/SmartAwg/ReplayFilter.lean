import Mathlib.Data.BitVec
import SmartAwg.RingBuffer

/-!
The filter against replayed packets: a ring of blocks of bits in which the counters of the last
packets are marked, and the window that it moves. What it is for is said by `Verdict`, over the
list of all counters that were accepted.
-/

namespace SmartAwg.Replay

open RingBuffer

section model

/-- `(ringBlocks - 1) * blockBits`. -/
def windowSize : UInt64 := (128 - 1) * 64

structure Filter where
  last : UInt64
  ring : Fin 128 → BitVec 64

/-- The zero value, which is ready to use. -/
def Filter.zero : Filter := ⟨0, fun _ => 0⟩

/-- `Reset` clears the first block only. -/
def Filter.reset (f : Filter) : Filter := ⟨0, Function.update f.ring 0 0⟩

/-- `i & blockMask`. -/
def slot (i : UInt64) : Fin 128 := Fin.ofNat 128 (i &&& 127).toNat

/-- The loop over the next `n` blocks. -/
def clearNext (current : UInt64) (ring : Fin 128 → BitVec 64) : Nat → Fin 128 → BitVec 64
  | 0 => ring
  | n + 1 => Function.update (clearNext current ring n) (slot (current + UInt64.ofNat (n + 1))) 0

/-- The window moves forward to a counter. -/
def Filter.advance (f : Filter) (counter : UInt64) : Filter :=
  let current := f.last >>> 6
  let diff := counter >>> 6 - current
  ⟨counter, clearNext current f.ring (if diff > 128 then 128 else diff.toNat)⟩

/-- The bit of a counter is set; the answer is whether it was not. -/
def Filter.mark (f : Filter) (counter : UInt64) : Filter × Bool :=
  let indexBlock := slot (counter >>> 6)
  let old := f.ring indexBlock
  let new := old ||| BitVec.twoPow 64 (counter &&& 63).toNat
  (⟨f.last, Function.update f.ring indexBlock new⟩, old != new)

def Filter.validateCounter (f : Filter) (counter limit : UInt64) : Filter × Bool :=
  if counter ≥ limit then (f, false)
  else if counter > f.last then (f.advance counter).mark counter
  else if f.last - counter > windowSize then (f, false)
  else f.mark counter

end model

section places

theorem slot_eq (i : UInt64) : slot i = Fin.ofNat 128 i.toNat := by
  have hand : (i &&& 127).toNat = i.toNat % 128 := by
    rw [UInt64.toNat_and]
    exact Nat.and_two_pow_sub_one_eq_mod i.toNat 7
  apply Fin.ext
  rw [slot, hand]
  exact Nat.mod_mod i.toNat 128

theorem block_eq (c : UInt64) : (c >>> 6).toNat = c.toNat / 64 := by
  rw [UInt64.toNat_shiftRight]
  exact Nat.shiftRight_eq_div_pow c.toNat 6

theorem bit_eq (c : UInt64) : (c &&& 63).toNat = c.toNat % 64 := by
  rw [UInt64.toNat_and]
  exact Nat.and_two_pow_sub_one_eq_mod c.toNat 6

end places

section bits

/-- The bit of a counter. -/
def Filter.marked (f : Filter) (c : UInt64) : Bool := (f.ring (Fin.ofNat 128 (c.toNat / 64))).getLsbD (c.toNat % 64)

theorem slot_next (current : UInt64) (hcurrent : current.toNat < 2 ^ 58) (n : Nat) (hn : n ≤ 128) :
    slot (current + UInt64.ofNat n) = Fin.ofNat 128 (current.toNat + n) := by
  have hsmall : n < UInt64.size := by
    apply Nat.lt_of_le_of_lt hn
    decide
  rw [slot_eq, UInt64.toNat_add, UInt64.toNat_ofNat_of_lt' hsmall, Nat.mod_eq_of_lt (by omega)]

theorem clearNext_of_ne (current : UInt64) (ring : Fin 128 → BitVec 64) (hcurrent : current.toNat < 2 ^ 58)
    (n : Nat) (hn : n ≤ 128) (i : Fin 128)
    (hi : ∀ j, 1 ≤ j → j ≤ n → Fin.ofNat 128 (current.toNat + j) ≠ i) : clearNext current ring n i = ring i := by
  induction n with
  | zero => rfl
  | succ n ih =>
    have hne : i ≠ slot (current + UInt64.ofNat (n + 1)) := by
      rw [slot_next current hcurrent (n + 1) hn]
      exact (hi (n + 1) (by omega) (Nat.le_refl _)).symm
    rw [clearNext, Function.update_of_ne hne]
    apply ih (by omega)
    intro j h1 hj
    exact hi j h1 (by omega)

theorem clearNext_of_eq (current : UInt64) (ring : Fin 128 → BitVec 64) (hcurrent : current.toNat < 2 ^ 58)
    (n : Nat) (hn : n ≤ 128) (i : Fin 128) (j : Nat) (h1 : 1 ≤ j) (hj : j ≤ n)
    (hi : Fin.ofNat 128 (current.toNat + j) = i) : clearNext current ring n i = 0 := by
  induction n with
  | zero => omega
  | succ n ih =>
    rw [clearNext]
    by_cases hplace : i = slot (current + UInt64.ofNat (n + 1))
    · rw [hplace, Function.update_self]
    · rw [Function.update_of_ne hplace]
      apply ih (by omega)
      -- the last block of the loop is another one
      by_contra hlast
      obtain rfl : j = n + 1 := by omega
      rw [slot_next current hcurrent (n + 1) hn] at hplace
      exact hplace hi.symm

/-- Setting the bit of a counter changes no other one of the same round. -/
theorem mark_marked (f : Filter) (counter c : UInt64)
    (hround : c.toNat / 64 < counter.toNat / 64 + 128 ∧ counter.toNat / 64 < c.toNat / 64 + 128) :
    (f.mark counter).1.marked c = (f.marked c || decide (c = counter)) := by
  have hbit : counter.toNat % 64 < 64 := Nat.mod_lt _ (by decide)
  simp only [Filter.mark, Filter.marked, slot_eq, block_eq, bit_eq]
  by_cases hblock : c.toNat / 64 = counter.toNat / 64
  · rw [hblock, Function.update_self, BitVec.getLsbD_or, BitVec.getLsbD_twoPow, decide_eq_true hbit, Bool.true_and]
    congr 1
    apply decide_eq_decide.mpr
    constructor
    · intro hsame
      apply UInt64.toNat_inj.mp
      omega
    · rintro rfl
      rfl
  · have hne : Fin.ofNat 128 (c.toNat / 64) ≠ Fin.ofNat 128 (counter.toNat / 64) := by
      rcases Nat.lt_or_gt_of_ne hblock with hlt | hgt
      · exact ofNat_ne hlt hround.2
      · exact (ofNat_ne hgt hround.1).symm
    have hother : c ≠ counter := by
      rintro rfl
      exact hblock rfl
    rw [Function.update_of_ne hne, decide_eq_false hother, Bool.or_false]

/-- The answer is whether the bit was clear. -/
theorem mark_answer (f : Filter) (counter : UInt64) : (f.mark counter).2 = !f.marked counter := by
  have hbit : counter.toNat % 64 < 64 := Nat.mod_lt _ (by decide)
  simp only [Filter.mark, Filter.marked, slot_eq, block_eq, bit_eq]
  generalize f.ring (Fin.ofNat 128 (counter.toNat / 64)) = old
  cases hold : old.getLsbD (counter.toNat % 64) with
  | true =>
    have hsame : old ||| BitVec.twoPow 64 (counter.toNat % 64) = old := by
      apply BitVec.eq_of_getLsbD_eq
      intro i _
      rw [BitVec.getLsbD_or, BitVec.getLsbD_twoPow]
      by_cases hi : counter.toNat % 64 = i
      · rw [← hi, hold]
        rfl
      · simp [hi]
    rw [hsame]
    simp
  | false =>
    have hother : old ≠ old ||| BitVec.twoPow 64 (counter.toNat % 64) := by
      intro hsame
      have hnow := congrArg (fun v => v.getLsbD (counter.toNat % 64)) hsame
      simp only [BitVec.getLsbD_or, BitVec.getLsbD_twoPow, hold, decide_eq_true hbit] at hnow
      cases hnow
    simp [hother]

end bits

section window

/-- The filter knows which counters were accepted, as far as its blocks go back. -/
structure Holds (f : Filter) (accepted : List UInt64) : Prop where
  below : ∀ a ∈ accepted, a ≤ f.last
  top : f.last = 0 ∨ f.last ∈ accepted
  bits : ∀ c : UInt64, c.toNat / 64 ≤ f.last.toNat / 64 → f.last.toNat / 64 < c.toNat / 64 + 128 →
    (f.marked c = true ↔ c ∈ accepted)

/-- The number of blocks that the loop clears. -/
theorem advance_count (last counter : UInt64) (hcounter : last < counter) :
    (if counter >>> 6 - last >>> 6 > 128 then 128 else (counter >>> 6 - last >>> 6).toNat) =
      min (counter.toNat / 64 - last.toNat / 64) 128 := by
  have hlast : last.toNat < counter.toNat := hcounter
  have hdiff : (counter >>> 6 - last >>> 6).toNat = counter.toNat / 64 - last.toNat / 64 := by
    rw [UInt64.toNat_sub_of_le, block_eq, block_eq]
    rw [UInt64.le_iff_toNat_le, block_eq, block_eq]
    omega
  have hcap : counter >>> 6 - last >>> 6 > 128 ↔ 128 < counter.toNat / 64 - last.toNat / 64 := by
    rw [gt_iff_lt, UInt64.lt_iff_toNat_lt, hdiff]
    rfl
  rw [hdiff]
  by_cases hgt : 128 < counter.toNat / 64 - last.toNat / 64
  · rw [if_pos (hcap.mpr hgt)]
    omega
  · rw [if_neg fun h => hgt (hcap.mp h)]
    omega

theorem advance_marked (f : Filter) (accepted : List UInt64) (h : Holds f accepted) (counter c : UInt64)
    (hcounter : f.last < counter) (hle : c.toNat / 64 ≤ counter.toNat / 64)
    (hround : counter.toNat / 64 < c.toNat / 64 + 128) :
    (f.advance counter).marked c = true ↔ c ∈ accepted := by
  have hlast : f.last.toNat < counter.toNat := hcounter
  have hsize := counter.toNat_lt
  have hcurrent : (f.last >>> 6).toNat < 2 ^ 58 := by
    rw [block_eq]
    omega
  have hn := advance_count f.last counter hcounter
  simp only [Filter.advance, Filter.marked, hn]
  by_cases hold : c.toNat / 64 ≤ f.last.toNat / 64
  · -- the loop ends before it comes round to an old block of the window
    rw [clearNext_of_ne _ _ hcurrent _ (by omega)]
    · exact h.bits c hold (by omega)
    · intro j h1 hj
      rw [block_eq]
      exact (ofNat_ne (by omega) (by omega)).symm
  · -- a new block has been cleared, and no counter of it was accepted
    obtain ⟨j, h1, hj, hi⟩ : ∃ j, 1 ≤ j ∧ j ≤ min (counter.toNat / 64 - f.last.toNat / 64) 128 ∧
        Fin.ofNat 128 (f.last.toNat / 64 + j) = Fin.ofNat 128 (c.toNat / 64) := by
      refine ⟨(c.toNat / 64 - f.last.toNat / 64 - 1) % 128 + 1, by omega, by omega, ?_⟩
      rw [ofNat_eq_iff]
      omega
    rw [← block_eq f.last] at hi
    rw [clearNext_of_eq _ _ hcurrent _ (by omega) _ j h1 hj hi]
    refine iff_of_false (by simp) fun hmem => ?_
    have hbelow : c.toNat ≤ f.last.toNat := h.below c hmem
    omega

theorem advance_holds (f : Filter) (accepted : List UInt64) (h : Holds f accepted) (counter : UInt64)
    (hcounter : f.last < counter) : Holds ((f.advance counter).mark counter).1 (counter :: accepted) where
  below := by
    intro a ha
    rcases List.mem_cons.mp ha with rfl | ha
    · exact UInt64.le_refl _
    · exact UInt64.le_trans (h.below a ha) (UInt64.le_of_lt hcounter)
  top := Or.inr List.mem_cons_self
  bits := by
    intro c hle hround
    change c.toNat / 64 ≤ counter.toNat / 64 at hle
    change counter.toNat / 64 < c.toNat / 64 + 128 at hround
    rw [mark_marked _ _ _ ⟨by omega, hround⟩, Bool.or_eq_true, decide_eq_true_eq,
      advance_marked f accepted h counter c hcounter hle hround, List.mem_cons, or_comm]

theorem mark_holds (f : Filter) (accepted : List UInt64) (h : Holds f accepted) (counter : UInt64)
    (hle : counter ≤ f.last) (hround : f.last.toNat / 64 < counter.toNat / 64 + 128) :
    Holds (f.mark counter).1 (counter :: accepted) where
  below := by
    intro a ha
    rcases List.mem_cons.mp ha with rfl | ha
    · exact hle
    · exact h.below a ha
  top := h.top.imp_right (List.mem_cons_of_mem counter)
  bits := by
    intro c hc hcround
    have hnat : counter.toNat ≤ f.last.toNat := hle
    change c.toNat / 64 ≤ f.last.toNat / 64 at hc
    change f.last.toNat / 64 < c.toNat / 64 + 128 at hcround
    rw [mark_marked _ _ _ ⟨by omega, by omega⟩, Bool.or_eq_true, decide_eq_true_eq, h.bits c hc hcround,
      List.mem_cons, or_comm]

/-- A counter that is in the list already adds nothing to it. -/
theorem Holds.of_cons {f : Filter} {accepted : List UInt64} {counter : UInt64} (h : Holds f (counter :: accepted))
    (hmem : counter ∈ accepted) : Holds f accepted := by
  have hiff : ∀ c, c ∈ counter :: accepted ↔ c ∈ accepted := by
    intro c
    rw [List.mem_cons]
    exact or_iff_right_of_imp fun hc => hc ▸ hmem
  exact ⟨fun a ha => h.below a ((hiff a).mpr ha), h.top.imp_right (hiff _).mp,
    fun c hc hround => (h.bits c hc hround).trans (hiff c)⟩

theorem reset_holds (f : Filter) : Holds f.reset [] where
  below := fun a ha => absurd ha List.not_mem_nil
  top := Or.inl rfl
  bits := by
    intro c hc _
    -- only the first block is in the window of an empty filter
    have hlast : f.reset.last.toNat / 64 = 0 := by
      rw [show f.reset.last = 0 from rfl]
      rfl
    have hblock : c.toNat / 64 = 0 := by omega
    refine iff_of_false ?_ List.not_mem_nil
    rw [Filter.marked, hblock, Filter.reset]
    simp

theorem zero_holds : Holds Filter.zero [] where
  below := fun a ha => absurd ha List.not_mem_nil
  top := Or.inl rfl
  bits := fun c _ _ => iff_of_false (by simp [Filter.marked, Filter.zero]) List.not_mem_nil

end window

section refinement

/-- What the filter is for: a counter is accepted once, below the limit, and no more than the window
behind the greatest one. -/
def Verdict (accepted : List UInt64) (counter limit : UInt64) : Prop :=
  counter < limit ∧ counter ∉ accepted ∧ ∀ a ∈ accepted, a.toNat ≤ counter.toNat + windowSize.toNat

instance (accepted : List UInt64) (counter limit : UInt64) : Decidable (Verdict accepted counter limit) :=
  inferInstanceAs (Decidable (_ ∧ _ ∧ _))

/-- What happens to a filter. -/
inductive Event
  | validate (counter limit : UInt64)
  | reset

def Filter.run (f : Filter) : List Event → List Bool
  | [] => []
  | .validate counter limit :: es => (f.validateCounter counter limit).2 :: (f.validateCounter counter limit).1.run es
  | .reset :: es => f.reset.run es

/-- The same with all accepted counters at hand. -/
def verdicts (accepted : List UInt64) : List Event → List Bool
  | [] => []
  | .validate counter limit :: es =>
    if Verdict accepted counter limit then true :: verdicts (counter :: accepted) es else false :: verdicts accepted es
  | .reset :: es => verdicts [] es

/-- The window as the filter sees it, from its last counter. -/
theorem behind_iff (f : Filter) (accepted : List UInt64) (h : Holds f accepted) (counter : UInt64)
    (hle : counter ≤ f.last) :
    f.last - counter > windowSize ↔ ¬ ∀ a ∈ accepted, a.toNat ≤ counter.toNat + windowSize.toNat := by
  have hnat : counter.toNat ≤ f.last.toNat := hle
  have hdiff : f.last - counter > windowSize ↔ counter.toNat + windowSize.toNat < f.last.toNat := by
    rw [gt_iff_lt, UInt64.lt_iff_toNat_lt, UInt64.toNat_sub_of_le _ _ hle]
    omega
  rw [hdiff]
  constructor
  · intro hfar hall
    rcases h.top with hzero | hlast
    · rw [hzero] at hfar
      exact Nat.not_lt_zero _ hfar
    · have := hall f.last hlast
      omega
  · intro hnot
    by_contra hnear
    apply hnot
    intro a ha
    have hbelow : a.toNat ≤ f.last.toNat := h.below a ha
    omega

theorem validateCounter_verdict (f : Filter) (accepted : List UInt64) (h : Holds f accepted) (counter limit : UInt64) :
    (f.validateCounter counter limit).2 = decide (Verdict accepted counter limit) ∧
      Holds (f.validateCounter counter limit).1
        (if Verdict accepted counter limit then counter :: accepted else accepted) := by
  by_cases hlimit : counter ≥ limit
  · have hno : ¬ Verdict accepted counter limit := fun hv => UInt64.not_lt.mpr hlimit hv.1
    rw [Filter.validateCounter, if_pos hlimit, if_neg hno, decide_eq_false hno]
    exact ⟨rfl, h⟩
  · have hlt : counter < limit := UInt64.not_le.mp hlimit
    rw [Filter.validateCounter, if_neg hlimit]
    by_cases hnew : counter > f.last
    · -- ahead of every accepted counter
      have hfresh : counter ∉ accepted := fun hmem => UInt64.not_lt.mpr (h.below counter hmem) hnew
      have hyes : Verdict accepted counter limit := by
        refine ⟨hlt, hfresh, fun a ha => ?_⟩
        have hbelow : a.toNat ≤ f.last.toNat := h.below a ha
        have hahead : f.last.toNat < counter.toNat := hnew
        omega
      have hmarked : (f.advance counter).marked counter = false := by
        rw [← Bool.not_eq_true, advance_marked f accepted h counter counter hnew (Nat.le_refl _) (by omega)]
        exact hfresh
      rw [if_pos hnew, if_pos hyes, decide_eq_true hyes, mark_answer, hmarked]
      exact ⟨rfl, advance_holds f accepted h counter hnew⟩
    · have hle : counter ≤ f.last := UInt64.not_lt.mp hnew
      have hbehind := behind_iff f accepted h counter hle
      rw [if_neg hnew]
      by_cases hfar : f.last - counter > windowSize
      · have hno : ¬ Verdict accepted counter limit := fun hv => hbehind.mp hfar hv.2.2
        rw [if_pos hfar, if_neg hno, decide_eq_false hno]
        exact ⟨rfl, h⟩
      · have hall := not_not.mp fun hno => hfar (hbehind.mpr hno)
        have hnear : f.last.toNat ≤ counter.toNat + 8128 := by
          rcases h.top with hzero | hlast
          · rw [hzero]
            exact Nat.zero_le _
          · exact hall f.last hlast
        -- the window is one block short of the ring
        have hround : f.last.toNat / 64 < counter.toNat / 64 + 128 := by omega
        have hbit := h.bits counter (Nat.div_le_div_right hle) hround
        rw [if_neg hfar, mark_answer]
        by_cases hmem : counter ∈ accepted
        · have hno : ¬ Verdict accepted counter limit := fun hv => hv.2.1 hmem
          rw [if_neg hno, decide_eq_false hno, hbit.mpr hmem]
          exact ⟨rfl, (mark_holds f accepted h counter hle hround).of_cons hmem⟩
        · have hyes : Verdict accepted counter limit := ⟨hlt, hmem, hall⟩
          rw [if_pos hyes, decide_eq_true hyes, Bool.eq_false_iff.mpr fun hm => hmem (hbit.mp hm)]
          exact ⟨rfl, mark_holds f accepted h counter hle hround⟩

theorem run_verdicts (f : Filter) (accepted : List UInt64) (h : Holds f accepted) (es : List Event) :
    f.run es = verdicts accepted es := by
  induction es generalizing f accepted with
  | nil => rfl
  | cons e es ih =>
    cases e with
    | reset => exact ih f.reset [] (reset_holds f)
    | validate counter limit =>
      obtain ⟨hanswer, hholds⟩ := validateCounter_verdict f accepted h counter limit
      rw [Filter.run, verdicts, hanswer]
      by_cases hv : Verdict accepted counter limit
      · rw [if_pos hv] at hholds
        rw [if_pos hv, decide_eq_true hv, ih _ _ hholds]
      · rw [if_neg hv] at hholds
        rw [if_neg hv, decide_eq_false hv, ih _ _ hholds]

/-- The ring of bits answers as the list of all accepted counters does, whatever counters come in
whatever order, and from one reset to the next. -/
theorem filter_refines (es : List Event) : Filter.zero.run es = verdicts [] es :=
  run_verdicts Filter.zero [] zero_holds es

end refinement

end SmartAwg.Replay
