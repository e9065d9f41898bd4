import Mathlib.Data.List.Induction
import Mathlib.Data.List.Nodup
import SmartAwg.GoOutcome

/-!
A slice that is compacted while it is read: the entries whose key was seen before are dropped and
the others are moved to the front of the same array, which is cut off behind the last one.
-/

namespace SmartAwg.Go

section loop
variable {ε α κ : Type} [DecidableEq κ]

/-- The checked assignment `s[i] = a`. -/
def setIndex (s : List α) (i : Nat) (a : α) : Outcome ε (List α) :=
  if i < s.length then .ok (s.set i a) else .panic

/-- The array, the place of the next entry that is kept, and the keys of the map. -/
structure Compaction (α κ : Type) where
  slots : List α
  i : Nat
  seen : List κ

/-- What the loop does with the entry that it finds at one index. -/
def Compaction.step (key : α → κ) (st : Compaction α κ) (r : Nat) : Outcome ε (Compaction α κ) := do
  let a ← index st.slots r
  if key a ∈ st.seen then .ok st
  else do
    let slots ← setIndex st.slots st.i a
    .ok ⟨slots, st.i + 1, key a :: st.seen⟩

def compactInPlace (key : α → κ) (xs : List α) : Outcome ε (List α) := do
  let st ← forEach (Compaction.step key) ⟨xs, 0, []⟩ (List.range xs.length)
  slice st.slots 0 st.i

end loop

section first
variable {α κ : Type} [DecidableEq κ] (key : α → κ)

/-- The entries before which no other one has their key, in their order. -/
def firstOccurrences (xs : List α) : List α :=
  (xs.zipIdx.filter fun p => key p.1 ∉ (xs.take p.2).map key).map Prod.fst

theorem firstOccurrences_concat (xs : List α) (a : α) :
    firstOccurrences key (xs ++ [a]) =
      firstOccurrences key xs ++ if key a ∈ xs.map key then [] else [a] := by
  have hold : ∀ p ∈ xs.zipIdx, (xs ++ [a]).take p.2 = xs.take p.2 := by
    intro p hp
    have hlt : p.2 < xs.length + 0 := List.snd_lt_of_mem_zipIdx hp
    exact List.take_append_of_le_length (Nat.le_of_lt hlt)
  unfold firstOccurrences
  rw [List.zipIdx_append, List.filter_append, List.map_append]
  congr 1
  · congr 1
    apply List.filter_congr
    intro p hp
    rw [hold p hp]
  · simp only [List.zipIdx_singleton, Nat.zero_add, List.filter_singleton, List.take_left]
    by_cases h : key a ∈ xs.map key
    · simp [h]
    · simp [h]

theorem mem_keys_firstOccurrences (xs : List α) (k : κ) :
    k ∈ (firstOccurrences key xs).map key ↔ k ∈ xs.map key := by
  induction xs using List.reverseRecOn with
  | nil => rfl
  | append_singleton xs a ih =>
    rw [firstOccurrences_concat, List.map_append, List.mem_append, ih, List.map_append,
      List.mem_append]
    by_cases h : key a ∈ xs.map key
    · rw [if_pos h]
      simp only [List.map_nil, List.not_mem_nil, or_false, List.map_cons, List.mem_singleton]
      constructor
      · exact Or.inl
      · rintro (hk | rfl)
        · exact hk
        · exact h
    · rw [if_neg h]

/-- No two of them have one key. -/
theorem firstOccurrences_nodup (xs : List α) : ((firstOccurrences key xs).map key).Nodup := by
  induction xs using List.reverseRecOn with
  | nil => exact List.nodup_nil
  | append_singleton xs a ih =>
    rw [firstOccurrences_concat]
    by_cases h : key a ∈ xs.map key
    · rwa [if_pos h, List.append_nil]
    · rw [if_neg h, List.map_append]
      apply ih.append (List.nodup_singleton _)
      intro k hk hka
      rw [List.mem_singleton.mp hka, mem_keys_firstOccurrences] at hk
      exact h hk

theorem firstOccurrences_of_nodup (xs : List α) (h : (xs.map key).Nodup) :
    firstOccurrences key xs = xs := by
  induction xs using List.reverseRecOn with
  | nil => rfl
  | append_singleton xs a ih =>
    rw [List.map_append, List.nodup_append] at h
    obtain ⟨hxs, -, hdisjoint⟩ := h
    have hnew : key a ∉ xs.map key := by
      intro hmem
      exact hdisjoint _ hmem (key a) (by simp) rfl
    rw [firstOccurrences_concat, ih hxs, if_neg hnew]

theorem firstOccurrences_again (xs : List α) :
    firstOccurrences key (firstOccurrences key xs) = firstOccurrences key xs :=
  firstOccurrences_of_nodup key _ (firstOccurrences_nodup key xs)

end first

section correct
variable {ε α κ : Type} [DecidableEq κ] (key : α → κ)

/-- After `r` entries: the place of the next one is not behind `r`, before it stand the first
occurrences of what was read, and from `r` on nothing has been written. -/
structure Compaction.Reached (xs : List α) (r : Nat) (st : Compaction α κ) : Prop where
  length : st.slots.length = xs.length
  behind : st.i ≤ r
  kept : st.slots.take st.i = firstOccurrences key (xs.take r)
  unread : st.slots.drop r = xs.drop r
  seen : ∀ k, k ∈ st.seen ↔ k ∈ (xs.take r).map key

theorem Compaction.step_reached (xs : List α) (r : Nat) (hr : r < xs.length) (st : Compaction α κ)
    (h : st.Reached key xs r) :
    ∃ st', (st.step key r : Outcome ε (Compaction α κ)) = .ok st' ∧ st'.Reached key xs (r + 1) := by
  have hslot : r < st.slots.length := h.length ▸ hr
  have hread : st.slots[r] = xs[r] := by
    have hhead := congrArg List.head? h.unread
    rwa [List.head?_drop, List.head?_drop, List.getElem?_eq_getElem hslot,
      List.getElem?_eq_getElem hr, Option.some.injEq] at hhead
  have htake : xs.take (r + 1) = xs.take r ++ [xs[r]] := List.take_succ_eq_append_getElem hr
  have hunread : st.slots.drop (r + 1) = xs.drop (r + 1) := by
    rw [← List.tail_drop, h.unread, List.tail_drop]
  unfold Compaction.step
  rw [index_of_lt st.slots r hslot, Outcome.ok_bind, hread]
  by_cases hseen : key xs[r] ∈ st.seen
  · rw [if_pos hseen]
    have hmem := (h.seen _).mp hseen
    refine ⟨st, rfl, h.length, Nat.le_succ_of_le h.behind, ?_, hunread, ?_⟩
    · rw [htake, firstOccurrences_concat, if_pos hmem, List.append_nil, h.kept]
    · intro k
      rw [h.seen, htake, List.map_append, List.mem_append, List.map_singleton, List.mem_singleton]
      constructor
      · exact Or.inl
      · rintro (hk | rfl)
        · exact hk
        · exact hmem
  · rw [if_neg hseen]
    have hnew : key xs[r] ∉ (xs.take r).map key := fun hmem => hseen ((h.seen _).mpr hmem)
    have hi : st.i < st.slots.length := Nat.lt_of_le_of_lt h.behind hslot
    rw [setIndex, if_pos hi, Outcome.ok_bind]
    refine ⟨_, rfl, ?_, Nat.succ_le_succ h.behind, ?_, ?_, ?_⟩
    · rw [List.length_set, h.length]
    · -- the entry goes right behind those that were kept
      have hset : (st.slots.set st.i xs[r]).take (st.i + 1) = st.slots.take st.i ++ [xs[r]] := by
        rw [List.take_succ_eq_append_getElem (by rwa [List.length_set]), List.getElem_set_self,
          List.take_set_of_le (Nat.le_refl _)]
      rw [hset, htake, firstOccurrences_concat, if_neg hnew, h.kept]
    · rw [List.drop_set_of_lt (Nat.lt_succ_of_le h.behind), hunread]
    · intro k
      rw [List.mem_cons, h.seen, htake, List.map_append, List.mem_append, List.map_singleton,
        List.mem_singleton, or_comm]

theorem Compaction.loop_reached (xs : List α) (r : Nat) (hr : r ≤ xs.length) :
    ∃ st, (forEach (Compaction.step key) ⟨xs, 0, []⟩ (List.range r) : Outcome ε _) = .ok st ∧
      st.Reached key xs r := by
  induction r with
  | zero =>
    refine ⟨_, rfl, rfl, Nat.le_refl _, ?_, rfl, ?_⟩
    · rfl
    · intro k
      simp
  | succ r ih =>
    obtain ⟨st, hloop, hst⟩ := ih (Nat.le_of_succ_le hr)
    obtain ⟨st', hstep, hst'⟩ := Compaction.step_reached key xs r hr st hst
    refine ⟨st', ?_, hst'⟩
    rw [List.range_succ, forEach_append, hloop, Outcome.ok_bind, forEach_cons, hstep]
    rfl

/-- The array that is overwritten while it is read ends with the first occurrences. -/
theorem compactInPlace_eq (xs : List α) :
    (compactInPlace key xs : Outcome ε (List α)) = .ok (firstOccurrences key xs) := by
  obtain ⟨st, hloop, hst⟩ := @Compaction.loop_reached ε _ _ _ key xs xs.length (Nat.le_refl _)
  have hi : st.i ≤ st.slots.length := hst.length ▸ hst.behind
  unfold compactInPlace
  rw [hloop, Outcome.ok_bind, slice_of_le _ _ _ (Nat.zero_le _) hi, List.drop_zero, hst.kept,
    List.take_length]

end correct

end SmartAwg.Go
