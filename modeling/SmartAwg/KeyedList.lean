import Mathlib.Data.List.Nodup
import Mathlib.Data.List.Perm.Subperm

/-!
A list in which no two entries have one key, and in which a new entry takes the place of an old one
with its key: a directory, whose files are told apart by the file system's notion of a name. A key
that is not taken is found by trying one after another.
-/

namespace SmartAwg

structure KeyedList {α κ : Type} (key : α → κ) where
  entries : List α
  distinct : (entries.map key).Nodup

namespace KeyedList
variable {α κ : Type} [DecidableEq κ] {key : α → κ}

def keys (s : KeyedList key) : List κ := s.entries.map key

def size (s : KeyedList key) : Nat := s.entries.length

/-- The entries with other keys. -/
def others (s : KeyedList key) (k : κ) : List α := s.entries.filter fun a => key a ≠ k

def put (s : KeyedList key) (a : α) : KeyedList key where
  entries := s.others (key a) ++ [a]
  distinct := by
    rw [List.map_append, List.nodup_append]
    refine ⟨s.distinct.sublist (List.filter_sublist.map key), by simp, ?_⟩
    intro k hk k' hk' hsame
    obtain ⟨b, hb, rfl⟩ := List.mem_map.mp hk
    obtain rfl : k' = key a := by simpa using hk'
    simpa [hsame] using (List.mem_filter.mp hb).2

def putAll (s : KeyedList key) (as : List α) : KeyedList key := as.foldl put s

theorem put_entries_of_fresh {s : KeyedList key} {a : α} (h : key a ∉ s.keys) :
    (s.put a).entries = s.entries ++ [a] := by
  have hothers : s.others (key a) = s.entries := by
    apply List.filter_eq_self.mpr
    intro b hb
    have hne : key b ≠ key a := fun heq => h (heq ▸ List.mem_map_of_mem hb)
    simpa using hne
  exact congrArg (· ++ [a]) hothers

theorem put_size_of_fresh {s : KeyedList key} {a : α} (h : key a ∉ s.keys) :
    (s.put a).size = s.size + 1 := by
  simp [size, put_entries_of_fresh h]

/-- An entry whose key is there already takes the place of another. -/
theorem put_size_of_mem {s : KeyedList key} {a : α} (h : key a ∈ s.keys) : (s.put a).size ≤ s.size := by
  have hlt : (s.others (key a)).length < s.entries.length := by
    apply List.length_filter_lt_length_iff_exists.mpr
    obtain ⟨b, hb, hkey⟩ := List.mem_map.mp h
    exact ⟨b, hb, by simp [hkey]⟩
  simp only [size, put, List.length_append, List.length_singleton]
  omega

theorem put_keys_of_fresh {s : KeyedList key} {a : α} (h : key a ∉ s.keys) :
    (s.put a).keys = s.keys ++ [key a] := by
  simp [keys, put_entries_of_fresh h]

theorem putAll_size_le (s : KeyedList key) (as : List α) : (s.putAll as).size ≤ s.size + as.length := by
  induction as generalizing s with
  | nil => exact Nat.le_refl _
  | cons a as ih =>
    have hrest := ih (s.put a)
    have hone : (s.put a).size ≤ s.size + 1 := by
      by_cases h : key a ∈ s.keys
      · exact Nat.le_succ_of_le (put_size_of_mem h)
      · exact Nat.le_of_eq (put_size_of_fresh h)
    change ((s.put a).putAll as).size ≤ _
    simp only [List.length_cons]
    omega

/-- Entries with new keys are added at the end, and nothing else changes. -/
theorem putAll_entries {s : KeyedList key} {as : List α} (h : (s.keys ++ as.map key).Nodup) :
    (s.putAll as).entries = s.entries ++ as := by
  induction as generalizing s with
  | nil => exact (List.append_nil _).symm
  | cons a as ih =>
    rw [List.map_cons, List.append_cons] at h
    have hfresh : key a ∉ s.keys := by
      intro hmem
      have hnodup := (List.nodup_append.mp h).1
      exact (List.nodup_append.mp hnodup).2.2 _ hmem _ (List.mem_singleton_self _) rfl
    change ((s.put a).putAll as).entries = _
    rw [ih (by rwa [put_keys_of_fresh hfresh]), put_entries_of_fresh hfresh, List.append_assoc,
      List.singleton_append]

/-- Every entry counts exactly when all keys are new and different. -/
theorem putAll_size_iff (s : KeyedList key) (as : List α) :
    (s.putAll as).size = s.size + as.length ↔ (s.keys ++ as.map key).Nodup := by
  constructor
  · intro h
    induction as generalizing s with
    | nil => simpa [keys] using s.distinct
    | cons a as ih =>
      have hrest := (s.put a).putAll_size_le as
      change ((s.put a).putAll as).size = _ at h
      rw [List.length_cons] at h
      have hfresh : key a ∉ s.keys := by
        intro hmem
        have hsame := put_size_of_mem hmem
        omega
      rw [put_size_of_fresh hfresh] at hrest
      rw [List.map_cons, List.append_cons, ← put_keys_of_fresh hfresh]
      apply ih
      rw [put_size_of_fresh hfresh]
      omega
  · intro h
    rw [size, putAll_entries h, List.length_append, size]

end KeyedList

section unused
variable {κ : Type} [DecidableEq κ]

/-- The first number from `n` on whose candidate is not taken; at most `fuel` are tried before it. -/
def firstUnused (candidate : Nat → κ) (used : List κ) : Nat → Nat → Nat
  | 0, n => n
  | fuel + 1, n => if candidate n ∈ used then firstUnused candidate used fuel (n + 1) else n

variable {candidate : Nat → κ} {used : List κ}

theorem firstUnused_least (fuel n : Nat) : n ≤ firstUnused candidate used fuel n ∧
    ∀ m, n ≤ m → m < firstUnused candidate used fuel n → candidate m ∈ used := by
  induction fuel generalizing n with
  | zero => exact ⟨Nat.le_refl n, fun m hn hm => absurd (Nat.lt_of_le_of_lt hn hm) (Nat.lt_irrefl n)⟩
  | succ fuel ih =>
    unfold firstUnused
    split
    · rename_i htaken
      obtain ⟨hle, hall⟩ := ih (n + 1)
      refine ⟨Nat.le_of_succ_le hle, fun m hn hm => ?_⟩
      rcases Nat.eq_or_lt_of_le hn with rfl | hlt
      · exact htaken
      · exact hall m hlt hm
    · exact ⟨Nat.le_refl n, fun m hn hm => absurd (Nat.lt_of_le_of_lt hn hm) (Nat.lt_irrefl n)⟩

/-- The search ends at a taken candidate only when it has used up its fuel. -/
theorem firstUnused_of_mem (fuel n : Nat) (h : candidate (firstUnused candidate used fuel n) ∈ used) :
    firstUnused candidate used fuel n = n + fuel := by
  induction fuel generalizing n with
  | zero => rfl
  | succ fuel ih =>
    unfold firstUnused at h ⊢
    split at h
    · rename_i htaken
      rw [if_pos htaken, ih (n + 1) h]
      omega
    · exact absurd h ‹_›

/-- Different candidates cannot all be taken. -/
theorem firstUnused_not_mem (hinj : Function.Injective candidate) (n : Nat) :
    candidate (firstUnused candidate used used.length n) ∉ used := by
  intro hmem
  have hlast := firstUnused_of_mem used.length n hmem
  obtain ⟨-, hbefore⟩ : n ≤ firstUnused candidate used used.length n ∧ _ := firstUnused_least _ n
  rw [hlast] at hmem hbefore
  -- one more candidate than there are keys taken
  have htaken : (List.range' n (used.length + 1)).map candidate ⊆ used := by
    intro k hk
    obtain ⟨m, hm, rfl⟩ := List.mem_map.mp hk
    rw [List.mem_range'_1] at hm
    rcases Nat.eq_or_lt_of_le (Nat.le_of_lt_succ hm.2) with heq | hlt
    · rwa [heq]
    · exact hbefore m hm.1 hlt
  have hnodup : ((List.range' n (used.length + 1)).map candidate).Nodup :=
    List.Nodup.map hinj List.nodup_range'
  have hlength := (hnodup.subperm htaken).length_le
  rw [List.length_map, List.length_range'] at hlength
  omega

end unused

end SmartAwg
