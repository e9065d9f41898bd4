import Mathlib.Data.List.Dedup
import SmartAwg.BackupRestore

/-!
The names that a restored backup gets. Each name is chosen with the names in mind that are taken
already, those of the profiles before it among them, and references to other profiles follow.
-/

namespace SmartAwg.Smart

open Go Conf

section used

/-- The names taken after some profiles have got theirs. -/
def usedAfter (used : List Str) : List Str → List Str
  | [] => used
  | name :: rest => usedAfter (uniqueRestoredName name used).2 rest

theorem mem_usedAfter (used names : List Str) (t : Str) :
    t ∈ usedAfter used names ↔ t ∈ used ∨ t ∈ (restoredNames used names).map toLower := by
  induction names generalizing used with
  | nil => simp [usedAfter, restoredNames]
  | cons name rest ih =>
    rw [usedAfter, ih, restoredNames, uniqueRestoredName_used, List.map_cons, List.mem_cons,
      List.mem_cons]
    tauto

theorem restoredNames_append (used pre post : List Str) :
    restoredNames used (pre ++ post) = restoredNames used pre ++ restoredNames (usedAfter used pre) post := by
  induction pre generalizing used with
  | nil => rfl
  | cons name rest ih =>
    rw [List.cons_append, restoredNames, ih]
    rfl

theorem lookup_zip_eq_none {names : List Str} (news : List Str) {name : Str} (h : name ∉ names) :
    (names.zip news).lookup name = none := by
  apply List.lookup_eq_none_iff.mpr
  intro p hp
  apply bne_iff_ne.mpr
  rintro rfl
  exact h (List.of_mem_zip hp).1

/-- The map has for each profile the name chosen when its turn came. -/
theorem renameMap_lookup (used pre post : List Str) (name : Str) (h : (pre ++ name :: post).Nodup) :
    (renameMap used (pre ++ name :: post)).lookup name =
      some (uniqueRestoredName name (usedAfter used pre)).1 := by
  have hpre : name ∉ pre := by
    intro hmem
    exact (List.nodup_append.mp h).2.2 name hmem name List.mem_cons_self rfl
  have hnone := lookup_zip_eq_none (restoredNames used pre) hpre
  rw [renameMap, restoredNames_append, List.zip_append (restoredNames_length used pre).symm,
    List.lookup_append, hnone, restoredNames, List.zip_cons_cons, List.lookup_cons_self]
  rfl

end used

section room

theorem dedup_length_cons_le (t : Str) (used : List Str) :
    (t :: used).dedup.length ≤ used.dedup.length + 1 := by
  by_cases h : t ∈ used
  · rw [List.dedup_cons_of_mem h]
    exact Nat.le_succ _
  · rw [List.dedup_cons_of_notMem h, List.length_cons]

/-- One of the first copies is not taken, and its number has at most seven digits. -/
theorem roomFor_of_few (used : List Str) (name : Str) (h : tunnelNameIsValid name = true)
    (hused : used.dedup.length < 9999990) : RoomFor used name := by
  have hbytes := shorten_bytes h
  have hshort : (shorten name).length ≤ 20 := by
    rw [shorten_allowed (tunnelNameIsValid_format h).1, List.length_take]
    exact Nat.min_le_left _ _
  -- the copies are one more than the names that are taken
  obtain ⟨n, hn, hfree⟩ : ∃ n ∈ List.range' 2 (used.dedup.length + 1),
      toLower (copyName (shorten name) n) ∉ used := by
    by_contra hall
    push Not at hall
    have hnodup : ((List.range' 2 (used.dedup.length + 1)).map fun n =>
        toLower (copyName (shorten name) n)).Nodup :=
      (List.nodup_range' _).map (copyName_injective hbytes)
    have hsub : ((List.range' 2 (used.dedup.length + 1)).map fun n =>
        toLower (copyName (shorten name) n)) ⊆ used.dedup := by
      intro t ht
      obtain ⟨n, hn, rfl⟩ := List.mem_map.mp ht
      exact List.mem_dedup.mpr (hall n hn)
    have hle := (hnodup.subperm hsub).length_le
    rw [List.length_map, List.length_range'] at hle
    omega
  rw [List.mem_range'_1] at hn
  refine Or.inr ⟨n, hn.1, ?_, hfree⟩
  have hdigits : (itoa n).length ≤ 7 := (digits_length_le 10 n 7 (by decide) (by decide)).mpr (by omega)
  have hcopy : (ascii "-copy").length = 5 := rfl
  simp only [copyName, List.length_append]
  omega

theorem usedAfter_dedup_length (used names : List Str) :
    (usedAfter used names).dedup.length ≤ used.dedup.length + names.length := by
  induction names generalizing used with
  | nil => exact Nat.le_refl _
  | cons name rest ih =>
    have hrest := ih (uniqueRestoredName name used).2
    have hfirst := dedup_length_cons_le (toLower (uniqueRestoredName name used).1) used
    rw [← uniqueRestoredName_used] at hfirst
    rw [usedAfter, List.length_cons]
    omega

end room

section fresh

theorem dedup_map_length_le (f : Str → Str) (l : List Str) : (l.map f).dedup.length ≤ l.dedup.length := by
  have hsub : (l.map f).dedup ⊆ l.dedup.map f := by
    intro t ht
    obtain ⟨a, ha, rfl⟩ := List.mem_map.mp (List.mem_dedup.mp ht)
    exact List.mem_map.mpr ⟨a, List.mem_dedup.mpr ha, rfl⟩
  have hle := ((List.nodup_dedup _).subperm hsub).length_le
  rwa [List.length_map] at hle

/-- The name that a profile of the backup is restored under; other names stay. -/
def restoredName (used names : List Str) (name : Str) : Str :=
  ((renameMap used names).lookup name).getD name

theorem restoredName_eq (used pre post : List Str) (name : Str) (h : (pre ++ name :: post).Nodup) :
    restoredName used (pre ++ name :: post) name = (uniqueRestoredName name (usedAfter used pre)).1 := by
  rw [restoredName, renameMap_lookup used pre post name h]
  rfl

theorem map_restoredName (used pre post : List Str) (h : (pre ++ post).Nodup) :
    pre.map (restoredName used (pre ++ post)) = restoredNames used pre := by
  have hall : (pre ++ post).map (restoredName used (pre ++ post)) = restoredNames used (pre ++ post) := by
    rw [← map_lookup_zip h (restoredNames_length used (pre ++ post)).symm]
    apply List.map_congr_left
    intro name hname
    obtain ⟨before, behind, hsplit⟩ := List.append_of_mem hname
    have hlookup := renameMap_lookup used before behind name (hsplit ▸ h)
    rw [← hsplit, renameMap] at hlookup
    rw [restoredName, renameMap, hlookup]
    rfl
  rw [List.map_append, restoredNames_append] at hall
  exact (List.append_inj hall (by rw [List.length_map, restoredNames_length])).1

/-- How the name of one profile is chosen: it stays unless it is taken, and then it is the first of
its copies that is not. -/
def ChosenName (taken : List Str) (name new : Str) : Prop :=
  toLower new ∉ taken ∧ (toLower name ∉ taken → new = name) ∧
    (toLower name ∈ taken → ∃ n ≥ 2, new = copyName (shorten name) n ∧
      ∀ k, 2 ≤ k → k < n → toLower (copyName (shorten name) k) ∈ taken)

theorem uniqueRestoredName_chosen (used : List Str) (name : Str) (h : tunnelNameIsValid name = true) :
    ChosenName used name (uniqueRestoredName name used).1 := by
  refine ⟨uniqueRestoredName_fresh used h, ?_, ?_⟩
  · intro hfree
    rw [uniqueRestoredName, if_pos hfree]
  · intro htaken
    rw [uniqueRestoredName, if_neg (not_not.mpr htaken)]
    obtain ⟨hfrom, hleast⟩ := @firstUnused_least _ _ (fun n => toLower (copyName (shorten name) n)) used
      used.length 2
    exact ⟨_, hfrom, rfl, hleast⟩

theorem ChosenName.congr {taken taken' : List Str} {name new : Str} (h : ChosenName taken name new)
    (hsame : ∀ t, t ∈ taken ↔ t ∈ taken') : ChosenName taken' name new := by
  simp only [ChosenName, hsame] at h ⊢
  exact h

/-- The restored names are valid and new, each is chosen as the profiles before it allow, and the
references between the profiles follow. -/
theorem restoredNames_fresh (existing names : List Str) (hexisting : existing.dedup.length < 1000000)
    (hcount : names.length ≤ 100) (hvalid : ∀ name ∈ names, tunnelNameIsValid name = true)
    (hnodup : names.Nodup) :
    let used := existing.map toLower
    let new := restoredName used names
    (∀ name ∈ names, tunnelNameIsValid (new name) = true ∧
      ∀ t ∈ existing, toLower t ≠ toLower (new name)) ∧
    (∀ a ∈ names, ∀ b ∈ names, toLower (new a) = toLower (new b) → a = b) ∧
    (∀ pre name post, names = pre ++ name :: post →
      ChosenName (used ++ (pre.map new).map toLower) name (new name)) ∧
    ∀ settings, (renameFallbacks (renameMap used names) settings).fallbackProfiles =
      settings.fallbackProfiles.map fun name => if name ∈ names then new name else name := by
  intro used new
  have hall : names.map new = restoredNames used names := by
    have hmap := map_restoredName used names [] (by rwa [List.append_nil])
    rwa [List.append_nil] at hmap
  obtain ⟨hdistinct, hfresh⟩ := restoredNames_nodup used names hvalid
  rw [← hall] at hdistinct hfresh
  have hchosen : ∀ pre name post, names = pre ++ name :: post →
      new name = (uniqueRestoredName name (usedAfter used pre)).1 := by
    rintro pre name post rfl
    exact restoredName_eq used pre post name hnodup
  refine ⟨?_, ?_, ?_, ?_⟩
  · intro name hname
    constructor
    · obtain ⟨pre, post, hsplit⟩ := List.append_of_mem hname
      rw [hchosen pre name post hsplit, uniqueRestoredName_valid_iff (hvalid name hname)]
      apply roomFor_of_few _ _ (hvalid name hname)
      have hused := usedAfter_dedup_length used pre
      have hmap : used.dedup.length ≤ existing.dedup.length := dedup_map_length_le toLower existing
      have hlength := congrArg List.length hsplit
      rw [List.length_append] at hlength
      omega
    · intro t ht hsame
      exact hfresh (new name) (List.mem_map_of_mem hname) (hsame ▸ List.mem_map_of_mem ht)
  · intro a ha b hb hsame
    rw [List.map_map] at hdistinct
    exact List.inj_on_of_nodup_map hdistinct ha hb hsame
  · intro pre name post hsplit
    rw [hchosen pre name post hsplit]
    apply (uniqueRestoredName_chosen _ name (hvalid name (by rw [hsplit]; simp))).congr
    intro t
    have hpre : pre.map new = restoredNames used pre := by
      have hmap := map_restoredName used pre (name :: post) (hsplit ▸ hnodup)
      rwa [← hsplit] at hmap
    rw [mem_usedAfter, List.mem_append, hpre]
  · intro settings
    apply List.map_congr_left
    intro name _
    split
    · rfl
    · rename_i hother
      rw [renameMap, lookup_zip_eq_none _ hother]
      rfl

/-- Two profiles that are both taken, one of them only by the name of the other's copy. -/
theorem restoredNames_fresh_sample :
    let used := [ascii "Home"].map toLower
    let names := [ascii "home", ascii "home-copy2"]
    restoredName used names (ascii "home") = ascii "home-copy2" ∧
      restoredName used names (ascii "home-copy2") = ascii "home-copy2-copy2" ∧
      tunnelNameIsValid (restoredName used names (ascii "home-copy2")) = true := by
  refine ⟨by decide +kernel, by decide +kernel, ?_⟩
  exact ((restoredNames_fresh [ascii "Home"] [ascii "home", ascii "home-copy2"] (by decide +kernel)
    (by decide) (by decide +kernel) (by decide +kernel)).1 _ (by simp)).1

end fresh

end SmartAwg.Smart
