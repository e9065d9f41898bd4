import SmartAwg.GoFilepathClean

/-!
Volume names do not depend on which slash is used, nor on what comes after the separator behind them.
-/

namespace SmartAwg.Go

section volume

theorem isPathSeparator_fromSlash (c : UInt8) :
    isPathSeparator (if c = 0x2F then 0x5C else c) = isPathSeparator c := by
  split
  · rename_i h
    rw [h]
    rfl
  · rfl

theorem pathBeginsFold_fromSlash (path front : Str) :
    pathBeginsFold (fromSlash path) front = pathBeginsFold path front := by
  induction path generalizing front with
  | nil => rfl
  | cons c path ih =>
    rw [fromSlash, List.map_cons, ← fromSlash]
    cases front with
    | nil => exact isPathSeparator_fromSlash c
    | cons p front =>
      rw [pathBeginsFold, pathBeginsFold, ih, isPathSeparator_fromSlash]
      congr 1
      cases hp : isPathSeparator p with
      | true => rfl
      | false =>
        rw [if_neg Bool.false_ne_true, if_neg Bool.false_ne_true]
        split
        · rename_i hc
          subst hc
          revert hp
          exact byte_forall (fun p => isPathSeparator p = false →
            (upperByte p == upperByte 0x5C) = (upperByte p == upperByte 0x2F)) (by decide +kernel) p
        · rfl

theorem uncFrom_fromSlash (i count : Nat) (s : Str) :
    uncFrom i count (fromSlash s) = uncFrom i count s := by
  induction s generalizing i count with
  | nil => rfl
  | cons c s ih =>
    rw [fromSlash, List.map_cons, ← fromSlash, uncFrom, uncFrom, isPathSeparator_fromSlash, ih, ih]

theorem fromSlash_length (s : Str) : (fromSlash s).length = s.length := List.length_map _

theorem fromSlash_drop (s : Str) (n : Nat) : (fromSlash s).drop n = fromSlash (s.drop n) :=
  List.map_drop.symm

theorem fromSlash_append (s t : Str) : fromSlash (s ++ t) = fromSlash s ++ fromSlash t :=
  List.map_append

theorem fromSlash_of_plain (s : Str) (h : 0x2F ∉ s) : fromSlash s = s := by
  refine (List.map_congr_left fun c hc => if_neg fun heq => h ?_).trans (List.map_id s)
  exact heq ▸ hc

theorem fromSlash_fromSlash (s : Str) : fromSlash (fromSlash s) = fromSlash s := by
  rw [fromSlash, fromSlash, List.map_map]
  apply List.map_congr_left
  intro c _
  simp only [Function.comp_apply]
  split <;> simp_all

theorem fromSlash_getElem? (s : Str) (i : Nat) :
    (fromSlash s)[i]? = s[i]?.map fun c => if c = 0x2F then 0x5C else c := by
  rw [fromSlash, List.getElem?_map]

theorem fromSlash_colon (s : Str) (i : Nat) : (fromSlash s)[i]? = some 0x3A ↔ s[i]? = some 0x3A := by
  rw [fromSlash_getElem?]
  cases s[i]? with
  | none => simp
  | some c =>
    simp only [Option.map_some, Option.some.injEq]
    split
    · rename_i hc
      rw [hc]
      decide
    · rfl

theorem fromSlash_separator (s : Str) (i : Nat) :
    (fromSlash s)[i]?.any isPathSeparator = s[i]?.any isPathSeparator := by
  rw [fromSlash_getElem?]
  cases s[i]? with
  | none => rfl
  | some c => exact isPathSeparator_fromSlash c

theorem volumeNameLen_fromSlash (path : Str) : volumeNameLen (fromSlash path) = volumeNameLen path := by
  have hcolon := fromSlash_colon path 1
  have hhead : (fromSlash path).head?.any isPathSeparator = path.head?.any isPathSeparator := by
    rw [List.head?_eq_getElem?, fromSlash_separator, List.head?_eq_getElem?]
  have hdevice : deviceLen (fromSlash path) = deviceLen path := by
    rw [deviceLen, deviceLen, fromSlash_length, fromSlash_drop, fromSlash, List.takeWhile_map,
      List.length_map]
    simp only [Function.comp_def, isPathSeparator_fromSlash]
  have hunc : ∀ start, uncLen (fromSlash path) start = uncLen path start := by
    intro start
    rw [uncLen, uncLen, fromSlash_length, fromSlash_drop, uncFrom_fromSlash]
  have hsecond := fromSlash_separator path 1
  simp only [volumeNameLen, fromSlash_length, hcolon, hhead, pathBeginsFold_fromSlash, hunc, hdevice,
    hsecond]

/-- Whether a path begins with something is decided within it and the byte after it. -/
theorem pathBeginsFold_within (a r r' front : Str) (h : front.length ≤ a.length) :
    pathBeginsFold (a ++ 0x5C :: r') front = pathBeginsFold (a ++ 0x5C :: r) front := by
  induction a generalizing front with
  | nil =>
    obtain rfl := List.eq_nil_of_length_eq_zero (Nat.le_zero.mp h)
    rfl
  | cons c a ih =>
    cases front with
    | nil => rfl
    | cons p front =>
      rw [List.cons_append, List.cons_append, pathBeginsFold, pathBeginsFold,
        ih front (Nat.le_of_succ_le_succ h)]

/-- No separator stands where a letter is asked for. -/
theorem pathBeginsFold_beyond (a r front rest : Str) (p : UInt8) (hp : isPathSeparator p = false)
    (h : front.length = a.length) : pathBeginsFold (a ++ 0x5C :: r) (front ++ p :: rest) = false := by
  induction a generalizing front with
  | nil =>
    obtain rfl := List.eq_nil_of_length_eq_zero h
    rw [List.nil_append, List.nil_append, pathBeginsFold, hp, if_neg Bool.false_ne_true]
    have hne : (upperByte p == upperByte 0x5C) = false := by
      revert hp
      exact byte_forall (fun p => isPathSeparator p = false → (upperByte p == upperByte 0x5C) = false)
        (by decide +kernel) p
    rw [hne, Bool.false_and]
  | cons c a ih =>
    cases front with
    | nil => cases h
    | cons q front =>
      rw [List.cons_append, List.cons_append, pathBeginsFold, ih front (Nat.succ.inj h), Bool.and_false]

/-- What stands before a separator of the text asked for is asked for as well. -/
theorem pathBeginsFold_front (path front rest : Str) (p : UInt8) (hp : isPathSeparator p = true)
    (h : pathBeginsFold path (front ++ p :: rest) = true) : pathBeginsFold path front = true := by
  induction front generalizing path with
  | nil =>
    cases path with
    | nil => cases h
    | cons c path =>
      rw [List.nil_append, pathBeginsFold, hp, if_pos rfl, Bool.and_eq_true] at h
      exact h.1
  | cons q front ih =>
    cases path with
    | nil => cases h
    | cons c path =>
      rw [List.cons_append, pathBeginsFold, Bool.and_eq_true] at h
      rw [pathBeginsFold, h.1, ih path h.2]
      rfl

theorem uncFrom_le (i count : Nat) (s : Str) : i ≤ uncFrom i count s := by
  induction s generalizing i count with
  | nil => exact Nat.le_refl i
  | cons c s ih =>
    rw [uncFrom]
    split
    · split
      · exact Nat.le_refl i
      · exact (Nat.le_succ i).trans (ih _ _)
    · exact (Nat.le_succ i).trans (ih _ _)

theorem uncFrom_cut (i count : Nat) (x r r' : Str) (h : uncFrom i count (x ++ 0x5C :: r) = i + x.length) :
    uncFrom i count (x ++ 0x5C :: r') = i + x.length := by
  induction x generalizing i count with
  | nil =>
    rw [List.nil_append, uncFrom, if_pos (by decide)] at h ⊢
    split
    · rfl
    · rename_i hcount
      rw [if_neg hcount] at h
      have := uncFrom_le (i + 1) (count + 1) r
      rw [h] at this
      exact absurd this (by simp)
  | cons c x ih =>
    rw [List.cons_append, uncFrom] at h ⊢
    rw [List.length_cons, Nat.add_comm x.length, ← Nat.add_assoc] at h ⊢
    split
    · rename_i hc
      rw [if_pos hc] at h
      split
      · rename_i hcount
        rw [if_pos hcount] at h
        omega
      · rename_i hcount
        rw [if_neg hcount] at h
        exact ih _ _ h
    · rename_i hc
      rw [if_neg hc] at h
      exact ih _ _ h

/-- The text `\\.\UNC` cannot come into being behind a shorter volume. -/
theorem pathBeginsFold_unc (a r r' : Str) (hlen : 3 ≤ a.length)
    (hunc : ¬pathBeginsFold (a ++ 0x5C :: r) [0x5C, 0x5C, 0x2E, 0x5C, 0x55, 0x4E, 0x43] = true)
    (hdot : 4 ≤ a.length ∨ ¬pathBeginsFold (a ++ 0x5C :: r) [0x5C, 0x5C, 0x2E] = true) :
    ¬pathBeginsFold (a ++ 0x5C :: r') [0x5C, 0x5C, 0x2E, 0x5C, 0x55, 0x4E, 0x43] = true := by
  intro htrue
  have hbeyond : ∀ front rest p, front ++ p :: rest = [0x5C, 0x5C, 0x2E, 0x5C, 0x55, 0x4E, 0x43] →
      isPathSeparator p = false → front.length ≠ a.length := by
    intro front rest p heq hp hfront
    rw [← heq, pathBeginsFold_beyond a r' front rest p hp hfront] at htrue
    cases htrue
  by_cases h7 : 7 ≤ a.length
  · rw [pathBeginsFold_within a r r' _ (by simpa using h7)] at htrue
    exact hunc htrue
  · have h4 := hbeyond [0x5C, 0x5C, 0x2E, 0x5C] [0x4E, 0x43] 0x55 rfl (by decide)
    have h5 := hbeyond [0x5C, 0x5C, 0x2E, 0x5C, 0x55] [0x43] 0x4E rfl (by decide)
    have h6 := hbeyond [0x5C, 0x5C, 0x2E, 0x5C, 0x55, 0x4E] [] 0x43 rfl (by decide)
    simp only [List.length_cons, List.length_nil] at h4 h5 h6
    refine hdot.resolve_left (by omega) ?_
    rw [← pathBeginsFold_within a r r' _ (by simpa using hlen)]
    exact pathBeginsFold_front _ [0x5C, 0x5C, 0x2E] [0x55, 0x4E, 0x43] 0x5C (by decide) htrue

/-- A volume ends before a separator, and what follows the separator does not matter. -/
theorem volumeNameLen_front (a r r' : Str) (hne : a ≠ [])
    (h : volumeNameLen (a ++ 0x5C :: r) = a.length) : volumeNameLen (a ++ 0x5C :: r') = a.length := by
  have hlen : ∀ s : Str, (a ++ 0x5C :: s).length = a.length + (s.length + 1) := fun s => by
    rw [List.length_append, List.length_cons]
  have hpos := List.length_pos_iff.mpr hne
  have hhead : ∀ s, (a ++ 0x5C :: s).head? = a.head? := by
    intro s
    cases a with
    | nil => exact absurd rfl hne
    | cons c a => rfl
  -- for a name of two bytes or more the second byte is its own
  have hsecond : 2 ≤ a.length → ∀ s, (a ++ 0x5C :: s)[1]? = a[1]? :=
    fun h2 s => List.getElem?_append_left h2
  unfold volumeNameLen at h ⊢
  split at h
  · rename_i hdrive
    have h2 : 2 ≤ a.length := Nat.le_of_eq h
    rw [if_pos ⟨by rw [hlen]; omega, by rw [hsecond h2, ← hsecond h2 r]; exact hdrive.2⟩, h]
  rename_i hdrive
  have hdrive' : 2 ≤ a.length → ¬(2 ≤ (a ++ 0x5C :: r').length ∧ (a ++ 0x5C :: r')[1]? = some 0x3A) := by
    intro h2 hc
    refine hdrive ⟨by rw [hlen]; omega, ?_⟩
    rw [hsecond h2, ← hsecond h2 r']
    exact hc.2
  rw [hhead] at h ⊢
  split at h
  · omega
  rename_i hsep
  rw [if_neg hsep]
  split at h
  · rename_i hunc
    rw [uncLen] at h
    split at h
    · have h8 : 8 ≤ a.length := h ▸ uncFrom_le 8 0 _
      rw [List.drop_append_of_le_length h8] at h
      have hcut := uncFrom_cut 8 0 (a.drop 8) r r' (h.trans (by rw [List.length_drop]; omega))
      rw [if_neg (hdrive' (by omega)), pathBeginsFold_within a r r' _ (by simp; omega), if_pos hunc, uncLen,
        if_pos (by rw [hlen]; omega), List.drop_append_of_le_length h8, hcut, List.length_drop]
      omega
    · rw [hlen] at h
      omega
  rename_i hunc
  split at h
  · rename_i hdevice
    have hlong : ¬(a ++ 0x5C :: r).length = 3 := by
      intro h3
      rw [deviceLen, if_pos h3] at h
      rw [hlen] at h3
      omega
    rw [deviceLen, if_neg hlong] at h
    have h4 : 4 ≤ a.length := by omega
    -- the name of the device is all that is left of the volume
    have hname : (a.drop 4).takeWhile (fun c => !isPathSeparator c) = a.drop 4 := by
      rw [List.drop_append_of_le_length h4, List.takeWhile_append] at h
      split at h
      · rename_i hall
        exact List.IsPrefix.eq_of_length ( List.takeWhile_prefix _) hall
      · rename_i hsome
        rw [List.length_drop] at hsome
        omega
    rw [if_neg (hdrive' (by omega)), if_neg (pathBeginsFold_unc a r r' (by omega) hunc (Or.inl h4)),
      pathBeginsFold_within a r r' _ (by simp; omega), pathBeginsFold_within a r r' _ (by simp; omega),
      pathBeginsFold_within a r r' _ (by simp; omega), if_pos hdevice, deviceLen,
      if_neg (by rw [hlen]; omega), List.drop_append_of_le_length h4, List.takeWhile_append, hname,
      if_pos rfl, List.takeWhile_cons_of_neg (by decide), List.append_nil, List.length_drop]
    omega
  rename_i hdevice
  split at h
  · rename_i hslash
    rw [uncLen, if_pos (by rw [hlen]; omega)] at h
    have h3 : 3 ≤ a.length := by
      have h2 : 2 ≤ a.length := h ▸ uncFrom_le 2 0 _
      by_contra hshort
      rw [List.drop_left' (by omega), uncFrom, if_pos (by decide), if_neg (by decide)] at h
      exact hshort (h ▸ uncFrom_le 3 1 r)
    rw [List.drop_append_of_le_length (by omega)] at h
    have hcut := uncFrom_cut 2 0 (a.drop 2) r r' (h.trans (by rw [List.length_drop]; omega))
    rw [if_neg (hdrive' (by omega)), if_neg (pathBeginsFold_unc a r r' h3 hunc (Or.inr fun hdot => hdevice (by rw [hdot]; rfl))),
      pathBeginsFold_within a r r' _ (by simpa using h3), pathBeginsFold_within a r r' _ (by simpa using h3),
      pathBeginsFold_within a r r' _ (by simpa using h3), if_neg hdevice, hsecond (by omega), ← hsecond (by omega) r,
      if_pos hslash, uncLen, if_pos (by rw [hlen]; omega), List.drop_append_of_le_length (by omega),
      hcut, List.length_drop]
    omega
  · omega

theorem uncFrom_end (i count : Nat) (s : Str) : uncFrom i count s = i + s.length ∨
    ∃ m, uncFrom i count s = i + m ∧ isRooted (s.drop m) = true := by
  induction s generalizing i count with
  | nil => exact Or.inl rfl
  | cons c s ih =>
    have hstep : ∀ count', uncFrom (i + 1) count' s = i + (c :: s).length ∨
        ∃ m, uncFrom (i + 1) count' s = i + m ∧ isRooted ((c :: s).drop m) = true := by
      intro count'
      rcases ih (i + 1) count' with heq | ⟨m, heq, hroot⟩
      · refine Or.inl (heq.trans ?_)
        rw [List.length_cons]
        omega
      · exact Or.inr ⟨m + 1, heq.trans (by omega), hroot⟩
    rw [uncFrom]
    split
    · rename_i hc
      split
      · exact Or.inr ⟨0, rfl, hc⟩
      · exact hstep _
    · exact hstep _

/-- Behind a volume that is no drive comes a separator. -/
theorem isRooted_of_volume (path : Str) (hdrive : ¬(2 ≤ path.length ∧ path[1]? = some 0x3A))
    (hvol : volumeNameLen path ≠ 0) (hrest : path.drop (volumeNameLen path) ≠ []) :
    isRooted (path.drop (volumeNameLen path)) = true := by
  have hunc : ∀ start, path.drop (uncLen path start) ≠ [] →
      isRooted (path.drop (uncLen path start)) = true := by
    intro start hne
    unfold uncLen at hne ⊢
    split at hne
    · rename_i hstart
      rw [if_pos hstart]
      rcases uncFrom_end start 0 (path.drop start) with heq | ⟨m, heq, hroot⟩
      · rw [heq, List.length_drop, List.drop_of_length_le (by omega)] at hne
        exact absurd rfl hne
      · rwa [heq, ← List.drop_drop]
    · exact absurd (List.drop_length) hne
  have hdevice : path.drop (deviceLen path) ≠ [] → isRooted (path.drop (deviceLen path)) = true := by
    intro hne
    unfold deviceLen at hne ⊢
    split at hne
    · rename_i h3
      rw [List.drop_of_length_le (Nat.le_of_eq h3)] at hne
      exact absurd rfl hne
    · rename_i h3
      rw [if_neg h3, ← List.drop_drop]
      have hsplit := List.takeWhile_append_dropWhile (p := fun c => !isPathSeparator c) (l := path.drop 4)
      have hdrop := (congrArg (List.drop _) hsplit.symm).trans List.drop_left
      rw [← List.drop_drop, hdrop] at hne
      rw [hdrop]
      have hhead := List.head?_dropWhile_not (fun c => !isPathSeparator c) (path.drop 4)
      cases hd : (path.drop 4).dropWhile fun c => !isPathSeparator c with
      | nil => exact absurd hd hne
      | cons c rest =>
        rw [hd] at hhead
        exact (by simpa using hhead : isPathSeparator c = true)
  unfold volumeNameLen at hvol hrest ⊢
  rw [if_neg hdrive] at hvol hrest ⊢
  split at hvol
  · exact absurd rfl hvol
  rename_i hsep
  rw [if_neg hsep] at hrest ⊢
  split at hvol
  · rename_i h
    rw [if_pos h] at hrest ⊢
    exact hunc 8 hrest
  rename_i h
  rw [if_neg h] at hrest ⊢
  split at hvol
  · rename_i h
    rw [if_pos h] at hrest ⊢
    exact hdevice hrest
  rename_i h
  rw [if_neg h] at hrest ⊢
  split at hvol
  · rename_i h
    rw [if_pos h] at hrest ⊢
    exact hunc 2 hrest
  · exact absurd rfl hvol

end volume

end SmartAwg.Go
