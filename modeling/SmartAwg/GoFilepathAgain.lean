import SmartAwg.GoFilepathVolume

/-!
What `filepath.Clean` returns: a volume, steps up, and names. A second call finds nothing to do in the
names, so it differs from the first only where the first has put something in front of them or where
a name has become a volume.
-/

namespace SmartAwg.Go

section form

/-- Whether `postClean` sees a colon in the first element. -/
def colonFirst (s : Str) : Prop := 0x3A ∈ s.takeWhile fun c => !isPathSeparator c

instance (s : Str) : Decidable (colonFirst s) :=
  inferInstanceAs (Decidable (0x3A ∈ s.takeWhile fun c => !isPathSeparator c))

/-- Whether `postClean` sees the beginning of a device path. -/
def deviceFirst (s : Str) : Prop := isRooted s = true ∧ s[1]? = some 0x3F ∧ s[2]? = some 0x3F

instance (s : Str) : Decidable (deviceFirst s) :=
  inferInstanceAs (Decidable (isRooted s = true ∧ s[1]? = some 0x3F ∧ s[2]? = some 0x3F))

theorem LazyBuf.postClean_cases (b : LazyBuf) :
    b.postClean.text = b.text ∧ (∀ buf, b.buf = some buf → ¬colonFirst buf ∧ ¬deviceFirst buf) ∨
    (∃ buf, b.buf = some buf ∧ colonFirst buf ∧ b.postClean.text = 0x2E :: 0x5C :: b.text) ∨
    ∃ buf, b.buf = some buf ∧ ¬colonFirst buf ∧ deviceFirst buf ∧
      b.postClean.text = 0x5C :: 0x2E :: b.text := by
  obtain ⟨path, buf, w⟩ := b
  cases buf with
  | none => exact Or.inl ⟨rfl, nofun⟩
  | some buf =>
    simp only [postClean]
    split
    · rename_i hcolon
      exact Or.inr (Or.inl ⟨buf, rfl, hcolon, by simp [text, all]⟩)
    · rename_i hcolon
      split
      · rename_i hdevice
        exact Or.inr (Or.inr ⟨buf, rfl, hcolon, hdevice, by simp [text, all]⟩)
      · rename_i hdevice
        refine Or.inl ⟨rfl, fun buf' hbuf => ?_⟩
        cases hbuf
        exact ⟨hcolon, hdevice⟩

/-- The last byte of a file name: none of those that have a meaning for `Clean`. -/
def EndsPlain (c : Str) : Prop :=
  ∃ b, c.getLast? = some b ∧ b ∉ ([0x2E, 0x2F, 0x3A, 0x3F, 0x5C] : Str)

/-- What `Clean` returns for a path with a plain end. -/
inductive CleanForm (v : Str) : Str → Prop
  | volume (whole : v.drop (volumeNameLen v) = []) (slashes : volumeNameLen v > 1 ∧
      v.head?.any isPathSeparator ∧ v[1]?.any isPathSeparator) : CleanForm v (fromSlash v)
  | behind (es : List Str) (volume : volumeNameLen v ≠ 0) (rest : v.drop (volumeNameLen v) ≠ [])
      (resolved : ResolvedPath (isRooted (v.drop (volumeNameLen v))) es) (ne : es ≠ []) :
      CleanForm v (fromSlash (v.take (volumeNameLen v)) ++
        pathText (isRooted (v.drop (volumeNameLen v))) es)
  | relative (es : List Str) (resolved : ResolvedPath false es) (ne : es ≠ [])
      (drive : (pathText false es)[1]? ≠ some 0x3A) : CleanForm v (pathText false es)
  | current (es : List Str) (resolved : ResolvedPath false es) (ne : es ≠ []) :
      CleanForm v (0x2E :: 0x5C :: pathText false es)
  | root (es : List Str) (resolved : ResolvedPath true es) (ne : es ≠ [])
      (device : pathBeginsFold (pathText true es) [0x5C, 0x3F, 0x3F] = false) :
      CleanForm v (pathText true es)
  | device (es : List Str) (resolved : ResolvedPath true es) (ne : es ≠ [])
      (marks : (pathText true es)[1]? = some 0x3F ∧ (pathText true es)[2]? = some 0x3F) :
      CleanForm v (0x5C :: 0x2E :: pathText true es)

theorem pathText_no_slash {rooted : Bool} {es : List Str} (h : ResolvedPath rooted es) :
    0x2F ∉ pathText rooted es := by
  intro hmem
  rcases List.mem_append.mp hmem with hroot | hjoin
  · split at hroot
    · exact absurd hroot (by decide)
    · cases hroot
  · rcases mem_join es [0x5C] 0x2F hjoin with ⟨e, he, hmem⟩ | hsep
    · exact absurd ((h.kept e he).plain _ hmem) (by decide)
    · exact absurd hsep (by decide)

/-- The loop leaves elements, when what it leaves has a plain end. -/
theorem cleanLoop_text (path : Str) (h : EndsPlain (cleanLoop path).text) :
    ∃ es, ResolvedPath (isRooted path) es ∧ es ≠ [] ∧ (cleanLoop path).text = pathText (isRooted path) es := by
  obtain ⟨ups, names, htext, hups, hroot, hnames⟩ := cleanLoop_resolved path
  refine ⟨ups ++ names, ⟨ups, names, rfl, hups, hroot, hnames⟩, fun hnil => ?_, htext⟩
  rw [htext, hnil] at h
  obtain ⟨b, hb, hplain⟩ := h
  cases hr : isRooted path with
  | true =>
    rw [hr] at hb
    cases hb
    exact hplain (by decide)
  | false =>
    rw [hr] at hb
    cases hb

theorem EndsPlain.of_fromSlash {s : Str} (h : EndsPlain (fromSlash s)) : EndsPlain s := by
  obtain ⟨b, hb, hplain⟩ := h
  rw [fromSlash, List.getLast?_map] at hb
  obtain ⟨b', hb', rfl⟩ := Option.map_eq_some_iff.mp hb
  refine ⟨b', hb', fun hmem => hplain ?_⟩
  split
  · decide
  · exact hmem

theorem EndsPlain.of_append {s t : Str} (h : EndsPlain (s ++ t)) (ht : t ≠ []) : EndsPlain t := by
  obtain ⟨b, hb, hplain⟩ := h
  rw [List.getLast?_append_of_ne_nil _ ht] at hb
  exact ⟨b, hb, hplain⟩

theorem not_endsPlain_snoc {s : Str} {b : UInt8} (hb : b ∈ ([0x2E, 0x2F, 0x3A, 0x3F, 0x5C] : Str)) :
    ¬EndsPlain (s ++ [b]) := by
  rintro ⟨b', hb', hplain⟩
  rw [List.getLast?_append_of_ne_nil _ (List.cons_ne_nil _ _)] at hb'
  cases hb'
  exact hplain hb

theorem LazyBuf.postClean_ends (b : LazyBuf) : ∃ front, b.postClean.text = front ++ b.text := by
  rcases b.postClean_cases with ⟨h, -⟩ | ⟨-, -, -, h⟩ | ⟨-, -, -, -, h⟩
  · exact ⟨[], h⟩
  · exact ⟨[0x2E, 0x5C], h⟩
  · exact ⟨[0x5C, 0x2E], h⟩

/-- A plain end is the end of what the loop left. -/
theorem clean_eq (v : Str) (hrest : v.drop (volumeNameLen v) ≠ []) (h : EndsPlain (clean v)) :
    clean v = fromSlash (v.take (volumeNameLen v) ++
      (if volumeNameLen v ≠ 0 then cleanLoop (v.drop (volumeNameLen v))
        else (cleanLoop (v.drop (volumeNameLen v))).postClean).text) ∧
      EndsPlain (cleanLoop (v.drop (volumeNameLen v))).text := by
  have hne := cleanLoop_dot_text (v.drop (volumeNameLen v))
  unfold clean at h ⊢
  simp only [if_neg hrest] at h ⊢
  generalize hout : (if (cleanLoop (v.drop (volumeNameLen v))).w = 0 then
    (cleanLoop (v.drop (volumeNameLen v))).append 0x2E else cleanLoop (v.drop (volumeNameLen v))) = out
    at hne h ⊢
  have hends : ∃ front, (if volumeNameLen v ≠ 0 then out else out.postClean).text = front ++ out.text := by
    split
    · exact ⟨[], rfl⟩
    · exact out.postClean_ends
  obtain ⟨front, hfront⟩ := hends
  have hplain : EndsPlain out.text := by
    have := h.of_fromSlash
    rw [hfront, ← List.append_assoc] at this
    exact this.of_append hne
  -- a dot for the empty path is no plain end
  split at hout
  · rw [← hout, ((cleanLoop _).text_append 0x2E (cleanLoop_within _)).1] at hplain
    exact absurd hplain (not_endsPlain_snoc (by decide))
  · rw [hout]
    exact ⟨rfl, hplain⟩

theorem LazyBuf.appendAll_path (b : LazyBuf) (s : Str) : (b.appendAll s).path = b.path := by
  induction s generalizing b with
  | nil => rfl
  | cons c s ih =>
    refine (ih (b.append c)).trans ?_
    unfold append
    split
    · split <;> rfl
    · rfl

theorem cleanElement_path (rooted : Bool) (st : LazyBuf × Nat) (e : Str) :
    (cleanElement rooted st e).1.path = st.1.path := by
  obtain ⟨b, dotdot⟩ := st
  have hseparate : ∀ start, (b.separate start).path = b.path := by
    intro start
    unfold LazyBuf.separate
    split
    · exact b.appendAll_path [0x5C]
    · rfl
  rw [cleanElement]
  split
  · rfl
  split
  · split
    · rfl
    split
    · exact (LazyBuf.appendAll_path _ _).trans (hseparate 0)
    · rfl
  · exact (LazyBuf.appendAll_path _ _).trans (hseparate _)

theorem cleanLoop_path (path : Str) : (cleanLoop path).path = path := by
  have hfold : ∀ (rooted : Bool) (es : List Str) (st : LazyBuf × Nat),
      (es.foldl (cleanElement rooted) st).1.path = st.1.path := by
    intro rooted es
    induction es with
    | nil => exact fun st => rfl
    | cons e es ih => exact fun st => (ih _).trans (cleanElement_path rooted st e)
  unfold cleanLoop
  split
  · exact (hfold _ _ _).trans (LazyBuf.appendAll_path ⟨path, none, 0⟩ [0x5C])
  · exact hfold _ _ _

theorem volumeNameLen_of_device (path : Str) (h : pathBeginsFold path [0x5C, 0x3F, 0x3F] = true) :
    volumeNameLen path ≠ 0 := by
  have hhead : path.head?.any isPathSeparator = true := by
    cases path with
    | nil => cases h
    | cons c path =>
      rw [pathBeginsFold, Bool.and_eq_true] at h
      exact h.1
  have hne : path.length ≠ 0 := by
    cases path with
    | nil => cases hhead
    | cons c path => exact Nat.succ_ne_zero _
  unfold volumeNameLen
  split
  · decide
  rw [if_neg (by rw [hhead]; decide)]
  split
  · rw [uncLen]
    split
    · have := uncFrom_le 8 0 (path.drop 8)
      omega
    · exact hne
  · rw [if_pos (by rw [h, Bool.or_true]), deviceLen]
    split <;> omega

theorem EndsPlain.getElem? {s : Str} (h : EndsPlain s) (i : Nat) (hi : s.length = i + 1) :
    ∀ c, s[i]? = some c → c ∉ ([0x2E, 0x2F, 0x3A, 0x3F, 0x5C] : Str) := by
  obtain ⟨b, hb, hplain⟩ := h
  intro c hc
  rw [List.getLast?_eq_getElem?, hi, Nat.add_sub_cancel, hc] at hb
  cases hb
  exact hplain

theorem marks_of_device (s : Str) (h : pathBeginsFold s [0x5C, 0x3F, 0x3F] = true) :
    s[1]? = some 0x3F ∧ s[2]? = some 0x3F := by
  have hmark : ∀ c, (if isPathSeparator 0x3F then isPathSeparator c
      else upperByte 0x3F == upperByte c) = true → c = 0x3F :=
    byte_forall _ (by decide +kernel)
  rcases s with _ | ⟨a, _ | ⟨b, _ | ⟨c, s⟩⟩⟩
  · cases h
  · rw [pathBeginsFold, pathBeginsFold, Bool.and_false] at h
    cases h
  · rw [pathBeginsFold, pathBeginsFold, pathBeginsFold, Bool.and_false, Bool.and_false] at h
    cases h
  · simp only [pathBeginsFold, Bool.and_eq_true] at h
    rw [hmark b h.2.1, hmark c h.2.2.1]
    exact ⟨rfl, rfl⟩

/-- A device in front of a plain end is followed by more. -/
theorem pathBeginsFold_of_front (s t : Str) (hs : s <+: t) (hplain : EndsPlain s)
    (h : pathBeginsFold s [0x5C, 0x3F, 0x3F] = true) : pathBeginsFold t [0x5C, 0x3F, 0x3F] = true := by
  obtain ⟨r, rfl⟩ := hs
  have hmarks := marks_of_device s h
  rcases s with _ | ⟨a, _ | ⟨b, _ | ⟨c, _ | ⟨d, s⟩⟩⟩⟩
  · cases h
  · cases hmarks.1
  · cases hmarks.2
  · exact absurd (hplain.getElem? 2 rfl _ hmarks.2) (by decide)
  · exact h

theorem pathText_true_head (es : List Str) : (pathText true es)[0]? = some 0x5C := rfl

theorem LazyBuf.text_getElem? (b : LazyBuf) (i : Nat) (c : UInt8) (h : b.text[i]? = some c) :
    b.all[i]? = some c := by
  rw [text, List.getElem?_take] at h
  split at h
  · exact h
  · cases h

/-- A plain end is behind the marks. -/
theorem LazyBuf.text_marks (b : LazyBuf) (hplain : EndsPlain b.text) (h0 : b.text[0]? = some 0x5C)
    (h1 : b.all[1]? = some 0x3F) (h2 : b.all[2]? = some 0x3F) :
    b.text[1]? = some 0x3F ∧ b.text[2]? = some 0x3F := by
  have hget : ∀ i, i < b.w → b.text[i]? = b.all[i]? := fun i hi => by
    rw [text, List.getElem?_take_of_lt hi]
  have hlen : b.text.length = min b.w b.all.length := List.length_take
  have h3 := (List.getElem?_eq_some_iff.mp h2).1
  have hpos := (List.getElem?_eq_some_iff.mp h0).1
  by_cases hlong : 2 < b.w
  · exact ⟨(hget 1 (by omega)).trans h1, (hget 2 hlong).trans h2⟩
  by_cases hone : b.w = 1
  · exact absurd (hplain.getElem? 0 (by omega) _ h0) (by decide)
  · exact absurd (hplain.getElem? 1 (by omega) _ ((hget 1 (by omega)).trans h1)) (by decide)

theorem isRooted_iff (s : Str) : isRooted s = true ↔ ∃ c, s[0]? = some c ∧ isPathSeparator c = true := by
  rw [isRooted, ← List.head?_eq_getElem?, Option.any_eq_true]

theorem colonFirst_of_second {s : Str} {c : UInt8} (h0 : s[0]? = some c) (hc : isPathSeparator c = false)
    (h1 : s[1]? = some 0x3A) : colonFirst s := by
  rcases s with _ | ⟨a, _ | ⟨b, s⟩⟩
  · cases h0
  · cases h1
  · cases h0
    cases h1
    rw [colonFirst, List.takeWhile_cons_of_pos (by rw [hc]; rfl),
      List.takeWhile_cons_of_pos (by decide)]
    exact List.mem_cons_of_mem _ List.mem_cons_self

theorem not_colonFirst_of_rooted {s : Str} (h : isRooted s = true) : ¬colonFirst s := by
  cases s with
  | nil => cases h
  | cons c s =>
    have hc : isPathSeparator c = true := h
    rw [colonFirst, List.takeWhile_cons_of_neg (by rw [hc]; decide)]
    exact List.not_mem_nil

theorem volumeNameLen_of_drive {path : Str} (h : path[1]? = some 0x3A) : volumeNameLen path = 2 := by
  rw [volumeNameLen, if_pos ⟨(List.getElem?_eq_some_iff.mp h).1, h⟩]

/-- Without a volume the elements follow, behind what `postClean` puts in front. -/
theorem clean_form_plain (v : Str) (hvol : volumeNameLen v = 0) (hplain : EndsPlain (cleanLoop v).text) :
    CleanForm v (fromSlash (cleanLoop v).postClean.text) := by
  obtain ⟨es, hes, hne, htext⟩ := cleanLoop_text v hplain
  have hroot := hes.isRooted_eq hne
  have hslash : ∀ a b : UInt8, a ≠ 0x2F → b ≠ 0x2F →
      fromSlash (a :: b :: (cleanLoop v).text) = a :: b :: (cleanLoop v).text := by
    intro a b ha hb
    refine fromSlash_of_plain _ ?_
    rw [htext]
    simp [pathText_no_slash hes, Ne.symm ha, Ne.symm hb]
  -- a rooted output is a rooted buffer, and the other way round
  have hbuf : ∀ buf, (cleanLoop v).buf = some buf → ∀ (i : Nat) c, (cleanLoop v).text[i]? = some c →
      buf[i]? = some c := by
    intro buf hbuf i c hget
    have := (cleanLoop v).text_getElem? i c hget
    rwa [LazyBuf.all, hbuf] at this
  have hshared : (cleanLoop v).buf = none → (cleanLoop v).text <+: v := by
    intro hnone
    rw [LazyBuf.text, LazyBuf.all, hnone, Option.getD_none, cleanLoop_path]
    exact List.take_prefix _ _
  cases hr : isRooted v with
  | true =>
    rw [hr] at hes hroot htext
    have hhead : (cleanLoop v).text[0]? = some 0x5C := by
      rw [htext, pathText_true_head]
    rcases (cleanLoop v).postClean_cases with
      ⟨hpost, hbuffer⟩ | ⟨buf, hsome, hcolon, -⟩ | ⟨buf, hsome, -, hdevice, hpost⟩
    · rw [hpost, htext, fromSlash_of_plain _ (pathText_no_slash hes)]
      refine .root es hes hne ?_
      rw [← htext, ← Bool.not_eq_true]
      intro hbegins
      cases hb : (cleanLoop v).buf with
      | none =>
        exact volumeNameLen_of_device v (pathBeginsFold_of_front _ v (hshared hb) hplain hbegins) hvol
      | some buf =>
        obtain ⟨h1, h2⟩ := marks_of_device _ hbegins
        exact (hbuffer buf hb).2 ⟨(isRooted_iff buf).mpr ⟨_, hbuf buf hb 0 _ hhead, by decide⟩,
          hbuf buf hb 1 _ h1, hbuf buf hb 2 _ h2⟩
    · exact absurd hcolon
        (not_colonFirst_of_rooted ((isRooted_iff _).mpr ⟨_, hbuf buf hsome 0 _ hhead, by decide⟩))
    · rw [hpost, hslash _ _ (by decide) (by decide), htext]
      refine .device es hes hne ?_
      rw [← htext]
      have hall : (cleanLoop v).all = buf := by rw [LazyBuf.all, hsome, Option.getD_some]
      exact (cleanLoop v).text_marks hplain hhead (hall ▸ hdevice.2.1) (hall ▸ hdevice.2.2)
  | false =>
    rw [hr] at hes hroot htext
    -- the first byte is one of the first element
    obtain ⟨c, hc, hsep⟩ : ∃ c, (cleanLoop v).text[0]? = some c ∧ isPathSeparator c = false := by
      rw [← htext, isRooted, List.head?_eq_getElem?] at hroot
      cases hget : (cleanLoop v).text[0]? with
      | none =>
        obtain ⟨b, hb, -⟩ := hplain
        rw [List.getElem?_eq_none_iff, Nat.le_zero, List.length_eq_zero_iff] at hget
        rw [hget] at hb
        cases hb
      | some c =>
        rw [hget] at hroot
        exact ⟨c, rfl, hroot⟩
    rcases (cleanLoop v).postClean_cases with
      ⟨hpost, hbuffer⟩ | ⟨buf, hsome, hcolon, hpost⟩ | ⟨buf, hsome, -, hdevice, -⟩
    · rw [hpost, htext, fromSlash_of_plain _ (pathText_no_slash hes)]
      refine .relative es hes hne ?_
      rw [← htext]
      intro hcolon
      cases hb : (cleanLoop v).buf with
      | none =>
        obtain ⟨r, hr⟩ := hshared hb
        have hdrive : v[1]? = some 0x3A := by
          rw [← hr, List.getElem?_append_left (List.getElem?_eq_some_iff.mp hcolon).1, hcolon]
        rw [volumeNameLen_of_drive hdrive] at hvol
        cases hvol
      | some buf =>
        exact (hbuffer buf hb).1 (colonFirst_of_second (hbuf buf hb 0 _ hc) hsep (hbuf buf hb 1 _ hcolon))
    · rw [hpost, hslash _ _ (by decide) (by decide), htext]
      exact .current es hes hne
    · obtain ⟨c', hc', hsep'⟩ := (isRooted_iff buf).mp hdevice.1
      rw [hbuf buf hsome 0 _ hc] at hc'
      cases hc'
      rw [hsep] at hsep'
      cases hsep'

theorem clean_form (v : Str) (h : EndsPlain (clean v)) : CleanForm v (clean v) := by
  by_cases hrest : v.drop (volumeNameLen v) = []
  · unfold clean at h ⊢
    simp only [if_pos hrest] at h ⊢
    split at h
    · rename_i hslashes
      rw [if_pos hslashes]
      exact .volume hrest hslashes
    · exact absurd h (not_endsPlain_snoc (by decide))
  · obtain ⟨heq, hplain⟩ := clean_eq v hrest h
    rw [heq]
    by_cases hvol : volumeNameLen v = 0
    · rw [if_neg (not_not.mpr hvol), hvol, List.take_zero, List.nil_append, List.drop_zero]
      rw [hvol, List.drop_zero] at hplain
      exact clean_form_plain v hvol hplain
    · obtain ⟨es, hes, hne, htext⟩ := cleanLoop_text _ hplain
      rw [if_pos hvol, htext, fromSlash_append, fromSlash_of_plain _ (pathText_no_slash hes)]
      exact .behind es hvol hrest hes hne

end form

section again

/-- What a second call would lose: a dot that the first call has put in front, unless it is put there
again, and a dot in the first element that has come to stand behind a drive. -/
def Settled (c : Str) : Prop :=
  ([0x2E, 0x5C] <+: c → colonFirst (c.drop 2)) ∧ ¬[0x5C, 0x3A, 0x2E, 0x5C] <+: c

instance (c : Str) : Decidable (Settled c) :=
  inferInstanceAs (Decidable (([0x2E, 0x5C] <+: c → colonFirst (c.drop 2)) ∧
    ¬[0x5C, 0x3A, 0x2E, 0x5C] <+: c))

theorem settled_of_rooted {p : Str} (h0 : isRooted p = true) (h1 : p[1]? ≠ some 0x3A) : Settled p := by
  constructor
  · rintro ⟨r, rfl⟩
    cases h0
  · rintro ⟨r, rfl⟩
    exact absurd rfl h1

theorem ResolvedPath.pathText_ne_nil {rooted : Bool} {es : List Str} (h : ResolvedPath rooted es)
    (hne : es ≠ []) : pathText rooted es ≠ [] := by
  intro hnil
  cases rooted with
  | true => cases hnil
  | false =>
    exact hne ((pathText_length_eq false es fun e he => (h.kept e he).ne_nil).mp (by rw [hnil]; rfl))

/-- The first element is no dot. -/
theorem ResolvedPath.not_dotted {rooted : Bool} {es : List Str} (h : ResolvedPath rooted es)
    (hne : es ≠ []) : ¬[0x2E, 0x5C] <+: pathText rooted es := by
  cases rooted with
  | true =>
    rintro ⟨r, hr⟩
    cases hr
  | false =>
  cases es with
  | nil => exact absurd rfl hne
  | cons e es =>
    have hkept := h.kept e List.mem_cons_self
    have hdot : e ≠ [0x2E] := by
      rintro rfl
      rcases hkept with hup | hreal
      · cases hup
      · exact hreal.ne_dot rfl
    obtain ⟨rest, hrest⟩ := join_head es e [0x5C]
    rw [pathText, if_neg Bool.false_ne_true, List.nil_append, hrest]
    rintro ⟨r, hr⟩
    rcases e with _ | ⟨a, _ | ⟨b, e⟩⟩
    · exact hkept.ne_nil rfl
    · cases hr
      exact hdot rfl
    · cases hr
      exact absurd (hkept.plain 0x5C (by simp)) (by decide)

/-- A path with something left by the loop. -/
theorem clean_of_loop (c : Str) (hrest : c.drop (volumeNameLen c) ≠ [])
    (hw : (cleanLoop (c.drop (volumeNameLen c))).w ≠ 0) :
    clean c = fromSlash (c.take (volumeNameLen c) ++
      (if volumeNameLen c ≠ 0 then cleanLoop (c.drop (volumeNameLen c))
        else (cleanLoop (c.drop (volumeNameLen c))).postClean).text) := by
  unfold clean
  simp only [if_neg hrest, if_neg hw]

/-- A resolved path stays as it is, behind a volume or without one. -/
theorem clean_resolved {rooted : Bool} {es : List Str} (a : Str) (h : ResolvedPath rooted es) (hne : es ≠ [])
    (hvol : volumeNameLen (a ++ pathText rooted es) = a.length) :
    clean (a ++ pathText rooted es) = fromSlash a ++ pathText rooted es := by
  have hnil := h.pathText_ne_nil hne
  have hloop : cleanLoop ((a ++ pathText rooted es).drop (volumeNameLen (a ++ pathText rooted es))) =
      ⟨pathText rooted es, none, (pathText rooted es).length⟩ := by
    rw [hvol, List.drop_left, cleanLoop_pathText h hne]
  rw [clean_of_loop _ (by rwa [hvol, List.drop_left])
    (by rw [hloop]; exact List.length_eq_zero_iff.not.mpr hnil), hloop, hvol, List.take_left, fromSlash_append]
  congr 1
  -- nothing was written, so nothing is put in front
  have htext : (if a.length ≠ 0 then (⟨pathText rooted es, none, (pathText rooted es).length⟩ : LazyBuf)
      else (⟨pathText rooted es, none, (pathText rooted es).length⟩ : LazyBuf).postClean).text =
        pathText rooted es := by
    split <;> exact List.take_length
  rw [htext, fromSlash_of_plain _ (pathText_no_slash h)]

theorem isRooted_of_no_drive (path : Str) (hdrive : ¬(2 ≤ path.length ∧ path[1]? = some 0x3A))
    (hvol : volumeNameLen path ≠ 0) : isRooted path = true := by
  unfold volumeNameLen at hvol
  rw [if_neg hdrive] at hvol
  split at hvol
  · exact absurd rfl hvol
  · rename_i hsep
    rw [Bool.not_eq_true', Bool.not_eq_false] at hsep
    exact hsep

theorem isRooted_fromSlash (s : Str) : isRooted (fromSlash s) = isRooted s := by
  cases s with
  | nil => rfl
  | cons c s => exact isPathSeparator_fromSlash c

section behind
variable {v : Str} {es : List Str}

theorem clean_again_drive (hdrive : v[1]? = some 0x3A)
    (hes : ResolvedPath (isRooted (v.drop 2)) es) (hne : es ≠ []) :
    clean (fromSlash (v.take 2) ++ pathText (isRooted (v.drop 2)) es) =
        fromSlash (v.take 2) ++ pathText (isRooted (v.drop 2)) es ∧
      Settled (fromSlash (v.take 2) ++ pathText (isRooted (v.drop 2)) es) := by
  obtain ⟨a, r, rfl⟩ : ∃ a r, v = a :: 0x3A :: r := by
    rcases v with _ | ⟨a, _ | ⟨b, r⟩⟩
    · cases hdrive
    · cases hdrive
    · cases hdrive
      exact ⟨a, r, rfl⟩
  have htake : fromSlash ((a :: 0x3A :: r).take 2) = [if a = 0x2F then 0x5C else a, 0x3A] := rfl
  refine ⟨?_, ?_⟩
  · rw [clean_resolved _ hes hne, fromSlash_fromSlash]
    rw [htake]
    exact volumeNameLen_of_drive rfl
  · rw [htake]
    constructor
    · rintro ⟨s, hs⟩
      exact absurd (List.cons.inj (List.cons.inj hs).2).1 (by decide)
    · rintro ⟨s, hs⟩
      exact hes.not_dotted hne ⟨s, (List.cons.inj (List.cons.inj hs).2).2⟩

theorem clean_again_volume (hdrive : ¬(2 ≤ v.length ∧ v[1]? = some 0x3A)) (hvol : volumeNameLen v ≠ 0)
    (hrest : v.drop (volumeNameLen v) ≠ [])
    (hes : ResolvedPath (isRooted (v.drop (volumeNameLen v))) es) (hne : es ≠ []) :
    clean (fromSlash (v.take (volumeNameLen v)) ++ pathText (isRooted (v.drop (volumeNameLen v))) es) =
        fromSlash (v.take (volumeNameLen v)) ++ pathText (isRooted (v.drop (volumeNameLen v))) es ∧
      Settled (fromSlash (v.take (volumeNameLen v)) ++
        pathText (isRooted (v.drop (volumeNameLen v))) es) := by
  have hlen : (fromSlash (v.take (volumeNameLen v))).length = volumeNameLen v := by
    rw [fromSlash_length, List.length_take, Nat.min_eq_left]
    exact Nat.le_of_not_le fun hle => hrest (List.drop_of_length_le hle)
  have hroot := isRooted_of_volume v hdrive hvol hrest
  have hhead := isRooted_of_no_drive v hdrive hvol
  have hsplit : fromSlash (v.take (volumeNameLen v)) ++ fromSlash (v.drop (volumeNameLen v)) = fromSlash v := by
    rw [← fromSlash_append, List.take_append_drop]
  have hself := volumeNameLen_fromSlash v
  rw [hroot] at hes ⊢
  generalize hn : volumeNameLen v = n at *
  generalize ha : fromSlash (v.take n) = a at *
  have hane : a ≠ [] := fun hnil => hvol (by rw [← hlen, hnil]; rfl)
  -- the volume is found again, since it ends before a separator
  have hagain : volumeNameLen (a ++ pathText true es) = a.length := by
    cases hd : v.drop n with
    | nil => exact absurd hd hrest
    | cons x r =>
      have hx : (if x = 0x2F then 0x5C else x : UInt8) = 0x5C := by
        rw [hd] at hroot
        revert hroot
        exact byte_forall (fun x => isPathSeparator x = true → (if x = 0x2F then 0x5C else x : UInt8) = 0x5C)
          (by decide +kernel) x
      rw [hd, fromSlash, List.map_cons, hx, ← fromSlash] at hsplit
      refine volumeNameLen_front a (fromSlash r) (join es [0x5C]) hane ?_
      rw [hsplit, hself, hlen]
  refine ⟨by rw [clean_resolved a hes hne hagain, ← ha, fromSlash_fromSlash], settled_of_rooted ?_ ?_⟩
  · rw [← isRooted_fromSlash, ← hsplit] at hhead
    cases a with
    | nil => exact absurd rfl hane
    | cons c a => exact hhead
  · intro hcolon
    -- a drive is two bytes long, and these are the bytes of the volume
    have htwo : a.length = 2 := hagain.symm.trans (volumeNameLen_of_drive hcolon)
    have hv : v[1]? = some 0x3A := by
      rw [← fromSlash_colon, ← hsplit, List.getElem?_append_left (by omega)]
      rwa [List.getElem?_append_left (by omega)] at hcolon
    exact hdrive ⟨(List.getElem?_eq_some_iff.mp hv).1, hv⟩

end behind

theorem colonFirst_zeros (s : Str) : colonFirst (s ++ [0, 0]) ↔ colonFirst s := by
  rw [colonFirst, colonFirst, List.takeWhile_append]
  split
  · rename_i hall
    rw [List.IsPrefix.eq_of_length ( List.takeWhile_prefix _) hall, List.mem_append]
    exact or_iff_left (by decide)
  · rfl

theorem deviceFirst_zeros (s : Str) (hs : s ≠ []) : deviceFirst (s ++ [0, 0]) ↔ deviceFirst s := by
  have hget : ∀ i : Nat, (s ++ [0, 0])[i]? = some 0x3F ↔ s[i]? = some 0x3F := by
    intro i
    rw [List.getElem?_append]
    split
    · rfl
    · rename_i hlen
      rw [List.getElem?_eq_none (Nat.le_of_not_lt hlen)]
      constructor
      · intro h
        exact absurd (List.mem_of_getElem? h) (by decide)
      · intro h
        cases h
  rw [deviceFirst, deviceFirst, hget, hget]
  cases s with
  | nil => exact absurd rfl hs
  | cons c s => rfl

/-- What is put in front of a path that was written over zeros. -/
theorem clean_written {c T : Str} (hvol : volumeNameLen c = 0) (hT : T ≠ []) (hslash : 0x2F ∉ T)
    (hloop : cleanLoop c = ⟨c, some (T ++ [0, 0]), T.length⟩) :
    clean c = if colonFirst T then 0x2E :: 0x5C :: T else if deviceFirst T then 0x5C :: 0x2E :: T else T := by
  have hw : T.length ≠ 0 := List.length_eq_zero_iff.not.mpr hT
  have hc : c ≠ [] := by
    rintro rfl
    have : (0 : Nat) = T.length := congrArg LazyBuf.w hloop
    exact hw this.symm
  have heq := clean_of_loop c (by rwa [hvol]) (by rw [hvol, List.drop_zero, hloop]; exact hw)
  rw [heq, hvol, List.take_zero, List.nil_append, if_neg (not_not.mpr rfl), List.drop_zero, hloop]
  have htext : (⟨c, some (T ++ [0, 0]), T.length⟩ : LazyBuf).text = T := List.take_left
  rcases (⟨c, some (T ++ [0, 0]), T.length⟩ : LazyBuf).postClean_cases with
    ⟨hpost, hbuf⟩ | ⟨buf, hbuf, hcolon, hpost⟩ | ⟨buf, hbuf, hcolon, hdevice, hpost⟩
  · obtain ⟨hcolon, hdevice⟩ := hbuf _ rfl
    rw [hpost, htext, fromSlash_of_plain T hslash, if_neg ((colonFirst_zeros T).not.mp hcolon),
      if_neg ((deviceFirst_zeros T hT).not.mp hdevice)]
  · cases hbuf
    rw [hpost, htext, if_pos ((colonFirst_zeros T).mp hcolon), fromSlash_of_plain _ (by simp [hslash])]
  · cases hbuf
    rw [hpost, htext, if_neg ((colonFirst_zeros T).not.mp hcolon),
      if_pos ((deviceFirst_zeros T hT).mp hdevice), fromSlash_of_plain _ (by simp [hslash])]

theorem resolved_of_names (rooted : Bool) {es : List Str} (h : ∀ e ∈ es, RealElement e) :
    ResolvedPath rooted es :=
  ⟨[], es, rfl, nofun, fun _ => rfl, h⟩

theorem ResolvedPath.names {es : List Str} (h : ResolvedPath true es) : ∀ e ∈ es, RealElement e := by
  obtain ⟨ups, names, rfl, -, hroot, hnames⟩ := h
  rw [hroot rfl, List.nil_append]
  exact hnames

theorem volumeNameLen_root {r : Str} (hcolon : r.head? ≠ some 0x3A) (hsep : r.head?.any isPathSeparator = false)
    (hdevice : pathBeginsFold (0x5C :: r) [0x5C, 0x3F, 0x3F] = false) : volumeNameLen (0x5C :: r) = 0 := by
  have hslashes : ∀ front, pathBeginsFold (0x5C :: r) (0x5C :: 0x5C :: front) = false := by
    intro front
    cases r with
    | nil => rfl
    | cons x r =>
      have hx : isPathSeparator x = false := hsep
      rw [pathBeginsFold, pathBeginsFold, if_pos (by decide), if_pos (by decide), hx, Bool.false_and,
        Bool.and_false]
  have hget : (0x5C :: r)[1]? = r.head? := by
    rw [List.getElem?_cons_succ, List.head?_eq_getElem?]
  have hhead : (0x5C :: r).head?.any isPathSeparator = true := rfl
  rw [volumeNameLen, hget, if_neg fun h => hcolon h.2, hhead, if_neg (by decide), hslashes,
    if_neg Bool.false_ne_true, hslashes, hslashes, hdevice, if_neg (by decide), hsep, if_neg Bool.false_ne_true]

/-- A path differs from the one with a dot in front of it. -/
theorem ResolvedPath.not_front {es : List Str} (h : ResolvedPath false es) (hne : es ≠ []) :
    ¬pathText false es <+: 0x2E :: 0x5C :: pathText false es := by
  intro hfront
  have hnil := h.pathText_ne_nil hne
  have hdotted := h.not_dotted hne
  have hsplit : (pathText false es).splitOnP isPathSeparator = es := h.split hne
  generalize pathText false es = T at hfront hnil hdotted hsplit
  rcases T with _ | ⟨a, _ | ⟨b, T⟩⟩
  · exact hnil rfl
  · -- one dot would be its own element
    obtain ⟨r, hr⟩ := hfront
    cases hr
    have hkept := h.kept [0x2E] (by rw [← hsplit]; decide)
    rcases hkept with hup | hreal
    · cases hup
    · exact hreal.ne_dot rfl
  · obtain ⟨r, hr⟩ := hfront
    obtain ⟨rfl, hr⟩ := List.cons.inj hr
    obtain ⟨rfl, -⟩ := List.cons.inj hr
    exact hdotted ⟨T, rfl⟩

theorem cleanLoop_current {es : List Str} (h : ResolvedPath false es) (hne : es ≠ []) :
    cleanLoop (0x2E :: 0x5C :: pathText false es) =
      ⟨0x2E :: 0x5C :: pathText false es, some (pathText false es ++ [0, 0]), (pathText false es).length⟩ :=
  cleanLoop_dotted h hne _ rfl rfl rfl (h.not_front hne)

theorem clean_again_current {es : List Str} (hes : ResolvedPath false es) (hne : es ≠ []) :
    clean (0x2E :: 0x5C :: pathText false es) = 0x2E :: 0x5C :: pathText false es ↔
      Settled (0x2E :: 0x5C :: pathText false es) := by
  have hvol : volumeNameLen (0x2E :: 0x5C :: pathText false es) = 0 := by
    rw [volumeNameLen, if_neg (by simp), if_pos (by rfl)]
  have hsettled : Settled (0x2E :: 0x5C :: pathText false es) ↔ colonFirst (pathText false es) := by
    refine ⟨fun h => h.1 ⟨_, rfl⟩, fun h => ⟨fun _ => h, ?_⟩⟩
    rintro ⟨r, hr⟩
    cases hr
  have hroot := hes.isRooted_eq hne
  rw [hsettled, clean_written hvol (hes.pathText_ne_nil hne) (pathText_no_slash hes)
    (cleanLoop_current hes hne)]
  split
  · rename_i hcolon
    exact iff_of_true rfl hcolon
  · rename_i hcolon
    rw [if_neg fun hdevice => Bool.false_ne_true (hroot.symm.trans hdevice.1)]
    refine iff_of_false (fun heq => ?_) hcolon
    have hlen := congrArg List.length heq
    rw [List.length_cons, List.length_cons] at hlen
    omega

theorem clean_again_device {es : List Str} (hes : ResolvedPath true es) (hne : es ≠ [])
    (hmarks : (pathText true es)[1]? = some 0x3F ∧ (pathText true es)[2]? = some 0x3F) :
    clean (0x5C :: 0x2E :: pathText true es) = 0x5C :: 0x2E :: pathText true es := by
  have hdiffers : ¬pathText true es <+: 0x5C :: 0x2E :: pathText true es := by
    rintro ⟨r, hr⟩
    have hget : (pathText true es ++ r)[1]? = some 0x3F := by
      rw [List.getElem?_append_left (List.getElem?_eq_some_iff.mp hmarks.1).1, hmarks.1]
    rw [hr] at hget
    exact absurd hget (by simp)
  have hroot := hes.isRooted_eq hne
  have hvol : volumeNameLen (0x5C :: 0x2E :: pathText true es) = 0 := volumeNameLen_root (by simp) rfl rfl
  rw [clean_written hvol (hes.pathText_ne_nil hne) (pathText_no_slash hes)
    (cleanLoop_dotted hes hne _ rfl rfl rfl hdiffers), if_neg (not_colonFirst_of_rooted hroot),
    if_pos ⟨hroot, hmarks⟩]

/-- A name that begins with a colon becomes a drive when nothing but the root is before it. -/
theorem clean_again_colon (x : Str) (es : List Str) (hx : RealElement (0x3A :: x))
    (hes : ∀ e ∈ es, RealElement e) (h : EndsPlain (pathText true ((0x3A :: x) :: es))) :
    clean (pathText true ((0x3A :: x) :: es)) = pathText true ((0x3A :: x) :: es) ↔
      Settled (pathText true ((0x3A :: x) :: es)) := by
  have hplain : ∀ c ∈ x, isPathSeparator c = false := fun c hc => hx.plain c (List.mem_cons_of_mem _ hc)
  -- what follows the drive is resolved as well, unless it begins with a dot
  have hstays : ∀ rooted rest, ResolvedPath rooted rest → rest ≠ [] →
      pathText true ((0x3A :: x) :: es) = [0x5C, 0x3A] ++ pathText rooted rest →
      (clean (pathText true ((0x3A :: x) :: es)) = pathText true ((0x3A :: x) :: es) ↔
        Settled (pathText true ((0x3A :: x) :: es))) := by
    intro rooted rest hrest hne heq
    rw [heq, clean_resolved _ hrest hne (volumeNameLen_of_drive rfl)]
    refine iff_of_true rfl ⟨?_, ?_⟩
    · rintro ⟨r, hr⟩
      cases hr
    · rintro ⟨r, hr⟩
      exact hrest.not_dotted hne ⟨r, (List.cons.inj (List.cons.inj hr).2).2⟩
  cases es with
  | nil =>
    have hends : ∀ s, x = s → EndsPlain ([0x5C, 0x3A] ++ s) := by
      rintro s rfl
      rw [pathText, join_singleton, if_pos rfl] at h
      exact h
    refine hstays false [x] (resolved_of_names _ (List.forall_mem_singleton.mpr ⟨?_, ?_, ?_, hplain⟩))
      (List.cons_ne_nil _ _) rfl
    · exact fun hnil => not_endsPlain_snoc (s := [0x5C]) (by decide) (hends _ hnil)
    · exact fun hdot => not_endsPlain_snoc (s := [0x5C, 0x3A]) (by decide) (hends _ hdot)
    · exact fun hup => not_endsPlain_snoc (s := [0x5C, 0x3A, 0x2E]) (by decide) (hends _ hup)
  | cons b es =>
    have hjoin : pathText true ((0x3A :: x) :: b :: es) = [0x5C, 0x3A] ++ (x ++ 0x5C :: join (b :: es) [0x5C]) := by
      rw [pathText, join_cons_cons, if_pos rfl]
      rfl
    by_cases hnil : x = []
    · exact hstays true (b :: es) (resolved_of_names _ hes) (List.cons_ne_nil _ _) (by rw [hjoin, hnil]; rfl)
    by_cases hdot : x = [0x2E]
    · -- the dot is dropped, and behind a drive none is put in front
      have hrest : ResolvedPath false (b :: es) := resolved_of_names _ hes
      have hne := List.cons_ne_nil b es
      have hloop := cleanLoop_current hrest hne
      rw [hjoin, hdot]
      refine iff_of_false (fun heq => ?_) fun hsettled => hsettled.2 ⟨join (b :: es) [0x5C], rfl⟩
      have hvol : volumeNameLen ([0x5C, 0x3A] ++ ([0x2E] ++ 0x5C :: join (b :: es) [0x5C])) = 2 :=
        volumeNameLen_of_drive rfl
      have hdrop : ([0x5C, 0x3A] ++ ([0x2E] ++ 0x5C :: join (b :: es) [0x5C])).drop 2 =
          0x2E :: 0x5C :: pathText false (b :: es) := rfl
      rw [clean_of_loop _ (by rw [hvol, hdrop]; exact List.cons_ne_nil _ _)
        (by rw [hvol, hdrop, hloop]; exact List.length_eq_zero_iff.not.mpr (hrest.pathText_ne_nil hne)),
        hvol, hdrop, hloop, if_pos (by decide)] at heq
      have hlen := congrArg List.length heq
      have htext : (⟨0x2E :: 0x5C :: pathText false (b :: es), some (pathText false (b :: es) ++ [0, 0]),
        (pathText false (b :: es)).length⟩ : LazyBuf).text = join (b :: es) [0x5C] := List.take_left
      rw [htext, fromSlash_length] at hlen
      simp only [List.length_append, List.length_cons, List.length_take, List.length_nil] at hlen
      omega
    by_cases hup : x = [0x2E, 0x2E]
    · refine hstays false (x :: b :: es) ⟨[x], b :: es, rfl, List.forall_mem_singleton.mpr hup, Bool.noConfusion, hes⟩
        (List.cons_ne_nil _ _) ?_
      rw [hjoin, pathText, join_cons_cons]
      rfl
    · refine hstays false (x :: b :: es) (resolved_of_names _
        (List.forall_mem_cons.mpr ⟨⟨hnil, hdot, hup, hplain⟩, hes⟩)) (List.cons_ne_nil _ _) ?_
      rw [hjoin, pathText, join_cons_cons]
      rfl

theorem clean_again_root {es : List Str} (hes : ResolvedPath true es) (hne : es ≠ [])
    (hdevice : pathBeginsFold (pathText true es) [0x5C, 0x3F, 0x3F] = false)
    (h : EndsPlain (pathText true es)) :
    clean (pathText true es) = pathText true es ↔ Settled (pathText true es) := by
  cases es with
  | nil => exact absurd rfl hne
  | cons e es =>
    have hnames := hes.names
    obtain ⟨he, hrest⟩ := List.forall_mem_cons.mp hnames
    cases e with
    | nil => exact absurd rfl he.ne_nil
    | cons c x =>
      by_cases hc : c = 0x3A
      · subst hc
        exact clean_again_colon x es he hrest h
      · obtain ⟨r, hr⟩ := join_head es (c :: x) [0x5C]
        have htext : pathText true ((c :: x) :: es) = 0x5C :: c :: (x ++ r) := by
          rw [pathText, hr]
          rfl
        have hvol : volumeNameLen (pathText true ((c :: x) :: es)) = 0 := by
          rw [htext] at hdevice ⊢
          exact volumeNameLen_root (fun hcolon => hc (Option.some.inj hcolon)) (he.plain c List.mem_cons_self)
            hdevice
        refine iff_of_true (clean_resolved [] hes hne hvol) (settled_of_rooted (hes.isRooted_eq hne) ?_)
        rw [htext]
        exact fun hcolon => hc (Option.some.inj hcolon)

theorem CleanForm.clean_iff {v c : Str} (hform : CleanForm v c) (h : EndsPlain c) :
    clean c = c ↔ Settled c := by
  cases hform with
  | volume whole slashes =>
    obtain ⟨hlen, h0, h1⟩ := slashes
    have hroot : isRooted (fromSlash v) = true := (isRooted_fromSlash v).trans h0
    have hsecond := (fromSlash_separator v 1).trans h1
    refine iff_of_true ?_ (settled_of_rooted hroot fun hcolon => ?_)
    · unfold clean
      simp only [volumeNameLen_fromSlash, fromSlash_drop, whole]
      rw [if_pos (show fromSlash [] = [] from rfl), if_pos ⟨hlen, hroot, hsecond⟩, fromSlash_fromSlash]
    · rw [hcolon] at hsecond
      exact absurd hsecond (by decide)
  | behind es volume rest resolved ne =>
    by_cases hdrive : 2 ≤ v.length ∧ v[1]? = some 0x3A
    · have hvol := volumeNameLen_of_drive hdrive.2
      rw [hvol] at resolved ⊢
      have hagain := clean_again_drive hdrive.2 resolved ne
      exact iff_of_true hagain.1 hagain.2
    · have hagain := clean_again_volume hdrive volume rest resolved ne
      exact iff_of_true hagain.1 hagain.2
  | relative es resolved ne drive =>
    have hroot := resolved.isRooted_eq ne
    have hvol : volumeNameLen (pathText false es) = 0 := by
      rw [volumeNameLen, if_neg fun hd => drive hd.2, ← isRooted, hroot, if_pos (by decide)]
    refine iff_of_true (clean_resolved [] resolved ne hvol)
      ⟨fun hdot => absurd hdot (resolved.not_dotted ne), ?_⟩
    rintro ⟨r, hr⟩
    rw [← hr] at hroot
    cases hroot
  | current es resolved ne => exact clean_again_current resolved ne
  | root es resolved ne device => exact clean_again_root resolved ne device h
  | device es resolved ne marks =>
    exact iff_of_true (clean_again_device resolved ne marks) (settled_of_rooted rfl (by simp))

/-- A second `Clean` changes nothing, exactly when nothing it would take away is in front. -/
theorem clean_clean_iff (v : Str) (h : EndsPlain (clean v)) : clean (clean v) = clean v ↔ Settled (clean v) :=
  (clean_form v h).clean_iff h

end again

section bounds

theorem LazyBuf.appendAll_w (b : LazyBuf) (s : Str) : (b.appendAll s).w = b.w + s.length := by
  induction s generalizing b with
  | nil => rfl
  | cons c s ih =>
    rw [appendAll, List.foldl_cons, ← appendAll, ih, append_w, List.length_cons]
    omega

theorem LazyBuf.separate_w (b : LazyBuf) (start : Nat) :
    (b.separate start).w = b.w ∧ b.w = start ∨ (b.separate start).w = b.w + 1 ∧ b.w ≠ start := by
  unfold separate
  split
  · rename_i hne
    exact Or.inr ⟨b.append_w 0x5C, hne⟩
  · rename_i heq
    exact Or.inl ⟨rfl, not_not.mp heq⟩

/-- The output is never longer than the elements so far with a separator between them. -/
def Short (rooted : Bool) (k w : Nat) : Prop := w ≤ startOf rooted ∨ w + 1 ≤ startOf rooted + k

theorem Short.step {rooted : Bool} {k : Nat} {st : LazyBuf × Nat} (h : Short rooted k st.1.w) (e : Str) :
    Short rooted (k + (e.length + 1)) (cleanElement rooted st e).1.w := by
  obtain ⟨b, dotdot⟩ := st
  have hmore : ∀ w ≤ b.w, Short rooted (k + (e.length + 1)) w := by
    intro w hw
    simp only [Short] at h ⊢
    omega
  have happend : Short rooted (k + (e.length + 1)) ((b.separate (startOf rooted)).appendAll e).w := by
    rw [LazyBuf.appendAll_w]
    simp only [Short] at h ⊢
    have := b.separate_w (startOf rooted)
    omega
  rw [cleanElement]
  split
  · exact hmore _ (Nat.le_refl _)
  split
  · rename_i hup
    split
    · exact hmore _ (LazyBuf.backtrack_le _ _ _)
    split
    · rename_i hrooted
      have hfalse : rooted = false := by simpa using hrooted
      subst hfalse
      rw [hup] at happend ⊢
      exact happend
    · exact hmore _ (Nat.le_refl _)
  · exact happend

theorem Short.foldl {rooted : Bool} (es : List Str) {k : Nat} (st : LazyBuf × Nat)
    (h : Short rooted k st.1.w) :
    Short rooted (k + (es.map fun e => e.length + 1).sum) (es.foldl (cleanElement rooted) st).1.w := by
  induction es generalizing k st with
  | nil => exact h
  | cons e es ih =>
    rw [List.foldl_cons, List.map_cons, List.sum_cons, ← Nat.add_assoc]
    exact ih _ (h.step e)

theorem cleanLoop_w_le (path : Str) : (cleanLoop path).w ≤ path.length := by
  unfold cleanLoop
  split
  · rename_i hroot
    cases path with
    | nil => cases hroot
    | cons c rest =>
      have hstart : Short true 0 (LazyBuf.append ⟨c :: rest, none, 0⟩ 0x5C).w :=
        Or.inl (by rw [LazyBuf.append_w]; rfl)
      have h := Short.foldl (rest.splitOnP isPathSeparator) (LazyBuf.append ⟨c :: rest, none, 0⟩ 0x5C, 1) hstart
      rw [(splitOnP_pieces rest).2] at h
      simp only [Short, startOf, if_true] at h
      rw [List.drop_one, List.tail_cons, List.length_cons]
      omega
  · have hstart : Short false 0 0 := Or.inl (Nat.le_refl 0)
    have h := Short.foldl (path.splitOnP isPathSeparator) (⟨path, none, 0⟩, 0) hstart
    rw [(splitOnP_pieces path).2] at h
    simp only [Short, startOf, Bool.false_eq_true, if_false] at h
    omega

/-- Only what is put in front makes a path longer. -/
theorem clean_length (v : Str) (h : EndsPlain (clean v)) :
    (clean v).length ≤ v.length ∨ (clean v).head? = some 0x2E ∨ (clean v).head? = some 0x5C := by
  by_cases hrest : v.drop (volumeNameLen v) = []
  · refine Or.inl ?_
    unfold clean at h ⊢
    simp only [if_pos hrest] at h ⊢
    split at h
    · rename_i hslashes
      rw [if_pos hslashes, fromSlash_length]
    · exact absurd h (not_endsPlain_snoc (by decide))
  · obtain ⟨heq, -⟩ := clean_eq v hrest h
    have hw := cleanLoop_w_le (v.drop (volumeNameLen v))
    have hlen := (cleanLoop (v.drop (volumeNameLen v))).text_length (cleanLoop_within _)
    have hshort : volumeNameLen v < v.length := Nat.lt_of_not_le fun hle => hrest (List.drop_of_length_le hle)
    rw [List.length_drop] at hw
    by_cases hvol : volumeNameLen v = 0
    · rw [if_neg (not_not.mpr hvol), hvol, List.take_zero, List.nil_append, List.drop_zero] at heq
      rw [hvol, List.drop_zero] at hlen hw
      rcases (cleanLoop v).postClean_cases with ⟨hpost, -⟩ | ⟨-, -, -, hpost⟩ | ⟨-, -, -, -, hpost⟩
      · rw [hpost] at heq
        rw [heq, fromSlash_length, hlen]
        exact Or.inl hw
      · rw [heq, hpost]
        exact Or.inr (Or.inl rfl)
      · rw [heq, hpost]
        exact Or.inr (Or.inr rfl)
    · rw [heq, if_pos hvol, fromSlash_length, List.length_append, List.length_take, hlen]
      omega

section bytes
variable {P : UInt8 → Prop}

theorem LazyBuf.separate_forall {b : LazyBuf} (start : Nat) (hwithin : b.w ≤ b.all.length)
    (h : ∀ c ∈ b.text, P c) (hsep : P 0x5C) : ∀ c ∈ (b.separate start).text, P c := by
  unfold separate
  split
  · rw [(b.text_append 0x5C hwithin).1]
    exact List.forall_mem_append.mpr ⟨h, List.forall_mem_singleton.mpr hsep⟩
  · exact h

theorem cleanElement_forall (rooted : Bool) {st : LazyBuf × Nat} {e : Str}
    (hwithin : st.1.w ≤ st.1.all.length) (h : ∀ c ∈ st.1.text, P c) (he : ∀ c ∈ e, P c) (hsep : P 0x5C) :
    ∀ c ∈ (cleanElement rooted st e).1.text, P c := by
  obtain ⟨b, dotdot⟩ := st
  have happend : ∀ start, ∀ c ∈ ((b.separate start).appendAll e).text, P c := by
    intro start
    rw [(LazyBuf.text_appendAll _ e (b.separate_within start hwithin)).1]
    exact List.forall_mem_append.mpr ⟨LazyBuf.separate_forall start hwithin h hsep, he⟩
  rw [cleanElement]
  split
  · exact h
  split
  · rename_i hup
    split
    · intro c hc
      exact h c (List.take_subset_take_left _ (LazyBuf.backtrack_le _ _ _) hc)
    split
    · rw [hup] at happend
      exact happend 0
    · exact h
  · exact happend _

theorem foldl_cleanElement_forall (rooted : Bool) (es : List Str) {st : LazyBuf × Nat}
    (hwithin : st.1.w ≤ st.1.all.length) (h : ∀ c ∈ st.1.text, P c) (hes : ∀ e ∈ es, ∀ c ∈ e, P c)
    (hsep : P 0x5C) : ∀ c ∈ (es.foldl (cleanElement rooted) st).1.text, P c := by
  induction es generalizing st with
  | nil => exact h
  | cons e es ih =>
    obtain ⟨he, hes⟩ := List.forall_mem_cons.mp hes
    exact ih (cleanElement_within rooted st e hwithin) (cleanElement_forall rooted hwithin h he hsep) hes

theorem cleanLoop_forall (path : Str) (h : ∀ c ∈ path, P c) (hsep : P 0x5C) :
    ∀ c ∈ (cleanLoop path).text, P c := by
  unfold cleanLoop
  split
  · refine foldl_cleanElement_forall true _ (LazyBuf.text_append _ _ (Nat.zero_le _)).2 ?_
      (fun e he c hc => h c (List.mem_of_mem_drop ((splitOnP_pieces _).1 e he c hc).1)) hsep
    rw [(LazyBuf.text_append ⟨path, none, 0⟩ 0x5C (Nat.zero_le _)).1]
    exact List.forall_mem_singleton.mpr hsep
  · exact foldl_cleanElement_forall false _ (Nat.zero_le _) nofun
      (fun e he c hc => h c ((splitOnP_pieces _).1 e he c hc).1) hsep

theorem fromSlash_forall {s : Str} (h : ∀ c ∈ s, P c) (hsep : P 0x5C) : ∀ c ∈ fromSlash s, P c := by
  intro c hc
  obtain ⟨b, hb, rfl⟩ := List.mem_map.mp hc
  split
  · exact hsep
  · exact h b hb

/-- Cleaning brings in no bytes but dots and separators. -/
theorem clean_forall (v : Str) (h : EndsPlain (clean v)) (hv : ∀ c ∈ v, P c) (hsep : P 0x5C)
    (hdot : P 0x2E) : ∀ c ∈ clean v, P c := by
  by_cases hrest : v.drop (volumeNameLen v) = []
  · unfold clean at h ⊢
    simp only [if_pos hrest] at h ⊢
    split at h
    · rename_i hslashes
      rw [if_pos hslashes]
      exact fromSlash_forall hv hsep
    · exact absurd h (not_endsPlain_snoc (by decide))
  · obtain ⟨heq, -⟩ := clean_eq v hrest h
    have hloop := cleanLoop_forall (v.drop (volumeNameLen v)) (fun c hc => hv c (List.mem_of_mem_drop hc)) hsep
    rw [heq]
    refine fromSlash_forall (List.forall_mem_append.mpr ⟨fun c hc => hv c (List.mem_of_mem_take hc), ?_⟩) hsep
    split
    · exact hloop
    · rcases (cleanLoop (v.drop (volumeNameLen v))).postClean_cases with
        ⟨hpost, -⟩ | ⟨-, -, -, hpost⟩ | ⟨-, -, -, -, hpost⟩
      · rwa [hpost]
      · rw [hpost]
        exact List.forall_mem_cons.mpr ⟨hdot, List.forall_mem_cons.mpr ⟨hsep, hloop⟩⟩
      · rw [hpost]
        exact List.forall_mem_cons.mpr ⟨hsep, List.forall_mem_cons.mpr ⟨hdot, hloop⟩⟩

end bytes

end bounds

end SmartAwg.Go
