import Mathlib.Algebra.GroupWithZero.Nat
import SmartAwg.GoFilepath

/-!
The loop of `filepath.Clean` leaves steps up and names, and a path of steps up and names is left as it
is.
-/

namespace SmartAwg.Go

section elements

/-- An element that names something. -/
structure RealElement (e : Str) : Prop where
  ne_nil : e ≠ []
  ne_dot : e ≠ [0x2E]
  ne_up : e ≠ [0x2E, 0x2E]
  plain : ∀ c ∈ e, isPathSeparator c = false

/-- An element that `Clean` keeps. -/
def Kept (e : Str) : Prop := e = [0x2E, 0x2E] ∨ RealElement e

theorem Kept.ne_nil {e : Str} (h : Kept e) : e ≠ [] := by
  rcases h with rfl | h
  · exact List.cons_ne_nil _ _
  · exact h.ne_nil

theorem Kept.plain {e : Str} (h : Kept e) : ∀ c ∈ e, isPathSeparator c = false := by
  rcases h with rfl | h
  · decide +kernel
  · exact h.plain

/-- The text of elements, behind a separator when the path is rooted. -/
def pathText (rooted : Bool) (es : List Str) : Str :=
  (if rooted then [0x5C] else []) ++ join es [0x5C]

/-- Where the first element begins. -/
def startOf (rooted : Bool) : Nat := if rooted then 1 else 0

theorem join_snoc (es : List Str) (e sep : Str) :
    join (es ++ [e]) sep = join es sep ++ (if es = [] then [] else sep) ++ e := by
  induction es with
  | nil => simp
  | cons a es ih =>
    cases es with
    | nil => simp
    | cons b es =>
      rw [List.cons_append, List.cons_append, join_cons_cons, ← List.cons_append, ih,
        if_neg (List.cons_ne_nil _ _), if_neg (List.cons_ne_nil _ _), join_cons_cons]
      simp only [List.append_assoc]

theorem pathText_snoc (rooted : Bool) (es : List Str) (e : Str) :
    pathText rooted (es ++ [e]) = pathText rooted es ++ (if es = [] then [] else [0x5C]) ++ e := by
  rw [pathText, join_snoc, pathText]
  simp only [List.append_assoc]

theorem pathText_nil_length (rooted : Bool) : (pathText rooted []).length = startOf rooted := by
  cases rooted <;> rfl

/-- Only without elements does the text end where the first one begins. -/
theorem pathText_length_eq (rooted : Bool) (es : List Str) (h : ∀ e ∈ es, e ≠ []) :
    (pathText rooted es).length = startOf rooted ↔ es = [] := by
  refine ⟨fun hlen => ?_, fun hnil => by rw [hnil, pathText_nil_length]⟩
  cases es with
  | nil => rfl
  | cons e es =>
    have he := List.length_pos_iff.mpr (h e List.mem_cons_self)
    have hjoin : e.length ≤ (join (e :: es) [0x5C]).length := by
      cases es with
      | nil => rw [join_singleton]
      | cons b es =>
        rw [join_cons_cons, List.length_append]
        exact Nat.le_add_right _ _
    have hstart : (if rooted then [0x5C] else ([] : Str)).length = startOf rooted := by
      cases rooted <;> rfl
    rw [pathText, List.length_append, hstart] at hlen
    omega

theorem splitOnP_join (es : List Str) (hne : es ≠ []) (h : ∀ e ∈ es, ∀ c ∈ e, isPathSeparator c = false) :
    (join es [0x5C]).splitOnP isPathSeparator = es := by
  induction es with
  | nil => exact absurd rfl hne
  | cons e es ih =>
    have he := h e List.mem_cons_self
    cases es with
    | nil => rw [join_singleton, List.splitOnP_eq_singleton he]
    | cons b es =>
      rw [join_cons_cons, List.singleton_append, List.splitOnP_append_cons _ _ (by decide),
        List.splitOnP_eq_singleton he, ih (List.cons_ne_nil _ _) fun x hx => h x (List.mem_cons_of_mem _ hx)]
      rfl

/-- The pieces are the bytes between separators, and with a separator for each but one they are as long
as the whole. -/
theorem splitOnP_pieces (s : Str) :
    (∀ e ∈ s.splitOnP isPathSeparator, ∀ c ∈ e, c ∈ s ∧ isPathSeparator c = false) ∧
      ((s.splitOnP isPathSeparator).map fun e => e.length + 1).sum = s.length + 1 := by
  induction s with
  | nil => simp
  | cons x s ih =>
    obtain ⟨hplain, hsum⟩ := ih
    have hmore : ∀ e ∈ s.splitOnP isPathSeparator, ∀ c ∈ e, c ∈ x :: s ∧ isPathSeparator c = false :=
      fun e he c hc => ⟨List.mem_cons_of_mem _ (hplain e he c hc).1, (hplain e he c hc).2⟩
    rw [List.splitOnP_cons_eq_if_modifyHead]
    split
    · refine ⟨List.forall_mem_cons.mpr ⟨fun c hc => absurd hc List.not_mem_nil, hmore⟩, ?_⟩
      rw [List.map_cons, List.sum_cons, hsum, List.length_cons, List.length_nil]
      omega
    · rename_i hx
      cases hs : s.splitOnP isPathSeparator with
      | nil => exact absurd hs (List.splitOnP_ne_nil _ _)
      | cons e es =>
        rw [hs] at hmore hsum
        obtain ⟨he, hes⟩ := List.forall_mem_cons.mp hmore
        rw [List.modifyHead_cons]
        refine ⟨List.forall_mem_cons.mpr ⟨List.forall_mem_cons.mpr
          ⟨⟨List.mem_cons_self, by simpa using hx⟩, he⟩, hes⟩, ?_⟩
        rw [List.map_cons, List.sum_cons] at hsum ⊢
        rw [List.length_cons, List.length_cons]
        omega

end elements

section first

theorem LazyBuf.backtrack_eq (out : Str) (dotdot m w : Nat) (hlt : m < w) (hle : dotdot ≤ m)
    (hstop : m = dotdot ∨ out[m]?.any isPathSeparator = true)
    (hgo : ∀ i, m < i → i < w → out[i]?.any isPathSeparator = false) :
    backtrack out dotdot w = m := by
  induction w with
  | zero => exact absurd hlt (Nat.not_lt_zero m)
  | succ w ih =>
    rw [backtrack]
    by_cases hm : m = w
    · subst hm
      refine if_neg fun hc => ?_
      rcases hstop with rfl | hsep
      · exact Nat.lt_irrefl _ hc.1
      · exact hc.2 hsep
    · have hmw : m < w := by omega
      rw [if_pos ⟨by omega, by simp [hgo w hmw (Nat.lt_succ_self w)]⟩]
      exact ih hmw fun i hi hiw => hgo i hi (Nat.lt_succ_of_lt hiw)

/-- The output so far: steps up that cannot be undone, and names that can. -/
structure Resolved (rooted : Bool) (st : LazyBuf × Nat) (ups names : List Str) : Prop where
  within : st.1.w ≤ st.1.all.length
  text : st.1.text = pathText rooted (ups ++ names)
  stop : st.2 = (pathText rooted ups).length
  up : ∀ e ∈ ups, e = [0x2E, 0x2E]
  root : rooted = true → ups = []
  real : ∀ e ∈ names, RealElement e

variable {rooted : Bool} {st : LazyBuf × Nat} {ups names : List Str}

theorem Resolved.kept (h : Resolved rooted st ups names) : ∀ e ∈ ups ++ names, Kept e :=
  List.forall_mem_append.mpr ⟨fun e he => Or.inl (h.up e he), fun e he => Or.inr (h.real e he)⟩

theorem Resolved.w_eq (h : Resolved rooted st ups names) :
    st.1.w = (pathText rooted (ups ++ names)).length := by
  rw [← h.text, LazyBuf.text_length _ h.within]

/-- A new element stands behind a separator, unless it is the first. -/
theorem Resolved.separate_append (h : Resolved rooted st ups names) (e : Str) :
    ((st.1.separate (startOf rooted)).appendAll e).text = pathText rooted (ups ++ names ++ [e]) ∧
      ((st.1.separate (startOf rooted)).appendAll e).w ≤
        ((st.1.separate (startOf rooted)).appendAll e).all.length := by
  have hfirst : st.1.w = startOf rooted ↔ ups ++ names = [] := by
    rw [h.w_eq, pathText_length_eq rooted _ fun e he => (h.kept e he).ne_nil]
  have hsep : (st.1.separate (startOf rooted)).text =
      pathText rooted (ups ++ names) ++ (if ups ++ names = [] then [] else [0x5C]) := by
    unfold LazyBuf.separate
    by_cases hnil : ups ++ names = []
    · rw [if_neg (not_not.mpr (hfirst.mpr hnil)), if_pos hnil, List.append_nil, h.text]
    · rw [if_pos (mt hfirst.mp hnil), if_neg hnil, (st.1.text_append 0x5C h.within).1, h.text]
  obtain ⟨htext, hwithin⟩ := LazyBuf.text_appendAll _ e (st.1.separate_within (startOf rooted) h.within)
  exact ⟨by rw [htext, hsep, pathText_snoc], hwithin⟩

theorem pathText_append_length (rooted : Bool) (es fs : List Str) :
    (pathText rooted es).length ≤ (pathText rooted (es ++ fs)).length := by
  induction fs using List.reverseRecOn with
  | nil => rw [List.append_nil]
  | append_singleton fs e ih =>
    rw [← List.append_assoc, pathText_snoc, List.length_append, List.length_append]
    omega

/-- Going up takes the last name away. -/
theorem Resolved.back {e : Str} (h : Resolved rooted st ups (names ++ [e])) :
    Resolved rooted ({ st.1 with w := LazyBuf.backtrack st.1.all st.2 st.1.w }, st.2) ups names := by
  have he := h.real e (List.mem_append_right _ List.mem_cons_self)
  have htext := h.text
  rw [← List.append_assoc, pathText_snoc] at htext
  have hw := st.1.text_length h.within
  -- the bytes before the end are those of the text
  have hbyte : ∀ i < st.1.w, st.1.all[i]? = st.1.text[i]? := by
    intro i hi
    rw [LazyBuf.text, List.getElem?_take_of_lt hi]
  have hback : LazyBuf.backtrack st.1.all st.2 st.1.w = (pathText rooted (ups ++ names)).length := by
    have hpos := List.length_pos_iff.mpr he.ne_nil
    rw [htext, List.length_append, List.length_append] at hw
    apply LazyBuf.backtrack_eq
    · omega
    · rw [h.stop]
      exact pathText_append_length rooted ups names
    · by_cases hnil : ups ++ names = []
      · refine Or.inl ?_
        rw [h.stop, hnil, (List.append_eq_nil_iff.mp hnil).1]
      · refine Or.inr ?_
        rw [hbyte _ (by omega), htext, if_neg hnil, List.append_assoc,
          List.getElem?_append_right (Nat.le_refl _), Nat.sub_self]
        rfl
    · intro i hi hiw
      rw [hbyte i hiw, htext]
      have hshort : (if ups ++ names = [] then [] else ([0x5C] : Str)).length ≤ 1 := by
        split <;> simp
      rw [List.getElem?_append_right (by rw [List.length_append]; omega)]
      cases hc : e[i - (pathText rooted (ups ++ names) ++
        (if ups ++ names = [] then [] else [0x5C])).length]? with
      | none => rfl
      | some c => exact he.plain c (List.mem_of_getElem? hc)
  refine ⟨?_, ?_, h.stop, h.up, h.root, fun x hx => h.real x (List.mem_append_left _ hx)⟩
  · exact (LazyBuf.backtrack_le _ _ _).trans h.within
  · have htake : st.1.all.take (LazyBuf.backtrack st.1.all st.2 st.1.w) =
        st.1.text.take (LazyBuf.backtrack st.1.all st.2 st.1.w) := by
      rw [LazyBuf.text, List.take_take, Nat.min_eq_left (LazyBuf.backtrack_le _ _ _)]
    change st.1.all.take (LazyBuf.backtrack st.1.all st.2 st.1.w) = _
    rw [htake, hback, htext, List.append_assoc, List.take_left']
    rfl

/-- There is a name to take away when the output goes on after the steps up. -/
theorem Resolved.names_ne_nil_iff (h : Resolved rooted st ups names) : st.1.w > st.2 ↔ names ≠ [] := by
  rw [h.w_eq, h.stop]
  rcases List.eq_nil_or_concat' names with rfl | ⟨front, last, rfl⟩
  · rw [List.append_nil]
    simp
  · have hlast := List.length_pos_iff.mpr (h.real last (List.mem_append_right _ List.mem_cons_self)).ne_nil
    have hfront := pathText_append_length rooted ups front
    rw [← List.append_assoc, pathText_snoc, List.length_append, List.length_append]
    refine ⟨fun _ => List.append_ne_nil_of_right_ne_nil _ (List.cons_ne_nil _ _), fun _ => ?_⟩
    omega

theorem Resolved.step (h : Resolved rooted st ups names) (e : Str)
    (he : ∀ c ∈ e, isPathSeparator c = false) :
    ∃ ups' names', Resolved rooted (cleanElement rooted st e) ups' names' := by
  rw [show st = (st.1, st.2) from rfl, cleanElement]
  split
  · exact ⟨ups, names, h⟩
  rename_i hskip
  split
  · rename_i hup
    split
    · rename_i hlong
      obtain ⟨front, last, rfl⟩ := (List.eq_nil_or_concat' names).resolve_left (h.names_ne_nil_iff.mp hlong)
      exact ⟨ups, front, h.back⟩
    · rename_i hlong
      obtain rfl : names = [] := not_not.mp (mt h.names_ne_nil_iff.mpr hlong)
      cases rooted with
      | true => exact ⟨ups, [], h⟩
      | false =>
        -- one more step up that cannot be undone
        obtain ⟨htext, hwithin⟩ := h.separate_append [0x2E, 0x2E]
        rw [List.append_nil] at htext
        refine ⟨ups ++ [[0x2E, 0x2E]], [], hwithin, ?_, ?_, ?_, Bool.noConfusion, h.real⟩
        · rw [List.append_nil]
          exact htext
        · rw [← htext]
          exact (LazyBuf.text_length _ hwithin).symm
        · exact List.forall_mem_append.mpr ⟨h.up, List.forall_mem_singleton.mpr rfl⟩
  · rename_i hup
    obtain ⟨htext, hwithin⟩ := h.separate_append e
    refine ⟨ups, names ++ [e], hwithin, ?_, h.stop, h.up, h.root, ?_⟩
    · exact htext.trans (by rw [List.append_assoc])
    · refine List.forall_mem_append.mpr ⟨h.real, List.forall_mem_singleton.mpr ?_⟩
      exact ⟨fun hnil => hskip (Or.inl hnil), fun hdot => hskip (Or.inr hdot), hup, he⟩

theorem Resolved.foldl (es : List Str) (hes : ∀ e ∈ es, ∀ c ∈ e, isPathSeparator c = false)
    (h : Resolved rooted st ups names) :
    ∃ ups' names', Resolved rooted (es.foldl (cleanElement rooted) st) ups' names' := by
  induction es generalizing st ups names with
  | nil => exact ⟨ups, names, h⟩
  | cons e es ih =>
    obtain ⟨ups', names', h'⟩ := h.step e (hes e List.mem_cons_self)
    exact ih (fun x hx => hes x (List.mem_cons_of_mem _ hx)) h'

/-- Whether a path begins at the root. -/
def isRooted (path : Str) : Bool := path.head?.any isPathSeparator

/-- What the loop of `Clean` leaves of a path. -/
theorem cleanLoop_resolved (path : Str) :
    ∃ ups names, (cleanLoop path).text = pathText (isRooted path) (ups ++ names) ∧
      (∀ e ∈ ups, e = [0x2E, 0x2E]) ∧ (isRooted path = true → ups = []) ∧
      ∀ e ∈ names, RealElement e := by
  unfold cleanLoop isRooted
  split
  · rename_i hroot
    have hinit := LazyBuf.text_append ⟨path, none, 0⟩ 0x5C (Nat.zero_le _)
    obtain ⟨ups, names, h⟩ := Resolved.foldl _ (fun e he c hc => ((splitOnP_pieces (path.drop 1)).1 e he c hc).2)
      (⟨hinit.2, hinit.1, rfl, nofun, fun _ => rfl, nofun⟩ :
        Resolved true (LazyBuf.append ⟨path, none, 0⟩ 0x5C, 1) [] [])
    rw [hroot]
    exact ⟨ups, names, h.text, h.up, h.root, h.real⟩
  · rename_i hroot
    obtain ⟨ups, names, h⟩ := Resolved.foldl _ (fun e he c hc => ((splitOnP_pieces path).1 e he c hc).2)
      (⟨Nat.zero_le _, rfl, rfl, nofun, fun _ => rfl, nofun⟩ : Resolved false (⟨path, none, 0⟩, 0) [] [])
    rw [Bool.not_eq_true] at hroot
    rw [hroot]
    exact ⟨ups, names, h.text, h.up, h.root, h.real⟩

end first

section second
variable {rooted : Bool} {es : List Str}

/-- The buffer before anything is written. -/
def LazyBuf.initial (path : Str) : LazyBuf := ⟨path, none, 0⟩

theorem LazyBuf.appendAll_append (b : LazyBuf) (s t : Str) :
    (b.appendAll s).appendAll t = b.appendAll (s ++ t) := by
  rw [appendAll, appendAll, appendAll, List.foldl_append]

theorem LazyBuf.append_w (b : LazyBuf) (c : UInt8) : (b.append c).w = b.w + 1 := by
  unfold append
  split
  · split <;> rfl
  · rfl

theorem LazyBuf.initial_appendAll_w (path s : Str) : ((initial path).appendAll s).w = s.length := by
  induction s using List.reverseRecOn with
  | nil => rfl
  | append_singleton s c ih =>
    rw [← appendAll_append, List.length_append, ← ih]
    exact append_w _ c

/-- What the path begins with is not written. -/
theorem LazyBuf.appendAll_shared (path s : Str) (h : s <+: path) :
    (initial path).appendAll s = ⟨path, none, s.length⟩ := by
  induction s using List.reverseRecOn with
  | nil => rfl
  | append_singleton s c ih =>
    rw [← appendAll_append, ih ((List.prefix_append s [c]).trans h)]
    obtain ⟨rest, rfl⟩ := h
    simp [appendAll, append]

/-- Anything else is written over zeros. -/
theorem LazyBuf.appendAll_written (path s : Str) (h : ¬s <+: path) :
    (initial path).appendAll s =
      ⟨path, some (s ++ List.replicate (path.length - s.length) 0), s.length⟩ := by
  induction s using List.reverseRecOn with
  | nil => exact absurd List.nil_prefix h
  | append_singleton s c ih =>
    rw [← appendAll_append, List.length_append, List.length_singleton, List.append_assoc,
      List.singleton_append]
    by_cases hs : s <+: path
    · -- the first byte that differs
      rw [appendAll_shared path s hs, appendAll, List.foldl_cons, List.foldl_nil, append]
      have hdiffers : path[s.length]? ≠ some c := by
        intro hc
        obtain ⟨rest, rfl⟩ := hs
        rw [List.getElem?_append_right (Nat.le_refl _), Nat.sub_self] at hc
        obtain ⟨tail, rfl⟩ := List.head?_eq_some_iff.mp (List.head?_eq_getElem?.trans hc)
        exact h ⟨tail, by simp⟩
      simp only
      rw [if_neg hdiffers, List.prefix_iff_eq_take.mp hs, List.length_take,
        Nat.min_eq_left hs.length_le]
    · rw [ih hs, appendAll, List.foldl_cons, List.foldl_nil, append]
      simp only
      rw [List.take_left', List.drop_append, List.drop_of_length_le (Nat.le_succ _), List.nil_append,
        List.drop_replicate]
      · congr 5
        omega
      · rfl

/-- An element is written behind a separator, unless it is the first. -/
theorem LazyBuf.separate_appendAll (path s e : Str) (start : Nat) :
    (((initial path).appendAll s).separate start).appendAll e =
      (initial path).appendAll (s ++ (if s.length = start then [] else [0x5C]) ++ e) := by
  rw [separate, initial_appendAll_w]
  by_cases hstart : s.length = start
  · rw [if_neg (not_not.mpr hstart), if_pos hstart, List.append_nil, appendAll_append]
  · rw [if_pos hstart, if_neg hstart, ← appendAll_append, ← appendAll_append]
    rfl

theorem cleanElement_append (rooted : Bool) (path s e : Str) (dotdot : Nat) (he : RealElement e) :
    cleanElement rooted ((LazyBuf.initial path).appendAll s, dotdot) e =
      ((LazyBuf.initial path).appendAll
        (s ++ (if s.length = startOf rooted then [] else [0x5C]) ++ e), dotdot) := by
  rw [cleanElement, if_neg (not_or.mpr ⟨he.ne_nil, he.ne_dot⟩), if_neg he.ne_up,
    LazyBuf.separate_appendAll]
  rfl

/-- Names are written one after the other. -/
theorem foldl_names (rooted : Bool) (path : Str) (es names : List Str) (dotdot : Nat)
    (hes : ∀ e ∈ es, Kept e) (hnames : ∀ e ∈ names, RealElement e) :
    names.foldl (cleanElement rooted) ((LazyBuf.initial path).appendAll (pathText rooted es), dotdot) =
      ((LazyBuf.initial path).appendAll (pathText rooted (es ++ names)), dotdot) := by
  induction names generalizing es with
  | nil => rw [List.append_nil, List.foldl_nil]
  | cons e names ih =>
    obtain ⟨he, hnames⟩ := List.forall_mem_cons.mp hnames
    have hfirst := pathText_length_eq rooted es fun x hx => (hes x hx).ne_nil
    rw [List.foldl_cons, cleanElement_append rooted path _ e dotdot he]
    simp only [hfirst]
    rw [← pathText_snoc, ih (es ++ [e]) (List.forall_mem_append.mpr
      ⟨hes, List.forall_mem_singleton.mpr (Or.inr he)⟩) hnames, List.append_assoc, List.singleton_append]

/-- Steps up at the beginning of a relative path are written one after the other. -/
theorem foldl_ups (path : Str) (ups : List Str) (h : ∀ e ∈ ups, e = [0x2E, 0x2E]) :
    ups.foldl (cleanElement false) (LazyBuf.initial path, 0) =
      ((LazyBuf.initial path).appendAll (pathText false ups), (pathText false ups).length) := by
  induction ups using List.reverseRecOn with
  | nil => rfl
  | append_singleton ups e ih =>
    obtain ⟨hups, he⟩ := List.forall_mem_append.mp h
    obtain rfl := he e (List.mem_singleton_self e)
    have hfirst : (pathText false ups).length = 0 ↔ ups = [] :=
      pathText_length_eq false ups fun x hx => by rw [hups x hx]; exact List.cons_ne_nil _ _
    have hlong : ¬((LazyBuf.initial path).appendAll (pathText false ups)).w >
        (pathText false ups).length := by
      rw [LazyBuf.initial_appendAll_w]
      exact Nat.lt_irrefl _
    rw [List.foldl_append, ih hups, List.foldl_cons, List.foldl_nil, cleanElement,
      if_neg (by decide), if_pos rfl, if_neg hlong, Bool.not_false, if_pos rfl]
    simp only
    rw [LazyBuf.separate_appendAll, LazyBuf.initial_appendAll_w, pathText_snoc]
    simp only [hfirst]

theorem foldl_dots (rooted : Bool) (st : LazyBuf × Nat) (skip : List Str)
    (h : ∀ e ∈ skip, e = [0x2E]) : skip.foldl (cleanElement rooted) st = st := by
  induction skip with
  | nil => rfl
  | cons e skip ih =>
    obtain ⟨rfl, hrest⟩ := List.forall_mem_cons.mp h
    have hdot : cleanElement rooted st [0x2E] = st := by
      obtain ⟨out, dotdot⟩ := st
      rw [cleanElement, if_pos (Or.inr rfl)]
    rw [List.foldl_cons, hdot, ih hrest]

/-- A path that is resolved, but for dots at its beginning, is written as it is. -/
theorem cleanLoop_of_resolved (path : Str) (skip ups names : List Str)
    (hskip : ∀ e ∈ skip, e = [0x2E]) (hups : ∀ e ∈ ups, e = [0x2E, 0x2E])
    (hroot : isRooted path = true → ups = []) (hnames : ∀ e ∈ names, RealElement e)
    (hsplit : (path.drop (startOf (isRooted path))).splitOnP isPathSeparator = skip ++ (ups ++ names)) :
    cleanLoop path = (LazyBuf.initial path).appendAll (pathText (isRooted path) (ups ++ names)) := by
  cases hr : isRooted path with
  | true =>
    rw [hr] at hsplit
    obtain rfl := hroot hr
    change (path.drop 1).splitOnP isPathSeparator = _ at hsplit
    rw [cleanLoop, if_pos (show path.head?.any isPathSeparator = true from hr), hsplit, List.foldl_append, foldl_dots true _ skip hskip]
    exact congrArg Prod.fst (foldl_names true path [] names 1 nofun hnames)
  | false =>
    rw [hr] at hsplit
    change path.splitOnP isPathSeparator = _ at hsplit
    have hnot : ¬path.head?.any isPathSeparator = true := by
      rw [← isRooted, hr]
      exact Bool.false_ne_true
    rw [cleanLoop, if_neg hnot, hsplit, List.foldl_append, foldl_dots false _ skip hskip,
      List.foldl_append]
    change (names.foldl _ (ups.foldl _ (LazyBuf.initial path, 0))).1 = _
    rw [foldl_ups path ups hups, foldl_names false path ups names _ (fun e he => Or.inl (hups e he)) hnames]

/-- Elements that need no cleaning. -/
def ResolvedPath (rooted : Bool) (es : List Str) : Prop :=
  ∃ ups names, es = ups ++ names ∧ (∀ e ∈ ups, e = [0x2E, 0x2E]) ∧ (rooted = true → ups = []) ∧
    ∀ e ∈ names, RealElement e

theorem ResolvedPath.kept (h : ResolvedPath rooted es) : ∀ e ∈ es, Kept e := by
  obtain ⟨ups, names, rfl, hups, -, hnames⟩ := h
  exact List.forall_mem_append.mpr ⟨fun e he => Or.inl (hups e he), fun e he => Or.inr (hnames e he)⟩

theorem ResolvedPath.split (h : ResolvedPath rooted es) (hne : es ≠ []) :
    (join es [0x5C]).splitOnP isPathSeparator = es :=
  splitOnP_join es hne fun e he => (h.kept e he).plain

theorem join_head (es : List Str) (e : Str) (sep : Str) : ∃ rest, join (e :: es) sep = e ++ rest := by
  cases es with
  | nil => exact ⟨[], by rw [join_singleton, List.append_nil]⟩
  | cons b es => exact ⟨_, join_cons_cons e b es sep⟩

theorem ResolvedPath.isRooted_eq (h : ResolvedPath rooted es)
    (hne : es ≠ []) : isRooted (pathText rooted es) = rooted := by
  cases rooted with
  | true => rfl
  | false =>
    cases es with
    | nil => exact absurd rfl hne
    | cons e es =>
      have he := h.kept e List.mem_cons_self
      obtain ⟨rest, hrest⟩ := join_head es e [0x5C]
      rw [pathText, if_neg Bool.false_ne_true, List.nil_append, hrest]
      cases e with
      | nil => exact absurd rfl he.ne_nil
      | cons c e => exact he.plain c List.mem_cons_self

/-- A path that is resolved is left as it is. -/
theorem cleanLoop_pathText (h : ResolvedPath rooted es) (hne : es ≠ []) :
    cleanLoop (pathText rooted es) = ⟨pathText rooted es, none, (pathText rooted es).length⟩ := by
  have hr := h.isRooted_eq hne
  have hdrop : (pathText rooted es).drop (startOf rooted) = join es [0x5C] := by
    cases rooted <;> rfl
  have hsplit := h.split hne
  obtain ⟨ups, names, rfl, hups, hroot, hnames⟩ := h
  rw [cleanLoop_of_resolved (pathText rooted (ups ++ names)) [] ups names nofun hups
    (fun hrooted => hroot (hr ▸ hrooted)) hnames (by rw [hr, hdrop, hsplit, List.nil_append]), hr]
  exact LazyBuf.appendAll_shared _ _ (List.prefix_refl _)

/-- A dot in front of a resolved path is left out, and the rest is written over zeros. -/
theorem cleanLoop_dotted (h : ResolvedPath rooted es) (hne : es ≠ [])
    (path : Str) (hrooted : isRooted path = rooted) (hlen : path.length = (pathText rooted es).length + 2)
    (hdrop : path.drop (startOf rooted) = 0x2E :: 0x5C :: join es [0x5C])
    (hdiffers : ¬pathText rooted es <+: path) :
    cleanLoop path = ⟨path, some (pathText rooted es ++ [0, 0]), (pathText rooted es).length⟩ := by
  have hsplit : (path.drop (startOf rooted)).splitOnP isPathSeparator = [[0x2E]] ++ es := by
    rw [hdrop, show (0x2E : UInt8) :: 0x5C :: join es [0x5C] = [0x2E] ++ 0x5C :: join es [0x5C] from rfl,
      List.splitOnP_append_cons _ _ (by decide), List.splitOnP_eq_singleton (by decide +kernel), h.split hne]
  obtain ⟨ups, names, rfl, hups, hroot, hnames⟩ := h
  rw [cleanLoop_of_resolved path [[0x2E]] ups names (List.forall_mem_singleton.mpr rfl) hups
    (fun hr => hroot (hrooted ▸ hr)) hnames (by rw [hrooted, hsplit]), hrooted,
    LazyBuf.appendAll_written path _ hdiffers, hlen, Nat.add_sub_cancel_left]
  rfl

end second

end SmartAwg.Go
