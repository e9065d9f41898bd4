import Mathlib.Data.List.TakeWhile
import SmartAwg.GoStrings

/-!
`path/filepath` as it works on Windows: volume names, `Clean`, `Base` and `Ext`.
-/

namespace SmartAwg.Go

def isPathSeparator (b : UInt8) : Bool := b == 0x5C || b == 0x2F

def upperByte (b : UInt8) : UInt8 := if 0x61 ≤ b ∧ b ≤ 0x7A then b - 32 else b

/-- `pathHasPrefixFold`: separators are alike and ASCII letters are compared without case. -/
def pathBeginsFold : Str → Str → Bool
  | [], [] => true
  | c :: _, [] => isPathSeparator c
  | [], _ :: _ => false
  | c :: s, p :: front =>
    (if isPathSeparator p then isPathSeparator c else upperByte p == upperByte c) &&
      pathBeginsFold s front

/-- The end of the host and the share of a UNC path, counted from `i`; `count` separators were
seen. -/
def uncFrom (i count : Nat) : Str → Nat
  | [] => i
  | c :: rest =>
    if isPathSeparator c then if count + 1 = 2 then i else uncFrom (i + 1) (count + 1) rest
    else uncFrom (i + 1) count rest

/-- `uncLen`. -/
def uncLen (path : Str) (start : Nat) : Nat :=
  if start ≤ path.length then uncFrom start 0 (path.drop start) else path.length

/-- The length of a local device path up to the end of the device's name. -/
def deviceLen (path : Str) : Nat :=
  if path.length = 3 then 3
  else 4 + ((path.drop 4).takeWhile fun c => !isPathSeparator c).length

def volumeNameLen (path : Str) : Nat :=
  if 2 ≤ path.length ∧ path[1]? = some 0x3A then 2
  else if !(path.head?.any isPathSeparator) then 0
  -- \\.\UNC
  else if pathBeginsFold path [0x5C, 0x5C, 0x2E, 0x5C, 0x55, 0x4E, 0x43] then uncLen path 8
  -- \\. and \\? and \??
  else if pathBeginsFold path [0x5C, 0x5C, 0x2E] || pathBeginsFold path [0x5C, 0x5C, 0x3F] ||
      pathBeginsFold path [0x5C, 0x3F, 0x3F] then deviceLen path
  else if path[1]?.any isPathSeparator then uncLen path 2
  else 0

def fromSlash (path : Str) : Str := path.map fun c => if c = 0x2F then 0x5C else c

/-- The output of `Clean`, which shares the bytes of the path until one differs. -/
structure LazyBuf where
  path : Str
  buf : Option Str
  w : Nat

namespace LazyBuf

def all (b : LazyBuf) : Str := b.buf.getD b.path

def text (b : LazyBuf) : Str := b.all.take b.w

def append (b : LazyBuf) (c : UInt8) : LazyBuf :=
  match b.buf with
  | none =>
    if b.path[b.w]? = some c then { b with w := b.w + 1 }
    else
      { b with
        buf := some (b.path.take b.w ++ c :: List.replicate (b.path.length - (b.w + 1)) 0)
        w := b.w + 1 }
  | some buf => { b with buf := some (buf.take b.w ++ c :: buf.drop (b.w + 1)), w := b.w + 1 }

def appendAll (b : LazyBuf) (s : Str) : LazyBuf := s.foldl append b

/-- A separator, unless the output is at its start. -/
def separate (b : LazyBuf) (start : Nat) : LazyBuf := if b.w ≠ start then b.append 0x5C else b

/-- One step back, and then on to the separator or to `dotdot`. -/
def backtrack (out : Str) (dotdot : Nat) : Nat → Nat
  | 0 => 0
  | w + 1 =>
    if dotdot < w ∧ ¬ out[w]?.any isPathSeparator then backtrack out dotdot w else w

/-- `postClean`: a relative path must not become an absolute one. -/
def postClean (b : LazyBuf) : LazyBuf :=
  match b.buf with
  | none => b
  | some buf =>
    if 0x3A ∈ buf.takeWhile fun c => !isPathSeparator c then
      { b with buf := some (0x2E :: 0x5C :: buf), w := b.w + 2 }
    else if buf.head?.any isPathSeparator ∧ buf[1]? = some 0x3F ∧ buf[2]? = some 0x3F then
      { b with buf := some (0x5C :: 0x2E :: buf), w := b.w + 2 }
    else b

end LazyBuf

/-- One element of the path; `dotdot` is where going up must stop. -/
def cleanElement (rooted : Bool) : LazyBuf × Nat → Str → LazyBuf × Nat
  | (out, dotdot), e =>
    if e = [] ∨ e = [0x2E] then (out, dotdot)
    else if e = [0x2E, 0x2E] then
      if out.w > dotdot then ({ out with w := LazyBuf.backtrack out.all dotdot out.w }, dotdot)
      else if !rooted then
        let out := (out.separate 0).appendAll [0x2E, 0x2E]
        (out, out.w)
      else (out, dotdot)
    else ((out.separate (if rooted then 1 else 0)).appendAll e, dotdot)

/-- The loop of `Clean` over a path without its volume name. -/
def cleanLoop (path : Str) : LazyBuf :=
  if path.head?.any isPathSeparator then
    (((path.drop 1).splitOnP isPathSeparator).foldl (cleanElement true)
      (LazyBuf.append ⟨path, none, 0⟩ 0x5C, 1)).1
  else ((path.splitOnP isPathSeparator).foldl (cleanElement false) (⟨path, none, 0⟩, 0)).1

def clean (originalPath : Str) : Str :=
  let volLen := volumeNameLen originalPath
  let path := originalPath.drop volLen
  if path = [] then
    if volLen > 1 ∧ originalPath.head?.any isPathSeparator ∧ originalPath[1]?.any isPathSeparator then
      fromSlash originalPath
    else originalPath ++ [0x2E]
  else
    let out := cleanLoop path
    let out := if out.w = 0 then out.append 0x2E else out
    let out := if volLen ≠ 0 then out else out.postClean
    fromSlash (originalPath.take volLen ++ out.text)

/-- The bytes after the last separator. -/
def lastElement (path : Str) : Str :=
  (path.reverse.takeWhile fun c => !isPathSeparator c).reverse

def base (path : Str) : Str :=
  if path = [] then [0x2E]
  else
    let path := (path.reverse.dropWhile isPathSeparator).reverse
    let path := lastElement (path.drop (volumeNameLen path))
    if path = [] then [0x5C] else path

def ext (path : Str) : Str :=
  match lastIndexByte (lastElement path) 0x2E with
  | some i => (lastElement path).drop i
  | none => []

-- C:\a\.\b\..\c.exe, and a relative path that would become a drive.
example : clean (ascii "C:\\a/.\\b\\..\\c.exe") = ascii "C:\\a\\c.exe" := by decide +kernel
example : clean (ascii "a/../c:") = ascii ".\\c:" := by decide +kernel
example : base (ascii "C:\\dir\\App.exe") = ascii "App.exe" := by decide +kernel

section clean

theorem LazyBuf.text_append (b : LazyBuf) (c : UInt8) (h : b.w ≤ b.all.length) :
    (b.append c).text = b.text ++ [c] ∧ (b.append c).w ≤ (b.append c).all.length := by
  obtain ⟨path, buf, w⟩ := b
  cases buf with
  | none =>
    simp only [all, Option.getD_none] at h
    unfold append
    simp only
    split
    · rename_i hc
      obtain ⟨hlt, hc⟩ := List.getElem?_eq_some_iff.mp hc
      simp only [text, all, Option.getD_none]
      exact ⟨by rw [List.take_succ_eq_append_getElem hlt, hc], hlt⟩
    · have hlen : (path.take w).length = w := by rw [List.length_take]; omega
      simp only [text, all, Option.getD_some, Option.getD_none]
      constructor
      · rw [List.take_append, hlen, List.take_take, Nat.min_eq_right (Nat.le_succ w),
          Nat.add_sub_cancel_left]
        rfl
      · rw [List.length_append, hlen, List.length_cons]
        omega
  | some buf =>
    simp only [all, Option.getD_some] at h
    have hlen : (buf.take w).length = w := by rw [List.length_take]; omega
    simp only [append, text, all, Option.getD_some]
    constructor
    · rw [List.take_append, hlen, List.take_take, Nat.min_eq_right (Nat.le_succ w),
        Nat.add_sub_cancel_left]
      rfl
    · rw [List.length_append, hlen, List.length_cons]
      omega

theorem LazyBuf.text_appendAll (b : LazyBuf) (s : Str) (h : b.w ≤ b.all.length) :
    (b.appendAll s).text = b.text ++ s ∧ (b.appendAll s).w ≤ (b.appendAll s).all.length := by
  induction s generalizing b with
  | nil => exact ⟨by simp [appendAll], h⟩
  | cons c s ih =>
    obtain ⟨htext, hw⟩ := b.text_append c h
    obtain ⟨hrest, hw'⟩ := ih (b.append c) hw
    refine ⟨?_, hw'⟩
    rw [appendAll, List.foldl_cons, ← appendAll, hrest, htext, List.append_assoc, List.singleton_append]

theorem LazyBuf.separate_within (b : LazyBuf) (start : Nat) (h : b.w ≤ b.all.length) :
    (b.separate start).w ≤ (b.separate start).all.length := by
  unfold separate
  split
  · exact (b.text_append 0x5C h).2
  · exact h

theorem LazyBuf.backtrack_le (out : Str) (dotdot w : Nat) : backtrack out dotdot w ≤ w := by
  induction w with
  | zero => simp [backtrack]
  | succ w ih =>
    unfold backtrack
    split <;> omega

/-- A real element ends up at the end of the output. -/
theorem cleanElement_real (rooted : Bool) (b : LazyBuf) (dotdot : Nat) (e : Str)
    (h : b.w ≤ b.all.length) (he : e ≠ [] ∧ e ≠ [0x2E] ∧ e ≠ [0x2E, 0x2E]) :
    ∃ front, (cleanElement rooted (b, dotdot) e).1.text = front ++ e := by
  rw [cleanElement, if_neg (not_or.mpr ⟨he.1, he.2.1⟩), if_neg he.2.2]
  exact ⟨_, (LazyBuf.text_appendAll _ e (b.separate_within _ h)).1⟩

theorem cleanElement_within (rooted : Bool) (st : LazyBuf × Nat) (e : Str)
    (h : st.1.w ≤ st.1.all.length) :
    (cleanElement rooted st e).1.w ≤ (cleanElement rooted st e).1.all.length := by
  obtain ⟨b, dotdot⟩ := st
  rw [cleanElement]
  split
  · exact h
  split
  · split
    · exact (LazyBuf.backtrack_le _ _ _).trans h
    split
    · exact (LazyBuf.text_appendAll _ _ (b.separate_within 0 h)).2
    · exact h
  · exact (LazyBuf.text_appendAll _ e (b.separate_within _ h)).2

theorem foldl_cleanElement_within (rooted : Bool) (es : List Str) (st : LazyBuf × Nat)
    (h : st.1.w ≤ st.1.all.length) :
    (es.foldl (cleanElement rooted) st).1.w ≤ (es.foldl (cleanElement rooted) st).1.all.length := by
  induction es generalizing st with
  | nil => exact h
  | cons x es ih => exact ih _ (cleanElement_within rooted st x h)

theorem foldl_cleanElement_real (rooted : Bool) (front : List Str) (e : Str) (st : LazyBuf × Nat)
    (h : st.1.w ≤ st.1.all.length) (he : e ≠ [] ∧ e ≠ [0x2E] ∧ e ≠ [0x2E, 0x2E]) :
    ∃ s, ((front ++ [e]).foldl (cleanElement rooted) st).1.text = s ++ e := by
  rw [List.foldl_append, List.foldl_cons, List.foldl_nil]
  exact cleanElement_real rooted _ _ e (foldl_cleanElement_within rooted front st h) he

theorem lastElement_cases (s : Str) :
    (lastElement s = s ∨ ∃ front c, isPathSeparator c = true ∧ s = front ++ c :: lastElement s) ∧
      ∀ c ∈ lastElement s, isPathSeparator c = false := by
  have hsplit := List.takeWhile_append_dropWhile (p := fun c => !isPathSeparator c) (l := s.reverse)
  have hlast : ∀ c ∈ lastElement s, isPathSeparator c = false := fun c hc => by
    simpa using List.mem_takeWhile_imp (List.mem_reverse.mp hc)
  refine ⟨?_, hlast⟩
  cases hdrop : s.reverse.dropWhile fun c => !isPathSeparator c with
  | nil =>
    rw [hdrop, List.append_nil] at hsplit
    exact Or.inl (by rw [lastElement, hsplit, List.reverse_reverse])
  | cons c rest =>
    refine Or.inr ⟨rest.reverse, c, ?_, ?_⟩
    · have hhead : s.reverse.dropWhile (fun c => !isPathSeparator c) ≠ [] := by simp [hdrop]
      have := List.head_dropWhile_not (fun c => !isPathSeparator c) hhead
      simpa [hdrop] using this
    · have := congrArg List.reverse hsplit
      rw [hdrop, List.reverse_append, List.reverse_cons, List.reverse_reverse] at this
      rw [lastElement]
      simpa using this.symm

/-- The last piece between separators is the last element. -/
theorem splitOnP_last (s : Str) :
    ∃ front, s.splitOnP isPathSeparator = front ++ [lastElement s] := by
  obtain ⟨hwhole | ⟨front, c, hc, hs⟩, hlast⟩ := lastElement_cases s
  · refine ⟨[], ?_⟩
    rw [hwhole] at hlast ⊢
    exact List.splitOnP_eq_singleton hlast
  · refine ⟨front.splitOnP isPathSeparator, ?_⟩
    conv_lhs => rw [hs]
    rw [List.splitOnP_append_cons _ _ hc, List.splitOnP_eq_singleton hlast]

theorem lastElement_cons (c : UInt8) (s : Str) (hc : isPathSeparator c = true) :
    lastElement (c :: s) = lastElement s := by
  rw [lastElement, List.reverse_cons, lastElement, List.takeWhile_append]
  split
  · rename_i hall
    have hwhole := List.IsPrefix.eq_of_length ( List.takeWhile_prefix _) hall
    simp [hc, hwhole]
  · rfl

/-- A path whose last element is real is not cleaned away. -/
theorem cleanLoop_real (path : Str)
    (h : lastElement path ≠ [] ∧ lastElement path ≠ [0x2E] ∧ lastElement path ≠ [0x2E, 0x2E]) :
    ∃ s, (cleanLoop path).text = s ++ lastElement path := by
  unfold cleanLoop
  split
  · rename_i hroot
    cases path with
    | nil => cases hroot
    | cons c rest =>
      have hc : isPathSeparator c = true := by simpa using hroot
      rw [lastElement_cons c rest hc] at h ⊢
      obtain ⟨front, hfront⟩ := splitOnP_last rest
      rw [List.drop_one, List.tail_cons, hfront]
      exact foldl_cleanElement_real true front _ _ (LazyBuf.text_append _ _ (Nat.zero_le _)).2 h
  · obtain ⟨front, hfront⟩ := splitOnP_last path
    rw [hfront]
    exact foldl_cleanElement_real false front _ _ (Nat.zero_le _) h

theorem cleanLoop_within (path : Str) : (cleanLoop path).w ≤ (cleanLoop path).all.length := by
  unfold cleanLoop
  split
  · exact foldl_cleanElement_within true _ _ (LazyBuf.text_append _ _ (Nat.zero_le _)).2
  · exact foldl_cleanElement_within false _ _ (Nat.zero_le _)

theorem LazyBuf.text_length (b : LazyBuf) (h : b.w ≤ b.all.length) : b.text.length = b.w := by
  rw [text, List.length_take]
  omega

/-- The output is never left empty. -/
theorem cleanLoop_dot_text (path : Str) :
    (if (cleanLoop path).w = 0 then (cleanLoop path).append 0x2E else cleanLoop path).text ≠ [] := by
  have hwithin := cleanLoop_within path
  split
  · rw [((cleanLoop path).text_append 0x2E hwithin).1]
    simp
  · rename_i hpos
    intro hnil
    have := (cleanLoop path).text_length hwithin
    rw [hnil] at this
    exact hpos this.symm

theorem LazyBuf.postClean_text (b : LazyBuf) :
    b.postClean.text = b.text ∨ 2 ≤ b.postClean.text.length := by
  unfold postClean
  split
  · exact Or.inl rfl
  rename_i buf hbuf
  split
  · exact Or.inr (by simp [text, all])
  split
  · exact Or.inr (by simp [text, all])
  · exact Or.inl rfl

theorem fromSlash_eq_dot (s : Str) (h : fromSlash s = [0x2E]) : s = [0x2E] := by
  obtain ⟨c, rfl, hc⟩ := List.map_eq_singleton_iff.mp h
  split at hc
  · exact absurd hc (by decide)
  · rw [hc]

/-- Cleaning keeps a path with a real last element apart from the empty path. -/
theorem clean_ne_dot (path : Str)
    (h : lastElement path ≠ [] ∧ lastElement path ≠ [0x2E] ∧ lastElement path ≠ [0x2E, 0x2E]) :
    clean path ≠ [0x2E] := by
  intro hdot
  have hne : path ≠ [] := by
    rintro rfl
    exact h.1 rfl
  unfold clean at hdot
  simp only at hdot
  split at hdot
  · split at hdot
    · rename_i hunc
      rw [fromSlash_eq_dot path hdot] at hunc
      exact absurd hunc.2.1 (by decide)
    · have hlen := congrArg List.length hdot
      rw [List.length_append, List.length_singleton] at hlen
      exact hne (List.eq_nil_of_length_eq_zero (by omega))
  · have htext := fromSlash_eq_dot _ hdot
    by_cases hvol : volumeNameLen path = 0
    · obtain ⟨s, hs⟩ := cleanLoop_real path h
      have hpos : (cleanLoop path).w ≠ 0 := by
        intro hzero
        rw [LazyBuf.text, hzero, List.take_zero] at hs
        exact h.1 (List.append_eq_nil_iff.mp hs.symm).2
      rw [hvol, List.take_zero, List.nil_append, List.drop_zero, if_neg hpos,
        if_neg (not_not.mpr rfl)] at htext
      rcases (cleanLoop path).postClean_text with hpost | hlong
      · -- the text is one dot, so the last element would be empty or that dot
        rw [hpost, hs] at htext
        rcases List.append_eq_singleton_iff.mp htext with ⟨-, hdot⟩ | ⟨-, hnil⟩
        · exact h.2.1 hdot
        · exact h.1 hnil
      · rw [htext] at hlong
        exact absurd hlong (by decide)
    · rw [if_pos hvol] at htext
      have hfront : path.take (volumeNameLen path) ≠ [] := by
        simp [hne, hvol]
      rcases List.append_eq_singleton_iff.mp htext with ⟨hnil, -⟩ | ⟨-, hnil⟩
      · exact hfront hnil
      · exact cleanLoop_dot_text _ hnil

/-- A path with the extension of a program ends with a real element. -/
theorem lastElement_of_exe (path : Str) (h : equalFold (ext path) (ascii ".exe") = true) :
    lastElement path ≠ [] ∧ lastElement path ≠ [0x2E] ∧ lastElement path ≠ [0x2E, 0x2E] := by
  have hnot : ∀ e ∈ [[], [0x2E], [0x2E, 0x2E]], equalFold
      (match lastIndexByte e 0x2E with | some i => e.drop i | none => []) (ascii ".exe") = false := by
    decide +kernel
  have hne : ∀ e ∈ [[], [0x2E], [0x2E, 0x2E]], lastElement path ≠ e := by
    intro e he heq
    rw [ext, heq, hnot e he] at h
    cases h
  exact ⟨hne _ (by simp), hne _ (by simp), hne _ (by simp)⟩

end clean

end SmartAwg.Go
