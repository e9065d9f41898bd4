import Mathlib.Data.List.Basic
import SmartAwg.GoStrings
import SmartAwg.RingBuffer

/-!
The log that the processes share: 2048 lines of 512 bytes in a ring, with a counter of 32 bits
that is never reduced. A line is read up to its first zero byte, and a line without a time stamp
is no line. `FollowFromCursor` reads on from where it stopped; a cursor is a slot of the ring.
-/

namespace SmartAwg.RingLog

open Go

section memory

def maxLogLineLength : Nat := 512

def maxTagLength : Nat := 5

abbrev maxLines : Nat := 2048

structure LogLine where
  timeNs : Int
  line : Str

structure LogMem where
  nextIndex : UInt32
  lines : Fin maxLines → LogLine

def blankLine : LogLine := ⟨0, List.replicate maxLogLineLength 0⟩

/-- A log without lines; a new one starts at index 0. -/
def LogMem.blank (start : UInt32) : LogMem := ⟨start, fun _ => blankLine⟩

structure Ringlogger where
  tag : Str
  log : Option LogMem
  readOnly : Bool

instance : NeZero maxLines := ⟨by decide⟩

/-- `index % maxLines`. -/
def slotOf (i : UInt32) : Fin maxLines := Fin.ofNat maxLines i.toNat

/-- `copy(line[off:], src)`, with the line after it. -/
def copyAt (line : Str) (off : Nat) (src : Str) : Str :=
  line.take off ++ src.take (line.length - off) ++ line.drop (off + src.length)

/-- The bytes that `WriteWithTimestamp` puts into a line. -/
def fillLine (tag p : Str) : Str :=
  let tooLong := 3 + p.length + tag.length > maxLogLineLength - 1
  let textLen := if tooLong then maxLogLineLength - 1 else 3 + p.length + tag.length
  let p := if tooLong then p.take (maxLogLineLength - 1 - 3 - tag.length) else p
  let line := ((List.replicate maxLogLineLength 0).set textLen 0).set 0 0
  let line := copyAt line 1 tag
  let line := (line.set (1 + tag.length) 0x5D).set (2 + tag.length) 0x20
  (copyAt line (3 + tag.length) p).set 0 0x5B

def LogMem.put (log : LogMem) (tag p : Str) (ts : Int) : LogMem where
  nextIndex := log.nextIndex + 1
  lines := Function.update log.lines (slotOf log.nextIndex) ⟨ts, fillLine tag p⟩

/-- `io.ErrShortWrite` and `io.EOF`. -/
inductive LogErr where
  | shortWrite
  | eof
  deriving DecidableEq

def Ringlogger.writeWithTimestamp (rl : Ringlogger) (p : Str) (ts : Int) :
    (Nat × Option LogErr) × Ringlogger :=
  if rl.readOnly then ((0, some .shortWrite), rl)
  else if (trimSpace p).length = 0 then ((p.length, none), rl)
  else
    match rl.log with
    | none => ((0, some .eof), rl)
    | some log => ((p.length, none), { rl with log := some (log.put rl.tag (trimSpace p) ts) })

end memory

section readers

structure FollowLine where
  line : Str
  stamp : Int
  deriving DecidableEq

/-- The part of a line before the first zero byte, unless there is none or nothing is before it. -/
def LogLine.text (l : LogLine) : Option Str :=
  match indexByte l.line 0 with
  | none => none
  | some index => if index < 1 then none else some (l.line.take index)

/-- The loop of `WriteTo`; `format` is how a time is printed. -/
def writeLoop (format : Int → Str) (log : LogMem) : Nat → UInt32 → Str
  | 0, _ => []
  | fuel + 1, l =>
    let line := log.lines (slotOf (log.nextIndex + l))
    if line.timeNs = 0 then writeLoop format log fuel (l + 1)
    else
      match line.text with
      | none => writeLoop format log fuel (l + 1)
      | some text =>
        format line.timeNs ++ ascii ": " ++ text ++ [0x0A] ++ writeLoop format log fuel (l + 1)

/-- `WriteTo` with a writer that takes everything. -/
def Ringlogger.writeTo (format : Int → Str) (rl : Ringlogger) : Except LogErr Str :=
  match rl.log with
  | none => .error .eof
  | some log => .ok (writeLoop format log maxLines 0)

/-- `^uint32(0)`. -/
def cursorAll : UInt32 := 0xFFFFFFFF

/-- A line whose text is empty is passed over. -/
def appendLine (followLines : List FollowLine) (line : LogLine) : List FollowLine :=
  match line.text with
  | none => followLines
  | some text => followLines ++ [⟨text, line.timeNs⟩]

def followLoop (log : LogMem) (cursor : UInt32) :
    Nat → UInt32 → List FollowLine → UInt32 → List FollowLine × UInt32
  | 0, _, followLines, nextCursor => (followLines, nextCursor)
  | fuel + 1, i, followLines, nextCursor =>
    let line := log.lines (slotOf i)
    if cursor ≠ cursorAll ∧ slotOf i = slotOf log.nextIndex then (followLines, nextCursor)
    else if line.timeNs = 0 then
      if cursor = cursorAll then followLoop log cursor fuel (i + 1) followLines nextCursor
      else (followLines, nextCursor)
    else followLoop log cursor fuel (i + 1) (appendLine followLines line) ((i + 1) % 2048)

def LogMem.followFromCursor (log : LogMem) (cursor : UInt32) : List FollowLine × UInt32 :=
  followLoop log cursor maxLines (if cursor = cursorAll then log.nextIndex else cursor) [] cursor

def Ringlogger.followFromCursor (rl : Ringlogger) (cursor : UInt32) : List FollowLine × UInt32 :=
  match rl.log with
  | none => ([], cursor)
  | some log => log.followFromCursor cursor

end readers

section lines

/-- What a line says: its tag and its text, cut so that a zero byte still follows. -/
def frame (tag p : Str) : Str := (0x5B :: (tag ++ [0x5D, 0x20] ++ p)).take (maxLogLineLength - 1)

theorem copyAt_zeros (a src : Str) (k : Nat) (h : src.length ≤ k) :
    copyAt (a ++ List.replicate k 0) a.length src = a ++ src ++ List.replicate (k - src.length) 0 := by
  have hroom : (a ++ List.replicate k 0).length - a.length = k := by
    rw [List.length_append, List.length_replicate, Nat.add_sub_cancel_left]
  rw [copyAt, hroom, List.take_left, List.take_of_length_le h, List.drop_append, List.drop_eq_nil_of_le
    (Nat.le_add_right _ _), List.nil_append, Nat.add_sub_cancel_left, List.drop_replicate]

theorem set_zeros (a : Str) (k : Nat) (b : UInt8) :
    (a ++ List.replicate (k + 1) 0).set a.length b = a ++ b :: List.replicate k 0 := by
  rw [List.set_append_right _ _ (Nat.le_refl _), Nat.sub_self, List.replicate_succ, List.set_cons_zero]

/-- What is left of the text after the cut. -/
theorem frame_eq (tag p : Str) (h : tag.length ≤ maxTagLength) :
    frame tag p = 0x5B :: (tag ++ [0x5D, 0x20] ++
      if 3 + p.length + tag.length > maxLogLineLength - 1
      then p.take (maxLogLineLength - 1 - 3 - tag.length) else p) := by
  have htag : tag.length ≤ 5 := h
  have hmax : maxLogLineLength = 512 := rfl
  rw [frame, hmax]
  split
  · rw [List.take_cons (by omega), List.take_append, List.take_of_length_le (by simp; omega)]
    congr 3
    simp only [List.length_append, List.length_cons, List.length_nil]
    omega
  · rw [List.take_of_length_le]
    simp only [List.length_cons, List.length_append, List.length_nil]
    omega

theorem fillLine_eq (tag p : Str) (h : tag.length ≤ maxTagLength) :
    fillLine tag p = frame tag p ++ List.replicate (maxLogLineLength - (frame tag p).length) 0 := by
  have htag : tag.length ≤ 5 := h
  have hmax : maxLogLineLength = 512 := rfl
  rw [frame_eq tag p h]
  unfold fillLine
  simp only [hmax]
  generalize hq : (if 3 + p.length + tag.length > 512 - 1 then p.take (512 - 1 - 3 - tag.length) else p) = q
  have hfits : 3 + q.length + tag.length ≤ 511 := by
    rw [← hq]
    split
    · rw [List.length_take]
      omega
    · omega
  -- the bytes are written from the front into zeros
  have hstart : ∀ i, ((List.replicate 512 (0 : UInt8)).set i 0).set 0 0 = [0] ++ List.replicate 511 0 := by
    intro i
    rw [List.set_replicate_self, List.set_replicate_self]
    rfl
  have htagged : copyAt ([0] ++ List.replicate 511 0) 1 tag =
      (0 :: tag) ++ List.replicate (511 - tag.length) 0 :=
    copyAt_zeros [0] tag 511 (by omega)
  have hbracket : ((0 :: tag) ++ List.replicate (511 - tag.length) 0).set (1 + tag.length) 0x5D =
      (0 :: tag ++ [0x5D]) ++ List.replicate (510 - tag.length) 0 := by
    have hset := set_zeros (0 :: tag) (510 - tag.length) 0x5D
    rw [List.length_cons, Nat.add_comm tag.length 1, show 510 - tag.length + 1 = 511 - tag.length by omega] at hset
    rw [hset]
    simp
  have hspace : ((0 :: tag ++ [0x5D]) ++ List.replicate (510 - tag.length) 0).set (2 + tag.length) 0x20 =
      (0 :: tag ++ [0x5D, 0x20]) ++ List.replicate (509 - tag.length) 0 := by
    have hset := set_zeros (0 :: tag ++ [0x5D]) (509 - tag.length) 0x20
    have hlength : (0 :: tag ++ [0x5D]).length = 2 + tag.length := by
      simp only [List.length_append, List.length_cons, List.length_nil]
      omega
    rw [hlength, show 509 - tag.length + 1 = 510 - tag.length by omega] at hset
    rw [hset]
    simp
  have htext : copyAt ((0 :: tag ++ [0x5D, 0x20]) ++ List.replicate (509 - tag.length) 0) (3 + tag.length) q =
      (0 :: tag ++ [0x5D, 0x20]) ++ q ++ List.replicate (509 - tag.length - q.length) 0 := by
    have hcopy := copyAt_zeros (0 :: tag ++ [0x5D, 0x20]) q (509 - tag.length) (by omega)
    have hlength : (0 :: tag ++ [0x5D, 0x20]).length = 3 + tag.length := by
      simp only [List.length_append, List.length_cons, List.length_nil]
      omega
    rwa [hlength] at hcopy
  rw [hstart, htagged, hbracket, hspace, htext]
  simp only [List.cons_append, List.set_cons_zero, List.length_cons, List.length_append,
    List.append_assoc, List.nil_append]
  congr 6
  omega

/-- A line without a zero byte in its tag and text is read as it was written. -/
theorem fillLine_text (tag p : Str) (ts : Int) (h : tag.length ≤ maxTagLength) (htag : 0 ∉ tag)
    (hp : 0 ∉ p) : LogLine.text ⟨ts, fillLine tag p⟩ = some (frame tag p) := by
  have hlength : (frame tag p).length ≤ 511 := by
    rw [frame, List.length_take]
    exact Nat.min_le_left _ _
  have hsolid : 0 ∉ frame tag p := by
    intro hmem
    have hall := List.mem_of_mem_take hmem
    simp [htag, hp] at hall
  have hzero : fillLine tag p = frame tag p ++ 0 :: List.replicate (511 - (frame tag p).length) 0 := by
    rw [fillLine_eq tag p h, ← List.replicate_succ]
    congr 2
    have hmax : maxLogLineLength = 512 := rfl
    omega
  have hfirst : 1 ≤ (frame tag p).length := by
    rw [frame_eq tag p h, List.length_cons]
    omega
  rw [LogLine.text, hzero, indexByte_append_cons _ _ _ hsolid]
  simp only
  rw [if_neg (by omega), List.take_left]

end lines

end SmartAwg.RingLog
