import SmartAwg.RingLogger

/-!
What the readers of the log return. Seen from the next index on, the ring is a queue of the last
2048 lines; a first read returns all of it, and a later one what was added since the last.
-/

namespace SmartAwg.RingLog

open Go RingBuffer

section slots

/-- The index wraps after a whole number of rounds. -/
theorem toNat_add_mod (i j : UInt32) : (i + j).toNat % maxLines = (i.toNat + j.toNat) % maxLines := by
  rw [UInt32.toNat_add, Nat.mod_mod_of_dvd _ (by decide)]

theorem toNat_succ_mod (i : UInt32) : (i + 1).toNat % maxLines = (i.toNat + 1) % maxLines :=
  toNat_add_mod i 1

theorem slotOf_eq_iff (i j : UInt32) : slotOf i = slotOf j ↔ i.toNat % maxLines = j.toNat % maxLines :=
  ofNat_eq_iff _ _

/-- The lines, from the slot that is written next on: the oldest comes first. -/
def LogMem.window (log : LogMem) : List LogLine := unrolled log.lines log.nextIndex.toNat maxLines

theorem LogMem.window_length (log : LogMem) : log.window.length = maxLines := unrolled_length ..

theorem LogMem.put_window (log : LogMem) (tag p : Str) (ts : Int) :
    (log.put tag p ts).window = log.window.tail ++ [⟨ts, fillLine tag p⟩] := by
  rw [window, window, ← unrolled_update]
  exact unrolled_congr _ (toNat_succ_mod log.nextIndex) _

end slots

section reading

/-- What a reader makes of a line, if it is one. -/
def LogLine.entry (l : LogLine) : Option FollowLine :=
  if l.timeNs = 0 then none else l.text.map fun text => ⟨text, l.timeNs⟩

def printed (format : Int → Str) (l : FollowLine) : Str :=
  format l.stamp ++ ascii ": " ++ l.line ++ [0x0A]

theorem appendLine_entries (acc : List FollowLine) (l : LogLine) (rest : List LogLine) (h : l.timeNs ≠ 0) :
    appendLine acc l ++ rest.filterMap LogLine.entry = acc ++ (l :: rest).filterMap LogLine.entry := by
  rw [List.filterMap_cons, appendLine, LogLine.entry, if_neg h]
  cases l.text with
  | none => rfl
  | some text => simp

theorem writeLoop_eq (format : Int → Str) (log : LogMem) (fuel : Nat) (l : UInt32) :
    writeLoop format log fuel l = ((unrolled log.lines (log.nextIndex.toNat + l.toNat) fuel).filterMap
      LogLine.entry).flatMap (printed format) := by
  induction fuel generalizing l with
  | zero => rfl
  | succ fuel ih =>
    have hhere : Fin.ofNat maxLines (log.nextIndex.toNat + l.toNat) = slotOf (log.nextIndex + l) :=
      (ofNat_eq_iff _ _).mpr (toNat_add_mod _ _).symm
    have hnext : unrolled log.lines (log.nextIndex.toNat + (l + 1).toNat) fuel =
        unrolled log.lines (log.nextIndex.toNat + l.toNat + 1) fuel := by
      apply unrolled_congr
      rw [Nat.add_mod, toNat_succ_mod, ← Nat.add_mod, Nat.add_assoc]
    rw [unrolled_succ, hhere, List.filterMap_cons, ← hnext]
    simp only [writeLoop, ih, LogLine.entry]
    split
    · rfl
    · cases (log.lines (slotOf (log.nextIndex + l))).text with
      | none => rfl
      | some text => simp [printed]

/-- The first read: every line from an index on. -/
theorem followLoop_all (log : LogMem) (fuel : Nat) (i : UInt32) (acc : List FollowLine) (next : UInt32) :
    (followLoop log cursorAll fuel i acc next).1 =
      acc ++ (unrolled log.lines i.toNat fuel).filterMap LogLine.entry := by
  induction fuel generalizing i acc next with
  | zero => simp [followLoop]
  | succ fuel ih =>
    have hnext := unrolled_congr log.lines (toNat_succ_mod i) fuel
    have hhere : Fin.ofNat maxLines i.toNat = slotOf i := rfl
    rw [unrolled_succ, ← hnext, hhere, followLoop]
    simp only [ne_eq, not_true_eq_false, false_and, if_false, if_true]
    split
    · rename_i hempty
      rw [ih, List.filterMap_cons, LogLine.entry, if_pos hempty]
    · rename_i hline
      rw [ih]
      exact appendLine_entries acc _ _ hline

/-- The cursor after the first read is behind the last slot, if there is a line in it. -/
theorem followLoop_all_cursor (log : LogMem) (fuel : Nat) (i : UInt32) (acc : List FollowLine)
    (next : UInt32) (hlast : (log.lines (Fin.ofNat maxLines (i.toNat + fuel))).timeNs ≠ 0) :
    (followLoop log cursorAll (fuel + 1) i acc next).2.toNat = (i.toNat + fuel + 1) % maxLines := by
  induction fuel generalizing i acc next with
  | zero =>
    have hline : (log.lines (slotOf i)).timeNs ≠ 0 := hlast
    simp only [followLoop, ne_eq, not_true_eq_false, false_and, if_false, hline, UInt32.toNat_mod]
    exact toNat_succ_mod i
  | succ fuel ih =>
    have hsame : (i.toNat + (fuel + 1)) % maxLines = ((i + 1).toNat + fuel) % maxLines := by
      rw [Nat.add_mod (i + 1).toNat, toNat_succ_mod, ← Nat.add_mod, Nat.add_assoc, Nat.add_comm 1]
    have hshift : ((i + 1).toNat + fuel + 1) % maxLines = (i.toNat + (fuel + 1) + 1) % maxLines := by
      rw [Nat.add_mod _ 1, ← hsame, ← Nat.add_mod]
    have hlast' : (log.lines (Fin.ofNat maxLines ((i + 1).toNat + fuel))).timeNs ≠ 0 := by
      rwa [← (ofNat_eq_iff _ _).mpr hsame]
    rw [followLoop]
    simp only [ne_eq, not_true_eq_false, false_and, if_false, if_true]
    split
    · rw [ih (i + 1) _ _ hlast', hshift]
    · rw [ih (i + 1) _ _ hlast', hshift]

/-- A later read: the lines before the slot that is written next, which is `k` further. -/
theorem followLoop_from (log : LogMem) (cursor : UInt32) (hcursor : cursor ≠ cursorAll) (k fuel : Nat)
    (i : UInt32) (acc : List FollowLine) (next : UInt32) (hk : k < maxLines) (hfuel : k < fuel)
    (hnext : (i.toNat + k) % maxLines = log.nextIndex.toNat % maxLines)
    (hlines : ∀ line ∈ unrolled log.lines i.toNat k, line.timeNs ≠ 0)
    (hstart : next.toNat = i.toNat % maxLines) :
    (followLoop log cursor fuel i acc next).1 =
        acc ++ (unrolled log.lines i.toNat k).filterMap LogLine.entry ∧
      (followLoop log cursor fuel i acc next).2.toNat = log.nextIndex.toNat % maxLines := by
  induction k generalizing fuel i acc next with
  | zero =>
    obtain ⟨fuel, rfl⟩ : ∃ f, fuel = f + 1 := ⟨fuel - 1, by omega⟩
    have hstop : slotOf i = slotOf log.nextIndex := (slotOf_eq_iff _ _).mpr hnext
    rw [followLoop]
    simp only [hcursor, hstop, ne_eq, not_false_eq_true, and_self, if_true, unrolled_zero,
      List.filterMap_nil, List.append_nil, true_and]
    rw [hstart]
    exact hnext
  | succ k ih =>
    obtain ⟨fuel, rfl⟩ : ∃ f, fuel = f + 1 := ⟨fuel - 1, by omega⟩
    have hgo : slotOf i ≠ slotOf log.nextIndex := by
      intro hstop
      have hround : Fin.ofNat maxLines (i.toNat + (k + 1)) = Fin.ofNat maxLines i.toNat :=
        (ofNat_eq_iff _ _).mpr (hnext.trans ((slotOf_eq_iff _ _).mp hstop).symm)
      exact ofNat_ne (Nat.lt_add_of_pos_right (Nat.succ_pos k)) (Nat.add_lt_add_left hk _) hround.symm
    rw [unrolled_succ] at hlines ⊢
    have hline : (log.lines (slotOf i)).timeNs ≠ 0 := hlines _ (List.mem_cons_self ..)
    have hrest := unrolled_congr log.lines (toNat_succ_mod i) k
    have hnext' : ((i + 1).toNat + k) % maxLines = log.nextIndex.toNat % maxLines := by
      rw [Nat.add_mod, toNat_succ_mod, ← Nat.add_mod, Nat.add_assoc, Nat.add_comm 1, hnext]
    have hstep := ih fuel (i + 1) (appendLine acc (log.lines (slotOf i))) ((i + 1) % 2048)
      (by omega) (by omega) hnext' (fun line h => hlines line (List.mem_cons_of_mem _ (hrest ▸ h)))
      (UInt32.toNat_mod ..)
    rw [hrest] at hstep
    rw [followLoop]
    simp only [hgo, and_false, if_false, hline]
    exact ⟨hstep.1.trans (appendLine_entries acc _ _ hline), hstep.2⟩

end reading

section runs

/-- A call of `WriteWithTimestamp`, with the tag of the process that makes it. -/
structure Write where
  tag : Str
  text : Str
  ts : Int

/-- The log after a write; any process may make it. -/
def LogMem.after (log : LogMem) (w : Write) : LogMem :=
  ((Ringlogger.mk w.tag (some log) false).writeWithTimestamp w.text w.ts).2.log.getD log

def Write.isBlank (w : Write) : Bool := (trimSpace w.text).length = 0

/-- What is to be read of a write: its tag and its text, at most 511 bytes. -/
def Write.line (w : Write) : FollowLine := ⟨frame w.tag (trimSpace w.text), w.ts⟩

/-- What is to be read of some writes. -/
def linesOf (ws : List Write) : List FollowLine := (ws.filter fun w => !w.isBlank).map Write.line

/-- The writes that the log is for: no zero bytes, which end a line, and a time stamp. -/
structure Write.Legal (w : Write) : Prop where
  stamped : w.ts ≠ 0
  text : 0 ∉ w.text
  tag : 0 ∉ w.tag
  short : w.tag.length ≤ maxTagLength

/-- What a write puts into its slot. -/
def Write.stored (w : Write) : LogLine := ⟨w.ts, fillLine w.tag (trimSpace w.text)⟩

def storedLines (ws : List Write) : List LogLine := (ws.filter fun w => !w.isBlank).map Write.stored

theorem storedLines_length (ws : List Write) : (storedLines ws).length = (linesOf ws).length := by
  rw [storedLines, linesOf, List.length_map, List.length_map]

theorem Write.Legal.entry {w : Write} (h : w.Legal) : w.stored.entry = some w.line := by
  have htext : 0 ∉ trimSpace w.text := fun h0 => h.text (mem_of_mem_trimSpace _ _ h0)
  have hstamped : w.stored.timeNs ≠ 0 := h.stamped
  rw [LogLine.entry, if_neg hstamped, Write.stored, fillLine_text _ _ _ h.short h.tag htext]
  rfl

theorem storedLines_entries (ws : List Write) (h : ∀ w ∈ ws, w.Legal) :
    (storedLines ws).filterMap LogLine.entry = linesOf ws := by
  rw [storedLines, linesOf, List.filterMap_map, ← List.filterMap_eq_map]
  apply List.filterMap_congr
  intro w hw
  exact (h w (List.mem_of_mem_filter hw)).entry

theorem LogMem.after_eq (log : LogMem) (w : Write) :
    log.after w = if w.isBlank then log else log.put w.tag (trimSpace w.text) w.ts := by
  unfold LogMem.after Ringlogger.writeWithTimestamp Write.isBlank
  by_cases h : (trimSpace w.text).length = 0
  · simp [h]
  · simp [h]

/-- After some writes: the queue with the new lines behind it, and as many gone at its front. -/
theorem LogMem.foldl_window (log : LogMem) (ws : List Write) :
    (ws.foldl LogMem.after log).window = (log.window ++ storedLines ws).drop (storedLines ws).length ∧
      (ws.foldl LogMem.after log).nextIndex.toNat % maxLines =
        (log.nextIndex.toNat + (storedLines ws).length) % maxLines := by
  induction ws generalizing log with
  | nil => simp [storedLines]
  | cons w ws ih =>
    rw [List.foldl_cons]
    obtain ⟨hwindow, hnext⟩ := ih (log.after w)
    rw [LogMem.after_eq] at hwindow hnext ⊢
    cases hblank : w.isBlank with
    | true =>
      have hsame : storedLines (w :: ws) = storedLines ws := by simp [storedLines, hblank]
      rw [hsame]
      simp only [hblank, if_true] at hwindow hnext ⊢
      exact ⟨hwindow, hnext⟩
    | false =>
      have hmore : storedLines (w :: ws) = w.stored :: storedLines ws := by simp [storedLines, hblank]
      rw [hmore]
      simp only [hblank, Bool.false_eq_true, if_false] at hwindow hnext ⊢
      obtain ⟨oldest, rest, hsplit⟩ : ∃ oldest rest, log.window = oldest :: rest := by
        apply List.exists_cons_of_length_pos
        rw [log.window_length]
        decide
      constructor
      · rw [hwindow, LogMem.put_window, hsplit, List.tail_cons, List.length_cons, List.cons_append,
          List.drop_succ_cons, List.append_assoc]
        rfl
      · rw [hnext, Nat.add_mod, show (log.put w.tag (trimSpace w.text) w.ts).nextIndex = log.nextIndex + 1
          from rfl, toNat_succ_mod, ← Nat.add_mod, List.length_cons, Nat.add_assoc, Nat.add_comm 1]

/-- The reads after the first one: before each some writes, each from the cursor of the one before. -/
def followRounds (log : LogMem) (cursor : UInt32) : List (List Write) → List (List FollowLine)
  | [] => []
  | ws :: rounds =>
    let log := ws.foldl LogMem.after log
    (log.followFromCursor cursor).1 :: followRounds log (log.followFromCursor cursor).2 rounds

/-- A later read returns what was written since the cursor was, and moves it on. -/
theorem LogMem.follow_since (log : LogMem) (cursor : UInt32) (ws : List Write) (h : ∀ w ∈ ws, w.Legal)
    (hfew : (linesOf ws).length < maxLines) (hcursor : cursor.toNat = log.nextIndex.toNat % maxLines) :
    let log' := ws.foldl LogMem.after log
    (log'.followFromCursor cursor).1 = linesOf ws ∧
      (log'.followFromCursor cursor).2.toNat = log'.nextIndex.toNat % maxLines := by
  intro log'
  obtain ⟨hwindow, hnext⟩ := log.foldl_window ws
  have hsmall : cursor.toNat < maxLines := hcursor ▸ Nat.mod_lt _ (by decide)
  have hnotAll : cursor ≠ cursorAll := by
    rintro rfl
    exact absurd hsmall (by decide)
  generalize hk : (storedLines ws).length = k at hwindow hnext
  have hkless : k < maxLines := by rw [← hk, storedLines_length]; exact hfew
  have hmeet : (cursor.toNat + k) % maxLines = log'.nextIndex.toNat % maxLines := by
    rw [hcursor, Nat.mod_add_mod]
    exact hnext.symm
  -- the lines from the cursor on are the last ones of the queue
  have hnew : unrolled log'.lines cursor.toNat k = storedLines ws := by
    have hdrop := unrolled_drop log'.lines log'.nextIndex.toNat k (maxLines - k)
    rw [Nat.sub_add_cancel (Nat.le_of_lt hkless)] at hdrop
    have hback : (log'.nextIndex.toNat + (maxLines - k)) % maxLines = cursor.toNat % maxLines := by
      rw [Nat.add_mod, ← hmeet, ← Nat.add_mod, Nat.add_assoc, Nat.add_sub_cancel' (Nat.le_of_lt hkless),
        Nat.add_mod_right]
    rw [unrolled_congr _ hback] at hdrop
    rw [← hdrop]
    change log'.window.drop (maxLines - k) = storedLines ws
    rw [hwindow, List.drop_drop, Nat.add_sub_cancel' (Nat.le_of_lt hkless), List.drop_append,
      List.drop_eq_nil_of_le (Nat.le_of_eq log.window_length), log.window_length, Nat.sub_self,
      List.nil_append, List.drop_zero]
  have hstamped : ∀ line ∈ unrolled log'.lines cursor.toNat k, line.timeNs ≠ 0 := by
    rw [hnew]
    intro line hline
    obtain ⟨w, hw, rfl⟩ := List.mem_map.mp hline
    exact (h w (List.mem_of_mem_filter hw)).stamped
  have hread := followLoop_from log' cursor hnotAll k maxLines cursor [] cursor hkless hkless hmeet hstamped
    (Nat.mod_eq_of_lt hsmall).symm
  rw [hnew, storedLines_entries ws h, List.nil_append] at hread
  rw [LogMem.followFromCursor, if_neg hnotAll]
  exact hread

theorem followRounds_eq (rounds : List (List Write)) (log : LogMem) (cursor : UInt32)
    (h : ∀ ws ∈ rounds, ∀ w ∈ ws, w.Legal) (hfew : ∀ ws ∈ rounds, (linesOf ws).length < maxLines)
    (hcursor : cursor.toNat = log.nextIndex.toNat % maxLines) :
    followRounds log cursor rounds = rounds.map linesOf := by
  induction rounds generalizing log cursor with
  | nil => rfl
  | cons ws rounds ih =>
    obtain ⟨hlines, hnext⟩ := log.follow_since cursor ws (h ws (List.mem_cons_self ..))
      (hfew ws (List.mem_cons_self ..)) hcursor
    rw [followRounds, List.map_cons, hlines]
    congr 1
    exact ih _ _ (fun ws' hws => h ws' (List.mem_cons_of_mem _ hws))
      (fun ws' hws => hfew ws' (List.mem_cons_of_mem _ hws)) hnext

/-- The first read goes over the last lines, up to 2048 of them. -/
theorem LogMem.follow_all_stored (start : UInt32) (ws : List Write) :
    ((ws.foldl LogMem.after (.blank start)).followFromCursor cursorAll).1 =
      ((storedLines ws).drop ((storedLines ws).length - maxLines)).filterMap LogLine.entry := by
  have hblank : (LogMem.blank start).window = List.replicate maxLines blankLine := by
    rw [LogMem.window, unrolled, LogMem.blank]
    simp only [List.map_const', List.length_range]
  obtain ⟨hwindow, -⟩ := (LogMem.blank start).foldl_window ws
  rw [hblank, List.drop_append, List.drop_replicate, List.length_replicate] at hwindow
  have hnone : (List.replicate (maxLines - (storedLines ws).length) blankLine).filterMap LogLine.entry = [] := by
    rw [List.filterMap_replicate_of_none]
    rfl
  rw [LogMem.followFromCursor, if_pos rfl, followLoop_all, List.nil_append]
  change (LogMem.window _).filterMap LogLine.entry = _
  rw [hwindow, List.filterMap_append, hnone, List.nil_append]

theorem LogMem.follow_all (start : UInt32) (ws : List Write) (h : ∀ w ∈ ws, w.Legal) :
    ((ws.foldl LogMem.after (.blank start)).followFromCursor cursorAll).1 =
      (linesOf ws).drop ((linesOf ws).length - maxLines) := by
  rw [LogMem.follow_all_stored, storedLines_length, storedLines, linesOf, ← List.map_drop, ← List.map_drop,
    List.filterMap_map, ← List.filterMap_eq_map]
  apply List.filterMap_congr
  intro w hw
  exact (h w (List.mem_of_mem_filter (List.mem_of_mem_drop hw))).entry

/-- The cursor of the first read is the slot that is written next. -/
theorem LogMem.follow_all_cursor (start : UInt32) (ws : List Write) (h : ∀ w ∈ ws, w.Legal)
    (hsome : linesOf ws ≠ []) :
    ((ws.foldl LogMem.after (.blank start)).followFromCursor cursorAll).2.toNat =
      (ws.foldl LogMem.after (.blank start)).nextIndex.toNat % maxLines := by
  generalize hlog : ws.foldl LogMem.after (.blank start) = log
  obtain ⟨hwindow, -⟩ := (LogMem.blank start).foldl_window ws
  rw [hlog] at hwindow
  have hstored : storedLines ws ≠ [] := by
    intro hnil
    have hlength := storedLines_length ws
    rw [hnil] at hlength
    exact hsome (List.length_eq_zero_iff.mp hlength.symm)
  -- the last line of the queue is the last one written
  obtain ⟨front, last, hlast⟩ : ∃ front last, storedLines ws = front ++ [last] :=
    ⟨_, _, (List.dropLast_concat_getLast hstored).symm⟩
  have hstamped : last.timeNs ≠ 0 := by
    have hmem : last ∈ storedLines ws := by rw [hlast]; simp
    obtain ⟨w, hw, rfl⟩ := List.mem_map.mp hmem
    exact (h w (List.mem_of_mem_filter hw)).stamped
  have hend : (LogMem.window log).getLast? = some last := by
    have hmore : ¬((LogMem.blank start).window ++ storedLines ws).length ≤ (storedLines ws).length := by
      rw [List.length_append, LogMem.window_length, maxLines]
      omega
    rw [hwindow, List.getLast?_drop, if_neg hmore, hlast, ← List.append_assoc,
      List.getLast?_concat]
  have hslot : log.lines (Fin.ofNat maxLines (log.nextIndex.toNat + 2047)) = last := by
    have hconcat : log.window = _ := unrolled_concat log.lines log.nextIndex.toNat 2047
    rw [hconcat, List.getLast?_concat] at hend
    exact Option.some.inj hend
  have hcursor := followLoop_all_cursor log 2047 log.nextIndex [] cursorAll (by rwa [hslot])
  rw [LogMem.followFromCursor, if_pos rfl]
  rw [Nat.add_assoc, Nat.add_mod_right] at hcursor
  exact hcursor

theorem Ringlogger.followFromCursor_open {rl : Ringlogger} {log : LogMem} (h : rl.log = some log)
    (cursor : UInt32) : rl.followFromCursor cursor = log.followFromCursor cursor := by
  rw [Ringlogger.followFromCursor, h]

theorem Ringlogger.writeTo_open {rl : Ringlogger} {log : LogMem} (h : rl.log = some log)
    (format : Int → Str) : rl.writeTo format = .ok (writeLoop format log maxLines 0) := by
  rw [Ringlogger.writeTo, h]

theorem LogMem.writeLoop_all (format : Int → Str) (log : LogMem) :
    writeLoop format log maxLines 0 = (log.followFromCursor cursorAll).1.flatMap (printed format) := by
  have hzero : log.nextIndex.toNat + (0 : UInt32).toNat = log.nextIndex.toNat := rfl
  rw [LogMem.followFromCursor, if_pos rfl, followLoop_all, writeLoop_eq, List.nil_append, hzero]

theorem linesOf_flatten (rounds : List (List Write)) :
    (rounds.map linesOf).flatten = linesOf rounds.flatten := by
  induction rounds with
  | nil => rfl
  | cons ws rounds ih =>
    rw [List.map_cons, List.flatten_cons, List.flatten_cons, ih, linesOf, linesOf, linesOf,
      List.filter_append, List.map_append]

theorem followRounds_all (start : UInt32) (first : List Write) (rounds : List (List Write))
    (hfirst : ∀ w ∈ first, w.Legal) (hrounds : ∀ ws ∈ rounds, ∀ w ∈ ws, w.Legal)
    (hsome : linesOf first ≠ []) (hfew : ∀ ws ∈ rounds, (linesOf ws).length < maxLines) :
    followRounds (first.foldl LogMem.after (.blank start))
        ((first.foldl LogMem.after (.blank start)).followFromCursor cursorAll).2 rounds =
      rounds.map linesOf :=
  followRounds_eq rounds _ _ hrounds hfew (LogMem.follow_all_cursor start first hfirst hsome)

/-- Following the log loses and repeats nothing: the first read returns the last lines, and every
later one those written since the read before it. `WriteTo` prints what a first read returns. -/
theorem follow_loses_nothing (start : UInt32) (first : List Write) (rounds : List (List Write))
    (hfirst : ∀ w ∈ first, w.Legal) (hrounds : ∀ ws ∈ rounds, ∀ w ∈ ws, w.Legal)
    (hsome : linesOf first ≠ []) (hfew : ∀ ws ∈ rounds, (linesOf ws).length < maxLines) :
    let log := first.foldl LogMem.after (.blank start)
    let opened := log.followFromCursor cursorAll
    opened.1 = (linesOf first).drop ((linesOf first).length - maxLines) ∧
      followRounds log opened.2 rounds = rounds.map linesOf ∧
      (followRounds log opened.2 rounds).flatten = linesOf rounds.flatten ∧
      ∀ (format : Int → Str) (rl : Ringlogger) (log : LogMem), rl.log = some log →
        rl.writeTo format = .ok ((rl.followFromCursor cursorAll).1.flatMap (printed format)) := by
  have hall := followRounds_all start first rounds hfirst hrounds hsome hfew
  refine ⟨LogMem.follow_all start first hfirst, hall,
    (congrArg List.flatten hall).trans (linesOf_flatten rounds), ?_⟩
  intro format rl log hlog
  rw [rl.writeTo_open hlog, rl.followFromCursor_open hlog, log.writeLoop_all]

/-- A log whose index is about to wrap, and a blank write. -/
theorem follow_loses_nothing_wrapping :
    let log := [Write.mk (ascii "MGR") (ascii " started\n") 5].foldl LogMem.after (.blank 0xFFFFFFFF)
    let opened := log.followFromCursor cursorAll
    opened.1 = [⟨ascii "[MGR] started", 5⟩] ∧
      followRounds log opened.2
          [[Write.mk (ascii "TUN") (ascii "up") 6, Write.mk (ascii "TUN") (ascii "  ") 7], []] =
        [[⟨ascii "[TUN] up", 6⟩], []] := by
  have hlegal : ∀ (tag text : Str) (ts : Int), tag.length ≤ maxTagLength → 0 ∉ tag → 0 ∉ text → ts ≠ 0 →
      (Write.mk tag text ts).Legal := fun tag text ts hshort htag htext hts => ⟨hts, htext, htag, hshort⟩
  have hrun := follow_loses_nothing 0xFFFFFFFF [Write.mk (ascii "MGR") (ascii " started\n") 5]
    [[Write.mk (ascii "TUN") (ascii "up") 6, Write.mk (ascii "TUN") (ascii "  ") 7], []]
    (by
      intro w hw
      obtain rfl := List.mem_singleton.mp hw
      exact hlegal _ _ _ (by decide) (by decide) (by decide) (by decide))
    (by
      intro ws hws w hw
      simp only [List.mem_cons, List.not_mem_nil, or_false] at hws
      rcases hws with rfl | rfl
      · simp only [List.mem_cons, List.not_mem_nil, or_false] at hw
        rcases hw with rfl | rfl
        · exact hlegal _ _ _ (by decide) (by decide) (by decide) (by decide)
        · exact hlegal _ _ _ (by decide) (by decide) (by decide) (by decide)
      · cases hw)
    (by decide +kernel)
    (by decide +kernel)
  exact ⟨hrun.1.trans (by decide +kernel), hrun.2.1.trans (by decide +kernel)⟩

/-- A tag may hold a zero byte, and the line is read up to it. -/
theorem zero_in_tag_cuts_line :
    let w := Write.mk [0x41, 0x00] (ascii "up") 1
    w.tag.length ≤ maxTagLength ∧ 0 ∉ w.text ∧ w.ts ≠ 0 ∧
      (([w].foldl LogMem.after (.blank 0)).followFromCursor cursorAll).1 = [⟨ascii "[A", 1⟩] ∧
      frame w.tag (trimSpace w.text) ≠ ascii "[A" := by
  intro w
  refine ⟨by decide, by decide, by decide, ?_, by decide +kernel⟩
  rw [LogMem.follow_all_stored]
  decide +kernel

end runs

end SmartAwg.RingLog
