import SmartAwg.GoStrings

/-!
`bufio.Scanner` with its default split function and buffer: the lines of a text, up to the
first one that does not fit into the buffer together with its line feed.
-/

namespace SmartAwg.Go

/-- `bufio.MaxScanTokenSize`. -/
def maxScanTokenSize : Nat := 64 * 1024

def dropCR (line : Str) : Str :=
  if line.getLast? = some 0x0D then line.dropLast else line

/-- The tokens of the given raw lines, the last of which has no line feed after it, and whether
the scan ended with `ErrTooLong`. -/
def scanTokens : List Str → List Str × Bool
  | [] => ([], false)
  | [last] =>
    if last = [] then ([], false)
    else if maxScanTokenSize ≤ last.length then ([], true)
    else ([dropCR last], false)
  | line :: rest =>
    if maxScanTokenSize ≤ line.length then ([], true)
    else (dropCR line :: (scanTokens rest).1, (scanTokens rest).2)

/-- All tokens of a text, and whether the scan ended with an error. -/
def scanLines (s : Str) : List Str × Bool := scanTokens (s.splitOn 0x0A)

theorem dropCR_of_ne (line : Str) (h : line.getLast? ≠ some 0x0D) : dropCR line = line := by
  rw [dropCR, if_neg h]

/-- Lines that fit are all returned, and a text of complete lines ends without an error. -/
theorem scanTokens_fit (lines : List Str) (h : ∀ l ∈ lines, l.length < maxScanTokenSize)
    (hcr : ∀ l ∈ lines, l.getLast? ≠ some 0x0D) : scanTokens (lines ++ [[]]) = (lines, false) := by
  induction lines with
  | nil => simp [scanTokens]
  | cons l lines ih =>
    obtain ⟨r, rest, hr⟩ := List.exists_cons_of_ne_nil (l := lines ++ [[]]) (by simp)
    have hrest := ih (fun x hx => h x (by simp [hx])) (fun x hx => hcr x (by simp [hx]))
    rw [List.cons_append, hr, scanTokens, if_neg (Nat.not_le.mpr (h l (by simp))), ← hr, hrest,
      dropCR_of_ne l (hcr l (by simp))]
    · simp

/-- A line that does not fit ends the scan with an error. -/
theorem scanTokens_long (lines : List Str) (last line : Str) (hmem : line ∈ lines)
    (hlong : maxScanTokenSize ≤ line.length) : (scanTokens (lines ++ [last])).2 = true := by
  induction lines with
  | nil => cases hmem
  | cons l lines ih =>
    obtain ⟨r, rest, hr⟩ := List.exists_cons_of_ne_nil (l := lines ++ [last]) (by simp)
    rw [List.cons_append, hr, scanTokens]
    · split
      · rfl
      · rename_i hshort
        rw [← hr]
        rcases List.mem_cons.mp hmem with rfl | hmem
        · exact absurd hlong hshort
        · exact ih hmem
    · simp

/-- The tokens of complete lines are among these lines. -/
theorem scanTokens_mem (lines : List Str) (hcr : ∀ l ∈ lines, l.getLast? ≠ some 0x0D) :
    ∀ t ∈ (scanTokens (lines ++ [[]])).1, t ∈ lines := by
  induction lines with
  | nil => simp [scanTokens]
  | cons l lines ih =>
    obtain ⟨r, rest, hr⟩ := List.exists_cons_of_ne_nil (l := lines ++ [[]]) (by simp)
    rw [List.cons_append, hr, scanTokens]
    · split
      · simp
      · rw [← hr, dropCR_of_ne l (hcr l (by simp))]
        exact List.forall_mem_cons.mpr ⟨List.mem_cons_self .., fun t ht =>
          List.mem_cons_of_mem l (ih (fun x hx => hcr x (by simp [hx])) t ht)⟩
    · simp

end SmartAwg.Go
