import SmartAwg.GoUtf8

/-!
JSON texts as `encoding/json` lays them out: the compact form that `Marshal` gives to a raw message, in
which white space is gone and some characters of strings are escaped, and the indented form of
`MarshalIndent`. Both read a valid JSON text byte by byte.
-/

namespace SmartAwg.Go

section layout

/-- Where in a text a byte stands. After the first byte of an escaped line separator the other two are
dropped. -/
inductive JsonPlace where
  | outside
  | inside
  | escaped
  | dropTwo
  | dropOne
  deriving DecidableEq

/-- White space between the tokens of a JSON text. -/
def isJsonSpace (c : UInt8) : Bool := c == 0x20 || c == 0x09 || c == 0x0A || c == 0x0D

/-- The characters `<`, `>` and `&`. -/
def isHtmlByte (c : UInt8) : Bool := c == 0x3C || c == 0x3E || c == 0x26

/-- The byte and those after it are U+2028 or U+2029. -/
def isLineSeparator (c : UInt8) (after : Str) : Bool :=
  c == 0xE2 && after.head? == some 0x80 && (after[1]? == some 0xA8 || after[1]? == some 0xA9)

def hexDigit (n : Nat) : UInt8 := if n < 10 then UInt8.ofNat (0x30 + n) else UInt8.ofNat (0x57 + n)

/-- The escape `\u00XX` of a byte. -/
def htmlEscape (c : UInt8) : Str := ascii "\\u00" ++ [hexDigit (c.toNat / 16), hexDigit (c.toNat % 16)]

/-- The escape `\u202X` of a line separator whose last byte is given. -/
def separatorEscape (last : Option UInt8) : Str :=
  ascii "\\u202" ++ [hexDigit ((last.getD 0).toNat % 16)]

/-- How a byte of a string that is not escaped itself moves the place. -/
def JsonPlace.inString (place : JsonPlace) (c : UInt8) : JsonPlace :=
  if place = .escaped then .inside
  else if c = 0x5C then .escaped
  else if c = 0x22 then .outside
  else .inside

/-- What `appendCompact` writes for one byte, and the place of the next. -/
def compactStep (place : JsonPlace) (c : UInt8) (after : Str) : Str × JsonPlace :=
  match place with
  | .outside =>
    if isJsonSpace c then ([], .outside) else ([c], if c = 0x22 then .inside else .outside)
  | .dropTwo => ([], .dropOne)
  | .dropOne => ([], .inside)
  | place =>
    if isHtmlByte c then (htmlEscape c, .inside)
    else if isLineSeparator c after then (separatorEscape after[1]?, .dropTwo)
    else ([c], place.inString c)

def compactFrom (place : JsonPlace) : Str → Str
  | [] => []
  | c :: after => (compactStep place c after).1 ++ compactFrom (compactStep place c after).2 after

/-- `appendCompact` with the escapes of HTML characters. -/
def jsonCompact (text : Str) : Str := compactFrom .outside text

/-- A new line at the given depth, with two blanks for each level. -/
def newline (depth : Nat) : Str := 0x0A :: List.replicate (2 * depth) 0x20

/-- Between tokens: the depth, and whether a bracket was opened just before. -/
structure JsonDepth where
  depth : Nat
  opened : Bool

/-- What `appendIndent` writes for a byte outside of strings, which is not white space. -/
def indentToken (d : JsonDepth) (c : UInt8) : Str × JsonDepth :=
  if c = 0x7D ∨ c = 0x5D then
    if d.opened then ([c], ⟨d.depth, false⟩) else (newline (d.depth - 1) ++ [c], ⟨d.depth - 1, false⟩)
  else
    let depth := if d.opened then d.depth + 1 else d.depth
    let start := if d.opened then newline depth else []
    if c = 0x7B ∨ c = 0x5B then (start ++ [c], ⟨depth, true⟩)
    else if c = 0x2C then (start ++ [c] ++ newline depth, ⟨depth, false⟩)
    else if c = 0x3A then (start ++ [c, 0x20], ⟨depth, false⟩)
    else (start ++ [c], ⟨depth, false⟩)

def indentFrom (place : JsonPlace) (d : JsonDepth) : Str → Str
  | [] => []
  | c :: after =>
    if place = .outside then
      if isJsonSpace c then indentFrom .outside d after
      else
        (indentToken d c).1 ++
          indentFrom (if c = 0x22 then .inside else .outside) (indentToken d c).2 after
    else c :: indentFrom (place.inString c) d after

/-- `appendIndent` for a value at the given depth, with two blanks for each level. -/
def jsonIndent (depth : Nat) (text : Str) : Str := indentFrom .outside ⟨depth, false⟩ text

end layout

section compact
variable {place : JsonPlace} {c : UInt8} {after : Str}

/-- A byte of a string that is copied. -/
theorem compactStep_plain (hplace : place = .inside ∨ place = .escaped)
    (hhtml : isHtmlByte c = false) (hline : isLineSeparator c after = false) :
    compactStep place c after = ([c], place.inString c) := by
  rcases hplace with rfl | rfl <;> simp only [compactStep, hhtml, hline, Bool.false_eq_true, if_false]

theorem compactStep_html (hplace : place = .inside ∨ place = .escaped)
    (after : Str) (hhtml : isHtmlByte c = true) :
    compactStep place c after = (htmlEscape c, .inside) := by
  rcases hplace with rfl | rfl <;> simp only [compactStep, hhtml, if_true]

theorem compactStep_line (hplace : place = .inside ∨ place = .escaped)
    (hhtml : isHtmlByte c = false) (hline : isLineSeparator c after = true) :
    compactStep place c after = (separatorEscape after[1]?, .dropTwo) := by
  rcases hplace with rfl | rfl <;> simp only [compactStep, hhtml, hline, Bool.false_eq_true, if_false, if_true]

theorem inString_inside (hplace : place = .inside ∨ place = .escaped)
    (hquote : c ≠ 0x22) (hslash : c ≠ 0x5C) : place.inString c = .inside := by
  rcases hplace with rfl | rfl
  · simp only [JsonPlace.inString, reduceCtorEq, if_false, hquote, hslash]
  · rfl

theorem isLineSeparator_lead (h : isLineSeparator c after = true) :
    c = 0xE2 ∧ ∃ last rest, after = 0x80 :: last :: rest ∧ (last = 0xA8 ∨ last = 0xA9) := by
  simp only [isLineSeparator, Bool.and_eq_true, beq_iff_eq, Bool.or_eq_true] at h
  obtain ⟨⟨hc, hhead⟩, hlast⟩ := h
  rcases after with _ | ⟨a, _ | ⟨b, rest⟩⟩
  · cases hhead
  · simp at hlast
  · cases hhead
    exact ⟨hc, b, rest, rfl, by simpa using hlast⟩

theorem isLineSeparator_cons (last : UInt8) (rest : Str) (h : last = 0xA8 ∨ last = 0xA9) :
    isLineSeparator 0xE2 (0x80 :: last :: rest) = true := by
  rcases h with rfl | rfl <;> rfl

/-- What is not a line separator and starts with an ordinary byte. -/
theorem isLineSeparator_ascii (hc : c < 0x80) (after : Str) : isLineSeparator c after = false := by
  have hall : ∀ c : UInt8, c < 0x80 → (c == 0xE2) = false := byte_forall _ (by decide +kernel)
  simp only [isLineSeparator, hall c hc, Bool.false_and]

/-- An ordinary text that does not end the string, such as the letters and digits of an escape. -/
theorem compactFrom_letters {s : Str} (t : Str)
    (h : ∀ c ∈ s, c < 0x80 ∧ isHtmlByte c = false ∧ c ≠ 0x22 ∧ c ≠ 0x5C) :
    compactFrom .inside (s ++ t) = s ++ compactFrom .inside t := by
  induction s with
  | nil => rfl
  | cons c s ih =>
    obtain ⟨⟨hascii, hhtml, hquote, hslash⟩, hrest⟩ := List.forall_mem_cons.mp h
    rw [List.cons_append, compactFrom, compactStep_plain (Or.inl rfl) hhtml (isLineSeparator_ascii hascii _),
      inString_inside (Or.inl rfl) hquote hslash, ih hrest]
    rfl

/-- An escape is copied, also behind a backslash. -/
theorem compactFrom_escape (hplace : place = .inside ∨ place = .escaped) {s : Str}
    (t : Str) (h : ∀ c ∈ s, c < 0x80 ∧ isHtmlByte c = false ∧ c ≠ 0x22 ∧ c ≠ 0x5C) :
    compactFrom place (ascii "\\u" ++ s ++ t) = ascii "\\u" ++ s ++ compactFrom .inside t := by
  have hstart : compactFrom place (ascii "\\u" ++ s ++ t) = ascii "\\u" ++ compactFrom .inside (s ++ t) := by
    rcases hplace with rfl | rfl <;> rfl
  rw [hstart, compactFrom_letters t h, List.append_assoc]

theorem hexDigit_letters (n : Nat) (hn : n < 16) :
    hexDigit n < 0x80 ∧ isHtmlByte (hexDigit n) = false ∧ hexDigit n ≠ 0x22 ∧ hexDigit n ≠ 0x5C := by
  have hall : ∀ n : Fin 16, hexDigit n < 0x80 ∧ isHtmlByte (hexDigit n) = false ∧ hexDigit n ≠ 0x22 ∧
      hexDigit n ≠ 0x5C := by decide +kernel
  exact hall ⟨n, hn⟩

theorem compactFrom_htmlEscape (hplace : place = .inside ∨ place = .escaped) (c : UInt8)
    (t : Str) : compactFrom place (htmlEscape c ++ t) = htmlEscape c ++ compactFrom .inside t := by
  have hc := c.toNat_lt
  have hletters := compactFrom_escape hplace (s := ascii "00" ++ [hexDigit (c.toNat / 16), hexDigit (c.toNat % 16)]) t
    (List.forall_mem_append.mpr ⟨by decide +kernel, List.forall_mem_cons.mpr
      ⟨hexDigit_letters _ (by omega), List.forall_mem_singleton.mpr (hexDigit_letters _ (by omega))⟩⟩)
  exact hletters

theorem compactFrom_separatorEscape (hplace : place = .inside ∨ place = .escaped)
    (last : Option UInt8) (t : Str) :
    compactFrom place (separatorEscape last ++ t) = separatorEscape last ++ compactFrom .inside t := by
  have hletters := compactFrom_escape hplace (s := ascii "202" ++ [hexDigit ((last.getD 0).toNat % 16)]) t
    (List.forall_mem_append.mpr ⟨by decide +kernel,
      List.forall_mem_singleton.mpr (hexDigit_letters _ (Nat.mod_lt _ (by decide)))⟩)
  exact hletters

/-- The first byte of the rest of a string is kept, or a backslash stands for it. -/
theorem compactFrom_head (hplace : place = .inside ∨ place = .escaped) (t : Str)
    (b : UInt8) (rest : Str) (h : compactFrom place t = b :: rest) :
    b = 0x5C ∨ ∃ t', t = b :: t' ∧ rest = compactFrom (place.inString b) t' := by
  rcases t with _ | ⟨c, after⟩
  · cases h
  rw [compactFrom] at h
  cases hhtml : isHtmlByte c with
  | true =>
    rw [compactStep_html hplace after hhtml] at h
    exact Or.inl (List.cons.inj h).1.symm
  | false =>
    cases hline : isLineSeparator c after with
    | true =>
      rw [compactStep_line hplace hhtml hline] at h
      exact Or.inl (List.cons.inj h).1.symm
    | false =>
      rw [compactStep_plain hplace hhtml hline] at h
      obtain ⟨rfl, hrest⟩ := List.cons.inj h
      exact Or.inr ⟨after, rfl, hrest.symm⟩

/-- Compaction makes no line separators. -/
theorem isLineSeparator_compactFrom (h : isLineSeparator c after = false) :
    isLineSeparator c (compactFrom .inside after) = false := by
  rw [← Bool.not_eq_true]
  intro hline
  obtain ⟨rfl, last, rest, hcompact, hlast⟩ := isLineSeparator_lead hline
  rcases compactFrom_head (Or.inl rfl) after _ _ hcompact with hslash | ⟨after', rfl, hrest⟩
  · cases hslash
  rcases compactFrom_head (Or.inl rfl) after' _ _ hrest.symm with hslash | ⟨after'', rfl, -⟩
  · rw [hslash] at hlast
    revert hlast
    decide
  · rw [isLineSeparator_cons last after'' hlast] at h
    cases h

/-- The place from which compacted text is read again. -/
def JsonPlace.again : JsonPlace → JsonPlace
  | .outside => .outside
  | .escaped => .escaped
  | _ => .inside

theorem compactFrom_again (place : JsonPlace) (text : Str) :
    compactFrom place.again (compactFrom place text) = compactFrom place text := by
  induction text generalizing place with
  | nil => rfl
  | cons c after ih =>
    have hstring : place = .inside ∨ place = .escaped → compactFrom place (compactFrom place (c :: after)) =
        compactFrom place (c :: after) := by
      intro hplace
      rw [compactFrom]
      cases hhtml : isHtmlByte c with
      | true =>
        rw [compactStep_html hplace after hhtml, compactFrom_htmlEscape hplace]
        exact congrArg (htmlEscape c ++ ·) (ih .inside)
      | false =>
        cases hline : isLineSeparator c after with
        | true =>
          rw [compactStep_line hplace hhtml hline, compactFrom_separatorEscape hplace]
          exact congrArg (separatorEscape after[1]? ++ ·) (ih .dropTwo)
        | false =>
          rw [compactStep_plain hplace hhtml hline]
          -- a byte that could start a line separator leaves the string open
          have hline' : isLineSeparator c (compactFrom (place.inString c) after) = false := by
            by_cases hc : c = 0xE2
            · rw [hc, inString_inside hplace (by decide) (by decide)]
              exact isLineSeparator_compactFrom (hc ▸ hline)
            · simp only [isLineSeparator, beq_eq_false_iff_ne.mpr hc, Bool.false_and]
          have hagain : (place.inString c).again = place.inString c := by
            unfold JsonPlace.inString
            split_ifs <;> rfl
          have hrest := ih (place.inString c)
          rw [hagain] at hrest
          rw [List.singleton_append, compactFrom, compactStep_plain hplace hhtml hline', hrest]
          rfl
    cases place with
    | outside =>
      rw [compactFrom]
      cases hspace : isJsonSpace c with
      | true =>
        simp only [compactStep, hspace, if_true]
        exact ih .outside
      | false =>
        have hrest := ih (if c = 0x22 then .inside else .outside)
        simp only [compactStep, hspace, Bool.false_eq_true, if_false, JsonPlace.again, List.singleton_append,
          compactFrom, List.cons.injEq, true_and]
        split_ifs at hrest ⊢ <;> exact hrest
    | inside => exact hstring (Or.inl rfl)
    | escaped => exact hstring (Or.inr rfl)
    | dropTwo => exact ih .dropOne
    | dropOne => exact ih .inside

/-- Compact texts stay as they are. -/
theorem jsonCompact_jsonCompact (text : Str) : jsonCompact (jsonCompact text) = jsonCompact text :=
  compactFrom_again .outside text

end compact

section indent

theorem compactFrom_spaces {s : Str} (h : ∀ c ∈ s, isJsonSpace c = true) (t : Str) :
    compactFrom .outside (s ++ t) = compactFrom .outside t := by
  induction s with
  | nil => rfl
  | cons c s ih =>
    obtain ⟨hspace, hrest⟩ := List.forall_mem_cons.mp h
    rw [List.cons_append, compactFrom]
    simp only [compactStep, hspace, if_true]
    exact ih hrest

theorem newline_spaces (depth : Nat) : ∀ c ∈ newline depth, isJsonSpace c = true := by
  intro c hc
  rcases List.mem_cons.mp hc with rfl | hc
  · rfl
  · rw [List.eq_of_mem_replicate hc]
    rfl

/-- A token is written with white space around it, but with none behind a quote. -/
theorem indentToken_spec (d : JsonDepth) (c : UInt8) : ∃ front back, (indentToken d c).1 = front ++ c :: back ∧
    (∀ b ∈ front, isJsonSpace b = true) ∧ (∀ b ∈ back, isJsonSpace b = true) ∧ (c = 0x22 → back = []) := by
  have hstart : ∀ depth, ∀ b ∈ (if d.opened then newline depth else []), isJsonSpace b = true := by
    intro depth
    split
    · exact newline_spaces depth
    · exact nofun
  unfold indentToken
  by_cases hclose : c = 0x7D ∨ c = 0x5D
  · rw [if_pos hclose]
    split
    · exact ⟨[], [], rfl, nofun, nofun, fun _ => rfl⟩
    · exact ⟨newline (d.depth - 1), [], rfl, newline_spaces _, nofun, fun _ => rfl⟩
  rw [if_neg hclose]
  by_cases hopen : c = 0x7B ∨ c = 0x5B
  · exact ⟨_, [], by simp only [if_pos hopen]; rfl, hstart _, nofun, fun _ => rfl⟩
  by_cases hcomma : c = 0x2C
  · refine ⟨_, _, by simp only [if_neg hopen, if_pos hcomma]; exact List.append_assoc .., hstart _,
      newline_spaces _, fun hquote => ?_⟩
    rw [hcomma] at hquote
    cases hquote
  by_cases hcolon : c = 0x3A
  · refine ⟨_, [0x20], by simp only [if_neg hopen, if_neg hcomma, if_pos hcolon]; rfl, hstart _,
      by decide +kernel, fun hquote => ?_⟩
    rw [hcolon] at hquote
    cases hquote
  · exact ⟨_, [], by simp only [if_neg hopen, if_neg hcomma, if_neg hcolon]; rfl, hstart _, nofun, fun _ => rfl⟩

/-- Compaction takes the layout of a token away. -/
theorem compactFrom_indentToken (d : JsonDepth) (c : UInt8) (hspace : isJsonSpace c = false) (t : Str) :
    compactFrom .outside ((indentToken d c).1 ++ t) =
      c :: compactFrom (if c = 0x22 then .inside else .outside) t := by
  obtain ⟨front, back, htext, hfront, hback, hquote⟩ := indentToken_spec d c
  rw [htext, List.append_assoc, List.cons_append, compactFrom_spaces hfront, compactFrom]
  simp only [compactStep, hspace, Bool.false_eq_true, if_false, List.singleton_append, List.cons.injEq, true_and]
  split_ifs with hc
  · rw [hquote hc, List.nil_append]
  · exact compactFrom_spaces hback t

/-- Inside of strings nothing is laid out. -/
theorem indentFrom_string {place : JsonPlace} (hplace : place = .inside ∨ place = .escaped) (d : JsonDepth)
    (c : UInt8) (after : Str) :
    indentFrom place d (c :: after) = c :: indentFrom (place.inString c) d after := by
  rcases hplace with rfl | rfl <;> rfl

theorem isLineSeparator_indentFrom (c : UInt8) (d : JsonDepth) (after : Str) :
    isLineSeparator c (indentFrom .inside d after) = isLineSeparator c after := by
  rcases after with _ | ⟨a, after⟩
  · rfl
  rw [indentFrom_string (Or.inl rfl)]
  by_cases ha : a = 0x80
  · subst ha
    rcases after with _ | ⟨b, after⟩
    · rfl
    · rw [inString_inside (Or.inl rfl) (by decide) (by decide), indentFrom_string (Or.inl rfl)]
      rfl
  · have hfirst : ∀ t : Str, isLineSeparator c (a :: t) = false := by
      intro t
      simp [isLineSeparator, ha]
    rw [hfirst, hfirst]

theorem compactFrom_indentFrom (text : Str) (place : JsonPlace) (d : JsonDepth)
    (hplace : place = .outside ∨ place = .inside ∨ place = .escaped) :
    compactFrom place (indentFrom place d text) = compactFrom place text := by
  -- a line separator is three bytes long
  induction hlen : text.length using Nat.strongRecOn generalizing text place d with
  | _ n ih =>
  rcases text with _ | ⟨c, after⟩
  · rfl
  have hnext : ∀ place' d', (place' = .outside ∨ place' = .inside ∨ place' = .escaped) →
      compactFrom place' (indentFrom place' d' after) = compactFrom place' after :=
    fun place' d' hplace' => ih after.length (by simp [← hlen]) after place' d' hplace' rfl
  rcases hplace with rfl | hstring
  · cases hspace : isJsonSpace c with
    | true =>
      simp only [indentFrom, hspace, if_true, compactFrom, compactStep, List.nil_append]
      exact hnext _ _ (Or.inl rfl)
    | false =>
      rw [indentFrom, if_pos rfl, hspace, if_neg Bool.false_ne_true, compactFrom_indentToken d c hspace,
        hnext _ _ (by split_ifs <;> simp), compactFrom]
      simp only [compactStep, hspace, Bool.false_eq_true, if_false, List.singleton_append]
  · rw [indentFrom_string hstring, compactFrom, compactFrom]
    have hplaces : place.inString c = .outside ∨ place.inString c = .inside ∨ place.inString c = .escaped := by
      unfold JsonPlace.inString
      split_ifs <;> simp
    have hline : isLineSeparator c (indentFrom (place.inString c) d after) = isLineSeparator c after := by
      by_cases hc : c = 0xE2
      · rw [hc, inString_inside hstring (by decide) (by decide), isLineSeparator_indentFrom]
      · simp only [isLineSeparator, beq_eq_false_iff_ne.mpr hc, Bool.false_and]
    cases hhtml : isHtmlByte c with
    | true =>
      have hinside : place.inString c = .inside := by
        have hnot : ∀ c : UInt8, isHtmlByte c = true → c ≠ 0x22 ∧ c ≠ 0x5C := byte_forall _ (by decide +kernel)
        exact inString_inside hstring (hnot c hhtml).1 (hnot c hhtml).2
      rw [compactStep_html hstring _ hhtml, compactStep_html hstring _ hhtml, hinside,
        hnext _ _ (Or.inr (Or.inl rfl))]
    | false =>
      cases hseparator : isLineSeparator c after with
      | false =>
        rw [hseparator] at hline
        rw [compactStep_plain hstring hhtml hline, compactStep_plain hstring hhtml hseparator, hnext _ _ hplaces]
      | true =>
        obtain ⟨rfl, last, rest, rfl, hlast⟩ := isLineSeparator_lead hseparator
        rw [hseparator] at hline
        have hrest : compactFrom .inside (indentFrom .inside d rest) = compactFrom .inside rest :=
          ih rest.length (by simp [← hlen]; omega) rest _ d (Or.inr (Or.inl rfl)) rfl
        have hbytes : indentFrom .inside d (0x80 :: last :: rest) =
            0x80 :: last :: indentFrom .inside d rest := by
          rw [indentFrom_string (Or.inl rfl), inString_inside (Or.inl rfl) (by decide) (by decide),
            indentFrom_string (Or.inl rfl)]
          rcases hlast with rfl | rfl <;> rfl
        rw [compactStep_line hstring hhtml hline, compactStep_line hstring hhtml hseparator,
          inString_inside hstring (by decide) (by decide), hbytes]
        simp only [List.getElem?_cons_succ, List.getElem?_cons_zero, compactFrom, compactStep, List.nil_append, hrest]

/-- The layout is all that indenting adds. -/
theorem jsonCompact_jsonIndent (depth : Nat) (text : Str) : jsonCompact (jsonIndent depth text) = jsonCompact text :=
  compactFrom_indentFrom text .outside _ (Or.inl rfl)

end indent

section escapes

/-- Each HTML character takes six bytes. -/
theorem compactFrom_html_length (c : UInt8) (hc : isHtmlByte c = true) (n : Nat) (t : Str) :
    (compactFrom .inside (List.replicate n c ++ t)).length = 6 * n + (compactFrom .inside t).length := by
  induction n with
  | zero => rw [List.replicate_zero, List.nil_append, Nat.mul_zero, Nat.zero_add]
  | succ n ih =>
    have hlength : (htmlEscape c).length = 6 := rfl
    rw [List.replicate_succ, List.cons_append, compactFrom, compactStep_html (Or.inl rfl) _ hc,
      List.length_append, ih, hlength]
    omega

end escapes

end SmartAwg.Go
