import SmartAwg.ConfParser

/-!
The name of a profile and the encoding of its text. The reader checks the name and stores it, and
does nothing else with it; a text that it refuses is tried again in every encoding of Unicode.
-/

namespace SmartAwg.Conf

open Go

section names
variable (name : Str)

def Config.rename (c : Config) : Config := { c with name := name }

def ParserState.rename (st : ParserState) : ParserState := { st with conf := st.conf.rename name }

theorem assign_rename (st : ParserState) (key val : Str) :
    (st.rename name).assign key val = st.assign key val >>= fun st' => .ok (st'.rename name) := by
  obtain ⟨state, conf, saw, peer⟩ := st
  cases state with
  | inInterfaceSection =>
    simp only [ParserState.rename, ParserState.assign]
    cases lookupKey interfaceKeys key with
    | none => rfl
    | some k =>
      simp only [Config.rename]
      cases conf.interface.apply k val <;> rfl
  | inPeerSection =>
    simp only [ParserState.rename, ParserState.assign]
    cases lookupKey peerKeys key with
    | none => rfl
    | some k =>
      cases peer with
      | none => rfl
      | some p =>
        dsimp only
        cases p.apply k val <;> rfl
  | notInASection => rfl

theorem parseLine_rename (st : ParserState) (raw : Str) :
    parseLine (st.rename name) raw = parseLine st raw >>= fun st' => .ok (st'.rename name) := by
  unfold parseLine
  cases stripComment raw with
  | err e => rfl
  | panic => rfl
  | ok stripped =>
    simp only [Outcome.ok_bind]
    split
    · rfl
    split
    · rfl
    split
    · rfl
    -- the section is the same under both names
    change (if st.state = .notInASection then _ else _) = _
    split
    · rfl
    split
    · rfl
    · rename_i equals hequals
      generalize slice (toLower (trimSpace stripped)) 0 equals = keyText
      generalize sliceFrom (trimSpace stripped) (equals + 1) = valText
      cases keyText with
      | err e => rfl
      | panic => rfl
      | ok keyText =>
        cases valText with
        | err e => rfl
        | panic => rfl
        | ok valText =>
          simp only [Outcome.ok_bind]
          split
          · rfl
          · exact assign_rename name st _ _

theorem parseLines_rename (st : ParserState) (lines : List Str) :
    parseLines (st.rename name) lines = parseLines st lines >>= fun st' => .ok (st'.rename name) := by
  unfold parseLines
  induction lines generalizing st with
  | nil => rfl
  | cons line lines ih =>
    rw [forEach_cons, forEach_cons, parseLine_rename]
    cases parseLine st line with
    | ok st' => exact ih st'
    | err e => rfl
    | panic => rfl

theorem finishConfig_rename (st : ParserState) :
    finishConfig (st.rename name) = finishConfig st >>= fun c => .ok (c.rename name) := by
  have hvalid : validateAWG (st.rename name).addPeer = validateAWG st.addPeer := rfl
  unfold finishConfig
  dsimp only
  change (if !st.sawPrivateKey then _ else if st.addPeer.peers.any _ then _ else _) = _
  split
  · rfl
  split
  · rfl
  · rw [hvalid]
    cases validateAWG st.addPeer <;> rfl

/-- A text that is a profile under one name is the same profile under every other valid name. -/
theorem fromWgQuick_rename {s old : Str} {c : Config} (h : fromWgQuick s old = .ok c)
    (hname : tunnelNameIsValid name = true) : fromWgQuick s name = .ok (c.rename name) := by
  unfold fromWgQuick at h ⊢
  rw [if_neg (by simp [hname])]
  split at h
  · cases h
  · have hinit : ParserState.init name = (ParserState.init old).rename name := rfl
    obtain ⟨st, hst, hfinish⟩ := (Outcome.bind_eq_ok _ _ _).mp h
    rw [hinit, parseLines_rename, hst]
    change finishConfig (st.rename name) = _
    rw [finishConfig_rename, hfinish]
    rfl

end names

/-- A profile has the name it was read under, and that name is valid. -/
theorem fromWgQuick_name {s name : Str} {c : Config} (h : fromWgQuick s name = .ok c) :
    c.name = name ∧ tunnelNameIsValid name = true := by
  have hname : tunnelNameIsValid name = true := by
    unfold fromWgQuick at h
    split at h
    · cases h
    · rename_i hvalid
      simpa using hvalid
  have hsame := (fromWgQuick_rename name h hname).symm.trans h
  exact ⟨(congrArg Config.name (Outcome.ok.inj hsame)).symm, hname⟩

section encodings

/-- A decoder of `unicode.All`; `none` is its error. -/
abbrev Decoder := Str → Option Str

/-- The encodings that are tried one after another when `FromWgQuick` has failed with `firstErr`. -/
def tryEncodings (s name : Str) (firstErr : Err) : List Decoder → Outcome Err Config
  | [] => .err firstErr
  | decoder :: rest =>
    match decoder s with
    | none => tryEncodings s name firstErr rest
    | some decoded =>
      match fromWgQuick decoded name with
      | .ok c => .ok c
      | .err _ => tryEncodings s name firstErr rest
      | .panic => .panic

def fromWgQuickWithUnknownEncoding (decoders : List Decoder) (s name : Str) : Outcome Err Config :=
  match fromWgQuick s name with
  | .ok c => .ok c
  | .err firstErr => tryEncodings s name firstErr decoders
  | .panic => .panic

/-- One UTF-16 unit. -/
def utf16Unit (bigEndian : Bool) (a b : UInt8) : Nat :=
  if bigEndian then a.toNat * 256 + b.toNat else b.toNat * 256 + a.toNat

/-- `utf16.DecodeRune`. -/
def decodeSurrogates (high low : Nat) : Nat :=
  if high < 0xDC00 then 0x10000 + (high - 0xD800) * 0x400 + (low - 0xDC00) else runeError

/-- The UTF-16 decoder. What is no pair of surrogates, and a byte left over at the end, becomes the
replacement character. -/
def utf16Runes (bigEndian : Bool) : Str → List Nat
  | [] => []
  | [_] => [runeError]
  | [a, b] =>
    let x := utf16Unit bigEndian a b
    [if 0xD800 ≤ x ∧ x ≤ 0xDFFF then runeError else x]
  | [a, b, _] =>
    let x := utf16Unit bigEndian a b
    [if 0xD800 ≤ x ∧ x ≤ 0xDFFF then runeError else x, runeError]
  | a :: b :: c :: d :: rest =>
    let x := utf16Unit bigEndian a b
    let y := utf16Unit bigEndian c d
    if 0xD800 ≤ x ∧ x ≤ 0xDFFF then
      if 0xDC00 ≤ y ∧ y ≤ 0xDFFF then decodeSurrogates x y :: utf16Runes bigEndian rest
      else runeError :: utf16Runes bigEndian (c :: d :: rest)
    else x :: utf16Runes bigEndian (c :: d :: rest)

def utf16Decode (bigEndian : Bool) (s : Str) : Str := (utf16Runes bigEndian s).flatMap encodeRune

/-- With `UseBOM` a mark at the start tells the byte order, and is not part of the text. -/
def utf16DecodeBom : Str → Str
  | 0xFE :: 0xFF :: rest => utf16Decode true rest
  | 0xFF :: 0xFE :: rest => utf16Decode false rest
  | s => utf16Decode true s

/-- `unicode.All`: UTF-8, and UTF-16 with a byte order mark and in either byte order. None of the
decoders fails. -/
def unicodeAll : List Decoder :=
  [fun s => some ((runes s).flatMap encodeRune), fun s => some (utf16DecodeBom s),
    fun s => some (utf16Decode true s), fun s => some (utf16Decode false s)]

/-- What `FromWgQuick` accepts is not decoded. -/
theorem fromWgQuickWithUnknownEncoding_of_ok {decoders : List Decoder} {s name : Str} {c : Config}
    (h : fromWgQuick s name = .ok c) : fromWgQuickWithUnknownEncoding decoders s name = .ok c := by
  rw [fromWgQuickWithUnknownEncoding, h]

/-- What is accepted in some encoding is a profile that `FromWgQuick` accepts for some text. -/
theorem fromWgQuickWithUnknownEncoding_ok {decoders : List Decoder} {s name : Str} {c : Config}
    (h : fromWgQuickWithUnknownEncoding decoders s name = .ok c) : ∃ t, fromWgQuick t name = .ok c := by
  unfold fromWgQuickWithUnknownEncoding at h
  split at h
  · rename_i c' hdirect
    exact ⟨s, hdirect.trans h⟩
  · rename_i firstErr hdirect
    induction decoders with
    | nil => cases h
    | cons decoder rest ih =>
      unfold tryEncodings at h
      split at h
      · exact ih h
      · rename_i decoded hdecoded
        split at h
        · rename_i c' hparsed
          exact ⟨decoded, hparsed.trans h⟩
        · exact ih h
        · cases h
  · cases h

end encodings

end SmartAwg.Conf
