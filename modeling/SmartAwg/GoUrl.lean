import SmartAwg.GoNetIP

/-!
The host of a URL as `net/url` parses it: `Parse` followed by `Hostname`, and whether there is
user information. Paths and queries are only checked as far as `Parse` refuses them.
-/

namespace SmartAwg.Go

/-- The unreserved and sub-delimiter bytes a host may hold unescaped. -/
def hostByte (b : UInt8) : Bool :=
  within 0x61 0x7A b || within 0x41 0x5A b || within 0x30 0x39 b || b ≥ 0x80 ||
    b ∈ [0x2D, 0x5F, 0x2E, 0x7E, 0x21, 0x24, 0x26, 0x27, 0x28, 0x29, 0x2A, 0x2B, 0x2C, 0x3B, 0x3D, 0x3A,
      0x5B, 0x5D, 0x3C, 0x3E, 0x22]

/-- What an escape in a host stands for: a byte outside ASCII, or a percent sign. -/
def escapedHost (b : UInt8) : Bool := b ≥ 0x80 || b == 0x25

/-- In a zone it stands for a percent sign, a blank or an ASCII byte that a host may hold anyway. -/
def escapedZone (b : UInt8) : Bool := b == 0x25 || b == 0x20 || b < 0x80 && hostByte b

/-- `unescape` for a host or a zone. -/
def unescapeHost (escaped : UInt8 → Bool) : Str → Option Str
  | [] => some []
  | 0x25 :: hi :: lo :: rest =>
    match hexVal hi, hexVal lo with
    | some h, some l =>
      if escaped (h * 16 + l).toUInt8 then (unescapeHost escaped rest).map ((h * 16 + l).toUInt8 :: ·) else none
    | _, _ => none
  | 0x25 :: _ => none
  | b :: rest => if hostByte b then (unescapeHost escaped rest).map (b :: ·) else none

/-- A host and its zone, which starts at the first escaped percent sign. -/
def cutZone : Str → Str × Str
  | [] => ([], [])
  | b :: rest =>
    if [0x25, 0x32, 0x35].isPrefixOf (b :: rest) then ([], b :: rest)
    else (b :: (cutZone rest).1, (cutZone rest).2)

/-- `unescape` for a path or user information, of which only success matters. -/
def escapesValid : Str → Bool
  | [] => true
  | 0x25 :: hi :: lo :: rest => (hexVal hi).isSome && (hexVal lo).isSome && escapesValid rest
  | 0x25 :: _ => false
  | _ :: rest => escapesValid rest

/-- `validOptionalPort`. -/
def validOptionalPort : Str → Bool
  | [] => true
  | b :: port => b == 0x3A && port.all isDigit

/-- The host in brackets: an IPv6 address, with a zone after an escaped percent sign. -/
def parseBracketed (host : Str) : Option Str :=
  match lastIndexByte host 0x5D with
  | none => none
  | some i =>
    if !validOptionalPort (host.drop (i + 1)) then none
    else
      let (front, zone) := cutZone ((host.take i).drop 1)
      match unescapeHost escapedHost front, unescapeHost escapedZone zone with
      | some front, some zone =>
        match parseAddr (front ++ zone) with
        | some a => if a.is4 then none else some (0x5B :: (front ++ zone ++ host.drop i))
        | none => none
      | _, _ => none

def parseHost (host : Str) : Option Str :=
  if host.head? = some 0x5B then parseBracketed host
  else if 0x5B ∈ host then none
  else
    match indexByte host 0x3A with
    | none => unescapeHost escapedHost host
    | some i =>
      if lastIndexByte host 0x3A ≠ some i ∨ !validOptionalPort (host.drop i) then none
      else unescapeHost escapedHost host

def userinfoByte (b : UInt8) : Bool :=
  within 0x61 0x7A b || within 0x41 0x5A b || within 0x30 0x39 b ||
    b ∈ [0x2D, 0x2E, 0x5F, 0x3A, 0x7E, 0x21, 0x24, 0x26, 0x27, 0x28, 0x29, 0x2A, 0x2B, 0x2C, 0x3B, 0x3D,
      0x25, 0x40]

/-- The host and whether there is user information before it. -/
def parseAuthority (authority : Str) : Option (Str × Bool) :=
  match lastIndexByte authority 0x40 with
  | none => (parseHost authority).map fun host => (host, false)
  | some i =>
    let userinfo := authority.take i
    if userinfo.all userinfoByte && escapesValid userinfo then
      (parseHost (authority.drop (i + 1))).map fun host => (host, true)
    else none

/-- `getScheme`: the scheme and the rest, or nothing for a colon at the front. -/
def getScheme (raw : Str) : Option (Str × Str) :=
  let letter : UInt8 → Bool := fun b => within 0x61 0x7A b || within 0x41 0x5A b
  let more : UInt8 → Bool := fun b => isDigit b || b == 0x2B || b == 0x2D || b == 0x2E
  match raw.dropWhile fun b => letter b || more b with
  | 0x3A :: rest =>
    let scheme := raw.takeWhile fun b => letter b || more b
    if scheme = [] then none
    else if scheme.head?.any letter then some (scheme, rest)
    else some ([], raw)
  | _ => some ([], raw)

/-- The host of a URL without fragment and query, and whether it has user information. -/
def parseRest (scheme rest : Str) : Option (Str × Bool) :=
  if rest.head? ≠ some 0x2F then
    if scheme ≠ [] then some ([], false)
    else if 0x3A ∈ rest.takeWhile (· != 0x2F) then none
    else if escapesValid rest then some ([], false) else none
  else if (scheme ≠ [] ∨ ¬ [0x2F, 0x2F, 0x2F].isPrefixOf rest) ∧ [0x2F, 0x2F].isPrefixOf rest then
    let authority := (rest.drop 2).takeWhile (· != 0x2F)
    match parseAuthority authority with
    | none => none
    | some r => if escapesValid ((rest.drop 2).dropWhile (· != 0x2F)) then some r else none
  else if escapesValid rest then some ([], false) else none

def isControl (b : UInt8) : Bool := b < 0x20 || b == 0x7F

/-- `url.Parse`: the `Host` of the result and whether `User` is set. -/
def urlParse (rawURL : Str) : Option (Str × Bool) :=
  let u := rawURL.takeWhile (· != 0x23)
  if u.any isControl ∨ !escapesValid ((rawURL.dropWhile (· != 0x23)).drop 1) then none
  else if u = [0x2A] then some ([], false)
  else
    match getScheme u with
    | none => none
    | some (scheme, rest) => parseRest scheme (rest.takeWhile (· != 0x3F))

/-- `URL.Hostname`: without the port and the brackets. -/
def hostname (host : Str) : Str :=
  let host :=
    match lastIndexByte host 0x3A with
    | some i => if validOptionalPort (host.drop i) then host.take i else host
    | none => host
  if host.head? = some 0x5B ∧ host.getLast? = some 0x5D then (host.drop 1).dropLast else host

example : (urlParse (ascii "//user@Example.com:443/a?b")).map (fun r => (hostname r.1, r.2)) =
    some (ascii "Example.com", true) := by decide +kernel

/-- Lower-case letters, digits, hyphens and the dots between labels. -/
def isHostChar (b : UInt8) : Bool :=
  within 0x61 0x7A b || within 0x30 0x39 b || b == 0x2D || b == 0x2E

theorem isHostChar_facts (b : UInt8) (h : isHostChar b = true) :
    hostByte b = true ∧ isControl b = false ∧ b < 0x80 ∧ lowerByte b = b ∧
      b ∉ [0x23, 0x25, 0x2F, 0x3A, 0x3F, 0x40, 0x5B, 0x2A] := by
  have hall : ∀ n : Fin 256, isHostChar n.val.toUInt8 = true →
      hostByte n.val.toUInt8 = true ∧ isControl n.val.toUInt8 = false ∧ n.val.toUInt8 < 0x80 ∧
        lowerByte n.val.toUInt8 = n.val.toUInt8 ∧
        n.val.toUInt8 ∉ [0x23, 0x25, 0x2F, 0x3A, 0x3F, 0x40, 0x5B, 0x2A] := by decide +kernel
  simpa using hall ⟨b.toNat, b.toNat_lt⟩ (by simpa using h)

section plain
variable (v : Str) (h : ∀ b ∈ v, isHostChar b = true)
include h

theorem hostChars_not_mem (c : UInt8) (hc : c ∈ [0x23, 0x25, 0x2F, 0x3A, 0x3F, 0x40, 0x5B, 0x2A]) :
    c ∉ v := fun hmem => (isHostChar_facts c (h c hmem)).2.2.2.2 hc

theorem unescapeHost_plain : unescapeHost escapedHost v = some v := by
  induction v with
  | nil => rfl
  | cons b v ih =>
    have hb := isHostChar_facts b (h b (by simp))
    have hpercent : b ≠ 0x25 := fun he => hb.2.2.2.2 (by simp [he])
    unfold unescapeHost
    split
    · rename_i heq
      cases heq
    · rename_i heq
      exact absurd (List.cons.inj heq).1 hpercent
    · rename_i heq
      exact absurd (List.cons.inj heq).1 hpercent
    · rename_i heq
      obtain ⟨rfl, rfl⟩ := List.cons.inj heq
      rw [if_pos hb.1, ih fun c hc => h c (by simp [hc])]
      rfl

theorem parseAuthority_plain : parseAuthority v = some (v, false) := by
  have hnot := hostChars_not_mem v h
  have hat : lastIndexByte v 0x40 = none := (lastIndexByte_eq_none v _).mpr (hnot _ (by decide))
  have hcolon : indexByte v 0x3A = none := (indexByte_eq_none v _).mpr (hnot _ (by decide))
  have hbracket : 0x5B ∉ v := hnot _ (by decide)
  have hhead : v.head? ≠ some 0x5B := fun he => hbracket (List.mem_of_mem_head? he)
  rw [parseAuthority, hat]
  simp only
  rw [parseHost, if_neg hhead, if_neg hbracket, hcolon]
  simp only [unescapeHost_plain v h, Option.map_some]

/-- A host name alone is its own authority. -/
theorem urlParse_plain : urlParse (0x2F :: 0x2F :: v) = some (v, false) := by
  have hnot := hostChars_not_mem v h
  have hkeep : ∀ c ∈ [0x23, 0x2F, 0x3F], v.takeWhile (· != c) = v ∧ v.dropWhile (· != c) = [] := by
    intro c hc
    have hall : ∀ b ∈ v, (b != c) = true := fun b hb => by
      have : c ∉ v := hnot c (by revert c; decide +kernel)
      simpa using fun he : b = c => this (he ▸ hb)
    exact ⟨List.takeWhile_eq_self_iff.mpr hall, List.dropWhile_eq_nil_iff.mpr hall⟩
  have hslash : ¬ [0x2F, 0x2F, 0x2F].isPrefixOf (0x2F :: 0x2F :: v) = true := by
    cases v with
    | nil => simp
    | cons b v => simpa using fun he : 0x2F = b => hnot 0x2F (by decide) (by simp [he])
  have hcontrol : v.any isControl = false := List.any_eq_false.mpr fun b hb => by
    simp [(isHostChar_facts b (h b hb)).2.1]
  have htake : ∀ c ∈ [0x23, 0x3F], (0x2F :: 0x2F :: v).takeWhile (· != c) = 0x2F :: 0x2F :: v ∧
      (0x2F :: 0x2F :: v).dropWhile (· != c) = [] := by
    intro c hc
    have hne : ((0x2F : UInt8) != c) = true := by revert c; decide +kernel
    obtain ⟨h1, h2⟩ := hkeep c (by revert c; decide +kernel)
    exact ⟨by simp only [List.takeWhile_cons, hne, if_true, h1],
      by simp only [List.dropWhile_cons, hne, if_true, h2]⟩
  have hscheme : getScheme (0x2F :: 0x2F :: v) = some ([], 0x2F :: 0x2F :: v) := by
    have hdrop : ((0x2F : UInt8) :: 0x2F :: v).dropWhile (fun b => within 0x61 0x7A b ||
        within 0x41 0x5A b || (isDigit b || b == 0x2B || b == 0x2D || b == 0x2E)) =
        0x2F :: 0x2F :: v := List.dropWhile_cons_of_neg (by decide)
    rw [getScheme, hdrop]
    rfl
  have hrest : parseRest [] (0x2F :: 0x2F :: v) = some (v, false) := by
    obtain ⟨h1, h2⟩ := hkeep 0x2F (by decide)
    have hfront : [0x2F, 0x2F].isPrefixOf ((0x2F : UInt8) :: 0x2F :: v) = true := by simp
    have hdrop : ((0x2F : UInt8) :: 0x2F :: v).drop 2 = v := rfl
    rw [parseRest, if_neg (by simp), if_pos ⟨Or.inr hslash, hfront⟩, hdrop, h1, h2]
    simp only [parseAuthority_plain v h]
    rfl
  rw [urlParse, (htake 0x23 (by decide)).1, (htake 0x23 (by decide)).2]
  simp only [List.any_cons, hcontrol]
  rw [if_neg (by decide), if_neg (by simp), hscheme]
  simp only [(htake 0x3F (by decide)).1, hrest]

theorem hostname_plain : hostname v = v := by
  have hnot := hostChars_not_mem v h
  have hcolon : lastIndexByte v 0x3A = none := (lastIndexByte_eq_none v _).mpr (hnot _ (by decide))
  have hhead : v.head? ≠ some 0x5B := fun he => hnot 0x5B (by decide) (List.mem_of_mem_head? he)
  rw [hostname, hcolon]
  exact if_neg fun hbrackets => hhead hbrackets.1

end plain

end SmartAwg.Go
