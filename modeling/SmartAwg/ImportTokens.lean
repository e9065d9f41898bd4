import Mathlib.Logic.Function.Basic
import Mathlib.Tactic.SplitIfs
import SmartAwg.GoStrconv

/-!
The import service: links that hand a profile to the client, each good for one download. Its
state is a table that any number of processes share. A call runs in several steps; each of its
transactions is one step, and the steps of different calls come in any order.

Texts are their UTF-8 bytes.
-/

namespace SmartAwg.Import

open Go

section payload

/-- A byte inside a string of `json.dumps` without `ensure_ascii`. -/
def jsonEscape (b : UInt8) : Str :=
  if b = 0x22 then [0x5C, 0x22]
  else if b = 0x5C then [0x5C, 0x5C]
  else if b = 0x08 then [0x5C, 0x62]
  else if b = 0x0C then [0x5C, 0x66]
  else if b = 0x0A then [0x5C, 0x6E]
  else if b = 0x0D then [0x5C, 0x72]
  else if b = 0x09 then [0x5C, 0x74]
  else if b < 0x20 then [0x5C, 0x75, 0x30, 0x30, digitByte (b.toNat / 16), digitByte (b.toNat % 16)]
  else [b]

def jsonString (s : Str) : Str := 0x22 :: (s.flatMap jsonEscape ++ [0x22])

/-- The object with the version, the name and the config, without white space. -/
def importPayload (name config : Str) : Str :=
  ascii "\x7b\"version\":1,\"name\":" ++ jsonString name ++ ascii ",\"config\":" ++ jsonString config ++
    ascii "\x7d"

/-- The bytes that stand for the character after a backslash. -/
def jsonUnescape (c : UInt8) : UInt8 :=
  if c = 0x62 then 0x08
  else if c = 0x66 then 0x0C
  else if c = 0x6E then 0x0A
  else if c = 0x72 then 0x0D
  else if c = 0x74 then 0x09
  else c

/-- A JSON string after its opening quote, and what follows its closing one. -/
def readString : Str → Option (Str × Str)
  | [] => none
  | 0x22 :: rest => some ([], rest)
  | 0x5C :: 0x75 :: 0x30 :: 0x30 :: h :: l :: rest =>
    (readString rest).map fun r => (((hexVal h).getD 0 * 16 + (hexVal l).getD 0).toUInt8 :: r.1, r.2)
  | 0x5C :: c :: rest => (readString rest).map fun r => (jsonUnescape c :: r.1, r.2)
  | b :: rest => (readString rest).map fun r => (b :: r.1, r.2)

/-- What follows a text. -/
def dropFront (front s : Str) : Option Str :=
  if front.isPrefixOf s then some (s.drop front.length) else none

/-- The name and the config in the answer to a claim. -/
def readPayload (s : Str) : Option (Str × Str) := do
  let s ← dropFront (ascii "\x7b\"version\":1,\"name\":\"") s
  let (name, s) ← readString s
  let s ← dropFront (ascii ",\"config\":\"") s
  let (config, s) ← readString s
  if s = ascii "\x7d" then some (name, config) else none

theorem dropFront_append (front s : Str) : dropFront front (front ++ s) = some s := by
  unfold dropFront
  rw [if_pos (List.isPrefixOf_iff_prefix.mpr (List.prefix_append front s)), List.drop_left]

/-- Each byte is read as what was written for it. -/
theorem readString_escape (b : UInt8) (t : Str) :
    readString (jsonEscape b ++ t) = (readString t).map fun r => (b :: r.1, r.2) := by
  unfold jsonEscape
  split_ifs with hquote hslash h h h h h hlow
  all_goals try (subst b; rfl)
  · -- the code of a control character
    have hdigits : ((hexVal (digitByte (b.toNat / 16))).getD 0 * 16 +
        (hexVal (digitByte (b.toNat % 16))).getD 0).toUInt8 = b := by
      have hb := b.toNat_lt
      rw [hexVal_digitByte _ (by omega), hexVal_digitByte _ (by omega)]
      simp only [Option.getD_some, Nat.div_add_mod']
      simp
    change (readString t).map (fun r => (_ :: r.1, r.2)) = _
    rw [hdigits]
  · change readString (b :: t) = _
    rw [readString]
    · exact fun h => hquote h
    · exact fun _ _ _ h => absurd h hslash
    · exact fun _ _ h => absurd h hslash

theorem readString_flatMap (s rest : Str) :
    readString (s.flatMap jsonEscape ++ 0x22 :: rest) = some (s, rest) := by
  induction s with
  | nil => rfl
  | cons b s ih =>
    rw [List.flatMap_cons, List.append_assoc, readString_escape, ih]
    rfl

/-- The name and the config can be read from the payload. -/
theorem readPayload_importPayload (name config : Str) :
    readPayload (importPayload name config) = some (name, config) := by
  have htext : importPayload name config = ascii "\x7b\"version\":1,\"name\":\"" ++
      (name.flatMap jsonEscape ++ 0x22 :: (ascii ",\"config\":\"" ++
        (config.flatMap jsonEscape ++ 0x22 :: ascii "\x7d"))) := by
    simp only [importPayload, jsonString, List.append_assoc, List.cons_append, List.nil_append]
    rfl
  rw [htext, readPayload, dropFront_append]
  simp only [Option.bind_eq_bind, Option.bind_some, readString_flatMap, dropFront_append, if_pos]

end payload

section table

/-- SHA-256, the cipher under the key of the service, and the address of its links. The cipher
takes a nonce, a text and the data that goes with it; `none` is `InvalidTag`. -/
structure TokenEnv where
  origin : Str
  sha256 : Str → Str
  encrypt : Str → Str → Str → Str
  decrypt : Str → Str → Str → Option Str

structure TokenEnv.Lawful (p : TokenEnv) : Prop where
  injective : Function.Injective p.sha256
  cipher : ∀ nonce plain data, p.decrypt nonce (p.encrypt nonce plain data) data = some plain

/-- A row of `import_tokens`. -/
structure Row where
  digest : Str
  owner : Int
  profile : Int
  expires : Int
  nonce : Str
  payload : Str
  deriving DecidableEq

/-- The rows, no two of which have one digest: it is the primary key. -/
abbrev Table := List Row

/-- The arguments of `issue`. -/
structure Request where
  owner : Int
  profile : Int
  name : Str
  config : Str
  ttl : Int
  deriving DecidableEq

def maxConfig : Nat := 1024 * 1024

/-- The bytes that a profile name must not have: `\ / : * ? " < > |`, NUL and the line ends. -/
def forbiddenInName : Str := [0x5C, 0x2F, 0x3A, 0x2A, 0x3F, 0x22, 0x3C, 0x3E, 0x7C, 0x00, 0x0D, 0x0A]

/-- The message of the `ValueError`, if there is one. -/
def Request.invalid (r : Request) : Option String :=
  if ¬(1 ≤ r.ttl ∧ r.ttl ≤ 300) ∨ r.config.length > maxConfig then
    some "Invalid import size or expiration"
  else if r.name = [] ∨ (runes r.name).length > 32 ∨ r.name.any forbiddenInName.elem then
    some "Invalid profile name"
  else none

/-- `int` of a reading of the clock. -/
def wholeSeconds (clock : Rat) : Int := if 0 ≤ clock then clock.floor else clock.ceil

/-- What `issue` has made before its transaction. -/
structure Ticket where
  request : Request
  token : Str
  nonce : Str
  now : Int
  deriving DecidableEq

def Ticket.expires (k : Ticket) : Int := k.now + k.request.ttl

def Ticket.row (p : TokenEnv) (k : Ticket) : Row where
  digest := p.sha256 k.token
  owner := k.request.owner
  profile := k.request.profile
  expires := k.expires
  nonce := k.nonce
  payload := p.encrypt k.nonce (importPayload k.request.name k.request.config) (p.sha256 k.token)

/-- The transaction of `issue`; `none` is the error of a second row with one digest. -/
def Table.issue (p : TokenEnv) (table : Table) (k : Ticket) : Option Table :=
  let table := table.filter fun r => !decide (r.expires ≤ k.now)
  let table := table.filter fun r => !decide (r.owner = k.request.owner ∧ r.profile = k.request.profile)
  if table.any fun r => r.digest = p.sha256 k.token then none else some (table ++ [k.row p])

/-- Whether `revoke` is about a row. -/
def Row.covered (owner : Int) (profile : Option Int) (r : Row) : Bool :=
  r.owner = owner && profile.all (r.profile = ·)

def Table.revoke (table : Table) (owner : Int) (profile : Option Int) : Table :=
  table.filter fun r => !r.covered owner profile

/-- The transaction of `claim`: the row it selects, and the table without it. -/
def Table.take (table : Table) (digest : Str) : Option Row × Table :=
  (table.find? fun r => r.digest = digest, table.filter fun r => r.digest ≠ digest)

end table

section calls

/-- The pattern `[A-Za-z0-9_-]{43}`. -/
def isToken (token : Str) : Bool :=
  token.length = 43 && token.all fun b =>
    within 0x41 0x5A b || within 0x61 0x7A b || within 0x30 0x39 b || b == 0x5F || b == 0x2D

/-- Where a call stands. -/
inductive Call where
  | ready (k : Ticket)
  | issued (k : Ticket) (link : Str)
  | rejected (message : String)
  | revoked
  | malformed (token : Str)
  | taken (token : Str) (row : Option Row)
  | answered (token : Str) (row : Option Row) (clock : Rat)
  deriving DecidableEq

/-- What `claim` returns for the row it took. -/
inductive Answer where
  | nothing
  | content (bytes : Str)
  | invalidTag
  deriving DecidableEq

def TokenEnv.answer (p : TokenEnv) (token : Str) (row : Option Row) (clock : Rat) : Answer :=
  match row with
  | none => .nothing
  | some r =>
    if (r.expires : Rat) ≤ clock then .nothing
    else
      match p.decrypt r.nonce r.payload (p.sha256 token) with
      | some bytes => .content bytes
      | none => .invalidTag

/-- The table, and the calls so far by their numbers. -/
structure State where
  table : Table
  calls : Nat → Option Call

def State.initial : State := ⟨[], fun _ => none⟩

def State.set (s : State) (id : Nat) (call : Call) : State :=
  { s with calls := Function.update s.calls id (some call) }

/-- The steps of the calls. A call of `issue` makes its ticket, with a reading of the clock, before
its transaction; a call of `claim` reads the clock after its own. A call that fails to get its
transaction goes no further. -/
inductive Step where
  | prepare (id : Nat) (request : Request) (token nonce : Str) (clock : Rat)
  | insert (id : Nat)
  | revoke (id : Nat) (owner : Int) (profile : Option Int)
  | take (id : Nat) (token : Str)
  | answer (id : Nat) (clock : Rat)

def importLink (p : TokenEnv) (token : Str) : Str := p.origin ++ ascii "/pinus/import#token=" ++ token

def State.prepare (s : State) (id : Nat) (k : Ticket) : State :=
  match k.request.invalid with
  | some message => s.set id (.rejected message)
  | none => s.set id (.ready k)

def State.insert (p : TokenEnv) (s : State) (id : Nat) (k : Ticket) : State :=
  match s.table.issue p k with
  | none => s.set id (.rejected "UNIQUE constraint failed: import_tokens.digest")
  | some table => { s with table := table }.set id (.issued k (importLink p k.token))

def State.take (p : TokenEnv) (s : State) (id : Nat) (token : Str) : State :=
  if isToken token then
    let (row, table) := s.table.take (p.sha256 token)
    { s with table := table }.set id (.taken token row)
  else s.set id (.malformed token)

/-- One step; a step that does not fit where its call stands does nothing. -/
def State.step (p : TokenEnv) (s : State) : Step → State
  | .prepare id request token nonce clock =>
    match s.calls id with
    | none => s.prepare id ⟨request, token, nonce, wholeSeconds clock⟩
    | some _ => s
  | .insert id =>
    match s.calls id with
    | some (.ready k) => s.insert p id k
    | _ => s
  | .revoke id owner profile =>
    match s.calls id with
    | none => { s with table := s.table.revoke owner profile }.set id .revoked
    | some _ => s
  | .take id token =>
    match s.calls id with
    | none => s.take p id token
    | some _ => s
  | .answer id clock =>
    match s.calls id with
    | some (.taken token row) => s.set id (.answered token row clock)
    | _ => s

def State.run (p : TokenEnv) (s : State) (steps : List Step) : State := steps.foldl (State.step p) s

/-- The token that a step makes. -/
def Step.token : Step → Option Str
  | .prepare _ _ token _ _ => some token
  | _ => none

end calls

end SmartAwg.Import
