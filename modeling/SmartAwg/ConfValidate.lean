import SmartAwg.ConfTypes

/-! The checks of `awg_validation.go`: ranges, booleans, packet descriptions and the whole
interface. Where the source ranges over a map, and so reports one of several errors at
random, the entries are tried in the order in which the source lists them. -/
namespace SmartAwg.Conf
open Go

/-- The errors of the package: a `ParseError`, a number error, a plain text with what is
formatted into it, or one error wrapped in the text of another. -/
inductive Err where
  | parse (why : String) (offender : Str)
  | num (e : NumError)
  | text (msg : String)
  | quoted (msg : String) (arg : Str)
  | wrap (msg : String) (e : Err)
  deriving DecidableEq

def rangeBoundary (part : Str) (bits : Nat) : Except Err Nat :=
  if part = [] then .error (.text "empty range boundary")
  else if part.all isDigit then
    match parseUint part bits with
    | .ok n => .ok n
    | .error _ => .error (.text "range boundary is too large")
  else .error (.text "range must contain unsigned decimal integers")

def parseAWGRange (value : Str) (bits : Nat) : Except Err (Nat × Nat) :=
  match value.splitOn 0x2D with
  | [part] => (rangeBoundary part bits).map fun n => (n, n)
  | [first, second] =>
    match rangeBoundary first bits, rangeBoundary second bits with
    | .error e, _ => .error e
    | .ok _, .error e => .error e
    | .ok lo, .ok hi =>
      if lo > hi then .error (.text "range minimum exceeds maximum") else .ok (lo, hi)
  | _ => .error (.text "expected an integer or min-max range")

def parseAWGBool (value : Str) : Except Err Bool :=
  let lower := toLower value
  if lower ∈ ["on", "true", "1", "yes", "t"].map ascii then .ok true
  else if lower ∈ ["off", "false", "0", "no", "f"].map ascii then .ok false
  else .error (.text "expected on or off")

def parsePersistentKeepalive (s : Str) : Except Err Str :=
  if equalFold s (ascii "off") then .ok (ascii "0")
  else
    match parseAWGRange s 16 with
    | .ok _ => .ok s
    | .error e => .error (.wrap "invalid persistent keepalive" e)

/-- What one tag adds to the packet size and to the number of timestamps. -/
def cpsTag (tag arg : Str) (size timestamps : Nat) : Except Err (Nat × Nat) :=
  if tag ∈ ["r", "rc", "rd", "dz"].map ascii then
    match parseAWGRange arg 16 with
    | .ok (low, high) =>
      if low ≠ high ∨ 0x2D ∈ arg then
        .error (.text "CPS length must be a non-negative integer up to 65535")
      else .ok (size + low, timestamps)
    | .error _ => .error (.text "CPS length must be a non-negative integer up to 65535")
  else if tag = ascii "b" then
    let data := if (ascii "0x").isPrefixOf arg then arg.drop 2 else arg
    if data = [] ∨ data.length % 2 ≠ 0 then .error (.text "invalid CPS hexadecimal bytes")
    else
      match hexDecode data with
      | .error _ => .error (.text "invalid CPS hexadecimal bytes")
      | .ok _ => .ok (size + data.length / 2, timestamps)
  else if tag = ascii "t" then
    if arg ≠ [] then .error (.text "CPS timestamp takes no argument")
    else if timestamps + 1 > 1 then .error (.text "CPS allows one timestamp per packet")
    else .ok (size + 4, timestamps + 1)
  else if tag = ascii "d" ∨ tag = ascii "ds" then
    if arg ≠ [] then .error (.text "CPS data tag takes no argument") else .ok (size, timestamps)
  else .error (.quoted "unsupported CPS tag" tag)

/-- The tag and the argument between the brackets. -/
def cpsParts (inside : Str) : Except Err (Str × Str) :=
  match fields inside with
  | [tag] => .ok (tag, [])
  | [tag, arg] => .ok (tag, arg)
  | _ => .error (.text "invalid CPS tag")

/-- The loop of `ValidateCPS`; it returns the number of tags. Each round removes at least
two bytes, so with the length as fuel the first equation only meets the empty rest. -/
def cpsLoop : Nat → Str → Nat → Nat → Nat → Outcome Err Nat
  | 0, rest, _, count, _ => if rest = [] then .ok count else .panic
  | fuel + 1, rest, size, count, timestamps =>
    if rest = [] then .ok count
    else
      index rest 0 >>= fun first =>
      if first ≠ 0x3C then .err (.text "CPS must consist of <tag> elements")
      else
        match indexByte rest 0x3E with
        | none => .err (.text "CPS has an unclosed tag")
        | some close =>
          slice rest 1 close >>= fun inside =>
          .ofExcept (cpsParts inside) >>= fun (tag, arg) =>
          .ofExcept (cpsTag tag arg size timestamps) >>= fun (size', timestamps') =>
          if size' > 65507 then .err (.text "CPS packet exceeds UDP payload limit")
          else if count + 1 > 4096 then .err (.text "too many CPS tags")
          else
            sliceFrom rest (close + 1) >>= fun rest' =>
            cpsLoop fuel (trimSpace rest') size' (count + 1) timestamps'

def validateCPS (spec : Str) : Outcome Err Unit :=
  if spec.length > 256 * 1024 then .err (.text "CPS description is too large")
  else
    cpsLoop spec.length (trimSpace spec) 0 0 0 >>= fun count =>
    if count = 0 then .err (.text "empty CPS packet") else .ok ()

/-- S1 to S4 against the size of the packet each of them pads. -/
def validatePadding (protected_ : Bool) : Nat → List (UInt16 × Nat) → Except Err Unit
  | _, [] => .ok ()
  | n, (p, payload) :: rest =>
    if p.toNat + payload > 65507 then
      .error (.text s!"S{n + 1} and packet/MTU exceed UDP payload limit")
    else if protected_ && p < 12 then
      .error (.text s!"S{n + 1} must be at least 12 with HeaderProtectionKey")
    else validatePadding protected_ (n + 1) rest

/-- The first earlier header range that meets `[lo, hi]`, by its index. -/
def overlapping (lo hi : Nat) (ranges : List (Nat × Nat)) : Option Nat :=
  ranges.findIdx? fun r => lo ≤ r.2 && hi ≥ r.1

/-- H1 to H4: each a range, an empty one standing for its number, no two overlapping. -/
def validateHeaders : List (Nat × Nat) → List Str → Except Err Unit
  | _, [] => .ok ()
  | ranges, h :: rest =>
    let n := ranges.length
    match parseAWGRange (if h = [] then itoa (n + 1) else h) 32 with
    | .error e => .error (.wrap s!"H{n + 1}" e)
    | .ok (lo, hi) =>
      match overlapping lo hi ranges with
      | some prev => .error (.text s!"H{prev + 1} and H{n + 1} overlap")
      | none => validateHeaders (ranges ++ [(lo, hi)]) rest

/-- One check for every nonempty value of a table, with its name around the error. -/
def validateEach {α : Type} (check : Str → Except Err α) : List (String × Str) → Except Err Unit
  | [] => .ok ()
  | (name, value) :: rest =>
    if value = [] then validateEach check rest
    else
      match check value with
      | .error e => .error (.wrap name e)
      | .ok _ => validateEach check rest

def validateKeepalives : List Peer → Except Err Unit
  | [] => .ok ()
  | peer :: rest =>
    if peer.persistentKeepalive = [] then validateKeepalives rest
    else
      match parsePersistentKeepalive peer.persistentKeepalive with
      | .error e => .error e
      | .ok _ => validateKeepalives rest

def packetNames : List String := ["i1", "i2", "i3", "i4", "i5"]

def validatePackets : List (Sigma fun _ : Str => Str) → Outcome Err Unit
  | [] => .ok ()
  | ⟨key, spec⟩ :: rest =>
    match packetNames.find? fun name => ascii name == key with
    | none => .err (.text "unknown CPS packet field")
    | some name =>
      match validateCPS spec with
      | .ok () => validatePackets rest
      | .err e => .err (.wrap name.toUpper e)
      | .panic => .panic

def Interface.paddings (i : Interface) : List (UInt16 × Nat) :=
  let mtu := if i.mtu = 0 then 1420 else i.mtu.toNat
  [(i.initPacketJunkSize, 148), (i.responsePacketJunkSize, 92), (i.cookieReplyPacketJunkSize, 64),
   (i.transportPacketJunkSize, mtu + 32 + 15)]

def Interface.headers (i : Interface) : List Str :=
  [i.initPacketMagicHeader, i.responsePacketMagicHeader, i.underloadPacketMagicHeader,
   i.transportPacketMagicHeader]

def Interface.timers (i : Interface) : List (String × Str) :=
  [("ContentPaddingAddition", i.contentPaddingAddition), ("RekeyAfterTime", i.rekeyAfterTime),
   ("RekeyTimeout", i.rekeyTimeout), ("RejectAfterTime", i.rejectAfterTime),
   ("KeepaliveTimeout", i.keepaliveTimeout), ("MaxHandshakeAttempts", i.maxHandshakeAttempts)]

def Interface.switches (i : Interface) : List (String × Str) :=
  [("RandomTrailers", i.randomTrailers), ("DisableCookies", i.disableCookies)]

def validateAWG (c : Config) : Outcome Err Unit :=
  let i := c.interface
  if i.junkPacketMinSize > i.junkPacketMaxSize then .err (.text "Jmin must not exceed Jmax")
  else if i.junkPacketMaxSize > 65507 then .err (.text "Jmax exceeds UDP payload limit")
  else
    .ofExcept (validatePadding (!i.headerProtectionKey.isZero) 0 i.paddings) >>= fun _ =>
    .ofExcept (validateHeaders [] i.headers) >>= fun _ =>
    .ofExcept (validateEach (parseAWGRange · 16) i.timers) >>= fun _ =>
    .ofExcept (validateEach parseAWGBool i.switches) >>= fun _ =>
    .ofExcept (validateKeepalives c.peers) >>= fun _ =>
    validatePackets i.ipackets.entries

example : validateCPS (ascii "<b 0x0102><t><r 10>") = .ok () := by decide +kernel
example : validateCPS (ascii "<r -1>") =
    .err (.text "CPS length must be a non-negative integer up to 65535") := by decide +kernel

end SmartAwg.Conf
