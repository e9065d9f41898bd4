import SmartAwg.GoCodec
import SmartAwg.GoNetPrefix

/-!
Masks and networks of package `net`: `CIDRMask`, `IP.Mask`, `ParseCIDR` and `IPNet`. A nil
address is the empty list.
-/

namespace SmartAwg.Go

/-- `net.CIDRMask`, for a number of bytes instead of bits. -/
def cidrMask (ones len : Nat) : Str := maskBits (List.replicate len 0xFF) ones

/-- `IP.Mask`. -/
def ipMask (ip mask : Str) : Str :=
  let mask := if mask.length = 16 ∧ ip.length = 4 ∧ (mask.take 12).all (· == 0xFF) then mask.drop 12
    else mask
  let ip := if mask.length = 4 ∧ ip.length = 16 ∧ ip.take 12 = v4InV6 then ip.drop 12 else ip
  if ip.length ≠ mask.length then [] else List.zipWith (· &&& ·) ip mask

structure IPNet where
  ip : Str
  mask : Str
  deriving DecidableEq

/-- The value of decimal digits. -/
def decVal (s : Str) : Nat := s.foldl (fun n b => n * 10 + digitVal b) 0

/-- `net.ParseCIDR`. -/
def parseCIDR (s : Str) : Option (Str × IPNet) :=
  match indexByte s 0x2F with
  | none => none
  | some i =>
    let mask := s.drop (i + 1)
    match parseAddr (s.take i) with
    | none => none
    | some a =>
      let len := a.bytes.length
      if a.zone ≠ [] ∨ mask = [] ∨ ¬ mask.all isDigit ∨ decVal mask > 8 * len then none
      else
        let m := cidrMask (decVal mask) len
        some (a.as16, ⟨ipMask a.as16 m, m⟩)

namespace IPNet

/-- `networkNumberAndMask`. -/
def numberAndMask (n : IPNet) : Option (Str × Str) :=
  let ip := (to4 n.ip).getD n.ip
  if ip.length = 4 ∧ n.mask.length = 4 then some (ip, n.mask)
  else if ip.length = 4 ∧ n.mask.length = 16 then some (ip, n.mask.drop 12)
  else if ip.length = 16 ∧ n.mask.length = 16 then some (ip, n.mask)
  else none

def contains (n : IPNet) (ip : Str) : Bool :=
  match n.numberAndMask with
  | none => false
  | some (number, mask) =>
    let ip := (to4 ip).getD ip
    ip.length == number.length && List.zipWith (· &&& ·) number mask == List.zipWith (· &&& ·) ip mask

/-- `simpleMaskLength`: the number of leading ones, if only zeros follow. -/
def maskLength : Str → Option Nat
  | [] => some 0
  | 0xFF :: rest => (maskLength rest).map (8 + ·)
  | b :: rest =>
    match (List.range 8).find? fun n => b == ~~~((0xFF : UInt8) >>> n.toUInt8) with
    | some n => if rest.all (· == 0) then some n else none
    | none => none

def string (n : IPNet) : Str :=
  match n.numberAndMask with
  | none => ascii "<nil>"
  | some (number, mask) =>
    match maskLength mask with
    | some l => ipString number ++ 0x2F :: itoa l
    | none => ipString number ++ 0x2F :: hexEncode mask

end IPNet

/-- Whether an address lies in a network given as text. -/
def cidrContains (cidr ip : Str) : Bool :=
  match parseCIDR cidr with
  | none => false
  | some (_, network) => network.contains ip

example : cidrContains (ascii "10.0.0.0/8") [10, 1, 2, 3] = true := by decide +kernel
example : cidrContains (ascii "fe80::/10") [10, 1, 2, 3] = false := by decide +kernel
example : (parseCIDR (ascii "10.1.2.3/8")).map (fun r => r.2.string) = some (ascii "10.0.0.0/8") := by
  decide +kernel

end SmartAwg.Go
