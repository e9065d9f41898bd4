import SmartAwg.ConfParser

/-! `ToWgQuick`: the text of a profile, as a list of `Key = value` lines under section
headers. Each conditional write of the source is an entry that may be absent. -/
namespace SmartAwg.Conf
open Go

namespace SizeKey

def label : SizeKey → String
  | jc => "Jc"
  | jmin => "Jmin"
  | jmax => "Jmax"
  | s1 => "S1"
  | s2 => "S2"
  | s3 => "S3"
  | s4 => "S4"

end SizeKey

namespace TextKey

def headers : List TextKey := [h1, h2, h3, h4]

def extras : List TextKey :=
  [contentPaddingAddition, rekeyAfterTime, rekeyTimeout, rejectAfterTime, keepaliveTimeout,
   maxHandshakeAttempts, randomTrailers, disableCookies]

def scripts : List TextKey := [preUp, postUp, preDown, postDown]

def label : TextKey → String
  | h1 => "H1"
  | h2 => "H2"
  | h3 => "H3"
  | h4 => "H4"
  | contentPaddingAddition => "ContentPaddingAddition"
  | rekeyAfterTime => "RekeyAfterTime"
  | rekeyTimeout => "RekeyTimeout"
  | rejectAfterTime => "RejectAfterTime"
  | keepaliveTimeout => "KeepaliveTimeout"
  | maxHandshakeAttempts => "MaxHandshakeAttempts"
  | randomTrailers => "RandomTrailers"
  | disableCookies => "DisableCookies"
  | preUp => "PreUp"
  | postUp => "PostUp"
  | preDown => "PreDown"
  | postDown => "PostDown"

end TextKey

/-- The name under which the writer prints a key. -/
def InterfaceKey.label : InterfaceKey → String
  | .privateKey => "PrivateKey"
  | .listenPort => "ListenPort"
  | .size k => k.label
  | .text k => k.label
  | .packet .i1 => "I1"
  | .packet .i2 => "I2"
  | .packet .i3 => "I3"
  | .packet .i4 => "I4"
  | .packet .i5 => "I5"
  | .headerProtectionKey => "HeaderProtectionKey"
  | .mtu => "MTU"
  | .address => "Address"
  | .dns => "DNS"
  | .table => "Table"

def PeerKey.label : PeerKey → String
  | .publicKey => "PublicKey"
  | .presharedKey => "PresharedKey"
  | .allowedIPs => "AllowedIPs"
  | .persistentKeepalive => "PersistentKeepalive"
  | .endpoint => "Endpoint"

section entries
variable {κ : Type} (key : κ)

def numEntry (v : UInt16) : List (κ × Str) := if v > 0 then [(key, itoa v.toNat)] else []

def textEntry (v : Str) : List (κ × Str) := if v.length > 0 then [(key, v)] else []

def keyEntry (k : Key) : List (κ × Str) := if !k.isZero then [(key, k.string)] else []

def listEntry (vs : List Str) : List (κ × Str) :=
  if vs.length > 0 then [(key, join vs (ascii ", "))] else []

end entries

/-- `IPackets[key]`, the empty string when the key is absent. -/
def Interface.packet (i : Interface) (k : PacketKey) : Str :=
  (i.ipackets.lookup (ascii k.name)).getD []

/-- The writes of the `[Interface]` section, in order; an absent one is empty. -/
def Interface.entryGroups (i : Interface) : List (List (InterfaceKey × Str)) :=
  [[(.privateKey, i.privateKey.string)],
   numEntry .listenPort i.listenPort,
   SizeKey.all.flatMap fun k => numEntry (.size k) (k.get i),
   TextKey.headers.flatMap fun k => textEntry (.text k) (k.get i),
   PacketKey.all.flatMap fun k => textEntry (.packet k) (i.packet k),
   keyEntry .headerProtectionKey i.headerProtectionKey,
   TextKey.extras.flatMap fun k => textEntry (.text k) (k.get i),
   listEntry .address (i.addresses.map IPCidr.string),
   listEntry .dns (i.dns.map ipString ++ i.dnsSearch),
   numEntry .mtu i.mtu,
   TextKey.scripts.flatMap fun k => textEntry (.text k) (k.get i),
   if i.tableOff then [(.table, ascii "off")] else []]

def Interface.entries (i : Interface) : List (InterfaceKey × Str) := i.entryGroups.flatten

/-- The writes of a `[Peer]` section. -/
def Peer.entryGroups (p : Peer) : List (List (PeerKey × Str)) :=
  [[(.publicKey, p.publicKey.string)],
   keyEntry .presharedKey p.presharedKey,
   listEntry .allowedIPs (p.allowedIPs.map IPCidr.string),
   if !p.endpoint.isEmpty then [(.endpoint, p.endpoint.string)] else [],
   if p.persistentKeepalive.length > 0 ∧ p.persistentKeepalive ≠ ascii "0" ∧
      p.persistentKeepalive ≠ ascii "off" then
    [(.persistentKeepalive, p.persistentKeepalive)] else []]

def Peer.entries (p : Peer) : List (PeerKey × Str) := p.entryGroups.flatten

/-- A line `Key = value` without its line feed. -/
def entryText (label : String) (v : Str) : Str := ascii label ++ 0x20 :: 0x3D :: 0x20 :: v

def toWgQuick (c : Config) : Str :=
  ascii "[Interface]\n"
    ++ c.interface.entries.flatMap (fun (k, v) => entryText k.label v ++ [0x0A])
    ++ c.peers.flatMap fun p =>
      ascii "\n[Peer]\n" ++ p.entries.flatMap fun (k, v) => entryText k.label v ++ [0x0A]

/-- The same text as its list of lines. -/
def wgQuickLines (c : Config) : List Str :=
  ascii "[Interface]" :: c.interface.entries.map (fun (k, v) => entryText k.label v)
    ++ c.peers.flatMap fun p =>
      [] :: ascii "[Peer]" :: p.entries.map fun (k, v) => entryText k.label v

/-- Each line followed by a line feed. -/
def unlines (lines : List Str) : Str := lines.flatMap fun l => l ++ [0x0A]

theorem unlines_append (a b : List Str) : unlines (a ++ b) = unlines a ++ unlines b := by
  simp [unlines]

theorem unlines_map {κ : Type} (f : κ → Str) (entries : List κ) :
    unlines (entries.map f) = entries.flatMap fun e => f e ++ [0x0A] := by
  simp [unlines, List.flatMap_map]

theorem unlines_cons (l : Str) (lines : List Str) :
    unlines (l :: lines) = l ++ 0x0A :: unlines lines := by
  simp [unlines]

theorem toWgQuick_eq_unlines (c : Config) : toWgQuick c = unlines (wgQuickLines c) := by
  have hpeer : ascii "\n[Peer]\n" = 0x0A :: (ascii "[Peer]" ++ [0x0A]) := rfl
  have hinterface : ascii "[Interface]\n" = ascii "[Interface]" ++ [0x0A] := rfl
  have hpeers : ∀ ps : List Peer, (ps.flatMap fun p =>
      ascii "\n[Peer]\n" ++ p.entries.flatMap fun (k, v) => entryText k.label v ++ [0x0A]) =
      unlines (ps.flatMap fun p =>
        [] :: ascii "[Peer]" :: p.entries.map fun (k, v) => entryText k.label v) := by
    intro ps
    induction ps with
    | nil => rfl
    | cons p ps ih =>
      rw [List.flatMap_cons, List.flatMap_cons, unlines_append, ← ih, unlines_cons, unlines_cons,
        unlines_map, hpeer]
      simp only [List.nil_append, List.cons_append, List.append_assoc]
  rw [toWgQuick, wgQuickLines, unlines_append, ← hpeers, unlines_cons, unlines_map, hinterface]
  simp only [List.nil_append, List.cons_append, List.append_assoc]

/-- Splitting a text of complete lines gives the lines and an empty rest. -/
theorem splitOn_unlines (lines : List Str) (h : ∀ l ∈ lines, 0x0A ∉ l) :
    (unlines lines).splitOn 0x0A = lines ++ [[]] := by
  induction lines with
  | nil => simp [unlines]
  | cons l lines ih =>
    have hl := h l (by simp)
    rw [unlines, List.flatMap_cons, List.append_assoc, List.singleton_append,
      List.splitOn_append_cons_self_of_not_mem hl, ← unlines, ih fun l' hl' => h l' (by simp [hl'])]
    rfl

end SmartAwg.Conf
