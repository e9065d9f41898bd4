import SmartAwg.KeyedList
import SmartAwg.ConfNames
import SmartAwg.ConfWriter
import SmartAwg.ConfLines

/-!
The stored profiles: one file for each, named after the profile, in a directory that does not tell
names apart by case. A profile is saved over a file that is there already.
-/

namespace SmartAwg.Conf

open Go

/-- A profile on disk. Its text is what the file holds once it is decrypted. -/
structure StoredProfile where
  name : Str
  text : Str
  valid : tunnelNameIsValid name = true
  deriving DecidableEq

/-- What the file system compares. Valid names are ASCII. -/
def fileKey (name : Str) : Str := name.map lowerByte

def StoredProfile.key (f : StoredProfile) : Str := fileKey f.name

abbrev ProfileStore := KeyedList StoredProfile.key

/-- On names `strings.ToLower` is what the file system does. -/
theorem toLower_name {name : Str} (h : ∀ b ∈ name, allowedNameByte b = true) :
    toLower name = fileKey name :=
  toLower_ascii name fun b hb => allowedNameByte_ascii b (h b hb)

inductive StoreErr where
  | accessDenied
  | text (msg : String)
  | system
  deriving DecidableEq

/-- `Config.Save`. `fails` says whether the directory, the encryption or the file system fails; the new
file is written under a random name first, so a failure leaves the old one. -/
def save (overwrite fails : Bool) (store : ProfileStore) (c : Config) : Except StoreErr ProfileStore :=
  if h : tunnelNameIsValid c.name = true then
    if fails ∨ (!overwrite ∧ fileKey c.name ∈ store.keys) then .error .system
    else .ok (store.put ⟨c.name, toWgQuick c, h⟩)
  else .error (.text "Tunnel name is not valid")

/-- `ManagerService.Create`, which `IPCClientNewTunnel` calls. -/
def create (elevated fails : Bool) (store : ProfileStore) (c : Config) : Except StoreErr ProfileStore :=
  if !elevated then .error .accessDenied else save true fails store c

/-- Saving a profile puts its file into the directory. -/
theorem create_ok {fails : Bool} {store : ProfileStore} {c : Config}
    (h : tunnelNameIsValid c.name = true) :
    create true fails store c =
      if fails then .error .system else .ok (store.put ⟨c.name, toWgQuick c, h⟩) := by
  simp only [create, save, Bool.not_true, Bool.false_eq_true, if_false, dif_pos h, false_and, or_false]

end SmartAwg.Conf
