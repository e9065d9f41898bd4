import SmartAwg.SmartEnvelope
import SmartAwg.SmartHistory

/-!
Saving over files that cannot be read. A save first records what it replaces, so it needs the old
settings and their history to be readable.
-/

namespace SmartAwg.Smart

open Go Fallible Fallible.Prog

section replacing
variable {p : StoreEnv} {env : Env} {name x : Str} {d : Disk} {s n old : RoutingSettings}
  {past : List SettingsRevision}

/-- Settings that can be saved where there are none: they have a normal form, and its JSON is
below the limit. -/
def StoreEnv.Fits (p : StoreEnv) (env : Env) (s : RoutingSettings) : Prop :=
  ∃ n, s.normalized env = .ok n ∧ (p.encode n).length < maxSettingsSize

section present
variable (hx : d (p.key (p.settingsFile name)) = some x) (hshort : x.length ≤ maxSettingsSize)
include hx hshort

end present

end replacing

end SmartAwg.Smart
