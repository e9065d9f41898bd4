import SmartAwg.RenameRepeated
import SmartAwg.SmartSettings

/-!
The identifiers of custom rules after normalisation. A repeated identifier gets the number of its rule
once, and the result is not looked up again.
-/

namespace SmartAwg.Smart

open Go

section identifiers

/-- The identifier a rule asks for: its own without blanks around it, or the number of the rule. -/
def CustomRule.askedID (index : Nat) (rule : CustomRule) : Str :=
  if trimSpace rule.id = [] then ascii "rule-" ++ itoa (index + 1) else trimSpace rule.id

def askedIDs (rules : List CustomRule) : List Str := rules.mapIdx CustomRule.askedID

def numberedID (id : Str) (index : Nat) : Str := id ++ 0x2D :: itoa (index + 1)

/-- The number after the last hyphen tells the position. -/
theorem numberedID_index (a b : Str) (i j : Nat) (h : numberedID a i = numberedID b j) : i = j := by
  have hlast : ∀ (s : Str) (n : Nat), lastIndexByte (numberedID s n) 0x2D = some s.length := by
    intro s n
    refine lastIndexByte_append_cons s _ 0x2D fun hmem => ?_
    exact absurd (itoa_isDigit _ _ hmem) (by decide)
  have hlen : a.length = b.length := by
    have := hlast a i
    rw [h, hlast b j] at this
    exact (Option.some.inj this).symm
  have htail := (List.append_inj h hlen).2
  exact Nat.succ_injective (itoa_injective (List.cons.inj htail).2)

theorem CustomRule.normalized_id (env : Env) (index : Nat) (rule rule' : CustomRule)
    (h : rule.normalized env index = .ok rule') : rule'.id = rule.askedID index := by
  obtain ⟨value, -, -, rfl⟩ := (CustomRule.normalized_eq_ok env index rule rule').mp h
  rfl

/-- The loop of `Normalized` gives the identifiers. -/
theorem normalizeRules_ids (env : Env) (index : Nat) (ids : List Str) (rules rules' : List CustomRule)
    (h : normalizeRules env index ids rules = .ok rules') :
    rules'.map CustomRule.id =
      renameRepeated numberedID index ids (rules.mapIdx fun i => CustomRule.askedID (index + i)) := by
  induction rules generalizing index ids rules' with
  | nil =>
    cases h
    rfl
  | cons rule rules ih =>
    obtain ⟨rule', id, rest, hrule, hgiven, hrest, rfl⟩ :=
      (normalizeRules_cons_eq_ok env index ids rule rules rules').mp h
    have hid := CustomRule.normalized_id env index rule rule' hrule
    have hcases : rule'.id ∈ ids ∧ id = numberedID rule'.id index ∨ rule'.id ∉ ids ∧ id = rule'.id := by
      by_cases hmem : rule'.id ∈ ids
      · rw [if_pos (List.elem_iff.mpr hmem)] at hgiven
        exact Or.inl ⟨hmem, hgiven⟩
      · rw [if_neg (mt List.elem_iff.mp hmem)] at hgiven
        exact Or.inr ⟨hmem, hgiven⟩
    rw [List.mapIdx_cons, Nat.add_zero, ← hid, renameRepeated_cons _ _ _ _ _ _ hcases, List.map_cons,
      ih _ _ _ hrest]
    simp only [Nat.add_assoc, Nat.add_comm 1]

/-- The number of a rule does not clash: where the identifier it asks for is taken, no rule before it
asked for that identifier with the number. -/
def NumbersFree (rules : List CustomRule) : Prop := ∀ i, ClearAt numberedID (askedIDs rules) i

theorem normalizeRules_ids_nodup_iff (env : Env) (rules rules' : List CustomRule)
    (h : normalizeRules env 0 [] rules = .ok rules') :
    (rules'.map CustomRule.id).Nodup ↔ NumbersFree rules := by
  have hids := normalizeRules_ids env 0 [] _ _ h
  simp only [Nat.zero_add] at hids
  rw [hids]
  exact renameRepeated_nodup_iff numberedID_index _

/-- The identifiers after normalisation are different exactly when no number clashes. -/
theorem normalized_ids_nodup_iff (env : Env) (s n : RoutingSettings) (h : s.normalized env = .ok n) :
    (n.customRules.map CustomRule.id).Nodup ↔ NumbersFree s.customRules := by
  obtain ⟨-, -, -, -, catalog, rules, -, hrules, rfl⟩ :=
    (RoutingSettings.normalized_eq_ok env s n).mp h
  exact normalizeRules_ids_nodup_iff env s.customRules rules hrules

/-- Three rules for the same program: the number of the third is what the second is called. -/
def clashingRules : List CustomRule :=
  [⟨ascii "a", [], .application, ascii "a.exe", .vpn, true⟩,
    ⟨ascii "a-3", [], .application, ascii "a.exe", .vpn, true⟩,
    ⟨ascii "a", [], .application, ascii "a.exe", .vpn, true⟩]

/-- Two blank identifiers and one that is the number of a rule. -/
def unnamedRules : List CustomRule :=
  [⟨ascii "rule-2", [], .application, ascii "a.exe", .vpn, true⟩,
    ⟨[], [], .application, ascii "a.exe", .vpn, true⟩,
    ⟨ascii " ", [], .application, ascii "a.exe", .vpn, true⟩]

def ruledSettings (rules : List CustomRule) : RoutingSettings :=
  { plainSettings with customRules := rules }

/-- The three identifiers become `a`, `a-3` and `a-3`. -/
theorem normalized_ids_clash :
    ((ruledSettings clashingRules).normalized plainEnv).map
        (fun n => decide (n.customRules.map CustomRule.id).Nodup) = .ok false := by
  decide +kernel

/-- The unnamed rules after normalisation. -/
def namedRules : List CustomRule :=
  [⟨ascii "rule-2", ascii "a.exe", .application, ascii "a.exe", .vpn, true⟩,
    ⟨ascii "rule-2-2", ascii "a.exe", .application, ascii "a.exe", .vpn, true⟩,
    ⟨ascii "rule-3", ascii "a.exe", .application, ascii "a.exe", .vpn, true⟩]

theorem normalized_ids_unnamed :
    (ruledSettings unnamedRules).normalized plainEnv = .ok (ruledSettings namedRules) ∧
      (namedRules.map CustomRule.id).Nodup ∧ NumbersFree unnamedRules := by
  have h : (ruledSettings unnamedRules).normalized plainEnv = .ok (ruledSettings namedRules) := by
    decide +kernel
  have hnodup : (namedRules.map CustomRule.id).Nodup := by decide +kernel
  exact ⟨h, hnodup, (normalized_ids_nodup_iff plainEnv _ _ h).mp hnodup⟩

end identifiers

end SmartAwg.Smart
