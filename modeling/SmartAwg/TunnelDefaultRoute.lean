import Mathlib.Data.UInt
import SmartAwg.LowestFirst

/-!
The default route that the sockets of a tunnel are bound to. Its cost is a sum of two metrics in 32
bits, compared with the largest number of 32 bits; the supervisor of Smart adds the same metrics in
64 bits.
-/

namespace SmartAwg.Tunnel

open LowestFirst

section loop

/-- A row of the forwarding table; the index zero means that there is no interface. -/
structure ForwardRow where
  prefixLength : UInt8
  interfaceLUID : UInt64
  interfaceIndex : UInt32
  metric : UInt32
  index_ne : interfaceIndex ≠ 0
  deriving DecidableEq

/-- What the system says about an interface: whether it is up, and its metric. -/
structure InterfaceEnv where
  operStatusUp : UInt64 → Option Bool
  metric : UInt64 → Option UInt32

structure BindState where
  lowestMetric : UInt32
  chosen : Option ForwardRow
  deriving DecidableEq

def BindState.index (st : BindState) : UInt32 := st.chosen.elim 0 ForwardRow.interfaceIndex

def BindState.luid (st : BindState) : UInt64 := st.chosen.elim 0 ForwardRow.interfaceLUID

/-- The body of the loop of `bindSocketRoute`. -/
def bindStep (env : InterfaceEnv) (ourLUID : UInt64) (st : BindState) (row : ForwardRow) : BindState :=
  if row.prefixLength ≠ 0 ∨ row.interfaceLUID = ourLUID then st
  else if env.operStatusUp row.interfaceLUID ≠ some true then st
  else
    match env.metric row.interfaceLUID with
    | none => st
    | some metric =>
      if row.metric + metric < st.lowestMetric then ⟨row.metric + metric, some row⟩ else st

def bindLoop (env : InterfaceEnv) (ourLUID : UInt64) (table : List ForwardRow) : BindState :=
  table.foldl (bindStep env ourLUID) ⟨0xFFFFFFFF, none⟩

/-- The call of the binder, if the interface is another one than last time: its index and whether
traffic is blackholed. -/
def bindSocketRoute (env : InterfaceEnv) (ourLUID lastLUID : UInt64) (lastIndex : UInt32)
    (blackholeWhenLoop : Bool) (table : List ForwardRow) : Option (UInt32 × Bool) :=
  let st := bindLoop env ourLUID table
  if st.luid = lastLUID ∧ st.index = lastIndex then none
  else some (st.index, blackholeWhenLoop && st.index == 0)

/-- `smartDefaultRouteCandidate`. -/
structure RouteCandidate where
  interfaceIndex : Int
  routeMetric : UInt32
  interfaceMetric : UInt32
  up : Bool
  excluded : Bool

/-- The loop of `selectSmartDefaultRouteIndexes`: the lowest metric and the indexes of the map. -/
def selectStep (st : UInt64 × List Int) (c : RouteCandidate) : UInt64 × List Int :=
  if c.interfaceIndex ≤ 0 ∨ c.up = false ∨ c.excluded = true then st
  else
    let metric := c.routeMetric.toUInt64 + c.interfaceMetric.toUInt64
    let st := if metric < st.1 then (metric, []) else st
    if metric = st.1 then (st.1, c.interfaceIndex :: st.2) else st

def selectSmartDefaultRouteIndexes (candidates : List RouteCandidate) : List Int :=
  (candidates.foldl selectStep (0xFFFFFFFFFFFFFFFF, [])).2

end loop

section usable

/-- A default route that can be used, with the metric of its interface. -/
structure Usable where
  row : ForwardRow
  interfaceMetric : UInt32
  deriving DecidableEq

/-- The exact cost of a route. -/
def Usable.cost (u : Usable) : Nat := u.row.metric.toNat + u.interfaceMetric.toNat

/-- The cost as the loop adds it up. -/
def Usable.sum (u : Usable) : Nat := (u.row.metric + u.interfaceMetric).toNat

def Usable.candidate (u : Usable) : RouteCandidate where
  interfaceIndex := u.row.interfaceIndex.toNat
  routeMetric := u.row.metric
  interfaceMetric := u.interfaceMetric
  up := true
  excluded := false

/-- A default route of another interface, which is up and answers. -/
def usableRow (env : InterfaceEnv) (ourLUID : UInt64) (row : ForwardRow) : Option Usable :=
  if row.prefixLength ≠ 0 ∨ row.interfaceLUID = ourLUID ∨
      env.operStatusUp row.interfaceLUID ≠ some true then none
  else (env.metric row.interfaceLUID).map (Usable.mk row)

def usable (env : InterfaceEnv) (ourLUID : UInt64) (table : List ForwardRow) : List Usable :=
  table.filterMap (usableRow env ourLUID)

theorem bindStep_eq (env : InterfaceEnv) (ourLUID : UInt64) (st : BindState) (row : ForwardRow) :
    bindStep env ourLUID st row = (usableRow env ourLUID row).elim st fun u =>
      if u.row.metric + u.interfaceMetric < st.lowestMetric then
        ⟨u.row.metric + u.interfaceMetric, some u.row⟩ else st := by
  unfold bindStep usableRow
  by_cases hroute : row.prefixLength ≠ 0 ∨ row.interfaceLUID = ourLUID
  · rw [if_pos hroute, if_pos (or_assoc.mp (Or.inl hroute))]
    rfl
  by_cases hup : env.operStatusUp row.interfaceLUID ≠ some true
  · rw [if_neg hroute, if_pos hup, if_pos (Or.inr (Or.inr hup))]
    rfl
  rw [if_neg hroute, if_neg hup, if_neg (by rw [← or_assoc, not_or]; exact ⟨hroute, hup⟩)]
  cases env.metric row.interfaceLUID with
  | none => rfl
  | some metric => rfl

/-- The state of the loop and the lightest usable route so far. -/
structure Tracks (st : BindState) (kept : Nat × Option Usable) : Prop where
  lowest : st.lowestMetric.toNat = kept.1
  chosen : st.chosen = kept.2.map Usable.row

theorem bindStep_tracks (env : InterfaceEnv) (ourLUID : UInt64) (row : ForwardRow) (st : BindState)
    (kept : Nat × Option Usable) (h : Tracks st kept) :
    Tracks (bindStep env ourLUID st row)
      ((usableRow env ourLUID row).elim kept (lighter Usable.sum kept)) := by
  rw [bindStep_eq]
  cases usableRow env ourLUID row with
  | none => exact h
  | some u =>
    have hlt : u.row.metric + u.interfaceMetric < st.lowestMetric ↔ u.sum < kept.1 := by
      rw [UInt32.lt_iff_toNat_lt, h.lowest]
      rfl
    simp only [Option.elim_some, lighter, hlt]
    split
    · exact ⟨rfl, rfl⟩
    · exact h

theorem foldl_bindStep_tracks (env : InterfaceEnv) (ourLUID : UInt64) (table : List ForwardRow)
    (st : BindState) (kept : Nat × Option Usable) (h : Tracks st kept) :
    Tracks (table.foldl (bindStep env ourLUID) st)
      ((usable env ourLUID table).foldl (lighter Usable.sum) kept) := by
  induction table generalizing st kept with
  | nil => exact h
  | cons row table ih =>
    have hrow := bindStep_tracks env ourLUID row st kept h
    rw [List.foldl_cons, usable, List.filterMap_cons]
    cases hu : usableRow env ourLUID row with
    | none =>
      rw [hu] at hrow
      exact ih _ _ hrow
    | some u =>
      rw [hu] at hrow
      exact ih _ _ hrow

/-- The loop chooses the first usable route with the smallest sum below the limit. -/
theorem bindLoop_chosen (env : InterfaceEnv) (ourLUID : UInt64) (table : List ForwardRow) :
    (bindLoop env ourLUID table).chosen =
      (lightest Usable.sum 4294967295 (usable env ourLUID table)).2.map Usable.row :=
  (foldl_bindStep_tracks env ourLUID table _ (4294967295, none) ⟨rfl, rfl⟩).chosen

end usable

section select

/-- The sums of the supervisor are exact. -/
theorem candidate_metric (u : Usable) :
    (u.candidate.routeMetric.toUInt64 + u.candidate.interfaceMetric.toUInt64).toNat = u.cost := by
  have hroute := u.row.metric.toNat_lt
  have hinterface := u.interfaceMetric.toNat_lt
  rw [UInt64.toNat_add, Nat.mod_eq_of_lt]
  · rfl
  · show u.row.metric.toNat + u.interfaceMetric.toNat < 2 ^ 64
    omega

theorem cost_lt (u : Usable) : u.cost < 2 ^ 33 - 1 := by
  have hroute := u.row.metric.toNat_lt
  have hinterface := u.interfaceMetric.toNat_lt
  unfold Usable.cost
  omega

/-- The lowest cost of the routes so far, and the indexes of the routes that have it. -/
structure Selects (us : List Usable) (st : UInt64 × List Int) : Prop where
  lowest : ∀ u ∈ us, st.1.toNat ≤ u.cost
  indexes : ∀ i, i ∈ st.2 ↔ ∃ u ∈ us, u.cost = st.1.toNat ∧ u.candidate.interfaceIndex = i
  reached : us ≠ [] → ∃ u ∈ us, u.cost = st.1.toNat

theorem selectStep_candidate (u : Usable) (st : UInt64 × List Int) :
    ∃ metric : UInt64, metric.toNat = u.cost ∧ selectStep st u.candidate =
      if metric < st.1 then (metric, [u.candidate.interfaceIndex])
      else if metric = st.1 then (st.1, u.candidate.interfaceIndex :: st.2) else st := by
  have hindex : ¬(u.candidate.interfaceIndex ≤ 0 ∨ u.candidate.up = false ∨
      u.candidate.excluded = true) := by
    have hne : u.row.interfaceIndex.toNat ≠ 0 := fun h => u.row.index_ne (UInt32.toNat_inj.mp h)
    simp only [Usable.candidate, Bool.true_eq_false, Bool.false_eq_true, or_false]
    omega
  refine ⟨_, candidate_metric u, ?_⟩
  rw [selectStep, if_neg hindex]
  dsimp only
  split
  · rw [if_pos rfl]
  · rfl

theorem selectStep_selects (us : List Usable) (u : Usable) (st : UInt64 × List Int)
    (hst : us = [] → u.cost < st.1.toNat) (h : Selects us st) :
    Selects (us ++ [u]) (selectStep st u.candidate) := by
  obtain ⟨metric, hmetric, hstep⟩ := selectStep_candidate u st
  have hlt : metric < st.1 ↔ u.cost < st.1.toNat := by rw [UInt64.lt_iff_toNat_lt, hmetric]
  have heq : metric = st.1 ↔ u.cost = st.1.toNat := by rw [← UInt64.toNat_inj, hmetric]
  rw [hstep]
  simp only [hlt, heq]
  -- a cheaper route replaces the indexes, one that costs the same adds its own
  rcases Nat.lt_trichotomy u.cost st.1.toNat with hless | hsame | hmore
  · rw [if_pos hless]
    refine ⟨?_, ?_, fun _ => ⟨u, by simp, hmetric.symm⟩⟩
    · intro v hv
      rcases List.mem_append.mp hv with hv | hv
      · exact hmetric.le.trans (hless.le.trans (h.lowest v hv))
      · rw [List.mem_singleton.mp hv]
        exact hmetric.le
    · intro i
      rw [List.mem_singleton]
      constructor
      · rintro rfl
        exact ⟨u, by simp, hmetric.symm, rfl⟩
      · rintro ⟨v, hv, hcost, rfl⟩
        rcases List.mem_append.mp hv with hv | hv
        · have hle := h.lowest v hv
          have hmin : v.cost = metric.toNat := hcost
          omega
        · rw [List.mem_singleton.mp hv]
  · rw [if_neg (by omega), if_pos hsame]
    refine ⟨?_, ?_, fun _ => ⟨u, by simp, hsame⟩⟩
    · intro v hv
      rcases List.mem_append.mp hv with hv | hv
      · exact h.lowest v hv
      · rw [List.mem_singleton.mp hv, hsame]
    · intro i
      rw [List.mem_cons, h.indexes]
      constructor
      · rintro (rfl | ⟨v, hv, hcost, rfl⟩)
        · exact ⟨u, by simp, hsame, rfl⟩
        · exact ⟨v, by simp [hv], hcost, rfl⟩
      · rintro ⟨v, hv, hcost, rfl⟩
        rcases List.mem_append.mp hv with hv | hv
        · exact Or.inr ⟨v, hv, hcost, rfl⟩
        · rw [List.mem_singleton.mp hv]
          exact Or.inl rfl
  · rw [if_neg (by omega), if_neg (by omega)]
    have hne : us ≠ [] := fun hnil => by
      have hfirst := hst hnil
      omega
    refine ⟨?_, ?_, fun _ => ?_⟩
    · intro v hv
      rcases List.mem_append.mp hv with hv | hv
      · exact h.lowest v hv
      · rw [List.mem_singleton.mp hv]
        exact hmore.le
    · intro i
      rw [h.indexes]
      constructor
      · rintro ⟨v, hv, hcost, rfl⟩
        exact ⟨v, by simp [hv], hcost, rfl⟩
      · rintro ⟨v, hv, hcost, rfl⟩
        rcases List.mem_append.mp hv with hv | hv
        · exact ⟨v, hv, hcost, rfl⟩
        · rw [List.mem_singleton.mp hv] at hcost
          omega
    · obtain ⟨v, hv, hcost⟩ := h.reached hne
      exact ⟨v, by simp [hv], hcost⟩

theorem foldl_selects (us : List Usable) :
    Selects us (us.map Usable.candidate |>.foldl selectStep (0xFFFFFFFFFFFFFFFF, [])) := by
  induction us using List.reverseRecOn with
  | nil => exact ⟨by simp, by simp, by simp⟩
  | append_singleton us u ih =>
    rw [List.map_append, List.foldl_append]
    apply selectStep_selects us u _ _ ih
    rintro rfl
    exact (cost_lt u).trans (by decide)

/-- The indexes that are selected are those of the routes with the lowest exact cost. -/
theorem mem_selectSmartDefaultRouteIndexes (us : List Usable) (i : Int) :
    i ∈ selectSmartDefaultRouteIndexes (us.map Usable.candidate) ↔
      ∃ u ∈ us, (∀ v ∈ us, u.cost ≤ v.cost) ∧ u.candidate.interfaceIndex = i := by
  have h := foldl_selects us
  rw [selectSmartDefaultRouteIndexes, h.indexes]
  constructor
  · rintro ⟨u, hu, hcost, hi⟩
    exact ⟨u, hu, fun v hv => hcost.trans_le (h.lowest v hv), hi⟩
  · rintro ⟨u, hu, hmin, hi⟩
    obtain ⟨v, hv, hcost⟩ := h.reached (List.ne_nil_of_mem hu)
    exact ⟨u, hu, Nat.le_antisymm ((hmin v hv).trans hcost.le) (h.lowest u hu), hi⟩

end select

section cheapest

/-- The sum in 32 bits: exact, or too small by the largest number and one. -/
theorem sum_eq (u : Usable) : u.sum = if u.cost < 4294967296 then u.cost else u.cost - 4294967296 := by
  have hlt := cost_lt u
  rw [Usable.sum, UInt32.toNat_add]
  change u.cost % 2 ^ 32 = _
  split
  · exact Nat.mod_eq_of_lt ‹_›
  · omega

/-- What is asked of a table with a usable route: the loop chooses a cheapest one, the supervisor
selects its interface as well, and nothing is blackholed. -/
def PicksCheapest (env : InterfaceEnv) (ourLUID : UInt64) (table : List ForwardRow) : Prop :=
  ∃ u ∈ usable env ourLUID table, (bindLoop env ourLUID table).chosen = some u.row ∧
    (∀ v ∈ usable env ourLUID table, u.cost ≤ v.cost) ∧
    u.candidate.interfaceIndex ∈
      selectSmartDefaultRouteIndexes ((usable env ourLUID table).map Usable.candidate) ∧
    ∀ lastLUID lastIndex blackholeWhenLoop, ∀ call ∈
      bindSocketRoute env ourLUID lastLUID lastIndex blackholeWhenLoop table,
      call = (u.row.interfaceIndex, false)

/-- No sum that is too small, and no limit, comes between: the lowest cost is not the limit itself,
and while it is below it every route whose sum does not fit costs more than the limit and the lowest
cost together, or just as much and stands behind a cheapest one. -/
def SumsFit (us : List Usable) : Prop :=
  ∃ lowest, (∃ u ∈ us, u.cost = lowest) ∧ (∀ u ∈ us, lowest ≤ u.cost) ∧ lowest ≠ 4294967295 ∧
    (lowest < 4294967295 → ∀ pre u post, us = pre ++ u :: post → 4294967296 ≤ u.cost →
      lowest + 4294967296 < u.cost ∨
        (u.cost = lowest + 4294967296 ∧ ∃ v ∈ pre, v.cost = lowest))

theorem usable_row_inj {env : InterfaceEnv} {ourLUID : UInt64} {table : List ForwardRow}
    {u v : Usable} (hu : u ∈ usable env ourLUID table) (hv : v ∈ usable env ourLUID table)
    (h : u.row = v.row) : u = v := by
  have hmetric : ∀ u ∈ usable env ourLUID table, env.metric u.row.interfaceLUID = some u.interfaceMetric := by
    intro u hu
    obtain ⟨row, -, hrow⟩ := List.mem_filterMap.mp hu
    rw [usableRow] at hrow
    split at hrow
    · cases hrow
    · obtain ⟨metric, hmetric, rfl⟩ := Option.map_eq_some_iff.mp hrow
      exact hmetric
  have hu' := hmetric u hu
  rw [h, hmetric v hv, Option.some.injEq] at hu'
  obtain ⟨row, metric⟩ := u
  obtain ⟨row', metric'⟩ := v
  cases h
  cases hu'
  rfl

/-- The cheapest route is chosen: the interface is selected by the supervisor and is bound. -/
theorem picksCheapest_iff_chosen (env : InterfaceEnv) (ourLUID : UInt64) (table : List ForwardRow) :
    PicksCheapest env ourLUID table ↔
      ∃ u ∈ usable env ourLUID table, (bindLoop env ourLUID table).chosen = some u.row ∧
        ∀ v ∈ usable env ourLUID table, u.cost ≤ v.cost := by
  constructor
  · rintro ⟨u, hu, hchosen, hmin, -⟩
    exact ⟨u, hu, hchosen, hmin⟩
  · rintro ⟨u, hu, hchosen, hmin⟩
    refine ⟨u, hu, hchosen, hmin, ?_, ?_⟩
    · exact (mem_selectSmartDefaultRouteIndexes _ _).mpr ⟨u, hu, hmin, rfl⟩
    · intro lastLUID lastIndex blackholeWhenLoop call hcall
      have hindex : (bindLoop env ourLUID table).index = u.row.interfaceIndex := by
        rw [BindState.index, hchosen]
        rfl
      simp only [bindSocketRoute, hindex] at hcall
      split at hcall
      · cases hcall
      · rw [← Option.some.inj hcall, beq_eq_false_iff_ne.mpr u.row.index_ne, Bool.and_false]

theorem lightest_of_sumsFit (us : List Usable) (h : SumsFit us) :
    ∃ u ∈ us, (lightest Usable.sum 4294967295 us).2 = some u ∧ ∀ v ∈ us, u.cost ≤ v.cost := by
  obtain ⟨lowest, ⟨best, hbest, hcost⟩, hle, hlimit, hfit⟩ := h
  have hbelow : best.sum < 4294967295 := by
    have hlt := cost_lt best
    rw [sum_eq]
    split <;> omega
  rcases lightest_cases Usable.sum 4294967295 us with ⟨-, hall⟩ | ⟨pre, u, post, hkept, hu⟩
  · exact absurd (hall best hbest) (Nat.not_le.mpr hbelow)
  have hmem := hu.mem
  have hsum := hu.le best hbest
  refine ⟨u, hmem, by rw [hkept], ?_⟩
  have hlow : u.cost = lowest := by
    have hu_le := hle u hmem
    rw [sum_eq, sum_eq, hcost] at hsum
    by_cases hwrap : u.cost < 4294967296
    · rw [if_pos hwrap] at hsum
      split at hsum <;> omega
    · by_cases hsmall : lowest < 4294967295
      · -- the sum of the chosen route would be too small, but then it is not lighter
        rcases hfit hsmall pre u post hu.split (by omega) with hmore | ⟨hsame, v, hv, hvcost⟩
        · rw [if_neg hwrap, if_pos (by omega)] at hsum
          omega
        · have hbefore := hu.before v hv
          rw [sum_eq, sum_eq, if_neg hwrap, if_pos (by omega)] at hbefore
          omega
      · rw [if_neg hwrap, if_neg (by omega)] at hsum
        omega
  intro v hv
  rw [hlow]
  exact hle v hv

theorem sumsFit_of_lightest (us : List Usable) (u : Usable)
    (hkept : (lightest Usable.sum 4294967295 us).2 = some u) (hmin : ∀ v ∈ us, u.cost ≤ v.cost) :
    SumsFit us := by
  obtain ⟨pre, post, hu⟩ := lightest_kept Usable.sum hkept
  have hbelow := hu.below
  refine ⟨u.cost, ⟨u, hu.mem, rfl⟩, hmin, ?_, ?_⟩
  · intro heq
    rw [sum_eq, if_pos (by omega)] at hbelow
    omega
  · intro hsmall pre' v post' hsplit hwrap
    have husum : u.sum = u.cost := by
      rw [sum_eq, if_pos (by omega)]
    have hvsum : v.sum = v.cost - 4294967296 := by
      rw [sum_eq, if_neg (by omega)]
    have hle := hu.le v (by rw [hsplit]; simp)
    rcases hu.place hsplit with hlt | rfl | hbefore
    · left
      omega
    · omega
    · by_cases heq : v.cost = u.cost + 4294967296
      · exact Or.inr ⟨heq, u, hbefore, rfl⟩
      · left
        omega

/-- The cheapest default route is picked exactly when no sum in 32 bits misleads the loop. -/
theorem bindSocketRoute_cheapest_iff (env : InterfaceEnv) (ourLUID : UInt64)
    (table : List ForwardRow) :
    (usable env ourLUID table ≠ [] → PicksCheapest env ourLUID table) ↔
      (usable env ourLUID table ≠ [] → SumsFit (usable env ourLUID table)) := by
  apply imp_congr_right
  intro _
  rw [picksCheapest_iff_chosen, bindLoop_chosen]
  constructor
  · rintro ⟨u, hu, hchosen, hmin⟩
    obtain ⟨a, ha, hrow⟩ := Option.map_eq_some_iff.mp hchosen
    obtain ⟨pre, post, hkept⟩ := lightest_kept Usable.sum ha
    obtain rfl := usable_row_inj hkept.mem hu hrow
    exact sumsFit_of_lightest _ a ha hmin
  · intro hfit
    obtain ⟨u, hu, hkept, hmin⟩ := lightest_of_sumsFit _ hfit
    exact ⟨u, hu, by rw [hkept]; rfl, hmin⟩

/-- Every interface is up and has the metric five. -/
def sampleInterfaces : InterfaceEnv := ⟨fun _ => some true, fun _ => some 5⟩

/-- A default route of the metric. -/
def defaultRow (luid : UInt64) (index : UInt32) (metric : UInt32) (h : index ≠ 0) : ForwardRow :=
  ⟨0, luid, index, metric, h⟩

/-- The only default route is not chosen and traffic is blackholed when the sum is the limit; and a
route whose sum wraps around is chosen before one that costs ten. -/
theorem bindSocketRoute_misled :
    let lone := [defaultRow 7 3 0xFFFFFFFA (by decide)]
    let two := [defaultRow 7 3 5 (by decide), defaultRow 8 4 0xFFFFFFFF (by decide)]
    (usable sampleInterfaces 1 lone).map Usable.cost = [4294967295] ∧
      bindSocketRoute sampleInterfaces 1 0 0xFFFFFFFF true lone = some (0, true) ∧
      (usable sampleInterfaces 1 two).map Usable.cost = [10, 4294967300] ∧
      bindSocketRoute sampleInterfaces 1 0 0xFFFFFFFF true two = some (4, false) := by
  decide

end cheapest

end SmartAwg.Tunnel
