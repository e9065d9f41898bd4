import Mathlib.Data.List.GetD
import Mathlib.Data.List.Nodup
import Mathlib.Data.List.Perm.Basic
import SmartAwg.GoCodec
import SmartAwg.GoSort
import SmartAwg.GoStrconv

/-!
The fingerprint of the physical network: the records of the interfaces, each with its addresses
sorted, in the order of their indexes, written into a hash. The records and the addresses are slices
of arrays that belong to the caller, so the arrays are part of the model.
-/

namespace SmartAwg.Manager

open Go Std

section memory

/-- `smartNetworkRecord`, by what its addresses are. -/
structure Network (α : Type) where
  index : Int
  name : Str
  mtu : Int
  hardware : Str
  addresses : α
  deriving DecidableEq

/-- The addresses are a slice, named by its array. -/
abbrev NetworkRecord := Network Nat

/-- A record with the addresses themselves. -/
abbrev NetworkValue := Network (List Str)

/-- The arrays behind the slices of strings and of records. -/
structure Memory where
  strings : List (List Str)
  records : List (List NetworkRecord)

namespace Memory
variable (m : Memory)

/-- `append([]string(nil), s...)`, a new array. -/
def copyStrings (a : Nat) : Memory × Nat :=
  ({ m with strings := m.strings ++ [m.strings.getD a []] }, m.strings.length)

/-- `append([]smartNetworkRecord(nil), records...)`. -/
def copyRecords (r : Nat) : Memory × Nat :=
  ({ m with records := m.records ++ [m.records.getD r []] }, m.records.length)

def setStrings (a : Nat) (s : List Str) : Memory := { m with strings := m.strings.set a s }

def setRecords (r : Nat) (rs : List NetworkRecord) : Memory :=
  { m with records := m.records.set r rs }

end Memory

end memory

section fingerprint

def stringLess (a b : Str) : Bool := compare a b == .lt

/-- The order of the records: the index, then the name. -/
def recordLess {α : Type} (a b : Network α) : Bool :=
  if a.index ≠ b.index then a.index < b.index else stringLess a.name b.name

/-- `%d`. -/
def formatInt (n : Int) : Str := if n < 0 then 0x2D :: itoa n.natAbs else itoa n.natAbs

def Network.value (strings : List (List Str)) (r : NetworkRecord) : NetworkValue :=
  ⟨r.index, r.name, r.mtu, r.hardware, strings.getD r.addresses []⟩

/-- What is written for a record. -/
def recordLine (v : NetworkValue) : Str :=
  formatInt v.index ++ 0x00 :: (v.name ++ 0x00 :: (formatInt v.mtu ++ 0x00 ::
    (v.hardware ++ 0x00 :: (join v.addresses [0x2C] ++ [0x0A]))))

variable (sorter : Sorter) (sha256 : Str → Str)

/-- The first loop: the record at an index gets a sorted copy of its addresses. -/
def normalizeStep (normalized : Nat) (m : Memory) (index : Nat) : Memory :=
  match (m.records.getD normalized [])[index]? with
  | none => m
  | some r =>
    let (m, a) := m.copyStrings r.addresses
    let m := m.setRecords normalized
      ((m.records.getD normalized []).set index { r with addresses := a })
    m.setStrings a (sorter.run stringLess (m.strings.getD a []))

def normalizeLoop (m : Memory) (normalized : Nat) : Memory :=
  (List.range (m.records.getD normalized []).length).foldl (normalizeStep sorter normalized) m

/-- The memory afterwards and the fingerprint. -/
def smartNetworkFingerprintFromRecords (m : Memory) (records : Nat) : Memory × Str :=
  let (m, normalized) := m.copyRecords records
  let m := normalizeLoop sorter m normalized
  let m := m.setRecords normalized (sorter.run recordLess (m.records.getD normalized []))
  let text := (m.records.getD normalized []).flatMap fun r => recordLine (r.value m.strings)
  (m, hexEncode (sha256 text))

end fingerprint

section values

/-- The records of a slice. -/
def Memory.values (m : Memory) (records : Nat) : List NetworkValue :=
  (m.records.getD records []).map (Network.value m.strings)

/-- A slice of records whose addresses are slices of arrays that are there. -/
def Memory.Valid (m : Memory) (records : Nat) : Prop :=
  ∀ r ∈ m.records.getD records [], r.addresses < m.strings.length

/-- The same records, in any order and with their addresses in any order. -/
def SameNetworks (vs vs' : List NetworkValue) : Prop :=
  ∃ mid, List.Forall₂ (fun v w => ∃ addresses, addresses.Perm v.addresses ∧ w = { v with addresses }) vs mid ∧
    mid.Perm vs'

/-- No separator of the text. -/
def CleanName (s : Str) : Prop := 0x00 ∉ s ∧ 0x0A ∉ s ∧ 0x2C ∉ s

def Network.Clean (v : NetworkValue) : Prop :=
  CleanName v.name ∧ CleanName v.hardware ∧ ∀ a ∈ v.addresses, CleanName a ∧ a ≠ []

instance (s : Str) : Decidable (CleanName s) := inferInstanceAs (Decidable (_ ∧ _ ∧ _))

instance (v : NetworkValue) : Decidable v.Clean :=
  inferInstanceAs (Decidable (_ ∧ _ ∧ ∀ a ∈ v.addresses, CleanName a ∧ a ≠ []))

/-- The records that the supervisor collects. -/
structure Collected (vs : List NetworkValue) : Prop where
  distinct : (vs.map Network.index).Nodup
  clean : ∀ v ∈ vs, v.Clean

end values

section memoryProofs
variable (sorter : Sorter) (sha256 : Str → Str)

def Network.normalized (v : NetworkValue) : NetworkValue :=
  { v with addresses := sorter.run stringLess v.addresses }

/-- The sorted copies of the addresses, and the records that have them. -/
def newStrings (m : Memory) (rs : List NetworkRecord) : List (List Str) :=
  rs.map fun r => sorter.run stringLess (m.strings.getD r.addresses [])

def newRecords (m : Memory) (rs : List NetworkRecord) : List NetworkRecord :=
  rs.mapIdx fun i r => { r with addresses := m.strings.length + i }

/-- The memory while the first loop runs: the first records of the new array have new address
arrays, the others still those of the caller. -/
def normalizing (m : Memory) (rs : List NetworkRecord) (k : Nat) : Memory where
  strings := m.strings ++ newStrings sorter m (rs.take k)
  records := m.records ++ [newRecords m (rs.take k) ++ rs.drop k]

/-- One step allocates one array and changes one record. -/
theorem normalizeStep_eq (m : Memory) (normalized k : Nat) (r : NetworkRecord)
    (h : (m.records.getD normalized [])[k]? = some r) :
    normalizeStep sorter normalized m k = {
      strings := m.strings ++ [sorter.run stringLess (m.strings.getD r.addresses [])]
      records := m.records.set normalized
        ((m.records.getD normalized []).set k { r with addresses := m.strings.length }) } := by
  unfold normalizeStep
  rw [h]
  simp only [Memory.copyStrings, Memory.setRecords, Memory.setStrings, Memory.mk.injEq, and_true]
  rw [List.set_append_right _ _ (Nat.le_refl _), Nat.sub_self]
  simp

theorem normalizeStep_normalizing (m : Memory) (rs : List NetworkRecord)
    (hvalid : ∀ r ∈ rs, r.addresses < m.strings.length) (k : Nat) (hk : k < rs.length) :
    normalizeStep sorter m.records.length (normalizing sorter m rs k) k =
      normalizing sorter m rs (k + 1) := by
  have htake : rs.take (k + 1) = rs.take k ++ [rs[k]] := List.take_succ_eq_append_getElem hk
  have hlen : (rs.take k).length = k := by
    rw [List.length_take, Nat.min_eq_left (Nat.le_of_lt hk)]
  have hnew : (newRecords m (rs.take k)).length = k := by
    rw [newRecords, List.length_mapIdx, hlen]
  have hrecords : (normalizing sorter m rs k).records.getD m.records.length [] =
      newRecords m (rs.take k) ++ rs.drop k := by
    simp [normalizing]
  have hdrop : rs.drop k = rs[k] :: rs.drop (k + 1) := List.drop_eq_getElem_cons hk
  have hget : ((normalizing sorter m rs k).records.getD m.records.length [])[k]? = some rs[k] := by
    rw [hrecords, hdrop, List.getElem?_append_right (Nat.le_of_eq hnew), hnew, Nat.sub_self,
      List.getElem?_cons_zero]
  have hold : (normalizing sorter m rs k).strings.getD rs[k].addresses [] =
      m.strings.getD rs[k].addresses [] :=
    List.getD_append _ _ _ _ (hvalid _ (List.getElem_mem hk))
  rw [normalizeStep_eq sorter _ _ _ _ hget, hold, hrecords]
  unfold normalizing
  simp only [Memory.mk.injEq]
  constructor
  · rw [htake, newStrings, newStrings, List.map_append, List.append_assoc]
    rfl
  · have hadded : newRecords m (rs.take (k + 1)) =
        newRecords m (rs.take k) ++ [{ rs[k] with addresses := m.strings.length + k }] := by
      rw [htake, newRecords, newRecords, List.mapIdx_concat, hlen]
    rw [List.set_append_right _ _ (Nat.le_refl _), Nat.sub_self, List.set_cons_zero, hadded, hdrop,
      List.set_append_right _ _ (Nat.le_of_eq hnew), hnew, Nat.sub_self, List.set_cons_zero,
      List.length_append, newStrings, List.length_map, hlen, List.append_assoc]
    rfl

theorem normalizeLoop_normalizing (m : Memory) (rs : List NetworkRecord)
    (hvalid : ∀ r ∈ rs, r.addresses < m.strings.length) (k : Nat) (hk : k ≤ rs.length) :
    (List.range k).foldl (normalizeStep sorter m.records.length) (normalizing sorter m rs 0) =
      normalizing sorter m rs k := by
  induction k with
  | zero => rfl
  | succ k ih =>
    rw [List.range_succ, List.foldl_append, ih (Nat.le_of_succ_le hk)]
    exact normalizeStep_normalizing sorter m rs hvalid k hk

/-- The new records have the sorted addresses of the caller's records. -/
theorem newRecords_values (m : Memory) (rs : List NetworkRecord) :
    (newRecords m rs).map (Network.value (m.strings ++ newStrings sorter m rs)) =
      (rs.map (Network.value m.strings)).map (Network.normalized sorter) := by
  apply List.ext_getElem
  · simp [newRecords]
  · intro i hi hi'
    have hlt : i < rs.length := by simpa using hi'
    simp [newRecords, newStrings, Network.value, Network.normalized, hlt]

theorem stringLess_iff (a b : Str) : stringLess a b = true ↔ compare a b = .lt := by
  simp [stringLess]

theorem recordLess_iff {α : Type} (a b : Network α) : recordLess a b = true ↔
    compareLex (compareOn Network.index) (compareOn Network.name) a b = .lt := by
  unfold recordLess compareLex compareOn
  by_cases h : a.index = b.index
  · rw [if_neg (by simpa using h), h, compare_self, stringLess_iff]
    rfl
  · rw [if_pos h]
    rcases Int.lt_or_gt_of_ne h with hlt | hgt
    · simp [hlt, compare_lt_iff_lt.mpr hlt]
    · simp [Int.not_lt.mpr (Int.le_of_lt hgt), compare_gt_iff_gt.mpr hgt]

theorem recordLess_strictWeakOrder {α : Type} : StrictWeakOrder (recordLess (α := α)) :=
  StrictWeakOrder.of_compare _ recordLess_iff

/-- What a call computes, and which arrays it leaves: those of the caller are as they were. -/
theorem fingerprint_eq (m : Memory) (records : Nat) (hvalid : m.Valid records) :
    let rs := m.records.getD records []
    let strings := m.strings ++ newStrings sorter m rs
    let sorted := sorter.run recordLess (newRecords m rs)
    smartNetworkFingerprintFromRecords sorter sha256 m records =
      (⟨strings, m.records ++ [sorted]⟩,
        hexEncode (sha256 ((sorted.map (Network.value strings)).flatMap recordLine))) := by
  intro rs strings sorted
  have hloop : normalizeLoop sorter ⟨m.strings, m.records ++ [rs]⟩ m.records.length =
      ⟨strings, m.records ++ [newRecords m rs]⟩ := by
    have hlast : (m.records ++ [rs]).getD m.records.length [] = rs := by simp
    have hstart : normalizing sorter m rs 0 = ⟨m.strings, m.records ++ [rs]⟩ := by
      simp [normalizing, newStrings, newRecords]
    have hend : normalizing sorter m rs rs.length = ⟨strings, m.records ++ [newRecords m rs]⟩ := by
      simp [normalizing, strings]
    rw [normalizeLoop, hlast, ← hstart, ← hend]
    exact normalizeLoop_normalizing sorter m rs hvalid rs.length (Nat.le_refl _)
  have hlast (x : List NetworkRecord) : (m.records ++ [x]).getD m.records.length [] = x := by simp
  have hset (x y : List NetworkRecord) :
      (m.records ++ [x]).set m.records.length y = m.records ++ [y] := by simp
  simp only [smartNetworkFingerprintFromRecords, Memory.copyRecords]
  rw [show m.records.getD records [] = rs from rfl, hloop]
  simp only [Memory.setRecords, hlast, hset, List.flatMap_map]
  rfl

theorem fingerprint_spec (m : Memory) (records : Nat) (hvalid : m.Valid records) :
    ∃ sorted : List NetworkValue,
      (smartNetworkFingerprintFromRecords sorter sha256 m records).2 =
        hexEncode (sha256 (sorted.flatMap recordLine)) ∧
      sorted.Perm ((m.values records).map (Network.normalized sorter)) ∧
      sorted.Pairwise fun a b => recordLess b a = false := by
  refine ⟨_, congrArg Prod.snd (fingerprint_eq sorter sha256 m records hvalid), ?_, ?_⟩
  · rw [Memory.values, ← newRecords_values]
    exact (sorter.perm _ _).map _
  · apply List.pairwise_map.mpr
    exact sorter.sorted recordLess recordLess_strictWeakOrder _

end memoryProofs

section text

/-- A text up to the first separator can be read back. -/
theorem cut_inj (sep : UInt8) (a b rest rest' : Str) (ha : sep ∉ a) (hb : sep ∉ b)
    (h : a ++ sep :: rest = b ++ sep :: rest') : a = b ∧ rest = rest' := by
  have hindex := indexByte_append_cons a rest sep ha
  rw [h, indexByte_append_cons b rest' sep hb, Option.some.injEq] at hindex
  obtain ⟨rfl, hrest⟩ := List.append_inj h hindex.symm
  exact ⟨rfl, (List.cons.inj hrest).2⟩

theorem formatInt_bytes (n : Int) (b : UInt8) (hb : b ∈ formatInt n) : b = 0x2D ∨ isDigit b = true := by
  unfold formatInt at hb
  split at hb
  · exact (List.mem_cons.mp hb).imp_right (itoa_isDigit _ b)
  · exact Or.inr (itoa_isDigit _ b hb)

theorem formatInt_inj (n k : Int) (h : formatInt n = formatInt k) : n = k := by
  have hminus (n : Nat) (s : Str) : itoa n ≠ 0x2D :: s := by
    intro heq
    have hdigit := itoa_isDigit n 0x2D (by rw [heq]; simp)
    exact absurd hdigit (by decide)
  unfold formatInt at h
  split at h <;> split at h
  · have habs := itoa_injective (List.cons.inj h).2
    omega
  · exact absurd h.symm (hminus _ _)
  · exact absurd h (hminus _ _)
  · have habs := itoa_injective h
    omega

theorem splitOn_join (p : Str) (ps : List Str) (h : ∀ q ∈ p :: ps, 0x2C ∉ q) :
    (join (p :: ps) [0x2C]).splitOn 0x2C = p :: ps := by
  induction ps generalizing p with
  | nil => rw [join_singleton, List.splitOn_eq_singleton (h p (by simp))]
  | cons q ps ih =>
    rw [join_cons_cons, List.singleton_append,
      List.splitOn_append_cons_self_of_not_mem (h p (by simp)),
      ih q fun r hr => h r (List.mem_cons_of_mem _ hr)]

theorem join_comma_inj (as bs : List Str) (ha : ∀ a ∈ as, 0x2C ∉ a ∧ a ≠ [])
    (hb : ∀ b ∈ bs, 0x2C ∉ b ∧ b ≠ []) (h : join as [0x2C] = join bs [0x2C]) : as = bs := by
  have hne (p : Str) (ps : List Str) (hp : ∀ q ∈ p :: ps, 0x2C ∉ q ∧ q ≠ []) :
      join (p :: ps) [0x2C] ≠ [] := by
    have hfirst := (hp p List.mem_cons_self).2
    cases ps with
    | nil => rwa [join_singleton]
    | cons q ps => simp
  cases as with
  | nil =>
    cases bs with
    | nil => rfl
    | cons b bs => exact absurd h.symm (hne b bs hb)
  | cons a as =>
    cases bs with
    | nil => exact absurd h (hne a as ha)
    | cons b bs =>
      have hsplit := congrArg (List.splitOn 0x2C) h
      rwa [splitOn_join a as fun q hq => (ha q hq).1,
        splitOn_join b bs fun q hq => (hb q hq).1] at hsplit

theorem recordLine_inj (v w : NetworkValue) (rest rest' : Str) (hv : v.Clean) (hw : w.Clean)
    (h : recordLine v ++ rest = recordLine w ++ rest') : v = w ∧ rest = rest' := by
  have hint (n : Int) : 0x00 ∉ formatInt n := by
    intro hb
    rcases formatInt_bytes n _ hb with h | h
    · exact absurd h (by decide)
    · exact absurd h (by decide)
  have hlist (v : NetworkValue) (hv : v.Clean) : 0x0A ∉ join v.addresses [0x2C] := by
    intro hb
    rcases mem_join _ _ _ hb with ⟨a, ha, hmem⟩ | hsep
    · exact (hv.2.2 a ha).1.2.1 hmem
    · exact absurd hsep (by decide)
  simp only [recordLine, List.append_assoc, List.cons_append, List.nil_append] at h
  obtain ⟨hindex, h⟩ := cut_inj _ _ _ _ _ (hint _) (hint _) h
  obtain ⟨hname, h⟩ := cut_inj _ _ _ _ _ hv.1.1 hw.1.1 h
  obtain ⟨hmtu, h⟩ := cut_inj _ _ _ _ _ (hint _) (hint _) h
  obtain ⟨hhardware, h⟩ := cut_inj _ _ _ _ _ hv.2.1.1 hw.2.1.1 h
  obtain ⟨haddresses, h⟩ := cut_inj _ _ _ _ _ (hlist v hv) (hlist w hw) h
  refine ⟨?_, h⟩
  have hlists := join_comma_inj _ _ (fun a ha => ⟨(hv.2.2 a ha).1.2.2, (hv.2.2 a ha).2⟩)
    (fun a ha => ⟨(hw.2.2 a ha).1.2.2, (hw.2.2 a ha).2⟩) haddresses
  obtain ⟨index, name, mtu, hardware, addresses⟩ := v
  obtain ⟨index', name', mtu', hardware', addresses'⟩ := w
  cases formatInt_inj _ _ hindex
  cases formatInt_inj _ _ hmtu
  cases hname
  cases hhardware
  cases hlists
  rfl

/-- The lines of two lists of records tell the records. -/
theorem flatMap_recordLine_inj (vs ws : List NetworkValue) (hv : ∀ v ∈ vs, v.Clean)
    (hw : ∀ w ∈ ws, w.Clean) (h : vs.flatMap recordLine = ws.flatMap recordLine) : vs = ws := by
  have hne (v : NetworkValue) (rest : Str) : recordLine v ++ rest ≠ [] := by
    simp [recordLine]
  induction vs generalizing ws with
  | nil =>
    cases ws with
    | nil => rfl
    | cons w ws => exact absurd h.symm (hne w _)
  | cons v vs ih =>
    cases ws with
    | nil => exact absurd h (hne v _)
    | cons w ws =>
      obtain ⟨hfirst, hvs⟩ := List.forall_mem_cons.mp hv
      obtain ⟨hfirst', hws⟩ := List.forall_mem_cons.mp hw
      obtain ⟨rfl, hrest⟩ := recordLine_inj v w _ _ hfirst hfirst' h
      rw [ih ws hvs hws hrest]

end text

section canonical
variable (sorter sorter' : Sorter)

/-- Strings have one sorted order. -/
theorem run_stringLess_eq (as bs : List Str) (h : as.Perm bs) :
    sorter.run stringLess as = sorter'.run stringLess bs := by
  have hless : StrictWeakOrder stringLess := StrictWeakOrder.of_compare compare stringLess_iff
  apply List.Perm.eq_of_pairwise _ (sorter.sorted _ hless as) (sorter'.sorted _ hless bs)
  · exact (sorter.perm _ _).trans (h.trans (sorter'.perm _ _).symm)
  · intro a b _ _ hba hab
    exact LawfulEqCmp.eq_of_compare (compare_eq_of_not_less compare stringLess_iff a b hab hba)

theorem normalized_eq_iff (v w : NetworkValue) :
    v.normalized sorter = w.normalized sorter' ↔
      ∃ addresses, addresses.Perm v.addresses ∧ w = { v with addresses } := by
  constructor
  · intro h
    have haddresses : sorter.run stringLess v.addresses = sorter'.run stringLess w.addresses :=
      congrArg Network.addresses h
    refine ⟨w.addresses, ?_, ?_⟩
    · have hperm := sorter.perm stringLess v.addresses
      rw [haddresses] at hperm
      exact (sorter'.perm _ _).symm.trans hperm
    · obtain ⟨index, name, mtu, hardware, addresses⟩ := v
      obtain ⟨index', name', mtu', hardware', addresses'⟩ := w
      simp only [Network.normalized, Network.mk.injEq] at h ⊢
      obtain ⟨rfl, rfl, rfl, rfl, -⟩ := h
      simp
  · rintro ⟨addresses, hperm, rfl⟩
    unfold Network.normalized
    rw [run_stringLess_eq sorter sorter' _ _ hperm.symm]

/-- The same networks are the same records once the addresses are sorted. -/
theorem sameNetworks_iff (vs ws : List NetworkValue) :
    SameNetworks vs ws ↔
      (vs.map (Network.normalized sorter)).Perm (ws.map (Network.normalized sorter')) := by
  have hmaps (mid : List NetworkValue) :
      vs.map (Network.normalized sorter) = mid.map (Network.normalized sorter') ↔
        List.Forall₂ (fun v w => ∃ addresses, addresses.Perm v.addresses ∧ w = { v with addresses })
          vs mid := by
    simp only [← normalized_eq_iff sorter sorter']
    rw [← List.forall₂_eq_eq_eq, List.forall₂_map_left_iff, List.forall₂_map_right_iff]
  constructor
  · rintro ⟨mid, hmid, hperm⟩
    rw [(hmaps mid).mpr hmid]
    exact hperm.map _
  · intro hperm
    have hcomp := List.eq_map_comp_perm (Network.normalized sorter')
    obtain ⟨mid, hmid, hws⟩ := (congrFun (congrFun hcomp _) ws).mpr hperm
    exact ⟨mid, (hmaps mid).mp hmid, hws⟩

/-- No two records have one index, so that the records have one sorted order. -/
theorem sorted_values_unique (vs ws : List NetworkValue) (h : vs.Perm ws)
    (hdistinct : (ws.map Network.index).Nodup)
    (hv : vs.Pairwise fun a b => recordLess b a = false)
    (hw : ws.Pairwise fun a b => recordLess b a = false) : vs = ws := by
  apply List.Perm.eq_of_pairwise _ hv hw h
  intro a b ha hb hba hab
  have hcmp := compare_eq_of_not_less _ recordLess_iff a b hab hba
  rw [compareLex, Ordering.then_eq_eq, compareOn, LawfulEqCmp.compare_eq_iff_eq] at hcmp
  exact List.inj_on_of_nodup_map hdistinct (h.mem_iff.mp ha) hb hcmp.1

theorem normalized_clean (v : NetworkValue) (h : v.Clean) : (v.normalized sorter).Clean :=
  ⟨h.1, h.2.1, fun a ha => h.2.2 a ((sorter.perm _ _).mem_iff.mp ha)⟩

/-- Equal fingerprints are those of the same networks, and the arrays of the caller are left as they
were. -/
theorem fingerprint_canonical (sha256 : Str → Str) (hsha : Function.Injective sha256)
    (m m' : Memory) (records records' : Nat) (hvalid : m.Valid records) (hvalid' : m'.Valid records')
    (h : Collected (m.values records)) (h' : Collected (m'.values records')) :
    ((smartNetworkFingerprintFromRecords sorter sha256 m records).2 =
        (smartNetworkFingerprintFromRecords sorter' sha256 m' records').2 ↔
      SameNetworks (m.values records) (m'.values records')) ∧
    m.strings <+: (smartNetworkFingerprintFromRecords sorter sha256 m records).1.strings ∧
    m.records <+: (smartNetworkFingerprintFromRecords sorter sha256 m records).1.records := by
  obtain ⟨sorted, htext, hperm, hsorted⟩ := fingerprint_spec sorter sha256 m records hvalid
  obtain ⟨sorted', htext', hperm', hsorted'⟩ := fingerprint_spec sorter' sha256 m' records' hvalid'
  refine ⟨?_, ?_, ?_⟩
  · have hclean : ∀ v ∈ sorted, v.Clean := by
      intro v hv
      obtain ⟨w, hw, rfl⟩ := List.mem_map.mp (hperm.mem_iff.mp hv)
      exact normalized_clean sorter w (h.clean w hw)
    have hclean' : ∀ v ∈ sorted', v.Clean := by
      intro v hv
      obtain ⟨w, hw, rfl⟩ := List.mem_map.mp (hperm'.mem_iff.mp hv)
      exact normalized_clean sorter' w (h'.clean w hw)
    have hdistinct : (sorted'.map Network.index).Nodup := by
      rw [(hperm'.map _).nodup_iff, List.map_map]
      exact h'.distinct
    rw [htext, htext', sameNetworks_iff sorter sorter']
    constructor
    · intro heq
      have hbytes := hsha (hexEncode_injective heq)
      rw [flatMap_recordLine_inj sorted sorted' hclean hclean' hbytes] at hperm
      exact hperm.symm.trans hperm'
    · intro hsame
      rw [sorted_values_unique sorted sorted' (hperm.trans (hsame.trans hperm'.symm)) hdistinct hsorted
        hsorted']
  · rw [fingerprint_eq sorter sha256 m records hvalid]
    exact List.prefix_append _ _
  · rw [fingerprint_eq sorter sha256 m records hvalid]
    exact List.prefix_append _ _

/-- Two interfaces, listed in both orders. -/
def sampleNetwork : Memory :=
  let wired : NetworkRecord := ⟨3, ascii "Ethernet", 1500, ascii "00:11", 0⟩
  let wireless : NetworkRecord := ⟨12, ascii "Wi-Fi", 1500, ascii "00:22", 1⟩
  { strings := [[ascii "192.168.1.5/24"], [ascii "10.0.0.2/8", ascii "fd00::/64"]]
    records := [[wired, wireless], [wireless, wired]] }

theorem sampleNetwork_fingerprint :
    (smartNetworkFingerprintFromRecords Sorter.stable id sampleNetwork 0).2 =
      (smartNetworkFingerprintFromRecords Sorter.stable id sampleNetwork 1).2 := by
  have hcollected : ∀ r < 2, Collected (sampleNetwork.values r) := by
    intro r hr
    refine ⟨?_, ?_⟩
    · revert r
      decide +kernel
    · revert r
      decide +kernel
  have hvalid : ∀ r < 2, sampleNetwork.Valid r := by
    unfold Memory.Valid
    decide +kernel
  apply (fingerprint_canonical Sorter.stable Sorter.stable id Function.injective_id sampleNetwork
    sampleNetwork 0 1 (hvalid 0 (by decide)) (hvalid 1 (by decide)) (hcollected 0 (by decide))
    (hcollected 1 (by decide))).1.mpr
  refine ⟨_, List.forall₂_same.mpr fun v _ => ⟨v.addresses, List.Perm.refl _, rfl⟩, ?_⟩
  exact List.Perm.swap _ _ _

end canonical

end SmartAwg.Manager
