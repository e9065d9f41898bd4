import Mathlib.Order.Interval.Set.Basic
import SmartAwg.DeviceAccepts

/-!
The headers and paddings a device ends with, when it starts from its defaults and reads the lines of a
validated configuration. The validator puts the defaults into its loop; the device keeps them because
the lines are missing.
-/

namespace SmartAwg.Awg

open Go Conf

namespace UintRange

def contains (r : UintRange) (num : UInt32) : Bool := r.lo ≤ num && num ≤ r.hi

/-- The numbers of a range. -/
def values (r : UintRange) : Set Nat := Set.Icc r.lo.toNat r.hi.toNat

theorem values_subset (r : UintRange) : r.values ⊆ Set.Iio (2 ^ 32) := by
  intro n hn
  exact Nat.lt_of_le_of_lt hn.2 r.hi.toNat_lt

theorem mem_values_iff (r : UintRange) (num : UInt32) : num.toNat ∈ r.values ↔ r.contains num = true := by
  simp only [values, Set.mem_Icc, contains, Bool.and_eq_true, decide_eq_true_eq, UInt32.le_iff_toNat_le]

theorem values_inter (l r : UintRange) (h : l.overlap r = false) : l.values ∩ r.values = ∅ := by
  apply Set.eq_empty_of_forall_notMem
  rintro n ⟨hl, hr⟩
  have hmeet : l.overlap r = true := by
    simp only [overlap, Bool.and_eq_true, decide_eq_true_eq, UInt32.le_iff_toNat_le]
    exact ⟨hl.1.trans hr.2, hr.1.trans hl.2⟩
  rw [h] at hmeet
  cases hmeet

theorem overlap_comm (l r : UintRange) : l.overlap r = r.overlap l := Bool.and_comm _ _

end UintRange

section merged

/-- The labels of the lines the merge is about. -/
def mergeLabels : List String :=
  ["s1", "s2", "s3", "s4", "h1", "h2", "h3", "h4", "header_protection_key"]

/-- The lines of an interface with these labels, as `ToUAPI` writes them. -/
def mergeEntries (i : Interface) : List UapiEntry :=
  i.uapiGroups.flatten.filter fun e => mergeLabels.elem e.1

/-- A group of lines with one label is kept or dropped as a whole. -/
theorem filter_group (label : String) (es : List UapiEntry) (h : ∀ e ∈ es, e.1 = label) :
    es.filter (fun e => mergeLabels.elem e.1) = if mergeLabels.elem label then es else [] := by
  split
  · rename_i hin
    exact List.filter_eq_self.mpr fun e he => by rw [h e he, hin]
  · rename_i hout
    exact List.filter_eq_nil_iff.mpr fun e he => by rwa [h e he]

theorem filter_packets (i : Interface) :
    (PacketKey.all.flatMap fun k => uapiText k.name (i.packet k)).filter
      (fun e => mergeLabels.elem e.1) = [] := by
  apply List.filter_eq_nil_iff.mpr
  intro e he
  obtain ⟨k, -, hk⟩ := List.mem_flatMap.mp he
  rw [entry_key _ _ e hk]
  cases k <;> decide

theorem mergeEntries_eq (i : Interface) : mergeEntries i =
    uapiNum "s1" i.initPacketJunkSize ++ (uapiNum "s2" i.responsePacketJunkSize ++
      (uapiNum "s3" i.cookieReplyPacketJunkSize ++ (uapiNum "s4" i.transportPacketJunkSize ++
        (uapiText "h1" i.initPacketMagicHeader ++ (uapiText "h2" i.responsePacketMagicHeader ++
          (uapiText "h3" i.underloadPacketMagicHeader ++ (uapiText "h4" i.transportPacketMagicHeader ++
            uapiKey "header_protection_key" i.headerProtectionKey))))))) := by
  have hnum := fun label v => filter_group label (uapiNum label v) (entry_key label _)
  have htext := fun label v => filter_group label (uapiText label v) (entry_key label _)
  have hkey := fun label k => filter_group label (uapiKey label k) (entry_key label _)
  have hbool := fun label v => filter_group label (uapiBool label v) (entry_key label _)
  have hprivate : [("private_key", i.privateKey.hexString)].filter
      (fun e => mergeLabels.elem e.1) = [] := rfl
  simp only [mergeEntries, Interface.uapiGroups, List.flatten_cons, List.flatten_nil, List.filter_append,
    hnum, htext, hkey, hbool, hprivate, filter_packets]
  simp [mergeLabels]

/-- The lines are accepted, and leave what the validator saw. -/
theorem triple_mergeEntries (env : Env) (i : Interface) (r1 r2 r3 r4 : Nat × Nat)
    (h1 : HeaderRange 0 i.initPacketMagicHeader r1)
    (h2 : HeaderRange 1 i.responsePacketMagicHeader r2)
    (h3 : HeaderRange 2 i.underloadPacketMagicHeader r3)
    (h4 : HeaderRange 3 i.transportPacketMagicHeader r4) :
    Triple env (DevState (IpcState.start Device.new).ipcDev) (mergeEntries i)
      (DevState (IpcSetDevice.ofInterface i r1 r2 r3 r4)) := by
  rw [mergeEntries_eq]
  refine (triple_padding _ _ .init _ (by decide)).append
    ((triple_padding _ _ .response _ (by decide)).append
      ((triple_padding _ _ .cookie _ (by decide)).append
        ((triple_padding _ _ .transport _ (by decide)).append ?_)))
  refine (triple_header _ _ .init _ r1 (by decide) (headerRange_parses h1)).append
    ((triple_header _ _ .response _ r2 (by decide) (headerRange_parses h2)).append
      ((triple_header _ _ .cookie _ r3 (by decide) (headerRange_parses h3)).append
        ((triple_header _ _ .transport _ r4 (by decide) (headerRange_parses h4)).append ?_)))
  exact triple_headerProtectionKey _ _

variable {d : IpcSetDevice}

theorem Mergeable.apart (h : Mergeable d) (j k : Slot) (hjk : j ≠ k) :
    (d.headers.get j).overlap (d.headers.get k) = false := by
  have hpairs := h.headers
  simp only [Quad.toList, anyOverlap, List.any_cons, List.any_nil, Bool.or_false,
    Bool.or_eq_false_iff] at hpairs
  obtain ⟨⟨h12, h13, h14⟩, ⟨h23, h24⟩, h34⟩ := hpairs
  cases j <;> cases k <;> first
    | exact absurd rfl hjk
    | assumption
    | (rw [UintRange.overlap_comm]; assumption)

theorem Mergeable.long (h : Mergeable d) (hkey : d.headerProtectionKey ≠ zeroKey) (k : Slot) :
    12 ≤ d.paddings.get k := by
  have hlong := List.findIdx?_eq_none_iff.mp (h.paddings.resolve_left hkey)
  have hmem : d.paddings.get k ∈ d.paddings.toList := by
    cases k <;> simp [Quad.get, Quad.toList]
  exact UInt32.not_lt.mp (of_decide_eq_false (hlong _ hmem))

/-- Every header has at most one packet type. -/
theorem Mergeable.classified (h : Mergeable d) (num : UInt32) (j k : Slot)
    (hj : (d.headers.get j).contains num = true) (hk : (d.headers.get k).contains num = true) : j = k := by
  by_contra hjk
  have hempty := UintRange.values_inter _ _ (h.apart j k hjk)
  have hmem : num.toNat ∈ (d.headers.get j).values ∩ (d.headers.get k).values :=
    ⟨(UintRange.mem_values_iff _ _).mpr hj, (UintRange.mem_values_iff _ _).mpr hk⟩
  rw [hempty] at hmem
  exact hmem

/-- A validated configuration gives the device four disjoint headers and, with a header key, paddings
with room for the nonce. -/
theorem validated_headers_merge (env : Env) (c : Config) (h : validateAWG c = .ok ()) :
    ∃ st device, runEntries env (IpcState.start Device.new) (mergeEntries c.interface) = .ok st ∧
      mergeWithDevice st.ipcDev st.device = (device, none) ∧
      (∀ k, (device.headers.get k).values ⊆ Set.Iio (2 ^ 32)) ∧
      (∀ j k, j ≠ k → (device.headers.get j).values ∩ (device.headers.get k).values = ∅) ∧
      (∀ num j k, (device.headers.get j).contains num = true →
        (device.headers.get k).contains num = true → j = k) ∧
      (device.headerProtectionKey ≠ zeroKey → ∀ k, 12 ≤ device.paddings.get k) := by
  have hv := (validateAWG_iff c).mp h
  obtain ⟨r1, r2, r3, r4, h1, h2, h3, h4, h12, h13, h23, h14, h24, h34⟩ :=
    validateHeaders_four _ _ _ _ hv.headers
  have hmerge := ofInterface_mergeable c hv r1 r2 r3 r4 h1 h2 h3 h4 h12 h13 h23 h14 h24 h34
  obtain ⟨st, hst, hstate⟩ := triple_mergeEntries env c.interface r1 r2 r3 r4 h1 h2 h3 h4
    (IpcState.start Device.new) ⟨rfl, rfl, rfl⟩
  rw [← hstate.ipcDev] at hmerge
  refine ⟨st, _, hst, hmerge.merged st.device, fun k => UintRange.values_subset _, ?_,
    hmerge.classified, hmerge.long⟩
  intro j k hjk
  exact UintRange.values_inter _ _ (hmerge.apart j k hjk)

/-- Swapped and ranged headers with a header key; the last header is left to its default. -/
def rangedConfig : Config where
  name := ascii "home"
  interface := { sampleInterface with
    headerProtectionKey := sampleKey
    initPacketJunkSize := 12
    responsePacketJunkSize := 12
    cookieReplyPacketJunkSize := 15
    transportPacketJunkSize := 12
    initPacketMagicHeader := ascii "2-3"
    responsePacketMagicHeader := ascii "1"
    underloadPacketMagicHeader := ascii "5-4294967295" }
  peers := []

theorem validated_headers_merge_ranged :
    validateAWG rangedConfig = .ok () ∧ ∃ st device,
      runEntries sampleEnv (IpcState.start Device.new) (mergeEntries rangedConfig.interface) = .ok st ∧
        mergeWithDevice st.ipcDev st.device = (device, none) := by
  have h : validateAWG rangedConfig = .ok () := by decide +kernel
  obtain ⟨st, device, hst, hmerge, -⟩ := validated_headers_merge sampleEnv rangedConfig h
  exact ⟨h, st, device, hst, hmerge⟩

end merged

end SmartAwg.Awg
