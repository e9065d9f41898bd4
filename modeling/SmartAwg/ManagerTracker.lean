import SmartAwg.KeyedList
import SmartAwg.ManagerWorld

/-!
The global state shown for all tracked tunnels. The tunnels are a map, whose iteration order is any
order, and the loop over it leaves at the first tunnel that is starting or stopping.
-/

namespace SmartAwg.Manager

open Go

/-- `trackedTunnels`, a `map[string]TunnelState`. -/
abbrev TrackedTunnels := KeyedList fun t : Str × TunnelState => t.1

/-- One order in which a `range` can go through the map. -/
def TrackedTunnels.Order (tracked : TrackedTunnels) (order : List (Str × TunnelState)) : Prop :=
  order.Perm tracked.entries

/-- The loop of `trackedTunnelsGlobalState`. -/
def globalStateLoop : TunnelState → List (Str × TunnelState) → TunnelState
  | state, [] => state
  | state, t :: rest =>
    if t.2 = .starting then .starting
    else if t.2 = .stopping then .stopping
    else if t.2 = .started ∨ t.2 = .unknown then globalStateLoop .started rest
    else globalStateLoop state rest

def trackedTunnelsGlobalState (order : List (Str × TunnelState)) : TunnelState :=
  globalStateLoop .stopped order

section order

/-- A tunnel on its way up or down, at which the loop leaves. -/
def TunnelState.Changing (st : TunnelState) : Prop := st = .starting ∨ st = .stopping

/-- A tunnel that makes the global state `started` when no tunnel is changing. -/
def TunnelState.Up (st : TunnelState) : Prop := st = .started ∨ st = .unknown

instance (st : TunnelState) : Decidable st.Up := inferInstanceAs (Decidable (_ ∨ _))

/-- Some tunnel is starting while another one is stopping. -/
def TrackedTunnels.BothWays (tracked : TrackedTunnels) : Prop :=
  (∃ t ∈ tracked.entries, t.2 = .starting) ∧ ∃ t ∈ tracked.entries, t.2 = .stopping

/-- With no tunnel that is changing the loop goes through all of them. -/
theorem globalStateLoop_settled (state : TunnelState) (order : List (Str × TunnelState))
    (h : ∀ t ∈ order, ¬t.2.Changing) :
    globalStateLoop state order = if ∃ t ∈ order, t.2.Up then .started else state := by
  induction order generalizing state with
  | nil => simp [globalStateLoop]
  | cons t rest ih =>
    obtain ⟨ht, hrest⟩ := List.forall_mem_cons.mp h
    obtain ⟨hstart, hstop⟩ := not_or.mp ht
    rw [globalStateLoop, if_neg hstart, if_neg hstop, ih _ hrest, ih _ hrest, ite_self]
    simp only [List.mem_cons, exists_eq_or_imp]
    by_cases hup : t.2.Up
    · rw [if_pos (show t.2 = .started ∨ t.2 = .unknown from hup), if_pos (Or.inl hup)]
    · rw [if_neg (show ¬(t.2 = .started ∨ t.2 = .unknown) from hup)]
      simp only [hup, false_or]

/-- With tunnels that change in one way only, the loop returns that way. -/
theorem globalStateLoop_changing (way state : TunnelState) (order : List (Str × TunnelState))
    (hway : way.Changing) (hsome : ∃ t ∈ order, t.2 = way)
    (honly : ∀ t ∈ order, t.2.Changing → t.2 = way) : globalStateLoop state order = way := by
  induction order generalizing state with
  | nil => simp at hsome
  | cons t rest ih =>
    obtain ⟨ht, hrest⟩ := List.forall_mem_cons.mp honly
    rw [globalStateLoop]
    by_cases hstart : t.2 = .starting
    · rw [if_pos hstart, ← hstart]
      exact ht (Or.inl hstart)
    by_cases hstop : t.2 = .stopping
    · rw [if_neg hstart, if_pos hstop, ← hstop]
      exact ht (Or.inr hstop)
    -- this tunnel does not change, so the one that does comes later
    have hlater : ∃ u ∈ rest, u.2 = way := by
      obtain ⟨u, hu, huway⟩ := hsome
      rcases List.mem_cons.mp hu with rfl | hu
      · rw [← huway] at hway
        exact (hway.elim hstart hstop).elim
      · exact ⟨u, hu, huway⟩
    rw [if_neg hstart, if_neg hstop, ih _ hlater hrest, ih _ hlater hrest, ite_self]

theorem globalState_of_changing {tracked : TrackedTunnels} {order : List (Str × TunnelState)}
    (horder : tracked.Order order) (way : TunnelState) (hway : way.Changing)
    (hsome : ∃ t ∈ tracked.entries, t.2 = way)
    (honly : ∀ t ∈ tracked.entries, t.2.Changing → t.2 = way) :
    trackedTunnelsGlobalState order = way := by
  apply globalStateLoop_changing way .stopped order hway
  · obtain ⟨t, ht, htway⟩ := hsome
    exact ⟨t, horder.mem_iff.mpr ht, htway⟩
  · intro t ht
    exact honly t (horder.mem_iff.mp ht)

/-- While no tunnel goes the other way, the order does not count. -/
theorem globalState_order_free {tracked : TrackedTunnels} (h : ¬tracked.BothWays)
    {order order' : List (Str × TunnelState)} (horder : tracked.Order order)
    (horder' : tracked.Order order') :
    trackedTunnelsGlobalState order = trackedTunnelsGlobalState order' := by
  by_cases hstart : ∃ t ∈ tracked.entries, t.2 = .starting
  · have honly : ∀ t ∈ tracked.entries, t.2.Changing → t.2 = .starting := by
      intro t ht hchanging
      exact hchanging.resolve_right fun hstop => h ⟨hstart, t, ht, hstop⟩
    rw [globalState_of_changing horder .starting (Or.inl rfl) hstart honly,
      globalState_of_changing horder' .starting (Or.inl rfl) hstart honly]
  by_cases hstop : ∃ t ∈ tracked.entries, t.2 = .stopping
  · have honly : ∀ t ∈ tracked.entries, t.2.Changing → t.2 = .stopping := by
      intro t ht hchanging
      exact hchanging.resolve_left fun hst => hstart ⟨t, ht, hst⟩
    rw [globalState_of_changing horder .stopping (Or.inr rfl) hstop honly,
      globalState_of_changing horder' .stopping (Or.inr rfl) hstop honly]
  have hsettled : ∀ t ∈ tracked.entries, ¬t.2.Changing := by
    rintro t ht (hst | hst)
    · exact hstart ⟨t, ht, hst⟩
    · exact hstop ⟨t, ht, hst⟩
  unfold trackedTunnelsGlobalState
  rw [globalStateLoop_settled _ order fun t ht => hsettled t (horder.mem_iff.mp ht),
    globalStateLoop_settled _ order' fun t ht => hsettled t (horder'.mem_iff.mp ht)]
  simp only [horder.mem_iff, horder'.mem_iff]

/-- A tunnel that is changing decides when the loop comes to it first. -/
theorem exists_order_first (tracked : TrackedTunnels) (t : Str × TunnelState)
    (ht : t ∈ tracked.entries) (hchanging : t.2.Changing) :
    ∃ order, tracked.Order order ∧ trackedTunnelsGlobalState order = t.2 := by
  refine ⟨t :: tracked.entries.erase t, (List.perm_cons_erase ht).symm, ?_⟩
  rw [trackedTunnelsGlobalState, globalStateLoop]
  rcases hchanging with h | h
  · rw [if_pos h, h]
  · rw [if_neg (by rw [h]; decide), if_pos h, h]

theorem exists_orders_differ {tracked : TrackedTunnels} (h : tracked.BothWays) :
    ∃ order order', tracked.Order order ∧ tracked.Order order' ∧
      trackedTunnelsGlobalState order = .starting ∧ trackedTunnelsGlobalState order' = .stopping := by
  obtain ⟨⟨t, ht, hstart⟩, u, hu, hstop⟩ := h
  obtain ⟨order, horder, hfirst⟩ := exists_order_first tracked t ht (Or.inl hstart)
  obtain ⟨order', horder', hfirst'⟩ := exists_order_first tracked u hu (Or.inr hstop)
  exact ⟨order, order', horder, horder', hfirst.trans hstart, hfirst'.trans hstop⟩

/-- The state does not depend on the order exactly when no tunnel is starting while another one is
stopping. -/
theorem globalState_order_iff (tracked : TrackedTunnels) :
    (∀ order order', tracked.Order order → tracked.Order order' →
      trackedTunnelsGlobalState order = trackedTunnelsGlobalState order') ↔ ¬tracked.BothWays := by
  constructor
  · intro hsame hboth
    obtain ⟨order, order', horder, horder', hstart, hstop⟩ := exists_orders_differ hboth
    have heq := hsame order order' horder horder'
    rw [hstart, hstop] at heq
    cases heq
  · intro h order order' horder horder'
    exact globalState_order_free h horder horder'

/-- One tunnel is started while another one is still being stopped. -/
def switching : TrackedTunnels where
  entries := [(ascii "home", .stopping), (ascii "work", .starting)]
  distinct := by decide

theorem switching_two_states :
    switching.Order switching.entries ∧ switching.Order switching.entries.reverse ∧
      trackedTunnelsGlobalState switching.entries = .stopping ∧
      trackedTunnelsGlobalState switching.entries.reverse = .starting :=
  ⟨List.Perm.refl _, List.reverse_perm _, by decide, by decide⟩

end order

end SmartAwg.Manager
