import SmartAwg.ImportTokens

/-!
Import tokens are single-use. A row is in the table from the transaction that issues its token to
the first one that removes it, and never again, since no two calls make one token; so of all the
calls that claim a token only the one that removed its row can have it.
-/

namespace SmartAwg.Import

open Go

section views

/-- The ticket of a call of `issue`. -/
def Call.ticket : Call → Option Ticket
  | .ready k => some k
  | .issued k _ => some k
  | _ => none

/-- The ticket of a call of `issue` whose transaction is done. -/
def Call.issuedTicket : Call → Option Ticket
  | .issued k _ => some k
  | _ => none

/-- The token of a call of `claim` and the row it found. -/
def Call.found : Call → Option (Str × Row)
  | .taken token (some r) => some (token, r)
  | .answered token (some r) _ => some (token, r)
  | _ => none

def State.ticket (s : State) (id : Nat) : Option Ticket := (s.calls id).bind Call.ticket

def State.issued (s : State) (id : Nat) : Option Ticket := (s.calls id).bind Call.issuedTicket

def State.found (s : State) (id : Nat) : Option (Str × Row) := (s.calls id).bind Call.found

theorem State.set_calls (s : State) (id : Nat) (call : Call) (i : Nat) :
    (s.set id call).calls i = if i = id then some call else s.calls i :=
  Function.update_apply ..

theorem State.set_ticket (s : State) (id : Nat) (call : Call) (i : Nat) :
    (s.set id call).ticket i = if i = id then call.ticket else s.ticket i := by
  rw [State.ticket, State.set_calls]
  split <;> rfl

theorem State.set_issued (s : State) (id : Nat) (call : Call) (i : Nat) :
    (s.set id call).issued i = if i = id then call.issuedTicket else s.issued i := by
  rw [State.issued, State.set_calls]
  split <;> rfl

theorem State.set_found (s : State) (id : Nat) (call : Call) (i : Nat) :
    (s.set id call).found i = if i = id then call.found else s.found i := by
  rw [State.found, State.set_calls]
  split <;> rfl

/-- Setting what is there already changes nothing. -/
theorem ite_of_same {α : Type} {f : Nat → α} {a : α} {id : Nat} (h : a = f id) (i : Nat) :
    (if i = id then a else f i) = f i := by
  split
  · subst i
    exact h
  · rfl

theorem State.ticket_of_issued {s : State} {i : Nat} {k : Ticket} (h : s.issued i = some k) :
    s.ticket i = some k := by
  unfold State.issued at h
  unfold State.ticket
  cases hcall : s.calls i with
  | none =>
    rw [hcall] at h
    cases h
  | some call =>
    rw [hcall] at h
    cases call with
    | issued k' link => exact h
    | ready | rejected | revoked | malformed | taken | answered => cases h

end views

section effects
variable (p : TokenEnv) {s : State} {id : Nat}

/-- What a step can do, as far as tickets, rows and claims go; `made` is the token it makes. -/
inductive Effect (s s' : State) : Option Str → Prop where
  | quiet {made : Option Str} (table : s'.table.Sublist s.table)
      (ticket : ∀ i k, s'.ticket i = some k → s.ticket i = some k)
      (issued : ∀ i, s'.issued i = s.issued i) (found : ∀ i, s'.found i = s.found i) : Effect s s' made
  | prepared (id : Nat) (k : Ticket) (table : s'.table = s.table)
      (ticket : ∀ i, s'.ticket i = if i = id then some k else s.ticket i)
      (issued : ∀ i, s'.issued i = s.issued i) (found : ∀ i, s'.found i = s.found i) :
      Effect s s' (some k.token)
  | inserted (id : Nat) (k : Ticket) (ready : s.ticket id = some k) (fresh : s.issued id = none)
      (table : s.table.issue p k = some s'.table) (ticket : ∀ i, s'.ticket i = s.ticket i)
      (issued : ∀ i, s'.issued i = if i = id then some k else s.issued i)
      (found : ∀ i, s'.found i = s.found i) : Effect s s' none
  | took (id : Nat) (token : Str) (r : Row) (mem : r ∈ s.table) (digest : r.digest = p.sha256 token)
      (table : s'.table = s.table.filter fun r => r.digest ≠ p.sha256 token)
      (ticket : ∀ i, s'.ticket i = s.ticket i) (issued : ∀ i, s'.issued i = s.issued i)
      (found : ∀ i, s'.found i = if i = id then some (token, r) else s.found i) : Effect s s' none

variable {p}

/-- A call that takes up a number, or goes on, without a ticket and without a row. -/
theorem Effect.of_set {call : Call} {table : Table} {made : Option Str}
    (htable : table.Sublist s.table) (hticket : call.ticket = none)
    (hissued : call.issuedTicket = s.issued id) (hfound : call.found = s.found id) :
    Effect p s ({ s with table := table }.set id call) made := by
  refine .quiet htable (fun i k h => ?_) (fun i => ?_) fun i => ?_
  · rw [State.set_ticket] at h
    split at h
    · rw [hticket] at h
      cases h
    · exact h
  · rw [State.set_issued]
    exact ite_of_same hissued i
  · rw [State.set_found]
    exact ite_of_same hfound i

theorem Effect.refl (s : State) (made : Option Str) : Effect p s s made :=
  .quiet (List.Sublist.refl _) (fun _ _ h => h) (fun _ => rfl) fun _ => rfl

theorem State.views_of_idle (h : s.calls id = none) :
    s.ticket id = none ∧ s.issued id = none ∧ s.found id = none := by
  unfold State.ticket State.issued State.found
  rw [h]
  exact ⟨rfl, rfl, rfl⟩

theorem prepare_effect (hidle : s.calls id = none) (k : Ticket) :
    Effect p s (s.prepare id k) (some k.token) := by
  obtain ⟨-, hissued, hfound⟩ := State.views_of_idle hidle
  unfold State.prepare
  split
  · exact Effect.of_set (List.Sublist.refl _) rfl hissued.symm hfound.symm
  · refine .prepared id k rfl (State.set_ticket s id _) (fun i => ?_) fun i => ?_
    · rw [State.set_issued]
      exact ite_of_same hissued.symm i
    · rw [State.set_found]
      exact ite_of_same hfound.symm i

theorem insert_effect {k : Ticket} (hready : s.calls id = some (.ready k)) :
    Effect p s (s.insert p id k) none := by
  have hticket : s.ticket id = some k := by
    rw [State.ticket, hready]
    rfl
  have hissued : s.issued id = none := by
    rw [State.issued, hready]
    rfl
  have hfound : s.found id = none := by
    rw [State.found, hready]
    rfl
  unfold State.insert
  split
  · exact Effect.of_set (List.Sublist.refl _) rfl hissued.symm hfound.symm
  · rename_i table htable
    refine .inserted id k hticket hissued htable (fun i => ?_) (State.set_issued _ id _) fun i => ?_
    · rw [State.set_ticket]
      exact ite_of_same hticket.symm i
    · rw [State.set_found]
      exact ite_of_same hfound.symm i

theorem take_effect (hidle : s.calls id = none) (token : Str) :
    Effect p s (s.take p id token) none := by
  obtain ⟨hticket, hissued, hfound⟩ := State.views_of_idle hidle
  unfold State.take
  split
  · cases hrow : s.table.find? fun r => r.digest = p.sha256 token with
    | none =>
      simp only [Table.take, hrow]
      exact Effect.of_set (List.filter_sublist) rfl hissued.symm hfound.symm
    | some r =>
      simp only [Table.take, hrow]
      refine .took id token r (List.mem_of_find?_eq_some hrow)
        (by simpa using List.find?_some hrow) rfl (fun i => ?_) (fun i => ?_) (State.set_found _ id _)
      · rw [State.set_ticket]
        exact ite_of_same hticket.symm i
      · rw [State.set_issued]
        exact ite_of_same hissued.symm i
  · exact Effect.of_set (List.Sublist.refl _) rfl hissued.symm hfound.symm

theorem step_effect (s : State) (x : Step) : Effect p s (s.step p x) x.token := by
  cases x with
  | prepare id request token nonce clock =>
    simp only [State.step]
    split
    · exact prepare_effect ‹_› ⟨request, token, nonce, wholeSeconds clock⟩
    · exact Effect.refl s _
  | insert id =>
    simp only [State.step]
    split
    · exact insert_effect ‹_›
    · exact Effect.refl s _
  | revoke id owner profile =>
    simp only [State.step]
    split
    · obtain ⟨-, hissued, hfound⟩ := State.views_of_idle ‹_›
      exact Effect.of_set List.filter_sublist rfl hissued.symm hfound.symm
    · exact Effect.refl s _
  | take id token =>
    simp only [State.step]
    split
    · exact take_effect ‹_› token
    · exact Effect.refl s _
  | answer id clock =>
    simp only [State.step]
    split
    · rename_i token row hcall
      have hissued : s.issued id = none := by
        rw [State.issued, hcall]
        rfl
      have hfound : (Call.answered token row clock).found = s.found id := by
        rw [State.found, hcall]
        cases row <;> rfl
      exact Effect.of_set (List.Sublist.refl _) rfl hissued.symm hfound
    · exact Effect.refl s _

end effects

section invariant
variable {p : TokenEnv} {s s' : State} {made : List Str} {table : Table} {k : Ticket} {i : Nat}

/-- Two rows of one profile. -/
def Row.SameProfile (r r' : Row) : Prop := r.owner = r'.owner ∧ r.profile = r'.profile

/-- The table has no row for a token. -/
def State.Absent (p : TokenEnv) (s : State) (token : Str) : Prop :=
  ∀ r ∈ s.table, r.digest ≠ p.sha256 token

/-- The transaction of `issue`: of the old rows none is of the same profile, and one row is new. -/
theorem Table.issue_eq_some {table' : Table} (h : table.issue p k = some table') :
    ∃ kept, List.Sublist kept table ∧ table' = kept ++ [k.row p] ∧ ∀ r ∈ kept, ¬r.SameProfile (k.row p) := by
  unfold Table.issue at h
  simp only at h
  split at h
  · cases h
  · cases h
    refine ⟨_, List.filter_sublist.trans List.filter_sublist, rfl, fun r hr hsame => ?_⟩
    have hother := (List.mem_filter.mp hr).2
    simp only [Bool.not_eq_true', decide_eq_false_iff_not] at hother
    exact hother hsame

/-- The tokens of the calls so far are among `made`, and no two calls have one. Every row is that
of a token issued, and a row that was found is no longer there. -/
structure State.Sound (p : TokenEnv) (made : List Str) (s : State) : Prop where
  profiles : s.table.Pairwise fun r r' => ¬r.SameProfile r'
  rows : ∀ r ∈ s.table, ∃ i k, s.issued i = some k ∧ r = k.row p
  known : ∀ i k, s.ticket i = some k → k.token ∈ made
  distinct : ∀ i j k k', s.ticket i = some k → s.ticket j = some k' → k.token = k'.token → i = j
  found : ∀ i token r, s.found i = some (token, r) →
    (∃ j k, s.issued j = some k ∧ k.token = token ∧ r = k.row p) ∧ s.Absent p token
  once : ∀ i j token r r', s.found i = some (token, r) → s.found j = some (token, r') → i = j

theorem State.sound_initial : State.initial.Sound p [] where
  profiles := List.Pairwise.nil
  rows := fun _ h => (by cases h)
  known := fun _ _ h => (by cases h)
  distinct := fun _ _ _ _ h => (by cases h)
  found := fun _ _ _ h => (by cases h)
  once := fun _ _ _ _ _ h => (by cases h)

theorem State.Sound.issued_unique (h : s.Sound p made) {j : Nat} {k' : Ticket}
    (hi : s.issued i = some k) (hj : s.issued j = some k') (htoken : k.token = k'.token) : k = k' := by
  have hsame := h.distinct i j k k' (State.ticket_of_issued hi) (State.ticket_of_issued hj) htoken
  rw [hsame, hj] at hi
  exact (Option.some.inj hi).symm

/-- The row of a token is the one that was issued with it. -/
theorem State.Sound.row_eq (h : s.Sound p made) (hp : p.Lawful)
    (hk : s.issued i = some k) {r : Row} (hr : r ∈ s.table) (hdigest : r.digest = p.sha256 k.token) :
    r = k.row p := by
  obtain ⟨j, k', hk', rfl⟩ := h.rows r hr
  rw [h.issued_unique hk' hk (hp.injective hdigest)]

/-- Another transaction of `issue` does not bring back the row of a token that is gone. -/
theorem State.Sound.absent_insert (h : s.Sound p made) (hp : p.Lawful) {id : Nat}
    (hready : s.ticket id = some k) (hfresh : s.issued id = none)
    (htable : s.table.issue p k = some table) {j : Nat} {k' : Ticket} (hissued : s.issued j = some k')
    (habsent : s.Absent p k'.token) : ∀ r ∈ table, r.digest ≠ p.sha256 k'.token := by
  obtain ⟨kept, hkept, rfl, -⟩ := Table.issue_eq_some htable
  intro r hr hdigest
  rcases List.mem_append.mp hr with hr | hr
  · exact habsent r (hkept.subset hr) hdigest
  · obtain rfl := List.mem_singleton.mp hr
    have hsame := h.distinct id j k k' hready (State.ticket_of_issued hissued) (hp.injective hdigest)
    rw [← hsame, hfresh] at hissued
    cases hissued

theorem State.Sound.step (h : s.Sound p made) (hp : p.Lawful) {token : Option Str}
    (hmade : ∀ t ∈ token, t ∉ made) (heffect : Effect p s s' token) :
    s'.Sound p (made ++ token.toList) := by
  cases heffect with
  | quiet table ticket issued found =>
    refine ⟨h.profiles.sublist table, fun r hr => ?_, fun i k hk => ?_, fun i j k k' hk hk' => ?_,
      fun i t r hr => ?_, fun i j t r r' hr hr' => ?_⟩
    · obtain ⟨i, k, hk, heq⟩ := h.rows r (table.subset hr)
      exact ⟨i, k, (issued i).trans hk, heq⟩
    · exact List.mem_append_left _ (h.known i k (ticket i k hk))
    · exact h.distinct i j k k' (ticket i k hk) (ticket j k' hk')
    · obtain ⟨⟨j, k, hk, heq⟩, habsent⟩ := h.found i t r ((found i).symm.trans hr)
      exact ⟨⟨j, k, (issued j).trans hk, heq⟩, fun r' hr' => habsent r' (table.subset hr')⟩
    · exact h.once i j t r r' ((found i).symm.trans hr) ((found j).symm.trans hr')
  | prepared id k table ticket issued found =>
    have hnew : k.token ∉ made := hmade k.token rfl
    refine ⟨table ▸ h.profiles, fun r hr => ?_, fun i k' hk => ?_, fun i j k₁ k₂ hk hk' htoken => ?_,
      fun i t r hr => ?_, fun i j t r r' hr hr' => ?_⟩
    · obtain ⟨i, k', hk, heq⟩ := h.rows r (table ▸ hr)
      exact ⟨i, k', (issued i).trans hk, heq⟩
    · rw [ticket i] at hk
      split at hk
      · cases hk
        exact List.mem_append_right _ (List.mem_singleton_self _)
      · exact List.mem_append_left _ (h.known i k' hk)
    · -- the new token is none of those before it
      rw [ticket i] at hk
      rw [ticket j] at hk'
      split at hk <;> split at hk'
      · rename_i hi hj
        rw [hi, hj]
      · cases hk
        exact absurd (htoken ▸ h.known j k₂ hk') hnew
      · cases hk'
        exact absurd (htoken ▸ h.known i k₁ hk) hnew
      · exact h.distinct i j k₁ k₂ hk hk' htoken
    · obtain ⟨⟨j, k', hk, heq⟩, habsent⟩ := h.found i t r ((found i).symm.trans hr)
      exact ⟨⟨j, k', (issued j).trans hk, heq⟩, fun r' hr' => habsent r' (table ▸ hr')⟩
    · exact h.once i j t r r' ((found i).symm.trans hr) ((found j).symm.trans hr')
  | inserted id k ready fresh table ticket issued found =>
    have hkeep : ∀ i k', s.issued i = some k' → s'.issued i = some k' := by
      intro i k' hk'
      rw [issued i]
      split
      · subst i
        rw [fresh] at hk'
        cases hk'
      · exact hk'
    obtain ⟨kept, hkept, heq, hother⟩ := Table.issue_eq_some table
    refine ⟨?_, fun r hr => ?_, fun i k' hk => ?_, fun i j k₁ k₂ hk hk' => ?_, fun i t r hr => ?_,
      fun i j t r r' hr hr' => ?_⟩
    · rw [heq, List.pairwise_append]
      refine ⟨h.profiles.sublist hkept, List.pairwise_singleton _ _, fun r hr r' hr' => ?_⟩
      obtain rfl := List.mem_singleton.mp hr'
      exact hother r hr
    · rw [heq] at hr
      rcases List.mem_append.mp hr with hr | hr
      · obtain ⟨i, k', hk', heq'⟩ := h.rows r (hkept.subset hr)
        exact ⟨i, k', hkeep i k' hk', heq'⟩
      · exact ⟨id, k, (issued id).trans (if_pos rfl), List.mem_singleton.mp hr⟩
    · exact List.mem_append_left _ (h.known i k' ((ticket i).symm.trans hk))
    · exact h.distinct i j k₁ k₂ ((ticket i).symm.trans hk) ((ticket j).symm.trans hk')
    · obtain ⟨⟨j, k', hk', rfl, heq'⟩, habsent⟩ := h.found i t r ((found i).symm.trans hr)
      exact ⟨⟨j, k', hkeep j k' hk', rfl, heq'⟩, h.absent_insert hp ready fresh table hk' habsent⟩
    · exact h.once i j t r r' ((found i).symm.trans hr) ((found j).symm.trans hr')
  | took id t r mem digest table ticket issued found =>
    obtain ⟨j, k, hk, rfl⟩ := h.rows r mem
    have hgone : s'.Absent p t := by
      intro r' hr'
      rw [table] at hr'
      simpa using (List.mem_filter.mp hr').2
    have hsub : List.Sublist s'.table s.table := table ▸ List.filter_sublist
    -- the row was there, so nobody has found it before
    have hfirst : ∀ i r', s.found i ≠ some (t, r') := by
      intro i r' hr'
      exact (h.found i t r' hr').2 _ mem digest
    refine ⟨h.profiles.sublist hsub, fun r hr => ?_, fun i k' hk => ?_, fun i j k₁ k₂ hk hk' => ?_,
      fun i t' r hr => ?_, fun i j t' r r' hr hr' => ?_⟩
    · obtain ⟨i, k', hk', heq⟩ := h.rows r (hsub.subset hr)
      exact ⟨i, k', (issued i).trans hk', heq⟩
    · exact List.mem_append_left _ (h.known i k' ((ticket i).symm.trans hk))
    · exact h.distinct i j k₁ k₂ ((ticket i).symm.trans hk) ((ticket j).symm.trans hk')
    · rw [found i] at hr
      split at hr
      · cases hr
        exact ⟨⟨j, k, (issued j).trans hk, hp.injective digest, rfl⟩, hgone⟩
      · obtain ⟨⟨j', k', hk', heq⟩, habsent⟩ := h.found i t' r hr
        exact ⟨⟨j', k', (issued j').trans hk', heq⟩, fun r' hr' => habsent r' (hsub.subset hr')⟩
    · rw [found i] at hr
      rw [found j] at hr'
      split at hr <;> split at hr'
      · rename_i hi hj
        rw [hi, hj]
      · cases hr
        exact absurd hr' (hfirst j r')
      · cases hr'
        exact absurd hr (hfirst i r)
      · exact h.once i j t' r r' hr hr'

/-- A token whose row is gone for good: it was issued, and the table has no row for it. -/
structure State.Gone (p : TokenEnv) (s : State) (token : Str) : Prop where
  issued : ∃ i k, s.issued i = some k ∧ k.token = token
  absent : s.Absent p token

/-- A token that is gone stays gone, and who has not found its row will not find it. -/
theorem State.Gone.step (h : s.Sound p made) (hp : p.Lawful) {token : Str} (hgone : s.Gone p token)
    {t : Option Str} (heffect : Effect p s s' t) (hi : ∀ r, s.found i ≠ some (token, r)) :
    s'.Gone p token ∧ ∀ r, s'.found i ≠ some (token, r) := by
  obtain ⟨⟨j, k, hk, rfl⟩, habsent⟩ := hgone
  cases heffect with
  | quiet table ticket issued found =>
    exact ⟨⟨⟨j, k, (issued j).trans hk, rfl⟩, fun r hr => habsent r (table.subset hr)⟩,
      fun r hr => hi r ((found i).symm.trans hr)⟩
  | prepared id k' table ticket issued found =>
    exact ⟨⟨⟨j, k, (issued j).trans hk, rfl⟩, fun r hr => habsent r (table ▸ hr)⟩,
      fun r hr => hi r ((found i).symm.trans hr)⟩
  | inserted id k' ready fresh table ticket issued found =>
    refine ⟨⟨⟨j, k, ?_, rfl⟩, h.absent_insert hp ready fresh table hk habsent⟩,
      fun r hr => hi r ((found i).symm.trans hr)⟩
    rw [issued j]
    split
    · subst j
      rw [fresh] at hk
      cases hk
    · exact hk
  | took id t r mem digest table ticket issued found =>
    refine ⟨⟨⟨j, k, (issued j).trans hk, rfl⟩, fun r hr => ?_⟩, fun r' hr' => ?_⟩
    · rw [table] at hr
      exact habsent r (List.mem_of_mem_filter hr)
    · rw [found i] at hr'
      split at hr'
      · cases hr'
        exact habsent r mem digest
      · exact hi r' hr'

end invariant

section runs
variable {p : TokenEnv} {s : State} {made : List Str} {token : Str} {i : Nat}

theorem State.Sound.run (h : s.Sound p made) (hp : p.Lawful) (steps : List Step)
    (hfresh : (made ++ steps.filterMap Step.token).Nodup) :
    (s.run p steps).Sound p (made ++ steps.filterMap Step.token) := by
  induction steps generalizing s made with
  | nil => simpa [State.run] using h
  | cons x steps ih =>
    have hsplit : made ++ (x :: steps).filterMap Step.token =
        made ++ x.token.toList ++ steps.filterMap Step.token := by
      rw [List.filterMap_cons]
      cases x.token <;> simp
    rw [hsplit] at hfresh ⊢
    refine ih (h.step hp (fun t ht hmem => ?_) (step_effect s x)) hfresh
    have hnodup := (List.nodup_append.mp hfresh).1
    rw [Option.mem_def.mp ht] at hnodup
    exact (List.nodup_append.mp hnodup).2.2 t hmem t (by simp) rfl

theorem State.Gone.run (h : s.Sound p made) (hp : p.Lawful) (hgone : s.Gone p token)
    (steps : List Step) (hfresh : (made ++ steps.filterMap Step.token).Nodup)
    (hi : ∀ r, s.found i ≠ some (token, r)) : ∀ r, (s.run p steps).found i ≠ some (token, r) := by
  induction steps generalizing s made with
  | nil => exact hi
  | cons x steps ih =>
    have hone : (made ++ [x].filterMap Step.token).Nodup := by
      refine hfresh.sublist (List.Sublist.append_left ?_ _)
      rw [List.filterMap_cons, List.filterMap_cons]
      cases x.token <;> simp
    have hrest : (made ++ [x].filterMap Step.token ++ steps.filterMap Step.token).Nodup := by
      rw [List.append_assoc, ← List.filterMap_append]
      exact hfresh
    obtain ⟨hgone', hi'⟩ := hgone.step h hp (step_effect s x) hi
    exact ih (h.run hp [x] hone) hgone' hrest hi'

/-- The call `i` claimed the token, read the clock and returned some bytes. -/
def State.Claimed (p : TokenEnv) (s : State) (i : Nat) (token : Str) (clock : Rat) (bytes : Str) : Prop :=
  ∃ row, s.calls i = some (.answered token row clock) ∧ p.answer token row clock = .content bytes

theorem State.Claimed.found {bytes : Str} {clock : Rat}
    (h : s.Claimed p i token clock bytes) : ∃ r, s.found i = some (token, r) ∧ clock < r.expires ∧
      p.decrypt r.nonce r.payload (p.sha256 token) = some bytes := by
  obtain ⟨row, hcall, hanswer⟩ := h
  unfold TokenEnv.answer at hanswer
  split at hanswer
  · cases hanswer
  · rename_i r
    split at hanswer
    · cases hanswer
    · rename_i hexpired
      split at hanswer
      · rename_i b hdecrypt
        cases hanswer
        refine ⟨r, ?_, Rat.not_le.mp hexpired, hdecrypt⟩
        rw [State.found, hcall]
        rfl
      · cases hanswer

/-- The row that a claim found is the one issued with its token, so the claim was in time and its
bytes are what the token was issued for. -/
theorem State.Sound.claimed (h : s.Sound p made) (hp : p.Lawful) {bytes : Str}
    {clock : Rat} (hclaimed : s.Claimed p i token clock bytes) :
    ∃ j k, s.issued j = some k ∧ k.token = token ∧ clock < k.expires ∧
      bytes = importPayload k.request.name k.request.config := by
  obtain ⟨r, hfound, htime, hdecrypt⟩ := hclaimed.found
  obtain ⟨⟨j, k, hk, rfl, rfl⟩, -⟩ := h.found i token r hfound
  refine ⟨j, k, hk, rfl, htime, ?_⟩
  have hplain := hp.cipher k.nonce (importPayload k.request.name k.request.config) (p.sha256 k.token)
  exact Option.some.inj (hdecrypt.symm.trans hplain)

theorem State.run_append (s : State) (pre post : List Step) :
    s.run p (pre ++ post) = (s.run p pre).run p post := List.foldl_append ..

/-- A step after which a token is gone puts it out of reach of every claim not yet begun. -/
theorem not_claimed_of_gone (hp : p.Lawful) {pre post : List Step} {x : Step}
    (hfresh : ((pre ++ x :: post).filterMap Step.token).Nodup)
    (hgone : ((State.initial.run p pre).step p x).Gone p token)
    (hlater : ((State.initial.run p pre).step p x).calls i = none) (clock : Rat) (bytes : Str) :
    ¬(State.initial.run p (pre ++ x :: post)).Claimed p i token clock bytes := by
  intro hclaimed
  have hsplit : pre ++ x :: post = (pre ++ [x]) ++ post := by simp
  have hstep : State.initial.run p (pre ++ [x]) = (State.initial.run p pre).step p x := State.run_append ..
  rw [hsplit] at hclaimed hfresh
  rw [State.run_append] at hclaimed
  rw [List.filterMap_append] at hfresh
  have hbefore : (State.initial.run p (pre ++ [x])).Sound p ([] ++ (pre ++ [x]).filterMap Step.token) :=
    State.sound_initial.run hp _ (by simpa using (List.nodup_append.mp hfresh).1)
  obtain ⟨r, hfound, -⟩ := hclaimed.found
  refine (hstep ▸ hgone : (State.initial.run p (pre ++ [x])).Gone p token).run hbefore hp post
    (by simpa using hfresh) (fun r => ?_) r hfound
  rw [hstep, (State.views_of_idle hlater).2.2]
  simp

theorem revoke_gone (hp : p.Lawful) (h : s.Sound p made) {j : Nat} {k : Ticket} {profile : Option Int}
    (hidle : s.calls j = none) (hk : s.issued i = some k)
    (hprofile : ∀ q ∈ profile, k.request.profile = q) :
    (s.step p (.revoke j k.request.owner profile)).Gone p k.token := by
  have hstep : s.step p (.revoke j k.request.owner profile) =
      { s with table := s.table.revoke k.request.owner profile }.set j .revoked := by
    simp only [State.step, hidle]
  rw [hstep]
  refine ⟨⟨i, k, ?_, rfl⟩, fun r hr hdigest => ?_⟩
  · rw [State.set_issued]
    exact (ite_of_same (State.views_of_idle hidle).2.1.symm i).trans hk
  · obtain ⟨hmem, hcovered⟩ := List.mem_filter.mp hr
    rw [h.row_eq hp hk hmem hdigest] at hcovered
    have : (k.row p).covered k.request.owner profile = true := by
      unfold Row.covered
      cases profile with
      | none => simp [Ticket.row]
      | some q => simp [Ticket.row, hprofile q rfl]
    rw [this] at hcovered
    cases hcovered

theorem insert_gone (hp : p.Lawful) (h : s.Sound p made) {j : Nat} {k k' : Ticket}
    (hready : s.calls j = some (.ready k')) (hk : s.issued i = some k)
    (hsame : k.request.owner = k'.request.owner ∧ k.request.profile = k'.request.profile)
    (hdone : (s.step p (.insert j)).issued j = some k') : (s.step p (.insert j)).Gone p k.token := by
  have hstep : s.step p (.insert j) = s.insert p j k' := by simp only [State.step, hready]
  rw [hstep] at hdone ⊢
  have hticket : s.ticket j = some k' := by
    rw [State.ticket, hready]
    rfl
  have hfresh : s.issued j = none := by
    rw [State.issued, hready]
    rfl
  have hne : i ≠ j := by
    rintro rfl
    rw [hk] at hfresh
    cases hfresh
  unfold State.insert at hdone ⊢
  split at hdone
  · rw [State.set_issued, if_pos rfl] at hdone
    cases hdone
  · rename_i table htable
    obtain ⟨kept, hkept, rfl, hother⟩ := Table.issue_eq_some htable
    refine ⟨⟨i, k, ?_, rfl⟩, fun r hr hdigest => ?_⟩
    · rw [State.set_issued, if_neg hne]
      exact hk
    · rcases List.mem_append.mp hr with hr | hr
      · refine hother r hr ?_
        rw [h.row_eq hp hk (hkept.subset hr) hdigest]
        exact hsame
      · obtain rfl := List.mem_singleton.mp hr
        exact hne (h.distinct i j k k' (State.ticket_of_issued hk) hticket
          (hp.injective hdigest).symm)

/-- Import tokens are single-use, in every order of the steps of any calls, when no two calls make
the same token: a token has one successful claim at most; it has none that begins after a revoke or
a further link for its profile, and none at its expiry or later; a profile has one row at most; and
what a claim returns is the name and the config that the token was issued for. -/
theorem import_tokens_single_use (p : TokenEnv) (hp : p.Lawful) (steps : List Step)
    (hfresh : (steps.filterMap Step.token).Nodup) :
    (∀ i j token clock clock' bytes bytes',
      (State.initial.run p steps).Claimed p i token clock bytes →
      (State.initial.run p steps).Claimed p j token clock' bytes' → i = j) ∧
    (∀ pre post j owner profile i k, steps = pre ++ .revoke j owner profile :: post →
      (State.initial.run p pre).calls j = none → (State.initial.run p pre).issued i = some k →
      k.request.owner = owner → (∀ q ∈ profile, k.request.profile = q) →
      ∀ claim clock bytes, (State.initial.run p (pre ++ [.revoke j owner profile])).calls claim = none →
        ¬(State.initial.run p steps).Claimed p claim k.token clock bytes) ∧
    (∀ pre post j i k k', steps = pre ++ .insert j :: post →
      (State.initial.run p pre).calls j = some (.ready k') → (State.initial.run p pre).issued i = some k →
      k.request.owner = k'.request.owner → k.request.profile = k'.request.profile →
      (State.initial.run p (pre ++ [.insert j])).issued j = some k' →
      ∀ claim clock bytes, (State.initial.run p (pre ++ [.insert j])).calls claim = none →
        ¬(State.initial.run p steps).Claimed p claim k.token clock bytes) ∧
    (∀ i token clock bytes, (State.initial.run p steps).Claimed p i token clock bytes →
      ∃ j k, (State.initial.run p steps).issued j = some k ∧ k.token = token ∧ clock < k.expires ∧
        readPayload bytes = some (k.request.name, k.request.config)) ∧
    (State.initial.run p steps).table.Pairwise fun r r' =>
      ¬(r.owner = r'.owner ∧ r.profile = r'.profile) := by
  have hsound : (State.initial.run p steps).Sound p ([] ++ steps.filterMap Step.token) :=
    State.sound_initial.run hp steps (by simpa using hfresh)
  have hpre : ∀ pre post, steps = pre ++ post →
      (State.initial.run p pre).Sound p ([] ++ pre.filterMap Step.token) := by
    rintro pre post rfl
    rw [List.filterMap_append] at hfresh
    exact State.sound_initial.run hp pre (by simpa using (List.nodup_append.mp hfresh).1)
  refine ⟨?_, ?_, ?_, ?_, hsound.profiles⟩
  · intro i j token clock clock' bytes bytes' hi hj
    obtain ⟨r, hr, -⟩ := hi.found
    obtain ⟨r', hr', -⟩ := hj.found
    exact hsound.once i j token r r' hr hr'
  · intro pre post j owner profile i k heq hidle hk howner hprofile claim clock bytes hlater
    subst howner
    rw [State.run_append] at hlater
    have hgone := revoke_gone hp (hpre pre _ heq) hidle hk hprofile
    subst heq
    exact not_claimed_of_gone hp hfresh hgone hlater clock bytes
  · intro pre post j i k k' heq hready hk howner hprofile hdone claim clock bytes hlater
    rw [State.run_append] at hlater hdone
    have hgone := insert_gone hp (hpre pre _ heq) hready hk ⟨howner, hprofile⟩ hdone
    subst heq
    exact not_claimed_of_gone hp hfresh hgone hlater clock bytes
  · intro i token clock bytes hclaimed
    obtain ⟨j, k, hk, htoken, htime, hbytes⟩ := hsound.claimed hp hclaimed
    exact ⟨j, k, hk, htoken, htime, hbytes ▸ readPayload_importPayload _ _⟩

/-- A hash and a cipher that hide nothing. -/
def openEnv : TokenEnv where
  origin := ascii "https://example.test"
  sha256 := id
  encrypt := fun _ plain _ => plain
  decrypt := fun _ payload _ => some payload

theorem openEnv_lawful : openEnv.Lawful where
  injective := Function.injective_id
  cipher := fun _ _ _ => rfl

def oneToken : Str := List.replicate 43 0x61

/-- A link is issued, and two calls claim it at the same time. -/
def raceSteps : List Step :=
  [.prepare 0 ⟨1, 1, ascii "home", ascii "[Interface]", 300⟩ oneToken [] 1000, .insert 0,
    .take 1 oneToken, .take 2 oneToken, .answer 2 1001, .answer 1 1001]

theorem import_tokens_single_use_race :
    (State.initial.run openEnv raceSteps).Claimed openEnv 1 oneToken 1001
        (importPayload (ascii "home") (ascii "[Interface]")) ∧
      ∀ j clock bytes, (State.initial.run openEnv raceSteps).Claimed openEnv j oneToken clock bytes → 1 = j := by
  have hfirst : (State.initial.run openEnv raceSteps).Claimed openEnv 1 oneToken 1001
      (importPayload (ascii "home") (ascii "[Interface]")) :=
    ⟨some ⟨oneToken, 1, 1, 1300, [], importPayload (ascii "home") (ascii "[Interface]")⟩,
      by decide +kernel, by decide +kernel⟩
  exact ⟨hfirst, fun j clock bytes hj => (import_tokens_single_use openEnv openEnv_lawful raceSteps
    (by decide +kernel)).1 1 j oneToken 1001 clock _ bytes hfirst hj⟩

end runs

end SmartAwg.Import
