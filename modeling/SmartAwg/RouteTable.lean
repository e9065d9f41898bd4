import SmartAwg.GoNetPrefix

/-!
A routing table: a finite map from masked prefixes to values, looked up by longest prefix.
-/

namespace SmartAwg.Go

/-- A prefix with its address masked, so that equal prefixes are equal values. -/
structure Net where
  ip : Str
  bits : Nat
  deriving DecidableEq

def Net.of (ip : Str) (bits : Nat) : Net := ⟨maskBits ip bits, bits⟩

def Net.ofPrefix (p : Prefix) : Net := Net.of p.addr.bytes p.bits

/-- An address of the same family lies in the network. -/
def Net.contains (n : Net) (addr : Str) : Bool :=
  n.ip.length == addr.length && maskBits addr n.bits == n.ip

/-- The entries in the order of their last insertion. -/
abbrev RouteTable (π : Type) := List (Net × π)

namespace RouteTable
variable {π : Type}

/-- A later insertion of the same network takes it over. -/
def insert (t : RouteTable π) (n : Net) (p : π) : RouteTable π :=
  t.filter (fun e => e.1 ≠ n) ++ [(n, p)]

def remove [DecidableEq π] (t : RouteTable π) (n : Net) (p : π) : RouteTable π :=
  t.filter fun e => ¬ (e.1 = n ∧ e.2 = p)

def removeValue [DecidableEq π] (t : RouteTable π) (p : π) : RouteTable π :=
  t.filter fun e => e.2 ≠ p

/-- The entry with the longest prefix among those that contain the address. -/
def best (addr : Str) : RouteTable π → Option (Net × π)
  | [] => none
  | e :: t =>
    match best addr t with
    | some f => if e.1.contains addr ∧ f.1.bits < e.1.bits then some e else some f
    | none => if e.1.contains addr then some e else none

def lookup (t : RouteTable π) (addr : Str) : Option π := (best addr t).map Prod.snd

/-- The table after some insertions. -/
def ofRoutes (routes : List (Net × π)) : RouteTable π :=
  routes.foldl (fun t r => t.insert r.1 r.2) []

section choose

/-- A route takes over from the one found so far unless its prefix is shorter. -/
def choose (addr : Str) (found : Option (Net × π)) (r : Net × π) : Option (Net × π) :=
  if r.1.contains addr ∧ ∀ f ∈ found, f.1.bits ≤ r.1.bits then some r else found

variable (addr : Str)

theorem foldl_choose_concat (t : List (Net × π)) (r : Net × π) :
    (t ++ [r]).foldl (choose addr) none = choose addr (t.foldl (choose addr) none) r := by
  rw [List.foldl_append]
  rfl

theorem foldl_choose_mem (t : List (Net × π)) (f : Net × π)
    (h : t.foldl (choose addr) none = some f) : f ∈ t ∧ f.1.contains addr = true := by
  induction t using List.reverseRecOn with
  | nil => cases h
  | append_singleton t r ih =>
    rw [foldl_choose_concat, choose] at h
    split at h
    · rename_i hr
      cases h
      exact ⟨List.mem_append_right _ (List.mem_singleton_self _), hr.1⟩
    · exact ⟨List.mem_append_left _ (ih h).1, (ih h).2⟩

theorem foldl_choose_max (t : List (Net × π)) (e : Net × π) (he : e ∈ t)
    (hc : e.1.contains addr = true) :
    ∃ f, t.foldl (choose addr) none = some f ∧ e.1.bits ≤ f.1.bits := by
  induction t using List.reverseRecOn with
  | nil => cases he
  | append_singleton t r ih =>
    rw [foldl_choose_concat, choose]
    rcases List.mem_append.mp he with he | he
    · obtain ⟨f, hf, hle⟩ := ih he
      split
      · rename_i hr
        exact ⟨r, rfl, Nat.le_trans hle (hr.2 f hf)⟩
      · exact ⟨f, hf, hle⟩
    · rw [List.mem_singleton.mp he] at hc ⊢
      split
      · exact ⟨r, rfl, Nat.le_refl _⟩
      · rename_i hr
        -- it was refused for a longer prefix
        by_contra hnone
        apply hr
        refine ⟨hc, fun f hf => ?_⟩
        by_contra hlt
        exact hnone ⟨f, hf, by omega⟩

/-- The route found is the last one among those with the longest prefix. -/
theorem foldl_choose_eq_getLast (t : List (Net × π)) (longest : Nat)
    (hmem : ∃ e ∈ t, e.1.contains addr = true ∧ e.1.bits = longest)
    (hmax : ∀ e ∈ t, e.1.contains addr = true → e.1.bits ≤ longest) :
    t.foldl (choose addr) none =
      (t.filter fun e => e.1.contains addr && e.1.bits == longest).getLast? := by
  induction t using List.reverseRecOn with
  | nil =>
    obtain ⟨e, he, -⟩ := hmem
    cases he
  | append_singleton t r ih =>
    have hmax' : ∀ e ∈ t, e.1.contains addr = true → e.1.bits ≤ longest :=
      fun e he => hmax e (List.mem_append_left _ he)
    rw [foldl_choose_concat, choose, List.filter_append]
    by_cases hr : r.1.contains addr = true ∧ r.1.bits = longest
    · -- the new route is one of them, so it is the last
      have htake : ∀ f ∈ t.foldl (choose addr) none, f.1.bits ≤ r.1.bits := by
        intro f hf
        obtain ⟨hft, hfc⟩ := foldl_choose_mem addr t f hf
        rw [hr.2]
        exact hmax' f hft hfc
      have hkeep : [r].filter (fun e => e.1.contains addr && e.1.bits == longest) = [r] := by
        simp [hr.1, hr.2]
      rw [if_pos ⟨hr.1, htake⟩, hkeep, List.getLast?_append, List.getLast?_singleton]
      rfl
    · have hdrop : [r].filter (fun e => e.1.contains addr && e.1.bits == longest) = [] := by
        simpa using hr
      have hmem' : ∃ e ∈ t, e.1.contains addr = true ∧ e.1.bits = longest := by
        obtain ⟨e, he, hec, heb⟩ := hmem
        rcases List.mem_append.mp he with he | he
        · exact ⟨e, he, hec, heb⟩
        · rw [List.mem_singleton.mp he] at hec heb
          exact absurd ⟨hec, heb⟩ hr
      rw [hdrop, List.append_nil, ← ih hmem' hmax']
      apply if_neg
      rintro ⟨hrc, hle⟩
      -- what was found before has the longest prefix, which is longer than the new one
      obtain ⟨e, he, hec, heb⟩ := hmem'
      have hne : (t.filter fun e => e.1.contains addr && e.1.bits == longest) ≠ [] :=
        List.ne_nil_of_mem (List.mem_filter.mpr ⟨he, by simp [hec, heb]⟩)
      have hlast := List.getLast?_eq_getLast_of_ne_nil hne
      rw [← ih ⟨e, he, hec, heb⟩ hmax'] at hlast
      have hfound := List.mem_filter.mp (List.getLast_mem hne)
      simp only [Bool.and_eq_true, beq_iff_eq] at hfound
      have hshort := hle _ hlast
      have hbound := hmax r (List.mem_append_right _ (List.mem_singleton_self _)) hrc
      exact hr ⟨hrc, by omega⟩

/-- The better of what was found before and what is found in the rest. -/
def prefer (start found : Option (Net × π)) : Option (Net × π) :=
  match start, found with
  | none, found => found
  | some s, none => some s
  | some s, some f => if f.1.bits < s.1.bits then some s else some f

theorem foldl_choose_eq_prefer (t : RouteTable π) (start : Option (Net × π)) :
    t.foldl (choose addr) start = prefer start (best addr t) := by
  induction t generalizing start with
  | nil => cases start <;> rfl
  | cons e t ih =>
    rw [List.foldl_cons, ih, best, choose]
    -- of the three candidates, the last one with the longest prefix
    by_cases hc : e.1.contains addr = true
    · cases start <;> cases best addr t <;> grind [prefer]
    · cases start <;> cases best addr t <;> simp [prefer, hc]

theorem best_eq_foldl (t : RouteTable π) : best addr t = t.foldl (choose addr) none :=
  (foldl_choose_eq_prefer addr t none).symm

/-- The table finds what the insertions say: the longest prefix, and the last insertion of it. -/
theorem best_ofRoutes (routes : List (Net × π)) :
    best addr (ofRoutes routes) = routes.foldl (choose addr) none := by
  induction routes using List.reverseRecOn with
  | nil => rfl
  | append_singleton routes r ih =>
    have hinsert : ofRoutes (routes ++ [r]) =
        (ofRoutes routes).filter (fun e => e.1 ≠ r.1) ++ [r] := by
      rw [ofRoutes, List.foldl_append]
      rfl
    rw [hinsert, best_eq_foldl, foldl_choose_concat, foldl_choose_concat, ← ih, best_eq_foldl]
    generalize ofRoutes routes = t
    by_cases hr : r.1.contains addr = true ∧
        ∀ e ∈ t, e.1.contains addr = true → e.1.bits ≤ r.1.bits
    · -- the new route takes over in both
      have htake : ∀ u : List (Net × π), (∀ e ∈ u, e ∈ t) →
          choose addr (u.foldl (choose addr) none) r = some r := by
        intro u hu
        apply if_pos
        refine ⟨hr.1, fun f hf => ?_⟩
        obtain ⟨hfu, hfc⟩ := foldl_choose_mem addr u f hf
        exact hr.2 f (hu f hfu) hfc
      rw [htake _ fun e he => (List.mem_filter.mp he).1, htake t fun _ he => he]
    · congr 1
      cases hfound : t.foldl (choose addr) none with
      | none =>
        -- nothing matches, before and after the removal
        cases hfound' : (t.filter fun e => e.1 ≠ r.1).foldl (choose addr) none with
        | none => rfl
        | some f =>
          obtain ⟨hf, hfc⟩ := foldl_choose_mem addr _ f hfound'
          obtain ⟨g, hg, -⟩ := foldl_choose_max addr t f (List.mem_filter.mp hf).1 hfc
          rw [hfound] at hg
          cases hg
      | some f =>
        obtain ⟨hft, hfc⟩ := foldl_choose_mem addr t f hfound
        have hmax : ∀ e ∈ t, e.1.contains addr = true → e.1.bits ≤ f.1.bits := by
          intro e he hec
          obtain ⟨g, hg, hle⟩ := foldl_choose_max addr t e he hec
          rw [hfound] at hg
          cases hg
          exact hle
        have hkept : ∀ e ∈ t, e.1.contains addr = true → e.1.bits = f.1.bits → e.1 ≠ r.1 := by
          intro e he hec heb heq
          rw [heq] at hec heb
          exact hr ⟨hec, fun g hg hgc => heb ▸ hmax g hg hgc⟩
        rw [← hfound, foldl_choose_eq_getLast addr t f.1.bits ⟨f, hft, hfc, rfl⟩ hmax,
          foldl_choose_eq_getLast addr _ f.1.bits
            ⟨f, List.mem_filter.mpr ⟨hft, by simpa using hkept f hft hfc rfl⟩, hfc, rfl⟩
            fun e he => hmax e (List.mem_filter.mp he).1, List.filter_filter]
        congr 1
        apply List.filter_congr
        intro e he
        rw [Bool.eq_iff_iff]
        simp only [Bool.and_eq_true, beq_iff_eq, decide_eq_true_eq, and_iff_left_iff_imp]
        rintro ⟨hec, heb⟩
        exact hkept e he hec heb

end choose

end RouteTable

end SmartAwg.Go
