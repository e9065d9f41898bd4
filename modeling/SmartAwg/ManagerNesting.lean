import SmartAwg.ManagerStart

/-!
`smartStartLocked` calls itself to bring an engine back. It does so at most once: the call is made
after the engine has been detached, and a call made while no engine is recorded finds none to bring
back. So the depth at which the model cuts the calls off is never reached.
-/

namespace SmartAwg.Manager

open Go Smart Fallible

section calls
variable {α : Type} {C : Prop} {w : World} {T : Except ManagerErr α → World → Prop}

/-- What a function does with its callback: it does not call it, or it makes one call, under the
condition `C` and while no engine is recorded, and returns an error made from what the call returned.
Nothing happens after the call. -/
def CallsOnce (C : Prop) (body : (SmartProcess → Op Unit) → Op Unit) (w : World) : Prop :=
  ∀ f, (∃ out, ∀ restore, body restore w f = out) ∨
    C ∧ ∃ (process : SmartProcess) (u : World) (f' : Feed Question Answer)
      (cause : Except ManagerErr Unit → ManagerErr), u.smartProcess = none ∧
      ∀ restore, body restore w f = ⟨.error (cause (restore process u f').value),
        (restore process u f').state, (restore process u f').rest⟩

theorem CallsOnce.never (m : Op Unit) : CallsOnce C (fun _ => m) w :=
  fun f => Or.inl ⟨m w f, fun _ => rfl⟩

theorem CallsOnce.bind {m : Op α} {k : (SmartProcess → Op Unit) → α → Op Unit}
    (hm : wp (fun _ _ => True) m T w)
    (h : ∀ x w', T (.ok x) w' → CallsOnce C (fun restore => k restore x) w') :
    CallsOnce C (fun restore => m >>= k restore) w := by
  intro f
  have hT := hm.ending f fun _ _ => trivial
  cases hv : (m w f).value with
  | error e => exact Or.inl ⟨_, fun _ => Prog.bind_of_error hv⟩
  | ok x =>
    rcases h x _ (hv ▸ hT) (m w f).rest with ⟨out, hout⟩ | ⟨hC, process, u, f', cause, hu, hcall⟩
    · exact Or.inl ⟨out, fun restore => (Prog.bind_of_ok hv).trans (hout restore)⟩
    · exact Or.inr ⟨hC, process, u, f', cause, hu,
        fun restore => (Prog.bind_of_ok hv).trans (hcall restore)⟩

theorem CallsOnce.attempt_bind {m : Op α} {k : (SmartProcess → Op Unit) → Except ManagerErr α → Op Unit}
    (hm : wp (fun _ _ => True) m T w)
    (h : ∀ r w', T r w' → CallsOnce C (fun restore => k restore r) w') :
    CallsOnce C (fun restore => Prog.attempt m >>= k restore) w := by
  refine CallsOnce.bind hm.attempt ?_
  rintro r w' ⟨_, hr, hT⟩
  cases hr
  exact h r w' hT

/-- The one call, with an end that only looks at what it returned. -/
theorem CallsOnce.call (hC : C) (hw : w.smartProcess = none) (process : SmartProcess)
    {k : Except ManagerErr Unit → Op Unit} (cause : Except ManagerErr Unit → ManagerErr)
    (hk : ∀ r u f, k r u f = ⟨.error (cause r), u, f⟩) :
    CallsOnce C (fun restore => Prog.attempt (restore process) >>= k) w :=
  fun f => Or.inr ⟨hC, process, w, f, cause, hw,
    fun restore => (Prog.attempt_bind_eq (restore process) k w f).trans (hk ..)⟩

end calls

section body
variable (env : Env) (a : Attempt) (name : Str) (s : RoutingSettings) (persist : Bool) (w : World)

/-- The error of `restoreNative` once the engine has been called back. -/
def restoreCause (cause : ManagerErr) : Except ManagerErr Unit → ManagerErr
  | .ok () => cause
  | .error e => .join [cause, .wrap "restore smart predecessor" e]

/-- The error of the native branch. -/
def turnCause (cause : ManagerErr) : Except ManagerErr Unit → ManagerErr
  | .ok () => cause
  | .error e => .join [cause, e]

theorem startSmart_callsOnce (smart : usesNativeTunnel s = false) :
    CallsOnce (w.smartProcess ≠ none) (fun restore => startSmart env restore a name s smart persist) w := by
  unfold startSmart
  refine CallsOnce.bind (prepareEngine_spec a name) ?_
  rintro ⟨⟩ w ⟨rfl, -⟩
  refine CallsOnce.bind (findPriors_spec a) ?_
  rintro ⟨prior, engine⟩ w₀ ⟨hmissed, hfound, -⟩
  obtain ⟨rfl, -⟩ := hfound _ rfl
  refine CallsOnce.bind (raiseGuard_spec a s) ?_
  rintro ⟨⟩ w₁ -
  refine CallsOnce.attempt_bind (stopAllNativeTunnels_spec a) ?_
  rintro (e | ⟨⟩) w₂ -
  · exact CallsOnce.never _
  refine CallsOnce.attempt_bind (launchEngine_spec env a name s persist) ?_
  rintro (cause | pid) w₃ launch
  swap
  · exact CallsOnce.never _
  have hnone : w₃.smartProcess = none := LaunchEnd.smartProcess_none _ _ _ _ _ launch
  cases prior with
  | some n => exact CallsOnce.never _
  | none =>
    cases hw : w₀.smartProcess with
    | none => exact CallsOnce.never _
    | some process =>
      -- the engine to return to was recorded when the start began
      refine CallsOnce.call (fun h => ?_) hnone process (restoreCause cause) ?_
      · rw [hmissed.of_none h, h] at hw
        cases hw
      · rintro (e | ⟨⟩) u f
        · rfl
        · rfl

theorem startNative_callsOnce :
    CallsOnce (w.smartProcess ≠ none) (fun restore => startNative restore a name persist) w := by
  unfold startNative
  refine CallsOnce.bind (lock_spec a .prior) ?_
  rintro u w₀ ⟨hu, hmissed⟩
  obtain rfl := Except.ok.inj hu
  refine CallsOnce.bind (wp.mapError (R := fun _ w' => w' = u.detached) _ (smartStopUnlocked_spec a)
    (fun _ _ h => h.1) fun _ _ h => h.1) ?_
  rintro ⟨⟩ _ rfl
  refine CallsOnce.attempt_bind (startNativeUnlocked_spec a name) ?_
  rintro r w₂ ⟨w₁, hmissed₁, hend⟩
  obtain rfl := hmissed₁.of_none rfl
  cases hend with
  | started v => exact CallsOnce.never _
  | failed e v =>
    cases hw : u.smartProcess with
    | none => exact CallsOnce.never _
    | some process =>
      refine CallsOnce.call (fun h => ?_) rfl process (turnCause e) ?_
      · rw [hmissed.of_none h, h] at hw
        cases hw
      · rintro (e | ⟨⟩) u f
        · rfl
        · rfl

theorem startWith_callsOnce :
    CallsOnce (w.smartProcess ≠ none) (fun restore => startWith env restore a name s persist) w := by
  unfold startWith
  refine CallsOnce.bind (wp_must (R := fun _ w' => w' = w) _ (fun _ _ _ => rfl) fun _ _ _ _ => rfl) ?_
  rintro _ w rfl
  by_cases h : usesNativeTunnel s = false
  · simp only [h, dite_true]
    exact startSmart_callsOnce env a name s persist w h
  · simp only [h]
    exact startNative_callsOnce a name persist w

end body

section depth

/-- The calls of `smartStartLocked` by itself down to a depth, with `stub` for those below. -/
def restoreAt (env : Env) (stub : SmartProcess → Op Unit) : Nat → SmartProcess → Op Unit
  | 0 => stub
  | depth + 1 => fun process =>
    startWith env (restoreAt env stub depth) .predecessor process.tunnelName process.settings false

variable (env : Env)

/-- A call made while no engine is recorded does not depend on its own callback. -/
theorem startWith_of_none (restore restore' : SmartProcess → Op Unit) (a : Attempt) (name : Str)
    (s : RoutingSettings) (persist : Bool) {u : World} (hu : u.smartProcess = none)
    (f : Feed Question Answer) :
    startWith env restore a name s persist u f = startWith env restore' a name s persist u f := by
  rcases startWith_callsOnce env a name s persist u f with ⟨out, hout⟩ | ⟨hsome, -⟩
  · exact (hout restore).trans (hout restore').symm
  · exact absurd hu hsome

/-- Two callbacks that agree while no engine is recorded are as good as each other. -/
theorem startWith_congr {restore restore' : SmartProcess → Op Unit}
    (h : ∀ process u f, u.smartProcess = none → restore process u f = restore' process u f)
    (a : Attempt) (name : Str) (s : RoutingSettings) (persist : Bool) (w : World)
    (f : Feed Question Answer) :
    startWith env restore a name s persist w f = startWith env restore' a name s persist w f := by
  rcases startWith_callsOnce env a name s persist w f with
    ⟨out, hout⟩ | ⟨-, process, u, f', cause, hu, hcall⟩
  · exact (hout restore).trans (hout restore').symm
  · refine (hcall restore).trans (Eq.trans ?_ (hcall restore').symm)
    rw [h process u f' hu]

theorem restoreAt_eq (stub : SmartProcess → Op Unit) (depth : Nat) (process : SmartProcess) (u : World)
    (f : Feed Question Answer) (hu : u.smartProcess = none) :
    restoreAt env stub (depth + 1) process u f = restoreSmart env process u f :=
  startWith_of_none env _ _ _ _ _ _ hu f

/-- Bringing a predecessor back ends. Whatever stands for the calls below it, a depth of two is
enough, and `smartStartLocked` is what its body says of it. The body makes at most one call of
itself, and that while `smartProcess` is nil; it makes none if `smartProcess` was nil when it was
called. -/
theorem smartStartLocked_nests_once (a : Attempt) (name : Str) (s : RoutingSettings) (persist : Bool)
    (w : World) (f : Feed Question Answer) :
    (∀ stub depth, startWith env (restoreAt env stub (depth + 1)) a name s persist w f =
        smartStartLocked env a name s persist w f) ∧
      smartStartLocked env a name s persist w f =
        startWith env (fun process => smartStartLocked env .predecessor process.tunnelName
          process.settings false) a name s persist w f ∧
      ((∃ out, ∀ restore, startWith env restore a name s persist w f = out) ∨
        w.smartProcess ≠ none ∧ ∃ (process : SmartProcess) (u : World) (f' : Feed Question Answer)
          (cause : Except ManagerErr Unit → ManagerErr), u.smartProcess = none ∧
          ∀ restore, startWith env restore a name s persist w f =
            ⟨.error (cause (restore process u f').value), (restore process u f').state,
              (restore process u f').rest⟩) := by
  refine ⟨fun stub depth => ?_, ?_, startWith_callsOnce env a name s persist w f⟩
  · exact startWith_congr env (restoreAt_eq env stub depth) a name s persist w f
  · refine startWith_congr env (fun process u f hu => ?_) a name s persist w f
    exact startWith_of_none env _ _ _ _ _ _ hu f

end depth

end SmartAwg.Manager
