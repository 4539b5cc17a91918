import WasmerNapi.Bridge.Teardown

/-!
# A terminate against a release

`snapi_bridge_unofficial_terminate_execution` calls the engine with `g_mu` held, and `g_mu`
does not keep the isolate. What does is on the owner's side: before `closing` is set nothing
goes, and setting it takes the lock; afterwards a counted guest call has to take the lock before
it can end, and the isolate stays while it is on the stack. Where neither holds, the terminate
sets `stop_requested` and leaves the engine alone, and from then on every `GuestCallScope`
refuses.

`terminate_meets_release` says all of that of every state of every interleaving. A call returns
when it gives the lock up, so "returns after `closing` was set" is about the state in which it is
about to.
-/

namespace WasmerNapi.Bridge.Teardown

open Run

/-- Guest code runs in this call. -/
def Frame.inGuest {ρ : Type} : Frame ρ → Bool
  | .guest _ | .interrupt _ => true
  | _ => false

section

variable {ρ : Type} [DecidableEq ρ] {s s' : State ρ} {a : Act ρ}

/-- Guest calls start in the two constructors of `GuestCallScope` only. -/
theorem step_inGuest (hs : step s a = some s')
    (hmore : s.stack.countP Frame.inGuest < s'.stack.countP Frame.inGuest) :
    (a = .enter ∧ s.atEngine = true ∧ (s.closing = false ∨ s.stopRequested = false)) ∨
      (∃ ctx, a = .service ctx) ∧ s.closing = false := by
  cases a with
  | enter =>
    refine Or.inl ⟨rfl, ?_⟩
    simp only [step, State.enter] at hs
    split at hs
    · cases hs
    · rename_i hat
      refine ⟨by simpa using hat, ?_⟩
      split at hs
      · exact Or.inl ‹_›
      · split at hs
        · cases hs
        · split at hs
          · cases hs
            simp [Frame.inGuest] at hmore
          · exact Or.inr (by simpa using ‹¬ s.stopRequested = true›)
  | service ctx =>
    refine Or.inr ⟨⟨ctx, rfl⟩, ?_⟩
    simp only [step, State.service] at hs
    split at hs
    · rename_i hstack
      split at hs
      · cases hs
        simp [hstack, Frame.inGuest] at hmore
      · simpa using ‹¬ s.closing = true›
    · cases hs
  | _ =>
    -- No other step puts guest code on the stack.
    exfalso
    simp only [step, State.leave, State.dispose, State.release, State.unregister, State.sweep,
      State.callback, State.finish, State.request, State.enqueue, State.abandon, State.drop,
      State.terminate, State.ask, State.engine, State.ret] at hs
    repeat' split at hs
    all_goals simp only [Option.some.injEq, reduceCtorEq] at hs
    all_goals subst hs
    all_goals simp_all [Frame.inGuest, List.countP_cons]

/-! ## What is promised -/

/-- The step lets a guest call of the agent start. -/
def Starts (s : State ρ) (a : Act ρ) : Prop :=
  ∃ s', step s a = some s' ∧ s.stack.countP Frame.inGuest < s'.stack.countP Frame.inGuest

/-- The step follows a pointer to the agent. The engine's own steps do not, and a call from
    another thread does when it has found the env registered. -/
def derefs (s : State ρ) : Act ρ → Bool
  | .enter | .leave | .dispose | .release | .unregister | .sweep | .callback _ | .service _
  | .request _ | .abandon => true
  | .terminate | .ask _ => s.registered
  | .engine _ => s.held.any fun h => match h with | .failed _ => true | _ => false
  | .finish | .enqueue _ | .drop _ | .ret => false

/-- The engine may be told to terminate: its isolate is there, and either the release has not
    begun or guest code it runs is on the stack and counted. -/
def Stoppable (s : State ρ) : Prop :=
  s.isolate = true ∧ (s.closing = false ∨ .guest true ∈ s.stack)

end

/-! ## Why it holds -/

section

variable {ρ : Type} {s s' : State ρ}

/-- The agent goes last: after the owner's calls, the registry entry and the isolate. -/
theorem Stage.agent_of (h : Stage s)
    (hneeded : s.stack ≠ [] ∨ s.registered = true ∨ s.isolate = true) : s.agent = true := by
  cases h with
  | running hfl _ => exact hfl.2.2.2
  | releasing _ _ hfl _ => exact hfl.2.2.2
  | released _ hfl => exact hfl.2.2.2
  | sweeping _ _ hfl => exact hfl.2.2.2
  | gone hs hfl =>
    rcases hneeded with hne | hreg | hiso
    · exact absurd hs hne
    · exact absurd (hreg.symm.trans hfl.2.1) (by decide)
    · exact absurd (hiso.symm.trans hfl.2.2.1) (by decide)

/-- A counted guest call on the stack keeps the isolate. -/
theorem Stage.isolate_of_counted (h : Stage s) (hmem : .guest true ∈ s.stack) :
    s.isolate = true := by
  cases h with
  | running hfl _ => exact hfl.2.2.1
  | releasing _ _ hfl _ => exact hfl.2.2.1
  | released hs _ =>
    rw [hs] at hmem
    simp at hmem
  | sweeping rs hs _ =>
    rw [hs] at hmem
    simp at hmem
  | gone hs _ =>
    rw [hs] at hmem
    exact absurd hmem List.not_mem_nil

theorem Inv.counted_mem (h : Inv s) (hpos : 0 < s.teardownGuestCalls) : .guest true ∈ s.stack := by
  rw [h.teardownGuestCalls, List.countP_pos_iff] at hpos
  obtain ⟨f, hf, hcounted⟩ := hpos
  cases f with
  | guest counted =>
    cases counted with
    | true => exact hf
    | false => cases hcounted
  | _ => cases hcounted

theorem Inv.stoppable (h : Inv s) (hheld : s.held = some .terminating) : Stoppable s := by
  obtain ⟨-, hterm⟩ := h.held _ hheld
  cases hclosing : s.closing with
  | false => exact ⟨(h.stage.flags_of_open hclosing).2.1, Or.inl hclosing⟩
  | true =>
    have hmem := h.counted_mem (hterm hclosing).2
    exact ⟨h.stage.isolate_of_counted hmem, Or.inr hmem⟩

/-- Guest code that runs while the agent is closing is counted. -/
theorem Stage.counted_of_inGuest (h : Stage s) (hclosing : s.closing = true) {f : Frame ρ}
    (hf : f ∈ s.stack) (hguest : f.inGuest = true) : f = .guest true := by
  have hlate : f.late = true := by
    cases h with
    | running hfl _ => exact absurd (hclosing.symm.trans hfl.1) (by decide)
    | releasing fs hs _ hlate =>
      rw [hs, List.mem_append, List.mem_singleton] at hf
      rcases hf with hf | rfl
      · exact hlate f hf
      · cases hguest
    | released hs _ =>
      rw [hs, List.mem_singleton] at hf
      subst hf
      cases hguest
    | sweeping rs hs _ =>
      rw [hs, List.mem_singleton] at hf
      subst hf
      cases hguest
    | gone hs _ =>
      rw [hs] at hf
      exact absurd hf List.not_mem_nil
  cases f with
  | guest counted =>
    cases counted with
    | true => rfl
    | false => cases hlate
  | interrupt r => cases hlate
  | _ => cases hguest

/-- No guest call will start any more. -/
def Stopped (s : State ρ) : Prop :=
  s.closing = true ∧ (s.stopRequested = true ∨ s.isolate = false)

theorem Inv.stopped (h : Inv s) {reached : Bool} (hheld : s.held = some (.terminated reached))
    (hclosing : s.closing = true) : Stopped s := by
  refine ⟨hclosing, ?_⟩
  cases hreg : s.registered with
  | true => exact Or.inl (h.held _ hheld hclosing hreg).1
  | false =>
    refine Or.inr ?_
    cases h.stage with
    | running hfl _ => exact absurd (hreg.symm.trans hfl.2.1) (by decide)
    | releasing _ _ hfl _ => exact absurd (hreg.symm.trans hfl.2.1) (by decide)
    | released _ hfl => exact hfl.2.2.1
    | sweeping _ _ hfl => exact hfl.2.2.1
    | gone _ hfl => exact hfl.2.2.1

end

section

variable {ρ : Type} [DecidableEq ρ] {s s' : State ρ} {a : Act ρ}

/-- `closing` and `stop_requested` are never cleared, and the isolate does not come back. -/
theorem step_flags (hs : step s a = some s') :
    (s.closing = true → s'.closing = true) ∧ (s.stopRequested = true → s'.stopRequested = true) ∧
      (s.isolate = false → s'.isolate = false) := by
  cases a
  all_goals
    simp only [step, State.enter, State.leave, State.dispose, State.release, State.unregister,
      State.sweep, State.callback, State.service, State.finish, State.request, State.enqueue,
      State.abandon, State.drop, State.terminate, State.ask, State.engine, State.ret] at hs
    repeat' split at hs
    all_goals simp only [Option.some.injEq, reduceCtorEq] at hs
    all_goals subst hs
    all_goals simp

theorem Stopped.of_step (h : Stopped s) (hs : step s a = some s') : Stopped s' := by
  obtain ⟨hclosing, hstop, hiso⟩ := step_flags hs
  exact ⟨hclosing h.1, h.2.imp hstop hiso⟩

theorem Stopped.not_starts (h : Stopped s) : ¬ Starts s a := by
  rintro ⟨s', hs, hmore⟩
  rcases step_inGuest hs hmore with ⟨-, hat, hopen | hgo⟩ | ⟨-, hopen⟩
  · exact absurd (h.1.symm.trans hopen) (by decide)
  · rcases h.2 with hstop | hgone
    · exact absurd (hstop.symm.trans hgo) (by decide)
    · exact absurd ((isolate_of_atEngine hat).symm.trans hgone) (by decide)
  · exact absurd (h.1.symm.trans hopen) (by decide)

theorem Stopped.allSteps {as : List (Act ρ)} (h : Stopped s) :
    AllSteps step (fun s a => ¬ Starts s a) s as := by
  induction as generalizing s with
  | nil => trivial
  | cons a as ih => exact ⟨h.not_starts, fun s' hs => ih (h.of_step hs)⟩

/-- A step that follows the agent's pointer is taken where something still needs the agent. -/
theorem needed_of_derefs (hs : step s a = some s') (hderefs : derefs s a = true) :
    s.stack ≠ [] ∨ s.registered = true ∨ s.isolate = true ∨
      ∃ r, s.held = some (.failed r) := by
  have hengine : s.atEngine = true → s.isolate = true := isolate_of_atEngine
  cases a
  all_goals
    simp only [step, State.enter, State.leave, State.dispose, State.release, State.unregister,
      State.sweep, State.callback, State.service, State.finish, State.request, State.enqueue,
      State.abandon, State.drop, State.terminate, State.ask, State.engine, State.ret] at hs
    simp only [derefs, reduceCtorEq] at hderefs
    repeat' split at hs
    all_goals simp_all

/-- **A terminate against a release.** In every state of every interleaving: the engine is told
    to terminate only while it can be; no step follows a pointer to a deleted agent; and where a
    terminate is about to return with the release begun, no guest call of the agent starts from
    then on, and if one is in progress the call has reached it. -/
theorem terminate_meets_release {as : List (Act ρ)} (hr : run step ({} : State ρ) as = some s) :
    (s.held = some .terminating → Stoppable s) ∧
      (∀ a s', step s a = some s' → derefs s a = true → s.agent = true) ∧
      ∀ reached, s.held = some (.terminated reached) → s.closing = true →
        (∀ bs, AllSteps step (fun t a => ¬ Starts t a) s bs) ∧
          ((∃ f ∈ s.stack, f.inGuest = true) → reached = true) := by
  have h := inv_run hr
  refine ⟨h.stoppable, ?_, ?_⟩
  · intro a s' hs hderefs
    rcases needed_of_derefs hs hderefs with hne | hreg | hiso | ⟨r, hheld⟩
    · exact h.stage.agent_of (Or.inl hne)
    · exact h.stage.agent_of (Or.inr (Or.inl hreg))
    · exact h.stage.agent_of (Or.inr (Or.inr hiso))
    · exact (h.stage.flags_of_open (h.held _ hheld)).2.2
  · intro reached hheld hclosing
    refine ⟨fun bs => (h.stopped hheld hclosing).allSteps, ?_⟩
    rintro ⟨f, hf, hguest⟩
    obtain rfl := h.stage.counted_of_inGuest hclosing hf hguest
    -- The call is on the stack, so the env is registered, and it counts.
    have hreg : s.registered = true := by
      have hiso := h.stage.isolate_of_counted hf
      cases h.stage with
      | running hfl _ => exact hfl.2.1
      | releasing _ _ hfl _ => exact hfl.2.1
      | released _ hfl => exact absurd (hiso.symm.trans hfl.2.2.1) (by decide)
      | sweeping _ _ hfl => exact absurd (hiso.symm.trans hfl.2.2.1) (by decide)
      | gone _ hfl => exact absurd (hiso.symm.trans hfl.2.2.1) (by decide)
    by_contra hnot
    have hzero := (h.held _ hheld hclosing hreg).2 (eq_false_of_ne_true hnot)
    rw [h.teardownGuestCalls, List.countP_eq_zero] at hzero
    exact hzero _ hf rfl

end

/-- A finalizer of a release calls into JavaScript that calls a second guest function; a
    terminate comes between and the call after it is refused. -/
def stoppedFinalizer : List (Act ℕ) :=
  [.dispose, .enter, .enter, .terminate, .engine true]

theorem stoppedFinalizer_stopped :
    ∃ s, run step {} stoppedFinalizer = some s ∧ s.held = some (.terminated true) ∧
      s.closing = true ∧ AllSteps step (fun t a => ¬ Starts t a) s [.ret, .leave, .enter] := by
  refine ⟨_, rfl, rfl, rfl, ?_⟩
  have hmeets := terminate_meets_release (show run step {} stoppedFinalizer = some _ from rfl)
  exact (hmeets.2.2 true rfl rfl).1 _

end WasmerNapi.Bridge.Teardown
