import WasmerNapi.Env.Basic
import WasmerNapi.Lib.Run

/-!
# The host's stop

`NapiRuntimeControl::terminate_all` promises that an application's JavaScript never runs
again: it stores `host_stopped`, takes the registry lock and terminates every env it finds
there. Three parties race it. An owner thread may be committing an env, which is registered
and then re-checks the flag under the same lock; it may be denied heap, which stores the
flag and terminates its own env; and its guest may call `cancel_terminate_execution`, which
reads the flag and then, in a second step under no lock, either terminates again or cancels
in the engine.

The registry lock settles the first race: an env is in the registry when the stop goes
through it, or its commit finds the flag set. Nothing settles the third. A guest that has
read the flag before the stop stored it cancels when it likes, also after the stop has
returned: `raced_cancel_unstops`. `CancelAhead` says that a cancel runs while the stop is
still ahead of its env, and `stop_sticky` that this is all it takes.

The engine keeps one termination-pending bit for an isolate; an agent has one env.
-/

namespace WasmerNapi.Env.Stop

open Function (update update_self update_of_ne)
open Budget Run

/-! ## The machine -/

/-- An env, from its isolate's creation to its removal from `g_envs`. It is `published`
    between its registration and the return of `commit_isolate`, and `live` from then to
    the start of its release. -/
inductive Life where
  | absent
  | created
  | published
  | live
  | closing
  | gone
  deriving DecidableEq, Repr

/-- One env in the bridge and its isolate's pending bit. -/
structure EnvState where
  life : Life := .absent
  terminating : Bool := false
  stopRequested : Bool := false
  teardownGuestCalls : ℕ := 0
  deriving DecidableEq, Repr

/-- What an env's owner thread is about to do: the second half of `commit_isolate`, the two
    halves of `cancel_terminate_execution`, or the denial of heap. -/
inductive Owner where
  | idle
  | recheckLock
  | recheckLoad
  | recheckTerminate
  | recheckUnlock
  | cancelLoad
  | cancelReterminate
  | cancelEngine
  | denyStore
  | denyTerminate
  deriving DecidableEq, Repr

/-- Inside the critical section of a re-check. -/
def Owner.holds : Owner → Bool
  | .recheckLoad | .recheckTerminate | .recheckUnlock => true
  | _ => false

/-- Inside `commit_isolate`, after the registration. -/
def Owner.committing : Owner → Bool
  | .recheckLock | .recheckLoad | .recheckTerminate | .recheckUnlock => true
  | _ => false

/-- One caller of `terminate_all`: waiting for the lock, or holding it with these envs
    still to terminate. -/
inductive Control (ι : Type) where
  | idle
  | lock
  | terminate (todo : List ι)
  deriving DecidableEq, Repr

/-- An application. `returned` records that some `terminate_all` has. -/
structure State (ι κ : Type) where
  hostStopped : Bool := false
  lock : Option (ι ⊕ κ) := none
  registry : List ι := []
  envs : ι → EnvState := fun _ => {}
  owners : ι → Owner := fun _ => .idle
  controls : κ → Control ι := fun _ => .idle
  returned : Bool := false

inductive Act (ι κ : Type) where
  | create (e : ι)
  | register (e : ι)
  | cancel (e : ι)
  | deny (e : ι)
  | owner (e : ι)
  | beginRelease (e : ι)
  | teardownCalls (e : ι) (n : ℕ)
  | finishRelease (e : ι)
  | unregister (e : ι)
  | guestTerminate (e : ι)
  | terminateAll (k : κ)
  | control (k : κ)
  | stopEnv (k : κ) (e : ι)

section

variable {ι κ : Type} [DecidableEq ι]

namespace State

def setEnv (s : State ι κ) (e : ι) (st : EnvState) : State ι κ :=
  { s with envs := update s.envs e st }

def setOwner (s : State ι κ) (e : ι) (o : Owner) : State ι κ :=
  { s with owners := update s.owners e o }

def setControl [DecidableEq κ] (s : State ι κ) (k : κ) (c : Control ι) : State ι κ :=
  { s with controls := update s.controls k c }

def setLife (s : State ι κ) (e : ι) (life : Life) : State ι κ :=
  s.setEnv e { s.envs e with life }

variable (s : State ι κ) (e : ι) (k : κ)

@[simp] theorem envs_setEnv_self (st : EnvState) : (s.setEnv e st).envs e = st :=
  update_self ..

theorem envs_setEnv_of_ne {e e' : ι} (h : e' ≠ e) (st : EnvState) :
    (s.setEnv e st).envs e' = s.envs e' := update_of_ne h ..

@[simp] theorem owners_setOwner_self (o : Owner) : (s.setOwner e o).owners e = o :=
  update_self ..

theorem owners_setOwner_of_ne {e e' : ι} (h : e' ≠ e) (o : Owner) :
    (s.setOwner e o).owners e' = s.owners e' := update_of_ne h ..

omit [DecidableEq ι] in
@[simp] theorem controls_setControl_self [DecidableEq κ] (c : Control ι) : (s.setControl k c).controls k = c :=
  update_self ..

omit [DecidableEq ι] in
theorem controls_setControl_of_ne [DecidableEq κ] {k k' : κ} (h : k' ≠ k) (c : Control ι) :
    (s.setControl k c).controls k' = s.controls k' := update_of_ne h ..

end State

/-- `snapi_bridge_unofficial_terminate_execution`, under `g_mu`. An env that is being
    released is only reached in the guest code its teardown runs. -/
def EnvState.terminateExecution (st : EnvState) : EnvState :=
  match st.life with
  | .absent | .gone => st
  | .created | .published | .live => { st with terminating := true }
  | .closing =>
    if st.teardownGuestCalls = 0 then { st with stopRequested := true }
    else { st with stopRequested := true, terminating := true }

/-- `snapi_bridge_unofficial_cancel_terminate_execution`. -/
def EnvState.cancelTerminateExecution (st : EnvState) : EnvState :=
  match st.life with
  | .absent | .gone => st
  | _ => { st with terminating := false }

namespace State

def terminate (s : State ι κ) (e : ι) : State ι κ := s.setEnv e (s.envs e).terminateExecution

def cancel (s : State ι κ) (e : ι) : State ι κ := s.setEnv e (s.envs e).cancelTerminateExecution

end State

open Stop.State (envs_setEnv_self envs_setEnv_of_ne)

/-- One access of the owner's current call. -/
def ownerStep (s : State ι κ) (e : ι) : Option (State ι κ) :=
  match s.owners e with
  | .idle => none
  | .recheckLock =>
    if s.lock = none then some { s.setOwner e .recheckLoad with lock := some (.inl e) } else none
  | .recheckLoad => some (s.setOwner e (if s.hostStopped then .recheckTerminate else .recheckUnlock))
  | .recheckTerminate => some ((s.terminate e).setOwner e .recheckUnlock)
  | .recheckUnlock => some { (s.setLife e .live).setOwner e .idle with lock := none }
  | .cancelLoad => some (s.setOwner e (if s.hostStopped then .cancelReterminate else .cancelEngine))
  | .cancelReterminate => some ((s.terminate e).setOwner e .idle)
  | .cancelEngine => some ((s.cancel e).setOwner e .idle)
  | .denyStore => some { s.setOwner e .denyTerminate with hostStopped := true }
  | .denyTerminate => some ((s.terminate e).setOwner e .idle)

/-- A `terminate_all` that has stored the flag takes the lock; one that has been through
    the registry returns. -/
def controlStep [DecidableEq κ] (s : State ι κ) (k : κ) : Option (State ι κ) :=
  match s.controls k with
  | .lock =>
    if s.lock = none then
      some { s.setControl k (.terminate s.registry) with lock := some (.inr k) }
    else none
  | .terminate [] => some { s.setControl k .idle with lock := none, returned := true }
  | _ => none

/-- A guest calls, and V8 denies heap, on an env it has: one that is live or being
    released, between two calls. -/
def callable (s : State ι κ) (e : ι) : Bool :=
  s.owners e = .idle ∧ ((s.envs e).life = .live ∨ (s.envs e).life = .closing)

def step [DecidableEq κ] (s : State ι κ) : Act ι κ → Option (State ι κ)
  | .create e => if (s.envs e).life = .absent then some (s.setLife e .created) else none
  | .register e =>
    if (s.envs e).life = .created ∧ s.lock = none then
      some { (s.setLife e .published).setOwner e .recheckLock with registry := e :: s.registry }
    else none
  | .cancel e => if callable s e then some (s.setOwner e .cancelLoad) else none
  | .deny e => if callable s e then some (s.setOwner e .denyStore) else none
  | .owner e => ownerStep s e
  | .beginRelease e =>
    if s.owners e = .idle ∧ (s.envs e).life = .live then some (s.setLife e .closing) else none
  | .teardownCalls e n =>
    if (s.envs e).life = .closing then some (s.setEnv e { s.envs e with teardownGuestCalls := n })
    else none
  | .finishRelease e =>
    if s.owners e = .idle ∧ (s.envs e).life = .closing then some (s.setLife e .gone) else none
  | .unregister e =>
    if (s.envs e).life = .gone ∧ s.lock = none then
      some { s with registry := s.registry.filter (· ≠ e) }
    else none
  | .guestTerminate e =>
    if e ∈ s.registry ∧ s.lock = none then some (s.terminate e) else none
  | .terminateAll k =>
    match s.controls k with
    | .idle => some { s.setControl k .lock with hostStopped := true }
    | _ => none
  | .control k => controlStep s k
  | .stopEnv k e =>
    -- The registry is a hash map: the loop's order is anyone's.
    match s.controls k with
    | .terminate todo =>
      if e ∈ todo then some ((s.terminate e).setControl k (.terminate (todo.filter (· ≠ e))))
      else none
    | _ => none

/-! A cancel and a re-check that nobody interrupts are the whole calls. -/

/-- `guest_unofficial_napi_cancel_terminate_execution`, where the engine's cancel succeeds. -/
def cancelTerminateExecution (s : State ι κ) (e : ι) : ℤ × State ι κ :=
  if s.hostStopped then (1, s.terminate e) else (0, s.cancel e)

theorem run_cancel [DecidableEq κ] {s : State ι κ} {e : ι} (h : callable s e = true) :
    run step s [.cancel e, .owner e, .owner e] = some (cancelTerminateExecution s e).2 := by
  have hidle : s.owners e = .idle := by
    simp only [callable, decide_eq_true_eq] at h
    exact h.1
  have hself : update s.owners e .idle = s.owners := by
    rw [← hidle, Function.update_eq_self]
  cases hf : s.hostStopped <;>
    simp [run, step, h, ownerStep, State.setOwner, State.terminate, State.cancel, State.setEnv,
      cancelTerminateExecution, hf, hself]

theorem run_recheck [DecidableEq κ] {s : State ι κ} {e : ι} (ho : s.owners e = .recheckLock)
    (hfree : s.lock = none) {α : Type} [NapiMemoryAccountant α] {budget : ResourceBudget α}
    {registry registry' : EnvRegistry} {store store' : NapiEnv} {env envId : ℕ}
    {r : HeapReservation} {calls : List BridgeCall}
    (hc : commitIsolate budget s.hostStopped registry store env r =
      some (envId, registry', store', calls)) :
    ∃ n, run step s (List.replicate n (.owner e)) =
      some (((if .terminateExecution env ∈ calls then s.terminate e else s).setLife e .live).setOwner
        e .idle) := by
  refine ⟨if s.hostStopped then 4 else 3, ?_⟩
  simp only [terminateExecution_mem_commitIsolate hc]
  cases hf : s.hostStopped <;>
    simp [run, step, ownerStep, ho, hf, hfree, List.replicate, State.setOwner, State.terminate,
      State.setEnv, State.setLife]

/-- Once a `terminate_all` has returned, every live env has a termination pending. -/
def Sticky (s : State ι κ) : Prop :=
  s.returned = true → ∀ e, (s.envs e).life = .live → (s.envs e).terminating = true

/-- This call has terminated `e` already, or will not. -/
def Control.past (c : Control ι) (e : ι) : Bool :=
  match c with
  | .terminate todo => e ∉ todo
  | _ => false

/-- A guest's cancel reaches the engine while the stop is still ahead of its env: no
    `terminate_all` has returned, and none that is going through the registry is past it. -/
def CancelAhead (s : State ι κ) : Act ι κ → Prop
  | .owner e =>
    s.owners e = .cancelEngine → (s.envs e).life = .live →
      s.returned = false ∧ ∀ k, (s.controls k).past e = false
  | _ => True

instance [Fintype κ] (s : State ι κ) : ∀ a, Decidable (CancelAhead s a)
  | .owner e => inferInstanceAs (Decidable (s.owners e = .cancelEngine → (s.envs e).life = .live →
      s.returned = false ∧ ∀ k, (s.controls k).past e = false))
  | .create _ | .register _ | .cancel _ | .deny _ | .beginRelease _ | .teardownCalls _ _
  | .finishRelease _ | .unregister _ | .guestTerminate _ | .terminateAll _ | .control _
  | .stopEnv _ _ => isTrue trivial

/-! ## The invariant -/

structure Inv (s : State ι κ) : Prop where
  flag_returned : s.returned = true → s.hostStopped = true
  flag_control : ∀ k, s.controls k ≠ .idle → s.hostStopped = true
  lock_owner : ∀ e, (s.owners e).holds = true → s.lock = some (.inl e)
  lock_control : ∀ k todo, s.controls k = .terminate todo → s.lock = some (.inr k)
  committing : ∀ e, (s.owners e).committing = true → (s.envs e).life = .published
  registered : ∀ e, (s.envs e).life = .published ∨ (s.envs e).life = .live → e ∈ s.registry
  looping : ∀ k todo, s.controls k = .terminate todo → ∀ e, (s.envs e).life = .live →
    e ∈ todo ∨ (s.envs e).terminating = true
  unlock : ∀ e, s.owners e = .recheckUnlock → s.returned = true → (s.envs e).terminating = true
  sticky : Sticky s

omit [DecidableEq ι] in
theorem inv_init : Inv ({} : State ι κ) := by
  constructor <;> simp [Owner.holds, Owner.committing, Sticky]

variable {s s' : State ι κ} {e : ι} {k : κ}

/-- An owner moves on to an access it may make. -/
theorem Inv.setOwner (h : Inv s) {o : Owner} (hlock : o.holds = true → s.lock = some (.inl e))
    (hcommit : o.committing = true → (s.envs e).life = .published)
    (hunlock : o = .recheckUnlock → s.returned = true → (s.envs e).terminating = true) :
    Inv (s.setOwner e o) := by
  refine { h with lock_owner := ?_, committing := ?_, unlock := ?_, sticky := h.sticky }
  · intro e' hh
    by_cases he : e' = e
    · subst he
      rw [State.owners_setOwner_self] at hh
      exact hlock hh
    · rw [State.owners_setOwner_of_ne _ he] at hh
      exact h.lock_owner e' hh
  · intro e' hh
    by_cases he : e' = e
    · subst he
      rw [State.owners_setOwner_self] at hh
      exact hcommit hh
    · rw [State.owners_setOwner_of_ne _ he] at hh
      exact h.committing e' hh
  · intro e' hh
    by_cases he : e' = e
    · subst he
      rw [State.owners_setOwner_self] at hh
      exact hunlock hh
    · rw [State.owners_setOwner_of_ne _ he] at hh
      exact h.unlock e' hh

/-- An env changes without becoming live and without losing what is owed to it. -/
theorem Inv.setEnv (h : Inv s) {st : EnvState}
    (hcommit : (s.owners e).committing = true → st.life = .published)
    (hreg : st.life = .published ∨ st.life = .live → e ∈ s.registry)
    (hlive : st.life = .live → (s.envs e).life = .live)
    (hbit : (s.envs e).terminating = true → st.terminating = true ∨
      (st.life ≠ .live ∧ s.owners e ≠ .recheckUnlock)) : Inv (s.setEnv e st) := by
  refine { h with committing := ?_, registered := ?_, looping := ?_, unlock := ?_, sticky := ?_ }
  · intro e' hh
    by_cases he : e' = e
    · subst he
      rw [envs_setEnv_self]
      exact hcommit hh
    · rw [envs_setEnv_of_ne _ he]
      exact h.committing e' hh
  · intro e' hh
    by_cases he : e' = e
    · subst he
      rw [envs_setEnv_self] at hh
      exact hreg hh
    · rw [envs_setEnv_of_ne _ he] at hh
      exact h.registered e' hh
  · intro k todo hc e' hl
    by_cases he : e' = e
    · subst he
      rw [envs_setEnv_self] at hl ⊢
      rcases h.looping k todo hc e' (hlive hl) with hmem | hterm
      · exact .inl hmem
      · rcases hbit hterm with hterm' | ⟨hnot, -⟩
        · exact .inr hterm'
        · exact absurd hl hnot
    · rw [envs_setEnv_of_ne _ he] at hl ⊢
      exact h.looping k todo hc e' hl
  · intro e' ho hret
    by_cases he : e' = e
    · subst he
      rw [envs_setEnv_self]
      rcases hbit (h.unlock e' ho hret) with hterm | ⟨-, hnot⟩
      · exact hterm
      · exact absurd ho hnot
    · rw [envs_setEnv_of_ne _ he]
      exact h.unlock e' ho hret
  · intro hret e' hl
    by_cases he : e' = e
    · subst he
      rw [envs_setEnv_self] at hl ⊢
      rcases hbit (h.sticky hret e' (hlive hl)) with hterm | ⟨hnot, -⟩
      · exact hterm
      · exact absurd hl hnot
    · rw [envs_setEnv_of_ne _ he] at hl ⊢
      exact h.sticky hret e' hl

theorem life_terminateExecution (st : EnvState) : st.terminateExecution.life = st.life := by
  unfold EnvState.terminateExecution
  split
  · rfl
  · rfl
  · rfl
  · rfl
  · rfl
  · split
    · rfl
    · rfl

theorem terminating_terminateExecution {st : EnvState}
    (h : st.terminating = true ∨ st.life = .published ∨ st.life = .live) :
    st.terminateExecution.terminating = true := by
  unfold EnvState.terminateExecution
  rcases h with h | h | h
  · split
    · exact h
    · exact h
    · rfl
    · rfl
    · rfl
    · split
      · exact h
      · rfl
  · rw [h]
  · rw [h]

/-- Terminating an env never hurts. -/
theorem Inv.terminate (h : Inv s) (e : ι) : Inv (s.terminate e) := by
  have hlife := life_terminateExecution (s.envs e)
  apply h.setEnv
  · rw [hlife]
    exact h.committing e
  · rw [hlife]
    exact h.registered e
  · rw [hlife]
    exact id
  · intro hterm
    exact .inl (terminating_terminateExecution (.inl hterm))

/-- The re-check lets go of the lock, and its env goes live. -/
theorem Inv.goLive (h : Inv s) (ho : s.owners e = .recheckUnlock) :
    Inv ({ (s.setLife e .live).setOwner e .idle with lock := none } : State ι κ) := by
  have hlock := h.lock_owner e (by rw [ho]; rfl)
  have hpub := h.committing e (by rw [ho]; rfl)
  have hnocontrol : ∀ k todo, s.controls k ≠ .terminate todo := by
    intro k todo hc
    have := h.lock_control k todo hc
    rw [hlock] at this
    cases this
  have hother : ∀ e', e' ≠ e → (s.owners e').holds = false := by
    intro e' he
    cases hh : (s.owners e').holds with
    | false => rfl
    | true =>
      have := h.lock_owner e' hh
      rw [hlock] at this
      exact absurd (Sum.inl.inj (Option.some.inj this)).symm he
  constructor
  · exact h.flag_returned
  · exact h.flag_control
  · intro e' hh
    by_cases he : e' = e
    · subst he
      simp [State.setOwner, Owner.holds] at hh
    · simp only [State.setOwner, State.setLife, State.setEnv, update_of_ne he] at hh
      rw [hother e' he] at hh
      cases hh
  · intro k todo hc
    exact absurd hc (hnocontrol k todo)
  · intro e' hh
    by_cases he : e' = e
    · subst he
      simp [State.setOwner, Owner.committing] at hh
    · simp only [State.setOwner, State.setLife, State.setEnv, update_of_ne he] at hh ⊢
      exact h.committing e' hh
  · intro e' hl
    by_cases he : e' = e
    · subst he
      exact h.registered e' (.inl hpub)
    · simp only [State.setOwner, State.setLife, State.setEnv, update_of_ne he] at hl
      exact h.registered e' hl
  · intro k todo hc
    exact absurd hc (hnocontrol k todo)
  · intro e' hh
    by_cases he : e' = e
    · subst he
      simp [State.setOwner] at hh
    · simp only [State.setOwner, State.setLife, State.setEnv, update_of_ne he] at hh ⊢
      exact h.unlock e' hh
  · intro hret e' hl
    by_cases he : e' = e
    · subst he
      simp only [State.setOwner, State.setLife, State.setEnv, update_self]
      exact h.unlock e' ho hret
    · simp only [State.setOwner, State.setLife, State.setEnv, update_of_ne he] at hl ⊢
      exact h.sticky hret e' hl

omit [DecidableEq ι] in
theorem Inv.register_mem (h : Inv s) (e : ι) : Inv { s with registry := e :: s.registry } := by
  refine { h with registered := ?_, sticky := h.sticky }
  intro e' hl
  exact List.mem_cons_of_mem e (h.registered e' hl)

theorem Inv.unregister (h : Inv s) (hgone : (s.envs e).life = .gone) :
    Inv { s with registry := s.registry.filter (· ≠ e) } := by
  refine { h with registered := ?_, sticky := h.sticky }
  intro e' hl
  have hne : e' ≠ e := by
    rintro rfl
    rw [hgone] at hl
    rcases hl with hl | hl <;> cases hl
  exact List.mem_filter.mpr ⟨h.registered e' hl, by simpa using hne⟩

omit [DecidableEq ι] in
theorem Inv.stopFlag (h : Inv s) : Inv { s with hostStopped := true } :=
  { h with flag_returned := fun _ => rfl, flag_control := fun _ _ => rfl, sticky := h.sticky }

omit [DecidableEq ι] in
/-- Nobody is inside a critical section of a free lock. -/
theorem Inv.takeLock (h : Inv s) (hfree : s.lock = none) (holder : ι ⊕ κ) :
    Inv { s with lock := some holder } := by
  refine { h with lock_owner := ?_, lock_control := ?_, sticky := h.sticky }
  · intro e' hh
    have := h.lock_owner e' hh
    rw [hfree] at this
    cases this
  · intro k todo hc
    have := h.lock_control k todo hc
    rw [hfree] at this
    cases this

section

variable [DecidableEq κ]

section

omit [DecidableEq ι]

/-- A caller of `terminate_all` moves on: with the flag stored, the lock held if it goes
    through the registry, and every live env it is past terminated. -/
theorem Inv.setControl (h : Inv s) {c : Control ι} (hflag : c ≠ .idle → s.hostStopped = true)
    (hlock : ∀ todo, c = .terminate todo → s.lock = some (.inr k))
    (hloop : ∀ todo, c = .terminate todo → ∀ e, (s.envs e).life = .live →
      e ∈ todo ∨ (s.envs e).terminating = true) : Inv (s.setControl k c) := by
  refine { h with flag_control := ?_, lock_control := ?_, looping := ?_, sticky := h.sticky }
  · intro k' hc
    by_cases hk : k' = k
    · subst hk
      rw [State.controls_setControl_self] at hc
      exact hflag hc
    · rw [State.controls_setControl_of_ne _ hk] at hc
      exact h.flag_control k' hc
  · intro k' todo hc
    by_cases hk : k' = k
    · subst hk
      rw [State.controls_setControl_self] at hc
      exact hlock todo hc
    · rw [State.controls_setControl_of_ne _ hk] at hc
      exact h.lock_control k' todo hc
  · intro k' todo hc
    by_cases hk : k' = k
    · subst hk
      rw [State.controls_setControl_self] at hc
      exact hloop todo hc
    · rw [State.controls_setControl_of_ne _ hk] at hc
      exact h.looping k' todo hc

/-- **The return.** Everything in the registry has been terminated, and everything live was
    in the registry. -/
theorem Inv.return (h : Inv s) (hc : s.controls k = .terminate []) :
    Inv ({ s.setControl k .idle with lock := none, returned := true } : State ι κ) := by
  have hlock := h.lock_control k [] hc
  have hnoowner : ∀ e, (s.owners e).holds = false := by
    intro e
    cases hh : (s.owners e).holds with
    | false => rfl
    | true =>
      have := h.lock_owner e hh
      rw [hlock] at this
      cases this
  have hnocontrol : ∀ k' todo, (s.setControl k .idle).controls k' ≠ .terminate todo := by
    intro k' todo hc'
    by_cases hk : k' = k
    · subst hk
      rw [State.controls_setControl_self] at hc'
      cases hc'
    · rw [State.controls_setControl_of_ne _ hk] at hc'
      have := h.lock_control k' todo hc'
      rw [hlock] at this
      exact hk (Sum.inr.inj (Option.some.inj this)).symm
  have hstopped : s.hostStopped = true := h.flag_control k (by rw [hc]; exact nofun)
  constructor
  · exact fun _ => hstopped
  · exact fun _ _ => hstopped
  · intro e (hh : (s.owners e).holds = true)
    rw [hnoowner e] at hh
    cases hh
  · intro k' todo hc'
    exact absurd hc' (hnocontrol k' todo)
  · exact h.committing
  · exact h.registered
  · intro k' todo hc'
    exact absurd hc' (hnocontrol k' todo)
  · intro e (ho : s.owners e = .recheckUnlock)
    have := hnoowner e
    rw [ho] at this
    cases this
  · intro _ e hl
    rcases h.looping k [] hc e hl with hmem | hterm
    · cases hmem
    · exact hterm

theorem Inv.controlStep (h : Inv s) (hs : controlStep s k = some s') : Inv s' := by
  unfold Stop.controlStep at hs
  split at hs
  · rename_i hc
    split at hs
    · rename_i hfree
      cases hs
      refine (h.takeLock hfree (.inr k)).setControl (fun _ => ?_) (fun _ _ => rfl) ?_
      · exact h.flag_control k (by rw [hc]; exact nofun)
      · intro todo heq e hl
        obtain rfl := Control.terminate.inj heq
        exact .inl (h.registered e (.inr hl))
    · cases hs
  · rename_i hc
    cases hs
    exact h.return hc
  · cases hs

end

theorem Inv.stopEnv (h : Inv s) {todo : List ι} (hc : s.controls k = .terminate todo) (e : ι) :
    Inv ((s.terminate e).setControl k (.terminate (todo.filter (· ≠ e)))) := by
  refine (h.terminate e).setControl (fun _ => ?_) (fun _ _ => h.lock_control k todo hc) ?_
  · exact h.flag_control k (by rw [hc]; exact nofun)
  · intro todo' heq e' hl
    obtain rfl := Control.terminate.inj heq
    by_cases he : e' = e
    · subst he
      right
      rw [State.terminate, envs_setEnv_self] at hl ⊢
      rw [life_terminateExecution] at hl
      exact terminating_terminateExecution (.inr (.inr hl))
    · rw [State.terminate, envs_setEnv_of_ne _ he] at hl ⊢
      rcases h.looping k todo hc e' hl with hmem | hterm
      · exact .inl (List.mem_filter.mpr ⟨hmem, by simpa using he⟩)
      · exact .inr hterm

end

theorem life_cancel (s : State ι κ) (e e' : ι) : ((s.cancel e).envs e').life = (s.envs e').life := by
  rw [State.cancel]
  by_cases he : e' = e
  · subst he
    rw [envs_setEnv_self]
    unfold EnvState.cancelTerminateExecution
    split <;> rfl
  · rw [envs_setEnv_of_ne _ he]

/-- **A cancel ahead of the stop.** Whatever it clears, the stop has still to set. -/
theorem Inv.cancel (h : Inv s) (ho : s.owners e = .cancelEngine)
    (hahead : (s.envs e).life = .live → s.returned = false ∧ ∀ k, (s.controls k).past e = false) :
    Inv (s.cancel e) := by
  refine { h with committing := ?_, registered := ?_, looping := ?_, unlock := ?_, sticky := ?_ }
  · intro e' hh
    rw [life_cancel]
    exact h.committing e' hh
  · intro e' hh
    rw [life_cancel] at hh
    exact h.registered e' hh
  · intro k todo hc e' hl
    rw [life_cancel] at hl
    by_cases he : e' = e
    · subst he
      have hpast := (hahead hl).2 k
      have hc' : s.controls k = .terminate todo := hc
      rw [hc'] at hpast
      left
      simpa [Control.past] using hpast
    · rw [State.cancel, envs_setEnv_of_ne _ he]
      exact h.looping k todo hc e' hl
  · intro e' ho' hret
    have he : e' ≠ e := by
      rintro rfl
      have ho'' : s.owners e' = .recheckUnlock := ho'
      rw [ho] at ho''
      cases ho''
    rw [State.cancel, envs_setEnv_of_ne _ he]
    exact h.unlock e' ho' hret
  · intro hret e' hl
    rw [life_cancel] at hl
    by_cases he : e' = e
    · subst he
      have hret' : s.returned = true := hret
      rw [(hahead hl).1] at hret'
      cases hret'
    · rw [State.cancel, envs_setEnv_of_ne _ he]
      exact h.sticky hret e' hl

theorem Inv.ownerStep (h : Inv s) (hok : CancelAhead s (.owner e : Act ι κ))
    (hs : ownerStep s e = some s') : Inv s' := by
  unfold Stop.ownerStep at hs
  split at hs
  · cases hs
  · -- `recheckLock`
    rename_i ho
    have hpub := h.committing e (by rw [ho]; rfl)
    split at hs
    · rename_i hfree
      cases hs
      refine (h.takeLock hfree (.inl e)).setOwner (fun _ => rfl) (fun _ => hpub) ?_
      intro hcontra
      cases hcontra
    · cases hs
  · -- `recheckLoad`: the flag may be set after this, but then its stop needs the lock.
    rename_i ho
    cases hs
    have hlock := h.lock_owner e (by rw [ho]; rfl)
    have hpub := h.committing e (by rw [ho]; rfl)
    apply h.setOwner
    · exact fun _ => hlock
    · exact fun _ => hpub
    · intro heq hret
      rw [h.flag_returned hret] at heq
      cases heq
  · -- `recheckTerminate`
    rename_i ho
    cases hs
    have hlock := h.lock_owner e (by rw [ho]; rfl)
    have hpub := h.committing e (by rw [ho]; rfl)
    have hset := envs_setEnv_self s e (s.envs e).terminateExecution
    apply (h.terminate e).setOwner
    · exact fun _ => hlock
    · intro _
      rw [State.terminate, hset, life_terminateExecution]
      exact hpub
    · intro _ _
      rw [State.terminate, hset]
      exact terminating_terminateExecution (.inr (.inl hpub))
  · rename_i ho
    cases hs
    exact h.goLive ho
  · -- `cancelLoad`
    cases hs
    cases s.hostStopped <;>
      exact h.setOwner nofun nofun nofun
  · cases hs
    exact (h.terminate e).setOwner nofun nofun nofun
  · rename_i ho
    cases hs
    exact (h.cancel ho (hok ho)).setOwner nofun nofun nofun
  · cases hs
    exact h.stopFlag.setOwner nofun nofun nofun
  · cases hs
    exact (h.terminate e).setOwner nofun nofun nofun

/-- A guarded step keeps the invariant: one case per move. -/
theorem Inv.step [DecidableEq κ] {a : Act ι κ} (hs : step s a = some s') (hok : CancelAhead s a)
    (h : Inv s) : Inv s' := by
  cases a with
  | create e =>
    simp only [Stop.step] at hs
    split at hs
    · rename_i hl
      cases hs
      have hnot : (s.owners e).committing = true → False := by
        intro hc
        have := h.committing e hc
        rw [hl] at this
        cases this
      refine h.setEnv (fun hc => (hnot hc).elim) ?_ nofun (fun ht => .inl ht)
      rintro (hc | hc) <;> cases hc
    · cases hs
  | register e =>
    simp only [Stop.step] at hs
    split at hs
    · rename_i hl
      obtain ⟨hcreated, hfree⟩ := hl
      cases hs
      have hreg := h.register_mem e
      have hpub : Inv (State.setLife { s with registry := e :: s.registry } e .published) :=
        hreg.setEnv (fun _ => rfl) (fun _ => List.mem_cons_self ..) nofun
          (fun ht => .inl ht)
      refine hpub.setOwner nofun (fun _ => ?_) nofun
      rw [State.setLife, envs_setEnv_self]
    · cases hs
  | cancel e =>
    simp only [Stop.step] at hs
    split at hs
    · cases hs
      exact h.setOwner nofun nofun nofun
    · cases hs
  | deny e =>
    simp only [Stop.step] at hs
    split at hs
    · cases hs
      exact h.setOwner nofun nofun nofun
    · cases hs
  | owner e => exact h.ownerStep hok hs
  | beginRelease e =>
    simp only [Stop.step] at hs
    split at hs
    · rename_i hl
      cases hs
      refine h.setEnv (fun hc => ?_) ?_ nofun (fun ht => .inl ht)
      · rw [hl.1] at hc
        cases hc
      · rintro (hc | hc) <;> cases hc
    · cases hs
  | teardownCalls e n =>
    simp only [Stop.step] at hs
    split at hs
    · cases hs
      exact h.setEnv (h.committing e) (h.registered e) id (fun ht => .inl ht)
    · cases hs
  | finishRelease e =>
    simp only [Stop.step] at hs
    split at hs
    · rename_i hl
      cases hs
      refine h.setEnv (fun hc => ?_) ?_ nofun (fun ht => .inl ht)
      · rw [hl.1] at hc
        cases hc
      · rintro (hc | hc) <;> cases hc
    · cases hs
  | unregister e =>
    simp only [Stop.step] at hs
    split at hs
    · rename_i hl
      cases hs
      exact h.unregister hl.1
    · cases hs
  | guestTerminate e =>
    simp only [Stop.step] at hs
    split at hs
    · cases hs
      exact h.terminate e
    · cases hs
  | terminateAll k =>
    simp only [Stop.step] at hs
    split at hs
    · cases hs
      exact h.stopFlag.setControl (fun _ => rfl) nofun nofun
    · cases hs
  | control k => exact h.controlStep hs
  | stopEnv k e =>
    simp only [Stop.step] at hs
    split at hs
    · rename_i todo hc
      split at hs
      · cases hs
        exact h.stopEnv hc e
      · cases hs
    · cases hs

/-- **The stop is sticky wherever cancels run ahead of it.** In every state of every
    interleaving of any number of `terminate_all` calls with commits, denials, guest
    terminates and cancels, and releases of any number of envs: once one has returned, no
    live env is without a pending termination. -/
theorem stop_sticky [DecidableEq κ] {as : List (Act ι κ)} (hr : run step {} as = some s)
    (hok : AllSteps step CancelAhead ({} : State ι κ) as) : Sticky s :=
  (invariant_of_allSteps (fun _ _ _ hs ha h => h.step hs ha) hr hok inv_init).sticky

end

/-! The race: the guest reads the flag, the host stops the application and returns, the
guest cancels. -/

/-- An env's commit, uninterrupted and not stopped. -/
def commitCalls (e : Bool) : List (Act Bool Unit) :=
  [.create e, .register e, .owner e, .owner e, .owner e]

/-- A whole `cancel_terminate_execution`. -/
def cancelCalls (e : Bool) : List (Act Bool Unit) := [.cancel e, .owner e, .owner e]

/-- A whole `terminate_all` over the envs given. -/
def terminateAllCalls (envs : List Bool) : List (Act Bool Unit) :=
  .terminateAll () :: .control () :: (envs.map (.stopEnv ()) ++ [.control ()])

/-- A whole stop between the two halves of a cancel. -/
def racedCancel : List (Act Bool Unit) :=
  commitCalls true ++ (.cancel true :: .owner true :: (terminateAllCalls [true] ++ [.owner true]))

theorem raced_cancel_unstops :
    ∃ s, run step ({} : State Bool Unit) racedCancel = some s ∧ s.returned = true ∧
      (s.envs true).life = .live ∧ (s.envs true).terminating = false ∧ ¬ Sticky s := by
  have hrun : (run step ({} : State Bool Unit) racedCancel).map
      (fun s => (s.returned, (s.envs true).life, (s.envs true).terminating)) =
        some (true, .live, false) := by
    decide
  obtain ⟨s, hs, heq⟩ := Option.map_eq_some_iff.mp hrun
  obtain ⟨hret, heq⟩ := Prod.mk.inj heq
  obtain ⟨hlive, hbit⟩ := Prod.mk.inj heq
  refine ⟨s, hs, hret, hlive, hbit, ?_⟩
  intro hsticky
  have := hsticky hret true hlive
  rw [hbit] at this
  cases this

/-- Cancels before the stop and after it, a denial, and a commit across the stop. -/
def stoppedInTime : List (Act Bool Unit) :=
  commitCalls true ++ (.guestTerminate true :: (cancelCalls true ++ (.create false ::
    .register false :: .deny true :: .owner true :: .owner true ::
    (terminateAllCalls [false, true] ++ (.owner false :: .owner false :: .owner false ::
      .owner false :: cancelCalls true)))))

theorem stoppedInTime_sticky :
    ∃ s, run step ({} : State Bool Unit) stoppedInTime = some s ∧ s.returned = true ∧
      AllSteps step CancelAhead ({} : State Bool Unit) stoppedInTime ∧ Sticky s := by
  have hrun : (run step ({} : State Bool Unit) stoppedInTime).map (fun s => s.returned) =
      some true := by
    decide
  obtain ⟨s, hs, hret⟩ := Option.map_eq_some_iff.mp hrun
  have hok : AllSteps step CancelAhead ({} : State Bool Unit) stoppedInTime := by
    decide
  exact ⟨s, hs, hret, hok, stop_sticky hs hok⟩

end WasmerNapi.Env.Stop
