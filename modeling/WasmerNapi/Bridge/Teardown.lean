import WasmerNapi.Lib.Run

/-!
# Releasing an agent

`DisposeBridgeState` releases an agent on the thread that owns it, and two things reach the
agent from other threads meanwhile: `snapi_bridge_unofficial_terminate_execution` and
`snapi_bridge_unofficial_request_interrupt`. What they share with the owner is guarded by
`g_mu`, the isolate is not.

The owner is a stack of the calls it is inside, innermost first: guest code the bridge called
(`GuestCallScope`), an interrupt callback, its own request for one, and at the bottom, once it
has begun, the release. The engine calls back only where it runs, so isolate and agent go when
nothing is on top of the release, and that is a fact about the stack, not about the flags.

A critical section of the owner touches what `g_mu` guards and what is the owner's own, so it
is one step, taken while no other thread holds the lock. Another thread's section is not: it
calls the engine with the lock held. `held` is how far the one that holds the lock has come;
outside the section such a call has no state. A release leaves the registry and frees the agent
in separate steps, and frees the interrupt requests one by one.

Requests have names that are never used again, so that a log can tell two apart that were
allocated at one address. `accepted`, `deleted` and `ran` are such logs, the last one first.

The guest-visible tables a release clears (values, scopes, references, callbacks) are in
`Agent/`; no step here reads them.
-/

namespace WasmerNapi.Bridge.Teardown

/-- A call the owner is inside. -/
inductive Frame (ρ : Type) where
  /-- Guest code under a `GuestCallScope` that let it start; `counted` as the scope records it. -/
  | guest (counted : Bool)
  /-- A `GuestCallScope` that did not. -/
  | refused
  /-- `request_interrupt`, before the engine's answer and after a bad one. -/
  | requesting (r : ρ)
  | failed (r : ρ)
  /-- `WasmInterruptCallback` before, in and after its `GuestCallScope`. -/
  | servicing (r : ρ)
  | interrupt (r : ρ)
  | serviced (r : ρ)
  /-- `DisposeBridgeState` up to the end of `release_env`, up to the registry, and after it
      with these requests to delete. -/
  | releasing
  | released
  | sweeping (rs : List ρ)
  deriving DecidableEq, Repr

/-- Another thread that holds `g_mu`. -/
inductive Holder (ρ : Type) where
  /-- A terminate about to call the engine, and one about to return. -/
  | terminating
  | terminated (reached : Bool)
  /-- A request about to be queued, one the engine did not take, and one about to return. -/
  | enqueuing (r : ρ)
  | failed (r : ρ)
  | answered
  deriving DecidableEq, Repr

structure State (ρ : Type) where
  held : Option (Holder ρ) := none
  registered : Bool := true
  closing : Bool := false
  stopRequested : Bool := false
  teardownGuestCalls : ℕ := 0
  guestCalls : ℕ := 0
  isolate : Bool := true
  agent : Bool := true
  stack : List (Frame ρ) := []
  pending : List ρ := []
  queue : List ρ := []
  accepted : List ρ := []
  deleted : List ρ := []
  ran : List ρ := []

inductive Act (ρ : Type) where
  -- the owner
  | enter
  | leave
  | dispose
  | release
  | unregister
  | sweep
  | callback (r : ρ)
  | service (ctx : Bool)
  | finish
  | request (r : Option ρ)
  | enqueue (ok : Bool)
  | abandon
  | drop (r : ρ)
  -- another thread
  | terminate
  | ask (r : Option ρ)
  | engine (ok : Bool)
  | ret
  deriving DecidableEq, Repr

/-- Where guest code or the engine runs, and may call the bridge. -/
def Frame.runs {ρ : Type} : Frame ρ → Bool
  | .guest _ | .interrupt _ | .releasing => true
  | _ => false

namespace State

variable {ρ : Type}

/-- The owner is in the engine, or in code that can call it. -/
def atEngine (s : State ρ) : Bool :=
  s.isolate && (s.stack.head?.map Frame.runs).getD true

/-! ## The owner -/

/-- The constructor of `GuestCallScope`. -/
def enter (s : State ρ) : Option (State ρ) :=
  if s.atEngine = false then none
  else if s.closing = false then
    some { s with guestCalls := s.guestCalls + 1, stack := .guest false :: s.stack }
  else if s.held.isSome then none
  else if s.stopRequested then
    some { s with guestCalls := s.guestCalls + 1, stack := .refused :: s.stack }
  else
    some { s with
      guestCalls := s.guestCalls + 1
      teardownGuestCalls := s.teardownGuestCalls + 1
      stack := .guest true :: s.stack }

/-- Its destructor; that of an interrupt's scope goes back to the callback. -/
def leave (s : State ρ) : Option (State ρ) :=
  match s.stack with
  | .guest false :: fs | .refused :: fs =>
    some { s with guestCalls := s.guestCalls - 1, stack := fs }
  | .guest true :: fs =>
    if s.held.isSome then none
    else some { s with
      guestCalls := s.guestCalls - 1
      teardownGuestCalls := s.teardownGuestCalls - 1
      stack := fs }
  | .interrupt r :: fs => some { s with guestCalls := s.guestCalls - 1, stack := .serviced r :: fs }
  | _ => none

/-- `DisposeBridgeState` up to `closing`. -/
def dispose (s : State ρ) : Option (State ρ) :=
  if s.atEngine = false then none
  else if s.guestCalls ≠ 0 then some s
  else if s.held.isSome then none
  else if s.closing then some s
  else some { s with closing := true, stack := .releasing :: s.stack }

/-- `unofficial_napi_release_env` ends: the isolate is gone, and the interrupts it had queued. -/
def release (s : State ρ) : Option (State ρ) :=
  match s.stack with
  | .releasing :: fs => some { s with isolate := false, queue := [], stack := .released :: fs }
  | _ => none

def unregister (s : State ρ) : Option (State ρ) :=
  match s.stack with
  | .released :: fs =>
    if s.held.isSome then none
    else some { s with registered := false, pending := [], stack := .sweeping s.pending :: fs }
  | _ => none

/-- One unserviced request is deleted, or, when there is none left, the agent. -/
def sweep (s : State ρ) : Option (State ρ) :=
  match s.stack with
  | .sweeping (r :: rs) :: fs =>
    some { s with deleted := r :: s.deleted, stack := .sweeping rs :: fs }
  | .sweeping [] :: fs => some { s with agent := false, stack := fs }
  | _ => none

/-- The engine runs a queued callback, up to the erasure of its request. -/
def callback [DecidableEq ρ] (s : State ρ) (r : ρ) : Option (State ρ) :=
  if s.atEngine = false ∨ r ∉ s.queue ∨ s.held.isSome then none
  else some { s with
    queue := s.queue.erase r
    pending := s.pending.erase r
    stack := .servicing r :: s.stack }

/-- The callback calls its guest function, where the agent is not closing and `ctx` says that
    a guest drives it. -/
def service (s : State ρ) (ctx : Bool) : Option (State ρ) :=
  match s.stack with
  | .servicing r :: fs =>
    if s.closing then some { s with stack := .serviced r :: fs }
    else some { s with
      guestCalls := s.guestCalls + 1
      ran := if ctx then r :: s.ran else s.ran
      stack := .interrupt r :: fs }
  | _ => none

def finish (s : State ρ) : Option (State ρ) :=
  match s.stack with
  | .serviced r :: fs => some { s with deleted := r :: s.deleted, stack := fs }
  | _ => none

/-- `request_interrupt` by the owner, up to the engine; `r` is what `new` answers. -/
def request [DecidableEq ρ] (s : State ρ) (r : Option ρ) : Option (State ρ) :=
  if s.atEngine = false ∨ s.held.isSome then none
  else if s.registered = false ∨ s.closing then some s
  else
    match r with
    | none => some s
    | some r =>
      if r ∈ s.accepted then none
      else some { s with
        accepted := r :: s.accepted
        pending := r :: s.pending
        stack := .requesting r :: s.stack }

def enqueue (s : State ρ) (ok : Bool) : Option (State ρ) :=
  match s.stack with
  | .requesting r :: fs =>
    if ok then some { s with queue := s.queue ++ [r], stack := fs }
    else some { s with stack := .failed r :: fs }
  | _ => none

/-- The failed request's end, under the lock again. -/
def abandon [DecidableEq ρ] (s : State ρ) : Option (State ρ) :=
  match s.stack with
  | .failed r :: fs =>
    if s.held.isSome then none
    else some { s with pending := s.pending.erase r, deleted := r :: s.deleted, stack := fs }
  | _ => none

/-- The engine drops a queued callback without running it. -/
def drop [DecidableEq ρ] (s : State ρ) (r : ρ) : Option (State ρ) :=
  if s.atEngine = false ∨ r ∉ s.queue then none else some { s with queue := s.queue.erase r }

/-! ## Other threads -/

/-- `terminate_execution`, with the lock, up to the engine. -/
def terminate (s : State ρ) : Option (State ρ) :=
  if s.held.isSome then none
  else if s.registered = false then some { s with held := some (.terminated false) }
  else if s.closing then
    if s.teardownGuestCalls = 0 then
      some { s with stopRequested := true, held := some (.terminated false) }
    else some { s with stopRequested := true, held := some .terminating }
  else some { s with held := some .terminating }

/-- `request_interrupt`, with the lock, up to the engine. -/
def ask [DecidableEq ρ] (s : State ρ) (r : Option ρ) : Option (State ρ) :=
  if s.held.isSome then none
  else if s.registered = false ∨ s.closing then some { s with held := some .answered }
  else
    match r with
    | none => some { s with held := some .answered }
    | some r =>
      if r ∈ s.accepted then none
      else some { s with
        accepted := r :: s.accepted
        pending := r :: s.pending
        held := some (.enqueuing r) }

/-- The engine call of the thread that holds the lock, and what follows a bad answer. -/
def engine [DecidableEq ρ] (s : State ρ) (ok : Bool) : Option (State ρ) :=
  match s.held with
  | some .terminating => some { s with held := some (.terminated true) }
  | some (.enqueuing r) =>
    if ok then some { s with queue := s.queue ++ [r], held := some .answered }
    else some { s with held := some (.failed r) }
  | some (.failed r) =>
    some { s with
      pending := s.pending.erase r
      deleted := r :: s.deleted
      held := some .answered }
  | _ => none

/-- The call returns, and gives the lock up. -/
def ret (s : State ρ) : Option (State ρ) :=
  match s.held with
  | some (.terminated _) | some .answered => some { s with held := none }
  | _ => none

end State

def step {ρ : Type} [DecidableEq ρ] (s : State ρ) : Act ρ → Option (State ρ)
  | .enter => s.enter
  | .leave => s.leave
  | .dispose => s.dispose
  | .release => s.release
  | .unregister => s.unregister
  | .sweep => s.sweep
  | .callback r => s.callback r
  | .service ctx => s.service ctx
  | .finish => s.finish
  | .request r => s.request r
  | .enqueue ok => s.enqueue ok
  | .abandon => s.abandon
  | .drop r => s.drop r
  | .terminate => s.terminate
  | .ask r => s.ask r
  | .engine ok => s.engine ok
  | .ret => s.ret

/-! ## The invariant -/

/-- Calls that count in `guest_calls`. -/
def Frame.isCall {ρ : Type} : Frame ρ → Bool
  | .guest _ | .refused | .interrupt _ => true
  | _ => false

/-- Calls that count in `teardown_guest_calls`. -/
def Frame.isCounted {ρ : Type} : Frame ρ → Bool
  | .guest true => true
  | _ => false

/-- What the owner can be inside before the release begins. -/
def Frame.early {ρ : Type} : Frame ρ → Bool
  | .guest false | .requesting _ | .failed _ | .servicing _ | .interrupt _ | .serviced _ => true
  | _ => false

/-- What it can be inside on top of the release. -/
def Frame.late {ρ : Type} : Frame ρ → Bool
  | .guest true | .refused | .servicing _ | .serviced _ => true
  | _ => false

/-- How far the release is, by the stack and by the flags. -/
inductive Stage {ρ : Type} (s : State ρ) : Prop where
  | running (hflags : s.closing = false ∧ s.registered = true ∧ s.isolate = true ∧ s.agent = true)
      (hstack : ∀ f ∈ s.stack, f.early = true)
  | releasing (fs : List (Frame ρ)) (hstack : s.stack = fs ++ [.releasing])
      (hflags : s.closing = true ∧ s.registered = true ∧ s.isolate = true ∧ s.agent = true)
      (hlate : ∀ f ∈ fs, f.late = true)
  | released (hstack : s.stack = [.released])
      (hflags : s.closing = true ∧ s.registered = true ∧ s.isolate = false ∧ s.agent = true)
  | sweeping (rs : List ρ) (hstack : s.stack = [.sweeping rs])
      (hflags : s.closing = true ∧ s.registered = false ∧ s.isolate = false ∧ s.agent = true)
  | gone (hstack : s.stack = [])
      (hflags : s.closing = true ∧ s.registered = false ∧ s.isolate = false ∧ s.agent = false)

/-- What the thread that holds the lock has made sure of. -/
def HolderOk {ρ : Type} (s : State ρ) : Holder ρ → Prop
  | .terminating =>
    s.registered = true ∧ (s.closing = true → s.stopRequested = true ∧ 0 < s.teardownGuestCalls)
  | .terminated reached =>
    s.closing = true → s.registered = true →
      s.stopRequested = true ∧ (reached = false → s.teardownGuestCalls = 0)
  | .enqueuing _ | .failed _ => s.closing = false
  | .answered => True

structure Inv {ρ : Type} (s : State ρ) : Prop where
  stage : Stage s
  guestCalls : s.guestCalls = s.stack.countP Frame.isCall
  teardownGuestCalls : s.teardownGuestCalls = s.stack.countP Frame.isCounted
  stopRequested : s.stopRequested = true → s.closing = true
  held : ∀ h, s.held = some h → HolderOk s h

theorem inv_init {ρ : Type} : Inv ({} : State ρ) where
  stage := .running ⟨rfl, rfl, rfl, rfl⟩ (by simp)
  guestCalls := rfl
  teardownGuestCalls := rfl
  stopRequested h := h
  held := by simp

section

variable {ρ : Type} {s s' : State ρ} {f : Frame ρ} {fs : List (Frame ρ)}

/-- A frame that belongs where the release is. -/
def Fits (s : State ρ) (f : Frame ρ) : Prop :=
  (s.closing = false → f.early = true) ∧ (s.closing = true → f.late = true)

/-- The flags a release clears. -/
def SameFlags (s s' : State ρ) : Prop :=
  s'.closing = s.closing ∧ s'.registered = s.registered ∧ s'.isolate = s.isolate ∧
    s'.agent = s.agent

/-- While the isolate lives, the owner can enter what belongs there. -/
theorem Stage.push (h : Stage s) (hiso : s.isolate = true) (hflags : SameFlags s s')
    (hstack : s'.stack = f :: s.stack) (hf : Fits s f) : Stage s' := by
  obtain ⟨hc, hr, hi, ha⟩ := hflags
  cases h with
  | running hfl hs =>
    refine .running (by rw [hc, hr, hi, ha]; exact hfl) ?_
    rw [hstack]
    intro g hg
    rcases List.mem_cons.mp hg with rfl | hg
    · exact hf.1 hfl.1
    · exact hs g hg
  | releasing gs hs hfl hlate =>
    refine .releasing (f :: gs) (by rw [hstack, hs]; rfl) (by rw [hc, hr, hi, ha]; exact hfl) ?_
    intro g hg
    rcases List.mem_cons.mp hg with rfl | hg
    · exact hf.2 hfl.1
    · exact hlate g hg
  | released _ hfl => exact absurd (hiso.symm.trans hfl.2.2.1) (by decide)
  | sweeping _ _ hfl => exact absurd (hiso.symm.trans hfl.2.2.1) (by decide)
  | gone _ hfl => exact absurd (hiso.symm.trans hfl.2.2.1) (by decide)

/-- A call that is not the release itself ends, or goes on as something else. -/
theorem Stage.replace (h : Stage s) (gs : List (Frame ρ)) (hs : s.stack = f :: fs)
    (hf : f.early = true ∨ f.late = true) (hflags : SameFlags s s') (hstack : s'.stack = gs ++ fs)
    (hgs : ∀ g ∈ gs, Fits s g) : Stage s' := by
  obtain ⟨hc, hr, hi, ha⟩ := hflags
  cases h with
  | running hfl hearly =>
    refine .running (by rw [hc, hr, hi, ha]; exact hfl) ?_
    rw [hstack]
    intro g hg
    rcases List.mem_append.mp hg with hg | hg
    · exact (hgs g hg).1 hfl.1
    · exact hearly g (hs ▸ List.mem_cons_of_mem f hg)
  | releasing as has hfl hlate =>
    rw [hs] at has
    cases as with
    | nil =>
      obtain ⟨rfl, -⟩ := List.cons.inj has
      exact absurd hf (by simp [Frame.early, Frame.late])
    | cons a as =>
      obtain ⟨rfl, hfs⟩ := List.cons.inj has
      refine .releasing (gs ++ as) (by rw [hstack, hfs, List.append_assoc]; rfl)
        (by rw [hc, hr, hi, ha]; exact hfl) ?_
      intro g hg
      rcases List.mem_append.mp hg with hg | hg
      · exact (hgs g hg).2 hfl.1
      · exact hlate g (List.mem_cons_of_mem f hg)
  | released has _ =>
    obtain ⟨rfl, -⟩ := List.cons.inj (hs.symm.trans has)
    exact absurd hf (by simp [Frame.early, Frame.late])
  | sweeping rs has _ =>
    obtain ⟨rfl, -⟩ := List.cons.inj (hs.symm.trans has)
    exact absurd hf (by simp [Frame.early, Frame.late])
  | gone has _ => exact absurd (hs.symm.trans has) (List.cons_ne_nil _ _)

/-- Steps that leave stack and flags alone. -/
theorem Stage.congr (h : Stage s) (hflags : SameFlags s s') (hstack : s'.stack = s.stack) :
    Stage s' := by
  obtain ⟨hc, hr, hi, ha⟩ := hflags
  cases h with
  | running hfl hs => exact .running (by rw [hc, hr, hi, ha]; exact hfl) (hstack ▸ hs)
  | releasing as hs hfl hlate =>
    exact .releasing as (hstack.trans hs) (by rw [hc, hr, hi, ha]; exact hfl) hlate
  | released hs hfl => exact .released (hstack.trans hs) (by rw [hc, hr, hi, ha]; exact hfl)
  | sweeping rs hs hfl => exact .sweeping rs (hstack.trans hs) (by rw [hc, hr, hi, ha]; exact hfl)
  | gone hs hfl => exact .gone (hstack.trans hs) (by rw [hc, hr, hi, ha]; exact hfl)

/-- What the holder of the lock has made sure of rests on guarded fields only. -/
theorem HolderOk.congr {h : Holder ρ} (hok : HolderOk s h) (hclosing : s'.closing = s.closing)
    (hreg : s'.registered = s.registered) (hstop : s'.stopRequested = s.stopRequested)
    (hcalls : s'.teardownGuestCalls = s.teardownGuestCalls) : HolderOk s' h := by
  cases h with
  | terminating =>
    unfold HolderOk at hok ⊢
    rwa [hclosing, hreg, hstop, hcalls]
  | terminated reached =>
    unfold HolderOk at hok ⊢
    rwa [hclosing, hreg, hstop, hcalls]
  | enqueuing r => exact hclosing.trans hok
  | failed r => exact hclosing.trans hok
  | answered => trivial

/-- A step of the owner outside `g_mu`. -/
theorem Inv.unlocked (h : Inv s) (hstage : Stage s')
    (hcalls : s'.guestCalls = s'.stack.countP Frame.isCall)
    (hcounted : s'.stack.countP Frame.isCounted = s.stack.countP Frame.isCounted)
    (hguarded : s'.closing = s.closing ∧ s'.registered = s.registered ∧
      s'.stopRequested = s.stopRequested ∧ s'.teardownGuestCalls = s.teardownGuestCalls ∧
      s'.held = s.held) : Inv s' := by
  obtain ⟨hc, hr, hst, ht, hh⟩ := hguarded
  refine ⟨hstage, hcalls, ?_, ?_, ?_⟩
  · rw [ht, hcounted]
    exact h.teardownGuestCalls
  · rw [hst, hc]
    exact h.stopRequested
  · rw [hh]
    exact fun k hk => (h.held k hk).congr hc hr hst ht

/-- A critical section of the owner: no other thread is in one. -/
theorem inv_locked (hfree : s.held.isSome = false) (hstage : Stage s')
    (hcalls : s'.guestCalls = s'.stack.countP Frame.isCall)
    (hcounted : s'.teardownGuestCalls = s'.stack.countP Frame.isCounted)
    (hstop : s'.stopRequested = true → s'.closing = true) (hheld : s'.held = s.held) : Inv s' := by
  refine ⟨hstage, hcalls, hcounted, hstop, ?_⟩
  intro k hk
  rw [← hheld, hk] at hfree
  cases hfree

theorem isolate_of_atEngine (h : s.atEngine = true) : s.isolate = true :=
  (Bool.and_eq_true_iff.mp h).1

/-- Before the release begins nothing is gone. -/
theorem Stage.flags_of_open (h : Stage s) (hopen : s.closing = false) :
    s.registered = true ∧ s.isolate = true ∧ s.agent = true := by
  cases h with
  | running hfl _ => exact hfl.2
  | releasing _ _ hfl _ => exact absurd (hopen.symm.trans hfl.1) (by decide)
  | released _ hfl => exact absurd (hopen.symm.trans hfl.1) (by decide)
  | sweeping _ _ hfl => exact absurd (hopen.symm.trans hfl.1) (by decide)
  | gone _ hfl => exact absurd (hopen.symm.trans hfl.1) (by decide)

/-- Some calls the owner is not inside once the release has begun. -/
theorem Stage.open_of_early (h : Stage s) (hs : s.stack = f :: fs) (hearly : f.early = true)
    (hlate : f.late = false) : s.closing = false := by
  cases h with
  | running hfl _ => exact hfl.1
  | releasing as has _ hall =>
    rw [hs] at has
    cases as with
    | nil =>
      obtain ⟨rfl, -⟩ := List.cons.inj has
      cases hearly
    | cons a as =>
      obtain ⟨rfl, -⟩ := List.cons.inj has
      exact absurd ((hall _ (List.mem_cons_self ..)).symm.trans hlate) (by decide)
  | released has _ =>
    obtain ⟨rfl, -⟩ := List.cons.inj (hs.symm.trans has)
    cases hearly
  | sweeping rs has _ =>
    obtain ⟨rfl, -⟩ := List.cons.inj (hs.symm.trans has)
    cases hearly
  | gone has _ => cases hs.symm.trans has

/-! ### The owner's steps -/

theorem Inv.enter (h : Inv s) (hs : s.enter = some s') : Inv s' := by
  unfold State.enter at hs
  by_cases hat : s.atEngine = false
  · rw [if_pos hat] at hs
    cases hs
  · rw [if_neg hat] at hs
    have hiso := isolate_of_atEngine (Bool.not_eq_false _ ▸ hat)
    have hcalls := h.guestCalls
    have hcounted := h.teardownGuestCalls
    by_cases hopen : s.closing = false
    · rw [if_pos hopen] at hs
      cases hs
      refine h.unlocked (h.stage.push hiso ⟨rfl, rfl, rfl, rfl⟩ rfl ?_) ?_ ?_
        ⟨rfl, rfl, rfl, rfl, rfl⟩
      · exact ⟨fun _ => rfl, fun hclosed => absurd (hopen.symm.trans hclosed) (by decide)⟩
      · simp [hcalls, Frame.isCall, List.countP_cons]
      · simp [Frame.isCounted]
    · rw [if_neg hopen] at hs
      by_cases hheld : s.held.isSome = true
      · rw [if_pos hheld] at hs
        cases hs
      · rw [if_neg hheld] at hs
        have hfree := Bool.not_eq_true _ ▸ hheld
        by_cases hstop : s.stopRequested = true
        · rw [if_pos hstop] at hs
          cases hs
          refine h.unlocked (h.stage.push hiso ⟨rfl, rfl, rfl, rfl⟩ rfl ?_) ?_ ?_
            ⟨rfl, rfl, rfl, rfl, rfl⟩
          · exact ⟨fun hc => absurd hc hopen, fun _ => rfl⟩
          · simp [hcalls, Frame.isCall, List.countP_cons]
          · simp [Frame.isCounted]
        · rw [if_neg hstop] at hs
          cases hs
          refine inv_locked hfree (h.stage.push hiso ⟨rfl, rfl, rfl, rfl⟩ rfl ?_) ?_ ?_
            h.stopRequested rfl
          · exact ⟨fun hc => absurd hc hopen, fun _ => rfl⟩
          · simp [hcalls, Frame.isCall, List.countP_cons]
          · simp [hcounted, Frame.isCounted, List.countP_cons]

theorem Inv.leave (h : Inv s) (hs : s.leave = some s') : Inv s' := by
  have hcalls := h.guestCalls
  have hcounted := h.teardownGuestCalls
  unfold State.leave at hs
  split at hs
  · rename_i fs hstack
    cases hs
    rw [hstack] at hcalls
    refine h.unlocked (h.stage.replace [] hstack (Or.inl rfl) ⟨rfl, rfl, rfl, rfl⟩ rfl ?_) ?_ ?_
      ⟨rfl, rfl, rfl, rfl, rfl⟩
    · simp
    · simp [hcalls, Frame.isCall, List.countP_cons]
    · simp [hstack, Frame.isCounted]
  · rename_i fs hstack
    cases hs
    rw [hstack] at hcalls
    refine h.unlocked (h.stage.replace [] hstack (Or.inr rfl) ⟨rfl, rfl, rfl, rfl⟩ rfl ?_) ?_ ?_
      ⟨rfl, rfl, rfl, rfl, rfl⟩
    · simp
    · simp [hcalls, Frame.isCall, List.countP_cons]
    · simp [hstack, Frame.isCounted]
  · rename_i fs hstack
    split at hs
    · cases hs
    · rename_i hheld
      cases hs
      rw [hstack] at hcalls hcounted
      refine inv_locked (Bool.not_eq_true _ ▸ hheld) (h.stage.replace [] hstack (Or.inr rfl)
        ⟨rfl, rfl, rfl, rfl⟩ rfl ?_) ?_ ?_ h.stopRequested rfl
      · simp
      · simp [hcalls, Frame.isCall, List.countP_cons]
      · simp [hcounted, Frame.isCounted, List.countP_cons]
  · rename_i r fs hstack
    cases hs
    rw [hstack] at hcalls
    refine h.unlocked (h.stage.replace [.serviced r] hstack (Or.inl rfl) ⟨rfl, rfl, rfl, rfl⟩ rfl ?_)
      ?_ ?_ ⟨rfl, rfl, rfl, rfl, rfl⟩
    · intro g hg
      obtain rfl := List.mem_singleton.mp hg
      exact ⟨fun _ => rfl, fun _ => rfl⟩
    · simp [hcalls, Frame.isCall, List.countP_cons]
    · simp [hstack, Frame.isCounted]
  · cases hs

/-- A call that counts for nothing ends, or goes on as such a call. -/
theorem Inv.bookkeeping (h : Inv s) (gs : List (Frame ρ)) (hs : s.stack = f :: fs)
    (hf : f.early = true ∨ f.late = true) (hcall : f.isCall = false) (hgs : ∀ g ∈ gs, Fits s g)
    (hcalls : ∀ g ∈ gs, g.isCall = false) (hflags : SameFlags s s') (hstack : s'.stack = gs ++ fs)
    (hguarded : s'.stopRequested = s.stopRequested ∧
      s'.teardownGuestCalls = s.teardownGuestCalls ∧ s'.guestCalls = s.guestCalls ∧
      s'.held = s.held) : Inv s' := by
  obtain ⟨hst, ht, hg, hh⟩ := hguarded
  have hcounted : ∀ g : Frame ρ, g.isCall = false → g.isCounted = false := by
    intro g hg
    cases g with
    | guest counted => cases hg
    | _ => rfl
  have hnone : gs.countP Frame.isCall = 0 := by
    rw [List.countP_eq_zero]
    intro g hg
    simp [hcalls g hg]
  have hnone' : gs.countP Frame.isCounted = 0 := by
    rw [List.countP_eq_zero]
    intro g hg
    simp [hcounted g (hcalls g hg)]
  refine h.unlocked (h.stage.replace gs hs hf hflags hstack hgs) ?_ ?_ ⟨hflags.1, hflags.2.1, hst, ht, hh⟩
  · rw [hg, h.guestCalls, hstack, hs, List.countP_append, hnone]
    simp [hcall]
  · rw [hstack, hs, List.countP_append, hnone']
    simp [hcounted f hcall]

theorem not_call_of_guestCalls (h : Inv s) (hzero : s.guestCalls = 0) :
    ∀ f ∈ s.stack, f.isCall = false := by
  rw [h.guestCalls, List.countP_eq_zero] at hzero
  intro f hf
  simpa using hzero f hf

/-- When the engine runs, no guest call is open and the release has not begun, the owner is
    inside nothing. -/
theorem Inv.stack_nil (h : Inv s) (hat : s.atEngine = true) (hzero : s.guestCalls = 0)
    (hopen : s.closing = false) : s.stack = [] := by
  have hnone := not_call_of_guestCalls h hzero
  cases hstack : s.stack with
  | nil => rfl
  | cons f fs =>
    have hf := hnone f (hstack ▸ List.mem_cons_self ..)
    have hruns : f.runs = true := by
      unfold State.atEngine at hat
      rw [hstack] at hat
      exact (Bool.and_eq_true_iff.mp hat).2
    -- The only frame that runs something and is no call is the release.
    cases f with
    | releasing =>
      cases h.stage with
      | running hfl hearly => cases hearly _ (hstack ▸ List.mem_cons_self ..)
      | releasing _ _ hfl _ => exact absurd (hopen.symm.trans hfl.1) (by decide)
      | released _ hfl => exact absurd (hopen.symm.trans hfl.1) (by decide)
      | sweeping _ _ hfl => exact absurd (hopen.symm.trans hfl.1) (by decide)
      | gone _ hfl => exact absurd (hopen.symm.trans hfl.1) (by decide)
    | guest counted => cases hf
    | interrupt r => cases hf
    | _ => cases hruns

theorem Inv.dispose (h : Inv s) (hs : s.dispose = some s') : Inv s' := by
  unfold State.dispose at hs
  by_cases hat : s.atEngine = false
  · rw [if_pos hat] at hs
    cases hs
  · rw [if_neg hat] at hs
    by_cases hzero : s.guestCalls = 0
    · rw [if_neg (not_not.mpr hzero)] at hs
      by_cases hheld : s.held.isSome = true
      · rw [if_pos hheld] at hs
        cases hs
      · rw [if_neg hheld] at hs
        by_cases hclosing : s.closing = true
        · rw [if_pos hclosing] at hs
          exact Option.some.inj hs ▸ h
        · rw [if_neg hclosing] at hs
          cases hs
          have hopen := Bool.not_eq_true _ ▸ hclosing
          have hnil := h.stack_nil (Bool.not_eq_false _ ▸ hat) hzero hopen
          have hflags := h.stage.flags_of_open hopen
          have hcounted := h.teardownGuestCalls
          rw [hnil] at hcounted
          refine inv_locked (Bool.not_eq_true _ ▸ hheld)
            (.releasing [] (by rw [hnil]; rfl) ⟨rfl, hflags⟩ (by simp)) ?_ ?_ (fun _ => rfl) rfl
          · simp [hnil, hzero, Frame.isCall]
          · simp [hnil, hcounted, Frame.isCounted]
    · rw [if_pos hzero] at hs
      exact Option.some.inj hs ▸ h

/-- The release has nothing on top of it when it goes on. -/
theorem Stage.releasing_top (h : Stage s) (hs : s.stack = .releasing :: fs) :
    fs = [] ∧ s.closing = true ∧ s.registered = true ∧ s.isolate = true ∧ s.agent = true := by
  cases h with
  | running _ hearly => cases hearly _ (hs ▸ List.mem_cons_self ..)
  | releasing as has hfl hlate =>
    rw [hs] at has
    cases as with
    | nil => exact ⟨(List.cons.inj has).2, hfl⟩
    | cons a as =>
      obtain ⟨rfl, -⟩ := List.cons.inj has
      cases hlate _ (List.mem_cons_self ..)
  | released has _ => cases hs.symm.trans has
  | sweeping rs has _ => cases hs.symm.trans has
  | gone has _ => cases hs.symm.trans has

theorem Inv.release (h : Inv s) (hs : s.release = some s') : Inv s' := by
  unfold State.release at hs
  split at hs
  · rename_i fs hstack
    cases hs
    obtain ⟨rfl, hc, hr, -, ha⟩ := h.stage.releasing_top hstack
    have hcalls := h.guestCalls
    rw [hstack] at hcalls
    refine h.unlocked (.released rfl ⟨hc, hr, rfl, ha⟩) ?_ ?_ ⟨rfl, rfl, rfl, rfl, rfl⟩
    · simp [hcalls, Frame.isCall]
    · simp [hstack, Frame.isCounted]
  · cases hs

theorem Stage.released_top (h : Stage s) (hs : s.stack = .released :: fs) :
    fs = [] ∧ s.closing = true ∧ s.registered = true ∧ s.isolate = false ∧ s.agent = true := by
  cases h with
  | running _ hearly => cases hearly _ (hs ▸ List.mem_cons_self ..)
  | releasing as has hfl hlate =>
    rw [hs] at has
    cases as with
    | nil => cases has
    | cons a as =>
      obtain ⟨rfl, -⟩ := List.cons.inj has
      cases hlate _ (List.mem_cons_self ..)
  | released has hfl => exact ⟨(List.cons.inj (hs.symm.trans has)).2, hfl⟩
  | sweeping rs has _ => cases hs.symm.trans has
  | gone has _ => cases hs.symm.trans has

theorem Inv.unregister (h : Inv s) (hs : s.unregister = some s') : Inv s' := by
  unfold State.unregister at hs
  split at hs
  · rename_i fs hstack
    split at hs
    · cases hs
    · rename_i hheld
      cases hs
      obtain ⟨rfl, hc, -, hi, ha⟩ := h.stage.released_top hstack
      have hcalls := h.guestCalls
      have hcounted := h.teardownGuestCalls
      rw [hstack] at hcalls hcounted
      refine inv_locked (Bool.not_eq_true _ ▸ hheld) (.sweeping s.pending rfl ⟨hc, rfl, hi, ha⟩) ?_ ?_
        h.stopRequested rfl
      · simp [hcalls, Frame.isCall]
      · simp [hcounted, Frame.isCounted]
  · cases hs

theorem Stage.sweeping_top (h : Stage s) {rs : List ρ} (hs : s.stack = .sweeping rs :: fs) :
    fs = [] ∧ s.closing = true ∧ s.registered = false ∧ s.isolate = false ∧ s.agent = true := by
  cases h with
  | running _ hearly => cases hearly _ (hs ▸ List.mem_cons_self ..)
  | releasing as has hfl hlate =>
    rw [hs] at has
    cases as with
    | nil => cases has
    | cons a as =>
      obtain ⟨rfl, -⟩ := List.cons.inj has
      cases hlate _ (List.mem_cons_self ..)
  | released has _ => cases hs.symm.trans has
  | sweeping rs' has hfl => exact ⟨(List.cons.inj (hs.symm.trans has)).2, hfl⟩
  | gone has _ => cases hs.symm.trans has

theorem Inv.sweep (h : Inv s) (hs : s.sweep = some s') : Inv s' := by
  have hcalls := h.guestCalls
  unfold State.sweep at hs
  split at hs
  · rename_i r rs fs hstack
    cases hs
    obtain ⟨rfl, hflags⟩ := h.stage.sweeping_top hstack
    rw [hstack] at hcalls
    refine h.unlocked (.sweeping rs rfl hflags) ?_ ?_ ⟨rfl, rfl, rfl, rfl, rfl⟩
    · simp [hcalls, Frame.isCall]
    · simp [hstack, Frame.isCounted]
  · rename_i fs hstack
    cases hs
    obtain ⟨rfl, hc, hr, hi, -⟩ := h.stage.sweeping_top hstack
    rw [hstack] at hcalls
    refine h.unlocked (.gone rfl ⟨hc, hr, hi, rfl⟩) ?_ ?_ ⟨rfl, rfl, rfl, rfl, rfl⟩
    · simp [hcalls, Frame.isCall]
    · simp [hstack, Frame.isCounted]
  · cases hs

theorem Inv.service (h : Inv s) {ctx : Bool} (hs : s.service ctx = some s') : Inv s' := by
  unfold State.service at hs
  split at hs
  · rename_i r fs hstack
    by_cases hclosing : s.closing = true
    · rw [if_pos hclosing] at hs
      cases hs
      refine h.bookkeeping [.serviced r] hstack (Or.inl rfl) rfl ?_ ?_ ⟨rfl, rfl, rfl, rfl⟩ rfl
        ⟨rfl, rfl, rfl, rfl⟩
      · intro g hg
        obtain rfl := List.mem_singleton.mp hg
        exact ⟨fun _ => rfl, fun _ => rfl⟩
      · intro g hg
        obtain rfl := List.mem_singleton.mp hg
        rfl
    · rw [if_neg hclosing] at hs
      cases hs
      have hcalls := h.guestCalls
      rw [hstack] at hcalls
      refine h.unlocked (h.stage.replace [.interrupt r] hstack (Or.inl rfl) ⟨rfl, rfl, rfl, rfl⟩ rfl ?_)
        ?_ ?_ ⟨rfl, rfl, rfl, rfl, rfl⟩
      · intro g hg
        obtain rfl := List.mem_singleton.mp hg
        exact ⟨fun _ => rfl, fun hc => absurd hc hclosing⟩
      · simp [hcalls, Frame.isCall, List.countP_cons]
      · simp [hstack, Frame.isCounted]
  · cases hs

theorem Inv.finish (h : Inv s) (hs : s.finish = some s') : Inv s' := by
  unfold State.finish at hs
  split at hs
  · rename_i r fs hstack
    cases hs
    exact h.bookkeeping [] hstack (Or.inl rfl) rfl (by simp) (by simp) ⟨rfl, rfl, rfl, rfl⟩ rfl
      ⟨rfl, rfl, rfl, rfl⟩
  · cases hs

theorem Inv.enqueue (h : Inv s) {ok : Bool} (hs : s.enqueue ok = some s') : Inv s' := by
  unfold State.enqueue at hs
  split at hs
  · rename_i r fs hstack
    have hopen := h.stage.open_of_early hstack rfl rfl
    cases ok with
    | true =>
      cases hs
      exact h.bookkeeping [] hstack (Or.inl rfl) rfl (by simp) (by simp) ⟨rfl, rfl, rfl, rfl⟩ rfl
        ⟨rfl, rfl, rfl, rfl⟩
    | false =>
      cases hs
      refine h.bookkeeping [.failed r] hstack (Or.inl rfl) rfl ?_ ?_ ⟨rfl, rfl, rfl, rfl⟩ rfl
        ⟨rfl, rfl, rfl, rfl⟩
      · intro g hg
        obtain rfl := List.mem_singleton.mp hg
        exact ⟨fun _ => rfl, fun hc => absurd (hopen.symm.trans hc) (by decide)⟩
      · intro g hg
        obtain rfl := List.mem_singleton.mp hg
        rfl
  · cases hs

/-! ### Other threads' steps -/

/-- A step of another thread: it takes the lock, or has it. -/
theorem Inv.other (h : Inv s) {k : Option (Holder ρ)} (hflags : SameFlags s s')
    (hstack : s'.stack = s.stack) (hcalls : s'.guestCalls = s.guestCalls)
    (hcounted : s'.teardownGuestCalls = s.teardownGuestCalls)
    (hstop : s'.stopRequested = true → s'.closing = true) (hheld : s'.held = k)
    (hok : ∀ k', k = some k' → HolderOk s' k') : Inv s' := by
  refine ⟨h.stage.congr hflags hstack, ?_, ?_, hstop, hheld ▸ hok⟩
  · rw [hcalls, hstack]
    exact h.guestCalls
  · rw [hcounted, hstack]
    exact h.teardownGuestCalls

theorem Inv.terminate (h : Inv s) (hs : s.terminate = some s') : Inv s' := by
  unfold State.terminate at hs
  by_cases hheld : s.held.isSome = true
  · rw [if_pos hheld] at hs
    cases hs
  · rw [if_neg hheld] at hs
    by_cases hreg : s.registered = false
    · rw [if_pos hreg] at hs
      cases hs
      refine h.other ⟨rfl, rfl, rfl, rfl⟩ rfl rfl rfl h.stopRequested rfl ?_
      rintro k hk
      cases hk
      exact fun _ hr => absurd (hreg.symm.trans hr) (by decide)
    · rw [if_neg hreg] at hs
      have hreg' := Bool.not_eq_false _ ▸ hreg
      by_cases hclosing : s.closing = true
      · rw [if_pos hclosing] at hs
        by_cases hzero : s.teardownGuestCalls = 0
        · rw [if_pos hzero] at hs
          cases hs
          refine h.other ⟨rfl, rfl, rfl, rfl⟩ rfl rfl rfl (fun _ => hclosing) rfl ?_
          rintro k hk
          cases hk
          exact fun _ _ => ⟨rfl, fun _ => hzero⟩
        · rw [if_neg hzero] at hs
          cases hs
          refine h.other ⟨rfl, rfl, rfl, rfl⟩ rfl rfl rfl (fun _ => hclosing) rfl ?_
          rintro k hk
          cases hk
          exact ⟨hreg', fun _ => ⟨rfl, Nat.pos_of_ne_zero hzero⟩⟩
      · rw [if_neg hclosing] at hs
        cases hs
        refine h.other ⟨rfl, rfl, rfl, rfl⟩ rfl rfl rfl h.stopRequested rfl ?_
        rintro k hk
        cases hk
        exact ⟨hreg', fun hc => absurd hc hclosing⟩

theorem Inv.ret (h : Inv s) (hs : s.ret = some s') : Inv s' := by
  unfold State.ret at hs
  split at hs
  · cases hs
    exact h.other ⟨rfl, rfl, rfl, rfl⟩ rfl rfl rfl h.stopRequested rfl (by simp)
  · cases hs
    exact h.other ⟨rfl, rfl, rfl, rfl⟩ rfl rfl rfl h.stopRequested rfl (by simp)
  · cases hs

variable [DecidableEq ρ] {r : ρ}

theorem Inv.callback (h : Inv s) (hs : s.callback r = some s') : Inv s' := by
  unfold State.callback at hs
  split at hs
  · cases hs
  · rename_i hguard
    obtain ⟨hat, -, -⟩ := by simpa only [not_or] using hguard
    cases hs
    have hiso := isolate_of_atEngine (Bool.not_eq_false _ ▸ hat)
    refine h.unlocked (h.stage.push hiso ⟨rfl, rfl, rfl, rfl⟩ rfl ?_) ?_ ?_
      ⟨rfl, rfl, rfl, rfl, rfl⟩
    · exact ⟨fun _ => rfl, fun _ => rfl⟩
    · simp [h.guestCalls, Frame.isCall]
    · simp [Frame.isCounted]

theorem Inv.request (h : Inv s) {r : Option ρ} (hs : s.request r = some s') : Inv s' := by
  unfold State.request at hs
  split at hs
  · cases hs
  · rename_i hguard
    obtain ⟨hat, -⟩ := not_or.mp hguard
    split at hs
    · exact Option.some.inj hs ▸ h
    · rename_i hopen
      obtain ⟨-, hclosing⟩ := not_or.mp hopen
      cases r with
      | none => exact Option.some.inj hs ▸ h
      | some r =>
        dsimp only at hs
        split at hs
        · cases hs
        · cases hs
          have hiso := isolate_of_atEngine (Bool.not_eq_false _ ▸ hat)
          refine h.unlocked (h.stage.push hiso ⟨rfl, rfl, rfl, rfl⟩ rfl ?_) ?_ ?_
            ⟨rfl, rfl, rfl, rfl, rfl⟩
          · exact ⟨fun _ => rfl, fun hc => absurd hc hclosing⟩
          · simp [h.guestCalls, Frame.isCall]
          · simp [Frame.isCounted]

theorem Inv.abandon (h : Inv s) (hs : s.abandon = some s') : Inv s' := by
  unfold State.abandon at hs
  split at hs
  · rename_i r fs hstack
    split at hs
    · cases hs
    · cases hs
      exact h.bookkeeping [] hstack (Or.inl rfl) rfl (by simp) (by simp) ⟨rfl, rfl, rfl, rfl⟩ rfl
        ⟨rfl, rfl, rfl, rfl⟩
  · cases hs

theorem Inv.drop (h : Inv s) (hs : s.drop r = some s') : Inv s' := by
  unfold State.drop at hs
  split at hs
  · cases hs
  · cases hs
    exact h.unlocked (h.stage.congr ⟨rfl, rfl, rfl, rfl⟩ rfl) h.guestCalls rfl
      ⟨rfl, rfl, rfl, rfl, rfl⟩

theorem Inv.ask (h : Inv s) {r : Option ρ} (hs : s.ask r = some s') : Inv s' := by
  have hanswered : ∀ k : Holder ρ, some Holder.answered = some k →
      HolderOk { s with held := some .answered } k := by
    intro k hk
    cases hk
    trivial
  unfold State.ask at hs
  split at hs
  · cases hs
  · split at hs
    · cases hs
      exact h.other ⟨rfl, rfl, rfl, rfl⟩ rfl rfl rfl h.stopRequested rfl hanswered
    · rename_i hopen
      obtain ⟨-, hclosing⟩ := not_or.mp hopen
      cases r with
      | none =>
        cases hs
        exact h.other ⟨rfl, rfl, rfl, rfl⟩ rfl rfl rfl h.stopRequested rfl hanswered
      | some r =>
        dsimp only at hs
        split at hs
        · cases hs
        · cases hs
          refine h.other ⟨rfl, rfl, rfl, rfl⟩ rfl rfl rfl h.stopRequested rfl ?_
          intro k hk
          cases hk
          exact eq_false_of_ne_true hclosing

theorem Inv.engine (h : Inv s) {ok : Bool} (hs : s.engine ok = some s') : Inv s' := by
  unfold State.engine at hs
  split at hs
  · rename_i hheld
    obtain ⟨-, hterm⟩ := h.held _ hheld
    cases hs
    refine h.other ⟨rfl, rfl, rfl, rfl⟩ rfl rfl rfl h.stopRequested rfl ?_
    intro k hk
    cases hk
    exact fun hc _ => ⟨(hterm hc).1, nofun⟩
  · rename_i r hheld
    have hopen := h.held _ hheld
    cases ok with
    | true =>
      cases hs
      refine h.other ⟨rfl, rfl, rfl, rfl⟩ rfl rfl rfl h.stopRequested rfl ?_
      intro k hk
      cases hk
      trivial
    | false =>
      cases hs
      refine h.other ⟨rfl, rfl, rfl, rfl⟩ rfl rfl rfl h.stopRequested rfl ?_
      intro k hk
      cases hk
      exact hopen
  · cases hs
    refine h.other ⟨rfl, rfl, rfl, rfl⟩ rfl rfl rfl h.stopRequested rfl ?_
    intro k hk
    cases hk
    trivial
  · cases hs

theorem Inv.step (h : Inv s) {a : Act ρ} (hs : step s a = some s') : Inv s' := by
  cases a with
  | enter => exact h.enter hs
  | leave => exact h.leave hs
  | dispose => exact h.dispose hs
  | release => exact h.release hs
  | unregister => exact h.unregister hs
  | sweep => exact h.sweep hs
  | callback r => exact h.callback hs
  | service ctx => exact h.service hs
  | finish => exact h.finish hs
  | request r => exact h.request hs
  | enqueue ok => exact h.enqueue hs
  | abandon => exact h.abandon hs
  | drop r => exact h.drop hs
  | terminate => exact h.terminate hs
  | ask r => exact h.ask hs
  | engine ok => exact h.engine hs
  | ret => exact h.ret hs

theorem inv_run {as : List (Act ρ)} (hr : Run.run Teardown.step {} as = some s) : Inv s :=
  Run.invariant (fun _ _ _ hs h => h.step hs) hr inv_init

end

end WasmerNapi.Bridge.Teardown
