import WasmerNapi.Lib.Run
import WasmerNapi.Lib.Table

/-!
# Isolates of the V8 platform

`src/v8/src/edge_v8_platform.cc`: the platform counts the foreground tasks of an isolate that it
has handed out, and runs the callbacks that were added for the isolate when it shuts down and no
task is left. A state belongs to one registration of an isolate; `isolates_` is the map from
isolates to states, with a mutex of its own, and each state has one too.

A step is one block under a mutex, or one callback. Any number of calls may be underway, on any
threads, and each is where its next block begins. `AddIsolateFinishedCallback` looks the state up
in one block and adds the callback in another; a state that has finished in between takes no
callback and runs none, and `MaybeFinishIsolate`, which is called for it, returns at once.
-/

namespace WasmerNapi.V8.Isolates

open Function (update update_self update_of_ne)
open Run
open Table (lookup_erase_iff lookup_insert_iff update_cases update_fresh
  update_ne_none update_none_cases)

/-- `EdgeV8Platform::IsolateState`. Callbacks are numbers. -/
structure IsolateState (A : Type) where
  isolate : A
  pendingForegroundTasks : ℕ := 0
  shutdownStarted : Bool := false
  finished : Bool := false
  finishedCallbacks : List ℕ := []

/-- A task handed out with a state. It was counted unless the state had finished. -/
structure TaskRecord where
  state : ℕ
  counted : Bool
  deriving DecidableEq

/-- What follows a `MaybeFinishIsolate`: nothing; in `NotifyIsolateShutdown` under
    `DisposeIsolate`, the rest of that; and at its end, the return. -/
inductive Then (A : Type) where
  | ret
  | dispose (isolate : A) (state : Option ℕ)
  | disposed (isolate : A)
  deriving DecidableEq

/-- A call that is underway, by the block that comes next. -/
inductive Call (A : Type) where
  | beginShutdown (i : ℕ) (k : Then A)
  | notify (isolate : A) (k : Then A)
  | maybeFinish (i : ℕ) (k : Then A)
  | eraseIsolate (i : ℕ) (callbacks : List ℕ) (k : Then A)
  | runCallbacks (i : ℕ) (callbacks : List ℕ) (k : Then A)
  | addCallback (i : ℕ) (callback : ℕ)
  | unregister (isolate : A) (state : Option ℕ)
  | disposed (isolate : A)
  deriving DecidableEq

/-- `target` is the state that `AddIsolateFinishedCallback` found for each callback, and `runs`
    counts the calls of it. `early` says that one was called with a counted task of its state
    outstanding, and `left` that a `DisposeIsolate` returned with the isolate in the map. -/
structure State (A : Type) where
  isolates : A → Option ℕ := fun _ => none
  next : ℕ := 0
  state : ℕ → Option (IsolateState A) := fun _ => none
  nextTask : ℕ := 0
  tasks : AList (fun _ : ℕ => TaskRecord) := ∅
  nextCall : ℕ := 0
  calls : AList (fun _ : ℕ => Call A) := ∅
  nextCallback : ℕ := 0
  target : ℕ → Option ℕ := fun _ => none
  runs : ℕ → ℕ := fun _ => 0
  early : Bool := false
  left : Bool := false

/-- `post` is `AddPendingForegroundTask` in a `PostTaskCommon` that has got past its test of
    `shutting_down_`. `complete` is a `CompletePendingForegroundTask`, for the hook's records and
    the fallback's tasks alike. -/
inductive Act (A : Type) where
  | register (isolate : A)
  | unregister (isolate : A)
  | post (i : ℕ)
  | complete (task : ℕ)
  | addIsolateFinishedCallback (isolate : A)
  | notifyIsolateShutdown (isolate : A)
  | disposeIsolate (isolate : A)
  | advance (call : ℕ)
  deriving DecidableEq

namespace State

variable {A : Type} [DecidableEq A]

section

omit [DecidableEq A]

def setState (s : State A) (i : ℕ) (st : IsolateState A) : State A :=
  { s with state := update s.state i (some st) }

/-- A call that has just begun. -/
def spawn (s : State A) (call : Call A) : State A :=
  { s with calls := s.calls.insert s.nextCall call, nextCall := s.nextCall + 1 }

def goto (s : State A) (c : ℕ) (call : Call A) : State A :=
  { s with calls := s.calls.insert c call }

/-- A `MaybeFinishIsolate` returns. -/
def return_ (s : State A) (c : ℕ) : Then A → State A
  | .ret => { s with calls := s.calls.erase c }
  | .dispose isolate state => s.goto c (.unregister isolate state)
  | .disposed isolate => s.goto c (.disposed isolate)

end

/-- `EnsureState`. -/
def ensureState (s : State A) (a : A) : State A :=
  match s.isolates a with
  | some _ => s
  | none =>
    { s with
      isolates := update s.isolates a (some s.next)
      state := update s.state s.next (some { isolate := a })
      next := s.next + 1 }

def unregisterIsolate (s : State A) (a : A) : State A :=
  { s with isolates := update s.isolates a none }

section

omit [DecidableEq A]

/-- The tasks of the state that were counted and are not cleaned up. -/
def outstanding (s : State A) (i : ℕ) : ℕ :=
  Table.total (fun _ r => if r.state = i && r.counted then 1 else 0) s.tasks

/-- All that are not cleaned up. -/
def handedOut (s : State A) (i : ℕ) : ℕ := Table.total (fun _ r => if r.state = i then 1 else 0) s.tasks

def addPendingForegroundTask (s : State A) (i : ℕ) (st : IsolateState A) : State A :=
  let s := { s with
    tasks := s.tasks.insert s.nextTask ⟨i, !st.finished⟩
    nextTask := s.nextTask + 1 }
  if st.finished then s
  else s.setState i { st with pendingForegroundTasks := st.pendingForegroundTasks + 1 }

/-- The first block of `CompletePendingForegroundTask`; the record is cleaned up. -/
def completePendingForegroundTask (s : State A) (task i : ℕ) (st : IsolateState A) : State A :=
  let s := { s with tasks := s.tasks.erase task }
  let s :=
    if 0 < st.pendingForegroundTasks then
      s.setState i { st with pendingForegroundTasks := st.pendingForegroundTasks - 1 }
    else s
  s.spawn (.maybeFinish i .ret)

end

/-- The next block of a call. -/
def advance (s : State A) (c : ℕ) : Call A → Option (State A)
  | .notify a k =>
    match s.isolates a with
    | none => some (s.return_ c k)
    | some i => some (s.goto c (.beginShutdown i k))
  | .beginShutdown i k =>
    (s.state i).map fun st =>
      (s.setState i { st with shutdownStarted := true }).goto c (.maybeFinish i k)
  | .maybeFinish i k =>
    (s.state i).map fun st =>
      if st.finished || !st.shutdownStarted || st.pendingForegroundTasks != 0 then s.return_ c k
      else
        (s.setState i { st with finished := true, finishedCallbacks := [] }).goto c
          (.eraseIsolate i st.finishedCallbacks k)
  | .eraseIsolate i callbacks k =>
    (s.state i).map fun st =>
      let s := if s.isolates st.isolate = some i then s.unregisterIsolate st.isolate else s
      s.goto c (.runCallbacks i callbacks k)
  | .runCallbacks _ [] k => some (s.return_ c k)
  | .runCallbacks i (callback :: callbacks) k =>
    some ({ s with
      runs := update s.runs callback (s.runs callback + 1)
      early := s.early || decide (s.outstanding i ≠ 0) }.goto c (.runCallbacks i callbacks k))
  | .addCallback i callback =>
    (s.state i).map fun st =>
      if st.finished then s.goto c (.maybeFinish i .ret)
      else
        let s := s.setState i { st with finishedCallbacks := st.finishedCallbacks ++ [callback] }
        if st.shutdownStarted && st.pendingForegroundTasks == 0 then s.goto c (.maybeFinish i .ret)
        else s.return_ c .ret
  | .unregister a state =>
    let s := s.unregisterIsolate a
    match state with
    | none => some (s.goto c (.disposed a))
    | some i => some (s.goto c (.maybeFinish i (.disposed a)))
  | .disposed a =>
    some { s.return_ c .ret with left := s.left || (s.isolates a).isSome }

end State

variable {A : Type} [DecidableEq A]

def step (s : State A) : Act A → Option (State A)
  | .register a => some (s.ensureState a)
  | .unregister a => some (s.unregisterIsolate a)
  | .post i => (s.state i).map fun st => s.addPendingForegroundTask i st
  | .complete task =>
    match s.tasks.lookup task with
    | none => none
    | some r => (s.state r.state).map fun st => s.completePendingForegroundTask task r.state st
  | .addIsolateFinishedCallback a =>
    let callback := s.nextCallback
    match s.isolates a with
    -- Not registered: it is called at once.
    | none =>
      some { s with
        nextCallback := callback + 1
        runs := update s.runs callback (s.runs callback + 1) }
    | some i =>
      some ({ s with
        nextCallback := callback + 1
        target := update s.target callback (some i) }.spawn (.addCallback i callback))
  | .notifyIsolateShutdown a => some (s.spawn (.notify a .ret))
  | .disposeIsolate a => some (s.spawn (.notify a (.dispose a (s.isolates a))))
  | .advance c =>
    match s.calls.lookup c with
    | none => none
    | some call => s.advance c call

/-- What the callbacks, the count and the map are to be. -/
structure Finishes (s : State A) : Prop where
  once : ∀ callback, s.runs callback ≤ 1
  ran : s.calls = ∅ → ∀ callback i st, s.target callback = some i → s.state i = some st →
    st.finished = true → s.runs callback = 1
  counted : ∀ i st, s.state i = some st → st.finished = false →
    st.pendingForegroundTasks = s.handedOut i
  notEarly : s.early = false
  unmapped : s.left = false

/-- The call is a `DisposeIsolate` past its `UnregisterIsolate`. -/
def Call.leaving (a : A) : Call A → Bool
  | .maybeFinish _ k | .eraseIsolate _ _ k | .runCallbacks _ _ k | .beginShutdown _ k | .notify _ k =>
    decide (k = .disposed a)
  | .disposed a' => decide (a' = a)
  | .addCallback _ _ | .unregister _ _ => false

/-- A callback is added to a state that has not finished since it was looked up. -/
def Call.timely (s : State A) : Call A → Bool
  | .addCallback i _ => (s.state i).all fun st => !st.finished
  | .notify _ _ | .beginShutdown _ _ | .maybeFinish _ _ | .eraseIsolate _ _ _ | .runCallbacks _ _ _
  | .unregister _ _ | .disposed _ => true

/-- Besides, an isolate is not registered again between its `UnregisterIsolate` and the return of
    `DisposeIsolate`. -/
def Safe (s : State A) : Act A → Prop
  | .register a => ∀ e ∈ s.calls.entries, e.2.leaving a = false
  | .advance c => (s.calls.lookup c).all (fun call => call.timely s) = true
  | .unregister _ | .post _ | .complete _ | .addIsolateFinishedCallback _
  | .notifyIsolateShutdown _ | .disposeIsolate _ => True

instance (s : State A) : ∀ a, Decidable (Safe s a)
  | .register _ => inferInstanceAs (Decidable (∀ e ∈ s.calls.entries, _))
  | .advance _ => inferInstanceAs (Decidable (_ = _))
  | .unregister _ | .post _ | .complete _ | .addIsolateFinishedCallback _
  | .notifyIsolateShutdown _ | .disposeIsolate _ => inferInstanceAs (Decidable True)

/-! ## The invariant -/

/-- How often a call underway is to run the callback, or to add it. -/
def Call.weight (callback : ℕ) : Call A → ℕ
  | .addCallback _ callback' => if callback' = callback then 1 else 0
  | .eraseIsolate _ callbacks _ | .runCallbacks _ callbacks _ => callbacks.count callback
  | .notify _ _ | .beginShutdown _ _ | .maybeFinish _ _ | .unregister _ _ | .disposed _ => 0

/-- The state whose callbacks the call is running. -/
def Call.finishing : Call A → Option ℕ
  | .eraseIsolate i _ _ | .runCallbacks i _ _ => some i
  | .notify _ _ | .beginShutdown _ _ | .maybeFinish _ _ | .addCallback _ _ | .unregister _ _
  | .disposed _ => none

def State.inCalls (s : State A) (callback : ℕ) : ℕ := Table.total (fun _ call => call.weight callback) s.calls

/-- All but the calls, with `w` for what is in them of each callback. -/
structure Base (s : State A) (w : ℕ → ℕ) : Prop where
  fresh : ∀ i, s.next ≤ i → s.state i = none
  mapped : ∀ a i, s.isolates a = some i → s.state i ≠ none
  targets : ∀ callback i, s.target callback = some i → callback < s.nextCallback ∧ s.state i ≠ none
  count : ∀ callback i st, s.target callback = some i → s.state i = some st →
    st.finishedCallbacks.count callback + w callback + s.runs callback = 1
  loose : ∀ callback, s.target callback = none →
    w callback = 0 ∧ s.runs callback ≤ 1 ∧ (s.nextCallback ≤ callback → s.runs callback = 0)
  owner : ∀ i st callback, s.state i = some st → callback ∈ st.finishedCallbacks →
    s.target callback = some i
  finished : ∀ i st, s.state i = some st → st.finished = true →
    st.finishedCallbacks = [] ∧ st.pendingForegroundTasks = 0
  pending : ∀ i st, s.state i = some st → st.pendingForegroundTasks = s.outstanding i
  tasks : ∀ t r, s.tasks.lookup t = some r → t < s.nextTask ∧ r.state < s.next
  uncounted : ∀ t r, s.tasks.lookup t = some r → r.counted = false →
    ∃ st, s.state r.state = some st ∧ st.finished = true
  notEarly : s.early = false
  unmapped : s.left = false

/-- The call runs the callbacks of a state that has finished, and an isolate it has taken out of
    the map has stayed out. -/
structure CallOk (s : State A) (call : Call A) : Prop where
  finishing : ∀ i, call.finishing = some i → ∃ st, s.state i = some st ∧ st.finished = true
  leaving : ∀ a, call.leaving a = true → s.isolates a = none
  adding : ∀ i callback, call = .addCallback i callback → s.target callback = some i

structure Inv (s : State A) : Prop where
  base : Base s s.inCalls
  fresh : ∀ c call, s.calls.lookup c = some call → c < s.nextCall
  calls : ∀ c call, s.calls.lookup c = some call → CallOk s call

section

variable {s t : State A} {w w' : ℕ → ℕ}

variable {i : ℕ} {st st' : IsolateState A}

/-- `st'` in place of `st` for state `i`, with callbacks that go over to the calls or come from
    them. -/
structure Alters (s : State A) (i : ℕ) (st st' : IsolateState A) (w w' : ℕ → ℕ) : Prop where
  finished : st.finished = true → st'.finished = true
  count : ∀ callback, s.target callback = some i →
    st'.finishedCallbacks.count callback + w' callback =
      st.finishedCallbacks.count callback + w callback
  other : ∀ callback, s.target callback ≠ some i → w' callback = w callback
  owner : ∀ callback ∈ st'.finishedCallbacks, s.target callback = some i
  done : st'.finished = true → st'.finishedCallbacks = [] ∧ st'.pendingForegroundTasks = 0

omit [DecidableEq A] in
/-- One state changes, and the tasks of it. -/
theorem Base.change {tasks : AList fun _ : ℕ => TaskRecord} {nextTask : ℕ} (hb : Base s w)
    (hi : s.state i = some st)
    (htasks : ∀ t r, tasks.lookup t = some r → t < nextTask ∧ r.state < s.next)
    (huncounted : ∀ t r, tasks.lookup t = some r → r.counted = false →
      ∃ st, s.state r.state = some st ∧ st.finished = true)
    (houtstanding : ∀ j, j ≠ i → ({ s with tasks } : State A).outstanding j = s.outstanding j)
    (ha : Alters s i st st' w w')
    (hpending : st'.pendingForegroundTasks = ({ s with tasks } : State A).outstanding i) :
    Base ({ s with tasks, nextTask }.setState i st') w' := by
  refine ⟨?_, ?_, ?_, ?_, ?_, ?_, ?_, ?_, htasks, ?_, hb.notEarly, hb.unmapped⟩
  · intro j hle
    exact update_fresh hb.fresh hi hle
  · intro a j hj
    exact update_ne_none (hb.mapped a j hj)
  · intro callback j hj
    exact ⟨(hb.targets callback j hj).1, update_ne_none (hb.targets callback j hj).2⟩
  · intro callback j st₁ hj hst
    rcases update_cases hst with ⟨rfl, rfl⟩ | ⟨hne, hst'⟩
    · show st₁.finishedCallbacks.count callback + w' callback + s.runs callback = 1
      rw [ha.count callback hj]
      exact hb.count callback j st hj hi
    · show st₁.finishedCallbacks.count callback + w' callback + s.runs callback = 1
      have hj' : s.target callback = some j := hj
      rw [ha.other callback fun heq => hne (Option.some.inj (hj'.symm.trans heq))]
      exact hb.count callback j st₁ hj hst'
  · intro callback hnone
    obtain ⟨hw, hruns, hnew⟩ := hb.loose callback hnone
    refine ⟨?_, hruns, hnew⟩
    have hnone' : s.target callback = none := hnone
    rw [ha.other callback (by rw [hnone']; exact (Option.some_ne_none i).symm), hw]
  · intro j st₁ callback hst hmem
    rcases update_cases hst with ⟨rfl, rfl⟩ | ⟨_, hst'⟩
    · exact ha.owner callback hmem
    · exact hb.owner j st₁ callback hst' hmem
  · intro j st₁ hst hf
    rcases update_cases hst with ⟨_, rfl⟩ | ⟨_, hst'⟩
    · exact ha.done hf
    · exact hb.finished j st₁ hst' hf
  · intro j st₁ hst
    rcases update_cases hst with ⟨rfl, rfl⟩ | ⟨hne, hst'⟩
    · exact hpending
    · exact (hb.pending j st₁ hst').trans (houtstanding j hne).symm
  · intro t r hr hc
    obtain ⟨st₁, hst, hf⟩ := huncounted t r hr hc
    by_cases heq : r.state = i
    · rw [heq] at hst ⊢
      obtain rfl := Option.some.inj (hi.symm.trans hst)
      exact ⟨st', update_self .., ha.finished hf⟩
    · exact ⟨st₁, (update_of_ne heq ..).trans hst, hf⟩

omit [DecidableEq A] in
theorem Base.setState (hb : Base s w) (hi : s.state i = some st) (ha : Alters s i st st' w w')
    (hpending : st'.pendingForegroundTasks = s.outstanding i) : Base (s.setState i st') w' :=
  hb.change hi hb.tasks hb.uncounted (fun _ _ => rfl) ha hpending

/-- The map changes, in a way that is no registration. -/
theorem Base.unregister (hb : Base s w) (a : A) : Base (s.unregisterIsolate a) w := by
  refine { hb with mapped := ?_ }
  intro b i hi
  exact hb.mapped b i (update_none_cases hi).2

omit [DecidableEq A] in
theorem Base.goto {c : ℕ} {call : Call A} (hb : Base s w) : Base (s.goto c call) w :=
  { hb with }

theorem CallOk.mono {call : Call A} (h : CallOk s call)
    (hfin : ∀ i st, s.state i = some st → st.finished = true →
      ∃ st', t.state i = some st' ∧ st'.finished = true)
    (hmap : ∀ a, s.isolates a = none → t.isolates a = none)
    (htarget : ∀ callback i, s.target callback = some i → t.target callback = some i) :
    CallOk t call := by
  refine ⟨?_, fun a ha => hmap a (h.leaving a ha), fun i callback hc =>
    htarget callback i (h.adding i callback hc)⟩
  intro i hi
  obtain ⟨st, hst, hf⟩ := h.finishing i hi
  exact hfin i st hst hf

section

variable {c : ℕ} {call call' : Call A}

/-- A call gets on, after a change of everything but the calls. -/
theorem goto_inv (hi : Inv s) (hc : s.calls.lookup c = some call) (hcalls : t.calls = s.calls)
    (hnext : t.nextCall = s.nextCall)
    (hbase : ∀ w, (∀ callback, w callback + call.weight callback =
      call'.weight callback + s.inCalls callback) → Base t w)
    (hkeep : ∀ call, CallOk s call → CallOk t call) (hnew : CallOk t call') :
    Inv (t.goto c call') := by
  have hcases : ∀ c₁ call₁, (t.calls.insert c call').lookup c₁ = some call₁ →
      c₁ = c ∧ call₁ = call' ∨ c₁ ≠ c ∧ s.calls.lookup c₁ = some call₁ := by
    intro c₁ call₁ h₁
    rwa [hcalls, lookup_insert_iff] at h₁
  refine ⟨Base.goto (hbase _ ?_), ?_, ?_⟩
  · intro callback
    show Table.total (fun _ call => call.weight callback) (t.calls.insert c call') + call.weight callback = _
    rw [hcalls]
    exact Table.total_insert_of_lookup (fun _ call => call.weight callback) hc call'
  · intro c₁ call₁ h₁
    show c₁ < t.nextCall
    rw [hnext]
    rcases hcases c₁ call₁ h₁ with ⟨rfl, _⟩ | ⟨_, h₁'⟩
    · exact hi.fresh c₁ call hc
    · exact hi.fresh c₁ call₁ h₁'
  · intro c₁ call₁ h₁
    have hok : CallOk t call₁ := by
      rcases hcases c₁ call₁ h₁ with ⟨_, rfl⟩ | ⟨_, h₁'⟩
      · exact hnew
      · exact hkeep call₁ (hi.calls c₁ call₁ h₁')
    exact { hok with }

/-- A call ends, after a change of everything but the calls. -/
theorem erase_inv (hi : Inv s) (hc : s.calls.lookup c = some call) (hcalls : t.calls = s.calls)
    (hnext : t.nextCall = s.nextCall)
    (hbase : ∀ w, (∀ callback, w callback + call.weight callback = s.inCalls callback) → Base t w)
    (hkeep : ∀ call, CallOk s call → CallOk t call) : Inv { t with calls := t.calls.erase c } := by
  have hcases : ∀ c₁ call₁, (t.calls.erase c).lookup c₁ = some call₁ → s.calls.lookup c₁ = some call₁ := by
    intro c₁ call₁ h₁
    rw [hcalls] at h₁
    exact (lookup_erase_iff.mp h₁).2
  have hb : Base t ({ t with calls := t.calls.erase c } : State A).inCalls := by
    refine hbase _ ?_
    intro callback
    show Table.total (fun _ call => call.weight callback) (t.calls.erase c) + call.weight callback = _
    rw [hcalls]
    exact Table.total_erase (fun _ call => call.weight callback) hc
  refine ⟨{ hb with }, ?_, ?_⟩
  · intro c₁ call₁ h₁
    show c₁ < t.nextCall
    rw [hnext]
    exact hi.fresh c₁ call₁ (hcases c₁ call₁ h₁)
  · intro c₁ call₁ h₁
    have hok := hkeep call₁ (hi.calls c₁ call₁ (hcases c₁ call₁ h₁))
    exact { hok with }

/-- A `MaybeFinishIsolate` returns, and what follows it is in order. -/
theorem return_inv {k : Then A} (hi : Inv s) (hc : s.calls.lookup c = some call)
    (hweight : ∀ callback, call.weight callback = 0)
    (hk : ∀ a, k = .disposed a → call.leaving a = true) : Inv (s.return_ c k) := by
  have hsame : ∀ w : ℕ → ℕ, (∀ callback, w callback = s.inCalls callback) → Base s w := by
    intro w hw
    rw [show w = s.inCalls from funext hw]
    exact hi.base
  have hgoto : ∀ w : ℕ → ℕ, (∀ callback, w callback + call.weight callback = 0 + s.inCalls callback) →
      Base s w := by
    intro w hw
    refine hsame w ?_
    intro callback
    have := hw callback
    rw [hweight] at this
    omega
  cases k with
  | ret =>
    refine erase_inv hi hc rfl rfl ?_ fun _ h => h
    intro w hw
    refine hsame w ?_
    intro callback
    have := hw callback
    rw [hweight] at this
    exact this
  | dispose a state =>
    exact goto_inv hi hc rfl rfl hgoto (fun _ h => h) ⟨nofun, nofun, nofun⟩
  | disposed a =>
    refine goto_inv hi hc rfl rfl hgoto (fun _ h => h) ⟨nofun, ?_, nofun⟩
    intro b hb
    obtain rfl : a = b := of_decide_eq_true hb
    exact (hi.calls c call hc).leaving a (hk a rfl)

end

omit [DecidableEq A] in
/-- What a call counts for stays what it is, when it takes no callback along. -/
theorem inCalls_eq {call call' : Call A} (hweight : ∀ callback, call.weight callback = call'.weight callback)
    (hw : ∀ callback, w callback + call.weight callback = call'.weight callback + s.inCalls callback) :
    w = s.inCalls := by
  funext callback
  have := hw callback
  rw [hweight] at this
  omega

omit [DecidableEq A] in
theorem setState_finished (hi : s.state i = some st)
    (hfin : st.finished = true → st'.finished = true) :
    ∀ j st₁, s.state j = some st₁ → st₁.finished = true →
      ∃ st₂, (s.setState i st').state j = some st₂ ∧ st₂.finished = true := by
  intro j st₁ hj hf
  by_cases heq : j = i
  · rw [heq] at hj ⊢
    rw [Option.some.inj (hi.symm.trans hj)] at hfin
    exact ⟨st', update_self .., hfin hf⟩
  · exact ⟨st₁, (update_of_ne heq ..).trans hj, hf⟩

variable {k : Then A}

theorem beginShutdown_inv {c : ℕ} (hi : Inv s) (hc : s.calls.lookup c = some (.beginShutdown i k))
    (hst : s.state i = some st) :
    Inv ((s.setState i { st with shutdownStarted := true }).goto c (.maybeFinish i k)) := by
  have hok := hi.calls c _ hc
  refine goto_inv hi hc rfl rfl ?_ (fun _ h => h.mono (setState_finished hst id) (fun _ h => h)
    fun _ _ h => h) ⟨nofun, ?_, nofun⟩
  · intro w hw
    rw [inCalls_eq (fun _ => rfl) hw]
    exact hi.base.setState hst ⟨id, fun _ _ => rfl, fun _ _ => rfl,
      fun callback hmem => hi.base.owner i st callback hst hmem, hi.base.finished i st hst⟩
      (hi.base.pending i st hst)
  · intro a ha
    exact hok.leaving a ha

/-- The block that marks the state finished takes its callbacks along. -/
theorem finish_inv {c : ℕ} (hi : Inv s) (hc : s.calls.lookup c = some (.maybeFinish i k))
    (hst : s.state i = some st) (hpending : st.pendingForegroundTasks = 0) :
    Inv ((s.setState i { st with finished := true, finishedCallbacks := [] }).goto c
      (.eraseIsolate i st.finishedCallbacks k)) := by
  have hok := hi.calls c _ hc
  refine goto_inv hi hc rfl rfl ?_
    (fun _ h => h.mono (setState_finished hst fun _ => rfl) (fun _ h => h) fun _ _ h => h) ⟨?_, ?_, nofun⟩
  · intro w hw
    have hw : ∀ callback, w callback = st.finishedCallbacks.count callback + s.inCalls callback :=
      fun callback => hw callback
    refine hi.base.setState hst ⟨fun _ => rfl, ?_, ?_, ?_, fun _ => ⟨rfl, hpending⟩⟩
      (hi.base.pending i st hst)
    · intro callback _
      show 0 + w callback = _
      rw [hw, Nat.zero_add]
    · intro callback hne
      rw [hw, List.count_eq_zero_of_not_mem fun hmem => hne (hi.base.owner i st callback hst hmem), Nat.zero_add]
    · nofun
  · intro j hfin
    cases hfin
    exact ⟨_, update_self .., rfl⟩
  · intro a ha
    exact hok.leaving a ha

variable {callback : ℕ}

theorem Base.addCallback (hi : Inv s) (hst : s.state i = some st) (hfin : st.finished = false)
    (htarget : s.target callback = some i)
    (hw : ∀ cb, w cb + (if callback = cb then 1 else 0) = s.inCalls cb) :
    Base (s.setState i { st with finishedCallbacks := st.finishedCallbacks ++ [callback] }) w := by
  refine hi.base.setState hst ⟨id, ?_, ?_, ?_, ?_⟩ (hi.base.pending i st hst)
  · intro cb _
    have := hw cb
    show (st.finishedCallbacks ++ [callback]).count cb + w cb = _
    rw [List.count_append, List.count_singleton, ← this]
    by_cases heq : callback = cb
    · rw [if_pos heq, if_pos (beq_iff_eq.mpr heq)]
      omega
    · rw [if_neg heq, if_neg fun h => heq (beq_iff_eq.mp h)]
      omega
  · intro cb hne
    have := hw cb
    have heq : callback ≠ cb := by
      rintro rfl
      exact hne htarget
    rw [if_neg heq] at this
    exact this
  · intro cb hmem
    rcases List.mem_append.mp hmem with hmem | hmem
    · exact hi.base.owner i st cb hst hmem
    · rw [List.mem_singleton.mp hmem]
      exact htarget
  · intro hf
    rw [show st.finished = true from hf] at hfin
    cases hfin

theorem callback_inv {c : ℕ} (hi : Inv s) (hc : s.calls.lookup c = some (.addCallback i callback))
    (hst : s.state i = some st) (hfin : st.finished = false) {ready : Bool} :
    Inv (if ready then
        (s.setState i { st with finishedCallbacks := st.finishedCallbacks ++ [callback] }).goto c
          (.maybeFinish i .ret)
      else
        (s.setState i { st with finishedCallbacks := st.finishedCallbacks ++ [callback] }).return_ c .ret) := by
  have htarget := (hi.calls c _ hc).adding i callback rfl
  have hkeep : ∀ call, CallOk s call →
      CallOk (s.setState i { st with finishedCallbacks := st.finishedCallbacks ++ [callback] }) call :=
    fun _ h => h.mono (setState_finished hst id) (fun _ h => h) fun _ _ h => h
  cases ready with
  | true =>
    refine goto_inv hi hc rfl rfl ?_ hkeep ⟨nofun, ?_, nofun⟩
    · intro w hw
      exact Base.addCallback hi hst hfin htarget fun cb => (hw cb).trans (Nat.zero_add _)
    · intro a ha
      have hret : Then.ret = Then.disposed a := of_decide_eq_true (show decide _ = true from ha)
      cases hret
  | false =>
    refine erase_inv hi hc rfl rfl ?_ hkeep
    intro w hw
    exact Base.addCallback hi hst hfin htarget hw

/-- A callback is called, once and with nothing outstanding. -/
theorem runCallback_inv {c : ℕ} {callbacks : List ℕ} (hi : Inv s)
    (hc : s.calls.lookup c = some (.runCallbacks i (callback :: callbacks) k)) :
    Inv ({ s with
      runs := update s.runs callback (s.runs callback + 1)
      early := s.early || decide (s.outstanding i ≠ 0) }.goto c (.runCallbacks i callbacks k)) := by
  have hok := hi.calls c _ hc
  have hb := hi.base
  obtain ⟨st, hst, hf⟩ := hok.finishing i rfl
  have hout : s.outstanding i = 0 := (hb.pending i st hst).symm.trans (hb.finished i st hst hf).2
  have hearly : (s.early || decide (s.outstanding i ≠ 0)) = false := by
    rw [hb.notEarly, hout]
    rfl
  refine goto_inv hi hc rfl rfl ?_ (fun _ h => { h with }) ⟨?_, ?_, nofun⟩
  · intro w hw
    have hw : ∀ cb, w cb + (callback :: callbacks).count cb = callbacks.count cb + s.inCalls cb := hw
    have hself : w callback + 1 = s.inCalls callback := by
      have := hw callback
      rw [List.count_cons_self] at this
      omega
    have hother : ∀ cb, cb ≠ callback → w cb = s.inCalls cb := by
      intro cb hne
      have := hw cb
      rw [List.count_cons_of_ne hne.symm] at this
      omega
    refine { hb with count := ?_, loose := ?_, notEarly := hearly }
    · intro cb j st₁ htarget hst₁
      have hcount := hb.count cb j st₁ htarget hst₁
      show st₁.finishedCallbacks.count cb + w cb + update s.runs callback (s.runs callback + 1) cb = 1
      by_cases heq : cb = callback
      · subst heq
        rw [update_self]
        omega
      · rw [update_of_ne heq, hother cb heq]
        exact hcount
    · intro cb hnone
      obtain ⟨hzero, hle, hnew⟩ := hb.loose cb hnone
      have hne : cb ≠ callback := by
        rintro rfl
        omega
      show w cb = 0 ∧ update s.runs callback (s.runs callback + 1) cb ≤ 1 ∧
        (s.nextCallback ≤ cb → update s.runs callback (s.runs callback + 1) cb = 0)
      rw [update_of_ne hne]
      exact ⟨(hother cb hne).trans hzero, hle, hnew⟩
  · intro j hj
    exact hok.finishing j hj
  · intro a ha
    exact hok.leaving a ha

theorem unregister_none (s : State A) (a : A) {b : A} (h : s.isolates b = none) :
    (s.unregisterIsolate a).isolates b = none := by
  show update s.isolates a none b = none
  by_cases heq : b = a
  · rw [heq, update_self]
  · rw [update_of_ne heq, h]

theorem CallOk.unregister {call : Call A} (h : CallOk s call) (a : A) :
    CallOk (s.unregisterIsolate a) call :=
  h.mono (fun _ st hst hf => ⟨st, hst, hf⟩) (fun _ h => unregister_none s a h) fun _ _ h => h

theorem eraseIsolate_inv {c : ℕ} {callbacks : List ℕ} (hi : Inv s)
    (hc : s.calls.lookup c = some (.eraseIsolate i callbacks k)) :
    Inv ((if s.isolates st.isolate = some i then s.unregisterIsolate st.isolate else s).goto c
      (.runCallbacks i callbacks k)) := by
  have hok := hi.calls c _ hc
  split
  · refine goto_inv hi hc rfl rfl ?_ (fun _ h => h.unregister _) ⟨hok.finishing, ?_, nofun⟩
    · intro w hw
      rw [inCalls_eq (fun _ => rfl) hw]
      exact hi.base.unregister _
    · intro a ha
      exact unregister_none s _ (hok.leaving a ha)
  · refine goto_inv hi hc rfl rfl ?_ (fun _ h => h) ⟨hok.finishing, hok.leaving, nofun⟩
    intro w hw
    rw [inCalls_eq (fun _ => rfl) hw]
    exact hi.base

variable {a : A}

/-- The last block of `DisposeIsolate` under a mutex takes the isolate out of the map. -/
theorem unregister_inv {c : ℕ} {state : Option ℕ} {call' : Call A} (hi : Inv s)
    (hc : s.calls.lookup c = some (.unregister a state))
    (hweight : ∀ callback, call'.weight callback = 0) (hfin : call'.finishing = none)
    (hleaving : ∀ b, call'.leaving b = true → b = a)
    (hadd : ∀ i callback, call' ≠ .addCallback i callback) :
    Inv ((s.unregisterIsolate a).goto c call') := by
  refine goto_inv hi hc rfl rfl ?_ (fun _ h => h.unregister a) ⟨?_, ?_, ?_⟩
  · intro w hw
    have hsame : ∀ callback, Call.weight callback (.unregister a state) = call'.weight callback :=
      fun callback => (hweight callback).symm
    rw [inCalls_eq hsame hw]
    exact hi.base.unregister a
  · intro i hi
    rw [hfin] at hi
    cases hi
  · intro b hb
    rw [hleaving b hb]
    exact update_self ..
  · intro i callback heq
    exact absurd heq (hadd i callback)

theorem disposed_inv {c : ℕ} (hi : Inv s) (hc : s.calls.lookup c = some (.disposed a)) :
    Inv { s.return_ c .ret with left := s.left || (s.isolates a).isSome } := by
  have hnone : s.isolates a = none := (hi.calls c _ hc).leaving a (decide_eq_true rfl)
  have hleft : (s.left || (s.isolates a).isSome) = false := by
    rw [hi.base.unmapped, hnone]
    rfl
  have hret := return_inv (k := .ret) hi hc (fun _ => rfl) nofun
  have hb := hret.base
  refine ⟨{ hb with unmapped := hleft }, hret.fresh, ?_⟩
  intro c₁ call₁ h₁
  have hok := hret.calls c₁ call₁ h₁
  exact { hok with }

theorem advance_inv {c : ℕ} {call : Call A} (hi : Inv s) (hc : s.calls.lookup c = some call)
    (htimely : call.timely s = true) (h : s.advance c call = some t) : Inv t := by
  cases call with
  | notify a k =>
    unfold State.advance at h
    dsimp only at h
    have hok := hi.calls c _ hc
    split at h
    · cases h
      refine return_inv hi hc (fun _ => rfl) ?_
      intro b hb
      exact decide_eq_true hb
    · cases h
      refine goto_inv hi hc rfl rfl ?_ (fun _ h => h) ⟨fun _ h => (by cases h), hok.leaving, by simp⟩
      intro w hw
      rw [inCalls_eq (fun _ => rfl) hw]
      exact hi.base
  | beginShutdown i k =>
    obtain ⟨st, hst, rfl⟩ := Option.map_eq_some_iff.mp h
    exact beginShutdown_inv hi hc hst
  | maybeFinish i k =>
    obtain ⟨st, hst, rfl⟩ := Option.map_eq_some_iff.mp h
    split
    · refine return_inv hi hc (fun _ => rfl) ?_
      intro b hb
      exact decide_eq_true hb
    · rename_i hgo
      simp only [Bool.or_eq_true, bne_iff_ne, ne_eq, not_or, not_not] at hgo
      exact finish_inv hi hc hst hgo.2
  | eraseIsolate i callbacks k =>
    obtain ⟨st, _, rfl⟩ := Option.map_eq_some_iff.mp h
    exact eraseIsolate_inv hi hc
  | runCallbacks i callbacks k =>
    cases callbacks with
    | nil =>
      cases h
      refine return_inv hi hc (fun _ => rfl) ?_
      intro b hb
      exact decide_eq_true hb
    | cons callback callbacks =>
      cases h
      exact runCallback_inv hi hc
  | addCallback i callback =>
    obtain ⟨st, hst, rfl⟩ := Option.map_eq_some_iff.mp h
    have hfin : st.finished = false := by
      have htimely : (s.state i).all (fun st => !st.finished) = true := htimely
      rw [hst, Option.all_some, Bool.not_eq_true'] at htimely
      exact htimely
    dsimp only
    rw [if_neg (by rw [hfin]; exact Bool.false_ne_true)]
    exact callback_inv hi hc hst hfin
  | unregister a state =>
    unfold State.advance at h
    cases state with
    | none =>
      cases h
      refine unregister_inv hi hc (fun _ => rfl) rfl ?_ (by simp)
      intro b hb
      exact (of_decide_eq_true (show decide (a = b) = true from hb)).symm
    | some i =>
      cases h
      refine unregister_inv hi hc (fun _ => rfl) rfl ?_ (by simp)
      intro b hb
      have hk : Then.disposed a = Then.disposed b := of_decide_eq_true (show decide _ = true from hb)
      cases hk
      rfl
  | disposed a =>
    cases h
    exact disposed_inv hi hc

/-- A call begins, after a change of everything but the calls. -/
theorem spawn_inv {call : Call A} (hi : Inv s) (hcalls : t.calls = s.calls) (hnext : t.nextCall = s.nextCall)
    (hbase : ∀ w, (∀ callback, w callback = call.weight callback + s.inCalls callback) → Base t w)
    (hkeep : ∀ call, CallOk s call → CallOk t call) (hnew : CallOk t call) : Inv (t.spawn call) := by
  have hnot : s.nextCall ∉ s.calls := by
    intro hmem
    obtain ⟨call₁, h₁⟩ := Option.isSome_iff_exists.mp (AList.lookup_isSome.mpr hmem)
    exact lt_irrefl _ (hi.fresh _ call₁ h₁)
  have hb : Base t (t.spawn call).inCalls := by
    refine hbase _ ?_
    intro callback
    show Table.total (fun _ call => call.weight callback) (t.calls.insert t.nextCall call) = _
    rw [hcalls, hnext]
    exact Table.total_insert_of_notMem (fun _ call => call.weight callback) hnot call
  have hcases : ∀ c₁ call₁, (t.calls.insert t.nextCall call).lookup c₁ = some call₁ →
      c₁ = s.nextCall ∧ call₁ = call ∨ c₁ ≠ s.nextCall ∧ s.calls.lookup c₁ = some call₁ := by
    intro c₁ call₁ h₁
    rwa [hcalls, hnext, lookup_insert_iff] at h₁
  refine ⟨{ hb with }, ?_, ?_⟩
  · intro c₁ call₁ h₁
    show c₁ < t.nextCall + 1
    rw [hnext]
    rcases hcases c₁ call₁ h₁ with ⟨rfl, _⟩ | ⟨_, h₁'⟩
    · exact Nat.lt_succ_self _
    · exact Nat.lt_succ_of_lt (hi.fresh c₁ call₁ h₁')
  · intro c₁ call₁ h₁
    have hok : CallOk t call₁ := by
      rcases hcases c₁ call₁ h₁ with ⟨_, rfl⟩ | ⟨_, h₁'⟩
      · exact hnew
      · exact hkeep call₁ (hi.calls c₁ call₁ h₁')
    exact { hok with }

/-- A call that begins with no callback and nothing behind it. -/
theorem spawn_plain {call : Call A} (hi : Inv s) (hcalls : t.calls = s.calls)
    (hnext : t.nextCall = s.nextCall) (hbase : Base t s.inCalls)
    (hkeep : ∀ call, CallOk s call → CallOk t call) (hweight : ∀ callback, call.weight callback = 0)
    (hnew : CallOk t call) : Inv (t.spawn call) := by
  refine spawn_inv hi hcalls hnext ?_ hkeep hnew
  intro w hw
  have : w = s.inCalls := by
    funext callback
    rw [hw, hweight, Nat.zero_add]
  rw [this]
  exact hbase

omit [DecidableEq A] in
theorem mem_entries {c : ℕ} {call : Call A} (h : s.calls.lookup c = some call) :
    (⟨c, call⟩ : Σ _ : ℕ, Call A) ∈ s.calls.entries := AList.mem_lookup_iff.mp h

theorem register_inv (hi : Inv s) (hsafe : ∀ e ∈ s.calls.entries, e.2.leaving a = false) :
    Inv (s.ensureState a) := by
  unfold State.ensureState
  rcases hmap : s.isolates a with _ | i
  swap
  · exact hi
  have hb := hi.base
  have hout : s.outstanding s.next = 0 := by
    unfold State.outstanding Table.total
    rw [List.sum_eq_zero_iff]
    intro n hn
    obtain ⟨e, he, rfl⟩ := List.mem_map.mp hn
    have hlt := (hb.tasks e.1 e.2 (AList.mem_lookup_iff.mpr he)).2
    refine if_neg ?_
    intro hcond
    rw [Bool.and_eq_true, decide_eq_true_iff] at hcond
    exact lt_irrefl _ (hcond.1 ▸ hlt)
  have hold : ∀ {j st}, s.state j = some st → update s.state s.next (some { isolate := a }) j = some st := by
    intro j st hj
    have hne : j ≠ s.next := by
      rintro rfl
      rw [hb.fresh _ le_rfl] at hj
      cases hj
    exact (update_of_ne hne ..).trans hj
  have hnone : s.state s.next = none := hb.fresh _ le_rfl
  refine ⟨⟨?_, ?_, ?_, ?_, hb.loose, ?_, ?_, ?_, ?_, ?_, hb.notEarly, hb.unmapped⟩, hi.fresh, ?_⟩
  · intro j hle
    exact (update_of_ne (Nat.ne_of_gt hle) ..).trans (hb.fresh j (Nat.le_of_succ_le hle))
  · intro b j hj
    rcases update_cases hj with ⟨_, rfl⟩ | ⟨_, hj⟩
    · exact (update_self ..).trans_ne (Option.some_ne_none _)
    · exact update_ne_none (hb.mapped b j hj)
  · intro callback j hj
    exact ⟨(hb.targets callback j hj).1, update_ne_none (hb.targets callback j hj).2⟩
  · intro callback j st hj hst
    rcases update_cases hst with ⟨rfl, _⟩ | ⟨_, hst'⟩
    · exact absurd hnone (hb.targets callback _ hj).2
    · exact hb.count callback j st hj hst'
  · intro j st callback hst hmem
    rcases update_cases hst with ⟨_, rfl⟩ | ⟨_, hst'⟩
    · cases hmem
    · exact hb.owner j st callback hst' hmem
  · intro j st hst hf
    rcases update_cases hst with ⟨_, rfl⟩ | ⟨_, hst'⟩
    · cases hf
    · exact hb.finished j st hst' hf
  · intro j st hst
    rcases update_cases hst with ⟨rfl, rfl⟩ | ⟨_, hst'⟩
    · exact hout.symm
    · exact hb.pending j st hst'
  · intro task r hr
    exact ⟨(hb.tasks task r hr).1, Nat.lt_succ_of_lt (hb.tasks task r hr).2⟩
  · intro task r hr hc
    obtain ⟨st, hst, hf⟩ := hb.uncounted task r hr hc
    exact ⟨st, hold hst, hf⟩
  · intro c call hc
    have hok := hi.calls c call hc
    refine ⟨?_, ?_, hok.adding⟩
    · intro j hj
      obtain ⟨st, hst, hf⟩ := hok.finishing j hj
      exact ⟨st, hold hst, hf⟩
    · intro b hleave
      have hne : b ≠ a := by
        rintro rfl
        rw [hsafe _ (mem_entries hc)] at hleave
        cases hleave
      exact (update_of_ne hne ..).trans (hok.leaving b hleave)

omit [DecidableEq A] in
theorem setState_self (h : s.state i = some st) : s.setState i st = s := by
  unfold State.setState
  rw [← h, Function.update_eq_self]

omit [DecidableEq A] in
/-- The count of tasks of one state changes with the tasks. -/
theorem Base.setPending {tasks : AList fun _ : ℕ => TaskRecord} {nextTask pending : ℕ}
    (hb : Base s w) (hi : s.state i = some st)
    (htasks : ∀ t r, tasks.lookup t = some r → t < nextTask ∧ r.state < s.next)
    (huncounted : ∀ t r, tasks.lookup t = some r → r.counted = false →
      ∃ st, s.state r.state = some st ∧ st.finished = true)
    (houtstanding : ∀ j, j ≠ i → ({ s with tasks } : State A).outstanding j = s.outstanding j)
    (hpending : pending = ({ s with tasks } : State A).outstanding i)
    (hdone : st.finished = true → pending = 0) :
    Base ({ s with tasks, nextTask }.setState i { st with pendingForegroundTasks := pending }) w :=
  hb.change hi htasks huncounted houtstanding ⟨id, fun _ _ => rfl, fun _ _ => rfl,
    fun callback hmem => hb.owner i st callback hi hmem,
    fun hf => ⟨(hb.finished i st hi hf).1, hdone hf⟩⟩ hpending

/-- A task that is handed out is counted, unless the state has finished. -/
theorem post_inv (hi : Inv s) (hst : s.state i = some st) :
    Inv (s.addPendingForegroundTask i st) := by
  have hb := hi.base
  have hnot : s.nextTask ∉ s.tasks := by
    intro hmem
    obtain ⟨r, hr⟩ := Option.isSome_iff_exists.mp (AList.lookup_isSome.mpr hmem)
    exact lt_irrefl _ (hb.tasks _ r hr).1
  have hlt : i < s.next := by
    by_contra hle
    rw [hb.fresh i (not_lt.mp hle)] at hst
    cases hst
  set tasks := s.tasks.insert s.nextTask ⟨i, !st.finished⟩ with htasks
  have hcases : ∀ t r, tasks.lookup t = some r →
      t = s.nextTask ∧ r = ⟨i, !st.finished⟩ ∨ t ≠ s.nextTask ∧ s.tasks.lookup t = some r := by
    intro t r hr
    rwa [htasks, lookup_insert_iff] at hr
  have hout : ∀ j, ({ s with tasks } : State A).outstanding j =
      (if i = j && !st.finished then 1 else 0) + s.outstanding j :=
    fun j => Table.total_insert_of_notMem
      (fun _ (r : TaskRecord) => if r.state = j && r.counted then 1 else 0) hnot ⟨i, !st.finished⟩
  have hnew : ∀ t r, tasks.lookup t = some r → t < s.nextTask + 1 ∧ r.state < s.next := by
    intro t r hr
    rcases hcases t r hr with ⟨rfl, rfl⟩ | ⟨_, hr'⟩
    · exact ⟨Nat.lt_succ_self _, hlt⟩
    · exact ⟨Nat.lt_succ_of_lt (hb.tasks t r hr').1, (hb.tasks t r hr').2⟩
  have huncounted : ∀ t r, tasks.lookup t = some r → r.counted = false →
      ∃ st, s.state r.state = some st ∧ st.finished = true := by
    intro t r hr hc
    rcases hcases t r hr with ⟨_, rfl⟩ | ⟨_, hr'⟩
    · exact ⟨st, hst, by simpa using hc⟩
    · exact hb.uncounted t r hr' hc
  have hother : ∀ j, j ≠ i → ({ s with tasks } : State A).outstanding j = s.outstanding j := by
    intro j hne
    rw [hout, decide_eq_false hne.symm, Bool.false_and, if_neg Bool.false_ne_true, Nat.zero_add]
  have hself := hout i
  rw [decide_eq_true rfl, Bool.true_and] at hself
  have hpending := hb.pending i st hst
  -- In both cases the state is set, to what it was when it has finished.
  have hset : ∀ pending, pending = ({ s with tasks } : State A).outstanding i →
      (st.finished = true → pending = 0) →
      Inv ({ s with tasks, nextTask := s.nextTask + 1 }.setState i
        { st with pendingForegroundTasks := pending }) := by
    intro pending heq hdone
    refine ⟨hb.setPending hst hnew huncounted hother heq hdone, hi.fresh, ?_⟩
    intro c call hc
    have hok : CallOk (s.setState i { st with pendingForegroundTasks := pending }) call :=
      (hi.calls c call hc).mono (setState_finished hst id) (fun _ h => h) fun _ _ h => h
    exact { hok with }
  unfold State.addPendingForegroundTask
  dsimp only
  split
  · rename_i hf
    have hzero := (hb.finished i st hst hf).2
    rw [hf, Bool.not_true, if_neg Bool.false_ne_true] at hself
    have hinv := hset st.pendingForegroundTasks (by omega) fun _ => hzero
    rwa [setState_self (by exact hst)] at hinv
  · rename_i hf
    rw [if_pos (by simpa using hf)] at hself
    exact hset _ (by omega) fun hf' => absurd hf' hf

/-- A record that is cleaned up gives its count back. -/
theorem complete_inv {task : ℕ} {r : TaskRecord} (hi : Inv s) (hr : s.tasks.lookup task = some r)
    (hst : s.state r.state = some st) :
    Inv (s.completePendingForegroundTask task r.state st) := by
  have hb := hi.base
  have hlookup : ∀ t r', (s.tasks.erase task).lookup t = some r' → s.tasks.lookup t = some r' :=
    fun t r' ht => (lookup_erase_iff.mp ht).2
  have hout : ∀ j, ({ s with tasks := s.tasks.erase task } : State A).outstanding j +
      (if r.state = j && r.counted then 1 else 0) = s.outstanding j :=
    fun j => Table.total_erase (fun _ (r : TaskRecord) => if r.state = j && r.counted then 1 else 0) hr
  have hother : ∀ j, j ≠ r.state →
      ({ s with tasks := s.tasks.erase task } : State A).outstanding j = s.outstanding j := by
    intro j hne
    have := hout j
    rw [decide_eq_false hne.symm, Bool.false_and, if_neg Bool.false_ne_true, Nat.add_zero] at this
    exact this
  have hself := hout r.state
  rw [decide_eq_true rfl, Bool.true_and] at hself
  have hpending := hb.pending r.state st hst
  have hset : ∀ pending,
      pending = ({ s with tasks := s.tasks.erase task } : State A).outstanding r.state →
      (st.finished = true → pending = 0) →
      Inv (({ s with tasks := s.tasks.erase task }.setState r.state
        { st with pendingForegroundTasks := pending }).spawn (.maybeFinish r.state .ret)) := by
    intro pending heq hdone
    refine spawn_plain hi rfl rfl
      (hb.setPending hst (fun t r' ht => hb.tasks t r' (hlookup t r' ht))
        (fun t r' ht => hb.uncounted t r' (hlookup t r' ht)) hother heq hdone) ?_ (fun _ => rfl)
      ⟨nofun, ?_, nofun⟩
    · intro call hok
      have hok : CallOk (s.setState r.state { st with pendingForegroundTasks := pending }) call :=
        hok.mono (setState_finished hst id) (fun _ h => h) fun _ _ h => h
      exact { hok with }
    · intro a ha
      have hret : Then.ret = Then.disposed a := of_decide_eq_true (show decide _ = true from ha)
      cases hret
  unfold State.completePendingForegroundTask
  dsimp only
  cases hc : r.counted with
  | true =>
    rw [hc, if_pos rfl] at hself
    have hpos : 0 < st.pendingForegroundTasks := by omega
    rw [if_pos hpos]
    refine hset _ (by omega) ?_
    intro hf
    rw [(hb.finished r.state st hst hf).2] at hpos
    exact absurd hpos (lt_irrefl 0)
  | false =>
    -- It was handed out by a state that had finished, which counts nothing.
    rw [hc, if_neg Bool.false_ne_true, Nat.add_zero] at hself
    obtain ⟨st', hst', hf⟩ := hb.uncounted task r hr hc
    obtain rfl := Option.some.inj (hst.symm.trans hst')
    have hzero := (hb.finished r.state st hst hf).2
    rw [if_neg (by omega)]
    have hinv := hset st.pendingForegroundTasks (by omega) fun _ => hzero
    rwa [setState_self (by exact hst)] at hinv

theorem addIsolateFinishedCallback_inv (hi : Inv s)
    (h : step s (.addIsolateFinishedCallback a) = some t) : Inv t := by
  have hb := hi.base
  have hnone : s.target s.nextCallback = none := by
    cases htarget : s.target s.nextCallback with
    | none => rfl
    | some i => exact absurd (hb.targets _ i htarget).1 (lt_irrefl _)
  obtain ⟨hzero, _, hruns⟩ := hb.loose _ hnone
  have hruns := hruns le_rfl
  unfold step at h
  dsimp only at h
  split at h
  · cases h
    refine ⟨{ hb with targets := ?_, count := ?_, loose := ?_ }, hi.fresh, fun c call hc => ?_⟩
    · intro callback i htarget
      exact ⟨Nat.lt_succ_of_lt (hb.targets callback i htarget).1, (hb.targets callback i htarget).2⟩
    · intro callback i st htarget hst
      have hne : callback ≠ s.nextCallback := Nat.ne_of_lt (hb.targets callback i htarget).1
      show st.finishedCallbacks.count callback + s.inCalls callback + update s.runs _ _ callback = 1
      rw [update_of_ne hne]
      exact hb.count callback i st htarget hst
    · intro callback htarget
      obtain ⟨hz, hle, hnew⟩ := hb.loose callback htarget
      refine ⟨hz, ?_, ?_⟩
      · show update s.runs s.nextCallback (s.runs s.nextCallback + 1) callback ≤ 1
        by_cases heq : callback = s.nextCallback
        · rw [heq, update_self, hruns]
        · rw [update_of_ne heq]
          exact hle
      · intro hle'
        have hlt : s.nextCallback < callback := hle'
        exact (update_of_ne (Nat.ne_of_gt hlt) ..).trans (hnew hlt.le)
    · have hok := hi.calls c call hc
      exact { hok with }
  · rename_i i hmap
    cases h
    have hkept : ∀ callback j, s.target callback = some j →
        update s.target s.nextCallback (some i) callback = some j := by
      intro callback j htarget
      exact (update_of_ne (Nat.ne_of_lt (hb.targets callback j htarget).1) ..).trans htarget
    refine spawn_inv hi rfl rfl ?_
      (fun _ h => h.mono (fun _ st hst hf => ⟨st, hst, hf⟩) (fun _ h => h) hkept)
      ⟨fun _ h => (by cases h), fun _ h => (by cases h), ?_⟩
    · intro w hw
      have hself : w s.nextCallback = 1 := by
        have := hw s.nextCallback
        rw [hzero] at this
        exact this.trans (if_pos rfl)
      have hother : ∀ callback, callback ≠ s.nextCallback → w callback = s.inCalls callback := by
        intro callback hne
        have := hw callback
        rw [show Call.weight callback (Call.addCallback i s.nextCallback : Call A) = 0 from
          if_neg hne.symm, Nat.zero_add] at this
        exact this
      refine { hb with targets := ?_, count := ?_, loose := ?_, owner := ?_ }
      · intro callback j htarget
        rcases update_cases htarget with ⟨rfl, rfl⟩ | ⟨_, htarget'⟩
        · exact ⟨Nat.lt_succ_self _, hb.mapped a j hmap⟩
        · exact ⟨Nat.lt_succ_of_lt (hb.targets callback j htarget').1, (hb.targets callback j htarget').2⟩
      · intro callback j st htarget hst
        rcases update_cases htarget with ⟨rfl, rfl⟩ | ⟨hne, htarget'⟩
        · have hmem : s.nextCallback ∉ st.finishedCallbacks := by
            intro hmem
            rw [hb.owner j st _ hst hmem] at hnone
            cases hnone
          show st.finishedCallbacks.count s.nextCallback + w s.nextCallback + s.runs s.nextCallback = 1
          rw [List.count_eq_zero_of_not_mem hmem, hself, hruns]
        · show st.finishedCallbacks.count callback + w callback + s.runs callback = 1
          rw [hother callback hne]
          exact hb.count callback j st htarget' hst
      · intro callback htarget
        have hne : callback ≠ s.nextCallback := by
          rintro rfl
          cases (update_self ..).symm.trans htarget
        have htarget' : s.target callback = none := (update_of_ne hne ..).symm.trans htarget
        obtain ⟨hz, hle, hnew⟩ := hb.loose callback htarget'
        exact ⟨(hother callback hne).trans hz, hle, fun hle' => hnew (Nat.le_of_succ_le hle')⟩
      · intro j st callback hst hmem
        exact hkept callback j (hb.owner j st callback hst hmem)
    · intro j callback heq
      cases heq
      exact update_self ..

theorem step_inv {a : Act A} (hi : Inv s) (hsafe : Safe s a) (h : step s a = some t) : Inv t := by
  cases a with
  | register a =>
    cases h
    exact register_inv hi hsafe
  | unregister a =>
    cases h
    exact ⟨hi.base.unregister a, hi.fresh, fun c call hc => (hi.calls c call hc).unregister a⟩
  | post i =>
    obtain ⟨st, hst, rfl⟩ := Option.map_eq_some_iff.mp h
    exact post_inv hi hst
  | complete task =>
    unfold step at h
    dsimp only at h
    split at h
    · cases h
    · rename_i r hr
      obtain ⟨st, hst, rfl⟩ := Option.map_eq_some_iff.mp h
      exact complete_inv hi hr hst
  | addIsolateFinishedCallback a => exact addIsolateFinishedCallback_inv hi h
  | notifyIsolateShutdown a =>
    cases h
    refine spawn_plain hi rfl rfl hi.base (fun _ h => h) (fun _ => rfl) ⟨nofun, ?_, nofun⟩
    intro b hb
    have hret : Then.ret = Then.disposed b := of_decide_eq_true (show decide _ = true from hb)
    cases hret
  | disposeIsolate a =>
    cases h
    refine spawn_plain hi rfl rfl hi.base (fun _ h => h) (fun _ => rfl) ⟨nofun, ?_, nofun⟩
    intro b hb
    have hret : Then.dispose a (s.isolates a) = Then.disposed b :=
      of_decide_eq_true (show decide _ = true from hb)
    cases hret
  | advance c =>
    unfold step at h
    dsimp only at h
    split at h
    · cases h
    · rename_i call hc
      have htimely : (s.calls.lookup c).all (fun call => call.timely s) = true := hsafe
      rw [hc, Option.all_some] at htimely
      exact advance_inv hi hc htimely h

theorem init_inv : Inv ({} : State A) := by
  exact ⟨⟨fun _ _ => rfl, nofun, nofun, nofun, fun _ _ => ⟨rfl, Nat.zero_le _, fun _ => rfl⟩, nofun,
    nofun, nofun, nofun, nofun, rfl,
    rfl⟩, nofun, nofun⟩

theorem Inv.finishes (hi : Inv s) : Finishes s := by
  have hb := hi.base
  refine ⟨?_, ?_, ?_, hb.notEarly, hb.unmapped⟩
  · intro callback
    cases htarget : s.target callback with
    | none => exact (hb.loose callback htarget).2.1
    | some i =>
      obtain ⟨st, hst⟩ := Option.ne_none_iff_exists'.mp (hb.targets callback i htarget).2
      have := hb.count callback i st htarget hst
      omega
  · intro hcalls callback i st htarget hst hf
    have hcount := hb.count callback i st htarget hst
    have hzero : s.inCalls callback = 0 := by
      unfold State.inCalls
      rw [hcalls]
      rfl
    rw [(hb.finished i st hst hf).1, hzero] at hcount
    simpa using hcount
  · intro i st hst hf
    rw [hb.pending i st hst]
    unfold State.outstanding State.handedOut Table.total
    refine congrArg List.sum (List.map_congr_left ?_)
    intro e he
    dsimp only
    by_cases heq : e.2.state = i
    · have hcounted : e.2.counted = true := by
        rw [← Bool.not_eq_false]
        intro hc
        obtain ⟨st', hst', hf'⟩ := hb.uncounted e.1 e.2 (AList.mem_lookup_iff.mpr he) hc
        rw [heq] at hst'
        rw [Option.some.inj (hst'.symm.trans hst), hf] at hf'
        cases hf'
      rw [hcounted, Bool.and_true, if_pos (decide_eq_true heq), if_pos heq]
    · rw [decide_eq_false heq, Bool.false_and, if_neg Bool.false_ne_true, if_neg heq]

/-- In a run in which no callback meets a state that has finished since it was looked up, and no
    isolate is registered under a `DisposeIsolate` that is about to return, the callbacks of a
    finished state run once and after its tasks. -/
theorem callbacks_once {acts : List (Act A)} (hr : run step ({} : State A) acts = some s)
    (hsafe : AllSteps step Safe ({} : State A) acts) : Finishes s :=
  (invariant_of_allSteps (fun _ _ _ h hsafe hi => step_inv hi hsafe h) hr hsafe init_inv).finishes

end

/-- A task is outstanding when the isolate is disposed of, and its completion runs the callback. -/
def lateTask : List (Act ℕ) :=
  [.register 0, .post 0, .addIsolateFinishedCallback 0, .advance 0, .disposeIsolate 0, .advance 1,
    .advance 1, .advance 1, .advance 1, .advance 1, .advance 1, .complete 0, .advance 2, .advance 2,
    .advance 2, .advance 2]

theorem lateTask_finishes :
    ∃ s, run step ({} : State ℕ) lateTask = some s ∧ s.calls = ∅ ∧ s.runs 0 = 1 ∧ Finishes s := by
  have hsafe : AllSteps step Safe ({} : State ℕ) lateTask := by decide
  exact ⟨_, rfl, rfl, rfl, callbacks_once (show run step {} lateTask = some _ from rfl) hsafe⟩

/-- The isolate finishes between the two blocks of `AddIsolateFinishedCallback`. -/
def lateCallback : List (Act ℕ) :=
  [.register 0, .addIsolateFinishedCallback 0, .notifyIsolateShutdown 0, .advance 1, .advance 1,
    .advance 1, .advance 1, .advance 1, .advance 0, .advance 0]

/-- No call is underway, and the callback has not run. -/
theorem lateCallback_not_finishes :
    ∃ s, run step ({} : State ℕ) lateCallback = some s ∧ s.calls = ∅ ∧ ¬ Finishes s := by
  refine ⟨_, rfl, rfl, ?_⟩
  intro hf
  have := hf.ran rfl 0 0 _ rfl rfl rfl
  cases this

end WasmerNapi.V8.Isolates
