import WasmerNapi.Lib.Run

/-!
# The cache of guest callbacks

The engine calls guest code by an index into the guest's `__indirect_function_table`. To resolve
an index allocates in the store, so what was found at it is kept in `func_cache`, for callbacks
and interrupts (`call_guest_callback`) and finalizers (`call_guest_callback2`) alike. Nothing
takes an entry out again, but the guest may write its table whenever it runs.

`dispatches_iff_unmoved`: a dispatch does what a look at the table would have it do exactly as
long as no dispatch comes to an index that held another function when one was first found there.
What the typed fast path changes is never seen.

Wasmer is a parameter: which functions pass `typed::<(i32, i32), i32>`, and what a call can end
in. What the guest does in between is the label of a step.
-/

namespace WasmerNapi.Guest.CallbackCache

open Run

/-- A value at the boundary; a function reference names the function `φ`. -/
inductive Value (φ : Type)
  | i32 (n : BitVec 32)
  | i64 (n : BitVec 64)
  | f32 (bits : BitVec 32)
  | f64 (bits : BitVec 64)
  | v128 (bits : BitVec 128)
  | externRef
  | funcRef (f : Option φ)
  deriving DecidableEq

/-- A trap. `downcast_ref` finds the exit of the guest, if it is one. -/
inductive RuntimeError
  | exit (code : ℕ)
  | other (text : String)
  deriving DecidableEq

/-- What a call of a guest function ends in. -/
abbrev Outcome (φ : Type) : Type := Except RuntimeError (List (Value φ))

structure Wasmer (φ : Type) where
  /-- `function.typed::<(i32, i32), i32>(store).is_ok()`. -/
  isTyped : φ → Bool
  /-- A call of the function with these arguments can end so. -/
  returns : φ → List (Value φ) → Outcome φ → Bool

/-- `typed` has checked the signature: such a function returns one `i32`, if it returns. -/
def Wasmer.ChecksResult {φ : Type} (W : Wasmer φ) : Prop :=
  ∀ f args values, W.isTyped f = true → W.returns f args (.ok values) = true →
    ∃ n, values = [.i32 n]

section

variable {φ : Type}

/-! ## `CachedGuestCallback` -/

structure CachedGuestCallback (φ : Type) where
  function : φ
  /-- The `TypedFunction`, which is the same function. -/
  napiCallback : Option φ
  deriving DecidableEq

/-- A call that Wasmer is asked for. -/
inductive Invocation (φ : Type)
  | typed (callback : φ) (env info : BitVec 32)
  | generic (function : φ) (args : List (Value φ))
  deriving DecidableEq

/-- `result` of `callback_cache.rs`. -/
def result : List (Value φ) → BitVec 32
  | .i32 value :: _ => value
  | .i64 value :: _ => value.setWidth 32
  | _ => 0

namespace CachedGuestCallback

def new (W : Wasmer φ) (function : φ) : CachedGuestCallback φ where
  function
  napiCallback := if W.isTyped function then some function else none

def call (c : CachedGuestCallback φ) (env info : BitVec 32) : Invocation φ :=
  match c.napiCallback with
  | some callback => .typed callback env info
  | none => .generic c.function [.i32 env, .i32 info]

def callFinalizer (c : CachedGuestCallback φ) (env data hint : BitVec 32) : Invocation φ :=
  .generic c.function [.i32 env, .i32 data, .i32 hint]

end CachedGuestCallback

namespace Invocation

/-- The function that runs, and what it is given. -/
def target : Invocation φ → φ × List (Value φ)
  | typed callback env info => (callback, [.i32 env, .i32 info])
  | generic function args => (function, args)

/-- What comes back of an outcome. A `TypedFunction` hands the one `i32` over as it is. -/
def outcome : Invocation φ → Outcome φ → Except RuntimeError (BitVec 32)
  | typed _ _ _, o => o.map fun values => match values with
    | [.i32 value] => value
    | _ => 0
  | generic _ _, o => o.map result

end Invocation

/-! ## Dispatch -/

/-- What the engine asks for. An interrupt is dispatched as a callback. -/
inductive Request
  | callback (guestEnv : BitVec 32) (wasmFnPtr : ℕ) (callbackArg : BitVec 32)
  | finalizer (guestEnv : BitVec 32) (wasmFnPtr : ℕ) (arg0 arg1 : BitVec 32)
  deriving DecidableEq

namespace Request

def wasmFnPtr : Request → ℕ
  | callback _ wasmFnPtr _ => wasmFnPtr
  | finalizer _ wasmFnPtr _ _ => wasmFnPtr

def args : Request → List (Value φ)
  | callback guestEnv _ callbackArg => [.i32 guestEnv, .i32 callbackArg]
  | finalizer guestEnv _ arg0 arg1 => [.i32 guestEnv, .i32 arg0, .i32 arg1]

/-- What is printed about a trap that is no exit. -/
def report (text : String) : Request → String
  | callback _ _ _ => "[callback trampoline] error calling function: " ++ text
  | finalizer _ _ _ _ => "[finalizer trampoline] error calling guest finalizer: " ++ text

end Request

/-- What a dispatch does when the call is over: the value it returns, the exit it stashes, the
    line it prints. -/
structure Answer where
  value : BitVec 32
  exit : Option ℕ := none
  printed : Option String := none
  deriving DecidableEq

def answer (r : Request) : Except RuntimeError (BitVec 32) → Answer
  | .ok value => { value }
  | .error (.exit code) => { value := 0, exit := some code }
  | .error (.other text) => { value := 0, printed := some (r.report text) }

/-- What the guest writes to its table. `copy` is `table.copy` and `table.init`. -/
inductive Write (φ : Type)
  | set (index : ℕ) (value : Value φ)
  | fill (index : ℕ) (value : Value φ) (count : ℕ)
  | grow (value : Value φ) (count : ℕ)
  | copy (index : ℕ) (values : List (Value φ))

/-- A write past the end traps and writes nothing. -/
def Write.apply (table : List (Value φ)) : Write φ → List (Value φ)
  | set index value => table.set index value
  | fill index value count =>
    if index + count ≤ table.length then
      table.take index ++ List.replicate count value ++ table.drop (index + count)
    else table
  | grow value count => table ++ List.replicate count value
  | copy index values =>
    if index + values.length ≤ table.length then
      table.take index ++ values ++ table.drop (index + values.length)
    else table

/-- `table.get` and the `match` on what it found. -/
def functionAt (table : List (Value φ)) (index : ℕ) : Option φ :=
  match table[index]? with
  | some (.funcRef (some f)) => some f
  | some (.funcRef none) => none
  | _ => none

/-- The guest's table, `func_cache`, and the dispatches that are running, the innermost first.
    `found` is for the statements: the function that the first dispatch to find one found at an
    index. -/
structure State (φ : Type) where
  table : List (Value φ)
  funcCache : ℕ → Option (CachedGuestCallback φ) := fun _ => none
  running : List (Request × Invocation φ) := []
  pendingGuestExit : Option ℕ := none
  stderr : List String := []
  found : ℕ → Option φ := fun _ => none

/-- A guest with this table, to which nothing was dispatched yet. -/
def init (table : List (Value φ)) : State φ := { table }

/-- `func_cache.insert`, of the callback for a function that was found at this index. -/
def State.insert (W : Wasmer φ) (s : State φ) (wasmFnPtr : ℕ) (func : φ) : State φ :=
  { s with
    funcCache := Function.update s.funcCache wasmFnPtr (some (.new W func))
    found := Function.update s.found wasmFnPtr (some func) }

/-- What both functions begin with: the cached callback, or the one of the table, which is
    cached. -/
def State.resolve (W : Wasmer φ) (s : State φ) (wasmFnPtr : ℕ) :
    Option (CachedGuestCallback φ × State φ) :=
  match s.funcCache wasmFnPtr with
  | some func => some (func, s)
  | none =>
    match functionAt s.table wasmFnPtr with
    | none => none
    | some func => some (.new W func, s.insert W wasmFnPtr func)

/-- `call_guest_callback`, up to the call. -/
def callGuestCallback (W : Wasmer φ) (s : State φ) (guestEnv : BitVec 32) (wasmFnPtr : ℕ)
    (callbackArg : BitVec 32) : Option (Invocation φ × State φ) :=
  (s.resolve W wasmFnPtr).map fun (func, s) => (func.call guestEnv callbackArg, s)

/-- `call_guest_callback2`, up to the call. -/
def callGuestCallback2 (W : Wasmer φ) (s : State φ) (guestEnv : BitVec 32) (wasmFnPtr : ℕ)
    (arg0 arg1 : BitVec 32) : Option (Invocation φ × State φ) :=
  (s.resolve W wasmFnPtr).map fun (func, s) => (func.callFinalizer guestEnv arg0 arg1, s)

def CachedGuestCallback.invocation (c : CachedGuestCallback φ) : Request → Invocation φ
  | .callback guestEnv _ callbackArg => c.call guestEnv callbackArg
  | .finalizer guestEnv _ arg0 arg1 => c.callFinalizer guestEnv arg0 arg1

def State.dispatch (W : Wasmer φ) (s : State φ) : Request → Option (Invocation φ × State φ)
  | .callback guestEnv wasmFnPtr callbackArg =>
    callGuestCallback W s guestEnv wasmFnPtr callbackArg
  | .finalizer guestEnv wasmFnPtr arg0 arg1 =>
    callGuestCallback2 W s guestEnv wasmFnPtr arg0 arg1

theorem dispatch_eq (W : Wasmer φ) (s : State φ) (r : Request) :
    s.dispatch W r = (s.resolve W r.wasmFnPtr).map fun (func, s) => (func.invocation r, s) := by
  cases r <;> rfl

/-- The guest writes its table, the engine dispatches, the innermost guest function ends. -/
inductive Act (φ : Type)
  | write (w : Write φ)
  | dispatch (r : Request)
  | ends (o : Outcome φ)

def State.ends (s : State φ) (a : Answer) (running : List (Request × Invocation φ)) : State φ :=
  { s with
    running
    pendingGuestExit := a.exit.or s.pendingGuestExit
    stderr := s.stderr ++ a.printed.toList }

def step (W : Wasmer φ) (s : State φ) : Act φ → Option (State φ)
  | .write w => some { s with table := w.apply s.table }
  | .dispatch r =>
    match s.dispatch W r with
    | none => some s
    | some (invocation, s) => some { s with running := (r, invocation) :: s.running }
  | .ends o =>
    match s.running with
    | [] => none
    | (r, invocation) :: running =>
      if W.returns invocation.target.1 invocation.target.2 o then
        some (s.ends (answer r (invocation.outcome o)) running)
      else none

/-! ## What an uncached lookup does -/

/-- The function in the table now, with the arguments of the request. -/
def uncached (table : List (Value φ)) (r : Request) : Option (φ × List (Value φ)) :=
  (functionAt table r.wasmFnPtr).map fun f => (f, r.args)

/-- `Function::call`, and `result` of the values it returned. -/
def uncachedAnswer (r : Request) (o : Outcome φ) : Answer := answer r (o.map result)

/-- The step is one of an uncached lookup: a dispatch runs what that would run, and a call that
    ends, in whatever it can end, is answered as that would answer it. -/
def LikeUncached (W : Wasmer φ) (s : State φ) : Act φ → Prop
  | .write _ => True
  | .dispatch r => (s.dispatch W r).map (fun d => d.1.target) = uncached s.table r
  | .ends o => ∀ r invocation, s.running.head? = some (r, invocation) →
      W.returns invocation.target.1 invocation.target.2 o = true →
        answer r (invocation.outcome o) = uncachedAnswer r o

/-- A dispatch finds at its index what the first one found there, if one has found anything. -/
def Unmoved (s : State φ) : Act φ → Prop
  | .dispatch r => ∀ f ∈ s.found r.wasmFnPtr, functionAt s.table r.wasmFnPtr = some f
  | _ => True

instance [DecidableEq φ] (s : State φ) : ∀ a, Decidable (Unmoved s a)
  | .dispatch r => inferInstanceAs
      (Decidable (∀ f ∈ s.found r.wasmFnPtr, functionAt s.table r.wasmFnPtr = some f))
  | .write _ => isTrue trivial
  | .ends _ => isTrue trivial

/-! ## The invariant -/

/-- A call is typed only where the check has passed. -/
def Invocation.Checked (W : Wasmer φ) : Invocation φ → Prop
  | typed callback _ _ => W.isTyped callback = true
  | generic _ _ => True

/-- The cache holds, under each index, a new callback for what was first found there. -/
structure Inv (W : Wasmer φ) (s : State φ) : Prop where
  cached : ∀ index, s.funcCache index = (s.found index).map (.new W)
  checked : ∀ d ∈ s.running, d.2.Checked W

variable {W : Wasmer φ} {s s' : State φ}

theorem inv_init (table : List (Value φ)) : Inv W (init table) where
  cached _ := rfl
  checked := by simp [init]

/-- A new callback runs its function, by the fast path or without it. -/
theorem invocation_new (f : φ) (r : Request) :
    ((CachedGuestCallback.new W f).invocation r).Checked W ∧
      ((CachedGuestCallback.new W f).invocation r).target = (f, r.args) := by
  cases r with
  | callback guestEnv wasmFnPtr callbackArg =>
    by_cases hf : W.isTyped f = true
    · simp [CachedGuestCallback.new, CachedGuestCallback.invocation, CachedGuestCallback.call, hf,
        Invocation.Checked, Invocation.target, Request.args]
    · simp [CachedGuestCallback.new, CachedGuestCallback.invocation, CachedGuestCallback.call, hf,
        Invocation.Checked, Invocation.target, Request.args]
  | finalizer guestEnv wasmFnPtr arg0 arg1 =>
    exact ⟨trivial, rfl⟩

theorem Inv.insert (hi : Inv W s) (index : ℕ) (f : φ) : Inv W (s.insert W index f) := by
  refine ⟨?_, hi.checked⟩
  intro index'
  unfold State.insert
  by_cases hindex : index' = index
  · subst hindex
    simp only [Function.update_self, Option.map_some]
  · simp only [Function.update_of_ne hindex]
    exact hi.cached index'

/-- What a dispatch of the index resolves to: what was found there first, else what is there. -/
def State.resolved (s : State φ) (index : ℕ) : Option φ :=
  (s.found index).or (functionAt s.table index)

theorem Inv.resolve_none (hi : Inv W s) {index : ℕ} (h : s.resolved index = none) :
    s.resolve W index = none := by
  obtain ⟨hfound, hat⟩ := Option.or_eq_none_iff.mp h
  simp [State.resolve, hi.cached index, hfound, hat]

theorem Inv.resolve_some (hi : Inv W s) {index : ℕ} {f : φ} (h : s.resolved index = some f) :
    ∃ t, s.resolve W index = some (.new W f, t) ∧ Inv W t ∧ t.running = s.running := by
  cases hfound : s.found index with
  | some f' =>
    obtain rfl : f' = f := by simpa [State.resolved, hfound] using h
    exact ⟨s, by simp [State.resolve, hi.cached index, hfound], hi, rfl⟩
  | none =>
    have hat : functionAt s.table index = some f := by simpa [State.resolved, hfound] using h
    exact ⟨s.insert W index f, by simp [State.resolve, hi.cached index, hfound, hat],
      hi.insert index f, rfl⟩

theorem Inv.dispatch_none (hi : Inv W s) {r : Request} (h : s.resolved r.wasmFnPtr = none) :
    s.dispatch W r = none := by
  simp [dispatch_eq, hi.resolve_none h]

theorem Inv.dispatch_some (hi : Inv W s) {r : Request} {f : φ}
    (h : s.resolved r.wasmFnPtr = some f) :
    ∃ d t, s.dispatch W r = some (d, t) ∧ d.target = (f, r.args) ∧ d.Checked W ∧ Inv W t ∧
      t.running = s.running := by
  obtain ⟨t, hresolve, ht, hrunning⟩ := hi.resolve_some h
  obtain ⟨hchecked, htarget⟩ := invocation_new (W := W) f r
  exact ⟨_, t, by simp [dispatch_eq, hresolve], htarget, hchecked, ht, hrunning⟩

theorem Inv.step {a : Act φ} (hs : step W s a = some s') (hi : Inv W s) : Inv W s' := by
  cases a with
  | write w =>
    cases hs
    exact ⟨hi.cached, hi.checked⟩
  | dispatch r =>
    cases hr : s.resolved r.wasmFnPtr with
    | none =>
      simp only [CallbackCache.step, hi.dispatch_none hr, Option.some.injEq] at hs
      subst hs
      exact hi
    | some f =>
      obtain ⟨d, t, hd, _, hchecked, ht, _⟩ := hi.dispatch_some hr
      simp only [CallbackCache.step, hd, Option.some.injEq] at hs
      subst hs
      refine ⟨ht.cached, ?_⟩
      intro e he
      rcases List.mem_cons.mp he with rfl | he
      · exact hchecked
      · exact ht.checked e he
  | ends o =>
    cases hrunning : s.running with
    | nil => simp [CallbackCache.step, hrunning] at hs
    | cons d running =>
      obtain ⟨r, invocation⟩ := d
      simp only [CallbackCache.step, hrunning, Option.ite_none_right_eq_some,
        Option.some.injEq] at hs
      obtain ⟨_, rfl⟩ := hs
      refine ⟨hi.cached, ?_⟩
      intro e he
      exact hi.checked e (hrunning ▸ List.mem_cons_of_mem _ he)

/-! ## The cached dispatch against the lookup -/

theorem uncached_eq (r : Request) : uncached s.table r =
    (functionAt s.table r.wasmFnPtr).map fun f => (f, r.args) := rfl

theorem Inv.target_dispatch (hi : Inv W s) (r : Request) :
    (s.dispatch W r).map (fun d => d.1.target) =
      (s.resolved r.wasmFnPtr).map fun f => (f, r.args) := by
  cases hr : s.resolved r.wasmFnPtr with
  | none => rw [hi.dispatch_none hr, Option.map_none, Option.map_none]
  | some f =>
    obtain ⟨d, t, hd, htarget, _⟩ := hi.dispatch_some hr
    rw [hd, Option.map_some, Option.map_some, htarget]

/-- A dispatch runs what is in the table exactly when its index was not found to hold another
    function before. -/
theorem Inv.dispatch_iff (hi : Inv W s) (r : Request) :
    LikeUncached W s (.dispatch r) ↔ Unmoved s (.dispatch r) := by
  have hargs : Function.Injective fun f : φ => (f, (r.args : List (Value φ))) := by
    intro f g hfg
    exact congrArg Prod.fst hfg
  show (s.dispatch W r).map (fun d => d.1.target) = uncached s.table r ↔
    ∀ f ∈ s.found r.wasmFnPtr, functionAt s.table r.wasmFnPtr = some f
  rw [hi.target_dispatch, uncached_eq, (Option.map_injective hargs).eq_iff, State.resolved]
  cases s.found r.wasmFnPtr with
  | none => simp
  | some f => simp [eq_comm]

/-- What ends is answered as if it had been called without the fast path. -/
theorem Inv.ends_like (hW : W.ChecksResult) (hi : Inv W s) (o : Outcome φ) :
    LikeUncached W s (.ends o) := by
  intro r invocation hhead hreturns
  have hchecked : invocation.Checked W := hi.checked _ (List.mem_of_mem_head? hhead)
  unfold uncachedAnswer
  refine congrArg (answer r) ?_
  cases invocation with
  | generic function args => rfl
  | typed callback env info =>
    cases o with
    | error e => rfl
    | ok values =>
      obtain ⟨n, rfl⟩ := hW callback _ values hchecked hreturns
      rfl

/-- In every run, of any writes to the table and any dispatches, nested as they may be, every
    dispatch is as an uncached lookup would have it exactly when every dispatch finds at its index
    what was first found there. -/
theorem dispatches_iff_unmoved (hW : W.ChecksResult) (table : List (Value φ))
    (as : List (Act φ)) :
    AllSteps (step W) (LikeUncached W) (init table) as ↔
      AllSteps (step W) Unmoved (init table) as := by
  have hstep : ∀ s a s', step W s a = some s' → Unmoved s a → Inv W s → Inv W s' :=
    fun _ _ _ hs _ hi => hi.step hs
  refine allSteps_iff_allSteps hstep ?_ (inv_init table)
  intro s a hi
  cases a with
  | write w => exact Iff.rfl
  | dispatch r => exact hi.dispatch_iff r
  | ends o => exact iff_of_true (hi.ends_like hW o) trivial

end

def endsInI32 : Outcome ℕ → Bool
  | .ok [.i32 _] => true
  | .ok _ => false
  | .error _ => true

/-- Functions that go by a number, and all return an `i32` or trap. -/
def numbered : Wasmer ℕ where
  isTyped _ := true
  returns _ _ := endsInI32

theorem numbered_checksResult : numbered.ChecksResult := by
  intro f args values _ hreturns
  have hi32 : endsInI32 (.ok values) = true := hreturns
  unfold endsInI32 at hi32
  split at hi32
  · rename_i n h
    obtain rfl := Except.ok.inj h
    exact ⟨n, rfl⟩
  · cases hi32
  · rename_i h
    cases h

/-- Function `1` is dispatched, and dispatches itself as a finalizer, which traps. The guest then
    loads function `2` next to it. -/
def besides : List (Act ℕ) :=
  [.dispatch (.callback 1 0 5), .dispatch (.finalizer 1 0 6 7), .ends (.error (.exit 3)),
    .ends (.ok [.i32 4]), .write (.grow (.funcRef (some 2)) 1), .dispatch (.callback 1 1 8),
    .dispatch (.callback 1 0 9)]

theorem besides_uncached :
    AllSteps (step numbered) (LikeUncached numbered) (init [.funcRef (some 1)]) besides :=
  (dispatches_iff_unmoved numbered_checksResult _ _).mpr (by decide)

/-- The guest unloads function `1` and puts `2` into its slot. -/
def reused : List (Act ℕ) :=
  [.dispatch (.callback 1 0 5), .ends (.ok [.i32 4]), .write (.set 0 (.funcRef (some 2))),
    .dispatch (.callback 1 0 6)]

/-- What is called in the slot of `2` is still `1`. -/
theorem reused_not_uncached :
    ¬ AllSteps (step numbered) (LikeUncached numbered) (init [.funcRef (some 1)]) reused := by
  intro h
  have hlast := (((h.2 _ rfl).2 _ rfl).2 _ rfl).1
  have hcalled : some (1, [.i32 1, .i32 6]) = some (2, [(.i32 1 : Value ℕ), .i32 6]) := hlast
  exact absurd hcalled (by decide)

end WasmerNapi.Guest.CallbackCache
