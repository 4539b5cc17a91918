import WasmerNapi.Lib.Run

/-!
# Finalizers of the QuickJS engine

`src/quickjs/src/internal/napi_external_backing_store_hint.cc`, `napi_external.cc` and
`napi_env.cc`: a *hint* is the record of one finalize callback. An external, a wrap's record
or an external `ArrayBuffer` carries it, and the callback runs when the carrier dies, when the
buffer lets go of its memory, or when the env is released.

QuickJS frees and detaches synchronously, so a callback runs in the middle of whatever
dropped the carrier, and may itself drop others, release the env, and so on. What runs is a
stack of frames, innermost first: a callback together with what its caller does once it
returns (`State.after`), a cleanup hook, and `prepare_teardown` with how far it has come. User
code is in control on top of a callback or a hook and when the stack is empty; a label is
one thing it does. What a callback throws is dropped or kept aside by its caller and changes
nothing here.

Hints and objects have names that are never used again. `runs`, `destroys`, `late`, `fault`
and `owed` are for the statements: how often each callback was called and each hint
destroyed, whether a callback was called after `finalizers_done`, whether a destroyed hint
was used, and whether a hint's callback is still to be expected at all (a wrap that was
removed, or a creation that failed, has none coming).
-/

namespace WasmerNapi.Quickjs.Hints

open Function (update)

/-- `napi_external_backing_store_hint__`. `arrayBuffer` is `array_buffer_` while its weak link
    holds; `pending_link_` is membership in the env's list. -/
structure Hint where
  finalizeCb : Bool
  finalizeInvoked : Bool := false
  arrayBuffer : Option ℕ := none
  detaching : Bool := false
  released : Bool := false
  deriving DecidableEq

inductive Kind where
  | external
  | record
  | buffer
  deriving DecidableEq

/-- An object with room for a hint. A detached buffer has none. -/
structure Object where
  kind : Kind
  hint : Option ℕ
  deriving DecidableEq

/-- How far `prepare_teardown` has come. -/
inductive Phase where
  | hooks
  | check
  | values
  | instanceData
  | finish
  | done
  deriving DecidableEq

inductive Frame where
  /-- The callback, called by `napi_external__::finalizer`. -/
  | finalizer (h : ℕ)
  /-- The callback, called by `release_array_buffer`: for a buffer being detached, or freed. -/
  | release (h : ℕ) (buffer : Option ℕ)
  /-- The callback, called by `finalize_at_teardown`. -/
  | teardown (h : ℕ) (released : Bool)
  /-- A cleanup hook, or the finalizer of the instance data. -/
  | hook
  /-- `napi_wrap` whose property definition threw, which frees the record. -/
  | wrapFailed (h : ℕ)
  | preparing (phase : Phase)
  deriving DecidableEq

/-- The hint a frame is about. -/
def Frame.hint? : Frame → Option ℕ
  | .finalizer h | .release h _ | .teardown h _ | .wrapFailed h => some h
  | .hook | .preparing _ => none

structure State where
  hints : ℕ → Option Hint := fun _ => none
  nextHint : ℕ := 0
  objects : ℕ → Option Object := fun _ => none
  nextObject : ℕ := 0
  pendingFinalizers : List ℕ := []
  releasing : Bool := false
  closing : Bool := false
  finalizersDone : Bool := false
  tornDown : Bool := false
  cleanupHooks : ℕ := 0
  instanceData : Bool := false
  stack : List Frame := []
  runs : ℕ → ℕ := fun _ => 0
  destroys : ℕ → ℕ := fun _ => 0
  late : Bool := false
  fault : Bool := false
  owed : ℕ → Bool := fun _ => false

/-- How the definition of `__napi_wrap__` comes out. It takes the record either way: one that
    is refused, or throws, frees it. -/
inductive Outcome where
  | attached
  | refused
  | threw
  deriving DecidableEq

inductive Act where
  | createExternal (finalizeCb : Bool)
  /-- `tracked`: there was memory for the weak link. -/
  | createArraybuffer (finalizeCb tracked : Bool)
  /-- A wrap or an array buffer for which the engine has no object. -/
  | createFailed (finalizeCb : Bool)
  | wrap (finalizeCb : Bool) (outcome : Outcome)
  /-- A wrap in the opaque slot of an object of the record class. -/
  | wrapRecord (finalizeCb : Bool) (r : ℕ)
  /-- `cleared`: the record that `__napi_wrap__` reads back as is the one found. -/
  | removeWrap (r : ℕ) (cleared : Bool)
  | detach (b : ℕ)
  /-- `ArrayBuffer.prototype.transfer` to the same size. -/
  | transfer (b : ℕ)
  | die (o : ℕ)
  | addCleanupHook
  | setInstanceData (present : Bool)
  | release
  /-- The callback or hook on top returns. -/
  | ret
  /-- Native code on top goes on. -/
  | tick
  deriving DecidableEq

namespace State

/-- The hint an object carries. -/
def hintOf (s : State) (o : ℕ) : Option ℕ := (s.objects o).bind Object.hint

/-! ## Hints -/

def setHint (s : State) (h : ℕ) (x : Hint) : State :=
  { s with hints := update s.hints h (some x) }

def setObject (s : State) (o : ℕ) (obj : Option Object) : State :=
  { s with objects := update s.objects o obj }

/-- `destroy_external_backing_store`; the destructor leaves the pending list. -/
def destroy (s : State) (h : ℕ) : State :=
  match s.hints h with
  | none => { s with fault := true, destroys := update s.destroys h (s.destroys h + 1) }
  | some _ =>
    { s with
      hints := update s.hints h none
      pendingFinalizers := s.pendingFinalizers.erase h
      destroys := update s.destroys h (s.destroys h + 1) }

/-- The end of `JS_DetachArrayBuffer`: QuickJS marks a buffer detached only once the free
    callback has returned. -/
def markDetached (s : State) : Option ℕ → State
  | none => s
  | some b => s.setObject b ((s.objects b).map fun obj => { obj with hint := none })

/-- What the caller of a callback does once it returns. -/
def after (s : State) : Frame → State
  | .finalizer h => s.destroy h
  | .release h buffer => (s.destroy h).markDetached buffer
  | .teardown h released => if released then s.destroy h else s
  | .hook | .wrapFailed _ | .preparing _ => s

/-- `invoke_finalizer` up to the call: the pending list and the buffer are let go. -/
def invoked (s : State) (h : ℕ) (x : Hint) : State :=
  { s.setHint h { x with finalizeInvoked := true, arrayBuffer := none } with
    pendingFinalizers := s.pendingFinalizers.erase h }

/-- `invoke_finalizer`, for the caller `k`. -/
def invokeFinalizer (s : State) (h : ℕ) (k : Frame) : State :=
  match s.hints h with
  | none => { s with fault := true }
  | some x =>
    if x.finalizeInvoked then s.after k
    else if !x.finalizeCb || s.finalizersDone then (s.invoked h x).after k
    else
      { s.invoked h x with
        runs := update s.runs h (s.runs h + 1)
        late := s.late || s.finalizersDone
        stack := k :: s.stack }

/-- `release_array_buffer`, with what the engine does after it. -/
def releaseArrayBuffer (s : State) (h : ℕ) (buffer : Option ℕ) : State :=
  match s.hints h with
  | none => { s with fault := true }
  | some x =>
    if x.released then s.markDetached buffer
    else
      let t := s.setHint h { x with released := true }
      if x.detaching || (decide (h ∈ s.pendingFinalizers) && s.closing && !s.finalizersDone) then
        t.markDetached buffer
      else t.invokeFinalizer h (.release h buffer)

/-- `JS_DetachArrayBuffer`. -/
def detach (s : State) (b : ℕ) : State :=
  match s.objects b with
  | some ⟨.buffer, some h⟩ => s.releaseArrayBuffer h (some b)
  | _ => s

/-- Weak links to an object are cleared: `array_buffer_freed`. -/
def clearWeak (s : State) (o : ℕ) : State :=
  { s with
    hints := fun h => (s.hints h).map fun x =>
      if x.arrayBuffer = some o then { x with arrayBuffer := none } else x }

/-- An object is freed, and its class's finalizer runs. -/
def die (s : State) (o : ℕ) : State :=
  match s.objects o with
  | none => s
  | some obj =>
    let t := (s.clearWeak o).setObject o none
    match obj.hint with
    | none => t
    | some h =>
      if obj.kind = .buffer then t.releaseArrayBuffer h none
      else t.invokeFinalizer h (.finalizer h)

/-- `finalize_at_teardown`. -/
def finalizeAtTeardown (s : State) (h : ℕ) : State :=
  match s.hints h with
  | none => { s with fault := true }
  | some x =>
    let t :=
      match x.arrayBuffer with
      | none => s
      | some b =>
        let t := (s.setHint h { x with detaching := true }).detach b
        match t.hints h with
        | none => { t with fault := true }
        | some x => t.setHint h { x with detaching := false }
    t.invokeFinalizer h (.teardown h (((t.hints h).map Hint.released).getD false))

/-- `create_external_backing_store`, of an env that has its context. -/
def createHint (s : State) (finalizeCb : Bool) : State :=
  { s with
    hints := update s.hints s.nextHint (some { finalizeCb })
    nextHint := s.nextHint + 1
    pendingFinalizers :=
      if finalizeCb && !s.finalizersDone then s.nextHint :: s.pendingFinalizers
      else s.pendingFinalizers
    owed := update s.owed s.nextHint finalizeCb }

/-- A new object that carries the hint `h`. -/
def carry (s : State) (kind : Kind) (h : ℕ) : State :=
  { s with
    objects := update s.objects s.nextObject (some { kind, hint := some h })
    nextObject := s.nextObject + 1 }

/-- Takes the callback of `h` out of account. -/
def waive (s : State) (h : ℕ) : State := { s with owed := update s.owed h false }

/-! ## What user code does -/

def userRuns (s : State) : Bool :=
  match s.stack with
  | [] => true
  | .finalizer _ :: _ | .release _ _ :: _ | .teardown _ _ :: _ | .hook :: _ => true
  | .wrapFailed _ :: _ | .preparing _ :: _ => false

/-- The detach of `b` is inside its free callback, and holds `b`. -/
def detaching (s : State) (b : ℕ) : Prop := ∃ h, .release h (some b) ∈ s.stack

instance (s : State) (b : ℕ) : Decidable (s.detaching b) :=
  decidable_of_iff (∃ k ∈ s.stack, ∃ h ∈ k.hint?, k = .release h (some b)) (by
    constructor
    · rintro ⟨k, hk, h, -, rfl⟩
      exact ⟨h, hk⟩
    · rintro ⟨h, hk⟩
      exact ⟨_, hk, h, rfl, rfl⟩)

/-- Objects die under user code, and once the finalizers are done. -/
def engineFrees (s : State) : Bool :=
  s.userRuns || s.stack.head? == some (.preparing .done)

def createExternal (s : State) (finalizeCb : Bool) : State :=
  (s.createHint finalizeCb).carry .external s.nextHint

/-- `track_array_buffer`. -/
def trackArrayBuffer (s : State) (h b : ℕ) : State :=
  match s.hints h with
  | none => { s with fault := true }
  | some x =>
    if !x.finalizeCb || x.finalizeInvoked then s
    else s.setHint h { x with arrayBuffer := some b }

/-- `napi_create_external_arraybuffer`. -/
def createArraybuffer (s : State) (finalizeCb tracked : Bool) : State :=
  let t := (s.createHint finalizeCb).carry .buffer s.nextHint
  if tracked then t.trackArrayBuffer s.nextHint s.nextObject else t

def createFailed (s : State) (finalizeCb : Bool) : State :=
  ((s.createHint finalizeCb).waive s.nextHint).destroy s.nextHint

/-- `napi_wrap`. -/
def wrap (s : State) (finalizeCb : Bool) : Outcome → State
  | .attached => (s.createHint finalizeCb).carry .record s.nextHint
  | .refused => (s.createHint finalizeCb).invokeFinalizer s.nextHint (.finalizer s.nextHint)
  | .threw =>
    let t := s.createHint finalizeCb
    { t with stack := .wrapFailed s.nextHint :: t.stack }.invokeFinalizer s.nextHint
      (.finalizer s.nextHint)

def wrapRecord (s : State) (finalizeCb : Bool) (r : ℕ) : Option State :=
  match s.objects r with
  | some ⟨.record, none⟩ =>
    some ((s.createHint finalizeCb).setObject r (some ⟨.record, some s.nextHint⟩))
  | _ => none

/-- `napi_remove_wrap`. -/
def removeWrap (s : State) (r : ℕ) (cleared : Bool) : Option State :=
  match s.objects r with
  | some ⟨.record, some h⟩ =>
    match s.hints h with
    | none => some { s with fault := true }
    | some x =>
      if x.finalizeInvoked then some s
      else
        let t := if cleared then s.setObject r (some ⟨.record, none⟩) else s
        some ((t.waive h).destroy h)
  | _ => none

def transfer (s : State) (b : ℕ) : State :=
  match s.objects b with
  | some ⟨.buffer, some h⟩ => (s.setObject b (some ⟨.buffer, none⟩)).carry .buffer h
  | _ => s

/-! ## Teardown -/

/-- `abandon_finalizer` for all that is still pending. -/
def abandonAll (s : State) : State :=
  { s with
    hints := fun h => if h ∈ s.pendingFinalizers then
      (s.hints h).map fun x => { x with arrayBuffer := none } else s.hints h
    pendingFinalizers := [] }

/-- `prepare_teardown` from one call to the next. `fs` is what it was called from. -/
def prepare (s : State) (fs : List Frame) : Phase → State
  | .hooks =>
    if s.cleanupHooks = 0 then { s with stack := .preparing .check :: fs }
    else { s with cleanupHooks := s.cleanupHooks - 1, stack := .hook :: .preparing .hooks :: fs }
  | .check =>
    if s.pendingFinalizers = [] then { s with stack := .preparing .instanceData :: fs }
    else { s with stack := .preparing .values :: fs }
  | .values =>
    match s.pendingFinalizers with
    | [] => { s with stack := .preparing .hooks :: fs }
    | h :: _ => s.finalizeAtTeardown h
  | .instanceData =>
    if s.instanceData then
      { s with instanceData := false, stack := .hook :: .preparing .hooks :: fs }
    else { s with stack := .preparing .finish :: fs }
  | .finish => { s.abandonAll with finalizersDone := true, stack := .preparing .done :: fs }
  | .done => { s with tornDown := true, stack := fs }

end State

open State

/-- Native code that goes on by itself. -/
def tick (s : State) : Option State :=
  match s.stack with
  | .preparing phase :: fs => some (s.prepare fs phase)
  -- `set_weak_target` on the hint, and `destroy`.
  | .wrapFailed h :: fs =>
    some ({ s with stack := fs, fault := s.fault || (s.hints h).isNone }.destroy h)
  | _ => none

def ret (s : State) : Option State :=
  match s.stack with
  | .hook :: fs => some { s with stack := fs }
  | .finalizer h :: fs => some ({ s with stack := fs }.after (.finalizer h))
  | .release h buffer :: fs => some ({ s with stack := fs }.after (.release h buffer))
  | .teardown h released :: fs => some ({ s with stack := fs }.after (.teardown h released))
  | _ => none

def step (s : State) (a : Act) : Option State :=
  match a with
  | .ret => ret s
  | .tick => tick s
  | .die o =>
    if s.engineFrees ∧ ¬ s.detaching o then some (s.die o) else none
  | _ =>
    if !s.userRuns then none
    else
      match a with
      -- Without its context the env makes nothing.
      | .createExternal cb => some (if s.tornDown then s else s.createExternal cb)
      | .createArraybuffer cb tracked =>
        some (if s.tornDown then s else s.createArraybuffer cb tracked)
      | .createFailed cb => some (if s.tornDown then s else s.createFailed cb)
      | .wrap cb outcome => some (if s.tornDown then s else s.wrap cb outcome)
      | .wrapRecord cb r => if s.tornDown then some s else s.wrapRecord cb r
      | .removeWrap r cleared => if s.tornDown then some s else s.removeWrap r cleared
      | .detach b => some (s.detach b)
      | .transfer b => some (s.transfer b)
      | .addCleanupHook => some { s with cleanupHooks := s.cleanupHooks + 1 }
      | .setInstanceData present => some { s with instanceData := present }
      | .release =>
        if s.releasing then some s
        else
          some { s with
            releasing := true
            closing := true
            stack := .preparing .hooks :: s.stack }
      | .die _ | .ret | .tick => none

end WasmerNapi.Quickjs.Hints
