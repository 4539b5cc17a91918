import WasmerNapi.HostJs.Handles
import WasmerNapi.Lib.Indexed
import WasmerNapi.Lib.Run

/-!
# Wraps and finalizers of the host's JavaScript

An object's wrap goes by an id that a WeakMap keeps for the object. A guest finalizer is a record in
an indexed vector, watched for by the host's FinalizationRegistry, which queues the record's id once
the object has been collected. Guest finalizers run on a drain: an ordinary one takes what is
queued, a forced one takes everything. While the guest's store is busy the call is refused, and the
record is put back.

A call of the guest is a label, with the value its handle names. `drains` holds the drains that are
running, innermost first, for a finalizer may call all of this again.
-/

namespace WasmerNapi.HostJs.Finalizers

open Function (update)

def u32Max : ℕ := 2 ^ 32 - 1

/-- `CALLBACK_DEFERRED` -/
def callbackDeferred : ℕ := u32Max

structure GuestFinalizer where
  id : ℕ
  guestEnv : ℕ
  wasmFnPtr : ℕ
  data : ℕ
  hint : ℕ
  wrapId : Option ℕ
  deriving DecidableEq

structure GuestBufferFinalizer where
  id : ℕ
  handleId : ℕ
  guestPtr : ℕ
  recyclable : Bool
  deriving DecidableEq

/-- An agent's two queues. -/
inductive Queue
  | finalizers
  | buffers
  deriving DecidableEq

/-- What `wasmer_napi_finalizer_registry_create` makes, the ready ids of both queues, and the
    host's FinalizationRegistry: the target of each id that is registered. -/
structure Registry where
  watched : ℕ → Option Queue := fun _ => none
  cells : ℕ → Option ℕ := fun _ => none
  next : ℕ := 1
  ready : Queue → List ℕ := fun _ => []

/-- A drain: the finalizer it has taken, and whether the guest has let it in. -/
structure Drain where
  force : Bool
  record : GuestFinalizer
  entered : Bool := false

inductive Event
  | wrapped (object native : ℕ)
  | removed (object : ℕ)
  /-- The finalizer of the object's wrap has returned. -/
  | finalized (object : ℕ)
  | accepted (id : ℕ)
  | ran (id : ℕ) (force : Bool)
  | cancelled (id : ℕ)
  /-- A drain has come to its end, with the ids it was to take and has left. -/
  | drained (force : Bool) (left : List ℕ)
  deriving DecidableEq

/-- `HostJsAgent`, as far as wraps and finalizers go. For the statements: the target of each
    finalizer, the objects that have been collected, the finalizers a forced drain has put back,
    and what has happened, the last event first. -/
structure State where
  /-- A WeakMap. -/
  wrapIds : ℕ → Option ℕ := fun _ => none
  nextWrapId : ℕ := 1
  wraps : ℕ → Option ℕ := fun _ => none
  guestFinalizers : Indexed GuestFinalizer := {}
  wrapFinalizers : ℕ → Option ℕ := fun _ => none
  guestBufferFinalizers : Indexed GuestBufferFinalizer := {}
  registry : Registry := {}
  drains : List Drain := []
  targets : ℕ → Option ℕ := fun _ => none
  collected : List ℕ := []
  forgotten : List ℕ := []
  log : List Event := []

inductive Status
  | ok
  | invalidArg
  | genericFailure
  deriving DecidableEq

/-! ## The queues -/

namespace Registry

def register (g : Registry) (queue : Queue) (target : ℕ) : Option (ℕ × Registry) :=
  if 2 ^ 53 - 1 < g.next then none
  else some (g.next, { g with
    next := g.next + 1
    cells := update g.cells g.next (some target)
    watched := update g.watched g.next (some queue) })

def enqueue (g : Registry) (queue : Queue) (id : ℕ) : Registry :=
  if id ∈ g.ready queue then g
  else { g with ready := update g.ready queue (g.ready queue ++ [id]) }

def unqueue (g : Registry) (queue : Queue) (id : ℕ) : Registry :=
  { g with ready := update g.ready queue ((g.ready queue).erase id) }

/-- Forget the watched object and the id. -/
def remove (g : Registry) (queue : Queue) (id : ℕ) : Registry :=
  let g := match g.watched id with
    | none => g
    | some _ => { g with
        watched := update g.watched id none
        cells := update g.cells id none }
  g.unqueue queue id

/-- The host reports an id: the registry's callback. -/
def report (g : Registry) (id : ℕ) : Registry :=
  let g := { g with cells := update g.cells id none }
  match g.watched id with
  | none => g
  | some queue => { g with watched := update g.watched id none }.enqueue queue id

end Registry

/-! ## Finalizers -/

namespace State

/-- The wrap id of what a handle names; a new one for an object that has none, to `create`. -/
def wrapId (s : State) (value : Option JsValue) (create : Bool) : Option ℕ × State :=
  match value with
  | none => (none, s)
  | some (.primitive _) => (none, s)
  | some (.object o) =>
    match s.wrapIds o with
    | some id => (some id, s)
    | none =>
      if create then
        let candidate := max s.nextWrapId 1
        (some candidate, { s with
          wrapIds := update s.wrapIds o (some candidate)
          nextWrapId := min (candidate + 1) u32Max })
      else (none, s)

def pushGuestFinalizer (s : State) (record : GuestFinalizer) : State :=
  { s with
    guestFinalizers := s.guestFinalizers.push GuestFinalizer.id record
    wrapFinalizers :=
      match record.wrapId with
      | none => s.wrapFinalizers
      | some wrapId => update s.wrapFinalizers wrapId (some record.id) }

def registerGuestFinalizer (s : State) (value : Option JsValue) (guestEnv wasmFnPtr data hint : ℕ)
    (wrapId : Option ℕ) : Bool × State :=
  match value with
  | none => (false, s)
  | some (.primitive _) => (false, s)
  | some (.object o) =>
    match s.registry.register .finalizers o with
    | none => (false, s)
    | some (id, registry) =>
      (true, { s with
        registry
        targets := update s.targets id (some o)
        log := .accepted id :: s.log }.pushGuestFinalizer
          { id, guestEnv, wasmFnPtr, data, hint, wrapId })

def removeGuestFinalizer (s : State) (id : ℕ) : Option (GuestFinalizer × State) :=
  match s.guestFinalizers.remove GuestFinalizer.id id with
  | none => none
  | some (record, guestFinalizers) =>
    some (record, { s with
      guestFinalizers
      wrapFinalizers :=
        match record.wrapId with
        | none => s.wrapFinalizers
        | some wrapId =>
          if s.wrapFinalizers wrapId = some id then update s.wrapFinalizers wrapId none
          else s.wrapFinalizers
      registry := s.registry.remove .finalizers id })

/-- Take ids until one has a record. -/
def takeReadyFrom : List ℕ → State → Option GuestFinalizer × State
  | [], s => (none, s)
  | id :: ids, s =>
    let s := { s with registry := s.registry.unqueue .finalizers id }
    match s.removeGuestFinalizer id with
    | some (record, s) => (some record, s)
    | none => takeReadyFrom ids s

def takeReadyGuestFinalizer (s : State) (force : Bool) : Option GuestFinalizer × State :=
  if force then
    match s.guestFinalizers.items.getLast? with
    | none => (none, s)
    | some last =>
      match s.removeGuestFinalizer last.id with
      | some (record, s) => (some record, s)
      | none => (none, s)
  else takeReadyFrom (s.registry.ready .finalizers) s

/-! ## Buffer finalizers -/

def registerGuestBufferFinalizer (s : State) (value : Option JsValue) (valueId guestPtr : ℕ)
    (recyclable : Bool) : Status × State :=
  match value with
  | none => (.invalidArg, s)
  | some (.primitive _) => (.invalidArg, s)
  | some (.object o) =>
    match s.registry.register .buffers o with
    | none => (.genericFailure, s)
    | some (id, registry) =>
      (.ok, { s with
        registry
        guestBufferFinalizers := s.guestBufferFinalizers.push GuestBufferFinalizer.id
          { id, handleId := valueId, guestPtr, recyclable } })

def removeGuestBufferFinalizer (s : State) (id : ℕ) : Option (GuestBufferFinalizer × State) :=
  match s.guestBufferFinalizers.remove GuestBufferFinalizer.id id with
  | none => none
  | some (record, guestBufferFinalizers) =>
    some (record, { s with
      guestBufferFinalizers
      registry := s.registry.remove .buffers id })

def takeReadyBufferFrom : List ℕ → State → Option GuestBufferFinalizer × State
  | [], s => (none, s)
  | id :: ids, s =>
    let s := { s with registry := s.registry.unqueue .buffers id }
    match s.removeGuestBufferFinalizer id with
    | some (record, s) => (some record, s)
    | none => takeReadyBufferFrom ids s

def takeReadyGuestBufferFinalizer (s : State) (force : Bool) :
    Option GuestBufferFinalizer × State :=
  if force then
    match s.guestBufferFinalizers.items.getLast? with
    | none => (none, s)
    | some last =>
      match s.removeGuestBufferFinalizer last.id with
      | some (record, s) => (some record, s)
      | none => (none, s)
  else takeReadyBufferFrom (s.registry.ready .buffers) s

/-! ## The guest's calls -/

/-- The object whose wrap this is, for the log. -/
def objectOf : Option JsValue → Option ℕ
  | some (.object o) => some o
  | _ => none

/-- Something has happened to the object a handle names. -/
def note (s : State) (value : Option JsValue) (event : ℕ → Event) : State :=
  { s with log := ((objectOf value).map event).toList ++ s.log }

/-- `snapi_bridge_wrap` -/
def wrap (s : State) (value : Option JsValue) (native : ℕ) : Status × State :=
  match s.wrapId value true with
  | (none, s) => (.invalidArg, s)
  | (some wrapId, s) =>
    (.ok, { s with wraps := update s.wraps wrapId (some native) }.note value
      (.wrapped · native))

/-- `snapi_bridge_unwrap` -/
def unwrap (s : State) (value : Option JsValue) : Option ℕ :=
  match s.wrapId value false with
  | (none, _) => none
  | (some wrapId, _) => s.wraps wrapId

/-- `snapi_bridge_remove_wrap` -/
def removeWrap (s : State) (value : Option JsValue) : Status × State :=
  match s.wrapId value false with
  | (none, s) => (.invalidArg, s)
  | (some wrapId, s) =>
    match s.wraps wrapId with
    | none => (.invalidArg, s)
    | some _ =>
      let s := { s with wraps := update s.wraps wrapId none }.note value .removed
      match s.wrapFinalizers wrapId with
      | none => (.ok, s)
      | some id =>
        match s.removeGuestFinalizer id with
        | none => (.ok, s)
        | some (_, s) => (.ok, { s with log := .cancelled id :: s.log })

/-- `snapi_bridge_wrap_finalized` -/
def wrapFinalized (s : State) (value : Option JsValue) (native guestEnv wasmFnPtr data hint : ℕ) :
    Status × State :=
  match s.wrapId value true with
  | (none, s) => (.invalidArg, s)
  | (some wrapId, s) =>
    if (s.wraps wrapId).isSome then (.invalidArg, s)
    else
      match s.registerGuestFinalizer value guestEnv wasmFnPtr data hint (some wrapId) with
      | (false, s) => (.invalidArg, s)
      | (true, s) =>
        (.ok, { s with wraps := update s.wraps wrapId (some native) }.note value
          (.wrapped · native))

/-- `snapi_bridge_add_finalizer_cb` -/
def addFinalizerCb (s : State) (value : Option JsValue) (guestEnv wasmFnPtr data hint : ℕ) :
    Status × State :=
  match s.registerGuestFinalizer value guestEnv wasmFnPtr data hint none with
  | (false, s) => (.invalidArg, s)
  | (true, s) => (.ok, s)

/-! ## Drains -/

/-- The ids a drain takes. -/
def wanted (s : State) (force : Bool) : List ℕ :=
  if force then s.guestFinalizers.items.map GuestFinalizer.id else s.registry.ready .finalizers

/-- The head of the loop of `drain_guest_finalizers`. -/
def drainNext (s : State) (force : Bool) : State :=
  match s.takeReadyGuestFinalizer force with
  | (none, s) => { s with log := .drained force (s.wanted force) :: s.log }
  | (some record, s) => { s with drains := { force, record } :: s.drains }

/-- The finalizer has been deferred. -/
def putBack (s : State) (force : Bool) (record : GuestFinalizer) : State :=
  let s := if force then { s with forgotten := record.id :: s.forgotten }
    else { s with registry := s.registry.enqueue .finalizers record.id }
  s.pushGuestFinalizer record

/-- The finalizer has returned. -/
def finishFinalizer (s : State) (record : GuestFinalizer) : State :=
  match record.wrapId with
  | none => s
  | some wrapId => { s with
      wraps := update s.wraps wrapId none
      log := ((s.targets record.id).map Event.finalized).toList ++ s.log }

/-- Guest code is running. -/
def guestRuns (s : State) : Bool :=
  match s.drains with
  | [] => true
  | drain :: _ => drain.entered

/-- What a handle names has not been collected. -/
def alive (s : State) : Option JsValue → Bool
  | some (.object o) => decide (o ∉ s.collected)
  | _ => true

end State

inductive Action
  | wrap (value : Option JsValue) (native : ℕ)
  | wrapFinalized (value : Option JsValue) (native guestEnv wasmFnPtr data hint : ℕ)
  | unwrap (value : Option JsValue)
  | removeWrap (value : Option JsValue)
  | addFinalizerCb (value : Option JsValue) (guestEnv wasmFnPtr data hint : ℕ)
  | registerBuffer (value : Option JsValue) (valueId guestPtr : ℕ) (recyclable : Bool)
  | takeBuffer (force : Bool)
  | drain (force : Bool)
  /-- The guest lets the finalizer in. -/
  | enter
  /-- It cannot be let in now. -/
  | refuse
  | finalizerReturns (result : ℕ)
  | collect (object : ℕ)
  | report (id : ℕ)

/-- A call of the guest's on what a handle names. -/
def State.called (s : State) (value : Option JsValue) (after : State) : Option State :=
  if s.guestRuns && s.alive value then some after else none

def step (s : State) : Action → Option State
  | .wrap value native => s.called value (s.wrap value native).2
  | .wrapFinalized value native guestEnv wasmFnPtr data hint =>
    s.called value (s.wrapFinalized value native guestEnv wasmFnPtr data hint).2
  | .unwrap value => s.called value s
  | .removeWrap value => s.called value (s.removeWrap value).2
  | .addFinalizerCb value guestEnv wasmFnPtr data hint =>
    s.called value (s.addFinalizerCb value guestEnv wasmFnPtr data hint).2
  | .registerBuffer value valueId guestPtr recyclable =>
    s.called value (s.registerGuestBufferFinalizer value valueId guestPtr recyclable).2
  | .takeBuffer force => s.called none (s.takeReadyGuestBufferFinalizer force).2
  | .drain force => s.called none (s.drainNext force)
  | .enter =>
    match s.drains with
    | { force, record, entered := false } :: drains =>
      some { s with
        drains := { force, record, entered := true } :: drains
        log := .ran record.id force :: s.log }
    | _ => none
  | .refuse =>
    match s.drains with
    | { force, record, entered := false } :: drains =>
      some ({ s with drains }.putBack force record)
    | _ => none
  | .finalizerReturns result =>
    match s.drains with
    | { force, record, entered := true } :: drains =>
      if result = callbackDeferred then some ({ s with drains }.putBack force record)
      else some (({ s with drains }.finishFinalizer record).drainNext force)
    | _ => none
  | .collect object =>
    if object ∈ s.collected then none else some { s with collected := object :: s.collected }
  | .report id =>
    match s.registry.cells id with
    | none => none
    | some object =>
      if object ∈ s.collected then some { s with registry := s.registry.report id } else none

end WasmerNapi.HostJs.Finalizers
