import Mathlib

/-!
# Native functions of the QuickJS backend

`invoke_callback` in `src/quickjs/src/internal/napi_function.cc`, and the functions that
`napi_create_function`, `napi_define_class` and `napi_define_properties` make for it to run.

The engine is taken at what the trampoline relies on: a construct call hands a C data function
its `new.target` where a plain call hands it the receiver, refuses a function without the
constructor bit, and gives back what the function returned.
-/

namespace WasmerNapi.Quickjs.Functions

abbrev Object := ℕ

inductive Value where
  | undefined
  | null
  | boolean (b : Bool)
  | number (bits : UInt64)
  | bigint (n : ℤ)
  | string (text : List UInt16)
  | symbol (id : ℕ)
  | object (o : Object)
  deriving DecidableEq

def Value.IsObject : Value → Prop
  | .object _ => True
  | _ => False

/-- What reading an object's `prototype` property comes to: a getter may throw. -/
inductive Lookup where
  | value (v : Value)
  | throws

/-- The object a `prototype` property names, if it does. -/
def Lookup.object? : Lookup → Option Object
  | .value (.object o) => some o
  | _ => none

/-- The engine's objects, those below `size`, as far as a call looks at them. -/
structure Heap where
  size : ℕ
  isConstructor : Object → Bool
  prototype : Object → Lookup
  /-- `[[Prototype]]` -/
  proto : Object → Option Object

/-- `JS_IsConstructor` -/
def Heap.constructs (heap : Heap) : Value → Bool
  | .object o => heap.isConstructor o
  | _ => false

/-- `JS_GetPropertyStr` of `prototype` -/
def Heap.prototypeOf (heap : Heap) : Value → Lookup
  | .object o => heap.prototype o
  | _ => .value .undefined

/-- `JS_NewObjectProto`: a prototype that is no object, and an exception, stand for none. -/
def Heap.newObjectProto (heap : Heap) (proto : Lookup) : Object × Heap :=
  (heap.size,
    { size := heap.size + 1
      isConstructor := Function.update heap.isConstructor heap.size false
      prototype := Function.update heap.prototype heap.size (.value .undefined)
      proto := Function.update heap.proto heap.size proto.object? })

/-! ## Callbacks -/

/-- `napi_callback_info__` -/
structure Info where
  thisValue : Value
  newTarget : Value
  argv : List Value
  data : ℕ

/-- `napi_get_new_target`, none for `nullptr`. -/
def getNewTarget (info : Info) : Option Value :=
  if info.newTarget = .undefined then none else some info.newTarget

/-- What a callback leaves: its result, null or what the handle holds, the exception pending
    in the env, and whether the env is terminating. -/
structure Ending where
  result : Option Value := none
  lastException : Option Value := none
  terminationRequested : Bool := false

abbrev Callback := Heap → Info → Ending

/-- The magic number of a C data function. -/
inductive Magic where
  | zero
  | generic
  | constructor
  | getter
  | setter
  deriving DecidableEq

structure NativeFunction where
  callback : Callback
  data : ℕ
  magic : Magic
  constructorBit : Bool := false

/-- The env, as far as running a callback looks at it. -/
structure Env where
  /-- `check_env` -/
  checked : Bool := true
  finalizersDone : Bool := false
  terminationRequested : Bool := false
  /-- Whether a handle scope can be allocated, and an object. -/
  scopeOpens : Bool := true
  objectAllocates : Bool := true
  lastException : Option Value := none

/-- The env runs native callbacks, and memory lasts. -/
structure Env.Runs (env : Env) : Prop where
  checked : env.checked = true
  live : env.finalizersDone = false
  going : env.terminationRequested = false
  scope : env.scopeOpens = true
  object : env.objectAllocates = true

inductive Thrown where
  | nullEnv
  | outOfMemory
  | termination
  | notAConstructor
  /-- The exception the callback left pending. -/
  | pending (exception : Value)
  deriving DecidableEq

inductive Completion where
  | returned (value : Value)
  | threw (exception : Thrown)
  deriving DecidableEq

/-- A call of the trampoline: what its callback was run with, if it was, how it completed, and
    the exception pending in the env after it. -/
structure Invocation where
  ran : Option (Heap × Info)
  completion : Completion
  lastException : Option Value

/-- How the trampoline completes after the callback; `effectiveThis` is the object a construct
    call made. -/
def complete (effectiveThis : Option Object) (ending : Ending) : Completion :=
  if ending.terminationRequested then .threw .termination
  else
    match ending.lastException with
    | some exception => .threw (.pending exception)
    | none =>
      match ending.result, effectiveThis with
      | some value, _ => .returned value
      | none, some o => .returned (.object o)
      | none, none => .returned .undefined

/-- The magic number and the receiver decide what counts as a construct call. -/
def calledAsConstructor (heap : Heap) (magic : Magic) (thisVal : Value) : Bool :=
  magic = .constructor || (magic = .zero && heap.constructs thisVal)

/-- `invoke_callback`. The exception pending before is set aside and is the one pending
    after. -/
def invokeCallback (env : Env) (f : NativeFunction) (heap : Heap) (thisVal : Value)
    (argv : List Value) : Invocation :=
  let stopped (e : Thrown) : Invocation :=
    { ran := none, completion := .threw e, lastException := env.lastException }
  if !env.checked || env.finalizersDone then stopped .nullEnv
  else if env.terminationRequested then stopped .termination
  else if !env.scopeOpens then stopped .outOfMemory
  else if calledAsConstructor heap f.magic thisVal then
    if !env.objectAllocates then stopped .outOfMemory
    else
      let made := heap.newObjectProto (heap.prototypeOf thisVal)
      let info : Info :=
        { thisValue := .object made.1, newTarget := thisVal, argv := argv, data := f.data }
      { ran := some (made.2, info)
        completion := complete (some made.1) (f.callback made.2 info)
        lastException := env.lastException }
  else
    let info : Info :=
      { thisValue := thisVal, newTarget := .undefined, argv := argv, data := f.data }
    { ran := some (heap, info)
      completion := complete none (f.callback heap info)
      lastException := env.lastException }

/-! ## Making functions -/

inductive Status where
  | invalidArg
  | nameExpected
  | pendingException
  deriving DecidableEq

/-- `napi_function__::create` -/
def create (cb : Option Callback) (data : ℕ) (magic : Magic) : Except Status NativeFunction :=
  match cb with
  | none => .error .invalidArg
  | some callback => .ok { callback := callback, data := data, magic := magic }

/-- `napi_create_function` -/
def napiCreateFunction (cb : Option Callback) (data : ℕ) : Except Status NativeFunction :=
  create cb data .zero

/-- `napi_function__::create_internal` -/
def createInternal (cb : Callback) (data : ℕ) : NativeFunction :=
  { callback := cb, data := data, magic := .zero }

/-- `napi_function__::make_constructible`, and what `napi_define_class` does of it. -/
def makeConstructible (f : NativeFunction) : NativeFunction := { f with constructorBit := true }

/-- `napi_property_attributes` -/
structure Attributes where
  writable : Bool := false
  enumerable : Bool := false
  configurable : Bool := false
  isStatic : Bool := false

/-- `napi_property_descriptor` -/
structure Descriptor where
  utf8name : Option (List UInt8) := none
  name : Option Value := none
  method : Option Callback := none
  getter : Option Callback := none
  setter : Option Callback := none
  value : Option Value := none
  attributes : Attributes := {}
  data : ℕ := 0

/-- What a property key is made from. -/
inductive Key where
  | utf8 (bytes : List UInt8)
  | value (v : Value)

/-- The flags a property is defined with; a writable flag the definition does not give is
    none. -/
structure Flags where
  configurable : Bool
  enumerable : Bool
  writable : Option Bool

inductive Content where
  | method (f : NativeFunction)
  | accessor (getter setter : Option NativeFunction)
  | value (v : Value)

/-- A property that was defined, on the class's prototype or on the object itself. -/
structure Member where
  onPrototype : Bool
  key : Key
  flags : Flags
  content : Content

def Content.functions : Content → List NativeFunction
  | .method f => [f]
  | .accessor getter setter => getter.toList ++ setter.toList
  | .value _ => []

def Value.IsName : Value → Prop
  | .string _ => True
  | .symbol _ => True
  | _ => False

instance (v : Value) : Decidable v.IsName :=
  match v with
  | .undefined => .isFalse id
  | .null => .isFalse id
  | .boolean _ => .isFalse id
  | .number _ => .isFalse id
  | .bigint _ => .isFalse id
  | .string _ => .isTrue trivial
  | .symbol _ => .isTrue trivial
  | .object _ => .isFalse id

/-- The key of a class's member. -/
def classKey (desc : Descriptor) : Except Status Key :=
  match desc.utf8name, desc.name with
  | some bytes, _ => .ok (.utf8 bytes)
  | none, some v => if v.IsName then .ok (.value v) else .error .nameExpected
  | none, none => .error .nameExpected

/-- What `napi_define_class` defines for a descriptor, which may be nothing. -/
def classContent (desc : Descriptor) : Option (Content × Option Bool) :=
  match desc.method with
  | some method =>
    some (.method { callback := method, data := desc.data, magic := .generic },
      some desc.attributes.writable)
  | none =>
    if desc.getter.isSome || desc.setter.isSome then
      let make (magic : Magic) (cb : Callback) : NativeFunction :=
        { callback := cb, data := desc.data, magic := magic }
      some (.accessor (desc.getter.map (make .getter)) (desc.setter.map (make .setter)), none)
    else desc.value.map fun v => (.value v, some desc.attributes.writable)

/-- The member of a class a descriptor makes. -/
def classMember (desc : Descriptor) : Except Status (Option Member) := do
  let key ← classKey desc
  return (classContent desc).map fun content =>
    { onPrototype := !desc.attributes.isStatic
      key := key
      flags :=
        { configurable := desc.attributes.configurable
          enumerable := desc.attributes.enumerable
          writable := content.2 }
      content := content.1 }

/-- `napi_define_class`: the constructor and the members. -/
def napiDefineClass (constructor : Option Callback) (data : ℕ) (properties : List Descriptor) :
    Except Status (NativeFunction × List Member) := do
  let ctor ← create constructor data .zero
  let members ← properties.mapM classMember
  return (makeConstructible ctor, members.filterMap id)

/-- What the engine refuses in `napi_define_properties`: a key, or a definition on the
    object. -/
structure Refuses where
  key : Value → Bool := fun _ => false
  definition : Key → Bool := fun _ => false

/-- What `napi_define_properties` defines for a descriptor; it reads the value of one that
    names no function without looking whether there is one. -/
def propertyContent (desc : Descriptor) : Content :=
  if desc.getter.isSome || desc.setter.isSome then
    let make (cb : Callback) : NativeFunction := createInternal cb desc.data
    .accessor (desc.getter.map make) (desc.setter.map make)
  else
    match desc.method with
    | some method => .method (makeConstructible (createInternal method desc.data))
    | none => .value (desc.value.getD .undefined)

def propertyWritable (desc : Descriptor) : Option Bool :=
  if desc.getter.isSome || desc.setter.isSome then none
  else if desc.attributes.writable then some true
  else none

def propertyMember (desc : Descriptor) (key : Key) : Member :=
  { onPrototype := false
    key := key
    flags :=
      { configurable := desc.attributes.configurable
        enumerable := desc.attributes.enumerable
        writable := propertyWritable desc }
    content := propertyContent desc }

def propertyKey (refuses : Refuses) (desc : Descriptor) : Except Status Key :=
  match desc.utf8name, desc.name with
  | some bytes, _ => .ok (.utf8 bytes)
  | none, some v => if refuses.key v then .error .pendingException else .ok (.value v)
  | none, none => .error .invalidArg

/-- `napi_define_properties`: the properties defined, and the status. What was defined before
    a failure stays. -/
def napiDefineProperties (refuses : Refuses) : List Descriptor → List Member × Except Status Unit
  | [] => ([], .ok ())
  | desc :: descs =>
    match propertyKey refuses desc with
    | .error status => ([], .error status)
    | .ok key =>
      if refuses.definition key then ([], .error .pendingException)
      else
        let rest := napiDefineProperties refuses descs
        (propertyMember desc key :: rest.1, rest.2)

/-- The functions N-API makes. -/
inductive Made : NativeFunction → Prop where
  | function {cb data f} (h : napiCreateFunction cb data = .ok f) : Made f
  | constructor {cb data properties f members}
      (h : napiDefineClass cb data properties = .ok (f, members)) : Made f
  | member {cb data properties ctor members m f}
      (h : napiDefineClass cb data properties = .ok (ctor, members))
      (hm : m ∈ members) (hf : f ∈ m.content.functions) : Made f
  | property {refuses descs m f} (hm : m ∈ (napiDefineProperties refuses descs).1)
      (hf : f ∈ m.content.functions) : Made f

/-! ## Calls -/

/-- A call of a function in a heap; what a construct call names as its `new.target` is a
    constructor. -/
inductive Call (heap : Heap) where
  | plain (receiver : Value)
  | construct (newTarget : Object) (isObject : newTarget < heap.size)
      (isConstructor : heap.isConstructor newTarget = true)

/-- The engine's call of a native function. -/
def call (env : Env) (f : NativeFunction) (heap : Heap) (argv : List Value) :
    Call heap → Invocation
  | .plain receiver => invokeCallback env f heap receiver argv
  | .construct newTarget _ _ =>
    if f.constructorBit then invokeCallback env f heap (.object newTarget) argv
    else { ran := none, completion := .threw .notAConstructor, lastException := env.lastException }

/-- What a construct call runs the callback with. -/
def constructInfo (f : NativeFunction) (heap : Heap) (argv : List Value) (newTarget : Object) :
    Heap × Info :=
  let made := heap.newObjectProto (heap.prototype newTarget)
  (made.2,
    { thisValue := .object made.1, newTarget := .object newTarget, argv := argv, data := f.data })

/-- The callback sees a plain call of a receiver. -/
structure SeesPlain (f : NativeFunction) (heap : Heap) (argv : List Value) (receiver : Value)
    (after : Heap) (info : Info) : Prop where
  heap : after = heap
  this : info.thisValue = receiver
  newTarget : getNewTarget info = none
  argv : info.argv = argv
  data : info.data = f.data

/-- The callback sees a construct call: `this` is an object that was not there before, whose
    prototype is the constructor's. -/
structure SeesConstruct (f : NativeFunction) (heap : Heap) (argv : List Value)
    (newTarget : Object) (after : Heap) (info : Info) : Prop where
  this : ∃ o, info.thisValue = .object o ∧ heap.size ≤ o ∧ o < after.size ∧
    after.proto o = (heap.prototype newTarget).object?
  newTarget : getNewTarget info = some (.object newTarget)
  argv : info.argv = argv
  data : info.data = f.data

/-- The callback sees the call that was made, and a construct call that completes yields an
    object. -/
def Seen (f : NativeFunction) (heap : Heap) (argv : List Value) (invocation : Invocation) :
    Call heap → Prop
  | .plain receiver =>
    ∃ after info, invocation.ran = some (after, info) ∧
      SeesPlain f heap argv receiver after info
  | .construct newTarget _ _ =>
    (∃ after info, invocation.ran = some (after, info) ∧
      SeesConstruct f heap argv newTarget after info) ∧
      ∀ v, invocation.completion = .returned v → v.IsObject

/-- What the callback answers a construct call with, when it answers with a value. -/
def Ending.answer (ending : Ending) : Option Value :=
  if ending.terminationRequested || ending.lastException.isSome then none else ending.result

/-- The condition: a plain call of a function without a magic number is not on a constructor;
    a construct call is of a function with the constructor bit, and is not answered with a
    value that is no object. -/
def Tells (f : NativeFunction) (heap : Heap) (argv : List Value) : Call heap → Prop
  | .plain receiver => f.magic = .zero → heap.constructs receiver = false
  | .construct newTarget _ _ =>
    f.constructorBit = true ∧
      ∀ v, (f.callback (constructInfo f heap argv newTarget).1
        (constructInfo f heap argv newTarget).2).answer = some v → v.IsObject

/-! ## What the makers give -/

variable {desc : Descriptor}

theorem classContent_magic {content : Content × Option Bool} (h : classContent desc = some content) :
    ∀ f ∈ content.1.functions, f.constructorBit = false ∧ f.magic ≠ .constructor := by
  unfold classContent at h
  cases hm : desc.method with
  | some method =>
    simp only [hm, Option.some.injEq] at h
    subst h
    intro f hf
    simp only [Content.functions, List.mem_singleton] at hf
    subst hf
    simp
  | none =>
    simp only [hm] at h
    split at h
    · simp only [Option.some.injEq] at h
      subst h
      intro f hf
      simp only [Content.functions, List.mem_append, Option.mem_toList,
        Option.map_eq_some_iff] at hf
      rcases hf with ⟨cb, _, rfl⟩ | ⟨cb, _, rfl⟩
      · simp
      · simp
    · obtain ⟨v, _, rfl⟩ := Option.map_eq_some_iff.mp h
      intro f hf
      simp [Content.functions] at hf

theorem classMember_magic {m : Member} (h : classMember desc = .ok (some m)) :
    ∀ f ∈ m.content.functions, f.constructorBit = false ∧ f.magic ≠ .constructor := by
  unfold classMember at h
  cases hk : classKey desc with
  | error status => simp [hk, bind, Except.bind] at h
  | ok key =>
    simp only [hk, bind, Except.bind, pure, Except.pure, Except.ok.injEq] at h
    obtain ⟨content, hc, rfl⟩ := Option.map_eq_some_iff.mp h
    exact classContent_magic hc

/-- What a class's members came from. -/
theorem mapM_classMember {descs : List Descriptor} {members : List (Option Member)}
    (h : descs.mapM classMember = .ok members) :
    ∀ m ∈ members, ∃ desc ∈ descs, classMember desc = .ok m := by
  induction descs generalizing members with
  | nil =>
    simp only [List.mapM_nil, pure, Except.pure, Except.ok.injEq] at h
    subst h
    intro m hm
    simp at hm
  | cons desc descs ih =>
    simp only [List.mapM_cons, bind, Except.bind, pure, Except.pure] at h
    cases hd : classMember desc with
    | error status => simp [hd] at h
    | ok first =>
      cases hr : descs.mapM classMember with
      | error status => simp [hd, hr] at h
      | ok rest =>
        simp only [hd, hr, Except.ok.injEq] at h
        subst h
        intro m hm
        rcases List.mem_cons.mp hm with rfl | hm
        · exact ⟨desc, by simp, hd⟩
        · obtain ⟨d, hd', he⟩ := ih hr m hm
          exact ⟨d, by simp [hd'], he⟩

theorem propertyContent_magic :
    ∀ f ∈ (propertyContent desc).functions, f.magic = .zero := by
  intro f hf
  unfold propertyContent at hf
  split at hf
  · simp only [Content.functions, List.mem_append, Option.mem_toList,
      Option.map_eq_some_iff] at hf
    rcases hf with ⟨cb, _, rfl⟩ | ⟨cb, _, rfl⟩
    · rfl
    · rfl
  · cases hm : desc.method with
    | some method =>
      simp only [hm, Content.functions, List.mem_singleton] at hf
      subst hf
      rfl
    | none => simp [hm, Content.functions] at hf

theorem napiDefineProperties_magic {refuses : Refuses} {descs : List Descriptor} :
    ∀ m ∈ (napiDefineProperties refuses descs).1, ∀ f ∈ m.content.functions,
      f.magic = .zero := by
  induction descs with
  | nil =>
    intro m hm
    simp [napiDefineProperties] at hm
  | cons desc descs ih =>
    intro m hm
    unfold napiDefineProperties at hm
    cases hk : propertyKey refuses desc with
    | error status => simp [hk] at hm
    | ok key =>
      simp only [hk] at hm
      split at hm
      · simp at hm
      · rcases List.mem_cons.mp hm with rfl | hm
        · exact propertyContent_magic
        · exact ih m hm

variable {f : NativeFunction}

theorem create_ok {cb : Option Callback} {data : ℕ} {magic : Magic}
    (h : create cb data magic = .ok f) : f.magic = magic ∧ f.constructorBit = false := by
  cases cb with
  | none => simp [create] at h
  | some callback =>
    simp only [create, Except.ok.injEq] at h
    subst h
    exact ⟨rfl, rfl⟩

theorem napiDefineClass_ok {constructor : Option Callback} {data : ℕ}
    {properties : List Descriptor} {members : List Member}
    (h : napiDefineClass constructor data properties = .ok (f, members)) :
    f.magic = .zero ∧ ∀ m ∈ members, ∃ desc ∈ properties, classMember desc = .ok (some m) := by
  unfold napiDefineClass at h
  cases hc : create constructor data .zero with
  | error status => simp [hc, bind, Except.bind] at h
  | ok ctor =>
    cases hp : properties.mapM classMember with
    | error status => simp [hc, hp, bind, Except.bind] at h
    | ok all =>
      simp only [hc, hp, bind, Except.bind, pure, Except.pure, Except.ok.injEq,
        Prod.mk.injEq] at h
      obtain ⟨rfl, rfl⟩ := h
      refine ⟨(create_ok hc).1, fun m hm => ?_⟩
      have hm : some m ∈ all := by simpa using hm
      exact mapM_classMember hp _ hm

/-- No function carries the constructor's magic number, and one with the constructor bit
    carries none. -/
theorem Made.magic (h : Made f) :
    f.magic ≠ .constructor ∧ (f.constructorBit = true → f.magic = .zero) := by
  cases h with
  | function h =>
    have hf := create_ok h
    exact ⟨by simp [hf.1], fun _ => hf.1⟩
  | constructor h =>
    have hf := (napiDefineClass_ok h).1
    exact ⟨by simp [hf], fun _ => hf⟩
  | member h hm hf =>
    obtain ⟨desc, _, hd⟩ := (napiDefineClass_ok h).2 _ hm
    have hf := classMember_magic hd _ hf
    exact ⟨hf.2, fun hc => absurd hc (by simp [hf.1])⟩
  | property hm hf =>
    have hf := napiDefineProperties_magic _ hm _ hf
    exact ⟨by simp [hf], fun _ => hf⟩

/-! ## What the callback sees -/

variable {env : Env} {heap : Heap} {argv : List Value}

theorem invokeCallback_plain {thisVal : Value} (runs : env.Runs)
    (h : calledAsConstructor heap f.magic thisVal = false) :
    (invokeCallback env f heap thisVal argv).ran =
      some (heap, { thisValue := thisVal, newTarget := .undefined, argv := argv,
                    data := f.data }) := by
  simp [invokeCallback, runs.checked, runs.live, runs.going, runs.scope, h]

theorem invokeCallback_construct {o : Object} (runs : env.Runs)
    (h : calledAsConstructor heap f.magic (.object o) = true) :
    invokeCallback env f heap (.object o) argv =
      { ran := some (constructInfo f heap argv o)
        completion := complete (some heap.size)
          (f.callback (constructInfo f heap argv o).1 (constructInfo f heap argv o).2)
        lastException := env.lastException } := by
  simp [invokeCallback, runs.checked, runs.live, runs.going, runs.scope, runs.object, h,
    constructInfo, Heap.newObjectProto, Heap.prototypeOf]

theorem constructInfo_sees (f : NativeFunction) (heap : Heap) (argv : List Value)
    (newTarget : Object) :
    SeesConstruct f heap argv newTarget (constructInfo f heap argv newTarget).1
      (constructInfo f heap argv newTarget).2 := by
  refine ⟨⟨heap.size, rfl, Nat.le_refl _, ?_, ?_⟩, ?_, rfl, rfl⟩
  · simp [constructInfo, Heap.newObjectProto]
  · simp [constructInfo, Heap.newObjectProto]
  · simp [constructInfo, getNewTarget]

/-- What a construct call completes with: the callback's answer, or the object it made. -/
theorem complete_construct (o : Object) (ending : Ending) :
    (∀ v, complete (some o) ending = .returned v → v.IsObject) ↔
      ∀ v, ending.answer = some v → v.IsObject := by
  unfold complete Ending.answer
  cases ending.terminationRequested with
  | true => simp
  | false =>
    cases ending.lastException with
    | some exception => simp
    | none =>
      cases ending.result with
      | some value => simp
      | none => simp [Value.IsObject]

/-- A callback that was given a `new.target` does not see a plain call. -/
theorem not_seesPlain_construct {after : Heap} {receiver : Value} {o : Object} :
    ¬ SeesPlain f heap argv receiver after (constructInfo f heap argv o).2 := by
  intro h
  have := h.newTarget
  simp [constructInfo, getNewTarget] at this

theorem plain_seen_iff (made : Made f) (runs : env.Runs) (heap : Heap) (argv : List Value)
    (receiver : Value) :
    Seen f heap argv (call env f heap argv (.plain receiver)) (.plain receiver) ↔
      Tells f heap argv (.plain receiver) := by
  have hnc := made.magic.1
  constructor
  · intro seen hz
    obtain ⟨after, info, hran, hsees⟩ := seen
    cases receiver with
    | object o =>
      -- On a constructor it would have been run as a construct call.
      cases hc : heap.constructs (.object o) with
      | false => rfl
      | true =>
        have hcalled : calledAsConstructor heap f.magic (.object o) = true := by
          simp [calledAsConstructor, hz, hc]
        simp only [call, invokeCallback_construct runs hcalled, Option.some.injEq] at hran
        have hinfo : info = (constructInfo f heap argv o).2 := by rw [hran]
        subst hinfo
        exact absurd hsees not_seesPlain_construct
    | undefined => rfl
    | null => rfl
    | boolean b => rfl
    | number bits => rfl
    | bigint n => rfl
    | string text => rfl
    | symbol id => rfl
  · intro tells
    have hcalled : calledAsConstructor heap f.magic receiver = false := by
      simp only [calledAsConstructor, Bool.or_eq_false_iff, decide_eq_false_iff_not,
        Bool.and_eq_false_imp, decide_eq_true_eq]
      exact ⟨hnc, tells⟩
    refine ⟨heap, _, invokeCallback_plain runs hcalled, rfl, rfl, ?_, rfl, rfl⟩
    simp [getNewTarget]

theorem construct_seen_iff (made : Made f) (runs : env.Runs) (heap : Heap) (argv : List Value)
    {newTarget : Object} (ho : newTarget < heap.size) (hn : heap.isConstructor newTarget = true) :
    Seen f heap argv (call env f heap argv (.construct newTarget ho hn))
        (.construct newTarget ho hn) ↔
      Tells f heap argv (.construct newTarget ho hn) := by
  cases hb : f.constructorBit with
  | false =>
    -- The engine refuses the call, and the callback is not run.
    constructor
    · intro seen
      obtain ⟨⟨after, info, hran, _⟩, _⟩ := seen
      simp [call, hb] at hran
    · intro tells
      exact absurd tells.1 (by simp [hb])
  | true =>
    have hcalled : calledAsConstructor heap f.magic (.object newTarget) = true := by
      simp [calledAsConstructor, made.magic.2 hb, Heap.constructs, hn]
    simp only [Seen, Tells, call, hb, if_true, invokeCallback_construct runs hcalled,
      complete_construct, true_and]
    constructor
    · intro seen
      exact seen.2
    · intro tells
      exact ⟨⟨_, _, rfl, constructInfo_sees f heap argv newTarget⟩, tells⟩

/-- The callback of a function N-API made sees the call that was made, and a construct call
    yields an object, exactly when the magic number and the receiver tell the call apart, the
    function can be constructed and the callback answers with no other value than an object. -/
theorem seen_iff_tells {env : Env} {f : NativeFunction} (made : Made f) (runs : env.Runs)
    (heap : Heap) (argv : List Value) (c : Call heap) :
    Seen f heap argv (call env f heap argv c) c ↔ Tells f heap argv c := by
  cases c with
  | plain receiver => exact plain_seen_iff made runs heap argv receiver
  | construct newTarget ho hn => exact construct_seen_iff made runs heap argv ho hn

/-- A heap with one constructor, object 0, whose prototype is object 1. -/
def oneClass : Heap where
  size := 2
  isConstructor o := o == 0
  prototype o := if o = 0 then .value (.object 1) else .value .undefined
  proto _ := none

/-- A callback that returns nothing. -/
def silent : NativeFunction := { callback := fun _ _ => {}, data := 0, magic := .zero }

theorem silent_made : Made silent := .function (rfl : napiCreateFunction (some fun _ _ => {}) 0 = _)

theorem env_runs : Env.Runs {} := ⟨rfl, rfl, rfl, rfl, rfl⟩

/-- A function of `napi_create_function` called as a static method of a class. -/
theorem static_call_constructs :
    ¬ Seen silent oneClass [] (call {} silent oneClass [] (.plain (.object 0)))
      (.plain (.object 0)) := by
  intro seen
  obtain ⟨after, info, hran, hsees⟩ := seen
  have hcalled : calledAsConstructor oneClass silent.magic (.object 0) = true := by decide
  simp only [call, invokeCallback_construct env_runs hcalled, Option.some.injEq] at hran
  have hinfo : info = (constructInfo silent oneClass [] 0).2 := by rw [hran]
  subst hinfo
  exact not_seesPlain_construct hsees

/-- The same function called as a method of the class's prototype. -/
theorem method_call_seen :
    Seen silent oneClass [] (call {} silent oneClass [] (.plain (.object 1)))
      (.plain (.object 1)) :=
  (seen_iff_tells silent_made env_runs oneClass [] (.plain (.object 1))).mpr (by
    intro _
    decide)

end WasmerNapi.Quickjs.Functions
