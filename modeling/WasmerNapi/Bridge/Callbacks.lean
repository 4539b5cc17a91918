import WasmerNapi.Lib.Bytes
import WasmerNapi.Lib.Run
import WasmerNapi.Lib.Table
import WasmerNapi.Lib.Word

/-!
# Functions made by the guest, and where their calls go

`napi_create_function`, `napi_define_class` and `napi_define_properties` each make a function
in three steps: the Rust side allocates a registration id, the bridge records the guest's
function pointer and data under it, and a binding that names the id becomes the engine
function's data pointer. A call goes the way back. An id of 0 and a null binding stand for
"no room left", and neither caller looks: the engine then makes a function that does nothing
and the call is `napi_ok`.

The engine is a status in each label. `dispatch_sound` says that in a run whose successful
calls find room for every registration they make, and in which the id counter of no env runs
out, every function made dispatches to its own pointer with its own data.
-/

namespace WasmerNapi.Bridge.Callbacks

structure CbRegistration where
  guestEnv : ℕ
  wasmFnPtr : ℕ
  wasmSetterFnPtr : ℕ
  dataVal : ℕ
  deriving DecidableEq

structure CallbackBinding where
  state : ℕ
  regId : ℕ
  deriving DecidableEq

/-- What an env has of its own: its registrations, and the ids its bindings name. -/
structure EnvState where
  cbRegistry : AList fun _ : ℕ => CbRegistration := ∅
  nextCbRegId : ℕ := 1
  callbackBindings : List ℕ := []

/-- `napi_property_descriptor` as it lies in the guest's memory, in 32 bytes. -/
structure PropertyDescriptor where
  utf8name : ℕ
  name : ℕ
  method : ℕ
  getter : ℕ
  setter : ℕ
  value : ℕ
  attributes : ℕ
  data : ℕ

def propDescSize : ℕ := 32

def readDescriptor (raw : List UInt8) : PropertyDescriptor :=
  let word := fun i => Bytes.ofLe ((raw.drop (4 * i)).take 4)
  { utf8name := word 0
    name := word 1
    method := word 2
    getter := word 3
    setter := word 4
    value := word 5
    attributes := word 6
    data := word 7 }

def readDescriptors : ℕ → List UInt8 → List PropertyDescriptor
  | 0, _ => []
  | n + 1, raw => readDescriptor raw :: readDescriptors n (raw.drop propDescSize)

/-- The descriptors of a call; with none of them nothing is read. -/
def descriptors (count : ℕ) (raw : Option (List UInt8)) : Option (List PropertyDescriptor) :=
  if count = 0 then some [] else raw.map (readDescriptors count)

/-- A property as it is passed to the bridge: its type and the id that belongs to it. -/
inductive Property
  | value (id : ℕ)
  | method (regId : ℕ)
  | getter (regId : ℕ)
  | setter (regId : ℕ)
  | getterSetter (regId : ℕ)

/-- The registration id the bridge binds, if the property has a function. -/
def Property.regId : Property → Option ℕ
  | .value _ => none
  | .method regId => some regId
  | .getter regId => some regId
  | .setter regId => some regId
  | .getterSetter regId => some regId

/-- A function the engine made, with its data pointer, and what it was made with. A getter
    and a setter given together are one function here: the setter runs when there are
    arguments. -/
structure Function where
  env : ℕ
  binding : Option CallbackBinding
  fn : ℕ
  setterFn : ℕ := 0
  data : ℕ
  deriving DecidableEq

/-- The live envs of an agent; the value limit is the agent's, and 0 is none. -/
structure World where
  envs : AList fun _ : ℕ => EnvState := ∅
  valueLimit : ℕ := 0
  /-- The functions made by the calls that returned `napi_ok`. -/
  functions : List Function := []

namespace World

def agentCallbackRegistrations (w : World) : ℕ :=
  Table.total (fun _ s => s.cbRegistry.entries.length) w.envs

def agentCallbackBindings (w : World) : ℕ :=
  Table.total (fun _ s => s.callbackBindings.length) w.envs

/-- Cap callback registrations alongside value handles: 0 signals failure. -/
def allocCbRegId (w : World) (e : ℕ) : ℕ × World :=
  match w.envs.lookup e with
  | none => (0, w)
  | some s =>
    if w.valueLimit ≠ 0 ∧ w.valueLimit ≤ w.agentCallbackRegistrations then (0, w)
    else (s.nextCbRegId, { w with
      envs := w.envs.insert e { s with nextCbRegId := Word.wrappingAdd 32 s.nextCbRegId 1 } })

def registerCallbackPair (w : World) (e regId : ℕ) (r : CbRegistration) : World :=
  match w.envs.lookup e with
  | none => w
  | some s =>
    if regId = 0 then w
    else { w with envs := w.envs.insert e { s with cbRegistry := s.cbRegistry.insert regId r } }

/-- `snapi_bridge_register_callback` writes no setter. -/
def registerCallback (w : World) (e regId guestEnv wasmFnPtr dataVal : ℕ) : World :=
  w.registerCallbackPair e regId { guestEnv, wasmFnPtr, wasmSetterFnPtr := 0, dataVal }

def registerCallbackBinding (w : World) (e regId : ℕ) : Option CallbackBinding × World :=
  match w.envs.lookup e with
  | none => (none, w)
  | some s =>
    if regId = 0 then (none, w)
    else if w.valueLimit ≠ 0 ∧ w.valueLimit ≤ w.agentCallbackBindings then (none, w)
    else (some ⟨e, regId⟩, { w with
      envs := w.envs.insert e { s with callbackBindings := s.callbackBindings ++ [regId] } })

/-! ### The guest's calls -/

/-- The two steps of the Rust side for one callback, a lone one with no setter. -/
def register (w : World) (e fn setterFn data : ℕ) : ℕ × World :=
  let r := w.allocCbRegId e
  (r.1, if setterFn = 0 then r.2.registerCallback e r.1 e fn data
    else r.2.registerCallbackPair e r.1
      { guestEnv := e, wasmFnPtr := fn, wasmSetterFnPtr := setterFn, dataVal := data })

def registerProperty (w : World) (e : ℕ) (d : PropertyDescriptor) : Property × World :=
  if d.method ≠ 0 then
    let r := w.register e d.method 0 d.data
    (.method r.1, r.2)
  else if d.getter ≠ 0 ∧ d.setter ≠ 0 then
    let r := w.register e d.getter d.setter d.data
    (.getterSetter r.1, r.2)
  else if d.getter ≠ 0 then
    let r := w.register e d.getter 0 d.data
    (.getter r.1, r.2)
  else if d.setter ≠ 0 then
    let r := w.register e d.setter 0 d.data
    (.setter r.1, r.2)
  else (.value d.value, w)

def registerProperties (w : World) (e : ℕ) : List PropertyDescriptor → List Property × World
  | [] => ([], w)
  | d :: ds =>
    let r := w.registerProperty e d
    let rs := registerProperties r.2 e ds
    (r.1 :: rs.1, rs.2)

/-- The data pointers of the engine's descriptors; a value has none. -/
def bindProperties (w : World) (e : ℕ) :
    List Property → List (Option (Option CallbackBinding)) × World
  | [] => ([], w)
  | p :: ps =>
    match p.regId with
    | none =>
      let rs := bindProperties w e ps
      (none :: rs.1, rs.2)
    | some regId =>
      let r := w.registerCallbackBinding e regId
      let rs := bindProperties r.2 e ps
      (some r.1 :: rs.1, rs.2)

end World

/-- The function the engine makes for a property, from the pointers the guest gave. -/
def PropertyDescriptor.function (e : ℕ) (d : PropertyDescriptor) (binding : Option CallbackBinding) :
    Function :=
  if d.method ≠ 0 then { env := e, binding, fn := d.method, data := d.data }
  else if d.getter ≠ 0 ∧ d.setter ≠ 0 then
    { env := e, binding, fn := d.getter, setterFn := d.setter, data := d.data }
  else if d.getter ≠ 0 then { env := e, binding, fn := d.getter, data := d.data }
  else { env := e, binding, fn := d.setter, data := d.data }

def functionsOf (e : ℕ) : List PropertyDescriptor → List (Option (Option CallbackBinding)) →
    List Function
  | d :: ds, some binding :: bs => d.function e binding :: functionsOf e ds bs
  | _ :: ds, none :: bs => functionsOf e ds bs
  | _, _ => []

namespace World

def invalidArg : ℕ := 1

/-- `name` says that the name could be read; `engine` is what `napi_create_function` returns. -/
def createFunction (w : World) (e cb data : ℕ) (name : Bool) (engine : ℕ) : ℕ × World :=
  if !name then (invalidArg, w)
  else
    let r := w.register e cb 0 data
    if r.2.envs.lookup e = none then (invalidArg, r.2)
    else
      let b := r.2.registerCallbackBinding e r.1
      if engine ≠ 0 then (engine, b.2)
      else (0, { b.2 with functions := { env := e, binding := b.1, fn := cb, data } :: b.2.functions })

/-- The constructor is registered before the properties are read, and bound after them. -/
def defineClass (w : World) (e ctor ctorData : ℕ) (name : Bool) (count : ℕ)
    (raw : Option (List UInt8)) (engine : ℕ) : ℕ × World :=
  if !name then (invalidArg, w)
  else
    let c := w.register e ctor 0 ctorData
    match descriptors count raw with
    | none => (invalidArg, c.2)
    | some ds =>
      let ps := c.2.registerProperties e ds
      if ps.2.envs.lookup e = none then (invalidArg, ps.2)
      else
        let bs := ps.2.bindProperties e ps.1
        let b := bs.2.registerCallbackBinding e c.1
        if engine ≠ 0 then (engine, b.2)
        else (0, { b.2 with
          functions := { env := e, binding := b.1, fn := ctor, data := ctorData } ::
            (functionsOf e ds bs.1 ++ b.2.functions) })

/-- `object` says that the object's id could be loaded. -/
def defineProperties (w : World) (e : ℕ) (object : Bool) (count : ℕ) (raw : Option (List UInt8))
    (engine : ℕ) : ℕ × World :=
  match descriptors count raw with
  | none => (invalidArg, w)
  | some ds =>
    let ps := w.registerProperties e ds
    if ps.2.envs.lookup e = none ∨ object = false then (invalidArg, ps.2)
    else
      let bs := ps.2.bindProperties e ps.1
      if engine ≠ 0 then (engine, bs.2)
      else (0, { bs.2 with functions := functionsOf e ds bs.1 ++ bs.2.functions })

/-! ### The way back -/

/-- `generic_wasm_callback`: the guest env and function a call is passed to, or `undefined`
    when there is none. `allowed` says that guest code may run and a callback context is
    there. -/
def genericWasmCallback (w : World) (allowed : Bool) (data : Option CallbackBinding) (argc : ℕ) :
    Option (ℕ × ℕ) :=
  match data with
  | none => none
  | some binding =>
    match w.envs.lookup binding.state with
    | none => none
    | some s =>
      if !allowed then none
      else
        match s.cbRegistry.lookup binding.regId with
        | none => none
        | some r =>
          some (r.guestEnv,
            if r.wasmSetterFnPtr ≠ 0 ∧ 0 < argc then r.wasmSetterFnPtr else r.wasmFnPtr)

/-- The data `napi_get_cb_info` reports in the callback of a function, asked through `e`. -/
def getCbInfoData (w : World) (e : ℕ) (data : Option CallbackBinding) : ℕ :=
  match data, w.envs.lookup e with
  | some binding, some s =>
    match s.cbRegistry.lookup binding.regId with
    | none => 0
    | some r => r.dataVal
  | _, _ => 0

end World

inductive Action
  | createEnv (e : ℕ)
  /-- The agent's envs are released together. -/
  | release
  | setValueLimit (limit : ℕ)
  | createFunction (e cb data : ℕ) (name : Bool) (engine : ℕ)
  | defineClass (e ctor ctorData : ℕ) (name : Bool) (count : ℕ) (raw : Option (List UInt8))
      (engine : ℕ)
  | defineProperties (e : ℕ) (object : Bool) (count : ℕ) (raw : Option (List UInt8)) (engine : ℕ)

namespace World

def step (w : World) : Action → Option World
  | .createEnv e => if e ∈ w.envs then none else some { w with envs := w.envs.insert e {} }
  | .release => some { w with envs := ∅, functions := [] }
  | .setValueLimit limit => some { w with valueLimit := limit }
  | .createFunction e cb data name engine => some (w.createFunction e cb data name engine).2
  | .defineClass e ctor ctorData name count raw engine =>
    some (w.defineClass e ctor ctorData name count raw engine).2
  | .defineProperties e object count raw engine =>
    some (w.defineProperties e object count raw engine).2

/-! ## What a function may rely on -/

/-- Every function made dispatches to its pointer and finds its data, and no two share a
    registration. -/
structure Sound (w : World) : Prop where
  dispatch : ∀ f ∈ w.functions, ∀ argc, w.genericWasmCallback true f.binding argc =
    some (f.env, if f.setterFn ≠ 0 ∧ 0 < argc then f.setterFn else f.fn)
  data : ∀ f ∈ w.functions, w.getCbInfoData f.env f.binding = f.data
  distinct : w.functions.Pairwise fun f g => f.binding ≠ g.binding

/-- The id counter of the env has room for `k` more registrations. -/
def Room (w : World) (e k : ℕ) : Prop :=
  ∀ s ∈ w.envs.lookup e, k = 0 ∨ s.nextCbRegId ≠ 0 ∧ s.nextCbRegId + k ≤ 2 ^ 32

/-- So has the agent under its limit. -/
def Fits (w : World) (k : ℕ) : Prop :=
  w.valueLimit = 0 ∨ w.agentCallbackRegistrations + k ≤ w.valueLimit

instance (w : World) (e k : ℕ) : Decidable (Room w e k) :=
  inferInstanceAs (Decidable (∀ s ∈ w.envs.lookup e, _))

instance (w : World) (k : ℕ) : Decidable (Fits w k) := inferInstanceAs (Decidable (_ ∨ _))

end World

/-- Whether a property has a function, and so a registration. -/
def PropertyDescriptor.isFunction (d : PropertyDescriptor) : Bool :=
  d.method ≠ 0 || d.getter ≠ 0 || d.setter ≠ 0

/-- How many registrations a call makes for its properties. -/
def functionCount (count : ℕ) (raw : Option (List UInt8)) : ℕ :=
  ((descriptors count raw).getD []).countP PropertyDescriptor.isFunction

namespace World

/-- A call does not run the id counter out, and one the engine lets succeed has room for its
    registrations under the limit. -/
def Safe (w : World) : Action → Prop
  | .createFunction e _ _ _ engine => Room w e 1 ∧ (engine = 0 → Fits w 1)
  | .defineClass e _ _ _ count raw engine =>
    Room w e (1 + functionCount count raw) ∧ (engine = 0 → Fits w (1 + functionCount count raw))
  | .defineProperties e _ count raw engine =>
    Room w e (functionCount count raw) ∧ (engine = 0 → Fits w (functionCount count raw))
  | _ => True

instance (w : World) : ∀ act, Decidable (Safe w act)
  | .createEnv _ => isTrue trivial
  | .release => isTrue trivial
  | .setValueLimit _ => isTrue trivial
  | .createFunction .. => inferInstanceAs (Decidable (_ ∧ (_ → _)))
  | .defineClass .. => inferInstanceAs (Decidable (_ ∧ (_ → _)))
  | .defineProperties .. => inferInstanceAs (Decidable (_ ∧ (_ → _)))

/-- The tables of one env: ids below the counter, each bound at most once. -/
structure EnvOk (s : EnvState) : Prop where
  bound : s.callbackBindings.Nodup ∧ ∀ regId ∈ s.callbackBindings, regId ∈ s.cbRegistry
  issued : ∀ regId ∈ s.cbRegistry, 0 < regId ∧ (s.nextCbRegId ≠ 0 → regId < s.nextCbRegId)
  counter : s.nextCbRegId < 2 ^ 32

/-- The function's binding names a registration of its own, with what it was made with. -/
def Registered (w : World) (f : Function) : Prop :=
  ∃ s regId, f.binding = some ⟨f.env, regId⟩ ∧ w.envs.lookup f.env = some s ∧
    regId ∈ s.callbackBindings ∧
    s.cbRegistry.lookup regId = some ⟨f.env, f.fn, f.setterFn, f.data⟩

/-- What holds in the middle of a call too, with the functions made so far. -/
structure Inv (w : World) (functions : List Function) : Prop where
  envs : ∀ {e s}, w.envs.lookup e = some s → EnvOk s
  registered : ∀ f ∈ functions, Registered w f
  distinct : functions.Pairwise fun f g => f.binding ≠ g.binding

variable {w u : World} {fs : List Function} {e : ℕ}
variable {k : ℕ}

theorem Fits.le {n : ℕ} (h : Fits w n) (hle : k ≤ n) : Fits w k :=
  h.imp_right fun hfits => (Nat.add_le_add_left hle _).trans hfits

theorem Room.le {n : ℕ} (h : Room w e n) (hle : k ≤ n) : Room w e k := by
  intro s hs
  rcases h s hs with hz | ⟨hne, hroom⟩
  · exact Or.inl (by omega)
  · exact Or.inr ⟨hne, by omega⟩

theorem Inv.sound (h : Inv w w.functions) : Sound w := by
  refine ⟨?_, ?_, h.distinct⟩
  · intro f hf argc
    obtain ⟨s, regId, hb, hs, _, hr⟩ := h.registered f hf
    simp [genericWasmCallback, hb, hs, hr]
  · intro f hf
    obtain ⟨s, regId, hb, hs, _, hr⟩ := h.registered f hf
    simp [getCbInfoData, hb, hs, hr]

theorem Inv.perm (h : Inv w fs) {fs' : List Function} (hp : fs.Perm fs') : Inv w fs' where
  envs := h.envs
  registered f hf := h.registered f (hp.mem_iff.mpr hf)
  distinct := (hp.pairwise_iff fun hne => hne.symm).mp h.distinct

theorem Inv.withFunctions (h : Inv w fs) (made : List Function) :
    Inv { w with functions := made } fs :=
  { h with }

/-- Registrations made in the call that are not bound yet, each with what it stands for. A
    failed one has the id 0. -/
structure Pending (w : World) (e : ℕ) (l : List (ℕ × CbRegistration)) : Prop where
  unbound : ∀ p ∈ l, p.1 ≠ 0 → ∃ s, w.envs.lookup e = some s ∧
    s.cbRegistry.lookup p.1 = some p.2 ∧ p.1 ∉ s.callbackBindings
  distinct : l.Pairwise fun p q => p.1 ≠ 0 → p.1 ≠ q.1

/-- One env has changed: it has lost no registration and no binding. -/
structure Grown (w : World) (e : ℕ) (s s' : EnvState) (u : World) : Prop where
  before : w.envs.lookup e = some s
  after : u = { w with envs := w.envs.insert e s' }
  registry : ∀ {regId r}, s.cbRegistry.lookup regId = some r → s'.cbRegistry.lookup regId = some r
  bindings : ∀ regId ∈ s.callbackBindings, regId ∈ s'.callbackBindings
  ok : EnvOk s'

variable {s s' : EnvState}

theorem Grown.inv (hg : Grown w e s s' u) (h : Inv w fs) : Inv u fs := by
  obtain ⟨hs, rfl, hregistry, hbindings, hok⟩ := hg
  refine ⟨?_, ?_, h.distinct⟩
  · intro e' t ht
    rcases Table.lookup_insert_iff.mp ht with ⟨_, rfl⟩ | ⟨_, ht⟩
    · exact hok
    · exact h.envs ht
  · intro f hf
    obtain ⟨t, regId, hb, ht, hbound, hr⟩ := h.registered f hf
    by_cases he : f.env = e
    · obtain rfl := Option.some.inj (hs.symm.trans (he ▸ ht))
      exact ⟨s', regId, hb, by rw [he]; exact AList.lookup_insert _, hbindings _ hbound, hregistry hr⟩
    · exact ⟨t, regId, hb, Table.lookup_insert_iff.mpr (Or.inr ⟨he, ht⟩), hbound, hr⟩

/-- What the parts of a call leave alone. -/
structure Frame (w u : World) : Prop where
  limit : u.valueLimit = w.valueLimit
  functions : u.functions = w.functions
  envs : ∀ e, e ∈ u.envs ↔ e ∈ w.envs

theorem Frame.refl (w : World) : Frame w w := ⟨rfl, rfl, fun _ => Iff.rfl⟩

theorem Frame.trans {v : World} (h : Frame w u) (h' : Frame u v) : Frame w v :=
  ⟨h'.limit.trans h.limit, h'.functions.trans h.functions, fun e => (h'.envs e).trans (h.envs e)⟩

theorem Grown.frame (hg : Grown w e s s' u) : Frame w u := by
  obtain ⟨hs, rfl, _⟩ := hg
  refine ⟨rfl, rfl, fun e' => ?_⟩
  rw [AList.mem_insert]
  constructor
  · rintro (rfl | h)
    · exact AList.lookup_isSome.mp (by rw [hs]; rfl)
    · exact h
  · exact Or.inr

/-- The state inside a call: the registrations `l` are waiting, and the counter has room for
    `k` more. -/
structure Held (w : World) (fs : List Function) (e : ℕ) (l : List (ℕ × CbRegistration)) (k : ℕ) :
    Prop where
  inv : Inv w fs
  pending : Pending w e l
  room : Room w e k

theorem registerCallbackPair_allocated (r : CbRegistration) (hnext : s.nextCbRegId ≠ 0) :
    registerCallbackPair { w with
        envs := w.envs.insert e { s with nextCbRegId := Word.wrappingAdd 32 s.nextCbRegId 1 } }
        e s.nextCbRegId r =
      { w with envs := w.envs.insert e { s with
        nextCbRegId := Word.wrappingAdd 32 s.nextCbRegId 1
        cbRegistry := s.cbRegistry.insert s.nextCbRegId r } } := by
  simp only [registerCallbackPair, AList.lookup_insert, if_neg hnext, AList.insert_insert]

/-- A registration is made whole or not at all: the id is 0, or the next one of the env. -/
theorem register_cases (hroom : Room w e 1) (fn setterFn data : ℕ) :
    (w.register e fn setterFn data = (0, w) ∧ (Fits w 1 → e ∉ w.envs)) ∨
    ∃ s, w.envs.lookup e = some s ∧ s.nextCbRegId ≠ 0 ∧
      w.register e fn setterFn data = (s.nextCbRegId, { w with envs := w.envs.insert e { s with
        nextCbRegId := Word.wrappingAdd 32 s.nextCbRegId 1
        cbRegistry := s.cbRegistry.insert s.nextCbRegId ⟨e, fn, setterFn, data⟩ } }) := by
  unfold register allocCbRegId registerCallback
  cases hs : w.envs.lookup e with
  | none =>
    left
    refine ⟨?_, fun _ => AList.lookup_eq_none.mp hs⟩
    simp [registerCallbackPair, hs]
  | some s =>
    dsimp only
    by_cases hlimit : w.valueLimit ≠ 0 ∧ w.valueLimit ≤ w.agentCallbackRegistrations
    · left
      rw [if_pos hlimit]
      refine ⟨by simp [registerCallbackPair, hs], ?_⟩
      rintro (hzero | hfits)
      · exact absurd hzero hlimit.1
      · omega
    · right
      have hnext : s.nextCbRegId ≠ 0 := ((hroom s hs).resolve_left one_ne_zero).1
      refine ⟨s, rfl, hnext, ?_⟩
      rw [if_neg hlimit]
      dsimp only
      rw [registerCallbackPair_allocated _ hnext, registerCallbackPair_allocated _ hnext]
      split
      · next hzero => rw [hzero]
      · rfl

/-- The entry at the counter is new. -/
theorem EnvOk.register (h : EnvOk s) (hnext : s.nextCbRegId ≠ 0) (r : CbRegistration) :
    s.nextCbRegId ∉ s.cbRegistry ∧ EnvOk { s with
      nextCbRegId := Word.wrappingAdd 32 s.nextCbRegId 1
      cbRegistry := s.cbRegistry.insert s.nextCbRegId r } := by
  have hcounter := h.counter
  refine ⟨fun hmem => absurd ((h.issued _ hmem).2 hnext) (lt_irrefl _), ⟨h.bound.1, ?_⟩, ?_, ?_⟩
  · intro regId hmem
    exact AList.mem_insert _ |>.mpr (Or.inr (h.bound.2 regId hmem))
  · intro regId hmem
    have hwrap : Word.wrappingAdd 32 s.nextCbRegId 1 ≠ 0 →
        Word.wrappingAdd 32 s.nextCbRegId 1 = s.nextCbRegId + 1 := by
      unfold Word.wrappingAdd
      omega
    rcases (AList.mem_insert _).mp hmem with rfl | hold
    · refine ⟨Nat.pos_of_ne_zero hnext, fun hne => ?_⟩
      rw [hwrap hne]
      exact Nat.lt_succ_self _
    · obtain ⟨hpos, hlt⟩ := h.issued regId hold
      refine ⟨hpos, fun hne => ?_⟩
      rw [hwrap hne]
      exact Nat.lt_succ_of_lt (hlt hnext)
  · exact Nat.mod_lt _ (by decide)

theorem register_spec {l : List (ℕ × CbRegistration)} (h : Held w fs e l (k + 1))
    (fn setterFn data : ℕ) :
    Held (w.register e fn setterFn data).2 fs e
        (l ++ [((w.register e fn setterFn data).1, ⟨e, fn, setterFn, data⟩)]) k ∧
      Frame w (w.register e fn setterFn data).2 ∧
      (Fits w (k + 1) → Fits (w.register e fn setterFn data).2 k ∧
        (e ∈ w.envs → (w.register e fn setterFn data).1 ≠ 0)) := by
  have hroom : Room w e 1 := h.room.le (by omega)
  rcases register_cases hroom fn setterFn data with ⟨heq, hnone⟩ | ⟨s, hs, hnext, heq⟩
  · rw [heq]
    refine ⟨⟨h.inv, ?_, ?_⟩, Frame.refl w, ?_⟩
    · refine ⟨?_, ?_⟩
      · intro p hp hne
        rcases List.mem_append.mp hp with hp | hp
        · exact h.pending.unbound p hp hne
        · obtain rfl := List.mem_singleton.mp hp
          exact absurd rfl hne
      · apply List.pairwise_append.mpr
        refine ⟨h.pending.distinct, List.pairwise_singleton _ _, ?_⟩
        intro p _ q hq hne
        obtain rfl := List.mem_singleton.mp hq
        exact hne
    · exact h.room.le (Nat.le_succ k)
    · intro hfits
      exact ⟨hfits.le (Nat.le_succ k), fun he => absurd he (hnone (hfits.le (by omega)))⟩
  · rw [heq]
    obtain ⟨hnew, hok⟩ := (h.inv.envs hs).register hnext ⟨e, fn, setterFn, data⟩
    set s' : EnvState := { s with
      nextCbRegId := Word.wrappingAdd 32 s.nextCbRegId 1
      cbRegistry := s.cbRegistry.insert s.nextCbRegId ⟨e, fn, setterFn, data⟩ } with hs'
    have hkept : ∀ {regId r}, s.cbRegistry.lookup regId = some r →
        s'.cbRegistry.lookup regId = some r := by
      intro regId r hr
      refine Table.lookup_insert_iff.mpr (Or.inr ⟨?_, hr⟩)
      rintro rfl
      exact hnew (AList.lookup_isSome.mp (by rw [hr]; rfl))
    have hgrown : Grown w e s s' { w with envs := w.envs.insert e s' } :=
      ⟨hs, rfl, hkept, fun _ hmem => hmem, hok⟩
    have hcount : agentCallbackRegistrations { w with envs := w.envs.insert e s' } =
        w.agentCallbackRegistrations + 1 := by
      have htotal := Table.total_insert_of_lookup
        (fun _ (s : EnvState) => s.cbRegistry.entries.length) hs s'
      have hlen : s'.cbRegistry.entries.length = s.cbRegistry.entries.length + 1 := by
        rw [hs', AList.entries_insert_of_notMem hnew, List.length_cons]
      show Table.total _ (w.envs.insert e s') = Table.total _ w.envs + 1
      omega
    refine ⟨⟨hgrown.inv h.inv, ⟨?_, ?_⟩, ?_⟩, hgrown.frame, ?_⟩
    · intro p hp hne
      refine ⟨s', AList.lookup_insert _, ?_⟩
      rcases List.mem_append.mp hp with hp | hp
      · obtain ⟨t, ht, hr, hunbound⟩ := h.pending.unbound p hp hne
        obtain rfl := Option.some.inj (hs.symm.trans ht)
        exact ⟨hkept hr, hunbound⟩
      · obtain rfl := List.mem_singleton.mp hp
        exact ⟨AList.lookup_insert _, fun hmem => hnew ((h.inv.envs hs).bound.2 _ hmem)⟩
    · apply List.pairwise_append.mpr
      refine ⟨h.pending.distinct, List.pairwise_singleton _ _, ?_⟩
      intro p hp q hq hne heq'
      obtain rfl := List.mem_singleton.mp hq
      obtain ⟨t, ht, hr, _⟩ := h.pending.unbound p hp hne
      obtain rfl := Option.some.inj (hs.symm.trans ht)
      rw [heq'] at hr
      exact hnew (AList.lookup_isSome.mp (by rw [hr]; rfl))
    · intro t ht
      obtain rfl : s' = t := Option.some.inj ((AList.lookup_insert _).symm.trans ht)
      rcases h.room s hs with hz | ⟨_, hle⟩
      · cases hz
      · rcases Nat.eq_zero_or_pos k with hk | hk
        · exact Or.inl hk
        · right
          show Word.wrappingAdd 32 s.nextCbRegId 1 ≠ 0 ∧ Word.wrappingAdd 32 s.nextCbRegId 1 + k ≤ _
          rw [Word.wrappingAdd_of_lt (by omega)]
          omega
    · intro hfits
      refine ⟨hfits.imp_right fun hle => ?_, fun _ => hnext⟩
      rw [hcount]
      show w.agentCallbackRegistrations + 1 + k ≤ w.valueLimit
      omega

end World

/-- What a function's registration holds. -/
def Function.registration (f : Function) : CbRegistration :=
  { guestEnv := f.env, wasmFnPtr := f.fn, wasmSetterFnPtr := f.setterFn, dataVal := f.data }

section Descriptor

variable (e : ℕ) (d : PropertyDescriptor) (binding : Option CallbackBinding)

@[simp] theorem PropertyDescriptor.function_env : (d.function e binding).env = e := by
  unfold PropertyDescriptor.function
  split_ifs <;> rfl

@[simp] theorem PropertyDescriptor.function_binding :
    (d.function e binding).binding = binding := by
  unfold PropertyDescriptor.function
  split_ifs <;> rfl

/-- What is registered does not depend on the binding that comes after it. -/
theorem PropertyDescriptor.function_registration :
    (d.function e binding).registration = (d.function e none).registration := by
  unfold PropertyDescriptor.function
  split_ifs <;> rfl

end Descriptor

/-- The registrations of the properties of a call, in their order. -/
def pendings (e : ℕ) : List PropertyDescriptor → List Property → List (ℕ × CbRegistration)
  | d :: ds, p :: ps =>
    match p.regId with
    | none => pendings e ds ps
    | some regId => (regId, (d.function e none).registration) :: pendings e ds ps
  | _, _ => []

namespace World

variable {w u : World} {fs : List Function} {e : ℕ}

/-- A property is registered as the function made of it, whichever its kind is. -/
theorem registerProperty_cases (w : World) (e : ℕ) (d : PropertyDescriptor) :
    (d.isFunction = false ∧ (w.registerProperty e d).1.regId = none ∧
      (w.registerProperty e d).2 = w) ∨
    ∃ fn setterFn data, d.isFunction = true ∧
      (d.function e none).registration = ⟨e, fn, setterFn, data⟩ ∧
      (w.registerProperty e d).1.regId = some (w.register e fn setterFn data).1 ∧
      (w.registerProperty e d).2 = (w.register e fn setterFn data).2 := by
  unfold registerProperty PropertyDescriptor.function PropertyDescriptor.isFunction
  by_cases hmethod : d.method ≠ 0
  · right
    exact ⟨d.method, 0, d.data, by simp [hmethod], by rw [if_pos hmethod]; rfl,
      by rw [if_pos hmethod]; rfl, by rw [if_pos hmethod]⟩
  rw [if_neg hmethod, if_neg hmethod]
  by_cases hpair : d.getter ≠ 0 ∧ d.setter ≠ 0
  · right
    exact ⟨d.getter, d.setter, d.data, by simp [hpair], by rw [if_pos hpair]; rfl,
      by rw [if_pos hpair]; rfl, by rw [if_pos hpair]⟩
  rw [if_neg hpair, if_neg hpair]
  by_cases hgetter : d.getter ≠ 0
  · right
    exact ⟨d.getter, 0, d.data, by simp [hgetter], by rw [if_pos hgetter]; rfl,
      by rw [if_pos hgetter]; rfl, by rw [if_pos hgetter]⟩
  rw [if_neg hgetter, if_neg hgetter]
  by_cases hsetter : d.setter ≠ 0
  · right
    exact ⟨d.setter, 0, d.data, by simp [hsetter], rfl, by rw [if_pos hsetter]; rfl,
      by rw [if_pos hsetter]⟩
  · left
    rw [if_neg hsetter]
    exact ⟨by simp_all, rfl, rfl⟩

theorem registerProperties_length (w : World) (e : ℕ) (ds : List PropertyDescriptor) :
    (w.registerProperties e ds).1.length = ds.length := by
  induction ds generalizing w with
  | nil => rfl
  | cons d ds ih => exact congrArg (· + 1) (ih _)

variable {l : List (ℕ × CbRegistration)}

/-- All the properties of a call are registered, or there was no room. -/
theorem registerProperties_spec {ds : List PropertyDescriptor}
    (h : Held w fs e l (ds.countP PropertyDescriptor.isFunction)) :
    Inv (w.registerProperties e ds).2 fs ∧
      Pending (w.registerProperties e ds).2 e
        (l ++ pendings e ds (w.registerProperties e ds).1) ∧
      Frame w (w.registerProperties e ds).2 ∧
      (Fits w (ds.countP PropertyDescriptor.isFunction) →
        Fits (w.registerProperties e ds).2 0 ∧
        (e ∈ w.envs → ∀ p ∈ pendings e ds (w.registerProperties e ds).1, p.1 ≠ 0)) := by
  induction ds generalizing w l with
  | nil =>
    refine ⟨h.inv, ?_, Frame.refl w, fun hfits => ⟨hfits, ?_⟩⟩
    · rw [show pendings e [] (w.registerProperties e []).1 = [] from rfl, List.append_nil]
      exact h.pending
    · nofun
  | cons d ds ih =>
    rcases registerProperty_cases w e d with ⟨hd, hreg, hw⟩ | ⟨fn, setterFn, data, hd, hf, hreg, hw⟩
    · -- a value: nothing is registered for it
      rw [List.countP_cons_of_neg (by simp [hd])] at h ⊢
      have hrest : (w.registerProperties e (d :: ds)).2 = (w.registerProperties e ds).2 := by
        show ((w.registerProperty e d).2.registerProperties e ds).2 = _
        rw [hw]
      have hpend : pendings e (d :: ds) (w.registerProperties e (d :: ds)).1 =
          pendings e ds (w.registerProperties e ds).1 := by
        show pendings e (d :: ds) ((w.registerProperty e d).1 ::
          ((w.registerProperty e d).2.registerProperties e ds).1) = _
        rw [hw, pendings, hreg]
      rw [hrest, hpend]
      exact ih h
    · rw [List.countP_cons_of_pos hd] at h ⊢
      obtain ⟨hheld, hframe, hroom⟩ := register_spec h fn setterFn data
      have hrest : (w.registerProperties e (d :: ds)).2 =
          ((w.register e fn setterFn data).2.registerProperties e ds).2 := by
        show ((w.registerProperty e d).2.registerProperties e ds).2 = _
        rw [hw]
      have hpend : pendings e (d :: ds) (w.registerProperties e (d :: ds)).1 =
          ((w.register e fn setterFn data).1, ⟨e, fn, setterFn, data⟩) ::
            pendings e ds ((w.register e fn setterFn data).2.registerProperties e ds).1 := by
        show pendings e (d :: ds) ((w.registerProperty e d).1 ::
          ((w.registerProperty e d).2.registerProperties e ds).1) = _
        rw [hw, pendings, hreg, hf]
      obtain ⟨hinv, hpending, hframe', hfits'⟩ := ih hheld
      rw [hrest, hpend]
      refine ⟨hinv, ?_, hframe.trans hframe', ?_⟩
      · rw [List.append_assoc] at hpending
        exact hpending
      · intro hfits
        obtain ⟨hfits, hne⟩ := hroom hfits
        refine ⟨(hfits' hfits).1, fun he p hp => ?_⟩
        rcases List.mem_cons.mp hp with rfl | hp
        · exact hne he
        · exact (hfits' hfits).2 ((hframe.envs e).mpr he) p hp

/-! ### Binding -/

theorem EnvOk.bindings_le (h : EnvOk s) :
    s.callbackBindings.length ≤ s.cbRegistry.entries.length := by
  have hsub : s.callbackBindings ⊆ s.cbRegistry.keys := fun regId hmem => h.bound.2 regId hmem
  have hle := (h.bound.1.subperm hsub).length_le
  rwa [AList.keys, List.keys, List.length_map] at hle

variable {regId : ℕ}

/-- An id that waits for its binding leaves room for it. -/
theorem EnvOk.bind (h : EnvOk s) (hmem : regId ∈ s.cbRegistry)
    (hunbound : regId ∉ s.callbackBindings) :
    EnvOk { s with callbackBindings := s.callbackBindings ++ [regId] } := by
  refine ⟨⟨?_, ?_⟩, h.issued, h.counter⟩
  · apply List.Nodup.append h.bound.1 (List.nodup_singleton regId)
    rw [List.disjoint_singleton]
    exact hunbound
  · intro r hr
    rcases List.mem_append.mp hr with hr | hr
    · exact h.bound.2 r hr
    · obtain rfl := List.mem_singleton.mp hr
      exact hmem

/-- While a registration waits, the agent has fewer bindings than registrations. -/
theorem bindings_lt (hi : Inv w fs) (hs : w.envs.lookup e = some s) (hmem : regId ∈ s.cbRegistry)
    (hunbound : regId ∉ s.callbackBindings) :
    w.agentCallbackBindings < w.agentCallbackRegistrations := by
  set s' : EnvState := { s with callbackBindings := s.callbackBindings ++ [regId] } with hs'
  -- with the binding made, no env has more bindings than registrations
  have hle : Table.total (fun _ (s : EnvState) => s.callbackBindings.length) (w.envs.insert e s') ≤
      Table.total (fun _ (s : EnvState) => s.cbRegistry.entries.length) (w.envs.insert e s') := by
    apply Table.total_le_total
    intro e' t ht
    rcases Table.lookup_insert_iff.mp ht with ⟨_, rfl⟩ | ⟨_, ht⟩
    · exact ((hi.envs hs).bind hmem hunbound).bindings_le
    · exact (hi.envs ht).bindings_le
  have hbindings := Table.total_insert_of_lookup
    (fun _ (s : EnvState) => s.callbackBindings.length) hs s'
  have hregs := Table.total_insert_of_lookup
    (fun _ (s : EnvState) => s.cbRegistry.entries.length) hs s'
  have hlen : s'.callbackBindings.length = s.callbackBindings.length + 1 := by
    rw [hs', List.length_append, List.length_singleton]
  have hsame : s'.cbRegistry.entries.length = s.cbRegistry.entries.length := rfl
  show Table.total _ w.envs < Table.total _ w.envs
  omega

theorem Pending.perm {l' : List (ℕ × CbRegistration)} (h : Pending w e l) (hp : l.Perm l') :
    Pending w e l' where
  unbound p hmem := h.unbound p (hp.mem_iff.mpr hmem)
  distinct := by
    refine (hp.pairwise_iff ?_).mp h.distinct
    intro p q hpq hne heq
    exact hpq (heq ▸ hne) heq.symm

theorem Pending.tail {p : ℕ × CbRegistration} (h : Pending w e (p :: l)) : Pending w e l :=
  ⟨fun q hq => h.unbound q (List.mem_cons_of_mem p hq), h.distinct.of_cons⟩

/-- The binding of a waiting registration is made or not; where there was room for the
    registration it is made. -/
theorem registerCallbackBinding_cases (hi : Inv w fs) {r : CbRegistration}
    (hp : Pending w e ((regId, r) :: l)) :
    (w.registerCallbackBinding e regId = (none, w) ∧ (Fits w 0 → regId = 0)) ∨
    ∃ s, w.envs.lookup e = some s ∧ s.cbRegistry.lookup regId = some r ∧
      regId ≠ 0 ∧ regId ∉ s.callbackBindings ∧
      w.registerCallbackBinding e regId = (some ⟨e, regId⟩, { w with
        envs := w.envs.insert e { s with callbackBindings := s.callbackBindings ++ [regId] } }) := by
  unfold registerCallbackBinding
  by_cases hzero : regId = 0
  · left
    refine ⟨?_, fun _ => hzero⟩
    cases w.envs.lookup e with
    | none => rfl
    | some s => exact if_pos hzero
  · obtain ⟨s, hs, hr, hunbound⟩ := hp.unbound (regId, r) List.mem_cons_self hzero
    have hmem : regId ∈ s.cbRegistry := AList.lookup_isSome.mp (by rw [hr]; rfl)
    have hlt := bindings_lt hi hs hmem hunbound
    rw [hs]
    dsimp only
    rw [if_neg hzero]
    by_cases hlimit : w.valueLimit ≠ 0 ∧ w.valueLimit ≤ w.agentCallbackBindings
    · left
      rw [if_pos hlimit]
      refine ⟨rfl, ?_⟩
      rintro (hnone | hfits)
      · exact absurd hnone hlimit.1
      · omega
    · right
      rw [if_neg hlimit]
      exact ⟨s, rfl, hr, hzero, hunbound, rfl⟩

/-- A binding takes its registration out of the waiting ones, and what it is bound to is a
    function more. -/
theorem bind_spec (hi : Inv w fs) {r : CbRegistration} (hp : Pending w e ((regId, r) :: l)) :
    Inv (w.registerCallbackBinding e regId).2 fs ∧
      Pending (w.registerCallbackBinding e regId).2 e l ∧
      Frame w (w.registerCallbackBinding e regId).2 ∧
      (Fits w 0 → regId ≠ 0 → Fits (w.registerCallbackBinding e regId).2 0 ∧
        ∀ f : Function, f.env = e → f.binding = (w.registerCallbackBinding e regId).1 →
          f.registration = r → Inv (w.registerCallbackBinding e regId).2 (f :: fs)) := by
  rcases registerCallbackBinding_cases hi hp with
    ⟨heq, hzero⟩ | ⟨s, hs, hr, hne, hunbound, heq⟩
  · rw [heq]
    exact ⟨hi, hp.tail, Frame.refl w, fun hfits hne => absurd (hzero hfits) hne⟩
  rw [heq]
  have hmem : regId ∈ s.cbRegistry := AList.lookup_isSome.mp (by rw [hr]; rfl)
  set s' : EnvState := { s with callbackBindings := s.callbackBindings ++ [regId] } with hs'
  have hgrown : Grown w e s s' { w with envs := w.envs.insert e s' } :=
    ⟨hs, rfl, fun hr => hr, fun _ hb => List.mem_append_left _ hb, (hi.envs hs).bind hmem hunbound⟩
  have hinv := hgrown.inv hi
  refine ⟨hinv, ⟨?_, hp.distinct.of_cons⟩, hgrown.frame, ?_⟩
  · intro p hpmem hpne
    obtain ⟨t, ht, hpr, hpunbound⟩ := hp.tail.unbound p hpmem hpne
    obtain rfl := Option.some.inj (hs.symm.trans ht)
    refine ⟨s', AList.lookup_insert _, hpr, fun hbound => ?_⟩
    rcases List.mem_append.mp hbound with hbound | hbound
    · exact hpunbound hbound
    · exact (List.pairwise_cons.mp hp.distinct).1 p hpmem hne (List.mem_singleton.mp hbound).symm
  · intro hfits _
    have hsame : agentCallbackRegistrations { w with envs := w.envs.insert e s' } =
        w.agentCallbackRegistrations := by
      have htotal := Table.total_insert_of_lookup
        (fun _ (s : EnvState) => s.cbRegistry.entries.length) hs s'
      have hlen : s'.cbRegistry.entries.length = s.cbRegistry.entries.length := rfl
      show Table.total _ (w.envs.insert e s') = Table.total _ w.envs
      omega
    refine ⟨hfits.imp_right fun hle => ?_, ?_⟩
    · rw [hsame]
      exact hle
    · intro f henv hbinding hf
      refine ⟨hinv.envs, ?_, ?_⟩
      · intro g hg
        rcases List.mem_cons.mp hg with rfl | hg
        · refine ⟨s', regId, by rw [hbinding, henv], ?_, ?_, ?_⟩
          · rw [henv]
            exact AList.lookup_insert _
          · exact List.mem_append_right _ (List.mem_singleton_self regId)
          · exact hr.trans (congrArg some hf.symm)
        · exact hinv.registered g hg
      · refine List.pairwise_cons.mpr ⟨?_, hi.distinct⟩
        intro g hg hsame'
        -- the other one is bound already, and this one was not
        obtain ⟨t, regId', hb, ht, hbound, _⟩ := hi.registered g hg
        rw [hbinding, hb] at hsame'
        obtain ⟨henv', hid⟩ := CallbackBinding.mk.inj (Option.some.inj hsame')
        rw [← henv', hs] at ht
        cases ht
        exact hunbound (hid ▸ hbound)

/-- All the properties of a call are bound, each to a function. -/
theorem bindProperties_spec {ds : List PropertyDescriptor} {ps : List Property}
    (hlen : ps.length = ds.length) (hi : Inv w fs) (hp : Pending w e (pendings e ds ps ++ l)) :
    Inv (w.bindProperties e ps).2 fs ∧ Pending (w.bindProperties e ps).2 e l ∧
      Frame w (w.bindProperties e ps).2 ∧
      (Fits w 0 → (∀ p ∈ pendings e ds ps, p.1 ≠ 0) → Fits (w.bindProperties e ps).2 0 ∧
        Inv (w.bindProperties e ps).2 (functionsOf e ds (w.bindProperties e ps).1 ++ fs)) := by
  induction ps generalizing w fs ds with
  | nil =>
    obtain rfl := List.length_eq_zero_iff.mp hlen.symm
    exact ⟨hi, hp, Frame.refl w, fun hfits _ => ⟨hfits, hi⟩⟩
  | cons p ps ih =>
    obtain ⟨d, ds, rfl⟩ := List.exists_cons_of_length_eq_add_one hlen.symm
    have hlen' : ps.length = ds.length := Nat.succ.inj hlen
    cases hreg : p.regId with
    | none =>
      have hpend : pendings e (d :: ds) (p :: ps) = pendings e ds ps := by
        rw [pendings, hreg]
      have hbind : w.bindProperties e (p :: ps) =
          (none :: (w.bindProperties e ps).1, (w.bindProperties e ps).2) := by
        rw [bindProperties, hreg]
      rw [hpend] at hp ⊢
      rw [hbind]
      exact ih hlen' hi hp
    | some regId =>
      have hpend : pendings e (d :: ds) (p :: ps) =
          (regId, (d.function e none).registration) :: pendings e ds ps := by
        rw [pendings, hreg]
      have hbind : w.bindProperties e (p :: ps) =
          (some (w.registerCallbackBinding e regId).1 ::
              ((w.registerCallbackBinding e regId).2.bindProperties e ps).1,
            ((w.registerCallbackBinding e regId).2.bindProperties e ps).2) := by
        rw [bindProperties, hreg]
      rw [hpend] at hp ⊢
      rw [hbind]
      obtain ⟨hi₁, hp₁, hframe, hbound⟩ := bind_spec hi hp
      obtain ⟨hinv, hpending, hframe', _⟩ := ih hlen' hi₁ hp₁
      refine ⟨hinv, hpending, hframe.trans hframe', ?_⟩
      intro hfits hne
      obtain ⟨hfits₁, hmade⟩ := hbound hfits (hne _ List.mem_cons_self)
      have hi₂ := hmade (d.function e (w.registerCallbackBinding e regId).1)
        (d.function_env e _) (d.function_binding e _) (d.function_registration e _)
      obtain ⟨_, _, _, hrest⟩ := ih hlen' hi₂ hp₁
      obtain ⟨hfits₂, hinv₂⟩ := hrest hfits₁ fun q hq => hne q (List.mem_cons_of_mem _ hq)
      exact ⟨hfits₂, hinv₂.perm List.perm_middle⟩

/-! ### Calls -/

theorem pending_nil (w : World) (e : ℕ) : Pending w e [] :=
  ⟨fun _ hp => (List.not_mem_nil hp).elim, List.Pairwise.nil⟩

variable {engine : ℕ}

theorem createFunction_inv {cb data : ℕ} {name : Bool} (hi : Inv w w.functions)
    (hroom : Room w e 1) (hfits : engine = 0 → Fits w 1) :
    Inv (w.createFunction e cb data name engine).2
      (w.createFunction e cb data name engine).2.functions := by
  unfold createFunction
  split
  · exact hi
  obtain ⟨hheld, hframe, hmade⟩ :=
    register_spec (k := 0) ⟨hi, pending_nil w e, hroom⟩ cb 0 data
  dsimp only
  split
  · rw [hframe.functions]
    exact hheld.inv
  next henv =>
  obtain ⟨hinv, _, hframe', hbound⟩ := bind_spec hheld.inv hheld.pending
  split
  · rw [hframe'.functions, hframe.functions]
    exact hinv
  next hengine =>
  obtain ⟨hfits₀, hne⟩ := hmade (hfits (not_ne_iff.mp hengine))
  have he : e ∈ w.envs := (hframe.envs e).mp (Table.mem_of_lookup_ne_none henv)
  dsimp only
  rw [hframe'.functions, hframe.functions]
  exact ((hbound hfits₀ (hne he)).2 ⟨e, _, cb, 0, data⟩ rfl rfl rfl).withFunctions _

theorem defineProperties_inv {object : Bool} {count : ℕ} {raw : Option (List UInt8)}
    (hi : Inv w w.functions) (hroom : Room w e (functionCount count raw))
    (hfits : engine = 0 → Fits w (functionCount count raw)) :
    Inv (w.defineProperties e object count raw engine).2
      (w.defineProperties e object count raw engine).2.functions := by
  unfold defineProperties
  unfold functionCount at hroom hfits
  cases hds : descriptors count raw with
  | none => exact hi
  | some ds =>
    rw [hds, Option.getD_some] at hroom hfits
    obtain ⟨hinv, hpending, hframe, hmade⟩ :=
      registerProperties_spec ⟨hi, pending_nil w e, hroom⟩
    rw [List.nil_append, ← List.append_nil (pendings e ds _)] at hpending
    dsimp only
    split
    · rw [hframe.functions]
      exact hinv
    next henv =>
    obtain ⟨hinv', _, hframe', hbound⟩ :=
      bindProperties_spec (registerProperties_length w e ds) hinv hpending
    split
    · rw [hframe'.functions, hframe.functions]
      exact hinv'
    next hengine =>
    obtain ⟨hfits₀, hne⟩ := hmade (hfits (not_ne_iff.mp hengine))
    have he : e ∈ w.envs :=
      (hframe.envs e).mp (Table.mem_of_lookup_ne_none fun hnone => henv (Or.inl hnone))
    dsimp only
    rw [hframe'.functions, hframe.functions]
    exact (hbound hfits₀ (hne he)).2.withFunctions _

/-- The constructor waits while the properties are bound. -/
theorem defineClass_inv {ctor ctorData count : ℕ} {name : Bool} {raw : Option (List UInt8)}
    (hi : Inv w w.functions) (hroom : Room w e (1 + functionCount count raw))
    (hfits : engine = 0 → Fits w (1 + functionCount count raw)) :
    Inv (w.defineClass e ctor ctorData name count raw engine).2
      (w.defineClass e ctor ctorData name count raw engine).2.functions := by
  unfold defineClass
  split
  · exact hi
  rw [Nat.add_comm] at hroom hfits
  obtain ⟨hheld, hframe, hmade⟩ :=
    register_spec ⟨hi, pending_nil w e, hroom⟩ ctor 0 ctorData
  dsimp only
  unfold functionCount at hheld hmade hfits
  cases hds : descriptors count raw with
  | none =>
    dsimp only
    rw [hframe.functions]
    exact hheld.inv
  | some ds =>
    rw [hds, Option.getD_some] at hheld hmade hfits
    obtain ⟨hinv, hpending, hframe', hmade'⟩ := registerProperties_spec hheld
    have hlen := registerProperties_length (w.register e ctor 0 ctorData).2 e ds
    dsimp only
    split
    · rw [hframe'.functions, hframe.functions]
      exact hinv
    next henv =>
    obtain ⟨hinv₁, hpending₁, hframe₁, hbound⟩ :=
      bindProperties_spec hlen hinv (hpending.perm List.perm_append_comm)
    obtain ⟨hinv₂, _, hframe₂, _⟩ := bind_spec hinv₁ hpending₁
    split
    · rw [hframe₂.functions, hframe₁.functions, hframe'.functions, hframe.functions]
      exact hinv₂
    next hengine =>
    obtain ⟨hfits', hctor⟩ := hmade (hfits (not_ne_iff.mp hengine))
    obtain ⟨hfits₀, hne⟩ := hmade' hfits'
    have he' : e ∈ (w.register e ctor 0 ctorData).2.envs :=
      (hframe'.envs e).mp (Table.mem_of_lookup_ne_none henv)
    have he : e ∈ w.envs := (hframe.envs e).mp he'
    obtain ⟨hfits₁, hprops⟩ := hbound hfits₀ (hne he')
    obtain ⟨_, _, _, hbound₂⟩ := bind_spec hprops hpending₁
    dsimp only
    rw [hframe₂.functions, hframe₁.functions, hframe'.functions, hframe.functions]
    exact ((hbound₂ hfits₁ (hctor he)).2 ⟨e, _, ctor, 0, ctorData⟩ rfl rfl rfl).withFunctions _

/-! ### What a call answers

Room or no room: a call that answers 0 has made a function for every pointer the guest gave,
and any other answer has made none. -/

/-- The answer of a call of `w` that is to make `asked`. -/
def Lists (w : World) (asked : List CbRegistration) (r : ℕ × World) : Prop :=
  if r.1 = 0 then
    ∃ made, made.map Function.registration = asked ∧ r.2.functions = made ++ w.functions
  else r.2.functions = w.functions

/-- The functions of a list of properties. -/
def askedBy (e : ℕ) (ds : List PropertyDescriptor) : List CbRegistration :=
  (ds.filter PropertyDescriptor.isFunction).map fun d => (d.function e none).registration

@[simp] theorem register_functions (w : World) (e fn setterFn data : ℕ) :
    (w.register e fn setterFn data).2.functions = w.functions := by
  have halloc : (w.allocCbRegId e).2.functions = w.functions := by
    unfold allocCbRegId
    repeat' split
    all_goals rfl
  simp only [register, registerCallback, registerCallbackPair]
  repeat' split
  all_goals exact halloc

@[simp] theorem registerCallbackBinding_functions (w : World) (e regId : ℕ) :
    (w.registerCallbackBinding e regId).2.functions = w.functions := by
  unfold registerCallbackBinding
  repeat' split
  all_goals rfl

@[simp] theorem registerProperties_functions (w : World) (e : ℕ) (ds : List PropertyDescriptor) :
    (w.registerProperties e ds).2.functions = w.functions := by
  induction ds generalizing w with
  | nil => rfl
  | cons d ds ih =>
    show ((w.registerProperty e d).2.registerProperties e ds).2.functions = _
    rw [ih]
    rcases registerProperty_cases w e d with ⟨-, -, hw⟩ | ⟨_, _, _, -, -, -, hw⟩
    · rw [hw]
    · rw [hw, register_functions]

@[simp] theorem bindProperties_functions (w : World) (e : ℕ) (ps : List Property) :
    (w.bindProperties e ps).2.functions = w.functions := by
  induction ps generalizing w with
  | nil => rfl
  | cons p ps ih =>
    rw [bindProperties]
    cases p.regId with
    | none => exact ih w
    | some regId => exact (ih _).trans (registerCallbackBinding_functions w e regId)

/-- Whatever ids the properties got, bound or not, each pointer is in its function. -/
theorem functionsOf_registration (w u : World) (e : ℕ) (ds : List PropertyDescriptor) :
    (functionsOf e ds (u.bindProperties e (w.registerProperties e ds).1).1).map
      Function.registration = askedBy e ds := by
  induction ds generalizing w u with
  | nil => rfl
  | cons d ds ih =>
    show (functionsOf e (d :: ds) (u.bindProperties e ((w.registerProperty e d).1 ::
      ((w.registerProperty e d).2.registerProperties e ds).1)).1).map _ = _
    rw [bindProperties]
    rcases registerProperty_cases w e d with ⟨hd, hreg, -⟩ | ⟨_, _, _, hd, -, hreg, -⟩
    · rw [hreg, askedBy, List.filter_cons_of_neg (by simp [hd])]
      exact ih _ u
    · rw [hreg, askedBy, List.filter_cons_of_pos hd]
      exact congrArg₂ List.cons (d.function_registration e _) (ih _ _)

variable {asked : List CbRegistration}

theorem Lists.refused {w : World} {r : ℕ × World} (h : r.1 ≠ 0)
    (hsame : r.2.functions = w.functions) : w.Lists asked r :=
  (if_neg h).mpr hsame

theorem Lists.invalid {w u : World} (hsame : u.functions = w.functions) :
    w.Lists asked (invalidArg, u) :=
  .refused Nat.one_ne_zero hsame

theorem Lists.made {w u : World} {made old : List Function} (hu : u.functions = made ++ old)
    (hold : old = w.functions) (hmade : made.map Function.registration = asked) :
    w.Lists asked (0, u) :=
  (if_pos rfl).mpr ⟨made, hmade, hold ▸ hu⟩

theorem createFunction_lists (w : World) (e cb data : ℕ) (name : Bool) (engine : ℕ) :
    w.Lists [⟨e, cb, 0, data⟩] (w.createFunction e cb data name engine) := by
  unfold createFunction
  split
  · exact .invalid rfl
  dsimp only
  split
  · exact .invalid (register_functions ..)
  split
  next hengine => exact .refused hengine (by simp)
  · exact .made (List.singleton_append ..).symm (by simp) rfl

theorem defineProperties_lists (w : World) (e : ℕ) (object : Bool) (count : ℕ)
    (raw : Option (List UInt8)) (engine : ℕ) :
    w.Lists (askedBy e ((descriptors count raw).getD []))
      (w.defineProperties e object count raw engine) := by
  unfold defineProperties
  cases descriptors count raw with
  | none => exact .invalid rfl
  | some ds =>
    dsimp only
    split
    · exact .invalid (registerProperties_functions ..)
    split
    next hengine => exact .refused hengine (by simp)
    · exact .made rfl (by simp) (functionsOf_registration ..)

theorem defineClass_lists (w : World) (e ctor ctorData : ℕ) (name : Bool) (count : ℕ)
    (raw : Option (List UInt8)) (engine : ℕ) :
    w.Lists (⟨e, ctor, 0, ctorData⟩ :: askedBy e ((descriptors count raw).getD []))
      (w.defineClass e ctor ctorData name count raw engine) := by
  unfold defineClass
  split
  · exact .invalid rfl
  cases descriptors count raw with
  | none => exact .invalid (register_functions ..)
  | some ds =>
    dsimp only
    split
    · exact .invalid (by simp)
    split
    next hengine => exact .refused hengine (by simp)
    · exact .made (List.cons_append ..).symm (by simp)
        (congrArg (List.cons _) (functionsOf_registration ..))

/-! ### Runs -/

theorem EnvOk.empty : EnvOk {} where
  bound := ⟨List.nodup_nil, fun _ hmem => (List.not_mem_nil hmem).elim⟩
  issued _ hmem := (AList.notMem_empty _ hmem).elim
  counter := by decide

theorem step_inv {act : Action} (hi : Inv w w.functions) (hsafe : Safe w act)
    (hw : w.step act = some u) : Inv u u.functions := by
  cases act with
  | createEnv e =>
    simp only [step, Option.ite_none_left_eq_some, Option.some.injEq] at hw
    obtain ⟨hnew, rfl⟩ := hw
    refine ⟨?_, ?_, hi.distinct⟩
    · intro e' t ht
      rcases Table.lookup_insert_iff.mp ht with ⟨_, rfl⟩ | ⟨_, ht⟩
      · exact EnvOk.empty
      · exact hi.envs ht
    · intro f hf
      obtain ⟨t, regId, hb, ht, hbound, hr⟩ := hi.registered f hf
      refine ⟨t, regId, hb, Table.lookup_insert_iff.mpr (Or.inr ⟨?_, ht⟩), hbound, hr⟩
      rintro rfl
      exact hnew (AList.lookup_isSome.mp (by rw [ht]; rfl))
  | release =>
    cases hw
    refine ⟨fun {e s} hs => ?_, fun _ hf => (List.not_mem_nil hf).elim, List.Pairwise.nil⟩
    simp at hs
  | setValueLimit limit =>
    cases hw
    exact { hi with }
  | createFunction e cb data name engine =>
    cases hw
    exact createFunction_inv hi hsafe.1 hsafe.2
  | defineClass e ctor ctorData name count raw engine =>
    cases hw
    exact defineClass_inv hi hsafe.1 hsafe.2
  | defineProperties e object count raw engine =>
    cases hw
    exact defineProperties_inv hi hsafe.1 hsafe.2

theorem inv_empty : Inv {} [] :=
  ⟨fun hs => by simp at hs, fun _ hf => (List.not_mem_nil hf).elim, List.Pairwise.nil⟩

/-- Every function made in a run dispatches to the pointer it was made with, as long as the
    calls of the run had room for what they register. -/
theorem dispatch_sound {acts : List Action} (hrun : Run.run step {} acts = some w)
    (hsafe : Run.AllSteps step Safe {} acts) : Sound w := by
  have hstep : ∀ w act u, step w act = some u → Safe w act → Inv w w.functions →
      Inv u u.functions := fun _ _ _ hw hok hi => step_inv hi hok hw
  have hinv : Inv w w.functions := Run.invariant_of_allSteps hstep hrun hsafe inv_empty
  exact hinv.sound

/-- Three descriptors: a method, a value, and a getter with a setter. -/
def threeProperties : List UInt8 :=
  List.replicate 8 0 ++ [81, 0, 0, 0] ++ List.replicate 64 0 ++ [82, 0, 0, 0, 83, 0, 0, 0] ++
    List.replicate 12 0

/-- A function, then a class with the three properties, then a call that the engine refuses; all
    of it under a limit with no room to spare. -/
theorem class_dispatch_sound : ∃ w, Run.run step {} [.createEnv 1, .setValueLimit 4,
    .createFunction 1 70 700 true 0, .defineClass 1 80 800 true 3 (some threeProperties) 0,
    .createFunction 1 71 701 true 10] = some w ∧ Sound w :=
  have hsafe : Run.AllSteps step Safe {} [.createEnv 1, .setValueLimit 4,
      .createFunction 1 70 700 true 0, .defineClass 1 80 800 true 3 (some threeProperties) 0,
      .createFunction 1 71 701 true 10] := by decide
  ⟨_, rfl, dispatch_sound (show Run.run step {} _ = some _ from rfl) hsafe⟩

/-- One callback fills the limit. The next one is not registered, and still there is a
    function for it, and `napi_ok`. -/
theorem unregistered_not_sound : ∃ w, Run.run step {} [.createEnv 1, .setValueLimit 1,
    .createFunction 1 70 700 true 0, .createFunction 1 71 701 true 0] = some w ∧ ¬ Sound w := by
  refine ⟨_, rfl, fun h => ?_⟩
  have hcall := h.dispatch ⟨1, none, 71, 0, 701⟩ List.mem_cons_self 0
  cases hcall

end World

end WasmerNapi.Bridge.Callbacks
