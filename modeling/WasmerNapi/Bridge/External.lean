import WasmerNapi.Agent.Values

/-!
# External buffers of a guest

`src/src/guest/napi.rs` and `src/src/napi_bridge_init.cc`: a guest hands the engine a
stretch of its own linear memory as the contents of an `ArrayBuffer` or a `Buffer`.
The import turns the guest's address into a host address by adding the memory's base, and
that is all it does: neither the start nor the end is compared with the length of the
memory, on any of the four paths. `write_guest_bytes`, and the twin of this import for a
JavaScript host, compare both.

`externals_bounded_iff` is what is left of the sandbox bound: the two imports keep it for
a range inside the memory, and otherwise only when there is no memory or no env, since
then the engine is not reached at all.
-/

namespace WasmerNapi.Bridge

open Word

/-- The guest's linear memory, as the host sees it: `data_ptr` and the bytes of the view. -/
structure GuestMemory where
  base : ℕ
  data : List UInt8

namespace GuestMemory

/-- `data_size`. -/
def size (m : GuestMemory) : ℕ := m.data.length

/-- `read_guest_bytes`. -/
def read (m : GuestMemory) (guestPtr len : ℕ) : Option (List UInt8) :=
  if guestPtr + len ≤ m.size then some ((m.data.drop guestPtr).take len) else none

/-- `write_guest_bytes`; a range that is not in the memory is left alone. -/
def write (m : GuestMemory) (guestPtr : ℕ) (bytes : List UInt8) : GuestMemory :=
  if guestPtr + bytes.length ≤ m.size then
    { m with data := m.data.take guestPtr ++ bytes ++ m.data.drop (guestPtr + bytes.length) }
  else m

end GuestMemory

/-- `to_le_bytes` of a number of `n` bytes. -/
def leBytes (n value : ℕ) : List UInt8 := (List.range n).map fun i => UInt8.ofNat (value >>> (8 * i))

/-- `from_le_bytes`. -/
def ofLeBytes (bytes : List UInt8) : ℕ := bytes.foldr (fun byte value => byte.toNat + 256 * value) 0

/-- `NapiEnv`, as far as a guest import that makes or reads a value goes. `napiEnvs` is
    `resolve_napi_env` and then `RequireEnvState`: the agent of a guest's env id. -/
structure NapiEnv (ν : Type) where
  memory : Option GuestMemory := none
  napiEnvs : ℕ → Option ℕ := fun _ => none
  agents : ℕ → Agent.State ν := fun _ => {}

def NapiEnv.writeU32 {ν : Type} (env : NapiEnv ν) (guestPtr value : ℕ) : NapiEnv ν :=
  { env with memory := env.memory.map fun m => m.write guestPtr (leBytes 4 value) }

namespace External

/-- The two kinds of value. Their engine functions take the address and the length the
    other way round. -/
inductive Kind where
  | arraybuffer
  | buffer
  deriving DecidableEq

structure GuestFinalizerRecord where
  guestEnv : ℕ
  wasmFnPtr : ℕ
  data : ℕ
  hint : ℕ
  deriving DecidableEq

/-- The calls the bridge makes into the engine. -/
inductive EngineCall (ν : Type) where
  | createExternalArraybuffer (data byteLength : ℕ)
  | createExternalBuffer (byteLength data : ℕ)
  | addFinalizer (value : ν) (record : GuestFinalizerRecord)
  | backingStoreToken (kind : Kind) (value : ν)
  deriving DecidableEq

def Kind.create {ν : Type} : Kind → ℕ → ℕ → EngineCall ν
  | .arraybuffer, data, byteLength => .createExternalArraybuffer data byteLength
  | .buffer, data, byteLength => .createExternalBuffer byteLength data

/-- The host range a call hands over: its address and its length. -/
def EngineCall.range {ν : Type} : EngineCall ν → Option (ℕ × ℕ)
  | .createExternalArraybuffer data byteLength => some (data, byteLength)
  | .createExternalBuffer byteLength data => some (data, byteLength)
  | .addFinalizer _ _ | .backingStoreToken _ _ => none

/-- The engine, and the host's allocator: how each call comes out. The value counts only
    beside `napi_ok`. -/
structure Engine (ν : Type) where
  create : EngineCall ν → NapiStatus × ν
  newRecord : GuestFinalizerRecord → Bool
  addFinalizer : ν → GuestFinalizerRecord → NapiStatus

/-- What a call into the bridge leaves behind: the engine calls it made, in order, the
    agent, if there is one, and `*out_id`. -/
structure Bridged (ν : Type) where
  status : NapiStatus
  calls : List (EngineCall ν) := []
  agent : Option (Agent.State ν)
  outId : ℕ := 0

section

variable {ν : Type} (engine : Engine ν)

/-- The end of all four paths: the token of the backing store, and an id for the value. -/
def handOut (kind : Kind) (agent : Agent.State ν) (result : ν) (calls : List (EngineCall ν)) :
    Bridged ν where
  status := .ok
  calls := calls ++ [.backingStoreToken kind result]
  agent := some (agent.storeValue (some result)).2
  outId := (agent.storeValue (some result)).1

/-- The four paths in one. `state` is what `RequireEnvState` finds. With a record,
    `napi_add_finalizer` comes between the engine's value and its id. -/
def createExternal (kind : Kind) (state : Option (Agent.State ν)) (dataAddr byteLength : ℕ)
    (record : Option GuestFinalizerRecord) : Bridged ν :=
  match state with
  | none => { status := .invalidArg, agent := none }
  | some agent =>
    let call := kind.create dataAddr byteLength
    let (status, result) := engine.create call
    if status ≠ .ok then { status, calls := [call], agent }
    else
      match record with
      | none => handOut kind agent result [call]
      | some record =>
        if !engine.newRecord record then
          { status := .genericFailure, calls := [call], agent }
        else
          let status := engine.addFinalizer result record
          -- The record is deleted again.
          if status ≠ .ok then { status, calls := [call, .addFinalizer result record], agent }
          else handOut kind agent result [call, .addFinalizer result record]

def snapiBridgeCreateExternalArraybuffer (state : Option (Agent.State ν))
    (dataAddr byteLength : ℕ) : Bridged ν :=
  createExternal engine .arraybuffer state dataAddr byteLength none

def snapiBridgeCreateExternalBuffer (state : Option (Agent.State ν))
    (dataAddr byteLength : ℕ) : Bridged ν :=
  createExternal engine .buffer state dataAddr byteLength none

def snapiBridgeCreateExternalArraybufferGuestFinalized (state : Option (Agent.State ν))
    (dataAddr byteLength : ℕ) (record : GuestFinalizerRecord) : Bridged ν :=
  createExternal engine .arraybuffer state dataAddr byteLength (some record)

def snapiBridgeCreateExternalBufferGuestFinalized (state : Option (Agent.State ν))
    (dataAddr byteLength : ℕ) (record : GuestFinalizerRecord) : Bridged ν :=
  createExternal engine .buffer state dataAddr byteLength (some record)

/-- What an import leaves behind. -/
structure Reply (ν : Type) where
  status : NapiStatus
  calls : List (EngineCall ν) := []
  env : NapiEnv ν

/-- The end of both imports: the bridge's agent is the env's, and a success writes its id. -/
def settle (env : NapiEnv ν) (e rp : ℕ) (r : Bridged ν) : Reply ν where
  status := r.status
  calls := r.calls
  env :=
    let env :=
      match env.napiEnvs e, r.agent with
      | some a, some agent => { env with agents := Function.update env.agents a agent }
      | _, _ => env
    if r.status = .ok then env.writeU32 rp r.outId else env

/-- `host_base + external_data as u64`. -/
def hostAddr (memory : GuestMemory) (externalData : ℕ) : ℕ :=
  wrappingAdd 64 memory.base externalData

/-- `guest_napi_create_external_arraybuffer`. -/
def guestNapiCreateExternalArraybuffer (env : NapiEnv ν)
    (e externalData byteLength finalizeCb finalizeHint rp : ℕ) : Reply ν :=
  match env.memory with
  | none => { status := .invalidArg, env }
  | some memory =>
    let state := (env.napiEnvs e).map env.agents
    let addr := hostAddr memory externalData
    settle env e rp <|
      if finalizeCb ≠ 0 then
        snapiBridgeCreateExternalArraybufferGuestFinalized engine state addr byteLength
          { guestEnv := e, wasmFnPtr := finalizeCb, data := externalData, hint := finalizeHint }
      else snapiBridgeCreateExternalArraybuffer engine state addr byteLength

/-- `guest_napi_create_external_buffer`: the length comes before the data. -/
def guestNapiCreateExternalBuffer (env : NapiEnv ν)
    (e byteLength externalData finalizeCb finalizeHint rp : ℕ) : Reply ν :=
  match env.memory with
  | none => { status := .invalidArg, env }
  | some memory =>
    let state := (env.napiEnvs e).map env.agents
    let addr := hostAddr memory externalData
    settle env e rp <|
      if finalizeCb ≠ 0 then
        snapiBridgeCreateExternalBufferGuestFinalized engine state addr byteLength
          { guestEnv := e, wasmFnPtr := finalizeCb, data := externalData, hint := finalizeHint }
      else snapiBridgeCreateExternalBuffer engine state addr byteLength

/-! ## The bound -/

/-- The range lies in the guest's memory as it is. -/
def InMemory (env : NapiEnv ν) (externalData byteLength : ℕ) : Prop :=
  ∃ memory, env.memory = some memory ∧ externalData + byteLength ≤ memory.size

/-- `[base + external_data, base + external_data + byte_length)`, in the 64-bit addresses of
    the host, as the range from `addr` on; it lies in `[base, base + size)`. -/
structure Handed (env : NapiEnv ν) (externalData byteLength addr size : ℕ) : Prop where
  start : ∃ memory, env.memory = some memory ∧ addr = wrappingAdd 64 memory.base externalData
  length : size = byteLength
  inside : ∃ memory, env.memory = some memory ∧ ∀ i, i < size →
    ∃ j, j < memory.size ∧ wrappingAdd 64 addr i = wrappingAdd 64 memory.base j

/-- The sandbox bound for one reply: a success means a range in the memory, any other range
    is refused before the engine hears of it, and whatever range the engine is handed is the
    one asked for and lies in the memory. -/
structure Bounded (env : NapiEnv ν) (externalData byteLength : ℕ) (r : Reply ν) : Prop where
  ok : r.status = .ok → InMemory env externalData byteLength
  refused : ¬ InMemory env externalData byteLength → r.status ≠ .ok ∧ r.calls = []
  handed : ∀ call ∈ r.calls, ∀ addr size, call.range = some (addr, size) →
    Handed env externalData byteLength addr size

/-- The range that starts at the host address of the guest's is the guest's. -/
theorem handed_of_inMemory {env : NapiEnv ν} {memory : GuestMemory} {externalData byteLength : ℕ}
    (hm : env.memory = some memory) (hin : InMemory env externalData byteLength) :
    Handed env externalData byteLength (hostAddr memory externalData) byteLength := by
  obtain ⟨memory', hm', hle⟩ := hin
  cases hm.symm.trans hm'
  refine ⟨⟨memory, hm, rfl⟩, rfl, memory, hm, ?_⟩
  intro i hi
  refine ⟨externalData + i, by omega, ?_⟩
  simp only [hostAddr, wrappingAdd, Nat.mod_add_mod, Nat.add_assoc]

/-- The one range on any path is the one the import was called with. -/
theorem createExternal_range {kind : Kind} {state : Option (Agent.State ν)}
    {dataAddr byteLength : ℕ} {record : Option GuestFinalizerRecord} :
    ∀ call ∈ (createExternal engine kind state dataAddr byteLength record).calls,
      ∀ range, call.range = some range → range = (dataAddr, byteLength) := by
  have hcreate : ∀ range, (kind.create dataAddr byteLength : EngineCall ν).range = some range →
      range = (dataAddr, byteLength) := by
    intro range hr
    cases kind <;> exact (Option.some.inj hr).symm
  have hcalls : ∀ call ∈ (createExternal engine kind state dataAddr byteLength record).calls,
      call = kind.create dataAddr byteLength ∨ call.range = none := by
    unfold createExternal handOut
    intro call hcall
    cases state with
    | none => cases hcall
    | some agent =>
      dsimp only at hcall
      split at hcall
      · exact .inl (List.mem_singleton.mp hcall)
      · cases record with
        | none =>
          rcases List.mem_cons.mp hcall with rfl | hcall
          · exact .inl rfl
          · cases List.mem_singleton.mp hcall
            exact .inr rfl
        | some record =>
          dsimp only at hcall
          split_ifs at hcall
          · exact .inl (List.mem_singleton.mp hcall)
          · rcases List.mem_cons.mp hcall with rfl | hcall
            · exact .inl rfl
            · cases List.mem_singleton.mp hcall
              exact .inr rfl
          · rcases List.mem_cons.mp hcall with rfl | hcall
            · exact .inl rfl
            · refine .inr ?_
              rcases List.mem_cons.mp hcall with rfl | hcall
              · rfl
              · cases List.mem_singleton.mp hcall
                rfl
  intro call hcall range hr
  rcases hcalls call hcall with rfl | hnone
  · exact hcreate range hr
  · rw [hnone] at hr
    cases hr

/-- No path gets past `RequireEnvState` without a call into the engine, … -/
theorem createExternal_some (kind : Kind) (agent : Agent.State ν) (dataAddr byteLength : ℕ)
    (record : Option GuestFinalizerRecord) :
    kind.create dataAddr byteLength ∈
      (createExternal engine kind (some agent) dataAddr byteLength record).calls := by
  unfold createExternal
  dsimp only
  split
  · exact List.mem_singleton_self _
  · cases record with
    | none => exact List.mem_cons_self
    | some record =>
      dsimp only
      split
      · exact List.mem_singleton_self _
      · split
        · exact List.mem_cons_self
        · exact List.mem_cons_self

/-- … and with no env there is none. -/
theorem createExternal_none (kind : Kind) (dataAddr byteLength : ℕ)
    (record : Option GuestFinalizerRecord) :
    createExternal engine kind none dataAddr byteLength record =
      { status := .invalidArg, agent := none } := rfl

/-- The imports, past their memory, as one: the kind, and the record a callback gives. -/
def imported (kind : Kind) (env : NapiEnv ν) (e externalData byteLength : ℕ)
    (record : Option GuestFinalizerRecord) (rp : ℕ) (memory : GuestMemory) : Reply ν :=
  settle env e rp
    (createExternal engine kind ((env.napiEnvs e).map env.agents) (hostAddr memory externalData)
      byteLength record)

variable {engine}

theorem refused_bounded (env : NapiEnv ν) (externalData byteLength : ℕ) :
    Bounded env externalData byteLength { status := .invalidArg, env } := by
  refine ⟨?_, ?_, ?_⟩
  · nofun
  · intro _
    refine ⟨?_, rfl⟩
    intro h
    cases h
  · nofun

theorem imported_bounded_iff (kind : Kind) (env : NapiEnv ν) (e externalData byteLength : ℕ)
    (record : Option GuestFinalizerRecord) (rp : ℕ) {memory : GuestMemory}
    (hm : env.memory = some memory) :
    Bounded env externalData byteLength
        (imported engine kind env e externalData byteLength record rp memory) ↔
      env.napiEnvs e = none ∨ InMemory env externalData byteLength := by
  cases he : env.napiEnvs e with
  | none =>
    have hr : imported engine kind env e externalData byteLength record rp memory =
        { status := .invalidArg, env } := by
      unfold imported settle
      rw [he, Option.map_none, createExternal_none]
      rfl
    rw [hr]
    exact iff_of_true (refused_bounded env externalData byteLength) (.inl rfl)
  | some a =>
    -- The engine has been called, so only a range in the memory is any good.
    have hcall : (imported engine kind env e externalData byteLength record rp memory).calls ≠ [] := by
      have := createExternal_some engine kind (env.agents a) (hostAddr memory externalData)
        byteLength record
      unfold imported settle
      rw [he, Option.map_some]
      exact List.ne_nil_of_mem this
    constructor
    · intro h
      refine .inr ?_
      by_contra hout
      exact hcall (h.refused hout).2
    · rintro (h | h)
      · cases h
      · refine ⟨fun _ => h, fun hout => absurd h hout, ?_⟩
        intro call hcall addr size hr
        cases createExternal_range engine call hcall (addr, size) hr
        exact handed_of_inMemory hm h

/-- Both imports keep the sandbox bound exactly where the engine is not reached, for lack
    of a memory or of an env, or the guest's range happens to be inside its memory. -/
theorem externals_bounded_iff (engine : Engine ν) (env : NapiEnv ν)
    (e externalData byteLength finalizeCb finalizeHint rp : ℕ) :
    (Bounded env externalData byteLength
        (guestNapiCreateExternalArraybuffer engine env e externalData byteLength finalizeCb
          finalizeHint rp) ↔
      env.memory = none ∨ env.napiEnvs e = none ∨ InMemory env externalData byteLength) ∧
    (Bounded env externalData byteLength
        (guestNapiCreateExternalBuffer engine env e byteLength externalData finalizeCb
          finalizeHint rp) ↔
      env.memory = none ∨ env.napiEnvs e = none ∨ InMemory env externalData byteLength) := by
  unfold guestNapiCreateExternalArraybuffer guestNapiCreateExternalBuffer
  cases hm : env.memory with
  | none =>
    have := refused_bounded env externalData byteLength
    exact ⟨iff_of_true this (.inl rfl), iff_of_true this (.inl rfl)⟩
  | some memory =>
    have hno : ¬ some memory = none := Option.some_ne_none memory
    rw [or_iff_right hno]
    by_cases hcb : finalizeCb ≠ 0
    · dsimp only
      rw [if_pos hcb, if_pos hcb]
      exact ⟨imported_bounded_iff .arraybuffer env e externalData byteLength _ rp hm,
        imported_bounded_iff .buffer env e externalData byteLength _ rp hm⟩
    · dsimp only
      rw [if_neg hcb, if_neg hcb]
      exact ⟨imported_bounded_iff .arraybuffer env e externalData byteLength _ rp hm,
        imported_bounded_iff .buffer env e externalData byteLength _ rp hm⟩

/-- One page of memory, one env, and an engine that refuses nothing. -/
def onePage : NapiEnv ℕ where
  memory := some { base := 4096, data := List.replicate 65536 0 }
  napiEnvs := fun e => if e = 1 then some 0 else none

def willing : Engine ℕ where
  create := fun _ => (.ok, 7)
  newRecord := fun _ => true
  addFinalizer := fun _ _ => .ok

/-- A range that starts inside the page and ends past it is handed to the engine, by
    either import, with a callback or without one. -/
theorem page_end_not_bounded :
    ¬ Bounded onePage 65530 100
        (guestNapiCreateExternalArraybuffer willing onePage 1 65530 100 0 0 16) ∧
      ¬ Bounded onePage 65530 100
        (guestNapiCreateExternalBuffer willing onePage 1 100 65530 3 0 16) := by
  have hout : ¬ InMemory onePage 65530 100 := by
    rintro ⟨memory, hm, hle⟩
    cases hm
    rw [GuestMemory.size, List.length_replicate] at hle
    omega
  exact ⟨fun h => hout (h.ok rfl), fun h => hout (h.ok rfl)⟩

end
end External
end WasmerNapi.Bridge
