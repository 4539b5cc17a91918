import WasmerNapi.Budget.Isolate
import WasmerNapi.Lib.Table

/-!
# `NapiEnv` — one store's envs, and the application's registry of them

`src/src/env.rs`, the native target. An application has one `EnvRegistry`, shared by
all its stores, which allocates env ids and holds every env for foreign `terminate`;
each store keeps its own tables beside it. The functions here are the bookkeeping half
of an env's life — `register_napi_env`, `commit_isolate`, `finish_unregister_napi_env`
— with the calls they make into the bridge returned as a list, in order.

Their budget half is in `Budget/Isolate.lean`; `Env/Isolates.lean` runs the two
together.
-/

namespace WasmerNapi.Env

open Budget Word

/-- `RELEASE_REFUSED`: the bridge did not release the env. -/
def releaseRefused : ℤ := 1

/-- The calls into the bridge that the bookkeeping makes; an env is its address. -/
inductive BridgeCall where
  | retainEnv (env : ℕ)
  | unretainEnv (env : ℕ)
  | terminateExecution (env : ℕ)
  | setHostNearHeapLimitCallback (env : ℕ)
  | setValueLimit (env limit : ℕ)
  deriving DecidableEq, Repr

structure EnvRegistry where
  nextNativeId : ℕ := 0
  envs : AList (fun _ : ℕ => ℕ) := ∅

/-- A committed env's charge: its ceiling, and the tracker behind the boxed pointer
    (`none` for the null pointer of an unbudgeted env). -/
structure EnvHeapChargeHandle where
  ceiling : ℕ
  tracker : Option EnvHeapCharge

def EnvHeapChargeHandle.granted (h : EnvHeapChargeHandle) : ℕ :=
  match h.tracker with
  | some tracker => tracker.granted
  | none => 0

/-- The tables of one store that an env's registration touches. -/
structure NapiEnv where
  napiEnvs : AList (fun _ : ℕ => ℕ) := ∅
  napiStateToGuestEnv : AList (fun _ : ℕ => ℕ) := ∅
  napiScopes : AList (fun _ : ℕ => ℕ) := ∅
  envHeapCharges : AList (fun _ : ℕ => EnvHeapChargeHandle) := ∅

/-- `register_napi_env`: the id is the application's next one; an exhausted id space
    panics. The scope id is the env id. -/
def registerNapiEnv (registry : EnvRegistry) (store : NapiEnv) (env : ℕ) :
    Option (ℕ × EnvRegistry × NapiEnv × List BridgeCall) :=
  (checkedAdd 32 registry.nextNativeId 1).map fun envId =>
    (envId,
      { nextNativeId := envId, envs := registry.envs.insert envId env },
      { store with
        napiEnvs := store.napiEnvs.insert envId env
        napiStateToGuestEnv := store.napiStateToGuestEnv.insert env envId
        napiScopes := store.napiScopes.insert envId envId },
      [.retainEnv env])

/-- `commit_isolate`. -/
def commitIsolate {α : Type} [NapiMemoryAccountant α] (budget : ResourceBudget α)
    (hostStopped : Bool) (registry : EnvRegistry) (store : NapiEnv) (env : ℕ)
    (reservation : HeapReservation) : Option (ℕ × EnvRegistry × NapiEnv × List BridgeCall) :=
  (registerNapiEnv registry store env).map fun (envId, registry, store, calls) =>
    let stop := if hostStopped then [.terminateExecution env] else []
    let limits :=
      if reservation.clamped then
        BridgeCall.setHostNearHeapLimitCallback env ::
          (budget.valueHandleLimit.map (BridgeCall.setValueLimit env)).toList
      else []
    (envId, registry,
      { store with
        envHeapCharges := store.envHeapCharges.insert envId
          { ceiling := reservation.ceilingBytes
            tracker := if reservation.clamped then some { env } else none } },
      calls ++ stop ++ limits)

/-- `finish_unregister_napi_env` up to its budget calls: the tables it leaves, and the
    granted bytes and ceiling it is about to give back. A refused release touches
    nothing. -/
def finishUnregisterNapiEnv (registry : EnvRegistry) (store : NapiEnv) (envId env : ℕ)
    (status : ℤ) : EnvRegistry × NapiEnv × List BridgeCall × Option (ℕ × ℕ) :=
  if status = releaseRefused then (registry, store, [], none)
  else
    let calls := if (registry.envs.lookup envId).isSome then [.unretainEnv env] else []
    let handle := store.envHeapCharges.lookup envId
    ({ registry with envs := registry.envs.erase envId },
      { store with
        envHeapCharges := store.envHeapCharges.erase envId
        napiEnvs := store.napiEnvs.erase envId
        napiStateToGuestEnv := store.napiStateToGuestEnv.erase env },
      calls,
      handle.map fun h => (h.granted, h.ceiling))

/-! ## What the bookkeeping does to a store's charges -/

/-- Bytes a store's envs have in `v8_heap_reserved`. -/
def NapiEnv.heapBytes (store : NapiEnv) : ℕ :=
  Table.total (fun _ h => h.ceiling + h.granted) store.envHeapCharges

/-- Isolate slots a store's envs hold. -/
def NapiEnv.slots (store : NapiEnv) : ℕ := Table.total (fun _ _ => 1) store.envHeapCharges

/-- A committed env is a new entry, under an id no table has seen, that holds exactly
    its ceiling and one slot. -/
theorem commitIsolate_eq_some {α : Type} [NapiMemoryAccountant α] {budget : ResourceBudget α}
    {hostStopped : Bool} {registry registry' : EnvRegistry} {store store' : NapiEnv} {env envId : ℕ}
    {r : HeapReservation} {calls : List BridgeCall}
    (hids : ∀ id ∈ store.envHeapCharges, id ≤ registry.nextNativeId)
    (h : commitIsolate budget hostStopped registry store env r =
      some (envId, registry', store', calls)) :
    envId = registry.nextNativeId + 1 ∧ registry'.nextNativeId = registry.nextNativeId + 1 ∧
      store'.heapBytes = store.heapBytes + r.ceilingBytes ∧ store'.slots = store.slots + 1 ∧
      ∃ t, store'.envHeapCharges =
        store.envHeapCharges.insert envId { ceiling := r.ceilingBytes, tracker := t } := by
  simp only [commitIsolate, registerNapiEnv, Option.map_map, Option.map_eq_some_iff,
    Function.comp_apply, checkedAdd_eq_some, Prod.mk.injEq] at h
  obtain ⟨id, ⟨-, rfl⟩, rfl, rfl, rfl, -⟩ := h
  have hnew : registry.nextNativeId + 1 ∉ store.envHeapCharges := fun hmem => by
    have := hids _ hmem
    omega
  refine ⟨rfl, rfl, ?_, ?_, _, rfl⟩
  · simp only [NapiEnv.heapBytes, Table.total_insert_of_notMem _ hnew]
    cases r.clamped <;> simp [EnvHeapChargeHandle.granted] <;> omega
  · simp only [NapiEnv.slots, Table.total_insert_of_notMem _ hnew]
    omega

/-- `commit_isolate` terminates the env it registered exactly when the flag is set. -/
theorem terminateExecution_mem_commitIsolate {α : Type} [NapiMemoryAccountant α]
    {budget : ResourceBudget α} {hostStopped : Bool} {registry registry' : EnvRegistry}
    {store store' : NapiEnv} {env envId : ℕ} {r : HeapReservation} {calls : List BridgeCall}
    (hc : commitIsolate budget hostStopped registry store env r =
      some (envId, registry', store', calls)) :
    .terminateExecution env ∈ calls ↔ hostStopped = true := by
  simp only [commitIsolate, registerNapiEnv, Option.map_map, Option.map_eq_some_iff,
    Function.comp_apply, Prod.mk.injEq] at hc
  obtain ⟨id, -, -, -, -, rfl⟩ := hc
  cases hostStopped <;> cases r.clamped <;> cases budget.valueHandleLimit <;> simp

/-- Bytes a finished release hands over: what was granted, and the ceiling. -/
def handedOver : Option (ℕ × ℕ) → ℕ
  | some (granted, ceiling) => granted + ceiling
  | none => 0

/-- A finished release takes one entry out, and hands over exactly what it held; an id
    the store does not have hands over nothing. -/
theorem finishUnregisterNapiEnv_charges {registry registry' : EnvRegistry} {store store' : NapiEnv}
    {envId env : ℕ} {status : ℤ} {calls : List BridgeCall} {back : Option (ℕ × ℕ)}
    (hstatus : status ≠ releaseRefused)
    (h : finishUnregisterNapiEnv registry store envId env status =
      (registry', store', calls, back)) :
    registry'.nextNativeId = registry.nextNativeId ∧
      store'.envHeapCharges = store.envHeapCharges.erase envId ∧
      store'.heapBytes + handedOver back = store.heapBytes ∧
      store'.slots + (if back.isSome then 1 else 0) = store.slots := by
  simp only [finishUnregisterNapiEnv, if_neg hstatus, Prod.mk.injEq] at h
  obtain ⟨rfl, rfl, -, rfl⟩ := h
  refine ⟨rfl, rfl, ?_⟩
  cases hl : store.envHeapCharges.lookup envId with
  | none =>
    have : store.envHeapCharges.erase envId = store.envHeapCharges := by
      apply AList.ext
      exact List.kerase_of_notMem_keys (AList.lookup_eq_none.mp hl)
    simp [NapiEnv.heapBytes, NapiEnv.slots, this, handedOver]
  | some hd =>
    have hb := Table.total_erase (fun _ h => h.ceiling + h.granted) hl
    have hs := Table.total_erase (fun _ (_ : EnvHeapChargeHandle) => 1) hl
    simp only [Option.map_some, NapiEnv.heapBytes, NapiEnv.slots, handedOver, Option.isSome_some,
      if_true]
    exact ⟨by omega, by omega⟩

end WasmerNapi.Env
