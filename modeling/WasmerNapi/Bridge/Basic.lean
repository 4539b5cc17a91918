import WasmerNapi.Lib.Table
import WasmerNapi.Lib.Word

/-!
# The bridge: statuses and handle tables

`src/src/napi_bridge_init.cc` stands between a guest's imports and the engine. A guest
holds no host pointer: what it gets is a `u32` id from a `HandleTable`, a map from ids to
host pointers whose counter is never checked. `0` means null to the callers, and the
counter comes past it after `2 ^ 32` stores: `Store` then files the handle under `0` and
returns `0`, and no `Take` will ever find it there. So what a table *holds* — `weigh`, the
sum of some quantity over its handles — leaves the entry at `0` out.
-/

namespace WasmerNapi.Bridge

open Word

/-- `napi_status`. The guest functions return it as an `i32`, and write the literal `1`
    for `invalidArg`. -/
inductive NapiStatus where
  | ok
  | invalidArg
  | objectExpected
  | stringExpected
  | nameExpected
  | functionExpected
  | numberExpected
  | booleanExpected
  | arrayExpected
  | genericFailure
  | pendingException
  | cancelled
  | escapeCalledTwice
  | handleScopeMismatch
  | callbackScopeMismatch
  | queueFull
  | closing
  | bigintExpected
  | dateExpected
  | arraybufferExpected
  | detachableArraybufferExpected
  | wouldDeadlock
  | noExternalBuffersAllowed
  | cannotRunJs
  deriving DecidableEq, Repr

structure HandleTable (τ : Type) where
  handles : AList fun _ : ℕ => τ := ∅
  nextId : ℕ := 1

namespace HandleTable

variable {τ : Type}

/-- `Store`; a null handle is `none`. -/
def store (t : HandleTable τ) : Option τ → ℕ × HandleTable τ
  | none => (0, t)
  | some handle =>
    (t.nextId,
      { handles := t.handles.insert t.nextId handle, nextId := wrappingAdd 32 t.nextId 1 })

/-- `Take`. -/
def take (t : HandleTable τ) (id : ℕ) : Option τ × HandleTable τ :=
  if id = 0 then (none, t)
  else
    match t.handles.lookup id with
    | none => (none, t)
    | some handle => (some handle, { t with handles := t.handles.erase id })

/-- `Remove`. -/
def remove (t : HandleTable τ) (id : ℕ) : HandleTable τ := { t with handles := t.handles.erase id }

/-- `Reset`. -/
def reset (_ : HandleTable τ) : HandleTable τ := {}

/-- `TakeAll`; the order is the map's own. -/
def takeAll (t : HandleTable τ) : List τ × HandleTable τ :=
  (t.handles.entries.map fun e => e.2, t.reset)

/-- `Load`: the handle an id names. -/
def named (t : HandleTable τ) (id : ℕ) : Option τ := if id = 0 then none else t.handles.lookup id

variable {t : HandleTable τ} {id : ℕ}

theorem take_of_named_none (h : t.named id = none) :
    t.take id = (none, t) := by
  unfold named at h
  unfold take
  split
  · rfl
  · rename_i hid
    rw [if_neg hid] at h
    simp only [h]

variable {handle : τ}

theorem take_of_named_some (h : t.named id = some handle) :
    t.take id = (some handle, { t with handles := t.handles.erase id }) := by
  unfold named at h
  split at h
  · cases h
  · rename_i hid
    unfold take
    rw [if_neg hid]
    simp only [h]

@[simp] theorem nextId_store (t : HandleTable τ) (handle : τ) :
    (t.store (some handle)).2.nextId = wrappingAdd 32 t.nextId 1 := rfl

theorem nextId_take (t : HandleTable τ) (id : ℕ) : (t.take id).2.nextId = t.nextId := by
  cases h : t.named id with
  | none => rw [take_of_named_none h]
  | some handle => rw [take_of_named_some h]

theorem named_store (t : HandleTable τ) (handle : τ) (id : ℕ) :
    (t.store (some handle)).2.named id =
      if id = 0 then none else if id = t.nextId then some handle else t.named id := by
  unfold named store
  by_cases h0 : id = 0
  · rw [if_pos h0, if_pos h0]
  · rw [if_neg h0, if_neg h0]
    by_cases hid : id = t.nextId
    · rw [if_pos hid, hid]
      exact AList.lookup_insert _
    · rw [if_neg hid, if_neg h0]
      exact AList.lookup_insert_ne hid

theorem named_take (t : HandleTable τ) (id : ℕ) :
    (t.take id).2.named = Function.update t.named id none := by
  funext id'
  cases h : t.named id with
  | none =>
    rw [take_of_named_none h, ← h, Function.update_eq_self]
  | some handle =>
    rw [take_of_named_some h]
    by_cases hid : id' = id
    · subst hid
      rw [Function.update_self, named, AList.lookup_erase, ite_self]
    · rw [Function.update_of_ne hid, named, named, AList.lookup_erase_ne hid]

theorem named_remove (t : HandleTable τ) (id : ℕ) :
    (t.remove id).named = Function.update t.named id none := by
  funext id'
  unfold named remove
  by_cases hid : id' = id
  · subst hid
    rw [Function.update_self, AList.lookup_erase, ite_self]
  · rw [Function.update_of_ne hid, AList.lookup_erase_ne hid]

/-- The sum of `f` over the handles some id names. -/
def weigh (f : τ → ℕ) (t : HandleTable τ) : ℕ :=
  Table.total (fun id handle => if id = 0 then 0 else f handle) t.handles

/-- A store adds its handle, unless it is filed under `0`, and loses the handle it
    overwrites. -/
theorem weigh_store (f : τ → ℕ) (t : HandleTable τ) (handle : τ) :
    weigh f (t.store (some handle)).2 + ((t.named t.nextId).map f).getD 0 =
      weigh f t + if t.nextId = 0 then 0 else f handle := by
  unfold weigh store named
  cases hl : t.handles.lookup t.nextId with
  | none =>
    rw [Table.total_insert_of_notMem _ (AList.lookup_eq_none.mp hl)]
    simp only [ite_self, Option.map_none, Option.getD_none, Nat.add_zero]
    omega
  | some old =>
    have hswap :=
      Table.total_insert_of_lookup (fun id handle => if id = 0 then 0 else f handle) hl handle
    by_cases hid : t.nextId = 0
    · simp only [hid, if_true, Option.map_none, Option.getD_none] at hswap ⊢
      omega
    · simp only [if_neg hid, Option.map_some, Option.getD_some] at hswap ⊢
      omega

/-- A take removes the handle it returns. -/
theorem weigh_take (f : τ → ℕ) (h : t.named id = some handle) :
    weigh f (t.take id).2 + f handle = weigh f t := by
  rw [take_of_named_some h]
  unfold named at h
  split at h
  · cases h
  · rename_i hid
    have := Table.total_erase (fun id handle => if id = 0 then 0 else f handle) h
    rw [if_neg hid] at this
    exact this

theorem le_weigh (f : τ → ℕ) (h : t.named id = some handle) : f handle ≤ weigh f t := by
  have := weigh_take f h
  omega

end HandleTable
end WasmerNapi.Bridge
