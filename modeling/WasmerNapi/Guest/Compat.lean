import WasmerNapi.Bridge.Basic
import WasmerNapi.Lib.Fallible
import WasmerNapi.Lib.Scoped

/-!
# The two realm-compatibility layers

The deprecated calls find a realm from a context argument. `lib/src/napi_compat.cc` does that for
native code, on engine calls; `guest/compat.rs` does it for a guest, on the bridge's calls, where
a value is an id of a table with scopes and a realm is named by such an id.

An engine call may fail; which of them do is fixed by `fails`, by the number of the call, so that
both layers meet the same failures. The guest's table is any that keeps the laws of
`Scoped.Lawful`; `Guest.Tables` has the two there are.
-/

namespace WasmerNapi.Guest.Compat

open Bridge (NapiStatus)
open Fallible

/-! ## The engine -/

inductive ValueType
  | undefined
  | null
  | boolean
  | number
  | string
  | symbol
  | object
  | function
  | external
  | bigint
  deriving DecidableEq

/-- What the engine knows and no lookup changes: the type of a value, the realm it is the global
    or sandbox of, the global of a realm as `napi_get_global` returns it (`none`: the env's own
    realm), and the pointer of the scope that a call opens. -/
structure Facts (ν : Type) where
  typeOf : ν → ValueType
  realmOf : ν → Option ℕ
  globalOf : Option ℕ → ν
  scopeFor : ℕ → ℕ

structure Failure where
  status : NapiStatus
  ne : status ≠ .ok

/-- The calls made so far, and the realms entered, innermost first, each with its token; a
    running callback has token 0. -/
structure Env where
  calls : ℕ := 0
  entered : List (ℕ × Option ℕ) := []
  lastScope : ℕ := 0

def currentOf (entered : List (ℕ × Option ℕ)) : Option ℕ := entered.head?.bind Prod.snd

section Engine

variable {ν : Type} [DecidableEq ν] (F : Facts ν) (fails : ℕ → Option Failure)

/-- A call that may fail; then it has done nothing. -/
def engineCall {α : Type} (f : Env → Except NapiStatus α × Env) : Fallible NapiStatus Env α :=
  fun env =>
    match fails env.calls with
    | some failure => (.error failure.status, { env with calls := env.calls + 1 })
    | none => f { env with calls := env.calls + 1 }

def napiTypeof (value : ν) : Fallible NapiStatus Env ValueType :=
  engineCall fails fun env => (.ok (F.typeOf value), env)

def napiGetGlobal : Fallible NapiStatus Env ν :=
  engineCall fails fun env => (.ok (F.globalOf (currentOf env.entered)), env)

def napiStrictEquals (lhs rhs : ν) : Fallible NapiStatus Env Bool :=
  engineCall fails fun env => (.ok (decide (lhs = rhs)), env)

def unofficialNapiGetRealm (value : ν) : Fallible NapiStatus Env (Option ℕ) :=
  engineCall fails fun env =>
    (if F.typeOf value = .object ∨ F.typeOf value = .function then .ok (F.realmOf value)
      else .error .objectExpected, env)

def unofficialNapiEnterRealm (realmOrNull : Option ℕ) : Fallible NapiStatus Env ℕ :=
  engineCall fails fun env =>
    (.ok (env.lastScope + 1), { env with
      entered := (env.lastScope + 1, realmOrNull) :: env.entered
      lastScope := env.lastScope + 1 })

/-- Only the innermost scope can be left, and no callback's. -/
def unofficialNapiLeaveRealm (scope : ℕ) : Fallible NapiStatus Env Unit := fun env =>
  if scope ≠ 0 ∧ env.entered.head?.map Prod.fst = some scope then
    (.ok (), { env with entered := env.entered.tail })
  else (.error .invalidArg, env)

def napiOpenHandleScope : Fallible NapiStatus Env ℕ :=
  engineCall fails fun env => (.ok (F.scopeFor env.calls), env)

end Engine

/-- An env with the values a layer holds. -/
structure State (σ : Type) where
  env : Env
  values : σ

def engine {σ α : Type} (x : Fallible NapiStatus Env α) : Fallible NapiStatus (State σ) α :=
  fun s => ((x s.env).1, { s with env := (x s.env).2 })

/-! ## Native code -/

namespace Cc

/-- The handle scopes, innermost first, each with the values made in it. -/
abbrev Handles (ν : Type) : Type := List (List ν)

/-- A `napi_value`: NULL, one that is live no more, or a live one. -/
inductive NapiValue (ν : Type)
  | null
  | dead
  | live (value : ν)

section

variable {ν : Type} [DecidableEq ν] (F : Facts ν) (fails : ℕ → Option Failure)

def openHandleScope : Fallible NapiStatus (State (Handles ν)) ℕ := do
  let _ ← engine (napiOpenHandleScope F fails)
  fun t => (.ok (t.values.length + 1), { t with values := [] :: t.values })

def closeHandleScope (scope : ℕ) : Fallible NapiStatus (State (Handles ν)) Unit := fun t =>
  if t.values.length = scope then (.ok (), { t with values := t.values.tail })
  else (.error .handleScopeMismatch, t)

/-- A value made lives in the innermost scope. -/
def wrapValue (value : ν) : Handles ν → Handles ν
  | [] => []
  | frame :: frames => (value :: frame) :: frames

def getGlobal : Fallible NapiStatus (State (Handles ν)) ν := do
  let global ← engine (napiGetGlobal F fails)
  Fallible.modify fun t => { t with values := wrapValue global t.values }
  pure global

def typeof : NapiValue ν → Fallible NapiStatus (State (Handles ν)) ValueType
  | .live value => engine (napiTypeof F fails value)
  | _ => fail .invalidArg

def getRealm : NapiValue ν → Fallible NapiStatus (State (Handles ν)) (Option ℕ)
  | .live value => engine (unofficialNapiGetRealm F fails value)
  | _ => fail .invalidArg

def strictEquals : NapiValue ν → ν → Fallible NapiStatus (State (Handles ν)) Bool
  | .live value, global => engine (napiStrictEquals fails value global)
  | _, _ => fail .invalidArg

/-- Whether the value is nullish, and the type it has. -/
def isNullish : NapiValue ν → Fallible NapiStatus (State (Handles ν)) (Bool × ValueType)
  | .null => pure (true, .undefined)
  | value => do
    let type ← attempt (typeof F fails value)
    match type with
    | .error _ => pure (false, .undefined)
    | .ok type => pure (decide (type = .undefined ∨ type = .null), type)

def inLookupScope {α : Type} (lookup : Fallible NapiStatus (State (Handles ν)) α) :
    Fallible NapiStatus (State (Handles ν)) α :=
  bracket (openHandleScope F fails) closeHandleScope fun _ => lookup

/-- The env's own global, whichever realm is current. -/
def envGlobal : Fallible NapiStatus (State (Handles ν)) ν :=
  bracket (engine (unofficialNapiEnterRealm fails none))
    (fun scope => engine (unofficialNapiLeaveRealm scope)) fun _ => getGlobal F fails

def isEnvGlobal (value : NapiValue ν) : Fallible NapiStatus (State (Handles ν)) Bool := do
  let global ← envGlobal F fails
  strictEquals fails value global

def findCurrentRealm : Fallible NapiStatus (State (Handles ν)) (Option ℕ) := do
  let global ← getGlobal F fails
  let realm ← getRealm F fails (.live global)
  if realm = none then pure none
  else
    let envOwn ← isEnvGlobal F fails (.live global)
    pure (if envOwn then none else realm)

def currentRealm : Fallible NapiStatus (State (Handles ν)) (Option ℕ) :=
  inLookupScope F fails (findCurrentRealm F fails)

def realmFromContext (context : NapiValue ν) (nullishIsCurrent : Bool) :
    Fallible NapiStatus (State (Handles ν)) (Option ℕ) := do
  let nullish ← isNullish F fails context
  if nullish.1 then
    if nullishIsCurrent then currentRealm F fails else pure none
  else if nullish.2 ≠ .object ∧ nullish.2 ≠ .function then fail .invalidArg
  else
    let realm ← attempt (getRealm F fails context)
    match realm with
    | .error _ => fail .invalidArg
    | .ok (some realm) => pure (some realm)
    | .ok none =>
      let envOwn ← inLookupScope F fails (isEnvGlobal F fails context)
      if envOwn then pure none else fail .invalidArg

structure BytecodeOpenOptions where
  size : ℕ
  version : ℕ
  realmOrNull : Option ℕ

def bytecodeOpenOptionsV1Size : ℕ := 80
def bytecodeOpenOptionsSize : ℕ := 88

def bytecodeOpenRealm (options : Option BytecodeOpenOptions) :
    Fallible NapiStatus (State (Handles ν)) (Option ℕ) :=
  match options with
  | none => fail .invalidArg
  | some options =>
    if options.version = 1 then
      if options.size < bytecodeOpenOptionsV1Size then fail .invalidArg else currentRealm F fails
    else if options.version ≠ 2 ∨ options.size < bytecodeOpenOptionsSize then fail .invalidArg
    else pure options.realmOrNull

structure ModuleCreateOptions (ν : Type) where
  size : ℕ
  version : ℕ
  contextOrUndefined : NapiValue ν
  realmOrNull : Option ℕ

def moduleCreateOptionsV1Size : ℕ := 64
def moduleCreateOptionsSize : ℕ := 72

def moduleCreateRealm (options : Option (ModuleCreateOptions ν)) :
    Fallible NapiStatus (State (Handles ν)) (Option ℕ) :=
  match options with
  | none => fail .invalidArg
  | some options =>
    let v1 := options.version = 1
    if if v1 then options.size < moduleCreateOptionsV1Size
        else options.version ≠ 2 ∨ options.size < moduleCreateOptionsSize then fail .invalidArg
    else if ¬ v1 ∧ options.realmOrNull ≠ none then do
      let nullish ← isNullish F fails options.contextOrUndefined
      if !nullish.1 then fail .invalidArg else pure options.realmOrNull
    else realmFromContext F fails options.contextOrUndefined (decide v1)

end

end Cc

/-! ## The guest's -/

namespace Rs

variable {σ ν : Type} [DecidableEq ν] (T : Scoped.Table σ ν) (F : Facts ν)
  (fails : ℕ → Option Failure)

/-- `LoadValue`, for the calls that need the value. -/
def load (id : ℕ) : Fallible NapiStatus (State σ) ν := fun s =>
  (match T.load s.values id with
    | some value => .ok value
    | none => .error .invalidArg, s)

def snapiBridgeTypeof (value : ℕ) : Fallible NapiStatus (State σ) ValueType := do
  let value ← load T value
  engine (napiTypeof F fails value)

def snapiBridgeGetGlobal : Fallible NapiStatus (State σ) ℕ := do
  let global ← engine (napiGetGlobal F fails)
  fun s => (.ok (T.store s.values global).1, { s with values := (T.store s.values global).2 })

def snapiBridgeStrictEquals (a b : ℕ) : Fallible NapiStatus (State σ) Bool := do
  let lhs ← load T a
  let rhs ← load T b
  engine (napiStrictEquals fails lhs rhs)

/-- A realm is named by the id of its global or sandbox. -/
def snapiBridgeUnofficialGetRealm (value : ℕ) : Fallible NapiStatus (State σ) ℕ := do
  let global ← load T value
  let realm ← engine (unofficialNapiGetRealm F fails global)
  pure (if realm ≠ none then value else 0)

/-- `snapi_bridge_unofficial_enter_realm` of the realm 0, the env's own. -/
def snapiBridgeUnofficialEnterEnvRealm : Fallible NapiStatus (State σ) ℕ :=
  engine (unofficialNapiEnterRealm fails none)

def snapiBridgeUnofficialLeaveRealm (scope : ℕ) : Fallible NapiStatus (State σ) Unit :=
  engine (unofficialNapiLeaveRealm scope)

def snapiBridgeOpenHandleScope : Fallible NapiStatus (State σ) ℕ := do
  let scope ← engine (napiOpenHandleScope F fails)
  fun s => (.ok (T.openScope s.values scope).1, { s with values := (T.openScope s.values scope).2 })

def snapiBridgeCloseHandleScope (scope : ℕ) : Fallible NapiStatus (State σ) Unit := fun s =>
  (if (T.closeScope s.values scope).1 then .ok () else .error .invalidArg,
    { s with values := (T.closeScope s.values scope).2 })

/-- The type of `value`, or `none` when it is NULL or not a live value. -/
def typeOf (value : ℕ) : Fallible NapiStatus (State σ) (Option ValueType) :=
  if value = 0 then pure none
  else do
    let type ← attempt (snapiBridgeTypeof T F fails value)
    match type with
    | .error _ => pure none
    | .ok type => pure (some type)

def isNullish (value : ℕ) : Fallible NapiStatus (State σ) Bool :=
  if value = 0 then pure true
  else do
    let type ← typeOf T F fails value
    pure (decide (type = some .undefined ∨ type = some .null))

/-- The env's own global, whichever realm is current. -/
def envGlobal : Fallible NapiStatus (State σ) ℕ :=
  bracket (snapiBridgeUnofficialEnterEnvRealm fails) snapiBridgeUnofficialLeaveRealm
    fun _ => snapiBridgeGetGlobal T F fails

def isEnvGlobal (value : ℕ) : Fallible NapiStatus (State σ) Bool := do
  let global ← envGlobal T F fails
  snapiBridgeStrictEquals T fails value global

/-- The id of the realm `value` is the global or sandbox of, 0 if none. -/
def realmOf (value : ℕ) : Fallible NapiStatus (State σ) ℕ :=
  snapiBridgeUnofficialGetRealm T F fails value

def inLookupScope {α : Type} (lookup : Fallible NapiStatus (State σ) α) :
    Fallible NapiStatus (State σ) α :=
  bracket (snapiBridgeOpenHandleScope T F fails) (snapiBridgeCloseHandleScope T) fun _ => lookup

/-- Whether a realm other than the env's own is current. -/
def otherRealm : Fallible NapiStatus (State σ) Bool := do
  let global ← snapiBridgeGetGlobal T F fails
  let realm ← realmOf T F fails global
  if realm = 0 then pure false
  else
    let envOwn ← isEnvGlobal T F fails global
    pure !envOwn

/-- The id that names the realm is made again outside the lookup's scope, where it outlives it. -/
def currentRealm : Fallible NapiStatus (State σ) ℕ := do
  let other ← inLookupScope T F fails (otherRealm T F fails)
  if !other then pure 0 else snapiBridgeGetGlobal T F fails

def realmFromContext (context : ℕ) (nullishIsCurrent : Bool) :
    Fallible NapiStatus (State σ) ℕ := do
  let type ← typeOf T F fails context
  if (type = none ∧ context = 0) ∨ type = some .undefined ∨ type = some .null then
    if nullishIsCurrent then currentRealm T F fails else pure 0
  else if type = some .object ∨ type = some .function then
    let realm ← attempt (realmOf T F fails context)
    match realm with
    | .error _ => fail .invalidArg
    | .ok realm =>
      if realm ≠ 0 then pure realm
      else
        let envOwn ← inLookupScope T F fails (isEnvGlobal T F fails context)
        if envOwn then pure realm else fail .invalidArg
  else fail .invalidArg

def bytecodeOpenRealm (version realmOrNull : ℕ) : Fallible NapiStatus (State σ) ℕ :=
  if version = 1 then currentRealm T F fails else pure realmOrNull

def moduleCreateRealm (version contextOrUndefined realmOrNull : ℕ) :
    Fallible NapiStatus (State σ) ℕ :=
  if 2 ≤ version ∧ realmOrNull ≠ 0 then do
    let nullish ← isNullish T F fails contextOrUndefined
    if !nullish then fail .invalidArg else pure realmOrNull
  else realmFromContext T F fails contextOrUndefined (decide (version = 1))

end Rs

end WasmerNapi.Guest.Compat
