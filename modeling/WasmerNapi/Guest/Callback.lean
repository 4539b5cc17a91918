import WasmerNapi.Lib.Run

/-!
# Guest callbacks of the native backend

`src/src/guest/callback.rs` and `with_cb_context` of `src/src/guest/napi.rs`, with what
`napi_bridge_init.cc` does before it calls the trampolines, on one thread. A guest's code calls
imports; the engine, inside one, may call guest code again. `stack` holds what is running,
innermost first, an import and a guest function in turn.

A trap cannot pass the engine's frames. The exit of a guest function is put into
`pendingGuestExit` instead, and an import that is run by `with_cb_context` takes it out when the
engine is done. What the guest and the engine do next is the label of a step.
-/

namespace WasmerNapi.Guest.Callback

abbrev ExitCode : Type := ℕ

def maxCallbackDepth : ℕ := 256

/-- `generic_wasm_callback`, `GuestFinalizerTrampoline` and `WasmInterruptCallback`. -/
inductive Caller
  | callback
  | finalizer
  | interrupt
  deriving DecidableEq

/-- `SnapiAgentState`, as far as guest calls go. An agent has one env. -/
structure Agent where
  activeCallbackCtx : Option ℕ := none
  guestCalls : ℕ := 0
  closing : Bool := false

/-- An import that is running. `seen`, `depth` and `active` are for the statements: the number of
    exits so far, the callback depth and the active contexts when it was called. -/
structure Import where
  /-- It is run by `with_cb_context`. -/
  cbContext : Bool
  /-- `with_callback_state` has parked the store. -/
  lends : Bool := false
  /-- The env whose agent got a context, and the context it had before. -/
  installed : Option (ℕ × Option ℕ) := none
  releases : Option ℕ := none
  seen : ℕ
  depth : ℕ
  active : ℕ → Option (Option ℕ)

inductive Frame
  | bridge (i : Import)
  | guest (env : ℕ)

/-- What an import has returned: the exit it raised, if it did; the exits during it; the callback
    depth and the active contexts before and after it; and what is pending when it is the
    outermost one. -/
structure Return where
  cbContext : Bool
  raised : Option ExitCode
  exits : List ExitCode
  depth : ℕ × ℕ
  active : (ℕ → Option (Option ℕ)) × (ℕ → Option (Option ℕ))
  outermost : Bool
  pending : Option ExitCode

inductive Event
  | started (env : ℕ)
  | exited (code : ExitCode)
  | returned (r : Return)

/-- `NapiEnv` and the thread's own state. An agent goes by the id of its env; `log`, with the last
    event first, is for the statements. -/
structure State where
  pendingGuestExit : Option ExitCode := none
  /-- `Store::with_current` finds the store. -/
  lent : Bool := false
  callbackDepth : ℕ := 0
  napiEnvs : List ℕ := []
  napiScopes : List ℕ := []
  nextNativeId : ℕ := 0
  agents : ℕ → Option Agent := fun _ => none
  nextCtx : ℕ := 1
  stack : List Frame := []
  log : List Event := []

/-- The codes guest functions have exited with, the last one first. -/
def exits : List Event → List ExitCode
  | [] => []
  | .exited code :: log => code :: exits log
  | .started _ :: log => exits log
  | .returned _ :: log => exits log

def guestFrames : List Frame → ℕ
  | [] => 0
  | .guest _ :: stack => guestFrames stack + 1
  | .bridge _ :: stack => guestFrames stack

namespace State

/-- The contexts of the agents there are. -/
def activeContexts (s : State) : ℕ → Option (Option ℕ) := fun env =>
  (s.agents env).map Agent.activeCallbackCtx

/-- `snapi_bridge_swap_active_callback_ctx`: nothing, for an env that is not there. -/
def swapActiveCallbackCtx (s : State) (env : ℕ) (ctx : Option ℕ) : State :=
  match s.agents env with
  | none => s
  | some agent =>
    { s with agents := Function.update s.agents env (some { agent with activeCallbackCtx := ctx }) }

/-- An import is called. -/
def importFrame (s : State) (cbContext : Bool) : Import where
  cbContext
  seen := (exits s.log).length
  depth := s.callbackDepth
  active := s.activeContexts

def enterPlain (s : State) : State :=
  { s with stack := .bridge (s.importFrame false) :: s.stack }

/-- `with_cb_context` up to the bridge call, with `with_callback_state`: without an env there is
    no context and the store is not lent. -/
def enterCbContext (s : State) (guestEnv : ℕ) (releases : Option ℕ) : State :=
  if guestEnv ∈ s.napiEnvs then
    let frame := { s.importFrame true with
      lends := true
      installed := (s.agents guestEnv).map fun agent => (guestEnv, agent.activeCallbackCtx)
      releases }
    { s.swapActiveCallbackCtx guestEnv (some s.nextCtx) with
      nextCtx := s.nextCtx + 1
      lent := true
      stack := .bridge frame :: s.stack }
  else { s with stack := .bridge { s.importFrame true with releases } :: s.stack }

/-- `snapi_bridge_unofficial_env_release_refused`, of an env this store knows. -/
def releaseRefused (s : State) (env : ℕ) : Bool :=
  match s.agents env with
  | none => true
  | some agent => agent.closing || agent.guestCalls != 0

/-- `guest_unofficial_napi_release_env` up to the engine's part of the release. -/
def enterRelease (s : State) (scope : ℕ) : State :=
  if scope ∈ s.napiScopes then
    if scope ∈ s.napiEnvs then
      if s.releaseRefused scope then s.enterPlain
      else
        let s := { s with napiScopes := s.napiScopes.erase scope }.enterCbContext scope (some scope)
        { s with
          agents := Function.update s.agents scope
            ((s.agents scope).map fun agent => { agent with closing := true }) }
    else { s with napiScopes := s.napiScopes.erase scope }.enterPlain
  else s.enterPlain

/-- A guest function has ended: the trampoline stashes its exit. -/
def endGuest (s : State) (env : ℕ) (stack : List Frame) (exit : Option ExitCode) : State :=
  let s := { s with
    stack
    lent := true
    callbackDepth := s.callbackDepth - 1
    agents := Function.update s.agents env
      ((s.agents env).map fun agent => { agent with guestCalls := agent.guestCalls - 1 }) }
  match exit with
  | none => s
  | some code => { s with pendingGuestExit := some code, log := .exited code :: s.log }

/-- The end of `DisposeBridgeState`, and `finish_unregister_napi_env`. -/
def finishRelease (s : State) : Option ℕ → State
  | none => s
  | some env => { s with
      agents := Function.update s.agents env none
      napiEnvs := s.napiEnvs.erase env }

/-- `CallbackStateGuard` is dropped. -/
def dropGuard (s : State) : Option (ℕ × Option ℕ) → State
  | none => s
  | some (env, prev) => s.swapActiveCallbackCtx env prev

/-- The end of an import up to the exit it raises: the rest of the release, the store and the
    context given back, the pending exit taken. -/
def leaveImport (s : State) (frame : Import) (stack : List Frame) : State :=
  { (s.finishRelease frame.releases).dropGuard frame.installed with
    stack
    lent := if frame.lends then false else s.lent
    pendingGuestExit := if frame.cbContext then none else s.pendingGuestExit }

/-- An import returns; the exit it raises ends the guest function that has called it, too. -/
def finish (s : State) (frame : Import) (stack : List Frame) : State :=
  let raised := if frame.cbContext then s.pendingGuestExit else none
  let left := s.leaveImport frame stack
  let r : Return := {
    cbContext := frame.cbContext
    raised
    exits := (exits s.log).take ((exits s.log).length - frame.seen)
    depth := (frame.depth, left.callbackDepth)
    active := (frame.active, left.activeContexts)
    outermost := stack.isEmpty
    pending := left.pendingGuestExit }
  let left := { left with log := .returned r :: left.log }
  match raised, stack with
  | some code, .guest env :: stack => left.endGuest env stack (some code)
  | _, _ => left

end State

/-- How a guest function ends by itself. -/
inductive GuestEnd
  | returned
  | trapped
  | exited (code : ExitCode)

def GuestEnd.exit : GuestEnd → Option ExitCode
  | .exited code => some code
  | _ => none

/-- The engine's call into the guest: `stopRequested` as the agent has it, whether the callback is
    registered, and whether the guest's table has the function. -/
structure Dispatch where
  caller : Caller
  env : ℕ
  stopRequested : Bool
  registered : Bool
  function : Bool

inductive Action
  | callCbContext (guestEnv : ℕ)
  | callPlain
  | callRelease (scope : ℕ)
  | createEnv (id : ℕ)
  | dispatch (d : Dispatch)
  | guestEnds (how : GuestEnd)
  | finish

/-- The bridge's checks: `GuestCallScope`, the active context and the callback's registration.
    An interrupt does not reach an agent that is being released. -/
def Agent.admitsCall (agent : Agent) (d : Dispatch) : Bool :=
  !(agent.closing && (d.stopRequested || d.caller == .interrupt)) &&
    agent.activeCallbackCtx.isSome && (d.caller != .callback || d.registered)

/-- Whether a dispatch gets to the guest function: `LookupEnvState`, the bridge's checks, and
    those of `snapi_host_invoke_wasm_callback`. -/
def starts (s : State) (d : Dispatch) : Bool :=
  match s.agents d.env with
  | none => false
  | some agent =>
    agent.admitsCall d && s.lent && decide (s.callbackDepth < maxCallbackDepth) && d.function

/-- The guest function runs, with the store taken from the import that lent it. -/
def startGuest (s : State) (env : ℕ) : State :=
  { s with
    lent := false
    callbackDepth := s.callbackDepth + 1
    agents := Function.update s.agents env
      ((s.agents env).map fun agent => { agent with guestCalls := agent.guestCalls + 1 })
    stack := .guest env :: s.stack
    log := .started env :: s.log }

/-- Guest code is running. -/
def atGuest : List Frame → Bool
  | .bridge _ :: _ => false
  | _ => true

def step (s : State) : Action → Option State
  | .callCbContext guestEnv => if atGuest s.stack then some (s.enterCbContext guestEnv none) else none
  | .callPlain => if atGuest s.stack then some s.enterPlain else none
  | .callRelease scope => if atGuest s.stack then some (s.enterRelease scope) else none
  | .createEnv id =>
    -- Ids are the application's; another store may have taken some.
    match s.stack with
    | .bridge frame :: _ =>
      if frame.cbContext = false ∧ s.nextNativeId < id ∧ id < 2 ^ 32 then
        some { s with
          nextNativeId := id
          napiEnvs := id :: s.napiEnvs
          napiScopes := id :: s.napiScopes
          agents := Function.update s.agents id (some {}) }
      else none
    | _ => none
  | .dispatch d =>
    match s.stack with
    | .bridge _ :: _ => some (if starts s d then startGuest s d.env else s)
    | _ => none
  | .guestEnds how =>
    match s.stack with
    | .guest env :: stack => some (s.endGuest env stack how.exit)
    | _ => none
  | .finish =>
    match s.stack with
    | .bridge frame :: stack => some (s.finish frame stack)
    | _ => none

end WasmerNapi.Guest.Callback
