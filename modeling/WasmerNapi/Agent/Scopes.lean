import WasmerNapi.Agent.Values
import WasmerNapi.Lib.Run

/-!
# Scopes and guest calls

The operations of an agent, one step each. A guest works inside a stack of *frames*: it
opens and closes scopes by id, in any order it likes, and the bridge pushes a frame of its
own — with id `0`, which no guest can name — around every guest call it makes, and takes it
off again with whatever the guest has left open above it. Guest calls nest; `leave` always
ends the innermost one, as the host's stack has it.

The engine decides whether a scope opens, and which pointer it gets; all that is asked of
it is that the pointer is not the one of a scope still open. `run_sound` is what holds of
the value table in every state of every run.
-/

namespace WasmerNapi.Agent

open Word Run Bridge

/-- `id = next++; if (id == 0) id = next++`. -/
def freshId (next : ℕ) : ℕ × ℕ :=
  if next = 0 then (wrappingAdd 32 next 1, wrappingAdd 32 (wrappingAdd 32 next 1) 1)
  else (next, wrappingAdd 32 next 1)

namespace State

variable {ν : Type}

/-- `snapi_bridge_open_handle_scope` and `snapi_bridge_open_escapable_handle_scope`. -/
def openHandleScope (a : State ν) (escapable : Bool) (engine : Except NapiStatus ℕ) :
    (NapiStatus × ℕ) × State ν :=
  match engine with
  | .error status => ((status, 0), a)
  | .ok scope =>
    let (id, next) := freshId a.nextScopeId
    let a := (a.openNapiScope scope).pushScopeFrame
      (if escapable then none else some scope) (if escapable then some scope else none) id
    ((.ok, id), { a with nextScopeId := next })

/-- `FindFrameById`, counting from the innermost frame. -/
def findFrameById (a : State ν) (scopeId : ℕ) : Option ℕ :=
  if scopeId = 0 then none else a.scopeFrames.findIdx? fun f => f.id == scopeId

/-- `snapi_bridge_close_handle_scope` and `snapi_bridge_close_escapable_handle_scope`. -/
def closeHandleScope (a : State ν) (escapable : Bool) (scopeId : ℕ) : NapiStatus × State ν :=
  match a.findFrameById scopeId with
  | none => (.invalidArg, a)
  | some k =>
    match a.scopeFrames[k]? with
    | none => (.invalidArg, a)
    | some frame =>
      if (if escapable then frame.escScope else frame.scope) = none then (.invalidArg, a)
      else if k ≠ 0 then (.handleScopeMismatch, a)
      else (.ok, a.popCurrentFrame)

/-- The checks of `snapi_bridge_escape_handle`: the frame, which has a parent to own the
    escaped value, its scope, and the value to escape. -/
def escapeFrame (a : State ν) (scopeId escapeeId : ℕ) : Option (ℕ × ℕ × ν) :=
  (a.findFrameById scopeId).bind fun k =>
    a.scopeFrames[k]?.bind fun frame =>
      frame.escScope.bind fun scope =>
        if k + 1 = a.scopeFrames.length then none
        else (a.loadValue escapeeId).map fun escapee => (k, scope, escapee)

/-- `snapi_bridge_escape_handle`. -/
def escapeHandle (a : State ν) (scopeId escapeeId : ℕ) (engine : Except NapiStatus (Option ν)) :
    (NapiStatus × ℕ) × State ν :=
  match a.escapeFrame scopeId escapeeId with
  | none => ((.invalidArg, 0), a)
  | some (k, scope, escapee) =>
    match engine with
    | .error status => ((status, 0), a)
    | .ok result =>
      let (id, a) := (a.logged (.escaped scope escapee)).storeValueInFrame result (k + 1)
      ((.ok, id), a)

/-- `while (cond) PopCurrentFrame`; every round takes a frame off, so `n` frames bound it. -/
def popWhile (cond : List (ScopeFrame ν) → Bool) : ℕ → State ν → State ν
  | 0, a => a
  | n + 1, a => if cond a.scopeFrames then popWhile cond n a.popCurrentFrame else a

/-- Whether `frames.back()` is like `p`. -/
def top (p : ScopeFrame ν → Bool) (frames : List (ScopeFrame ν)) : Bool :=
  (frames.head?.map p).getD false

/-- Guest code is called, with `scope` around it. -/
def enter (a : State ν) (caller : Caller) (engine : Option ℕ) : State ν :=
  { a with calls := ⟨caller, engine, a.currentFrame.scopeFrames.length⟩ :: a.calls }

/-- The guest call that `generic_wasm_callback` starts, from `RegisterCallbackInvocation`
    on. -/
def enterCallback (a : State ν) (info : ℕ) (engine : Option ℕ) : State ν :=
  let (cbinfo, next) := freshId a.nextCallbackInvocationId
  let a :=
    { a with
      callbackInvocations := (cbinfo, info) :: a.callbackInvocations
      nextCallbackInvocationId := next }.enter (.callback cbinfo) engine
  match engine with
  | none => a
  | some scope => (a.openNapiScope scope).pushScopeFrame none (some scope) 0

/-- The guest call of `GuestFinalizerTrampoline`, or of `WasmInterruptCallback`. -/
def enterPlain (a : State ν) (caller : Caller) (engine : Option ℕ) : State ν :=
  let a := a.enter caller engine
  match engine with
  | none => a
  | some scope => (a.openNapiScope scope).pushScopeFrame (some scope) none 0

/-- `generic_wasm_callback` after the guest has returned `resultId`. -/
def leaveCallback (a : State ν) (cbinfo : ℕ) (scope : Option ℕ) (resultId : ℕ) : State ν :=
  let a := { a with callbackInvocations := a.callbackInvocations.eraseP fun i => i.1 == cbinfo }
  match scope with
  | none => a
  | some scope =>
    if a.scopeFrames.any fun f => f.escScope == some scope then
      let a :=
        match a.loadValue resultId with
        | none => a
        | some result => a.logged (.escaped scope result)
      (a.popWhile (top fun f => f.escScope != some scope) a.scopeFrames.length).popCurrentFrame
    else a

/-- The other two after the guest has returned. -/
def leavePlain (a : State ν) (scope : Option ℕ) : State ν :=
  match scope with
  | none => a
  | some scope =>
    let a := a.popWhile
      (fun frames => 1 < frames.length && top (fun f => f.scope != some scope) frames)
      a.scopeFrames.length
    if top (fun f => f.scope == some scope) a.scopeFrames then a.popCurrentFrame else a

/-- `DisposeBridgeState` up to the release of the env, which may run guest finalizers. -/
def dispose (a : State ν) : State ν :=
  let a := ({ a with closing := true } : State ν)
  let a := a.popWhile (fun frames => !frames.isEmpty) a.scopeFrames.length
  { a with
    valueSlots := []
    valueFreeSlots := []
    liveValueCount := 0
    nextScopeId := 1
    callbackInvocations := []
    nextCallbackInvocationId := 1 }

end State

/-- An operation, with what the engine answers. A mint is a `StoreValue` of any entry. -/
inductive Op (ν : Type) where
  | mint (val : Option ν)
  | openScope (escapable : Bool) (engine : Except NapiStatus ℕ)
  | closeScope (escapable : Bool) (scopeId : ℕ)
  | escape (scopeId escapeeId : ℕ) (engine : Except NapiStatus (Option ν))
  | enterCallback (info : ℕ) (engine : Option ℕ)
  | enterFinalizer (engine : Option ℕ)
  | enterInterrupt (engine : Option ℕ)
  | leave (resultId : ℕ)
  | dispose

section

variable {ν : Type}

/-- The engine's part of the bargain: a new scope is not one that is still open. -/
def NewScope (a : State ν) (engine : Option ℕ) : Prop := ∀ scope ∈ engine, scope ∉ a.openScopes

instance (a : State ν) (engine : Option ℕ) : Decidable (NewScope a engine) :=
  inferInstanceAs (Decidable (∀ scope ∈ engine, scope ∉ a.openScopes))

def step (a : State ν) : Op ν → Option (State ν)
  | .mint val => some (a.storeValue val).2
  | .openScope escapable engine =>
    if NewScope a engine.toOption then some (a.openHandleScope escapable engine).2 else none
  | .closeScope escapable scopeId => some (a.closeHandleScope escapable scopeId).2
  | .escape scopeId escapeeId engine => some (a.escapeHandle scopeId escapeeId engine).2
  | .enterCallback info engine =>
    if NewScope a engine then some (a.enterCallback info engine) else none
  | .enterFinalizer engine =>
    if NewScope a engine then some (a.enterPlain .finalizer engine) else none
  | .enterInterrupt engine =>
    -- Not while the agent is closing.
    if !a.closing ∧ NewScope a engine then some (a.enterPlain .interrupt engine) else none
  | .leave resultId =>
    match a.calls with
    | [] => none
    | call :: calls =>
      let a := { a with calls }
      match call.caller with
      | .callback cbinfo => some (a.leaveCallback cbinfo call.scope resultId)
      | .finalizer => some (a.leavePlain call.scope)
      | .interrupt => some (a.leavePlain call.scope)
  | .dispose =>
    -- Refused while a guest call is running, and the second time.
    if a.calls ≠ [] ∨ a.closing then some a else some a.dispose

/-! ## What a step does to the table

Pops, pushes and mints, and changes elsewhere. `step_rule` takes every operation apart
into these once, and the invariants of the table cite it. -/

variable {a a' : State ν} {op : Op ν}

/-- The same slots, frames and buffers. -/
structure SameTable (a b : State ν) : Prop where
  slots : b.valueSlots = a.valueSlots
  free : b.valueFreeSlots = a.valueFreeSlots
  live : b.liveValueCount = a.liveValueCount
  frames : b.scopeFrames = a.scopeFrames
  spare : b.spareOwnedSlots = a.spareOwnedSlots
  limit : b.valueLimit = a.valueLimit
  retired : b.retired = a.retired

/-- The mint in an operation: the state it is made in, the frame and the value. -/
inductive Mints (a : State ν) : Op ν → State ν → ℕ → ν → Prop
  | mint (v : ν) : Mints a (.mint (some v)) a.currentFrame 0 v
  | escape {scopeId escapeeId k scope : ℕ} {escapee : ν} (v : ν)
      (frame : a.escapeFrame scopeId escapeeId = some (k, scope, escapee)) :
      Mints a (.escape scopeId escapeeId (.ok (some v))) (a.logged (.escaped scope escapee)) (k + 1) v

/-- A close that is accepted pops the innermost frame. -/
theorem closeHandleScope_cases (a : State ν) (escapable : Bool) (scopeId : ℕ) :
    (∃ status, a.closeHandleScope escapable scopeId = (status, a)) ∨
      ∃ frame frames, a.scopeFrames = frame :: frames ∧ frame.id = scopeId ∧ scopeId ≠ 0 ∧
        a.closeHandleScope escapable scopeId = (.ok, a.popCurrentFrame) := by
  unfold State.closeHandleScope State.findFrameById
  by_cases h0 : scopeId = 0
  · rw [if_pos h0]
    exact Or.inl ⟨_, rfl⟩
  · rw [if_neg h0]
    cases hfind : a.scopeFrames.findIdx? fun f => f.id == scopeId with
    | none => exact Or.inl ⟨_, rfl⟩
    | some k =>
      dsimp only
      cases hframe : a.scopeFrames[k]? with
      | none => exact Or.inl ⟨_, rfl⟩
      | some frame =>
        dsimp only
        by_cases hscope : (if escapable then frame.escScope else frame.scope) = none
        · rw [if_pos hscope]
          exact Or.inl ⟨_, rfl⟩
        · rw [if_neg hscope]
          by_cases hk : k ≠ 0
          · rw [if_pos hk]
            exact Or.inl ⟨_, rfl⟩
          · rw [if_neg hk]
            obtain rfl : k = 0 := not_not.mp hk
            obtain ⟨hlt, hid, -⟩ := List.findIdx?_eq_some_iff_getElem.mp hfind
            cases hframes : a.scopeFrames with
            | nil =>
              rw [hframes] at hframe
              cases hframe
            | cons top frames =>
              simp only [hframes, List.getElem_cons_zero, beq_iff_eq] at hid
              exact Or.inr ⟨top, frames, rfl, hid, h0, rfl⟩

/-- The frame an escape finds has a parent. -/
theorem escapeFrame_lt {scopeId escapeeId k scope : ℕ} {escapee : ν}
    (h : a.escapeFrame scopeId escapeeId = some (k, scope, escapee)) :
    k + 1 < a.scopeFrames.length := by
  unfold State.escapeFrame at h
  obtain ⟨k', -, h⟩ := Option.bind_eq_some_iff.mp h
  obtain ⟨frame, hframe, h⟩ := Option.bind_eq_some_iff.mp h
  obtain ⟨scope', -, h⟩ := Option.bind_eq_some_iff.mp h
  split at h
  · cases h
  · rename_i hk
    obtain ⟨escapee', -, heq⟩ := Option.map_eq_some_iff.mp h
    obtain ⟨rfl, -⟩ := Prod.mk.inj heq
    have hlt := (List.getElem?_eq_some_iff.mp hframe).1
    omega

/-- An escape that is accepted mints into the parent of an escapable frame. -/
theorem escapeHandle_cases (a : State ν) (scopeId escapeeId : ℕ)
    (engine : Except NapiStatus (Option ν)) :
    (∃ status, a.escapeHandle scopeId escapeeId engine = ((status, 0), a)) ∨
      ∃ k scope escapee result, a.escapeFrame scopeId escapeeId = some (k, scope, escapee) ∧
        engine = .ok result ∧
        a.escapeHandle scopeId escapeeId engine =
          ((.ok, ((a.logged (.escaped scope escapee)).storeValueInFrame result (k + 1)).1),
            ((a.logged (.escaped scope escapee)).storeValueInFrame result (k + 1)).2) := by
  unfold State.escapeHandle
  split
  · exact Or.inl ⟨_, rfl⟩
  · rename_i k scope escapee hframe
    cases engine with
    | error status => exact Or.inl ⟨_, rfl⟩
    | ok result => exact Or.inr ⟨k, scope, escapee, result, hframe, rfl, rfl⟩

/-- Draining the frames drains them all. -/
theorem scopeFrames_drain (n : ℕ) : ∀ a : State ν, a.scopeFrames.length ≤ n →
    (a.popWhile (fun frames => !frames.isEmpty) n).scopeFrames = [] := by
  induction n with
  | zero =>
    intro a hn
    exact List.length_eq_zero_iff.mp (Nat.le_zero.mp hn)
  | succ n ih =>
    intro a hn
    unfold State.popWhile
    cases hframes : a.scopeFrames with
    | nil =>
      simp only [List.isEmpty_nil, Bool.not_true, Bool.false_eq_true, if_false]
      exact hframes
    | cons frame frames =>
      simp only [List.isEmpty_cons, Bool.not_false, if_true]
      refine ih _ ?_
      rw [scopeFrames_popCurrentFrame, hframes, List.tail_cons]
      rw [hframes] at hn
      exact Nat.le_of_succ_le_succ hn

section Rule

variable {I Mint : State ν → Prop}
  (same : ∀ a b : State ν, SameTable a b → I a → I b)
  (root : ∀ a : State ν, I a → I a.currentFrame)
  (pop : ∀ a : State ν, I a → I a.popCurrentFrame)
  (push : ∀ (a : State ν) (scope escScope : Option ℕ) (id : ℕ), I a →
    I (a.pushScopeFrame scope escScope id))
  (mint : ∀ (a : State ν) (v : ν) (k : ℕ), k < a.scopeFrames.length → Mint a → I a →
    I (a.storeValueInFrame (some v) k).2)
  (clear : ∀ a : State ν, a.scopeFrames = [] → I a →
    I { a with valueSlots := [], valueFreeSlots := [], liveValueCount := 0 })

include pop in
theorem popWhile_rule (cond : List (ScopeFrame ν) → Bool) (n : ℕ) : ∀ {a : State ν}, I a →
    I (a.popWhile cond n) := by
  induction n with
  | zero =>
    intro a h
    exact h
  | succ n ih =>
    intro a h
    unfold State.popWhile
    split
    · exact ih (pop a h)
    · exact h

include pop in
/-- A guest call that ends opens no scope. -/
theorem leave_rule (keep : ∀ a b : State ν, SameTable a b → b.openScopes = a.openScopes → I a → I b)
    {call : Call} {calls : List Call} {resultId : ℕ} (hcalls : a.calls = call :: calls)
    (hs : step a (.leave resultId) = some a') (h : I a) : I a' := by
  have hpopped : I { a with calls } := keep a _ ⟨rfl, rfl, rfl, rfl, rfl, rfl, rfl⟩ rfl h
  have hplain : ∀ scope, I (State.leavePlain { a with calls } scope) := by
    intro scope
    unfold State.leavePlain
    split
    · exact hpopped
    · dsimp only
      split
      · exact pop _ (popWhile_rule pop _ _ hpopped)
      · exact popWhile_rule pop _ _ hpopped
  simp only [step, hcalls] at hs
  cases hcaller : call.caller with
  | callback cbinfo =>
    simp only [hcaller] at hs
    cases hs
    unfold State.leaveCallback
    dsimp only
    split
    · exact keep a _ ⟨rfl, rfl, rfl, rfl, rfl, rfl, rfl⟩ rfl h
    · split
      · refine pop _ (popWhile_rule pop _ _ ?_)
        split
        · exact keep a _ ⟨rfl, rfl, rfl, rfl, rfl, rfl, rfl⟩ rfl h
        · exact keep a _ ⟨rfl, rfl, rfl, rfl, rfl, rfl, rfl⟩ rfl h
      · exact keep a _ ⟨rfl, rfl, rfl, rfl, rfl, rfl, rfl⟩ rfl h
  | finalizer =>
    simp only [hcaller] at hs
    cases hs
    exact hplain call.scope
  | interrupt =>
    simp only [hcaller] at hs
    cases hs
    exact hplain call.scope

include same push in
theorem enter_rule {caller : Caller} {engine : Option ℕ} (h : I a) :
    I (a.enterPlain caller engine) := by
  unfold State.enterPlain
  dsimp only
  split
  · exact same a _ ⟨rfl, rfl, rfl, rfl, rfl, rfl, rfl⟩ h
  · refine push _ _ _ _ (same a _ ?_ h)
    exact ⟨rfl, rfl, rfl, rfl, rfl, rfl, rfl⟩

include same root pop push mint clear in
/-- **One step**: what pops, pushes, mints and the clearing at disposal keep, every
    operation keeps. -/
theorem step_rule (hs : step a op = some a') (hmint : ∀ b k v, Mints a op b k v → Mint b)
    (h : I a) : I a' := by
  cases op with
  | mint val =>
    cases hs
    cases val with
    | none => exact root a h
    | some v => exact mint _ v 0 (currentFrame_ne_nil a) (hmint _ _ _ (.mint v)) (root a h)
  | openScope escapable engine =>
    simp only [step] at hs
    split at hs
    · cases hs
      cases engine with
      | error status => exact h
      | ok scope =>
        have hopen : I (a.openNapiScope scope) := same a _ ⟨rfl, rfl, rfl, rfl, rfl, rfl, rfl⟩ h
        have hpushed := push _ (if escapable then none else some scope)
          (if escapable then some scope else none) (freshId a.nextScopeId).1 hopen
        refine same _ _ ?_ hpushed
        exact ⟨rfl, rfl, rfl, rfl, rfl, rfl, rfl⟩
    · cases hs
  | closeScope escapable scopeId =>
    cases hs
    rcases closeHandleScope_cases a escapable scopeId with
      ⟨status, heq⟩ | ⟨frame, frames, -, -, -, heq⟩
    · rw [heq]
      exact h
    · rw [heq]
      exact pop a h
  | escape scopeId escapeeId engine =>
    cases hs
    rcases escapeHandle_cases a scopeId escapeeId engine with
      ⟨status, heq⟩ | ⟨k, scope, escapee, result, hframe, rfl, heq⟩
    · rw [heq]
      exact h
    · have hlogged : I (a.logged (.escaped scope escapee)) :=
        same a _ ⟨rfl, rfl, rfl, rfl, rfl, rfl, rfl⟩ h
      rw [heq]
      cases result with
      | none => exact hlogged
      | some v => exact mint _ v _ (escapeFrame_lt hframe) (hmint _ _ _ (.escape v hframe)) hlogged
  | enterCallback info engine =>
    simp only [step] at hs
    split at hs
    · cases hs
      unfold State.enterCallback
      dsimp only
      split
      · exact same a _ ⟨rfl, rfl, rfl, rfl, rfl, rfl, rfl⟩ h
      · refine push _ _ _ _ (same a _ ?_ h)
        exact ⟨rfl, rfl, rfl, rfl, rfl, rfl, rfl⟩
    · cases hs
  | enterFinalizer engine =>
    simp only [step] at hs
    split at hs
    · cases hs
      exact enter_rule same push h
    · cases hs
  | enterInterrupt engine =>
    simp only [step] at hs
    split at hs
    · cases hs
      exact enter_rule same push h
    · cases hs
  | leave resultId =>
    cases hcalls : a.calls with
    | nil =>
      simp only [step, hcalls] at hs
      cases hs
    | cons call calls => exact leave_rule pop (fun a b hab _ => same a b hab) hcalls hs h
  | dispose =>
    simp only [step] at hs
    split at hs
    · cases hs
      exact h
    · cases hs
      have hclosing : I { a with closing := true } := same a _ ⟨rfl, rfl, rfl, rfl, rfl, rfl, rfl⟩ h
      have hdrained := popWhile_rule pop (fun frames => !frames.isEmpty) a.scopeFrames.length hclosing
      have hframes := scopeFrames_drain a.scopeFrames.length { a with closing := true } le_rfl
      refine same _ _ ?_ (clear _ hframes hdrained)
      exact ⟨rfl, rfl, rfl, rfl, rfl, rfl, rfl⟩

end Rule

theorem Tabled.same {b : State ν} (hab : SameTable a b) (h : Tabled [] [] a) : Tabled [] [] b :=
  h.congr hab.slots hab.free hab.live hab.frames hab.spare hab.limit

theorem Tabled.clear (hframes : a.scopeFrames = []) (h : Tabled [] [] a) :
    Tabled [] [] { a with valueSlots := [], valueFreeSlots := [], liveValueCount := 0 } where
  slots := by
    rw [hframes]
    exact List.Perm.refl _
  inUse := fun _ _ hs => nomatch hs
  generation := fun _ hs => nomatch hs
  live := by
    rw [hframes]
    rfl
  limit := fun _ => Nat.zero_le _
  size := Nat.zero_le _
  minted := h.minted
  loads := fun f hf => by
    rw [hframes] at hf
    cases hf
  spare := h.spare

theorem tabled_step (hs : step a op = some a') (h : Tabled [] [] a) : Tabled [] [] a' :=
  step_rule (fun _ _ => Tabled.same) (fun _ => Tabled.currentFrame)
    (fun _ => Tabled.popCurrentFrame) (fun _ _ _ _ h => h.pushScopeFrame _ _ _)
    (fun _ v _ hk (_ : True) h => h.storeValueInFrame hk (some v)) (fun _ => Tabled.clear) hs
    (fun _ _ _ _ => trivial) h

/-! ## What it means -/

/-- The value table as a guest may rely on it. -/
structure Sound (a : State ν) : Prop where
  /-- The free stack lists the slots not in use, each once. -/
  freeNodup : a.valueFreeSlots.Nodup
  free : ∀ i, i ∈ a.valueFreeSlots ↔ ∃ slot, a.valueSlots[i]? = some slot ∧ slot.inUse = false
  /-- A slot in use belongs to one open frame, and is listed once. -/
  ownedNodup : (ownedBy a.scopeFrames).Nodup
  owner : ∀ (i : ℕ) (slot : ValueSlot ν), a.valueSlots[i]? = some slot → slot.inUse = true →
    ∃! k : ℕ, ∃ f : ScopeFrame ν, a.scopeFrames[k]? = some f ∧ i ∈ f.ownedSlots.items
  live : a.liveValueCount = a.valueSlots.countP fun slot => slot.inUse
  limit : a.valueLimit ≠ 0 → a.liveValueCount ≤ a.valueLimit
  /-- The ids of the open frames are words other than zero, load their values, and no two
      mints have the same. -/
  ids : ∀ f ∈ a.scopeFrames, ∀ m ∈ f.minted,
    0 < m.1 ∧ m.1 < 2 ^ 32 ∧ a.loadValue m.1 = some m.2
  distinct : ((a.scopeFrames.flatMap fun f => f.minted).map Prod.fst).Nodup
  /-- So does the id of the next mint, into any open frame, if there is one. -/
  mints : ∀ (v : ν) (k : ℕ), k < a.scopeFrames.length →
    (a.storeValueInFrame (some v) k).1 = 0 ∨
      ∃ f, (a.storeValueInFrame (some v) k).2.scopeFrames[k]? = some f ∧
        ((a.storeValueInFrame (some v) k).1, v) ∈ f.minted

/-- A slot's flag, by its number. -/
def inUseAt (slots : List (ValueSlot ν)) (i : ℕ) : Bool :=
  (slots[i]?.map fun slot => slot.inUse).getD false

/-- Counting the slots in use, by number. -/
theorem countP_slots (slots : List (ValueSlot ν)) :
    slots.countP (fun slot => slot.inUse) = (List.range slots.length).countP (inUseAt slots) := by
  induction slots using List.reverseRecOn with
  | nil => rfl
  | append_singleton slots slot ih =>
    rw [List.countP_append, List.length_append, List.length_singleton, List.range_succ,
      List.countP_append, ih]
    congr 1
    · refine List.countP_congr fun i hi => ?_
      unfold inUseAt
      rw [List.getElem?_append_left (List.mem_range.mp hi)]
    · simp [inUseAt]

theorem Tabled.inUseAt (h : Tabled [] [] a) {i : ℕ} (hi : i < a.valueSlots.length) :
    inUseAt a.valueSlots i = true ↔ i ∈ ownedBy a.scopeFrames := by
  have hslot := List.getElem?_eq_getElem hi
  unfold Agent.inUseAt
  rw [hslot]
  exact h.inUse i _ hslot

theorem Tabled.disjoint (h : Tabled [] [] a) {i : ℕ} (hi : i ∈ a.valueFreeSlots) :
    i ∉ ownedBy a.scopeFrames := fun hin =>
  (List.nodup_append.mp h.nodup).2.2 i hi i hin rfl

theorem Tabled.live_eq (h : Tabled [] [] a) :
    a.liveValueCount = a.valueSlots.countP fun slot => slot.inUse := by
  rw [countP_slots, ← h.slots.countP_eq, List.countP_append, h.live]
  have hfree : ([] ++ a.valueFreeSlots).countP (Agent.inUseAt a.valueSlots) = 0 := by
    refine List.countP_eq_zero.mpr fun i hi => ?_
    rw [h.inUseAt (h.lt (List.mem_append_left _ hi))]
    exact h.disjoint hi
  have howned : ([] ++ ownedBy a.scopeFrames).countP (Agent.inUseAt a.valueSlots) =
      ([] ++ ownedBy a.scopeFrames).length := by
    refine List.countP_eq_length.mpr fun i hi => ?_
    exact (h.inUseAt (h.lt (List.mem_append_right _ hi))).mpr hi
  rw [hfree, howned, Nat.zero_add]

theorem Tabled.free_iff (h : Tabled [] [] a) (i : ℕ) :
    i ∈ a.valueFreeSlots ↔ ∃ slot, a.valueSlots[i]? = some slot ∧ slot.inUse = false := by
  constructor
  · intro hi
    obtain ⟨slot, hslot, -⟩ := h.slot (List.mem_append_left _ hi)
    refine ⟨slot, hslot, Bool.eq_false_iff.mpr fun huse => ?_⟩
    exact h.disjoint hi ((h.inUse i slot hslot).mp huse)
  · rintro ⟨slot, hslot, huse⟩
    have hlt := (List.getElem?_eq_some_iff.mp hslot).1
    rcases List.mem_append.mp (h.slots.mem_iff.mpr (List.mem_range.mpr hlt)) with hfree | howned
    · exact hfree
    · rw [(h.inUse i slot hslot).mpr howned] at huse
      cases huse

/-- In lists that share nothing, an element has one place. -/
theorem place_unique {α β : Type} {l : List α} {g : α → List β} (h : (l.flatMap g).Nodup)
    {k k' : ℕ} {f f' : α} {x : β} (hk : l[k]? = some f) (hk' : l[k']? = some f')
    (hx : x ∈ g f) (hx' : x ∈ g f') : k = k' := by
  have hpair := List.pairwise_iff_getElem.mp (List.nodup_flatMap.mp h).2
  obtain ⟨hlt, rfl⟩ := List.getElem?_eq_some_iff.mp hk
  obtain ⟨hlt', rfl⟩ := List.getElem?_eq_some_iff.mp hk'
  rcases Nat.lt_trichotomy k k' with hlt₂ | rfl | hlt₂
  · exact absurd hx' (hpair k k' hlt hlt' hlt₂ hx)
  · rfl
  · exact absurd hx (hpair k' k hlt' hlt hlt₂ hx')

theorem Tabled.ownedNodup (h : Tabled [] [] a) : (ownedBy a.scopeFrames).Nodup :=
  (List.nodup_append.mp h.nodup).2.1

theorem Tabled.owner (h : Tabled [] [] a) {i : ℕ} {slot : ValueSlot ν}
    (hslot : a.valueSlots[i]? = some slot) (huse : slot.inUse = true) :
    ∃! k : ℕ, ∃ f : ScopeFrame ν, a.scopeFrames[k]? = some f ∧ i ∈ f.ownedSlots.items := by
  obtain ⟨f, hf, hi⟩ := mem_ownedBy.mp ((h.inUse i slot hslot).mp huse)
  obtain ⟨k, hk⟩ := List.mem_iff_getElem?.mp hf
  refine ⟨k, ⟨f, hk, hi⟩, ?_⟩
  rintro k' ⟨f', hk', hi'⟩
  exact place_unique h.ownedNodup hk' hk hi' hi

theorem Tabled.distinct (h : Tabled [] [] a) :
    ((a.scopeFrames.flatMap fun f => f.minted).map Prod.fst).Nodup := by
  have hmap : ((a.scopeFrames.flatMap fun f => f.minted).map Prod.fst).map slotOf =
      ownedBy a.scopeFrames := by
    rw [List.map_map, List.map_flatMap, ownedBy]
    refine List.flatMap_congr fun f hf => ?_
    rw [h.minted f hf]
    rfl
  refine List.Nodup.of_map slotOf ?_
  rw [hmap]
  exact h.ownedNodup

/-- A mint into the frame at `k` is one of that frame's. -/
theorem mintAt_minted {b : State ν} {i k : ℕ} {slot : ValueSlot ν} (v : ν)
    (hslot : b.valueSlots[i]? = some slot) (hk : k < b.scopeFrames.length) :
    ∃ f, (b.mintAt v i k).2.scopeFrames[k]? = some f ∧ ((b.mintAt v i k).1, v) ∈ f.minted := by
  unfold State.mintAt
  rw [hslot]
  dsimp only
  rw [List.getElem?_modify, List.getElem?_eq_getElem hk]
  simp only [if_true]
  exact ⟨_, rfl, List.mem_cons_self ..⟩

theorem Tabled.mints (h : Tabled [] [] a) (v : ν) {k : ℕ} (hk : k < a.scopeFrames.length) :
    (a.storeValueInFrame (some v) k).1 = 0 ∨
      ∃ f, (a.storeValueInFrame (some v) k).2.scopeFrames[k]? = some f ∧
        ((a.storeValueInFrame (some v) k).1, v) ∈ f.minted := by
  rcases storeValueInFrame_cases a (some v) k with ⟨heq, -⟩ | ⟨v', index, b, hv, heq, -, hb⟩
  · rw [heq]
    exact Or.inl rfl
  · cases hv
    obtain ⟨slot, hslot, -⟩ := (h.reserve hb).slot (i := index) (List.mem_cons_self ..)
    have hframes : b.scopeFrames = a.scopeFrames := by
      rcases hb with ⟨free, -, rfl⟩ | ⟨-, -, -, rfl⟩
      · rfl
      · rfl
    rw [heq]
    exact Or.inr (mintAt_minted v hslot (by rw [hframes]; exact hk))

theorem Tabled.sound (h : Tabled [] [] a) : Sound a where
  freeNodup := (List.nodup_append.mp h.nodup).1
  free := h.free_iff
  ownedNodup := h.ownedNodup
  owner := fun _ _ hslot huse => h.owner hslot huse
  live := h.live_eq
  limit := h.limit
  ids := fun _ hf _ hm => h.load_minted hf hm
  distinct := h.distinct
  mints := fun v _ hk => h.mints v hk

theorem tabled_init (limit : ℕ) : Tabled [] [] ({ valueLimit := limit } : State ν) where
  slots := List.Perm.refl _
  inUse := fun _ _ hs => nomatch hs
  generation := fun _ hs => nomatch hs
  live := rfl
  limit := fun _ => Nat.zero_le _
  size := Nat.zero_le _
  minted := fun _ hf => nomatch hf
  loads := fun _ hf => nomatch hf
  spare := fun _ hb => nomatch hb

theorem tabled_run {limit : ℕ} {ops : List (Op ν)}
    (hr : run step { valueLimit := limit } ops = some a) : Tabled [] [] a :=
  invariant (fun _ _ _ hs => tabled_step hs) hr (tabled_init limit)

/-- **The value table in every state of every run**, whatever the guest opens, closes,
    escapes and leaves open, and whatever the engine answers. -/
theorem run_sound {limit : ℕ} {ops : List (Op ν)}
    (hr : run step { valueLimit := limit } ops = some a) : Sound a :=
  (tabled_run hr).sound

end

/-- A callback in which the guest leaves an escapable scope open, with a value escaped
    from it. -/
def openCallback : List (Op ℕ) :=
  [.mint (some 5), .enterCallback 3 (some 100), .openScope true (.ok 101), .mint (some 6),
    .escape 1 8192 (.ok (some 6))]

theorem openCallback_sound :
    ∃ a : State ℕ, run step { valueLimit := 4 } openCallback = some a ∧
      a.liveValueCount = 3 ∧ Sound a := by
  obtain ⟨a, ha, hlive⟩ := Option.map_eq_some_iff.mp
    (show (run step { valueLimit := 4 } openCallback).map (fun a : State ℕ => a.liveValueCount) =
      some 3 by decide)
  exact ⟨a, ha, hlive, run_sound ha⟩

end WasmerNapi.Agent
