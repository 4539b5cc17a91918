import WasmerNapi.Agent.Scopes

/-!
# The entries that mint

Every bridge entry that hands the guest a value ends alike: the arguments are looked up,
the engine is called, and what it produced is stored and its id written through an out
pointer. `Spec` is that shape and `Minting` lists the entries, each with its own
arguments, out pointers and habits; `snapi_bridge_escape_handle`, which mints into the
parent of a frame, stands beside them.

`StoreValue` says that it has no id left by returning `0`. Four of the entries look at
what it returned and the others report `napi_ok` whatever it was. `usable_iff` says for
all of them when `napi_ok` can be relied on.
-/

namespace WasmerNapi.Agent

open Word Run Bridge

/-- What an entry looks up before it calls the engine. -/
inductive Arg where
  /-- `LoadValue`, which must find one. -/
  | value (id : ℕ)
  /-- `LoadValue` unless the id is `0`, and then it must find one. -/
  | optional (id : ℕ)
  /-- `LoadValue`, found or not. -/
  | any (id : ℕ)
  /-- `ResolveRealm`; `known` is the engine's answer about the value. -/
  | realm (id : ℕ) (known : Bool)
  /-- A source text, or else a bytecode handle. -/
  | source (id : ℕ) (bytecode : Bool)
  /-- A handle of another table, or a pointer. -/
  | held (found : Bool)
  /-- `FindCallbackInvocation`. -/
  | invocation (id : ℕ)

/-- An out pointer for an id: whether it was given, whether a null result is tested before
    `StoreValue` is called, and whether it is one of the slots past the actual arguments,
    which share the id of `undefined`. -/
structure Out where
  wanted : Bool := true
  guarded : Bool := false
  spare : Bool := false

/-- An entry. `checked`: the ids are tested before it returns. `whole`: a null result is a
    failure. -/
structure Spec where
  args : List Arg := []
  outs : List Out := [{}]
  checked : Bool := false
  whole : Bool := false

/-- The engine's part in a call: what it answers, with a value or null for each out
    pointer, its `undefined`, and the operations of guest code that it runs meanwhile. -/
structure Engine (ν : Type) where
  answer : Except NapiStatus (List (Option ν))
  undefined : ν
  meanwhile : List (Op ν) := []

section

variable {ν : Type}

/-- The status an argument is refused with. -/
def Arg.refused (a : State ν) : Arg → Option NapiStatus
  | .value id => if (a.loadValue id).isNone then some .invalidArg else none
  | .optional id => if id ≠ 0 ∧ (a.loadValue id).isNone then some .invalidArg else none
  | .any _ => none
  | .realm id known =>
    if id ≠ 0 ∧ ((a.loadValue id).isNone ∨ !known) then some .invalidArg else none
  | .source id bytecode => if (a.loadValue id).isNone ∧ !bytecode then some .invalidArg else none
  | .held found => if found then none else some .invalidArg
  | .invocation id =>
    if a.callbackInvocations.any fun i => i.1 == id then none else some .genericFailure

/-- The `StoreValue`s of an entry, in order; `undefinedId` is that of the spare slots, once
    there is one. -/
def State.storeAll (undefined : ν) :
    List (Out × Option ν) → ℕ → State ν → List (Option ℕ) × State ν
  | [], _, a => ([], a)
  | (out, value) :: outs, undefinedId, a =>
    if !out.wanted then
      let rest := storeAll undefined outs undefinedId a
      (none :: rest.1, rest.2)
    else if out.spare then
      let stored := if undefinedId = 0 then a.storeValue (some undefined) else (undefinedId, a)
      let rest := storeAll undefined outs stored.1 stored.2
      (some stored.1 :: rest.1, rest.2)
    else
      let stored := if out.guarded && value.isNone then (0, a) else a.storeValue value
      let rest := storeAll undefined outs undefinedId stored.2
      (some stored.1 :: rest.1, rest.2)

/-- An entry once the engine has answered. -/
def Spec.finish (spec : Spec) (engine : Engine ν) (a : State ν) :
    (NapiStatus × List (Option ℕ)) × State ν :=
  match engine.answer with
  | .error status => ((status, []), a)
  | .ok values =>
    if spec.whole && values.any Option.isNone then ((.genericFailure, []), a)
    else
      let stored := a.storeAll engine.undefined (spec.outs.zip values) 0
      ((if spec.checked && stored.1.contains (some 0) then .genericFailure else .ok, stored.1),
        stored.2)

/-- A call of an entry: `env` is whether `RequireEnvState` finds the env. -/
def Spec.call (spec : Spec) (a : State ν) (env : Bool) (engine : Engine ν) :
    Option ((NapiStatus × List (Option ℕ)) × State ν) :=
  if !env then some ((.invalidArg, []), a)
  else
    match spec.args.findSome? (Arg.refused a) with
    | some status => some ((status, []), a)
    | none => (run step a engine.meanwhile).map (spec.finish engine)

end

/-- `unofficial_napi_module_kind`. -/
inductive ModuleKind where
  | sourceText
  | synthetic
  | other

/-- The entries, by what follows `snapi_bridge_` and `snapi_bridge_unofficial_`, with the ids
    and pointers that decide whether and what they mint. -/
inductive Minting where
  | getUndefined
  | getNull
  | getBoolean
  | getGlobal
  | createStringUtf8
  | createStringLatin1
  | createStringUtf16
  | createInt32
  | createUint32
  | createDouble
  | createInt64
  | createObject
  | createArray
  | createArrayWithLength
  | createBigintInt64
  | createBigintUint64
  | createBigintWords
  | createDate
  | createPromise
  | createExternal
  | createArraybuffer
  | createSharedarraybuffer
  | createBuffer
  | createBufferCopy
  | createExternalArraybuffer
  | createExternalBuffer
  | createExternalArraybufferFinalized
  | createExternalBufferFinalized
  | createExternalArraybufferGuestFinalized
  | createExternalBufferGuestFinalized
  | createFunction
  | getAndClearLastException
  | coerceToBool (id : ℕ)
  | coerceToNumber (id : ℕ)
  | coerceToString (id : ℕ)
  | coerceToObject (id : ℕ)
  | getProperty (objId keyId : ℕ)
  | getNamedProperty (objId : ℕ) (name : Bool)
  | getElement (objId : ℕ)
  | getPropertyNames (objId : ℕ)
  | getAllPropertyNames (objId : ℕ)
  | getPrototype (objId : ℕ)
  | createError (codeId msgId : ℕ)
  | createTypeError (codeId msgId : ℕ)
  | createRangeError (codeId msgId : ℕ)
  | createSymbol (descriptionId : ℕ)
  | createTypedarray (arraybufferId : ℕ)
  | createDataview (arraybufferId : ℕ)
  | getTypedarrayInfo (id : ℕ) (arraybufferOut : Bool)
  | getDataviewInfo (id : ℕ) (arraybufferOut : Bool)
  | getReferenceValue (ref : Bool)
  | callFunction (recvId funcId : ℕ) (argvIds : List ℕ)
  | newInstance (ctorId : ℕ) (argvIds : List ℕ)
  | defineClass (nameIds valueIds : List ℕ)
  | runScript (scriptId : ℕ)
  | getCbInfo (cbinfoId : ℕ) (thisOut argvOut : Bool) (wanted actual : ℕ)
  | getNewTarget (cbinfoId : ℕ)
  | createGuestBackedTypedarray (dataOut valueOut : Bool)
  | getPromiseDetails (promiseId : ℕ) (resultOut : Bool)
  | getProxyDetails (proxyId : ℕ) (targetOut handlerOut : Bool)
  | previewEntries (valueId : ℕ) (entriesOut : Bool)
  | getCallSites (callsitesOut : Bool)
  | getConstructorName (valueId : ℕ) (nameOut : Bool)
  | createPrivateSymbol (outId : Bool)
  | getContinuationPreservedEmbedderData (outId : Bool)
  | createTrustedScript (sourceId : ℕ) (resultOut : Bool)
  | getOwnNonIndexProperties (valueId : ℕ) (outId : Bool)
  | getErrorMetadata (errorId : ℕ)
      (sourceLineOut scriptResourceNameOut stderrLineOut thrownAtOut : Bool)
  | profileStop (jsonOut profile : Bool)
  | takeHeapSnapshot (jsonOut : Bool)
  | structuredClone (valueId transferListId : ℕ) (outId : Bool)
  | messageTake (message valueOut : Bool)
  | createSerdesBinding (outId : Bool)
  | createRealm (sandboxId nameId originId hostDefinedOptionId : ℕ) (realmOut : Bool)
  | unofficialRunScript (realmId sourceTextId filenameId hostDefinedOptionId : ℕ)
      (known bytecode resultOut : Bool)
  | compileFunction
      (realmId sourceTextId filenameId contextExtensionsId paramsId hostDefinedOptionId : ℕ)
      (known bytecode resultOut : Bool)
  | bytecodeSerialize (bytecode bufferOut : Bool)
  | moduleWrapCreate
      (wrapperId urlId realmId sourceTextId hostDefinedOptionId : ℕ)
      (exportNamesId syntheticEvalStepsId : ℕ)
      (known bytecode requestsOut : Bool) (kind : ModuleKind)
  | moduleWrapEvaluate (handle resultOut : Bool)
  | moduleWrapEvaluateSync (filenameId parentFilenameId : ℕ) (handle resultOut : Bool)
  | moduleWrapGetNamespace (handle resultOut : Bool)
  | moduleWrapGetState (handle statusOut errorOut hasAsyncGraphOut : Bool)
  | moduleWrapGetModuleSourceObject (handle resultOut : Bool)
  | moduleWrapCreateCachedData (handle resultOut : Bool)
  | moduleWrapCreateRequiredModuleFacade (handle resultOut : Bool)

/-- What each of them does. -/
def Minting.spec : Minting → Spec
  | .getUndefined => {}
  | .getNull => {}
  | .getBoolean => {}
  | .getGlobal => {}
  | .createStringUtf8 => {}
  | .createStringLatin1 => {}
  | .createStringUtf16 => {}
  | .createInt32 => {}
  | .createUint32 => {}
  | .createDouble => {}
  | .createInt64 => {}
  | .createObject => {}
  | .createArray => {}
  | .createArrayWithLength => {}
  | .createBigintInt64 => {}
  | .createBigintUint64 => {}
  | .createBigintWords => {}
  | .createDate => {}
  | .createPromise => {}
  | .createExternal => {}
  | .createArraybuffer => {}
  | .createSharedarraybuffer => {}
  | .createBuffer => {}
  | .createBufferCopy => {}
  | .createExternalArraybuffer => {}
  | .createExternalBuffer => {}
  | .createExternalArraybufferFinalized => {}
  | .createExternalBufferFinalized => {}
  | .createExternalArraybufferGuestFinalized => {}
  | .createExternalBufferGuestFinalized => {}
  | .createFunction => {}
  | .getAndClearLastException => {}
  | .coerceToBool id => { args := [.value id] }
  | .coerceToNumber id => { args := [.value id] }
  | .coerceToString id => { args := [.value id] }
  | .coerceToObject id => { args := [.value id] }
  | .getProperty objId keyId => { args := [.value objId, .value keyId] }
  | .getNamedProperty objId name => { args := [.value objId, .held name] }
  | .getElement objId => { args := [.value objId] }
  | .getPropertyNames objId => { args := [.value objId] }
  | .getAllPropertyNames objId => { args := [.value objId] }
  | .getPrototype objId => { args := [.value objId] }
  | .createError codeId msgId => { args := [.any codeId, .value msgId] }
  | .createTypeError codeId msgId => { args := [.any codeId, .value msgId] }
  | .createRangeError codeId msgId => { args := [.any codeId, .value msgId] }
  | .createSymbol descriptionId => { args := [.any descriptionId] }
  | .createTypedarray arraybufferId => { args := [.value arraybufferId] }
  | .createDataview arraybufferId => { args := [.value arraybufferId] }
  | .getTypedarrayInfo id arraybufferOut =>
    { args := [.value id], outs := [{ wanted := arraybufferOut }] }
  | .getDataviewInfo id arraybufferOut =>
    { args := [.value id], outs := [{ wanted := arraybufferOut }] }
  | .getReferenceValue ref => { args := [.held ref] }
  | .callFunction recvId funcId argvIds =>
    { args := .value recvId :: .value funcId :: argvIds.map .value }
  | .newInstance ctorId argvIds => { args := .value ctorId :: argvIds.map .value }
  | .defineClass nameIds valueIds => { args := nameIds.map .any ++ valueIds.map .any }
  | .runScript scriptId => { args := [.value scriptId] }
  | .getCbInfo cbinfoId thisOut argvOut wanted actual =>
    { args := [.invocation cbinfoId]
      outs := { wanted := thisOut, guarded := true } ::
        if argvOut then (List.range wanted).map fun i => { spare := actual ≤ i } else [] }
  | .getNewTarget cbinfoId => { args := [.invocation cbinfoId], outs := [{ guarded := true }] }
  | .createGuestBackedTypedarray dataOut valueOut =>
    { args := [.held dataOut, .held valueOut], checked := true }
  | .getPromiseDetails promiseId resultOut =>
    { args := [.value promiseId], outs := [{ wanted := resultOut }] }
  | .getProxyDetails proxyId targetOut handlerOut =>
    { args := [.value proxyId], outs := [{ wanted := targetOut }, { wanted := handlerOut }] }
  | .previewEntries valueId entriesOut =>
    { args := [.value valueId], outs := [{ wanted := entriesOut }] }
  | .getCallSites callsitesOut => { outs := [{ wanted := callsitesOut }] }
  | .getConstructorName valueId nameOut =>
    { args := [.value valueId], outs := [{ wanted := nameOut }] }
  | .createPrivateSymbol outId => { outs := [{ wanted := outId }] }
  | .getContinuationPreservedEmbedderData outId => { outs := [{ wanted := outId }] }
  | .createTrustedScript sourceId resultOut =>
    { args := [.held resultOut, .value sourceId], checked := true }
  | .getOwnNonIndexProperties valueId outId =>
    { args := [.held outId, .value valueId], checked := true }
  | .getErrorMetadata errorId sourceLineOut scriptResourceNameOut stderrLineOut thrownAtOut =>
    { args := [.value errorId]
      outs := [{ wanted := sourceLineOut }, { wanted := scriptResourceNameOut },
        { wanted := stderrLineOut }, { wanted := thrownAtOut }] }
  | .profileStop jsonOut profile =>
    { args := [.held jsonOut, .held profile], outs := [{ guarded := true }] }
  | .takeHeapSnapshot jsonOut => { args := [.held jsonOut], outs := [{ guarded := true }] }
  | .structuredClone valueId transferListId outId =>
    { args := [.value valueId, .any transferListId], outs := [{ wanted := outId }] }
  | .messageTake message valueOut => { args := [.held message, .held valueOut], checked := true }
  | .createSerdesBinding outId => { outs := [{ wanted := outId }] }
  | .createRealm sandboxId nameId originId hostDefinedOptionId realmOut =>
    -- One id, written through both pointers.
    { args := [.held realmOut, .optional sandboxId, .optional nameId, .optional originId,
        .optional hostDefinedOptionId] }
  | .unofficialRunScript realmId sourceTextId filenameId hostDefinedOptionId known bytecode
      resultOut =>
    { args := [.realm realmId known, .source sourceTextId bytecode, .value filenameId,
        .optional hostDefinedOptionId]
      outs := [{ wanted := resultOut }] }
  | .compileFunction realmId sourceTextId filenameId contextExtensionsId paramsId
      hostDefinedOptionId known bytecode resultOut =>
    { args := [.realm realmId known, .source sourceTextId bytecode, .value filenameId,
        .optional contextExtensionsId, .optional paramsId, .optional hostDefinedOptionId]
      outs := [{ wanted := resultOut }] }
  | .bytecodeSerialize bytecode bufferOut =>
    { args := [.held bytecode], outs := [{ wanted := bufferOut }] }
  | .moduleWrapCreate wrapperId urlId realmId sourceTextId hostDefinedOptionId exportNamesId
      syntheticEvalStepsId known bytecode requestsOut kind =>
    { args := [.value wrapperId, .value urlId, .realm realmId known,
        .optional hostDefinedOptionId, .optional exportNamesId, .optional syntheticEvalStepsId] ++
        match kind with
        | .sourceText => [.source sourceTextId bytecode]
        | .synthetic => [.value exportNamesId, .value syntheticEvalStepsId]
        | .other => [.held false]
      outs := [{ wanted := requestsOut }]
      whole := true }
  | .moduleWrapEvaluate handle resultOut =>
    { args := [.held handle], outs := [{ wanted := resultOut }] }
  | .moduleWrapEvaluateSync filenameId parentFilenameId handle resultOut =>
    { args := [.held handle, .optional filenameId, .optional parentFilenameId]
      outs := [{ wanted := resultOut }] }
  | .moduleWrapGetNamespace handle resultOut =>
    { args := [.held handle], outs := [{ wanted := resultOut }] }
  | .moduleWrapGetState handle statusOut errorOut hasAsyncGraphOut =>
    { args := [.held handle, .held (statusOut || errorOut || hasAsyncGraphOut)]
      outs := [{ wanted := errorOut }] }
  | .moduleWrapGetModuleSourceObject handle resultOut =>
    { args := [.held handle], outs := [{ wanted := resultOut }] }
  | .moduleWrapCreateCachedData handle resultOut =>
    { args := [.held handle], outs := [{ wanted := resultOut }] }
  | .moduleWrapCreateRequiredModuleFacade handle resultOut =>
    { args := [.held handle], outs := [{ wanted := resultOut }] }

/-- The entries that mint a value id. -/
inductive Entry where
  | escapeHandle (scopeId escapeeId : ℕ)
  | minting (entry : Minting)

section

variable {ν : Type}

/-- A call of an entry. The engine runs no guest code while it escapes a handle. -/
def Entry.call (a : State ν) (env : Bool) (engine : Engine ν) :
    Entry → Option ((NapiStatus × List (Option ℕ)) × State ν)
  | .escapeHandle scopeId escapeeId =>
    if !env then some ((.invalidArg, []), a)
    else
      let result := a.escapeHandle scopeId escapeeId (engine.answer.map fun values => values.head?.join)
      some ((result.1.1, [some result.1.2]), result.2)
  | .minting entry => entry.spec.call a env engine

/-! ## Room -/

/-- How many more ids the agent can mint. -/
def State.room (a : State ν) : ℕ :=
  let slots := a.valueFreeSlots.length + (kValueIdMaxSlots - a.valueSlots.length)
  if a.valueLimit = 0 then slots else min slots (a.valueLimit - a.liveValueCount)

/-- The value has an id that is still good. -/
def State.Holds (a : State ν) (id : ℕ) (v : ν) : Prop :=
  ∃ f ∈ a.scopeFrames, (id, v) ∈ f.minted

variable {a b : State ν}
variable {id : ℕ} {v : ν}

theorem Tabled.load_held (h : Tabled [] [] a) (hv : a.Holds id v) :
    id ≠ 0 ∧ a.loadValue id = some v := by
  obtain ⟨f, hf, hm⟩ := hv
  obtain ⟨hpos, -, hload⟩ := h.load_minted hf hm
  exact ⟨hpos.ne', hload⟩

theorem exhausted_iff (a : State ν) : Exhausted a ↔ a.room = 0 := by
  unfold Exhausted State.room
  dsimp only
  rw [← List.length_eq_zero_iff]
  split
  · rename_i hlimit
    rw [hlimit]
    omega
  · rename_i hlimit
    omega

variable {k : ℕ}

/-- What a mint does, by the room there is. -/
theorem Tabled.storeValueInFrame_room (h : Tabled [] [] a) (v : ν) (hk : k < a.scopeFrames.length) :
    (a.room = 0 ∧ a.storeValueInFrame (some v) k = (0, a)) ∨
      (0 < a.room ∧ (a.storeValueInFrame (some v) k).2.room = a.room - 1 ∧
        (a.storeValueInFrame (some v) k).2.Holds (a.storeValueInFrame (some v) k).1 v) := by
  have hmints := h.mints v hk
  rcases storeValueInFrame_cases a (some v) k with ⟨heq, hnone⟩ | ⟨v', index, b, hv, heq, hlimit, hb⟩
  · rcases hnone with hnone | hfull
    · cases hnone
    · exact Or.inl ⟨(exhausted_iff a).mp hfull, heq⟩
  · cases hv
    obtain ⟨slot, hslot, -⟩ := (h.reserve hb).slot (i := index) (List.mem_cons_self ..)
    have hroom : 0 < a.room ∧ (b.mintAt v index k).2.room = a.room - 1 := by
      unfold State.mintAt State.room
      rw [hslot]
      dsimp only
      rw [List.length_set]
      rcases hb with ⟨free, hfree, rfl⟩ | ⟨hfree, rfl, hsize, rfl⟩
      · rw [hfree, List.length_cons]
        dsimp only
        split
        · omega
        · omega
      · rw [hfree, List.length_append, List.length_singleton, List.length_nil]
        dsimp only
        split
        · omega
        · omega
    refine Or.inr ⟨hroom.1, ?_, ?_⟩
    · rw [heq]
      exact hroom.2
    · rcases hmints with hzero | ⟨f, hf, hm⟩
      · -- The slot taken has an id.
        have hi := h.reserve hb
        have hmem : index ∈ [index] ++ b.valueFreeSlots ++ ([] ++ ownedBy b.scopeFrames) :=
          List.mem_cons_self ..
        have hpos := (valueId_bounds (lt_of_lt_of_le (hi.lt hmem) hi.size)
          (hi.generation slot (List.mem_of_getElem? hslot))).1
        rw [heq] at hzero
        unfold State.mintAt at hzero
        rw [hslot] at hzero
        exact absurd hzero hpos.ne'
      · exact ⟨f, List.mem_of_getElem? hf, hm⟩

theorem holds_modify {frames : List (ScopeFrame ν)} {g : ScopeFrame ν → ScopeFrame ν}
    (hg : ∀ f, f.minted ⊆ (g f).minted) (h : ∃ f ∈ frames, (id, v) ∈ f.minted) :
    ∃ f ∈ frames.modify k g, (id, v) ∈ f.minted := by
  obtain ⟨f, hf, hm⟩ := h
  obtain ⟨j, hj⟩ := List.mem_iff_getElem?.mp hf
  by_cases hjk : k = j
  · refine ⟨g f, List.mem_of_getElem? (i := j) ?_, hg f hm⟩
    rw [List.getElem?_modify, hj, hjk]
    simp
  · refine ⟨f, List.mem_of_getElem? (i := j) ?_, hm⟩
    rw [List.getElem?_modify, hj]
    simp [hjk]

theorem holds_storeValueInFrame (h : a.Holds id v) (val : Option ν) :
    (a.storeValueInFrame val k).2.Holds id v := by
  rcases storeValueInFrame_cases a val k with ⟨heq, -⟩ | ⟨w, index, b, -, heq, -, hb⟩
  · rw [heq]
    exact h
  · have hframes : b.scopeFrames = a.scopeFrames := by
      rcases hb with ⟨free, -, rfl⟩ | ⟨-, -, -, rfl⟩
      · rfl
      · rfl
    rw [heq]
    unfold State.mintAt State.Holds
    split
    · rw [hframes]
      exact h
    · refine holds_modify (fun f => List.subset_cons_self _ _) ?_
      rw [hframes]
      exact h

theorem holds_storeValue (h : a.Holds id v) (val : Option ν) :
    (a.storeValue val).2.Holds id v := by
  refine holds_storeValueInFrame ?_ val
  unfold State.currentFrame
  split
  · rename_i hframes
    obtain ⟨f, hf, -⟩ := h
    rw [hframes] at hf
    cases hf
  · exact h

theorem room_currentFrame (a : State ν) : a.currentFrame.room = a.room := by
  unfold State.currentFrame
  split
  · rfl
  · rfl

theorem Tabled.storeValue_room (h : Tabled [] [] a) (v : ν) :
    (a.room = 0 ∧ (a.storeValue (some v)).1 = 0) ∨
      (0 < a.room ∧ (a.storeValue (some v)).2.room = a.room - 1 ∧
        (a.storeValue (some v)).2.Holds (a.storeValue (some v)).1 v) := by
  rcases h.currentFrame.storeValueInFrame_room v (currentFrame_ne_nil a) with
    ⟨hroom, heq⟩ | ⟨hroom, hless, hheld⟩
  · rw [room_currentFrame] at hroom
    refine Or.inl ⟨hroom, ?_⟩
    unfold State.storeValue
    rw [heq]
  · rw [room_currentFrame] at hroom hless
    exact Or.inr ⟨hroom, hless, hheld⟩

theorem room_storeValue_none (a : State ν) : (a.storeValue none).2.room = a.room :=
  room_currentFrame a

/-! ## The stores of an entry -/

/-- What an out pointer is for. -/
def Out.produced (undefined : ν) (out : Out) (value : Option ν) : Option ν :=
  if out.spare then some undefined else value

/-- The mints an entry needs; `shared` is whether the spare slots have their id. -/
def demand : Bool → List (Out × Option ν) → ℕ
  | _, [] => 0
  | shared, (out, value) :: outs =>
    if !out.wanted then demand shared outs
    else if out.spare then (if shared then 0 else 1) + demand true outs
    else (if value.isSome then 1 else 0) + demand shared outs

/-- Every out pointer that was given has the id of what was produced for it. -/
def Good (undefined : ν) (outs : List (Out × Option ν)) (ids : List (Option ℕ)) (b : State ν) :
    Prop :=
  ∀ (i : ℕ) (out : Out) (value : Option ν) (v : ν), outs[i]? = some (out, value) →
    out.wanted = true → out.produced undefined value = some v → ∃ id, ids[i]? = some (some id) ∧ b.Holds id v

/-- Some out pointer has `0` for a value. -/
def Missed (undefined : ν) (outs : List (Out × Option ν)) (ids : List (Option ℕ)) : Prop :=
  ∃ (i : ℕ) (out : Out) (value : Option ν) (v : ν), outs[i]? = some (out, value) ∧
    out.wanted = true ∧ out.produced undefined value = some v ∧ ids[i]? = some (some 0)

variable {undefined : ν} {out : Out} {value : Option ν} {outs : List (Out × Option ν)}
  {ids : List (Option ℕ)} {x : Option ℕ}

theorem Good.cons (h : Good undefined outs ids b)
    (hx : out.wanted = true → ∀ v, out.produced undefined value = some v →
      ∃ id, x = some id ∧ b.Holds id v) : Good undefined ((out, value) :: outs) (x :: ids) b := by
  intro i out' value' v hi hwanted hproduced
  cases i with
  | zero =>
    obtain ⟨rfl, rfl⟩ := Prod.mk.inj (Option.some.inj hi)
    obtain ⟨id, rfl, hheld⟩ := hx hwanted v hproduced
    exact ⟨id, rfl, hheld⟩
  | succ i => exact h i out' value' v hi hwanted hproduced

theorem Missed.cons (h : Missed undefined outs ids) (head : Out × Option ν) (x : Option ℕ) :
    Missed undefined (head :: outs) (x :: ids) := by
  obtain ⟨i, out, value, v, hi, hwanted, hproduced, hid⟩ := h
  exact ⟨i + 1, out, value, v, hi, hwanted, hproduced, hid⟩

theorem missed_head (hwanted : out.wanted = true)
    (hproduced : out.produced undefined value = some v) :
    Missed undefined ((out, value) :: outs) (some 0 :: ids) :=
  ⟨0, out, value, v, rfl, hwanted, hproduced, rfl⟩

/-- The stores keep the table, and the ids there are. -/
theorem storeAll_kept (outs : List (Out × Option ν)) : ∀ (undefinedId : ℕ) {a : State ν},
    Tabled [] [] a → Tabled [] [] (a.storeAll undefined outs undefinedId).2 ∧
      ∀ id v, a.Holds id v → (a.storeAll undefined outs undefinedId).2.Holds id v := by
  induction outs with
  | nil =>
    intro undefinedId a h
    exact ⟨h, fun _ _ hheld => hheld⟩
  | cons head outs ih =>
    intro undefinedId a h
    obtain ⟨out, value⟩ := head
    unfold State.storeAll
    split
    · exact ih undefinedId h
    · split
      · dsimp only
        split
        · obtain ⟨ht, hkept⟩ := ih (a.storeValue (some undefined)).1 (h.storeValue (some undefined))
          exact ⟨ht, fun id v hheld => hkept id v (holds_storeValue hheld _)⟩
        · exact ih undefinedId h
      · dsimp only
        split
        · exact ih undefinedId h
        · obtain ⟨ht, hkept⟩ := ih undefinedId (h.storeValue value)
          exact ⟨ht, fun id v hheld => hkept id v (holds_storeValue hheld _)⟩

/-- **The stores of an entry**: with room for them all every value gets its id, and without
    it some value gets `0`. -/
theorem storeAll_room (outs : List (Out × Option ν)) : ∀ (undefinedId : ℕ) {a : State ν},
    Tabled [] [] a → (undefinedId ≠ 0 → a.Holds undefinedId undefined) →
      (demand (undefinedId != 0) outs ≤ a.room →
        Good undefined outs (a.storeAll undefined outs undefinedId).1
          (a.storeAll undefined outs undefinedId).2) ∧
      (a.room < demand (undefinedId != 0) outs →
        Missed undefined outs (a.storeAll undefined outs undefinedId).1) := by
  induction outs with
  | nil =>
    intro undefinedId a _ _
    refine ⟨?_, fun hlt => absurd hlt (Nat.not_lt_zero _)⟩
    intro _ i out value v hi
    cases hi
  | cons head outs ih =>
    intro undefinedId a h hshared
    obtain ⟨out, value⟩ := head
    unfold State.storeAll demand
    cases hwanted : out.wanted with
    | false =>
      simp only [Bool.not_false, if_true]
      obtain ⟨hgood, hmissed⟩ := ih undefinedId h hshared
      refine ⟨fun hroom => (hgood hroom).cons ?_, fun hroom => (hmissed hroom).cons _ _⟩
      intro hw
      rw [hwanted] at hw
      cases hw
    | true =>
      simp only [Bool.not_true, Bool.false_eq_true, if_false]
      cases hspare : out.spare with
      | true =>
        have hproduced : out.produced undefined value = some undefined := by
          unfold Out.produced
          rw [hspare, if_pos rfl]
        simp only [if_true]
        by_cases hzero : undefinedId = 0
        · subst hzero
          simp only [bne_self_eq_false, Bool.false_eq_true, if_false, if_true]
          rcases h.storeValue_room undefined with ⟨hnone, hid⟩ | ⟨hroom, hless, hheld⟩
          · rw [hnone]
            refine ⟨fun hle => absurd hle (by omega), fun _ => ?_⟩
            rw [hid]
            exact missed_head hwanted hproduced
          · obtain ⟨hne, -⟩ := (h.storeValue (some undefined)).load_held hheld
            obtain ⟨hgood, hmissed⟩ :=
              ih (a.storeValue (some undefined)).1 (h.storeValue _) fun _ => hheld
            rw [bne_iff_ne.mpr hne, hless] at hgood hmissed
            refine ⟨fun hle => (hgood (by omega)).cons ?_, fun hlt => (hmissed (by omega)).cons _ _⟩
            intro _ v hv
            obtain rfl := Option.some.inj (hproduced.symm.trans hv)
            exact ⟨_, rfl, (storeAll_kept outs _ (h.storeValue _)).2 _ _ hheld⟩
        · obtain ⟨hgood, hmissed⟩ := ih undefinedId h hshared
          rw [bne_iff_ne.mpr hzero] at hgood hmissed ⊢
          simp only [if_neg hzero, if_true, Nat.zero_add]
          refine ⟨fun hle => (hgood hle).cons ?_, fun hlt => (hmissed hlt).cons _ _⟩
          intro _ v hv
          obtain rfl := Option.some.inj (hproduced.symm.trans hv)
          exact ⟨_, rfl, (storeAll_kept outs _ h).2 _ _ (hshared hzero)⟩
      | false =>
        have hproduced : out.produced undefined value = value := by
          unfold Out.produced
          rw [hspare]
          rfl
        simp only [Bool.false_eq_true, if_false]
        cases value with
        | none =>
          have hnone : ∀ v, out.produced undefined none = some v → False := by
            intro v hv
            rw [hproduced] at hv
            cases hv
          simp only [Option.isNone_none, Option.isSome_none, Bool.and_true, Bool.false_eq_true,
            if_false, Nat.zero_add]
          cases hguarded : out.guarded with
          | true =>
            obtain ⟨hgood, hmissed⟩ := ih undefinedId h hshared
            exact ⟨fun hle => (hgood hle).cons fun _ v hv => (hnone v hv).elim,
              fun hlt => (hmissed hlt).cons _ _⟩
          | false =>
            obtain ⟨hgood, hmissed⟩ := ih undefinedId (h.storeValue none)
              fun hne => holds_storeValue (hshared hne) none
            rw [room_storeValue_none] at hgood hmissed
            exact ⟨fun hle => (hgood hle).cons fun _ v hv => (hnone v hv).elim,
              fun hlt => (hmissed hlt).cons _ _⟩
        | some v =>
          simp only [Option.isNone_some, Option.isSome_some, Bool.and_false, Bool.false_eq_true,
            if_false, if_true]
          rcases h.storeValue_room v with ⟨hnone, hid⟩ | ⟨hroom, hless, hheld⟩
          · rw [hnone]
            refine ⟨fun hle => absurd hle (by omega), fun _ => ?_⟩
            rw [hid]
            exact missed_head hwanted hproduced
          · obtain ⟨hgood, hmissed⟩ := ih undefinedId (h.storeValue (some v))
              fun hne => holds_storeValue (hshared hne) (some v)
            rw [hless] at hgood hmissed
            refine ⟨fun hle => (hgood (by omega)).cons ?_, fun hlt => (hmissed (by omega)).cons _ _⟩
            intro _ w hw
            obtain rfl := Option.some.inj (hproduced.symm.trans hw)
            exact ⟨_, rfl, (storeAll_kept outs _ (h.storeValue _)).2 _ _ hheld⟩

/-! ## What an entry returns -/

/-- If the entry returns `napi_ok`, every out pointer that was given a value has an id for
    it, which is not `0` and loads it. -/
def Reliable (undefined : ν) (outs : List (Out × Option ν))
    (r : (NapiStatus × List (Option ℕ)) × State ν) : Prop :=
  r.1.1 = .ok → ∀ (i : ℕ) (out : Out) (value : Option ν) (v : ν), outs[i]? = some (out, value) →
    out.wanted = true → out.produced undefined value = some v →
    ∃ id, r.1.2[i]? = some (some id) ∧ id ≠ 0 ∧ r.2.loadValue id = some v

variable {status : NapiStatus}

theorem Good.reliable (h : Good undefined outs ids b) (ht : Tabled [] [] b) :
    Reliable undefined outs ((status, ids), b) := by
  intro _ i out value v hi hwanted hproduced
  obtain ⟨id, hid, hheld⟩ := h i out value v hi hwanted hproduced
  exact ⟨id, hid, ht.load_held hheld⟩

theorem Missed.not_reliable (h : Missed undefined outs ids) :
    ¬ Reliable undefined outs ((.ok, ids), b) := by
  intro hreliable
  obtain ⟨i, out, value, v, hi, hwanted, hproduced, hzero⟩ := h
  obtain ⟨id, hid, hne, -⟩ := hreliable rfl i out value v hi hwanted hproduced
  exact hne (Option.some.inj (Option.some.inj (hid.symm.trans hzero)))

theorem Missed.contains (h : Missed undefined outs ids) : ids.contains (some 0) = true := by
  obtain ⟨i, -, -, -, -, -, -, hzero⟩ := h
  exact List.contains_iff_mem.mpr (List.mem_of_getElem? hzero)

/-- Once there is something to store, an entry is reliable if it tests the ids or there is
    room for them. -/
theorem Spec.reliable_iff (spec : Spec) (ht : Tabled [] [] b) (undefined : ν)
    (outs : List (Out × Option ν)) :
    Reliable undefined outs
        ((if spec.checked && (b.storeAll undefined outs 0).1.contains (some 0) then .genericFailure
          else .ok, (b.storeAll undefined outs 0).1), (b.storeAll undefined outs 0).2) ↔
      spec.checked = true ∨ demand false outs ≤ b.room := by
  have hstored : (demand false outs ≤ b.room → Good undefined outs _ _) ∧
    (b.room < demand false outs → Missed undefined outs _) := storeAll_room outs 0 ht (absurd rfl)
  obtain ⟨hgood, hmissed⟩ := hstored
  rcases Nat.lt_or_ge b.room (demand false outs) with hlt | hle
  · have hshort := hmissed hlt
    rw [hshort.contains]
    cases hchecked : spec.checked with
    | true =>
      refine ⟨fun _ => Or.inl rfl, fun _ hok => ?_⟩
      cases hok
    | false =>
      refine ⟨fun hreliable => absurd hreliable hshort.not_reliable, fun hfits => ?_⟩
      rcases hfits with hfits | hfits
      · cases hfits
      · exact absurd hlt (Nat.not_lt.mpr hfits)
  · exact ⟨fun _ => Or.inr hle, fun _ => (hgood hle).reliable (storeAll_kept outs 0 ht).1⟩

/-- The out pointers of an entry. -/
def Entry.pointers : Entry → List Out
  | .escapeHandle _ _ => [{}]
  | .minting entry => entry.spec.outs

/-- The entry tests the ids it writes. -/
def Entry.checked : Entry → Bool
  | .escapeHandle _ _ => false
  | .minting entry => entry.spec.checked

/-- What the entry goes on to store and the state it does it in, unless it is refused
    before. -/
def Entry.toStore (a : State ν) (env : Bool) (engine : Engine ν) :
    Entry → Option (List (Out × Option ν) × State ν)
  | .escapeHandle scopeId escapeeId =>
    if env && (a.escapeFrame scopeId escapeeId).isSome then
      engine.answer.toOption.map fun values => ([({} : Out)].zip values, a)
    else none
  | .minting entry =>
    if env && (entry.spec.args.findSome? (Arg.refused a)).isNone then
      engine.answer.toOption.bind fun values =>
        if entry.spec.whole && values.any Option.isNone then none
        else (run step a engine.meanwhile).map fun b => (entry.spec.outs.zip values, b)
    else none

/-- `napi_ok` means a usable handle for every value the engine produced. -/
def Usable (e : Entry) (engine : Engine ν) (r : (NapiStatus × List (Option ℕ)) × State ν) : Prop :=
  ∀ values, engine.answer = .ok values → Reliable engine.undefined (e.pointers.zip values) r

variable {engine : Engine ν} {r : (NapiStatus × List (Option ℕ)) × State ν}

theorem usable_of_ne_ok {e : Entry} (h : r.1.1 ≠ .ok) : Usable e engine r :=
  fun _ _ hok => absurd hok h

theorem usable_of_error {e : Entry} (h : engine.answer = .error status) :
    Usable e engine r := by
  intro values hvalues
  rw [h] at hvalues
  cases hvalues

theorem Arg.refused_ne_ok {arg : Arg} (h : arg.refused a = some status) :
    status ≠ .ok := by
  rintro rfl
  cases arg with
  | any id => cases h
  | value id =>
    simp only [Arg.refused] at h
    split at h <;> cases h
  | optional id =>
    simp only [Arg.refused] at h
    split at h <;> cases h
  | realm id known =>
    simp only [Arg.refused] at h
    split at h <;> cases h
  | source id bytecode =>
    simp only [Arg.refused] at h
    split at h <;> cases h
  | held found =>
    simp only [Arg.refused] at h
    split at h <;> cases h
  | invocation id =>
    simp only [Arg.refused] at h
    split at h <;> cases h

theorem forall_some_pair {α β : Type} {x : α} {y : β} {P : α → β → Prop} :
    (∀ u v, some (x, y) = some (u, v) → P u v) ↔ P x y := by
  constructor
  · intro h
    exact h x y rfl
  · intro h u v heq
    obtain ⟨rfl, rfl⟩ := Prod.mk.inj (Option.some.inj heq)
    exact h

theorem room_logged (a : State ν) (event : Event ν) : (a.logged event).room = a.room := rfl

/-- An escape is reliable if there is room for the escaped value. -/
theorem usable_escapeHandle_iff {scopeId escapeeId : ℕ} (ht : Tabled [] [] a)
    (hcall : (Entry.escapeHandle scopeId escapeeId).call a true engine = some r) :
    Usable (.escapeHandle scopeId escapeeId) engine r ↔
      ∀ outs b, (Entry.escapeHandle scopeId escapeeId).toStore a true engine = some (outs, b) →
        demand false outs ≤ b.room := by
  simp only [Entry.call, Bool.not_true, Bool.false_eq_true, if_false] at hcall
  cases hcall
  simp only [Entry.toStore, Bool.true_and]
  cases hframe : a.escapeFrame scopeId escapeeId with
  | none =>
    refine ⟨fun _ outs b hstore => ?_, fun _ => usable_of_ne_ok ?_⟩
    · cases hstore
    · unfold State.escapeHandle
      rw [hframe]
      intro hok
      cases hok
  | some target =>
    obtain ⟨k, scope, escapee⟩ := target
    cases hanswer : engine.answer with
    | error status =>
      refine ⟨fun _ outs b hstore => ?_, fun _ => usable_of_error hanswer⟩
      cases hstore
    | ok values =>
      have hlogged : Tabled [] [] (a.logged (.escaped scope escapee)) :=
        ht.congr rfl rfl rfl rfl rfl rfl
      have hk : k + 1 < (a.logged (.escaped scope escapee)).scopeFrames.length :=
        escapeFrame_lt hframe
      have hescaped : a.escapeHandle scopeId escapeeId
            ((Except.ok values).map fun values => values.head?.join) =
          ((.ok, ((a.logged (.escaped scope escapee)).storeValueInFrame values.head?.join
              (k + 1)).1),
            ((a.logged (.escaped scope escapee)).storeValueInFrame values.head?.join
              (k + 1)).2) := by
        unfold State.escapeHandle
        rw [hframe]
        rfl
      rw [hescaped]
      refine Iff.trans ?_ forall_some_pair.symm
      have husable : ∀ r, Usable (.escapeHandle scopeId escapeeId) engine r ↔
          Reliable engine.undefined ([({} : Out)].zip values) r := by
        intro r
        refine ⟨fun h => h values hanswer, fun h values' hvalues => ?_⟩
        obtain rfl := Except.ok.inj (hanswer.symm.trans hvalues)
        exact h
      rw [husable]
      cases values with
      | nil =>
        refine ⟨fun _ => Nat.zero_le _, fun _ _ i out value v hi => ?_⟩
        cases hi
      | cons value values =>
        rw [List.zip_cons_cons, List.zip_nil_left]
        cases value with
        | none =>
          refine ⟨fun _ => Nat.zero_le _, fun _ => Good.reliable ?_
            (hlogged.storeValueInFrame hk none)⟩
          refine Good.cons (fun i out value v hi => (nomatch hi)) fun _ v hv => ?_
          cases hv
        | some v =>
          show Reliable _ _ ((_, [some ((a.logged _).storeValueInFrame (some v) (k + 1)).1]), _) ↔
            1 ≤ a.room
          rcases hlogged.storeValueInFrame_room v hk with ⟨hnone, heq⟩ | ⟨hroom, -, hheld⟩
          · rw [room_logged] at hnone
            rw [heq, hnone]
            refine ⟨fun hreliable => absurd hreliable ?_, fun hle => absurd hle (by omega)⟩
            exact (missed_head rfl rfl).not_reliable
          · rw [room_logged] at hroom
            refine ⟨fun _ => hroom, fun _ => Good.reliable ?_ (hlogged.storeValueInFrame hk _)⟩
            refine Good.cons (fun i out value v hi => (nomatch hi)) fun _ w hw => ?_
            cases hw
            exact ⟨_, rfl, hheld⟩

theorem usable_minting_iff {entry : Minting} (ht : Tabled [] [] a)
    (hcall : (Entry.minting entry).call a true engine = some r) :
    Usable (.minting entry) engine r ↔
      entry.spec.checked = true ∨ ∀ outs b, (Entry.minting entry).toStore a true engine =
        some (outs, b) → demand false outs ≤ b.room := by
  simp only [Entry.call, Spec.call, Bool.not_true, Bool.false_eq_true, if_false] at hcall
  simp only [Entry.toStore, Bool.true_and]
  cases hrefused : entry.spec.args.findSome? (Arg.refused a) with
  | some status =>
    rw [hrefused] at hcall
    cases hcall
    obtain ⟨arg, -, harg⟩ := List.exists_of_findSome?_eq_some hrefused
    refine ⟨fun _ => Or.inr fun outs b hstore => ?_,
      fun _ => usable_of_ne_ok (Arg.refused_ne_ok harg)⟩
    cases hstore
  | none =>
    rw [hrefused] at hcall
    obtain ⟨b, hrun, rfl⟩ := Option.map_eq_some_iff.mp hcall
    have htb : Tabled [] [] b := invariant (fun _ _ _ hs => tabled_step hs) hrun ht
    rw [hrun]
    unfold Spec.finish
    cases hanswer : engine.answer with
    | error status =>
      refine ⟨fun _ => Or.inr fun outs b hstore => ?_, fun _ => usable_of_error hanswer⟩
      cases hstore
    | ok values =>
      simp only [Option.isNone_none, if_true, Except.toOption, Option.bind_some, Option.map_some]
      cases hwhole : (entry.spec.whole && values.any Option.isNone) with
      | true =>
        refine ⟨fun _ => Or.inr fun outs b hstore => ?_, fun _ => usable_of_ne_ok ?_⟩
        · cases hstore
        · nofun
      | false =>
        simp only [Bool.false_eq_true, if_false]
        rw [forall_some_pair, ← entry.spec.reliable_iff htb engine.undefined]
        refine ⟨fun h => h values hanswer, fun h values' hvalues => ?_⟩
        obtain rfl := Except.ok.inj (hanswer.symm.trans hvalues)
        exact h

/-- **When `napi_ok` means a usable handle.** For every entry, in every state of every run,
    whatever the engine answers and whatever guest code it runs on the way: if and only if
    the entry tests the ids it writes, or the agent, as the engine leaves it, has room for
    everything the entry stores. -/
theorem usable_iff {limit : ℕ} {before : List (Op ν)} {e : Entry} {env : Bool}
    {engine : Engine ν} {r : (NapiStatus × List (Option ℕ)) × State ν}
    (hr : run step { valueLimit := limit } before = some a)
    (hcall : e.call a env engine = some r) :
    Usable e engine r ↔
      e.checked = true ∨ ∀ outs b, e.toStore a env engine = some (outs, b) →
        demand false outs ≤ b.room := by
  have ht := tabled_run hr
  cases env with
  | false =>
    cases e with
    | escapeHandle scopeId escapeeId =>
      cases hcall
      exact ⟨fun _ => Or.inr fun outs b hstore => (nomatch hstore),
        fun _ => usable_of_ne_ok (fun hok => (nomatch hok))⟩
    | minting entry =>
      cases hcall
      exact ⟨fun _ => Or.inr fun outs b hstore => (nomatch hstore),
        fun _ => usable_of_ne_ok (fun hok => (nomatch hok))⟩
  | true =>
    cases e with
    | escapeHandle scopeId escapeeId =>
      refine (usable_escapeHandle_iff ht hcall).trans ⟨Or.inr, fun h => ?_⟩
      rcases h with hchecked | hroom
      · cases hchecked
      · exact hroom
    | minting entry => exact usable_minting_iff ht hcall

end

/-- One value and an escapable scope. -/
def fullAgent : List (Op ℕ) := [.mint (some 5), .openScope true (.ok 100)]

/-- The engine makes the value `6`. -/
def makesSix : Engine ℕ where
  answer := .ok [some 6]
  undefined := 0

/-- At a limit of one value `snapi_bridge_create_object` reports success with no id, and so
    does `snapi_bridge_escape_handle`. -/
theorem fullAgent_unusable :
    ∃ a : State ℕ, run step { valueLimit := 1 } fullAgent = some a ∧
      (∃ r, Entry.call a true makesSix (.minting .createObject) = some r ∧ r.1 = (.ok, [some 0]) ∧
        ¬ Usable (.minting .createObject) makesSix r) ∧
      (∃ r, Entry.call a true makesSix (.escapeHandle 1 4096) = some r ∧ r.1 = (.ok, [some 0]) ∧
        ¬ Usable (.escapeHandle 1 4096) makesSix r) := by
  have hzero : ∀ {e : Entry} {r : (NapiStatus × List (Option ℕ)) × State ℕ},
      e.pointers = [{}] → r.1 = (.ok, [some 0]) → ¬ Usable e makesSix r := by
    intro e r hpointers hr husable
    obtain ⟨⟨status, ids⟩, b⟩ := r
    obtain ⟨rfl, rfl⟩ := Prod.mk.inj hr
    have hreliable := husable [some 6] rfl
    rw [hpointers] at hreliable
    exact (missed_head rfl rfl).not_reliable hreliable
  exact ⟨_, rfl, ⟨_, rfl, rfl, hzero rfl rfl⟩, ⟨_, rfl, rfl, hzero rfl rfl⟩⟩

/-- With room for one value the object is usable. -/
theorem createObject_usable :
    ∃ (a : State ℕ) (r : (NapiStatus × List (Option ℕ)) × State ℕ),
      run step { valueLimit := 2 } fullAgent = some a ∧
      Entry.call a true makesSix (.minting .createObject) = some r ∧ r.1 = (.ok, [some 8192]) ∧
      Usable (.minting .createObject) makesSix r := by
  have husable := usable_iff
    (show run step ({ valueLimit := 2 } : State ℕ) fullAgent = some _ from rfl)
    (show Entry.call _ true makesSix (.minting .createObject) = some _ from rfl)
  refine ⟨_, _, rfl, rfl, rfl, husable.mpr (Or.inr ?_)⟩
  exact forall_some_pair.mpr (by decide)

end WasmerNapi.Agent
