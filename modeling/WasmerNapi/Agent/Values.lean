import WasmerNapi.Bridge.Basic

/-!
# Value ids of an agent

`src/src/napi_bridge_init.cc`: a guest names a value by a `u32` that holds the index of a
slot and the slot's *generation*, and a slot belongs to the scope frame its value was
minted into. Four places record who has a slot — the slot itself, the free stack, the
frame's list, the live count — and a frame's list is a recycled buffer. `Tabled` is the
invariant that ties them together, by one permutation: the free stack and the frames'
lists are all the slots, each once.

Stacks are written with their top first: `value_free_slots`, `scope_frames`, a frame's
`owned_slots`.
-/

namespace WasmerNapi.Agent

open Word

def kValueIdGenBits : ℕ := 12
def kValueIdGenMask : ℕ := 2 ^ kValueIdGenBits - 1
def kValueIdMaxSlots : ℕ := 2 ^ 20 - 1
def kMaxSpareFrames : ℕ := 8
def kMaxSpareCapacity : ℕ := 256

structure ValueSlot (ν : Type) where
  value : Option ν := none
  generation : ℕ := 0
  inUse : Bool := false

/-- A `std::vector<uint32_t>`, newest first. It doubles when it is full. -/
structure Buffer where
  items : List ℕ := []
  capacity : ℕ := 0

def Buffer.push (b : Buffer) (i : ℕ) : Buffer where
  items := i :: b.items
  capacity := if b.items.length = b.capacity then max 1 (2 * b.capacity) else b.capacity

/-- `ScopeFrame`. Scopes are the engine's pointers. `minted` is for the statements: the ids
    minted into the frame, with their values. -/
structure ScopeFrame (ν : Type) where
  scope : Option ℕ := none
  escScope : Option ℕ := none
  env : Bool := false
  ownedSlots : Buffer := {}
  id : ℕ := 0
  minted : List (ℕ × ν) := []

/-- Who has called guest code: `generic_wasm_callback`, with its `cbinfo_id`,
    `GuestFinalizerTrampoline` or `WasmInterruptCallback`. -/
inductive Caller where
  | callback (cbinfo : ℕ)
  | finalizer
  | interrupt
  deriving DecidableEq

/-- A guest call, with the scope opened for it, if the engine gave one. `depth` is for the
    statements: the number of frames below the call's own. -/
structure Call where
  caller : Caller
  scope : Option ℕ
  depth : ℕ
  deriving DecidableEq

/-- What the bridge asks of the engine about scopes. -/
inductive Event (ν : Type) where
  | opened (scope : ℕ)
  | closed (scope : ℕ)
  | refused (scope : ℕ)
  | escaped (scope : ℕ) (value : ν)

/-- `SnapiAgentState`, as far as values and scopes go, and the engine's stack of open
    scopes. `calls` are the guest calls in progress, on the host's own stack;
    `guest_calls` is their number. `log`, the scope events so far with the last one
    first, and `retired`, the ids minted into frames that have been popped since, are for
    the statements. -/
structure State (ν : Type) where
  valueSlots : List (ValueSlot ν) := []
  valueFreeSlots : List ℕ := []
  liveValueCount : ℕ := 0
  scopeFrames : List (ScopeFrame ν) := []
  nextScopeId : ℕ := 1
  spareOwnedSlots : List Buffer := []
  callbackInvocations : List (ℕ × ℕ) := []
  nextCallbackInvocationId : ℕ := 1
  valueLimit : ℕ := 0
  closing : Bool := false
  calls : List Call := []
  openScopes : List ℕ := []
  log : List (Event ν) := []
  retired : List ℕ := []

/-- `((index + 1) << kValueIdGenBits) | generation`, in 32 bits. -/
def valueId (index generation : ℕ) : ℕ :=
  truncate 32 ((index + 1) <<< kValueIdGenBits) ||| generation

namespace State

variable {ν : Type}

/-- `CurrentFrame`, up to the frame itself: the root frame comes with the first use. -/
def currentFrame (a : State ν) : State ν :=
  match a.scopeFrames with
  | [] => { a with scopeFrames := [{}] }
  | _ :: _ => a

/-- `PushScopeFrame`, with a popped frame's buffer if there is one. -/
def pushScopeFrame (a : State ν) (scope escScope : Option ℕ) (id : ℕ) : State ν :=
  let a := a.currentFrame
  match a.spareOwnedSlots with
  | [] => { a with scopeFrames := { scope, escScope, env := true, id } :: a.scopeFrames }
  | ownedSlots :: spare =>
    { a with
      scopeFrames := { scope, escScope, env := true, ownedSlots, id } :: a.scopeFrames
      spareOwnedSlots := spare }

/-- The end of `StoreValueInFrame`, for the slot `index` and the frame at `k`. -/
def mintAt (a : State ν) (val : ν) (index k : ℕ) : ℕ × State ν :=
  match a.valueSlots[index]? with
  | none => (0, a)
  | some slot =>
    let id := valueId index slot.generation
    (id,
      { a with
        valueSlots := a.valueSlots.set index { slot with value := some val, inUse := true }
        liveValueCount := a.liveValueCount + 1
        scopeFrames := a.scopeFrames.modify k fun frame =>
          { frame with
            ownedSlots := frame.ownedSlots.push index
            minted := (id, val) :: frame.minted } })

/-- `StoreValueInFrame`, for the frame at `k`. -/
def storeValueInFrame (a : State ν) (val : Option ν) (k : ℕ) : ℕ × State ν :=
  match val with
  | none => (0, a)
  | some val =>
    if a.valueLimit ≠ 0 ∧ a.valueLimit ≤ a.liveValueCount then (0, a)
    else
      match a.valueFreeSlots with
      | index :: free => { a with valueFreeSlots := free }.mintAt val index k
      | [] =>
        if kValueIdMaxSlots ≤ a.valueSlots.length then (0, a)
        else { a with valueSlots := a.valueSlots ++ [({} : ValueSlot ν)] }.mintAt val a.valueSlots.length k

/-- `StoreValue`. -/
def storeValue (a : State ν) (val : Option ν) : ℕ × State ν :=
  a.currentFrame.storeValueInFrame val 0

/-- `LoadValue`. -/
def loadValue (a : State ν) (id : ℕ) : Option ν :=
  if id = 0 then none
  else
    let indexPlusOne := id >>> kValueIdGenBits
    if indexPlusOne = 0 ∨ a.valueSlots.length < indexPlusOne then none
    else
      match a.valueSlots[indexPlusOne - 1]? with
      | none => none
      | some slot =>
        if !slot.inUse || slot.generation ≠ id &&& kValueIdGenMask then none else slot.value

/-- `FreeValueSlot`. -/
def freeValueSlot (a : State ν) (index : ℕ) : State ν :=
  match a.valueSlots[index]? with
  | none => a
  | some slot =>
    if !slot.inUse then a
    else
      { a with
        valueSlots := a.valueSlots.set index
          { value := none, generation := (slot.generation + 1) &&& kValueIdGenMask, inUse := false }
        valueFreeSlots := index :: a.valueFreeSlots
        liveValueCount := a.liveValueCount - 1 }

/-- `FreeValueSlot` for every slot of a frame, oldest first. -/
def freeAll (a : State ν) (items : List ℕ) : State ν :=
  items.foldr (fun index a => a.freeValueSlot index) a

def logged (a : State ν) (event : Event ν) : State ν := { a with log := event :: a.log }

/-- `napi_open_handle_scope` or its escapable twin, when it succeeds. -/
def openNapiScope (a : State ν) (scope : ℕ) : State ν :=
  { a with openScopes := scope :: a.openScopes }.logged (.opened scope)

/-- `napi_close_handle_scope` and its twin: only from the top of the engine's stack. -/
def closeNapiScope (a : State ν) (scope : ℕ) : State ν :=
  if a.openScopes.head? = some scope then
    { a with openScopes := a.openScopes.tail }.logged (.closed scope)
  else a.logged (.refused scope)

/-- The frame's buffer after its slots are freed: a small one is kept for the next frame. -/
def keepBuffer (a : State ν) (buffer : Buffer) : State ν :=
  if a.spareOwnedSlots.length < kMaxSpareFrames ∧ buffer.capacity ≠ 0 ∧
      buffer.capacity ≤ kMaxSpareCapacity then
    { a with spareOwnedSlots := { buffer with items := [] } :: a.spareOwnedSlots }
  else a

/-- `PopCurrentFrame`, with `close_napi_scope`. -/
def popCurrentFrame (a : State ν) : State ν :=
  match a.scopeFrames with
  | [] => a
  | frame :: frames =>
    let popped :=
      { a with scopeFrames := frames, retired := frame.minted.map Prod.fst ++ a.retired }
    let freed := popped.freeAll frame.ownedSlots.items
    let kept := freed.keepBuffer frame.ownedSlots
    if frame.env then
      match frame.escScope, frame.scope with
      | some scope, _ => kept.closeNapiScope scope
      | none, some scope => kept.closeNapiScope scope
      | none, none => kept
    else kept

end State

/-! ## Ids -/

/-- The slot an id names. -/
def slotOf (id : ℕ) : ℕ := id / 2 ^ 12 - 1

variable {index generation : ℕ}

theorem valueId_eq (hi : index < kValueIdMaxSlots) (hg : generation < 2 ^ 12) :
    valueId index generation = (index + 1) * 2 ^ 12 + generation := by
  unfold valueId truncate kValueIdGenBits
  have hfit : (index + 1) <<< 12 < 2 ^ 32 := by
    rw [Nat.shiftLeft_eq]
    unfold kValueIdMaxSlots at hi
    omega
  rw [Nat.mod_eq_of_lt hfit, ← Nat.shiftLeft_add_eq_or_of_lt hg, Nat.shiftLeft_eq]

theorem valueId_bounds (hi : index < kValueIdMaxSlots) (hg : generation < 2 ^ 12) :
    0 < valueId index generation ∧ valueId index generation < 2 ^ 32 := by
  rw [valueId_eq hi hg]
  unfold kValueIdMaxSlots at hi
  omega

theorem valueId_div (hi : index < kValueIdMaxSlots) (hg : generation < 2 ^ 12) :
    valueId index generation >>> kValueIdGenBits = index + 1 := by
  rw [valueId_eq hi hg, Nat.shiftRight_eq_div_pow]
  unfold kValueIdGenBits
  omega

theorem valueId_and (hi : index < kValueIdMaxSlots) (hg : generation < 2 ^ 12) :
    valueId index generation &&& kValueIdGenMask = generation := by
  unfold kValueIdGenMask kValueIdGenBits
  rw [valueId_eq hi hg, Nat.and_two_pow_sub_one_eq_mod]
  omega

theorem slotOf_valueId (hi : index < kValueIdMaxSlots) (hg : generation < 2 ^ 12) :
    slotOf (valueId index generation) = index := by
  unfold slotOf
  rw [valueId_eq hi hg]
  omega

theorem next_generation :
    (generation + 1) &&& kValueIdGenMask = (generation + 1) % 2 ^ 12 :=
  Nat.and_two_pow_sub_one_eq_mod _ 12

/-! ## The table -/

section

variable {ν : Type}

/-- The slots of a stack of frames. -/
def ownedBy (frames : List (ScopeFrame ν)) : List ℕ := frames.flatMap fun f => f.ownedSlots.items

/-- **The table invariant.** `reserved` are slots on their way from the free stack to a
    frame, `pending` the slots of a frame that is being popped: both are empty between
    operations. -/
structure Tabled (reserved pending : List ℕ) (a : State ν) : Prop where
  slots : (reserved ++ a.valueFreeSlots ++ (pending ++ ownedBy a.scopeFrames)).Perm
    (List.range a.valueSlots.length)
  inUse : ∀ i slot, a.valueSlots[i]? = some slot →
    (slot.inUse = true ↔ i ∈ pending ++ ownedBy a.scopeFrames)
  generation : ∀ slot ∈ a.valueSlots, slot.generation < 2 ^ 12
  live : a.liveValueCount = (pending ++ ownedBy a.scopeFrames).length
  limit : a.valueLimit ≠ 0 → a.liveValueCount ≤ a.valueLimit
  size : a.valueSlots.length ≤ kValueIdMaxSlots
  minted : ∀ f ∈ a.scopeFrames, f.ownedSlots.items = f.minted.map fun m => slotOf m.1
  loads : ∀ f ∈ a.scopeFrames, ∀ m ∈ f.minted, ∃ slot, a.valueSlots[slotOf m.1]? = some slot ∧
    slot.value = some m.2 ∧ m.1 = valueId (slotOf m.1) slot.generation
  spare : ∀ b ∈ a.spareOwnedSlots, b.items = []

variable {a : State ν} {reserved pending pending' : List ℕ} {i k : ℕ}

theorem Tabled.perm_pending (h : Tabled reserved pending a) (hp : pending.Perm pending') :
    Tabled reserved pending' a where
  slots := ((hp.symm.append_right _).append_left _).trans h.slots
  inUse := fun i slot hs => (h.inUse i slot hs).trans (hp.append_right _).mem_iff
  generation := h.generation
  live := h.live.trans (hp.append_right _).length_eq
  limit := h.limit
  size := h.size
  minted := h.minted
  loads := h.loads
  spare := h.spare

/-- Only these fields matter. -/
theorem Tabled.congr {b : State ν} (h : Tabled reserved pending a)
    (hslots : b.valueSlots = a.valueSlots) (hfree : b.valueFreeSlots = a.valueFreeSlots)
    (hlive : b.liveValueCount = a.liveValueCount) (hframes : b.scopeFrames = a.scopeFrames)
    (hspare : b.spareOwnedSlots = a.spareOwnedSlots) (hlimit : b.valueLimit = a.valueLimit) :
    Tabled reserved pending b := by
  obtain ⟨h₁, h₂, h₃, h₄, h₅, h₆, h₇, h₈, h₉⟩ := h
  constructor <;> simp only [hslots, hfree, hlive, hframes, hspare, hlimit] <;> assumption

theorem Tabled.nodup (h : Tabled reserved pending a) :
    (reserved ++ a.valueFreeSlots ++ (pending ++ ownedBy a.scopeFrames)).Nodup :=
  h.slots.nodup_iff.mpr List.nodup_range

theorem Tabled.lt (h : Tabled reserved pending a)
    (hi : i ∈ reserved ++ a.valueFreeSlots ++ (pending ++ ownedBy a.scopeFrames)) :
    i < a.valueSlots.length :=
  List.mem_range.mp (h.slots.mem_iff.mp hi)

/-- A slot of the table, by its number. -/
theorem Tabled.slot (h : Tabled reserved pending a)
    (hi : i ∈ reserved ++ a.valueFreeSlots ++ (pending ++ ownedBy a.scopeFrames)) :
    ∃ slot, a.valueSlots[i]? = some slot ∧ slot.generation < 2 ^ 12 := by
  refine ⟨_, List.getElem?_eq_getElem (h.lt hi), h.generation _ (List.getElem_mem _)⟩

variable {frames : List (ScopeFrame ν)}

theorem mem_ownedBy :
    i ∈ ownedBy frames ↔ ∃ f ∈ frames, i ∈ f.ownedSlots.items := List.mem_flatMap

/-- The ids of an open frame have their slots in the table. -/
theorem Tabled.slotOf_mem (h : Tabled reserved pending a) {f : ScopeFrame ν}
    (hf : f ∈ a.scopeFrames) {m : ℕ × ν} (hm : m ∈ f.minted) :
    slotOf m.1 ∈ ownedBy a.scopeFrames := by
  refine mem_ownedBy.mpr ⟨f, hf, ?_⟩
  rw [h.minted f hf]
  exact List.mem_map_of_mem hm

/-! ### Freeing -/

theorem Tabled.freeValueSlot (h : Tabled reserved (i :: pending) a) :
    Tabled reserved pending (a.freeValueSlot i) := by
  have hmem : i ∈ reserved ++ a.valueFreeSlots ++ (i :: pending ++ ownedBy a.scopeFrames) :=
    List.mem_append_right _ (List.mem_cons_self ..)
  obtain ⟨slot, hslot, hgen⟩ := h.slot hmem
  have huse : slot.inUse = true := (h.inUse i slot hslot).mpr (List.mem_cons_self ..)
  have hnot : i ∉ pending ++ ownedBy a.scopeFrames :=
    (List.nodup_cons.mp (List.nodup_append.mp h.nodup).2.1).1
  unfold State.freeValueSlot
  rw [hslot]
  simp only [huse, Bool.not_true, Bool.false_eq_true, if_false]
  refine ⟨?_, ?_, ?_, ?_, ?_, ?_, h.minted, ?_, h.spare⟩
  · rw [List.length_set]
    refine List.Perm.trans ?_ h.slots
    simp only [List.append_assoc, List.cons_append]
    exact (List.perm_middle.symm).append_left reserved
  · intro j slot' hj
    by_cases hji : j = i
    · subst hji
      rw [List.getElem?_set_self (h.lt hmem)] at hj
      cases hj
      simp only [Bool.false_eq_true, false_iff]
      exact hnot
    · rw [List.getElem?_set_ne (Ne.symm hji)] at hj
      rw [h.inUse j slot' hj, List.cons_append, List.mem_cons]
      exact or_iff_right hji
  · intro slot' hs
    rcases List.mem_or_eq_of_mem_set hs with hs | rfl
    · exact h.generation slot' hs
    · rw [next_generation]
      exact Nat.mod_lt _ (Nat.two_pow_pos 12)
  · show a.liveValueCount - 1 = _
    rw [h.live]
    rfl
  · intro hl
    exact le_trans (Nat.sub_le ..) (h.limit hl)
  · rw [List.length_set]
    exact h.size
  · intro f hf m hm
    have hne : i ≠ slotOf m.1 := fun heq =>
      hnot (heq ▸ List.mem_append_right _ (h.slotOf_mem hf hm))
    rw [List.getElem?_set_ne hne]
    exact h.loads f hf m hm

/-- Freeing all slots of a popped frame. -/
theorem Tabled.freeAll (items : List ℕ) : ∀ {pending : List ℕ},
    Tabled reserved (items ++ pending) a →
      Tabled reserved pending (a.freeAll items) := by
  induction items with
  | nil =>
    intro pending h
    exact h
  | cons i items ih =>
    intro pending h
    have hih : Tabled reserved (i :: pending) (a.freeAll items) :=
      ih (h.perm_pending List.perm_middle.symm)
    exact hih.freeValueSlot

/-- Freeing touches the slots and nothing else. -/
theorem freeValueSlot_eq (a : State ν) (i : ℕ) : ∃ slots free live,
    a.freeValueSlot i =
      { a with valueSlots := slots, valueFreeSlots := free, liveValueCount := live } := by
  unfold State.freeValueSlot
  split
  · exact ⟨_, _, _, rfl⟩
  · split
    · exact ⟨_, _, _, rfl⟩
    · exact ⟨_, _, _, rfl⟩

theorem freeAll_eq (items : List ℕ) (a : State ν) : ∃ slots free live,
    a.freeAll items =
      { a with valueSlots := slots, valueFreeSlots := free, liveValueCount := live } := by
  induction items with
  | nil => exact ⟨_, _, _, rfl⟩
  | cons i items ih =>
    obtain ⟨slots, free, live, heq⟩ := ih
    obtain ⟨slots', free', live', heq'⟩ := freeValueSlot_eq (a.freeAll items) i
    refine ⟨slots', free', live', ?_⟩
    show (a.freeAll items).freeValueSlot i = _
    rw [heq', heq]

/-! ### Frames -/

/-- The scope a frame was pushed for. -/
def ScopeFrame.napiScope (frame : ScopeFrame ν) : Option ℕ :=
  if frame.env then frame.escScope.or frame.scope else none

/-- The engine's part of a pop. -/
def State.closeFrame (a : State ν) (frame : ScopeFrame ν) : State ν :=
  match frame.napiScope with
  | none => a
  | some scope => a.closeNapiScope scope

variable {frame : ScopeFrame ν}

/-- A pop takes the frame off, frees its slots and closes its scope. -/
theorem popCurrentFrame_eq (hframes : a.scopeFrames = frame :: frames) :
    a.popCurrentFrame =
      (({ a with
          scopeFrames := frames
          retired := frame.minted.map Prod.fst ++ a.retired }.freeAll
            frame.ownedSlots.items).keepBuffer frame.ownedSlots).closeFrame frame := by
  unfold State.popCurrentFrame State.closeFrame ScopeFrame.napiScope
  rw [hframes]
  dsimp only
  cases frame.env with
  | false => rfl
  | true =>
    cases frame.escScope with
    | some scope => rfl
    | none =>
      cases frame.scope with
      | some scope => rfl
      | none => rfl

/-- What is left of the rest of the state. -/
theorem popCurrentFrame_frame (hframes : a.scopeFrames = frame :: frames) :
    ∃ slots free live retired spare,
    a.popCurrentFrame = State.closeFrame
      { a with
        scopeFrames := frames, valueSlots := slots, valueFreeSlots := free
        liveValueCount := live, retired, spareOwnedSlots := spare } frame := by
  rw [popCurrentFrame_eq hframes]
  obtain ⟨slots, free, live, heq⟩ := freeAll_eq frame.ownedSlots.items
    { a with scopeFrames := frames, retired := frame.minted.map Prod.fst ++ a.retired }
  rw [heq]
  unfold State.keepBuffer
  split
  · exact ⟨slots, free, live, _, _, rfl⟩
  · exact ⟨slots, free, live, _, _, rfl⟩

theorem scopeFrames_closeFrame (a : State ν) (frame : ScopeFrame ν) :
    (a.closeFrame frame).scopeFrames = a.scopeFrames := by
  unfold State.closeFrame State.closeNapiScope
  split
  · rfl
  · split <;> rfl

theorem scopeFrames_popCurrentFrame (a : State ν) :
    a.popCurrentFrame.scopeFrames = a.scopeFrames.tail := by
  cases hframes : a.scopeFrames with
  | nil =>
    unfold State.popCurrentFrame
    rw [hframes]
    exact hframes
  | cons frame frames =>
    obtain ⟨slots, free, live, retired, spare, heq⟩ := popCurrentFrame_frame hframes
    rw [heq, scopeFrames_closeFrame]
    rfl

theorem Tabled.closeNapiScope (h : Tabled reserved pending a) (scope : ℕ) :
    Tabled reserved pending (a.closeNapiScope scope) := by
  unfold State.closeNapiScope
  split
  · exact h.congr rfl rfl rfl rfl rfl rfl
  · exact h.congr rfl rfl rfl rfl rfl rfl

theorem Tabled.keepBuffer (h : Tabled reserved pending a) (buffer : Buffer) :
    Tabled reserved pending (a.keepBuffer buffer) := by
  unfold State.keepBuffer
  split
  · refine { h with spare := ?_ }
    intro b hb
    rcases List.mem_cons.mp hb with rfl | hb
    · rfl
    · exact h.spare b hb
  · exact h

/-- Popping a frame leaves its slots to be freed. -/
theorem Tabled.popped (h : Tabled [] [] a) (retired : List ℕ)
    (hframes : a.scopeFrames = frame :: frames) :
    Tabled [] (frame.ownedSlots.items ++ []) { a with scopeFrames := frames, retired } := by
  obtain ⟨hslots, huse, hgen, hlive, hlimit, hsize, hminted, hloads, hspare⟩ := h
  rw [hframes] at hslots huse hlive hminted hloads
  rw [List.append_nil]
  exact ⟨hslots, huse, hgen, hlive, hlimit, hsize,
    fun f hf => hminted f (List.mem_cons_of_mem _ hf),
    fun f hf => hloads f (List.mem_cons_of_mem _ hf), hspare⟩

theorem Tabled.popCurrentFrame (h : Tabled [] [] a) : Tabled [] [] a.popCurrentFrame := by
  cases hframes : a.scopeFrames with
  | nil =>
    unfold State.popCurrentFrame
    rw [hframes]
    exact h
  | cons frame frames =>
    have hfreed := Tabled.freeAll _ (h.popped (frame.minted.map Prod.fst ++ a.retired) hframes)
    rw [popCurrentFrame_eq hframes]
    unfold State.closeFrame
    split
    · exact hfreed.keepBuffer frame.ownedSlots
    · exact (hfreed.keepBuffer frame.ownedSlots).closeNapiScope _

theorem Tabled.currentFrame (h : Tabled reserved pending a) :
    Tabled reserved pending a.currentFrame := by
  unfold State.currentFrame
  split
  · rename_i hframes
    obtain ⟨hslots, huse, hgen, hlive, hlimit, hsize, hminted, hloads, hspare⟩ := h
    rw [hframes] at hslots huse hlive
    refine ⟨hslots, huse, hgen, hlive, hlimit, hsize, ?_, ?_, hspare⟩
    · intro f hf
      obtain rfl := List.mem_singleton.mp hf
      rfl
    · intro f hf m hm
      obtain rfl := List.mem_singleton.mp hf
      cases hm
  · exact h

/-- A new frame owns nothing: its buffer is empty, new or not. -/
theorem Tabled.push (h : Tabled reserved pending a) (hitems : frame.ownedSlots.items = [])
    (hminted : frame.minted = []) :
    Tabled reserved pending { a with scopeFrames := frame :: a.scopeFrames } := by
  have howned : ownedBy (frame :: a.scopeFrames) = ownedBy a.scopeFrames := by
    unfold ownedBy
    rw [List.flatMap_cons, hitems, List.nil_append]
  refine ⟨?_, ?_, h.generation, ?_, h.limit, h.size, ?_, ?_, h.spare⟩
  · rw [howned]
    exact h.slots
  · rw [howned]
    exact h.inUse
  · rw [howned]
    exact h.live
  · intro f hf
    rcases List.mem_cons.mp hf with rfl | hf
    · rw [hitems, hminted]
      rfl
    · exact h.minted f hf
  · intro f hf m hm
    rcases List.mem_cons.mp hf with rfl | hf
    · rw [hminted] at hm
      cases hm
    · exact h.loads f hf m hm

theorem Tabled.pushScopeFrame (h : Tabled reserved pending a) (scope escScope : Option ℕ)
    (id : ℕ) : Tabled reserved pending (a.pushScopeFrame scope escScope id) := by
  have hroot := h.currentFrame
  unfold State.pushScopeFrame
  dsimp only
  split
  · exact hroot.push rfl rfl
  · rename_i buffer spare hspare
    have hempty : buffer.items = [] := hroot.spare buffer (by rw [hspare]; exact List.mem_cons_self ..)
    have hpushed : Tabled reserved pending { a.currentFrame with spareOwnedSlots := spare } :=
      { hroot with spare := fun b hb => hroot.spare b (by rw [hspare]; exact List.mem_cons_of_mem _ hb) }
    exact hpushed.push hempty rfl

/-! ### Minting -/

/-- One more slot for the frame at `k`. -/
theorem ownedBy_modify (hk : k < frames.length) {f : ScopeFrame ν → ScopeFrame ν}
    (hf : ∀ frame, (f frame).ownedSlots.items = i :: frame.ownedSlots.items) :
    (ownedBy (frames.modify k f)).Perm (i :: ownedBy frames) := by
  unfold ownedBy
  induction frames generalizing k with
  | nil => exact absurd hk (Nat.not_lt_zero _)
  | cons frame frames ih =>
    cases k with
    | zero =>
      rw [List.modify_zero_cons, List.flatMap_cons, List.flatMap_cons, hf]
      exact List.Perm.refl _
    | succ k =>
      rw [List.modify_succ_cons, List.flatMap_cons, List.flatMap_cons]
      exact ((ih (Nat.lt_of_succ_lt_succ hk)).append_left _).trans List.perm_middle

theorem mem_modify {α : Type} {l : List α} {f : α → α} {x : α} (h : x ∈ l.modify k f) :
    x ∈ l ∨ ∃ y ∈ l, x = f y := by
  obtain ⟨j, hj⟩ := List.mem_iff_getElem?.mp h
  rw [List.getElem?_modify] at hj
  obtain ⟨y, hy, rfl⟩ := Option.map_eq_some_iff.mp hj
  have hmem : y ∈ l := List.mem_iff_getElem?.mpr ⟨j, hy⟩
  split
  · exact Or.inr ⟨y, hmem, rfl⟩
  · exact Or.inl hmem

/-- The reserved slot goes to the frame at `k`. -/
theorem Tabled.mintAt (h : Tabled [i] [] a) (hk : k < a.scopeFrames.length)
    (hlimit : a.valueLimit ≠ 0 → a.liveValueCount < a.valueLimit) (val : ν) :
    Tabled [] [] (a.mintAt val i k).2 := by
  have hmem : i ∈ [i] ++ a.valueFreeSlots ++ ([] ++ ownedBy a.scopeFrames) := List.mem_cons_self ..
  obtain ⟨slot, hslot, hgen⟩ := h.slot hmem
  have hlt := h.lt hmem
  have hi : i < kValueIdMaxSlots := lt_of_lt_of_le hlt h.size
  have hnot : i ∉ ownedBy a.scopeFrames := fun hin =>
    (List.nodup_cons.mp h.nodup).1 (List.mem_append_right _ hin)
  unfold State.mintAt
  rw [hslot]
  dsimp only
  set frames := a.scopeFrames.modify k fun frame =>
    { frame with
      ownedSlots := frame.ownedSlots.push i
      minted := (valueId i slot.generation, val) :: frame.minted } with hframes
  have howned : (ownedBy frames).Perm (i :: ownedBy a.scopeFrames) := by
    rw [hframes]
    exact ownedBy_modify hk fun _ => rfl
  refine ⟨?_, ?_, ?_, ?_, ?_, ?_, ?_, ?_, h.spare⟩
  · rw [List.length_set]
    refine ((howned.append_left _).trans ?_).trans h.slots
    exact List.perm_middle
  · intro j slot' hj
    rw [List.nil_append, howned.mem_iff, List.mem_cons]
    by_cases hji : j = i
    · subst hji
      rw [List.getElem?_set_self hlt] at hj
      cases hj
      simp only [true_or]
    · rw [List.getElem?_set_ne (Ne.symm hji)] at hj
      rw [h.inUse j slot' hj, List.nil_append]
      exact (or_iff_right hji).symm
  · intro slot' hs
    rcases List.mem_or_eq_of_mem_set hs with hs | rfl
    · exact h.generation slot' hs
    · exact hgen
  · rw [List.nil_append, howned.length_eq, List.length_cons, h.live]
    rfl
  · intro hl
    exact hlimit hl
  · rw [List.length_set]
    exact h.size
  · intro f hf
    rcases mem_modify hf with hold | ⟨frame, hframe, rfl⟩
    · exact h.minted f hold
    · show i :: frame.ownedSlots.items = slotOf (valueId i slot.generation) :: _
      rw [h.minted frame hframe, slotOf_valueId hi hgen]
  · intro f hf m hm
    have hold : ∀ frame ∈ a.scopeFrames, ∀ m ∈ frame.minted, ∃ slot',
        (a.valueSlots.set i { slot with value := some val, inUse := true })[slotOf m.1]? =
          some slot' ∧ slot'.value = some m.2 ∧ m.1 = valueId (slotOf m.1) slot'.generation := by
      intro frame hframe m hm
      have hne : i ≠ slotOf m.1 := fun heq => hnot (heq ▸ h.slotOf_mem hframe hm)
      rw [List.getElem?_set_ne hne]
      exact h.loads frame hframe m hm
    rcases mem_modify hf with hframe | ⟨frame, hframe, rfl⟩
    · exact hold f hframe m hm
    · rcases List.mem_cons.mp hm with rfl | hm
      · rw [slotOf_valueId hi hgen, List.getElem?_set_self hlt]
        exact ⟨_, rfl, rfl, rfl⟩
      · exact hold frame hframe m hm

/-- No id can be minted: the agent is at its limit, or the table is full. -/
def Exhausted (a : State ν) : Prop :=
  (a.valueLimit ≠ 0 ∧ a.valueLimit ≤ a.liveValueCount) ∨
    (a.valueFreeSlots = [] ∧ kValueIdMaxSlots ≤ a.valueSlots.length)

/-- What a mint does: nothing, or it takes a slot that is off the free stack or new. -/
theorem storeValueInFrame_cases (a : State ν) (val : Option ν) (k : ℕ) :
    (a.storeValueInFrame val k = (0, a) ∧ (val = none ∨ Exhausted a)) ∨
      ∃ v index b, val = some v ∧ a.storeValueInFrame val k = State.mintAt b v index k ∧
        (a.valueLimit ≠ 0 → a.liveValueCount < a.valueLimit) ∧
        ((∃ free, a.valueFreeSlots = index :: free ∧ b = { a with valueFreeSlots := free }) ∨
          (a.valueFreeSlots = [] ∧ index = a.valueSlots.length ∧ index < kValueIdMaxSlots ∧
            b = { a with valueSlots := a.valueSlots ++ [({} : ValueSlot ν)] })) := by
  cases val with
  | none => exact Or.inl ⟨rfl, Or.inl rfl⟩
  | some v =>
    unfold State.storeValueInFrame
    dsimp only
    split
    · rename_i hlim
      exact Or.inl ⟨rfl, Or.inr (Or.inl hlim)⟩
    · rename_i hlim
      have hroom : a.valueLimit ≠ 0 → a.liveValueCount < a.valueLimit := by
        intro hl
        by_contra hge
        exact hlim ⟨hl, Nat.le_of_not_lt hge⟩
      split
      · rename_i index free hfree
        exact Or.inr ⟨v, index, _, rfl, rfl, hroom, Or.inl ⟨free, hfree, rfl⟩⟩
      · rename_i hfree
        split
        · rename_i hsize
          exact Or.inl ⟨rfl, Or.inr (Or.inr ⟨hfree, hsize⟩)⟩
        · rename_i hsize
          exact Or.inr ⟨v, _, _, rfl, rfl, hroom,
            Or.inr ⟨hfree, rfl, Nat.lt_of_not_le hsize, rfl⟩⟩

/-- The slot a mint takes is reserved for it. -/
theorem Tabled.reserve (h : Tabled [] [] a) {index : ℕ} {b : State ν}
    (hb : (∃ free, a.valueFreeSlots = index :: free ∧ b = { a with valueFreeSlots := free }) ∨
      (a.valueFreeSlots = [] ∧ index = a.valueSlots.length ∧ index < kValueIdMaxSlots ∧
        b = { a with valueSlots := a.valueSlots ++ [({} : ValueSlot ν)] })) :
    Tabled [index] [] b := by
  rcases hb with ⟨free, hfree, rfl⟩ | ⟨hfree, rfl, hsize, rfl⟩
  · refine { h with slots := ?_ }
    have hslots := h.slots
    rw [hfree] at hslots
    exact hslots
  · have hslots := h.slots
    rw [hfree] at hslots
    refine ⟨?_, ?_, ?_, h.live, h.limit, ?_, h.minted, ?_, h.spare⟩
    · rw [List.length_append, List.length_singleton, List.range_succ, hfree]
      exact (hslots.cons _).trans (List.perm_append_singleton _ _).symm
    · intro j slot hj
      by_cases hlt : j < a.valueSlots.length
      · rw [List.getElem?_append_left hlt] at hj
        exact h.inUse j slot hj
      · rw [List.getElem?_append_right (Nat.le_of_not_lt hlt)] at hj
        obtain rfl := List.mem_singleton.mp (List.mem_of_getElem? hj)
        exact ⟨fun hu => (nomatch hu), fun hin => absurd (h.lt (List.mem_append_right _ hin)) hlt⟩
    · intro slot hs
      rcases List.mem_append.mp hs with hs | hs
      · exact h.generation slot hs
      · obtain rfl := List.mem_singleton.mp hs
        exact Nat.two_pow_pos 12
    · rw [List.length_append, List.length_singleton]
      exact hsize
    · intro f hf m hm
      have hlt := h.lt (List.mem_append_right _ (h.slotOf_mem hf hm))
      rw [List.getElem?_append_left hlt]
      exact h.loads f hf m hm

theorem Tabled.storeValueInFrame (h : Tabled [] [] a) (hk : k < a.scopeFrames.length)
    (val : Option ν) : Tabled [] [] (a.storeValueInFrame val k).2 := by
  rcases storeValueInFrame_cases a val k with ⟨heq, -⟩ | ⟨v, index, b, -, heq, hroom, hb⟩
  · rw [heq]
    exact h
  · rw [heq]
    have hreserved := h.reserve hb
    rcases hb with ⟨free, -, rfl⟩ | ⟨-, -, -, rfl⟩
    · exact hreserved.mintAt hk hroom v
    · exact hreserved.mintAt hk hroom v

theorem currentFrame_ne_nil (a : State ν) : 0 < a.currentFrame.scopeFrames.length := by
  unfold State.currentFrame
  split
  · exact Nat.one_pos
  · rename_i hframes
    rw [hframes]
    exact Nat.succ_pos _

theorem Tabled.storeValue (h : Tabled [] [] a) (val : Option ν) :
    Tabled [] [] (a.storeValue val).2 :=
  h.currentFrame.storeValueInFrame (currentFrame_ne_nil a) val

/-! ### Loading -/

/-- The id of a slot in use loads its value. -/
theorem loadValue_valueId (h : Tabled [] [] a) {slot : ValueSlot ν}
    (hslot : a.valueSlots[i]? = some slot) :
    a.loadValue (valueId i slot.generation) = if slot.inUse then slot.value else none := by
  have hlt : i < a.valueSlots.length := (List.getElem?_eq_some_iff.mp hslot).1
  have hi : i < kValueIdMaxSlots := lt_of_lt_of_le hlt h.size
  have hgen := h.generation slot (List.mem_of_getElem? hslot)
  unfold State.loadValue
  rw [if_neg (valueId_bounds hi hgen).1.ne', valueId_div hi hgen, valueId_and hi hgen]
  dsimp only
  rw [if_neg (by omega), Nat.add_sub_cancel, hslot]
  cases huse : slot.inUse <;> simp [huse]

/-- **Ids of open frames** are words, not zero, and load what was stored. -/
theorem Tabled.load_minted (h : Tabled [] [] a) {f : ScopeFrame ν} (hf : f ∈ a.scopeFrames)
    {m : ℕ × ν} (hm : m ∈ f.minted) :
    0 < m.1 ∧ m.1 < 2 ^ 32 ∧ a.loadValue m.1 = some m.2 := by
  have howned := h.slotOf_mem hf hm
  obtain ⟨slot, hslot, hvalue, hid⟩ := h.loads f hf m hm
  have huse : slot.inUse = true := (h.inUse _ slot hslot).mpr howned
  have hlt : slotOf m.1 < a.valueSlots.length := (List.getElem?_eq_some_iff.mp hslot).1
  have hbounds := valueId_bounds (lt_of_lt_of_le hlt h.size)
    (h.generation slot (List.mem_of_getElem? hslot))
  rw [← hid] at hbounds
  refine ⟨hbounds.1, hbounds.2, ?_⟩
  rw [hid, loadValue_valueId h hslot, huse, hvalue]
  rfl

end

end WasmerNapi.Agent
