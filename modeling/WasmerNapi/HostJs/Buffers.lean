import WasmerNapi.Lib.Run
import WasmerNapi.Lib.Table
import WasmerNapi.Lib.Vec

/-!
# Host-JS buffers: the guest's copies of JavaScript memory

Native code runs in a WebAssembly memory of its own and cannot see the bytes of an `ArrayBuffer`.
So a call that hands out a data pointer copies the bytes into a block of guest memory, and the
mapping is remembered three times: under the env and the handle (`guest_data_ptrs`), under the env
and the token of the backing store (`guest_data_backing_stores`), and in the list of copies that
are written back before JavaScript runs and read again before the guest does.

Which bytes a script writes, which handles it binds and which buffers it resizes is not known
here: a `script` step puts any heap in the place of the one there was.
-/

namespace WasmerNapi.HostJs.Buffers

open Function (update)

/-! ## JavaScript's side -/

/-- An `ArrayBuffer`, or a view of one with a fixed or a tracked length. -/
inductive Shape where
  | buffer
  | fixed (byteOffset byteLength : ℕ)
  | tracking (byteOffset elementSize : ℕ)
  deriving DecidableEq, Repr

/-- `byteOffset`, in a buffer of `length` bytes; a view that is out of bounds has none. -/
def Shape.byteOffset (length : ℕ) : Shape → ℕ
  | .buffer => 0
  | .fixed o n => if o + n ≤ length then o else 0
  | .tracking o _ => if o ≤ length then o else 0

def Shape.byteLength (length : ℕ) : Shape → ℕ
  | .buffer => length
  | .fixed o n => if o + n ≤ length then n else 0
  | .tracking o size => if o ≤ length then (length - o) / size * size else 0

/-- A value that has bytes, and whose they are. -/
structure Value where
  store : ℕ
  shape : Shape
  deriving DecidableEq, Repr

/-- What scripts change. Handles and references are an env's own. -/
structure Heap where
  length : ℕ → ℕ := fun _ => 0
  content : ℕ → ℕ → UInt8 := fun _ _ => 0
  values : ℕ → ℕ → Option Value := fun _ _ => none
  references : ℕ → ℕ → Option Value := fun _ _ => none

def Heap.byteOffset (h : Heap) (v : Value) : ℕ := v.shape.byteOffset (h.length v.store)

def Heap.byteLength (h : Heap) (v : Value) : ℕ := v.shape.byteLength (h.length v.store)

/-! ## The guest's side -/

structure HostBufferCopy where
  ownerId : ℕ
  guestEnv : ℕ
  handleId : ℕ
  hostReferenceId : ℕ
  backingStoreToken : ℕ
  guestPtr : ℕ
  byteLen : ℕ
  guestAllocationRecyclable : Bool
  persistent : Bool
  referenceHolds : ℕ
  needsFlush : Bool
  -- Not in the source: the buffer the bytes are of, and where in it they start.
  store : ℕ
  start : ℕ
  deriving DecidableEq, Repr

structure HostBufferLease where
  guestPtr : ℕ
  byteOffset : ℕ
  byteLen : ℕ
  writable : Bool
  hostReferenceId : ℕ
  deriving DecidableEq, Repr

structure GuestBackingStoreMapping where
  guestPtr : ℕ
  byteLen : ℕ
  deriving DecidableEq, Repr

structure GuestBufferFinalizer where
  handleId : ℕ
  guestPtr : ℕ
  recyclable : Bool
  deriving DecidableEq, Repr

/-- What an info call told native code. -/
structure Answer where
  env : ℕ
  value : Value
  byteOffset : ℕ
  byteLen : ℕ
  ptr : ℕ
  deriving DecidableEq, Repr

structure State where
  heap : Heap := {}
  memory : ℕ → UInt8 := fun _ => 0
  /-- The buffers that are the guest's memory itself, and not JavaScript's. -/
  guestMemory : ℕ → Bool := fun _ => false
  backingStoreIds : ℕ → ℕ → Option ℕ := fun _ _ => none
  nextBackingStoreId : ℕ → ℕ := fun _ => 1
  guestBufferFinalizers : ℕ → List GuestBufferFinalizer := fun _ => []
  guestDataPtrs : ℕ → ℕ → Option ℕ := fun _ _ => none
  guestDataBackingStores : ℕ → ℕ → Option GuestBackingStoreMapping := fun _ _ => none
  hostBufferCopies : List HostBufferCopy := []
  /-- Innermost first. -/
  hostBufferCopyFrames : List ℕ := []
  hostBufferHandleScopes : List (ℕ × ℕ × ℕ) := []
  nextHostBufferOwnerId : ℕ := 1
  hostBufferReferenceHolds : ℕ → ℕ → Option ℕ := fun _ _ => none
  guestBufferCapacities : ℕ → Option ℕ := fun _ => none
  guestBufferPool : List (ℕ × ℕ) := []
  hostBufferLeases : AList fun _ : ℕ × ℕ => HostBufferLease := ∅
  nextBufferLeaseId : ℕ := 1
  /-- JavaScript runs, and not the guest. -/
  scripting : Bool := true
  /-- What the last step answered, if it was asked. -/
  answered : Option Answer := none

/-- A table with one entry changed. -/
def set₂ {α : Type} (f : ℕ → ℕ → α) (i j : ℕ) (a : α) : ℕ → ℕ → α :=
  update f i (update (f i) j a)

/-! ### Bytes -/

def State.readStore (s : State) (store i : ℕ) : UInt8 :=
  if s.guestMemory store = true then s.memory i else s.heap.content store i

/-- `n` addresses from `at₀` on, taken from `bytes`. -/
def overwrite (f : ℕ → UInt8) (at₀ n : ℕ) (bytes : ℕ → UInt8) : ℕ → UInt8 :=
  fun a => if at₀ ≤ a ∧ a < at₀ + n then bytes (a - at₀) else f a

def State.writeStore (s : State) (store at₀ n : ℕ) (bytes : ℕ → UInt8) : State :=
  if s.guestMemory store = true then { s with memory := overwrite s.memory at₀ n bytes }
  else { s with
    heap := { s.heap with
      content := update s.heap.content store
        (overwrite (s.heap.content store) at₀ n bytes) } }

def State.writeGuest (s : State) (ptr n : ℕ) (bytes : ℕ → UInt8) : State :=
  { s with memory := overwrite s.memory ptr n bytes }

/-! ### Blocks of guest memory -/

/-- The first of the smallest blocks in the pool that are large enough. -/
def bestFit (required : ℕ) (pool : List (ℕ × ℕ)) : Option ℕ :=
  let fits := pool.zipIdx.filter fun b => decide (required ≤ b.1.2)
  (fits.argmin fun b => b.1.2).map Prod.snd

def requiredCapacity (byteLen : ℕ) : ℕ :=
  if 16 * 1024 * 1024 ≤ max byteLen 1 then max byteLen 1 else 2 ^ Nat.clog 2 (max byteLen 1)

/-- `malloc` is what the guest's allocator answers if it is asked. -/
def allocateGuestBuffer (s : State) (byteLen : ℕ) (malloc : Option ℕ) : Option (ℕ × State) :=
  match bestFit (requiredCapacity byteLen) s.guestBufferPool with
  | some index =>
    (s.guestBufferPool[index]?).map fun b =>
      (b.1, { s with
        guestBufferPool := Vec.swapRemove s.guestBufferPool index
        guestBufferCapacities := update s.guestBufferCapacities b.1 (some b.2) })
  | none =>
    if 2 ^ 32 ≤ requiredCapacity byteLen then none
    else malloc.map fun ptr =>
      (ptr, { s with
        guestBufferCapacities :=
          update s.guestBufferCapacities ptr (some (requiredCapacity byteLen)) })

def recycleGuestAllocation (s : State) (ptr : ℕ) : State :=
  match s.guestBufferCapacities ptr with
  | none => s
  | some capacity =>
    { s with
      guestBufferCapacities := update s.guestBufferCapacities ptr none
      guestBufferPool := s.guestBufferPool ++ [(ptr, capacity)] }

def forgetGuestAllocation (s : State) (ptr : ℕ) : State :=
  { s with guestBufferCapacities := update s.guestBufferCapacities ptr none }

/-! ### Tokens -/

def tokenMarker : ℕ := 2 ^ 63

/-- The marker, 31 bits that number the buffer and 32 bits of offset. -/
def packToken (bufferId byteOffset : ℕ) : ℕ :=
  tokenMarker + bufferId % 2 ^ 31 * 2 ^ 32 + byteOffset

/-- A number as the 32 bits it is cast to. -/
def asU32 (n : ℕ) : ℕ := min n (2 ^ 32 - 1)

/-- The token of a value. A buffer is numbered when it is first asked for. -/
def backingStoreToken (s : State) (env : ℕ) (v : Value) : ℕ × State :=
  match s.backingStoreIds env v.store with
  | some id => (packToken id (asU32 (s.heap.byteOffset v)), s)
  | none =>
    let id := max (s.nextBackingStoreId env) 1
    (packToken id (asU32 (s.heap.byteOffset v)),
      { s with
        backingStoreIds := set₂ s.backingStoreIds env v.store (some id)
        nextBackingStoreId :=
          update s.nextBackingStoreId env (max ((id + 1) % 2 ^ 32) 1) })

/-- Where the bytes of a token are, if a mapping of them is long enough: the mapping of the same
    place, or else the one of the whole buffer. Sizes are 32 bits wide. -/
def resolveGuestBackingStoreToken (s : State) (env token byteLen : ℕ) : Option ℕ :=
  let exact := (s.guestDataBackingStores env token).filter fun g => decide (byteLen ≤ g.byteLen)
  match exact with
  | some g => some g.guestPtr
  | none =>
    let byteOffset := token % 2 ^ 32
    match s.guestDataBackingStores env (token - byteOffset) with
    | none => none
    | some g =>
      if byteOffset + byteLen < 2 ^ 32 ∧ byteOffset + byteLen ≤ g.byteLen ∧
          g.guestPtr + byteOffset < 2 ^ 32 then
        some (g.guestPtr + byteOffset)
      else none

/-! ### Owners and the tables -/

/-- An id no frame and no scope has, looking from `id` on. There are fewer than `fuel` owners. -/
def freeOwner (used : List ℕ) : ℕ → ℕ → ℕ
  | 0, id => max id 1
  | fuel + 1, id =>
    if max id 1 ∈ used then freeOwner used fuel ((max id 1 + 1) % 2 ^ 64) else max id 1

def State.owners (s : State) : List ℕ :=
  s.hostBufferCopyFrames ++ s.hostBufferHandleScopes.map fun scope => scope.2.2

def nextHostBufferOwner (s : State) : ℕ × State :=
  let id := freeOwner s.owners s.owners.length s.nextHostBufferOwnerId
  (id, { s with nextHostBufferOwnerId := max ((id + 1) % 2 ^ 64) 1 })

/-- The innermost handle scope, or else the innermost frame. -/
def currentHostBufferOwner (s : State) : ℕ :=
  match s.hostBufferHandleScopes.getLast? with
  | some scope => scope.2.2
  | none => s.hostBufferCopyFrames.head?.getD 0

/-- The end of a mapping, as `saturating_add` has it. -/
def HostBufferCopy.stop (m : HostBufferCopy) : ℕ := min (m.guestPtr + m.byteLen) (2 ^ 32 - 1)

/-- A guest pointer that is into a mapping. -/
def HostBufferCopy.covers (m : HostBufferCopy) (env ptr : ℕ) : Bool :=
  m.guestEnv == env && decide (m.guestPtr ≤ ptr) && decide (ptr < m.stop)

/-- The value is a view of guest memory: its pointer is its own address. -/
def rememberGuestBackingStore (s : State) (env handle token ptr byteLen : ℕ) : State :=
  let byteOffset := token % 2 ^ 32
  let stores :=
    if byteOffset = ptr then
      set₂ s.guestDataBackingStores env (token - byteOffset) (some ⟨0, 2 ^ 32 - 1⟩)
    else s.guestDataBackingStores
  { s with
    guestDataPtrs := set₂ s.guestDataPtrs env handle (some ptr)
    guestDataBackingStores := set₂ stores env token (some ⟨ptr, byteLen⟩) }

/-- A reference to the value, under an id that the bridge chose. -/
def createReference (s : State) (env handle reference : ℕ) : State :=
  { s with
    heap := { s.heap with
      references := set₂ s.heap.references env reference (s.heap.values env handle) } }

def deleteReference (s : State) (env reference : ℕ) : State :=
  { s with heap := { s.heap with references := set₂ s.heap.references env reference none } }

/-- Enter a copy into the three tables. -/
def pushCopy (s : State) (m : HostBufferCopy) : State :=
  { s with
    guestDataPtrs := set₂ s.guestDataPtrs m.guestEnv m.handleId (some m.guestPtr)
    guestDataBackingStores :=
      set₂ s.guestDataBackingStores m.guestEnv m.backingStoreToken (some ⟨m.guestPtr, m.byteLen⟩)
    hostBufferCopies := s.hostBufferCopies ++ [m] }

/-! ### Data pointers -/

/-- The copy a pointer is into: one made for this handle, or else the first. -/
def State.copyAt (s : State) (env handle ptr : ℕ) : Option ℕ :=
  (s.hostBufferCopies.findIdx? fun m => m.covers env ptr && m.handleId == handle).or
    (s.hostBufferCopies.findIdx? fun m => m.covers env ptr)

def setNeedsFlush (needsFlush : Bool) (s : State) (index : ℕ) : State :=
  { s with
    hostBufferCopies :=
      s.hostBufferCopies.modify index fun m => { m with needsFlush := needsFlush } }

/-- Mark the copy a pointer is into as written, and tell whether its bytes are to be read again. -/
def prepareCachedGuestData (s : State) (env handle ptr : ℕ) : Bool × State :=
  match s.copyAt env handle ptr with
  | none => (false, s)
  | some index =>
    let refresh :=
      match s.hostBufferCopies[index]? with
      | none => false
      | some m => m.handleId != handle || m.ownerId != currentHostBufferOwner s
    (refresh, setNeedsFlush true s index)

/-- The bytes of a value, as the bridge copies them out. -/
def State.snapshot (s : State) (v : Value) : ℕ → UInt8 :=
  fun i => s.readStore v.store (s.heap.byteOffset v + i)

/-- A pointer that is known already: its bytes are brought up to date. -/
def refreshCached (s : State) (env handle : ℕ) (v : Value) (byteLen ptr : ℕ) : State :=
  let prepared := prepareCachedGuestData s env handle ptr
  if prepared.1 = true then prepared.2.writeGuest ptr byteLen (s.snapshot v) else prepared.2

/-- The copy that an info call makes of a value. -/
def pendingCopy (owner env handle reference token ptr byteLen : ℕ) (v : Value) (start : ℕ) :
    HostBufferCopy where
  ownerId := owner
  guestEnv := env
  handleId := handle
  hostReferenceId := reference
  backingStoreToken := token
  guestPtr := ptr
  byteLen := byteLen
  guestAllocationRecyclable := true
  persistent := false
  referenceHolds := 0
  needsFlush := true
  store := v.store
  start := start

/-- `host_addr` is null exactly when there are no bytes. -/
def resolveOrCopyHostDataToGuest (s : State) (env handle token : ℕ) (v : Value) (byteLen : ℕ)
    (malloc reference : Option ℕ) : Option ℕ × State :=
  match resolveGuestBackingStoreToken s env token byteLen with
  | some ptr => (some ptr, { s with guestDataPtrs := set₂ s.guestDataPtrs env handle (some ptr) })
  | none =>
    match s.guestDataPtrs env handle with
    | some ptr => (some ptr, s)
    | none =>
      if byteLen = 0 then (some 0, s)
      else match allocateGuestBuffer s byteLen malloc with
      | none => (none, s)
      | some (ptr, s₁) =>
        let s₂ := s₁.writeGuest ptr byteLen (s.snapshot v)
        match reference with
        | none => (none, forgetGuestAllocation s₂ ptr)
        | some id =>
          (some ptr, pushCopy (createReference s₂ env handle id)
            (pendingCopy (currentHostBufferOwner s) env handle id token ptr byteLen v
              (s.heap.byteOffset v)))

def resolveCurrentHostDataToGuest (s : State) (env handle token : ℕ) (v : Value) (byteLen : ℕ)
    (malloc reference : Option ℕ) : Option ℕ × State :=
  match resolveGuestBackingStoreToken s env token byteLen with
  | some ptr =>
    let s₁ := refreshCached s env handle v byteLen ptr
    (some ptr, { s₁ with guestDataPtrs := set₂ s₁.guestDataPtrs env handle (some ptr) })
  | none =>
    match s.guestDataPtrs env handle with
    | some ptr => (some ptr, refreshCached s env handle v byteLen ptr)
    | none =>
      if byteLen = 0 then (some 0, s)
      else resolveOrCopyHostDataToGuest s env handle token v byteLen malloc reference

/-- `remember_host_buffer_copy`: `registered` is whether the bridge takes a finalizer for a
    persistent copy. -/
def rememberHostBufferCopy (s : State) (m : HostBufferCopy) (reference : Option ℕ)
    (registered : Bool) : Bool × State :=
  match reference with
  | none => (false, s)
  | some id =>
    let s₁ := pushCopy (createReference s m.guestEnv m.handleId id)
      { m with ownerId := currentHostBufferOwner s, hostReferenceId := id, referenceHolds := 0 }
    if m.persistent = false then (true, s₁)
    else if registered = true then
      (true, { s₁ with
        guestBufferFinalizers := update s₁.guestBufferFinalizers m.guestEnv
          (s₁.guestBufferFinalizers m.guestEnv ++
            [⟨m.handleId, m.guestPtr, m.guestAllocationRecyclable⟩]) })
    else
      let s₂ := deleteReference { s₁ with hostBufferCopies := s₁.hostBufferCopies.dropLast }
        m.guestEnv id
      (false, { s₂ with
        guestDataPtrs := set₂ s₂.guestDataPtrs m.guestEnv m.handleId none
        guestDataBackingStores := set₂ s₂.guestDataBackingStores m.guestEnv m.backingStoreToken none })

def resolveCurrentHostValueToGuest (s : State) (env handle token : ℕ) (v : Value) (byteLen : ℕ)
    (malloc reference : Option ℕ) : Option ℕ × State :=
  match (resolveGuestBackingStoreToken s env token byteLen).or (s.guestDataPtrs env handle) with
  | some ptr =>
    let s₁ := refreshCached s env handle v byteLen ptr
    (some ptr, { s₁ with guestDataPtrs := set₂ s₁.guestDataPtrs env handle (some ptr) })
  | none =>
    if byteLen = 0 then (some 0, s)
    else match allocateGuestBuffer s byteLen malloc with
    | none => (none, s)
    | some (ptr, s₁) =>
      let remembered := rememberHostBufferCopy (s₁.writeGuest ptr byteLen (s.snapshot v))
        (pendingCopy 0 env handle 0 token ptr byteLen v (s.heap.byteOffset v)) reference true
      if remembered.1 = true then (some ptr, remembered.2)
      else (none, recycleGuestAllocation remembered.2 ptr)

/-! ### Crossing between the guest and JavaScript -/

/-- The value a copy was made of, if it is still there and has all of the bytes. -/
def State.referenced (s : State) (m : HostBufferCopy) : Option Value :=
  (s.heap.references m.guestEnv m.hostReferenceId).filter fun v =>
    decide (m.byteLen ≤ s.heap.byteLength v)

def copyMemoryBytesToReference (s : State) (m : HostBufferCopy) : Option State :=
  (s.referenced m).map fun v =>
    s.writeStore v.store (s.heap.byteOffset v) m.byteLen fun i => s.memory (m.guestPtr + i)

def copyReferenceBytesToMemory (s : State) (m : HostBufferCopy) : Option State :=
  (s.referenced m).map fun v => s.writeGuest m.guestPtr m.byteLen (s.snapshot v)

def publishCopy (s : State) (index : ℕ) : State :=
  match s.hostBufferCopies[index]? with
  | none => s
  | some m =>
    if m.needsFlush = false ∨ m.byteLen = 0 then s
    else match copyMemoryBytesToReference s m with
    | none => s
    | some s' => setNeedsFlush false s' index

def publishPendingHostBufferCopies (s : State) : State :=
  (List.range s.hostBufferCopies.length).foldl publishCopy s

def refreshCopy (s : State) (index : ℕ) : State :=
  match s.hostBufferCopies[index]? with
  | none => s
  | some m =>
    if m.needsFlush = true ∨ m.byteLen = 0 then s
    else match copyReferenceBytesToMemory s m with
    | none => s
    | some s' => setNeedsFlush true s' index

def refreshHostBufferCopies (s : State) : State :=
  (List.range s.hostBufferCopies.length).foldl refreshCopy s

/-- What the end of a mapping takes out of the tables, and its block. -/
def releaseCopy (s : State) (m : HostBufferCopy) : State :=
  let s₁ := if m.hostReferenceId = 0 then s else deleteReference s m.guestEnv m.hostReferenceId
  let s₂ := { s₁ with
    guestDataPtrs := fun env handle =>
      if env = m.guestEnv then
        (s₁.guestDataPtrs env handle).filter fun ptr =>
          handle != m.handleId && (decide (ptr < m.guestPtr) || decide (m.stop ≤ ptr))
      else s₁.guestDataPtrs env handle
    guestDataBackingStores := fun env token =>
      if env = m.guestEnv ∧ m.backingStoreToken ≠ 0 then
        (s₁.guestDataBackingStores env token).filter fun g =>
          decide (g.guestPtr < m.guestPtr) || decide (m.stop ≤ g.guestPtr)
      else s₁.guestDataBackingStores env token }
  if m.guestAllocationRecyclable = true then recycleGuestAllocation s₂ m.guestPtr
  else forgetGuestAllocation s₂ m.guestPtr

/-- One mapping of those taken out: its bytes go to JavaScript, and it is released unless it is
    held. -/
def flushCopy (flushed : State × List HostBufferCopy) (m : HostBufferCopy) :
    State × List HostBufferCopy :=
  let s := if m.needsFlush = true ∧ 0 < m.byteLen then
    (copyMemoryBytesToReference flushed.1 m).getD flushed.1 else flushed.1
  let written := if m.needsFlush = true ∧ 0 < m.byteLen then { m with needsFlush := false } else m
  if m.persistent = true ∨ 0 < m.referenceHolds then (s, flushed.2 ++ [written])
  else (releaseCopy s m, flushed.2)

def flushPendingHostBufferCopies (s : State) : State :=
  let flushed := s.hostBufferCopies.foldl flushCopy ({ s with hostBufferCopies := [] }, [])
  { flushed.1 with hostBufferCopies := flushed.2 }

def flushHostBufferCopiesForOwner (s : State) (owner : ℕ) : State :=
  let drained := s.hostBufferCopies.filter fun m => m.ownerId == owner
  let retained := s.hostBufferCopies.filter fun m => m.ownerId != owner
  let flushed := drained.foldl flushCopy ({ s with hostBufferCopies := [] }, [])
  { flushed.1 with hostBufferCopies := retained ++ flushed.2 }

/-- A frame ends. Only the outermost one releases what is pending. -/
def endFrame (s : State) (owner : ℕ) : State :=
  let s₁ := flushHostBufferCopiesForOwner
    { s with hostBufferCopyFrames := s.hostBufferCopyFrames.erase owner } owner
  if s₁.hostBufferCopyFrames = [] then flushPendingHostBufferCopies s₁
  else publishPendingHostBufferCopies s₁

def beginFrame (s : State) : State :=
  let owner := nextHostBufferOwner s
  { owner.2 with hostBufferCopyFrames := owner.1 :: owner.2.hostBufferCopyFrames }

/-- A turn of `drain_ready_guest_buffers`: the collector, or a forced drain, picked a record. -/
def drainReadyGuestBuffer (s : State) (env index : ℕ) : Option State :=
  ((s.guestBufferFinalizers env)[index]?).map fun record =>
    let s₁ := { s with
      guestBufferFinalizers := update s.guestBufferFinalizers env
        (Vec.swapRemove (s.guestBufferFinalizers env) index) }
    match s.hostBufferCopies.findIdx? (fun m => m.guestEnv == env && m.handleId == record.handleId &&
        m.guestPtr == record.guestPtr && m.persistent) with
    | none => s₁
    | some position =>
      match s.hostBufferCopies[position]? with
      | none => s₁
      | some m =>
        let s₂ := { s₁ with hostBufferCopies := s.hostBufferCopies.eraseIdx position }
        let s₃ := if m.hostReferenceId = 0 then s₂ else deleteReference s₂ env m.hostReferenceId
        let s₄ := { s₃ with
          guestDataPtrs := set₂ s₃.guestDataPtrs env record.handleId none
          guestDataBackingStores :=
            if m.backingStoreToken = 0 then s₃.guestDataBackingStores
            else set₂ s₃.guestDataBackingStores env m.backingStoreToken none }
        if record.recyclable = true then recycleGuestAllocation s₄ record.guestPtr else s₄

/-! ## Runs -/

inductive Act where
  /-- A script changes the heap, and guest memory through its views of it. -/
  | script (heap : Heap) (memory : ℕ → UInt8)
  /-- Native code stores a byte. -/
  | write (addr : ℕ) (byte : UInt8)
  /-- A native call binds a handle with no script run (`napi_get_reference_value`, and whatever
      else answers with a value), or frees one as its scope closes. `napi_detach_arraybuffer` has
      no act: it always fails. -/
  | bindHandle (env handle : ℕ) (value : Option Value)
  /-- `napi_get_arraybuffer_info` and `napi_get_typedarray_info`. -/
  | info (env handle : ℕ) (malloc reference : Option ℕ)
  | bufferInfo (env handle : ℕ) (malloc reference : Option ℕ)
  /-- `napi_create_arraybuffer` and `node_api_create_sharedarraybuffer`. -/
  | createArraybuffer (env out store len : ℕ) (malloc reference : Option ℕ) (registered : Bool)
  /-- `napi_create_external_arraybuffer` and `napi_create_external_buffer`. -/
  | createExternal (env out store ptr len : ℕ) (isView : Bool) (reference : Option ℕ)
      (registered : Bool)
  /-- `napi_create_buffer`, `napi_create_buffer_copy` and the guest-backed typed arrays: a view
      of guest memory. -/
  | createBuffer (env out store len : ℕ) (bytes : ℕ → UInt8) (malloc : Option ℕ)
  | createTypedarray (env out : ℕ) (value : Value)
  | createReference (env handle reference : ℕ)
  | deleteReference (env reference : ℕ)
  | openHandleScope (env scope : ℕ)
  | closeHandleScope (env scope : ℕ)
  | escapeHandle (env escapee out : ℕ)
  | acquireLease (env handle byteOffset byteLen : ℕ) (readable writable : Bool)
      (malloc reference : Option ℕ)
  | releaseLease (env lease : ℕ) (modified : Bool)
  | drain (env index : ℕ)
  | enterScript
  | leaveScript (owner : ℕ)
  | enterCallback
  | leaveCallback (owner : ℕ)

/-- An info call on a value: its size, its token and its data pointer. -/
def infoCall (resolve : State → ℕ → ℕ → ℕ → Value → ℕ → Option ℕ → Option ℕ → Option ℕ × State)
    (s : State) (env handle : ℕ) (malloc reference : Option ℕ) : State :=
  match s.heap.values env handle with
  | none => { s with answered := none }
  | some v =>
    let byteLen := asU32 (s.heap.byteLength v)
    let token := backingStoreToken s env v
    let resolved := resolve token.2 env handle token.1 v byteLen malloc reference
    { resolved.2 with
      answered := resolved.1.map fun ptr =>
        { env, value := v, byteOffset := s.heap.byteOffset v, byteLen, ptr } }

/-- A new buffer of JavaScript's, under a new handle. -/
def Heap.create (h : Heap) (env out store len : ℕ) (shape : Shape) (bytes : ℕ → UInt8) : Heap :=
  { h with
    length := update h.length store len
    content := update h.content store bytes
    values := set₂ h.values env out (some ⟨store, shape⟩) }

/-- The copy of a value that native code has created, with a block that is known. -/
def createdCopy (env handle token ptr len : ℕ) (recyclable : Bool) (v : Value) (start : ℕ) :
    HostBufferCopy where
  ownerId := 0
  guestEnv := env
  handleId := handle
  hostReferenceId := 0
  backingStoreToken := token
  guestPtr := ptr
  byteLen := len
  guestAllocationRecyclable := recyclable
  persistent := true
  referenceHolds := 0
  needsFlush := true
  store := v.store
  start := start

def rememberCreated (s : State) (env out ptr len : ℕ) (recyclable : Bool) (v : Value)
    (reference : Option ℕ) (registered : Bool) : Bool × State :=
  let token := backingStoreToken s env v
  rememberHostBufferCopy token.2
    (createdCopy env out token.1 ptr len recyclable v (s.heap.byteOffset v)) reference registered

def createArraybuffer (s : State) (env out store len : ℕ) (malloc reference : Option ℕ)
    (registered : Bool) : State :=
  match allocateGuestBuffer s len malloc with
  | none => s
  | some (ptr, s₁) =>
    let s₂ := s₁.writeGuest ptr len fun _ => 0
    let s₃ := { s₂ with heap := s₂.heap.create env out store len .buffer fun _ => 0 }
    let remembered := rememberCreated s₃ env out ptr len true ⟨store, .buffer⟩ reference registered
    if remembered.1 = true then remembered.2 else recycleGuestAllocation remembered.2 ptr

def createExternal (s : State) (env out store ptr len : ℕ) (isView : Bool) (reference : Option ℕ)
    (registered : Bool) : State :=
  let shape := if isView = true then .fixed 0 len else .buffer
  let s₁ := { s with
    heap := s.heap.create env out store len shape fun i => s.memory (ptr + i) }
  (rememberCreated s₁ env out ptr len false ⟨store, shape⟩ reference registered).2

def createBuffer (s : State) (env out store len : ℕ) (bytes : ℕ → UInt8) (malloc : Option ℕ) :
    State :=
  match allocateGuestBuffer s len malloc with
  | none => s
  | some (ptr, s₁) =>
    let v : Value := ⟨store, .fixed ptr len⟩
    let s₂ := s₁.writeGuest ptr len bytes
    -- A view past the end of memory is not made.
    if s.heap.length store < ptr + len then recycleGuestAllocation s₂ ptr
    else
      let s₃ := { s₂ with
        heap := { s₂.heap with values := set₂ s₂.heap.values env out (some v) } }
      let token := backingStoreToken s₃ env v
      rememberGuestBackingStore token.2 env out token.1 ptr len

/-- The engine's side alone: the tables of the guest's copies are not told. -/
def bindHandle (s : State) (env handle : ℕ) (value : Option Value) : State :=
  { s with heap := { s.heap with values := set₂ s.heap.values env handle value } }

/-- The view shares the copy of its buffer, if there is one. -/
def createTypedarray (s : State) (env out : ℕ) (v : Value) : State :=
  let s₁ := { s with heap := { s.heap with values := set₂ s.heap.values env out (some v) } }
  let token := backingStoreToken s₁ env v
  match resolveGuestBackingStoreToken token.2 env token.1 (asU32 (s.heap.byteLength v)) with
  | none => token.2
  | some ptr => { token.2 with guestDataPtrs := set₂ token.2.guestDataPtrs env out (some ptr) }

/-- `napi_create_reference`: the reference holds the first copy that the value's pointer is into. -/
def holdCopy (s : State) (env handle reference : ℕ) : State :=
  let s₁ := createReference s env handle reference
  match s.guestDataPtrs env handle with
  | none => s₁
  | some ptr =>
    match s.hostBufferCopies.findIdx? fun m => m.covers env ptr with
    | none => s₁
    | some index =>
      { s₁ with
        hostBufferCopies := s.hostBufferCopies.modify index fun m =>
          { m with referenceHolds := m.referenceHolds + 1 }
        hostBufferReferenceHolds := set₂ s.hostBufferReferenceHolds env reference
          ((s.hostBufferCopies[index]?).map HostBufferCopy.guestPtr) }

/-- `napi_delete_reference`. -/
def dropHold (s : State) (env reference : ℕ) : State :=
  let s₁ := deleteReference s env reference
  match s.hostBufferReferenceHolds env reference with
  | none => s₁
  | some ptr =>
    let s₂ := { s₁ with
      hostBufferReferenceHolds := set₂ s.hostBufferReferenceHolds env reference none }
    match s.hostBufferCopies.findIdx? fun m => m.guestEnv == env && m.guestPtr == ptr with
    | none => s₂
    | some index =>
      { s₂ with
        hostBufferCopies := s.hostBufferCopies.modify index fun m =>
          { m with referenceHolds := m.referenceHolds - 1 } }

def openHandleScope (s : State) (env scope : ℕ) : State :=
  let owner := nextHostBufferOwner s
  { owner.2 with
    hostBufferHandleScopes := owner.2.hostBufferHandleScopes ++ [(env, scope, owner.1)] }

/-- The last entry of a scope, and what is owned by it. -/
def closeHandleScope (s : State) (env scope : ℕ) : State :=
  match s.hostBufferHandleScopes.reverse.findIdx? fun entry => entry.1 == env && entry.2.1 == scope with
  | none => s
  | some back =>
    let index := s.hostBufferHandleScopes.length - 1 - back
    match s.hostBufferHandleScopes[index]? with
    | none => s
    | some entry =>
      flushHostBufferCopiesForOwner
        { s with hostBufferHandleScopes := s.hostBufferHandleScopes.eraseIdx index } entry.2.2

def escapeHandle (s : State) (env escapee out : ℕ) : State :=
  let s₁ := { s with
    heap := { s.heap with values := set₂ s.heap.values env out (s.heap.values env escapee) } }
  match s.guestDataPtrs env escapee with
  | none => s₁
  | some ptr => { s₁ with guestDataPtrs := set₂ s.guestDataPtrs env out (some ptr) }

/-- A lease has a block of its own, and is in none of the tables of copies. -/
def acquireLease (s : State) (env handle byteOffset byteLen : ℕ) (readable writable : Bool)
    (malloc reference : Option ℕ) : State :=
  match s.heap.values env handle with
  | none => s
  | some v =>
    if s.heap.byteLength v < byteOffset + byteLen then s
    else match allocateGuestBuffer s byteLen malloc with
    | none => s
    | some (guestPtr, s₁) =>
      let s₂ := if readable = true then
        s₁.writeGuest guestPtr byteLen fun i => s.snapshot v (byteOffset + i) else s₁
      match reference with
      | none => recycleGuestAllocation s₂ guestPtr
      | some hostReferenceId =>
        let lease := max s.nextBufferLeaseId 1
        let s₃ := createReference s₂ env handle hostReferenceId
        let s₄ := { s₃ with
          nextBufferLeaseId := max ((lease + 1) % 2 ^ 32) 1
          hostBufferLeases := s₃.hostBufferLeases.insert (env, lease)
            { guestPtr, byteOffset, byteLen, writable, hostReferenceId } }
        match s.hostBufferLeases.lookup (env, lease) with
        | none => s₄
        | some _ => recycleGuestAllocation (deleteReference s₄ env hostReferenceId) guestPtr

def releaseLease (s : State) (env lease : ℕ) (modified : Bool) : State :=
  match s.hostBufferLeases.lookup (env, lease) with
  | none => s
  | some l =>
    let s₁ := { s with hostBufferLeases := s.hostBufferLeases.erase (env, lease) }
    let s₂ := match (s₁.heap.references env l.hostReferenceId).filter fun v =>
        l.writable && modified && decide (l.byteOffset + l.byteLen ≤ s₁.heap.byteLength v) with
      | none => s₁
      | some v => s₁.writeStore v.store (s₁.heap.byteOffset v + l.byteOffset) l.byteLen fun i =>
          s₁.memory (l.guestPtr + i)
    recycleGuestAllocation (deleteReference s₂ env l.hostReferenceId) l.guestPtr

/-- `malloc` answers with a block of its own that does not reach the end of memory. -/
def mallocAnswers (s : State) (byteLen : ℕ) (malloc : Option ℕ) : Bool :=
  match malloc with
  | none => true
  | some ptr =>
    decide (0 < ptr ∧ ptr + requiredCapacity byteLen < 2 ^ 32) &&
      (s.guestBufferCapacities ptr).isNone && !(s.guestBufferPool.any fun b => b.1 == ptr)

/-- How many bytes an allocation of a step is for. -/
def Act.allocates (s : State) : Act → Option (ℕ × Option ℕ)
  | .info env handle malloc _ | .bufferInfo env handle malloc _ =>
    (s.heap.values env handle).map fun v => (asU32 (s.heap.byteLength v), malloc)
  | .createArraybuffer _ _ _ len malloc _ _ => some (len, malloc)
  | .createBuffer _ _ _ len _ malloc => some (len, malloc)
  | .acquireLease _ _ _ len _ _ malloc _ => some (len, malloc)
  | _ => none

def apply (s : State) : Act → Option State
  | .script heap memory => some { s with heap, memory }
  | .write addr byte => some { s with memory := update s.memory addr byte }
  | .bindHandle env handle value => some (bindHandle s env handle value)
  | .info env handle malloc reference =>
    some (infoCall resolveCurrentHostDataToGuest s env handle malloc reference)
  | .bufferInfo env handle malloc reference =>
    some (infoCall resolveCurrentHostValueToGuest s env handle malloc reference)
  | .createArraybuffer env out store len malloc reference registered =>
    some (createArraybuffer s env out store len malloc reference registered)
  | .createExternal env out store ptr len isView reference registered =>
    some (createExternal s env out store ptr len isView reference registered)
  | .createBuffer env out store len bytes malloc =>
    if s.guestMemory store = true then some (createBuffer s env out store len bytes malloc) else none
  | .createTypedarray env out value => some (createTypedarray s env out value)
  | .createReference env handle reference => some (holdCopy s env handle reference)
  | .deleteReference env reference => some (dropHold s env reference)
  | .openHandleScope env scope => some (openHandleScope s env scope)
  | .closeHandleScope env scope => some (closeHandleScope s env scope)
  | .escapeHandle env escapee out => some (escapeHandle s env escapee out)
  | .acquireLease env handle byteOffset byteLen readable writable malloc reference =>
    some (acquireLease s env handle byteOffset byteLen readable writable malloc reference)
  | .releaseLease env lease modified => some (releaseLease s env lease modified)
  | .drain env index => drainReadyGuestBuffer s env index
  | .enterScript => some { beginFrame (publishPendingHostBufferCopies s) with scripting := true }
  | .leaveScript owner =>
    if owner ∈ s.hostBufferCopyFrames then
      some { refreshHostBufferCopies (endFrame s owner) with scripting := false }
    else none
  | .enterCallback => some { beginFrame (refreshHostBufferCopies s) with scripting := false }
  | .leaveCallback owner =>
    if owner ∈ s.hostBufferCopyFrames then some { endFrame s owner with scripting := true } else none

/-- The steps that are JavaScript's. Native code takes the others. -/
def Act.scripted : Act → Bool
  | .script .. | .leaveScript _ | .enterCallback => true
  | _ => false

/-- The calls that are answered with a data pointer. -/
def Act.asks : Act → Bool
  | .info .. | .bufferInfo .. => true
  | _ => false

/-- A step of a run: only the last one's answer is kept. -/
def step (s : State) (a : Act) : Option State :=
  if a.scripted = s.scripting ∧
      (a.allocates s).all (fun size => mallocAnswers s size.1 size.2) = true then
    (apply s a).map fun t => if a.asks = true then t else { t with answered := none }
  else none

end WasmerNapi.HostJs.Buffers
