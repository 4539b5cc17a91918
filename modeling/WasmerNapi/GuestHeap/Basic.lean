import WasmerNapi.Lib.Table
import WasmerNapi.Lib.Span
import WasmerNapi.Budget.Memory

/-!
# `GuestHeap` — a host-side allocator over the guest's memory

`src/src/guest_heap.rs`. The heap claims pages by growing the guest's own linear memory
and hands out 16-byte units of what it claimed. Two things under it are not in this
repository: `offset_allocator`, which places units inside one claimed chunk, and
`Memory::grow`. The first is a class with its documented behaviour as laws; the second
is the memory of `Budget/Memory.lean`, budgeted or plain.

Every operation is the source's, on a `World`: the heap, the memory under it, the
budget, and — bookkeeping of this file, not of the code — the ranges the guest's own
grows returned. The mutex makes the operations atomic towards each other. It does not
keep the guest from growing the same memory while a claim is being made, so the claim
takes, as an argument, what happens around its `Memory::grow`.
-/

namespace WasmerNapi

open Word Run Budget

/-! ## Constants -/

def unit : ℕ := 16
def minChunkBytes : ℕ := 1024 * 1024
def prefundBytes : ℕ := 16 * 1024 * 1024
def lowWaterBytes : ℕ := 4 * 1024 * 1024
def bytesPerNode : ℕ := 256
def minChunkAllocs : ℕ := 1024
def maxChunkAllocs : ℕ := 32 * 1024

/-- `chunk_size_for`. -/
def chunkSizeFor (minBytes : ℕ) : ℕ :=
  max (saturatingAdd 32 (saturatingAdd 32 minBytes (minBytes / 8)) wasmPageSize) minChunkBytes

/-- `chunk_max_allocs`. -/
def chunkMaxAllocs (len : ℕ) : ℕ := max minChunkAllocs (min (len / bytesPerNode) maxChunkAllocs)

/-! ## The unit allocator -/

/-- `offset_allocator::Allocation`. -/
structure Allocation where
  offset : ℕ
  metadata : ℕ
  deriving DecidableEq, Repr

/-- `offset_allocator::Allocator`. -/
class OffsetAllocator (A : Type) where
  withMaxAllocs : (size maxAllocs : ℕ) → A
  allocate : A → (size : ℕ) → Option (Allocation × A)
  allocationSize : A → Allocation → ℕ
  free : A → Allocation → A

/-- The allocator's contract. `held` reads off the outstanding allocations with the units
    reserved for each: they are in range and apart from each other, handing one out
    reserves at least what was asked, and freeing one returns all of it. -/
class LawfulOffsetAllocator (A : Type) extends OffsetAllocator A where
  capacity : A → ℕ
  held : A → Allocation → Option ℕ
  capacity_withMaxAllocs : ∀ size n, capacity (withMaxAllocs size n) = size
  held_withMaxAllocs : ∀ size n al, held (withMaxAllocs size n) al = none
  in_range : ∀ {a al r}, held a al = some r → al.offset + r ≤ capacity a
  apart : ∀ {a al r al' r'}, held a al = some r → held a al' = some r' → al ≠ al' →
    (Span.mk al.offset r).Apart (Span.mk al'.offset r')
  capacity_allocate : ∀ {a n al a'}, allocate a n = some (al, a') → capacity a' = capacity a
  held_allocate : ∀ {a n al a'}, allocate a n = some (al, a') →
    held a al = none ∧ ∃ r, n ≤ r ∧ held a' = Function.update (held a) al (some r)
  allocationSize_eq : ∀ {a al r}, held a al = some r → allocationSize a al = r
  capacity_free : ∀ {a al r}, held a al = some r → capacity (free a al) = capacity a
  held_free : ∀ {a al r}, held a al = some r →
    held (free a al) = Function.update (held a) al none

/-! ## The heap's data -/

structure Chunk (A : Type) where
  start : ℕ
  len : ℕ
  alloc : A

structure LiveAlloc where
  chunkIdx : ℕ
  allocation : Allocation
  len : ℕ
  units : ℕ
  deriving DecidableEq, Repr

/-- `HeapInner`. A `Memory` handle is the store it belongs to. -/
structure HeapInner (A : Type) where
  memories : List ℕ
  chunks : List (Chunk A)
  live : AList fun _ : ℕ => LiveAlloc
  freeBytes : ℕ
  pendingWant : ℕ

structure GuestHeap (A : Type) where
  base : ℕ
  maxBytes : ℕ
  charged : ℕ
  observedLen : ℕ
  inner : HeapInner A

/-- A linear memory from plain tunables, or from `budgeted_tunables`. -/
inductive LinearMemory where
  | plain (pages : ℕ)
  | budgeted (m : BudgetedMemory)
  deriving DecidableEq, Repr

namespace LinearMemory

def pages : LinearMemory → ℕ
  | plain pages => pages
  | budgeted m => m.pages

def bytes (m : LinearMemory) : ℕ := pagesToBytes m.pages

variable {α : Type} [NapiMemoryAccountant α]

/-- `Memory::grow`: the previous size in pages. `inner` says whether the backend grows,
    which it cannot past a `u32` of pages. -/
def grow (b : ResourceBudget α) (delta : ℕ) (inner : Bool) :
    LinearMemory → Except MemoryError ℕ × LinearMemory × ResourceBudget α
  | plain pages =>
    if inner && decide (pages + delta < pagesBound) then (.ok pages, plain (pages + delta), b)
    else (.error .backend, plain pages, b)
  | budgeted m =>
    let r := BudgetedMemory.grow b m delta (inner && decide (m.pages + delta < pagesBound))
    (r.1, budgeted r.2.1, r.2.2)

end LinearMemory

/-- The heap and what it stands on. `guest` lists the ranges the guest holds: its
    initial memory, and what its own grows returned; `others` is what other owners of
    the budget have charged. -/
structure World (α A : Type) where
  budget : ResourceBudget α
  others : Pool → ℕ
  memory : LinearMemory
  guest : List Span
  heap : GuestHeap A

namespace World

variable {α A : Type} [NapiMemoryAccountant α]

/-- The heap's state behind the mutex, replaced. -/
def setInner (w : World α A) (inner : HeapInner A) : World α A :=
  { w with heap := { w.heap with inner } }

/-- What can happen without the heap's mutex: the guest grows its memory, or another
    owner moves the budget. -/
inductive Interference (α : Type) where
  | guestGrow (delta : ℕ) (inner : Bool)
  | other (a : OtherAct α)

def interfere (w : World α A) : Interference α → Option (World α A)
  | .guestGrow delta inner =>
    match w.memory.grow w.budget delta inner with
    | (.ok prev, memory, budget) =>
      some { w with
        memory, budget, guest := ⟨pagesToBytes prev, pagesToBytes delta⟩ :: w.guest }
    | (.error _, memory, budget) => some { w with memory, budget }
  | .other a => (otherStep w.budget w.others a).map fun r => { w with budget := r.1, others := r.2 }

/-- What happens around one `Memory::grow` of the heap: between its charge and the grow,
    whether the backend grows, between the grow and the claim, and the base it then reads. -/
structure GrowCall (α : Type) where
  before : List (Interference α)
  inner : Bool
  after : List (Interference α)
  baseNow : ℕ

end World

/-! ## Operations -/

namespace HeapInner

variable {A : Type} [OffsetAllocator A]

/-- The body of the `try_chunks` loop, once chunk `idx` has handed out `allocation`. An
    early `?` leaves with the allocation taken. -/
def placeIn (inner : HeapInner A) (units idx : ℕ) (chunk : Chunk A) (allocation : Allocation)
    (alloc : A) : Option ℕ × HeapInner A :=
  let reserved := OffsetAllocator.allocationSize alloc allocation
  let taken := { inner with chunks := inner.chunks.set idx { chunk with alloc } }
  match checkedMul 32 allocation.offset unit, checkedMul 32 units unit with
  | some rel, some size =>
    match checkedAdd 32 rel size with
    | some stop =>
      if chunk.len < stop then
        (none, { inner with
          chunks := inner.chunks.set idx
            { chunk with alloc := OffsetAllocator.free alloc allocation } })
      else
        let offset := wrappingAdd 32 chunk.start rel
        (some offset, { taken with
          freeBytes := inner.freeBytes - reserved * unit
          live := inner.live.insert offset
            { chunkIdx := idx, allocation, len := units * unit, units := reserved } })
    | none => (none, taken)
  | _, _ => (none, taken)

/-- The `try_chunks` loop from chunk `idx` on, with `todo` still to visit. -/
def tryChunksFrom (inner : HeapInner A) (units : ℕ) :
    List (Chunk A) → ℕ → Option ℕ × HeapInner A
  | [], _ => (none, inner)
  | chunk :: todo, idx =>
    match OffsetAllocator.allocate chunk.alloc units with
    | none => tryChunksFrom inner units todo (idx + 1)
    | some (allocation, alloc) => placeIn inner units idx chunk allocation alloc

/-- `try_chunks`. -/
def tryChunks (inner : HeapInner A) (units : ℕ) : Option ℕ × HeapInner A :=
  tryChunksFrom inner units inner.chunks 0

/-- `free_offset`; `none` is the panic of an index past `chunks`. -/
def freeOffset (inner : HeapInner A) (offset : ℕ) : Option (Bool × HeapInner A) :=
  match inner.live.lookup offset with
  | none => some (false, inner)
  | some live =>
    match inner.chunks[live.chunkIdx]? with
    | none => none
    | some chunk =>
      some (true, { inner with
        live := inner.live.erase offset
        chunks := inner.chunks.set live.chunkIdx
          { chunk with alloc := OffsetAllocator.free chunk.alloc live.allocation }
        freeBytes := wrappingAdd 64 inner.freeBytes (live.units * unit) })

end HeapInner

namespace GuestHeap

variable {A : Type} [OffsetAllocator A]

def owns (h : GuestHeap A) (ptr : ℕ) : Bool :=
  h.base ≤ ptr && ptr < wrappingAdd 64 h.base h.maxBytes

/-- The units of a request: `div_ceil`, never none, and a `u32`. -/
def unitsFor (h : GuestHeap A) (len : ℕ) : Option ℕ :=
  if h.maxBytes < len then none else tryFrom 32 ((max len 1 + (unit - 1)) / unit)

/-- The first half of `free_host_ptr`, under the mutex: the offset to free. The second
    half takes the mutex again. -/
def checkHostPtr (h : GuestHeap A) (ptr len : ℕ) : Option ℕ :=
  if h.owns ptr then
    let offset := truncate 32 (wrappingSub 64 ptr h.base)
    match h.inner.live.lookup offset with
    | none => none
    | some live => if len ≠ 0 ∧ live.len < len then none else some offset
  else none

end GuestHeap

namespace World

variable {α A : Type} [NapiMemoryAccountant α] [OffsetAllocator A]

/-- `register_memory`. -/
def registerMemory (w : World α A) (store : ℕ) : World α A :=
  if store ∈ w.heap.inner.memories then w
  else w.setInner { w.heap.inner with memories := w.heap.inner.memories ++ [store] }

/-- `finish_claim`; `none` is the abort of a base that moved. -/
def finishClaim (w : World α A) (prev deltaPages baseNow chargedBytes : ℕ) :
    Option (Bool × World α A) :=
  if baseNow ≠ w.heap.base then none
  else
    let start := pagesToBytes prev
    let len := pagesToBytes deltaPages
    -- A grow that succeeded stays resident, so it is charged whether or not it is used.
    let heap := { w.heap with charged := wrappingAdd 64 w.heap.charged chargedBytes }
    if heap.maxBytes < start + len then some (false, { w with heap })
    else
      let start := truncate 32 start
      let len := truncate 32 len
      let chunk : Chunk A :=
        { start, len, alloc := OffsetAllocator.withMaxAllocs (len / unit) (chunkMaxAllocs len) }
      some (true, { w with
        heap := { heap with
          inner := { heap.inner with
            chunks := heap.inner.chunks ++ [chunk]
            freeBytes := wrappingAdd 64 heap.inner.freeBytes len } } })

/-- The charge `refill_with_store_locked` makes before it grows: nothing when growth is
    metered elsewhere. -/
def chargeClaim (b : ResourceBudget α) (deltaBytes : ℕ) : Option ℕ × ResourceBudget α :=
  if b.wasmIsExternallyAccounted then (some 0, b)
  else
    match b.tryCharge .wasmLinear deltaBytes with
    | (.error _, b) => (none, b)
    | (.ok (), b) => (some deltaBytes, b)

/-- The pages a refill claims. -/
def claimPages (minBytes : ℕ) : ℕ := (chunkSizeFor minBytes + (wasmPageSize - 1)) / wasmPageSize

/-- `refill_with_store_locked`. -/
def refillWithStoreLocked (w : World α A) (store minBytes : ℕ) (call : GrowCall α) :
    Option (Bool × World α A) :=
  if store ∉ w.heap.inner.memories then some (false, w)
  else
    let deltaPages := claimPages minBytes
    match chargeClaim w.budget (pagesToBytes deltaPages) with
    | (none, budget) => some (false, { w with budget })
    | (some charge, budget) =>
      (run interfere { w with budget } call.before).bind fun w =>
        match w.memory.grow w.budget deltaPages call.inner with
        | (.error _, memory, budget) =>
          some (false, { w with memory, budget := budget.uncharge .wasmLinear charge })
        | (.ok prev, memory, budget) =>
          (run interfere { w with memory, budget } call.after).bind fun w =>
            finishClaim (w.setInner { w.heap.inner with pendingWant := 0 }) prev deltaPages
              call.baseNow charge

/-- The heap remembers the most it has been asked for and did not have. -/
def rememberWant (w : World α A) (bytes : ℕ) : World α A :=
  w.setInner { w.heap.inner with pendingWant := max w.heap.inner.pendingWant bytes }

/-- `alloc`. -/
def alloc (w : World α A) (len : ℕ) : Option ℕ × World α A :=
  match w.heap.unitsFor len with
  | none => (none, w)
  | some units =>
    match w.heap.inner.tryChunks units with
    | (some offset, inner) => (some offset, w.setInner inner)
    | (none, inner) => (none, (w.setInner inner).rememberWant (saturatingMul 32 units unit))

/-- `alloc_with_store`. -/
def allocWithStore (w : World α A) (store len : ℕ) (call : GrowCall α) :
    Option (Option ℕ × World α A) :=
  match w.heap.unitsFor len with
  | none => some (none, w)
  | some units =>
    match w.heap.inner.tryChunks units with
    | (some offset, inner) => some (some offset, w.setInner inner)
    | (none, inner) =>
      match checkedMul 32 units unit with
      | none => some (none, w.setInner inner)
      | some needed =>
        ((w.setInner inner).refillWithStoreLocked store needed call).map fun r =>
          if r.1 then
            match r.2.heap.inner.tryChunks units with
            | (some offset, inner) => (some offset, r.2.setInner inner)
            | (none, inner) => (none, (r.2.setInner inner).rememberWant needed)
          else (none, r.2.rememberWant needed)

/-- `maybe_refill`. -/
def maybeRefill (w : World α A) (store : ℕ) (call : GrowCall α) : Option (World α A) :=
  if lowWaterBytes ≤ w.heap.inner.freeBytes ∧ w.heap.inner.pendingWant = 0 then some w
  else
    (w.refillWithStoreLocked store (max w.heap.inner.pendingWant prefundBytes) call).map Prod.snd

/-- `free_offset`, with whether the offset was live. -/
def freeOffset (w : World α A) (offset : ℕ) : Option (Bool × World α A) :=
  (w.heap.inner.freeOffset offset).map fun r => (r.1, w.setInner r.2)

/-- `free_host_ptr`, with nothing in between its halves. -/
def freeHostPtr (w : World α A) (ptr len : ℕ) : Option (Bool × World α A) :=
  match w.heap.checkHostPtr ptr len with
  | none => some (false, w)
  | some offset => w.freeOffset offset

/-- The heap's `Drop`. -/
def drop (w : World α A) : World α A :=
  if 0 < w.heap.charged then { w with budget := w.budget.uncharge .wasmLinear w.heap.charged }
  else w

inductive MemoryStyle where
  | dynamic
  | static (bound : ℕ)
  deriving DecidableEq, Repr

/-- What `new` reads of the memory it is given. -/
structure MemoryType where
  maximum : Option ℕ
  base : ℕ
  style : MemoryStyle

def MemoryType.maxPages (ty : MemoryType) : ℕ := min (ty.maximum.getD 65536) 65536

/-- The heap `new` builds, before it claims its arena. -/
def fresh (b : ResourceBudget α) (others : Pool → ℕ) (m : LinearMemory) (ty : MemoryType)
    (store : ℕ) : World α A where
  budget := b
  others := others
  memory := m
  guest := [⟨0, m.bytes⟩]
  heap := {
    base := ty.base
    maxBytes := pagesToBytes ty.maxPages
    charged := 0
    observedLen := m.bytes
    inner := { memories := [store], chunks := [], live := ∅, freeBytes := 0, pendingWant := 0 } }

/-- `new`; the inner `none` is its refusal of a memory that could move. -/
def new (b : ResourceBudget α) (others : Pool → ℕ) (m : LinearMemory) (ty : MemoryType)
    (store : ℕ) (call : GrowCall α) : Option (Option (World α A)) :=
  if ty.base = 0 then some none
  else
    match ty.style with
    | .dynamic => some none
    | .static bound =>
      if bound < ty.maxPages then some none
      else
        ((fresh b others m ty store).refillWithStoreLocked store prefundBytes call).map
          fun r => some r.2

end World
end WasmerNapi
