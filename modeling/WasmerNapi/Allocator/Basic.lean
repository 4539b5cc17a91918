import WasmerNapi.Lib.Ring

/-!
# The slab allocator

`napi_allocator__` keeps payloads in blocks of `N` slots. Every list in it is an intrusive
ring: three of blocks, by fill level, hang on the allocator, and two of slots, free and
used, hang on each block. A slot has a link for each of these two, a block has one link
for the three.

The model is at that level: the state is the pointers of all nodes (`Lib/Ring.lean`), and
each function moves them as the source does. Every loop has fuel, and `none` stands for a
loop that does not end as much as for following a null pointer or reading one as the
wrong kind of node. `Allocator/World.lean` shows that neither happens.

Of `operator new` only its outcome is here: the label of an `allocate` says at which
address the block would go, or that there is no memory. Addresses of deleted blocks come
back; the pointers a deleted block left behind are still in the heap then, until the
constructor overwrites them.

The payloads themselves are not modelled, nor the owner pointer, which no list operation
reads.
-/

namespace WasmerNapi.Allocator

open Ring

/-- Where a block is. -/
abbrev Addr := ℕ

/-- A payload is named by its block and the index of its slot. -/
abbrev Ptr := Addr × ℕ

inductive Head where
  | firstFree
  | firstUsed
  | firstPartial
  | firstFreeSlot (b : Addr)
  | firstUsedSlot (b : Addr)
  deriving DecidableEq, Repr

inductive Elem where
  | link (b : Addr)
  | freeLink (b : Addr) (i : ℕ)
  | usedLink (b : Addr) (i : ℕ)
  deriving DecidableEq, Repr

abbrev Node := Head ⊕ Elem

abbrev Heap := Links Head Elem

/-- The block whose memory a node is in. -/
def Node.home : Node → Option Addr
  | .inl (.firstFreeSlot b) => some b
  | .inl (.firstUsedSlot b) => some b
  | .inl _ => none
  | .inr (.link b) => some b
  | .inr (.freeLink b _) => some b
  | .inr (.usedLink b _) => some b

/-! `unsafe_get`, for each of the three member pointers it is used with. -/

def Node.ofLink : Node → Option Addr
  | .inr (.link b) => some b
  | _ => none

def Node.ofFreeLink : Node → Option Ptr
  | .inr (.freeLink b i) => some (b, i)
  | _ => none

def Node.ofUsedLink : Node → Option Ptr
  | .inr (.usedLink b i) => some (b, i)
  | _ => none

/-! ## Blocks -/

namespace Heap

def isFull (L : Heap) (b : Addr) : Bool := (L.first (.inl (.firstFreeSlot b))).isNone

def isEmpty (L : Heap) (b : Addr) : Bool := (L.first (.inl (.firstUsedSlot b))).isNone

/-- The loop of `reset_free_list`, from the last slot down to the first. -/
def linkSlots (b : Addr) : ℕ → Heap → Heap
  | 0, L => L
  | i + 1, L => linkSlots b i (L.link (.inl (.firstFreeSlot b)) (.inr (.freeLink b i)))

def resetFreeList (N : ℕ) (L : Heap) (b : Addr) : Option Heap := do
  let L ← L.drain N (.inl (.firstFreeSlot b))
  let L ← L.drain N (.inl (.firstUsedSlot b))
  some (linkSlots b N L)

/-- The constructor of `block__`: every link member points to itself, then the body. -/
def newBlock (N : ℕ) (L : Heap) (b : Addr) : Option Heap :=
  resetFreeList N (L.construct fun n => Node.home n = some b) b

/-- `block__::allocate`. -/
def allocateSlot (L : Heap) (b : Addr) : Option (Ptr × Heap) := do
  let free ← L.first (.inl (.firstFreeSlot b))
  let p ← Node.ofFreeLink free
  let L := L.unlink (.inr (.freeLink p.1 p.2))
  some (p, L.link (.inl (.firstUsedSlot b)) (.inr (.usedLink p.1 p.2)))

def unlinkUsedSlot (L : Heap) (p : Ptr) : Heap := L.unlink (.inr (.usedLink p.1 p.2))

def linkFreeSlot (L : Heap) (b : Addr) (p : Ptr) : Heap :=
  L.link (.inl (.firstFreeSlot b)) (.inr (.freeLink p.1 p.2))

def firstUsedSlot (L : Heap) (b : Addr) : Option Ptr :=
  (L.first (.inl (.firstUsedSlot b))).bind Node.ofUsedLink

/-- The loop of `block__::close`, with the payloads it released, the last one first. -/
def closeSlots : ℕ → Heap → Addr → List Ptr → Option (Heap × List Ptr)
  | 0, L, b, released => if firstUsedSlot L b = none then some (L, released) else none
  | fuel + 1, L, b, released =>
    match firstUsedSlot L b with
    | none => some (L, released)
    | some p => closeSlots fuel (linkFreeSlot (unlinkUsedSlot L p) b p) b (p :: released)

def closeBlock (N : ℕ) (L : Heap) (b : Addr) (released : List Ptr) :
    Option (Heap × List Ptr) := do
  let (L, released) ← closeSlots N L b released
  let L ← resetFreeList N L b
  some (L, released)

def countUsed (N : ℕ) (L : Heap) (b : Addr) : Option ℕ := L.count N (.inl (.firstUsedSlot b))

/-! ## The allocator's own lists -/

/-- The first link of one list or, where that one is empty, of another. -/
def firstOr (L : Heap) (h h' : Head) : Option Node :=
  match L.first (.inl h) with
  | none => L.first (.inl h')
  | some l => some l

def linkBlock (L : Heap) (b : Addr) : Heap :=
  if L.linked (.inr (.link b)) then L
  else if isEmpty L b then L.link (.inl .firstFree) (.inr (.link b))
  else if isFull L b then L.link (.inl .firstUsed) (.inr (.link b))
  else L.link (.inl .firstPartial) (.inr (.link b))

def relink (L : Heap) (b : Addr) : Heap := linkBlock (L.unlink (.inr (.link b))) b

end Heap

/-- The pointers, the blocks that have been created and not deleted, and the calls of
    `record_create` and `record_release` so far, the last one first. -/
structure State where
  links : Heap
  blocks : List Addr
  created : List Ptr
  released : List Ptr

namespace State

def init : State := ⟨Links.apart, [], [], []⟩

/-- The end of `allocate`, once there is a block. -/
def place (s : State) (b : Addr) : Option (Option Ptr × State) := do
  let (p, L) ← s.links.allocateSlot b
  some (some p, { s with links := L.relink b, created := p :: s.created })

/-- `room` is what `operator new` answers, if it is asked. -/
def allocate (N : ℕ) (s : State) (room : Option Addr) : Option (Option Ptr × State) :=
  match s.links.firstOr .firstPartial .firstFree with
  | some l => (Node.ofLink l).bind s.place
  | none =>
    match room with
    | none => some (none, s)
    | some b => do
      let L ← s.links.newBlock N b
      let L := L.link (.inl .firstFree) (.inr (.link b))
      place { s with links := L, blocks := b :: s.blocks } b

def destroy (s : State) (p : Ptr) : State :=
  let b := p.1
  let blockWasLinked := s.links.linked (.inr (.link b))
  let L := s.links.unlinkUsedSlot p
  let L := if blockWasLinked then L.unlink (.inr (.link b)) else L
  let released := p :: s.released
  let L := Heap.linkFreeSlot L b p
  let L := if blockWasLinked then Heap.linkBlock L b else L
  { s with links := L, released := released }

def takeUsed (s : State) : Option (Option Ptr × State) :=
  match s.links.firstOr .firstUsed .firstPartial with
  | none => some (none, s)
  | some l => do
    let b ← Node.ofLink l
    let p ← s.links.firstUsedSlot b
    let L := Heap.linkFreeSlot (s.links.unlinkUsedSlot p) b p
    some (some p, { s with links := Heap.relink L b, released := p :: s.released })

/-- One of the three loops of `close`. -/
def closeList (N : ℕ) (h : Head) : ℕ → State → Option State
  | 0, s => if s.links.first (.inl h) = none then some s else none
  | fuel + 1, s =>
    match s.links.first (.inl h) with
    | none => some s
    | some l => do
      let b ← Node.ofLink l
      let (L, released) ← Heap.closeBlock N (s.links.unlink l) b s.released
      closeList N h fuel
        { s with links := L, blocks := s.blocks.erase b, released := released }

def close (N : ℕ) (s : State) : Option State := do
  let fuel := s.blocks.length
  let s ← closeList N .firstUsed fuel s
  let s ← closeList N .firstPartial fuel s
  closeList N .firstFree fuel s

/-- The sum in the loop of `count_active`. -/
def countPartial (N : ℕ) (s : State) : List Node → Option ℕ
  | [] => some 0
  | l :: ls => do
    let b ← Node.ofLink l
    let n ← s.links.countUsed N b
    let rest ← countPartial N s ls
    some (n + rest)

def countActive (N : ℕ) (s : State) : Option ℕ := do
  let fuel := s.blocks.length
  let used ← s.links.count fuel (.inl .firstUsed)
  let partials ← s.links.walk (.inl .firstPartial) fuel (s.links.next (.inl .firstPartial))
  let count ← countPartial N s partials
  some (used * N + count)

end State

/-! ## The iterator -/

/-- `basic_iterator__`; its default value is `end()`. -/
structure Iter where
  tail : Option Node := none
  link : Option Node := none
  nextTail : Option Node := none
  slot : Option Ptr := none

namespace Iter

def selectUsedSlot (L : Heap) : ℕ → Iter → Option Iter
  | 0, _ => none
  | fuel + 1, it =>
    match it.link with
    | none => some it
    | some l =>
      if some l = it.tail then
        match it.nextTail with
        | none => some { it with link := none }
        | some t =>
          selectUsedSlot L fuel
            { it with tail := some t, link := some (L.next t), nextTail := none }
      else
        (Node.ofLink l).bind fun b =>
          match L.firstUsedSlot b with
          | some p => some { it with slot := some p }
          | none => selectUsedSlot L fuel { it with slot := none, link := some (L.next l) }

/-- `begin()`. -/
def first (L : Heap) (fuel : ℕ) : Option Iter :=
  selectUsedSlot L fuel
    { tail := some (.inl .firstUsed), link := some (L.next (.inl .firstUsed)),
      nextTail := some (.inl .firstPartial) }

/-- `operator++`. -/
def incr (L : Heap) (fuel : ℕ) (it : Iter) : Option Iter := do
  let p ← it.slot
  let l ← it.link
  let b ← Node.ofLink l
  let used := L.next (.inr (.usedLink p.1 p.2))
  if used = .inl (.firstUsedSlot b) then
    selectUsedSlot L fuel { it with slot := none, link := some (L.next l) }
  else
    let q ← Node.ofUsedLink used
    some { it with slot := some q }

/-- From `it` to `end()`; an iterator is equal to that one when its link is null. -/
def toEnd (L : Heap) (fuel : ℕ) : ℕ → Iter → Option (List Ptr)
  | 0, it => if it.link = none then some [] else none
  | n + 1, it =>
    if it.link = none then some []
    else do
      let p ← it.slot
      let it ← it.incr L fuel
      let rest ← toEnd L fuel n it
      some (p :: rest)

end Iter

/-- `begin()..end()`. -/
def State.traverse (N : ℕ) (s : State) : Option (List Ptr) := do
  let fuel := s.blocks.length + 2
  let it ← Iter.first s.links fuel
  it.toEnd s.links fuel (s.blocks.length * N)

/-! ## Sequences of operations -/

inductive Op where
  | allocate (room : Option Addr)
  | destroy (p : Ptr)
  | takeUsed
  | close
  deriving DecidableEq, Repr

/-- The returned pointer, null for the operations that return nothing. -/
def State.perform (N : ℕ) (s : State) : Op → Option (Option Ptr × State)
  | .allocate room => s.allocate N room
  | .destroy p => some (none, s.destroy p)
  | .takeUsed => s.takeUsed
  | .close => (s.close N).map fun s => (none, s)

end WasmerNapi.Allocator
