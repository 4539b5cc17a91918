import WasmerNapi.Allocator.World

/-!
# Destructors that call back

A payload destructor may destroy other payloads of its allocator and allocate new ones, so the
operations nest: `destroy` and `close` are interrupted at every destructor and go on when it
returns. `Calls` is the allocator with the stack of interrupted calls. A label is what the code
that has control does next: a destructor, or the caller when none runs, starts a call or returns,
and `close` takes its next turn.

While the stack is not empty some blocks are in no list, each because of the outermost call in
it, and some slots are neither free nor used, each because of one call. `outs` and `held` read
them off the stack, and `Slabs.Amid` is the invariant with them left out. `Move` is all that a
step can do; `Inv.perform` shows that every step does that and keeps the invariant.
-/

namespace WasmerNapi.Allocator

open Ring Function

/-- A call that is waiting, for a payload destructor or for its turn. -/
inductive Frame where
  /-- `destroy`, at the destructor of `p`. -/
  | destroying (p : Ptr) (blockWasLinked : Bool)
  /-- `close`, before the next block of a list. -/
  | closing (l : Level)
  /-- `block__::close`, before the next used slot. -/
  | closingBlock (l : Level) (b : Addr)
  /-- `block__::close`, at the destructor of `p`. -/
  | releasing (l : Level) (p : Ptr)
  deriving DecidableEq, Repr

/-- The list `close` turns to after this one. -/
def Level.next : Level → Option Level
  | .used => some .part
  | .part => some .free
  | .free => none

/-- How many lists `close` has left. -/
def Level.turns : Level → ℕ
  | .used => 3
  | .part => 2
  | .free => 1

theorem Level.turns_pos (l : Level) : 0 < l.turns := by
  cases l <;> decide

theorem Level.turns_next {l k : Level} (h : l.next = some k) : l.turns = k.turns + 1 := by
  cases l with
  | used =>
    cases h
    rfl
  | part =>
    cases h
    rfl
  | free => cases h

namespace State

/-- `destroy` up to the destructor, with `block_was_linked`. -/
def beginDestroy (s : State) (p : Ptr) : Bool × State :=
  let b := p.1
  let blockWasLinked := s.links.linked (.inr (.link b))
  let L := s.links.unlinkUsedSlot p
  let L := if blockWasLinked then L.unlink (.inr (.link b)) else L
  (blockWasLinked, { s with links := L, released := p :: s.released })

/-- `destroy` after the destructor. -/
def endDestroy (s : State) (p : Ptr) (blockWasLinked : Bool) : State :=
  let b := p.1
  let L := Heap.linkFreeSlot s.links b p
  { s with links := if blockWasLinked then Heap.linkBlock L b else L }

end State

/-- The allocator, the calls that are waiting, the innermost first, and the set of payloads that
    no destructor has been called for. -/
structure Calls where
  alloc : State
  frames : List Frame
  active : Finset Ptr

inductive Act where
  | allocate (room : Option Addr)
  | destroy (p : Ptr)
  | takeUsed
  | close
  /-- The destructor returns. -/
  | ret
  /-- `close` takes its next turn. -/
  | go
  deriving DecidableEq, Repr

/-- The payloads a step calls `destroy` on. -/
def Act.destroys : Act → List Ptr
  | .destroy p => [p]
  | _ => []

/-- By how much a step can put off the end of `close`. -/
def Act.cost : Act → ℕ
  | .allocate _ => 3
  | .close => 3
  | _ => 0

namespace Calls

def init : Calls := ⟨State.init, [], ∅⟩

/-- The rest of the call that waits for the destructor, or for `close` of the turn. -/
def ret (w : Calls) : Option Calls :=
  match w.frames with
  | .destroying p blockWasLinked :: fs =>
    some { w with alloc := w.alloc.endDestroy p blockWasLinked, frames := fs }
  | .releasing l p :: fs =>
    let L := Heap.linkFreeSlot w.alloc.links p.1 p
    some { w with alloc := { w.alloc with links := L }, frames := .closingBlock l p.1 :: fs }
  | _ => none

/-- One turn of `close`, or of `block__::close` inside it. -/
def go (N : ℕ) (w : Calls) : Option Calls :=
  match w.frames with
  | .closing l :: fs =>
    match w.alloc.links.first (.inl l.head) with
    | some n => do
      let b ← Node.ofLink n
      let L := w.alloc.links.unlink n
      some { w with alloc := { w.alloc with links := L }, frames := .closingBlock l b :: fs }
    | none =>
      match l.next with
      | some k => some { w with frames := .closing k :: fs }
      | none => some { w with frames := fs }
  | .closingBlock l b :: fs =>
    match w.alloc.links.firstUsedSlot b with
    | some p =>
      let L := w.alloc.links.unlinkUsedSlot p
      some { w with
        alloc := { w.alloc with links := L, released := p :: w.alloc.released }
        frames := .releasing l p :: fs
        active := w.active.erase p }
    | none => do
      let L ← w.alloc.links.resetFreeList N b
      some { w with
        alloc := { w.alloc with links := L, blocks := w.alloc.blocks.erase b }
        frames := .closing l :: fs }
  | _ => none

def perform (N : ℕ) (w : Calls) : Act → Option (Option Ptr × Calls)
  | .allocate room => (w.alloc.allocate N room).map fun r =>
    (r.1, { w with alloc := r.2, active := track w.active (.allocate room) r.1 })
  | .destroy p =>
    let (blockWasLinked, s) := w.alloc.beginDestroy p
    let fs := .destroying p blockWasLinked :: w.frames
    some (none, { w with alloc := s, frames := fs, active := w.active.erase p })
  | .takeUsed => w.alloc.takeUsed.map fun r =>
    (r.1, { w with alloc := r.2, active := track w.active .takeUsed r.1 })
  | .close => some (none, { w with frames := .closing .used :: w.frames })
  | .ret => w.ret.map fun w' => (none, w')
  | .go => (w.go N).map fun w' => (none, w')

/-- What is left of the stack. -/
def world (w : Calls) : World := ⟨w.alloc, w.active⟩

end Calls

/-- The code that has control is a destructor or, where no call waits, the caller. -/
def hasControl : List Frame → Bool
  | [] => true
  | .destroying _ _ :: _ => true
  | .releasing _ _ :: _ => true
  | _ => false

namespace Calls

/-- A destructor destroys and allocates. The caller can also take payloads and close. -/
def Allowed (w : Calls) : Act → Prop
  | .allocate room => hasControl w.frames ∧ w.world.Allowed (.allocate room)
  | .destroy p => hasControl w.frames ∧ w.world.Allowed (.destroy p)
  | .takeUsed => w.frames = []
  | .close => w.frames = []
  | .ret => hasControl w.frames ∧ w.frames ≠ []
  | .go => hasControl w.frames = false

instance (w : Calls) (act : Act) : Decidable (w.Allowed act) :=
  match act with
  | .allocate room => inferInstanceAs (Decidable (_ ∧ w.world.Allowed (.allocate room)))
  | .destroy p => inferInstanceAs (Decidable (_ ∧ w.world.Allowed (.destroy p)))
  | .takeUsed => inferInstanceAs (Decidable (w.frames = []))
  | .close => inferInstanceAs (Decidable (w.frames = []))
  | .ret => inferInstanceAs (Decidable (_ ∧ w.frames ≠ []))
  | .go => inferInstanceAs (Decidable (hasControl w.frames = false))

def step (N : ℕ) (w : Calls) (act : Act) : Option Calls :=
  if w.Allowed act then (w.perform N act).map Prod.snd else none

end Calls

/-! ## What the stack says -/

/-- The blocks that are in no list, each because of the outermost call in it. -/
def outs : List Frame → List Addr
  | [] => []
  | .destroying p blockWasLinked :: fs => if blockWasLinked then p.1 :: outs fs else outs fs
  | .closing _ :: fs => outs fs
  | .closingBlock _ b :: fs => b :: outs fs
  | .releasing _ p :: fs => p.1 :: outs fs

/-- The slots whose destructors run. -/
def held : List Frame → List Ptr
  | [] => []
  | .destroying p _ :: fs => p :: held fs
  | .closing _ :: fs => held fs
  | .closingBlock _ _ :: fs => held fs
  | .releasing _ p :: fs => p :: held fs

/-- A call found its block linked if no outer one is in it, and `close` is an outermost call. -/
def Nested : List Frame → Prop
  | [] => True
  | .destroying p blockWasLinked :: fs => (blockWasLinked = true ↔ p.1 ∉ outs fs) ∧ Nested fs
  | _ :: fs => fs = []

/-- The block a call is in. -/
def Frame.block : Frame → Option Addr
  | .destroying p _ => some p.1
  | .closing _ => none
  | .closingBlock _ b => some b
  | .releasing _ p => some p.1

section Stack

variable {f : Frame} {fs : List Frame} {b : Addr}

theorem mem_outs_cons (f : Frame) (hb : b ∈ outs fs) : b ∈ outs (f :: fs) := by
  cases f with
  | destroying p blockWasLinked =>
    cases blockWasLinked with
    | true => exact List.mem_cons_of_mem _ hb
    | false => exact hb
  | closing l => exact hb
  | closingBlock l c => exact List.mem_cons_of_mem _ hb
  | releasing l p => exact List.mem_cons_of_mem _ hb

theorem Nested.tail (h : Nested (f :: fs)) : Nested fs := by
  cases f with
  | destroying p blockWasLinked => exact h.2
  | closing l =>
    obtain rfl : fs = [] := h
    trivial
  | closingBlock l c =>
    obtain rfl : fs = [] := h
    trivial
  | releasing l p =>
    obtain rfl : fs = [] := h
    trivial

/-- The block of every call is in no list. -/
theorem Nested.block_mem (h : Nested fs) (hf : f ∈ fs) (hb : f.block = some b) : b ∈ outs fs := by
  induction fs with
  | nil => cases hf
  | cons g fs ih =>
    rcases List.mem_cons.mp hf with rfl | hmem
    · cases f with
      | destroying p blockWasLinked =>
        cases hb
        cases blockWasLinked with
        | true => exact List.mem_cons_self ..
        | false =>
          by_contra hout
          exact Bool.false_ne_true (h.1.mpr hout)
      | closing l => cases hb
      | closingBlock l c =>
        cases hb
        exact List.mem_cons_self ..
      | releasing l p =>
        cases hb
        exact List.mem_cons_self ..
    · exact mem_outs_cons g (ih h.tail hmem)

theorem held_block {p : Ptr} (hp : p ∈ held fs) : ∃ f ∈ fs, f.block = some p.1 := by
  have hrest : ∀ (g : Frame) (gs : List Frame), (∃ f ∈ gs, f.block = some p.1) →
      ∃ f ∈ g :: gs, f.block = some p.1 := by
    rintro g gs ⟨f, hf, hb⟩
    exact ⟨f, List.mem_cons_of_mem g hf, hb⟩
  induction fs with
  | nil => cases hp
  | cons g fs ih =>
    cases g with
    | destroying q blockWasLinked =>
      rcases List.mem_cons.mp hp with rfl | hp
      · exact ⟨_, List.mem_cons_self .., rfl⟩
      · exact hrest _ _ (ih hp)
    | closing l => exact hrest _ _ (ih hp)
    | closingBlock l c => exact hrest _ _ (ih hp)
    | releasing l q =>
      rcases List.mem_cons.mp hp with rfl | hp
      · exact ⟨_, List.mem_cons_self .., rfl⟩
      · exact hrest _ _ (ih hp)

theorem Nested.owned (h : Nested fs) : ∀ p ∈ held fs, p.1 ∈ outs fs := by
  intro p hp
  obtain ⟨f, hf, hb⟩ := held_block hp
  exact h.block_mem hf hb

end Stack

namespace Calls

/-! ## The invariant -/

structure Inv (N : ℕ) (w : Calls) (m : Slabs) : Prop where
  holds : HoldsAmid N w.alloc (outs w.frames) (held w.frames) m
  nested : Nested w.frames
  active : ∀ p, p ∈ w.active ↔ m.Active p
  ledger : (w.alloc.released : Multiset Ptr) + w.active.val = w.alloc.created

/-- All that a step can do, up to the pointers. -/
inductive Move (w : Calls) (m : Slabs) : Act → Option Ptr → Calls → Prop where
  /-- A free slot of the first block that has room. -/
  | found (room : Option Addr) (p : Ptr) (L : Heap) (hp : p ∉ w.active)
      (hout : p.1 ∉ outs w.frames) (hfirst : m.roomy.head? = some p.1) :
      Move w m (.allocate room) (some p)
        { w with
          alloc := { w.alloc with links := L, created := p :: w.alloc.created }
          active := insert p w.active }
  /-- A slot of a new block. -/
  | made (b : Addr) (i : ℕ) (L : Heap) (hp : (b, i) ∉ w.active) (hout : b ∉ outs w.frames)
      (hroomy : m.roomy = []) (hb : b ∉ w.alloc.blocks) :
      Move w m (.allocate (some b)) (some (b, i))
        { w with
          alloc := { w.alloc with
            links := L, blocks := b :: w.alloc.blocks, created := (b, i) :: w.alloc.created }
          active := insert (b, i) w.active }
  | refused : Move w m (.allocate none) none w
  | destroyed (p : Ptr) (blockWasLinked : Bool) (L : Heap) (hp : p ∈ w.active) :
      Move w m (.destroy p) none
        { w with
          alloc := { w.alloc with links := L, released := p :: w.alloc.released }
          frames := .destroying p blockWasLinked :: w.frames
          active := w.active.erase p }
  | taken (p : Ptr) (L : Heap) (hframes : w.frames = []) (hp : p ∈ w.active) :
      Move w m .takeUsed (some p)
        { w with
          alloc := { w.alloc with links := L, released := p :: w.alloc.released }
          active := w.active.erase p }
  | nothing (hframes : w.frames = []) : Move w m .takeUsed none w
  | closes (hframes : w.frames = []) : Move w m .close none { w with frames := [.closing .used] }
  | returns (p : Ptr) (blockWasLinked : Bool) (fs : List Frame) (L : Heap)
      (hframes : w.frames = .destroying p blockWasLinked :: fs) :
      Move w m .ret none { w with alloc := { w.alloc with links := L }, frames := fs }
  | frees (l : Level) (p : Ptr) (L : Heap) (hframes : w.frames = [.releasing l p]) :
      Move w m .ret none
        { w with alloc := { w.alloc with links := L }, frames := [.closingBlock l p.1] }
  | block (l : Level) (b : Addr) (L : Heap) (hframes : w.frames = [.closing l]) :
      Move w m .go none
        { w with alloc := { w.alloc with links := L }, frames := [.closingBlock l b] }
  | list (l k : Level) (hframes : w.frames = [.closing l]) (hlist : m.lists l = [])
      (hk : l.next = some k) : Move w m .go none { w with frames := [.closing k] }
  | done (l : Level) (hframes : w.frames = [.closing l]) (hlist : m.lists l = [])
      (hk : l.next = none) : Move w m .go none { w with frames := [] }
  | release (l : Level) (b : Addr) (i : ℕ) (L : Heap) (hframes : w.frames = [.closingBlock l b])
      (hp : (b, i) ∈ w.active) :
      Move w m .go none
        { w with
          alloc := { w.alloc with links := L, released := (b, i) :: w.alloc.released }
          frames := [.releasing l (b, i)]
          active := w.active.erase (b, i) }
  | delete (l : Level) (b : Addr) (L : Heap) (hframes : w.frames = [.closingBlock l b])
      (hb : b ∈ w.alloc.blocks) :
      Move w m .go none
        { w with
          alloc := { w.alloc with links := L, blocks := w.alloc.blocks.erase b }
          frames := [.closing l] }

/-- What a step of `act` has to do to keep the invariant. -/
def Steps (N : ℕ) (w : Calls) (m : Slabs) (act : Act) : Prop :=
  ∃ r w' m', w.perform N act = some (r, w') ∧ Move w m act r w' ∧ Inv N w' m'

section Ledger

variable {A : Finset Ptr} {p : Ptr} {created released : List Ptr}
  (h : (released : Multiset Ptr) + A.val = created)

include h

theorem ledger_insert (hp : p ∉ A) :
    (released : Multiset Ptr) + (insert p A).val = (p :: created : List Ptr) := by
  rw [Finset.insert_val_of_notMem hp, Multiset.add_cons, h]
  rfl

theorem ledger_erase (hp : p ∈ A) :
    ((p :: released : List Ptr) : Multiset Ptr) + (A.erase p).val = created := by
  rw [← Multiset.cons_coe, Multiset.cons_add, ← Multiset.add_cons, Finset.erase_val,
    Multiset.cons_erase hp, h]

end Ledger

section Moves

variable {N : ℕ} {w : Calls} {m m' : Slabs} (h : Inv N w m)

include h

theorem Inv.inserted {p : Ptr} (hactive : ∀ q, m'.Active q ↔ q = p ∨ m.Active q) :
    ∀ q, q ∈ insert p w.active ↔ m'.Active q := by
  intro q
  rw [hactive, ← h.active]
  exact Finset.mem_insert

theorem Inv.erased {p : Ptr} (hactive : ∀ q, m'.Active q ↔ q ≠ p ∧ m.Active q) :
    ∀ q, q ∈ w.active.erase p ↔ m'.Active q := by
  intro q
  rw [hactive, ← h.active]
  exact Finset.mem_erase

theorem Inv.allocate (hN : 0 < N) {room : Option Addr} (hroom : w.world.Allowed (.allocate room)) :
    Steps N w m (.allocate room) := by
  have hperform : ∀ r s', w.alloc.allocate N room = some (r, s') →
      w.perform N (.allocate room) = some (r,
        { w with alloc := s', active := track w.active (.allocate room) r }) := by
    intro r s' hs
    rw [perform, hs]
    rfl
  by_cases hroomy : m.roomy = []
  · cases room with
    | none => exact ⟨_, _, m, hperform _ _ (h.holds.allocate_none hroomy), .refused, h⟩
    | some b =>
      obtain ⟨i, M, m', ⟨hp, hout⟩, hs, hholds, hactive⟩ := h.holds.allocate_new hN hroomy hroom
      have hnew : (b, i) ∉ w.active := fun hmem => hp ((h.active _).mp hmem)
      refine ⟨_, _, m', hperform _ _ hs, .made b i M hnew hout hroomy hroom, ?_⟩
      exact ⟨hholds, h.nested, h.inserted hactive, ledger_insert h.ledger hnew⟩
  · obtain ⟨p, M, m', ⟨hp, hout, hfirst⟩, hs, hholds, hactive⟩ :=
      h.holds.allocate_roomy hN room hroomy
    have hnew : p ∉ w.active := fun hmem => hp ((h.active p).mp hmem)
    refine ⟨_, _, m', hperform _ _ hs, .found room p M hnew hout hfirst, ?_⟩
    exact ⟨hholds, h.nested, h.inserted hactive, ledger_insert h.ledger hnew⟩

theorem Inv.takeUsed (hframes : w.frames = []) : Steps N w m .takeUsed := by
  have hholds : Holds N w.alloc m := by
    have hamid := h.holds
    rw [hframes] at hamid
    exact hamid.between
  have hperform : ∀ r s', w.alloc.takeUsed = some (r, s') →
      w.perform N .takeUsed = some (r,
        { w with alloc := s', active := track w.active .takeUsed r }) := by
    intro r s' hs
    rw [perform, hs]
    rfl
  rcases hholds.takeUsed with ⟨-, hs⟩ | ⟨p, M, m', hp, hs, hholds', hactive⟩
  · exact ⟨_, _, m, hperform _ _ hs, .nothing hframes, h⟩
  · have hmem : p ∈ w.active := (h.active p).mpr hp
    refine ⟨_, _, m', hperform _ _ hs, .taken p M hframes hmem, ?_⟩
    refine ⟨?_, h.nested, h.erased hactive, ledger_erase h.ledger hmem⟩
    rw [hframes]
    exact hholds'.amid

theorem Inv.close (hframes : w.frames = []) : Steps N w m .close := by
  have hholds := h.holds
  rw [hframes] at hholds
  refine ⟨_, _, m, rfl, ?_, ?_⟩
  · rw [hframes]
    exact .closes hframes
  · rw [hframes]
    exact ⟨hholds, rfl, h.active, h.ledger⟩

theorem Inv.destroy {p : Ptr} (hp : p ∈ w.active) : Steps N w m (.destroy p) := by
  obtain ⟨b, i⟩ := p
  have hi : i ∈ m.usedSlots b := (h.active (b, i)).mp hp
  have hb : b ∈ w.alloc.blocks := h.holds.active_mem (p := (b, i)) hi
  have hlinked := h.holds.linked_iff hb
  have hactive := h.erased (Slabs.active_erase (i := i) (nodup_usedSlots h.holds.reps b))
  have hledger := ledger_erase h.ledger hp
  -- The slot leaves the used list.
  have h₁ := reps_unlinkUsedSlot h.holds.reps hi
  by_cases hout : b ∈ outs w.frames
  · -- An outer call has taken the block out of its list already.
    have hfalse : w.alloc.links.linked (.inr (.link b)) = false := by
      rw [← Bool.not_eq_true, hlinked]
      exact not_not.mpr hout
    refine ⟨none, _, m.setUsed b ((m.usedSlots b).erase i), ?_,
      .destroyed (b, i) false (w.alloc.links.unlinkUsedSlot (b, i)) hp, ?_⟩
    · rw [perform, State.beginDestroy, hfalse]
      rfl
    · have hnested : Nested (.destroying (b, i) false :: w.frames) :=
        ⟨iff_of_false Bool.false_ne_true (not_not.mpr hout), h.nested⟩
      exact ⟨⟨h₁, h.holds.ok.take hout hi, h.holds.nodup⟩, hnested, hactive, hledger⟩
  · have htrue : w.alloc.links.linked (.inr (.link b)) = true := hlinked.mpr hout
    have hlist : b ∈ m.lists (m.level b) := (h.holds.ok.listed _ b).mpr ⟨⟨hb, hout⟩, rfl⟩
    have h₂ := reps_unlinkBlock h₁ hlist
    have hdetach := h.holds.ok.detach hlist (nodup_lists h.holds.reps)
    refine ⟨none, _, (m.drop b).setUsed b ((m.usedSlots b).erase i), ?_, .destroyed (b, i) true
      ((w.alloc.links.unlinkUsedSlot (b, i)).unlink (.inr (.link b))) hp, ?_⟩
    · rw [perform, State.beginDestroy, htrue]
      rfl
    · have hnested : Nested (.destroying (b, i) true :: w.frames) :=
        ⟨iff_of_true rfl hout, h.nested⟩
      exact ⟨⟨h₂, hdetach.take (List.mem_cons_self ..) hi, h.holds.nodup⟩, hnested, hactive,
        hledger⟩

/-- A slot whose destructor has run can be linked into the free list. -/
theorem Inv.linkFree {f : Frame} {fs : List Frame} {b : Addr} {i : ℕ} (hframes : w.frames = f :: fs)
    (hheld : held (f :: fs) = (b, i) :: held fs) :
    Reps (w.alloc.links.linkFreeSlot b (b, i)) (m.setFree b (i :: m.freeSlots b)).rings ∧
      (m.setFree b (i :: m.freeSlots b)).Amid N w.alloc.blocks (outs (f :: fs)) (held fs) := by
  have hholds := h.holds
  rw [hframes, hheld] at hholds
  have hself : (b, i) ∈ (b, i) :: held fs := List.mem_cons_self ..
  have hb : b ∈ w.alloc.blocks := hholds.ok.away b (hholds.ok.owned (b, i) hself)
  have hfree : i ∉ m.freeSlots b := fun hi => ((hholds.disjoint hb).1 i hi).2 hself
  exact ⟨reps_linkFreeSlot hholds.reps hfree, hholds.ok.give⟩

theorem Inv.returns {p : Ptr} {blockWasLinked : Bool} {fs : List Frame}
    (hframes : w.frames = .destroying p blockWasLinked :: fs) : Steps N w m .ret := by
  obtain ⟨b, i⟩ := p
  obtain ⟨h₁, hgive⟩ := h.linkFree hframes rfl
  have hnested := h.nested
  rw [hframes] at hnested
  obtain ⟨hlinked, hnested⟩ := hnested
  cases blockWasLinked with
  | false =>
    refine ⟨none, _, _, ?_, .returns (b, i) false fs (w.alloc.links.linkFreeSlot b (b, i)) hframes,
      ⟨h₁, hgive, h.holds.nodup⟩, hnested, h.active, h.ledger⟩
    rw [perform, ret, hframes]
    rfl
  | true =>
    -- The outermost call in the block links it again.
    have hout : b ∉ outs fs := hlinked.mp rfl
    have hlists : ∀ l, b ∉ (m.setFree b (i :: m.freeSlots b)).lists l := by
      intro l hmem
      exact ((hgive.listed l b).mp hmem).1.2 (List.mem_cons_self ..)
    have h₂ := reps_linkBlock h₁ hlists
    refine ⟨none, _, _, ?_, .returns (b, i) true fs
      ((w.alloc.links.linkFreeSlot b (b, i)).linkBlock b) hframes,
      ⟨h₂, hgive.attach hout hnested.owned, h.holds.nodup⟩, hnested, h.active, h.ledger⟩
    rw [perform, ret, hframes]
    rfl

theorem Inv.frees {l : Level} {p : Ptr} (hframes : w.frames = [.releasing l p]) :
    Steps N w m .ret := by
  obtain ⟨b, i⟩ := p
  obtain ⟨h₁, hgive⟩ := h.linkFree hframes rfl
  refine ⟨none, _, _, ?_, .frees l (b, i) (w.alloc.links.linkFreeSlot b (b, i)) hframes,
    ⟨h₁, hgive, h.holds.nodup⟩, rfl, h.active, h.ledger⟩
  rw [perform, ret, hframes]
  rfl

theorem Inv.goClosing {l : Level} (hframes : w.frames = [.closing l]) : Steps N w m .go := by
  have hholds := h.holds
  rw [hframes] at hholds
  have hfirst := first_head hholds.reps l
  cases hlist : m.lists l with
  | nil =>
    rw [hlist] at hfirst
    cases hk : l.next with
    | some k =>
      refine ⟨none, _, m, ?_, .list l k hframes hlist hk, hholds, rfl, h.active, h.ledger⟩
      simp only [perform, go, hframes, hk]
      rw [show w.alloc.links.first (.inl l.head) = none from hfirst]
      rfl
    | none =>
      refine ⟨none, _, m, ?_, .done l hframes hlist hk, hholds, trivial, h.active, h.ledger⟩
      simp only [perform, go, hframes, hk]
      rw [show w.alloc.links.first (.inl l.head) = none from hfirst]
      rfl
  | cons b bs =>
    have hb : b ∈ m.lists l := hlist ▸ List.mem_cons_self ..
    rw [hlist] at hfirst
    have hdetach := hholds.ok.detach hb (nodup_lists hholds.reps)
    refine ⟨none, _, _, ?_, .block l b (w.alloc.links.unlink (.inr (.link b))) hframes,
      ⟨reps_unlinkBlock hholds.reps hb, hdetach, hholds.nodup⟩, rfl, h.active, h.ledger⟩
    simp only [perform, go, hframes]
    rw [show w.alloc.links.first (.inl l.head) = some (.inr (.link b)) from hfirst]
    rfl

theorem Inv.goBlock {l : Level} {b : Addr} (hframes : w.frames = [.closingBlock l b]) :
    Steps N w m .go := by
  have hholds := h.holds
  rw [hframes] at hholds
  have hout : b ∈ outs [.closingBlock l b] := List.mem_cons_self ..
  have hb : b ∈ w.alloc.blocks := hholds.ok.away b hout
  have hslot := firstUsedSlot_eq hholds.reps b
  cases hused : m.usedSlots b with
  | nil =>
    rw [hused] at hslot
    have hlen := (hholds.ok.slots b hb).length_eq
    rw [List.length_append, List.length_range] at hlen
    obtain ⟨M, hM, hreps⟩ := reps_resetFreeList (N := N) (b := b) hholds.reps
      (hlen ▸ Nat.le_add_right ..) (by simp [hused])
    have hdelete := hholds.ok.delete hholds.nodup List.not_mem_nil (by simp [held]) (List.range N)
    have hactive : ∀ q, ((m.setFree b (List.range N)).setUsed b []).Active q ↔ m.Active q := by
      rintro ⟨c, j⟩
      by_cases hcb : c = b
      · subst hcb
        simp [Slabs.Active, hused]
      · simp [Slabs.Active, hcb]
    refine ⟨none, _, _, ?_, .delete l b M hframes hb,
      ⟨hreps, hdelete, hholds.nodup.erase b⟩, rfl, ?_, h.ledger⟩
    · simp only [perform, go, hframes]
      rw [show w.alloc.links.firstUsedSlot b = none from hslot]
      show ((w.alloc.links.resetFreeList N b).bind _).map _ = _
      rw [hM]
      rfl
    · intro q
      rw [hactive]
      exact h.active q
  | cons i is =>
    rw [hused] at hslot
    have hi : i ∈ m.usedSlots b := hused ▸ List.mem_cons_self ..
    have hp : (b, i) ∈ w.active := (h.active (b, i)).mpr hi
    have hactive := h.erased (Slabs.active_erase (i := i) (nodup_usedSlots hholds.reps b))
    refine ⟨none, _, _, ?_, .release l b i (w.alloc.links.unlinkUsedSlot (b, i)) hframes hp,
      ⟨reps_unlinkUsedSlot hholds.reps hi, hholds.ok.take hout hi, hholds.nodup⟩, rfl, hactive,
      ledger_erase h.ledger hp⟩
    simp only [perform, go, hframes]
    rw [show w.alloc.links.firstUsedSlot b = some (b, i) from hslot]
    rfl

/-- **One step.** What is allowed does one of the moves and keeps the invariant. -/
theorem Inv.perform (hN : 0 < N) {act : Act} (hact : w.Allowed act) : Steps N w m act := by
  cases act with
  | allocate room => exact h.allocate hN hact.2
  | destroy p => exact h.destroy hact.2
  | takeUsed => exact h.takeUsed hact
  | close => exact h.close hact
  | ret =>
    obtain ⟨hcontrol, hne⟩ := hact
    have hnested := h.nested
    cases hframes : w.frames with
    | nil => exact absurd hframes hne
    | cons f fs =>
      rw [hframes] at hcontrol hnested
      cases f with
      | destroying p blockWasLinked => exact h.returns hframes
      | closing l => cases hcontrol
      | closingBlock l b => cases hcontrol
      | releasing l p =>
        obtain rfl : fs = [] := hnested
        exact h.frees hframes
  | go =>
    have hcontrol : hasControl w.frames = false := hact
    have hnested := h.nested
    cases hframes : w.frames with
    | nil =>
      rw [hframes] at hcontrol
      cases hcontrol
    | cons f fs =>
      rw [hframes] at hcontrol hnested
      cases f with
      | destroying p blockWasLinked => cases hcontrol
      | closing l =>
        obtain rfl : fs = [] := hnested
        exact h.goClosing hframes
      | closingBlock l b =>
        obtain rfl : fs = [] := hnested
        exact h.goBlock hframes
      | releasing l p => cases hcontrol

end Moves

end Calls

end WasmerNapi.Allocator
