import WasmerNapi.Allocator.Basic

/-!
# Slabs

The allocator one level up: no pointers, but the lists they stand for. `Slabs` has three
lists of blocks and two lists of slot indices for each block, and `Slabs.rings` says which
ring of the heap holds which of them. Each pointer operation of `Allocator/Basic.lean` is
one field update here (the `rings_*` equations), so the rules of `Lib/Ring.lean` apply and
what is left of the allocator's correctness is about lists.

`Ok` is the invariant. Between the steps of an operation it does not hold: a slot is in
neither list, or a block not in the list it belongs to. The heap stands for *some* slabs
throughout, though, and `Ok.settle` gives the invariant back at the end of each operation
that moves one slot.
-/

namespace WasmerNapi.Allocator

open Ring Function
open List (mem_map range not_mem_nil mem_cons mem_cons_of_mem)

/-- The fill levels a block can have. -/
inductive Level where
  | free
  | used
  | part
  deriving DecidableEq, Repr

def Level.head : Level → Head
  | .free => .firstFree
  | .used => .firstUsed
  | .part => .firstPartial

structure Slabs where
  lists : Level → List Addr
  freeSlots : Addr → List ℕ
  usedSlots : Addr → List ℕ

namespace Slabs

def none : Slabs := ⟨fun _ => [], fun _ => [], fun _ => []⟩

/-- The rings that hold these lists. -/
def rings (m : Slabs) : Head → List Elem
  | .firstFree => (m.lists .free).map .link
  | .firstUsed => (m.lists .used).map .link
  | .firstPartial => (m.lists .part).map .link
  | .firstFreeSlot b => (m.freeSlots b).map (.freeLink b)
  | .firstUsedSlot b => (m.usedSlots b).map (.usedLink b)

def setFree (m : Slabs) (b : Addr) (is : List ℕ) : Slabs :=
  { m with freeSlots := update m.freeSlots b is }

def setUsed (m : Slabs) (b : Addr) (is : List ℕ) : Slabs :=
  { m with usedSlots := update m.usedSlots b is }

def drop (m : Slabs) (b : Addr) : Slabs := { m with lists := fun l => (m.lists l).erase b }

def add (m : Slabs) (l : Level) (b : Addr) : Slabs :=
  { m with lists := update m.lists l (b :: m.lists l) }

/-- The level of a block, as `link_block` finds it. -/
def level (m : Slabs) (b : Addr) : Level :=
  if m.usedSlots b = [] then .free else if m.freeSlots b = [] then .used else .part

def Active (m : Slabs) (p : Ptr) : Prop := p.2 ∈ m.usedSlots p.1

section

variable (m : Slabs) (b c : Addr) (l k : Level) (is js : List ℕ)

@[simp] theorem setFree_lists : (m.setFree b is).lists = m.lists := rfl

@[simp] theorem setFree_usedSlots : (m.setFree b is).usedSlots = m.usedSlots := rfl

@[simp] theorem setUsed_lists : (m.setUsed b is).lists = m.lists := rfl

@[simp] theorem setUsed_freeSlots : (m.setUsed b is).freeSlots = m.freeSlots := rfl

@[simp] theorem drop_freeSlots : (m.drop b).freeSlots = m.freeSlots := rfl

@[simp] theorem drop_usedSlots : (m.drop b).usedSlots = m.usedSlots := rfl

@[simp] theorem drop_lists : (m.drop b).lists l = (m.lists l).erase b := rfl

@[simp] theorem add_freeSlots : (m.add l b).freeSlots = m.freeSlots := rfl

@[simp] theorem add_usedSlots : (m.add l b).usedSlots = m.usedSlots := rfl

@[simp] theorem setFree_freeSlots :
    (m.setFree b is).freeSlots c = if c = b then is else m.freeSlots c :=
  update_apply ..

@[simp] theorem setUsed_usedSlots :
    (m.setUsed b is).usedSlots c = if c = b then is else m.usedSlots c :=
  update_apply ..

@[simp] theorem add_lists : (m.add l b).lists k = if k = l then b :: m.lists l else m.lists k :=
  update_apply ..

@[simp] theorem setFree_setFree : (m.setFree b is).setFree b js = m.setFree b js := by
  unfold setFree
  rw [update_idem]

@[simp] theorem setUsed_setUsed : (m.setUsed b is).setUsed b js = m.setUsed b js := by
  unfold setUsed
  rw [update_idem]

@[simp] theorem setUsed_setFree :
    (m.setUsed b is).setFree b js = (m.setFree b js).setUsed b is := rfl

@[simp] theorem setFree_self : m.setFree b (m.freeSlots b) = m := by
  unfold setFree
  rw [update_eq_self]

end

theorem setUsed_self {m : Slabs} {b : Addr} {is : List ℕ} (h : m.usedSlots b = is) :
    m.setUsed b is = m := by
  subst h
  unfold setUsed
  rw [update_eq_self]

variable {i : ℕ}

theorem active_erase {m : Slabs} {b : Addr} (hnodup : (m.usedSlots b).Nodup) (q : Ptr) :
    (m.setUsed b ((m.usedSlots b).erase i)).Active q ↔ q ≠ (b, i) ∧ m.Active q := by
  obtain ⟨c, j⟩ := q
  by_cases hcb : c = b
  · subst hcb
    simp [Active, hnodup.mem_erase_iff]
  · simp [Active, hcb]

/-! ## The pointer operations on the rings -/

theorem rings_head (m : Slabs) (l : Level) : m.rings l.head = (m.lists l).map .link := by
  cases l <;> rfl

variable {h : Head}

theorem link_mem {m : Slabs} {b : Addr} :
    .link b ∈ m.rings h ↔ ∃ l : Level, h = l.head ∧ b ∈ m.lists l := by
  constructor
  · intro hmem
    cases h with
    | firstFree => exact ⟨.free, rfl, by simpa [rings] using hmem⟩
    | firstUsed => exact ⟨.used, rfl, by simpa [rings] using hmem⟩
    | firstPartial => exact ⟨.part, rfl, by simpa [rings] using hmem⟩
    | firstFreeSlot c => simp [rings] at hmem
    | firstUsedSlot c => simp [rings] at hmem
  · rintro ⟨l, rfl, hb⟩
    rw [rings_head]
    exact List.mem_map_of_mem hb

theorem freeLink_mem {m : Slabs} {b : Addr} :
    .freeLink b i ∈ m.rings h ↔ h = .firstFreeSlot b ∧ i ∈ m.freeSlots b := by
  cases h with
  | firstFreeSlot c =>
    simp only [rings, mem_map, Elem.freeLink.injEq, Head.firstFreeSlot.injEq]
    constructor
    · rintro ⟨j, hj, rfl, rfl⟩
      exact ⟨rfl, hj⟩
    · rintro ⟨rfl, hi⟩
      exact ⟨i, hi, rfl, rfl⟩
  | _ => simp [rings]

theorem usedLink_mem {m : Slabs} {b : Addr} :
    .usedLink b i ∈ m.rings h ↔ h = .firstUsedSlot b ∧ i ∈ m.usedSlots b := by
  cases h with
  | firstUsedSlot c =>
    simp only [rings, mem_map, Elem.usedLink.injEq, Head.firstUsedSlot.injEq]
    constructor
    · rintro ⟨j, hj, rfl, rfl⟩
      exact ⟨rfl, hj⟩
    · rintro ⟨rfl, hi⟩
      exact ⟨i, hi, rfl, rfl⟩
  | _ => simp [rings]

theorem erase_freeLink (m : Slabs) (b : Addr) (i : ℕ) :
    erase m.rings (.freeLink b i) = (m.setFree b ((m.freeSlots b).erase i)).rings := by
  funext h
  unfold erase
  by_cases hh : h = .firstFreeSlot b
  · subst hh
    have hinj : Injective (Elem.freeLink b) := fun i j hij => (Elem.freeLink.inj hij).2
    simp [rings, List.map_erase hinj]
  · rw [List.erase_of_not_mem fun hmem => hh (freeLink_mem.mp hmem).1]
    cases h with
    | firstFreeSlot c =>
      have hcb : c ≠ b := fun heq => hh (congrArg _ heq)
      simp [rings, hcb]
    | _ => rfl

theorem erase_usedLink (m : Slabs) (b : Addr) (i : ℕ) :
    erase m.rings (.usedLink b i) = (m.setUsed b ((m.usedSlots b).erase i)).rings := by
  funext h
  unfold erase
  by_cases hh : h = .firstUsedSlot b
  · subst hh
    have hinj : Injective (Elem.usedLink b) := fun i j hij => (Elem.usedLink.inj hij).2
    simp [rings, List.map_erase hinj]
  · rw [List.erase_of_not_mem fun hmem => hh (usedLink_mem.mp hmem).1]
    cases h with
    | firstUsedSlot c =>
      have hcb : c ≠ b := fun heq => hh (congrArg _ heq)
      simp [rings, hcb]
    | _ => rfl

theorem erase_link (m : Slabs) (b : Addr) : erase m.rings (.link b) = (m.drop b).rings := by
  have hinj : Injective Elem.link := fun _ _ => Elem.link.inj
  funext h
  unfold erase
  cases h with
  | firstFreeSlot c => exact List.erase_of_not_mem fun hmem => by simp [rings] at hmem
  | firstUsedSlot c => exact List.erase_of_not_mem fun hmem => by simp [rings] at hmem
  | _ => simp [rings, List.map_erase hinj]

theorem cons_freeLink (m : Slabs) (b : Addr) (i : ℕ) :
    cons m.rings (.firstFreeSlot b) (.freeLink b i) = (m.setFree b (i :: m.freeSlots b)).rings := by
  funext h
  unfold cons
  cases h with
  | firstFreeSlot c =>
    by_cases hcb : c = b
    · subst hcb
      simp [rings]
    · simp [rings, hcb]
  | _ => simp [rings]

theorem cons_usedLink (m : Slabs) (b : Addr) (i : ℕ) :
    cons m.rings (.firstUsedSlot b) (.usedLink b i) = (m.setUsed b (i :: m.usedSlots b)).rings := by
  funext h
  unfold cons
  cases h with
  | firstUsedSlot c =>
    by_cases hcb : c = b
    · subst hcb
      simp [rings]
    · simp [rings, hcb]
  | _ => simp [rings]

theorem cons_link (m : Slabs) (l : Level) (b : Addr) :
    cons m.rings l.head (.link b) = (m.add l b).rings := by
  funext h
  unfold cons
  cases l <;> cases h <;> simp [rings, Level.head]

theorem update_freeSlot (m : Slabs) (b : Addr) :
    update m.rings (.firstFreeSlot b) [] = (m.setFree b []).rings := by
  funext h
  cases h with
  | firstFreeSlot c =>
    by_cases hcb : c = b
    · subst hcb
      simp [rings]
    · simp [rings, hcb]
  | _ => simp [rings]

theorem update_usedSlot (m : Slabs) (b : Addr) :
    update m.rings (.firstUsedSlot b) [] = (m.setUsed b []).rings := by
  funext h
  cases h with
  | firstUsedSlot c =>
    by_cases hcb : c = b
    · subst hcb
      simp [rings]
    · simp [rings, hcb]
  | _ => simp [rings]

/-- The rings of a block that has just been constructed. -/
theorem rings_construct (m : Slabs) (b : Addr) :
    (fun h => if Node.home (.inl h) = some b then [] else m.rings h) =
      ((m.setFree b []).setUsed b []).rings := by
  funext h
  cases h with
  | firstFreeSlot c => by_cases hcb : c = b <;> simp [rings, Node.home, hcb]
  | firstUsedSlot c => by_cases hcb : c = b <;> simp [rings, Node.home, hcb]
  | _ => simp [rings, Node.home]

end Slabs

/-! ## The invariant -/

/-- Each block's slots are shared out between its two lists, and each block is in the list
    of its level and in no other. A deleted block has no used slots. -/
structure Slabs.Ok (N : ℕ) (blocks : List Addr) (m : Slabs) : Prop where
  slots : ∀ b ∈ blocks, (m.freeSlots b ++ m.usedSlots b).Perm (range N)
  dead : ∀ b, b ∉ blocks → m.usedSlots b = []
  listed : ∀ l b, b ∈ m.lists l ↔ b ∈ blocks ∧ m.level b = l

namespace Slabs

theorem ok_none (N : ℕ) : Slabs.none.Ok N [] where
  slots _ hb := absurd hb not_mem_nil
  dead _ _ := rfl
  listed _ _ := ⟨fun h => absurd h not_mem_nil, fun h => absurd h.1 not_mem_nil⟩

variable {N : ℕ} {blocks : List Addr} {m : Slabs} {b : Addr}

theorem level_eq_free : m.level b = .free ↔ m.usedSlots b = [] := by
  unfold level
  split
  · simp [*]
  · split <;> simp [*]

theorem Ok.length_le (h : m.Ok N blocks) (hb : b ∈ blocks) :
    (m.freeSlots b).length ≤ N ∧ (m.usedSlots b).length ≤ N := by
  have hlen := (h.slots b hb).length_eq
  rw [List.length_append, List.length_range] at hlen
  exact ⟨hlen ▸ Nat.le_add_right .., hlen ▸ Nat.le_add_left ..⟩

/-- Lists of one block do not matter to another's level. -/
theorem level_set (m : Slabs) {c : Addr} (hcb : c ≠ b) {free used : List ℕ} :
    ((m.setFree b free).setUsed b used).level c = m.level c := by
  unfold level
  simp [hcb]

/-- Move the block to the list of its level. -/
def settle (m : Slabs) (b : Addr) : Slabs := (m.drop b).add (m.level b) b

/-! ## The invariant amid calls -/

/-- The slots of a block among some pointers. -/
def slotsIn (ps : List Ptr) (b : Addr) : List ℕ := (ps.filter fun p => p.1 = b).map Prod.snd

@[simp] theorem slotsIn_nil (b : Addr) : slotsIn [] b = [] := rfl

theorem slotsIn_cons (p : Ptr) (ps : List Ptr) (b : Addr) :
    slotsIn (p :: ps) b = if p.1 = b then p.2 :: slotsIn ps b else slotsIn ps b := by
  unfold slotsIn
  by_cases hp : p.1 = b <;> simp [hp]

theorem slotsIn_eq_nil {ps : List Ptr} (h : ∀ p ∈ ps, p.1 ≠ b) : slotsIn ps b = [] := by
  unfold slotsIn
  rw [List.filter_eq_nil_iff.mpr, List.map_nil]
  intro p hp
  simpa using h p hp

end Slabs

/-- The invariant while calls are under way: the blocks in `out` are in no list, and the slots in
    `held`, which are theirs, neither free nor used. -/
structure Slabs.Amid (N : ℕ) (blocks out : List Addr) (held : List Ptr) (m : Slabs) : Prop where
  slots : ∀ b ∈ blocks,
    (m.freeSlots b ++ (m.usedSlots b ++ Slabs.slotsIn held b)).Perm (range N)
  dead : ∀ b, b ∉ blocks → m.usedSlots b = []
  listed : ∀ l b, b ∈ m.lists l ↔ (b ∈ blocks ∧ b ∉ out) ∧ m.level b = l
  away : ∀ b ∈ out, b ∈ blocks
  owned : ∀ p ∈ held, p.1 ∈ out

namespace Slabs

variable {N : ℕ} {blocks out : List Addr} {held : List Ptr} {m : Slabs} {b : Addr}

/-- Between calls it is the invariant. -/
theorem amid_nil : m.Amid N blocks [] [] ↔ m.Ok N blocks := by
  constructor
  · intro h
    refine ⟨fun b hb => ?_, h.dead, fun l b => ?_⟩
    · simpa using h.slots b hb
    · simpa using h.listed l b
  · intro h
    refine ⟨fun b hb => ?_, h.dead, fun l b => ?_, by simp, by simp⟩
    · simpa using h.slots b hb
    · simpa using h.listed l b

theorem Amid.none_held (h : m.Amid N blocks out held) (hb : b ∉ out) : slotsIn held b = [] :=
  slotsIn_eq_nil fun p hp heq => hb (heq ▸ h.owned p hp)

/-- A block leaves its list. -/
theorem Amid.detach (h : m.Amid N blocks out held) {l : Level} (hb : b ∈ m.lists l)
    (hnodup : ∀ l, (m.lists l).Nodup) : (m.drop b).Amid N blocks (b :: out) held := by
  refine ⟨h.slots, h.dead, ?_, ?_, ?_⟩
  · intro k c
    have hlevel : (m.drop b).level c = m.level c := rfl
    rw [drop_lists, (hnodup k).mem_erase_iff, h.listed k c, hlevel, mem_cons, not_or]
    constructor
    · rintro ⟨hcb, ⟨hc, hout⟩, hk⟩
      exact ⟨⟨hc, hcb, hout⟩, hk⟩
    · rintro ⟨⟨hc, hcb, hout⟩, hk⟩
      exact ⟨hcb, ⟨hc, hout⟩, hk⟩
  · intro c hc
    rcases mem_cons.mp hc with rfl | hc
    · exact ((h.listed l c).mp hb).1.1
    · exact h.away c hc
  · intro p hp
    exact mem_cons_of_mem b (h.owned p hp)

variable {free used : List ℕ}

/-- While a block is in no list, its slots can be shared out anew. -/
theorem Amid.reslot (h : m.Amid N blocks out held) (hb : b ∈ out) {held' : List Ptr}
    (hslots : (free ++ (used ++ slotsIn held' b)).Perm (range N))
    (hother : ∀ c, c ≠ b → slotsIn held' c = slotsIn held c) (hheld : ∀ p ∈ held', p.1 ∈ out) :
    ((m.setFree b free).setUsed b used).Amid N blocks out held' := by
  refine ⟨?_, ?_, ?_, h.away, hheld⟩
  · intro c hc
    by_cases hcb : c = b
    · subst hcb
      simpa using hslots
    · simpa [hcb, hother c hcb] using h.slots c hc
  · intro c hc
    have hcb : c ≠ b := fun heq => hc (heq ▸ h.away b hb)
    simpa [hcb] using h.dead c hc
  · intro l c
    rw [setUsed_lists, setFree_lists, h.listed l c]
    by_cases hcb : c = b
    · subst hcb
      simp [hb]
    · rw [level_set m hcb]

/-- A used slot of such a block is held from now on. -/
theorem Amid.take (h : m.Amid N blocks out held) (hb : b ∈ out) {i : ℕ} (hi : i ∈ m.usedSlots b) :
    (m.setUsed b ((m.usedSlots b).erase i)).Amid N blocks out ((b, i) :: held) := by
  have hslots : (m.freeSlots b ++ ((m.usedSlots b).erase i ++ slotsIn ((b, i) :: held) b)).Perm
      (range N) := by
    rw [slotsIn_cons, if_pos rfl]
    refine (List.Perm.append_left _ ?_).trans (h.slots b (h.away b hb))
    exact List.perm_middle.trans ((List.perm_cons_erase hi).symm.append_right _)
  have hreslot := h.reslot hb hslots
    (fun c hc => by rw [slotsIn_cons, if_neg (Ne.symm hc)])
    (List.forall_mem_cons.mpr ⟨hb, h.owned⟩)
  rwa [setFree_self] at hreslot

/-- A held slot is free from now on. -/
theorem Amid.give {i : ℕ} (h : m.Amid N blocks out ((b, i) :: held)) :
    (m.setFree b (i :: m.freeSlots b)).Amid N blocks out held := by
  obtain ⟨hb, howned⟩ := List.forall_mem_cons.mp h.owned
  have hslots := h.slots b (h.away b hb)
  rw [slotsIn_cons, if_pos rfl] at hslots
  have hback : ((i :: m.freeSlots b) ++ (m.usedSlots b ++ slotsIn held b)).Perm
      (range N) := by
    refine List.Perm.trans ?_ hslots
    rw [← List.append_assoc, ← List.append_assoc]
    exact List.perm_middle.symm
  have hreslot := h.reslot hb hback
    (fun c hc => by rw [slotsIn_cons, if_neg (Ne.symm hc)]) howned
  have hused : (m.setFree b (i :: m.freeSlots b)).setUsed b (m.usedSlots b) =
      m.setFree b (i :: m.freeSlots b) := setUsed_self rfl
  exact hused ▸ hreslot

/-- A block with no slot held joins the list of its level. -/
theorem Amid.attach (h : m.Amid N blocks (b :: out) held) (hb : b ∉ out)
    (hheld : ∀ p ∈ held, p.1 ∈ out) : (m.add (m.level b) b).Amid N blocks out held := by
  refine ⟨h.slots, h.dead, ?_, fun c hc => h.away c (mem_cons_of_mem b hc), hheld⟩
  intro l c
  have hlevel : (m.add (m.level b) b).level c = m.level c := rfl
  have hmem : c ∈ (m.add (m.level b) b).lists l ↔ (l = m.level b ∧ c = b) ∨ c ∈ m.lists l := by
    rw [add_lists]
    split
    · simp [*]
    · simp [*]
  rw [hmem, h.listed l c, hlevel]
  by_cases hcb : c = b
  · subst hcb
    have hc : c ∈ blocks := h.away c (List.mem_cons_self ..)
    simp [hc, hb, eq_comm]
  · simp [hcb]

/-- A new block, which is in no list yet. -/
theorem Amid.create (h : m.Amid N blocks out held) (hb : b ∉ blocks) :
    ((m.setFree b (range N)).setUsed b []).Amid N (b :: blocks) (b :: out) held := by
  refine ⟨?_, ?_, ?_, ?_, fun p hp => mem_cons_of_mem b (h.owned p hp)⟩
  · intro c hc
    by_cases hcb : c = b
    · subst hcb
      have hnil := h.none_held fun hmem => hb (h.away c hmem)
      simp [hnil]
    · simpa [hcb] using h.slots c ((mem_cons.mp hc).resolve_left hcb)
  · intro c hc
    obtain ⟨hcb, hc⟩ := not_or.mp (mem_cons.not.mp hc)
    simpa [hcb] using h.dead c hc
  · intro l c
    rw [setUsed_lists, setFree_lists, h.listed l c]
    by_cases hcb : c = b
    · subst hcb
      simp [hb]
    · rw [level_set m hcb]
      simp [hcb]
  · intro c hc
    rcases mem_cons.mp hc with rfl | hc
    · exact List.mem_cons_self ..
    · exact mem_cons_of_mem b (h.away c hc)

/-- A block in no list, with no slot held, is deleted. -/
theorem Amid.delete (h : m.Amid N blocks (b :: out) held) (hblocks : blocks.Nodup) (hb : b ∉ out)
    (hheld : ∀ p ∈ held, p.1 ∈ out) (free : List ℕ) :
    ((m.setFree b free).setUsed b []).Amid N (blocks.erase b) out held := by
  refine ⟨?_, ?_, ?_, ?_, hheld⟩
  · intro c hc
    obtain ⟨hcb, hc⟩ := hblocks.mem_erase_iff.mp hc
    simpa [hcb] using h.slots c hc
  · intro c hc
    by_cases hcb : c = b
    · simp [hcb]
    · simpa [hcb] using h.dead c fun hmem => hc (hblocks.mem_erase_iff.mpr ⟨hcb, hmem⟩)
  · intro l c
    rw [setUsed_lists, setFree_lists, h.listed l c, hblocks.mem_erase_iff]
    by_cases hcb : c = b
    · simp [hcb]
    · rw [level_set m hcb]
      simp [hcb]
  · intro c hc
    have hcb : c ≠ b := fun heq => hb (heq ▸ hc)
    exact hblocks.mem_erase_iff.mpr ⟨hcb, h.away c (mem_cons_of_mem b hc)⟩

/-! ## Whole operations -/

/-- However a block's slots have been shared out, settling it restores the invariant. -/
theorem Amid.settle (h : m.Amid N blocks out held) (hb : b ∈ blocks) (hout : b ∉ out)
    (hslots : (free ++ used).Perm (range N)) (hnodup : ∀ l, (m.lists l).Nodup) :
    (((m.setFree b free).setUsed b used).settle b).Amid N blocks out held := by
  have hheld := h.none_held hout
  have hdetach := h.detach ((h.listed _ b).mpr ⟨⟨hb, hout⟩, rfl⟩) hnodup
  have hslots' : (free ++ (used ++ slotsIn held b)).Perm (range N) := by
    rwa [hheld, List.append_nil]
  have hreslot := hdetach.reslot (List.mem_cons_self ..) hslots' (fun _ _ => rfl) hdetach.owned
  exact hreslot.attach hout h.owned

theorem Ok.settle (h : m.Ok N blocks) (hb : b ∈ blocks)
    (hslots : (free ++ used).Perm (range N)) (hnodup : ∀ l, (m.lists l).Nodup) :
    (((m.setFree b free).setUsed b used).settle b).Ok N blocks :=
  amid_nil.mp ((amid_nil.mpr h).settle hb not_mem_nil hslots hnodup)

/-- A new block joins the free list. -/
theorem Amid.join (h : m.Amid N blocks out held) (hb : b ∉ blocks) :
    (((m.setFree b (range N)).setUsed b []).add .free b).Amid N (b :: blocks) out held := by
  have hfree : ((m.setFree b (range N)).setUsed b []).level b = .free :=
    level_eq_free.mpr (if_pos rfl)
  rw [← hfree]
  exact (h.create hb).attach (fun hmem => hb (h.away b hmem)) h.owned

/-- A deleted block leaves its list, and none of its slots is used. -/
theorem Ok.delete (h : m.Ok N blocks) (hb : b ∈ blocks) (hblocks : blocks.Nodup)
    (hnodup : ∀ l, (m.lists l).Nodup) (free : List ℕ) :
    (((m.drop b).setFree b free).setUsed b []).Ok N (blocks.erase b) := by
  have hdetach := (amid_nil.mpr h).detach ((h.listed _ b).mpr ⟨hb, rfl⟩) hnodup
  exact amid_nil.mp (hdetach.delete hblocks not_mem_nil (by simp) free)

/-! ## Where there is something, and where there is room -/

/-- The blocks `take_used` and the iterator look at, in their order. -/
def busy (m : Slabs) : List Addr := m.lists .used ++ m.lists .part

/-- The blocks `allocate` looks at. -/
def roomy (m : Slabs) : List Addr := m.lists .part ++ m.lists .free

theorem Ok.mem_busy (h : m.Ok N blocks) : b ∈ m.busy ↔ b ∈ blocks ∧ m.usedSlots b ≠ [] := by
  unfold busy
  rw [List.mem_append, h.listed, h.listed, ← and_or_left]
  refine and_congr_right fun _ => ?_
  unfold level
  split
  · simp [*]
  · split <;> simp [*]

theorem Amid.mem_roomy (h : m.Amid N blocks out held) (hN : 0 < N) :
    b ∈ m.roomy ↔ (b ∈ blocks ∧ b ∉ out) ∧ m.freeSlots b ≠ [] := by
  unfold roomy
  rw [List.mem_append, h.listed, h.listed, ← and_or_left]
  refine and_congr_right fun hb => ?_
  have hheld := h.none_held hb.2
  have hlen := (h.slots b hb.1).length_eq
  rw [hheld, List.append_nil, List.length_append, List.length_range] at hlen
  unfold level
  split
  · -- An empty block has all its slots free, and it has at least one.
    rename_i hused
    have hfree : m.freeSlots b ≠ [] := by
      intro hnil
      rw [hused, hnil] at hlen
      exact absurd hlen (Nat.ne_of_lt hN)
    simp [hfree]
  · split <;> simp [*]

/-! ## The active pointers -/

/-- The pointers to the used slots of some blocks. -/
def pointers (m : Slabs) (bs : List Addr) : List Ptr :=
  bs.flatMap fun b => (m.usedSlots b).map (Prod.mk b)

theorem mem_pointers {bs : List Addr} {p : Ptr} :
    p ∈ m.pointers bs ↔ p.1 ∈ bs ∧ m.Active p := by
  unfold pointers Active
  rw [List.mem_flatMap]
  constructor
  · rintro ⟨b, hb, hp⟩
    obtain ⟨i, hi, rfl⟩ := mem_map.mp hp
    exact ⟨hb, hi⟩
  · rintro ⟨hb, hi⟩
    exact ⟨p.1, hb, mem_map.mpr ⟨p.2, hi, rfl⟩⟩

theorem pointers_append (m : Slabs) (as bs : List Addr) :
    m.pointers (as ++ bs) = m.pointers as ++ m.pointers bs :=
  List.flatMap_append

theorem pointers_cons (m : Slabs) (b : Addr) (bs : List Addr) :
    m.pointers (b :: bs) = (m.usedSlots b).map (Prod.mk b) ++ m.pointers bs :=
  List.flatMap_cons

theorem nodup_pointers {bs : List Addr} (hbs : bs.Nodup) (hused : ∀ b ∈ bs, (m.usedSlots b).Nodup) :
    (m.pointers bs).Nodup := by
  refine List.nodup_flatMap.mpr ⟨?_, ?_⟩
  · intro b hb
    exact (hused b hb).map fun i j hij => (Prod.mk.inj hij).2
  · refine hbs.imp fun hne => ?_
    intro p hp hq
    obtain ⟨i, _, rfl⟩ := mem_map.mp hp
    obtain ⟨j, _, heq⟩ := mem_map.mp hq
    exact hne (Prod.mk.inj heq).1.symm

end Slabs

end WasmerNapi.Allocator
