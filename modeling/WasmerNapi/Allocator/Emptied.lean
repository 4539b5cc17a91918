import WasmerNapi.Allocator.Reentrant

/-!
# What destructors that call back leave

From the moves of `Allocator/Reentrant.lean`: what a step hands out and what a run has created and
released, that `close` ends if its destructors stop allocating, and what it leaves.

`close` has three loops, one for each list, and does not come back to a list. A destructor that
runs in the second one and fills a block puts it in the first list, where it stays:
`close_leaves_a_block`. `LeavesRoom` is the condition under which that does not happen, and
`Emptied` what each loop has then achieved when it is over.
-/

namespace WasmerNapi.Allocator

open Ring Function

namespace Calls

/-! ## What a step does -/

def Answer (w : Calls) (act : Act) (r : Option Ptr) (w' : Calls) : Prop :=
  match act with
  | .allocate room =>
    -- Not a slot in use, nor one of a block some call is in.
    (∀ p, r = some p → p ∉ w.active ∧ (∀ f ∈ w.frames, f.block ≠ some p.1) ∧
      w'.active = insert p w.active) ∧
    (r = none → room = none ∧ w' = w) ∧ w'.frames = w.frames
  | .destroy p =>
    w'.active = w.active.erase p ∧ w'.alloc.released = p :: w.alloc.released ∧
    ∃ blockWasLinked, w'.frames = .destroying p blockWasLinked :: w.frames
  | .takeUsed =>
    (r = none → w' = w) ∧ ∀ p, r = some p → p ∈ w.active ∧ w'.active = w.active.erase p
  | .close => w'.active = w.active ∧ w'.frames = [.closing .used]
  | .ret => w'.active = w.active ∧ w'.alloc.released = w.alloc.released
  | .go => w'.active ⊆ w.active

theorem Move.answer {w w' : Calls} {m : Slabs} {act : Act} {r : Option Ptr} (hnested : Nested w.frames)
    (h : Move w m act r w') : w.Answer act r w' := by
  -- The blocks of the calls are in no list.
  have hblock : ∀ b, b ∉ outs w.frames → ∀ f ∈ w.frames, f.block ≠ some b := by
    intro b hout f hf hb
    exact hout (hnested.block_mem hf hb)
  cases h with
  | found room p L hp hout hfirst =>
    refine ⟨?_, nofun, rfl⟩
    intro q hq
    cases hq
    exact ⟨hp, hblock _ hout, rfl⟩
  | made b i L hp hout hroomy hb =>
    refine ⟨?_, nofun, rfl⟩
    intro q hq
    cases hq
    exact ⟨hp, hblock _ hout, rfl⟩
  | refused => exact ⟨nofun, fun _ => ⟨rfl, rfl⟩, rfl⟩
  | destroyed p blockWasLinked L hp => exact ⟨rfl, rfl, blockWasLinked, rfl⟩
  | taken p L hframes hp =>
    refine ⟨nofun, ?_⟩
    intro q hq
    cases hq
    exact ⟨hp, rfl⟩
  | nothing hframes => exact ⟨fun _ => rfl, nofun⟩
  | closes hframes => exact ⟨rfl, rfl⟩
  | returns p blockWasLinked fs L hframes => exact ⟨rfl, rfl⟩
  | frees l p L hframes => exact ⟨rfl, rfl⟩
  | block l b L hframes => exact Finset.Subset.refl _
  | list l k hframes hlist hk => exact Finset.Subset.refl _
  | done l hframes hlist hk => exact Finset.Subset.refl _
  | release l b i L hframes hp => exact Finset.erase_subset _ _
  | delete l b L hframes hb => exact Finset.Subset.refl _

/-- The turns of its loops a call of `close` has left, on the way from one list to the next. -/
def pending : List Frame → ℕ
  | [] => 0
  | .destroying _ _ :: fs => pending fs
  | .closing l :: _ => l.turns
  | .closingBlock l _ :: _ => l.turns - 1
  | .releasing l _ :: _ => l.turns - 1

/-- The turns `close` has left, if nothing is allocated. -/
def work (w : Calls) : ℕ := 2 * w.alloc.blocks.length + w.active.card + pending w.frames

/-- What a run of `acts` has done: the payloads that were created, and those that were released. -/
structure Ran (acts : List Act) (w w' : Calls) : Prop where
  events : ∃ born dead, w'.alloc.created = born ++ w.alloc.created ∧
    w'.alloc.released = dead ++ w.alloc.released ∧
    w'.active.val + (dead : Multiset Ptr) = w.active.val + (born : Multiset Ptr) ∧
    ((∀ act ∈ acts, act ≠ .go ∧ act ≠ .takeUsed) → dead.reverse = acts.flatMap Act.destroys)
  turns : acts.count .go + w'.work ≤ w.work + (acts.map Act.cost).sum

theorem Ran.refl (w : Calls) : Ran [] w w where
  events := ⟨[], [], rfl, rfl, rfl, fun _ => rfl⟩
  turns := by simp

theorem Ran.trans {as bs : List Act} {w w' w'' : Calls} (h : Ran as w w') (h' : Ran bs w' w'') :
    Ran (as ++ bs) w w'' := by
  obtain ⟨born, dead, hborn, hdead, hactive, hcalls⟩ := h.events
  obtain ⟨born', dead', hborn', hdead', hactive', hcalls'⟩ := h'.events
  refine ⟨⟨born' ++ born, dead' ++ dead, ?_, ?_, ?_, ?_⟩, ?_⟩
  · rw [hborn', hborn, List.append_assoc]
  · rw [hdead', hdead, List.append_assoc]
  · rw [← Multiset.coe_add, ← Multiset.coe_add]
    calc w''.active.val + (↑dead' + ↑dead)
        = w''.active.val + ↑dead' + ↑dead := (add_assoc ..).symm
      _ = w'.active.val + ↑dead + ↑born' := by rw [hactive', add_right_comm]
      _ = w.active.val + (↑born' + ↑born) := by rw [hactive, add_right_comm, add_assoc]
  · intro hacts
    obtain ⟨has, hbs⟩ := List.forall_mem_append.mp hacts
    rw [List.reverse_append, hcalls has, hcalls' hbs, List.flatMap_append]
  · have h₁ := h.turns
    have h₂ := h'.turns
    rw [List.count_append, List.map_append, List.sum_append]
    omega

section

variable {w : Calls} {act : Act} {p : Ptr} {L : Heap} {blocks : List Addr} {fs : List Frame}

/-- A step that creates `p`. -/
theorem Ran.of_insert (hp : p ∉ w.active) {room : Option Addr}
    (hblocks : blocks.length ≤ w.alloc.blocks.length + 1) :
    Ran [.allocate room] w
      { w with
        alloc := { w.alloc with links := L, blocks := blocks, created := p :: w.alloc.created }
        active := insert p w.active } := by
  refine ⟨⟨[p], [], rfl, rfl, ?_, fun _ => rfl⟩, ?_⟩
  · rw [Finset.insert_val_of_notMem hp, Multiset.coe_nil, add_zero, Multiset.coe_singleton,
      add_comm, Multiset.singleton_add]
  · simp only [work, Finset.card_insert_of_notMem hp, List.map_cons, List.map_nil, List.sum_cons,
      List.sum_nil, Act.cost]
    rw [List.count_cons_of_ne (by simp), List.count_nil]
    omega

/-- A step that releases `p`. -/
theorem Ran.of_erase (hp : p ∈ w.active)
    (hcalls : act ≠ .go ∧ act ≠ .takeUsed → [p] = act.destroys)
    (hfs : pending fs = pending w.frames) :
    Ran [act] w
      { alloc := { w.alloc with links := L, released := p :: w.alloc.released }
        frames := fs
        active := w.active.erase p } := by
  have hcard := Finset.card_erase_add_one hp
  refine ⟨⟨[], [p], rfl, rfl, ?_, ?_⟩, ?_⟩
  · rw [Finset.erase_val, Multiset.coe_nil, add_zero, Multiset.coe_singleton, add_comm,
      Multiset.singleton_add, Multiset.cons_erase hp]
  · intro hacts
    rw [List.flatMap_singleton]
    exact hcalls (hacts act (List.mem_singleton_self act))
  · have hcount : [act].count .go ≤ 1 := List.count_le_length
    simp only [work, hfs]
    omega

/-- A step that does neither. -/
theorem Ran.of_eq (hdestroys : act.destroys = [])
    (hturns : [act].count .go + (2 * blocks.length + pending fs) ≤
      2 * w.alloc.blocks.length + pending w.frames + act.cost) :
    Ran [act] w
      { w with alloc := { w.alloc with links := L, blocks := blocks }, frames := fs } := by
  refine ⟨⟨[], [], rfl, rfl, rfl, fun _ => ?_⟩, ?_⟩
  · rw [List.flatMap_singleton, hdestroys]
    rfl
  · simp only [work, List.map_cons, List.map_nil, List.sum_cons, List.sum_nil]
    omega

end

theorem Move.ran {w w' : Calls} {m : Slabs} {act : Act} {r : Option Ptr} (h : Move w m act r w') :
    Ran [act] w w' := by
  cases h with
  | found room p L hp hout hfirst => exact .of_insert hp (Nat.le_succ _)
  | made b i L hp hout hroomy hb => exact .of_insert hp (le_refl _)
  | refused => exact .of_eq rfl (Nat.zero_add _ ▸ Nat.le_add_right _ _)
  | destroyed p blockWasLinked L hp => exact .of_erase hp (fun _ => rfl) rfl
  | taken p L hframes hp => exact .of_erase hp (fun hne => absurd rfl hne.2) rfl
  | nothing hframes => exact .of_eq rfl (Nat.zero_add _ ▸ Nat.le_add_right _ _)
  | closes hframes =>
    refine .of_eq rfl ?_
    rw [hframes]
    exact (Nat.zero_add _).le
  | returns p blockWasLinked fs L hframes =>
    refine .of_eq rfl ?_
    rw [hframes]
    exact (Nat.zero_add _).le
  | frees l p L hframes =>
    refine .of_eq rfl ?_
    rw [hframes]
    exact (Nat.zero_add _).le
  | block l b L hframes =>
    have hpos := l.turns_pos
    refine .of_eq rfl ?_
    rw [hframes]
    show 1 + (_ + (l.turns - 1)) ≤ _ + l.turns + 0
    omega
  | list l k hframes hlist hk =>
    have hnext := Level.turns_next hk
    refine .of_eq rfl ?_
    rw [hframes]
    show 1 + (2 * w.alloc.blocks.length + k.turns) ≤ 2 * w.alloc.blocks.length + l.turns + 0
    omega
  | done l hframes hlist hk =>
    have hpos := l.turns_pos
    refine .of_eq rfl ?_
    rw [hframes]
    show 1 + (2 * w.alloc.blocks.length + 0) ≤ 2 * w.alloc.blocks.length + l.turns + 0
    omega
  | release l b i L hframes hp =>
    refine .of_erase hp (fun hne => absurd rfl hne.1) ?_
    rw [hframes]
    rfl
  | delete l b L hframes hb =>
    have hpos := l.turns_pos
    have hlen := List.length_erase_add_one hb
    refine .of_eq rfl ?_
    rw [hframes]
    show 1 + (_ + l.turns) ≤ _ + (l.turns - 1) + 0
    omega

/-! ## Closing -/

/-- The loop `close` is in, the list it goes through. -/
def loopOf : List Frame → Option Level
  | [] => none
  | .destroying _ _ :: fs => loopOf fs
  | .closing l :: _ => some l
  | .closingBlock l _ :: _ => some l
  | .releasing l _ :: _ => some l

/-- Whether an `allocate` takes the last free slot of its block. -/
def fillsBlock (N : ℕ) (w : Calls) : Bool :=
  match (w.alloc.links.firstOr .firstPartial .firstFree).bind Node.ofLink with
  | some b => fill w.active b + 1 = N
  | none => N = 1

/-- While `close` goes through the partial blocks, no destructor fills a block. -/
def LeavesRoom (N : ℕ) (w : Calls) : Act → Prop
  | .allocate _ => loopOf w.frames = some .part → w.fillsBlock N = false
  | _ => True

instance (N : ℕ) (w : Calls) (act : Act) : Decidable (w.LeavesRoom N act) :=
  match act with
  | .allocate _ =>
    inferInstanceAs (Decidable (loopOf w.frames = some .part → w.fillsBlock N = false))
  | .destroy _ => isTrue trivial
  | .takeUsed => isTrue trivial
  | .close => isTrue trivial
  | .ret => isTrue trivial
  | .go => isTrue trivial

/-- What the loops of `close` that are over have achieved: no full block is in a list, and then
    no payload is left. -/
structure Emptied (N : ℕ) (w : Calls) : Prop where
  part : loopOf w.frames = some .part →
    ∀ b ∈ w.alloc.blocks, b ∉ outs w.frames → fill w.active b < N
  free : loopOf w.frames = some .free → w.active = ∅ ∧ hasControl w.frames = false

theorem fill_mono {A B : Finset Ptr} (h : A ⊆ B) (b : Addr) : fill A b ≤ fill B b :=
  Finset.card_le_card (Finset.filter_subset_filter _ h)

theorem fill_insert_ne {A : Finset Ptr} {p : Ptr} {b : Addr} (h : p.1 ≠ b) :
    fill (insert p A) b = fill A b := by
  unfold fill
  rw [Finset.filter_insert, if_neg h]

theorem fill_insert_le (A : Finset Ptr) (p : Ptr) (b : Addr) :
    fill (insert p A) b ≤ fill A b + 1 := by
  unfold fill
  rw [Finset.filter_insert]
  split
  · exact Finset.card_insert_le _ _
  · exact Nat.le_succ _

section Closing

variable {N : ℕ} {w w' : Calls} {m : Slabs} {b : Addr}

theorem Inv.fill_eq (h : Inv N w m) (b : Addr) : fill w.active b = (m.usedSlots b).length :=
  fill_eq_length h.active (nodup_usedSlots h.holds.reps b)

/-- A block some payload of which is being destroyed is not full. -/
theorem Inv.fill_held (h : Inv N w m) (hb : b ∈ w.alloc.blocks) {i : ℕ}
    (hheld : (b, i) ∈ held w.frames) : fill w.active b < N := by
  have hlen := (h.holds.ok.slots b hb).length_eq
  have hmem : i ∈ Slabs.slotsIn (held w.frames) b :=
    List.mem_map.mpr ⟨(b, i), List.mem_filter.mpr ⟨hheld, by simp⟩, rfl⟩
  have hpos := List.length_pos_of_mem hmem
  rw [List.length_append, List.length_append, List.length_range] at hlen
  rw [h.fill_eq]
  omega

/-- What is in a list and full is in the first one. -/
theorem Inv.fill_lt (h : Inv N w m) (hN : 0 < N) (hlist : m.lists .used = [])
    (hb : b ∈ w.alloc.blocks) (hout : b ∉ outs w.frames) : fill w.active b < N := by
  have hlen := (h.holds.ok.slots b hb).length_eq
  rw [h.holds.ok.none_held hout, List.append_nil, List.length_append, List.length_range] at hlen
  have hlevel : m.level b ≠ .used := by
    intro heq
    have hmem := (h.holds.ok.listed .used b).mpr ⟨⟨hb, hout⟩, heq⟩
    rw [hlist] at hmem
    cases hmem
  rw [h.fill_eq]
  by_contra hge
  have hfree : m.freeSlots b = [] := List.length_eq_zero_iff.mp (by omega)
  have hused : m.usedSlots b ≠ [] := fun hnil => by
    rw [hnil, List.length_nil] at hge
    exact hge hN
  exact hlevel (by rw [Slabs.level, if_neg hused, if_pos hfree])

/-- A block is filled by the `allocate` that takes its last slot. -/
theorem Inv.fill_first (h : Inv N w m) (hroom : w.fillsBlock N = false)
    (hfirst : m.roomy.head? = some b) : fill w.active b + 1 ≠ N := by
  have hlink := firstOr_eq h.holds.reps .part .free
  rw [show (m.lists .part ++ m.lists .free).head? = some b from hfirst] at hlink
  unfold fillsBlock at hroom
  rw [show w.alloc.links.firstOr .firstPartial .firstFree = some (.inr (.link b)) from hlink] at hroom
  exact of_decide_eq_false hroom

theorem Inv.fill_new (h : Inv N w m) (hroom : w.fillsBlock N = false) (hroomy : m.roomy = []) :
    N ≠ 1 := by
  have hlink := firstOr_eq h.holds.reps .part .free
  rw [show m.lists .part ++ m.lists .free = [] from hroomy] at hlink
  unfold fillsBlock at hroom
  rw [show w.alloc.links.firstOr .firstPartial .firstFree = none from hlink] at hroom
  exact of_decide_eq_false hroom

/-- Where no block in a list is full and none is in the second one, no payload is left. -/
theorem Inv.active_empty (h : Inv N w m) (hout : outs w.frames = []) (hlist : m.lists .part = [])
    (hfill : ∀ b ∈ w.alloc.blocks, fill w.active b < N) : w.active = ∅ := by
  refine Finset.eq_empty_of_forall_notMem fun p hp => ?_
  have hactive := (h.active p).mp hp
  have hb : p.1 ∈ w.alloc.blocks := h.holds.active_mem hactive
  have hnot : p.1 ∉ outs w.frames := by
    rw [hout]
    exact List.not_mem_nil
  have hlen := (h.holds.ok.slots p.1 hb).length_eq
  rw [h.holds.ok.none_held hnot, List.append_nil, List.length_append, List.length_range] at hlen
  have hlt := hfill p.1 hb
  rw [h.fill_eq] at hlt
  have hused : m.usedSlots p.1 ≠ [] := List.ne_nil_of_mem hactive
  have hfree : m.freeSlots p.1 ≠ [] := by
    intro hnil
    rw [hnil, List.length_nil] at hlen
    omega
  have hmem := (h.holds.ok.listed .part p.1).mpr
    ⟨⟨hb, hnot⟩, by rw [Slabs.level, if_neg hused, if_neg hfree]⟩
  rw [hlist] at hmem
  cases hmem

/-- Where no payload is left and no block is in the third list, no block is left. -/
theorem Inv.blocks_nil (h : Inv N w m) (hout : outs w.frames = []) (hlist : m.lists .free = [])
    (hempty : w.active = ∅) : w.alloc.blocks = [] := by
  refine List.eq_nil_iff_forall_not_mem.mpr fun b hb => ?_
  have hused : m.usedSlots b = [] := by
    rw [← List.length_eq_zero_iff, ← h.fill_eq, hempty]
    rfl
  have hnot : b ∉ outs w.frames := by
    rw [hout]
    exact List.not_mem_nil
  have hmem := (h.holds.ok.listed .free b).mpr ⟨⟨hb, hnot⟩, Slabs.level_eq_free.mpr hused⟩
  rw [hlist] at hmem
  cases hmem

theorem fill_insert_lt {A : Finset Ptr} {p : Ptr} (hlt : fill A p.1 < N) (hne : fill A p.1 + 1 ≠ N) :
    fill (insert p A) p.1 < N :=
  (fill_insert_le A p p.1).trans_lt (lt_of_le_of_ne hlt hne)

/-- In the same loop it is enough to look at the blocks that have joined a list or have been given
    payloads. -/
theorem Emptied.keep (he : Emptied N w) (hloop : loopOf w.frames = loopOf w'.frames)
    (hfill : loopOf w.frames = some .part → ∀ b ∈ w'.alloc.blocks, b ∉ outs w'.frames →
      (b ∈ w.alloc.blocks ∧ b ∉ outs w.frames ∧ fill w'.active b ≤ fill w.active b) ∨
        fill w'.active b < N)
    (hfree : loopOf w.frames = some .free → w'.active = ∅ ∧ hasControl w'.frames = false) :
    Emptied N w' := by
  refine ⟨?_, fun hfree' => hfree (hloop.trans hfree')⟩
  intro hpart b hb hout
  rcases hfill (hloop.trans hpart) b hb hout with ⟨hb, hout, hle⟩ | hlt
  · exact hle.trans_lt (he.part (hloop.trans hpart) b hb hout)
  · exact hlt

theorem emptied_of_loop {l : Option Level} (hloop : loopOf w.frames = l) (hpart : l ≠ some .part)
    (hfree : l ≠ some .free) : Emptied N w :=
  ⟨fun h => absurd (hloop.symm.trans h) hpart, fun h => absurd (hloop.symm.trans h) hfree⟩

/-- On to the next loop. -/
theorem Emptied.next (he : Emptied N w) (hN : 0 < N) (h : Inv N w m) {l k : Level}
    (hframes : w.frames = [.closing l]) (hlist : m.lists l = []) (hk : l.next = some k) :
    Emptied N { w with frames := [.closing k] } := by
  have hout : outs w.frames = [] := congrArg outs hframes
  have hloop : loopOf w.frames = some l := congrArg loopOf hframes
  cases l with
  | used =>
    cases hk
    refine ⟨?_, nofun⟩
    intro _ b hb _
    exact h.fill_lt hN hlist hb (hout ▸ List.not_mem_nil)
  | part =>
    cases hk
    refine ⟨nofun, fun _ => ⟨?_, rfl⟩⟩
    exact h.active_empty hout hlist fun b hb => he.part hloop b hb (hout ▸ List.not_mem_nil)
  | free => cases hk

/-- One step, while the condition is met: one case for each move. -/
theorem Emptied.step (he : Emptied N w) (hN : 0 < N) (h : Inv N w m) {act : Act} {r : Option Ptr}
    (hact : w.Allowed act) (hroom : w.LeavesRoom N act) (hmove : Move w m act r w') :
    Emptied N w' := by
  -- In the last loop no destructor has control.
  have hlast : ∀ {P : Prop}, hasControl w.frames = true → loopOf w.frames = some .free → P := by
    intro P hcontrol hloop
    rw [(he.free hloop).2] at hcontrol
    cases hcontrol
  cases hmove with
  | found room p L hp hout hfirst =>
    refine he.keep rfl ?_ (hlast hact.1)
    intro hloop c hc hc'
    by_cases hpc : p.1 = c
    · subst hpc
      exact .inr (fill_insert_lt (he.part hloop p.1 hc hc') (h.fill_first (hroom hloop) hfirst))
    · exact .inl ⟨hc, hc', (fill_insert_ne hpc).le⟩
  | made b i L hp hout hroomy hb =>
    refine he.keep rfl ?_ (hlast hact.1)
    intro hloop c hc hc'
    by_cases hpc : b = c
    · subst hpc
      have hzero : fill w.active b = 0 := by
        rw [h.fill_eq, h.holds.ok.dead b hb]
        rfl
      have hlt : fill w.active b < N := hzero ▸ hN
      have hne : fill w.active b + 1 ≠ N := by
        rw [hzero]
        exact (h.fill_new (hroom hloop) hroomy).symm
      exact .inr (fill_insert_lt (p := (b, i)) hlt hne)
    · have hc := (List.mem_cons.mp hc).resolve_left (Ne.symm hpc)
      exact .inl ⟨hc, hc', (fill_insert_ne (p := (b, i)) hpc).le⟩
  | refused => exact he
  | destroyed p blockWasLinked L hp =>
    refine he.keep rfl ?_ (hlast hact.1)
    intro _ c hc hc'
    exact .inl ⟨hc, fun hmem => hc' (mem_outs_cons _ hmem),
      fill_mono (Finset.erase_subset p w.active) c⟩
  | taken p L hframes hp =>
    exact emptied_of_loop (congrArg loopOf hframes) (Option.some_ne_none _).symm
      (Option.some_ne_none _).symm
  | nothing hframes => exact he
  | closes hframes => exact emptied_of_loop (l := some .used) rfl (by decide) (by decide)
  | returns p blockWasLinked fs L hframes =>
    have hloop : loopOf w.frames = loopOf fs := by
      rw [hframes]
      rfl
    refine he.keep hloop ?_ (hlast hact.1)
    intro _ c hc hc'
    by_cases hin : c ∈ outs w.frames
    · -- The block that is linked again has just been given a free slot.
      have hheld : p ∈ held w.frames := by
        rw [hframes]
        exact List.mem_cons_self ..
      rw [hframes] at hin
      cases blockWasLinked with
      | false => exact absurd hin hc'
      | true =>
        obtain rfl := (List.mem_cons.mp hin).resolve_right hc'
        exact .inr (h.fill_held hc hheld)
    · exact .inl ⟨hc, hin, le_refl _⟩
  | frees l p L hframes =>
    have hloop : loopOf w.frames = some l := congrArg loopOf hframes
    refine he.keep hloop ?_ (hlast hact.1)
    intro _ c hc hc'
    rw [hframes]
    exact .inl ⟨hc, hc', le_refl _⟩
  | block l b L hframes =>
    have hloop : loopOf w.frames = some l := congrArg loopOf hframes
    refine he.keep hloop ?_ fun hloop => ⟨(he.free hloop).1, rfl⟩
    intro _ c hc _
    rw [hframes]
    exact .inl ⟨hc, List.not_mem_nil, le_refl _⟩
  | list l k hframes hlist hk => exact he.next hN h hframes hlist hk
  | done l hframes hlist hk =>
    exact emptied_of_loop rfl (Option.some_ne_none _).symm (Option.some_ne_none _).symm
  | release l b i L hframes hp =>
    have hloop : loopOf w.frames = some l := congrArg loopOf hframes
    refine he.keep hloop ?_ ?_
    · intro _ c hc hc'
      rw [hframes]
      exact .inl ⟨hc, hc', fill_mono (Finset.erase_subset (b, i) w.active) c⟩
    · intro hloop
      rw [(he.free hloop).1] at hp
      exact absurd hp (Finset.notMem_empty _)
  | delete l b L hframes hb =>
    have hloop : loopOf w.frames = some l := congrArg loopOf hframes
    refine he.keep hloop ?_ fun hloop => ⟨(he.free hloop).1, rfl⟩
    intro _ c hc _
    obtain ⟨hcb, hc⟩ := h.holds.nodup.mem_erase_iff.mp hc
    rw [hframes]
    exact .inl ⟨hc, fun hmem => hcb (List.mem_singleton.mp hmem), le_refl _⟩

end Closing

/-! ## Runs -/

theorem inv_init (N : ℕ) : Inv N init Slabs.none :=
  ⟨holds_init.amid, trivial, fun _ => iff_of_false (Finset.notMem_empty _) List.not_mem_nil, rfl⟩

section Runs

variable {N : ℕ} {w w' : Calls} {act : Act} {acts : List Act}

theorem Inv.step (hN : 0 < N) {m : Slabs} (h : Inv N w m) (hs : w.step N act = some w') :
    ∃ r m', w.Allowed act ∧ Move w m act r w' ∧ Inv N w' m' := by
  unfold Calls.step at hs
  split at hs
  · rename_i hact
    obtain ⟨r, w'', m', hperform, hmove, hinv⟩ := h.perform hN hact
    rw [hperform] at hs
    cases hs
    exact ⟨r, m', hact, hmove, hinv⟩
  · cases hs

theorem inv_run (hN : 0 < N) (hw : ∃ m, Inv N w m)
    (hrun : Run.run (Calls.step N) w acts = some w') : ∃ m, Inv N w' m := by
  have hstep : ∀ v act v', Calls.step N v act = some v' → (∃ m, Inv N v m) → ∃ m, Inv N v' m := by
    rintro v act v' hs ⟨m, h⟩
    obtain ⟨r, m', -, -, hinv⟩ := h.step hN hs
    exact ⟨m', hinv⟩
  exact Run.invariant hstep hrun hw

theorem ran_run (hN : 0 < N) (hw : ∃ m, Inv N w m)
    (hrun : Run.run (Calls.step N) w acts = some w') : Ran acts w w' := by
  induction acts generalizing w with
  | nil =>
    obtain rfl := Option.some.inj hrun
    exact .refl w
  | cons act acts ih =>
    obtain ⟨v, hs, hrest⟩ := Run.run_cons_eq_some.mp hrun
    obtain ⟨m, h⟩ := hw
    obtain ⟨r, m', -, hmove, hinv⟩ := h.step hN hs
    exact hmove.ran.trans (ih ⟨m', hinv⟩ hrest)

theorem emptied_run (hN : 0 < N) (hw : ∃ m, Inv N w m) (hframes : w.frames = [])
    (hrun : Run.run (Calls.step N) w acts = some w')
    (hroom : Run.AllSteps (Calls.step N) (LeavesRoom N) w acts) : Emptied N w' := by
  have hstep : ∀ v act v', Calls.step N v act = some v' → v.LeavesRoom N act →
      ((∃ m, Inv N v m) ∧ Emptied N v) → (∃ m, Inv N v' m) ∧ Emptied N v' := by
    rintro v act v' hs hok ⟨⟨m, h⟩, he⟩
    obtain ⟨r, m', hact, hmove, hinv⟩ := h.step hN hs
    exact ⟨⟨m', hinv⟩, he.step hN h hact hok hmove⟩
  have hstart : Emptied N w := by
    refine ⟨fun hloop => ?_, fun hloop => ?_⟩
    · rw [hframes] at hloop
      cases hloop
    · rw [hframes] at hloop
      cases hloop
  exact (Run.invariant_of_allSteps hstep hrun hroom ⟨hw, hstart⟩).2

/-- The turn with which `close` returns. -/
theorem Emptied.closed {m : Slabs} (he : Emptied N w) (h : Inv N w m) {r : Option Ptr}
    (hmove : Move w m .go r w') (hframes : w'.frames = []) :
    w'.active = ∅ ∧ w'.alloc.blocks = [] := by
  cases hmove with
  | block l b L hf => cases hframes
  | list l k hf hlist hk => cases hframes
  | done l hf hlist hk =>
    cases l with
    | used => cases hk
    | part => cases hk
    | free =>
      have hloop : loopOf w.frames = some .free := congrArg loopOf hf
      have hout : outs w.frames = [] := congrArg outs hf
      have hempty := (he.free hloop).1
      exact ⟨hempty, h.blocks_nil hout hlist hempty⟩
  | release l b i L hf hp => cases hframes
  | delete l b L hf hb => cases hframes

theorem Inv.faithful {m : Slabs} (h : Inv N w m) (hframes : w.frames = []) :
    w.world.Faithful N := by
  have hholds := h.holds
  rw [hframes] at hholds
  have htracks : World.Tracks N w.world m := ⟨hholds.between, h.active, h.ledger⟩
  exact htracks.faithful

end Runs

/-! ## Destructors that do nothing -/

/-- A run in which every destructor returns at once. -/
def Quiet (N : ℕ) (w w' : Calls) : Prop :=
  ∃ acts, (∀ act ∈ acts, act = .go ∨ act = .ret) ∧ Run.run (Calls.step N) w acts = some w'

section Quiet

variable {N : ℕ} {w w' w'' : Calls}

theorem Quiet.refl (w : Calls) : Quiet N w w := ⟨[], by simp, rfl⟩

theorem Quiet.go (hcontrol : hasControl w.frames = false) (hgo : w.go N = some w')
    (h : Quiet N w' w'') : Quiet N w w'' := by
  obtain ⟨acts, hacts, hrun⟩ := h
  have hs : w.step N .go = some w' := by
    unfold Calls.step
    rw [if_pos (show w.Allowed .go from hcontrol), perform, hgo]
    rfl
  refine ⟨.go :: acts, List.forall_mem_cons.mpr ⟨.inl rfl, hacts⟩, ?_⟩
  exact Run.run_cons_eq_some.mpr ⟨w', hs, hrun⟩

theorem Quiet.ret (hcontrol : hasControl w.frames = true) (hne : w.frames ≠ [])
    (hret : w.ret = some w') (h : Quiet N w' w'') : Quiet N w w'' := by
  obtain ⟨acts, hacts, hrun⟩ := h
  have hs : w.step N .ret = some w' := by
    unfold Calls.step
    rw [if_pos (show w.Allowed .ret from ⟨hcontrol, hne⟩), perform, hret]
    rfl
  refine ⟨.ret :: acts, List.forall_mem_cons.mpr ⟨.inr rfl, hacts⟩, ?_⟩
  exact Run.run_cons_eq_some.mpr ⟨w', hs, hrun⟩

theorem Quiet.trans (h : Quiet N w w') (h' : Quiet N w' w'') : Quiet N w w'' := by
  obtain ⟨as, has, hrun⟩ := h
  obtain ⟨bs, hbs, hrun'⟩ := h'
  refine ⟨as ++ bs, List.forall_mem_append.mpr ⟨has, hbs⟩, ?_⟩
  rw [Run.run_append, hrun]
  exact hrun'

theorem Quiet.inv (hN : 0 < N) (h : Quiet N w w') (hw : ∃ m, Inv N w m) : ∃ m, Inv N w' m := by
  obtain ⟨acts, -, hrun⟩ := h
  exact inv_run hN hw hrun

variable {l : Level} {b : Addr} {L : Heap} {released : List Ptr}

/-- The loop of `block__::close` is `closeSlots`. -/
theorem quiet_closeSlots (hN : 0 < N) (fuel : ℕ) (hw : ∃ m, Inv N w m)
    (hframes : w.frames = [.closingBlock l b])
    (hs : Heap.closeSlots fuel w.alloc.links b w.alloc.released = some (L, released)) :
    ∃ w', Quiet N w w' ∧ w'.frames = [.closingBlock l b] ∧
      w'.alloc = { w.alloc with links := L, released := released } ∧
      L.firstUsedSlot b = none := by
  have hdone : w.alloc.links.firstUsedSlot b = none →
      some (w.alloc.links, w.alloc.released) = some (L, released) →
      ∃ w', Quiet N w w' ∧ w'.frames = [.closingBlock l b] ∧
        w'.alloc = { w.alloc with links := L, released := released } ∧
        L.firstUsedSlot b = none := by
    intro hslot heq
    obtain ⟨rfl, rfl⟩ := Prod.mk.inj (Option.some.inj heq)
    exact ⟨w, .refl w, hframes, rfl, hslot⟩
  induction fuel generalizing w with
  | zero =>
    unfold Heap.closeSlots at hs
    split at hs
    · exact hdone ‹_› hs
    · cases hs
  | succ fuel ih =>
    cases hslot : w.alloc.links.firstUsedSlot b with
    | none =>
      rw [Heap.closeSlots, hslot] at hs
      exact hdone hslot hs
    | some p =>
      obtain ⟨m, h⟩ := hw
      obtain rfl : p.1 = b := by
        rw [firstUsedSlot_eq h.holds.reps] at hslot
        obtain ⟨i, -, rfl⟩ := Option.map_eq_some_iff.mp hslot
        rfl
      rw [Heap.closeSlots, hslot] at hs
      -- A turn of the loop, and the destructor returns.
      have hgo : w.go N = some
          { alloc := { w.alloc with
              links := w.alloc.links.unlinkUsedSlot p, released := p :: w.alloc.released }
            frames := [.releasing l p]
            active := w.active.erase p } := by
        simp only [go, hframes, hslot]
      have hturn : ∀ w', Quiet N
          { alloc := { w.alloc with
              links := (w.alloc.links.unlinkUsedSlot p).linkFreeSlot p.1 p
              released := p :: w.alloc.released }
            frames := [.closingBlock l p.1]
            active := w.active.erase p } w' → Quiet N w w' := by
        intro w' hrest
        have hcontrol : hasControl w.frames = false := congrArg hasControl hframes
        exact .go hcontrol hgo (.ret rfl (List.cons_ne_nil _ _) rfl hrest)
      have hinv := (hturn _ (.refl _)).inv hN ⟨m, h⟩
      obtain ⟨w', hquiet, hframes', halloc, hnone⟩ := ih hinv rfl hs (by
        intro hslot' heq
        obtain ⟨rfl, rfl⟩ := Prod.mk.inj (Option.some.inj heq)
        exact ⟨_, .refl _, rfl, rfl, hslot'⟩)
      exact ⟨w', hturn w' hquiet, hframes', halloc, hnone⟩

/-- A loop of `close` is `closeList`. -/
theorem quiet_closeList (hN : 0 < N) (fuel : ℕ) {s' : State} (hw : ∃ m, Inv N w m)
    (hframes : w.frames = [.closing l]) (hs : State.closeList N l.head fuel w.alloc = some s') :
    ∃ w', Quiet N w w' ∧ w'.frames = [.closing l] ∧ w'.alloc = s' ∧
      s'.links.first (.inl l.head) = none := by
  have hdone : w.alloc.links.first (.inl l.head) = none → some w.alloc = some s' →
      ∃ w', Quiet N w w' ∧ w'.frames = [.closing l] ∧ w'.alloc = s' ∧
        s'.links.first (.inl l.head) = none := by
    intro hfirst heq
    cases heq
    exact ⟨w, .refl w, hframes, rfl, hfirst⟩
  induction fuel generalizing w with
  | zero =>
    unfold State.closeList at hs
    split at hs
    · exact hdone ‹_› hs
    · cases hs
  | succ fuel ih =>
    cases hfirst : w.alloc.links.first (.inl l.head) with
    | none =>
      rw [State.closeList, hfirst] at hs
      exact hdone hfirst hs
    | some n =>
      rw [State.closeList, hfirst] at hs
      obtain ⟨b, hb, hs⟩ := Option.bind_eq_some_iff.mp hs
      obtain ⟨⟨L, released⟩, hblock, hs⟩ := Option.bind_eq_some_iff.mp hs
      obtain ⟨⟨L₁, released₁⟩, hslots, hblock⟩ := Option.bind_eq_some_iff.mp hblock
      obtain ⟨L₂, hreset, heq⟩ := Option.bind_eq_some_iff.mp hblock
      obtain ⟨rfl, rfl⟩ := Prod.mk.inj (Option.some.inj heq)
      -- The block leaves its list, its loop runs, and it is deleted.
      have hgo : w.go N = some
          { w with
            alloc := { w.alloc with links := w.alloc.links.unlink n }
            frames := [.closingBlock l b] } := by
        simp only [go, hframes, hfirst, hb]
        rfl
      have hcontrol : hasControl w.frames = false := congrArg hasControl hframes
      have hinv := (Quiet.go hcontrol hgo (.refl _)).inv hN hw
      obtain ⟨w₁, hquiet₁, hframes₁, halloc₁, hslot⟩ := quiet_closeSlots hN N hinv rfl hslots
      have hgo₁ : w₁.go N = some
          { w₁ with
            alloc := { w.alloc with
              links := L₂, blocks := w.alloc.blocks.erase b, released := released₁ }
            frames := [.closing l] } := by
        simp only [go, hframes₁, halloc₁, hslot, hreset]
        rfl
      have hcontrol₁ : hasControl w₁.frames = false := congrArg hasControl hframes₁
      have hquiet : ∀ w', Quiet N
          { w₁ with
            alloc := { w.alloc with
              links := L₂, blocks := w.alloc.blocks.erase b, released := released₁ }
            frames := [.closing l] } w' → Quiet N w w' := fun w' hrest =>
        .go hcontrol hgo (hquiet₁.trans (.go hcontrol₁ hgo₁ hrest))
      have hinv₁ := (hquiet _ (.refl _)).inv hN hw
      obtain ⟨w', hquiet', hframes', halloc', hnone⟩ := ih hinv₁ rfl hs (by
        intro hfirst' heq
        cases heq
        exact ⟨_, .refl _, rfl, rfl, hfirst'⟩)
      exact ⟨w', hquiet w' hquiet', hframes', halloc', hnone⟩

/-- On to the next list. -/
theorem Quiet.next {k : Level} (hframes : w.frames = [.closing l])
    (hfirst : w.alloc.links.first (.inl l.head) = none) (hk : l.next = some k)
    (h : Quiet N { w with frames := [.closing k] } w') : Quiet N w w' := by
  refine .go ?_ ?_ h
  · rw [hframes]
    rfl
  · simp only [Calls.go, hframes, hfirst, hk]

/-- Where every destructor returns at once, `close` is the one of `Allocator/Basic.lean`. -/
theorem Inv.quiet_close {m : Slabs} (hN : 0 < N) (h : Inv N w m) (hframes : w.frames = []) :
    ∃ s', w.alloc.close N = some s' ∧
      Quiet N { w with frames := [.closing .used] } { alloc := s', frames := [], active := ∅ } := by
  have hholds := h.holds
  rw [hframes] at hholds
  obtain ⟨s', m', hs', -, -, hblocks⟩ := hholds.between.close
  refine ⟨s', hs', ?_⟩
  obtain ⟨s₁, hs₁, hrest⟩ := Option.bind_eq_some_iff.mp hs'
  obtain ⟨s₂, hs₂, hs₃⟩ := Option.bind_eq_some_iff.mp hrest
  have hinv : Inv N { w with frames := [.closing .used] } m := ⟨hholds, rfl, h.active, h.ledger⟩
  -- The three lists, one after the other.
  obtain ⟨w₁, hquiet₁, hframes₁, rfl, hnone₁⟩ :=
    quiet_closeList hN w.alloc.blocks.length ⟨m, hinv⟩ rfl hs₁
  have hturn₁ : ∀ v, Quiet N { w₁ with frames := [.closing .part] } v →
      Quiet N { w with frames := [.closing .used] } v := fun v hrest =>
    hquiet₁.trans (.next hframes₁ hnone₁ rfl hrest)
  obtain ⟨w₂, hquiet₂, hframes₂, rfl, hnone₂⟩ :=
    quiet_closeList hN w.alloc.blocks.length ((hturn₁ _ (.refl _)).inv hN ⟨m, hinv⟩) rfl hs₂
  have hturn₂ : ∀ v, Quiet N { w₂ with frames := [.closing .free] } v →
      Quiet N { w with frames := [.closing .used] } v := fun v hrest =>
    hturn₁ v (hquiet₂.trans (.next hframes₂ hnone₂ rfl hrest))
  obtain ⟨w₃, hquiet₃, hframes₃, rfl, hnone₃⟩ :=
    quiet_closeList hN w.alloc.blocks.length ((hturn₂ _ (.refl _)).inv hN ⟨m, hinv⟩) rfl hs₃
  have hgo : w₃.go N = some { w₃ with frames := [] } := by
    simp only [go, hframes₃, hnone₃]
    rfl
  have hcontrol : hasControl w₃.frames = false := congrArg hasControl hframes₃
  have hquiet := hturn₂ _ (hquiet₃.trans (.go hcontrol hgo (.refl _)))
  -- No block is left, so no payload is.
  obtain ⟨m₃, h₃⟩ := hquiet.inv hN ⟨m, hinv⟩
  have hempty : w₃.active = ∅ := by
    refine Finset.eq_empty_of_forall_notMem fun p hp => ?_
    have hb := h₃.holds.active_mem ((h₃.active p).mp hp)
    rw [show w₃.alloc.blocks = [] from hblocks] at hb
    cases hb
  rw [hempty] at hquiet
  exact hquiet

/-- **Two closes, one meaning.** In every state a run reaches between two calls, the turns of
    `close` come to what the atomic one computes, if every destructor returns at once. -/
theorem close_of_quiet (hN : 0 < N) {acts : List Act}
    (hrun : Run.run (Calls.step N) init acts = some w) (hframes : w.frames = []) :
    ∃ s', w.alloc.close N = some s' ∧
      Quiet N { w with frames := [.closing .used] } { alloc := s', frames := [], active := ∅ } := by
  obtain ⟨m, h⟩ := inv_run hN ⟨_, inv_init N⟩ hrun
  exact h.quiet_close hN hframes

theorem two_quiet_close : ∃ w s', Run.run (Calls.step 2) init
      [.allocate (some 7), .allocate none] = some w ∧ w.alloc.close 2 = some s' ∧
    Quiet 2 { w with frames := [.closing .used] } { alloc := s', frames := [], active := ∅ } := by
  have hruns : (Run.run (Calls.step 2) init [.allocate (some 7), .allocate none]).map
      Calls.frames = some [] := by decide +kernel
  obtain ⟨w, hw, hframes⟩ := Option.map_eq_some_iff.mp hruns
  obtain ⟨s', hs', hquiet⟩ := close_of_quiet (by decide) hw hframes
  exact ⟨w, s', hw, hs', hquiet⟩

end Quiet

end Calls

/-- **Destructors that call back.** Whatever destructors destroy and allocate, to any depth, every
    step ends, what was created and not released is the set, and no slot of a block some call is
    in is handed out. When the outermost call has returned, every block is in the list of its
    level. Where no destructor fills a block while `close` goes through the partial ones, `close`
    leaves nothing. -/
theorem reentrant_calls_right (N : ℕ) (hN : 0 < N) (before acts : List Act) (w w' : Calls)
    (hbefore : Run.run (Calls.step N) Calls.init before = some w)
    (hrun : Run.run (Calls.step N) w acts = some w') :
    Calls.Ran acts w w' ∧ (w'.frames = [] → w'.world.Faithful N) ∧
      (∀ act, w'.Allowed act → ∃ r w'', w'.perform N act = some (r, w'') ∧ w'.Answer act r w'') ∧
      (w.frames = [] → Run.AllSteps (Calls.step N) (Calls.LeavesRoom N) w acts →
        ∀ w'', w'.step N .go = some w'' → w''.frames = [] →
          w''.active = ∅ ∧ w''.alloc.blocks = []) := by
  have hw := Calls.inv_run hN ⟨_, Calls.inv_init N⟩ hbefore
  obtain ⟨m, h⟩ := Calls.inv_run hN hw hrun
  refine ⟨Calls.ran_run hN hw hrun, h.faithful, ?_, ?_⟩
  · intro act hact
    obtain ⟨r, w'', -, hperform, hmove, -⟩ := h.perform hN hact
    exact ⟨r, w'', hperform, hmove.answer h.nested⟩
  · intro hframes hroom w'' hs hdone
    obtain ⟨r, -, -, hmove, -⟩ := h.step hN hs
    exact (Calls.emptied_run hN hw hframes hrun hroom).closed h hmove hdone

/-- Two blocks of two with a payload in each. While `close` is at the first one its destructor
    allocates, and the second one is full. -/
def leaky : List Act :=
  [.allocate (some 7), .allocate none, .allocate (some 3), .destroy (7, 0), .ret, .close, .go, .go,
    .go, .allocate none, .ret, .go, .go]

theorem close_leaves_a_block :
    ∃ w w', Run.run (Calls.step 2) Calls.init leaky = some w ∧ w.step 2 .go = some w' ∧
      w'.frames = [] ∧ ¬ (w'.active = ∅ ∧ w'.alloc.blocks = []) := by
  have hend : ((Run.run (Calls.step 2) Calls.init leaky).bind fun w => w.step 2 .go).map
      (fun w => (w.frames, w.alloc.blocks)) = some ([], [3]) := by
    decide +kernel
  obtain ⟨w', hw', heq⟩ := Option.map_eq_some_iff.mp hend
  obtain ⟨w, hw, hs⟩ := Option.bind_eq_some_iff.mp hw'
  obtain ⟨hframes, hblocks⟩ := Prod.mk.inj heq
  refine ⟨w, w', hw, hs, hframes, ?_⟩
  rintro ⟨-, hnil⟩
  rw [hblocks] at hnil
  cases hnil

/-- A destructor that destroys the other payload of its block, whose destructor allocates; then
    a `close` with a destructor that does both. -/
def nested : List Act :=
  [.destroy (7, 0), .destroy (7, 1), .allocate none, .ret, .ret, .close, .go, .go, .destroy (3, 0),
    .ret, .allocate none, .ret, .go, .go, .go, .go, .ret, .go, .go]

theorem nested_calls_right :
    ∃ w w' w'', Run.run (Calls.step 2) Calls.init
        [.allocate (some 7), .allocate none, .allocate (some 3)] = some w ∧
      Run.run (Calls.step 2) w nested = some w' ∧ Calls.Ran nested w w' ∧
      w'.step 2 .go = some w'' ∧ w''.active = ∅ ∧ w''.alloc.blocks = [] := by
  have hstart : ((Run.run (Calls.step 2) Calls.init
      [.allocate (some 7), .allocate none, .allocate (some 3)]).map fun w =>
        (w.frames, decide (Run.AllSteps (Calls.step 2) (Calls.LeavesRoom 2) w nested),
          ((Run.run (Calls.step 2) w nested).bind fun w => w.step 2 .go).map Calls.frames)) =
      some ([], true, some []) := by
    decide +kernel
  obtain ⟨w, hw, heq⟩ := Option.map_eq_some_iff.mp hstart
  obtain ⟨hframes, hrest⟩ := Prod.mk.inj heq
  obtain ⟨hroom, hend⟩ := Prod.mk.inj hrest
  obtain ⟨w'', hw'', hdone⟩ := Option.map_eq_some_iff.mp hend
  obtain ⟨w', hw', hs⟩ := Option.bind_eq_some_iff.mp hw''
  obtain ⟨hran, -, -, hclose⟩ := reentrant_calls_right 2 (by decide) _ nested w w' hw hw'
  obtain ⟨hactive, hblocks⟩ := hclose hframes (of_decide_eq_true hroom) w'' hs hdone
  exact ⟨w, w', w'', hw, hw', hran, hs, hactive, hblocks⟩

end WasmerNapi.Allocator
