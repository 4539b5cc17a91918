import WasmerNapi.Allocator.Refine
import WasmerNapi.Lib.Run

/-!
# The allocator is a set of pointers

What the allocator is for, in its own terms: a set of pointers that are active. `World` runs
the allocator with such a set beside it. The set is told the operations and their results and
nothing about blocks, so that it and the allocator agree is something to prove:
`allocator_refines_set`, for every block size and every sequence of operations.

`Faithful` is what can be read off a state, by counting, iterating or walking the three lists.
`Served` is what an operation does.
-/

namespace WasmerNapi.Allocator

open Ring Function

/-- What the allocator is for: a set of pointers that are active. It is told the operations
    and their results, and nothing about blocks. -/
def track (active : Finset Ptr) : Op → Option Ptr → Finset Ptr
  | .allocate _, some p => insert p active
  | .allocate _, none => active
  | .destroy p, _ => active.erase p
  | .takeUsed, some p => active.erase p
  | .takeUsed, none => active
  | .close, _ => ∅

/-- The allocator and the set beside it. -/
structure World where
  alloc : State
  active : Finset Ptr

namespace World

def init : World := ⟨State.init, ∅⟩

/-- Only active payloads are destroyed, and `operator new` finds memory that is not in use. -/
def Allowed (w : World) : Op → Prop
  | .destroy p => p ∈ w.active
  | .allocate (some b) => b ∉ w.alloc.blocks
  | _ => True

instance (w : World) (op : Op) : Decidable (w.Allowed op) :=
  match op with
  | .destroy p => inferInstanceAs (Decidable (p ∈ w.active))
  | .allocate (some b) => inferInstanceAs (Decidable (b ∉ w.alloc.blocks))
  | .allocate none => isTrue trivial
  | .takeUsed => isTrue trivial
  | .close => isTrue trivial

/-- An operation with its result. -/
def perform (N : ℕ) (w : World) (op : Op) : Option (Option Ptr × World) :=
  (w.alloc.perform N op).map fun r => (r.1, ⟨r.2, track w.active op r.1⟩)

def step (N : ℕ) (w : World) (op : Op) : Option World :=
  if w.Allowed op then (w.perform N op).map Prod.snd else none

end World

/-! ## The statement -/

/-- How many slots of a block are used. -/
def fill (active : Finset Ptr) (b : Addr) : ℕ := (active.filter fun p => p.1 = b).card

theorem fill_eq_length {A : Finset Ptr} {m : Slabs} {b : Addr} (hactive : ∀ p, p ∈ A ↔ m.Active p)
    (hnodup : (m.usedSlots b).Nodup) : fill A b = (m.usedSlots b).length := by
  have hset : A.filter (fun p => p.1 = b) = ((m.usedSlots b).map (Prod.mk b)).toFinset := by
    ext ⟨c, i⟩
    rw [Finset.mem_filter, hactive, List.mem_toFinset, List.mem_map]
    constructor
    · rintro ⟨hi, rfl⟩
      exact ⟨i, hi, rfl⟩
    · rintro ⟨j, hj, heq⟩
      obtain ⟨rfl, rfl⟩ := Prod.mk.inj heq
      exact ⟨hj, rfl⟩
  unfold fill
  rw [hset, List.toFinset_card_of_nodup, List.length_map]
  exact hnodup.map fun i j hij => (Prod.mk.inj hij).2

/-- The list for a fill level. -/
def listFor (N k : ℕ) : Head :=
  if k = 0 then .firstFree else if k = N then .firstUsed else .firstPartial

namespace World

/-- The allocator and the set agree. -/
structure Faithful (N : ℕ) (w : World) : Prop where
  countActive : w.alloc.countActive N = some w.active.card
  traverse : ∃ ps, w.alloc.traverse N = some ps ∧ ps.Nodup ∧ ps.toFinset = w.active
  listed : ∀ h ∈ [Head.firstFree, .firstUsed, .firstPartial], ∃ bs : List Addr,
    w.alloc.links.walk (.inl h) w.alloc.blocks.length (w.alloc.links.next (.inl h)) =
        some (bs.map fun b => .inr (.link b)) ∧
      bs.Nodup ∧ ∀ b, b ∈ bs ↔ b ∈ w.alloc.blocks ∧ listFor N (fill w.active b) = h
  /-- Every payload created is active or has been released, once. -/
  ledger : (w.alloc.released : Multiset Ptr) + w.active.val = w.alloc.created

/-- What an operation answers, and what it does to the set. -/
def Answer (N : ℕ) (w : World) (op : Op) (r : Option Ptr) (w' : World) : Prop :=
  match op with
  | .allocate room =>
    (∀ p, r = some p → p ∉ w.active ∧ w'.active = insert p w.active) ∧
    (r = none → room = none ∧ w' = w ∧ ∀ b ∈ w.alloc.blocks, fill w.active b = N) ∧
    -- A block is created only when no block has a free slot.
    (w'.alloc.blocks ≠ w.alloc.blocks → ∀ b ∈ w.alloc.blocks, fill w.active b = N)
  | .destroy p => p ∈ w.active ∧ w'.active = w.active.erase p
  | .takeUsed =>
    (r = none ↔ w.active = ∅) ∧ (r = none → w' = w) ∧
    ∀ p, r = some p → p ∈ w.active ∧ w'.active = w.active.erase p
  | .close => w'.active = ∅ ∧ w'.alloc.blocks = []

/-- The answer, and the calls of `record_create` and `record_release`: one for each pointer
    that joined the set or left it. -/
structure Served (N : ℕ) (w : World) (op : Op) (r : Option Ptr) (w' : World) : Prop where
  answer : w.Answer N op r w'
  created : ∃ ps, w'.alloc.created = ps ++ w.alloc.created ∧ ps.Nodup ∧
    ps.toFinset = w'.active \ w.active
  released : ∃ ps, w'.alloc.released = ps ++ w.alloc.released ∧ ps.Nodup ∧
    ps.toFinset = w.active \ w'.active

/-- The invariant of all sequences. -/
structure Tracks (N : ℕ) (w : World) (m : Slabs) : Prop where
  holds : Holds N w.alloc m
  active : ∀ p, p ∈ w.active ↔ m.Active p
  ledger : (w.alloc.released : Multiset Ptr) + w.active.val = w.alloc.created

/-! ## Reading a state -/

section Read

variable {N : ℕ} {w : World} {m : Slabs} (h : Tracks N w m)

include h

theorem Tracks.pointers : (m.pointers m.busy).Nodup ∧ (m.pointers m.busy).toFinset = w.active := by
  refine ⟨Slabs.nodup_pointers h.holds.nodup_busy fun b _ => nodup_usedSlots h.holds.reps b, ?_⟩
  ext p
  rw [List.mem_toFinset, Slabs.mem_pointers, h.active]
  refine and_iff_right_of_imp fun hp => h.holds.ok.mem_busy.mpr ⟨h.holds.active_mem hp, ?_⟩
  exact List.ne_nil_of_mem hp

theorem Tracks.fill_eq (b : Addr) : fill w.active b = (m.usedSlots b).length :=
  fill_eq_length h.active (nodup_usedSlots h.holds.reps b)

theorem Tracks.full_iff {b : Addr} (hb : b ∈ w.alloc.blocks) :
    fill w.active b = N ↔ m.freeSlots b = [] := by
  have hlen := (h.holds.ok.slots b hb).length_eq
  rw [List.length_append, List.length_range] at hlen
  rw [h.fill_eq, ← List.length_eq_zero_iff]
  omega

theorem Tracks.listFor_eq {b : Addr} (hb : b ∈ w.alloc.blocks) :
    listFor N (fill w.active b) = (m.level b).head := by
  have hempty : fill w.active b = 0 ↔ m.usedSlots b = [] := by
    rw [h.fill_eq, List.length_eq_zero_iff]
  have hfull := h.full_iff hb
  unfold listFor Slabs.level
  by_cases hused : m.usedSlots b = []
  · rw [if_pos (hempty.mpr hused), if_pos hused]
    rfl
  · rw [if_neg (hempty.not.mpr hused), if_neg hused]
    by_cases hfree : m.freeSlots b = []
    · rw [if_pos (hfull.mpr hfree), if_pos hfree]
      rfl
    · rw [if_neg (hfull.not.mpr hfree), if_neg hfree]
      rfl

theorem Tracks.faithful : w.Faithful N := by
  obtain ⟨hnodup, hset⟩ := h.pointers
  refine ⟨?_, ⟨_, h.holds.traverse, hnodup, hset⟩, ?_, h.ledger⟩
  · rw [h.holds.countActive, ← hset, List.toFinset_card_of_nodup hnodup]
  · intro t ht
    obtain ⟨l, rfl⟩ : ∃ l : Level, t = l.head := by
      simp only [List.mem_cons, List.not_mem_nil, or_false] at ht
      rcases ht with rfl | rfl | rfl
      · exact ⟨.free, rfl⟩
      · exact ⟨.used, rfl⟩
      · exact ⟨.part, rfl⟩
    refine ⟨m.lists l, ?_, nodup_lists h.holds.reps l, ?_⟩
    · have hwalk := h.holds.reps.walk w.alloc.blocks.length l.head (by
        rw [Slabs.rings_head, List.length_map]
        exact h.holds.length_lists l)
      rw [Slabs.rings_head, List.map_map] at hwalk
      exact hwalk
    · intro b
      rw [h.holds.ok.listed]
      refine and_congr_right fun hb => ?_
      rw [h.listFor_eq hb]
      refine ⟨congrArg _, fun heq => ?_⟩
      cases hl : m.level b <;> cases l <;> simp [hl, Level.head] at heq ⊢

theorem Tracks.full_of_roomy (hN : 0 < N) (hroomy : m.roomy = []) :
    ∀ b ∈ w.alloc.blocks, fill w.active b = N := by
  intro b hb
  rw [h.full_iff hb]
  by_contra hfree
  have hmem := (h.holds.amid.ok.mem_roomy hN).mpr ⟨⟨hb, List.not_mem_nil⟩, hfree⟩
  rw [hroomy] at hmem
  exact List.not_mem_nil hmem

end Read

/-! ## One operation -/

section Step

variable {N : ℕ} {w w' : World} {m m' : Slabs}

theorem coe_eq_val {ps : List Ptr} {A : Finset Ptr} (hnodup : ps.Nodup) (hset : ps.toFinset = A) :
    (ps : Multiset Ptr) = A.val := by
  rw [← hset, List.toFinset_val, hnodup.dedup]

/-- The ledger is kept by any operation that reports what joined the set and what left it. -/
theorem ledger_of_served {born dead : List Ptr}
    (h : (w.alloc.released : Multiset Ptr) + w.active.val = w.alloc.created)
    (hcreated : w'.alloc.created = born ++ w.alloc.created ∧ born.Nodup ∧
      born.toFinset = w'.active \ w.active)
    (hreleased : w'.alloc.released = dead ++ w.alloc.released ∧ dead.Nodup ∧
      dead.toFinset = w.active \ w'.active) :
    (w'.alloc.released : Multiset Ptr) + w'.active.val = w'.alloc.created := by
  obtain ⟨hborn, hbornNodup, hbornSet⟩ := hcreated
  obtain ⟨hdead, hdeadNodup, hdeadSet⟩ := hreleased
  have hboth : ∀ A B : Finset Ptr, (A \ B).val + B.val = (A ∪ B).val := by
    intro A B
    rw [← Finset.sdiff_union_self_eq_union, ← Finset.disjUnion_eq_union _ _ Finset.sdiff_disjoint]
    rfl
  rw [hborn, hdead, ← Multiset.coe_add, ← Multiset.coe_add, coe_eq_val hbornNodup hbornSet,
    coe_eq_val hdeadNodup hdeadSet, ← h]
  calc (w.active \ w'.active).val + ↑w.alloc.released + w'.active.val
      = ↑w.alloc.released + ((w.active \ w'.active).val + w'.active.val) := by
        rw [add_comm (w.active \ w'.active).val, add_assoc]
    _ = ↑w.alloc.released + ((w'.active \ w.active).val + w.active.val) := by
        rw [hboth, hboth, Finset.union_comm]
    _ = (w'.active \ w.active).val + (↑w.alloc.released + w.active.val) := by
        rw [← add_assoc, add_comm (w.alloc.released : Multiset Ptr), add_assoc]

/-- An operation that is served leaves slabs that stand for the new set. -/
theorem Tracks.of_served (h : Tracks N w m) {op : Op} {r : Option Ptr}
    (hserved : w.Served N op r w') (hholds : Holds N w'.alloc m')
    (hactive : ∀ p, p ∈ w'.active ↔ m'.Active p) : Tracks N w' m' := by
  obtain ⟨born, hborn⟩ := hserved.created
  obtain ⟨dead, hdead⟩ := hserved.released
  exact ⟨hholds, hactive, ledger_of_served h.ledger hborn hdead⟩

theorem perform_eq {op : Op} {r : Option Ptr} {s' : State}
    (hs : w.alloc.perform N op = some (r, s')) :
    w.perform N op = some (r, ⟨s', track w.active op r⟩) := by
  unfold perform
  rw [hs]
  rfl

variable (h : Tracks N w m)

include h

/-- A pointer joined: the answer of an `allocate` that found or made room. -/
theorem Tracks.joined {room : Option Addr} {p : Ptr} {s' : State} (hp : ¬ m.Active p)
    (hcreated : s'.created = p :: w.alloc.created) (hreleased : s'.released = w.alloc.released)
    (hblocks : s'.blocks ≠ w.alloc.blocks → ∀ b ∈ w.alloc.blocks, fill w.active b = N) :
    w.Served N (.allocate room) (some p) ⟨s', insert p w.active⟩ := by
  have hnew : p ∉ w.active := fun hmem => hp ((h.active p).mp hmem)
  refine ⟨⟨?_, ?_, hblocks⟩, ⟨[p], hcreated, List.nodup_singleton p, ?_⟩, ⟨[], hreleased, List.nodup_nil, ?_⟩⟩
  · intro q hq
    cases hq
    exact ⟨hnew, rfl⟩
  · nofun
  · ext q
    simp only [List.toFinset_cons, List.toFinset_nil, insert_empty_eq, Finset.mem_singleton,
      Finset.mem_sdiff, Finset.mem_insert]
    constructor
    · rintro rfl
      exact ⟨Or.inl rfl, hnew⟩
    · rintro ⟨hq | hq, hno⟩
      · exact hq
      · exact absurd hq hno
  · exact (Finset.sdiff_eq_empty_iff_subset.mpr (Finset.subset_insert p w.active)).symm

omit h in
/-- A pointer left, reported once. -/
theorem left_reports {p : Ptr} {t : State} (hp : p ∈ w.active)
    (hcreated : t.created = w.alloc.created) (hreleased : t.released = p :: w.alloc.released) :
    (∃ ps, t.created = ps ++ w.alloc.created ∧ ps.Nodup ∧
        ps.toFinset = w.active.erase p \ w.active) ∧
      ∃ ps, t.released = ps ++ w.alloc.released ∧ ps.Nodup ∧
        ps.toFinset = w.active \ w.active.erase p := by
  refine ⟨⟨[], hcreated, List.nodup_nil, ?_⟩, ⟨[p], hreleased, List.nodup_singleton p, ?_⟩⟩
  · exact (Finset.sdiff_eq_empty_iff_subset.mpr (Finset.erase_subset p w.active)).symm
  · rw [Finset.sdiff_erase_self hp]
    rfl

theorem Tracks.allocate (hN : 0 < N) {room : Option Addr} (hroom : w.Allowed (.allocate room)) :
    ∃ r w' m', w.perform N (.allocate room) = some (r, w') ∧ w.Served N (.allocate room) r w' ∧
      Tracks N w' m' := by
  -- What is common to the two ways of finding a slot.
  have hfound : ∀ (p : Ptr) (s' : State) (m' : Slabs),
      w.alloc.allocate N room = some (some p, s') → Holds N s' m' →
      (∀ q, m'.Active q ↔ q = p ∨ m.Active q) →
      w.Served N (.allocate room) (some p) ⟨s', insert p w.active⟩ →
      ∃ r w' m', w.perform N (.allocate room) = some (r, w') ∧
        w.Served N (.allocate room) r w' ∧ Tracks N w' m' := by
    intro p s' m' hs' hholds hactive hserved
    refine ⟨some p, ⟨s', insert p w.active⟩, m', ?_, hserved, h.of_served hserved hholds ?_⟩
    · exact perform_eq hs'
    · intro q
      rw [hactive, ← h.active]
      exact Finset.mem_insert
  by_cases hroomy : m.roomy = []
  · have hfull := h.full_of_roomy hN hroomy
    cases room with
    | none =>
      have hserved : w.Served N (.allocate none) none w :=
        ⟨⟨nofun, fun _ => ⟨rfl, rfl, hfull⟩, fun _ => hfull⟩,
          ⟨[], rfl, List.nodup_nil, by simp⟩, ⟨[], rfl, List.nodup_nil, by simp⟩⟩
      exact ⟨none, w, m, perform_eq (h.holds.amid.allocate_none hroomy), hserved, h⟩
    | some b =>
      obtain ⟨i, M, m', ⟨hp, -⟩, hs', hholds, hactive⟩ :=
        h.holds.amid.allocate_new hN hroomy hroom
      exact hfound _ _ m' hs' hholds.between hactive (h.joined hp rfl rfl fun _ => hfull)
  · obtain ⟨p, M, m', ⟨hp, -⟩, hs', hholds, hactive⟩ :=
      h.holds.amid.allocate_roomy hN room hroomy
    exact hfound p _ m' hs' hholds.between hactive (h.joined hp rfl rfl fun hne => absurd rfl hne)

theorem Tracks.erased {p : Ptr} (hactive : ∀ q, m'.Active q ↔ q ≠ p ∧ m.Active q) :
    ∀ q, q ∈ w.active.erase p ↔ m'.Active q := by
  intro q
  rw [hactive, ← h.active]
  exact Finset.mem_erase

theorem Tracks.destroy {p : Ptr} (hp : p ∈ w.active) :
    ∃ r w' m', w.perform N (.destroy p) = some (r, w') ∧ w.Served N (.destroy p) r w' ∧
      Tracks N w' m' := by
  obtain ⟨M, m', hs', hholds, hactive⟩ := h.holds.destroy ((h.active p).mp hp)
  obtain ⟨hcreated, hreleased⟩ := left_reports hp
    (t := { w.alloc with links := M, released := p :: w.alloc.released }) rfl rfl
  have hserved : w.Served N (.destroy p) none
      ⟨{ w.alloc with links := M, released := p :: w.alloc.released }, w.active.erase p⟩ :=
    ⟨⟨hp, rfl⟩, hcreated, hreleased⟩
  refine ⟨none, _, m', perform_eq ?_, hserved, h.of_served hserved hholds (h.erased hactive)⟩
  exact congrArg (fun s => some (none, s)) hs'

theorem Tracks.takeUsed :
    ∃ r w' m', w.perform N .takeUsed = some (r, w') ∧ w.Served N .takeUsed r w' ∧
      Tracks N w' m' := by
  rcases h.holds.takeUsed with ⟨hbusy, hs'⟩ | ⟨p, M, m', hp, hs', hholds, hactive⟩
  · have hempty : w.active = ∅ := by
      rw [← h.pointers.2, hbusy]
      rfl
    have hserved : w.Served N .takeUsed none w :=
      ⟨⟨iff_of_true rfl hempty, fun _ => rfl, nofun⟩,
        ⟨[], rfl, List.nodup_nil, by simp⟩, ⟨[], rfl, List.nodup_nil, by simp⟩⟩
    exact ⟨none, w, m, perform_eq hs', hserved, h⟩
  · have hmem : p ∈ w.active := (h.active p).mpr hp
    obtain ⟨hcreated, hreleased⟩ := left_reports hmem
      (t := { w.alloc with links := M, released := p :: w.alloc.released }) rfl rfl
    have hserved : w.Served N .takeUsed (some p)
        ⟨{ w.alloc with links := M, released := p :: w.alloc.released }, w.active.erase p⟩ := by
      refine ⟨⟨iff_of_false (Option.some_ne_none p) (Finset.ne_empty_of_mem hmem), ?_, ?_⟩, hcreated,
        hreleased⟩
      · nofun
      · intro q hq
        cases hq
        exact ⟨hmem, rfl⟩
    exact ⟨some p, _, m', perform_eq hs', hserved, h.of_served hserved hholds (h.erased hactive)⟩

theorem Tracks.close :
    ∃ r w' m', w.perform N .close = some (r, w') ∧ w.Served N .close r w' ∧ Tracks N w' m' := by
  obtain ⟨s', m', hs', hholds, hshed, hblocks⟩ := h.holds.close
  have hnone : ∀ p, ¬ m'.Active p := by
    intro p hp
    have hmem := hholds.active_mem hp
    rw [hblocks] at hmem
    exact List.not_mem_nil hmem
  obtain ⟨ps, hps, hnodup, hmem⟩ := hshed.released
  have hserved : w.Served N .close none ⟨s', ∅⟩ := by
    refine ⟨⟨rfl, hblocks⟩, ⟨[], hshed.created, List.nodup_nil, ?_⟩, ⟨ps, hps, hnodup, ?_⟩⟩
    · exact (Finset.empty_sdiff _).symm
    · ext p
      rw [List.mem_toFinset, hmem, Finset.sdiff_empty, h.active]
      exact and_iff_left (hnone p)
  refine ⟨none, ⟨s', ∅⟩, m', ?_, hserved, h.of_served hserved hholds ?_⟩
  · exact perform_eq (congrArg (Option.map fun s => (none, s)) hs')
  · intro p
    exact iff_of_false (Finset.notMem_empty p) (hnone p)

/-- **One operation.** Whatever is allowed ends, is served, and keeps the invariant. -/
theorem Tracks.perform (hN : 0 < N) {op : Op} (hop : w.Allowed op) :
    ∃ r w' m', w.perform N op = some (r, w') ∧ w.Served N op r w' ∧ Tracks N w' m' := by
  cases op with
  | allocate room => exact h.allocate hN hop
  | destroy p => exact h.destroy hop
  | takeUsed => exact h.takeUsed
  | close => exact h.close

end Step

theorem tracks_init (N : ℕ) : Tracks N init Slabs.none where
  holds := holds_init
  active _ := iff_of_false (Finset.notMem_empty _) List.not_mem_nil
  ledger := rfl

theorem tracks_run {N : ℕ} (hN : 0 < N) {ops : List Op} {w : World}
    (hrun : Run.run (step N) init ops = some w) : ∃ m, Tracks N w m := by
  have hstep : ∀ s op s', step N s op = some s' → (∃ m, Tracks N s m) → ∃ m, Tracks N s' m := by
    rintro s op s' hs ⟨m, h⟩
    unfold step at hs
    split at hs
    · rename_i hop
      obtain ⟨r, w', m', hw', -, htracks⟩ := h.perform hN hop
      rw [hw'] at hs
      cases hs
      exact ⟨m', htracks⟩
    · cases hs
  exact Run.invariant hstep hrun ⟨Slabs.none, tracks_init N⟩

end World

/-- **The allocator is a set of pointers.** After any sequence of operations the allocator and
    the set agree, and every operation that is allowed then ends and does to the allocator what
    it does to the set. -/
theorem allocator_refines_set (N : ℕ) (hN : 0 < N) (ops : List Op) (w : World)
    (hrun : Run.run (World.step N) World.init ops = some w) :
    w.Faithful N ∧
      ∀ op, w.Allowed op → ∃ r w', w.perform N op = some (r, w') ∧ w.Served N op r w' := by
  obtain ⟨m, h⟩ := World.tracks_run hN hrun
  refine ⟨h.faithful, fun op hop => ?_⟩
  obtain ⟨r, w', -, hw', hserved, -⟩ := h.perform hN hop
  exact ⟨r, w', hw', hserved⟩

/-- Blocks of two: one is filled, a second begun, the first half emptied; after `close` the
    address of the second one comes back. -/
def reuse : List Op :=
  [.allocate (some 7), .allocate none, .allocate (some 3), .destroy (7, 0), .takeUsed, .close,
    .allocate (some 3)]

theorem reuse_refines_set :
    ∃ w, Run.run (World.step 2) World.init reuse = some w ∧ w.active = {(3, 0)} ∧ w.Faithful 2 ∧
      ∃ r w', w.perform 2 .takeUsed = some (r, w') ∧ w.Served 2 .takeUsed r w' := by
  have hactive : (Run.run (World.step 2) World.init reuse).map World.active = some {(3, 0)} := by
    decide +kernel
  obtain ⟨w, hw, hset⟩ := Option.map_eq_some_iff.mp hactive
  have hrefines := allocator_refines_set 2 (by decide) reuse w hw
  exact ⟨w, hw, hset, hrefines.1, hrefines.2 .takeUsed trivial⟩

end WasmerNapi.Allocator
