import WasmerNapi.Allocator.Slabs

/-!
# The heap stands for slabs

One spec lemma for each function of `Allocator/Basic.lean`, first on the rings (`reps_*`),
then for the operations on states whose slabs meet the invariant (`Holds.*`). The loops of
`close`, `count_active` and the iterator are each proved against the list they walk, with the
fuel the model gives them.

Every operation's lemma says which pointers are active afterwards, in terms of those that were
before: that is all `Allocator/World.lean` uses.
-/

namespace WasmerNapi.Allocator

open Ring Function
open List (mem_cons_self length_append nodup_append length_cons length_map)

variable {N : ℕ} {L : Heap} {m : Slabs} {b : Addr} {i : ℕ}

/-! ## The heap stands for slabs -/

section Reps

theorem first_head (h : Reps L m.rings) (l : Level) :
    L.first (.inl l.head) = (m.lists l).head?.map fun b => .inr (.link b) := by
  rw [h.first, Slabs.rings_head, List.head?_map, Option.map_map]
  rfl

theorem firstOr_eq (h : Reps L m.rings) (l k : Level) :
    L.firstOr l.head k.head = (m.lists l ++ m.lists k).head?.map fun b => .inr (.link b) := by
  unfold Heap.firstOr
  rw [first_head h l, first_head h k]
  cases m.lists l with
  | nil => rfl
  | cons b bs => rfl

theorem first_freeSlot (h : Reps L m.rings) (b : Addr) :
    L.first (.inl (.firstFreeSlot b)) = (m.freeSlots b).head?.map fun i => .inr (.freeLink b i) := by
  rw [h.first, Slabs.rings, List.head?_map, Option.map_map]
  rfl

theorem first_usedSlot (h : Reps L m.rings) (b : Addr) :
    L.first (.inl (.firstUsedSlot b)) = (m.usedSlots b).head?.map fun i => .inr (.usedLink b i) := by
  rw [h.first, Slabs.rings, List.head?_map, Option.map_map]
  rfl

theorem firstUsedSlot_eq (h : Reps L m.rings) (b : Addr) :
    L.firstUsedSlot b = (m.usedSlots b).head?.map fun i => (b, i) := by
  unfold Heap.firstUsedSlot
  rw [first_usedSlot h]
  cases m.usedSlots b with
  | nil => rfl
  | cons i is => rfl

theorem isFull_iff (h : Reps L m.rings) (b : Addr) : L.isFull b = true ↔ m.freeSlots b = [] := by
  unfold Heap.isFull
  rw [first_freeSlot h]
  simp

theorem isEmpty_iff (h : Reps L m.rings) (b : Addr) : L.isEmpty b = true ↔ m.usedSlots b = [] := by
  unfold Heap.isEmpty
  rw [first_usedSlot h]
  simp

theorem nodup_lists (h : Reps L m.rings) (l : Level) : (m.lists l).Nodup := by
  have hnodup := h.nodup l.head
  rw [Slabs.rings_head] at hnodup
  exact hnodup.of_map

theorem nodup_usedSlots (h : Reps L m.rings) (b : Addr) : (m.usedSlots b).Nodup :=
  (h.nodup (.firstUsedSlot b)).of_map

/-- Linking a block of no list puts it in the one of its level. -/
theorem reps_linkBlock (h : Reps L m.rings) (hb : ∀ l, b ∉ m.lists l) :
    Reps (L.linkBlock b) (m.add (m.level b) b).rings := by
  have hfree : ∀ t, Elem.link b ∉ m.rings t := by
    intro t hmem
    obtain ⟨l, -, hl⟩ := Slabs.link_mem.mp hmem
    exact hb l hl
  have hlinked : ¬ L.linked (.inr (.link b)) = true := by
    rw [h.linked]
    rintro ⟨t, ht⟩
    exact hfree t ht
  have hlink : ∀ l, Reps (L.link (.inl l.head) (.inr (.link b))) (m.add l b).rings := by
    intro l
    rw [← Slabs.cons_link]
    exact h.link hfree
  unfold Heap.linkBlock Slabs.level
  rw [if_neg hlinked]
  by_cases hempty : m.usedSlots b = []
  · rw [if_pos ((isEmpty_iff h b).mpr hempty), if_pos hempty]
    exact hlink .free
  · rw [if_neg fun he => hempty ((isEmpty_iff h b).mp he), if_neg hempty]
    by_cases hfull : m.freeSlots b = []
    · rw [if_pos ((isFull_iff h b).mpr hfull), if_pos hfull]
      exact hlink .used
    · rw [if_neg fun hf => hfull ((isFull_iff h b).mp hf), if_neg hfull]
      exact hlink .part

theorem reps_unlinkBlock (h : Reps L m.rings) {l : Level} (hb : b ∈ m.lists l) :
    Reps (L.unlink (.inr (.link b))) (m.drop b).rings := by
  rw [← Slabs.erase_link]
  exact h.unlink (Slabs.link_mem.mpr ⟨l, rfl, hb⟩)

theorem not_mem_drop (h : Reps L m.rings) (b : Addr) (l : Level) : b ∉ (m.drop b).lists l :=
  (nodup_lists h l).not_mem_erase

theorem reps_relink (h : Reps L m.rings) {l : Level} (hb : b ∈ m.lists l) :
    Reps (L.relink b) (m.settle b).rings :=
  reps_linkBlock (reps_unlinkBlock h hb) (not_mem_drop h b)

theorem reps_unlinkUsedSlot (h : Reps L m.rings) (hi : i ∈ m.usedSlots b) :
    Reps (L.unlinkUsedSlot (b, i)) (m.setUsed b ((m.usedSlots b).erase i)).rings := by
  rw [← Slabs.erase_usedLink]
  exact h.unlink (Slabs.usedLink_mem.mpr ⟨rfl, hi⟩)

theorem reps_linkFreeSlot (h : Reps L m.rings) (hi : i ∉ m.freeSlots b) :
    Reps (L.linkFreeSlot b (b, i)) (m.setFree b (i :: m.freeSlots b)).rings := by
  rw [← Slabs.cons_freeLink]
  exact h.link fun t hmem => hi (Slabs.freeLink_mem.mp hmem).2

/-- The first free slot becomes the first used one. -/
theorem reps_allocateSlot (h : Reps L m.rings) {is : List ℕ} (hfree : m.freeSlots b = i :: is)
    (hused : i ∉ m.usedSlots b) :
    ∃ M, L.allocateSlot b = some ((b, i), M) ∧
      Reps M ((m.setFree b is).setUsed b (i :: m.usedSlots b)).rings := by
  have hi : i ∈ m.freeSlots b := hfree ▸ mem_cons_self ..
  have hunlink := h.unlink (Slabs.freeLink_mem.mpr ⟨rfl, hi⟩)
  rw [Slabs.erase_freeLink, hfree, List.erase_cons_head] at hunlink
  have hlink := hunlink.link (s := .firstUsedSlot b) fun t hmem =>
    hused (Slabs.usedLink_mem.mp hmem).2
  rw [Slabs.cons_usedLink] at hlink
  refine ⟨_, ?_, hlink⟩
  unfold Heap.allocateSlot
  rw [first_freeSlot h, hfree]
  rfl

/-- The loop of `reset_free_list` puts the slots below `n` in front, in order. -/
theorem reps_linkSlots (n : ℕ) (h : Reps L m.rings) (hfree : ∀ i ∈ m.freeSlots b, n ≤ i) :
    Reps (L.linkSlots b n) (m.setFree b (List.range n ++ m.freeSlots b)).rings := by
  induction n generalizing L m with
  | zero =>
    rw [List.range_zero, List.nil_append, Slabs.setFree_self]
    exact h
  | succ n ih =>
    have hn : n ∉ m.freeSlots b := fun hmem => absurd (hfree n hmem) (Nat.not_succ_le_self n)
    have hlink := h.link (s := .firstFreeSlot b) fun t hmem => hn (Slabs.freeLink_mem.mp hmem).2
    rw [Slabs.cons_freeLink] at hlink
    have hrest := ih hlink (by
      intro i hi
      rw [Slabs.setFree_freeSlots, if_pos rfl] at hi
      rcases List.mem_cons.mp hi with rfl | hi
      · exact le_refl i
      · exact Nat.le_of_succ_le (hfree i hi))
    rw [Slabs.setFree_setFree, Slabs.setFree_freeSlots, if_pos rfl] at hrest
    rw [List.range_succ, List.append_assoc]
    exact hrest

/-- `reset_free_list` leaves every slot of the block free, whatever its lists were. -/
theorem reps_resetFreeList (h : Reps L m.rings) (hfree : (m.freeSlots b).length ≤ N)
    (hused : (m.usedSlots b).length ≤ N) :
    ∃ M, L.resetFreeList N b = some M ∧
      Reps M ((m.setFree b (List.range N)).setUsed b []).rings := by
  obtain ⟨L₁, hL₁, h₁⟩ := h.drain (.firstFreeSlot b) (by simpa [Slabs.rings] using hfree)
  rw [Slabs.update_freeSlot] at h₁
  obtain ⟨L₂, hL₂, h₂⟩ := h₁.drain (.firstUsedSlot b) (by simpa [Slabs.rings] using hused)
  rw [Slabs.update_usedSlot] at h₂
  have h₃ := reps_linkSlots (b := b) N h₂ (by simp)
  simp only [Slabs.setUsed_setFree, Slabs.setFree_setFree, Slabs.setUsed_freeSlots,
    Slabs.setFree_freeSlots, if_pos, List.append_nil] at h₃
  refine ⟨_, ?_, h₃⟩
  unfold Heap.resetFreeList
  rw [hL₁, Option.bind_eq_bind, Option.bind_some, hL₂]
  rfl

/-- A constructed block has every slot free. -/
theorem reps_newBlock (h : Reps L m.rings) (hb : ∀ l, b ∉ m.lists l) :
    ∃ M, L.newBlock N b = some M ∧ Reps M ((m.setFree b (List.range N)).setUsed b []).rings := by
  have hconstruct := h.construct (fun n => Node.home n = some b) (by
    intro t x hx
    cases x with
    | link c =>
      obtain ⟨l, rfl, hc⟩ := Slabs.link_mem.mp hx
      have hcb : c ≠ b := fun heq => hb l (heq ▸ hc)
      cases l <;> simp [Node.home, Level.head, hcb]
    | freeLink c i =>
      obtain ⟨rfl, -⟩ := Slabs.freeLink_mem.mp hx
      exact Iff.rfl
    | usedLink c i =>
      obtain ⟨rfl, -⟩ := Slabs.usedLink_mem.mp hx
      exact Iff.rfl)
  rw [Slabs.rings_construct] at hconstruct
  obtain ⟨M, hM, hreps⟩ := reps_resetFreeList (N := N) (b := b) hconstruct (by simp) (by simp)
  refine ⟨M, hM, ?_⟩
  rwa [Slabs.setUsed_setFree, Slabs.setFree_setFree, Slabs.setUsed_setUsed] at hreps

/-- The loop of `block__::close` gives every used slot back. -/
theorem reps_closeSlots (fuel : ℕ) (released : List Ptr) (h : Reps L m.rings)
    (hdisj : ∀ i ∈ m.usedSlots b, i ∉ m.freeSlots b) (hfuel : (m.usedSlots b).length ≤ fuel) :
    ∃ M free, L.closeSlots fuel b released =
        some (M, ((m.usedSlots b).map (Prod.mk b)).reverse ++ released) ∧
      free.length = (m.freeSlots b).length + (m.usedSlots b).length ∧
      Reps M ((m.setFree b free).setUsed b []).rings := by
  induction fuel generalizing L m released with
  | zero =>
    have hused : m.usedSlots b = [] := List.length_eq_zero_iff.mp (Nat.le_zero.mp hfuel)
    refine ⟨L, m.freeSlots b, ?_, ?_, ?_⟩
    · unfold Heap.closeSlots
      rw [firstUsedSlot_eq h, hused]
      rfl
    · rw [hused]
      rfl
    · rwa [Slabs.setFree_self, Slabs.setUsed_self hused]
  | succ fuel ih =>
    cases hused : m.usedSlots b with
    | nil =>
      refine ⟨L, m.freeSlots b, ?_, rfl, ?_⟩
      · unfold Heap.closeSlots
        rw [firstUsedSlot_eq h, hused]
        rfl
      · rwa [Slabs.setFree_self, Slabs.setUsed_self hused]
    | cons i is =>
      have hi : i ∈ m.usedSlots b := hused ▸ mem_cons_self ..
      have hnodup := nodup_usedSlots h b
      rw [hused] at hnodup hfuel
      have h₁ := reps_unlinkUsedSlot h hi
      rw [hused, List.erase_cons_head] at h₁
      have h₂ := reps_linkFreeSlot h₁ (hdisj i hi)
      obtain ⟨M, free, hM, hlen, hreps⟩ := ih ((b, i) :: released) h₂ (by
        intro j hj
        simp only [Slabs.setFree_usedSlots, Slabs.setUsed_usedSlots, if_pos] at hj
        simp only [Slabs.setFree_freeSlots, Slabs.setUsed_freeSlots, if_pos, List.mem_cons, not_or]
        refine ⟨?_, hdisj j (hused ▸ List.mem_cons_of_mem _ hj)⟩
        rintro rfl
        exact (List.nodup_cons.mp hnodup).1 hj) (by simpa using hfuel)
      refine ⟨M, free, ?_, ?_, ?_⟩
      · unfold Heap.closeSlots
        rw [firstUsedSlot_eq h, hused]
        show Heap.closeSlots fuel _ b _ = _
        rw [hM]
        simp
      · rw [hlen]
        simp
        omega
      · rwa [Slabs.setFree_setFree, Slabs.setUsed_setFree, Slabs.setUsed_setUsed] at hreps

/-- `block__::close` reports every used slot once and leaves all slots free. -/
theorem reps_closeBlock (released : List Ptr) (h : Reps L m.rings)
    (hslots : (m.freeSlots b ++ m.usedSlots b).Perm (List.range N)) :
    ∃ M, L.closeBlock N b released =
        some (M, ((m.usedSlots b).map (Prod.mk b)).reverse ++ released) ∧
      Reps M ((m.setFree b (List.range N)).setUsed b []).rings := by
  have hlen := hslots.length_eq
  rw [length_append, List.length_range] at hlen
  have hdisj : ∀ i ∈ m.usedSlots b, i ∉ m.freeSlots b := fun i hused hfree =>
    (nodup_append.mp (hslots.nodup_iff.mpr List.nodup_range)).2.2 i hfree i hused rfl
  obtain ⟨L₁, free, hL₁, hfree, h₁⟩ := reps_closeSlots N released h hdisj
    (hlen ▸ Nat.le_add_left ..)
  obtain ⟨M, hM, hreps⟩ := reps_resetFreeList (N := N) (b := b) h₁
    (by simpa using (hfree.trans hlen).le) (by simp)
  refine ⟨M, ?_, ?_⟩
  · unfold Heap.closeBlock
    rw [hL₁]
    show (L₁.resetFreeList N b).bind _ = _
    rw [hM]
    rfl
  · rwa [Slabs.setUsed_setFree, Slabs.setFree_setFree, Slabs.setUsed_setUsed] at hreps

end Reps

/-- The state stands for slabs that meet the invariant. -/
structure Holds (N : ℕ) (s : State) (m : Slabs) : Prop where
  reps : Reps s.links m.rings
  ok : m.Ok N s.blocks
  nodup : s.blocks.Nodup

theorem holds_init : Holds N State.init Slabs.none where
  reps := by
    have hrings : Slabs.none.rings = fun _ => [] := by
      funext h
      cases h <;> rfl
    rw [hrings]
    exact reps_apart
  ok := Slabs.ok_none N
  nodup := List.nodup_nil

/-- The same amid calls. -/
structure HoldsAmid (N : ℕ) (s : State) (out : List Addr) (held : List Ptr) (m : Slabs) : Prop where
  reps : Reps s.links m.rings
  ok : m.Amid N s.blocks out held
  nodup : s.blocks.Nodup

theorem Holds.amid {s : State} (h : Holds N s m) : HoldsAmid N s [] [] m :=
  ⟨h.reps, Slabs.amid_nil.mpr h.ok, h.nodup⟩

theorem HoldsAmid.between {s : State} (h : HoldsAmid N s [] [] m) : Holds N s m :=
  ⟨h.reps, Slabs.amid_nil.mp h.ok, h.nodup⟩

/-! ## Allocating -/

section Amid

variable {s : State} {out : List Addr} {held : List Ptr} (h : HoldsAmid N s out held m)

include h

/-- No slot is in two of the three places it can be in. -/
theorem HoldsAmid.disjoint (hb : b ∈ s.blocks) :
    (∀ i ∈ m.freeSlots b, i ∉ m.usedSlots b ∧ (b, i) ∉ held) ∧
      ∀ i ∈ m.usedSlots b, (b, i) ∉ held := by
  have hnodup := (h.ok.slots b hb).nodup_iff.mpr List.nodup_range
  obtain ⟨-, hrest, hdisj⟩ := nodup_append.mp hnodup
  obtain ⟨-, -, hdisj'⟩ := nodup_append.mp hrest
  have hin : ∀ i, (b, i) ∈ held → i ∈ Slabs.slotsIn held b := by
    intro i hi
    exact List.mem_map.mpr ⟨(b, i), List.mem_filter.mpr ⟨hi, by simp⟩, rfl⟩
  refine ⟨fun i hfree => ⟨fun hused => ?_, fun hheld => ?_⟩, fun i hused hheld => ?_⟩
  · exact hdisj i hfree i (List.mem_append_left _ hused) rfl
  · exact hdisj i hfree i (List.mem_append_right _ (hin i hheld)) rfl
  · exact hdisj' i hused i (hin i hheld) rfl

theorem HoldsAmid.active_mem {p : Ptr} (hp : m.Active p) : p.1 ∈ s.blocks := by
  by_contra hdead
  have hp' : p.2 ∈ m.usedSlots p.1 := hp
  rw [h.ok.dead p.1 hdead] at hp'
  exact List.not_mem_nil hp'

theorem HoldsAmid.linked_iff (hb : b ∈ s.blocks) :
    s.links.linked (.inr (.link b)) = true ↔ b ∉ out := by
  rw [h.reps.linked]
  constructor
  · rintro ⟨t, ht⟩
    obtain ⟨l, -, hl⟩ := Slabs.link_mem.mp ht
    exact ((h.ok.listed l b).mp hl).1.2
  · intro hout
    exact ⟨_, Slabs.link_mem.mpr ⟨_, rfl, (h.ok.listed _ b).mpr ⟨⟨hb, hout⟩, rfl⟩⟩⟩

theorem HoldsAmid.place {is : List ℕ} (hb : b ∈ s.blocks) (hout : b ∉ out)
    (hfree : m.freeSlots b = i :: is) :
    ∃ M m', s.place b =
        some (some (b, i), { s with links := M, created := (b, i) :: s.created }) ∧
      HoldsAmid N { s with links := M, created := (b, i) :: s.created } out held m' ∧
      ∀ q, m'.Active q ↔ q = (b, i) ∨ m.Active q := by
  have hslots := h.ok.slots b hb
  rw [h.ok.none_held hout, List.append_nil, hfree] at hslots
  have hused := ((h.disjoint hb).1 i (hfree ▸ mem_cons_self ..)).1
  have hlevel : b ∈ m.lists (m.level b) := (h.ok.listed _ b).mpr ⟨⟨hb, hout⟩, rfl⟩
  obtain ⟨L₁, hL₁, h₁⟩ := reps_allocateSlot h.reps hfree hused
  refine ⟨_, _, ?_, ⟨reps_relink h₁ hlevel, ?_, h.nodup⟩, ?_⟩
  · unfold State.place
    rw [hL₁]
    rfl
  · exact h.ok.settle hb hout (List.perm_middle.trans hslots) (nodup_lists h.reps)
  · rintro ⟨c, j⟩
    by_cases hcb : c = b
    · subst hcb
      simp [Slabs.settle, Slabs.Active]
    · simp [Slabs.settle, Slabs.Active, hcb]

/-- Where some block has room, `allocate` takes a free slot of the first one and creates no
    block. -/
theorem HoldsAmid.allocate_roomy (hN : 0 < N) (room : Option Addr) (hroomy : m.roomy ≠ []) :
    ∃ p M m', (¬ m.Active p ∧ p.1 ∉ out ∧ m.roomy.head? = some p.1) ∧
      s.allocate N room = some (some p, { s with links := M, created := p :: s.created }) ∧
      HoldsAmid N { s with links := M, created := p :: s.created } out held m' ∧
      ∀ q, m'.Active q ↔ q = p ∨ m.Active q := by
  have hlink := firstOr_eq h.reps .part .free
  cases hlist : m.roomy with
  | nil => exact absurd hlist hroomy
  | cons b bs =>
    rw [show m.lists .part ++ m.lists .free = b :: bs from hlist] at hlink
    obtain ⟨⟨hb, hout⟩, hne⟩ := (h.ok.mem_roomy hN).mp (hlist ▸ mem_cons_self ..)
    cases hfree : m.freeSlots b with
    | nil => exact absurd hfree hne
    | cons i is =>
      have hused := ((h.disjoint hb).1 i (hfree ▸ mem_cons_self ..)).1
      obtain ⟨M, m', hplace, hholds, hactive⟩ := h.place hb hout hfree
      refine ⟨(b, i), M, m', ⟨hused, hout, rfl⟩, ?_, hholds, hactive⟩
      unfold State.allocate
      rw [show s.links.firstOr .firstPartial .firstFree = some (.inr (.link b)) from hlink]
      exact hplace

/-- Where no block has room and there is no memory either, nothing happens. -/
theorem HoldsAmid.allocate_none (hroomy : m.roomy = []) : s.allocate N none = some (none, s) := by
  have hlink := firstOr_eq h.reps .part .free
  rw [show m.lists .part ++ m.lists .free = [] from hroomy] at hlink
  unfold State.allocate
  rw [show s.links.firstOr .firstPartial .firstFree = none from hlink]

/-- Where no block has room, a new one is created and its first slot taken. -/
theorem HoldsAmid.allocate_new (hN : 0 < N) (hroomy : m.roomy = []) (hb : b ∉ s.blocks) :
    ∃ i M m', (¬ m.Active (b, i) ∧ b ∉ out) ∧
      s.allocate N (some b) = some (some (b, i),
        { s with links := M, blocks := b :: s.blocks, created := (b, i) :: s.created }) ∧
      HoldsAmid N { s with links := M, blocks := b :: s.blocks, created := (b, i) :: s.created }
        out held m' ∧
      ∀ q, m'.Active q ↔ q = (b, i) ∨ m.Active q := by
  have hlink := firstOr_eq h.reps .part .free
  rw [show m.lists .part ++ m.lists .free = [] from hroomy] at hlink
  have hlists : ∀ l, b ∉ m.lists l := fun l hmem => hb ((h.ok.listed l b).mp hmem).1.1
  have hout : b ∉ out := fun hmem => hb (h.ok.away b hmem)
  obtain ⟨L₁, hL₁, h₁⟩ := reps_newBlock (N := N) h.reps hlists
  have h₂ := h₁.link (s := Level.free.head) (x := .link b) (by
    intro t hmem
    obtain ⟨l, -, hl⟩ := Slabs.link_mem.mp hmem
    exact hlists l hl)
  rw [Slabs.cons_link] at h₂
  -- The block is in its list: from here on it is like any other.
  have h₃ : HoldsAmid N { s with
      links := L₁.link (.inl .firstFree) (.inr (.link b)), blocks := b :: s.blocks } out held
      (((m.setFree b (List.range N)).setUsed b []).add .free b) :=
    ⟨h₂, h.ok.join hb, List.nodup_cons.mpr ⟨hb, h.nodup⟩⟩
  obtain ⟨i, is, hrange⟩ := List.exists_cons_of_ne_nil (l := List.range N)
    fun hnil => absurd (List.range_eq_nil.mp hnil) (Nat.ne_of_gt hN)
  obtain ⟨M, m', hplace, hholds, hactive⟩ := h₃.place (mem_cons_self ..) hout
    (show _ = i :: is from (if_pos rfl : _ = List.range N).trans hrange)
  have hdead : ∀ j, ¬ m.Active (b, j) := by
    intro j hj
    exact hb (h.active_mem hj)
  refine ⟨i, M, m', ⟨hdead i, hout⟩, ?_, hholds, ?_⟩
  · unfold State.allocate
    rw [show s.links.firstOr .firstPartial .firstFree = none from hlink]
    show (s.links.newBlock N b).bind _ = _
    rw [hL₁]
    exact hplace
  · intro q
    rw [hactive]
    refine or_congr_right ?_
    obtain ⟨c, j⟩ := q
    by_cases hcb : c = b
    · subst hcb
      simpa [Slabs.Active] using hdead j
    · simp [Slabs.Active, hcb]

end Amid

/-! ## The other operations -/

section Ops

variable {s : State} (h : Holds N s m)

include h

theorem Holds.disjoint (hb : b ∈ s.blocks) : ∀ i ∈ m.freeSlots b, i ∉ m.usedSlots b := by
  intro i hi
  exact ((h.amid.disjoint hb).1 i hi).1

theorem Holds.mem_level (hb : b ∈ s.blocks) : b ∈ m.lists (m.level b) :=
  (h.ok.listed _ b).mpr ⟨hb, rfl⟩

theorem Holds.active_mem {p : Ptr} (hp : m.Active p) : p.1 ∈ s.blocks := h.amid.active_mem hp

/-- A used slot is given back: its block settles. -/
theorem Holds.free (hb : b ∈ s.blocks) (hi : i ∈ m.usedSlots b) :
    ((((m.setFree b (i :: m.freeSlots b)).setUsed b ((m.usedSlots b).erase i)).settle b).Ok N
        s.blocks) ∧
      ∀ q, (((m.setFree b (i :: m.freeSlots b)).setUsed b
        ((m.usedSlots b).erase i)).settle b).Active q ↔ q ≠ (b, i) ∧ m.Active q := by
  refine ⟨h.ok.settle hb ?_ (nodup_lists h.reps), ?_⟩
  · have hback : (m.freeSlots b ++ i :: (m.usedSlots b).erase i).Perm
        (m.freeSlots b ++ m.usedSlots b) := (List.perm_cons_erase hi).symm.append_left _
    exact (List.perm_middle.symm.trans hback).trans (h.ok.slots b hb)
  · exact Slabs.active_erase (nodup_usedSlots h.reps b)

theorem Holds.destroy {p : Ptr} (hp : m.Active p) :
    ∃ M m', s.destroy p = { s with links := M, released := p :: s.released } ∧
      Holds N { s with links := M, released := p :: s.released } m' ∧
      ∀ q, m'.Active q ↔ q ≠ p ∧ m.Active q := by
  obtain ⟨b, i⟩ := p
  have hb : b ∈ s.blocks := h.active_mem hp
  have hi : i ∈ m.usedSlots b := hp
  have hfree : i ∉ m.freeSlots b := fun hmem => h.disjoint hb i hmem hi
  have hlinked : s.links.linked (.inr (.link b)) = true :=
    (h.reps.linked _).mpr ⟨_, Slabs.link_mem.mpr ⟨_, rfl, h.mem_level hb⟩⟩
  -- The slot leaves the used list, the block its list, the slot joins the free list.
  have h₁ := reps_unlinkUsedSlot h.reps hi
  have h₂ := reps_unlinkBlock h₁ (h.mem_level hb)
  have h₃ := reps_linkFreeSlot h₂ hfree
  have h₄ := reps_linkBlock h₃ (not_mem_drop h₁ b)
  obtain ⟨hok, hactive⟩ := h.free hb hi
  refine ⟨_, _, rfl, ⟨?_, hok, h.nodup⟩, hactive⟩
  rw [if_pos hlinked, if_pos hlinked]
  exact h₄

theorem Holds.takeUsed :
    (m.busy = [] ∧ s.takeUsed = some (none, s)) ∨
      ∃ p M m', m.Active p ∧
        s.takeUsed = some (some p, { s with links := M, released := p :: s.released }) ∧
        Holds N { s with links := M, released := p :: s.released } m' ∧
        ∀ q, m'.Active q ↔ q ≠ p ∧ m.Active q := by
  have hlink := firstOr_eq h.reps .used .part
  unfold State.takeUsed
  cases hbusy : m.busy with
  | nil =>
    rw [show m.lists .used ++ m.lists .part = [] from hbusy] at hlink
    refine Or.inl ⟨rfl, ?_⟩
    rw [show s.links.firstOr .firstUsed .firstPartial = none from hlink]
  | cons b bs =>
    rw [show m.lists .used ++ m.lists .part = b :: bs from hbusy] at hlink
    obtain ⟨hb, hne⟩ := h.ok.mem_busy.mp (hbusy ▸ mem_cons_self ..)
    cases hslots : m.usedSlots b with
    | nil => exact absurd hslots hne
    | cons i is =>
      have hi : i ∈ m.usedSlots b := hslots ▸ mem_cons_self ..
      have hslot := firstUsedSlot_eq h.reps b
      rw [hslots] at hslot
      have h₁ := reps_unlinkUsedSlot h.reps hi
      have h₂ := reps_linkFreeSlot h₁ fun hmem => h.disjoint hb i hmem hi
      have h₃ := reps_relink h₂ (h.mem_level hb)
      obtain ⟨hok, hactive⟩ := h.free hb hi
      refine Or.inr ⟨(b, i), (((s.links.unlinkUsedSlot (b, i)).linkFreeSlot b (b, i)).relink b), _,
        hi, ?_, ⟨h₃, hok, h.nodup⟩, hactive⟩
      rw [show s.links.firstOr .firstUsed .firstPartial = some (.inr (.link b)) from hlink]
      show (s.links.firstUsedSlot b).bind _ = _
      rw [hslot]
      rfl

end Ops

/-! ## Closing -/

/-- From one state to another, payloads were released: each that was active and is not, once. -/
structure Shed (s : State) (m : Slabs) (s' : State) (m' : Slabs) : Prop where
  created : s'.created = s.created
  released : ∃ ps, s'.released = ps ++ s.released ∧ ps.Nodup ∧
    ∀ p, p ∈ ps ↔ m.Active p ∧ ¬ m'.Active p
  active : ∀ p, m'.Active p → m.Active p

theorem Shed.refl (s : State) (m : Slabs) : Shed s m s m where
  created := rfl
  released := ⟨[], rfl, List.nodup_nil, fun _ => by simp⟩
  active _ := id

theorem Shed.trans {s s' s'' : State} {m m' m'' : Slabs} (h : Shed s m s' m')
    (h' : Shed s' m' s'' m'') : Shed s m s'' m'' := by
  obtain ⟨ps, hps, hnodup, hmem⟩ := h.released
  obtain ⟨qs, hqs, hnodup', hmem'⟩ := h'.released
  refine ⟨h'.created.trans h.created, ⟨qs ++ ps, ?_, ?_, ?_⟩, fun p hp => h.active p (h'.active p hp)⟩
  · rw [hqs, hps, List.append_assoc]
  · refine nodup_append.mpr ⟨hnodup', hnodup, ?_⟩
    rintro p hq q hp rfl
    exact ((hmem p).mp hp).2 ((hmem' p).mp hq).1
  · intro p
    rw [List.mem_append, hmem, hmem']
    constructor
    · rintro (⟨hp, hno⟩ | ⟨hp, hno⟩)
      · exact ⟨h.active p hp, hno⟩
      · exact ⟨hp, fun hp'' => hno (h'.active p hp'')⟩
    · rintro ⟨hp, hno⟩
      by_cases hp' : m'.Active p
      · exact Or.inl ⟨hp', hno⟩
      · exact Or.inr ⟨hp, hp'⟩

variable {bs : List Addr}

/-- One round of a loop of `close`: the first block of the list is deleted. -/
theorem Holds.closeFirst {s : State} (h : Holds N s m) {l : Level} (hlist : m.lists l = b :: bs) :
    ∃ M released m', Heap.closeBlock N (s.links.unlink (.inr (.link b))) b s.released =
        some (M, released) ∧
      Holds N { s with links := M, blocks := s.blocks.erase b, released := released } m' ∧
      Shed s m { s with links := M, blocks := s.blocks.erase b, released := released } m' ∧
      m'.lists l = bs ∧ ∀ k, k ≠ l → m'.lists k = m.lists k := by
  have hmem : b ∈ m.lists l := hlist ▸ mem_cons_self ..
  obtain ⟨hb, hlevel⟩ := (h.ok.listed l b).mp hmem
  have h₁ := reps_unlinkBlock h.reps hmem
  obtain ⟨M, hM, h₂⟩ := reps_closeBlock (N := N) s.released h₁ (h.ok.slots b hb)
  refine ⟨M, _, _, hM, ⟨h₂, h.ok.delete hb h.nodup (nodup_lists h.reps) _, h.nodup.erase b⟩,
    ⟨rfl, ⟨_, rfl, ?_, ?_⟩, ?_⟩, ?_, ?_⟩
  · exact List.nodup_reverse.mpr ((nodup_usedSlots h.reps b).map fun i j hij => (Prod.mk.inj hij).2)
  · rintro ⟨c, j⟩
    by_cases hcb : c = b
    · subst hcb
      simp [Slabs.Active]
    · simp [Slabs.Active, hcb, Ne.symm hcb]
  · rintro ⟨c, j⟩ hactive
    by_cases hcb : c = b
    · subst hcb
      simp [Slabs.Active] at hactive
    · simpa [Slabs.Active, hcb] using hactive
  · show (m.lists l).erase b = bs
    rw [hlist, List.erase_cons_head]
  · intro k hk
    refine List.erase_of_not_mem fun hb' => hk ?_
    exact ((h.ok.listed k b).mp hb').2.symm.trans hlevel

theorem Holds.closeList {s : State} (fuel : ℕ) (h : Holds N s m) {l : Level}
    (hfuel : (m.lists l).length ≤ fuel) :
    ∃ s' m', s.closeList N l.head fuel = some s' ∧ Holds N s' m' ∧ Shed s m s' m' ∧
      m'.lists l = [] ∧ ∀ k, k ≠ l → m'.lists k = m.lists k := by
  induction fuel generalizing s m with
  | zero =>
    have hlist : m.lists l = [] := List.length_eq_zero_iff.mp (Nat.le_zero.mp hfuel)
    refine ⟨s, m, ?_, h, Shed.refl s m, hlist, fun _ _ => rfl⟩
    unfold State.closeList
    rw [first_head h.reps, hlist]
    rfl
  | succ fuel ih =>
    cases hlist : m.lists l with
    | nil =>
      refine ⟨s, m, ?_, h, Shed.refl s m, hlist, fun _ _ => rfl⟩
      unfold State.closeList
      rw [first_head h.reps, hlist]
      rfl
    | cons b bs =>
      obtain ⟨M, released, m₁, hM, h₁, hshed, hl, hk⟩ := h.closeFirst hlist
      rw [hlist, length_cons] at hfuel
      obtain ⟨s', m', hs', hholds, hshed', hl', hk'⟩ := ih h₁ (by
        rw [hl]
        exact Nat.le_of_succ_le_succ hfuel)
      refine ⟨s', m', ?_, hholds, hshed.trans hshed', hl', fun k hne => (hk' k hne).trans (hk k hne)⟩
      unfold State.closeList
      rw [first_head h.reps, hlist]
      show (Heap.closeBlock N _ b _).bind _ = _
      rw [hM]
      exact hs'

theorem Holds.length_lists {s : State} (h : Holds N s m) (l : Level) :
    (m.lists l).length ≤ s.blocks.length :=
  ((nodup_lists h.reps l).subperm fun _ hb => ((h.ok.listed l _).mp hb).1).length_le

/-- `close` deletes every block and releases every payload that is active. -/
theorem Holds.close {s : State} (h : Holds N s m) :
    ∃ s' m', s.close N = some s' ∧ Holds N s' m' ∧ Shed s m s' m' ∧ s'.blocks = [] := by
  obtain ⟨s₁, m₁, hs₁, h₁, hshed₁, hl₁, hk₁⟩ := h.closeList s.blocks.length (h.length_lists .used)
  obtain ⟨s₂, m₂, hs₂, h₂, hshed₂, hl₂, hk₂⟩ := h₁.closeList s.blocks.length (l := .part) (by
    rw [hk₁ .part (by decide)]
    exact h.length_lists .part)
  obtain ⟨s₃, m₃, hs₃, h₃, hshed₃, hl₃, hk₃⟩ := h₂.closeList s.blocks.length (l := .free) (by
    rw [hk₂ .free (by decide), hk₁ .free (by decide)]
    exact h.length_lists .free)
  refine ⟨s₃, m₃, ?_, h₃, (hshed₁.trans hshed₂).trans hshed₃, ?_⟩
  · unfold State.close
    rw [show Level.used.head = Head.firstUsed from rfl] at hs₁
    rw [show Level.part.head = Head.firstPartial from rfl] at hs₂
    show (State.closeList N .firstUsed _ s).bind _ = _
    rw [hs₁]
    show (State.closeList N .firstPartial _ s₁).bind _ = _
    rw [hs₂]
    exact hs₃
  · -- A block that were left would be in one of the three lists.
    refine List.eq_nil_iff_forall_not_mem.mpr fun b hb => ?_
    have hmem := h₃.mem_level hb
    have hempty : ∀ l, m₃.lists l = [] := by
      intro l
      cases l with
      | free => exact hl₃
      | part => exact (hk₃ .part (by decide)).trans hl₂
      | used => exact (hk₃ .used (by decide)).trans ((hk₂ .used (by decide)).trans hl₁)
    rw [hempty] at hmem
    exact List.not_mem_nil hmem

/-! ## Counting -/

theorem Holds.countPartial {s : State} (h : Holds N s m) (hbs : ∀ b ∈ bs, b ∈ s.blocks) :
    s.countPartial N (bs.map fun b => .inr (.link b)) = some (m.pointers bs).length := by
  induction bs with
  | nil => rfl
  | cons b bs ih =>
    have hcount : s.links.countUsed N b = some (m.usedSlots b).length := by
      have hlen := (h.ok.length_le (hbs b (mem_cons_self ..))).2
      have hrings := h.reps.count N (.firstUsedSlot b) (by simpa [Slabs.rings] using hlen)
      rw [Slabs.rings, length_map] at hrings
      exact hrings
    rw [List.map_cons, State.countPartial]
    show (s.links.countUsed N b).bind _ = _
    rw [hcount, Option.bind_some]
    rw [ih fun c hc => hbs c (List.mem_cons_of_mem _ hc)]
    rw [Slabs.pointers_cons, length_append, length_map]
    rfl

/-- The blocks of the used list are full. -/
theorem Holds.length_used {s : State} (h : Holds N s m) (hbs : ∀ b ∈ bs, b ∈ m.lists .used) :
    (m.pointers bs).length = bs.length * N := by
  induction bs with
  | nil => simp [Slabs.pointers]
  | cons b bs ih =>
    obtain ⟨hb, hlevel⟩ := (h.ok.listed _ _).mp (hbs b (mem_cons_self ..))
    have hfree : m.freeSlots b = [] := by
      unfold Slabs.level at hlevel
      by_contra hne
      rw [if_neg hne] at hlevel
      split at hlevel <;> cases hlevel
    have hlen := (h.ok.slots b hb).length_eq
    rw [hfree, List.nil_append, List.length_range] at hlen
    rw [Slabs.pointers_cons, length_append, length_map, hlen,
      ih fun c hc => hbs c (List.mem_cons_of_mem _ hc), length_cons, Nat.succ_mul, Nat.add_comm]

theorem Holds.countActive {s : State} (h : Holds N s m) :
    s.countActive N = some (m.pointers m.busy).length := by
  have hused := h.reps.count s.blocks.length Level.used.head (by
    rw [Slabs.rings_head, length_map]
    exact h.length_lists .used)
  have hpart := h.reps.walk s.blocks.length Level.part.head (by
    rw [Slabs.rings_head, length_map]
    exact h.length_lists .part)
  rw [Slabs.rings_head, length_map] at hused
  rw [Slabs.rings_head, List.map_map] at hpart
  have hsum := h.countPartial fun b hb => ((h.ok.listed .part b).mp hb).1
  unfold State.countActive
  show (s.links.count _ (.inl Level.used.head)).bind _ = _
  rw [hused, Option.bind_some]
  show (s.links.walk (.inl Level.part.head) _ (s.links.next (.inl Level.part.head))).bind _ = _
  rw [hpart, Option.bind_some]
  show (s.countPartial N _).bind _ = _
  rw [show ((Sum.inr : Elem → Node) ∘ Elem.link) = fun b => .inr (.link b) from rfl, hsum]
  unfold Slabs.busy
  rw [Slabs.pointers_append, length_append, h.length_used fun _ => id]
  rfl

/-! ## Iterating -/

/-- The blocks an iterator has still to come to, from the node `n` on: the rest of the used
    list and then the partial one, or the rest of the latter. -/
def Pending (L : Heap) (m : Slabs) (it : Iter) (n : Node) (bs : List Addr) : Prop :=
  (it.tail = some (.inl .firstUsed) ∧ it.nextTail = some (.inl .firstPartial) ∧
    ∃ us, Ahead L n (us.map .link) (.inl .firstUsed) ∧ bs = us ++ m.lists .part) ∨
  (it.tail = some (.inl .firstPartial) ∧ it.nextTail = none ∧
    Ahead L n (bs.map .link) (.inl .firstPartial))

/-- The pointers an iterator has still to yield, the one it stands on first. -/
inductive At (L : Heap) (m : Slabs) (fuel : ℕ) (it : Iter) : List Ptr → Prop where
  | done (hlink : it.link = none) : At L m fuel it []
  | atSlot (b : Addr) (i : ℕ) (is : List ℕ) (bs : List Addr)
      (hlink : it.link = some (.inr (.link b))) (hslot : it.slot = some (b, i))
      (hslots : Ahead L (L.next (.inr (.usedLink b i))) (is.map (.usedLink b))
        (.inl (.firstUsedSlot b)))
      (hblocks : Pending L m it (L.next (.inr (.link b))) bs) (hfuel : bs.length + 2 ≤ fuel) :
      At L m fuel it ((b, i) :: (is.map (Prod.mk b) ++ m.pointers bs))

theorem ahead_usedSlots (h : Reps L m.rings) {is : List ℕ} (hused : m.usedSlots b = i :: is) :
    Ahead L (L.next (.inr (.usedLink b i))) (is.map (.usedLink b)) (.inl (.firstUsedSlot b)) := by
  have hahead := h.ahead (.firstUsedSlot b)
  rw [Slabs.rings, hused] at hahead
  obtain ⟨hfirst, hrest⟩ := hahead
  rw [hfirst] at hrest
  exact hrest

/-- A round of `select_used_slot` at a block: it stops at the first used slot, if there is one. -/
theorem selectUsedSlot_block (h : Reps L m.rings) {t : Head} {it : Iter} (fuel : ℕ)
    (hlink : it.link = some (.inr (.link b))) (htail : it.tail = some (.inl t)) :
    it.selectUsedSlot L (fuel + 1) =
      match m.usedSlots b with
      | [] => Iter.selectUsedSlot L fuel
          { it with slot := none, link := some (L.next (.inr (.link b))) }
      | i :: _ => some { it with slot := some (b, i) } := by
  have hne : some (Sum.inr (Elem.link b) : Node) ≠ it.tail := by
    rw [htail]
    exact fun heq => Sum.inr_ne_inl (Option.some.inj heq)
  rw [Iter.selectUsedSlot, hlink]
  dsimp only
  rw [if_neg hne]
  have hblock : Node.ofLink (.inr (.link b)) = some b := rfl
  rw [hblock, Option.bind_some, firstUsedSlot_eq h]
  cases m.usedSlots b with
  | nil => rfl
  | cons i is => rfl

/-- In the partial list, the last one. -/
theorem at_selectUsedSlot_part (h : Reps L m.rings) (total : ℕ) :
    ∀ {fuel : ℕ} (it : Iter) {n : Node}, it.link = some n → it.tail = some (.inl .firstPartial) →
      it.nextTail = none → Ahead L n (bs.map .link) (.inl .firstPartial) → bs.length + 1 ≤ fuel →
      bs.length + 2 ≤ total →
      ∃ it', it.selectUsedSlot L fuel = some it' ∧ At L m total it' (m.pointers bs) := by
  induction bs with
  | nil =>
    intro fuel it n hlink htail hnext hahead hfuel _
    obtain ⟨fuel, rfl⟩ := Nat.exists_eq_add_of_le' hfuel
    obtain rfl : n = .inl .firstPartial := hahead
    refine ⟨{ it with link := none }, ?_, At.done rfl⟩
    rw [List.length_nil, Iter.selectUsedSlot, hlink]
    dsimp only
    rw [if_pos htail.symm, hnext]
  | cons b bs ih =>
    intro fuel it n hlink htail hnext hahead hfuel htotal
    obtain ⟨fuel, rfl⟩ : ∃ k, fuel = k + 1 := ⟨fuel - 1, by omega⟩
    obtain ⟨rfl, hrest⟩ := hahead
    have hround := selectUsedSlot_block h fuel hlink htail
    rw [length_cons] at hfuel htotal
    rw [hround, Slabs.pointers_cons]
    cases hused : m.usedSlots b with
    | nil =>
      exact ih { it with slot := none, link := some (L.next (.inr (.link b))) } rfl htail hnext
        hrest (by omega) (by omega)
    | cons i is =>
      refine ⟨_, rfl, ?_⟩
      exact At.atSlot b i is bs hlink rfl (ahead_usedSlots h hused) (Or.inr ⟨htail, hnext, hrest⟩)
        (by omega)

variable {fuel : ℕ}

/-- `select_used_slot` comes to the first used slot of the blocks ahead. -/
theorem at_selectUsedSlot (h : Reps L m.rings) (it : Iter) {n : Node} (hlink : it.link = some n)
    (hpending : Pending L m it n bs) (hfuel : bs.length + 2 ≤ fuel) (total : ℕ)
    (htotal : bs.length + 2 ≤ total) :
    ∃ it', it.selectUsedSlot L fuel = some it' ∧ At L m total it' (m.pointers bs) := by
  rcases hpending with ⟨htail, hnext, us, hahead, rfl⟩ | ⟨htail, hnext, hahead⟩
  · -- In the used list: its rest, then the switch.
    induction us generalizing fuel it n with
    | nil =>
      obtain ⟨fuel, rfl⟩ : ∃ k, fuel = k + 1 := ⟨fuel - 1, by omega⟩
      obtain rfl : n = .inl .firstUsed := hahead
      have hpart : Ahead L (L.next (.inl .firstPartial)) ((m.lists .part).map .link)
          (.inl .firstPartial) := h.ahead .firstPartial
      rw [List.nil_append] at hfuel htotal ⊢
      obtain ⟨it', hit', hat⟩ := at_selectUsedSlot_part h total
        { it with
          tail := some (.inl .firstPartial), link := some (L.next (.inl .firstPartial)),
          nextTail := none } rfl rfl rfl hpart (show _ ≤ fuel by omega) htotal
      refine ⟨it', ?_, hat⟩
      rw [Iter.selectUsedSlot, hlink]
      dsimp only
      rw [if_pos htail.symm, hnext]
      exact hit'
    | cons b us ih =>
      obtain ⟨fuel, rfl⟩ : ∃ k, fuel = k + 1 := ⟨fuel - 1, by omega⟩
      obtain ⟨rfl, hrest⟩ := hahead
      have hround := selectUsedSlot_block h fuel hlink htail
      rw [List.cons_append, length_cons] at hfuel htotal
      rw [hround, List.cons_append, Slabs.pointers_cons]
      cases hused : m.usedSlots b with
      | nil =>
        exact ih { it with slot := none, link := some (L.next (.inr (.link b))) } rfl
          htail hnext hrest (by omega) (by omega)
      | cons i is =>
        refine ⟨_, rfl, ?_⟩
        exact At.atSlot b i is (us ++ m.lists .part) hlink rfl (ahead_usedSlots h hused)
          (Or.inl ⟨htail, hnext, us, hrest, rfl⟩) (by omega)
  · exact at_selectUsedSlot_part h total it hlink htail hnext hahead (by omega) htotal

/-- `operator++` goes on to the next pointer. -/
theorem at_incr (h : Reps L m.rings) {it : Iter} {p : Ptr} {ps : List Ptr}
    (hat : At L m fuel it (p :: ps)) :
    it.slot = some p ∧ it.link ≠ none ∧ ∃ it', it.incr L fuel = some it' ∧ At L m fuel it' ps := by
  cases hat with
  | atSlot b i is bs hlink hslot hslots hblocks hfuel =>
    refine ⟨hslot, ?_, ?_⟩
    · rw [hlink]
      exact Option.some_ne_none _
    · unfold Iter.incr
      rw [hslot, hlink]
      cases is with
      | nil =>
        -- The last used slot of the block: on to the blocks that are left.
        have hlast : L.next (.inr (.usedLink b i)) = .inl (.firstUsedSlot b) := hslots
        obtain ⟨it', hit', hat'⟩ := at_selectUsedSlot h
          { it with slot := none, link := some (L.next (.inr (.link b))) } rfl hblocks hfuel fuel hfuel
        exact ⟨it', (if_pos hlast).trans hit', hat'⟩
      | cons j js =>
        obtain ⟨hnext, hrest⟩ := hslots
        rw [hnext] at hrest
        have hne : L.next (.inr (.usedLink b i)) ≠ .inl (.firstUsedSlot b) := by
          rw [hnext]
          exact Sum.inr_ne_inl
        refine ⟨{ it with slot := some (b, j) }, ?_, ?_⟩
        · refine (if_neg hne).trans ?_
          show (Node.ofUsedLink (L.next (.inr (.usedLink b i)))).bind _ = _
          rw [hnext, ← hlink]
          rfl
        · exact At.atSlot b j js bs hlink rfl hrest hblocks hfuel

theorem at_toEnd (h : Reps L m.rings) {ps : List Ptr} :
    ∀ {n : ℕ} {it : Iter}, At L m fuel it ps → ps.length ≤ n → it.toEnd L fuel n = some ps := by
  induction ps with
  | nil =>
    intro n it hat _
    cases hat with
    | done hlink =>
      cases n with
      | zero => exact if_pos hlink
      | succ n => exact if_pos hlink
  | cons p ps ih =>
    intro n it hat hn
    obtain ⟨hslot, hlink, it', hit', hat'⟩ := at_incr h hat
    obtain ⟨n, rfl⟩ : ∃ k, n = k + 1 := ⟨n - 1, by rw [length_cons] at hn; omega⟩
    rw [Iter.toEnd, if_neg hlink, hslot]
    show (it.incr L fuel).bind _ = _
    rw [hit']
    show (it'.toEnd L fuel n).bind _ = _
    rw [ih hat' (Nat.le_of_succ_le_succ hn)]
    rfl

theorem Holds.nodup_busy {s : State} (h : Holds N s m) : m.busy.Nodup := by
  refine nodup_append.mpr ⟨nodup_lists h.reps .used, nodup_lists h.reps .part, ?_⟩
  rintro b hused c hpart rfl
  have hlevel := ((h.ok.listed .used b).mp hused).2
  rw [((h.ok.listed .part b).mp hpart).2] at hlevel
  cases hlevel

theorem Holds.length_busy {s : State} (h : Holds N s m) : m.busy.length ≤ s.blocks.length :=
  (h.nodup_busy.subperm fun _ hb => (h.ok.mem_busy.mp hb).1).length_le

theorem Holds.length_pointers {s : State} (h : Holds N s m) :
    (m.pointers m.busy).length ≤ s.blocks.length * N := by
  have hbound : ∀ bs : List Addr, (∀ b ∈ bs, b ∈ s.blocks) →
      (m.pointers bs).length ≤ bs.length * N := by
    intro bs hbs
    induction bs with
    | nil => simp [Slabs.pointers]
    | cons b bs ih =>
      have hb := (h.ok.length_le (hbs b (mem_cons_self ..))).2
      have hrest := ih fun c hc => hbs c (List.mem_cons_of_mem _ hc)
      rw [Slabs.pointers_cons, length_append, length_map, length_cons, Nat.succ_mul]
      omega
  calc (m.pointers m.busy).length
      ≤ m.busy.length * N := hbound _ fun b hb => (h.ok.mem_busy.mp hb).1
    _ ≤ s.blocks.length * N := Nat.mul_le_mul_right N h.length_busy

/-- A full traversal yields the used slots of the used blocks, then those of the partial ones. -/
theorem Holds.traverse {s : State} (h : Holds N s m) :
    s.traverse N = some (m.pointers m.busy) := by
  have hahead : Ahead s.links (s.links.next (.inl .firstUsed)) ((m.lists .used).map .link)
      (.inl .firstUsed) := h.reps.ahead .firstUsed
  have hfuel : m.busy.length + 2 ≤ s.blocks.length + 2 := Nat.add_le_add_right h.length_busy 2
  obtain ⟨it, hit, hat⟩ := at_selectUsedSlot h.reps
    { tail := some (.inl .firstUsed), link := some (s.links.next (.inl .firstUsed)),
      nextTail := some (.inl .firstPartial) }
    rfl (Or.inl ⟨rfl, rfl, _, hahead, rfl⟩) hfuel (s.blocks.length + 2) hfuel
  unfold State.traverse Iter.first
  show (Iter.selectUsedSlot s.links _ _).bind _ = _
  rw [hit]
  exact at_toEnd h.reps hat h.length_pointers

end WasmerNapi.Allocator
