import WasmerNapi.HostJs.BufferPool

/-!
# Data pointers stay valid

A pointer that native code is handed reaches the bytes of the value it asked about: they are guest
memory's own, or a mapping of that buffer, still in the table and in a block of its own, is long
enough. The tables are pruned by different operations, so the invariant says for each of them what
its entries stand for: an entry under a token stands for a mapping in the list, and a mapping's
token is that of its buffer. Of an entry under a handle nothing is known, which is why an answer
from that table alone can be wrong.
-/

namespace WasmerNapi.HostJs.Buffers

open Run
open List (count_cons mem_cons_of_mem mem_singleton mem_cons_self map_append mem_append)

/-! ## Tokens -/

variable {id o : ℕ}

theorem packToken_mod (h : o < 2 ^ 32) : packToken id o % 2 ^ 32 = o := by
  unfold packToken tokenMarker
  omega

theorem packToken_base : packToken id o - o = packToken id 0 := by
  unfold packToken
  omega

theorem packToken_ne_zero (id o : ℕ) : packToken id o ≠ 0 := by
  unfold packToken tokenMarker
  omega

theorem packToken_inj {id' o' : ℕ} (h : o < 2 ^ 32) (h' : o' < 2 ^ 32)
    (heq : packToken id o = packToken id' o') : id % 2 ^ 31 = id' % 2 ^ 31 ∧ o = o' := by
  unfold packToken at heq
  omega

theorem asU32_of_lt {n : ℕ} (h : n < 2 ^ 32) : asU32 n = n := by
  unfold asU32
  omega

/-! ## What the tables stand for -/

/-- A copy without what the crossings and the references change in it. -/
def HostBufferCopy.bare (m : HostBufferCopy) : HostBufferCopy :=
  { m with needsFlush := false, referenceHolds := 0 }

/-- The block that goes back to the pool with the copy. -/
def HostBufferCopy.block (m : HostBufferCopy) : List ℕ :=
  if m.guestAllocationRecyclable = true then [m.guestPtr] else []

/-- How many times a block is in the pool, a lease's or a copy's. -/
def claims (s : State) (copies : List HostBufferCopy) (ptr : ℕ) : ℕ :=
  (s.guestBufferPool.map Prod.fst).count ptr +
    Table.total (fun _ l => if l.guestPtr = ptr then 1 else 0) s.hostBufferLeases +
    (copies.flatMap HostBufferCopy.block).count ptr

/-- An entry stands for a copy, or for guest memory, where a pointer is its own address. -/
def Justified (s : State) (copies : List HostBufferCopy) (env token : ℕ)
    (g : GuestBackingStoreMapping) : Prop :=
  (∃ m ∈ copies, m.guestEnv = env ∧ m.backingStoreToken = token ∧ m.guestPtr = g.guestPtr ∧
    m.byteLen = g.byteLen) ∨
  ∃ store id, s.backingStoreIds env store = some id ∧ s.guestMemory store = true ∧
    g.guestPtr < 2 ^ 32 ∧ token = packToken id g.guestPtr

/-- The token of a copy is the one of the place it is a copy of. -/
structure Tokened (s : State) (m : HostBufferCopy) : Prop where
  token : ∃ id, s.backingStoreIds m.guestEnv m.store = some id ∧
    m.backingStoreToken = packToken id m.start
  start : m.start < 2 ^ 32
  pending : m.persistent = false → 0 < m.byteLen ∧ m.guestAllocationRecyclable = true

/-- What holds of the tables and of the `copies` in the list; the blocks `hand` are no one's yet. -/
structure Inv (s : State) (copies : List HostBufferCopy) (hand : List ℕ) : Prop where
  numbers : ∀ env store store' id id', s.backingStoreIds env store = some id →
    s.backingStoreIds env store' = some id' → id % 2 ^ 31 = id' % 2 ^ 31 → store = store'
  entries : ∀ env token g, s.guestDataBackingStores env token = some g →
    Justified s copies env token g
  tokened : ∀ m ∈ copies, Tokened s m
  claimed : ∀ ptr, claims s copies ptr + hand.count ptr ≤ 1
  copied : ∀ m ∈ copies, m.guestAllocationRecyclable = true →
    ∃ capacity, s.guestBufferCapacities m.guestPtr = some capacity ∧ m.byteLen ≤ capacity
  leased : ∀ key l, s.hostBufferLeases.lookup key = some l →
    (s.guestBufferCapacities l.guestPtr).isSome = true
  handed : ∀ ptr ∈ hand, (s.guestBufferCapacities ptr).isSome = true
  below : ∀ ptr capacity, s.guestBufferCapacities ptr = some capacity →
    0 < ptr ∧ ptr + capacity < 2 ^ 32
  pooled : ∀ b ∈ s.guestBufferPool, 0 < b.1 ∧ b.1 + b.2 < 2 ^ 32

/-- The two states agree on everything the invariant is about. -/
structure Same (s t : State) : Prop where
  memory : t.guestMemory = s.guestMemory
  ids : t.backingStoreIds = s.backingStoreIds
  stores : t.guestDataBackingStores = s.guestDataBackingStores
  capacities : t.guestBufferCapacities = s.guestBufferCapacities
  pool : t.guestBufferPool = s.guestBufferPool
  leases : t.hostBufferLeases = s.hostBufferLeases

theorem Same.refl (s : State) : Same s s := ⟨rfl, rfl, rfl, rfl, rfl, rfl⟩

theorem Same.trans {s t u : State} (h : Same s t) (h' : Same t u) : Same s u where
  memory := h'.memory.trans h.memory
  ids := h'.ids.trans h.ids
  stores := h'.stores.trans h.stores
  capacities := h'.capacities.trans h.capacities
  pool := h'.pool.trans h.pool
  leases := h'.leases.trans h.leases

variable {s t : State} {copies copies' : List HostBufferCopy} {hand : List ℕ}
  {env handle token byteLen ptr : ℕ} {m : HostBufferCopy} {v : Value}

theorem claims_congr (h : Same s t) (copies : List HostBufferCopy) (ptr : ℕ) :
    claims t copies ptr = claims s copies ptr := by
  unfold claims
  rw [h.pool, h.leases]

theorem Tokened.congr (h : Tokened s m) (hids : t.backingStoreIds = s.backingStoreIds) :
    Tokened t m :=
  ⟨hids ▸ h.token, h.start, h.pending⟩

theorem Inv.congr (hi : Inv s copies hand) (h : Same s t) : Inv t copies hand where
  numbers := h.ids ▸ hi.numbers
  entries env token g hg := by
    rw [h.stores] at hg
    unfold Justified
    rw [h.ids, h.memory]
    exact hi.entries env token g hg
  tokened m hm := (hi.tokened m hm).congr h.ids
  claimed ptr := claims_congr h copies ptr ▸ hi.claimed ptr
  copied := h.capacities ▸ hi.copied
  leased := by
    rw [h.capacities, h.leases]
    exact hi.leased
  handed := h.capacities ▸ hi.handed
  below := h.capacities ▸ hi.below
  pooled := h.pool ▸ hi.pooled

theorem Inv.perm (hi : Inv s copies hand) (h : copies.Perm copies') : Inv s copies' hand := by
  refine { hi with
    entries := ?_
    tokened := fun m hm => hi.tokened m (h.mem_iff.mpr hm)
    claimed := ?_
    copied := fun m hm => hi.copied m (h.mem_iff.mpr hm) }
  · intro env token g hg
    refine (hi.entries env token g hg).imp_left ?_
    rintro ⟨m, hm, hrest⟩
    exact ⟨m, h.mem_iff.mp hm, hrest⟩
  · intro ptr
    have hc := hi.claimed ptr
    unfold claims at hc ⊢
    rwa [← (h.flatMap_right HostBufferCopy.block).count_eq]

/-! ## Blocks -/

/-- What `allocate_guest_buffer` changes and what it hands out. -/
structure Allocated (s t : State) (byteLen ptr : ℕ) : Prop where
  memory : t.guestMemory = s.guestMemory
  ids : t.backingStoreIds = s.backingStoreIds
  next : t.nextBackingStoreId = s.nextBackingStoreId
  stores : t.guestDataBackingStores = s.guestDataBackingStores
  leases : t.hostBufferLeases = s.hostBufferLeases
  copies : t.hostBufferCopies = s.hostBufferCopies
  ptrs : t.guestDataPtrs = s.guestDataPtrs
  heap : t.heap = s.heap
  capacity : ∃ capacity, t.guestBufferCapacities ptr = some capacity ∧ byteLen ≤ capacity

/-- A block that is claimed no more is no copy's. -/
theorem ne_of_claims (h : claims s copies ptr = 0) (hm : m ∈ copies)
    (hr : m.guestAllocationRecyclable = true) : m.guestPtr ≠ ptr := by
  rintro rfl
  have hcount : 0 < (copies.flatMap HostBufferCopy.block).count m.guestPtr := by
    apply List.count_pos_iff.mpr
    refine List.mem_flatMap.mpr ⟨m, hm, ?_⟩
    simp [HostBufferCopy.block, hr]
  unfold claims at h
  omega

/-- The block `ptr` is taken in hand. -/
theorem Inv.handOut {capacity : ℕ} (hi : Inv s copies hand)
    (h : Allocated s t byteLen ptr)
    (hcapacities : t.guestBufferCapacities =
      Function.update s.guestBufferCapacities ptr (some capacity))
    (hclaims : ∀ x, claims t copies x + (ptr :: hand).count x ≤ 1)
    (hbelow : 0 < ptr ∧ ptr + capacity < 2 ^ 32)
    (hpool : ∀ b ∈ t.guestBufferPool, 0 < b.1 ∧ b.1 + b.2 < 2 ^ 32) :
    Inv t copies (ptr :: hand) := by
  let u : State := { s with
    guestBufferCapacities := Function.update s.guestBufferCapacities ptr (some capacity)
    guestBufferPool := t.guestBufferPool }
  have hsame : Same u t := ⟨h.memory, h.ids, h.stores, hcapacities, rfl, h.leases⟩
  have hu : u.guestBufferCapacities = t.guestBufferCapacities := hcapacities.symm
  refine Inv.congr (s := u) { hi with
    tokened := fun m hm => (hi.tokened m hm).congr rfl
    claimed := fun x => claims_congr hsame copies x ▸ hclaims x
    copied := ?_, leased := ?_, handed := ?_, below := ?_
    pooled := hpool } hsame
  · intro m hm hr
    have hzero : claims t copies ptr = 0 := by
      have hc := hclaims ptr
      rw [List.count_cons_self] at hc
      omega
    rw [hu, hcapacities, Function.update_of_ne (ne_of_claims hzero hm hr)]
    exact hi.copied m hm hr
  · intro key l hl
    rw [hu, hcapacities, Function.update_apply]
    split_ifs
    · rfl
    · exact hi.leased key l hl
  · intro x hx
    rw [hu, hcapacities, Function.update_apply]
    split_ifs with heq
    · rfl
    · exact hi.handed x ((List.mem_cons.mp hx).resolve_left heq)
  · intro x c hc
    rw [hu, hcapacities, Function.update_apply] at hc
    split_ifs at hc with heq
    · cases hc
      exact heq ▸ hbelow
    · exact hi.below x c hc

variable {malloc : Option ℕ}

theorem allocate_spec (hi : Inv s copies hand) (hmalloc : mallocAnswers s byteLen malloc = true)
    (h : allocateGuestBuffer s byteLen malloc = some (ptr, t)) :
    Inv t copies (ptr :: hand) ∧ Allocated s t byteLen ptr := by
  unfold allocateGuestBuffer at h
  cases hfit : bestFit (requiredCapacity byteLen) s.guestBufferPool with
  | some index =>
    obtain ⟨b, hb, hlarge⟩ := bestFit_spec hfit
    simp only [hfit, hb, Option.map_some, Option.some.injEq, Prod.mk.injEq] at h
    obtain ⟨rfl, rfl⟩ := h
    have hperm := Vec.cons_swapRemove_perm hb
    have hallocated : Allocated s { s with
        guestBufferPool := Vec.swapRemove s.guestBufferPool index
        guestBufferCapacities := Function.update s.guestBufferCapacities b.1 (some b.2) }
        byteLen b.1 :=
      ⟨rfl, rfl, rfl, rfl, rfl, rfl, rfl, rfl, b.2, Function.update_self ..,
        (le_requiredCapacity byteLen).trans hlarge⟩
    refine ⟨hi.handOut hallocated rfl ?_ (hi.pooled b (List.mem_of_getElem? hb)) ?_, hallocated⟩
    · -- What was the pool's is in hand now.
      intro x
      have hc := hi.claimed x
      simp only [claims] at hc ⊢
      rw [← (hperm.map Prod.fst).count_eq x, List.map_cons, count_cons] at hc
      rw [count_cons]
      omega
    · intro b' hb'
      exact hi.pooled b' (hperm.subset (mem_cons_of_mem _ hb'))
  | none =>
    rw [hfit] at h
    simp only at h
    split_ifs at h with hsize
    cases malloc with
    | none => cases h
    | some ptr' =>
      simp only [Option.map_some, Option.some.injEq, Prod.mk.injEq] at h
      obtain ⟨rfl, rfl⟩ := h
      simp only [mallocAnswers, Bool.and_eq_true, decide_eq_true_eq, Option.isNone_iff_eq_none,
        Bool.not_eq_true', List.any_eq_false, beq_iff_eq] at hmalloc
      obtain ⟨⟨hbelow, hnone⟩, hpool⟩ := hmalloc
      have hallocated : Allocated s { s with
          guestBufferCapacities :=
            Function.update s.guestBufferCapacities ptr' (some (requiredCapacity byteLen)) }
          byteLen ptr' :=
        ⟨rfl, rfl, rfl, rfl, rfl, rfl, rfl, rfl, _, Function.update_self ..,
          le_requiredCapacity byteLen⟩
      refine ⟨hi.handOut hallocated rfl ?_ hbelow hi.pooled, hallocated⟩
      -- A block that is allocated has a capacity, so the new one is nobody's.
      intro x
      have hc := hi.claimed x
      rw [count_cons]
      by_cases heq : ptr' = x
      · subst heq
        have h₁ : (s.guestBufferPool.map Prod.fst).count ptr' = 0 := by
          apply List.count_eq_zero.mpr
          intro hmem
          obtain ⟨b, hb, hfst⟩ := List.mem_map.mp hmem
          exact hpool b hb hfst
        have h₂ : Table.total (fun _ l => if l.guestPtr = ptr' then 1 else 0) s.hostBufferLeases = 0 := by
          apply List.sum_eq_zero
          intro n hn
          obtain ⟨e, he, rfl⟩ := List.mem_map.mp hn
          refine if_neg ?_
          intro hfst
          have := hi.leased e.1 e.2 (AList.mem_lookup_iff.mpr he)
          rw [hfst, hnone] at this
          cases this
        have h₃ : (copies.flatMap HostBufferCopy.block).count ptr' = 0 := by
          apply List.count_eq_zero.mpr
          intro hmem
          obtain ⟨m, hm, hblock⟩ := List.mem_flatMap.mp hmem
          unfold HostBufferCopy.block at hblock
          split_ifs at hblock with hr
          · obtain ⟨_, hcap, _⟩ := hi.copied m hm hr
            rw [← mem_singleton.mp hblock, hnone] at hcap
            cases hcap
          · cases hblock
        have h₄ : hand.count ptr' = 0 := by
          apply List.count_eq_zero.mpr
          intro hmem
          have := hi.handed ptr' hmem
          rw [hnone] at this
          cases this
        simp only [beq_self_eq_true, if_true, claims, h₁, h₂, h₃, h₄]
        exact le_rfl
      · have hne : (ptr' == x) = false := by simpa using heq
        rw [hne, if_neg Bool.false_ne_true, Nat.add_zero]
        exact hc

/-- The block `ptr` is in hand no more, and has no capacity that is known. -/
theorem Inv.giveBack (hi : Inv s copies (ptr :: hand))
    (hmemory : t.guestMemory = s.guestMemory) (hids : t.backingStoreIds = s.backingStoreIds)
    (hstores : t.guestDataBackingStores = s.guestDataBackingStores)
    (hleases : t.hostBufferLeases = s.hostBufferLeases)
    (hcapacities : t.guestBufferCapacities = Function.update s.guestBufferCapacities ptr none)
    (hclaims : ∀ x, claims t copies x + hand.count x ≤ 1)
    (hpool : ∀ b ∈ t.guestBufferPool, 0 < b.1 ∧ b.1 + b.2 < 2 ^ 32) : Inv t copies hand := by
  have hzero : claims s copies ptr = 0 ∧ hand.count ptr = 0 := by
    have hc := hi.claimed ptr
    rw [List.count_cons_self] at hc
    omega
  refine ⟨hids ▸ hi.numbers, ?_, ?_, hclaims, ?_, ?_, ?_, ?_, hpool⟩
  · intro env token g hg
    rw [hstores] at hg
    unfold Justified
    rw [hids, hmemory]
    exact hi.entries env token g hg
  · intro m hm
    obtain ⟨htoken, hstart, hpending⟩ := hi.tokened m hm
    exact ⟨hids ▸ htoken, hstart, hpending⟩
  · intro m hm hr
    rw [hcapacities, Function.update_of_ne (ne_of_claims hzero.1 hm hr)]
    exact hi.copied m hm hr
  · intro key l hl
    rw [hleases] at hl
    have hne : l.guestPtr ≠ ptr := by
      rintro rfl
      have hpos := Table.le_total (fun _ l' => if l'.guestPtr = l.guestPtr then 1 else 0) hl
      have := hzero.1
      unfold claims at this
      simp only [if_true] at hpos
      omega
    rw [hcapacities, Function.update_of_ne hne]
    exact hi.leased key l hl
  · intro x hx
    have hne : x ≠ ptr := by
      rintro rfl
      exact absurd hx (List.count_eq_zero.mp hzero.2)
    rw [hcapacities, Function.update_of_ne hne]
    exact hi.handed x (mem_cons_of_mem _ hx)
  · intro x c hc
    rw [hcapacities, Function.update_apply] at hc
    split_ifs at hc
    exact hi.below x c hc

theorem inv_recycle (hi : Inv s copies (ptr :: hand)) :
    Inv (recycleGuestAllocation s ptr) copies hand := by
  obtain ⟨capacity, hcap⟩ := Option.isSome_iff_exists.mp (hi.handed ptr (mem_cons_self ..))
  simp only [recycleGuestAllocation, hcap]
  refine hi.giveBack rfl rfl rfl rfl rfl ?_ ?_
  · intro x
    have hc := hi.claimed x
    rw [count_cons] at hc
    simp only [claims, map_append, List.map_cons, List.map_nil, List.count_append,
      count_cons, List.count_nil] at hc ⊢
    omega
  · intro b hb
    rcases mem_append.mp hb with hb | hb
    · exact hi.pooled b hb
    · obtain rfl := mem_singleton.mp hb
      exact hi.below ptr capacity hcap

theorem inv_forget (hi : Inv s copies (ptr :: hand)) :
    Inv (forgetGuestAllocation s ptr) copies hand := by
  refine hi.giveBack rfl rfl rfl rfl rfl ?_ hi.pooled
  intro x
  have hc := hi.claimed x
  rw [count_cons] at hc
  show claims s copies x + hand.count x ≤ 1
  omega

/-! ## Entries -/

theorem set₂_apply {α : Type} (f : ℕ → ℕ → α) (i j i' j' : ℕ) (a : α) :
    set₂ f i j a i' j' = if i' = i ∧ j' = j then a else f i' j' := by
  unfold set₂
  by_cases hi : i' = i
  · subst hi
    by_cases hj : j' = j <;> simp [hj]
  · simp [hi]

/-- More copies stand for more. -/
theorem Justified.mono {g : GuestBackingStoreMapping} (h : Justified s copies env token g)
    (hsub : copies ⊆ copies') : Justified s copies' env token g := by
  refine h.imp_left ?_
  rintro ⟨m, hm, hrest⟩
  exact ⟨m, hsub hm, hrest⟩

/-- A new copy, whose block was in hand. -/
theorem inv_push (hi : Inv s copies (m.block ++ hand)) (htokened : Tokened s m)
    (hcapacity : m.guestAllocationRecyclable = true → ∃ capacity,
      s.guestBufferCapacities m.guestPtr = some capacity ∧ m.byteLen ≤ capacity) :
    Inv (pushCopy s m) (copies ++ [m.bare]) hand where
  numbers := hi.numbers
  entries env token g hg := by
    simp only [pushCopy, set₂_apply] at hg
    split_ifs at hg with heq
    · obtain ⟨rfl, rfl⟩ := heq
      cases hg
      exact .inl ⟨m.bare, by simp, rfl, rfl, rfl, rfl⟩
    · exact (hi.entries env token g hg).mono (List.subset_append_left ..)
  tokened m' hm' := by
    rcases mem_append.mp hm' with hm' | hm'
    · obtain ⟨htoken, hstart, hpending⟩ := hi.tokened m' hm'
      exact ⟨htoken, hstart, hpending⟩
    · obtain rfl := mem_singleton.mp hm'
      obtain ⟨htoken, hstart, hpending⟩ := htokened
      exact ⟨htoken, hstart, hpending⟩
  claimed x := by
    have hc := hi.claimed x
    have hblock : m.bare.block = m.block := rfl
    simp only [claims, pushCopy, List.flatMap_append, List.flatMap_cons, List.flatMap_nil,
      List.append_nil, List.count_append, hblock] at hc ⊢
    omega
  copied m' hm' hr := by
    rcases mem_append.mp hm' with hm' | hm'
    · exact hi.copied m' hm' hr
    · obtain rfl := mem_singleton.mp hm'
      exact hcapacity hr
  leased := hi.leased
  handed ptr hptr := hi.handed ptr (List.mem_append_right _ hptr)
  below := hi.below
  pooled := hi.pooled

/-- A copy is taken out of the list, and every entry that stands for it out of its table. -/
theorem inv_remove (hi : Inv s (m :: copies) hand)
    (hmemory : t.guestMemory = s.guestMemory) (hids : t.backingStoreIds = s.backingStoreIds)
    (hcapacities : t.guestBufferCapacities = s.guestBufferCapacities)
    (hpool : t.guestBufferPool = s.guestBufferPool)
    (hleases : t.hostBufferLeases = s.hostBufferLeases)
    (hstores : ∀ env token g, t.guestDataBackingStores env token = some g →
      s.guestDataBackingStores env token = some g)
    (hgone : ∀ g, t.guestDataBackingStores m.guestEnv m.backingStoreToken = some g →
      ¬ (m.guestPtr = g.guestPtr ∧ m.byteLen = g.byteLen)) :
    Inv t copies (m.block ++ hand) where
  numbers := hids ▸ hi.numbers
  entries env token g hg := by
    unfold Justified
    rw [hids, hmemory]
    refine (hi.entries env token g (hstores env token g hg)).imp_left ?_
    rintro ⟨m', hm', rfl, rfl, hptr, hlen⟩
    rcases List.mem_cons.mp hm' with rfl | hm'
    · exact absurd ⟨hptr, hlen⟩ (hgone g hg)
    · exact ⟨m', hm', rfl, rfl, hptr, hlen⟩
  tokened m' hm' := by
    obtain ⟨htoken, hstart, hpending⟩ := hi.tokened m' (mem_cons_of_mem _ hm')
    exact ⟨hids ▸ htoken, hstart, hpending⟩
  claimed x := by
    have hc := hi.claimed x
    simp only [claims, List.flatMap_cons, List.count_append, hpool, hleases] at hc ⊢
    omega
  copied m' hm' hr := by
    rw [hcapacities]
    exact hi.copied m' (mem_cons_of_mem _ hm') hr
  leased := by
    rw [hcapacities, hleases]
    exact hi.leased
  handed ptr hptr := by
    rw [hcapacities]
    rcases mem_append.mp hptr with hptr | hptr
    · unfold HostBufferCopy.block at hptr
      split_ifs at hptr with hr
      · obtain ⟨capacity, hcap, _⟩ := hi.copied m (mem_cons_self ..) hr
        rw [mem_singleton.mp hptr, hcap]
        rfl
      · cases hptr
    · exact hi.handed ptr hptr
  below := hcapacities ▸ hi.below
  pooled := hpool ▸ hi.pooled

/-! ## Releasing -/

theorem same_writeStore (s : State) (store at₀ n : ℕ) (bytes : ℕ → UInt8) :
    Same s (s.writeStore store at₀ n bytes) := by
  unfold State.writeStore
  split_ifs <;> exact ⟨rfl, rfl, rfl, rfl, rfl, rfl⟩

theorem same_copyMemoryBytesToReference (h : copyMemoryBytesToReference s m = some t) :
    Same s t := by
  unfold copyMemoryBytesToReference at h
  obtain ⟨v, _, rfl⟩ := Option.map_eq_some_iff.mp h
  exact same_writeStore ..

theorem same_getD_copyMemoryBytesToReference (s : State) (m : HostBufferCopy) :
    Same s ((copyMemoryBytesToReference s m).getD s) := by
  cases h : copyMemoryBytesToReference s m with
  | none => exact Same.refl s
  | some t => exact same_copyMemoryBytesToReference h

/-- A copy that is not persistent has its block end inside memory. -/
theorem lt_stop (hi : Inv s copies hand) (hm : m.bare ∈ copies) (hpending : m.persistent = false) :
    m.guestPtr < m.stop := by
  obtain ⟨hlen, hr⟩ := (hi.tokened m.bare hm).pending hpending
  obtain ⟨capacity, hcap, hle⟩ := hi.copied m.bare hm hr
  have hbelow := (hi.below _ _ hcap).2
  have hlen' : 0 < m.byteLen := hlen
  have hle' : m.byteLen ≤ capacity := hle
  have hbelow' : m.guestPtr + capacity < 2 ^ 32 := hbelow
  unfold HostBufferCopy.stop
  omega

/-- The tables after the end of a mapping, before its block goes anywhere. -/
theorem inv_release (hi : Inv s (m.bare :: copies) hand) (hpending : m.persistent = false) :
    Inv (releaseCopy s m) copies hand := by
  have hr : m.guestAllocationRecyclable = true :=
    ((hi.tokened m.bare (mem_cons_self ..)).pending hpending).2
  have hstop := lt_stop hi (mem_cons_self ..) hpending
  have htoken : m.backingStoreToken ≠ 0 := by
    obtain ⟨id, _, hpack⟩ := (hi.tokened m.bare (mem_cons_self ..)).token
    exact hpack ▸ packToken_ne_zero id _
  have hblock : m.bare.block ++ hand = m.guestPtr :: hand := by
    simp [HostBufferCopy.block, HostBufferCopy.bare, hr]
  unfold releaseCopy
  rw [if_pos hr]
  apply inv_recycle
  rw [← hblock]
  have hsame : Same s (if m.hostReferenceId = 0 then s
      else deleteReference s m.guestEnv m.hostReferenceId) := by
    split_ifs
    · exact Same.refl s
    · exact ⟨rfl, rfl, rfl, rfl, rfl, rfl⟩
  refine inv_remove hi hsame.memory hsame.ids hsame.capacities hsame.pool hsame.leases ?_ ?_
  · intro env token g hg
    simp only [hsame.stores] at hg
    split_ifs at hg
    · exact (Option.filter_eq_some_iff.mp hg).1
    · exact hg
  · rintro g hg ⟨hptr, _⟩
    have hin : m.bare.guestEnv = m.guestEnv ∧ m.backingStoreToken ≠ 0 := ⟨rfl, htoken⟩
    simp only [if_pos hin] at hg
    have hkept := (Option.filter_eq_some_iff.mp hg).2
    have hptr' : m.guestPtr = g.guestPtr := hptr
    simp only [Bool.or_eq_true, decide_eq_true_eq] at hkept
    omega

/-- One mapping of those taken out: it is kept or released. -/
theorem inv_flushCopy {flushed : State × List HostBufferCopy} {rest : List HostBufferCopy}
    (hi : Inv flushed.1
      (copies ++ flushed.2.map HostBufferCopy.bare ++ (m :: rest).map HostBufferCopy.bare) hand) :
    Inv (flushCopy flushed m).1
      (copies ++ (flushCopy flushed m).2.map HostBufferCopy.bare ++ rest.map HostBufferCopy.bare)
      hand := by
  have hsame : Same flushed.1 (if m.needsFlush = true ∧ 0 < m.byteLen then
      (copyMemoryBytesToReference flushed.1 m).getD flushed.1 else flushed.1) := by
    split_ifs
    · exact same_getD_copyMemoryBytesToReference ..
    · exact Same.refl _
  have hbare : (if m.needsFlush = true ∧ 0 < m.byteLen then { m with needsFlush := false }
      else m).bare = m.bare := by
    split_ifs <;> rfl
  by_cases hheld : m.persistent = true ∨ 0 < m.referenceHolds
  · simp only [flushCopy, if_pos hheld]
    refine (hi.congr hsame).perm ?_
    simp only [map_append, List.map_cons, List.map_nil, hbare, List.append_assoc,
      List.cons_append, List.nil_append]
    exact List.Perm.refl _
  · have hpending : m.persistent = false := by
      simpa using fun hp => hheld (.inl hp)
    simp only [flushCopy, if_neg hheld]
    refine inv_release ((hi.congr hsame).perm ?_) hpending
    rw [List.map_cons]
    exact List.perm_middle

theorem inv_flushAll (ms : List HostBufferCopy) (flushed : State × List HostBufferCopy)
    (hi : Inv flushed.1
      (copies ++ flushed.2.map HostBufferCopy.bare ++ ms.map HostBufferCopy.bare) hand) :
    Inv (ms.foldl flushCopy flushed).1
      (copies ++ (ms.foldl flushCopy flushed).2.map HostBufferCopy.bare) hand := by
  induction ms generalizing flushed with
  | nil => simpa using hi
  | cons m ms ih => exact ih _ (inv_flushCopy hi)

/-- The invariant of a state, between two operations. -/
def Sound (s : State) : Prop := Inv s (s.hostBufferCopies.map HostBufferCopy.bare) []

/-- The invariant of a state within an operation. -/
def Holding (s : State) (hand : List ℕ) : Prop :=
  Inv s (s.hostBufferCopies.map HostBufferCopy.bare) hand

/-- What comes of an attempt to put a copy in the list: it is there, or its block is in hand
    still. -/
def Remembers (r : Bool × State) (block hand : List ℕ) : Prop :=
  (r.1 = true ∧ Holding r.2 hand) ∨ (r.1 = false ∧ Holding r.2 (block ++ hand))

theorem sound_flushPending (hs : Sound s) : Sound (flushPendingHostBufferCopies s) := by
  have hstart : Inv { s with hostBufferCopies := [] }
      ([] ++ ([] : List HostBufferCopy).map HostBufferCopy.bare ++
        s.hostBufferCopies.map HostBufferCopy.bare) [] :=
    hs.congr ⟨rfl, rfl, rfl, rfl, rfl, rfl⟩
  have hall := inv_flushAll _ ({ s with hostBufferCopies := [] }, []) hstart
  exact hall.congr ⟨rfl, rfl, rfl, rfl, rfl, rfl⟩

theorem sound_flushForOwner (hs : Sound s) (owner : ℕ) :
    Sound (flushHostBufferCopiesForOwner s owner) := by
  let drained := s.hostBufferCopies.filter fun m => m.ownerId == owner
  let retained := s.hostBufferCopies.filter fun m => m.ownerId != owner
  have hperm : (s.hostBufferCopies.map HostBufferCopy.bare).Perm
      (retained.map HostBufferCopy.bare ++ [] ++ drained.map HostBufferCopy.bare) := by
    rw [List.append_nil, ← map_append]
    refine List.Perm.map _ (List.Perm.trans ?_ List.perm_append_comm)
    exact (List.filter_append_perm (fun m => m.ownerId == owner) s.hostBufferCopies).symm
  have hstart : Inv { s with hostBufferCopies := [] }
      (retained.map HostBufferCopy.bare ++ ([] : List HostBufferCopy).map HostBufferCopy.bare ++
        drained.map HostBufferCopy.bare) [] :=
    (hs.perm hperm).congr ⟨rfl, rfl, rfl, rfl, rfl, rfl⟩
  have hall := inv_flushAll _ ({ s with hostBufferCopies := [] }, []) hstart
  unfold Sound flushHostBufferCopiesForOwner
  simp only [map_append]
  exact hall.congr ⟨rfl, rfl, rfl, rfl, rfl, rfl⟩

/-! ## Crossings -/

/-- The tables are as they were, and so are the copies but for what crossings change in them. -/
structure Kept (s t : State) : Prop where
  same : Same s t
  copies : t.hostBufferCopies.map HostBufferCopy.bare = s.hostBufferCopies.map HostBufferCopy.bare

theorem Kept.refl (s : State) : Kept s s := ⟨Same.refl s, rfl⟩

theorem Kept.trans {s t u : State} (h : Kept s t) (h' : Kept t u) : Kept s u :=
  ⟨h.same.trans h'.same, h'.copies.trans h.copies⟩

theorem Kept.sound (h : Kept s t) (hs : Sound s) : Sound t := by
  unfold Sound
  rw [h.copies]
  exact hs.congr h.same

theorem map_bare_modify {f : HostBufferCopy → HostBufferCopy} (hf : ∀ m, (f m).bare = m.bare)
    (ms : List HostBufferCopy) (i : ℕ) :
    (ms.modify i f).map HostBufferCopy.bare = ms.map HostBufferCopy.bare := by
  induction ms generalizing i with
  | nil => simp
  | cons m ms ih =>
    cases i with
    | zero => simp [hf]
    | succ i => simp [ih]

theorem kept_setNeedsFlush (needsFlush : Bool) (s : State) (index : ℕ) :
    Kept s (setNeedsFlush needsFlush s index) := by
  refine ⟨⟨rfl, rfl, rfl, rfl, rfl, rfl⟩, ?_⟩
  apply map_bare_modify
  intro m
  rfl

theorem kept_writeGuest (s : State) (ptr n : ℕ) (bytes : ℕ → UInt8) :
    Kept s (s.writeGuest ptr n bytes) := ⟨⟨rfl, rfl, rfl, rfl, rfl, rfl⟩, rfl⟩

theorem kept_writeStore (s : State) (store at₀ n : ℕ) (bytes : ℕ → UInt8) :
    Kept s (s.writeStore store at₀ n bytes) := by
  refine ⟨same_writeStore .., ?_⟩
  unfold State.writeStore
  split_ifs <;> rfl

theorem kept_publishCopy (s : State) (index : ℕ) : Kept s (publishCopy s index) := by
  unfold publishCopy
  cases s.hostBufferCopies[index]? with
  | none => exact Kept.refl s
  | some m =>
    simp only
    split_ifs
    · exact Kept.refl s
    · cases h : copyMemoryBytesToReference s m with
      | none => exact Kept.refl s
      | some t =>
        obtain ⟨v, _, rfl⟩ := Option.map_eq_some_iff.mp h
        exact (kept_writeStore ..).trans (kept_setNeedsFlush ..)

theorem kept_refreshCopy (s : State) (index : ℕ) : Kept s (refreshCopy s index) := by
  unfold refreshCopy
  cases s.hostBufferCopies[index]? with
  | none => exact Kept.refl s
  | some m =>
    simp only
    split_ifs
    · exact Kept.refl s
    · cases h : copyReferenceBytesToMemory s m with
      | none => exact Kept.refl s
      | some t =>
        obtain ⟨v, _, rfl⟩ := Option.map_eq_some_iff.mp h
        exact (kept_writeGuest ..).trans (kept_setNeedsFlush ..)

theorem kept_foldl {f : State → ℕ → State} (hf : ∀ s i, Kept s (f s i)) (is : List ℕ) (s : State) :
    Kept s (is.foldl f s) := by
  induction is generalizing s with
  | nil => exact Kept.refl s
  | cons i is ih => exact (hf s i).trans (ih (f s i))

theorem kept_publish (s : State) : Kept s (publishPendingHostBufferCopies s) :=
  kept_foldl kept_publishCopy _ s

theorem kept_refresh (s : State) : Kept s (refreshHostBufferCopies s) :=
  kept_foldl kept_refreshCopy _ s

theorem kept_beginFrame (s : State) : Kept s (beginFrame s) := ⟨⟨rfl, rfl, rfl, rfl, rfl, rfl⟩, rfl⟩

theorem sound_endFrame (hs : Sound s) (owner : ℕ) : Sound (endFrame s owner) := by
  have herase : Sound { s with hostBufferCopyFrames := s.hostBufferCopyFrames.erase owner } :=
    hs.congr ⟨rfl, rfl, rfl, rfl, rfl, rfl⟩
  unfold endFrame
  simp only
  split_ifs
  · exact sound_flushPending (sound_flushForOwner herase owner)
  · exact (kept_publish _).sound (sound_flushForOwner herase owner)

theorem kept_refreshCached (s : State) (env handle : ℕ) (v : Value) (byteLen ptr : ℕ) :
    Kept s (refreshCached s env handle v byteLen ptr) := by
  have hprepared : Kept s (prepareCachedGuestData s env handle ptr).2 := by
    unfold prepareCachedGuestData
    cases s.copyAt env handle ptr with
    | none => exact Kept.refl s
    | some index => exact kept_setNeedsFlush ..
  unfold refreshCached
  simp only
  split_ifs
  · exact hprepared.trans (kept_writeGuest ..)
  · exact hprepared

/-! ## Numbers -/

/-- A number that is given now is, in its low 31 bits, no other buffer's of the env. -/
def Unshared (s : State) (env store : ℕ) : Prop :=
  s.backingStoreIds env store = none → ∀ store' id, s.backingStoreIds env store' = some id →
    id % 2 ^ 31 ≠ max (s.nextBackingStoreId env) 1 % 2 ^ 31

/-- The state after a token was asked for: the buffer has a number, and that is all. -/
structure Asked (s t : State) (env : ℕ) (v : Value) (token : ℕ) : Prop where
  number : ∃ id, t.backingStoreIds env v.store = some id ∧
    token = packToken id (asU32 (s.heap.byteOffset v))
  heap : t.heap = s.heap
  memory : t.guestMemory = s.guestMemory
  stores : t.guestDataBackingStores = s.guestDataBackingStores
  ptrs : t.guestDataPtrs = s.guestDataPtrs
  copies : t.hostBufferCopies = s.hostBufferCopies
  capacities : t.guestBufferCapacities = s.guestBufferCapacities
  pool : t.guestBufferPool = s.guestBufferPool
  leases : t.hostBufferLeases = s.hostBufferLeases

theorem asked_backingStoreToken (s : State) (env : ℕ) (v : Value) :
    Asked s (backingStoreToken s env v).2 env v (backingStoreToken s env v).1 := by
  unfold backingStoreToken
  cases h : s.backingStoreIds env v.store with
  | some id => exact ⟨⟨id, h, rfl⟩, rfl, rfl, rfl, rfl, rfl, rfl, rfl, rfl⟩
  | none =>
    refine ⟨⟨_, ?_, rfl⟩, rfl, rfl, rfl, rfl, rfl, rfl, rfl, rfl⟩
    simp [set₂_apply]

theorem inv_backingStoreToken (hi : Inv s copies hand) (hu : Unshared s env v.store) :
    Inv (backingStoreToken s env v).2 copies hand := by
  unfold backingStoreToken
  cases h : s.backingStoreIds env v.store with
  | some id => exact hi
  | none =>
    have hold : ∀ {env' store' id : ℕ}, s.backingStoreIds env' store' = some id →
        set₂ s.backingStoreIds env v.store (some (max (s.nextBackingStoreId env) 1)) env' store' =
          some id := by
      intro env' store' id hid
      rw [set₂_apply, if_neg, hid]
      rintro ⟨rfl, rfl⟩
      rw [h] at hid
      cases hid
    refine { hi with numbers := ?_, entries := ?_, tokened := ?_ }
    · intro env' store₁ store₂ id₁ id₂ h₁ h₂ hmod
      simp only [set₂_apply] at h₁ h₂
      split_ifs at h₁ h₂ with c₁ c₂ c₂
      · exact c₁.2.trans c₂.2.symm
      · obtain ⟨rfl, rfl⟩ := c₁
        cases h₁
        exact absurd hmod.symm (hu h store₂ id₂ h₂)
      · obtain ⟨rfl, rfl⟩ := c₂
        cases h₂
        exact absurd hmod (hu h store₁ id₁ h₁)
      · exact hi.numbers env' store₁ store₂ id₁ id₂ h₁ h₂ hmod
    · intro env' token g hg
      refine (hi.entries env' token g hg).imp_right ?_
      rintro ⟨store, id, hid, hrest⟩
      exact ⟨store, id, hold hid, hrest⟩
    · intro m hm
      obtain ⟨⟨id, hid, htoken⟩, hstart, hpending⟩ := hi.tokened m hm
      exact ⟨⟨id, hold hid, htoken⟩, hstart, hpending⟩

/-! ## What a lookup finds -/

/-- The copy has the bytes, at the pointer. -/
structure Reaches (m : HostBufferCopy) (a : Answer) : Prop where
  env : m.guestEnv = a.env
  store : m.store = a.value.store
  start : m.start ≤ a.byteOffset
  stop : a.byteOffset + a.byteLen ≤ m.start + m.byteLen
  ptr : a.ptr = m.guestPtr + (a.byteOffset - m.start)

/-- What a lookup by token finds is the value's: its own address in guest memory, or its place in
    a copy of its buffer. -/
theorem resolve_spec (hi : Inv s copies hand) (hid : s.backingStoreIds env v.store = some id)
    {byteOffset : ℕ} (hoff : byteOffset < 2 ^ 32)
    (h : resolveGuestBackingStoreToken s env (packToken id byteOffset) byteLen = some ptr) :
    (s.guestMemory v.store = true ∧ ptr = byteOffset) ∨
      ∃ m ∈ copies, Reaches m ⟨env, v, byteOffset, byteLen, ptr⟩ := by
  -- An entry of the buffer's, at an offset that is the value's or none.
  have hentry : ∀ (o : ℕ) (g : GuestBackingStoreMapping), o < 2 ^ 32 →
      s.guestDataBackingStores env (packToken id o) = some g →
      (s.guestMemory v.store = true ∧ g.guestPtr = o) ∨
        ∃ m ∈ copies, m.guestEnv = env ∧ m.store = v.store ∧ m.start = o ∧
          m.guestPtr = g.guestPtr ∧ m.byteLen = g.byteLen := by
    intro o g ho hg
    rcases hi.entries env _ g hg with ⟨m, hm, henv, htoken, hptr, hlen⟩ | ⟨store, id', hid', hmem, hlt, htoken⟩
    · obtain ⟨⟨id', hid', htoken'⟩, hstart, _⟩ := hi.tokened m hm
      rw [henv] at hid'
      obtain ⟨hmod, hoff⟩ := packToken_inj ho hstart (htoken.symm.trans htoken')
      exact .inr ⟨m, hm, henv, (hi.numbers env _ _ _ _ hid hid' hmod).symm, hoff.symm, hptr, hlen⟩
    · obtain ⟨hmod, hoff⟩ := packToken_inj ho hlt htoken
      rw [hi.numbers env _ _ _ _ hid hid' hmod]
      exact .inl ⟨hmem, hoff.symm⟩
  unfold resolveGuestBackingStoreToken at h
  simp only [packToken_mod hoff, packToken_base] at h
  cases hexact : (s.guestDataBackingStores env (packToken id byteOffset)).filter
      (fun g => decide (byteLen ≤ g.byteLen)) with
  | some g =>
    simp only [hexact, Option.some.injEq] at h
    obtain ⟨hg, hfits⟩ := Option.filter_eq_some_iff.mp hexact
    rcases hentry byteOffset g hoff hg with ⟨hmem, hptr⟩ | ⟨m, hm, henv, hstore, hstart, hptr, hlen⟩
    · exact .inl ⟨hmem, h.symm.trans hptr⟩
    · refine .inr ⟨m, hm, henv, hstore, hstart.le, ?_, ?_⟩
      · simp only [decide_eq_true_eq] at hfits
        show byteOffset + byteLen ≤ m.start + m.byteLen
        omega
      · show ptr = m.guestPtr + (byteOffset - m.start)
        omega
  | none =>
    simp only [hexact] at h
    cases hbase : s.guestDataBackingStores env (packToken id 0) with
    | none => simp [hbase] at h
    | some g =>
      simp only [hbase] at h
      split_ifs at h with hfits
      cases h
      rcases hentry 0 g (by norm_num) hbase with ⟨hmem, hptr⟩ | ⟨m, hm, henv, hstore, hstart, hptr, hlen⟩
      · refine .inl ⟨hmem, ?_⟩
        omega
      · refine .inr ⟨m, hm, henv, hstore, ?_, ?_, ?_⟩
        · show m.start ≤ byteOffset
          omega
        · show byteOffset + byteLen ≤ m.start + m.byteLen
          omega
        · show g.guestPtr + byteOffset = m.guestPtr + (byteOffset - m.start)
          omega

/-! ## Answers -/

/-- The block of a copy is the copy's alone, and is as long as the copy. -/
def Live (s : State) (m : HostBufferCopy) : Prop :=
  m.guestAllocationRecyclable = true → m.guestPtr ∉ s.guestBufferPool.map Prod.fst ∧
    ∃ capacity, s.guestBufferCapacities m.guestPtr = some capacity ∧ m.byteLen ≤ capacity

/-- The pointer of an answer reaches the value's bytes, all that the answer says there are. -/
def Valid (s : State) (a : Answer) : Prop :=
  (a.byteLen = 0 ∧ a.ptr = 0) ∨ (s.guestMemory a.value.store = true ∧ a.ptr = a.byteOffset) ∨
    ∃ m ∈ s.hostBufferCopies, Reaches m a ∧ Live s m

/-- What the last step answered, if it answered, is valid. -/
def PointersValid (s : State) : Prop := ∀ a, s.answered = some a → Valid s a

theorem live_of_sound (hs : Sound s) (hm : m ∈ s.hostBufferCopies) : Live s m := by
  intro hr
  have hbare : m.bare ∈ s.hostBufferCopies.map HostBufferCopy.bare := List.mem_map_of_mem hm
  refine ⟨?_, hs.copied m.bare hbare hr⟩
  intro hpool
  have hc := hs.claimed m.guestPtr
  have h₁ : 0 < (s.guestBufferPool.map Prod.fst).count m.guestPtr := List.count_pos_iff.mpr hpool
  have h₂ : 0 < ((s.hostBufferCopies.map HostBufferCopy.bare).flatMap
      HostBufferCopy.block).count m.guestPtr := by
    apply List.count_pos_iff.mpr
    refine List.mem_flatMap.mpr ⟨m.bare, hbare, ?_⟩
    simp [HostBufferCopy.block, HostBufferCopy.bare, hr]
  unfold claims at hc
  omega

/-- What the invariant's lists have, the state has. -/
theorem valid_of_reaches (hs : Sound s) {a : Answer}
    (h : (s.guestMemory a.value.store = true ∧ a.ptr = a.byteOffset) ∨
      ∃ m ∈ s.hostBufferCopies.map HostBufferCopy.bare, Reaches m a) : Valid s a := by
  rcases h with h | ⟨b, hb, hreach⟩
  · exact .inr (.inl h)
  · obtain ⟨m, hm, rfl⟩ := List.mem_map.mp hb
    obtain ⟨henv, hstore, hstart, hstop, hptr⟩ := hreach
    exact .inr (.inr ⟨m, hm, ⟨henv, hstore, hstart, hstop, hptr⟩, live_of_sound hs hm⟩)

theorem sound_recycle (hi : Holding s [ptr]) : Sound (recycleGuestAllocation s ptr) := by
  have hcopies : (recycleGuestAllocation s ptr).hostBufferCopies = s.hostBufferCopies := by
    unfold recycleGuestAllocation
    split <;> rfl
  unfold Sound
  rw [hcopies]
  exact inv_recycle hi

/-- A copy as `remember_host_buffer_copy` pushes it. -/
def HostBufferCopy.placed (m : HostBufferCopy) (owner reference : ℕ) : HostBufferCopy :=
  { m with ownerId := owner, hostReferenceId := reference, referenceHolds := 0 }

/-- A new copy is in the list, or nothing has changed and its block is in hand still. -/
theorem remember_spec (reference : Option ℕ) (registered : Bool)
    (hi : Holding s (m.block ++ hand)) (htokened : Tokened s m)
    (hcapacity : m.guestAllocationRecyclable = true → ∃ capacity,
      s.guestBufferCapacities m.guestPtr = some capacity ∧ m.byteLen ≤ capacity) :
    ((rememberHostBufferCopy s m reference registered).1 = true ∧
      Holding (rememberHostBufferCopy s m reference registered).2 hand ∧
      ∃ id, (rememberHostBufferCopy s m reference registered).2.hostBufferCopies =
        s.hostBufferCopies ++ [m.placed (currentHostBufferOwner s) id]) ∨
    ((rememberHostBufferCopy s m reference registered).1 = false ∧
      Holding (rememberHostBufferCopy s m reference registered).2 (m.block ++ hand)) := by
  unfold rememberHostBufferCopy
  cases reference with
  | none => exact .inr ⟨rfl, hi⟩
  | some id =>
    have hpushed : Inv (pushCopy (createReference s m.guestEnv m.handleId id)
        (m.placed (currentHostBufferOwner s) id))
        (s.hostBufferCopies.map HostBufferCopy.bare ++
          [(m.placed (currentHostBufferOwner s) id).bare]) hand := by
      apply inv_push
      · exact hi.congr ⟨rfl, rfl, rfl, rfl, rfl, rfl⟩
      · obtain ⟨htoken, hstart, hpending⟩ := htokened
        exact ⟨htoken, hstart, hpending⟩
      · exact hcapacity
    simp only
    split_ifs
    · refine .inl ⟨rfl, ?_, id, rfl⟩
      show Inv _ ((s.hostBufferCopies ++ [_]).map HostBufferCopy.bare) hand
      rw [map_append]
      exact hpushed
    · refine .inl ⟨rfl, ?_, id, rfl⟩
      show Inv _ ((s.hostBufferCopies ++ [_]).map HostBufferCopy.bare) hand
      rw [map_append]
      exact hpushed.congr ⟨rfl, rfl, rfl, rfl, rfl, rfl⟩
    · refine .inr ⟨rfl, ?_⟩
      show Inv _ ((s.hostBufferCopies ++ [_]).dropLast.map HostBufferCopy.bare)
        ((m.placed (currentHostBufferOwner s) id).bare.block ++ hand)
      rw [List.dropLast_concat]
      refine inv_remove (hpushed.perm List.perm_append_comm) rfl rfl rfl rfl rfl ?_ ?_
      · intro env token g hg
        simp only [set₂_apply] at hg
        split_ifs at hg
        exact hg
      · intro g hg
        simp [set₂_apply, HostBufferCopy.bare, HostBufferCopy.placed] at hg

/-! ## Info calls -/

/-- A pointer that the lookup found, in a state that only crossings set apart. -/
theorem valid_of_resolve (hs : Sound s) (hid : s.backingStoreIds env v.store = some id)
    (hoff : s.heap.byteOffset v < 2 ^ 32) (hkept : Kept s t)
    (h : resolveGuestBackingStoreToken s env (packToken id (s.heap.byteOffset v)) byteLen = some ptr) :
    Valid t ⟨env, v, s.heap.byteOffset v, byteLen, ptr⟩ := by
  apply valid_of_reaches (hkept.sound hs)
  rw [hkept.copies, hkept.same.memory]
  exact resolve_spec hs hid hoff h

theorem of_answered {p : ℕ → Prop} (h : p ptr) : ∀ ptr', some ptr = some ptr' → p ptr' :=
  fun _ heq => Option.some.inj heq ▸ h

/-- What all ways to resolve a value have in common. -/
def Resolves (resolve : State → ℕ → ℕ → ℕ → Value → ℕ → Option ℕ → Option ℕ → Option ℕ × State) :
    Prop :=
  ∀ {s : State} {env : ℕ} {v : Value} {id : ℕ} {malloc : Option ℕ} (handle byteLen : ℕ)
    (reference : Option ℕ), Sound s → s.backingStoreIds env v.store = some id →
    s.heap.byteOffset v < 2 ^ 32 → mallocAnswers s byteLen malloc = true →
    (resolveGuestBackingStoreToken s env (packToken id (s.heap.byteOffset v)) byteLen = none →
      s.guestDataPtrs env handle = none) →
    Sound (resolve s env handle (packToken id (s.heap.byteOffset v)) v byteLen malloc reference).2 ∧
    ∀ ptr, (resolve s env handle (packToken id (s.heap.byteOffset v)) v byteLen malloc
        reference).1 = some ptr →
      Valid (resolve s env handle (packToken id (s.heap.byteOffset v)) v byteLen malloc reference).2
        ⟨env, v, s.heap.byteOffset v, byteLen, ptr⟩

theorem resolves_orCopy : Resolves resolveOrCopyHostDataToGuest := by
  intro s env v id malloc handle byteLen reference hs hid hoff hmalloc hcached
  unfold resolveOrCopyHostDataToGuest
  cases hresolve : resolveGuestBackingStoreToken s env (packToken id (s.heap.byteOffset v)) byteLen with
  | some ptr =>
    have hkept : Kept s { s with guestDataPtrs := set₂ s.guestDataPtrs env handle (some ptr) } :=
      ⟨⟨rfl, rfl, rfl, rfl, rfl, rfl⟩, rfl⟩
    exact ⟨hkept.sound hs, of_answered (valid_of_resolve hs hid hoff hkept hresolve)⟩
  | none =>
    simp only [hcached hresolve]
    split_ifs with hzero
    · exact ⟨hs, of_answered (.inl ⟨hzero, rfl⟩)⟩
    · cases halloc : allocateGuestBuffer s byteLen malloc with
      | none => exact ⟨hs, nofun⟩
      | some allocated =>
        obtain ⟨ptr, t⟩ := allocated
        obtain ⟨hinv, hallocated⟩ := allocate_spec hs hmalloc halloc
        have hwritten : Inv (t.writeGuest ptr byteLen (s.snapshot v))
            (s.hostBufferCopies.map HostBufferCopy.bare) [ptr] :=
          hinv.congr ⟨rfl, rfl, rfl, rfl, rfl, rfl⟩
        cases reference with
        | none =>
          refine ⟨?_, nofun⟩
          show Inv _ (t.hostBufferCopies.map HostBufferCopy.bare) []
          rw [hallocated.copies]
          exact inv_forget hwritten
        | some reference =>
          simp only
          let m := pendingCopy (currentHostBufferOwner s) env handle reference
            (packToken id (s.heap.byteOffset v)) ptr byteLen v (s.heap.byteOffset v)
          have hsound : Sound (pushCopy (createReference (t.writeGuest ptr byteLen (s.snapshot v))
              env handle reference) m) := by
            show Inv _ ((t.hostBufferCopies ++ [m]).map HostBufferCopy.bare) []
            rw [hallocated.copies, map_append]
            apply inv_push
            · exact hwritten.congr ⟨rfl, rfl, rfl, rfl, rfl, rfl⟩
            · refine ⟨⟨id, ?_, rfl⟩, hoff, fun _ => ⟨Nat.pos_of_ne_zero hzero, rfl⟩⟩
              show t.backingStoreIds env v.store = some id
              rw [hallocated.ids, hid]
            · intro _
              exact hallocated.capacity
          have hmem := List.mem_append_right t.hostBufferCopies (List.mem_singleton_self m)
          refine ⟨hsound, of_answered ?_⟩
          refine .inr (.inr ⟨m, hmem, ?_, live_of_sound hsound hmem⟩)
          exact ⟨rfl, rfl, le_rfl, le_rfl, by simp [m, pendingCopy]⟩

/-- What a value that is resolved now has at its handle goes there again. -/
theorem kept_cached (s : State) (env handle : ℕ) (v : Value) (byteLen ptr : ℕ) :
    Kept s { refreshCached s env handle v byteLen ptr with
      guestDataPtrs := set₂ (refreshCached s env handle v byteLen ptr).guestDataPtrs env handle
        (some ptr) } :=
  (kept_refreshCached s env handle v byteLen ptr).trans ⟨⟨rfl, rfl, rfl, rfl, rfl, rfl⟩, rfl⟩

theorem resolves_hostData : Resolves resolveCurrentHostDataToGuest := by
  intro s env v id malloc handle byteLen reference hs hid hoff hmalloc hcached
  unfold resolveCurrentHostDataToGuest
  cases hresolve : resolveGuestBackingStoreToken s env (packToken id (s.heap.byteOffset v)) byteLen with
  | some ptr =>
    have hkept := kept_cached s env handle v byteLen ptr
    exact ⟨hkept.sound hs, of_answered (valid_of_resolve hs hid hoff hkept hresolve)⟩
  | none =>
    simp only [hcached hresolve]
    split_ifs with hzero
    · exact ⟨hs, of_answered (.inl ⟨hzero, rfl⟩)⟩
    · exact resolves_orCopy handle byteLen reference hs hid hoff hmalloc hcached

theorem resolves_hostValue : Resolves resolveCurrentHostValueToGuest := by
  intro s env v id malloc handle byteLen reference hs hid hoff hmalloc hcached
  unfold resolveCurrentHostValueToGuest
  cases hresolve : resolveGuestBackingStoreToken s env (packToken id (s.heap.byteOffset v)) byteLen with
  | some ptr =>
    have hkept := kept_cached s env handle v byteLen ptr
    exact ⟨hkept.sound hs, of_answered (valid_of_resolve hs hid hoff hkept hresolve)⟩
  | none =>
    simp only [hcached hresolve, Option.or_none]
    split_ifs with hzero
    · exact ⟨hs, of_answered (.inl ⟨hzero, rfl⟩)⟩
    · cases halloc : allocateGuestBuffer s byteLen malloc with
      | none => exact ⟨hs, nofun⟩
      | some allocated =>
        obtain ⟨ptr, t⟩ := allocated
        obtain ⟨hinv, hallocated⟩ := allocate_spec hs hmalloc halloc
        simp only
        let m := pendingCopy 0 env handle 0 (packToken id (s.heap.byteOffset v)) ptr byteLen v
          (s.heap.byteOffset v)
        let s₁ := t.writeGuest ptr byteLen (s.snapshot v)
        have hwritten : Holding s₁ (m.block ++ []) := by
          show Inv s₁ (t.hostBufferCopies.map HostBufferCopy.bare) [ptr]
          rw [hallocated.copies]
          exact hinv.congr ⟨rfl, rfl, rfl, rfl, rfl, rfl⟩
        have htokened : Tokened s₁ m := by
          refine ⟨⟨id, ?_, rfl⟩, hoff, fun _ => ⟨Nat.pos_of_ne_zero hzero, rfl⟩⟩
          show t.backingStoreIds env v.store = some id
          rw [hallocated.ids, hid]
        rcases remember_spec reference true hwritten htokened fun _ => hallocated.capacity with
          ⟨hok, hsound, reference', hcopies⟩ | ⟨hok, hinv'⟩
        · rw [if_pos hok]
          have hmem := List.mem_append_right s₁.hostBufferCopies
            (List.mem_singleton_self (m.placed (currentHostBufferOwner s₁) reference'))
          rw [← hcopies] at hmem
          refine ⟨hsound, of_answered ?_⟩
          refine .inr (.inr ⟨_, hmem, ?_, live_of_sound hsound hmem⟩)
          exact ⟨rfl, rfl, le_rfl, le_rfl, by simp [HostBufferCopy.placed, m, pendingCopy]⟩
        · rw [if_neg (Bool.eq_false_iff.mp hok)]
          exact ⟨sound_recycle hinv', nofun⟩

/-! ## Steps -/

/-- The copy that a drained record names. -/
def recordCopy (s : State) (env : ℕ) (record : GuestBufferFinalizer) : Option HostBufferCopy :=
  s.hostBufferCopies.find? fun m => m.guestEnv == env && m.handleId == record.handleId &&
    m.guestPtr == record.guestPtr && m.persistent

/-- A value's offset and its size are 32 bits, the number its buffer gets is its own, and where
    the lookup by token misses no pointer is known for the handle. -/
def Straight (s : State) (env handle : ℕ) : Prop :=
  ∀ v, s.heap.values env handle = some v →
    s.heap.byteOffset v < 2 ^ 32 ∧ s.heap.byteLength v < 2 ^ 32 ∧ Unshared s env v.store ∧
      (resolveGuestBackingStoreToken (backingStoreToken s env v).2 env (backingStoreToken s env v).1
        (s.heap.byteLength v) = none → s.guestDataPtrs env handle = none)

/-- What keeps the pointers right. -/
def Honest (s : State) : Act → Prop
  | .info env handle _ _ | .bufferInfo env handle _ _ => Straight s env handle
  | .createArraybuffer env _ store _ _ _ _ | .createExternal env _ store _ _ _ _ _
  | .createBuffer env _ store _ _ _ => Unshared s env store
  | .createTypedarray env _ v => Unshared s env v.store
  | .acquireLease env _ _ _ _ _ _ _ =>
    s.hostBufferLeases.lookup (env, max s.nextBufferLeaseId 1) = none
  | .drain env index => ∀ record, (s.guestBufferFinalizers env)[index]? = some record →
    ∀ m, recordCopy s env record = some m → m.guestAllocationRecyclable = record.recyclable
  | _ => True

/-- An answer does not matter to the invariant. -/
theorem sound_answered (hs : Sound s) (a : Option Answer) : Sound { s with answered := a } :=
  hs.congr ⟨rfl, rfl, rfl, rfl, rfl, rfl⟩

/-- A state after an answer that is valid, or none. -/
def After (s : State) : Prop := Sound s ∧ PointersValid s

theorem after_unanswered (hs : Sound s) : After { s with answered := none } := by
  refine ⟨sound_answered hs none, ?_⟩
  intro a ha
  cases ha

variable {reference : Option ℕ}

theorem after_infoCall
    {resolve : State → ℕ → ℕ → ℕ → Value → ℕ → Option ℕ → Option ℕ → Option ℕ × State}
    (hresolves : Resolves resolve) (hs : Sound s) (hstraight : Straight s env handle)
    (hmalloc : ∀ v, s.heap.values env handle = some v →
      mallocAnswers s (asU32 (s.heap.byteLength v)) malloc = true) :
    After (infoCall resolve s env handle malloc reference) := by
  unfold infoCall
  cases hv : s.heap.values env handle with
  | none => exact after_unanswered hs
  | some v =>
    obtain ⟨hoff, hlen, hunshared, hcached⟩ := hstraight v hv
    have hasked := asked_backingStoreToken s env v
    obtain ⟨id, hid, htoken⟩ := hasked.number
    have hsound : Sound (backingStoreToken s env v).2 := by
      unfold Sound
      rw [hasked.copies]
      exact inv_backingStoreToken hs hunshared
    have hlen' : asU32 (s.heap.byteLength v) = s.heap.byteLength v := asU32_of_lt hlen
    rw [asU32_of_lt hoff] at htoken
    have hoffset : (backingStoreToken s env v).2.heap.byteOffset v = s.heap.byteOffset v := by
      rw [hasked.heap]
    have hmalloc' : mallocAnswers (backingStoreToken s env v).2 (s.heap.byteLength v) malloc = true := by
      have := hmalloc v hv
      unfold mallocAnswers at this ⊢
      rwa [hasked.capacities, hasked.pool, ← hlen']
    rw [htoken] at hcached
    have hspec := hresolves handle (s.heap.byteLength v) reference hsound hid
      (hoffset ▸ hoff) hmalloc' (by rw [hoffset, hasked.ptrs]; exact hcached)
    rw [hoffset] at hspec
    simp only [htoken, hlen']
    refine ⟨sound_answered hspec.1 _, ?_⟩
    intro a ha
    obtain ⟨ptr, hptr, rfl⟩ := Option.map_eq_some_iff.mp ha
    exact hspec.2 ptr hptr

/-! ### Creating -/

variable {store : ℕ}

theorem Unshared.congr (h : Unshared s env store) (hids : t.backingStoreIds = s.backingStoreIds)
    (hnext : t.nextBackingStoreId = s.nextBackingStoreId) : Unshared t env store := by
  unfold Unshared
  rwa [hids, hnext]

/-- A created value whose bytes start at its buffer's start. -/
theorem rememberCreated_spec (out len : ℕ) (recyclable : Bool) (v : Value) (reference : Option ℕ)
    (registered : Bool)
    (hi : Holding s ((if recyclable = true then [ptr] else []) ++ hand))
    (hunshared : Unshared s env v.store) (hstart : s.heap.byteOffset v = 0)
    (hcapacity : recyclable = true → ∃ capacity, s.guestBufferCapacities ptr = some capacity ∧
      len ≤ capacity) :
    Remembers (rememberCreated s env out ptr len recyclable v reference registered)
      (if recyclable = true then [ptr] else []) hand := by
  have hasked := asked_backingStoreToken s env v
  obtain ⟨id, hid, htoken⟩ := hasked.number
  unfold rememberCreated
  let m := createdCopy env out (backingStoreToken s env v).1 ptr len recyclable v (s.heap.byteOffset v)
  have hinv : Holding (backingStoreToken s env v).2 (m.block ++ hand) := by
    unfold Holding
    rw [hasked.copies]
    exact inv_backingStoreToken hi hunshared
  have htokened : Tokened (backingStoreToken s env v).2 m := by
    refine ⟨⟨id, hid, ?_⟩, ?_, nofun⟩
    · show (backingStoreToken s env v).1 = packToken id (s.heap.byteOffset v)
      rw [htoken, hstart]
      rfl
    · show s.heap.byteOffset v < 2 ^ 32
      rw [hstart]
      norm_num
  have hcapacity' : m.guestAllocationRecyclable = true → ∃ capacity,
      (backingStoreToken s env v).2.guestBufferCapacities m.guestPtr = some capacity ∧
        m.byteLen ≤ capacity := by
    rw [hasked.capacities]
    exact hcapacity
  rcases remember_spec reference registered hinv htokened hcapacity' with ⟨hok, hsound, _⟩ | ⟨hok, hinv'⟩
  · exact .inl ⟨hok, hsound⟩
  · exact .inr ⟨hok, hinv'⟩

variable {out len : ℕ}

theorem sound_createArraybuffer {registered : Bool} (hs : Sound s)
    (hunshared : Unshared s env store) (hmalloc : mallocAnswers s len malloc = true) :
    Sound (createArraybuffer s env out store len malloc reference registered) := by
  unfold createArraybuffer
  cases halloc : allocateGuestBuffer s len malloc with
  | none => exact hs
  | some allocated =>
    obtain ⟨ptr, t⟩ := allocated
    obtain ⟨hinv, hallocated⟩ := allocate_spec hs hmalloc halloc
    let s₃ := { t.writeGuest ptr len fun _ => 0 with
      heap := (t.writeGuest ptr len fun _ => 0).heap.create env out store len .buffer fun _ => 0 }
    have hinv₃ : Holding s₃ ((if true = true then [ptr] else []) ++ []) := by
      show Inv s₃ (t.hostBufferCopies.map HostBufferCopy.bare) [ptr]
      rw [hallocated.copies]
      exact hinv.congr ⟨rfl, rfl, rfl, rfl, rfl, rfl⟩
    have hunshared₃ : Unshared s₃ env store := hunshared.congr hallocated.ids hallocated.next
    simp only
    rcases rememberCreated_spec out len true ⟨store, .buffer⟩ reference registered hinv₃ hunshared₃ rfl
        fun _ => hallocated.capacity with ⟨hok, hsound⟩ | ⟨hok, hinv'⟩
    · rw [if_pos hok]
      exact hsound
    · rw [if_neg (Bool.eq_false_iff.mp hok)]
      exact sound_recycle hinv'

theorem sound_createExternal {isView : Bool} {registered : Bool} (hs : Sound s)
    (hunshared : Unshared s env store) :
    Sound (createExternal s env out store ptr len isView reference registered) := by
  unfold createExternal
  simp only
  generalize hshape : (if isView = true then Shape.fixed 0 len else Shape.buffer) = shape
  have hstart : ({ s with heap := s.heap.create env out store len shape fun i => s.memory (ptr + i) } :
      State).heap.byteOffset ⟨store, shape⟩ = 0 := by
    rw [← hshape]
    simp only [Heap.byteOffset, Heap.create]
    split_ifs
    · simp [Shape.byteOffset]
    · rfl
  have hinv : Inv { s with heap := s.heap.create env out store len shape fun i => s.memory (ptr + i) }
      (s.hostBufferCopies.map HostBufferCopy.bare) ((if false = true then [ptr] else []) ++ []) :=
    hs.congr ⟨rfl, rfl, rfl, rfl, rfl, rfl⟩
  rcases rememberCreated_spec out len false ⟨store, shape⟩ reference registered hinv hunshared hstart
      nofun with
    ⟨_, hsound⟩ | ⟨_, hsound⟩
  · exact hsound
  · exact hsound

theorem Inv.dropHand (hi : Inv s copies (ptr :: hand)) : Inv s copies hand :=
  { hi with
    claimed := fun x =>
      (Nat.add_le_add_left ((List.sublist_cons_self ptr hand).count_le x) _).trans (hi.claimed x)
    handed := fun x hx => hi.handed x (mem_cons_of_mem _ hx) }

/-- A view of guest memory is entered at its own address, and all of memory at none. -/
theorem inv_rememberGuestBackingStore (hi : Inv s copies hand)
    (hid : s.backingStoreIds env store = some id) (hmemory : s.guestMemory store = true)
    (hptr : ptr < 2 ^ 32) (handle byteLen : ℕ) :
    Inv (rememberGuestBackingStore s env handle (packToken id ptr) ptr byteLen) copies hand :=
  { hi with
    tokened := fun m hm => (hi.tokened m hm).congr rfl
    entries env' token g hg := by
      simp only [rememberGuestBackingStore, packToken_mod hptr, packToken_base, if_true,
        set₂_apply] at hg
      split_ifs at hg with h₁ h₂
      · obtain ⟨rfl, rfl⟩ := h₁
        cases hg
        exact .inr ⟨store, id, hid, hmemory, hptr, rfl⟩
      · obtain ⟨rfl, rfl⟩ := h₂
        cases hg
        exact .inr ⟨store, id, hid, hmemory, by norm_num, rfl⟩
      · exact hi.entries env' token g hg }

theorem sound_createBuffer {bytes : ℕ → UInt8} (hs : Sound s) (hunshared : Unshared s env store)
    (hmemory : s.guestMemory store = true) (hmalloc : mallocAnswers s len malloc = true) :
    Sound (createBuffer s env out store len bytes malloc) := by
  unfold createBuffer
  cases halloc : allocateGuestBuffer s len malloc with
  | none => exact hs
  | some allocated =>
    obtain ⟨ptr, t⟩ := allocated
    obtain ⟨hinv, hallocated⟩ := allocate_spec hs hmalloc halloc
    simp only
    split_ifs with hlength
    · apply sound_recycle
      show Inv _ (t.hostBufferCopies.map HostBufferCopy.bare) [ptr]
      rw [hallocated.copies]
      exact hinv.congr ⟨rfl, rfl, rfl, rfl, rfl, rfl⟩
    · let v : Value := ⟨store, .fixed ptr len⟩
      let s₃ := { t.writeGuest ptr len bytes with
        heap := { (t.writeGuest ptr len bytes).heap with
          values := set₂ (t.writeGuest ptr len bytes).heap.values env out (some v) } }
      have hinv₃ : Inv s₃ (s.hostBufferCopies.map HostBufferCopy.bare) [ptr] :=
        hinv.congr ⟨rfl, rfl, rfl, rfl, rfl, rfl⟩
      have hasked := asked_backingStoreToken s₃ env v
      obtain ⟨id, hid, htoken⟩ := hasked.number
      obtain ⟨capacity, hcap, _⟩ := hallocated.capacity
      have hptr : ptr < 2 ^ 32 := by
        have := (hinv.below ptr capacity hcap).2
        omega
      have hoffset : s₃.heap.byteOffset v = ptr := by
        show (if ptr + len ≤ t.heap.length store then ptr else 0) = ptr
        rw [hallocated.heap]
        exact if_pos (not_lt.mp hlength)
      rw [hoffset, asU32_of_lt hptr] at htoken
      have hnumbered := inv_backingStoreToken (v := v) hinv₃
        (hunshared.congr hallocated.ids hallocated.next : Unshared s₃ env v.store)
      have hmemory' : (backingStoreToken s₃ env v).2.guestMemory store = true := by
        rw [hasked.memory]
        show t.guestMemory store = true
        rw [hallocated.memory, hmemory]
      show Sound (rememberGuestBackingStore (backingStoreToken s₃ env v).2 env out
        (backingStoreToken s₃ env v).1 ptr len)
      rw [htoken]
      have hremembered := inv_rememberGuestBackingStore hnumbered.dropHand hid hmemory' hptr out len
      unfold Sound
      have hcopies : (rememberGuestBackingStore (backingStoreToken s₃ env v).2 env out
          (packToken id ptr) ptr len).hostBufferCopies = s.hostBufferCopies :=
        hasked.copies.trans hallocated.copies
      rw [hcopies]
      exact hremembered

theorem sound_createTypedarray (hs : Sound s) (hunshared : Unshared s env v.store) :
    Sound (createTypedarray s env out v) := by
  let s₁ := { s with heap := { s.heap with values := set₂ s.heap.values env out (some v) } }
  have hasked := asked_backingStoreToken s₁ env v
  have hinv : Inv s₁ (s.hostBufferCopies.map HostBufferCopy.bare) [] :=
    hs.congr ⟨rfl, rfl, rfl, rfl, rfl, rfl⟩
  have hsound : Sound (backingStoreToken s₁ env v).2 := by
    unfold Sound
    rw [hasked.copies]
    exact inv_backingStoreToken hinv hunshared
  unfold createTypedarray
  simp only
  split
  · exact hsound
  · exact hsound.congr ⟨rfl, rfl, rfl, rfl, rfl, rfl⟩

/-! ### References, scopes and leases -/

theorem kept_holdCopy (s : State) (env handle reference : ℕ) :
    Kept s (holdCopy s env handle reference) := by
  unfold holdCopy
  simp only
  split
  · exact ⟨⟨rfl, rfl, rfl, rfl, rfl, rfl⟩, rfl⟩
  · split
    · exact ⟨⟨rfl, rfl, rfl, rfl, rfl, rfl⟩, rfl⟩
    · refine ⟨⟨rfl, rfl, rfl, rfl, rfl, rfl⟩, ?_⟩
      apply map_bare_modify
      intro m
      rfl

theorem kept_dropHold (s : State) (env reference : ℕ) : Kept s (dropHold s env reference) := by
  unfold dropHold
  simp only
  split
  · exact ⟨⟨rfl, rfl, rfl, rfl, rfl, rfl⟩, rfl⟩
  · split
    · exact ⟨⟨rfl, rfl, rfl, rfl, rfl, rfl⟩, rfl⟩
    · refine ⟨⟨rfl, rfl, rfl, rfl, rfl, rfl⟩, ?_⟩
      apply map_bare_modify
      intro m
      rfl

theorem sound_closeHandleScope (hs : Sound s) (env scope : ℕ) :
    Sound (closeHandleScope s env scope) := by
  have hremoved : ∀ index, Sound { s with
      hostBufferHandleScopes := s.hostBufferHandleScopes.eraseIdx index } :=
    fun _ => hs.congr ⟨rfl, rfl, rfl, rfl, rfl, rfl⟩
  unfold closeHandleScope
  split
  · exact hs
  · simp only
    split
    · exact hs
    · exact sound_flushForOwner (hremoved _) _

theorem kept_escapeHandle (s : State) (env escapee out : ℕ) :
    Kept s (escapeHandle s env escapee out) := by
  unfold escapeHandle
  simp only
  split <;> exact ⟨⟨rfl, rfl, rfl, rfl, rfl, rfl⟩, rfl⟩

/-- A block in hand becomes a new lease's. -/
theorem inv_lease {key : ℕ × ℕ} {l : HostBufferLease} (hi : Inv s copies (l.guestPtr :: hand))
    (hnew : s.hostBufferLeases.lookup key = none) :
    Inv { s with hostBufferLeases := s.hostBufferLeases.insert key l } copies hand := by
  refine { hi with
    tokened := fun m hm => (hi.tokened m hm).congr rfl
    claimed := ?_, leased := ?_
    handed := fun x hx => hi.handed x (mem_cons_of_mem _ hx) }
  · intro x
    have hc := hi.claimed x
    have hnot : key ∉ s.hostBufferLeases := AList.lookup_eq_none.mp hnew
    have htotal := Table.total_insert_of_notMem
      (fun (_ : ℕ × ℕ) (l' : HostBufferLease) => if l'.guestPtr = x then 1 else 0) hnot l
    rw [count_cons] at hc
    simp only [claims, beq_iff_eq] at hc htotal ⊢
    rw [htotal]
    omega
  · intro key' l' hl
    rcases Table.lookup_insert_iff.mp hl with ⟨_, heq⟩ | ⟨_, hl⟩
    · subst heq
      exact hi.handed _ (mem_cons_self ..)
    · exact hi.leased key' l' hl

/-- The block of a lease that is given up is in hand. -/
theorem inv_unlease {key : ℕ × ℕ} {l : HostBufferLease} (hi : Inv s copies hand)
    (hl : s.hostBufferLeases.lookup key = some l) :
    Inv { s with hostBufferLeases := s.hostBufferLeases.erase key } copies (l.guestPtr :: hand) := by
  refine { hi with
    tokened := fun m hm => (hi.tokened m hm).congr rfl
    claimed := ?_
    leased := fun key' l' hl' => hi.leased key' l' (Table.lookup_erase_iff.mp hl').2
    handed := ?_ }
  · intro x
    have hc := hi.claimed x
    have htotal := Table.total_erase
      (fun (_ : ℕ × ℕ) (l' : HostBufferLease) => if l'.guestPtr = x then 1 else 0) hl
    rw [count_cons]
    simp only [claims, beq_iff_eq] at hc htotal ⊢
    omega
  · intro x hx
    rcases List.mem_cons.mp hx with rfl | hx
    · exact hi.leased key l hl
    · exact hi.handed x hx

theorem sound_acquireLease {byteOffset : ℕ} {readable writable : Bool} (hs : Sound s)
    (hnew : s.hostBufferLeases.lookup (env, max s.nextBufferLeaseId 1) = none)
    (hmalloc : mallocAnswers s len malloc = true) :
    Sound (acquireLease s env handle byteOffset len readable writable malloc reference) := by
  unfold acquireLease
  cases s.heap.values env handle with
  | none => exact hs
  | some v =>
    by_cases hlength : s.heap.byteLength v < byteOffset + len
    · simp only [if_pos hlength]
      exact hs
    · simp only [if_neg hlength]
      cases halloc : allocateGuestBuffer s len malloc with
      | none => exact hs
      | some allocated =>
        obtain ⟨ptr, t⟩ := allocated
        obtain ⟨hinv, hallocated⟩ := allocate_spec hs hmalloc halloc
        have hread : Kept t (if readable = true then
            t.writeGuest ptr len fun i => s.snapshot v (byteOffset + i) else t) := by
          split_ifs
          · exact kept_writeGuest ..
          · exact Kept.refl t
        simp only
        generalize hs₂ : (if readable = true then
            t.writeGuest ptr len fun i => s.snapshot v (byteOffset + i) else t) = s₂ at hread ⊢
        have hinv₂ : Holding s₂ [ptr] := by
          unfold Holding
          rw [hread.copies, hallocated.copies]
          exact hinv.congr hread.same
        cases reference with
        | none => exact sound_recycle hinv₂
        | some id =>
          simp only [hnew]
          have hkey : s₂.hostBufferLeases.lookup (env, max s.nextBufferLeaseId 1) = none := by
            rw [hread.same.leases, hallocated.leases, hnew]
          let l : HostBufferLease := ⟨ptr, byteOffset, len, writable, id⟩
          exact (inv_lease (l := l) hinv₂ hkey).congr ⟨rfl, rfl, rfl, rfl, rfl, rfl⟩

theorem sound_releaseLease (hs : Sound s) (env lease : ℕ) (modified : Bool) :
    Sound (releaseLease s env lease modified) := by
  unfold releaseLease
  cases hl : s.hostBufferLeases.lookup (env, lease) with
  | none => exact hs
  | some l =>
    simp only
    have hgiven := inv_unlease hs hl
    apply sound_recycle
    split
    · exact hgiven.congr ⟨rfl, rfl, rfl, rfl, rfl, rfl⟩
    · have hwritten := kept_writeStore
        { s with hostBufferLeases := s.hostBufferLeases.erase (env, lease) }
      show Inv (deleteReference (State.writeStore _ _ _ _ _) _ _)
        ((State.writeStore _ _ _ _ _).hostBufferCopies.map HostBufferCopy.bare) _
      rw [(hwritten ..).copies]
      exact (hgiven.congr (hwritten ..).same).congr ⟨rfl, rfl, rfl, rfl, rfl, rfl⟩

/-! ### Draining -/

/-- The copy that is found at the place is the one the record names. -/
theorem recordCopy_of_findIdx {record : GuestBufferFinalizer} {position : ℕ}
    (hposition : s.hostBufferCopies.findIdx? (fun m => m.guestEnv == env &&
      m.handleId == record.handleId && m.guestPtr == record.guestPtr && m.persistent) = some position)
    (hm : s.hostBufferCopies[position]? = some m) :
    recordCopy s env record = some m ∧ m.guestEnv = env ∧ m.guestPtr = record.guestPtr ∧
      m.persistent = true := by
  obtain ⟨hlt, hfound, _⟩ := List.findIdx?_eq_some_iff_getElem.mp hposition
  obtain ⟨_, hget⟩ := List.getElem?_eq_some_iff.mp hm
  rw [hget] at hfound
  simp only [Bool.and_eq_true, beq_iff_eq] at hfound
  refine ⟨?_, hfound.1.1.1, hfound.1.2, hfound.2⟩
  unfold recordCopy
  rw [List.find?_eq_bind_findIdx?_getElem?, hposition]
  exact hm

theorem sound_drain {index : ℕ} (hs : Sound s)
    (hhonest : ∀ record, (s.guestBufferFinalizers env)[index]? = some record →
      ∀ m, recordCopy s env record = some m → m.guestAllocationRecyclable = record.recyclable)
    (h : drainReadyGuestBuffer s env index = some t) : Sound t := by
  unfold drainReadyGuestBuffer at h
  obtain ⟨record, hrecord, rfl⟩ := Option.map_eq_some_iff.mp h
  simp only
  cases hposition : s.hostBufferCopies.findIdx? (fun m => m.guestEnv == env &&
      m.handleId == record.handleId && m.guestPtr == record.guestPtr && m.persistent) with
  | none => exact hs.congr ⟨rfl, rfl, rfl, rfl, rfl, rfl⟩
  | some position =>
    cases hm : s.hostBufferCopies[position]? with
    | none =>
      simp only [hm]
      exact hs.congr ⟨rfl, rfl, rfl, rfl, rfl, rfl⟩
    | some m =>
      obtain ⟨hnamed, henv, hptr, _⟩ := recordCopy_of_findIdx hposition hm
      have hrecyclable := hhonest record hrecord m hnamed
      simp only [hm]
      have hperm : (s.hostBufferCopies.map HostBufferCopy.bare).Perm
          (m.bare :: (s.hostBufferCopies.eraseIdx position).map HostBufferCopy.bare) := by
        obtain ⟨hlt, rfl⟩ := List.getElem?_eq_some_iff.mp hm
        exact (List.Perm.map _ (List.getElem_cons_eraseIdx_perm hlt).symm)
      have htoken : m.backingStoreToken ≠ 0 := by
        have hbare : m.bare ∈ s.hostBufferCopies.map HostBufferCopy.bare :=
          List.mem_map_of_mem (List.mem_of_getElem? hm)
        obtain ⟨id, _, hpack⟩ := (hs.tokened m.bare hbare).token
        exact hpack ▸ packToken_ne_zero id _
      rw [if_neg htoken]
      generalize hs₃ : (if m.hostReferenceId = 0 then _ else _ : State) = s₃
      have hsame : Same s s₃ ∧ s₃.hostBufferCopies = s.hostBufferCopies.eraseIdx position := by
        rw [← hs₃]
        split_ifs <;> exact ⟨⟨rfl, rfl, rfl, rfl, rfl, rfl⟩, rfl⟩
      obtain ⟨hsame, hcopies⟩ := hsame
      have hgone : Inv { s₃ with
          guestDataPtrs := set₂ s₃.guestDataPtrs env record.handleId none
          guestDataBackingStores := set₂ s₃.guestDataBackingStores env m.backingStoreToken none }
          (s₃.hostBufferCopies.map HostBufferCopy.bare) (m.bare.block ++ []) := by
        rw [hcopies]
        refine inv_remove (hs.perm hperm) hsame.memory hsame.ids hsame.capacities hsame.pool
          hsame.leases ?_ ?_
        · intro env' token g hg
          simp only [set₂_apply] at hg
          split_ifs at hg
          rwa [hsame.stores] at hg
        · intro g hg
          have hat : m.bare.guestEnv = env ∧ m.bare.backingStoreToken = m.backingStoreToken := ⟨henv, rfl⟩
          simp [set₂_apply, hat] at hg
      split_ifs with hr
      · have hblock : m.bare.block ++ [] = [record.guestPtr] := by
          simp [HostBufferCopy.block, HostBufferCopy.bare, hrecyclable.trans hr, hptr]
        rw [hblock] at hgone
        exact sound_recycle hgone
      · have hblock : m.bare.block ++ [] = [] := by
          have hr' : m.guestAllocationRecyclable = false := by
            rw [hrecyclable]
            exact Bool.eq_false_iff.mpr hr
          simp [HostBufferCopy.block, HostBufferCopy.bare, hr']
        rw [hblock] at hgone
        exact hgone

/-! ## Runs -/

/-- What the other calls keep. -/
theorem sound_apply {a : Act} (hs : Sound s) (hhonest : Honest s a) (hasks : a.asks = false)
    (hmalloc : (a.allocates s).all (fun size => mallocAnswers s size.1 size.2) = true)
    (h : apply s a = some t) : Sound t := by
  cases a with
  | info => cases hasks
  | bufferInfo => cases hasks
  | script heap memory =>
    cases h
    exact hs.congr ⟨rfl, rfl, rfl, rfl, rfl, rfl⟩
  | write addr byte =>
    cases h
    exact hs.congr ⟨rfl, rfl, rfl, rfl, rfl, rfl⟩
  | bindHandle env handle value =>
    cases h
    exact hs.congr ⟨rfl, rfl, rfl, rfl, rfl, rfl⟩
  | createArraybuffer env out store len malloc reference registered =>
    cases h
    exact sound_createArraybuffer hs hhonest hmalloc
  | createExternal env out store ptr len isView reference registered =>
    cases h
    exact sound_createExternal hs hhonest
  | createBuffer env out store len bytes malloc =>
    simp only [apply] at h
    split_ifs at h with hmemory
    cases h
    exact sound_createBuffer hs hhonest hmemory hmalloc
  | createTypedarray env out v =>
    cases h
    exact sound_createTypedarray hs hhonest
  | createReference env handle reference =>
    cases h
    exact (kept_holdCopy ..).sound hs
  | deleteReference env reference =>
    cases h
    exact (kept_dropHold ..).sound hs
  | openHandleScope env scope =>
    cases h
    exact hs.congr ⟨rfl, rfl, rfl, rfl, rfl, rfl⟩
  | closeHandleScope env scope =>
    cases h
    exact sound_closeHandleScope hs env scope
  | escapeHandle env escapee out =>
    cases h
    exact (kept_escapeHandle ..).sound hs
  | acquireLease env handle byteOffset len readable writable malloc reference =>
    cases h
    exact sound_acquireLease hs hhonest hmalloc
  | releaseLease env lease modified =>
    cases h
    exact sound_releaseLease hs env lease modified
  | drain env index => exact sound_drain hs hhonest h
  | enterScript =>
    cases h
    have hframe := ((kept_publish s).trans (kept_beginFrame _)).sound hs
    exact hframe.congr ⟨rfl, rfl, rfl, rfl, rfl, rfl⟩
  | leaveScript owner =>
    simp only [apply] at h
    split_ifs at h
    cases h
    have hrefreshed := (kept_refresh _).sound (sound_endFrame hs owner)
    exact hrefreshed.congr ⟨rfl, rfl, rfl, rfl, rfl, rfl⟩
  | enterCallback =>
    cases h
    have hframe := ((kept_refresh s).trans (kept_beginFrame _)).sound hs
    exact hframe.congr ⟨rfl, rfl, rfl, rfl, rfl, rfl⟩
  | leaveCallback owner =>
    simp only [apply] at h
    split_ifs at h
    cases h
    exact (sound_endFrame hs owner).congr ⟨rfl, rfl, rfl, rfl, rfl, rfl⟩

/-- A step that meets the condition keeps the invariant, and its answer is valid. -/
theorem after_step {a : Act} (hs : Sound s) (hhonest : Honest s a) (h : step s a = some t) :
    After t := by
  obtain ⟨⟨_, hmalloc⟩, h⟩ := Option.ite_none_right_eq_some.mp h
  obtain ⟨t', happly, rfl⟩ := Option.map_eq_some_iff.mp h
  cases hasks : a.asks with
  | false =>
    rw [if_neg Bool.false_ne_true]
    exact after_unanswered (sound_apply hs hhonest hasks hmalloc happly)
  | true =>
    rw [if_pos rfl]
    -- The size that is allocated is the value's.
    have hsize : ∀ {env handle : ℕ} {malloc : Option ℕ},
        a.allocates s = (s.heap.values env handle).map
          (fun v => (asU32 (s.heap.byteLength v), malloc)) →
        ∀ v, s.heap.values env handle = some v →
          mallocAnswers s (asU32 (s.heap.byteLength v)) malloc = true := by
      intro env handle malloc hallocates v hv
      rw [hallocates, hv] at hmalloc
      exact hmalloc
    cases a with
    | info env handle malloc reference =>
      cases happly
      exact after_infoCall resolves_hostData hs hhonest (hsize rfl)
    | bufferInfo env handle malloc reference =>
      cases happly
      exact after_infoCall resolves_hostValue hs hhonest (hsize rfl)
    | _ => cases hasks

/-- Nothing is mapped and nothing is numbered yet. -/
structure Fresh (s : State) : Prop where
  ids : s.backingStoreIds = fun _ _ => none
  stores : s.guestDataBackingStores = fun _ _ => none
  copies : s.hostBufferCopies = []
  capacities : s.guestBufferCapacities = fun _ => none
  pool : s.guestBufferPool = []
  leases : s.hostBufferLeases = ∅
  answered : s.answered = none

theorem sound_fresh (hf : Fresh s) : Sound s := by
  unfold Sound
  rw [hf.copies]
  refine ⟨?_, ?_, nofun, ?_, nofun, ?_, nofun, ?_, ?_⟩
  · intro env store store' id id' h
    rw [hf.ids] at h
    cases h
  · intro env token g h
    rw [hf.stores] at h
    cases h
  · intro ptr
    simp [claims, hf.pool, hf.leases]
  · intro key l hl
    rw [hf.leases] at hl
    simp at hl
  · intro ptr capacity h
    rw [hf.capacities] at h
    cases h
  · intro b hb
    rw [hf.pool] at hb
    cases hb

/-- **The pointers stay valid.** In every run whose steps meet the condition, however handles are
    bound again and buffers resized, a data pointer reaches the bytes of the value it was asked
    for, all of those that are reported with it. -/
theorem pointers_valid (hf : Fresh s) {acts : List Act} (hok : AllSteps step Honest s acts) :
    AllStates step PointersValid s acts := by
  refine ⟨?_, ?_⟩
  · intro a ha
    rw [hf.answered] at ha
    cases ha
  · refine allSteps_of_invariant ?_ ?_ hok (sound_fresh hf)
    · intro s a s' h hhonest hs
      exact (after_step hs hhonest h).1
    · intro s a hhonest hs s' h
      exact (after_step hs hhonest h).2

/-- A buffer of `length` bytes under handle 1 of env 1, that can be resized. -/
def resizable (length : ℕ) : Heap where
  length := fun _ => length
  values := fun env handle => if env = 1 ∧ handle = 1 then some ⟨0, .buffer⟩ else none

/-- Native code asks for the buffer's data. -/
theorem pointers_valid_once :
    AllStates step PointersValid { heap := resizable 8 }
      [.enterCallback, .info 1 1 (some 64) (some 1)] ∧
    (run step { heap := resizable 8 } [.enterCallback, .info 1 1 (some 64) (some 1)]).map
      State.answered = some (some ⟨1, ⟨0, .buffer⟩, 0, 8, 64⟩) := by
  refine ⟨pointers_valid ⟨rfl, rfl, rfl, rfl, rfl, rfl, rfl⟩ ⟨trivial, ?_⟩, by decide⟩
  intro s hs
  cases hs
  refine ⟨?_, fun _ _ => trivial⟩
  intro v hv
  obtain rfl : ⟨0, .buffer⟩ = v := Option.some.inj hv
  refine ⟨by decide, by decide, ?_, fun _ => rfl⟩
  intro _ store id hid
  cases hid

/-- A script makes the buffer longer between two calls. -/
def resized : List Act :=
  [.enterCallback, .info 1 1 (some 64) (some 1), .enterScript, .script (resizable 16) fun _ => 0,
    .leaveScript 2]

/-- The second call is told of sixteen bytes, and is handed the block of eight. -/
theorem short_block_handed_out :
    ∃ s t, run step { heap := resizable 8 } resized = some s ∧
      (resolveOrCopyHostDataToGuest s 1 1 (packToken 1 0) ⟨0, .buffer⟩ 16 (some 128) (some 2)).1 =
        some 64 ∧
      step s (.info 1 1 (some 128) (some 2)) = some t ∧
      t.answered = some ⟨1, ⟨0, .buffer⟩, 0, 16, 64⟩ ∧ ¬ PointersValid t := by
  have hrun : ((run step { heap := resizable 8 } resized).bind fun s =>
      (step s (.info 1 1 (some 128) (some 2))).map fun t =>
        ((resolveOrCopyHostDataToGuest s 1 1 (packToken 1 0) ⟨0, .buffer⟩ 16 (some 128) (some 2)).1,
          t.answered, t.hostBufferCopies.map HostBufferCopy.byteLen,
          t.hostBufferCopies.map HostBufferCopy.start, t.guestMemory 0)) =
      some (some 64, some ⟨1, ⟨0, .buffer⟩, 0, 16, 64⟩, [8], [0], false) := by decide
  obtain ⟨s, hs, hrun⟩ := Option.bind_eq_some_iff.mp hrun
  obtain ⟨t, ht, heq⟩ := Option.map_eq_some_iff.mp hrun
  simp only [Prod.mk.injEq] at heq
  obtain ⟨hptr, hanswered, hlen, hstart, hmemory⟩ := heq
  refine ⟨s, t, hs, hptr, ht, hanswered, ?_⟩
  intro hvalid
  rcases hvalid _ hanswered with ⟨hzero, _⟩ | ⟨hmem, _⟩ | ⟨m, hm, hreach, _⟩
  · cases hzero
  · rw [hmemory] at hmem
    cases hmem
  · have h₁ : m.byteLen ∈ t.hostBufferCopies.map HostBufferCopy.byteLen := List.mem_map_of_mem hm
    have h₂ : m.start ∈ t.hostBufferCopies.map HostBufferCopy.start := List.mem_map_of_mem hm
    rw [hlen, mem_singleton] at h₁
    rw [hstart, mem_singleton] at h₂
    have hstop := hreach.stop
    rw [h₁, h₂] at hstop
    exact absurd hstop (by decide)

end WasmerNapi.HostJs.Buffers
