import WasmerNapi.HostJs.Buffers
import WasmerNapi.Lib.Span

/-!
# The pool of guest buffers

A block of guest memory that the host needs comes from `guest_buffer_pool`, or from the guest's
`malloc` when the pool has none that is large enough. While it is in use its capacity is in
`guest_buffer_capacities`; a block that is recycled moves to the pool with that capacity, and one
that is forgotten is in neither and stays the guest's.

`recycle` and `forget` take any pointer, and leases are discarded whatever pointer they have, so
nothing is assumed of the callers. What is assumed is a `malloc` that answers with a block of its
own: `Fresh`.
-/

namespace WasmerNapi.HostJs.Buffers

open Run

/-! ## The calls that allocate -/

/-- `write_guest_bytes`, into a memory of `size` bytes. -/
def writeGuestBytes (s : State) (size ptr n : ℕ) (bytes : ℕ → UInt8) : Bool × State :=
  if ptr + n ≤ size then (true, s.writeGuest ptr n bytes) else (false, s)

def allocateGuestBytes (s : State) (data : List UInt8) (malloc : Option ℕ) (size : ℕ) :
    Option ℕ × State :=
  match allocateGuestBuffer s data.length malloc with
  | none => (none, s)
  | some (ptr, s₁) =>
    if data = [] then (some ptr, s₁)
    else
      let w := writeGuestBytes s₁ size ptr data.length fun i => data.getD i 0
      if w.1 = true then (some ptr, w.2) else (none, recycleGuestAllocation w.2 ptr)

def zeroChunk : ℕ := 64 * 1024

/-- The loop that zeroes a block chunk by chunk, from `written` on. It stops at the first chunk
    that is not in the memory. -/
def zeroGuestBytes (size ptr byteLen : ℕ) (s : State) (written : ℕ) : Bool × State :=
  if written < byteLen then
    let chunk := min (byteLen - written) zeroChunk
    let w := writeGuestBytes s size (ptr + written) chunk fun _ => 0
    if w.1 = true then zeroGuestBytes size ptr byteLen w.2 (written + chunk) else (false, w.2)
  else (true, s)
termination_by byteLen - written
decreasing_by
  have : 0 < zeroChunk := by decide
  omega

def allocateZeroedGuestBytes (s : State) (byteLen : ℕ) (malloc : Option ℕ) (size : ℕ) :
    Option ℕ × State :=
  match allocateGuestBuffer s byteLen malloc with
  | none => (none, s)
  | some (ptr, s₁) =>
    let w := zeroGuestBytes size ptr byteLen s₁ 0
    if w.1 = true then (some ptr, w.2) else (none, recycleGuestAllocation w.2 ptr)

/-- One turn of the loop of `discard_buffer_leases_for_env`. -/
def discardLease (s : State) (id : ℕ × ℕ) : State :=
  match s.hostBufferLeases.lookup id with
  | none => s
  | some lease =>
    let s₁ := { s with hostBufferLeases := s.hostBufferLeases.erase id }
    if lease.guestPtr ≠ 0 then recycleGuestAllocation s₁ lease.guestPtr else s₁

/-- The leases of an env. A hash map lists its keys in any order. -/
def State.leaseIds (s : State) (env : ℕ) : List (ℕ × ℕ) :=
  s.hostBufferLeases.keys.filter fun id => id.1 == env

def discardBufferLeases (s : State) (ids : List (ℕ × ℕ)) : State := ids.foldl discardLease s

/-- A pool entry that is large enough, if `bestFit` found one. -/
theorem bestFit_spec {required index : ℕ} {pool : List (ℕ × ℕ)}
    (h : bestFit required pool = some index) : ∃ b, pool[index]? = some b ∧ required ≤ b.2 := by
  simp only [bestFit, Option.map_eq_some_iff] at h
  obtain ⟨entry, hmin, rfl⟩ := h
  have hmem := List.argmin_mem hmin
  obtain ⟨hin, hfit⟩ := List.mem_filter.mp hmem
  exact ⟨entry.1, List.mem_zipIdx_iff_getElem?.mp hin, by simpa using hfit⟩

theorem le_requiredCapacity (byteLen : ℕ) : byteLen ≤ requiredCapacity byteLen := by
  unfold requiredCapacity
  split_ifs
  · exact le_max_left ..
  · exact (le_max_left byteLen 1).trans (Nat.le_pow_clog (by norm_num) _)

/-! ## Runs -/

namespace Pool

/-- A block of guest memory: its address and its size. -/
abbrev Block := ℕ × ℕ

def span (b : Block) : Span := ⟨b.1, b.2⟩

/-- `mallocs` is what the guest's `malloc` has returned and the guest has not freed, each block with
    the size that was asked for. The program does not know it. -/
structure World where
  state : State := {}
  mallocs : List Block := []

inductive Act where
  | allocate (byteLen : ℕ) (malloc : Option ℕ)
  | allocateBytes (data : List UInt8) (malloc : Option ℕ) (size : ℕ)
  | allocateZeroed (byteLen : ℕ) (malloc : Option ℕ) (size : ℕ)
  | recycle (ptr : ℕ)
  | forget (ptr : ℕ)
  /-- A lease is recorded, whatever its pointer. -/
  | lease (id : ℕ × ℕ) (lease : HostBufferLease)
  | discardLeases (env : ℕ) (ids : List (ℕ × ℕ))
  /-- The guest frees a block that is its own. -/
  | free (ptr : ℕ)

/-- How many bytes are asked for, and what `malloc` answers if it is called. -/
def Act.request : Act → Option (ℕ × Option ℕ)
  | .allocate byteLen malloc | .allocateZeroed byteLen malloc _ => some (byteLen, malloc)
  | .allocateBytes data malloc _ => some (data.length, malloc)
  | _ => none

/-- The block that comes from `malloc`, if one does. -/
def mallocked (s : State) (byteLen : ℕ) (malloc : Option ℕ) : Option Block :=
  if (bestFit (requiredCapacity byteLen) s.guestBufferPool).isSome = true ∨
      2 ^ 32 ≤ requiredCapacity byteLen then none
  else malloc.map fun ptr => (ptr, requiredCapacity byteLen)

def Act.mallocked (s : State) (act : Act) : Option Block :=
  act.request.bind fun request => Pool.mallocked s request.1 request.2

/-- A block inside the address space that overlaps none there is. -/
def Fresh (b : Block) (blocks : List Block) : Prop :=
  0 < b.1 ∧ b.1 + b.2 ≤ 2 ^ 32 ∧ ∀ c ∈ blocks, b.1 + b.2 ≤ c.1 ∨ c.1 + c.2 ≤ b.1

instance (b : Block) (blocks : List Block) : Decidable (Fresh b blocks) :=
  inferInstanceAs (Decidable (_ ∧ _ ∧ ∀ c ∈ blocks, _ ∨ _))

/-- What the guest and the tables the program has allow. -/
def World.allows (w : World) : Act → Bool
  | .discardLeases env ids => decide (ids.Perm (w.state.leaseIds env))
  | .free ptr =>
    (w.state.guestBufferCapacities ptr).isNone &&
      w.state.guestBufferPool.all fun b => b.1 != ptr
  | act => (act.mallocked w.state).all fun b => decide (Fresh b w.mallocs)

/-- The pointer that is handed out, and the state after the call. -/
def perform (s : State) : Act → Option ℕ × State
  | .allocate byteLen malloc =>
    match allocateGuestBuffer s byteLen malloc with
    | none => (none, s)
    | some (ptr, s₁) => (some ptr, s₁)
  | .allocateBytes data malloc size => allocateGuestBytes s data malloc size
  | .allocateZeroed byteLen malloc size => allocateZeroedGuestBytes s byteLen malloc size
  | .recycle ptr => (none, recycleGuestAllocation s ptr)
  | .forget ptr => (none, forgetGuestAllocation s ptr)
  | .lease id l => (none, { s with hostBufferLeases := s.hostBufferLeases.insert id l })
  | .discardLeases _ ids => (none, discardBufferLeases s ids)
  | .free _ => (none, s)

/-- What `malloc` has returned after a step. -/
def World.blocks (w : World) : Act → List Block
  | .free ptr => w.mallocs.filter fun b => b.1 != ptr
  | act => (act.mallocked w.state).toList ++ w.mallocs

def step (w : World) (act : Act) : Option World :=
  if w.allows act = true then
    some { state := (perform w.state act).2, mallocs := w.blocks act }
  else none

/-! ## What the tables hold -/

/-- The block is pooled, or in use with this capacity. -/
def holds (s : State) (b : Block) : Prop :=
  b ∈ s.guestBufferPool ∨ s.guestBufferCapacities b.1 = some b.2

/-- No block is twice in the pool, or in the pool and in use; each is one of `blocks`, which do not
    overlap. -/
structure Sound (s : State) (blocks : List Block) : Prop where
  nodup : (s.guestBufferPool.map Prod.fst).Nodup
  pooled : ∀ b ∈ s.guestBufferPool, s.guestBufferCapacities b.1 = none
  asked : ∀ b, holds s b → b ∈ blocks
  positive : ∀ b ∈ blocks, 0 < b.1 ∧ 0 < b.2
  apart : blocks.Pairwise fun b c => (span b).Apart (span c)

variable {s t : State} {blocks : List Block} {new : Option Block} {b : Block} {byteLen ptr : ℕ}
  {malloc : Option ℕ}

instance : Std.Symm fun b c : Block => (span b).Apart (span c) := ⟨fun _ _ h => h.symm⟩

/-- Two blocks that are held do not overlap. -/
theorem Sound.apart_of_holds (h : Sound s blocks) {c : Block} (hb : holds s b) (hc : holds s c)
    (hne : b ≠ c) : (span b).Apart (span c) :=
  h.apart.forall (h.asked b hb) (h.asked c hc) hne

/-- Nothing else of a state matters here. -/
theorem Sound.congr (h : Sound s blocks) (hpool : t.guestBufferPool = s.guestBufferPool)
    (hcap : t.guestBufferCapacities = s.guestBufferCapacities) : Sound t blocks where
  nodup := hpool ▸ h.nodup
  pooled := by
    rw [hpool, hcap]
    exact h.pooled
  asked c hc := by
    unfold holds at hc
    rw [hpool, hcap] at hc
    exact h.asked c hc
  positive := h.positive
  apart := h.apart

theorem Fresh.apart (h : Fresh b blocks) : ∀ c ∈ blocks, (span b).Apart (span c) := by
  intro c hc
  rcases h.2.2 c hc with hle | hle
  · exact Span.apart_of_stop_le (s := span b) (t := span c) hle
  · exact (Span.apart_of_stop_le (s := span c) (t := span b) hle).symm

/-- A block of its own has an address of its own. -/
theorem Fresh.ne (h : Fresh b blocks) (hpos : 0 < b.2) {c : Block} (hc : c ∈ blocks)
    (hcpos : 0 < c.2) : b.1 ≠ c.1 := by
  intro heq
  have := h.2.2 c hc
  omega

/-! ### A block is taken -/

/-- `b` is in use, and was pooled or is what `malloc` has returned. -/
structure Took (s t : State) (new : Option Block) (b : Block) : Prop where
  pool : (b :: t.guestBufferPool).Perm (new.toList ++ s.guestBufferPool)
  capacities : t.guestBufferCapacities = Function.update s.guestBufferCapacities b.1 (some b.2)

theorem allocate_took (h : allocateGuestBuffer s byteLen malloc = some (ptr, t)) :
    ∃ capacity, byteLen ≤ capacity ∧ Took s t (mallocked s byteLen malloc) (ptr, capacity) := by
  unfold allocateGuestBuffer at h
  unfold mallocked
  cases hfit : bestFit (requiredCapacity byteLen) s.guestBufferPool with
  | some index =>
    obtain ⟨b, hb, hlarge⟩ := bestFit_spec hfit
    simp only [hfit, hb, Option.map_some, Option.some.injEq, Prod.mk.injEq] at h
    obtain ⟨rfl, rfl⟩ := h
    refine ⟨b.2, (le_requiredCapacity byteLen).trans hlarge, ?_, rfl⟩
    exact Vec.cons_swapRemove_perm hb
  | none =>
    simp only [hfit] at h
    split_ifs at h with hsize
    cases malloc with
    | none => cases h
    | some ptr' =>
      simp only [Option.map_some, Option.some.injEq, Prod.mk.injEq] at h
      obtain ⟨rfl, rfl⟩ := h
      refine ⟨_, le_requiredCapacity byteLen, ?_, rfl⟩
      rw [if_neg (not_or.mpr ⟨Bool.noConfusion, hsize⟩)]
      exact List.Perm.refl _

/-- A failed allocation has had no block from `malloc`. -/
theorem allocate_none (h : allocateGuestBuffer s byteLen malloc = none) :
    mallocked s byteLen malloc = none := by
  unfold allocateGuestBuffer at h
  unfold mallocked
  cases hfit : bestFit (requiredCapacity byteLen) s.guestBufferPool with
  | some index => exact if_pos (Or.inl rfl)
  | none =>
    simp only [hfit] at h
    split_ifs at h with hsize
    · exact if_pos (Or.inr hsize)
    · rw [Option.map_eq_none_iff.mp h]
      exact ite_self none

theorem requiredCapacity_pos (byteLen : ℕ) : 0 < requiredCapacity byteLen := by
  unfold requiredCapacity
  split_ifs
  · omega
  · exact Nat.two_pow_pos _

theorem mallocked_pos (h : mallocked s byteLen malloc = some b) : 0 < b.2 := by
  unfold mallocked at h
  split_ifs at h
  obtain ⟨ptr, rfl, rfl⟩ := Option.map_eq_some_iff.mp h
  exact requiredCapacity_pos byteLen

/-- A new block is of the guest's own making and is not empty. -/
def Supplied (new : Option Block) (blocks : List Block) : Prop :=
  ∀ b, new = some b → Fresh b blocks ∧ 0 < b.2

/-- The blocks there are, with a new one. -/
theorem Sound.grow (hs : Sound s blocks) (hnew : Supplied new blocks) :
    Sound s (new.toList ++ blocks) := by
  cases new with
  | none => exact hs
  | some c =>
    obtain ⟨hfresh, hpos⟩ := hnew c rfl
    refine ⟨hs.nodup, hs.pooled, ?_, ?_, ?_⟩
    · intro d hd
      exact List.mem_cons_of_mem _ (hs.asked d hd)
    · intro d hd
      rcases List.mem_cons.mp hd with rfl | hd
      · exact ⟨hfresh.1, hpos⟩
      · exact hs.positive d hd
    · exact List.pairwise_cons.mpr ⟨hfresh.apart, hs.apart⟩

/-- `malloc` does not return a block that is in use. -/
theorem Sound.fresh_unused (hs : Sound s blocks) (hfresh : Fresh b blocks) (hpos : 0 < b.2) :
    s.guestBufferCapacities b.1 = none := by
  cases hcap : s.guestBufferCapacities b.1 with
  | none => rfl
  | some capacity =>
    have hmem : (b.1, capacity) ∈ blocks := hs.asked (b.1, capacity) (Or.inr hcap)
    have hne : b.1 ≠ b.1 := hfresh.ne (c := (b.1, capacity)) hpos hmem (hs.positive _ hmem).2
    exact absurd rfl hne

/-- What is taken was not in use. -/
theorem Sound.unused (hs : Sound s blocks) (hnew : Supplied new blocks) (h : Took s t new b) :
    s.guestBufferCapacities b.1 = none := by
  rcases List.mem_append.mp (h.pool.subset (List.mem_cons_self ..)) with hb | hb
  · obtain ⟨hfresh, hpos⟩ := hnew b (Option.mem_toList.mp hb)
    exact hs.fresh_unused hfresh hpos
  · exact hs.pooled b hb

/-- The addresses of the pool and of the new block. -/
theorem Sound.nodup_new (hs : Sound s blocks) (hnew : Supplied new blocks) :
    ((new.toList ++ s.guestBufferPool).map Prod.fst).Nodup := by
  cases new with
  | none => exact hs.nodup
  | some c =>
    obtain ⟨hfresh, hpos⟩ := hnew c rfl
    refine List.nodup_cons.mpr ⟨?_, hs.nodup⟩
    intro hmem
    obtain ⟨d, hd, heq⟩ := List.mem_map.mp hmem
    have hdb := hs.asked d (Or.inl hd)
    exact hfresh.ne hpos hdb (hs.positive d hdb).2 heq.symm

theorem Sound.take (hs : Sound s blocks) (hnew : Supplied new blocks) (h : Took s t new b) :
    Sound t (new.toList ++ blocks) := by
  have hgrow := hs.grow hnew
  have hnodup : ((b :: t.guestBufferPool).map Prod.fst).Nodup :=
    (h.pool.map Prod.fst).nodup_iff.mpr (hs.nodup_new hnew)
  rw [List.map_cons, List.nodup_cons] at hnodup
  have hpooled : ∀ c ∈ t.guestBufferPool, c ∈ new.toList ++ s.guestBufferPool :=
    fun c hc => h.pool.subset (List.mem_cons_of_mem _ hc)
  have hfrom : ∀ c ∈ new.toList ++ s.guestBufferPool, c ∈ new.toList ++ blocks := by
    intro c hc
    rcases List.mem_append.mp hc with hc | hc
    · exact List.mem_append_left _ hc
    · exact List.mem_append_right _ (hs.asked c (Or.inl hc))
  refine ⟨hnodup.2, ?_, ?_, hgrow.positive, hgrow.apart⟩
  · intro c hc
    have hne : c.1 ≠ b.1 := fun heq => hnodup.1 (List.mem_map.mpr ⟨c, hc, heq⟩)
    rw [h.capacities, Function.update_of_ne hne]
    rcases List.mem_append.mp (hpooled c hc) with hc | hc
    · obtain ⟨hfresh, hpos⟩ := hnew c (Option.mem_toList.mp hc)
      exact hs.fresh_unused hfresh hpos
    · exact hs.pooled c hc
  · rintro c (hc | hc)
    · exact hfrom c (hpooled c hc)
    · rw [h.capacities] at hc
      by_cases heq : c.1 = b.1
      · rw [heq, Function.update_self] at hc
        have hcb : c = b := Prod.ext heq (Option.some.inj hc).symm
        rw [hcb]
        exact hfrom b (h.pool.subset (List.mem_cons_self ..))
      · rw [Function.update_of_ne heq] at hc
        exact hgrow.asked c (Or.inr hc)

/-! ### A block is given back -/

theorem capacities_forget (s : State) (ptr addr : ℕ) :
    (forgetGuestAllocation s ptr).guestBufferCapacities addr =
      if addr = ptr then none else s.guestBufferCapacities addr :=
  Function.update_apply ..

theorem Sound.forget (hs : Sound s blocks) (ptr : ℕ) :
    Sound (forgetGuestAllocation s ptr) blocks where
  nodup := hs.nodup
  pooled c hc := by
    rw [capacities_forget, hs.pooled c hc]
    exact ite_self none
  asked c hc := by
    refine hs.asked c (hc.imp_right ?_)
    intro hcap
    rw [capacities_forget] at hcap
    split_ifs at hcap
    exact hcap
  positive := hs.positive
  apart := hs.apart

theorem Sound.recycle (hs : Sound s blocks) (ptr : ℕ) :
    Sound (recycleGuestAllocation s ptr) blocks := by
  unfold recycleGuestAllocation
  cases hcap : s.guestBufferCapacities ptr with
  | none => exact hs
  | some capacity =>
    have hforget := hs.forget ptr
    have hnone : (forgetGuestAllocation s ptr).guestBufferCapacities ptr = none := by
      rw [capacities_forget, if_pos rfl]
    refine ⟨?_, ?_, ?_, hs.positive, hs.apart⟩
    · -- A block that is in use is not pooled.
      rw [List.map_append, List.map_singleton]
      refine hs.nodup.append (List.nodup_singleton _) ?_
      intro addr hpool haddr
      obtain ⟨c, hc, rfl⟩ := List.mem_map.mp hpool
      have := hs.pooled c hc
      rw [List.mem_singleton.mp haddr, hcap] at this
      cases this
    · intro c hc
      rcases List.mem_append.mp hc with hc | hc
      · exact hforget.pooled c hc
      · rw [List.mem_singleton.mp hc]
        exact hnone
    · rintro c (hc | hc)
      · rcases List.mem_append.mp hc with hc | hc
        · exact hs.asked c (Or.inl hc)
        · rw [List.mem_singleton.mp hc]
          exact hs.asked (ptr, capacity) (Or.inr hcap)
      · exact hforget.asked c (Or.inr hc)

/-- A block that is recycled as soon as it is taken goes to the pool, once. -/
theorem Took.recycle (h : Took s t new b) (hunused : s.guestBufferCapacities b.1 = none) :
    (recycleGuestAllocation t b.1).guestBufferPool.Perm (new.toList ++ s.guestBufferPool) ∧
      (recycleGuestAllocation t b.1).guestBufferCapacities = s.guestBufferCapacities := by
  have hcap : t.guestBufferCapacities b.1 = some b.2 := by
    rw [h.capacities]
    exact Function.update_self ..
  unfold recycleGuestAllocation
  rw [hcap]
  refine ⟨(List.perm_append_singleton ..).trans h.pool, ?_⟩
  dsimp only
  rw [h.capacities, Function.update_idem, ← hunused, Function.update_eq_self]

/-- The blocks at `ptrs` that were in use are in the pool, with the capacities they had. -/
structure Returned (s t : State) (ptrs : List ℕ) : Prop where
  pool : ∀ b, b ∈ t.guestBufferPool ↔
    b ∈ s.guestBufferPool ∨ b.1 ∈ ptrs ∧ s.guestBufferCapacities b.1 = some b.2
  capacities : ∀ addr, t.guestBufferCapacities addr =
    if addr ∈ ptrs then none else s.guestBufferCapacities addr

theorem Returned.refl (s : State) : Returned s s [] := ⟨by simp, by simp⟩

theorem Returned.trans {u : State} {ps qs : List ℕ} (h : Returned s t ps) (h' : Returned t u qs) :
    Returned s u (ps ++ qs) where
  pool b := by
    rw [h'.pool, h.pool, h.capacities, List.mem_append]
    by_cases hb : b.1 ∈ ps
    · simp [hb]
    · simp [hb]
  capacities addr := by
    rw [h'.capacities, h.capacities]
    by_cases hp : addr ∈ ps
    · simp [hp]
    · simp [hp]

theorem returned_recycle (s : State) (ptr : ℕ) :
    Returned s (recycleGuestAllocation s ptr) [ptr] := by
  unfold recycleGuestAllocation
  cases hcap : s.guestBufferCapacities ptr with
  | none =>
    refine ⟨fun b => ?_, fun addr => ?_⟩
    · refine (or_iff_left ?_).symm
      rintro ⟨hb, hsome⟩
      rw [List.mem_singleton.mp hb, hcap] at hsome
      cases hsome
    · split_ifs with haddr
      · rw [List.mem_singleton.mp haddr, hcap]
      · rfl
  | some capacity =>
    refine ⟨fun b => ?_, fun addr => ?_⟩
    · rw [List.mem_append, List.mem_singleton, List.mem_singleton]
      refine or_congr_right ⟨?_, ?_⟩
      · rintro rfl
        exact ⟨rfl, hcap⟩
      · rintro ⟨hb, hsome⟩
        rw [hb, hcap] at hsome
        exact Prod.ext hb (Option.some.inj hsome).symm
    · simp only [List.mem_singleton]
      exact capacities_forget s ptr addr

/-- Where the block of a lease is, if it has one. -/
def leased (s : State) (id : ℕ × ℕ) : List ℕ :=
  ((s.hostBufferLeases.lookup id).map HostBufferLease.guestPtr).toList.filter fun ptr => ptr ≠ 0

theorem returned_discardLease (s : State) (id : ℕ × ℕ) :
    Returned s (discardLease s id) (leased s id) ∧
      ∀ id', id' ≠ id → leased (discardLease s id) id' = leased s id' := by
  unfold Buffers.discardLease leased
  cases hl : s.hostBufferLeases.lookup id with
  | none => exact ⟨.refl s, fun _ _ => rfl⟩
  | some lease =>
    have herased : ∀ id', id' ≠ id →
        (s.hostBufferLeases.erase id).lookup id' = s.hostBufferLeases.lookup id' :=
      fun id' hne => AList.lookup_erase_ne hne
    dsimp only
    by_cases hptr : lease.guestPtr ≠ 0
    · rw [if_pos hptr]
      constructor
      · have hone : (Option.map HostBufferLease.guestPtr (some lease)).toList.filter
            (fun ptr => ptr ≠ 0) = [lease.guestPtr] := by simp [hptr]
        rw [hone]
        obtain ⟨hpool, hcap⟩ :=
          returned_recycle { s with hostBufferLeases := s.hostBufferLeases.erase id } lease.guestPtr
        exact ⟨hpool, hcap⟩
      · intro id' hne
        have hsame : (recycleGuestAllocation { s with
            hostBufferLeases := s.hostBufferLeases.erase id } lease.guestPtr).hostBufferLeases =
            s.hostBufferLeases.erase id := by
          unfold recycleGuestAllocation
          split <;> rfl
        rw [hsame, herased id' hne]
    · rw [if_neg hptr]
      constructor
      · have hnone : (Option.map HostBufferLease.guestPtr (some lease)).toList.filter
            (fun ptr => ptr ≠ 0) = [] := by simp [not_not.mp hptr]
        rw [hnone]
        exact ⟨by simp, by simp⟩
      · intro id' hne
        rw [herased id' hne]

theorem returned_discardBufferLeases {ids : List (ℕ × ℕ)} (hnodup : ids.Nodup) (s : State) :
    Returned s (discardBufferLeases s ids) (ids.flatMap (leased s)) := by
  induction ids generalizing s with
  | nil => exact .refl s
  | cons id ids ih =>
    obtain ⟨hnew, hnodup⟩ := List.nodup_cons.mp hnodup
    obtain ⟨hfirst, hothers⟩ := returned_discardLease s id
    have hrest := ih hnodup (Buffers.discardLease s id)
    have hsame : ids.flatMap (leased (Buffers.discardLease s id)) = ids.flatMap (leased s) :=
      List.flatMap_congr fun id' hid => hothers id' fun heq => hnew (heq ▸ hid)
    rw [hsame] at hrest
    exact hfirst.trans hrest

theorem Sound.discardLease (hs : Sound s blocks) (id : ℕ × ℕ) :
    Sound (discardLease s id) blocks := by
  unfold Buffers.discardLease
  cases s.hostBufferLeases.lookup id with
  | none => exact hs
  | some lease =>
    have herased : Sound { s with hostBufferLeases := s.hostBufferLeases.erase id } blocks :=
      hs.congr rfl rfl
    dsimp only
    split_ifs
    · exact herased.recycle _
    · exact herased

theorem Sound.discardBufferLeases (hs : Sound s blocks) (ids : List (ℕ × ℕ)) :
    Sound (discardBufferLeases s ids) blocks := by
  induction ids generalizing s with
  | nil => exact hs
  | cons id ids ih => exact ih (hs.discardLease id)

/-! ### Writes -/

/-- What a write leaves alone. -/
structure SameTables (s t : State) : Prop where
  pool : t.guestBufferPool = s.guestBufferPool
  capacities : t.guestBufferCapacities = s.guestBufferCapacities

theorem writeGuestBytes_same (s : State) (size ptr n : ℕ) (bytes : ℕ → UInt8) :
    SameTables s (writeGuestBytes s size ptr n bytes).2 := by
  unfold writeGuestBytes
  split_ifs <;> exact ⟨rfl, rfl⟩

theorem zeroGuestBytes_same (size ptr byteLen : ℕ) (s : State) (written : ℕ) :
    SameTables s (zeroGuestBytes size ptr byteLen s written).2 := by
  induction s, written using zeroGuestBytes.induct size ptr byteLen with
  | case1 s written hlt chunk w hok ih =>
    have hw : SameTables s w.2 := writeGuestBytes_same ..
    rw [zeroGuestBytes, if_pos hlt]
    dsimp only
    rw [if_pos hok]
    exact ⟨ih.pool.trans hw.pool, ih.capacities.trans hw.capacities⟩
  | case2 s written hlt chunk w hok =>
    rw [zeroGuestBytes, if_pos hlt]
    dsimp only
    rw [if_neg hok]
    exact writeGuestBytes_same ..
  | case3 s written hge =>
    rw [zeroGuestBytes, if_neg hge]
    exact ⟨rfl, rfl⟩

theorem Took.same {t' : State} (h : Took s t new b) (hsame : SameTables t t') : Took s t' new b where
  pool := hsame.pool.symm ▸ h.pool
  capacities := hsame.capacities.trans h.capacities

/-! ## Steps -/

/-- A failed call leaves nothing in use that was not, and a block it had is in the pool, once. -/
structure Refused (s t : State) (new : Option Block) : Prop where
  pool : t.guestBufferPool.Perm (new.toList ++ s.guestBufferPool)
  capacities : t.guestBufferCapacities = s.guestBufferCapacities

theorem refused_self (s : State) : Refused s s none := ⟨List.Perm.refl _, rfl⟩

/-- A call that allocates has handed out a block that it took, or has given it back. -/
theorem perform_cases {act : Act} (hs : Sound s blocks) (hnew : Supplied (act.mallocked s) blocks)
    (hreq : act.request = some (byteLen, malloc)) :
    (∃ ptr capacity, (perform s act).1 = some ptr ∧ byteLen ≤ capacity ∧
      Took s (perform s act).2 (act.mallocked s) (ptr, capacity)) ∨
    ((perform s act).1 = none ∧ Refused s (perform s act).2 (act.mallocked s)) := by
  have hmallocked : act.mallocked s = mallocked s byteLen malloc := by
    rw [Act.mallocked, hreq]
    rfl
  rw [hmallocked] at hnew ⊢
  cases halloc : allocateGuestBuffer s byteLen malloc with
  | none =>
    right
    rw [allocate_none halloc]
    cases act with
    | allocate n m =>
      cases hreq
      rw [perform, halloc]
      exact ⟨rfl, refused_self s⟩
    | allocateBytes data m size =>
      cases hreq
      rw [perform, allocateGuestBytes, halloc]
      exact ⟨rfl, refused_self s⟩
    | allocateZeroed n m size =>
      cases hreq
      rw [perform, allocateZeroedGuestBytes, halloc]
      exact ⟨rfl, refused_self s⟩
    | recycle | forget | lease | discardLeases | free => cases hreq
  | some answer =>
    obtain ⟨ptr, s₁⟩ := answer
    obtain ⟨capacity, hcapacity, htook⟩ := allocate_took halloc
    have hunused := hs.unused hnew htook
    -- On an error path the block is recycled after the writes.
    have hrecycled : ∀ s₂, SameTables s₁ s₂ →
        Refused s (recycleGuestAllocation s₂ ptr) (mallocked s byteLen malloc) := by
      intro s₂ hsame
      obtain ⟨hpool, hcap⟩ := (htook.same hsame).recycle hunused
      exact ⟨hpool, hcap⟩
    cases act with
    | allocate n m =>
      cases hreq
      rw [perform, halloc]
      exact Or.inl ⟨ptr, capacity, rfl, hcapacity, htook⟩
    | allocateBytes data m size =>
      cases hreq
      rw [perform, allocateGuestBytes, halloc]
      dsimp only
      split_ifs
      · exact Or.inl ⟨ptr, capacity, rfl, hcapacity, htook⟩
      · exact Or.inl ⟨ptr, capacity, rfl, hcapacity, htook.same (writeGuestBytes_same ..)⟩
      · exact Or.inr ⟨rfl, hrecycled _ (writeGuestBytes_same ..)⟩
    | allocateZeroed n m size =>
      cases hreq
      rw [perform, allocateZeroedGuestBytes, halloc]
      dsimp only
      split_ifs
      · exact Or.inl ⟨ptr, capacity, rfl, hcapacity, htook.same (zeroGuestBytes_same ..)⟩
      · exact Or.inr ⟨rfl, hrecycled _ (zeroGuestBytes_same ..)⟩
    | recycle | forget | lease | discardLeases | free => cases hreq

theorem Refused.sound (h : Refused s t new) (hs : Sound s blocks) (hnew : Supplied new blocks) :
    Sound t (new.toList ++ blocks) := by
  have hgrow := hs.grow hnew
  refine ⟨(h.pool.map Prod.fst).nodup_iff.mpr (hs.nodup_new hnew), ?_, ?_, hgrow.positive,
    hgrow.apart⟩
  · intro c hc
    rw [h.capacities]
    rcases List.mem_append.mp (h.pool.subset hc) with hc | hc
    · obtain ⟨hfresh, hpos⟩ := hnew c (Option.mem_toList.mp hc)
      exact hs.fresh_unused hfresh hpos
    · exact hs.pooled c hc
  · rintro c (hc | hc)
    · rcases List.mem_append.mp (h.pool.subset hc) with hc | hc
      · exact List.mem_append_left _ hc
      · exact hgrow.asked c (Or.inl hc)
    · rw [h.capacities] at hc
      exact hgrow.asked c (Or.inr hc)

variable {w w' : World} {act : Act} {acts : List Act}

/-- What the guard of a step says of the block from `malloc`. -/
theorem supplied_of_step (hstep : step w act = some w') :
    Supplied (act.mallocked w.state) w.mallocs := by
  intro b hb
  have hpos : 0 < b.2 := by
    obtain ⟨request, -, hb⟩ := Option.bind_eq_some_iff.mp hb
    exact mallocked_pos hb
  unfold step at hstep
  split_ifs at hstep with hallows
  refine ⟨?_, hpos⟩
  cases act with
  | allocate n m =>
    simp only [World.allows, hb, Option.all_some, decide_eq_true_eq] at hallows
    exact hallows
  | allocateBytes data m size =>
    simp only [World.allows, hb, Option.all_some, decide_eq_true_eq] at hallows
    exact hallows
  | allocateZeroed n m size =>
    simp only [World.allows, hb, Option.all_some, decide_eq_true_eq] at hallows
    exact hallows
  | recycle | forget | lease | discardLeases | free => cases hb

theorem step_eq (hstep : step w act = some w') :
    w' = { state := (perform w.state act).2, mallocs := w.blocks act } := by
  unfold step at hstep
  split_ifs at hstep
  exact (Option.some.inj hstep).symm

/-- A step keeps the tables sound: one case for each call. -/
theorem Sound.step (hs : Sound w.state w.mallocs) (hstep : step w act = some w') :
    Sound w'.state w'.mallocs := by
  have hnew := supplied_of_step hstep
  have hallocates : ∀ {byteLen malloc}, act.request = some (byteLen, malloc) →
      Sound (perform w.state act).2 ((act.mallocked w.state).toList ++ w.mallocs) := by
    intro byteLen malloc hreq
    rcases perform_cases hs hnew hreq with ⟨ptr, capacity, -, -, htook⟩ | ⟨-, hrefused⟩
    · exact hs.take hnew htook
    · exact hrefused.sound hs hnew
  have hallows : w.allows act = true := by
    unfold Pool.step at hstep
    split_ifs at hstep with hallows
    exact hallows
  rw [step_eq hstep]
  cases act with
  | allocate | allocateBytes | allocateZeroed => exact hallocates rfl
  | recycle ptr => exact hs.recycle ptr
  | forget ptr => exact hs.forget ptr
  | lease id l => exact hs.congr rfl rfl
  | discardLeases env ids => exact hs.discardBufferLeases ids
  | free ptr =>
    -- The guest's own block is in neither table.
    simp only [World.allows, Bool.and_eq_true, Option.isNone_iff_eq_none, List.all_eq_true,
      bne_iff_ne] at hallows
    refine ⟨hs.nodup, hs.pooled, ?_, fun c hc => hs.positive c (List.mem_of_mem_filter hc),
      hs.apart.filter _⟩
    intro c hc
    refine List.mem_filter.mpr ⟨hs.asked c hc, bne_iff_ne.mpr ?_⟩
    rintro rfl
    rcases hc with hc | hc
    · exact hallows.2 c hc rfl
    · have hsome := hallows.1.symm.trans hc
      cases hsome

/-- What a call did. A block that is handed out was not in use; it is as long as was asked for, its
    capacity is the size it was allocated with, and it overlaps no block that is in use or pooled. A
    call that fails has put the block it took, or had from `malloc`, into the pool, once. What is
    recycled, and the blocks of leases that are discarded, have moved to the pool; what is
    forgotten is in neither table. -/
structure Served (w w' : World) (act : Act) : Prop where
  handed : ∀ byteLen malloc ptr, act.request = some (byteLen, malloc) →
    (perform w.state act).1 = some ptr → w.state.guestBufferCapacities ptr = none ∧
    ∃ capacity, byteLen ≤ capacity ∧ w'.state.guestBufferCapacities ptr = some capacity ∧
      (ptr, capacity) ∈ w'.mallocs ∧
      ∀ b, holds w'.state b → b ≠ (ptr, capacity) → (span (ptr, capacity)).Apart (span b)
  failed : ∀ byteLen malloc, act.request = some (byteLen, malloc) →
    (perform w.state act).1 = none → Refused w.state w'.state (act.mallocked w.state)
  recycled : ∀ ptr, act = .recycle ptr → Returned w.state w'.state [ptr]
  discarded : ∀ env ids, act = .discardLeases env ids →
    Returned w.state w'.state (ids.flatMap (leased w.state))
  forgotten : ∀ ptr, act = .forget ptr → w'.state.guestBufferPool = w.state.guestBufferPool ∧
    ∀ addr, w'.state.guestBufferCapacities addr =
      if addr = ptr then none else w.state.guestBufferCapacities addr

theorem sound_init : Sound {} [] where
  nodup := List.nodup_nil
  pooled b hb := absurd hb List.not_mem_nil
  asked b hb := by
    rcases hb with hb | hb
    · exact hb
    · cases hb
  positive b hb := absurd hb List.not_mem_nil
  apart := List.Pairwise.nil

theorem served (hs : Sound w.state w.mallocs) (hstep : step w act = some w') : Served w w' act := by
  have hnew := supplied_of_step hstep
  have hsound := hs.step hstep
  have hstate : w'.state = (perform w.state act).2 := congrArg World.state (step_eq hstep)
  refine ⟨?_, ?_, ?_, ?_, ?_⟩
  · intro byteLen malloc ptr hreq hptr
    rcases perform_cases hs hnew hreq with ⟨ptr', capacity, hptr', hlen, htook⟩ | ⟨hnone, -⟩
    · obtain rfl := Option.some.inj (hptr.symm.trans hptr')
      have hcap : w'.state.guestBufferCapacities ptr = some capacity := by
        rw [hstate, htook.capacities]
        exact Function.update_self ..
      refine ⟨hs.unused hnew htook, capacity, hlen, hcap, hsound.asked _ (Or.inr hcap), ?_⟩
      intro b hb hne
      exact hsound.apart_of_holds (Or.inr hcap) hb hne.symm
    · rw [hnone] at hptr
      cases hptr
  · intro byteLen malloc hreq hnone
    rcases perform_cases hs hnew hreq with ⟨ptr', capacity, hptr', -⟩ | ⟨-, hrefused⟩
    · rw [hnone] at hptr'
      cases hptr'
    · exact hstate ▸ hrefused
  · rintro ptr rfl
    exact hstate ▸ returned_recycle w.state ptr
  · rintro env ids rfl
    have hperm : ids.Perm (w.state.leaseIds env) := by
      unfold step at hstep
      split_ifs at hstep with hallows
      exact of_decide_eq_true hallows
    have hnodup : ids.Nodup := hperm.nodup_iff.mpr (w.state.hostBufferLeases.keys_nodup.filter _)
    exact hstate ▸ returned_discardBufferLeases hnodup w.state
  · rintro ptr rfl
    rw [hstate]
    exact ⟨rfl, capacities_forget w.state ptr⟩

theorem sound_run (hrun : Run.run step {} acts = some w) : Sound w.state w.mallocs := by
  have hstep : ∀ (v : World) (act : Act) (v' : World), step v act = some v' →
      Sound v.state v.mallocs → Sound v'.state v'.mallocs :=
    fun _ _ _ hstep hs => hs.step hstep
  exact @Run.invariant _ _ {} acts (fun v => Sound v.state v.mallocs) step hstep w hrun sound_init

/-- In every run the pool and the capacities share no block and have none twice, what they hold does
    not overlap, and whatever is called next serves the caller so. -/
theorem pool_unique (hrun : Run.run step {} acts = some w) :
    Sound w.state w.mallocs ∧ ∀ act w', step w act = some w' → Served w w' act :=
  ⟨sound_run hrun, fun _ _ hstep => served (sound_run hrun) hstep⟩

/-- A block of 128 bytes at 64 is allocated, recycled twice and handed out again, by a call whose
    data do not fit in the memory and then by one that zeroes it. -/
def reused : List Act :=
  [.allocate 100 (some 64), .recycle 64, .recycle 64, .allocateBytes [1, 2] none 60,
    .allocateZeroed 90 none 65536]

theorem pool_unique_reused : ∃ w, Run.run step {} reused = some w ∧
    w.state.guestBufferCapacities 64 = some 128 ∧ w.state.guestBufferPool = [] ∧
    Sound w.state w.mallocs ∧ ∀ act w', step w act = some w' → Served w w' act := by
  have hsome : (Run.run step {} reused).isSome = true := by decide
  have hcap : (Run.run step {} reused).bind (fun w => w.state.guestBufferCapacities 64) =
      some 128 := by decide +kernel
  have hpool : (Run.run step {} reused).map (fun w => w.state.guestBufferPool) = some [] := by
    decide +kernel
  obtain ⟨w, hrun⟩ := Option.isSome_iff_exists.mp hsome
  rw [hrun] at hcap hpool
  exact ⟨w, hrun, hcap, Option.some.inj hpool, pool_unique hrun⟩

end Pool

end WasmerNapi.HostJs.Buffers
