import WasmerNapi.GuestHeap.Basic

/-!
# The guest heap's representation

Three tables and a counter have to agree: the chunks the heap has claimed, the `live`
table, the allocator inside each chunk, and `free_bytes`. The link between the first
three is `LiveAlloc.Backed`: an entry is an outstanding allocation of the chunk it names,
at the address that allocation has there. Everything the claims of this file say about
addresses follows from it and from the allocator's laws — two entries are apart because
they sit in chunks that are apart, or in one chunk whose allocator keeps them apart — and
the counter follows from the addresses, by packing.

Towards the guest the argument is another one. A grow returns the previous size, so a
claim starts where the memory ended, above everything anybody held, and whatever is grown
afterwards starts where the claim ended.
-/

namespace WasmerNapi

open Word Run Budget LawfulOffsetAllocator

/-! ## Chunks and entries -/

section Chunks

variable {A : Type}

def Chunk.span (c : Chunk A) : Span := ⟨c.start, c.len⟩

/-- What an entry takes up: the units reserved for it, at its offset. -/
def LiveAlloc.span (l : LiveAlloc) (offset : ℕ) : Span := ⟨offset, l.units * unit⟩

def HeapInner.spans (inner : HeapInner A) : List Span := inner.chunks.map Chunk.span

variable [LawfulOffsetAllocator A]

structure Chunk.Ok (maxBytes : ℕ) (c : Chunk A) : Prop where
  capacity : LawfulOffsetAllocator.capacity c.alloc = c.len / unit
  start_aligned : unit ∣ c.start
  len_aligned : unit ∣ c.len
  bound : c.start + c.len ≤ maxBytes
  len_lt : c.len < 2 ^ 32

structure ChunksOk (maxBytes : ℕ) (chunks : List (Chunk A)) : Prop where
  each : ∀ c ∈ chunks, c.Ok maxBytes
  apart : (chunks.map Chunk.span).Pairwise Span.Apart

/-- An outstanding allocation of the chunk the entry names, where the entry says. -/
structure LiveAlloc.BackedBy (c : Chunk A) (offset : ℕ) (l : LiveAlloc) : Prop where
  held : LawfulOffsetAllocator.held c.alloc l.allocation = some l.units
  offset_eq : offset = c.start + l.allocation.offset * unit
  units_pos : 0 < l.units
  len_le : l.len ≤ l.units * unit

def LiveAlloc.Backed (chunks : List (Chunk A)) (offset : ℕ) (l : LiveAlloc) : Prop :=
  ∃ c, chunks[l.chunkIdx]? = some c ∧ l.BackedBy c offset

variable {maxBytes idx offset offset' : ℕ} {chunks : List (Chunk A)} {c : Chunk A}
  {l l' : LiveAlloc} {a : A}

theorem Chunk.Ok.capacity_mul (h : c.Ok maxBytes) :
    LawfulOffsetAllocator.capacity c.alloc * unit = c.len := by
  rw [h.capacity, Nat.div_mul_cancel h.len_aligned]

theorem LiveAlloc.BackedBy.inside (h : l.BackedBy c offset) (hc : c.Ok maxBytes) :
    (l.span offset).Inside c.span := by
  have hr := Nat.mul_le_mul_right unit (in_range h.held)
  rw [hc.capacity_mul, Nat.add_mul] at hr
  have ho := h.offset_eq
  refine ⟨?_, ?_⟩
  · simp only [Chunk.span, LiveAlloc.span]
    omega
  · simp only [Chunk.span, LiveAlloc.span, Span.stop]
    omega

theorem LiveAlloc.BackedBy.aligned (h : l.BackedBy c offset) (hc : c.Ok maxBytes) :
    unit ∣ offset := by
  rw [h.offset_eq]
  exact (Nat.dvd_add_right hc.start_aligned).mpr (Nat.dvd_mul_left _ _)

/-- Two entries that are not the same allocation do not overlap. -/
theorem LiveAlloc.Backed.apart (hc : ChunksOk maxBytes chunks) (h : l.Backed chunks offset)
    (h' : l'.Backed chunks offset')
    (hne : l.chunkIdx = l'.chunkIdx → l.allocation ≠ l'.allocation) :
    (l.span offset).Apart (l'.span offset') := by
  obtain ⟨c, hi, hb⟩ := h
  obtain ⟨c', hi', hb'⟩ := h'
  have hok := hc.each c (List.mem_of_getElem? hi)
  have hok' := hc.each c' (List.mem_of_getElem? hi')
  by_cases hidx : l.chunkIdx = l'.chunkIdx
  · -- One chunk: its allocator keeps the unit ranges apart.
    obtain rfl : c = c' := by
      rw [hidx, hi'] at hi
      exact (Option.some.inj hi).symm
    have hap := (LawfulOffsetAllocator.apart hb.held hb'.held (hne hidx)).affine c.start unit
    unfold LiveAlloc.span
    rw [hb.offset_eq, hb'.offset_eq]
    exact hap
  · -- Two chunks: the chunks are apart, and each entry is inside its own.
    have hap : c.span.Apart c'.span := by
      obtain ⟨hlt, hget⟩ := List.getElem?_eq_some_iff.mp hi
      obtain ⟨hlt', hget'⟩ := List.getElem?_eq_some_iff.mp hi'
      have hpw := List.pairwise_iff_getElem.mp hc.apart
      have hm : ∀ {i j} (hi : i < chunks.length) (hj : j < chunks.length), i < j →
          (chunks[i].span).Apart (chunks[j].span) := by
        intro i j hi hj hij
        have := hpw i j (by simpa using hi) (by simpa using hj) hij
        simpa using this
      rcases Nat.lt_or_gt_of_ne hidx with hij | hij
      · have := hm hlt hlt' hij
        rwa [hget, hget'] at this
      · have := hm hlt' hlt hij
        rw [hget, hget'] at this
        exact this.symm
    exact hap.mono (hb.inside hok) (hb'.inside hok')

/-! A chunk whose allocator moved on, and a chunk more. -/

theorem ChunksOk.set_alloc (h : ChunksOk maxBytes chunks) (hi : chunks[idx]? = some c)
    (hcap : LawfulOffsetAllocator.capacity a = LawfulOffsetAllocator.capacity c.alloc) :
    ChunksOk maxBytes (chunks.set idx { c with alloc := a }) ∧
      (chunks.set idx { c with alloc := a }).map Chunk.span = chunks.map Chunk.span := by
  have hspan : (chunks.set idx { c with alloc := a }).map Chunk.span = chunks.map Chunk.span := by
    obtain ⟨hlt, -⟩ := List.getElem?_eq_some_iff.mp hi
    apply List.ext_getElem?
    intro i
    rw [List.getElem?_map, List.getElem?_map]
    by_cases hidx : idx = i
    · subst hidx
      rw [List.getElem?_set_self hlt, hi]
      rfl
    · rw [List.getElem?_set_ne hidx]
  refine ⟨⟨?_, ?_⟩, hspan⟩
  · intro c' hc'
    rcases List.mem_or_eq_of_mem_set hc' with hmem | rfl
    · exact h.each c' hmem
    · obtain ⟨hk, hs, hl, hb, hlt⟩ := h.each c (List.mem_of_getElem? hi)
      exact ⟨hcap.trans hk, hs, hl, hb, hlt⟩
  · rw [hspan]
    exact h.apart

theorem LiveAlloc.Backed.set_alloc (h : l.Backed chunks offset) (hi : chunks[idx]? = some c)
    (hheld : l.chunkIdx = idx → LawfulOffsetAllocator.held a l.allocation = some l.units) :
    l.Backed (chunks.set idx { c with alloc := a }) offset := by
  obtain ⟨c', hi', hb⟩ := h
  by_cases hidx : l.chunkIdx = idx
  · obtain rfl : c = c' := by
      rw [hidx, hi] at hi'
      exact Option.some.inj hi'
    obtain ⟨hlt, -⟩ := List.getElem?_eq_some_iff.mp hi
    refine ⟨{ c with alloc := a }, ?_, hheld hidx, hb.offset_eq, hb.units_pos, hb.len_le⟩
    rw [hidx, List.getElem?_set_self hlt]
  · refine ⟨c', ?_, hb⟩
    rw [List.getElem?_set_ne (Ne.symm hidx)]
    exact hi'

theorem ChunksOk.append (h : ChunksOk maxBytes chunks) (hc : c.Ok maxBytes)
    (hap : ∀ s ∈ chunks.map Chunk.span, s.Apart c.span) : ChunksOk maxBytes (chunks ++ [c]) := by
  refine ⟨?_, ?_⟩
  · intro c' hc'
    rcases List.mem_append.mp hc' with hmem | hmem
    · exact h.each c' hmem
    · rw [List.mem_singleton.mp hmem]
      exact hc
  · rw [List.map_append, List.pairwise_append]
    refine ⟨h.apart, List.pairwise_singleton _ _, ?_⟩
    intro s hs t ht
    rw [List.map_singleton, List.mem_singleton] at ht
    rw [ht]
    exact hap s hs

theorem LiveAlloc.Backed.append (h : l.Backed chunks offset) : l.Backed (chunks ++ [c]) offset := by
  obtain ⟨c', hi, hb⟩ := h
  obtain ⟨hlt, -⟩ := List.getElem?_eq_some_iff.mp hi
  refine ⟨c', ?_, hb⟩
  rw [List.getElem?_append_left hlt]
  exact hi

end Chunks

/-! ## Behind the mutex -/

namespace HeapInner

variable {A : Type} [LawfulOffsetAllocator A]

/-- The tables and the counter agree. -/
structure Ok (maxBytes : ℕ) (inner : HeapInner A) : Prop where
  chunks : ChunksOk maxBytes inner.chunks
  live : ∀ offset l, inner.live.lookup offset = some l → l.Backed inner.chunks offset
  free : inner.freeBytes + Table.total (fun _ l => l.units * unit) inner.live =
    (inner.spans.map Span.len).sum

variable {maxBytes units offset : ℕ} {inner inner' : HeapInner A} {l : LiveAlloc}

variable {live : AList fun _ : ℕ => LiveAlloc}

/-- Entries at different offsets are different allocations. -/
theorem live_apart {chunks : List (Chunk A)} (hc : ChunksOk maxBytes chunks)
    (hlive : ∀ offset l, live.lookup offset = some l → l.Backed chunks offset) {offset offset' : ℕ}
    {l l' : LiveAlloc} (h : live.lookup offset = some l) (h' : live.lookup offset' = some l')
    (hne : offset ≠ offset') :
    (l.span offset).Apart (l'.span offset') := by
  have hb := hlive offset l h
  have hb' := hlive offset' l' h'
  refine LiveAlloc.Backed.apart hc hb hb' ?_
  intro hidx hal
  obtain ⟨c, hi, hb⟩ := hb
  obtain ⟨c', hi', hb'⟩ := hb'
  obtain rfl : c = c' := by
    rw [hidx, hi'] at hi
    exact (Option.some.inj hi).symm
  apply hne
  rw [hb.offset_eq, hb'.offset_eq, hal]

/-- The live entries fit in the chunks. -/
theorem total_le {chunks : List (Chunk A)} (hc : ChunksOk maxBytes chunks)
    (hlive : ∀ offset l, live.lookup offset = some l → l.Backed chunks offset) :
    Table.total (fun _ l => l.units * unit) live ≤ ((chunks.map Chunk.span).map Span.len).sum := by
  have hlook : ∀ e ∈ live.entries, live.lookup e.1 = some e.2 := by
    intro e he
    exact AList.mem_lookup_iff.mpr he
  have hap : (live.entries.map fun e => e.2.span e.1).Pairwise Span.Apart := by
    rw [List.pairwise_map]
    have hkeys : live.entries.Pairwise fun e e' => e.1 ≠ e'.1 := by
      have := live.nodupKeys
      rwa [List.NodupKeys, List.keys, List.Nodup, List.pairwise_map] at this
    refine hkeys.imp_of_mem ?_
    intro e e' he he' hne
    exact live_apart hc hlive (hlook e he) (hlook e' he') hne
  have hin : ∀ s ∈ live.entries.map (fun e => e.2.span e.1),
      ∃ t ∈ chunks.map Chunk.span, s.Inside t := by
    intro s hs
    obtain ⟨e, he, rfl⟩ := List.mem_map.mp hs
    obtain ⟨c, hi, hb⟩ := hlive e.1 e.2 (hlook e he)
    have hmem := List.mem_of_getElem? hi
    exact ⟨c.span, List.mem_map.mpr ⟨c, hmem, rfl⟩, hb.inside (hc.each c hmem)⟩
  have hsum := Span.sum_len_le hap hin
  rw [List.map_map] at hsum
  exact hsum

/-- What an operation behind the mutex leaves alone: which memory is the heap's. -/
structure SameClaims (inner inner' : HeapInner A) : Prop where
  memories : inner'.memories = inner.memories
  spans : inner'.spans = inner.spans

/-- The entries there were, once a chunk has handed out `allocation`: still backed, and
    none of them that allocation. -/
theorem Ok.backed_allocate (h : inner.Ok maxBytes) {idx : ℕ} {chunk : Chunk A}
    {allocation : Allocation} {alloc : A} (hi : inner.chunks[idx]? = some chunk)
    (hal : OffsetAllocator.allocate chunk.alloc units = some (allocation, alloc))
    (hl : inner.live.lookup offset = some l) :
    l.Backed (inner.chunks.set idx { chunk with alloc }) offset ∧
      (l.chunkIdx = idx → l.allocation ≠ allocation) := by
  obtain ⟨hfresh, reserved, -, hheld⟩ := held_allocate hal
  have hb := h.live offset l hl
  have hsame : l.chunkIdx = idx → held chunk.alloc l.allocation = some l.units := by
    intro hidx
    obtain ⟨c, hci, hcb⟩ := hb
    rw [hidx, hi] at hci
    cases hci
    exact hcb.held
  have hne : l.chunkIdx = idx → l.allocation ≠ allocation := by
    intro hidx heq
    have := hsame hidx
    rw [heq, hfresh] at this
    cases this
  refine ⟨hb.set_alloc hi ?_, hne⟩
  intro hidx
  rw [hheld, Function.update_of_ne (hne hidx)]
  exact hsame hidx

/-- An allocation no entry has is at an offset no entry has. -/
theorem offset_notMem {chunks : List (Chunk A)} {entry : LiveAlloc} (hc : ChunksOk maxBytes chunks)
    (hold : ∀ offset l, live.lookup offset = some l → l.Backed chunks offset ∧
      (l.chunkIdx = entry.chunkIdx → l.allocation ≠ entry.allocation))
    (hnew : entry.Backed chunks offset) : offset ∉ live := by
  have hpos : ∀ {l : LiveAlloc} {o : ℕ}, l.Backed chunks o → o ∈ (l.span o).toFinset := by
    intro l o hb
    obtain ⟨c, -, hcb⟩ := hb
    have := Nat.mul_pos hcb.units_pos (show 0 < unit by decide)
    rw [Span.mem_toFinset]
    simp only [LiveAlloc.span]
    omega
  intro hmem
  obtain ⟨l, hl⟩ := Option.isSome_iff_exists.mp (AList.lookup_isSome.mpr hmem)
  obtain ⟨hlb, hlne⟩ := hold _ l hl
  exact LiveAlloc.Backed.apart hc hlb hnew hlne offset (hpos hlb) (hpos hnew)

/-- An entry for an allocation no other entry has: what it reserves is no more than what
    was free. -/
theorem Ok.insert_live (h : inner.Ok maxBytes) {chunks : List (Chunk A)} {entry : LiveAlloc}
    (hc : ChunksOk maxBytes chunks) (hspans : chunks.map Chunk.span = inner.spans)
    (hold : ∀ offset l, inner.live.lookup offset = some l → l.Backed chunks offset ∧
      (l.chunkIdx = entry.chunkIdx → l.allocation ≠ entry.allocation))
    (hnew : entry.Backed chunks offset) :
    Ok maxBytes { inner with
      chunks, freeBytes := inner.freeBytes - entry.units * unit
      live := inner.live.insert offset entry } := by
  have hnotMem := offset_notMem hc hold hnew
  have hlive : ∀ o l, (inner.live.insert offset entry).lookup o = some l → l.Backed chunks o := by
    intro o l hl
    rcases Table.lookup_insert_iff.mp hl with ⟨rfl, rfl⟩ | ⟨_, hl⟩
    · exact hnew
    · exact (hold o l hl).1
  refine ⟨hc, hlive, ?_⟩
  -- Packing bounds the new total, so the subtraction is exact.
  have hpack := total_le hc hlive
  have hfree := h.free
  show inner.freeBytes - entry.units * unit +
    Table.total (fun _ l => l.units * unit) (inner.live.insert offset entry) =
      ((chunks.map Chunk.span).map Span.len).sum
  rw [hspans] at hpack ⊢
  rw [Table.total_insert_of_notMem _ hnotMem] at hpack ⊢
  omega

/-- A new entry of `len` bytes, at an offset that had none. -/
structure Entered (inner inner' : HeapInner A) (offset len : ℕ) : Prop where
  fresh : inner.live.lookup offset = none
  entry : ∃ l, inner'.live.lookup offset = some l ∧ l.len = len

/-- **Placing an allocation.** A chunk of a heap in order that hands out units hands them
    out inside itself: none of the early exits is taken, and the counter does not
    saturate. -/
theorem Ok.placeIn (h : inner.Ok maxBytes) (hmax : maxBytes ≤ 2 ^ 32) (hunits : 0 < units)
    {idx : ℕ} {chunk : Chunk A} {allocation : Allocation} {alloc : A}
    (hi : inner.chunks[idx]? = some chunk)
    (hal : OffsetAllocator.allocate chunk.alloc units = some (allocation, alloc)) :
    ∃ offset inner', inner.placeIn units idx chunk allocation alloc = (some offset, inner') ∧
      inner'.Ok maxBytes ∧ inner.SameClaims inner' ∧
      inner.Entered inner' offset (units * unit) := by
  obtain ⟨-, reserved, hres, hheld⟩ := held_allocate hal
  have hself : held alloc allocation = some reserved := by rw [hheld, Function.update_self]
  have hck := h.chunks.each chunk (List.mem_of_getElem? hi)
  have hcap := capacity_allocate hal
  -- The range is inside the chunk, so inside 32 bits.
  have hrange := Nat.mul_le_mul_right unit (in_range hself)
  rw [hcap, hck.capacity_mul, Nat.add_mul] at hrange
  have hres' := Nat.mul_le_mul_right unit hres
  have hlt := hck.len_lt
  have hbound := hck.bound
  have hpos := Nat.mul_pos hunits (show 0 < unit by decide)
  have hrel : checkedMul 32 allocation.offset unit = some (allocation.offset * unit) :=
    checkedMul_eq_some.mpr ⟨by omega, rfl⟩
  have hsize : checkedMul 32 units unit = some (units * unit) :=
    checkedMul_eq_some.mpr ⟨by omega, rfl⟩
  have hstop : checkedAdd 32 (allocation.offset * unit) (units * unit) =
      some (allocation.offset * unit + units * unit) := checkedAdd_eq_some.mpr ⟨by omega, rfl⟩
  have hoff : wrappingAdd 32 chunk.start (allocation.offset * unit) =
      chunk.start + allocation.offset * unit := wrappingAdd_of_lt (by omega)
  have heq : inner.placeIn units idx chunk allocation alloc =
      (some (chunk.start + allocation.offset * unit), { inner with
        chunks := inner.chunks.set idx { chunk with alloc }
        freeBytes := inner.freeBytes - reserved * unit
        live := inner.live.insert (chunk.start + allocation.offset * unit)
          { chunkIdx := idx, allocation, len := units * unit, units := reserved } }) := by
    unfold HeapInner.placeIn
    simp only [hrel, hsize, hstop, hoff, allocationSize_eq hself]
    rw [if_neg (by omega)]
  obtain ⟨hchunks, hspans⟩ := h.chunks.set_alloc hi hcap
  obtain ⟨hlen, -⟩ := List.getElem?_eq_some_iff.mp hi
  set entry : LiveAlloc := { chunkIdx := idx, allocation, len := units * unit, units := reserved }
    with hentry
  have hold : ∀ o l, inner.live.lookup o = some l →
      l.Backed (inner.chunks.set idx { chunk with alloc }) o ∧
        (l.chunkIdx = entry.chunkIdx → l.allocation ≠ entry.allocation) :=
    fun o l hl => h.backed_allocate hi hal hl
  have hnew : entry.Backed (inner.chunks.set idx { chunk with alloc })
      (chunk.start + allocation.offset * unit) :=
    ⟨{ chunk with alloc }, List.getElem?_set_self hlen,
      ⟨hself, rfl, Nat.lt_of_lt_of_le hunits hres, hres'⟩⟩
  refine ⟨_, _, heq, h.insert_live hchunks hspans hold hnew, ⟨rfl, hspans⟩, ?_⟩
  refine ⟨?_, entry, AList.lookup_insert .., rfl⟩
  exact AList.lookup_eq_none.mpr (offset_notMem hchunks hold hnew)

/-- The loop either finds no chunk with room or places in the first one that has. -/
theorem tryChunksFrom_cases (inner : HeapInner A) (units : ℕ) (todo : List (Chunk A)) (idx : ℕ)
    (hdrop : inner.chunks.drop idx = todo) :
    inner.tryChunksFrom units todo idx = (none, inner) ∨
      ∃ i chunk allocation alloc, inner.chunks[i]? = some chunk ∧
        OffsetAllocator.allocate chunk.alloc units = some (allocation, alloc) ∧
        inner.tryChunksFrom units todo idx = inner.placeIn units i chunk allocation alloc := by
  induction todo generalizing idx with
  | nil => exact .inl rfl
  | cons chunk todo ih =>
    have hi : inner.chunks[idx]? = some chunk := by
      have hget : (inner.chunks.drop idx)[0]? = inner.chunks[idx + 0]? := List.getElem?_drop
      rw [hdrop] at hget
      simpa using hget.symm
    have hdrop' : inner.chunks.drop (idx + 1) = todo := by
      rw [← List.tail_drop, hdrop, List.tail_cons]
    unfold tryChunksFrom
    cases hal : OffsetAllocator.allocate chunk.alloc units with
    | none => exact ih (idx + 1) hdrop'
    | some r =>
      obtain ⟨allocation, alloc⟩ := r
      exact .inr ⟨idx, chunk, allocation, alloc, hi, hal, rfl⟩

theorem Ok.tryChunks (h : inner.Ok maxBytes) (hmax : maxBytes ≤ 2 ^ 32) (hunits : 0 < units)
    {r : Option ℕ} (ht : inner.tryChunks units = (r, inner')) :
    inner'.Ok maxBytes ∧ inner.SameClaims inner' := by
  rcases tryChunksFrom_cases inner units inner.chunks 0 rfl with hnone | hplaced
  · obtain ⟨-, rfl⟩ := Prod.mk.inj (hnone.symm.trans ht)
    exact ⟨h, rfl, rfl⟩
  · obtain ⟨idx, chunk, allocation, alloc, hi, hal, heq⟩ := hplaced
    obtain ⟨offset, inner'', hp, hok, hsame, -⟩ := h.placeIn hmax hunits hi hal
    obtain ⟨-, rfl⟩ := Prod.mk.inj (hp.symm.trans (heq.symm.trans ht))
    exact ⟨hok, hsame⟩

theorem Ok.tryChunks_entered (h : inner.Ok maxBytes) (hmax : maxBytes ≤ 2 ^ 32)
    (hunits : 0 < units) (ht : inner.tryChunks units = (some offset, inner')) :
    inner.Entered inner' offset (units * unit) := by
  rcases tryChunksFrom_cases inner units inner.chunks 0 rfl with hnone | hplaced
  · cases hnone.symm.trans ht
  · obtain ⟨idx, chunk, allocation, alloc, hi, hal, heq⟩ := hplaced
    obtain ⟨offset', inner'', hp, -, -, hentered⟩ := h.placeIn hmax hunits hi hal
    obtain ⟨hoff, rfl⟩ := Prod.mk.inj (hp.symm.trans (heq.symm.trans ht))
    cases hoff
    exact hentered

/-- Everything the heap has is below 4 GiB. -/
theorem Ok.spans_le (h : inner.Ok maxBytes) : (inner.spans.map Span.len).sum ≤ maxBytes := by
  have hinside : ∀ s ∈ inner.spans, ∃ t ∈ [(⟨0, maxBytes⟩ : Span)], s.Inside t := by
    intro s hs
    obtain ⟨c, hc, rfl⟩ := List.mem_map.mp hs
    have hbound := (h.chunks.each c hc).bound
    refine ⟨_, List.mem_singleton_self _, Nat.zero_le _, ?_⟩
    simpa [Chunk.span, Span.stop] using hbound
  have hsum := Span.sum_len_le h.chunks.apart hinside
  simpa [spans] using hsum

/-- A live entry freed: the rest stay backed, and exactly what was reserved is free again. -/
theorem Ok.erase_live (h : inner.Ok maxBytes) (hmax : maxBytes ≤ 2 ^ 32) {c : Chunk A}
    (hl : inner.live.lookup offset = some l) (hi : inner.chunks[l.chunkIdx]? = some c)
    (hb : l.BackedBy c offset) :
    Ok maxBytes { inner with
      live := inner.live.erase offset
      chunks := inner.chunks.set l.chunkIdx
        { c with alloc := OffsetAllocator.free c.alloc l.allocation }
      freeBytes := wrappingAdd 64 inner.freeBytes (l.units * unit) } := by
  obtain ⟨hchunks, hspans⟩ := h.chunks.set_alloc hi (capacity_free hb.held)
  refine ⟨hchunks, ?_, ?_⟩
  · intro o l' hl'
    obtain ⟨hne, hl'⟩ := Table.lookup_erase_iff.mp hl'
    refine (h.live o l' hl').set_alloc hi ?_
    intro hidx
    obtain ⟨c', hi', hb'⟩ := h.live o l' hl'
    obtain rfl : c = c' := by
      rw [hidx, hi] at hi'
      exact Option.some.inj hi'
    -- Another offset in the same chunk is another allocation.
    have hal : l'.allocation ≠ l.allocation := by
      intro heq
      apply hne
      rw [hb'.offset_eq, hb.offset_eq, heq]
    rw [held_free hb.held, Function.update_of_ne hal]
    exact hb'.held
  · have htot := Table.total_erase (fun _ l => l.units * unit) hl
    have hfree := h.free
    have hle := h.spans_le
    show wrappingAdd 64 inner.freeBytes (l.units * unit) +
      Table.total (fun _ l => l.units * unit) (inner.live.erase offset) =
        ((List.map Chunk.span _).map Span.len).sum
    rw [wrappingAdd_of_lt (by omega), hspans]
    unfold spans at hfree
    omega

/-- **Freeing.** Of a live offset it succeeds, and the index into `chunks` is good; of
    anything else it does nothing. -/
theorem Ok.freeOffset (h : inner.Ok maxBytes) (hmax : maxBytes ≤ 2 ^ 32) (offset : ℕ) :
    ∃ inner', inner.freeOffset offset = some (decide (offset ∈ inner.live), inner') ∧
      inner'.Ok maxBytes ∧ inner.SameClaims inner' := by
  unfold HeapInner.freeOffset
  cases hl : inner.live.lookup offset with
  | none =>
    have hmem : offset ∉ inner.live := AList.lookup_eq_none.mp hl
    exact ⟨inner, by simp [hmem], h, rfl, rfl⟩
  | some l =>
    have hmem : offset ∈ inner.live := AList.lookup_isSome.mp (by rw [hl]; rfl)
    obtain ⟨c, hi, hb⟩ := h.live offset l hl
    simp only [hi, hmem, decide_true]
    obtain ⟨-, hspans⟩ := h.chunks.set_alloc hi (capacity_free hb.held)
    exact ⟨_, rfl, h.erase_live hmax hl hi hb, rfl, hspans⟩

end HeapInner

/-! ## The heap over the guest's memory -/

namespace World

section

variable {α A : Type}

/-- What happens outside the mutex, as the heap sees it: the memory only grows, and what
    the guest gains starts where the memory ended. -/
structure Interfered (w w' : World α A) : Prop where
  heap : w'.heap = w.heap
  bytes : w.memory.bytes ≤ w'.memory.bytes
  guest : ∀ g ∈ w'.guest, g ∈ w.guest ∨ w.memory.bytes ≤ g.start ∧ g.stop ≤ w'.memory.bytes

theorem Interfered.refl (w : World α A) : Interfered w w :=
  ⟨rfl, Nat.le_refl _, fun _ hg => .inl hg⟩

theorem Interfered.trans {w w' w'' : World α A} (h : Interfered w w') (h' : Interfered w' w'') :
    Interfered w w'' := by
  have h₁ := h.bytes
  have h₂ := h'.bytes
  refine ⟨h'.heap.trans h.heap, h₁.trans h₂, ?_⟩
  intro g hg
  rcases h'.guest g hg with hold | ⟨hlo, hhi⟩
  · rcases h.guest g hold with hold' | ⟨hlo, hhi⟩
    · exact .inl hold'
    · exact .inr ⟨hlo, hhi.trans h₂⟩
  · exact .inr ⟨h₁.trans hlo, hhi⟩

end

section

variable {α A : Type} [NapiMemoryAccountant α]

theorem pagesToBytes_add (m n : ℕ) : pagesToBytes (m + n) = pagesToBytes m + pagesToBytes n :=
  Nat.add_mul m n wasmPageSize

/-- `Memory::grow` returns the previous size and adds the pages, or changes nothing. -/
theorem grow_spec {b b' : ResourceBudget α} {m m' : LinearMemory} {delta : ℕ} {inner : Bool}
    {r : Except MemoryError ℕ} (h : m.grow b delta inner = (r, m', b')) :
    (∃ prev, r = .ok prev ∧ pagesToBytes prev = m.bytes ∧
      m'.bytes = m.bytes + pagesToBytes delta) ∨ (∃ e, r = .error e ∧ m'.bytes = m.bytes) := by
  cases m with
  | plain pages =>
    simp only [LinearMemory.grow] at h
    split at h
    · obtain ⟨rfl, rfl, -⟩ := Prod.mk.inj h |>.imp_right Prod.mk.inj
      exact .inl ⟨pages, rfl, rfl, pagesToBytes_add pages delta⟩
    · obtain ⟨rfl, rfl, -⟩ := Prod.mk.inj h |>.imp_right Prod.mk.inj
      exact .inr ⟨_, rfl, rfl⟩
  | budgeted m =>
    simp only [LinearMemory.grow] at h
    cases hgrow : BudgetedMemory.grow b m delta (inner && decide (m.pages + delta < pagesBound))
      with | mk r₁ rest =>
    obtain ⟨m₁, b₁⟩ := rest
    rw [hgrow] at h
    obtain ⟨rfl, rfl, -⟩ := Prod.mk.inj h |>.imp_right Prod.mk.inj
    rcases BudgetedMemory.grow_cases hgrow with
      ⟨e, -, rfl, rfl⟩ | ⟨-, -, rfl, rfl⟩ | ⟨b₂, -, -, rfl, rfl, -⟩
    · exact .inr ⟨_, rfl, rfl⟩
    · exact .inl ⟨m.pages, rfl, rfl, pagesToBytes_add m.pages delta⟩
    · exact .inr ⟨_, rfl, rfl⟩

theorem interfere_spec {w w' : World α A} {i : Interference α} (h : w.interfere i = some w') :
    Interfered w w' := by
  cases i with
  | guestGrow delta inner =>
    simp only [interfere] at h
    split at h
    · rename_i prev memory budget hg
      cases h
      rcases grow_spec hg with ⟨prev', hr, hprev, hbytes⟩ | ⟨e, hr, -⟩
      · obtain rfl := Except.ok.inj hr
        have hle : w.memory.bytes ≤ memory.bytes := by omega
        refine ⟨rfl, hle, ?_⟩
        intro g hg
        rcases List.mem_cons.mp hg with rfl | hg
        · right
          refine ⟨Nat.le_of_eq hprev.symm, ?_⟩
          show pagesToBytes prev + pagesToBytes delta ≤ memory.bytes
          rw [hbytes, hprev]
        · exact .inl hg
      · cases hr
    · rename_i e memory budget hg
      cases h
      rcases grow_spec hg with ⟨prev', hr, -⟩ | ⟨e', -, hbytes⟩
      · cases hr
      · exact ⟨rfl, Nat.le_of_eq hbytes.symm, fun g hg => .inl hg⟩
  | other a =>
    simp only [interfere, Option.map_eq_some_iff] at h
    obtain ⟨r, -, rfl⟩ := h
    exact ⟨rfl, Nat.le_refl _, fun g hg => .inl hg⟩

theorem run_interfere_spec {w w' : World α A} {is : List (Interference α)}
    (h : run interfere w is = some w') : Interfered w w' :=
  Run.invariant (fun _ _ _ hs hi => hi.trans (interfere_spec hs)) h (Interfered.refl w)

end

section

variable {α A : Type} [LawfulOffsetAllocator A]

/-- **The representation invariant.** -/
structure Ok (w : World α A) : Prop where
  inner : w.heap.inner.Ok w.heap.maxBytes
  max_le : w.heap.maxBytes ≤ 2 ^ 32
  claimed : ∀ s ∈ w.heap.inner.spans, s.stop ≤ w.memory.bytes
  guest : ∀ g ∈ w.guest, g.stop ≤ w.memory.bytes
  apart : ∀ g ∈ w.guest, ∀ s ∈ w.heap.inner.spans, s.Apart g

variable {w w' : World α A}

/-- What the heap holds is below what anybody grows afterwards. -/
theorem Ok.interfered (h : w.Ok) (hi : Interfered w w') : w'.Ok := by
  have hbytes := hi.bytes
  refine ⟨?_, ?_, ?_, ?_, ?_⟩
  · rw [hi.heap]
    exact h.inner
  · rw [hi.heap]
    exact h.max_le
  · rw [hi.heap]
    exact fun s hs => (h.claimed s hs).trans hbytes
  · intro g hg
    rcases hi.guest g hg with hold | ⟨-, hstop⟩
    · exact (h.guest g hold).trans hbytes
    · exact hstop
  · rw [hi.heap]
    intro g hg s hs
    rcases hi.guest g hg with hold | ⟨hstart, -⟩
    · exact h.apart g hold s hs
    · exact Span.apart_of_stop_le ((h.claimed s hs).trans hstart)

theorem Ok.setInner (h : w.Ok) {inner : HeapInner A} (hi : inner.Ok w.heap.maxBytes)
    (hs : w.heap.inner.SameClaims inner) : (w.setInner inner).Ok := by
  refine ⟨hi, h.max_le, ?_, h.guest, ?_⟩
  · intro s hmem
    apply h.claimed
    rw [← hs.spans]
    exact hmem
  · intro g hg s hmem
    apply h.apart g hg
    rw [← hs.spans]
    exact hmem

/-- The budget, and how much the heap has charged, are not part of the representation. -/
theorem Ok.of_heap (h : w.Ok) (hmem : w'.memory.bytes = w.memory.bytes)
    (hg : w'.guest = w.guest) (hmax : w'.heap.maxBytes = w.heap.maxBytes)
    (hi : w'.heap.inner = w.heap.inner) : w'.Ok := by
  obtain ⟨h₁, h₂, h₃, h₄, h₅⟩ := h
  refine ⟨?_, ?_, ?_, ?_, ?_⟩
  · rwa [hi, hmax]
  · rwa [hmax]
  · rwa [hi, hmem]
  · rwa [hg, hmem]
  · rwa [hg, hi]

/-- A range of the memory nobody holds, above every chunk: where a claim goes. -/
structure Vacant (w : World α A) (s : Span) : Prop where
  above : ∀ t ∈ w.heap.inner.spans, t.stop ≤ s.start
  guest : ∀ g ∈ w.guest, s.Apart g
  stop_le : s.stop ≤ w.memory.bytes

omit [LawfulOffsetAllocator A] in
theorem Vacant.interfered {s : Span} (h : w.Vacant s) (hi : Interfered w w') : w'.Vacant s := by
  refine ⟨?_, ?_, h.stop_le.trans hi.bytes⟩
  · rw [hi.heap]
    exact h.above
  · intro g hg
    rcases hi.guest g hg with hold | ⟨hstart, -⟩
    · exact h.guest g hold
    · exact Span.apart_of_stop_le (h.stop_le.trans hstart)

/-- A grow that succeeds leaves the pages it added vacant, and everything else as it was. -/
theorem Ok.grown (h : w.Ok) {m' : LinearMemory} (b' : ResourceBudget α) {prev delta : ℕ}
    (hprev : pagesToBytes prev = w.memory.bytes)
    (hbytes : m'.bytes = w.memory.bytes + pagesToBytes delta) :
    ({ w with memory := m', budget := b' } : World α A).Ok ∧
      ({ w with memory := m', budget := b' } : World α A).Vacant
        ⟨pagesToBytes prev, pagesToBytes delta⟩ := by
  have hle : w.memory.bytes ≤ m'.bytes := by omega
  refine ⟨h.interfered ⟨rfl, hle, fun g hg => .inl hg⟩, ?_, ?_, ?_⟩
  · intro t ht
    rw [hprev]
    exact h.claimed t ht
  · intro g hg
    apply Span.Apart.symm
    apply Span.apart_of_stop_le
    rw [hprev]
    exact h.guest g hg
  · show pagesToBytes prev + pagesToBytes delta ≤ m'.bytes
    rw [hbytes, hprev]

theorem unit_dvd_pagesToBytes (n : ℕ) : unit ∣ pagesToBytes n :=
  (show unit ∣ wasmPageSize by decide).trans (Nat.dvd_mul_left _ _)

/-- **Claiming.** The chunk is the vacant range, or nothing of it: a claim of exactly
    4 GiB is truncated to an empty chunk. -/
theorem Ok.finishClaim (h : w.Ok) {prev delta baseNow bytes : ℕ} {r : Bool}
    (hdelta : 0 < delta) (hv : w.Vacant ⟨pagesToBytes prev, pagesToBytes delta⟩)
    (hf : w.finishClaim prev delta baseNow bytes = some (r, w')) : w'.Ok := by
  unfold World.finishClaim at hf
  split at hf
  · cases hf
  dsimp only at hf
  split at hf
  · obtain ⟨-, rfl⟩ := Prod.mk.inj (Option.some.inj hf)
    exact h.of_heap rfl rfl rfl rfl
  rename_i hfits
  obtain ⟨-, rfl⟩ := Prod.mk.inj (Option.some.inj hf)
  have hmax := h.max_le
  have hpos : 0 < pagesToBytes delta := Nat.mul_pos hdelta (by decide)
  have hstart : truncate 32 (pagesToBytes prev) = pagesToBytes prev := truncate_of_lt (by omega)
  have hlen : truncate 32 (pagesToBytes delta) ≤ pagesToBytes delta := Nat.mod_le _ _
  have hlen_lt : truncate 32 (pagesToBytes delta) < 2 ^ 32 := Nat.mod_lt _ (by decide)
  rw [hstart]
  set len := truncate 32 (pagesToBytes delta) with hlen_eq
  have hunit : unit ∣ len :=
    (Nat.dvd_mod_iff (show unit ∣ 2 ^ 32 by decide)).mpr (unit_dvd_pagesToBytes delta)
  set chunk : Chunk A := ⟨pagesToBytes prev, len,
    OffsetAllocator.withMaxAllocs (len / unit) (chunkMaxAllocs len)⟩ with hchunk
  have hck : chunk.Ok w.heap.maxBytes :=
    ⟨capacity_withMaxAllocs _ _, unit_dvd_pagesToBytes prev, hunit, by simp only [hchunk]; omega,
      hlen_lt⟩
  have hin : chunk.span.Inside ⟨pagesToBytes prev, pagesToBytes delta⟩ :=
    ⟨Nat.le_refl _, Nat.add_le_add_left hlen _⟩
  have happ : ∀ s ∈ w.heap.inner.spans, s.Apart chunk.span :=
    fun s hs => Span.apart_of_stop_le (hv.above s hs)
  have hspans : (w.heap.inner.chunks ++ [chunk]).map Chunk.span =
      w.heap.inner.spans ++ [chunk.span] := by simp [HeapInner.spans]
  refine ⟨⟨?_, ?_, ?_⟩, hmax, ?_, h.guest, ?_⟩
  · exact h.inner.chunks.append hck happ
  · exact fun o l hl => (h.inner.live o l hl).append
  · have hfree := h.inner.free
    have hle := h.inner.spans_le
    show wrappingAdd 64 w.heap.inner.freeBytes len + Table.total _ w.heap.inner.live =
      (((w.heap.inner.chunks ++ [chunk]).map Chunk.span).map Span.len).sum
    rw [hspans, wrappingAdd_of_lt (by omega), List.map_append, List.sum_append, ← hfree]
    simp only [List.map_singleton, List.sum_singleton, Chunk.span, hchunk]
    omega
  · intro s hs
    rw [HeapInner.spans, hspans, List.mem_append, List.mem_singleton] at hs
    rcases hs with hs | rfl
    · exact h.claimed s hs
    · exact hin.2.trans hv.stop_le
  · intro g hg s hs
    rw [HeapInner.spans, hspans, List.mem_append, List.mem_singleton] at hs
    rcases hs with hs | rfl
    · exact h.apart g hg s hs
    · exact (hv.guest g hg).mono hin ⟨Nat.le_refl _, Nat.le_refl _⟩

end

/-! ## Every operation keeps the representation -/

section

variable {α A B : Type} [NapiMemoryAccountant α] [LawfulOffsetAllocator A] {w w' : World α A}
  {store len units minBytes : ℕ} {call : GrowCall α}

theorem claimPages_pos (minBytes : ℕ) : 0 < claimPages minBytes := by
  have hmin : minChunkBytes ≤ chunkSizeFor minBytes := Nat.le_max_right _ _
  unfold claimPages
  apply Nat.div_pos
  · simp only [minChunkBytes, wasmPageSize] at *
    omega
  · decide

/-- Everything a refill can do: no handle for the store, no budget, no pages from the
    backend, or a claim. -/
theorem refillWithStoreLocked_cases [OffsetAllocator B] {w w' : World α B} {r : Bool}
    (hr : w.refillWithStoreLocked store minBytes call = some (r, w')) :
    (store ∉ w.heap.inner.memories ∧ w' = w) ∨
    (store ∈ w.heap.inner.memories ∧ ∃ budget,
      chargeClaim w.budget (pagesToBytes (claimPages minBytes)) = (none, budget) ∧
      w' = { w with budget }) ∨
    (store ∈ w.heap.inner.memories ∧ ∃ charge budget w₁ e memory budget',
      chargeClaim w.budget (pagesToBytes (claimPages minBytes)) = (some charge, budget) ∧
      run interfere { w with budget } call.before = some w₁ ∧
      w₁.memory.grow w₁.budget (claimPages minBytes) call.inner = (.error e, memory, budget') ∧
      w' = { w₁ with memory, budget := budget'.uncharge .wasmLinear charge }) ∨
    (store ∈ w.heap.inner.memories ∧ ∃ charge budget w₁ prev memory budget' w₂,
      chargeClaim w.budget (pagesToBytes (claimPages minBytes)) = (some charge, budget) ∧
      run interfere { w with budget } call.before = some w₁ ∧
      w₁.memory.grow w₁.budget (claimPages minBytes) call.inner = (.ok prev, memory, budget') ∧
      run interfere { w₁ with memory, budget := budget' } call.after = some w₂ ∧
      (w₂.setInner { w₂.heap.inner with pendingWant := 0 }).finishClaim prev
        (claimPages minBytes) call.baseNow charge = some (r, w')) := by
  unfold World.refillWithStoreLocked at hr
  split at hr
  · rename_i hstore
    exact .inl ⟨hstore, (Prod.mk.inj (Option.some.inj hr)).2.symm⟩
  rename_i hstore
  rw [not_not] at hstore
  dsimp only at hr
  split at hr
  · rename_i budget hcharge
    exact .inr (.inl ⟨hstore, budget, hcharge, (Prod.mk.inj (Option.some.inj hr)).2.symm⟩)
  rename_i charge budget hcharge
  obtain ⟨w₁, hbefore, hr⟩ := Option.bind_eq_some_iff.mp hr
  split at hr
  · rename_i e memory budget' hgrow
    exact .inr (.inr (.inl ⟨hstore, charge, budget, w₁, e, memory, budget', hcharge, hbefore, hgrow,
      (Prod.mk.inj (Option.some.inj hr)).2.symm⟩))
  · rename_i prev memory budget' hgrow
    obtain ⟨w₂, hafter, hr⟩ := Option.bind_eq_some_iff.mp hr
    exact .inr (.inr (.inr ⟨hstore, charge, budget, w₁, prev, memory, budget', w₂, hcharge, hbefore,
      hgrow, hafter, hr⟩))

theorem Ok.refillWithStoreLocked (h : w.Ok) {r : Bool}
    (hr : w.refillWithStoreLocked store minBytes call = some (r, w')) : w'.Ok := by
  have hwait : ∀ {budget w₁}, run interfere { w with budget } call.before = some w₁ → w₁.Ok := by
    intro budget w₁ hbefore
    refine Ok.interfered (w := { w with budget }) ?_ (run_interfere_spec hbefore)
    exact h.of_heap rfl rfl rfl rfl
  rcases refillWithStoreLocked_cases hr with ⟨-, rfl⟩ | ⟨-, budget, -, rfl⟩ |
    ⟨-, charge, budget, w₁, e, memory, budget', -, hbefore, hgrow, rfl⟩ |
    ⟨-, charge, budget, w₁, prev, memory, budget', w₂, -, hbefore, hgrow, hafter, hf⟩
  · exact h
  · exact h.of_heap rfl rfl rfl rfl
  · rcases grow_spec hgrow with ⟨prev, hok, -⟩ | ⟨e', -, hbytes⟩
    · cases hok
    · exact (hwait hbefore).of_heap hbytes rfl rfl rfl
  · rcases grow_spec hgrow with ⟨prev', hok, hprev, hbytes⟩ | ⟨e', herr, -⟩
    · obtain rfl := Except.ok.inj hok
      obtain ⟨hok₁, hv₁⟩ := (hwait hbefore).grown budget' hprev hbytes
      have hi := run_interfere_spec hafter
      have h₂ := hok₁.interfered hi
      have hv₂ := hv₁.interfered hi
      -- Only `pending_want` has moved since.
      have hclear : (w₂.setInner { w₂.heap.inner with pendingWant := 0 }).Ok :=
        h₂.setInner ⟨h₂.inner.chunks, h₂.inner.live, h₂.inner.free⟩ ⟨rfl, rfl⟩
      exact hclear.finishClaim (claimPages_pos minBytes) { hv₂ with } hf
    · cases herr

omit [NapiMemoryAccountant α] in
theorem Ok.rememberWant (h : w.Ok) (bytes : ℕ) : (w.rememberWant bytes).Ok :=
  h.setInner ⟨h.inner.chunks, h.inner.live, h.inner.free⟩ ⟨rfl, rfl⟩

omit [NapiMemoryAccountant α] in
theorem Ok.registerMemory (h : w.Ok) (store : ℕ) : (w.registerMemory store).Ok := by
  unfold World.registerMemory
  split
  · exact h
  · refine ⟨⟨h.inner.chunks, h.inner.live, h.inner.free⟩, h.max_le, h.claimed, h.guest, h.apart⟩

omit [LawfulOffsetAllocator A] in
theorem unitsFor_pos {h : GuestHeap A} (hu : h.unitsFor len = some units) : 0 < units := by
  unfold GuestHeap.unitsFor at hu
  split at hu
  · cases hu
  · obtain ⟨-, rfl⟩ := tryFrom_eq_some.mp hu
    apply Nat.div_pos _ (by decide)
    simp only [unit]
    omega

omit [NapiMemoryAccountant α] in
theorem Ok.tryChunks (h : w.Ok) (hu : 0 < units) {r : Option ℕ} {inner : HeapInner A}
    (ht : w.heap.inner.tryChunks units = (r, inner)) : (w.setInner inner).Ok := by
  obtain ⟨hok, hsame⟩ := h.inner.tryChunks h.max_le hu ht
  exact h.setInner hok hsame

omit [NapiMemoryAccountant α] in
theorem Ok.alloc (h : w.Ok) (len : ℕ) : (w.alloc len).2.Ok := by
  unfold World.alloc
  split
  · exact h
  rename_i units hu
  split
  · rename_i offset inner ht
    exact h.tryChunks (unitsFor_pos hu) ht
  · rename_i inner ht
    exact (h.tryChunks (unitsFor_pos hu) ht).rememberWant _

theorem Ok.allocWithStore (h : w.Ok) {r : Option ℕ}
    (hr : w.allocWithStore store len call = some (r, w')) : w'.Ok := by
  unfold World.allocWithStore at hr
  split at hr
  · obtain ⟨-, rfl⟩ := Prod.mk.inj (Option.some.inj hr)
    exact h
  rename_i units hu
  split at hr
  · rename_i offset inner ht
    obtain ⟨-, rfl⟩ := Prod.mk.inj (Option.some.inj hr)
    exact h.tryChunks (unitsFor_pos hu) ht
  rename_i inner ht
  have h₁ := h.tryChunks (unitsFor_pos hu) ht
  split at hr
  · obtain ⟨-, rfl⟩ := Prod.mk.inj (Option.some.inj hr)
    exact h₁
  obtain ⟨⟨refilled, w₂⟩, hrefill, hr⟩ := Option.map_eq_some_iff.mp hr
  have h₂ := h₁.refillWithStoreLocked hrefill
  dsimp only at hr
  split at hr
  · split at hr
    · rename_i offset inner' ht'
      obtain ⟨-, rfl⟩ := Prod.mk.inj hr
      exact h₂.tryChunks (unitsFor_pos hu) ht'
    · rename_i inner' ht'
      obtain ⟨-, rfl⟩ := Prod.mk.inj hr
      exact (h₂.tryChunks (unitsFor_pos hu) ht').rememberWant _
  · obtain ⟨-, rfl⟩ := Prod.mk.inj hr
    exact h₂.rememberWant _

theorem Ok.maybeRefill (h : w.Ok) (hr : w.maybeRefill store call = some w') : w'.Ok := by
  unfold World.maybeRefill at hr
  split at hr
  · cases hr
    exact h
  · obtain ⟨⟨r, w₁⟩, hrefill, rfl⟩ := Option.map_eq_some_iff.mp hr
    exact h.refillWithStoreLocked hrefill

omit [NapiMemoryAccountant α] in
theorem Ok.freeOffset (h : w.Ok) (offset : ℕ) :
    ∃ w', w.freeOffset offset = some (decide (offset ∈ w.heap.inner.live), w') ∧ w'.Ok := by
  obtain ⟨inner, hf, hok, hsame⟩ := h.inner.freeOffset h.max_le offset
  refine ⟨w.setInner inner, ?_, h.setInner hok hsame⟩
  unfold World.freeOffset
  rw [hf]
  rfl

theorem Ok.drop (h : w.Ok) : w.drop.Ok := by
  unfold World.drop
  split
  · exact h.of_heap rfl rfl rfl rfl
  · exact h

omit [NapiMemoryAccountant α] in
theorem ok_fresh (b : ResourceBudget α) (others : Pool → ℕ) (m : LinearMemory) (ty : MemoryType)
    (store : ℕ) : (fresh b others m ty store : World α A).Ok := by
  refine ⟨⟨⟨nofun, List.Pairwise.nil⟩, nofun, rfl⟩, ?_, nofun, ?_, nofun⟩
  · have hle : ty.maxPages ≤ 65536 := Nat.min_le_right _ _
    exact Nat.mul_le_mul_right wasmPageSize hle
  · intro g hg
    obtain rfl := List.mem_singleton.mp hg
    exact Nat.le_of_eq (Nat.zero_add _)

theorem ok_new {b : ResourceBudget α} {others : Pool → ℕ} {m : LinearMemory} {ty : MemoryType}
    (hn : new b others m ty store call = some (some w)) : w.Ok := by
  unfold new at hn
  split at hn
  · cases hn
  split at hn
  · cases hn
  split at hn
  · cases hn
  obtain ⟨⟨r, w₁⟩, hrefill, heq⟩ := Option.map_eq_some_iff.mp hn
  cases heq
  exact (ok_fresh b others m ty store).refillWithStoreLocked hrefill

end

end World
end WasmerNapi
