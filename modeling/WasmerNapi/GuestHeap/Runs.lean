import WasmerNapi.GuestHeap.Invariant

/-!
# The guest heap over whole runs

One heap, from `new` to its drop, under any sequence of operations by any number of
callers. `free_host_ptr` takes the mutex twice, so it is two moves, and what happens in
between — the same block freed by somebody else, and handed out again — is one of the
runs. The guest's grows, the other owners of the budget, backends that fail and bases
that move all come from outside: `Interference` and `GrowCall`.

`Represented` is what the tables of `GuestHeap/Invariant.lean` come to in terms of
addresses, and `heap_represented` says it of every state of every run.
-/

namespace WasmerNapi

open Word Run Budget LawfulOffsetAllocator

/-- A heap in use. `checked` holds, for each `free_host_ptr` between its two halves, the
    offset it is about to free. -/
structure HeapRun (ι α A : Type) where
  world : World α A
  checked : ι → Option ℕ
  dropped : Bool

inductive HeapAct (ι α : Type) where
  | alloc (len : ℕ)
  | allocWithStore (store len : ℕ) (call : World.GrowCall α)
  | maybeRefill (store : ℕ) (call : World.GrowCall α)
  | registerMemory (store : ℕ)
  | freeOffset (offset : ℕ)
  | checkHostPtr (i : ι) (ptr len : ℕ)
  | freeChecked (i : ι)
  | drop
  | interfere (x : World.Interference α)

namespace HeapRun

variable {ι α A : Type} [DecidableEq ι] [NapiMemoryAccountant α]

/-- A heap just made. -/
def start (w : World α A) : HeapRun ι α A := { world := w, checked := fun _ => none, dropped := false }

/-- A dropped heap takes no calls; its memory lives on. -/
def step [OffsetAllocator A] (s : HeapRun ι α A) : HeapAct ι α → Option (HeapRun ι α A)
  | .interfere x => (s.world.interfere x).map fun world => { s with world }
  | act =>
    if s.dropped then none
    else
      match act with
      | .alloc len => some { s with world := (s.world.alloc len).2 }
      | .allocWithStore store len call =>
        (s.world.allocWithStore store len call).map fun r => { s with world := r.2 }
      | .maybeRefill store call =>
        (s.world.maybeRefill store call).map fun world => { s with world }
      | .registerMemory store => some { s with world := s.world.registerMemory store }
      | .freeOffset offset => (s.world.freeOffset offset).map fun r => { s with world := r.2 }
      | .checkHostPtr i ptr len =>
        some { s with checked := Function.update s.checked i (s.world.heap.checkHostPtr ptr len) }
      | .freeChecked i =>
        match s.checked i with
        | none => some s
        | some offset =>
          (s.world.freeOffset offset).map fun r =>
            { s with world := r.2, checked := Function.update s.checked i none }
      | .drop => some { s with world := s.world.drop, dropped := true }
      | .interfere _ => none

/-- The two halves of a `free_host_ptr`, back to back, are the whole call. -/
theorem run_freeHostPtr [OffsetAllocator A] {s : HeapRun ι α A} (hd : s.dropped = false) (i : ι)
    (ptr len : ℕ) :
    (run step s [.checkHostPtr i ptr len, .freeChecked i]).map (·.world) =
      (s.world.freeHostPtr ptr len).map Prod.snd := by
  unfold World.freeHostPtr
  cases hc : s.world.heap.checkHostPtr ptr len with
  | none => simp [run, step, hd, hc]
  | some offset => cases hf : s.world.freeOffset offset <;> simp [run, step, hd, hc, hf]

variable [LawfulOffsetAllocator A] {s s' : HeapRun ι α A} {a : HeapAct ι α}

/-- One case per move. -/
theorem ok_step (h : s.world.Ok) (hs : s.step a = some s') : s'.world.Ok := by
  cases a with
  | interfere x =>
    obtain ⟨w, hw, rfl⟩ := Option.map_eq_some_iff.mp hs
    exact h.interfered (World.interfere_spec hw)
  | alloc len =>
    simp only [step] at hs
    split at hs
    · cases hs
    · cases hs
      exact h.alloc len
  | allocWithStore store len call =>
    simp only [step] at hs
    split at hs
    · cases hs
    · obtain ⟨⟨r, w⟩, hw, rfl⟩ := Option.map_eq_some_iff.mp hs
      exact h.allocWithStore hw
  | maybeRefill store call =>
    simp only [step] at hs
    split at hs
    · cases hs
    · obtain ⟨w, hw, rfl⟩ := Option.map_eq_some_iff.mp hs
      exact h.maybeRefill hw
  | registerMemory store =>
    simp only [step] at hs
    split at hs
    · cases hs
    · cases hs
      exact h.registerMemory store
  | freeOffset offset =>
    simp only [step] at hs
    split at hs
    · cases hs
    · obtain ⟨⟨r, w⟩, hw, rfl⟩ := Option.map_eq_some_iff.mp hs
      obtain ⟨w', hf, hok⟩ := h.freeOffset offset
      obtain ⟨-, rfl⟩ := Prod.mk.inj (Option.some.inj (hf.symm.trans hw))
      exact hok
  | checkHostPtr i ptr len =>
    simp only [step] at hs
    split at hs
    · cases hs
    · cases hs
      exact h
  | freeChecked i =>
    simp only [step] at hs
    split at hs
    · cases hs
    · split at hs
      · cases hs
        exact h
      · rename_i offset _
        obtain ⟨⟨r, w⟩, hw, rfl⟩ := Option.map_eq_some_iff.mp hs
        obtain ⟨w', hf, hok⟩ := h.freeOffset offset
        obtain ⟨-, rfl⟩ := Prod.mk.inj (Option.some.inj (hf.symm.trans hw))
        exact hok
  | drop =>
    simp only [step] at hs
    split at hs
    · cases hs
    · cases hs
      exact h.drop

theorem ok_run {w : World α A} {as : List (HeapAct ι α)} (h : w.Ok)
    (hr : run step (start w) as = some s) : s.world.Ok :=
  Run.invariant (fun _ _ _ hs hok => ok_step hok hs) hr h

end HeapRun

namespace World

variable {α A : Type}

/-- The heap's tables, as a statement about addresses. -/
structure Represented (w : World α A) : Prop where
  aligned : ∀ offset l, w.heap.inner.live.lookup offset = some l → unit ∣ offset
  in_chunk : ∀ offset l, w.heap.inner.live.lookup offset = some l →
    l.len ≤ (l.span offset).len ∧
    ∃ c, w.heap.inner.chunks[l.chunkIdx]? = some c ∧ (l.span offset).Inside c.span
  in_max : ∀ offset l, w.heap.inner.live.lookup offset = some l →
    (l.span offset).stop ≤ w.heap.maxBytes
  off_guest : ∀ offset l, w.heap.inner.live.lookup offset = some l →
    ∀ g ∈ w.guest, (l.span offset).Apart g
  live_apart : ∀ offset l offset' l', w.heap.inner.live.lookup offset = some l →
    w.heap.inner.live.lookup offset' = some l' → offset ≠ offset' →
      (l.span offset).Apart (l'.span offset')
  chunks_apart : (w.heap.inner.chunks.map Chunk.span).Pairwise Span.Apart
  free_eq : w.heap.inner.freeBytes +
      unit * Table.total (fun _ l => l.units) w.heap.inner.live =
    (w.heap.inner.chunks.map Chunk.len).sum

variable [LawfulOffsetAllocator A]

theorem Ok.represented {w : World α A} (h : w.Ok) : w.Represented := by
  have hbacked := h.inner.live
  have hchunk : ∀ offset l, w.heap.inner.live.lookup offset = some l →
      ∃ c, w.heap.inner.chunks[l.chunkIdx]? = some c ∧ c.Ok w.heap.maxBytes ∧
        c.span ∈ w.heap.inner.spans ∧ l.BackedBy c offset := by
    intro offset l hl
    obtain ⟨c, hi, hb⟩ := hbacked offset l hl
    have hmem := List.mem_of_getElem? hi
    exact ⟨c, hi, h.inner.chunks.each c hmem, List.mem_map.mpr ⟨c, hmem, rfl⟩, hb⟩
  refine ⟨?_, ?_, ?_, ?_, ?_, h.inner.chunks.apart, ?_⟩
  · intro offset l hl
    obtain ⟨c, -, hck, -, hb⟩ := hchunk offset l hl
    exact hb.aligned hck
  · intro offset l hl
    obtain ⟨c, hi, hck, -, hb⟩ := hchunk offset l hl
    exact ⟨hb.len_le, c, hi, hb.inside hck⟩
  · intro offset l hl
    obtain ⟨c, -, hck, -, hb⟩ := hchunk offset l hl
    exact (hb.inside hck).2.trans hck.bound
  · intro offset l hl g hg
    obtain ⟨c, -, hck, hmem, hb⟩ := hchunk offset l hl
    exact (h.apart g hg c.span hmem).mono (hb.inside hck) ⟨Nat.le_refl _, Nat.le_refl _⟩
  · intro offset l offset' l' hl hl' hne
    exact HeapInner.live_apart h.inner.chunks hbacked hl hl' hne
  · have hfree := h.inner.free
    have hlens : w.heap.inner.spans.map Span.len = w.heap.inner.chunks.map Chunk.len := by
      rw [HeapInner.spans, List.map_map]
      rfl
    rw [hlens] at hfree
    rw [← hfree, Table.mul_total]
    simp only [Nat.mul_comm]

end World

/-- **The representation of every run.** From any memory `new` accepts, under any sequence
    of heap calls, guest grows, failed grows and budget denials. -/
theorem heap_represented {ι α A : Type} [DecidableEq ι] [NapiMemoryAccountant α]
    [LawfulOffsetAllocator A] {b : ResourceBudget α} {others : Pool → ℕ} {m : LinearMemory}
    {ty : World.MemoryType} {store : ℕ} {call : World.GrowCall α} {w : World α A}
    {as : List (HeapAct ι α)} {s : HeapRun ι α A}
    (hn : World.new b others m ty store call = some (some w))
    (hr : run HeapRun.step (HeapRun.start w) as = some s) : s.world.Represented :=
  (HeapRun.ok_run (World.ok_new hn) hr).represented

/-! ## A bump allocator

The smallest thing that meets the contract: units are handed out in order and a freed
range is not used again. -/

structure Bump where
  size : ℕ
  next : ℕ
  serial : ℕ
  taken : AList fun _ : Allocation => ℕ
  next_le : next ≤ size
  below : ∀ al r, taken.lookup al = some r → al.metadata < serial ∧ al.offset + r ≤ next
  apart : ∀ al r al' r', taken.lookup al = some r → taken.lookup al' = some r' → al ≠ al' →
    (Span.mk al.offset r).Apart (Span.mk al'.offset r')

namespace Bump

def withMaxAllocs (size _maxAllocs : ℕ) : Bump where
  size := size
  next := 0
  serial := 0
  taken := ∅
  next_le := Nat.zero_le _
  below := nofun
  apart := nofun

def allocate (a : Bump) (n : ℕ) : Option (Allocation × Bump) :=
  if hn : a.next + n ≤ a.size then
    some (⟨a.next, a.serial⟩, {
      size := a.size
      next := a.next + n
      serial := a.serial + 1
      taken := a.taken.insert ⟨a.next, a.serial⟩ n
      next_le := hn
      below := by
        intro al r h
        rcases Table.lookup_insert_iff.mp h with ⟨rfl, rfl⟩ | ⟨_, h⟩
        · exact ⟨Nat.lt_succ_self _, Nat.le_refl _⟩
        · have := a.below al r h
          omega
      apart := by
        -- The new range starts at `next`, above every range there was.
        have hnew : ∀ al r, a.taken.lookup al = some r →
            (Span.mk al.offset r).Apart (Span.mk a.next n) :=
          fun al r h => Span.apart_of_stop_le (a.below al r h).2
        intro al r al' r' h h' hne
        rcases Table.lookup_insert_iff.mp h with ⟨rfl, rfl⟩ | ⟨_, h₀⟩
        · rw [AList.lookup_insert_ne (Ne.symm hne)] at h'
          exact (hnew al' r' h').symm
        · rcases Table.lookup_insert_iff.mp h' with ⟨rfl, rfl⟩ | ⟨_, h₀'⟩
          · exact hnew al r h₀
          · exact a.apart al r al' r' h₀ h₀' hne })
  else none

def free (a : Bump) (al : Allocation) : Bump where
  size := a.size
  next := a.next
  serial := a.serial
  taken := a.taken.erase al
  next_le := a.next_le
  below := fun al' r h => a.below al' r (Table.lookup_erase_iff.mp h).2
  apart := fun al' r al'' r' h h' =>
    a.apart al' r al'' r' (Table.lookup_erase_iff.mp h).2 (Table.lookup_erase_iff.mp h').2

instance : LawfulOffsetAllocator Bump where
  withMaxAllocs := withMaxAllocs
  allocate := allocate
  allocationSize a al := (a.taken.lookup al).getD 0
  free := free
  capacity := size
  held a al := a.taken.lookup al
  capacity_withMaxAllocs _ _ := rfl
  held_withMaxAllocs _ _ _ := rfl
  in_range {a al _} h := (a.below al _ h).2.trans a.next_le
  apart {a _ _ _ _} h h' hne := a.apart _ _ _ _ h h' hne
  capacity_allocate {a n al a'} h := by
    unfold allocate at h
    split at h
    · obtain ⟨-, rfl⟩ := Prod.mk.inj (Option.some.inj h)
      rfl
    · cases h
  held_allocate {a n al a'} h := by
    unfold allocate at h
    split at h
    · obtain ⟨rfl, rfl⟩ := Prod.mk.inj (Option.some.inj h)
      refine ⟨?_, n, Nat.le_refl _, ?_⟩
      · by_contra hne
        obtain ⟨r, hr⟩ := Option.ne_none_iff_exists'.mp hne
        exact absurd (a.below _ r hr).1 (Nat.lt_irrefl _)
      · funext al
        by_cases heq : al = ⟨a.next, a.serial⟩
        · subst heq
          rw [AList.lookup_insert, Function.update_self]
        · rw [AList.lookup_insert_ne heq, Function.update_of_ne heq]
    · cases h
  allocationSize_eq h := by rw [h]; rfl
  capacity_free _ := rfl
  held_free {a al _} _ := by
    funext al'
    by_cases heq : al' = al
    · subst heq
      show (a.taken.erase al').lookup al' = _
      rw [Function.update_self, AList.lookup_erase]
    · show (a.taken.erase al).lookup al' = _
      rw [Function.update_of_ne heq, AList.lookup_erase_ne heq]

end Bump

/-! One run of it: an arena on a budget of 64 MiB, two blocks, a guest grow in the middle
of a claim, a pointer forged and a block freed. -/

def quietGrow (base : ℕ) : World.GrowCall Empty :=
  { before := [], inner := true, after := [], baseNow := base }

def arenaMemory : World.MemoryType := { maximum := some 2048, base := 4096, style := .static 65536 }

/-- 64 pages from plain tunables, and the arena over them. -/
def arena : Option (Option (World Empty Bump)) :=
  World.new (ResourceBudget.withMemoryLimit (64 * mib)) (fun _ => 0) (.plain 64) arenaMemory 0
    (quietGrow 4096)

def contended : List (HeapAct Bool Empty) :=
  [.alloc 100,
   .allocWithStore 0 (20 * mib) { quietGrow 4096 with
     before := [.guestGrow 3 true], after := [.guestGrow 5 true] },
   .checkHostPtr true (4096 + 64 * 65536) 0,
   .checkHostPtr false 5000 0,
   .freeChecked false,
   .alloc 64,
   .freeChecked true]

theorem contended_represented :
    ∃ w s, arena = some (some w) ∧ run HeapRun.step (HeapRun.start w) contended = some s ∧
      s.world.heap.inner.live.keys = [4194416, 23330816] ∧
      s.world.heap.inner.freeBytes = 21626816 ∧ s.world.Represented := by
  have hruns : (arena.bind fun w => w.bind fun w =>
      (run HeapRun.step (HeapRun.start w) contended).map fun s =>
        (s.world.heap.inner.live.keys, s.world.heap.inner.freeBytes)) =
      some ([4194416, 23330816], 21626816) := by
    decide
  obtain ⟨w', hw, hruns⟩ := Option.bind_eq_some_iff.mp hruns
  obtain ⟨w, rfl, hruns⟩ := Option.bind_eq_some_iff.mp hruns
  obtain ⟨s, hs, heq⟩ := Option.map_eq_some_iff.mp hruns
  obtain ⟨hkeys, hfree⟩ := Prod.mk.inj heq
  exact ⟨w, s, hw, hs, hkeys, hfree, heap_represented hw hs⟩

end WasmerNapi
