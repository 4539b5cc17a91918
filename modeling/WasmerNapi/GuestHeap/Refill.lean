import WasmerNapi.Lib.Bins
import WasmerNapi.GuestHeap.Runs

/-!
# What a grow is for

`alloc_with_store` grows the guest's memory when no chunk has room, and then tries the
chunks again. Whether the second try finds room is a matter of numbers: the unit allocator
rounds the request up to a size bin and the fresh chunk down to one, `chunk_size_for` adds
an eighth and a page for that, and the claim passes through pages and back into 32 bits.
-/

namespace WasmerNapi

open Word Run Budget LawfulOffsetAllocator

/-- What else the heap relies on: a fresh allocator with a node to spare files all of its
    units under one bin and looks a request up under another, eight bins to an octave. -/
class BinnedOffsetAllocator (A : Type) extends LawfulOffsetAllocator A where
  allocate_fresh : ∀ {size maxAllocs n}, 0 < maxAllocs → Bins.ceil 3 n ≤ Bins.floor 3 size →
    (allocate (withMaxAllocs size maxAllocs) n).isSome

/-! ## The numbers -/

theorem le_claimPages (minBytes : ℕ) :
    chunkSizeFor minBytes ≤ pagesToBytes (World.claimPages minBytes) := by
  unfold World.claimPages pagesToBytes wasmPageSize
  omega

theorem claimPages_le (minBytes : ℕ) :
    World.claimPages minBytes ≤ 65536 := by
  have hsize : chunkSizeFor minBytes ≤ 2 ^ 32 - 1 := by
    unfold chunkSizeFor saturatingAdd minChunkBytes
    omega
  unfold World.claimPages wasmPageSize
  omega

/-- Short of the full 65536 pages nothing saturated, and the claim has its headroom. -/
theorem headroom {minBytes : ℕ} (h : World.claimPages minBytes < 65536) :
    minBytes + minBytes / 8 + wasmPageSize ≤ pagesToBytes (World.claimPages minBytes) := by
  have hle := le_claimPages minBytes
  have hlt : pagesToBytes (World.claimPages minBytes) ≤ 65535 * 65536 := by
    unfold pagesToBytes wasmPageSize
    omega
  have hsize : chunkSizeFor minBytes ≤ 65535 * 65536 := hle.trans hlt
  have hsum : min (min (minBytes + minBytes / 8) (2 ^ 32 - 1) + wasmPageSize) (2 ^ 32 - 1) ≤
      chunkSizeFor minBytes := Nat.le_max_left _ _
  simp only [wasmPageSize] at hsum ⊢
  omega

/-- The fresh chunk's bin is not below the request's. -/
theorem claim_covers {units : ℕ} (h : World.claimPages (units * unit) < 65536) :
    Bins.ceil 3 units ≤
      Bins.floor 3 (truncate 32 (pagesToBytes (World.claimPages (units * unit))) / unit) := by
  have hroom := headroom h
  have hlt : pagesToBytes (World.claimPages (units * unit)) < 2 ^ 32 := by
    unfold pagesToBytes wasmPageSize
    omega
  rw [truncate_of_lt hlt, Bins.ceil_le_floor]
  have hceil := Bins.ceil_le 3 units
  simp only [unit, wasmPageSize] at hroom ⊢
  omega

theorem chunkMaxAllocs_pos (len : ℕ) : 0 < chunkMaxAllocs len :=
  Nat.lt_of_lt_of_le (show 0 < minChunkAllocs by decide) (Nat.le_max_left _ _)

/-! ## A miss, and what the chunks say after it -/

namespace HeapInner

section

variable {A : Type} [OffsetAllocator A]

/-- Chunks that refuse are passed over. -/
theorem tryChunksFrom_refused (inner : HeapInner A) {units : ℕ} {todo : List (Chunk A)}
    (hall : ∀ c ∈ todo, OffsetAllocator.allocate c.alloc units = none) (rest : List (Chunk A))
    (idx : ℕ) :
    inner.tryChunksFrom units (todo ++ rest) idx =
      inner.tryChunksFrom units rest (idx + todo.length) := by
  induction todo generalizing idx with
  | nil => rfl
  | cons c todo ih =>
    have hc := hall c (List.mem_cons_self ..)
    have htodo := ih (fun d hd => hall d (List.mem_cons_of_mem _ hd)) (idx + 1)
    simp only [List.cons_append, tryChunksFrom, hc, htodo, List.length_cons]
    congr 1
    omega

end

variable {A : Type} [LawfulOffsetAllocator A] {inner : HeapInner A} {maxBytes units : ℕ}

/-- A miss of a heap in order is every chunk's refusal. -/
theorem Ok.refused (h : inner.Ok maxBytes) (hmax : maxBytes ≤ 2 ^ 32) (hunits : 0 < units)
    {todo : List (Chunk A)} {idx : ℕ} (hdrop : inner.chunks.drop idx = todo)
    (hmiss : (inner.tryChunksFrom units todo idx).1 = none) :
    ∀ c ∈ todo, OffsetAllocator.allocate c.alloc units = none := by
  induction todo generalizing idx with
  | nil =>
    intro c hc
    cases hc
  | cons chunk todo ih =>
    have hi : inner.chunks[idx]? = some chunk := by
      have hget : (inner.chunks.drop idx)[0]? = inner.chunks[idx + 0]? := List.getElem?_drop
      rw [hdrop] at hget
      simpa using hget.symm
    have hdrop' : inner.chunks.drop (idx + 1) = todo := by
      rw [← List.tail_drop, hdrop, List.tail_cons]
    cases hal : OffsetAllocator.allocate chunk.alloc units with
    | some r =>
      obtain ⟨allocation, alloc⟩ := r
      obtain ⟨offset, inner', hp, -⟩ := h.placeIn hmax hunits hi hal
      simp [tryChunksFrom, hal, hp] at hmiss
    | none =>
      simp only [tryChunksFrom, hal] at hmiss
      intro c hc
      rcases List.mem_cons.mp hc with rfl | hc
      · exact hal
      · exact ih hdrop' hmiss c hc

/-- After a miss the chunk that was added last decides. -/
theorem tryChunks_isSome_iff {inner' : HeapInner A} {chunk : Chunk A}
    (h : inner.Ok maxBytes) (h' : inner'.Ok maxBytes) (hmax : maxBytes ≤ 2 ^ 32)
    (hunits : 0 < units) (hmiss : (inner.tryChunks units).1 = none)
    (hchunks : inner'.chunks = inner.chunks ++ [chunk]) :
    (inner'.tryChunks units).1.isSome ↔
      (OffsetAllocator.allocate chunk.alloc units).isSome := by
  have hall := h.refused hmax hunits (show inner.chunks.drop 0 = inner.chunks from rfl) hmiss
  have hlast : inner'.tryChunks units =
      inner'.tryChunksFrom units [chunk] inner.chunks.length := by
    rw [HeapInner.tryChunks, hchunks, tryChunksFrom_refused inner' hall, Nat.zero_add]
  have hi : inner'.chunks[inner.chunks.length]? = some chunk := by simp [hchunks]
  rw [hlast]
  cases hal : OffsetAllocator.allocate chunk.alloc units with
  | none => simp [tryChunksFrom, hal]
  | some r =>
    obtain ⟨allocation, alloc⟩ := r
    obtain ⟨offset, inner'', hp, -⟩ := h'.placeIn hmax hunits hi hal
    simp [tryChunksFrom, hal, hp]

/-- A miss changes nothing. -/
theorem Ok.tryChunks_miss (h : inner.Ok maxBytes) (hmax : maxBytes ≤ 2 ^ 32)
    (hunits : 0 < units) (hmiss : (inner.tryChunks units).1 = none) :
    (inner.tryChunks units).2 = inner := by
  have hall := h.refused hmax hunits (show inner.chunks.drop 0 = inner.chunks from rfl) hmiss
  have := tryChunksFrom_refused inner hall [] 0
  rw [List.append_nil] at this
  rw [HeapInner.tryChunks, this]
  rfl

end HeapInner

/-! ## The call -/

namespace World

section

variable {α A : Type} [NapiMemoryAccountant α] [OffsetAllocator A]

/-- The size in pages that a refill's `Memory::grow` returns: `none` when the refill does
    not get that far, or the grow fails. -/
def grownFrom (w : World α A) (store minBytes : ℕ) (call : GrowCall α) : Option ℕ :=
  if store ∉ w.heap.inner.memories then none
  else
    match chargeClaim w.budget (pagesToBytes (claimPages minBytes)) with
    | (none, _) => none
    | (some _, budget) =>
      (run interfere { w with budget } call.before).bind fun w =>
        match w.memory.grow w.budget (claimPages minBytes) call.inner with
        | (.error _, _, _) => none
        | (.ok prev, _, _) => some prev

/-- A request of `len` bytes that no chunk has room for: it will ask for `needed`. -/
structure Missed (w : World α A) (len units needed : ℕ) : Prop where
  sized : w.heap.unitsFor len = some units
  noRoom : (w.heap.inner.tryChunks units).1 = none
  needs : checkedMul 32 units unit = some needed

/-- The heap the first try leaves. -/
def afterMiss (w : World α A) (units : ℕ) : World α A :=
  w.setInner (w.heap.inner.tryChunks units).2

/-- A grow serves the allocation that asked for it: a refill that says it succeeded is
    followed by a try that does, and no call grows the memory and returns nothing. -/
structure GrowServes (w : World α A) (store len : ℕ) (call : GrowCall α) : Prop where
  served : ∀ units needed w', w.Missed len units needed →
    (w.afterMiss units).refillWithStoreLocked store needed call = some (true, w') →
    (w'.heap.inner.tryChunks units).1.isSome
  kept : ∀ units needed prev w', w.Missed len units needed →
    (w.afterMiss units).grownFrom store needed call = some prev →
    w.allocWithStore store len call ≠ some (none, w')

/-- `Memory::grow` never takes a memory past its maximum. -/
def GrowEnforcesMaximum (w : World α A) (store len : ℕ) (call : GrowCall α) : Prop :=
  ∀ units needed prev, w.Missed len units needed →
    (w.afterMiss units).grownFrom store needed call = some prev →
    pagesToBytes (prev + claimPages needed) ≤ w.heap.maxBytes

/-- The claim of a request that grows an empty memory is short of the whole 4 GiB. -/
def ClaimFits (w : World α A) (store len : ℕ) (call : GrowCall α) : Prop :=
  ∀ units needed, w.Missed len units needed →
    (w.afterMiss units).grownFrom store needed call = some 0 → claimPages needed < 65536

variable {w w' : World α A} {store len units needed prev : ℕ} {call : GrowCall α} {r : Bool}

/-- What a call that missed returns is what its refill and the second try say. -/
theorem allocWithStore_of_missed {out : Option ℕ × World α A} (h : w.Missed len units needed)
    (hr : w.allocWithStore store len call = some out) :
    ∃ r w', (w.afterMiss units).refillWithStoreLocked store needed call = some (r, w') ∧
      out.1 = if r then (w'.heap.inner.tryChunks units).1 else none := by
  unfold World.allocWithStore at hr
  rw [h.sized] at hr
  cases ht : w.heap.inner.tryChunks units with
  | mk found inner =>
    have hfound : found = none := by
      have := h.noRoom
      rwa [ht] at this
    subst hfound
    simp only [h.needs, ht] at hr
    obtain ⟨⟨r, w'⟩, hrefill, rfl⟩ := Option.map_eq_some_iff.mp hr
    refine ⟨r, w', ?_, ?_⟩
    · rw [afterMiss, ht]
      exact hrefill
    · cases r with
      | false => rfl
      | true =>
        dsimp only
        cases w'.heap.inner.tryChunks units with
        | mk found inner => cases found <;> rfl

/-- A refill that grew goes on to its claim, with the heap as it was. -/
theorem finishClaim_of_grownFrom (hg : w.grownFrom store needed call = some prev)
    (hr : w.refillWithStoreLocked store needed call = some (r, w')) :
    ∃ (w₂ : World α A) (charge : ℕ), w₂.heap = w.heap ∧
      (w₂.setInner { w₂.heap.inner with pendingWant := 0 }).finishClaim prev (claimPages needed)
        call.baseNow charge = some (r, w') := by
  unfold grownFrom at hg
  rcases refillWithStoreLocked_cases hr with ⟨hstore, -⟩ | ⟨hstore, budget, hcharge, -⟩ |
    ⟨hstore, charge, budget, w₁, e, memory, budget', hcharge, hbefore, hgrow, -⟩ |
    ⟨hstore, charge, budget, w₁, prev', memory, budget', w₂, hcharge, hbefore, hgrow, hafter, hf⟩
  · rw [if_pos hstore] at hg
    cases hg
  · rw [if_neg (not_not.mpr hstore), hcharge] at hg
    cases hg
  · rw [if_neg (not_not.mpr hstore), hcharge] at hg
    simp only [hbefore, Option.bind_some, hgrow] at hg
    cases hg
  · rw [if_neg (not_not.mpr hstore), hcharge] at hg
    simp only [hbefore, Option.bind_some, hgrow, Option.some.injEq] at hg
    subst hg
    have h₁ := (run_interfere_spec hbefore).heap
    have h₂ := (run_interfere_spec hafter).heap
    exact ⟨w₂, charge, h₂.trans h₁, hf⟩

/-- A refill that succeeded grew. -/
theorem grownFrom_of_refill (hr : w.refillWithStoreLocked store needed call = some (true, w')) :
    ∃ prev, w.grownFrom store needed call = some prev := by
  unfold refillWithStoreLocked at hr
  split at hr
  · cases hr
  · rename_i hstore
    dsimp only at hr
    split at hr
    · cases hr
    · rename_i charge budget hcharge
      obtain ⟨w₁, hbefore, hr⟩ := Option.bind_eq_some_iff.mp hr
      split at hr
      · cases hr
      · rename_i prev memory budget' hgrow
        refine ⟨prev, ?_⟩
        unfold grownFrom
        rw [if_neg hstore, hcharge]
        simp only [hbefore, Option.bind_some, hgrow]

omit [NapiMemoryAccountant α] in
/-- A claim that succeeds adds one chunk, and any claim within the maximum succeeds. -/
theorem finishClaim_cases {delta baseNow bytes : ℕ}
    (hf : w.finishClaim prev delta baseNow bytes = some (r, w')) :
    (r = false ∧ w.heap.maxBytes < pagesToBytes (prev + delta)) ∨
    (r = true ∧ pagesToBytes (prev + delta) ≤ w.heap.maxBytes ∧
      w'.heap.maxBytes = w.heap.maxBytes ∧
      w'.heap.inner.chunks = w.heap.inner.chunks ++
        [⟨truncate 32 (pagesToBytes prev), truncate 32 (pagesToBytes delta),
          OffsetAllocator.withMaxAllocs (truncate 32 (pagesToBytes delta) / unit)
            (chunkMaxAllocs (truncate 32 (pagesToBytes delta)))⟩]) := by
  rw [pagesToBytes_add]
  unfold World.finishClaim at hf
  split at hf
  · cases hf
  · dsimp only at hf
    split at hf
    · rename_i hmax
      obtain ⟨rfl, -⟩ := Prod.mk.inj (Option.some.inj hf)
      exact .inl ⟨rfl, hmax⟩
    · rename_i hmax
      obtain ⟨rfl, rfl⟩ := Prod.mk.inj (Option.some.inj hf)
      exact .inr ⟨rfl, Nat.le_of_not_lt hmax, rfl, rfl⟩

/-- A refill that grew within the maximum succeeds. -/
theorem refill_of_grownFrom (hg : w.grownFrom store needed call = some prev)
    (hr : w.refillWithStoreLocked store needed call = some (r, w'))
    (hbound : pagesToBytes (prev + claimPages needed) ≤ w.heap.maxBytes) : r = true := by
  obtain ⟨w₂, charge, hheap, hf⟩ := finishClaim_of_grownFrom hg hr
  obtain ⟨-, hlt⟩ | ⟨htrue, -⟩ := finishClaim_cases hf
  · simp only [World.setInner, hheap] at hlt
    omega
  · exact htrue

end

section

variable {α A : Type} [NapiMemoryAccountant α] [BinnedOffsetAllocator A]
  {w w' : World α A} {store len units needed prev : ℕ} {call : GrowCall α}

omit [NapiMemoryAccountant α] in
theorem Ok.afterMiss (h : w.Ok) (hm : w.Missed len units needed) : w.afterMiss units = w := by
  have := h.inner.tryChunks_miss h.max_le (unitsFor_pos hm.sized) hm.noRoom
  rw [World.afterMiss, this]
  rfl

/-- **The fresh chunk.** A refill that succeeded is followed by a try that does, exactly
    when its claim was not the whole 4 GiB: that one is truncated to an empty chunk. -/
theorem Ok.tryChunks_refilled (h : w.Ok) (hm : w.Missed len units needed)
    (hg : w.grownFrom store needed call = some prev)
    (hr : w.refillWithStoreLocked store needed call = some (true, w')) :
    (w'.heap.inner.tryChunks units).1.isSome ↔ claimPages needed < 65536 := by
  have hunits := unitsFor_pos hm.sized
  have hmul : needed = units * unit := (checkedMul_eq_some.mp hm.needs).2
  subst hmul
  obtain ⟨w₂, charge, hheap, hf⟩ := finishClaim_of_grownFrom hg hr
  have hok' : w'.Ok := h.refillWithStoreLocked hr
  obtain ⟨hfalse, -⟩ | ⟨-, -, hmax', hchunks⟩ := finishClaim_cases hf
  · cases hfalse
  · have hbefore : (w₂.setInner { w₂.heap.inner with pendingWant := 0 }).heap.inner.chunks =
        w.heap.inner.chunks := by simp only [World.setInner, hheap]
    have hinner : w'.heap.inner.Ok w.heap.maxBytes := by
      have := hok'.inner
      rw [hmax'] at this
      simpa only [World.setInner, hheap] using this
    rw [hbefore] at hchunks
    rw [HeapInner.tryChunks_isSome_iff h.inner hinner h.max_le hunits hm.noRoom hchunks]
    constructor
    · intro hsome
      by_contra hge
      have hfull : claimPages (units * unit) = 65536 :=
        Nat.le_antisymm (claimPages_le _) (Nat.le_of_not_lt hge)
      obtain ⟨⟨al, a'⟩, hal⟩ := Option.isSome_iff_exists.mp hsome
      obtain ⟨-, reserved, hres, hheld⟩ := held_allocate hal
      have hself : held a' al = some reserved := by rw [hheld, Function.update_self]
      have hin := in_range hself
      rw [capacity_allocate hal, capacity_withMaxAllocs, hfull] at hin
      have hempty : truncate 32 (pagesToBytes 65536) / unit = 0 := by decide
      omega
    · intro hlt
      exact BinnedOffsetAllocator.allocate_fresh (chunkMaxAllocs_pos _) (claim_covers hlt)

/-- **A grow serves the allocation that asked for it exactly when the claim fits** — for
    every request in every state, of a memory whose grows respect its maximum, when the
    call returns. -/
theorem Ok.growServes_iff (h : w.Ok) (hmax : w.GrowEnforcesMaximum store len call)
    (hret : (w.allocWithStore store len call).isSome) :
    w.GrowServes store len call ↔ w.ClaimFits store len call := by
  constructor
  · intro hserves units needed hm hg
    by_contra hge
    obtain ⟨out, halloc⟩ := Option.isSome_iff_exists.mp hret
    obtain ⟨r, w', hrefill, hout⟩ := allocWithStore_of_missed hm halloc
    have hbound := hmax units needed 0 hm hg
    rw [h.afterMiss hm] at hg hrefill
    obtain rfl := refill_of_grownFrom hg hrefill hbound
    have hnone : out.1 = none := by
      rw [hout, if_pos rfl, ← Option.not_isSome_iff_eq_none]
      intro hsome
      exact hge ((h.tryChunks_refilled hm hg hrefill).mp hsome)
    apply hserves.kept units needed 0 out.2 hm
    · rw [h.afterMiss hm]
      exact hg
    · rw [halloc, ← hnone]
  · intro hfits
    have hserved : ∀ units needed w', w.Missed len units needed →
        (w.afterMiss units).refillWithStoreLocked store needed call = some (true, w') →
        (w'.heap.inner.tryChunks units).1.isSome := by
      intro units needed w' hm hrefill
      obtain ⟨prev, hg⟩ := grownFrom_of_refill hrefill
      have hbound := hmax units needed prev hm hg
      have hle := h.max_le
      have hlt : claimPages needed < 65536 := by
        by_cases hprev : prev = 0
        · exact hfits units needed hm (hprev ▸ hg)
        · unfold pagesToBytes wasmPageSize at hbound
          omega
      rw [h.afterMiss hm] at hg hrefill
      exact (h.tryChunks_refilled hm hg hrefill).mpr hlt
    refine ⟨hserved, ?_⟩
    intro units needed prev w' hm hg halloc
    obtain ⟨r, w₁, hrefill, hout⟩ := allocWithStore_of_missed hm halloc
    have hbound := hmax units needed prev hm hg
    have hg' := hg
    have hrefill' := hrefill
    rw [h.afterMiss hm] at hg' hrefill'
    obtain rfl := refill_of_grownFrom hg' hrefill' hbound
    have hsome := hserved units needed w₁ hm hrefill
    rw [if_pos rfl] at hout
    rw [← hout] at hsome
    cases hsome

end
end World

/-- The same in every state of every run of a heap. -/
theorem grow_serves_iff {ι α A : Type} [DecidableEq ι] [NapiMemoryAccountant α]
    [BinnedOffsetAllocator A] {b : ResourceBudget α} {others : Pool → ℕ} {m : LinearMemory}
    {ty : World.MemoryType} {opener store len : ℕ} {opening call : World.GrowCall α}
    {w : World α A} {as : List (HeapAct ι α)} {s : HeapRun ι α A}
    (hn : World.new b others m ty opener opening = some (some w))
    (hr : run HeapRun.step (HeapRun.start w) as = some s)
    (hmax : s.world.GrowEnforcesMaximum store len call)
    (hret : (s.world.allocWithStore store len call).isSome) :
    s.world.GrowServes store len call ↔ s.world.ClaimFits store len call :=
  (HeapRun.ok_run (World.ok_new hn) hr).growServes_iff hmax hret

instance : BinnedOffsetAllocator Bump where
  allocate_fresh {size maxAllocs n} _ h := by
    have hle : n ≤ size := ((Bins.le_ceil 3 n).trans h).trans (Bins.floor_isGreatest 3 size).1.2
    show (Bump.allocate (Bump.withMaxAllocs size maxAllocs) n).isSome
    simp [Bump.allocate, Bump.withMaxAllocs, hle]

/-- The arena's 18 MiB are not enough for 20 MiB, and the grow that follows is. -/
theorem arena_grow_serves :
    ∃ w, arena = some (some w) ∧ w.GrowServes 0 (20 * mib) (quietGrow 4096) := by
  have harena : (arena.bind id).isSome := by decide
  obtain ⟨w, hw⟩ := Option.isSome_iff_exists.mp harena
  have hnew : arena = some (some w) := by
    obtain ⟨o, ho, hid⟩ := Option.bind_eq_some_iff.mp hw
    rw [ho, show o = some w from hid]
  have hruns : (arena.bind id).map (fun w =>
      (w.heap.unitsFor (20 * mib), w.heap.maxBytes,
        (w.afterMiss 1310720).grownFrom 0 (1310720 * unit) (quietGrow 4096),
        (w.allocWithStore 0 (20 * mib) (quietGrow 4096)).isSome)) =
      some (some 1310720, 2048 * 65536, some 353, true) := by
    decide
  rw [hw] at hruns
  simp only [Option.map_some, Option.some.injEq, Prod.mk.injEq] at hruns
  obtain ⟨hsized, hbytes, hgrown, hret⟩ := hruns
  have hmissed : ∀ units needed, w.Missed (20 * mib) units needed →
      units = 1310720 ∧ needed = 1310720 * unit := by
    intro units needed hm
    obtain rfl := Option.some.inj (hm.sized.symm.trans hsized)
    exact ⟨rfl, (checkedMul_eq_some.mp hm.needs).2⟩
  have hrun : run HeapRun.step (HeapRun.start w : HeapRun Bool Empty Bump) [] =
      some (HeapRun.start w) := rfl
  refine ⟨w, hnew, ?_⟩
  refine (grow_serves_iff hnew hrun ?_ hret).mpr ?_
  · intro units needed prev hm hg
    obtain ⟨rfl, rfl⟩ := hmissed units needed hm
    obtain rfl := Option.some.inj (hg.symm.trans hgrown)
    show pagesToBytes (353 + World.claimPages (1310720 * unit)) ≤ w.heap.maxBytes
    rw [hbytes]
    decide
  · intro units needed hm _
    obtain ⟨-, rfl⟩ := hmissed units needed hm
    decide

/-- A memory of no pages whose backend refused the arena: everything is still to claim. -/
def emptyArena : Option (Option (World Empty Bump)) :=
  World.new ResourceBudget.unlimited (fun _ => 0) (.plain 0)
    { maximum := some 65536, base := 4096, style := .static 65536 } 0
    { quietGrow 4096 with inner := false }

/-- 3840 MiB and their headroom are all of the 4 GiB: the grow succeeds, its length
    truncates to 0, and the allocation that asked for it gets nothing. -/
theorem emptyArena_starves :
    ∃ w, emptyArena = some (some w) ∧ ¬ w.GrowServes 0 (3840 * mib) (quietGrow 4096) := by
  have harena : (emptyArena.bind id).isSome := by decide
  obtain ⟨w, hw⟩ := Option.isSome_iff_exists.mp harena
  have hnew : emptyArena = some (some w) := by
    obtain ⟨o, ho, hid⟩ := Option.bind_eq_some_iff.mp hw
    rw [ho, show o = some w from hid]
  have hruns : (emptyArena.bind id).map (fun w =>
      (w.heap.unitsFor (3840 * mib), (w.heap.inner.tryChunks 251658240).1,
        (w.afterMiss 251658240).grownFrom 0 (251658240 * unit) (quietGrow 4096),
        (w.allocWithStore 0 (3840 * mib) (quietGrow 4096)).map Prod.fst)) =
      some (some 251658240, none, some 0, some none) := by
    decide
  rw [hw] at hruns
  simp only [Option.map_some, Option.some.injEq, Prod.mk.injEq] at hruns
  obtain ⟨hsized, hnoRoom, hgrown, halloc⟩ := hruns
  obtain ⟨⟨found, w'⟩, halloc, hfound⟩ := Option.map_eq_some_iff.mp halloc
  obtain rfl : found = none := hfound
  refine ⟨w, hnew, ?_⟩
  intro hserves
  exact hserves.kept 251658240 (251658240 * unit) 0 w' ⟨hsized, hnoRoom, by decide⟩ hgrown halloc

end WasmerNapi
