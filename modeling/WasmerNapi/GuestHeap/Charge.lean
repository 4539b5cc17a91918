import WasmerNapi.GuestHeap.Runs

/-!
# Who pays for the guest's pages

The command line gives one budget to two layers: `budgeted_tunables` makes the linear
memory charge every growth inside `Memory::grow`, and the guest heap over that memory
charges a claim before it calls `Memory::grow`. The heap leaves the charging to others
only when an embedder's accountant exists (`wasm_is_externally_accounted`, whose comment
says why: *charging again would count one allocation twice*). Without one, a claim is
charged by both, and the second charge is returned only when the heap is dropped.

`booked_of_new` is the accounting as it is, of every run from such a start: the pool shows
the memory's size and, until the drop, everything the heap has claimed a second time.
`chargedOnce_iff_claimless` says for which runs that is the size alone: those in which no
claim of the heap goes through. `arena_charged_twice` is the arena of an ordinary start.
-/

namespace WasmerNapi

open Word Run Budget
open ResourceBudget (accountant_tryCharge poolCounter_of_tryCharge_error pool_tryCharge_ok
  accountant_uncharge pool_uncharge)

/-! ## The configuration

Nothing but this memory and its heap is charged to `WasmLinear`; the V8 pools of the
same budget move as they like. -/

def Budget.OtherAct.OffWasm {α : Type} : OtherAct α → Prop
  | .tryCharge p _ => p ≠ .wasmLinear
  | .uncharge p _ => p ≠ .wasmLinear
  | .account _ => True

def World.Interference.OffWasm {α : Type} : World.Interference α → Prop
  | .guestGrow _ _ => True
  | .other a => a.OffWasm

structure World.GrowCall.OffWasm {α : Type} (call : World.GrowCall α) : Prop where
  before : ∀ x ∈ call.before, x.OffWasm
  after : ∀ x ∈ call.after, x.OffWasm

def HeapAct.OffWasm {ι α : Type} : HeapAct ι α → Prop
  | .allocWithStore _ _ call => call.OffWasm
  | .maybeRefill _ call => call.OffWasm
  | .interfere x => x.OffWasm
  | _ => True

namespace World

variable {α A : Type} [NapiMemoryAccountant α]

/-! ## The pool, the memory and the heap's second charge -/

/-- A budgeted memory whose pool shows its size and `twice` bytes more. -/
structure Metered (w : World α A) (twice : ℕ) : Prop where
  accountant : w.budget.accountant = none
  budgeted : ∃ m, w.memory = .budgeted m
  pages_lt : w.memory.pages < pagesBound
  pool : w.budget.poolCounter .wasmLinear = w.memory.bytes + twice

/-- The heap's books: what it has charged is what the pool shows too much, and it is for
    pages the memory has. -/
structure Booked (w : World α A) : Prop where
  metered : w.Metered w.heap.charged
  charged_le : w.heap.charged ≤ w.memory.bytes

variable {w w' : World α A} {twice : ℕ}

omit [NapiMemoryAccountant α] in
theorem Metered.bytes_lt (h : w.Metered twice) : w.memory.bytes < 2 ^ 48 := by
  have hp := h.pages_lt
  unfold LinearMemory.bytes pagesToBytes wasmPageSize pagesBound at *
  omega

variable {delta : ℕ} {b' : ResourceBudget α}

/-- A growth of a budgeted memory is charged inside `Memory::grow`: the extra stays. -/
theorem Metered.grow (h : w.Metered twice) (hlt : twice < 2 ^ 63) {inner : Bool}
    {r : Except MemoryError ℕ} {m' : LinearMemory}
    (hg : w.memory.grow w.budget delta inner = (r, m', b')) :
    ({ w with memory := m', budget := b' } : World α A).Metered twice := by
  obtain ⟨m, hm⟩ := h.budgeted
  have hbytes := h.bytes_lt
  have hpool := h.pool
  have hpages := h.pages_lt
  rw [hm] at hg
  simp only [LinearMemory.grow] at hg
  cases hgrow : BudgetedMemory.grow w.budget m delta (inner && decide (m.pages + delta < pagesBound))
    with | mk r₁ rest =>
  obtain ⟨m₁, b₁⟩ := rest
  rw [hgrow] at hg
  obtain ⟨-, rfl, rfl⟩ := Prod.mk.inj hg |>.imp_right Prod.mk.inj
  rcases BudgetedMemory.grow_cases hgrow with
    ⟨e, hc, -, rfl⟩ | ⟨hc, hinner, -, rfl⟩ | ⟨b₂, hc, -, -, rfl, rfl⟩
  · -- Over budget: nothing moved.
    refine ⟨accountant_tryCharge h.accountant hc, ⟨_, rfl⟩, ?_, ?_⟩
    · simpa only [hm] using hpages
    · show b₁.poolCounter .wasmLinear = _
      rw [poolCounter_of_tryCharge_error hc, hpool, hm]
  · have hfits : m.pages + delta < pagesBound := by
      simp only [Bool.and_eq_true, decide_eq_true_eq] at hinner
      exact hinner.2
    refine ⟨accountant_tryCharge h.accountant hc, ⟨_, rfl⟩, hfits, ?_⟩
    have hsize : w.memory.bytes = pagesToBytes m.pages := by rw [hm]; rfl
    show b₁.poolCounter .wasmLinear = pagesToBytes (m.pages + delta) + twice
    have hdelta : pagesToBytes m.pages + pagesToBytes delta < 2 ^ 48 := by
      rw [← pagesToBytes_add]
      unfold pagesToBytes wasmPageSize pagesBound at *
      omega
    rw [pool_tryCharge_ok hc (by omega), hpool, hsize, pagesToBytes_add]
    omega
  · -- The backend failed: the charge is given back.
    have hacc := accountant_tryCharge h.accountant hc
    refine ⟨accountant_uncharge hacc _ _, ⟨_, rfl⟩, ?_, ?_⟩
    · simpa only [hm] using hpages
    · show (b₂.uncharge .wasmLinear (pagesToBytes delta)).poolCounter .wasmLinear = _
      rw [ResourceBudget.pool_uncharge_tryCharge hc (by omega), hpool, hm]

theorem Metered.otherStep (h : w.Metered twice) {a : OtherAct α} (ha : a.OffWasm)
    {others' : Pool → ℕ} (ho : Budget.otherStep w.budget w.others a = some (b', others')) :
    ({ w with budget := b', others := others' } : World α A).Metered twice := by
  obtain ⟨hacc, hm, hpages, hpool⟩ := h
  cases a with
  | tryCharge p n =>
    simp only [Budget.otherStep] at ho
    split at ho
    · rename_i b₁ hc
      obtain ⟨rfl, rfl⟩ := Prod.mk.inj (Option.some.inj ho)
      refine ⟨accountant_tryCharge hacc hc, hm, hpages, ?_⟩
      show b₁.poolCounter .wasmLinear = _
      by_cases hn : n = 0
      · subst hn
        rw [ResourceBudget.tryCharge_zero] at hc
        rw [← (Prod.mk.inj hc).2, hpool]
      · rw [ResourceBudget.poolCounter_of_tryCharge_ok hn hc, if_neg (Ne.symm ha), hpool]
    · rename_i e b₁ hc
      obtain ⟨rfl, rfl⟩ := Prod.mk.inj (Option.some.inj ho)
      refine ⟨accountant_tryCharge hacc hc, hm, hpages, ?_⟩
      show b₁.poolCounter .wasmLinear = _
      rw [poolCounter_of_tryCharge_error hc, hpool]
  | uncharge p n =>
    simp only [Budget.otherStep] at ho
    split at ho
    · obtain ⟨rfl, rfl⟩ := Prod.mk.inj (Option.some.inj ho)
      refine ⟨accountant_uncharge hacc _ _, hm, hpages, ?_⟩
      show (w.budget.uncharge p n).poolCounter .wasmLinear = _
      by_cases hn : n = 0
      · subst hn
        rw [ResourceBudget.uncharge_zero, hpool]
      · rw [ResourceBudget.poolCounter_uncharge _ _ _ hn, if_neg (Ne.symm ha), hpool]
    · cases ho
  | account a' =>
    simp only [Budget.otherStep, hacc] at ho
    cases ho

theorem Metered.interfere (h : w.Metered twice) (hlt : twice < 2 ^ 63) {x : Interference α}
    (hx : x.OffWasm) (hi : w.interfere x = some w') : w'.Metered twice := by
  cases x with
  | guestGrow delta inner =>
    simp only [World.interfere] at hi
    split at hi
    · rename_i prev memory budget hg
      cases hi
      obtain ⟨h₁, h₂, h₃, h₄⟩ := h.grow hlt hg
      exact ⟨h₁, h₂, h₃, h₄⟩
    · rename_i e memory budget hg
      cases hi
      exact h.grow hlt hg
  | other a =>
    simp only [World.interfere, Option.map_eq_some_iff] at hi
    obtain ⟨⟨b', others'⟩, ho, rfl⟩ := hi
    exact h.otherStep hx ho

/-- Everything the guest and the V8 pools do while the heap waits. -/
theorem Metered.run (h : w.Metered twice) (hlt : twice < 2 ^ 63) {xs : List (Interference α)}
    (hx : ∀ x ∈ xs, x.OffWasm) (hr : Run.run World.interfere w xs = some w') :
    w'.Metered twice ∧ Interfered w w' := by
  refine ⟨?_, run_interfere_spec hr⟩
  induction xs generalizing w with
  | nil =>
    cases hr
    exact h
  | cons x xs ih =>
    obtain ⟨w₁, hs, hr'⟩ := run_cons_eq_some.mp hr
    exact ih (h.interfere hlt (hx x (List.mem_cons_self ..)) hs)
      (fun y hy => hx y (List.mem_cons_of_mem _ hy)) hr'

/-! ## When a claim goes through -/

/-- Whether the heap's own `Memory::grow` for `minBytes` succeeds: the store has a handle,
    the budget takes the heap's charge, and the memory then grows. -/
def claimGrows (w : World α A) (store minBytes : ℕ) (call : GrowCall α) : Bool :=
  decide (store ∈ w.heap.inner.memories) &&
    match chargeClaim w.budget (pagesToBytes (claimPages minBytes)) with
    | (none, _) => false
    | (some _, budget) =>
      match Run.run interfere { w with budget } call.before with
      | none => false
      | some w => (w.memory.grow w.budget (claimPages minBytes) call.inner).1.toBool

/-- Whether `maybe_refill` claims. -/
def refillClaims (w : World α A) (store : ℕ) (call : GrowCall α) : Bool :=
  !decide (lowWaterBytes ≤ w.heap.inner.freeBytes ∧ w.heap.inner.pendingWant = 0) &&
    w.claimGrows store (max w.heap.inner.pendingWant prefundBytes) call

/-- Whether `alloc_with_store` claims: the arena had no room. -/
def allocClaims [OffsetAllocator A] (w : World α A) (store len : ℕ) (call : GrowCall α) : Bool :=
  match w.heap.unitsFor len with
  | none => false
  | some units =>
    match w.heap.inner.tryChunks units with
    | (some _, _) => false
    | (none, inner) =>
      match checkedMul 32 units unit with
      | none => false
      | some needed => (w.setInner inner).claimGrows store needed call

theorem claimBytes_le (minBytes : ℕ) : pagesToBytes (claimPages minBytes) ≤ 2 ^ 32 := by
  have hsat : ∀ a b, saturatingAdd 32 a b ≤ 2 ^ 32 - 1 := fun a b => Nat.min_le_right _ _
  have hle : chunkSizeFor minBytes ≤ 2 ^ 32 - 1 := Nat.max_le.mpr ⟨hsat _ _, by decide⟩
  unfold pagesToBytes claimPages wasmPageSize
  omega

theorem claimBytes_pos (minBytes : ℕ) : 0 < pagesToBytes (claimPages minBytes) :=
  Nat.mul_pos (claimPages_pos minBytes) (by decide)

variable {r : Bool}

section

omit [NapiMemoryAccountant α]

theorem Booked.charged_lt (h : w.Booked) : w.heap.charged < 2 ^ 48 :=
  Nat.lt_of_le_of_lt h.charged_le h.metered.bytes_lt

theorem Booked.setInner (h : w.Booked) (inner : HeapInner A) : (w.setInner inner).Booked :=
  ⟨⟨h.metered.accountant, h.metered.budgeted, h.metered.pages_lt, h.metered.pool⟩, h.charged_le⟩

/-- The claim is entered in the heap's books whether or not its range can be used. -/
theorem Booked.finishClaim [OffsetAllocator A] {prev baseNow bytes : ℕ}
    (h : w.Metered (w.heap.charged + bytes)) (hle : w.heap.charged + bytes ≤ w.memory.bytes)
    (hf : w.finishClaim prev delta baseNow bytes = some (r, w')) :
    w'.Booked ∧ w'.heap.charged = w.heap.charged + bytes := by
  have hlt := h.bytes_lt
  have hwrap : wrappingAdd 64 w.heap.charged bytes = w.heap.charged + bytes :=
    wrappingAdd_of_lt (by omega)
  obtain ⟨h₁, h₂, h₃, h₄⟩ := h
  unfold World.finishClaim at hf
  split at hf
  · cases hf
  dsimp only at hf
  rw [hwrap] at hf
  split at hf
  · obtain ⟨-, rfl⟩ := Prod.mk.inj (Option.some.inj hf)
    exact ⟨⟨⟨h₁, h₂, h₃, h₄⟩, hle⟩, rfl⟩
  · obtain ⟨-, rfl⟩ := Prod.mk.inj (Option.some.inj hf)
    exact ⟨⟨⟨h₁, h₂, h₃, h₄⟩, hle⟩, rfl⟩

end

/-- With no accountant, the heap charges what it claims: `delta` bytes more than the pool
    should show. -/
theorem Booked.chargeClaim_ok (h : w.Booked) {charge : ℕ} (hd : delta ≤ 2 ^ 32)
    {budget : ResourceBudget α} (hc : chargeClaim w.budget delta = (some charge, budget)) :
    charge = delta ∧ ({ w with budget } : World α A).Metered (w.heap.charged + delta) := by
  have hext : w.budget.wasmIsExternallyAccounted = false := by
    simp [ResourceBudget.wasmIsExternallyAccounted, h.metered.accountant]
  have hcharged := h.charged_lt
  have hbytes := h.metered.bytes_lt
  have hpool := h.metered.pool
  unfold chargeClaim at hc
  rw [if_neg (by rw [hext]; exact Bool.false_ne_true)] at hc
  split at hc
  · cases (Prod.mk.inj hc).1
  · rename_i b₁ htry
    obtain ⟨hdelta, rfl⟩ := Prod.mk.inj hc
    refine ⟨(Option.some.inj hdelta).symm, ?_⟩
    refine ⟨accountant_tryCharge h.metered.accountant htry, h.metered.budgeted,
      h.metered.pages_lt, ?_⟩
    show b₁.poolCounter .wasmLinear = w.memory.bytes + (w.heap.charged + delta)
    rw [pool_tryCharge_ok htry (by omega), hpool, Nat.add_assoc]

theorem Booked.chargeClaim_none (h : w.Booked) {budget : ResourceBudget α}
    (hc : chargeClaim w.budget delta = (none, budget)) :
    ({ w with budget } : World α A).Booked := by
  unfold chargeClaim at hc
  split at hc
  · cases (Prod.mk.inj hc).1
  · split at hc
    · rename_i e b₁ htry
      obtain ⟨-, rfl⟩ := Prod.mk.inj hc
      refine ⟨⟨accountant_tryCharge h.metered.accountant htry, h.metered.budgeted,
        h.metered.pages_lt, ?_⟩, h.charged_le⟩
      show b₁.poolCounter .wasmLinear = _
      rw [poolCounter_of_tryCharge_error htry]
      exact h.metered.pool
    · cases (Prod.mk.inj hc).1

/-- A claim whose grow failed: the heap gives its charge back. -/
theorem Booked.giveBack {m' : LinearMemory}
    (h : ({ w with memory := m', budget := b' } : World α A).Metered (w.heap.charged + delta))
    (hd : delta ≤ 2 ^ 32) (hle : w.heap.charged ≤ m'.bytes) :
    ({ w with memory := m', budget := b'.uncharge .wasmLinear delta } : World α A).Booked := by
  have hlt : m'.bytes < 2 ^ 48 := h.bytes_lt
  have hpool : b'.poolCounter .wasmLinear = m'.bytes + (w.heap.charged + delta) := h.pool
  refine ⟨⟨accountant_uncharge h.accountant _ _, h.budgeted, h.pages_lt, ?_⟩, hle⟩
  show (b'.uncharge .wasmLinear delta).poolCounter .wasmLinear = m'.bytes + w.heap.charged
  rw [pool_uncharge (by omega) (by omega), hpool]
  omega

/-- **One claim.** The heap charges it, and the memory charges it again inside the grow. -/
theorem Booked.refill [OffsetAllocator A] {store minBytes : ℕ} {call : GrowCall α} (h : w.Booked)
    (hc : call.OffWasm) (hr : w.refillWithStoreLocked store minBytes call = some (r, w')) :
    w'.Booked ∧ w'.heap.charged = w.heap.charged +
      if w.claimGrows store minBytes call then pagesToBytes (claimPages minBytes) else 0 := by
  have hcharged := h.charged_lt
  have hclaim := claimBytes_le minBytes
  unfold claimGrows
  rcases refillWithStoreLocked_cases hr with ⟨hstore, rfl⟩ | ⟨hstore, budget, hcharge, rfl⟩ |
    ⟨hstore, charge, budget, w₁, e, memory, budget', hcharge, hbefore, hgrow, rfl⟩ |
    ⟨hstore, charge, budget, w₁, prev, memory, budget', w₂, hcharge, hbefore, hgrow, hafter, hf⟩
  · simp only [hstore, decide_false, Bool.false_and, Bool.false_eq_true, if_false]
    exact ⟨h, rfl⟩
  · simp only [hcharge, Bool.and_false, Bool.false_eq_true, if_false]
    exact ⟨h.chargeClaim_none hcharge, rfl⟩
  · obtain ⟨rfl, h₀⟩ := h.chargeClaim_ok hclaim hcharge
    obtain ⟨h₁, hi⟩ := h₀.run (by omega) hc.before hbefore
    have hheap : w₁.heap = w.heap := hi.heap
    have hle : w.memory.bytes ≤ w₁.memory.bytes := hi.bytes
    have hsame : memory.bytes = w₁.memory.bytes := by
      rcases grow_spec hgrow with ⟨_, hok, -⟩ | ⟨_, -, hsame⟩
      · cases hok
      · exact hsame
    have h₂ := h₁.grow (by omega) hgrow
    rw [← hheap] at h₂
    simp only [hcharge, hbefore, hgrow, Except.toBool, Bool.and_false, Bool.false_eq_true, if_false]
    refine ⟨Booked.giveBack h₂ hclaim ?_, by rw [hheap, Nat.add_zero]⟩
    rw [hheap, hsame]
    exact h.charged_le.trans hle
  · obtain ⟨rfl, h₀⟩ := h.chargeClaim_ok hclaim hcharge
    obtain ⟨h₁, hi⟩ := h₀.run (by omega) hc.before hbefore
    have hle : w.memory.bytes ≤ w₁.memory.bytes := hi.bytes
    obtain ⟨h₂, hi'⟩ := (h₁.grow (by omega) hgrow).run (by omega) hc.after hafter
    have hheap : w₂.heap = w.heap := hi'.heap.trans hi.heap
    have hgrown : memory.bytes = w₁.memory.bytes + pagesToBytes (claimPages minBytes) := by
      rcases grow_spec hgrow with ⟨_, -, -, hgrown⟩ | ⟨_, herr, -⟩
      · exact hgrown
      · cases herr
    have hle' : memory.bytes ≤ w₂.memory.bytes := hi'.bytes
    have hcl := h.charged_le
    rw [← hheap] at h₂
    simp only [hstore, hcharge, hbefore, hgrow, Except.toBool, decide_true, Bool.and_true, if_true]
    obtain ⟨hbooked, hch⟩ := Booked.finishClaim
      (w := w₂.setInner { w₂.heap.inner with pendingWant := 0 })
      { h₂ with }
      (by
        show w₂.heap.charged + _ ≤ w₂.memory.bytes
        rw [hheap]
        omega) hf
    refine ⟨hbooked, hch.trans ?_⟩
    show w₂.heap.charged + _ = _
    rw [hheap]

/-! ## The calls that may claim -/

/-- A call's effect on the books: it adds to them exactly when it claims. -/
def AddsIff (w w' : World α A) (claims : Bool) : Prop :=
  w'.Booked ∧ (w'.heap.charged = w.heap.charged ↔ claims = false)

theorem Booked.refill_addsIff [OffsetAllocator A] {store minBytes : ℕ} {call : GrowCall α}
    (h : w.Booked) (hc : call.OffWasm)
    (hr : w.refillWithStoreLocked store minBytes call = some (r, w')) :
    w.AddsIff w' (w.claimGrows store minBytes call) := by
  obtain ⟨hbooked, hch⟩ := h.refill hc hr
  refine ⟨hbooked, ?_⟩
  have hpos := claimBytes_pos minBytes
  cases hg : w.claimGrows store minBytes call with
  | true =>
    rw [hg, if_pos rfl] at hch
    simp only [Bool.true_eq_false, iff_false]
    omega
  | false =>
    rw [hg] at hch
    simpa using hch

theorem Booked.maybeRefill [OffsetAllocator A] {store : ℕ} {call : GrowCall α} (h : w.Booked)
    (hc : call.OffWasm) (hr : w.maybeRefill store call = some w') :
    w.AddsIff w' (w.refillClaims store call) := by
  unfold World.maybeRefill at hr
  unfold refillClaims
  split at hr
  · rename_i hplenty
    cases hr
    simp only [hplenty, and_self, decide_true, Bool.not_true, Bool.false_and]
    exact ⟨h, by simp⟩
  · rename_i hlow
    obtain ⟨⟨r, w₁⟩, hrefill, rfl⟩ := Option.map_eq_some_iff.mp hr
    simp only [hlow, decide_false, Bool.not_false, Bool.true_and]
    exact h.refill_addsIff hc hrefill

theorem Booked.allocWithStore [OffsetAllocator A] {store len : ℕ} {call : GrowCall α}
    {r : Option ℕ} (h : w.Booked) (hc : call.OffWasm)
    (hr : w.allocWithStore store len call = some (r, w')) :
    w.AddsIff w' (w.allocClaims store len call) := by
  unfold World.allocWithStore at hr
  unfold allocClaims
  cases hu : w.heap.unitsFor len with
  | none =>
    simp only [hu] at hr ⊢
    obtain ⟨-, rfl⟩ := Prod.mk.inj (Option.some.inj hr)
    exact ⟨h, iff_of_true rfl rfl⟩
  | some units =>
    cases ht : w.heap.inner.tryChunks units with
    | mk found inner =>
      simp only [hu, ht] at hr ⊢
      cases found with
      | some offset =>
        obtain ⟨-, rfl⟩ := Prod.mk.inj (Option.some.inj hr)
        exact ⟨h.setInner inner, iff_of_true rfl rfl⟩
      | none =>
        cases hn : checkedMul 32 units unit with
        | none =>
          simp only [hn] at hr ⊢
          obtain ⟨-, rfl⟩ := Prod.mk.inj (Option.some.inj hr)
          exact ⟨h.setInner inner, iff_of_true rfl rfl⟩
        | some needed =>
          simp only [hn] at hr ⊢
          obtain ⟨⟨refilled, w₂⟩, hrefill, hr⟩ := Option.map_eq_some_iff.mp hr
          obtain ⟨h₂, hiff⟩ := (h.setInner inner).refill_addsIff hc hrefill
          -- What follows the refill is behind the mutex.
          have hrest : ∃ inner', w' = w₂.setInner inner' := by
            dsimp only at hr
            split at hr
            · split at hr
              · exact ⟨_, (Prod.mk.inj hr).2.symm⟩
              · exact ⟨_, (Prod.mk.inj hr).2.symm⟩
            · exact ⟨_, (Prod.mk.inj hr).2.symm⟩
          obtain ⟨inner', rfl⟩ := hrest
          exact ⟨h₂.setInner inner', hiff⟩

section

omit [NapiMemoryAccountant α]

theorem alloc_setInner [OffsetAllocator A] (w : World α A) (len : ℕ) :
    ∃ inner, (w.alloc len).2 = w.setInner inner := by
  unfold World.alloc
  split
  · exact ⟨w.heap.inner, rfl⟩
  · split
    · exact ⟨_, rfl⟩
    · exact ⟨_, rfl⟩

theorem freeOffset_setInner [OffsetAllocator A] {offset : ℕ}
    (hf : w.freeOffset offset = some (r, w')) : ∃ inner, w' = w.setInner inner := by
  obtain ⟨⟨r', inner⟩, -, heq⟩ := Option.map_eq_some_iff.mp hf
  exact ⟨inner, (Prod.mk.inj heq).2.symm⟩

theorem registerMemory_setInner (w : World α A) (store : ℕ) :
    ∃ inner, w.registerMemory store = w.setInner inner := by
  unfold World.registerMemory
  split
  · exact ⟨w.heap.inner, rfl⟩
  · exact ⟨_, rfl⟩

end

/-- The drop returns the second charge, and the pool shows the size. -/
theorem Booked.drop (h : w.Booked) : w.drop.Metered 0 := by
  have hlt := h.metered.bytes_lt
  have hcharged := h.charged_lt
  obtain ⟨h₁, h₂, h₃, h₄⟩ := h.metered
  unfold World.drop
  split
  · refine ⟨accountant_uncharge h₁ _ _, h₂, h₃, ?_⟩
    show (w.budget.uncharge .wasmLinear w.heap.charged).poolCounter .wasmLinear =
      w.memory.bytes + 0
    rw [pool_uncharge (by omega) (by omega), h₄]
    omega
  · refine ⟨h₁, h₂, h₃, ?_⟩
    omega

end World

/-! ## Whole runs -/

namespace HeapRun

variable {ι α A : Type} [DecidableEq ι] [NapiMemoryAccountant α] [OffsetAllocator A]

/-- Whether a move makes the heap claim pages, and gets them. -/
def claims (s : HeapRun ι α A) : HeapAct ι α → Bool
  | .allocWithStore store len call => s.world.allocClaims store len call
  | .maybeRefill store call => s.world.refillClaims store call
  | _ => false

/-- The pool shows the memory's size. -/
def ChargedOnce (s : HeapRun ι α A) : Prop :=
  s.world.budget.poolCounter .wasmLinear = s.world.memory.bytes

/-- The accounting of a run: the second charge, until the heap is dropped. -/
def Booked (s : HeapRun ι α A) : Prop :=
  if s.dropped then s.world.Metered 0 else s.world.Booked

variable {s s' : HeapRun ι α A} {a : HeapAct ι α}

omit [DecidableEq ι] [NapiMemoryAccountant α] [OffsetAllocator A] in
theorem Booked.chargedOnce_iff (h : s.Booked) :
    s.ChargedOnce ↔ s.dropped = true ∨ s.world.heap.charged = 0 := by
  unfold Booked at h
  unfold ChargedOnce
  cases hd : s.dropped with
  | true =>
    rw [hd, if_pos rfl] at h
    simp [h.pool]
  | false =>
    rw [hd, if_neg Bool.false_ne_true] at h
    simp [h.metered.pool]

/-- One move of a heap that is not dropped, other than its drop: it stays undropped, and
    adds to the books exactly when it claims. -/
theorem addsIff_step (hd : s.dropped = false) (h : s.world.Booked) (ha : a.OffWasm)
    (hdrop : ∀ _ : a = .drop, False) (hs : s.step a = some s') :
    s'.dropped = false ∧ s.world.AddsIff s'.world (s.claims a) := by
  have hinner : ∀ inner, s.world.AddsIff (s.world.setInner inner) false :=
    fun inner => ⟨h.setInner inner, iff_of_true rfl rfl⟩
  have hsame : s.world.AddsIff s.world false := hinner s.world.heap.inner
  cases a with
  | interfere x =>
    obtain ⟨w, hw, rfl⟩ := Option.map_eq_some_iff.mp hs
    have hi := World.interfere_spec hw
    have hm := h.metered.interfere (Nat.lt_of_lt_of_le h.charged_lt (by decide)) ha hw
    rw [← hi.heap] at hm
    refine ⟨hd, ⟨hm, ?_⟩, ?_⟩
    · rw [hi.heap]
      exact h.charged_le.trans hi.bytes
    · exact iff_of_true (by rw [hi.heap]) rfl
  | alloc len =>
    simp only [step, hd, Bool.false_eq_true, if_false] at hs
    cases hs
    obtain ⟨inner, heq⟩ := World.alloc_setInner s.world len
    refine ⟨rfl, ?_⟩
    show s.world.AddsIff (s.world.alloc len).2 false
    rw [heq]
    exact hinner inner
  | allocWithStore store len call =>
    simp only [step, hd, Bool.false_eq_true, if_false] at hs
    obtain ⟨⟨r, w⟩, hw, rfl⟩ := Option.map_eq_some_iff.mp hs
    exact ⟨rfl, h.allocWithStore ha hw⟩
  | maybeRefill store call =>
    simp only [step, hd, Bool.false_eq_true, if_false] at hs
    obtain ⟨w, hw, rfl⟩ := Option.map_eq_some_iff.mp hs
    exact ⟨rfl, h.maybeRefill ha hw⟩
  | registerMemory store =>
    simp only [step, hd, Bool.false_eq_true, if_false] at hs
    cases hs
    obtain ⟨inner, heq⟩ := World.registerMemory_setInner s.world store
    refine ⟨rfl, ?_⟩
    show s.world.AddsIff (s.world.registerMemory store) false
    rw [heq]
    exact hinner inner
  | freeOffset offset =>
    simp only [step, hd, Bool.false_eq_true, if_false] at hs
    obtain ⟨⟨r, w⟩, hw, rfl⟩ := Option.map_eq_some_iff.mp hs
    obtain ⟨inner, rfl⟩ := World.freeOffset_setInner hw
    exact ⟨rfl, hinner inner⟩
  | checkHostPtr i ptr len =>
    simp only [step, hd, Bool.false_eq_true, if_false] at hs
    cases hs
    exact ⟨rfl, hsame⟩
  | freeChecked i =>
    simp only [step, hd, Bool.false_eq_true, if_false] at hs
    split at hs
    · cases hs
      exact ⟨hd, hsame⟩
    · obtain ⟨⟨r, w⟩, hw, rfl⟩ := Option.map_eq_some_iff.mp hs
      obtain ⟨inner, rfl⟩ := World.freeOffset_setInner hw
      exact ⟨rfl, hinner inner⟩
  | drop => exact (hdrop rfl).elim

/-- A dropped heap leaves only the guest and the V8 pools to move. -/
theorem metered_step_dropped (hd : s.dropped = true) (h : s.world.Metered 0) (ha : a.OffWasm)
    (hs : s.step a = some s') :
    s'.dropped = true ∧ s'.world.Metered 0 ∧ s.claims a = false := by
  cases a with
  | interfere x =>
    obtain ⟨w, hw, rfl⟩ := Option.map_eq_some_iff.mp hs
    exact ⟨hd, h.interfere (by decide) ha hw, rfl⟩
  | _ =>
    simp only [step, hd, if_true] at hs
    cases hs

theorem booked_step (h : s.Booked) (ha : a.OffWasm) (hs : s.step a = some s') : s'.Booked := by
  unfold Booked at h ⊢
  cases hd : s.dropped with
  | true =>
    rw [hd, if_pos rfl] at h
    obtain ⟨hd', hm, -⟩ := metered_step_dropped hd h ha hs
    rw [hd', if_pos rfl]
    exact hm
  | false =>
    rw [hd, if_neg Bool.false_ne_true] at h
    by_cases hdrop : a = .drop
    · subst hdrop
      simp only [step, hd, Bool.false_eq_true, if_false] at hs
      cases hs
      rw [if_pos rfl]
      exact h.drop
    · obtain ⟨hd', hb, -⟩ := addsIff_step hd h ha hdrop hs
      rw [hd', if_neg Bool.false_ne_true]
      exact hb

theorem booked_run {as : List (HeapAct ι α)} (hs : s.Booked) (ha : ∀ a ∈ as, a.OffWasm)
    (hr : run step s as = some s') : s'.Booked :=
  invariant_of_allSteps (fun _ _ _ hst hoff hb => booked_step hb hoff hst) hr (allSteps_of_mem ha)
    hs

/-- A move from a pool that shows the size keeps it there exactly when it claims nothing. -/
theorem chargedOnce_step_iff (h : s.Booked) (hP : s.ChargedOnce) (ha : a.OffWasm)
    (hs : s.step a = some s') : s'.ChargedOnce ↔ s.claims a = false := by
  rw [(booked_step h ha hs).chargedOnce_iff]
  rw [h.chargedOnce_iff] at hP
  unfold Booked at h
  cases hd : s.dropped with
  | true =>
    rw [hd, if_pos rfl] at h
    obtain ⟨hd', -, hcl⟩ := metered_step_dropped hd h ha hs
    exact iff_of_true (.inl hd') hcl
  | false =>
    rw [hd, if_neg Bool.false_ne_true] at h
    have hzero : s.world.heap.charged = 0 := by simpa [hd] using hP
    by_cases hdrop : a = .drop
    · subst hdrop
      simp only [step, hd, Bool.false_eq_true, if_false] at hs
      cases hs
      exact iff_of_true (.inl rfl) rfl
    · obtain ⟨hd', -, hiff⟩ := addsIff_step hd h ha hdrop hs
      rw [hzero] at hiff
      rw [hd', ← hiff]
      simp

end HeapRun

/-! ## From the command line's start -/

section

variable {α A : Type} [NapiMemoryAccountant α] [OffsetAllocator A] {b₀ b : ResourceBudget α}
  {pages store : ℕ} {m : BudgetedMemory} {others : Pool → ℕ} {ty : World.MemoryType}
  {call : World.GrowCall α}

omit [OffsetAllocator A] in
/-- A memory from `budgeted_tunables` starts charged for its initial pages. -/
theorem booked_fresh (hacc : b₀.accountant = none) (hz : b₀.wasmLinear = 0)
    (hp : pages < pagesBound) (hm : BudgetedMemory.new b₀ pages = (.ok m, b)) :
    (World.fresh b others (.budgeted m) ty store : World α A).Booked := by
  obtain ⟨rfl, htry⟩ := BudgetedMemory.new_eq_ok hm
  have hzero : b₀.poolCounter .wasmLinear = 0 := hz
  refine ⟨⟨accountant_tryCharge hacc htry, ⟨_, rfl⟩, hp, ?_⟩, Nat.zero_le _⟩
  show b.poolCounter .wasmLinear = pagesToBytes pages + 0
  rw [pool_tryCharge_ok htry, hzero]
  · omega
  · rw [hzero]
    unfold pagesToBytes wasmPageSize pagesBound at *
    omega

theorem addsIff_new {w : World α A} (hacc : b₀.accountant = none) (hz : b₀.wasmLinear = 0)
    (hp : pages < pagesBound) (hm : BudgetedMemory.new b₀ pages = (.ok m, b))
    (hoff : call.OffWasm) (hn : World.new b others (.budgeted m) ty store call = some (some w)) :
    w.Booked ∧ (w.heap.charged = 0 ↔
      (World.fresh b others (.budgeted m) ty store : World α A).claimGrows store prefundBytes call =
        false) := by
  unfold World.new at hn
  split at hn
  · cases hn
  split at hn
  · cases hn
  split at hn
  · cases hn
  obtain ⟨⟨r, w₁⟩, hrefill, heq⟩ := Option.map_eq_some_iff.mp hn
  cases heq
  exact (booked_fresh hacc hz hp hm).refill_addsIff hoff hrefill

/-- **The accounting as it is.** Whatever a heap that `new` makes over such a memory and
    its guest then do: the pool shows the memory's size and what the heap has charged,
    which is for pages the memory has; after the drop it shows the size alone. -/
theorem booked_of_new {ι : Type} [DecidableEq ι] {w : World α A} {as : List (HeapAct ι α)}
    {s : HeapRun ι α A} (hacc : b₀.accountant = none) (hz : b₀.wasmLinear = 0)
    (hp : pages < pagesBound) (hm : BudgetedMemory.new b₀ pages = (.ok m, b))
    (hoff : call.OffWasm) (hn : World.new b others (.budgeted m) ty store call = some (some w))
    (ha : ∀ a ∈ as, a.OffWasm) (hr : run HeapRun.step (HeapRun.start w) as = some s) :
    s.Booked := by
  have hstart : (HeapRun.start w : HeapRun ι α A).Booked := (addsIff_new hacc hz hp hm hoff hn).1
  exact HeapRun.booked_run hstart ha hr

/-- **Charged once, exactly when the heap never claims.** Under any budget without an
    accountant, with a limit or without one: the `WasmLinear` pool shows the memory's size
    in every state of a run if and only if neither the arena claim of `new` nor any claim
    of the run goes through. -/
theorem chargedOnce_iff_claimless {ι : Type} [DecidableEq ι] {w : World α A}
    {as : List (HeapAct ι α)} {s : HeapRun ι α A} (hacc : b₀.accountant = none)
    (hz : b₀.wasmLinear = 0) (hp : pages < pagesBound)
    (hm : BudgetedMemory.new b₀ pages = (.ok m, b)) (hoff : call.OffWasm)
    (hn : World.new b others (.budgeted m) ty store call = some (some w))
    (ha : ∀ a ∈ as, a.OffWasm) (hr : run HeapRun.step (HeapRun.start w) as = some s) :
    AllStates HeapRun.step HeapRun.ChargedOnce (HeapRun.start w) as ↔
      (World.fresh b others (.budgeted m) ty store : World α A).claimGrows store prefundBytes call =
          false ∧
        AllSteps HeapRun.step (fun s a => s.claims a = false) (HeapRun.start w) as := by
  obtain ⟨hb, hiff⟩ := addsIff_new hacc hz hp hm hoff hn
  have hbooked : (HeapRun.start w : HeapRun ι α A).Booked := hb
  have hstart : (HeapRun.start w : HeapRun ι α A).ChargedOnce ↔ w.heap.charged = 0 := by
    rw [hbooked.chargedOnce_iff]
    simp [HeapRun.start]
  have hrest : (HeapRun.start w : HeapRun ι α A).ChargedOnce →
      (AllStates HeapRun.step HeapRun.ChargedOnce (HeapRun.start w) as ↔
        AllSteps HeapRun.step (fun s a => s.claims a = false) (HeapRun.start w) as) :=
    allStates_iff_allSteps (g := HeapAct.OffWasm)
      (fun _ _ _ hoff hs hb => HeapRun.booked_step hb hoff hs)
      (fun _ _ _ hoff hs hb hP => HeapRun.chargedOnce_step_iff hb hP hoff hs) ha hr hbooked
  constructor
  · intro hall
    exact ⟨hiff.mp (hstart.mp hall.1), (hrest hall.1).mp hall⟩
  · rintro ⟨hnew, hsteps⟩
    exact (hrest (hstart.mpr (hiff.mpr hnew))).mpr hsteps

end

/-! The defect at a start with a plain budget: 64 pages, the default arena. The heap's 289
pages are in the pool twice. -/

/-- `budgeted_tunables` over a budget, and the heap over the memory they make. -/
def cliStart (b₀ : ResourceBudget Empty) (pages : ℕ) (call : World.GrowCall Empty) :
    Option (World Empty Bump) :=
  match BudgetedMemory.new b₀ pages with
  | (.ok m, b) => (World.new b (fun _ => 0) (.budgeted m) arenaMemory 0 call).join
  | (.error _, _) => none

theorem arena_charged_twice :
    ∃ w, cliStart ResourceBudget.unlimited 64 (quietGrow 4096) = some w ∧
      w.memory.bytes = 353 * 65536 ∧
      w.budget.poolCounter .wasmLinear = (353 + 289) * 65536 ∧
      ¬ (HeapRun.start (ι := Bool) w).ChargedOnce := by
  have hstart : (cliStart ResourceBudget.unlimited 64 (quietGrow 4096)).map
      (fun w => (w.memory.bytes, w.budget.poolCounter .wasmLinear)) =
        some (353 * 65536, (353 + 289) * 65536) := by
    decide
  obtain ⟨w, hw, heq⟩ := Option.map_eq_some_iff.mp hstart
  obtain ⟨hbytes, hpool⟩ := Prod.mk.inj heq
  refine ⟨w, hw, hbytes, hpool, ?_⟩
  show ¬ w.budget.poolCounter .wasmLinear = w.memory.bytes
  rw [hbytes, hpool]
  decide

/-- A backend that will not grow for the heap. -/
def refusedGrow : World.GrowCall Empty := { before := [], inner := false, after := [], baseNow := 4096 }

/-- And a guest that grows for itself. -/
def claimless : List (HeapAct Bool Empty) :=
  [.interfere (.guestGrow 3 true),
   .alloc 100,
   .maybeRefill 0 refusedGrow,
   .interfere (.other (.tryCharge .v8External 100)),
   .drop,
   .interfere (.guestGrow 2 true)]

def sixtyFourPages : Except MemoryError BudgetedMemory × ResourceBudget Empty :=
  BudgetedMemory.new (ResourceBudget.withMemoryLimit (64 * mib)) 64

/-- The same start with a backend that grows: 289 pages are the heap's. -/
theorem claimed_booked :
    ∃ w s, World.new sixtyFourPages.2 (fun _ => 0) (.budgeted ⟨64, pagesToBytes 64⟩) arenaMemory 0
        (quietGrow 4096) = some (some w) ∧
      run HeapRun.step (HeapRun.start (ι := Bool) (A := Bump) w)
        [.alloc 100, .interfere (.guestGrow 3 true)] = some s ∧
      s.world.heap.charged = 289 * 65536 ∧ s.Booked := by
  have hruns : ((World.new sixtyFourPages.2 (fun _ => 0) (.budgeted ⟨64, pagesToBytes 64⟩)
      arenaMemory 0 (quietGrow 4096)).bind fun w => w.bind fun w =>
      (run HeapRun.step (HeapRun.start (ι := Bool) (A := Bump) w)
        [.alloc 100, .interfere (.guestGrow 3 true)]).map fun s => s.world.heap.charged) =
      some (289 * 65536) := by
    decide
  obtain ⟨w', hw, hruns⟩ := Option.bind_eq_some_iff.mp hruns
  obtain ⟨w, rfl, hruns⟩ := Option.bind_eq_some_iff.mp hruns
  obtain ⟨s, hs, hcharged⟩ := Option.map_eq_some_iff.mp hruns
  have hquiet : (quietGrow 4096).OffWasm :=
    ⟨nofun, nofun⟩
  have hnew : BudgetedMemory.new (ResourceBudget.withMemoryLimit (64 * mib)) 64 =
      (.ok ⟨64, pagesToBytes 64⟩, sixtyFourPages.2) := Prod.ext rfl rfl
  have hoff : ∀ a ∈ ([.alloc 100, .interfere (.guestGrow 3 true)] : List (HeapAct Bool Empty)),
      a.OffWasm := by
    simp [HeapAct.OffWasm, World.Interference.OffWasm]
  exact ⟨w, s, hw, hs, hcharged,
    booked_of_new rfl rfl (by decide) hnew hquiet hw hoff hs⟩

theorem claimless_charged_once :
    ∃ w s, World.new sixtyFourPages.2 (fun _ => 0) (.budgeted ⟨64, pagesToBytes 64⟩) arenaMemory 0
        refusedGrow = some (some w) ∧
      run HeapRun.step (HeapRun.start w) claimless = some s ∧ s.world.memory.bytes = 69 * 65536 ∧
      AllStates HeapRun.step HeapRun.ChargedOnce (HeapRun.start (A := Bump) w) claimless := by
  have hruns : ((World.new sixtyFourPages.2 (fun _ => 0) (.budgeted ⟨64, pagesToBytes 64⟩)
      arenaMemory 0 refusedGrow).bind fun w => w.bind fun w =>
      (run HeapRun.step (HeapRun.start (A := Bump) w) claimless).map fun s =>
        (s.world.memory.bytes,
          decide (AllSteps HeapRun.step (fun s a => s.claims a = false) (HeapRun.start w)
            claimless))) = some (69 * 65536, true) := by
    decide
  obtain ⟨w', hw, hruns⟩ := Option.bind_eq_some_iff.mp hruns
  obtain ⟨w, rfl, hruns⟩ := Option.bind_eq_some_iff.mp hruns
  obtain ⟨s, hs, heq⟩ := Option.map_eq_some_iff.mp hruns
  obtain ⟨hbytes, hsteps⟩ := Prod.mk.inj heq
  refine ⟨w, s, hw, hs, hbytes, ?_⟩
  have hquiet : refusedGrow.OffWasm := ⟨nofun, nofun⟩
  have hoff : ∀ a ∈ claimless, a.OffWasm := by
    intro a ha
    simp only [claimless, List.mem_cons, List.not_mem_nil, or_false] at ha
    rcases ha with rfl | rfl | rfl | rfl | rfl | rfl
    · trivial
    · trivial
    · exact hquiet
    · exact nofun
    · trivial
    · trivial
  have hpages : 64 < pagesBound := by decide
  have hnew : BudgetedMemory.new (ResourceBudget.withMemoryLimit (64 * mib)) 64 =
      (.ok ⟨64, pagesToBytes 64⟩, sixtyFourPages.2) := Prod.ext rfl rfl
  refine (chargedOnce_iff_claimless rfl rfl hpages hnew hquiet hw hoff hs).mpr
    ⟨?_, of_decide_eq_true hsteps⟩
  decide

end WasmerNapi
