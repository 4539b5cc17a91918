import WasmerNapi.Budget.Memory
import WasmerNapi.Lib.Tally

/-!
# The handles of one shared memory

A shared wasm memory has any number of `BudgetedMemory` handles on one `MemoryCharge`,
and each growth call is a size read, a charge, an inner grow, a size re-read and a
record, with every other handle free to run in between. This file gives a handle a
phase for each of those accesses; `run_grow` and `run_growAtLeast` say that the steps of
one call, back to back, are the whole call of `Budget/Memory.lean`.

## Where the record and the charge part

`grow` charges the delta and records the delta. `grow_at_least` charges an upper bound
computed from one size read and records the difference to a *second* read, and gives
back only what it reserved too much. A memory another handle has grown past the target
in between makes the second read exceed the reservation, and the excess is recorded
without ever having been charged. `RereadCovered` says that this does not happen at a
step; `handles_balance` is the exact accounting of every run where it never does, and
`outgrown_wraps` the run of two handles that ends with the pool below zero.
-/

namespace WasmerNapi.Budget

open Function (update update_self update_of_ne update_eq_self update_idem)
open BudgetedMemory (reaches reserve)
open Word Run

/-! ## Handles, interleaving -/

namespace Handles

/-- Where a handle stands: gone or not cloned yet, between calls, or in front of one
    access of a call. `atLeastReread` is the second size read, and the two `drop` phases
    are `MemoryCharge::drop`, entered by the last handle. -/
inductive Handle where
  | absent
  | idle
  | growCharge (delta : ℕ)
  | growInner (delta : ℕ)
  | growRecord (delta : ℕ)
  | atLeastSize (minSize : ℕ)
  | atLeastNoop (minSize : ℕ)
  | atLeastCharge (minSize before : ℕ)
  | atLeastInner (minSize before : ℕ)
  | atLeastReread (minSize before : ℕ)
  | atLeastReconcile (reserve actual : ℕ)
  | atLeastRecord (actual : ℕ)
  | giveBack (bytes : ℕ)
  | dropSwap
  | dropUncharge (bytes : ℕ)
  deriving DecidableEq, Repr

/-- One shared memory: the budget, the backend's size, the record and the handles, and two
    ledgers no step reads — what the pool's other owners hold, and what these handles have
    charged and not given back. -/
structure State (ι α : Type) where
  budget : ResourceBudget α
  pages : ℕ
  bytes : ℕ
  handles : ι → Handle
  others : Pool → ℕ
  charged : ℕ

/-- A label: a handle enters a call, is cloned or is dropped, or makes its next access.
    `inner` is what the backend answers there: the size it reached, or `none`. -/
inductive Act (ι α : Type) where
  | grow (i : ι) (delta : ℕ)
  | growAtLeast (i : ι) (minSize : ℕ)
  | tryClone (i j : ι)
  | drop (i : ι)
  | access (i : ι) (inner : Option ℕ)
  | other (a : OtherAct α)

section Machine

variable {ι α : Type} [DecidableEq ι]

def State.setHandle (s : State ι α) (i : ι) (handle : Handle) : State ι α :=
  { s with handles := update s.handles i handle }

/-- `charge.bytes.fetch_add`. -/
def State.record (s : State ι α) (i : ι) (n : ℕ) : State ι α :=
  { s with bytes := wrappingAdd 64 s.bytes n }.setHandle i .idle

variable [NapiMemoryAccountant α]

/-- `try_charge(WasmLinear, n)`; refused, the call returns. -/
def State.charge (s : State ι α) (i : ι) (n : ℕ) (next : Handle) : State ι α :=
  match s.budget.tryCharge .wasmLinear n with
  | (.ok (), budget) => { s with budget, charged := s.charged + n }.setHandle i next
  | (.error _, budget) => { s with budget }.setHandle i .idle

/-- `uncharge(WasmLinear, n)`. -/
def State.uncharge (s : State ι α) (i : ι) (n : ℕ) (next : Handle) : State ι α :=
  { s with budget := s.budget.uncharge .wasmLinear n, charged := s.charged - n }.setHandle i next

/-- The next access of handle `i`'s call. -/
def access (s : State ι α) (i : ι) (inner : Option ℕ) : Handle → Option (State ι α)
  | .absent | .idle => none
  | .growCharge delta => some (s.charge i (pagesToBytes delta) (.growInner delta))
  | .growInner delta =>
    match inner with
    | some pages =>
      if pages = s.pages + delta ∧ pages < pagesBound then
        some ({ s with pages }.setHandle i (.growRecord delta))
      else none
    | none => some (s.setHandle i (.giveBack (pagesToBytes delta)))
  | .growRecord delta => some (s.record i (pagesToBytes delta))
  | .atLeastSize minSize =>
    if minSize ≤ pagesToBytes s.pages then some (s.setHandle i (.atLeastNoop minSize))
    else some (s.setHandle i (.atLeastCharge minSize (pagesToBytes s.pages)))
  | .atLeastNoop minSize =>
    match inner with
    | some pages =>
      if reaches s.pages minSize pages then
        some ({ s with pages }.setHandle i .idle)
      else none
    | none => some (s.setHandle i .idle)
  | .atLeastCharge minSize before =>
    some (s.charge i (reserve minSize before) (.atLeastInner minSize before))
  | .atLeastInner minSize before =>
    match inner with
    | some pages =>
      if reaches s.pages minSize pages then
        some ({ s with pages }.setHandle i (.atLeastReread minSize before))
      else none
    | none => some (s.setHandle i (.giveBack (reserve minSize before)))
  | .atLeastReread minSize before =>
    some (s.setHandle i
      (.atLeastReconcile (reserve minSize before) (pagesToBytes s.pages - before)))
  | .atLeastReconcile reserve actual =>
    -- only a reservation that was too large is corrected
    if actual < reserve then some (s.uncharge i (reserve - actual) (.atLeastRecord actual))
    else some (s.setHandle i (.atLeastRecord actual))
  | .atLeastRecord actual => some (s.record i actual)
  | .giveBack n => some (s.uncharge i n .idle)
  | .dropSwap => some ({ s with bytes := 0 }.setHandle i (.dropUncharge s.bytes))
  | .dropUncharge n => some (s.uncharge i n .absent)

def step [Fintype ι] (s : State ι α) : Act ι α → Option (State ι α)
  | .grow i delta =>
    if s.handles i = .idle then some (s.setHandle i (.growCharge delta)) else none
  | .growAtLeast i minSize =>
    if s.handles i = .idle then some (s.setHandle i (.atLeastSize minSize)) else none
  | .tryClone i j =>
    if s.handles i = .idle ∧ s.handles j = .absent then some (s.setHandle j .idle) else none
  | .drop i =>
    if s.handles i = .idle then
      -- the last handle's drop drops the shared charge
      if ∀ j, j ≠ i → s.handles j = .absent then some (s.setHandle i .dropSwap)
      else some (s.setHandle i .absent)
    else none
  | .access i inner => access s i inner (s.handles i)
  | .other a =>
    (otherStep s.budget s.others a).map fun (budget, others) => { s with budget, others }

/-- A memory just built, its charge admitted by `b₀`, leaving `b`; one handle. -/
def start (b₀ b : ResourceBudget α) (m : BudgetedMemory) (i : ι) : State ι α :=
  { budget := b
    pages := m.pages
    bytes := m.bytes
    handles := fun j => if j = i then .idle else .absent
    others := b₀.poolCounter
    charged := m.bytes }

/-- The second size read of `grow_at_least` is within the target its reservation was
    computed from: no other handle has grown the memory past it, and the backend has not
    overshot it. -/
def RereadCovered (s : State ι α) : Act ι α → Prop
  | .access i _ =>
    match s.handles i with
    | .atLeastReread minSize _ => pagesToBytes s.pages ≤ roundUpToPage minSize
    | _ => True
  | _ => True

instance (s : State ι α) : ∀ a : Act ι α, Decidable (RereadCovered s a)
  | .grow _ _ | .growAtLeast _ _ | .tryClone _ _ | .drop _ | .other _ => isTrue trivial
  | .access i _ => by
    unfold RereadCovered
    dsimp only
    split <;> infer_instance

end Machine

/-! ## One call, alone

The steps of a call with nothing in between are the call taken whole. -/

section Alone

variable {ι α : Type} [Fintype ι] [DecidableEq ι] [NapiMemoryAccountant α]

/-- The memory as its one busy handle sees it. -/
def State.memory (s : State ι α) : BudgetedMemory := { pages := s.pages, bytes := s.bytes }

/-- `s'` is `s` after a whole call that left `m` and `b`: every handle is where it was. -/
structure Returned (s s' : State ι α) (m : BudgetedMemory) (b : ResourceBudget α) : Prop where
  handles : s'.handles = s.handles
  memory : s'.memory = m
  budget : s'.budget = b

variable {i : ι}

variable {s : State ι α}

section

omit [Fintype ι] [NapiMemoryAccountant α]

theorem State.setHandle_self (s : State ι α) (i : ι) (handle : Handle) :
    (s.setHandle i handle).handles i = handle := update_self ..

theorem State.setHandle_of_ne (s : State ι α) {j : ι} (handle : Handle) (hj : j ≠ i) :
    (s.setHandle i handle).handles j = s.handles j := update_of_ne hj _ _

omit [DecidableEq ι] in
theorem State.memory_eq {m : BudgetedMemory} (hpages : s.pages = m.pages)
    (hbytes : s.bytes = m.bytes) : s.memory = m := by
  rw [State.memory, hpages, hbytes]

end

theorem step_access_of {handle : Handle} (hi : s.handles i = handle) (inner : Option ℕ) :
    step s (.access i inner) = access s i inner handle := by
  simp only [step, hi]

variable {b : ResourceBudget α}

omit [Fintype ι] in
theorem State.charge_of_ok {n : ℕ} (hc : s.budget.tryCharge .wasmLinear n = (.ok (), b)) (i : ι)
    (next : Handle) :
    some (s.charge i n next) =
      some ({ s with budget := b, charged := s.charged + n }.setHandle i next) := by
  simp only [State.charge, hc]

variable {e : OverBudget}

omit [Fintype ι] in
theorem State.charge_of_error {n : ℕ} (hc : s.budget.tryCharge .wasmLinear n = (.error e, b))
    (i : ι) (next : Handle) :
    some (s.charge i n next) = some ({ s with budget := b }.setHandle i .idle) := by
  simp only [State.charge, hc]

/-- A busy handle's next access, then the rest of the run. -/
theorem run_access_cons {s₁ s' : State ι α} {handle : Handle} {inner : Option ℕ}
    {as : List (Act ι α)} (ha : access (s.setHandle i handle) i inner handle = some s₁)
    (hr : run step s₁ as = some s') :
    run step (s.setHandle i handle) (.access i inner :: as) = some s' :=
  run_cons_eq_some.mpr ⟨s₁, (step_access_of (State.setHandle_self ..) inner).trans ha, hr⟩

omit [Fintype ι] [NapiMemoryAccountant α] in
/-- A call is over when its handle is idle again. -/
theorem returned_of_idle {s' : State ι α} {m : BudgetedMemory} (hi : s.handles i = .idle)
    (hidle : s'.handles = update s.handles i .idle) (hpages : s'.pages = m.pages)
    (hbytes : s'.bytes = m.bytes) (hbudget : s'.budget = b) : Returned s s' m b := by
  refine ⟨?_, State.memory_eq hpages hbytes, hbudget⟩
  rw [hidle, ← hi, update_eq_self]

variable {delta : ℕ}

omit [Fintype ι] in
theorem access_growInner_some {pages : ℕ} (hfit : pages = s.pages + delta ∧ pages < pagesBound)
    (i : ι) :
    access s i (some pages) (.growInner delta) =
      some ({ s with pages }.setHandle i (.growRecord delta)) := if_pos hfit

/-- `grow`, access after access, is `BudgetedMemory::grow`. -/
theorem run_grow (s : State ι α) (hi : s.handles i = .idle) (delta : ℕ) (inner : Bool)
    (hfit : inner = true → s.pages + delta < pagesBound) :
    ∃ k s', run step s (.grow i delta :: List.replicate k
        (.access i (if inner then some (s.pages + delta) else none))) = some s' ∧
      Returned s s' (BudgetedMemory.grow s.budget s.memory delta inner).2.1
        (BudgetedMemory.grow s.budget s.memory delta inner).2.2 := by
  have henter : step s (.grow i delta) = some (s.setHandle i (.growCharge delta)) := if_pos hi
  cases hc : s.budget.tryCharge .wasmLinear (pagesToBytes delta) with | mk res b =>
  cases res with
  | error e =>
    rw [BudgetedMemory.grow_of_error hc]
    have hcharge := State.charge_of_error (s := s.setHandle i (.growCharge delta)) hc i
      (.growInner delta)
    refine ⟨1, _, run_cons_eq_some.mpr ⟨_, henter,
      run_access_cons hcharge rfl⟩, returned_of_idle hi ?_ rfl rfl rfl⟩
    simp only [State.setHandle, update_idem]
  | ok u =>
    have hcharge := State.charge_of_ok (s := s.setHandle i (.growCharge delta)) hc i
      (.growInner delta)
    cases inner with
    | false =>
      rw [BudgetedMemory.grow_false_of_ok hc]
      refine ⟨3, _,
        run_cons_eq_some.mpr ⟨_, henter,
          run_access_cons hcharge
          (run_access_cons rfl
          (run_access_cons rfl rfl))⟩, returned_of_idle hi ?_ rfl rfl rfl⟩
      simp only [State.uncharge, State.setHandle, update_idem]
    | true =>
      rw [BudgetedMemory.grow_true_of_ok hc]
      have hinner := access_growInner_some (s := { s.setHandle i (.growCharge delta) with
        budget := b, charged := s.charged + pagesToBytes delta }.setHandle i (.growInner delta))
        ⟨rfl, hfit rfl⟩ i
      refine ⟨3, _,
        run_cons_eq_some.mpr ⟨_, henter,
          run_access_cons hcharge
          (run_access_cons hinner
          (run_access_cons rfl rfl))⟩, returned_of_idle hi ?_ rfl rfl rfl⟩
      simp only [State.record, State.setHandle, update_idem]

/-- `grow_at_least`, access after access, is `BudgetedMemory::grow_at_least`: the handle enters the
    call and makes its accesses, with nothing in between. -/
theorem run_growAtLeast (s : State ι α) {i : ι} (hi : s.handles i = .idle) (minSize : ℕ)
    (inner : Option ℕ)
    (hinner : ∀ pages, inner = some pages → reaches s.pages minSize pages = true) :
    ∃ k s', run step s (.growAtLeast i minSize :: List.replicate k (.access i inner)) = some s' ∧
      Returned s s' (BudgetedMemory.growAtLeast s.budget s.memory minSize inner).2.1
        (BudgetedMemory.growAtLeast s.budget s.memory minSize inner).2.2 := by
  have henter : step s (.growAtLeast i minSize) = some (s.setHandle i (.atLeastSize minSize)) :=
    if_pos hi
  by_cases hle : minSize ≤ pagesToBytes s.pages
  · have hsize : access (s.setHandle i (.atLeastSize minSize)) i inner (.atLeastSize minSize) =
        some ((s.setHandle i (.atLeastSize minSize)).setHandle i (.atLeastNoop minSize)) :=
      if_pos hle
    cases inner with
    | none =>
      rw [BudgetedMemory.growAtLeast_none_of_le (m := s.memory) hle]
      refine ⟨2, _,
        run_cons_eq_some.mpr ⟨_, henter,
          run_access_cons hsize
          (run_access_cons rfl rfl)⟩, returned_of_idle hi ?_ rfl rfl rfl⟩
      simp only [State.setHandle, update_idem]
    | some pages =>
      rw [BudgetedMemory.growAtLeast_some_of_le (m := s.memory) hle]
      refine ⟨2, _,
        run_cons_eq_some.mpr ⟨_, henter,
          run_access_cons hsize
          (run_access_cons (if_pos (hinner pages rfl)) rfl)⟩, returned_of_idle hi ?_ rfl rfl rfl⟩
      simp only [State.setHandle, update_idem]
  · set before := pagesToBytes s.pages with hbefore
    have hsize : access (s.setHandle i (.atLeastSize minSize)) i inner (.atLeastSize minSize) =
        some ((s.setHandle i (.atLeastSize minSize)).setHandle i
          (.atLeastCharge minSize before)) := if_neg hle
    set s₁ := (s.setHandle i (.atLeastSize minSize)).setHandle i (.atLeastCharge minSize before)
      with hs₁
    cases hc : s.budget.tryCharge .wasmLinear (reserve minSize before) with
    | mk res b =>
    cases res with
    | error e =>
      have hcharge := State.charge_of_error (s := s₁) hc i (.atLeastInner minSize before)
      rw [BudgetedMemory.growAtLeast_of_error (m := s.memory) hle hc]
      refine ⟨2, _,
        run_cons_eq_some.mpr ⟨_, henter,
          run_access_cons hsize
          (run_access_cons hcharge rfl)⟩, returned_of_idle hi ?_ rfl rfl rfl⟩
      simp only [hs₁, State.setHandle, update_idem]
    | ok u =>
      have hcharge := State.charge_of_ok (s := s₁) hc i (.atLeastInner minSize before)
      cases inner with
      | none =>
        rw [BudgetedMemory.growAtLeast_none_of_ok (m := s.memory) hle hc]
        refine ⟨4, _, run_cons_eq_some.mpr ⟨_, henter,
            run_access_cons hsize
            (run_access_cons hcharge
            (run_access_cons rfl
            (run_access_cons rfl rfl)))⟩, returned_of_idle hi ?_ rfl rfl rfl⟩
        simp only [hs₁, State.uncharge, State.setHandle, update_idem]
      | some pages =>
        rw [BudgetedMemory.growAtLeast_some_of_ok (m := s.memory) hle hc]
        have hinner' : access ({ s₁ with
              budget := b, charged := s₁.charged + reserve minSize before }.setHandle
            i (.atLeastInner minSize before)) i (some pages) (.atLeastInner minSize before) =
            some (({ s₁ with
              budget := b, charged := s₁.charged + reserve minSize before,
              pages }.setHandle i (.atLeastInner minSize before)).setHandle i
                (.atLeastReread minSize before)) := if_pos (hinner pages rfl)
        by_cases hlt : pagesToBytes pages - before < reserve minSize before
        · refine ⟨6, _, run_cons_eq_some.mpr ⟨_, henter,
              run_access_cons hsize
              (run_access_cons hcharge
              (run_access_cons hinner'
              (run_access_cons rfl
              (run_access_cons (if_pos hlt)
              (run_access_cons rfl rfl)))))⟩, returned_of_idle hi ?_ rfl rfl (if_pos hlt).symm⟩
          simp only [hs₁, State.record, State.setHandle, update_idem]
        · refine ⟨6, _, run_cons_eq_some.mpr ⟨_, henter,
              run_access_cons hsize
              (run_access_cons hcharge
              (run_access_cons hinner'
              (run_access_cons rfl
              (run_access_cons (if_neg hlt)
              (run_access_cons rfl rfl)))))⟩, returned_of_idle hi ?_ rfl rfl (if_neg hlt).symm⟩
          simp only [hs₁, State.record, State.setHandle, update_idem]

end Alone

/-! ## Reservations -/

/-- Bytes a handle's call has charged and not recorded. -/
def held : Handle → ℕ
  | .growInner delta | .growRecord delta => pagesToBytes delta
  | .atLeastInner minSize before | .atLeastReread minSize before =>
    reserve minSize before
  | .atLeastReconcile reserve _ => reserve
  | .atLeastRecord n | .giveBack n | .dropUncharge n => n
  | _ => 0

def State.reserved {ι α : Type} [Fintype ι] (s : State ι α) : ℕ := tally held s.handles

/-- Bytes a handle's next access takes out of the pool. -/
def aboutToUncharge : Handle → ℕ
  | .atLeastReconcile reserve actual => reserve - actual
  | .giveBack n | .dropUncharge n => n
  | _ => 0

theorem aboutToUncharge_le_held (handle : Handle) : aboutToUncharge handle ≤ held handle := by
  cases handle with
  | atLeastReconcile reserve actual => exact Nat.sub_le _ _
  | giveBack n => exact Nat.le_refl n
  | dropUncharge n => exact Nat.le_refl n
  | _ => exact Nat.zero_le _

/-- Reconciling finds no more than was reserved. -/
def HandleOk : Handle → Prop
  | .atLeastReconcile reserve actual => actual ≤ reserve
  | _ => True

/-- Between calls or inside one. -/
def Handle.live : Handle → Bool
  | .absent | .dropSwap | .dropUncharge _ => false
  | _ => true

def Handle.dropping : Handle → Bool
  | .dropSwap | .dropUncharge _ => true
  | _ => false

/-- Gone, or done with the record. -/
def Handle.done : Handle → Bool
  | .absent | .dropUncharge _ => true
  | _ => false

/-- The record and the reservations against what the handles have charged, and the charged
    against what the pool shows; the last drop is alone, and leaves the record empty. -/
structure Inv {ι α : Type} [Fintype ι] [NapiMemoryAccountant α] (limited : Prop)
    (s : State ι α) : Prop where
  account : Account .wasmLinear limited s.budget s.others s.charged
  ledger : s.bytes + s.reserved ≤ s.charged
  ledgerMod : (s.bytes + s.reserved) % 2 ^ 64 = s.charged % 2 ^ 64
  handles : ∀ i, HandleOk (s.handles i)
  alone : ∀ i j, (s.handles i).dropping = true → j ≠ i → s.handles j = .absent
  emptied : (∀ i, (s.handles i).done = true) → s.bytes = 0

section Steps

variable {ι α : Type} [Fintype ι] [DecidableEq ι] [NapiMemoryAccountant α] {limited : Prop}

omit [DecidableEq ι] [NapiMemoryAccountant α] in
theorem State.held_le_reserved (s : State ι α) (i : ι) : held (s.handles i) ≤ s.reserved :=
  held_le_tally held s.handles i

theorem Handle.live_cases {handle : Handle} (h : handle.live = true) :
    handle ≠ .absent ∧ handle.dropping = false ∧ handle.done = false := by
  cases handle with
  | absent => cases h
  | dropSwap => cases h
  | dropUncharge n => cases h
  | _ => exact ⟨Handle.noConfusion, rfl, rfl⟩

variable {s : State ι α} {i : ι}

/-- While a handle is live, nothing is being dropped for good. -/
theorem Inv.not_dropping (h : Inv limited s) (hlive : (s.handles i).live = true) (j : ι) :
    (s.handles j).dropping = false := by
  obtain ⟨habsent, hdrop, -⟩ := Handle.live_cases hlive
  cases hj : (s.handles j).dropping with
  | false => rfl
  | true =>
    by_cases hij : i = j
    · subst hij
      rw [hj] at hdrop
      exact hdrop
    · exact absurd (h.alone j i hj hij) habsent

variable {s' : State ι α}

/-- **The handle rule.** A live handle moves on inside a call. The record and the charged
    move with what it holds, and the account with the charged. -/
theorem Inv.handle (h : Inv limited s) {handle : Handle}
    (hs : s'.handles = update s.handles i handle) (hlive : (s.handles i).live = true)
    (hnext : handle.live = true)
    (haccount : Account .wasmLinear limited s'.budget s'.others s'.charged)
    (hledger : ∀ r, r + held (s.handles i) = s.reserved + held handle →
      s'.bytes + r ≤ s'.charged ∧ (s'.bytes + r) % 2 ^ 64 = s'.charged % 2 ^ 64)
    (hok : HandleOk handle) : Inv limited s' := by
  have hr : s'.reserved + held (s.handles i) = s.reserved + held handle := by
    unfold State.reserved
    rw [hs]
    exact tally_update held s.handles i handle
  obtain ⟨hle, hmod⟩ := hledger _ hr
  obtain ⟨-, hdrop, hdone⟩ := Handle.live_cases hnext
  refine ⟨haccount, hle, hmod, ?_, ?_, ?_⟩
  · intro j
    rw [hs]
    by_cases hj : j = i
    · subst hj; rwa [update_self]
    · rw [update_of_ne hj]; exact h.handles j
  · intro j k hj
    rw [hs] at hj
    by_cases hji : j = i
    · subst hji
      rw [update_self, hdrop] at hj
      cases hj
    · rw [update_of_ne hji, h.not_dropping hlive j] at hj
      cases hj
  · intro hall
    have hi := hall i
    rw [hs, update_self, hdone] at hi
    cases hi

variable {was next : Handle}

/-- A handle moves on without touching a counter. -/
theorem Inv.pass (h : Inv limited s) (hi : s.handles i = was) {pages : ℕ}
    (hlive : was.live = true) (hnext : next.live = true) (hheld : held next = held was)
    (hok : HandleOk next) : Inv limited ({ s with pages }.setHandle i next) := by
  subst hi
  refine h.handle rfl hlive hnext h.account ?_ hok
  intro r hr
  obtain rfl : r = s.reserved := by omega
  exact ⟨h.ledger, h.ledgerMod⟩

variable {n : ℕ}

/-- The record takes over what the handle held. -/
theorem Inv.record (h : Inv limited s) (hi : s.handles i = was) (hlive : was.live = true)
    (hheld : held was = n) : Inv limited (s.record i n) := by
  subst hi
  have hl := h.ledger
  have hm := h.ledgerMod
  refine h.handle rfl hlive rfl h.account ?_ trivial
  intro r hr
  rw [hheld, show held .idle = 0 from rfl] at hr
  have hle : wrappingAdd 64 s.bytes n ≤ s.bytes + n := Nat.mod_le _ _
  simp only [State.record, State.setHandle, wrappingAdd] at hle ⊢
  omega

omit [DecidableEq ι] in
/-- What is left in the books when `n` of the bytes a handle holds go back. -/
theorem Inv.ledger_uncharge (h : Inv limited s) (hheld : held (s.handles i) = n + held next) :
    n ≤ s.charged ∧ ∀ r, r + held (s.handles i) = s.reserved + held next →
      s.bytes + r ≤ s.charged - n ∧ (s.bytes + r) % 2 ^ 64 = (s.charged - n) % 2 ^ 64 := by
  have hl := h.ledger
  have hm := h.ledgerMod
  have hle := s.held_le_reserved i
  refine ⟨by omega, ?_⟩
  intro r hr
  omega

/-- The last drop empties the record into what it holds. -/
theorem Inv.dropSwap (h : Inv limited s) (hi : s.handles i = .dropSwap) :
    Inv limited ({ s with bytes := 0 }.setHandle i (.dropUncharge s.bytes)) := by
  have hl := h.ledger
  have hm := h.ledgerMod
  have hr : ({ s with bytes := 0 }.setHandle i (.dropUncharge s.bytes)).reserved +
      held (s.handles i) = s.reserved + s.bytes :=
    tally_update held s.handles i (.dropUncharge s.bytes)
  rw [hi, show held .dropSwap = 0 from rfl] at hr
  have halone := fun j => h.alone i j (by rw [hi]; rfl)
  refine ⟨h.account, ?_, ?_, ?_, ?_, fun _ => rfl⟩
  · simp only [State.setHandle] at hr ⊢
    omega
  · simp only [State.setHandle] at hr ⊢
    omega
  · intro j
    simp only [State.setHandle]
    by_cases hj : j = i
    · subst hj; rw [update_self]; trivial
    · rw [update_of_ne hj]; exact h.handles j
  · intro j k hj hk
    simp only [State.setHandle] at hj ⊢
    by_cases hji : j = i
    · subst hji
      rw [update_of_ne hk]
      exact halone k hk
    · rw [update_of_ne hji, halone j hji] at hj
      cases hj

/-- A handle comes, goes or starts the last drop: no counter moves, so only what the drop
    relies on has to be shown. -/
theorem Inv.comeOrGo (h : Inv limited s) {handle : Handle}
    (hheld : held handle = held (s.handles i)) (hok : HandleOk handle)
    (halone : ∀ j k, ((s.setHandle i handle).handles j).dropping = true → k ≠ j →
      (s.setHandle i handle).handles k = .absent)
    (hemptied : ¬ ∀ j, ((s.setHandle i handle).handles j).done = true) :
    Inv limited (s.setHandle i handle) := by
  have hr : (s.setHandle i handle).reserved + held (s.handles i) = s.reserved + held handle :=
    tally_update held s.handles i handle
  have hsame : (s.setHandle i handle).reserved = s.reserved := by omega
  refine ⟨h.account, ?_, ?_, ?_, halone, fun hall => absurd hall hemptied⟩
  · rw [hsame]; exact h.ledger
  · rw [hsame]; exact h.ledgerMod
  · intro k
    by_cases hk : k = i
    · subst hk; rwa [s.setHandle_self]
    · rw [s.setHandle_of_ne _ hk]; exact h.handles k

/-- A clone is another idle handle on the same charge. -/
theorem Inv.clone (h : Inv limited s) {j : ι} (hi : s.handles i = .idle)
    (hj : s.handles j = .absent) : Inv limited (s.setHandle j .idle) := by
  have hquiet := h.not_dropping (by rw [hi]; rfl)
  refine h.comeOrGo (by rw [hj]; rfl) trivial ?_ ?_
  · intro k l hk
    by_cases hkj : k = j
    · subst hkj
      rw [s.setHandle_self] at hk
      cases hk
    · rw [s.setHandle_of_ne _ hkj, hquiet k] at hk
      cases hk
  · intro hall
    have hdone := hall j
    rw [s.setHandle_self] at hdone
    cases hdone

/-- The last handle starts dropping the charge. -/
theorem Inv.dropLast (h : Inv limited s) (hi : s.handles i = .idle)
    (hlast : ∀ j, j ≠ i → s.handles j = .absent) : Inv limited (s.setHandle i .dropSwap) := by
  refine h.comeOrGo (by rw [hi]; rfl) trivial ?_ ?_
  · intro k l hk hl
    by_cases hki : k = i
    · subst hki
      rw [s.setHandle_of_ne _ hl]
      exact hlast l hl
    · rw [s.setHandle_of_ne _ hki, hlast k hki] at hk
      cases hk
  · intro hall
    have hdone := hall i
    rw [s.setHandle_self] at hdone
    cases hdone

/-- Another handle survives, and with it the charge. -/
theorem Inv.dropShared (h : Inv limited s) (hi : s.handles i = .idle)
    (hlast : ¬ ∀ j, j ≠ i → s.handles j = .absent) : Inv limited (s.setHandle i .absent) := by
  have hquiet := h.not_dropping (by rw [hi]; rfl)
  refine h.comeOrGo (by rw [hi]; rfl) trivial ?_ ?_
  · intro k l hk
    by_cases hki : k = i
    · subst hki
      rw [s.setHandle_self] at hk
      cases hk
    · rw [s.setHandle_of_ne _ hki, hquiet k] at hk
      cases hk
  · -- the survivor is inside no drop, so it is not done
    intro hall
    apply hlast
    intro j hj
    have hdone := hall j
    rw [s.setHandle_of_ne _ hj] at hdone
    have hno := hquiet j
    cases hcase : s.handles j with
    | absent => rfl
    | dropUncharge n => rw [hcase] at hno; cases hno
    | _ => rw [hcase] at hdone; cases hdone

variable [LawfulNapiMemoryAccountant α]

/-- A charge enters what the handle holds, or the call returns. -/
theorem Inv.charge (h : Inv limited s) (hi : s.handles i = was) (hlive : was.live = true)
    (hnext : next.live = true) (hbefore : held was = 0) (hafter : held next = n)
    (hok : HandleOk next) : Inv limited (s.charge i n next) := by
  subst hi
  have hl := h.ledger
  have hm := h.ledgerMod
  unfold State.charge
  split
  · rename_i b hc
    refine h.handle rfl hlive hnext (h.account.tryCharge_ok hc) ?_ hok
    intro r hr
    rw [hbefore, hafter] at hr
    simp only [State.setHandle]
    omega
  · rename_i e b hc
    refine h.handle rfl hlive rfl (h.account.tryCharge_error hc) ?_ trivial
    intro r hr
    obtain rfl : r = s.reserved := by
      rw [hbefore] at hr
      exact hr
    exact ⟨hl, hm⟩

/-- Part of what a handle holds goes back to the pool. -/
theorem Inv.uncharge (h : Inv limited s) (hi : s.handles i = was) (hlive : was.live = true)
    (hnext : next.live = true) (hheld : held was = n + held next) (hok : HandleOk next) :
    Inv limited (s.uncharge i n next) := by
  subst hi
  obtain ⟨hn, hledger⟩ := h.ledger_uncharge hheld
  exact h.handle rfl hlive hnext (h.account.uncharge hn) hledger hok

/-- The last drop gives everything back, and every handle is gone. -/
theorem Inv.dropUncharge (h : Inv limited s) (hi : s.handles i = .dropUncharge n) :
    Inv limited (s.uncharge i n .absent) := by
  have hheld : held (s.handles i) = n + held .absent := by rw [hi]; rfl
  obtain ⟨hn, hledger⟩ := h.ledger_uncharge hheld
  obtain ⟨hl, hm⟩ := hledger _ (tally_update held s.handles i .absent)
  have halone := fun j => h.alone i j (by rw [hi]; rfl)
  have habsent : ∀ j, (s.uncharge i n .absent).handles j = .absent := by
    intro j
    simp only [State.uncharge, State.setHandle]
    by_cases hj : j = i
    · subst hj; rw [update_self]
    · rw [update_of_ne hj]; exact halone j hj
  refine ⟨h.account.uncharge hn, hl, hm, ?_, ?_, ?_⟩
  · intro j
    rw [habsent j]
    trivial
  · intro j k _ _
    exact habsent k
  · intro _
    refine h.emptied ?_
    intro j
    by_cases hj : j = i
    · subst hj; rw [hi]; rfl
    · rw [halone j hj]; rfl

theorem Inv.step_access (h : Inv limited s) (hi : s.handles i = was) {inner : Option ℕ}
    (hcovered : RereadCovered s (.access i inner)) (hs : access s i inner was = some s') :
    Inv limited s' := by
  have hok : HandleOk was := hi ▸ h.handles i
  simp only [RereadCovered, hi] at hcovered
  cases was with
  | absent => cases hs
  | idle => cases hs
  | growCharge delta =>
    cases hs
    exact h.charge hi rfl rfl rfl rfl trivial
  | growInner delta =>
    cases inner with
    | none =>
      cases hs
      exact h.pass hi rfl rfl rfl trivial
    | some pages =>
      simp only [access] at hs
      split at hs
      · cases hs
        exact h.pass hi rfl rfl rfl trivial
      · cases hs
  | growRecord delta =>
    cases hs
    exact h.record hi rfl rfl
  | atLeastSize minSize =>
    simp only [access] at hs
    split at hs <;> cases hs
    · exact h.pass hi rfl rfl rfl trivial
    · exact h.pass hi rfl rfl rfl trivial
  | atLeastNoop minSize =>
    cases inner with
    | none =>
      cases hs
      exact h.pass hi rfl rfl rfl trivial
    | some pages =>
      simp only [access] at hs
      split at hs
      · cases hs
        exact h.pass hi rfl rfl rfl trivial
      · cases hs
  | atLeastCharge minSize before =>
    cases hs
    exact h.charge hi rfl rfl rfl rfl trivial
  | atLeastInner minSize before =>
    cases inner with
    | none =>
      cases hs
      exact h.pass hi rfl rfl rfl trivial
    | some pages =>
      simp only [access] at hs
      split at hs
      · cases hs
        exact h.pass hi rfl rfl rfl trivial
      · cases hs
  | atLeastReread minSize before =>
    cases hs
    refine h.pass hi rfl rfl rfl ?_
    -- the one place the condition is needed: the second read stays within the target
    exact Nat.sub_le_sub_right hcovered before
  | atLeastReconcile reserve actual =>
    simp only [access] at hs
    split at hs <;> cases hs
    · exact h.uncharge hi rfl rfl (Nat.sub_add_cancel hok).symm trivial
    · rename_i hlt
      exact h.pass hi rfl rfl (Nat.le_antisymm hok (Nat.le_of_not_lt hlt)) trivial
  | atLeastRecord actual =>
    cases hs
    exact h.record hi rfl rfl
  | giveBack n =>
    cases hs
    exact h.uncharge hi rfl rfl rfl trivial
  | dropSwap =>
    cases hs
    exact h.dropSwap hi
  | dropUncharge n =>
    cases hs
    exact h.dropUncharge hi

theorem Inv.step {a : Act ι α} (hs : step s a = some s') (hcovered : RereadCovered s a)
    (h : Inv limited s) : Inv limited s' := by
  cases a with
  | grow i delta =>
    simp only [Handles.step] at hs
    split at hs
    · rename_i hi
      cases hs
      exact h.pass hi rfl rfl rfl trivial
    · cases hs
  | growAtLeast i minSize =>
    simp only [Handles.step] at hs
    split at hs
    · rename_i hi
      cases hs
      exact h.pass hi rfl rfl rfl trivial
    · cases hs
  | tryClone i j =>
    simp only [Handles.step] at hs
    split at hs
    · rename_i hij
      cases hs
      exact h.clone hij.1 hij.2
    · cases hs
  | drop i =>
    simp only [Handles.step] at hs
    split at hs
    · rename_i hi
      split at hs <;> rename_i hlast <;> cases hs
      · exact h.dropLast hi hlast
      · exact h.dropShared hi hlast
    · cases hs
  | access i inner => exact h.step_access rfl hcovered hs
  | other a =>
    simp only [Handles.step, Option.map_eq_some_iff, Prod.exists] at hs
    obtain ⟨b, others, ho, rfl⟩ := hs
    exact { h with account := h.account.other ho }

/-! ## Whole runs -/

theorem Inv.start {b₀ b : ResourceBudget α} {pages : ℕ} {m : BudgetedMemory}
    (hnew : BudgetedMemory.new b₀ pages = (.ok m, b)) (i : ι) :
    Inv b₀.Settled (start b₀ b m i) := by
  have hempty : Account .wasmLinear b₀.Settled b₀ b₀.poolCounter 0 :=
    ⟨rfl, fun hset => ⟨hset, fun p => by simp⟩⟩
  obtain ⟨hm, htry⟩ := BudgetedMemory.new_eq_ok hnew
  have hbytes : m.bytes = pagesToBytes pages := by rw [hm]
  rw [← hbytes] at htry
  have haccount := hempty.tryCharge_ok htry
  rw [Nat.zero_add] at haccount
  have hreserved : (Handles.start b₀ b m i).reserved = 0 := by
    refine tally_eq_zero ?_
    intro j
    simp only [Handles.start]
    split <;> rfl
  have hi : (Handles.start b₀ b m i).handles i = .idle := if_pos rfl
  refine ⟨haccount, ?_, ?_, ?_, ?_, ?_⟩
  · rw [hreserved]; exact Nat.le_refl _
  · rw [hreserved]; rfl
  · intro j
    simp only [Handles.start]
    split <;> trivial
  · intro j k hj
    simp only [Handles.start] at hj
    split at hj <;> cases hj
  · intro hall
    have hdone := hall i
    rw [hi] at hdone
    cases hdone

/-- The books of a shared memory. `exact` and `returned` are the equations one means; the
    other two are what remains of them when more than `2 ^ 64` bytes are charged, which
    only a budget without a limit admits. -/
structure Balanced (s : State ι α) : Prop where
  recorded : (s.bytes + s.reserved) % 2 ^ 64 = s.charged % 2 ^ 64
  exact : s.charged < 2 ^ 64 → s.bytes + s.reserved = s.charged
  pool : s.budget.wasmLinear % 2 ^ 64 = (s.others .wasmLinear + s.charged) % 2 ^ 64
  covered : ∀ i, aboutToUncharge (s.handles i) ≤ s.charged
  returned : (∀ i, s.handles i = .absent) →
    s.budget.wasmLinear % 2 ^ 64 = s.others .wasmLinear % 2 ^ 64

section

omit [DecidableEq ι] [LawfulNapiMemoryAccountant α]

theorem Inv.charged_absent (h : Inv limited s) (hall : ∀ i, s.handles i = .absent) :
    s.charged % 2 ^ 64 = 0 := by
  have hbytes : s.bytes = 0 := h.emptied fun i => by rw [hall i]; rfl
  have hres : s.reserved = 0 := tally_eq_zero fun i => by rw [hall i]; rfl
  have hm := h.ledgerMod
  rw [hbytes, hres] at hm
  exact hm.symm

theorem Inv.balanced (h : Inv limited s) : Balanced s := by
  have hl := h.ledger
  have hm := h.ledgerMod
  have hpool : s.budget.wasmLinear % 2 ^ 64 = (s.others .wasmLinear + s.charged) % 2 ^ 64 :=
    h.account.shows
  refine ⟨hm, ?_, hpool, ?_, ?_⟩
  · intro hlt
    omega
  · intro i
    have h₁ := aboutToUncharge_le_held (s.handles i)
    have h₂ := s.held_le_reserved i
    omega
  · intro hall
    have hz := h.charged_absent hall
    omega

end

/-- **The handles of one memory give back exactly what they charged.** In every
    interleaving of growth, clones, drops and the other owners' business where each
    `grow_at_least` re-reads a size within its own target: the record and the calls'
    reservations are what the handles have in the pool, nothing given back exceeds it, and
    with the last handle gone the pool is the other owners'. Under a limit the equations
    are exact. -/
theorem handles_balance {b₀ b : ResourceBudget α} {pages : ℕ} {m : BudgetedMemory} {i : ι}
    (hnew : BudgetedMemory.new b₀ pages = (.ok m, b)) {as : List (Act ι α)} {s : State ι α}
    (hr : run Handles.step (Handles.start b₀ b m i) as = some s)
    (hok : AllSteps Handles.step RereadCovered (Handles.start b₀ b m i) as) :
    Balanced s ∧
    (b₀.Settled →
      s.bytes + s.reserved = s.charged ∧
      s.budget.wasmLinear = s.others .wasmLinear + s.charged ∧
      ((∀ j, s.handles j = .absent) → s.budget.wasmLinear = s.others .wasmLinear)) := by
  have h : Inv b₀.Settled s :=
    invariant_of_allSteps (fun _ _ _ hs hc h => Inv.step hs hc h) hr hok (Inv.start hnew i)
  refine ⟨h.balanced, ?_⟩
  intro hset
  have hlt := h.account.charged_lt hset
  have hpool : s.budget.wasmLinear = s.others .wasmLinear + s.charged := h.account.pool_eq hset
  refine ⟨h.balanced.exact (by omega), hpool, ?_⟩
  intro hall
  have hz := h.charged_absent hall
  omega

end Steps

/-- A budget of a hundred pages. -/
def hundredPages : ResourceBudget Empty := ResourceBudget.withMemoryLimit (pagesToBytes 100)

theorem hundredPages_growAtLeast : ∃ k s', run step
    (start hundredPages hundredPages { pages := 0, bytes := 0 } false : State Bool Empty)
      (.growAtLeast false (3 * wasmPageSize) :: List.replicate k (.access false (some 3))) =
        some s' ∧ s'.memory = { pages := 3, bytes := pagesToBytes 3 } := by
  obtain ⟨k, s', hrun, hreturned⟩ := run_growAtLeast
    (start hundredPages hundredPages { pages := 0, bytes := 0 } false : State Bool Empty)
    (i := false) rfl (3 * wasmPageSize) (some 3) (by decide)
  exact ⟨k, s', hrun, hreturned.memory.trans (by decide)⟩

/-- Two handles, one growing to four pages while the other asks for at least three. -/
def sharedGrowth : List (Act Bool Empty) :=
  [.tryClone false true, .growAtLeast false (3 * wasmPageSize), .access false none,
    .access false none, .access false (some 3), .access false none, .grow true 1,
    .access true none, .access true (some 4), .access false none, .access true none,
    .access false none, .drop false, .drop true, .access true none, .access true none]

theorem sharedGrowth_balanced :
    ∃ s, run step (start hundredPages hundredPages { pages := 0, bytes := 0 } false) sharedGrowth =
        some s ∧
      Balanced s ∧ (∀ j, s.handles j = .absent) ∧
      s.budget.wasmLinear = s.others .wasmLinear := by
  have hnew : BudgetedMemory.new hundredPages 0 =
      (.ok { pages := 0, bytes := 0 }, hundredPages) := by decide
  have hset : hundredPages.Settled :=
    ResourceBudget.settled_withMemoryLimit (by decide)
  have hok : AllSteps step RereadCovered
      (start hundredPages hundredPages { pages := 0, bytes := 0 } false) sharedGrowth := by
    decide
  have hshow : (run step (start hundredPages hundredPages { pages := 0, bytes := 0 } false)
      sharedGrowth).map (fun s => decide (∀ j, s.handles j = .absent)) = some true := by
    decide
  obtain ⟨s, hs, hend⟩ := Option.map_eq_some_iff.mp hshow
  have hall := of_decide_eq_true hend
  obtain ⟨hbal, hexact⟩ := handles_balance hnew hs hok
  exact ⟨s, hs, hbal, hall, (hexact hset).2.2 hall⟩

/-- Handle `false` asks for at least one page of an empty memory and reserves one; before
    its inner call, handle `true` grows the memory by two. The second read finds two
    pages, both are recorded, and only one was reserved. -/
def outgrown : List (Act Bool Empty) :=
  [.tryClone false true, .growAtLeast false wasmPageSize, .access false none, .access false none,
    .grow true 2, .access true none, .access true (some 2), .access true none,
    .access false (some 2), .access false none, .access false none, .access false none]

/-- With both handles dropped the pool is one page below zero. -/
theorem outgrown_wraps :
    (∃ s, run step (start hundredPages hundredPages { pages := 0, bytes := 0 } false) outgrown =
        some s ∧ s.bytes + s.reserved = pagesToBytes 4 ∧ s.charged = pagesToBytes 3) ∧
    ∃ s, run step (start hundredPages hundredPages { pages := 0, bytes := 0 } false)
        (outgrown ++ [.drop true, .drop false, .access false none, .access false none]) = some s ∧
      (∀ j, s.handles j = .absent) ∧ s.others .wasmLinear = 0 ∧
      s.budget.wasmLinear = 2 ^ 64 - wasmPageSize := by
  constructor
  · have hshow : (run step (start hundredPages hundredPages { pages := 0, bytes := 0 } false)
        outgrown).map (fun s => (s.bytes + s.reserved, s.charged)) =
          some (pagesToBytes 4, pagesToBytes 3) := by decide
    obtain ⟨s, hs, hend⟩ := Option.map_eq_some_iff.mp hshow
    exact ⟨s, hs, (Prod.mk.inj hend).1, (Prod.mk.inj hend).2⟩
  · have hshow : (run step (start hundredPages hundredPages { pages := 0, bytes := 0 } false)
        (outgrown ++ [.drop true, .drop false, .access false none, .access false none])).map
          (fun s => (decide (∀ j, s.handles j = .absent), s.others .wasmLinear,
            s.budget.wasmLinear)) = some (true, 0, 2 ^ 64 - wasmPageSize) := by decide
    obtain ⟨s, hs, hend⟩ := Option.map_eq_some_iff.mp hshow
    obtain ⟨hall, hrest⟩ := Prod.mk.inj hend
    exact ⟨s, hs, of_decide_eq_true hall, (Prod.mk.inj hrest).1, (Prod.mk.inj hrest).2⟩

end Handles
end WasmerNapi.Budget
