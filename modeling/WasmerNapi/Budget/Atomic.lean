import WasmerNapi.Budget.Basic
import WasmerNapi.Lib.Run
import WasmerNapi.Lib.Tally

/-!
# `try_charge` and `uncharge`, one atomic access at a time

`src/src/budget.rs`, `ResourceBudget::try_charge` / `uncharge`. A charge moves the
aggregate first (a retrying `compare_exchange_weak`) and the pool second; an
uncharge moves the pool first and the aggregate second. In between, the two
disagree, and every other thread may run. This file gives each call a *phase* —
which access it makes next — and lets any number of threads interleave.

The invariant is a tally. A thread inside a call *holds* bytes: in the aggregate
from its exchange to its pool `fetch_add`, in both counters until its pool
`fetch_sub`, in the aggregate alone until its total `fetch_sub`. Each counter is
then exactly the outstanding charges plus what the threads hold in it, and the
opposite orders of the two calls are what keeps the pools' share of a thread's
holding below its aggregate share.
-/

namespace WasmerNapi.Budget.Atomic

open Word Run
open ResourceBudget (poolCounter addPool subPool)

/-! ## Phases -/

/-- Where a thread stands: between calls, or in front of one access of a call. -/
inductive Phase where
  | idle
  | returned (r : Except OverBudget Unit)
  | askAccountant (pool : Pool) (bytes : ℕ)
  | fetchAddTotal (pool : Pool) (bytes : ℕ)
  | load (pool : Pool) (bytes : ℕ)
  | exchange (pool : Pool) (bytes current : ℕ)
  | fetchAddPool (pool : Pool) (bytes : ℕ)
  | fetchSubPool (pool : Pool) (bytes : ℕ)
  | fetchSubTotal (bytes : ℕ)
  | tellAccountant (bytes : ℕ)

def Phase.betweenCalls : Phase → Bool
  | .idle | .returned _ => true
  | _ => false

/-- A thread: its phase, and three observations about the call it is in (or last
    returned from): what a `try_charge` was asked for, the values of `mem_charged` the
    call has read, and whether one of the call's own steps has changed a counter. -/
structure Thread where
  phase : Phase := .idle
  call : Option (Pool × ℕ) := none
  reads : List ℕ := []
  wrote : Bool := false

/-- What a thread has charged by coming back with `Ok`: the bytes its caller asked for,
    whatever the call has done about them. -/
def Thread.charges (t : Thread) (p : Pool) : ℕ :=
  match t.phase, t.call with
  | .returned (.ok ()), some (pool, bytes) => if p = pool then bytes else 0
  | _, _ => 0

/-- The four byte counters. -/
def counters {α : Type} (b : ResourceBudget α) : ℕ × ℕ × ℕ × ℕ :=
  (b.memCharged, b.wasmLinear, b.v8HeapReserved, b.v8External)

/-- The budget all threads share, the threads, and — as bookkeeping no access reads
    — the bytes of each pool whose `try_charge` has answered `Ok` and that no `uncharge`
    has taken back yet. -/
structure State (ι α : Type) where
  budget : ResourceBudget α
  threads : ι → Thread
  outstanding : Pool → ℕ

/-- A label: a thread enters a call, or makes the next access of the call it is in.
    `spurious` decides whether a `compare_exchange_weak` fails for no reason. -/
inductive Act (ι : Type) where
  | tryCharge (i : ι) (pool : Pool) (bytes : ℕ)
  | uncharge (i : ι) (pool : Pool) (bytes : ℕ)
  | access (i : ι) (spurious : Bool)

section Machine

variable {ι α : Type} [DecidableEq ι] [NapiMemoryAccountant α]

/-- The first thing `try_charge` does: an empty charge returns at once, and the
    budget's regime picks the path. -/
def enterTryCharge (b : ResourceBudget α) (pool : Pool) (bytes : ℕ) : Phase :=
  if bytes = 0 then .returned (.ok ())
  else
    match b.accountant with
    | some _ => .askAccountant pool bytes
    | none => if b.memTotal = Budget.unlimited then .fetchAddTotal pool bytes else .load pool bytes

def enterUncharge (pool : Pool) (bytes : ℕ) : Phase :=
  if bytes = 0 then .idle else .fetchSubPool pool bytes

/-- One access of a call: the budget after it, the caller's next phase, and the
    values of `mem_charged` it read. -/
def access (b : ResourceBudget α) (spurious : Bool) :
    Phase → Option (ResourceBudget α × Phase × List ℕ)
  | .idle => none
  | .returned _ => none
  | .askAccountant pool bytes =>
    match b.accountant with
    | none => none
    | some a =>
      match NapiMemoryAccountant.tryCharge a bytes with
      | (false, a') =>
        some ({ b with accountant := some a' },
          .returned (.error { pool, requested := bytes,
                              charged := NapiMemoryAccountant.memoryCharged a',
                              total := NapiMemoryAccountant.memoryLimit a' }), [])
      | (true, a') => some ({ b with accountant := some a' }, .fetchAddTotal pool bytes, [])
  | .fetchAddTotal pool bytes => some (b.addTotal bytes, .fetchAddPool pool bytes, [])
  | .load pool bytes => some (b, .exchange pool bytes b.memCharged, [b.memCharged])
  | .exchange pool bytes current =>
    match b.nextCharged current bytes with
    | none => some (b, .returned (.error (b.overBudget pool bytes current)), [])
    | some next =>
      if b.memCharged = current ∧ spurious = false
        then some ({ b with memCharged := next }, .fetchAddPool pool bytes, [])
        -- a failed exchange, spurious or not, hands back the value it observed
        else some (b, .exchange pool bytes b.memCharged, [b.memCharged])
  | .fetchAddPool pool bytes => some (b.addPool pool bytes, .returned (.ok ()), [])
  | .fetchSubPool pool bytes => some (b.subPool pool bytes, .fetchSubTotal bytes, [])
  | .fetchSubTotal bytes =>
    some (b.subTotal bytes,
      if b.accountant.isSome then .tellAccountant bytes else .idle, [])
  | .tellAccountant bytes =>
    match b.accountant with
    | none => none
    | some a =>
      some ({ b with accountant := some (NapiMemoryAccountant.uncharge a bytes) }, .idle, [])

/-- The thread record an access leaves behind. -/
def Thread.after (t : Thread) (b b' : ResourceBudget α) (phase : Phase) (reads : List ℕ) :
    Thread :=
  { t with
    phase
    reads := t.reads ++ reads
    wrote := t.wrote || decide (counters b' ≠ counters b) }

/-- One step of the machine. An `uncharge` may only be entered for bytes that are
    outstanding; that is the callers' side of the contract, and the only thing
    assumed of them. -/
def step (s : State ι α) : Act ι → Option (State ι α)
  | .tryCharge i pool bytes =>
    if (s.threads i).phase.betweenCalls then
      let t : Thread := { phase := enterTryCharge s.budget pool bytes, call := some (pool, bytes) }
      some { s with
        threads := Function.update s.threads i t
        outstanding := fun p => s.outstanding p + t.charges p }
    else none
  | .uncharge i pool bytes =>
    if (s.threads i).phase.betweenCalls ∧ bytes ≤ s.outstanding pool then
      some { s with
        threads := Function.update s.threads i { phase := enterUncharge pool bytes }
        outstanding := fun p => if p = pool then s.outstanding p - bytes else s.outstanding p }
    else none
  | .access i spurious =>
    match access s.budget spurious (s.threads i).phase with
    | none => none
    | some (budget, phase, reads) =>
      let t := (s.threads i).after s.budget budget phase reads
      some {
        budget
        threads := Function.update s.threads i t
        outstanding := fun p => s.outstanding p + t.charges p }

/-- A fresh budget with every thread between calls. -/
def State.init (memTotal : ℕ) : State ι α :=
  { budget := ResourceBudget.withMemoryLimit memTotal
    threads := fun _ => {}
    outstanding := fun _ => 0 }

end Machine

/-! ## What a thread holds -/

/-- Bytes the aggregate shows for a thread in the middle of a call. -/
def heldTotal (t : Thread) : ℕ :=
  match t.phase with
  | .fetchAddPool _ n | .fetchSubPool _ n | .fetchSubTotal n => n
  | _ => 0

/-- Bytes a pool still shows for a thread that is about to give them back. -/
def heldPool (p : Pool) (t : Thread) : ℕ :=
  match t.phase with
  | .fetchSubPool q n => if p = q then n else 0
  | _ => 0

/-- Bytes a thread is about to add to a pool, already in the aggregate. -/
def pendingPool (p : Pool) (t : Thread) : ℕ :=
  match t.phase with
  | .fetchAddPool q n => if p = q then n else 0
  | _ => 0

/-- The pools' share of a thread's holding, shown or about to be, is within its
    aggregate share: the one arithmetic fact about the order of the accesses. -/
theorem pools_held_le (t : Thread) :
    (heldPool .wasmLinear t + pendingPool .wasmLinear t) +
      (heldPool .v8HeapReserved t + pendingPool .v8HeapReserved t) +
      (heldPool .v8External t + pendingPool .v8External t) ≤ heldTotal t := by
  obtain ⟨phase, _, _, _⟩ := t
  cases phase with
  | fetchAddPool q n => cases q <;> simp [heldPool, pendingPool, heldTotal]
  | fetchSubPool q n => cases q <;> simp [heldPool, pendingPool, heldTotal]
  | _ => simp [heldPool, pendingPool, heldTotal]

/-! ## The invariant -/

/-- What a refused charge has done, and what it reports: no counter has changed by its
    steps, and the request, which is its caller's, goes past the total from a value of
    `mem_charged` it read. -/
structure Refused (memTotal : ℕ) (t : Thread) (e : OverBudget) : Prop where
  wrote : t.wrote = false
  call : t.call = some (e.pool, e.requested)
  charged : e.charged ∈ t.reads
  total : e.total = memTotal
  exceeds : memTotal < e.charged + e.requested

/-- What a thread's own observations say, phase by phase: a call still holds its
    caller's arguments, one that has not exchanged yet has written nothing, the value
    it will exchange against is one it read, and a refusal was computed from such a
    value. The three phases of the other regimes are not reached under a limited
    budget. -/
def ThreadOk (memTotal : ℕ) (t : Thread) : Prop :=
  match t.phase with
  | .load p n => t.call = some (p, n) ∧ t.wrote = false
  | .exchange p n current => t.call = some (p, n) ∧ t.wrote = false ∧ current ∈ t.reads
  | .fetchAddPool p n => t.call = some (p, n)
  | .returned (.error e) => Refused memTotal t e
  | .askAccountant _ _ | .fetchAddTotal _ _ | .tellAccountant _ => False
  | _ => True

structure Inv {ι α : Type} [Fintype ι] (memTotal : ℕ) (s : State ι α) : Prop where
  limited : s.budget.Limited
  sameTotal : s.budget.memTotal = memTotal
  total : s.budget.memCharged =
    s.outstanding .wasmLinear + s.outstanding .v8HeapReserved + s.outstanding .v8External +
      tally heldTotal s.threads
  pool : ∀ p, s.budget.poolCounter p = s.outstanding p + tally (heldPool p) s.threads
  bound : s.budget.memCharged ≤ s.budget.memTotal
  threads : ∀ i, ThreadOk memTotal (s.threads i)

section

variable {ι α : Type} [Fintype ι] {memTotal : ℕ}

variable {s : State ι α}

/-- Each pool, with what is on its way into it, is within the aggregate. -/
theorem Inv.pools_le (h : Inv memTotal s) :
    (s.budget.wasmLinear + tally (pendingPool .wasmLinear) s.threads) +
      (s.budget.v8HeapReserved + tally (pendingPool .v8HeapReserved) s.threads) +
      (s.budget.v8External + tally (pendingPool .v8External) s.threads) ≤
        s.budget.memCharged := by
  have hw := h.pool .wasmLinear
  have hv := h.pool .v8HeapReserved
  have he := h.pool .v8External
  have hle := tally_le_tally (f := fun t =>
      (heldPool .wasmLinear t + pendingPool .wasmLinear t) +
      (heldPool .v8HeapReserved t + pendingPool .v8HeapReserved t) +
      (heldPool .v8External t + pendingPool .v8External t))
    fun i => pools_held_le (s.threads i)
  simp only [tally_add] at hle
  simp only [poolCounter] at hw hv he
  rw [h.total]
  omega

theorem Inv.pool_add_pending_le (h : Inv memTotal s) (p : Pool) (i : ι) :
    s.budget.poolCounter p + pendingPool p (s.threads i) ≤ s.budget.memCharged := by
  have hle := h.pools_le
  have hi := held_le_tally (pendingPool p) s.threads i
  cases p <;> simp only [poolCounter] <;> omega

theorem Inv.held_le_pool (h : Inv memTotal s) (p : Pool) (i : ι) :
    heldPool p (s.threads i) ≤ s.budget.poolCounter p := by
  have hi := held_le_tally (heldPool p) s.threads i
  rw [h.pool p]
  omega

theorem Inv.held_le_total (h : Inv memTotal s) (i : ι) :
    heldTotal (s.threads i) ≤ s.budget.memCharged := by
  have hi := held_le_tally heldTotal s.threads i
  rw [h.total]
  omega

theorem Inv.charged_lt (h : Inv memTotal s) : s.budget.memCharged < 2 ^ 64 := by
  have h₁ := h.limited.total
  have h₂ := h.bound
  unfold Budget.unlimited at h₁
  omega

theorem Inv.pool_lt (h : Inv memTotal s) (p : Pool) : s.budget.poolCounter p < 2 ^ 64 := by
  have hle := h.pools_le
  have hlt := h.charged_lt
  cases p <;> simp only [poolCounter] <;> omega

theorem Inv.init (h : memTotal < Budget.unlimited) :
    Inv memTotal (State.init memTotal : State ι α) where
  limited := ⟨rfl, h⟩
  sameTotal := rfl
  total := by
    rw [show tally heldTotal (State.init memTotal : State ι α).threads = 0 from
      tally_eq_zero fun _ => rfl]
    rfl
  pool p := by
    rw [show tally (heldPool p) (State.init memTotal : State ι α).threads = 0 from
      tally_eq_zero fun _ => rfl]
    cases p <;> rfl
  bound := Nat.zero_le _
  threads _ := trivial

/-! ## One step -/

variable [DecidableEq ι]

variable {i : ι}

/-- **The move rule.** One thread moves from its state to `t`, the budget from
    `s.budget` to `b`, the outstanding charges to `out`. If in every counter what
    was added is what is now held or outstanding, the invariant is kept. -/
theorem Inv.move (h : Inv memTotal s) {t : Thread} {b : ResourceBudget α} {out : Pool → ℕ}
    (hlim : b.Limited) (htotal : b.memTotal = s.budget.memTotal)
    (hcharged : b.memCharged + heldTotal (s.threads i) + (s.outstanding .wasmLinear +
        s.outstanding .v8HeapReserved + s.outstanding .v8External) =
      s.budget.memCharged + heldTotal t +
        (out .wasmLinear + out .v8HeapReserved + out .v8External))
    (hpool : ∀ p, b.poolCounter p + heldPool p (s.threads i) + s.outstanding p =
      s.budget.poolCounter p + heldPool p t + out p) (hbound : b.memCharged ≤ b.memTotal)
    (ht : ThreadOk memTotal t) :
    Inv memTotal { budget := b, threads := Function.update s.threads i t, outstanding := out } where
  limited := hlim
  sameTotal := htotal.trans h.sameTotal
  total := by
    have hu := tally_update heldTotal s.threads i t
    have hs := h.total
    dsimp only
    omega
  pool p := by
    have hu := tally_update (heldPool p) s.threads i t
    have hs := h.pool p
    have hp := hpool p
    dsimp only
    omega
  bound := hbound
  threads j := by
    dsimp only
    by_cases hj : j = i
    · subst hj; rwa [Function.update_self]
    · rw [Function.update_of_ne hj]; exact h.threads j

theorem held_of_betweenCalls {t : Thread} (hb : t.phase.betweenCalls = true) :
    heldTotal t = 0 ∧ ∀ p, heldPool p t = 0 := by
  obtain ⟨phase, _, _, _⟩ := t
  cases phase <;> simp_all [Phase.betweenCalls, heldTotal, heldPool]

theorem Inv.step_tryCharge (h : Inv memTotal s) {p : Pool} {n : ℕ}
    (hb : (s.threads i).phase.betweenCalls = true) :
    Inv memTotal
      { s with
        threads := Function.update s.threads i
          { phase := enterTryCharge s.budget p n, call := some (p, n) }
        outstanding := fun q => s.outstanding q +
          Thread.charges { phase := enterTryCharge s.budget p n, call := some (p, n) } q } := by
  obtain ⟨h₀, hp₀⟩ := held_of_betweenCalls hb
  have hph : (n = 0 ∧ enterTryCharge s.budget p n = .returned (.ok ())) ∨
      enterTryCharge s.budget p n = .load p n := by
    unfold enterTryCharge
    rw [h.limited.accountant]
    simp only [if_neg h.limited.total_ne]
    by_cases hn : n = 0 <;> simp [hn]
  -- Only the empty charge comes back at once, and there is nothing in it.
  have hnew : ∀ q,
      Thread.charges { phase := enterTryCharge s.budget p n, call := some (p, n) } q = 0 := by
    intro q
    rcases hph with ⟨hz, hph⟩ | hph <;> simp [Thread.charges, hph]
    exact fun _ => hz
  refine h.move h.limited rfl ?_ ?_ h.bound ?_
  · rw [h₀, hnew, hnew, hnew]
    rcases hph with ⟨-, hph⟩ | hph <;> simp [heldTotal, hph]
  · intro q
    rw [hp₀, hnew]
    rcases hph with ⟨-, hph⟩ | hph <;> simp [heldPool, hph]
  · rcases hph with ⟨-, hph⟩ | hph <;> simp [ThreadOk, hph]

theorem Inv.step_uncharge (h : Inv memTotal s) {p : Pool} {n : ℕ}
    (hb : (s.threads i).phase.betweenCalls = true) (hn : n ≤ s.outstanding p) :
    Inv memTotal
      { s with
        threads := Function.update s.threads i { phase := enterUncharge p n }
        outstanding := fun q => if q = p then s.outstanding q - n else s.outstanding q } := by
  obtain ⟨h₀, hp₀⟩ := held_of_betweenCalls hb
  have hheld : heldTotal { phase := enterUncharge p n } = n ∧
      ∀ q, heldPool q { phase := enterUncharge p n } = if q = p then n else 0 := by
    unfold enterUncharge
    by_cases hz : n = 0
    · simp [hz, heldTotal, heldPool]
    · simp [hz, heldTotal, heldPool]
  refine h.move h.limited rfl ?_ ?_ h.bound ?_
  · rw [hheld.1, h₀]
    cases p <;> simp <;> omega
  · intro q
    rw [hheld.2, hp₀]
    by_cases hq : q = p
    · subst hq; simp; omega
    · simp [hq]
  · unfold enterUncharge
    by_cases hz : n = 0 <;> simp [hz, ThreadOk]

variable [NapiMemoryAccountant α]

theorem Inv.step_access (h : Inv memTotal s) {spurious : Bool} {b : ResourceBudget α}
    {phase : Phase} {reads : List ℕ}
    (ha : access s.budget spurious (s.threads i).phase = some (b, phase, reads)) :
    Inv memTotal
      { budget := b
        threads := Function.update s.threads i ((s.threads i).after s.budget b phase reads)
        outstanding := fun p => s.outstanding p +
          ((s.threads i).after s.budget b phase reads).charges p } := by
  have hok := h.threads i
  have hpend := h.pool_add_pending_le
  have hheld := h.held_le_pool
  have htot := h.held_le_total i
  have hlt := h.charged_lt
  have hplt := h.pool_lt
  cases hp : (s.threads i).phase with
  | idle => simp [access, hp] at ha
  | returned r => simp [access, hp] at ha
  | askAccountant p n => simp [ThreadOk, hp] at hok
  | fetchAddTotal p n => simp [ThreadOk, hp] at hok
  | tellAccountant n => simp [ThreadOk, hp] at hok
  | load p n =>
    simp only [ThreadOk, hp] at hok
    simp only [access, hp, Option.some.injEq, Prod.mk.injEq] at ha
    obtain ⟨rfl, rfl, rfl⟩ := ha
    refine h.move h.limited rfl ?_ ?_ h.bound ?_
    · simp [heldTotal, Thread.after, hp, Thread.charges]
    · simp [heldPool, Thread.after, hp, Thread.charges]
    · simp [ThreadOk, Thread.after, hok]
  | exchange p n current =>
    simp only [ThreadOk, hp] at hok
    simp only [access, hp] at ha
    cases hadm : s.budget.nextCharged current n with
    | none =>
      rw [hadm] at ha
      simp only [Option.some.injEq, Prod.mk.injEq] at ha
      obtain ⟨rfl, rfl, rfl⟩ := ha
      have hover := (ResourceBudget.nextCharged_eq_none h.limited).mp hadm
      refine h.move h.limited rfl ?_ ?_ h.bound ?_
      · simp [heldTotal, Thread.after, hp, Thread.charges]
      · simp [heldPool, Thread.after, hp, Thread.charges]
      · exact
          { wrote := by simp [Thread.after, hok]
            call := hok.1
            charged := List.mem_append_left _ hok.2.2
            total := h.sameTotal
            exceeds := by rw [← h.sameTotal]; exact hover }
    | some next =>
      rw [hadm] at ha
      obtain ⟨hfit, rfl⟩ := (ResourceBudget.nextCharged_eq_some h.limited).mp hadm
      by_cases hcas : s.budget.memCharged = current ∧ spurious = false
      · -- the exchange wins: the bytes enter the aggregate, held by this thread
        simp only [hcas, and_self, if_true, Option.some.injEq, Prod.mk.injEq] at ha
        obtain ⟨rfl, rfl, rfl⟩ := ha
        refine h.move ⟨h.limited.accountant, h.limited.total⟩ rfl ?_ ?_ hfit ?_
        · simp [heldTotal, Thread.after, hp, Thread.charges, hcas.1]
        · intro q
          simp only [heldPool, Thread.after, hp, Thread.charges]
          cases q <;> rfl
        · exact hok.1
      · simp only [hcas, if_false, Option.some.injEq, Prod.mk.injEq] at ha
        obtain ⟨rfl, rfl, rfl⟩ := ha
        refine h.move h.limited rfl ?_ ?_ h.bound ?_
        · simp [heldTotal, Thread.after, hp, Thread.charges]
        · simp [heldPool, Thread.after, hp, Thread.charges]
        · simp [ThreadOk, Thread.after, hok]
  | fetchAddPool p n =>
    simp only [access, hp, Option.some.injEq, Prod.mk.injEq] at ha
    obtain ⟨rfl, rfl, rfl⟩ := ha
    have hcall : (s.threads i).call = some (p, n) := by simpa [ThreadOk, hp] using hok
    have hfit : s.budget.poolCounter p + n ≤ s.budget.memCharged := by
      simpa [pendingPool, hp, hcall, Thread.charges] using hpend p i
    refine h.move ⟨?_, ?_⟩ ?_ ?_ ?_ ?_ ?_
    · simpa [addPool] using h.limited.accountant
    · simpa [addPool] using h.limited.total
    · simp [addPool]
    · simp only [addPool, ResourceBudget.setPool_memCharged, heldTotal,
        Thread.after, hp, hcall, Thread.charges]
      cases p <;> simp <;> omega
    · intro q
      rw [ResourceBudget.poolCounter_addPool, wrappingAdd_of_lt (by omega)]
      simp only [heldPool, Thread.after, hp, hcall, Thread.charges]
      by_cases hq : q = p
      · subst hq; simp; omega
      · simp [hq]
    · simpa [addPool] using h.bound
    · simp [ThreadOk, Thread.after]
  | fetchSubPool p n =>
    simp only [access, hp, Option.some.injEq, Prod.mk.injEq] at ha
    obtain ⟨rfl, rfl, rfl⟩ := ha
    have hfit : n ≤ s.budget.poolCounter p := by simpa [heldPool, hp] using hheld p i
    refine h.move ⟨?_, ?_⟩ ?_ ?_ ?_ ?_ ?_
    · simpa [subPool] using h.limited.accountant
    · simpa [subPool] using h.limited.total
    · simp [subPool]
    · simp [subPool, heldTotal, Thread.after, hp, Thread.charges]
    · intro q
      rw [ResourceBudget.poolCounter_subPool, wrappingSub_of_le hfit (hplt p)]
      simp only [heldPool, Thread.after, hp, Thread.charges]
      by_cases hq : q = p
      · subst hq; simp; omega
      · simp [hq]
    · simpa [subPool] using h.bound
    · simp [ThreadOk, Thread.after]
  | fetchSubTotal n =>
    simp only [access, hp, h.limited.accountant, Option.isSome_none, Bool.false_eq_true, if_false,
      Option.some.injEq, Prod.mk.injEq] at ha
    obtain ⟨rfl, rfl, rfl⟩ := ha
    have hfit : n ≤ s.budget.memCharged := by simpa [heldTotal, hp] using htot
    have hsub : (s.budget.subTotal n).memCharged = s.budget.memCharged - n :=
      wrappingSub_of_le hfit hlt
    refine h.move ⟨h.limited.accountant, h.limited.total⟩ rfl ?_ ?_ ?_ ?_
    · rw [hsub]
      simp only [heldTotal, Thread.after, hp, Thread.charges]
      omega
    · intro q
      simp only [heldPool, Thread.after, hp, Thread.charges]
      cases q <;> rfl
    · rw [hsub]
      exact Nat.le_trans (Nat.sub_le _ _) h.bound
    · simp [ThreadOk, Thread.after]

theorem Inv.step {s' : State ι α} {a : Act ι} (hs : step s a = some s') (h : Inv memTotal s) :
    Inv memTotal s' := by
  cases a with
  | tryCharge i p n =>
    simp only [Atomic.step] at hs
    split at hs
    · rename_i hb
      cases hs
      exact h.step_tryCharge hb
    · cases hs
  | uncharge i p n =>
    simp only [Atomic.step] at hs
    split at hs
    · rename_i hb
      cases hs
      exact h.step_uncharge hb.1 hb.2
    · cases hs
  | access i spurious =>
    simp only [Atomic.step] at hs
    split at hs
    · cases hs
    · rename_i b phase reads ha
      cases hs
      exact h.step_access ha

theorem Inv.run (hlim : memTotal < Budget.unlimited) {as : List (Act ι)}
    (hr : run Atomic.step (State.init memTotal) as = some s) :
    Inv memTotal s :=
  Run.invariant (fun _ _ _ hs h => Inv.step hs h) hr (Inv.init hlim)

/-! ## The interleaving theorem -/

/-- No access that is about to be made wraps the counter it moves. -/
def NoWrap (s : State ι α) : Prop :=
  ∀ i, match (s.threads i).phase with
    | .exchange _ n current => ∀ next, s.budget.nextCharged current n = some next → next = current + n
    | .fetchAddTotal _ n => s.budget.memCharged + n < 2 ^ 64
    | .fetchAddPool p n => s.budget.poolCounter p + n < 2 ^ 64
    | .fetchSubPool p n => n ≤ s.budget.poolCounter p
    | .fetchSubTotal n => n ≤ s.budget.memCharged
    | _ => True

/-- No thread is inside a call. -/
def Quiescent (s : State ι α) : Prop := ∀ i, (s.threads i).phase.betweenCalls = true

section

omit [DecidableEq ι] [NapiMemoryAccountant α]

theorem Inv.noWrap (h : Inv memTotal s) : NoWrap s := by
  intro i
  have hok := h.threads i
  have hpend := h.pool_add_pending_le
  have hheld := h.held_le_pool
  have htot := h.held_le_total i
  have hlt := h.charged_lt
  cases hp : (s.threads i).phase with
  | exchange p n current =>
    exact fun next hn => ((ResourceBudget.nextCharged_eq_some h.limited).mp hn).2
  | fetchAddTotal p n => simp [ThreadOk, hp] at hok
  | fetchAddPool p n =>
    have : s.budget.poolCounter p + n ≤ s.budget.memCharged := by
      simpa [pendingPool, hp, Thread.charges] using hpend p i
    dsimp only
    omega
  | fetchSubPool p n => simpa [heldPool, hp] using hheld p i
  | fetchSubTotal n => simpa [heldTotal, hp] using htot
  | _ => trivial

theorem Inv.settled (h : Inv memTotal s) (hq : Quiescent s) :
    (∀ p, s.budget.poolCounter p = s.outstanding p) ∧
      s.budget.memCharged =
        s.budget.wasmLinear + s.budget.v8HeapReserved + s.budget.v8External := by
  have hpool : ∀ p, s.budget.poolCounter p = s.outstanding p := by
    intro p
    have hz : tally (heldPool p) s.threads = 0 :=
      tally_eq_zero fun i => (held_of_betweenCalls (hq i)).2 p
    rw [h.pool p, hz, Nat.add_zero]
  have hz : tally heldTotal s.threads = 0 :=
    tally_eq_zero fun i => (held_of_betweenCalls (hq i)).1
  refine ⟨hpool, ?_⟩
  have hw := hpool .wasmLinear
  have hv := hpool .v8HeapReserved
  have he := hpool .v8External
  simp only [poolCounter] at hw hv he
  rw [h.total, hz, hw, hv, he, Nat.add_zero]

end

/-- **Every interleaving of charges and uncharges on a limited budget keeps the
    counters honest.** In every state reached: the pools are within the aggregate and
    the aggregate within the total; no access about to be made wraps; a refused charge
    has changed no counter and refused against a value of `mem_charged` it read, which
    the request would have pushed past the total; and with no call in progress each
    pool is its outstanding charges and the aggregate is the sum of the pools. -/
theorem interleaved_charges_balance (hlim : memTotal < Budget.unlimited) {as : List (Act ι)}
    {s : State ι α} (hr : run step (State.init memTotal) as = some s) :
    (s.budget.wasmLinear + s.budget.v8HeapReserved + s.budget.v8External ≤ s.budget.memCharged ∧
      s.budget.memCharged ≤ memTotal) ∧
    NoWrap s ∧
    (∀ i e, (s.threads i).phase = .returned (.error e) → Refused memTotal (s.threads i) e) ∧
    (Quiescent s →
      (∀ p, s.budget.poolCounter p = s.outstanding p) ∧
      s.budget.memCharged =
        s.budget.wasmLinear + s.budget.v8HeapReserved + s.budget.v8External) := by
  have h : Inv memTotal s := Inv.run hlim hr
  refine ⟨⟨?_, ?_⟩, h.noWrap, ?_, h.settled⟩
  · have := h.pools_le
    omega
  · rw [← h.sameTotal]; exact h.bound
  · intro i e he
    have hok := h.threads i
    simpa [ThreadOk, he] using hok

end

/-- Two threads race for 100 bytes: thread 0 loads, thread 1 charges 60 past it, thread
    0's exchange fails and its retry is refused. -/
def raceForTheLastBytes : List (Act (Fin 2)) :=
  [.tryCharge 0 .wasmLinear 50, .access 0 false, .tryCharge 1 .v8External 60, .access 1 false,
    .access 1 false, .access 0 false, .access 0 false, .access 1 false]

theorem raceForTheLastBytes_balanced :
    ∃ s : State (Fin 2) Empty, run step (State.init 100) raceForTheLastBytes = some s ∧
      s.budget.memCharged ≤ 100 ∧ s.budget.memCharged = 60 := by
  obtain ⟨s, hs⟩ := Option.isSome_iff_exists.mp
    (show (run step (State.init 100 : State (Fin 2) Empty) raceForTheLastBytes).isSome from rfl)
  refine ⟨s, hs, (interleaved_charges_balance (by decide) hs).1.2, ?_⟩
  have : (run step (State.init 100 : State (Fin 2) Empty) raceForTheLastBytes).map
      (·.budget.memCharged) = some 60 := rfl
  rw [hs] at this
  exact Option.some.inj this

end WasmerNapi.Budget.Atomic
