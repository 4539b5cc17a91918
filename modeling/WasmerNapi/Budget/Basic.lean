import WasmerNapi.Lib.Word

/-!
# `ResourceBudget` — one shared accountant per application

`src/src/budget.rs`. Every byte pool of an application charges one budget: the
aggregate `mem_charged` is what the limit bounds, the three pool counters are what
teardown gives back from. The model keeps the record field for field, counters as
naturals with the source's own wrapping `fetch_add`/`fetch_sub`, and the embedder's
accountant — a trait object, so code outside the repository — as a type parameter
with the trait's four operations.

`tryCharge` and `uncharge` here are the calls taken whole, as one caller with no
interference sees them. `Budget/Atomic.lean` takes them apart into their atomic
accesses and proves that every interleaving keeps the counters this file's
operations keep.
-/

namespace WasmerNapi.Budget

open Word

/-- `UNLIMITED`: a total that disables enforcement. -/
def unlimited : ℕ := 2 ^ 64 - 1

def mib : ℕ := 1024 * 1024

def defaultInitialIsolateHeap : ℕ := 64 * mib
def defaultHeapGrowStep : ℕ := 32 * mib
def defaultUnwindSlack : ℕ := 16 * mib
def defaultPerIsolateOverhead : ℕ := 8 * mib
def estHostBytesPerValue : ℕ := 128

/-- A distinct byte pool metered against the budget. -/
inductive Pool where
  | wasmLinear
  | v8HeapReserved
  | v8External
  deriving DecidableEq, Repr

/-- What a refused charge reports. -/
structure OverBudget where
  pool : Pool
  requested : ℕ
  charged : ℕ
  total : ℕ
  deriving DecidableEq, Repr

/-- The embedder's aggregate accounting. `tryCharge` answers whether the bytes were
    admitted and leaves the accountant in a new state either way. -/
class NapiMemoryAccountant (α : Type) where
  memoryLimit : α → ℕ
  memoryCharged : α → ℕ
  tryCharge : α → ℕ → Bool × α
  uncharge : α → ℕ → α

/-- What `ResourceBudget` relies on when it lets an accountant decide: the limit is
    one number, the account never shows more than it, an admitted charge raises it by
    the bytes asked for, a refused one leaves it, and bytes given back leave it. -/
class LawfulNapiMemoryAccountant (α : Type) [NapiMemoryAccountant α] : Prop where
  memoryLimit_tryCharge : ∀ (a : α) (n : ℕ),
    NapiMemoryAccountant.memoryLimit (NapiMemoryAccountant.tryCharge a n).2 =
      NapiMemoryAccountant.memoryLimit a
  memoryLimit_uncharge : ∀ (a : α) (n : ℕ),
    NapiMemoryAccountant.memoryLimit (NapiMemoryAccountant.uncharge a n) =
      NapiMemoryAccountant.memoryLimit a
  memoryCharged_le : ∀ a : α,
    NapiMemoryAccountant.memoryCharged a ≤ NapiMemoryAccountant.memoryLimit a
  memoryCharged_tryCharge : ∀ (a : α) (n : ℕ),
    NapiMemoryAccountant.memoryCharged (NapiMemoryAccountant.tryCharge a n).2 =
      NapiMemoryAccountant.memoryCharged a + if (NapiMemoryAccountant.tryCharge a n).1 then n else 0
  memoryCharged_uncharge : ∀ (a : α) (n : ℕ), n ≤ NapiMemoryAccountant.memoryCharged a →
    NapiMemoryAccountant.memoryCharged (NapiMemoryAccountant.uncharge a n) + n =
      NapiMemoryAccountant.memoryCharged a

/-- The accountant of a context that has none. -/
instance : NapiMemoryAccountant Empty where
  memoryLimit := Empty.elim
  memoryCharged := Empty.elim
  tryCharge := fun a _ => a.elim
  uncharge := fun a _ => a

instance : LawfulNapiMemoryAccountant Empty where
  memoryLimit_tryCharge := fun a => a.elim
  memoryLimit_uncharge := fun a => a.elim
  memoryCharged_le := fun a => a.elim
  memoryCharged_tryCharge := fun a => a.elim
  memoryCharged_uncharge := fun a => a.elim

structure ResourceBudget (α : Type) where
  memTotal : ℕ
  memCharged : ℕ := 0
  accountant : Option α := none
  wasmLinear : ℕ := 0
  v8HeapReserved : ℕ := 0
  v8External : ℕ := 0
  liveIsolates : ℕ := 0
  deriving DecidableEq, Repr

namespace ResourceBudget

variable {α : Type}

/-! ## Construction -/

def withTotal (memTotal : ℕ) : ResourceBudget α := { memTotal }

def unlimited : ResourceBudget α := withTotal Budget.unlimited

def withMemoryLimit (bytes : ℕ) : ResourceBudget α := withTotal bytes

def withAccountant [NapiMemoryAccountant α] (accountant : α) : ResourceBudget α :=
  { memTotal := NapiMemoryAccountant.memoryLimit accountant, accountant := some accountant }

/-- `wasm_is_externally_accounted`: with an accountant, growth of linear memory is
    already charged by the embedder's own tunables. -/
def wasmIsExternallyAccounted (b : ResourceBudget α) : Bool := b.accountant.isSome

/-! ## Counters -/

def poolCounter (b : ResourceBudget α) : Pool → ℕ
  | .wasmLinear => b.wasmLinear
  | .v8HeapReserved => b.v8HeapReserved
  | .v8External => b.v8External

def setPool (b : ResourceBudget α) (pool : Pool) (n : ℕ) : ResourceBudget α :=
  match pool with
  | .wasmLinear => { b with wasmLinear := n }
  | .v8HeapReserved => { b with v8HeapReserved := n }
  | .v8External => { b with v8External := n }

/-- `pool_counter(pool).fetch_add(bytes)`. -/
def addPool (b : ResourceBudget α) (pool : Pool) (bytes : ℕ) : ResourceBudget α :=
  b.setPool pool (wrappingAdd 64 (b.poolCounter pool) bytes)

/-- `pool_counter(pool).fetch_sub(bytes)`. -/
def subPool (b : ResourceBudget α) (pool : Pool) (bytes : ℕ) : ResourceBudget α :=
  b.setPool pool (wrappingSub 64 (b.poolCounter pool) bytes)

/-- `mem_charged.fetch_add(bytes)`. -/
def addTotal (b : ResourceBudget α) (bytes : ℕ) : ResourceBudget α :=
  { b with memCharged := wrappingAdd 64 b.memCharged bytes }

/-- `mem_charged.fetch_sub(bytes)`. -/
def subTotal (b : ResourceBudget α) (bytes : ℕ) : ResourceBudget α :=
  { b with memCharged := wrappingSub 64 b.memCharged bytes }

section

variable (b : ResourceBudget α) (p q : Pool) (n : ℕ)

@[simp] theorem poolCounter_setPool :
    (b.setPool p n).poolCounter q = if q = p then n else b.poolCounter q := by
  cases p <;> cases q <;> rfl

@[simp] theorem setPool_memTotal : (b.setPool p n).memTotal = b.memTotal := by cases p <;> rfl

@[simp] theorem setPool_memCharged : (b.setPool p n).memCharged = b.memCharged := by cases p <;> rfl

@[simp] theorem setPool_accountant : (b.setPool p n).accountant = b.accountant := by cases p <;> rfl

@[simp] theorem setPool_liveIsolates :
    (b.setPool p n).liveIsolates = b.liveIsolates := by cases p <;> rfl

theorem poolCounter_addPool :
    (b.addPool p n).poolCounter q =
      if q = p then wrappingAdd 64 (b.poolCounter p) n else b.poolCounter q :=
  poolCounter_setPool ..

theorem poolCounter_subPool :
    (b.subPool p n).poolCounter q =
      if q = p then wrappingSub 64 (b.poolCounter p) n else b.poolCounter q :=
  poolCounter_setPool ..

end

/-! ## Admission -/

/-- `current.checked_add(bytes).filter(|next| *next <= self.mem_total)`. -/
def nextCharged (b : ResourceBudget α) (current bytes : ℕ) : Option ℕ :=
  (checkedAdd 64 current bytes).filter (· ≤ b.memTotal)

/-- What a charge refused against `current` returns. -/
def overBudget (b : ResourceBudget α) (pool : Pool) (bytes current : ℕ) : OverBudget :=
  { pool, requested := bytes, charged := current, total := b.memTotal }

/-- A budget that enforces its own total: no accountant, and a total that is not
    the sentinel. -/
structure Limited (b : ResourceBudget α) : Prop where
  accountant : b.accountant = none
  total : b.memTotal < Budget.unlimited

variable {b : ResourceBudget α}

theorem Limited.total_ne (h : b.Limited) :
    b.memTotal ≠ Budget.unlimited := Nat.ne_of_lt h.total

theorem nextCharged_eq_some (h : b.Limited) {c n next : ℕ} :
    b.nextCharged c n = some next ↔ c + n ≤ b.memTotal ∧ next = c + n := by
  have hlt := h.total
  unfold Budget.unlimited at hlt
  simp only [nextCharged, Option.filter_eq_some_iff, checkedAdd_eq_some, decide_eq_true_eq]
  omega

theorem nextCharged_eq_none (h : b.Limited) {c n : ℕ} :
    b.nextCharged c n = none ↔ b.memTotal < c + n := by
  rw [← Option.not_isSome_iff_eq_none, Option.isSome_iff_exists, not_exists]
  constructor
  · intro hno
    by_contra hle
    exact hno _ ((nextCharged_eq_some h).mpr ⟨Nat.le_of_not_lt hle, rfl⟩)
  · rintro hlt next hsome
    exact absurd ((nextCharged_eq_some h).mp hsome).1 (by omega)

/-! ## Reading the budget -/

section Accountant

variable [NapiMemoryAccountant α]

def memoryLimit (b : ResourceBudget α) : ℕ :=
  match b.accountant with
  | some a => NapiMemoryAccountant.memoryLimit a
  | none => b.memTotal

def memoryCharged (b : ResourceBudget α) : ℕ :=
  match b.accountant with
  | some a => NapiMemoryAccountant.memoryCharged a
  | none => b.memCharged

/-- `saturating_sub`, which on `Nat` is subtraction. -/
def memoryRemaining (b : ResourceBudget α) : ℕ := b.memoryLimit - b.memoryCharged

def isUnlimited (b : ResourceBudget α) : Bool := b.memoryLimit == Budget.unlimited

/-- The per-env cap on live value handles, `None` under an unlimited budget. -/
def valueHandleLimit (b : ResourceBudget α) : Option ℕ :=
  if b.isUnlimited then none else some (max (b.memoryLimit / estHostBytesPerValue) 1)

/-! ## Charging and uncharging, taken whole -/

/-- `ResourceBudget::try_charge`. -/
def tryCharge (b : ResourceBudget α) (pool : Pool) (bytes : ℕ) :
    Except OverBudget Unit × ResourceBudget α :=
  if bytes = 0 then (.ok (), b)
  else
    match b.accountant with
    | some a =>
      match NapiMemoryAccountant.tryCharge a bytes with
      | (false, a') =>
        (.error { pool, requested := bytes, charged := NapiMemoryAccountant.memoryCharged a',
                  total := NapiMemoryAccountant.memoryLimit a' },
          { b with accountant := some a' })
      | (true, a') => (.ok (), ({ b with accountant := some a' }.addTotal bytes).addPool pool bytes)
    | none =>
      if b.memTotal = Budget.unlimited then (.ok (), (b.addTotal bytes).addPool pool bytes)
      else
        match b.nextCharged b.memCharged bytes with
        | none => (.error (b.overBudget pool bytes b.memCharged), b)
        | some next => (.ok (), { b with memCharged := next }.addPool pool bytes)

/-- `ResourceBudget::uncharge`. -/
def uncharge (b : ResourceBudget α) (pool : Pool) (bytes : ℕ) : ResourceBudget α :=
  if bytes = 0 then b
  else
    let b' := (b.subPool pool bytes).subTotal bytes
    match b'.accountant with
    | some a => { b' with accountant := some (NapiMemoryAccountant.uncharge a bytes) }
    | none => b'

/-! ## What one call does to the counters

`tryCharge_cases` says once what a charge can do — the pool effect is the same in
all three regimes (accountant, unlimited, limited) — and nothing above this file
unfolds `tryCharge` again. -/

theorem tryCharge_zero (b : ResourceBudget α) (p : Pool) : b.tryCharge p 0 = (.ok (), b) := by
  simp [tryCharge]

theorem uncharge_zero (b : ResourceBudget α) (p : Pool) : b.uncharge p 0 = b := by
  simp [uncharge]

variable {b b' : ResourceBudget α} {p : Pool} {n : ℕ} {r : Except OverBudget Unit}

theorem tryCharge_cases (hn : n ≠ 0) (h : b.tryCharge p n = (r, b')) :
    (r = .ok () ∧ ∃ c acc, b' = { b with memCharged := c, accountant := acc }.addPool p n) ∨
    (∃ e, r = .error e ∧ ∃ acc, b' = { b with accountant := acc }) := by
  unfold tryCharge at h
  rw [if_neg hn] at h
  split at h
  · split at h
    · injection h with hr hb
      exact .inr ⟨_, hr.symm, _, hb.symm⟩
    · injection h with hr hb
      exact .inl ⟨hr.symm, _, _, hb.symm⟩
  · split at h
    · injection h with hr hb
      exact .inl ⟨hr.symm, _, _, hb.symm⟩
    · split at h
      · injection h with hr hb
        exact .inr ⟨_, hr.symm, b.accountant, hb.symm⟩
      · injection h with hr hb
        exact .inl ⟨hr.symm, _, _, hb.symm⟩

theorem poolCounter_of_tryCharge_ok (hn : n ≠ 0) (h : b.tryCharge p n = (.ok (), b')) (q : Pool) :
    b'.poolCounter q =
      if q = p then wrappingAdd 64 (b.poolCounter p) n else b.poolCounter q := by
  obtain ⟨-, c, acc, rfl⟩ | ⟨e, he, -⟩ := tryCharge_cases hn h
  · rw [poolCounter_addPool]
    cases p <;> cases q <;> rfl
  · exact absurd he (by simp)

theorem poolCounter_of_tryCharge_error {e : OverBudget} (h : b.tryCharge p n = (.error e, b'))
    (q : Pool) :
    b'.poolCounter q = b.poolCounter q := by
  by_cases hn : n = 0
  · subst hn; rw [tryCharge_zero] at h; injection h with h₁; cases h₁
  · obtain ⟨he, -⟩ | ⟨_, -, acc, rfl⟩ := tryCharge_cases hn h
    · exact absurd he (by simp)
    · cases q <;> rfl

theorem liveIsolates_of_tryCharge (h : b.tryCharge p n = (r, b')) :
    b'.liveIsolates = b.liveIsolates := by
  by_cases hn : n = 0
  · subst hn
    rw [tryCharge_zero] at h
    rw [(Prod.mk.inj h).2]
  · obtain ⟨-, c, acc, rfl⟩ | ⟨_, -, acc, rfl⟩ := tryCharge_cases hn h
    · rw [addPool, setPool_liveIsolates]
    · rfl

/-- `uncharge` gives the bytes back to the one pool it names. -/
theorem poolCounter_uncharge (b : ResourceBudget α) (p q : Pool) (hn : n ≠ 0) :
    (b.uncharge p n).poolCounter q =
      if q = p then wrappingSub 64 (b.poolCounter p) n else b.poolCounter q := by
  rw [← poolCounter_subPool]
  unfold uncharge
  rw [if_neg hn]
  dsimp only
  split <;> cases q <;> rfl

/-! A pool's own reading, for callers that know what it shows. -/

theorem pool_tryCharge_ok (h : b.tryCharge p n = (.ok (), b')) (hlt : b.poolCounter p + n < 2 ^ 64) :
    b'.poolCounter p = b.poolCounter p + n := by
  by_cases hn : n = 0
  · subst hn
    rw [tryCharge_zero] at h
    rw [(Prod.mk.inj h).2, Nat.add_zero]
  · rw [poolCounter_of_tryCharge_ok hn h, if_pos rfl, wrappingAdd_of_lt hlt]

theorem pool_uncharge (hle : n ≤ b.poolCounter p) (hlt : b.poolCounter p < 2 ^ 64) :
    (b.uncharge p n).poolCounter p = b.poolCounter p - n := by
  by_cases hn : n = 0
  · subst hn
    rw [uncharge_zero, Nat.sub_zero]
  · rw [poolCounter_uncharge b p p hn, if_pos rfl, wrappingSub_of_le hle hlt]

/-- A charge given back at once, wrapped or not. -/
theorem pool_uncharge_tryCharge (h : b.tryCharge p n = (.ok (), b'))
    (hlt : b.poolCounter p < 2 ^ 64) :
    (b'.uncharge p n).poolCounter p = b.poolCounter p := by
  by_cases hn : n = 0
  · subst hn
    rw [tryCharge_zero] at h
    rw [← (Prod.mk.inj h).2, uncharge_zero]
  · rw [poolCounter_uncharge b' p p hn, if_pos rfl, poolCounter_of_tryCharge_ok hn h, if_pos rfl,
      wrappingSub_wrappingAdd n hlt]

theorem accountant_tryCharge (ha : b.accountant = none) (h : b.tryCharge p n = (r, b')) :
    b'.accountant = none := by
  unfold tryCharge at h
  simp only [ha] at h
  split at h
  · rw [← (Prod.mk.inj h).2, ha]
  · split at h
    · rw [← (Prod.mk.inj h).2, addPool, setPool_accountant, addTotal, ha]
    · split at h
      · rw [← (Prod.mk.inj h).2, ha]
      · rw [← (Prod.mk.inj h).2, addPool, setPool_accountant]

theorem accountant_uncharge (ha : b.accountant = none) (p : Pool) (n : ℕ) :
    (b.uncharge p n).accountant = none := by
  by_cases hn : n = 0
  · subst hn
    rw [uncharge_zero, ha]
  · unfold uncharge
    rw [if_neg hn]
    simp [subTotal, subPool, ha]

/-! ## The limited budget -/

/-- A limited budget admits exactly the charges that fit. -/
theorem tryCharge_limited (h : b.Limited) (p : Pool) (hn : n ≠ 0) :
    b.tryCharge p n =
      if b.memCharged + n ≤ b.memTotal
        then (.ok (), { b with memCharged := b.memCharged + n }.addPool p n)
        else (.error (b.overBudget p n b.memCharged), b) := by
  unfold tryCharge
  rw [if_neg hn, h.accountant]
  simp only [if_neg h.total_ne]
  by_cases hle : b.memCharged + n ≤ b.memTotal
  · rw [if_pos hle, (nextCharged_eq_some h).mpr ⟨hle, rfl⟩]
  · rw [if_neg hle, (nextCharged_eq_none h).mpr (by omega)]

theorem uncharge_limited (h : b.accountant = none) (p : Pool) (hn : n ≠ 0) :
    b.uncharge p n = (b.subPool p n).subTotal n := by
  unfold uncharge
  rw [if_neg hn]
  have : ((b.subPool p n).subTotal n).accountant = none := by simp [subTotal, subPool, h]
  simp only [this]

theorem uncharge_accountant {a : α} (h : b.accountant = some a) (p : Pool) (hn : n ≠ 0) :
    b.uncharge p n =
      { (b.subPool p n).subTotal n with accountant := some (NapiMemoryAccountant.uncharge a n) } := by
  unfold uncharge
  rw [if_neg hn]
  have : ((b.subPool p n).subTotal n).accountant = some a := by simp [subTotal, subPool, h]
  simp only [this]

/-! ## Settled budgets

A budget with a limit — its own or its accountant's — that no call is in the middle
of: the aggregate is the sum of the pools, and what it shows is within the limit.
`Atomic.interleaved_charges_balance` says this of every quiescent state of a budget
without an accountant; it is closed under whole calls, with exact arithmetic, in both
regimes. -/

structure Settled (b : ResourceBudget α) : Prop where
  limited : b.memoryLimit < Budget.unlimited
  sum : b.memCharged = b.wasmLinear + b.v8HeapReserved + b.v8External
  own : b.memCharged ≤ b.memoryCharged
  bound : b.memoryCharged ≤ b.memoryLimit

theorem Settled.charged_lt (h : b.Settled) : b.memCharged < 2 ^ 64 := by
  have h₁ := h.limited
  have h₂ := h.own
  have h₃ := h.bound
  unfold Budget.unlimited at h₁
  omega

theorem Settled.pool_le (h : b.Settled) (p : Pool) :
    b.poolCounter p ≤ b.memCharged := by
  have := h.sum
  cases p <;> simp only [poolCounter] <;> omega

theorem Settled.isUnlimited (h : b.Settled) : b.isUnlimited = false := by
  have := h.limited
  simp only [ResourceBudget.isUnlimited, beq_eq_false_iff_ne]
  omega

theorem settled_withMemoryLimit (h : n < Budget.unlimited) :
    (withMemoryLimit n : ResourceBudget α).Settled :=
  { limited := h, sum := rfl, own := Nat.le_refl _, bound := Nat.zero_le _ }

theorem memoryLimit_of_none (h : b.accountant = none) :
    b.memoryLimit = b.memTotal := by simp only [memoryLimit, h]

theorem memoryCharged_of_none (h : b.accountant = none) :
    b.memoryCharged = b.memCharged := by simp only [memoryCharged, h]

/-- The readings of a budget depend on its pools not at all. -/
@[simp] theorem memoryLimit_setPool (b : ResourceBudget α) (p : Pool) (n : ℕ) :
    (b.setPool p n).memoryLimit = b.memoryLimit := by cases p <;> rfl

@[simp] theorem memoryCharged_setPool (b : ResourceBudget α) (p : Pool) (n : ℕ) :
    (b.setPool p n).memoryCharged = b.memoryCharged := by cases p <;> rfl

/-- What an admitted charge does to a settled budget. -/
structure Charged (b : ResourceBudget α) (p : Pool) (n : ℕ) (b' : ResourceBudget α) : Prop where
  settled : b'.Settled
  memoryLimit : b'.memoryLimit = b.memoryLimit
  pool : ∀ q, b'.poolCounter q = b.poolCounter q + if q = p then n else 0
  liveIsolates : b'.liveIsolates = b.liveIsolates

/-- What a refused charge does to a settled budget: nothing that it shows. -/
structure Refused (b : ResourceBudget α) (b' : ResourceBudget α) : Prop where
  settled : b'.Settled
  memoryLimit : b'.memoryLimit = b.memoryLimit
  pool : ∀ q, b'.poolCounter q = b.poolCounter q
  liveIsolates : b'.liveIsolates = b.liveIsolates

/-- What giving back `n` bytes does to a settled budget. -/
structure Uncharged (b : ResourceBudget α) (p : Pool) (n : ℕ) (b' : ResourceBudget α) : Prop where
  settled : b'.Settled
  memoryLimit : b'.memoryLimit = b.memoryLimit
  pool : ∀ q, b'.poolCounter q + (if q = p then n else 0) = b.poolCounter q
  liveIsolates : b'.liveIsolates = b.liveIsolates

theorem Settled.charged_zero (h : b.Settled) (p : Pool) :
    Charged b p 0 b :=
  { settled := h, memoryLimit := rfl, pool := fun q => by simp, liveIsolates := rfl }

/-- The counters of a charge that fits, whoever decided that it fits: `acc` is the
    accountant afterwards. -/
theorem Settled.charged_addPool (h : b.Settled) (p : Pool) {acc : Option α}
    (hlimit : { b with memCharged := b.memCharged + n, accountant := acc }.memoryLimit =
      b.memoryLimit)
    (hcharged : { b with memCharged := b.memCharged + n, accountant := acc }.memoryCharged =
      b.memoryCharged + n) (hfit : b.memoryCharged + n ≤ b.memoryLimit) :
    Charged b p n ({ b with memCharged := b.memCharged + n, accountant := acc }.addPool p n) := by
  have hsum := h.sum
  have hown := h.own
  have hlim := h.limited
  have hp := h.pool_le p
  have hlt : b.poolCounter p + n < 2 ^ 64 := by
    unfold Budget.unlimited at hlim
    omega
  have hpool : ∀ q, ({ b with memCharged := b.memCharged + n, accountant := acc }.addPool
      p n).poolCounter q = b.poolCounter q + if q = p then n else 0 := by
    intro q
    rw [poolCounter_addPool]
    by_cases hq : q = p
    · subst hq
      simp only [if_true]
      exact wrappingAdd_of_lt hlt
    · simp only [if_neg hq, Nat.add_zero]
      cases q <;> rfl
  refine ⟨⟨?_, ?_, ?_, ?_⟩, ?_, hpool, ?_⟩
  · rw [addPool, memoryLimit_setPool, hlimit]
    exact hlim
  · have hw := hpool .wasmLinear
    have hv := hpool .v8HeapReserved
    have he := hpool .v8External
    simp only [poolCounter] at hw hv he
    rw [hw, hv, he]
    simp only [addPool, setPool_memCharged]
    cases p <;> simp <;> omega
  · rw [addPool, memoryCharged_setPool, hcharged, setPool_memCharged]
    exact Nat.add_le_add_right hown n
  · rw [addPool, memoryCharged_setPool, hcharged, memoryLimit_setPool, hlimit]
    exact hfit
  · rw [addPool, memoryLimit_setPool, hlimit]
  · simp [addPool]

section Lawful

variable [LawfulNapiMemoryAccountant α]
variable {b : ResourceBudget α} {p : Pool} {n : ℕ}

theorem Settled.tryCharge_ok {b' : ResourceBudget α} (h : b.Settled)
    (hc : b.tryCharge p n = (.ok (), b')) : Charged b p n b' := by
  by_cases hn : n = 0
  · subst hn
    rw [tryCharge_zero] at hc
    obtain rfl : b = b' := by injection hc
    exact h.charged_zero p
  · cases hacc : b.accountant with
    | none =>
      have hl := memoryLimit_of_none hacc
      have hm := memoryCharged_of_none hacc
      rw [tryCharge_limited ⟨hacc, hl ▸ h.limited⟩ p hn] at hc
      split at hc
      · rename_i hle
        obtain rfl : _ = b' := by injection hc
        have key : Charged b p n ({ b with
            memCharged := b.memCharged + n, accountant := none }.addPool p n) :=
          h.charged_addPool p hl.symm (by rw [hm]; rfl) (by rw [hm, hl]; exact hle)
        rw [← hacc] at key
        exact key
      · injection hc with he; cases he
    | some a =>
      unfold tryCharge at hc
      rw [if_neg hn, hacc] at hc
      simp only at hc
      split at hc
      · injection hc with he; cases he
      · rename_i a' htry
        obtain rfl : _ = b' := by injection hc
        have hlimit := LawfulNapiMemoryAccountant.memoryLimit_tryCharge a n
        have hcharged := LawfulNapiMemoryAccountant.memoryCharged_tryCharge a n
        have hle := LawfulNapiMemoryAccountant.memoryCharged_le a'
        rw [htry] at hlimit hcharged
        simp only [if_true] at hlimit hcharged
        have hl : b.memoryLimit = NapiMemoryAccountant.memoryLimit a := by
          simp only [memoryLimit, hacc]
        have hm : b.memoryCharged = NapiMemoryAccountant.memoryCharged a := by
          simp only [memoryCharged, hacc]
        have hfit : b.memoryCharged + n ≤ b.memoryLimit := by omega
        have hadd : ({ b with accountant := some a' } : ResourceBudget α).addTotal n =
            { b with memCharged := b.memCharged + n, accountant := some a' } := by
          have hown := h.own
          have hlim := h.limited
          unfold Budget.unlimited at hlim
          simp only [addTotal, wrappingAdd_of_lt (show b.memCharged + n < 2 ^ 64 by omega)]
        rw [hadd]
        exact h.charged_addPool p (hlimit.trans hl.symm) (by rw [hm]; exact hcharged) hfit

theorem Settled.tryCharge_error {b' : ResourceBudget α} {e : OverBudget} (h : b.Settled)
    (hc : b.tryCharge p n = (.error e, b')) : Refused b b' := by
  by_cases hn : n = 0
  · subst hn; rw [tryCharge_zero] at hc; injection hc with he; cases he
  · cases hacc : b.accountant with
    | none =>
      rw [tryCharge_limited ⟨hacc, memoryLimit_of_none hacc ▸ h.limited⟩ p hn] at hc
      split at hc
      · injection hc with he; cases he
      · injection hc with _ hb
        subst hb
        exact ⟨h, rfl, fun _ => rfl, rfl⟩
    | some a =>
      unfold tryCharge at hc
      rw [if_neg hn, hacc] at hc
      simp only at hc
      split at hc
      · rename_i a' htry
        injection hc with _ hb
        subst hb
        have hlimit := LawfulNapiMemoryAccountant.memoryLimit_tryCharge a n
        have hcharged := LawfulNapiMemoryAccountant.memoryCharged_tryCharge a n
        rw [htry] at hlimit hcharged
        simp only [Bool.false_eq_true, if_false, Nat.add_zero] at hlimit hcharged
        have hl : ({ b with accountant := some a' } : ResourceBudget α).memoryLimit =
            b.memoryLimit := by simp only [memoryLimit, hacc, hlimit]
        have hm : ({ b with accountant := some a' } : ResourceBudget α).memoryCharged =
            b.memoryCharged := by simp only [memoryCharged, hacc, hcharged]
        refine ⟨⟨?_, h.sum, ?_, ?_⟩, hl, fun q => by cases q <;> rfl, rfl⟩
        · rw [hl]; exact h.limited
        · rw [hm]; exact h.own
        · rw [hl, hm]; exact h.bound
      · injection hc with he; cases he

theorem Settled.uncharge (h : b.Settled) (hle : n ≤ b.poolCounter p) :
    Uncharged b p n (b.uncharge p n) := by
  by_cases hn : n = 0
  · subst hn
    rw [uncharge_zero]
    exact ⟨h, rfl, fun q => by simp, rfl⟩
  · have hp := h.pool_le p
    have hlt := h.charged_lt
    have hsum := h.sum
    have hown := h.own
    have hbound := h.bound
    have hpool : ∀ q, (b.uncharge p n).poolCounter q + (if q = p then n else 0) =
        b.poolCounter q := by
      intro q
      rw [poolCounter_uncharge b p q hn]
      by_cases hq : q = p
      · subst hq
        simp only [if_true]
        rw [wrappingSub_of_le hle (by omega)]
        omega
      · simp [if_neg hq]
    -- what the call leaves in the aggregate and in the account
    have hmem : (b.uncharge p n).memCharged = b.memCharged - n ∧
        (b.uncharge p n).memoryLimit = b.memoryLimit ∧
        (b.uncharge p n).memoryCharged + n = b.memoryCharged := by
      have hwrap := wrappingSub_of_le (show n ≤ b.memCharged by omega) hlt
      cases hacc : b.accountant with
      | none =>
        rw [uncharge_limited hacc p hn, memoryLimit_of_none hacc, memoryCharged_of_none hacc,
          memoryLimit_of_none (by simpa [subTotal, subPool] using hacc),
          memoryCharged_of_none (by simpa [subTotal, subPool] using hacc)]
        simp only [subTotal, subPool, setPool_memCharged, setPool_memTotal, hwrap, true_and]
        omega
      | some a =>
        have hm : b.memoryCharged = NapiMemoryAccountant.memoryCharged a := by
          simp only [memoryCharged, hacc]
        have hback := LawfulNapiMemoryAccountant.memoryCharged_uncharge a n (by omega)
        have hlimit := LawfulNapiMemoryAccountant.memoryLimit_uncharge a n
        rw [uncharge_accountant hacc p hn]
        simp only [memoryLimit, memoryCharged, hacc, hlimit, hback, subTotal, subPool,
          setPool_memCharged, hwrap, and_self]
    obtain ⟨hmem, hl, hm⟩ := hmem
    refine ⟨⟨?_, ?_, ?_, ?_⟩, hl, hpool, ?_⟩
    · rw [hl]; exact h.limited
    · have hw := hpool .wasmLinear
      have hv := hpool .v8HeapReserved
      have he := hpool .v8External
      simp only [poolCounter] at hw hv he hle
      rw [hmem]
      cases p <;> simp at hw hv he hle <;> omega
    · omega
    · omega
    · unfold ResourceBudget.uncharge
      rw [if_neg hn]
      dsimp only
      split <;> simp [subTotal, subPool]

end Lawful

end Accountant

end ResourceBudget
end WasmerNapi.Budget
