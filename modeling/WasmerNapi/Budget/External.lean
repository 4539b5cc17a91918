import WasmerNapi.Budget.Memory
import WasmerNapi.Lib.Tally

/-!
# Declared external memory

`guest_napi_adjust_external_memory` (`src/src/guest/napi.rs`) and the three functions of
`src/src/env.rs` it stands on: a positive change is charged to `V8External` before the
engine hears of it and given back if the engine refuses, a negative one is given back after
the engine took it, and a store that is dropped gives back what it has not taken back. The
engine is code outside: its answer is an argument.

Two counters must agree. A store's `external_declared` saturates; the pool every store
shares is an atomic that wraps, unless the budget has a limit that stops it first.
-/

namespace WasmerNapi.Budget.External

open Function (update update_self update_of_ne)
open ResourceBudget (tryCharge_zero poolCounter_of_tryCharge_ok poolCounter_of_tryCharge_error
  uncharge_zero poolCounter_uncharge pool_uncharge)
open Word Run

variable {α : Type} [NapiMemoryAccountant α]

/-! ## The store's side -/

/-- What a store keeps of its declarations. `charged` and `released` are its ledger, the
    bytes the budget has taken and got back on its account; no function reads them. -/
structure NapiEnv where
  externalDeclared : ℕ := 0
  charged : ℕ := 0
  released : ℕ := 0
  deriving DecidableEq, Repr

namespace NapiEnv

/-- `charge_declared_external`. -/
def chargeDeclaredExternal (env : NapiEnv) (b : ResourceBudget α) (bytes : ℕ) :
    Bool × NapiEnv × ResourceBudget α :=
  match b.tryCharge .v8External bytes with
  | (.error _, b) => (false, env, b)
  | (.ok (), b) =>
    (true,
      { env with
        externalDeclared := saturatingAdd 64 env.externalDeclared bytes
        charged := env.charged + bytes }, b)

/-- `uncharge_declared_external`. -/
def unchargeDeclaredExternal (env : NapiEnv) (b : ResourceBudget α) (bytes : ℕ) :
    NapiEnv × ResourceBudget α :=
  let release := min bytes env.externalDeclared
  ({ env with
      externalDeclared := env.externalDeclared - release
      released := env.released + release },
    b.uncharge .v8External release)

/-- `Drop for NapiEnv`, the part after the scopes are gone. -/
def drop (env : NapiEnv) (b : ResourceBudget α) : NapiEnv × ResourceBudget α :=
  if 0 < env.externalDeclared then
    ({ env with
        externalDeclared := 0
        released := env.released + env.externalDeclared },
      b.uncharge .v8External env.externalDeclared)
  else (env, b)

end NapiEnv

/-- `change as u64` of a positive change, `unsigned_abs` of a negative one. -/
def magnitude (change : Int64) : ℕ := change.toInt.natAbs

theorem magnitude_le (change : Int64) : magnitude change ≤ 2 ^ 63 := by
  have h₁ := change.le_toInt
  have h₂ := change.toInt_lt
  unfold magnitude
  omega

/-- What `snapi_bridge_adjust_external_memory` answers. -/
structure EngineAnswer where
  status : ℤ
  adjusted : ℤ := 0
  deriving DecidableEq, Repr

/-- What a call returns and leaves behind; `written` is what the guest finds at `rp`. -/
structure AdjustOutcome (α : Type) where
  status : ℤ
  written : Option ℤ := none
  env : NapiEnv
  budget : ResourceBudget α

/-- `guest_napi_adjust_external_memory`. -/
def guestNapiAdjustExternalMemory (env : NapiEnv) (b : ResourceBudget α) (change : Int64)
    (engine : EngineAnswer) : AdjustOutcome α :=
  let upFront :=
    if 0 < change.toInt then env.chargeDeclaredExternal b (magnitude change) else (true, env, b)
  match upFront with
  | (false, env, b) => { status := 1, env, budget := b }
  | (true, env, b) =>
    if engine.status ≠ 0 then
      let back :=
        if 0 < change.toInt then env.unchargeDeclaredExternal b (magnitude change) else (env, b)
      { status := engine.status, env := back.1, budget := back.2 }
    else
      let back :=
        if change.toInt < 0 then env.unchargeDeclaredExternal b (magnitude change) else (env, b)
      { status := engine.status, written := some engine.adjusted, env := back.1, budget := back.2 }

/-! ## What a call does

Each of the four ways a call moves anything, as one sentence about the store's record and
the pool. `pool` is the reading before, which is a word. -/

/-- The record and the pool after a charge of `n` bytes. -/
def NapiEnv.grown (env : NapiEnv) (n : ℕ) : NapiEnv :=
  { env with
    externalDeclared := saturatingAdd 64 env.externalDeclared n
    charged := env.charged + n }

def NapiEnv.shrunk (env : NapiEnv) (n : ℕ) : NapiEnv :=
  { env with
    externalDeclared := env.externalDeclared - min n env.externalDeclared
    released := env.released + min n env.externalDeclared }

/-- A rollback is clamped to a total that has just grown by as much, so it is not clamped. -/
theorem NapiEnv.grown_release (env : NapiEnv) (change : Int64) :
    min (magnitude change) (env.grown (magnitude change)).externalDeclared =
      magnitude change := by
  have := magnitude_le change
  simp only [grown, saturatingAdd]
  omega

variable {b b' : ResourceBudget α} {p : Pool}

theorem pool_of_tryCharge_ok {n : ℕ} (hlt : b.poolCounter p < 2 ^ 64)
    (h : b.tryCharge p n = (.ok (), b')) :
    b'.poolCounter p = wrappingAdd 64 (b.poolCounter p) n := by
  by_cases hn : n = 0
  · subst hn
    rw [tryCharge_zero] at h
    rw [← (Prod.mk.inj h).2, wrappingAdd_of_lt (by omega), Nat.add_zero]
  · rw [poolCounter_of_tryCharge_ok hn h, if_pos rfl]

/-- A call refuses, rolls back, declares, takes back, or moves nothing. -/
inductive Adjusted (env : NapiEnv) (b : ResourceBudget α) (change : Int64)
    (engine : EngineAnswer) : AdjustOutcome α → Prop
  | refused (b' : ResourceBudget α) (e : OverBudget) (hpos : 0 < change.toInt)
      (hc : b.tryCharge .v8External (magnitude change) = (.error e, b')) :
      Adjusted env b change engine { status := 1, env, budget := b' }
  | rolledBack (b' : ResourceBudget α) (hpos : 0 < change.toInt)
      (hc : b.tryCharge .v8External (magnitude change) = (.ok (), b'))
      (he : engine.status ≠ 0) :
      Adjusted env b change engine
        { status := engine.status
          env := (env.grown (magnitude change)).shrunk (magnitude change)
          budget := b'.uncharge .v8External
            (min (magnitude change) (env.grown (magnitude change)).externalDeclared) }
  | declared (b' : ResourceBudget α) (hpos : 0 < change.toInt)
      (hc : b.tryCharge .v8External (magnitude change) = (.ok (), b'))
      (he : engine.status = 0) :
      Adjusted env b change engine
        { status := engine.status, written := some engine.adjusted
          env := env.grown (magnitude change), budget := b' }
  | takenBack (hneg : change.toInt < 0) (he : engine.status = 0) :
      Adjusted env b change engine
        { status := engine.status, written := some engine.adjusted
          env := env.shrunk (magnitude change)
          budget := b.uncharge .v8External (min (magnitude change) env.externalDeclared) }
  | still (written : Option ℤ) (hpos : ¬ 0 < change.toInt) :
      Adjusted env b change engine { status := engine.status, written, env, budget := b }

/-- The spec of the call: nothing below unfolds it. -/
theorem adjusted (env : NapiEnv) (b : ResourceBudget α) (change : Int64)
    (engine : EngineAnswer) :
    Adjusted env b change engine (guestNapiAdjustExternalMemory env b change engine) := by
  unfold guestNapiAdjustExternalMemory
  by_cases hpos : 0 < change.toInt
  · have hneg : ¬ change.toInt < 0 := by omega
    simp only [if_pos hpos, if_neg hneg, NapiEnv.chargeDeclaredExternal]
    cases hc : b.tryCharge .v8External (magnitude change) with
    | mk r b' =>
      cases r with
      | error e => exact .refused b' e hpos hc
      | ok u =>
        by_cases he : engine.status = 0
        · simp only [he, ne_eq, not_true_eq_false, if_false]
          have hdeclared : Adjusted env b change engine _ := .declared b' hpos hc he
          rwa [he] at hdeclared
        · simp only [he, ne_eq, not_false_eq_true, if_true]
          exact .rolledBack b' hpos hc he
  · simp only [if_neg hpos]
    by_cases he : engine.status = 0
    · simp only [he, ne_eq, not_true_eq_false, if_false]
      by_cases hneg : change.toInt < 0
      · simp only [if_pos hneg]
        have htaken : Adjusted env b change engine _ := .takenBack hneg he
        rwa [he] at htaken
      · simp only [if_neg hneg]
        have hstill : Adjusted env b change engine _ := .still (some engine.adjusted) hpos
        rwa [he] at hstill
    · simp only [he, ne_eq, not_false_eq_true, if_true]
      exact .still none hpos

/-! ## Stores that share a budget -/

structure Store where
  live : Bool := true
  env : NapiEnv := {}
  deriving DecidableEq, Repr

/-- What a store counts for in the sum: a dropped one counts for nothing. -/
def Store.declared (st : Store) : ℕ := if st.live then st.env.externalDeclared else 0

/-- The budget, what its other owners hold in each pool, and the stores. -/
structure State (ι α : Type) where
  budget : ResourceBudget α
  others : Pool → ℕ
  stores : ι → Store

inductive Act (ι α : Type) where
  | adjust (store : ι) (change : Int64) (engine : EngineAnswer)
  | drop (store : ι)
  | other (a : OtherAct α)

variable {ι : Type} [DecidableEq ι]

/-- Every store is there from the start; one that is opened later is one that has done
    nothing so far. -/
def start (b : ResourceBudget α) : State ι α :=
  { budget := b, others := b.poolCounter, stores := fun _ => {} }

def step (s : State ι α) : Act ι α → Option (State ι α)
  | .adjust i change engine =>
    if (s.stores i).live then
      let out := guestNapiAdjustExternalMemory (s.stores i).env s.budget change engine
      some { s with
        budget := out.budget
        stores := update s.stores i { env := out.env } }
    else none
  | .drop i =>
    if (s.stores i).live then
      let (env, b) := (s.stores i).env.drop s.budget
      some { s with budget := b, stores := update s.stores i { live := false, env } }
    else none
  | .other a =>
    (otherStep s.budget s.others a).map fun (budget, others) => { s with budget, others }

/-- The status the call returns; a move that is no call succeeds. -/
def callStatus (s : State ι α) : Act ι α → ℤ
  | .adjust i change engine =>
    (guestNapiAdjustExternalMemory (s.stores i).env s.budget change engine).status
  | _ => 0

/-- A call that fails leaves the pool and every store's total. -/
def FailureKeeps (s : State ι α) (a : Act ι α) : Prop :=
  callStatus s a ≠ 0 → ∀ s', step s a = some s' →
    s'.budget.poolCounter .v8External = s.budget.poolCounter .v8External ∧
      ∀ j, (s'.stores j).declared = (s.stores j).declared

/-- What a state must show, in a run that started with budget `b₀`. -/
structure Balanced [Fintype ι] (b₀ : ResourceBudget α) (s : State ι α) : Prop where
  pool : s.budget.poolCounter .v8External =
    tally Store.declared s.stores + s.others .v8External
  released : ∀ i, (s.stores i).env.released ≤ (s.stores i).env.charged
  back : (∀ i, (s.stores i).live = false) → s.others .v8External = b₀.poolCounter .v8External →
    s.budget.poolCounter .v8External = b₀.poolCounter .v8External

/-- The condition on a step: a positive change that the budget admits leaves the pool a
    word, or the store's own total where the engine then refuses; and so does what another
    owner charges to the pool. -/
def Fits (s : State ι α) : Act ι α → Prop
  | .adjust i change engine =>
    0 < change.toInt → (s.budget.tryCharge .v8External (magnitude change)).1 = .ok () →
      (if engine.status = 0 then s.budget.poolCounter .v8External
        else (s.stores i).declared) + magnitude change < 2 ^ 64
  | .other (.tryCharge .v8External n) =>
    (s.budget.tryCharge .v8External n).1 = .ok () →
      s.budget.poolCounter .v8External + n < 2 ^ 64
  | _ => True

instance (s : State ι α) : (a : Act ι α) → Decidable (Fits s a)
  | .adjust .. => inferInstanceAs (Decidable (_ → _ → _))
  | .drop _ => isTrue trivial
  | .other (.tryCharge .wasmLinear _) => isTrue trivial
  | .other (.tryCharge .v8HeapReserved _) => isTrue trivial
  | .other (.tryCharge .v8External _) => inferInstanceAs (Decidable (_ → _))
  | .other (.uncharge ..) => isTrue trivial
  | .other (.account _) => isTrue trivial

/-! ## What every step keeps

The pool is a word, and no store's ledger ever shows more released than charged: what a
store still declares is at most the difference, saturated or not. -/

structure Inv (s : State ι α) : Prop where
  word : s.budget.poolCounter .v8External < 2 ^ 64
  ledger : ∀ i, (s.stores i).env.externalDeclared + (s.stores i).env.released ≤
    (s.stores i).env.charged

theorem pool_tryCharge_lt {q : Pool} {n : ℕ} {r : Except OverBudget Unit}
    (hlt : b.poolCounter q < 2 ^ 64) (h : b.tryCharge p n = (r, b')) :
    b'.poolCounter q < 2 ^ 64 := by
  cases r with
  | error e => rwa [poolCounter_of_tryCharge_error h]
  | ok u =>
    by_cases hn : n = 0
    · subst hn
      rw [tryCharge_zero] at h
      rwa [← (Prod.mk.inj h).2]
    · rw [poolCounter_of_tryCharge_ok hn h]
      split
      · exact Nat.mod_lt _ (Nat.two_pow_pos 64)
      · exact hlt

theorem pool_uncharge_lt {q : Pool} (n : ℕ) (hlt : b.poolCounter q < 2 ^ 64) :
    (b.uncharge p n).poolCounter q < 2 ^ 64 := by
  by_cases hn : n = 0
  · subst hn
    rwa [uncharge_zero]
  · rw [poolCounter_uncharge b p q hn]
    split
    · exact Nat.mod_lt _ (Nat.two_pow_pos 64)
    · exact hlt

theorem otherStep_word {others others' : Pool → ℕ} {a : OtherAct α}
    (hlt : b.poolCounter p < 2 ^ 64) (h : otherStep b others a = some (b', others')) :
    b'.poolCounter p < 2 ^ 64 := by
  cases a with
  | tryCharge q n =>
    simp only [otherStep] at h
    split at h
    · rename_i b₁ hc
      obtain ⟨rfl, -⟩ := Prod.mk.inj (Option.some.inj h)
      exact pool_tryCharge_lt hlt hc
    · rename_i e b₁ hc
      obtain ⟨rfl, -⟩ := Prod.mk.inj (Option.some.inj h)
      exact pool_tryCharge_lt hlt hc
  | uncharge q n =>
    simp only [otherStep, Option.ite_none_right_eq_some] at h
    obtain ⟨rfl, -⟩ := Prod.mk.inj (Option.some.inj h.2)
    exact pool_uncharge_lt n hlt
  | account a' =>
    simp only [otherStep] at h
    split at h
    · cases h
    · simp only [Option.ite_none_right_eq_some] at h
      obtain ⟨rfl, -⟩ := Prod.mk.inj (Option.some.inj h.2)
      cases p <;> exact hlt

variable {env : NapiEnv} {change : Int64} {engine : EngineAnswer} {out : AdjustOutcome α}

theorem Adjusted.word (h : Adjusted env b change engine out)
    (hlt : b.poolCounter .v8External < 2 ^ 64) : out.budget.poolCounter .v8External < 2 ^ 64 := by
  cases h with
  | refused b' e hpos hc => exact pool_tryCharge_lt hlt hc
  | rolledBack b' hpos hc he => exact pool_uncharge_lt _ (pool_tryCharge_lt hlt hc)
  | declared b' hpos hc he => exact pool_tryCharge_lt hlt hc
  | takenBack hneg he => exact pool_uncharge_lt _ hlt
  | still written hpos => exact hlt

theorem NapiEnv.grown_ledger (n : ℕ) (h : env.externalDeclared + env.released ≤ env.charged) :
    (env.grown n).externalDeclared + (env.grown n).released ≤ (env.grown n).charged := by
  have := saturatingAdd_le 64 env.externalDeclared n
  simp only [grown]
  omega

theorem NapiEnv.shrunk_ledger (n : ℕ) (h : env.externalDeclared + env.released ≤ env.charged) :
    (env.shrunk n).externalDeclared + (env.shrunk n).released ≤ (env.shrunk n).charged := by
  simp only [shrunk]
  omega

theorem Adjusted.ledger (h : Adjusted env b change engine out)
    (hl : env.externalDeclared + env.released ≤ env.charged) :
    out.env.externalDeclared + out.env.released ≤ out.env.charged := by
  cases h with
  | refused b' e hpos hc => exact hl
  | rolledBack b' hpos hc he => exact NapiEnv.shrunk_ledger _ (NapiEnv.grown_ledger _ hl)
  | declared b' hpos hc he => exact NapiEnv.grown_ledger _ hl
  | takenBack hneg he => exact NapiEnv.shrunk_ledger _ hl
  | still written hpos => exact hl

/-- A call that fails leaves the pool, whatever wrapped on the way. -/
theorem Adjusted.failed (h : Adjusted env b change engine out)
    (hlt : b.poolCounter .v8External < 2 ^ 64) (hfail : out.status ≠ 0) :
    out.budget.poolCounter .v8External = b.poolCounter .v8External := by
  cases h with
  | refused b' e hpos hc => exact poolCounter_of_tryCharge_error hc _
  | rolledBack b' hpos hc he =>
    rw [NapiEnv.grown_release]
    exact ResourceBudget.pool_uncharge_tryCharge hc hlt
  | declared b' hpos hc he => exact absurd he hfail
  | takenBack hneg he => exact absurd he hfail
  | still written hpos => rfl

theorem step_inv (s : State ι α) (a : Act ι α) (s' : State ι α) (h : step s a = some s')
    (hi : Inv s) : Inv s' := by
  cases a with
  | adjust i change engine =>
    simp only [step, Option.ite_none_right_eq_some, Option.some.injEq] at h
    obtain ⟨-, rfl⟩ := h
    have ha := adjusted (s.stores i).env s.budget change engine
    refine ⟨ha.word hi.word, ?_⟩
    intro j
    by_cases hj : j = i
    · subst hj
      simp only [update_self]
      exact ha.ledger (hi.ledger j)
    · simp only [update_of_ne hj]
      exact hi.ledger j
  | drop i =>
    simp only [step, Option.ite_none_right_eq_some, Option.some.injEq] at h
    obtain ⟨-, rfl⟩ := h
    have hl := hi.ledger i
    refine ⟨?_, ?_⟩
    · simp only [NapiEnv.drop]
      split
      · exact pool_uncharge_lt _ hi.word
      · exact hi.word
    · intro j
      by_cases hj : j = i
      · subst hj
        simp only [update_self, NapiEnv.drop]
        split <;> simp <;> omega
      · simp only [update_of_ne hj]
        exact hi.ledger j
  | other a =>
    simp only [step, Option.map_eq_some_iff, Prod.exists] at h
    obtain ⟨b', others', ho, rfl⟩ := h
    exact ⟨otherStep_word hi.word ho, hi.ledger⟩

/-! ## The pool against the sum -/

section Sum

variable [Fintype ι]

/-- The pool shows the stores' totals and what the other owners hold. -/
def Even (s : State ι α) : Prop :=
  s.budget.poolCounter .v8External = tally Store.declared s.stores + s.others .v8External

instance (s : State ι α) : Decidable (Even s) := inferInstanceAs (Decidable (_ = _))

variable {b₀ : ResourceBudget α} {s : State ι α}

section

omit [NapiMemoryAccountant α]

omit [DecidableEq ι] in
theorem balanced_iff (hi : Inv s) :
    Balanced b₀ s ↔ Even s := by
  constructor
  · intro h
    exact h.pool
  · intro h
    refine ⟨h, ?_, ?_⟩
    · intro i
      have := hi.ledger i
      omega
    · intro hdead hothers
      have hz : tally Store.declared s.stores = 0 := by
        apply tally_eq_zero
        intro i
        simp [Store.declared, hdead i]
      rw [h, hz, hothers, Nat.zero_add]

omit [DecidableEq ι] in
theorem Even.declared_le (h : Even s) (i : ι) :
    (s.stores i).declared ≤ s.budget.poolCounter .v8External := by
  have := held_le_tally Store.declared s.stores i
  unfold Even at h
  omega

/-- A store moves alone: the sum stays right exactly when the pool moves with its total. -/
theorem even_update (h : Even s) (i : ι) (st : Store) (b : ResourceBudget α) :
    Even { s with budget := b, stores := update s.stores i st } ↔
      b.poolCounter .v8External + (s.stores i).declared =
        s.budget.poolCounter .v8External + st.declared := by
  have := tally_update Store.declared s.stores i st
  simp only [Even] at h ⊢
  omega

end

/-- What a call does to the pool and to the store's total, against the condition on it. -/
theorem Adjusted.even_iff {env : NapiEnv} {b : ResourceBudget α} {change : Int64}
    {engine : EngineAnswer} {out : AdjustOutcome α} (h : Adjusted env b change engine out)
    (hlt : b.poolCounter .v8External < 2 ^ 64)
    (hle : env.externalDeclared ≤ b.poolCounter .v8External) :
    out.budget.poolCounter .v8External + env.externalDeclared =
        b.poolCounter .v8External + out.env.externalDeclared ↔
      (0 < change.toInt → (b.tryCharge .v8External (magnitude change)).1 = .ok () →
        (if engine.status = 0 then b.poolCounter .v8External else env.externalDeclared) +
          magnitude change < 2 ^ 64) := by
  have hm := magnitude_le change
  cases h with
  | refused b' e hpos hc =>
    rw [poolCounter_of_tryCharge_error hc, hc]
    simp
  | rolledBack b' hpos hc he =>
    -- The pool comes back whatever wrapped; the total does only if it did not saturate.
    rw [env.grown_release, ResourceBudget.pool_uncharge_tryCharge hc hlt, hc]
    simp only [NapiEnv.shrunk, env.grown_release, he, if_false, forall_const, hpos]
    simp only [NapiEnv.grown, saturatingAdd]
    omega
  | declared b' hpos hc he =>
    rw [pool_of_tryCharge_ok hlt hc, hc]
    simp only [he, if_true, forall_const, hpos, NapiEnv.grown, saturatingAdd, wrappingAdd]
    omega
  | takenBack hneg he =>
    have hrel : min (magnitude change) env.externalDeclared ≤ b.poolCounter .v8External := by omega
    rw [pool_uncharge hrel hlt]
    simp only [NapiEnv.shrunk]
    omega
  | still written hpos => simp [hpos]

theorem even_drop (hi : Inv s) (h : Even s) {i : ι} (hlive : (s.stores i).live = true) :
    Even { s with
      budget := ((s.stores i).env.drop s.budget).2
      stores := update s.stores i
        { live := false, env := ((s.stores i).env.drop s.budget).1 } } := by
  rw [even_update h]
  have hle := h.declared_le i
  simp only [Store.declared, hlive, if_true] at hle ⊢
  simp only [Bool.false_eq_true, if_false, Nat.add_zero, NapiEnv.drop]
  split
  · rw [pool_uncharge hle hi.word]
    omega
  · simp only [Nat.add_eq_left]
    omega

omit [DecidableEq ι] in
/-- The others keep the sum right exactly when what they charge keeps the pool a word. -/
theorem even_other_iff (hi : Inv s) (h : Even s) {a : OtherAct α} {b' : ResourceBudget α}
    {others' : Pool → ℕ} (ho : otherStep s.budget s.others a = some (b', others')) :
    Even { s with budget := b', others := others' } ↔ Fits s (.other a : Act ι α) := by
  have hw := hi.word
  simp only [Even] at h ⊢
  cases a with
  | tryCharge p n =>
    simp only [otherStep] at ho
    split at ho
    · rename_i b₁ hc
      obtain ⟨rfl, rfl⟩ := Prod.mk.inj (Option.some.inj ho)
      by_cases hp : p = .v8External
      · subst hp
        simp only [Fits, hc, forall_const, update_self, pool_of_tryCharge_ok hw hc,
          wrappingAdd]
        omega
      · have hne : Pool.v8External ≠ p := fun hc => hp hc.symm
        have hpool : b₁.poolCounter .v8External = s.budget.poolCounter .v8External := by
          by_cases hn : n = 0
          · subst hn
            rw [tryCharge_zero] at hc
            rw [← (Prod.mk.inj hc).2]
          · rw [poolCounter_of_tryCharge_ok hn hc, if_neg hne]
        rw [hpool, update_of_ne hne]
        cases p <;> simp_all [Fits]
    · rename_i e b₁ hc
      obtain ⟨rfl, rfl⟩ := Prod.mk.inj (Option.some.inj ho)
      rw [poolCounter_of_tryCharge_error hc]
      cases p <;> simp_all [Fits]
  | uncharge p n =>
    simp only [otherStep, Option.ite_none_right_eq_some] at ho
    obtain ⟨hle, ho⟩ := ho
    obtain ⟨rfl, rfl⟩ := Prod.mk.inj (Option.some.inj ho)
    by_cases hp : Pool.v8External = p
    · subst hp
      rw [pool_uncharge (by omega) hw, update_self]
      simp only [Fits, iff_true]
      omega
    · by_cases hn : n = 0
      · subst hn
        rw [uncharge_zero, update_of_ne hp]
        simp [Fits, h]
      · rw [poolCounter_uncharge _ _ _ hn, if_neg hp, update_of_ne hp]
        simp [Fits, h]
  | account a' =>
    simp only [otherStep] at ho
    split at ho
    · cases ho
    · simp only [Option.ite_none_right_eq_some] at ho
      obtain ⟨rfl, rfl⟩ := Prod.mk.inj (Option.some.inj ho.2)
      simp only [Fits, iff_true]
      exact h

theorem step_even_iff (s : State ι α) (a : Act ι α) (s' : State ι α) (hs : step s a = some s')
    (hi : Inv s) (h : Even s) : Even s' ↔ Fits s a := by
  cases a with
  | adjust i change engine =>
    simp only [step, Option.ite_none_right_eq_some, Option.some.injEq] at hs
    obtain ⟨hlive, rfl⟩ := hs
    have hle := h.declared_le i
    rw [even_update h]
    simp only [Fits, Store.declared, hlive, if_true] at hle ⊢
    exact (adjusted (s.stores i).env s.budget change engine).even_iff hi.word hle
  | drop i =>
    simp only [step, Option.ite_none_right_eq_some, Option.some.injEq] at hs
    obtain ⟨hlive, rfl⟩ := hs
    simp only [Fits, iff_true]
    exact even_drop hi h hlive
  | other a =>
    simp only [step, Option.map_eq_some_iff, Prod.exists] at hs
    obtain ⟨b', others', ho, rfl⟩ := hs
    exact even_other_iff hi h ho

/-- What the condition leaves to a call that fails: nothing. -/
theorem failureKeeps_of_fits {a : Act ι α} (hi : Inv s) (h : Even s) (hfits : Fits s a) :
    FailureKeeps s a := by
  intro hfail s' hs
  cases a with
  | adjust i change engine =>
    have hpool : s'.budget.poolCounter .v8External = s.budget.poolCounter .v8External := by
      simp only [step, Option.ite_none_right_eq_some, Option.some.injEq] at hs
      obtain ⟨-, rfl⟩ := hs
      exact (adjusted (s.stores i).env s.budget change engine).failed hi.word hfail
    refine ⟨hpool, ?_⟩
    -- The sum is right before and after, and only this store's total can have moved.
    have heven := (step_even_iff s _ s' hs hi h).mpr hfits
    simp only [step, Option.ite_none_right_eq_some, Option.some.injEq] at hs
    obtain ⟨-, rfl⟩ := hs
    have hown := (even_update h _ _ _).mp heven
    intro j
    by_cases hj : j = i
    · subst hj
      simp only [update_self]
      simp only at hpool
      omega
    · simp only [update_of_ne hj]
  | drop i => exact absurd rfl hfail
  | other a => exact absurd rfl hfail

omit [Fintype ι] [DecidableEq ι] [NapiMemoryAccountant α] in
theorem Inv.start (hword : b₀.poolCounter .v8External < 2 ^ 64) :
    Inv (start b₀ : State ι α) :=
  ⟨hword, fun _ => Nat.le_refl 0⟩

omit [DecidableEq ι] [NapiMemoryAccountant α] in
theorem Even.start (b₀ : ResourceBudget α) : Even (start b₀ : State ι α) := by
  have hz : tally Store.declared (External.start b₀ : State ι α).stores = 0 := by
    apply tally_eq_zero
    intro i
    rfl
  rw [Even, hz, Nat.zero_add]
  rfl

theorem balanced_allSteps (hword : b₀.poolCounter .v8External < 2 ^ 64) {as : List (Act ι α)}
    {t : State ι α} (hr : run step (start b₀) as = some t) :
    AllStates step (Balanced b₀) (start b₀) as ↔ AllSteps step Fits (start b₀) as := by
  have hi : Inv (start b₀ : State ι α) := Inv.start hword
  have hinv : ∀ (s : State ι α) a s', True → step s a = some s' → Inv s → Inv s' :=
    fun s a s' _ hs hi => step_inv s a s' hs hi
  refine allStates_iff_allSteps (g := fun _ => True) hinv ?_ (fun _ _ => trivial) hr hi
    ((balanced_iff hi).mpr (Even.start b₀))
  intro s a s' _ hs hi hb
  rw [balanced_iff (step_inv s a s' hs hi)]
  exact step_even_iff s a s' hs hi ((balanced_iff hi).mp hb)

theorem failureKeeps_allSteps (hword : b₀.poolCounter .v8External < 2 ^ 64) {as : List (Act ι α)}
    (hfits : AllSteps step Fits (start b₀ : State ι α) as) :
    AllSteps step FailureKeeps (start b₀ : State ι α) as := by
  have hstep : ∀ (s : State ι α) a s', step s a = some s' → Fits s a → Inv s ∧ Even s →
      Inv s' ∧ Even s' := by
    intro s a s' hs hok hi
    exact ⟨step_inv s a s' hs hi.1, (step_even_iff s a s' hs hi.1 hi.2).mpr hok⟩
  refine allSteps_of_invariant hstep ?_ hfits ⟨Inv.start hword, Even.start b₀⟩
  intro s a hok hi
  exact failureKeeps_of_fits hi.1 hi.2 hok

/-- **Declared external memory balances exactly in the runs that never wrap.** Whatever the
    budget — limited, unlimited, under an accountant — and whatever the engine answers. -/
theorem declared_external_balances {b₀ : ResourceBudget α}
    (hword : b₀.poolCounter .v8External < 2 ^ 64) {as : List (Act ι α)} {t : State ι α}
    (hr : run step (start b₀) as = some t) :
    (AllStates step (Balanced b₀) (start b₀) as ∧ AllSteps step FailureKeeps (start b₀) as) ↔
      AllSteps step Fits (start b₀) as := by
  constructor
  · intro h
    exact (balanced_allSteps hword hr).mp h.1
  · intro h
    exact ⟨(balanced_allSteps hword hr).mpr h, failureKeeps_allSteps hword h⟩

/-! ## Under a limit

A budget with a limit, its own or its accountant's, refuses the charge that would wrap:
there the stores' totals are one account in the pool, and no run meets the condition's
other side. -/

section Limited

variable [LawfulNapiMemoryAccountant α]

/-- All the stores together, as one owner of the budget. -/
def Accounted (s : State ι α) : Prop :=
  Account .v8External True s.budget s.others (tally Store.declared s.stores)

variable {s : State ι α}

omit [LawfulNapiMemoryAccountant α] in
/-- A store moves alone: the account moves with its total. -/
theorem accounted_update {i : ι} {st : Store} {b : ResourceBudget α} {n : ℕ}
    (h : Account .v8External True b s.others n)
    (hn : n + (s.stores i).declared = tally Store.declared s.stores + st.declared) :
    Accounted { s with budget := b, stores := update s.stores i st } := by
  have htally := tally_update Store.declared s.stores i st
  have heq : tally Store.declared (update s.stores i st) = n := by omega
  simp only [Accounted, heq]
  exact h

theorem Accounted.adjusted (h : Accounted s) {i : ι} (hlive : (s.stores i).live = true)
    {change : Int64} {engine : EngineAnswer} {out : AdjustOutcome α}
    (ha : Adjusted (s.stores i).env s.budget change engine out) :
    Accounted { s with
      budget := out.budget
      stores := update s.stores i { env := out.env } } := by
  have hle := held_le_tally Store.declared s.stores i
  have hd : (s.stores i).declared = (s.stores i).env.externalDeclared := by
    simp [Store.declared, hlive]
  cases ha with
  | refused b' e hpos hc =>
    apply accounted_update (Account.tryCharge_error h hc)
    rw [hd]
    rfl
  | rolledBack b' hpos hc he =>
    have hch := Account.tryCharge_ok h hc
    have hlt := hch.charged_lt trivial
    rw [NapiEnv.grown_release]
    apply accounted_update (hch.uncharge (Nat.le_add_left _ _))
    rw [hd] at hle ⊢
    simp only [Store.declared, if_true, NapiEnv.shrunk, NapiEnv.grown_release]
    simp only [NapiEnv.grown, saturatingAdd]
    omega
  | declared b' hpos hc he =>
    have hch := Account.tryCharge_ok h hc
    have hlt := hch.charged_lt trivial
    apply accounted_update hch
    rw [hd] at hle ⊢
    simp only [Store.declared, if_true, NapiEnv.grown, saturatingAdd]
    omega
  | takenBack hneg he =>
    rw [hd] at hle
    have hrel : min (magnitude change) (s.stores i).env.externalDeclared ≤
        tally Store.declared s.stores := by omega
    apply accounted_update (Account.uncharge h hrel)
    rw [hd]
    simp only [Store.declared, if_true, NapiEnv.shrunk]
    omega
  | still written hpos =>
    apply accounted_update h
    rw [hd]
    rfl

theorem Accounted.step {s' : State ι α} {a : Act ι α} (h : Accounted s) (hs : step s a = some s') :
    Accounted s' := by
  cases a with
  | adjust i change engine =>
    simp only [External.step, Option.ite_none_right_eq_some, Option.some.injEq] at hs
    obtain ⟨hlive, rfl⟩ := hs
    exact h.adjusted hlive (External.adjusted (s.stores i).env s.budget change engine)
  | drop i =>
    simp only [External.step, Option.ite_none_right_eq_some, Option.some.injEq] at hs
    obtain ⟨hlive, rfl⟩ := hs
    have hle := held_le_tally Store.declared s.stores i
    have hd : (s.stores i).declared = (s.stores i).env.externalDeclared := by
      simp [Store.declared, hlive]
    by_cases hz : 0 < (s.stores i).env.externalDeclared
    · simp only [NapiEnv.drop, if_pos hz]
      apply accounted_update (Account.uncharge h (hd ▸ hle))
      rw [hd] at hle ⊢
      simp only [Store.declared, Bool.false_eq_true, if_false]
      omega
    · simp only [NapiEnv.drop, if_neg hz]
      apply accounted_update h
      rw [hd]
      simp only [Store.declared, Bool.false_eq_true, if_false]
      omega
  | other a =>
    simp only [External.step, Option.map_eq_some_iff, Prod.exists] at hs
    obtain ⟨b', others', ho, rfl⟩ := hs
    exact Account.other h ho

omit [DecidableEq ι] in
theorem Accounted.fits (h : Accounted s) (a : Act ι α) : Fits s a := by
  -- What is admitted is on the account, which is a word.
  have hroom : ∀ n, (s.budget.tryCharge .v8External n).1 = .ok () →
      s.budget.poolCounter .v8External + n < 2 ^ 64 := by
    intro n hok
    have hch : Account .v8External True (s.budget.tryCharge .v8External n).2 s.others _ :=
      Account.tryCharge_ok h (Prod.ext hok rfl)
    have hlt := hch.charged_lt trivial
    have hpool := Account.pool_eq h trivial
    omega
  cases a with
  | adjust i change engine =>
    intro _ hok
    have hlt := hroom _ hok
    have hle := held_le_tally Store.declared s.stores i
    have hpool := Account.pool_eq h trivial
    split <;> omega
  | drop i => trivial
  | other a =>
    cases a with
    | tryCharge p n =>
      cases p with
      | v8External => exact hroom n
      | wasmLinear => trivial
      | v8HeapReserved => trivial
    | uncharge p n => trivial
    | account a => trivial

omit [DecidableEq ι] [LawfulNapiMemoryAccountant α] in
theorem Accounted.start {b₀ : ResourceBudget α} (hb : b₀.Settled) :
    Accounted (start b₀ : State ι α) := by
  have hz : tally Store.declared (External.start b₀ : State ι α).stores = 0 := by
    apply tally_eq_zero
    intro i
    rfl
  simp only [Accounted, hz]
  refine ⟨rfl, fun _ => ⟨hb, ?_⟩⟩
  intro p
  simp [External.start]

/-- Under a limit nothing has to be asked of the run. -/
theorem limited_balances {b₀ : ResourceBudget α} (hb : b₀.Settled) {as : List (Act ι α)}
    {t : State ι α} (hr : run step (start b₀) as = some t) :
    AllStates step (Balanced b₀) (start b₀) as ∧ AllSteps step FailureKeeps (start b₀) as := by
  have hword : b₀.poolCounter .v8External < 2 ^ 64 :=
    Nat.lt_of_le_of_lt (hb.pool_le _) hb.charged_lt
  have hstep : ∀ (s : State ι α) a s', step s a = some s' → True → Accounted s → Accounted s' :=
    fun s a s' hs _ h => h.step hs
  have hfits : AllSteps step Fits (start b₀) as :=
    allSteps_of_invariant hstep (fun s a _ h => h.fits a)
      (allSteps_of_forall (fun _ _ => trivial) as _) (Accounted.start hb)
  exact ⟨(balanced_allSteps hword hr).mpr hfits, failureKeeps_allSteps hword hfits⟩

end Limited
end Sum

/-- One store of an unlimited budget declares 4096 bytes, fails to declare more, takes half of
    it back and is dropped. -/
def aDeclaration : List (Act (Fin 1) Empty) :=
  [.adjust 0 4096 { status := 0 }, .adjust 0 9 { status := 9 }, .adjust 0 (-2048) { status := 0 },
    .drop 0]

theorem aDeclaration_balances :
    AllStates step (Balanced .unlimited) (start .unlimited) aDeclaration ∧
      AllSteps step FailureKeeps (start .unlimited) aDeclaration := by
  have hrun : (run step (start .unlimited) aDeclaration).isSome := by decide
  obtain ⟨t, ht⟩ := Option.isSome_iff_exists.mp hrun
  exact (declared_external_balances (by decide) ht).mpr (by decide)

theorem aDeclaration_limited :
    AllStates step (Balanced (.withMemoryLimit 8192)) (start (.withMemoryLimit 8192)) aDeclaration ∧
      AllSteps step FailureKeeps (start (.withMemoryLimit 8192)) aDeclaration := by
  have hrun : (run step (start (.withMemoryLimit 8192)) aDeclaration).isSome := by decide
  obtain ⟨t, ht⟩ := Option.isSome_iff_exists.mp hrun
  exact limited_balances (ResourceBudget.settled_withMemoryLimit (by decide)) ht

/-- Three declarations of `i64::MAX` bytes: the second fills the word and the third wraps the
    pool, while the store's total stops at `u64::MAX`. -/
def thrice : List (Act (Fin 1) Empty) :=
  List.replicate 3 (.adjust 0 Int64.maxValue { status := 0 })

theorem thrice_wraps :
    ¬ AllStates step (Balanced .unlimited) (start .unlimited) thrice := by
  intro h
  have heven : AllStates step Even (start .unlimited) thrice :=
    ⟨h.1.pool, h.2.mono fun s a hall s' hs => (hall s' hs).pool⟩
  revert heven
  decide

end WasmerNapi.Budget.External
