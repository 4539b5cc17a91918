import WasmerNapi.Budget.Basic
import WasmerNapi.Lib.Run

/-!
# Reserving an isolate, and growing its heap

`src/src/budget.rs`, from `try_reserve_env` to `napi_host_near_heap_limit_grant`. A
V8 env costs the budget twice: a *ceiling*, planned and charged before the isolate
exists, and *grants*, charged one step at a time by V8's near-heap-limit callback
while it runs. V8 itself sees neither — it sees an old-generation limit, `max_old` at
first and whatever the callback returned last afterwards.

`heapLimit_paid_for` relates the two views over a whole run: the limit V8 works
against, with the parts of the heap the limit does not cover, never exceeds what was
charged. The one delicate term is the unwind slack. It is paid for inside the ceiling
and raises the limit only when a grant is first refused, so the invariant carries it as
an unspent reserve: `limit + young + code + overhead + slack ≤ ceiling + granted` while
the slack is available, and the same without `slack` once it has been exposed.
-/

namespace WasmerNapi.Budget

open Word Run

/-! ## What is asked for and what is granted -/

/-- Bytes; `0` means unset. -/
structure RequestedHeap where
  maxYoung : ℕ := 0
  maxOld : ℕ := 0
  codeRange : ℕ := 0
  deriving DecidableEq, Repr

structure HeapReservation where
  maxYoung : ℕ
  maxOld : ℕ
  codeRange : ℕ
  ceilingBytes : ℕ
  clamped : Bool
  deriving DecidableEq, Repr

inductive EnvRejected where
  | tooManyEnvs
  | heapDoesNotFit
  deriving DecidableEq, Repr

namespace ResourceBudget

variable {α : Type}

/-- `try_acquire_isolate`. The source retries its exchange until it wins or the cap is
    reached; taken whole, that is one comparison. -/
def tryAcquireIsolate (b : ResourceBudget α) (maxEnvs : Option ℕ) : Bool × ResourceBudget α :=
  match maxEnvs with
  | none => (true, { b with liveIsolates := wrappingAdd 64 b.liveIsolates 1 })
  | some max =>
    if max ≤ b.liveIsolates then (false, b)
    else (true, { b with liveIsolates := b.liveIsolates + 1 })

def releaseIsolate (b : ResourceBudget α) : ResourceBudget α :=
  { b with liveIsolates := wrappingSub 64 b.liveIsolates 1 }

variable [NapiMemoryAccountant α]

/-- `plan_heap_reservation`. -/
def planHeapReservation (b : ResourceBudget α) (req : RequestedHeap) : Option HeapReservation :=
  if b.isUnlimited then
    some { maxYoung := req.maxYoung, maxOld := req.maxOld, codeRange := req.codeRange,
           ceilingBytes := 0, clamped := false }
  else do
    let fixed ← checkedAdd 64 defaultPerIsolateOverhead defaultUnwindSlack
    let fixed ← checkedAdd 64 fixed req.maxYoung
    let fixed ← checkedAdd 64 fixed req.codeRange
    if b.memoryRemaining ≤ fixed then none
    else
      let oldAvailable := b.memoryRemaining - fixed
      let requestedOld := if req.maxOld > 0 then req.maxOld else defaultInitialIsolateHeap
      let old := min requestedOld oldAvailable
      if old = 0 then none
      else
        some { maxYoung := req.maxYoung
               maxOld := (tryFrom 32 old).getD (2 ^ 32 - 1)
               codeRange := req.codeRange
               ceilingBytes := fixed + old
               clamped := true }

/-- `try_reserve_env`. -/
def tryReserveEnv (b : ResourceBudget α) (req : RequestedHeap) (maxEnvs : Option ℕ) :
    Except EnvRejected HeapReservation × ResourceBudget α :=
  match b.tryAcquireIsolate maxEnvs with
  | (false, b) => (.error .tooManyEnvs, b)
  | (true, b) =>
    match b.planHeapReservation req with
    | none => (.error .heapDoesNotFit, b.releaseIsolate)
    | some reservation =>
      match b.tryCharge .v8HeapReserved reservation.ceilingBytes with
      | (.error _, b) => (.error .heapDoesNotFit, b.releaseIsolate)
      | (.ok (), b) => (.ok reservation, b)

/-- `release_env`. -/
def releaseEnv (b : ResourceBudget α) (ceilingBytes : ℕ) : ResourceBudget α :=
  (b.uncharge .v8HeapReserved ceilingBytes).releaseIsolate

variable {b : ResourceBudget α}

/-- The slot counter is no part of what a settled budget says. -/
theorem Settled.setLive (h : b.Settled) {n : ℕ} :
    { b with liveIsolates := n }.Settled := { h with }

omit [NapiMemoryAccountant α] in
@[simp] theorem poolCounter_setLive (b : ResourceBudget α) (n : ℕ) (p : Pool) :
    ({ b with liveIsolates := n } : ResourceBudget α).poolCounter p = b.poolCounter p := by
  cases p <;> rfl

/-- What a plan under a limited budget looks like: the ceiling is overhead, slack,
    young generation, code range and an old generation no smaller than the limit V8 is
    told, and it fitted what remained. -/
theorem planHeapReservation_eq_some {req : RequestedHeap} {r : HeapReservation}
    (hlim : b.isUnlimited = false) (h : b.planHeapReservation req = some r) :
    ∃ old, r.maxOld ≤ old ∧ 0 < old ∧
      r.ceilingBytes =
        defaultPerIsolateOverhead + defaultUnwindSlack + r.maxYoung + r.codeRange + old ∧
      r.ceilingBytes ≤ b.memoryRemaining ∧
      r.maxYoung = req.maxYoung ∧ r.codeRange = req.codeRange ∧ r.clamped = true := by
  unfold planHeapReservation at h
  rw [if_neg (by simp [hlim])] at h
  simp only [Option.bind_eq_bind, Option.bind_eq_some_iff, checkedAdd_eq_some] at h
  obtain ⟨f₀, ⟨-, rfl⟩, f₁, ⟨-, rfl⟩, f₂, ⟨-, rfl⟩, h⟩ := h
  split at h
  · cases h
  · rename_i hrem
    generalize (if req.maxOld > 0 then req.maxOld else defaultInitialIsolateHeap) = requestedOld
      at h
    split at h
    · cases h
    · rename_i hold
      cases h
      refine ⟨_, ?_, Nat.pos_of_ne_zero hold, rfl, ?_, rfl, rfl, rfl⟩
      · dsimp only
        unfold tryFrom
        split
        · exact Nat.le_refl _
        · simp only [Option.getD_none]
          omega
      · dsimp only
        omega

omit [NapiMemoryAccountant α] in
/-- A slot taken and freed again leaves the counter where it was. -/
theorem releaseIsolate_tryAcquireIsolate {b' : ResourceBudget α} {maxEnvs : Option ℕ}
    (hlive : b.liveIsolates < 2 ^ 64) (h : b.tryAcquireIsolate maxEnvs = (true, b')) :
    (∀ p, b'.poolCounter p = b.poolCounter p) ∧
      wrappingSub 64 b'.liveIsolates 1 = b.liveIsolates := by
  unfold tryAcquireIsolate at h
  split at h
  · obtain ⟨-, rfl⟩ := Prod.mk.inj h
    refine ⟨fun p => by simp, ?_⟩
    simp only [wrappingSub, wrappingAdd]
    omega
  · split at h
    · obtain ⟨h, -⟩ := Prod.mk.inj h
      cases h
    · obtain ⟨-, rfl⟩ := Prod.mk.inj h
      refine ⟨fun p => by simp, ?_⟩
      simp only [wrappingSub]
      omega

/-- A rejected reservation changes neither a pool nor the slot count. -/
theorem tryReserveEnv_error {b' : ResourceBudget α} {req : RequestedHeap} {maxEnvs : Option ℕ}
    {e : EnvRejected} (hlive : b.liveIsolates < 2 ^ 64)
    (h : b.tryReserveEnv req maxEnvs = (.error e, b')) :
    (∀ p, b'.poolCounter p = b.poolCounter p) ∧ b'.liveIsolates = b.liveIsolates := by
  unfold tryReserveEnv at h
  split at h
  · rename_i b₁ hacq
    obtain ⟨-, rfl⟩ := Prod.mk.inj h
    unfold tryAcquireIsolate at hacq
    split at hacq
    · cases (Prod.mk.inj hacq).1
    · split at hacq
      · obtain ⟨-, rfl⟩ := Prod.mk.inj hacq
        exact ⟨fun _ => rfl, rfl⟩
      · cases (Prod.mk.inj hacq).1
  · rename_i b₁ hacq
    obtain ⟨hpool, hback⟩ := releaseIsolate_tryAcquireIsolate hlive hacq
    split at h
    · obtain ⟨-, rfl⟩ := Prod.mk.inj h
      exact ⟨fun p => by rw [releaseIsolate, poolCounter_setLive, hpool p], hback⟩
    · split at h
      · rename_i e' b₂ hc
        obtain ⟨-, rfl⟩ := Prod.mk.inj h
        refine ⟨fun p => ?_, ?_⟩
        · rw [releaseIsolate, poolCounter_setLive, poolCounter_of_tryCharge_error hc p, hpool p]
        · rw [releaseIsolate, liveIsolates_of_tryCharge hc, hback]
      · cases (Prod.mk.inj h).1

end ResourceBudget

/-! ## The near-heap-limit callback -/

/-- The tracker behind the callback's data pointer. Its `budget` and `host_stopped`
    are shared with everything else, so they are passed beside it. -/
structure EnvHeapCharge where
  env : ℕ
  unwindSlackAvailable : Bool := true
  granted : ℕ := 0
  deriving DecidableEq, Repr

/-- What one invocation returns and leaves behind; `terminated` is the env handle it
    asked the engine to terminate, if it did. -/
structure GrantOutcome (α : Type) where
  limit : ℕ
  data : Option EnvHeapCharge
  budget : ResourceBudget α
  hostStopped : Bool
  terminated : Option ℕ := none

/-- `napi_host_near_heap_limit_grant`. -/
def napiHostNearHeapLimitGrant {α : Type} [NapiMemoryAccountant α] (b : ResourceBudget α)
    (hostStopped : Bool) (data : Option EnvHeapCharge) (currentLimit : ℕ) : GrantOutcome α :=
  match data with
  | none => { limit := currentLimit, data := none, budget := b, hostStopped }
  | some tracker =>
    match b.tryCharge .v8HeapReserved defaultHeapGrowStep with
    | (.ok (), b') =>
      { limit := saturatingAdd 64 currentLimit defaultHeapGrowStep
        data := some { tracker with granted := wrappingAdd 64 tracker.granted defaultHeapGrowStep }
        budget := b'
        hostStopped }
    | (.error _, b') =>
      { limit :=
          if tracker.unwindSlackAvailable then saturatingAdd 64 currentLimit defaultUnwindSlack
          else currentLimit
        data := some { tracker with unwindSlackAvailable := false }
        budget := b'
        hostStopped := true
        terminated := if tracker.env ≠ 0 then some tracker.env else none }

theorem grant_of_ok {α : Type} [NapiMemoryAccountant α] {b b' : ResourceBudget α}
    (hc : b.tryCharge .v8HeapReserved defaultHeapGrowStep = (.ok (), b')) (hostStopped : Bool)
    (tracker : EnvHeapCharge) (limit : ℕ) :
    napiHostNearHeapLimitGrant b hostStopped (some tracker) limit =
      { limit := saturatingAdd 64 limit defaultHeapGrowStep
        data := some { tracker with granted := wrappingAdd 64 tracker.granted defaultHeapGrowStep }
        budget := b'
        hostStopped } := by
  simp only [napiHostNearHeapLimitGrant, hc]

theorem grant_of_error {α : Type} [NapiMemoryAccountant α] {b b' : ResourceBudget α}
    {e : OverBudget} (hc : b.tryCharge .v8HeapReserved defaultHeapGrowStep = (.error e, b'))
    (hostStopped : Bool) (tracker : EnvHeapCharge) (limit : ℕ) :
    napiHostNearHeapLimitGrant b hostStopped (some tracker) limit =
      { limit :=
          if tracker.unwindSlackAvailable then saturatingAdd 64 limit defaultUnwindSlack else limit
        data := some { tracker with unwindSlackAvailable := false }
        budget := b'
        hostStopped := true
        terminated := if tracker.env ≠ 0 then some tracker.env else none } := by
  simp only [napiHostNearHeapLimitGrant, hc]

/-! ## The other owners of a budget

Every proof about one owner's bytes has to let the others run. They do three things:
charge, give back what they hold, and — under an accountant — move the account by
business of the embedder's that never passes through this budget. -/

inductive OtherAct (α : Type) where
  | tryCharge (pool : Pool) (bytes : ℕ)
  | uncharge (pool : Pool) (bytes : ℕ)
  | account (a : α)

/-- One move of the other owners, who hold `others` between them. The embedder's own
    business keeps its limit and keeps this budget's bytes on the account. -/
def otherStep {α : Type} [NapiMemoryAccountant α] (b : ResourceBudget α) (others : Pool → ℕ) :
    OtherAct α → Option (ResourceBudget α × (Pool → ℕ))
  | .tryCharge p n =>
    match b.tryCharge p n with
    | (.ok (), b') => some (b', Function.update others p (others p + n))
    | (.error _, b') => some (b', others)
  | .uncharge p n =>
    if n ≤ others p then some (b.uncharge p n, Function.update others p (others p - n)) else none
  | .account a' =>
    match b.accountant with
    | none => none
    | some a =>
      if NapiMemoryAccountant.memoryLimit a' = NapiMemoryAccountant.memoryLimit a ∧
          b.memCharged ≤ NapiMemoryAccountant.memoryCharged a' then
        some ({ b with accountant := some a' }, others)
      else none

section Growth

variable {α : Type} [NapiMemoryAccountant α] [LawfulNapiMemoryAccountant α]

/-- What the other owners do is invisible to this one: the budget stays settled, under
    the same limit, and each pool still shows what this owner holds in it. -/
structure Undisturbed (own : Pool → ℕ) (b b' : ResourceBudget α) (others' : Pool → ℕ) :
    Prop where
  settled : b'.Settled
  memoryLimit : b'.memoryLimit = b.memoryLimit
  pool : ∀ p, b'.poolCounter p = others' p + own p
  liveIsolates : b'.liveIsolates = b.liveIsolates

theorem ResourceBudget.Settled.otherStep {b b' : ResourceBudget α} {own others others' : Pool → ℕ}
    {a : OtherAct α} (h : b.Settled) (hpool : ∀ p, b.poolCounter p = others p + own p)
    (hs : otherStep b others a = some (b', others')) : Undisturbed own b b' others' := by
  cases a with
  | tryCharge p n =>
    simp only [Budget.otherStep] at hs
    split at hs
    · rename_i b₁ hc
      obtain ⟨rfl, rfl⟩ : b₁ = b' ∧ _ = others' := by simpa using hs
      have ch := h.tryCharge_ok hc
      refine { ch with pool := fun q => ?_ }
      rw [ch.pool q, hpool q]
      by_cases hq : q = p
      · subst hq
        simp only [Function.update_self, if_true]
        omega
      · simp [hq]
    · rename_i e b₁ hc
      obtain ⟨rfl, rfl⟩ : b₁ = b' ∧ others = others' := by simpa using hs
      have rf := h.tryCharge_error hc
      exact { rf with pool := fun q => (rf.pool q).trans (hpool q) }
  | uncharge p n =>
    simp only [Budget.otherStep] at hs
    split at hs
    · rename_i hn
      obtain ⟨rfl, rfl⟩ : _ = b' ∧ _ = others' := by simpa using hs
      have un := h.uncharge (p := p) (n := n) (by rw [hpool p]; omega)
      refine { un with pool := fun q => ?_ }
      have hq := un.pool q
      rw [hpool q] at hq
      by_cases hqp : q = p
      · subst hqp
        simp only [Function.update_self, if_true] at hq ⊢
        omega
      · simpa [hqp] using hq
    · cases hs
  | account a' =>
    simp only [Budget.otherStep] at hs
    split at hs
    · cases hs
    · rename_i a hacc
      split at hs
      · rename_i hmove
        obtain ⟨rfl, rfl⟩ : _ = b' ∧ others = others' := by simpa using hs
        have hl : ({ b with accountant := some a' } : ResourceBudget α).memoryLimit =
            b.memoryLimit := by simp only [ResourceBudget.memoryLimit, hacc, hmove.1]
        have hle := LawfulNapiMemoryAccountant.memoryCharged_le a'
        refine ⟨⟨?_, h.sum, ?_, ?_⟩, hl, fun q => ?_, rfl⟩
        · rw [hl]; exact h.limited
        · exact hmove.2
        · exact hle
        · rw [← hpool q]
          cases q <;> rfl
      · cases hs

/-! ## The growth machine -/

/-- One isolate's heap between callback invocations. `others` is what the rest of the
    budget's owners hold, and `exposures` counts the invocations that raised the limit
    without granting anything; neither is read by a step. -/
structure Growth (α : Type) where
  budget : ResourceBudget α
  tracker : EnvHeapCharge
  limit : ℕ
  hostStopped : Bool := false
  others : Pool → ℕ
  exposures : ℕ := 0

inductive GrowthAct (α : Type) where
  | nearHeapLimit
  | other (a : OtherAct α)

namespace Growth

omit [LawfulNapiMemoryAccountant α] in
/-- The isolate as it starts: V8 was told `max_old`, nothing has been granted, and the
    slack is untouched. -/
def start (b : ResourceBudget α) (r : HeapReservation) (env : ℕ) : Growth α :=
  { budget := b, tracker := { env }, limit := r.maxOld, others := b.poolCounter }

/-- One step: V8 calls back with the limit the previous call returned, or another owner
    of the budget moves. -/
def step (s : Growth α) : GrowthAct α → Option (Growth α)
  | .nearHeapLimit =>
    let out := napiHostNearHeapLimitGrant s.budget s.hostStopped (some s.tracker) s.limit
    out.data.map fun tracker =>
      { s with
        budget := out.budget
        tracker
        limit := out.limit
        hostStopped := out.hostStopped
        exposures :=
          if out.limit ≠ s.limit ∧ tracker.granted = s.tracker.granted then s.exposures + 1
          else s.exposures }
  | .other a =>
    (otherStep s.budget s.others a).map fun (budget, others) => { s with budget, others }

/-- Slack that is paid for and not exposed yet. -/
def reserve (s : Growth α) : ℕ := if s.tracker.unwindSlackAvailable then defaultUnwindSlack else 0

/-- The invariant of a run that started from reservation `r`. -/
structure Inv (r : HeapReservation) (s : Growth α) : Prop where
  settled : s.budget.Settled
  pool : ∀ p, s.budget.poolCounter p =
    s.others p + if p = .v8HeapReserved then s.tracker.granted else 0
  covered : s.limit + s.reserve + r.maxYoung + r.codeRange + defaultPerIsolateOverhead ≤
    r.ceilingBytes + s.tracker.granted
  exposed : s.exposures + (if s.tracker.unwindSlackAvailable then 1 else 0) ≤ 1

variable {r : HeapReservation}

omit [LawfulNapiMemoryAccountant α] in
theorem Inv.start {b₀ b : ResourceBudget α} {req : RequestedHeap} (hlim : b₀.isUnlimited = false)
    (hplan : b₀.planHeapReservation req = some r) (hb : b.Settled) (env : ℕ) :
    Inv r (start b r env) := by
  obtain ⟨old, hold, -, hceil, -⟩ := ResourceBudget.planHeapReservation_eq_some hlim hplan
  refine ⟨hb, fun p => ?_, ?_, ?_⟩
  · simp [Growth.start]
  · simp only [Growth.start, reserve, if_true, hceil]
    omega
  · simp [Growth.start]

variable {s : Growth α}

/-- A grant: the step enters the pool and the tracker, and the limit rises by no more. -/
theorem Inv.step_granted {b' : ResourceBudget α} (h : Inv r s)
    (hc : s.budget.tryCharge .v8HeapReserved defaultHeapGrowStep = (.ok (), b')) :
    wrappingAdd 64 s.tracker.granted defaultHeapGrowStep =
        s.tracker.granted + defaultHeapGrowStep ∧
      Inv r { s with
        budget := b'
        tracker := { s.tracker with granted := s.tracker.granted + defaultHeapGrowStep }
        limit := saturatingAdd 64 s.limit defaultHeapGrowStep } := by
  have ch := h.settled.tryCharge_ok hc
  have hpool : ∀ p, b'.poolCounter p = s.others p +
      if p = .v8HeapReserved then s.tracker.granted + defaultHeapGrowStep else 0 := by
    intro p
    rw [ch.pool p, h.pool p]
    by_cases hp : p = .v8HeapReserved
    · simp only [hp, if_true]
      omega
    · simp [hp]
  have hlt : s.tracker.granted + defaultHeapGrowStep < 2 ^ 64 := by
    have h₁ := ch.settled.pool_le .v8HeapReserved
    have h₂ := ch.settled.charged_lt
    rw [hpool .v8HeapReserved, if_pos rfl] at h₁
    omega
  refine ⟨wrappingAdd_of_lt hlt, ch.settled, hpool, ?_, h.exposed⟩
  have hcov := h.covered
  have hsat := saturatingAdd_le 64 s.limit defaultHeapGrowStep
  simp only [reserve] at hcov ⊢
  omega

/-- A refusal: the account is untouched, and the limit rises by the slack or not at
    all. -/
theorem Inv.step_denied {b' : ResourceBudget α} {e : OverBudget} {exposures : ℕ} (h : Inv r s)
    (hc : s.budget.tryCharge .v8HeapReserved defaultHeapGrowStep = (.error e, b'))
    (hexp : exposures ≤ s.exposures + if s.tracker.unwindSlackAvailable then 1 else 0) :
    Inv r { s with
      budget := b'
      tracker := { s.tracker with unwindSlackAvailable := false }
      limit :=
        if s.tracker.unwindSlackAvailable then saturatingAdd 64 s.limit defaultUnwindSlack
        else s.limit
      hostStopped := true
      exposures } := by
  have rf := h.settled.tryCharge_error hc
  have hcov := h.covered
  have hsat := saturatingAdd_le 64 s.limit defaultUnwindSlack
  refine ⟨rf.settled, fun p => (rf.pool p).trans (h.pool p), ?_, ?_⟩
  · cases hs : s.tracker.unwindSlackAvailable with
    | false =>
      simp only [reserve, hs, Bool.false_eq_true, if_false] at hcov ⊢
      exact hcov
    | true =>
      simp only [reserve, hs, Bool.false_eq_true, if_true, if_false] at hcov ⊢
      omega
  · simp only [Bool.false_eq_true, if_false, Nat.add_zero]
    exact Nat.le_trans hexp h.exposed

omit [LawfulNapiMemoryAccountant α] in
/-- What one invocation can do to the machine, guard by guard. -/
theorem step_nearHeapLimit {s' : Growth α} (hs : step s .nearHeapLimit = some s') :
    (∃ b', s.budget.tryCharge .v8HeapReserved defaultHeapGrowStep = (.ok (), b') ∧
      ∃ n, s' = { s with
        budget := b'
        tracker := { s.tracker with
          granted := wrappingAdd 64 s.tracker.granted defaultHeapGrowStep }
        limit := saturatingAdd 64 s.limit defaultHeapGrowStep
        exposures := n } ∧
      (wrappingAdd 64 s.tracker.granted defaultHeapGrowStep ≠ s.tracker.granted →
        n = s.exposures)) ∨
    (∃ e b', s.budget.tryCharge .v8HeapReserved defaultHeapGrowStep = (.error e, b') ∧
      ∃ n, s' = { s with
        budget := b'
        tracker := { s.tracker with unwindSlackAvailable := false }
        limit :=
          if s.tracker.unwindSlackAvailable then saturatingAdd 64 s.limit defaultUnwindSlack
          else s.limit
        hostStopped := true
        exposures := n } ∧
      n ≤ s.exposures + if s.tracker.unwindSlackAvailable then 1 else 0) := by
  cases hc : s.budget.tryCharge .v8HeapReserved defaultHeapGrowStep with | mk res b' =>
  cases res with
  | ok u =>
    simp only [step, grant_of_ok hc, Option.map_some, Option.some.injEq] at hs
    refine .inl ⟨b', rfl, _, hs.symm, fun hne => ?_⟩
    rw [if_neg fun h => hne h.2]
  | error e =>
    simp only [step, grant_of_error hc, Option.map_some, Option.some.injEq] at hs
    refine .inr ⟨e, b', rfl, _, hs.symm, ?_⟩
    cases s.tracker.unwindSlackAvailable with
    | false => simp
    | true =>
      simp only [if_true]
      split <;> omega

theorem Inv.step {s' : Growth α} {a : GrowthAct α} (hs : step s a = some s') (h : Inv r s) :
    Inv r s' := by
  cases a with
  | nearHeapLimit =>
    obtain ⟨b', hc, n, rfl, hn⟩ | ⟨e, b', hc, n, rfl, hn⟩ := step_nearHeapLimit hs
    · obtain ⟨hexact, hinv⟩ := h.step_granted hc
      have hsame : n = s.exposures := by
        apply hn
        rw [hexact]
        exact Nat.ne_of_gt (Nat.lt_add_of_pos_right (by decide))
      rw [hexact, hsame]
      exact hinv
    · exact h.step_denied hc hn
  | other a =>
    simp only [Growth.step, Option.map_eq_some_iff, Prod.exists] at hs
    obtain ⟨b', others', ho, rfl⟩ := hs
    have u := h.settled.otherStep h.pool ho
    exact ⟨u.settled, u.pool, h.covered, h.exposed⟩

/-- **V8's heap limit is always paid for.** From any plan under a limited budget, along
    every run of callback invocations and other owners' charges and releases: the limit
    V8 works against, with the young generation, the code range and the per-isolate
    overhead, is within what the ceiling and the grants have charged; the slack has been
    exposed at most once; and an invocation that is refused after that leaves the limit
    where it was. -/
theorem heapLimit_paid_for {b₀ b : ResourceBudget α} {req : RequestedHeap} {r : HeapReservation}
    (hlim : b₀.isUnlimited = false) (hplan : b₀.planHeapReservation req = some r)
    (hb : b.Settled) {env : ℕ} {as : List (GrowthAct α)} {s : Growth α}
    (hr : run Growth.step (start b r env) as = some s) :
    s.limit + r.maxYoung + r.codeRange + defaultPerIsolateOverhead ≤
        r.ceilingBytes + s.tracker.granted ∧
      s.exposures ≤ 1 ∧
      ∀ s', Growth.step s .nearHeapLimit = some s' →
        (s.budget.tryCharge .v8HeapReserved defaultHeapGrowStep).1 ≠ .ok () →
        s.tracker.unwindSlackAvailable = false → s'.limit = s.limit := by
  have h : Inv r s := Run.invariant (fun _ _ _ hs h => Inv.step hs h) hr (Inv.start hlim hplan hb env)
  refine ⟨?_, ?_, ?_⟩
  · have := h.covered
    omega
  · have := h.exposed
    omega
  · intro s' hs hdenied hspent
    obtain ⟨b', hc, -⟩ | ⟨e, b', hc, n, rfl, -⟩ := step_nearHeapLimit hs
    · exact absurd (by rw [hc]) hdenied
    · simp [hspent]

end Growth
end Growth

/-- What a budget of 160 MiB plans for a request that sets nothing. -/
def defaultReservation : HeapReservation :=
  { maxYoung := 0, maxOld := 64 * mib, codeRange := 0, ceilingBytes := 88 * mib, clamped := true }

/-- That budget with the ceiling charged. -/
def defaultIsolate : ResourceBudget Empty :=
  ((ResourceBudget.withMemoryLimit (160 * mib)).tryCharge .v8HeapReserved (88 * mib)).2

/-- One grant fits, the next is refused while another owner holds 30 MiB and exposes the
    slack, the next is refused without it; the release makes room for a second grant. -/
def oneExposure : List (GrowthAct Empty) :=
  [.nearHeapLimit, .other (.tryCharge .wasmLinear (30 * mib)), .nearHeapLimit, .nearHeapLimit,
    .other (.uncharge .wasmLinear (30 * mib)), .nearHeapLimit, .nearHeapLimit]

theorem oneExposure_paid_for :
    ∃ s, (ResourceBudget.withMemoryLimit (160 * mib) : ResourceBudget Empty).planHeapReservation
          {} = some defaultReservation ∧
      run Growth.step (Growth.start defaultIsolate defaultReservation 1) oneExposure = some s ∧
      s.limit + defaultReservation.maxYoung + defaultReservation.codeRange +
        defaultPerIsolateOverhead ≤ defaultReservation.ceilingBytes + s.tracker.granted ∧
      s.exposures = 1 ∧ s.tracker.granted = 2 * defaultHeapGrowStep := by
  have hplan : (ResourceBudget.withMemoryLimit (160 * mib) :
      ResourceBudget Empty).planHeapReservation {} = some defaultReservation := by decide +kernel
  have hset : defaultIsolate.Settled :=
    ⟨by decide, by decide, by decide, by decide⟩
  have hshow : (run Growth.step (Growth.start defaultIsolate defaultReservation 1)
      oneExposure).map (fun s => (s.exposures, s.tracker.granted)) =
        some (1, 2 * defaultHeapGrowStep) := by decide
  obtain ⟨s, hs, hend⟩ := Option.map_eq_some_iff.mp hshow
  obtain ⟨hexp, hgr⟩ := Prod.mk.inj hend
  exact ⟨s, hplan, hs, (Growth.heapLimit_paid_for (by decide) hplan hset hs).1, hexp, hgr⟩

end WasmerNapi.Budget
