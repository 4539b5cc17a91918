import WasmerNapi.Env.Basic
import WasmerNapi.Lib.Run
import WasmerNapi.Lib.Tally

/-!
# Isolate slots, ceilings and grants across an application's stores

What one env costs lives in three places: the slot and the charges in the shared
budget, the grants in the boxed tracker, the ceiling in the table of the store that
committed it. Any number of stores, on any number of threads, reserve, commit, abort,
grow and release at the same time, and each of the calls is several budget calls long.

So the machine here takes each *budget call* as a step. A caller in the middle of
`reserve_isolate` or of a release holds a slot, or bytes, that no table shows yet or
any more; its phase says which. `Inv` is then one equation per counter — tables plus
phases — that holds in every state, and between calls, when the only phases left are
reservations waiting for their commit or abort, it is the statement one wants.

`live_isolates` is a wrapping counter with no cap under `max_envs = None`, so its
equation is modulo `2 ^ 64`; between calls every slot is backed by a charged, positive
ceiling, and the budget is what makes it exact.
-/

namespace WasmerNapi.Env

open Function (update update_self update_of_ne)
open Budget Word Run

/-! ## The machine -/

/-- Where a caller stands. `refused` and `freeing` are about to free a slot, `releasing`
    and `uncharging` to give bytes back; `pending` is a successful `reserve_isolate`
    whose commit or abort is still to come. -/
inductive Phase (σ : Type) where
  | idle
  | rejected (e : EnvRejected)
  | planning (store : σ) (requested : RequestedHeap)
  | charging (store : σ) (reservation : HeapReservation)
  | refused
  | pending (store : σ) (reservation : HeapReservation)
  | releasing (granted ceiling : ℕ)
  | uncharging (ceiling : ℕ)
  | freeing

/-- Not inside a call. -/
def Phase.betweenCalls {σ : Type} : Phase σ → Bool
  | .idle | .rejected _ | .pending _ _ => true
  | _ => false

/-- A caller may start a call: it has no reservation outstanding. -/
def Phase.free {σ : Type} : Phase σ → Bool
  | .idle | .rejected _ => true
  | _ => false

/-- An application: its shared budget and registry, its stores, the callers of the
    isolate functions, and two observations no step reads: what the other owners of the
    budget hold, and the envs committed and not released since. -/
structure State (σ ι α : Type) where
  budget : ResourceBudget α
  hostStopped : Bool := false
  registry : EnvRegistry := {}
  stores : σ → NapiEnv := fun _ => {}
  callers : ι → Phase σ := fun _ => .idle
  others : Pool → ℕ := fun _ => 0
  unreleased : List (σ × ℕ) := []

inductive Act (σ ι α : Type) where
  | reserve (i : ι) (store : σ) (requested : RequestedHeap)
  | plan (i : ι)
  | charge (i : ι)
  | commit (i : ι) (env : ℕ)
  | abort (i : ι)
  | nearHeapLimit (store : σ) (envId limit : ℕ)
  | finish (i : ι) (store : σ) (envId env : ℕ) (status : ℤ)
  | uncharge (i : ι)
  | free (i : ι)
  | hostStop
  | other (a : OtherAct α)

/-- No owner but the envs charges the isolate-heap pool. -/
def touchesHeapPool {α : Type} : OtherAct α → Bool
  | .tryCharge p _ | .uncharge p _ => p == .v8HeapReserved
  | .account _ => false

section Machine

variable {σ ι α : Type} [DecidableEq σ] [DecidableEq ι] [NapiMemoryAccountant α]

def State.setCaller (s : State σ ι α) (i : ι) (phase : Phase σ) : State σ ι α :=
  { s with callers := update s.callers i phase }

/-- One step. `reserve`, `plan` and `charge` are `try_reserve_env` in order, `free` its
    rollback and the last access of `release_env`; `abort` enters `release_env`; `finish`
    is `finish_unregister_napi_env` up to its first budget call. V8 calls
    `nearHeapLimit` only on an env that still has its tracker. -/
def step (maxEnvs : Option ℕ) (s : State σ ι α) : Act σ ι α → Option (State σ ι α)
  | .reserve i store requested =>
    if (s.callers i).free then
      match s.budget.tryAcquireIsolate maxEnvs with
      | (false, budget) => some ({ s with budget }.setCaller i (.rejected .tooManyEnvs))
      | (true, budget) => some ({ s with budget }.setCaller i (.planning store requested))
    else none
  | .plan i =>
    match s.callers i with
    | .planning store requested =>
      match s.budget.planHeapReservation requested with
      | none => some (s.setCaller i .refused)
      | some reservation => some (s.setCaller i (.charging store reservation))
    | _ => none
  | .charge i =>
    match s.callers i with
    | .charging store reservation =>
      match s.budget.tryCharge .v8HeapReserved reservation.ceilingBytes with
      | (.error _, budget) => some ({ s with budget }.setCaller i .refused)
      | (.ok (), budget) => some ({ s with budget }.setCaller i (.pending store reservation))
    | _ => none
  | .commit i env =>
    match s.callers i with
    | .pending store reservation =>
      (commitIsolate s.budget s.hostStopped s.registry (s.stores store) env reservation).map
        fun (envId, registry, charges, _) =>
          { s.setCaller i .idle with
            registry
            stores := update s.stores store charges
            unreleased := (store, envId) :: s.unreleased }
    | _ => none
  | .abort i =>
    match s.callers i with
    | .pending _ reservation => some (s.setCaller i (.uncharging reservation.ceilingBytes))
    | _ => none
  | .nearHeapLimit store envId limit =>
    match (s.stores store).envHeapCharges.lookup envId with
    | some { ceiling, tracker := some tracker } =>
      let out := napiHostNearHeapLimitGrant s.budget s.hostStopped (some tracker) limit
      some { s with
        budget := out.budget
        hostStopped := out.hostStopped
        stores := update s.stores store
          { s.stores store with
            envHeapCharges :=
              (s.stores store).envHeapCharges.insert envId { ceiling, tracker := out.data } } }
    | _ => none
  | .finish i store envId env status =>
    if (s.callers i).free then
      let (registry, charges, _, back) :=
        finishUnregisterNapiEnv s.registry (s.stores store) envId env status
      let phase :=
        match back with
        | some (granted, ceiling) => .releasing granted ceiling
        | none => s.callers i
      some { s.setCaller i phase with
        registry
        stores := update s.stores store charges
        unreleased :=
          if status = releaseRefused then s.unreleased
          else s.unreleased.filter (· ≠ (store, envId)) }
    else none
  | .uncharge i =>
    match s.callers i with
    | .releasing granted ceiling =>
      some ({ s with budget := s.budget.uncharge .v8HeapReserved granted }.setCaller i
        (.uncharging ceiling))
    | .uncharging ceiling =>
      some ({ s with budget := s.budget.uncharge .v8HeapReserved ceiling }.setCaller i .freeing)
    | _ => none
  | .free i =>
    match s.callers i with
    | .refused =>
      some ({ s with budget := s.budget.releaseIsolate }.setCaller i (.rejected .heapDoesNotFit))
    | .freeing => some ({ s with budget := s.budget.releaseIsolate }.setCaller i .idle)
    | _ => none
  | .hostStop => some { s with hostStopped := true }
  | .other a =>
    if touchesHeapPool a then none
    else (otherStep s.budget s.others a).map fun (budget, others) => { s with budget, others }

/-- The steps a call of `try_reserve_env` may take: it ends for want of a slot, its heap does not
    fit, the charge is refused, or it is granted. -/
def reservation (i : ι) (store : σ) (req : RequestedHeap) : List (List (Act σ ι α)) :=
  [[.reserve i store req], [.reserve i store req, .plan i, .free i],
    [.reserve i store req, .plan i, .charge i, .free i],
    [.reserve i store req, .plan i, .charge i]]

/-- The steps of a reservation, back to back, are `try_reserve_env`. -/
theorem run_reserve (maxEnvs : Option ℕ) (s : State σ ι α) {i : ι}
    (hfree : (s.callers i).free = true) (store : σ) (req : RequestedHeap) :
    ∃ as ∈ reservation i store req, run (step maxEnvs) s as =
      some ({ s with budget := (s.budget.tryReserveEnv req maxEnvs).2 }.setCaller i
        (match (s.budget.tryReserveEnv req maxEnvs).1 with
          | .error e => .rejected e
          | .ok r => .pending store r)) := by
  unfold ResourceBudget.tryReserveEnv
  cases hacq : s.budget.tryAcquireIsolate maxEnvs with | mk acquired b =>
  cases acquired with
  | false =>
    refine ⟨[.reserve i store req], by simp [reservation], ?_⟩
    simp [run, step, hfree, hacq]
  | true =>
    cases hplan : b.planHeapReservation req with
    | none =>
      refine ⟨[.reserve i store req, .plan i, .free i], by simp [reservation], ?_⟩
      simp [run, step, hfree, hacq, hplan, State.setCaller]
    | some r =>
      cases hc : b.tryCharge .v8HeapReserved r.ceilingBytes with | mk res b' =>
      cases res with
      | error e =>
        refine ⟨[.reserve i store req, .plan i, .charge i, .free i], by simp [reservation], ?_⟩
        simp [run, step, hfree, hacq, hplan, hc, State.setCaller]
      | ok u =>
        refine ⟨[.reserve i store req, .plan i, .charge i], by simp [reservation], ?_⟩
        simp [run, step, hfree, hacq, hplan, hc, State.setCaller]

/-- The last two steps of an abort or a release are `release_env`. -/
theorem run_release (maxEnvs : Option ℕ) (s : State σ ι α) {i : ι} {ceiling : ℕ}
    (hp : s.callers i = .uncharging ceiling) :
    run (step maxEnvs) s [.uncharge i, .free i] =
      some ({ s with budget := s.budget.releaseEnv ceiling }.setCaller i .idle) := by
  simp [run, step, hp, ResourceBudget.releaseEnv, State.setCaller]

end Machine

/-! ## What tables and callers hold -/

def phaseBytes {σ : Type} : Phase σ → ℕ
  | .pending _ r => r.ceilingBytes
  | .releasing granted ceiling => granted + ceiling
  | .uncharging ceiling => ceiling
  | _ => 0

def phaseSlots {σ : Type} : Phase σ → ℕ
  | .idle | .rejected _ => 0
  | _ => 1

/-- What a phase holds: bytes of the heap pool, and slots. -/
def Phase.Holds {σ : Type} (phase : Phase σ) (bytes slots : ℕ) : Prop :=
  phaseBytes phase = bytes ∧ phaseSlots phase = slots

theorem Phase.free_holds {σ : Type} {phase : Phase σ} (h : phase.free = true) :
    phase.Holds 0 0 := by
  cases phase <;> first | exact ⟨rfl, rfl⟩ | cases h

section Holdings

variable {σ ι α : Type} [Fintype σ] [Fintype ι]

/-- `ceiling + granted`, over the committed envs of every store, and the ceilings of the
    pending reservations and of the releases under way. -/
def State.heapBytes (s : State σ ι α) : ℕ :=
  tally NapiEnv.heapBytes s.stores + tally phaseBytes s.callers

/-- The committed envs, the pending reservations and the calls that hold a slot. -/
def State.slots (s : State σ ι α) : ℕ :=
  tally NapiEnv.slots s.stores + tally phaseSlots s.callers

/-- A reservation under a limited budget charges something. -/
def PhaseOk : Phase σ → Prop
  | .charging _ r | .pending _ r => 0 < r.ceilingBytes
  | _ => True

variable [NapiMemoryAccountant α]

/-- The counters against what is held: `bytes` of the heap pool and `slots`, whoever
    holds them. -/
structure Counted (maxEnvs : Option ℕ) (b : ResourceBudget α) (others : Pool → ℕ)
    (bytes slots : ℕ) : Prop where
  settled : b.Settled
  pool : ∀ p, b.poolCounter p = others p + if p = .v8HeapReserved then bytes else 0
  noOthers : others .v8HeapReserved = 0
  live : b.liveIsolates = slots % 2 ^ 64
  cap : ∀ m, maxEnvs = some m → slots ≤ m

/-- The invariant: the counters show what tables and callers hold, every reservation
    charges something, no table holds an id that is still to come, and every env in a
    table is one that was committed and not released. -/
structure Inv (maxEnvs : Option ℕ) (s : State σ ι α) : Prop
    extends Counted maxEnvs s.budget s.others s.heapBytes s.slots where
  ids : ∀ st, ∀ id ∈ (s.stores st).envHeapCharges, id ≤ s.registry.nextNativeId
  paid : ∀ st id h, (s.stores st).envHeapCharges.lookup id = some h → 0 < h.ceiling
  phases : ∀ i, PhaseOk (s.callers i)
  unreleased : ∀ st, ∀ id ∈ (s.stores st).envHeapCharges, (st, id) ∈ s.unreleased

variable {maxEnvs : Option ℕ}
variable {s : State σ ι α}

theorem Inv.heap (h : Inv maxEnvs s) :
    s.budget.v8HeapReserved = s.heapBytes := by
  have := h.pool .v8HeapReserved
  rw [h.noOthers, if_pos rfl, Nat.zero_add] at this
  exact this

theorem Inv.heapBytes_lt (h : Inv maxEnvs s) : s.heapBytes < 2 ^ 64 := by
  have h₁ := h.settled.pool_le .v8HeapReserved
  have h₂ := h.settled.charged_lt
  rw [← h.heap]
  exact Nat.lt_of_le_of_lt h₁ h₂

/-! ## One step -/

variable [DecidableEq σ] [DecidableEq ι]

variable {i : ι} {b : ResourceBudget α}

variable {store : σ}

section

omit [DecidableEq σ]

/-- **The caller rule.** A caller moves from its phase to `phase` and the budget to `b`:
    the invariant is kept if the heap pool moved by the difference of the bytes held, and
    the slot count by the difference of the slots. -/
theorem Inv.caller (h : Inv maxEnvs s) {phase : Phase σ} {bytes₀ slots₀ bytes₁ slots₁ : ℕ}
    (hbefore : (s.callers i).Holds bytes₀ slots₀) (hafter : phase.Holds bytes₁ slots₁)
    (hset : b.Settled)
    (hpool : ∀ p, b.poolCounter p + (if p = .v8HeapReserved then bytes₀ else 0) =
      s.budget.poolCounter p + if p = .v8HeapReserved then bytes₁ else 0)
    (hslots : ∀ n, n + slots₀ = s.slots + slots₁ →
      b.liveIsolates = n % 2 ^ 64 ∧ ∀ m, maxEnvs = some m → n ≤ m) (hphase : PhaseOk phase) :
    Inv maxEnvs ({ s with budget := b }.setCaller i phase) := by
  obtain ⟨rfl, rfl⟩ := hbefore
  obtain ⟨rfl, rfl⟩ := hafter
  have hbytes : ({ s with budget := b }.setCaller i phase).heapBytes + phaseBytes (s.callers i) =
      s.heapBytes + phaseBytes phase := by
    have := tally_update phaseBytes s.callers i phase
    simp only [State.heapBytes, State.setCaller]
    omega
  have hcount : ({ s with budget := b }.setCaller i phase).slots + phaseSlots (s.callers i) =
      s.slots + phaseSlots phase := by
    have := tally_update phaseSlots s.callers i phase
    simp only [State.slots, State.setCaller]
    omega
  obtain ⟨hlive, hcap⟩ := hslots _ hcount
  refine ⟨⟨hset, fun p => ?_, h.noOthers, hlive, hcap⟩, h.ids, h.paid, fun j => ?_,
    h.unreleased⟩
  · have hp := hpool p
    have hs := h.pool p
    simp only [State.setCaller] at hbytes ⊢
    by_cases hheap : p = .v8HeapReserved
    · simp only [hheap, if_true] at hp hs ⊢
      omega
    · simp only [hheap, if_false] at hp hs ⊢
      omega
  · simp only [State.setCaller]
    by_cases hj : j = i
    · subst hj; rwa [update_self]
    · rw [update_of_ne hj]; exact h.phases j

/-- The caller rule for the moves that keep the slot, or its absence. -/
theorem Inv.caller_keeping (h : Inv maxEnvs s) {phase : Phase σ} {bytes₀ bytes₁ slots : ℕ}
    (hbefore : (s.callers i).Holds bytes₀ slots) (hafter : phase.Holds bytes₁ slots)
    (hset : b.Settled) (hlive : b.liveIsolates = s.budget.liveIsolates)
    (hpool : ∀ p, b.poolCounter p + (if p = .v8HeapReserved then bytes₀ else 0) =
      s.budget.poolCounter p + if p = .v8HeapReserved then bytes₁ else 0) (hphase : PhaseOk phase) :
    Inv maxEnvs ({ s with budget := b }.setCaller i phase) := by
  refine h.caller hbefore hafter hset hpool (fun n hn => ?_) hphase
  obtain rfl : n = s.slots := by omega
  exact ⟨hlive.trans h.live, h.cap⟩

theorem Inv.step_reserve (h : Inv maxEnvs s) (hmax : ∀ m, maxEnvs = some m → m < 2 ^ 64)
    (hfree : (s.callers i).free = true) {acquired : Bool} (store : σ) (requested : RequestedHeap)
    (ha : s.budget.tryAcquireIsolate maxEnvs = (acquired, b)) :
    Inv maxEnvs ({ s with budget := b }.setCaller i
      (if acquired then .planning store requested else .rejected .tooManyEnvs)) := by
  have hbefore := Phase.free_holds hfree
  have hplanning : (Phase.planning store requested).Holds 0 1 := ⟨rfl, rfl⟩
  have hlive := h.live
  unfold ResourceBudget.tryAcquireIsolate at ha
  split at ha
  · obtain ⟨rfl, rfl⟩ := Prod.mk.inj ha
    refine h.caller hbefore hplanning h.settled.setLive (fun p => ?_)
      (fun n hn => ⟨?_, fun m hm => by simp at hm⟩) trivial
    · simp
    · simp only [wrappingAdd, hlive]
      omega
  · rename_i max
    have hcap := h.cap max rfl
    have hlt := hmax max rfl
    split at ha
    · obtain ⟨rfl, rfl⟩ := Prod.mk.inj ha
      exact h.caller_keeping hbefore ⟨rfl, rfl⟩ h.settled rfl (fun p => rfl) trivial
    · obtain ⟨rfl, rfl⟩ := Prod.mk.inj ha
      refine h.caller hbefore hplanning h.settled.setLive (fun p => ?_)
        (fun n hn => ?_) trivial
      · simp
      · dsimp only
        refine ⟨by omega, fun m hm => ?_⟩
        cases hm
        omega

theorem Inv.step_plan (h : Inv maxEnvs s) {requested : RequestedHeap}
    {reservation : Option HeapReservation} (hp : s.callers i = .planning store requested)
    (hplan : s.budget.planHeapReservation requested = reservation) :
    Inv maxEnvs (s.setCaller i
      (match reservation with
        | none => .refused
        | some r => .charging store r)) := by
  have hbefore : (s.callers i).Holds 0 1 := by rw [hp]; exact ⟨rfl, rfl⟩
  cases reservation with
  | none => exact h.caller_keeping hbefore ⟨rfl, rfl⟩ h.settled rfl (fun _ => rfl) trivial
  | some r =>
    obtain ⟨old, -, hold, hceil, -⟩ :=
      ResourceBudget.planHeapReservation_eq_some h.settled.isUnlimited hplan
    refine h.caller_keeping hbefore ⟨rfl, rfl⟩ h.settled rfl (fun _ => rfl) ?_
    simp only [PhaseOk, hceil]
    omega

theorem Inv.step_free (h : Inv maxEnvs s) {phase : Phase σ} (hbefore : (s.callers i).Holds 0 1)
    (hafter : phase.Holds 0 0) (hphase : PhaseOk phase) :
    Inv maxEnvs ({ s with budget := s.budget.releaseIsolate }.setCaller i phase) := by
  have hlive := h.live
  refine h.caller hbefore hafter h.settled.setLive (fun p => ?_) (fun n hn => ⟨?_, fun m hm => ?_⟩)
    hphase
  · simp [ResourceBudget.releaseIsolate]
  · simp only [ResourceBudget.releaseIsolate, wrappingSub, hlive]
    omega
  · have := h.cap m hm
    omega

end

omit [NapiMemoryAccountant α] in
/-- One store and one caller change: one summand of each tally does. -/
theorem State.holdings_update (s : State σ ι α) (store : σ) (charges : NapiEnv) (i : ι)
    (phase : Phase σ) :
    tally NapiEnv.heapBytes (update s.stores store charges) +
        tally phaseBytes (update s.callers i phase) +
        ((s.stores store).heapBytes + phaseBytes (s.callers i)) =
      s.heapBytes + (charges.heapBytes + phaseBytes phase) ∧
    tally NapiEnv.slots (update s.stores store charges) +
        tally phaseSlots (update s.callers i phase) +
        ((s.stores store).slots + phaseSlots (s.callers i)) =
      s.slots + (charges.slots + phaseSlots phase) := by
  have h₁ := tally_update NapiEnv.heapBytes s.stores store charges
  have h₂ := tally_update phaseBytes s.callers i phase
  have h₃ := tally_update NapiEnv.slots s.stores store charges
  have h₄ := tally_update phaseSlots s.callers i phase
  simp only [State.heapBytes, State.slots]
  omega

variable {charges : NapiEnv} {registry : EnvRegistry}

/-- **The transfer rule.** What a caller holds and a store's table holds may change hands:
    if together they hold as much as before, every counter still fits. -/
theorem Inv.transfer (h : Inv maxEnvs s) {phase : Phase σ} {unreleased : List (σ × ℕ)}
    (hbytes : charges.heapBytes + phaseBytes phase =
      (s.stores store).heapBytes + phaseBytes (s.callers i))
    (hslots : charges.slots + phaseSlots phase =
      (s.stores store).slots + phaseSlots (s.callers i)) (hphase : PhaseOk phase)
    (hids : s.registry.nextNativeId ≤ registry.nextNativeId ∧
      ∀ id ∈ charges.envHeapCharges, id ≤ registry.nextNativeId)
    (hpaid : ∀ id hd, charges.envHeapCharges.lookup id = some hd → 0 < hd.ceiling)
    (hkeep : ∀ st id, st ≠ store → (st, id) ∈ s.unreleased → (st, id) ∈ unreleased)
    (hun : ∀ id ∈ charges.envHeapCharges, (store, id) ∈ unreleased) :
    Inv maxEnvs { s.setCaller i phase with
      registry, stores := update s.stores store charges, unreleased } := by
  obtain ⟨hb, hs⟩ := s.holdings_update store charges i phase
  refine ⟨?_, fun st id hmem => ?_, fun st id hd hl => ?_, fun j => ?_, fun st id hmem => ?_⟩
  · simp only [State.heapBytes, State.slots, State.setCaller]
    rw [show tally NapiEnv.heapBytes (update s.stores store charges) +
        tally phaseBytes (update s.callers i phase) = s.heapBytes by omega,
      show tally NapiEnv.slots (update s.stores store charges) +
        tally phaseSlots (update s.callers i phase) = s.slots by omega]
    exact h.toCounted
  · dsimp only at hmem ⊢
    by_cases hst : st = store
    · subst hst
      rw [update_self] at hmem
      exact hids.2 id hmem
    · rw [update_of_ne hst] at hmem
      exact (h.ids st id hmem).trans hids.1
  · dsimp only at hl
    by_cases hst : st = store
    · subst hst
      rw [update_self] at hl
      exact hpaid id hd hl
    · rw [update_of_ne hst] at hl
      exact h.paid st id hd hl
  · simp only [State.setCaller]
    by_cases hj : j = i
    · subst hj; rwa [update_self]
    · rw [update_of_ne hj]; exact h.phases j
  · dsimp only at hmem ⊢
    by_cases hst : st = store
    · subst hst
      rw [update_self] at hmem
      exact hun id hmem
    · rw [update_of_ne hst] at hmem
      exact hkeep st id hst (h.unreleased st id hmem)

variable {envId : ℕ}

/-- A commit moves a reservation from its caller to a table. -/
theorem Inv.step_commit (h : Inv maxEnvs s) {r : HeapReservation} {env : ℕ}
    {calls : List BridgeCall} (hp : s.callers i = .pending store r)
    (hc : commitIsolate s.budget s.hostStopped s.registry (s.stores store) env r =
      some (envId, registry, charges, calls)) :
    Inv maxEnvs { s.setCaller i .idle with
      registry
      stores := update s.stores store charges
      unreleased := (store, envId) :: s.unreleased } := by
  obtain ⟨hid, hnext, hbytes, hslots, t, hentry⟩ := commitIsolate_eq_some (h.ids store) hc
  have hpos := h.phases i
  rw [hp] at hpos
  have hhold : (s.callers i).Holds r.ceilingBytes 1 := by rw [hp]; exact ⟨rfl, rfl⟩
  have hmem : ∀ id, id ∈ charges.envHeapCharges →
      id = envId ∨ id ∈ (s.stores store).envHeapCharges := fun id hid => by
    rw [hentry, AList.mem_insert] at hid
    exact hid
  refine h.transfer ?_ ?_ trivial ⟨by omega, fun id hid' => ?_⟩ (fun id hd hl => ?_)
    (fun _ _ _ hun => List.mem_cons_of_mem _ hun) (fun id hid' => ?_)
  · rw [hbytes, hhold.1]; rfl
  · rw [hslots, hhold.2]; rfl
  · rcases hmem id hid' with rfl | hold
    · omega
    · have := h.ids store id hold
      omega
  · rw [hentry] at hl
    rcases Table.lookup_insert_iff.mp hl with ⟨rfl, rfl⟩ | ⟨_, hl⟩
    · exact hpos
    · exact h.paid store id hd hl
  · rcases hmem id hid' with rfl | hold
    · exact List.mem_cons_self
    · exact List.mem_cons_of_mem _ (h.unreleased store id hold)

/-- A finished release moves an env from its table to the caller that releases it. -/
theorem Inv.step_finish (h : Inv maxEnvs s) {env : ℕ} {status : ℤ} {calls : List BridgeCall}
    {back : Option (ℕ × ℕ)} {phase : Phase σ} (hfree : (s.callers i).free = true)
    (hstatus : status ≠ releaseRefused)
    (hf : finishUnregisterNapiEnv s.registry (s.stores store) envId env status =
      (registry, charges, calls, back))
    (hafter : phase.Holds (handedOver back) (if back.isSome then 1 else 0))
    (hphase : PhaseOk phase) :
    Inv maxEnvs { s.setCaller i phase with
      registry
      stores := update s.stores store charges
      unreleased := s.unreleased.filter (· ≠ (store, envId)) } := by
  obtain ⟨hnext, hentry, hbytes, hslots⟩ := finishUnregisterNapiEnv_charges hstatus hf
  have hhold := Phase.free_holds hfree
  refine h.transfer ?_ ?_ hphase ⟨by omega, fun id hid => ?_⟩ (fun id hd hl => ?_)
    (fun st id hst hun => ?_) (fun id hid => ?_)
  · rw [hafter.1, hhold.1]; exact hbytes
  · rw [hafter.2, hhold.2]; exact hslots
  · rw [hentry, AList.mem_erase] at hid
    have := h.ids store id hid.2
    omega
  · rw [hentry] at hl
    exact h.paid store id hd (Table.lookup_erase_iff.mp hl).2
  · simpa [hst] using hun
  · rw [hentry, AList.mem_erase] at hid
    simpa [hid.1] using h.unreleased store id hid.2

omit [DecidableEq ι] in
/-- A grant of `n` bytes to an env that has its tracker; `n = 0` is a refusal. -/
theorem Inv.regrant (h : Inv maxEnvs s) {n : ℕ} {hd hd' : EnvHeapChargeHandle} {hostStopped : Bool}
    (hl : (s.stores store).envHeapCharges.lookup envId = some hd)
    (hceil : hd'.ceiling = hd.ceiling) (hgranted : hd'.granted = hd.granted + n) (hset : b.Settled)
    (hlive : b.liveIsolates = s.budget.liveIsolates) (hpool : ∀ p, b.poolCounter p =
      s.budget.poolCounter p + if p = .v8HeapReserved then n else 0) :
    Inv maxEnvs { s with
      budget := b
      hostStopped
      stores := update s.stores store { s.stores store with
        envHeapCharges := (s.stores store).envHeapCharges.insert envId hd' } } := by
  have hentry := Table.total_insert_of_lookup (fun _ hd => hd.ceiling + hd.granted) hl hd'
  have hcount := Table.total_insert_of_lookup (fun _ (_ : EnvHeapChargeHandle) => 1) hl hd'
  have hb := tally_update NapiEnv.heapBytes s.stores store { s.stores store with
    envHeapCharges := (s.stores store).envHeapCharges.insert envId hd' }
  have hs := tally_update NapiEnv.slots s.stores store { s.stores store with
    envHeapCharges := (s.stores store).envHeapCharges.insert envId hd' }
  simp only [NapiEnv.heapBytes, NapiEnv.slots] at hb hs
  have hmem : envId ∈ (s.stores store).envHeapCharges :=
    AList.lookup_isSome.mp (by rw [hl]; rfl)
  refine ⟨⟨hset, fun p => ?_, h.noOthers, ?_, fun m hm => ?_⟩, fun st id hid => ?_,
    fun st id hd₁ hl₁ => ?_, h.phases, fun st id hid => ?_⟩
  · rw [hpool p, h.pool p]
    by_cases hheap : p = .v8HeapReserved
    · simp only [hheap, if_true, State.heapBytes] at hb ⊢
      omega
    · simp [hheap]
  · have hold := h.live
    simp only [State.slots] at hs hold ⊢
    omega
  · have hold := h.cap m hm
    simp only [State.slots] at hs hold ⊢
    omega
  · dsimp only at hid ⊢
    by_cases hst : st = store
    · subst hst
      rw [update_self, AList.mem_insert] at hid
      rcases hid with rfl | hid
      · exact h.ids st id hmem
      · exact h.ids st id hid
    · rw [update_of_ne hst] at hid
      exact h.ids st id hid
  · dsimp only at hl₁
    by_cases hst : st = store
    · subst hst
      rw [update_self] at hl₁
      rcases Table.lookup_insert_iff.mp hl₁ with ⟨rfl, rfl⟩ | ⟨_, hl₁⟩
      · rw [hceil]
        exact h.paid st id hd hl
      · exact h.paid st id hd₁ hl₁
    · rw [update_of_ne hst] at hl₁
      exact h.paid st id hd₁ hl₁
  · dsimp only at hid ⊢
    by_cases hst : st = store
    · subst hst
      rw [update_self, AList.mem_insert] at hid
      rcases hid with rfl | hid
      · exact h.unreleased st id hmem
      · exact h.unreleased st id hid
    · rw [update_of_ne hst] at hid
      exact h.unreleased st id hid

omit [DecidableEq ι] [DecidableEq σ] in
/-- What an env has been granted is part of the heap pool. -/
theorem Inv.granted_le (h : Inv maxEnvs s) {hd : EnvHeapChargeHandle}
    (hl : (s.stores store).envHeapCharges.lookup envId = some hd) :
    hd.granted ≤ s.budget.poolCounter .v8HeapReserved := by
  have h₁ := Table.le_total (fun _ hd => hd.ceiling + hd.granted) hl
  have h₂ := held_le_tally NapiEnv.heapBytes s.stores store
  have h₃ := h.pool .v8HeapReserved
  rw [if_pos rfl, State.heapBytes] at h₃
  simp only [NapiEnv.heapBytes] at h₂ h₃
  omega

section Lawful

variable [LawfulNapiMemoryAccountant α]

variable {s : State σ ι α}

omit [DecidableEq σ] in
theorem Inv.step_charge (h : Inv maxEnvs s) {i : ι} {store : σ} {r : HeapReservation}
    {res : Except OverBudget Unit} {b : ResourceBudget α} (hp : s.callers i = .charging store r)
    (hc : s.budget.tryCharge .v8HeapReserved r.ceilingBytes = (res, b)) :
    Inv maxEnvs ({ s with budget := b }.setCaller i
      (match res with
        | .error _ => .refused
        | .ok () => .pending store r)) := by
  have hbefore : (s.callers i).Holds 0 1 := by rw [hp]; exact ⟨rfl, rfl⟩
  cases res with
  | error e =>
    have rf := h.settled.tryCharge_error hc
    have hafter : (Phase.refused : Phase σ).Holds 0 1 := ⟨rfl, rfl⟩
    exact h.caller_keeping hbefore hafter rf.settled rf.liveIsolates
      (fun p => by rw [rf.pool p]) trivial
  | ok u =>
    have ch := h.settled.tryCharge_ok hc
    have hpos := h.phases i
    rw [hp] at hpos
    have hafter : (Phase.pending store r).Holds r.ceilingBytes 1 := ⟨rfl, rfl⟩
    refine h.caller_keeping hbefore hafter ch.settled ch.liveIsolates (fun p => ?_) hpos
    simp [ch.pool p]

omit [DecidableEq σ] in
/-- Giving back part of what a release holds. -/
theorem Inv.step_uncharge (h : Inv maxEnvs s) {i : ι} {phase : Phase σ} {bytes n : ℕ}
    (hbefore : (s.callers i).Holds (n + bytes) 1) (hafter : phase.Holds bytes 1)
    (hphase : PhaseOk phase) :
    Inv maxEnvs ({ s with budget := s.budget.uncharge .v8HeapReserved n }.setCaller i phase) := by
  have hle : n ≤ s.budget.poolCounter .v8HeapReserved := by
    have h₁ := held_le_tally phaseBytes s.callers i
    have h₂ := h.pool .v8HeapReserved
    rw [if_pos rfl, State.heapBytes] at h₂
    rw [hbefore.1] at h₁
    omega
  have un := h.settled.uncharge hle
  refine h.caller_keeping hbefore hafter un.settled un.liveIsolates (fun p => ?_) hphase
  have hp := un.pool p
  by_cases hheap : p = .v8HeapReserved
  · simp only [hheap, if_true] at hp ⊢
    omega
  · simp only [hheap, if_false] at hp ⊢
    omega

omit [DecidableEq ι] in
theorem Inv.step_nearHeapLimit (h : Inv maxEnvs s) {store : σ} {envId limit ceiling : ℕ}
    {tracker : EnvHeapCharge} (hl : (s.stores store).envHeapCharges.lookup envId =
      some { ceiling, tracker := some tracker }) :
    Inv maxEnvs { s with
      budget := (napiHostNearHeapLimitGrant s.budget s.hostStopped (some tracker) limit).budget
      hostStopped :=
        (napiHostNearHeapLimitGrant s.budget s.hostStopped (some tracker) limit).hostStopped
      stores := update s.stores store { s.stores store with
        envHeapCharges := (s.stores store).envHeapCharges.insert envId
          { ceiling
            tracker :=
              (napiHostNearHeapLimitGrant s.budget s.hostStopped (some tracker) limit).data } } } := by
  have hle := h.granted_le hl
  cases hc : s.budget.tryCharge .v8HeapReserved defaultHeapGrowStep with | mk res b =>
  cases res with
  | ok u =>
    have ch := h.settled.tryCharge_ok hc
    have hpool := ch.pool .v8HeapReserved
    have hin := ch.settled.pool_le .v8HeapReserved
    have hlt := ch.settled.charged_lt
    rw [if_pos rfl] at hpool
    have hexact : wrappingAdd 64 tracker.granted defaultHeapGrowStep =
        tracker.granted + defaultHeapGrowStep := wrappingAdd_of_lt (by
      simp only [EnvHeapChargeHandle.granted] at hle
      omega)
    rw [grant_of_ok hc, hexact]
    exact h.regrant hl rfl rfl ch.settled ch.liveIsolates ch.pool
  | error e =>
    have rf := h.settled.tryCharge_error hc
    rw [grant_of_error hc]
    refine h.regrant hl rfl (Nat.add_zero _).symm rf.settled rf.liveIsolates fun p => ?_
    rw [rf.pool p, ite_self, Nat.add_zero]

omit [DecidableEq ι] [DecidableEq σ] in
theorem Inv.step_other (h : Inv maxEnvs s) {a : OtherAct α} {b : ResourceBudget α}
    {others : Pool → ℕ} (htouch : touchesHeapPool a = false)
    (ho : otherStep s.budget s.others a = some (b, others)) :
    Inv maxEnvs { s with budget := b, others } := by
  have u := h.settled.otherStep h.pool ho
  have hnone : others .v8HeapReserved = 0 := by
    rw [← h.noOthers]
    cases a with
    | tryCharge p n =>
      have hp : Pool.v8HeapReserved ≠ p := fun he => by simp [touchesHeapPool, ← he] at htouch
      simp only [otherStep] at ho
      split at ho
      · obtain ⟨-, rfl⟩ := Prod.mk.inj (Option.some.inj ho)
        exact update_of_ne hp _ _
      · obtain ⟨-, rfl⟩ := Prod.mk.inj (Option.some.inj ho)
        rfl
    | uncharge p n =>
      have hp : Pool.v8HeapReserved ≠ p := fun he => by simp [touchesHeapPool, ← he] at htouch
      simp only [otherStep] at ho
      split at ho
      · obtain ⟨-, rfl⟩ := Prod.mk.inj (Option.some.inj ho)
        exact update_of_ne hp _ _
      · cases ho
    | account a' =>
      simp only [otherStep] at ho
      split at ho
      · cases ho
      · split at ho
        · obtain ⟨-, rfl⟩ := Prod.mk.inj (Option.some.inj ho)
          rfl
        · cases ho
  exact ⟨⟨u.settled, u.pool, hnone, u.liveIsolates.trans h.live, h.cap⟩, h.ids, h.paid, h.phases,
    h.unreleased⟩

theorem Inv.step {s' : State σ ι α} {a : Act σ ι α} (hmax : ∀ m, maxEnvs = some m → m < 2 ^ 64)
    (hs : step maxEnvs s a = some s') (h : Inv maxEnvs s) : Inv maxEnvs s' := by
  cases a with
  | reserve i store requested =>
    simp only [Env.step] at hs
    split at hs
    · rename_i hfree
      split at hs <;> rename_i b ha <;> cases hs
      · exact h.step_reserve hmax hfree store requested ha
      · exact h.step_reserve hmax hfree store requested ha
    · cases hs
  | plan i =>
    simp only [Env.step] at hs
    split at hs
    · rename_i store requested hp
      split at hs <;> rename_i hplan <;> cases hs
      · exact h.step_plan hp hplan
      · exact h.step_plan hp hplan
    · cases hs
  | charge i =>
    simp only [Env.step] at hs
    split at hs
    · rename_i store r hp
      split at hs <;> rename_i hc <;> cases hs
      · exact h.step_charge hp hc
      · exact h.step_charge hp hc
    · cases hs
  | commit i env =>
    simp only [Env.step] at hs
    split at hs
    · rename_i store r hp
      simp only [Option.map_eq_some_iff, Prod.exists] at hs
      obtain ⟨envId, registry, charges, calls, hc, rfl⟩ := hs
      exact h.step_commit hp hc
    · cases hs
  | abort i =>
    simp only [Env.step] at hs
    split at hs
    · rename_i store r hp
      cases hs
      have hbefore : (s.callers i).Holds r.ceilingBytes 1 := by rw [hp]; exact ⟨rfl, rfl⟩
      exact h.caller_keeping hbefore ⟨rfl, rfl⟩ h.settled rfl (fun _ => rfl) trivial
    · cases hs
  | nearHeapLimit store envId limit =>
    simp only [Env.step] at hs
    split at hs
    · rename_i ceiling tracker hl
      cases hs
      exact h.step_nearHeapLimit hl
    · cases hs
  | finish i store envId env status =>
    simp only [Env.step] at hs
    split at hs
    · rename_i hfree
      by_cases hstatus : status = releaseRefused
      · cases hs
        simpa [finishUnregisterNapiEnv, hstatus, State.setCaller] using h
      · rw [if_neg hstatus] at hs
        cases hf : finishUnregisterNapiEnv s.registry (s.stores store) envId env status with
        | mk registry rest =>
        obtain ⟨charges, calls, back⟩ := rest
        rw [hf] at hs
        cases hs
        cases back with
        | none =>
          exact h.step_finish hfree hstatus hf (Phase.free_holds hfree) (h.phases i)
        | some gc => exact h.step_finish hfree hstatus hf ⟨rfl, rfl⟩ trivial
    · cases hs
  | uncharge i =>
    simp only [Env.step] at hs
    split at hs
    · rename_i granted ceiling hp
      cases hs
      have hbefore : (s.callers i).Holds (granted + ceiling) 1 := by rw [hp]; exact ⟨rfl, rfl⟩
      exact h.step_uncharge hbefore ⟨rfl, rfl⟩ trivial
    · rename_i ceiling hp
      cases hs
      have hbefore : (s.callers i).Holds (ceiling + 0) 1 := by rw [hp]; exact ⟨rfl, rfl⟩
      exact h.step_uncharge hbefore ⟨rfl, rfl⟩ trivial
    · cases hs
  | free i =>
    simp only [Env.step] at hs
    split at hs
    · rename_i hp
      cases hs
      exact h.step_free (by rw [hp]; exact ⟨rfl, rfl⟩) ⟨rfl, rfl⟩ trivial
    · rename_i hp
      cases hs
      exact h.step_free (by rw [hp]; exact ⟨rfl, rfl⟩) ⟨rfl, rfl⟩ trivial
    · cases hs
  | hostStop =>
    cases hs
    exact ⟨h.toCounted, h.ids, h.paid, h.phases, h.unreleased⟩
  | other a =>
    simp only [Env.step] at hs
    split at hs
    · cases hs
    · rename_i htouch
      simp only [Option.map_eq_some_iff, Prod.exists] at hs
      obtain ⟨b, others, ho, rfl⟩ := hs
      exact h.step_other (by simpa using htouch) ho

end Lawful

/-! ## Whole runs -/

/-- A budget as an application starts with: limited, with nothing charged and no
    isolate. -/
structure Fresh (b : ResourceBudget α) : Prop where
  settled : b.Settled
  pool : ∀ p, b.poolCounter p = 0
  liveIsolates : b.liveIsolates = 0

omit [Fintype σ] [Fintype ι] [DecidableEq σ] [DecidableEq ι] in
theorem fresh_withMemoryLimit {n : ℕ} (h : n < Budget.unlimited) :
    Fresh (ResourceBudget.withMemoryLimit n : ResourceBudget α) where
  settled := ResourceBudget.settled_withMemoryLimit h
  pool p := by cases p <;> rfl
  liveIsolates := rfl

omit [DecidableEq σ] [DecidableEq ι] [NapiMemoryAccountant α] in
/-- Empty tables and free callers hold nothing. -/
theorem State.holdings_zero (hempty : ∀ st, (s.stores st).envHeapCharges = ∅)
    (hfree : ∀ i, (s.callers i).free = true) : s.heapBytes = 0 ∧ s.slots = 0 := by
  have h₁ : tally NapiEnv.heapBytes s.stores = 0 :=
    tally_eq_zero fun st => by rw [NapiEnv.heapBytes, hempty st, Table.total_empty]
  have h₂ : tally NapiEnv.slots s.stores = 0 :=
    tally_eq_zero fun st => by rw [NapiEnv.slots, hempty st, Table.total_empty]
  have h₃ : tally phaseBytes s.callers = 0 :=
    tally_eq_zero fun i => (Phase.free_holds (hfree i)).1
  have h₄ : tally phaseSlots s.callers = 0 :=
    tally_eq_zero fun i => (Phase.free_holds (hfree i)).2
  simp [State.heapBytes, State.slots, h₁, h₂, h₃, h₄]

omit [DecidableEq σ] [DecidableEq ι] in
theorem Inv.start (hb : Fresh b) :
    Inv maxEnvs ({ budget := b } : State σ ι α) := by
  obtain ⟨hbytes, hslots⟩ :=
    State.holdings_zero (s := ({ budget := b } : State σ ι α)) (fun _ => rfl) fun _ => rfl
  refine ⟨⟨hb.settled, fun p => ?_, rfl, ?_, fun m _ => ?_⟩, fun st id hid => ?_,
    fun st id hd hl => ?_, fun _ => trivial, fun st id hid => ?_⟩
  · simp [hb.pool p, hbytes]
  · simp [hb.liveIsolates, hslots]
  · simp [hslots]
  · exact absurd hid (AList.notMem_empty id)
  · exact absurd hl (by simp)
  · exact absurd hid (AList.notMem_empty id)

/-- No caller is inside a call: what is left is idle, or a reservation waiting for its
    commit or abort. -/
def BetweenCalls (s : State σ ι α) : Prop := ∀ i, (s.callers i).betweenCalls = true

section

omit [DecidableEq σ] [DecidableEq ι]

/-- Between calls every slot has a charged ceiling behind it. -/
theorem Inv.slots_le (h : Inv maxEnvs s) (hq : BetweenCalls s) :
    s.slots ≤ s.heapBytes := by
  refine Nat.add_le_add (tally_le_tally fun st => ?_) (tally_le_tally fun i => ?_)
  · refine Table.total_le_total fun id hd hl => ?_
    have := h.paid st id hd hl
    omega
  · have hq := hq i
    have hok := h.phases i
    cases hp : s.callers i with
    | idle => exact Nat.le_refl 0
    | rejected e => exact Nat.le_refl 0
    | pending store r => rw [hp] at hok; exact hok
    | _ => rw [hp] at hq; cases hq

theorem Inv.live_eq (h : Inv maxEnvs s) (hq : BetweenCalls s) :
    s.budget.liveIsolates = s.slots := by
  rw [h.live]
  exact Nat.mod_eq_of_lt (Nat.lt_of_le_of_lt (h.slots_le hq) h.heapBytes_lt)

/-- With every committed env released and no reservation waiting, nothing is held. -/
theorem Inv.released (h : Inv maxEnvs s) (hfree : ∀ i, (s.callers i).free = true)
    (hun : s.unreleased = []) : s.heapBytes = 0 ∧ s.slots = 0 := by
  have hempty : ∀ st, (s.stores st).envHeapCharges = ∅ := by
    intro st
    apply AList.ext
    refine List.eq_nil_iff_forall_not_mem.mpr fun e he => ?_
    have hmem : e.1 ∈ (s.stores st).envHeapCharges :=
      AList.lookup_isSome.mp (by rw [AList.mem_lookup_iff.mpr he]; rfl)
    have := h.unreleased st e.1 hmem
    rw [hun] at this
    cases this
  exact State.holdings_zero hempty hfree

theorem Inv.live_lt (h : Inv maxEnvs s) : s.budget.liveIsolates < 2 ^ 64 := by
  rw [h.live]
  exact Nat.mod_lt _ (by decide)

theorem Inv.live_le (h : Inv maxEnvs s) {m : ℕ} (hm : maxEnvs = some m) :
    s.budget.liveIsolates ≤ m := by
  rw [h.live]
  exact (Nat.mod_le _ _).trans (h.cap m hm)

end

variable [LawfulNapiMemoryAccountant α]

/-- **Isolates are accounted for exactly.** In every state of every interleaving of any
    number of callers over any number of stores: `v8_heap_reserved` is the ceilings and
    grants of the envs and reservations that hold them; `live_isolates` never exceeds
    `max_envs`, and between calls it is their number; a reservation rejected in that
    state changes neither counter, a refused release changes nothing at all, and once
    every committed env has been released both counters are zero. -/
theorem isolates_accounted {b : ResourceBudget α} (hb : Fresh b)
    (hmax : ∀ m, maxEnvs = some m → m < 2 ^ 64) {as : List (Act σ ι α)} {s : State σ ι α}
    (hr : run (Env.step maxEnvs) { budget := b } as = some s) :
    s.budget.v8HeapReserved = s.heapBytes ∧
    (BetweenCalls s → s.budget.liveIsolates = s.slots) ∧
    (∀ m, maxEnvs = some m → s.budget.liveIsolates ≤ m) ∧
    (∀ req e b', s.budget.tryReserveEnv req maxEnvs = (.error e, b') →
      b'.v8HeapReserved = s.budget.v8HeapReserved ∧
        b'.liveIsolates = s.budget.liveIsolates) ∧
    (∀ i store envId env s',
      Env.step maxEnvs s (.finish i store envId env releaseRefused) = some s' → s' = s) ∧
    ((∀ i, (s.callers i).free = true) → s.unreleased = [] →
      s.budget.v8HeapReserved = 0 ∧ s.budget.liveIsolates = 0) := by
  have h : Inv maxEnvs s :=
    Run.invariant (fun _ _ _ hs h => Inv.step hmax hs h) hr (Inv.start hb)
  refine ⟨h.heap, h.live_eq, fun m hm => h.live_le hm, ?_, ?_, ?_⟩
  · intro req e b' hrej
    obtain ⟨hpool, hlive⟩ := ResourceBudget.tryReserveEnv_error h.live_lt hrej
    exact ⟨hpool .v8HeapReserved, hlive⟩
  · intro i store envId env s' hs
    simp only [Env.step] at hs
    split at hs
    · cases hs
      simp [finishUnregisterNapiEnv, State.setCaller]
    · cases hs
  · intro hfree hun
    obtain ⟨hbytes, hslots⟩ := h.released hfree hun
    exact ⟨h.heap.trans hbytes, by rw [h.live, hslots, Nat.zero_mod]⟩

end Holdings

theorem unlimited_reserved : ∃ as ∈ reservation false false {}, ∃ s', run (step (some 1))
    ({ budget := .unlimited } : State Bool Bool Empty) as = some s' ∧
      s'.budget.liveIsolates = 1 := by
  obtain ⟨as, hmem, hrun⟩ := run_reserve (some 1)
    ({ budget := .unlimited } : State Bool Bool Empty) (i := false) rfl false {}
  exact ⟨as, hmem, _, hrun, rfl⟩

/-- Two stores under `max_envs = 1`: the first commits an env and is granted one step, the
    second is turned away, and a release on the wrong thread is refused. -/
def oneIsolate : List (Act Bool Bool Empty) :=
  [.reserve false false {}, .plan false, .charge false, .commit false 4096,
    .nearHeapLimit false 1 (64 * mib), .reserve true true {},
    .finish true false 1 4096 releaseRefused]

theorem oneIsolate_accounted :
    ∃ s, run (step (some 1)) { budget := ResourceBudget.withMemoryLimit (160 * mib) } oneIsolate =
        some s ∧
      s.budget.v8HeapReserved = s.heapBytes ∧ s.budget.liveIsolates ≤ 1 ∧
      s.heapBytes = 120 * mib := by
  have hshow : (run (step (some 1)) { budget := ResourceBudget.withMemoryLimit (160 * mib) }
      oneIsolate).map (·.budget.v8HeapReserved) = some (120 * mib) := by decide
  obtain ⟨s, hs, hheap⟩ := Option.map_eq_some_iff.mp hshow
  have hb : Fresh (ResourceBudget.withMemoryLimit (160 * mib) : ResourceBudget Empty) :=
    fresh_withMemoryLimit (by decide)
  have hmax : ∀ m, some 1 = some m → m < 2 ^ 64 := by
    rintro m ⟨⟩
    decide
  obtain ⟨hbytes, -, hlive, -⟩ := isolates_accounted hb hmax hs
  exact ⟨s, hs, hbytes, hlive 1 rfl, hbytes.symm.trans hheap⟩

end WasmerNapi.Env
