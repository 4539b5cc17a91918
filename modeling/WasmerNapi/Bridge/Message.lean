import WasmerNapi.Bridge.Basic
import WasmerNapi.Lib.Run
import WasmerNapi.Lib.Tally

/-!
# Messages between envs, through one table

A guest turns a value into a *message* — a provider object, serialized and owned by the
host — and hands the `u32` it gets for it to another env, which takes it or drops it. The
ids live in `g_message_handles`, one `HandleTable` for the process. A context is the
isolation boundary of `NapiRuntimeHooks` (*instantiate untrusted, unrelated guests from
separate contexts*), and the table knows nothing about it.

Every access of the table is under `g_mu`, and what a call does to the message it got out
of the table comes afterwards, so a call is a phase for each: other callers run in
between. This file follows the messages: `places_step` counts the places a message is in,
and from it comes `consumed_once`, which needs no condition because `Take` is what hands a
message over. A message can be lost, though: a store onto an id still in use overwrites
the message there (`accounted_step`), and ids come round after `2 ^ 32` stores.
`Bridge/Contexts.lean` asks whose messages they are.
-/

namespace WasmerNapi.Bridge.Message

open Function (update update_of_ne)
open Word Run

/-! ## The machine -/

/-- A provider message. The context that created it and a serial number there tell two
    messages apart; the host keeps neither. -/
structure Msg (γ ν : Type) where
  creator : γ
  serial : ℕ
  content : ν

def Msg.key {γ ν : Type} (m : Msg γ ν) : γ × ℕ := (m.creator, m.serial)

/-- What a guest gets back: a status, and on success the payload id or the value. -/
inductive Result (ν : Type) where
  | created (status : NapiStatus) (payload : Option ℕ)
  | took (status : NapiStatus) (value : Option ν)
  | dropped
  deriving DecidableEq, Repr

/-- Where a caller stands. `storing`, `engineTake` and `engineDrop` hold a message that is
    in no table; the last returns `result` afterwards. -/
inductive Phase (γ ν : Type) where
  | idle
  | storing (m : Msg γ ν)
  | taking (payload : ℕ) (env : Bool)
  | dropping (payload : ℕ) (result : Result ν)
  | engineTake (m : Msg γ ν)
  | engineDrop (m : Msg γ ν) (result : Result ν)

/-- The message a caller holds. -/
def Phase.held {γ ν : Type} : Phase γ ν → Option (Msg γ ν)
  | .storing m | .engineTake m | .engineDrop m _ => some m
  | _ => none

/-- The process: the table, the callers, how many messages each context has created; and,
    for the statements below, what each provider message was consumed by, and what each
    context has been told. -/
structure State (ι γ ν : Type) where
  table : HandleTable (Msg γ ν) := {}
  callers : ι → Phase γ ν := fun _ => .idle
  created : γ → ℕ := fun _ => 0
  consumed : List (Msg γ ν × γ) := []
  results : γ → List (Result ν) := fun _ => []

/-- A move of one caller: it starts a guest call, or makes the next access of the one it
    is in. `engine` resolves what env, value and provider say: to a `create`, an error
    status or the serialized value; to an access, the status of the provider's take and
    whether the env has room for one more value. -/
inductive Move (ν : Type) where
  | create (payloadOut : Bool) (engine : Except NapiStatus ν)
  | take (payload : ℕ) (resultOut env : Bool)
  | drop (payload : ℕ)
  | access (status : NapiStatus) (room : Bool)
  deriving DecidableEq

structure Act (ι ν : Type) where
  caller : ι
  move : Move ν
  deriving DecidableEq

section

variable {ι γ ν : Type} [DecidableEq ι] [DecidableEq γ] (ctx : ι → γ)

namespace State

def setCaller (s : State ι γ ν) (i : ι) (phase : Phase γ ν) : State ι γ ν :=
  { s with callers := update s.callers i phase }

/-- The call of `i` returns. -/
def finish (s : State ι γ ν) (i : ι) (r : Result ν) : State ι γ ν :=
  { s.setCaller i .idle with
    results := update s.results (ctx i) (s.results (ctx i) ++ [r]) }

/-- The provider's take or drop of `m`, called by `i`. -/
def consume (s : State ι γ ν) (i : ι) (m : Msg γ ν) : State ι γ ν :=
  { s with consumed := s.consumed ++ [(m, ctx i)] }

end State

/-- Starting a call: `guest_unofficial_napi_message_create`, `_take` and `_drop` up to the
    first access of the table. A take with nowhere to put its result is a drop. -/
def start (s : State ι γ ν) (i : ι) : Move ν → Option (State ι γ ν)
  | .create payloadOut engine =>
    if !payloadOut then some (s.finish ctx i (.created .invalidArg none))
    else
      match engine with
      | .error status => some (s.finish ctx i (.created status none))
      | .ok content =>
        some ({ s with created := update s.created (ctx i) (s.created (ctx i) + 1) }.setCaller
          i (.storing ⟨ctx i, s.created (ctx i), content⟩))
  | .take payload resultOut env =>
    if payload = 0 then some (s.finish ctx i (.took .invalidArg none))
    else if !resultOut then some (s.setCaller i (.dropping payload (.took .invalidArg none)))
    else some (s.setCaller i (.taking payload env))
  | .drop payload => some (s.setCaller i (.dropping payload .dropped))
  | .access _ _ => none

/-- The next access of the call `i` is in: `g_message_handles` under `g_mu`, or the
    provider. -/
def access (s : State ι γ ν) (i : ι) (status : NapiStatus) (room : Bool) : Option (State ι γ ν) :=
  match s.callers i with
  | .idle => none
  | .storing m =>
    let (id, table) := s.table.store (some m)
    if id = 0 then
      some ({ s with table }.setCaller i (.engineDrop m (.created .genericFailure none)))
    else some ({ s with table }.finish ctx i (.created .ok (some id)))
  | .taking payload env =>
    match s.table.take payload with
    | (none, _) => some (s.finish ctx i (.took .invalidArg none))
    | (some m, table) =>
      if env then some ({ s with table }.setCaller i (.engineTake m))
      else some ({ s with table }.setCaller i (.engineDrop m (.took .invalidArg none)))
  | .dropping payload result =>
    match s.table.take payload with
    | (none, _) => some (s.finish ctx i result)
    | (some m, table) => some ({ s with table }.setCaller i (.engineDrop m result))
  | .engineTake m =>
    -- The provider frees the message whatever it returns.
    if status ≠ .ok then some ((s.consume ctx i m).finish ctx i (.took status none))
    else if !room then some ((s.consume ctx i m).finish ctx i (.took .genericFailure none))
    else some ((s.consume ctx i m).finish ctx i (.took .ok (some m.content)))
  | .engineDrop m result => some ((s.consume ctx i m).finish ctx i result)

def step (s : State ι γ ν) (a : Act ι ν) : Option (State ι γ ν) :=
  match a.move with
  | .access status room => access ctx s a.caller status room
  | move =>
    match s.callers a.caller with
    | .idle => start ctx s a.caller move
    | _ => none

/-! ## What one move does

The five things a move can be, for the statements that only ask where messages are. -/

/-- The id a caller is about to take out of the table. -/
def Phase.payload : Phase γ ν → Option ℕ
  | .taking payload _ | .dropping payload _ => some payload
  | _ => none

/-- Only the context of `i` is told anything. -/
def Told (s s' : State ι γ ν) (i : ι) : Prop := ∀ c, c ≠ ctx i → s'.results c = s.results c

/-- Where the messages are before and after a move of `i`. -/
inductive Effect (s s' : State ι γ ν) (i : ι) : Prop
  /-- No message moves. -/
  | still (phase : Phase γ ν) (table : s'.table = s.table) (consumed : s'.consumed = s.consumed)
      (created : s'.created = s.created) (before : (s.callers i).held = none)
      (callers : s'.callers = update s.callers i phase) (after : phase.held = none)
      (told : Told ctx s s' i)
  /-- A message is created. -/
  | creates (content : ν) (table : s'.table = s.table) (consumed : s'.consumed = s.consumed)
      (created : s'.created = update s.created (ctx i) (s.created (ctx i) + 1))
      (before : (s.callers i).held = none)
      (callers : s'.callers = update s.callers i
        (.storing ⟨ctx i, s.created (ctx i), content⟩)) (told : Told ctx s s' i)
  /-- A message is stored. Under `0`, the caller keeps it. -/
  | stores (m : Msg γ ν) (phase : Phase γ ν) (before : s.callers i = .storing m)
      (table : s'.table = (s.table.store (some m)).2) (consumed : s'.consumed = s.consumed)
      (created : s'.created = s.created)
      (callers : s'.callers = update s.callers i phase)
      (after : phase.held = if s.table.nextId = 0 then some m else none) (told : Told ctx s s' i)
  /-- A message is taken out of the table. -/
  | takes (m : Msg γ ν) (payload : ℕ) (phase : Phase γ ν)
      (before : (s.callers i).payload = some payload) (before' : (s.callers i).held = none)
      (named : s.table.named payload = some m) (table : s'.table = (s.table.take payload).2)
      (consumed : s'.consumed = s.consumed) (created : s'.created = s.created)
      (callers : s'.callers = update s.callers i phase) (after : phase.held = some m)
      (told : Told ctx s s' i)
  /-- A message is consumed. -/
  | consumes (m : Msg γ ν) (before : (s.callers i).held = some m)
      (before' : ∀ m', s.callers i ≠ .storing m') (table : s'.table = s.table)
      (consumed : s'.consumed = s.consumed ++ [(m, ctx i)]) (created : s'.created = s.created)
      (callers : s'.callers = update s.callers i .idle) (told : Told ctx s s' i)

variable {ctx} {s s' : State ι γ ν} {i : ι} {a : Act ι ν}

theorem told_finish (u : State ι γ ν) (r : Result ν) : Told ctx u (u.finish ctx i r) i :=
  fun _ hc => update_of_ne hc _ _

/-- A call that starts returns at once, creates, or gets in line for the table. -/
theorem effect_start {move : Move ν} (hidle : s.callers i = .idle)
    (hs : start ctx s i move = some s') : Effect ctx s s' i := by
  have hheld : (s.callers i).held = none := by rw [hidle]; rfl
  cases move with
  | create payloadOut engine =>
    simp only [start] at hs
    split at hs
    · cases hs
      exact .still .idle rfl rfl rfl hheld rfl rfl (told_finish s _)
    · split at hs
      · cases hs
        exact .still .idle rfl rfl rfl hheld rfl rfl (told_finish s _)
      · rename_i content
        cases hs
        exact .creates content rfl rfl rfl hheld rfl fun _ _ => rfl
  | take payload resultOut env =>
    simp only [start] at hs
    split at hs
    · cases hs
      exact .still .idle rfl rfl rfl hheld rfl rfl (told_finish s _)
    · split at hs
      · cases hs
        exact .still _ rfl rfl rfl hheld rfl rfl fun _ _ => rfl
      · cases hs
        exact .still _ rfl rfl rfl hheld rfl rfl fun _ _ => rfl
  | drop payload =>
    cases hs
    exact .still _ rfl rfl rfl hheld rfl rfl fun _ _ => rfl
  | access status room => cases hs

theorem effect_access {status : NapiStatus} {room : Bool} (hs : access ctx s i status room = some s') :
    Effect ctx s s' i := by
  unfold access at hs
  cases hphase : s.callers i with
  | idle =>
    simp only [hphase] at hs
    cases hs
  | storing m =>
    simp only [hphase] at hs
    rcases hst : s.table.store (some m) with ⟨id, table⟩
    obtain rfl : s.table.nextId = id := congrArg Prod.fst hst
    have htable : table = (s.table.store (some m)).2 := (congrArg Prod.snd hst).symm
    rw [hst] at hs
    split at hs
    · rename_i hid
      cases hs
      exact .stores m _ hphase htable rfl rfl rfl (if_pos hid).symm fun _ _ => rfl
    · rename_i hid
      cases hs
      exact .stores m _ hphase htable rfl rfl rfl (if_neg hid).symm
        (told_finish { s with table } _)
  | taking payload env =>
    have hheld : (s.callers i).held = none := by rw [hphase]; rfl
    have hpay : (s.callers i).payload = some payload := by rw [hphase]; rfl
    simp only [hphase] at hs
    cases hn : s.table.named payload with
    | none =>
      simp only [HandleTable.take_of_named_none hn] at hs
      cases hs
      exact .still .idle rfl rfl rfl hheld rfl rfl (told_finish s _)
    | some m =>
      have htake := congrArg Prod.snd (HandleTable.take_of_named_some hn)
      simp only [HandleTable.take_of_named_some hn] at hs
      split at hs
      · cases hs
        exact .takes m payload _ hpay hheld hn htake.symm rfl rfl rfl rfl fun _ _ => rfl
      · cases hs
        exact .takes m payload _ hpay hheld hn htake.symm rfl rfl rfl rfl fun _ _ => rfl
  | dropping payload result =>
    have hheld : (s.callers i).held = none := by rw [hphase]; rfl
    have hpay : (s.callers i).payload = some payload := by rw [hphase]; rfl
    simp only [hphase] at hs
    cases hn : s.table.named payload with
    | none =>
      simp only [HandleTable.take_of_named_none hn] at hs
      cases hs
      exact .still .idle rfl rfl rfl hheld rfl rfl (told_finish s _)
    | some m =>
      have htake := congrArg Prod.snd (HandleTable.take_of_named_some hn)
      simp only [HandleTable.take_of_named_some hn] at hs
      cases hs
      exact .takes m payload _ hpay hheld hn htake.symm rfl rfl rfl rfl fun _ _ => rfl
  | engineTake m =>
    have hheld : (s.callers i).held = some m := by rw [hphase]; rfl
    have hbusy : ∀ m', s.callers i ≠ .storing m' := fun m' h => by rw [hphase] at h; cases h
    simp only [hphase] at hs
    split at hs
    · cases hs
      exact .consumes m hheld hbusy rfl rfl rfl rfl (told_finish (s.consume ctx i m) _)
    · split at hs
      · cases hs
        exact .consumes m hheld hbusy rfl rfl rfl rfl (told_finish (s.consume ctx i m) _)
      · cases hs
        exact .consumes m hheld hbusy rfl rfl rfl rfl (told_finish (s.consume ctx i m) _)
  | engineDrop m result =>
    have hheld : (s.callers i).held = some m := by rw [hphase]; rfl
    have hbusy : ∀ m', s.callers i ≠ .storing m' := fun m' h => by rw [hphase] at h; cases h
    simp only [hphase] at hs
    cases hs
    exact .consumes m hheld hbusy rfl rfl rfl rfl (told_finish (s.consume ctx i m) _)

theorem effect_step (hs : step ctx s a = some s') : Effect ctx s s' a.caller := by
  obtain ⟨i, move⟩ := a
  cases move with
  | access status room => exact effect_access hs
  | _ =>
    simp only [step] at hs
    split at hs
    · rename_i hidle
      exact effect_start hidle hs
    · cases hs

end

/-! ## Where a message is

In the table under an id, in the hands of one caller, or consumed. `places` counts all
three for the message with a given key. -/

section

variable {ι γ ν : Type} [Fintype ι] [DecidableEq ι] [DecidableEq γ]

/-- One, for the message with key `κ`. -/
def isMsg (κ : γ × ℕ) (m : Msg γ ν) : ℕ := if m.key = κ then 1 else 0

def Phase.count (κ : γ × ℕ) (phase : Phase γ ν) : ℕ := (phase.held.map (isMsg κ)).getD 0

/-- Where the message with key `κ` is. -/
def State.places (s : State ι γ ν) (κ : γ × ℕ) : ℕ :=
  s.table.weigh (isMsg κ) + tally (Phase.count κ) s.callers +
    (s.consumed.map fun e => e.1.key).count κ

/-- Whether its context has created it. -/
def State.issued (s : State ι γ ν) (κ : γ × ℕ) : ℕ := if κ.2 < s.created κ.1 then 1 else 0

/-- A message is in one place at most, and nowhere before its creation. -/
def Placed (s : State ι γ ν) : Prop := ∀ κ, s.places κ ≤ s.issued κ

/-- And none has been lost. -/
def Accounted (s : State ι γ ν) : Prop := ∀ κ, s.places κ = s.issued κ

/-- The message the next access of a caller overwrites. -/
def lost (s : State ι γ ν) (a : Act ι ν) : Option (Msg γ ν) :=
  match s.callers a.caller with
  | .storing _ => s.table.named s.table.nextId
  | _ => none

variable {ctx : ι → γ} {s s' : State ι γ ν} {a : Act ι ν} {κ : γ × ℕ}

section

omit [Fintype ι] [DecidableEq ι] [DecidableEq γ]

theorem lost_of_storing {m : Msg γ ν} (h : s.callers a.caller = .storing m) :
    lost s a = s.table.named s.table.nextId := by
  unfold lost
  rw [h]

theorem lost_eq_none (h : ∀ m, s.callers a.caller ≠ .storing m) : lost s a = none := by
  unfold lost
  split
  · rename_i m hm
    exact absurd hm (h m)
  · rfl

end

theorem count_eq_zero {phase : Phase γ ν} (h : phase.held = none) : phase.count κ = 0 := by
  unfold Phase.count
  rw [h]
  rfl

theorem count_eq {phase : Phase γ ν} {m : Msg γ ν} (h : phase.held = some m) :
    phase.count κ = isMsg κ m := by
  unfold Phase.count
  rw [h]
  rfl

omit [Fintype ι] [DecidableEq ι] in
/-- A creation issues one message. -/
theorem issued_create {c : γ} (hc : s'.created = update s.created c (s.created c + 1))
    (content : ν) : s'.issued κ = s.issued κ + isMsg κ ⟨c, s.created c, content⟩ := by
  obtain ⟨c', n⟩ := κ
  unfold State.issued isMsg Msg.key
  rw [hc]
  by_cases hcc : c' = c
  · subst hcc
    simp only [Function.update_self, Prod.mk.injEq, true_and]
    split_ifs <;> omega
  · have hne : ¬ (c, s.created c) = (c', n) := fun h => hcc (congrArg Prod.fst h).symm
    simp only [update_of_ne hcc, if_neg hne, Nat.add_zero]

/-- **The books of one move**: a creation adds a place, an overwriting store takes one
    away, and everything else moves a message from one place to another. -/
theorem places_step (hs : step ctx s a = some s') (κ : γ × ℕ) :
    s'.places κ + ((lost s a).map (isMsg κ)).getD 0 + s.issued κ = s.places κ + s'.issued κ := by
  unfold State.places
  rcases effect_step hs with
    ⟨phase, ht, hcons, hcr, hb, hcal, ha, -⟩ | ⟨content, ht, hcons, hcr, hb, hcal, -⟩ |
    ⟨m, phase, hb, ht, hcons, hcr, hcal, ha, -⟩ |
    ⟨m, payload, phase, hpay, hb, hn, ht, hcons, hcr, hcal, ha, -⟩ |
    ⟨m, hb, hbusy, ht, hcons, hcr, hcal, -⟩
  · have hlost : lost s a = none := lost_eq_none fun m hm => by rw [hm] at hb; cases hb
    have hissued : s'.issued κ = s.issued κ := by unfold State.issued; rw [hcr]
    have hmove := tally_update (Phase.count κ) s.callers a.caller phase
    rw [count_eq_zero hb, count_eq_zero ha] at hmove
    rw [hlost, hissued, ht, hcons, hcal]
    simp only [Option.map_none, Option.getD_none]
    omega
  · have hlost : lost s a = none := lost_eq_none fun m hm => by rw [hm] at hb; cases hb
    have hissued := issued_create (κ := κ) hcr content
    have hmove := tally_update (Phase.count κ) s.callers a.caller
      (.storing ⟨ctx a.caller, s.created (ctx a.caller), content⟩)
    rw [count_eq_zero hb, count_eq rfl] at hmove
    rw [hlost, ht, hcons, hcal]
    simp only [Option.map_none, Option.getD_none]
    omega
  · have hissued : s'.issued κ = s.issued κ := by unfold State.issued; rw [hcr]
    have hmove := tally_update (Phase.count κ) s.callers a.caller phase
    have hstore := HandleTable.weigh_store (isMsg κ) s.table m
    have hheld : (s.callers a.caller).held = some m := by rw [hb]; rfl
    rw [count_eq hheld] at hmove
    rw [lost_of_storing hb, hissued, ht, hcons, hcal]
    by_cases hid : s.table.nextId = 0
    · rw [if_pos hid] at ha hstore
      rw [count_eq ha] at hmove
      omega
    · rw [if_neg hid] at ha hstore
      rw [count_eq_zero ha] at hmove
      omega
  · have hlost : lost s a = none := lost_eq_none fun m hm => by rw [hm] at hb; cases hb
    have hissued : s'.issued κ = s.issued κ := by unfold State.issued; rw [hcr]
    have hmove := tally_update (Phase.count κ) s.callers a.caller phase
    have htake := HandleTable.weigh_take (isMsg κ) hn
    rw [count_eq_zero hb, count_eq ha] at hmove
    rw [hlost, hissued, ht, hcons, hcal]
    simp only [Option.map_none, Option.getD_none]
    omega
  · have hissued : s'.issued κ = s.issued κ := by unfold State.issued; rw [hcr]
    have hmove := tally_update (Phase.count κ) s.callers a.caller .idle
    rw [count_eq hb, count_eq_zero rfl] at hmove
    have hone : [m.key].count κ = isMsg κ m := by
      unfold isMsg
      rw [List.count_singleton]
      simp only [beq_iff_eq]
    rw [lost_eq_none hbusy, hissued, ht, hcons, hcal]
    simp only [Option.map_none, Option.getD_none, List.map_append, List.count_append, List.map_cons,
      List.map_nil, hone]
    omega

omit [DecidableEq ι] in
theorem accounted_init : Accounted ({} : State ι γ ν) := by
  intro κ
  have htally : tally (Phase.count κ) (fun _ : ι => (Phase.idle : Phase γ ν)) = 0 :=
    tally_eq_zero fun _ => rfl
  simp [State.places, State.issued, HandleTable.weigh, htally]

theorem placed_step (hs : step ctx s a = some s') (hi : Placed s) : Placed s' := by
  intro κ
  have hbooks := places_step hs κ
  have hκ := hi κ
  omega

theorem accounted_step (hs : step ctx s a = some s') (hfresh : (lost s a).isNone)
    (hi : Accounted s) : Accounted s' := by
  intro κ
  have hbooks := places_step hs κ
  have hκ := hi κ
  rw [Option.isNone_iff_eq_none.mp hfresh] at hbooks
  simp only [Option.map_none, Option.getD_none] at hbooks
  omega

/-- No message is consumed twice, and after its consumption no id names it and no caller
    holds it. -/
def ConsumedOnce (s : State ι γ ν) : Prop :=
  (s.consumed.map fun e => e.1.key).Nodup ∧
    ∀ e ∈ s.consumed, (∀ id m, s.table.named id = some m → m.key ≠ e.1.key) ∧
      ∀ i m, (s.callers i).held = some m → m.key ≠ e.1.key

omit [DecidableEq ι] in
theorem consumedOnce_of_placed (hi : Placed s) : ConsumedOnce s := by
  have hone : ∀ κ, s.places κ ≤ 1 := by
    intro κ
    have hκ := hi κ
    unfold State.issued at hκ
    split at hκ <;> omega
  refine ⟨List.nodup_iff_count_le_one.mpr fun κ => le_trans (Nat.le_add_left ..) (hone κ), ?_⟩
  intro e he
  have hcount : 0 < (s.consumed.map fun e => e.1.key).count e.1.key :=
    List.count_pos_iff.mpr (List.mem_map_of_mem he)
  have hplaces := hone e.1.key
  unfold State.places at hplaces
  constructor
  · intro id m hn hkey
    have hle := HandleTable.le_weigh (isMsg e.1.key) hn
    rw [isMsg, if_pos hkey] at hle
    omega
  · intro i m hheld hkey
    have hle := held_le_tally (Phase.count e.1.key) s.callers i
    rw [count_eq hheld, isMsg, if_pos hkey] at hle
    omega

/-- Whoever takes, drops or creates what, and in whatever order. -/
theorem consumed_once {as : List (Act ι ν)} (hr : run (step ctx) {} as = some s) :
    ConsumedOnce s :=
  consumedOnce_of_placed (invariant (fun _ _ _ hs => placed_step hs) hr fun κ => (accounted_init κ).le)

end

end WasmerNapi.Bridge.Message
