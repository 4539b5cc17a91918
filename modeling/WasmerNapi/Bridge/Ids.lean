import WasmerNapi.Bridge.Basic
import WasmerNapi.Lib.Run

/-!
# Handle ids over whole runs

The tables of the bridge are all the same pair of a map and a counter: the `HandleTable`s
proper, and `refs` and `deferreds`, which spell the operations out once more. Ids are
*unique while live* as long as the counter has not come round: the stores since the table
was last emptied are numbered `1, 2, …`, and number `2 ^ 32` gets the id `0`, which is no
id at all. `unique_iff_few` says that this is exactly the point up to which the tables
keep their promise. `g_message_handles` is never emptied, so for it the count is the
life of the process.
-/

namespace WasmerNapi.Bridge.Ids

open Function (update update_self update_of_ne)
open Word Run

/-- Which table of an agent, or of the process. -/
inductive Kind where
  | handles
  | refs
  | deferreds
  deriving DecidableEq

/-- A table; and, to say what it should hold, the handle last stored under each id and
    neither taken nor removed since, and how many stores there were since the table was
    last emptied. -/
structure Books (τ : Type) where
  table : HandleTable τ := {}
  filed : ℕ → Option τ := fun _ => none
  stores : ℕ := 0

abbrev State (τ : Type) := Kind → Books τ

def init {τ : Type} : State τ := fun _ => {}

/-- `Store`, `Load`, `Take`, `Remove`, `TakeAll` and `Reset`. The refs and deferreds of an
    agent have `StoreRef`, `LoadRef`, `RemoveRef` and their like, and are cleared at its
    disposal. -/
inductive Op (τ : Type) where
  | store (handle : Option τ)
  | load (id : ℕ)
  | take (id : ℕ)
  | remove (id : ℕ)
  | takeAll
  | reset

section

variable {τ : Type}

namespace Books

def store (b : Books τ) : Option τ → Books τ
  | none => b
  | some handle =>
    { table := (b.table.store (some handle)).2
      filed := update b.filed (b.table.store (some handle)).1 (some handle)
      stores := b.stores + 1 }

def take (b : Books τ) (id : ℕ) : Books τ :=
  match b.table.take id with
  | (none, _) => b
  | (some _, table) => { b with table, filed := update b.filed id none }

def remove (b : Books τ) (id : ℕ) : Books τ :=
  { b with table := b.table.remove id, filed := update b.filed id none }

end Books

def step (s : State τ) (a : Kind × Op τ) : Option (State τ) :=
  match a.2, a.1 with
  | .store handle, k => some (update s k ((s k).store handle))
  | .load _, _ => some s
  | .take id, .handles => some (update s .handles ((s .handles).take id))
  | .take _, _ => none
  | .remove id, k => some (update s k ((s k).remove id))
  | .takeAll, .handles =>
    some (update s .handles { table := (s .handles).table.takeAll.2 })
  | .takeAll, _ => none
  | .reset, k => some (update s k { table := (s k).table.reset })

/-- Every id of every table loads what was filed under it. -/
def Agrees (s : State τ) : Prop := ∀ k id, (s k).table.named id = (s k).filed id

/-- A step that keeps the promise: the loads before it agree, and a store gets an id of
    its own. -/
def Unique (s : State τ) (a : Kind × Op τ) : Prop :=
  Agrees s ∧ ∀ handle, a.2 = .store (some handle) →
    ((s a.1).table.store (some handle)).1 ≠ 0 ∧
      ((s a.1).table.store (some handle)).1 ∉ (s a.1).table.handles

/-- A store is not the `2 ^ 32`nd since its table was last emptied. -/
def Few (s : State τ) (a : Kind × Op τ) : Prop :=
  ∀ handle, a.2 = .store (some handle) → (s a.1).stores + 1 < 2 ^ 32

/-! ## The counter -/

/-- The stores so far are numbered from `1`, and every id in the table is one of them. -/
structure Counted (b : Books τ) : Prop where
  few : b.stores < 2 ^ 32
  next : b.table.nextId = wrappingAdd 32 b.stores 1
  ids : ∀ id ∈ b.table.handles, 1 ≤ id ∧ id ≤ b.stores
  agrees : b.table.named = b.filed

theorem counted_empty {t : HandleTable τ} (h : t = {}) : Counted ({ table := t } : Books τ) := by
  subst h
  refine ⟨Nat.two_pow_pos 32, rfl, ?_, ?_⟩
  · intro id hid
    exact absurd hid (AList.notMem_empty id)
  · funext id
    exact ite_self _

variable {b : Books τ}

/-- The next id is the number of the store, and no id of the table reaches it. -/
theorem Counted.nextId (h : Counted b) (hfew : b.stores + 1 < 2 ^ 32) :
    b.table.nextId = b.stores + 1 :=
  h.next.trans (wrappingAdd_of_lt hfew)

theorem Counted.fresh (h : Counted b) (hfew : b.stores + 1 < 2 ^ 32) :
    b.table.nextId ∉ b.table.handles := by
  intro hmem
  have hid := h.ids _ hmem
  rw [h.nextId hfew] at hid
  omega

theorem Counted.store (h : Counted b) (handle : τ) (hfew : b.stores + 1 < 2 ^ 32) :
    Counted (b.store (some handle)) := by
  have hnext := h.nextId hfew
  refine ⟨hfew, ?_, ?_, ?_⟩
  · show wrappingAdd 32 b.table.nextId 1 = wrappingAdd 32 (b.stores + 1) 1
    rw [hnext]
  · intro id hid
    show 1 ≤ id ∧ id ≤ b.stores + 1
    rcases (AList.mem_insert _).mp hid with rfl | hid
    · omega
    · have := h.ids id hid
      omega
  · funext id
    show (b.table.store (some handle)).2.named id =
      update b.filed b.table.nextId (some handle) id
    rw [HandleTable.named_store]
    by_cases hid : id = b.table.nextId
    · subst hid
      rw [if_neg (by omega), if_pos rfl, update_self]
    · rw [if_neg hid, update_of_ne hid, ← h.agrees]
      split
      · rename_i h0
        rw [h0]
        rfl
      · rfl

theorem Counted.remove (h : Counted b) (id : ℕ) : Counted (b.remove id) := by
  refine ⟨h.few, h.next, ?_, ?_⟩
  · intro id' hid'
    exact h.ids id' (AList.mem_erase.mp hid').2
  · show (b.table.remove id).named = update b.filed id none
    rw [HandleTable.named_remove, h.agrees]

theorem Counted.take (h : Counted b) (id : ℕ) : Counted (b.take id) := by
  unfold Books.take
  cases hn : b.table.named id with
  | none =>
    rw [HandleTable.take_of_named_none hn]
    exact h
  | some handle =>
    rw [HandleTable.take_of_named_some hn]
    exact h.remove id

/-! ## Runs -/

variable {s s' : State τ} {a : Kind × Op τ}

theorem counted_update {k : Kind} {b : Books τ} (hi : ∀ k, Counted (s k)) (hb : Counted b) :
    ∀ k', Counted (update s k b k') := by
  intro k'
  by_cases hk : k' = k
  · subst hk
    rw [update_self]
    exact hb
  · rw [update_of_ne hk]
    exact hi k'

theorem counted_step (hs : step s a = some s') (hfew : Few s a) (hi : ∀ k, Counted (s k)) :
    ∀ k, Counted (s' k) := by
  obtain ⟨k, op⟩ := a
  cases op with
  | store handle =>
    cases hs
    cases handle with
    | none => exact counted_update hi (hi k)
    | some handle => exact counted_update hi ((hi k).store handle (hfew handle rfl))
  | load id =>
    cases hs
    exact hi
  | take id =>
    cases k with
    | handles =>
      cases hs
      exact counted_update hi ((hi .handles).take id)
    | refs => cases hs
    | deferreds => cases hs
  | remove id =>
    cases hs
    exact counted_update hi ((hi k).remove id)
  | takeAll =>
    cases k with
    | handles =>
      cases hs
      exact counted_update hi (counted_empty rfl)
    | refs => cases hs
    | deferreds => cases hs
  | reset =>
    cases hs
    exact counted_update hi (counted_empty rfl)

/-- With the stores numbered, an id of its own and a number below `2 ^ 32` are the same. -/
theorem unique_iff_few_step (hi : ∀ k, Counted (s k)) : Unique s a ↔ Few s a := by
  have hagrees : Agrees s := fun k id => congrFun (hi k).agrees id
  constructor
  · intro hu handle hop
    have hnext : (s a.1).table.nextId ≠ 0 := (hu.2 handle hop).1
    have hlt := (hi a.1).few
    rw [(hi a.1).next] at hnext
    by_contra hge
    have hlast : (s a.1).stores + 1 = 2 ^ 32 := by omega
    apply hnext
    rw [wrappingAdd, hlast, Nat.mod_self]
  · intro hfew
    refine ⟨hagrees, fun handle hop => ?_⟩
    have hlt := hfew handle hop
    refine ⟨?_, (hi a.1).fresh hlt⟩
    show (s a.1).table.nextId ≠ 0
    rw [(hi a.1).nextId hlt]
    exact Nat.succ_ne_zero _

theorem counted_init : ∀ k, Counted ((init : State τ) k) := fun _ => counted_empty rfl

/-- **Exactly how long ids are unique.** In a run of any length, every id loads the handle
    last filed under it, and every store of a handle gets an id that is not `0` and names
    nothing yet, if and only if no table has its `2 ^ 32`nd store since it was emptied. -/
theorem unique_iff_few {as : List (Kind × Op τ)} {t : State τ}
    (hr : run step init as = some t) :
    (AllSteps step Unique init as ∧ Agrees t) ↔ AllSteps step Few init as := by
  have hstep : ∀ (s : State τ) a s', step s a = some s' → Few s a → (∀ k, Counted (s k)) →
      ∀ k, Counted (s' k) := fun _ _ _ hs hok hi => counted_step hs hok hi
  have hiff : AllSteps step Unique init as ↔ AllSteps step Few init as :=
    allSteps_iff_allSteps hstep (fun _ _ hi => unique_iff_few_step hi) counted_init
  constructor
  · intro h
    exact hiff.mp h.1
  · intro h
    have ht : ∀ k, Counted (t k) := invariant_of_allSteps hstep hr h counted_init
    exact ⟨hiff.mpr h, fun k id => congrFun (ht k).agrees id⟩

end

/-- A handle stored and taken. -/
theorem unique_brief :
    ∃ t : State ℕ, run step init [(.handles, .store (some 7)), (.handles, .take 1)] = some t ∧
      Agrees t := by
  have hfew : AllSteps step Few (init : State ℕ)
      [(.handles, .store (some 7)), (.handles, .take 1)] :=
    ⟨fun _ _ => by decide, fun _ _ => ⟨fun _ h => (nomatch h), fun _ _ => trivial⟩⟩
  exact ⟨_, rfl, ((unique_iff_few rfl).mpr hfew).2⟩

def push : Kind × Op Unit := (.handles, .store (some ()))

/-- `n` stores in a row. -/
theorem run_push (n : ℕ) : ∀ s : State Unit, (s .handles).table.nextId < 2 ^ 32 →
    ∃ t, run step s (List.replicate n push) = some t ∧
      (t .handles).table.nextId = ((s .handles).table.nextId + n) % 2 ^ 32 ∧
      (1 ∈ (s .handles).table.handles → 1 ∈ (t .handles).table.handles) := by
  induction n with
  | zero =>
    intro s hs
    exact ⟨s, rfl, (Nat.mod_eq_of_lt hs).symm, id⟩
  | succ n ih =>
    intro s hs
    have hbooks : (update s .handles ((s .handles).store (some ()))) .handles =
        (s .handles).store (some ()) := update_self ..
    obtain ⟨t, hr, hnext, hmem⟩ := ih (update s .handles ((s .handles).store (some ())))
      (by rw [hbooks]; exact Nat.mod_lt _ (Nat.two_pow_pos 32))
    rw [hbooks] at hnext hmem
    refine ⟨t, run_cons_eq_some.mpr ⟨_, rfl, hr⟩, ?_, fun h => hmem ?_⟩
    · rw [hnext]
      show (((s .handles).table.nextId + 1) % 2 ^ 32 + n) % 2 ^ 32 = _
      rw [Nat.mod_add_mod]
      congr 1
      omega
    · exact (AList.mem_insert _).mpr (Or.inr h)

/-- **Past the last id**: the `2 ^ 32`nd store returns `0`, and the one after it the id of
    the first, whose handle is still there. -/
theorem stores_come_round :
    ∃ t u : State Unit,
      run step init (List.replicate (2 ^ 32 - 1) push) = some t ∧
      ((t .handles).table.store (some ())).1 = 0 ∧
      run step init (push :: List.replicate (2 ^ 32 - 1) push) = some u ∧
      ((u .handles).table.store (some ())).1 ∈ (u .handles).table.handles := by
  obtain ⟨t, ht, hnext, -⟩ := run_push (2 ^ 32 - 1) init (by decide)
  obtain ⟨u, hu, hnext', hmem⟩ := run_push (2 ^ 32 - 1)
    (update init .handles ((init .handles).store (some ()))) (by decide)
  refine ⟨t, u, ht, hnext, run_cons_eq_some.mpr ⟨_, rfl, hu⟩, ?_⟩
  show (u .handles).table.nextId ∈ _
  rw [hnext']
  exact hmem (by decide)

end WasmerNapi.Bridge.Ids
