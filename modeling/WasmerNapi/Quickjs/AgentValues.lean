import WasmerNapi.Lib.Run
import WasmerNapi.Lib.Table

/-!
# The values an agent owns

`src/quickjs/src/internal/napi_agent.cc` again, with what it owns: the pending exception, the
continuation-preserved data, the frames of the promises and the stack of the data that `BEFORE`
put aside. `JS_FreeValueRT` may free an object with a finalizer, which runs before it returns and
may call the agent. The exception is taken out of its slot first; the other stores free the old
value with the slot still naming it, and write the slot when they get back.

A step here is a call up to the point where it frees a value, or the return from there. What a
call has yet to do is a `Cont`, and the calls that are underway are a stack of them. A value is a
reference the agent owns, and a copy (`JS_DupValueRT`) a reference of its own.
-/

namespace WasmerNapi.Quickjs.AgentValues

open Function (update update_self update_of_ne)
open Run

/-- `freeing` is no field of the program: the value is being freed, and the entry names it. -/
structure Entry where
  id : ℕ
  value : ℕ
  freeing : Bool := false
  deriving DecidableEq

/-- What `replace_stored_value` is to copy: a value of its caller, which is `undefined` or not,
    or what `enter_context_frame` read from an entry. -/
inductive Source where
  | given (defined : Bool)
  | frame (value : Option ℕ)
  deriving DecidableEq

/-- What is left to do after `JS_FreeValueRT`. An iterator is the address with the entry's id. -/
inductive Cont (A : Type) where
  | done
  | store (source : Source)
  | restore (previous : Option ℕ)
  | overwrite (a : A) (id : ℕ) (frame : ℕ)
  | erase (a : A) (id : ℕ)
  deriving DecidableEq

/-- `none` is `undefined`. `dataFreeing` is to `data` what `Entry.freeing` is to an entry;
    `released` counts the releases of each reference, and `handed` says which ones
    `take_pending_exception` gave away. -/
structure State (A : Type) where
  next : ℕ := 0
  nextEntry : ℕ := 0
  released : ℕ → ℕ := fun _ => 0
  handed : ℕ → Bool := fun _ => false
  exception : Option ℕ := none
  data : Option ℕ := none
  dataFreeing : Bool := false
  frames : AList (fun _ : A => Entry) := ∅
  stack : List (Option ℕ) := []
  calls : List (Cont A) := []
  /-- A released value was copied, or an erased entry used. -/
  faulted : Bool := false

inductive Op (A : Type) where
  | setPendingException
  | takePendingException
  | clearPendingException
  | getData
  | setData (defined : Bool)
  | captureContextFrame (a : A)
  | enterContextFrame (a : A)
  | leaveContextFrame
  | releaseContextFrame (a : A)
  deriving DecidableEq

inductive Act (A : Type) where
  | call (op : Op A)
  | ret
  | clearValues
  deriving DecidableEq

namespace State

variable {A : Type} [DecidableEq A]

section

omit [DecidableEq A]

def fault (s : State A) : State A := { s with faulted := true }

/-- `JS_DupValueRT`: the copy is reference `s.next`. -/
def dup (s : State A) (k : ℕ) : State A :=
  { s with next := s.next + 1, faulted := s.faulted || decide (s.released k ≠ 0) }

/-- `JS_FreeValueRT`, and the finalizer may call. -/
def free (s : State A) (k : ℕ) (cont : Cont A) : State A :=
  { s with released := update s.released k (s.released k + 1), calls := cont :: s.calls }

def setPendingException (s : State A) : State A :=
  let s' := { s with exception := some s.next, next := s.next + 1 }
  match s.exception with
  | none => s'
  | some old => s'.free old .done

def takePendingException (s : State A) : State A :=
  match s.exception with
  | none => s
  | some k => { s with exception := none, handed := update s.handed k true }

def clearPendingException (s : State A) : State A :=
  match s.exception with
  | none => s
  | some k => { s with exception := none }.free k .done

def getData (s : State A) : State A :=
  match s.data with
  | none => s
  | some k => if s.released k = 0 then s else s.fault

/-- The second half of `replace_stored_value`. -/
def store (s : State A) : Source → State A
  | .given false | .frame none => { s with data := none, dataFreeing := false }
  | .given true => { s with next := s.next + 1, data := some s.next, dataFreeing := false }
  | .frame (some k) => { s.dup k with data := some s.next, dataFreeing := false }

/-- The first half. Freeing `undefined` does nothing. -/
def replaceStoredValue (s : State A) (source : Source) : State A :=
  match s.data with
  | none => s.store source
  | some old => { s.free old (.store source) with dataFreeing := true }

end

/-- The value of the entry is freed, in its place. -/
def freeEntry (s : State A) (a : A) (e : Entry) (cont : Cont A) : State A :=
  { s.free e.value cont with frames := s.frames.insert a { e with freeing := true } }

def captureContextFrame (s : State A) (a : A) : State A :=
  match s.data with
  | none => s
  | some k =>
    let frame := s.next
    let s := s.dup k
    match s.frames.lookup a with
    | some e => s.freeEntry a e (.overwrite a e.id frame)
    | none =>
      { s with
        frames := s.frames.insert a { id := s.nextEntry, value := frame }
        nextEntry := s.nextEntry + 1 }

omit [DecidableEq A] in
/-- The current data is copied onto the stack. -/
def pushData (s : State A) : State A :=
  match s.data with
  | none => { s with stack := none :: s.stack }
  | some k => { s.dup k with stack := some s.next :: s.stack }

def enterContextFrame (s : State A) (a : A) : State A :=
  let s := s.pushData
  s.replaceStoredValue (.frame ((s.frames.lookup a).map Entry.value))

omit [DecidableEq A] in
def leaveContextFrame (s : State A) : State A :=
  match s.stack with
  | [] => s
  | previous :: stack =>
    let s := { s with stack }
    match s.data with
    | none => { s with data := previous }
    | some old => { s.free old (.restore previous) with dataFreeing := true }

def releaseContextFrame (s : State A) (a : A) : State A :=
  match s.frames.lookup a with
  | none => s
  | some e => s.freeEntry a e (.erase a e.id)

def perform (s : State A) : Op A → State A
  | .setPendingException => s.setPendingException
  | .takePendingException => s.takePendingException
  | .clearPendingException => s.clearPendingException
  | .getData => s.getData
  | .setData defined => s.replaceStoredValue (.given defined)
  | .captureContextFrame a => s.captureContextFrame a
  | .enterContextFrame a => s.enterContextFrame a
  | .leaveContextFrame => s.leaveContextFrame
  | .releaseContextFrame a => s.releaseContextFrame a

/-- What the call does when `JS_FreeValueRT` returns. -/
def resume (s : State A) : Cont A → State A
  | .done => s
  | .store source => s.store source
  | .restore previous => { s with data := previous, dataFreeing := false }
  | .overwrite a id frame =>
    match s.frames.lookup a with
    | some e => if e.id = id then { s with frames := s.frames.insert a ⟨id, frame, false⟩ } else s.fault
    | none => s.fault
  | .erase a id =>
    match s.frames.lookup a with
    | some e => if e.id = id then { s with frames := s.frames.erase a } else s.fault
    | none => s.fault

omit [DecidableEq A] in
/-- How often the reference is in one of the stores. -/
def stored (s : State A) (k : ℕ) : ℕ :=
  (if s.exception = some k then 1 else 0) + (if s.data = some k then 1 else 0) +
    Table.total (fun _ e => if e.value = k then 1 else 0) s.frames + s.stack.count (some k)

omit [DecidableEq A] in
/-- By then no finalizer runs any more. -/
def clearValues (s : State A) : State A :=
  { s with
    released := fun k => s.released k + s.stored k
    exception := none
    data := none
    frames := ∅
    stack := [] }

end State

variable {A : Type} [DecidableEq A]

/-- Nothing is said about what follows a fault. -/
def step (s : State A) (a : Act A) : Option (State A) :=
  if s.faulted then none
  else
    match a with
    | .call op => some (s.perform op)
    | .ret =>
      match s.calls with
      | [] => none
      | cont :: calls => some ({ s with calls }.resume cont)
    | .clearValues => if s.calls = [] then some s.clearValues else none

/-- Each reference is released once, or given away, and is in one store until then. -/
structure Accounted (s : State A) : Prop where
  once : ∀ k, s.released k ≤ 1
  sound : s.faulted = false
  accounted : s.calls = [] → ∀ k, k < s.next → s.stored k + s.released k + (s.handed k).toNat = 1

/-- The entry at `a`, if there is one, is not being freed. -/
def Settled (s : State A) (a : A) : Prop := (s.frames.lookup a).all (fun e => !e.freeing) = true

/-- Nor is it the one that a `BEFORE` underway is about to copy. -/
def Unread (s : State A) (a : A) : Prop :=
  (s.frames.lookup a).all (fun e => Cont.store (.frame (some e.value)) ∉ s.calls) = true

instance (s : State A) (a : A) : Decidable (Settled s a) := inferInstanceAs (Decidable (_ = _))

instance (s : State A) (a : A) : Decidable (Unread s a) := inferInstanceAs (Decidable (_ = _))

/-- The calls that leave alone what a call underway is at. -/
def Apart (s : State A) : Op A → Prop
  | .setPendingException | .takePendingException | .clearPendingException => True
  | .getData | .setData _ => s.dataFreeing = false
  | .captureContextFrame a =>
    s.data = none ∨ s.dataFreeing = false ∧ Settled s a ∧ Unread s a
  | .enterContextFrame a => s.dataFreeing = false ∧ Settled s a
  | .leaveContextFrame => s.stack = [] ∨ s.dataFreeing = false
  | .releaseContextFrame a => Settled s a ∧ Unread s a

instance (s : State A) : ∀ op, Decidable (Apart s op)
  | .setPendingException | .takePendingException | .clearPendingException =>
    inferInstanceAs (Decidable True)
  | .getData | .setData _ => inferInstanceAs (Decidable (_ = _))
  | .captureContextFrame _ => inferInstanceAs (Decidable (_ ∨ _))
  | .enterContextFrame _ => inferInstanceAs (Decidable (_ ∧ _))
  | .leaveContextFrame => inferInstanceAs (Decidable (_ ∨ _))
  | .releaseContextFrame _ => inferInstanceAs (Decidable (_ ∧ _))

def Safe (s : State A) : Act A → Prop
  | .call op => Apart s op
  | .ret | .clearValues => True

instance (s : State A) : ∀ a, Decidable (Safe s a)
  | .call op => inferInstanceAs (Decidable (Apart s op))
  | .ret | .clearValues => inferInstanceAs (Decidable True)

/-! ## The invariant -/

/-- Whether the reference is this one, as a number. -/
def one (v : Option ℕ) (k : ℕ) : ℕ := if v = some k then 1 else 0

def Entry.weight (k : ℕ) (e : Entry) : ℕ := if e.freeing then 0 else one (some e.value) k

namespace Cont

/-- What a call underway owns. -/
def weight (k : ℕ) : Cont A → ℕ
  | .restore previous => one previous k
  | .overwrite _ _ frame => one (some frame) k
  | .done | .store _ | .erase _ _ => 0

/-- It is to write the data. -/
def onData : Cont A → Bool
  | .store _ | .restore _ => true
  | .done | .overwrite _ _ _ | .erase _ _ => false

/-- It is at an entry. -/
def entry? : Cont A → Option (A × ℕ)
  | .overwrite a id _ | .erase a id => some (a, id)
  | .done | .store _ | .restore _ => none

end Cont

namespace State

def ownedData (s : State A) (k : ℕ) : ℕ := if s.dataFreeing then 0 else one s.data k

def ownedFrames (s : State A) (k : ℕ) : ℕ := Table.total (fun _ e => e.weight k) s.frames

def ownedCalls (s : State A) (k : ℕ) : ℕ := (s.calls.map (Cont.weight k)).sum

/-- How often the agent owns the reference, counting no slot whose value is being freed. -/
def owned (s : State A) (k : ℕ) : ℕ :=
  one s.exception k + s.ownedData k + s.ownedFrames k + s.stack.count (some k) + s.ownedCalls k

/-- The entries that calls underway are at. -/
def visited (s : State A) : List (A × ℕ) := s.calls.filterMap Cont.entry?

end State

open State (owned ownedData ownedCalls)

structure Inv (s : State A) : Prop where
  sound : s.faulted = false
  count : ∀ k, s.owned k + s.released k + (s.handed k).toNat = if k < s.next then 1 else 0
  data : s.calls.countP Cont.onData = s.dataFreeing.toNat
  entries : ∀ a id, (a, id) ∈ s.visited → ∃ e, s.frames.lookup a = some e ∧ e.id = id ∧ e.freeing = true
  distinct : (s.visited.map Prod.fst).Nodup
  flagged : ∀ a e, s.frames.lookup a = some e → e.freeing = true → a ∈ s.visited.map Prod.fst
  read : ∀ k, Cont.store (.frame (some k)) ∈ s.calls →
    ∃ a e, s.frames.lookup a = some e ∧ e.value = k ∧ e.freeing = false

section

variable {s t : State A}

theorem one_self (k : ℕ) : one (some k) k = 1 := if_pos rfl

theorem one_none (k : ℕ) : one none k = 0 := if_neg (Option.some_ne_none k).symm

/-- What is owned has not been released. -/
theorem Inv.alive (hi : Inv s) {k : ℕ} (h : 1 ≤ s.owned k) : s.released k = 0 := by
  have hc := hi.count k
  split at hc <;> omega

theorem Inv.data_alive (hi : Inv s) {k : ℕ} (hd : s.data = some k) (hf : s.dataFreeing = false) :
    s.released k = 0 := by
  refine hi.alive ?_
  have : s.ownedData k = 1 := by
    unfold ownedData
    rw [hf, if_neg Bool.false_ne_true, hd, one_self]
  unfold owned
  omega

variable {a : A} {e : Entry}

theorem Inv.entry_alive (hi : Inv s) (he : s.frames.lookup a = some e) (hf : e.freeing = false) :
    s.released e.value = 0 := by
  refine hi.alive ?_
  have hle : e.weight e.value ≤ s.ownedFrames e.value := Table.le_total (fun _ e' => e'.weight e.value) he
  unfold Entry.weight at hle
  rw [hf, if_neg Bool.false_ne_true, one_self] at hle
  unfold owned
  omega

/-! Every count below changes by a `one`. -/

theorem released_update (f : ℕ → ℕ) (k₀ k : ℕ) :
    update f k₀ (f k₀ + 1) k = f k + one (some k₀) k := by
  unfold one
  by_cases heq : k = k₀
  · rw [heq, update_self, if_pos rfl]
  · rw [update_of_ne heq, if_neg fun h => heq (Option.some.inj h).symm, Nat.add_zero]

variable {k₀ : ℕ}

theorem handed_update {f : ℕ → Bool} (h : f k₀ = false) (k : ℕ) :
    (update f k₀ true k).toNat = (f k).toNat + one (some k₀) k := by
  unfold one
  by_cases heq : k = k₀
  · rw [heq, update_self, if_pos rfl, h]
    rfl
  · rw [update_of_ne heq, if_neg fun h => heq (Option.some.inj h).symm, Nat.add_zero]

theorem next_succ (n k : ℕ) : (if k < n + 1 then 1 else 0) = (if k < n then 1 else 0) + one (some n) k := by
  unfold one
  simp only [Option.some_inj]
  split <;> split <;> split <;> omega

theorem count_push (v : Option ℕ) (l : List (Option ℕ)) (k : ℕ) :
    (v :: l).count (some k) = one v k + l.count (some k) := by
  unfold one
  rw [List.count_cons, Nat.add_comm]
  congr 1
  by_cases heq : v = some k
  · rw [if_pos heq, if_pos (beq_iff_eq.mpr heq)]
  · rw [if_neg heq, if_neg fun h => heq (beq_iff_eq.mp h)]

variable {next : ℕ}

/-- A call that frees a value it has taken out of its slot. -/
theorem exception_inv {exception : Option ℕ} (hi : Inv s) (hex : s.exception = some k₀)
    (hnew : ∀ k, one exception k + (if k < s.next then 1 else 0) = if k < next then 1 else 0) :
    Inv ({ s with exception, next }.free k₀ .done) := by
  refine { hi with count := ?_, read := ?_ }
  · intro k
    have hc := hi.count k
    have hn := hnew k
    have hr := released_update s.released k₀ k
    show one exception k + s.ownedData k + s.ownedFrames k + s.stack.count (some k) +
      (0 + s.ownedCalls k) + update s.released k₀ (s.released k₀ + 1) k + (s.handed k).toNat = _
    unfold owned at hc
    rw [hex] at hc
    change _ = if k < next then 1 else 0
    omega
  · intro k hk
    rcases List.mem_cons.mp hk with heq | hk
    · cases heq
    · exact hi.read k hk

theorem setPendingException_inv (hi : Inv s) : Inv s.setPendingException := by
  unfold State.setPendingException
  dsimp only
  have hnew : ∀ k, one (some s.next) k + (if k < s.next then 1 else 0) = if k < s.next + 1 then 1 else 0 :=
    fun k => (Nat.add_comm ..).trans (next_succ s.next k).symm
  rcases hex : s.exception with _ | k₀
  · refine { hi with count := ?_ }
    intro k
    have hc := hi.count k
    have hn := hnew k
    show one (some s.next) k + s.ownedData k + s.ownedFrames k + s.stack.count (some k) +
      s.ownedCalls k + s.released k + (s.handed k).toNat = if k < s.next + 1 then 1 else 0
    unfold owned at hc
    rw [hex, one_none] at hc
    omega
  · exact exception_inv hi hex hnew

theorem clearPendingException_inv (hi : Inv s) : Inv s.clearPendingException := by
  unfold State.clearPendingException
  rcases hex : s.exception with _ | k₀
  · exact hi
  · refine exception_inv hi hex ?_
    intro k
    rw [one_none, Nat.zero_add]

theorem takePendingException_inv (hi : Inv s) : Inv s.takePendingException := by
  unfold State.takePendingException
  rcases hex : s.exception with _ | k₀
  · exact hi
  · have hown : 1 ≤ s.owned k₀ := by
      unfold owned
      rw [hex, one_self]
      omega
    have hh : s.handed k₀ = false := by
      have hc := hi.count k₀
      cases hh : s.handed k₀ with
      | false => rfl
      | true =>
        rw [hh] at hc
        split at hc <;> simp only [Bool.toNat_true] at hc <;> omega
    refine { hi with count := ?_ }
    intro k
    have hc := hi.count k
    have hu := handed_update hh k
    show one none k + s.ownedData k + s.ownedFrames k + s.stack.count (some k) +
      s.ownedCalls k + s.released k + (update s.handed k₀ true k).toNat =
        if k < s.next then 1 else 0
    unfold owned at hc
    rw [hex] at hc
    rw [one_none]
    omega

theorem getData_inv (hi : Inv s) (hf : s.dataFreeing = false) : Inv s.getData := by
  unfold State.getData
  rcases hd : s.data with _ | k₀
  · exact hi
  · show Inv (if s.released k₀ = 0 then s else s.fault)
    rw [if_pos (hi.data_alive hd hf)]
    exact hi

variable {calls : List (Cont A)}

/-- The data is written, with nothing in its place that is owned, when no other call is at it. -/
theorem assign_inv {data : Option ℕ} (hi : Inv s) (hfree : ∀ k, s.ownedData k = 0)
    (hon : calls.countP Cont.onData = 0) (hsub : ∀ c ∈ calls, c ∈ s.calls)
    (hvisited : calls.filterMap Cont.entry? = s.visited)
    (hown : ∀ k, one data k + (calls.map (Cont.weight k)).sum + (if k < s.next then 1 else 0) =
      s.ownedCalls k + if k < next then 1 else 0) :
    Inv { s with calls, data, next, dataFreeing := false } := by
  refine ⟨hi.sound, ?_, hon, ?_, ?_, ?_, fun k hk => hi.read k (hsub _ hk)⟩
  · intro k
    have hc := hi.count k
    have hz := hfree k
    have ho := hown k
    show one s.exception k + one data k + s.ownedFrames k + s.stack.count (some k) +
      (calls.map (Cont.weight k)).sum + s.released k + (s.handed k).toNat = if k < next then 1 else 0
    unfold owned at hc
    omega
  · intro a id hmem
    exact hi.entries a id (hvisited ▸ hmem)
  · show ((calls.filterMap Cont.entry?).map Prod.fst).Nodup
    rw [hvisited]
    exact hi.distinct
  · intro a e he hf
    show a ∈ (calls.filterMap Cont.entry?).map Prod.fst
    rw [hvisited]
    exact hi.flagged a e he hf

theorem store_inv {source : Source} (hi : Inv s) (hfree : ∀ k, s.ownedData k = 0)
    (hon : calls.countP Cont.onData = 0) (hsub : ∀ c ∈ calls, c ∈ s.calls)
    (hvisited : calls.filterMap Cont.entry? = s.visited)
    (hown : ∀ k, (calls.map (Cont.weight k)).sum = s.ownedCalls k)
    (hread : ∀ k, source = .frame (some k) → s.released k = 0) :
    Inv ({ s with calls }.store source) := by
  have hcopied : Inv { s with calls, data := some s.next, next := s.next + 1, dataFreeing := false } := by
    refine assign_inv hi hfree hon hsub hvisited ?_
    intro k
    rw [hown, next_succ]
    omega
  have hnone : Inv { s with calls, data := none, next := s.next, dataFreeing := false } := by
    refine assign_inv hi hfree hon hsub hvisited ?_
    intro k
    rw [hown, one_none, Nat.zero_add]
  cases source with
  | given defined =>
    cases defined with
    | false => exact hnone
    | true => exact hcopied
  | frame value =>
    cases value with
    | none => exact hnone
    | some k =>
      have hdup : ({ s with calls } : State A).dup k = { s with calls, next := s.next + 1 } := by
        unfold State.dup
        dsimp only
        rw [hread k rfl, decide_eq_false (by simp), Bool.or_false]
      show Inv { ({ s with calls } : State A).dup k with data := some s.next, dataFreeing := false }
      rw [hdup]
      exact hcopied

variable {cont : Cont A}

/-- The data is freed in its place by a call that will write it. -/
theorem freeData_inv (hi : Inv s) (hd : s.data = some k₀) (hf : s.dataFreeing = false)
    (hon : cont.onData = true) (hentry : cont.entry? = none) (hweight : ∀ k, cont.weight k = 0)
    (hread : ∀ k, cont = .store (.frame (some k)) →
      ∃ a e, s.frames.lookup a = some e ∧ e.value = k ∧ e.freeing = false) :
    Inv { s.free k₀ cont with dataFreeing := true } := by
  have hvisited : ({ s.free k₀ cont with dataFreeing := true } : State A).visited = s.visited :=
    List.filterMap_cons_none hentry
  refine ⟨hi.sound, ?_, ?_, ?_, ?_, ?_, ?_⟩
  · intro k
    have hc := hi.count k
    have hr := released_update s.released k₀ k
    show one s.exception k + 0 + s.ownedFrames k + s.stack.count (some k) +
      (cont.weight k + s.ownedCalls k) + update s.released k₀ (s.released k₀ + 1) k +
        (s.handed k).toNat = if k < s.next then 1 else 0
    unfold owned ownedData at hc
    rw [hf, if_neg Bool.false_ne_true, hd] at hc
    rw [hweight]
    omega
  · have hz : s.calls.countP Cont.onData = 0 := by
      rw [hi.data, hf]
      rfl
    show (cont :: s.calls).countP Cont.onData = 1
    rw [List.countP_cons_of_pos hon, hz]
  · rw [hvisited]
    exact hi.entries
  · rw [hvisited]
    exact hi.distinct
  · rw [hvisited]
    exact hi.flagged
  · intro k hk
    rcases List.mem_cons.mp hk with heq | hk
    · exact hread k heq.symm
    · exact hi.read k hk

theorem replaceStoredValue_inv {source : Source} (hi : Inv s) (hf : s.dataFreeing = false)
    (hread : ∀ k, source = .frame (some k) →
      ∃ a e, s.frames.lookup a = some e ∧ e.value = k ∧ e.freeing = false) :
    Inv (s.replaceStoredValue source) := by
  unfold State.replaceStoredValue
  have hcalls : s.calls.countP Cont.onData = 0 := by
    rw [hi.data, hf]
    rfl
  rcases hd : s.data with _ | k₀
  · refine store_inv hi ?_ hcalls (fun _ hc => hc) rfl (fun _ => rfl) ?_
    · intro k
      unfold ownedData
      rw [hf, if_neg Bool.false_ne_true, hd, one_none]
    · intro k hk
      obtain ⟨a, e, he, rfl, hfree⟩ := hread k hk
      exact hi.entry_alive he hfree
  · refine freeData_inv hi hd hf rfl rfl (fun _ => rfl) ?_
    intro k hk
    exact hread k (Cont.store.inj hk)

theorem pushData_inv (hi : Inv s) (hf : s.dataFreeing = false) : Inv s.pushData := by
  unfold State.pushData
  rcases hd : s.data with _ | k₀
  · refine { hi with count := ?_ }
    intro k
    have hc := hi.count k
    have hp := count_push none s.stack k
    show one s.exception k + (if s.dataFreeing then 0 else one none k) + s.ownedFrames k +
      (none :: s.stack).count (some k) + s.ownedCalls k + s.released k + (s.handed k).toNat =
        if k < s.next then 1 else 0
    unfold owned ownedData at hc
    rw [hd] at hc
    rw [one_none] at hp
    omega
  · have hsound : (s.faulted || decide (s.released k₀ ≠ 0)) = false := by
      rw [hi.sound, hi.data_alive hd hf]
      rfl
    refine { hi with sound := hsound, count := ?_ }
    intro k
    have hc := hi.count k
    have hp := count_push (some s.next) s.stack k
    have hn := next_succ s.next k
    show one s.exception k + s.ownedData k + s.ownedFrames k + (some s.next :: s.stack).count (some k) +
      s.ownedCalls k + s.released k + (s.handed k).toNat = if k < s.next + 1 then 1 else 0
    unfold owned at hc
    omega

omit [DecidableEq A] in
theorem pushData_frames (s : State A) :
    s.pushData.frames = s.frames ∧ s.pushData.dataFreeing = s.dataFreeing := by
  unfold State.pushData
  split
  · exact ⟨rfl, rfl⟩
  · exact ⟨rfl, rfl⟩

theorem Settled.freeing (h : Settled s a) (he : s.frames.lookup a = some e) :
    e.freeing = false := by
  unfold Settled at h
  rw [he, Option.all_some, Bool.not_eq_true'] at h
  exact h

theorem Unread.not_mem (h : Unread s a) (he : s.frames.lookup a = some e) :
    Cont.store (.frame (some e.value)) ∉ s.calls := by
  unfold Unread at h
  rw [he, Option.all_some] at h
  exact of_decide_eq_true h

theorem enterContextFrame_inv (hi : Inv s) (hf : s.dataFreeing = false) (ha : Settled s a) :
    Inv (s.enterContextFrame a) := by
  obtain ⟨hframes, hfreeing⟩ := pushData_frames s
  refine replaceStoredValue_inv (pushData_inv hi hf) (hfreeing.trans hf) ?_
  intro k hk
  rw [hframes] at hk
  obtain ⟨e, he, rfl⟩ := Option.map_eq_some_iff.mp (Source.frame.inj hk)
  rw [hframes]
  exact ⟨a, e, he, rfl, ha.freeing he⟩

theorem leaveContextFrame_inv (hi : Inv s) (hf : s.stack = [] ∨ s.dataFreeing = false) :
    Inv s.leaveContextFrame := by
  unfold State.leaveContextFrame
  rcases hs : s.stack with _ | ⟨previous, stack⟩
  · exact hi
  have hf : s.dataFreeing = false := by
    rcases hf with hnil | hf
    · rw [hs] at hnil
      cases hnil
    · exact hf
  have hp := count_push previous stack
  dsimp only
  rcases hd : s.data with _ | k₀
  · refine { hi with count := ?_ }
    intro k
    have hc := hi.count k
    have hpk := hp k
    show one s.exception k + (if s.dataFreeing then 0 else one previous k) + s.ownedFrames k +
      stack.count (some k) + s.ownedCalls k + s.released k + (s.handed k).toNat =
        if k < s.next then 1 else 0
    unfold owned ownedData at hc
    rw [hf, if_neg Bool.false_ne_true, hd, one_none, hs] at hc
    rw [hf, if_neg Bool.false_ne_true]
    omega
  · refine ⟨hi.sound, ?_, ?_, hi.entries, hi.distinct, hi.flagged, ?_⟩
    · intro k
      have hc := hi.count k
      have hpk := hp k
      have hr := released_update s.released k₀ k
      show one s.exception k + 0 + s.ownedFrames k + stack.count (some k) +
        (one previous k + s.ownedCalls k) + update s.released k₀ (s.released k₀ + 1) k +
          (s.handed k).toNat = if k < s.next then 1 else 0
      unfold owned ownedData at hc
      rw [hf, if_neg Bool.false_ne_true, hd, hs] at hc
      omega
    · have hz : s.calls.countP Cont.onData = 0 := by
        rw [hi.data, hf]
        rfl
      show (Cont.restore previous :: s.calls).countP Cont.onData = 1
      rw [List.countP_cons_of_pos rfl, hz]
    · intro k hk
      rcases List.mem_cons.mp hk with heq | hk
      · cases heq
      · exact hi.read k hk

/-- The value of an entry is freed in its place by a call that has yet to write or erase it. -/
theorem freeEntry_inv (hi : Inv s) (he : s.frames.lookup a = some e) (hfree : e.freeing = false)
    (hunread : Cont.store (.frame (some e.value)) ∉ s.calls)
    (hentry : cont.entry? = some (a, e.id))
    (hweight : ∀ k, cont.weight k + (if k < s.next then 1 else 0) = if k < next then 1 else 0) :
    Inv ({ s with next }.freeEntry a e cont) := by
  have hon : ¬ cont.onData = true := by
    cases cont with
    | done | store source | restore previous => cases hentry
    | overwrite a id frame | erase a id => exact Bool.false_ne_true
  have hself : (s.frames.insert a { e with freeing := true }).lookup a = some { e with freeing := true } :=
    AList.lookup_insert _
  have hother : ∀ b, b ≠ a → (s.frames.insert a { e with freeing := true }).lookup b = s.frames.lookup b :=
    fun b hne => AList.lookup_insert_ne hne
  have hvisited : ({ s with next }.freeEntry a e cont).visited = (a, e.id) :: s.visited :=
    List.filterMap_cons_some hentry
  -- No call underway is at this entry.
  have hnot : a ∉ s.visited.map Prod.fst := by
    intro hmem
    obtain ⟨⟨a', id⟩, hin, rfl⟩ := List.mem_map.mp hmem
    obtain ⟨e', he', _, hf'⟩ := hi.entries _ id hin
    rw [Option.some.inj (he.symm.trans he'), hf'] at hfree
    cases hfree
  refine ⟨hi.sound, ?_, ?_, ?_, ?_, ?_, ?_⟩
  · intro k
    have hc := hi.count k
    have hw := hweight k
    have hr := released_update s.released e.value k
    have htotal : Table.total (fun _ e => e.weight k) (s.frames.insert a { e with freeing := true }) +
        e.weight k = 0 + s.ownedFrames k :=
      Table.total_insert_of_lookup (fun _ e => e.weight k) he { e with freeing := true }
    have hone : e.weight k = one (some e.value) k := by
      unfold Entry.weight
      rw [hfree, if_neg Bool.false_ne_true]
    show one s.exception k + s.ownedData k +
      Table.total (fun _ e => e.weight k) (s.frames.insert a { e with freeing := true }) +
      s.stack.count (some k) + (cont.weight k + s.ownedCalls k) +
      update s.released e.value (s.released e.value + 1) k + (s.handed k).toNat =
        if k < next then 1 else 0
    unfold owned at hc
    omega
  · exact (List.countP_cons_of_neg hon).trans hi.data
  · intro b id hmem
    rw [hvisited] at hmem
    rcases List.mem_cons.mp hmem with heq | hmem'
    · cases heq
      exact ⟨_, hself, rfl, rfl⟩
    · have hne : b ≠ a := by
        rintro rfl
        exact hnot (List.mem_map.mpr ⟨(b, id), hmem', rfl⟩)
      obtain ⟨e', he', hid, hf'⟩ := hi.entries b id hmem'
      exact ⟨e', (hother b hne).trans he', hid, hf'⟩
  · rw [hvisited, List.map_cons, List.nodup_cons]
    exact ⟨hnot, hi.distinct⟩
  · intro b e' he' hf'
    rw [hvisited, List.map_cons, List.mem_cons]
    by_cases heq : b = a
    · exact .inl heq
    · exact .inr (hi.flagged b e' ((hother b heq).symm.trans he') hf')
  · intro k hk
    rcases List.mem_cons.mp hk with heq | hk'
    · rw [← heq] at hentry
      cases hentry
    · obtain ⟨b, e', he', hv, hf'⟩ := hi.read k hk'
      have hne : b ≠ a := by
        rintro rfl
        rw [Option.some.inj (he.symm.trans he'), hv] at hunread
        exact hunread hk'
      exact ⟨b, e', (hother b hne).trans he', hv, hf'⟩

theorem releaseContextFrame_inv (hi : Inv s) (ha : Settled s a) (hu : Unread s a) :
    Inv (s.releaseContextFrame a) := by
  unfold State.releaseContextFrame
  rcases he : s.frames.lookup a with _ | e
  · exact hi
  · exact freeEntry_inv hi he (ha.freeing he) (hu.not_mem he) rfl fun _ => Nat.zero_add _

theorem captureContextFrame_inv (hi : Inv s)
    (ha : s.data = none ∨ s.dataFreeing = false ∧ Settled s a ∧ Unread s a) :
    Inv (s.captureContextFrame a) := by
  unfold State.captureContextFrame
  rcases hd : s.data with _ | k₀
  · exact hi
  obtain ⟨hf, hset, hu⟩ : s.dataFreeing = false ∧ Settled s a ∧ Unread s a := by
    rcases ha with hnone | hok
    · rw [hd] at hnone
      cases hnone
    · exact hok
  have hdup : s.dup k₀ = { s with next := s.next + 1 } := by
    unfold State.dup
    rw [hi.data_alive hd hf, decide_eq_false (by simp), Bool.or_false]
  dsimp only
  rw [hdup]
  dsimp only
  rcases he : s.frames.lookup a with _ | e
  · have hnot : a ∉ s.frames := AList.lookup_eq_none.mp he
    have hself : (s.frames.insert a { id := s.nextEntry, value := s.next }).lookup a =
        some { id := s.nextEntry, value := s.next } := AList.lookup_insert _
    have hother : ∀ b e', s.frames.lookup b = some e' →
        (s.frames.insert a { id := s.nextEntry, value := s.next }).lookup b = some e' := by
      intro b e' he'
      have hne : b ≠ a := by
        rintro rfl
        rw [he] at he'
        cases he'
      exact (AList.lookup_insert_ne hne).trans he'
    refine ⟨hi.sound, ?_, hi.data, ?_, hi.distinct, ?_, ?_⟩
    · intro k
      have hc := hi.count k
      have hn := next_succ s.next k
      have htotal : Table.total (fun _ e => e.weight k)
          (s.frames.insert a { id := s.nextEntry, value := s.next }) =
            one (some s.next) k + s.ownedFrames k :=
        Table.total_insert_of_notMem (fun _ e => e.weight k) hnot { id := s.nextEntry, value := s.next }
      show one s.exception k + s.ownedData k +
        Table.total (fun _ e => e.weight k) (s.frames.insert a { id := s.nextEntry, value := s.next }) +
        s.stack.count (some k) + s.ownedCalls k + s.released k + (s.handed k).toNat =
          if k < s.next + 1 then 1 else 0
      unfold owned at hc
      omega
    · intro b id hmem
      obtain ⟨e', he', hid, hf'⟩ := hi.entries b id hmem
      exact ⟨e', hother b e' he', hid, hf'⟩
    · intro b e' he' hf'
      by_cases heq : b = a
      · rw [heq] at he'
        cases hself.symm.trans he'
        cases hf'
      · exact hi.flagged b e' ((AList.lookup_insert_ne heq).symm.trans he') hf'
    · intro k hk
      obtain ⟨b, e', he', hv, hf'⟩ := hi.read k hk
      exact ⟨b, e', hother b e' he', hv, hf'⟩
  · refine freeEntry_inv hi he (hset.freeing he) (hu.not_mem he) rfl ?_
    intro k
    exact (Nat.add_comm ..).trans (next_succ s.next k).symm

theorem perform_inv {op : Op A} (hi : Inv s) (ha : Apart s op) : Inv (s.perform op) := by
  cases op with
  | setPendingException => exact setPendingException_inv hi
  | takePendingException => exact takePendingException_inv hi
  | clearPendingException => exact clearPendingException_inv hi
  | getData => exact getData_inv hi ha
  | setData defined =>
    refine replaceStoredValue_inv hi ha ?_
    intro k hk
    cases hk
  | captureContextFrame a => exact captureContextFrame_inv hi ha
  | enterContextFrame a => exact enterContextFrame_inv hi ha.1 ha.2
  | leaveContextFrame => exact leaveContextFrame_inv hi ha
  | releaseContextFrame a => exact releaseContextFrame_inv hi ha.1 ha.2

/-- While a call is at the data, the data is not counted. -/
theorem onData_freeing (hi : Inv s) (hc : s.calls = cont :: calls) (hon : cont.onData = true) :
    calls.countP Cont.onData = 0 ∧ ∀ k, s.ownedData k = 0 := by
  have hdata := hi.data
  rw [hc, List.countP_cons_of_pos hon] at hdata
  cases hf : s.dataFreeing with
  | false =>
    rw [hf] at hdata
    cases hdata
  | true =>
    rw [hf] at hdata
    refine ⟨Nat.succ.inj hdata, ?_⟩
    intro k
    unfold ownedData
    rw [hf, if_pos rfl]

/-- The entry a call comes back to is as the call left it, and no other call is at it. -/
theorem visited_entry {id : ℕ} (hi : Inv s) (hc : s.calls = cont :: calls)
    (hentry : cont.entry? = some (a, id)) :
    s.visited = (a, id) :: calls.filterMap Cont.entry? ∧
      a ∉ (calls.filterMap Cont.entry?).map Prod.fst ∧
      ∃ e, s.frames.lookup a = some e ∧ e.id = id ∧ e.freeing = true := by
  have hvisited : s.visited = (a, id) :: calls.filterMap Cont.entry? := by
    unfold State.visited
    rw [hc]
    exact List.filterMap_cons_some hentry
  have hdistinct := hi.distinct
  rw [hvisited, List.map_cons, List.nodup_cons] at hdistinct
  refine ⟨hvisited, hdistinct.1, hi.entries a id ?_⟩
  rw [hvisited]
  exact List.mem_cons_self ..

/-- The call writes or erases the entry it is at. -/
theorem entry_inv {id : ℕ} {frames : AList fun _ : A => Entry} (hi : Inv s)
    (hc : s.calls = cont :: calls) (hentry : cont.entry? = some (a, id))
    (hon : cont.onData = false) (hframes : ∀ b, b ≠ a → frames.lookup b = s.frames.lookup b)
    (hnew : ∀ e, frames.lookup a = some e → e.freeing = false)
    (htotal : ∀ k, Table.total (fun _ e => e.weight k) frames = s.ownedFrames k + cont.weight k) :
    Inv { s with calls, frames } := by
  obtain ⟨hvisited, hnot, e, he, _, hfree⟩ := visited_entry hi hc hentry
  refine ⟨hi.sound, ?_, ?_, ?_, ?_, ?_, ?_⟩
  · intro k
    have hk := hi.count k
    have ht := htotal k
    unfold owned ownedCalls at hk
    rw [hc, List.map_cons, List.sum_cons] at hk
    show one s.exception k + s.ownedData k + Table.total (fun _ e => e.weight k) frames +
      s.stack.count (some k) + (calls.map (Cont.weight k)).sum + s.released k + (s.handed k).toNat =
        if k < s.next then 1 else 0
    omega
  · have hdata := hi.data
    rw [hc, List.countP_cons_of_neg (by rw [hon]; exact Bool.false_ne_true)] at hdata
    exact hdata
  · intro b id' hmem
    have hne : b ≠ a := by
      rintro rfl
      exact hnot (List.mem_map.mpr ⟨(b, id'), hmem, rfl⟩)
    obtain ⟨e', he', hid, hf'⟩ := hi.entries b id' (hvisited ▸ List.mem_cons_of_mem _ hmem)
    exact ⟨e', (hframes b hne).trans he', hid, hf'⟩
  · have hdistinct := hi.distinct
    rw [hvisited, List.map_cons, List.nodup_cons] at hdistinct
    exact hdistinct.2
  · intro b e' he' hf'
    have hne : b ≠ a := by
      rintro rfl
      rw [hnew e' he'] at hf'
      cases hf'
    have hmem := hi.flagged b e' ((hframes b hne).symm.trans he') hf'
    rw [hvisited, List.map_cons, List.mem_cons] at hmem
    exact hmem.resolve_left hne
  · intro k hk
    obtain ⟨b, e', he', hv, hf'⟩ := hi.read k (hc ▸ List.mem_cons_of_mem _ hk)
    have hne : b ≠ a := by
      rintro rfl
      rw [Option.some.inj (he.symm.trans he'), hf'] at hfree
      cases hfree
    exact ⟨b, e', (hframes b hne).trans he', hv, hf'⟩

theorem resume_inv (hi : Inv s) (hc : s.calls = cont :: calls) :
    Inv ({ s with calls }.resume cont) := by
  have hsub : ∀ c ∈ calls, c ∈ s.calls := fun c hmem => hc ▸ List.mem_cons_of_mem _ hmem
  have hown : ∀ k, s.ownedCalls k = cont.weight k + (calls.map (Cont.weight k)).sum := by
    intro k
    unfold ownedCalls
    rw [hc]
    exact List.sum_cons
  have hskip : cont.entry? = none → calls.filterMap Cont.entry? = s.visited := by
    intro hnone
    unfold State.visited
    rw [hc]
    exact (List.filterMap_cons_none hnone).symm
  cases cont with
  | done =>
    have hvisited := hskip rfl
    refine ⟨hi.sound, ?_, ?_, ?_, ?_, ?_, fun k hk => hi.read k (hsub _ hk)⟩
    · intro k
      have hk := hi.count k
      unfold owned at hk
      rw [hown, show Cont.weight k (Cont.done : Cont A) = 0 from rfl, Nat.zero_add] at hk
      exact hk
    · have hdata := hi.data
      rw [hc, List.countP_cons_of_neg (by exact Bool.false_ne_true)] at hdata
      exact hdata
    · intro a id hmem
      exact hi.entries a id (hvisited ▸ hmem)
    · show ((calls.filterMap Cont.entry?).map Prod.fst).Nodup
      rw [hvisited]
      exact hi.distinct
    · intro a e he hf
      show a ∈ (calls.filterMap Cont.entry?).map Prod.fst
      rw [hvisited]
      exact hi.flagged a e he hf
  | store source =>
    obtain ⟨hon, hfree⟩ := onData_freeing hi hc rfl
    refine store_inv hi hfree hon hsub (hskip rfl) (fun k => ((hown k).trans (Nat.zero_add _)).symm) ?_
    intro k hk
    subst hk
    obtain ⟨a, e, he, rfl, hf⟩ := hi.read k (hc ▸ List.mem_cons_self ..)
    exact hi.entry_alive he hf
  | restore previous =>
    obtain ⟨hon, hfree⟩ := onData_freeing hi hc rfl
    show Inv { s with calls, data := previous, next := s.next, dataFreeing := false }
    refine assign_inv hi hfree hon hsub (hskip rfl) ?_
    intro k
    rw [hown]
    rfl
  | overwrite a id frame =>
    obtain ⟨_, _, e, he, rfl, hfree⟩ := visited_entry hi hc rfl
    show Inv (match s.frames.lookup a with
      | some e' => if e'.id = e.id then _ else _
      | none => _)
    rw [he]
    dsimp only
    rw [if_pos rfl]
    refine entry_inv hi hc rfl rfl (fun b hne => AList.lookup_insert_ne hne) ?_ ?_
    · intro e' he'
      cases (AList.lookup_insert _).symm.trans he'
      rfl
    · intro k
      have htotal := Table.total_insert_of_lookup (fun _ e => e.weight k) he ⟨e.id, frame, false⟩
      have hzero : e.weight k = 0 := by
        unfold Entry.weight
        rw [hfree, if_pos rfl]
      change _ + e.weight k = one (some frame) k + s.ownedFrames k at htotal
      change _ = s.ownedFrames k + one (some frame) k
      omega
  | erase a id =>
    obtain ⟨_, _, e, he, rfl, hfree⟩ := visited_entry hi hc rfl
    show Inv (match s.frames.lookup a with
      | some e' => if e'.id = e.id then _ else _
      | none => _)
    rw [he]
    dsimp only
    rw [if_pos rfl]
    refine entry_inv hi hc rfl rfl (fun b hne => AList.lookup_erase_ne hne) ?_ ?_
    · intro e' he'
      cases (AList.lookup_erase _ _).symm.trans he'
    · intro k
      have htotal := Table.total_erase (fun _ e => e.weight k) he
      have hzero : e.weight k = 0 := by
        unfold Entry.weight
        rw [hfree, if_pos rfl]
      change _ + e.weight k = s.ownedFrames k at htotal
      change _ = s.ownedFrames k + 0
      omega

/-- With no call underway every slot is counted. -/
theorem Inv.stored (hi : Inv s) (hc : s.calls = []) (k : ℕ) : s.owned k = s.stored k := by
  have hf : s.dataFreeing = false := by
    have hdata := hi.data
    rw [hc] at hdata
    cases hf : s.dataFreeing with
    | false => rfl
    | true =>
      rw [hf] at hdata
      cases hdata
  have hframes : s.ownedFrames k = Table.total (fun _ e => if e.value = k then 1 else 0) s.frames := by
    unfold State.ownedFrames Table.total
    refine congrArg List.sum (List.map_congr_left ?_)
    intro e hmem
    have hlookup : s.frames.lookup e.1 = some e.2 := AList.mem_lookup_iff.mpr hmem
    have hfree : e.2.freeing = false := by
      rw [Bool.eq_false_iff]
      intro hf'
      have hin := hi.flagged e.1 e.2 hlookup hf'
      unfold State.visited at hin
      rw [hc] at hin
      cases hin
    unfold Entry.weight one
    dsimp only
    rw [hfree, if_neg Bool.false_ne_true]
    simp only [Option.some_inj]
  unfold owned State.stored ownedData ownedCalls
  rw [hframes, hf, if_neg Bool.false_ne_true, hc]
  rfl

theorem clearValues_inv (hi : Inv s) (hc : s.calls = []) : Inv s.clearValues := by
  have hvisited : s.visited = [] := by
    unfold State.visited
    rw [hc]
    rfl
  refine ⟨hi.sound, ?_, hi.data, ?_, hi.distinct, nofun, ?_⟩
  · intro k
    have hk := hi.count k
    have hs := hi.stored hc k
    have hcalls : s.ownedCalls k = 0 := by
      unfold ownedCalls
      rw [hc]
      rfl
    show one none k + (if s.dataFreeing then 0 else one none k) + 0 + 0 + s.ownedCalls k +
      (s.released k + s.stored k) + (s.handed k).toNat = if k < s.next then 1 else 0
    rw [one_none, ite_self]
    omega
  · intro a id hmem
    change (a, id) ∈ s.visited at hmem
    rw [hvisited] at hmem
    cases hmem
  · intro k hk
    change _ ∈ s.calls at hk
    rw [hc] at hk
    cases hk

theorem step_inv {a : Act A} (hi : Inv s) (hsafe : Safe s a) (h : step s a = some t) : Inv t := by
  unfold step at h
  rw [if_neg (by rw [hi.sound]; exact Bool.false_ne_true)] at h
  cases a with
  | call op =>
    cases h
    exact perform_inv hi hsafe
  | ret =>
    dsimp only at h
    split at h
    · cases h
    · rename_i cont calls hc
      cases h
      exact resume_inv hi hc
  | clearValues =>
    dsimp only at h
    split at h
    · rename_i hc
      cases h
      exact clearValues_inv hi hc
    · cases h

theorem init_inv : Inv ({} : State A) := by
  exact ⟨rfl, fun _ => rfl, rfl, nofun, List.nodup_nil, nofun, nofun⟩

theorem Inv.accounted (hi : Inv s) : Accounted s := by
  refine ⟨?_, hi.sound, ?_⟩
  · intro k
    have hk := hi.count k
    split at hk <;> omega
  · intro hc k hlt
    have hk := hi.count k
    rw [hi.stored hc, if_pos hlt] at hk
    exact hk

/-- In a run whose calls leave alone what a call underway is at, no reference is released twice or
    lost, and none is used after its release. -/
theorem values_released_once {acts : List (Act A)} (hr : run step ({} : State A) acts = some s)
    (hsafe : AllSteps step Safe ({} : State A) acts) : Accounted s :=
  (invariant_of_allSteps (fun _ _ _ h hsafe hi => step_inv hi hsafe h) hr hsafe init_inv).accounted

end

/-- The finalizer of a pending exception sets another one, and the data; a frame's makes a frame
    for another promise. -/
def nested : List (Act ℕ) :=
  [.call .setPendingException, .call .setPendingException, .call .setPendingException, .ret,
    .call (.setData true), .ret, .call (.captureContextFrame 0), .call (.enterContextFrame 0), .ret,
    .call (.captureContextFrame 0), .call (.captureContextFrame 1), .ret, .call .leaveContextFrame,
    .call (.releaseContextFrame 1), .ret, .ret, .call .takePendingException, .clearValues]

theorem nested_accounted :
    ∃ s, run step ({} : State ℕ) nested = some s ∧ s.calls = [] ∧ s.released 0 = 1 ∧ Accounted s := by
  have hsafe : AllSteps step Safe ({} : State ℕ) nested := by decide
  exact ⟨_, rfl, rfl, rfl, values_released_once (show run step {} nested = some _ from rfl) hsafe⟩

/-- The data is an object whose finalizer sets the data. -/
def twice : List (Act ℕ) := [.call (.setData true), .call (.setData true), .call (.setData true)]

/-- It is released twice. -/
theorem twice_not_accounted : ∃ s, run step ({} : State ℕ) twice = some s ∧ ¬ Accounted s := by
  refine ⟨_, rfl, ?_⟩
  intro ha
  exact absurd (ha.once 0) (by decide)

end WasmerNapi.Quickjs.AgentValues
