import WasmerNapi.HostJs.Scopes

/-!
# References and deferreds

A reference holds a value: strongly while its count is positive, and weakly once the count
is 0, if the value is an object. Unless something else holds it, the object may be collected
then. A deferred settles the promise it was made with.

Guest code names values, references and deferreds by number and may name any; other calls
insert values and close scopes in between, and the collector runs at any time.
`right_iff_safe` says which calls do as they should: all of them do until one takes a
reference on a collected object, counts past the 32 bits, settles a deferred with an id that
is not live, or wants an id after the last one.
-/

namespace WasmerNapi.HostJs.References

open Function (update update_self update_of_ne)
open Run

structure Reference where
  strong : Option JsValue
  /-- The object a `WeakRef` is made for. -/
  weak : Option ℕ
  count : ℕ
  deriving DecidableEq

/-- A promise has been resolved, or rejected, with a value. -/
structure Outcome where
  reject : Bool
  value : JsValue
  deriving DecidableEq

/-- What a reference was made for, and its initial count and refs less the unrefs since,
    never below 0. -/
structure Tracked where
  target : JsValue
  count : ℕ
  deriving DecidableEq

/-- The tables of the agent; then what is left of the objects and promises; then what the
    calls have been given. -/
structure State where
  world : World := {}
  references : AList fun _ : ℕ => Reference := ∅
  nextReference : ℕ := 1
  /-- The two functions of a deferred settle one promise. -/
  deferreds : AList fun _ : ℕ => ℕ := ∅
  nextDeferred : ℕ := 1
  collected : Finset ℕ := ∅
  outcome : ℕ → Option Outcome := fun _ => none
  tracked : ℕ → Option Tracked := fun _ => none
  issuedReferences : List ℕ := []
  /-- With their promises. -/
  issuedDeferreds : List (ℕ × ℕ) := []

/-- Only an object can be held weakly. -/
def weakRef : JsValue → Option ℕ
  | .object n => some n
  | .primitive _ => none

def Reference.new (value : JsValue) (count : ℕ) : Reference :=
  match value with
  | .object n =>
    if count = 0 then { strong := none, weak := some n, count }
    else { strong := some value, weak := none, count }
  | .primitive _ => { strong := some value, weak := none, count }

namespace State

/-- `WeakRef::deref` -/
def deref (s : State) (n : ℕ) : Option JsValue :=
  if n ∈ s.collected then none else some (.object n)

def alive (s : State) : JsValue → Bool
  | .object n => decide (n ∉ s.collected)
  | .primitive _ => true

/-! ## The calls -/

def createReference (s : State) (value count : ℕ) : Option ℕ × State :=
  match s.world.agent.get value with
  | none => (none, s)
  | some value =>
    let id := s.nextReference
    (some id, { s with
      nextReference := Word.saturatingAdd 32 id 1
      references := s.references.insert id (.new value count) })

def deleteReference (s : State) (id : ℕ) : Bool × State :=
  match s.references.lookup id with
  | none => (false, s)
  | some _ => (true, { s with references := s.references.erase id })

/-- A weak reference is made strong first, with what is left of the object. -/
def strengthen (s : State) (r : Reference) : Reference :=
  if r.count = 0 ∧ r.strong = none then
    { r with strong := r.weak.bind s.deref, weak := none }
  else r

def referenceRef (s : State) (id : ℕ) : Option ℕ × State :=
  match s.references.lookup id with
  | none => (none, s)
  | some r =>
    let r := s.strengthen r
    let r := { r with count := Word.saturatingAdd 32 r.count 1 }
    (some r.count, { s with references := s.references.insert id r })

/-- JavaScript cannot weak-reference primitives: these stay. -/
def weaken (r : Reference) : Reference :=
  if r.count = 0 then
    match r.strong with
    | some (.object n) => { r with strong := none, weak := some n }
    | _ => r
  else r

def referenceUnref (s : State) (id : ℕ) : Option ℕ × State :=
  match s.references.lookup id with
  | none => (none, s)
  | some r =>
    let r := weaken { r with count := r.count - 1 }
    (some r.count, { s with references := s.references.insert id r })

/-- An id of the value, 0 if it is gone. With no id free the call does not return. -/
def getReferenceValue (s : State) (id : ℕ) : Option (Option ℕ × State) :=
  match s.references.lookup id with
  | none => some (none, s)
  | some r =>
    match r.strong.or (r.weak.bind s.deref) with
    | none => some (some 0, s)
    | some value => (s.world.agent.insert value).map fun i =>
        (some i.1, { s with world := s.world.give value i })

/-- The deferred and an id of the promise. -/
def createPromise (s : State) (promise : ℕ) : Option ((ℕ × ℕ) × State) :=
  let deferred := s.nextDeferred
  (s.world.agent.insert (.object promise)).map fun i =>
    ((deferred, i.1), { s with
      nextDeferred := Word.saturatingAdd 32 deferred 1
      deferreds := s.deferreds.insert deferred promise
      world := s.world.give (.object promise) i })

/-- What a promise's two functions do: the first of their calls settles it. They do not throw. -/
def conclude (s : State) (promise : ℕ) (o : Outcome) : State :=
  if s.outcome promise = none then
    { s with outcome := update s.outcome promise (some o) }
  else s

/-- Whether the call returns `NAPI_OK`. -/
def settle (s : State) (deferred value : ℕ) (reject : Bool) : Bool × State :=
  match s.deferreds.lookup deferred with
  | none => (false, s)
  | some promise =>
    let s := { s with deferreds := s.deferreds.erase deferred }
    match s.world.agent.get value with
    | none => (false, s)
    | some v => (true, s.conclude promise { reject, value := v })

end State

/-! ## Runs -/

inductive Call
  /-- Another call, on the handle table. -/
  | handles (act : Action)
  /-- The collector takes an object that the agent does not hold. -/
  | collect (n : ℕ)
  | createReference (value : ℕ) (count : UInt32)
  | deleteReference (id : ℕ)
  | referenceRef (id : ℕ)
  | referenceUnref (id : ℕ)
  | getReferenceValue (id : ℕ)
  /-- The promise is a new object. -/
  | createPromise (promise : ℕ)
  | settle (deferred value : ℕ) (reject : Bool)

namespace State

def held (s : State) (n : ℕ) : Bool :=
  (s.world.agent.valueHandles.keys.any fun id => s.world.agent.get id = some (.object n)) ||
    s.references.entries.any fun e => e.2.strong = some (.object n)

def retally (s t : State) (id : ℕ) (f : Tracked → ℕ) : State :=
  { t with
    tracked := update s.tracked id ((s.tracked id).map fun r => { r with count := f r }) }

def step (s : State) : Call → Option State
  | .handles act =>
    if (World.inserted act).all s.alive then
      (s.world.step act).map fun w => { s with world := w }
    else none
  | .collect n => if s.held n then none else some { s with collected := insert n s.collected }
  | .createReference value count =>
    let r := s.createReference value count.toNat
    some (match r.1 with
      | none => r.2
      | some id => { r.2 with
          issuedReferences := id :: s.issuedReferences
          tracked := update s.tracked id
            ((s.world.agent.get value).map fun target => { target, count := count.toNat }) })
  | .deleteReference id =>
    some { (s.deleteReference id).2 with tracked := update s.tracked id none }
  | .referenceRef id => some <| s.retally (s.referenceRef id).2 id fun r =>
      if s.alive r.target then r.count + 1 else r.count
  | .referenceUnref id => some (s.retally (s.referenceUnref id).2 id fun r => r.count - 1)
  | .getReferenceValue id => (s.getReferenceValue id).map Prod.snd
  | .createPromise promise =>
    if promise ∈ s.issuedDeferreds.map Prod.snd ∨ promise ∈ s.collected then none
    else (s.createPromise promise).map fun r =>
      { r.2 with issuedDeferreds := (r.1.1, promise) :: s.issuedDeferreds }
  | .settle deferred value reject => some (s.settle deferred value reject).2

/-! ## What the calls should do -/

/-- The deferred is there to be settled. -/
def Usable (s : State) (deferred promise : ℕ) : Prop := s.deferreds.lookup deferred = some promise

/-- What holds between the calls. -/
structure Holds (s : State) : Prop where
  /-- A target is held strongly exactly while its count is positive or it is a primitive. -/
  strong : ∀ id r, s.tracked id = some r → ∃ x, s.references.lookup id = some x ∧
    x.strong = if 0 < r.count ∨ weakRef r.target = none then some r.target else none
  /-- Nothing takes a deferred from the table but what settles its promise. -/
  usable : ∀ deferred promise, (deferred, promise) ∈ s.issuedDeferreds →
    s.outcome promise = none → s.Usable deferred promise

/-- What a call should report. -/
def Reports (s : State) : Call → Prop
  | .createReference value count =>
    ∀ id, (s.createReference value count.toNat).1 = some id → id ∉ s.issuedReferences
  | .referenceRef id => ∀ r, s.tracked id = some r →
      (s.referenceRef id).1 = some (if s.alive r.target then r.count + 1 else 0)
  | .referenceUnref id => ∀ r, s.tracked id = some r → s.alive r.target = true →
      (s.referenceUnref id).1 = some (r.count - 1)
  | .getReferenceValue id => ∀ r, s.tracked id = some r → 0 < r.count ∨ s.alive r.target = true →
      s.world.agent.nextHandle ≠ none →
        ∃ value t, s.getReferenceValue id = some (some value, t) ∧
          t.world.agent.get value = some r.target
  | .createPromise promise => ∀ r, s.createPromise promise = some r →
      r.1.1 ∉ s.issuedDeferreds.map Prod.fst
  | _ => True

/-- The promise of the deferred has not been settled. -/
def Pending (s : State) (deferred : ℕ) : Prop :=
  ∃ promise, (deferred, promise) ∈ s.issuedDeferreds ∧ s.outcome promise = none

/-- What a call should do to the promises. -/
def Settles (s : State) : Call → Prop
  | .settle deferred value reject =>
    let r := s.settle deferred value reject
    (r.1 = true ↔ s.Pending deferred ∧ s.world.agent.get value ≠ none) ∧
      (r.1 = true → ∃ promise v, (deferred, promise) ∈ s.issuedDeferreds ∧
        s.world.agent.get value = some v ∧
        r.2.outcome = update s.outcome promise (some { reject, value := v })) ∧
      (r.1 = false → r.2.outcome = s.outcome ∧
        ∀ promise, (deferred, promise) ∈ s.issuedDeferreds → s.outcome promise = none →
          r.2.Usable deferred promise)
  | call => ∀ t, s.step call = some t → t.outcome = s.outcome

def Right (s : State) (call : Call) : Prop := s.Reports call ∧ s.Settles call

/-- The ids from 1 on. -/
def maxIds : ℕ := 2 ^ 32 - 1

def Safe (s : State) : Call → Prop
  | .createReference value _ =>
    s.world.agent.get value ≠ none → s.issuedReferences.length < maxIds
  | .referenceRef id => ∀ r, s.tracked id = some r →
      s.alive r.target = true ∧ r.count < 2 ^ 32 - 1
  | .createPromise _ => s.world.agent.nextHandle ≠ none → s.issuedDeferreds.length < maxIds
  | .settle deferred value _ => s.Pending deferred → s.world.agent.get value ≠ none
  | _ => True

/-! ## Ids -/

/-- The ids issued are the numbers from 1 on, and the next is the one after them as long as
    there is one. -/
structure Issued (next : ℕ) (ids : List ℕ) : Prop where
  next_eq : next = min (ids.length + 1) maxIds
  mem_iff : ∀ id, id ∈ ids ↔ 0 < id ∧ id ≤ ids.length

theorem Issued.fresh_iff {next : ℕ} {ids : List ℕ} (h : Issued next ids) :
    next ∉ ids ↔ ids.length < maxIds := by
  have hpos : 0 < maxIds := by decide
  rw [h.mem_iff, h.next_eq]
  omega

theorem Issued.cons {next : ℕ} {ids : List ℕ} (h : Issued next ids) (hlt : ids.length < maxIds) :
    Issued (Word.saturatingAdd 32 next 1) (next :: ids) := by
  have hnext : next = ids.length + 1 := by
    rw [h.next_eq]
    omega
  refine ⟨?_, fun id => ?_⟩
  · rw [Word.saturatingAdd, hnext]
    rfl
  · rw [List.mem_cons, h.mem_iff, hnext, List.length_cons]
    omega

/-! ## One reference -/

variable {s t : State}

/-- A reference and what it should be. -/
inductive Tied (alive : JsValue → Bool) : Reference → Tracked → Prop
  | strong {target : JsValue} {count : ℕ} (halive : alive target = true)
      (hlt : count < 2 ^ 32) (hheld : 0 < count ∨ weakRef target = none) :
      Tied alive ⟨some target, none, count⟩ ⟨target, count⟩
  | weak (n : ℕ) : Tied alive ⟨none, some n, 0⟩ ⟨.object n, 0⟩

/-- The references and what they should be. -/
def Ties (alive : JsValue → Bool) (references : AList fun _ : ℕ => Reference)
    (tracked : ℕ → Option Tracked) : Prop :=
  ∀ id, Option.Rel (Tied alive) (references.lookup id) (tracked id)

theorem deref_eq (s : State) (n : ℕ) :
    s.deref n = if s.alive (.object n) then some (.object n) else none := by
  by_cases h : n ∈ s.collected <;> simp [deref, alive, h]

theorem Tied.new {target : JsValue} (halive : s.alive target = true) {count : ℕ}
    (hlt : count < 2 ^ 32) : Tied s.alive (.new target count) ⟨target, count⟩ := by
  cases target with
  | primitive n => exact .strong halive hlt (.inr rfl)
  | object n =>
    by_cases hcount : count = 0
    · subst hcount
      exact .weak n
    · rw [Reference.new, if_neg hcount]
      exact .strong halive hlt (.inl (Nat.pos_of_ne_zero hcount))

variable {alive : JsValue → Bool} {x : Reference} {r : Tracked}

/-- The collector does not take what the reference holds. -/
theorem Tied.keep {alive' : JsValue → Bool} (h : Tied alive x r)
    (hkeep : ∀ v, x.strong = some v → alive v = true → alive' v = true) :
    Tied alive' x r := by
  cases h with
  | strong halive hlt hheld => exact .strong (hkeep _ rfl halive) hlt hheld
  | weak n => exact .weak n

theorem Tied.strong_eq (h : Tied s.alive x r) :
    x.strong = if 0 < r.count ∨ weakRef r.target = none then some r.target else none := by
  cases h with
  | strong halive hlt hheld => rw [if_pos hheld]
  | weak n =>
    rw [if_neg]
    rintro (hcount | hweak)
    · cases hcount
    · cases hweak

/-- What `get` hands out. -/
theorem Tied.value_eq (h : Tied s.alive x r) :
    x.strong.or (x.weak.bind s.deref) = if s.alive r.target then some r.target else none := by
  cases h with
  | strong halive hlt hheld => rw [if_pos halive, Option.some_or]
  | weak n => rw [Option.none_or, Option.bind_some, deref_eq]

theorem Tied.alive_of_count (h : Tied s.alive x r) (hcount : 0 < r.count) :
    s.alive r.target = true := by
  cases h with
  | strong halive hlt hheld => exact halive
  | weak n => cases hcount

theorem Tied.count_eq (h : Tied s.alive x r) :
    x.count = r.count ∧ r.count < 2 ^ 32 := by
  cases h with
  | strong halive hlt hheld => exact ⟨rfl, hlt⟩
  | weak n => exact ⟨rfl, Nat.two_pow_pos 32⟩

theorem strengthen_count (s : State) (x : Reference) : (s.strengthen x).count = x.count := by
  unfold strengthen
  split <;> rfl

theorem weaken_count (x : Reference) : (weaken x).count = x.count := by
  unfold weaken
  split
  · split <;> rfl
  · rfl

theorem Tied.ref (h : Tied s.alive x r) (halive : s.alive r.target = true)
    (hlt : r.count + 1 < 2 ^ 32) :
    Tied s.alive { s.strengthen x with count := Word.saturatingAdd 32 (s.strengthen x).count 1 }
      { r with count := r.count + 1 } := by
  have hcount : Word.saturatingAdd 32 (s.strengthen x).count 1 = r.count + 1 := by
    rw [strengthen_count, h.count_eq.1, Word.saturatingAdd]
    omega
  rw [hcount]
  cases h with
  | strong _ _ hheld =>
    rw [strengthen, if_neg (by simp)]
    exact .strong halive hlt (.inl (Nat.succ_pos _))
  | weak n =>
    rw [strengthen, if_pos ⟨rfl, rfl⟩, Option.bind_some, deref_eq, if_pos halive]
    exact .strong halive hlt (.inl (Nat.succ_pos _))

theorem Tied.unref (h : Tied s.alive x r) :
    Tied s.alive (weaken { x with count := x.count - 1 }) { r with count := r.count - 1 } := by
  cases h with
  | weak n => exact .weak n
  | @strong target count halive hlt hheld =>
    by_cases hcount : count - 1 = 0
    · rw [weaken, if_pos hcount]
      dsimp only
      rw [hcount]
      cases target with
      | object n => exact .weak n
      | primitive n => exact .strong halive (by decide) (.inr rfl)
    · rw [weaken, if_neg hcount]
      exact .strong halive ((Nat.sub_le count 1).trans_lt hlt) (.inl (Nat.pos_of_ne_zero hcount))

/-! ## The invariant -/

/-- What the ids of values name is held, and so is alive. -/
structure HandlesInv (s : State) : Prop where
  keeps : ∃ leaked, s.world.Keeps leaked
  values : ∀ id v, s.world.agent.get id = some v → s.alive v = true

structure ReferencesInv (s : State) : Prop where
  tied : Ties s.alive s.references s.tracked
  issued : Issued s.nextReference s.issuedReferences

structure DeferredsInv (s : State) : Prop where
  issued : Issued s.nextDeferred (s.issuedDeferreds.map Prod.fst)
  distinct : (s.issuedDeferreds.map Prod.fst).Nodup ∧ (s.issuedDeferreds.map Prod.snd).Nodup
  lookup_iff : ∀ deferred promise, s.deferreds.lookup deferred = some promise ↔
    (deferred, promise) ∈ s.issuedDeferreds ∧ s.outcome promise = none
  settled : ∀ promise, s.outcome promise ≠ none → promise ∈ s.issuedDeferreds.map Prod.snd

structure Inv (s : State) : Prop where
  handles : s.HandlesInv
  references : s.ReferencesInv
  deferreds : s.DeferredsInv

theorem Inv.init : Inv {} where
  handles := by
    refine ⟨⟨_, World.Keeps.init⟩, ?_⟩
    intro id v h
    rw [HostJsAgent.get_of_not_mem (AList.notMem_empty id)] at h
    cases h
  references := by
    refine ⟨fun id => .none, by decide, ?_⟩
    intro id
    simp only [List.not_mem_nil, List.length_nil, false_iff]
    omega
  deferreds := by
    refine ⟨⟨by decide, ?_⟩, ⟨.nil, .nil⟩, ?_, ?_⟩
    · intro id
      simp only [List.map_nil, List.not_mem_nil, List.length_nil, false_iff]
      omega
    · intro deferred promise
      simp
    · intro promise h
      exact absurd rfl h

/-! ## The handles -/

theorem insert_handles (h : s.HandlesInv) {value : JsValue} (halive : s.alive value = true)
    {i : ℕ × HostJsAgent} (hi : s.world.agent.insert value = some i) :
    ({ s with world := s.world.give value i } : State).HandlesInv := by
  obtain ⟨leaked, hk⟩ := h.keeps
  have hstep : s.world.step (.insert value) = some (s.world.give value i) := by
    rw [World.step, hi]
    rfl
  obtain ⟨leaked', hk', _⟩ := hk.step hstep
  refine ⟨⟨leaked', hk'⟩, fun id v hget => ?_⟩
  rcases World.get_of_step hk hstep hget with hbefore | hinserted
  · exact h.values id v hbefore
  · cases hinserted
    exact halive

variable {n : ℕ}

theorem not_held (h : ¬ s.held n = true) :
    (∀ id, s.world.agent.get id ≠ some (.object n)) ∧
      ∀ id x, s.references.lookup id = some x → x.strong ≠ some (.object n) := by
  simp only [held, Bool.or_eq_true, List.any_eq_true, decide_eq_true_eq, not_or, not_exists,
    not_and] at h
  refine ⟨fun id hget => ?_, fun id x hx hstrong => ?_⟩
  · have hmem : id ∈ s.world.agent.valueHandles := by
      by_contra hnot
      rw [HostJsAgent.get_of_not_mem hnot] at hget
      cases hget
    exact h.1 id hmem hget
  · exact h.2 ⟨id, x⟩ (AList.mem_lookup_iff.mp hx) hstrong

theorem alive_collect {v : JsValue} (hne : v ≠ .object n) (h : s.alive v = true) :
    ({ s with collected := insert n s.collected } : State).alive v = true := by
  cases v with
  | primitive _ => rfl
  | object m =>
    have hm : m ≠ n := fun heq => hne (congrArg JsValue.object heq)
    simpa [alive, hm] using h

/-! ## The references -/

theorem lookup_tracked (h : s.ReferencesInv) {id : ℕ} (hr : s.tracked id = some r) :
    ∃ x, s.references.lookup id = some x ∧ Tied s.alive x r := by
  have htied := h.tied id
  rw [hr] at htied
  cases hx : s.references.lookup id with
  | none =>
    rw [hx] at htied
    cases htied
  | some x =>
    rw [hx] at htied
    cases htied with
    | some htied => exact ⟨x, rfl, htied⟩

variable {references : AList fun _ : ℕ => Reference} {tracked : ℕ → Option Tracked}

theorem Ties.keep {alive' : JsValue → Bool} (h : Ties alive references tracked)
    (hkeep : ∀ id x v, references.lookup id = some x → x.strong = some v →
      alive v = true → alive' v = true) : Ties alive' references tracked := by
  intro id
  have htied := h id
  have hkeep' := hkeep id
  revert htied hkeep'
  generalize references.lookup id = x?, tracked id = r?
  intro htied hkeep'
  cases htied with
  | some hxr => exact .some (hxr.keep fun v => hkeep' _ v rfl)
  | none => exact .none

/-- Another entry and what it should be, side by side. -/
theorem Ties.insert (h : Ties alive references tracked) (id : ℕ) (hxr : Tied alive x r) :
    Ties alive (references.insert id x) (update tracked id (some r)) := by
  intro id'
  by_cases hid : id' = id
  · subst hid
    rw [AList.lookup_insert, update_self]
    exact .some hxr
  · rw [AList.lookup_insert_ne hid, update_of_ne hid]
    exact h id'

theorem Ties.erase (h : Ties alive references tracked) (id : ℕ) :
    Ties alive (references.erase id) (update tracked id none) := by
  intro id'
  by_cases hid : id' = id
  · subst hid
    rw [AList.lookup_erase, update_self]
    exact .none
  · rw [AList.lookup_erase_ne hid, update_of_ne hid]
    exact h id'

/-- The table with the entry replaced, if there is one. -/
def replaced (s : State) (id : ℕ) (g : Reference → Reference) : AList fun _ : ℕ => Reference :=
  match s.references.lookup id with
  | none => s.references
  | some x => s.references.insert id (g x)

theorem referenceRef_snd (s : State) (id : ℕ) : (s.referenceRef id).2 =
    { s with references := s.replaced id fun x =>
        { s.strengthen x with count := Word.saturatingAdd 32 (s.strengthen x).count 1 } } := by
  unfold referenceRef replaced
  cases s.references.lookup id <;> rfl

theorem referenceUnref_snd (s : State) (id : ℕ) : (s.referenceUnref id).2 =
    { s with references := s.replaced id fun x => weaken { x with count := x.count - 1 } } := by
  unfold referenceUnref replaced
  cases s.references.lookup id <;> rfl

theorem ties_replaced (h : Ties s.alive s.references s.tracked) (id : ℕ)
    {g : Reference → Reference} {f : Tracked → ℕ}
    (hg : ∀ x r, s.tracked id = some r → Tied s.alive x r →
      Tied s.alive (g x) { r with count := f r }) :
    Ties s.alive (s.replaced id g)
      (update s.tracked id ((s.tracked id).map fun r => { r with count := f r })) := by
  have htied := h id
  unfold replaced
  cases hr : s.tracked id with
  | none =>
    rw [hr] at htied
    rw [Option.map_none, ← hr, Function.update_eq_self]
    cases hx : s.references.lookup id with
    | none => exact h
    | some x =>
      rw [hx] at htied
      cases htied
  | some r =>
    rw [hr] at htied
    cases hx : s.references.lookup id with
    | none =>
      rw [hx] at htied
      cases htied
    | some x =>
      rw [hx] at htied
      cases htied with
      | some hxr => exact h.insert id (hg x r hr hxr)

theorem deleteReference_snd (s : State) (id : ℕ) :
    (s.deleteReference id).2 = { s with references := s.references.erase id } := by
  unfold deleteReference
  cases hx : s.references.lookup id with
  | none =>
    have herase : s.references.erase id = s.references := by
      refine AList.ext ?_
      exact List.kerase_of_notMem_keys (AList.lookup_eq_none.mp hx)
    rw [herase]
  | some x => rfl

/-! ## The deferreds -/

/-- One deferred has one promise, and one promise one deferred. -/
theorem issued_unique (h : s.DeferredsInv) {a b : ℕ × ℕ} (ha : a ∈ s.issuedDeferreds)
    (hb : b ∈ s.issuedDeferreds) (heq : a.1 = b.1 ∨ a.2 = b.2) : a = b := by
  rcases heq with heq | heq
  · exact List.inj_on_of_nodup_map h.distinct.1 ha hb heq
  · exact List.inj_on_of_nodup_map h.distinct.2 ha hb heq

theorem pending_iff (h : s.DeferredsInv) (deferred : ℕ) :
    s.Pending deferred ↔ ∃ promise, s.deferreds.lookup deferred = some promise :=
  exists_congr fun promise => (h.lookup_iff deferred promise).symm

variable {value deferred promise : ℕ}

theorem settle_eq {v : JsValue} (reject : Bool)
    (hlookup : s.deferreds.lookup deferred = some promise) (hpending : s.outcome promise = none)
    (hget : s.world.agent.get value = some v) : s.settle deferred value reject =
      (true, { s with
        deferreds := s.deferreds.erase deferred
        outcome := update s.outcome promise (some { reject, value := v }) }) := by
  unfold settle conclude
  rw [hlookup]
  dsimp only
  rw [hget]
  dsimp only
  rw [if_pos hpending]

/-- The promise of a deferred is settled, and the deferred gone. -/
theorem conclude_inv (h : s.DeferredsInv) (hlookup : s.deferreds.lookup deferred = some promise)
    (o : Outcome) :
    ({ s with
        deferreds := s.deferreds.erase deferred
        outcome := update s.outcome promise (some o) } : State).DeferredsInv where
  issued := h.issued
  distinct := h.distinct
  lookup_iff deferred' promise' := by
    obtain ⟨hmem, _⟩ := (h.lookup_iff deferred promise).mp hlookup
    rw [Table.lookup_erase_iff, h.lookup_iff]
    change _ ↔ (deferred', promise') ∈ s.issuedDeferreds ∧
      update s.outcome promise (some o) promise' = none
    by_cases hpromise : promise' = promise
    · subst hpromise
      rw [update_self]
      constructor
      · rintro ⟨hne, hmem', _⟩
        exact absurd (congrArg Prod.fst (issued_unique h hmem' hmem (.inr rfl))) hne
      · rintro ⟨_, hnone⟩
        cases hnone
    · rw [update_of_ne hpromise]
      constructor
      · exact And.right
      · rintro ⟨hmem', hnone⟩
        refine ⟨?_, hmem', hnone⟩
        rintro rfl
        exact hpromise (congrArg Prod.snd (issued_unique h hmem' hmem (.inl rfl)))
  settled promise' hne := by
    obtain ⟨hmem, _⟩ := (h.lookup_iff deferred promise).mp hlookup
    by_cases hpromise : promise' = promise
    · subst hpromise
      exact List.mem_map_of_mem hmem
    · dsimp only at hne
      rw [update_of_ne hpromise] at hne
      exact h.settled promise' hne

theorem createPromise_inv (h : s.DeferredsInv) (hnew : promise ∉ s.issuedDeferreds.map Prod.snd)
    (hsafe : s.issuedDeferreds.length < maxIds) :
    ({ s with
        nextDeferred := Word.saturatingAdd 32 s.nextDeferred 1
        deferreds := s.deferreds.insert s.nextDeferred promise
        issuedDeferreds := (s.nextDeferred, promise) :: s.issuedDeferreds } : State).DeferredsInv := by
  have hlength : (s.issuedDeferreds.map Prod.fst).length < maxIds := by
    rwa [List.length_map]
  have hfresh := h.issued.fresh_iff.mpr hlength
  refine ⟨h.issued.cons hlength, ⟨?_, ?_⟩, ?_, ?_⟩
  · exact List.nodup_cons.mpr ⟨hfresh, h.distinct.1⟩
  · exact List.nodup_cons.mpr ⟨hnew, h.distinct.2⟩
  · intro deferred' promise'
    change (s.deferreds.insert s.nextDeferred promise).lookup deferred' = some promise' ↔
      (deferred', promise') ∈ (s.nextDeferred, promise) :: s.issuedDeferreds ∧
        s.outcome promise' = none
    have hpending : s.outcome promise = none := by
      by_contra hne
      exact hnew (h.settled promise hne)
    rw [Table.lookup_insert_iff, h.lookup_iff, List.mem_cons, Prod.mk.injEq]
    constructor
    · rintro (⟨rfl, rfl⟩ | ⟨_, hmem, hnone⟩)
      · exact ⟨.inl ⟨rfl, rfl⟩, hpending⟩
      · exact ⟨.inr hmem, hnone⟩
    · rintro ⟨⟨rfl, rfl⟩ | hmem, hnone⟩
      · exact .inl ⟨rfl, rfl⟩
      · refine .inr ⟨?_, hmem, hnone⟩
        rintro rfl
        exact hfresh (List.mem_map_of_mem hmem)
  · intro promise' hne
    exact List.mem_cons_of_mem _ (h.settled promise' hne)

/-! ## The steps -/

/-- The handle table does not concern the references and deferreds, as long as what it names is
    alive. -/
theorem Inv.withWorld (h : s.Inv) {w : World} (hw : ({ s with world := w } : State).HandlesInv) :
    ({ s with world := w } : State).Inv where
  handles := hw
  references := ⟨h.references.tied, h.references.issued⟩
  deferreds := ⟨h.deferreds.issued, h.deferreds.distinct, h.deferreds.lookup_iff,
    h.deferreds.settled⟩

theorem Inv.handlesStep (h : s.Inv) {act : Action} (hstep : s.step (.handles act) = some t) :
    t.Inv := by
  rw [step] at hstep
  split at hstep
  · rename_i halive
    obtain ⟨w, hw, rfl⟩ := Option.map_eq_some_iff.mp hstep
    obtain ⟨leaked, hk⟩ := h.handles.keeps
    obtain ⟨leaked', hk', _⟩ := hk.step hw
    refine h.withWorld ⟨⟨leaked', hk'⟩, fun id v hget => ?_⟩
    rcases World.get_of_step hk hw hget with hbefore | hinserted
    · exact h.handles.values id v hbefore
    · rw [hinserted] at halive
      exact halive
  · cases hstep

theorem Inv.collectStep (h : s.Inv) (hstep : s.step (.collect n) = some t) : t.Inv := by
  rw [step] at hstep
  split at hstep
  · cases hstep
  · rename_i hheld
    obtain ⟨hvalues, hreferences⟩ := not_held hheld
    cases hstep
    refine ⟨⟨h.handles.keeps, fun id v hget => ?_⟩, ⟨h.references.tied.keep ?_,
      h.references.issued⟩, ⟨h.deferreds.issued, h.deferreds.distinct, h.deferreds.lookup_iff,
      h.deferreds.settled⟩⟩
    · refine alive_collect ?_ (h.handles.values id v hget)
      rintro rfl
      exact hvalues id hget
    · intro id x v hx hstrong halive
      refine alive_collect ?_ halive
      rintro rfl
      exact hreferences id x hx hstrong

/-- Only the references have changed. -/
theorem Inv.withReferences (h : s.Inv) {nextReference : ℕ} {issuedReferences : List ℕ}
    (hties : Ties s.alive references tracked) (hissued : Issued nextReference issuedReferences) :
    ({ s with references, tracked, nextReference, issuedReferences } : State).Inv where
  handles := ⟨h.handles.keeps, h.handles.values⟩
  references := ⟨hties, hissued⟩
  deferreds := ⟨h.deferreds.issued, h.deferreds.distinct, h.deferreds.lookup_iff,
    h.deferreds.settled⟩

theorem Inv.createReferenceStep (h : s.Inv) {count : UInt32}
    (hstep : s.step (.createReference value count) = some t)
    (hsafe : s.Safe (.createReference value count)) : t.Inv := by
  cases hstep
  rw [createReference]
  cases hget : s.world.agent.get value with
  | none => exact h
  | some target =>
    have hlt := hsafe (by rw [hget]; exact Option.some_ne_none target)
    exact h.withReferences
      (h.references.tied.insert _ (.new (h.handles.values value target hget) count.toNat_lt))
      (h.references.issued.cons hlt)

theorem Inv.settleStep (h : s.Inv) {reject : Bool} (hsafe : s.Safe (.settle deferred value reject)) :
    (s.settle deferred value reject).2.Inv := by
  cases hlookup : s.deferreds.lookup deferred with
  | none =>
    rw [settle, hlookup]
    exact h
  | some promise =>
    have hpending := (h.deferreds.lookup_iff deferred promise).mp hlookup
    obtain ⟨v, hget⟩ := Option.ne_none_iff_exists'.mp (hsafe ⟨promise, hpending⟩)
    rw [settle_eq reject hlookup hpending.2 hget]
    exact ⟨⟨h.handles.keeps, h.handles.values⟩, ⟨h.references.tied, h.references.issued⟩,
      conclude_inv h.deferreds hlookup _⟩

/-- An insert returns when there is an id free. -/
theorem insert_eq_none_iff (a : HostJsAgent) (value : JsValue) :
    a.insert value = none ↔ a.nextHandle = none := by
  unfold HostJsAgent.insert
  cases a.nextHandle with
  | none => simp
  | some r =>
    cases value with
    | primitive n => simp
    | object n =>
      dsimp only
      cases r.2.objectIds n with
      | none => simp
      | some previous =>
        dsimp only
        split <;> simp

theorem Inv.createPromiseStep (h : s.Inv) (hstep : s.step (.createPromise promise) = some t)
    (hsafe : s.Safe (.createPromise promise)) : t.Inv := by
  rw [step] at hstep
  split at hstep
  · cases hstep
  · rename_i hnew
    rw [not_or] at hnew
    obtain ⟨r, hr, rfl⟩ := Option.map_eq_some_iff.mp hstep
    obtain ⟨i, hi, rfl⟩ := Option.map_eq_some_iff.mp hr
    have hnext : s.world.agent.nextHandle ≠ none := by
      rw [Ne, ← insert_eq_none_iff _ (.object promise), hi]
      exact Option.some_ne_none i
    have hpromise := createPromise_inv h.deferreds hnew.1 (hsafe hnext)
    have halive : s.alive (.object promise) = true := decide_eq_true hnew.2
    have hhandles := insert_handles h.handles halive hi
    exact ⟨⟨hhandles.keeps, hhandles.values⟩, ⟨h.references.tied, h.references.issued⟩,
      { hpromise with }⟩

theorem Inv.getStep (h : s.Inv) {id : ℕ} (hstep : s.step (.getReferenceValue id) = some t) :
    t.Inv := by
  obtain ⟨r, hr, rfl⟩ := Option.map_eq_some_iff.mp hstep
  rw [getReferenceValue] at hr
  have htied := h.references.tied id
  cases hx : s.references.lookup id with
  | none =>
    rw [hx] at hr
    cases hr
    exact h
  | some x =>
    rw [hx] at hr htied
    dsimp only at hr
    cases hv : x.strong.or (x.weak.bind s.deref) with
    | none =>
      rw [hv] at hr
      cases hr
      exact h
    | some value =>
      rw [hv] at hr
      obtain ⟨i, hi, rfl⟩ := Option.map_eq_some_iff.mp hr
      refine h.withWorld (insert_handles h.handles ?_ hi)
      cases hr' : s.tracked id with
      | none =>
        rw [hr'] at htied
        cases htied
      | some r =>
        rw [hr'] at htied
        cases htied with
        | some hxr =>
          rw [hxr.value_eq] at hv
          split at hv
          · rename_i halive
            exact Option.some.inj hv ▸ halive
          · cases hv

variable {call : Call}

theorem Inv.step (h : s.Inv) (hstep : s.step call = some t) (hsafe : s.Safe call) :
    t.Inv := by
  cases call with
  | handles act => exact h.handlesStep hstep
  | collect n => exact h.collectStep hstep
  | createReference value count => exact h.createReferenceStep hstep hsafe
  | deleteReference id =>
    cases hstep
    rw [deleteReference_snd]
    exact h.withReferences (h.references.tied.erase id) h.references.issued
  | referenceRef id =>
    cases hstep
    rw [referenceRef_snd]
    refine h.withReferences (ties_replaced h.references.tied id fun x r hr hxr => ?_)
      h.references.issued
    obtain ⟨halive, hlt⟩ := hsafe r hr
    rw [if_pos halive]
    exact hxr.ref halive (Nat.add_lt_of_lt_sub hlt)
  | referenceUnref id =>
    cases hstep
    rw [referenceUnref_snd]
    exact h.withReferences (ties_replaced h.references.tied id fun x r _ hxr => hxr.unref)
      h.references.issued
  | getReferenceValue id => exact h.getStep hstep
  | createPromise promise => exact h.createPromiseStep hstep hsafe
  | settle deferred value reject =>
    cases hstep
    exact h.settleStep hsafe

theorem Inv.holds (h : s.Inv) : s.Holds where
  strong id r hr := by
    obtain ⟨x, hx, hxr⟩ := lookup_tracked h.references hr
    exact ⟨x, hx, hxr.strong_eq⟩
  usable deferred promise hmem hnone := (h.deferreds.lookup_iff deferred promise).mpr ⟨hmem, hnone⟩

/-! ## What the calls do -/

/-- A reference is taken as it should be exactly when the target is there and the count has
    room. -/
theorem reports_ref_iff (h : s.Inv) (id : ℕ) :
    s.Reports (.referenceRef id) ↔ s.Safe (.referenceRef id) := by
  refine forall₂_congr fun r hr => ?_
  obtain ⟨x, hx, hxr⟩ := lookup_tracked h.references hr
  have hreport : (s.referenceRef id).1 = some (Word.saturatingAdd 32 r.count 1) := by
    rw [referenceRef, hx]
    exact congrArg (fun n => some (Word.saturatingAdd 32 n 1))
      ((strengthen_count s x).trans hxr.count_eq.1)
  have hlt := hxr.count_eq.2
  rw [hreport, Option.some.injEq, Word.saturatingAdd]
  by_cases halive : s.alive r.target = true
  · rw [if_pos halive]
    simp only [halive, true_and]
    omega
  · rw [if_neg halive]
    simp only [halive, Bool.false_eq_true, false_and, iff_false]
    omega

theorem reports_unref (h : s.Inv) (id : ℕ) : s.Reports (.referenceUnref id) := by
  intro r hr _
  obtain ⟨x, hx, hxr⟩ := lookup_tracked h.references hr
  rw [referenceUnref, hx]
  exact congrArg some ((weaken_count _).trans (congrArg (· - 1) hxr.count_eq.1))

theorem reports_get (h : s.Inv) (id : ℕ) : s.Reports (.getReferenceValue id) := by
  intro r hr hcause hnext
  obtain ⟨x, hx, hxr⟩ := lookup_tracked h.references hr
  have halive : s.alive r.target = true := hcause.elim hxr.alive_of_count fun halive => halive
  have hvalue := hxr.value_eq
  rw [if_pos halive] at hvalue
  obtain ⟨leaked, hk⟩ := h.handles.keeps
  obtain ⟨i, hi⟩ := Option.ne_none_iff_exists'.mp
    (mt (insert_eq_none_iff s.world.agent r.target).mp hnext)
  refine ⟨i.1, { s with world := s.world.give r.target i }, ?_, (hk.insert_get hi).1⟩
  rw [getReferenceValue, hx]
  dsimp only
  rw [hvalue]
  dsimp only
  rw [hi]
  rfl

theorem reports_createReference_iff (h : s.Inv) (value : ℕ) (count : UInt32) :
    s.Reports (.createReference value count) ↔ s.Safe (.createReference value count) := by
  rw [Reports, Safe, createReference, ← h.references.issued.fresh_iff]
  cases s.world.agent.get value with
  | none => simp
  | some target => simp

theorem reports_createPromise_iff (h : s.Inv) (promise : ℕ) :
    s.Reports (.createPromise promise) ↔ s.Safe (.createPromise promise) := by
  have hlength : (s.issuedDeferreds.map Prod.fst).length = s.issuedDeferreds.length :=
    List.length_map _
  rw [Reports, Safe, ← hlength, ← h.deferreds.issued.fresh_iff, createPromise, Ne,
    ← insert_eq_none_iff _ (.object promise)]
  cases s.world.agent.insert (.object promise) with
  | none => simp
  | some i => simp

/-- A deferred is settled by the first call that says so; one that fails takes it away when its
    id of the value is not live. -/
theorem settles_iff (h : s.Inv) (deferred value : ℕ) (reject : Bool) :
    s.Settles (.settle deferred value reject) ↔ s.Safe (.settle deferred value reject) := by
  rw [Safe, Settles, pending_iff h.deferreds]
  cases hlookup : s.deferreds.lookup deferred with
  | none =>
    have hsettle : s.settle deferred value reject = (false, s) := by rw [settle, hlookup]
    have hnone : ¬ ∃ promise, (none : Option ℕ) = some promise := fun ⟨_, hp⟩ => nomatch hp
    rw [hsettle]
    refine iff_of_true ⟨?_, ?_, ?_⟩ fun hpending => absurd hpending hnone
    · simp
    · exact fun hfalse => absurd hfalse Bool.false_ne_true
    · exact fun _ => ⟨rfl, fun promise hmem hp => (h.deferreds.lookup_iff _ _).mpr ⟨hmem, hp⟩⟩
  | some promise =>
    have hpending := (h.deferreds.lookup_iff deferred promise).mp hlookup
    cases hget : s.world.agent.get value with
    | none =>
      -- the deferred is taken before the value is looked up
      have hsettle : s.settle deferred value reject =
          (false, { s with deferreds := s.deferreds.erase deferred }) := by
        rw [settle, hlookup]
        dsimp only
        rw [hget]
      rw [hsettle]
      refine iff_of_false (fun hright => ?_) fun hsafe => hsafe ⟨promise, rfl⟩ rfl
      have husable := (hright.2.2 rfl).2 promise hpending.1 hpending.2
      rw [Usable, AList.lookup_erase] at husable
      cases husable
    | some v =>
      rw [settle_eq reject hlookup hpending.2 hget]
      refine iff_of_true ⟨?_, ?_, ?_⟩ fun _ => Option.some_ne_none v
      · simp
      · exact fun _ => ⟨promise, v, hpending.1, rfl, rfl⟩
      · exact fun hfalse => absurd hfalse.symm Bool.false_ne_true

/-- Only `settle` does anything to a promise. -/
theorem step_outcome (hcall : ∀ deferred value reject, call ≠ .settle deferred value reject)
    (hstep : s.step call = some t) : t.outcome = s.outcome := by
  cases call with
  | handles act =>
    rw [step] at hstep
    split at hstep
    · obtain ⟨w, -, rfl⟩ := Option.map_eq_some_iff.mp hstep
      rfl
    · cases hstep
  | collect n =>
    rw [step] at hstep
    split at hstep
    · cases hstep
    · cases hstep
      rfl
  | createReference value count =>
    cases hstep
    rw [createReference]
    cases s.world.agent.get value <;> rfl
  | deleteReference id =>
    cases hstep
    rw [deleteReference_snd]
  | referenceRef id =>
    cases hstep
    rw [referenceRef_snd]
    rfl
  | referenceUnref id =>
    cases hstep
    rw [referenceUnref_snd]
    rfl
  | getReferenceValue id =>
    obtain ⟨r, hr, rfl⟩ := Option.map_eq_some_iff.mp hstep
    rw [getReferenceValue] at hr
    cases hx : s.references.lookup id with
    | none =>
      rw [hx] at hr
      cases hr
      rfl
    | some x =>
      rw [hx] at hr
      dsimp only at hr
      cases hv : x.strong.or (x.weak.bind s.deref) with
      | none =>
        rw [hv] at hr
        cases hr
        rfl
      | some value =>
        rw [hv] at hr
        obtain ⟨i, -, rfl⟩ := Option.map_eq_some_iff.mp hr
        rfl
  | createPromise promise =>
    rw [step] at hstep
    split at hstep
    · cases hstep
    · obtain ⟨r, hr, rfl⟩ := Option.map_eq_some_iff.mp hstep
      obtain ⟨i, -, rfl⟩ := Option.map_eq_some_iff.mp hr
      rfl
  | settle deferred value reject => exact absurd rfl (hcall deferred value reject)

theorem settles_of_ne (hcall : ∀ deferred value reject, call ≠ .settle deferred value reject) :
    s.Settles call := by
  cases call with
  | settle deferred value reject => exact absurd rfl (hcall deferred value reject)
  | _ => exact fun _ hstep => step_outcome hcall hstep

/-- A call does as it should exactly when it is safe. -/
theorem right_iff (h : s.Inv) (call : Call) : s.Right call ↔ s.Safe call := by
  cases call with
  | settle deferred value reject =>
    rw [Right, settles_iff h]
    exact and_iff_right trivial
  | createReference value count =>
    rw [Right, reports_createReference_iff h]
    exact and_iff_left (settles_of_ne fun _ _ _ => nofun)
  | referenceRef id =>
    rw [Right, reports_ref_iff h]
    exact and_iff_left (settles_of_ne fun _ _ _ => nofun)
  | createPromise promise =>
    rw [Right, reports_createPromise_iff h]
    exact and_iff_left (settles_of_ne fun _ _ _ => nofun)
  | referenceUnref id => exact iff_of_true ⟨reports_unref h id, settles_of_ne fun _ _ _ => nofun⟩ trivial
  | getReferenceValue id => exact iff_of_true ⟨reports_get h id, settles_of_ne fun _ _ _ => nofun⟩ trivial
  | handles act => exact iff_of_true ⟨trivial, settles_of_ne fun _ _ _ => nofun⟩ trivial
  | collect n => exact iff_of_true ⟨trivial, settles_of_ne fun _ _ _ => nofun⟩ trivial
  | deleteReference id => exact iff_of_true ⟨trivial, settles_of_ne fun _ _ _ => nofun⟩ trivial

/-- **References and deferreds.** A run's calls all do as they should, and the strong holds and the
    deferreds are as they should be in all its states, exactly when its calls are all safe. -/
theorem right_iff_safe (calls : List Call) :
    AllSteps step Right {} calls ∧ AllStates step Holds {} calls ↔ AllSteps step Safe {} calls := by
  have hinv : ∀ s a s', step s a = some s' → Safe s a → Inv s → Inv s' :=
    fun _ _ _ hstep hsafe h => h.step hstep hsafe
  constructor
  · rintro ⟨hright, -⟩
    exact (allSteps_iff_allSteps hinv (fun _ a h => right_iff h a) Inv.init).mp hright
  · intro hsafe
    refine ⟨(allSteps_iff_allSteps hinv (fun _ a h => right_iff h a) Inv.init).mpr hsafe, ?_, ?_⟩
    · exact Inv.init.holds
    · exact allSteps_of_invariant hinv
        (fun s a hsafe h s' hstep => (h.step hstep hsafe).holds) hsafe Inv.init

/-- A weak reference to an object that is collected when its scope has been closed. -/
def deadCalls : List Call :=
  [.handles .openHandleScope, .handles (.insert (.object 7)), .createReference 1 0,
    .handles (.closeHandleScope 2), .collect 7]

/-- Taking it once more reports 1. -/
theorem dead_not_right : ¬ ∀ calls, AllSteps step Right {} calls ∧ AllStates step Holds {} calls := by
  intro h
  obtain ⟨hright, -⟩ := h (deadCalls ++ [.referenceRef 1])
  obtain ⟨⟨hreports, -⟩, -⟩ := hright.2 _ rfl |>.2 _ rfl |>.2 _ rfl |>.2 _ rfl |>.2 _ rfl
  have hcount := hreports ⟨.object 7, 0⟩ rfl
  exact absurd hcount (by decide)

end State

end WasmerNapi.HostJs.References
