import WasmerNapi.Lib.Run
import WasmerNapi.Lib.Table

/-!
# Records of modules

`src/quickjs/src/internal/napi_module_wrap.cc`: a module handle is the address of its record, and
`records_` lists the records there are. `destroy` frees a record, later when a `record_scope` is
open on it. Freeing values runs finalizers, and engine calls run script, so any operation may be
called from inside another; the stack has the ones that are underway, each where script may run
next, and only the one on top goes on.

Addresses are used again. Every record has an `id` of its own, and a frame and a link remember
the id of the record they mean; the program has only the address. `fault` says that a record was
used when it was no longer there.

`link`, `create_source_text`, `set_module_source_object` and `get_creation_metadata` hold on to a
record across script with no scope open on it, and `link` also to the records it links to.
-/

namespace WasmerNapi.Quickjs.ModuleRecords

open Run

variable {A K : Type} [DecidableEq A] [DecidableEq K]

/-- `napi_module_wrap__::record`. A request is its specifier and attributes. -/
structure Record (A K : Type) where
  id : ℕ
  activeCalls : ℕ := 0
  destroyRequested : Bool := false
  requests : List K := []
  linkedRecords : List (Option (A × ℕ)) := []
  /-- It has been put into `records_`. -/
  registered : Bool := false

/-- What is underway. -/
inductive Frame (A K : Type) where
  /-- `create_source_text` and `create_synthetic`, before the record is listed. -/
  | creating (a : A) (id : ℕ) (requests : List K)
  /-- In `cache_module_requests`. -/
  | caching (a : A) (id : ℕ) (requests : List K)
  /-- In the setters of the wrapper. -/
  | naming (a : A) (id : ℕ)
  /-- In `free_record`, once the record is out of the list and of all links. -/
  | freeing (a : A) (id : ℕ)
  /-- A `record_scope`: instantiate, evaluate, the facade and the callbacks of a module. -/
  | recordScope (a : A) (id : ℕ)
  /-- `link`, freeing the values of the old links. -/
  | unlinking (a : A) (id : ℕ) (linked : List A)
  /-- `link`, in `JS_SetModuleRequestModule` for request `i`. -/
  | linking (a : A) (id : ℕ) (linked : List A) (i : ℕ) (target : A) (targetId : ℕ)
  /-- `link`, about to read the wrapper of link `i`, or its own after the last link. -/
  | retaining (a : A) (id : ℕ) (count i : ℕ)
  /-- `set_module_source_object` and `get_creation_metadata`. -/
  | holding (a : A) (id : ℕ)
  | teardown
  deriving DecidableEq

/-- `frees` counts how often the record with an id was freed, and `early` says that one was with
    a scope open on it. -/
structure State (A K : Type) where
  heap : A → Option (Record A K) := fun _ => none
  records : List A := []
  tornDown : Bool := false
  next : ℕ := 0
  stack : List (Frame A K) := []
  frees : ℕ → ℕ := fun _ => 0
  early : Bool := false
  fault : Bool := false

/-- `create`: the allocator gives the address. `call`: an operation with a scope, by handle.
    `reach`: one by the engine's module, which asks for no handle. `advance`: the operation on top
    goes on; `ok` is what became of the engine call it was in. `linkable`: the module is not linked
    yet, and all are of one realm. -/
inductive Act (A K : Type) where
  | create (a : A) (requests : List K)
  | destroy (a : A)
  | link (a : A) (linked : List A) (linkable : Bool)
  | call (a : A)
  | reach (a : A)
  | use (a : A)
  | teardown
  | advance (ok : Bool)

namespace State

/-- The record a frame means, if it is still there. -/
def recordAt (s : State A K) (a : A) (id : ℕ) : Option (Record A K) :=
  (s.heap a).filter fun r => r.id = id

/-- `find`. -/
def find (s : State A K) (a : A) : Option (Record A K) :=
  if s.records.contains a then (s.heap a).filter fun r => !r.destroyRequested else none

def setRecord (s : State A K) (a : A) (r : Record A K) : State A K :=
  { s with heap := Function.update s.heap a (some r) }

def push (s : State A K) (f : Frame A K) : State A K := { s with stack := f :: s.stack }

/-- A freed address is no link any more. -/
def nullLinks (a : A) (r : Record A K) : Record A K :=
  { r with linkedRecords := r.linkedRecords.map fun l => l.filter fun l => l.1 ≠ a }

/-- `free_record`. A record that is gone is freed again. -/
def freeRecord (s : State A K) (a : A) (id : ℕ) : State A K :=
  match s.recordAt a id with
  | none => { s with fault := true, frees := Function.update s.frees id (s.frees id + 1) }
  | some r =>
    if r.activeCalls ≠ 0 then s.setRecord a { r with destroyRequested := true }
    else
      let records := s.records.erase a
      { s with
        records
        heap := fun b => if records.contains b then (s.heap b).map (nullLinks a) else s.heap b
        frees := Function.update s.frees id (s.frees id + 1)
        early := s.early || s.stack.contains (.recordScope a id)
        stack := .freeing a id :: s.stack }

/-- The frame on top used a record that was gone. -/
def crash (s : State A K) : State A K := { s with fault := true }

/-- The loop of `link`, from request `i` to the next engine call. -/
def linkNext (s : State A K) (a : A) (id : ℕ) (r : Record A K) (linked : List A) (i : ℕ) : State A K :=
  match linked[i]? with
  | none => s.push (.retaining a id linked.length 0)
  | some target =>
    match s.find target with
    -- The linked module is invalid.
    | none => s
    | some t =>
      let mismatch := (List.range i).any fun j =>
        r.requests[i]? = r.requests[j]? && r.linkedRecords[j]? ≠ some (some (target, t.id))
      if mismatch then s else s.push (.linking a id linked i target t.id)

/-- The frame, which has been taken off the stack, goes on. -/
def advance (s : State A K) (ok : Bool) : Frame A K → State A K
  | .creating a id requests =>
    if ok then
      match s.recordAt a id with
      | none => s.crash
      | some r =>
        { s.setRecord a { r with registered := true } with records := s.records ++ [a] }.push
          (.caching a id requests)
    else s.freeRecord a id
  | .caching a id requests =>
    match s.recordAt a id with
    | none => if ok then s.crash else s.freeRecord a id
    | some r =>
      if ok then (s.setRecord a { r with requests }).push (.naming a id) else s.freeRecord a id
  | .naming a id => if ok then s else s.freeRecord a id
  | .freeing a id =>
    match s.recordAt a id with
    | none => s.crash
    | some _ => { s with heap := Function.update s.heap a none }
  | .recordScope a id =>
    match s.recordAt a id with
    | none => s.crash
    | some r =>
      let s := s.setRecord a { r with activeCalls := r.activeCalls - 1 }
      if r.activeCalls - 1 = 0 ∧ r.destroyRequested = true then s.freeRecord a id else s
  | .unlinking a id linked =>
    match s.recordAt a id with
    | none => s.crash
    | some r =>
      let r := { r with linkedRecords := [] }
      (s.setRecord a r).linkNext a id r linked 0
  | .linking a id linked i target targetId =>
    if ok then
      match s.recordAt a id with
      | none => s.crash
      | some r =>
        let r := { r with linkedRecords := r.linkedRecords ++ [some (target, targetId)] }
        let s := s.setRecord a r
        -- `JS_DupModuleValue` of the linked record's module.
        match s.recordAt target targetId with
        | none => s.crash
        | some _ => s.linkNext a id r linked (i + 1)
    else s
  | .retaining a id count i =>
    if ok then
      match s.recordAt a id with
      | none => s.crash
      | some r =>
        -- After the loop comes `get_wrapper(entry)`, and no record is used any more.
        if i = count then s
        else
          match r.linkedRecords[i]? with
          | some (some (target, targetId)) =>
            match s.recordAt target targetId with
            | none => s.crash
            | some _ => s.push (.retaining a id count (i + 1))
          | some none | none => s.crash
    else s
  | .holding a id =>
    match s.recordAt a id with
    | none => s.crash
    | some _ => s
  | .teardown =>
    match s.records.getLast? with
    | none => { s with tornDown := true }
    | some a =>
      match s.heap a with
      | none => s.crash
      | some r => (s.push .teardown).freeRecord a r.id

end State

def step (s : State A K) : Act A K → Option (State A K)
  | .create a requests =>
    match s.heap a with
    | some _ => none
    | none =>
      some ({ s.setRecord a { id := s.next } with next := s.next + 1 }.push (.creating a s.next requests))
  | .destroy a =>
    match s.find a with
    | none => some s
    | some r => some (s.freeRecord a r.id)
  | .link a linked linkable =>
    match s.find a with
    | none => some s
    | some r =>
      if linked.length = r.requests.length ∧ linkable = true ∧ ∀ t ∈ linked, (s.find t).isSome = true then
        some (s.push (.unlinking a r.id linked))
      else some s
  | .call a =>
    match s.find a with
    | none => some s
    | some r => some ((s.setRecord a { r with activeCalls := r.activeCalls + 1 }).push (.recordScope a r.id))
  | .reach a =>
    if s.records.contains a then
      (s.heap a).map fun r =>
        (s.setRecord a { r with activeCalls := r.activeCalls + 1 }).push (.recordScope a r.id)
    else none
  | .use a =>
    match s.find a with
    | none => some s
    | some r => some (s.push (.holding a r.id))
  | .teardown => if s.tornDown then some s else some (s.push .teardown)
  | .advance ok =>
    match s.stack with
    | [] => none
    | f :: fs => some ({ s with stack := fs }.advance ok f)

/-! ## What is to hold -/

/-- The life of the records in a state. A record that `create_source_text` or `create_synthetic`
    has made is put into `records_` a little later; until it is, only the operation that makes it
    knows of it, so `listed` and `ends` are about those that have been, and `kept` about all. -/
structure Lifetime (s : State A K) : Prop where
  /-- No record was used that was gone. -/
  defined : s.fault = false
  once : ∀ id, s.frees id ≤ 1
  /-- None was freed with a scope open on it. -/
  unscoped : s.early = false
  /-- `records_` has the records that were put into it and are not freed yet. -/
  listed : ∀ a, a ∈ s.records ↔ ∃ r, s.heap a = some r ∧ r.registered = true ∧ s.frees r.id = 0
  kept : ∀ id < s.next, s.frees id = 0 → ∃ a r, s.heap a = some r ∧ r.id = id
  /-- A link is to a record that is listed, and to the one that was meant. -/
  links : ∀ a r, a ∈ s.records → s.heap a = some r → ∀ b i, some (b, i) ∈ r.linkedRecords →
    b ∈ s.records ∧ ∃ t, s.heap b = some t ∧ t.id = i
  found : ∀ a r, s.find a = some r → r.destroyRequested = false
  /-- With no scope open, `teardown` ends, and has freed every record that was listed. -/
  ends : s.stack.head? = some .teardown → (∀ a id, Frame.recordScope a id ∉ s.stack) →
    ∃ n t, run step s (List.replicate n (.advance true)) = some t ∧ t.records = [] ∧
      t.tornDown = true ∧ ∀ a r, a ∈ s.records → s.heap a = some r → t.frees r.id = 1

/-- What the frames and the lists know of a record. -/
structure Cell (A : Type) where
  id : ℕ
  registered : Bool
  links : List (Option (A × ℕ))

def State.cells (s : State A K) (a : A) : Option (Cell A) :=
  (s.heap a).map fun r => ⟨r.id, r.registered, r.linkedRecords⟩

namespace Frame

variable (c : A → Option (Cell A)) (x : ℕ)

/-- The links of the record at `a` from `i` on have one to `x`. -/
def linksTo (a : A) (i : ℕ) : Bool :=
  (c a).any fun cell => (cell.links.drop i).any fun l => l.any fun l => decide (l.2 = x)

/-- The operation goes on to use the record `x`, with no scope open on it. -/
def borrows : Frame A K → Bool
  | .creating _ id _ | .caching _ id _ | .naming _ id | .unlinking _ id _ | .holding _ id => id = x
  | .linking a id _ _ _ targetId => id = x || targetId = x || linksTo c x a 0
  | .retaining a id _ i => id = x || linksTo c x a i
  | .freeing _ _ | .recordScope _ _ | .teardown => false

/-- It is a `link` of the record. -/
def linksOf : Frame A K → Bool
  | .unlinking _ id _ | .linking _ id _ _ _ _ | .retaining _ id _ _ => id = x
  | .creating _ _ _ | .caching _ _ _ | .naming _ _ | .freeing _ _ | .recordScope _ _ | .holding _ _
  | .teardown => false

end Frame

/-- No record is destroyed that an operation underway goes on to use, and none is linked again
    from inside its own `link`. -/
def Safe (s : State A K) : Act A K → Prop
  | .destroy a =>
    ((s.find a).all fun r => s.stack.all fun f => !f.borrows s.cells r.id) = true
  | .link a _ _ => ((s.find a).all fun r => s.stack.all fun f => !f.linksOf r.id) = true
  | .advance _ =>
    s.stack.head? = some .teardown →
      ((s.records.getLast?.bind s.heap).all fun r => s.stack.all fun f => !f.borrows s.cells r.id) = true
  | .create _ _ | .call _ | .reach _ | .use _ | .teardown => True

instance (s : State A K) : ∀ a, Decidable (Safe s a)
  | .destroy _ | .link _ _ _ => inferInstanceAs (Decidable (_ = _))
  | .advance _ => inferInstanceAs (Decidable (_ → _))
  | .create _ _ | .call _ | .reach _ | .use _ | .teardown => inferInstanceAs (Decidable True)

end WasmerNapi.Quickjs.ModuleRecords
