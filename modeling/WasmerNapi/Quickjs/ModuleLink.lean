import Mathlib

/-!
# Linking a module in the QuickJS backend

`napi_module_wrap__::link` in `src/quickjs/src/internal/napi_module_wrap.cc`, with the key it
compares requests by. A module handle of type `M` stands for its record and its engine module;
the table says which are alive.

What the engine's `JS_ToCString` gives of a string is a parameter, and which of its calls fail for
want of memory is another.
-/

namespace WasmerNapi.Quickjs.ModuleLink

/-- A JavaScript string, in code units. -/
abbrev JSString := List UInt16

/-- The import attributes of a request: an object's own enumerable string properties. -/
structure Attributes where
  props : List (JSString × JSString)
  distinct : (props.map Prod.fst).Nodup

/-- `JSModuleRequest` -/
structure Request where
  moduleName : JSString
  attributes : Option Attributes

/-- `request_record`; the specifier is a C string's bytes. -/
structure RequestRecord where
  specifier : List UInt8
  attributes : Attributes

/-! ## The key -/

section Key

variable (toCString : JSString → List UInt8)

/-- What a `std::string` made from a C string keeps of it. -/
def stdString (bytes : List UInt8) : List UInt8 := bytes.takeWhile (· ≠ 0)

/-- `value_to_string` -/
def valueToString (value : JSString) : List UInt8 := stdString (toCString value)

/-- `clone_attributes` -/
def cloneAttributes (value : Option Attributes) : Attributes :=
  value.getD { props := [], distinct := List.nodup_nil }

/-- `cache_module_requests` -/
def cacheModuleRequests (requests : List Request) : List RequestRecord :=
  requests.map fun request =>
    { specifier := valueToString toCString request.moduleName
      attributes := cloneAttributes request.attributes }

/-- One attribute: `key=value`. -/
def part (prop : JSString × JSString) : List UInt8 :=
  valueToString toCString prop.1 ++ 0x3d :: valueToString toCString prop.2

/-- `attributes_key`: the parts, sorted and joined by commas, in braces. -/
def attributesKey (attributes : Attributes) : List UInt8 :=
  let parts := (attributes.props.map (part toCString)).insertionSort (· ≤ ·)
  0x7b :: [0x2c].intercalate parts ++ [0x7d]

/-- The key of a request: the specifier, a newline, and the attributes. -/
def key (request : RequestRecord) : List UInt8 :=
  request.specifier ++ 0x0a :: attributesKey toCString request.attributes

end Key

/-! ## `link` -/

/-- A record, with what belongs to its engine module and its wrapper: the realm, whether the
    engine has linked it, the engine's request links and the wrapper's dependency list. -/
structure Record (M : Type) where
  ctx : ℕ
  unlinked : Bool
  requests : List RequestRecord
  linkedRecords : List M := []
  linkedModuleValues : List M := []
  requestModules : ℕ → Option M := fun _ => none
  dependencies : Option (List M) := none

inductive Failure where
  | invalidArg
  | linkFailure (message : String)
  | alreadyLinked
  | differentContext
  /-- Requests `j` and `i`; the specifier of the latter. -/
  | mismatch (specifier : List UInt8) (j i : ℕ)
  /-- An engine call failed. -/
  | engine
  deriving DecidableEq

/-- `count` and `linked_modules`. -/
inductive Linked (M : Type) where
  | null (count : ℕ)
  | array (modules : List M)

def Linked.count {M : Type} : Linked M → ℕ
  | .null count => count
  | .array modules => modules.length

/-- The engine calls that fail: `JS_SetModuleRequestModule` for a request, and what makes the
    dependency list. -/
structure Fails where
  setRequest : ℕ → Bool := fun _ => false
  retain : Bool := false

section

variable {M : Type} [DecidableEq M] (toCString : JSString → List UInt8) (fails : Fails)
  (records : M → Option (Record M))

/-- The first pass over the linked modules. -/
def validate (ctx : ℕ) : List M → Except Failure Unit
  | [] => .ok ()
  | m :: ms =>
    match records m with
    | none => .error (.linkFailure "Linked module is invalid")
    | some linked => if linked.ctx ≠ ctx then .error .differentContext else validate ctx ms

/-- Whether request `j` has the key of request `i`. -/
def sameKey (requests : List RequestRecord) (j i : ℕ) : Bool :=
  (requests[j]?.map (key toCString)) == requests[i]?.map (key toCString)

/-- The first earlier request with the key of request `i` that is linked to another module. -/
def previous (requests : List RequestRecord) (linkedRecords : List M) (i : ℕ) (m : M) : Option ℕ :=
  (List.range i).find? fun j => sameKey toCString requests j i && linkedRecords[j]? != some m

/-- The second pass, which links request after request from `i` on. -/
def relink : ℕ → List M → Record M → Record M × Except Failure Unit
  | _, [], entry => (entry, .ok ())
  | i, m :: ms, entry =>
    match records m with
    | none => (entry, .error (.linkFailure "Linked module is invalid"))
    | some _ =>
      match previous toCString entry.requests entry.linkedRecords i m with
      | some j =>
        (entry, .error (.mismatch ((entry.requests[i]?.map RequestRecord.specifier).getD []) j i))
      | none =>
        if fails.setRequest i then (entry, .error .engine)
        else
          relink (i + 1) ms
            { entry with
              requestModules := Function.update entry.requestModules i (some m)
              linkedRecords := entry.linkedRecords ++ [m]
              linkedModuleValues := entry.linkedModuleValues ++ [m] }

/-- The wrapper's list of the modules its module is linked to. -/
def retain (entry : Record M) : Record M × Except Failure Unit :=
  if fails.retain then (entry, .error .engine)
  else ({ entry with dependencies := some entry.linkedRecords }, .ok ())

/-- `link` on a record, all checks passed. -/
def replaceLinks (modules : List M) (entry : Record M) : Record M × Except Failure Unit :=
  match relink toCString fails records 0 modules
    { entry with linkedRecords := [], linkedModuleValues := [] } with
  | (entry, .error e) => (entry, .error e)
  | (entry, .ok ()) => retain fails entry

/-- `link` on a record. -/
def linkRecord (linked : Linked M) (entry : Record M) : Record M × Except Failure Unit :=
  if linked.count ≠ entry.requests.length then
    (entry, .error (.linkFailure "linked modules array length mismatch"))
  else
    match linked with
    | .null (_ + 1) => (entry, .error (.linkFailure "linked module missing"))
    | .null 0 =>
      if !entry.unlinked then (entry, .error .alreadyLinked)
      else replaceLinks toCString fails records [] entry
    | .array modules =>
      if !entry.unlinked then (entry, .error .alreadyLinked)
      else
        match validate records entry.ctx modules with
        | .error e => (entry, .error e)
        | .ok () => replaceLinks toCString fails records modules entry

/-- `napi_module_wrap__::link` -/
def link (module : M) (linked : Linked M) : (M → Option (Record M)) × Except Failure Unit :=
  match records module with
  | none => (records, .error .invalidArg)
  | some entry =>
    let (entry, result) := linkRecord toCString fails records linked entry
    (Function.update records module (some entry), result)

end

/-! ## What `link` is to do -/

section

variable {M : Type}

def Linked.modules : Linked M → List M
  | .null _ => []
  | .array modules => modules

/-- An error leaves everything as it was, unless it is the engine's; success links request `i` to
    module `i`. -/
structure Atomic (before after : M → Option (Record M)) (module : M) (linked : Linked M)
    (result : Except Failure Unit) : Prop where
  unchanged : ∀ e, result = .error e → e ≠ .engine → after = before
  linkedTo : ∀ entry, result = .ok () → after module = some entry →
    entry.linkedRecords = linked.modules ∧ entry.linkedModuleValues = linked.modules ∧
      entry.dependencies = some linked.modules ∧
        ∀ i < linked.count, entry.requestModules i = linked.modules[i]?

/-- The two requests have the same specifier and the same attributes. -/
def Request.Same (r r' : Request) : Prop :=
  r.moduleName = r'.moduleName ∧
    ∀ prop, prop ∈ (cloneAttributes r.attributes).props ↔
      prop ∈ (cloneAttributes r'.attributes).props

/-- Two requests that are the same are given different modules. -/
def Conflict (requests : List Request) (modules : List M) : Prop :=
  ∃ j i, j < i ∧ i < modules.length ∧ modules[j]? ≠ modules[i]? ∧
    ∃ r r', requests[j]? = some r ∧ requests[i]? = some r' ∧ r.Same r'

/-- Two requests that differ have the same key, and are given different modules. -/
def Confusion (toCString : JSString → List UInt8) (requests : List Request) (modules : List M) :
    Prop :=
  ∃ j i, j < i ∧ i < modules.length ∧ modules[j]? ≠ modules[i]? ∧
    sameKey toCString (cacheModuleRequests toCString requests) j i = true ∧
      ∃ r r', requests[j]? = some r ∧ requests[i]? = some r' ∧ ¬ r.Same r'

/-- The checks before the links are replaced. -/
structure Checked (records : M → Option (Record M)) (entry : Record M) (modules : List M) : Prop where
  count : modules.length = entry.requests.length
  unlinked : entry.unlinked = true
  valid : validate records entry.ctx modules = .ok ()

/-- An earlier request has the key of request `i`, and another module. -/
def Mismatch (toCString : JSString → List UInt8) (requests : List RequestRecord)
    (modules : List M) (i : ℕ) : Prop :=
  ∃ j < i, sameKey toCString requests j i = true ∧ modules[j]? ≠ modules[i]?

/-- Request `i` is the one that `link` stops at. -/
structure StopsAt (toCString : JSString → List UInt8) (fails : Fails)
    (requests : List RequestRecord) (modules : List M) (i : ℕ) : Prop where
  lt : i < modules.length
  mismatch : Mismatch toCString requests modules i
  first : ∀ l < i, ¬ Mismatch toCString requests modules l ∧ fails.setRequest l = false

/-- The record links the first `i` requests to these modules, and no more are in its lists. -/
structure LinksFirst (entry : Record M) (modules : List M) (i : ℕ) : Prop where
  records : entry.linkedRecords = modules.take i
  values : entry.linkedModuleValues = modules.take i
  requests : ∀ j < i, entry.requestModules j = modules[j]?

/-- Where `link` stops, the links are already what it has made of them. -/
def AlreadySo (toCString : JSString → List UInt8) (fails : Fails)
    (records : M → Option (Record M)) (module : M) (linked : Linked M) : Prop :=
  ∀ entry modules i, records module = some entry → linked = .array modules →
    Checked records entry modules → StopsAt toCString fails entry.requests modules i →
      LinksFirst entry modules i

end

/-! ## The second pass -/

section

variable {M : Type} [DecidableEq M] {toCString : JSString → List UInt8} {fails : Fails}
  {records : M → Option (Record M)}

/-- The record when the first `i` requests are linked. -/
def linkedUpTo (entry : Record M) (modules : List M) (i : ℕ) : Record M :=
  { entry with
    requestModules := fun k => if k < i then modules[k]? else entry.requestModules k
    linkedRecords := modules.take i
    linkedModuleValues := modules.take i }

omit [DecidableEq M] in
theorem linksFirst_linkedUpTo (entry : Record M) (modules : List M) (i : ℕ) :
    LinksFirst (linkedUpTo entry modules i) modules i where
  records := rfl
  values := rfl
  requests _ hj := if_pos hj

variable {entry : Record M} {modules : List M} {i : ℕ}

omit [DecidableEq M] in
theorem linkedUpTo_eq_self (h : LinksFirst entry modules i) :
    linkedUpTo entry modules i = entry := by
  obtain ⟨hrecords, hvalues, hrequests⟩ := h
  have hmodules : (fun k => if k < i then modules[k]? else entry.requestModules k) =
      entry.requestModules := by
    funext k
    split
    next hk => exact (hrequests k hk).symm
    next => rfl
  rw [linkedUpTo, hmodules, ← hrecords]
  nth_rewrite 2 [hrecords]
  rw [← hvalues]

omit [DecidableEq M] in
/-- One more request. -/
theorem linkedUpTo_succ (entry : Record M) {m : M} (hm : modules[i]? = some m) :
    { linkedUpTo entry modules i with
      requestModules := Function.update (linkedUpTo entry modules i).requestModules i (some m)
      linkedRecords := (linkedUpTo entry modules i).linkedRecords ++ [m]
      linkedModuleValues := (linkedUpTo entry modules i).linkedModuleValues ++ [m] } =
      linkedUpTo entry modules (i + 1) := by
  have htake : modules.take (i + 1) = modules.take i ++ [m] := by
    rw [List.take_add_one, hm]
    rfl
  have hmodules : Function.update (linkedUpTo entry modules i).requestModules i (some m) =
      (linkedUpTo entry modules (i + 1)).requestModules := by
    funext k
    rcases eq_or_ne k i with rfl | hk
    · rw [Function.update_self]
      show some m = if k < k + 1 then modules[k]? else entry.requestModules k
      rw [if_pos (Nat.lt_succ_self k), hm]
    · rw [Function.update_of_ne hk]
      have hiff : k < i ↔ k < i + 1 := by omega
      simp only [linkedUpTo, hiff]
  rw [hmodules]
  simp only [linkedUpTo, htake]

theorem previous_eq_none_iff {requests : List RequestRecord} {m : M} (hm : modules[i]? = some m) :
    previous toCString requests (modules.take i) i m = none ↔
      ¬ Mismatch toCString requests modules i := by
  rw [previous, List.find?_eq_none]
  constructor
  · rintro h ⟨j, hj, hkey, hne⟩
    apply h j (List.mem_range.mpr hj)
    rw [hkey, List.getElem?_take_of_lt hj, ← hm]
    simpa using hne
  · intro h j hj hfound
    have hj := List.mem_range.mp hj
    rw [Bool.and_eq_true, List.getElem?_take_of_lt hj, ← hm] at hfound
    exact h ⟨j, hj, hfound.1, by simpa using hfound.2⟩

/-- What comes of the second pass from request `i` on: it stops at a mismatch, or at a request
    the engine does not take, or links them all. -/
inductive Outcome (toCString : JSString → List UInt8) (fails : Fails) (entry : Record M)
    (modules : List M) : Record M × Except Failure Unit → Prop where
  | stops {i j : ℕ} {specifier : List UInt8} (h : StopsAt toCString fails entry.requests modules i) :
    Outcome toCString fails entry modules
      (linkedUpTo entry modules i, .error (.mismatch specifier j i))
  | engine {i : ℕ} (hfails : fails.setRequest i = true)
    (hno : ¬ Mismatch toCString entry.requests modules i)
    (h : ∀ l < i, ¬ Mismatch toCString entry.requests modules l ∧ fails.setRequest l = false) :
    Outcome toCString fails entry modules (linkedUpTo entry modules i, .error .engine)
  | all
    (h : ∀ l < modules.length, ¬ Mismatch toCString entry.requests modules l ∧
      fails.setRequest l = false) :
    Outcome toCString fails entry modules (linkedUpTo entry modules modules.length, .ok ())

theorem relink_outcome (halive : ∀ m ∈ modules, records m ≠ none) (hi : i ≤ modules.length)
    (hbefore : ∀ l < i, ¬ Mismatch toCString entry.requests modules l ∧
      fails.setRequest l = false) :
    Outcome toCString fails entry modules
      (relink toCString fails records i (modules.drop i) (linkedUpTo entry modules i)) := by
  induction hn : modules.length - i generalizing i with
  | zero =>
    obtain rfl : i = modules.length := by omega
    rw [List.drop_length, relink]
    exact .all hbefore
  | succ n ih =>
    have hlt : i < modules.length := by omega
    have hm : modules[i]? = some modules[i] := List.getElem?_eq_getElem hlt
    obtain ⟨linked, hlinked⟩ :=
      Option.ne_none_iff_exists'.mp (halive modules[i] (List.getElem_mem hlt))
    rw [List.drop_eq_getElem_cons hlt, relink, hlinked]
    dsimp only
    have hprevious : previous toCString entry.requests (modules.take i) i modules[i] = none ↔
        ¬ Mismatch toCString entry.requests modules i := previous_eq_none_iff hm
    cases hfound : previous toCString entry.requests (modules.take i) i modules[i] with
    | some j =>
      have hfound' : previous toCString (linkedUpTo entry modules i).requests
          (linkedUpTo entry modules i).linkedRecords i modules[i] = some j := hfound
      rw [hfound']
      refine .stops ⟨hlt, ?_, hbefore⟩
      by_contra hno
      rw [hprevious.mpr hno] at hfound
      cases hfound
    | none =>
      have hfound' : previous toCString (linkedUpTo entry modules i).requests
          (linkedUpTo entry modules i).linkedRecords i modules[i] = none := hfound
      have hno := hprevious.mp hfound
      rw [hfound']
      dsimp only
      by_cases hfails : fails.setRequest i = true
      · rw [if_pos hfails]
        exact .engine hfails hno hbefore
      · rw [if_neg hfails, linkedUpTo_succ entry hm]
        apply ih hlt _ (by omega)
        intro l hl
        rcases Nat.lt_succ_iff_lt_or_eq.mp hl with hl | rfl
        · exact hbefore l hl
        · exact ⟨hno, Bool.not_eq_true _ ▸ hfails⟩

omit [DecidableEq M] in
theorem validate_alive {ctx : ℕ} (h : validate records ctx modules = .ok ()) :
    ∀ m ∈ modules, records m ≠ none := by
  induction modules with
  | nil =>
    intro m hm
    cases hm
  | cons m' ms ih =>
    rw [validate] at h
    cases hm' : records m' with
    | none =>
      rw [hm'] at h
      cases h
    | some linked =>
      rw [hm'] at h
      dsimp only at h
      split at h
      next => cases h
      next =>
        intro m hm
        rcases List.mem_cons.mp hm with rfl | hm
        · rw [hm']
          exact Option.some_ne_none linked
        · exact ih h m hm

variable (toCString fails) in
/-- What comes of `link` on a record: a check refuses it and nothing happens, or the links are
    replaced. -/
theorem linkRecord_cases (linked : Linked M) (entry : Record M) :
    (∃ e, linkRecord toCString fails records linked entry = (entry, .error e) ∧
        ¬ (linked.count = linked.modules.length ∧ Checked records entry linked.modules)) ∨
      (linked.count = linked.modules.length ∧ Checked records entry linked.modules ∧
        linkRecord toCString fails records linked entry =
          replaceLinks toCString fails records linked.modules entry) := by
  unfold linkRecord
  by_cases hcount : linked.count ≠ entry.requests.length
  · rw [if_pos hcount]
    refine .inl ⟨_, rfl, ?_⟩
    rintro ⟨hlength, hchecked⟩
    exact hcount (hlength.trans hchecked.count)
  rw [if_neg hcount]
  rw [not_not] at hcount
  cases linked with
  | null n =>
    cases n with
    | succ n =>
      refine .inl ⟨_, rfl, ?_⟩
      rintro ⟨hlength, -⟩
      exact Nat.succ_ne_zero n hlength
    | zero =>
      dsimp only
      cases hunlinked : entry.unlinked with
      | false =>
        refine .inl ⟨_, rfl, ?_⟩
        rintro ⟨-, hchecked⟩
        exact Bool.false_ne_true (hunlinked.symm.trans hchecked.unlinked)
      | true => exact .inr ⟨rfl, ⟨hcount, hunlinked, rfl⟩, rfl⟩
  | array modules =>
    dsimp only
    cases hunlinked : entry.unlinked with
    | false =>
      refine .inl ⟨_, rfl, ?_⟩
      rintro ⟨-, hchecked⟩
      exact Bool.false_ne_true (hunlinked.symm.trans hchecked.unlinked)
    | true =>
      cases hvalid : validate records entry.ctx modules with
      | error e =>
        refine .inl ⟨e, rfl, ?_⟩
        rintro ⟨-, hchecked⟩
        have h := hvalid.symm.trans hchecked.valid
        cases h
      | ok u => exact .inr ⟨rfl, ⟨hcount, hunlinked, hvalid⟩, rfl⟩

omit [DecidableEq M] in
theorem linkedUpTo_zero (entry : Record M) (modules : List M) :
    linkedUpTo entry modules 0 = { entry with linkedRecords := [], linkedModuleValues := [] } := by
  simp [linkedUpTo]

variable (toCString fails) in
/-- What comes of replacing the links. -/
theorem replaceLinks_cases (hchecked : Checked records entry modules) :
    (∃ i j specifier, StopsAt toCString fails entry.requests modules i ∧
        replaceLinks toCString fails records modules entry =
          (linkedUpTo entry modules i, .error (.mismatch specifier j i))) ∨
      ((∀ i, ¬ StopsAt toCString fails entry.requests modules i) ∧
        ((replaceLinks toCString fails records modules entry).2 = .error .engine ∨
          (∀ l < modules.length, fails.setRequest l = false) ∧
            replaceLinks toCString fails records modules entry =
              ({ linkedUpTo entry modules modules.length with dependencies := some modules },
                .ok ()))) := by
  have hnone : ∀ l < 0, ¬ Mismatch toCString entry.requests modules l ∧ fails.setRequest l = false :=
    fun l hl => absurd hl (Nat.not_lt_zero l)
  have houtcome := relink_outcome (validate_alive hchecked.valid) (Nat.zero_le _) hnone
  rw [List.drop_zero, linkedUpTo_zero] at houtcome
  unfold replaceLinks
  generalize relink toCString fails records 0 modules
    { entry with linkedRecords := [], linkedModuleValues := [] } = r at houtcome
  cases houtcome with
  | stops h => exact .inl ⟨_, _, _, h, rfl⟩
  | @engine i hfails hno h =>
    refine .inr ⟨?_, .inl rfl⟩
    rintro k ⟨hk, hmismatch, hfirst⟩
    rcases lt_trichotomy k i with hki | rfl | hik
    · exact (h k hki).1 hmismatch
    · exact hno hmismatch
    · exact Bool.false_ne_true ((hfirst i hik).2.symm.trans hfails)
  | all h =>
    refine .inr ⟨fun k hk => (h k hk.lt).1 hk.mismatch, ?_⟩
    dsimp only
    rw [retain]
    by_cases hretain : fails.retain = true
    · rw [if_pos hretain]
      exact .inl rfl
    · rw [if_neg hretain]
      refine .inr ⟨fun l hl => (h l hl).2, ?_⟩
      simp [linkedUpTo]

/-! ## A failed link -/

omit [DecidableEq M] in
theorem stopsAt_unique {requests : List RequestRecord} {k : ℕ}
    (hi : StopsAt toCString fails requests modules i)
    (hk : StopsAt toCString fails requests modules k) : i = k := by
  rcases lt_trichotomy i k with hlt | heq | hgt
  · exact absurd hi.mismatch (hk.first i hlt).1
  · exact heq
  · exact absurd hk.mismatch (hi.first k hgt).1

/-- **A failed link changes nothing exactly when it stops where the links already are.** For every
    table of records, module, list of modules and failing engine calls. -/
theorem link_atomic_iff (toCString : JSString → List UInt8) (fails : Fails)
    (records : M → Option (Record M)) (module : M) (linked : Linked M) :
    Atomic records (link toCString fails records module linked).1 module linked
        (link toCString fails records module linked).2 ↔
      AlreadySo toCString fails records module linked := by
  cases hentry : records module with
  | none =>
    have hlink : link toCString fails records module linked = (records, .error .invalidArg) := by
      rw [link, hentry]
    rw [hlink]
    constructor
    · intro _ entry modules i hentry'
      rw [hentry] at hentry'
      cases hentry'
    · intro _
      exact ⟨fun _ _ _ => rfl, nofun⟩
  | some entry =>
    have hself : Function.update records module (some entry) = records := by
      rw [← hentry, Function.update_eq_self]
    have hlink : link toCString fails records module linked =
        (Function.update records module
            (some (linkRecord toCString fails records linked entry).1),
          (linkRecord toCString fails records linked entry).2) := by
      rw [link, hentry]
    rw [hlink]
    dsimp only
    rcases linkRecord_cases toCString fails linked entry with
      ⟨e, hrefused, hunchecked⟩ | ⟨hcount, hchecked, hreplace⟩
    · rw [hrefused]
      constructor
      · rintro - entry' modules i hentry' rfl hchecked -
        rw [hentry] at hentry'
        cases hentry'
        exact absurd ⟨rfl, hchecked⟩ hunchecked
      · intro _
        exact ⟨fun _ _ _ => hself, nofun⟩
    · rw [hreplace]
      rcases replaceLinks_cases toCString fails hchecked with
        ⟨i, j, specifier, hstops, hresult⟩ | ⟨hnever, hresult⟩
      · rw [hresult]
        constructor
        · rintro hatomic entry' modules k hentry' rfl hchecked' hstops'
          rw [hentry] at hentry'
          cases hentry'
          obtain rfl := stopsAt_unique hstops hstops'
          have hafter := hatomic.unchanged _ rfl (by simp)
          have hrecord := congrFun hafter module
          rw [Function.update_self, hentry] at hrecord
          rw [← Option.some.inj hrecord]
          exact linksFirst_linkedUpTo entry modules i
        · intro hso
          have harray : linked = .array linked.modules := by
            cases linked with
            | null n => exact absurd hstops.lt (Nat.not_lt_zero i)
            | array modules => rfl
          have hfirst := hso entry linked.modules i hentry harray hchecked hstops
          refine ⟨fun _ _ _ => ?_, nofun⟩
          rw [linkedUpTo_eq_self hfirst]
          exact hself
      · constructor
        · rintro - entry' modules i hentry' rfl - hstops
          rw [hentry] at hentry'
          cases hentry'
          exact absurd hstops (hnever i)
        · intro _
          rcases hresult with herror | ⟨-, hok⟩
          · refine ⟨fun e h hne => ?_, fun _ h => ?_⟩
            · rw [herror] at h
              cases h
              exact absurd rfl hne
            · rw [herror] at h
              cases h
          · rw [hok]
            refine ⟨fun e h => ?_, ?_⟩
            · cases h
            intro entry' _ hafter
            rw [Function.update_self] at hafter
            cases hafter
            refine ⟨?_, ?_, rfl, ?_⟩
            · exact List.take_length
            · exact List.take_length
            · intro i hi
              rw [hcount] at hi
              exact if_pos hi

/-! ## The mismatch -/

/-- A mismatch is reported exactly when two requests of one key are given different modules. -/
theorem mismatch_reported {module : M} (hentry : records module = some entry)
    (hchecked : Checked records entry modules) (hfails : ∀ i, fails.setRequest i = false) :
    (∃ specifier j i, (link toCString fails records module (.array modules)).2 =
        .error (.mismatch specifier j i)) ↔
      ∃ i < modules.length, Mismatch toCString entry.requests modules i := by
  have hlink : (link toCString fails records module (.array modules)).2 =
      (replaceLinks toCString fails records modules entry).2 := by
    rw [link, hentry]
    dsimp only
    rcases linkRecord_cases toCString fails (.array modules) entry with
      ⟨e, -, hunchecked⟩ | ⟨-, -, hreplace⟩
    · exact absurd ⟨rfl, hchecked⟩ hunchecked
    · rw [hreplace]
      rfl
  rw [hlink]
  constructor
  · rintro ⟨specifier, j, i, herror⟩
    rcases replaceLinks_cases toCString fails hchecked with ⟨k, _, _, hstops, -⟩ | ⟨-, hother⟩
    · exact ⟨k, hstops.lt, hstops.mismatch⟩
    · rcases hother with hengine | ⟨-, hok⟩
      · rw [hengine] at herror
        cases herror
      · rw [hok] at herror
        cases herror
  · rintro ⟨i, hlt, hmismatch⟩
    classical
    have hexists : ∃ k, Mismatch toCString entry.requests modules k := ⟨i, hmismatch⟩
    have hfirst : StopsAt toCString fails entry.requests modules (Nat.find hexists) :=
      ⟨(Nat.find_min' hexists hmismatch).trans_lt hlt, Nat.find_spec hexists,
        fun l hl => ⟨Nat.find_min hexists hl, hfails l⟩⟩
    rcases replaceLinks_cases toCString fails hchecked with ⟨k, j, specifier, -, hresult⟩ | ⟨hnever, -⟩
    · exact ⟨specifier, j, k, by rw [hresult]⟩
    · exact absurd hfirst (hnever _)

end

/-! ## The key of a request -/

section

variable {toCString : JSString → List UInt8}

/-- The order in which an object has its properties does not show in the key. -/
theorem attributesKey_congr {a b : Attributes} (h : ∀ prop, prop ∈ a.props ↔ prop ∈ b.props) :
    attributesKey toCString a = attributesKey toCString b := by
  have hperm : a.props.Perm b.props :=
    (List.perm_ext_iff_of_nodup a.distinct.of_map b.distinct.of_map).mpr h
  have hsorted : (a.props.map (part toCString)).insertionSort (· ≤ ·) =
      (b.props.map (part toCString)).insertionSort (· ≤ ·) := by
    apply List.Perm.eq_of_pairwise _ (List.pairwise_insertionSort _ _)
      (List.pairwise_insertionSort _ _)
    · exact (List.perm_insertionSort _ _).trans
        ((hperm.map _).trans (List.perm_insertionSort _ _).symm)
    · intro x y _ _ hxy hyx
      exact List.le_antisymm hxy hyx
  rw [attributesKey, attributesKey, hsorted]

variable {r r' : Request}

theorem key_congr (h : r.Same r') :
    key toCString
        { specifier := valueToString toCString r.moduleName
          attributes := cloneAttributes r.attributes } =
      key toCString
        { specifier := valueToString toCString r'.moduleName
          attributes := cloneAttributes r'.attributes } := by
  rw [key, key, attributesKey_congr h.2, h.1]

theorem sameKey_of_same {requests : List Request} {j i : ℕ} (hr : requests[j]? = some r)
    (hr' : requests[i]? = some r') (h : r.Same r') :
    sameKey toCString (cacheModuleRequests toCString requests) j i = true := by
  rw [sameKey, cacheModuleRequests, List.getElem?_map, List.getElem?_map, hr, hr']
  simp only [Option.map_some, key_congr h, beq_self_eq_true]

/-! ### Requests without separators -/

/-- The strings of a request have none of the characters the key sets them apart with, and no
    NUL: no newline in the specifier, no `=` or `,` in a key, no `,` in a value. -/
structure Request.Plain (toCString : JSString → List UInt8) (r : Request) : Prop where
  specifier : 0 ∉ toCString r.moduleName ∧ 0x0a ∉ toCString r.moduleName
  attributes : ∀ prop ∈ (cloneAttributes r.attributes).props,
    0 ∉ toCString prop.1 ∧ 0x3d ∉ toCString prop.1 ∧ 0x2c ∉ toCString prop.1 ∧
      0 ∉ toCString prop.2 ∧ 0x2c ∉ toCString prop.2

theorem stdString_eq {bytes : List UInt8} (h : 0 ∉ bytes) : stdString bytes = bytes := by
  rw [stdString, List.takeWhile_eq_self_iff]
  intro b hb
  have hne : b ≠ 0 := fun hzero => h (hzero ▸ hb)
  simpa using hne

/-- What is in front of the first separator, and what follows it. -/
theorem append_cons_inj {sep : UInt8} {xs ys as bs : List UInt8} (hx : sep ∉ xs) (hy : sep ∉ ys)
    (h : xs ++ sep :: as = ys ++ sep :: bs) : xs = ys ∧ as = bs := by
  have hsplit := congrArg (List.splitOn sep) h
  rw [List.splitOn_append_cons_self_of_not_mem hx, List.splitOn_append_cons_self_of_not_mem hy]
    at hsplit
  obtain rfl := (List.cons.inj hsplit).1
  exact ⟨rfl, (List.cons.inj (List.append_cancel_left h)).2⟩

variable {prop : JSString × JSString}

theorem part_eq (hr : r.Plain toCString) (hprop : prop ∈ (cloneAttributes r.attributes).props) :
    part toCString prop = toCString prop.1 ++ 0x3d :: toCString prop.2 := by
  obtain ⟨hkey, -, -, hvalue, -⟩ := hr.attributes prop hprop
  rw [part, valueToString, valueToString, stdString_eq hkey, stdString_eq hvalue]

/-- The parts of plain requests tell their properties apart. -/
theorem part_inj (hinj : Function.Injective toCString) (hr : r.Plain toCString)
    (hr' : r'.Plain toCString) {prop' : JSString × JSString}
    (hprop : prop ∈ (cloneAttributes r.attributes).props)
    (hprop' : prop' ∈ (cloneAttributes r'.attributes).props)
    (h : part toCString prop = part toCString prop') : prop = prop' := by
  rw [part_eq hr hprop, part_eq hr' hprop'] at h
  obtain ⟨hkey, hvalue⟩ := append_cons_inj (hr.attributes prop hprop).2.1
    (hr'.attributes prop' hprop').2.1 h
  exact Prod.ext (hinj hkey) (hinj hvalue)

theorem comma_not_mem_part (hr : r.Plain toCString)
    (hprop : prop ∈ (cloneAttributes r.attributes).props) : 0x2c ∉ part toCString prop := by
  obtain ⟨-, -, hkey, -, hvalue⟩ := hr.attributes prop hprop
  rw [part_eq hr hprop]
  intro hmem
  rcases List.mem_append.mp hmem with hmem | hmem
  · exact hkey hmem
  · rcases List.mem_cons.mp hmem with heq | hmem
    · cases heq
    · exact hvalue hmem

/-- What commas join, without a comma in it and never empty, comes apart again. -/
theorem intercalate_inj {xs ys : List (List UInt8)} (hx : ∀ x ∈ xs, 0x2c ∉ x ∧ x ≠ [])
    (hy : ∀ y ∈ ys, 0x2c ∉ y ∧ y ≠ [])
    (h : [0x2c].intercalate xs = [0x2c].intercalate ys) : xs = ys := by
  have hsplit : ∀ {zs : List (List UInt8)}, (∀ z ∈ zs, 0x2c ∉ z ∧ z ≠ []) → zs ≠ [] →
      ([0x2c].intercalate zs).splitOn 0x2c = zs :=
    fun hz hne => List.splitOn_intercalate 0x2c (fun z hmem => (hz z hmem).1) hne
  have hnil : ∀ {zs : List (List UInt8)}, (∀ z ∈ zs, 0x2c ∉ z ∧ z ≠ []) →
      [0x2c].intercalate zs = [] → zs = [] := by
    intro zs hz hempty
    by_contra hne
    have hzs := hsplit hz hne
    rw [hempty, List.splitOn_nil] at hzs
    exact (hz [] (hzs ▸ List.mem_singleton_self [])).2 rfl
  rcases eq_or_ne xs [] with rfl | hxs
  · exact (hnil hy h.symm).symm
  · rcases eq_or_ne ys [] with rfl | hys
    · exact hnil hx h
    · rw [← hsplit hx hxs, h, hsplit hy hys]

theorem attributesKey_inj (hinj : Function.Injective toCString) (hr : r.Plain toCString)
    (hr' : r'.Plain toCString) (h : attributesKey toCString (cloneAttributes r.attributes) =
      attributesKey toCString (cloneAttributes r'.attributes)) :
    ∀ prop, prop ∈ (cloneAttributes r.attributes).props ↔
      prop ∈ (cloneAttributes r'.attributes).props := by
  have hparts : ∀ {r : Request}, r.Plain toCString →
      ∀ x ∈ ((cloneAttributes r.attributes).props.map (part toCString)).insertionSort (· ≤ ·),
        0x2c ∉ x ∧ x ≠ [] := by
    intro r hr x hx
    obtain ⟨prop, hprop, rfl⟩ := List.mem_map.mp ((List.mem_insertionSort _).mp hx)
    exact ⟨comma_not_mem_part hr hprop, List.append_ne_nil_of_right_ne_nil _ (List.cons_ne_nil _ _)⟩
  have hjoined := List.append_cancel_right (List.cons.inj h).2
  have hsorted : ((cloneAttributes r.attributes).props.map (part toCString)).insertionSort (· ≤ ·) =
      ((cloneAttributes r'.attributes).props.map (part toCString)).insertionSort (· ≤ ·) :=
    intercalate_inj (hparts hr) (hparts hr') hjoined
  have hmem : ∀ x, x ∈ (cloneAttributes r.attributes).props.map (part toCString) ↔
      x ∈ (cloneAttributes r'.attributes).props.map (part toCString) := by
    intro x
    rw [← List.mem_insertionSort (· ≤ ·), hsorted, List.mem_insertionSort]
  intro prop
  constructor
  · intro hprop
    obtain ⟨prop', hprop', heq⟩ := List.mem_map.mp ((hmem _).mp (List.mem_map_of_mem hprop))
    exact part_inj hinj hr' hr hprop' hprop heq ▸ hprop'
  · intro hprop
    obtain ⟨prop', hprop', heq⟩ := List.mem_map.mp ((hmem _).mpr (List.mem_map_of_mem hprop))
    exact part_inj hinj hr hr' hprop' hprop heq ▸ hprop'

/-- **Plain requests of one key are the same.** -/
theorem same_of_key_eq (hinj : Function.Injective toCString) (hr : r.Plain toCString)
    (hr' : r'.Plain toCString) (h : key toCString
          { specifier := valueToString toCString r.moduleName
            attributes := cloneAttributes r.attributes } =
        key toCString
          { specifier := valueToString toCString r'.moduleName
            attributes := cloneAttributes r'.attributes }) : r.Same r' := by
  rw [key, key, valueToString, valueToString, stdString_eq hr.specifier.1,
    stdString_eq hr'.specifier.1] at h
  obtain ⟨hname, hattributes⟩ := append_cons_inj hr.specifier.2 hr'.specifier.2 h
  exact ⟨hinj hname, attributesKey_inj hinj hr hr' hattributes⟩

/-- So there is no confusion among them. -/
theorem not_confusion_of_plain (hinj : Function.Injective toCString) {requests : List Request}
    (hplain : ∀ r ∈ requests, r.Plain toCString) {M : Type} (modules : List M) :
    ¬ Confusion toCString requests modules := by
  rintro ⟨j, i, -, -, -, hkey, r, r', hr, hr', hdiffer⟩
  rw [sameKey, cacheModuleRequests, List.getElem?_map, List.getElem?_map, hr, hr', beq_iff_eq]
    at hkey
  exact hdiffer (same_of_key_eq hinj (hplain r (List.mem_of_getElem? hr))
    (hplain r' (List.mem_of_getElem? hr')) (Option.some.inj hkey))

end

section

variable {M : Type} [DecidableEq M] {toCString : JSString → List UInt8} {fails : Fails}
  {records : M → Option (Record M)}

omit [DecidableEq M] in
theorem exists_mismatch_iff {requests : List Request} {modules : List M}
    (hlength : modules.length = (cacheModuleRequests toCString requests).length) :
    (∃ i < modules.length, Mismatch toCString (cacheModuleRequests toCString requests) modules i) ↔
      Conflict requests modules ∨ Confusion toCString requests modules := by
  rw [cacheModuleRequests, List.length_map] at hlength
  constructor
  · rintro ⟨i, hi, j, hj, hkey, hne⟩
    have hr : requests[j]? = some _ := List.getElem?_eq_getElem (by omega)
    have hr' : requests[i]? = some _ := List.getElem?_eq_getElem (by omega)
    by_cases hsame : requests[j].Same requests[i]
    · exact .inl ⟨j, i, hj, hi, hne, _, _, hr, hr', hsame⟩
    · exact .inr ⟨j, i, hj, hi, hne, hkey, _, _, hr, hr', hsame⟩
  · rintro (⟨j, i, hj, hi, hne, r, r', hr, hr', hsame⟩ | ⟨j, i, hj, hi, hne, hkey, -⟩)
    · exact ⟨i, hi, j, hj, sameKey_of_same hr hr' hsame, hne⟩
    · exact ⟨i, hi, j, hj, hkey, hne⟩

/-- **The mismatch is reported exactly when it should be, unless requests that differ have one
    key.** For every module and list of modules that passes the other checks. -/
theorem link_mismatch_iff {module : M} {entry : Record M} {modules : List M}
    {requests : List Request} (hentry : records module = some entry)
    (hrequests : entry.requests = cacheModuleRequests toCString requests)
    (hchecked : Checked records entry modules) (hfails : ∀ i, fails.setRequest i = false) :
    ((∃ specifier j i, (link toCString fails records module (.array modules)).2 =
        .error (.mismatch specifier j i)) ↔ Conflict requests modules) ↔
      (Confusion toCString requests modules → Conflict requests modules) := by
  have hlength := hchecked.count
  rw [hrequests] at hlength
  rw [mismatch_reported hentry hchecked hfails, hrequests, exists_mismatch_iff hlength]
  tauto

end

/-! ## A module with two requests -/

/-- The engine's `JS_ToCString` on ASCII. -/
def ascii (s : JSString) : List UInt8 := s.map UInt16.toUInt8

/-- The same request twice: `import "m"; import "m";` -/
def twice : List Request := [⟨[0x6d], none⟩, ⟨[0x6d], none⟩]

/-- It is injective, and right for `m`. -/
def lettersM (s : JSString) : List UInt8 :=
  .replicate (Equiv.swap (Encodable.encode [109]) 1 (Encodable.encode (s.map UInt16.toNat))) 0x6d

theorem twice_not_confusion : ¬ Confusion lettersM twice [1, 2] := by
  refine not_confusion_of_plain (fun s t h => ?_) ?_ _
  · exact List.map_injective_iff.mpr (fun _ _ => UInt16.toNat.inj) (by simpa [lettersM] using h)
  · simp only [twice, List.forall_mem_cons]
    exact ⟨⟨by simp [lettersM], nofun⟩, ⟨by simp [lettersM], nofun⟩, nofun⟩

/-- Module 0 makes these requests, and all of them go to module 1 so far; 1 and 2 make none. -/
def linkedTo1 (requests : List Request) : ℕ → Option (Record ℕ)
  | 0 =>
    some
      { ctx := 0
        unlinked := true
        requests := cacheModuleRequests ascii requests
        linkedRecords := requests.map fun _ => 1
        linkedModuleValues := requests.map fun _ => 1
        requestModules := fun i => if i < requests.length then some 1 else none
        dependencies := some (requests.map fun _ => 1) }
  | 1 | 2 => some { ctx := 0, unlinked := true, requests := [] }
  | _ => none

theorem relinked_to_2 : ¬ Atomic (linkedTo1 twice)
    (link ascii {} (linkedTo1 twice) 0 (.array [1, 2])).1 0 (.array [1, 2])
      (link ascii {} (linkedTo1 twice) 0 (.array [1, 2])).2 := by
  intro h
  have hafter := h.unchanged (.mismatch [0x6d] 0 1) (by decide) (by decide)
  have hrecords := congrArg (fun records : ℕ → Option (Record ℕ) =>
    (records 0).map Record.linkedRecords) hafter
  revert hrecords
  decide

/-- `with { a: "b,c=d" }` and `with { a: "b", c: "d" }`. -/
def separators : List Request :=
  [⟨[0x6d], some ⟨[([0x61], [0x62, 0x2c, 0x63, 0x3d, 0x64])], by decide⟩⟩,
    ⟨[0x6d], some ⟨[([0x61], [0x62]), ([0x63], [0x64])], by decide⟩⟩]

theorem separators_mismatch :
    ¬ ((∃ specifier j i, (link ascii {} (linkedTo1 separators) 0 (.array [1, 2])).2 =
        .error (.mismatch specifier j i)) ↔ Conflict separators [1, 2]) := by
  intro h
  obtain ⟨j, i, hji, hi, -, r, r', hr, hr', hsame⟩ :=
    h.mp ⟨[0x6d], 0, 1, by decide⟩
  have hj0 : j = 0 := by
    rw [List.length_cons, List.length_singleton] at hi
    omega
  have hi1 : i = 1 := by
    rw [List.length_cons, List.length_singleton] at hi
    omega
  subst hj0 hi1
  cases hr
  cases hr'
  have hmem := (hsame.2 ([0x63], [0x64])).mpr (by decide)
  revert hmem
  decide

theorem twice_mismatch :
    ((∃ specifier j i, (link ascii {} (linkedTo1 twice) 0 (.array [1, 2])).2 =
        .error (.mismatch specifier j i)) ↔ Conflict twice [1, 2]) ↔
      (Confusion ascii twice [1, 2] → Conflict twice [1, 2]) :=
  link_mismatch_iff rfl rfl ⟨rfl, rfl, rfl⟩ (fun _ => rfl)

end WasmerNapi.Quickjs.ModuleLink
