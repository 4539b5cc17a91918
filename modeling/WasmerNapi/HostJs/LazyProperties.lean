import WasmerNapi.Lib.Objects
import WasmerNapi.Lib.Run

/-!
# Lazy properties of the host-JS backend

`wasmer_napi_define_lazy_data_properties` in `src/src/snapi_js.rs`, after the names are checked. A
lazy property is an accessor that knows its definition, the record of its holder, key and value.
The first read calls the initializer and makes the property a data property of the value, or, when
it can no longer be one, keeps the value in the record. Which property is whose is not kept
anywhere: it is found from the descriptor each time.

Objects are ordinary ones. A script can do anything to them at any time, with accessor functions it
has saved as well, and an initializer is a script: while it runs, the call of the getter is a
frame of the stack, and every step is its doing.
-/

namespace WasmerNapi.HostJs.LazyProperties

open Run Objects

/-- `getter d` and `setter d` are the functions of definition `d`. -/
inductive Value where
  | undefined
  | getter (d : ℕ)
  | setter (d : ℕ)
  | other (n : ℕ)
  deriving DecidableEq, Repr

variable {O K : Type}

structure Definition (O K : Type) where
  holder : O
  key : K
  writable : Bool
  initialized : Bool := false
  value : Value := .undefined

def Definition.place (definition : Definition O K) : O × K := (definition.holder, definition.key)

/-- `definition.setter` -/
def Definition.setter (definition : Definition O K) (d : ℕ) : Value :=
  if definition.writable then .setter d else .undefined

/-- A getter that waits for its initializer. -/
structure Frame (O K : Type) where
  definition : ℕ
  outer : List (O × K)

/-- What has become of a property: the initializer of its definition gave it a value, it was
    assigned one (through a definition's setter on its holder, or not), or it is another or none. -/
inductive Event (O K : Type) where
  | committed (d : ℕ) (place : O × K) (v : Value)
  | assigned (through : Option ℕ) (place : O × K) (v : Value)
  | replaced (place : O × K)

/-- `log` has the newest event first. -/
structure State (O K : Type) where
  objects : O → Object K Value
  definitions : List (Definition O K) := []
  /-- `wasmerNapiLazyInitializing`, a chain through `outer`. -/
  initializing : List (O × K) := []
  frames : List (Frame O K) := []
  log : List (Event O K) := []

/-- What a read or the call of a getter comes to at once: a value or an exception, or it has the
    initializer of a definition called, or a function of some script. -/
inductive Answer where
  | value (v : Value)
  | threw
  | runs (d : ℕ)
  | script
  deriving DecidableEq, Repr

/-- What scripts do, an object that is read or written coming with its prototypes. `complete` is
    the innermost initializer returning a value or throwing. -/
inductive Act (O K : Type) where
  | read (chain : List O) (key : K)
  | get (d : ℕ)
  | write (chain : List O) (key : K) (v : Value)
  | set (d : ℕ) (receiver : Option O) (v : Value)
  | define (o : O) (key : K) (p : Property Value)
  | delete (o : O) (key : K)
  | preventExtensions (o : O)
  | defineLazy (o : O) (key : K) (writable enumerable configurable : Bool)
  | complete (result : Option Value)

variable [DecidableEq O] [DecidableEq K]

namespace State

def own (s : State O K) (place : O × K) : Option (Property Value) := (s.objects place.1).get place.2

def setObject (s : State O K) (o : O) (object : Object K Value) : State O K :=
  { s with objects := Function.update s.objects o object }

def saw (s : State O K) (e : Event O K) : State O K := { s with log := e :: s.log }

/-- `Reflect.defineProperty` -/
def define (s : State O K) (place : O × K) (p : Property Value) : State O K :=
  s.setObject place.1 ((s.objects place.1).define place.2 p)

/-- `wasmerNapiLazyDefinition` -/
def lazyDefinition (s : State O K) (place : O × K) (descriptor : Option (Property Value)) :
    Option ℕ :=
  match descriptor with
  | some ⟨_, _, .accessor (.getter d) set⟩ =>
    match s.definitions[d]? with
    | some definition => if definition.place = place ∧ set = definition.setter d then some d else none
    | none => none
  | _ => none

/-- `wasmerNapiLazyCommit`; `none` when it throws. -/
def commit (s : State O K) (d : ℕ) (definition : Definition O K) (p : Property Value) (v : Value) :
    Option (State O K) :=
  let data : Property Value := { p with content := .data definition.writable v }
  let committed := s.definitions.set d { definition with value := v, initialized := true }
  if p.configurable then
    if (s.objects definition.holder).Takes definition.key data then
      some { s.define definition.place data with definitions := committed }
    else none
  else some { s with definitions := committed }

/-- A call of a definition's getter. -/
def call (s : State O K) (d : ℕ) : Answer :=
  match s.definitions[d]? with
  | none => .script
  | some definition =>
    if definition.initialized then .value definition.value
    else if definition.place ∈ s.initializing then .threw
    else .runs d

/-- The first object of the chain that has the property. -/
def look (s : State O K) (key : K) : List O → Option (O × Property Value)
  | [] => none
  | o :: chain => match s.own (o, key) with
    | some p => some (o, p)
    | none => look s key chain

def read (s : State O K) (chain : List O) (key : K) : Answer :=
  match s.look key chain with
  | none => .value .undefined
  | some (_, p) => match p.content with
    | .data _ v => .value v
    | .accessor .undefined _ => .value .undefined
    | .accessor (.getter d) _ => s.call d
    | .accessor (.setter _) _ | .accessor (.other _) _ => .script

/-- The initializer begins, if that is what comes of a read. -/
def enter (s : State O K) : Answer → State O K
  | .runs d => match s.definitions[d]? with
    | some definition =>
      { s with
        initializing := definition.place :: s.initializing
        frames := ⟨d, s.initializing⟩ :: s.frames }
    | none => s
  | .value _ | .threw | .script => s

/-- A definition of a data property, by assignment; `none` when it is refused. -/
def assign (s : State O K) (place : O × K) (p : Property Value) (v : Value) : Option (State O K) :=
  let data : Property Value := { p with content := .data true v }
  if (s.objects place.1).Takes place.2 data then some (s.define place data) else none

/-- The attributes of a property that an assignment creates. -/
def created : Property Value := ⟨true, true, .data true .undefined⟩

/-- A call of a definition's setter; `none` when it throws. -/
def callSetter (s : State O K) (d : ℕ) (receiver : Option O) (v : Value) : Option (State O K) :=
  match s.definitions[d]?, receiver with
  | some definition, some receiver =>
    if definition.writable = false then none
    else if receiver ≠ definition.holder then
      match s.own (receiver, definition.key) with
      | none => s.assign (receiver, definition.key) created v
      | some p => match p.content with
        | .data true _ => s.assign (receiver, definition.key) p v
        | .data false _ | .accessor _ _ => none
    else match s.own definition.place with
      | none => none
      | some p =>
        if s.lazyDefinition definition.place (some p) = some d then s.commit d definition p v else none
  | _, _ => none

/-- An assignment to a property of the first object of the chain; `none` when it is refused. What a
    script's own setter does comes in steps of its own. -/
def write (s : State O K) (chain : List O) (key : K) (v : Value) : Option (State O K) :=
  match chain with
  | [] => none
  | receiver :: _ => match s.look key chain with
    | none => s.assign (receiver, key) created v
    | some (o, p) => match p.content with
      | .data false _ => none
      | .data true _ =>
        if o = receiver then s.assign (receiver, key) p v else s.assign (receiver, key) created v
      | .accessor _ (.setter d) => s.callSetter d (some receiver) v
      | .accessor _ .undefined => none
      | .accessor _ (.getter _) | .accessor _ (.other _) => some s

/-- What the call of a definition's setter is to the log: the definition is given the value if the
    call is on its holder, and the receiver's own property is otherwise. -/
def setEvent (s : State O K) (d : ℕ) (receiver : Option O) (v : Value) : Option (Event O K) :=
  match s.definitions[d]?, receiver with
  | some definition, some receiver =>
    some (.assigned (if receiver = definition.holder then some d else none)
      (receiver, definition.key) v)
  | _, _ => none

/-- What an assignment is to the log. -/
def writeEvent (s : State O K) (chain : List O) (key : K) (v : Value) : Option (Event O K) :=
  match chain with
  | [] => none
  | receiver :: _ => match s.look key chain with
    | none => some (.assigned none (receiver, key) v)
    | some (_, p) => match p.content with
      | .data _ _ => some (.assigned none (receiver, key) v)
      | .accessor _ (.setter d) => s.setEvent d (some receiver) v
      | .accessor _ .undefined | .accessor _ (.getter _) | .accessor _ (.other _) => none

/-- An assignment that does not throw has assigned, whatever it did. -/
def assigned (s : State O K) : Option (State O K) → Option (Event O K) → State O K
  | none, _ => s
  | some t, none => t
  | some t, some e => t.saw e

/-- What a script's definition of a property is to the log. -/
def defineEvent (s : State O K) (place : O × K) (p : Property Value) : State O K :=
  match p.content with
  | .data _ v => (s.define place p).saw (.assigned none place v)
  | .accessor _ _ =>
    if (s.own place).map Property.content = some p.content then s.define place p
    else (s.define place p).saw (.replaced place)

/-- The rest of a getter, once its initializer is done. -/
def complete (s : State O K) (d : ℕ) : Option Value → State O K
  | none => s
  | some v => match s.definitions[d]? with
    | none => s
    | some definition => match s.own definition.place with
      | none => s
      | some p =>
        if definition.initialized = true ∨ s.lazyDefinition definition.place (some p) ≠ some d then s
        else match s.commit d definition p v with
          | some t => t.saw (.committed d definition.place v)
          | none => s

end State

def step (s : State O K) : Act O K → Option (State O K)
  | .read chain key => some (s.enter (s.read chain key))
  | .get d => some (s.enter (s.call d))
  | .write chain key v => some (s.assigned (s.write chain key v) (s.writeEvent chain key v))
  | .set d receiver v => some (s.assigned (s.callSetter d receiver v) (s.setEvent d receiver v))
  | .define o key p => some (if (s.objects o).Takes key p then s.defineEvent (o, key) p else s)
  | .delete o key => match s.own (o, key) with
    | some p =>
      some (if p.configurable then (s.setObject o ((s.objects o).delete key)).saw (.replaced (o, key)) else s)
    | none => some s
  | .preventExtensions o => some (s.setObject o { s.objects o with extensible := false })
  | .defineLazy o key writable enumerable configurable =>
    let d := s.definitions.length
    let definition : Definition O K := { holder := o, key, writable }
    let p : Property Value := ⟨configurable, enumerable, .accessor (.getter d) (definition.setter d)⟩
    let t : State O K := { s with definitions := s.definitions ++ [definition] }
    some (if (s.objects o).Takes key p then (t.define (o, key) p).saw (.replaced (o, key)) else t)
  | .complete result => match s.frames with
    | [] => none
    | frame :: frames =>
      some (({ s with frames, initializing := frame.outer } : State O K).complete frame.definition result)

/-! ## What is to hold -/

namespace Event

omit [DecidableEq O] [DecidableEq K]

def place : Event O K → O × K
  | .committed _ place _ | .assigned _ place _ | .replaced place => place

def value : Event O K → Option Value
  | .committed _ _ v | .assigned _ _ v => some v
  | .replaced _ => none

/-- The definition that was given the value. -/
def through : Event O K → Option ℕ
  | .committed d _ _ => some d
  | .assigned through _ _ => through
  | .replaced _ => none

def commits (d : ℕ) : Event O K → Bool
  | .committed d' _ _ => d' == d
  | .assigned _ _ _ | .replaced _ => false

theorem through_of_commits {e : Event O K} {d : ℕ} (h : e.commits d = true) : e.through = some d := by
  cases e with
  | committed d' place v => exact congrArg some (beq_iff_eq.1 h)
  | assigned through place v => cases h
  | replaced place => cases h

end Event

/-- The last value a property was given, unless it has been replaced since. -/
def lastAt (place : O × K) : List (Event O K) → Option Value
  | [] => none
  | e :: log => if e.place = place then e.value else lastAt place log

/-- The last value a definition was given, by its initializer or its setter. -/
def lastThrough (d : ℕ) : List (Event O K) → Option Value
  | [] => none
  | e :: log => if e.through = some d then e.value else lastThrough d log

/-- The chain has the properties whose initializers are running, each with what it was before. -/
def Linked (definitions : List (Definition O K)) : List (Frame O K) → List (O × K) → Prop
  | [], initializing => initializing = []
  | frame :: frames, initializing =>
    ∃ definition, definitions[frame.definition]? = some definition ∧
      initializing = definition.place :: frame.outer ∧ Linked definitions frames frame.outer

/-- A property reads as the value it was last given (`reads`), and a getter that a script has saved
    answers with the one its definition was last given, by its initializer or its setter (`memo`):
    a property that has become a data property is assigned without either. -/
structure Sound (s : State O K) : Prop where
  restored : Linked s.definitions s.frames s.initializing
  apart : s.initializing.Nodup
  once : ∀ d, s.log.countP (·.commits d) ≤ 1
  memo : ∀ d v, lastThrough d s.log = some v → s.call d = .value v
  reads : ∀ o key v, lastAt (o, key) s.log = some v → ∀ chain p,
    s.look key chain = some (o, p) → s.read chain key = .value v
  /-- The setter of a property that is its definition's takes a value. -/
  accepts : ∀ d definition v, s.definitions[d]? = some definition → definition.writable = true →
    s.lazyDefinition definition.place (s.own definition.place) = some d →
      (s.callSetter d (some definition.holder) v).isSome = true
  own : ∀ d definition, s.definitions[d]? = some definition → definition.initialized = false →
    definition.place ∈ s.initializing → s.call d = .threw

/-- Every getter of a definition that was initialised answers with the last value its property was
    given, as long as that is not replaced. -/
def Current (s : State O K) : Prop := ∀ d definition v, s.definitions[d]? = some definition →
  definition.initialized = true → lastAt definition.place s.log = some v → s.call d = .value v

/-- The initializer threw, or the property is not its definition's any more. -/
def Fails (s : State O K) (d : ℕ) (result : Option Value) : Prop :=
  result = none ∨ ∀ definition, s.definitions[d]? = some definition →
    definition.initialized = true ∨
      s.lazyDefinition definition.place (s.own definition.place) ≠ some d

/-! ## The invariant -/

namespace State

/-- A read of the property gives the value. -/
def Holds (s : State O K) (place : O × K) (v : Value) : Prop :=
  ∃ p, s.own place = some p ∧ ((∃ w, p.content = .data w v) ∨
    ∃ d definition set, p.content = .accessor (.getter d) set ∧
      s.definitions[d]? = some definition ∧ definition.place = place ∧
      definition.initialized = true ∧ definition.value = v)

end State

structure Inv (s : State O K) : Prop where
  linked : Linked s.definitions s.frames s.initializing
  apart : s.initializing.Nodup
  memo : ∀ d definition, s.definitions[d]? = some definition →
    lastThrough d s.log = if definition.initialized then some definition.value else none
  unknown : ∀ d, s.definitions.length ≤ d → lastThrough d s.log = none
  once : ∀ d, s.log.countP (·.commits d) ≤ (lastThrough d s.log).isSome.toNat
  holds : ∀ place v, lastAt place s.log = some v → s.Holds place v

theorem inv_init (objects : O → Object K Value) : Inv { objects } where
  linked := rfl
  apart := List.nodup_nil
  memo d definition h := by cases h
  unknown _ _ := rfl
  once _ := le_rfl
  holds place v h := by cases h

section

variable {s t : State O K} {d : ℕ} {definition : Definition O K} {place : O × K} {v : Value}
  {e : Event O K} {p : Property Value}

omit [DecidableEq O] [DecidableEq K]

theorem Linked.mono {definitions definitions' : List (Definition O K)}
    (hdefinitions : ∀ (d : ℕ) (definition : Definition O K), definitions[d]? = some definition →
      ∃ definition', definitions'[d]? = some definition' ∧ definition'.place = definition.place) :
    ∀ {frames : List (Frame O K)} {initializing : List (O × K)},
      Linked definitions frames initializing → Linked definitions' frames initializing := by
  intro frames
  induction frames with
  | nil =>
    intro initializing h
    exact h
  | cons frame frames ih =>
    intro initializing h
    obtain ⟨definition, hd, heq, hrest⟩ := h
    obtain ⟨definition', hd', hplace⟩ := hdefinitions _ _ hd
    exact ⟨definition', hd', by rw [heq, hplace], ih hrest⟩

theorem lastThrough_cons_of_ne {log : List (Event O K)} (h : e.through ≠ some d) :
    lastThrough d (e :: log) = lastThrough d log := if_neg h

theorem countP_cons_of_ne {log : List (Event O K)} (h : e.through ≠ some d) :
    (e :: log).countP (·.commits d) = log.countP (·.commits d) :=
  List.countP_cons_of_neg fun hcommits => h (Event.through_of_commits hcommits)

end

section

variable {s t : State O K} {d : ℕ} {definition : Definition O K} {place : O × K} {v : Value}
  {e : Event O K} {p : Property Value}

variable {objects : O → Object K Value}

/-- The contents of the properties are as they were. -/
theorem Inv.silent (hi : Inv s)
    (hown : ∀ q, (({ s with objects } : State O K).own q).map Property.content =
      (s.own q).map Property.content) : Inv { s with objects } := by
  refine { hi with holds := ?_ }
  intro q v hv
  obtain ⟨p, hp, hcontent⟩ := hi.holds q v hv
  have h := hown q
  rw [hp, Option.map_some, Option.map_eq_some_iff] at h
  obtain ⟨p', hp', heq⟩ := h
  rw [← heq] at hcontent
  exact ⟨p', hp', hcontent⟩

/-- A script has changed one property. -/
theorem Inv.changed (hi : Inv s) (hthrough : e.through = none)
    (hown : ∀ q, q ≠ e.place → ({ s with objects } : State O K).own q = s.own q)
    (hholds : ∀ v, e.value = some v → ({ s with objects } : State O K).Holds e.place v) :
    Inv (({ s with objects } : State O K).saw e) := by
  have hne (d : ℕ) : e.through ≠ some d := by
    rw [hthrough]
    exact nofun
  refine ⟨hi.linked, hi.apart, ?_, ?_, ?_, ?_⟩
  · intro d definition hd
    exact (lastThrough_cons_of_ne (hne d)).trans (hi.memo d definition hd)
  · intro d hd
    exact (lastThrough_cons_of_ne (hne d)).trans (hi.unknown d hd)
  · intro d
    change (e :: s.log).countP _ ≤ (lastThrough d (e :: s.log)).isSome.toNat
    rw [countP_cons_of_ne (hne d), lastThrough_cons_of_ne (hne d)]
    exact hi.once d
  · intro q v hv
    change (if e.place = q then e.value else lastAt q s.log) = some v at hv
    split_ifs at hv with hq
    · subst hq
      exact hholds v hv
    · obtain ⟨p, hp, hcontent⟩ := hi.holds q v hv
      exact ⟨p, (hown q (Ne.symm hq)).trans hp, hcontent⟩

/-- A definition is given a value. -/
theorem Inv.given (hi : Inv s) (hd : s.definitions[d]? = some definition)
    (hplace : e.place = definition.place) (hthrough : e.through = some d)
    (hvalue : e.value = some v) (hcommits : e.commits d = true → definition.initialized = false)
    (hown : ∀ q, q ≠ e.place → ({ s with objects } : State O K).own q = s.own q)
    (hcontent : ∃ p, ({ s with objects } : State O K).own e.place = some p ∧
      ((∃ w, p.content = .data w v) ∨ ∃ set, p.content = .accessor (.getter d) set)) :
    Inv (({ s with
      objects
      definitions := s.definitions.set d { definition with value := v, initialized := true } } :
        State O K).saw e) := by
  obtain ⟨hlt, -⟩ := List.getElem?_eq_some_iff.1 hd
  have hself : (s.definitions.set d { definition with value := v, initialized := true })[d]? =
      some { definition with value := v, initialized := true } := by
    rw [List.getElem?_set_self hlt]
  have hother (d' : ℕ) (hne : d' ≠ d) :
      (s.definitions.set d { definition with value := v, initialized := true })[d']? =
        s.definitions[d']? := List.getElem?_set_ne (Ne.symm hne)
  have hthrough' {d' : ℕ} (hne : d' ≠ d) : e.through ≠ some d' := by
    rw [hthrough]
    exact fun h => hne (Option.some.inj h).symm
  refine ⟨?_, hi.apart, ?_, ?_, ?_, ?_⟩
  · apply hi.linked.mono
    intro d' definition' hd'
    by_cases hne : d' = d
    · subst hne
      obtain rfl := Option.some.inj (hd.symm.trans hd')
      exact ⟨_, hself, rfl⟩
    · exact ⟨definition', (hother d' hne).trans hd', rfl⟩
  · intro d' definition' hd'
    by_cases hne : d' = d
    · subst hne
      obtain rfl := Option.some.inj (hself.symm.trans hd')
      exact (if_pos hthrough).trans hvalue
    · exact (lastThrough_cons_of_ne (hthrough' hne)).trans
        (hi.memo d' definition' ((hother d' hne).symm.trans hd'))
  · intro d' hd'
    change (s.definitions.set d _).length ≤ d' at hd'
    rw [List.length_set] at hd'
    exact (lastThrough_cons_of_ne (hthrough' (by omega))).trans (hi.unknown d' hd')
  · intro d'
    change (e :: s.log).countP _ ≤ (lastThrough d' (e :: s.log)).isSome.toNat
    by_cases hne : d' = d
    · subst hne
      have honce := hi.once d'
      rw [hi.memo d' definition hd] at honce
      have hnew : lastThrough d' (e :: s.log) = some v := (if_pos hthrough).trans hvalue
      rw [hnew, List.countP_cons]
      cases hc : e.commits d' with
      | false =>
        have : (if definition.initialized = true then some definition.value else none).isSome.toNat ≤ 1 :=
          Bool.toNat_le _
        simpa using honce.trans this
      | true =>
        rw [hcommits hc] at honce
        simpa using honce
    · rw [countP_cons_of_ne (hthrough' hne), lastThrough_cons_of_ne (hthrough' hne)]
      exact hi.once d'
  · intro q w hw
    change (if e.place = q then e.value else lastAt q s.log) = some w at hw
    split_ifs at hw with hq
    · subst hq
      obtain rfl := Option.some.inj (hvalue.symm.trans hw)
      obtain ⟨p, hp, hdata | ⟨set, haccessor⟩⟩ := hcontent
      · exact ⟨p, hp, Or.inl hdata⟩
      · exact ⟨p, hp, Or.inr ⟨d, _, set, haccessor, hself, hplace.symm, rfl, rfl⟩⟩
    · obtain ⟨p, hp, hdata | ⟨d', definition', set, haccessor, hd', hplace', hrest⟩⟩ := hi.holds q w hw
      · exact ⟨p, (hown q (Ne.symm hq)).trans hp, Or.inl hdata⟩
      · have hne : d' ≠ d := by
          rintro rfl
          obtain rfl := Option.some.inj (hd.symm.trans hd')
          exact hq (hplace.trans hplace')
        exact ⟨p, (hown q (Ne.symm hq)).trans hp,
          Or.inr ⟨d', definition', set, haccessor, (hother d' hne).trans hd', hplace', hrest⟩⟩

end

/-! ## The steps -/

namespace State

variable {s t : State O K} {d : ℕ} {definition : Definition O K} {place q : O × K} {v : Value}
  {p : Property Value}

theorem own_setObject (s : State O K) (o : O) (object : Object K Value) (q : O × K) :
    (s.setObject o object).own q = if q.1 = o then object.get q.2 else s.own q := by
  change (Function.update s.objects o object q.1).get q.2 = _
  by_cases h : q.1 = o
  · rw [if_pos h, h, Function.update_self]
  · rw [if_neg h, Function.update_of_ne h]
    rfl

theorem own_define (h : (s.objects place.1).Takes place.2 p) :
    (s.define place p).own q = if q = place then some p else s.own q := by
  rw [define, own_setObject, h.get_define, own]
  by_cases hplace : q.1 = place.1
  · by_cases hkey : q.2 = place.2
    · rw [if_pos hplace, if_pos hkey, if_pos (Prod.ext hplace hkey)]
    · rw [if_pos hplace, if_neg hkey, if_neg fun heq => hkey (congrArg Prod.snd heq), hplace]
  · rw [if_neg hplace, if_neg fun heq => hplace (congrArg Prod.fst heq)]

/-- What a property of a definition looks like. -/
theorem lazyDefinition_eq_some (h : s.lazyDefinition place (some p) = some d) :
    ∃ definition, s.definitions[d]? = some definition ∧ definition.place = place ∧
      p.content = .accessor (.getter d) (definition.setter d) := by
  obtain ⟨configurable, enumerable, content⟩ := p
  cases content with
  | data writable v => cases h
  | accessor get set =>
    cases get with
    | undefined => cases h
    | setter d' => cases h
    | other n => cases h
    | getter d' =>
      simp only [lazyDefinition] at h
      cases hd : s.definitions[d']? with
      | none =>
        rw [hd] at h
        cases h
      | some definition =>
        rw [hd] at h
        dsimp only at h
        split_ifs at h with hsame
        cases h
        exact ⟨definition, hd, hsame.1, by rw [hsame.2]⟩

end State

section

variable {s t : State O K} {d d' : ℕ} {definition : Definition O K} {place : O × K} {v : Value}
  {e : Event O K} {p : Property Value}

theorem Inv.assign (hi : Inv s) (ht : s.assign place p v = some t) :
    Inv (t.saw (.assigned none place v)) := by
  unfold State.assign at ht
  dsimp only at ht
  split_ifs at ht with htakes
  cases ht
  apply Inv.changed hi rfl
  · intro q hq
    exact (State.own_define htakes).trans (if_neg hq)
  · intro w hw
    cases hw
    exact ⟨_, (State.own_define htakes).trans (if_pos rfl), Or.inl ⟨true, rfl⟩⟩

/-- A commit to a property that is its definition's. -/
theorem Inv.commit (hi : Inv s) (hd : s.definitions[d]? = some definition)
    (hp : s.own definition.place = some p)
    (hlazy : s.lazyDefinition definition.place (some p) = some d)
    (ht : s.commit d definition p v = some t) (hplace : e.place = definition.place)
    (hthrough : e.through = some d) (hvalue : e.value = some v)
    (hcommits : e.commits d = true → definition.initialized = false) : Inv (t.saw e) := by
  unfold State.commit at ht
  dsimp only at ht
  split_ifs at ht with hconfigurable htakes
  · cases ht
    have htakes : (s.objects definition.place.1).Takes definition.place.2 _ := htakes
    apply hi.given hd hplace hthrough hvalue hcommits
    · intro q hq
      rw [hplace] at hq
      exact (State.own_define htakes).trans (if_neg hq)
    · rw [hplace]
      exact ⟨_, (State.own_define htakes).trans (if_pos rfl), Or.inl ⟨_, rfl⟩⟩
  · cases ht
    obtain ⟨definition', -, -, hcontent⟩ := State.lazyDefinition_eq_some hlazy
    apply hi.given hd hplace hthrough hvalue hcommits
    · exact fun _ _ => rfl
    · rw [hplace]
      exact ⟨p, hp, Or.inr ⟨_, hcontent⟩⟩

theorem Inv.callSetter (hi : Inv s) {receiver : Option O} (ht : s.callSetter d receiver v = some t) :
    ∃ e, s.setEvent d receiver v = some e ∧ Inv (t.saw e) := by
  unfold State.callSetter at ht
  cases hd : s.definitions[d]? with
  | none =>
    rw [hd] at ht
    cases ht
  | some definition =>
    rw [hd] at ht
    cases receiver with
    | none => cases ht
    | some receiver =>
      refine ⟨.assigned (if receiver = definition.holder then some d else none)
        (receiver, definition.key) v, by simp only [State.setEvent, hd], ?_⟩
      dsimp only at ht
      split_ifs at ht with hwritable hne
      · rw [if_neg hne]
        cases hp : s.own (receiver, definition.key) with
        | none =>
          rw [hp] at ht
          exact hi.assign ht
        | some p =>
          rw [hp] at ht
          dsimp only at ht
          split at ht
          · exact hi.assign ht
          · cases ht
          · cases ht
      · obtain rfl : receiver = definition.holder := not_not.mp hne
        rw [if_pos rfl]
        cases hp : s.own definition.place with
        | none =>
          rw [hp] at ht
          cases ht
        | some p =>
          rw [hp] at ht
          dsimp only at ht
          split_ifs at ht with hlazy
          apply hi.commit hd hp hlazy ht rfl rfl rfl
          exact nofun

theorem Inv.write (hi : Inv s) {chain : List O} {key : K} (ht : s.write chain key v = some t) :
    Inv (s.assigned (some t) (s.writeEvent chain key v)) := by
  unfold State.write at ht
  unfold State.writeEvent
  cases chain with
  | nil => cases ht
  | cons receiver chain =>
    dsimp only at ht ⊢
    cases hlook : s.look key (receiver :: chain) with
    | none =>
      rw [hlook] at ht
      exact hi.assign ht
    | some found =>
      obtain ⟨o, configurable, enumerable, content⟩ := found
      rw [hlook] at ht
      cases content with
      | data writable w =>
        cases writable with
        | false => cases ht
        | true =>
          dsimp only at ht
          split_ifs at ht
          · exact hi.assign ht
          · exact hi.assign ht
      | accessor get set =>
        cases set with
        | setter d =>
          obtain ⟨e, he, hinv⟩ := hi.callSetter ht
          dsimp only
          rw [he]
          exact hinv
        | undefined => cases ht
        | getter d | other n =>
          cases ht
          exact hi

/-- An assignment that throws changes nothing. -/
theorem Inv.assigned (hi : Inv s) {done : Option (State O K)} {e : Option (Event O K)}
    (h : ∀ t, done = some t → Inv (s.assigned (some t) e)) : Inv (s.assigned done e) := by
  cases done with
  | none => exact hi
  | some t => exact h t rfl

theorem Inv.define (hi : Inv s) (htakes : (s.objects place.1).Takes place.2 p) :
    Inv (s.defineEvent place p) := by
  unfold State.defineEvent
  cases hcontent : p.content with
  | data writable w =>
    apply Inv.changed hi rfl
    · intro q hq
      exact (State.own_define htakes).trans (if_neg hq)
    · intro w' hw
      cases hw
      exact ⟨p, (State.own_define htakes).trans (if_pos rfl), Or.inl ⟨_, hcontent⟩⟩
  | accessor get set =>
    dsimp only
    split_ifs with hsame
    · apply hi.silent
      intro q
      have howned := @State.own_define O K _ _ s place q p htakes
      change Option.map _ ((s.define place p).own q) = _
      rw [howned]
      by_cases hq : q = place
      · rw [if_pos hq, hq, hsame, Option.map_some, hcontent]
      · rw [if_neg hq]
    · apply Inv.changed hi rfl
      · intro q hq
        exact (State.own_define htakes).trans (if_neg hq)
      · nofun

theorem Inv.delete (hi : Inv s) (o : O) (key : K) :
    Inv ((s.setObject o ((s.objects o).delete key)).saw (.replaced (o, key))) := by
  apply Inv.changed hi rfl
  · intro q hq
    refine (State.own_setObject s o _ q).trans ?_
    by_cases ho : q.1 = o
    · have hkey : q.2 ≠ key := fun hkey => hq (Prod.ext ho hkey)
      rw [if_pos ho, Object.get_delete, if_neg hkey, State.own, ho]
    · exact if_neg ho
  · nofun

theorem Inv.preventExtensions (hi : Inv s) (o : O) :
    Inv (s.setObject o { s.objects o with extensible := false }) := by
  apply hi.silent
  intro q
  change Option.map _ ((s.setObject o _).own q) = _
  rw [State.own_setObject]
  by_cases ho : q.1 = o
  · rw [if_pos ho, State.own, ho]
    rfl
  · rw [if_neg ho]

/-- A new definition, whose property is not there yet. -/
theorem Inv.append (hi : Inv s) (hfresh : definition.initialized = false) :
    Inv { s with definitions := s.definitions ++ [definition] } := by
  have hold {d : ℕ} {definition' : Definition O K} (hd : s.definitions[d]? = some definition') :
      (s.definitions ++ [definition])[d]? = some definition' := by
    obtain ⟨hlt, -⟩ := List.getElem?_eq_some_iff.1 hd
    rw [List.getElem?_append_left hlt]
    exact hd
  refine ⟨?_, hi.apart, ?_, ?_, hi.once, ?_⟩
  · apply hi.linked.mono
    exact fun d definition' hd => ⟨definition', hold hd, rfl⟩
  · intro d definition' hd
    change (s.definitions ++ [definition])[d]? = some definition' at hd
    rcases Nat.lt_or_ge d s.definitions.length with hlt | hge
    · rw [List.getElem?_append_left hlt] at hd
      exact hi.memo d definition' hd
    · rw [List.getElem?_append_right hge, List.getElem?_singleton] at hd
      split_ifs at hd
      cases hd
      rw [hfresh]
      exact hi.unknown d hge
  · intro d hd
    change (s.definitions ++ [definition]).length ≤ d at hd
    rw [List.length_append, List.length_singleton] at hd
    exact hi.unknown d (by omega)
  · intro q w hw
    obtain ⟨p, hp, hdata | ⟨d, definition', set, haccessor, hd, hrest⟩⟩ := hi.holds q w hw
    · exact ⟨p, hp, Or.inl hdata⟩
    · exact ⟨p, hp, Or.inr ⟨d, definition', set, haccessor, hold hd, hrest⟩⟩

theorem Inv.defineLazy (hi : Inv s) (hfresh : definition.initialized = false) {get set : Value}
    {configurable enumerable : Bool}
    (htakes : (s.objects place.1).Takes place.2 ⟨configurable, enumerable, .accessor get set⟩) :
    Inv ((({ s with definitions := s.definitions ++ [definition] } : State O K).define place
      ⟨configurable, enumerable, .accessor get set⟩).saw (.replaced place)) := by
  apply Inv.changed (hi.append hfresh) rfl
  · intro q hq
    exact (State.own_define htakes).trans (if_neg hq)
  · nofun

/-- When a call has the initializer run. -/
theorem call_eq_runs (h : s.call d = .runs d') :
    d' = d ∧ ∃ definition, s.definitions[d]? = some definition ∧ definition.initialized = false ∧
      definition.place ∉ s.initializing := by
  unfold State.call at h
  cases hd : s.definitions[d]? with
  | none =>
    rw [hd] at h
    cases h
  | some definition =>
    rw [hd] at h
    dsimp only at h
    split_ifs at h with hinitialized hmem
    exact ⟨(Answer.runs.inj h).symm, definition, rfl, Bool.eq_false_of_not_eq_true hinitialized, hmem⟩

/-- Only a call that begins an initializer changes anything. -/
theorem Inv.enter (hi : Inv s) {answer : Answer} (hcall : ∀ d, answer = .runs d → s.call d = .runs d) :
    Inv (s.enter answer) := by
  cases answer with
  | value v => exact hi
  | threw => exact hi
  | script => exact hi
  | runs d =>
    obtain ⟨-, definition, hd, -, hmem⟩ := call_eq_runs (hcall d rfl)
    have henter : s.enter (.runs d) = { s with
        initializing := definition.place :: s.initializing
        frames := ⟨d, s.initializing⟩ :: s.frames } := by
      simp only [State.enter, hd]
    rw [henter]
    exact ⟨⟨definition, hd, rfl, hi.linked⟩, List.nodup_cons.2 ⟨hmem, hi.apart⟩, hi.memo, hi.unknown,
      hi.once, hi.holds⟩

theorem call_of_read {chain : List O} {key : K} (h : s.read chain key = .runs d) :
    s.call d = .runs d := by
  have hself {d' : ℕ} (hcall : s.call d' = .runs d) : s.call d = .runs d := by
    obtain ⟨rfl, -⟩ := call_eq_runs hcall
    exact hcall
  unfold State.read at h
  cases hlook : s.look key chain with
  | none =>
    rw [hlook] at h
    cases h
  | some found =>
    obtain ⟨o, p⟩ := found
    rw [hlook] at h
    dsimp only at h
    cases hcontent : p.content with
    | data writable w =>
      rw [hcontent] at h
      cases h
    | accessor get set =>
      rw [hcontent] at h
      cases get with
      | undefined => cases h
      | setter d' => cases h
      | other n => cases h
      | getter d' => exact hself h

/-- Materializing does not fail: the holder is an ordinary object. -/
theorem commit_eq_some (hp : s.own definition.place = some p) :
    ∃ objects definitions, s.commit d definition p v = some { s with objects, definitions } := by
  unfold State.commit
  dsimp only
  split_ifs with hconfigurable htakes
  · exact ⟨_, _, rfl⟩
  · exact absurd (Object.takes_of_configurable hp hconfigurable) htakes
  · exact ⟨s.objects, _, rfl⟩

theorem Inv.complete (hi : Inv s) (d : ℕ) (result : Option Value) : Inv (s.complete d result) := by
  unfold State.complete
  cases result with
  | none => exact hi
  | some v =>
    cases hd : s.definitions[d]? with
    | none => exact hi
    | some definition =>
      dsimp only
      cases hp : s.own definition.place with
      | none => exact hi
      | some p =>
        dsimp only
        split_ifs with hchanged
        · exact hi
        · push Not at hchanged
          cases ht : s.commit d definition p v with
          | none => exact hi
          | some t =>
            apply hi.commit hd hp hchanged.2 ht rfl rfl rfl
            exact fun _ => Bool.eq_false_of_not_eq_true hchanged.1

/-- The getter's `finally`. -/
theorem Inv.pop (hi : Inv s) {frame : Frame O K} {frames : List (Frame O K)}
    (hframes : s.frames = frame :: frames) : Inv { s with frames, initializing := frame.outer } := by
  have hlinked := hi.linked
  rw [hframes] at hlinked
  obtain ⟨definition, -, hchain, hrest⟩ := hlinked
  have hapart := hi.apart
  rw [hchain] at hapart
  exact ⟨hrest, hapart.of_cons, hi.memo, hi.unknown, hi.once, hi.holds⟩

theorem Inv.step {a : Act O K} (hi : Inv s) (h : step s a = some t) : Inv t := by
  cases a with
  | read chain key =>
    cases h
    exact hi.enter fun _ => call_of_read
  | get d =>
    cases h
    apply hi.enter
    intro d' hruns
    obtain ⟨rfl, -⟩ := call_eq_runs hruns
    exact hruns
  | write chain key v =>
    cases h
    exact hi.assigned fun t ht => hi.write ht
  | set d receiver v =>
    cases h
    refine hi.assigned fun t ht => ?_
    obtain ⟨e, he, hinv⟩ := hi.callSetter ht
    rw [he]
    exact hinv
  | define o key p =>
    cases h
    split_ifs with htakes
    · exact @Inv.define _ _ _ _ _ (o, key) _ hi htakes
    · exact hi
  | delete o key =>
    simp only [LazyProperties.step] at h
    split at h
    · cases h
      split_ifs
      · exact hi.delete o key
      · exact hi
    · cases h
      exact hi
  | preventExtensions o =>
    cases h
    exact hi.preventExtensions o
  | defineLazy o key writable enumerable configurable =>
    cases h
    split_ifs with htakes
    · exact @Inv.defineLazy _ _ _ _ _ _ (o, key) hi rfl _ _ _ _ htakes
    · exact hi.append rfl
  | complete result =>
    simp only [LazyProperties.step] at h
    cases hframes : s.frames with
    | nil =>
      rw [hframes] at h
      cases h
    | cons frame frames =>
      rw [hframes] at h
      cases h
      exact (hi.pop hframes).complete _ _

/-! ## Initialised once -/

theorem callSetter_isSome (hd : s.definitions[d]? = some definition)
    (hwritable : definition.writable = true)
    (hlazy : s.lazyDefinition definition.place (s.own definition.place) = some d) :
    (s.callSetter d (some definition.holder) v).isSome = true := by
  cases hp : s.own definition.place with
  | none =>
    rw [hp] at hlazy
    cases hlazy
  | some p =>
    obtain ⟨objects, definitions, ht⟩ := @commit_eq_some O K _ _ s d definition v p hp
    rw [hp] at hlazy
    simp only [State.callSetter, hd, hwritable, Bool.true_eq_false, if_false, ne_eq,
      not_true_eq_false, hp, hlazy, if_true, ht, Option.isSome_some]

theorem call_of_initialized (hd : s.definitions[d]? = some definition)
    (hinitialized : definition.initialized = true) : s.call d = .value definition.value := by
  simp only [State.call, hd, hinitialized, if_true]

theorem Inv.sound (hi : Inv s) : Sound s := by
  refine ⟨hi.linked, hi.apart, ?_, ?_, ?_, fun d definition v => callSetter_isSome, ?_⟩
  · intro d
    exact (hi.once d).trans (Bool.toNat_le _)
  · intro d v hv
    cases hd : s.definitions[d]? with
    | none =>
      rw [hi.unknown d (List.getElem?_eq_none_iff.1 hd)] at hv
      cases hv
    | some definition =>
      rw [hi.memo d definition hd] at hv
      split_ifs at hv with hinitialized
      cases hv
      exact call_of_initialized hd hinitialized
  · intro o key v hv chain p hlook
    obtain ⟨p', hp', hcontent⟩ := hi.holds _ v hv
    have hown : s.own (o, key) = some p := by
      clear hv hp'
      induction chain with
      | nil => cases hlook
      | cons o' chain ih =>
        unfold State.look at hlook
        cases hown : s.own (o', key) with
        | none =>
          rw [hown] at hlook
          exact ih hlook
        | some p'' =>
          rw [hown] at hlook
          obtain ⟨rfl, rfl⟩ := Prod.mk.inj (Option.some.inj hlook)
          exact hown
    obtain rfl := Option.some.inj (hown.symm.trans hp')
    unfold State.read
    rw [hlook]
    dsimp only
    rcases hcontent with ⟨w, hdata⟩ | ⟨d, definition, set, haccessor, hd, -, hinitialized, rfl⟩
    · rw [hdata]
    · rw [haccessor]
      exact call_of_initialized hd hinitialized
  · intro d definition hd hfresh hmem
    simp only [State.call, hd, hfresh, Bool.false_eq_true, if_false, if_pos hmem]

/-- An initializer that fails changes nothing. -/
theorem complete_of_fails {result : Option Value} (h : Fails s d result) : s.complete d result = s := by
  unfold State.complete
  cases result with
  | none => rfl
  | some v =>
    rcases h with h | h
    · cases h
    · cases hd : s.definitions[d]? with
      | none => rfl
      | some definition =>
        have hchanged := h definition hd
        dsimp only
        cases hp : s.own definition.place with
        | none => rfl
        | some p =>
          rw [hp] at hchanged
          exact if_pos hchanged

/-- Another one commits its value. -/
theorem complete_of_not_fails (h : ¬ Fails s d (some v)) :
    ∃ definition objects definitions, s.definitions[d]? = some definition ∧
      s.complete d (some v) = ({ s with objects, definitions } : State O K).saw
        (.committed d definition.place v) := by
  unfold Fails at h
  push Not at h
  obtain ⟨-, definition, hd, hfresh, hlazy⟩ := h
  cases hp : s.own definition.place with
  | none =>
    rw [hp] at hlazy
    cases hlazy
  | some p =>
    rw [hp] at hlazy
    obtain ⟨objects, definitions, ht⟩ := @commit_eq_some O K _ _ s d definition v p hp
    refine ⟨definition, objects, definitions, hd, ?_⟩
    have hkeep : ¬ (definition.initialized = true ∨
        s.lazyDefinition definition.place (some p) ≠ some d) := by
      push Not
      exact ⟨hfresh, hlazy⟩
    simp only [State.complete, hd, hp, if_neg hkeep, ht]

end

/-- What the completion of an initializer is to do, whatever it did before. -/
structure Completes (s : State O K) (frame : Frame O K) (frames : List (Frame O K))
    (result : Option Value) (t : State O K) : Prop where
  returned : t.frames = frames
  restored : t.initializing = frame.outer
  unchanged : Fails s frame.definition result →
    t.objects = s.objects ∧ t.definitions = s.definitions ∧ t.log = s.log
  commits : ∀ v, result = some v → ¬ Fails s frame.definition result →
    ∃ definition, s.definitions[frame.definition]? = some definition ∧
      t.log = .committed frame.definition definition.place v :: s.log

theorem completes_step {s t : State O K} {frame : Frame O K} {frames : List (Frame O K)}
    {result : Option Value} (hframes : s.frames = frame :: frames)
    (h : step s (.complete result) = some t) : Completes s frame frames result t := by
  simp only [step] at h
  rw [hframes] at h
  cases h
  let popped : State O K := { s with frames, initializing := frame.outer }
  by_cases hfails : Fails s frame.definition result
  · have hsame : popped.complete frame.definition result = popped := complete_of_fails hfails
    rw [show ({ s with frames, initializing := frame.outer } : State O K) = popped from rfl, hsame]
    exact ⟨rfl, rfl, fun _ => ⟨rfl, rfl, rfl⟩, fun v _ hnot => absurd hfails hnot⟩
  · cases result with
    | none => exact absurd (Or.inl rfl) hfails
    | some v =>
      obtain ⟨definition, objects, definitions, hd, heq⟩ :=
        @complete_of_not_fails O K _ _ popped frame.definition v hfails
      rw [show ({ s with frames, initializing := frame.outer } : State O K) = popped from rfl, heq]
      refine ⟨rfl, rfl, fun hyes => absurd hyes hfails, ?_⟩
      intro w hw _
      cases hw
      exact ⟨definition, hd, rfl⟩

/-- Whatever scripts do to objects and properties, initializers that do it while they run included:
    a definition is initialised once, a property reads as the value it was last given and a saved
    getter as its definition was, an initializer that throws or whose property has changed leaves
    everything as it is, none runs within itself, and the chain of those running is what it was
    when one is done. -/
theorem initialised_once (objects : O → Object K Value) (acts : List (Act O K)) (s : State O K)
    (h : run step { objects } acts = some s) :
    Sound s ∧ ∀ frame frames result t, s.frames = frame :: frames →
      step s (.complete result) = some t → Completes s frame frames result t := by
  have hi : Inv s := @Run.invariant _ _ _ acts Inv step (fun _ _ _ hs hi => hi.step hs) s h
    (inv_init objects)
  exact ⟨hi.sound, fun _ _ _ _ hframes ht => completes_step hframes ht⟩

/-- Two lazy properties of one object, of which the first is read and has its initializer read the
    second, and then itself. -/
def nestedReads : List (Act ℕ ℕ) :=
  [.defineLazy 0 0 true true true, .defineLazy 0 1 true true true, .read [1, 0] 0, .read [0] 1,
    .complete (some (.other 7)), .read [0] 0, .complete (some (.other 8)), .write [0] 0 (.other 9)]

/-- In the end it reads as what it was assigned, through an object that inherits it too. -/
theorem initialised_once_nested :
    ∃ s, run step ({ objects := fun _ => {} } : State ℕ ℕ) nestedReads = some s ∧ Sound s ∧
      s.read [1, 0] 0 = .value (.other 9) := by
  have hread : (run step ({ objects := fun _ => {} } : State ℕ ℕ) nestedReads).map
      (fun s => s.read [1, 0] 0) = some (.value (.other 9)) := by decide
  obtain ⟨s, hs, hread⟩ := Option.map_eq_some_iff.1 hread
  exact ⟨s, hs, (initialised_once _ nestedReads s hs).1, hread⟩

/-- A property is read, and its getter saved before that; then it is assigned, as the data property
    it has become. -/
def assignedPlainly : List (Act ℕ ℕ) :=
  [.defineLazy 0 0 true true true, .read [0] 0, .complete (some (.other 7)), .write [0] 0 (.other 9)]

/-- The getter answers with the value of the initializer. -/
theorem assignedPlainly_not_current :
    ∃ s, run step ({ objects := fun _ => {} } : State ℕ ℕ) assignedPlainly = some s ∧
      s.read [0] 0 = .value (.other 9) ∧ ¬ Current s := by
  refine ⟨_, rfl, by decide, ?_⟩
  intro hcurrent
  cases hcurrent 0 _ (.other 9) rfl rfl rfl

end WasmerNapi.HostJs.LazyProperties
