import WasmerNapi.Bridge.Callbacks

/-!
# Which of two accessors runs

A property with a getter and a setter has two functions in the engine but one registration, and
both functions carry the same data pointer. `generic_wasm_callback` sees only how many arguments a
call has: with none it runs the guest's getter, with some its setter. A property that is read or
written goes the right way. A function that was taken from the property's descriptor can be called
with any arguments.
-/

namespace WasmerNapi.Bridge.Callbacks

open Run

/-- Which of the two functions of a property is called. -/
inductive Role where
  | getter
  | setter
  deriving DecidableEq

/-- The guest's function for a role. -/
def Function.accessor (f : Function) : Role → ℕ
  | .getter => f.fn
  | .setter => f.setterFn

/-- What happens to the accessors of an agent: the guest's calls, and JavaScript calling one of
    the two functions of a property it has made. -/
inductive Event where
  | act (a : Action)
  | call (f : Function) (role : Role) (argc : ℕ)

/-- A property that is read calls its getter with no argument, … -/
def Event.read (f : Function) : Event := .call f .getter 0

/-- … and one that is written its setter with the value. -/
def Event.write (f : Function) : Event := .call f .setter 1

namespace World

/-- A call changes none of the tables. It is made on a property with two accessors. -/
def stepEvent (w : World) : Event → Option World
  | .act a => w.step a
  | .call f _ _ => if f ∈ w.functions ∧ f.setterFn ≠ 0 then some w else none

/-- The call runs the guest's function for its role, where guest code may run at all. -/
def Served (w : World) : Event → Prop
  | .act _ => True
  | .call f role argc =>
    w.genericWasmCallback true f.binding argc = some (f.env, f.accessor role)

/-- The guest's calls find room for what they register. -/
def RoomFor (w : World) : Event → Prop
  | .act a => Safe w a
  | .call .. => True

/-- The number of arguments tells the role, or nothing depends on it. -/
def Told (f : Function) (role : Role) (argc : ℕ) : Prop :=
  f.fn = f.setterFn ∨ (role = .getter ↔ argc = 0)

/-- A call tells its role, and the guest's calls find room. -/
def Fitting (w : World) : Event → Prop
  | .act a => Safe w a
  | .call f role argc => Told f role argc

instance (f : Function) (role : Role) (argc : ℕ) : Decidable (Told f role argc) :=
  inferInstanceAs (Decidable (_ ∨ (_ ↔ _)))

instance (w : World) : ∀ ev, Decidable (Fitting w ev)
  | .act a => inferInstanceAs (Decidable (Safe w a))
  | .call f role argc => inferInstanceAs (Decidable (Told f role argc))

theorem fn_eq_accessor_iff {f : Function} (hset : f.setterFn ≠ 0) (role : Role) (argc : ℕ) :
    (if f.setterFn ≠ 0 ∧ 0 < argc then f.setterFn else f.fn) = f.accessor role ↔
      Told f role argc := by
  unfold Told
  by_cases hargc : argc = 0
  · rw [if_neg fun h => absurd hargc h.2.ne']
    cases role with
    | getter => simp [Function.accessor, hargc]
    | setter => simp [Function.accessor, hargc]
  · rw [if_pos ⟨hset, Nat.pos_of_ne_zero hargc⟩]
    cases role with
    | getter => simp [Function.accessor, hargc, eq_comm]
    | setter => simp [Function.accessor, hargc]

variable {w u : World} {ev : Event}

theorem stepEvent_inv (hi : Inv w w.functions) (hroom : RoomFor w ev)
    (hw : w.stepEvent ev = some u) : Inv u u.functions := by
  cases ev with
  | act a => exact step_inv hi hroom hw
  | call f role argc =>
    obtain ⟨_, hsame⟩ := Option.ite_none_right_eq_some.mp hw
    cases hsame
    exact hi

/-- A call that can be made is served exactly when it tells its role. -/
theorem served_iff_told {f : Function} {role : Role} {argc : ℕ} (hi : Inv w w.functions)
    (hf : f ∈ w.functions) (hset : f.setterFn ≠ 0) :
    Served w (.call f role argc) ↔ Told f role argc := by
  have hdispatch := hi.sound.dispatch f hf argc
  show w.genericWasmCallback true f.binding argc = _ ↔ _
  rw [hdispatch, ← fn_eq_accessor_iff hset role argc]
  simp

/-- Calls that cannot be made are not asked about. -/
def Enabled (P : World → Event → Prop) (w : World) (ev : Event) : Prop :=
  w.stepEvent ev ≠ none → P w ev

theorem RoomFor.of_fitting (h : Fitting w ev) : RoomFor w ev := by
  cases ev with
  | act a => exact h
  | call f role argc => trivial

theorem enabled_served (hi : Inv w w.functions) (hfit : Fitting w ev) : Enabled Served w ev := by
  intro hstep
  cases ev with
  | act a => trivial
  | call f role argc =>
    obtain ⟨hf, hset⟩ := not_not.mp fun h => hstep (if_neg h)
    exact (served_iff_told hi hf hset).mpr hfit

theorem enabled_fitting (hi : Inv w w.functions) (hroom : RoomFor w ev)
    (hserved : Enabled Served w ev) : Enabled Fitting w ev := by
  intro hstep
  cases ev with
  | act a => exact hroom
  | call f role argc =>
    obtain ⟨hf, hset⟩ := not_not.mp fun h => hstep (if_neg h)
    exact (served_iff_told hi hf hset).mp (hserved hstep)

/-- In a run whose guest calls find room, the accessors that are called run by role when every call
    has an argument for the setter and none for the getter, and only then. -/
theorem accessors_by_role (events : List Event) :
    (AllSteps stepEvent Fitting {} events → AllSteps stepEvent (Enabled Served) {} events) ∧
      (AllSteps stepEvent RoomFor {} events → AllSteps stepEvent (Enabled Served) {} events →
        AllSteps stepEvent (Enabled Fitting) {} events) := by
  constructor
  · intro hfit
    have hinv : ∀ w ev u, stepEvent w ev = some u → Fitting w ev → Inv w w.functions →
        Inv u u.functions := fun _ _ _ hw hfit hi => stepEvent_inv hi (RoomFor.of_fitting hfit) hw
    exact allSteps_of_invariant hinv (fun _ _ hfit hi => enabled_served hi hfit) hfit inv_empty
  · intro hroom hserved
    have hinv : ∀ w ev u, stepEvent w ev = some u → RoomFor w ev ∧ Enabled Served w ev →
        Inv w w.functions → Inv u u.functions := fun _ _ _ hw hok hi => stepEvent_inv hi hok.1 hw
    exact allSteps_of_invariant hinv (fun _ _ hok hi => enabled_fitting hi hok.1 hok.2)
      (hroom.and hserved) inv_empty

/-- A property with the getter 82 and the setter 83. -/
def accessorPair : Function :=
  { env := 1, binding := some ⟨1, 2⟩, fn := 82, setterFn := 83, data := 0 }

/-- It is defined, read and written. -/
def pairUsed : List Event :=
  [.act (.createEnv 1), .act (.defineProperties 1 true 3 (some threeProperties) 0),
    .read accessorPair, .write accessorPair]

theorem pairUsed_by_role : (run stepEvent {} pairUsed).isSome ∧
    AllSteps stepEvent (Enabled Served) {} pairUsed ∧
    AllSteps stepEvent (Enabled Fitting) {} pairUsed := by
  have hfit : AllSteps stepEvent Fitting {} pairUsed := by decide
  have hserved := (accessors_by_role pairUsed).1 hfit
  have hroom : AllSteps stepEvent RoomFor {} pairUsed := hfit.mono fun _ _ => RoomFor.of_fitting
  exact ⟨by decide, hserved, (accessors_by_role pairUsed).2 hroom hserved⟩

/-- `Object.getOwnPropertyDescriptor(o, 'p').get.call(o, 0)` runs the setter. -/
theorem getter_runs_setter :
    ∃ w, run stepEvent {} [.act (.createEnv 1),
        .act (.defineProperties 1 true 3 (some threeProperties) 0)] = some w ∧
      accessorPair ∈ w.functions ∧ ¬ Served w (.call accessorPair .getter 1) ∧
      w.genericWasmCallback true accessorPair.binding 1 = some (1, accessorPair.setterFn) := by
  refine ⟨_, rfl, ?_, ?_, rfl⟩
  · decide
  · nofun

end World

end WasmerNapi.Bridge.Callbacks
