import Mathlib

/-!
# ES modules in host JavaScript

The module records of `src/src/snapi_js.rs` and their evaluation: `start_module_evaluation`, which
gives a promise and is what `module_wrap_evaluate` calls, and `evaluate_module_sync`, which runs the
whole graph before it returns. A module knows the modules its requests were linked to, and these
may form cycles.

What a body does is a parameter: it may call back into any of these functions before it returns or
throws, or never return. `State.bodies` is not in the source: it is the list of the bodies that the
two functions have run. Both recur over the graph, and take `fuel` for it.
-/

namespace WasmerNapi.HostJs.Modules

abbrev Handle := ℕ

/-- What is thrown: by these functions, or by a body. -/
inductive Thrown (V : Type) where
  | unknownHandle
  | evaluationFailed
  | requireCycle
  | requireAsync
  | notLinked
  | disappeared
  | value (v : V)
  deriving DecidableEq

/-- The message of a `TypeError`. -/
def Thrown.message {V : Type} : Thrown V → Option String
  | .unknownHandle => some "Unknown module handle"
  | .evaluationFailed => some "Module evaluation failed"
  | .requireCycle => some "Cannot require() an ES module while it is evaluating"
  | .requireAsync => some "Cannot synchronously evaluate a module graph with top-level await"
  | .notLinked => some "Module must be linked before evaluation"
  | .disappeared => some "Linked module disappeared"
  | .value _ => none

/-- Its `code`. -/
def Thrown.code {V : Type} : Thrown V → Option String
  | .requireCycle => some "ERR_REQUIRE_CYCLE_MODULE"
  | .requireAsync => some "ERR_REQUIRE_ASYNC_MODULE"
  | _ => none

inductive Kind where
  | synthetic
  | source (requests : ℕ) (linkedHandles : List Handle) (hasTopLevelAwait : Bool)
  deriving DecidableEq

/-- `evaluation` is the promise that was given out, `status` one of 0 to 5: 2 instantiated,
    3 evaluating, 4 evaluated, 5 failed with `error`. -/
structure Module (V : Type) where
  kind : Kind
  status : ℕ := 0
  error : Option (Thrown V) := none
  evaluation : Option ℕ := none
  deriving DecidableEq

inductive Settled (V : Type) where
  | pending
  | fulfilled
  | rejected (error : Thrown V)
  deriving DecidableEq

/-- An evaluation promise, the array of promises that it waits for, once that is known, and whether
    they have been fulfilled and the module's body has been called. -/
structure Promise (V : Type) where
  state : Settled V := .pending
  dependencies : Option (List ℕ) := none
  executed : Bool := false
  deriving DecidableEq

structure State (V : Type) where
  modules : List (Option (Module V))
  promises : List (Promise V) := []
  bodies : List Handle := []
  deriving DecidableEq

variable {V : Type}

namespace State

def module (s : State V) (h : Handle) : Option (Module V) := s.modules[h]?.join

def modify (s : State V) (h : Handle) (f : Module V → Module V) : State V :=
  { s with modules := s.modules.modify h (Option.map f) }

/-- `module_evaluation` -/
def evaluation (s : State V) (h : Handle) : Option ℕ := (s.module h).bind Module.evaluation

def promiseState (s : State V) (p : ℕ) : Settled V := (s.promises[p]?.map Promise.state).getD .pending

def settle (s : State V) (p : ℕ) (r : Settled V) : State V :=
  { s with promises := s.promises.modify p fun promise => { promise with state := r } }

/-- `wasmer_napi_finish_module_evaluation` -/
def finish (s : State V) (p : ℕ) (dependencies : List ℕ) : State V :=
  { s with promises := s.promises.modify p fun promise =>
      { promise with dependencies := some dependencies } }

/-- `wasmer_napi_create_module_evaluation`, whose promise the module keeps. -/
def record (s : State V) (h : Handle) : State V :=
  { s.modify h fun m => { m with evaluation := some s.promises.length } with
    promises := s.promises ++ [{}] }

/-- `set_module_status` -/
def setStatus (s : State V) (h : Handle) (status : ℕ) (error : Option (Thrown V)) : State V :=
  s.modify h fun m => { m with status, error }

end State

/-! ## Top-level await -/

/-- The loop over the linked modules, which share the list of those visited. -/
def anyAwait (search : Handle → List Handle → Option Bool × List Handle) :
    List Handle → List Handle → Option Bool × List Handle
  | [], visited => (some false, visited)
  | linked :: rest, visited =>
    match search linked visited with
    | (some false, visited) => anyAwait search rest visited
    | (some true, visited) => (some true, visited)
    | (none, visited) => (none, visited)

def searchAwait (s : State V) : ℕ → Handle → List Handle → Option Bool × List Handle
  | 0, _, visited => (none, visited)
  | fuel + 1, h, visited =>
    if visited.contains h then (some false, visited)
    else
      match (s.module h).map Module.kind with
      | none => (none, visited)
      | some .synthetic => (some false, visited)
      | some (.source _ linkedHandles hasTopLevelAwait) =>
        if hasTopLevelAwait then (some true, visited)
        else anyAwait (searchAwait s fuel) linkedHandles (visited ++ [h])

/-- `module_graph_has_top_level_await`: no module is visited twice. -/
def module_graph_has_top_level_await (s : State V) (h : Handle) : Option Bool :=
  (searchAwait s (s.modules.length + 1) h []).1

/-! ## Synchronous evaluation -/

/-- What the promise of a module that is evaluating makes of its status and error. -/
def Module.refreshed (m : Module V) (r : Settled V) : Module V :=
  match r with
  | .pending => { m with status := 3 }
  | .fulfilled => { m with status := 4 }
  | .rejected error => { m with status := 5, error := some error }

/-- `refresh_module_status` -/
def refresh_module_status (s : State V) (h : Handle) : Option (State V × ℕ) :=
  match s.module h with
  | none => none
  | some m =>
    if m.status ≠ 3 then some (s, m.status)
    else
      match m.evaluation with
      | none => some (s, m.status)
      | some p =>
        let refreshed := m.refreshed (s.promiseState p)
        some (s.modify h fun m => m.refreshed (s.promiseState p), refreshed.status)

/-- What running a module's body does: the state it leaves and what it throws, if it returns. -/
abbrev RunBody (V : Type) := State V → Handle → Option (State V × Option (Thrown V))

/-- The call of a module's `evaluate` or `execute`. -/
def callBody (run : RunBody V) (s : State V) (h : Handle) : Option (State V × Option (Thrown V)) :=
  (run s h).map fun (t, thrown) => ({ t with bodies := h :: s.bodies }, thrown)

/-- The status a body, or an error, leaves the module with. -/
def concluded (s : State V) (h : Handle) : Option (Thrown V) → State V × Except (Thrown V) Unit
  | none => (s.setStatus h 4 none, .ok ())
  | some error => (s.setStatus h 5 (some error), .error error)

/-- The loop over the linked modules, which an error ends. -/
def evaluateDependencies (evaluate : State V → Handle → Option (State V × Except (Thrown V) Unit)) :
    State V → List Handle → Option (State V × Except (Thrown V) Unit)
  | s, [] => some (s, .ok ())
  | s, linked :: rest =>
    match evaluate s linked with
    | some (s, .ok ()) => evaluateDependencies evaluate s rest
    | some (s, .error error) => some (s, .error error)
    | none => none

/-- `evaluate_module_sync`. The namespace it gives is that of the module. -/
def evaluate_module_sync (run : RunBody V) :
    ℕ → State V → Handle → List Handle → Option (State V × Except (Thrown V) Unit)
  | 0, _, _, _ => none
  | fuel + 1, s, h, visiting =>
    if visiting.contains h then
      some (s, if (s.module h).isSome then .ok () else .error .unknownHandle)
    else
      match refresh_module_status s h with
      | none => some (s, .error .unknownHandle)
      | some (s, status) =>
        if status = 5 then
          some (s, .error (((s.module h).bind Module.error).getD .evaluationFailed))
        else if status = 3 then some (s, .error .requireCycle)
        else if (module_graph_has_top_level_await s h).getD false then
          some (s, .error .requireAsync)
        else if status = 4 then some (s, .ok ())
        else
          match (s.module h).map Module.kind with
          | none => some (s, .error .unknownHandle)
          | some .synthetic =>
            (callBody run (s.setStatus h 3 none) h).map fun (s, thrown) => concluded s h thrown
          | some (.source requests linkedHandles _) =>
            if linkedHandles.length ≠ requests then some (s, .error .notLinked)
            else
              match evaluateDependencies
                (fun s linked => evaluate_module_sync run fuel s linked (visiting ++ [h]))
                (s.setStatus h 3 none) linkedHandles with
              | none => none
              | some (s, .error error) => some (concluded s h (some error))
              | some (s, .ok ()) =>
                (callBody run s h).map fun (s, thrown) => concluded s h thrown

/-! ## Evaluation -/

/-- The loop that gathers the promises of the linked modules. -/
def startDependencies (start : State V → Handle → Option (State V × Except (Thrown V) ℕ)) :
    State V → List Handle → List ℕ → Option (State V × Except (Thrown V) (List ℕ))
  | s, [], dependencies => some (s, .ok dependencies)
  | s, linked :: rest, dependencies =>
    match start s linked with
    | none => none
    | some (s, .error error) => some (s, .error error)
    | some (s, .ok p) =>
      if (s.module linked).isSome then startDependencies start s rest (dependencies ++ [p])
      else some (s, .error .disappeared)

/-- How a promise is settled that the end of a synchronous evaluation settles. -/
def Settled.ofResult : Except (Thrown V) Unit → Settled V
  | .ok () => .fulfilled
  | .error error => .rejected error

/-- `start_module_evaluation` -/
def start_module_evaluation (run : RunBody V) :
    ℕ → State V → Handle → Option (State V × Except (Thrown V) ℕ)
  | 0, _, _ => none
  | fuel + 1, s, h =>
    match s.evaluation h with
    | some p => some (s, .ok p)
    | none =>
      match module_graph_has_top_level_await s h with
      | none => some (s, .error .unknownHandle)
      | some false =>
        let p := s.promises.length
        (evaluate_module_sync run fuel (s.record h) h []).map fun (s, result) =>
          (s.settle p (.ofResult result), .ok p)
      | some true =>
        let p := s.promises.length
        let s := s.record h
        match s.module h with
        | some ⟨.source requests linkedHandles _, _, error, _⟩ =>
          match error with
          | some error => some (s.settle p (.rejected error), .ok p)
          | none =>
            if linkedHandles.length ≠ requests then some (s, .error .notLinked)
            else
              match startDependencies (start_module_evaluation run fuel)
                (s.modify h fun m => { m with status := 3 }) linkedHandles [] with
              | none => none
              | some (s, .error error) => some (s.settle p (.rejected error), .ok p)
              | some (s, .ok dependencies) => some (s.finish p dependencies, .ok p)
        | _ => some (s, .error .unknownHandle)

/-- `module_wrap_evaluate`: the promise, or the exception that is left pending. -/
def snapi_bridge_unofficial_module_wrap_evaluate (run : RunBody V) (fuel : ℕ) (s : State V)
    (h : Handle) : Option (State V × Except (Thrown V) ℕ) :=
  start_module_evaluation run fuel s h

/-- `module_wrap_evaluate_sync` -/
def snapi_bridge_unofficial_module_wrap_evaluate_sync (run : RunBody V) (fuel : ℕ) (s : State V)
    (h : Handle) : Option (State V × Except (Thrown V) Unit) :=
  evaluate_module_sync run fuel s h []

/-! ## What the parts of a state are after a change -/

section Lemmas

variable {s : State V} {h h' : Handle} {p q : ℕ} {f : Module V → Module V}

theorem module_modify : (s.modify h f).module h' =
    if h = h' then (s.module h').map f else s.module h' := by
  rw [State.module, State.modify, List.getElem?_modify, State.module]
  split_ifs with hh
  · cases s.modules[h']? <;> rfl
  · cases s.modules[h']? <;> rfl

@[simp] theorem module_modify_self : (s.modify h f).module h = (s.module h).map f := by
  rw [module_modify, if_pos rfl]

theorem kind_modify (hf : ∀ m, (f m).kind = m.kind) :
    ((s.modify h f).module h').map Module.kind = (s.module h').map Module.kind := by
  rw [module_modify]
  split_ifs
  · rw [Option.map_map]
    congr 1
    funext m
    exact hf m
  · rfl

theorem evaluation_modify (hf : ∀ m, (f m).evaluation = m.evaluation) :
    (s.modify h f).evaluation h' = s.evaluation h' := by
  rw [State.evaluation, module_modify, State.evaluation]
  split_ifs
  · rw [Option.bind_map]
    congr 1
    funext m
    exact hf m
  · rfl

@[simp] theorem length_modify : (s.modify h f).modules.length = s.modules.length :=
  List.length_modify ..

theorem module_record : (s.record h).module h' =
    if h = h' then (s.module h').map fun m => { m with evaluation := some s.promises.length }
    else s.module h' :=
  module_modify

theorem evaluation_record : (s.record h).evaluation h' =
    if h = h' ∧ (s.module h').isSome then some s.promises.length else s.evaluation h' := by
  rw [State.evaluation, module_record, State.evaluation]
  by_cases hh : h = h'
  · rw [if_pos hh]
    cases s.module h' <;> simp [hh]
  · rw [if_neg hh, if_neg fun hand => hh hand.1]

/-- What is asked of a module's graph is asked of the kinds of its modules. -/
theorem searchAwait_congr {t : State V}
    (hkind : ∀ h, (t.module h).map Module.kind = (s.module h).map Module.kind) (fuel : ℕ) :
    searchAwait t fuel = searchAwait s fuel := by
  induction fuel with
  | zero => rfl
  | succ fuel ih =>
    funext h visited
    rw [searchAwait, searchAwait, hkind, ih]

theorem module_graph_congr {t : State V}
    (hkind : ∀ h, (t.module h).map Module.kind = (s.module h).map Module.kind)
    (hlength : t.modules.length = s.modules.length) (h : Handle) :
    module_graph_has_top_level_await t h = module_graph_has_top_level_await s h := by
  rw [module_graph_has_top_level_await, hlength, searchAwait_congr hkind,
    module_graph_has_top_level_await]

/-- A refresh changes the status and the error of the one module. -/
theorem refresh_cases {t : State V} {status : ℕ} (hr : refresh_module_status s h = some (t, status)) :
    ∃ m m', s.module h = some m ∧ m'.kind = m.kind ∧ m'.evaluation = m.evaluation ∧
      m'.status = status ∧ t.module h = some m' ∧
      (t = s ∨ ∃ p, m.status = 3 ∧ m.evaluation = some p ∧
        t = s.modify h fun m => m.refreshed (s.promiseState p)) := by
  rw [refresh_module_status] at hr
  cases hm : s.module h with
  | none =>
    rw [hm] at hr
    cases hr
  | some m =>
    rw [hm] at hr
    simp only at hr
    split_ifs at hr with hstatus
    · obtain ⟨rfl, rfl⟩ := Prod.mk.inj (Option.some.inj hr)
      exact ⟨m, m, rfl, rfl, rfl, rfl, hm, .inl rfl⟩
    · cases hp : m.evaluation with
      | none =>
        rw [hp] at hr
        obtain ⟨rfl, rfl⟩ := Prod.mk.inj (Option.some.inj hr)
        exact ⟨m, m, rfl, rfl, rfl, rfl, hm, .inl rfl⟩
      | some p =>
        rw [hp] at hr
        obtain ⟨rfl, rfl⟩ := Prod.mk.inj (Option.some.inj hr)
        refine ⟨m, m.refreshed (s.promiseState p), rfl, ?_, ?_, rfl, ?_, .inr ⟨p, ?_, hp, rfl⟩⟩
        · cases s.promiseState p <;> rfl
        · cases s.promiseState p <;> rfl
        · rw [module_modify_self, hm, Option.map_some]
        · exact not_not.mp hstatus

end Lemmas

/-! ## What evaluation does -/

/-- The requests of a module have all been linked. -/
def State.linked (s : State V) (h : Handle) : Bool :=
  match (s.module h).map Module.kind with
  | some (.source requests linkedHandles _) => linkedHandles.length = requests
  | _ => true

/-- A check of `evaluate_module_sync` on the module it is called for refuses it. -/
def Refused (s : State V) (h : Handle) (status : ℕ) : Prop :=
  status = 5 ∨ status = 3 ∨ (module_graph_has_top_level_await s h).getD false = true ∨
    (status ≠ 4 ∧ s.linked h = false)

/-- How a module's evaluation goes on once nothing refuses it: `t` is the state its body or its
    dependencies leave, and `thrown` what they throw. -/
inductive Evaluated (run : RunBody V) (fuel : ℕ) (s : State V) (h : Handle)
    (visiting : List Handle) : State V → Option (Thrown V) → Prop where
  | synthetic {t thrown} (hkind : (s.module h).map Module.kind = some .synthetic)
      (hbody : callBody run (s.setStatus h 3 none) h = some (t, thrown)) :
      Evaluated run fuel s h visiting t thrown
  | dependency {requests linkedHandles hasTopLevelAwait t error}
      (hkind : (s.module h).map Module.kind =
        some (.source requests linkedHandles hasTopLevelAwait))
      (hdeps : evaluateDependencies
        (fun s linked => evaluate_module_sync run fuel s linked (visiting ++ [h]))
        (s.setStatus h 3 none) linkedHandles = some (t, .error error)) :
      Evaluated run fuel s h visiting t (some error)
  | source {requests linkedHandles hasTopLevelAwait t u thrown}
      (hkind : (s.module h).map Module.kind =
        some (.source requests linkedHandles hasTopLevelAwait))
      (hdeps : evaluateDependencies
        (fun s linked => evaluate_module_sync run fuel s linked (visiting ++ [h]))
        (s.setStatus h 3 none) linkedHandles = some (t, .ok ()))
      (hbody : callBody run t h = some (u, thrown)) :
      Evaluated run fuel s h visiting u thrown

/-- Everything `evaluate_module_sync` can do. -/
theorem evaluate_module_sync_cases {run : RunBody V} {fuel : ℕ} {s t : State V} {h : Handle}
    {visiting : List Handle} {r : Except (Thrown V) Unit}
    (he : evaluate_module_sync run (fuel + 1) s h visiting = some (t, r)) :
    (visiting.contains h = true ∧ t = s) ∨
    (visiting.contains h = false ∧ refresh_module_status s h = none ∧ t = s ∧
      r = .error .unknownHandle) ∨
    ∃ u status, visiting.contains h = false ∧ refresh_module_status s h = some (u, status) ∧
      ((Refused u h status ∧ t = u ∧ ∃ error, r = .error error) ∨
        (¬ Refused u h status ∧ status = 4 ∧ t = u ∧ r = .ok ()) ∨
        (¬ Refused u h status ∧ status ≠ 4 ∧ ∃ v thrown, Evaluated run fuel u h visiting v thrown ∧
          (t, r) = concluded v h thrown)) := by
  rw [evaluate_module_sync] at he
  cases hv : visiting.contains h with
  | true =>
    rw [if_pos hv] at he
    exact .inl ⟨rfl, (Prod.mk.inj (Option.some.inj he)).1.symm⟩
  | false =>
    refine .inr ?_
    rw [if_neg (by rw [hv]; decide)] at he
    cases hr : refresh_module_status s h with
    | none =>
      rw [hr] at he
      obtain ⟨rfl, rfl⟩ := Prod.mk.inj (Option.some.inj he)
      exact .inl ⟨rfl, rfl, rfl, rfl⟩
    | some refreshed =>
      obtain ⟨u, status⟩ := refreshed
      rw [hr] at he
      refine .inr ⟨u, status, rfl, rfl, ?_⟩
      simp only at he
      by_cases h5 : status = 5
      · rw [if_pos h5] at he
        obtain ⟨rfl, rfl⟩ := Prod.mk.inj (Option.some.inj he)
        exact .inl ⟨.inl h5, rfl, _, rfl⟩
      rw [if_neg h5] at he
      by_cases h3 : status = 3
      · rw [if_pos h3] at he
        obtain ⟨rfl, rfl⟩ := Prod.mk.inj (Option.some.inj he)
        exact .inl ⟨.inr (.inl h3), rfl, _, rfl⟩
      rw [if_neg h3] at he
      by_cases hawait : (module_graph_has_top_level_await u h).getD false = true
      · rw [if_pos hawait] at he
        obtain ⟨rfl, rfl⟩ := Prod.mk.inj (Option.some.inj he)
        exact .inl ⟨.inr (.inr (.inl hawait)), rfl, _, rfl⟩
      rw [if_neg hawait] at he
      by_cases h4 : status = 4
      · rw [if_pos h4] at he
        obtain ⟨rfl, rfl⟩ := Prod.mk.inj (Option.some.inj he)
        refine .inr (.inl ⟨?_, h4, rfl, rfl⟩)
        rintro (hr | hr | hr | hr)
        · exact h5 hr
        · exact h3 hr
        · exact hawait hr
        · exact hr.1 h4
      rw [if_neg h4] at he
      have hgo : u.linked h = true → ¬ Refused u h status := by
        rintro hl (hr | hr | hr | hr)
        · exact h5 hr
        · exact h3 hr
        · exact hawait hr
        · rw [hl] at hr
          cases hr.2
      obtain ⟨m, m', -, hkind, -, -, hm', -⟩ := refresh_cases hr
      rw [hm', Option.map_some] at he
      cases hk : m'.kind with
      | synthetic =>
        rw [hk] at he
        obtain ⟨⟨v, thrown⟩, hbody, hconcluded⟩ := Option.map_eq_some_iff.mp he
        have hsynthetic : (u.module h).map Module.kind = some .synthetic := by
          rw [hm', Option.map_some, hk]
        refine .inr (.inr ⟨hgo ?_, h4, v, thrown, .synthetic hsynthetic hbody, hconcluded.symm⟩)
        rw [State.linked, hsynthetic]
      | source requests linkedHandles hasTopLevelAwait =>
        rw [hk] at he
        simp only at he
        have hsource : (u.module h).map Module.kind =
            some (.source requests linkedHandles hasTopLevelAwait) := by
          rw [hm', Option.map_some, hk]
        split_ifs at he with hl
        · obtain ⟨rfl, rfl⟩ := Prod.mk.inj (Option.some.inj he)
          refine .inl ⟨.inr (.inr (.inr ⟨h4, ?_⟩)), rfl, _, rfl⟩
          rw [State.linked, hsource]
          exact decide_eq_false hl
        · refine .inr (.inr ⟨hgo ?_, h4, ?_⟩)
          · rw [State.linked, hsource]
            exact decide_eq_true (not_not.mp hl)
          · cases hdeps : evaluateDependencies
              (fun s linked => evaluate_module_sync run fuel s linked (visiting ++ [h]))
              (u.setStatus h 3 none) linkedHandles with
            | none =>
              rw [hdeps] at he
              cases he
            | some reached =>
              obtain ⟨w, result⟩ := reached
              rw [hdeps] at he
              cases result with
              | error error =>
                exact ⟨w, some error, .dependency hsource hdeps, (Option.some.inj he).symm⟩
              | ok _ =>
                obtain ⟨⟨v, thrown⟩, hbody, hconcluded⟩ := Option.map_eq_some_iff.mp he
                exact ⟨v, thrown, .source hsource hdeps hbody, hconcluded.symm⟩

theorem isSource_of_await {s : State V} {h : Handle} {awaits : Bool}
    (hg : module_graph_has_top_level_await s h = some awaits) : ∃ m, s.module h = some m ∧
      (awaits = true → ∃ requests linkedHandles hasTopLevelAwait,
        m.kind = .source requests linkedHandles hasTopLevelAwait) := by
  rw [module_graph_has_top_level_await, searchAwait, if_neg (by simp)] at hg
  cases hm : s.module h with
  | none =>
    rw [hm] at hg
    cases hg
  | some m =>
    rw [hm, Option.map_some] at hg
    refine ⟨m, rfl, ?_⟩
    rintro rfl
    cases hk : m.kind with
    | synthetic =>
      rw [hk] at hg
      cases hg
    | source requests linkedHandles hasTopLevelAwait => exact ⟨_, _, _, rfl⟩

/-- Everything `start_module_evaluation` can do. Whatever it does with a module whose evaluation has
    not been started, it records the promise first. -/
inductive Started (run : RunBody V) (fuel : ℕ) (s : State V) (h : Handle) :
    State V → Except (Thrown V) ℕ → Prop where
  | given {p} (hp : s.evaluation h = some p) : Started run fuel s h s (.ok p)
  | unknown (hnone : s.evaluation h = none)
      (hgraph : module_graph_has_top_level_await s h = none) :
      Started run fuel s h s (.error .unknownHandle)
  | sync {t result} (hnone : s.evaluation h = none)
      (hgraph : module_graph_has_top_level_await s h = some false)
      (he : evaluate_module_sync run fuel (s.record h) h [] = some (t, result)) :
      Started run fuel s h (t.settle s.promises.length (.ofResult result)) (.ok s.promises.length)
  | failed {error} (hnone : s.evaluation h = none)
      (hgraph : module_graph_has_top_level_await s h = some true) :
      Started run fuel s h ((s.record h).settle s.promises.length (.rejected error))
        (.ok s.promises.length)
  | notLinked (hnone : s.evaluation h = none)
      (hgraph : module_graph_has_top_level_await s h = some true) (hlinked : s.linked h = false) :
      Started run fuel s h (s.record h) (.error .notLinked)
  | dependency {requests linkedHandles hasTopLevelAwait t error} (hnone : s.evaluation h = none)
      (hgraph : module_graph_has_top_level_await s h = some true)
      (hkind : (s.module h).map Module.kind =
        some (.source requests linkedHandles hasTopLevelAwait))
      (hdeps : startDependencies (start_module_evaluation run fuel)
        ((s.record h).modify h fun m => { m with status := 3 }) linkedHandles [] =
        some (t, .error error)) :
      Started run fuel s h (t.settle s.promises.length (.rejected error)) (.ok s.promises.length)
  | waiting {requests linkedHandles hasTopLevelAwait t dependencies}
      (hnone : s.evaluation h = none)
      (hgraph : module_graph_has_top_level_await s h = some true)
      (hkind : (s.module h).map Module.kind =
        some (.source requests linkedHandles hasTopLevelAwait))
      (hdeps : startDependencies (start_module_evaluation run fuel)
        ((s.record h).modify h fun m => { m with status := 3 }) linkedHandles [] =
        some (t, .ok dependencies)) :
      Started run fuel s h (t.finish s.promises.length dependencies) (.ok s.promises.length)

theorem start_module_evaluation_cases {run : RunBody V} {fuel : ℕ} {s t : State V} {h : Handle}
    {r : Except (Thrown V) ℕ} (hs : start_module_evaluation run (fuel + 1) s h = some (t, r)) :
    Started run fuel s h t r := by
  rw [start_module_evaluation] at hs
  cases hp : s.evaluation h with
  | some p =>
    rw [hp] at hs
    obtain ⟨rfl, rfl⟩ := Prod.mk.inj (Option.some.inj hs)
    exact .given hp
  | none =>
    rw [hp] at hs
    simp only at hs
    cases hgraph : module_graph_has_top_level_await s h with
    | none =>
      rw [hgraph] at hs
      obtain ⟨rfl, rfl⟩ := Prod.mk.inj (Option.some.inj hs)
      exact .unknown hp hgraph
    | some awaits =>
      rw [hgraph] at hs
      cases awaits with
      | false =>
        obtain ⟨⟨u, result⟩, he, heq⟩ := Option.map_eq_some_iff.mp hs
        obtain ⟨rfl, rfl⟩ := Prod.mk.inj heq
        exact .sync hp hgraph he
      | true =>
        obtain ⟨m, hm, hsource⟩ := isSource_of_await hgraph
        obtain ⟨requests, linkedHandles, hasTopLevelAwait, hk⟩ := hsource rfl
        obtain ⟨kind, status, error, evaluation⟩ := m
        obtain rfl := hk
        have hkind : (s.module h).map Module.kind =
            some (.source requests linkedHandles hasTopLevelAwait) := by
          rw [hm, Option.map_some]
        have hrecord : (s.record h).module h = some ⟨.source requests linkedHandles hasTopLevelAwait,
            status, error, some s.promises.length⟩ := by
          rw [module_record, if_pos rfl, hm, Option.map_some]
        simp only [hrecord] at hs
        cases error with
        | some error =>
          obtain ⟨rfl, rfl⟩ := Prod.mk.inj (Option.some.inj hs)
          exact .failed hp hgraph
        | none =>
          simp only at hs
          split_ifs at hs with hl
          · obtain ⟨rfl, rfl⟩ := Prod.mk.inj (Option.some.inj hs)
            refine .notLinked hp hgraph ?_
            rw [State.linked, hkind]
            exact decide_eq_false hl
          · cases hdeps : startDependencies (start_module_evaluation run fuel)
              ((s.record h).modify h fun m => { m with status := 3 }) linkedHandles [] with
            | none =>
              rw [hdeps] at hs
              cases hs
            | some reached =>
              obtain ⟨u, result⟩ := reached
              rw [hdeps] at hs
              cases result with
              | error error =>
                obtain ⟨rfl, rfl⟩ := Prod.mk.inj (Option.some.inj hs)
                exact .dependency hp hgraph hkind hdeps
              | ok dependencies =>
                obtain ⟨rfl, rfl⟩ := Prod.mk.inj (Option.some.inj hs)
                exact .waiting hp hgraph hkind hdeps

/-! ## What they leave as it was -/

/-- A relation between the states before and after that every write of a status or an error
    respects, and every call of a body: all that `evaluate_module_sync` does. -/
structure Respects (run : RunBody V) (R : State V → State V → Prop) : Prop where
  refl : ∀ s, R s s
  trans : ∀ {s t u}, R s t → R t u → R s u
  modify : ∀ s h f, (∀ m : Module V, (f m).kind = m.kind ∧ (f m).evaluation = m.evaluation) →
    R s (s.modify h f)
  body : ∀ s h t thrown, callBody run s h = some (t, thrown) → R s t

/-- And every write of a promise: all that `start_module_evaluation` does. -/
structure RespectsPromises (run : RunBody V) (R : State V → State V → Prop) : Prop
    extends Respects run R where
  record : ∀ s h, s.evaluation h = none → R s (s.record h)
  settle : ∀ s p r, R s (s.settle p r)
  finish : ∀ s p dependencies, R s (s.finish p dependencies)

namespace Respects

variable {run : RunBody V} {R : State V → State V → Prop}

theorem setStatus (hR : Respects run R) (s : State V) (h : Handle) (status : ℕ)
    (error : Option (Thrown V)) : R s (s.setStatus h status error) :=
  hR.modify s h _ fun _ => ⟨rfl, rfl⟩

theorem concluded (hR : Respects run R) (s : State V) (h : Handle) (thrown : Option (Thrown V)) :
    R s (Modules.concluded s h thrown).1 := by
  cases thrown with
  | none => exact hR.setStatus s h 4 none
  | some error => exact hR.setStatus s h 5 (some error)

theorem refresh (hR : Respects run R) {s t : State V} {h : Handle} {status : ℕ}
    (hr : refresh_module_status s h = some (t, status)) : R s t := by
  obtain ⟨m, m', -, -, -, -, -, rfl | ⟨p, -, -, rfl⟩⟩ := refresh_cases hr
  · exact hR.refl _
  · refine hR.modify s h _ fun m => ?_
    cases s.promiseState p <;> exact ⟨rfl, rfl⟩

theorem evaluateDependencies (hR : Respects run R)
    {evaluate : State V → Handle → Option (State V × Except (Thrown V) Unit)}
    (hevaluate : ∀ s h t r, evaluate s h = some (t, r) → R s t) {s t : State V}
    {linkedHandles : List Handle} {r : Except (Thrown V) Unit}
    (h : Modules.evaluateDependencies evaluate s linkedHandles = some (t, r)) : R s t := by
  induction linkedHandles generalizing s with
  | nil =>
    obtain ⟨rfl, -⟩ := Prod.mk.inj (Option.some.inj h)
    exact hR.refl _
  | cons linked rest ih =>
    rw [Modules.evaluateDependencies] at h
    cases he : evaluate s linked with
    | none =>
      rw [he] at h
      cases h
    | some reached =>
      obtain ⟨u, result⟩ := reached
      rw [he] at h
      cases result with
      | error error =>
        obtain ⟨rfl, -⟩ := Prod.mk.inj (Option.some.inj h)
        exact hevaluate s linked _ _ he
      | ok _ => exact hR.trans (hevaluate s linked _ _ he) (ih h)

theorem evaluate_module_sync (hR : Respects run R) {fuel : ℕ} {s t : State V} {h : Handle}
    {visiting : List Handle} {r : Except (Thrown V) Unit}
    (he : Modules.evaluate_module_sync run fuel s h visiting = some (t, r)) : R s t := by
  induction fuel generalizing s t h visiting r with
  | zero => cases he
  | succ fuel ih =>
    rcases evaluate_module_sync_cases he with ⟨-, rfl⟩ | ⟨-, -, rfl, -⟩ | ⟨u, status, -, hr, hgo⟩
    · exact hR.refl _
    · exact hR.refl _
    · apply hR.trans (hR.refresh hr)
      rcases hgo with ⟨-, rfl, -⟩ | ⟨-, -, rfl, -⟩ | ⟨-, -, v, thrown, hev, hconcluded⟩
      · exact hR.refl _
      · exact hR.refl _
      · obtain rfl : t = (Modules.concluded v h thrown).1 := congrArg Prod.fst hconcluded
        refine hR.trans ?_ (hR.concluded v h thrown)
        apply hR.trans (hR.setStatus u h 3 none)
        cases hev with
        | synthetic _ hbody => exact hR.body _ _ _ _ hbody
        | dependency _ hdeps => exact hR.evaluateDependencies (fun _ _ _ _ => ih) hdeps
        | source _ hdeps hbody =>
          exact hR.trans (hR.evaluateDependencies (fun _ _ _ _ => ih) hdeps)
            (hR.body _ _ _ _ hbody)

theorem startDependencies (hR : Respects run R)
    {start : State V → Handle → Option (State V × Except (Thrown V) ℕ)}
    (hstart : ∀ s h t r, start s h = some (t, r) → R s t) {s t : State V}
    {linkedHandles : List Handle} {dependencies : List ℕ} {r : Except (Thrown V) (List ℕ)}
    (h : Modules.startDependencies start s linkedHandles dependencies = some (t, r)) : R s t := by
  induction linkedHandles generalizing s dependencies with
  | nil =>
    obtain ⟨rfl, -⟩ := Prod.mk.inj (Option.some.inj h)
    exact hR.refl _
  | cons linked rest ih =>
    rw [Modules.startDependencies] at h
    cases he : start s linked with
    | none =>
      rw [he] at h
      cases h
    | some reached =>
      obtain ⟨u, result⟩ := reached
      rw [he] at h
      cases result with
      | error error =>
        obtain ⟨rfl, -⟩ := Prod.mk.inj (Option.some.inj h)
        exact hstart s linked _ _ he
      | ok p =>
        simp only at h
        split_ifs at h
        · exact hR.trans (hstart s linked _ _ he) (ih h)
        · obtain ⟨rfl, -⟩ := Prod.mk.inj (Option.some.inj h)
          exact hstart s linked _ _ he

end Respects

theorem RespectsPromises.start_module_evaluation {run : RunBody V} {R : State V → State V → Prop}
    (hR : RespectsPromises run R) {fuel : ℕ} {s t : State V} {h : Handle}
    {r : Except (Thrown V) ℕ}
    (hs : Modules.start_module_evaluation run fuel s h = some (t, r)) : R s t := by
  induction fuel generalizing s t h r with
  | zero => cases hs
  | succ fuel ih =>
    cases start_module_evaluation_cases hs with
    | given _ => exact hR.refl _
    | unknown _ _ => exact hR.refl _
    | sync hnone _ he =>
      exact hR.trans (hR.record s h hnone)
        (hR.trans (hR.toRespects.evaluate_module_sync he) (hR.settle _ _ _))
    | failed hnone _ => exact hR.trans (hR.record s h hnone) (hR.settle _ _ _)
    | notLinked hnone _ _ => exact hR.record s h hnone
    | dependency hnone _ _ hdeps =>
      apply hR.trans (hR.record s h hnone)
      apply hR.trans (hR.modify _ h (fun m => { m with status := 3 }) fun _ => ⟨rfl, rfl⟩)
      exact hR.trans (hR.toRespects.startDependencies (fun _ _ _ _ => ih) hdeps) (hR.settle _ _ _)
    | waiting hnone _ _ hdeps =>
      apply hR.trans (hR.record s h hnone)
      apply hR.trans (hR.modify _ h (fun m => { m with status := 3 }) fun _ => ⟨rfl, rfl⟩)
      exact hR.trans (hR.toRespects.startDependencies (fun _ _ _ _ => ih) hdeps) (hR.finish _ _ _)

end WasmerNapi.HostJs.Modules
