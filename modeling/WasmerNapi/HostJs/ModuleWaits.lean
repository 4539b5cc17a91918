import WasmerNapi.HostJs.Modules
import WasmerNapi.Lib.Run

/-!
# What evaluation promises wait for

The promise of a module with top-level await in its graph waits for those of the modules it is linked
to, and `start_module_evaluation` takes them as they are: a module that is being started already
gives its promise, even where it is one that is waiting for this call. So two modules that import
each other wait for each other, and neither is ever evaluated.

Here is a graph of linked modules and any run over it: evaluations, whose bodies may start others,
and the jobs that settle promises. When no cycle of the graph can be reached, among the modules with
top-level await in their graph, from a module that is evaluated, no promise waits for itself, and all
of them are settled once the bodies are: `no_promise_waits_for_itself`.
-/

namespace WasmerNapi.HostJs.Modules

open Run

variable {V : Type}

/-! ## Runs -/

/-- What is called, and what the jobs of the promises do. `execute` is that of a module whose
    dependencies are all fulfilled, `settle` that of what it has returned, and `reject` takes the
    error of a dependency. -/
inductive Act (V : Type) where
  | evaluate (h : Handle)
  | evaluateSync (h : Handle)
  | getState (h : Handle)
  | execute (h : Handle)
  | settle (p : ℕ) (thrown : Option (Thrown V))
  | reject (p q : ℕ)

/-- What a promise waits for. -/
def State.dependencies (s : State V) (p : ℕ) : Option (List ℕ) :=
  s.promises[p]?.bind Promise.dependencies

def State.isFulfilled (s : State V) (p : ℕ) : Bool :=
  match s.promiseState p with
  | .fulfilled => true
  | _ => false

def State.isPending (s : State V) (p : ℕ) : Bool :=
  match s.promiseState p with
  | .pending => true
  | _ => false

def State.isExecuted (s : State V) (p : ℕ) : Bool :=
  (s.promises[p]?.map Promise.executed).getD false

def State.markExecuted (s : State V) (p : ℕ) : State V :=
  { s with promises := s.promises.modify p fun promise => { promise with executed := true } }

def Settled.ofThrown : Option (Thrown V) → Settled V
  | none => .fulfilled
  | some error => .rejected error

def exec (run : RunBody V) (fuel : ℕ) (s : State V) : Act V → Option (State V)
  | .evaluate h =>
    (snapi_bridge_unofficial_module_wrap_evaluate run fuel s h).map Prod.fst
  | .evaluateSync h =>
    (snapi_bridge_unofficial_module_wrap_evaluate_sync run fuel s h).map Prod.fst
  | .getState h => (refresh_module_status s h).map Prod.fst
  | .execute h =>
    (s.evaluation h).bind fun p => (s.dependencies p).bind fun dependencies =>
      if s.isPending p && !s.isExecuted p && dependencies.all s.isFulfilled then
        (callBody run (s.markExecuted p) h).map Prod.fst
      else none
  | .settle p thrown =>
    if s.isPending p && s.isExecuted p then some (s.settle p (.ofThrown thrown)) else none
  | .reject p q =>
    (s.dependencies p).bind fun dependencies =>
      match s.promiseState q with
      | .rejected error =>
        if s.isPending p && dependencies.contains q then some (s.settle p (.rejected error))
        else none
      | _ => none

/-- What the body of a module does before it returns, and what it throws. -/
abbrev Program (V : Type) := State V → Handle → List (Act V) × Option (Thrown V)

/-- Bodies whose bodies nest `depth` times at most. -/
def runBody (program : Program V) (fuel : ℕ) : ℕ → RunBody V
  | 0 => fun _ _ => none
  | depth + 1 => fun s h =>
    (run (exec (runBody program fuel depth) fuel) s (program s h).1).map (·, (program s h).2)

def step (program : Program V) (fuel depth : ℕ) : State V → Act V → Option (State V) :=
  exec (runBody program fuel depth) fuel

/-! ## Graphs -/

/-- A graph of modules, none of which has been evaluated. -/
def State.init (graph : List Kind) : State V where
  modules := graph.map fun kind => some { kind }

def Links (graph : List Kind) (h d : Handle) : Prop :=
  ∃ requests linkedHandles hasTopLevelAwait,
    graph[h]? = some (.source requests linkedHandles hasTopLevelAwait) ∧ d ∈ linkedHandles

/-- Every request is linked. -/
def Linked (graph : List Kind) : Prop :=
  ∀ requests linkedHandles hasTopLevelAwait,
    Kind.source requests linkedHandles hasTopLevelAwait ∈ graph → linkedHandles.length = requests

/-- The module's graph has top-level await. -/
def Awaits (V : Type) (graph : List Kind) (h : Handle) : Prop :=
  module_graph_has_top_level_await (State.init graph : State V) h = some true

/-- No module with top-level await in its graph that can be reached from `h` is linked, directly or
    not, to itself. -/
def NoAwaitCycle (V : Type) (graph : List Kind) (h : Handle) : Prop :=
  ∀ x, Relation.ReflTransGen (Links graph) h x → Awaits V graph x →
    ¬ Relation.TransGen (Links graph) x x

def Act.Allowed (graph : List Kind) : Act V → Prop
  | .evaluate h => NoAwaitCycle V graph h
  | _ => True

theorem NoAwaitCycle.link {graph : List Kind} {h d : Handle} (hn : NoAwaitCycle V graph h)
    (hd : Links graph h d) : NoAwaitCycle V graph d :=
  fun x hx => hn x (Relation.ReflTransGen.head hd hx)

/-! ## What holds of every state -/

def WaitsFor (s : State V) (p q : ℕ) : Prop := ∃ dependencies, s.dependencies p = some dependencies ∧
  q ∈ dependencies

/-- `opened` are the promises whose modules are being started. -/
structure Inv (graph : List Kind) (opened : List ℕ) (s : State V) : Prop where
  kind : ∀ h, (s.module h).map Module.kind = graph[h]?
  length : s.modules.length = graph.length
  lt : ∀ h p, s.evaluation h = some p → p < s.promises.length
  inj : ∀ h h' p, s.evaluation h = some p → s.evaluation h' = some p → h = h'
  waits : ∀ p q, WaitsFor s p q → ∃ h d, s.evaluation h = some p ∧ s.evaluation d = some q ∧
    Links graph h d ∧ Awaits V graph h ∧ NoAwaitCycle V graph h
  opened : ∀ p < s.promises.length,
    s.promiseState p ≠ .pending ∨ s.dependencies p ≠ none ∨ p ∈ opened

/-- A promise that a module has is kept. -/
def Stable (s t : State V) : Prop := ∀ h p, s.evaluation h = some p → t.evaluation h = some p

/-- What every step but the start of an evaluation keeps, whatever is being started. -/
def Keeps (graph : List Kind) (s t : State V) : Prop :=
  ∀ opened, Inv graph opened s → Inv graph opened t ∧ Stable s t

section Steps

variable {graph : List Kind} {opened : List ℕ} {s t : State V} {h h' : Handle} {p q : ℕ}

theorem inv_init : Inv graph [] (State.init graph : State V) where
  kind h := by
    rw [State.module, State.init, List.getElem?_map]
    cases graph[h]? <;> rfl
  length := List.length_map ..
  lt h p hp := by
    rw [State.evaluation, State.module, State.init, List.getElem?_map] at hp
    cases hg : graph[h]? <;> rw [hg] at hp <;> cases hp
  inj h h' p hp := by
    rw [State.evaluation, State.module, State.init, List.getElem?_map] at hp
    cases hg : graph[h]? <;> rw [hg] at hp <;> cases hp
  waits p q hw := by
    obtain ⟨dependencies, hd, -⟩ := hw
    cases hd
  opened p hp := absurd hp (Nat.not_lt_zero p)

/-- The states differ in statuses, errors and bodies at most. -/
theorem Inv.congr (hi : Inv graph opened s)
    (hkind : ∀ h, (t.module h).map Module.kind = (s.module h).map Module.kind)
    (hlength : t.modules.length = s.modules.length)
    (hevaluation : ∀ h, t.evaluation h = s.evaluation h)
    (hpromises : t.promises.length = s.promises.length)
    (hdependencies : ∀ p, t.dependencies p = s.dependencies p)
    (hstate : ∀ p, t.promiseState p = s.promiseState p) : Inv graph opened t where
  kind h := by rw [hkind, hi.kind]
  length := by rw [hlength, hi.length]
  lt h p hp := by
    rw [hpromises]
    exact hi.lt h p (by rw [← hevaluation]; exact hp)
  inj h h' p hp hp' := hi.inj h h' p (by rw [← hevaluation]; exact hp)
    (by rw [← hevaluation]; exact hp')
  waits p q hw := by
    obtain ⟨dependencies, hd, hq⟩ := hw
    rw [hdependencies] at hd
    obtain ⟨h, d, hh, hd', hrest⟩ := hi.waits p q ⟨dependencies, hd, hq⟩
    exact ⟨h, d, by rw [hevaluation]; exact hh, by rw [hevaluation]; exact hd', hrest⟩
  opened p hp := by
    rw [hpromises] at hp
    rw [hstate, hdependencies]
    exact hi.opened p hp

/-! ### Promises -/

theorem promiseState_settle (hp : p < s.promises.length) (r : Settled V) :
    (s.settle p r).promiseState q = if p = q then r else s.promiseState q := by
  rw [State.promiseState, State.settle, List.getElem?_modify, State.promiseState]
  by_cases hq : p = q
  · subst hq
    simp [List.getElem?_eq_getElem hp]
  · rw [if_neg hq]
    cases s.promises[q]? <;> simp [hq]

theorem dependencies_settle (r : Settled V) :
    (s.settle p r).dependencies q = s.dependencies q := by
  rw [State.dependencies, State.settle, List.getElem?_modify, State.dependencies]
  split_ifs <;> cases s.promises[q]? <;> rfl

theorem promiseState_finish (dependencies : List ℕ) :
    (s.finish p dependencies).promiseState q = s.promiseState q := by
  rw [State.promiseState, State.finish, List.getElem?_modify, State.promiseState]
  split_ifs <;> cases s.promises[q]? <;> rfl

theorem dependencies_finish (hp : p < s.promises.length) (dependencies : List ℕ) :
    (s.finish p dependencies).dependencies q =
      if p = q then some dependencies else s.dependencies q := by
  rw [State.dependencies, State.finish, List.getElem?_modify, State.dependencies]
  by_cases hq : p = q
  · subst hq
    simp [List.getElem?_eq_getElem hp]
  · rw [if_neg hq]
    cases s.promises[q]? <;> simp [hq]

theorem promiseState_record : (s.record h).promiseState q = s.promiseState q := by
  rw [State.promiseState, State.promiseState, State.record, List.getElem?_append]
  split_ifs with hq
  · rfl
  · rw [List.getElem?_eq_none (not_lt.mp hq), List.getElem?_singleton]
    split_ifs <;> rfl

theorem dependencies_record : (s.record h).dependencies q = s.dependencies q := by
  rw [State.dependencies, State.dependencies, State.record, List.getElem?_append]
  split_ifs with hq
  · rfl
  · rw [List.getElem?_eq_none (not_lt.mp hq), List.getElem?_singleton]
    split_ifs <;> rfl

theorem promiseState_markExecuted : (s.markExecuted p).promiseState q = s.promiseState q := by
  rw [State.promiseState, State.markExecuted, List.getElem?_modify, State.promiseState]
  split_ifs <;> cases s.promises[q]? <;> rfl

theorem dependencies_markExecuted : (s.markExecuted p).dependencies q = s.dependencies q := by
  rw [State.dependencies, State.markExecuted, List.getElem?_modify, State.dependencies]
  split_ifs <;> cases s.promises[q]? <;> rfl

/-! ### What the steps do to the invariant -/

/-- A start writes its promise into the module. -/
theorem Inv.record (hi : Inv graph opened s) (hnone : s.evaluation h = none) {m : Module V}
    (hm : s.module h = some m) :
    Inv graph (s.promises.length :: opened) (s.record h) ∧ Stable s (s.record h) ∧
      (s.record h).evaluation h = some s.promises.length := by
  have hself : (s.record h).evaluation h = some s.promises.length := by
    rw [evaluation_record, if_pos ⟨rfl, by rw [hm]; rfl⟩]
  have hother : ∀ h', h ≠ h' → (s.record h).evaluation h' = s.evaluation h' := by
    intro h' hh
    rw [evaluation_record, if_neg fun hand => hh hand.1]
  have hstable : Stable s (s.record h) := by
    intro h' p hp
    rw [hother]
    · exact hp
    · rintro rfl
      rw [hnone] at hp
      cases hp
  have hlength : (s.record h).promises.length = s.promises.length + 1 := List.length_append
  refine ⟨⟨?_, ?_, ?_, ?_, ?_, ?_⟩, hstable, hself⟩
  · intro h'
    rw [← hi.kind h']
    exact kind_modify fun _ => rfl
  · exact (List.length_modify ..).trans hi.length
  · intro h' p hp
    rw [hlength]
    by_cases hh : h = h'
    · subst hh
      rw [hself] at hp
      cases hp
      exact Nat.lt_succ_self _
    · rw [hother h' hh] at hp
      exact (hi.lt h' p hp).trans (Nat.lt_succ_self _)
  · -- the new promise is no other module's
    intro h₁ h₂ p hp₁ hp₂
    have hnew : ∀ h', h ≠ h' → (s.record h).evaluation h' ≠ some s.promises.length := by
      intro h' hh hp
      rw [hother h' hh] at hp
      exact absurd (hi.lt h' _ hp) (lt_irrefl _)
    by_cases h₁h : h = h₁
    · subst h₁h
      rw [hself] at hp₁
      cases hp₁
      by_contra hne
      exact hnew h₂ hne hp₂
    · by_cases h₂h : h = h₂
      · subst h₂h
        rw [hself] at hp₂
        cases hp₂
        exact absurd hp₁ (hnew h₁ h₁h)
      · rw [hother h₁ h₁h] at hp₁
        rw [hother h₂ h₂h] at hp₂
        exact hi.inj h₁ h₂ p hp₁ hp₂
  · intro p q hw
    obtain ⟨dependencies, hd, hq⟩ := hw
    rw [dependencies_record] at hd
    obtain ⟨h', d, hh, hd', hrest⟩ := hi.waits p q ⟨dependencies, hd, hq⟩
    exact ⟨h', d, hstable h' p hh, hstable d q hd', hrest⟩
  · intro p hp
    rw [hlength] at hp
    rw [promiseState_record, dependencies_record, List.mem_cons]
    by_cases hlt : p < s.promises.length
    · rcases hi.opened p hlt with hs | hd | ho
      · exact .inl hs
      · exact .inr (.inl hd)
      · exact .inr (.inr (.inr ho))
    · exact .inr (.inr (.inl (by omega)))

/-- A promise that is settled is open no more. -/
theorem Inv.settle (hi : Inv graph (p :: opened) s) (hp : p < s.promises.length) {r : Settled V}
    (hr : r ≠ .pending) : Inv graph opened (s.settle p r) where
  kind := hi.kind
  length := hi.length
  lt h q hq := (hi.lt h q hq).trans_eq (List.length_modify ..).symm
  inj := hi.inj
  waits q q' hw := by
    obtain ⟨dependencies, hd, hq⟩ := hw
    rw [dependencies_settle] at hd
    exact hi.waits q q' ⟨dependencies, hd, hq⟩
  opened q hq := by
    rw [promiseState_settle hp, dependencies_settle]
    by_cases hpq : p = q
    · rw [if_pos hpq]
      exact .inl hr
    · rw [if_neg hpq]
      rcases hi.opened q (hq.trans_eq (List.length_modify ..)) with hs | hd | ho
      · exact .inl hs
      · exact .inr (.inl hd)
      · exact .inr (.inr ((List.mem_cons.mp ho).resolve_left fun h => hpq h.symm))

/-- Nor is one that waits: for promises of modules that its own is linked to. -/
theorem Inv.finish (hi : Inv graph (p :: opened) s) (hp : s.evaluation h = some p)
    (hawaits : Awaits V graph h) (hcycle : NoAwaitCycle V graph h) {dependencies : List ℕ}
    (hdeps : ∀ q ∈ dependencies, ∃ d, Links graph h d ∧ s.evaluation d = some q) :
    Inv graph opened (s.finish p dependencies) where
  kind := hi.kind
  length := hi.length
  lt h q hq := (hi.lt h q hq).trans_eq (List.length_modify ..).symm
  inj := hi.inj
  waits q q' hw := by
    obtain ⟨waited, hd, hq⟩ := hw
    rw [dependencies_finish (hi.lt h p hp)] at hd
    by_cases hpq : p = q
    · subst hpq
      rw [if_pos rfl] at hd
      cases hd
      obtain ⟨d, hlink, hd⟩ := hdeps q' hq
      exact ⟨h, d, hp, hd, hlink, hawaits, hcycle⟩
    · rw [if_neg hpq] at hd
      exact hi.waits q q' ⟨waited, hd, hq⟩
  opened q hq := by
    rw [promiseState_finish, dependencies_finish (hi.lt h p hp)]
    by_cases hpq : p = q
    · rw [if_pos hpq]
      exact .inr (.inl (by simp))
    · rw [if_neg hpq]
      rcases hi.opened q (hq.trans_eq (List.length_modify ..)) with hs | hd | ho
      · exact .inl hs
      · exact .inr (.inl hd)
      · exact .inr (.inr ((List.mem_cons.mp ho).resolve_left fun h => hpq h.symm))

theorem Inv.modify (hi : Inv graph opened s) {f : Module V → Module V}
    (hf : ∀ m, (f m).kind = m.kind ∧ (f m).evaluation = m.evaluation) :
    Inv graph opened (s.modify h f) :=
  hi.congr (fun _ => kind_modify fun m => (hf m).1) length_modify
    (fun _ => evaluation_modify fun m => (hf m).2) rfl (fun _ => rfl) fun _ => rfl

/-- Statuses and errors are nothing to it, and a body keeps it when what it calls does. -/
theorem respects_keeps {runBody : RunBody V}
    (hbody : ∀ s h t thrown, runBody s h = some (t, thrown) → Keeps graph s t) :
    Respects runBody (Keeps graph) where
  refl s opened hi := ⟨hi, fun _ _ hp => hp⟩
  trans hst htu opened hi := by
    obtain ⟨hi, hstable⟩ := hst opened hi
    obtain ⟨hi, hstable'⟩ := htu opened hi
    exact ⟨hi, fun h p hp => hstable' h p (hstable h p hp)⟩
  modify s h f hf opened hi := by
    refine ⟨hi.modify hf, ?_⟩
    intro h' p hp
    rw [evaluation_modify fun m => (hf m).2]
    exact hp
  body s h t thrown hcall opened hi := by
    obtain ⟨⟨u, thrown'⟩, hrun, heq⟩ := Option.map_eq_some_iff.mp hcall
    obtain ⟨rfl, -⟩ := Prod.mk.inj heq
    obtain ⟨hi, hstable⟩ := hbody s h u thrown' hrun opened hi
    exact ⟨hi.congr (fun _ => rfl) rfl (fun _ => rfl) rfl (fun _ => rfl) fun _ => rfl, hstable⟩

/-! ### Starts -/

theorem Inv.graph_await (hi : Inv graph opened s) (h : Handle) :
    module_graph_has_top_level_await s h =
      module_graph_has_top_level_await (State.init graph : State V) h := by
  have hinit := @inv_init V graph
  exact module_graph_congr (fun h => (hi.kind h).trans (hinit.kind h).symm)
    (hi.length.trans hinit.length.symm) h

theorem Inv.linked (hi : Inv graph opened s) (hlinked : Linked graph) (h : Handle) :
    s.linked h = true := by
  rw [State.linked, hi.kind]
  cases hg : graph[h]? with
  | none => rfl
  | some kind =>
    cases kind with
    | synthetic => rfl
    | source requests linkedHandles hasTopLevelAwait =>
      exact decide_eq_true (hlinked _ _ _ (List.mem_of_getElem? hg))

/-- What a start of `h` leaves: the promise it gives is that of the module. -/
def Starts (graph : List Kind) (s : State V) (h : Handle) (t : State V)
    (r : Except (Thrown V) ℕ) : Prop :=
  ∀ opened, Inv graph opened s →
    Inv graph opened t ∧ Stable s t ∧ ∀ p, r = .ok p → t.evaluation h = some p

/-- The promises that are gathered are those of modules that `h` is linked to. -/
theorem startDependencies_inv {start : State V → Handle → Option (State V × Except (Thrown V) ℕ)}
    (hstart : ∀ s d t r, Links graph h d → start s d = some (t, r) → Starts graph s d t r)
    {linkedHandles : List Handle} (hlinks : ∀ d ∈ linkedHandles, Links graph h d)
    {dependencies : List ℕ} {r : Except (Thrown V) (List ℕ)} (hi : Inv graph opened s)
    (hdeps : ∀ q ∈ dependencies, ∃ d, Links graph h d ∧ s.evaluation d = some q)
    (hs : startDependencies start s linkedHandles dependencies = some (t, r)) :
    Inv graph opened t ∧ Stable s t ∧ ∀ gathered, r = .ok gathered →
      ∀ q ∈ gathered, ∃ d, Links graph h d ∧ t.evaluation d = some q := by
  induction linkedHandles generalizing s dependencies with
  | nil =>
    obtain ⟨rfl, rfl⟩ := Prod.mk.inj (Option.some.inj hs)
    refine ⟨hi, fun _ _ hp => hp, ?_⟩
    intro gathered hok
    obtain rfl := Except.ok.inj hok
    exact hdeps
  | cons linked rest ih =>
    obtain ⟨hlink, hrest⟩ := List.forall_mem_cons.mp hlinks
    rw [startDependencies] at hs
    cases he : start s linked with
    | none =>
      rw [he] at hs
      cases hs
    | some reached =>
      obtain ⟨u, result⟩ := reached
      rw [he] at hs
      obtain ⟨hiu, hstable, hown⟩ := hstart s linked u result hlink he opened hi
      cases result with
      | error error =>
        obtain ⟨rfl, rfl⟩ := Prod.mk.inj (Option.some.inj hs)
        exact ⟨hiu, hstable, by simp⟩
      | ok p =>
        simp only at hs
        split_ifs at hs
        · have hgathered : ∀ q ∈ dependencies ++ [p], ∃ d, Links graph h d ∧
              u.evaluation d = some q := by
            intro q hq
            rcases List.mem_append.mp hq with hq | hq
            · obtain ⟨d, hd, hq⟩ := hdeps q hq
              exact ⟨d, hd, hstable d q hq⟩
            · rw [List.mem_singleton.mp hq]
              exact ⟨linked, hlink, hown p rfl⟩
          obtain ⟨hit, hstable', hgiven⟩ := ih hrest hiu hgathered hs
          exact ⟨hit, fun h q hq => hstable' h q (hstable h q hq), hgiven⟩
        · obtain ⟨rfl, rfl⟩ := Prod.mk.inj (Option.some.inj hs)
          exact ⟨hiu, hstable, by simp⟩

variable {runBody : RunBody V}

/-- The start of a module whose graph has top-level await, up to where its promise is to wait. -/
theorem gather_inv (hR : Respects runBody (Keeps graph))
    {start : State V → Handle → Option (State V × Except (Thrown V) ℕ)}
    (hstart : ∀ s d t r, Links graph h d → start s d = some (t, r) → Starts graph s d t r)
    (hi : Inv graph opened s) (hnone : s.evaluation h = none)
    (hgraph : module_graph_has_top_level_await s h = some true)
    {requests : ℕ} {linkedHandles : List Handle} {hasTopLevelAwait : Bool}
    (hkind : (s.module h).map Module.kind =
      some (.source requests linkedHandles hasTopLevelAwait))
    {r : Except (Thrown V) (List ℕ)} (hdeps : startDependencies start
      ((s.record h).modify h fun m => { m with status := 3 }) linkedHandles [] = some (t, r)) :
    Inv graph (s.promises.length :: opened) t ∧ Stable s t ∧
      t.evaluation h = some s.promises.length ∧ ∀ gathered, r = .ok gathered →
        ∀ q ∈ gathered, ∃ d, Links graph h d ∧ t.evaluation d = some q := by
  obtain ⟨m, hm, -⟩ := isSource_of_await hgraph
  obtain ⟨hir, hstable, hown⟩ := hi.record hnone hm
  obtain ⟨hie, hstable'⟩ := hR.modify (s.record h) h (fun m => { m with status := 3 })
    (fun _ => ⟨rfl, rfl⟩) _ hir
  have hlinks : ∀ d ∈ linkedHandles, Links graph h d :=
    fun _ hd => ⟨_, _, _, (hi.kind h).symm.trans hkind, hd⟩
  obtain ⟨hit, hstable'', hgathered⟩ := startDependencies_inv hstart hlinks hie
    (fun q hq => absurd hq List.not_mem_nil) hdeps
  exact ⟨hit, fun h p hp => hstable'' h p (hstable' h p (hstable h p hp)),
    hstable'' h _ (hstable' h _ hown), hgathered⟩

/-- A start keeps the invariant: where promises are gathered, no cycle of the graph comes back. -/
theorem starts (hlinked : Linked graph)
    (hbody : ∀ s h t thrown, runBody s h = some (t, thrown) → Keeps graph s t) {fuel : ℕ}
    {r : Except (Thrown V) ℕ} (hcycle : NoAwaitCycle V graph h)
    (hs : start_module_evaluation runBody fuel s h = some (t, r)) : Starts graph s h t r := by
  have hR := respects_keeps hbody
  intro opened hi
  induction fuel generalizing s h t r opened with
  | zero => cases hs
  | succ fuel ih =>
    have hstart : ∀ s d t r, Links graph h d →
        start_module_evaluation runBody fuel s d = some (t, r) → Starts graph s d t r :=
      fun _ _ _ _ hd he _ hi => ih (hcycle.link hd) he _ hi
    cases start_module_evaluation_cases hs with
    | given hp =>
      refine ⟨hi, fun _ _ hp => hp, ?_⟩
      rintro p hok
      obtain rfl := Except.ok.inj hok
      exact hp
    | unknown _ _ => exact ⟨hi, fun _ _ hp => hp, nofun⟩
    | @sync u result hnone hgraph he =>
      obtain ⟨m, hm, -⟩ := isSource_of_await hgraph
      obtain ⟨hir, hstable, hown⟩ := hi.record hnone hm
      obtain ⟨hit, hstable'⟩ := hR.evaluate_module_sync he _ hir
      have hown' := hstable' h _ hown
      refine ⟨hit.settle (hit.lt h _ hown') ?_, fun h p hp => hstable' h p (hstable h p hp), ?_⟩
      · cases result with
        | ok _ => exact nofun
        | error _ => exact nofun
      · rintro p hok
        obtain rfl := Except.ok.inj hok
        exact hown'
    | failed hnone hgraph =>
      obtain ⟨m, hm, -⟩ := isSource_of_await hgraph
      obtain ⟨hir, hstable, hown⟩ := hi.record hnone hm
      refine ⟨hir.settle (hir.lt h _ hown) (by intro hpending; cases hpending), hstable, ?_⟩
      rintro p hok
      obtain rfl := Except.ok.inj hok
      exact hown
    | notLinked _ _ hnot =>
      rw [hi.linked hlinked] at hnot
      cases hnot
    | dependency hnone hgraph hkind hdeps =>
      obtain ⟨hit, hstable, hown, -⟩ := gather_inv hR hstart hi hnone hgraph hkind hdeps
      refine ⟨hit.settle (hit.lt h _ hown) (by intro hpending; cases hpending), hstable, ?_⟩
      rintro p hok
      obtain rfl := Except.ok.inj hok
      exact hown
    | waiting hnone hgraph hkind hdeps =>
      obtain ⟨hit, hstable, hown, hgathered⟩ := gather_inv hR hstart hi hnone hgraph hkind hdeps
      have hawaits : Awaits V graph h := by rw [Awaits, ← hi.graph_await h, hgraph]
      refine ⟨hit.finish hown hawaits hcycle (hgathered _ rfl), hstable, ?_⟩
      rintro p hok
      obtain rfl := Except.ok.inj hok
      exact hown

/-! ### Every step -/

theorem Inv.settled (hi : Inv graph opened s) {r : Settled V} (hr : r ≠ .pending) :
    Inv graph opened (s.settle p r) := by
  by_cases hp : p < s.promises.length
  · refine Inv.settle { hi with opened := ?_ } hp hr
    intro q hq
    rcases hi.opened q hq with hs | hd | ho
    · exact .inl hs
    · exact .inr (.inl hd)
    · exact .inr (.inr (List.mem_cons_of_mem _ ho))
  · rw [State.settle, List.modify_eq_self (not_lt.mp hp)]
    exact hi

theorem Inv.markExecuted (hi : Inv graph opened s) : Inv graph opened (s.markExecuted p) :=
  hi.congr (fun _ => rfl) rfl (fun _ => rfl) (List.length_modify ..)
    (fun _ => dependencies_markExecuted) fun _ => promiseState_markExecuted

theorem exec_keeps (hlinked : Linked graph)
    (hbody : ∀ s h t thrown, runBody s h = some (t, thrown) → Keeps graph s t) {fuel : ℕ}
    {act : Act V} (hallowed : act.Allowed graph) (he : exec runBody fuel s act = some t) :
    Keeps graph s t := by
  have hR := respects_keeps hbody
  intro opened hi
  cases act with
  | evaluate h =>
    obtain ⟨⟨u, r⟩, hs, rfl⟩ := Option.map_eq_some_iff.mp he
    obtain ⟨hit, hstable, -⟩ := starts hlinked hbody hallowed hs opened hi
    exact ⟨hit, hstable⟩
  | evaluateSync h =>
    obtain ⟨⟨u, r⟩, hs, rfl⟩ := Option.map_eq_some_iff.mp he
    exact hR.evaluate_module_sync hs opened hi
  | getState h =>
    obtain ⟨⟨u, status⟩, hr, rfl⟩ := Option.map_eq_some_iff.mp he
    exact hR.refresh hr opened hi
  | execute h =>
    obtain ⟨p, -, he⟩ := Option.bind_eq_some_iff.mp he
    obtain ⟨dependencies, -, he⟩ := Option.bind_eq_some_iff.mp he
    split_ifs at he
    obtain ⟨⟨u, thrown⟩, hcall, rfl⟩ := Option.map_eq_some_iff.mp he
    exact hR.body _ h u thrown hcall opened hi.markExecuted
  | settle p thrown =>
    rw [exec] at he
    split_ifs at he
    cases he
    refine ⟨hi.settled ?_, fun _ _ hp => hp⟩
    cases thrown with
    | none => exact nofun
    | some error => exact nofun
  | reject p q =>
    obtain ⟨dependencies, -, he⟩ := Option.bind_eq_some_iff.mp he
    cases hq : s.promiseState q with
    | pending =>
      rw [hq] at he
      cases he
    | fulfilled =>
      rw [hq] at he
      cases he
    | rejected error =>
      rw [hq] at he
      simp only at he
      split_ifs at he
      cases he
      exact ⟨hi.settled nofun, fun _ _ hp => hp⟩

end Steps

/-! ## Runs -/

section Runs

variable {graph : List Kind} {program : Program V} {fuel : ℕ}

theorem run_keeps {runBody : RunBody V} (hlinked : Linked graph)
    (hbody : ∀ s h t thrown, runBody s h = some (t, thrown) → Keeps graph s t)
    {acts : List (Act V)} (hallowed : ∀ act ∈ acts, act.Allowed graph) {s t : State V}
    (hrun : run (exec runBody fuel) s acts = some t) : Keeps graph s t := by
  induction acts generalizing s with
  | nil =>
    cases hrun
    exact fun _ hi => ⟨hi, fun _ _ hp => hp⟩
  | cons act acts ih =>
    obtain ⟨hact, hacts⟩ := List.forall_mem_cons.mp hallowed
    obtain ⟨u, he, hrun⟩ := run_cons_eq_some.mp hrun
    exact (respects_keeps hbody).trans (exec_keeps hlinked hbody hact he) (ih hacts hrun)

/-- By induction on how deep bodies nest. -/
theorem runBody_keeps (hlinked : Linked graph)
    (hprogram : ∀ s h, ∀ act ∈ (program s h).1, act.Allowed graph) (depth : ℕ) :
    ∀ s h t thrown, runBody program fuel depth s h = some (t, thrown) → Keeps graph s t := by
  induction depth with
  | zero => exact nofun
  | succ depth ih =>
    intro s h t thrown hb
    obtain ⟨u, hrun, heq⟩ := Option.map_eq_some_iff.mp hb
    obtain ⟨rfl, -⟩ := Prod.mk.inj heq
    exact run_keeps hlinked ih (hprogram s h) hrun

theorem inv_of_run (hlinked : Linked graph)
    (hprogram : ∀ s h, ∀ act ∈ (program s h).1, act.Allowed graph) {depth : ℕ}
    {acts : List (Act V)} (hallowed : ∀ act ∈ acts, act.Allowed graph) {t : State V}
    (hrun : run (step program fuel depth) (State.init graph) acts = some t) : Inv graph [] t :=
  (run_keeps hlinked (runBody_keeps hlinked hprogram depth) hallowed hrun [] inv_init).1

/-! ### No cycle -/

variable {t : State V}

/-- A chain of promises that wait is one of modules that are linked. -/
theorem links_of_waits (hi : Inv graph [] t) {p q : ℕ}
    (hw : Relation.TransGen (WaitsFor t) p q) :
    ∃ h d, t.evaluation h = some p ∧ t.evaluation d = some q ∧
      Relation.TransGen (Links graph) h d ∧ Awaits V graph h ∧ NoAwaitCycle V graph h := by
  induction hw with
  | single hw =>
    obtain ⟨h, d, hh, hd, hlink, hrest⟩ := hi.waits _ _ hw
    exact ⟨h, d, hh, hd, .single hlink, hrest⟩
  | tail _ hw ih =>
    obtain ⟨h, d, hh, hd, hlinks, hrest⟩ := ih
    obtain ⟨d', e, hd', he, hlink, -⟩ := hi.waits _ _ hw
    obtain rfl := hi.inj d d' _ hd hd'
    exact ⟨h, e, hh, he, hlinks.tail hlink, hrest⟩

theorem Inv.acyclic (hi : Inv graph [] t) (p : ℕ) : ¬ Relation.TransGen (WaitsFor t) p p := by
  intro hw
  obtain ⟨h, d, hh, hd, hlinks, hawaits, hcycle⟩ := links_of_waits hi hw
  obtain rfl := hi.inj h d p hh hd
  exact hcycle h .refl hawaits hlinks

/-- A promise is settled once nothing that it waits for is pending: its body has settled, or a
    dependency has been rejected. -/
def BodiesSettled (t : State V) : Prop :=
  ∀ p dependencies, t.dependencies p = some dependencies →
    (∀ q ∈ dependencies, t.promiseState q ≠ .pending) → t.promiseState p ≠ .pending

/-- Promises that are pending wait for one another, and there are finitely many of them. -/
theorem Inv.settles (hi : Inv graph [] t) (hsettled : BodiesSettled t) :
    ∀ p < t.promises.length, t.promiseState p ≠ .pending := by
  let waited : Fin t.promises.length → Fin t.promises.length → Prop :=
    fun q p => Relation.TransGen (WaitsFor t) p q
  have : IsTrans (Fin t.promises.length) waited := ⟨fun _ _ _ hab hbc => hbc.trans hab⟩
  have : Std.Irrefl waited := ⟨fun p => hi.acyclic p⟩
  have hwf : WellFounded waited := Finite.wellFounded_of_trans_of_irrefl waited
  intro p hp
  suffices h : ∀ p : Fin t.promises.length, t.promiseState p ≠ .pending from h ⟨p, hp⟩
  intro p
  induction p using hwf.induction with
  | _ p ih =>
    rcases hi.opened p p.isLt with hs | hd | ho
    · exact hs
    · obtain ⟨dependencies, hd⟩ := Option.ne_none_iff_exists'.mp hd
      apply hsettled p dependencies hd
      intro q hq
      have hw : WaitsFor t p q := ⟨dependencies, hd, hq⟩
      obtain ⟨h, d, -, hdq, -⟩ := hi.waits _ _ hw
      exact ih ⟨q, hi.lt d q hdq⟩ (.single hw)
    · cases ho

end Runs

/-- In every run in which no module is evaluated from which a cycle of modules with top-level await
    in their graphs can be reached, no promise waits for itself, and once the bodies are settled all
    of them are. -/
theorem no_promise_waits_for_itself (graph : List Kind) (hlinked : Linked graph)
    (program : Program V) (fuel depth : ℕ)
    (hprogram : ∀ s h, ∀ act ∈ (program s h).1, act.Allowed graph) (acts : List (Act V))
    (hallowed : ∀ act ∈ acts, act.Allowed graph) (t : State V)
    (hrun : run (step program fuel depth) (State.init graph) acts = some t) :
    (∀ p, ¬ Relation.TransGen (WaitsFor t) p p) ∧
      (BodiesSettled t → ∀ p < t.promises.length, t.promiseState p ≠ .pending) := by
  have hi := inv_of_run hlinked hprogram hallowed hrun
  exact ⟨hi.acyclic, hi.settles⟩

/-- A module with top-level await that imports one without. -/
def chain : List Kind := [.source 1 [1] true, .source 0 [] false]

theorem links_chain {h d : Handle} (hl : Links chain h d) : h = 0 ∧ d = 1 := by
  obtain ⟨requests, linkedHandles, hasTopLevelAwait, hk, hd⟩ := hl
  cases h with
  | zero =>
    obtain ⟨rfl, rfl, rfl⟩ := Kind.source.inj (Option.some.inj hk)
    exact ⟨rfl, List.mem_singleton.mp hd⟩
  | succ h =>
    cases h with
    | zero =>
      obtain ⟨rfl, rfl, rfl⟩ := Kind.source.inj (Option.some.inj hk)
      exact absurd hd List.not_mem_nil
    | succ h => cases hk

/-- Bodies that call nothing. -/
def quiet : Program Unit := fun _ _ => ([], none)

theorem no_promise_waits_for_itself_chain :
    ∃ t, run (step quiet 4 1) (State.init chain) [.evaluate 0, .execute 0, .settle 0 none] = some t ∧
      (∀ p, ¬ Relation.TransGen (WaitsFor t) p p) ∧ WaitsFor t 0 1 ∧
      t.promises.map Promise.state = [.fulfilled, .fulfilled] := by
  have hcycle : NoAwaitCycle Unit chain 0 := by
    intro x _ _ hx
    obtain ⟨y, hxy, -⟩ := Relation.TransGen.head'_iff.mp hx
    obtain ⟨z, -, hzx⟩ := Relation.TransGen.tail'_iff.mp hx
    have hzero := (links_chain hxy).1
    have hone := (links_chain hzx).2
    rw [hzero] at hone
    cases hone
  have hlinked : Linked chain := by
    intro requests linkedHandles hasTopLevelAwait hmem
    rcases List.mem_cons.mp hmem with heq | hmem
    · obtain ⟨rfl, rfl, rfl⟩ := Kind.source.inj heq
      rfl
    · obtain ⟨rfl, rfl, rfl⟩ := Kind.source.inj (List.mem_singleton.mp hmem)
      rfl
  have hallowed : ∀ act ∈ [Act.evaluate 0, .execute 0, .settle 0 (none : Option (Thrown Unit))],
      act.Allowed chain := by
    intro act hact
    simp only [List.mem_cons, List.not_mem_nil, or_false] at hact
    rcases hact with rfl | rfl | rfl
    · exact hcycle
    · trivial
    · trivial
  refine ⟨_, rfl, ?_, ⟨[1], rfl, List.mem_singleton.mpr rfl⟩, rfl⟩
  exact (no_promise_waits_for_itself chain hlinked quiet 4 1
    (fun _ _ act hact => absurd hact List.not_mem_nil) _ hallowed _ rfl).1

/-- Two modules that import each other, the first with top-level await. -/
def pair : List Kind := [.source 1 [1] true, .source 1 [0] false]

/-- Their promises wait for each other, and no body is left that could settle them. -/
theorem pair_waits_for_itself :
    ∃ t, run (step quiet 4 1) (State.init pair) [.evaluate 0] = some t ∧
      Relation.TransGen (WaitsFor t) 0 0 ∧ BodiesSettled t ∧
      t.promises.map Promise.state = [.pending, .pending] := by
  refine ⟨_, rfl, ?_, ?_, rfl⟩
  · exact .tail (.single (b := 1) ⟨[1], rfl, List.mem_singleton.mpr rfl⟩)
      ⟨[0], rfl, List.mem_singleton.mpr rfl⟩
  · intro p dependencies hd hnone
    cases p with
    | zero =>
      cases hd
      exact absurd rfl (hnone 1 (List.mem_singleton.mpr rfl))
    | succ p =>
      cases p with
      | zero =>
        cases hd
        exact absurd rfl (hnone 0 (List.mem_singleton.mpr rfl))
      | succ p => cases hd

end WasmerNapi.HostJs.Modules
