import WasmerNapi.HostJs.Modules

/-!
# Refused module evaluation

`evaluate_module_sync` and `start_module_evaluation` can fail before any body has been run: the
module or one it is linked to is not linked, is being evaluated, or waits for something. Such a call
leaves the modules as they were exactly when it is refused before anything is written. For the first
that is a check on the module itself; what is found of a dependency is stored as the error of every
module on the way to it. The second writes the promise into the module first.
-/

namespace WasmerNapi.HostJs.Modules

variable {V : Type}

/-! ## What is reported of a module -/

/-- The module as `module_wrap_get_state` reads it: once its status is refreshed. -/
def State.reported (s : State V) (h : Handle) : Option (Module V) :=
  (refresh_module_status s h).bind fun refreshed => refreshed.1.module h

/-- Every module's status, error and evaluation promise are what they were. -/
def Unchanged (s t : State V) : Prop := ∀ h, t.reported h = s.reported h

def Module.reported (m : Module V) (s : State V) : Module V :=
  if m.status = 3 then (m.evaluation.map fun p => m.refreshed (s.promiseState p)).getD m else m

theorem reported_eq (s : State V) (h : Handle) :
    s.reported h = (s.module h).map fun m => m.reported s := by
  rw [State.reported, refresh_module_status]
  cases hm : s.module h with
  | none => rfl
  | some m =>
    simp only [Option.map_some, Module.reported]
    by_cases hstatus : m.status = 3
    · rw [if_neg (not_not.mpr hstatus), if_pos hstatus]
      cases m.evaluation with
      | none => exact hm
      | some p => simp [hm]
    · rw [if_pos hstatus, if_neg hstatus]
      exact hm

theorem evaluation_reported (s : State V) (h : Handle) :
    (s.reported h).bind Module.evaluation = s.evaluation h := by
  rw [reported_eq, State.evaluation, Option.bind_map]
  congr 1
  funext m
  simp only [Function.comp_apply, Module.reported]
  split_ifs
  · cases hp : m.evaluation with
    | none => exact hp
    | some p =>
      rw [Option.map_some, Option.getD_some, ← hp]
      cases s.promiseState p <;> rfl
  · rfl

theorem reported_refreshed (m : Module V) (s : State V) {p : ℕ} (hp : m.evaluation = some p) :
    (m.refreshed (s.promiseState p)).reported s = m.refreshed (s.promiseState p) := by
  cases hr : s.promiseState p with
  | pending => simp [Module.reported, Module.refreshed, hp, hr]
  | fulfilled => simp [Module.reported, Module.refreshed]
  | rejected error => simp [Module.reported, Module.refreshed]

variable {s t : State V} {h : Handle}

/-- A refresh is not seen. -/
theorem unchanged_of_refresh {status : ℕ} (hr : refresh_module_status s h = some (t, status)) :
    Unchanged s t := by
  intro h'
  obtain ⟨m, m', hm, -, -, -, -, rfl | ⟨p, hstatus, hp, rfl⟩⟩ := refresh_cases hr
  · rfl
  · rw [reported_eq, reported_eq, module_modify]
    by_cases hh : h = h'
    · subst hh
      rw [if_pos rfl, hm, Option.map_some, Option.map_some, Option.map_some]
      congr 1
      rw [Module.reported, Module.reported, if_pos hstatus, hp]
      exact reported_refreshed m s hp
    · rw [if_neg hh]
      rfl

/-! ## Without a body -/

/-- As long as no body has been run, promises that modules have are kept. -/
def Kept (s t : State V) : Prop :=
  s.bodies.length ≤ t.bodies.length ∧
    (t.bodies.length = s.bodies.length → ∀ h p, s.evaluation h = some p → t.evaluation h = some p)

theorem respects_kept (run : RunBody V) : RespectsPromises run Kept where
  refl s := ⟨le_refl _, fun _ _ _ hp => hp⟩
  trans hst htu := by
    refine ⟨hst.1.trans htu.1, ?_⟩
    intro hlength h p hp
    have hle := hst.1
    have hle' := htu.1
    exact htu.2 (by omega) h p (hst.2 (by omega) h p hp)
  modify s h f hf := by
    refine ⟨le_refl _, ?_⟩
    intro _ h' p hp
    rw [evaluation_modify fun m => (hf m).2]
    exact hp
  record s h hnone := by
    refine ⟨le_refl _, ?_⟩
    intro _ h' p hp
    rw [evaluation_record, if_neg]
    · exact hp
    · rintro ⟨rfl, -⟩
      rw [hnone] at hp
      cases hp
  settle s p r := ⟨le_refl _, fun _ _ _ hp => hp⟩
  finish s p dependencies := ⟨le_refl _, fun _ _ _ hp => hp⟩
  body s h t thrown hbody := by
    obtain ⟨⟨u, thrown'⟩, -, heq⟩ := Option.map_eq_some_iff.mp hbody
    obtain ⟨rfl, -⟩ := Prod.mk.inj heq
    refine ⟨Nat.le_succ _, ?_⟩
    intro hlength
    exact absurd hlength (Nat.succ_ne_self _)

/-! ## Synchronous evaluation -/

/-- The check that refuses the call is one on the module it is made for: it is unknown, it has
    failed, it is evaluating, its graph has top-level await, or it is not linked. -/
def RefusedAtOnce (s : State V) (h : Handle) : Prop :=
  ∀ refreshed ∈ refresh_module_status s h, Refused refreshed.1 h refreshed.2

variable {run : RunBody V} {fuel : ℕ}

theorem unchanged_of_refusedAtOnce {r : Except (Thrown V) Unit}
    (he : evaluate_module_sync run fuel s h [] = some (t, r)) (hrefused : RefusedAtOnce s h) :
    Unchanged s t := by
  cases fuel with
  | zero => cases he
  | succ fuel =>
    rcases evaluate_module_sync_cases he with ⟨-, rfl⟩ | ⟨-, -, rfl, -⟩ | ⟨u, status, -, hr, hgo⟩
    · exact fun _ => rfl
    · exact fun _ => rfl
    · have hu : Refused u h status := hrefused _ hr
      rcases hgo with ⟨-, rfl, -⟩ | ⟨hgo, -⟩ | ⟨hgo, -⟩
      · exact unchanged_of_refresh hr
      · exact absurd hu hgo
      · exact absurd hu hgo

/-- An error from further on has failed the module. -/
theorem status_of_dependency {error : Thrown V}
    (he : evaluate_module_sync run fuel s h [] = some (t, .error error))
    (hrefused : ¬ RefusedAtOnce s h) :
    ∀ m ∈ t.reported h, m.status = 5 := by
  cases fuel with
  | zero => cases he
  | succ fuel =>
    rcases evaluate_module_sync_cases he with ⟨hv, -⟩ | ⟨-, hr, -, -⟩ | ⟨u, status, -, hr, hgo⟩
    · cases hv
    · refine absurd ?_ hrefused
      intro refreshed hmem
      rw [hr] at hmem
      cases hmem
    · rcases hgo with ⟨hgo, -, -⟩ | ⟨-, -, -, hok⟩ | ⟨-, -, v, thrown, hev, hconcluded⟩
      · refine absurd ?_ hrefused
        intro refreshed hmem
        rw [hr] at hmem
        cases hmem
        exact hgo
      · cases hok
      · cases thrown with
        | none => cases (Prod.mk.inj hconcluded).2
        | some thrown =>
          obtain ⟨rfl, -⟩ := Prod.mk.inj hconcluded
          intro m hm
          rw [reported_eq, State.setStatus, module_modify_self, Option.map_map] at hm
          obtain ⟨m', -, rfl⟩ := Option.map_eq_some_iff.mp hm
          rfl

theorem sync_unchanged_iff {error : Thrown V}
    (he : evaluate_module_sync run fuel s h [] = some (t, .error error)) :
    Unchanged s t ↔ RefusedAtOnce s h := by
  constructor
  · intro hunchanged
    by_contra hrefused
    have hfailed := status_of_dependency he hrefused
    rw [hunchanged h] at hfailed
    -- but the module had not failed before
    apply hrefused
    intro refreshed hmem
    obtain ⟨u, status⟩ := refreshed
    obtain ⟨m, m', -, -, -, rfl, hm', -⟩ := refresh_cases hmem
    refine .inl (hfailed m' ?_)
    rw [State.reported, Option.mem_def.mp hmem]
    exact hm'
  · exact unchanged_of_refusedAtOnce he

/-! ## Evaluation -/

/-- The exception, or a promise that is rejected. -/
def Fails (t : State V) : Except (Thrown V) ℕ → Prop
  | .error _ => True
  | .ok p => ∃ error, t.promiseState p = .rejected error

/-- A call that finds neither a promise that was given out nor an unknown module has given out a
    promise. -/
theorem evaluation_of_start {r : Except (Thrown V) ℕ}
    (hs : start_module_evaluation run fuel s h = some (t, r)) (hbodies : t.bodies = s.bodies)
    (hnone : s.evaluation h = none) {awaits : Bool}
    (hgraph : module_graph_has_top_level_await s h = some awaits) :
    t.evaluation h = some s.promises.length := by
  have hR := respects_kept run
  obtain ⟨m, hm, -⟩ := isSource_of_await hgraph
  have hrecorded : (s.record h).evaluation h = some s.promises.length := by
    rw [evaluation_record, if_pos ⟨rfl, by rw [hm]; rfl⟩]
  -- the rest of the call keeps it
  suffices hkept : Kept (s.record h) t from
    hkept.2 (by rw [hbodies]; rfl) h _ hrecorded
  cases fuel with
  | zero => cases hs
  | succ fuel =>
    have hevaluating : Kept (s.record h)
        ((s.record h).modify h fun m => { m with status := 3 }) :=
      hR.modify _ h _ fun _ => ⟨rfl, rfl⟩
    cases start_module_evaluation_cases hs with
    | given hp =>
      rw [hnone] at hp
      cases hp
    | unknown _ hunknown =>
      rw [hgraph] at hunknown
      cases hunknown
    | sync _ _ he => exact hR.trans (hR.toRespects.evaluate_module_sync he) (hR.settle _ _ _)
    | failed _ _ => exact hR.settle _ _ _
    | notLinked _ _ _ => exact hR.refl _
    | dependency _ _ _ hdeps =>
      exact hR.trans hevaluating (hR.trans
        (hR.toRespects.startDependencies (fun _ _ _ _ => hR.start_module_evaluation) hdeps) (hR.settle _ _ _))
    | waiting _ _ _ hdeps =>
      exact hR.trans hevaluating (hR.trans
        (hR.toRespects.startDependencies (fun _ _ _ _ => hR.start_module_evaluation) hdeps) (hR.finish _ _ _))

theorem start_unchanged_iff {r : Except (Thrown V) ℕ}
    (hs : start_module_evaluation run fuel s h = some (t, r)) (hbodies : t.bodies = s.bodies) :
    Unchanged s t ↔
      (s.evaluation h).isSome ∨ module_graph_has_top_level_await s h = none := by
  constructor
  · intro hunchanged
    by_contra hnot
    rw [not_or, Bool.not_eq_true, Option.isSome_eq_false_iff, Option.isNone_iff_eq_none] at hnot
    obtain ⟨hnone, hgraph⟩ := hnot
    obtain ⟨awaits, hgraph⟩ := Option.ne_none_iff_exists'.mp hgraph
    have hrecorded := evaluation_of_start hs hbodies hnone hgraph
    rw [← evaluation_reported, hunchanged h, evaluation_reported, hnone] at hrecorded
    cases hrecorded
  · intro hnothing
    suffices heq : t = s from fun h => by rw [heq]
    cases fuel with
    | zero => cases hs
    | succ fuel =>
      cases start_module_evaluation_cases hs with
      | given _ => rfl
      | unknown _ _ => rfl
      | _ hnone hgraph =>
        exfalso
        rw [hnone, hgraph] at hnothing
        simp at hnothing

/-- A call that fails before it has run a body leaves the modules as they were for those that are
    refused by a check on the module itself, and of those that give a promise for those that give one
    that was given out before, or that know not all of the graph. -/
theorem unchanged_iff_refusedAtOnce (run : RunBody V) (fuel : ℕ) (s : State V) (h : Handle) :
    (∀ t error,
      snapi_bridge_unofficial_module_wrap_evaluate_sync run fuel s h = some (t, .error error) →
      t.bodies = s.bodies → (Unchanged s t ↔ RefusedAtOnce s h)) ∧
    (∀ t r, snapi_bridge_unofficial_module_wrap_evaluate run fuel s h = some (t, r) →
      Fails t r → t.bodies = s.bodies →
      (Unchanged s t ↔
        (s.evaluation h).isSome ∨ module_graph_has_top_level_await s h = none)) :=
  ⟨fun _ _ he _ => sync_unchanged_iff he, fun _ _ hs _ hbodies => start_unchanged_iff hs hbodies⟩

/-- Bodies that do nothing. -/
def returning : RunBody Unit := fun s _ => some (s, none)

/-- A module with a request that has not been linked. -/
def unlinked (hasTopLevelAwait : Bool) : State Unit where
  modules := [some { kind := .source 1 [] hasTopLevelAwait, status := 2 }]

theorem unchanged_iff_refusedAtOnce_unlinked :
    Unchanged (unlinked false) (unlinked false) ∧
      ¬ Unchanged (unlinked true) ((unlinked true).record 0) := by
  constructor
  · refine ((unchanged_iff_refusedAtOnce returning 1 (unlinked false) 0).1 (unlinked false)
      .notLinked rfl rfl).mpr ?_
    intro refreshed hmem
    cases hmem
    exact .inr (.inr (.inr ⟨by decide, rfl⟩))
  · intro hunchanged
    have hiff := (unchanged_iff_refusedAtOnce returning 1 (unlinked true) 0).2
      ((unlinked true).record 0) (.error .notLinked) rfl trivial rfl
    exact absurd (hiff.mp hunchanged) (by decide)

/-- The second module is being evaluated, and the first, which is linked to it, is required by its
    body. -/
def required : State Unit where
  modules := [some { kind := .source 1 [1] false, status := 2 },
    some { kind := .source 0 [] false, status := 3 }]

/-- The first module has failed for good: once the second is evaluated it is refused still, and
    would not be. -/
theorem refused_for_good :
    ∃ t, snapi_bridge_unofficial_module_wrap_evaluate_sync returning 3 required 0 =
        some (t, .error .requireCycle) ∧ t.bodies = required.bodies ∧ ¬ Unchanged required t ∧
      (snapi_bridge_unofficial_module_wrap_evaluate_sync returning 3 (t.setStatus 1 4 none) 0).map
        Prod.snd = some (.error .requireCycle) ∧
      (snapi_bridge_unofficial_module_wrap_evaluate_sync returning 3 (required.setStatus 1 4 none)
        0).map Prod.snd = some (.ok ()) := by
  refine ⟨required.setStatus 0 5 (some .requireCycle), rfl, rfl, ?_, rfl, rfl⟩
  intro hunchanged
  exact absurd (hunchanged 0) (by decide)

end WasmerNapi.HostJs.Modules
