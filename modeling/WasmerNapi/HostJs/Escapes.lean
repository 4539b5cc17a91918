import WasmerNapi.HostJs.Scopes

/-!
# Escaping a handle

`snapi_bridge_escape_handle` moves an id from the scope it is called on to the frame around
it, so that the id outlives the scope. The search is for the id in the list of the scope's
own frame. But an object keeps the id it has: if it was seen before in another frame that is
still open, that frame lists the id, whatever scope it is handed out in again. The native
bridge makes a new id in the frame around and always succeeds.

`escapes_iff` says when an escape works and when one that fails leaves everything as it was,
in every state of every run. That an escape be the first on its scope is not asked: the code
does not count them.
-/

namespace WasmerNapi.HostJs

open HostJsAgent Run

namespace World

/-- The frame with this id, as the search finds it, and the frames around that, outwards. -/
def scopeFrom (w : World) (scope : ℕ) : List ValueFrame :=
  w.agent.valueFrames.dropWhile fun frame => frame.id ≠ scope

def escaped (w : World) (scope escapee : ℕ) : World :=
  { w with agent := (w.agent.escapeHandle scope escapee).2 }

/-- The frame around the scope is still the frame it was as long as the stack is as deep. -/
def AroundOpen (w : World) (scope : ℕ) (u : World) : Prop :=
  (w.scopeFrom scope).tail.length ≤ u.agent.valueFrames.length

/-- The escape succeeds, and the id it returns names the value until the frame around the
    scope is closed, whatever is done in between. -/
def Escapes (w : World) (scope escapee : ℕ) (value : JsValue) : Prop :=
  ∃ id, (w.agent.escapeHandle scope escapee).1 = some id ∧
    ∀ acts u, run step (w.escaped scope escapee) acts = some u →
      AllStates step (w.AroundOpen scope) (w.escaped scope escapee) acts →
        u.agent.get id = some value

/-- An escape that fails leaves every frame and every id as it was. -/
def FailsClean (w : World) (scope escapee : ℕ) : Prop :=
  (w.agent.escapeHandle scope escapee).1 = none →
    (w.escaped scope escapee).agent.valueFrames = w.agent.valueFrames ∧
      ∀ id, (w.escaped scope escapee).agent.get id = w.agent.get id

end World

/-! ## The search -/

namespace HostJsAgent

variable {frameId valueId : ℕ} {frames : List ValueFrame}

/-- The search passes over the frames up to the one named. -/
theorem escapeFrom_eq (frameId valueId : ℕ) (frames : List ValueFrame) :
    escapeFrom frameId valueId frames =
      ((escapeFrom frameId valueId (frames.dropWhile fun f => f.id ≠ frameId)).1,
        frames.takeWhile (fun f => f.id ≠ frameId) ++
          (escapeFrom frameId valueId (frames.dropWhile fun f => f.id ≠ frameId)).2) := by
  induction frames with
  | nil => rfl
  | cons frame frames ih =>
    by_cases hid : frame.id = frameId
    · simp [hid]
    · rw [escapeFrom, if_neg hid, ih]
      simp [hid]

theorem dropWhile_id {frame : ValueFrame} {outer : List ValueFrame}
    (h : (frames.dropWhile fun f => f.id ≠ frameId) = frame :: outer) : frame.id = frameId := by
  have hhead := List.head?_dropWhile_not (fun f : ValueFrame => decide (f.id ≠ frameId)) frames
  rw [h] at hhead
  simpa using hhead

/-- At the named frame: an id it does not list is turned away, and one it lists goes to the
    frame around it, or nowhere. -/
theorem escapeFrom_cons (frame : ValueFrame) (outer : List ValueFrame) (valueId : ℕ) :
    (valueId ∉ frame.handles ∧ escapeFrom frame.id valueId (frame :: outer) =
        (false, frame :: outer)) ∨
      ∃ handles, (valueId :: handles).Perm frame.handles ∧
        (outer = [] ∧ escapeFrom frame.id valueId (frame :: outer) = (false, [{ frame with handles }]) ∨
          ∃ around rest, outer = around :: rest ∧ escapeFrom frame.id valueId (frame :: outer) =
            (true, { frame with handles } ::
              { around with handles := around.handles ++ [valueId] } :: rest)) := by
  cases hidx : frame.handles.idxOf? valueId with
  | none =>
    left
    refine ⟨List.idxOf?_eq_none_iff.mp hidx, ?_⟩
    rw [escapeFrom, if_pos rfl, hidx]
  | some position =>
    right
    refine ⟨_, Vec.cons_swapRemove_perm (idxOf?_spec hidx), ?_⟩
    rw [escapeFrom, if_pos rfl, hidx]
    cases outer with
    | nil => exact .inl ⟨rfl, rfl⟩
    | cons around rest => exact .inr ⟨around, rest, rfl, rfl⟩

end HostJsAgent

/-! ## One escape -/

namespace World

variable {w u : World} {scope escapee : ℕ} {frame : ValueFrame} {outer : List ValueFrame}

/-- The frames inside the named one. -/
def inside (w : World) (scope : ℕ) : List ValueFrame :=
  w.agent.valueFrames.takeWhile fun frame => frame.id ≠ scope

theorem inside_append (w : World) (scope : ℕ) :
    w.inside scope ++ w.scopeFrom scope = w.agent.valueFrames :=
  List.takeWhile_append_dropWhile

theorem escapeHandle_dead (h : w.agent.get escapee = none) :
    w.agent.escapeHandle scope escapee = (none, w.agent) := by
  rw [HostJsAgent.escapeHandle, if_pos h]

theorem escapeHandle_eq (h : w.agent.get escapee ≠ none) :
    w.agent.escapeHandle scope escapee =
      (if (escapeFrom scope escapee (w.scopeFrom scope)).1 then some escapee else none,
        { w.agent with
          valueFrames := w.inside scope ++ (escapeFrom scope escapee (w.scopeFrom scope)).2 }) := by
  rw [HostJsAgent.escapeHandle, if_neg h]
  unfold HostJsAgent.escapeValue
  rw [escapeFrom_eq]
  rfl

/-- No frame has the id. -/
theorem escapeHandle_closed (hlive : w.agent.get escapee ≠ none) (h : w.scopeFrom scope = []) :
    w.agent.escapeHandle scope escapee = (none, w.agent) := by
  have hinside := w.inside_append scope
  rw [h, List.append_nil] at hinside
  rw [escapeHandle_eq hlive, h]
  simp [escapeFrom, hinside]

theorem escapeHandle_unlisted (hlive : w.agent.get escapee ≠ none)
    (h : w.scopeFrom scope = frame :: outer) (hunlisted : escapee ∉ frame.handles) :
    w.agent.escapeHandle scope escapee = (none, w.agent) := by
  have hid : frame.id = scope := dropWhile_id h
  have hinside := w.inside_append scope
  rw [h] at hinside
  rcases escapeFrom_cons frame outer escapee with ⟨_, hnot⟩ | ⟨handles, hperm, _⟩
  · rw [escapeHandle_eq hlive, h, ← hid, hnot, hid, hinside]
    rfl
  · exact absurd (hperm.mem_iff.mp (List.mem_cons_self ..)) hunlisted

/-- The frame loses the id, and has no frame around it to take it. -/
theorem escapeHandle_outermost (hlive : w.agent.get escapee ≠ none)
    (h : w.scopeFrom scope = [frame]) (hlisted : escapee ∈ frame.handles) :
    (w.agent.escapeHandle scope escapee).1 = none ∧
      (w.agent.escapeHandle scope escapee).2.valueFrames ≠ w.agent.valueFrames := by
  have hid : frame.id = scope := dropWhile_id h
  have hinside := w.inside_append scope
  rcases escapeFrom_cons frame [] escapee with ⟨hnot, _⟩ | ⟨handles, hperm, hcases⟩
  · exact absurd hlisted hnot
  · rcases hcases with ⟨_, hescape⟩ | ⟨around, rest, houter, _⟩
    · rw [escapeHandle_eq hlive, h, ← hid, hescape]
      refine ⟨rfl, ?_⟩
      intro hframes
      rw [← hinside, h, hid] at hframes
      have hsame := List.head_eq_of_cons_eq (List.append_cancel_left hframes)
      have hlength := hperm.length_eq
      rw [← hsame, List.length_cons] at hlength
      exact absurd hlength (Nat.succ_ne_self _)
    · cases houter

theorem escapeHandle_listed (hlive : w.agent.get escapee ≠ none) {around : ValueFrame}
    {rest : List ValueFrame} (h : w.scopeFrom scope = frame :: around :: rest)
    (hlisted : escapee ∈ frame.handles) :
    (w.agent.escapeHandle scope escapee).1 = some escapee ∧
      ∃ inner, (w.agent.escapeHandle scope escapee).2 = { w.agent with
        valueFrames :=
          inner ++ { around with handles := around.handles ++ [escapee] } :: rest } := by
  have hid : frame.id = scope := dropWhile_id h
  rcases escapeFrom_cons frame (around :: rest) escapee with ⟨hnot, _⟩ | ⟨handles, _, hcases⟩
  · exact absurd hlisted hnot
  · rcases hcases with ⟨houter, _⟩ | ⟨around', rest', houter, hescape⟩
    · cases houter
    · obtain ⟨rfl, rfl⟩ := List.cons.inj houter
      rw [escapeHandle_eq hlive, h, ← hid, hescape]
      exact ⟨rfl, w.inside frame.id ++ [{ frame with handles }], by simp⟩

theorem succeeds_iff (hlive : w.agent.get escapee ≠ none)
    (h : w.scopeFrom scope = frame :: outer) :
    (w.agent.escapeHandle scope escapee).1 ≠ none ↔ escapee ∈ frame.handles ∧ outer ≠ [] := by
  by_cases hlisted : escapee ∈ frame.handles
  · cases outer with
    | nil => simp [(escapeHandle_outermost hlive h hlisted).1]
    | cons around rest => simp [(escapeHandle_listed hlive h hlisted).1, hlisted]
  · simp [escapeHandle_unlisted hlive h hlisted, hlisted]

/-! ## After an escape -/

/-- What is granted beside the rest stays granted while its frame is open. -/
theorem step_beside {act : Action} {g : Grant} {gs : List Grant} (hs : step w act = some u)
    (hg : g ∈ gs) (hopen : g.depth ≤ u.agent.valueFrames.length) :
    ∃ gs', step { w with granted := gs } act = some { u with granted := gs' } ∧ g ∈ gs' := by
  cases act with
  | insert value =>
    obtain ⟨r, hr, rfl⟩ := Option.map_eq_some_iff.mp hs
    refine ⟨⟨r.1, r.2.valueFrames.length, value⟩ :: gs, ?_, List.mem_cons_of_mem _ hg⟩
    simp only [step, hr, Option.map_some]
    rfl
  | insertPrimitive n =>
    obtain ⟨r, hr, rfl⟩ := Option.map_eq_some_iff.mp hs
    refine ⟨⟨r.1, r.2.valueFrames.length, .primitive n⟩ :: gs, ?_, List.mem_cons_of_mem _ hg⟩
    simp only [step, hr, Option.map_some]
    rfl
  | openHandleScope =>
    cases hs
    exact ⟨gs, rfl, hg⟩
  | closeHandleScope scope =>
    cases hs
    exact ⟨_, rfl, List.mem_filter.mpr ⟨hg, decide_eq_true hopen⟩⟩
  | escapeHandle scope escapee =>
    cases hs
    exact ⟨gs, rfl, hg⟩

/-- A handle granted at a depth names its value as long as the stack is as deep. -/
theorem run_beside {acts : List Action} {g : Grant} :
    ∀ {w : World} {gs : List Grant} {leaked : List ℕ}, run step w acts = some u →
      Keeps { w with granted := gs } leaked → g ∈ gs →
      AllStates step (fun u => g.depth ≤ u.agent.valueFrames.length) w acts →
        u.agent.get g.id = some g.value := by
  induction acts with
  | nil =>
    intro w gs leaked hr hk hg _
    cases hr
    exact (hk.granted g hg).2.2
  | cons act acts ih =>
    intro w gs leaked hr hk hg hall
    obtain ⟨t, hs, hr'⟩ := run_cons_eq_some.mp hr
    obtain ⟨gs', hs', hg'⟩ := step_beside hs hg (hall.2.1 t hs)
    obtain ⟨leaked', hk', _⟩ := hk.step hs'
    exact ih hr' hk' hg' ⟨hall.2.1 t hs, hall.2.2 t hs⟩

theorem keeps_run {acts : List Action} (h : run step {} acts = some w) :
    ∃ leaked, Keeps w leaked := by
  have hstep : ∀ v act u, step v act = some u → (∃ leaked, Keeps v leaked) →
      ∃ leaked, Keeps u leaked := by
    rintro v act u hs ⟨leaked, hk⟩
    obtain ⟨leaked', hk', _⟩ := hk.step hs
    exact ⟨leaked', hk'⟩
  exact invariant hstep h ⟨[], Keeps.init⟩

theorem Keeps.escapes {leaked : List ℕ} (hk : Keeps w leaked) {value : JsValue}
    (hget : w.agent.get escapee = some value) {around : ValueFrame} {rest : List ValueFrame}
    (h : w.scopeFrom scope = frame :: around :: rest) (hlisted : escapee ∈ frame.handles) :
    Escapes w scope escapee value := by
  have hlive : w.agent.get escapee ≠ none := by simp [hget]
  obtain ⟨hsome, inner, hagent⟩ := escapeHandle_listed hlive h hlisted
  refine ⟨escapee, hsome, ?_⟩
  intro acts u hr hall
  obtain ⟨leaked', hk'⟩ : ∃ leaked', Keeps (w.escaped scope escapee) leaked' := by
    rcases hk.escapeHandle scope escapee with hk' | ⟨_, hk'⟩
    · exact ⟨_, hk'⟩
    · exact ⟨_, hk'⟩
  have hdepth : (w.scopeFrom scope).tail.length = rest.length + 1 := by rw [h]; rfl
  have hopen : w.AroundOpen scope = fun u => rest.length + 1 ≤ u.agent.valueFrames.length := by
    funext u
    rw [AroundOpen, hdepth]
  rw [hopen] at hall
  -- The escapee stands in the frame around, and so does what was granted there.
  let g : Grant := ⟨escapee, rest.length + 1, value⟩
  have hframes : (w.escaped scope escapee).agent.valueFrames =
      inner ++ { around with handles := around.handles ++ [escapee] } :: rest := by
    rw [escaped, hagent]
  have hvalue : (w.escaped scope escapee).agent.get escapee = some value := by
    rw [escaped, hagent]
    exact hget
  have hkg : Keeps { w.escaped scope escapee with
      granted := g :: (w.escaped scope escapee).granted } leaked' := by
    refine { hk' with granted := ?_ }
    intro g' hg'
    rcases List.mem_cons.mp hg' with rfl | hg'
    · refine ⟨hall.1, fun _ => ?_, hvalue⟩
      show HeldWithin (w.escaped scope escapee).agent.valueFrames (rest.length + 1) escapee
      rw [HeldWithin, hframes]
      refine ⟨{ around with handles := around.handles ++ [escapee] }, by simp, ?_⟩
      exact List.mem_append_right around.handles (List.mem_singleton_self escapee)
    · exact hk'.granted g' hg'
  exact run_beside hr hkg (List.mem_cons_self ..) hall

/-- In every state of every run: an escape works exactly when the scope's own frame lists the
    id and has a frame around it, and one that fails changes nothing but where the outermost
    frame is named and lists the id. -/
theorem escapes_iff {acts : List Action} (hr : run step {} acts = some w) :
    (∀ scope frame outer escapee value, w.scopeFrom scope = frame :: outer →
      w.agent.get escapee = some value →
        (Escapes w scope escapee value ↔ escapee ∈ frame.handles ∧ outer ≠ [])) ∧
    ∀ scope escapee, FailsClean w scope escapee ↔
      ∀ frame, w.scopeFrom scope = [frame] → escapee ∉ frame.handles := by
  obtain ⟨leaked, hk⟩ := keeps_run hr
  constructor
  · intro scope frame outer escapee value h hget
    have hlive : w.agent.get escapee ≠ none := by simp [hget]
    constructor
    · rintro ⟨id, hsome, _⟩
      exact (succeeds_iff hlive h).mp (by simp [hsome])
    · rintro ⟨hlisted, houter⟩
      cases outer with
      | nil => exact absurd rfl houter
      | cons around rest => exact hk.escapes hget h hlisted
  · intro scope escapee
    have hunchanged (h : w.agent.escapeHandle scope escapee = (none, w.agent)) :
        FailsClean w scope escapee := by
      intro _
      rw [escaped, h]
      exact ⟨rfl, fun _ => rfl⟩
    constructor
    · intro hclean frame h hlisted
      have hmem : escapee ∈ w.agent.listed := by
        rw [listed, ← w.inside_append scope, h]
        simp [hlisted]
      obtain ⟨v, hv⟩ := hk.tables.exists_get (List.mem_append_right leaked hmem)
      obtain ⟨hnone, hframes⟩ := escapeHandle_outermost (by simp [hv]) h hlisted
      exact hframes (hclean hnone).1
    · intro hnot
      by_cases hlive : w.agent.get escapee = none
      · exact hunchanged (escapeHandle_dead hlive)
      · cases h : w.scopeFrom scope with
        | nil => exact hunchanged (escapeHandle_closed hlive h)
        | cons frame outer =>
          by_cases hlisted : escapee ∈ frame.handles
          · cases outer with
            | nil => exact absurd hlisted (hnot frame h)
            | cons around rest =>
              intro hnone
              rw [(escapeHandle_listed hlive h hlisted).1] at hnone
              cases hnone
          · exact hunchanged (escapeHandle_unlisted hlive h hlisted)

/-- The value of a scope of its own, escaped into the scope around. -/
theorem own_escapes : ∃ w, run step {} [.openHandleScope, .openHandleScope, .insert (.object 7)] =
    some w ∧ Escapes w 3 1 (.object 7) := by
  have hr : run step {} [.openHandleScope, .openHandleScope, .insert (.object 7)] = some _ := rfl
  exact ⟨_, hr, ((escapes_iff hr).1 3 _ _ 1 _ rfl rfl).mpr (by decide)⟩

/-- The object had its id from the scope around, and cannot be escaped into it; and the root
    frame loses a value that is escaped from it, though it does not get out. -/
theorem seen_not_escapes :
    (∃ w frame outer, run step {} [.openHandleScope, .insert (.object 7), .openHandleScope,
      .insert (.object 7)] = some w ∧ w.scopeFrom 3 = frame :: outer ∧
        w.agent.get 1 = some (.object 7) ∧ ¬ Escapes w 3 1 (.object 7)) ∧
    ∃ w, run step {} [.insert (.object 7)] = some w ∧ ¬ FailsClean w 1 1 := by
  refine ⟨⟨_, _, _, rfl, rfl, rfl, ?_⟩, _, rfl, ?_⟩
  · rintro ⟨id, hsome, _⟩
    have hnone : none = some id := hsome
    cases hnone
  · intro hclean
    exact absurd (hclean rfl).1 (by decide)

end World

end WasmerNapi.HostJs
