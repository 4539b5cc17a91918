import WasmerNapi.HostJs.Handles

/-!
# Scopes and their handles

A scope or a callback opens a frame, what is inserted goes into the innermost one, and a
handle can be escaped one frame outwards. The guest names scopes and values by number and
may name any.

`Keeps` holds in every run: the live handles are those the open frames list, besides those
no frame lists any more. `Sound` is what the tables are for; `sound_iff` says that a run
keeps it exactly when the guest neither closes the root frame nor escapes one of the root's
own values from it — the two cases the code does not turn away before it has changed a
table.
-/

namespace WasmerNapi.HostJs

open List (mem_cons mem_cons_of_mem flatMap_cons append_assoc length_cons mem_append_right
  nodup_append length_map)

/-! ## Runs

A callback's frame is the composition of these: one is opened, the callback's values are
inserted, and the frame is closed by its own id. -/

inductive Action
  | insert (value : JsValue)
  | insertPrimitive (n : ℕ)
  | openHandleScope
  | closeHandleScope (scope : ℕ)
  | escapeHandle (scope escapee : ℕ)

/-- A handle given out while the frame at a depth was the innermost; the root's is one. -/
structure Grant where
  id : ℕ
  depth : ℕ
  value : JsValue

structure World where
  agent : HostJsAgent := {}
  /-- The value last handed out under each id. -/
  stored : ℕ → Option JsValue := fun _ => none
  /-- What was handed out while a frame that is still open was the innermost. -/
  granted : List Grant := []

namespace World

def give (w : World) (value : JsValue) (r : ℕ × HostJsAgent) : World :=
  { agent := r.2
    stored := Function.update w.stored r.1 (some value)
    granted := ⟨r.1, r.2.valueFrames.length, value⟩ :: w.granted }

/-- With the frame ends what was granted in it. -/
def closeHandleScope (w : World) (scope : ℕ) : World :=
  let r := w.agent.closeValueFrame scope
  { w with
    agent := r.2
    granted := w.granted.filter fun g => g.depth ≤ r.2.valueFrames.length }

def step (w : World) : Action → Option World
  | .insert value => (w.agent.insert value).map (w.give value)
  | .insertPrimitive n => (w.agent.insertPrimitive (.primitive n)).map (w.give (.primitive n))
  | .openHandleScope => some { w with agent := w.agent.openValueFrame.2 }
  | .closeHandleScope scope => some (w.closeHandleScope scope)
  | .escapeHandle scope escapee =>
    some { w with agent := (w.agent.escapeHandle scope escapee).2 }

end World

/-! ## Frames -/

namespace HostJsAgent

/-- A handle stands in a frame of at most this depth. -/
def HeldWithin (frames : List ValueFrame) (depth id : ℕ) : Prop :=
  ∃ frame ∈ frames.drop (frames.length - depth), id ∈ frame.handles

/-- The root frame is there, and no other has its id. -/
def Rooted (frames : List ValueFrame) : Prop :=
  ∃ scopes root, frames = scopes ++ [root] ∧ root.id = 1 ∧ ∀ frame ∈ scopes, frame.id ≠ 1

variable {frames : List ValueFrame} {frame : ValueFrame}

theorem Rooted.cons (h : Rooted frames) (hid : frame.id ≠ 1) : Rooted (frame :: frames) := by
  obtain ⟨scopes, root, rfl, hroot, hscopes⟩ := h
  refine ⟨frame :: scopes, root, rfl, hroot, ?_⟩
  intro f hf
  rcases mem_cons.mp hf with rfl | hf
  · exact hid
  · exact hscopes f hf

/-- Closing the innermost frame leaves the root, unless that was the root itself. -/
theorem Rooted.tail (h : Rooted (frame :: frames)) (hid : frame.id ≠ 1) : Rooted frames := by
  obtain ⟨scopes, root, heq, hroot, hscopes⟩ := h
  cases scopes with
  | nil =>
    obtain ⟨rfl, rfl⟩ := List.cons.inj heq
    exact absurd hroot hid
  | cons f scopes =>
    obtain ⟨rfl, rfl⟩ := List.cons.inj heq
    exact ⟨scopes, root, rfl, hroot, fun g hg => hscopes g (mem_cons_of_mem _ hg)⟩

theorem Rooted.eq_nil (h : Rooted (frame :: frames)) (hid : frame.id = 1) : frames = [] := by
  obtain ⟨scopes, root, heq, _, hscopes⟩ := h
  cases scopes with
  | nil => exact (List.cons.inj heq).2
  | cons f scopes =>
    obtain ⟨rfl, _⟩ := List.cons.inj heq
    exact absurd hid (hscopes _ (List.mem_cons_self ..))

/-- Only the ids matter. -/
theorem Rooted.congr {frames' : List ValueFrame} (h : Rooted frames)
    (hids : frames'.map ValueFrame.id = frames.map ValueFrame.id) : Rooted frames' := by
  obtain ⟨scopes, root, rfl, hroot, hscopes⟩ := h
  rw [List.map_append, List.map_singleton] at hids
  obtain ⟨scopes', last, rfl, hs, hl⟩ := List.map_eq_append_iff.mp hids
  obtain ⟨root', rfl, hr⟩ := List.map_eq_singleton_iff.mp hl
  refine ⟨scopes', root', rfl, hr.trans hroot, ?_⟩
  intro frame hframe
  have hmem : frame.id ∈ scopes.map ValueFrame.id := hs ▸ List.mem_map_of_mem hframe
  obtain ⟨g, hg, hgid⟩ := List.mem_map.mp hmem
  exact hgid ▸ hscopes g hg

theorem pushHandle_ids (id : ℕ) (frames : List ValueFrame) :
    (pushHandle id frames).map ValueFrame.id = frames.map ValueFrame.id := by
  cases frames <;> rfl

theorem pushHandle_listed (h : frames ≠ []) (id : ℕ) :
    ((pushHandle id frames).flatMap ValueFrame.handles).Perm
      (id :: frames.flatMap ValueFrame.handles) := by
  cases frames with
  | nil => exact absurd rfl h
  | cons frame frames =>
    rw [pushHandle, flatMap_cons, flatMap_cons, append_assoc]
    exact List.perm_middle

variable {depth id : ℕ}

theorem HeldWithin.grow {frame' : ValueFrame} (h : HeldWithin (frame :: frames) depth id)
    (hsub : ∀ id ∈ frame.handles, id ∈ frame'.handles) :
    HeldWithin (frame' :: frames) depth id := by
  obtain ⟨f, hf, hid⟩ := h
  rw [HeldWithin]
  rw [length_cons] at hf ⊢
  cases hn : frames.length + 1 - depth with
  | zero =>
    rw [hn, List.drop_zero] at hf
    rcases mem_cons.mp hf with rfl | hf
    · exact ⟨frame', List.mem_cons_self .., hsub id hid⟩
    · exact ⟨f, mem_cons_of_mem _ hf, hid⟩
  | succ n =>
    rw [hn] at hf
    exact ⟨f, hf, hid⟩

theorem HeldWithin.pushHandle {id' : ℕ} (h : HeldWithin frames depth id') (id : ℕ) :
    HeldWithin (pushHandle id frames) depth id' := by
  cases frames with
  | nil => exact h
  | cons frame frames => exact h.grow fun _ hmem => List.mem_append_left _ hmem

theorem heldWithin_top (h : frames ≠ []) :
    HeldWithin (pushHandle id frames) frames.length id := by
  cases frames with
  | nil => exact absurd rfl h
  | cons frame frames =>
    refine ⟨{ frame with handles := frame.handles ++ [id] }, ?_, mem_append_right _ (List.mem_singleton_self id)⟩
    simp [HostJsAgent.pushHandle]

theorem HeldWithin.cons (h : HeldWithin frames depth id) (frame : ValueFrame) :
    HeldWithin (frame :: frames) depth id := by
  obtain ⟨f, hf, hid⟩ := h
  by_cases hd : depth ≤ frames.length
  · refine ⟨f, ?_, hid⟩
    rw [length_cons, Nat.succ_sub hd]
    exact hf
  · have hall := List.mem_of_mem_drop hf
    refine ⟨f, ?_, hid⟩
    rw [length_cons, Nat.sub_eq_zero_of_le (by omega)]
    exact mem_cons_of_mem _ hall

/-- What stands in a frame further out is not in the innermost one. -/
theorem HeldWithin.tail (h : HeldWithin (frame :: frames) depth id) (hd : depth ≤ frames.length) :
    HeldWithin frames depth id := by
  obtain ⟨f, hf, hid⟩ := h
  rw [length_cons, Nat.succ_sub hd] at hf
  exact ⟨f, hf, hid⟩

theorem HeldWithin.mem (h : HeldWithin frames depth id) :
    id ∈ frames.flatMap ValueFrame.handles := by
  obtain ⟨f, hf, hid⟩ := h
  exact List.mem_flatMap.mpr ⟨f, List.mem_of_mem_drop hf, hid⟩

theorem escapeFrom_ids (frameId valueId : ℕ) (frames : List ValueFrame) :
    (escapeFrom frameId valueId frames).2.map ValueFrame.id = frames.map ValueFrame.id := by
  induction frames with
  | nil => rfl
  | cons frame frames ih =>
    unfold escapeFrom
    split
    · split
      · rfl
      · cases frames <;> rfl
    · rw [List.map_cons, List.map_cons, ih]

/-- The root is the frame named, and lists the value. -/
def EscapesRoot (frameId valueId : ℕ) (frames : List ValueFrame) : Prop :=
  ∃ root ∈ frames.getLast?, root.id = frameId ∧ valueId ∈ root.handles

instance (frameId valueId : ℕ) (frames : List ValueFrame) :
    Decidable (EscapesRoot frameId valueId frames) :=
  inferInstanceAs (Decidable (∃ root ∈ frames.getLast?, _))

theorem idxOf?_spec {l : List ℕ} {v position : ℕ} (h : l.idxOf? v = some position) :
    l[position]? = some v := by
  obtain ⟨hlt, hv, _⟩ := List.idxOf?_eq_some_iff.mp h
  rw [List.getElem?_eq_getElem hlt]
  simpa using hv

/-- An escape moves the value one frame outwards, or out of the root's list. -/
theorem escapeFrom_listed (frameId valueId : ℕ) (frames : List ValueFrame) :
    ((escapeFrom frameId valueId frames).2.flatMap ValueFrame.handles).Perm
        (frames.flatMap ValueFrame.handles) ∨
      EscapesRoot frameId valueId frames ∧
        (valueId :: (escapeFrom frameId valueId frames).2.flatMap ValueFrame.handles).Perm
          (frames.flatMap ValueFrame.handles) := by
  induction frames with
  | nil => exact Or.inl (List.Perm.refl _)
  | cons frame frames ih =>
    unfold escapeFrom
    split
    · next hid =>
      split
      · exact Or.inl (List.Perm.refl _)
      · next position hposition =>
        have hv := idxOf?_spec hposition
        have hperm := Vec.cons_swapRemove_perm hv
        cases frames with
        | nil =>
          refine Or.inr ⟨⟨frame, rfl, hid, List.mem_of_getElem? hv⟩, ?_⟩
          simpa using hperm
        | cons outer rest =>
          left
          simp only [flatMap_cons, append_assoc, List.singleton_append]
          refine List.Perm.trans ?_ (hperm.append_right _)
          rw [List.cons_append]
          refine List.Perm.trans ?_ List.perm_middle
          exact List.Perm.append_left _ List.perm_middle
    · simp only [flatMap_cons]
      cases frames with
      | nil => exact Or.inl (List.Perm.refl _)
      | cons f fs =>
        rcases ih with hperm | ⟨hroot, hperm⟩
        · exact Or.inl (hperm.append_left _)
        · exact Or.inr ⟨hroot, List.perm_middle.symm.trans (hperm.append_left _)⟩

theorem HeldWithin.escapeFrom {frameId valueId : ℕ}
    (hnodup : (frames.flatMap ValueFrame.handles).Nodup) (h : HeldWithin frames depth id)
    (hid : id ∈ (escapeFrom frameId valueId frames).2.flatMap ValueFrame.handles) :
    HeldWithin (escapeFrom frameId valueId frames).2 depth id := by
  induction frames with
  | nil => exact h
  | cons frame frames ih =>
    by_cases hd : depth ≤ frames.length
    · -- The handle stands further out than the first frame, and nowhere else.
      have ht := h.tail hd
      obtain ⟨_, hnodup', hdisjoint⟩ := nodup_append.mp hnodup
      unfold HostJsAgent.escapeFrom at hid ⊢
      split
      · split
        · exact h
        · cases frames with
          | nil => exact ht.cons _
          | cons outer rest =>
            exact (ht.grow fun _ hmem => List.mem_append_left _ hmem).cons _
      · next hne =>
        rw [if_neg hne] at hid
        rcases List.mem_append.mp hid with hframe | htail
        · exact absurd rfl (hdisjoint id hframe id ht.mem)
        · exact (ih hnodup' ht htail).cons _
    · -- Every frame is within this depth.
      obtain ⟨f, hf, hid⟩ := List.mem_flatMap.mp hid
      have hlen := congrArg List.length (escapeFrom_ids frameId valueId (frame :: frames))
      rw [length_map, length_map, length_cons] at hlen
      refine ⟨f, ?_, hid⟩
      rw [hlen, Nat.sub_eq_zero_of_le (by omega)]
      exact hf

/-- The root's list loses the value, and no other gains it. -/
theorem escapeFrom_root {frameId valueId : ℕ} (hroot : Rooted frames)
    (h : EscapesRoot frameId valueId frames) :
    (valueId :: (escapeFrom frameId valueId frames).2.flatMap ValueFrame.handles).Perm
      (frames.flatMap ValueFrame.handles) := by
  obtain ⟨scopes, root, rfl, hid, hscopes⟩ := hroot
  obtain ⟨r, hr, hrid, hv⟩ := h
  obtain rfl : root = r := by simpa using hr
  induction scopes with
  | nil =>
    rw [List.nil_append, escapeFrom, if_pos hrid]
    cases hidx : root.handles.idxOf? valueId with
    | none => exact absurd hv (List.idxOf?_eq_none_iff.mp hidx)
    | some position =>
      simpa using Vec.cons_swapRemove_perm (idxOf?_spec hidx)
  | cons frame scopes ih =>
    have hne : frame.id ≠ frameId := by
      rw [← hrid, hid]
      exact hscopes frame (List.mem_cons_self ..)
    have ih' := ih (fun f hf => hscopes f (mem_cons_of_mem _ hf)) (by simp)
    rw [List.cons_append, escapeFrom, if_neg hne, flatMap_cons, flatMap_cons]
    exact List.perm_middle.symm.trans (ih'.append_left _)

end HostJsAgent

/-! ## What every run keeps -/

namespace World

open HostJsAgent Run

/-- What every run keeps, whatever the guest names: the live ids are those the open frames
    list and those that are listed no more. -/
structure Keeps (w : World) (leaked : List ℕ) : Prop where
  tables : w.agent.Tables (leaked ++ w.agent.listed)
  stored : ∀ id ∈ leaked ++ w.agent.listed, w.agent.get id = w.stored id
  granted : ∀ g ∈ w.granted, g.depth ≤ w.agent.valueFrames.length ∧
    (g.id ∈ w.agent.listed → HeldWithin w.agent.valueFrames g.depth g.id) ∧
    w.agent.get g.id = some g.value
  counters : w.agent.nextValueHandle < 2 ^ 32 ∧ 2 ≤ w.agent.nextValueFrame

/-- What the handle table is for. -/
structure Sound (w : World) : Prop where
  /-- The live ids are the ones the open frames list, each once; they go one to one to the
      live slots, and the free slots are the others. -/
  tables : w.agent.Tables w.agent.listed
  rooted : Rooted w.agent.valueFrames
  /-- While its frame is open an id names the value last handed out under it, and nothing
      after that. -/
  get : ∀ id, w.agent.get id = if id ∈ w.agent.listed then w.stored id else none
  /-- What was handed out while a frame was the innermost is valid until that frame closes. -/
  granted : ∀ g ∈ w.granted, g.depth ≤ w.agent.valueFrames.length ∧
    HeldWithin w.agent.valueFrames g.depth g.id ∧ w.agent.get g.id = some g.value
  /-- The next handle is not one that is live. -/
  fresh : ∀ r ∈ w.agent.nextHandle, w.agent.get r.1 = none
  counters : w.agent.nextValueHandle < 2 ^ 32 ∧ 2 ≤ w.agent.nextValueFrame

/-- The guest neither closes the root frame nor escapes one of its values from it. -/
def Safe (w : World) : Action → Prop
  | .closeHandleScope scope => w.agent.valueFrames.map ValueFrame.id ≠ [scope]
  | .escapeHandle scope escapee => ¬ EscapesRoot scope escapee w.agent.valueFrames
  | _ => True

instance (w : World) : ∀ act, Decidable (Safe w act)
  | .insert _ => isTrue trivial
  | .insertPrimitive _ => isTrue trivial
  | .openHandleScope => isTrue trivial
  | .closeHandleScope _ => inferInstanceAs (Decidable (_ ≠ _))
  | .escapeHandle _ _ => inferInstanceAs (Decidable (¬ _))

variable {w u : World} {leaked : List ℕ}

/-- The tables are sound when nothing has leaked and the root is there. -/
theorem sound_iff_keeps : Sound w ↔ Keeps w [] ∧ Rooted w.agent.valueFrames := by
  constructor
  · intro h
    refine ⟨⟨h.tables, ?_, ?_, h.counters⟩, h.rooted⟩
    · intro id hid
      exact (h.get id).trans (if_pos hid)
    · intro g hg
      obtain ⟨hdepth, hheld, hval⟩ := h.granted g hg
      exact ⟨hdepth, fun _ => hheld, hval⟩
  · rintro ⟨h, hrooted⟩
    have htables : w.agent.Tables w.agent.listed := h.tables
    refine ⟨htables, hrooted, ?_, ?_, ?_, h.counters⟩
    · intro id
      split
      · next hid => exact h.stored id hid
      · next hid => exact htables.get_eq_none_iff.mpr hid
    · intro g hg
      obtain ⟨hdepth, hheld, hval⟩ := h.granted g hg
      refine ⟨hdepth, hheld ?_, hval⟩
      by_contra hnot
      rw [htables.get_eq_none_iff.mpr hnot] at hval
      cases hval
    · intro r hr
      exact get_of_not_mem (nextHandle_spec (b := r.2) h.counters.1 hr).1

theorem Keeps.init : Keeps {} [] where
  tables := {
    nodup := List.nodup_nil
    mem_iff := fun id => by simp [listed]
    range := nofun
    live := nofun
    injective := nofun
    named := nofun
    length := rfl
    free := ⟨List.nodup_nil, fun index => by simp⟩ }
  stored := nofun
  granted := nofun
  counters := by decide

theorem Sound.init : Sound {} :=
  sound_iff_keeps.mpr ⟨Keeps.init, [], _, rfl, rfl, nofun⟩

variable {a : HostJsAgent} {id : ℕ}

/-- A value stored under an id that was not live goes into the innermost frame. With no frame
    at all it stays live for good. -/
theorem Keeps.store (h : Keeps w leaked) (hs : SameTables w.agent a)
    (hnext : a.nextValueHandle < 2 ^ 32) (hfree : id ∉ w.agent.valueHandles) (hpos : 0 < id)
    (hlt : id < 2 ^ 32) (value : JsValue) :
    Keeps (w.give value (id, a.store id value))
      (if w.agent.valueFrames = [] then id :: leaked else leaked) := by
  obtain ⟨hframes, hnextFrame, hnextHandle⟩ := store_eq a id value
  rw [hs.valueFrames] at hframes
  have hnew : id ∉ leaked ++ w.agent.listed := fun hid => hfree ((h.tables.mem_iff id).mp hid)
  obtain ⟨htables, hget, hother⟩ := (h.tables.congr hs).store hnew hpos hlt value
  have hperm : ((if w.agent.valueFrames = [] then id :: leaked else leaked) ++
      (a.store id value).listed).Perm (id :: (leaked ++ w.agent.listed)) := by
    rw [listed, hframes]
    split
    · next hnil =>
      rw [listed, hnil]
      exact List.Perm.refl _
    · next hne =>
      exact ((pushHandle_listed hne id).append_left leaked).trans List.perm_middle
  have hlen : (a.store id value).valueFrames.length = w.agent.valueFrames.length := by
    have := congrArg List.length (pushHandle_ids id w.agent.valueFrames)
    rw [hframes]
    simpa using this
  have hlisted' : (a.store id value).listed =
      (pushHandle id w.agent.valueFrames).flatMap ValueFrame.handles := by
    rw [listed, hframes]
  refine ⟨htables.perm hperm.symm, ?_, ?_, ?_⟩
  · intro id' hid'
    show (a.store id value).get id' = Function.update w.stored id (some value) id'
    rcases mem_cons.mp (hperm.mem_iff.mp hid') with heq | hold
    · rw [heq, hget, Function.update_self]
    · have hne : id' ≠ id := fun heq => hnew (heq ▸ hold)
      rw [hother id' hne, hs.get, h.stored id' hold, Function.update_of_ne hne]
  · intro g hg
    show g.depth ≤ (a.store id value).valueFrames.length ∧
      (g.id ∈ (a.store id value).listed → HeldWithin (a.store id value).valueFrames _ _) ∧
      (a.store id value).get _ = _
    rw [hlisted', hframes]
    rcases mem_cons.mp hg with heq | hg
    · subst heq
      show (a.store id value).valueFrames.length ≤ _ ∧
        (_ → HeldWithin _ (a.store id value).valueFrames.length _) ∧ _
      rw [hlen, ← hframes, hlen]
      refine ⟨le_rfl, fun hmem => ?_, hget⟩
      rw [hframes] at hmem ⊢
      apply heldWithin_top
      rintro hnil
      rw [hnil] at hmem
      cases hmem
    · obtain ⟨hdepth, hheld, hval⟩ := h.granted g hg
      have hne : g.id ≠ id := by
        rintro heq
        rw [heq, get_of_not_mem hfree] at hval
        cases hval
      rw [← hframes, hlen, hframes]
      refine ⟨hdepth, fun hmem => (hheld ?_).pushHandle id, ?_⟩
      · have hnil : w.agent.valueFrames ≠ [] := by
          rintro hnil
          rw [hnil] at hmem
          cases hmem
        have hmem' := (pushHandle_listed hnil id).mem_iff.mp hmem
        exact (mem_cons.mp hmem').resolve_left hne
      · rw [hother _ hne, hs.get, hval]
  · show (a.store id value).nextValueHandle < 2 ^ 32 ∧ 2 ≤ (a.store id value).nextValueFrame
    rw [hnextHandle, hnextFrame, hs.nextValueFrame]
    exact ⟨hnext, h.counters.2⟩

variable {value : JsValue}

/-- An object that is live is handed out again under the id it has. -/
theorem Keeps.found (h : Keeps w leaked) (hs : SameTables w.agent a)
    (hnext : a.nextValueHandle < 2 ^ 32) (hget : w.agent.get id = some value) :
    Keeps (w.give value (id, a)) leaked := by
  refine ⟨?_, ?_, ?_, hnext, ?_⟩
  · show a.Tables (leaked ++ a.listed)
    rw [hs.listed]
    exact h.tables.congr hs
  · intro id' hid'
    show a.get id' = Function.update w.stored id (some value) id'
    rw [hs.get]
    by_cases heq : id' = id
    · rw [heq, hget, Function.update_self]
    · rw [Function.update_of_ne heq]
      apply h.stored
      show id' ∈ leaked ++ w.agent.listed
      rw [← hs.listed]
      exact hid'
  · intro g hg
    show g.depth ≤ a.valueFrames.length ∧ (g.id ∈ a.listed → HeldWithin a.valueFrames _ _) ∧
      a.get _ = _
    rw [hs.valueFrames, hs.listed, hs.get]
    rcases mem_cons.mp hg with heq | hg
    · subst heq
      show a.valueFrames.length ≤ _ ∧ (_ → HeldWithin _ a.valueFrames.length _) ∧ _
      rw [hs.valueFrames]
      refine ⟨le_rfl, fun hmem => ?_, hget⟩
      obtain ⟨frame, hframe, hid⟩ := List.mem_flatMap.mp hmem
      exact ⟨frame, by simpa using hframe, hid⟩
    · exact h.granted g hg
  · show 2 ≤ a.nextValueFrame
    rw [hs.nextValueFrame]
    exact h.counters.2

theorem Keeps.openHandleScope (h : Keeps w leaked) :
    Keeps { w with agent := w.agent.openValueFrame.2 } leaked := by
  have hsat : 2 ≤ Word.saturatingAdd 32 (max w.agent.nextValueFrame 1) 1 := by
    have := h.counters.2
    unfold Word.saturatingAdd
    omega
  refine ⟨h.tables.withFrames _ _, h.stored, ?_, h.counters.1, hsat⟩
  intro g hg
  obtain ⟨hdepth, hheld, hval⟩ := h.granted g hg
  exact ⟨Nat.le_succ_of_le hdepth, fun hmem => (hheld hmem).cons _, hval⟩

/-- The innermost frame is off the stack, and its handles are still there. -/
theorem Keeps.popped (h : Keeps w leaked) {frame : ValueFrame} {frames : List ValueFrame}
    (hf : w.agent.valueFrames = frame :: frames) : Tables { w.agent with valueFrames := frames }
      (frame.handles ++ (leaked ++ frames.flatMap ValueFrame.handles)) := by
  have htables := h.tables
  rw [listed, hf, flatMap_cons] at htables
  refine (htables.withFrames frames w.agent.nextValueFrame).perm ?_
  rw [← append_assoc, ← append_assoc]
  exact List.perm_append_comm.append_right _

theorem Keeps.closeHandleScope (h : Keeps w leaked) (scope : ℕ) :
    Keeps (w.closeHandleScope scope) leaked := by
  have hunchanged : Keeps { w with
      granted := w.granted.filter fun g => g.depth ≤ w.agent.valueFrames.length } leaked :=
    ⟨h.tables, h.stored, fun g hg => h.granted g (List.mem_filter.mp hg).1, h.counters⟩
  unfold World.closeHandleScope closeValueFrame
  cases hf : w.agent.valueFrames with
  | nil => exact hunchanged
  | cons frame frames =>
    dsimp only
    split
    · -- Not the innermost frame: nothing changes.
      exact hunchanged
    · have hlisted : w.agent.listed = frame.handles ++ frames.flatMap ValueFrame.handles := by
        rw [listed, hf, flatMap_cons]
      have hpopped := h.popped hf
      have hdisjoint := (nodup_append.mp hpopped.nodup).2.2
      obtain ⟨htables', hget⟩ := hpopped.releases
      obtain ⟨hframes, hhandle, hframe⟩ :=
        releaseValueHandles_eq frame.handles { w.agent with valueFrames := frames }
      set a := { w.agent with valueFrames := frames }.releaseValueHandles frame.handles
      have hlisted' : a.listed = frames.flatMap ValueFrame.handles := by rw [listed, hframes]
      refine ⟨hlisted' ▸ htables', ?_, ?_, hhandle ▸ h.counters.1, hframe ▸ h.counters.2⟩
      · intro id hid
        show a.get id = w.stored id
        have hid' : id ∈ leaked ++ frames.flatMap ValueFrame.handles := hlisted' ▸ hid
        rw [hget id fun hmem => hdisjoint id hmem id hid' rfl]
        apply h.stored
        rw [hlisted]
        rcases List.mem_append.mp hid' with hl | hl
        · exact List.mem_append_left _ hl
        · exact mem_append_right _ (mem_append_right _ hl)
      · intro g hg
        obtain ⟨hmem, hdepth⟩ := List.mem_filter.mp hg
        rw [decide_eq_true_iff] at hdepth
        obtain ⟨_, hheld, hval⟩ := h.granted g hmem
        rw [hf, hlisted] at hheld
        have hdepth' : g.depth ≤ frames.length := by
          rw [hframes] at hdepth
          exact hdepth
        refine ⟨hdepth, fun hl => ?_, ?_⟩
        · show HeldWithin a.valueFrames _ _
          rw [hframes]
          exact (hheld (mem_append_right _ (hlisted' ▸ hl))).tail hdepth'
        · -- A handle of the closed frame was not granted this far out.
          rw [← hval]
          apply hget g.id
          intro hin
          have hout := ((hheld (List.mem_append_left _ hin)).tail hdepth').mem
          exact hdisjoint g.id hin g.id (mem_append_right _ hout) rfl

theorem Keeps.escapeHandle (h : Keeps w leaked) (scope escapee : ℕ) :
    Keeps { w with agent := (w.agent.escapeHandle scope escapee).2 } leaked ∨
      EscapesRoot scope escapee w.agent.valueFrames ∧
        Keeps { w with agent := (w.agent.escapeHandle scope escapee).2 } (escapee :: leaked) := by
  unfold HostJsAgent.escapeHandle
  split
  · exact Or.inl h
  · have hids := escapeFrom_ids scope escapee w.agent.valueFrames
    have hlen := congrArg List.length hids
    rw [length_map, length_map] at hlen
    have hnodup := (nodup_append.mp h.tables.nodup).2.1
    -- Whatever is listed afterwards was listed before.
    have hgranted (hsub : ∀ id, id ∈ (escapeFrom scope escapee w.agent.valueFrames).2.flatMap
        ValueFrame.handles → id ∈ w.agent.listed) : ∀ g ∈ w.granted,
        g.depth ≤ (escapeFrom scope escapee w.agent.valueFrames).2.length ∧
          (g.id ∈ (escapeFrom scope escapee w.agent.valueFrames).2.flatMap ValueFrame.handles →
            HeldWithin (escapeFrom scope escapee w.agent.valueFrames).2 g.depth g.id) ∧
          w.agent.get g.id = some g.value := by
      intro g hg
      obtain ⟨hdepth, hheld, hval⟩ := h.granted g hg
      exact ⟨hlen ▸ hdepth, fun hmem => (hheld (hsub _ hmem)).escapeFrom hnodup hmem, hval⟩
    rcases escapeFrom_listed scope escapee w.agent.valueFrames with hperm | ⟨hroot, hperm⟩
    · have hall := hperm.append_left leaked
      refine Or.inl ⟨?_, ?_, hgranted fun id => hperm.mem_iff.mp, h.counters⟩
      · exact (h.tables.perm hall.symm).withFrames _ w.agent.nextValueFrame
      · exact fun id hid => h.stored id (hall.mem_iff.mp hid)
    · have hall := List.perm_middle.symm.trans (hperm.append_left leaked)
      refine Or.inr ⟨hroot, ?_, ?_, hgranted fun id hid => hperm.mem_iff.mp (mem_cons_of_mem _ hid),
        h.counters⟩
      · exact (h.tables.perm hall.symm).withFrames _ w.agent.nextValueFrame
      · exact fun id hid => h.stored id (hall.mem_iff.mp hid)

variable {act : Action}

/-- The tables agree in every run. A safe step lets nothing leak while a frame is open. -/
theorem Keeps.step (hstep : step w act = some u) (h : Keeps w leaked) :
    ∃ leaked', Keeps u leaked' ∧ (Safe w act → w.agent.valueFrames ≠ [] → leaked' = leaked) := by
  cases act with
  | insert value =>
    obtain ⟨⟨id, a⟩, hi, rfl⟩ := Option.map_eq_some_iff.mp hstep
    rcases insert_cases h.counters.1 hi with ⟨b, hs, hnext, hfree, hpos, hlt, rfl⟩ | ⟨hget, hs, hnext⟩
    · exact ⟨_, h.store hs hnext hfree hpos hlt value, fun _ hne => if_neg hne⟩
    · exact ⟨leaked, h.found hs hnext hget, fun _ _ => rfl⟩
  | insertPrimitive n =>
    obtain ⟨⟨id, a⟩, hi, rfl⟩ := Option.map_eq_some_iff.mp hstep
    obtain ⟨b, hs, hnext, hfree, hpos, hlt, rfl⟩ := insertPrimitive_cases h.counters.1 hi
    exact ⟨_, h.store hs hnext hfree hpos hlt _, fun _ hne => if_neg hne⟩
  | openHandleScope =>
    cases hstep
    exact ⟨leaked, h.openHandleScope, fun _ _ => rfl⟩
  | closeHandleScope scope =>
    cases hstep
    exact ⟨leaked, h.closeHandleScope scope, fun _ _ => rfl⟩
  | escapeHandle scope escapee =>
    cases hstep
    rcases h.escapeHandle scope escapee with hk | ⟨hroot, hk⟩
    · exact ⟨leaked, hk, fun _ _ => rfl⟩
    · exact ⟨_, hk, fun hsafe => absurd hroot hsafe⟩

/-! ## What the ids name -/

/-- An insert gives the value its id and renames no other. -/
theorem Keeps.insert_get (h : Keeps w leaked) (hi : w.agent.insert value = some (id, a)) :
    a.get id = some value ∧ ∀ id', id' ≠ id → a.get id' = w.agent.get id' := by
  rcases insert_cases h.counters.1 hi with ⟨b, hs, _, hfree, hpos, hlt, rfl⟩ | ⟨hget, hs, _⟩
  · have hnew : id ∉ leaked ++ w.agent.listed := fun hid => hfree ((h.tables.mem_iff id).mp hid)
    obtain ⟨_, hid, hother⟩ := (h.tables.congr hs).store hnew hpos hlt value
    exact ⟨hid, fun id' hne => (hother id' hne).trans (hs.get id')⟩
  · exact ⟨(hs.get id).trans hget, fun id' _ => hs.get id'⟩

def inserted : Action → Option JsValue
  | .insert value => some value
  | .insertPrimitive n => some (.primitive n)
  | _ => none

/-- What an id names, it named before, or it is what the step inserts. -/
theorem get_of_step (h : Keeps w leaked) (hstep : step w act = some u)
    (hget : u.agent.get id = some value) :
    w.agent.get id = some value ∨ inserted act = some value := by
  cases act with
  | insert v =>
    obtain ⟨⟨new, a⟩, hi, rfl⟩ := Option.map_eq_some_iff.mp hstep
    obtain ⟨hnew, hother⟩ := h.insert_get hi
    change a.get id = some value at hget
    by_cases hid : id = new
    · subst hid
      exact .inr (hnew.symm.trans hget)
    · exact .inl ((hother id hid).symm.trans hget)
  | insertPrimitive n =>
    obtain ⟨⟨new, a⟩, hi, rfl⟩ := Option.map_eq_some_iff.mp hstep
    obtain ⟨b, hs, _, hfree, hpos, hlt, rfl⟩ := insertPrimitive_cases h.counters.1 hi
    have hnew : new ∉ leaked ++ w.agent.listed := fun hid => hfree ((h.tables.mem_iff new).mp hid)
    obtain ⟨_, hvalue, hother⟩ := (h.tables.congr hs).store hnew hpos hlt (.primitive n)
    change (b.store new (.primitive n)).get id = some value at hget
    by_cases hid : id = new
    · subst hid
      exact .inr (hvalue.symm.trans hget)
    · exact .inl ((hs.get id).symm.trans ((hother id hid).symm.trans hget))
  | openHandleScope =>
    cases hstep
    exact .inl hget
  | closeHandleScope scope =>
    cases hstep
    unfold World.closeHandleScope closeValueFrame at hget
    cases hf : w.agent.valueFrames with
    | nil =>
      rw [hf] at hget
      exact .inl hget
    | cons frame frames =>
      rw [hf] at hget
      dsimp only at hget
      split at hget
      · exact .inl hget
      · obtain ⟨hrest, hother⟩ := (h.popped hf).releases
        by_cases hid : id ∈ frame.handles
        · have hdisjoint := (nodup_append.mp (h.popped hf).nodup).2.2
          rw [hrest.get_eq_none_iff.mpr fun hmem => hdisjoint id hid id hmem rfl] at hget
          cases hget
        · exact .inl ((hother id hid).symm.trans hget)
  | escapeHandle scope escapee =>
    cases hstep
    left
    unfold HostJsAgent.escapeHandle at hget
    split at hget <;> exact hget

/-! ## The frame stack of a step -/

/-- The ids of the open frames, innermost first. -/
def frameIds (w : World) : List ℕ := w.agent.valueFrames.map ValueFrame.id

theorem insert_frameIds {b : HostJsAgent} (hnext : a.nextValueHandle < 2 ^ 32)
    (h : a.insert value = some (id, b)) :
    b.valueFrames.map ValueFrame.id = a.valueFrames.map ValueFrame.id := by
  rcases insert_cases hnext h with ⟨a', hs, _, _, _, _, rfl⟩ | ⟨_, hs, _⟩
  · rw [(store_eq a' id value).1, pushHandle_ids, hs.valueFrames]
  · rw [hs.valueFrames]

/-- Only the innermost frame can go, and only by its id. -/
theorem closeHandleScope_frameIds (w : World) (scope : ℕ) :
    (w.closeHandleScope scope).frameIds =
      if w.frameIds.head? = some scope then w.frameIds.tail else w.frameIds := by
  unfold frameIds World.closeHandleScope closeValueFrame
  cases hf : w.agent.valueFrames with
  | nil => simp [hf]
  | cons frame frames =>
    dsimp only
    split
    · next hne => simp [hf, hne]
    · next heq =>
      have hid : frame.id = scope := not_not.mp heq
      simp [hid, (releaseValueHandles_eq _ _).1]

/-- What a step makes of the frame stack. -/
def framesAfter (w : World) : Action → List ℕ
  | .openHandleScope => max w.agent.nextValueFrame 1 :: w.frameIds
  | .closeHandleScope scope =>
    if w.frameIds.head? = some scope then w.frameIds.tail else w.frameIds
  | _ => w.frameIds

theorem step_frameIds (hnext : w.agent.nextValueHandle < 2 ^ 32) (hstep : step w act = some u) :
    u.frameIds = w.framesAfter act := by
  cases act with
  | insert value =>
    obtain ⟨⟨id, a⟩, hi, rfl⟩ := Option.map_eq_some_iff.mp hstep
    exact insert_frameIds hnext hi
  | insertPrimitive n =>
    obtain ⟨⟨id, a⟩, hi, rfl⟩ := Option.map_eq_some_iff.mp hstep
    obtain ⟨b, hs, _, _, _, _, rfl⟩ := insertPrimitive_cases hnext hi
    show (b.store id _).valueFrames.map _ = _
    rw [(store_eq b id _).1, pushHandle_ids, hs.valueFrames]
    rfl
  | openHandleScope =>
    cases hstep
    rfl
  | closeHandleScope scope =>
    cases hstep
    exact closeHandleScope_frameIds w scope
  | escapeHandle scope escapee =>
    cases hstep
    unfold HostJsAgent.escapeHandle
    split
    · rfl
    · exact escapeFrom_ids _ _ _

/-- Outside the root frame's own close, the root stays. -/
theorem rooted_step (hstep : step w act = some u) (hsafe : Safe w act) (h : Sound w) :
    Rooted u.agent.valueFrames := by
  have hids := step_frameIds h.counters.1 hstep
  cases act with
  | insert value => exact h.rooted.congr hids
  | insertPrimitive n => exact h.rooted.congr hids
  | escapeHandle scope escapee => exact h.rooted.congr hids
  | openHandleScope =>
    cases hstep
    have hnext := h.counters.2
    exact h.rooted.cons (show max w.agent.nextValueFrame 1 ≠ 1 by omega)
  | closeHandleScope scope =>
    cases hf : w.agent.valueFrames with
    | nil =>
      obtain ⟨scopes, root, heq, _⟩ := h.rooted
      rw [hf] at heq
      simp at heq
    | cons frame frames =>
      have hrooted := h.rooted
      simp only [Safe, framesAfter, frameIds, hf, List.map_cons, List.head?_cons, List.tail_cons] at hids hsafe
      rw [hf] at hrooted
      split at hids
      · next hscope =>
        apply (hrooted.tail _).congr hids
        -- The innermost frame is not the root, or the root would be all there is.
        intro hone
        rw [hrooted.eq_nil hone] at hsafe
        exact hsafe (by rw [← Option.some.inj hscope]; rfl)
      · exact hrooted.congr hids

theorem frames_ne_nil (h : Sound w) : w.agent.valueFrames ≠ [] := by
  obtain ⟨scopes, root, heq, _⟩ := h.rooted
  rw [heq]
  simp

/-- A safe step keeps the tables sound, and no other does. -/
theorem step_sound_iff (hstep : step w act = some u) (h : Sound w) :
    Sound u ↔ Safe w act := by
  constructor
  · intro hu
    cases act with
    | insert value => trivial
    | insertPrimitive n => trivial
    | openHandleScope => trivial
    | closeHandleScope scope =>
      -- The root itself would be popped.
      intro hids
      have hids' := step_frameIds h.counters.1 hstep
      have hframes : w.frameIds = [scope] := hids
      rw [framesAfter, hframes] at hids'
      exact frames_ne_nil hu (List.map_eq_nil_iff.mp (hids'.trans (if_pos rfl)))
    | escapeHandle scope escapee =>
      intro hroot
      cases hstep
      have hperm := escapeFrom_root h.rooted hroot
      have hlisted : escapee ∈ w.agent.listed := hperm.mem_iff.mp (List.mem_cons_self ..)
      have hget : w.agent.get escapee ≠ none := fun hnone =>
        h.tables.get_eq_none_iff.mp hnone hlisted
      have hagent : (w.agent.escapeHandle scope escapee).2 =
          (w.agent.escapeValue scope escapee).2 := by
        rw [HostJsAgent.escapeHandle, if_neg hget]
      have hu' := hu.tables
      simp only [hagent] at hu'
      -- The handle is live still, and no frame lists it.
      have hmem := (hu'.mem_iff escapee).mpr ((h.tables.mem_iff escapee).mp hlisted)
      exact (List.nodup_cons.mp (hperm.nodup_iff.mpr h.tables.nodup)).1 hmem
  · intro hsafe
    obtain ⟨leaked, hkeeps, hleaked⟩ := (sound_iff_keeps.mp h).1.step hstep
    rw [hleaked hsafe (frames_ne_nil h)] at hkeeps
    exact sound_iff_keeps.mpr ⟨hkeeps, rooted_step hstep hsafe h⟩

/-- **The handle table.** A run keeps the tables sound in every state exactly when the guest
    never closes the root frame and never escapes one of the root's values from it. -/
theorem sound_iff {acts : List Action} (h : run step {} acts = some w) :
    AllStates step Sound {} acts ↔ AllSteps step Safe {} acts := by
  apply allStates_iff_of_step _ h Sound.init
  intro s act t hstep hs
  exact step_sound_iff hstep hs

/-- An object handed to the guest in a scope and escaped keeps its handle when the scope
    closes; its slot is reused after the outer frame has ended. -/
theorem escaped_sound : AllStates step Sound {} [.openHandleScope, .openHandleScope,
    .insert (.object 7), .escapeHandle 3 1, .closeHandleScope 3, .insert (.object 7),
    .closeHandleScope 2, .insertPrimitive 5] :=
  (sound_iff (show run step {} _ = some _ from rfl)).mpr (by decide)

/-- The guest names the root's id: its frame goes, and so does the place where values
    outside any scope are listed. -/
theorem closed_root_not_sound : ¬ AllStates step Sound {} [.closeHandleScope 1] := by
  intro h
  exact frames_ne_nil (h.2.1 _ rfl) rfl

end World

end WasmerNapi.HostJs