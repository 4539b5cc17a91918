import WasmerNapi.Lib.Run
import WasmerNapi.Lib.Table
import WasmerNapi.Lib.Vec
import WasmerNapi.Lib.Word

/-!
# The handle table of a host-JS agent

`HostJsAgent` gives every JavaScript value the guest sees a `u32` handle. Four tables do
it: the slots with their values, which of them are live, the slots free for reuse, and the
map from handles to slots. A stack of frames says when a handle ends: what is stored goes
into the innermost frame, and closing a frame releases its handles. An object that still
has a live handle keeps it.

`Tables` says how the four agree, with the live handles as a list; storing a value adds one
to the list and releasing it takes one out. Which frame lists which handle is `Scopes`.
-/

namespace WasmerNapi.HostJs

/-- Objects and functions have an identity, the other values only their content. -/
inductive JsValue
  | object (n : ℕ)
  | primitive (n : ℕ)
  deriving DecidableEq

def JsValue.undefined : JsValue := .primitive 0

structure ValueFrame where
  id : ℕ
  handles : List ℕ := []
  deriving DecidableEq

/-- The frames stand innermost first, and so do the free slots: the vectors' last elements
    are the lists' first. -/
structure HostJsAgent where
  values : List JsValue := []
  valueLive : List Bool := []
  valueFreeSlots : List ℕ := []
  valueHandles : AList fun _ : ℕ => ℕ := ∅
  nextValueHandle : ℕ := 1
  /-- The root frame owns values created outside an explicit handle scope and receives
      values escaped from the outermost scope. -/
  valueFrames : List ValueFrame := [{ id := 1 }]
  nextValueFrame : ℕ := 2
  objectIds : ℕ → Option ℕ := fun _ => none
  externals : ℕ → Option ℕ := fun _ => none
  backingTokens : ℕ → Option ℕ := fun _ => none
  typeTags : ℕ → Option (ℕ × ℕ) := fun _ => none

/-- The loop of `next_handle`: the first candidate that is not live, and the counter after
    it. -/
def scanHandles (handles : AList fun _ : ℕ => ℕ) : ℕ → ℕ → Option (ℕ × ℕ)
  | 0, _ => none
  | fuel + 1, next =>
    let candidate := max next 1
    let next' := max (Word.wrappingAdd 32 candidate 1) 1
    if candidate ∈ handles then scanHandles handles fuel next' else some (candidate, next')

/-- Per-handle data moves with the object to its new handle. -/
def rekey {α : Type*} (t : ℕ → Option α) (previous id : ℕ) : ℕ → Option α :=
  match t previous with
  | none => t
  | some v => Function.update (Function.update t previous none) id (some v)

namespace HostJsAgent

/-- One candidate more than there are live handles is enough; with no handle free at all
    the loop of the source does not end, and there is none here. -/
def nextHandle (a : HostJsAgent) : Option (ℕ × HostJsAgent) :=
  (scanHandles a.valueHandles (a.valueHandles.keys.length + 1) a.nextValueHandle).map
    fun r => (r.1, { a with nextValueHandle := r.2 })

/-- A slot for a value: the last one freed, else a new one. -/
def allocSlot (a : HostJsAgent) (value : JsValue) : ℕ × HostJsAgent :=
  match a.valueFreeSlots with
  | index :: free =>
    (index, { a with
      values := a.values.set index value
      valueLive := a.valueLive.set index true
      valueFreeSlots := free })
  | [] =>
    (Word.truncate 32 a.values.length, { a with
      values := a.values ++ [value]
      valueLive := a.valueLive ++ [true] })

def pushHandle (id : ℕ) : List ValueFrame → List ValueFrame
  | [] => []
  | frame :: frames => { frame with handles := frame.handles ++ [id] } :: frames

def store (a : HostJsAgent) (id : ℕ) (value : JsValue) : HostJsAgent :=
  let (index, a) := a.allocSlot value
  { a with
    valueHandles := a.valueHandles.insert id index
    valueFrames := pushHandle id a.valueFrames }

def get (a : HostJsAgent) (id : ℕ) : Option JsValue :=
  if id = 0 then none
  else
    match a.valueHandles.lookup id with
    | none => none
    | some index => if a.valueLive.getD index false then a.values[index]? else none

def insertPrimitive (a : HostJsAgent) (value : JsValue) : Option (ℕ × HostJsAgent) :=
  match a.nextHandle with
  | none => none
  | some (id, a) => some (id, a.store id value)

/-- The object moves to `id`, and so does its per-handle data, unless its old handle now
    names another value. -/
def moveObject (a : HostJsAgent) (object previous id : ℕ) : HostJsAgent :=
  let a := { a with objectIds := Function.update a.objectIds object (some id) }
  if previous ∈ a.valueHandles then a
  else { a with
    externals := rekey a.externals previous id
    backingTokens := rekey a.backingTokens previous id
    typeTags := rekey a.typeTags previous id }

/-- An object keeps the handle it already has while that handle is live. -/
def insert (a : HostJsAgent) (value : JsValue) : Option (ℕ × HostJsAgent) :=
  match a.nextHandle with
  | none => none
  | some (id, a) =>
    match value with
    | .primitive _ => some (id, a.store id value)
    | .object n =>
      match a.objectIds n with
      | none =>
        some (id, { a with objectIds := Function.update a.objectIds n (some id) }.store id value)
      | some previous =>
        -- The id just taken stays unused; it is handed out next time.
        if a.get previous = some value then some (previous, { a with nextValueHandle := id })
        else some (id, (a.moveObject n previous id).store id value)

def openValueFrame (a : HostJsAgent) : ℕ × HostJsAgent :=
  let id := max a.nextValueFrame 1
  (id, { a with
    nextValueFrame := Word.saturatingAdd 32 id 1
    valueFrames := { id } :: a.valueFrames })

def releaseValueHandle (a : HostJsAgent) (id : ℕ) : HostJsAgent :=
  if id = 0 then a
  else
    match a.valueHandles.lookup id with
    | none => a
    | some index =>
      let a := { a with valueHandles := a.valueHandles.erase id }
      if a.valueLive.getD index false then
        { a with
          valueLive := a.valueLive.set index false
          values := a.values.set index .undefined
          valueFreeSlots := index :: a.valueFreeSlots }
      else a

def releaseValueHandles (a : HostJsAgent) (handles : List ℕ) : HostJsAgent :=
  handles.foldl releaseValueHandle a

/-- Only the innermost frame can be closed. -/
def closeValueFrame (a : HostJsAgent) (id : ℕ) : Bool × HostJsAgent :=
  match a.valueFrames with
  | [] => (false, a)
  | frame :: frames =>
    if frame.id ≠ id then (false, a)
    else (true, { a with valueFrames := frames }.releaseValueHandles frame.handles)

/-- The search of `escape_value`, from the innermost frame outwards. The value has left its
    list before the root frame, which has no frame around it, is turned away. -/
def escapeFrom (frameId valueId : ℕ) : List ValueFrame → Bool × List ValueFrame
  | [] => (false, [])
  | frame :: frames =>
    if frame.id = frameId then
      match frame.handles.idxOf? valueId with
      | none => (false, frame :: frames)
      | some position =>
        let frame := { frame with handles := Vec.swapRemove frame.handles position }
        match frames with
        | [] => (false, [frame])
        | outer :: rest =>
          (true, frame :: { outer with handles := outer.handles ++ [valueId] } :: rest)
    else
      let r := escapeFrom frameId valueId frames
      (r.1, frame :: r.2)

def escapeValue (a : HostJsAgent) (frameId valueId : ℕ) : Bool × HostJsAgent :=
  let r := escapeFrom frameId valueId a.valueFrames
  (r.1, { a with valueFrames := r.2 })

/-- `snapi_bridge_escape_handle`: the handle keeps its number. -/
def escapeHandle (a : HostJsAgent) (scope escapee : ℕ) : Option ℕ × HostJsAgent :=
  if a.get escapee = none then (none, a)
  else
    let r := a.escapeValue scope escapee
    (if r.1 then some escapee else none, r.2)

end HostJsAgent

/-! ## What the tables say -/

namespace HostJsAgent

/-- The handles of the open frames. -/
def listed (a : HostJsAgent) : List ℕ := a.valueFrames.flatMap ValueFrame.handles

/-- `ids` are the live handles, each with a live slot of its own; the other slots are free. -/
structure Tables (a : HostJsAgent) (ids : List ℕ) : Prop where
  nodup : ids.Nodup
  mem_iff : ∀ id, id ∈ ids ↔ id ∈ a.valueHandles
  range : ∀ id ∈ ids, 0 < id ∧ id < 2 ^ 32
  live : ∀ {id index}, a.valueHandles.lookup id = some index → a.valueLive[index]? = some true
  injective : ∀ {id id' index}, a.valueHandles.lookup id = some index →
    a.valueHandles.lookup id' = some index → id = id'
  named : ∀ {index}, a.valueLive[index]? = some true → ∃ id, a.valueHandles.lookup id = some index
  length : a.valueLive.length = a.values.length
  free : a.valueFreeSlots.Nodup ∧ ∀ index, index ∈ a.valueFreeSlots ↔ a.valueLive[index]? = some false

variable {a : HostJsAgent} {ids : List ℕ} {id : ℕ}

theorem get_of_not_mem (h : id ∉ a.valueHandles) : a.get id = none := by
  rw [get, AList.lookup_eq_none.mpr h]
  split <;> rfl

theorem Tables.perm (h : Tables a ids) {ids' : List ℕ} (hp : ids.Perm ids') : Tables a ids' :=
  { h with
    nodup := hp.nodup_iff.mp h.nodup
    mem_iff := fun id => hp.mem_iff.symm.trans (h.mem_iff id)
    range := fun id hid => h.range id (hp.mem_iff.mpr hid) }

/-- The frames say which handles there are, and are no table. -/
theorem Tables.withFrames (h : Tables a ids) (frames : List ValueFrame) (next : ℕ) :
    Tables { a with valueFrames := frames, nextValueFrame := next } ids :=
  { h with }

theorem Tables.get_eq (h : Tables a ids) {index : ℕ} (hl : a.valueHandles.lookup id = some index) :
    a.get id = a.values[index]? := by
  have hid : id ∈ ids := (h.mem_iff id).mpr (AList.lookup_isSome.mp (by simp [hl]))
  have hpos : id ≠ 0 := (h.range id hid).1.ne'
  have hlive : a.valueLive.getD index false = true := by
    rw [List.getD_eq_getElem?_getD, h.live hl]
    rfl
  rw [get, if_neg hpos, hl]
  simp only [hlive, if_true]

theorem Tables.exists_get (h : Tables a ids) (hid : id ∈ ids) : ∃ v, a.get id = some v := by
  obtain ⟨index, hl⟩ := Option.isSome_iff_exists.mp (AList.lookup_isSome.mpr ((h.mem_iff id).mp hid))
  obtain ⟨hlt, _⟩ := List.getElem?_eq_some_iff.mp (h.live hl)
  rw [h.length] at hlt
  exact ⟨a.values[index], by rw [h.get_eq hl, List.getElem?_eq_getElem hlt]⟩

theorem Tables.get_eq_none_iff (h : Tables a ids) : a.get id = none ↔ id ∉ ids := by
  constructor
  · intro hnone hid
    obtain ⟨v, hv⟩ := h.exists_get hid
    rw [hnone] at hv
    cases hv
  · intro hid
    exact get_of_not_mem fun hmem => hid ((h.mem_iff id).mpr hmem)

/-- With no slot free there is a handle for every slot, so a slot's number fits a `u32`. -/
theorem Tables.length_lt (h : Tables a ids) (hfree : a.valueFreeSlots = []) :
    a.values.length < 2 ^ 32 := by
  have hnamed : ∀ i, ∃ id, i < a.values.length → a.valueHandles.lookup id = some i := by
    intro i
    by_cases hi : i < a.values.length
    · rw [← h.length] at hi
      obtain ⟨id, hl⟩ : ∃ id, a.valueHandles.lookup id = some i := by
        apply h.named
        rw [List.getElem?_eq_getElem hi]
        cases hb : a.valueLive[i] with
        | true => rfl
        | false =>
          have hmem := (h.free.2 i).mpr (by rw [List.getElem?_eq_getElem hi, hb])
          rw [hfree] at hmem
          cases hmem
      exact ⟨id, fun _ => hl⟩
    · exact ⟨0, fun hlt => absurd hlt hi⟩
  choose g hg using hnamed
  have hcard : (Finset.range a.values.length).card ≤ (Finset.Ico 1 (2 ^ 32)).card := by
    apply Finset.card_le_card_of_injOn g
    · intro i hi
      have hl := hg i (Finset.mem_range.mp hi)
      have hmem : g i ∈ a.valueHandles := AList.lookup_isSome.mp (by rw [hl]; rfl)
      have hr := h.range _ ((h.mem_iff _).mpr hmem)
      exact Finset.mem_coe.mpr (Finset.mem_Ico.mpr hr)
    · intro i hi j hj hij
      have hl := hg i (Finset.mem_range.mp hi)
      have hl' := hg j (Finset.mem_range.mp hj)
      rw [hij, hl'] at hl
      exact (Option.some.inj hl).symm
  rw [Finset.card_range, Nat.card_Ico] at hcard
  omega

/-- The slot given out was not live, and now it is and holds the value. -/
theorem Tables.allocSlot (h : Tables a ids) (value : JsValue) :
    ∃ index values live free,
      a.allocSlot value =
        (index, { a with values := values, valueLive := live, valueFreeSlots := free }) ∧
      a.valueLive[index]? ≠ some true ∧
      (∀ i, values[i]? = if i = index then some value else a.values[i]?) ∧
      (∀ i, live[i]? = if i = index then some true else a.valueLive[i]?) ∧
      live.length = values.length ∧ free.Nodup ∧ ∀ i, i ∈ free ↔ live[i]? = some false := by
  cases hf : a.valueFreeSlots with
  | cons index rest =>
    obtain ⟨hnodup, hfree⟩ := h.free
    rw [hf] at hnodup hfree
    have hfalse := (hfree index).mp (List.mem_cons_self ..)
    obtain ⟨hlt, _⟩ := List.getElem?_eq_some_iff.mp hfalse
    have hlt' : index < a.values.length := h.length ▸ hlt
    have hlive : ∀ i, (a.valueLive.set index true)[i]? =
        if i = index then some true else a.valueLive[i]? := by
      intro i
      rw [List.getElem?_set]
      by_cases hi : i = index
      · simp [hi, hlt]
      · simp [hi, Ne.symm hi]
    refine ⟨index, a.values.set index value, a.valueLive.set index true, rest, ?_, ?_, ?_, hlive, ?_, ?_, ?_⟩
    · simp only [HostJsAgent.allocSlot, hf]
    · rw [hfalse]
      simp
    · intro i
      rw [List.getElem?_set]
      by_cases hi : i = index
      · simp [hi, hlt']
      · simp [hi, Ne.symm hi]
    · rw [List.length_set, List.length_set, h.length]
    · exact (List.nodup_cons.mp hnodup).2
    · intro i
      rw [hlive]
      have hnot := (List.nodup_cons.mp hnodup).1
      by_cases hi : i = index
      · subst hi
        simp [hnot]
      · rw [if_neg hi, ← hfree i, List.mem_cons]
        simp [hi]
  | nil =>
    have hlt := h.length_lt hf
    have hindex : Word.truncate 32 a.values.length = a.values.length := Nat.mod_eq_of_lt hlt
    have hlive : ∀ i, (a.valueLive ++ [true])[i]? =
        if i = a.values.length then some true else a.valueLive[i]? := by
      intro i
      rw [← h.length]
      grind
    refine ⟨a.values.length, a.values ++ [value], a.valueLive ++ [true], [], ?_, ?_, ?_, hlive, ?_, ?_, ?_⟩
    · simp only [HostJsAgent.allocSlot, hf, hindex]
    · rw [← h.length, List.getElem?_eq_none le_rfl]
      simp
    · intro i
      grind
    · rw [List.length_append, List.length_append, h.length]
      rfl
    · exact List.nodup_nil
    · intro i
      have hnone := h.free.2 i
      rw [hf] at hnone
      rw [hlive]
      by_cases hi : i = a.values.length
      · simp [hi]
      · rw [if_neg hi, ← hnone]

theorem Tables.store (h : Tables a ids) (hid : id ∉ ids) (hpos : 0 < id) (hlt : id < 2 ^ 32)
    (value : JsValue) :
    Tables (a.store id value) (id :: ids) ∧ (a.store id value).get id = some value ∧
      ∀ id', id' ≠ id → (a.store id value).get id' = a.get id' := by
  obtain ⟨index, values, live, free, heq, hnew, hvalues, hlive, hlength, hnodup, hfree⟩ :=
    h.allocSlot value
  have hstore : a.store id value = { a with
      values := values, valueLive := live, valueFreeSlots := free
      valueHandles := a.valueHandles.insert id index
      valueFrames := pushHandle id a.valueFrames } := by
    rw [HostJsAgent.store, heq]
  have hne : ∀ {id' i}, a.valueHandles.lookup id' = some i → i ≠ index := by
    rintro id' i hl rfl
    exact hnew (h.live hl)
  have htables : Tables (a.store id value) (id :: ids) := by
    rw [hstore]
    exact {
      nodup := List.nodup_cons.mpr ⟨hid, h.nodup⟩
      mem_iff id' := by
        rw [List.mem_cons, AList.mem_insert, h.mem_iff]
      range id' hmem := by
        rcases List.mem_cons.mp hmem with heq' | hmem'
        · subst heq'
          exact ⟨hpos, hlt⟩
        · exact h.range id' hmem'
      live := by
        intro id' i hl
        rw [hlive]
        rcases Table.lookup_insert_iff.mp hl with ⟨_, hi⟩ | ⟨_, hl'⟩
        · rw [if_pos hi]
        · rw [if_neg (hne hl'), h.live hl']
      injective := by
        intro id₁ id₂ i hl₁ hl₂
        rcases Table.lookup_insert_iff.mp hl₁ with ⟨h₁, hi₁⟩ | ⟨_, hl₁'⟩ <;>
          rcases Table.lookup_insert_iff.mp hl₂ with ⟨h₂, hi₂⟩ | ⟨_, hl₂'⟩
        · rw [h₁, h₂]
        · exact absurd hi₁ (hne hl₂')
        · exact absurd hi₂ (hne hl₁')
        · exact h.injective hl₁' hl₂'
      named := by
        intro i hi
        rw [hlive] at hi
        by_cases hindex : i = index
        · subst hindex
          exact ⟨id, AList.lookup_insert _⟩
        · rw [if_neg hindex] at hi
          obtain ⟨id', hl⟩ := h.named hi
          have hid' : id' ≠ id := by
            rintro rfl
            exact hid ((h.mem_iff _).mpr (AList.lookup_isSome.mp (by rw [hl]; rfl)))
          exact ⟨id', Table.lookup_insert_iff.mpr (Or.inr ⟨hid', hl⟩)⟩
      length := hlength
      free := ⟨hnodup, hfree⟩ }
  refine ⟨htables, ?_, ?_⟩
  · have hl : (a.store id value).valueHandles.lookup id = some index := by
      rw [hstore]
      exact AList.lookup_insert _
    rw [htables.get_eq hl, hstore]
    exact (hvalues index).trans (if_pos rfl)
  · intro id' hid'
    by_cases hmem : id' ∈ a.valueHandles
    · obtain ⟨i, hl⟩ := Option.isSome_iff_exists.mp (AList.lookup_isSome.mpr hmem)
      have hl' : (a.store id value).valueHandles.lookup id' = some i := by
        rw [hstore]
        exact Table.lookup_insert_iff.mpr (Or.inr ⟨hid', hl⟩)
      rw [htables.get_eq hl', h.get_eq hl, hstore]
      exact (hvalues i).trans (if_neg (hne hl))
    · rw [get_of_not_mem hmem, get_of_not_mem]
      rw [hstore, AList.mem_insert]
      simp [hid', hmem]

theorem Tables.release (h : Tables a (id :: ids)) :
    Tables (a.releaseValueHandle id) ids ∧
      ∀ id', id' ≠ id → (a.releaseValueHandle id).get id' = a.get id' := by
  obtain ⟨hid, hnodup⟩ := List.nodup_cons.mp h.nodup
  have hmem := List.mem_cons_self (l := ids) (a := id)
  obtain ⟨index, hl⟩ :=
    Option.isSome_iff_exists.mp (AList.lookup_isSome.mpr ((h.mem_iff id).mp hmem))
  have htrue := h.live hl
  obtain ⟨hlt, _⟩ := List.getElem?_eq_some_iff.mp htrue
  have hlt' : index < a.values.length := h.length ▸ hlt
  have hgetD : a.valueLive.getD index false = true := by
    rw [List.getD_eq_getElem?_getD, htrue]
    rfl
  have hrelease : a.releaseValueHandle id = { a with
      valueHandles := a.valueHandles.erase id
      valueLive := a.valueLive.set index false
      values := a.values.set index .undefined
      valueFreeSlots := index :: a.valueFreeSlots } := by
    rw [releaseValueHandle, if_neg (h.range id hmem).1.ne', hl]
    simp only [hgetD, if_true]
  have hlive : ∀ i, (a.valueLive.set index false)[i]? =
      if i = index then some false else a.valueLive[i]? := by
    intro i
    rw [List.getElem?_set]
    by_cases hi : i = index
    · simp [hi, hlt]
    · simp [hi, Ne.symm hi]
  -- The slot was this handle's alone.
  have hne : ∀ {id' i}, a.valueHandles.lookup id' = some i → id' ≠ id → i ≠ index := by
    rintro id' i hl' hid' rfl
    exact hid' (h.injective hl' hl)
  have htables : Tables (a.releaseValueHandle id) ids := by
    rw [hrelease]
    exact {
      nodup := hnodup
      mem_iff id' := by
        rw [AList.mem_erase, ← h.mem_iff, List.mem_cons]
        constructor
        · intro hid'
          exact ⟨fun heq => hid (heq ▸ hid'), Or.inr hid'⟩
        · rintro ⟨hne', heq | hid'⟩
          · exact absurd heq hne'
          · exact hid'
      range := fun id' hid' => h.range id' (List.mem_cons_of_mem _ hid')
      live := by
        intro id' i hl'
        obtain ⟨hid', hold⟩ := Table.lookup_erase_iff.mp hl'
        rw [hlive, if_neg (hne hold hid')]
        exact h.live hold
      injective := by
        intro id₁ id₂ i hl₁ hl₂
        exact h.injective (Table.lookup_erase_iff.mp hl₁).2 (Table.lookup_erase_iff.mp hl₂).2
      named := by
        intro i hi
        rw [hlive] at hi
        by_cases hindex : i = index
        · rw [if_pos hindex] at hi
          cases hi
        · rw [if_neg hindex] at hi
          obtain ⟨id', hl'⟩ := h.named hi
          have hid' : id' ≠ id := by
            rintro rfl
            exact hindex (Option.some.inj (hl'.symm.trans hl))
          exact ⟨id', Table.lookup_erase_iff.mpr ⟨hid', hl'⟩⟩
      length := by
        rw [List.length_set, List.length_set, h.length]
      free := by
        obtain ⟨hfreeNodup, hfree⟩ := h.free
        constructor
        · apply List.nodup_cons.mpr
          refine ⟨?_, hfreeNodup⟩
          rw [hfree, htrue]
          simp
        · intro i
          rw [hlive, List.mem_cons, hfree]
          by_cases hindex : i = index
          · simp [hindex]
          · simp [hindex] }
  refine ⟨htables, ?_⟩
  intro id' hid'
  by_cases hmem' : id' ∈ a.valueHandles
  · obtain ⟨i, hl'⟩ := Option.isSome_iff_exists.mp (AList.lookup_isSome.mpr hmem')
    have hl'' : (a.releaseValueHandle id).valueHandles.lookup id' = some i := by
      rw [hrelease]
      exact Table.lookup_erase_iff.mpr ⟨hid', hl'⟩
    rw [htables.get_eq hl'', h.get_eq hl', hrelease]
    exact List.getElem?_set_ne (hne hl' hid').symm
  · rw [get_of_not_mem hmem', get_of_not_mem]
    rw [hrelease, AList.mem_erase]
    simp [hmem']

theorem releaseValueHandle_eq (a : HostJsAgent) (id : ℕ) :
    (a.releaseValueHandle id).valueFrames = a.valueFrames ∧
      (a.releaseValueHandle id).nextValueHandle = a.nextValueHandle ∧
      (a.releaseValueHandle id).nextValueFrame = a.nextValueFrame := by
  unfold releaseValueHandle
  dsimp only
  repeat' split
  all_goals exact ⟨rfl, rfl, rfl⟩

theorem releaseValueHandles_eq (handles : List ℕ) (a : HostJsAgent) :
    (a.releaseValueHandles handles).valueFrames = a.valueFrames ∧
      (a.releaseValueHandles handles).nextValueHandle = a.nextValueHandle ∧
      (a.releaseValueHandles handles).nextValueFrame = a.nextValueFrame := by
  induction handles generalizing a with
  | nil => exact ⟨rfl, rfl, rfl⟩
  | cons id handles ih =>
    obtain ⟨hframes, hhandle, hframe⟩ := releaseValueHandle_eq a id
    obtain ⟨hframes', hhandle', hframe'⟩ := ih (a.releaseValueHandle id)
    exact ⟨hframes'.trans hframes, hhandle'.trans hhandle, hframe'.trans hframe⟩

theorem Tables.releases {handles : List ℕ} (h : Tables a (handles ++ ids)) :
    Tables (a.releaseValueHandles handles) ids ∧
      ∀ id', id' ∉ handles → (a.releaseValueHandles handles).get id' = a.get id' := by
  induction handles generalizing a with
  | nil => exact ⟨h, fun _ _ => rfl⟩
  | cons id handles ih =>
    obtain ⟨htables, hget⟩ := h.release
    obtain ⟨htables', hget'⟩ := ih htables
    refine ⟨htables', ?_⟩
    intro id' hid'
    rw [List.mem_cons, not_or] at hid'
    exact (hget' id' hid'.2).trans (hget id' hid'.1)

/-! ## What an insert does -/

/-- The other agent differs only where the tables do not look. -/
structure SameTables (a b : HostJsAgent) : Prop where
  values : b.values = a.values
  valueLive : b.valueLive = a.valueLive
  valueFreeSlots : b.valueFreeSlots = a.valueFreeSlots
  valueHandles : b.valueHandles = a.valueHandles
  valueFrames : b.valueFrames = a.valueFrames
  nextValueFrame : b.nextValueFrame = a.nextValueFrame

variable {b : HostJsAgent}

theorem SameTables.get (h : SameTables a b) (id : ℕ) : b.get id = a.get id := by
  rw [HostJsAgent.get, HostJsAgent.get, h.valueHandles, h.valueLive, h.values]

theorem SameTables.listed (h : SameTables a b) : b.listed = a.listed := by
  rw [HostJsAgent.listed, HostJsAgent.listed, h.valueFrames]

theorem Tables.congr (h : Tables a ids) (hs : SameTables a b) : Tables b ids where
  nodup := h.nodup
  mem_iff := by
    rw [hs.valueHandles]
    exact h.mem_iff
  range := h.range
  live := by
    rw [hs.valueHandles, hs.valueLive]
    exact h.live
  injective := by
    rw [hs.valueHandles]
    exact h.injective
  named := by
    rw [hs.valueHandles, hs.valueLive]
    exact h.named
  length := by rw [hs.values, hs.valueLive, h.length]
  free := by
    rw [hs.valueFreeSlots, hs.valueLive]
    exact h.free

theorem moveObject_sameTables (a : HostJsAgent) (object previous id : ℕ) :
    SameTables a (a.moveObject object previous id) := by
  unfold moveObject
  dsimp only
  split <;> exact ⟨rfl, rfl, rfl, rfl, rfl, rfl⟩

theorem store_eq (a : HostJsAgent) (id : ℕ) (value : JsValue) :
    (a.store id value).valueFrames = pushHandle id a.valueFrames ∧
      (a.store id value).nextValueFrame = a.nextValueFrame ∧
      (a.store id value).nextValueHandle = a.nextValueHandle := by
  unfold store allocSlot
  cases a.valueFreeSlots <;> exact ⟨rfl, rfl, rfl⟩

/-- `next_handle` never issues an id that is live. -/
theorem scanHandles_spec {handles : AList fun _ : ℕ => ℕ} {fuel next id next' : ℕ}
    (hnext : next < 2 ^ 32) (h : scanHandles handles fuel next = some (id, next')) :
    id ∉ handles ∧ 0 < id ∧ id < 2 ^ 32 ∧ next' < 2 ^ 32 := by
  induction fuel generalizing next with
  | zero => cases h
  | succ fuel ih =>
    have hwrap : max (Word.wrappingAdd 32 (max next 1) 1) 1 < 2 ^ 32 :=
      max_lt (Nat.mod_lt _ (by decide)) (by decide)
    unfold scanHandles at h
    dsimp only at h
    split at h
    · exact ih hwrap h
    · next hfree =>
      obtain ⟨rfl, rfl⟩ := Prod.mk.inj (Option.some.inj h)
      exact ⟨hfree, by omega, by omega, hwrap⟩

theorem nextHandle_spec (hnext : a.nextValueHandle < 2 ^ 32) (h : a.nextHandle = some (id, b)) :
    id ∉ a.valueHandles ∧ 0 < id ∧ id < 2 ^ 32 ∧ SameTables a b ∧ b.nextValueHandle < 2 ^ 32 ∧
      b.objectIds = a.objectIds := by
  obtain ⟨⟨i, next⟩, hscan, heq⟩ := Option.map_eq_some_iff.mp h
  obtain ⟨rfl, rfl⟩ := Prod.mk.inj heq
  obtain ⟨hfree, hpos, hlt, hnext'⟩ := scanHandles_spec hnext hscan
  exact ⟨hfree, hpos, hlt, ⟨rfl, rfl, rfl, rfl, rfl, rfl⟩, hnext', rfl⟩

/-- An insert stores the value under an id that was not live, or finds it live. -/
theorem insert_cases (hnext : a.nextValueHandle < 2 ^ 32) {value : JsValue}
    (h : a.insert value = some (id, b)) :
    (∃ a', SameTables a a' ∧ a'.nextValueHandle < 2 ^ 32 ∧ id ∉ a.valueHandles ∧ 0 < id ∧
      id < 2 ^ 32 ∧ b = a'.store id value) ∨
    (a.get id = some value ∧ SameTables a b ∧ b.nextValueHandle < 2 ^ 32) := by
  unfold HostJsAgent.insert at h
  cases hn : a.nextHandle with
  | none =>
    rw [hn] at h
    cases h
  | some r =>
    obtain ⟨i, a'⟩ := r
    obtain ⟨hfree, hpos, hlt, hsame, hnext', hobjects⟩ := nextHandle_spec hnext hn
    rw [hn] at h
    cases value with
    | primitive n =>
      obtain ⟨rfl, rfl⟩ := Prod.mk.inj (Option.some.inj h)
      exact Or.inl ⟨a', hsame, hnext', hfree, hpos, hlt, rfl⟩
    | object n =>
      dsimp only at h
      cases ho : a'.objectIds n with
      | none =>
        rw [ho] at h
        obtain ⟨rfl, rfl⟩ := Prod.mk.inj (Option.some.inj h)
        refine Or.inl ⟨{ a' with objectIds := Function.update a'.objectIds n (some i) }, ?_, hnext',
          hfree, hpos, hlt, rfl⟩
        exact ⟨hsame.1, hsame.2, hsame.3, hsame.4, hsame.5, hsame.6⟩
      | some previous =>
        rw [ho] at h
        dsimp only at h
        split at h
        · next hget =>
          obtain ⟨rfl, rfl⟩ := Prod.mk.inj (Option.some.inj h)
          rw [hsame.get] at hget
          exact Or.inr ⟨hget, ⟨hsame.1, hsame.2, hsame.3, hsame.4, hsame.5, hsame.6⟩, hlt⟩
        · obtain ⟨rfl, rfl⟩ := Prod.mk.inj (Option.some.inj h)
          have hmove := moveObject_sameTables a' n previous i
          refine Or.inl ⟨_, ⟨?_, ?_, ?_, ?_, ?_, ?_⟩, ?_, hfree, hpos, hlt, rfl⟩
          · rw [hmove.values, hsame.values]
          · rw [hmove.valueLive, hsame.valueLive]
          · rw [hmove.valueFreeSlots, hsame.valueFreeSlots]
          · rw [hmove.valueHandles, hsame.valueHandles]
          · rw [hmove.valueFrames, hsame.valueFrames]
          · rw [hmove.nextValueFrame, hsame.nextValueFrame]
          · unfold moveObject
            dsimp only
            split <;> exact hnext'

theorem insertPrimitive_cases (hnext : a.nextValueHandle < 2 ^ 32) {value : JsValue}
    (h : a.insertPrimitive value = some (id, b)) :
    ∃ a', SameTables a a' ∧ a'.nextValueHandle < 2 ^ 32 ∧ id ∉ a.valueHandles ∧ 0 < id ∧
      id < 2 ^ 32 ∧ b = a'.store id value := by
  unfold insertPrimitive at h
  cases hn : a.nextHandle with
  | none =>
    rw [hn] at h
    cases h
  | some r =>
    obtain ⟨i, a'⟩ := r
    obtain ⟨hfree, hpos, hlt, hsame, hnext', _⟩ := nextHandle_spec hnext hn
    rw [hn] at h
    obtain ⟨rfl, rfl⟩ := Prod.mk.inj (Option.some.inj h)
    exact ⟨a', hsame, hnext', hfree, hpos, hlt, rfl⟩

end HostJsAgent

end WasmerNapi.HostJs
