import WasmerNapi.Quickjs.AddFinalizer

/-!
# `napi_wrap` of the QuickJS engine

`src/quickjs/src/js_native_api_quickjs.cc`, with `napi_external__::get_wrap_record` of
`internal/napi_external.cc`. A wrap is a hint, the hint is the opaque pointer of a record, and
the record is in the property `__napi_wrap__` of the object. Who has the record has the wrap:
a script that copies the property gives the wrap to a second object, and one that passes the
record itself to `napi_unwrap` reads the pointer from it. An object that takes no property frees
the record at once, which runs the finalizer, while `napi_wrap` returns `napi_ok`.

`last` keeps what the embedder has been told, and `wraps_last` is about runs in which
`napi_unwrap` goes by it.
-/

namespace WasmerNapi.Quickjs.Records.Wraps

open Function (update update_self update_of_ne)
open Run

/-- What a call is made on. A record is an object too, for a script that holds it. -/
inductive Target where
  | object (o : ℕ)
  | record (r : ℕ)
  deriving DecidableEq

/-- The hint of call number `w`, and the record made for it, have that number. `holder` is the
    record whose opaque pointer is the hint, and `none` when there is none any more. -/
structure State extends Heap where
  next : ℕ := 0
  external : ℕ → Bool := fun _ => false
  target : ℕ → Target := fun _ => .object 0
  data : ℕ → ℕ := fun _ => 0
  holder : ℕ → Option ℕ := fun _ => none
  accepted : ℕ → Bool := fun _ => false
  removed : ℕ → Bool := fun _ => false
  runs : ℕ → ℕ := fun _ => 0
  /-- By the calls that returned `napi_ok`. -/
  last : Target → Option ℕ := fun _ => none
  /-- Every `napi_unwrap` so far answered by `last`. -/
  answered : Bool := true
  /-- A hint was freed with a record still pointing to it, or has come to have two. -/
  faulted : Bool := false
  released : Bool := false

/-- What `JS_GetPropertyStr` answers on a proxy. -/
inductive Got where
  | threw
  | record (r : ℕ)
  | external
  | other
  deriving DecidableEq

/-- `looked` is the record that `JS_GetOwnProperty` finds where the heap does not say: on a proxy
    and on a record. -/
inductive Act where
  | newExternal
  /-- `memory`: there was memory for the hint and the record. `reference`:
      `napi_create_reference`, if it was asked for, succeeded. -/
  | wrap (t : Target) (looked : Option ℕ) (p : ℕ) (memory : Bool) (definition : Definition)
      (reference : Bool)
  | unwrap (t : Target) (looked : Option ℕ)
  | removeWrap (t : Target) (looked : Option ℕ) (got : Got) (deleted : Bool)
  | script (op : Script)
  | release
  deriving DecidableEq

namespace State

/-- `JS_GetOpaque` of a record. -/
def hintOf (s : State) (r : ℕ) : Option ℕ := (List.range s.next).find? fun w => s.holder w = some r

/-- The record in the own property of an object. -/
def own (s : State) (o : ℕ) (looked : Option ℕ) : Option ℕ :=
  (s.objects o).bind fun obj => if obj.proxy then looked else obj.record?

/-- `napi_external__::get_wrap_record`. -/
def getWrapRecord (s : State) (t : Target) (looked : Option ℕ) : Option ℕ :=
  match t with
  | .object o => (s.own o looked).bind s.hintOf
  | .record r => (s.hintOf r).or (looked.bind s.hintOf)

/-- The target is there to be passed, and so is what it answers with. -/
def present (s : State) (t : Target) (looked : Option ℕ) : Bool :=
  (match t with
    | .object o => (s.objects o).isSome
    | .record r => decide (0 < s.held r)) &&
  looked.all fun r => 0 < s.held r

/-- Records without a reference are freed: `napi_external__::finalizer`. -/
def sweep (s : State) : State :=
  { s with
    holder := fun w => (s.holder w).filter fun r => s.referenced r
    runs := fun w =>
      if (s.holder w).any (fun r => !s.referenced r) && !s.released then s.runs w + 1
      else s.runs w }

/-- The hint has record `r`, and the call returns. -/
def settle (s : State) (t : Target) (p : ℕ) (hp : Heap) (r : ℕ) (accepted : Bool) : State :=
  { s with
    toHeap := hp
    next := s.next + 1
    target := update s.target s.next t
    data := update s.data s.next p
    holder := update s.holder s.next (some r)
    accepted := update s.accepted s.next accepted
    last := if accepted then update s.last t (some p) else s.last }.sweep

def isExternal (s : State) : Target → Bool
  | .object o => s.external o
  | .record _ => false

/-- `napi_wrap`. -/
def wrap (s : State) (t : Target) (looked : Option ℕ) (p : ℕ) (memory : Bool)
    (definition : Definition) (reference : Bool) : Option State :=
  if !s.present t looked then none
  -- A released env has no context: `napi_invalid_arg`.
  else if s.released then some s
  else if s.isExternal t then some s
  else if (s.getWrapRecord t looked).isSome then some s
  else if !memory then some { s with next := s.next + 1 }
  else
    match t with
    -- `JS_SetOpaque` succeeds.
    | .record r => some (s.settle t p s.toHeap r reference)
    | .object o =>
      match s.objects o with
      | none => none
      | some obj =>
        match definition, obj.proxy with
        | .threw, _ => some (s.settle t p s.toHeap s.next false)
        | .own, false =>
          match obj.attach s.next with
          | some obj => some (s.settle t p (s.set o (some obj)) s.next reference)
          | none => some (s.settle t p s.toHeap s.next reference)
        | .kept, true =>
          some (s.settle t p { s.toHeap with held := update s.held s.next 1 } s.next
            reference)
        | .lost, true => some (s.settle t p s.toHeap s.next reference)
        | _, _ => none

/-- `napi_unwrap`: the pointer it returns with `napi_ok`. -/
def unwrap (s : State) (t : Target) (looked : Option ℕ) : Option ℕ :=
  if s.released then none else (s.getWrapRecord t looked).map s.data

/-- The hint is destroyed, and its record has no opaque pointer. -/
def clear (s : State) (t : Target) (w : ℕ) (hp : Heap) : State :=
  { s with
    toHeap := hp
    holder := update s.holder w none
    removed := update s.removed w true
    last := update s.last t none }.sweep

def fault (s : State) : State := { s with faulted := true }

/-- `napi_remove_wrap`. On a proxy, `got` is what it reads the property back as, and `deleted`
    whether `JS_DeleteProperty` comes through without an exception. -/
def removeWrap (s : State) (t : Target) (looked : Option ℕ) (got : Got) (deleted : Bool) :
    Option State :=
  if !s.present t looked then none
  else if s.released then some s
  else
    match s.getWrapRecord t looked with
    | none => some s
    | some w =>
      match t with
      | .record r => if s.holder w = some r then some (s.clear t w s.toHeap) else some s.fault
      | .object o =>
        -- `JS_SetOpaque` takes the pointer from the external, and not from the record.
        if s.external o then some s.fault
        else
          match s.objects o with
          | none => none
          | some obj =>
            if !obj.proxy then some (s.clear t w (s.set o (some (obj.delete.getD obj))))
            else
              match got with
              | .threw => some s
              | .external => some s.fault
              | .other => if deleted then some s.fault else some s
              | .record r =>
                if s.holder w ≠ some r then some s.fault
                else if deleted then some (s.clear t w s.toHeap)
                else some s

/-- `prepare_teardown`: what has yet to run runs, and nothing does afterwards. -/
def release (s : State) : State :=
  { s with
    released := true
    runs := fun w => if (s.holder w).isSome && !s.released then s.runs w + 1 else s.runs w }

end State

/-- Nothing is said about what follows a fault. -/
def step (s : State) (a : Act) : Option State :=
  if s.faulted then none
  else
    match a with
    | .newExternal =>
      (s.script (.newObject false)).map fun hp =>
        { s with toHeap := hp, external := update s.external s.nextObject true }.sweep
    | .wrap t looked p memory definition reference => s.wrap t looked p memory definition reference
    | .unwrap t looked =>
      if !s.present t looked then none
      else some { s with
        answered := s.answered && (s.released || decide (s.unwrap t looked = s.last t)) }
    | .removeWrap t looked got deleted => s.removeWrap t looked got deleted
    | .script op => (s.script op).map fun hp => { s with toHeap := hp }.sweep
    | .release => some s.release

/-- What the embedder can rely on. -/
structure Wrapped (s : State) : Prop where
  unwrap : s.released = false → ∀ o obj, s.objects o = some obj → obj.proxy = false →
    s.unwrap (.object o) none = s.last (.object o)
  answered : s.answered = true
  failed : ∀ w, w < s.next → s.accepted w = false → s.runs w = 0
  removed : ∀ w, s.removed w = true → s.runs w = 0
  sound : s.faulted = false

/-- An object that is neither a proxy nor a record. -/
def Plain (s : State) : Target → Prop
  | .object o => (s.objects o).all (fun obj => !obj.proxy) = true
  | .record _ => False

instance (s : State) : ∀ t, Decidable (Plain s t)
  | .object _ => inferInstanceAs (Decidable (_ = _))
  | .record _ => inferInstanceAs (Decidable False)

/-- The object takes a new property, or replaces the one it has. -/
def Takes (s : State) : Target → Prop
  | .object o => ((s.objects o).bind fun obj => obj.attach s.next).isSome = true
  | .record _ => False

instance (s : State) : ∀ t, Decidable (Takes s t)
  | .object _ => inferInstanceAs (Decidable (_ = _))
  | .record _ => inferInstanceAs (Decidable False)

/-- Hint `w` is there, and its record in the slot of the object it was put on. -/
structure InPlace (s : State) (hp : Heap) (w o : ℕ) : Prop where
  target : s.target w = .object o
  holder : s.holder w ≠ none
  record : hp.recordOf o = some w

instance (s : State) (hp : Heap) (w o : ℕ) : Decidable (InPlace s hp w o) :=
  decidable_of_iff (s.target w = .object o ∧ s.holder w ≠ none ∧ hp.recordOf o = some w)
    ⟨fun h => ⟨h.1, h.2.1, h.2.2⟩, fun h => ⟨h.1, h.2, h.3⟩⟩

/-- A script leaves the records that have a hint where they are, as long as the object is alive,
    and puts them nowhere else. -/
def Leaves (s : State) (op : Script) (hp : Heap) : Prop :=
  (∀ o < s.nextObject, ∀ w < s.next, InPlace s s.toHeap w o → InPlace s hp w o ∨ op = .die o) ∧
  ∀ o < hp.nextObject, ∀ w < s.next, hp.recordOf o = some w → s.holder w ≠ none → InPlace s hp w o

instance (s : State) (op : Script) (hp : Heap) : Decidable (Leaves s op hp) :=
  inferInstanceAs (Decidable (_ ∧ _))

instance (s : State) (op : Script) : Decidable (∀ hp, s.script op = some hp → Leaves s op hp) :=
  inferInstanceAs (Decidable (∀ hp ∈ s.script op, Leaves s op hp))

/-- The steps that keep a wrap to its object. -/
def Safe (s : State) : Act → Prop
  | .wrap t looked _ memory definition reference =>
    s.released = true ∨ Plain s t ∧
      (s.isExternal t = true ∨ s.getWrapRecord t looked ≠ none ∨ memory = false ∨
        definition = .own ∧ reference = true ∧ Takes s t)
  | .unwrap t _ | .removeWrap t _ _ _ => s.released = true ∨ Plain s t
  | .script op => s.released = true ∨ ∀ hp, s.script op = some hp → Leaves s op hp
  | .newExternal | .release => True

instance decidableSafe (s : State) : ∀ a, Decidable (Safe s a)
  | .wrap _ _ _ _ _ _ => inferInstanceAs (Decidable (_ ∨ _ ∧ (_ ∨ _ ∨ _ ∨ _)))
  | .unwrap _ _ | .removeWrap _ _ _ _ | .script _ => inferInstanceAs (Decidable (_ ∨ _))
  | .newExternal | .release => inferInstanceAs (Decidable True)

/-! ## The invariant -/

/-- A hint is in the record made for it, and that in the slot of its object while the object is
    alive; what is in a slot is of this object or has no hint; and `last` goes by the slots. -/
structure Placed (s : State) : Prop where
  formed : Formed s.toHeap
  known : ∀ r, s.referenced r = true → r < s.next
  holder : ∀ w r, s.holder w = some r → r = w ∧ w < s.next
  ready : ∀ w, s.holder w ≠ none → s.accepted w = true ∧ s.removed w = false ∧ s.runs w = 0
  target : ∀ w, s.holder w ≠ none → ∃ o, o < s.nextObject ∧ s.target w = .object o ∧
    (s.objects o ≠ none → s.recordOf o = some w ∧ s.last (.object o) = some (s.data w))
  slot : ∀ o r, s.recordOf o = some r → s.holder r ≠ none → s.target r = .object o
  last : ∀ o, s.objects o ≠ none → s.last (.object o) ≠ none →
    ∃ w, s.recordOf o = some w ∧ s.holder w ≠ none
  fresh : ∀ o, s.nextObject ≤ o → s.last (.object o) = none
  external : ∀ o, s.external o = true → s.last (.object o) = none
  unused : ∀ w, s.next ≤ w → s.accepted w = false ∧ s.removed w = false

/-- What holds after the release, too. -/
structure Quiet (s : State) : Prop where
  answered : s.answered = true
  sound : s.faulted = false
  failed : ∀ w, s.accepted w = false → s.runs w = 0
  removed : ∀ w, s.removed w = true → s.runs w = 0

structure Inv (s : State) : Prop where
  quiet : Quiet s
  placed : s.released = false → Placed s

section

variable {s t : State}

/-- In place, a record has its own hint or none. -/
theorem Placed.hintOf (hp : Placed s) (r : ℕ) :
    s.hintOf r = if s.holder r = none then none else some r := by
  unfold State.hintOf
  by_cases hr : s.holder r = none
  · rw [if_pos hr, List.find?_eq_none]
    intro w _ hw
    obtain ⟨rfl, _⟩ := hp.holder w r (of_decide_eq_true hw)
    rw [hr] at hw
    cases hw
  · rw [if_neg hr]
    obtain ⟨r', hr'⟩ := Option.ne_none_iff_exists'.mp hr
    obtain ⟨rfl, hlt⟩ := hp.holder r r' hr'
    cases hf : (List.range s.next).find? fun w => s.holder w = some r' with
    | none =>
      have := List.find?_eq_none.mp hf r' (List.mem_range.mpr hlt)
      exact absurd (decide_eq_true hr') this
    | some w =>
      have hw := List.find?_some hf
      obtain ⟨rfl, _⟩ := hp.holder w r' (of_decide_eq_true hw)
      rfl

variable {o : ℕ} {obj : Object}

/-- `get_wrap_record` of an object finds what `last` says. -/
theorem Placed.getWrapRecord (hp : Placed s) (hobj : s.objects o = some obj)
    (hnp : obj.proxy = false) (looked : Option ℕ) :
    s.getWrapRecord (.object o) looked = none ∧ s.last (.object o) = none ∨
      ∃ w, s.getWrapRecord (.object o) looked = some w ∧ s.recordOf o = some w ∧
        s.holder w ≠ none ∧ s.last (.object o) = some (s.data w) := by
  have hget : s.getWrapRecord (.object o) looked = (s.recordOf o).bind s.hintOf := by
    show ((s.objects o).bind fun obj => if obj.proxy then looked else obj.record?).bind s.hintOf =
      ((s.objects o).bind Object.record?).bind s.hintOf
    rw [hobj, Option.bind_some, Option.bind_some, hnp, if_neg Bool.false_ne_true]
  have halive : s.objects o ≠ none := by
    rw [hobj]
    exact Option.some_ne_none _
  by_cases hlast : s.last (.object o) = none
  · refine .inl ⟨?_, hlast⟩
    rw [hget]
    cases hrec : s.recordOf o with
    | none => rfl
    | some w =>
      rw [Option.bind_some, hp.hintOf, if_pos]
      by_contra hw
      obtain ⟨o', _, ho', hin⟩ := hp.target w hw
      obtain rfl : o' = o := Target.object.inj (ho'.symm.trans (hp.slot o w hrec hw))
      rw [(hin halive).2] at hlast
      cases hlast
  · obtain ⟨w, hrec, hw⟩ := hp.last o halive hlast
    obtain ⟨o', _, ho', hin⟩ := hp.target w hw
    obtain rfl : o' = o := Target.object.inj (ho'.symm.trans (hp.slot o w hrec hw))
    refine .inr ⟨w, ?_, hrec, hw, (hin halive).2⟩
    rw [hget, hrec, Option.bind_some, hp.hintOf, if_neg hw]

theorem Placed.unwrap (hp : Placed s) (hrel : s.released = false) (hobj : s.objects o = some obj)
    (hnp : obj.proxy = false) (looked : Option ℕ) :
    s.unwrap (.object o) looked = s.last (.object o) := by
  unfold State.unwrap
  rw [hrel, if_neg Bool.false_ne_true]
  rcases hp.getWrapRecord hobj hnp looked with ⟨hget, hlast⟩ | ⟨w, hget, _, _, hlast⟩
  · rw [hget, hlast]
    rfl
  · rw [hget, hlast]
    rfl

variable {w : ℕ}

theorem sweep_holder (h : s.sweep.holder w ≠ none) :
    s.holder w ≠ none ∧ s.sweep.holder w = s.holder w ∧ s.sweep.runs w = s.runs w := by
  have hdef : s.sweep.holder w = (s.holder w).filter fun r => s.referenced r := rfl
  have hruns : s.sweep.runs w =
      if (s.holder w).any (fun r => !s.referenced r) && !s.released then s.runs w + 1
      else s.runs w := rfl
  cases hw : s.holder w with
  | none =>
    rw [hdef, hw] at h
    exact absurd rfl h
  | some r =>
    rw [hdef, hw] at h ⊢
    rw [hruns, hw]
    cases hr : s.referenced r with
    | false =>
      rw [Option.filter_some, hr] at h
      exact absurd rfl h
    | true =>
      rw [Option.filter_some, hr, Option.any_some, hr]
      exact ⟨Option.some_ne_none r, rfl, rfl⟩

theorem sweep_kept {r : ℕ} (hw : s.holder w = some r) (hr : s.referenced r = true) :
    s.sweep.holder w ≠ none := by
  show (s.holder w).filter (fun r => s.referenced r) ≠ none
  rw [hw, Option.filter_some, hr, if_pos rfl]
  exact Option.some_ne_none r

theorem sweep_runs (s : State) (w : ℕ) : s.sweep.runs w = s.runs w ∨ s.holder w ≠ none := by
  by_cases hw : s.holder w = none
  · refine .inl ?_
    show (if (s.holder w).any (fun r => !s.referenced r) && !s.released then _ else s.runs w) = _
    rw [hw]
    rfl
  · exact .inr hw

/-- Freeing what has no reference takes nothing from an object that is alive. -/
theorem sweep_placed (hp : Placed s) : Placed s.sweep := by
  have hkept : ∀ o w, s.recordOf o = some w → s.holder w ≠ none → s.sweep.holder w ≠ none := by
    intro o w hrec hw
    obtain ⟨r, hr⟩ := Option.ne_none_iff_exists'.mp hw
    obtain ⟨rfl, _⟩ := hp.holder w r hr
    exact sweep_kept hr ((referenced_iff hp.formed r).mpr (.inr ⟨o, hrec⟩))
  refine ⟨hp.formed, hp.known, ?_, ?_, ?_, ?_, ?_, hp.fresh, hp.external, hp.unused⟩
  · intro w r hr
    have hne : s.sweep.holder w ≠ none := by
      rw [hr]
      exact Option.some_ne_none r
    exact hp.holder w r ((sweep_holder hne).2.1.symm.trans hr)
  · intro w hw
    obtain ⟨hw₀, _, hruns⟩ := sweep_holder hw
    rw [hruns]
    exact hp.ready w hw₀
  · intro w hw
    exact hp.target w (sweep_holder hw).1
  · intro o r hrec hr
    exact hp.slot o r hrec (sweep_holder hr).1
  · intro o halive hlast
    obtain ⟨w, hrec, hw⟩ := hp.last o halive hlast
    exact ⟨w, hrec, hkept o w hrec hw⟩

/-- A finalizer that runs is that of a wrap that was accepted and not removed. -/
theorem sweep_quiet (hq : Quiet s)
    (hready : s.released = false → ∀ w, s.holder w ≠ none → s.accepted w = true ∧ s.removed w = false) :
    Quiet s.sweep := by
  have hruns : ∀ w, s.accepted w = false ∨ s.removed w = true → s.sweep.runs w = s.runs w := by
    intro w hor
    rcases sweep_runs s w with heq | hw
    · exact heq
    · by_cases hrel : s.released = true
      · show (if _ && !s.released then _ else s.runs w) = _
        rw [hrel, Bool.not_true, Bool.and_false, if_neg Bool.false_ne_true]
      · obtain ⟨ha, hr⟩ := hready (Bool.eq_false_iff.mpr hrel) w hw
        rw [ha, hr] at hor
        rcases hor with hor | hor
        · cases hor
        · cases hor
  refine ⟨hq.answered, hq.sound, ?_, ?_⟩
  · intro w ha
    rw [hruns w (.inl ha)]
    exact hq.failed w ha
  · intro w hr
    rw [hruns w (.inr hr)]
    exact hq.removed w hr

theorem sweep_inv (hq : Quiet s) (hp : s.released = false → Placed s) : Inv s.sweep :=
  ⟨sweep_quiet hq fun hrel w hw => ⟨((hp hrel).ready w hw).1, ((hp hrel).ready w hw).2.1⟩,
    fun hrel => sweep_placed (hp hrel)⟩

theorem script_placed {op : Script} {hp : Heap} (hi : Placed s) (h : s.script op = some hp)
    (hleaves : Leaves s op hp) : Placed { s with toHeap := hp } := by
  have he := script_effect hi.formed h
  obtain ⟨hstay, honly⟩ := hleaves
  have hlt : ∀ {w}, s.holder w ≠ none → w < s.next := by
    intro w hw
    obtain ⟨r, hr⟩ := Option.ne_none_iff_exists'.mp hw
    exact (hi.holder w r hr).2
  -- An object that is alive afterwards has been alive.
  have halive : ∀ o, o < s.nextObject → hp.objects o ≠ none → s.objects o ≠ none :=
    fun o ho hne hnone => hne (he.dead o ho hnone)
  have hplace : ∀ o w, o < s.nextObject → hp.objects o ≠ none → s.recordOf o = some w →
      s.holder w ≠ none → hp.recordOf o = some w := by
    intro o w ho hne hrec hw
    rcases hstay o ho w (hlt hw) ⟨hi.slot o w hrec hw, hw, hrec⟩ with hin | hop
    · exact hin.record
    · exact absurd (he.died o hop) hne
  refine ⟨he.formed, ?_, hi.holder, hi.ready, ?_, ?_, ?_, ?_, hi.external, hi.unused⟩
  · intro r hr
    exact hi.known r (he.referenced hi.formed hr)
  · intro w hw
    obtain ⟨o, ho, htarget, hin⟩ := hi.target w hw
    refine ⟨o, ho.trans_le he.nextObject, htarget, ?_⟩
    intro hne
    obtain ⟨hrec, hlast⟩ := hin (halive o ho hne)
    exact ⟨hplace o w ho hne hrec hw, hlast⟩
  · intro o r hrec hr
    have ho : o < hp.nextObject := by
      by_contra hle
      have hrec : (hp.objects o).bind Object.record? = some r := hrec
      rw [he.formed.fresh o (not_lt.mp hle)] at hrec
      cases hrec
    exact (honly o ho r (hlt hr) hrec hr).target
  · intro o hne hlast
    have ho : o < s.nextObject := by
      by_contra hle
      exact hlast (hi.fresh o (not_lt.mp hle))
    obtain ⟨w, hrec, hw⟩ := hi.last o (halive o ho hne) hlast
    exact ⟨w, hplace o w ho hne hrec hw, hw⟩
  · intro o hle
    exact hi.fresh o (he.nextObject.trans hle)

theorem newObject_leaves {hp : Heap} {proxy : Bool} (hi : Placed s)
    (h : s.script (.newObject proxy) = some hp) : Leaves s (.newObject proxy) hp := by
  cases h
  have hof := recordOf_set s.toHeap s.nextObject (some { proxy })
  refine ⟨?_, ?_⟩
  · intro o ho w _ hin
    exact .inl ⟨hin.target, hin.holder, (hof o).trans ((if_neg (Nat.ne_of_lt ho)).trans hin.record)⟩
  · intro o _ w _ hrec hw
    have hrec' := (hof o).symm.trans hrec
    split at hrec'
    · cases hrec'
    · exact ⟨hi.slot o w hrec' hw, hw, hrec⟩

/-- `napi_wrap` puts the record into the slot of its object. -/
theorem attach_placed {p : ℕ} {obj' : Object} (hi : Placed s) (hobj : s.objects o = some obj)
    (hnp : obj.proxy = false) (hext : s.external o = false) (hlast₀ : s.last (.object o) = none)
    (hat : obj.attach s.next = some obj') (hzero : s.runs s.next = 0) : Placed { s with
      toHeap := s.set o (some obj')
      next := s.next + 1
      target := update s.target s.next (.object o)
      data := update s.data s.next p
      holder := update s.holder s.next (some s.next)
      accepted := update s.accepted s.next true
      last := update s.last (.object o) (some p) } := by
  obtain ⟨hproxy, hrec⟩ := Finalizers.attach_record hat
  have hof := recordOf_set s.toHeap o (some obj')
  have hself : (s.set o (some obj')).recordOf o = some s.next := (hof o).trans ((if_pos rfl).trans hrec)
  have hother : ∀ o', o' ≠ o → (s.set o (some obj')).recordOf o' = s.recordOf o' :=
    fun o' hne => (hof o').trans (if_neg hne)
  have hformed := hi.formed.set hobj (hproxy.trans hnp)
  have halive : s.objects o ≠ none := by
    rw [hobj]
    exact Option.some_ne_none _
  have hlt : o < s.nextObject := by
    by_contra hle
    exact halive (hi.formed.fresh o (not_lt.mp hle))
  -- No hint so far is on `o`.
  have hfree : ∀ w, s.holder w ≠ none → s.target w ≠ .object o := by
    intro w hw heq
    obtain ⟨o', _, ho', hin⟩ := hi.target w hw
    obtain rfl : o' = o := Target.object.inj (ho'.symm.trans heq)
    rw [(hin halive).2] at hlast₀
    cases hlast₀
  have hold : ∀ w, update s.holder s.next (some s.next) w ≠ none → w ≠ s.next →
      s.holder w ≠ none := by
    intro w hw hne
    rwa [update_of_ne hne] at hw
  refine ⟨hformed, ?_, ?_, ?_, ?_, ?_, ?_, ?_, ?_, ?_⟩
  · intro r hr
    rcases (referenced_iff hformed r).mp hr with hheld | ⟨o', ho'⟩
    · exact Nat.lt_succ_of_lt (hi.known r ((referenced_iff hi.formed r).mpr (.inl hheld)))
    · by_cases heq : o' = o
      · rw [heq, hself] at ho'
        cases ho'
        exact Nat.lt_succ_self _
      · rw [hother o' heq] at ho'
        exact Nat.lt_succ_of_lt (hi.known r ((referenced_iff hi.formed r).mpr (.inr ⟨o', ho'⟩)))
  · intro w r hr
    rcases Table.update_cases hr with ⟨heq, rfl⟩ | ⟨_, hr⟩
    · exact ⟨heq.symm, heq ▸ Nat.lt_succ_self _⟩
    · exact ⟨(hi.holder w r hr).1, Nat.lt_succ_of_lt (hi.holder w r hr).2⟩
  · intro w hw
    by_cases heq : w = s.next
    · subst heq
      exact ⟨update_self .., (hi.unused _ le_rfl).2, hzero⟩
    · obtain ⟨ha, hr, hz⟩ := hi.ready w (hold w hw heq)
      exact ⟨(update_of_ne heq ..).trans ha, hr, hz⟩
  · intro w hw
    by_cases heq : w = s.next
    · subst heq
      refine ⟨o, hlt, update_self .., fun _ => ⟨hself, ?_⟩⟩
      show update s.last (.object o) (some p) (.object o) =
        some (update s.data s.next p s.next)
      rw [update_self, update_self]
    · have hw₀ := hold w hw heq
      obtain ⟨o', ho', htarget, hin⟩ := hi.target w hw₀
      have hne : o' ≠ o := by
        rintro rfl
        exact hfree w hw₀ htarget
      refine ⟨o', ho', (update_of_ne heq ..).trans htarget, ?_⟩
      intro halive'
      obtain ⟨hrec', hlast⟩ := hin ((update_of_ne hne ..).symm.trans_ne halive')
      refine ⟨(hother o' hne).trans hrec', ?_⟩
      show update s.last (.object o) (some p) (.object o') =
        some (update s.data s.next p w)
      rw [update_of_ne (by simpa using hne), update_of_ne heq, hlast]
  · intro o' r hrec' hr
    show update s.target s.next (.object o) r = .object o'
    by_cases ho' : o' = o
    · rw [ho', hself] at hrec'
      cases hrec'
      rw [ho', update_self]
    · rw [hother o' ho'] at hrec'
      have hne : r ≠ s.next := by
        rintro rfl
        exact lt_irrefl _ (hi.known _ ((referenced_iff hi.formed _).mpr (.inr ⟨o', hrec'⟩)))
      rw [update_of_ne hne]
      exact hi.slot o' r hrec' (hold r hr hne)
  · intro o' halive' hlast
    by_cases ho' : o' = o
    · subst ho'
      refine ⟨s.next, hself, ?_⟩
      exact (update_self ..).trans_ne (Option.some_ne_none _)
    · have hlast' : s.last (.object o') ≠ none :=
        (update_of_ne (by simpa using ho') ..).symm.trans_ne hlast
      obtain ⟨w, hrec', hw⟩ := hi.last o' ((update_of_ne ho' ..).symm.trans_ne halive') hlast'
      refine ⟨w, (hother o' ho').trans hrec', ?_⟩
      have hne : w ≠ s.next := by
        rintro rfl
        exact lt_irrefl _ (hi.known _ ((referenced_iff hi.formed _).mpr (.inr ⟨o', hrec'⟩)))
      exact (update_of_ne hne ..).trans_ne hw
  · intro o' hle
    have hne : o' ≠ o := by
      rintro rfl
      exact absurd hlt (not_lt.mpr hle)
    exact (update_of_ne (by simpa using hne) ..).trans (hi.fresh o' hle)
  · intro o' hext'
    have hne : o' ≠ o := by
      rintro rfl
      exact Bool.false_ne_true (hext.symm.trans hext')
    exact (update_of_ne (by simpa using hne) ..).trans (hi.external o' hext')
  · intro w hle
    have hne : w ≠ s.next := Nat.ne_of_gt hle
    obtain ⟨ha, hr⟩ := hi.unused w (Nat.le_of_succ_le hle)
    exact ⟨(update_of_ne hne ..).trans ha, hr⟩

/-- `napi_remove_wrap` takes it out of there, or leaves a record without a hint. -/
theorem clear_placed (hi : Placed s) (hobj : s.objects o = some obj) (hnp : obj.proxy = false)
    (hrec : s.recordOf o = some w) (hw : s.holder w ≠ none) :
    Placed { s with
      toHeap := s.set o (some (obj.delete.getD obj))
      holder := update s.holder w none
      removed := update s.removed w true
      last := update s.last (.object o) none } := by
  have hdel : (obj.delete.getD obj).proxy = false ∧
      ((obj.delete.getD obj).record? = none ∨ (obj.delete.getD obj).record? = some w) := by
    cases hd : obj.delete with
    | none =>
      unfold Heap.recordOf at hrec
      rw [hobj, Option.bind_some] at hrec
      exact ⟨hnp, .inr hrec⟩
    | some obj' => exact ⟨(delete_record hd).1.trans hnp, .inl (delete_record hd).2⟩
  have hof := recordOf_set s.toHeap o (some (obj.delete.getD obj))
  have hother : ∀ o', o' ≠ o → (s.set o (some (obj.delete.getD obj))).recordOf o' = s.recordOf o' :=
    fun o' hne => (hof o').trans (if_neg hne)
  have hself : ∀ r, (s.set o (some (obj.delete.getD obj))).recordOf o = some r → r = w := by
    intro r hr
    have hr' : (obj.delete.getD obj).record? = some r := ((hof o).trans (if_pos rfl)).symm.trans hr
    rcases hdel.2 with hnone | hsome
    · rw [hnone] at hr'
      cases hr'
    · exact Option.some.inj (hr'.symm.trans hsome)
  have hformed := hi.formed.set hobj hdel.1
  have htarget := hi.slot o w hrec hw
  have hold : ∀ w', update s.holder w none w' ≠ none → w' ≠ w ∧ s.holder w' ≠ none := by
    intro w' hw'
    have hne : w' ≠ w := by
      rintro rfl
      exact hw' (update_self ..)
    exact ⟨hne, (update_of_ne hne ..).symm.trans_ne hw'⟩
  have halive : s.objects o ≠ none := by
    rw [hobj]
    exact Option.some_ne_none _
  -- The other hints are on other objects.
  have haway : ∀ w', w' ≠ w → s.holder w' ≠ none → s.target w' ≠ .object o := by
    intro w' hne hw' heq
    obtain ⟨o', _, ho', hin⟩ := hi.target w' hw'
    obtain rfl : o' = o := Target.object.inj (ho'.symm.trans heq)
    exact hne (Option.some.inj ((hin halive).1.symm.trans hrec))
  refine ⟨hformed, ?_, ?_, ?_, ?_, ?_, ?_, ?_, ?_, ?_⟩
  · intro r hr
    refine hi.known r ((referenced_iff hi.formed r).mpr ?_)
    rcases (referenced_iff hformed r).mp hr with hheld | ⟨o', ho'⟩
    · exact .inl hheld
    · by_cases heq : o' = o
      · rw [heq] at ho'
        exact .inr ⟨o, by rw [hself r ho']; exact hrec⟩
      · exact .inr ⟨o', (hother o' heq).symm.trans ho'⟩
  · intro w' r hr
    have hne : update s.holder w none w' ≠ none := by
      rw [show update s.holder w none w' = some r from hr]
      exact Option.some_ne_none r
    exact hi.holder w' r ((update_of_ne (hold w' hne).1 ..).symm.trans hr)
  · intro w' hw'
    obtain ⟨hne, hw₀⟩ := hold w' hw'
    obtain ⟨ha, hr, hz⟩ := hi.ready w' hw₀
    exact ⟨ha, (update_of_ne hne ..).trans hr, hz⟩
  · intro w' hw'
    obtain ⟨hne, hw₀⟩ := hold w' hw'
    obtain ⟨o', ho', htarget', hin⟩ := hi.target w' hw₀
    have hne' : o' ≠ o := by
      rintro rfl
      exact haway w' hne hw₀ htarget'
    refine ⟨o', ho', htarget', ?_⟩
    intro halive'
    obtain ⟨hrec', hlast⟩ := hin ((update_of_ne hne' ..).symm.trans_ne halive')
    exact ⟨(hother o' hne').trans hrec', (update_of_ne (by simpa using hne') ..).trans hlast⟩
  · intro o' r hrec' hr
    obtain ⟨hne, hr₀⟩ := hold r hr
    by_cases ho' : o' = o
    · rw [ho'] at hrec'
      exact absurd (hself r hrec') hne
    · exact hi.slot o' r ((hother o' ho').symm.trans hrec') hr₀
  · intro o' halive' hlast
    have ho' : o' ≠ o := by
      rintro rfl
      exact hlast (update_self ..)
    have hlast' := (update_of_ne (by simpa using ho') ..).symm.trans_ne hlast
    obtain ⟨w', hrec', hw'⟩ := hi.last o' ((update_of_ne ho' ..).symm.trans_ne halive') hlast'
    refine ⟨w', (hother o' ho').trans hrec', ?_⟩
    have hne : w' ≠ w := by
      rintro rfl
      exact ho' (Target.object.inj ((hi.slot o' w' hrec' hw').symm.trans htarget))
    exact (update_of_ne hne ..).trans_ne hw'
  · intro o' hle
    by_cases ho' : o' = o
    · subst ho'
      exact update_self ..
    · exact (update_of_ne (by simpa using ho') ..).trans (hi.fresh o' hle)
  · intro o' hext
    by_cases ho' : o' = o
    · subst ho'
      exact update_self ..
    · exact (update_of_ne (by simpa using ho') ..).trans (hi.external o' hext)
  · intro w' hle
    obtain ⟨ha, hr⟩ := hi.unused w' hle
    have hne : w' ≠ w := by
      rintro rfl
      obtain ⟨r, hr'⟩ := Option.ne_none_iff_exists'.mp hw
      exact absurd (hi.holder w' r hr').2 (not_lt.mpr hle)
    exact ⟨ha, (update_of_ne hne ..).trans hr⟩

variable {looked : Option ℕ}

theorem plain_object {t : Target} (hplain : Plain s t) (hpresent : s.present t looked = true) :
    ∃ o obj, t = .object o ∧ s.objects o = some obj ∧ obj.proxy = false := by
  cases t with
  | record r => exact False.elim hplain
  | object o =>
    have hsome : (s.objects o).isSome = true := (Bool.and_eq_true_iff.mp hpresent).1
    obtain ⟨obj, hobj⟩ := Option.isSome_iff_exists.mp hsome
    have hproxy : (s.objects o).all (fun obj => !obj.proxy) = true := hplain
    rw [hobj, Option.all_some, Bool.not_eq_true'] at hproxy
    exact ⟨o, obj, rfl, hobj, hproxy⟩

theorem wrap_inv {t' : Target} {p : ℕ} {memory : Bool} {definition : Definition} {reference : Bool}
    (hi : Inv s) (hsafe : Safe s (.wrap t' looked p memory definition reference))
    (h : s.wrap t' looked p memory definition reference = some t) : Inv t := by
  unfold State.wrap at h
  split at h
  · cases h
  rename_i hpresent
  split at h
  · cases h
    exact hi
  rename_i hrel
  split at h
  · cases h
    exact hi
  rename_i hext
  split at h
  · cases h
    exact hi
  rename_i hget
  have hp₀ := hi.placed (Bool.eq_false_iff.mpr hrel)
  split at h
  · cases h
    refine ⟨⟨hi.quiet.answered, hi.quiet.sound, hi.quiet.failed, hi.quiet.removed⟩, fun _ => ?_⟩
    refine { hp₀ with known := ?_, holder := ?_, unused := ?_ }
    · exact fun r hr => Nat.lt_succ_of_lt (hp₀.known r hr)
    · exact fun w r hr => ⟨(hp₀.holder w r hr).1, Nat.lt_succ_of_lt (hp₀.holder w r hr).2⟩
    · exact fun w hle => hp₀.unused w (Nat.le_of_succ_le hle)
  rename_i hmem
  rw [Bool.not_eq_true', Bool.not_eq_false] at hpresent hmem
  rw [Bool.not_eq_true, Option.isSome_eq_false_iff, Option.isNone_iff_eq_none] at hget
  obtain ⟨hplain, hcase⟩ := hsafe.resolve_left hrel
  obtain ⟨hdef, href, htakes⟩ : definition = .own ∧ reference = true ∧ Takes s t' := by
    rcases hcase with he | hg | hm | hok
    · exact absurd he hext
    · exact absurd hget hg
    · rw [hmem] at hm
      cases hm
    · exact hok
  obtain ⟨o, obj, rfl, hobj, hnp⟩ := plain_object hplain hpresent
  have htakes : ((s.objects o).bind fun obj => obj.attach s.next).isSome = true := htakes
  rw [hobj, Option.bind_some] at htakes
  obtain ⟨obj', hat⟩ := Option.isSome_iff_exists.mp htakes
  subst hdef href
  dsimp only at h
  rw [hobj] at h
  dsimp only at h
  rw [hnp, hat] at h
  cases h
  have hlast : s.last (.object o) = none := by
    rcases hp₀.getWrapRecord hobj hnp looked with ⟨_, hlast⟩ | ⟨w, hsome, _⟩
    · exact hlast
    · rw [hget] at hsome
      cases hsome
  have hzero := hi.quiet.failed s.next (hp₀.unused _ le_rfl).1
  refine sweep_inv ⟨hi.quiet.answered, hi.quiet.sound, ?_, ?_⟩ fun _ =>
    attach_placed hp₀ hobj hnp (Bool.eq_false_iff.mpr hext) hlast hat hzero
  · intro w ha
    refine hi.quiet.failed w ?_
    have ha : update s.accepted s.next true w = false := ha
    by_cases heq : w = s.next
    · rw [heq, update_self] at ha
      cases ha
    · rwa [update_of_ne heq] at ha
  · exact hi.quiet.removed

theorem removeWrap_inv {t' : Target} {got : Got} {deleted : Bool} (hi : Inv s)
    (hsafe : s.released = true ∨ Plain s t') (h : s.removeWrap t' looked got deleted = some t) :
    Inv t := by
  unfold State.removeWrap at h
  split at h
  · cases h
  rename_i hpresent
  rw [Bool.not_eq_true', Bool.not_eq_false] at hpresent
  split at h
  · cases h
    exact hi
  rename_i hrel
  have hp₀ := hi.placed (Bool.eq_false_iff.mpr hrel)
  obtain ⟨o, obj, rfl, hobj, hnp⟩ := plain_object (hsafe.resolve_left hrel) hpresent
  rcases hp₀.getWrapRecord hobj hnp looked with ⟨hget, _⟩ | ⟨w, hget, hrec, hw, hlast⟩
  · rw [hget] at h
    cases h
    exact hi
  · have hext : s.external o = false := by
      rw [Bool.eq_false_iff]
      intro he
      rw [hp₀.external o he] at hlast
      cases hlast
    rw [hget] at h
    dsimp only at h
    rw [hext, if_neg Bool.false_ne_true, hobj] at h
    dsimp only at h
    rw [hnp, Bool.not_false, if_pos rfl] at h
    cases h
    obtain ⟨_, _, hz⟩ := hp₀.ready w hw
    refine sweep_inv ⟨hi.quiet.answered, hi.quiet.sound, hi.quiet.failed, ?_⟩ fun _ =>
      clear_placed hp₀ hobj hnp hrec hw
    intro w' hr
    have hr : update s.removed w true w' = true := hr
    by_cases heq : w' = w
    · rw [heq]
      exact hz
    · rw [update_of_ne heq] at hr
      exact hi.quiet.removed w' hr

theorem release_inv (hi : Inv s) : Inv s.release := by
  have hruns : ∀ w, s.accepted w = false ∨ s.removed w = true → s.release.runs w = s.runs w := by
    intro w hor
    show (if (s.holder w).isSome && !s.released then s.runs w + 1 else s.runs w) = s.runs w
    rw [if_neg]
    intro hcond
    rw [Bool.and_eq_true, Option.isSome_iff_ne_none, Bool.not_eq_true'] at hcond
    obtain ⟨ha, hr, _⟩ := (hi.placed hcond.2).ready w hcond.1
    rw [ha, hr] at hor
    rcases hor with hor | hor
    · cases hor
    · cases hor
  refine ⟨⟨hi.quiet.answered, hi.quiet.sound, ?_, ?_⟩, nofun⟩
  · intro w ha
    rw [hruns w (.inl ha)]
    exact hi.quiet.failed w ha
  · intro w hr
    rw [hruns w (.inr hr)]
    exact hi.quiet.removed w hr

theorem step_inv {a : Act} (hi : Inv s) (hsafe : Safe s a) (h : step s a = some t) : Inv t := by
  unfold step at h
  split at h
  · cases h
  cases a with
  | newExternal =>
    obtain ⟨hp, hop, rfl⟩ := Option.map_eq_some_iff.mp h
    refine sweep_inv ⟨hi.quiet.answered, hi.quiet.sound, hi.quiet.failed, hi.quiet.removed⟩ ?_
    intro hrel
    have hp₀ := hi.placed hrel
    have hpl := script_placed hp₀ hop (newObject_leaves hp₀ hop)
    refine { hpl with external := ?_ }
    intro o hext
    by_cases heq : o = s.nextObject
    · exact hp₀.fresh o heq.ge
    · exact hp₀.external o ((update_of_ne heq ..).symm.trans hext)
  | wrap t' looked p memory definition reference => exact wrap_inv hi hsafe h
  | unwrap t' looked =>
    dsimp only at h
    split at h
    · cases h
    rename_i hpresent
    rw [Bool.not_eq_true', Bool.not_eq_false] at hpresent
    cases h
    refine ⟨⟨?_, hi.quiet.sound, hi.quiet.failed, hi.quiet.removed⟩, fun hrel => ?_⟩
    · show (s.answered && (s.released || decide (s.unwrap t' looked = s.last t'))) = true
      rw [hi.quiet.answered, Bool.true_and]
      by_cases hrel : s.released = true
      · rw [hrel, Bool.true_or]
      · obtain ⟨o, obj, rfl, hobj, hnp⟩ := plain_object (hsafe.resolve_left hrel) hpresent
        have hrel' := Bool.eq_false_iff.mpr hrel
        rw [(hi.placed hrel').unwrap hrel' hobj hnp, decide_eq_true rfl, Bool.or_true]
    · have hp₀ := hi.placed hrel
      exact { hp₀ with }
  | removeWrap t' looked got deleted => exact removeWrap_inv hi hsafe h
  | script op =>
    obtain ⟨hp, hop, rfl⟩ := Option.map_eq_some_iff.mp h
    refine sweep_inv ⟨hi.quiet.answered, hi.quiet.sound, hi.quiet.failed, hi.quiet.removed⟩ ?_
    intro hrel
    have hleaves : ∀ hp, s.script op = some hp → Leaves s op hp := by
      rcases hsafe with hr | hall
      · exact absurd (hrel.symm.trans hr) (by decide)
      · exact hall
    exact script_placed (hi.placed hrel) hop (hleaves hp hop)
  | release =>
    cases h
    exact release_inv hi

theorem init_inv : Inv {} := by
  refine ⟨⟨rfl, rfl, fun _ _ => rfl, fun _ _ => rfl⟩, fun _ => ?_⟩
  refine ⟨⟨fun _ _ => rfl, nofun⟩, nofun, nofun, ?_, ?_, nofun, ?_, fun _ _ => rfl, fun _ _ => rfl,
    fun _ _ => ⟨rfl, rfl⟩⟩
  · intro w hw
    exact absurd rfl hw
  · intro w hw
    exact absurd rfl hw
  · intro o hne
    exact absurd rfl hne

theorem Inv.wrapped (hi : Inv s) : Wrapped s where
  unwrap := fun hrel _ _ hobj hnp => (hi.placed hrel).unwrap hrel hobj hnp none
  answered := hi.quiet.answered
  failed := fun w _ ha => hi.quiet.failed w ha
  removed := hi.quiet.removed
  sound := hi.quiet.sound

/-- In a run whose steps keep each wrap to its object, `napi_unwrap` answers by the last call
    that returned `napi_ok`, and no finalizer runs of a wrap that failed or was removed. -/
theorem wraps_last {acts : List Act} (hr : run step {} acts = some s)
    (hsafe : AllSteps step Safe {} acts) : Wrapped s :=
  (invariant_of_allSteps (fun _ _ _ h hsafe hi => step_inv hi hsafe h) hr hsafe init_inv).wrapped

end

/-- An object is wrapped, unwrapped and removed from, and wrapped again before it dies; a second
    one is frozen while it is wrapped, and an external is refused. -/
def twoObjects : List Act :=
  [.script (.newObject false), .wrap (.object 0) none 7 true .own true, .unwrap (.object 0) none,
    .removeWrap (.object 0) none .other true, .wrap (.object 0) none 8 true .own true,
    .script (.newObject false), .wrap (.object 1) none 9 true .own true, .script (.freeze 1),
    .unwrap (.object 1) none, .removeWrap (.object 1) none .other true, .newExternal,
    .wrap (.object 2) none 5 true .own true, .script (.die 0)]

theorem twoObjects_wrapped :
    ∃ s, run step {} twoObjects = some s ∧ s.runs 0 = 0 ∧ s.runs 1 = 1 ∧ Wrapped s := by
  have hsafe : AllSteps step Safe {} twoObjects := by decide
  exact ⟨_, rfl, rfl, rfl, wraps_last (show run step {} twoObjects = some _ from rfl) hsafe⟩

/-- `napi_wrap` on an object that is not extensible. -/
def unextensible : List Act :=
  [.script (.newObject false), .script (.preventExtensions 0), .wrap (.object 0) none 7 true .own true]

/-- It returned `napi_ok`, and `napi_unwrap` finds nothing. -/
theorem unextensible_not_wrapped : ∃ s, run step {} unextensible = some s ∧ ¬ Wrapped s := by
  refine ⟨_, rfl, ?_⟩
  intro hw
  have := hw.unwrap rfl 0 _ rfl rfl
  cases this

end WasmerNapi.Quickjs.Records.Wraps
