import WasmerNapi.Quickjs.Properties

/-!
# `napi_add_finalizer` of the QuickJS engine

`src/quickjs/src/js_native_api_quickjs.cc`: the callback runs when its record is freed, and the
record is kept by the property `__napi_finalizer__` of the object. So the callback follows the
property. A second `napi_add_finalizer` on the object replaces the first one's record, which
runs its callback with the object alive; an object that takes no property, because it is not
extensible, frees the record at once, and the call returns `napi_ok` all the same; a definition
that throws has freed it too, before the call returns its error.

Record `r` is that of call number `r`. `finalizers_once` is about runs in which calls and
scripts leave the property alone once a record is in it.
-/

namespace WasmerNapi.Quickjs.Records

open Function (update update_self update_of_ne)
open Run

/-- How `JS_DefinePropertyValueStr` comes out: by the object's own slot; with an exception; or,
    for a proxy, with the record kept by what the trap did, or not kept. -/
inductive Definition where
  | own
  | threw
  | kept
  | lost
  deriving DecidableEq

namespace Finalizers

/-- The heap, and the calls so far: the object of each, whether it returned `napi_ok`, whether
    its record is alive with its hint, and how often its callback has run. -/
structure State extends Heap where
  next : ℕ := 0
  target : ℕ → ℕ := fun _ => 0
  accepted : ℕ → Bool := fun _ => false
  live : ℕ → Bool := fun _ => false
  runs : ℕ → ℕ := fun _ => 0
  released : Bool := false

inductive Act where
  /-- `record`: there was memory for the record. `reference`: `napi_create_reference`, if it was
      asked for, succeeded. -/
  | addFinalizer (o : ℕ) (record : Bool) (definition : Definition) (reference : Bool)
  | script (op : Script)
  | release
  deriving DecidableEq

namespace State

/-- Records without a reference are freed: `napi_external__::finalizer`. -/
def sweep (s : State) : State :=
  { s with
    live := fun r => s.live r && s.referenced r
    runs := fun r => if s.live r && !s.referenced r && !s.released then s.runs r + 1 else s.runs r }

/-- The call has its record, and returns. -/
def settle (s : State) (hp : Heap) (accepted : Bool) : State :=
  { s with
    toHeap := hp
    next := s.next + 1
    live := update s.live s.next true
    accepted := update s.accepted s.next accepted }.sweep

/-- `napi_add_finalizer`, with a callback, on an object. -/
def addFinalizer (s : State) (o : ℕ) (record : Bool) (definition : Definition) (reference : Bool) :
    Option State :=
  -- The env of a released env has no context: `napi_invalid_arg`.
  if s.released then some s
  else
    match s.objects o with
    | none => none
    | some obj =>
      let s := { s with target := update s.target s.next o }
      if !record then some { s with next := s.next + 1 }
      else
        match definition, obj.proxy with
        | .threw, _ => some (s.settle s.toHeap false)
        | .own, false =>
          match obj.attach s.next with
          | some obj => some (s.settle (s.set o (some obj)) reference)
          | none => some (s.settle s.toHeap reference)
        | .kept, true =>
          some (s.settle { s.toHeap with held := update s.held s.next 1 } reference)
        | .lost, true => some (s.settle s.toHeap reference)
        | _, _ => none

/-- `prepare_teardown`: what has yet to run runs, and nothing does afterwards. -/
def release (s : State) : State :=
  { s with
    released := true
    runs := fun r => if s.live r && !s.released then s.runs r + 1 else s.runs r }

end State

def step (s : State) : Act → Option State
  | .addFinalizer o record definition reference => s.addFinalizer o record definition reference
  | .script op => (s.script op).map fun hp => { s with toHeap := hp }.sweep
  | .release => some s.release

/-- What should have become of the calls so far. -/
structure Finalized (s : State) : Prop where
  once : ∀ r, s.runs r ≤ 1
  /-- Not while the object is alive, before the release, … -/
  notEarly : ∀ r, s.accepted r = true → s.objects (s.target r) ≠ none → s.released = false →
    s.runs r = 0
  /-- … but then. -/
  ran : ∀ r, s.accepted r = true → s.objects (s.target r) = none ∨ s.released = true → s.runs r = 1
  failed : ∀ r, r < s.next → s.accepted r = false → s.runs r = 0

/-- The object of call `r` has the record of `r` in its slot. -/
def InPlace (s : State) (hp : Heap) (r : ℕ) : Prop := hp.recordOf (s.target r) = some r

instance (s : State) (hp : Heap) (r : ℕ) : Decidable (InPlace s hp r) :=
  inferInstanceAs (Decidable (_ = _))

/-- The object has room for a record: it takes a new property, or replaces one that is not the
    record of an earlier call on it. -/
def Room (s : State) (o : ℕ) : Prop :=
  ((s.objects o).bind fun obj => obj.attach s.next).isSome = true ∧
    ∀ r < s.next, s.target r = o → ¬ InPlace s s.toHeap r

instance (s : State) (o : ℕ) : Decidable (Room s o) := inferInstanceAs (Decidable (_ ∧ _))

/-- A script leaves the records where they are, and keeps none beyond the death of its object. -/
def Leaves (s : State) (op : Script) (hp : Heap) : Prop :=
  ∀ r < s.next, InPlace s s.toHeap r →
    InPlace s hp r ∨ op = .die (s.target r) ∧ hp.referenced r = false

instance (s : State) (op : Script) (hp : Heap) : Decidable (Leaves s op hp) :=
  inferInstanceAs (Decidable (∀ r < s.next, _ → _))

/-- The steps that keep callbacks to the life of their objects. -/
def Safe (s : State) : Act → Prop
  | .addFinalizer o record definition reference =>
    s.released = true ∨ record = false ∨
      definition = .own ∧ reference = true ∧ Room s o
  | .script op => s.released = true ∨ ∀ hp, s.script op = some hp → Leaves s op hp
  | .release => True

instance (s : State) (op : Script) : Decidable (∀ hp, s.script op = some hp → Leaves s op hp) :=
  inferInstanceAs (Decidable (∀ hp ∈ s.script op, Leaves s op hp))

instance decidableSafe (s : State) : ∀ a, Decidable (Safe s a)
  | .addFinalizer _ _ _ _ => inferInstanceAs (Decidable (_ ∨ _ ∨ _ ∧ _ ∧ _))
  | .script _ => inferInstanceAs (Decidable (_ ∨ _))
  | .release => inferInstanceAs (Decidable True)

/-! ## The invariant -/

/-- A record that is alive is in place, and one that is not alive has no reference left. -/
structure Placed (s : State) : Prop where
  target : ∀ r, r < s.next → s.target r < s.nextObject
  live : ∀ r, s.live r = true → r < s.next ∧ InPlace s s.toHeap r ∧ s.accepted r = true ∧ s.runs r = 0
  refs : ∀ r, s.referenced r = true → s.live r = true
  gone : ∀ r, s.live r = false → s.accepted r = true →
    s.runs r = 1 ∧ s.objects (s.target r) = none
  failed : ∀ r, s.accepted r = false → s.runs r = 0
  fresh : ∀ r, s.next ≤ r → s.accepted r = false

structure Inv (s : State) : Prop where
  formed : Formed s.toHeap
  placed : s.released = false → Placed s
  settled : s.released = true → ∀ r, s.runs r = (s.accepted r).toNat

section

variable {s t : State}

theorem referenced_of_inPlace {hp : Heap} (hf : Formed hp) {r : ℕ} (h : InPlace s hp r) :
    hp.referenced r = true :=
  (referenced_iff hf r).mpr (.inr ⟨_, h⟩)

theorem script_placed {op : Script} {hp : Heap} (hp₀ : Placed s) (hf : Formed s.toHeap)
    (hrel : s.released = false) (h : s.script op = some hp) (hsafe : Leaves s op hp) :
    Placed ({ s with toHeap := hp }.sweep) := by
  have he := script_effect hf h
  -- What happens to each record that was alive.
  have hcases : ∀ r, s.live r = true →
      InPlace s hp r ∧ hp.referenced r = true ∨
        hp.referenced r = false ∧ hp.objects (s.target r) = none := by
    intro r hl
    obtain ⟨hlt, hplace, _, _⟩ := hp₀.live r hl
    rcases hsafe r hlt hplace with hin | ⟨hop, hno⟩
    · exact .inl ⟨hin, referenced_of_inPlace he.formed hin⟩
    · exact .inr ⟨hno, he.died _ hop⟩
  have hruns : ∀ r, ({ s with toHeap := hp }.sweep).runs r =
      if s.live r && !hp.referenced r && !s.released then s.runs r + 1 else s.runs r := fun _ => rfl
  have hlive : ∀ r, ({ s with toHeap := hp }.sweep).live r = (s.live r && hp.referenced r) :=
    fun _ => rfl
  refine ⟨?_, ?_, ?_, ?_, ?_, hp₀.fresh⟩
  · intro r hlt
    exact (hp₀.target r hlt).trans_le he.nextObject
  · intro r hl
    rw [hlive, Bool.and_eq_true] at hl
    obtain ⟨hlt, _, hacc, hzero⟩ := hp₀.live r hl.1
    refine ⟨hlt, ?_, hacc, ?_⟩
    · rcases hcases r hl.1 with ⟨hin, _⟩ | ⟨hno, _⟩
      · exact hin
      · rw [hl.2] at hno
        cases hno
    · rw [hruns, hl.2, Bool.not_true, Bool.and_false, Bool.false_and, if_neg Bool.false_ne_true]
      exact hzero
  · intro r hr
    rw [hlive, Bool.and_eq_true]
    exact ⟨hp₀.refs r (he.referenced hf hr), hr⟩
  · intro r hl hacc
    rw [hlive] at hl
    rw [hruns, hrel, Bool.not_false, Bool.and_true]
    cases hl₀ : s.live r with
    | true =>
      rcases hcases r hl₀ with ⟨_, hr⟩ | ⟨hno, hnone⟩
      · rw [hl₀, hr] at hl
        cases hl
      · rw [hno, (hp₀.live r hl₀).2.2.2]
        exact ⟨rfl, hnone⟩
    | false =>
      obtain ⟨hone, hnone⟩ := hp₀.gone r hl₀ hacc
      have hlt : r < s.next := by
        by_contra hle
        exact Bool.false_ne_true ((hp₀.fresh r (not_lt.mp hle)).symm.trans hacc)
      exact ⟨hone, he.dead _ (hp₀.target r hlt) hnone⟩
  · intro r hacc
    have hl₀ : s.live r = false := by
      rw [Bool.eq_false_iff]
      intro hl
      exact Bool.false_ne_true (hacc.symm.trans (hp₀.live r hl).2.2.1)
    rw [hruns, hl₀]
    exact hp₀.failed r hacc

theorem attach_record {obj obj' : Object} {r : ℕ} (h : obj.attach r = some obj') :
    obj'.proxy = obj.proxy ∧ obj'.record? = some r := by
  unfold Object.attach at h
  dsimp only at h
  split at h
  · split at h
    · cases h
      exact ⟨rfl, rfl⟩
    · cases h
  · split at h
    · cases h
      exact ⟨rfl, rfl⟩
    · cases h

/-- The record goes into the slot of an object that has room for it. -/
theorem attach_placed {o : ℕ} {obj obj' : Object} (hp₀ : Placed s) (hf : Formed s.toHeap)
    (hrel : s.released = false) (hobj : s.objects o = some obj) (hnp : obj.proxy = false)
    (hat : obj.attach s.next = some obj')
    (hroom : ∀ r < s.next, s.target r = o → ¬ InPlace s s.toHeap r) :
    Inv ({ s with target := update s.target s.next o }.settle (s.set o (some obj')) true) := by
  obtain ⟨hproxy, hrec⟩ := attach_record hat
  have hof := recordOf_set s.toHeap o (some obj')
  have hlt : o < s.nextObject := by
    by_contra hle
    rw [hf.fresh o (not_lt.mp hle)] at hobj
    cases hobj
  have hformed : Formed (s.set o (some obj')) := hf.set hobj (hproxy.trans hnp)
  set t := { s with target := update s.target s.next o }.settle (s.set o (some obj')) true
    with ht
  have htarget : ∀ r, r ≠ s.next → t.target r = s.target r := fun r hne => update_of_ne hne ..
  have htarget' : t.target s.next = o := update_self ..
  have hacc : ∀ r, r ≠ s.next → t.accepted r = s.accepted r := fun r hne => update_of_ne hne ..
  have hnew : s.live s.next = false ∧ s.runs s.next = 0 := by
    refine ⟨?_, hp₀.failed _ (hp₀.fresh _ le_rfl)⟩
    rw [Bool.eq_false_iff]
    intro hl
    exact absurd (hp₀.live _ hl).1 (lt_irrefl _)
  -- Records that were alive are where they were, and the new one is in place.
  have hstay : ∀ r, s.live r = true → s.target r ≠ o ∧ t.recordOf (s.target r) = some r := by
    intro r hl
    obtain ⟨hlt', hplace, _, _⟩ := hp₀.live r hl
    have hne : s.target r ≠ o := fun heq => hroom r hlt' heq hplace
    exact ⟨hne, (hof _).trans ((if_neg hne).trans hplace)⟩
  have hin : t.recordOf o = some s.next := (hof o).trans ((if_pos rfl).trans hrec)
  have href : ∀ r, r = s.next ∨ s.live r = true → t.referenced r = true := by
    rintro r (rfl | hl)
    · exact (referenced_iff hformed _).mpr (.inr ⟨o, hin⟩)
    · exact (referenced_iff hformed _).mpr (.inr ⟨_, (hstay r hl).2⟩)
  have hlive : ∀ r, t.live r = true ↔ r = s.next ∨ s.live r = true := by
    intro r
    show (update s.live s.next true r && t.referenced r) = true ↔ _
    by_cases heq : r = s.next
    · rw [href r (.inl heq), heq, update_self]
      exact iff_of_true rfl (.inl rfl)
    · rw [update_of_ne heq, or_iff_right heq]
      constructor
      · intro hl
        exact (Bool.and_eq_true_iff.mp hl).1
      · intro hl
        rw [hl, href r (.inr hl)]
        rfl
  have hruns : ∀ r, t.runs r = s.runs r := by
    intro r
    show (if update s.live s.next true r && !t.referenced r && _ then _ else _) = _
    rw [if_neg]
    intro hcond
    simp only [Bool.and_eq_true] at hcond
    obtain ⟨⟨hl, hno⟩, _⟩ := hcond
    have : r = s.next ∨ s.live r = true := by
      by_cases heq : r = s.next
      · exact .inl heq
      · rw [update_of_ne heq] at hl
        exact .inr hl
    rw [href r this] at hno
    cases hno
  refine ⟨hformed, fun _ => ⟨?_, ?_, ?_, ?_, ?_, ?_⟩, ?_⟩
  · intro r hr
    have hr : r < s.next + 1 := hr
    by_cases heq : r = s.next
    · rw [heq, htarget']
      exact hlt
    · rw [htarget r heq]
      exact hp₀.target r (by omega)
  · intro r hl
    show r < s.next + 1 ∧ t.recordOf (t.target r) = some r ∧ _
    rw [hruns]
    by_cases heq : r = s.next
    · rw [heq, htarget']
      exact ⟨Nat.lt_succ_self _, hin, update_self .., hnew.2⟩
    · have hl' := ((hlive r).mp hl).resolve_left heq
      obtain ⟨hlt', _, ha, hz⟩ := hp₀.live r hl'
      rw [htarget r heq, hacc r heq]
      exact ⟨Nat.lt_succ_of_lt hlt', (hstay r hl').2, ha, hz⟩
  · intro r hr
    rw [hlive]
    rcases (referenced_iff hformed r).mp hr with hheld | ⟨o', ho'⟩
    · exact .inr (hp₀.refs r ((referenced_iff hf r).mpr (.inl hheld)))
    · rw [hof] at ho'
      split at ho'
      · exact .inl (Option.some.inj (ho'.symm.trans hrec))
      · exact .inr (hp₀.refs r ((referenced_iff hf r).mpr (.inr ⟨o', ho'⟩)))
  · intro r hl ha
    have hl' : ¬ (r = s.next ∨ s.live r = true) := by
      rw [← hlive, hl]
      exact Bool.false_ne_true
    rw [not_or] at hl'
    rw [hacc r hl'.1] at ha
    obtain ⟨hone, hnone⟩ := hp₀.gone r (Bool.eq_false_iff.mpr hl'.2) ha
    rw [hruns, htarget r hl'.1]
    refine ⟨hone, ?_⟩
    have hne : s.target r ≠ o := by
      rintro heq
      rw [heq, hobj] at hnone
      cases hnone
    exact (update_of_ne hne ..).trans hnone
  · intro r ha
    rw [hruns]
    have heq : r ≠ s.next := by
      rintro rfl
      exact Bool.false_ne_true (ha.symm.trans (update_self ..))
    rw [hacc r heq] at ha
    exact hp₀.failed r ha
  · intro r hle
    have hle : s.next + 1 ≤ r := hle
    rw [hacc r (by omega)]
    exact hp₀.fresh r (by omega)
  · intro hr
    exact absurd (hrel.symm.trans hr) Bool.false_ne_true

/-- A call without a record leaves nothing behind. -/
theorem recordless_placed {o : ℕ} {obj : Object} (hp₀ : Placed s) (hf : Formed s.toHeap)
    (hobj : s.objects o = some obj) :
    Placed { s with target := update s.target s.next o, next := s.next + 1 } := by
  have hlt : o < s.nextObject := by
    by_contra hle
    rw [hf.fresh o (not_lt.mp hle)] at hobj
    cases hobj
  have hne : ∀ r, s.accepted r = true → update s.target s.next o r = s.target r := by
    intro r ha
    refine update_of_ne ?_ ..
    rintro rfl
    exact Bool.false_ne_true ((hp₀.fresh _ le_rfl).symm.trans ha)
  refine ⟨?_, ?_, hp₀.refs, ?_, hp₀.failed, fun r hle => hp₀.fresh r (Nat.le_of_succ_le hle)⟩
  · intro r hr
    have hr : r < s.next + 1 := hr
    show update s.target s.next o r < s.nextObject
    by_cases heq : r = s.next
    · rw [heq, update_self]
      exact hlt
    · rw [update_of_ne heq]
      exact hp₀.target r (by omega)
  · intro r hl
    obtain ⟨hr, hplace, ha, hz⟩ := hp₀.live r hl
    refine ⟨Nat.lt_succ_of_lt hr, ?_, ha, hz⟩
    show s.recordOf (update s.target s.next o r) = some r
    rw [hne r ha]
    exact hplace
  · intro r hl ha
    obtain ⟨hone, hnone⟩ := hp₀.gone r hl ha
    refine ⟨hone, ?_⟩
    show s.objects (update s.target s.next o r) = none
    rw [hne r ha]
    exact hnone

theorem release_inv (hi : Inv s) : Inv s.release := by
  refine ⟨hi.formed, nofun, fun _ r => ?_⟩
  show (if s.live r && !s.released then s.runs r + 1 else s.runs r) = (s.accepted r).toNat
  cases hrel : s.released with
  | true =>
    rw [Bool.not_true, Bool.and_false, if_neg Bool.false_ne_true]
    exact hi.settled hrel r
  | false =>
    have hp₀ := hi.placed hrel
    rw [Bool.not_false, Bool.and_true]
    cases hl : s.live r with
    | true =>
      obtain ⟨_, _, ha, hz⟩ := hp₀.live r hl
      rw [if_pos rfl, ha, hz]
      rfl
    | false =>
      rw [if_neg Bool.false_ne_true]
      cases ha : s.accepted r with
      | true => exact (hp₀.gone r hl ha).1
      | false => exact hp₀.failed r ha

/-- After the release nothing runs any more. -/
theorem sweep_settled (hi : Inv s) (hrel : s.released = true) {hp : Heap} (hf : Formed hp) :
    Inv ({ s with toHeap := hp }.sweep) := by
  refine ⟨hf, fun hr => absurd (hrel.symm.trans hr) (by decide), fun _ r => ?_⟩
  show (if s.live r && !hp.referenced r && !s.released then s.runs r + 1 else s.runs r) = _
  rw [hrel, Bool.not_true, Bool.and_false, if_neg Bool.false_ne_true]
  exact hi.settled hrel r

theorem step_inv {a : Act} (hi : Inv s) (hsafe : Safe s a) (h : step s a = some t) : Inv t := by
  cases a with
  | addFinalizer o record definition reference =>
    unfold step State.addFinalizer at h
    dsimp only at h
    split at h
    · cases h
      exact hi
    · rename_i hrel
      rw [Bool.not_eq_true] at hrel
      have hp₀ := hi.placed hrel
      split at h
      · cases h
      · rename_i obj hobj
        cases record with
        | false =>
          cases h
          exact ⟨hi.formed, fun _ => recordless_placed hp₀ hi.formed hobj,
            fun hr => absurd (hrel.symm.trans hr) (by decide)⟩
        | true =>
          obtain ⟨rfl, rfl, hattach, hroom⟩ : definition = .own ∧ reference = true ∧ Room s o := by
            rcases hsafe with hr | hr | hr
            · exact absurd (hrel.symm.trans hr) (by decide)
            · cases hr
            · exact hr
          rw [if_neg (by decide)] at h
          cases hpr : obj.proxy with
          | true =>
            rw [hpr] at h
            cases h
          | false =>
            rw [hpr] at h
            dsimp only at h
            rw [hobj, Option.bind_some] at hattach
            obtain ⟨obj', hat⟩ := Option.isSome_iff_exists.mp hattach
            rw [hat] at h
            cases h
            exact attach_placed hp₀ hi.formed hrel hobj hpr hat hroom
  | script op =>
    obtain ⟨hp, hop, rfl⟩ := Option.map_eq_some_iff.mp h
    have he := script_effect hi.formed hop
    rcases hsafe with hrel | hleaves
    · exact sweep_settled hi hrel he.formed
    · by_cases hrel : s.released = true
      · exact sweep_settled hi hrel he.formed
      · have hrel' : s.released = false := Bool.eq_false_iff.mpr hrel
        exact ⟨he.formed,
          fun _ => script_placed (hi.placed hrel') hi.formed hrel' hop (hleaves hp hop),
          fun hr => absurd hr hrel⟩
  | release =>
    cases h
    exact release_inv hi

theorem init_inv : Inv {} := by
  refine ⟨⟨fun _ _ => rfl, nofun⟩, fun _ => ⟨?_, nofun, nofun, nofun, fun _ _ => rfl, fun _ _ => rfl⟩, nofun⟩
  intro r hr
  exact absurd hr (Nat.not_lt_zero r)

theorem Inv.finalized (hi : Inv s) : Finalized s := by
  cases hrel : s.released with
  | true =>
    have hruns := hi.settled hrel
    refine ⟨?_, ?_, ?_, ?_⟩
    · intro r
      rw [hruns]
      exact Bool.toNat_le _
    · intro r _ _ hr
      exact absurd (hrel.symm.trans hr) (by decide)
    · intro r ha _
      rw [hruns, ha]
      rfl
    · intro r _ ha
      rw [hruns, ha]
      rfl
  | false =>
    have hp₀ := hi.placed hrel
    refine ⟨?_, ?_, ?_, ?_⟩
    · intro r
      cases hl : s.live r with
      | true => exact (hp₀.live r hl).2.2.2.le.trans (Nat.zero_le _)
      | false =>
        cases ha : s.accepted r with
        | true => exact (hp₀.gone r hl ha).1.le
        | false => exact (hp₀.failed r ha).le.trans (Nat.zero_le _)
    · intro r ha halive _
      cases hl : s.live r with
      | true => exact (hp₀.live r hl).2.2.2
      | false => exact absurd (hp₀.gone r hl ha).2 halive
    · intro r ha hor
      have hnone : s.objects (s.target r) = none := by
        rcases hor with hnone | hr
        · exact hnone
        · exact absurd (hrel.symm.trans hr) (by decide)
      cases hl : s.live r with
      | true =>
        have hplace : s.recordOf (s.target r) = some r := (hp₀.live r hl).2.1
        unfold Heap.recordOf at hplace
        rw [hnone] at hplace
        cases hplace
      | false => exact (hp₀.gone r hl ha).1
    · intro r _ ha
      exact hp₀.failed r ha

/-- In a run whose steps leave each record in the slot of its object, a callback runs once, when
    its object dies or the env is released, and that of a call that failed does not run. -/
theorem finalizers_once {acts : List Act} (hr : run step {} acts = some s)
    (hsafe : AllSteps step Safe {} acts) : Finalized s :=
  (invariant_of_allSteps (fun _ _ _ h hsafe hi => step_inv hi hsafe h) hr hsafe init_inv).finalized

end

/-- Two objects with a finalizer each. One dies, the other sees the release. -/
def twoObjects : List Act :=
  [.script (.newObject false), .addFinalizer 0 true .own true, .script (.newObject false),
    .addFinalizer 1 true .own true, .script (.die 0), .release]

theorem twoObjects_finalized :
    ∃ s, run step {} twoObjects = some s ∧ s.runs 0 = 1 ∧ s.runs 1 = 1 ∧ Finalized s := by
  have hsafe : AllSteps step Safe {} twoObjects := by decide
  exact ⟨_, rfl, rfl, rfl, finalizers_once (show run step {} twoObjects = some _ from rfl) hsafe⟩

/-- A second finalizer on the same object. -/
def twice : List Act :=
  [.script (.newObject false), .addFinalizer 0 true .own true, .addFinalizer 0 true .own true]

/-- The callback of the first has run, and the object is alive. -/
theorem twice_not_finalized : ∃ s, run step {} twice = some s ∧ ¬ Finalized s := by
  refine ⟨_, rfl, ?_⟩
  intro hf
  have := hf.notEarly 0 rfl (Option.some_ne_none _) rfl
  cases this

end Finalizers
end WasmerNapi.Quickjs.Records
