import WasmerNapi.Lib.Run
import WasmerNapi.Lib.Table

/-!
# A record in a property

`napi_wrap` and `napi_add_finalizer` (`src/quickjs/src/js_native_api_quickjs.cc`) keep what
they know about an object in a *record*, an object of a class of its own, and the record in a
property of the object: `__napi_wrap__`, or `__napi_finalizer__`. The property is an own
property like any other. A script reads it, and then holds the record as it holds any value;
deletes it, since it is configurable; defines it, on this object or on another; and an object
that is sealed or frozen takes no new one.

A record is freed when the last reference to it goes, at once. The references are the
properties of the objects that are alive and what scripts hold. This file is about one such
property, whichever of the two it is: what an object has there is its *slot*. What the traps of
a proxy do is not determined by the heap, and a proxy has no slot here.
-/

namespace WasmerNapi.Quickjs.Records

open Function (update update_self update_of_ne)

inductive Value where
  | record (r : ℕ)
  | other
  deriving DecidableEq

def Value.record? : Value → Option ℕ
  | .record r => some r
  | .other => none

structure Slot where
  value : Value
  configurable : Bool
  writable : Bool
  deriving DecidableEq

structure Object where
  proxy : Bool := false
  extensible : Bool := true
  slot : Option Slot := none
  deriving DecidableEq

namespace Object

/-- `JS_DefinePropertyValueStr` with `JS_PROP_CONFIGURABLE` and nothing else: `none` is its
    answer `0`. -/
def attach (obj : Object) (r : ℕ) : Option Object :=
  let attached := { obj with slot := some ⟨.record r, true, false⟩ }
  match obj.slot with
  | none => if obj.extensible then some attached else none
  | some old => if old.configurable then some attached else none

/-- `Object.defineProperty` in a script, and an assignment as far as it comes to that. -/
def define (obj : Object) (slot : Slot) : Option Object :=
  match obj.slot with
  | none => if obj.extensible then some { obj with slot := some slot } else none
  | some old =>
    if old.configurable then some { obj with slot := some slot }
    else if old.writable && !slot.configurable then some { obj with slot := some slot }
    else none

def delete (obj : Object) : Option Object :=
  match obj.slot with
  | none => some obj
  | some old => if old.configurable then some { obj with slot := none } else none

def preventExtensions (obj : Object) : Object := { obj with extensible := false }

def sealProperties (obj : Object) : Object :=
  { obj with
    extensible := false
    slot := obj.slot.map fun slot => { slot with configurable := false } }

def freeze (obj : Object) : Object :=
  { obj with
    extensible := false
    slot := obj.slot.map fun slot => { slot with configurable := false, writable := false } }

/-- The record in the slot. -/
def record? (obj : Object) : Option ℕ := obj.slot.bind fun slot => slot.value.record?

end Object

/-- Objects have names that are not used again; `none` is one that is dead, or not made yet.
    `held` counts what scripts hold of each record. -/
structure Heap where
  objects : ℕ → Option Object := fun _ => none
  nextObject : ℕ := 0
  held : ℕ → ℕ := fun _ => 0

/-- What scripts and the collector do. -/
inductive Script where
  | newObject (proxy : Bool)
  | define (o : ℕ) (slot : Slot)
  | delete (o : ℕ)
  | preventExtensions (o : ℕ)
  | sealProperties (o : ℕ)
  | freeze (o : ℕ)
  | read (o : ℕ)
  | drop (r : ℕ)
  | die (o : ℕ)
  deriving DecidableEq

namespace Heap

/-- The record in the slot of an object that is alive. -/
def recordOf (hp : Heap) (o : ℕ) : Option ℕ := (hp.objects o).bind Object.record?

/-- Some reference to the record is left. -/
def referenced (hp : Heap) (r : ℕ) : Bool :=
  decide (0 < hp.held r) || (List.range hp.nextObject).any fun o => hp.recordOf o = some r

def set (hp : Heap) (o : ℕ) (obj : Option Object) : Heap :=
  { hp with objects := update hp.objects o obj }

/-- An operation of a script on an object that is alive and no proxy; one that is refused
    changes nothing. -/
def onObject (hp : Heap) (o : ℕ) (f : Object → Option Object) : Option Heap :=
  match hp.objects o with
  | none => none
  | some obj => if obj.proxy then some hp else some (hp.set o (some ((f obj).getD obj)))

/-- A script can define only a record that it holds. -/
def holds (hp : Heap) : Value → Bool
  | .record r => decide (0 < hp.held r)
  | .other => true

def script (hp : Heap) : Script → Option Heap
  | .newObject proxy =>
    some { hp with
      objects := update hp.objects hp.nextObject (some { proxy })
      nextObject := hp.nextObject + 1 }
  | .define o slot => if hp.holds slot.value then hp.onObject o fun obj => obj.define slot else none
  | .delete o => hp.onObject o Object.delete
  | .preventExtensions o => hp.onObject o fun obj => some obj.preventExtensions
  | .sealProperties o => hp.onObject o fun obj => some obj.sealProperties
  | .freeze o => hp.onObject o fun obj => some obj.freeze
  | .read o =>
    match hp.recordOf o with
    | none => some hp
    | some r => some { hp with held := update hp.held r (hp.held r + 1) }
  | .drop r =>
    if hp.held r = 0 then none
    else some { hp with held := update hp.held r (hp.held r - 1) }
  | .die o =>
    match hp.objects o with
    | none => none
    | some _ => some (hp.set o none)

end Heap

/-! ## References -/

/-- Objects are numbered in order, and a proxy has no slot. -/
structure Formed (hp : Heap) : Prop where
  fresh : ∀ o, hp.nextObject ≤ o → hp.objects o = none
  proxy : ∀ o obj, hp.objects o = some obj → obj.proxy = true → obj.slot = none

variable {hp hp' : Heap}

theorem referenced_iff (hf : Formed hp) (r : ℕ) :
    hp.referenced r = true ↔ 0 < hp.held r ∨ ∃ o, hp.recordOf o = some r := by
  unfold Heap.referenced
  rw [Bool.or_eq_true, decide_eq_true_iff, List.any_eq_true]
  refine or_congr_right ⟨?_, ?_⟩
  · rintro ⟨o, _, ho⟩
    exact ⟨o, of_decide_eq_true ho⟩
  · rintro ⟨o, ho⟩
    refine ⟨o, List.mem_range.mpr ?_, decide_eq_true ho⟩
    by_contra hle
    unfold Heap.recordOf at ho
    rw [hf.fresh o (not_lt.mp hle)] at ho
    cases ho

theorem recordOf_set (hp : Heap) (o : ℕ) (obj : Option Object) (o' : ℕ) :
    (hp.set o obj).recordOf o' = if o' = o then obj.bind Object.record? else hp.recordOf o' := by
  unfold Heap.recordOf
  show (update hp.objects o obj o').bind Object.record? = _
  by_cases ho : o' = o
  · rw [if_pos ho, ho, update_self]
  · rw [if_neg ho, update_of_ne ho]

theorem Formed.set {o : ℕ} {obj obj' : Object} (hf : Formed hp) (hobj : hp.objects o = some obj)
    (hnp : obj'.proxy = false) : Formed (hp.set o (some obj')) := by
  refine ⟨?_, ?_⟩
  · intro o' hle
    exact Table.update_fresh hf.fresh hobj hle
  · intro o' obj₁ hobj₁ hpr
    by_cases heq : o' = o
    · subst heq
      cases (update_self ..).symm.trans hobj₁
      rw [hnp] at hpr
      cases hpr
    · exact hf.proxy o' obj₁ ((update_of_ne heq ..).symm.trans hobj₁) hpr

theorem Object.record?_seal (obj : Object) : obj.sealProperties.record? = obj.record? := by
  unfold Object.sealProperties Object.record?
  cases obj.slot with
  | none => rfl
  | some slot => rfl

theorem Object.record?_freeze (obj : Object) : obj.freeze.record? = obj.record? := by
  unfold Object.freeze Object.record?
  cases obj.slot with
  | none => rfl
  | some slot => rfl

/-- The operations that can change what is in the slot of `o`. -/
def Script.touches (o : ℕ) : Script → Bool
  | .define o' _ | .delete o' | .die o' => o' = o
  | _ => false

section

variable {o : ℕ} {f : Object → Option Object}

theorem onObject_cases (h : hp.onObject o f = some hp') :
    hp' = hp ∨ ∃ obj, hp.objects o = some obj ∧ obj.proxy = false ∧
      hp' = hp.set o (some ((f obj).getD obj)) := by
  unfold Heap.onObject at h
  split at h
  · cases h
  · rename_i obj hobj
    split at h
    · cases h
      exact .inl rfl
    · rename_i hp
      cases h
      exact .inr ⟨obj, hobj, Bool.eq_false_iff.mpr hp, rfl⟩

/-- An operation on an object leaves the others and what is held, and the object alive. -/
theorem onObject_spec (hf : Formed hp) (h : hp.onObject o f = some hp')
    (hproxy : ∀ obj obj', f obj = some obj' → obj'.proxy = obj.proxy) :
    Formed hp' ∧ hp'.held = hp.held ∧ (∀ o', hp'.objects o' = none ↔ hp.objects o' = none) ∧
      (∀ o', o' ≠ o → hp'.recordOf o' = hp.recordOf o') ∧
      (hp'.recordOf o = hp.recordOf o ∨
        ∃ obj obj', hp.objects o = some obj ∧ f obj = some obj' ∧ hp'.recordOf o = obj'.record?) := by
  rcases onObject_cases h with rfl | ⟨obj, hobj, hnp, rfl⟩
  · exact ⟨hf, rfl, fun _ => Iff.rfl, fun _ _ => rfl, .inl rfl⟩
  · refine ⟨⟨?_, ?_⟩, rfl, ?_, ?_, ?_⟩
    · intro o' hle
      exact Table.update_fresh hf.fresh hobj hle
    · intro o' obj' hobj' hpr
      have hobj' : update hp.objects o _ o' = some obj' := hobj'
      by_cases heq : o' = o
      · rw [heq, update_self] at hobj'
        cases hobj'
        cases hfo : f obj with
        | none =>
          rw [hfo, Option.getD_none, hnp] at hpr
          cases hpr
        | some obj₁ =>
          rw [hfo, Option.getD_some, hproxy obj obj₁ hfo, hnp] at hpr
          cases hpr
      · rw [update_of_ne heq] at hobj'
        exact hf.proxy o' obj' hobj' hpr
    · intro o'
      show update hp.objects o _ o' = none ↔ _
      by_cases heq : o' = o
      · rw [heq, update_self, hobj]
        exact iff_of_false (Option.some_ne_none _) (Option.some_ne_none _)
      · rw [update_of_ne heq]
    · intro o' hne
      rw [recordOf_set, if_neg hne]
    · rw [recordOf_set, if_pos rfl]
      cases hfo : f obj with
      | none =>
        refine .inl ?_
        unfold Heap.recordOf
        rw [hobj]
        rfl
      | some obj₁ => exact .inr ⟨obj, obj₁, hobj, hfo, rfl⟩

end

/-- What an operation of a script can do to references: a slot it does not touch stays, and
    no reference comes to a record that had none. -/
structure Effect (hp hp' : Heap) (op : Script) : Prop where
  formed : Formed hp'
  nextObject : hp.nextObject ≤ hp'.nextObject
  kept : ∀ o, op.touches o = false → o < hp.nextObject → hp'.recordOf o = hp.recordOf o
  alive : ∀ o, hp.objects o ≠ none → op ≠ .die o → hp'.objects o ≠ none
  dead : ∀ o, o < hp.nextObject → hp.objects o = none → hp'.objects o = none
  died : ∀ o, op = .die o → hp'.objects o = none
  slots : ∀ o r, hp'.recordOf o = some r → hp.recordOf o = some r ∨ 0 < hp.held r
  held : ∀ r, 0 < hp'.held r → 0 < hp.held r ∨ ∃ o, hp.recordOf o = some r

theorem effect_onObject {op : Script} {o : ℕ} {f : Object → Option Object} (hf : Formed hp)
    (h : hp.onObject o f = some hp') (hdie : ∀ o, op ≠ .die o)
    (hproxy : ∀ obj obj', f obj = some obj' → obj'.proxy = obj.proxy)
    (hrec : ∀ obj obj', f obj = some obj' →
      obj'.record? = obj.record? ∨ op.touches o = true ∧ ∀ r, obj'.record? = some r → 0 < hp.held r) :
    Effect hp hp' op := by
  obtain ⟨hformed, hheld, halive, hother, hself⟩ := onObject_spec hf h hproxy
  have hnext : hp'.nextObject = hp.nextObject := by
    rcases onObject_cases h with rfl | ⟨_, _, _, rfl⟩
    · rfl
    · rfl
  -- What is in the slot of `o` itself.
  have hslot : hp'.recordOf o = hp.recordOf o ∨
      op.touches o = true ∧ ∀ r, hp'.recordOf o = some r → 0 < hp.held r := by
    rcases hself with heq | ⟨obj, obj', hobj, hfo, heq⟩
    · exact .inl heq
    · rcases hrec obj obj' hfo with hsame | ⟨ht, hr⟩
      · refine .inl ?_
        rw [heq, hsame]
        unfold Heap.recordOf
        rw [hobj]
        rfl
      · rw [heq]
        exact .inr ⟨ht, hr⟩
  refine ⟨hformed, hnext.ge, ?_, ?_, ?_, ?_, ?_, ?_⟩
  · intro o' ht _
    by_cases heq : o' = o
    · subst heq
      rcases hslot with hsame | ⟨ht', _⟩
      · exact hsame
      · rw [ht] at ht'
        cases ht'
    · exact hother o' heq
  · intro o' hne _
    exact fun hnone => hne ((halive o').mp hnone)
  · intro o' _ hnone
    exact (halive o').mpr hnone
  · intro o' hop
    exact absurd hop (hdie o')
  · intro o' r hr
    by_cases heq : o' = o
    · subst heq
      rcases hslot with hsame | ⟨_, hh⟩
      · exact .inl (hsame.symm.trans hr)
      · exact .inr (hh r hr)
    · exact .inl ((hother o' heq).symm.trans hr)
  · intro r hr
    rw [hheld] at hr
    exact .inl hr

theorem define_record {obj obj' : Object} {slot : Slot} (h : obj.define slot = some obj') :
    obj'.proxy = obj.proxy ∧ obj'.record? = slot.value.record? := by
  unfold Object.define at h
  split at h
  · split at h
    · cases h
      exact ⟨rfl, rfl⟩
    · cases h
  · split at h
    · cases h
      exact ⟨rfl, rfl⟩
    · split at h
      · cases h
        exact ⟨rfl, rfl⟩
      · cases h

theorem delete_record {obj obj' : Object} (h : obj.delete = some obj') :
    obj'.proxy = obj.proxy ∧ obj'.record? = none := by
  unfold Object.delete at h
  split at h
  · rename_i hs
    cases h
    refine ⟨rfl, ?_⟩
    unfold Object.record?
    rw [hs]
    rfl
  · split at h
    · cases h
      exact ⟨rfl, rfl⟩
    · cases h

theorem effect_newObject {proxy : Bool} (hf : Formed hp)
    (h : hp.script (.newObject proxy) = some hp') : Effect hp hp' (.newObject proxy) := by
  cases h
  have hof := recordOf_set hp hp.nextObject (some { proxy })
  refine ⟨⟨?_, ?_⟩, Nat.le_succ _, ?_, ?_, ?_, by simp, ?_, fun r hr => .inl hr⟩
  · intro o hle
    have hlt : hp.nextObject + 1 ≤ o := hle
    exact (update_of_ne (Nat.ne_of_gt hlt) ..).trans (hf.fresh o (Nat.le_of_succ_le hlt))
  · intro o obj hobj hpr
    rcases Table.update_cases hobj with ⟨_, rfl⟩ | ⟨_, hobj⟩
    · rfl
    · exact hf.proxy o obj hobj hpr
  · intro o _ hlt
    exact (hof o).trans (if_neg (Nat.ne_of_lt hlt))
  · intro o hne _
    have hne' : o ≠ hp.nextObject := by
      rintro rfl
      exact hne (hf.fresh _ le_rfl)
    exact (update_of_ne hne' ..).trans_ne hne
  · intro o hlt hnone
    exact (update_of_ne (Nat.ne_of_lt hlt) ..).trans hnone
  · intro o r hr
    replace hr := (hof o).symm.trans hr
    split at hr
    · cases hr
    · exact .inl hr

/-- Only the counts of the references that a script holds change. -/
theorem effect_held {op : Script} {held : ℕ → ℕ} (hf : Formed hp) (hdie : ∀ o, op ≠ .die o)
    (hheld : ∀ r, 0 < held r → 0 < hp.held r ∨ ∃ o, hp.recordOf o = some r) :
    Effect hp { hp with held } op :=
  ⟨⟨hf.fresh, hf.proxy⟩, le_rfl, fun _ _ _ => rfl, fun _ hne _ => hne, fun _ _ hnone => hnone,
    fun o heq => absurd heq (hdie o), fun _ _ hr => .inl hr, hheld⟩

theorem effect_die {o : ℕ} (hf : Formed hp) (h : hp.script (.die o) = some hp') :
    Effect hp hp' (.die o) := by
  unfold Heap.script at h
  dsimp only at h
  split at h
  · cases h
  · rename_i obj hobj
    cases h
    have hof := recordOf_set hp o none
    have hobjs : ∀ o', o' ≠ o → (hp.set o none).objects o' = hp.objects o' :=
      fun o' hne => update_of_ne hne ..
    have hself : (hp.set o none).objects o = none := update_self ..
    refine ⟨⟨?_, ?_⟩, le_rfl, ?_, ?_, ?_, ?_, ?_, fun _ hr => .inl hr⟩
    · intro o' hle
      by_cases heq : o' = o
      · rw [heq, hself]
      · rw [hobjs o' heq]
        exact hf.fresh o' hle
    · intro o' obj' hobj' hpr
      exact hf.proxy o' obj' (Table.update_none_cases hobj').2 hpr
    · intro o' ht _
      have hne : o' ≠ o := by
        rintro rfl
        exact of_decide_eq_false ht rfl
      rw [hof, if_neg hne]
    · intro o' hne hop
      have heq : o' ≠ o := by
        rintro rfl
        exact hop rfl
      rw [hobjs o' heq]
      exact hne
    · intro o' _ hnone
      by_cases heq : o' = o
      · rw [heq, hself]
      · rw [hobjs o' heq, hnone]
    · intro o' hop
      cases hop
      exact hself
    · intro o' r hr
      rw [hof] at hr
      split at hr
      · cases hr
      · exact .inl hr

theorem script_effect {op : Script} (hf : Formed hp) (h : hp.script op = some hp') :
    Effect hp hp' op := by
  cases op with
  | newObject proxy => exact effect_newObject hf h
  | define o slot =>
    unfold Heap.script at h
    dsimp only at h
    split at h
    · rename_i hholds
      refine effect_onObject hf h (by simp) (fun _ _ hd => (define_record hd).1) ?_
      intro obj obj' hd
      refine .inr ⟨decide_eq_true rfl, ?_⟩
      intro r hr
      rw [(define_record hd).2] at hr
      cases hv : slot.value with
      | record r' =>
        rw [hv] at hr hholds
        cases hr
        exact of_decide_eq_true hholds
      | other =>
        rw [hv] at hr
        cases hr
    · cases h
  | delete o =>
    refine effect_onObject hf h (by simp) (fun _ _ hd => (delete_record hd).1) ?_
    intro obj obj' hd
    refine .inr ⟨decide_eq_true rfl, ?_⟩
    intro r hr
    rw [(delete_record hd).2] at hr
    cases hr
  | preventExtensions o =>
    refine effect_onObject hf h (by simp) ?_ ?_
    · intro obj obj' hd
      cases hd
      rfl
    · intro obj obj' hd
      cases hd
      exact .inl rfl
  | sealProperties o =>
    refine effect_onObject hf h (by simp) ?_ ?_
    · intro obj obj' hd
      cases hd
      rfl
    · intro obj obj' hd
      cases hd
      exact .inl obj.record?_seal
  | freeze o =>
    refine effect_onObject hf h (by simp) ?_ ?_
    · intro obj obj' hd
      cases hd
      rfl
    · intro obj obj' hd
      cases hd
      exact .inl obj.record?_freeze
  | read o =>
    unfold Heap.script at h
    dsimp only at h
    split at h
    · cases h
      exact effect_held hf (by simp) fun _ hr => .inl hr
    · rename_i r hr
      cases h
      refine effect_held hf (by simp) ?_
      intro r' hr'
      by_cases heq : r' = r
      · subst heq
        exact .inr ⟨o, hr⟩
      · rw [update_of_ne heq] at hr'
        exact .inl hr'
  | drop r =>
    unfold Heap.script at h
    dsimp only at h
    split at h
    · cases h
    · rename_i hne
      cases h
      refine effect_held hf (by simp) ?_
      intro r' hr'
      by_cases heq : r' = r
      · subst heq
        exact .inl (Nat.pos_of_ne_zero hne)
      · rw [update_of_ne heq] at hr'
        exact .inl hr'
  | die o => exact effect_die hf h

/-- A script makes no reference to a record that had none. -/
theorem Effect.referenced {hp hp' : Heap} {op : Script} (he : Effect hp hp' op) (hf : Formed hp)
    {r : ℕ} (h : hp'.referenced r = true) : hp.referenced r = true := by
  rw [referenced_iff he.formed] at h
  rw [referenced_iff hf]
  rcases h with hheld | ⟨o, ho⟩
  · exact he.held r hheld
  · rcases he.slots o r ho with hslot | hheld
    · exact .inr ⟨o, hslot⟩
    · exact .inl hheld

end WasmerNapi.Quickjs.Records
