import WasmerNapi.Lib.Decimal
import WasmerNapi.Lib.Run

/-!
# Type tags in the QuickJS backend

`napi_type_tag_object` and `napi_check_object_type_tag` in
`src/quickjs/src/js_native_api_quickjs.cc`. The tag of an object is the string property
`__napi_type_tag__`: the model keeps that property of every object, its prototype, and the
proxies, and lets scripts do to them what the engine allows.
-/

namespace WasmerNapi.Quickjs.TypeTags

open Run

/-- `napi_type_tag` -/
structure TypeTag where
  lower : UInt64
  upper : UInt64
  deriving DecidableEq

/-- A decimal number in ASCII. -/
def decimal (n : UInt64) : List UInt8 :=
  (Decimal.numeral n.toNat).map fun d => UInt8.ofNat (0x30 + d)

/-- `"%llu:%llu"` of the two halves, which fits the buffer. -/
def encode (tag : TypeTag) : List UInt8 := decimal tag.lower ++ 0x3a :: decimal tag.upper

/-- What a property gives: a string, in UTF-8, or something else. -/
inductive Value where
  | string (text : List UInt8)
  | other
  deriving DecidableEq

/-- The property `__napi_type_tag__` of an object. A getter stands for what it returns, and one
    that throws for something else. -/
inductive Slot where
  | data (value : Value) (writable configurable : Bool)
  | accessor (value : Value) (configurable : Bool)
  deriving DecidableEq

def Slot.value : Slot → Value
  | .data value _ _ => value
  | .accessor value _ => value

def Slot.configurable : Slot → Bool
  | .data _ _ configurable => configurable
  | .accessor _ configurable => configurable

/-- An object, or a proxy: what its `get` trap answers when it does not forward, and whether its
    `defineProperty` trap forwards. -/
inductive Kind where
  | ordinary (slot : Option Slot) (proto : Option ℕ) (extensible : Bool)
  | proxy (target : ℕ) (get : Option Value) (forwards : Bool)
  deriving DecidableEq

/-- The objects are those below `size`. `tagged` is the tag each was first told to carry by a call
    that returned `napi_ok`. -/
structure State where
  size : ℕ := 0
  kind : ℕ → Kind := fun _ => .ordinary none none true
  tagged : ℕ → Option TypeTag := fun _ => none

/-- Where the lookup goes on from an object. -/
def Kind.next : Kind → Option ℕ
  | .ordinary _ proto _ => proto
  | .proxy target _ _ => some target

/-- `JS_GetPropertyStr` of the tag. A chain without a cycle has no more objects than there are; a
    cycle through a proxy ends in an exception. -/
def lookup (s : State) : ℕ → ℕ → Option Value
  | 0, _ => none
  | fuel + 1, o =>
    match s.kind o with
    | .ordinary (some slot) _ _ => some slot.value
    | .ordinary none none _ => none
    | .ordinary none (some proto) _ => lookup s fuel proto
    | .proxy _ (some value) _ => some value
    | .proxy target none _ => lookup s fuel target

def getTag (s : State) (o : ℕ) : Option Value := lookup s s.size o

/-- What `strcmp` compares of a string. -/
def cString (text : List UInt8) : List UInt8 := text.takeWhile (· ≠ 0)

/-- `napi_check_object_type_tag` of an object: the result. -/
def checkObjectTypeTag (s : State) (o : ℕ) (tag : TypeTag) : Bool :=
  match getTag s o with
  | some (.string stored) => cString stored = cString (encode tag)
  | some .other => false
  | none => false

/-- `JS_DefinePropertyValueStr` of the tag with `JS_PROP_C_W_E`, on the object the traps lead to.
    Its answer is not looked at. -/
def defineTag (value : Value) (s : State) : ℕ → ℕ → State
  | 0, _ => s
  | fuel + 1, o =>
    match s.kind o with
    | .ordinary none proto extensible =>
      if extensible then
        { s with kind :=
            Function.update s.kind o (.ordinary (some (.data value true true)) proto extensible) }
      else s
    | .ordinary (some slot) proto extensible =>
      if slot.configurable then
        { s with kind :=
            Function.update s.kind o (.ordinary (some (.data value true true)) proto extensible) }
      else s
    | .proxy target _ forwards => if forwards then defineTag value s fuel target else s

inductive Status where
  | ok
  | invalidArg
  deriving DecidableEq

/-- `napi_type_tag_object` of an object. -/
def typeTagObject (s : State) (o : ℕ) (tag : TypeTag) : State × Status :=
  (defineTag (.string (encode tag)) s s.size o, .ok)

/-! ## Runs -/

inductive Act where
  | newObject (proto : Option ℕ)
  | newProxy (target : ℕ) (get : Option Value) (forwards : Bool)
  | setPrototype (o : ℕ) (proto : Option ℕ)
  | preventExtensions (o : ℕ)
  | freeze (o : ℕ)
  /-- A script defines, assigns or deletes the property. -/
  | writeTag (o : ℕ) (slot : Option Slot)
  | typeTag (o : ℕ) (tag : TypeTag)
  deriving DecidableEq

def Kind.withProto (proto : Option ℕ) : Kind → Kind
  | .ordinary slot _ true => .ordinary slot proto true
  | kind => kind

def Kind.withoutExtensions : Kind → Kind
  | .ordinary slot proto _ => .ordinary slot proto false
  | kind => kind

def Slot.frozen : Slot → Slot
  | .data value _ _ => .data value false false
  | .accessor value _ => .accessor value false

def Kind.frozen : Kind → Kind
  | .ordinary slot proto _ => .ordinary (slot.map Slot.frozen) proto false
  | kind => kind

def Kind.withSlot (slot : Option Slot) : Kind → Kind
  | .ordinary _ proto extensible => .ordinary slot proto extensible
  | kind => kind

/-- An object that is there, or none. -/
def Known (s : State) (o : Option ℕ) : Prop := ∀ p, o = some p → p < s.size

instance (s : State) (o : Option ℕ) : Decidable (Known s o) :=
  match o with
  | none => .isTrue nofun
  | some p =>
    decidable_of_iff (p < s.size) ⟨fun h _ he => Option.some.inj he ▸ h, fun h => h p rfl⟩

def State.add (kind : Kind) (s : State) : State :=
  { s with size := s.size + 1, kind := Function.update s.kind s.size kind }

def State.change (o : ℕ) (f : Kind → Kind) (s : State) : State :=
  { s with kind := Function.update s.kind o (f (s.kind o)) }

/-- The engine refuses a prototype that would close a cycle, and a script's change of a property
    that is not configurable; the runs are not held to either. -/
def step (s : State) : Act → Option State
  | .newObject proto => if Known s proto then some (s.add (.ordinary none proto true)) else none
  | .newProxy target get forwards =>
    if target < s.size then some (s.add (.proxy target get forwards)) else none
  | .setPrototype o proto =>
    if o < s.size ∧ Known s proto then some (s.change o (Kind.withProto proto)) else none
  | .preventExtensions o =>
    if o < s.size then some (s.change o Kind.withoutExtensions) else none
  | .freeze o => if o < s.size then some (s.change o Kind.frozen) else none
  | .writeTag o slot => if o < s.size then some (s.change o (Kind.withSlot slot)) else none
  | .typeTag o tag =>
    if o < s.size then
      let out := typeTagObject s o tag
      some
        { out.1 with
          tagged :=
            if out.2 = .ok ∧ s.tagged o = none then Function.update s.tagged o (some tag)
            else s.tagged }
    else none

/-- Checks tell what objects were tagged with. -/
def Sound (s : State) : Prop :=
  ∀ o < s.size, ∀ tag, checkObjectTypeTag s o tag = true ↔ s.tagged o = some tag

/-- An object that carries a tag is not tagged again. -/
def Refuses (s : State) : Act → Prop
  | .typeTag o tag =>
    s.tagged o ≠ none → (typeTagObject s o tag).2 ≠ .ok ∧ (typeTagObject s o tag).1 = s
  | _ => True

/-- An untagged object may be the prototype, or the target, of an untagged object. -/
def Untagged (s : State) (o : Option ℕ) : Prop := ∀ p, o = some p → s.tagged p = none

/-- The condition on a step. Scripts leave the property alone; an object that is tagged is an
    extensible object, not a proxy, is not tagged yet and is not the prototype or target of an
    untagged one, and no untagged object comes to have a tagged one for its prototype or
    target. -/
def Honest (s : State) : Act → Prop
  | .newObject proto => Untagged s proto
  | .newProxy target get _ => s.tagged target = none ∧ ∀ text, get ≠ some (.string text)
  | .setPrototype o proto => s.tagged o = none → Untagged s proto
  | .preventExtensions _ => True
  | .freeze _ => True
  | .writeTag _ _ => False
  | .typeTag o _ =>
    s.tagged o = none ∧ (∃ slot proto, s.kind o = .ordinary slot proto true) ∧
      ∀ x < s.size, (s.kind x).next = some o → s.tagged x ≠ none

/-! ## The text of a tag -/

theorem decimal_digit {n : UInt64} : ∀ b ∈ decimal n, 0x30 ≤ b.toNat ∧ b.toNat ≤ 0x39 := by
  intro b hb
  obtain ⟨d, hd, rfl⟩ := List.mem_map.mp hb
  have hlt := (Decimal.numeral_canonical n.toNat).digit d hd
  rw [UInt8.toNat_ofNat']
  omega

theorem decimal_injective : Function.Injective decimal := by
  intro m n h
  have hmap : (Decimal.numeral m.toNat).map (fun d => UInt8.ofNat (0x30 + d)) =
      (Decimal.numeral n.toNat).map fun d => UInt8.ofNat (0x30 + d) := h
  have hback (n : ℕ) : ((Decimal.numeral n).map fun d => UInt8.ofNat (0x30 + d)).map
      (fun b => b.toNat - 0x30) = Decimal.numeral n := by
    rw [List.map_map]
    refine (List.map_congr_left fun d hd => ?_).trans (List.map_id _)
    have hlt := (Decimal.numeral_canonical n).digit d hd
    simp only [Function.comp_apply, UInt8.toNat_ofNat', id_eq]
    omega
  apply UInt64.toNat_inj.mp
  apply Decimal.numeral_injective
  rw [← hback m.toNat, hmap, hback]

/-- Texts without a separator, around one. -/
theorem append_separator_inj {a b c d : List UInt8} {sep : UInt8} (ha : sep ∉ a) (hc : sep ∉ c)
    (h : a ++ sep :: b = c ++ sep :: d) : a = c ∧ b = d := by
  induction a generalizing c with
  | nil =>
    cases c with
    | nil => simpa using h
    | cons y c =>
      simp only [List.nil_append, List.cons_append, List.cons.injEq] at h
      exact absurd h.1 (by
        rintro rfl
        simp at hc)
  | cons x a ih =>
    cases c with
    | nil =>
      simp only [List.nil_append, List.cons_append, List.cons.injEq] at h
      exact absurd h.1 (by
        rintro rfl
        simp at ha)
    | cons y c =>
      simp only [List.cons_append, List.cons.injEq] at h
      simp only [List.mem_cons, not_or] at ha hc
      obtain ⟨rfl, rfl⟩ := ih ha.2 hc.2 h.2
      exact ⟨by rw [h.1], rfl⟩

theorem separator_not_mem_decimal (n : UInt64) : (0x3a : UInt8) ∉ decimal n := by
  intro h
  have := decimal_digit _ h
  simp at this

theorem encode_injective : Function.Injective encode := by
  intro a b h
  obtain ⟨hlower, hupper⟩ :=
    append_separator_inj (separator_not_mem_decimal a.lower) (separator_not_mem_decimal b.lower) h
  cases a with
  | mk lower upper =>
    cases b with
    | mk lower' upper' =>
      obtain rfl : lower = lower' := decimal_injective hlower
      obtain rfl : upper = upper' := decimal_injective hupper
      rfl

/-- `strcmp` compares the whole of it. -/
theorem cString_encode (tag : TypeTag) : cString (encode tag) = encode tag := by
  apply List.takeWhile_eq_self_iff.mpr
  intro b hb
  have hne : b.toNat ≠ 0 := by
    rcases List.mem_append.mp hb with hb | hb
    · have := decimal_digit b hb
      omega
    · rcases List.mem_cons.mp hb with rfl | hb
      · decide
      · have := decimal_digit b hb
        omega
  simp only [ne_eq, decide_eq_true_eq]
  rintro rfl
  exact hne rfl

/-! ## Honest runs -/

/-- The object carries the tag, as its own. -/
def Carries (tag : TypeTag) (kind : Kind) : Prop :=
  ∃ writable configurable proto extensible, kind =
    .ordinary (some (.data (.string (encode tag)) writable configurable)) proto extensible

/-- The object has no property of its own to be taken for a tag. -/
def Clean (kind : Kind) : Prop :=
  (∃ proto extensible, kind = .ordinary none proto extensible) ∨
    ∃ target get forwards, kind = .proxy target get forwards ∧ ∀ text, get ≠ some (.string text)

/-- Tagged objects carry their tags; untagged ones have none, nor one to inherit. -/
structure Inv (s : State) : Prop where
  bound : ∀ x, s.tagged x ≠ none → x < s.size
  fresh : ∀ x, ¬ x < s.size → s.kind x = .ordinary none none true
  carries : ∀ x tag, s.tagged x = some tag → Carries tag (s.kind x)
  clean : ∀ x, s.tagged x = none → Clean (s.kind x)
  apart : ∀ x, s.tagged x = none → Untagged s (s.kind x).next

theorem inv_init : Inv {} := by
  refine ⟨by simp, by simp, by simp, ?_, ?_⟩
  · intro x _
    exact .inl ⟨none, true, rfl⟩
  · intro x _ p hp
    simp [Kind.next] at hp

variable {s : State}

/-- An untagged object never gives a string for a tag. -/
theorem Inv.lookup_untagged (inv : Inv s) (fuel : ℕ) :
    ∀ x, s.tagged x = none → ∀ text, lookup s fuel x ≠ some (.string text) := by
  induction fuel with
  | zero =>
    intro x _ text h
    simp [lookup] at h
  | succ fuel ih =>
    intro x hx text h
    have hapart := inv.apart x hx
    rcases inv.clean x hx with ⟨proto, extensible, hk⟩ | ⟨target, get, forwards, hk, hget⟩
    · cases proto with
      | none => simp [lookup, hk] at h
      | some proto =>
        simp only [lookup, hk] at h
        exact ih proto (hapart proto (by simp [hk, Kind.next])) text h
    · cases get with
      | some value =>
        simp only [lookup, hk, Option.some.injEq] at h
        exact hget text (by rw [h])
      | none =>
        simp only [lookup, hk] at h
        exact ih target (hapart target (by simp [hk, Kind.next])) text h

theorem Inv.sound (inv : Inv s) : Sound s := by
  intro o ho tag
  unfold checkObjectTypeTag getTag
  cases ht : s.tagged o with
  | some tag' =>
    obtain ⟨writable, configurable, proto, extensible, hk⟩ := inv.carries o tag' ht
    obtain ⟨fuel, hsize⟩ := Nat.exists_eq_succ_of_ne_zero (Nat.ne_of_gt (Nat.zero_lt_of_lt ho))
    have hlookup : lookup s s.size o = some (.string (encode tag')) := by
      rw [hsize]
      simp [lookup, hk, Slot.value]
    simp only [hlookup, cString_encode, decide_eq_true_eq, Option.some.injEq]
    exact encode_injective.eq_iff
  | none =>
    have hnone := inv.lookup_untagged s.size o ht
    cases hl : lookup s s.size o with
    | none => simp
    | some value =>
      cases value with
      | other => simp
      | string text => exact absurd hl (hnone text)

variable {kind : Kind}

/-- A new object that is clean and has nothing to inherit. -/
theorem Inv.add (inv : Inv s) (hclean : Clean kind) (hnext : Untagged s kind.next) :
    Inv (s.add kind) := by
  have huntagged : s.tagged s.size = none := by
    by_contra h
    exact Nat.lt_irrefl _ (inv.bound _ h)
  refine ⟨?_, ?_, ?_, ?_, ?_⟩
  · intro x hx
    exact Nat.lt_succ_of_lt (inv.bound x hx)
  · intro x hx
    have hne : x ≠ s.size := by
      rintro rfl
      exact hx (Nat.lt_succ_self _)
    have hold : ¬ x < s.size := fun h => hx (Nat.lt_succ_of_lt h)
    simpa [State.add, hne] using inv.fresh x hold
  · intro x tag hx
    have hne : x ≠ s.size := by
      rintro rfl
      rw [State.add, huntagged] at hx
      cases hx
    simpa [State.add, hne] using inv.carries x tag hx
  · intro x hx
    by_cases hne : x = s.size
    · simpa [State.add, hne] using hclean
    · simpa [State.add, hne] using inv.clean x hx
  · intro x hx
    by_cases hne : x = s.size
    · subst hne
      simpa [State.add, Untagged] using hnext
    · simpa [State.add, hne, Untagged] using inv.apart x hx

variable {o : ℕ}

/-- A change of one object that keeps its tag, or its want of one. -/
theorem Inv.change (inv : Inv s) (ho : o < s.size) {f : Kind → Kind}
    (hcarries : ∀ tag, s.tagged o = some tag → Carries tag (f (s.kind o)))
    (hclean : s.tagged o = none → Clean (f (s.kind o)) ∧ Untagged s (f (s.kind o)).next) :
    Inv (s.change o f) := by
  refine ⟨inv.bound, ?_, ?_, ?_, ?_⟩
  · intro x hx
    have hne : x ≠ o := by
      rintro rfl
      exact hx ho
    simpa [State.change, hne] using inv.fresh x hx
  · intro x tag hx
    by_cases hne : x = o
    · subst hne
      simpa [State.change] using hcarries tag hx
    · simpa [State.change, hne] using inv.carries x tag hx
  · intro x hx
    by_cases hne : x = o
    · subst hne
      simpa [State.change] using (hclean hx).1
    · simpa [State.change, hne] using inv.clean x hx
  · intro x hx
    by_cases hne : x = o
    · subst hne
      simpa [State.change, Untagged] using (hclean hx).2
    · simpa [State.change, hne, Untagged] using inv.apart x hx

variable {tag : TypeTag}

theorem Carries.withProto (h : Carries tag kind) (proto : Option ℕ) :
    Carries tag (kind.withProto proto) := by
  obtain ⟨writable, configurable, proto', extensible, rfl⟩ := h
  cases extensible with
  | true => exact ⟨writable, configurable, proto, true, rfl⟩
  | false => exact ⟨writable, configurable, proto', false, rfl⟩

theorem Carries.withoutExtensions (h : Carries tag kind) :
    Carries tag kind.withoutExtensions := by
  obtain ⟨writable, configurable, proto, extensible, rfl⟩ := h
  exact ⟨writable, configurable, proto, false, rfl⟩

theorem Carries.frozen (h : Carries tag kind) :
    Carries tag kind.frozen := by
  obtain ⟨writable, configurable, proto, extensible, rfl⟩ := h
  exact ⟨false, false, proto, false, rfl⟩

/-- A change of the prototype, of whether the object is extensible, or a freeze keeps a clean
    object clean. -/
theorem Clean.withProto (h : Clean kind) (proto : Option ℕ) :
    Clean (kind.withProto proto) := by
  rcases h with ⟨proto', extensible, rfl⟩ | ⟨target, get, forwards, rfl, hget⟩
  · cases extensible with
    | true => exact .inl ⟨proto, true, rfl⟩
    | false => exact .inl ⟨proto', false, rfl⟩
  · exact .inr ⟨target, get, forwards, rfl, hget⟩

theorem Clean.withoutExtensions (h : Clean kind) :
    Clean kind.withoutExtensions := by
  rcases h with ⟨proto, extensible, rfl⟩ | ⟨target, get, forwards, rfl, hget⟩
  · exact .inl ⟨proto, false, rfl⟩
  · exact .inr ⟨target, get, forwards, rfl, hget⟩

theorem Clean.frozen (h : Clean kind) : Clean kind.frozen := by
  rcases h with ⟨proto, extensible, rfl⟩ | ⟨target, get, forwards, rfl, hget⟩
  · exact .inl ⟨proto, false, rfl⟩
  · exact .inr ⟨target, get, forwards, rfl, hget⟩

/-- Only a change of the prototype changes where the lookup goes on, and then to it. -/
theorem Kind.next_withProto (kind : Kind) (proto : Option ℕ) :
    (kind.withProto proto).next = proto ∨ (kind.withProto proto).next = kind.next := by
  cases kind with
  | ordinary slot proto' extensible =>
    cases extensible with
    | true => exact .inl rfl
    | false => exact .inr rfl
  | proxy target get forwards => exact .inr rfl

theorem Kind.next_withoutExtensions (kind : Kind) : kind.withoutExtensions.next = kind.next := by
  cases kind with
  | ordinary slot proto extensible => rfl
  | proxy target get forwards => rfl

theorem Kind.next_frozen (kind : Kind) : kind.frozen.next = kind.next := by
  cases kind with
  | ordinary slot proto extensible => rfl
  | proxy target get forwards => rfl

/-- Tagging an untagged, extensible object gives it the property. -/
theorem Inv.typeTagObject (inv : Inv s) (ho : o < s.size) (hnone : s.tagged o = none)
    {slot : Option Slot} {proto : Option ℕ} (hk : s.kind o = .ordinary slot proto true)
    (tag : TypeTag) :
    (TypeTags.typeTagObject s o tag).1 =
      { s with
        kind := Function.update s.kind o
          (.ordinary (some (.data (.string (encode tag)) true true)) proto true) } := by
  have hslot : slot = none := by
    rcases inv.clean o hnone with ⟨proto', extensible, hclean⟩ | ⟨target, get, forwards, hclean, _⟩
    · rw [hk] at hclean
      simp only [Kind.ordinary.injEq] at hclean
      exact hclean.1
    · simp [hk] at hclean
  subst hslot
  obtain ⟨fuel, hsize⟩ := Nat.exists_eq_succ_of_ne_zero (Nat.ne_of_gt (Nat.zero_lt_of_lt ho))
  simp [TypeTags.typeTagObject, hsize, defineTag, hk]

theorem inv_typeTag (inv : Inv s) (ho : o < s.size) (honest : Honest s (.typeTag o tag)) :
    Inv { (typeTagObject s o tag).1 with tagged := Function.update s.tagged o (some tag) } := by
  obtain ⟨hnone, ⟨slot, proto, hk⟩, hfollowed⟩ := honest
  rw [inv.typeTagObject ho hnone hk tag]
  refine ⟨?_, ?_, ?_, ?_, ?_⟩
  · intro x hx
    by_cases hne : x = o
    · exact hne ▸ ho
    · exact inv.bound x (by simpa [hne] using hx)
  · intro x hx
    have hne : x ≠ o := by
      rintro rfl
      exact hx ho
    simpa [hne] using inv.fresh x hx
  · intro x tag' hx
    by_cases hne : x = o
    · subst hne
      simp only [Function.update_self, Option.some.injEq] at hx
      subst hx
      exact ⟨true, true, proto, true, by simp⟩
    · simpa [hne] using inv.carries x tag' (by simpa [hne] using hx)
  · intro x hx
    have hne : x ≠ o := by
      rintro rfl
      simp at hx
    simpa [hne] using inv.clean x (by simpa [hne] using hx)
  · intro x hx p hp
    have hne : x ≠ o := by
      rintro rfl
      simp at hx
    have huntagged : s.tagged x = none := by simpa [hne] using hx
    have hnext : (s.kind x).next = some p := by simpa [hne] using hp
    -- Nobody untagged follows the object that was tagged.
    have hpo : p ≠ o := by
      intro he
      rw [he] at hnext
      by_cases hsize : x < s.size
      · exact hfollowed x hsize hnext huntagged
      · rw [inv.fresh x hsize] at hnext
        simp [Kind.next] at hnext
    simpa [hpo] using inv.apart x huntagged p hnext

theorem inv_step {s' : State} {a : Act} (h : step s a = some s') (honest : Honest s a)
    (inv : Inv s) : Inv s' := by
  cases a with
  | newObject proto =>
    simp only [step, Option.ite_none_right_eq_some, Option.some.injEq] at h
    obtain ⟨_, rfl⟩ := h
    exact inv.add (.inl ⟨proto, true, rfl⟩) honest
  | newProxy target get forwards =>
    simp only [step, Option.ite_none_right_eq_some, Option.some.injEq] at h
    obtain ⟨_, rfl⟩ := h
    apply inv.add (.inr ⟨target, get, forwards, rfl, honest.2⟩)
    intro p hp
    simp only [Kind.next, Option.some.injEq] at hp
    exact hp ▸ honest.1
  | setPrototype o proto =>
    simp only [step, Option.ite_none_right_eq_some, Option.some.injEq] at h
    obtain ⟨⟨ho, _⟩, rfl⟩ := h
    apply inv.change ho
    · intro tag ht
      exact (inv.carries o tag ht).withProto proto
    · intro ht
      refine ⟨(inv.clean o ht).withProto proto, ?_⟩
      rcases (s.kind o).next_withProto proto with hnext | hnext
      · rw [hnext]
        exact honest ht
      · rw [hnext]
        exact inv.apart o ht
  | preventExtensions o =>
    simp only [step, Option.ite_none_right_eq_some, Option.some.injEq] at h
    obtain ⟨ho, rfl⟩ := h
    apply inv.change ho
    · intro tag ht
      exact (inv.carries o tag ht).withoutExtensions
    · intro ht
      rw [Kind.next_withoutExtensions]
      exact ⟨(inv.clean o ht).withoutExtensions, inv.apart o ht⟩
  | freeze o =>
    simp only [step, Option.ite_none_right_eq_some, Option.some.injEq] at h
    obtain ⟨ho, rfl⟩ := h
    apply inv.change ho
    · intro tag ht
      exact (inv.carries o tag ht).frozen
    · intro ht
      rw [Kind.next_frozen]
      exact ⟨(inv.clean o ht).frozen, inv.apart o ht⟩
  | writeTag o slot => exact honest.elim
  | typeTag o tag =>
    simp only [step, Option.ite_none_right_eq_some, Option.some.injEq] at h
    obtain ⟨ho, rfl⟩ := h
    have hok : (typeTagObject s o tag).2 = .ok ∧ s.tagged o = none := ⟨rfl, honest.1⟩
    rw [if_pos hok]
    exact inv_typeTag inv ho honest

theorem refuses_of_honest {a : Act} (honest : Honest s a) : Refuses s a := by
  cases a with
  | typeTag o tag =>
    intro htagged
    exact absurd honest.1 htagged
  | newObject proto => trivial
  | newProxy target get forwards => trivial
  | setPrototype o proto => trivial
  | preventExtensions o => trivial
  | freeze o => trivial
  | writeTag o slot => trivial

/-- In a run of honest steps, every check in every state tells what the object was tagged with,
    and no step tags an object twice. -/
theorem honest_sound {acts : List Act} (honest : AllSteps step Honest {} acts) :
    AllStates step Sound {} acts ∧ AllSteps step Refuses {} acts := by
  have hkeeps (s : State) (a : Act) (s' : State) (h : step s a = some s') (hok : Honest s a)
      (inv : Inv s) : Inv s' := inv_step h hok inv
  refine ⟨⟨inv_init.sound, ?_⟩, ?_⟩
  · have hafter (s : State) (a : Act) (hok : Honest s a) (inv : Inv s) (s' : State)
        (h : step s a = some s') : Sound s' := (inv_step h hok inv).sound
    exact allSteps_of_invariant hkeeps hafter honest inv_init
  · exact allSteps_of_invariant hkeeps (fun s a hok _ => refuses_of_honest hok) honest inv_init

/-- A script writes the property of an object nobody tagged. -/
theorem forged_tag :
    ¬ AllStates step Sound {}
        [.newObject none, .writeTag 0 (some (.data (.string (encode ⟨1, 2⟩)) true true))] := by
  intro h
  have hmade : step {} (.newObject none) = some (State.add (.ordinary none none true) {}) := rfl
  have hsound := (h.2.2 _ hmade).1 _ rfl 0 (by decide) ⟨1, 2⟩
  have hcheck : checkObjectTypeTag
      (State.change 0 (Kind.withSlot (some (.data (.string (encode ⟨1, 2⟩)) true true)))
        (State.add (.ordinary none none true) {})) 0 ⟨1, 2⟩ = true := by
    rw [checkObjectTypeTag, getTag]
    simp [lookup, State.change, State.add, Kind.withSlot, Slot.value]
  have htagged := hsound.mp hcheck
  simp [State.change, State.add] at htagged

/-- An object that is tagged once, beside another. -/
theorem tagged_once_sound :
    AllStates step Sound {} [.newObject none, .typeTag 0 ⟨1, 2⟩, .newObject none] ∧
      AllSteps step Refuses {} [.newObject none, .typeTag 0 ⟨1, 2⟩, .newObject none] :=
  honest_sound (by
    refine ⟨fun p hp => by simp at hp, ?_⟩
    intro s hs
    have hmade : step {} (.newObject none) = some (State.add (.ordinary none none true) {}) := rfl
    obtain rfl := Option.some.inj (hmade.symm.trans hs)
    refine ⟨⟨rfl, ⟨none, none, rfl⟩, ?_⟩, ?_⟩
    · intro x hx hnext
      have hzero : x = 0 := by simpa [State.add] using hx
      subst hzero
      simp [State.add, Kind.next] at hnext
    · intro s' _
      exact ⟨fun p hp => by simp at hp, fun _ _ => trivial⟩)

end WasmerNapi.Quickjs.TypeTags
