import Mathlib

/-!
# Own properties of script objects

An ordinary object is a table from names to properties, and whether new names may be added. A
property that is not configurable only takes what is compatible with it (`Property.Accepts`), so
`define` may do nothing, and `delete` too.

What an operation does at one name depends on that name alone, so it is a function on what is
there (`defined`, `deleted`), and `get_define`, `get_delete` and `get_foldl` are all there is to
know about the table.
-/

namespace Objects

variable {N V : Type}

inductive Content (V : Type) where
  | data (writable : Bool) (value : V)
  | accessor (getter setter : V)
  deriving DecidableEq

structure Property (V : Type) where
  configurable : Bool
  enumerable : Bool
  content : Content V
  deriving DecidableEq

namespace Content

/-- What the content of a property that is not configurable may become. -/
def Allows : Content V → Content V → Prop
  | .data w v, .data w' v' => w = true ∨ w' = false ∧ v' = v
  | .accessor g s, .accessor g' s' => g' = g ∧ s' = s
  | .data _ _, .accessor _ _ | .accessor _ _, .data _ _ => False

instance [DecidableEq V] : ∀ old new : Content V, Decidable (old.Allows new)
  | .data _ _, .data _ _ => inferInstanceAs (Decidable (_ ∨ _))
  | .accessor _ _, .accessor _ _ => inferInstanceAs (Decidable (_ ∧ _))
  | .data _ _, .accessor _ _ | .accessor _ _, .data _ _ => inferInstanceAs (Decidable False)

/-- Functions stay. -/
def map (f : V → V) : Content V → Content V
  | .data w v => .data w (f v)
  | .accessor g s => .accessor g s

def holds [DecidableEq V] (v : V) : Content V → Bool
  | .data _ w => decide (w = v)
  | .accessor _ _ => false

theorem Allows.refl : ∀ c : Content V, c.Allows c
  | .data true _ => .inl rfl
  | .data false _ => .inr ⟨rfl, rfl⟩
  | .accessor _ _ => ⟨rfl, rfl⟩

theorem Allows.trans {a b c : Content V} (hab : a.Allows b) (hbc : b.Allows c) : a.Allows c := by
  match a, b, c, hab, hbc with
  | .data w v, .data w' v', .data w'' v'', hab, hbc =>
    rcases hab with rfl | ⟨rfl, rfl⟩
    · exact .inl rfl
    · rcases hbc with hw | hbc
      · cases hw
      · exact .inr hbc
  | .accessor _ _, .accessor _ _, .accessor _ _, ⟨rfl, rfl⟩, hbc => exact hbc

theorem Allows.map (f : V → V) {a b : Content V} (h : a.Allows b) : (a.map f).Allows (b.map f) := by
  match a, b, h with
  | .data w v, .data w' v', h =>
    rcases h with rfl | ⟨rfl, rfl⟩
    · exact .inl rfl
    · exact .inr ⟨rfl, rfl⟩
  | .accessor _ _, .accessor _ _, h => exact h

end Content

namespace Property

/-- A definition with the complete property `new` is not refused. -/
def Accepts (old new : Property V) : Prop :=
  old.configurable = true ∨
    new.configurable = false ∧ new.enumerable = old.enumerable ∧ old.content.Allows new.content

instance [DecidableEq V] (old new : Property V) : Decidable (old.Accepts new) :=
  inferInstanceAs (Decidable (_ ∨ _))

def map (f : V → V) (p : Property V) : Property V := { p with content := p.content.map f }

def holds [DecidableEq V] (v : V) (p : Property V) : Bool := p.content.holds v

theorem Accepts.refl (p : Property V) : p.Accepts p := by
  cases hc : p.configurable with
  | true => exact .inl hc
  | false => exact .inr ⟨hc, rfl, .refl _⟩

theorem Accepts.trans {a b c : Property V} (hab : a.Accepts b) (hbc : b.Accepts c) : a.Accepts c := by
  rcases hab with ha | ⟨hb, he, hallows⟩
  · exact .inl ha
  · rcases hbc with hb' | ⟨hc, he', hallows'⟩
    · rw [hb] at hb'
      cases hb'
    · exact .inr ⟨hc, he'.trans he, hallows.trans hallows'⟩

theorem Accepts.map (f : V → V) {a b : Property V} (h : a.Accepts b) : (a.map f).Accepts (b.map f) := by
  rcases h with ha | ⟨hb, he, hallows⟩
  · exact .inl ha
  · exact .inr ⟨hb, he, hallows.map f⟩

/-- A property that has become configurable was. -/
theorem Accepts.configurable {a b : Property V} (h : a.Accepts b) (hb : b.configurable = true) :
    a.configurable = true := by
  rcases h with ha | ⟨hb', _⟩
  · exact ha
  · rw [hb] at hb'
    cases hb'

end Property

/-- What a definition leaves at a name. -/
def defined [DecidableEq V] (extensible : Bool) : Option (Property V) → Property V → Option (Property V)
  | none, p => if extensible then some p else none
  | some old, p => if old.Accepts p then some p else some old

/-- What a deletion leaves. -/
def deleted : Option (Property V) → Option (Property V)
  | none => none
  | some p => if p.configurable then none else some p

structure Object (N V : Type) where
  props : AList (fun _ : N => Property V) := ∅
  extensible : Bool := true

namespace Object

variable [DecidableEq N]

omit [DecidableEq N] in
def keys (o : Object N V) : List N := o.props.keys

def get (o : Object N V) (n : N) : Option (Property V) := o.props.lookup n

def set (o : Object N V) (n : N) : Option (Property V) → Object N V
  | some p => { o with props := o.props.insert n p }
  | none => { o with props := o.props.erase n }

def define [DecidableEq V] (o : Object N V) (n : N) (p : Property V) : Object N V :=
  o.set n (defined o.extensible (o.get n) p)

def delete (o : Object N V) (n : N) : Object N V := o.set n (deleted (o.get n))

variable {o : Object N V} {n m : N}

theorem mem_keys : n ∈ o.keys ↔ o.get n ≠ none := by
  rw [← Option.isSome_iff_ne_none, get, AList.lookup_isSome]
  rfl

omit [DecidableEq N] in
theorem nodup_keys (o : Object N V) : o.keys.Nodup := o.props.keys_nodup

@[simp] theorem get_set (c : Option (Property V)) : (o.set n c).get m = if m = n then c else o.get m := by
  cases c with
  | some p =>
    by_cases h : m = n
    · subst h
      simp [set, get]
    · simp [set, get, h, AList.lookup_insert_ne h]
  | none =>
    by_cases h : m = n
    · subst h
      simp [set, get]
    · simp [set, get, h, AList.lookup_erase_ne h]

@[simp] theorem set_extensible (c : Option (Property V)) : (o.set n c).extensible = o.extensible := by
  cases c <;> rfl

section

variable [DecidableEq V]

@[simp] theorem define_extensible (p : Property V) : (o.define n p).extensible = o.extensible :=
  set_extensible _

theorem get_define (p : Property V) :
    (o.define n p).get m = if m = n then defined o.extensible (o.get n) p else o.get m :=
  get_set _

/-- A definition is not refused, so that `define` leaves `p`. -/
def Takes (o : Object N V) (n : N) (p : Property V) : Prop := defined o.extensible (o.get n) p = some p

instance (o : Object N V) (n : N) (p : Property V) : Decidable (o.Takes n p) :=
  inferInstanceAs (Decidable (_ = _))

theorem Takes.get_define {p : Property V} (h : o.Takes n p) :
    (o.define n p).get m = if m = n then some p else o.get m := by
  rw [Object.get_define, h]

theorem takes_of_configurable {old p : Property V} (hget : o.get n = some old)
    (hold : old.configurable = true) : o.Takes n p := by
  rw [Takes, hget]
  exact if_pos (Or.inl hold)

end

theorem get_delete : (o.delete n).get m = if m = n then deleted (o.get n) else o.get m := get_set _

/-- A loop over distinct names that at each of them changes only what is there. -/
theorem get_foldl {step : Object N V → N → Object N V} {f : N → Option (Property V) → Option (Property V)}
    {e : Bool} (hget : ∀ o n m, o.extensible = e →
      (step o n).get m = if m = n then f n (o.get n) else o.get m)
    (hext : ∀ o n, (step o n).extensible = o.extensible) {names : List N} :
    ∀ {o : Object N V}, names.Nodup → o.extensible = e → ∀ m,
      (names.foldl step o).get m = if m ∈ names then f m (o.get m) else o.get m := by
  induction names with
  | nil =>
    intro o _ _ m
    simp
  | cons n names ih =>
    intro o hnodup he m
    obtain ⟨hnotMem, hnodup⟩ := List.nodup_cons.mp hnodup
    rw [List.foldl_cons, ih hnodup ((hext o n).trans he) m, hget o n m he]
    by_cases hm : m = n
    · subst hm
      simp [hnotMem]
    · simp [hm]

omit [DecidableEq N] in
theorem foldl_extensible {step : Object N V → N → Object N V}
    (hext : ∀ o n, (step o n).extensible = o.extensible) {names : List N} :
    ∀ {o : Object N V}, (names.foldl step o).extensible = o.extensible := by
  induction names with
  | nil =>
    intro o
    rfl
  | cons n names ih =>
    intro o
    rw [List.foldl_cons, ih, hext]

end Object

end Objects
