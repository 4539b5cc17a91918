import WasmerNapi.Lib.Run
import WasmerNapi.Lib.Objects

/-!
# Sandboxes and the globals that mirror them

`src/quickjs/src/internal/napi_contextify.cc`: a realm with a sandbox has a global of its own.
`run_script` defines the sandbox's properties on the global, runs the script, and defines the
global's properties on the sandbox. The two loops only ever define: what has been deleted on one
side stays on the other. The names the global had when the realm was made are the baseline, and a
global under one of them goes back only if the sandbox has it too.

`Spec` is what `create_realm` promises: there is one object, the sandbox, and a script's global
properties are its properties, over the built-ins of the realm. `globalThis` and
`__quickjs_contextified` belong to the realm alone.

The sandbox is an ordinary object, and the loops read and define descriptors, so no getter runs
in them. A script is the tree of what it does to global properties, by what it has seen of
them, so all of them run to their end.
-/

namespace WasmerNapi.Quickjs.Contextify

open Run Objects

variable {Y V : Type} [DecidableEq Y] [DecidableEq V]

inductive Name (Y : Type) where
  | str (s : String)
  | sym (y : Y)
  deriving DecidableEq

inductive Value (V : Type) where
  | sandbox
  | global
  | other (v : V)
  deriving DecidableEq

abbrev Desc (V : Type) := Property (Value V)

abbrev Obj (Y V : Type) := Object (Name Y) (Value V)

/-- The own properties a script sees on its global. -/
abbrev View (Y V : Type) := Name Y → Option (Desc V)

inductive Script (Y V : Type) where
  | done
  | look (rest : View Y V → Script Y V)
  | define (n : Name Y) (p : Desc V) (rest : Script Y V)
  | delete (n : Name Y) (rest : Script Y V)

/-- What a script is run on. -/
structure World (Y V σ : Type) where
  view : σ → View Y V
  define : σ → Name Y → Desc V → σ
  delete : σ → Name Y → σ

/-- With what it saw. -/
def Script.run {σ : Type} (world : World Y V σ) : Script Y V → σ → σ × List (View Y V)
  | .done, g => (g, [])
  | .look rest, g =>
    let r := (rest (world.view g)).run world g
    (r.1, world.view g :: r.2)
  | .define n p rest, g => rest.run world (world.define g n p)
  | .delete n rest, g => rest.run world (world.delete g n)

def onGlobal : World Y V (Obj Y V) := ⟨Object.get, Object.define, Object.delete⟩

def shouldSkipContextProperty (n : Name Y) : Bool :=
  n = .str "globalThis" || n = .str "__quickjs_contextified"

/-- `define_property_from_descriptor`; the value `mapFrom` is written as `mapTo`. -/
def definePropertyFromDescriptor (target : Obj Y V) (n : Name Y) (desc : Desc V)
    (mapFrom mapTo : Value V) : Obj Y V :=
  target.define n (desc.map fun v => if v = mapFrom then mapTo else v)

/-- `copy_own_properties_between_contexts`. -/
def copyOwnProperties (source target : Obj Y V) (mapFrom mapTo : Value V) : Obj Y V :=
  source.keys.foldl
    (fun target n =>
      if shouldSkipContextProperty n then target
      else
        match source.get n with
        | none => target
        | some desc => definePropertyFromDescriptor target n desc mapFrom mapTo)
    target

/-- `context_record`, with what scripts have seen. -/
structure State (Y V : Type) where
  sandbox : Obj Y V
  global : Obj Y V
  baselineAtoms : List (Name Y)
  seen : List (View Y V) := []

namespace State

def syncSandboxToContext (s : State Y V) : State Y V :=
  { s with global := copyOwnProperties s.sandbox s.global .sandbox .global }

def syncContextToSandbox (s : State Y V) : State Y V :=
  { s with
    sandbox :=
      s.global.keys.foldl
        (fun sandbox n =>
          if shouldSkipContextProperty n then sandbox
          else if s.baselineAtoms.contains n && (sandbox.get n).isNone then sandbox
          else
            match s.global.get n with
            | none => sandbox
            | some desc => definePropertyFromDescriptor sandbox n desc .global .sandbox)
        s.sandbox }

def runScript (s : State Y V) (script : Script Y V) : State Y V :=
  let s := s.syncSandboxToContext
  let (global, seen) := script.run onGlobal s.global
  { s with global, seen := s.seen ++ seen }.syncContextToSandbox

end State

/-- The two properties `create_realm` gives the sandbox. -/
def internal (v : Value V) : Desc V := ⟨true, false, .data true v⟩

/-- `true_` is the boolean. -/
def State.createRealm (sandbox : Obj Y V) (builtins : AList fun _ : Name Y => Desc V) (true_ : V) :
    State Y V where
  sandbox :=
    (sandbox.define (.str "__quickjs_contextified") (internal (.other true_))).define
      (.str "globalThis") (internal .sandbox)
  global := { props := builtins }
  baselineAtoms := builtins.keys

/-! ## What it is to be -/

/-- The sandbox as the realm's scripts know it. -/
def toGlobal (v : Value V) : Value V := if v = .sandbox then .global else v

def toSandbox (v : Value V) : Value V := if v = .global then .sandbox else v

/-- `own` has the realm's two own names. -/
structure Spec (Y V : Type) where
  sandbox : Obj Y V
  own : Obj Y V
  builtins : Obj Y V
  seen : List (View Y V) := []

namespace Spec

def view (m : Spec Y V) : View Y V := fun n =>
  if shouldSkipContextProperty n then m.own.get n
  else ((m.sandbox.get n).map fun p => p.map toGlobal).or (m.builtins.get n)

def define (m : Spec Y V) (n : Name Y) (p : Desc V) : Spec Y V :=
  if shouldSkipContextProperty n then { m with own := m.own.define n p }
  else { m with sandbox := m.sandbox.define n (p.map toSandbox) }

def delete (m : Spec Y V) (n : Name Y) : Spec Y V :=
  if shouldSkipContextProperty n then { m with own := m.own.delete n }
  else { m with sandbox := m.sandbox.delete n }

def world : World Y V (Spec Y V) := ⟨view, define, delete⟩

def runScript (m : Spec Y V) (script : Script Y V) : Spec Y V :=
  let (m', seen) := script.run world m
  { m' with seen := m.seen ++ seen }

end Spec

/-- `define` and `delete` are the embedder's, on the sandbox. -/
inductive Act (Y V : Type) where
  | define (n : Name Y) (p : Desc V)
  | delete (n : Name Y)
  | runScript (script : Script Y V)

/-- The program and its specification side by side. -/
structure Both (Y V : Type) where
  code : State Y V
  spec : Spec Y V

def Both.createRealm (sandbox : Obj Y V) (builtins : AList fun _ : Name Y => Desc V) (true_ : V) :
    Both Y V where
  code := .createRealm sandbox builtins true_
  spec :=
    { sandbox := (State.createRealm sandbox builtins true_).sandbox
      own := { props := builtins }
      builtins := { props := builtins } }

def step (b : Both Y V) : Act Y V → Option (Both Y V)
  | .define n p =>
    some
      { code := { b.code with sandbox := b.code.sandbox.define n p }
        spec := { b.spec with sandbox := b.spec.sandbox.define n p } }
  | .delete n =>
    some
      { code := { b.code with sandbox := b.code.sandbox.delete n }
        spec := { b.spec with sandbox := b.spec.sandbox.delete n } }
  | .runScript script => some ⟨b.code.runScript script, b.spec.runScript script⟩

structure Mirrors (b : Both Y V) : Prop where
  seen : b.code.seen = b.spec.seen
  sandbox : ∀ n, shouldSkipContextProperty n = false → b.code.sandbox.get n = b.spec.sandbox.get n

namespace State

variable (s : State Y V) (builtins : Obj Y V)

/-- What the scripts know and the sandbox no longer has is a built-in. -/
def Kept : Prop :=
  ∀ n ∈ s.global.keys, shouldSkipContextProperty n = true ∨ (s.sandbox.get n).isSome = true ∨
    s.global.get n = builtins.get n

/-- The sandbox has nothing that a built-in refuses. -/
def Fits : Prop :=
  ∀ n ∈ s.sandbox.keys, shouldSkipContextProperty n = true ∨
    (builtins.get n).all (fun b => (s.sandbox.get n).all fun p => decide (b.Accepts (p.map toGlobal))) = true

instance : Decidable (s.Kept builtins) := inferInstanceAs (Decidable (∀ n ∈ s.global.keys, _))

instance : Decidable (s.Fits builtins) := inferInstanceAs (Decidable (∀ n ∈ s.sandbox.keys, _))

end State

/-- A script leaves alone the built-ins that the sandbox does not have, makes nothing new where
    the sandbox takes nothing new, and does not store the sandbox. -/
def SafeDefine (sandbox builtins g : Obj Y V) (n : Name Y) (p : Desc V) : Prop :=
  ((builtins.get n).isSome = true → (sandbox.get n).isSome = true) ∧
    ((g.get n).isNone = true → sandbox.extensible = true) ∧ p.holds .sandbox = false

/-- It deletes no built-in. -/
def SafeDelete (builtins g : Obj Y V) (n : Name Y) : Prop :=
  (builtins.get n).isSome = true → (g.get n).all (fun p => !p.configurable) = true

/-- And what it deletes of the sandbox's, it makes again before it ends. -/
def Script.Safe (sandbox builtins : Obj Y V) : Script Y V → Obj Y V → Prop
  | .done, g =>
    ∀ n ∈ sandbox.keys, shouldSkipContextProperty n = true ∨ (g.get n).isSome = true
  | .look rest, g => (rest g.get).Safe sandbox builtins g
  | .define n p rest, g =>
    (shouldSkipContextProperty n = true ∨ SafeDefine sandbox builtins g n p) ∧
      rest.Safe sandbox builtins (g.define n p)
  | .delete n rest, g =>
    (shouldSkipContextProperty n = true ∨ SafeDelete builtins g n) ∧
      rest.Safe sandbox builtins (g.delete n)

instance (sandbox builtins g : Obj Y V) (n : Name Y) (p : Desc V) :
    Decidable (SafeDefine sandbox builtins g n p) := inferInstanceAs (Decidable (_ ∧ _))

instance (builtins g : Obj Y V) (n : Name Y) : Decidable (SafeDelete builtins g n) :=
  inferInstanceAs (Decidable (_ → _))

instance Script.decidableSafe (sandbox builtins : Obj Y V) :
    ∀ (script : Script Y V) (g : Obj Y V), Decidable (script.Safe sandbox builtins g)
  | .done, _ => inferInstanceAs (Decidable (∀ n ∈ sandbox.keys, _))
  | .look rest, g => decidableSafe sandbox builtins (rest g.get) g
  | .define n p rest, g =>
    have := decidableSafe sandbox builtins rest (g.define n p)
    inferInstanceAs (Decidable ((_ ∨ _) ∧ _))
  | .delete n rest, g =>
    have := decidableSafe sandbox builtins rest (g.delete n)
    inferInstanceAs (Decidable ((_ ∨ _) ∧ _))

/-- The embedder does not store the realm's global, and leaves nothing deleted that scripts have
    seen. -/
def Safe (b : Both Y V) : Act Y V → Prop
  | .define n p => shouldSkipContextProperty n = true ∨ p.holds .global = false
  | .delete _ => True
  | .runScript script =>
    b.code.Kept b.spec.builtins ∧ b.code.Fits b.spec.builtins ∧
      script.Safe b.code.sandbox b.spec.builtins b.code.syncSandboxToContext.global

instance (b : Both Y V) : ∀ a, Decidable (Safe b a)
  | .define _ _ => inferInstanceAs (Decidable (_ ∨ _))
  | .delete _ => inferInstanceAs (Decidable True)
  | .runScript _ => inferInstanceAs (Decidable (_ ∧ _ ∧ _))

/-! ## Names of values -/

theorem map_toSandbox_toGlobal {p : Desc V} (h : p.holds .global = false) :
    (p.map toGlobal).map toSandbox = p := by
  obtain ⟨c, e, content⟩ := p
  match content, h with
  | .accessor g s, _ => rfl
  | .data w .sandbox, _ => rfl
  | .data w (.other v), _ => rfl

theorem map_toGlobal_toSandbox {p : Desc V} (h : p.holds .sandbox = false) :
    (p.map toSandbox).map toGlobal = p := by
  obtain ⟨c, e, content⟩ := p
  match content, h with
  | .accessor g s, _ => rfl
  | .data w .global, _ => rfl
  | .data w (.other v), _ => rfl

theorem not_holds_toSandbox (p : Desc V) : (p.map toSandbox).holds .global = false := by
  obtain ⟨c, e, content⟩ := p
  match content with
  | .accessor g s => rfl
  | .data w .sandbox => rfl
  | .data w .global => rfl
  | .data w (.other v) => rfl

/-- A definition is refused on the one side as it is on the other. -/
theorem accepts_toGlobal_iff {q p : Desc V} (hq : q.holds .global = false)
    (hp : p.holds .sandbox = false) : (q.map toGlobal).Accepts p ↔ q.Accepts (p.map toSandbox) := by
  constructor
  · intro h
    have h := h.map toSandbox
    rwa [map_toSandbox_toGlobal hq] at h
  · intro h
    have h := h.map toGlobal
    rwa [map_toGlobal_toSandbox hp] at h

/-! ## One name -/

/-- What is at a name of the target when the source has been copied to it. -/
def copied (e : Bool) (f : Value V → Value V) (source target : Option (Desc V)) : Option (Desc V) :=
  match source with
  | none => target
  | some desc => defined e target (desc.map f)

/-- While a script runs: what the sandbox had at a name when it began, the built-in, what the
    global has there and what the sandbox is to have. -/
inductive Cell (extensible : Bool) :
    (start builtin global sandbox : Option (Desc V)) → Prop
  | builtin (b : Desc V) : Cell extensible none (some b) (some b) none
  | mirrored {start builtin c : Option (Desc V)} (inner : ∀ q, c = some q → q.holds .global = false)
      (shown : builtin ≠ none → start ≠ none ∧ c ≠ none)
      (changed : ∀ p q, start = some p → c = some q → p.Accepts q)
      (removed : ∀ p, start = some p → c = none → p.configurable = true)
      (added : start = none → c ≠ none → extensible = true) :
      Cell extensible start builtin (c.map fun q => q.map toGlobal) c

section

variable {e : Bool} {start builtin g c : Option (Desc V)}

theorem Cell.view (h : Cell e start builtin g c) : g = (c.map fun q => q.map toGlobal).or builtin := by
  cases h with
  | builtin b => rfl
  | mirrored inner shown changed removed added =>
    cases c with
    | some q => rfl
    | none =>
      cases builtin with
      | none => rfl
      | some b => exact absurd rfl (shown (Option.some_ne_none b)).2

theorem Cell.define (h : Cell e start builtin g c) {p : Desc V}
    (hbuiltin : builtin.isSome = true → start.isSome = true) (hnew : g.isNone = true → e = true)
    (hp : p.holds .sandbox = false) :
    Cell e start builtin (defined true g p) (defined e c (p.map toSandbox)) := by
  cases h with
  | builtin b => cases hbuiltin rfl
  | mirrored inner shown changed removed added =>
    have hmirrored : some p = (some (p.map toSandbox)).map fun q => q.map toGlobal := by
      rw [Option.map_some, map_toGlobal_toSandbox hp]
    have hinner : ∀ q, some (p.map toSandbox) = some q → q.holds .global = false := by
      rintro q ⟨⟩
      exact not_holds_toSandbox p
    cases c with
    | none =>
      obtain rfl := hnew rfl
      show Cell true start builtin (some p) (some (p.map toSandbox))
      rw [hmirrored]
      refine .mirrored hinner ?_ ?_ nofun fun _ _ => rfl
      · intro hb
        exact absurd rfl (shown hb).2
      · rintro p₀ q hs ⟨⟩
        exact .inl (removed p₀ hs rfl)
    | some q =>
      have hiff := accepts_toGlobal_iff (inner q rfl) hp
      by_cases haccepts : q.Accepts (p.map toSandbox)
      · have hleft : defined true (some (q.map toGlobal)) p = some p := if_pos (hiff.mpr haccepts)
        have hright : defined e (some q) (p.map toSandbox) = some (p.map toSandbox) := if_pos haccepts
        show Cell e start builtin (defined true (some (q.map toGlobal)) p) _
        rw [hleft, hright, hmirrored]
        refine .mirrored hinner ?_ ?_ nofun ?_
        · intro hb
          exact ⟨(shown hb).1, Option.some_ne_none _⟩
        · rintro p₀ q' hs ⟨⟩
          exact (changed p₀ q hs rfl).trans haccepts
        · intro hs _
          exact added hs (Option.some_ne_none q)
      · have hleft : defined true (some (q.map toGlobal)) p = some (q.map toGlobal) :=
          if_neg fun h => haccepts (hiff.mp h)
        have hright : defined e (some q) (p.map toSandbox) = some q := if_neg haccepts
        show Cell e start builtin (defined true (some (q.map toGlobal)) p) _
        rw [hleft, hright]
        exact .mirrored inner shown changed removed added

theorem Cell.delete (h : Cell e start builtin g c)
    (hbuiltin : builtin.isSome = true → g.all (fun p => !p.configurable) = true) :
    Cell e start builtin (deleted g) (deleted c) := by
  cases h with
  | builtin b =>
    have hb : b.configurable = false := by simpa using hbuiltin rfl
    rw [show deleted (some b) = some b by simp [deleted, hb]]
    exact .builtin b
  | mirrored inner shown changed removed added =>
    cases c with
    | none => exact .mirrored inner shown changed removed added
    | some q =>
      show Cell e start builtin (deleted (some (q.map toGlobal))) (deleted (some q))
      cases hq : q.configurable with
      | false =>
        rw [show deleted (some q) = some q by simp [deleted, hq],
          show deleted (some (q.map toGlobal)) = some (q.map toGlobal) by
            simp [deleted, Property.map, hq]]
        exact .mirrored inner shown changed removed added
      | true =>
        rw [show deleted (some q) = none by simp [deleted, hq],
          show deleted (some (q.map toGlobal)) = none by simp [deleted, Property.map, hq]]
        refine .mirrored (c := none) nofun ?_ (fun _ _ _ h => by cases h) ?_ ?_
        · intro hb
          have hall := hbuiltin (Option.isSome_iff_ne_none.mpr hb)
          simp [Property.map, hq] at hall
        · intro p hs _
          exact (changed p q hs rfl).configurable hq
        · intro _ h
          exact absurd rfl h

/-- What goes back to the sandbox is what it is to have. -/
theorem Cell.back (h : Cell e start builtin g c) (hkept : start.isSome = true → g.isSome = true) :
    (if builtin.isSome && start.isNone then start else copied e toSandbox g start) = c := by
  cases h with
  | builtin b => rfl
  | mirrored inner shown changed removed added =>
    cases start with
    | none =>
      cases builtin with
      | some b => exact absurd rfl (shown (Option.some_ne_none b)).1
      | none =>
        cases c with
        | none => rfl
        | some q =>
          obtain rfl := added rfl (Option.some_ne_none q)
          exact congrArg some (map_toSandbox_toGlobal (inner q rfl))
    | some p =>
      cases c with
      | none => cases hkept rfl
      | some q =>
        have hq : (q.map toGlobal).map toSandbox = q := map_toSandbox_toGlobal (inner q rfl)
        simp only [Option.isNone_some, Bool.and_false, Bool.false_eq_true, if_false, Option.map_some,
          copied, hq]
        exact if_pos (changed p q rfl rfl)

end

/-! ## A script -/

section

/-- A script is underway that began with `start` for a sandbox. -/
structure Running (start builtins g : Obj Y V) (m : Spec Y V) : Prop where
  same : m.builtins = builtins
  globalExtensible : g.extensible = true
  ownExtensible : m.own.extensible = true
  extensible : m.sandbox.extensible = start.extensible
  own : ∀ n, shouldSkipContextProperty n = true → m.own.get n = g.get n
  cell : ∀ n, shouldSkipContextProperty n = false →
    Cell start.extensible (start.get n) (builtins.get n) (g.get n) (m.sandbox.get n)

variable {start builtins g : Obj Y V} {m : Spec Y V} {n : Name Y}

theorem Running.view (h : Running start builtins g m) : g.get = m.view := by
  funext n
  simp only [Spec.view]
  split
  · next hskip => exact (h.own n hskip).symm
  · next hskip =>
    rw [h.same]
    exact (h.cell n (Bool.eq_false_iff.mpr hskip)).view

omit [DecidableEq V] in
theorem ne_of_skip {n' : Name Y} (h : shouldSkipContextProperty n = true)
    (h' : shouldSkipContextProperty n' = false) : n' ≠ n := by
  rintro rfl
  rw [h] at h'
  cases h'

theorem Running.setOwn (h : Running start builtins g m) (hskip : shouldSkipContextProperty n = true)
    (c : Option (Desc V)) : Running start builtins (g.set n c) { m with own := m.own.set n c } := by
  refine ⟨h.same, ?_, ?_, h.extensible, ?_, ?_⟩
  · rw [Object.set_extensible, h.globalExtensible]
  · exact (Object.set_extensible c).trans h.ownExtensible
  · intro n' hn'
    show (m.own.set n c).get n' = _
    rw [Object.get_set, Object.get_set, h.own n' hn']
  · intro n' hn'
    rw [Object.get_set, if_neg (ne_of_skip hskip hn')]
    exact h.cell n' hn'

theorem Running.setCell (h : Running start builtins g m) (hskip : shouldSkipContextProperty n = false)
    {c c' : Option (Desc V)} (hcell : Cell start.extensible (start.get n) (builtins.get n) c c') :
    Running start builtins (g.set n c) { m with sandbox := m.sandbox.set n c' } := by
  refine ⟨h.same, ?_, h.ownExtensible, ?_, ?_, ?_⟩
  · rw [Object.set_extensible, h.globalExtensible]
  · exact (Object.set_extensible c').trans h.extensible
  · intro n' hn'
    rw [Object.get_set, if_neg (ne_of_skip hn' hskip).symm]
    exact h.own n' hn'
  · intro n' hn'
    show Cell _ _ _ _ ((m.sandbox.set n c').get n')
    rw [Object.get_set, Object.get_set]
    by_cases heq : n' = n
    · rw [if_pos heq, if_pos heq, heq]
      exact hcell
    · rw [if_neg heq, if_neg heq]
      exact h.cell n' hn'

theorem Running.define (h : Running start builtins g m) {p : Desc V}
    (hsafe : shouldSkipContextProperty n = true ∨ SafeDefine start builtins g n p) :
    Running start builtins (g.define n p) (m.define n p) := by
  simp only [Spec.define]
  split
  · next hskip =>
    have hown : m.own.define n p = m.own.set n (defined g.extensible (g.get n) p) := by
      rw [Object.define, h.own n hskip, h.ownExtensible, h.globalExtensible]
    rw [hown]
    exact h.setOwn hskip _
  · next hskip =>
    have hskip : shouldSkipContextProperty n = false := Bool.eq_false_iff.mpr hskip
    obtain ⟨hbuiltin, hnew, hp⟩ := hsafe.resolve_left (by rw [hskip]; exact Bool.false_ne_true)
    have hcell := (h.cell n hskip).define hbuiltin hnew hp
    rw [← h.extensible] at hcell
    refine h.setCell hskip ?_
    rw [h.globalExtensible, ← h.extensible]
    exact hcell

theorem Running.delete (h : Running start builtins g m)
    (hsafe : shouldSkipContextProperty n = true ∨ SafeDelete builtins g n) :
    Running start builtins (g.delete n) (m.delete n) := by
  simp only [Spec.delete]
  split
  · next hskip =>
    rw [Object.delete, Object.delete, h.own n hskip]
    exact h.setOwn hskip _
  · next hskip =>
    have hskip : shouldSkipContextProperty n = false := Bool.eq_false_iff.mpr hskip
    have hbuiltin := hsafe.resolve_left (by rw [hskip]; exact Bool.false_ne_true)
    exact h.setCell hskip ((h.cell n hskip).delete hbuiltin)

/-- By induction on the script: both sides see the same, so they go on the same way. -/
theorem Script.run_running (script : Script Y V) :
    ∀ {g : Obj Y V} {m : Spec Y V}, Running start builtins g m → script.Safe start builtins g →
      (script.run onGlobal g).2 = (script.run Spec.world m).2 ∧
        Running start builtins (script.run onGlobal g).1 (script.run Spec.world m).1 ∧
        ∀ n ∈ start.keys, shouldSkipContextProperty n = true ∨
          ((script.run onGlobal g).1.get n).isSome = true := by
  induction script with
  | done =>
    intro g m h hsafe
    exact ⟨rfl, h, hsafe⟩
  | look rest ih =>
    intro g m h hsafe
    have hview : onGlobal.view g = Spec.world.view m := h.view
    obtain ⟨hseen, hrunning, hend⟩ := ih (onGlobal.view g) h hsafe
    refine ⟨?_, ?_, hend⟩
    · show onGlobal.view g :: _ = Spec.world.view m :: _
      rw [hseen, hview]
    · show Running start builtins ((rest (onGlobal.view g)).run onGlobal g).1
        ((rest (Spec.world.view m)).run Spec.world m).1
      rw [← hview]
      exact hrunning
  | define n p rest ih =>
    intro g m h hsafe
    exact ih (h.define hsafe.1) hsafe.2
  | delete n rest ih =>
    intro g m h hsafe
    exact ih (h.delete hsafe.1) hsafe.2

/-! ## The two loops -/

theorem get_copyOwnProperties {source target : Obj Y V} {mapFrom mapTo : Value V} (n : Name Y) :
    (copyOwnProperties source target mapFrom mapTo).get n =
      if shouldSkipContextProperty n then target.get n
      else copied target.extensible (fun v => if v = mapFrom then mapTo else v) (source.get n)
        (target.get n) := by
  rw [copyOwnProperties, Object.get_foldl
    (f := fun n cell =>
      if shouldSkipContextProperty n then cell
      else copied target.extensible (fun v => if v = mapFrom then mapTo else v) (source.get n) cell)
    ?_ ?_ source.nodup_keys rfl n]
  · by_cases hn : source.get n = none
    · rw [if_neg (fun h => Object.mem_keys.mp h hn), hn]
      simp [copied]
    · rw [if_pos (Object.mem_keys.mpr hn)]
  · intro o n m he
    split
    · by_cases hm : m = n <;> simp [hm]
    · cases source.get n with
      | none => by_cases hm : m = n <;> simp [hm, copied]
      | some desc =>
        dsimp only [copied]
        rw [definePropertyFromDescriptor, Object.get_define, he]
  · intro o n
    split
    · rfl
    · cases source.get n with
      | none => rfl
      | some desc => exact Object.define_extensible _

theorem get_syncContextToSandbox {s : State Y V} (hskip : shouldSkipContextProperty n = false) :
    s.syncContextToSandbox.sandbox.get n =
      if s.baselineAtoms.contains n && (s.sandbox.get n).isNone then s.sandbox.get n
      else copied s.sandbox.extensible toSandbox (s.global.get n) (s.sandbox.get n) := by
  rw [State.syncContextToSandbox, Object.get_foldl
    (f := fun n cell =>
      if shouldSkipContextProperty n then cell
      else if s.baselineAtoms.contains n && cell.isNone then cell
      else copied s.sandbox.extensible toSandbox (s.global.get n) cell)
    ?_ ?_ s.global.nodup_keys rfl n]
  · by_cases hn : s.global.get n = none
    · rw [if_neg (fun h => Object.mem_keys.mp h hn), hn]
      simp [copied]
    · rw [if_pos (Object.mem_keys.mpr hn), hskip]
      rfl
  · intro o n m he
    split
    · by_cases hm : m = n <;> simp [hm]
    · split
      · by_cases hm : m = n <;> simp [hm]
      · cases s.global.get n with
        | none => by_cases hm : m = n <;> simp [hm, copied]
        | some desc =>
          dsimp only [copied]
          rw [definePropertyFromDescriptor, Object.get_define, he]
          rfl
  · intro o n
    split
    · rfl
    · split
      · rfl
      · cases s.global.get n with
        | none => rfl
        | some desc => exact Object.define_extensible _

end

/-! ## Between scripts -/

/-- What the global has at a name takes what the sandbox has there, or it is the built-in. -/
def Idle (sandbox builtin global : Option (Desc V)) : Prop :=
  ∀ p, global = some p → builtin = some p ∨
    match sandbox with
    | some q => p.Accepts (q.map toGlobal)
    | none => p.configurable = true

section

variable {e : Bool} {start builtin g c : Option (Desc V)}

theorem Idle.define (h : Idle c builtin g) (p : Desc V) : Idle (defined e c p) builtin g := by
  intro p₀ hg
  rcases h p₀ hg with hb | h
  · exact .inl hb
  · right
    cases c with
    | none =>
      cases e with
      | true => exact .inl h
      | false => exact h
    | some q =>
      by_cases haccepts : q.Accepts p
      · rw [show defined e (some q) p = some p from if_pos haccepts]
        exact h.trans (haccepts.map toGlobal)
      · rw [show defined e (some q) p = some q from if_neg haccepts]
        exact h

theorem Idle.delete (h : Idle c builtin g) : Idle (deleted c) builtin g := by
  intro p₀ hg
  rcases h p₀ hg with hb | h
  · exact .inl hb
  · right
    cases c with
    | none => exact h
    | some q =>
      cases hq : q.configurable with
      | true =>
        rw [show deleted (some q) = none by simp [deleted, hq]]
        exact h.configurable hq
      | false =>
        rw [show deleted (some q) = some q by simp [deleted, hq]]
        exact h

/-- A script begins. -/
theorem Idle.begin (h : Idle c builtin g) (hinner : ∀ q, c = some q → q.holds .global = false)
    (hkept : c = none → g = builtin)
    (hfits : ∀ b q, builtin = some b → c = some q → b.Accepts (q.map toGlobal)) :
    Cell e c builtin (copied true toGlobal c g) c := by
  cases c with
  | none =>
    obtain rfl := hkept rfl
    cases g with
    | some b => exact .builtin b
    | none =>
      refine .mirrored (c := none) hinner ?_ (fun _ _ h => by cases h) nofun ?_
      · intro hne
        exact absurd rfl hne
      · intro _ hne
        exact absurd rfl hne
  | some q =>
    have hdefined : defined true g (q.map toGlobal) = (some q).map fun q => q.map toGlobal := by
      cases g with
      | none => rfl
      | some p =>
        refine if_pos ?_
        rcases h p rfl with hb | h
        · exact hfits p q hb rfl
        · exact h
    show Cell e (some q) builtin (defined true g (q.map toGlobal)) (some q)
    rw [hdefined]
    refine .mirrored hinner ?_ ?_ nofun nofun
    · intro _
      exact ⟨Option.some_ne_none q, Option.some_ne_none q⟩
    · rintro _ _ ⟨⟩ ⟨⟩
      exact .refl q

/-- And ends. -/
theorem Cell.idle (h : Cell e start builtin g c) :
    Idle c builtin g ∧ (∀ q, c = some q → q.holds .global = false) ∧ (builtin ≠ none → g ≠ none) := by
  cases h with
  | builtin b =>
    refine ⟨fun p hp => .inl hp, ?_, fun _ => Option.some_ne_none b⟩
    intro _ h
    cases h
  | mirrored inner shown changed removed added =>
    cases c with
    | none =>
      refine ⟨?_, inner, fun hb => absurd rfl (shown hb).2⟩
      intro _ h
      cases h
    | some q =>
      refine ⟨?_, inner, fun _ => Option.some_ne_none _⟩
      rintro p ⟨⟩
      exact .inr (.refl _)

end

structure Inv (b : Both Y V) : Prop where
  mirrors : Mirrors b
  baseline : ∀ n, b.code.baselineAtoms.contains n = (b.spec.builtins.get n).isSome
  globalExtensible : b.code.global.extensible = true
  ownExtensible : b.spec.own.extensible = true
  extensible : b.spec.sandbox.extensible = b.code.sandbox.extensible
  own : ∀ n, shouldSkipContextProperty n = true → b.spec.own.get n = b.code.global.get n
  inner : ∀ n, shouldSkipContextProperty n = false → ∀ p, b.code.sandbox.get n = some p →
    p.holds .global = false
  idle : ∀ n, shouldSkipContextProperty n = false →
    Idle (b.code.sandbox.get n) (b.spec.builtins.get n) (b.code.global.get n)
  shown : ∀ n, shouldSkipContextProperty n = false → b.spec.builtins.get n ≠ none →
    b.code.global.get n ≠ none

/-- The embedder changes the sandbox at a name. -/
theorem Inv.set {b : Both Y V} (hi : Inv b) (n : Name Y) {c c' : Option (Desc V)}
    (hsame : shouldSkipContextProperty n = false → c' = c)
    (hinner : shouldSkipContextProperty n = false → ∀ p, c = some p → p.holds .global = false)
    (hidle : shouldSkipContextProperty n = false →
      Idle c (b.spec.builtins.get n) (b.code.global.get n)) :
    Inv
      { code := { b.code with sandbox := b.code.sandbox.set n c }
        spec := { b.spec with sandbox := b.spec.sandbox.set n c' } } := by
  refine ⟨⟨hi.mirrors.seen, ?_⟩, hi.baseline, hi.globalExtensible, hi.ownExtensible, ?_, hi.own, ?_, ?_,
    hi.shown⟩
  · intro n' hn'
    show (b.code.sandbox.set n c).get n' = (b.spec.sandbox.set n c').get n'
    rw [Object.get_set, Object.get_set]
    by_cases heq : n' = n
    · rw [if_pos heq, if_pos heq, hsame (heq ▸ hn')]
    · rw [if_neg heq, if_neg heq]
      exact hi.mirrors.sandbox n' hn'
  · show (b.spec.sandbox.set n c').extensible = (b.code.sandbox.set n c).extensible
    rw [Object.set_extensible, Object.set_extensible, hi.extensible]
  · intro n' hn' p hp
    have hp : (b.code.sandbox.set n c).get n' = some p := hp
    rw [Object.get_set] at hp
    by_cases heq : n' = n
    · rw [if_pos heq] at hp
      exact hinner (heq ▸ hn') p hp
    · rw [if_neg heq] at hp
      exact hi.inner n' hn' p hp
  · intro n' hn'
    show Idle ((b.code.sandbox.set n c).get n') _ _
    rw [Object.get_set]
    by_cases heq : n' = n
    · rw [if_pos heq, heq]
      exact hidle (heq ▸ hn')
    · rw [if_neg heq]
      exact hi.idle n' hn'

theorem Inv.running {b : Both Y V} (hi : Inv b) (hkept : b.code.Kept b.spec.builtins)
    (hfits : b.code.Fits b.spec.builtins) :
    Running b.code.sandbox b.spec.builtins b.code.syncSandboxToContext.global b.spec := by
  refine ⟨rfl, ?_, hi.ownExtensible, hi.extensible, ?_, ?_⟩
  · rw [← hi.globalExtensible]
    refine Object.foldl_extensible ?_
    intro o n
    split
    · rfl
    · cases b.code.sandbox.get n with
      | none => rfl
      | some desc => exact Object.define_extensible _
  · intro n hskip
    show _ = (copyOwnProperties ..).get n
    rw [get_copyOwnProperties, if_pos hskip]
    exact hi.own n hskip
  · intro n hskip
    have hne : ¬ shouldSkipContextProperty n = true := by
      rw [hskip]
      exact Bool.false_ne_true
    show Cell _ _ _ ((copyOwnProperties ..).get n) _
    rw [get_copyOwnProperties, if_neg hne, hi.globalExtensible, ← hi.mirrors.sandbox n hskip]
    refine (hi.idle n hskip).begin (hi.inner n hskip) ?_ ?_
    · intro hnone
      by_cases hg : b.code.global.get n = none
      · by_contra hb
        exact hi.shown n hskip (fun h => hb (hg.trans h.symm)) hg
      · rcases hkept n (Object.mem_keys.mpr hg) with h | h | h
        · exact absurd h hne
        · rw [hnone] at h
          cases h
        · exact h
    · intro builtin q hb hq
      have hmem : n ∈ b.code.sandbox.keys := Object.mem_keys.mpr (by rw [hq]; exact Option.some_ne_none q)
      have hall := (hfits n hmem).resolve_left hne
      rw [hb, hq] at hall
      exact of_decide_eq_true hall

theorem runScript_inv {b : Both Y V} {script : Script Y V} (hi : Inv b)
    (hsafe : Safe b (.runScript script)) :
    Inv ⟨b.code.runScript script, b.spec.runScript script⟩ := by
  obtain ⟨hkept, hfits, hscript⟩ := hsafe
  obtain ⟨hseen, hrunning, hend⟩ := script.run_running (hi.running hkept hfits) hscript
  generalize hg : script.run onGlobal b.code.syncSandboxToContext.global = r at hseen hrunning hend
  generalize hm : script.run Spec.world b.spec = r' at hseen hrunning
  obtain ⟨g, seen⟩ := r
  obtain ⟨m, seen'⟩ := r'
  have hcode : b.code.runScript script =
      { b.code with global := g, seen := b.code.seen ++ seen }.syncContextToSandbox := by
    simp only [State.runScript, hg]
    rfl
  have hspec : b.spec.runScript script = { m with seen := b.spec.seen ++ seen' } := by
    simp only [Spec.runScript, hm]
  rw [hcode, hspec]
  have hsandbox : ∀ n, shouldSkipContextProperty n = false →
      ({ b.code with global := g, seen := b.code.seen ++ seen } : State Y V).syncContextToSandbox.sandbox.get n =
        m.sandbox.get n := by
    intro n hskip
    rw [get_syncContextToSandbox hskip]
    dsimp only
    rw [hi.baseline]
    apply (hrunning.cell n hskip).back
    intro hsome
    refine (hend n (Object.mem_keys.mpr (Option.isSome_iff_ne_none.mp hsome))).resolve_left ?_
    rw [hskip]
    exact Bool.false_ne_true
  have hidle := fun n hskip => (hrunning.cell n hskip).idle
  have hsame : m.builtins = b.spec.builtins := hrunning.same
  refine ⟨⟨?_, hsandbox⟩, ?_, hrunning.globalExtensible, hrunning.ownExtensible, ?_, hrunning.own, ?_,
    ?_, ?_⟩
  · show b.code.seen ++ seen = b.spec.seen ++ seen'
    rw [hi.mirrors.seen, show seen = seen' from hseen]
  · intro n
    show b.code.baselineAtoms.contains n = (m.builtins.get n).isSome
    rw [hsame]
    exact hi.baseline n
  · show m.sandbox.extensible = _
    rw [hrunning.extensible]
    refine (Object.foldl_extensible ?_).symm
    intro o n
    split
    · rfl
    · split
      · rfl
      · split
        · rfl
        · exact Object.define_extensible _
  · intro n hskip p hp
    rw [hsandbox n hskip] at hp
    exact (hidle n hskip).2.1 p hp
  · intro n hskip
    show Idle _ (m.builtins.get n) (g.get n)
    rw [hsandbox n hskip, hsame]
    exact (hidle n hskip).1
  · intro n hskip hb
    have hb : m.builtins.get n ≠ none := hb
    rw [hsame] at hb
    exact (hidle n hskip).2.2 hb

theorem step_inv (b : Both Y V) (a : Act Y V) (b' : Both Y V) (hs : step b a = some b')
    (hsafe : Safe b a) (hi : Inv b) : Inv b' := by
  cases a with
  | define n p =>
    cases hs
    refine hi.set n ?_ ?_ ?_
    · intro hskip
      rw [hi.extensible, hi.mirrors.sandbox n hskip]
    · intro hskip q hq
      have hp : p.holds .global = false := by
        refine hsafe.resolve_left ?_
        rw [hskip]
        exact Bool.false_ne_true
      -- What is there now is the new property or what was there.
      cases hold : b.code.sandbox.get n with
      | none =>
        rw [hold] at hq
        simp only [defined, Option.ite_none_right_eq_some, Option.some.injEq] at hq
        exact hq.2 ▸ hp
      | some old =>
        rw [hold] at hq
        simp only [defined] at hq
        split at hq
        · exact Option.some.inj hq ▸ hp
        · exact Option.some.inj hq ▸ hi.inner n hskip old hold
    · intro hskip
      exact (hi.idle n hskip).define p
  | delete n =>
    cases hs
    refine hi.set n ?_ ?_ ?_
    · intro hskip
      rw [hi.mirrors.sandbox n hskip]
    · intro hskip q hq
      cases hold : b.code.sandbox.get n with
      | none =>
        rw [hold] at hq
        cases hq
      | some old =>
        rw [hold] at hq
        simp only [deleted, Option.ite_none_left_eq_some, Option.some.injEq] at hq
        exact hq.2 ▸ hi.inner n hskip old hold
    · intro hskip
      exact (hi.idle n hskip).delete
  | runScript script =>
    cases hs
    exact runScript_inv hi hsafe

theorem createRealm_inv {sandbox : Obj Y V} {builtins : AList fun _ : Name Y => Desc V} {true_ : V}
    (hnew : ∀ n p, sandbox.get n = some p → p.holds .global = false) :
    Inv (Both.createRealm sandbox builtins true_) := by
  refine ⟨⟨rfl, fun _ _ => rfl⟩, ?_, rfl, rfl, rfl, fun _ _ => rfl, ?_, ?_, fun _ _ h => h⟩
  · intro n
    show builtins.keys.contains n = (builtins.lookup n).isSome
    rw [Bool.eq_iff_iff, List.contains_iff_mem, AList.lookup_isSome]
    rfl
  · intro n hskip p hp
    have hp : ((sandbox.define (.str "__quickjs_contextified") (internal (.other true_))).define
        (.str "globalThis") (internal .sandbox)).get n = some p := hp
    rw [Object.get_define, if_neg (ne_of_skip rfl hskip), Object.get_define,
      if_neg (ne_of_skip rfl hskip)] at hp
    exact hnew n p hp
  · intro n _ p hp
    exact .inl hp

/-- In every run in which nothing stays deleted that the other side still has, the scripts see
    the sandbox over the built-ins and what they do is done to the sandbox. `hnew`: the realm's
    global is new. -/
theorem sandbox_mirrored {sandbox : Obj Y V} {builtins : AList fun _ : Name Y => Desc V} {true_ : V}
    (hnew : ∀ n p, sandbox.get n = some p → p.holds .global = false) {acts : List (Act Y V)} {b : Both Y V}
    (hr : run step (.createRealm sandbox builtins true_) acts = some b)
    (hsafe : AllSteps step Safe (.createRealm sandbox builtins true_) acts) : Mirrors b :=
  (invariant_of_allSteps step_inv hr hsafe (createRealm_inv hnew)).mirrors

/-- An ordinary property. -/
def plain (v : Value V) : Desc V := ⟨true, true, .data true v⟩

/-- A realm with one built-in that can be replaced and one that cannot. -/
def builtins : AList fun _ : Name ℕ => Desc ℕ :=
  ((∅ : AList fun _ : Name ℕ => Desc ℕ).insert (.str "NaN") ⟨false, false, .data false (.other 0)⟩).insert
    (.str "Array") ⟨true, false, .data true (.other 1)⟩

/-- The embedder sets a property and replaces a built-in; a script that sees the property writes
    both, makes a `var` and stores its global; and the embedder writes again before the next. -/
def rounds : List (Act ℕ ℕ) :=
  [.define (.str "x") (plain (.other 2)),
    .define (.str "Array") (plain (.other 3)),
    .runScript (.look fun view =>
      if (view (.str "x")).isSome then
        .define (.str "x") (plain (.other 4)) <| .define (.str "Array") (plain (.other 5)) <|
          .define (.str "z") ⟨false, true, .data true (.other 6)⟩ <| .define (.str "me") (plain .global) .done
      else .done),
    .define (.str "x") (plain (.other 7)),
    .runScript (.delete (.str "x") <| .define (.str "x") (plain (.other 8)) <| .look fun _ => .done)]

theorem rounds_mirrored :
    ∃ b, run step (.createRealm {} builtins 9) rounds = some b ∧
      AllSteps step Safe (.createRealm {} builtins 9) rounds ∧ Mirrors b := by
  have hsafe : AllSteps step Safe (.createRealm {} builtins 9) rounds := by decide
  refine ⟨_, rfl, hsafe, sandbox_mirrored ?_ (show run step _ rounds = some _ from rfl) hsafe⟩
  intro n p hp
  cases hp

/-- A script deletes a property of the sandbox, and the sandbox has it still. -/
def forgotten : List (Act ℕ ℕ) :=
  [.define (.str "x") (plain (.other 2)), .runScript (.delete (.str "x") .done)]

theorem forgotten_not_mirrored :
    ∃ b, run step (.createRealm {} builtins 9) forgotten = some b ∧ ¬ Mirrors b := by
  refine ⟨_, rfl, ?_⟩
  intro h
  have hx := h.sandbox (.str "x") rfl
  revert hx
  decide

end WasmerNapi.Quickjs.Contextify
