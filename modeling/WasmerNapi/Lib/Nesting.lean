import Mathlib

/-!
# Code that runs nested, and its scopes

Code is started in a context. While it runs it opens scopes, each with a key and a context of its
own, and closes the innermost of those it opened. Other code may be started inside it, and runs
till it returns; what that leaves open is closed then. `layout` puts it all on one stack.
-/

/-- The code that runs and the scopes it has open, innermost first, inside what it was started in. -/
inductive Nesting (κ ρ : Type*) where
  | outermost (scopes : List (κ × ρ))
  | inside (outer : Nesting κ ρ) (context : ρ) (scopes : List (κ × ρ))

namespace Nesting

variable {κ ρ ε : Type*}

def scopes : Nesting κ ρ → List (κ × ρ)
  | outermost scopes => scopes
  | inside _ _ scopes => scopes

/-- Where code was started, innermost first. -/
def started : Nesting κ ρ → List ρ
  | outermost _ => []
  | inside outer context _ => context :: outer.started

/-- The context of the innermost scope, else the one the code was started in. -/
def current (root : ρ) (n : Nesting κ ρ) : ρ :=
  (n.scopes.head?.map Prod.snd).getD (n.started.head?.getD root)

def openScope (c : κ × ρ) : Nesting κ ρ → Nesting κ ρ
  | outermost scopes => outermost (c :: scopes)
  | inside outer context scopes => inside outer context (c :: scopes)

/-- The innermost scope of the code that runs, if its key is `k`. -/
def closeScope [DecidableEq κ] (k : κ) : Nesting κ ρ → Nesting κ ρ
  | outermost (c :: scopes) => outermost (if c.1 = k then scopes else c :: scopes)
  | inside outer context (c :: scopes) =>
    inside outer context (if c.1 = k then scopes else c :: scopes)
  | n => n

/-- The outermost code does not return. -/
def finish : Nesting κ ρ → Nesting κ ρ
  | outermost scopes => outermost scopes
  | inside outer _ _ => outer

section

variable (mark : ρ → ε) (scope : κ × ρ → ε)

/-- An entry for each scope, after the one of the start it belongs to. -/
def layout : Nesting κ ρ → List ε
  | outermost scopes => (scopes.map scope).reverse
  | inside outer context scopes => outer.layout ++ mark context :: (scopes.map scope).reverse

/-- The stack before each start, innermost first. -/
def befores : Nesting κ ρ → List (List ε)
  | outermost _ => []
  | inside outer _ _ => outer.layout mark scope :: outer.befores

end

variable {mark : ρ → ε} {scope : κ × ρ → ε} (n : Nesting κ ρ) {c : κ × ρ} {k : κ}

theorem eq_openScope : n.scopes = [] ∨ ∃ m c, n = openScope c m := by
  rcases n with (_ | ⟨c, s⟩) | ⟨outer, context, _ | ⟨c, s⟩⟩
  · exact .inl rfl
  · exact .inr ⟨outermost s, c, rfl⟩
  · exact .inl rfl
  · exact .inr ⟨inside outer context s, c, rfl⟩

@[simp] theorem scopes_openScope : (n.openScope c).scopes = c :: n.scopes := by cases n <;> rfl

@[simp] theorem started_openScope : (n.openScope c).started = n.started := by cases n <;> rfl

@[simp] theorem befores_openScope :
    (n.openScope c).befores mark scope = n.befores mark scope := by cases n <;> rfl

@[simp] theorem layout_openScope :
    (n.openScope c).layout mark scope = n.layout mark scope ++ [scope c] := by
  cases n <;> simp [openScope, layout]

theorem getLast?_layout (h : n.scopes = []) :
    (n.layout mark scope).getLast? = n.started.head?.map mark := by
  cases n <;> obtain rfl := h <;> simp [started, layout]

@[simp] theorem closeScope_openScope [DecidableEq κ] :
    (n.openScope c).closeScope k = if c.1 = k then n else n.openScope c := by
  cases n <;> simp only [openScope, closeScope] <;> split <;> rfl

theorem closeScope_eq [DecidableEq κ] (h : n.scopes.head?.map Prod.fst ≠ some k) :
    n.closeScope k = n := by
  rcases n.eq_openScope with hnil | ⟨m, c, rfl⟩
  · cases n <;> obtain rfl := hnil <;> rfl
  · rw [closeScope_openScope, if_neg (by simpa using h)]

end Nesting
