import Mathlib

/-!
# Handle scopes around native callbacks

`quickjs_callback_handle_scope__` and `invoke_callback` in
`src/quickjs/src/internal/napi_function.cc`, with the scope calls of
`src/quickjs/src/js_native_api_quickjs.cc` and `napi_scope__` that a callback makes in between.

A run is the steps native code takes and the storage each of them is given: a scope or a value
gets any identifier that is not in use, so one that was freed may come back. What native code
cannot do is left out of the runs: it has no handle of a callback's own scope or of the root,
and it keeps to value handles and escapable scopes that are still there.
-/

namespace WasmerNapi.Quickjs.CallbackScopes

open List (map_cons mem_cons nodup_cons map_append mem_append)

/-- `napi_scope__`; `given` says that native code has its handle. -/
structure Scope where
  parent : Option ℕ
  given : Bool
  escaped : Bool := false

/-- `napi_value__` -/
structure Entry (V : Type) where
  owner : ℕ
  inner : V

/-- The agent's scopes and the values they own. -/
structure Agent (V : Type) where
  current : Option ℕ
  scopes : ℕ → Option Scope
  values : ℕ → Option (Entry V) := fun _ => none

inductive Stop where
  /-- Not a run: storage in use was given out, or native code used a handle it cannot have. -/
  | notARun
  /-- The code reads a scope that was destroyed. -/
  | freedScope
  deriving DecidableEq

section Calls

variable {V : Type}

/-- `create_scope` under the current scope, whose level it reads. -/
def createScope (id : ℕ) (given : Bool) (s : Agent V) : Except Stop (Agent V) :=
  if (s.scopes id).isSome then .error .notARun
  else
    match s.current.bind s.scopes with
    | none => .error .freedScope
    | some _ =>
      .ok { s with
        scopes := Function.update s.scopes id (some { parent := s.current, given := given }) }

def setCurrentScope (scope : Option ℕ) (s : Agent V) : Agent V := { s with current := scope }

/-- `destroy_scope`: the values the scope owns go with it. -/
def destroyScope (id : ℕ) (s : Agent V) : Agent V :=
  { s with
    scopes := Function.update s.scopes id none
    values := fun v => (s.values v).filter (·.owner ≠ id) }

/-- `napi_open_handle_scope`, and `napi_open_escapable_handle_scope`; storage may be short. -/
def openScope (id : Option ℕ) (s : Agent V) : Except Stop (Agent V) :=
  match id with
  | none => .ok s
  | some id => (createScope id true s).map (setCurrentScope (some id))

/-- `napi_close_handle_scope`, and `napi_close_escapable_handle_scope`. -/
def closeScope (id : ℕ) (s : Agent V) : Except Stop (Agent V) :=
  if s.current = some id then
    match s.scopes id with
    | none => .error .freedScope
    | some inner =>
      if inner.given then .ok (destroyScope id (setCurrentScope inner.parent s))
      else .error .notARun
  else .ok s

/-- `wrap_value`, on a scope that is there. -/
def wrapValue (scope v : ℕ) (value : V) (s : Agent V) : Except Stop (Agent V) :=
  if (s.values v).isSome then .error .notARun
  else if (s.scopes scope).isNone then .error .freedScope
  else .ok { s with values := Function.update s.values v (some { owner := scope, inner := value }) }

/-- `wrap_value_in_current_scope` -/
def wrapValueInCurrentScope (v : ℕ) (value : V) (s : Agent V) : Except Stop (Agent V) :=
  match s.current with
  | none => .error .freedScope
  | some scope => wrapValue scope v value s

def markEscaped (id : ℕ) (inner : Scope) (s : Agent V) : Agent V :=
  { s with scopes := Function.update s.scopes id (some { inner with escaped := true }) }

/-- `napi_escape_handle` of a value, into a new handle. -/
def escapeHandle (id v new : ℕ) (s : Agent V) : Except Stop (Agent V) :=
  match s.scopes id, s.values v with
  | some inner, some value =>
    if !inner.given then .error .notARun
    else if inner.escaped then .ok s
    else
      match inner.parent with
      | none => .ok (markEscaped id inner s)
      | some parent =>
        -- A value of another scope is not escaped, and the scope is marked all the same.
        if value.owner = id then wrapValue parent new value.inner (markEscaped id inner s)
        else .ok (markEscaped id inner s)
  | _, _ => .error .notARun

/-- `delete_value_from_current_scope` -/
def deleteValueFromCurrentScope (v : ℕ) (s : Agent V) : Except Stop (Agent V) :=
  match s.current.bind s.scopes, s.values v with
  | none, _ => .error .freedScope
  | some _, none => .error .notARun
  | some _, some value =>
    if s.current = some value.owner then
      .ok { s with values := Function.update s.values v none }
    else .ok s

/-- The destructor of `quickjs_callback_handle_scope__`. -/
def leaveScope (id : ℕ) (parent : Option ℕ) (s : Agent V) : Agent V :=
  destroyScope id (if s.current = some id then setCurrentScope parent s else s)

/-- How a native callback ends: with a result handle or null, or with an exception or a
    termination pending. -/
inductive Ending where
  | returned (result : Option ℕ)
  | threw
  | terminated

/-- What the trampoline gives the engine. -/
inductive Returned (V : Type) where
  | value (v : V)
  | exception

/-- What follows the callback, its scope still open. `effective` is what a null result stands
    for: undefined, or the object of a construct call. -/
def takeResult (effective : V) (ending : Ending) (s : Agent V) :
    Except Stop (Agent V × Returned V) :=
  match ending with
  | .threw => .ok (s, .exception)
  | .terminated => .ok (s, .exception)
  | .returned none => .ok (s, .value effective)
  | .returned (some h) =>
    match s.values h with
    | none => .error .notARun
    | some entry =>
      (deleteValueFromCurrentScope h s).map fun after => (after, .value entry.inner)

/-- `invoke_callback`, with the storage of the callback's scope and what the callback does. -/
def invokeCallback (own : Option ℕ) (body : Agent V → Except Stop (Agent V)) (effective : V)
    (ending : Ending) (s : Agent V) : Except Stop (Agent V × Returned V) :=
  match own with
  | none => .ok (s, .exception)
  | some id => do
    let entered ← createScope id false s
    let atReturn ← body (setCurrentScope (some id) entered)
    let taken ← takeResult effective ending atReturn
    return (leaveScope id s.current taken.1, taken.2)

end Calls

/-! ## Native code -/

/-- What native code does with scopes and handles. A call runs JS that calls a native
    function. -/
inductive Step (V : Type) where
  | openHandleScope (id : Option ℕ)
  | openEscapableHandleScope (id : Option ℕ)
  | closeHandleScope (id : ℕ)
  | closeEscapableHandleScope (id : ℕ)
  | wrap (v : ℕ) (value : V)
  | escape (id v new : ℕ)
  | call (own : Option ℕ) (body : List (Step V)) (effective : V) (ending : Ending)

section Runs

variable {V : Type}

mutual

def Step.exec : Step V → Agent V → Except Stop (Agent V)
  | .openHandleScope id => openScope id
  | .openEscapableHandleScope id => openScope id
  | .closeHandleScope id => closeScope id
  | .closeEscapableHandleScope id => closeScope id
  | .wrap v value => wrapValueInCurrentScope v value
  | .escape id v new => escapeHandle id v new
  | .call own body effective ending => fun s =>
    (invokeCallback own (execAll body) effective ending s).map Prod.fst

def execAll : List (Step V) → Agent V → Except Stop (Agent V)
  | [] => .ok
  | step :: steps => fun s => (step.exec s).bind (execAll steps)

end

/-- The scopes native code has open, innermost first, after a step of its own. -/
def Step.opened (opened : List ℕ) : Step V → List ℕ
  | .openHandleScope (some id) => id :: opened
  | .openEscapableHandleScope (some id) => id :: opened
  | .closeHandleScope id => if opened.head? = some id then opened.tail else opened
  | .closeEscapableHandleScope id => if opened.head? = some id then opened.tail else opened
  | _ => opened

mutual

/-- A call is tidy when the callback closes every scope it opens, innermost first, and so do
    the callbacks it leads to. -/
def Step.tidy : Step V → Bool
  | .call (some _) body _ _ => tidyFrom [] body
  | _ => true

def tidyFrom : List ℕ → List (Step V) → Bool
  | opened, [] => opened.isEmpty
  | opened, step :: steps => step.tidy && tidyFrom (step.opened opened) steps

end

/-! ## Chains -/

/-- The scopes of the list are there, each under the next; a label says whether native code has
    the handle. -/
def Links (scopes : ℕ → Option Scope) : List (ℕ × Bool) → Prop
  | [] => True
  | (id, given) :: rest =>
    (∃ escaped, scopes id =
      some { parent := rest.head?.map Prod.fst, given := given, escaped := escaped }) ∧
      Links scopes rest

/-- The live scopes are a chain, the current one first. -/
structure Chain (s : Agent V) (l : List (ℕ × Bool)) : Prop where
  nodup : (l.map Prod.fst).Nodup
  links : Links s.scopes l
  live : ∀ id, (s.scopes id).isSome → id ∈ l.map Prod.fst
  current : s.current = l.head?.map Prod.fst

/-- The current scope is none of `base`, and no scope beyond them is a child of theirs. -/
structure Lost (base : Set ℕ) (s : Agent V) : Prop where
  live : ∀ id ∈ base, (s.scopes id).isSome
  current : ∀ id ∈ base, s.current ≠ some id
  parent : ∀ id inner, s.scopes id = some inner → id ∉ base →
    ∀ p ∈ base, inner.parent ≠ some p

variable {scopes : ℕ → Option Scope} {l : List (ℕ × Bool)}

/-- Links look at nothing but the scopes of the list, and not at whether they escaped. -/
theorem Links.congr {scopes' : ℕ → Option Scope} (h : Links scopes l)
    (same : ∀ id ∈ l.map Prod.fst, ∀ inner, scopes id = some inner →
      ∃ escaped, scopes' id = some { inner with escaped := escaped }) : Links scopes' l := by
  induction l with
  | nil => trivial
  | cons head rest ih =>
    obtain ⟨⟨escaped, he⟩, hrest⟩ := h
    obtain ⟨escaped', he'⟩ := same head.1 (by simp) _ he
    refine ⟨⟨escaped', he'⟩, ih hrest ?_⟩
    intro id hid
    apply same id
    simp only [map_cons, mem_cons]
    exact .inr hid

theorem Links.live (h : Links scopes l) :
    ∀ id ∈ l.map Prod.fst, (scopes id).isSome := by
  induction l with
  | nil => simp
  | cons head rest ih =>
    obtain ⟨⟨escaped, he⟩, hrest⟩ := h
    intro id hid
    simp only [map_cons, mem_cons] at hid
    rcases hid with rfl | hid
    · simp [he]
    · exact ih hrest id hid

variable {id : ℕ} {inner : Scope}

/-- The parents of the front of a chain are in its front, but for the last one's. -/
theorem Links.parent (h : Links scopes l) (hid : id ∈ l.map Prod.fst) (hs : scopes id = some inner) :
    ∀ p, inner.parent = some p → p ∈ (l.map Prod.fst).tail := by
  induction l with
  | nil => simp at hid
  | cons head rest ih =>
    obtain ⟨⟨escaped, he⟩, hrest⟩ := h
    intro p hp
    simp only [map_cons, List.tail_cons]
    simp only [map_cons, mem_cons] at hid
    rcases hid with rfl | hid
    · rw [he] at hs
      simp only [Option.some.injEq] at hs
      subst hs
      cases rest with
      | nil => simp at hp
      | cons next rest =>
        simp only [List.head?_cons, Option.map_some, Option.some.injEq] at hp
        simp [hp]
    · exact List.mem_of_mem_tail (ih hrest hid p hp)

variable {s : Agent V} {given : Bool}

theorem Chain.head_mem (h : Chain s ((id, given) :: l)) :
    ∃ escaped, s.scopes id =
      some { parent := l.head?.map Prod.fst, given := given, escaped := escaped } := h.links.1

variable {s' : Agent V}

/-- A chain's scopes and its current one are all there is to it. -/
theorem Chain.congr (h : Chain s l) (hc : s'.current = s.current)
    (same : ∀ id inner, s.scopes id = some inner →
      ∃ escaped, s'.scopes id = some { inner with escaped := escaped })
    (none : ∀ id, s.scopes id = none → s'.scopes id = none) : Chain s' l := by
  refine ⟨h.nodup, h.links.congr fun id _ inner => same id inner, ?_, hc.trans h.current⟩
  intro id hid
  apply h.live
  cases hs : s.scopes id with
  | none => simp [none id hs] at hid
  | some inner => rfl

/-- A new scope goes on top. -/
theorem Chain.create (h : Chain s l) (hl : l ≠ []) (run : createScope id given s ≠ .error .notARun) :
    ∃ s', createScope id given s = .ok s' ∧
      Chain (setCurrentScope (some id) s') ((id, given) :: l) := by
  cases l with
  | nil => exact absurd rfl hl
  | cons top rest =>
    obtain ⟨⟨escaped, htop⟩, _⟩ := h.links
    have hcur : s.current.bind s.scopes =
        some { parent := rest.head?.map Prod.fst, given := top.2, escaped := escaped } := by
      simp [h.current, htop]
    cases hid : s.scopes id with
    | some inner => exact absurd (by simp [createScope, hid]) run
    | none =>
      refine ⟨_, by simp only [createScope, hid, hcur]; rfl, ?_⟩
      have hnew : id ∉ (top :: rest).map Prod.fst := by
        intro hm
        have := h.links.live id hm
        simp [hid] at this
      refine ⟨?_, ⟨⟨false, ?_⟩, ?_⟩, ?_, rfl⟩
      · simp only [map_cons, nodup_cons]
        exact ⟨by simpa using hnew, by simpa using h.nodup⟩
      · simp [setCurrentScope, h.current]
      · apply h.links.congr
        intro other hother inner hinner
        have hne : other ≠ id := by
          rintro rfl
          exact hnew hother
        exact ⟨inner.escaped, by simp [setCurrentScope, hne, hinner]⟩
      · intro other hother
        simp only [map_cons, mem_cons]
        by_cases hne : other = id
        · exact .inl hne
        · right
          have := h.live other (by simpa [setCurrentScope, hne] using hother)
          simpa using this

/-- The top scope comes off. -/
theorem Chain.destroy (h : Chain s ((id, given) :: l)) :
    Chain (destroyScope id (setCurrentScope (l.head?.map Prod.fst) s)) l := by
  have hnodup := h.nodup
  simp only [map_cons, nodup_cons] at hnodup
  refine ⟨hnodup.2, ?_, ?_, rfl⟩
  · apply h.links.2.congr
    intro other hother inner hinner
    have hne : other ≠ id := by
      rintro rfl
      exact hnodup.1 hother
    exact ⟨inner.escaped, by simp [destroyScope, setCurrentScope, hne, hinner]⟩
  · intro other hother
    by_cases hne : other = id
    · simp [destroyScope, hne] at hother
    · have := h.live other (by simpa [destroyScope, setCurrentScope, hne] using hother)
      simp only [map_cons, mem_cons] at this
      exact this.resolve_left hne

theorem Chain.current_live (h : Chain s l) (hl : l ≠ []) :
    ∃ id inner, s.current = some id ∧ s.scopes id = some inner := by
  cases l with
  | nil => exact absurd rfl hl
  | cons top rest =>
    obtain ⟨⟨escaped, htop⟩, _⟩ := h.links
    exact ⟨top.1, _, h.current, htop⟩

/-! ### The calls on a chain -/

theorem Chain.closeTop (h : Chain s ((id, true) :: l)) :
    ∃ s', closeScope id s = .ok s' ∧ Chain s' l := by
  obtain ⟨escaped, hid⟩ := h.head_mem
  refine ⟨_, ?_, h.destroy⟩
  simp [closeScope, h.current, hid]

theorem closeScope_other (h : s.current ≠ some id) :
    closeScope id s = .ok s := by
  simp [closeScope, h]

variable {v : ℕ}

theorem wrapValue_chain (h : Chain s l) {scope : ℕ} {value : V} (hscope : (s.scopes scope).isSome)
    (run : wrapValue scope v value s ≠ .error .notARun) :
    ∃ s', wrapValue scope v value s = .ok s' ∧ Chain s' l := by
  cases hv : s.values v with
  | some entry => exact absurd (by simp [wrapValue, hv]) run
  | none =>
    have hn : (s.scopes scope).isNone = false := by simpa using hscope
    refine ⟨_, by simp only [wrapValue, hv, hn]; rfl, ?_⟩
    exact h.congr rfl (fun _ inner hi => ⟨inner.escaped, hi⟩) (fun _ hi => hi)

theorem markEscaped_chain (h : Chain s l) (hid : s.scopes id = some inner) :
    Chain (markEscaped id inner s) l := by
  have hc : (markEscaped id inner s).current = s.current := rfl
  apply h.congr hc
  · intro other inner' hi
    by_cases hne : other = id
    · subst hne
      rw [hid] at hi
      simp only [Option.some.injEq] at hi
      subst hi
      exact ⟨true, by simp [markEscaped]⟩
    · exact ⟨inner'.escaped, by simp [markEscaped, hne, hi]⟩
  · intro other hi
    have hne : other ≠ id := by
      rintro rfl
      simp [hid] at hi
    simp [markEscaped, hne, hi]

theorem escapeHandle_chain (h : Chain s l) {new : ℕ}
    (run : escapeHandle id v new s ≠ .error .notARun) :
    ∃ s', escapeHandle id v new s = .ok s' ∧ Chain s' l := by
  unfold escapeHandle at run ⊢
  cases hid : s.scopes id with
  | none => simp [hid] at run
  | some inner =>
    cases hv : s.values v with
    | none => simp [hid, hv] at run
    | some value =>
      simp only [hid, hv] at run ⊢
      have hmarked := markEscaped_chain h hid
      cases hp : inner.parent with
      | none =>
        simp only [hp] at run ⊢
        split_ifs at run ⊢
        · exact absurd rfl run
        · exact ⟨s, rfl, h⟩
        · exact ⟨_, rfl, hmarked⟩
      | some parent =>
        simp only [hp] at run ⊢
        split_ifs at run ⊢
        · exact absurd rfl run
        · exact ⟨s, rfl, h⟩
        · -- The parent of a scope on the chain is on the chain.
          apply wrapValue_chain hmarked _ run
          have hmem := h.live id (by simp [hid])
          have hparent := h.links.parent hmem hid parent hp
          exact hmarked.links.live parent (List.mem_of_mem_tail hparent)
        · exact ⟨_, rfl, hmarked⟩

variable {effective : V} {ending : Ending}

theorem takeResult_chain (h : Chain s l) (hl : l ≠ [])
    (run : takeResult effective ending s ≠ .error .notARun) :
    ∃ taken, takeResult effective ending s = .ok taken ∧ Chain taken.1 l := by
  unfold takeResult at run ⊢
  cases ending with
  | threw => exact ⟨_, rfl, h⟩
  | terminated => exact ⟨_, rfl, h⟩
  | returned result =>
    cases result with
    | none => exact ⟨_, rfl, h⟩
    | some handle =>
      cases hv : s.values handle with
      | none => simp [hv] at run
      | some entry =>
        obtain ⟨id, inner, hcur, hid⟩ := h.current_live hl
        simp only [deleteValueFromCurrentScope, hcur, hid, hv, Option.bind_some]
        split_ifs
        · refine ⟨_, rfl, ?_⟩
          exact h.congr hcur.symm (fun _ inner hi => ⟨inner.escaped, hi⟩) (fun _ hi => hi)
        · exact ⟨_, rfl, h⟩

/-- A run that goes on after a step was one up to the step. -/
theorem bind_ne_error {α β : Type} {x : Except Stop α} {f : α → Except Stop β}
    (h : x.bind f ≠ .error .notARun) :
    x ≠ .error .notARun ∧ ∀ a, x = .ok a → f a ≠ .error .notARun := by
  cases x with
  | error e => exact ⟨fun he => h (by simpa [Except.bind] using he), by simp⟩
  | ok a =>
    refine ⟨by simp, ?_⟩
    intro b hb
    simp only [Except.ok.injEq] at hb
    subst hb
    exact h

theorem map_ne_error {α β : Type} {x : Except Stop α} {f : α → β}
    (h : x.map f ≠ .error .notARun) : x ≠ .error .notARun := by
  rintro rfl
  exact h rfl

/-- The stages of a call whose scope was allocated. -/
theorem invokeCallback_bind (id : ℕ) (body : Agent V → Except Stop (Agent V)) (effective : V)
    (ending : Ending) (s : Agent V) :
    invokeCallback (some id) body effective ending s =
      (createScope id false s).bind fun entered =>
        (body (setCurrentScope (some id) entered)).bind fun atReturn =>
          (takeResult effective ending atReturn).map fun taken =>
            (leaveScope id s.current taken.1, taken.2) := rfl

/-! ## Tidy native code -/

/-- The scopes native code has open, as the front of a chain. -/
def front (opened : List ℕ) : List (ℕ × Bool) := opened.map fun id => (id, true)

/-- A callback that leaves its scope current leaves the chain as it was before the call. -/
theorem leaveScope_chain (h : Chain s ((id, given) :: l)) :
    Chain (leaveScope id (l.head?.map Prod.fst) s) l := by
  simp only [leaveScope, h.current, List.head?_cons, Option.map_some, if_true]
  exact h.destroy

variable {body : Agent V → Except Stop (Agent V)}

/-- A call whose callback brings the chain back to its own scope brings it back to what it was
    before. -/
theorem invokeCallback_chain (h : Chain s l) (hl : l ≠ [])
    (back : ∀ entered, Chain entered ((id, false) :: l) → body entered ≠ .error .notARun →
      ∃ s', body entered = .ok s' ∧ Chain s' ((id, false) :: l))
    (run : invokeCallback (some id) body effective ending s ≠ .error .notARun) :
    ∃ out, invokeCallback (some id) body effective ending s = .ok out ∧ Chain out.1 l := by
  rw [invokeCallback_bind] at run ⊢
  obtain ⟨hcreate, run⟩ := bind_ne_error run
  obtain ⟨entered, hentered, hchain⟩ := h.create hl hcreate
  obtain ⟨hbody, run⟩ := bind_ne_error (run entered hentered)
  obtain ⟨atReturn, hat, hchain⟩ := back _ hchain hbody
  have htake := map_ne_error (run atReturn hat)
  obtain ⟨taken, htaken, hchain⟩ := takeResult_chain hchain (by simp) htake
  refine ⟨(leaveScope id s.current taken.1, taken.2), ?_, ?_⟩
  · rw [hentered]
    simp only [Except.bind]
    rw [hat]
    simp only
    rw [htaken]
    rfl
  · rw [h.current]
    exact leaveScope_chain hchain

theorem openScope_chain (h : Chain s l) (hl : l ≠ [])
    (run : openScope (some id) s ≠ .error .notARun) :
    ∃ s', openScope (some id) s = .ok s' ∧ Chain s' ((id, true) :: l) := by
  obtain ⟨s', hs', hchain⟩ := h.create hl (map_ne_error run)
  refine ⟨setCurrentScope (some id) s', ?_, hchain⟩
  simp only [openScope, hs']
  rfl

variable {opened : List ℕ}

/-- Native code's scopes end at a scope it has no handle of, so a close takes off the innermost
    of them or nothing. -/
theorem closeScope_chain {own : ℕ} (h : Chain s (front opened ++ (own, false) :: l))
    (run : closeScope id s ≠ .error .notARun) :
    ∃ s', closeScope id s = .ok s' ∧
      Chain s' (front (if opened.head? = some id then opened.tail else opened) ++
        (own, false) :: l) := by
  cases opened with
  | nil =>
    have hcur : s.current = some own := h.current
    obtain ⟨escaped, hown⟩ := Chain.head_mem (h : Chain s ((own, false) :: l))
    have hne : s.current ≠ some id := by
      intro he
      rw [hcur] at he
      simp only [Option.some.injEq] at he
      subst he
      exact run (by simp [closeScope, hcur, hown])
    exact ⟨s, closeScope_other hne, by simpa using h⟩
  | cons top rest =>
    have hcur : s.current = some top := h.current
    by_cases he : top = id
    · subst he
      obtain ⟨s', hs', hchain⟩ := Chain.closeTop h
      refine ⟨s', hs', ?_⟩
      simp only [List.head?_cons, if_true, List.tail_cons]
      exact hchain
    · have hne : s.current ≠ some id := by simpa [hcur] using he
      exact ⟨s, closeScope_other hne, by simpa [he] using h⟩

mutual

/-- A tidy step keeps the chain, but for what it opens and closes itself. -/
theorem exec_tidy (step : Step V) {s : Agent V} {opened : List ℕ} {own : ℕ}
    {l : List (ℕ × Bool)} (h : Chain s (front opened ++ (own, false) :: l))
    (tidy : step.tidy = true) (run : step.exec s ≠ .error .notARun) :
    ∃ s', step.exec s = .ok s' ∧ Chain s' (front (step.opened opened) ++ (own, false) :: l) := by
  have hl : front opened ++ (own, false) :: l ≠ [] := by simp
  cases step with
  | openHandleScope id =>
    cases id with
    | none => exact ⟨s, rfl, h⟩
    | some id => exact openScope_chain h hl run
  | openEscapableHandleScope id =>
    cases id with
    | none => exact ⟨s, rfl, h⟩
    | some id => exact openScope_chain h hl run
  | closeHandleScope id => exact closeScope_chain h run
  | closeEscapableHandleScope id => exact closeScope_chain h run
  | wrap v value =>
    obtain ⟨id, inner, hcur, hid⟩ := h.current_live hl
    simp only [Step.exec, wrapValueInCurrentScope, hcur] at run ⊢
    exact wrapValue_chain h (by simp [hid]) run
  | escape id v new => exact escapeHandle_chain h run
  | call id body effective ending =>
    cases id with
    | none => exact ⟨s, rfl, h⟩
    | some id =>
      have back (entered : Agent V)
          (hentered : Chain entered (front [] ++ (id, false) :: (front opened ++ (own, false) :: l)))
          (hrun : execAll body entered ≠ .error .notARun) :=
        execAll_tidy body hentered tidy hrun
      obtain ⟨out, hout, hchain⟩ := invokeCallback_chain h hl back (map_ne_error run)
      refine ⟨out.1, ?_, hchain⟩
      simp only [Step.exec, hout]
      rfl

theorem execAll_tidy (steps : List (Step V)) {s : Agent V} {opened : List ℕ} {own : ℕ}
    {l : List (ℕ × Bool)} (h : Chain s (front opened ++ (own, false) :: l))
    (tidy : tidyFrom opened steps = true) (run : execAll steps s ≠ .error .notARun) :
    ∃ s', execAll steps s = .ok s' ∧ Chain s' ((own, false) :: l) := by
  cases steps with
  | nil =>
    have hnil : opened = [] := by simpa [tidyFrom] using tidy
    subst hnil
    exact ⟨s, rfl, h⟩
  | cons step steps =>
    simp only [tidyFrom, Bool.and_eq_true] at tidy
    obtain ⟨hstep, hrest⟩ := bind_ne_error (x := step.exec s) (f := execAll steps) run
    obtain ⟨mid, hmid, hchain⟩ := exec_tidy step h tidy.1 hstep
    obtain ⟨s', hs', hlast⟩ := execAll_tidy steps hchain tidy.2 (hrest mid hmid)
    refine ⟨s', ?_, hlast⟩
    simp only [execAll, hmid]
    exact hs'

end

/-! ## Lost chains -/

variable {base : Set ℕ}

theorem Lost.values (h : Lost base s) (values : ℕ → Option (Entry V)) :
    Lost base { s with values := values } :=
  { h with }

/-- A scope made while the chain is lost is not one of the base, and its parent is not. -/
theorem Lost.create (h : Lost base s) (run : createScope id given s = .ok s') :
    Lost base (setCurrentScope (some id) s') ∧ id ∉ base := by
  unfold createScope at run
  cases hid : s.scopes id with
  | some inner => simp [hid] at run
  | none =>
    have hnew : id ∉ base := by
      intro hm
      have := h.live id hm
      simp [hid] at this
    have hne : ∀ other ∈ base, other ≠ id := by
      rintro other hother rfl
      exact hnew hother
    cases hcur : s.current.bind s.scopes with
    | none => simp [hid, hcur] at run
    | some top =>
      simp only [hid, hcur, Option.isSome_none, Bool.false_eq_true, if_false,
        Except.ok.injEq] at run
      subst run
      refine ⟨⟨?_, ?_, ?_⟩, hnew⟩
      · intro other hother
        simpa [setCurrentScope, hne other hother] using h.live other hother
      · intro other hother he
        simp only [setCurrentScope, Option.some.injEq] at he
        exact hne other hother he.symm
      · intro other inner hinner hother p hp
        by_cases he : other = id
        · subst he
          simp only [setCurrentScope, Function.update_self, Option.some.injEq] at hinner
          subst hinner
          exact h.current p hp
        · simp only [setCurrentScope, Function.update_of_ne he] at hinner
          exact h.parent other inner hinner hother p hp

/-- Destroying a scope that is not of the base. -/
theorem Lost.destroy (h : Lost base s) (hid : id ∉ base) :
    Lost base (destroyScope id s) := by
  refine ⟨?_, h.current, ?_⟩
  · intro other hother
    have hne : other ≠ id := by
      rintro rfl
      exact hid hother
    simpa [destroyScope, hne] using h.live other hother
  · intro other inner hinner
    by_cases he : other = id
    · simp [destroyScope, he] at hinner
    · exact h.parent other inner (by simpa [destroyScope, he] using hinner)

theorem Lost.setCurrent (h : Lost base s) {scope : Option ℕ}
    (hscope : ∀ id ∈ base, scope ≠ some id) : Lost base (setCurrentScope scope s) :=
  ⟨h.live, hscope, h.parent⟩

theorem Lost.markEscaped (h : Lost base s) (hid : s.scopes id = some inner) :
    Lost base (markEscaped id inner s) := by
  refine ⟨?_, h.current, ?_⟩
  · intro other hother
    by_cases he : other = id
    · simp [CallbackScopes.markEscaped, he]
    · simpa [CallbackScopes.markEscaped, he] using h.live other hother
  · intro other inner' hinner hother
    by_cases he : other = id
    · subst he
      simp only [CallbackScopes.markEscaped, Function.update_self, Option.some.injEq] at hinner
      subst hinner
      exact h.parent other inner hid hother
    · exact h.parent other inner' (by simpa [CallbackScopes.markEscaped, he] using hinner) hother

theorem lost_openScope (h : Lost base s) {id : Option ℕ} (run : openScope id s = .ok s') :
    Lost base s' := by
  cases id with
  | none =>
    simp only [openScope, Except.ok.injEq] at run
    exact run ▸ h
  | some id =>
    cases hc : createScope id true s with
    | error e => simp [openScope, hc, Except.map] at run
    | ok made =>
      simp only [openScope, hc, Except.map, Except.ok.injEq] at run
      exact run ▸ (h.create hc).1

theorem lost_closeScope (h : Lost base s) (run : closeScope id s = .ok s') : Lost base s' := by
  unfold closeScope at run
  split_ifs at run with hcur
  · cases hid : s.scopes id with
    | none => simp [hid] at run
    | some inner =>
      simp only [hid] at run
      split_ifs at run
      simp only [Except.ok.injEq] at run
      subst run
      have hnot : id ∉ base := fun hm => h.current id hm hcur
      -- The scope's parent is current next, and it is not of the base either.
      exact (h.setCurrent fun p hp => h.parent id inner hid hnot p hp).destroy hnot
  · simp only [Except.ok.injEq] at run
    exact run ▸ h

theorem lost_wrapValue (h : Lost base s) {scope : ℕ} {value : V}
    (run : wrapValue scope v value s = .ok s') : Lost base s' := by
  unfold wrapValue at run
  split_ifs at run
  simp only [Except.ok.injEq] at run
  subst run
  exact h.values _

theorem lost_escapeHandle (h : Lost base s) {new : ℕ} (run : escapeHandle id v new s = .ok s') :
    Lost base s' := by
  unfold escapeHandle at run
  cases hid : s.scopes id with
  | none => simp [hid] at run
  | some inner =>
    cases hv : s.values v with
    | none => simp [hid, hv] at run
    | some value =>
      simp only [hid, hv] at run
      have hmarked := h.markEscaped hid
      cases hp : inner.parent with
      | none =>
        simp only [hp] at run
        split_ifs at run
        · simp only [Except.ok.injEq] at run
          exact run ▸ h
        · simp only [Except.ok.injEq] at run
          exact run ▸ hmarked
      | some parent =>
        simp only [hp] at run
        split_ifs at run
        · simp only [Except.ok.injEq] at run
          exact run ▸ h
        · exact lost_wrapValue hmarked run
        · simp only [Except.ok.injEq] at run
          exact run ▸ hmarked

variable {taken : Agent V × Returned V}

/-- Taking the result changes the values alone. -/
theorem takeResult_ok (run : takeResult effective ending s = .ok taken) :
    ∃ values, taken.1 = { s with values := values } := by
  unfold takeResult at run
  cases ending with
  | threw =>
    simp only [Except.ok.injEq] at run
    exact ⟨s.values, by rw [← run]⟩
  | terminated =>
    simp only [Except.ok.injEq] at run
    exact ⟨s.values, by rw [← run]⟩
  | returned result =>
    cases result with
    | none =>
      simp only [Except.ok.injEq] at run
      exact ⟨s.values, by rw [← run]⟩
    | some handle =>
      cases hv : s.values handle with
      | none => simp [hv] at run
      | some entry =>
        cases hb : s.current.bind s.scopes with
        | none => simp [hv, deleteValueFromCurrentScope, hb, Except.map] at run
        | some inner =>
          simp only [hv, deleteValueFromCurrentScope, hb] at run
          split_ifs at run
          · simp only [Except.map, Except.ok.injEq] at run
            exact ⟨_, by rw [← run]⟩
          · simp only [Except.map, Except.ok.injEq] at run
            exact ⟨s.values, by rw [← run]⟩

theorem lost_takeResult (h : Lost base s) (run : takeResult effective ending s = .ok taken) :
    Lost base taken.1 := by
  obtain ⟨values, hv⟩ := takeResult_ok run
  exact hv ▸ h.values values

/-- The destructor loses nothing more: its scope is not of the base, nor is the one it goes back
    to. -/
theorem lost_leaveScope (h : Lost base s) (hid : id ∉ base) {parent : Option ℕ}
    (hparent : ∀ p ∈ base, parent ≠ some p) :
    Lost base (leaveScope id parent s) := by
  unfold leaveScope
  split_ifs
  · exact (h.setCurrent hparent).destroy hid
  · exact h.destroy hid

variable {out : Agent V × Returned V}

/-- The stages of a call that came back. -/
theorem invokeCallback_ok (run : invokeCallback (some id) body effective ending s = .ok out) :
    ∃ entered atReturn taken, createScope id false s = .ok entered ∧
      body (setCurrentScope (some id) entered) = .ok atReturn ∧
      takeResult effective ending atReturn = .ok taken ∧
      out = (leaveScope id s.current taken.1, taken.2) := by
  rw [invokeCallback_bind] at run
  cases hc : createScope id false s with
  | error e => simp [hc, Except.bind] at run
  | ok entered =>
    cases hb : body (setCurrentScope (some id) entered) with
    | error e => simp [hc, hb, Except.bind] at run
    | ok atReturn =>
      cases ht : takeResult effective ending atReturn with
      | error e => simp [hc, hb, ht, Except.bind, Except.map] at run
      | ok taken =>
        simp only [hc, hb, ht, Except.bind, Except.map, Except.ok.injEq] at run
        exact ⟨entered, atReturn, taken, rfl, hb, ht, run.symm⟩

theorem lost_invokeCallback (h : Lost base s)
    (keeps : ∀ s s', Lost base s → body s = .ok s' → Lost base s')
    (run : invokeCallback (some id) body effective ending s = .ok out) : Lost base out.1 := by
  obtain ⟨entered, atReturn, taken, hc, hb, ht, rfl⟩ := invokeCallback_ok run
  obtain ⟨hentered, hid⟩ := h.create hc
  have hat := keeps _ _ hentered hb
  exact lost_leaveScope (lost_takeResult hat ht) hid h.current

mutual

/-- A lost chain stays lost, whatever native code does next. -/
theorem lost_exec (step : Step V) {s s' : Agent V} {base : Set ℕ} (h : Lost base s)
    (run : step.exec s = .ok s') : Lost base s' := by
  cases step with
  | openHandleScope id => exact lost_openScope h run
  | openEscapableHandleScope id => exact lost_openScope h run
  | closeHandleScope id => exact lost_closeScope h run
  | closeEscapableHandleScope id => exact lost_closeScope h run
  | wrap v value =>
    cases hcur : s.current with
    | none => simp [Step.exec, wrapValueInCurrentScope, hcur] at run
    | some scope =>
      simp only [Step.exec, wrapValueInCurrentScope, hcur] at run
      exact lost_wrapValue h run
  | escape id v new => exact lost_escapeHandle h run
  | call id body effective ending =>
    cases id with
    | none =>
      simp only [Step.exec, invokeCallback, Except.map, Except.ok.injEq] at run
      exact run ▸ h
    | some id =>
      cases ho : invokeCallback (some id) (execAll body) effective ending s with
      | error e => simp [Step.exec, ho, Except.map] at run
      | ok out =>
        simp only [Step.exec, ho, Except.map, Except.ok.injEq] at run
        subst run
        have keeps (a b : Agent V) (ha : Lost base a) (hb : execAll body a = .ok b) :=
          lost_execAll body ha hb
        exact lost_invokeCallback h keeps ho
theorem lost_execAll (steps : List (Step V)) {s s' : Agent V} {base : Set ℕ} (h : Lost base s)
    (run : execAll steps s = .ok s') : Lost base s' := by
  cases steps with
  | nil =>
    simp only [execAll, Except.ok.injEq] at run
    exact run ▸ h
  | cons step steps =>
    cases hm : step.exec s with
    | error e => simp [execAll, hm, Except.bind] at run
    | ok mid =>
      simp only [execAll, hm, Except.bind] at run
      exact lost_execAll steps (lost_exec step h hm) run

end

/-! ## Untidy native code -/

/-- Where untidy native code leaves the chain: with scopes of its own open, or lost. -/
def Astray (own : ℕ) (l : List (ℕ × Bool)) (s : Agent V) : Prop :=
  (∃ opened, opened ≠ [] ∧ Chain s (front opened ++ (own, false) :: l)) ∨
    ∃ base : Set ℕ, own ∈ base ∧ (∀ id ∈ l.map Prod.fst, id ∈ base) ∧ Lost base s

theorem Astray.values {own : ℕ} (h : Astray own l s) (values : ℕ → Option (Entry V)) :
    Astray own l { s with values := values } := by
  rcases h with ⟨opened, hne, hchain⟩ | ⟨base, hown, hl, hlost⟩
  · exact .inl ⟨opened, hne,
      hchain.congr rfl (fun _ inner hi => ⟨inner.escaped, hi⟩) (fun _ hi => hi)⟩
  · exact .inr ⟨base, hown, hl, hlost.values values⟩

/-- A live scope in the front of a chain is a child of nothing behind the front. -/
theorem front_parent (h : Chain s (front opened ++ (id, false) :: l)) {x : ℕ} (hx : x ∈ opened)
    (hs : s.scopes x = some inner) :
    ∀ p, inner.parent = some p → p ∉ l.map Prod.fst := by
  intro p hp hpl
  have hlinks := h.links
  have hnodup := h.nodup
  clear h
  induction opened with
  | nil => simp at hx
  | cons top rest ih =>
    obtain ⟨⟨escaped, htop⟩, hrest⟩ := hlinks
    have hrestnodup : ((front rest ++ (id, false) :: l).map Prod.fst).Nodup :=
      (nodup_cons.mp hnodup).2
    rcases mem_cons.mp hx with rfl | hx
    · -- The parent of the last of the front is the scope right behind it.
      rw [htop] at hs
      simp only [Option.some.injEq] at hs
      subst hs
      cases rest with
      | nil =>
        have hp : id = p := by simpa [front] using hp
        subst hp
        exact (nodup_cons.mp hrestnodup).1 hpl
      | cons next rest =>
        have hp : next = p := by simpa [front] using hp
        subst hp
        apply (nodup_cons.mp hrestnodup).1
        simp only [List.append_eq, map_append, map_cons, mem_append, mem_cons]
        exact .inr (.inr hpl)
    · exact ih hx hrest hrestnodup

/-- The destructor does not take off a scope that is not on top, but it destroys it: what is
    above it is cut off from what is below. -/
theorem leaveScope_open (h : Chain s (front opened ++ (id, false) :: l)) (hne : opened ≠ [])
    (parent : Option ℕ) :
    Lost {p | p ∈ l.map Prod.fst} (leaveScope id parent s) := by
  have hnodup := h.nodup
  simp only [map_append, map_cons] at hnodup
  obtain ⟨_, hrest, hdisjoint⟩ := List.nodup_append'.mp hnodup
  have hid : id ∉ l.map Prod.fst := (nodup_cons.mp hrest).1
  have hfront : ∀ x ∈ opened, x ≠ id ∧ x ∉ l.map Prod.fst := by
    intro x hx
    have hnot := List.disjoint_left.mp hdisjoint (by simpa [front] using hx)
    exact ⟨fun he => hnot (by simp [he]), fun hm => hnot (by simp [hm])⟩
  have htop : ∀ c, s.current = some c → c ∈ opened := by
    intro c hc
    cases opened with
    | nil => exact absurd rfl hne
    | cons top rest =>
      rw [h.current] at hc
      simp only [front, map_cons, List.cons_append, List.head?_cons, Option.map_some,
        Option.some.injEq] at hc
      simp [hc]
  have hcur : s.current ≠ some id := fun hc => (hfront id (htop id hc)).1 rfl
  simp only [leaveScope, hcur, if_false]
  refine ⟨?_, ?_, ?_⟩
  · intro p hp
    have hpid : p ≠ id := by
      rintro rfl
      exact hid hp
    have hlive := h.links.live p (by
      simp only [map_append, map_cons, mem_append, mem_cons]
      exact .inr (.inr hp))
    simpa [destroyScope, hpid] using hlive
  · intro p hp hc
    exact (hfront p (htop p hc)).2 hp
  · intro x inner hx hxl p hp hparent
    have hxid : x ≠ id := by
      rintro rfl
      simp [destroyScope] at hx
    have hx : s.scopes x = some inner := by simpa [destroyScope, hxid] using hx
    have hmem := h.live x (by simp [hx])
    have hopened : x ∈ opened := by
      simp only [map_append, map_cons, mem_append, mem_cons] at hmem
      rcases hmem with hmem | hmem | hmem
      · simpa [front] using hmem
      · exact absurd hmem hxid
      · exact absurd hmem hxl
    exact front_parent h hopened hx p hparent hp

/-- The destructor of a callback that comes back to a lost chain. -/
theorem leaveScope_lost (h : Lost base s) (hid : id ∈ base) (parent : Option ℕ) :
    Lost (base \ {id}) (leaveScope id parent s) := by
  simp only [leaveScope, h.current id hid, if_false]
  refine ⟨?_, ?_, ?_⟩
  · intro p hp
    have hne : p ≠ id := hp.2
    simpa [destroyScope, hne] using h.live p hp.1
  · intro p hp
    exact h.current p hp.1
  · intro x inner hx hxb p hp
    have hne : x ≠ id := by
      rintro rfl
      simp [destroyScope] at hx
    have hx : s.scopes x = some inner := by simpa [destroyScope, hne] using hx
    exact h.parent x inner hx (fun hm => hxb ⟨hm, hne⟩) p hp.1

/-- Once a callback has gone astray, its return loses the chain. -/
theorem leaveScope_astray (h : Astray id l s) (hnodup : id ∉ l.map Prod.fst) (parent : Option ℕ) :
    ∃ base : Set ℕ, (∀ p ∈ l.map Prod.fst, p ∈ base) ∧ Lost base (leaveScope id parent s) := by
  rcases h with ⟨opened, hne, hchain⟩ | ⟨base, hown, hl, hlost⟩
  · exact ⟨_, fun p hp => hp, leaveScope_open hchain hne parent⟩
  · refine ⟨base \ {id}, ?_, leaveScope_lost hlost hown parent⟩
    intro p hp
    refine ⟨hl p hp, ?_⟩
    rintro rfl
    exact hnodup hp

/-- A call whose callback goes astray loses the chain. -/
theorem invokeCallback_astray (h : Chain s l) (hl : l ≠ [])
    (astray : ∀ entered atReturn, Chain entered ((id, false) :: l) →
      body entered = .ok atReturn → Astray id l atReturn)
    (run : invokeCallback (some id) body effective ending s = .ok out) :
    ∃ base : Set ℕ, (∀ p ∈ l.map Prod.fst, p ∈ base) ∧ Lost base out.1 := by
  obtain ⟨entered, atReturn, taken, hc, hb, ht, rfl⟩ := invokeCallback_ok run
  obtain ⟨made, hmade, hchain⟩ := h.create hl (by rw [hc]; simp : createScope id false s ≠ _)
  have heq : entered = made := by
    rw [hc] at hmade
    simpa using hmade
  subst heq
  have hnodup := hchain.nodup
  simp only [map_cons, nodup_cons] at hnodup
  obtain ⟨values, hv⟩ := takeResult_ok ht
  apply leaveScope_astray _ hnodup.1
  rw [hv]
  exact (astray _ _ hchain hb).values values

mutual

/-- A step that is not tidy is a call that loses the chain. -/
theorem exec_untidy (step : Step V) {s s' : Agent V} {l : List (ℕ × Bool)} (h : Chain s l)
    (hl : l ≠ []) (untidy : step.tidy = false) (run : step.exec s = .ok s') :
    ∃ base : Set ℕ, (∀ p ∈ l.map Prod.fst, p ∈ base) ∧ Lost base s' := by
  cases step with
  | openHandleScope id => simp [Step.tidy] at untidy
  | openEscapableHandleScope id => simp [Step.tidy] at untidy
  | closeHandleScope id => simp [Step.tidy] at untidy
  | closeEscapableHandleScope id => simp [Step.tidy] at untidy
  | wrap v value => simp [Step.tidy] at untidy
  | escape id v new => simp [Step.tidy] at untidy
  | call id body effective ending =>
    cases id with
    | none => simp [Step.tidy] at untidy
    | some id =>
      cases ho : invokeCallback (some id) (execAll body) effective ending s with
      | error e => simp [Step.exec, ho, Except.map] at run
      | ok out =>
        simp only [Step.exec, ho, Except.map, Except.ok.injEq] at run
        subst run
        have astray (entered atReturn : Agent V)
            (hentered : Chain entered (front [] ++ (id, false) :: l))
            (hat : execAll body entered = .ok atReturn) : Astray id l atReturn :=
          execAll_untidy body hentered untidy hat
        exact invokeCallback_astray h hl astray ho

theorem execAll_untidy (steps : List (Step V)) {s s' : Agent V} {opened : List ℕ} {own : ℕ}
    {l : List (ℕ × Bool)} (h : Chain s (front opened ++ (own, false) :: l))
    (untidy : tidyFrom opened steps = false) (run : execAll steps s = .ok s') :
    Astray own l s' := by
  cases steps with
  | nil =>
    have hne : opened ≠ [] := by simpa [tidyFrom] using untidy
    simp only [execAll, Except.ok.injEq] at run
    exact .inl ⟨opened, hne, run ▸ h⟩
  | cons step steps =>
    cases hm : step.exec s with
    | error e => simp [execAll, hm, Except.bind] at run
    | ok mid =>
      simp only [execAll, hm, Except.bind] at run
      cases ht : step.tidy with
      | false =>
        -- The step lost the chain, and the rest does not find it again.
        obtain ⟨base, hbase, hlost⟩ := exec_untidy step h (by simp) ht hm
        refine .inr ⟨base, hbase own (by simp), ?_, lost_execAll steps hlost run⟩
        intro id hid
        apply hbase
        simp only [map_append, map_cons, mem_append, mem_cons]
        exact .inr (.inr hid)
      | true =>
        obtain ⟨after, hafter, hchain⟩ := exec_tidy step h ht (by rw [hm]; simp)
        have heq : mid = after := by
          rw [hm] at hafter
          simpa using hafter
        subst heq
        have hrest : tidyFrom (step.opened opened) steps = false := by
          simpa [tidyFrom, ht] using untidy
        exact execAll_untidy steps hchain hrest run
end

/-! ## Calls -/

/-- A call left the scopes as it found them: the current scope is the one before the call, the
    scopes that are left were there before it, none of them has a destroyed parent, and what
    the engine gets is what the result handle held when the callback returned. -/
structure Found (s : Agent V) (own : Option ℕ) (body : List (Step V)) (ending : Ending)
    (out : Agent V × Returned V) : Prop where
  current : out.1.current = s.current
  destroyed : ∀ id inner, out.1.scopes id = some inner →
    ∃ escaped, s.scopes id = some { inner with escaped := escaped }
  parents : ∀ id inner, out.1.scopes id = some inner →
    ∀ p, inner.parent = some p → (out.1.scopes p).isSome
  result : ∀ id entered atReturn handle, own = some id → createScope id false s = .ok entered →
    execAll body (setCurrentScope (some id) entered) = .ok atReturn →
    ending = .returned (some handle) →
    ∃ entry, atReturn.values handle = some entry ∧ out.2 = .value entry.inner

/-- What the engine gets. -/
theorem takeResult_value {handle : ℕ}
    (run : takeResult effective (.returned (some handle)) s = .ok taken) :
    ∃ entry, s.values handle = some entry ∧ taken.2 = .value entry.inner := by
  unfold takeResult at run
  cases hv : s.values handle with
  | none => simp [hv] at run
  | some entry =>
    refine ⟨entry, rfl, ?_⟩
    simp only [hv] at run
    cases hd : deleteValueFromCurrentScope handle s with
    | error e => simp [hd, Except.map] at run
    | ok after =>
      simp only [hd, Except.map, Except.ok.injEq] at run
      rw [← run]

/-- Two agents with one chain have the same scopes. -/
theorem Links.same {scopes' : ℕ → Option Scope} (h : Links scopes l) (h' : Links scopes' l)
    (hid : id ∈ l.map Prod.fst) (hs : scopes' id = some inner) :
    ∃ escaped, scopes id = some { inner with escaped := escaped } := by
  induction l with
  | nil => simp at hid
  | cons head rest ih =>
    obtain ⟨⟨escaped, he⟩, hrest⟩ := h
    obtain ⟨⟨escaped', he'⟩, hrest'⟩ := h'
    simp only [map_cons, mem_cons] at hid
    rcases hid with rfl | hid
    · rw [he'] at hs
      simp only [Option.some.injEq] at hs
      subst hs
      exact ⟨escaped, he⟩
    · exact ih hrest hrest' hid

variable {own : Option ℕ}

theorem found_of_chain (h : Chain s l) {body : List (Step V)}
    (run : invokeCallback own (execAll body) effective ending s = .ok out) (after : Chain out.1 l) :
    Found s own body ending out := by
  refine ⟨after.current.trans h.current.symm, ?_, ?_, ?_⟩
  · intro id inner hid
    exact h.links.same after.links (after.live id (by simp [hid])) hid
  · intro id inner hid p hp
    have hmem := after.links.parent (after.live id (by simp [hid])) hid p hp
    exact after.links.live p (List.mem_of_mem_tail hmem)
  · intro id entered atReturn handle hown hc hb hending
    subst hown hending
    obtain ⟨entered', atReturn', taken, hc', hb', ht, rfl⟩ := invokeCallback_ok run
    rw [hc] at hc'
    simp only [Except.ok.injEq] at hc'
    subst hc'
    rw [hb] at hb'
    simp only [Except.ok.injEq] at hb'
    subst hb'
    obtain ⟨entry, hentry, hvalue⟩ := takeResult_value ht
    exact ⟨entry, hentry, hvalue⟩

theorem not_found_of_lost (h : Chain s l) (hl : l ≠ []) {body : List (Step V)}
    (hbase : ∀ p ∈ l.map Prod.fst, p ∈ base) (lost : Lost base out.1) :
    ¬ Found s own body ending out := by
  intro found
  obtain ⟨id, inner, hcur, hid⟩ := h.current_live hl
  have hmem := hbase id (h.live id (by simp [hid]))
  exact lost.current id hmem (found.current.trans hcur)

/-- A tidy call leaves the scopes as it found them. -/
theorem found_of_tidy (h : Chain s l) (hl : l ≠ []) {body : List (Step V)}
    (tidy : (Step.call own body effective ending).tidy = true)
    (run : invokeCallback own (execAll body) effective ending s ≠ .error .notARun) :
    ∃ out, invokeCallback own (execAll body) effective ending s = .ok out ∧
      Found s own body ending out := by
  cases own with
  | none =>
    have hnone : invokeCallback none (execAll body) effective ending s = .ok (s, .exception) :=
      rfl
    exact ⟨(s, .exception), hnone, found_of_chain h hnone h⟩
  | some id =>
    have back (entered : Agent V) (hentered : Chain entered (front [] ++ (id, false) :: l))
        (hrun : execAll body entered ≠ .error .notARun) :=
      execAll_tidy body hentered tidy hrun
    obtain ⟨out, hout, hchain⟩ := invokeCallback_chain h hl back run
    exact ⟨out, hout, found_of_chain h hout hchain⟩

/-- A call leaves the scopes as it found them exactly when every scope its callback opens is
    closed before it returns, innermost first, and so for the callbacks it leads to. -/
theorem call_found_iff {s : Agent V} {l : List (ℕ × Bool)} (h : Chain s l) (hl : l ≠ [])
    (own : Option ℕ) (body : List (Step V)) (effective : V) (ending : Ending)
    (run : invokeCallback own (execAll body) effective ending s ≠ .error .notARun) :
    (∃ out, invokeCallback own (execAll body) effective ending s = .ok out ∧
      Found s own body ending out) ↔
        (Step.call own body effective ending).tidy = true := by
  constructor
  · intro hfound
    obtain ⟨out, hout, found⟩ := hfound
    cases ht : (Step.call own body effective ending).tidy with
    | true => rfl
    | false =>
      have hexec : (Step.call own body effective ending).exec s = .ok out.1 := by
        simp only [Step.exec, hout]
        rfl
      obtain ⟨base, hbase, hlost⟩ := exec_untidy _ h hl ht hexec
      exact absurd found (not_found_of_lost h hl hbase hlost)
  · intro tidy
    exact found_of_tidy h hl tidy run

/-- The agent as it is made: the root scope alone. -/
def rootAgent : Agent V where
  current := some 0
  scopes := Function.update (fun _ => none) 0 (some { parent := none, given := false })

theorem rootAgent_chain : Chain (rootAgent : Agent V) [(0, false)] := by
  refine ⟨by simp, ⟨⟨false, rfl⟩, trivial⟩, ?_, rfl⟩
  intro id hid
  by_cases he : id = 0
  · simp [he]
  · simp [rootAgent, he] at hid

end Runs

/-- A callback that leaves a scope open: the scope stays current after the call. -/
theorem left_open_stays :
    ¬ ∃ out, invokeCallback (some 1) (execAll [.openHandleScope (some 2)]) 0 (.returned none)
        (rootAgent : Agent ℕ) = .ok out ∧
      Found rootAgent (some 1) [.openHandleScope (some 2)] (.returned none) out := by
  rintro ⟨out, hout, found⟩
  have hcur : (invokeCallback (some 1) (execAll [.openHandleScope (some 2)]) 0 (.returned none)
      (rootAgent : Agent ℕ)).map (·.1.current) = .ok (some 2) := by rfl
  rw [hout] at hcur
  simp only [Except.map, Except.ok.injEq] at hcur
  have := found.current
  simp [hcur, rootAgent] at this

/-- A callback that closes its scope, from inside which it escapes its result. -/
theorem closed_found :
    ∃ out, invokeCallback (some 1)
        (execAll [.openEscapableHandleScope (some 2), .wrap 0 7, .escape 2 0 1,
          .closeEscapableHandleScope 2]) 0 (.returned (some 1)) (rootAgent : Agent ℕ) = .ok out ∧
      Found rootAgent (some 1)
        [.openEscapableHandleScope (some 2), .wrap 0 7, .escape 2 0 1,
          .closeEscapableHandleScope 2] (.returned (some 1)) out :=
  (call_found_iff rootAgent_chain (by simp) (some 1)
    [.openEscapableHandleScope (some 2), .wrap 0 7, .escape 2 0 1, .closeEscapableHandleScope 2]
    0 (.returned (some 1)) (by
      intro h
      have hval : (invokeCallback (some 1)
          (execAll [.openEscapableHandleScope (some 2), .wrap 0 7, .escape 2 0 1,
            .closeEscapableHandleScope 2]) 0 (.returned (some 1))
          (rootAgent : Agent ℕ)).map (·.1.current) = .ok (some 0) := by rfl
      rw [h] at hval
      cases hval)).mpr (by rfl)

end WasmerNapi.Quickjs.CallbackScopes
