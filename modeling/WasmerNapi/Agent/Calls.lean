import WasmerNapi.Agent.Scopes

/-!
# Guest calls and the scope stack

Between the bridge's call into the guest and its return the guest may do anything: open
scopes and leave them open, close what is not its own, run into further callbacks. What
the bridge has to go by afterwards is the pointer of the scope it opened for the call.

`Above` describes a state inside a call against the state `s` the call was made in: the
frames of `s` below, the call's own above them with whatever else has come on top, and the
scope events since, which never go below the call's own scope. It is kept by every step
that does not end the call (`Above.step`), and `Above.leave` is the end of a call: the
unwinding loop takes off exactly what is above `s`.

Engines keep a stack of scopes for each env, and the one stack here is stricter; nothing
is ever refused by it (`Scoped`).
-/

namespace WasmerNapi.Agent

open Word Run Bridge

section

variable {ν : Type} {a b c : State ν}

/-! ## Scope events -/

/-- A scope event on a stack of open scopes: only the innermost one may be closed. -/
def Event.act : Event ν → List ℕ → Option (List ℕ)
  | .opened scope, stack => some (scope :: stack)
  | .closed scope, stack => if stack.head? = some scope then some stack.tail else none
  | .refused _, _ => none
  | .escaped _ _, stack => some stack

/-- The events of a log, the last one first. -/
def replay : List (Event ν) → List ℕ → Option (List ℕ)
  | [], stack => some stack
  | event :: log, stack => (replay log stack).bind event.act

theorem replay_append (log log' : List (Event ν)) (stack : List ℕ) :
    replay (log ++ log') stack = (replay log' stack).bind (replay log) := by
  induction log with
  | nil => exact (Option.bind_fun_some (replay log' stack)).symm
  | cons event log ih =>
    rw [List.cons_append, replay, ih, Option.bind_assoc]
    rfl

/-- Scopes closed from the top down. -/
theorem replay_closed (scopes : List ℕ) : ∀ stack : List ℕ,
    replay (scopes.reverse.map fun scope => (.closed scope : Event ν)) (scopes ++ stack) =
      some stack := by
  induction scopes with
  | nil =>
    intro stack
    rfl
  | cons scope scopes ih =>
    intro stack
    rw [List.reverse_cons, List.map_append, replay_append]
    show (replay [.closed scope] (scope :: (scopes ++ stack))).bind _ = _
    have hclose : replay [(.closed scope : Event ν)] (scope :: (scopes ++ stack)) =
        some (scopes ++ stack) := by
      simp [replay, Event.act]
    rw [hclose, Option.bind_some]
    exact ih stack

/-! ## Frames and scopes -/

/-- The scopes of a stack of frames. -/
def scopesOf (frames : List (ScopeFrame ν)) : List ℕ :=
  frames.filterMap fun f => f.napiScope

theorem scopesOf_append (frames frames' : List (ScopeFrame ν)) :
    scopesOf (frames ++ frames') = scopesOf frames ++ scopesOf frames' :=
  List.filterMap_append

theorem scopesOf_cons (f : ScopeFrame ν) (frames : List (ScopeFrame ν)) :
    scopesOf (f :: frames) = f.napiScope.toList ++ scopesOf frames := by
  unfold scopesOf
  cases hscope : f.napiScope with
  | none =>
    rw [List.filterMap_cons_none hscope]
    rfl
  | some scope =>
    rw [List.filterMap_cons_some hscope]
    rfl

/-- **The scope invariant**: the open scopes are those of the frames, in their order, and a
    frame's pointer is its scope. -/
structure Scoped (a : State ν) : Prop where
  opened : a.openScopes = scopesOf a.scopeFrames
  nodup : a.openScopes.Nodup
  named : ∀ f ∈ a.scopeFrames, ∀ scope, f.scope = some scope ∨ f.escScope = some scope →
    f.napiScope = some scope

/-- `b` is `a` with the frames `above` taken off, from the top down. -/
structure Popped (above : List (ScopeFrame ν)) (a b : State ν) : Prop where
  frames : a.scopeFrames = above ++ b.scopeFrames
  log : b.log = ((scopesOf above).reverse.map fun scope => .closed scope) ++ a.log
  calls : b.calls = a.calls
  invocations : b.callbackInvocations = a.callbackInvocations
  scopes : Scoped b

theorem Popped.append {above above' : List (ScopeFrame ν)} (hab : Popped above a b)
    (hbc : Popped above' b c) : Popped (above ++ above') a c where
  frames := by rw [hab.frames, hbc.frames, List.append_assoc]
  log := by
    rw [hbc.log, hab.log, scopesOf_append, List.reverse_append, List.map_append,
      List.append_assoc]
  calls := hbc.calls.trans hab.calls
  invocations := hbc.invocations.trans hab.invocations
  scopes := hbc.scopes

theorem Scoped.refl_popped (h : Scoped a) : Popped [] a a := ⟨rfl, rfl, rfl, rfl, h⟩

variable {f : ScopeFrame ν} {frames : List (ScopeFrame ν)}

/-- The engine closes the scope of the frame that is popped. -/
theorem Scoped.popCurrentFrame (h : Scoped a) (hframes : a.scopeFrames = f :: frames) :
    Popped [f] a a.popCurrentFrame := by
  have hopened := h.opened
  have hnodup := h.nodup
  have hnamed : ∀ g ∈ frames, ∀ scope, g.scope = some scope ∨ g.escScope = some scope →
      g.napiScope = some scope := by
    intro g hg
    refine h.named g ?_
    rw [hframes]
    exact List.mem_cons_of_mem _ hg
  rw [hframes, scopesOf_cons] at hopened
  rw [hopened] at hnodup
  obtain ⟨slots, free, live, retired, spare, heq⟩ := popCurrentFrame_frame hframes
  rw [heq]
  unfold State.closeFrame
  cases hscope : f.napiScope with
  | none =>
    rw [hscope] at hopened hnodup
    refine ⟨hframes, ?_, rfl, rfl, hopened, ?_, hnamed⟩
    · rw [scopesOf_cons, hscope]
      rfl
    · show a.openScopes.Nodup
      rw [hopened]
      exact hnodup
  | some scope =>
    rw [hscope] at hopened hnodup
    have hhead : a.openScopes.head? = some scope := by
      rw [hopened]
      rfl
    dsimp only
    unfold State.closeNapiScope
    dsimp only
    rw [if_pos hhead]
    refine ⟨hframes, ?_, rfl, rfl, ?_, ?_, hnamed⟩
    · rw [scopesOf_cons, hscope]
      rfl
    · show a.openScopes.tail = _
      rw [hopened]
      rfl
    · show a.openScopes.tail.Nodup
      rw [hopened]
      exact (List.nodup_cons.mp hnodup).2

/-- A loop of pops stops at the first frame its condition does not hold at. -/
theorem Scoped.popWhile (cond : List (ScopeFrame ν) → Bool) (rest : List (ScopeFrame ν))
    (hstop : cond rest = false) : ∀ (above : List (ScopeFrame ν)) (n : ℕ) {a : State ν},
    Scoped a → a.scopeFrames = above ++ rest → above.length ≤ n →
      (∀ f frames, f :: frames <:+ above → cond (f :: frames ++ rest) = true) →
      Popped above a (a.popWhile cond n) := by
  intro above
  induction above with
  | nil =>
    intro n a h hframes _ _
    cases n with
    | zero => exact h.refl_popped
    | succ n =>
      unfold State.popWhile
      rw [hframes, List.nil_append, hstop]
      exact h.refl_popped
  | cons f above ih =>
    intro n a h hframes hn hcond
    obtain ⟨n, rfl⟩ : ∃ m, n = m + 1 := Nat.exists_eq_succ_of_ne_zero (by rintro rfl; cases hn)
    have hpop : Popped [f] a a.popCurrentFrame := h.popCurrentFrame hframes
    have hrest : a.popCurrentFrame.scopeFrames = above ++ rest := by
      have := hpop.frames
      rw [hframes] at this
      exact ((List.cons.inj this).2).symm
    unfold State.popWhile
    rw [hframes, hcond f above (List.suffix_refl _), if_pos rfl]
    refine hpop.append (ih n hpop.scopes hrest (Nat.le_of_succ_le_succ hn) ?_)
    intro g frames hsuffix
    exact hcond g frames (hsuffix.trans (List.suffix_cons f above))

variable {scope : ℕ}

/-- A scope belongs to one frame. -/
theorem Scoped.unique (h : Scoped a) {above below : List (ScopeFrame ν)} {own : ScopeFrame ν}
    (hframes : a.scopeFrames = above ++ own :: below) (hown : own.napiScope = some scope) :
    ∀ f ∈ above, f.scope ≠ some scope ∧ f.escScope ≠ some scope := by
  have hnodup := h.nodup
  rw [h.opened, hframes, scopesOf_append, scopesOf_cons, hown] at hnodup
  have hnot : ∀ f ∈ above, f.napiScope ≠ some scope := by
    intro f hf hscope
    have hmem : scope ∈ scopesOf above := List.mem_filterMap.mpr ⟨f, hf, hscope⟩
    exact (List.nodup_append.mp hnodup).2.2 scope hmem scope (List.mem_cons_self ..) rfl
  intro f hf
  have hmem : f ∈ a.scopeFrames := by
    rw [hframes]
    exact List.mem_append_left _ hf
  exact ⟨fun heq => hnot f hf (h.named f hmem scope (Or.inl heq)),
    fun heq => hnot f hf (h.named f hmem scope (Or.inr heq))⟩

/-! ## The frames of a call -/

/-- The same frame, up to what it owns. -/
structure SameScope (f g : ScopeFrame ν) : Prop where
  scope : g.scope = f.scope
  escScope : g.escScope = f.escScope
  env : g.env = f.env
  id : g.id = f.id

variable {g : ScopeFrame ν}

theorem SameScope.trans {k : ScopeFrame ν} (hfg : SameScope f g) (hgk : SameScope g k) :
    SameScope f k :=
  ⟨hgk.scope.trans hfg.scope, hgk.escScope.trans hfg.escScope, hgk.env.trans hfg.env,
    hgk.id.trans hfg.id⟩

theorem SameScope.napiScope (h : SameScope f g) :
    g.napiScope = f.napiScope := by
  unfold ScopeFrame.napiScope
  rw [h.env, h.escScope, h.scope]

/-- `g` is `f` with some of `ids` minted into it. -/
structure Kept (ids : List ℕ) (f g : ScopeFrame ν) : Prop where
  same : SameScope f g
  minted : ∃ new : List (ℕ × ν), g.minted = new ++ f.minted ∧
    g.ownedSlots.items = (new.map fun m => slotOf m.1) ++ f.ownedSlots.items ∧
    ∀ m ∈ new, m.1 ∈ ids

theorem Kept.refl (ids : List ℕ) (f : ScopeFrame ν) : Kept ids f f :=
  ⟨⟨rfl, rfl, rfl, rfl⟩, [], rfl, rfl, fun _ hm => nomatch hm⟩

theorem Kept.trans {ids : List ℕ} {k : ScopeFrame ν} (hfg : Kept ids f g) (hgk : Kept ids g k) :
    Kept ids f k := by
  obtain ⟨hsame, new, hminted, hitems, hids⟩ := hfg
  obtain ⟨hsame', new', hminted', hitems', hids'⟩ := hgk
  refine ⟨hsame.trans hsame', new' ++ new, ?_, ?_, ?_⟩
  · rw [hminted', hminted, List.append_assoc]
  · rw [hitems', hitems, List.map_append, List.append_assoc]
  · intro m hm
    rcases List.mem_append.mp hm with hm | hm
    · exact hids' m hm
    · exact hids m hm

theorem Kept.mono {ids ids' : List ℕ} (hids : ids ⊆ ids') (h : Kept ids f g) : Kept ids' f g := by
  obtain ⟨hsame, new, hminted, hitems, hnew⟩ := h
  exact ⟨hsame, new, hminted, hitems, fun m hm => hids (hnew m hm)⟩

theorem scopesOf_congr {frames' : List (ScopeFrame ν)} (h : List.Forall₂ SameScope frames frames') :
    scopesOf frames' = scopesOf frames := by
  induction h with
  | nil => rfl
  | cons hfg _ ih => rw [scopesOf_cons, scopesOf_cons, hfg.napiScope, ih]

/-- The frame pushed for a call. -/
def OwnFrame (call : Call) (f : ScopeFrame ν) : Prop :=
  f.id = 0 ∧ f.napiScope = call.scope ∧
    match call.caller with
    | .callback _ => f.escScope = call.scope
    | .finalizer => f.scope = call.scope
    | .interrupt => f.scope = call.scope

variable {call : Call}

theorem OwnFrame.congr (h : OwnFrame call f) (hfg : SameScope f g) : OwnFrame call g := by
  obtain ⟨hid, hscope, hcaller⟩ := h
  refine ⟨hfg.id.trans hid, hfg.napiScope.trans hscope, ?_⟩
  cases hc : call.caller with
  | callback cbinfo =>
    rw [hc] at hcaller
    exact hfg.escScope.trans hcaller
  | finalizer =>
    rw [hc] at hcaller
    exact hfg.scope.trans hcaller
  | interrupt =>
    rw [hc] at hcaller
    exact hfg.scope.trans hcaller

/-- Calls, from the innermost on, and the frames they have brought: each call's own, if the
    engine gave it a scope, and those the guest has opened, which have an id. The outermost
    call has a frame, and it is the lowest. -/
inductive Stacked : List Call → List (ScopeFrame ν) → Prop
  | base {call : Call} {scope : ℕ} {own : ScopeFrame ν} : call.scope = some scope →
      OwnFrame call own → Stacked [call] [own]
  | guest {calls : List Call} {f : ScopeFrame ν} {frames : List (ScopeFrame ν)} : f.id ≠ 0 →
      Stacked calls frames → Stacked calls (f :: frames)
  | bare {call : Call} {calls : List Call} {frames : List (ScopeFrame ν)} : call.scope = none →
      Stacked calls frames → Stacked (call :: calls) frames
  | framed {call : Call} {scope : ℕ} {calls : List Call} {own : ScopeFrame ν}
      {frames : List (ScopeFrame ν)} : call.scope = some scope → OwnFrame call own →
      Stacked calls frames → Stacked (call :: calls) (own :: frames)

theorem Stacked.ne_nil {calls : List Call} (h : Stacked calls frames) :
    calls ≠ [] ∧ frames ≠ [] := by
  induction h with
  | base hscope hown => exact ⟨List.cons_ne_nil _ _, List.cons_ne_nil _ _⟩
  | guest hid hs ih => exact ⟨ih.1, List.cons_ne_nil _ _⟩
  | bare hscope hs ih => exact ⟨List.cons_ne_nil _ _, ih.2⟩
  | framed hscope hown hs ih => exact ⟨List.cons_ne_nil _ _, List.cons_ne_nil _ _⟩

theorem Stacked.congr {calls : List Call} (h : Stacked calls frames) :
    ∀ {frames' : List (ScopeFrame ν)},
      List.Forall₂ SameScope frames frames' → Stacked calls frames' := by
  induction h with
  | base hscope hown =>
    intro frames' hsame
    cases hsame with
    | cons hfg hrest =>
      cases hrest
      exact .base hscope (hown.congr hfg)
  | guest hid hs ih =>
    intro frames' hsame
    cases hsame with
    | cons hfg hrest => exact .guest (by rw [hfg.id]; exact hid) (ih hrest)
  | bare hscope hs ih =>
    intro frames' hsame
    exact .bare hscope (ih hsame)
  | framed hscope hown hs ih =>
    intro frames' hsame
    cases hsame with
    | cons hfg hrest => exact .framed hscope (hown.congr hfg) (ih hrest)

/-- What a guest can close is not a call's own frame. -/
theorem Stacked.closed {calls : List Call} (h : Stacked calls (f :: frames)) (hid : f.id ≠ 0) :
    Stacked calls frames := by
  generalize hall : f :: frames = all at h
  induction h with
  | base hscope hown =>
    obtain ⟨rfl, -⟩ := List.cons.inj hall
    exact absurd hown.1 hid
  | guest hid' hs ih =>
    obtain ⟨-, rfl⟩ := List.cons.inj hall
    exact hs
  | bare hscope hs ih => exact .bare hscope (ih hall)
  | framed hscope hown hs ih =>
    obtain ⟨rfl, -⟩ := List.cons.inj hall
    exact absurd hown.1 hid

/-- A call without a frame ends. -/
theorem Stacked.leave_bare {calls : List Call} (h : Stacked (call :: calls) frames)
    (hscope : call.scope = none) :
    Stacked calls frames := by
  generalize hall : call :: calls = all at h
  induction h with
  | base hscope' hown =>
    obtain ⟨rfl, -⟩ := List.cons.inj hall
    rw [hscope] at hscope'
    cases hscope'
  | guest hid hs ih => exact .guest hid (ih hall)
  | bare hscope' hs ih =>
    obtain ⟨-, rfl⟩ := List.cons.inj hall
    exact hs
  | framed hscope' hown hs ih =>
    obtain ⟨rfl, -⟩ := List.cons.inj hall
    rw [hscope] at hscope'
    cases hscope'

/-- A call with a frame ends: its frame is there, below it are those of the calls around
    it, if there are any, and nothing else. -/
theorem Stacked.leave_framed {calls : List Call} (h : Stacked (call :: calls) frames)
    (hscope : call.scope = some scope) :
    ∃ above own below, frames = above ++ own :: below ∧ OwnFrame call own ∧
      ((calls = [] ∧ below = []) ∨ Stacked calls below) := by
  generalize hall : call :: calls = all at h
  induction h with
  | base hscope' hown =>
    obtain ⟨rfl, rfl⟩ := List.cons.inj hall
    exact ⟨[], _, [], rfl, hown, Or.inl ⟨rfl, rfl⟩⟩
  | @guest _ f _ hid hs ih =>
    obtain ⟨above, own, below, rfl, hown, hrest⟩ := ih hall
    exact ⟨f :: above, own, below, rfl, hown, hrest⟩
  | bare hscope' hs ih =>
    obtain ⟨rfl, -⟩ := List.cons.inj hall
    rw [hscope] at hscope'
    cases hscope'
  | framed hscope' hown hs ih =>
    obtain ⟨rfl, rfl⟩ := List.cons.inj hall
    exact ⟨[], _, _, rfl, hown, Or.inr hs⟩

/-! ## Mints and pushes -/

theorem forall₂_modify {α : Type} {R : α → α → Prop} {g : α → α} {l l' : List α}
    (hg : ∀ x y, R x y → R x (g y)) (h : List.Forall₂ R l l') :
    ∀ k, List.Forall₂ R l (l'.modify k g) := by
  induction h with
  | nil =>
    intro k
    cases k <;> exact .nil
  | cons hxy hrest ih =>
    intro k
    cases k with
    | zero => exact .cons (hg _ _ hxy) hrest
    | succ k => exact .cons hxy (ih k)

theorem modify_append {α : Type} (g : α → α) (l l' : List α) : ∀ k, (l ++ l').modify k g =
    if k < l.length then l.modify k g ++ l' else l ++ l'.modify (k - l.length) g := by
  induction l with
  | nil =>
    intro k
    rfl
  | cons x l ih =>
    intro k
    cases k with
    | zero => rfl
    | succ k =>
      rw [List.cons_append, List.modify_succ_cons, ih k]
      simp only [List.length_cons, Nat.succ_lt_succ_iff, Nat.add_sub_add_right,
        List.modify_succ_cons]
      split <;> rfl

/-- A mint is into one frame, and touches nothing else but the slots. -/
theorem storeValueInFrame_kept (h : Tabled [] [] a) (val : Option ν) (k : ℕ) :
    ∃ slots free live g, (a.storeValueInFrame val k).2 =
        { a with
          valueSlots := slots, valueFreeSlots := free, liveValueCount := live
          scopeFrames := a.scopeFrames.modify k g } ∧
      ∀ f, Kept [(a.storeValueInFrame val k).1] f (g f) := by
  rcases storeValueInFrame_cases a val k with ⟨heq, -⟩ | ⟨v, index, b, -, heq, -, hb⟩
  · rw [heq]
    refine ⟨a.valueSlots, a.valueFreeSlots, a.liveValueCount, id, ?_, fun f => Kept.refl _ f⟩
    rw [List.modify_id]
  · have hreserved := h.reserve hb
    have hmem : index ∈ [index] ++ b.valueFreeSlots ++ ([] ++ ownedBy b.scopeFrames) :=
      List.mem_cons_self ..
    obtain ⟨slot, hslot, hgen⟩ := hreserved.slot hmem
    have hslotOf : slotOf (valueId index slot.generation) = index :=
      slotOf_valueId (lt_of_lt_of_le (hreserved.lt hmem) hreserved.size) hgen
    rw [heq]
    unfold State.mintAt
    rw [hslot]
    dsimp only
    refine ⟨b.valueSlots.set index { slot with value := some v, inUse := true },
      b.valueFreeSlots, b.liveValueCount + 1, fun frame =>
      { frame with
        ownedSlots := frame.ownedSlots.push index
        minted := (valueId index slot.generation, v) :: frame.minted }, ?_, ?_⟩
    · rcases hb with ⟨free, -, rfl⟩ | ⟨-, -, -, rfl⟩
      · rfl
      · rfl
    · intro f
      refine ⟨⟨rfl, rfl, rfl, rfl⟩, [(valueId index slot.generation, v)], rfl, ?_, ?_⟩
      · show index :: f.ownedSlots.items = slotOf (valueId index slot.generation) :: _
        rw [hslotOf]
        rfl
      · intro m hm
        obtain rfl := List.mem_singleton.mp hm
        exact List.mem_singleton_self _

/-- The frames, with the root frame if there is none. -/
def rooted : List (ScopeFrame ν) → List (ScopeFrame ν)
  | [] => [{}]
  | f :: frames => f :: frames

theorem currentFrame_eq (a : State ν) :
    a.currentFrame = { a with scopeFrames := rooted a.scopeFrames } := by
  unfold State.currentFrame
  cases hframes : a.scopeFrames with
  | nil => rfl
  | cons f frames =>
    show a = { a with scopeFrames := f :: frames }
    rw [← hframes]

theorem rooted_of_ne (h : frames ≠ []) :
    rooted frames = frames := by
  cases frames with
  | nil => exact absurd rfl h
  | cons f frames => rfl

/-- A push is on top of the frames, with the root below them. -/
theorem pushScopeFrame_eq (a : State ν) (scope escScope : Option ℕ) (id : ℕ) :
    ∃ f spare, a.pushScopeFrame scope escScope id =
        { a with scopeFrames := f :: rooted a.scopeFrames, spareOwnedSlots := spare } ∧
      f.scope = scope ∧ f.escScope = escScope ∧ f.env = true ∧ f.id = id := by
  unfold State.pushScopeFrame
  rw [currentFrame_eq]
  dsimp only
  split
  · exact ⟨{ scope, escScope, env := true, id }, a.spareOwnedSlots, rfl, rfl, rfl, rfl, rfl⟩
  · rename_i ownedSlots spare hspare
    exact ⟨{ scope, escScope, env := true, ownedSlots, id }, spare, rfl, rfl, rfl, rfl, rfl⟩

/-- The kind of frame a scope gets: plain or escapable. -/
def FrameFor (scope : ℕ) (plain esc : Option ℕ) : Prop :=
  (plain = some scope ∧ esc = none) ∨ (plain = none ∧ esc = some scope)

theorem frameFor_handleScope (scope : ℕ) (escapable : Bool) :
    FrameFor scope (if escapable then none else some scope)
      (if escapable then some scope else none) := by
  cases escapable with
  | false => exact Or.inl ⟨rfl, rfl⟩
  | true => exact Or.inr ⟨rfl, rfl⟩

variable {plain esc : Option ℕ}

theorem FrameFor.napiScope (h : FrameFor scope plain esc) (hplain : f.scope = plain)
    (hesc : f.escScope = esc) (henv : f.env = true) : f.napiScope = some scope := by
  unfold ScopeFrame.napiScope
  rw [henv, hplain, hesc]
  rcases h with ⟨rfl, rfl⟩ | ⟨rfl, rfl⟩
  · rfl
  · rfl

/-! ## Scopes in every state -/

theorem Scoped.congr (h : Scoped a) (hopened : b.openScopes = a.openScopes)
    (hframes : List.Forall₂ SameScope a.scopeFrames b.scopeFrames) : Scoped b where
  opened := by rw [hopened, h.opened, scopesOf_congr hframes]
  nodup := by
    rw [hopened]
    exact h.nodup
  named := by
    intro g hg scope hscope
    obtain ⟨k, hk⟩ := List.mem_iff_getElem?.mp hg
    obtain ⟨hlt, rfl⟩ := List.getElem?_eq_some_iff.mp hk
    have hlt' : k < a.scopeFrames.length := by
      rw [hframes.length_eq]
      exact hlt
    have hsame : SameScope a.scopeFrames[k] b.scopeFrames[k] := hframes.get hlt' hlt
    rw [hsame.napiScope]
    refine h.named _ (List.getElem_mem hlt') scope ?_
    rw [hsame.scope, hsame.escScope] at hscope
    exact hscope

theorem sameScope_refl (frames : List (ScopeFrame ν)) :
    List.Forall₂ SameScope frames frames :=
  List.forall₂_same.mpr fun _ _ => ⟨rfl, rfl, rfl, rfl⟩

theorem Scoped.currentFrame (h : Scoped a) : Scoped a.currentFrame := by
  unfold State.currentFrame
  split
  · rename_i hframes
    have hopened := h.opened
    rw [hframes] at hopened
    refine ⟨hopened, h.nodup, ?_⟩
    intro f hf scope hscope
    obtain rfl := List.mem_singleton.mp hf
    rcases hscope with hscope | hscope
    · cases hscope
    · cases hscope
  · exact h

theorem Scoped.storeValueInFrame (h : Scoped a) (ht : Tabled [] [] a) (val : Option ν) (k : ℕ) :
    Scoped (a.storeValueInFrame val k).2 := by
  obtain ⟨slots, free, live, g, heq, hkept⟩ := storeValueInFrame_kept ht val k
  rw [heq]
  exact h.congr rfl
    (forall₂_modify (fun _ f hf => hf.trans (hkept f).same) (sameScope_refl _) _)

/-- A scope is opened and a frame pushed for it. -/
theorem Scoped.push (h : Scoped a) (hnew : scope ∉ a.openScopes) (hkind : FrameFor scope plain esc)
    (id : ℕ) :
    Scoped ((a.openNapiScope scope).pushScopeFrame plain esc id) := by
  have hroot := h.currentFrame
  rw [currentFrame_eq] at hroot
  obtain ⟨f, spare, heq, hplain, hesc, henv, -⟩ :=
    pushScopeFrame_eq (a.openNapiScope scope) plain esc id
  have hnapi := hkind.napiScope hplain hesc henv
  rw [heq]
  refine ⟨?_, ?_, ?_⟩
  · show scope :: a.openScopes = scopesOf (f :: rooted a.scopeFrames)
    rw [scopesOf_cons, hnapi, ← hroot.opened]
    rfl
  · exact List.nodup_cons.mpr ⟨hnew, h.nodup⟩
  · intro g hg p hp
    rcases List.mem_cons.mp hg with rfl | hg
    · rw [hnapi]
      rw [hplain, hesc] at hp
      rcases hkind with ⟨rfl, rfl⟩ | ⟨rfl, rfl⟩
      · rcases hp with hp | hp
        · exact hp
        · cases hp
      · rcases hp with hp | hp
        · cases hp
        · exact hp
    · exact hroot.named g hg p hp

theorem Scoped.pop (h : Scoped a) : Scoped a.popCurrentFrame := by
  cases hframes : a.scopeFrames with
  | nil =>
    unfold State.popCurrentFrame
    rw [hframes]
    exact h
  | cons f frames => exact (h.popCurrentFrame hframes).scopes

theorem Scoped.pops (h : Scoped a) (cond : List (ScopeFrame ν) → Bool) (n : ℕ) :
    Scoped (a.popWhile cond n) :=
  popWhile_rule (I := Scoped) (fun _ h => h.pop) cond n h

/-- The id of a callback's invocation. -/
def Call.cbinfo (call : Call) : Option ℕ :=
  match call.caller with
  | .callback cbinfo => some cbinfo
  | .finalizer => none
  | .interrupt => none

/-- A guest call begins: a callback has its invocation registered, and if the engine gives a
    scope it gets a frame. -/
structure Entered (a a' : State ν) (call : Call) (called : State ν) : Prop where
  invoked : ∃ invocations next, called =
      { a with
        callbackInvocations := invocations ++ a.callbackInvocations
        nextCallbackInvocationId := next
        calls := call :: a.calls } ∧
    invocations.map Prod.fst = call.cbinfo.toList
  bare : call.scope = none → a' = called
  framed : ∀ scope, call.scope = some scope → scope ∉ a.openScopes ∧
    ∃ plain esc, a' = (called.openNapiScope scope).pushScopeFrame plain esc 0 ∧
      FrameFor scope plain esc ∧
      ∀ f : ScopeFrame ν, f.id = 0 → f.scope = plain → f.escScope = esc → f.env = true →
        OwnFrame call f

theorem entered_plain {caller : Caller} {engine : Option ℕ} (hnew : NewScope a engine)
    (hcaller : Call.cbinfo ⟨caller, engine, 0⟩ = none) :
    Entered a (a.enterPlain caller engine) ⟨caller, engine, a.currentFrame.scopeFrames.length⟩
      (a.enter caller engine) where
  invoked := by
    refine ⟨[], a.nextCallbackInvocationId, rfl, ?_⟩
    rw [show Call.cbinfo ⟨caller, engine, a.currentFrame.scopeFrames.length⟩ = none from hcaller]
    rfl
  bare := by
    rintro rfl
    rfl
  framed := by
    rintro scope rfl
    refine ⟨hnew scope rfl, some scope, none, rfl, Or.inl ⟨rfl, rfl⟩, ?_⟩
    intro f hid hplain hesc henv
    refine ⟨hid, FrameFor.napiScope (Or.inl ⟨rfl, rfl⟩) hplain hesc henv, ?_⟩
    cases caller with
    | callback cbinfo => cases hcaller
    | finalizer => exact hplain
    | interrupt => exact hplain

/-- The operations that begin a guest call. -/
def Op.Enters : Op ν → Prop
  | .enterCallback _ _ => True
  | .enterFinalizer _ => True
  | .enterInterrupt _ => True
  | _ => False

variable {a' : State ν} {op : Op ν}

theorem entered_of_step (hs : step a op = some a') (hop : op.Enters) :
    ∃ call called, Entered a a' call called := by
  cases op with
  | enterCallback info engine =>
    simp only [step] at hs
    split at hs
    · rename_i hnew
      cases hs
      obtain ⟨cbinfo, next, hfresh⟩ : ∃ cbinfo next, freshId a.nextCallbackInvocationId =
        (cbinfo, next) := ⟨_, _, rfl⟩
      unfold State.enterCallback
      rw [hfresh]
      refine ⟨⟨.callback cbinfo, engine, (State.currentFrame
        { a with
          callbackInvocations := (cbinfo, info) :: a.callbackInvocations
          nextCallbackInvocationId := next }).scopeFrames.length⟩, _,
        ⟨[(cbinfo, info)], next, rfl, rfl⟩, ?_, ?_⟩
      · rintro rfl
        rfl
      · rintro scope rfl
        refine ⟨hnew scope rfl, none, some scope, rfl, Or.inr ⟨rfl, rfl⟩, ?_⟩
        intro f hid hplain hesc henv
        exact ⟨hid, FrameFor.napiScope (Or.inr ⟨rfl, rfl⟩) hplain hesc henv, hesc⟩
    · cases hs
  | enterFinalizer engine =>
    simp only [step] at hs
    split at hs
    · rename_i hnew
      cases hs
      exact ⟨_, _, entered_plain hnew rfl⟩
    · cases hs
  | enterInterrupt engine =>
    simp only [step] at hs
    split at hs
    · rename_i hnew
      cases hs
      exact ⟨_, _, entered_plain hnew.2 rfl⟩
    · cases hs
  | mint val => cases hop
  | openScope escapable engine => cases hop
  | closeScope escapable scopeId => cases hop
  | escape scopeId escapeeId engine => cases hop
  | leave resultId => cases hop
  | dispose => cases hop

variable {called : State ν}

theorem Entered.calls (he : Entered a a' call called) :
    a'.calls = call :: a.calls := by
  obtain ⟨invocations, next, rfl, -⟩ := he.invoked
  cases hscope : call.scope with
  | none => rw [he.bare hscope]
  | some scope =>
    obtain ⟨-, plain, esc, rfl, -, -⟩ := he.framed scope hscope
    obtain ⟨f, spare, heq, -⟩ := pushScopeFrame_eq (State.openNapiScope
      { a with
        callbackInvocations := invocations ++ a.callbackInvocations
        nextCallbackInvocationId := next
        calls := call :: a.calls } scope) plain esc 0
    rw [heq]
    rfl

theorem Scoped.entered (h : Scoped a) (he : Entered a a' call called) : Scoped a' := by
  obtain ⟨invocations, next, rfl, -⟩ := he.invoked
  have hcalled : ∀ invocations next calls, Scoped
      { a with callbackInvocations := invocations, nextCallbackInvocationId := next, calls } :=
    fun _ _ _ => h.congr rfl (sameScope_refl _)
  cases hscope : call.scope with
  | none =>
    rw [he.bare hscope]
    exact hcalled _ _ _
  | some scope =>
    obtain ⟨hnew, plain, esc, rfl, hkind, -⟩ := he.framed scope hscope
    exact (hcalled (invocations ++ a.callbackInvocations) next (call :: a.calls)).push hnew hkind 0

/-! ## A guest call ends -/

/-- The bridge is back from the guest: the invocation is off, the result escaped. -/
def State.returned (a : State ν) (call : Call) (calls : List Call) (resultId : ℕ) : State ν :=
  match call.cbinfo with
  | none => { a with calls }
  | some cbinfo =>
    let a :=
      { a with
        calls
        callbackInvocations := a.callbackInvocations.eraseP fun i => i.1 == cbinfo }
    match call.scope, a.loadValue resultId with
    | some scope, some result => a.logged (.escaped scope result)
    | _, _ => a

theorem loadValue_calls (a : State ν) (calls : List Call) (invocations : List (ℕ × ℕ)) (id : ℕ) :
    State.loadValue { a with calls, callbackInvocations := invocations } id = a.loadValue id := rfl

theorem Scoped.returned (h : Scoped a) (call : Call) (calls : List Call) (resultId : ℕ) :
    Scoped (a.returned call calls resultId) := by
  unfold State.returned
  split
  · exact h.congr rfl (sameScope_refl _)
  · dsimp only
    split
    · exact h.congr rfl (sameScope_refl _)
    · exact h.congr rfl (sameScope_refl _)

variable {resultId : ℕ}

/-- The unwinding loops stop at the call's own frame. -/
theorem leave_popped {calls : List Call} {above below : List (ScopeFrame ν)} {own : ScopeFrame ν}
    (h : Scoped a) (hcalls : a.calls = call :: calls) (hs : step a (.leave resultId) = some a')
    (hscope : call.scope = some scope) (hframes : a.scopeFrames = above ++ own :: below)
    (hown : OwnFrame call own) :
    Popped (above ++ [own]) (a.returned call calls resultId) a' := by
  obtain ⟨-, hnapi, hcaller⟩ := hown
  rw [hscope] at hnapi
  have hunique := h.unique hframes hnapi
  have hplain : ∀ {b : State ν}, Scoped b → b.scopeFrames = above ++ own :: below →
      own.scope = some scope → Popped (above ++ [own]) b (b.leavePlain (some scope)) := by
    intro b hb hbframes hplain
    have hpopped := Scoped.popWhile
      (fun frames => 1 < frames.length && State.top (fun f => f.scope != some scope) frames)
      (own :: below) (by simp [State.top, hplain]) above b.scopeFrames.length hb hbframes
      (by simp [hbframes])
      (by
        intro f frames hsuffix
        have hne := (hunique f (hsuffix.subset (List.mem_cons_self ..))).1
        simp [State.top, hne])
    have htop := List.append_cancel_left (hbframes.symm.trans hpopped.frames)
    unfold State.leavePlain
    dsimp only
    rw [if_pos (by rw [← htop]; simp [State.top, hplain])]
    exact hpopped.append (hpopped.scopes.popCurrentFrame htop.symm)
  have hcalled : Scoped { a with calls } := h.congr rfl (sameScope_refl _)
  simp only [step, hcalls] at hs
  cases hc : call.caller with
  | callback cbinfo =>
    simp only [hc] at hs hcaller
    cases hs
    have hreturned := h.returned call calls resultId
    have hbframes : (a.returned call calls resultId).scopeFrames = above ++ own :: below := by
      unfold State.returned
      split
      · exact hframes
      · dsimp only
        split
        · exact hframes
        · exact hframes
    rw [hscope] at hcaller
    have hany : (a.scopeFrames.any fun f => f.escScope == some scope) = true := by
      rw [hframes]
      simp [hcaller]
    have hpopped := Scoped.popWhile (State.top fun f => f.escScope != some scope) (own :: below)
      (by simp [State.top, hcaller]) above a.scopeFrames.length hreturned hbframes
      (by simp [hframes])
      (by
        intro f frames hsuffix
        have hne := (hunique f (hsuffix.subset (List.mem_cons_self ..))).2
        simp [State.top, hne])
    have htop := List.append_cancel_left (hbframes.symm.trans hpopped.frames)
    have hleft : State.leaveCallback { a with calls } cbinfo call.scope resultId =
        State.popCurrentFrame ((a.returned call calls resultId).popWhile
          (State.top fun f => f.escScope != some scope) a.scopeFrames.length) := by
      unfold State.leaveCallback State.returned Call.cbinfo
      rw [hscope, hc]
      dsimp only
      rw [if_pos hany]
      simp only [loadValue_calls]
      cases a.loadValue resultId with
      | none => rfl
      | some result => rfl
    rw [hleft]
    exact hpopped.append (hpopped.scopes.popCurrentFrame htop.symm)
  | finalizer =>
    simp only [hc] at hs hcaller
    cases hs
    rw [hscope] at hcaller
    unfold State.returned Call.cbinfo
    rw [hc, hscope]
    exact hplain hcalled hframes hcaller
  | interrupt =>
    simp only [hc] at hs hcaller
    cases hs
    rw [hscope] at hcaller
    unfold State.returned Call.cbinfo
    rw [hc, hscope]
    exact hplain hcalled hframes hcaller

theorem leave_enabled {calls : List Call} (hcalls : a.calls = call :: calls) (resultId : ℕ) :
    ∃ a', step a (.leave resultId) = some a' := by
  simp only [step, hcalls]
  cases call.caller with
  | callback cbinfo => exact ⟨_, rfl⟩
  | finalizer => exact ⟨_, rfl⟩
  | interrupt => exact ⟨_, rfl⟩

/-- A call that has no frame leaves the frames alone. -/
theorem leave_bare {calls : List Call} (hcalls : a.calls = call :: calls)
    (hs : step a (.leave resultId) = some a') (hscope : call.scope = none) :
    a' = a.returned call calls resultId := by
  simp only [step, hcalls] at hs
  unfold State.returned Call.cbinfo
  cases hc : call.caller with
  | callback cbinfo =>
    simp only [hc, hscope] at hs
    rw [hscope]
    exact (Option.some.inj hs).symm
  | finalizer =>
    simp only [hc, hscope] at hs
    exact (Option.some.inj hs).symm
  | interrupt =>
    simp only [hc, hscope] at hs
    exact (Option.some.inj hs).symm

theorem scoped_step (hs : step a op = some a') (ht : Tabled [] [] a) (h : Scoped a) :
    Scoped a' := by
  cases op with
  | mint val =>
    cases hs
    exact h.currentFrame.storeValueInFrame ht.currentFrame val 0
  | openScope escapable engine =>
    simp only [step] at hs
    split at hs
    · rename_i hnew
      cases hs
      cases engine with
      | error status => exact h
      | ok scope =>
        exact (h.push (hnew scope rfl) (frameFor_handleScope scope escapable)
          (freshId a.nextScopeId).1).congr rfl (sameScope_refl _)
    · cases hs
  | closeScope escapable scopeId =>
    cases hs
    rcases closeHandleScope_cases a escapable scopeId with
      ⟨status, heq⟩ | ⟨frame, frames, -, -, -, heq⟩
    · rw [heq]
      exact h
    · rw [heq]
      exact h.pop
  | escape scopeId escapeeId engine =>
    cases hs
    rcases escapeHandle_cases a scopeId escapeeId engine with
      ⟨status, heq⟩ | ⟨k, scope, escapee, result, -, -, heq⟩
    · rw [heq]
      exact h
    · rw [heq]
      have hlogged : Scoped (a.logged (.escaped scope escapee)) :=
        h.congr rfl (sameScope_refl _)
      exact hlogged.storeValueInFrame (ht.congr rfl rfl rfl rfl rfl rfl) result (k + 1)
  | enterCallback info engine =>
    obtain ⟨call, called, he⟩ := entered_of_step hs trivial
    exact h.entered he
  | enterFinalizer engine =>
    obtain ⟨call, called, he⟩ := entered_of_step hs trivial
    exact h.entered he
  | enterInterrupt engine =>
    obtain ⟨call, called, he⟩ := entered_of_step hs trivial
    exact h.entered he
  | leave resultId =>
    cases hcalls : a.calls with
    | nil =>
      simp only [step, hcalls] at hs
      cases hs
    | cons call calls =>
      refine leave_rule (fun _ h => h.pop) ?_ hcalls hs h
      intro a b hab hopened h
      exact h.congr hopened (hab.frames ▸ sameScope_refl _)
  | dispose =>
    simp only [step] at hs
    split at hs
    · cases hs
      exact h
    · cases hs
      have hclosing : Scoped { a with closing := true } := h.congr rfl (sameScope_refl _)
      have hdrained := hclosing.pops (fun frames => !frames.isEmpty) a.scopeFrames.length
      exact hdrained.congr rfl (sameScope_refl _)

/-- What holds between operations. -/
structure Settled (a : State ν) : Prop where
  tabled : Tabled [] [] a
  scopes : Scoped a

theorem settled_init (limit : ℕ) : Settled ({ valueLimit := limit } : State ν) :=
  ⟨tabled_init limit, rfl, List.nodup_nil, fun _ hf => nomatch hf⟩

theorem Settled.step (hs : step a op = some a') (h : Settled a) :
    Settled a' :=
  ⟨tabled_step hs h.tabled, scoped_step hs h.tabled h.scopes⟩

/-! ## Inside a call -/

/-- A state inside the calls `inner`, made in the state `s`: the frames of `s` below, with
    some of `ids` minted into them, the frames `above` on top of them, and the scopes of
    `above` opened since. -/
structure Above (s : State ν) (ids : List ℕ) (inner : List Call) (above : List (ScopeFrame ν))
    (t : State ν) : Prop where
  calls : t.calls = inner ++ s.calls
  frames : ∃ below, t.scopeFrames = above ++ below ∧ List.Forall₂ (Kept ids) s.scopeFrames below
  invocations : ∃ invocations, t.callbackInvocations = invocations ++ s.callbackInvocations ∧
    invocations.map Prod.fst = inner.filterMap Call.cbinfo
  log : ∃ seg, t.log = seg ++ s.log ∧ replay seg [] = some (scopesOf above)

variable {s t t' : State ν} {ids : List ℕ} {inner : List Call} {above : List (ScopeFrame ν)}

theorem Above.mono (h : Above s ids inner above t) {ids' : List ℕ} (hids : ids ⊆ ids') :
    Above s ids' inner above t := by
  obtain ⟨below, hframes, hkept⟩ := h.frames
  exact ⟨h.calls, ⟨below, hframes, hkept.imp fun _ _ hk => hk.mono hids⟩, h.invocations, h.log⟩

theorem Above.popped (top : List (ScopeFrame ν)) (h : Above s ids inner (top ++ above) t)
    (hp : Popped top t t') : Above s ids inner above t' := by
  obtain ⟨below, hframes, hkept⟩ := h.frames
  obtain ⟨invocations, hinv, hinner⟩ := h.invocations
  obtain ⟨seg, hlog, hseg⟩ := h.log
  refine ⟨hp.calls.trans h.calls, ⟨below, ?_, hkept⟩,
    ⟨invocations, hp.invocations.trans hinv, hinner⟩,
    ((scopesOf top).reverse.map fun scope => .closed scope) ++ seg, ?_, ?_⟩
  · have heq := hp.frames.symm.trans hframes
    rw [List.append_assoc] at heq
    exact List.append_cancel_left heq
  · rw [hp.log, hlog, List.append_assoc]
  · rw [replay_append, hseg, scopesOf_append, Option.bind_some]
    exact replay_closed _ _

theorem Above.escaped (h : Above s ids inner above t) (scope : ℕ) (v : ν) :
    Above s ids inner above (t.logged (.escaped scope v)) := by
  obtain ⟨seg, hlog, hseg⟩ := h.log
  refine ⟨h.calls, h.frames, h.invocations, .escaped scope v :: seg, ?_, ?_⟩
  · show _ :: t.log = _
    rw [hlog]
    rfl
  · rw [replay, hseg]
    rfl

/-- A mint, above or below. -/
theorem Above.stored (h : Above s ids inner above t) (ht : Tabled [] [] t) (val : Option ν)
    {k : ℕ} (hk : k < above.length ∨ (t.storeValueInFrame val k).1 ∈ ids) :
    ∃ above', Above s ids inner above' (t.storeValueInFrame val k).2 ∧
      List.Forall₂ SameScope above above' := by
  obtain ⟨below, hframes, hkept⟩ := h.frames
  obtain ⟨slots, free, live, g, heq, hg⟩ := storeValueInFrame_kept ht val k
  obtain ⟨seg, hlog, hseg⟩ := h.log
  rw [heq]
  by_cases hlt : k < above.length
  · have habove : List.Forall₂ SameScope above (above.modify k g) :=
      forall₂_modify (fun _ f hf => hf.trans (hg f).same) (sameScope_refl _) k
    refine ⟨above.modify k g, ⟨h.calls, ⟨below, ?_, hkept⟩, h.invocations, seg, hlog, ?_⟩, habove⟩
    · show t.scopeFrames.modify k g = _
      rw [hframes, modify_append, if_pos hlt]
    · rw [hseg, scopesOf_congr habove]
  · have hid := hk.resolve_left hlt
    have hbelow : ∀ f, Kept ids f (g f) := fun f =>
      (hg f).mono fun i hi => List.mem_singleton.mp hi ▸ hid
    refine ⟨above, ⟨h.calls, ⟨below.modify (k - above.length) g, ?_, ?_⟩, h.invocations,
      seg, hlog, hseg⟩, sameScope_refl above⟩
    · show t.scopeFrames.modify k g = _
      rw [hframes, modify_append, if_neg hlt]
    · exact forall₂_modify (fun _ f hf => hf.trans (hbelow f)) hkept _

/-- A scope is opened, and its frame is on top. -/
theorem Above.pushed (h : Above s ids inner above t) (hne : above ≠ []) (id : ℕ)
    (hkind : FrameFor scope plain esc) :
    ∃ f, Above s ids inner (f :: above) ((t.openNapiScope scope).pushScopeFrame plain esc id) ∧
      f.scope = plain ∧ f.escScope = esc ∧ f.env = true ∧ f.id = id := by
  obtain ⟨f, spare, heq, hplain, hesc, henv, hid⟩ :=
    pushScopeFrame_eq (t.openNapiScope scope) plain esc id
  obtain ⟨below, hframes, hkept⟩ := h.frames
  obtain ⟨seg, hlog, hseg⟩ := h.log
  refine ⟨f, ?_, hplain, hesc, henv, hid⟩
  rw [heq]
  refine ⟨h.calls, ⟨below, ?_, hkept⟩, h.invocations, .opened scope :: seg, ?_, ?_⟩
  · show f :: rooted t.scopeFrames = _
    rw [hframes, rooted_of_ne (List.append_ne_nil_of_left_ne_nil hne _)]
    rfl
  · show _ :: t.log = _
    rw [hlog]
    rfl
  · rw [replay, hseg, scopesOf_cons, hkind.napiScope hplain hesc henv]
    rfl

/-- A further call begins. -/
theorem Above.entered (h : Above s ids inner above t) (hst : Stacked inner above)
    (he : Entered t t' call called) :
    ∃ above', Above s ids (call :: inner) above' t' ∧ Stacked (call :: inner) above' := by
  obtain ⟨invocations, next, rfl, hcbinfo⟩ := he.invoked
  have hcalled : Above s ids (call :: inner) above
      { t with
        callbackInvocations := invocations ++ t.callbackInvocations
        nextCallbackInvocationId := next
        calls := call :: t.calls } := by
    obtain ⟨older, hinv, hinner⟩ := h.invocations
    refine ⟨?_, h.frames, ⟨invocations ++ older, ?_, ?_⟩, h.log⟩
    · show call :: t.calls = _
      rw [h.calls]
      rfl
    · show invocations ++ t.callbackInvocations = _
      rw [hinv, List.append_assoc]
    · rw [List.map_append, hcbinfo, hinner]
      cases hcall : call.cbinfo with
      | none =>
        rw [List.filterMap_cons_none hcall]
        rfl
      | some cbinfo =>
        rw [List.filterMap_cons_some hcall]
        rfl
  cases hscope : call.scope with
  | none =>
    rw [he.bare hscope]
    exact ⟨above, hcalled, .bare hscope hst⟩
  | some scope =>
    obtain ⟨-, plain, esc, rfl, hkind, hown⟩ := he.framed scope hscope
    obtain ⟨f, habove, hplain, hesc, henv, hid⟩ := hcalled.pushed hst.ne_nil.2 0 hkind
    exact ⟨f :: above, habove, .framed hscope (hown f hid hplain hesc henv) hst⟩

/-- A call is back from the guest. -/
theorem Above.returned (h : Above s ids (call :: inner) above t) (resultId : ℕ) :
    Above s ids inner above (t.returned call (inner ++ s.calls) resultId) := by
  obtain ⟨invocations, hinv, hinner⟩ := h.invocations
  unfold State.returned
  cases hcall : call.cbinfo with
  | none =>
    rw [List.filterMap_cons_none hcall] at hinner
    exact ⟨rfl, h.frames, ⟨invocations, hinv, hinner⟩, h.log⟩
  | some cbinfo =>
    rw [List.filterMap_cons_some hcall] at hinner
    obtain ⟨⟨id, info⟩, older, rfl, rfl, holder⟩ := List.map_eq_cons_iff.mp hinner
    have herased : (t.callbackInvocations.eraseP fun i => i.1 == id) =
        older ++ s.callbackInvocations := by
      rw [hinv, List.cons_append]
      exact List.eraseP_cons_of_pos (beq_self_eq_true id)
    have hoff : Above s ids inner above
        { t with
          calls := inner ++ s.calls
          callbackInvocations := t.callbackInvocations.eraseP fun i => i.1 == id } :=
      ⟨rfl, h.frames, ⟨older, herased, holder⟩, h.log⟩
    dsimp only
    split
    · exact hoff.escaped _ _
    · exact hoff

/-- A call with a frame ends: what it brought is gone, and nothing else. -/
theorem Above.leave_framed (h : Above s ids (call :: inner) above t)
    (hst : Stacked (call :: inner) above) (ht : Scoped t) (hscope : call.scope = some scope)
    (hs : step t (.leave resultId) = some t') :
    ∃ top own rest, OwnFrame call own ∧ Above s ids inner rest t' ∧
      Popped (top ++ [own]) (t.returned call (inner ++ s.calls) resultId) t' ∧
      ((inner = [] ∧ rest = []) ∨ Stacked inner rest) := by
  obtain ⟨top, own, rest, rfl, hown, hrest⟩ := hst.leave_framed hscope
  obtain ⟨below, hframes, -⟩ := h.frames
  rw [List.append_assoc, List.cons_append] at hframes
  have hpopped := leave_popped ht h.calls hs hscope hframes hown
  have hreturned := h.returned resultId
  rw [show top ++ own :: rest = (top ++ [own]) ++ rest by simp] at hreturned
  exact ⟨top, own, rest, hown, hreturned.popped _ hpopped, hpopped, hrest⟩

theorem Above.leave (h : Above s ids (call :: inner) above t) (hst : Stacked (call :: inner) above)
    (ht : Scoped t) (hs : step t (.leave resultId) = some t') :
    ∃ above', Above s ids inner above' t' ∧
      ((inner = [] ∧ above' = []) ∨ Stacked inner above') := by
  cases hscope : call.scope with
  | none =>
    rw [leave_bare h.calls hs hscope]
    exact ⟨above, h.returned resultId, Or.inr (hst.leave_bare hscope)⟩
  | some scope =>
    obtain ⟨-, -, rest, -, hleft, -, hrest⟩ := h.leave_framed hst ht hscope hs
    exact ⟨rest, hleft, hrest⟩

/-- The id an escape returns. -/
def escapedId (a : State ν) : Op ν → Option ℕ
  | .escape scopeId escapeeId engine => some (a.escapeHandle scopeId escapeeId engine).1.2
  | _ => none

theorem freshId_ne (next : ℕ) : (freshId next).1 ≠ 0 := by
  unfold freshId
  split
  · rename_i hzero
    subst hzero
    decide
  · assumption

/-- **One step inside a call**, whatever it is, unless it ends the call. -/
theorem Above.step (h : Above s ids inner above t) (hst : Stacked inner above) (ht : Settled t)
    (hs : Agent.step t op = some t') (hin : s.calls.length < t'.calls.length) :
    ∃ inner' above', Above s (ids ++ (escapedId t op).toList) inner' above' t' ∧
      Stacked inner' above' := by
  obtain ⟨hinner, habove⟩ := hst.ne_nil
  have hmore : Above s (ids ++ (escapedId t op).toList) inner above t :=
    h.mono (List.subset_append_left _ _)
  cases op with
  | mint val =>
    cases hs
    have hroot : t.currentFrame = t := by
      obtain ⟨below, hframes, -⟩ := h.frames
      refine (currentFrame_eq t).trans ?_
      rw [rooted_of_ne (hframes ▸ List.append_ne_nil_of_left_ne_nil habove _)]
    unfold State.storeValue
    rw [hroot]
    obtain ⟨above', habove', hsame⟩ :=
      hmore.stored ht.tabled val (Or.inl (List.length_pos_iff.mpr habove))
    exact ⟨inner, above', habove', hst.congr hsame⟩
  | openScope escapable engine =>
    simp only [Agent.step] at hs
    split at hs
    · cases hs
      cases engine with
      | error status => exact ⟨inner, above, hmore, hst⟩
      | ok scope =>
        obtain ⟨f, hpushed, -, -, -, hid⟩ := hmore.pushed habove (freshId t.nextScopeId).1
          (frameFor_handleScope scope escapable)
        refine ⟨inner, f :: above,
          { hpushed with }, .guest ?_ hst⟩
        rw [hid]
        exact freshId_ne _
    · cases hs
  | closeScope escapable scopeId =>
    cases hs
    rcases closeHandleScope_cases t escapable scopeId with
      ⟨status, heq⟩ | ⟨frame, frames, hframes, hid, hne, heq⟩
    · rw [heq]
      exact ⟨inner, above, hmore, hst⟩
    · rw [heq]
      -- The innermost frame is above `s`, and not a call's own.
      obtain ⟨below, hsplit, -⟩ := h.frames
      obtain ⟨f, rest, rfl⟩ := List.exists_cons_of_ne_nil habove
      obtain ⟨rfl, -⟩ := List.cons.inj (hframes.symm.trans hsplit)
      exact ⟨inner, rest, Above.popped [frame] hmore (ht.scopes.popCurrentFrame hframes),
        hst.closed (by rw [hid]; exact hne)⟩
  | escape scopeId escapeeId engine =>
    cases hs
    rcases escapeHandle_cases t scopeId escapeeId engine with
      ⟨status, heq⟩ | ⟨k, scope, escapee, result, -, -, heq⟩
    · rw [heq]
      exact ⟨inner, above, hmore, hst⟩
    · rw [heq]
      have hlogged : Tabled [] [] (t.logged (.escaped scope escapee)) :=
        ht.tabled.congr rfl rfl rfl rfl rfl rfl
      have hid : ((t.logged (.escaped scope escapee)).storeValueInFrame result (k + 1)).1 ∈
          ids ++ (escapedId t (.escape scopeId escapeeId engine)).toList := by
        refine List.mem_append_right _ (List.mem_singleton.mpr ?_)
        rw [heq]
      obtain ⟨above', habove', hsame⟩ :=
        (hmore.escaped scope escapee).stored hlogged result (Or.inr hid)
      exact ⟨inner, above', habove', hst.congr hsame⟩
  | enterCallback info engine =>
    obtain ⟨call, called, he⟩ := entered_of_step hs trivial
    obtain ⟨above', habove', hst'⟩ := hmore.entered hst he
    exact ⟨call :: inner, above', habove', hst'⟩
  | enterFinalizer engine =>
    obtain ⟨call, called, he⟩ := entered_of_step hs trivial
    obtain ⟨above', habove', hst'⟩ := hmore.entered hst he
    exact ⟨call :: inner, above', habove', hst'⟩
  | enterInterrupt engine =>
    obtain ⟨call, called, he⟩ := entered_of_step hs trivial
    obtain ⟨above', habove', hst'⟩ := hmore.entered hst he
    exact ⟨call :: inner, above', habove', hst'⟩
  | leave resultId =>
    obtain ⟨call, rest, rfl⟩ := List.exists_cons_of_ne_nil hinner
    obtain ⟨above', habove', hend | hst'⟩ := hmore.leave hst ht.scopes hs
    · rw [habove'.calls, hend.1] at hin
      exact absurd hin (lt_irrefl _)
    · exact ⟨rest, above', habove', hst'⟩
  | dispose =>
    simp only [Agent.step] at hs
    rw [if_pos] at hs
    · cases hs
      exact ⟨inner, above, hmore, hst⟩
    · rw [h.calls]
      exact Or.inl (List.append_ne_nil_of_left_ne_nil hinner _)

/-- Every step of a run inside a call. -/
theorem Above.run {calls : List Call} (hcalls : s.calls.length < calls.length)
    {ops : List (Op ν)} : ∀ {ids : List ℕ} {inner : List Call} {above : List (ScopeFrame ν)}
      {t t' : State ν}, Above s ids inner above t → Stacked inner above → Settled t →
      Run.run Agent.step t ops = some t' →
      AllStates Agent.step (fun u => calls <:+ u.calls) t ops →
      ∃ inner' above', Above s (ids ++ trace Agent.step escapedId t ops) inner' above' t' ∧
        Stacked inner' above' ∧ Settled t' := by
  induction ops with
  | nil =>
    intro ids inner above t t' h hst ht hr _
    obtain rfl : t = t' := by simpa using hr
    exact ⟨inner, above, h.mono (List.subset_append_left _ _), hst, ht⟩
  | cons op ops ih =>
    intro ids inner above t t' h hst ht hr hall
    obtain ⟨u, hs, hr'⟩ := run_cons_eq_some.mp hr
    have hsuffix := hall.2.1 u hs
    obtain ⟨inner', above', hu, hst'⟩ :=
      h.step hst ht hs (lt_of_lt_of_le hcalls hsuffix.length_le)
    obtain ⟨inner'', above'', hend, hst'', ht''⟩ :=
      ih hu hst' (ht.step hs) hr' ⟨hsuffix, hall.2.2 u hs⟩
    rw [trace_cons hs, ← List.append_assoc]
    exact ⟨inner'', above'', hend, hst'', ht''⟩

/-- The call itself begins. -/
theorem above_entered (he : Entered s t call called) (hscope : call.scope = some scope) :
    ∃ own, Above s.currentFrame [] [call] [own] t ∧ Stacked [call] [own] := by
  obtain ⟨invocations, next, rfl, hcbinfo⟩ := he.invoked
  obtain ⟨-, plain, esc, rfl, hkind, hown⟩ := he.framed scope hscope
  obtain ⟨f, spare, heq, hplain, hesc, henv, hid⟩ := pushScopeFrame_eq (State.openNapiScope
    { s with
      callbackInvocations := invocations ++ s.callbackInvocations
      nextCallbackInvocationId := next
      calls := call :: s.calls } scope) plain esc 0
  refine ⟨f, ?_, .base hscope (hown f hid hplain hesc henv)⟩
  rw [heq, currentFrame_eq]
  refine ⟨rfl, ⟨rooted s.scopeFrames, rfl, List.forall₂_same.mpr fun f _ => Kept.refl [] f⟩,
    ⟨invocations, rfl, ?_⟩, [.opened scope], rfl, ?_⟩
  · rw [hcbinfo]
    cases hcall : call.cbinfo with
    | none => rw [List.filterMap_cons_none hcall, List.filterMap_nil]; rfl
    | some cbinfo => rw [List.filterMap_cons_some hcall, List.filterMap_nil]; rfl
  · rw [scopesOf_cons, hkind.napiScope hplain hesc henv]
    rfl

/-! ## What a call leaves behind -/

/-- The state `s'` has the scope stack of `s`: the root frame is there from now on, and
    ids may have been escaped into the frames, but no scope is left open and none has been
    closed that was not opened since, innermost first. -/
structure Restored (s : State ν) (ids : List ℕ) (s' : State ν) : Prop where
  frames : List.Forall₂ (Kept ids) s.currentFrame.scopeFrames s'.scopeFrames
  invocations : s'.callbackInvocations = s.callbackInvocations
  calls : s'.calls = s.calls
  opened : s'.openScopes = s.openScopes
  events : ∃ seg, s'.log = seg ++ s.log ∧ replay seg [] = some []

theorem Above.restored (h : Above s.currentFrame ids [] [] t) (hs : Scoped s) (ht : Scoped t) :
    Restored s ids t := by
  obtain ⟨below, hframes, hkept⟩ := h.frames
  obtain ⟨invocations, hinv, hnone⟩ := h.invocations
  obtain ⟨seg, hlog, hseg⟩ := h.log
  have hroot := hs.currentFrame.opened
  have hcalls := h.calls
  obtain rfl : invocations = [] := List.map_eq_nil_iff.mp hnone
  obtain rfl : t.scopeFrames = below := hframes
  have hopened : t.openScopes = s.currentFrame.openScopes := by
    rw [ht.opened, hroot, scopesOf_congr (hkept.imp fun _ _ hk => hk.same)]
  rw [currentFrame_eq] at hcalls hinv hlog hopened
  exact ⟨hkept, hinv, hcalls, hopened, seg, hlog, hseg⟩

/-- **A guest call leaves the scope stack as it found it.** In any state `s` a call begins
    that the engine gives a scope; the guest does anything, further calls included, until
    the call is the innermost again; then it ends, with any result. The stack is restored,
    and a callback's result is escaped before any scope is closed. -/
theorem call_restores {limit : ℕ} {before ops : List (Op ν)} {s s₁ s₂ : State ν} {op : Op ν}
    {call : Call} {scope resultId : ℕ}
    (hbefore : run step { valueLimit := limit } before = some s)
    (hs : step s op = some s₁) (hop : op.Enters) (hcall : s₁.calls.head? = some call)
    (hscope : call.scope = some scope) (hr : run step s₁ ops = some s₂)
    (hin : AllStates step (fun t => s₁.calls <:+ t.calls) s₁ ops)
    (hback : s₂.calls = s₁.calls) :
    ∃ s₃, step s₂ (.leave resultId) = some s₃ ∧
      Restored s (trace step escapedId s₁ ops) s₃ ∧
      ∀ cbinfo result, call.caller = .callback cbinfo → s₂.loadValue resultId = some result →
        ∃ closes : List ℕ, s₃.log =
          ((closes ++ [scope]).reverse.map fun p => .closed p) ++
            .escaped scope result :: s₂.log := by
  have hsettled : Settled s :=
    invariant (fun _ _ _ hs h => h.step hs) hbefore (settled_init limit)
  obtain ⟨call', called, he⟩ := entered_of_step hs hop
  have hcalls := he.calls
  obtain rfl : call' = call := by
    rw [hcalls] at hcall
    exact Option.some.inj hcall
  obtain ⟨own, hentered, hst⟩ := above_entered he hscope
  have hroot : s.currentFrame.calls = s.calls := by rw [currentFrame_eq]
  have hlt : s.currentFrame.calls.length < s₁.calls.length := by
    rw [hroot, hcalls]
    exact Nat.lt_succ_self _
  obtain ⟨inner, above, habove, hst', hsettled'⟩ :=
    hentered.run hlt hst (hsettled.step hs) hr hin
  -- The call is the innermost again.
  obtain rfl : inner = [call'] := by
    have heq := habove.calls.symm.trans (hback.trans hcalls)
    rw [hroot] at heq
    exact List.append_cancel_right (heq.trans (List.singleton_append ..).symm)
  obtain ⟨s₃, hleave⟩ := leave_enabled (hback.trans hcalls) resultId
  obtain ⟨top, own', rest, hown, hleft, hpopped, hrest⟩ :=
    habove.leave_framed hst' hsettled'.scopes hscope hleave
  obtain rfl : rest = [] := by
    rcases hrest with ⟨-, hnil⟩ | hst''
    · exact hnil
    · exact absurd rfl hst''.ne_nil.1
  rw [List.nil_append] at hleft
  refine ⟨s₃, hleave, hleft.restored hsettled.scopes (hsettled'.step hleave).scopes, ?_⟩
  intro cbinfo result hcaller hload
  refine ⟨scopesOf top, ?_⟩
  have hescaped : (s₂.returned call' ([] ++ s.currentFrame.calls) resultId).log =
      .escaped scope result :: s₂.log := by
    unfold State.returned Call.cbinfo
    rw [hcaller, hscope]
    dsimp only
    rw [loadValue_calls, hload]
    rfl
  rw [hpopped.log, hescaped, scopesOf_append, scopesOf_cons, hown.2.1, hscope]
  rfl

end

/-- In a callback the guest opens a scope, mints and escapes a value, is interrupted by a
    finalizer that leaves a scope of its own open, and returns with the first scope open. -/
def untidyGuest : List (Op ℕ) :=
  [.openScope true (.ok 101), .mint (some 6), .escape 1 8192 (.ok (some 6)),
    .enterFinalizer (some 102), .openScope false (.ok 103), .leave 0]

theorem untidyGuest_restores :
    ∃ s s₁ s₂ s₃ : State ℕ, run step { valueLimit := 9 } [.mint (some 5)] = some s ∧
      step s (.enterCallback 3 (some 100)) = some s₁ ∧ run step s₁ untidyGuest = some s₂ ∧
      step s₂ (.leave 8192) = some s₃ ∧ s₂.openScopes = [101, 100] ∧ s₃.openScopes = [] ∧
      Restored s (trace step escapedId s₁ untidyGuest) s₃ := by
  obtain ⟨s₃, hleave, hrestored, -⟩ := call_restores
    (show run step ({ valueLimit := 9 } : State ℕ) [.mint (some 5)] = some _ from rfl)
    (show step _ (.enterCallback 3 (some 100)) = some _ from rfl) trivial rfl rfl
    (show run step _ untidyGuest = some _ from rfl) (by decide) rfl
  exact ⟨_, _, _, s₃, rfl, rfl, rfl, hleave, rfl, hrestored.opened, hrestored⟩

/-- A call at teardown, where the frames are gone, leaves the root frame; and where the
    engine opens no scope for the call, what the guest leaves open stays open. -/
theorem calls_leave_frames :
    ((run step {} [.mint (some 5), .dispose]).map fun s : State ℕ => s.scopeFrames.length) =
        some 0 ∧
      ((run step {} [.mint (some 5), .dispose, .enterFinalizer (some 7), .leave 0]).map
        fun s : State ℕ => s.scopeFrames.length) = some 1 ∧
      ((run step {} [.mint (some 5)]).map fun s : State ℕ => (s.scopeFrames.length, s.openScopes)) =
        some (1, []) ∧
      ((run step {} [.mint (some 5), .enterCallback 3 none, .openScope false (.ok 9), .leave 0]).map
        fun s : State ℕ => (s.scopeFrames.length, s.openScopes)) = some (2, [9]) := by
  decide

end WasmerNapi.Agent
