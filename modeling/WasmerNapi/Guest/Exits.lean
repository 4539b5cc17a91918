import WasmerNapi.Guest.Callback

/-!
# Exits reach the imports around them

An import that is run by `with_cb_context` raises the exits of the guest functions that end inside
it, and so the exit goes outwards, import by import. It raises whatever is pending, though: if an
exit is pending when it is called, it raises that one, and nothing keeps the engine from calling
into the guest again before the exit has been raised.
-/

namespace WasmerNapi.Guest.Callback

open Function (update update_self update_of_ne)
open List (mem_cons mem_cons_of_mem mem_cons_self)
open Run

variable {s s' : State} {a : Action} {frame : Import} {stack : List Frame}

/-! ## What a step does -/

/-- Contexts by env, of the agents there are. -/
abbrev Contexts : Type := ℕ → Option (Option ℕ)

/-- The contexts once an import has given back its own. -/
def uninstall (frame : Import) (contexts : Contexts) : Contexts :=
  match frame.installed with
  | none => contexts
  | some (env, prev) => fun e => if e = env then (contexts e).map fun _ => prev else contexts e

/-- An import is called. -/
structure Enters (s : State) (frame : Import) (s' : State) : Prop where
  stack : s'.stack = .bridge frame :: s.stack
  pending : s'.pendingGuestExit = s.pendingGuestExit
  lent : s'.lent = (frame.lends || s.lent)
  callbackDepth : s'.callbackDepth = s.callbackDepth
  log : s'.log = s.log
  nextNativeId : s'.nextNativeId = s.nextNativeId
  seen : frame.seen = (exits s.log).length
  depth : frame.depth = s.callbackDepth
  active : frame.active = s.activeContexts
  cbContext : frame.lends = true → frame.cbContext = true
  contexts : uninstall frame s'.activeContexts = s.activeContexts
  installed : ∀ {env prev}, frame.installed = some (env, prev) → s.activeContexts env ≠ none
  domain : ∀ env, s'.activeContexts env = none ↔ s.activeContexts env = none

theorem activeContexts_swap (s : State) (env : ℕ) (ctx : Option ℕ) :
    (s.swapActiveCallbackCtx env ctx).activeContexts = fun e =>
      if e = env then (s.activeContexts e).map fun _ => ctx else s.activeContexts e := by
  funext e
  unfold State.swapActiveCallbackCtx State.activeContexts
  cases henv : s.agents env with
  | none =>
    by_cases he : e = env
    · subst he
      simp [henv]
    · simp [he]
  | some agent =>
    by_cases he : e = env
    · subst he
      simp [henv]
    · simp [he]

/-- Only an agent's context counts. -/
theorem activeContexts_update {agents : ℕ → Option Agent} (env : ℕ) (f : Agent → Agent)
    (hf : ∀ agent, (f agent).activeCallbackCtx = agent.activeCallbackCtx) (e : ℕ) :
    (update agents env ((agents env).map f) e).map Agent.activeCallbackCtx =
      (agents e).map Agent.activeCallbackCtx := by
  by_cases he : e = env
  · subst he
    rw [update_self]
    cases agents e with
    | none => rfl
    | some agent => exact congrArg some (hf agent)
  · rw [update_of_ne he]

theorem enterPlain_enters (s : State) : Enters s (s.importFrame false) s.enterPlain where
  stack := rfl
  pending := rfl
  lent := rfl
  callbackDepth := rfl
  log := rfl
  nextNativeId := rfl
  seen := rfl
  depth := rfl
  active := rfl
  cbContext := nofun
  contexts := rfl
  installed := nofun
  domain := fun _ => Iff.rfl

theorem enterCbContext_enters (s : State) (guestEnv : ℕ) (releases : Option ℕ) :
    ∃ frame, frame.cbContext = true ∧ Enters s frame (s.enterCbContext guestEnv releases) := by
  unfold State.enterCbContext
  split
  · have hswap := activeContexts_swap s guestEnv (some s.nextCtx)
    have hsame : (s.swapActiveCallbackCtx guestEnv (some s.nextCtx)).pendingGuestExit =
          s.pendingGuestExit ∧
        (s.swapActiveCallbackCtx guestEnv (some s.nextCtx)).callbackDepth = s.callbackDepth ∧
        (s.swapActiveCallbackCtx guestEnv (some s.nextCtx)).log = s.log ∧
        (s.swapActiveCallbackCtx guestEnv (some s.nextCtx)).nextNativeId = s.nextNativeId := by
      unfold State.swapActiveCallbackCtx
      split
      · exact ⟨rfl, rfl, rfl, rfl⟩
      · exact ⟨rfl, rfl, rfl, rfl⟩
    refine ⟨_, rfl, rfl, hsame.1, rfl, hsame.2.1, hsame.2.2.1, hsame.2.2.2, rfl, rfl, rfl,
      fun _ => rfl, ?_, ?_, ?_⟩
    · show uninstall _ (s.swapActiveCallbackCtx guestEnv (some s.nextCtx)).activeContexts = _
      rw [hswap]
      funext e
      cases hagent : s.agents guestEnv with
      | none =>
        simp only [uninstall, Option.map_none]
        by_cases he : e = guestEnv
        · subst he
          simp [State.activeContexts, hagent]
        · simp [he]
      | some agent =>
        simp only [uninstall, Option.map_some]
        by_cases he : e = guestEnv
        · subst he
          simp [State.activeContexts, hagent]
        · simp [he]
    · intro env prev hinstalled
      obtain ⟨agent, hagent, heq⟩ := Option.map_eq_some_iff.mp hinstalled
      obtain ⟨rfl, _⟩ := Prod.mk.inj heq
      simp [State.activeContexts, hagent]
    · intro env
      show (s.swapActiveCallbackCtx guestEnv (some s.nextCtx)).activeContexts env = none ↔ _
      rw [hswap]
      by_cases he : env = guestEnv
      · simp [he]
      · simp [he]
  · exact ⟨_, rfl, rfl, rfl, rfl, rfl, rfl, rfl, rfl, rfl, rfl, fun _ => rfl, rfl,
      nofun, fun _ => Iff.rfl⟩

/-- An agent that is being released keeps its context. -/
theorem Enters.closing {t : State} (h : Enters s frame t) (env : ℕ) :
    Enters s frame { t with
      agents := update t.agents env
        ((t.agents env).map fun agent => { agent with closing := true }) } := by
  have hactive : State.activeContexts { t with
      agents := update t.agents env
        ((t.agents env).map fun agent => { agent with closing := true }) } = t.activeContexts :=
    funext (activeContexts_update env _ fun _ => rfl)
  refine { h with contexts := ?_, domain := ?_ }
  · rw [hactive]
    exact h.contexts
  · rw [hactive]
    exact h.domain

theorem enterRelease_enters (s : State) (scope : ℕ) :
    ∃ frame, (frame.cbContext = true → scope ∈ s.napiScopes ∧ scope ∈ s.napiEnvs ∧
      s.releaseRefused scope = false) ∧ Enters s frame (s.enterRelease scope) := by
  have hforget : ∀ {frame t} (scopes : List ℕ), Enters { s with napiScopes := scopes } frame t →
      Enters s frame t := by
    intro frame t scopes h
    exact { h with }
  unfold State.enterRelease
  split
  · rename_i hscope
    split
    · rename_i henv
      split
      · exact ⟨s.importFrame false, nofun, enterPlain_enters s⟩
      · rename_i hrefused
        obtain ⟨frame, _, henters⟩ := enterCbContext_enters
          { s with napiScopes := s.napiScopes.erase scope } scope (some scope)
        exact ⟨frame, fun _ => ⟨hscope, henv, Bool.eq_false_iff.mpr hrefused⟩,
          hforget _ (henters.closing scope)⟩
    · exact ⟨s.importFrame false, nofun,
        hforget _ (enterPlain_enters { s with napiScopes := s.napiScopes.erase scope })⟩
  · exact ⟨s.importFrame false, nofun, enterPlain_enters s⟩

/-- Whether the step calls an import that is run by `with_cb_context`. -/
def callsCbContext (s : State) : Action → Bool
  | .callCbContext _ => true
  | .callRelease scope =>
    decide (scope ∈ s.napiScopes) && decide (scope ∈ s.napiEnvs) && !s.releaseRefused scope
  | _ => false

/-- What a step does. -/
inductive Move (s : State) : Action → State → Prop
  | enters {a : Action} {frame : Import} {t : State} : atGuest s.stack = true →
      (frame.cbContext = true → callsCbContext s a = true) → Enters s frame t → Move s a t
  | created {id : ℕ} {frame : Import} {stack : List Frame} :
      s.stack = .bridge frame :: stack → s.nextNativeId < id →
      Move s (.createEnv id) { s with
        nextNativeId := id
        napiEnvs := id :: s.napiEnvs
        napiScopes := id :: s.napiScopes
        agents := update s.agents id (some {}) }
  | idle {d : Dispatch} : starts s d = false → Move s (.dispatch d) s
  | started {d : Dispatch} {frame : Import} {stack : List Frame} :
      s.stack = .bridge frame :: stack → starts s d = true →
      Move s (.dispatch d) (startGuest s d.env)
  | ended {how : GuestEnd} {env : ℕ} {stack : List Frame} : s.stack = .guest env :: stack →
      Move s (.guestEnds how) (s.endGuest env stack how.exit)
  | finished {frame : Import} {stack : List Frame} : s.stack = .bridge frame :: stack →
      Move s .finish (s.finish frame stack)

theorem step_cases (hs : step s a = some s') : Move s a s' := by
  cases a with
  | callCbContext guestEnv =>
    simp only [step] at hs
    split at hs
    · rename_i hguest
      cases hs
      obtain ⟨frame, _, henters⟩ := enterCbContext_enters s guestEnv none
      exact .enters hguest (fun _ => rfl) henters
    · cases hs
  | callPlain =>
    simp only [step] at hs
    split at hs
    · rename_i hguest
      cases hs
      exact .enters hguest (fun hcb => by cases hcb) (enterPlain_enters s)
    · cases hs
  | callRelease scope =>
    simp only [step] at hs
    split at hs
    · rename_i hguest
      cases hs
      obtain ⟨frame, hcb, henters⟩ := enterRelease_enters s scope
      refine .enters hguest (fun h => ?_) henters
      obtain ⟨hscope, henv, hrefused⟩ := hcb h
      simp [callsCbContext, hscope, henv, hrefused]
    · cases hs
  | createEnv id =>
    simp only [step] at hs
    split at hs
    · rename_i frame stack hstack
      split at hs
      · rename_i hid
        cases hs
        exact .created hstack hid.2.1
      · cases hs
    · cases hs
  | dispatch d =>
    simp only [step] at hs
    split at hs
    · rename_i frame stack hstack
      cases hs
      cases hstarts : starts s d with
      | true => exact .started hstack hstarts
      | false => exact .idle hstarts
    · cases hs
  | guestEnds how =>
    simp only [step] at hs
    split at hs
    · rename_i env stack hstack
      cases hs
      exact .ended hstack
    · cases hs
  | finish =>
    simp only [step] at hs
    split at hs
    · rename_i frame stack hstack
      cases hs
      exact .finished hstack
    · cases hs

/-! ## An import returns -/

/-- The import has returned; the guest function around it may still have to end. -/
def returned (s : State) (frame : Import) (stack : List Frame) : Return where
  cbContext := frame.cbContext
  raised := if frame.cbContext then s.pendingGuestExit else none
  exits := (exits s.log).take ((exits s.log).length - frame.seen)
  depth := (frame.depth, (s.leaveImport frame stack).callbackDepth)
  active := (frame.active, (s.leaveImport frame stack).activeContexts)
  outermost := stack.isEmpty
  pending := (s.leaveImport frame stack).pendingGuestExit

def leave (s : State) (frame : Import) (stack : List Frame) : State :=
  { s.leaveImport frame stack with
    log := .returned (returned s frame stack) :: (s.leaveImport frame stack).log }

theorem finish_cases (s : State) (frame : Import) (stack : List Frame) :
    (s.finish frame stack = leave s frame stack ∧
      ((returned s frame stack).raised = none ∨ atGuest stack = false ∨ stack = [])) ∨
    ∃ code env rest, (returned s frame stack).raised = some code ∧ stack = .guest env :: rest ∧
      s.finish frame stack = (leave s frame stack).endGuest env rest (some code) := by
  have hraised : (returned s frame stack).raised =
      if frame.cbContext then s.pendingGuestExit else none := rfl
  rw [hraised]
  unfold State.finish
  dsimp only
  split
  · rename_i code env rest hcode
    exact Or.inr ⟨code, env, rest, hcode, rfl, rfl⟩
  · rename_i stack _ _ hnot
    refine Or.inl ⟨rfl, ?_⟩
    cases hcode : (if frame.cbContext then s.pendingGuestExit else none) with
    | none => exact Or.inl rfl
    | some code =>
      cases stack with
      | nil => exact Or.inr (Or.inr rfl)
      | cons f rest =>
        cases f with
        | bridge i => exact Or.inr (Or.inl rfl)
        | guest env => exact absurd rfl (hnot code env rest hcode)

/-- An agent that has been released counts no more. -/
def forget (releases : Option ℕ) (contexts : Contexts) : Contexts :=
  match releases with
  | none => contexts
  | some env => update contexts env none

/-- What is left of the import. -/
structure Left (s : State) (frame : Import) (stack : List Frame) (t : State) : Prop where
  stack : t.stack = stack
  pending : t.pendingGuestExit = if frame.cbContext then none else s.pendingGuestExit
  lent : t.lent = if frame.lends then false else s.lent
  callbackDepth : t.callbackDepth = s.callbackDepth
  log : t.log = s.log
  nextNativeId : t.nextNativeId = s.nextNativeId
  contexts : t.activeContexts = uninstall frame (forget frame.releases s.activeContexts)

theorem finishRelease_left (s : State) (releases : Option ℕ) :
    (s.finishRelease releases).activeContexts = forget releases s.activeContexts ∧
      (s.finishRelease releases).callbackDepth = s.callbackDepth ∧
      (s.finishRelease releases).log = s.log ∧
      (s.finishRelease releases).nextNativeId = s.nextNativeId := by
  cases releases with
  | none => exact ⟨rfl, rfl, rfl, rfl⟩
  | some env =>
    refine ⟨?_, rfl, rfl, rfl⟩
    funext e
    unfold State.activeContexts State.finishRelease forget
    by_cases he : e = env
    · subst he
      simp
    · simp [he]

theorem dropGuard_left (s : State) (frame : Import) :
    (s.dropGuard frame.installed).activeContexts = uninstall frame s.activeContexts ∧
      (s.dropGuard frame.installed).callbackDepth = s.callbackDepth ∧
      (s.dropGuard frame.installed).log = s.log ∧
      (s.dropGuard frame.installed).nextNativeId = s.nextNativeId := by
  unfold State.dropGuard uninstall
  cases frame.installed with
  | none => exact ⟨rfl, rfl, rfl, rfl⟩
  | some p =>
    obtain ⟨env, prev⟩ := p
    refine ⟨activeContexts_swap s env prev, ?_⟩
    dsimp only
    unfold State.swapActiveCallbackCtx
    split
    · exact ⟨rfl, rfl, rfl⟩
    · exact ⟨rfl, rfl, rfl⟩

theorem leaveImport_left (s : State) (frame : Import) (stack : List Frame) :
    Left s frame stack (s.leaveImport frame stack) := by
  obtain ⟨hcontexts, hdepth, hlog, hnext⟩ := finishRelease_left s frame.releases
  obtain ⟨hcontexts', hdepth', hlog', hnext'⟩ := dropGuard_left (s.finishRelease frame.releases) frame
  refine ⟨rfl, rfl, rfl, hdepth'.trans hdepth, hlog'.trans hlog, hnext'.trans hnext, ?_⟩
  rw [← hcontexts]
  exact hcontexts'

/-! ## The stack -/

/-- Imports and guest functions take turns, and a guest function is called by an import that lends
    the store. -/
def Nested : List Frame → Prop
  | [] => True
  | .guest _ :: stack => (∃ i rest, stack = .bridge i :: rest ∧ i.lends = true) ∧ Nested stack
  | .bridge i :: stack => atGuest stack = true ∧ i.depth = guestFrames stack ∧
      (i.lends = true → i.cbContext = true) ∧ Nested stack

def lendsTop : List Frame → Bool
  | .bridge i :: _ => i.lends
  | _ => false

/-- The store and the callback depth are as the stack says. -/
structure Placed (s : State) : Prop where
  nested : Nested s.stack
  lent : s.lent = lendsTop s.stack
  depth : s.callbackDepth = guestFrames s.stack
  bound : s.callbackDepth ≤ maxCallbackDepth

theorem Nested.tail {f : Frame} (h : Nested (f :: stack)) : Nested stack := by
  cases f with
  | guest env => exact h.2
  | bridge i => exact h.2.2.2

variable {i : Import}

/-- Every import below another frame lends the store. -/
theorem Nested.lends {f : Frame} (h : Nested (f :: stack)) (hi : .bridge i ∈ stack) :
    i.lends = true := by
  induction stack generalizing f with
  | nil => cases hi
  | cons g rest ih =>
    rcases mem_cons.mp hi with heq | hi
    · subst heq
      cases f with
      | bridge j => cases h.1
      | guest env =>
        obtain ⟨⟨j, rest', heq, hlends⟩, _⟩ := h
        cases heq
        exact hlends
    · exact ih h.tail hi

theorem Nested.cbContext (h : Nested stack) (hi : .bridge i ∈ stack) (hlends : i.lends = true) :
    i.cbContext = true := by
  induction stack with
  | nil => cases hi
  | cons f rest ih =>
    rcases mem_cons.mp hi with heq | hi
    · subst heq
      exact h.2.2.1 hlends
    · exact ih h.tail hi

/-- A guest function that runs has taken the store. -/
theorem lendsTop_guest (hguest : atGuest stack = true) : lendsTop stack = false := by
  cases stack with
  | nil => rfl
  | cons f rest =>
    cases f with
    | guest env => rfl
    | bridge i => cases hguest

theorem placed_enters (h : Placed s) (hguest : atGuest s.stack = true) (henters : Enters s frame s') :
    Placed s' := by
  obtain ⟨hnested, hlent, hdepth, hbound⟩ := h
  have htop := lendsTop_guest hguest
  refine ⟨?_, ?_, ?_, ?_⟩
  · rw [henters.stack]
    exact ⟨hguest, henters.depth.trans hdepth, henters.cbContext, hnested⟩
  · rw [henters.lent, henters.stack, hlent, htop, Bool.or_false]
    rfl
  · rw [henters.callbackDepth, henters.stack]
    exact hdepth
  · rw [henters.callbackDepth]
    exact hbound

theorem placed_started {d : Dispatch} (h : Placed s) (hstack : s.stack = .bridge frame :: stack)
    (hstarts : starts s d = true) : Placed (startGuest s d.env) := by
  obtain ⟨hnested, hlent, hdepth, _⟩ := h
  have hchecks : s.lent = true ∧ s.callbackDepth < maxCallbackDepth := by
    unfold starts at hstarts
    split at hstarts
    · cases hstarts
    · simp only [Bool.and_eq_true, decide_eq_true_eq] at hstarts
      exact ⟨hstarts.1.1.2, hstarts.1.2⟩
  refine ⟨⟨⟨frame, stack, hstack, ?_⟩, hnested⟩, rfl, ?_, hchecks.2⟩
  · rw [hstack] at hlent
    exact hlent.symm.trans hchecks.1
  · exact congrArg (· + 1) hdepth

theorem endGuest_eq (s : State) (env : ℕ) (stack : List Frame) (exit : Option ExitCode) :
    (s.endGuest env stack exit).stack = stack ∧ (s.endGuest env stack exit).lent = true ∧
      (s.endGuest env stack exit).callbackDepth = s.callbackDepth - 1 ∧
      (s.endGuest env stack exit).nextNativeId = s.nextNativeId ∧
      (s.endGuest env stack exit).activeContexts = s.activeContexts ∧
      (s.endGuest env stack exit).pendingGuestExit = exit.or s.pendingGuestExit ∧
      (s.endGuest env stack exit).log = (exit.map Event.exited).toList ++ s.log := by
  have hactive : (s.endGuest env stack none).activeContexts = s.activeContexts :=
    funext (activeContexts_update env
      (fun agent => { agent with guestCalls := agent.guestCalls - 1 }) fun _ => rfl)
  cases exit with
  | none => exact ⟨rfl, rfl, rfl, rfl, hactive, rfl, rfl⟩
  | some code => exact ⟨rfl, rfl, rfl, rfl, hactive, rfl, rfl⟩

variable {env : ℕ} {exit : Option ExitCode}

theorem placed_endGuest (h : Placed s) (hstack : s.stack = .guest env :: stack) :
    Placed (s.endGuest env stack exit) := by
  obtain ⟨hnested, hlent, hdepth, hbound⟩ := h
  obtain ⟨heq, hlent', hdepth', _⟩ := endGuest_eq s env stack exit
  rw [hstack] at hnested hdepth
  obtain ⟨⟨i, rest, htop, hlends⟩, hrest⟩ := hnested
  refine ⟨?_, ?_, ?_, ?_⟩
  · rw [heq]
    exact hrest
  · rw [heq, hlent', htop]
    exact hlends.symm
  · rw [heq, hdepth', hdepth]
    rfl
  · rw [hdepth']
    omega

theorem placed_leave (h : Placed s) (hstack : s.stack = .bridge frame :: stack) :
    Placed (leave s frame stack) := by
  obtain ⟨hnested, hlent, hdepth, hbound⟩ := h
  have hleft := leaveImport_left s frame stack
  rw [hstack] at hnested hlent hdepth
  have htop : lendsTop stack = false := by
    cases stack with
    | nil => rfl
    | cons f rest =>
      cases f with
      | guest env => rfl
      | bridge i => cases hnested.1
  refine ⟨?_, ?_, ?_, ?_⟩
  · show Nested (s.leaveImport frame stack).stack
    rw [hleft.stack]
    exact hnested.tail
  · show (s.leaveImport frame stack).lent = lendsTop (s.leaveImport frame stack).stack
    rw [hleft.stack, hleft.lent, hlent, htop]
    show (if frame.lends then false else frame.lends) = false
    cases frame.lends <;> rfl
  · show (s.leaveImport frame stack).callbackDepth = guestFrames (s.leaveImport frame stack).stack
    rw [hleft.stack, hleft.callbackDepth]
    exact hdepth
  · show (s.leaveImport frame stack).callbackDepth ≤ _
    rw [hleft.callbackDepth]
    exact hbound

theorem stack_leave (s : State) (frame : Import) (stack : List Frame) :
    (leave s frame stack).stack = stack :=
  (leaveImport_left s frame stack).stack

theorem placed_finish (h : Placed s) (hstack : s.stack = .bridge frame :: stack) :
    Placed (s.finish frame stack) := by
  rcases finish_cases s frame stack with ⟨heq, _⟩ | ⟨code, env, rest, _, hrest, heq⟩
  · rw [heq]
    exact placed_leave h hstack
  · rw [heq]
    apply placed_endGuest (placed_leave h hstack)
    rw [stack_leave, hrest]

theorem placed_step (hs : step s a = some s') (h : Placed s) : Placed s' := by
  cases step_cases hs with
  | enters hguest _ henters => exact placed_enters h hguest henters
  | created hstack _ => exact { h with }
  | idle _ => exact h
  | started hstack hstarts => exact placed_started h hstack hstarts
  | ended hstack => exact placed_endGuest h hstack
  | finished hstack => exact placed_finish h hstack

/-! ## The contexts -/

/-- Agents that are there before and after have the same context. -/
def Agree (before after : Contexts) : Prop :=
  ∀ env x y, before env = some x → after env = some y → x = y

/-- Import by import, giving back the contexts leads to those there were. -/
def Chained : List Frame → Contexts → Prop
  | [], _ => True
  | .guest _ :: stack, contexts => Chained stack contexts
  | .bridge i :: stack, contexts =>
    Agree i.active (uninstall i contexts) ∧ Chained stack (uninstall i contexts)

theorem Chained.restrict {contexts contexts' : Contexts} (h : Chained stack contexts)
    (hless : ∀ env, contexts' env = contexts env ∨ contexts' env = none) :
    Chained stack contexts' := by
  induction stack generalizing contexts contexts' with
  | nil => trivial
  | cons f stack ih =>
    cases f with
    | guest env => exact ih h hless
    | bridge i =>
      have hless' : ∀ env, uninstall i contexts' env = uninstall i contexts env ∨
          uninstall i contexts' env = none := by
        intro env
        unfold uninstall
        cases i.installed with
        | none => exact hless env
        | some p =>
          dsimp only
          rcases hless env with heq | heq
          · rw [heq]
            exact Or.inl rfl
          · right
            rw [heq]
            split
            · rfl
            · rfl
      refine ⟨?_, ih h.2 hless'⟩
      intro env x y hx hy
      rcases hless' env with heq | heq
      · exact h.1 env x y hx (heq.symm.trans hy)
      · rw [heq] at hy
        cases hy

theorem forget_less (releases : Option ℕ) (contexts : Contexts) (env : ℕ) :
    forget releases contexts env = contexts env ∨ forget releases contexts env = none := by
  cases releases with
  | none => exact Or.inl rfl
  | some e =>
    by_cases he : env = e
    · subst he
      exact Or.inr (update_self ..)
    · exact Or.inl (update_of_ne he ..)

/-- The import has to do with no env above `n`. -/
structure Import.Below (i : Import) (n : ℕ) : Prop where
  active : ∀ env, i.active env ≠ none → env ≤ n
  installed : ∀ {env prev}, i.installed = some (env, prev) → env ≤ n

theorem Import.Below.mono {m n : ℕ} (h : i.Below m) (hle : m ≤ n) : i.Below n :=
  ⟨fun env henv => (h.active env henv).trans hle, fun heq => (h.installed heq).trans hle⟩

/-- An agent nobody knows yet. -/
theorem Chained.create {contexts : Contexts} {n id : ℕ} (h : Chained stack contexts)
    (hbelow : ∀ i, .bridge i ∈ stack → i.Below n) (hid : n < id) (ctx : Option ℕ) :
    Chained stack (update contexts id (some ctx)) := by
  induction stack generalizing contexts with
  | nil => trivial
  | cons f stack ih =>
    have htail : ∀ i, .bridge i ∈ stack → i.Below n := fun i hi =>
      hbelow i (mem_cons_of_mem _ hi)
    cases f with
    | guest env => exact ih h htail
    | bridge i =>
      have hi := hbelow i (mem_cons_self ..)
      have hcomm : uninstall i (update contexts id (some ctx)) =
          update (uninstall i contexts) id (some ctx) := by
        unfold uninstall
        cases hinstalled : i.installed with
        | none => rfl
        | some p =>
          have hne : p.1 ≠ id := (lt_of_le_of_lt (hi.installed hinstalled) hid).ne
          funext e
          by_cases he : e = id
          · subst he
            simp [hne.symm]
          · simp [he]
      rw [Chained, hcomm]
      refine ⟨?_, ih h.2 htail⟩
      intro env x y hx hy
      by_cases henv : env = id
      · subst henv
        have hle := hi.active env (by rw [hx]; exact Option.some_ne_none x)
        omega
      · rw [update_of_ne henv] at hy
        exact h.1 env x y hx hy

structure Installed (s : State) : Prop where
  chained : Chained s.stack s.activeContexts
  agents : ∀ env, s.activeContexts env ≠ none → env ≤ s.nextNativeId
  imports : ∀ i, .bridge i ∈ s.stack → i.Below s.nextNativeId

theorem installed_enters (h : Installed s) (henters : Enters s frame s') : Installed s' := by
  obtain ⟨hchained, hagents, himports⟩ := h
  refine ⟨?_, ?_, ?_⟩
  · rw [henters.stack, Chained, henters.contexts, henters.active]
    refine ⟨?_, hchained⟩
    intro env x y hx hy
    exact Option.some.inj (hx.symm.trans hy)
  · intro env henv
    rw [henters.nextNativeId]
    exact hagents env (mt (henters.domain env).mpr henv)
  · intro i hi
    rw [henters.stack] at hi
    rw [henters.nextNativeId]
    rcases mem_cons.mp hi with heq | hi
    · cases heq
      refine ⟨?_, fun heq => hagents _ (henters.installed heq)⟩
      rw [henters.active]
      exact hagents
    · exact himports i hi

theorem installed_created {id : ℕ} (h : Installed s) (hid : s.nextNativeId < id) :
    Installed { s with
      nextNativeId := id
      napiEnvs := id :: s.napiEnvs
      napiScopes := id :: s.napiScopes
      agents := update s.agents id (some {}) } := by
  obtain ⟨hchained, hagents, himports⟩ := h
  have hactive : State.activeContexts { s with
      nextNativeId := id
      napiEnvs := id :: s.napiEnvs
      napiScopes := id :: s.napiScopes
      agents := update s.agents id (some {}) } =
        update s.activeContexts id (some none) := by
    funext e
    unfold State.activeContexts
    by_cases he : e = id
    · subst he
      simp
    · simp [he]
  refine ⟨?_, ?_, fun i hi => (himports i hi).mono hid.le⟩
  · rw [hactive]
    exact hchained.create himports hid none
  · intro env henv
    rw [hactive] at henv
    by_cases he : env = id
    · exact he.le
    · rw [update_of_ne he] at henv
      exact (hagents env henv).trans hid.le

theorem installed_started (h : Installed s) (env : ℕ) : Installed (startGuest s env) := by
  obtain ⟨hchained, hagents, himports⟩ := h
  have hactive : (startGuest s env).activeContexts = s.activeContexts :=
    funext (activeContexts_update env _ fun _ => rfl)
  refine ⟨?_, ?_, ?_⟩
  · rw [hactive]
    exact hchained
  · rw [hactive]
    exact hagents
  · intro i hi
    rcases mem_cons.mp hi with heq | hi
    · cases heq
    · exact himports i hi

theorem installed_endGuest (h : Installed s) (hstack : s.stack = .guest env :: stack) :
    Installed (s.endGuest env stack exit) := by
  obtain ⟨hchained, hagents, himports⟩ := h
  obtain ⟨heq, _, _, hnext, hactive, _⟩ := endGuest_eq s env stack exit
  rw [hstack] at hchained himports
  refine ⟨?_, ?_, ?_⟩
  · rw [heq, hactive]
    exact hchained
  · rw [hactive, hnext]
    exact hagents
  · rw [heq, hnext]
    exact fun i hi => himports i (mem_cons_of_mem _ hi)

/-- The contexts once the import has returned are those there were. -/
theorem agree_returned (h : Installed s) (hstack : s.stack = .bridge frame :: stack) :
    Agree (returned s frame stack).active.1 (returned s frame stack).active.2 := by
  have hchained := h.chained.restrict (forget_less frame.releases s.activeContexts)
  rw [hstack] at hchained
  show Agree frame.active (s.leaveImport frame stack).activeContexts
  rw [(leaveImport_left s frame stack).contexts]
  exact hchained.1

theorem installed_leave (h : Installed s) (hstack : s.stack = .bridge frame :: stack) :
    Installed (leave s frame stack) := by
  have hleft := leaveImport_left s frame stack
  have hchained := h.chained.restrict (forget_less frame.releases s.activeContexts)
  obtain ⟨_, hagents, himports⟩ := h
  rw [hstack] at hchained himports
  refine ⟨?_, ?_, ?_⟩
  · show Chained (s.leaveImport frame stack).stack (s.leaveImport frame stack).activeContexts
    rw [hleft.stack, hleft.contexts]
    exact hchained.2
  · show ∀ env, (s.leaveImport frame stack).activeContexts env ≠ none →
      env ≤ (s.leaveImport frame stack).nextNativeId
    rw [hleft.contexts, hleft.nextNativeId]
    intro env henv
    apply hagents
    intro hnone
    apply henv
    have hforgotten : forget frame.releases s.activeContexts env = none := by
      rcases forget_less frame.releases s.activeContexts env with heq | heq
      · exact heq.trans hnone
      · exact heq
    unfold uninstall
    cases frame.installed with
    | none => exact hforgotten
    | some p => simp [hforgotten]
  · show ∀ i, .bridge i ∈ (s.leaveImport frame stack).stack →
      i.Below (s.leaveImport frame stack).nextNativeId
    rw [hleft.stack, hleft.nextNativeId]
    exact fun i hi => himports i (mem_cons_of_mem _ hi)

theorem installed_step (hs : step s a = some s') (h : Installed s) : Installed s' := by
  cases step_cases hs with
  | enters _ _ henters => exact installed_enters h henters
  | created _ hid => exact installed_created h hid
  | idle _ => exact h
  | started _ _ => exact installed_started h _
  | ended hstack => exact installed_endGuest h hstack
  | finished hstack =>
    rename_i frame stack
    rcases finish_cases s frame stack with ⟨heq, _⟩ | ⟨code, env, rest, _, hrest, heq⟩
    · rw [heq]
      exact installed_leave h hstack
    · rw [heq]
      apply installed_endGuest (installed_leave h hstack)
      rw [stack_leave, hrest]

/-! ## The pending exit -/

/-- An import inside which a guest function has exited finds the last exit pending. -/
structure Stashed (s : State) : Prop where
  seen : ∀ i, .bridge i ∈ s.stack → i.seen ≤ (exits s.log).length
  pending : ∀ i, .bridge i ∈ s.stack → i.seen < (exits s.log).length → s.pendingGuestExit ≠ none
  -- an import that lends no store is the innermost one, and no guest function runs inside it
  quiet : ∀ i, .bridge i ∈ s.stack → i.lends = false → i.seen = (exits s.log).length
  last : ∀ code, s.pendingGuestExit = some code → (exits s.log).head? = some code
  around : s.pendingGuestExit ≠ none → ∃ i, .bridge i ∈ s.stack ∧ i.cbContext = true

theorem stashed_enters (h : Stashed s) (henters : Enters s frame s') : Stashed s' := by
  obtain ⟨hseen, hpending, hquiet, hlast, haround⟩ := h
  have hnew : ∀ i, .bridge i ∈ s'.stack → i.seen = (exits s.log).length ∨ .bridge i ∈ s.stack := by
    intro i hi
    rw [henters.stack] at hi
    rcases mem_cons.mp hi with heq | hi
    · cases heq
      exact Or.inl henters.seen
    · exact Or.inr hi
  refine ⟨?_, ?_, ?_, ?_, ?_⟩
  · intro i hi
    rw [henters.log]
    rcases hnew i hi with heq | hi
    · exact heq.le
    · exact hseen i hi
  · intro i hi
    rw [henters.log, henters.pending]
    rcases hnew i hi with heq | hi
    · intro hlt
      exact absurd heq hlt.ne
    · exact hpending i hi
  · intro i hi hlends
    rw [henters.log]
    rcases hnew i hi with heq | hi
    · exact heq
    · exact hquiet i hi hlends
  · rw [henters.pending, henters.log]
    exact hlast
  · rw [henters.pending, henters.stack]
    intro hne
    obtain ⟨i, hi, hcb⟩ := haround hne
    exact ⟨i, mem_cons_of_mem _ hi, hcb⟩

theorem stashed_started (h : Stashed s) (env : ℕ) : Stashed (startGuest s env) := by
  obtain ⟨hseen, hpending, hquiet, hlast, haround⟩ := h
  have htail : ∀ i, .bridge i ∈ (startGuest s env).stack → .bridge i ∈ s.stack := by
    intro i hi
    rcases mem_cons.mp hi with heq | hi
    · cases heq
    · exact hi
  refine ⟨fun i hi => hseen i (htail i hi), fun i hi => hpending i (htail i hi),
    fun i hi => hquiet i (htail i hi), hlast, ?_⟩
  intro hne
  obtain ⟨i, hi, hcb⟩ := haround hne
  exact ⟨i, mem_cons_of_mem _ hi, hcb⟩

/-- With a new exit pending nothing else matters but the imports' places. -/
theorem stashed_exit {code : ExitCode} (hplaced : Placed s)
    (hstack : s.stack = .guest env :: stack)
    (hseen : ∀ i, .bridge i ∈ stack → i.seen ≤ (exits s.log).length) :
    Stashed (s.endGuest env stack (some code)) := by
  have hnested := hplaced.nested
  rw [hstack] at hnested
  obtain ⟨j, rest, htop, hlends⟩ := hnested.1
  have hj : .bridge j ∈ stack := by
    rw [htop]
    exact mem_cons_self ..
  refine ⟨?_, ?_, ?_, ?_, ?_⟩
  · intro i hi
    exact (hseen i hi).trans (Nat.le_succ _)
  · intro i _ _
    exact Option.some_ne_none code
  · intro i hi hi'
    rw [hnested.lends hi] at hi'
    cases hi'
  · intro code' hcode
    exact hcode
  · intro _
    exact ⟨j, hj, hnested.2.cbContext hj hlends⟩

theorem stashed_endGuest (hplaced : Placed s) (h : Stashed s)
    (hstack : s.stack = .guest env :: stack) : Stashed (s.endGuest env stack exit) := by
  have htail : ∀ i, .bridge i ∈ stack → .bridge i ∈ s.stack := by
    intro i hi
    rw [hstack]
    exact mem_cons_of_mem _ hi
  cases exit with
  | some code => exact stashed_exit hplaced hstack fun i hi => h.seen i (htail i hi)
  | none =>
    refine ⟨fun i hi => h.seen i (htail i hi), fun i hi => h.pending i (htail i hi),
      fun i hi => h.quiet i (htail i hi), h.last, ?_⟩
    intro hne
    obtain ⟨i, hi, hcb⟩ := h.around hne
    rw [hstack] at hi
    rcases mem_cons.mp hi with heq | hi
    · cases heq
    · exact ⟨i, hi, hcb⟩

/-- An import that raises nothing, or the outermost one. -/
theorem stashed_leave (h : Stashed s) (hstack : s.stack = .bridge frame :: stack)
    (hquiet : (returned s frame stack).raised = none ∨ stack = []) :
    Stashed (leave s frame stack) := by
  have hleft := leaveImport_left s frame stack
  have htail : ∀ i, .bridge i ∈ stack → .bridge i ∈ s.stack := by
    intro i hi
    rw [hstack]
    exact mem_cons_of_mem _ hi
  have hlog : exits (leave s frame stack).log = exits s.log := by
    show exits (s.leaveImport frame stack).log = _
    rw [hleft.log]
  have hpending : ∀ code, (leave s frame stack).pendingGuestExit = some code →
      frame.cbContext = false ∧ s.pendingGuestExit = some code := by
    intro code hcode
    have hleave := hleft.pending.symm.trans hcode
    cases hcb : frame.cbContext with
    | true =>
      rw [hcb] at hleave
      cases hleave
    | false =>
      rw [hcb] at hleave
      exact ⟨rfl, hleave⟩
  have hkept : s.pendingGuestExit = none ∨ frame.cbContext = false ∨ stack = [] := by
    rcases hquiet with hnone | hnil
    · unfold returned at hnone
      cases hcb : frame.cbContext with
      | true =>
        rw [hcb] at hnone
        exact Or.inl hnone
      | false => exact Or.inr (Or.inl rfl)
    · exact Or.inr (Or.inr hnil)
  rw [← stack_leave s frame stack] at htail
  refine ⟨?_, ?_, ?_, ?_, ?_⟩
  · rw [hlog]
    exact fun i hi => h.seen i (htail i hi)
  · rw [hlog]
    intro i hi hlt
    have hne := h.pending i (htail i hi) hlt
    rcases hkept with hnone | hcb | hnil
    · exact absurd hnone hne
    · show (s.leaveImport frame stack).pendingGuestExit ≠ none
      rw [hleft.pending, hcb]
      exact hne
    · rw [stack_leave, hnil] at hi
      cases hi
  · rw [hlog]
    exact fun i hi => h.quiet i (htail i hi)
  · rw [hlog]
    exact fun code hcode => h.last code (hpending code hcode).2
  · intro hne
    obtain ⟨code, hcode⟩ := Option.ne_none_iff_exists'.mp hne
    obtain ⟨hcb, hs⟩ := hpending code hcode
    obtain ⟨i, hi, hicb⟩ := h.around (by rw [hs]; exact Option.some_ne_none code)
    rw [hstack] at hi
    rw [stack_leave]
    rcases mem_cons.mp hi with heq | hi
    · cases heq
      rw [hcb] at hicb
      cases hicb
    · exact ⟨i, hi, hicb⟩

theorem Nested.atGuest (h : Nested (.bridge frame :: stack)) : atGuest stack = true := h.1

theorem stashed_finish (hplaced : Placed s) (h : Stashed s)
    (hstack : s.stack = .bridge frame :: stack) : Stashed (s.finish frame stack) := by
  have hnested := hplaced.nested
  rw [hstack] at hnested
  rcases finish_cases s frame stack with ⟨heq, hquiet⟩ | ⟨code, env, rest, _, hrest, heq⟩
  · rw [heq]
    apply stashed_leave h hstack
    rcases hquiet with hnone | hbridge | hnil
    · exact Or.inl hnone
    · rw [hnested.atGuest] at hbridge
      cases hbridge
    · exact Or.inr hnil
  · rw [heq]
    apply stashed_exit (placed_leave hplaced hstack)
    · rw [stack_leave, hrest]
    · intro i hi
      show i.seen ≤ (exits (s.leaveImport frame stack).log).length
      rw [(leaveImport_left s frame stack).log]
      apply h.seen
      rw [hstack, hrest]
      exact mem_cons_of_mem _ (mem_cons_of_mem _ hi)

theorem stashed_step (hs : step s a = some s') (hplaced : Placed s) (h : Stashed s) : Stashed s' := by
  cases step_cases hs with
  | enters _ _ henters => exact stashed_enters h henters
  | created _ _ => exact { h with }
  | idle _ => exact h
  | started _ _ => exact stashed_started h _
  | ended hstack => exact stashed_endGuest hplaced h hstack
  | finished hstack => exact stashed_finish hplaced h hstack

/-! ## What the imports return -/

/-- What holds of every import that returns. -/
structure Return.Sound (r : Return) : Prop where
  depth : r.depth.2 = r.depth.1
  active : Agree r.active.1 r.active.2
  raises : r.exits ≠ [] → r.cbContext = true ∧ ∃ code ∈ r.exits, r.raised = some code
  outermost : r.outermost = true → r.pending = none

/-- It raises no exit but one of a guest function that has exited during it. -/
structure Return.Exact (r : Return) : Prop extends Return.Sound r where
  quiet : r.exits = [] → r.raised = none

theorem sound_returned (hplaced : Placed s) (hinstalled : Installed s) (h : Stashed s)
    (hstack : s.stack = .bridge frame :: stack) : (returned s frame stack).Sound := by
  have hleft := leaveImport_left s frame stack
  have hnested := hplaced.nested
  have hdepth := hplaced.depth
  rw [hstack] at hnested hdepth
  have hframe : .bridge frame ∈ s.stack := by
    rw [hstack]
    exact mem_cons_self ..
  refine ⟨?_, agree_returned hinstalled hstack, ?_, ?_⟩
  · show (s.leaveImport frame stack).callbackDepth = frame.depth
    rw [hleft.callbackDepth, hdepth, hnested.2.1]
    rfl
  · intro hne
    have hlt : frame.seen < (exits s.log).length := by
      by_contra hge
      apply hne
      show (exits s.log).take _ = []
      rw [Nat.sub_eq_zero_of_le (Nat.le_of_not_lt hge), List.take_zero]
    have hcb : frame.cbContext = true := by
      cases hlends : frame.lends with
      | true => exact hnested.2.2.1 hlends
      | false => exact absurd (h.quiet frame hframe hlends) hlt.ne
    obtain ⟨code, hcode⟩ := Option.ne_none_iff_exists'.mp (h.pending frame hframe hlt)
    refine ⟨hcb, code, ?_, ?_⟩
    · -- the last exit is one of those during the import
      show code ∈ (exits s.log).take ((exits s.log).length - frame.seen)
      have hlast := h.last code hcode
      cases hexits : exits s.log with
      | nil =>
        rw [hexits] at hlt
        exact absurd hlt (Nat.not_lt_zero _)
      | cons c rest =>
        rw [hexits] at hlast hlt
        cases hlast
        rw [← Nat.succ_pred_eq_of_pos (Nat.sub_pos_of_lt hlt), List.take_succ_cons]
        exact mem_cons_self ..
    · show (if frame.cbContext then s.pendingGuestExit else none) = some code
      rw [hcb, hcode]
      rfl
  · intro hout
    have hnil : stack = [] := List.isEmpty_iff.mp hout
    show (s.leaveImport frame stack).pendingGuestExit = none
    rw [hleft.pending]
    cases hcb : frame.cbContext with
    | true => rfl
    | false =>
      by_contra hne
      obtain ⟨i, hi, hicb⟩ := h.around hne
      rw [hstack, hnil] at hi
      cases List.mem_singleton.mp hi
      rw [hcb] at hicb
      cases hicb

/-! ## Runs -/

structure Delivers (s : State) : Prop where
  placed : Placed s
  installed : Installed s
  stashed : Stashed s
  sound : ∀ r, .returned r ∈ s.log → r.Sound

theorem delivers_init : Delivers {} where
  placed := ⟨trivial, rfl, rfl, Nat.zero_le _⟩
  installed := by
    refine ⟨trivial, fun env h => absurd rfl h, ?_⟩
    intro i hi
    cases hi
  stashed := by
    exact ⟨nofun, nofun, nofun, nofun, fun h => absurd rfl h⟩
  sound := by
    intro r hr
    cases hr

/-- A return is logged by the step that makes it. -/
theorem returned_step (hs : step s a = some s') {r : Return} (hr : .returned r ∈ s'.log) :
    .returned r ∈ s.log ∨
      ∃ frame stack, s.stack = .bridge frame :: stack ∧ r = returned s frame stack := by
  cases step_cases hs with
  | enters _ _ henters =>
    rw [henters.log] at hr
    exact Or.inl hr
  | created _ _ => exact Or.inl hr
  | idle _ => exact Or.inl hr
  | started _ _ =>
    rcases mem_cons.mp hr with heq | hr
    · cases heq
    · exact Or.inl hr
  | ended hstack =>
    rename_i how env stack
    obtain ⟨_, _, _, _, _, _, hlog⟩ := endGuest_eq s env stack how.exit
    rw [hlog] at hr
    cases hexit : how.exit with
    | none =>
      rw [hexit] at hr
      exact Or.inl hr
    | some code =>
      rw [hexit] at hr
      rcases mem_cons.mp hr with heq | hr
      · cases heq
      · exact Or.inl hr
  | finished hstack =>
    rename_i frame stack
    have hleave : .returned r ∈ (leave s frame stack).log → .returned r ∈ s.log ∨
        ∃ frame stack, s.stack = .bridge frame :: stack ∧ r = returned s frame stack := by
      intro hr
      rcases mem_cons.mp hr with heq | hr
      · cases heq
        exact Or.inr ⟨frame, stack, hstack, rfl⟩
      · rw [(leaveImport_left s frame stack).log] at hr
        exact Or.inl hr
    rcases finish_cases s frame stack with ⟨heq, _⟩ | ⟨code, env, rest, _, _, heq⟩
    · rw [heq] at hr
      exact hleave hr
    · rw [heq] at hr
      rcases mem_cons.mp hr with heq | hr
      · cases heq
      · exact hleave hr

theorem delivers_step (hs : step s a = some s') (h : Delivers s) : Delivers s' := by
  obtain ⟨hplaced, hinstalled, hstashed, hsound⟩ := h
  refine ⟨placed_step hs hplaced, installed_step hs hinstalled, stashed_step hs hplaced hstashed, ?_⟩
  intro r hr
  rcases returned_step hs hr with hr | ⟨frame, stack, hstack, rfl⟩
  · exact hsound r hr
  · exact sound_returned hplaced hinstalled hstashed hstack

/-- No import is called while an exit is pending that would raise it. -/
def CallsClean (s : State) (a : Action) : Prop :=
  callsCbContext s a = true → s.pendingGuestExit = none

instance (s : State) (a : Action) : Decidable (CallsClean s a) :=
  inferInstanceAs (Decidable (_ → _))

/-- What is pending has become so inside every import that may raise it. -/
structure DeliversExactly (s : State) : Prop extends Delivers s where
  inside : s.pendingGuestExit ≠ none → ∀ i, .bridge i ∈ s.stack → i.cbContext = true →
    i.seen < (exits s.log).length
  exact : ∀ r, .returned r ∈ s.log → r.Exact

theorem exact_returned (h : DeliversExactly s) (hstack : s.stack = .bridge frame :: stack) :
    (returned s frame stack).Exact where
  toSound := sound_returned h.placed h.installed h.stashed hstack
  quiet := by
    intro hnil
    cases hcb : frame.cbContext with
    | false =>
      show (if frame.cbContext then s.pendingGuestExit else none) = none
      rw [hcb]
      rfl
    | true =>
      show (if frame.cbContext then s.pendingGuestExit else none) = none
      rw [hcb]
      by_contra hne
      have hframe : .bridge frame ∈ s.stack := by
        rw [hstack]
        exact mem_cons_self ..
      have hlt := h.inside hne frame hframe hcb
      -- something has exited since the import was called
      rcases List.take_eq_nil_iff.mp hnil with hzero | hempty
      · omega
      · rw [hempty] at hlt
        exact absurd hlt (Nat.not_lt_zero _)

theorem inside_step (hs : step s a = some s') (hclean : CallsClean s a) (h : DeliversExactly s) :
    s'.pendingGuestExit ≠ none → ∀ i, .bridge i ∈ s'.stack → i.cbContext = true →
      i.seen < (exits s'.log).length := by
  have hinside := h.inside
  have hseen := h.stashed.seen
  cases step_cases hs with
  | enters _ hcb henters =>
    intro hne i hi hicb
    rw [henters.pending] at hne
    rw [henters.stack] at hi
    rw [henters.log]
    rcases mem_cons.mp hi with heq | hi
    · cases heq
      exact absurd (hclean (hcb hicb)) hne
    · exact hinside hne i hi hicb
  | created _ _ => exact hinside
  | idle _ => exact hinside
  | started _ _ =>
    intro hne i hi hicb
    rcases mem_cons.mp hi with heq | hi
    · cases heq
    · exact hinside hne i hi hicb
  | ended hstack =>
    rename_i how env stack
    intro hne i hi hicb
    have hi' : .bridge i ∈ s.stack := by
      rw [hstack]
      rw [(endGuest_eq s env stack how.exit).1] at hi
      exact mem_cons_of_mem _ hi
    cases hexit : how.exit with
    | none =>
      rw [hexit] at hne
      exact hinside hne i hi' hicb
    | some code => exact Nat.lt_succ_of_le (hseen i hi')
  | finished hstack =>
    rename_i frame stack
    have hleft := leaveImport_left s frame stack
    rcases finish_cases s frame stack with ⟨heq, _⟩ | ⟨code, env, rest, _, hrest, heq⟩
    · rw [heq]
      intro hne i hi hicb
      rw [stack_leave] at hi
      have hi' : .bridge i ∈ s.stack := by
        rw [hstack]
        exact mem_cons_of_mem _ hi
      have hne' : s.pendingGuestExit ≠ none := by
        intro hnone
        apply hne
        show (s.leaveImport frame stack).pendingGuestExit = none
        rw [hleft.pending, hnone]
        split <;> rfl
      show i.seen < (exits (s.leaveImport frame stack).log).length
      rw [hleft.log]
      exact hinside hne' i hi' hicb
    · rw [heq]
      intro _ i hi _
      rw [(endGuest_eq _ env rest _).1] at hi
      show i.seen < (exits (s.leaveImport frame stack).log).length + 1
      rw [hleft.log]
      apply Nat.lt_succ_of_le (hseen i _)
      rw [hstack, hrest]
      exact mem_cons_of_mem _ (mem_cons_of_mem _ hi)

theorem deliversExactly_step (hs : step s a = some s') (hclean : CallsClean s a)
    (h : DeliversExactly s) : DeliversExactly s' := by
  refine ⟨delivers_step hs h.toDelivers, inside_step hs hclean h, ?_⟩
  intro r hr
  rcases returned_step hs hr with hr | ⟨frame, stack, hstack, rfl⟩
  · exact h.exact r hr
  · exact exact_returned h hstack

/-- The engine calls a callback of env 1. -/
def callsBack : Action := .dispatch ⟨.callback, 1, false, true, true⟩

def exitsSeven : List Action :=
  [.callPlain, .createEnv 1, .finish, .callCbContext 1, callsBack, .guestEnds (.exited 7), .finish]

def goesOn : List Action :=
  [.callPlain, .createEnv 1, .finish, .callCbContext 1, callsBack, .guestEnds (.exited 7), callsBack,
    .callCbContext 1, .finish]

/-- **Exits are delivered** in every run in which no import is called while an exit is pending that
    it would raise: every import raises an exit of its own exactly if a guest function has exited
    during it, and leaves the callback depth, the contexts and, if it is the outermost one, the
    pending exit as it should. -/
theorem exits_delivered {as : List Action} (hr : run step {} as = some s)
    (hclean : AllSteps step CallsClean {} as) :
    s.callbackDepth ≤ maxCallbackDepth ∧ ∀ r, .returned r ∈ s.log → r.Exact := by
  have hinit : DeliversExactly {} :=
    ⟨delivers_init, fun hne => absurd rfl hne, nofun⟩
  have hfinal : DeliversExactly s :=
    invariant_of_allSteps (fun _ _ _ hs hok h => deliversExactly_step hs hok h) hr hclean hinit
  exact ⟨hfinal.placed.bound, hfinal.exact⟩

/-- A guest function called from inside an import exits, and the import raises the exit. -/
theorem seven_delivered : ∃ s, run step {} exitsSeven = some s ∧
    s.callbackDepth ≤ maxCallbackDepth ∧ ∀ r, .returned r ∈ s.log → r.Exact := by
  have hclean : AllSteps step CallsClean {} exitsSeven := by decide
  exact ⟨_, rfl, exits_delivered (show run step {} exitsSeven = some _ from rfl) hclean⟩

/-- The script goes on after the exit and calls the guest again. The import that function calls
    raises the exit, though no guest function has exited during it. -/
theorem seven_raised_twice : ¬ ∀ as s, run step {} as = some s →
    s.callbackDepth ≤ maxCallbackDepth ∧ ∀ r, .returned r ∈ s.log → r.Exact := by
  intro h
  obtain ⟨_, hexact⟩ := h goesOn _ (show run step {} goesOn = some _ from rfl)
  have hquiet := (hexact _ (mem_cons_of_mem _ (mem_cons_self ..))).quiet rfl
  cases hquiet

/-- All but the last holds of every run. -/
theorem exits_delivered_outwards {as : List Action} (hr : run step {} as = some s) :
    s.callbackDepth ≤ maxCallbackDepth ∧ ∀ r, .returned r ∈ s.log → r.Sound := by
  have hfinal : Delivers s := invariant (fun _ _ _ hs h => delivers_step hs h) hr delivers_init
  exact ⟨hfinal.placed.bound, hfinal.sound⟩

theorem goesOn_delivered_outwards : ∃ s, run step {} goesOn = some s ∧
    s.callbackDepth ≤ maxCallbackDepth ∧ ∀ r, .returned r ∈ s.log → r.Sound :=
  ⟨_, rfl, exits_delivered_outwards (show run step {} goesOn = some _ from rfl)⟩

end WasmerNapi.Guest.Callback
