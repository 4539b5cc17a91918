import WasmerNapi.HostJs.Scopes

/-!
# Callbacks into the guest, run and deferred

A function the guest made is a JavaScript closure: it opens a frame, inserts the arguments,
keeps them under a callback info id and calls the guest, which may call JavaScript again,
open and close scopes, raise an exception and return any id. Afterwards the closure forgets
the info and closes its frame. While the guest's store is busy the call is deferred: its
frame stays open, it waits in `pending_callbacks`, and a later drain runs it and settles the
promise the caller got.

The frame is closed only if it is the innermost one, and the guest says "deferred" by a
result id, so a callback gives its frame back as long as nothing opened since is still open
and no result is that id. `callbacks_sound` is the statement over every run whose steps meet
that.
-/

namespace WasmerNapi.HostJs

/-- `CALLBACK_DEFERRED`: a value handle id reserved for callbacks that did not run. -/
def callbackDeferred : ℕ := 2 ^ 32 - 1

structure CallbackReg where
  guestEnv : ℕ
  wasmFnPtr : ℕ
  data : ℕ

structure CallbackInfo where
  args : List ℕ
  thisValue : ℕ
  newTarget : ℕ
  data : ℕ

/-- A call from JavaScript and what was made for it; a `PendingCallback` while it waits, with
    the promise named by the serial number. -/
structure Call where
  registration : CallbackReg
  cbinfo : ℕ
  valueFrame : ℕ
  /-- Calls are numbered in the order they are made. -/
  serial : ℕ
  /-- The frames that were open before. -/
  before : List ℕ
  /-- The ids it is given, with their values. -/
  given : List (ℕ × JsValue)

/-- How many frames are open when the call's own is the innermost. -/
def Call.depth (c : Call) : ℕ := c.before.length + 1

/-- A callback whose guest code is on the stack. -/
structure Running where
  call : Call
  /-- Run by a drain. -/
  deferred : Bool
  /-- The exception this run has raised and not cleared. -/
  raised : Option JsValue

inductive Outcome
  | resolved (value : JsValue)
  | rejected (error : JsValue)

def Outcome.of (error : Option JsValue) (value : JsValue) : Outcome :=
  match error with
  | some e => .rejected e
  | none => .resolved value

/-- A callback that has completed: its own outcome, and the frames and the info entry it
    left. -/
structure Completion where
  call : Call
  deferred : Bool
  outcome : Outcome
  frames : List ℕ
  info : Option CallbackInfo

structure HostJsEnv where
  table : World := {}
  callbackInfos : AList fun _ : ℕ => CallbackInfo := ∅
  nextCbinfo : ℕ := 1
  pendingCallbacks : List Call := []
  lastException : Option JsValue := none
  /-- Innermost first. -/
  running : List Running := []
  nextSerial : ℕ := 0
  /-- The deferred calls, in the order they were made. -/
  deferredCalls : List ℕ := []
  settled : List (ℕ × Outcome) := []
  completed : List Completion := []

namespace World

def insertValue (w : World) (value : JsValue) : Option (ℕ × World) :=
  (w.agent.insert value).map fun r => (r.1, w.give value r)

def insertAll : World → List JsValue → Option (List ℕ × World)
  | w, [] => some ([], w)
  | w, value :: values =>
    match w.insertValue value with
    | none => none
    | some (id, w) => (insertAll w values).map fun r => (id :: r.1, r.2)

/-- `new.target` is passed on only when there is one. -/
def insertNewTarget (w : World) (newTarget : JsValue) : Option (ℕ × World) :=
  if newTarget = .undefined then some (0, w) else w.insertValue newTarget

end World

namespace HostJsEnv

/-- What the closure does before it calls the guest. -/
def enter (s : HostJsEnv) (registration : CallbackReg) (args : List JsValue)
    (this newTarget : JsValue) : Option (Call × HostJsEnv) :=
  let opened := s.table.agent.openValueFrame
  match World.insertAll { s.table with agent := opened.2 } args with
  | none => none
  | some (ids, table) =>
    match table.insertValue this with
    | none => none
    | some (thisValue, table) =>
      match table.insertNewTarget newTarget with
      | none => none
      | some (target, table) =>
        let call : Call := {
          registration
          cbinfo := s.nextCbinfo
          valueFrame := opened.1
          serial := s.nextSerial
          before := s.table.frameIds
          given := (thisValue, this) :: ids.zip args ++
            if newTarget = .undefined then [] else [(target, newTarget)] }
        let info : CallbackInfo :=
          { args := ids, thisValue, newTarget := target, data := registration.data }
        some (call, { s with
          table
          callbackInfos := s.callbackInfos.insert s.nextCbinfo info
          nextCbinfo := Word.saturatingAdd 32 s.nextCbinfo 1
          nextSerial := s.nextSerial + 1 })

/-- The guest's code returns. A result that says "deferred" puts the call off, whether the
    code has run or not; a drained call goes back to the front of the queue. -/
def finish (s : HostJsEnv) (result : ℕ) : Option HostJsEnv :=
  match s.running with
  | [] => none
  | r :: rest =>
    if result = callbackDeferred then
      if r.deferred then
        some { s with running := rest, pendingCallbacks := r.call :: s.pendingCallbacks }
      else
        some { s with
          running := rest
          pendingCallbacks := s.pendingCallbacks ++ [r.call]
          deferredCalls := s.deferredCalls ++ [r.call.serial] }
    else
      let value := (s.table.agent.get result).getD .undefined
      let infos := s.callbackInfos.erase r.call.cbinfo
      let table := s.table.closeHandleScope r.call.valueFrame
      some { s with
        table
        callbackInfos := infos
        lastException := none
        running := rest
        settled :=
          if r.deferred then s.settled ++ [(r.call.serial, Outcome.of s.lastException value)]
          else s.settled
        completed := s.completed ++ [{
          call := r.call
          deferred := r.deferred
          outcome := Outcome.of r.raised value
          frames := table.frameIds
          info := infos.lookup r.call.cbinfo }] }

/-- `last_exception` is set or taken by the code that runs. -/
def setException (s : HostJsEnv) (e : Option JsValue) : HostJsEnv :=
  { s with
    lastException := e
    running := match s.running with
      | [] => []
      | r :: rest => { r with raised := e } :: rest }

inductive Act
  /-- The guest or the bridge inserts a value, opens or closes a scope, escapes a value. -/
  | table (act : Action)
  | setException (e : Option JsValue)
  /-- JavaScript calls a function of the guest's, whose store is free. -/
  | call (registration : CallbackReg) (args : List JsValue) (this newTarget : JsValue)
  /-- The same while the store is busy. -/
  | callDeferred (registration : CallbackReg) (args : List JsValue) (this newTarget : JsValue)
  | finish (result : ℕ)
  /-- A drain takes the first pending call and the guest runs it. -/
  | drain
  /-- A drain takes it and the store is still busy. -/
  | drainDeferred

def step (s : HostJsEnv) : Act → Option HostJsEnv
  | .table act => (s.table.step act).map fun table => { s with table }
  | .setException e => some (s.setException e)
  | .call registration args this newTarget =>
    (s.enter registration args this newTarget).map fun r =>
      { r.2 with running := ⟨r.1, false, none⟩ :: r.2.running }
  | .callDeferred registration args this newTarget =>
    (s.enter registration args this newTarget).map fun r =>
      { r.2 with
        pendingCallbacks := r.2.pendingCallbacks ++ [r.1]
        deferredCalls := r.2.deferredCalls ++ [r.1.serial] }
  | .finish result => s.finish result
  | .drain =>
    match s.pendingCallbacks with
    | [] => none
    | call :: rest =>
      some { s with pendingCallbacks := rest, running := ⟨call, true, none⟩ :: s.running }
  | .drainDeferred =>
    match s.pendingCallbacks with
    | [] => none
    | call :: rest => some { s with pendingCallbacks := call :: rest }

/-- The calls that are not completed. -/
def calls (s : HostJsEnv) : List Call := s.running.map Running.call ++ s.pendingCallbacks

/-- The deferred calls that have completed, in that order. -/
def done (s : HostJsEnv) : List Completion := s.completed.filter Completion.deferred

/-- The deferred calls whose guest code is on the stack. -/
def drained (s : HostJsEnv) : List Running := s.running.filter Running.deferred

/-- What a callback may rely on. -/
structure Sound (s : HostJsEnv) : Prop where
  /-- A callback that completed left the frames that were open before it, and no info entry. -/
  frames : ∀ c ∈ s.completed, c.frames = c.call.before ∧ c.info = none
  /-- The ids of a deferred call are valid while it waits. -/
  given : ∀ c ∈ s.pendingCallbacks, ∀ g ∈ c.given, s.table.agent.get g.1 = some g.2
  /-- Every deferred call has completed, runs or waits: once, and in the order they were made. -/
  order : s.deferredCalls = s.done.map (fun c => c.call.serial) ++
    s.drained.map (fun r => r.call.serial) ++ s.pendingCallbacks.map Call.serial
  once : s.deferredCalls.Pairwise (· < ·)
  /-- The promise of each that completed was settled once, with its own run's outcome. -/
  settled : s.settled = s.done.map fun c => (c.call.serial, c.outcome)

/-- Frames are closed by the code that opened them: no scope is closed that is the frame of a
    call not yet completed, and a callback returns with its own frame innermost. No result is
    the reserved id. A drain does not start inside a deferred call, and neither it nor a call
    made from one starts with an exception pending. -/
def Safe (s : HostJsEnv) : Act → Prop
  | .table (.closeHandleScope scope) => s.table.frameIds.head? = some scope →
    ∀ c ∈ s.calls, c.depth < s.table.frameIds.length
  | .call .. => s.lastException ≠ none → s.drained = []
  | .finish result => result ≠ callbackDeferred ∧
    ∀ r ∈ s.running.head?, r.call.depth = s.table.frameIds.length
  | .drain => s.lastException = none ∧ s.drained = []
  | _ => True

instance (s : HostJsEnv) : ∀ act, Decidable (Safe s act)
  | .table (.insert _) => isTrue trivial
  | .table (.insertPrimitive _) => isTrue trivial
  | .table .openHandleScope => isTrue trivial
  | .table (.closeHandleScope _) => inferInstanceAs (Decidable (_ → ∀ c ∈ s.calls, _))
  | .table (.escapeHandle _ _) => isTrue trivial
  | .setException _ => isTrue trivial
  | .call .. => inferInstanceAs (Decidable (s.lastException ≠ none → _))
  | .callDeferred .. => isTrue trivial
  | .finish _ => inferInstanceAs (Decidable (_ ∧ ∀ r ∈ s.running.head?, _))
  | .drain => inferInstanceAs (Decidable (s.lastException = none ∧ _))
  | .drainDeferred => isTrue trivial

/-- Only the innermost run can have an exception pending, of those a drain has started. -/
def Raised (lastException : Option JsValue) : List Running → Prop
  | [] => True
  | r :: rest => (r.deferred = true → r.raised = lastException) ∧
    ∀ q ∈ rest, q.deferred = true → q.raised = none

/-- What a run of safe steps keeps, besides. -/
structure Inv (s : HostJsEnv) : Prop where
  frames : ∀ c ∈ s.completed, c.frames = c.call.before ∧ c.info = none
  order : s.deferredCalls = s.done.map (fun c => c.call.serial) ++
    s.drained.map (fun r => r.call.serial) ++ s.pendingCallbacks.map Call.serial
  once : s.deferredCalls.Pairwise (· < ·)
  settled : s.settled = s.done.map fun c => (c.call.serial, c.outcome)
  keeps : ∃ leaked, s.table.Keeps leaked
  /-- The frame of a call not yet completed is on the stack, over those it found. -/
  stack : ∀ c ∈ s.calls, c.valueFrame :: c.before <:+ s.table.frameIds
  apart : (s.calls.map Call.depth).Nodup
  granted : ∀ c ∈ s.pendingCallbacks, ∀ g ∈ c.given, ⟨g.1, c.depth, g.2⟩ ∈ s.table.granted
  serials : ∀ n ∈ s.deferredCalls, n < s.nextSerial
  raised : Raised s.lastException s.running

variable {s u : HostJsEnv}

theorem Inv.sound (h : Inv s) : Sound s := by
  refine { h with given := ?_ }
  intro c hc g hg
  obtain ⟨leaked, hkeeps⟩ := h.keeps
  exact (hkeeps.granted _ (h.granted c hc g hg)).2.2

end HostJsEnv

/-! ## The frame stack and the grants -/

namespace World

variable {w u : World} {leaked : List ℕ}

/-- A call's frame stays on the stack, unless that is the frame closed. -/
theorem step_stack {act : Action} (hnext : w.agent.nextValueHandle < 2 ^ 32)
    (hstep : step w act = some u) {c : Call} (hc : c.valueFrame :: c.before <:+ w.frameIds)
    (hsafe : ∀ scope, act = .closeHandleScope scope → w.frameIds.head? = some scope →
      c.depth < w.frameIds.length) : c.valueFrame :: c.before <:+ u.frameIds := by
  have hids := step_frameIds hnext hstep
  cases act with
  | insert value => exact hids ▸ hc
  | insertPrimitive n => exact hids ▸ hc
  | escapeHandle scope escapee => exact hids ▸ hc
  | openHandleScope => exact hids ▸ hc.trans (List.suffix_cons ..)
  | closeHandleScope scope =>
    rw [hids, framesAfter]
    split
    · next hhead =>
      have hlt := hsafe scope rfl hhead
      cases hw : w.frameIds with
      | nil =>
        rw [hw] at hhead
        cases hhead
      | cons id ids =>
        rw [hw] at hc hlt
        rcases List.suffix_cons_iff.mp hc with heq | htail
        · have hlen := congrArg List.length heq
          rw [List.length_cons] at hlen
          unfold Call.depth at hlt
          omega
        · exact htail
    · exact hc

/-- A grant lasts as long as the frame it was made in. -/
theorem step_granted {act : Action} (hstep : step w act = some u) {g : Grant} (hg : g ∈ w.granted)
    (hdepth : g.depth ≤ u.frameIds.length) : g ∈ u.granted := by
  cases act with
  | insert value =>
    obtain ⟨r, _, rfl⟩ := Option.map_eq_some_iff.mp hstep
    exact List.mem_cons_of_mem _ hg
  | insertPrimitive n =>
    obtain ⟨r, _, rfl⟩ := Option.map_eq_some_iff.mp hstep
    exact List.mem_cons_of_mem _ hg
  | openHandleScope =>
    cases hstep
    exact hg
  | escapeHandle scope escapee =>
    cases hstep
    exact hg
  | closeHandleScope scope =>
    cases hstep
    apply List.mem_filter.mpr
    refine ⟨hg, decide_eq_true ?_⟩
    rw [frameIds, List.length_map] at hdepth
    exact hdepth

/-- What an insert keeps of the table, and what it grants. -/
structure Inserted (w u : World) : Prop where
  keeps : ∃ leaked, u.Keeps leaked
  frameIds : u.frameIds = w.frameIds
  granted : ∀ g ∈ w.granted, g ∈ u.granted

theorem Inserted.trans {v : World} (h : Inserted w u) (h' : Inserted u v) : Inserted w v :=
  ⟨h'.keeps, h'.frameIds.trans h.frameIds, fun g hg => h'.granted g (h.granted g hg)⟩

theorem insertValue_spec (h : w.Keeps leaked) {value : JsValue} {id : ℕ}
    (hi : w.insertValue value = some (id, u)) :
    Inserted w u ∧ ⟨id, w.frameIds.length, value⟩ ∈ u.granted := by
  obtain ⟨⟨i, a⟩, hins, heq⟩ := Option.map_eq_some_iff.mp hi
  obtain ⟨rfl, rfl⟩ := Prod.mk.inj heq
  have hstep : step w (.insert value) = some (w.give value (i, a)) := by
    rw [step, hins]
    rfl
  obtain ⟨leaked', hkeeps, _⟩ := h.step hstep
  have hids := step_frameIds h.counters.1 hstep
  refine ⟨⟨⟨leaked', hkeeps⟩, hids, fun g hg => List.mem_cons_of_mem _ hg⟩, ?_⟩
  have hlen : a.valueFrames.length = w.frameIds.length := by
    rw [← show (w.give value (i, a)).frameIds = w.frameIds from hids, frameIds, List.length_map]
    rfl
  rw [give, ← hlen]
  exact List.mem_cons_self ..

theorem insertAll_spec {values : List JsValue} {ids : List ℕ} (h : w.Keeps leaked)
    (hi : w.insertAll values = some (ids, u)) :
    Inserted w u ∧ ∀ g ∈ ids.zip values, ⟨g.1, w.frameIds.length, g.2⟩ ∈ u.granted := by
  induction values generalizing w leaked ids with
  | nil =>
    obtain ⟨rfl, rfl⟩ := Prod.mk.inj (Option.some.inj hi)
    exact ⟨⟨⟨leaked, h⟩, rfl, fun g hg => hg⟩, nofun⟩
  | cons value values ih =>
    unfold insertAll at hi
    cases hv : w.insertValue value with
    | none =>
      rw [hv] at hi
      cases hi
    | some r =>
      obtain ⟨id, v⟩ := r
      rw [hv] at hi
      obtain ⟨⟨ids', u'⟩, hi', heq⟩ := Option.map_eq_some_iff.mp hi
      obtain ⟨rfl, rfl⟩ := Prod.mk.inj heq
      obtain ⟨hfirst, hgrant⟩ := insertValue_spec h hv
      obtain ⟨leaked', hkeeps⟩ := hfirst.keeps
      obtain ⟨hrest, hgrants⟩ := ih hkeeps hi'
      refine ⟨hfirst.trans hrest, ?_⟩
      intro g hg
      rcases List.mem_cons.mp hg with rfl | hg
      · exact hrest.granted _ hgrant
      · exact hfirst.frameIds ▸ hgrants g hg

theorem insertNewTarget_spec (h : w.Keeps leaked) {newTarget : JsValue} {id : ℕ}
    (hi : w.insertNewTarget newTarget = some (id, u)) :
    Inserted w u ∧ ∀ g ∈ (if newTarget = .undefined then [] else [(id, newTarget)]),
      ⟨g.1, w.frameIds.length, g.2⟩ ∈ u.granted := by
  unfold insertNewTarget at hi
  split at hi
  · next hnone =>
    obtain ⟨rfl, rfl⟩ := Prod.mk.inj (Option.some.inj hi)
    refine ⟨⟨⟨leaked, h⟩, rfl, fun g hg => hg⟩, fun g hg => ?_⟩
    rw [if_pos hnone] at hg
    cases hg
  · next hsome =>
    obtain ⟨hins, hgrant⟩ := insertValue_spec h hi
    refine ⟨hins, fun g hg => ?_⟩
    rw [if_neg hsome] at hg
    obtain rfl := List.mem_singleton.mp hg
    exact hgrant

end World

/-! ## Steps -/

namespace HostJsEnv

open HostJs.World Run

variable {s u : HostJsEnv}

theorem Inv.init : Inv {} where
  frames := nofun
  order := rfl
  once := List.Pairwise.nil
  settled := rfl
  keeps := ⟨[], Keeps.init⟩
  stack := nofun
  apart := List.nodup_nil
  granted := nofun
  serials := nofun
  raised := trivial

/-- Its frame is on the stack, so a call's depth is a depth of the stack. -/
theorem Inv.depth_le (h : Inv s) {c : Call} (hc : c ∈ s.calls) :
    c.depth ≤ s.table.frameIds.length := by
  have hlen := (h.stack c hc).length_le
  rw [List.length_cons] at hlen
  exact hlen

theorem mem_calls_of_pending {c : Call} (hc : c ∈ s.pendingCallbacks) : c ∈ s.calls :=
  List.mem_append_right _ hc

theorem Inv.table (h : Inv s) {act : Action} {w : World} (hstep : s.table.step act = some w)
    (hsafe : Safe s (.table act)) : Inv { s with table := w } := by
  obtain ⟨leaked, hkeeps⟩ := h.keeps
  obtain ⟨leaked', hkeeps', _⟩ := hkeeps.step hstep
  have hstack : ∀ c ∈ s.calls, c.valueFrame :: c.before <:+ w.frameIds := by
    intro c hc
    apply step_stack hkeeps.counters.1 hstep (h.stack c hc)
    rintro scope rfl hhead
    exact hsafe hhead c hc
  refine { h with keeps := ⟨leaked', hkeeps'⟩, stack := hstack, granted := ?_ }
  intro c hc g hg
  apply step_granted hstep (h.granted c hc g hg)
  have hlen := (hstack c (mem_calls_of_pending hc)).length_le
  rw [List.length_cons] at hlen
  exact hlen

theorem Inv.setException (h : Inv s) (e : Option JsValue) : Inv (s.setException e) := by
  have hraised := h.raised
  cases hr : s.running with
  | nil =>
    refine { h with order := ?_, stack := ?_, apart := ?_, raised := ?_ }
    · simpa [HostJsEnv.setException, done, drained, hr] using h.order
    · simpa [HostJsEnv.setException, calls, hr] using h.stack
    · simpa [HostJsEnv.setException, calls, hr] using h.apart
    · simp only [HostJsEnv.setException, hr]
      trivial
  | cons r rest =>
    rw [hr] at hraised
    have hdrained : (s.setException e).drained.map (fun r => r.call.serial) =
        s.drained.map fun r => r.call.serial := by
      simp only [HostJsEnv.setException, drained, hr, List.filter_cons]
      split <;> rfl
    have hcalls : (s.setException e).calls = s.calls := by
      simp [HostJsEnv.setException, calls, hr]
    refine { h with order := ?_, stack := ?_, apart := ?_, raised := ?_ }
    · rw [hdrained]
      exact h.order
    · rw [hcalls]
      exact h.stack
    · rw [hcalls]
      exact h.apart
    · simp only [HostJsEnv.setException, hr]
      exact ⟨fun _ => rfl, hraised.2⟩

/-- What the closure has made when it calls the guest: a call with a frame of its own over
    those that were open. -/
structure Entered (s : HostJsEnv) (c : Call) (u : HostJsEnv) : Prop where
  keeps : ∃ leaked, u.table.Keeps leaked
  frameIds : u.table.frameIds = c.valueFrame :: c.before
  before : c.before = s.table.frameIds
  granted : ∀ g ∈ s.table.granted, g ∈ u.table.granted
  given : ∀ g ∈ c.given, ⟨g.1, c.depth, g.2⟩ ∈ u.table.granted
  serial : c.serial = s.nextSerial
  rest : ∃ table infos cbinfo, u = { s with
    table := table, callbackInfos := infos, nextCbinfo := cbinfo, nextSerial := s.nextSerial + 1 }

theorem enter_spec {leaked : List ℕ} (h : s.table.Keeps leaked) {registration : CallbackReg}
    {args : List JsValue} {this newTarget : JsValue} {c : Call}
    (he : s.enter registration args this newTarget = some (c, u)) : Entered s c u := by
  unfold enter at he
  dsimp only at he
  have hopened := h.openHandleScope
  have hids : World.frameIds { s.table with agent := s.table.agent.openValueFrame.2 } =
      s.table.agent.openValueFrame.1 :: s.table.frameIds := rfl
  set w := { s.table with agent := s.table.agent.openValueFrame.2 }
  split at he
  · cases he
  · next ids w₁ hargs =>
    obtain ⟨hins₁, hgiven₁⟩ := insertAll_spec hopened hargs
    obtain ⟨_, hkeeps₁⟩ := hins₁.keeps
    split at he
    · cases he
    · next thisValue w₂ hthis =>
      obtain ⟨hins₂, hgiven₂⟩ := insertValue_spec hkeeps₁ hthis
      obtain ⟨_, hkeeps₂⟩ := hins₂.keeps
      split at he
      · cases he
      · next target w₃ htarget =>
        obtain ⟨hins₃, hgiven₃⟩ := insertNewTarget_spec hkeeps₂ htarget
        have hins := (hins₁.trans hins₂).trans hins₃
        obtain ⟨rfl, rfl⟩ := Prod.mk.inj (Option.some.inj he)
        have hdepth : w.frameIds.length = s.table.frameIds.length + 1 := by
          rw [hids, List.length_cons]
        refine ⟨hins.keeps, hins.frameIds.trans hids, rfl, hins.granted, ?_, rfl, _, _, _, rfl⟩
        intro g hg
        show ⟨g.1, s.table.frameIds.length + 1, g.2⟩ ∈ w₃.granted
        rw [← hdepth]
        rcases List.mem_cons.mp hg with rfl | hg
        · exact hins₃.granted _ (hins₁.frameIds ▸ hgiven₂)
        · rcases List.mem_append.mp hg with hg | hg
          · exact (hins₂.trans hins₃).granted _ (hgiven₁ g hg)
          · exact (hins₁.trans hins₂).frameIds ▸ hgiven₃ g hg

/-- A call that enters stands over every call not yet completed. -/
theorem Entered.stack (h : Inv s) {c : Call} (he : Entered s c u) :
    (∀ d ∈ c :: s.calls, d.valueFrame :: d.before <:+ u.table.frameIds) ∧
      ((c :: s.calls).map Call.depth).Nodup := by
  constructor
  · intro d hd
    rcases List.mem_cons.mp hd with rfl | hd
    · rw [he.frameIds]
    · rw [he.frameIds, he.before]
      exact (h.stack d hd).trans (List.suffix_cons ..)
  · rw [List.map_cons]
    apply List.nodup_cons.mpr
    refine ⟨?_, h.apart⟩
    intro hmem
    obtain ⟨d, hd, hdepth⟩ := List.mem_map.mp hmem
    have hle := h.depth_le hd
    rw [hdepth, Call.depth, he.before] at hle
    omega

theorem Inv.call (h : Inv s) {c : Call} (he : Entered s c u)
    (hsafe : s.lastException ≠ none → s.drained = []) :
    Inv { u with running := ⟨c, false, none⟩ :: u.running } := by
  obtain ⟨hstack, hapart⟩ := he.stack h
  obtain ⟨table, infos, cbinfo, rfl⟩ := he.rest
  refine { h with
    keeps := he.keeps, stack := hstack, apart := hapart, granted := ?_, serials := ?_, raised := ?_ }
  · intro d hd g hg
    exact he.granted _ (h.granted d hd g hg)
  · intro n hn
    exact Nat.lt_succ_of_lt (h.serials n hn)
  · refine ⟨nofun, ?_⟩
    intro q hq hdeferred
    have hmem : q ∈ s.drained := List.mem_filter.mpr ⟨hq, hdeferred⟩
    have hnone : s.lastException = none := by
      by_contra hne
      rw [hsafe hne] at hmem
      cases hmem
    have hraised := h.raised
    cases hr : s.running with
    | nil =>
      rw [hr] at hq
      cases hq
    | cons r rest =>
      rw [hr] at hq hraised
      rcases List.mem_cons.mp hq with rfl | hq
      · exact (hraised.1 hdeferred).trans hnone
      · exact hraised.2 q hq hdeferred

theorem Inv.callDeferred (h : Inv s) {c : Call} (he : Entered s c u) :
    Inv { u with
      pendingCallbacks := u.pendingCallbacks ++ [c]
      deferredCalls := u.deferredCalls ++ [c.serial] } := by
  obtain ⟨hstack, hapart⟩ := he.stack h
  obtain ⟨table, infos, cbinfo, rfl⟩ := he.rest
  have hperm : (s.running.map Running.call ++ (s.pendingCallbacks ++ [c])).Perm (c :: s.calls) := by
    rw [← List.append_assoc]
    exact List.perm_append_singleton c _
  refine { h with
    order := ?_, once := ?_, keeps := he.keeps, stack := ?_, apart := ?_, granted := ?_, serials := ?_ }
  · show s.deferredCalls ++ [c.serial] = _ ++ _ ++ (s.pendingCallbacks ++ [c]).map Call.serial
    rw [h.order, List.map_append, List.map_singleton]
    simp only [List.append_assoc]
    rfl
  · apply List.pairwise_append.mpr
    refine ⟨h.once, List.pairwise_singleton _ _, ?_⟩
    intro n hn m hm
    rw [List.mem_singleton.mp hm, he.serial]
    exact h.serials n hn
  · exact fun d hd => hstack d (hperm.mem_iff.mp hd)
  · exact (hperm.map Call.depth).nodup_iff.mpr hapart
  · intro d hd g hg
    rcases List.mem_append.mp hd with hd | hd
    · exact he.granted _ (h.granted d hd g hg)
    · obtain rfl := List.mem_singleton.mp hd
      exact he.given g hg
  · intro n hn
    rcases List.mem_append.mp hn with hn | hn
    · exact Nat.lt_succ_of_lt (h.serials n hn)
    · rw [List.mem_singleton.mp hn, he.serial]
      exact Nat.lt_succ_self _

/-- The call a drain takes moves from the queue to the stack. -/
theorem Inv.drain (h : Inv s) {c : Call} {rest : List Call}
    (hp : s.pendingCallbacks = c :: rest) (hsafe : s.lastException = none ∧ s.drained = []) :
    Inv { s with pendingCallbacks := rest, running := ⟨c, true, none⟩ :: s.running } := by
  have hperm : (c :: (s.running.map Running.call ++ rest)).Perm s.calls := by
    rw [calls, hp]
    exact List.perm_middle.symm
  refine { h with order := ?_, stack := ?_, apart := ?_, granted := ?_, raised := ?_ }
  · have horder := h.order
    rw [hsafe.2, hp] at horder
    rw [horder]
    have hdrained : (s.running.filter Running.deferred) = [] := hsafe.2
    simp [drained, hdrained, done]
  · exact fun d hd => h.stack d (hperm.mem_iff.mp hd)
  · exact (hperm.map Call.depth).nodup_iff.mpr h.apart
  · intro d hd g hg
    exact h.granted d (hp ▸ List.mem_cons_of_mem _ hd) g hg
  · refine ⟨fun _ => hsafe.1.symm, ?_⟩
    intro q hq hdeferred
    have hmem : q ∈ s.drained := List.mem_filter.mpr ⟨hq, hdeferred⟩
    rw [hsafe.2] at hmem
    cases hmem

/-- A callback that returns with its own frame innermost gives back the frames it found. -/
theorem Inv.finish (h : Inv s) {result : ℕ} (hsafe : Safe s (.finish result))
    (hf : s.finish result = some u) : Inv u := by
  obtain ⟨hresult, hdepth⟩ := hsafe
  unfold HostJsEnv.finish at hf
  cases hr : s.running with
  | nil =>
    rw [hr] at hf
    cases hf
  | cons r rest =>
    rw [hr] at hf hdepth
    simp only [if_neg hresult] at hf
    cases hf
    have hcalls : s.calls = r.call :: (rest.map Running.call ++ s.pendingCallbacks) := by
      rw [calls, hr]
      rfl
    have hids : s.table.frameIds = r.call.valueFrame :: r.call.before := by
      have hsuffix := h.stack r.call (by rw [hcalls]; exact List.mem_cons_self ..)
      exact (hsuffix.eq_of_length (by rw [← hdepth r rfl]; rfl)).symm
    have hafter : (s.table.closeHandleScope r.call.valueFrame).frameIds = r.call.before := by
      rw [closeHandleScope_frameIds, hids]
      exact if_pos rfl
    obtain ⟨leaked, hkeeps⟩ := h.keeps
    have hstep : s.table.step (.closeHandleScope r.call.valueFrame) =
        some (s.table.closeHandleScope r.call.valueFrame) := rfl
    have hapart := h.apart
    rw [hcalls, List.map_cons, List.nodup_cons] at hapart
    have hstack : ∀ c ∈ rest.map Running.call ++ s.pendingCallbacks,
        c.valueFrame :: c.before <:+ (s.table.closeHandleScope r.call.valueFrame).frameIds := by
      intro c hc
      have hmem : c ∈ s.calls := hcalls ▸ List.mem_cons_of_mem _ hc
      apply step_stack hkeeps.counters.1 hstep (h.stack c hmem)
      intro scope _ _
      -- No two calls stand at one depth, and this one's is all there is.
      have hle := h.depth_le hmem
      have hne : c.depth ≠ r.call.depth := fun heq => hapart.1 (heq ▸ List.mem_map_of_mem hc)
      rw [← hdepth r rfl] at hle ⊢
      omega
    have hraised := h.raised
    rw [hr] at hraised
    have hdrained : s.drained = if r.deferred then r :: rest.filter Running.deferred
        else rest.filter Running.deferred := by
      rw [drained, hr, List.filter_cons]
    refine ⟨?_, ?_, h.once, ?_, ⟨leaked, hkeeps.closeHandleScope _⟩, hstack, hapart.2, ?_, h.serials, ?_⟩
    · intro c hc
      rcases List.mem_append.mp hc with hc | hc
      · exact h.frames c hc
      · obtain rfl := List.mem_singleton.mp hc
        exact ⟨hafter, AList.lookup_erase _ _⟩
    · have horder := h.order
      rw [hdrained] at horder
      rw [done, List.filter_append]
      show s.deferredCalls = _
      rw [horder]
      cases r.deferred <;> simp [drained, done]
    · have hsettled := h.settled
      rw [done, List.filter_append]
      cases hd : r.deferred with
      | false => simpa [done] using hsettled
      | true =>
        rw [hraised.1 hd, hsettled]
        simp [done]
    · intro c hc g hg
      have hlen := (hstack c (List.mem_append_right _ hc)).length_le
      rw [List.length_cons] at hlen
      exact step_granted hstep (h.granted c hc g hg) hlen
    · cases rest with
      | nil => trivial
      | cons q rest =>
        exact ⟨fun hd => hraised.2 q (List.mem_cons_self ..) hd,
          fun p hp => hraised.2 p (List.mem_cons_of_mem _ hp)⟩

theorem step_inv {act : Act} (hstep : step s act = some u) (hsafe : Safe s act) (h : Inv s) :
    Inv u := by
  cases act with
  | table act =>
    obtain ⟨w, hw, rfl⟩ := Option.map_eq_some_iff.mp hstep
    exact h.table hw hsafe
  | setException e =>
    cases hstep
    exact h.setException e
  | call registration args this newTarget =>
    obtain ⟨⟨c, v⟩, he, rfl⟩ := Option.map_eq_some_iff.mp hstep
    obtain ⟨leaked, hkeeps⟩ := h.keeps
    exact h.call (enter_spec hkeeps he) hsafe
  | callDeferred registration args this newTarget =>
    obtain ⟨⟨c, v⟩, he, rfl⟩ := Option.map_eq_some_iff.mp hstep
    obtain ⟨leaked, hkeeps⟩ := h.keeps
    exact h.callDeferred (enter_spec hkeeps he)
  | finish result => exact h.finish hsafe hstep
  | drain =>
    unfold step at hstep
    cases hp : s.pendingCallbacks with
    | nil =>
      rw [hp] at hstep
      cases hstep
    | cons c rest =>
      rw [hp] at hstep
      cases hstep
      exact h.drain hp hsafe
  | drainDeferred =>
    unfold step at hstep
    cases hp : s.pendingCallbacks with
    | nil =>
      rw [hp] at hstep
      cases hstep
    | cons c rest =>
      rw [hp] at hstep
      cases hstep
      -- Put back where it was taken.
      rw [← hp]
      exact h

/-- **Callbacks give back their frames.** In every run of safe steps, every callback that has
    completed has left the frames it found, and every deferred call has its ids until it runs,
    runs once and in turn, and has its promise settled with its own outcome. -/
theorem callbacks_sound {acts : List Act} (h : run step {} acts = some s)
    (hsafe : AllSteps step Safe {} acts) : Sound s :=
  (invariant_of_allSteps (fun _ _ _ hs hok hi => step_inv hs hok hi) h hsafe Inv.init).sound

/-- A call is deferred twice; run at last, it opens and closes a scope, calls JavaScript, which
    calls the guest again, and raises an exception. -/
theorem deferred_sound : ∃ s, run step {} [.callDeferred ⟨1, 2, 3⟩ [.object 5] .undefined .undefined,
    .drainDeferred, .drain, .table .openHandleScope, .table (.closeHandleScope 3),
    .call ⟨1, 4, 0⟩ [] (.object 5) .undefined, .finish 0, .setException (some (.object 6)),
    .finish 0] = some s ∧ s.settled.length = 1 ∧ Sound s := by
  have hsafe : AllSteps step Safe {} [.callDeferred ⟨1, 2, 3⟩ [.object 5] .undefined .undefined,
      .drainDeferred, .drain, .table .openHandleScope, .table (.closeHandleScope 3),
      .call ⟨1, 4, 0⟩ [] (.object 5) .undefined, .finish 0, .setException (some (.object 6)),
      .finish 0] := by decide
  exact ⟨_, rfl, by decide, callbacks_sound (show run step {} _ = some _ from rfl) hsafe⟩

/-- A callback opens a scope and leaves it open: its own frame stays as well. -/
theorem unclosed_scope_not_sound : ∃ s, run step {} [.call ⟨1, 2, 3⟩ [] .undefined .undefined,
    .table .openHandleScope, .finish 0] = some s ∧ ¬ Sound s := by
  refine ⟨_, rfl, ?_⟩
  intro h
  have hframes := (h.frames _ (List.mem_singleton_self _)).1
  exact absurd hframes (by decide)

end HostJsEnv

end WasmerNapi.HostJs
