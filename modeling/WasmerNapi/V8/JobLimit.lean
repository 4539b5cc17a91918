import WasmerNapi.Lib.Run

/-!
# The worker limit of a job

`JobWorkerLimit` and `LimitedJobHandle` in `src/v8/src/edge_v8_platform.cc`. The limit and the
started flag are two atomics, and any number of calls on the handle are underway at once: each
atomic access and each call on the inner handle is a step of its own.

`log` is what a run has done so far, the newest first.
-/

namespace WasmerNapi.V8.JobLimit

open Function (update update_self update_of_ne)
open Run

inductive TaskPriority where
  | bestEffort
  | userVisible
  | userBlocking
  deriving DecidableEq, Repr

/-- `SIZE_MAX`. -/
def kNoLimit : ℕ := 2 ^ 64 - 1

def limitFor (backgroundLimit : ℕ) : TaskPriority → ℕ
  | .userBlocking => kNoLimit
  | .bestEffort | .userVisible => backgroundLimit

/-- A call on the handle, by what it does next. -/
inductive Call where
  -- `NotifyConcurrencyIncrease`
  | storeStarted
  | notify
  -- `Join`
  | lift
  | join
  -- `UpdatePriority`
  | update (priority : TaskPriority)
  | followPriority (priority : TaskPriority)
  | loadStarted
  | notifyRaised
  deriving DecidableEq, Repr

/-- `raised`: the limit went up. `update`: the call is an `UpdatePriority`. -/
inductive Event where
  | started
  | notified (update : Bool)
  | lifted (raised : Bool)
  | joined
  | updated (priority : TaskPriority)
  | followed (raised : Bool)
  deriving DecidableEq, Repr

structure State where
  limit : ℕ
  started : Bool := false
  next : ℕ := 0
  calls : ℕ → Option Call := fun _ => none
  log : List Event := []

inductive Act where
  | notifyConcurrencyIncrease
  | join
  | updatePriority (priority : TaskPriority)
  | advance (c : ℕ)

namespace State

def init (backgroundLimit : ℕ) (priority : TaskPriority) : State where
  limit := limitFor backgroundLimit priority

/-- How much of `task`, what the job itself asks for, the workers see. -/
def getMaxConcurrency (s : State) (task : ℕ) : ℕ := min task s.limit

def begin (s : State) (call : Call) : State :=
  { s with calls := update s.calls s.next (some call), next := s.next + 1 }

/-- The call has done `e`, and goes on with `call`. -/
def goto (s : State) (c : ℕ) (e : Event) (call : Option Call) : State :=
  { s with calls := update s.calls c call, log := e :: s.log }

def advance (backgroundLimit : ℕ) (s : State) (c : ℕ) : Call → State
  | .storeStarted => { s with started := true }.goto c .started (some .notify)
  | .notify => s.goto c (.notified false) none
  | .lift => { s with limit := kNoLimit }.goto c (.lifted (s.limit < kNoLimit)) (some .join)
  | .join => s.goto c .joined none
  | .update priority => s.goto c (.updated priority) (some (.followPriority priority))
  | .followPriority priority =>
    let limit := limitFor backgroundLimit priority
    { s with limit }.goto c (.followed (s.limit < limit))
      (if s.limit < limit then some .loadStarted else none)
  | .loadStarted =>
    { s with calls := update s.calls c (if s.started then some .notifyRaised else none) }
  | .notifyRaised => s.goto c (.notified true) none

end State

def step (backgroundLimit : ℕ) (s : State) : Act → Option State
  | .notifyConcurrencyIncrease => some (s.begin .storeStarted)
  | .join => some (s.begin .lift)
  | .updatePriority priority => some (s.begin (.update priority))
  | .advance c => (s.calls c).map fun call => s.advance backgroundLimit c call

/-! ## What the limit promises -/

/-- The limit went up. -/
def Event.raises : Event → Bool
  | .lifted raised | .followed raised => raised
  | .started | .notified _ | .joined | .updated _ => false

/-- The inner handle posts the workers the limit allows. -/
def Event.posts : Event → Bool
  | .notified _ | .joined => true
  | .started | .lifted _ | .updated _ | .followed _ => false

/-- A `Join` has lifted the limit. -/
def State.Lifted (s : State) : Prop := .lifted true ∈ s.log ∨ .lifted false ∈ s.log

instance (s : State) : Decidable s.Lifted := inferInstanceAs (Decidable (_ ∨ _))

/-- A call is underway that does not return before the inner handle has posted the workers. -/
def Promised (backgroundLimit : ℕ) (s : State) : Prop :=
  ∃ c, (s.calls c).isSome = true ∧ ∀ acts t, run (step backgroundLimit) s acts = some t →
    t.calls c = none → ∃ newest, t.log = newest ++ s.log ∧ ∃ e ∈ newest, e.posts = true

structure Kept (backgroundLimit : ℕ) (s : State) : Prop where
  /-- Once the job is started, the workers are posted after each raise. -/
  reaches : s.started = true → ∀ newer e older, s.log = newer ++ e :: older → e.raises = true →
    (∃ e' ∈ newer, e'.posts = true) ∨ Promised backgroundLimit s
  /-- The inner handle is notified only when a `NotifyConcurrencyIncrease` has started the job. -/
  unstarted : ∀ newer update older, s.log = newer ++ .notified update :: older → .started ∈ older
  lifted : s.Lifted → s.limit = kNoLimit

/-- The call's next step does not lower a limit that a `Join` has lifted. -/
def Call.KeepsLifted (backgroundLimit : ℕ) (s : State) : Call → Prop
  | .followPriority priority => s.Lifted → limitFor backgroundLimit priority = kNoLimit
  | .storeStarted | .notify | .lift | .join | .update _ | .loadStarted | .notifyRaised => True

def KeepsLifted (backgroundLimit : ℕ) (s : State) : Act → Prop
  | .advance c => ∀ call ∈ s.calls c, call.KeepsLifted backgroundLimit s
  | .notifyConcurrencyIncrease | .join | .updatePriority _ => True

instance (backgroundLimit : ℕ) (s : State) : ∀ call : Call,
    Decidable (call.KeepsLifted backgroundLimit s)
  | .followPriority _ => inferInstanceAs (Decidable (_ → _))
  | .storeStarted | .notify | .lift | .join | .update _ | .loadStarted | .notifyRaised =>
    isTrue trivial

instance (backgroundLimit : ℕ) (s : State) : ∀ a, Decidable (KeepsLifted backgroundLimit s a)
  | .advance c => inferInstanceAs (Decidable (∀ call ∈ s.calls c, _))
  | .notifyConcurrencyIncrease | .join | .updatePriority _ => isTrue trivial

/-! ## The invariant -/

/-- The newest of the raises and the posts is a raise. -/
def owed : List Event → Bool
  | [] => false
  | e :: log => !e.posts && (e.raises || owed log)

/-- A call that posts the workers of a started job. -/
def Call.posts : Call → Bool
  | .notify | .join | .loadStarted | .notifyRaised => true
  | .storeStarted | .lift | .update _ | .followPriority _ => false

variable {e : Event}

theorem Event.posts_of_raises (h : e.raises = true) : e.posts = false := by
  cases e with
  | lifted raised => rfl
  | followed raised => rfl
  | started | notified update | joined | updated priority => cases h

theorem posts_of_not_owed {log : List Event} (h : owed log = false) :
    ∀ {newer e older}, log = newer ++ e :: older → e.raises = true → ∃ e' ∈ newer, e'.posts = true := by
  induction log with
  | nil =>
    intro newer e older heq
    simp at heq
  | cons e' log ih =>
    intro newer e older heq hraises
    rcases List.cons_eq_append_iff.1 heq with ⟨rfl, heq⟩ | ⟨newer, rfl, rfl⟩
    · obtain ⟨rfl, rfl⟩ := List.cons.inj heq
      simp [owed, hraises, Event.posts_of_raises hraises] at h
    · by_cases hposts : e'.posts = true
      · exact ⟨e', List.mem_cons_self .., hposts⟩
      · have howed : owed (newer ++ e :: older) = false := by
          rw [owed] at h
          simp_all
        obtain ⟨e'', hmem, hposts⟩ := ih howed rfl hraises
        exact ⟨e'', List.mem_cons_of_mem _ hmem, hposts⟩

structure Inv (s : State) : Prop where
  fresh : ∀ c, s.next ≤ c → s.calls c = none
  /-- What is owed to a started job, a call underway will do. -/
  owed : s.started = true → owed s.log = true → ∃ c call, s.calls c = some call ∧ call.posts = true
  notifies : ∀ c, s.calls c = some .notify ∨ s.calls c = some .notifyRaised → s.started = true
  started : s.started = true → .started ∈ s.log
  unstarted : ∀ newer update older, s.log = newer ++ .notified update :: older → .started ∈ older

theorem inv_init (backgroundLimit : ℕ) (priority : TaskPriority) :
    Inv (State.init backgroundLimit priority) where
  fresh _ _ := rfl
  owed h := by cases h
  notifies c h := by rcases h with h | h <;> cases h
  started h := by cases h
  unstarted newer update older h := by simp [State.init] at h

variable {backgroundLimit : ℕ} {s t : State} {c : ℕ} {call : Call}

theorem Inv.begin (hi : Inv s) (hcall : call ≠ .notify ∧ call ≠ .notifyRaised) :
    Inv (s.begin call) := by
  have hnext := hi.fresh s.next le_rfl
  refine ⟨?_, ?_, ?_, hi.started, hi.unstarted⟩
  · intro c hc
    have hc : s.next + 1 ≤ c := hc
    exact (update_of_ne (by omega) ..).trans (hi.fresh c (by omega))
  · intro hstarted howed
    obtain ⟨c, call', hc, hposts⟩ := hi.owed hstarted howed
    refine ⟨c, call', ?_, hposts⟩
    have hne : c ≠ s.next := by
      rintro rfl
      rw [hnext] at hc
      cases hc
    exact (update_of_ne hne ..).trans hc
  · intro c hc
    change update s.calls s.next (some call) c = _ ∨
      update s.calls s.next (some call) c = _ at hc
    by_cases heq : c = s.next
    · simp only [heq, update_self, Option.some.injEq] at hc
      rcases hc with hc | hc
      · exact absurd hc hcall.1
      · exact absurd hc hcall.2
    · rw [update_of_ne heq] at hc
      exact hi.notifies c hc

theorem Inv.fresh_update (hi : Inv s) (hc : s.calls c = some call) (next : Option Call) :
    ∀ c', s.next ≤ c' → update s.calls c next c' = none := by
  intro c' hc'
  have hnone := hi.fresh c' hc'
  have hne : c' ≠ c := by
    rintro rfl
    rw [hc] at hnone
    cases hnone
  exact (update_of_ne hne ..).trans hnone

variable {started : Bool} {next : Option Call}

theorem Inv.notifies_update (hi : Inv s) (hstarted : s.started = true → started = true)
    (hnext : next = some .notify ∨ next = some .notifyRaised → started = true) :
    ∀ c', update s.calls c next c' = some .notify ∨
      update s.calls c next c' = some .notifyRaised → started = true := by
  intro c' hc'
  by_cases heq : c' = c
  · rw [heq, update_self] at hc'
    exact hnext hc'
  · rw [update_of_ne heq] at hc'
    exact hstarted (hi.notifies c' hc')

/-- A call that goes on: what it owes it has done, or is still to do. -/
theorem Inv.goto (hi : Inv s) (hc : s.calls c = some call) {limit : ℕ}
    (hstarted : s.started = true → started = true) (hlog : started = true → .started ∈ e :: s.log)
    (hnext : next = some .notify ∨ next = some .notifyRaised → started = true)
    (hnotified : ∀ update, e = .notified update → .started ∈ s.log)
    (howed : e.posts = true ∨ (∃ call', next = some call' ∧ call'.posts = true) ∨
      (e.raises = false ∧ call.posts = false ∧ started = s.started)) :
    Inv ({ s with limit, started }.goto c e next) := by
  refine ⟨hi.fresh_update hc next, ?_, hi.notifies_update hstarted hnext, hlog, ?_⟩
  · intro hgo howed'
    change JobLimit.owed (e :: s.log) = true at howed'
    rcases howed with hposts | ⟨call', rfl, hposts⟩ | ⟨hraises, hposts, rfl⟩
    · simp [JobLimit.owed, hposts] at howed'
    · exact ⟨c, call', update_self .., hposts⟩
    · have hlog' : JobLimit.owed s.log = true := by
        simp only [JobLimit.owed, hraises, Bool.false_or, Bool.and_eq_true] at howed'
        exact howed'.2
      obtain ⟨c', call', hc', hposts'⟩ := hi.owed hgo hlog'
      refine ⟨c', call', ?_, hposts'⟩
      have hne : c' ≠ c := by
        rintro rfl
        obtain rfl := Option.some.inj (hc.symm.trans hc')
        rw [hposts] at hposts'
        cases hposts'
      exact (update_of_ne hne ..).trans hc'
  · intro newer update older heq
    rcases List.cons_eq_append_iff.1 heq with ⟨-, hhead⟩ | ⟨newer, -, hrest⟩
    · obtain ⟨he, rfl⟩ := List.cons.inj hhead
      exact hnotified update he.symm
    · exact hi.unstarted newer update older hrest

/-- The flag is loaded after the limit has gone up: a job that is started is seen to be. -/
theorem Inv.loadStarted (hi : Inv s) (hc : s.calls c = some .loadStarted) :
    Inv { s with calls := update s.calls c (if s.started then some .notifyRaised else none) } := by
  refine ⟨hi.fresh_update hc _, ?_, hi.notifies_update id ?_, hi.started, hi.unstarted⟩
  · intro hstarted _
    refine ⟨c, .notifyRaised, ?_, rfl⟩
    change update s.calls c (if s.started then some .notifyRaised else none) c = _
    have hstarted : s.started = true := hstarted
    rw [update_self, if_pos hstarted]
  · intro h
    by_contra hnot
    rw [if_neg hnot] at h
    rcases h with h | h <;> cases h

theorem Inv.advance (hi : Inv s) (hc : s.calls c = some call) :
    Inv (s.advance backgroundLimit c call) := by
  have hstays : s.started = true → ∀ e, Event.started ∈ e :: s.log :=
    fun h e => List.mem_cons_of_mem e (hi.started h)
  cases call with
  | storeStarted =>
    apply hi.goto hc
    · exact fun _ => rfl
    · exact fun _ => List.mem_cons_self ..
    · exact fun _ => rfl
    · nofun
    · exact Or.inr (Or.inl ⟨_, rfl, rfl⟩)
  | notify =>
    apply hi.goto hc id
    · exact fun h => hstays h _
    · intro h
      rcases h with h | h <;> cases h
    · exact fun _ _ => hi.started (hi.notifies c (Or.inl hc))
    · exact Or.inl rfl
  | lift =>
    apply hi.goto hc id
    · exact fun h => hstays h _
    · intro h
      rcases h with h | h <;> cases h
    · nofun
    · exact Or.inr (Or.inl ⟨_, rfl, rfl⟩)
  | join =>
    apply hi.goto hc id
    · exact fun h => hstays h _
    · intro h
      rcases h with h | h <;> cases h
    · nofun
    · exact Or.inl rfl
  | update priority =>
    apply hi.goto hc id
    · exact fun h => hstays h _
    · intro h
      rcases h with h | h <;> cases h
    · nofun
    · exact Or.inr (Or.inr ⟨rfl, rfl, rfl⟩)
  | followPriority priority =>
    apply hi.goto hc id
    · exact fun h => hstays h _
    · intro h
      split_ifs at h <;> rcases h with h | h <;> cases h
    · nofun
    · -- a raise goes on to load the flag
      split_ifs with hraised
      · exact Or.inr (Or.inl ⟨_, rfl, rfl⟩)
      · exact Or.inr (Or.inr ⟨decide_eq_false hraised, rfl, rfl⟩)
  | loadStarted =>
    exact hi.loadStarted hc
  | notifyRaised =>
    apply hi.goto hc id
    · exact fun h => hstays h _
    · intro h
      rcases h with h | h <;> cases h
    · exact fun _ _ => hi.started (hi.notifies c (Or.inr hc))
    · exact Or.inl rfl

variable {a : Act}

/-- A step begins a call, which has all of its steps ahead, or is one of a call's own. -/
theorem step_cases (h : step backgroundLimit s a = some t) :
    (∃ call : Call, (call ≠ .notify ∧ call ≠ .notifyRaised) ∧ t = s.begin call) ∨
      ∃ c call, s.calls c = some call ∧ t = s.advance backgroundLimit c call := by
  cases a with
  | notifyConcurrencyIncrease => exact Or.inl ⟨.storeStarted, by decide, (Option.some.inj h).symm⟩
  | join => exact Or.inl ⟨.lift, by decide, (Option.some.inj h).symm⟩
  | updatePriority priority =>
    refine Or.inl ⟨.update priority, ?_, (Option.some.inj h).symm⟩
    constructor <;> intro hcall <;> cases hcall
  | advance c =>
    obtain ⟨call, hc, rfl⟩ := Option.map_eq_some_iff.1 h
    exact Or.inr ⟨c, call, hc, rfl⟩

theorem Inv.step (hi : Inv s) (h : step backgroundLimit s a = some t) : Inv t := by
  rcases step_cases h with ⟨call, hcall, rfl⟩ | ⟨c, call, hc, rfl⟩
  · exact hi.begin hcall
  · exact hi.advance hc

/-! ## A raise reaches the workers -/

namespace State

theorem log_advance (backgroundLimit : ℕ) (s : State) (c : ℕ) (call : Call) :
    (s.advance backgroundLimit c call).log = s.log ∨
      ∃ e, (s.advance backgroundLimit c call).log = e :: s.log := by
  cases call with
  | loadStarted => exact Or.inl rfl
  | storeStarted | notify | lift | join | update priority | followPriority priority
  | notifyRaised => exact Or.inr ⟨_, rfl⟩

theorem started_advance (h : s.started = true) :
    (s.advance backgroundLimit c call).started = true := by
  cases call with
  | storeStarted => rfl
  | notify | lift | join | update priority | followPriority priority | loadStarted
  | notifyRaised => exact h

theorem calls_advance {c' : ℕ} (hne : c' ≠ c) :
    (s.advance backgroundLimit c call).calls c' = s.calls c' := by
  cases call <;> exact update_of_ne hne ..

/-- A call that posts the workers of a started job does so now or after its next step. -/
theorem posts_advance (hstarted : s.started = true) (hposts : call.posts = true) :
    (∃ e, (s.advance backgroundLimit c call).log = e :: s.log ∧ e.posts = true) ∨
      ∃ call', (s.advance backgroundLimit c call).calls c = some call' ∧ call'.posts = true := by
  cases call with
  | notify | join | notifyRaised => exact Or.inl ⟨_, rfl, rfl⟩
  | loadStarted =>
    right
    refine ⟨.notifyRaised, ?_, rfl⟩
    simp only [advance, hstarted, if_true]
    exact update_self ..
  | storeStarted | lift | update priority | followPriority priority => cases hposts

end State

/-- Since the log was `base` the call has posted the workers, or it has still to do so. -/
structure Serves (c : ℕ) (base : List Event) (s : State) : Prop where
  inv : Inv s
  started : s.started = true
  posts : ∃ newest, s.log = newest ++ base ∧
    ((∃ e ∈ newest, e.posts = true) ∨ ∃ call, s.calls c = some call ∧ call.posts = true)

variable {base : List Event}

theorem Serves.begin (h : Serves c base s) (hcall : call ≠ .notify ∧ call ≠ .notifyRaised) :
    Serves c base (s.begin call) := by
  refine ⟨h.inv.begin hcall, h.started, ?_⟩
  obtain ⟨newest, hlog, hdone | ⟨call', hc, hposts⟩⟩ := h.posts
  · exact ⟨newest, hlog, Or.inl hdone⟩
  · refine ⟨newest, hlog, Or.inr ⟨call', ?_, hposts⟩⟩
    have hne : c ≠ s.next := by
      rintro rfl
      rw [h.inv.fresh _ le_rfl] at hc
      cases hc
    exact (update_of_ne hne ..).trans hc

theorem Serves.advance {c' : ℕ} (h : Serves c base s) (hc' : s.calls c' = some call) :
    Serves c base (s.advance backgroundLimit c' call) := by
  refine ⟨h.inv.advance hc', State.started_advance h.started, ?_⟩
  obtain ⟨newest, hlog, hposts⟩ := h.posts
  obtain ⟨newest', hlog', hsub⟩ : ∃ newest',
      (s.advance backgroundLimit c' call).log = newest' ++ base ∧ ∀ e ∈ newest, e ∈ newest' := by
    rcases State.log_advance backgroundLimit s c' call with heq | ⟨e, heq⟩
    · exact ⟨newest, heq.trans hlog, fun e he => he⟩
    · refine ⟨e :: newest, by rw [heq, hlog]; rfl, ?_⟩
      exact fun e' => List.mem_cons_of_mem e
  rcases hposts with ⟨e, he, hposts⟩ | ⟨call', hc, hposts⟩
  · exact ⟨newest', hlog', Or.inl ⟨e, hsub e he, hposts⟩⟩
  · by_cases heq : c = c'
    · subst heq
      obtain rfl := Option.some.inj (hc'.symm.trans hc)
      rcases @State.posts_advance backgroundLimit s c call h.started hposts with
        ⟨e, heq, hposts⟩ | hnext
      · exact ⟨e :: newest, by rw [heq, hlog]; rfl, Or.inl ⟨e, List.mem_cons_self .., hposts⟩⟩
      · exact ⟨newest', hlog', Or.inr hnext⟩
    · exact ⟨newest', hlog', Or.inr ⟨call', (State.calls_advance heq).trans hc, hposts⟩⟩

theorem Serves.step (h : Serves c base s) (hs : step backgroundLimit s a = some t) :
    Serves c base t := by
  rcases step_cases hs with ⟨call, hcall, rfl⟩ | ⟨c', call, hc', rfl⟩
  · exact h.begin hcall
  · exact h.advance hc'

theorem promised_of_posts (hi : Inv s) (hstarted : s.started = true) (hc : s.calls c = some call)
    (hposts : call.posts = true) : Promised backgroundLimit s := by
  refine ⟨c, by rw [hc]; rfl, ?_⟩
  intro acts t hrun hdone
  have hserves : Serves c s.log s := ⟨hi, hstarted, [], rfl, Or.inr ⟨call, hc, hposts⟩⟩
  have hend := @Run.invariant _ _ s acts (Serves c s.log) (JobLimit.step backgroundLimit)
    (fun _ _ _ hs h => h.step hs) t hrun hserves
  obtain ⟨newest, hlog, hdid | ⟨call', hcall, -⟩⟩ := hend.posts
  · exact ⟨newest, hlog, hdid⟩
  · rw [hdone] at hcall
    cases hcall

/-! ## When the limit stays lifted -/

/-- The rest is kept in any run. -/
theorem Inv.kept_iff (hi : Inv s) : Kept backgroundLimit s ↔ (s.Lifted → s.limit = kNoLimit) := by
  constructor
  · exact fun h => h.lifted
  · intro hlifted
    refine ⟨?_, hi.unstarted, hlifted⟩
    intro hstarted newer e older hlog hraises
    cases howed : JobLimit.owed s.log with
    | false => exact Or.inl (posts_of_not_owed howed hlog hraises)
    | true =>
      obtain ⟨c, call, hc, hposts⟩ := hi.owed hstarted howed
      exact Or.inr (promised_of_posts hi hstarted hc hposts)

theorem lifted_goto {limit : ℕ} (he : ∀ raised, e ≠ .lifted raised) :
    ({ s with limit, started }.goto c e next).Lifted ↔ s.Lifted := by
  unfold State.Lifted State.goto
  rw [List.mem_cons, List.mem_cons, or_iff_right (he true).symm, or_iff_right (he false).symm]

/-- A step that finds a lifted limit in place leaves it there exactly when it does not lower it. -/
theorem lifted_step (hs : step backgroundLimit s a = some t) (h : s.Lifted → s.limit = kNoLimit) :
    (t.Lifted → t.limit = kNoLimit) ↔ KeepsLifted backgroundLimit s a := by
  cases a with
  | notifyConcurrencyIncrease =>
    cases hs
    exact iff_of_true h trivial
  | join =>
    cases hs
    exact iff_of_true h trivial
  | updatePriority priority =>
    cases hs
    exact iff_of_true h trivial
  | advance c =>
    obtain ⟨call, hc, rfl⟩ := Option.map_eq_some_iff.1 hs
    have hkeeps : KeepsLifted backgroundLimit s (.advance c) ↔
        call.KeepsLifted backgroundLimit s := by
      constructor
      · exact fun hall => hall call hc
      · intro hcall call' hc'
        obtain rfl := Option.some.inj (hc.symm.trans hc')
        exact hcall
    rw [hkeeps]
    cases call with
    | followPriority priority => exact imp_congr_left (lifted_goto nofun)
    | lift => exact iff_of_true (fun _ => rfl) trivial
    | loadStarted => exact iff_of_true h trivial
    | storeStarted | notify | join | update priority | notifyRaised =>
      refine iff_of_true ?_ trivial
      intro hlifted
      exact h ((lifted_goto fun _ he => by cases he).1 hlifted)

/-- In every interleaving the raises of a started job reach its workers, and only a
    `NotifyConcurrencyIncrease` starts it; the limit a `Join` has lifted stays lifted exactly when
    no `UpdatePriority` that is not user-blocking stores its own over it. -/
theorem kept_iff_keepsLifted (backgroundLimit : ℕ) (priority : TaskPriority) (acts : List Act)
    (s : State) (h : run (step backgroundLimit) (.init backgroundLimit priority) acts = some s) :
    AllStates (step backgroundLimit) (Kept backgroundLimit) (.init backgroundLimit priority) acts ↔
      AllSteps (step backgroundLimit) (KeepsLifted backgroundLimit) (.init backgroundLimit priority)
        acts := by
  have hinit := inv_init backgroundLimit priority
  have hkept : Kept backgroundLimit (.init backgroundLimit priority) := by
    rw [hinit.kept_iff]
    intro hlifted
    rcases hlifted with hmem | hmem <;> cases hmem
  apply @allStates_iff_allSteps _ _ Inv _ (fun _ => True)
  · exact fun s a t _ hs hi => hi.step hs
  · intro s a t _ hs hi hkept
    rw [(hi.step hs).kept_iff]
    exact lifted_step hs hkept.lifted
  · exact fun _ _ => trivial
  · exact h
  · exact hinit
  · exact hkept

/-- A concurrent marker is joined, and while it is its priority is set. -/
def joinedWhileUpdated : List Act :=
  [.notifyConcurrencyIncrease, .advance 0, .advance 0, .join, .updatePriority .userVisible,
    .advance 1, .advance 2, .advance 2]

/-- A user-blocking update leaves the lifted limit alone. -/
theorem kept_iff_keepsLifted_blocking :
    AllStates (step 3) (Kept 3) (.init 3 .userVisible)
      [.join, .updatePriority .userBlocking, .advance 0, .advance 1, .advance 1] := by
  apply (kept_iff_keepsLifted 3 .userVisible _ _ rfl).2
  decide

theorem lifted_lowered :
    ¬ ∀ acts s, run (step 3) (.init 3 .userVisible) acts = some s → Kept 3 s := by
  intro h
  have hlifted := (h joinedWhileUpdated _ rfl).lifted
  revert hlifted
  decide

end WasmerNapi.V8.JobLimit
