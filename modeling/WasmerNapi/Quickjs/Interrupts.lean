import WasmerNapi.Lib.Run
import WasmerNapi.Lib.Table

/-!
# The interrupt handlers of a QuickJS runtime

`napi_runtime_interrupts__` in `src/quickjs/src/internal/napi_env.cc`. The envs of a runtime share
the record of the handler that is installed when they are made; a record forwards to the handler
that was installed before it. An embedder puts handlers of its own on top, each of which saves
and forwards to the one it found, and takes them off again, the last one first, by installing
what it saved.
-/

namespace WasmerNapi.Quickjs.Interrupts

open Function (update update_self update_of_ne)
open Run
open Table (update_cases)

/-- A handler with its opaque pointer. -/
inductive Handler where
  | null
  /-- What was installed on the runtime to begin with. -/
  | original
  | record (r : ℕ)
  | embedder (e : ℕ)
  deriving DecidableEq

/-- `napi_runtime_interrupts__` -/
structure Record where
  previous : Handler
  envs : List ℕ

/-- The records that are allocated, the embedder's handlers with what each saved, the last one
    first, and of every env whether it is there, its `runtime_interrupts_` and its termination
    flag. -/
structure State where
  installed : Handler
  records : ℕ → Option Record := fun _ => none
  saved : ℕ → Handler := fun _ => .null
  stack : List ℕ := []
  live : ℕ → Bool := fun _ => false
  attached : ℕ → Option ℕ := fun _ => none
  terminating : ℕ → Bool := fun _ => false
  /-- Whether the embedder's handlers, and the original one, would report by themselves. -/
  embedderReports : ℕ → Bool := fun _ => false
  originalReports : Bool := false

/-- The handlers in turn, as `runtime_interrupt_handler` and the embedder's call them: none when
    one of them is freed, or when the calls do not end within `fuel`. -/
def poll (s : State) : ℕ → Handler → Option Bool
  | 0, _ => none
  | _ + 1, .null => some false
  | _ + 1, .original => some s.originalReports
  | fuel + 1, .record r =>
    match s.records r with
    | none => none
    | some interrupts =>
      if interrupts.envs.any s.terminating then some true
      else if interrupts.previous ≠ .null then poll s fuel interrupts.previous
      else some false
  | fuel + 1, .embedder e => if s.embedderReports e then some true else poll s fuel (s.saved e)

/-- `installed_runtime_interrupts` -/
def installedRuntimeInterrupts (s : State) : Option ℕ :=
  match s.installed with
  | .record r => some r
  | .null => none
  | .original => none
  | .embedder _ => none

/-- `envs.push_back`; none when the record is freed. -/
def pushEnv (env r : ℕ) (s : State) : Option State :=
  match s.records r with
  | none => none
  | some interrupts =>
    some
      { s with
        records := update s.records r
          (some { interrupts with envs := interrupts.envs ++ [env] })
        attached := update s.attached env (some r) }

/-- `attach_runtime_interrupts`; `storage` is where a new record is allocated, if it is. -/
def attachRuntimeInterrupts (env : ℕ) (storage : Option ℕ) (s : State) : Option State :=
  match installedRuntimeInterrupts s with
  | some r => pushEnv env r s
  | none =>
    match storage with
    | none => some s
    | some r =>
      pushEnv env r
        { s with
          records := update s.records r (some { previous := s.installed, envs := [] })
          installed := .record r }

/-- `detach_runtime_interrupts`, and `runtime_interrupts_` is null. -/
def detachRuntimeInterrupts (env : ℕ) (s : State) : Option State :=
  match s.attached env with
  | none => some s
  | some r =>
    match s.records r with
    | none => none
    | some interrupts =>
      let envs := interrupts.envs.filter (· ≠ env)
      let s := { s with attached := update s.attached env none }
      if envs.isEmpty && s.installed = .record r then
        some
          { s with
            installed := interrupts.previous
            records := update s.records r none }
      else some { s with records := update s.records r (some { interrupts with envs := envs }) }

inductive Act where
  | createEnv (env : ℕ) (storage : Option ℕ)
  | teardownEnv (env : ℕ)
  /-- `request_termination`, and `cancel_termination`. -/
  | setTerminating (env : ℕ) (requested : Bool)
  | install (e : ℕ)
  | restore
  | embedderReports (e : ℕ) (reports : Bool)
  | originalReports (reports : Bool)

/-- What comes of a step: no such step, a use of freed memory, or a state. -/
inductive Outcome where
  | notAStep
  | freed
  | state (s : State)

def Outcome.ofOption : Option State → Outcome
  | none => .freed
  | some s => .state s

/-- An env is made where none is and a record where none is allocated; the embedder's handlers
    are distinct while they are installed. -/
def take (s : State) : Act → Outcome
  | .createEnv env storage =>
    if s.live env = false ∧ ∀ r ∈ storage, (s.records r).isNone then
      .ofOption (attachRuntimeInterrupts env storage
        { s with
          live := update s.live env true
          terminating := update s.terminating env false })
    else .notAStep
  | .teardownEnv env =>
    if s.live env = true then
      .ofOption (detachRuntimeInterrupts env { s with live := update s.live env false })
    else .notAStep
  | .setTerminating env requested =>
    .state { s with terminating := update s.terminating env requested }
  | .install e =>
    if e ∉ s.stack then
      .state
        { s with
          saved := update s.saved e s.installed
          stack := e :: s.stack
          installed := .embedder e }
    else .notAStep
  | .restore =>
    match s.stack with
    | [] => .notAStep
    | e :: rest => .state { s with installed := s.saved e, stack := rest }
  | .embedderReports e reports =>
    .state { s with embedderReports := update s.embedderReports e reports }
  | .originalReports reports => .state { s with originalReports := reports }

def step (s : State) (a : Act) : Option State :=
  match take s a with
  | .state s' => some s'
  | .freed => none
  | .notAStep => none

/-- A runtime with an interrupt handler, or without. -/
def start (handler : Bool) : Handler := if handler then .original else .null

def init (handler : Bool) : State := { installed := start handler }

/-! ## What is asked of the chain -/

/-- The handler a handler calls. -/
def next (s : State) : Handler → Option Handler
  | .null => none
  | .original => none
  | .record r => (s.records r).map Record.previous
  | .embedder e => some (s.saved e)

/-- Reached from the installed handler by calls. -/
def Reached (s : State) (h : Handler) : Prop :=
  Relation.ReflTransGen (fun a b => next s a = some b) s.installed h

/-- The handler, or a record without envs that forwards to it, at any remove. -/
inductive Forwards (s : State) (h : Handler) : Handler → Prop
  | here : Forwards s h h
  | empty {r previous} (hr : s.records r = some { previous := previous, envs := [] })
      (h' : Forwards s h previous) : Forwards s h (.record r)

/-- The chain of handlers is in order. -/
structure Chained (handler : Bool) (s : State) : Prop where
  /-- No freed record is reached, and no step uses one. -/
  allocated : ∀ r, Reached s (.record r) → (s.records r).isSome
  unfreed : ∀ a, take s a ≠ .freed
  /-- Polling ends, and a terminating env on the chain makes it report. -/
  ends : ∃ fuel reports, poll s fuel s.installed = some reports
  reports : ∀ env r, s.live env = true → s.terminating env = true → s.attached env = some r →
    Reached s (.record r) → ∃ fuel, poll s fuel s.installed = some true
  /-- An env that is made is attached to the record that is installed then; it has none only where
      a new record was wanted and there was no memory for it. -/
  attaches : ∀ env storage s', take s (.createEnv env storage) = .state s' → s'.live env = true ∧
    ((∃ r, s'.attached env = some r ∧ s'.installed = .record r) ∨
      (s'.attached env = none ∧ storage = none ∧ ∀ r, s.installed ≠ .record r))
  /-- So it stays until it is torn down, whatever else is done. -/
  keeps : ∀ a env s', take s a = .state s' → s.live env = true → a ≠ .teardownEnv env →
    s'.live env = true ∧ s'.attached env = s.attached env
  detaches : ∀ env s', take s (.teardownEnv env) = .state s' →
    s'.live env = false ∧ s'.attached env = none
  requested : ∀ env requested s', take s (.setTerminating env requested) = .state s' →
    s'.terminating env = requested
  /-- An attached env is listed once, in its record and no other; no other env is listed. -/
  listed : ∀ env r, s.attached env = some r →
    ∃ interrupts, s.records r = some interrupts ∧ interrupts.envs.count env = 1
  lists : ∀ env r interrupts, s.records r = some interrupts → env ∈ interrupts.envs →
    s.attached env = some r ∧ s.live env = true
  /-- Without envs and without the embedder's handlers, the original handler is back. -/
  unwound : (∀ env, s.live env = false) → s.stack = [] → Forwards s (start handler) s.installed

/-! ## The shape of the chain -/

/-- The handler that was last put on top by somebody else than an env. -/
def top (handler : Bool) : List ℕ → Handler
  | [] => start handler
  | e :: _ => .embedder e

/-- A handler that is the topmost foreign one, or a record right on top of it. -/
def Sits (handler : Bool) (s : State) (stack : List ℕ) (h : Handler) : Prop :=
  h = top handler stack ∨
    ∃ r interrupts, h = .record r ∧ s.records r = some interrupts ∧
      interrupts.previous = top handler stack

/-- Each of the embedder's handlers saved a handler that sits on the ones below. -/
def Stacked (handler : Bool) (s : State) : List ℕ → Prop
  | [] => True
  | e :: rest => Sits handler s rest (s.saved e) ∧ Stacked handler s rest

structure Inv (handler : Bool) (s : State) : Prop where
  distinct : s.stack.Nodup
  sits : Sits handler s s.stack s.installed
  stacked : Stacked handler s s.stack
  listed : ∀ env r, s.attached env = some r →
    ∃ interrupts, s.records r = some interrupts ∧ interrupts.envs.count env = 1
  lists : ∀ env r interrupts, s.records r = some interrupts → env ∈ interrupts.envs →
    s.attached env = some r ∧ s.live env = true

theorem top_ne_record (handler : Bool) (stack : List ℕ) (r : ℕ) :
    top handler stack ≠ .record r := by
  cases stack with
  | nil => cases handler <;> simp [top, start]
  | cons e rest => simp [top]

variable {handler : Bool} {s : State} {stack : List ℕ} {r : ℕ}

/-- A record that sits somewhere is allocated. -/
theorem Sits.record (h : Sits handler s stack (.record r)) :
    ∃ interrupts, s.records r = some interrupts ∧ interrupts.previous = top handler stack := by
  rcases h with h | ⟨r', interrupts, h, hr, hprevious⟩
  · exact absurd h.symm (top_ne_record handler stack r)
  · simp only [Handler.record.injEq] at h
    exact ⟨interrupts, h ▸ hr, hprevious⟩

variable {h : Handler}

/-- What is called from a handler that sits on the stack sits on the stack, or further down. -/
theorem sits_next {h' : Handler} (hs : Sits handler s stack h) (hst : Stacked handler s stack)
    (hn : next s h = some h') :
    ∃ stack', Sits handler s stack' h' ∧ Stacked handler s stack' := by
  rcases hs with rfl | ⟨r, interrupts, rfl, hr, hprevious⟩
  · cases stack with
    | nil => cases handler <;> simp [top, start, next] at hn
    | cons e rest =>
      simp only [top, next, Option.some.injEq] at hn
      exact ⟨rest, hn ▸ hst.1, hst.2⟩
  · simp only [next, hr, Option.map_some, Option.some.injEq] at hn
    exact ⟨stack, .inl (hn ▸ hprevious), hst⟩

theorem Inv.reached (inv : Inv handler s) (hr : Reached s h) :
    ∃ stack, Sits handler s stack h ∧ Stacked handler s stack := by
  induction hr with
  | refl => exact ⟨s.stack, inv.sits, inv.stacked⟩
  | tail _ hn ih =>
    obtain ⟨stack, hs, hst⟩ := ih
    exact sits_next hs hst hn

/-- A record on top of a handler that answers answers. -/
theorem poll_sits (htop : ∃ fuel reports, poll s fuel (top handler stack) = some reports)
    (hs : Sits handler s stack h) : ∃ fuel reports, poll s fuel h = some reports := by
  rcases hs with rfl | ⟨r, interrupts, rfl, hr, hprevious⟩
  · exact htop
  · obtain ⟨fuel, reports, hp⟩ := htop
    cases hany : interrupts.envs.any s.terminating with
    | true => exact ⟨1, true, by simp [poll, hr, hany]⟩
    | false =>
      by_cases hnull : interrupts.previous = .null
      · exact ⟨1, false, by simp [poll, hr, hany, hnull]⟩
      · refine ⟨fuel + 1, reports, ?_⟩
        rw [← hprevious] at hp
        simp [poll, hr, hany, hnull, hp]

/-- Polling goes down the stack, and ends at what was there to begin with. -/
theorem poll_ends (stack : List ℕ) (hst : Stacked handler s stack) :
    ∀ h, Sits handler s stack h → ∃ fuel reports, poll s fuel h = some reports := by
  induction stack with
  | nil =>
    have htop : ∃ fuel reports, poll s fuel (top handler []) = some reports := by
      cases handler with
      | false => exact ⟨1, false, rfl⟩
      | true => exact ⟨1, s.originalReports, rfl⟩
    intro h hs
    exact poll_sits htop hs
  | cons e rest ih =>
    have htop : ∃ fuel reports, poll s fuel (top handler (e :: rest)) = some reports := by
      obtain ⟨fuel, reports, hp⟩ := ih hst.2 (s.saved e) hst.1
      cases hown : s.embedderReports e with
      | true => exact ⟨1, true, by simp [top, poll, hown]⟩
      | false => exact ⟨fuel + 1, reports, by simp [top, poll, hown, hp]⟩
    intro h hs
    exact poll_sits htop hs

variable {interrupts : Record} {env : ℕ}

/-- A handler reached reports when a record it leads to lists a terminating env. -/
theorem poll_reports (hr : s.records r = some interrupts) (henv : env ∈ interrupts.envs)
    (hterm : s.terminating env = true) (hreached : Reached s (.record r)) :
    ∃ fuel, poll s fuel s.installed = some true := by
  have hany : interrupts.envs.any s.terminating = true := List.any_eq_true.mpr ⟨env, henv, hterm⟩
  unfold Reached at hreached
  generalize s.installed = start at hreached ⊢
  induction hreached using Relation.ReflTransGen.head_induction_on with
  | refl => exact ⟨1, by simp [poll, hr, hany]⟩
  | @head a b hn _ ih =>
    obtain ⟨fuel, hp⟩ := ih
    cases a with
    | null => simp [next] at hn
    | original => simp [next] at hn
    | embedder e =>
      simp only [next, Option.some.injEq] at hn
      subst hn
      cases hown : s.embedderReports e with
      | true => exact ⟨1, by simp [poll, hown]⟩
      | false => exact ⟨fuel + 1, by simp [poll, hown, hp]⟩
    | record r' =>
      cases hr' : s.records r' with
      | none => simp [next, hr'] at hn
      | some other =>
        simp only [next, hr', Option.map_some, Option.some.injEq] at hn
        subst hn
        have hnull : other.previous ≠ .null := by
          intro he
          rw [he] at hp
          cases fuel <;> simp [poll] at hp
        cases hother : other.envs.any s.terminating with
        | true => exact ⟨1, by simp [poll, hr', hother]⟩
        | false => exact ⟨fuel + 1, by simp [poll, hr', hother, hnull, hp]⟩

/-! ## Steps -/

variable {s' : State}

/-- Where a handler sits depends on the previous handlers of the records alone. -/
theorem Sits.congr (hs : Sits handler s stack h)
    (same : ∀ r interrupts, h = .record r → s.records r = some interrupts →
      ∃ interrupts', s'.records r = some interrupts' ∧
        interrupts'.previous = interrupts.previous) : Sits handler s' stack h := by
  rcases hs with hs | ⟨r, interrupts, hh, hr, hprevious⟩
  · exact .inl hs
  · obtain ⟨interrupts', hr', hprevious'⟩ := same r interrupts hh hr
    exact .inr ⟨r, interrupts', hh, hr', hprevious'.trans hprevious⟩

theorem Stacked.congr (hst : Stacked handler s stack)
    (hsaved : ∀ e ∈ stack, s'.saved e = s.saved e)
    (same : ∀ e ∈ stack, ∀ r interrupts, s.saved e = .record r →
      s.records r = some interrupts → ∃ interrupts', s'.records r = some interrupts' ∧
        interrupts'.previous = interrupts.previous) : Stacked handler s' stack := by
  induction stack with
  | nil => trivial
  | cons e rest ih =>
    refine ⟨?_, ih hst.2 (fun x hx => hsaved x (by simp [hx]))
      (fun x hx => same x (by simp [hx]))⟩
    rw [hsaved e (by simp)]
    exact hst.1.congr fun r interrupts hh hr => same e (by simp) r interrupts hh hr

/-- A change that keeps the chain, and every record with its previous handler. -/
theorem Inv.keep (inv : Inv handler s) (hinstalled : s'.installed = s.installed)
    (hstack : s'.stack = s.stack) (hsaved : s'.saved = s.saved)
    (same : ∀ r interrupts, s.records r = some interrupts →
      ∃ interrupts', s'.records r = some interrupts' ∧
        interrupts'.previous = interrupts.previous) (listed : ∀ env r, s'.attached env = some r →
      ∃ interrupts, s'.records r = some interrupts ∧ interrupts.envs.count env = 1)
    (lists : ∀ env r interrupts, s'.records r = some interrupts → env ∈ interrupts.envs →
      s'.attached env = some r ∧ s'.live env = true) : Inv handler s' := by
  refine ⟨hstack ▸ inv.distinct, ?_, ?_, listed, lists⟩
  · rw [hstack, hinstalled]
    exact inv.sits.congr fun r interrupts _ hr => same r interrupts hr
  · rw [hstack]
    exact inv.stacked.congr (fun e _ => by rw [hsaved]) fun e _ r interrupts _ hr =>
      same r interrupts hr

/-- An env that is not attached is listed nowhere. -/
theorem Inv.not_listed (inv : Inv handler s) (h : s.live env = false) : s.attached env = none ∧
      ∀ r interrupts, s.records r = some interrupts → env ∉ interrupts.envs := by
  have hlist : ∀ r interrupts, s.records r = some interrupts → env ∉ interrupts.envs := by
    intro r interrupts hr hm
    have := (inv.lists env r interrupts hr hm).2
    simp [h] at this
  refine ⟨?_, hlist⟩
  cases ha : s.attached env with
  | none => rfl
  | some r =>
    obtain ⟨interrupts, hr, hcount⟩ := inv.listed env r ha
    have hmem := List.count_pos_iff.mp (by rw [hcount]; exact Nat.one_pos)
    exact absurd hmem (hlist r interrupts hr)

/-- A new env enters a record that is there. -/
theorem inv_pushEnv (inv : Inv handler s) (hr : s.records r = some interrupts)
    (hlive : s.live env = true) (hnone : s.attached env = none)
    (hnot : ∀ r interrupts, s.records r = some interrupts → env ∉ interrupts.envs) :
    ∃ s', pushEnv env r s = some s' ∧ Inv handler s' := by
  refine ⟨_, by simp only [pushEnv, hr]; rfl, ?_⟩
  refine inv.keep rfl rfl rfl ?_ ?_ ?_
  · intro r' other hr'
    by_cases he : r' = r
    · subst he
      obtain rfl := Option.some.inj (hr.symm.trans hr')
      exact ⟨_, update_self .., rfl⟩
    · exact ⟨other, by simp [he, hr'], rfl⟩
  · intro env' r' ha
    by_cases hee : env' = env
    · subst hee
      simp only [update_self, Option.some.injEq] at ha
      subst ha
      refine ⟨_, update_self .., ?_⟩
      simp [List.count_eq_zero_of_not_mem (hnot r interrupts hr)]
    · obtain ⟨other, hother, hcount⟩ := inv.listed env' r' (by simpa [hee] using ha)
      by_cases he : r' = r
      · subst he
        obtain rfl := Option.some.inj (hr.symm.trans hother)
        refine ⟨_, update_self .., ?_⟩
        simp [hcount, Ne.symm hee]
      · exact ⟨other, by simp [he, hother], hcount⟩
  · intro env' r' other hr' hm
    rcases update_cases hr' with ⟨rfl, rfl⟩ | ⟨he, hr'⟩
    · rcases List.mem_append.mp hm with hold | hnew
      · have hne : env' ≠ env := by
          rintro rfl
          exact hnot r' interrupts hr hold
        simpa [hne] using inv.lists env' r' interrupts hr hold
      · obtain rfl := List.mem_singleton.mp hnew
        exact ⟨by simp, hlive⟩
    · have hother : s.records r' = some other := by simpa [he] using hr'
      have hne : env' ≠ env := by
        rintro rfl
        exact hnot r' other hother hm
      simpa [hne] using inv.lists env' r' other hother hm

/-- A new record goes on top of what is installed, which is not one. -/
theorem inv_newRecord (inv : Inv handler s) (hfree : s.records r = none)
    (hinstalled : installedRuntimeInterrupts s = none) :
    Inv handler
      { s with
        records := update s.records r (some { previous := s.installed, envs := [] })
        installed := .record r } := by
  have hother : ∀ r', s.records r' ≠ none → r' ≠ r := by
    rintro r' h rfl
    exact h hfree
  have htop : s.installed = top handler s.stack := by
    rcases inv.sits with h | ⟨r', _, h, _, _⟩
    · exact h
    · simp [installedRuntimeInterrupts, h] at hinstalled
  refine ⟨inv.distinct, .inr ⟨r, _, rfl, update_self .., htop⟩, ?_, ?_, ?_⟩
  · refine inv.stacked.congr ?_ ?_
    · intro e _
      rfl
    intro e _ r' interrupts _ hr'
    exact ⟨interrupts, by simp [hother r' (by simp [hr']), hr'], rfl⟩
  · intro env r' ha
    obtain ⟨interrupts, hr', hcount⟩ := inv.listed env r' ha
    exact ⟨interrupts, by simp [hother r' (by simp [hr']), hr'], hcount⟩
  · intro env r' interrupts hr' hm
    rcases update_cases hr' with ⟨rfl, rfl⟩ | ⟨he, hr'⟩
    · simp at hm
    · exact inv.lists env r' interrupts hr' hm

variable {storage : Option ℕ}

theorem inv_attach (inv : Inv handler s) (hstorage : ∀ r ∈ storage, (s.records r).isNone)
    (hlive : s.live env = true) (hnone : s.attached env = none)
    (hnot : ∀ r interrupts, s.records r = some interrupts → env ∉ interrupts.envs) :
    ∃ s', attachRuntimeInterrupts env storage s = some s' ∧ Inv handler s' := by
  unfold attachRuntimeInterrupts
  cases hi : installedRuntimeInterrupts s with
  | some r =>
    have hinstalled : s.installed = .record r := by
      unfold installedRuntimeInterrupts at hi
      cases hs : s.installed <;> simp_all
    obtain ⟨interrupts, hr, _⟩ := Sits.record (hinstalled ▸ inv.sits)
    exact inv_pushEnv inv hr hlive hnone hnot
  | none =>
    cases storage with
    | none => exact ⟨s, rfl, inv⟩
    | some r =>
      have hfree : s.records r = none := by simpa using hstorage r rfl
      have hnew := inv_newRecord inv hfree hi
      apply inv_pushEnv hnew (update_self ..) hlive hnone
      intro r' interrupts hr' hm
      rcases update_cases hr' with ⟨rfl, rfl⟩ | ⟨he, hr'⟩
      · simp at hm
      · exact hnot r' interrupts hr' hm

/-- A record sits in one place: what it was put on tells which. -/
theorem Stacked.not_saved (hr : s.records r = some interrupts) (hst : Stacked handler s stack)
    (htop : interrupts.previous ≠ start handler)
    (hnot : ∀ e ∈ stack, interrupts.previous ≠ .embedder e) :
    ∀ e ∈ stack, s.saved e ≠ .record r := by
  induction stack with
  | nil => simp
  | cons e rest ih =>
    intro x hx
    rcases List.mem_cons.mp hx with rfl | hx
    · intro hsaved
      obtain ⟨interrupts', hr', hprevious⟩ := Sits.record (hsaved ▸ hst.1)
      obtain rfl := Option.some.inj (hr.symm.trans hr')
      cases rest with
      | nil => exact htop hprevious
      | cons e' rest => exact hnot e' (by simp) hprevious
    · exact ih hst.2 (fun y hy => hnot y (by simp [hy])) x hx

/-- The installed record is saved by none of the embedder's handlers. -/
theorem Inv.not_saved (inv : Inv handler s) (hr : s.records r = some interrupts)
    (hi : s.installed = .record r) :
    interrupts.previous = top handler s.stack ∧ ∀ e ∈ s.stack, s.saved e ≠ .record r := by
  obtain ⟨interrupts', hr', hprevious⟩ := Sits.record (hi ▸ inv.sits)
  obtain rfl := Option.some.inj (hr.symm.trans hr')
  refine ⟨hprevious, ?_⟩
  cases hstack : s.stack with
  | nil => simp
  | cons e rest =>
    rw [hstack] at hprevious
    have hdistinct := inv.distinct
    rw [hstack, List.nodup_cons] at hdistinct
    have hstacked := inv.stacked
    rw [hstack] at hstacked
    intro x hx
    rcases List.mem_cons.mp hx with rfl | hx
    · -- The topmost handler saved something that was put on what is below it.
      intro hsaved
      obtain ⟨other, hr', hbelow⟩ := Sits.record (hsaved ▸ hstacked.1)
      obtain rfl := Option.some.inj (hr.symm.trans hr')
      rw [hprevious] at hbelow
      cases rest with
      | nil => cases handler <;> simp [top, start] at hbelow
      | cons e' rest =>
        simp only [top, Handler.embedder.injEq] at hbelow
        exact hdistinct.1 (by simp [hbelow])
    · apply hstacked.2.not_saved hr _ _ x hx
      · rw [hprevious]
        cases handler <;> simp [top, start]
      · intro y hy
        rw [hprevious]
        simp only [top, ne_eq, Handler.embedder.injEq]
        rintro rfl
        exact hdistinct.1 hy

theorem inv_detach (inv : Inv handler s) (env : ℕ) :
    ∃ s', detachRuntimeInterrupts env { s with live := update s.live env false } =
      some s' ∧ Inv handler s' := by
  cases ha : s.attached env with
  | none =>
    refine ⟨_, by simp only [detachRuntimeInterrupts, ha]; rfl, ?_⟩
    refine inv.keep rfl rfl rfl (fun r interrupts hr => ⟨interrupts, hr, rfl⟩) inv.listed ?_
    intro env' r interrupts hr hm
    have hlists := inv.lists env' r interrupts hr hm
    have hne : env' ≠ env := by
      rintro rfl
      simp [ha] at hlists
    simpa [hne] using hlists
  | some r =>
    obtain ⟨interrupts, hr, hcount⟩ := inv.listed env r ha
    -- The other records do not list the env.
    have hothers : ∀ env' r' other, s.records r' = some other → r' ≠ r → env' ∈ other.envs →
        env' ≠ env := by
      rintro env' r' other hr' hne hm rfl
      have := (inv.lists env' r' other hr' hm).1
      rw [ha] at this
      exact hne (Option.some.inj this).symm
    by_cases hfree : ((interrupts.envs.filter (· ≠ env)).isEmpty &&
        decide (s.installed = .record r)) = true
    · obtain ⟨hempty, hinstalled⟩ := Bool.and_eq_true_iff.mp hfree
      have hinstalled : s.installed = .record r := by simpa using hinstalled
      obtain ⟨hprevious, hsaved⟩ := inv.not_saved hr hinstalled
      refine ⟨_, by simp only [detachRuntimeInterrupts, ha, hr, hfree, if_true]; rfl, ?_⟩
      refine ⟨inv.distinct, .inl hprevious, ?_, ?_, ?_⟩
      · refine inv.stacked.congr ?_ ?_
        · intro e _
          rfl
        · intro e he r' other hh hr'
          have hne : r' ≠ r := by
            rintro rfl
            exact hsaved e he hh
          exact ⟨other, by simp [hne, hr'], rfl⟩
      · intro env' r' ha'
        have hne : env' ≠ env := by
          rintro rfl
          simp at ha'
        have ha' : s.attached env' = some r' := by simpa [hne] using ha'
        obtain ⟨other, hr', hcount'⟩ := inv.listed env' r' ha'
        have hner : r' ≠ r := by
          rintro rfl
          obtain rfl := Option.some.inj (hr.symm.trans hr')
          have hmem : env' ∈ interrupts.envs.filter (· ≠ env) := by
            refine List.mem_filter.mpr ⟨List.count_pos_iff.mp (by omega), by simpa using hne⟩
          rw [List.isEmpty_iff.mp hempty] at hmem
          simp at hmem
        exact ⟨other, by simp [hner, hr'], hcount'⟩
      · intro env' r' other hr' hm
        have hner : r' ≠ r := by
          rintro rfl
          simp at hr'
        have hr' : s.records r' = some other := by simpa [hner] using hr'
        have hne := hothers env' r' other hr' hner hm
        simpa [hne] using inv.lists env' r' other hr' hm
    · refine ⟨_, by simp only [detachRuntimeInterrupts, ha, hr, hfree]; rfl, ?_⟩
      refine inv.keep rfl rfl rfl ?_ ?_ ?_
      · intro r' other hr'
        by_cases he : r' = r
        · subst he
          obtain rfl := Option.some.inj (hr.symm.trans hr')
          exact ⟨_, update_self .., rfl⟩
        · exact ⟨other, by simp [he, hr'], rfl⟩
      · intro env' r' ha'
        have hne : env' ≠ env := by
          rintro rfl
          simp at ha'
        have ha' : s.attached env' = some r' := by simpa [hne] using ha'
        obtain ⟨other, hr', hcount'⟩ := inv.listed env' r' ha'
        by_cases he : r' = r
        · subst he
          obtain rfl := Option.some.inj (hr.symm.trans hr')
          refine ⟨_, update_self .., ?_⟩
          rw [List.count_filter (by simpa using hne)]
          exact hcount'
        · exact ⟨other, by simp [he, hr'], hcount'⟩
      · intro env' r' other hr' hm
        rcases update_cases hr' with ⟨rfl, rfl⟩ | ⟨he, hr'⟩
        · obtain ⟨hm, hne⟩ := List.mem_filter.mp hm
          have hne : env' ≠ env := by simpa using hne
          simpa [hne] using inv.lists env' r' interrupts hr hm
        · have hr' : s.records r' = some other := by simpa [he] using hr'
          have hne := hothers env' r' other hr' he hm
          simpa [hne] using inv.lists env' r' other hr' hm

/-- A change of nothing but what the handlers report. -/
theorem Inv.report (inv : Inv handler s) (terminating embedderReports : ℕ → Bool)
    (originalReports : Bool) :
    Inv handler
      { s with
        terminating := terminating
        embedderReports := embedderReports
        originalReports := originalReports } :=
  inv.keep rfl rfl rfl (fun _ interrupts hr => ⟨interrupts, hr, rfl⟩) inv.listed inv.lists

theorem inv_install (inv : Inv handler s) {e : ℕ} (he : e ∉ s.stack) :
    Inv handler
      { s with
        saved := update s.saved e s.installed
        stack := e :: s.stack
        installed := .embedder e } := by
  refine ⟨List.nodup_cons.mpr ⟨he, inv.distinct⟩, .inl rfl, ⟨?_, ?_⟩, inv.listed, inv.lists⟩
  · simp only [update_self]
    exact inv.sits.congr fun r interrupts _ hr => ⟨interrupts, hr, rfl⟩
  · refine inv.stacked.congr ?_ ?_
    · intro x hx
      have hne : x ≠ e := by
        rintro rfl
        exact he hx
      simp [hne]
    · intro x _ r interrupts _ hr
      exact ⟨interrupts, hr, rfl⟩

theorem inv_restore (inv : Inv handler s) {e : ℕ} {rest : List ℕ} (hstack : s.stack = e :: rest) :
    Inv handler { s with installed := s.saved e, stack := rest } := by
  have hdistinct := inv.distinct
  have hstacked := inv.stacked
  rw [hstack] at hdistinct hstacked
  refine ⟨(List.nodup_cons.mp hdistinct).2, ?_, ?_, inv.listed, inv.lists⟩
  · exact hstacked.1.congr fun r interrupts _ hr => ⟨interrupts, hr, rfl⟩
  · exact hstacked.2.congr (fun _ _ => rfl) fun _ _ r interrupts _ hr => ⟨interrupts, hr, rfl⟩

/-- Every step keeps the shape, and uses no freed record. -/
theorem inv_take (inv : Inv handler s) (a : Act) :
    take s a ≠ .freed ∧ ∀ s', take s a = .state s' → Inv handler s' := by
  cases a with
  | createEnv env storage =>
    by_cases hg : s.live env = false ∧ ∀ r ∈ storage, (s.records r).isNone
    · obtain ⟨hnone, hnot⟩ := inv.not_listed hg.1
      have hmade : Inv handler
          { s with
            live := update s.live env true
            terminating := update s.terminating env false } := by
        refine inv.keep rfl rfl rfl (fun r interrupts hr => ⟨interrupts, hr, rfl⟩) inv.listed ?_
        intro env' r interrupts hr hm
        have hne : env' ≠ env := by
          rintro rfl
          exact hnot r interrupts hr hm
        simpa [hne] using inv.lists env' r interrupts hr hm
      obtain ⟨s', hs', hinv⟩ :=
        inv_attach hmade hg.2 (update_self ..) hnone hnot
      simp only [take, if_pos hg, hs', Outcome.ofOption]
      refine ⟨by simp, ?_⟩
      intro t ht
      simp only [Outcome.state.injEq] at ht
      exact ht ▸ hinv
    · simp only [take, if_neg hg]
      exact ⟨by simp, by simp⟩
  | teardownEnv env =>
    cases hl : s.live env with
    | false => simp [take, hl]
    | true =>
      obtain ⟨s', hs', hinv⟩ := inv_detach inv env
      simp only [take, hl, if_true, hs', Outcome.ofOption]
      refine ⟨by simp, ?_⟩
      intro t ht
      simp only [Outcome.state.injEq] at ht
      exact ht ▸ hinv
  | setTerminating env requested =>
    refine ⟨by simp [take], ?_⟩
    intro t ht
    simp only [take, Outcome.state.injEq] at ht
    exact ht ▸ inv.report _ s.embedderReports s.originalReports
  | install e =>
    by_cases he : e ∈ s.stack
    · simp [take, he]
    · refine ⟨by simp [take, he], ?_⟩
      intro t ht
      simp only [take, he, not_false_eq_true, if_true, Outcome.state.injEq] at ht
      exact ht ▸ inv_install inv he
  | restore =>
    cases hstack : s.stack with
    | nil => simp [take, hstack]
    | cons e rest =>
      refine ⟨by simp [take, hstack], ?_⟩
      intro t ht
      simp only [take, hstack, Outcome.state.injEq] at ht
      exact ht ▸ inv_restore inv hstack
  | embedderReports e reports =>
    refine ⟨by simp [take], ?_⟩
    intro t ht
    simp only [take, Outcome.state.injEq] at ht
    exact ht ▸ inv.report s.terminating _ s.originalReports
  | originalReports reports =>
    refine ⟨by simp [take], ?_⟩
    intro t ht
    simp only [take, Outcome.state.injEq] at ht
    exact ht ▸ inv.report s.terminating s.embedderReports _

/-! ## Which envs are attached -/

theorem Outcome.of_eq_state {o : Option State} (h : Outcome.ofOption o = .state s') :
    o = some s' := by
  cases o with
  | none => cases h
  | some s =>
    cases h
    rfl

theorem pushEnv_spec (h : pushEnv env r s = some s') :
    s'.live = s.live ∧ s'.installed = s.installed ∧
      s'.attached = update s.attached env (some r) := by
  unfold pushEnv at h
  split at h
  · cases h
  · cases h
    exact ⟨rfl, rfl, rfl⟩

/-- An attach leaves the env in the record that is installed then, or changes nothing. -/
theorem attachRuntimeInterrupts_spec (h : attachRuntimeInterrupts env storage s = some s') :
    s'.live = s.live ∧
      ((∃ r, s'.attached = update s.attached env (some r) ∧ s'.installed = .record r) ∨
        (s'.attached = s.attached ∧ storage = none ∧ ∀ r, s.installed ≠ .record r)) := by
  unfold attachRuntimeInterrupts at h
  split at h
  · next r hr =>
    obtain ⟨hlive, hinstalled, hattached⟩ := pushEnv_spec h
    refine ⟨hlive, .inl ⟨r, hattached, hinstalled.trans ?_⟩⟩
    unfold installedRuntimeInterrupts at hr
    split at hr <;> cases hr
    assumption
  · next hnone =>
    split at h
    · cases h
      refine ⟨rfl, .inr ⟨rfl, rfl, ?_⟩⟩
      intro r hr
      rw [installedRuntimeInterrupts, hr] at hnone
      cases hnone
    · obtain ⟨hlive, hinstalled, hattached⟩ := pushEnv_spec h
      exact ⟨hlive, .inl ⟨_, hattached, hinstalled⟩⟩

theorem detachRuntimeInterrupts_spec (h : detachRuntimeInterrupts env s = some s') :
    s'.live = s.live ∧ s'.attached = update s.attached env none := by
  unfold detachRuntimeInterrupts at h
  split at h
  · next hnone =>
    cases h
    refine ⟨rfl, ?_⟩
    rw [← hnone, Function.update_eq_self]
  · split at h
    · cases h
    · dsimp only at h
      split at h
      · cases h
        exact ⟨rfl, rfl⟩
      · cases h
        exact ⟨rfl, rfl⟩

theorem take_createEnv (h : take s (.createEnv env storage) = .state s') :
    s.live env = false ∧ s'.live = update s.live env true ∧
      ((∃ r, s'.attached = update s.attached env (some r) ∧ s'.installed = .record r) ∨
        (s'.attached = s.attached ∧ storage = none ∧ ∀ r, s.installed ≠ .record r)) := by
  simp only [take] at h
  split at h
  · next hg => exact ⟨hg.1, attachRuntimeInterrupts_spec (Outcome.of_eq_state h)⟩
  · cases h

theorem take_teardownEnv (h : take s (.teardownEnv env) = .state s') :
    s'.live = update s.live env false ∧
      s'.attached = update s.attached env none := by
  simp only [take] at h
  split at h
  · exact detachRuntimeInterrupts_spec (Outcome.of_eq_state h)
  · cases h

/-- A live env stays as it is through every step but its own teardown. -/
theorem take_keeps {a : Act} (h : take s a = .state s') (hlive : s.live env = true)
    (ha : a ≠ .teardownEnv env) :
    s'.live env = true ∧ s'.attached env = s.attached env := by
  cases a with
  | createEnv other storage =>
    obtain ⟨hnew, hlives, hattached⟩ := take_createEnv h
    have hne : env ≠ other := by
      rintro rfl
      rw [hlive] at hnew
      cases hnew
    rw [hlives, update_of_ne hne]
    refine ⟨hlive, ?_⟩
    rcases hattached with ⟨r, hattached, -⟩ | ⟨hattached, -⟩
    · rw [hattached, update_of_ne hne]
    · rw [hattached]
  | teardownEnv other =>
    obtain ⟨hlives, hattached⟩ := take_teardownEnv h
    have hne : env ≠ other := by
      rintro rfl
      exact ha rfl
    rw [hlives, hattached, update_of_ne hne, update_of_ne hne]
    exact ⟨hlive, rfl⟩
  | install e =>
    simp only [take] at h
    split at h
    · cases h
      exact ⟨hlive, rfl⟩
    · cases h
  | restore =>
    simp only [take] at h
    split at h
    · cases h
    · cases h
      exact ⟨hlive, rfl⟩
  | setTerminating _ _ | embedderReports _ _ | originalReports _ =>
    cases h
    exact ⟨hlive, rfl⟩

theorem inv_step {a : Act} (h : step s a = some s') (inv : Inv handler s) : Inv handler s' := by
  unfold step at h
  cases ht : take s a with
  | notAStep => simp [ht] at h
  | freed => simp [ht] at h
  | state t =>
    simp only [ht, Option.some.injEq] at h
    exact h ▸ (inv_take inv a).2 t ht

theorem inv_init (handler : Bool) : Inv handler (init handler) := by
  refine ⟨List.nodup_nil, .inl rfl, trivial, ?_, ?_⟩
  · intro env r h
    simp [init] at h
  · intro env r interrupts h
    simp [init] at h

theorem Inv.unwound (inv : Inv handler s) (hlive : ∀ env, s.live env = false)
    (hstack : s.stack = []) :
    Forwards s (start handler) s.installed := by
  have hsits := inv.sits
  rw [hstack] at hsits
  rcases hsits with h | ⟨r, interrupts, h, hr, hprevious⟩
  · rw [h]
    exact .here
  · have hempty : interrupts.envs = [] := by
      apply List.eq_nil_iff_forall_not_mem.mpr
      intro env hm
      have := (inv.lists env r interrupts hr hm).2
      simp [hlive env] at this
    rw [h]
    apply Forwards.empty _ Forwards.here
    rw [hr]
    cases interrupts with
    | mk previous envs =>
      simp only at hempty hprevious
      simp [hempty, hprevious, top]

theorem Inv.chained (inv : Inv handler s) : Chained handler s := by
  refine ⟨?_, fun a => (inv_take inv a).1, ?_, ?_, ?_, fun _ _ _ => take_keeps, ?_, ?_,
    inv.listed, inv.lists, inv.unwound⟩
  · intro r hr
    obtain ⟨stack, hs, _⟩ := inv.reached hr
    obtain ⟨interrupts, hr, _⟩ := hs.record
    simp [hr]
  · exact poll_ends s.stack inv.stacked s.installed inv.sits
  · intro env r _ hterm ha hreached
    obtain ⟨interrupts, hr, hcount⟩ := inv.listed env r ha
    have hmem : env ∈ interrupts.envs := List.count_pos_iff.mp (by omega)
    exact poll_reports hr hmem hterm hreached
  · intro env storage s' h
    obtain ⟨hnew, hlive, hattached⟩ := take_createEnv h
    refine ⟨by rw [hlive, update_self], ?_⟩
    rcases hattached with ⟨r, hattached, hinstalled⟩ | ⟨hattached, hstorage, hnone⟩
    · exact .inl ⟨r, by rw [hattached, update_self], hinstalled⟩
    · exact .inr ⟨by rw [hattached]; exact (inv.not_listed hnew).1, hstorage, hnone⟩
  · intro env s' h
    obtain ⟨hlive, hattached⟩ := take_teardownEnv h
    rw [hlive, hattached, update_self, update_self]
    exact ⟨rfl, rfl⟩
  · intro env requested s' h
    cases h
    exact update_self ..

/-- In every state of every run the chain of handlers is in order: it reaches no freed record,
    it reports for a terminating env whose record is on it, an env is attached from its making to
    its teardown and listed in its record alone, and once the chain is unwound the original handler
    is back. -/
theorem interrupts_chained (handler : Bool) (acts : List Act) :
    AllStates step (Chained handler) (init handler) acts := by
  have hkeeps (s : State) (a : Act) (s' : State) (h : step s a = some s') (_ : True)
      (inv : Inv handler s) : Inv handler s' := inv_step h inv
  have hafter (s : State) (a : Act) (_ : True) (inv : Inv handler s) (s' : State)
      (h : step s a = some s') : Chained handler s' := (inv_step h inv).chained
  refine ⟨(inv_init handler).chained, ?_⟩
  exact allSteps_of_invariant hkeeps hafter (allSteps_of_forall (fun _ _ => trivial) acts _)
    (inv_init handler)

/-- An env is made, the embedder puts a handler of its own on top, and the env is to terminate. -/
def terminatedUnder : List Act := [.createEnv 0 (some 5), .install 3, .setTerminating 0 true]

theorem terminatedUnder_reports : ∃ s, run step (init true) terminatedUnder = some s ∧
    s.attached 0 = some 5 ∧ s.installed = .embedder 3 ∧
      ∃ fuel, poll s fuel s.installed = some true := by
  have hall := (interrupts_chained true terminatedUnder).2
  have hlast : Chained true _ := ((hall.2 _ rfl).2 _ rfl).1 _ rfl
  refine ⟨_, rfl, rfl, rfl, hlast.reports 0 5 rfl rfl rfl ?_⟩
  exact Relation.ReflTransGen.single rfl

end WasmerNapi.Quickjs.Interrupts
