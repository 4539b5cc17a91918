import Mathlib

/-!
# Runs of a labelled step function

Everything with state here is a step function `step : σ → α → Option σ`: a label
names which party moves and resolves whatever the outside world decides, and
`none` says the move is not enabled. A *run* is a list of labels, `run` replays it,
and a state is reachable exactly when some run ends there — so "in every state of
every interleaving" is a statement quantified over one list.

`run_induction` is the one induction; the invariant lemmas below it are what the
models cite. `AllSteps` is the guarded form: a condition on each label *in the
state it was taken from*.
-/

namespace Run

variable {σ α : Type*}

/-- Replay the labels; `none` as soon as one of them is not enabled. -/
def run (step : σ → α → Option σ) : σ → List α → Option σ
  | s, [] => some s
  | s, a :: as => (step s a).bind fun s' => run step s' as

@[simp] theorem run_nil (step : σ → α → Option σ) (s : σ) : run step s [] = some s := rfl

variable {s : σ} {as : List α}

theorem run_cons_eq_some {step : σ → α → Option σ} {s' : σ} {a : α} :
    run step s (a :: as) = some s' ↔ ∃ t, step s a = some t ∧ run step t as = some s' := by
  simp [run, Option.bind_eq_some_iff]

theorem run_append (step : σ → α → Option σ) (as bs : List α) :
    ∀ s, run step s (as ++ bs) = (run step s as).bind fun t => run step t bs := by
  induction as with
  | nil =>
    intro s
    rfl
  | cons a as ih =>
    intro s
    simp only [List.cons_append, run, Option.bind_assoc]
    exact congrArg _ (funext ih)

/-- Every label of the run satisfies `ok` in the state it is taken from. Labels
    past a disabled one are not taken, so nothing is asked of them. -/
def AllSteps (step : σ → α → Option σ) (ok : σ → α → Prop) : σ → List α → Prop
  | _, [] => True
  | s, a :: as => ok s a ∧ ∀ s', step s a = some s' → AllSteps step ok s' as

/-- Whether a given run meets a decidable condition is decided by replaying it. -/
instance decidableAllSteps (step : σ → α → Option σ) (ok : σ → α → Prop)
    [∀ s a, Decidable (ok s a)] : ∀ (s : σ) (as : List α), Decidable (AllSteps step ok s as)
  | _, [] => isTrue trivial
  | s, a :: as =>
    match h : step s a with
    | none => decidable_of_iff (ok s a)
        ⟨fun hok => ⟨hok, fun s' hs => by rw [h] at hs; cases hs⟩, fun hall => hall.1⟩
    | some t =>
      have := decidableAllSteps step ok t as
      decidable_of_iff (ok s a ∧ AllSteps step ok t as)
        ⟨fun hall => ⟨hall.1, fun s' hs => by rw [h] at hs; cases hs; exact hall.2⟩,
          fun hall => ⟨hall.1, hall.2 t h⟩⟩

theorem AllSteps.mono {step : σ → α → Option σ} {ok ok' : σ → α → Prop}
    (h : ∀ s a, ok s a → ok' s a) :
    ∀ {as : List α} {s : σ}, AllSteps step ok s as → AllSteps step ok' s as
  | [], _, _ => trivial
  | _ :: _, _, ⟨h₁, h₂⟩ => ⟨h _ _ h₁, fun s' hs => (h₂ s' hs).mono h⟩

theorem AllSteps.and {step : σ → α → Option σ} {ok ok' : σ → α → Prop} :
    ∀ {as : List α} {s : σ}, AllSteps step ok s as → AllSteps step ok' s as →
      AllSteps step (fun s a => ok s a ∧ ok' s a) s as
  | [], _, _, _ => trivial
  | _ :: _, _, h, h' => ⟨⟨h.1, h'.1⟩, fun s' hs => (h.2 s' hs).and (h'.2 s' hs)⟩

theorem allSteps_of_forall {step : σ → α → Option σ} {ok : σ → α → Prop}
    (h : ∀ s a, ok s a) : ∀ (as : List α) (s : σ), AllSteps step ok s as
  | [], _ => trivial
  | _ :: as, s => ⟨h s _, fun s' _ => allSteps_of_forall h as s'⟩

variable {Inv : σ → Prop}

/-- **The invariant rule.** What every guarded step preserves, every guarded run
    preserves. -/
theorem invariant_of_allSteps {step : σ → α → Option σ} {ok : σ → α → Prop}
    (hstep : ∀ s a s', step s a = some s' → ok s a → Inv s → Inv s') :
    ∀ {as : List α} {s s' : σ}, run step s as = some s' → AllSteps step ok s as →
      Inv s → Inv s' := by
  intro as
  induction as with
  | nil =>
    intro s s' hr _ hi
    obtain rfl : s = s' := by simpa using hr
    exact hi
  | cons a as ih =>
    intro s s' hr hok hi
    obtain ⟨t, hst, hr'⟩ := run_cons_eq_some.mp hr
    exact ih hr' (hok.2 t hst) (hstep s a t hst hok.1 hi)

/-- What holds of a guarded step where the invariant does, holds of every step of a guarded
    run. -/
theorem allSteps_of_invariant {step : σ → α → Option σ} {ok P : σ → α → Prop}
    (hstep : ∀ s a s', step s a = some s' → ok s a → Inv s → Inv s')
    (hP : ∀ s a, ok s a → Inv s → P s a) :
    ∀ {as : List α} {s : σ}, AllSteps step ok s as → Inv s → AllSteps step P s as := by
  intro as
  induction as with
  | nil =>
    intro s _ _
    trivial
  | cons a as ih =>
    intro s hok hi
    refine ⟨hP s a hok.1 hi, ?_⟩
    intro s' hs
    exact ih (hok.2 s' hs) (hstep s a s' hs hok.1 hi)

/-- The unguarded form: an inductive invariant holds in every reachable state. -/
theorem invariant {step : σ → α → Option σ} (hstep : ∀ s a s', step s a = some s' → Inv s → Inv s')
    {s' : σ} (hr : run step s as = some s') (hi : Inv s) : Inv s' :=
  invariant_of_allSteps (fun s a s' h (_ : True) => hstep s a s' h) hr
    (allSteps_of_forall (fun _ _ => trivial) as s) hi

/-- `P` in the state a run starts from and in every state it goes through. -/
def AllStates (step : σ → α → Option σ) (P : σ → Prop) (s : σ) (as : List α) : Prop :=
  P s ∧ AllSteps step (fun s a => ∀ s', step s a = some s' → P s') s as

instance decidableAfter (step : σ → α → Option σ) (P : σ → Prop) [∀ s, Decidable (P s)] (s : σ)
    (a : α) : Decidable (∀ s', step s a = some s' → P s') :=
  match step s a with
  | none => isTrue fun _ hs => nomatch hs
  | some t => decidable_of_iff (P t)
      ⟨fun hP _ hs => Option.some.inj hs ▸ hP, fun hall => hall t rfl⟩

instance decidableAllStates (step : σ → α → Option σ) (P : σ → Prop) [∀ s, Decidable (P s)] (s : σ)
    (as : List α) : Decidable (AllStates step P s as) :=
  inferInstanceAs (Decidable (_ ∧ _))

theorem allSteps_of_mem {step : σ → α → Option σ} {g : α → Prop} :
    ∀ {as : List α} {s : σ}, (∀ a ∈ as, g a) → AllSteps step (fun _ a => g a) s as
  | [], _, _ => trivial
  | a :: _, _, h => ⟨h a (List.mem_cons_self ..), fun _ _ =>
      allSteps_of_mem fun b hb => h b (List.mem_cons_of_mem _ hb)⟩

/-- Labels from `g` preserve `Inv`, and where it holds and `P` has held so far, such a step
    keeps `P` exactly when it is `ok`: then a run keeps `P` exactly when its steps are. -/
theorem allStates_iff_allSteps {step : σ → α → Option σ} {g : α → Prop} {ok : σ → α → Prop}
    {P : σ → Prop} (hinv : ∀ s a s', g a → step s a = some s' → Inv s → Inv s')
    (hiff : ∀ s a s', g a → step s a = some s' → Inv s → P s → (P s' ↔ ok s a)) :
    ∀ {as : List α} {s t : σ}, (∀ a ∈ as, g a) → run step s as = some t → Inv s → P s →
      (AllStates step P s as ↔ AllSteps step ok s as) := by
  intro as
  induction as with
  | nil =>
    intro s t _ _ _ hP
    exact ⟨fun _ => trivial, fun _ => ⟨hP, trivial⟩⟩
  | cons a as ih =>
    intro s t hg hr hi hP
    have hga := hg a (List.mem_cons_self ..)
    have hgs : ∀ b ∈ as, g b := fun b hb => hg b (List.mem_cons_of_mem _ hb)
    obtain ⟨s', hs, hr'⟩ := run_cons_eq_some.mp hr
    have hi' := hinv s a s' hga hs hi
    have hiff' := hiff s a s' hga hs hi hP
    constructor
    · intro hall
      have hP' : P s' := hall.2.1 s' hs
      refine ⟨hiff'.mp hP', ?_⟩
      intro s'' hs''
      obtain rfl := Option.some.inj (hs.symm.trans hs'')
      exact (ih hgs hr' hi' hP').mp ⟨hP', hall.2.2 s' hs⟩
    · intro hall
      have hP' : P s' := hiff'.mpr hall.1
      have htail := (ih hgs hr' hi' hP').mpr (hall.2 s' hs)
      refine ⟨hP, ?_, ?_⟩
      · intro s'' hs''
        obtain rfl := Option.some.inj (hs.symm.trans hs'')
        exact hP'
      · intro s'' hs''
        obtain rfl := Option.some.inj (hs.symm.trans hs'')
        exact htail.2

/-- Where `P` holds, a step keeps it exactly when it is `ok`: then a run keeps it exactly when
    its steps are. -/
theorem allStates_iff_of_step {step : σ → α → Option σ} {ok : σ → α → Prop} {P : σ → Prop}
    (hiff : ∀ s a s', step s a = some s' → P s → (P s' ↔ ok s a)) {t : σ}
    (hr : run step s as = some t) (hP : P s) :
    AllStates step P s as ↔ AllSteps step ok s as := by
  let I : σ → Prop := fun _ => True
  have hinv : ∀ s a s', True → step s a = some s' → I s → I s' := fun _ _ _ _ _ _ => trivial
  exact allStates_iff_allSteps (g := fun _ => True) hinv
    (fun s a s' _ hs _ hP => hiff s a s' hs hP) (fun _ _ => trivial) hr trivial hP

/-- Where `Inv` holds, a step meets `P` exactly when it is `ok`, and `ok` steps keep `Inv`:
    then the steps of a run all meet `P` exactly when they are all `ok`. -/
theorem allSteps_iff_allSteps {step : σ → α → Option σ} {P ok : σ → α → Prop}
    (hinv : ∀ s a s', step s a = some s' → ok s a → Inv s → Inv s')
    (hiff : ∀ s a, Inv s → (P s a ↔ ok s a)) :
    ∀ {as : List α} {s : σ}, Inv s → (AllSteps step P s as ↔ AllSteps step ok s as) := by
  intro as
  induction as with
  | nil =>
    intro s _
    exact Iff.rfl
  | cons a as ih =>
    intro s hi
    refine (and_congr_left' (hiff s a hi)).trans (and_congr_right fun hok => ?_)
    exact forall_congr' fun s' => forall_congr' fun hs => ih (hinv s a s' hs hok hi)

/-! ## Two runs

What an observer sees of a run is the list of its observable moves. `unwinding` compares
two runs that look alike: a relation between their states that silent moves keep on either
side, and observable moves keep when both make the same one. -/

/-- What `obs` sees of a run. -/
def trace {ω : Type*} (step : σ → α → Option σ) (obs : σ → α → Option ω) : σ → List α → List ω
  | _, [] => []
  | s, a :: as =>
    (obs s a).toList ++ ((step s a).map fun s' => trace step obs s' as).getD []

section

variable {ω : Type*} {step : σ → α → Option σ} {obs : σ → α → Option ω} {ok : σ → α → Prop}

theorem trace_cons {s s' : σ} {a : α} {as : List α} (hs : step s a = some s') :
    trace step obs s (a :: as) = (obs s a).toList ++ trace step obs s' as := by
  simp [trace, hs]

variable {R : σ → σ → Prop}
  (hsilent : ∀ s a s' t, step s a = some s' → ok s a → obs s a = none → R t s → R t s')

include hsilent

/-- The silent moves in front of the first observable one. -/
theorem first_seen {e : ω} {es : List ω} :
    ∀ {bs : List α} {s t t' : σ}, run step t bs = some t' → AllSteps step ok t bs →
      trace step obs t bs = e :: es → R s t →
      ∃ u b u' bs', R s u ∧ step u b = some u' ∧ ok u b ∧ obs u b = some e ∧
        run step u' bs' = some t' ∧ AllSteps step ok u' bs' ∧ trace step obs u' bs' = es := by
  intro bs
  induction bs with
  | nil =>
    intro s t t' _ _ htrace _
    cases htrace
  | cons b bs ih =>
    intro s t t' hr hok htrace hR
    obtain ⟨u, hs, hr'⟩ := run_cons_eq_some.mp hr
    rw [trace_cons hs] at htrace
    cases hobs : obs t b with
    | none =>
      rw [hobs] at htrace
      exact ih hr' (hok.2 u hs) htrace (hsilent t b u s hs hok.1 hobs hR)
    | some e' =>
      rw [hobs] at htrace
      obtain ⟨rfl, htail⟩ := List.cons.inj htrace
      exact ⟨t, b, u, bs, hR, hs, hok.1, hobs, hr', hok.2 u hs, htail⟩

/-- **The unwinding rule.** Two guarded runs with the same trace end in related states. -/
theorem unwinding (symm : ∀ s t, R s t → R t s)
    (hseen : ∀ s a s' t b t' e, step s a = some s' → step t b = some t' → ok s a → ok t b →
      obs s a = some e → obs t b = some e → R s t → R s' t') :
    ∀ {as bs : List α} {s t s' t' : σ}, run step s as = some s' → run step t bs = some t' →
      AllSteps step ok s as → AllSteps step ok t bs →
      trace step obs s as = trace step obs t bs → R s t → R s' t' := by
  intro as
  induction as with
  | nil =>
    -- Nothing is left to see, so all of the other run is silent.
    intro bs s t s' t' hr hr₂ _ hok htrace hR
    obtain rfl : s = s' := by simpa using hr
    induction bs generalizing t with
    | nil =>
      obtain rfl : t = t' := by simpa using hr₂
      exact hR
    | cons b bs ih =>
      obtain ⟨u, hs, hr'⟩ := run_cons_eq_some.mp hr₂
      rw [trace_cons hs] at htrace
      obtain ⟨hnone, htail⟩ := List.nil_eq_append_iff.mp htrace
      have hobs : obs t b = none := by simpa using hnone
      exact ih hr' (hok.2 u hs) htail.symm (hsilent t b u s hs hok.1 hobs hR)
  | cons a as ih =>
    intro bs s t s' t' hr hr₂ hok hok₂ htrace hR
    obtain ⟨u, hs, hr'⟩ := run_cons_eq_some.mp hr
    rw [trace_cons hs] at htrace
    cases hobs : obs s a with
    | none =>
      rw [hobs] at htrace
      have hR' : R u t := symm t u (hsilent s a u t hs hok.1 hobs (symm s t hR))
      exact ih hr' hr₂ (hok.2 u hs) hok₂ htrace hR'
    | some e =>
      rw [hobs] at htrace
      obtain ⟨v, b, v', bs', hRv, hs₂, hokb, hobsb, hr₂', hok₂', htail⟩ :=
        first_seen hsilent hr₂ hok₂ htrace.symm hR
      exact ih hr' hr₂' (hok.2 u hs) hok₂' htail.symm
        (hseen s a u v b v' e hs hs₂ hok.1 hokb hobs hobsb hRv)

end

end Run
