import Mathlib

/-!
# Computations that may fail

A computation changes a state and ends with a result or an error; what it did before an error
stays done. `bracket` acquires something, works, and releases it whether or not the work failed.

`Simulates` compares two such computations from related states: they succeed together or fail
together with the same error, each time in related states again, unless the left one gives up.
There is a rule for each way computations are put together, so that a comparison of two programs
is a comparison of their calls, one by one.
-/

/-- From a state to a result or an error, and the state it leaves. -/
def Fallible (ε σ α : Type) : Type := σ → Except ε α × σ

namespace Fallible

variable {ε σ τ α β γ δ κ μ : Type}

/-- `f` goes on where `x` succeeds. -/
def andThen (x : Fallible ε σ α) (f : α → Fallible ε σ β) : Fallible ε σ β := fun s =>
  match x s with
  | (.ok a, s) => f a s
  | (.error e, s) => (.error e, s)

instance : Monad (Fallible ε σ) where
  pure a s := (.ok a, s)
  bind := andThen

def fail (e : ε) : Fallible ε σ α := fun s => (.error e, s)

def ofExcept (r : Except ε α) : Fallible ε σ α := fun s => (r, s)

/-- The outcome of `x`, whatever it is. -/
def attempt (x : Fallible ε σ α) : Fallible ε σ (Except ε α) := fun s => (.ok (x s).1, (x s).2)

/-- The state changes, and nothing fails. -/
def modify (f : σ → σ) : Fallible ε σ Unit := fun s => (.ok (), f s)

/-- `body` with what `acquire` gives, which is released whatever becomes of `body`. An error of
    `body` comes before one of `release`. -/
def bracket (acquire : Fallible ε σ κ) (release : κ → Fallible ε σ Unit)
    (body : κ → Fallible ε σ α) : Fallible ε σ α := do
  let k ← acquire
  let result ← attempt (body k)
  let released ← attempt (release k)
  let a ← ofExcept result
  ofExcept released
  pure a

variable {s : σ}

theorem bind_ok {x : Fallible ε σ α} {f : α → Fallible ε σ β} {s' : σ} {a : α}
    (h : x s = (.ok a, s')) : (x >>= f) s = f a s' := by
  show andThen x f s = f a s'
  rw [andThen, h]

theorem bind_error {x : Fallible ε σ α} {f : α → Fallible ε σ β} {s' : σ} {e : ε}
    (h : x s = (.error e, s')) : (x >>= f) s = (.error e, s') := by
  show andThen x f s = (.error e, s')
  rw [andThen, h]

variable {acquire : Fallible ε σ κ} {release : κ → Fallible ε σ Unit} {body : κ → Fallible ε σ α}

/-- With a release that succeeds a bracket ends as its body does. -/
theorem bracket_apply {t u u' : σ} {k : κ} {r : Except ε α} (hacquire : acquire s = (.ok k, t))
    (hbody : body k t = (r, u)) (hrelease : release k u = (.ok (), u')) :
    bracket acquire release body s = (r, u') := by
  have hattempt : attempt (body k) t = (.ok r, u) := by rw [attempt, hbody]
  have hreleased : attempt (release k) u = (.ok (.ok ()), u') := by rw [attempt, hrelease]
  rw [bracket, bind_ok hacquire, bind_ok hattempt, bind_ok hreleased]
  cases r with
  | ok a => rfl
  | error e => rfl

theorem bracket_error {t : σ} {e : ε} (hacquire : acquire s = (.error e, t)) :
    bracket acquire release body s = (.error e, t) :=
  bind_error hacquire

/-! ## Simulation -/

/-- How the ends of two computations compare. -/
inductive Outcome (Q : α → β → σ → τ → Prop) (E : ε → σ → τ → Prop) (G : ε → σ → Prop) :
    Except ε α × σ → Except ε β × τ → Prop
  | ok {a b s t} : Q a b s t → Outcome Q E G (.ok a, s) (.ok b, t)
  | error {e s t} : E e s t → Outcome Q E G (.error e, s) (.error e, t)
  | gaveUp {e s r} : G e s → Outcome Q E G (.error e, s) r

/-- From related states the two end alike, or the left one gives up. -/
def Simulates (R : σ → τ → Prop) (Q : α → β → σ → τ → Prop) (E : ε → σ → τ → Prop)
    (G : ε → σ → Prop) (x : Fallible ε σ α) (y : Fallible ε τ β) : Prop :=
  ∀ s t, R s t → Outcome Q E G (x s) (y t)

variable {R : σ → τ → Prop} {Q : α → β → σ → τ → Prop} {Q' : γ → δ → σ → τ → Prop}
  {E E' : ε → σ → τ → Prop} {G G' : ε → σ → Prop} {x : Fallible ε σ α} {y : Fallible ε τ β}

theorem Simulates.bind {f : α → Fallible ε σ γ} {g : β → Fallible ε τ δ}
    (hx : Simulates R Q E G x y) (hf : ∀ a b, Simulates (Q a b) Q' E G (f a) (g b)) :
    Simulates R Q' E G (x >>= f) (y >>= g) := by
  intro s t hR
  have hxy := hx s t hR
  rcases hxs : x s with ⟨r, s'⟩
  rcases hyt : y t with ⟨r', t'⟩
  rw [hxs, hyt] at hxy
  cases hxy with
  | ok hQ =>
    rw [bind_ok hxs, bind_ok hyt]
    exact hf _ _ _ _ hQ
  | error hE =>
    rw [bind_error hxs, bind_error hyt]
    exact .error hE
  | gaveUp hG =>
    rw [bind_error hxs]
    exact .gaveUp hG

/-- The left one's result may be made into another. -/
theorem Simulates.map {f : α → γ} {P : γ → β → σ → τ → Prop} (hx : Simulates R Q E G x y)
    (hf : ∀ a b s t, Q a b s t → P (f a) b s t) :
    Simulates R P E G (x >>= fun a => pure (f a)) y := by
  intro s t hR
  have hxy := hx s t hR
  rcases hxs : x s with ⟨r, s'⟩
  rcases hyt : y t with ⟨r', t'⟩
  rw [hxs, hyt] at hxy
  cases hxy with
  | ok hQ =>
    rw [bind_ok hxs]
    exact .ok (hf _ _ _ _ hQ)
  | error hE =>
    rw [bind_error hxs]
    exact .error hE
  | gaveUp hG =>
    rw [bind_error hxs]
    exact .gaveUp hG

/-- Two outcomes that went the same way. -/
inductive Matches (Q : α → β → σ → τ → Prop) (E : ε → σ → τ → Prop) :
    Except ε α → Except ε β → σ → τ → Prop
  | ok {a b s t} : Q a b s t → Matches Q E (.ok a) (.ok b) s t
  | error {e s t} : E e s t → Matches Q E (.error e) (.error e) s t

theorem Simulates.attempt (hx : Simulates R Q E (fun _ _ => False) x y) :
    Simulates R (Matches Q E) E' G' (attempt x) (attempt y) := by
  intro s t hR
  have hxy := hx s t hR
  rcases hxs : x s with ⟨r, s'⟩
  rcases hyt : y t with ⟨r', t'⟩
  rw [hxs, hyt] at hxy
  have hs : Fallible.attempt x s = (.ok r, s') := by rw [Fallible.attempt, hxs]
  have ht : Fallible.attempt y t = (.ok r', t') := by rw [Fallible.attempt, hyt]
  rw [hs, ht]
  cases hxy with
  | ok hQ => exact .ok (.ok hQ)
  | error hE => exact .ok (.error hE)
  | gaveUp hG => exact hG.elim

theorem Outcome.mono {P : α → β → σ → τ → Prop} {p : Except ε α × σ} {q : Except ε β × τ}
    (h : Outcome Q E G p q) (hQ : ∀ a b s t, Q a b s t → P a b s t)
    (hE : ∀ e s t, E e s t → E' e s t) (hG : ∀ e s, G e s → G' e s) : Outcome P E' G' p q := by
  cases h with
  | ok hq => exact .ok (hQ _ _ _ _ hq)
  | error he => exact .error (hE _ _ _ he)
  | gaveUp hg => exact .gaveUp (hG _ _ hg)

/-- Two brackets whose releases undo what their acquisitions did, in whatever state the bodies
    leave. -/
theorem Simulates.bracket {acquire' : Fallible ε τ μ} {release' : μ → Fallible ε τ Unit}
    {body' : μ → Fallible ε τ β} {A : κ → μ → σ → τ → Prop} {B : κ → μ → α → β → σ → τ → Prop}
    {F : κ → μ → ε → σ → τ → Prop} {H : κ → ε → σ → Prop}
    (hacquire : Simulates R A E G acquire acquire')
    (hbody : ∀ k l, Simulates (A k l) (B k l) (F k l) (H k) (body k) (body' l))
    (hok : ∀ k l a b s t, B k l a b s t → ∃ s' t', release k s = (.ok (), s') ∧
      release' l t = (.ok (), t') ∧ Q a b s' t')
    (herror : ∀ k l e s t, F k l e s t → ∃ s' t', release k s = (.ok (), s') ∧
      release' l t = (.ok (), t') ∧ E e s' t')
    (hgaveUp : ∀ k e s, H k e s → ∃ s', release k s = (.ok (), s') ∧ G e s') :
    Simulates R Q E G (bracket acquire release body) (bracket acquire' release' body') := by
  intro s t hR
  have hacquired := hacquire s t hR
  rcases hs : acquire s with ⟨r, s₁⟩
  rcases ht : acquire' t with ⟨r', t₁⟩
  rw [hs, ht] at hacquired
  cases hacquired with
  | error hE =>
    rw [bracket_error hs, bracket_error ht]
    exact .error hE
  | gaveUp hG =>
    rw [bracket_error hs]
    exact .gaveUp hG
  | ok hA =>
    rename_i k l
    have hbodies := hbody k l _ _ hA
    rcases hs' : body k s₁ with ⟨r, s₂⟩
    rcases ht' : body' l t₁ with ⟨r', t₂⟩
    rw [hs', ht'] at hbodies
    cases hbodies with
    | ok hB =>
      obtain ⟨s₃, t₃, hrs, hrt, hQ⟩ := hok _ _ _ _ _ _ hB
      rw [bracket_apply hs hs' hrs, bracket_apply ht ht' hrt]
      exact .ok hQ
    | error hF =>
      obtain ⟨s₃, t₃, hrs, hrt, hE⟩ := herror _ _ _ _ _ hF
      rw [bracket_apply hs hs' hrs, bracket_apply ht ht' hrt]
      exact .error hE
    | gaveUp hH =>
      obtain ⟨s₃, hrs, hG⟩ := hgaveUp _ _ _ hH
      rw [bracket_apply hs hs' hrs]
      exact .gaveUp hG

end Fallible
