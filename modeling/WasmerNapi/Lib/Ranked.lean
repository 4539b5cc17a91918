import Mathlib

/-!
# Machines that step together

A deterministic machine is a function `next : σ → Option σ`, and has ended where that is
`none`. One machine is matched with another when a relation between their states is kept
by every step of the first: either the other steps with it, or it steps alone and a rank
goes down, so that it does not step alone for ever. Then each state either machine comes
to is related to one the other comes to, and they end together.
-/

namespace Ranked

variable {σ τ : Type*} {next : σ → Option σ} {next' : τ → Option τ}

/-- A machine that has ended stays where it is. -/
def advance (next : σ → Option σ) (s : σ) : σ := (next s).getD s

/-- The state `n` steps on. -/
def after (next : σ → Option σ) (n : ℕ) (s : σ) : σ := (advance next)^[n] s

@[simp] theorem after_zero (s : σ) : after next 0 s = s := rfl

theorem after_succ {s s' : σ} (h : next s = some s') (n : ℕ) :
    after next (n + 1) s = after next n s' := by
  rw [after, Function.iterate_succ_apply, advance, h]
  rfl

theorem after_of_none {s : σ} (h : next s = none) (n : ℕ) : after next n s = s := by
  have hfixed : advance next s = s := by
    rw [advance, h]
    rfl
  exact Function.iterate_fixed hfixed n

theorem after_add (m n : ℕ) (s : σ) : after next (m + n) s = after next n (after next m s) := by
  rw [Nat.add_comm]
  exact Function.iterate_add_apply _ n m s

/-- Once a machine has ended, more steps change nothing. -/
theorem after_of_le {s : σ} {m n : ℕ} (h : next (after next m s) = none) (hle : m ≤ n) :
    after next n s = after next m s := by
  obtain ⟨k, rfl⟩ := Nat.exists_eq_add_of_le hle
  rw [after_add, after_of_none h]

/-- What a state of the first machine can do next to one of the other. -/
inductive Matched (next : σ → Option σ) (next' : τ → Option τ) (R : σ → τ → Prop) (rank : σ → ℕ)
    (s : σ) (t : τ) : Prop
  /-- Both have ended. -/
  | ended (left : next s = none) (right : next' t = none)
  /-- The first steps alone. -/
  | alone (s' : σ) (left : next s = some s') (related : R s' t) (less : rank s' < rank s)
  /-- They step together. -/
  | together (s' : σ) (t' : τ) (left : next s = some s') (right : next' t = some t')
      (related : R s' t')

/-- The relation is kept by every step. -/
def Matches (next : σ → Option σ) (next' : τ → Option τ) (R : σ → τ → Prop) (rank : σ → ℕ) : Prop :=
  ∀ s t, R s t → Matched next next' R rank s t

variable {R : σ → τ → Prop} {rank : σ → ℕ} {s : σ} {t : τ}

/-- Each state of the first machine has its match. -/
theorem Matches.forward (h : Matches next next' R rank) (hr : R s t) (n : ℕ) :
    ∃ m, R (after next n s) (after next' m t) := by
  induction n generalizing s t with
  | zero => exact ⟨0, hr⟩
  | succ n ih =>
    cases h s t hr with
    | ended left right =>
      refine ⟨0, ?_⟩
      rwa [after_of_none left]
    | alone s' left related less =>
      rw [after_succ left]
      exact ih related
    | together s' t' left right related =>
      obtain ⟨m, hm⟩ := ih related
      refine ⟨m + 1, ?_⟩
      rwa [after_succ left, after_succ right]

/-- Each state of the other machine has its match: the first cannot step alone for ever. -/
theorem Matches.backward (h : Matches next next' R rank) (hr : R s t) (m : ℕ) :
    ∃ n, R (after next n s) (after next' m t) := by
  induction m generalizing s t with
  | zero => exact ⟨0, hr⟩
  | succ m ih =>
    induction hk : rank s using Nat.strong_induction_on generalizing s with
    | _ k ihrank =>
      cases h s t hr with
      | ended left right =>
        refine ⟨0, ?_⟩
        rwa [after_of_none right]
      | alone s' left related less =>
        obtain ⟨n, hn⟩ := ihrank (rank s') (hk ▸ less) related rfl
        refine ⟨n + 1, ?_⟩
        rwa [after_succ left]
      | together s' t' left right related =>
        obtain ⟨n, hn⟩ := ih related
        refine ⟨n + 1, ?_⟩
        rwa [after_succ left, after_succ right]

theorem Matches.ended (h : Matches next next' R rank) (hr : R s t) (hs : next s = none) :
    next' t = none := by
  cases h s t hr with
  | ended left right => exact right
  | alone s' left related less =>
    rw [hs] at left
    cases left
  | together s' t' left right related =>
    rw [hs] at left
    cases left

/-- Where the other has ended, the first ends too. -/
theorem Matches.ends (h : Matches next next' R rank) (hr : R s t) (ht : next' t = none) :
    ∃ n, next (after next n s) = none ∧ R (after next n s) t := by
  induction hk : rank s using Nat.strong_induction_on generalizing s with
  | _ k ihrank =>
    cases h s t hr with
    | ended left right => exact ⟨0, left, hr⟩
    | alone s' left related less =>
      obtain ⟨n, hn⟩ := ihrank (rank s') (hk ▸ less) related rfl
      refine ⟨n + 1, ?_⟩
      rwa [after_succ left]
    | together s' t' left right related =>
      rw [ht] at right
      cases right

end Ranked
