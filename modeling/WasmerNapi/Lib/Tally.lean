import Mathlib

/-!
# Tallies: what a family of parties holds between them

A shared counter that several parties add to and take from is understood by a
*tally*: a number each party holds, read off its local state, whose sum is what the
counter must show. One party moving changes one summand, and `tally_update` is that
sentence in a form `omega` can use — stated additively, so that no subtraction of
naturals appears.
-/

open Finset

/-- The sum over all parties of what each one's local state holds. -/
def tally {ι α : Type*} [Fintype ι] (held : α → ℕ) (parties : ι → α) : ℕ :=
  ∑ i, held (parties i)

variable {ι α : Type*} [Fintype ι] [DecidableEq ι]

theorem tally_update (held : α → ℕ) (parties : ι → α) (i : ι) (a : α) :
    tally held (Function.update parties i a) + held (parties i) =
      tally held parties + held a := by
  have others : ∀ j ∈ univ.erase i, held (Function.update parties i a j) = held (parties j) :=
    fun j hj => by rw [Function.update_of_ne (ne_of_mem_erase hj)]
  unfold tally
  rw [← add_sum_erase univ (fun j => held (parties j)) (mem_univ i),
    ← add_sum_erase univ (fun j => held (Function.update parties i a j)) (mem_univ i),
    sum_congr rfl others, Function.update_self]
  omega

section

omit [DecidableEq ι]

/-- A party never holds more than the whole tally. -/
theorem held_le_tally (held : α → ℕ) (parties : ι → α) (i : ι) :
    held (parties i) ≤ tally held parties :=
  Finset.single_le_sum (f := fun j => held (parties j)) (fun _ _ => Nat.zero_le _) (mem_univ i)

theorem tally_eq_zero {held : α → ℕ} {parties : ι → α} (h : ∀ i, held (parties i) = 0) :
    tally held parties = 0 :=
  Finset.sum_eq_zero fun i _ => h i

/-- Two readings of the same local states add up summand by summand. -/
theorem tally_add (f g : α → ℕ) (parties : ι → α) :
    tally (fun a => f a + g a) parties = tally f parties + tally g parties :=
  Finset.sum_add_distrib

theorem tally_le_tally {f g : α → ℕ} {parties : ι → α}
    (h : ∀ i, f (parties i) ≤ g (parties i)) : tally f parties ≤ tally g parties :=
  Finset.sum_le_sum fun i _ => h i


end