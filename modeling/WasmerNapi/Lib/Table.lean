import Mathlib

/-!
# Tables with a running total

A hash map whose iteration order nobody observes is Mathlib's `AList`: a list of
entries with the proof that no key occurs twice. What the programs here do beyond
lookup is *sum* — a counter elsewhere must show the total of some quantity over the
entries — so this file adds `total` and one equation for each way an entry comes,
goes or changes. The equations are additive, for `omega`. A table that is a function
is one `update` on from the last, and `update_cases` says what is then under a key.
-/

namespace Table

open List

variable {κ : Type*} {ν : Type*} [DecidableEq κ]

/-- The sum over all entries of what each one counts for. -/
def total (f : κ → ν → ℕ) (t : AList fun _ : κ => ν) : ℕ := (t.entries.map fun e => f e.1 e.2).sum

section

variable {f : κ → Option ν} {a b : κ} {v x : ν}

/-- What is under a key once one is set. -/
theorem update_cases (h : Function.update f a (some v) b = some x) :
    b = a ∧ x = v ∨ b ≠ a ∧ f b = some x := by
  by_cases heq : b = a
  · rw [heq, Function.update_self] at h
    exact .inl ⟨heq, (Option.some.inj h).symm⟩
  · rw [Function.update_of_ne heq] at h
    exact .inr ⟨heq, h⟩

theorem update_none_cases (h : Function.update f a none b = some x) : b ≠ a ∧ f b = some x := by
  by_cases heq : b = a
  · rw [heq, Function.update_self] at h
    cases h
  · exact ⟨heq, (Function.update_of_ne heq ..).symm.trans h⟩

/-- Where a map ends, it still does when a key is set that it has. -/
theorem update_fresh {f : ℕ → Option ν} {n i j : ℕ} {v : Option ν} (hfresh : ∀ j, n ≤ j → f j = none)
    (hi : f i = some x) (hj : n ≤ j) : Function.update f i v j = none := by
  have hne : j ≠ i := by
    rintro rfl
    rw [hfresh j hj] at hi
    cases hi
  rw [Function.update_of_ne hne, hfresh j hj]

theorem update_ne_none (h : f b ≠ none) : Function.update f a (some v) b ≠ none := by
  intro hnone
  by_cases heq : b = a
  · rw [heq, Function.update_self] at hnone
    cases hnone
  · exact h ((Function.update_of_ne heq ..).symm.trans hnone)

end

variable (f : κ → ν → ℕ)

omit [DecidableEq κ] in
@[simp] theorem total_empty : total f (∅ : AList fun _ : κ => ν) = 0 := rfl

omit [DecidableEq κ] in
theorem mul_total (c : ℕ) (t : AList fun _ : κ => ν) :
    c * total f t = total (fun k v => c * f k v) t :=
  (List.sum_map_mul_left ..).symm

variable {k : κ} {v : ν}

theorem sum_kerase {l : List (Σ _ : κ, ν)} (h : dlookup k l = some v) :
    ((kerase k l).map fun e => f e.1 e.2).sum + f k v = (l.map fun e => f e.1 e.2).sum := by
  induction l with
  | nil => simp at h
  | cons e l ih =>
    obtain ⟨k', v'⟩ := e
    by_cases hk : k = k'
    · subst hk
      obtain rfl : v' = v := by simpa using h
      simp [Nat.add_comm]
    · rw [dlookup_cons_ne _ _ hk] at h
      have := ih h
      rw [kerase_cons_ne hk]
      simp only [map_cons, sum_cons]
      omega

variable {t : AList fun _ : κ => ν}

theorem total_erase (h : t.lookup k = some v) :
    total f (t.erase k) + f k v = total f t := sum_kerase f h

theorem total_insert_of_notMem (h : k ∉ t) (v : ν) :
    total f (t.insert k v) = f k v + total f t := by
  rw [total, AList.entries_insert_of_notMem h]
  rfl

theorem total_insert_of_lookup (h : t.lookup k = some v) (v' : ν) :
    total f (t.insert k v') + f k v = f k v' + total f t := by
  have := total_erase f h
  simp only [total, AList.entries_insert, map_cons, sum_cons, AList.erase] at this ⊢
  omega

theorem le_total (h : t.lookup k = some v) :
    f k v ≤ total f t := by
  have := total_erase f h
  omega

theorem lookup_insert_iff {k' : κ} {v' : ν} :
    (t.insert k v).lookup k' = some v' ↔ k' = k ∧ v' = v ∨ k' ≠ k ∧ t.lookup k' = some v' := by
  by_cases hk : k' = k
  · subst hk
    rw [AList.lookup_insert]
    simp [eq_comm]
  · rw [AList.lookup_insert_ne hk]
    simp [hk]

theorem lookup_erase_iff {k' : κ} :
    (t.erase k).lookup k' = some v ↔ k' ≠ k ∧ t.lookup k' = some v := by
  by_cases hk : k' = k
  · subst hk
    rw [AList.lookup_erase]
    simp
  · rw [AList.lookup_erase_ne hk]
    simp [hk]

theorem mem_of_lookup_ne_none (h : t.lookup k ≠ none) :
    k ∈ t :=
  AList.lookup_isSome.mp (Option.isSome_iff_ne_none.mpr h)

/-- A quantity that is smaller entry by entry is smaller in total. -/
theorem total_le_total {f g : κ → ν → ℕ} (h : ∀ k v, t.lookup k = some v → f k v ≤ g k v) :
    total f t ≤ total g t := by
  refine List.sum_le_sum fun e he => h e.1 e.2 ?_
  exact AList.mem_lookup_iff.mpr he

end Table
