import Mathlib

/-!
# Growable arrays, as lists

A vector that is only pushed to, popped from and searched is a list. The one operation
with no list of its own is `swap_remove`: the last element takes the place of the removed
one, so the elements are permuted and nothing is shifted.
-/

namespace Vec

open scoped List

variable {α : Type*}

/-- `swap_remove`: the last element moves into the hole. -/
def swapRemove (l : List α) (i : ℕ) : List α :=
  match l.getLast? with
  | none => []
  | some last => (l.set i last).dropLast

@[simp] theorem swapRemove_concat_self (l : List α) (a : α) :
    swapRemove (l ++ [a]) l.length = l := by
  simp [swapRemove]

theorem swapRemove_concat_of_lt {l : List α} {i : ℕ} (h : i < l.length) (a : α) :
    swapRemove (l ++ [a]) i = l.set i a := by
  simp [swapRemove, List.set_append_left i a h]

/-- What is left is what was there without the element removed. -/
theorem cons_swapRemove_perm {l : List α} {i : ℕ} {a : α} (h : l[i]? = some a) :
    a :: swapRemove l i ~ l := by
  induction l using List.reverseRecOn with
  | nil => simp at h
  | append_singleton l last =>
    by_cases hi : i < l.length
    · rw [List.getElem?_append_left hi] at h
      obtain ⟨_, rfl⟩ := List.getElem?_eq_some_iff.mp h
      rw [swapRemove_concat_of_lt hi, List.set_eq_take_cons_drop last hi]
      have hl : l.take i ++ l[i] :: l.drop (i + 1) = l := by simp
      calc l[i] :: (l.take i ++ last :: l.drop (i + 1))
        _ ~ l.take i ++ l[i] :: last :: l.drop (i + 1) := List.perm_middle.symm
        _ ~ l.take i ++ last :: l[i] :: l.drop (i + 1) :=
            List.Perm.append_left _ (List.Perm.swap ..)
        _ ~ last :: (l.take i ++ l[i] :: l.drop (i + 1)) := List.perm_middle
        _ ~ l ++ [last] := by rw [hl]; exact (List.perm_append_singleton last l).symm
    · have hlt : i < (l ++ [last]).length := (List.getElem?_eq_some_iff.mp h).1
      obtain rfl : i = l.length := by
        rw [List.length_append, List.length_singleton] at hlt
        omega
      obtain rfl : last = a := by simpa using h
      rw [swapRemove_concat_self]
      exact (List.perm_append_singleton last l).symm

end Vec
