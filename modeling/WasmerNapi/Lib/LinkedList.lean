import Mathlib

/-!
# Doubly linked lists

Cells that know the cell before them and the cell after them, and which is the first and which the
last. `Ordered` says that the cells are those of a list, in its order. A cell can be appended, or
unlinked wherever it is: `ordered_append` and `ordered_unlink`. Cells that are not in the list may
be linked to anything.
-/

namespace LinkedList

open Function (update update_self update_of_ne)

variable {α : Type*}

structure Links (α : Type*) where
  previous : α → Option α := fun _ => none
  next : α → Option α := fun _ => none
  head : Option α := none
  tail : Option α := none

structure Links.Ordered (l : Links α) (cells : List α) : Prop where
  nodup : cells.Nodup
  head : l.head = cells.head?
  tail : l.tail = cells.getLast?
  previous : ∀ before a after, cells = before ++ a :: after → l.previous a = before.getLast?
  next : ∀ before a after, cells = before ++ a :: after → l.next a = after.head?

theorem ordered_nil : ({} : Links α).Ordered [] where
  nodup := List.nodup_nil
  head := rfl
  tail := rfl
  previous before a after h := by simp at h
  next before a after h := by simp at h

variable [DecidableEq α]

/-- `a` becomes the last cell. -/
def Links.append (l : Links α) (a : α) : Links α where
  previous := update l.previous a l.tail
  next := match l.tail with
    | some t => update (update l.next a none) t (some a)
    | none => update l.next a none
  head := match l.tail with
    | some _ => l.head
    | none => some a
  tail := some a

/-- The cells before and after `a` become neighbours. -/
def Links.unlink (l : Links α) (a : α) : Links α where
  previous := match l.next a with
    | some q => update l.previous q (l.previous a)
    | none => l.previous
  next := match l.previous a with
    | some p => update l.next p (l.next a)
    | none => l.next
  head := match l.previous a with
    | some _ => l.head
    | none => l.next a
  tail := match l.next a with
    | some _ => l.tail
    | none => l.previous a

variable {l : Links α} {cells before after : List α} {a b : α}

omit [DecidableEq α] in
/-- Where a cell of a list with one more cell at its end is. -/
theorem append_singleton_cases {before' after' : List α}
    (h : cells ++ [a] = before' ++ b :: after') :
    (b = a ∧ before' = cells ∧ after' = []) ∨
      ∃ rest, after' = rest ++ [a] ∧ cells = before' ++ b :: rest := by
  rcases List.eq_nil_or_concat' after' with rfl | ⟨rest, c, rfl⟩
  · obtain ⟨rfl, hb⟩ := List.append_inj' h rfl
    obtain rfl := (List.cons.inj hb).1
    exact Or.inl ⟨rfl, rfl, rfl⟩
  · have h' : cells ++ [a] = (before' ++ b :: rest) ++ [c] := by simpa using h
    obtain ⟨rfl, hc⟩ := List.append_inj' h' rfl
    obtain rfl := (List.cons.inj hc).1
    exact Or.inr ⟨rest, rfl, rfl⟩

omit [DecidableEq α] in
theorem getLast?_eq_none_or (cells : List α) :
    (cells = [] ∧ cells.getLast? = none) ∨ ∃ init t, cells = init ++ [t] ∧ cells.getLast? = some t := by
  rcases List.eq_nil_or_concat' cells with rfl | ⟨init, t, rfl⟩
  · exact Or.inl ⟨rfl, rfl⟩
  · exact Or.inr ⟨init, t, rfl, by simp⟩

theorem ordered_append (h : l.Ordered cells) (ha : a ∉ cells) : (l.append a).Ordered (cells ++ [a]) := by
  have htail := h.tail
  refine ⟨?_, ?_, ?_, ?_, ?_⟩
  · exact List.nodup_append.2 ⟨h.nodup, List.nodup_singleton a, by
      intro x hx y hy
      obtain rfl := List.mem_singleton.1 hy
      exact fun heq => ha (heq ▸ hx)⟩
  · rcases getLast?_eq_none_or cells with ⟨rfl, hlast⟩ | ⟨init, t, rfl, hlast⟩
    · simp only [Links.append, htail, hlast]
      rfl
    · simp only [Links.append, htail, hlast, h.head]
      cases init <;> rfl
  · simp [Links.append]
  · intro before' b after' heq
    rcases append_singleton_cases heq with ⟨rfl, rfl, rfl⟩ | ⟨rest, rfl, rfl⟩
    · exact (update_self ..).trans htail
    · have hne : b ≠ a := by
        rintro rfl
        exact ha (by simp)
      exact (update_of_ne hne ..).trans (h.previous _ _ _ rfl)
  · intro before' b after' heq
    rcases append_singleton_cases heq with ⟨rfl, rfl, rfl⟩ | ⟨rest, rfl, rfl⟩
    · rcases getLast?_eq_none_or before' with ⟨rfl, hlast⟩ | ⟨init, t, rfl, hlast⟩
      · simp only [Links.append, htail, hlast]
        exact update_self ..
      · have hne : b ≠ t := by
          rintro rfl
          exact ha (by simp)
        simp only [Links.append, htail, hlast]
        exact (update_of_ne hne ..).trans (update_self ..)
    · have hne : b ≠ a := by
        rintro rfl
        exact ha (by simp)
      have hnext := h.next _ _ _ rfl
      rcases List.eq_nil_or_concat' rest with rfl | ⟨init, t, rfl⟩
      · -- the last cell so far
        have hlast : l.tail = some b := by rw [htail]; simp
        simp only [Links.append, hlast]
        exact update_self ..
      · have hbt : b ≠ t := by
          rintro rfl
          have hcons := (List.nodup_append.1 h.nodup).2.1
          exact (List.nodup_cons.1 hcons).1 (by simp)
        have hlast : l.tail = some t := by
          rw [htail, ← List.cons_append, ← List.append_assoc, List.getLast?_concat]
        simp only [Links.append, hlast]
        refine (update_of_ne hbt ..).trans ((update_of_ne hne ..).trans ?_)
        rw [hnext]
        cases init <;> rfl

/-- A cell before the one that is unlinked: only the last of these has another next cell. -/
theorem next_unlink_before {before' rest : List α} (h : l.Ordered (before ++ a :: after))
    (heq : before = before' ++ b :: rest) : (l.unlink a).next b = (rest ++ after).head? := by
  subst heq
  have hprevious := h.previous _ _ _ rfl
  have hnext := h.next _ _ _ rfl
  have hb : l.next b = (rest ++ a :: after).head? := h.next before' b _ (by simp)
  rcases List.eq_nil_or_concat' rest with rfl | ⟨init, t, rfl⟩
  · have hlast : l.previous a = some b := by rw [hprevious]; simp
    simp only [Links.unlink, hlast, hnext]
    exact update_self ..
  · have hbt : b ≠ t := by
      rintro rfl
      have hleft := (List.nodup_append.1 h.nodup).1
      have hcons := (List.nodup_append.1 hleft).2.1
      exact (List.nodup_cons.1 hcons).1 (by simp)
    have hlast : l.previous a = some t := by
      rw [hprevious, ← List.cons_append, ← List.append_assoc, List.getLast?_concat]
    simp only [Links.unlink, hlast]
    refine (update_of_ne hbt ..).trans ?_
    rw [hb]
    cases init <;> rfl

/-- The links are the same read backwards. -/
def Links.reverse (l : Links α) : Links α where
  previous := l.next
  next := l.previous
  head := l.tail
  tail := l.head

omit [DecidableEq α] in
theorem Links.Ordered.reverse (h : l.Ordered cells) : l.reverse.Ordered cells.reverse := by
  refine ⟨List.nodup_reverse.2 h.nodup, ?_, ?_, ?_, ?_⟩
  · rw [List.head?_reverse]
    exact h.tail
  · rw [List.getLast?_reverse]
    exact h.head
  · intro before a after heq
    have hcells : cells = after.reverse ++ a :: before.reverse := by
      rw [← List.reverse_reverse cells, heq]
      simp
    rw [← List.head?_reverse]
    exact h.next _ _ _ hcells
  · intro before a after heq
    have hcells : cells = after.reverse ++ a :: before.reverse := by
      rw [← List.reverse_reverse cells, heq]
      simp
    rw [← List.getLast?_reverse]
    exact h.previous _ _ _ hcells

theorem reverse_unlink (l : Links α) (a : α) : (l.unlink a).reverse = l.reverse.unlink a := rfl

/-- A cell after the one that is unlinked. -/
theorem next_unlink_after {before' after' : List α} (h : l.Ordered (before ++ a :: after))
    (heq : after = before' ++ b :: after') : (l.unlink a).next b = after'.head? := by
  subst heq
  have hb : l.next b = after'.head? := h.next (before ++ a :: before') b after' (by simp)
  have hne (p : α) (hp : l.previous a = some p) : b ≠ p := by
    rintro rfl
    rw [h.previous _ _ _ rfl] at hp
    have hmem : b ∈ before := List.mem_of_getLast? hp
    exact (List.nodup_append.1 h.nodup).2.2 b hmem b (by simp) rfl
  cases hprevious : l.previous a with
  | none =>
    simp only [Links.unlink, hprevious]
    exact hb
  | some p =>
    simp only [Links.unlink, hprevious]
    exact (update_of_ne (hne p hprevious) ..).trans hb

theorem next_unlink (h : l.Ordered (before ++ a :: after)) {before' after' : List α}
    (heq : before ++ after = before' ++ b :: after') : (l.unlink a).next b = after'.head? := by
  rcases List.append_eq_append_iff.1 heq with ⟨rest, hbefore, hafter⟩ | ⟨rest, hbefore, hafter⟩
  · exact next_unlink_after h hafter
  · cases rest with
    | nil =>
      rw [List.append_nil] at hbefore
      exact @next_unlink_after _ _ _ _ _ _ _ [] _ h hafter.symm
    | cons c rest =>
      obtain ⟨rfl, rfl⟩ := List.cons.inj hafter
      exact next_unlink_before h hbefore

theorem ordered_unlink (h : l.Ordered (before ++ a :: after)) :
    (l.unlink a).Ordered (before ++ after) := by
  have hprevious := h.previous _ _ _ rfl
  have hnext := h.next _ _ _ rfl
  refine ⟨?_, ?_, ?_, ?_, ?_⟩
  · exact h.nodup.sublist (List.Sublist.append_left (List.sublist_cons_self ..) _)
  · rcases List.eq_nil_or_concat' before with rfl | ⟨init, t, rfl⟩
    · simpa [Links.unlink, hprevious] using hnext
    · simp only [Links.unlink, hprevious, List.getLast?_concat, h.head]
      cases init <;> rfl
  · cases after with
    | nil => simpa [Links.unlink, hnext] using hprevious
    | cons c rest =>
      simp only [Links.unlink, hnext, List.head?_cons, h.tail]
      simp [List.getLast?_append, List.getLast?_cons]
  · intro before' b after' heq
    -- the same of the links read backwards
    have hreverse := h.reverse
    have hsplit : (before ++ a :: after).reverse = after.reverse ++ a :: before.reverse := by simp
    rw [hsplit] at hreverse
    have heq' : after.reverse ++ before.reverse = after'.reverse ++ b :: before'.reverse := by
      rw [← List.reverse_append, heq]
      simp
    have hback := next_unlink hreverse heq'
    rw [← reverse_unlink, List.head?_reverse] at hback
    exact hback
  · exact fun before' b after' heq => next_unlink h heq

end LinkedList
