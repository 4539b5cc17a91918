import Mathlib

/-!
# Intrusive rings

Circular doubly linked lists whose links live inside the elements. A *ring* hangs on a
head, which is a node as well; an element that is in no ring is linked to itself, and so
is the head of an empty one. `Links` is the heap: where each node's two pointers go.
`link`, `unlink`, `first`, `linked`, `count` and `drain` are the pointer operations, with no list
in sight.

`Reps` says which lists a heap of links stands for, for a whole family of rings at once,
and there is one rule for each operation: `link` conses, `unlink` erases, `first` is the
head, `linked` is membership, walking a ring yields it. Callers reason about lists.
-/

namespace Ring

open Function
open List (mem_cons_self mem_cons_of_mem mem_map nodup_cons nodup_append)

variable {σ ε : Type*}

/-- The two pointers of every node: heads on the left, elements on the right. -/
structure Links (σ ε : Type*) where
  next : σ ⊕ ε → σ ⊕ ε
  prev : σ ⊕ ε → σ ⊕ ε

namespace Links

variable [DecidableEq σ] [DecidableEq ε]

/-- Insert `x` right after `u`. -/
def link (L : Links σ ε) (u x : σ ⊕ ε) : Links σ ε :=
  let next := update L.next x (L.next u)
  let prev := update L.prev x u
  { next := update next u x, prev := update prev (next u) x }

def unlink (L : Links σ ε) (x : σ ⊕ ε) : Links σ ε :=
  let next := update L.next (L.prev x) (L.next x)
  let prev := update L.prev (next x) (L.prev x)
  { next := update next x x, prev := update prev x x }

def linked (L : Links σ ε) (x : σ ⊕ ε) : Bool := decide (L.next x ≠ x)

def first (L : Links σ ε) (u : σ ⊕ ε) : Option (σ ⊕ ε) :=
  if L.next u = u then none else some (L.next u)

/-- The nodes from `u` on, until `stop` comes round; `none` if it does not in `fuel` steps. -/
def walk (L : Links σ ε) (stop : σ ⊕ ε) : ℕ → σ ⊕ ε → Option (List (σ ⊕ ε))
  | 0, u => if u = stop then some [] else none
  | fuel + 1, u => if u = stop then some [] else (walk L stop fuel (L.next u)).map (u :: ·)

def count (L : Links σ ε) (fuel : ℕ) (u : σ ⊕ ε) : Option ℕ :=
  (L.walk u fuel (L.next u)).map List.length

/-- Unlink the first element until there is none. -/
def drain : ℕ → Links σ ε → σ ⊕ ε → Option (Links σ ε)
  | 0, L, u => if L.first u = none then some L else none
  | fuel + 1, L, u =>
    match L.first u with
    | none => some L
    | some x => drain fuel (L.unlink x) u

/-- The nodes in `P` are constructed: each is linked to itself. -/
def construct (L : Links σ ε) (P : σ ⊕ ε → Prop) [DecidablePred P] : Links σ ε where
  next := fun u => if P u then u else L.next u
  prev := fun u => if P u then u else L.prev u

/-- Every node linked to itself. -/
def apart : Links σ ε where
  next := id
  prev := id

end Links

/-! ## Paths -/

/-- From `u` through `xs` to `v`, in both directions. -/
def Path (L : Links σ ε) : σ ⊕ ε → List ε → σ ⊕ ε → Prop
  | u, [], v => L.next u = v ∧ L.prev v = u
  | u, x :: xs, v => L.next u = .inr x ∧ L.prev (.inr x) = u ∧ Path L (.inr x) xs v

variable {L M : Links σ ε} {u v : σ ⊕ ε} {x : ε} {xs ys : List ε}

/-- The node a path goes to first. -/
def firstOf (xs : List ε) (v : σ ⊕ ε) : σ ⊕ ε := (xs.head?.map Sum.inr).getD v

theorem Path.next (h : Path L u xs v) : L.next u = firstOf xs v := by
  cases xs with
  | nil => exact h.1
  | cons x xs => exact h.1

/-- A path depends on the pointers along it. -/
theorem Path.congr (h : Path L u xs v)
    (hnext : ∀ n, n = u ∨ n ∈ xs.map Sum.inr → M.next n = L.next n)
    (hprev : ∀ n, n = v ∨ n ∈ xs.map Sum.inr → M.prev n = L.prev n) : Path M u xs v := by
  induction xs generalizing u with
  | nil => exact ⟨(hnext u (Or.inl rfl)).trans h.1, (hprev v (Or.inl rfl)).trans h.2⟩
  | cons x xs ih =>
    obtain ⟨hfirst, hback, hrest⟩ := h
    have hmem : (Sum.inr x : σ ⊕ ε) ∈ (x :: xs).map Sum.inr := mem_cons_self ..
    refine ⟨(hnext u (Or.inl rfl)).trans hfirst, (hprev _ (Or.inr hmem)).trans hback, ?_⟩
    refine ih hrest ?_ ?_
    · rintro n (rfl | hn)
      · exact hnext _ (Or.inr hmem)
      · exact hnext n (Or.inr (mem_cons_of_mem _ hn))
    · rintro n (rfl | hn)
      · exact hprev n (Or.inl rfl)
      · exact hprev n (Or.inr (mem_cons_of_mem _ hn))

theorem path_append : Path L u (xs ++ x :: ys) v ↔ Path L u xs (.inr x) ∧ Path L (.inr x) ys v := by
  induction xs generalizing u with
  | nil => exact and_assoc.symm
  | cons y xs ih =>
    rw [List.cons_append]
    show _ ∧ _ ∧ _ ↔ (_ ∧ _ ∧ _) ∧ _
    rw [ih, and_assoc, and_assoc]

/-- The node a path comes from last. -/
theorem Path.prev (h : Path L u xs v) : L.prev v = u ∨ L.prev v ∈ xs.map Sum.inr := by
  induction xs generalizing u with
  | nil => exact Or.inl h.2
  | cons x xs ih =>
    rcases ih h.2.2 with heq | hmem
    · exact Or.inr (heq ▸ mem_cons_self ..)
    · exact Or.inr (mem_cons_of_mem _ hmem)

theorem firstOf_mem (xs : List ε) (v : σ ⊕ ε) :
    firstOf xs v = v ∨ firstOf xs v ∈ xs.map Sum.inr := by
  cases xs with
  | nil => exact Or.inl rfl
  | cons x xs => exact Or.inr (mem_cons_self ..)

theorem mem_inr {y : ε} : (Sum.inr y : σ ⊕ ε) ∈ xs.map Sum.inr ↔ y ∈ xs :=
  List.mem_map_of_injective Sum.inr_injective

variable [DecidableEq σ] [DecidableEq ε]

theorem Links.link_next (L : Links σ ε) (s : σ) (x : ε) (n : σ ⊕ ε) :
    (L.link (.inl s) (.inr x)).next n =
      if n = .inl s then .inr x else if n = .inr x then L.next (.inl s) else L.next n := by
  unfold Links.link
  dsimp only
  rw [update_apply, update_apply]

theorem Links.link_prev (L : Links σ ε) (s : σ) (x : ε) (n : σ ⊕ ε) :
    (L.link (.inl s) (.inr x)).prev n =
      if n = L.next (.inl s) then .inr x else if n = .inr x then .inl s else L.prev n := by
  have hne : (Sum.inl s : σ ⊕ ε) ≠ .inr x := Sum.inl_ne_inr
  unfold Links.link
  dsimp only
  rw [update_of_ne hne, update_apply, update_apply]

theorem Links.unlink_next (L : Links σ ε) (x n : σ ⊕ ε) :
    (L.unlink x).next n = if n = x then x else if n = L.prev x then L.next x else L.next n := by
  unfold Links.unlink
  dsimp only
  rw [update_apply, update_apply]

theorem Links.unlink_prev (L : Links σ ε) {x : σ ⊕ ε} (hx : L.prev x ≠ x) (n : σ ⊕ ε) :
    (L.unlink x).prev n = if n = x then x else if n = L.next x then L.prev x else L.prev n := by
  unfold Links.unlink
  dsimp only
  rw [update_of_ne hx.symm, update_apply, update_apply]

/-- `link` puts the element first. -/
theorem Path.link {s : σ} (h : Path L (.inl s) xs (.inl s)) (hx : x ∉ xs) (hnodup : xs.Nodup) :
    Path (L.link (.inl s) (.inr x)) (.inl s) (x :: xs) (.inl s) := by
  have hfirst := h.next
  have hxfirst : (Sum.inr x : σ ⊕ ε) ≠ firstOf xs (.inl s) := by
    cases xs with
    | nil => exact Sum.inr_ne_inl
    | cons y xs =>
      intro heq
      exact hx (Sum.inr.inj heq ▸ mem_cons_self ..)
  refine ⟨?_, ?_, ?_⟩
  · rw [Links.link_next, if_pos rfl]
  · rw [Links.link_prev, hfirst, if_neg hxfirst, if_pos rfl]
  · -- The rest of the ring, from its first node on, is as it was.
    cases xs with
    | nil =>
      refine ⟨?_, ?_⟩
      · rw [Links.link_next, if_neg Sum.inr_ne_inl, if_pos rfl, hfirst]
        rfl
      · rw [Links.link_prev, hfirst]
        exact if_pos rfl
    | cons y xs =>
      refine ⟨?_, ?_, h.2.2.congr ?_ ?_⟩
      · rw [Links.link_next, if_neg Sum.inr_ne_inl, if_pos rfl, hfirst]
        rfl
      · rw [Links.link_prev, hfirst]
        exact if_pos rfl
      · intro n hn
        obtain ⟨z, hz, rfl⟩ : ∃ z ∈ y :: xs, n = .inr z := by
          rcases hn with rfl | hn
          · exact ⟨y, mem_cons_self .., rfl⟩
          · obtain ⟨z, hz, rfl⟩ := mem_map.mp hn
            exact ⟨z, mem_cons_of_mem _ hz, rfl⟩
        have hzx : (Sum.inr z : σ ⊕ ε) ≠ .inr x := fun heq => hx (Sum.inr.inj heq ▸ hz)
        rw [Links.link_next, if_neg Sum.inr_ne_inl, if_neg hzx]
      · intro n hn
        have hny : n ≠ .inr y ∧ n ≠ .inr x := by
          rcases hn with rfl | hn
          · exact ⟨Sum.inl_ne_inr, Sum.inl_ne_inr⟩
          · obtain ⟨z, hz, rfl⟩ := mem_map.mp hn
            exact ⟨fun heq => (nodup_cons.mp hnodup).1 (Sum.inr.inj heq ▸ hz),
              fun heq => hx (Sum.inr.inj heq ▸ mem_cons_of_mem _ hz)⟩
        rw [Links.link_prev, hfirst, if_neg hny.2]
        exact if_neg hny.1

/-- `unlink` closes the gap. -/
theorem Path.unlink (hv : Path L (.inr x) ys v) (hvs : v ∉ (x :: ys).map Sum.inr)
    (hys : (x :: ys).Nodup) : ∀ {xs : List ε} {u : σ ⊕ ε}, Path L u xs (.inr x) →
      (xs ++ x :: ys).Nodup → u ∉ (xs ++ x :: ys).map Sum.inr → v ∉ xs.map Sum.inr →
      Path (L.unlink (.inr x)) u (xs ++ ys) v := by
  have hxys := (nodup_cons.mp hys).1
  have hvx : v ≠ .inr x := fun heq => hvs (heq ▸ mem_cons_self ..)
  have hnextx := hv.next
  intro xs
  induction xs with
  | nil =>
    intro u hx _ hu _
    have hux : u ≠ .inr x := fun heq => hu (heq ▸ mem_cons_self ..)
    have hprevx : L.prev (.inr x) = u := hx.2
    have hne : L.prev (.inr x) ≠ .inr x := by
      rw [hprevx]
      exact hux
    have hfirst : ∀ n, n = firstOf ys v → n ≠ .inr x → (L.unlink (.inr x)).prev n = u := by
      intro n hn hnx
      rw [L.unlink_prev hne, if_neg hnx, if_pos (hn.trans hnextx.symm), hprevx]
    have hnextu : (L.unlink (.inr x)).next u = firstOf ys v := by
      rw [L.unlink_next, if_neg hux, if_pos hprevx.symm, hnextx]
    cases ys with
    | nil => exact ⟨hnextu, hfirst v rfl hvx⟩
    | cons y ys =>
      have hyx : (Sum.inr y : σ ⊕ ε) ≠ .inr x := fun heq =>
        hxys (Sum.inr.inj heq ▸ mem_cons_self ..)
      refine ⟨hnextu, hfirst _ rfl hyx, hv.2.2.congr ?_ ?_⟩
      · intro n hn
        have hmem : n ∈ (y :: ys).map Sum.inr := by
          rcases hn with rfl | hn
          · exact mem_cons_self ..
          · exact mem_cons_of_mem _ hn
        have hnx : n ≠ .inr x := fun heq => hxys (mem_inr.mp (heq ▸ hmem))
        have hnu : n ≠ u := fun heq => hu (heq ▸ mem_cons_of_mem _ hmem)
        rw [L.unlink_next, if_neg hnx, hprevx, if_neg hnu]
      · intro n hn
        have hnx : n ≠ .inr x ∧ n ≠ .inr y := by
          rcases hn with rfl | hn
          · exact ⟨hvx, fun heq => hvs (heq ▸ mem_cons_of_mem _ (mem_cons_self ..))⟩
          · refine ⟨fun heq => hxys (mem_cons_of_mem _ (mem_inr.mp (heq ▸ hn))), fun heq => ?_⟩
            exact (nodup_cons.mp (nodup_cons.mp hys).2).1 (mem_inr.mp (heq ▸ hn))
        rw [L.unlink_prev hne, if_neg hnx.1, hnextx]
        exact if_neg hnx.2
  | cons w ws ih =>
    intro u hx hnodup hu hvw
    obtain ⟨hnextu, hprevw, hrest⟩ := hx
    have hnodup' := nodup_cons.mp hnodup
    have hw : (Sum.inr w : σ ⊕ ε) ∉ (ws ++ x :: ys).map Sum.inr := fun hmem =>
      hnodup'.1 (mem_inr.mp hmem)
    have hux : u ≠ .inr x := fun heq =>
      hu (heq ▸ mem_inr.mpr (List.mem_append_right _ (mem_cons_self ..)))
    have hwx : (Sum.inr w : σ ⊕ ε) ≠ .inr x := fun heq =>
      hw (heq ▸ mem_inr.mpr (List.mem_append_right _ (mem_cons_self ..)))
    -- The node before `x` is `w` or comes after it.
    have hprev : L.prev (.inr x) ∈ (w :: ws).map Sum.inr := by
      rcases hrest.prev with heq | hmem
      · exact heq ▸ mem_cons_self ..
      · exact mem_cons_of_mem _ hmem
    have hne : L.prev (.inr x) ≠ .inr x := by
      intro heq
      rw [heq] at hprev
      have hmem : x ∈ w :: ws := mem_inr.mp hprev
      exact (nodup_append.mp hnodup).2.2 x hmem x (mem_cons_self ..) rfl
    have hup : u ≠ L.prev (.inr x) := by
      intro heq
      rw [← heq] at hprev
      refine hu ?_
      rw [List.map_append]
      exact List.mem_append_left _ hprev
    have hwf : (Sum.inr w : σ ⊕ ε) ≠ L.next (.inr x) := by
      rw [hnextx]
      intro heq
      rcases firstOf_mem ys v with hf | hf
      · exact hvw (by rw [← hf, ← heq]; exact mem_cons_self ..)
      · refine hw (mem_inr.mpr (List.mem_append_right _ (mem_cons_of_mem _ ?_)))
        exact mem_inr.mp (heq ▸ hf)
    refine ⟨?_, ?_, ih hrest hnodup'.2 hw fun hmem => hvw (mem_cons_of_mem _ hmem)⟩
    · rw [L.unlink_next, if_neg hux, if_neg hup, hnextu]
    · rw [L.unlink_prev hne, if_neg hwx, if_neg hwf, hprevw]

/-! ## Families of rings -/

/-- The heap stands for the lists `rings`, one for each head. -/
structure Reps (L : Links σ ε) (rings : σ → List ε) : Prop where
  path : ∀ s, Path L (.inl s) (rings s) (.inl s)
  nodup : ∀ s, (rings s).Nodup
  disjoint : ∀ s t x, x ∈ rings s → x ∈ rings t → s = t
  alone : ∀ x, (∀ s, x ∉ rings s) → L.next (.inr x) = .inr x

/-- `x` put first in the ring of `s`. -/
def cons (rings : σ → List ε) (s : σ) (x : ε) : σ → List ε := update rings s (x :: rings s)

/-- `x` taken out of whichever ring it is in. -/
def erase (rings : σ → List ε) (x : ε) : σ → List ε := fun t => (rings t).erase x

section

omit [DecidableEq σ] [DecidableEq ε]

theorem reps_apart : Reps (Links.apart : Links σ ε) fun _ => [] where
  path _ := ⟨rfl, rfl⟩
  nodup _ := List.nodup_nil
  disjoint _ _ _ h _ := absurd h List.not_mem_nil
  alone _ _ := rfl

/-- No node of a ring points to itself. -/
theorem Path.next_ne (h : Path L u xs v) (hnodup : xs.Nodup) (hv : v ∉ xs.map Sum.inr)
    (hx : x ∈ xs) : L.next (.inr x) ≠ .inr x := by
  obtain ⟨as, bs, rfl⟩ := List.append_of_mem hx
  rw [(path_append.mp h).2.next]
  intro heq
  rcases firstOf_mem bs v with hf | hf
  · exact hv (by rw [← hf, heq]; exact mem_inr.mpr hx)
  · rw [heq] at hf
    have hnodup' := (nodup_append.mp hnodup).2.1
    exact (nodup_cons.mp hnodup').1 (mem_inr.mp hf)

variable {rings : σ → List ε} {s : σ}

theorem inl_not_mem_inr (s : σ) (xs : List ε) : (Sum.inl s : σ ⊕ ε) ∉ xs.map Sum.inr := by
  intro h
  obtain ⟨z, _, hz⟩ := mem_map.mp h
  cases hz

theorem Reps.next_head (h : Reps L rings) (s : σ) : L.next (.inl s) = firstOf (rings s) (.inl s) :=
  (h.path s).next

/-- Where the pointers of an element of a ring go: to the head or into the ring. -/
theorem Reps.neighbours (h : Reps L rings) (hx : x ∈ rings s) :
    (L.next (.inr x) = .inl s ∨ L.next (.inr x) ∈ (rings s).map Sum.inr) ∧
      (L.prev (.inr x) = .inl s ∨ L.prev (.inr x) ∈ (rings s).map Sum.inr) ∧
      L.prev (.inr x) ≠ .inr x := by
  have hnodup := h.nodup s
  have hpath := h.path s
  obtain ⟨as, bs, hab⟩ := List.append_of_mem hx
  rw [hab] at hnodup hpath
  rw [hab]
  obtain ⟨hbefore, hafter⟩ := path_append.mp hpath
  refine ⟨?_, ?_, ?_⟩
  · rw [hafter.next, List.map_append]
    exact (firstOf_mem bs (.inl s)).imp_right fun hmem =>
      List.mem_append_right _ (mem_cons_of_mem _ hmem)
  · refine hbefore.prev.imp_right fun hmem => ?_
    rw [List.map_append]
    exact List.mem_append_left _ hmem
  · intro heq
    rcases hbefore.prev with hhead | hmem
    · exact Sum.inl_ne_inr (hhead.symm.trans heq)
    · rw [heq] at hmem
      exact (nodup_append.mp hnodup).2.2 x (mem_inr.mp hmem) x (mem_cons_self ..) rfl

end

variable {rings : σ → List ε} {s : σ}

/-- `first` is the head of the list. -/
theorem Reps.first (h : Reps L rings) (s : σ) :
    L.first (.inl s) = (rings s).head?.map Sum.inr := by
  unfold Links.first
  rw [h.next_head s]
  cases rings s with
  | nil => exact if_pos rfl
  | cons x xs => exact if_neg Sum.inr_ne_inl

/-- `linked` is membership. -/
theorem Reps.linked (h : Reps L rings) (x : ε) : L.linked (.inr x) = true ↔ ∃ s, x ∈ rings s := by
  unfold Links.linked
  rw [decide_eq_true_iff]
  constructor
  · intro hne
    by_contra hnone
    exact hne (h.alone x fun s hs => hnone ⟨s, hs⟩)
  · rintro ⟨s, hs⟩
    exact (h.path s).next_ne (h.nodup s) (inl_not_mem_inr s _) hs

omit [DecidableEq ε] in
theorem mem_cons {rings : σ → List ε} {s r : σ} {x y : ε} :
    y ∈ cons rings s x r ↔ (y = x ∧ r = s) ∨ y ∈ rings r := by
  unfold cons
  by_cases hrs : r = s
  · subst hrs
    rw [update_self, List.mem_cons]
    exact or_congr_left (and_iff_left rfl).symm
  · rw [update_of_ne hrs]
    exact ⟨Or.inr, fun h => h.resolve_left fun heq => hrs heq.2⟩

omit [DecidableEq σ] in
theorem Reps.mem_erase (h : Reps L rings) {r : σ} {y : ε} :
    y ∈ erase rings x r ↔ y ≠ x ∧ y ∈ rings r :=
  (h.nodup r).mem_erase_iff

/-- Linking an element of no ring conses it. -/
theorem Reps.link (h : Reps L rings) (hx : ∀ t, x ∉ rings t) :
    Reps (L.link (.inl s) (.inr x)) (cons rings s x) where
  path t := by
    unfold cons
    by_cases hts : t = s
    · subst hts
      rw [update_self]
      exact (h.path t).link (hx t) (h.nodup t)
    · rw [update_of_ne hts]
      have hnx : ∀ n, n = .inl t ∨ n ∈ (rings t).map Sum.inr → n ≠ .inr x ∧ n ≠ .inl s := by
        rintro n (rfl | hn)
        · exact ⟨Sum.inl_ne_inr, fun heq => hts (Sum.inl.inj heq)⟩
        · obtain ⟨z, hz, rfl⟩ := mem_map.mp hn
          exact ⟨fun heq => hx t (Sum.inr.inj heq ▸ hz), Sum.inr_ne_inl⟩
      refine (h.path t).congr ?_ ?_
      · intro n hn
        rw [Links.link_next, if_neg (hnx n hn).2, if_neg (hnx n hn).1]
      · intro n hn
        rw [Links.link_prev, h.next_head s, if_neg ?_, if_neg (hnx n hn).1]
        intro heq
        rcases firstOf_mem (rings s) (.inl s) with hf | hf
        · exact (hnx n hn).2 (heq.trans hf)
        · rw [← heq] at hf
          rcases hn with rfl | hn
          · exact inl_not_mem_inr t _ hf
          · obtain ⟨z, hz, rfl⟩ := mem_map.mp hn
            exact hts (h.disjoint t s z hz (mem_inr.mp hf))
  nodup t := by
    unfold cons
    by_cases hts : t = s
    · subst hts
      rw [update_self]
      exact nodup_cons.mpr ⟨hx t, h.nodup t⟩
    · rw [update_of_ne hts]
      exact h.nodup t
  disjoint t t' y ht ht' := by
    rcases mem_cons.mp ht with ⟨hyx, hts⟩ | ht₀
    · rcases mem_cons.mp ht' with ⟨_, hts'⟩ | ht₀'
      · exact hts.trans hts'.symm
      · exact absurd (hyx ▸ ht₀') (hx t')
    · rcases mem_cons.mp ht' with ⟨hyx, _⟩ | ht₀'
      · exact absurd (hyx ▸ ht₀) (hx t)
      · exact h.disjoint t t' y ht₀ ht₀'
  alone y hy := by
    have hyx : y ≠ x := fun heq => hy s (mem_cons.mpr (Or.inl ⟨heq, rfl⟩))
    rw [Links.link_next, if_neg Sum.inr_ne_inl, if_neg fun heq => hyx (Sum.inr.inj heq)]
    exact h.alone y fun t ht => hy t (mem_cons.mpr (Or.inr ht))

/-- Unlinking an element erases it from its ring. -/
theorem Reps.unlink (h : Reps L rings) (hx : x ∈ rings s) :
    Reps (L.unlink (.inr x)) (erase rings x) := by
  obtain ⟨hnext, hprev, hne⟩ := h.neighbours hx
  refine ⟨?_, fun t => (h.nodup t).erase x, ?_, ?_⟩
  · intro t
    by_cases hts : t = s
    · subst hts
      have hnodup := h.nodup t
      have hpath := h.path t
      unfold erase
      obtain ⟨as, bs, hab⟩ := List.append_of_mem hx
      rw [hab] at hnodup hpath ⊢
      have hxas : x ∉ as := fun hmem =>
        (nodup_append.mp hnodup).2.2 x hmem x (mem_cons_self ..) rfl
      rw [List.erase_append_right _ hxas, List.erase_cons_head]
      obtain ⟨hbefore, hafter⟩ := path_append.mp hpath
      exact hafter.unlink (inl_not_mem_inr t _) (nodup_append.mp hnodup).2.1 hbefore hnodup
        (inl_not_mem_inr t _) (inl_not_mem_inr t _)
    · have hxt : x ∉ rings t := fun ht => hts (h.disjoint t s x ht hx)
      unfold erase
      rw [List.erase_of_not_mem hxt]
      -- Neither the head of another ring nor its elements are next to `x`.
      have hfar : ∀ n m, n = .inl t ∨ n ∈ (rings t).map Sum.inr →
          (m = .inl s ∨ m ∈ (rings s).map Sum.inr) → n ≠ m := by
        rintro n m hn hm rfl
        rcases hn with rfl | hn
        · rcases hm with heq | hm
          · exact hts (Sum.inl.inj heq)
          · exact inl_not_mem_inr t _ hm
        · obtain ⟨z, hz, rfl⟩ := mem_map.mp hn
          rcases hm with heq | hm
          · exact Sum.inr_ne_inl heq
          · exact hts (h.disjoint t s z hz (mem_inr.mp hm))
      have hself : (Sum.inr x : σ ⊕ ε) = .inl s ∨ (Sum.inr x : σ ⊕ ε) ∈ (rings s).map Sum.inr :=
        Or.inr (mem_inr.mpr hx)
      refine (h.path t).congr ?_ ?_
      · intro n hn
        rw [L.unlink_next, if_neg (hfar n _ hn hself), if_neg (hfar n _ hn hprev)]
      · intro n hn
        rw [L.unlink_prev hne, if_neg (hfar n _ hn hself), if_neg (hfar n _ hn hnext)]
  · intro t t' y ht ht'
    exact h.disjoint t t' y (h.mem_erase.mp ht).2 (h.mem_erase.mp ht').2
  · intro y hy
    rw [L.unlink_next]
    by_cases hyx : y = x
    · rw [if_pos (congrArg _ hyx), hyx]
    · have hy' : ∀ t, y ∉ rings t := fun t ht => hy t (h.mem_erase.mpr ⟨hyx, ht⟩)
      rw [if_neg fun heq => hyx (Sum.inr.inj heq), if_neg ?_]
      · exact h.alone y hy'
      · intro heq
        rw [← heq] at hprev
        rcases hprev with hhead | hmem'
        · exact Sum.inr_ne_inl hhead
        · exact hy' s (mem_inr.mp hmem')

/-- Following `next` from `n` leads through `xs` to `v`. -/
def Ahead (L : Links σ ε) : σ ⊕ ε → List ε → σ ⊕ ε → Prop
  | n, [], v => n = v
  | n, x :: xs, v => n = .inr x ∧ Ahead L (L.next n) xs v

omit [DecidableEq σ] [DecidableEq ε] in
theorem Path.ahead (h : Path L u xs v) : Ahead L (L.next u) xs v := by
  induction xs generalizing u with
  | nil => exact h.1
  | cons x xs ih =>
    obtain ⟨hnext, -, hrest⟩ := h
    exact ⟨hnext, hnext ▸ ih hrest⟩

omit [DecidableEq σ] [DecidableEq ε] in
theorem Reps.ahead (h : Reps L rings) (s : σ) : Ahead L (L.next (.inl s)) (rings s) (.inl s) :=
  (h.path s).ahead

/-- Walking a ring yields it, with fuel for its elements. -/
theorem Ahead.walk {fuel : ℕ} (h : Ahead L u xs v) (hv : v ∉ xs.map Sum.inr)
    (hfuel : xs.length ≤ fuel) : L.walk v fuel u = some (xs.map Sum.inr) := by
  induction xs generalizing u fuel with
  | nil =>
    cases fuel with
    | zero => exact if_pos h
    | succ fuel => exact if_pos h
  | cons y ys ih =>
    obtain ⟨rfl, hrest⟩ := h
    have hyv : (Sum.inr y : σ ⊕ ε) ≠ v := fun heq => hv (heq ▸ mem_cons_self ..)
    cases fuel with
    | zero => exact absurd hfuel (Nat.not_succ_le_zero _)
    | succ fuel =>
      have htail := ih hrest (fun hmem => hv (mem_cons_of_mem _ hmem))
        (Nat.le_of_succ_le_succ hfuel)
      rw [Links.walk, if_neg hyv, htail]
      rfl

theorem Reps.walk (h : Reps L rings) (fuel : ℕ) (s : σ) (hfuel : (rings s).length ≤ fuel) :
    L.walk (.inl s) fuel (L.next (.inl s)) = some ((rings s).map Sum.inr) :=
  (h.ahead s).walk (inl_not_mem_inr s _) hfuel

theorem Reps.count (h : Reps L rings) (fuel : ℕ) (s : σ) (hfuel : (rings s).length ≤ fuel) :
    L.count fuel (.inl s) = some (rings s).length := by
  unfold Links.count
  rw [h.walk fuel s hfuel, Option.map_some, List.length_map]

/-- Draining a ring empties it and leaves the others. -/
theorem Reps.drain {fuel : ℕ} (h : Reps L rings) (s : σ) (hfuel : (rings s).length ≤ fuel) :
    ∃ M, L.drain fuel (.inl s) = some M ∧ Reps M (update rings s []) := by
  induction fuel generalizing L rings with
  | zero =>
    have hnil : rings s = [] := List.length_eq_zero_iff.mp (Nat.le_zero.mp hfuel)
    refine ⟨L, ?_, ?_⟩
    · refine if_pos ?_
      rw [h.first, hnil]
      rfl
    · rw [← hnil, update_eq_self]
      exact h
  | succ fuel ih =>
    cases hs : rings s with
    | nil =>
      refine ⟨L, ?_, ?_⟩
      · unfold Links.drain
        rw [h.first, hs]
        rfl
      · rw [← hs, update_eq_self]
        exact h
    | cons x xs =>
      have hx : x ∈ rings s := hs ▸ mem_cons_self ..
      have herase : erase rings x = update rings s xs := by
        funext t
        by_cases hts : t = s
        · subst hts
          unfold erase
          rw [update_self, hs, List.erase_cons_head]
        · rw [update_of_ne hts]
          exact List.erase_of_not_mem fun ht => hts (h.disjoint t s x ht hx)
      have hunlink := h.unlink hx
      rw [herase] at hunlink
      rw [hs, List.length_cons] at hfuel
      obtain ⟨M, hM, hreps⟩ := ih hunlink (by rw [update_self]; exact Nat.le_of_succ_le_succ hfuel)
      refine ⟨M, ?_, ?_⟩
      · unfold Links.drain
        rw [h.first, hs]
        exact hM
      · rwa [update_idem] at hreps

omit [DecidableEq σ] [DecidableEq ε] in
/-- Constructing the nodes of whole rings empties these. -/
theorem Reps.construct (h : Reps L rings) (P : σ ⊕ ε → Prop) [DecidablePred P]
    (hP : ∀ t x, x ∈ rings t → (P (.inr x) ↔ P (.inl t))) :
    Reps (L.construct P) fun t => if P (.inl t) then [] else rings t where
  path t := by
    by_cases ht : P (.inl t)
    · rw [if_pos ht]
      exact ⟨if_pos ht, if_pos ht⟩
    · rw [if_neg ht]
      have hn : ∀ n, n = .inl t ∨ n ∈ (rings t).map Sum.inr → ¬ P n := by
        rintro n (rfl | hn)
        · exact ht
        · obtain ⟨z, hz, rfl⟩ := mem_map.mp hn
          exact fun hPz => ht ((hP t z hz).mp hPz)
      exact (h.path t).congr (fun n hmem => if_neg (hn n hmem)) fun n hmem => if_neg (hn n hmem)
  nodup t := by
    by_cases ht : P (.inl t)
    · rw [if_pos ht]
      exact List.nodup_nil
    · rw [if_neg ht]
      exact h.nodup t
  disjoint t t' y ht ht' := by
    have hmem : ∀ r, y ∈ (if P (.inl r) then [] else rings r) → y ∈ rings r := by
      intro r hr
      by_cases hPr : P (.inl r)
      · rw [if_pos hPr] at hr
        exact absurd hr List.not_mem_nil
      · rwa [if_neg hPr] at hr
    exact h.disjoint t t' y (hmem t ht) (hmem t' ht')
  alone y hy := by
    by_cases hPy : P (.inr y)
    · exact if_pos hPy
    · refine (if_neg hPy).trans (h.alone y fun t ht => hy t ?_)
      rw [if_neg fun hPt => hPy ((hP t y ht).mpr hPt)]
      exact ht

end Ring
