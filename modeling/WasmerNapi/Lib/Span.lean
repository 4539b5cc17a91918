import Mathlib

/-!
# Spans: half-open ranges of addresses

`[start, start + len)`. A span may be empty, and an empty span is apart from everything,
including the spans it sits inside — so "these two do not overlap" is `Apart`, on the
addresses, and not an inequality between end points.

`sum_len_le` is the packing argument an allocator's free-space counter rests on: spans
that are apart from each other and each inside one of a second family cannot have a
larger total length than that family.
-/

structure Span where
  start : ℕ
  len : ℕ
  deriving DecidableEq, Repr

namespace Span

def stop (s : Span) : ℕ := s.start + s.len

/-- The addresses of a span. -/
def toFinset (s : Span) : Finset ℕ := Finset.Ico s.start s.stop

/-- No address is in both. -/
def Apart (s t : Span) : Prop := ∀ a, a ∈ s.toFinset → a ∉ t.toFinset

/-- Every address of `s`, and both its ends, lie in `t`. -/
def Inside (s t : Span) : Prop := t.start ≤ s.start ∧ s.stop ≤ t.stop

instance decidableInside (s t : Span) : Decidable (s.Inside t) := inferInstanceAs (Decidable (_ ∧ _))

@[simp] theorem mem_toFinset {s : Span} {a : ℕ} :
    a ∈ s.toFinset ↔ s.start ≤ a ∧ a < s.start + s.len := by
  simp [toFinset, stop]

@[simp] theorem card_toFinset (s : Span) : s.toFinset.card = s.len := by
  simp [toFinset, stop]

theorem Apart.symm {s t : Span} (h : s.Apart t) : t.Apart s := fun a ht hs => h a hs ht

/-- Spans that follow each other are apart. -/
theorem apart_of_stop_le {s t : Span} (h : s.stop ≤ t.start) : s.Apart t := by
  intro a hs ht
  rw [mem_toFinset] at hs ht
  unfold stop at h
  omega

/-- Of two spans that are apart and not empty, one ends before the other starts. -/
theorem Apart.stop_le {s t : Span} (h : s.Apart t) (hs : 0 < s.len) (ht : 0 < t.len) :
    s.stop ≤ t.start ∨ t.stop ≤ s.start := by
  have h₁ := h s.start
  have h₂ := h t.start
  simp only [mem_toFinset] at h₁ h₂
  unfold stop
  omega

theorem Inside.subset {s t : Span} (h : s.Inside t) : s.toFinset ⊆ t.toFinset := by
  intro a ha
  obtain ⟨h₁, h₂⟩ := h
  rw [mem_toFinset] at ha ⊢
  unfold stop at h₂
  omega

theorem Apart.mono {s s' t t' : Span} (h : s'.Apart t') (hs : s.Inside s') (ht : t.Inside t') :
    s.Apart t := fun a ha hb => h a (hs.subset ha) (ht.subset hb)

/-- Ranges of units that are apart are apart as ranges of addresses, whatever a unit is. -/
theorem Apart.affine {s t : Span} (h : s.Apart t) (base k : ℕ) :
    (Span.mk (base + s.start * k) (s.len * k)).Apart (Span.mk (base + t.start * k) (t.len * k)) := by
  by_cases hs : s.len = 0
  · intro a ha
    simp [hs] at ha
    omega
  by_cases ht : t.len = 0
  · intro a _ ha
    simp [ht] at ha
    omega
  rcases h.stop_le (Nat.pos_of_ne_zero hs) (Nat.pos_of_ne_zero ht) with hle | hle
  · apply apart_of_stop_le
    have := Nat.mul_le_mul_right k hle
    simp only [stop, Nat.add_mul] at this ⊢
    omega
  · apply Apart.symm
    apply apart_of_stop_le
    have := Nat.mul_le_mul_right k hle
    simp only [stop, Nat.add_mul] at this ⊢
    omega

/-- The addresses covered by a family. -/
def cover (l : List Span) : Finset ℕ := l.foldr (fun s acc => s.toFinset ∪ acc) ∅

@[simp] theorem mem_cover {l : List Span} {a : ℕ} : a ∈ cover l ↔ ∃ s ∈ l, a ∈ s.toFinset := by
  induction l with
  | nil => simp [cover]
  | cons s l ih =>
    have hcons : cover (s :: l) = s.toFinset ∪ cover l := rfl
    rw [hcons, Finset.mem_union, ih]
    simp

theorem card_cover_le (l : List Span) : (cover l).card ≤ (l.map len).sum := by
  induction l with
  | nil => simp [cover]
  | cons s l ih =>
    have hle := Finset.card_union_le s.toFinset (cover l)
    rw [card_toFinset] at hle
    rw [List.map_cons, List.sum_cons]
    exact hle.trans (by omega)

theorem card_cover {l : List Span} (h : l.Pairwise Apart) : (cover l).card = (l.map len).sum := by
  induction l with
  | nil => simp [cover]
  | cons s l ih =>
    rw [List.pairwise_cons] at h
    have hdis : Disjoint s.toFinset (cover l) := by
      rw [Finset.disjoint_left]
      intro a ha hc
      obtain ⟨t, ht, hat⟩ := mem_cover.mp hc
      exact h.1 t ht a ha hat
    have hcons : cover (s :: l) = s.toFinset ∪ cover l := rfl
    rw [hcons, Finset.card_union_of_disjoint hdis, card_toFinset, ih h.2, List.map_cons,
      List.sum_cons]

/-- **Packing.** Spans apart from each other, each inside one of `outer`, are not longer
    in total than `outer` is. -/
theorem sum_len_le {inner outer : List Span} (hap : inner.Pairwise Apart)
    (hin : ∀ s ∈ inner, ∃ t ∈ outer, s.Inside t) :
    (inner.map len).sum ≤ (outer.map len).sum := by
  have hsub : cover inner ⊆ cover outer := by
    intro a ha
    obtain ⟨s, hs, has⟩ := mem_cover.mp ha
    obtain ⟨t, ht, hst⟩ := hin s hs
    exact mem_cover.mpr ⟨t, ht, hst.subset has⟩
  calc (inner.map len).sum = (cover inner).card := (card_cover hap).symm
    _ ≤ (cover outer).card := Finset.card_le_card hsub
    _ ≤ (outer.map len).sum := card_cover_le outer

end Span
