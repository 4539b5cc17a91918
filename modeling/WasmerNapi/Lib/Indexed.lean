import WasmerNapi.Lib.Vec

/-!
# A vector with an index

Items are found by a key: `indices` has the place of each one. Taking an item out moves the last
one into its place (`swap_remove`), so that one index changes.
-/

/-- Items, and where the one with a key is. -/
structure Indexed (α : Type*) where
  items : List α := []
  indices : ℕ → Option ℕ := fun _ => none

namespace Vec

open scoped List

variable {α : Type*}

theorem getElem?_swapRemove {l : List α} {i : ℕ} (h : i < l.length) (j : ℕ) :
    (swapRemove l i)[j]? =
      if j + 1 < l.length then if j = i then l[l.length - 1]? else l[j]? else none := by
  induction l using List.reverseRecOn with
  | nil => cases h
  | append_singleton l last =>
    rw [List.length_append, List.length_singleton] at h ⊢
    simp only [Nat.add_lt_add_iff_right, Nat.add_sub_cancel]
    by_cases hi : i < l.length
    · rw [swapRemove_concat_of_lt hi]
      by_cases hj : j < l.length
      · rw [if_pos hj]
        by_cases heq : j = i
        · subst heq
          simp [hj]
        · rw [if_neg heq, List.getElem?_set_ne (Ne.symm heq), List.getElem?_append_left hj]
      · rw [if_neg hj, List.getElem?_eq_none (by simpa using hj)]
    · obtain rfl : i = l.length := by omega
      rw [swapRemove_concat_self]
      by_cases hj : j < l.length
      · rw [if_pos hj, if_neg hj.ne, List.getElem?_append_left hj]
      · rw [if_neg hj, List.getElem?_eq_none (by simpa using hj)]

end Vec

namespace Indexed

open scoped List

variable {α : Type*} (key : α → ℕ)

def push (v : Indexed α) (a : α) : Indexed α where
  items := v.items ++ [a]
  indices := Function.update v.indices (key a) (some v.items.length)

/-- The item that has moved to a place is found there. -/
def moved (items : List α) (index : ℕ) (indices : ℕ → Option ℕ) : ℕ → Option ℕ :=
  match items[index]? with
  | none => indices
  | some a => Function.update indices (key a) (some index)

/-- Take out the item with a key, and put the last one's new place into the index. -/
def remove (v : Indexed α) (k : ℕ) : Option (α × Indexed α) :=
  match v.indices k with
  | none => none
  | some index =>
    match v.items[index]? with
    | none => none
    | some a =>
      let items := Vec.swapRemove v.items index
      some (a, { items, indices := moved key items index (Function.update v.indices k none) })

/-- The index and the items say the same. -/
def Inverse (v : Indexed α) : Prop :=
  ∀ k i, v.indices k = some i ↔ (v.items[i]?).map key = some k

variable {key} {v : Indexed α} {a b : α} {k i j : ℕ}

theorem inverse_empty : Inverse key ({} : Indexed α) := by
  intro k i
  simp

theorem Inverse.place (h : v.Inverse key) (ha : v.items[i]? = some a) :
    v.indices (key a) = some i := by
  apply (h _ _).mpr
  rw [ha]
  rfl

/-- Keys are places. -/
theorem Inverse.eq_of_key (h : v.Inverse key) (ha : v.items[i]? = some a)
    (hb : v.items[j]? = some b) (hkey : key a = key b) : i = j := by
  have hplace := h.place ha
  rw [hkey, h.place hb] at hplace
  exact (Option.some.inj hplace).symm

theorem Inverse.eq_of_mem (h : v.Inverse key) (ha : a ∈ v.items) (hb : b ∈ v.items)
    (hkey : key a = key b) : a = b := by
  obtain ⟨i, hi⟩ := List.mem_iff_getElem?.mp ha
  obtain ⟨j, hj⟩ := List.mem_iff_getElem?.mp hb
  have hplaces := h.eq_of_key hi hj hkey
  rw [hplaces, hj] at hi
  exact (Option.some.inj hi).symm

theorem Inverse.nodup (h : v.Inverse key) : (v.items.map key).Nodup := by
  apply List.nodup_iff_getElem?_ne_getElem?.mpr
  intro i j hij hj heq
  rw [List.length_map] at hj
  rw [List.getElem?_map, List.getElem?_map, List.getElem?_eq_getElem hj,
    List.getElem?_eq_getElem (hij.trans hj)] at heq
  have hplaces := h.eq_of_key (List.getElem?_eq_getElem (hij.trans hj))
    (List.getElem?_eq_getElem hj) (Option.some.inj heq)
  exact hij.ne hplaces

theorem Inverse.indices_eq_none (h : v.Inverse key) :
    v.indices k = none ↔ ∀ a ∈ v.items, key a ≠ k := by
  constructor
  · intro hnone a ha hkey
    obtain ⟨i, hi⟩ := List.mem_iff_getElem?.mp ha
    have hplace := h.place hi
    rw [hkey, hnone] at hplace
    cases hplace
  · intro hall
    cases hk : v.indices k with
    | none => rfl
    | some i =>
      obtain ⟨a, ha, hkey⟩ := Option.map_eq_some_iff.mp ((h k i).mp hk)
      exact absurd hkey (hall a (List.mem_of_getElem? ha))

theorem Inverse.push (h : v.Inverse key) (hnew : v.indices (key a) = none) :
    (v.push key a).Inverse key := by
  intro k i
  unfold Indexed.push
  dsimp only
  by_cases hi : i < v.items.length
  · rw [List.getElem?_append_left hi, ← h k i]
    by_cases hk : k = key a
    · subst hk
      rw [Function.update_self, hnew]
      simp [hi.ne']
    · rw [Function.update_of_ne hk]
  · have hout : v.indices k ≠ some i := by
      intro hk
      obtain ⟨b, hb, _⟩ := Option.map_eq_some_iff.mp ((h k i).mp hk)
      exact hi (List.getElem?_eq_some_iff.mp hb).1
    by_cases hlen : i = v.items.length
    · subst hlen
      by_cases hk : k = key a
      · subst hk
        simp
      · rw [Function.update_of_ne hk]
        simp [hout, Ne.symm hk]
    · rw [List.getElem?_eq_none (by simp; omega)]
      by_cases hk : k = key a
      · subst hk
        simp [Ne.symm hlen]
      · rw [Function.update_of_ne hk]
        simp [hout]

/-- What a removal takes and leaves. -/
structure Removed (key : α → ℕ) (v : Indexed α) (k : ℕ) (a : α) (v' : Indexed α) : Prop where
  key_eq : key a = k
  perm : a :: v'.items ~ v.items
  inverse : v'.Inverse key
  gone : v'.indices k = none
  kept : ∀ j, j ≠ k → (v'.indices j = none ↔ v.indices j = none)

theorem Inverse.remove_eq_none (h : v.Inverse key) : v.remove key k = none ↔ v.indices k = none := by
  unfold Indexed.remove
  cases hk : v.indices k with
  | none => simp
  | some i =>
    obtain ⟨a, ha, _⟩ := Option.map_eq_some_iff.mp ((h k i).mp hk)
    simp [ha]

theorem inverse_moved (h : v.Inverse key) (ha : v.items[i]? = some a) :
    (Indexed.mk (Vec.swapRemove v.items i) (moved key (Vec.swapRemove v.items i) i
      (Function.update v.indices (key a) none))).Inverse key := by
  obtain ⟨hlt, _⟩ := List.getElem?_eq_some_iff.mp ha
  have hitem := Vec.getElem?_swapRemove hlt
  intro k j
  show moved key (Vec.swapRemove v.items i) i (Function.update v.indices (key a) none) k = some j ↔
    ((Vec.swapRemove v.items i)[j]?).map key = some k
  have hold : k ≠ key a → ((Function.update v.indices (key a) none) k = some j ↔
      (v.items[j]?).map key = some k) := by
    intro hk
    rw [Function.update_of_ne hk]
    exact h k j
  by_cases hlast : i + 1 < v.items.length
  · -- the last item takes the place
    obtain ⟨b, hb⟩ : ∃ b, v.items[v.items.length - 1]? = some b :=
      ⟨_, List.getElem?_eq_getElem (by omega)⟩
    have hba : key b ≠ key a := by
      intro hkey
      have hplaces := h.eq_of_key hb ha hkey
      omega
    have hmoved : (Vec.swapRemove v.items i)[i]? = some b := by
      rw [hitem, if_pos hlast, if_pos rfl, hb]
    unfold moved
    rw [hmoved]
    dsimp only
    by_cases hkb : k = key b
    · subst hkb
      rw [Function.update_self, hitem]
      by_cases hj : j = i
      · subst hj
        simp [hlast, hb]
      · have hne : (v.items[j]?).map key ≠ some (key b) ∨ ¬ j + 1 < v.items.length := by
          by_contra hboth
          obtain ⟨hkey, hlen⟩ := not_or.mp hboth
          obtain ⟨c, hc, hcb⟩ := Option.map_eq_some_iff.mp (not_not.mp hkey)
          have hplaces := h.eq_of_key hc hb hcb
          omega
        rw [if_neg hj]
        refine iff_of_false (fun heq => hj (Option.some.inj heq).symm) ?_
        split
        · rename_i hlen
          exact hne.resolve_right (not_not.mpr hlen)
        · nofun
    · rw [Function.update_of_ne hkb]
      by_cases hka : k = key a
      · subst hka
        rw [Function.update_self]
        refine iff_of_false nofun ?_
        intro heq
        obtain ⟨c, hc, hcb⟩ := Option.map_eq_some_iff.mp heq
        rw [hitem] at hc
        split at hc
        · split at hc
          · rw [hb] at hc
            cases hc
            exact hkb hcb.symm
          · rename_i hne
            exact hne (h.eq_of_key hc ha hcb)
        · cases hc
      · rw [hold hka, hitem]
        by_cases hj : j = i
        · subst hj
          rw [if_pos hlast, if_pos rfl, hb, ha]
          refine iff_of_false ?_ ?_
          · intro heq
            exact hka (Option.some.inj heq).symm
          · intro heq
            exact hkb (Option.some.inj heq).symm
        · rw [if_neg hj]
          split
          · exact Iff.rfl
          · rename_i hlen
            refine iff_of_false ?_ nofun
            intro heq
            obtain ⟨c, hc, hcb⟩ := Option.map_eq_some_iff.mp heq
            obtain ⟨hjlt, _⟩ := List.getElem?_eq_some_iff.mp hc
            obtain rfl : j = v.items.length - 1 := by omega
            rw [hb] at hc
            cases hc
            exact hkb hcb.symm
  · have hmoved : (Vec.swapRemove v.items i)[i]? = none := by
      rw [hitem, if_neg hlast]
    unfold moved
    rw [hmoved]
    dsimp only
    by_cases hka : k = key a
    · subst hka
      rw [Function.update_self]
      refine iff_of_false nofun ?_
      intro heq
      obtain ⟨c, hc, hcb⟩ := Option.map_eq_some_iff.mp heq
      rw [hitem] at hc
      split at hc
      · rw [if_neg (by omega)] at hc
        have hplaces := h.eq_of_key hc ha hcb
        omega
      · cases hc
    · rw [hold hka, hitem]
      split
      · rw [if_neg (by omega)]
      · refine iff_of_false ?_ nofun
        intro heq
        obtain ⟨c, hc, hcb⟩ := Option.map_eq_some_iff.mp heq
        obtain ⟨hjlt, _⟩ := List.getElem?_eq_some_iff.mp hc
        obtain rfl : j = i := by omega
        rw [ha] at hc
        cases hc
        exact hka hcb.symm

/-- The item with a key is taken out. -/
theorem Inverse.remove (h : v.Inverse key) {r : α × Indexed α} (hr : v.remove key k = some r) :
    Removed key v k r.1 r.2 := by
  unfold Indexed.remove at hr
  cases hk : v.indices k with
  | none =>
    rw [hk] at hr
    cases hr
  | some index =>
    obtain ⟨a, ha, rfl⟩ := Option.map_eq_some_iff.mp ((h k index).mp hk)
    rw [hk] at hr
    simp only [ha] at hr
    cases hr
    have hperm := Vec.cons_swapRemove_perm ha
    have hinverse := inverse_moved h ha
    have hmem : ∀ b, b ∈ a :: Vec.swapRemove v.items index ↔ b ∈ v.items := fun b => hperm.mem_iff
    have hgone : ∀ b ∈ Vec.swapRemove v.items index, key b ≠ key a := by
      intro b hb heq
      have hnodup := (hperm.map key).nodup_iff.mpr h.nodup
      exact (List.nodup_cons.mp hnodup).1 (heq ▸ List.mem_map_of_mem hb)
    refine ⟨rfl, hperm, hinverse, hinverse.indices_eq_none.mpr hgone, ?_⟩
    intro j hj
    rw [hinverse.indices_eq_none, h.indices_eq_none]
    constructor
    · intro hall b hb
      rcases List.mem_cons.mp ((hmem b).mpr hb) with rfl | hb
      · exact Ne.symm hj
      · exact hall b hb
    · intro hall b hb
      exact hall b ((hmem b).mp (List.mem_cons_of_mem _ hb))

end Indexed
