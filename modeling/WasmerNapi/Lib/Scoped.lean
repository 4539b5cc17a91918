import Mathlib

/-!
# A table of values with scopes

A table gives ids to values. An id lives in the scope that was innermost when it was given out,
and ends with it. `Lawful` is what a table has to do for that; `Room s n` says that it takes `n`
values more. `Above s scope n t` are the states in which a scope opened in `s` is the innermost
one and `n` values have been stored in it: closing it then leads back to `s`, as far as the scopes
and the ids that are live go.
-/

namespace Scoped

variable {σ ν : Type}

/-- `frames` are the open scopes, innermost first, each with the ids that live in it; `outer` are
    scopes the table has opened elsewhere, if it does that. Id 0 is no value. -/
structure Table (σ ν : Type) where
  load : σ → ℕ → Option ν
  store : σ → ν → ℕ × σ
  openScope : σ → ℕ → ℕ × σ
  closeScope : σ → ℕ → Bool × σ
  frames : σ → List (ℕ × Multiset ℕ)
  outer : σ → List ℕ

/-- A scope opened in `s` is the innermost one, and `n` values have been stored in it. -/
inductive Above (T : Table σ ν) (s : σ) (scope : ℕ) : ℕ → σ → Prop
  | opened {t} (p : ℕ) : T.openScope s p = (scope, t) → Above T s scope 0 t
  | stored {n t} (v : ν) : Above T s scope n t → Above T s scope (n + 1) (T.store t v).2

/-- The same scopes are open and the same ids are live, for the same values. -/
structure Same (T : Table σ ν) (s t : σ) : Prop where
  frames : T.frames t = T.frames s
  outer : T.outer t = T.outer s
  load : ∀ id, T.load t id = T.load s id

structure Lawful (T : Table σ ν) (Inv : σ → Prop) (Room : σ → ℕ → Prop) : Prop where
  load_zero : ∀ s, T.load s 0 = none
  store_inv : ∀ {s} v, Inv s → Inv (T.store s v).2
  store_load : ∀ {s} v, Inv s → (T.store s v).1 ≠ 0 →
    T.load (T.store s v).2 (T.store s v).1 = some v
  /-- An id that was live already named the same value. -/
  store_live : ∀ {s} v {w}, Inv s → T.load s (T.store s v).1 = some w → w = v
  store_other : ∀ {s} v {id}, Inv s → id ≠ (T.store s v).1 →
    T.load (T.store s v).2 id = T.load s id
  store_frames : ∀ {s} v, Inv s → T.frames (T.store s v).2 = T.frames s ∨
    ∃ frame ids rest, T.frames s = (frame, ids) :: rest ∧
      T.frames (T.store s v).2 = (frame, (T.store s v).1 ::ₘ ids) :: rest
  store_outer : ∀ {s} v, Inv s → T.outer (T.store s v).2 = T.outer s
  store_room : ∀ {s} v {n}, Inv s → Room s (n + 1) →
    (T.store s v).1 ≠ 0 ∧ Room (T.store s v).2 n
  store_full : ∀ {s} v, Inv s → (T.store s v).1 ≠ 0 → Room s 1
  open_inv : ∀ {s} p, Inv s → Inv (T.openScope s p).2
  open_load : ∀ {s} p id, Inv s → T.load (T.openScope s p).2 id = T.load s id
  open_room : ∀ {s} p {n}, Inv s → (Room (T.openScope s p).2 n ↔ Room s n)
  close : ∀ {s scope n t}, Inv s → Above T s scope n t →
    (T.closeScope t scope).1 = true ∧ Inv (T.closeScope t scope).2 ∧
      Same T s (T.closeScope t scope).2 ∧ ∀ k, Room s k → Room (T.closeScope t scope).2 k

variable {T : Table σ ν} {Inv : σ → Prop} {Room : σ → ℕ → Prop} {s t : σ} {scope n : ℕ}

theorem Lawful.inv_above (hT : Lawful T Inv Room) (hs : Inv s) (h : Above T s scope n t) : Inv t := by
  induction h with
  | opened p hopen =>
    have ht := hT.open_inv p hs
    rwa [hopen] at ht
  | stored v _ ih => exact hT.store_inv v ih

/-- What is stored takes from the room there was. -/
theorem Lawful.room_above (hT : Lawful T Inv Room) (hs : Inv s) (h : Above T s scope n t) {k : ℕ}
    (hroom : Room s (n + k)) : Room t k := by
  induction h generalizing k with
  | opened p hopen =>
    rw [Nat.zero_add] at hroom
    have ht := (hT.open_room p hs).2 hroom
    rwa [hopen] at ht
  | stored v habove ih =>
    rename_i n t
    have ht := ih (k := k + 1) (by rwa [Nat.add_right_comm, Nat.add_assoc] at hroom)
    exact (hT.store_room v (hT.inv_above hs habove) ht).2

/-- An id stays live for its value as long as its scope is open. -/
theorem Lawful.load_stored (hT : Lawful T Inv Room) (hs : Inv s) {id : ℕ} {w : ν}
    (h : T.load s id = some w) (v : ν) : T.load (T.store s v).2 id = some w := by
  by_cases hid : id = (T.store s v).1
  · have hne : (T.store s v).1 ≠ 0 := by
      intro hzero
      rw [hid, hzero, hT.load_zero] at h
      cases h
    rw [hid] at h ⊢
    rw [hT.store_live v hs h]
    exact hT.store_load v hs hne
  · rw [hT.store_other v hs hid, h]

end Scoped
