import Mathlib

/-!
# Fixed-width unsigned words, over `Nat`

A `w`-bit word is a natural number below `2 ^ w`; nothing is bundled, because the
programs this serves keep their words in plain counters and the bound is always
part of some larger invariant. The operations are the ones a systems language
spells out by name — wrapping, checked, saturating, truncating — and each has one
lemma saying when it is the exact operation on `Nat`. A proof that a counter never
wraps is a proof that those lemmas' side conditions hold.
-/

namespace Word

/-- `fetch_add` / `wrapping_add`: addition modulo `2 ^ w`. -/
def wrappingAdd (w a b : ℕ) : ℕ := (a + b) % 2 ^ w

/-- `fetch_sub` / `wrapping_sub`: subtraction modulo `2 ^ w`. -/
def wrappingSub (w a b : ℕ) : ℕ := (a + (2 ^ w - b % 2 ^ w)) % 2 ^ w

/-- `checked_add`: the exact sum, or nothing when it does not fit. -/
def checkedAdd (w a b : ℕ) : Option ℕ := if a + b < 2 ^ w then some (a + b) else none

/-- `checked_mul`. -/
def checkedMul (w a b : ℕ) : Option ℕ := if a * b < 2 ^ w then some (a * b) else none

/-- `saturating_add`: the exact sum, or the largest word. -/
def saturatingAdd (w a b : ℕ) : ℕ := min (a + b) (2 ^ w - 1)

/-- `saturating_mul`. -/
def saturatingMul (w a b : ℕ) : ℕ := min (a * b) (2 ^ w - 1)

/-- An `as` cast to a narrower word keeps the low bits. -/
def truncate (w a : ℕ) : ℕ := a % 2 ^ w

/-- `try_from`: the value itself when it fits. -/
def tryFrom (w a : ℕ) : Option ℕ := if a < 2 ^ w then some a else none

variable {w a b : ℕ}

theorem wrappingAdd_of_lt (h : a + b < 2 ^ w) : wrappingAdd w a b = a + b :=
  Nat.mod_eq_of_lt h

theorem wrappingSub_of_le (hb : b ≤ a) (ha : a < 2 ^ w) :
    wrappingSub w a b = a - b := by
  unfold wrappingSub
  rw [Nat.mod_eq_of_lt (Nat.lt_of_le_of_lt hb ha)]
  rw [show a + (2 ^ w - b) = (a - b) + 2 ^ w by omega, Nat.add_mod_right]
  exact Nat.mod_eq_of_lt (by omega)

/-- Taking back what was added undoes it, wrap or no wrap. -/
theorem wrappingSub_wrappingAdd (b : ℕ) (ha : a < 2 ^ w) :
    wrappingSub w (wrappingAdd w a b) b = a := by
  have hb : b % 2 ^ w < 2 ^ w := Nat.mod_lt _ (Nat.two_pow_pos w)
  unfold wrappingSub wrappingAdd
  rw [Nat.mod_add_mod, Nat.add_assoc, Nat.add_mod, Nat.add_mod b]
  rw [Nat.mod_eq_of_lt ha]
  rcases Nat.eq_zero_or_pos (b % 2 ^ w) with h0 | hpos
  · rw [h0, Nat.sub_zero, Nat.mod_self, Nat.zero_add, Nat.zero_mod, Nat.add_zero,
      Nat.mod_eq_of_lt ha]
  · rw [Nat.mod_eq_of_lt (show 2 ^ w - b % 2 ^ w < 2 ^ w by omega), Nat.add_sub_cancel' hb.le,
      Nat.mod_self, Nat.add_zero, Nat.mod_eq_of_lt ha]

@[simp] theorem checkedAdd_eq_some {c : ℕ} :
    checkedAdd w a b = some c ↔ a + b < 2 ^ w ∧ c = a + b := by
  unfold checkedAdd
  split <;> simp <;> omega

@[simp] theorem checkedAdd_eq_none : checkedAdd w a b = none ↔ 2 ^ w ≤ a + b := by
  unfold checkedAdd
  split <;> simp_all

@[simp] theorem checkedMul_eq_some {c : ℕ} :
    checkedMul w a b = some c ↔ a * b < 2 ^ w ∧ c = a * b := by
  unfold checkedMul
  split
  · simp only [Option.some.injEq]
    exact ⟨fun h => ⟨by assumption, h.symm⟩, fun h => h.2.symm⟩
  · simp only [reduceCtorEq, false_iff]
    exact fun h => absurd h.1 (by assumption)

theorem saturatingAdd_le (w a b : ℕ) : saturatingAdd w a b ≤ a + b := Nat.min_le_left _ _

theorem truncate_of_lt (h : a < 2 ^ w) : truncate w a = a := Nat.mod_eq_of_lt h

@[simp] theorem tryFrom_eq_some : tryFrom w a = some b ↔ a < 2 ^ w ∧ b = a := by
  unfold tryFrom
  split <;> simp <;> omega

end Word
