import Mathlib

/-!
# Whole numbers as doubles

The double nearest to a natural number: its 53 highest bits, rounded to nearest with ties to even.
Those of at most 53 bits are kept, and no other is rounded to one of them.
-/

namespace Double

/-- The unit in the last place: the power of two that 53 bits count. -/
def ulp (n : ℕ) : ℕ := 2 ^ (Nat.log2 n - 52)

/-- How many units, rounded. -/
def significand (n : ℕ) : ℕ :=
  let q := n / ulp n
  let r := n % ulp n
  if ulp n < 2 * r ∨ 2 * r = ulp n ∧ q % 2 = 1 then q + 1 else q

def maxExponent : ℕ := 1024

/-- The first power of two that is no double. -/
def limit : ℕ := 2 ^ maxExponent

/-- The nearest double, `none` for infinity. -/
def ofNat (n : ℕ) : Option ℕ :=
  if significand n * ulp n < limit then some (significand n * ulp n) else none

theorem ulp_eq_one {n : ℕ} (h : n < 2 ^ 53) : ulp n = 1 := by
  have hlog : Nat.log2 n ≤ 52 := by
    by_cases hzero : n = 0
    · simp [hzero]
    · exact Nat.lt_succ_iff.mp ((Nat.log2_lt hzero).mpr h)
  rw [ulp, Nat.sub_eq_zero_of_le hlog, pow_zero]

/-- Numbers of at most 53 bits are doubles. -/
theorem ofNat_of_lt {n : ℕ} (h : n < 2 ^ 53) : ofNat n = some n := by
  have hsignificand : significand n = n := by
    simp [significand, ulp_eq_one h, Nat.mod_one]
  have hexponent : 53 < maxExponent := by decide
  have hlimit : 2 ^ 53 < limit := Nat.pow_lt_pow_right Nat.one_lt_two hexponent
  rw [ofNat, hsignificand, ulp_eq_one h, Nat.mul_one, if_pos (h.trans hlimit)]

/-- Greater numbers are not rounded below them: `2 ^ 53` is a double. -/
theorem le_ofNat {n m : ℕ} (h : 2 ^ 53 ≤ n) (hm : ofNat n = some m) : 2 ^ 53 ≤ m := by
  have hne : n ≠ 0 := by
    rintro rfl
    exact absurd h (by decide)
  have hlog : 53 ≤ Nat.log2 n := (Nat.le_log2 hne).mpr h
  have hpos : 0 < ulp n := Nat.two_pow_pos _
  have hq : 2 ^ 52 ≤ n / ulp n := by
    rw [Nat.le_div_iff_mul_le hpos, ulp, ← pow_add, Nat.add_sub_of_le (by omega)]
    exact Nat.log2_self_le hne
  have hsignificand : n / ulp n ≤ significand n := by
    dsimp only [significand]
    split_ifs <;> omega
  have hulp : 2 ≤ ulp n := Nat.le_self_pow (by omega) 2
  rw [ofNat] at hm
  split_ifs at hm
  calc 2 ^ 53 = 2 ^ 52 * 2 := rfl
    _ ≤ significand n * ulp n := Nat.mul_le_mul (hq.trans hsignificand) hulp
    _ = m := Option.some.inj hm

/-- So a bound of at most 53 bits is a bound on the number itself. -/
theorem ofNat_eq_some_le {n m bound : ℕ} (hbound : bound < 2 ^ 53) :
    ofNat n = some m ∧ m ≤ bound ↔ n = m ∧ n ≤ bound := by
  constructor
  · rintro ⟨hm, hle⟩
    have hlt : n < 2 ^ 53 := by
      by_contra hge
      have := le_ofNat (not_lt.mp hge) hm
      omega
    rw [ofNat_of_lt hlt] at hm
    cases hm
    exact ⟨rfl, hle⟩
  · rintro ⟨rfl, hle⟩
    exact ⟨ofNat_of_lt (by omega), hle⟩

end Double
