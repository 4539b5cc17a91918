import Mathlib

/-!
# Size bins: a few bits of mantissa and an exponent

An allocator that keeps its free regions by size keeps them by *bins*, `2 ^ k` of them to
an octave: the sizes `m * 2 ^ e` with `m < 2 ^ (k + 1)`. A region is filed under the
largest bin it contains and a request is looked up under the smallest bin that contains it,
so a region of `s` serves a request of `n` exactly when some bin lies between them.

`ceil_le` is the price: rounding a request up costs at most one part in `2 ^ k`.
-/

namespace Bins

/-- How far apart the bins are around `n`. -/
def step (k n : ℕ) : ℕ := 2 ^ (Nat.log 2 n - k)

/-- The largest bin not above `n`. -/
def floor (k n : ℕ) : ℕ := n / step k n * step k n

/-- The smallest bin not below `n`. -/
def ceil (k n : ℕ) : ℕ := (n + (step k n - 1)) / step k n * step k n

def IsBin (k s : ℕ) : Prop := ∃ m e, m < 2 ^ (k + 1) ∧ s = m * 2 ^ e

variable {k n s : ℕ}

theorem step_pos (k n : ℕ) : 0 < step k n := Nat.two_pow_pos _

/-- `n` is fewer than `2 ^ (k + 1)` steps: its mantissa fits. -/
theorem lt_mul_step (k n : ℕ) : n < 2 ^ (k + 1) * step k n := by
  have hlog : n < 2 ^ (Nat.log 2 n + 1) := Nat.lt_pow_succ_log_self (by decide) n
  apply Nat.lt_of_lt_of_le hlog
  rw [step, ← pow_add]
  apply Nat.pow_le_pow_right (by decide)
  omega

/-- A bin is a multiple of the step around `n`, or lies below `n`'s octave. -/
theorem IsBin.dvd_or_lt (h : IsBin k s) (n : ℕ) :
    step k n ∣ s ∨ k < Nat.log 2 n ∧ s < 2 ^ Nat.log 2 n := by
  obtain ⟨m, e, hm, rfl⟩ := h
  by_cases he : Nat.log 2 n - k ≤ e
  · left
    exact Dvd.dvd.mul_left (pow_dvd_pow 2 he) m
  · right
    refine ⟨by omega, ?_⟩
    calc m * 2 ^ e < 2 ^ (k + 1) * 2 ^ e := Nat.mul_lt_mul_of_pos_right hm (Nat.two_pow_pos e)
      _ = 2 ^ (k + 1 + e) := (pow_add 2 (k + 1) e).symm
      _ ≤ 2 ^ Nat.log 2 n := Nat.pow_le_pow_right (by decide) (by omega)

theorem two_pow_log_le (h : k < Nat.log 2 n) : 2 ^ Nat.log 2 n ≤ n := by
  apply Nat.pow_log_le_self
  rintro rfl
  simp at h

theorem floor_isGreatest (k n : ℕ) : IsGreatest {s | IsBin k s ∧ s ≤ n} (floor k n) := by
  have hpos := step_pos k n
  refine ⟨⟨⟨n / step k n, Nat.log 2 n - k, ?_, rfl⟩, Nat.div_mul_le_self n _⟩, ?_⟩
  · rw [Nat.div_lt_iff_lt_mul hpos]
    exact lt_mul_step k n
  · intro s hs
    obtain ⟨hbin, hle⟩ := hs
    rcases hbin.dvd_or_lt n with hdvd | ⟨hlog, hlt⟩
    · rw [← Nat.div_mul_cancel hdvd]
      exact Nat.mul_le_mul_right _ (Nat.div_le_div_right hle)
    · -- The octave's own start is a multiple of the step.
      have hdvd : step k n ∣ 2 ^ Nat.log 2 n := pow_dvd_pow 2 (Nat.sub_le _ _)
      have hstart : 2 ^ Nat.log 2 n ≤ floor k n := by
        rw [← Nat.div_mul_cancel hdvd]
        exact Nat.mul_le_mul_right _ (Nat.div_le_div_right (two_pow_log_le hlog))
      omega

theorem le_ceil (k n : ℕ) : n ≤ ceil k n := by
  have hpos := step_pos k n
  have hdiv := Nat.div_add_mod (n + (step k n - 1)) (step k n)
  have hmod := Nat.mod_lt (n + (step k n - 1)) hpos
  unfold ceil
  rw [Nat.mul_comm]
  omega

/-- A mantissa that rounds up out of its bits is the next octave's first. -/
theorem isBin_ceil (k n : ℕ) : IsBin k (ceil k n) := by
  have hpos := step_pos k n
  have hlt := lt_mul_step k n
  have hle : (n + (step k n - 1)) / step k n ≤ 2 ^ (k + 1) := by
    apply Nat.le_of_lt_succ
    rw [Nat.div_lt_iff_lt_mul hpos, Nat.succ_mul]
    omega
  rcases Nat.lt_or_eq_of_le hle with hm | hm
  · exact ⟨_, _, hm, rfl⟩
  · refine ⟨2 ^ k, Nat.log 2 n - k + 1, Nat.pow_lt_pow_right (by decide) (Nat.lt_succ_self k), ?_⟩
    rw [ceil, hm, step, pow_succ, pow_succ]
    ring

theorem ceil_isLeast (k n : ℕ) : IsLeast {s | IsBin k s ∧ n ≤ s} (ceil k n) := by
  refine ⟨⟨isBin_ceil k n, le_ceil k n⟩, ?_⟩
  intro s hs
  obtain ⟨hbin, hle⟩ := hs
  rcases hbin.dvd_or_lt n with hdvd | ⟨hlog, hlt⟩
  · obtain ⟨q, rfl⟩ := hdvd
    have hpos := step_pos k n
    rw [ceil, Nat.mul_comm]
    apply Nat.mul_le_mul_left
    apply Nat.le_of_lt_succ
    rw [Nat.div_lt_iff_lt_mul hpos, Nat.succ_mul, Nat.mul_comm]
    omega
  · have := two_pow_log_le hlog
    omega

/-- Some bin lies between a request and a region exactly when the region contains the
    request rounded up. -/
theorem ceil_le_floor : ceil k n ≤ floor k s ↔ ceil k n ≤ s := by
  constructor
  · intro h
    exact h.trans (floor_isGreatest k s).1.2
  · intro h
    exact (floor_isGreatest k s).2 ⟨(ceil_isLeast k n).1.1, h⟩

/-- The headroom a request needs. -/
theorem ceil_le (k n : ℕ) : ceil k n ≤ n + n / 2 ^ k := by
  have hround : ceil k n ≤ n + (step k n - 1) := Nat.div_mul_le_self _ _
  have hstep : step k n - 1 ≤ n / 2 ^ k := by
    by_cases hlog : Nat.log 2 n ≤ k
    · rw [step, Nat.sub_eq_zero_of_le hlog]
      simp
    · have hle := two_pow_log_le (Nat.lt_of_not_le hlog)
      have hstep : step k n * 2 ^ k = 2 ^ Nat.log 2 n := by
        rw [step, ← pow_add]
        congr 1
        omega
      have : step k n ≤ n / 2 ^ k := by
        rw [Nat.le_div_iff_mul_le (Nat.two_pow_pos k), hstep]
        exact hle
      omega
  omega

end Bins
