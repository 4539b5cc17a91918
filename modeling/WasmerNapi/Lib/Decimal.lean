import Mathlib

/-!
# Decimal numerals

A numeral is a list of digits, the first one first. The canonical ones have no leading zero, and
are read by `value` and written by `numeral`.
-/

namespace Decimal

/-- What the digits come to. -/
def value (digits : List ℕ) : ℕ := digits.foldl (fun acc d => acc * 10 + d) 0

/-- The canonical numeral of a number. -/
def numeral (n : ℕ) : List ℕ := if n = 0 then [0] else (Nat.digits 10 n).reverse

/-- Digits with no leading zero, but for zero itself. -/
structure Canonical (digits : List ℕ) : Prop where
  nonempty : digits ≠ []
  digit : ∀ d ∈ digits, d < 10
  leading : digits.length = 1 ∨ digits.head? ≠ some 0

theorem value_eq_ofDigits (digits : List ℕ) : value digits = Nat.ofDigits 10 digits.reverse := by
  rw [Nat.ofDigits_eq_foldr, value, List.foldr_reverse]
  congr 1
  funext acc d
  simp only [Nat.cast_id]
  ring

theorem value_numeral (n : ℕ) : value (numeral n) = n := by
  unfold numeral
  split_ifs with h
  · simp [value, h]
  · rw [value_eq_ofDigits, List.reverse_reverse, Nat.ofDigits_digits]

theorem numeral_canonical (n : ℕ) : Canonical (numeral n) := by
  unfold numeral
  split_ifs with h
  · exact ⟨by simp, by simp, .inl rfl⟩
  · have hne : Nat.digits 10 n ≠ [] := Nat.digits_ne_nil_iff_ne_zero.mpr h
    refine ⟨by simpa using hne, ?_, .inr ?_⟩
    · intro d hd
      exact Nat.digits_lt_base (by decide) (List.mem_reverse.mp hd)
    · have hlast := Nat.getLast_digit_ne_zero 10 h
      rw [List.head?_reverse, List.getLast?_eq_some_getLast hne]
      simpa using hlast

theorem numeral_of_lt {n : ℕ} (h : n < 10) : numeral n = [n] := by
  unfold numeral
  split_ifs with hzero
  · rw [hzero]
  · rw [Nat.digits_of_lt 10 n hzero h, List.reverse_singleton]

theorem numeral_of_le {n : ℕ} (h : 10 ≤ n) : numeral n = numeral (n / 10) ++ [n % 10] := by
  rw [numeral, numeral, if_neg (by omega), if_neg (by omega),
    Nat.digits_def' (by decide) (by omega), List.reverse_cons]

/-- A canonical numeral is the numeral of its value. -/
theorem Canonical.numeral_value {digits : List ℕ} (h : Canonical digits) :
    numeral (value digits) = digits := by
  have hrev : digits.reverse ≠ [] := by simpa using h.nonempty
  have hdigit : ∀ d ∈ digits.reverse, d < 10 := fun d hd => h.digit d (List.mem_reverse.mp hd)
  by_cases hzero : digits = [0]
  · simp [hzero, value, numeral]
  · have hlast : ∀ hne : digits.reverse ≠ [], digits.reverse.getLast hne ≠ 0 := by
      intro hne he
      have hhead : digits.head? = some 0 := by
        rw [← List.reverse_reverse digits, List.head?_reverse,
          List.getLast?_eq_some_getLast hne, he]
      rcases h.leading with hone | hlead
      · -- One digit that is zero is zero.
        obtain ⟨d, rfl⟩ := List.length_eq_one_iff.mp hone
        simp only [List.head?_cons, Option.some.injEq] at hhead
        exact hzero (by rw [hhead])
      · exact hlead hhead
    have hdigits : Nat.digits 10 (value digits) = digits.reverse := by
      rw [value_eq_ofDigits]
      exact Nat.digits_ofDigits 10 (by decide) _ hdigit hlast
    have hpos : value digits ≠ 0 := by
      intro hz
      rw [hz, Nat.digits_zero] at hdigits
      exact hrev hdigits.symm
    rw [numeral, if_neg hpos, hdigits, List.reverse_reverse]

theorem numeral_injective : Function.Injective numeral :=
  Function.LeftInverse.injective value_numeral

/-- The numerals of at most `k` digits are those of the numbers below `10 ^ k`. -/
theorem length_numeral_le {n k : ℕ} (hk : 0 < k) : (numeral n).length ≤ k ↔ n < 10 ^ k := by
  unfold numeral
  split_ifs with h
  · simp only [List.length_cons, List.length_nil, h, Nat.zero_add]
    constructor
    · intro _
      positivity
    · intro _
      exact hk
  · rw [List.length_reverse]
    exact Nat.digits_length_le_iff (by decide) n

/-- Reading on, the number does not get smaller. -/
theorem le_foldl (acc : ℕ) (digits : List ℕ) :
    acc ≤ digits.foldl (fun acc d => acc * 10 + d) acc := by
  induction digits generalizing acc with
  | nil => exact le_refl acc
  | cons d digits ih => exact (by omega : acc ≤ acc * 10 + d).trans (ih _)

/-! ## The order of numerals -/

theorem value_cons (d : ℕ) (digits : List ℕ) :
    value (d :: digits) = d * 10 ^ digits.length + value digits := by
  rw [value_eq_ofDigits, value_eq_ofDigits, List.reverse_cons, Nat.ofDigits_append,
    Nat.ofDigits_singleton, List.length_reverse]
  ring

theorem value_lt {digits : List ℕ} (h : ∀ d ∈ digits, d < 10) :
    value digits < 10 ^ digits.length := by
  rw [value_eq_ofDigits, ← List.length_reverse]
  exact Nat.ofDigits_lt_base_pow_length (by decide) fun d hd => h d (List.mem_reverse.mp hd)

/-- A number is at least the power of ten of its first digit. -/
theorem pow_le_value {d : ℕ} (hd : d ≠ 0) (digits : List ℕ) :
    10 ^ digits.length ≤ value (d :: digits) := by
  rw [value_cons]
  exact Nat.le_add_right_of_le (Nat.le_mul_of_pos_left _ (Nat.pos_of_ne_zero hd))

/-- The longer canonical numeral is the greater. -/
theorem Canonical.value_lt_of_length {a b : List ℕ} (hb : Canonical b) (ha : ∀ d ∈ a, d < 10)
    (hne : a ≠ []) (hlength : a.length < b.length) : value a < value b := by
  have hpos := List.length_pos_iff.mpr hne
  cases b with
  | nil => exact absurd rfl hb.nonempty
  | cons d b =>
    have hd : d ≠ 0 := by
      rintro rfl
      rcases hb.leading with hone | hhead
      · omega
      · exact hhead rfl
    rw [List.length_cons] at hlength
    calc value a < 10 ^ a.length := value_lt ha
      _ ≤ 10 ^ b.length := Nat.pow_le_pow_right (by decide) (by omega)
      _ ≤ value (d :: b) := pow_le_value hd b

/-- Between numerals of one length the first digits that differ decide. -/
theorem value_cons_lt {a b : List ℕ} {x y : ℕ} (hlength : a.length = b.length)
    (ha : ∀ d ∈ a, d < 10) (hlt : x < y) : value (x :: a) < value (y :: b) := by
  rw [value_cons, value_cons, ← hlength]
  calc x * 10 ^ a.length + value a < x * 10 ^ a.length + 10 ^ a.length :=
        Nat.add_lt_add_left (value_lt ha) _
    _ = (x + 1) * 10 ^ a.length := by ring
    _ ≤ y * 10 ^ a.length := Nat.mul_le_mul_right _ hlt
    _ ≤ y * 10 ^ a.length + value b := Nat.le_add_right _ _

/-! ## Numerals in characters -/

/-- The characters of the digits. -/
structure Alphabet (α : Type*) where
  char : ℕ → α
  digit : α → ℕ
  digit_char : ∀ d < 10, digit (char d) = d

namespace Alphabet

variable {α : Type*} (A : Alphabet α) {text : List α} {n : ℕ}

def IsDigit (ch : α) : Prop := ∃ d < 10, A.char d = ch

/-- The numeral of a number, written. -/
def write (n : ℕ) : List α := (numeral n).map A.char

/-- The number that digits stand for. -/
def read (text : List α) : ℕ := value (text.map A.digit)

/-- Digits, and no zero before others. -/
structure Written (text : List α) : Prop where
  nonempty : text ≠ []
  digits : ∀ ch ∈ text, A.IsDigit ch
  leading : text.length = 1 ∨ text.head? ≠ some (A.char 0)

variable {A}

theorem IsDigit.digit_lt {ch : α} (h : A.IsDigit ch) : A.digit ch < 10 := by
  obtain ⟨d, hd, rfl⟩ := h
  rwa [A.digit_char d hd]

theorem IsDigit.char_digit {ch : α} (h : A.IsDigit ch) : A.char (A.digit ch) = ch := by
  obtain ⟨d, hd, rfl⟩ := h
  rw [A.digit_char d hd]

theorem read_cons (ch : α) (text : List α) :
    A.read (ch :: text) = A.digit ch * 10 ^ text.length + A.read text := by
  rw [read, List.map_cons, value_cons, List.length_map, read]

theorem digit_lt (h : ∀ ch ∈ text, A.IsDigit ch) : ∀ d ∈ text.map A.digit, d < 10 := by
  intro d hd
  obtain ⟨ch, hch, rfl⟩ := List.mem_map.mp hd
  exact (h ch hch).digit_lt

theorem Written.canonical (h : A.Written text) : Canonical (text.map A.digit) where
  nonempty := by simpa using h.nonempty
  digit := digit_lt h.digits
  leading := by
    rcases h.leading with hone | hhead
    · exact .inl (by simpa using hone)
    · right
      intro hzero
      obtain ⟨ch, hch, hdigit⟩ := Option.map_eq_some_iff.mp (List.head?_map ▸ hzero)
      have := (h.digits ch (List.mem_of_head? hch)).char_digit
      rw [hdigit] at this
      exact hhead (this ▸ hch)

theorem map_char_digit (h : ∀ ch ∈ text, A.IsDigit ch) : (text.map A.digit).map A.char = text := by
  rw [List.map_map]
  exact (List.map_congr_left fun ch hch => (h ch hch).char_digit).trans (List.map_id text)

theorem write_isDigit (n : ℕ) : ∀ ch ∈ A.write n, A.IsDigit ch := by
  intro ch hch
  obtain ⟨d, hd, rfl⟩ := List.mem_map.mp hch
  exact ⟨d, (numeral_canonical n).digit d hd, rfl⟩

theorem map_digit_write (n : ℕ) : (A.write n).map A.digit = numeral n := by
  rw [write, List.map_map]
  refine (List.map_congr_left fun d hd => ?_).trans (List.map_id _)
  exact A.digit_char d ((numeral_canonical n).digit d hd)

@[simp] theorem read_write (n : ℕ) : A.read (A.write n) = n := by
  rw [read, map_digit_write, value_numeral]

theorem written_write (n : ℕ) : A.Written (A.write n) where
  nonempty := by simpa [write] using (numeral_canonical n).nonempty
  digits := write_isDigit n
  leading := by
    rcases (numeral_canonical n).leading with hone | hhead
    · exact .inl (by simpa [write] using hone)
    · right
      intro hzero
      have hdigit := congrArg (Option.map A.digit) hzero
      rw [← List.head?_map, map_digit_write, Option.map_some, A.digit_char 0 (by decide)] at hdigit
      exact hhead hdigit

/-- Just the canonical numerals are written so. -/
theorem eq_write_iff : text = A.write n ↔ A.Written text ∧ A.read text = n := by
  constructor
  · rintro rfl
    exact ⟨written_write n, read_write n⟩
  · rintro ⟨h, rfl⟩
    rw [write, read, h.canonical.numeral_value, map_char_digit h.digits]

/-! ### ASCII -/

def chars : Alphabet Char where
  char := Nat.digitChar
  digit ch := ch.toNat - 0x30
  digit_char := by decide

def bytes : Alphabet UInt8 where
  char d := UInt8.ofNat (0x30 + d)
  digit ch := ch.toNat - 0x30
  digit_char := by decide

def units : Alphabet UInt16 where
  char d := UInt16.ofNat (0x30 + d)
  digit ch := ch.toNat - 0x30
  digit_char := by decide

theorem chars_isDigit_iff {ch : Char} : chars.IsDigit ch ↔ ch.isDigit = true := by
  constructor
  · rintro ⟨d, hd, rfl⟩
    revert hd
    revert d
    decide
  · intro h
    have hrange : 0x30 ≤ ch.toNat ∧ ch.toNat ≤ 0x39 := by
      simpa [Char.isDigit, UInt32.le_iff_toNat_le] using h
    refine ⟨ch.toNat - 0x30, by omega, ?_⟩
    rw [← Char.ofNat_toNat ch]
    generalize ch.toNat = code at hrange
    obtain ⟨hlow, hhigh⟩ := hrange
    interval_cases code <;> rfl

theorem toNat_chars {d : ℕ} (h : d < 10) : (chars.char d).toNat = 0x30 + d :=
  Nat.toNat_digitChar_of_lt_ten h

theorem toNat_bytes {d : ℕ} (h : d < 10) : (bytes.char d).toNat = 0x30 + d := by
  revert h
  revert d
  decide

theorem units_isDigit_iff {u : UInt16} : units.IsDigit u ↔ 0x30 ≤ u.toNat ∧ u.toNat ≤ 0x39 := by
  constructor
  · rintro ⟨d, hd, rfl⟩
    revert hd
    revert d
    decide
  · rintro ⟨hlow, hhigh⟩
    refine ⟨u.toNat - 0x30, by omega, UInt16.toNat_inj.mp ?_⟩
    simp only [units, UInt16.toNat_ofNat']
    omega

/-- Lean writes the same. -/
theorem toDigits_eq_write (n : ℕ) : Nat.toDigits 10 n = chars.write n := by
  induction n using Nat.strong_induction_on with
  | _ n ih =>
    rcases Nat.lt_or_ge n 10 with hlt | hge
    · rw [Nat.toDigits_of_lt_base hlt, write, numeral_of_lt hlt]
      rfl
    · rw [Nat.toDigits_of_base_le (by decide) hge, ih (n / 10) (by omega), write, write,
        numeral_of_le hge, List.map_append]
      rfl

end Alphabet

end Decimal
