import WasmerNapi.Lib.Decimal

/-!
# BigInts that fit 64 bits

`decimal_digits_fit` in `src/lib/src/napi_text.cc` and the BigInt conversions of the QuickJS backend
that tell by it whether they have lost something, `napi_get_value_bigint_int64` and
`napi_get_value_bigint_uint64` in `src/quickjs/src/js_native_api_quickjs.cc`. A numeral is compared
with that of the bound as text: first the lengths, then, at one length, the characters.
-/

namespace WasmerNapi.Quickjs.BigintFits

open Decimal.Alphabet (chars chars_isDigit_iff toDigits_eq_write written_write write_isDigit
  read_write toNat_chars)

/-! ## `decimal_digits_fit` -/

/-- `strcmp` -/
def strcmp : List Char → List Char → ℤ
  | [], [] => 0
  | [], b :: _ => -b.toNat
  | a :: _, [] => a.toNat
  | a :: s, b :: t => if a = b then strcmp s t else a.toNat - b.toNat

/-- The first loop: past the zeros that stand before another character. -/
def skipZeros : List Char → List Char
  | '0' :: c :: value => skipZeros (c :: value)
  | value => value

/-- `decimal_digits_fit` -/
def decimalDigitsFit (value max : List Char) : Bool :=
  let value := skipZeros value
  if value.length ≠ max.length then value.length < max.length
  else strcmp value max ≤ 0

/-! ## The conversions -/

/-- `JS_ToBigInt64`, `JS_ToBigUint64` and `JS_ToCString` of a BigInt, `none` where they throw. -/
structure Engine where
  toBigInt64 : ℤ → Option Int64
  toBigUint64 : ℤ → Option UInt64
  toCString : ℤ → Option (List Char)

/-- `bigint_fits_signed64` -/
def bigintFitsSigned64 (e : Engine) (value : ℤ) : Bool :=
  match e.toCString value with
  | none => false
  | some str =>
    let negative := str.head? == some '-'
    decimalDigitsFit (if negative then str.drop 1 else str)
      (if negative then "9223372036854775808" else "9223372036854775807").toList

/-- `bigint_fits_unsigned64` -/
def bigintFitsUnsigned64 (e : Engine) (value : ℤ) : Bool :=
  match e.toCString value with
  | none => false
  | some str => str.head? != some '-' && decimalDigitsFit str "18446744073709551615".toList

inductive Status where
  | ok
  | bigintExpected
  deriving DecidableEq

/-- `*result` and `*lossless`, `none` where they are not written. -/
structure Converted (α : Type) where
  status : Status
  result : Option α
  lossless : Option Bool

/-- `napi_get_value_bigint_int64`, for a live env and pointers. `value`: `none` is one that is no
    BigInt. -/
def napiGetValueBigintInt64 (e : Engine) : Option ℤ → Converted Int64
  | none => { status := .bigintExpected, result := none, lossless := none }
  | some bigint =>
    match e.toBigInt64 bigint with
    | some result =>
      { status := .ok, result := some result, lossless := some (bigintFitsSigned64 e bigint) }
    | none =>
      let u := (e.toBigUint64 bigint).getD 0
      { status := .ok, result := some u.toInt64, lossless := some false }

/-- `napi_get_value_bigint_uint64` -/
def napiGetValueBigintUint64 (e : Engine) : Option ℤ → Converted UInt64
  | none => { status := .bigintExpected, result := none, lossless := none }
  | some bigint =>
    match e.toBigUint64 bigint with
    | some result =>
      { status := .ok, result := some result, lossless := some (bigintFitsUnsigned64 e bigint) }
    | none =>
      let s := (e.toBigInt64 bigint).getD 0
      { status := .ok, result := some s.toUInt64, lossless := some false }

/-! ## What they should be -/

/-- A BigInt in decimal. -/
def decimal (bigint : ℤ) : List Char :=
  (if bigint < 0 then ['-'] else []) ++ Nat.toDigits 10 bigint.natAbs

/-- What the engine is relied on for: a BigInt is converted to 64 bits by its low bits, and is
    written in decimal. -/
structure Engine.Exact (e : Engine) : Prop where
  toBigInt64 : ∀ bigint, e.toBigInt64 bigint = some (Int64.ofInt bigint)
  toBigUint64 : ∀ bigint, e.toBigUint64 bigint = some (UInt64.ofInt bigint)
  toCString : ∀ bigint, e.toCString bigint = some (decimal bigint)

/-! ## Digits compared as text -/

theorem toNat_digit {c : Char} (h : chars.IsDigit c) : c.toNat = 0x30 + chars.digit c := by
  obtain ⟨d, hd, rfl⟩ := h
  rw [toNat_chars hd, chars.digit_char d hd]

variable {value max : List Char}

/-- At one length, text is compared like numbers. -/
theorem strcmp_nonpos_iff (hvalue : ∀ c ∈ value, chars.IsDigit c)
    (hmax : ∀ c ∈ max, chars.IsDigit c) (hlength : value.length = max.length) :
    strcmp value max ≤ 0 ↔ chars.read value ≤ chars.read max := by
  induction value generalizing max with
  | nil =>
    cases max with
    | nil => simp [strcmp]
    | cons b max => cases hlength
  | cons a value ih =>
    cases max with
    | nil => cases hlength
    | cons b max =>
      obtain ⟨ha, hvalue'⟩ := List.forall_mem_cons.mp hvalue
      obtain ⟨hb, hmax'⟩ := List.forall_mem_cons.mp hmax
      rw [List.length_cons, List.length_cons, Nat.succ_inj] at hlength
      rw [strcmp]
      have hcode := toNat_digit ha
      have hcode' := toNat_digit hb
      have hdigits : (value.map chars.digit).length = (max.map chars.digit).length := by
        rw [List.length_map, List.length_map, hlength]
      by_cases hab : a = b
      · subst hab
        rw [if_pos rfl, ih hvalue' hmax' hlength, Decimal.Alphabet.read_cons,
          Decimal.Alphabet.read_cons, hlength, Nat.add_le_add_iff_left]
      · rw [if_neg hab]
        -- the first characters that differ decide
        have hne : a.toNat ≠ b.toNat := fun heq => hab (Char.toNat_inj.mp heq)
        rcases Nat.lt_or_gt_of_ne hne with hlt | hgt
        · have hless : chars.read (a :: value) < chars.read (b :: max) :=
            Decimal.value_cons_lt hdigits (Decimal.Alphabet.digit_lt hvalue') (by omega)
          exact iff_of_true (by omega) hless.le
        · have hmore : chars.read (b :: max) < chars.read (a :: value) :=
            Decimal.value_cons_lt hdigits.symm (Decimal.Alphabet.digit_lt hmax') (by omega)
          exact iff_of_false (by omega) hmore.not_ge

/-- What is left has no zeros to skip, and is the same number. -/
theorem skipZeros_spec (h : ∀ c ∈ value, chars.IsDigit c) :
    (skipZeros value = [] ∨ chars.Written (skipZeros value)) ∧
      chars.read (skipZeros value) = chars.read value := by
  fun_induction skipZeros value with
  | case1 c value ih =>
    obtain ⟨hleft, hread⟩ := ih fun d hd => h d (List.mem_cons_of_mem _ hd)
    refine ⟨hleft, hread.trans ?_⟩
    have hzero : chars.digit '0' = 0 := rfl
    rw [Decimal.Alphabet.read_cons '0', hzero, Nat.zero_mul, Nat.zero_add]
  | case2 value hvalue =>
    refine ⟨?_, rfl⟩
    cases value with
    | nil => exact .inl rfl
    | cons c value =>
      refine .inr ⟨List.cons_ne_nil _ _, h, ?_⟩
      cases value with
      | nil => exact .inl rfl
      | cons d value =>
        right
        rw [List.head?_cons, Ne, Option.some.injEq]
        rintro rfl
        exact hvalue d value rfl

/-- **The comparison is exact**, whatever zeros the number begins with. -/
theorem decimalDigitsFit_iff (hvalue : ∀ c ∈ value, chars.IsDigit c) (hmax : chars.Written max) :
    decimalDigitsFit value max = true ↔ chars.read value ≤ chars.read max := by
  obtain ⟨hleft, hread⟩ := skipZeros_spec hvalue
  rw [← hread, decimalDigitsFit]
  generalize skipZeros value = value at hleft
  rcases hleft with rfl | hwritten
  · -- no digits at all: zero
    have hlength := List.length_pos_iff.mpr hmax.nonempty
    rw [List.length_nil, if_pos hlength.ne, decide_eq_true hlength]
    exact iff_of_true rfl (Nat.zero_le _)
  · have hvaluelt := Decimal.Alphabet.digit_lt hwritten.digits
    have hmaxlt := Decimal.Alphabet.digit_lt hmax.digits
    split_ifs with hlength
    · rw [decide_eq_true_eq]
      rcases Nat.lt_or_gt_of_ne hlength with hlt | hgt
      · have hless : chars.read value < chars.read max :=
          hmax.canonical.value_lt_of_length hvaluelt (by simpa using hwritten.nonempty)
            (by simpa using hlt)
        exact iff_of_true hlt hless.le
      · have hmore : chars.read max < chars.read value :=
          hwritten.canonical.value_lt_of_length hmaxlt (by simpa using hmax.nonempty)
            (by simpa using hgt)
        exact iff_of_false hgt.not_gt hmore.not_ge
    · rw [decide_eq_true_eq]
      exact strcmp_nonpos_iff hwritten.digits hmax.digits (not_not.mp hlength)

/-! ## The lossless flags -/

variable {e : Engine}

theorem decimal_natCast (n : ℕ) : decimal n = chars.write n := by
  simp [decimal, toDigits_eq_write]

theorem decimal_neg {n : ℕ} (h : 0 < n) : decimal (-n) = '-' :: chars.write n := by
  simp [decimal, toDigits_eq_write, h]

theorem head_write (n : ℕ) : (chars.write n).head? ≠ some '-' := by
  intro hhead
  have hdigit := chars_isDigit_iff.mp (write_isDigit n '-' (List.mem_of_head? hhead))
  exact absurd hdigit (by decide)

/-- A numeral is compared with that of a bound. -/
theorem decimalDigitsFit_write {n bound : ℕ} (hmax : max = Nat.toDigits 10 bound) :
    decimalDigitsFit (chars.write n) max = true ↔ n ≤ bound := by
  rw [hmax, toDigits_eq_write, decimalDigitsFit_iff (write_isDigit n) (written_write bound),
    read_write, read_write]

theorem bigintFitsSigned64_iff (h : e.Exact) (bigint : ℤ) :
    bigintFitsSigned64 e bigint = true ↔ -2 ^ 63 ≤ bigint ∧ bigint < 2 ^ 63 := by
  have hpositive : "9223372036854775807".toList = Nat.toDigits 10 9223372036854775807 := by decide
  have hnegative : "9223372036854775808".toList = Nat.toDigits 10 9223372036854775808 := by decide
  rw [bigintFitsSigned64, h.toCString]
  rcases le_or_gt 0 bigint with hle | hlt
  · obtain ⟨n, rfl⟩ := Int.eq_ofNat_of_zero_le hle
    have hsign : (decimal n).head? ≠ some '-' := by
      rw [decimal_natCast]
      exact head_write n
    simp only [beq_eq_false_iff_ne.mpr hsign, Bool.false_eq_true, if_false]
    rw [decimal_natCast, decimalDigitsFit_write hpositive]
    omega
  · obtain ⟨n, rfl⟩ := Int.exists_eq_neg_ofNat hlt.le
    have hpos : 0 < n := by omega
    simp only [decimal_neg hpos, List.head?_cons, beq_self_eq_true, if_true, List.drop_succ_cons,
      List.drop_zero]
    rw [decimalDigitsFit_write hnegative]
    omega

theorem bigintFitsUnsigned64_iff (h : e.Exact) (bigint : ℤ) :
    bigintFitsUnsigned64 e bigint = true ↔ 0 ≤ bigint ∧ bigint < 2 ^ 64 := by
  have hmax : "18446744073709551615".toList = Nat.toDigits 10 18446744073709551615 := by decide
  rw [bigintFitsUnsigned64, h.toCString]
  rcases le_or_gt 0 bigint with hle | hlt
  · obtain ⟨n, rfl⟩ := Int.eq_ofNat_of_zero_le hle
    have hsign := head_write n
    simp only [decimal_natCast, Bool.and_eq_true, bne_iff_ne, hsign, ne_eq, not_false_eq_true,
      true_and]
    rw [decimalDigitsFit_write hmax]
    omega
  · obtain ⟨n, rfl⟩ := Int.exists_eq_neg_ofNat hlt.le
    have hpos : 0 < n := by omega
    simp [decimal_neg hpos]
    omega

/-- A BigInt of 64 bits with a sign is converted as it is, and no other is said to be. -/
theorem napiGetValueBigintInt64_spec (h : e.Exact) (bigint : ℤ) :
    let converted := napiGetValueBigintInt64 e (some bigint)
    (converted.lossless = some true ↔ -2 ^ 63 ≤ bigint ∧ bigint < 2 ^ 63) ∧
      (converted.lossless = some true → converted.result.map Int64.toInt = some bigint) := by
  have hfits := bigintFitsSigned64_iff h bigint
  simp only [napiGetValueBigintInt64, h.toBigInt64, Option.some.injEq, hfits, Option.map_some,
    true_and]
  rintro ⟨hlow, hhigh⟩
  exact Int64.toInt_ofInt_of_le hlow hhigh

theorem napiGetValueBigintUint64_spec (h : e.Exact) (bigint : ℤ) :
    let converted := napiGetValueBigintUint64 e (some bigint)
    (converted.lossless = some true ↔ 0 ≤ bigint ∧ bigint < 2 ^ 64) ∧
      (converted.lossless = some true →
        converted.result.map (fun result => (result.toNat : ℤ)) = some bigint) := by
  have hfits := bigintFitsUnsigned64_iff h bigint
  simp only [napiGetValueBigintUint64, h.toBigUint64, Option.some.injEq, hfits, Option.map_some,
    true_and]
  rintro ⟨hlow, hhigh⟩
  rw [UInt64.ofInt, UInt64.toNat_ofNat', Int.emod_eq_of_lt hlow hhigh]
  omega

end WasmerNapi.Quickjs.BigintFits
