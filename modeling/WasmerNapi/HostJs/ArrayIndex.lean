import WasmerNapi.HostJs.LazyNames
import WasmerNapi.HostJs.PropertyNames
import WasmerNapi.Lib.Double

/-!
# The tests for an array index

Four pieces of code ask whether a string is an array index: `is_array_index_key` and the listing of
all property names in `src/src/snapi_js.rs`, `property_key_to_array_index` in
`src/quickjs/src/internal/napi_util.cc` and `validate_name` in
`src/quickjs/src/internal/napi_lazy_properties.cc`. One parses 32 bits and writes the number back,
one has a regular expression and compares a double, and two add up ten digits in 64 bits. Each takes
the canonical numerals of the numbers up to 2³² - 2 and computes those: `tests_agree`.
-/

namespace WasmerNapi.HostJs.ArrayIndex

open Decimal.Alphabet (chars bytes units written_write write_isDigit read_write toDigits_eq_write
  chars_isDigit_iff units_isDigit_iff toNat_chars toNat_bytes)
open HostJs.PropertyNames (isIndex isIndex_iff digit convert)
open LazyNames (indexLoop indexLoop_iff isArrayIndex isArrayIndex_toCString)
open Quickjs.PropertyNames (toCString indexKey accumulate accumulate_eq_some
  propertyKeyToArrayIndex propertyKeyToArrayIndex_eq_some arrayIndex_iff kMaxArrayIndex)

/-! ## `is_array_index_key` -/

/-- `str::len`, in bytes -/
def len (value : List Char) : ℕ := (value.flatMap String.utf8EncodeChar).length

/-- The loop of `u32::from_str`, with `checked_mul` and `checked_add`. -/
def parseDigits : ℕ → List Char → Option ℕ
  | result, [] => some result
  | result, c :: digits =>
    if c.isDigit then
      if result * 10 < 2 ^ 32 ∧ result * 10 + (c.toNat - 0x30) < 2 ^ 32 then
        parseDigits (result * 10 + (c.toNat - 0x30)) digits
      else none
    else none

/-- `parse::<u32>`: a plus sign may stand before the digits. -/
def parseU32 (value : List Char) : Option ℕ :=
  if value = [] ∨ value = ['+'] ∨ value = ['-'] then none
  else if value.head? = some '+' then parseDigits 0 value.tail
  else parseDigits 0 value

/-- `is_array_index_key` -/
def isArrayIndexKey (value : List Char) : Bool :=
  if value = [] ∨ (len value > 1 ∧ value.head? = some '0') then false
  else (parseU32 value).any fun index => index ≠ 2 ^ 32 - 1 ∧ Nat.toDigits 10 index = value

/-! ## The other tests -/

/-- The index branch of `wasmer_napi_get_all_property_names`: `Number` rounds the numeral to a
    double. -/
def indexName (key : List UInt16) : Option ℕ :=
  if isIndex key then (Double.ofNat (Decimal.value (key.map digit))).filter (· ≤ 0xfffffffe)
  else none

/-- A property key: a number with its `JS_ToUint32`, a string with its `JS_ToCStringLen`. -/
inductive PropertyKey where
  | number (index : Option UInt32)
  | string (text : Option (List UInt8))
  | other

/-- `property_key_to_array_index`: what it returns, and `*index_out`. The loop is that of
    `validate_name`. -/
def propertyKeyToIndex : PropertyKey → ℤ × Option UInt32
  | .number none => (-1, none)
  | .number (some index) => (1, some index)
  | .other => (0, none)
  | .string none => (-1, none)
  | .string (some text) =>
    let (isIndex, index) :=
      if text.length ≠ 0 ∧ text.length ≤ 10 ∧ (text.length = 1 ∨ text.head? ≠ some 0x30) then
        indexLoop 0 text
      else (false, 0)
    if !isIndex || index > 4294967294 then (0, none)
    else (1, some index.toUInt32)

/-! ## What they should be -/

/-- The string is the numeral of an array index. -/
def IsIndex (s : List UInt16) (n : ℕ) : Prop := n ≤ 2 ^ 32 - 2 ∧ s = indexKey n

/-- A test takes the string exactly when it is an index, and the number it has computed then is
    that index. -/
structure Tells (s : List UInt16) (accepts : Prop) (index : Option ℕ) : Prop where
  accepts_iff : accepts ↔ ∃ n, IsIndex s n
  index_eq : ∀ n, IsIndex s n → index = some n

theorem Tells.of_iff {s : List UInt16} {index : Option ℕ} (h : ∀ n, index = some n ↔ IsIndex s n) :
    Tells s (index ≠ none) index where
  accepts_iff := by simp [Option.ne_none_iff_exists', h]
  index_eq n := (h n).mpr

/-! ## Parsing -/

/-- Parsing stops at what is no digit, and where 32 bits are passed. -/
theorem parseDigits_eq_some {value : List Char} {result n : ℕ} (hresult : result < 2 ^ 32) :
    parseDigits result value = some n ↔ (∀ c ∈ value, chars.IsDigit c) ∧
      (value.map chars.digit).foldl (fun acc d => acc * 10 + d) result = n ∧ n < 2 ^ 32 := by
  induction value generalizing result with
  | nil =>
    simp only [parseDigits, Option.some.injEq, List.not_mem_nil, false_implies, implies_true,
      true_and, List.map_nil, List.foldl_nil]
    constructor
    · rintro rfl
      exact ⟨rfl, hresult⟩
    · exact And.left
  | cons c value ih =>
    rw [parseDigits, List.forall_mem_cons, chars_isDigit_iff, List.map_cons,
      List.foldl_cons]
    by_cases hdigit : c.isDigit = true
    · rw [if_pos hdigit]
      have hnext : chars.digit c = c.toNat - 0x30 := rfl
      rw [hnext]
      split_ifs with hfits
      · rw [ih hfits.2]
        simp [hdigit]
      · simp only [false_iff, not_and]
        rintro - rfl
        have := Decimal.le_foldl (result * 10 + (c.toNat - 0x30)) (value.map chars.digit)
        omega
    · simp [hdigit]

theorem parseU32_lt {value : List Char} {n : ℕ} (h : parseU32 value = some n) : n < 2 ^ 32 := by
  unfold parseU32 at h
  split_ifs at h
  · exact ((parseDigits_eq_some (by decide)).mp h).2.2
  · exact ((parseDigits_eq_some (by decide)).mp h).2.2

/-- A number of 32 bits is read from its numeral. -/
theorem parseU32_write {n : ℕ} (h : n < 2 ^ 32) : parseU32 (chars.write n) = some n := by
  have hwritten := written_write (A := chars) n
  have hdigit : ∀ c ∈ chars.write n, c.isDigit = true := fun c hc =>
    chars_isDigit_iff.mp (hwritten.digits c hc)
  have hplus : (chars.write n).head? ≠ some '+' := fun hhead =>
    absurd (hdigit '+' (List.mem_of_head? hhead)) (by decide)
  have hminus : (chars.write n).head? ≠ some '-' := fun hhead =>
    absurd (hdigit '-' (List.mem_of_head? hhead)) (by decide)
  have hsigns : ¬ (chars.write n = [] ∨ chars.write n = ['+'] ∨ chars.write n = ['-']) := by
    rintro (hnil | hsign | hsign)
    · exact hwritten.nonempty hnil
    · exact hplus (by rw [hsign]; rfl)
    · exact hminus (by rw [hsign]; rfl)
  rw [parseU32, if_neg hsigns, if_neg hplus, parseDigits_eq_some (by decide)]
  exact ⟨hwritten.digits, read_write n, h⟩

/-- Of a string of Unicode characters. -/
theorem isArrayIndexKey_iff (value : List Char) :
    isArrayIndexKey value = true ↔ ∃ n ≤ 2 ^ 32 - 2, value = chars.write n := by
  unfold isArrayIndexKey
  constructor
  · intro h
    split_ifs at h
    simp only [Option.any_eq_true, decide_eq_true_eq] at h
    obtain ⟨index, hparse, hmax, htext⟩ := h
    have hlt := parseU32_lt hparse
    exact ⟨index, by omega, by rw [← htext, toDigits_eq_write]⟩
  · rintro ⟨n, hn, rfl⟩
    have hwritten := written_write (A := chars) n
    have hzero : ¬ (chars.write n = [] ∨ len (chars.write n) > 1 ∧
        (chars.write n).head? = some '0') := by
      rintro (hnil | ⟨hlen, hhead⟩)
      · exact hwritten.nonempty hnil
      · rcases hwritten.leading with hone | hlead
        · -- `"0"` is one byte
          obtain ⟨c, hc⟩ := List.length_eq_one_iff.mp hone
          rw [hc] at hlen hhead
          cases hhead
          exact absurd hlen (by decide)
        · exact hlead hhead
    rw [if_neg hzero, parseU32_write (by omega)]
    simp only [Option.any_some, decide_eq_true_eq]
    exact ⟨by omega, toDigits_eq_write n⟩

/-- A sign is parsed, and not written back. -/
example : parseU32 ['+', '7'] = some 7 ∧ isArrayIndexKey ['+', '7'] = false := by decide

/-! ## Numerals as strings -/

/-- A JavaScript string is the numeral when its scalar values are. -/
theorem scalars_eq_write_iff {s : List UInt16} {n : ℕ} :
    Text.scalars s = chars.write n ↔ s = indexKey n := by
  have hascii : ∀ c ∈ chars.write n, c.toNat < 0x80 := by
    intro c hc
    obtain ⟨d, hd, rfl⟩ := write_isDigit n c hc
    rw [toNat_chars hd]
    omega
  have hunits : (chars.write n).map (fun c => UInt16.ofNat c.toNat) = indexKey n := by
    rw [Decimal.Alphabet.write, List.map_map]
    refine List.map_congr_left fun d hd => ?_
    rw [Function.comp_apply, toNat_chars ((Decimal.numeral_canonical n).digit d hd)]
  rw [Text.scalars_eq_iff hascii, hunits]

/-- The numeral's bytes. -/
theorem toCString_indexKey {n : ℕ} (h : n ≤ 2 ^ 32 - 2) : toCString (indexKey n) = bytes.write n :=
  (propertyKeyToArrayIndex_eq_some.mp (arrayIndex_iff.mpr ⟨by omega, rfl⟩)).2

/-! ## The double comparison -/

/-- Comparing the double is comparing the number: the bound has few bits. -/
theorem indexName_eq_some {key : List UInt16} {n : ℕ} : indexName key = some n ↔
    isIndex key = true ∧ Decimal.value (key.map digit) = n ∧ n ≤ 0xfffffffe := by
  rw [indexName]
  split_ifs with hindex
  · rw [Option.filter_eq_some_iff, decide_eq_true_eq, Double.ofNat_eq_some_le (by decide)]
    constructor
    · rintro ⟨rfl, hle⟩
      exact ⟨hindex, rfl, hle⟩
    · rintro ⟨-, rfl, hle⟩
      exact ⟨rfl, hle⟩
  · simp [hindex]

theorem indexName_iff (s : List UInt16) (n : ℕ) : indexName s = some n ↔ IsIndex s n := by
  have hread : Decimal.value (s.map digit) = units.read s := rfl
  have hwrite : indexKey n = units.write n := rfl
  rw [indexName_eq_some, IsIndex, hwrite, Decimal.Alphabet.eq_write_iff, isIndex_iff, hread]
  constructor
  · rintro ⟨hwritten, hn, hle⟩
    exact ⟨hle, hwritten, hn⟩
  · rintro ⟨hle, hwritten, hn⟩
    exact ⟨hwritten, hn, hle⟩

/-! ## The digits in 64 bits -/

/-- Ten digits fit. -/
theorem indexLoop_write {n : ℕ} (h : n ≤ 2 ^ 32 - 2) :
    (indexLoop 0 (bytes.write n)).1 = true ∧ (indexLoop 0 (bytes.write n)).2.toNat = n := by
  have hlength : (bytes.write n).length ≤ 10 := by
    rw [Decimal.Alphabet.write, List.length_map, Decimal.length_numeral_le (by decide)]
    omega
  have hroom : ((0 : UInt64).toNat + 1) * 10 ^ (bytes.write n).length ≤ 2 ^ 64 :=
    calc ((0 : UInt64).toNat + 1) * 10 ^ (bytes.write n).length = 10 ^ (bytes.write n).length :=
          Nat.one_mul _
      _ ≤ 10 ^ 10 := Nat.pow_le_pow_right (by decide) hlength
      _ ≤ 2 ^ 64 := by decide
  have hread : ((bytes.write n).map Quickjs.PropertyNames.charDigit).foldl
      (fun acc d => acc * 10 + d) 0 = n := read_write (A := bytes) n
  rw [indexLoop_iff hroom]
  refine accumulate_eq_some.mpr ⟨fun ch hch => ?_, hread⟩
  obtain ⟨d, hd, rfl⟩ := write_isDigit n ch hch
  have hcode := toNat_bytes hd
  exact ⟨by omega, by omega⟩

theorem propertyKeyToIndex_string (text : List UInt8) :
    propertyKeyToIndex (.string (some text)) =
      if isArrayIndex text then (1, some (indexLoop 0 text).2.toUInt32) else (0, none) := by
  have hbound (index : UInt64) : index > 4294967294 ↔ ¬ index < 4294967295 := by
    simp only [UInt64.lt_iff_toNat_lt, gt_iff_lt, UInt64.reduceToNat]
    omega
  by_cases hshape : text.length ≠ 0 ∧ text.length ≤ 10 ∧
      (text.length = 1 ∨ text.head? ≠ some 0x30)
  · unfold propertyKeyToIndex isArrayIndex
    dsimp only
    rw [if_pos hshape, if_pos hshape]
    cases (indexLoop 0 text).1 with
    | false => simp
    | true => by_cases hmax : (indexLoop 0 text).2 < 4294967295 <;> simp [hbound, hmax]
  · unfold propertyKeyToIndex isArrayIndex
    dsimp only
    rw [if_neg hshape, if_neg hshape]
    rfl

/-! ## The tests agree -/

theorem tells_validateName (s : List UInt16) :
    Tells s (isArrayIndex (toCString s) = true) (some (indexLoop 0 (toCString s)).2.toNat) where
  accepts_iff := by
    rw [isArrayIndex_toCString]
    refine exists_congr fun n => and_congr_left' ?_
    omega
  index_eq n := by
    rintro ⟨hn, rfl⟩
    rw [toCString_indexKey hn, (indexLoop_write hn).2]

theorem tells_propertyKey (s : List UInt16) :
    Tells s ((propertyKeyToIndex (.string (some (toCString s)))).1 = 1)
      ((propertyKeyToIndex (.string (some (toCString s)))).2.map UInt32.toNat) := by
  have h := tells_validateName s
  rw [propertyKeyToIndex_string]
  constructor
  · rw [← h.accepts_iff]
    split_ifs with haccepts <;> simp [haccepts]
  · intro n hn
    have hindex := Option.some.inj (h.index_eq n hn)
    rw [if_pos (h.accepts_iff.mpr ⟨n, hn⟩), Option.map_some, UInt64.toNat_toUInt32, hindex,
      Nat.mod_eq_of_lt (by have := hn.1; omega)]

theorem tells_arrayIndexKey (s : List UInt16) :
    Tells s (isArrayIndexKey (Text.scalars s) = true) (parseU32 (Text.scalars s)) where
  accepts_iff := by
    rw [isArrayIndexKey_iff]
    exact exists_congr fun n => and_congr_right fun _ => scalars_eq_write_iff
  index_eq n := by
    rintro ⟨hn, hs⟩
    rw [scalars_eq_write_iff.mpr hs, parseU32_write (by omega)]

/-- Every test takes exactly the canonical numerals of 0 to 2³² - 2, and computes their numbers. -/
theorem tests_agree (s : List UInt16) :
    Tells s (isArrayIndexKey (Text.scalars s) = true) (parseU32 (Text.scalars s)) ∧
    Tells s (indexName s ≠ none) (indexName s) ∧
    Tells s ((propertyKeyToIndex (.string (some (toCString s)))).1 = 1)
      ((propertyKeyToIndex (.string (some (toCString s)))).2.map UInt32.toNat) ∧
    Tells s (isArrayIndex (toCString s) = true) (some (indexLoop 0 (toCString s)).2.toNat) :=
  ⟨tells_arrayIndexKey s, .of_iff (indexName_iff s), tells_propertyKey s, tells_validateName s⟩

end WasmerNapi.HostJs.ArrayIndex
