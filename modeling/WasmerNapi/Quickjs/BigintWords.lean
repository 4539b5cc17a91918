import Mathlib

/-!
# BigInts and their words in the QuickJS backend

`napi_create_bigint_words` and `napi_get_value_bigint_words` in
`src/quickjs/src/js_native_api_quickjs.cc`, and the conversion from decimal in
`src/lib/src/napi_text.cc`. The engine takes a BigInt as a hexadecimal literal and gives it back
in decimal; what it makes of either is a parameter.
-/

namespace WasmerNapi.Quickjs.BigintWords

/-- `JS_Eval` of a literal and `JS_ToCString` of a BigInt. -/
structure Engine where
  eval : List Char → Option ℤ
  toCString : ℤ → List Char

inductive Status where
  | ok
  | invalidArg
  | bigintExpected
  | pendingException
  deriving DecidableEq

/-! ## Words to BigInt -/

/-- The words up to the last that is not 0. -/
def usedWords (words : List UInt64) : ℕ → ℕ
  | 0 => 0
  | n + 1 => if words.getD n 0 = 0 then usedWords words n else n + 1

/-- `%llx` -/
def hex (word : UInt64) : List Char := Nat.toDigits 16 word.toNat

/-- `%016llx` -/
def hex16 (word : UInt64) : List Char := (hex word).leftpad 16 '0'

/-- The words below `n`, the highest first. -/
def lowerWords (words : List UInt64) : ℕ → List Char
  | 0 => []
  | n + 1 => hex16 (words.getD n 0) ++ lowerWords words n

def literal (signBit : ℤ) (words : List UInt64) (used : ℕ) : List Char :=
  (if signBit ≠ 0 then ['-'] else []) ++ ['0', 'x'] ++ hex (words.getD (used - 1) 0) ++
    lowerWords words (used - 1) ++ ['n']

/-- `napi_create_bigint_words`, for a live env and a result pointer. `words`: what the pointer
    points to; `none` is a null pointer. -/
def napiCreateBigintWords (e : Engine) (signBit : ℤ) (wordCount : ℕ) (words : Option (List UInt64)) :
    Status × Option ℤ :=
  if signBit ≠ 0 ∧ signBit ≠ 1 ∨ wordCount > 2147483647 then (.invalidArg, none)
  else if wordCount > 0 ∧ words.isNone then (.invalidArg, none)
  else if wordCount > 1024 then (.pendingException, none)
  else
    let words := words.getD []
    let used := usedWords words wordCount
    if used = 0 then (.ok, some 0)
    else
      match e.eval (literal signBit words used) with
      | none => (.pendingException, none)
      | some bigint => (.ok, some bigint)

/-! ## Decimal to words -/

/-- `next`, in 128 bits -/
def next (word : UInt64) (carry : UInt32) : ℕ := (word.toNat * 10 + carry.toNat) % 2 ^ 128

/-- The inner loop: every word times ten, and the carry that is left. -/
def timesTen : List UInt64 → UInt32 → List UInt64 × UInt32
  | [], carry => ([], carry)
  | word :: words, carry =>
    let n := next word carry
    let (words, carry) := timesTen words (UInt32.ofNat (n >>> 64))
    (UInt64.ofNat n :: words, carry)

/-- What the inner loop casts to 32 bits, word by word. -/
def carries : List UInt64 → UInt32 → List ℕ
  | [], _ => []
  | word :: words, carry =>
    next word carry >>> 64 :: carries words (UInt32.ofNat (next word carry >>> 64))

/-- One character of the numeral. -/
def addDigit (words : List UInt64) (c : Char) : List UInt64 :=
  if c < '0' ∨ c > '9' then words
  else
    let (words', carry) := timesTen words (UInt32.ofNat (c.toNat - '0'.toNat))
    if carry ≠ 0 ∨ words'.isEmpty then words' ++ [carry.toUInt64] else words'

/-- How many words stay of `n`: words of 0 go from the top, but for the last one left. -/
def keptWords (words : List UInt64) : ℕ → ℕ
  | 0 => 0
  | 1 => 1
  | n + 2 => if words.getD (n + 1) 0 = 0 then keptWords words (n + 1) else n + 2

/-- `bigint_words_from_decimal_string`: the words, and whether the number is negative. -/
def bigintWordsFromDecimalString (decimal : List Char) : List UInt64 × Bool :=
  let negative := decimal.head? == some '-'
  let cursor := if negative then decimal.drop 1 else decimal
  let words := cursor.foldl addDigit []
  (words.take (keptWords words words.length), negative)

/-- What `napi_get_value_bigint_words` leaves: `*sign_bit`, `*word_count`, and the caller's
    words. -/
structure Words where
  status : Status
  signBit : Option ℕ
  wordCount : ℕ
  words : Option (List UInt64)

/-- `napi_get_value_bigint_words`, for a live env, a value and a count pointer, with `capacity`
    in it. `value`: `none` is one that is no BigInt. `words`: `none` is a null pointer. -/
def napiGetValueBigintWords (e : Engine) (value : Option ℤ) (capacity : ℕ)
    (words : Option (List UInt64)) : Words :=
  match value with
  | none => { status := .bigintExpected, signBit := none, wordCount := capacity, words }
  | some bigint =>
    let (found, negative) := bigintWordsFromDecimalString (e.toCString bigint)
    let bigintWords := if found.isEmpty then [0] else found
    let signBit := some (if negative then 1 else 0)
    match words with
    | none => { status := .ok, signBit, wordCount := bigintWords.length, words := none }
    | some cells =>
      let copied := if capacity < bigintWords.length then capacity else bigintWords.length
      let stored := (List.range copied).foldl (fun cells i => cells.set i (bigintWords.getD i 0)) cells
      { status := .ok, signBit, wordCount := bigintWords.length, words := some stored }

/-! ## What the words stand for -/

/-- The number that little-endian words stand for. -/
def value (words : List UInt64) : ℕ := Nat.ofDigits (2 ^ 64) (words.map UInt64.toNat)

/-- The words without the leading words of 0; a single 0 for zero. -/
def needed (words : List UInt64) : List UInt64 :=
  if usedWords words words.length = 0 then [0] else words.take (usedWords words words.length)

@[simp] theorem value_nil : value [] = 0 := rfl

theorem value_cons (word : UInt64) (words : List UInt64) :
    value (word :: words) = word.toNat + 2 ^ 64 * value words := by
  rw [value, List.map_cons, Nat.ofDigits_cons]
  rfl

theorem value_append (ws vs : List UInt64) :
    value (ws ++ vs) = value ws + (2 ^ 64) ^ ws.length * value vs := by
  rw [value, List.map_append, Nat.ofDigits_append, List.length_map]
  rfl

variable {words : List UInt64} {n : ℕ}

theorem value_take_succ (hn : n < words.length) :
    value (words.take (n + 1)) = value (words.take n) + (2 ^ 64) ^ n * (words.getD n 0).toNat := by
  rw [List.take_succ_eq_append_getElem hn, value_append, List.length_take, min_eq_left hn.le,
    List.getD_eq_getElem words 0 hn, value_cons, value_nil, mul_zero, add_zero]

/-! ### The words in use -/

theorem usedWords_le (words : List UInt64) (n : ℕ) : usedWords words n ≤ n := by
  induction n with
  | zero => exact le_rfl
  | succ n ih =>
    rw [usedWords]
    split
    · exact ih.trans (Nat.le_succ n)
    · exact le_rfl

theorem usedWords_top (words : List UInt64) (n : ℕ) (h : usedWords words n ≠ 0) :
    words.getD (usedWords words n - 1) 0 ≠ 0 := by
  induction n with
  | zero => exact absurd rfl h
  | succ n ih =>
    rw [usedWords] at h ⊢
    split at h
    next hzero =>
      rw [if_pos hzero]
      exact ih h
    next htop =>
      rw [if_neg htop]
      exact htop

/-- Words of 0 at the top add nothing. -/
theorem value_take_usedWords (hn : n ≤ words.length) :
    value (words.take (usedWords words n)) = value (words.take n) := by
  induction n with
  | zero => rfl
  | succ n ih =>
    rw [usedWords]
    split
    next hzero =>
      rw [ih (by omega), value_take_succ (by omega), hzero]
      simp
    next => rfl

/-- The words in use are the number's digits. -/
theorem map_take_usedWords (words : List UInt64) :
    (words.take (usedWords words words.length)).map UInt64.toNat =
      Nat.digits (2 ^ 64) (value words) := by
  have hvalue : value (words.take (usedWords words words.length)) =
      value (words.take words.length) := value_take_usedWords le_rfl
  rw [List.take_length] at hvalue
  rw [← hvalue, value]
  apply (Nat.digits_ofDigits (2 ^ 64) (by decide) _ _ _).symm
  · intro l hl
    obtain ⟨w, -, rfl⟩ := List.mem_map.mp hl
    exact w.toNat_lt
  · intro hne
    have hused : usedWords words words.length ≠ 0 := by
      intro hzero
      rw [hzero] at hne
      exact hne rfl
    have hle := usedWords_le words words.length
    have htop := usedWords_top words _ hused
    rw [List.getD_eq_getElem words 0 (by omega)] at htop
    rw [List.getLast_map, List.getLast_eq_getElem, List.getElem_take]
    have hlast : (words.take (usedWords words words.length)).length - 1 =
        usedWords words words.length - 1 := by
      rw [List.length_take, min_eq_left hle]
    intro hzero
    apply htop
    apply UInt64.toNat_inj.mp
    rw [UInt64.toNat_zero]
    simpa only [hlast] using hzero

/-- Words of one value have the same words in use. -/
theorem needed_congr {ws vs : List UInt64} (h : value ws = value vs) : needed ws = needed vs := by
  have htake : ws.take (usedWords ws ws.length) = vs.take (usedWords vs vs.length) := by
    apply List.map_injective_iff.mpr (fun _ _ => UInt64.toNat_inj.mp)
    rw [map_take_usedWords, map_take_usedWords, h]
  have hlen : usedWords ws ws.length = usedWords vs vs.length := by
    have hlength := congrArg List.length htake
    rwa [List.length_take, List.length_take, min_eq_left (usedWords_le ws _),
      min_eq_left (usedWords_le vs _)] at hlength
  rw [needed, needed, htake, hlen]

theorem keptWords_eq (words : List UInt64) (n : ℕ) :
    keptWords words (n + 1) = max 1 (usedWords words (n + 1)) := by
  induction n with
  | zero =>
    rw [keptWords, usedWords]
    split <;> rfl
  | succ n ih =>
    rw [keptWords, usedWords]
    split
    · exact ih
    · rw [max_eq_right (by omega)]

theorem take_keptWords (h : words ≠ []) :
    words.take (keptWords words words.length) = needed words := by
  obtain ⟨word, rest, rfl⟩ := List.exists_cons_of_ne_nil h
  rw [List.length_cons, keptWords_eq, needed, List.length_cons]
  by_cases hused : usedWords (word :: rest) (rest.length + 1) = 0
  · -- All of them are 0, the first too.
    have htake : (word :: rest).take (rest.length + 1) = word :: rest :=
      List.take_of_length_le le_rfl
    have hvalue : value ((word :: rest).take (usedWords (word :: rest) (rest.length + 1))) =
        value ((word :: rest).take (rest.length + 1)) := value_take_usedWords le_rfl
    rw [hused, htake] at hvalue
    have hword : word = 0 := by
      apply UInt64.toNat_inj.mp
      rw [value_cons, List.take_zero, value_nil] at hvalue
      have hsum := Nat.eq_zero_of_add_eq_zero_right hvalue.symm
      exact hsum
    rw [if_pos hused, hused, hword]
    rfl
  · rw [if_neg hused, max_eq_right (by omega)]

/-! ## Hexadecimal -/

def hexDigits : List Char := "0123456789abcdef".toList

/-- The value of a hexadecimal digit. -/
def hexDigit (c : Char) : ℕ := if c ≤ '9' then c.toNat - 48 else c.toNat - 87

/-- The number that hexadecimal digits stand for. -/
def hexValue (digits : List Char) : ℕ := digits.foldl (fun n c => n * 16 + hexDigit c) 0

theorem foldl_hexDigit (digits : List Char) (n : ℕ) :
    digits.foldl (fun n c => n * 16 + hexDigit c) n = n * 16 ^ digits.length + hexValue digits := by
  induction digits generalizing n with
  | nil => simp [hexValue]
  | cons c digits ih =>
    have hcons : hexValue (c :: digits) = (0 * 16 + hexDigit c) * 16 ^ digits.length +
        hexValue digits := ih (0 * 16 + hexDigit c)
    rw [List.foldl_cons, ih, hcons, List.length_cons, pow_succ]
    ring

theorem hexValue_append (xs ys : List Char) :
    hexValue (xs ++ ys) = hexValue xs * 16 ^ ys.length + hexValue ys := by
  rw [hexValue, List.foldl_append, foldl_hexDigit]
  rfl

theorem hexDigit_digitChar {d : ℕ} (hd : d < 16) : hexDigit d.digitChar = d := by
  interval_cases d <;> rfl

theorem digitChar_mem_hexDigits {d : ℕ} (hd : d < 16) : d.digitChar ∈ hexDigits := by
  interval_cases d <;> decide

theorem hexValue_toDigits (n : ℕ) : hexValue (Nat.toDigits 16 n) = n := by
  induction n using Nat.strong_induction_on with
  | _ n ih =>
    rcases Nat.lt_or_ge n 16 with hlt | hge
    · rw [Nat.toDigits_of_lt_base hlt, hexValue, List.foldl_cons, List.foldl_nil,
        hexDigit_digitChar hlt]
      omega
    · have hmod : n % 16 < 16 := Nat.mod_lt n (by decide)
      rw [Nat.toDigits_of_base_le (by decide) hge, hexValue_append, ih (n / 16) (by omega), hexValue]
      simp only [List.foldl_cons, List.foldl_nil, List.length_singleton, pow_one]
      rw [hexDigit_digitChar hmod]
      omega

theorem mem_hexDigits_of_mem_toDigits (n : ℕ) : ∀ c ∈ Nat.toDigits 16 n, c ∈ hexDigits := by
  induction n using Nat.strong_induction_on with
  | _ n ih =>
    intro c hc
    rcases Nat.lt_or_ge n 16 with hlt | hge
    · rw [Nat.toDigits_of_lt_base hlt] at hc
      rw [List.mem_singleton.mp hc]
      exact digitChar_mem_hexDigits hlt
    · rw [Nat.toDigits_of_base_le (by decide) hge] at hc
      rcases List.mem_append.mp hc with hc | hc
      · exact ih (n / 16) (by omega) c hc
      · rw [List.mem_singleton.mp hc]
        exact digitChar_mem_hexDigits (Nat.mod_lt n (by decide))

theorem hexValue_leftpad (n : ℕ) (digits : List Char) :
    hexValue (digits.leftpad n '0') = hexValue digits := by
  have hzeros : ∀ k, hexValue (List.replicate k '0') = 0 := by
    intro k
    induction k with
    | zero => rfl
    | succ k ih => rw [List.replicate_succ', hexValue_append, ih]; rfl
  rw [List.leftpad, hexValue_append, hzeros, zero_mul, zero_add]

theorem length_hex_le (word : UInt64) : (hex word).length ≤ 16 :=
  (Nat.length_toDigits_le_iff (by decide) (by decide)).mpr word.toNat_lt

theorem length_hex16 (word : UInt64) : (hex16 word).length = 16 := by
  rw [hex16, List.length_leftpad, max_eq_left (length_hex_le word)]

theorem length_lowerWords (words : List UInt64) (n : ℕ) : (lowerWords words n).length = 16 * n := by
  induction n with
  | zero => rfl
  | succ n ih =>
    rw [lowerWords, List.length_append, length_hex16, ih]
    omega

theorem mem_hexDigits_of_mem_lowerWords {c : Char} (hc : c ∈ lowerWords words n) :
    c ∈ hexDigits := by
  induction n with
  | zero => cases hc
  | succ n ih =>
    rcases List.mem_append.mp hc with hc | hc
    · rcases List.mem_append.mp hc with hc | hc
      · rw [List.eq_of_mem_replicate hc]
        decide
      · exact mem_hexDigits_of_mem_toDigits _ c hc
    · exact ih hc

theorem hexValue_lowerWords (hn : n ≤ words.length) :
    hexValue (lowerWords words n) = value (words.take n) := by
  induction n with
  | zero => rfl
  | succ n ih =>
    rw [lowerWords, hexValue_append, ih (by omega), value_take_succ (by omega), length_lowerWords,
      hex16, hexValue_leftpad, hex, hexValue_toDigits, pow_mul]
    ring

/-- The digits of the literal are the number. -/
theorem hexValue_literal {used : ℕ} (hused : used ≠ 0) (hle : used ≤ words.length) :
    hexValue (hex (words.getD (used - 1) 0) ++ lowerWords words (used - 1)) =
      value (words.take used) := by
  obtain ⟨n, rfl⟩ := Nat.exists_eq_succ_of_ne_zero hused
  rw [Nat.succ_sub_one, hexValue_append, hexValue_lowerWords (by omega), value_take_succ (by omega),
    length_lowerWords, hex, hexValue_toDigits, pow_mul]
  ring

/-! ## Decimal -/

section

variable {carry : UInt32}

theorem next_eq (word : UInt64) (carry : UInt32) : next word carry = word.toNat * 10 + carry.toNat := by
  have hword := word.toNat_lt
  have hcarry := carry.toNat_lt
  exact Nat.mod_eq_of_lt (by omega)

/-- A carry of one digit makes a carry of one digit. -/
theorem next_shift_lt {word : UInt64} (hcarry : carry.toNat < 10) : next word carry >>> 64 < 10 := by
  have hword := word.toNat_lt
  rw [next_eq, Nat.shiftRight_eq_div_pow]
  omega

theorem toNat_next_shift {word : UInt64} (hcarry : carry.toNat < 10) :
    (UInt32.ofNat (next word carry >>> 64)).toNat = next word carry >>> 64 :=
  UInt32.toNat_ofNat_of_lt' ((next_shift_lt hcarry).trans (by decide))

/-- **The cast to 32 bits never truncates.** -/
theorem carries_lt (words : List UInt64) (hcarry : carry.toNat < 10) :
    ∀ c ∈ carries words carry, c < 10 := by
  induction words generalizing carry with
  | nil => intro c hc; cases hc
  | cons word words ih =>
    intro c hc
    rcases List.mem_cons.mp hc with rfl | hc
    · exact next_shift_lt hcarry
    · refine ih ?_ c hc
      rw [toNat_next_shift hcarry]
      exact next_shift_lt hcarry

theorem timesTen_value (words : List UInt64) (hcarry : carry.toNat < 10) :
    value (timesTen words carry).1 + (2 ^ 64) ^ words.length * (timesTen words carry).2.toNat =
        10 * value words + carry.toNat ∧
      (timesTen words carry).2.toNat < 10 ∧ (timesTen words carry).1.length = words.length := by
  induction words generalizing carry with
  | nil => simp [timesTen, hcarry]
  | cons word words ih =>
    have hcarry' : (UInt32.ofNat (next word carry >>> 64)).toNat < 10 := by
      rw [toNat_next_shift hcarry]
      exact next_shift_lt hcarry
    obtain ⟨hvalue, hlt, hlength⟩ := ih hcarry'
    rw [toNat_next_shift hcarry] at hvalue
    have hword : (UInt64.ofNat (next word carry)).toNat = next word carry % 2 ^ 64 :=
      UInt64.toNat_ofNat'
    have hnext := next_eq word carry
    have hshift : next word carry >>> 64 = next word carry / 2 ^ 64 := Nat.shiftRight_eq_div_pow _ _
    have hdiv := Nat.mod_add_div (next word carry) (2 ^ 64)
    rw [timesTen]
    dsimp only
    generalize timesTen words (UInt32.ofNat (next word carry >>> 64)) = r at hvalue hlt hlength ⊢
    refine ⟨?_, hlt, by rw [List.length_cons, List.length_cons, hlength]⟩
    rw [value_cons, value_cons, List.length_cons, hword, pow_succ]
    calc next word carry % 2 ^ 64 + 2 ^ 64 * value r.1 +
          (2 ^ 64) ^ words.length * 2 ^ 64 * r.2.toNat
        = next word carry % 2 ^ 64 +
          2 ^ 64 * (value r.1 + (2 ^ 64) ^ words.length * r.2.toNat) := by ring
      _ = next word carry % 2 ^ 64 + 2 ^ 64 * (10 * value words + next word carry / 2 ^ 64) := by
          rw [hvalue, hshift]
      _ = 10 * (word.toNat + 2 ^ 64 * value words) + carry.toNat := by omega

/-- Every digit counts once. -/
theorem addDigit_value (words : List UInt64) {d : ℕ} (hd : d < 10) :
    value (addDigit words d.digitChar) = 10 * value words + d ∧ addDigit words d.digitChar ≠ [] := by
  have hdigit : ¬ (d.digitChar < '0' ∨ d.digitChar > '9') ∧
      d.digitChar.toNat - '0'.toNat = d := by
    interval_cases d <;> decide
  have hcarry : (UInt32.ofNat d).toNat = d := UInt32.toNat_ofNat_of_lt' (hd.trans (by decide))
  obtain ⟨hvalue, hlt, hlength⟩ := timesTen_value words (hcarry.trans_lt hd)
  rw [hcarry] at hvalue
  rw [addDigit, if_neg hdigit.1, hdigit.2]
  dsimp only
  split
  next =>
    have htop : (timesTen words (UInt32.ofNat d)).2.toUInt64.toNat =
        (timesTen words (UInt32.ofNat d)).2.toNat := UInt32.toNat_toUInt64 _
    refine ⟨?_, List.append_ne_nil_of_right_ne_nil _ (List.cons_ne_nil _ _)⟩
    rw [value_append, value_cons, value_nil, hlength, htop, mul_zero, add_zero, hvalue]
  next hnone =>
    rw [not_or, not_not, Bool.not_eq_true, List.isEmpty_eq_false_iff] at hnone
    refine ⟨?_, hnone.2⟩
    rw [hnone.1] at hvalue
    simpa using hvalue

theorem foldl_addDigit (digits : List (Fin 10)) (words : List UInt64) :
    value ((digits.map fun d => d.val.digitChar).foldl addDigit words) =
      digits.foldl (fun n d => 10 * n + d.val) (value words) := by
  induction digits generalizing words with
  | nil => rfl
  | cons d digits ih =>
    rw [List.map_cons, List.foldl_cons, ih, (addDigit_value words d.isLt).1, List.foldl_cons]

end

/-! ## Numerals -/

/-- A decimal numeral. -/
def numeral (negative : Bool) (digits : List (Fin 10)) : List Char :=
  (if negative then ['-'] else []) ++ digits.map fun d => d.val.digitChar

/-- The number its digits stand for. -/
def decimal (digits : List (Fin 10)) : ℕ := digits.foldl (fun n d => 10 * n + d.val) 0

theorem value_needed (words : List UInt64) : value (needed words) = value words := by
  have hvalue : value (words.take (usedWords words words.length)) =
      value (words.take words.length) := value_take_usedWords le_rfl
  rw [List.take_length] at hvalue
  rw [needed]
  split
  next hzero =>
    rw [hzero] at hvalue
    rw [← hvalue]
    rfl
  next => exact hvalue

theorem usedWords_eq_zero_iff (words : List UInt64) :
    usedWords words words.length = 0 ↔ value words = 0 := by
  have hlen := congrArg List.length (map_take_usedWords words)
  rw [List.length_map, List.length_take, min_eq_left (usedWords_le words _)] at hlen
  rw [hlen, List.length_eq_zero_iff, Nat.digits_eq_nil_iff_eq_zero]

theorem digitChar_ne_minus : ∀ d : Fin 10, d.val.digitChar ≠ '-' := by
  decide

/-- What the conversion gives of any numeral. -/
theorem bigintWordsFromDecimalString_numeral (negative : Bool) (digits : List (Fin 10)) :
    ∃ words, value words = decimal digits ∧ (digits ≠ [] → words ≠ []) ∧
      bigintWordsFromDecimalString (numeral negative digits) =
        (words.take (keptWords words words.length), negative) := by
  refine ⟨(digits.map fun d => d.val.digitChar).foldl addDigit [], foldl_addDigit digits [], ?_, ?_⟩
  · intro hne
    rcases List.eq_nil_or_concat' digits with rfl | ⟨init, d, rfl⟩
    · exact absurd rfl hne
    · rw [List.map_append, List.foldl_append]
      exact (addDigit_value _ d.isLt).2
  · have hhead : ((numeral negative digits).head? == some '-') = negative := by
      cases negative with
      | true => rfl
      | false =>
        cases digits with
        | nil => rfl
        | cons d digits =>
          have hd := digitChar_ne_minus d
          simp [numeral, hd]
    have hcursor : (if negative then (numeral negative digits).drop 1 else numeral negative digits) =
        digits.map fun d => d.val.digitChar := by
      cases negative <;> rfl
    rw [bigintWordsFromDecimalString, hhead, hcursor]

theorem toDigits_eq_numeral (n : ℕ) :
    ∃ digits, digits ≠ [] ∧ Nat.toDigits 10 n = numeral false digits ∧ decimal digits = n := by
  induction n using Nat.strong_induction_on with
  | _ n ih =>
    rcases Nat.lt_or_ge n 10 with hlt | hge
    · refine ⟨[⟨n, hlt⟩], List.cons_ne_nil _ _, ?_, ?_⟩
      · rw [Nat.toDigits_of_lt_base hlt]
        rfl
      · show 10 * 0 + n = n
        omega
    · obtain ⟨digits, hne, htext, hvalue⟩ := ih (n / 10) (by omega)
      have hmod : n % 10 < 10 := Nat.mod_lt n (by decide)
      refine ⟨digits ++ [⟨n % 10, hmod⟩], List.append_ne_nil_of_left_ne_nil hne _, ?_, ?_⟩
      · rw [Nat.toDigits_of_base_le (by decide) hge, htext]
        simp [numeral]
      · rw [decimal, List.foldl_append]
        show 10 * decimal digits + n % 10 = n
        rw [hvalue]
        omega

theorem needed_ne_nil (words : List UInt64) : needed words ≠ [] := by
  rw [needed]
  split
  next => exact List.cons_ne_nil 0 []
  next hused =>
    have hle := usedWords_le words words.length
    intro hnil
    have hlen := congrArg List.length hnil
    rw [List.length_take, min_eq_left hle] at hlen
    exact hused hlen

/-- The stores one after the other. -/
theorem foldl_set (ws cells : List UInt64) (hws : n ≤ ws.length) (hcells : n ≤ cells.length) :
    (List.range n).foldl (fun cells i => cells.set i (ws.getD i 0)) cells =
      ws.take n ++ cells.drop n := by
  induction n with
  | zero => rfl
  | succ n ih =>
    have hn : n < ws.length := hws
    have htake : (ws.take n).length = n := by rw [List.length_take, min_eq_left hn.le]
    rw [List.range_succ, List.foldl_append, ih (by omega) (by omega), List.foldl_cons, List.foldl_nil,
      List.set_append_right n _ htake.le, htake, Nat.sub_self, List.drop_eq_getElem_cons hcells,
      List.set_cons_zero, List.take_succ_eq_append_getElem hn, List.getD_eq_getElem ws 0 hn,
      List.append_assoc, List.singleton_append]

/-! ## The round trip -/

/-- The engine reads hexadecimal literals of up to 1024 words exactly, and prints decimals. -/
structure Engine.Exact (e : Engine) : Prop where
  eval_eq : ∀ (negative : Bool) (digits : List Char), digits ≠ [] → (∀ c ∈ digits, c ∈ hexDigits) →
    digits.length ≤ 16 * 1024 →
    e.eval ((if negative then ['-'] else []) ++ ['0', 'x'] ++ digits ++ ['n']) =
      some (if negative then -(hexValue digits : ℤ) else hexValue digits)
  toCString_eq : ∀ n : ℤ, e.toCString n = (if n < 0 then ['-'] else []) ++ Nat.toDigits 10 n.natAbs

section

variable {e : Engine} (he : e.Exact)

include he

/-- What is read of a number: its words, and whether it is negative. -/
theorem read_eq (n : ℤ) {words : List UInt64} (hwords : value words = n.natAbs) :
    bigintWordsFromDecimalString (e.toCString n) = (needed words, decide (n < 0)) := by
  obtain ⟨digits, hne, htext, hdecimal⟩ := toDigits_eq_numeral n.natAbs
  have hstring : e.toCString n = numeral (decide (n < 0)) digits := by
    rw [he.toCString_eq, htext, numeral, numeral]
    simp
  obtain ⟨found, hvalue, hfound, hread⟩ :=
    bigintWordsFromDecimalString_numeral (decide (n < 0)) digits
  rw [hstring, hread, take_keptWords (hfound hne)]
  congr 1
  apply needed_congr
  rw [hvalue, hdecimal, hwords]

/-- The number made of the words. -/
theorem create_eq (sign : Bool) {words : List UInt64} (h : words.length ≤ 1024) :
    napiCreateBigintWords e sign.toNat words.length (some words) =
      (.ok, some (if sign then -(value words : ℤ) else value words)) := by
  have hsign : ¬ ((sign.toNat : ℤ) ≠ 0 ∧ (sign.toNat : ℤ) ≠ 1 ∨ words.length > 2147483647) := by
    have hsmall : ¬ words.length > 2147483647 := by omega
    cases sign <;> simp [hsmall]
  rw [napiCreateBigintWords, if_neg hsign, if_neg (by simp), if_neg (by omega)]
  dsimp only [Option.getD_some]
  by_cases hzero : usedWords words words.length = 0
  · rw [if_pos hzero, (usedWords_eq_zero_iff words).mp hzero]
    cases sign <;> rfl
  · have hle := usedWords_le words words.length
    set digits := hex (words.getD (usedWords words words.length - 1) 0) ++
      lowerWords words (usedWords words words.length - 1) with hdigits
    have hvalue : hexValue digits = value words := by
      rw [hdigits, hexValue_literal hzero hle, value_take_usedWords le_rfl, List.take_length]
    have hliteral : literal sign.toNat words (usedWords words words.length) =
        (if sign then ['-'] else []) ++ ['0', 'x'] ++ digits ++ ['n'] := by
      rw [literal, hdigits]
      cases sign <;> simp
    have hmem : ∀ c ∈ digits, c ∈ hexDigits := by
      intro c hc
      rcases List.mem_append.mp hc with hc | hc
      · exact mem_hexDigits_of_mem_toDigits _ c hc
      · exact mem_hexDigits_of_mem_lowerWords hc
    have hlength : digits.length ≤ 16 * 1024 := by
      have htop := length_hex_le (words.getD (usedWords words words.length - 1) 0)
      rw [hdigits, List.length_append, length_lowerWords]
      omega
    have hne : digits ≠ [] := by
      apply List.append_ne_nil_of_left_ne_nil
      exact Nat.toDigits_ne_nil
    rw [if_neg hzero, hliteral, he.eval_eq sign digits hne hmem hlength, hvalue]

/-- What `napi_get_value_bigint_words` leaves of that number. -/
theorem get_eq (sign : Bool) (words : List UInt64) (capacity : ℕ) (out : Option (List UInt64)) :
    napiGetValueBigintWords e (some (if sign then -(value words : ℤ) else value words)) capacity out =
      { status := .ok
        signBit := some (if value words = 0 then 0 else sign.toNat)
        wordCount := (needed words).length
        words := out.map fun cells =>
          (List.range (if capacity < (needed words).length then capacity
            else (needed words).length)).foldl
              (fun cells i => cells.set i ((needed words).getD i 0)) cells } := by
  have hwords : value words = (if sign then -(value words : ℤ) else value words).natAbs := by
    cases sign <;> simp
  have hnegative : (if decide ((if sign then -(value words : ℤ) else value words) < 0) then 1 else 0) =
      if value words = 0 then 0 else sign.toNat := by
    cases sign with
    | false => simp
    | true =>
      by_cases hzero : value words = 0
      · simp [hzero]
      · have hpos : 0 < value words := Nat.pos_of_ne_zero hzero
        simp [hzero, hpos]
  have hisEmpty : (needed words).isEmpty = false :=
    List.isEmpty_eq_false_iff.mpr (needed_ne_nil words)
  rw [napiGetValueBigintWords]
  dsimp only
  rw [read_eq he _ hwords]
  dsimp only
  rw [hisEmpty, hnegative]
  cases out <;> rfl

/-- **The words come back.** Without the leading words of 0, with the sign unless they are zero;
    as many as the caller has room for are stored, and nothing else; and the count is what they
    need. The digit loop is exact for every numeral, and its carry fits. -/
theorem bigintWords_round_trip (sign : Bool) {words : List UInt64} (h : words.length ≤ 1024)
    (cells beyond : List UInt64) :
    (∃ bigint, napiCreateBigintWords e sign.toNat words.length (some words) = (.ok, some bigint) ∧
      napiGetValueBigintWords e (some bigint) cells.length (some (cells ++ beyond)) =
        { status := .ok
          signBit := some (if value words = 0 then 0 else sign.toNat)
          wordCount := (needed words).length
          words := some ((needed words).take (min cells.length (needed words).length) ++
            (cells ++ beyond).drop (min cells.length (needed words).length)) } ∧
      napiGetValueBigintWords e (some bigint) cells.length none =
        { status := .ok
          signBit := some (if value words = 0 then 0 else sign.toNat)
          wordCount := (needed words).length
          words := none }) ∧
    (∀ (negative : Bool) (digits : List (Fin 10)),
      value (bigintWordsFromDecimalString (numeral negative digits)).1 = decimal digits ∧
        (bigintWordsFromDecimalString (numeral negative digits)).2 = negative) ∧
    ∀ (ws : List UInt64) (d : Fin 10), ∀ c ∈ carries ws (UInt32.ofNat d), c < 2 ^ 32 := by
  refine ⟨⟨_, create_eq he sign h, ?_, ?_⟩, ?_, ?_⟩
  · rw [get_eq he sign words]
    have hcopied : (if cells.length < (needed words).length then cells.length
        else (needed words).length) = min cells.length (needed words).length := by
      split <;> omega
    have hroom : min cells.length (needed words).length ≤ (cells ++ beyond).length := by
      rw [List.length_append]
      omega
    rw [hcopied, Option.map_some, foldl_set _ _ (min_le_right _ _) hroom]
  · rw [get_eq he sign words, Option.map_none]
  · intro negative digits
    obtain ⟨found, hvalue, hfound, hread⟩ := bigintWordsFromDecimalString_numeral negative digits
    rw [hread]
    refine ⟨?_, rfl⟩
    rcases eq_or_ne found [] with rfl | hne
    · exact hvalue
    · rw [take_keptWords hne, value_needed, hvalue]
  · intro ws d c hc
    have hcarry : (UInt32.ofNat d).toNat < 10 := by
      rw [UInt32.toNat_ofNat_of_lt' (d.isLt.trans (by decide))]
      exact d.isLt
    exact (carries_lt ws hcarry c hc).trans (by decide)

end

/-- An engine of which that holds. -/
def parse (text : List Char) : Option ℤ :=
  let negative := text.head? == some '-'
  let body := if negative then text.drop 1 else text
  if body.take 2 = ['0', 'x'] then
    let n : ℤ := hexValue (body.drop 2).dropLast
    some (if negative then -n else n)
  else none

def plain : Engine where
  eval := parse
  toCString n := (if n < 0 then ['-'] else []) ++ Nat.toDigits 10 n.natAbs

theorem plain_exact : plain.Exact where
  eval_eq := by
    intro negative digits _ _ _
    cases negative with
    | false => simp [plain, parse]
    | true => simp [plain, parse]
  toCString_eq _ := rfl

theorem four_words_round_trip :
    (∃ bigint, napiCreateBigintWords plain (true.toNat : ℕ) 4 (some [5, 0, 7, 0]) =
        (.ok, some bigint) ∧
      napiGetValueBigintWords plain (some bigint) 2 (some [1, 1, 9]) =
        { status := .ok, signBit := some 1, wordCount := 3, words := some [5, 0, 9] } ∧
      napiGetValueBigintWords plain (some bigint) 2 none =
        { status := .ok, signBit := some 1, wordCount := 3, words := none }) := by
  have hvalue : value [5, 0, 7, 0] ≠ 0 := by decide
  have hneeded : needed [5, 0, 7, 0] = [5, 0, 7] := by decide
  have hwords : ([5, 0, 7, 0] : List UInt64).length ≤ 1024 := by decide
  have h := (bigintWords_round_trip plain_exact true hwords [1, 1] [9]).1
  rw [if_neg hvalue, hneeded] at h
  exact h

end WasmerNapi.Quickjs.BigintWords
