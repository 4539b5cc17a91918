import WasmerNapi.Lib.Text
import WasmerNapi.Quickjs.BigintFits
import WasmerNapi.Quickjs.NodeUtf8

/-!
# Strings copied out of the QuickJS backend

`utf8_to_latin1` and `complete_utf8_prefix_length` in `src/lib/src/napi_text.cc`, and the two exports
of `src/quickjs/src/js_native_api_quickjs.cc` that rest on them, `napi_get_value_string_latin1` and
`napi_get_value_string_utf8`. The engine gives a string as its UTF-8.

A read past the given length is `none`, and so is a loop that runs out of turns; there is one turn for
each byte.
-/

namespace WasmerNapi.Quickjs.StringExport

open BigintFits
open Decimal.Alphabet (chars)

/-! ## `utf8_to_latin1` -/

/-- The code point at `i` and how far it advances. A character cut short by the end of the buffer is
    taken byte by byte. -/
def codePointAt (str : List UInt8) (len i : ℕ) : Option (ℕ × ℕ) := do
  let c ← str[i]?
  if c &&& 0xe0 = 0xc0 ∧ i + 1 < len then
    let c1 ← str[i + 1]?
    return ((c &&& 0x1f).toNat <<< 6 ||| (c1 &&& 0x3f).toNat, 2)
  else if c &&& 0xf0 = 0xe0 ∧ i + 2 < len then
    let c1 ← str[i + 1]?
    let c2 ← str[i + 2]?
    return ((c &&& 0x0f).toNat <<< 12 ||| (c1 &&& 0x3f).toNat <<< 6 ||| (c2 &&& 0x3f).toNat, 3)
  else if c &&& 0xf8 = 0xf0 ∧ i + 3 < len then
    return (0x3f, 4)
  else
    return (c.toNat, 1)

/-- `cp <= 0xff ? cp : '?'` -/
def latin1 (cp : ℕ) : UInt8 := UInt8.ofNat (if cp ≤ 0xff then cp else 0x3f)

def latin1Loop (str : List UInt8) (len : ℕ) : ℕ → ℕ → Option (List UInt8)
  | 0, i => if i < len then none else some []
  | turns + 1, i =>
    if i < len then do
      let (cp, advance) ← codePointAt str len i
      let out ← latin1Loop str len turns (i + advance)
      return latin1 cp :: out
    else some []

/-- `utf8_to_latin1` -/
def utf8ToLatin1 (str : List UInt8) (len : ℕ) : Option (List UInt8) := latin1Loop str len len 0

/-! ## `complete_utf8_prefix_length` -/

/-- How many bytes the character that `c` begins has. -/
def width (c : UInt8) : Option ℕ :=
  if c &&& 0x80 = 0 then some 1
  else if c &&& 0xe0 = 0xc0 then some 2
  else if c &&& 0xf0 = 0xe0 then some 3
  else if c &&& 0xf8 = 0xf0 then some 4
  else none

def prefixLoop (str : List UInt8) (len : ℕ) : ℕ → ℕ → Option ℕ
  | 0, i => if i < len then none else some i
  | turns + 1, i =>
    if i < len then do
      let c ← str[i]?
      match width c with
      | none => return i
      | some width => if i + width > len then return i else prefixLoop str len turns (i + width)
    else some i

/-- `complete_utf8_prefix_length` -/
def completeUtf8PrefixLength (str : List UInt8) (len : ℕ) : Option ℕ := prefixLoop str len len 0

/-! ## The exports -/

inductive Status where
  | ok
  | invalidArg
  | stringExpected
  | pendingException
  deriving DecidableEq

/-- A value: a string with its `JS_ToCStringLen`, which may throw, or no string. -/
inductive Value where
  | string (text : Option (List UInt8))
  | other

/-- What a call has stored: `bufsize` bytes of the buffer or fewer, and the length. -/
structure Exported where
  status : Status
  buf : List UInt8 := []
  result : Option ℕ := none

/-- `napi_get_value_string_utf8`, for a live env and value. `bufsize`: `none` is a null buffer. -/
def napiGetValueStringUtf8 (value : Value) (bufsize : Option ℕ) (wantsResult : Bool) :
    Option Exported :=
  let report (length : ℕ) : Option ℕ := if wantsResult then some length else none
  match value with
  | .other => some { status := .stringExpected }
  | .string none => some { status := .pendingException }
  | .string (some str) =>
    match bufsize with
    | none =>
      if wantsResult then some { status := .ok, result := some str.length }
      else some { status := .invalidArg }
    | some 0 => some { status := .ok, result := report 0 }
    | some (room + 1) => do
      let copied ← completeUtf8PrefixLength str (min room str.length)
      return { status := .ok, buf := str.take copied ++ [0], result := report copied }

/-- `napi_get_value_string_latin1` -/
def napiGetValueStringLatin1 (value : Value) (bufsize : Option ℕ) (wantsResult : Bool) :
    Option Exported :=
  let report (length : ℕ) : Option ℕ := if wantsResult then some length else none
  match value with
  | .other => some { status := .stringExpected }
  | .string none => some { status := .pendingException }
  | .string (some str) => do
    let latin1 ← utf8ToLatin1 str str.length
    match bufsize with
    | none =>
      if wantsResult then return { status := .ok, result := some latin1.length }
      else return { status := .invalidArg }
    | some 0 => return { status := .ok, result := report 0 }
    | some (room + 1) =>
      let copyLen := min room latin1.length
      return { status := .ok, buf := latin1.take copyLen ++ [0], result := report copyLen }

/-! ## First bytes -/

theorem lead2_iff : ∀ b : UInt8, b &&& 0xe0 = 0xc0 ↔ 0xc0 ≤ b.toNat ∧ b.toNat < 0xe0 := by
  decide +kernel

theorem lead3_iff : ∀ b : UInt8, b &&& 0xf0 = 0xe0 ↔ 0xe0 ≤ b.toNat ∧ b.toNat < 0xf0 := by
  decide +kernel

theorem lead4_iff : ∀ b : UInt8, b &&& 0xf8 = 0xf0 ↔ 0xf0 ≤ b.toNat ∧ b.toNat < 0xf8 := by
  decide +kernel

theorem ascii_iff : ∀ b : UInt8, b &&& 0x80 = 0 ↔ b.toNat < 0x80 := by
  decide +kernel

/-- The bits of three bytes, put together. -/
theorem shiftLeft_or_or (x : ℕ) (b c : UInt8) :
    x <<< 12 ||| (b &&& 0x3f).toNat <<< 6 ||| (c &&& 0x3f).toNat =
      (x * 0x40 + b.toNat % 0x40) * 0x40 + c.toNat % 0x40 := by
  have hshift : x <<< 12 ||| (b &&& 0x3f).toNat <<< 6 = (x <<< 6 ||| (b &&& 0x3f).toNat) <<< 6 := by
    rw [Nat.shiftLeft_or_distrib, ← Nat.shiftLeft_add]
  rw [hshift, NodeUtf8.shiftLeft_or, NodeUtf8.shiftLeft_or]

variable {c : Char} {bs : List UInt8} {n : ℕ}

/-- The first byte of a character says how many there are. -/
theorem width_utf8EncodeChar (c : Char) : ∃ b rest, String.utf8EncodeChar c = b :: rest ∧
    width b = some (rest.length + 1) := by
  have hvalid : c.toNat < 0xd800 ∨ 0xdfff < c.toNat ∧ c.toNat < 0x110000 := c.valid
  have hval : c.val.toNat = c.toNat := rfl
  rw [String.utf8EncodeChar]
  simp only [hval]
  generalize c.toNat = v at hvalid
  split_ifs with h1 h2 h3 <;> refine ⟨_, _, rfl, ?_⟩ <;>
    simp only [width, ascii_iff, lead2_iff, lead3_iff, lead4_iff]
  · rw [Utf8.toNat_ofNat (by omega), if_pos (by omega)]
    rfl
  · rw [Utf8.toNat_ofNat (by omega), if_neg (by omega), if_pos (by omega)]
    rfl
  · rw [Utf8.toNat_ofNat (by omega), if_neg (by omega), if_neg (by omega), if_pos (by omega)]
    rfl
  · rw [Utf8.toNat_ofNat (by omega), if_neg (by omega), if_neg (by omega), if_neg (by omega),
      if_pos (by omega)]
    rfl

/-! ## One character -/

section

variable {b b1 b2 b3 : UInt8} (bs : List UInt8)

theorem codePointAt_one (h : b.toNat < 0x80) :
    codePointAt (b :: bs) (b :: bs).length 0 = some (b.toNat, 1) := by
  have h2 : ¬ b &&& 0xe0 = 0xc0 := by rw [lead2_iff]; omega
  have h3 : ¬ b &&& 0xf0 = 0xe0 := by rw [lead3_iff]; omega
  have h4 : ¬ b &&& 0xf8 = 0xf0 := by rw [lead4_iff]; omega
  simp [codePointAt, h2, h3, h4]

theorem codePointAt_two (h : 0xc0 ≤ b.toNat ∧ b.toNat < 0xe0) :
    codePointAt (b :: b1 :: bs) (b :: b1 :: bs).length 0 =
      some (b.toNat % 0x20 * 0x40 + b1.toNat % 0x40, 2) := by
  have h2 : b &&& 0xe0 = 0xc0 := (lead2_iff b).mpr h
  rw [← NodeUtf8.shiftLeft_or, ← NodeUtf8.toNat_and_1f]
  simp [codePointAt, h2]

theorem codePointAt_three (h : 0xe0 ≤ b.toNat ∧ b.toNat < 0xf0) :
    codePointAt (b :: b1 :: b2 :: bs) (b :: b1 :: b2 :: bs).length 0 =
      some ((b.toNat % 0x10 * 0x40 + b1.toNat % 0x40) * 0x40 + b2.toNat % 0x40, 3) := by
  have h2 : ¬ b &&& 0xe0 = 0xc0 := by rw [lead2_iff]; omega
  have h3 : b &&& 0xf0 = 0xe0 := (lead3_iff b).mpr h
  rw [← shiftLeft_or_or, ← NodeUtf8.toNat_and_0f]
  simp [codePointAt, h2, h3]

theorem codePointAt_four (h : 0xf0 ≤ b.toNat ∧ b.toNat < 0xf8) :
    codePointAt (b :: b1 :: b2 :: b3 :: bs) (b :: b1 :: b2 :: b3 :: bs).length 0 =
      some (0x3f, 4) := by
  have h2 : ¬ b &&& 0xe0 = 0xc0 := by rw [lead2_iff]; omega
  have h3 : ¬ b &&& 0xf0 = 0xe0 := by rw [lead3_iff]; omega
  have h4 : b &&& 0xf8 = 0xf0 := (lead4_iff b).mpr h
  simp [codePointAt, h2, h3, h4]

end

theorem latin1_of_gt {cp : ℕ} (h : 0xff < cp) : latin1 cp = 0x3f := by
  rw [latin1, if_neg (by omega)]
  rfl

/-- A character is taken whole, for what it is as far as Latin-1 has it. -/
theorem codePointAt_utf8EncodeChar (c : Char) (bs : List UInt8) :
    ∃ cp, codePointAt (String.utf8EncodeChar c ++ bs) (String.utf8EncodeChar c ++ bs).length 0 =
      some (cp, (String.utf8EncodeChar c).length) ∧ latin1 cp = latin1 c.toNat := by
  have hvalid : c.toNat < 0xd800 ∨ 0xdfff < c.toNat ∧ c.toNat < 0x110000 := c.valid
  have hval : c.val.toNat = c.toNat := rfl
  rw [String.utf8EncodeChar]
  simp only [hval]
  generalize c.toNat = v at hvalid
  split_ifs with h1 h2 h3
  · refine ⟨_, codePointAt_one bs ?_, ?_⟩ <;> rw [Utf8.toNat_ofNat (by omega)]
    omega
  · refine ⟨_, codePointAt_two bs ?_, congrArg latin1 ?_⟩
    · rw [Utf8.toNat_ofNat (by omega)]
      omega
    · rw [Utf8.toNat_ofNat (by omega), Utf8.toNat_ofNat (by omega)]
      omega
  · refine ⟨_, codePointAt_three bs ?_, congrArg latin1 ?_⟩
    · rw [Utf8.toNat_ofNat (by omega)]
      omega
    · rw [Utf8.toNat_ofNat (by omega), Utf8.toNat_ofNat (by omega), Utf8.toNat_ofNat (by omega)]
      omega
  · refine ⟨0x3f, codePointAt_four bs ?_, (latin1_of_gt (by omega)).symm⟩
    rw [Utf8.toNat_ofNat (by omega)]
    omega

/-! ## The loops -/

theorem codePointAt_append (pre bs : List UInt8) (n i : ℕ) :
    codePointAt (pre ++ bs) (pre.length + n) (pre.length + i) = codePointAt bs n i := by
  have hget (k : ℕ) : (pre ++ bs)[pre.length + k]? = bs[k]? := by
    rw [List.getElem?_append_right (by omega), Nat.add_sub_cancel_left]
  simp only [codePointAt, Nat.add_assoc, hget, Nat.add_lt_add_iff_left]

/-- What lies behind does not matter. -/
theorem latin1Loop_append (pre bs : List UInt8) (n turns i : ℕ) :
    latin1Loop (pre ++ bs) (pre.length + n) turns (pre.length + i) = latin1Loop bs n turns i := by
  induction turns generalizing i with
  | zero => simp only [latin1Loop, Nat.add_lt_add_iff_left]
  | succ turns ih =>
    simp only [latin1Loop, Nat.add_lt_add_iff_left, codePointAt_append, Nat.add_assoc, ih]

theorem prefixLoop_append (pre bs : List UInt8) (n turns i : ℕ) :
    prefixLoop (pre ++ bs) (pre.length + n) turns (pre.length + i) =
      (prefixLoop bs n turns i).map (pre.length + ·) := by
  have hget (k : ℕ) : (pre ++ bs)[pre.length + k]? = bs[k]? := by
    rw [List.getElem?_append_right (by omega), Nat.add_sub_cancel_left]
  induction turns generalizing i with
  | zero =>
    simp only [prefixLoop, Nat.add_lt_add_iff_left]
    split_ifs <;> rfl
  | succ turns ih =>
    simp only [prefixLoop, Nat.add_lt_add_iff_left, hget, Nat.add_assoc, gt_iff_lt, ih]
    split_ifs
    · cases bs[i]? with
      | none => rfl
      | some c =>
        simp only [Option.bind_eq_bind, Option.bind_some]
        cases width c with
        | none => rfl
        | some width =>
          dsimp only
          split_ifs <;> rfl
    · rfl

/-- The text of the characters. -/
def utf8 (cs : List Char) : List UInt8 := (cs.map String.utf8EncodeChar).flatten

theorem utf8_cons (c : Char) (cs : List Char) :
    utf8 (c :: cs) = String.utf8EncodeChar c ++ utf8 cs := rfl

theorem latin1Loop_utf8 {cs : List Char} {turns : ℕ} (h : (utf8 cs).length ≤ turns) :
    latin1Loop (utf8 cs) (utf8 cs).length turns 0 = some (cs.map fun c => latin1 c.toNat) := by
  induction cs generalizing turns with
  | nil => cases turns <;> rfl
  | cons c cs ih =>
    have hlength : (utf8 (c :: cs)).length = (String.utf8EncodeChar c).length + (utf8 cs).length := by
      simp [utf8]
    have hpos : 0 < (String.utf8EncodeChar c).length :=
      String.length_utf8EncodeChar c ▸ c.utf8Size_pos
    obtain ⟨cp, hcp, hlatin1⟩ := codePointAt_utf8EncodeChar c (utf8 cs)
    obtain ⟨turns, rfl⟩ := Nat.exists_eq_add_of_lt (show 0 < turns by omega)
    have hrest := ih (show (utf8 cs).length ≤ 0 + turns by omega)
    rw [← latin1Loop_append (String.utf8EncodeChar c), Nat.add_zero] at hrest
    rw [latin1Loop, if_pos (by omega), utf8_cons, hcp]
    simp only [Option.bind_eq_bind, Option.bind_some, List.length_append, Nat.zero_add] at hrest ⊢
    rw [hrest, hlatin1]
    rfl

/-- Valid UTF-8 is taken character by character. -/
theorem utf8ToLatin1_utf8 (cs : List Char) :
    utf8ToLatin1 (utf8 cs) (utf8 cs).length = some (cs.map fun c => latin1 c.toNat) :=
  latin1Loop_utf8 (le_refl _)

theorem prefixLoop_utf8 {cs : List Char} {turns n : ℕ} (hturns : n ≤ turns)
    (hn : n ≤ (utf8 cs).length) :
    prefixLoop (utf8 cs) n turns 0 = some (Text.fit n (cs.map String.utf8EncodeChar)).length := by
  induction cs generalizing turns n with
  | nil =>
    obtain rfl := Nat.le_zero.mp hn
    cases turns <;> rfl
  | cons c cs ih =>
    obtain ⟨b, rest, hb, hwidth⟩ := width_utf8EncodeChar c
    have hlength : (String.utf8EncodeChar c).length = rest.length + 1 := by rw [hb]; rfl
    cases turns with
    | zero =>
      obtain rfl := Nat.le_zero.mp hturns
      rw [prefixLoop, if_neg (lt_irrefl 0), List.map_cons, Text.fit, if_neg (by omega)]
      rfl
    | succ turns =>
      rw [prefixLoop, List.map_cons, Text.fit, utf8_cons]
      rcases Nat.eq_zero_or_pos n with rfl | hpos
      · rw [if_neg (lt_irrefl 0), if_neg (by omega)]
        rfl
      · have hget : (String.utf8EncodeChar c ++ utf8 cs)[0]? = some b := by rw [hb]; rfl
        rw [if_pos hpos, hget]
        simp only [Option.bind_eq_bind, Option.bind_some, hwidth, Nat.zero_add]
        rw [utf8_cons, List.length_append] at hn
        by_cases hfit : (String.utf8EncodeChar c).length ≤ n
        · -- the character fits, and the loop goes on behind it
          have hrest := ih (show n - (String.utf8EncodeChar c).length ≤ turns by omega) (by omega)
          have hgo := prefixLoop_append (String.utf8EncodeChar c) (utf8 cs)
            (n - (String.utf8EncodeChar c).length) turns 0
          rw [Nat.add_sub_of_le hfit, Nat.add_zero, hrest] at hgo
          rw [if_neg (by omega), if_pos hfit, ← hlength, hgo, List.length_append]
          rfl
        · rw [if_pos (by omega), if_neg hfit]
          rfl

/-- The loop looks at no more than `n` bytes. -/
theorem prefixLoop_congr {str str' : List UInt8} {n : ℕ} (h : str.take n = str'.take n)
    (turns i : ℕ) : prefixLoop str n turns i = prefixLoop str' n turns i := by
  induction turns generalizing i with
  | zero => rfl
  | succ turns ih =>
    simp only [prefixLoop, ih]
    split_ifs with hi
    · rw [← List.getElem?_take_of_lt hi, h, List.getElem?_take_of_lt hi]
    · rfl

/-! ## What the helpers are for -/

/-- A character of the text begins, or the text ends. -/
def IsBoundary (cs : List Char) (i : ℕ) : Prop := ∃ k, i = (utf8 (cs.take k)).length

/-- Of a text cut at `n`, the whole characters are kept. -/
theorem completeUtf8PrefixLength_isGreatest {str : List UInt8} {cs : List Char} {n : ℕ}
    (hn : n ≤ (utf8 cs).length) (hstr : str.take n = (utf8 cs).take n) :
    ∃ i, completeUtf8PrefixLength str n = some i ∧ IsGreatest {i | IsBoundary cs i ∧ i ≤ n} i := by
  have hgreatest := Text.length_fit_isGreatest n (cs.map String.utf8EncodeChar)
  simp only [← List.map_take] at hgreatest
  exact ⟨_, (prefixLoop_congr hstr n 0).trans (prefixLoop_utf8 (le_refl n) hn), hgreatest⟩

/-- What is stored is the longest prefix of whole characters that leaves room for the NUL. -/
theorem napiGetValueStringUtf8_fit (cs : List Char) (room : ℕ) (wantsResult : Bool) :
    let text := Text.fit room (cs.map String.utf8EncodeChar)
    napiGetValueStringUtf8 (.string (some (utf8 cs))) (some (room + 1)) wantsResult =
      some
        { status := .ok
          buf := text ++ [0]
          result := if wantsResult then some text.length else none } := by
  have hcopied : completeUtf8PrefixLength (utf8 cs) (min room (utf8 cs).length) =
      some (Text.fit room (cs.map String.utf8EncodeChar)).length := by
    rw [← Text.fit_min]
    exact prefixLoop_utf8 (le_refl _) (Nat.min_le_right _ _)
  simp only [napiGetValueStringUtf8, hcopied, Option.bind_eq_bind, Option.bind_some]
  rw [utf8, Text.take_length_fit]
  rfl

/-- **The helpers are exact.** Digits are compared as numbers, so that the flags of the BigInt
    conversions say what fits; text that is cut keeps its whole characters; and Latin-1 is made of
    the code points. -/
theorem helpers_exact (e : Engine) (h : e.Exact) :
    (∀ value max : List Char, (∀ c ∈ value, chars.IsDigit c) → chars.Written max →
      (decimalDigitsFit value max = true ↔ chars.read value ≤ chars.read max)) ∧
    (∀ bigint : ℤ,
      ((napiGetValueBigintInt64 e (some bigint)).lossless = some true ↔
        -2 ^ 63 ≤ bigint ∧ bigint < 2 ^ 63) ∧
      ((napiGetValueBigintUint64 e (some bigint)).lossless = some true ↔
        0 ≤ bigint ∧ bigint < 2 ^ 64)) ∧
    (∀ (cs : List Char) (str : List UInt8) (n : ℕ), n ≤ (utf8 cs).length →
      str.take n = (utf8 cs).take n → ∃ i, completeUtf8PrefixLength str n = some i ∧
        IsGreatest {i | IsBoundary cs i ∧ i ≤ n} i) ∧
    ∀ cs : List Char, utf8ToLatin1 (utf8 cs) (utf8 cs).length =
      some (cs.map fun c => if c.toNat ≤ 0xff then UInt8.ofNat c.toNat else '?'.toUInt8) := by
  refine ⟨?_, ?_, ?_, ?_⟩
  · intro value max hvalue hmax
    exact decimalDigitsFit_iff hvalue hmax
  · intro bigint
    exact ⟨(napiGetValueBigintInt64_spec h bigint).1, (napiGetValueBigintUint64_spec h bigint).1⟩
  · intro cs str n hn hstr
    exact completeUtf8PrefixLength_isGreatest hn hstr
  · intro cs
    rw [utf8ToLatin1_utf8]
    refine congrArg some (List.map_congr_left fun c _ => ?_)
    unfold latin1
    split_ifs <;> rfl

/-- An engine that converts as ECMAScript does. -/
def plain : Engine where
  toBigInt64 bigint := some (Int64.ofInt bigint)
  toBigUint64 bigint := some (UInt64.ofInt bigint)
  toCString bigint := some (decimal bigint)

/-- The least number of 64 bits is not lost, nor the euro sign cut. -/
theorem helpers_exact_least :
    (napiGetValueBigintInt64 plain (some (-9223372036854775808))).lossless = some true ∧
      ∃ i, completeUtf8PrefixLength [0x61, 0xe2, 0x82] 3 = some i ∧
        IsGreatest {i | IsBoundary ['a', '€'] i ∧ i ≤ 3} i := by
  have hexact : plain.Exact := ⟨fun _ => rfl, fun _ => rfl, fun _ => rfl⟩
  obtain ⟨-, hflags, hprefix, -⟩ := helpers_exact plain hexact
  exact ⟨(hflags _).1.mpr (by decide), hprefix _ _ _ (by decide) (by decide)⟩

end WasmerNapi.Quickjs.StringExport
