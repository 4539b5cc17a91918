import WasmerNapi.Quickjs.PropertyNames

/-!
# The names of lazy properties

`define_lazy_data_properties` of the QuickJS backend, in
`src/quickjs/src/internal/napi_lazy_properties.cc`, and
`wasmer_napi_define_lazy_data_properties` of the host-JS one, in `src/src/snapi_js.rs`: which names
each takes, and what they have done to the object by the time they refuse one.

One reads digits by hand, the other has the name converted to a Number and back. Neither reads the
names without running scripts: a getter or a proxy trap, which can do anything to the object.
-/

namespace WasmerNapi.HostJs.LazyNames

open Quickjs.PropertyNames (Key toCString indexKey accumulate propertyKeyToArrayIndex arrayIndex_iff
  digitChar kMaxArrayIndex)

/-! ## Numbers -/

inductive Number where
  | nan
  | infinity (negative : Bool)
  | negativeZero
  | finite (q : ℚ)
  deriving DecidableEq

/-- `number >= 0` -/
def Number.nonnegative : Number → Bool
  | .nan => false
  | .infinity negative => !negative
  | .negativeZero => true
  | .finite q => 0 ≤ q

/-- `number < 4294967295` -/
def Number.belowMax : Number → Bool
  | .nan => false
  | .infinity negative => negative
  | .negativeZero => true
  | .finite q => q < 4294967295

/-- `number % 1 === 0` -/
def Number.isWhole : Number → Bool
  | .nan | .infinity _ => false
  | .negativeZero => true
  | .finite q => q.isInt

/-- `Number(string)` and `String(number)`, which are `JS_ToNumber` and `JS_ToString`. -/
structure Conversions where
  toNumber : List UInt16 → Number
  toString : Number → List UInt16

/-- What ECMAScript says of a whole number that 32 bits hold: it is written in decimal, and read
    from it. Zero has two Numbers, and both are written `0`. -/
structure Conversions.Ecmascript (c : Conversions) : Prop where
  toNumber_indexKey : ∀ n < 2 ^ 32, c.toNumber (indexKey n) = .finite n
  toString_finite : ∀ n < 2 ^ 32, c.toString (.finite (n : ℕ)) = indexKey n
  toString_negativeZero : c.toString .negativeZero = indexKey 0

/-- `"-0"` -/
def negativeZeroText : List UInt16 := [0x2d, 0x30]

/-! ## One name -/

/-- An element of the names array. -/
inductive Element where
  | key (key : Key)
  | other
  deriving DecidableEq

/-- The loop over the digits, and whether they all were. -/
def indexLoop : UInt64 → List UInt8 → Bool × UInt64
  | index, [] => (true, index)
  | index, ch :: text =>
    if ch < 0x30 || ch > 0x39 then (false, index)
    else indexLoop (index * 10 + (ch - 0x30).toUInt64) text

/-- `array_index` at the end, of the C string of a name. -/
def isArrayIndex (text : List UInt8) : Bool :=
  if text.length ≠ 0 ∧ text.length ≤ 10 ∧ (text.length = 1 ∨ text.head? ≠ some 0x30) then
    let (arrayIndex, index) := indexLoop 0 text
    arrayIndex && index < 4294967295
  else false

/-- `validate_name` -/
def validateName (c : Conversions) (typedArray : Bool) : Element → ℤ
  | .key (.symbol _) => 1
  | .other => 0
  | .key (.string key) =>
    let text := toCString key
    let negativeZero := text == [0x2d, 0x30]
    if isArrayIndex text || (typedArray && negativeZero) then 0
    else if !typedArray then 1
    else if c.toString (c.toNumber key) = key then 0 else 1

/-- The host's checks of a name: it does not return 4. -/
def acceptsName (c : Conversions) (typedArray : Bool) : Element → Bool
  | .key (.symbol _) => true
  | .other => false
  | .key (.string key) =>
    let number := c.toNumber key
    let canonical := c.toString number == key
    !((canonical && number.nonnegative && number.belowMax && number.isWhole) ||
      (typedArray && (key == negativeZeroText || canonical)))

/-! ## The calls -/

inductive Status where
  | ok
  | invalidArg
  | objectExpected
  | nameExpected
  | functionExpected
  | arrayExpected
  | genericFailure
  | pendingException
  deriving DecidableEq

inductive Target where
  | primitive
  | plain
  | typedArray
  | proxy
  deriving DecidableEq

/-- Something read from the names array, `none` when the read throws. `effect` is what scripts do
    to the object meanwhile. `interrupted`: then execution is terminating, or QuickJS runs out of
    memory for the name. -/
structure Read (Ω α : Type) where
  effect : Ω → Ω := id
  value : Option α
  interrupted : Bool := false

structure Args (Ω : Type) where
  attributes : UInt32
  target : Target
  isArray : Bool := true
  isFunction : Bool := true
  terminating : Bool := false
  /-- `names.length`, as 32 bits. -/
  length : Read Ω UInt32
  names : ℕ → Read Ω Element

/-- What an engine's definition of one property comes to. -/
inductive Defined where
  | threw
  | refused
  | done
  deriving DecidableEq

/-- `defined` are the names that reached the engine's definition. -/
structure Outcome (Ω : Type) where
  status : Status
  object : Ω
  defined : List Key := []

variable {Ω : Type}

/-- What the QuickJS loop makes of a name it has read. -/
def judge (c : Conversions) (typedArray : Bool) (read : Read Ω Element) : Except Status Key :=
  match read.value with
  | none => .error .pendingException
  | some element =>
    if read.interrupted then .error .pendingException
    else if validateName c typedArray element = 0 then .error .nameExpected
    else match element with
      | .key key => .ok key
      | .other => .error .nameExpected

/-- What the host's loop makes of it. -/
def judgeHost (c : Conversions) (typedArray : Bool) (read : Read Ω Element) : Except Status Key :=
  match read.value with
  | none => .error .pendingException
  | some element =>
    if acceptsName c typedArray element then
      match element with
      | .key key => .ok key
      | .other => .error .nameExpected
    else .error .nameExpected

/-- The first loop: `left` names from the `i`th on are read and judged. -/
def readNames (judge : Read Ω Element → Except Status Key) (names : ℕ → Read Ω Element) :
    ℕ → ℕ → Ω → List Key → Except Status (List Key) × Ω
  | 0, _, object, keys => (.ok keys, object)
  | left + 1, i, object, keys =>
    match judge (names i) with
    | .error status => (.error status, (names i).effect object)
    | .ok key => readNames judge names left (i + 1) ((names i).effect object) (keys ++ [key])

/-- The second loop. -/
def defineAll (define : Ω → Key → Defined × Ω) : List Key → Ω → List Key → Outcome Ω
  | [], object, defined => { status := .ok, object, defined }
  | key :: keys, object, defined =>
    match define object key with
    | (.done, object) => defineAll define keys object (defined ++ [key])
    | (.refused, object) => { status := .genericFailure, object, defined := defined ++ [key] }
    | (.threw, object) => { status := .pendingException, object, defined := defined ++ [key] }

/-- From the names to the properties. -/
def defineNames (judge : Read Ω Element → Except Status Key) (define : Ω → Key → Defined × Ω)
    (args : Args Ω) (object : Ω) (count : UInt32) : Outcome Ω :=
  match readNames judge args.names count.toNat 0 (args.length.effect object) [] with
  | (.error status, object) => { status, object }
  | (.ok keys, object) => defineAll define keys object []

/-- `define_lazy_data_properties` -/
def defineLazyDataProperties (c : Conversions) (define : Ω → Key → Defined × Ω) (args : Args Ω)
    (object : Ω) : Outcome Ω :=
  if args.attributes &&& ~~~7 ≠ 0 then { status := .invalidArg, object }
  else if args.terminating then { status := .pendingException, object }
  else if args.target = .primitive then { status := .objectExpected, object }
  else if !args.isArray then { status := .arrayExpected, object }
  else if !args.isFunction then { status := .functionExpected, object }
  else if args.target = .proxy then { status := .genericFailure, object }
  else match args.length.value with
    | none => { status := .pendingException, object := args.length.effect object }
    | some count =>
      if args.length.interrupted then
        { status := .pendingException, object := args.length.effect object }
      else defineNames (judge c (args.target == .typedArray)) define args object count

/-- `wasmer_napi_define_lazy_data_properties`, what it throws being left pending by its caller. -/
def wasmerNapiDefineLazyDataProperties (c : Conversions) (define : Ω → Key → Defined × Ω)
    (args : Args Ω) (object : Ω) : Outcome Ω :=
  if args.attributes &&& ~~~7 ≠ 0 then { status := .invalidArg, object }
  else if args.target = .primitive then { status := .objectExpected, object }
  else if !args.isArray then { status := .arrayExpected, object }
  else if !args.isFunction then { status := .functionExpected, object }
  else match args.length.value with
    | none => { status := .pendingException, object := args.length.effect object }
    | some count => defineNames (judgeHost c (args.target == .typedArray)) define args object count

/-! ## The names that are refused -/

/-- On any object the array indices; on a typed array every canonical numeric string besides. -/
def Reserved (c : Conversions) (typedArray : Bool) : Key → Prop
  | .symbol _ => False
  | .string units =>
    (∃ n < 2 ^ 32 - 1, units = indexKey n) ∨
      typedArray = true ∧ (units = negativeZeroText ∨ c.toString (c.toNumber units) = units)

/-- The accumulator does not overflow. -/
theorem indexLoop_iff {index : UInt64} {text : List UInt8}
    (hroom : (index.toNat + 1) * 10 ^ text.length ≤ 2 ^ 64) (n : ℕ) :
    (indexLoop index text).1 = true ∧ (indexLoop index text).2.toNat = n ↔
      accumulate index.toNat text = some n := by
  induction text generalizing index with
  | nil =>
    unfold indexLoop accumulate
    simp
  | cons ch text ih =>
    unfold indexLoop accumulate
    cases hd : (ch < 0x30 || ch > 0x39) with
    | true => simp
    | false =>
      have hdigit := Quickjs.PropertyNames.isDigit_iff.mp hd
      obtain ⟨hlow, hhigh⟩ := hdigit
      have hpow : 1 ≤ 10 ^ text.length := Nat.one_le_pow _ _ (by decide)
      have hsub : (ch - 0x30).toUInt64.toNat = ch.toNat - 0x30 := by
        rw [UInt8.toNat_toUInt64, UInt8.toNat_sub_of_le]
        · rfl
        · exact UInt8.le_iff_toNat_le.2 hlow
      rw [List.length_cons, pow_succ] at hroom
      have hfits : (index.toNat + 1) * 10 ≤ 2 ^ 64 := by
        calc (index.toNat + 1) * 10 ≤ (index.toNat + 1) * 10 * 10 ^ text.length :=
              Nat.le_mul_of_pos_right _ hpow
          _ ≤ 2 ^ 64 := by rw [mul_assoc, mul_comm 10]; exact hroom
      have hnext : (index * 10 + (ch - 0x30).toUInt64).toNat =
          index.toNat * 10 + (ch.toNat - 0x30) := by
        have hten : (10 : UInt64).toNat = 10 := rfl
        rw [UInt64.toNat_add, UInt64.toNat_mul, hsub, hten]
        omega
      rw [if_neg Bool.false_ne_true, if_neg Bool.false_ne_true, ih, hnext]
      rw [hnext]
      calc (index.toNat * 10 + (ch.toNat - 0x30) + 1) * 10 ^ text.length
          ≤ (index.toNat + 1) * 10 * 10 ^ text.length :=
            Nat.mul_le_mul_right _ (by omega)
        _ ≤ 2 ^ 64 := by rw [mul_assoc, mul_comm 10]; exact hroom

theorem isArrayIndex_iff (text : List UInt8) :
    isArrayIndex text = true ↔ ∃ n, propertyKeyToArrayIndex text = some n := by
  unfold isArrayIndex propertyKeyToArrayIndex
  split_ifs with hshape
  · have hroom : ((0 : UInt64).toNat + 1) * 10 ^ text.length ≤ 2 ^ 64 := by
      have hpow : 10 ^ text.length ≤ 10 ^ 10 := Nat.pow_le_pow_right (by decide) hshape.2.1
      rw [show (0 : UInt64).toNat = 0 from rfl, Nat.zero_add, one_mul]
      exact hpow.trans (by decide)
    have hloop := indexLoop_iff hroom
    rw [show (0 : UInt64).toNat = 0 from rfl] at hloop
    cases haccumulate : accumulate 0 text with
    | none =>
      have hstop : (indexLoop 0 text).1 = false := by
        by_contra hgo
        have := (hloop _).1 ⟨by simpa using hgo, rfl⟩
        rw [haccumulate] at this
        cases this
      simp [hstop]
    | some n =>
      obtain ⟨hgo, hn⟩ := (hloop n).2 haccumulate
      have hlt : (indexLoop 0 text).2 < 4294967295 ↔ ¬ n > kMaxArrayIndex := by
        rw [UInt64.lt_iff_toNat_lt, hn, show (4294967295 : UInt64).toNat = 4294967295 from rfl,
          kMaxArrayIndex]
        omega
      simp only [hgo, Bool.true_and, decide_eq_true_eq, hlt]
      split_ifs with hmax <;> simp [hmax]
  · simp

/-- Names of the numbers below `2 ^ 32 - 1`. -/
theorem isArrayIndex_toCString (units : List UInt16) :
    isArrayIndex (toCString units) = true ↔ ∃ n < 2 ^ 32 - 1, units = indexKey n := by
  rw [isArrayIndex_iff]
  apply exists_congr
  intro n
  exact arrayIndex_iff

theorem toCString_eq_negativeZero (units : List UInt16) :
    toCString units = [0x2d, 0x30] ↔ units = negativeZeroText := by
  have hascii : ∀ b ∈ ([0x2d, 0x30] : List UInt8), b.toNat < 0x80 := by simp
  have h := Text.flatten_utf8_eq_iff (s := units) hascii
  have htext : [0x2d, 0x30].map UInt8.toUInt16 = negativeZeroText := by decide
  rwa [htext] at h

theorem validateName_zero (c : Conversions) (typedArray : Bool) (key : Key) :
    validateName c typedArray (.key key) = 0 ↔ Reserved c typedArray key := by
  cases key with
  | symbol id => simp [validateName, Reserved]
  | string units =>
    simp only [validateName, Reserved]
    rw [← isArrayIndex_toCString units, ← toCString_eq_negativeZero units]
    cases typedArray with
    | false => simp
    | true =>
      by_cases hindex : isArrayIndex (toCString units) = true
      · simp [hindex]
      · by_cases hcanonical : c.toString (c.toNumber units) = units
        · simp [hindex, hcanonical]
        · simp [hindex, hcanonical]

theorem validateName_iff (c : Conversions) (typedArray : Bool) (key : Key) :
    validateName c typedArray (.key key) = 1 ↔ ¬ Reserved c typedArray key := by
  rw [← validateName_zero]
  cases key with
  | symbol id => simp [validateName]
  | string units =>
    simp only [validateName]
    split_ifs <;> simp

variable {c : Conversions}

/-- A Number that is written like the name it was read from. -/
theorem Conversions.Ecmascript.canonicalIndex (hc : c.Ecmascript) (units : List UInt16) :
    (c.toString (c.toNumber units) = units ∧ (c.toNumber units).nonnegative = true ∧
        (c.toNumber units).belowMax = true ∧ (c.toNumber units).isWhole = true) ↔
      ∃ n < 2 ^ 32 - 1, units = indexKey n := by
  constructor
  · rintro ⟨hcanonical, hnonnegative, hbelow, hwhole⟩
    cases hnumber : c.toNumber units with
    | nan =>
      rw [hnumber] at hwhole
      cases hwhole
    | infinity negative =>
      rw [hnumber] at hwhole
      cases hwhole
    | negativeZero =>
      rw [hnumber, hc.toString_negativeZero] at hcanonical
      exact ⟨0, by decide, hcanonical.symm⟩
    | finite q =>
      rw [hnumber] at hcanonical hnonnegative hbelow hwhole
      have hden : q.den = 1 := by simpa [Number.isWhole, Rat.isInt] using hwhole
      have hq : q = q.num := (Rat.den_eq_one_iff q).1 hden |>.symm
      have hnum : 0 ≤ q.num := by
        rw [Rat.num_nonneg]
        simpa [Number.nonnegative] using hnonnegative
      obtain ⟨n, hn⟩ := Int.eq_ofNat_of_zero_le hnum
      rw [hn, Int.cast_natCast] at hq
      have hlt : n < 2 ^ 32 - 1 := by
        have hbelow : q < 4294967295 := by simpa [Number.belowMax] using hbelow
        rw [hq] at hbelow
        exact_mod_cast hbelow
      rw [hq, hc.toString_finite n (by omega)] at hcanonical
      exact ⟨n, hlt, hcanonical.symm⟩
  · rintro ⟨n, hn, rfl⟩
    rw [hc.toNumber_indexKey n (by omega)]
    refine ⟨hc.toString_finite n (by omega), ?_, ?_, ?_⟩
    · simp [Number.nonnegative]
    · have : (n : ℚ) < 4294967295 := by exact_mod_cast hn
      simpa [Number.belowMax] using this
    · simp [Number.isWhole, Rat.isInt]

theorem acceptsName_iff (hc : c.Ecmascript) (typedArray : Bool) (key : Key) :
    acceptsName c typedArray (.key key) = true ↔ ¬ Reserved c typedArray key := by
  cases key with
  | symbol id => simp [acceptsName, Reserved]
  | string units =>
    simp only [acceptsName, Reserved]
    rw [← hc.canonicalIndex units]
    generalize (c.toNumber units).nonnegative = nonnegative
    generalize (c.toNumber units).belowMax = belowMax
    generalize (c.toNumber units).isWhole = isWhole
    cases typedArray <;> cases nonnegative <;> cases belowMax <;> cases isWhole <;> simp

/-- No property is made of this read: it throws, or gives what is not a name, or not one to have. -/
def Refused (c : Conversions) (typedArray : Bool) (read : Read Ω Element) : Prop :=
  read.value = none ∨ read.value = some .other ∨
    ∃ key, read.value = some (.key key) ∧ Reserved c typedArray key

variable {typedArray : Bool} {read : Read Ω Element}

theorem judgeHost_error (hc : c.Ecmascript) (h : Refused c typedArray read) :
    ∃ status, judgeHost c typedArray read = .error status := by
  unfold judgeHost
  rcases h with h | h | ⟨key, h, hreserved⟩
  · rw [h]
    exact ⟨_, rfl⟩
  · rw [h]
    exact ⟨_, rfl⟩
  · have hnot : ¬ acceptsName c typedArray (.key key) = true := by
      rw [acceptsName_iff hc]
      exact fun hn => hn hreserved
    rw [h]
    simp only [if_neg hnot]
    exact ⟨_, rfl⟩

/-- Where nothing interrupts it, QuickJS judges like the host. -/
theorem judge_eq (hc : c.Ecmascript) (hinterrupted : read.interrupted = false) :
    judge c typedArray read = judgeHost c typedArray read := by
  unfold judge judgeHost
  rw [hinterrupted]
  cases read.value with
  | none => rfl
  | some element =>
    cases element with
    | other => rfl
    | key key =>
      simp only [Bool.false_eq_true, if_false]
      by_cases hreserved : Reserved c typedArray key
      · have hq := (validateName_zero c typedArray key).2 hreserved
        have hh : ¬ acceptsName c typedArray (.key key) = true := by
          rw [acceptsName_iff hc]
          exact fun hn => hn hreserved
        rw [if_pos hq, if_neg hh]
      · have hq : ¬ validateName c typedArray (.key key) = 0 := by
          rw [validateName_zero]
          exact hreserved
        rw [if_neg hq, if_pos ((acceptsName_iff hc typedArray key).2 hreserved)]

theorem judge_error (hc : c.Ecmascript) (h : Refused c typedArray read) :
    ∃ status, judge c typedArray read = .error status := by
  cases hinterrupted : read.interrupted with
  | false =>
    rw [judge_eq hc hinterrupted]
    exact judgeHost_error hc h
  | true =>
    unfold judge
    rw [hinterrupted]
    cases read.value with
    | none => exact ⟨_, rfl⟩
    | some element => exact ⟨_, rfl⟩

/-! ## All or nothing -/

/-- The object once the scripts of `k` reads from the `i`th on have run. -/
def after (names : ℕ → Read Ω Element) : ℕ → ℕ → Ω → Ω
  | 0, _, object => object
  | k + 1, i, object => after names k (i + 1) ((names i).effect object)

variable {judge judge' : Read Ω Element → Except Status Key} {names : ℕ → Read Ω Element}

/-- Reading leaves the object to the scripts. -/
theorem object_readNames (left i : ℕ) (object : Ω) (keys : List Key) :
    ∃ k, (readNames judge names left i object keys).2 = after names k i object := by
  induction left generalizing i object keys with
  | zero => exact ⟨0, rfl⟩
  | succ left ih =>
    unfold readNames
    cases judge (names i) with
    | error status => exact ⟨1, rfl⟩
    | ok key =>
      obtain ⟨k, hk⟩ := ih (i + 1) ((names i).effect object) (keys ++ [key])
      exact ⟨k + 1, hk⟩

variable {i : ℕ}

theorem readNames_error {left j : ℕ} (hok : ∀ read, judge read ≠ .error .ok) (hj : j < left)
    (h : ∃ status, judge (names (i + j)) = .error status) (object : Ω) (keys : List Key) :
    ∃ status, status ≠ .ok ∧ (readNames judge names left i object keys).1 = .error status := by
  induction left generalizing i j object keys with
  | zero => omega
  | succ left ih =>
    unfold readNames
    cases hfirst : judge (names i) with
    | error status =>
      refine ⟨status, ?_, rfl⟩
      rintro rfl
      exact hok _ hfirst
    | ok key =>
      cases j with
      | zero =>
        obtain ⟨status, h⟩ := h
        rw [Nat.add_zero, hfirst] at h
        cases h
      | succ j =>
        rw [show i + (j + 1) = i + 1 + j by omega] at h
        exact ih (by omega) h _ _

theorem readNames_congr {left : ℕ} (h : ∀ j < left, judge (names (i + j)) = judge' (names (i + j)))
    (object : Ω) (keys : List Key) :
    readNames judge names left i object keys = readNames judge' names left i object keys := by
  induction left generalizing i object keys with
  | zero => rfl
  | succ left ih =>
    have hrest : ∀ j < left, judge (names (i + 1 + j)) = judge' (names (i + 1 + j)) := by
      intro j hj
      rw [show i + 1 + j = i + (j + 1) by omega]
      exact h (j + 1) (by omega)
    unfold readNames
    rw [← Nat.add_zero i, h 0 (by omega), Nat.add_zero]
    cases judge' (names i) with
    | error status => rfl
    | ok key => exact ih hrest _ _

/-- The call failed, and what became of the object is the scripts' doing. -/
structure Undefined (args : Args Ω) (object : Ω) (outcome : Outcome Ω) : Prop where
  status : outcome.status ≠ .ok
  defined : outcome.defined = []
  object : outcome.object = object ∨
    ∃ k, outcome.object = after args.names k 0 (args.length.effect object)

variable {define : Ω → Key → Defined × Ω} {args : Args Ω} {object : Ω} {count : UInt32}

theorem undefined_of_status {status : Status} (h : status ≠ .ok) :
    Undefined args object { status, object } := ⟨h, rfl, Or.inl rfl⟩

theorem undefined_of_length {status : Status} (h : status ≠ .ok) :
    Undefined args object { status, object := args.length.effect object } :=
  ⟨h, rfl, Or.inr ⟨0, rfl⟩⟩

theorem undefined_defineNames (hok : ∀ read, judge read ≠ .error .ok) (hi : i < count.toNat)
    (h : ∃ status, judge (args.names i) = .error status) :
    Undefined args object (defineNames judge define args object count) := by
  have h0 : ∃ status, judge (args.names (0 + i)) = .error status := by rwa [Nat.zero_add]
  obtain ⟨status, hne, hstatus⟩ := readNames_error hok hi h0 (args.length.effect object) []
  obtain ⟨k, hk⟩ := @object_readNames Ω judge args.names count.toNat 0 (args.length.effect object) []
  unfold defineNames
  generalize readNames judge args.names count.toNat 0 (args.length.effect object) [] = result
    at hstatus hk
  obtain ⟨validated, left⟩ := result
  obtain rfl : validated = .error status := hstatus
  exact ⟨hne, rfl, Or.inr ⟨k, hk⟩⟩

theorem judge_ne_ok (c : Conversions) (typedArray : Bool) (read : Read Ω Element) :
    LazyNames.judge c typedArray read ≠ .error .ok := by
  unfold LazyNames.judge
  cases read.value with
  | none => exact nofun
  | some element =>
    dsimp only
    split_ifs
    · exact nofun
    · exact nofun
    · cases element <;> exact nofun

theorem judgeHost_ne_ok (c : Conversions) (typedArray : Bool) (read : Read Ω Element) :
    judgeHost c typedArray read ≠ .error .ok := by
  unfold judgeHost
  cases read.value with
  | none => exact nofun
  | some element =>
    dsimp only
    split_ifs
    · cases element <;> exact nofun
    · exact nofun

/-- Some read of the call, of the length or of a name, has nothing made of it. -/
def Args.Refused (args : Args Ω) (c : Conversions) : Prop :=
  args.length.value = none ∨ ∃ count, args.length.value = some count ∧
    ∃ i < count.toNat, LazyNames.Refused c (args.target == .typedArray) (args.names i)

theorem quickjs_undefined (hc : c.Ecmascript) (h : args.Refused c) :
    Undefined args object (defineLazyDataProperties c define args object) := by
  unfold defineLazyDataProperties
  split_ifs
  · exact undefined_of_status (by decide)
  · exact undefined_of_status (by decide)
  · exact undefined_of_status (by decide)
  · exact undefined_of_status (by decide)
  · exact undefined_of_status (by decide)
  · exact undefined_of_status (by decide)
  · cases args.length.value <;> exact undefined_of_length (by decide)
  · rcases h with h | ⟨count, h, i, hi, hrefused⟩
    · rw [h]
      exact undefined_of_length (by decide)
    · rw [h]
      exact undefined_defineNames (judge_ne_ok c _) hi (judge_error hc hrefused)

theorem host_undefined (hc : c.Ecmascript) (h : args.Refused c) :
    Undefined args object (wasmerNapiDefineLazyDataProperties c define args object) := by
  unfold wasmerNapiDefineLazyDataProperties
  split_ifs
  · exact undefined_of_status (by decide)
  · exact undefined_of_status (by decide)
  · exact undefined_of_status (by decide)
  · exact undefined_of_status (by decide)
  · rcases h with h | ⟨count, h, i, hi, hrefused⟩
    · rw [h]
      exact undefined_of_length (by decide)
    · rw [h]
      exact undefined_defineNames (judgeHost_ne_ok c _) hi (judgeHost_error hc hrefused)

/-- Nothing interrupts QuickJS. -/
structure Args.Uninterrupted (args : Args Ω) : Prop where
  terminating : args.terminating = false
  length : args.length.interrupted = false
  names : ∀ i, (args.names i).interrupted = false

theorem defineNames_eq (hc : c.Ecmascript) (h : args.Uninterrupted) (typedArray : Bool) :
    defineNames (LazyNames.judge c typedArray) define args object count =
      defineNames (judgeHost c typedArray) define args object count := by
  unfold defineNames
  rw [readNames_congr fun j _ => judge_eq hc (h.names _)]

theorem defineLazyDataProperties_eq (hc : c.Ecmascript) (h : args.Uninterrupted)
    (htarget : args.target ≠ .proxy) :
    defineLazyDataProperties c define args object =
      wasmerNapiDefineLazyDataProperties c define args object := by
  unfold defineLazyDataProperties wasmerNapiDefineLazyDataProperties
  rw [h.terminating, if_neg Bool.false_ne_true, if_neg htarget]
  cases hlength : args.length.value with
  | none => rfl
  | some count =>
    dsimp only
    rw [h.length, if_neg Bool.false_ne_true, defineNames_eq hc h]

/-- The two take the same names, those that are not array indices nor, on a typed array, canonical
    numeric strings. Where a read throws or gives another name, neither has defined anything.
    And they are one function of the reads, unless QuickJS is interrupted. -/
theorem names_judged_alike (c : Conversions) (hc : c.Ecmascript) (define : Ω → Key → Defined × Ω)
    (args : Args Ω) (object : Ω) (htarget : args.target ≠ .proxy) :
    (∀ typedArray key, (validateName c typedArray (.key key) = 1 ↔ ¬ Reserved c typedArray key) ∧
      (acceptsName c typedArray (.key key) = true ↔ ¬ Reserved c typedArray key)) ∧
    (args.Refused c → Undefined args object (defineLazyDataProperties c define args object) ∧
      Undefined args object (wasmerNapiDefineLazyDataProperties c define args object)) ∧
    (args.Uninterrupted → defineLazyDataProperties c define args object =
      wasmerNapiDefineLazyDataProperties c define args object) := by
  refine ⟨?_, ?_, ?_⟩
  · intro typedArray key
    exact ⟨validateName_iff c typedArray key, acceptsName_iff hc typedArray key⟩
  · intro hrefused
    exact ⟨quickjs_undefined hc hrefused, host_undefined hc hrefused⟩
  · intro huninterrupted
    exact defineLazyDataProperties_eq hc huninterrupted htarget

/-- Conversions of what has no fraction, no exponent and no sign but in `-0`. -/
def plainConversions : Conversions where
  toNumber units :=
    if units.all fun ch => 0x30 ≤ ch.toNat && ch.toNat ≤ 0x39 then
      .finite (Decimal.value (units.map fun ch => ch.toNat - 0x30) : ℕ)
    else if units = negativeZeroText then .negativeZero
    else .nan
  toString
    | .finite q => indexKey q.num.toNat
    | .negativeZero => indexKey 0
    | .nan | .infinity _ => [0x4e, 0x61, 0x4e]

theorem plainConversions_ecmascript : plainConversions.Ecmascript where
  toNumber_indexKey := by
    intro n _
    have hwritten : Decimal.Alphabet.units.Written (indexKey n) := Decimal.Alphabet.written_write n
    have hdigits : (indexKey n).all (fun ch => 0x30 ≤ ch.toNat && ch.toNat ≤ 0x39) = true := by
      rw [List.all_eq_true]
      intro ch hch
      simpa using Decimal.Alphabet.units_isDigit_iff.mp (hwritten.digits ch hch)
    have hread : Decimal.value ((indexKey n).map fun ch => ch.toNat - 0x30) = n :=
      Decimal.Alphabet.read_write (A := Decimal.Alphabet.units) n
    change (if _ then _ else _) = _
    rw [if_pos hdigits, hread]
  toString_finite := by
    intro n _
    rfl
  toString_negativeZero := rfl

/-- `["a", "-0"]` for a typed array. -/
def signedZeroArgs : Args (List Key) where
  attributes := 7
  target := .typedArray
  length := { value := some 2 }
  names i := { value := some (.key (.string (if i = 0 then [0x61] else negativeZeroText))) }

/-- The first name is not defined when the second is refused. -/
theorem names_judged_alike_signedZero :
    Undefined signedZeroArgs [] (defineLazyDataProperties plainConversions
        (fun object key => (.done, object ++ [key])) signedZeroArgs []) ∧
      Undefined signedZeroArgs [] (wasmerNapiDefineLazyDataProperties plainConversions
        (fun object key => (.done, object ++ [key])) signedZeroArgs []) := by
  have hrefused : signedZeroArgs.Refused plainConversions :=
    Or.inr ⟨2, rfl, 1, by decide, Or.inr (Or.inr ⟨_, rfl, Or.inr ⟨rfl, Or.inl rfl⟩⟩)⟩
  exact (names_judged_alike plainConversions plainConversions_ecmascript _ signedZeroArgs []
    (by decide)).2.1 hrefused

end WasmerNapi.HostJs.LazyNames
