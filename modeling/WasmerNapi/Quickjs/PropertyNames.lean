import WasmerNapi.Lib.Decimal
import WasmerNapi.Lib.Text

/-!
# Collecting property names in the QuickJS backend

`napi_util__::get_property_names` in `src/quickjs/src/internal/napi_util.cc`, under
`napi_get_property_names` and `napi_get_all_property_names`.

The engine is taken at its listing of an object's own keys, in its order, and at the prototypes
it gives. A proxy's traps may throw, or answer otherwise the second time they are asked.
-/

namespace WasmerNapi.Quickjs.PropertyNames

open Decimal.Alphabet (bytes toNat_bytes)

inductive Key where
  | string (units : List UInt16)
  | symbol (id : ℕ)
  deriving DecidableEq

/-- What `JS_GetOwnPropertyFlags` answers. -/
inductive Asked where
  | threw
  | absent
  | flags (writable configurable : Bool)
  deriving DecidableEq

/-- An own property: whether the listing calls it enumerable, and the answer about it. -/
structure Property where
  key : Key
  enumerable : Bool
  asked : Asked

/-- An object of the chain, and whether `JS_GetOwnPropertyNames` fails on it. -/
structure Level where
  own : List Property
  fails : Bool := false
  distinct : (own.map Property.key).Nodup

def Level.keys (level : Level) : List Key := level.own.map Property.key

/-- `napi_key_filter` -/
structure KeyFilter where
  writable : Bool := false
  enumerable : Bool := false
  configurable : Bool := false
  skipStrings : Bool := false
  skipSymbols : Bool := false

/-- `napi_key_collection_mode` -/
inductive Mode where
  | includePrototypes
  | ownOnly
  deriving DecidableEq

/-- `napi_key_conversion` -/
inductive Conversion where
  | keepNumbers
  | numbersToStrings
  deriving DecidableEq

/-- A name in the result. -/
inductive Name where
  | number (n : ℕ)
  | string (units : List UInt16)
  | symbol (id : ℕ)
  deriving DecidableEq

inductive Status where
  | objectExpected
  | pendingException
  deriving DecidableEq

/-! ## Array indices -/

/-- The loop over the digits. Ten of them fit 64 bits. -/
def accumulate : ℕ → List UInt8 → Option ℕ
  | index, [] => some index
  | index, ch :: text =>
    if ch < 0x30 || ch > 0x39 then none
    else accumulate (index * 10 + (ch.toNat - 0x30)) text

def kMaxArrayIndex : ℕ := 2 ^ 32 - 1 - 1

/-- `property_key_to_array_index`, of the C string of a key. -/
def propertyKeyToArrayIndex (text : List UInt8) : Option ℕ :=
  if text.length ≠ 0 ∧ text.length ≤ 10 ∧ (text.length = 1 ∨ text.head? ≠ some 0x30) then
    match accumulate 0 text with
    | some index => if index > kMaxArrayIndex then none else some index
    | none => none
  else none

/-- `JS_ToCStringLen`. A lone surrogate comes out as bytes beyond ASCII here as there. -/
def toCString (units : List UInt16) : List UInt8 := (Text.utf8 units).flatten

/-! ## Collecting -/

/-- The mask of `key_filter_to_gpn`, on a key. -/
def listed (filter : KeyFilter) (p : Property) : Bool :=
  (match p.key with
    | .string _ => !filter.skipStrings
    | .symbol _ => !filter.skipSymbols) && (!filter.enumerable || p.enumerable)

/-- `JS_GetOwnPropertyNames` with the flags of `key_filter_to_gpn`. -/
def getOwnPropertyNames (filter : KeyFilter) (level : Level) : Option (List Property) :=
  if level.fails then none else some (level.own.filter (listed filter))

/-- `passes_descriptor_filter` -/
def passesDescriptorFilter (filter : KeyFilter) (p : Property) : Except Status Bool :=
  if filter.writable || filter.configurable then
    match p.asked with
    | .threw => .error .pendingException
    | .absent => .ok false
    | .flags writable configurable =>
      .ok ((!filter.writable || writable) && (!filter.configurable || configurable))
  else .ok true

/-- The name a key is given. The engine makes a string or a symbol of an atom. -/
def convert (conversion : Conversion) : Key → Name
  | .symbol id => .symbol id
  | .string units =>
    match conversion with
    | .numbersToStrings => .string units
    | .keepNumbers =>
      match propertyKeyToArrayIndex (toCString units) with
      | some index => .number index
      | none => .string units

/-- `append_tab` -/
def appendTab (filter : KeyFilter) (conversion : Conversion) :
    List Property → List Name → Except Status (List Name)
  | [], arr => .ok arr
  | p :: tab, arr => do
    if ← passesDescriptorFilter filter p then
      appendTab filter conversion tab (arr ++ [convert conversion p.key])
    else appendTab filter conversion tab arr

/-- The walk over the prototypes; one whose keys cannot be listed is passed over. -/
def appendPrototypes (filter : KeyFilter) (conversion : Conversion) :
    List Level → List Name → Except Status (List Name)
  | [], arr => .ok arr
  | proto :: protos, arr =>
    match getOwnPropertyNames filter proto with
    | none => appendPrototypes filter conversion protos arr
    | some tab => do
      let arr ← appendTab filter conversion tab arr
      appendPrototypes filter conversion protos arr

/-- A value: an object with its prototypes, nearest first, or no object. -/
inductive Value where
  | object (own : Level) (protos : List Level)
  | other

/-- `get_property_names` -/
def getPropertyNames (mode : Mode) (filter : KeyFilter) (conversion : Conversion) :
    Value → Except Status (List Name)
  | .other => .error .objectExpected
  | .object own protos =>
    match getOwnPropertyNames filter own with
    | none => .error .pendingException
    | some tab => do
      let arr ← appendTab filter conversion tab []
      match mode with
      | .includePrototypes => appendPrototypes filter conversion protos arr
      | .ownOnly => return arr

/-- `napi_get_all_property_names` -/
def napiGetAllPropertyNames (value : Value) (mode : Mode) (filter : KeyFilter)
    (conversion : Conversion) : Except Status (List Name) :=
  getPropertyNames mode filter conversion value

/-- `napi_get_property_names` -/
def napiGetPropertyNames (value : Value) : Except Status (List Name) :=
  getPropertyNames .includePrototypes { enumerable := true, skipSymbols := true }
    .numbersToStrings value

/-! ## What they should be -/

/-- The key of an array index: its decimal numeral. -/
def indexKey (n : ℕ) : List UInt16 := (Decimal.numeral n).map fun d => UInt16.ofNat (0x30 + d)

/-- The name of a key under a conversion. -/
inductive Named : Conversion → Key → Name → Prop where
  | symbol {conversion id} : Named conversion (.symbol id) (.symbol id)
  | toString {units} : Named .numbersToStrings (.string units) (.string units)
  | index {n} (h : n < 2 ^ 32 - 1) : Named .keepNumbers (.string (indexKey n)) (.number n)
  | other {units} (h : ∀ n < 2 ^ 32 - 1, units ≠ indexKey n) :
    Named .keepNumbers (.string units) (.string units)

/-- The property passes the filter. -/
structure Passes (filter : KeyFilter) (p : Property) : Prop where
  strings : filter.skipStrings = true → ∃ id, p.key = .symbol id
  symbols : filter.skipSymbols = true → ∃ units, p.key = .string units
  enumerable : filter.enumerable = true → p.enumerable = true
  writable : filter.writable = true → ∃ configurable, p.asked = .flags true configurable
  configurable : filter.configurable = true → ∃ writable, p.asked = .flags writable true

/-- The nearest object of the chain that has the key gave it: its property passes the filter. -/
def NearestPasses (filter : KeyFilter) (chain : List Level) (key : Key) : Prop :=
  ∃ near level far, chain = near ++ level :: far ∧ (∀ l ∈ near, key ∉ l.keys) ∧
    level.fails = false ∧ ∃ p ∈ level.own, p.key = key ∧ Passes filter p

/-- The names are those of distinct keys, and each key is its nearest holder's to give; of one
    object they are exactly the keys that pass, in order. -/
def Correct (mode : Mode) (filter : KeyFilter) (conversion : Conversion) (own : Level)
    (protos : List Level) (names : List Name) : Prop :=
  ∃ keys, List.Forall₂ (Named conversion) keys names ∧
    match mode with
    | .includePrototypes => keys.Nodup ∧ ∀ key ∈ keys, NearestPasses filter (own :: protos) key
    | .ownOnly => ∃ passed : List Property, passed.Sublist own.own ∧
        (∀ p ∈ own.own, p ∈ passed ↔ Passes filter p) ∧ keys = passed.map Property.key

/-- The condition: no key that passes the filter on a farther object is a key of a nearer
    one. -/
def Unshadowed (filter : KeyFilter) (chain : List Level) : Prop :=
  chain.Pairwise fun near far =>
    far.fails = false → ∀ p ∈ far.own, Passes filter p → p.key ∉ near.keys

/-! ## Array indices are the canonical numerals -/

/-- The character of a digit, and the digit of a character. -/
def digitChar (d : ℕ) : UInt8 := UInt8.ofNat (0x30 + d)

def charDigit (ch : UInt8) : ℕ := ch.toNat - 0x30

def IsDigit (ch : UInt8) : Prop := 0x30 ≤ ch.toNat ∧ ch.toNat ≤ 0x39

theorem toNat_digitChar {d : ℕ} (h : d < 10) : (digitChar d).toNat = 0x30 + d :=
  toNat_bytes h

variable {ch : UInt8}

theorem digitChar_charDigit (h : IsDigit ch) : digitChar (charDigit ch) = ch := by
  obtain ⟨hlo, hhi⟩ := h
  apply UInt8.toNat_inj.mp
  rw [toNat_digitChar (by rw [charDigit]; omega), charDigit]
  omega

theorem isDigit_iff : (ch < 0x30 || ch > 0x39) = false ↔ IsDigit ch := by
  simp only [Bool.or_eq_false_iff, decide_eq_false_iff_not, IsDigit, gt_iff_lt,
    UInt8.lt_iff_toNat_lt, UInt8.reduceToNat]
  omega

theorem accumulate_eq_some {text : List UInt8} {acc index : ℕ} :
    accumulate acc text = some index ↔
      (∀ ch ∈ text, IsDigit ch) ∧
        (text.map charDigit).foldl (fun acc d => acc * 10 + d) acc = index := by
  induction text generalizing acc with
  | nil => simp [accumulate]
  | cons ch text ih =>
    unfold accumulate
    cases hd : (ch < 0x30 || ch > 0x39) with
    | true =>
      have hnot : ¬ IsDigit ch := by
        rw [← isDigit_iff, hd]
        simp
      simp [hnot]
    | false =>
      have hdigit := isDigit_iff.mp hd
      simp only [Bool.false_eq_true, if_false, ih, List.mem_cons, forall_eq_or_imp, hdigit,
        true_and, List.map_cons, List.foldl_cons]
      rfl

theorem bytes_isDigit_iff : bytes.IsDigit ch ↔ IsDigit ch := by
  constructor
  · rintro ⟨d, hd, rfl⟩
    rw [IsDigit, toNat_bytes hd]
    omega
  · intro h
    obtain ⟨hlo, hhi⟩ := h
    exact ⟨charDigit ch, by rw [charDigit]; omega, digitChar_charDigit ⟨hlo, hhi⟩⟩

/-- The bytes of an index's key. -/
theorem propertyKeyToArrayIndex_eq_some {text : List UInt8} {n : ℕ} :
    propertyKeyToArrayIndex text = some n ↔
      n < 2 ^ 32 - 1 ∧ text = (Decimal.numeral n).map digitChar := by
  have hwrite : (Decimal.numeral n).map digitChar = bytes.write n := rfl
  rw [hwrite, Decimal.Alphabet.eq_write_iff]
  unfold propertyKeyToArrayIndex kMaxArrayIndex
  constructor
  · intro h
    split_ifs at h with hshape
    cases ha : accumulate 0 text with
    | none => simp [ha] at h
    | some index =>
      simp only [ha] at h
      split_ifs at h with hmax
      cases h
      obtain ⟨hdigits, hvalue⟩ := accumulate_eq_some.mp ha
      obtain ⟨hne, _, hlead⟩ := hshape
      refine ⟨by omega, ⟨by simpa using hne, ?_, hlead⟩, hvalue⟩
      intro ch hch
      exact bytes_isDigit_iff.mpr (hdigits ch hch)
  · rintro ⟨hn, hwritten, hread⟩
    have hlength : text.length ≤ 10 := by
      have htext := Decimal.Alphabet.eq_write_iff.mpr ⟨hwritten, hread⟩
      rw [htext, Decimal.Alphabet.write, List.length_map, Decimal.length_numeral_le (by decide)]
      omega
    have hloop : accumulate 0 text = some n :=
      accumulate_eq_some.mpr ⟨fun ch hch => bytes_isDigit_iff.mp (hwritten.digits ch hch), hread⟩
    rw [if_pos ⟨by simpa using hwritten.nonempty, hlength, hwritten.leading⟩]
    simp only [hloop]
    rw [if_neg (by omega)]

/-- The keys that are array indices. -/
theorem arrayIndex_iff {units : List UInt16} {n : ℕ} :
    propertyKeyToArrayIndex (toCString units) = some n ↔ n < 2 ^ 32 - 1 ∧ units = indexKey n := by
  rw [propertyKeyToArrayIndex_eq_some]
  apply and_congr_right
  intro _
  have hascii : ∀ b ∈ (Decimal.numeral n).map digitChar, b.toNat < 0x80 := by
    intro b hb
    obtain ⟨d, hd, rfl⟩ := List.mem_map.mp hb
    have hlt := (Decimal.numeral_canonical n).digit d hd
    rw [toNat_digitChar hlt]
    omega
  rw [toCString, Text.flatten_utf8_eq_iff hascii, List.map_map, indexKey]
  have hsame : (Decimal.numeral n).map (UInt8.toUInt16 ∘ digitChar) =
      (Decimal.numeral n).map fun d => UInt16.ofNat (0x30 + d) := by
    apply List.map_congr_left
    intro d hd
    have hlt := (Decimal.numeral_canonical n).digit d hd
    apply UInt16.toNat_inj.mp
    rw [Function.comp_apply, UInt8.toNat_toUInt16, toNat_digitChar hlt, UInt16.toNat_ofNat']
    omega
  rw [hsame]

variable {conversion : Conversion} {key : Key}

/-- The conversion names every key as it should. -/
theorem named_iff {name : Name} :
    Named conversion key name ↔ convert conversion key = name := by
  constructor
  · intro h
    cases h with
    | symbol => rfl
    | toString => rfl
    | index hn =>
      have := arrayIndex_iff.mpr ⟨hn, rfl⟩
      simp [convert, this]
    | other hother =>
      rename_i units
      cases hi : propertyKeyToArrayIndex (toCString units) with
      | none => simp [convert, hi]
      | some n =>
        obtain ⟨hn, he⟩ := arrayIndex_iff.mp hi
        exact absurd he (hother n hn)
  · rintro rfl
    cases key with
    | symbol id => exact .symbol
    | string units =>
      cases conversion with
      | numbersToStrings => exact .toString
      | keepNumbers =>
        cases hi : propertyKeyToArrayIndex (toCString units) with
        | none =>
          simp only [convert, hi]
          apply Named.other
          intro n hn he
          simp [arrayIndex_iff.mpr ⟨hn, he⟩] at hi
        | some n =>
          obtain ⟨hn, rfl⟩ := arrayIndex_iff.mp hi
          simp only [convert, hi]
          exact .index hn

/-- Two keys do not have one name. -/
theorem convert_injective (conversion : Conversion) : Function.Injective (convert conversion) := by
  intro a b hab
  have ha : Named conversion a (convert conversion b) := named_iff.mpr hab
  have hb : Named conversion b (convert conversion b) := named_iff.mpr rfl
  generalize convert conversion b = name at ha hb
  cases ha with
  | symbol =>
    cases hb with
    | symbol => rfl
  | toString =>
    cases hb with
    | toString => rfl
  | index hn =>
    cases hb with
    | index hn' => rfl
  | other hother =>
    cases hb with
    | other hother' => rfl

/-! ## What is collected -/

/-- The answer of the descriptor filter, when a proxy does not throw. -/
def included (filter : KeyFilter) (p : Property) : Bool :=
  match passesDescriptorFilter filter p with
  | .ok included => included
  | .error _ => false

/-- Whether the code lets a property through. -/
def passes (filter : KeyFilter) (p : Property) : Bool := listed filter p && included filter p

variable {filter : KeyFilter} {p : Property}

theorem listed_iff :
    listed filter p = true ↔
      (filter.skipStrings = true → ∃ id, p.key = .symbol id) ∧
        (filter.skipSymbols = true → ∃ units, p.key = .string units) ∧
          (filter.enumerable = true → p.enumerable = true) := by
  unfold listed
  cases hk : p.key with
  | string units =>
    cases filter.skipStrings <;> cases filter.enumerable <;> simp
  | symbol id =>
    cases filter.skipSymbols <;> cases filter.enumerable <;> simp

theorem descriptor_iff :
    included filter p = true ↔
      (filter.writable = true → ∃ configurable, p.asked = .flags true configurable) ∧
        (filter.configurable = true → ∃ writable, p.asked = .flags writable true) := by
  unfold included passesDescriptorFilter
  cases hw : filter.writable <;> cases hc : filter.configurable <;> cases ha : p.asked <;>
    simp

theorem passes_iff :
    passes filter p = true ↔ Passes filter p := by
  unfold passes
  rw [Bool.and_eq_true, listed_iff, descriptor_iff]
  constructor
  · rintro ⟨⟨hstrings, hsymbols, henumerable⟩, hwritable, hconfigurable⟩
    exact ⟨hstrings, hsymbols, henumerable, hwritable, hconfigurable⟩
  · intro h
    exact ⟨⟨h.strings, h.symbols, h.enumerable⟩, h.writable, h.configurable⟩

/-- The properties of an object that are let through. -/
def Level.passed (filter : KeyFilter) (level : Level) : List Property :=
  level.own.filter (passes filter)

/-- The keys an object adds. -/
def Level.added (filter : KeyFilter) (level : Level) : List Key :=
  if level.fails then [] else (level.passed filter).map Property.key

variable {arr names : List Name}

/-- What `append_tab` adds to the array when no proxy throws. -/
theorem appendTab_ok {tab : List Property} (h : appendTab filter conversion tab arr = .ok names) :
    names = arr ++ ((tab.filter (included filter)).map Property.key).map (convert conversion) := by
  induction tab generalizing arr with
  | nil =>
    simp only [appendTab, Except.ok.injEq] at h
    simp [h]
  | cons p tab ih =>
    cases hp : passesDescriptorFilter filter p with
    | error status => simp [appendTab, hp, bind, Except.bind] at h
    | ok included =>
      cases included with
      | false =>
        have hrest : appendTab filter conversion tab arr = .ok names := by
          simpa [appendTab, hp, bind, Except.bind] using h
        rw [ih hrest]
        simp [included, hp]
      | true =>
        have hrest : appendTab filter conversion tab (arr ++ [convert conversion p.key]) =
            .ok names := by
          simpa [appendTab, hp, bind, Except.bind] using h
        rw [ih hrest]
        simp [included, hp]

variable {level : Level}

theorem appendTab_level {tab : List Property} (ht : getOwnPropertyNames filter level = some tab)
    (h : appendTab filter conversion tab arr = .ok names) :
    names = arr ++ (level.added filter).map (convert conversion) := by
  unfold getOwnPropertyNames at ht
  split_ifs at ht with hfails
  simp only [Option.some.injEq] at ht
  subst ht
  rw [appendTab_ok h, List.filter_filter]
  simp only [Level.added, Level.passed, hfails]
  congr 4
  funext p
  rw [passes, Bool.and_comm]

theorem appendPrototypes_ok {protos : List Level}
    (h : appendPrototypes filter conversion protos arr = .ok names) :
    names = arr ++ (protos.flatMap (Level.added filter)).map (convert conversion) := by
  induction protos generalizing arr with
  | nil =>
    simp only [appendPrototypes, Except.ok.injEq] at h
    simp [h]
  | cons proto protos ih =>
    cases ht : getOwnPropertyNames filter proto with
    | none =>
      simp only [appendPrototypes, ht] at h
      have hfails : proto.fails = true := by
        unfold getOwnPropertyNames at ht
        split_ifs at ht with hfails
        exact hfails
      rw [ih h]
      simp [Level.added, hfails]
    | some tab =>
      cases ha : appendTab filter conversion tab arr with
      | error status => simp [appendPrototypes, ht, ha, bind, Except.bind] at h
      | ok mid =>
        have hrest : appendPrototypes filter conversion protos mid = .ok names := by
          simpa [appendPrototypes, ht, ha, bind, Except.bind] using h
        rw [ih hrest, appendTab_level ht ha]
        simp

/-- The keys a call collects. -/
def collected (mode : Mode) (filter : KeyFilter) (own : Level) (protos : List Level) : List Key :=
  match mode with
  | .includePrototypes => (own :: protos).flatMap (Level.added filter)
  | .ownOnly => own.added filter

/-- The names of a call that succeeds. -/
theorem getPropertyNames_ok {mode : Mode} {own : Level} {protos : List Level}
    (h : getPropertyNames mode filter conversion (.object own protos) = .ok names) :
    own.fails = false ∧
      names = (collected mode filter own protos).map (convert conversion) := by
  unfold getPropertyNames at h
  cases ht : getOwnPropertyNames filter own with
  | none => simp [ht] at h
  | some tab =>
    have hfails : own.fails = false := by
      unfold getOwnPropertyNames at ht
      split_ifs at ht with hfails
      simpa using hfails
    refine ⟨hfails, ?_⟩
    cases ha : appendTab filter conversion tab [] with
    | error status => simp [ht, ha, bind, Except.bind] at h
    | ok arr =>
      have harr := appendTab_level ht ha
      cases mode with
      | ownOnly =>
        simp only [ht, ha, bind, Except.bind, pure, Except.pure, Except.ok.injEq] at h
        rw [← h, harr]
        simp [collected]
      | includePrototypes =>
        simp only [ht, ha, bind, Except.bind] at h
        rw [appendPrototypes_ok h, harr]
        simp [collected]

/-! ## Shadowing -/

theorem mem_added :
    key ∈ level.added filter ↔
      level.fails = false ∧ ∃ p ∈ level.own, p.key = key ∧ Passes filter p := by
  unfold Level.added Level.passed
  cases level.fails with
  | true => simp
  | false =>
    simp only [Bool.false_eq_true, if_false, true_and, List.mem_map, List.mem_filter, passes_iff]
    constructor
    · rintro ⟨p, ⟨hp, hpass⟩, rfl⟩
      exact ⟨p, hp, rfl, hpass⟩
    · rintro ⟨p, hp, rfl, hpass⟩
      exact ⟨p, ⟨hp, hpass⟩, rfl⟩

theorem added_subset (h : key ∈ level.added filter) : key ∈ level.keys := by
  obtain ⟨_, p, hp, rfl, _⟩ := mem_added.mp h
  exact List.mem_map_of_mem hp

theorem nodup_added (filter : KeyFilter) (level : Level) : (level.added filter).Nodup := by
  unfold Level.added Level.passed
  split_ifs
  · exact List.nodup_nil
  · exact level.distinct.sublist (List.filter_sublist.map Property.key)

/-- Without shadowing the keys are distinct, and each is its nearest holder's. -/
theorem correct_of_unshadowed {chain : List Level} (h : Unshadowed filter chain) :
    (chain.flatMap (Level.added filter)).Nodup ∧
      ∀ key ∈ chain.flatMap (Level.added filter), NearestPasses filter chain key := by
  induction chain with
  | nil => simp
  | cons level rest ih =>
    obtain ⟨hlevel, hrest⟩ := List.pairwise_cons.mp h
    obtain ⟨hnodup, hnearest⟩ := ih hrest
    -- What a farther object adds is no key of this one.
    have hclear : ∀ key ∈ rest.flatMap (Level.added filter), key ∉ level.keys := by
      intro key hkey
      obtain ⟨far, hfar, hadded⟩ := List.mem_flatMap.mp hkey
      obtain ⟨hfails, p, hp, rfl, hpass⟩ := mem_added.mp hadded
      exact hlevel far hfar hfails p hp hpass
    rw [List.flatMap_cons]
    refine ⟨?_, ?_⟩
    · apply (nodup_added filter level).append hnodup
      intro key hkey hfar
      exact hclear key hfar (added_subset hkey)
    · intro key hkey
      rcases List.mem_append.mp hkey with hhere | hfarther
      · obtain ⟨hfails, hp⟩ := mem_added.mp hhere
        exact ⟨[], level, rest, rfl, by simp, hfails, hp⟩
      · obtain ⟨near, holder, far, hsplit, hnear, hholder⟩ := hnearest key hfarther
        refine ⟨level :: near, holder, far, by rw [hsplit]; rfl, ?_, hholder⟩
        intro l hl
        rcases List.mem_cons.mp hl with rfl | hl
        · exact hclear key hfarther
        · exact hnear l hl

/-- Distinct keys that are their nearest holders' are not shadowed. -/
theorem unshadowed_of_correct {chain : List Level}
    (hnodup : (chain.flatMap (Level.added filter)).Nodup)
    (hnearest : ∀ key ∈ chain.flatMap (Level.added filter), NearestPasses filter chain key) :
    Unshadowed filter chain := by
  induction chain with
  | nil => exact List.Pairwise.nil
  | cons level rest ih =>
    rw [List.flatMap_cons] at hnodup hnearest
    have hdisjoint := List.disjoint_of_nodup_append hnodup
    -- A key added farther on is not this object's, and its nearest holder is farther on too.
    have hfarther : ∀ key ∈ rest.flatMap (Level.added filter),
        key ∉ level.keys ∧ NearestPasses filter rest key := by
      intro key hkey
      obtain ⟨near, holder, far, hsplit, hnear, hholder⟩ :=
        hnearest key (List.mem_append_right _ hkey)
      cases near with
      | nil =>
        obtain ⟨rfl, _⟩ := List.cons_eq_cons.mp hsplit
        exact absurd hkey (hdisjoint (mem_added.mpr hholder))
      | cons l near =>
        obtain ⟨rfl, hrest⟩ := List.cons_eq_cons.mp hsplit
        exact ⟨hnear level (by simp), near, holder, far, hrest,
          fun l hl => hnear l (by simp [hl]), hholder⟩
    refine List.pairwise_cons.mpr ⟨?_, ih hnodup.of_append_right fun key hkey => (hfarther key hkey).2⟩
    intro far hfar hfails p hp hpass
    apply (hfarther p.key _).1
    exact List.mem_flatMap.mpr ⟨far, hfar, mem_added.mpr ⟨hfails, p, hp, rfl, hpass⟩⟩

/-- The names of keys are those the conversion gives them. -/
theorem forall₂_named {keys : List Key} :
    List.Forall₂ (Named conversion) keys names ↔ names = keys.map (convert conversion) := by
  induction keys generalizing names with
  | nil => simp
  | cons key keys ih =>
    cases names with
    | nil => simp
    | cons name names =>
      rw [List.forall₂_cons, named_iff, ih, List.map_cons, List.cons.injEq, eq_comm]

/-- A call that succeeds returns what it should exactly when it is asked for own keys alone, or
    no key that passes the filter on a farther object of the chain is a key of a nearer one. -/
theorem correct_iff_unshadowed {mode : Mode} {filter : KeyFilter} {conversion : Conversion}
    {own : Level} {protos : List Level} {names : List Name}
    (h : napiGetAllPropertyNames (.object own protos) mode filter conversion = .ok names) :
    Correct mode filter conversion own protos names ↔
      (mode = .includePrototypes → Unshadowed filter (own :: protos)) := by
  obtain ⟨hfails, hnames⟩ := getPropertyNames_ok h
  have hsame : ∀ keys, List.Forall₂ (Named conversion) keys names →
      keys = collected mode filter own protos := by
    intro keys hkeys
    have heq := forall₂_named.mp hkeys
    rw [hnames] at heq
    exact (List.map_injective_iff.mpr (convert_injective conversion) heq).symm
  have hforall := forall₂_named.mpr hnames
  cases mode with
  | ownOnly =>
    constructor
    · nofun
    · intro _
      refine ⟨_, hforall, own.passed filter, List.filter_sublist, ?_, ?_⟩
      · intro p hp
        rw [Level.passed, List.mem_filter, passes_iff]
        exact and_iff_right hp
      · simp [collected, Level.added, hfails]
  | includePrototypes =>
    constructor
    · intro hcorrect _
      obtain ⟨keys, hkeys, hnodup, hnearest⟩ := hcorrect
      obtain rfl := hsame keys hkeys
      exact unshadowed_of_correct hnodup hnearest
    · intro hun
      exact ⟨_, hforall, correct_of_unshadowed (hun rfl)⟩

/-- An own key `a` that is not enumerable, over a prototype whose `a` is. -/
def hidden : Level where
  own := [⟨.string [0x61], false, .flags true true⟩]
  distinct := by simp

def shown : Level where
  own := [⟨.string [0x61], true, .flags true true⟩]
  distinct := by simp

/-- `napi_get_property_names` of an object that hides a prototype's key. -/
theorem hidden_key_collected :
    napiGetPropertyNames (.object hidden [shown]) = .ok [.string [0x61]] ∧
      ¬ Correct .includePrototypes { enumerable := true, skipSymbols := true } .numbersToStrings
        hidden [shown] [.string [0x61]] := by
  have hrun : napiGetPropertyNames (.object hidden [shown]) = .ok [.string [0x61]] := by rfl
  refine ⟨hrun, ?_⟩
  intro hcorrect
  obtain ⟨keys, hkeys, _, hnearest⟩ := hcorrect
  have hkey : Key.string [0x61] ∈ keys := by
    cases hkeys with
    | cons hnamed hrest =>
      cases hnamed with
      | toString => simp
  obtain ⟨near, level, far, hsplit, hnear, _, p, hp, hpkey, hpass⟩ := hnearest _ hkey
  cases near with
  | nil =>
    obtain ⟨rfl, _⟩ := List.cons_eq_cons.mp hsplit
    simp only [hidden, List.mem_singleton] at hp
    subst hp
    have := hpass.enumerable rfl
    simp at this
  | cons l near =>
    obtain ⟨rfl, _⟩ := List.cons_eq_cons.mp hsplit
    exact hnear hidden (by simp) (by simp [Level.keys, hidden])

/-- An object with the index 0 and a key that is not enumerable. -/
def indexed : Level where
  own := [⟨.string [0x30], true, .flags true true⟩, ⟨.string [0x62], false, .flags true true⟩]
  distinct := by decide

/-- The enumerable keys of an object and of its prototype. -/
theorem inherited_keys_correct :
    Correct .includePrototypes { enumerable := true } .keepNumbers indexed [shown]
      [.number 0, .string [0x61]] :=
  (correct_iff_unshadowed
    (rfl : napiGetAllPropertyNames (.object indexed [shown]) .includePrototypes
      { enumerable := true } .keepNumbers = .ok [.number 0, .string [0x61]])).mpr fun _ => by
        simp [Unshadowed, indexed, shown, Level.keys]

end WasmerNapi.Quickjs.PropertyNames
