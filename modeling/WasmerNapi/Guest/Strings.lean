import WasmerNapi.Lib.Bytes
import WasmerNapi.Lib.Text

/-!
# Exporting a string to the guest

`napi_get_value_string_utf8`, `_latin1` and `_utf16` are written twice. The native backend has
the engine fill a buffer of its own and copies that out; the host-JS backend writes into guest
memory from JavaScript. Both are compared with `exported`: the longest prefix of whole characters
that fits before a terminator, or nothing but the length when there is no buffer.

The engine is a parameter, and `Documented` is what N-API says of it. `exporters_agree` is the
comparison; the two differ on a size larger than the whole memory, which only the native exporter
refuses.
-/

namespace WasmerNapi.Guest.Strings

inductive GuestStringEncoding
  | utf8
  | latin1
  | utf16
  deriving DecidableEq

/-- Bytes in a code unit. -/
def GuestStringEncoding.unit : GuestStringEncoding → ℕ
  | .utf8 => 1
  | .latin1 => 1
  | .utf16 => 2

/-- The characters of a string, each as its code units. -/
def chars : GuestStringEncoding → List UInt16 → List (List ℕ)
  | .utf8, s => (Text.utf8 s).map fun ch => ch.map UInt8.toNat
  | .latin1, s => s.map fun c => [c.toUInt8.toNat]
  | .utf16, s => s.map fun c => [c.toNat]

/-! ## The native backend -/

/-- `napi_get_value_string_*` of an engine: from a value (`none` is no string), a buffer and its
    size to the status, the buffer and `*result`. -/
abbrev Engine := Option (List UInt16) → Option (List ℕ) → ℕ → ℕ × List ℕ × ℕ

structure Engines where
  utf8 : Engine
  latin1 : Engine
  utf16 : Engine

def napiStringExpected : ℕ := 3

/-- What N-API says: with no buffer the whole length; else as much of the string as fits with a
    NUL after it, and how much that is. -/
structure Documented (enc : GuestStringEncoding) (engine : Engine) : Prop where
  length : ∀ s size, ∃ rest, engine (some s) none size = (0, rest, (chars enc s).flatten.length)
  copy : ∀ s hb size, 0 < size → size ≤ hb.length → ∃ rest,
    engine (some s) (some hb) size = (0, Text.fit (size - 1) (chars enc s) ++ 0 :: rest,
      (Text.fit (size - 1) (chars enc s)).length)
  typed : ∀ buf size, (engine none buf size).1 = napiStringExpected

structure Engines.Documented (en : Engines) : Prop where
  utf8 : Strings.Documented .utf8 en.utf8
  latin1 : Strings.Documented .latin1 en.latin1
  utf16 : Strings.Documented .utf16 en.utf16

/-- The bytes go in whole or not at all. -/
def writeGuestBytes (mem : List UInt8) (ptr : ℕ) (data : List UInt8) : Bool × List UInt8 :=
  if ptr + data.length ≤ mem.length then
    (true, Bytes.put mem ptr data)
  else (false, mem)

def writeGuestU32 (mem : List UInt8) (ptr val : ℕ) : Bool × List UInt8 :=
  writeGuestBytes mem ptr (Bytes.le 4 val)

def napiInvalidArg : ℕ := 1

/-- The exporter, for code units of `unit` bytes. `hb` is the buffer in host memory; whether the
    bytes could be written is not looked at. -/
def getValueString (unit : ℕ) (engine : Engine) (mem : List UInt8) (value : Option (List UInt16))
    (bp bs rp : ℕ) : ℕ × List UInt8 :=
  if mem.length < bs * unit then (napiInvalidArg, mem)
  else
    let hb := List.replicate bs 0
    let (status, hb, rl) := engine value (if 0 < bs then some hb else none) bs
    if status ≠ 0 then (status, mem)
    else
      let mem :=
        if bp ≠ 0 ∧ 0 < bs then
          (writeGuestBytes mem bp ((hb.take (min bs (rl + 1))).flatMap (Bytes.le unit))).2
        else mem
      (0, if rp ≠ 0 then (writeGuestU32 mem rp rl).2 else mem)

def guestNapiGetValueStringUtf8 (en : Engines) := getValueString 1 en.utf8
def guestNapiGetValueStringLatin1 (en : Engines) := getValueString 1 en.latin1
def guestNapiGetValueStringUtf16 (en : Engines) := getValueString 2 en.utf16

/-- The native import of an encoding. -/
def native (en : Engines) : GuestStringEncoding → List UInt8 → Option (List UInt16) → ℕ → ℕ → ℕ →
    ℕ × List UInt8
  | .utf8 => guestNapiGetValueStringUtf8 en
  | .latin1 => guestNapiGetValueStringLatin1 en
  | .utf16 => guestNapiGetValueStringUtf16 en

/-! ## The host-JS backend -/

/-- A `WebAssembly.Memory` and the length of the view cached for it, 0 when there is none or it
    is detached. A memory never shrinks, so the view is no longer than the memory. -/
structure Memory where
  bytes : List UInt8
  viewed : ℕ := 0
  viewed_le : viewed ≤ bytes.length := by exact Nat.zero_le _

def Memory.view (m : Memory) (stop : ℕ) : Memory :=
  if stop > m.viewed ∨ m.viewed = 0 then
    { bytes := m.bytes, viewed := m.bytes.length, viewed_le := le_rfl }
  else m

/-- What a checked write stores; the check was made by the caller. -/
def Memory.set (m : Memory) (ptr : ℕ) (data : List UInt8) (h : ptr + data.length ≤ m.viewed) :
    Memory :=
  { bytes := Bytes.put m.bytes ptr data
    viewed := m.viewed
    viewed_le := by
      rw [Bytes.length_put (h.trans m.viewed_le)]
      exact m.viewed_le }

/-- A write of `data` through the view, or nothing when it would leave the memory. -/
def Memory.write (m : Memory) (ptr : ℕ) (data : List UInt8) : Bool × Memory :=
  let m := m.view (ptr + data.length)
  if h : ptr + data.length ≤ m.viewed then (true, m.set ptr data h) else (false, m)

def wasmerNapiGuestWriteU32 (m : Memory) (ptr value : ℕ) : Bool × Memory :=
  m.write ptr ((List.range 4).map fun i => UInt8.ofNat (value >>> (8 * i)))

/-- Bytes of the string in UTF-8; a lone surrogate is encoded as U+FFFD. -/
def utf8Length : List UInt16 → ℕ
  | [] => 0
  | [c] => if c.toNat < 0x80 then 1 else if c.toNat < 0x800 then 2 else 3
  | c :: d :: rest =>
    if c.toNat < 0x80 then 1 + utf8Length (d :: rest)
    else if c.toNat < 0x800 then 2 + utf8Length (d :: rest)
    else if Text.isHigh c && d &&& 0xfc00 == 0xdc00 then 4 + utf8Length rest
    else 3 + utf8Length (d :: rest)

/-- The length of the longest prefix of ASCII. -/
def asciiLength (value : List UInt16) : ℕ := (value.takeWhile fun c => c.toNat < 0x80).length

/-- What is to be stored at `buf` before the terminator. In UTF-8 only text that is not ASCII as
    far as it fits is encoded. In UTF-16 an aligned buffer is written through a `Uint16Array`, to
    the same effect. -/
def payload (value : List UInt16) (size : ℕ) : GuestStringEncoding → List UInt8
  | .utf8 =>
    let length := min value.length (size - 1)
    if asciiLength (value.take length) < length then
      let encoded := (Text.utf8 value).flatten
      encoded.take (Text.backOff Text.isContinuation encoded (min encoded.length (size - 1)))
    else (value.take length).map UInt16.toUInt8
  | .latin1 => (value.take (min value.length (size - 1))).map UInt16.toUInt8
  | .utf16 => (value.take (min value.length (size - 1))).flatMap fun c : UInt16 =>
    [c.toUInt8, (c >>> 8).toUInt8]

/-- The end of the export: the length is stored too, if it is asked for. -/
def reportLength (m : Memory) (resultPtr length : ℕ) : ℤ × Memory :=
  if resultPtr ≠ 0 then
    let r := wasmerNapiGuestWriteU32 m resultPtr length
    if !r.1 then (-2, r.2) else (length, r.2)
  else (length, m)

/-- The length reported, -1 when the value is no string, or -2 when a write would leave guest
    memory. -/
def wasmerNapiGuestWriteString (m : Memory) (value : Option (List UInt16))
    (buf size resultPtr : ℕ) (enc : GuestStringEncoding) : ℤ × Memory :=
  match value with
  | none => (-1, m)
  | some value =>
    if buf = 0 ∨ size = 0 then
      reportLength m resultPtr (if enc = .utf8 then utf8Length value else value.length)
    else
      let data := payload value size enc
      let w := m.write buf (data ++ List.replicate enc.unit 0)
      if !w.1 then (-2, w.2) else reportLength w.2 resultPtr (data.length / enc.unit)

def writeGuestStringValue (m : Memory) (value : Option (List UInt16)) (buf size resultPtr : ℕ)
    (enc : GuestStringEncoding) : ℕ × Memory :=
  let (written, m) := wasmerNapiGuestWriteString m value buf size resultPtr enc
  if written = -1 then (napiStringExpected, m)
  else if written < 0 then (napiInvalidArg, m)
  else (0, m)

/-! ## What is exported -/

/-- The bytes stored at `buf`, if any, and the length reported. -/
structure Export where
  data : List UInt8
  length : ℕ

/-- With no buffer or no size only the whole length; else the longest prefix of whole characters
    that fits with its terminator. -/
def exported (enc : GuestStringEncoding) (s : List UInt16) (buf size : ℕ) : Export :=
  if buf = 0 ∨ size = 0 then { data := [], length := (chars enc s).flatten.length }
  else
    let units := Text.fit (size - 1) (chars enc s)
    { data := (units ++ [0]).flatMap (Bytes.le enc.unit), length := units.length }

/-- Every byte that has to be stored lies in the memory. -/
def Export.Fits (x : Export) (mem : List UInt8) (buf rp : ℕ) : Prop :=
  (x.data ≠ [] → buf + x.data.length ≤ mem.length) ∧ (rp ≠ 0 → rp + 4 ≤ mem.length)

/-- The memory after the two stores. -/
def Export.stored (x : Export) (mem : List UInt8) (buf rp : ℕ) : List UInt8 :=
  let mem := if x.data = [] then mem else Bytes.put mem buf x.data
  if rp = 0 then mem else Bytes.put mem rp (Bytes.le 4 x.length)

instance (x : Export) (mem : List UInt8) (buf rp : ℕ) : Decidable (x.Fits mem buf rp) :=
  inferInstanceAs (Decidable ((_ → _) ∧ (_ → _)))

/-! ### The host-JS writer -/

theorem viewed_view_lt_iff {m : Memory} {stop : ℕ} :
    (m.view stop).viewed < stop ↔ m.bytes.length < stop := by
  have hle := m.viewed_le
  unfold Memory.view
  split
  · exact Iff.rfl
  · omega

@[simp] theorem bytes_view (m : Memory) (stop : ℕ) : (m.view stop).bytes = m.bytes := by
  unfold Memory.view
  split <;> rfl

/-- A write is checked against the memory, however old the view is. -/
theorem write_cases (m : Memory) (ptr : ℕ) (data : List UInt8) :
    (ptr + data.length ≤ m.bytes.length ∧ (m.write ptr data).1 = true ∧
      (m.write ptr data).2.bytes = Bytes.put m.bytes ptr data) ∨
    (m.bytes.length < ptr + data.length ∧ (m.write ptr data).1 = false) := by
  unfold Memory.write
  dsimp only
  split
  next hin =>
    left
    refine ⟨?_, rfl, ?_⟩
    · exact not_lt.mp fun hlt => absurd (viewed_view_lt_iff.mpr hlt) (not_lt.mpr hin)
    · show Bytes.put (m.view _).bytes ptr data = _
      rw [bytes_view]
  next hout =>
    right
    exact ⟨viewed_view_lt_iff.mp (not_le.mp hout), rfl⟩

theorem and_fc00 {x : ℕ} (h : x < 2 ^ 16) : x &&& 0xfc00 = x / 2 ^ 10 * 2 ^ 10 := by
  rw [← Nat.shiftRight_eq_div_pow, ← Nat.shiftLeft_eq, show (0xfc00 : ℕ) = (2 ^ 6 - 1) <<< 10 from rfl]
  apply Nat.eq_of_testBit_eq
  intro i
  rw [Nat.testBit_and, Nat.testBit_shiftLeft, Nat.testBit_shiftLeft, Nat.testBit_shiftRight,
    Nat.testBit_two_pow_sub_one]
  by_cases hi : 10 ≤ i
  · by_cases hi' : i < 16
    · simp [hi, show i - 10 < 6 by omega]
    · have hzero : x.testBit i = false := Nat.testBit_lt_two_pow
        (lt_of_lt_of_le h (Nat.pow_le_pow_right (by omega) (not_lt.mp hi')))
      simp [hi, hzero]
  · simp [hi]

/-- The mask of the source selects the low surrogates. -/
theorem isLow_eq (d : UInt16) : (d &&& 0xfc00 == 0xdc00) = Text.isLow d := by
  rw [Bool.eq_iff_iff, beq_iff_eq, ← UInt16.toNat_inj, UInt16.toNat_and]
  simp only [Text.isLow, Bool.and_eq_true, decide_eq_true_eq, UInt16.le_iff_toNat_le,
    UInt16.reduceToNat]
  rw [and_fc00 d.toNat_lt]
  omega

theorem length_flatten_utf8_cons (c : Char) (cs : List Char) :
    ((c :: cs).map String.utf8EncodeChar).flatten.length =
      c.utf8Size + (cs.map String.utf8EncodeChar).flatten.length := by
  rw [List.map_cons, List.flatten_cons, List.length_append, String.length_utf8EncodeChar]

/-- The count of the source is the length of the encoding. -/
theorem utf8Length_eq (s : List UInt16) : utf8Length s = (Text.utf8 s).flatten.length := by
  unfold Text.utf8
  induction s using Text.scalars.induct with
  | case1 => rfl
  | case2 c =>
    rw [utf8Length, Text.scalars, length_flatten_utf8_cons, Text.utf8Size_unit]
    rfl
  | case3 c d rest hpair ih =>
    obtain ⟨hhigh, hlow⟩ := (Bool.and_eq_true _ _).mp hpair
    have hrange := (Text.isSurrogate_eq c).mp (by rw [hhigh]; rfl)
    rw [utf8Length, if_neg (by omega), if_neg (by omega), isLow_eq, if_pos hpair, Text.scalars,
      if_pos hpair, length_flatten_utf8_cons, Text.utf8Size_pair hhigh hlow, ih]
  | case4 c d rest hpair ih =>
    rw [utf8Length, isLow_eq, Text.scalars, if_neg hpair, if_neg hpair, length_flatten_utf8_cons,
      Text.utf8Size_unit, ih]
    split_ifs <;> rfl

/-! ### What it stores -/

theorem le_one_toNat (b : UInt8) : Bytes.le 1 b.toNat = [b] := by
  rw [Bytes.le, Bytes.le, UInt8.ofNat_toNat]

theorem le_two_toNat (c : UInt16) : Bytes.le 2 c.toNat = [c.toUInt8, (c >>> 8).toUInt8] := by
  rw [Bytes.le, Bytes.le, Bytes.le]
  have hlow : UInt8.ofNat c.toNat = c.toUInt8 := rfl
  have hhigh : UInt8.ofNat (c.toNat / 256) = (c >>> 8).toUInt8 := by
    apply UInt8.toNat_inj.mp
    rw [UInt8.toNat_ofNat', UInt16.toNat_toUInt8, UInt16.toNat_shiftRight, Nat.shiftRight_eq_div_pow]
    rfl
  rw [hlow, hhigh]

theorem flatMap_le_one (bytes : List UInt8) :
    (bytes.map UInt8.toNat).flatMap (Bytes.le 1) = bytes := by
  rw [List.flatMap_map]
  simp only [le_one_toNat]
  exact List.flatMap_singleton' bytes

theorem length_flatMap_le (n : ℕ) (units : List ℕ) :
    (units.flatMap (Bytes.le n)).length = n * units.length := by
  rw [List.length_flatMap]
  simp [Nat.mul_comm]

/-- ASCII as far as it fits is what fits. -/
theorem fit_utf8_ascii {s : List UInt16} {n : ℕ}
    (h : min s.length n ≤ asciiLength (s.take (min s.length n))) :
    Text.fit n (Text.utf8 s) = (s.take (min s.length n)).map UInt16.toUInt8 := by
  set k := min s.length n with hk
  have hascii : ∀ c ∈ s.take k, c.toNat < 0x80 := by
    have htake : (s.take k).takeWhile (fun c => c.toNat < 0x80) = s.take k := by
      apply (List.takeWhile_prefix _).eq_of_length_le
      refine le_trans ?_ h
      rw [List.length_take]
      exact Nat.min_le_left _ _
    intro c hc
    rw [← htake] at hc
    have hmem := List.mem_takeWhile_imp hc
    exact of_decide_eq_true hmem
  have hflat : ((s.take k).map fun c => [c.toUInt8]).flatten = (s.take k).map UInt16.toUInt8 := by
    rw [← List.flatMap_def, List.map_eq_flatMap]
  have hlen : ((s.take k).map fun c => [c.toUInt8]).flatten.length = k := by
    rw [hflat, List.length_map, List.length_take]
    omega
  have hsplit : Text.utf8 s = ((s.take k).map fun c => [c.toUInt8]) ++ Text.utf8 (s.drop k) := by
    rw [← Text.utf8_ascii hascii, List.take_append_drop]
  have hrest : Text.fit (n - k) (Text.utf8 (s.drop k)) = [] := by
    rcases Nat.lt_or_ge n s.length with hlt | hge
    · rw [show n - k = 0 by omega]
      refine Text.fit_zero fun ch hch => ?_
      exact List.length_pos_iff.mp (Text.coded_utf8 _ ch hch).pos
    · rw [List.drop_eq_nil_iff.mpr (by omega)]
      rfl
  rw [hsplit, Text.fit_append _ (by omega), hlen, hrest, List.append_nil, hflat]

theorem payload_eq (s : List UInt16) (size : ℕ) (enc : GuestStringEncoding) :
    payload s size enc = (Text.fit (size - 1) (chars enc s)).flatMap (Bytes.le enc.unit) := by
  cases enc with
  | utf8 =>
    rw [payload, chars, Text.fit_map]
    show _ = ((Text.fit (size - 1) (Text.utf8 s)).map UInt8.toNat).flatMap (Bytes.le 1)
    rw [flatMap_le_one]
    split
    next =>
      dsimp only
      rw [Text.backOff_flatten (Text.coded_utf8 s), Text.take_length_fit]
    next hascii =>
      exact (fit_utf8_ascii (not_lt.mp hascii)).symm
  | latin1 =>
    rw [payload, chars, Text.fit_map_singleton, Nat.min_comm, ← List.take_eq_take_min]
    show _ = ((s.take (size - 1)).map fun c => c.toUInt8.toNat).flatMap (Bytes.le 1)
    have hmap : (s.take (size - 1)).map (fun c => c.toUInt8.toNat) =
        ((s.take (size - 1)).map UInt16.toUInt8).map UInt8.toNat := by
      rw [List.map_map]
      rfl
    rw [hmap, flatMap_le_one]
  | utf16 =>
    rw [payload, chars, Text.fit_map_singleton, Nat.min_comm, ← List.take_eq_take_min, List.flatMap_map]
    simp only [GuestStringEncoding.unit, le_two_toNat]

/-- Without a buffer the whole length is counted unit by unit. -/
theorem whole_length (s : List UInt16) (enc : GuestStringEncoding) :
    (if enc = .utf8 then utf8Length s else s.length) = (chars enc s).flatten.length := by
  cases enc with
  | utf8 =>
    rw [if_pos rfl, utf8Length_eq, chars, ← List.map_flatten, List.length_map]
  | latin1 =>
    rw [if_neg (by decide), chars, ← List.flatMap_def, ← List.map_eq_flatMap, List.length_map]
  | utf16 =>
    rw [if_neg (by decide), chars, ← List.flatMap_def, ← List.map_eq_flatMap, List.length_map]

theorem unit_pos (enc : GuestStringEncoding) : 0 < enc.unit := by
  cases enc <;> decide

theorem le_zero (enc : GuestStringEncoding) :
    Bytes.le enc.unit 0 = List.replicate enc.unit 0 := by
  cases enc <;> rfl

theorem data_ne_nil (enc : GuestStringEncoding) (units : List ℕ) :
    (units ++ [0]).flatMap (Bytes.le enc.unit) ≠ [] := by
  rw [← List.length_pos_iff, length_flatMap_le, List.length_append]
  exact Nat.mul_pos (unit_pos enc) (Nat.succ_pos _)

theorem reportLength_cases (m : Memory) (rp length : ℕ) :
    ((rp ≠ 0 → rp + 4 ≤ m.bytes.length) ∧ (reportLength m rp length).1 = length ∧
      (reportLength m rp length).2.bytes =
        if rp = 0 then m.bytes else Bytes.put m.bytes rp (Bytes.le 4 length)) ∨
    (¬ (rp ≠ 0 → rp + 4 ≤ m.bytes.length) ∧ (reportLength m rp length).1 = -2) := by
  unfold reportLength wasmerNapiGuestWriteU32
  by_cases hrp : rp = 0
  · left
    rw [if_neg (not_not.mpr hrp), if_pos hrp]
    exact ⟨fun hne => absurd hrp hne, rfl, rfl⟩
  rw [if_pos hrp, ← Bytes.le_eq_map]
  rcases write_cases m rp (Bytes.le 4 length) with ⟨hin, hok, hbytes⟩ | ⟨hout, hfail⟩
  · left
    rw [Bytes.length_le] at hin
    simp only [hok, Bool.not_true, Bool.false_eq_true, if_false, hrp]
    exact ⟨fun _ => hin, trivial, hbytes⟩
  · right
    rw [Bytes.length_le] at hout
    simp only [hfail, Bool.not_false, if_true]
    exact ⟨fun h => absurd (h hrp) (not_le.mpr hout), trivial⟩

/-- The writer reports the length exported and stores it all, or fails. -/
theorem writeString_cases (m : Memory) (s : List UInt16) (buf size rp : ℕ)
    (enc : GuestStringEncoding) :
    ((exported enc s buf size).Fits m.bytes buf rp ∧
      (wasmerNapiGuestWriteString m (some s) buf size rp enc).1 =
        (exported enc s buf size).length ∧
      (wasmerNapiGuestWriteString m (some s) buf size rp enc).2.bytes =
        (exported enc s buf size).stored m.bytes buf rp) ∨
    (¬ (exported enc s buf size).Fits m.bytes buf rp ∧
      (wasmerNapiGuestWriteString m (some s) buf size rp enc).1 = -2) := by
  unfold wasmerNapiGuestWriteString exported Export.Fits Export.stored
  dsimp only
  by_cases hnone : buf = 0 ∨ size = 0
  · rw [if_pos hnone, if_pos hnone, whole_length]
    dsimp only
    rcases reportLength_cases m rp (chars enc s).flatten.length with
      ⟨hin, hlen, hbytes⟩ | ⟨hout, hfail⟩
    · left
      exact ⟨⟨fun h => absurd rfl h, hin⟩, hlen, hbytes⟩
    · right
      exact ⟨fun h => hout h.2, hfail⟩
  rw [if_neg hnone, if_neg hnone, payload_eq]
  dsimp only
  set units := Text.fit (size - 1) (chars enc s) with hunits
  have hterminated : units.flatMap (Bytes.le enc.unit) ++ List.replicate enc.unit 0 =
      (units ++ [0]).flatMap (Bytes.le enc.unit) := by
    rw [List.flatMap_append, List.flatMap_singleton, le_zero]
  have hlength : (units.flatMap (Bytes.le enc.unit)).length / enc.unit = units.length := by
    rw [length_flatMap_le, Nat.mul_div_cancel_left _ (unit_pos enc)]
  have hdata := data_ne_nil enc units
  rw [hterminated, hlength]
  rcases write_cases m buf ((units ++ [0]).flatMap (Bytes.le enc.unit)) with
    ⟨hin, hok, hbytes⟩ | ⟨hout, hfail⟩
  · rw [hok]
    simp only [Bool.not_true, Bool.false_eq_true, if_false, hdata]
    have hsame := Bytes.length_put hin
    rcases reportLength_cases (m.write buf ((units ++ [0]).flatMap (Bytes.le enc.unit))).2 rp
        units.length with ⟨hin', hlen, hbytes'⟩ | ⟨hout', hfail'⟩
    · left
      rw [hbytes, hsame] at hin'
      rw [hbytes] at hbytes'
      exact ⟨⟨fun _ => hin, hin'⟩, hlen, hbytes'⟩
    · right
      rw [hbytes, hsame] at hout'
      exact ⟨fun h => hout' h.2, hfail'⟩
  · right
    rw [hfail]
    exact ⟨fun h => absurd (h.1 hdata) (not_le.mpr hout), rfl⟩

/-- The host-JS export is `exported`, or `napi_invalid_arg` when that leaves the memory. -/
theorem writeGuestStringValue_cases (m : Memory) (s : List UInt16) (buf size rp : ℕ)
    (enc : GuestStringEncoding) :
    ((exported enc s buf size).Fits m.bytes buf rp ∧
      (writeGuestStringValue m (some s) buf size rp enc).1 = 0 ∧
      (writeGuestStringValue m (some s) buf size rp enc).2.bytes =
        (exported enc s buf size).stored m.bytes buf rp) ∨
    (¬ (exported enc s buf size).Fits m.bytes buf rp ∧
      (writeGuestStringValue m (some s) buf size rp enc).1 = napiInvalidArg) := by
  unfold writeGuestStringValue
  rcases writeString_cases m s buf size rp enc with ⟨hfits, hlen, hbytes⟩ | ⟨hfits, hfail⟩
  · left
    dsimp only
    rw [hlen, if_neg (by omega), if_neg (by omega)]
    exact ⟨hfits, rfl, hbytes⟩
  · right
    dsimp only
    rw [hfail, if_neg (by decide), if_pos (by decide)]
    exact ⟨hfits, rfl⟩

/-! ### The native exporter -/

section Native

variable {enc : GuestStringEncoding} {engine : Engine} {mem : List UInt8} {s : List UInt16}
  {bp bs rp : ℕ}

/-- With no size the engine is asked for the length alone. -/
theorem getValueString_zero (hdoc : Documented enc engine)
    (hfits : (exported enc s bp 0).Fits mem bp rp) :
    getValueString enc.unit engine mem (some s) bp 0 rp =
      (0, (exported enc s bp 0).stored mem bp rp) := by
  obtain ⟨rest, hengine⟩ := hdoc.length s 0
  have hexported : exported enc s bp 0 = { data := [], length := (chars enc s).flatten.length } :=
    if_pos (Or.inr rfl)
  rw [hexported] at hfits ⊢
  unfold getValueString Export.stored
  rw [if_neg (by omega)]
  dsimp only
  rw [if_neg (lt_irrefl 0), hengine]
  simp only [ne_eq, not_true_eq_false, if_false, lt_irrefl, and_false, if_true]
  by_cases hrp : rp = 0
  · rw [if_neg (not_not.mpr hrp), if_pos hrp]
  · rw [if_pos hrp, if_neg hrp, writeGuestU32, writeGuestBytes, Bytes.length_le,
      if_pos (hfits.2 hrp)]

/-- With a size the engine fills the host's buffer, and the part it filled is copied out. -/
theorem getValueString_pos (hdoc : Documented enc engine) (hbs : 0 < bs)
    (hsize : bs * enc.unit ≤ mem.length) (hfits : (exported enc s bp bs).Fits mem bp rp)
    (hbuf : bp = 0 → (chars enc s).flatten.length < bs) :
    getValueString enc.unit engine mem (some s) bp bs rp =
      (0, (exported enc s bp bs).stored mem bp rp) := by
  obtain ⟨rest, hengine⟩ := hdoc.copy s (List.replicate bs 0) bs hbs (by rw [List.length_replicate])
  set units := Text.fit (bs - 1) (chars enc s) with hunits
  have hlen : units.length ≤ bs - 1 := Text.length_fit_le _ _
  have htake : (units ++ 0 :: rest).take (min bs (units.length + 1)) = units ++ [0] := by
    rw [Nat.min_eq_right (by omega), List.take_length_add_append]
    rfl
  have hreport : ∀ mem' : List UInt8, mem'.length = mem.length →
      (if rp ≠ 0 then (writeGuestU32 mem' rp units.length).2 else mem') =
        if rp = 0 then mem' else Bytes.put mem' rp (Bytes.le 4 units.length) := by
    intro mem' hsame
    by_cases hrp : rp = 0
    · rw [if_neg (not_not.mpr hrp), if_pos hrp]
    · rw [if_pos hrp, if_neg hrp, writeGuestU32, writeGuestBytes, Bytes.length_le, hsame,
        if_pos (hfits.2 hrp)]
  unfold getValueString
  rw [if_neg (not_lt.mpr hsize)]
  dsimp only
  rw [if_pos hbs, hengine]
  dsimp only
  rw [if_neg (not_not.mpr rfl), htake]
  by_cases hbp : bp = 0
  · -- the buffer of the host is filled, and the whole string went in
    have hwhole : units.length = (chars enc s).flatten.length := by
      rw [hunits, Text.fit_of_le (by have := hbuf hbp; omega)]
    have hexported : exported enc s bp bs = { data := [], length := units.length } := by
      rw [exported, if_pos (Or.inl hbp), hwhole]
    have hskip : (if bp ≠ 0 ∧ 0 < bs then
        (writeGuestBytes mem bp ((units ++ [0]).flatMap (Bytes.le enc.unit))).2 else mem) = mem :=
      if_neg fun h => h.1 hbp
    rw [hskip, hreport mem rfl, hexported]
    rfl
  · have hexported : exported enc s bp bs =
        { data := (units ++ [0]).flatMap (Bytes.le enc.unit), length := units.length } := by
      rw [exported, if_neg (by omega)]
    have hdata := data_ne_nil enc units
    have hin := hfits.1 (by rw [hexported]; exact hdata)
    rw [hexported] at hin ⊢
    have hcopy : (if bp ≠ 0 ∧ 0 < bs then
        (writeGuestBytes mem bp ((units ++ [0]).flatMap (Bytes.le enc.unit))).2 else mem) =
        Bytes.put mem bp ((units ++ [0]).flatMap (Bytes.le enc.unit)) := by
      rw [if_pos ⟨hbp, hbs⟩, writeGuestBytes, if_pos hin]
    rw [hcopy, hreport _ (Bytes.length_put hin)]
    unfold Export.stored
    dsimp only
    rw [if_neg hdata]

variable {en : Engines}

theorem native_of_lt (h : mem.length < bs * enc.unit) (value : Option (List UInt16)) :
    native en enc mem value bp bs rp = (napiInvalidArg, mem) := by
  cases enc with
  | utf8 => exact if_pos h
  | latin1 => exact if_pos h
  | utf16 => exact if_pos h

theorem native_eq (hdoc : en.Documented) (hsize : bs * enc.unit ≤ mem.length)
    (hfits : (exported enc s bp bs).Fits mem bp rp)
    (hbuf : bp = 0 → bs = 0 ∨ (chars enc s).flatten.length < bs) :
    native en enc mem (some s) bp bs rp = (0, (exported enc s bp bs).stored mem bp rp) := by
  have hone : ∀ engine, Documented enc engine → getValueString enc.unit engine mem (some s) bp bs rp =
      (0, (exported enc s bp bs).stored mem bp rp) := by
    intro engine hengine
    rcases Nat.eq_zero_or_pos bs with hzero | hpos
    · subst hzero
      exact getValueString_zero hengine hfits
    · exact getValueString_pos hengine hpos hsize hfits fun hbp => (hbuf hbp).resolve_left (by omega)
  cases enc with
  | utf8 => exact hone en.utf8 hdoc.utf8
  | latin1 => exact hone en.latin1 hdoc.latin1
  | utf16 => exact hone en.utf16 hdoc.utf16

end Native

/-! ## The two together -/

/-- Where the size is no larger than the memory, every byte to be stored lies in it, and a null
    buffer comes with no size the string does not fit in, the two exporters do the same, and that
    is `exported`. A larger size the native exporter refuses before it looks at the string; the
    host-JS one fails exactly when a byte it has to store lies outside. -/
theorem exporters_agree {en : Engines} (hdoc : en.Documented) (m : Memory) (s : List UInt16)
    (bp bs rp : ℕ) (enc : GuestStringEncoding) :
    (m.bytes.length < bs * enc.unit →
      native en enc m.bytes (some s) bp bs rp = (napiInvalidArg, m.bytes)) ∧
    (¬ (exported enc s bp bs).Fits m.bytes bp rp →
      (writeGuestStringValue m (some s) bp bs rp enc).1 = napiInvalidArg) ∧
    ((exported enc s bp bs).Fits m.bytes bp rp →
      (writeGuestStringValue m (some s) bp bs rp enc).1 = 0 ∧
      (writeGuestStringValue m (some s) bp bs rp enc).2.bytes =
        (exported enc s bp bs).stored m.bytes bp rp ∧
      (bs * enc.unit ≤ m.bytes.length →
        (bp = 0 → bs = 0 ∨ (chars enc s).flatten.length < bs) →
        native en enc m.bytes (some s) bp bs rp =
          (0, (exported enc s bp bs).stored m.bytes bp rp))) := by
  refine ⟨fun hlt => native_of_lt hlt (some s), ?_, ?_⟩
  · intro hout
    rcases writeGuestStringValue_cases m s bp bs rp enc with ⟨hfits, _⟩ | ⟨_, hstatus⟩
    · exact absurd hfits hout
    · exact hstatus
  · intro hfits
    rcases writeGuestStringValue_cases m s bp bs rp enc with ⟨_, hstatus, hbytes⟩ | ⟨hout, _⟩
    · exact ⟨hstatus, hbytes, fun hsize hbuf => native_eq hdoc hsize hfits hbuf⟩
    · exact absurd hfits hout

/-- An engine that does what N-API says and no more. -/
def plainEngine (enc : GuestStringEncoding) : Engine
  | none, buf, _ => (napiStringExpected, buf.getD [], 0)
  | some s, none, _ => (0, [], (chars enc s).flatten.length)
  | some s, some hb, size =>
    let units := Text.fit (size - 1) (chars enc s)
    (0, units ++ 0 :: hb.drop (units.length + 1), units.length)

def plainEngines : Engines where
  utf8 := plainEngine .utf8
  latin1 := plainEngine .latin1
  utf16 := plainEngine .utf16

theorem plainEngine_documented (enc : GuestStringEncoding) : Documented enc (plainEngine enc) where
  length _ _ := ⟨[], rfl⟩
  copy _ _ _ _ _ := ⟨_, rfl⟩
  typed _ _ := rfl

theorem plainEngines_documented : plainEngines.Documented :=
  ⟨plainEngine_documented _, plainEngine_documented _, plainEngine_documented _⟩

/-- `aé😀` in UTF-8 into four bytes: the third character does not fit and is not split. -/
theorem truncated_exports_agree :
    let m : Memory := { bytes := List.replicate 32 0xff }
    let s : List UInt16 := [0x61, 0xe9, 0xd83d, 0xde00]
    ∃ bytes, native plainEngines .utf8 m.bytes (some s) 16 5 8 = (0, bytes) ∧
      (writeGuestStringValue m (some s) 16 5 8 .utf8).1 = 0 ∧
      (writeGuestStringValue m (some s) 16 5 8 .utf8).2.bytes = bytes ∧
      (bytes.drop 16).take 5 = [0x61, 0xc3, 0xa9, 0, 0xff] := by
  intro m s
  obtain ⟨_, _, hagree⟩ := exporters_agree plainEngines_documented m s 16 5 8 .utf8
  obtain ⟨hstatus, hbytes, hnative⟩ := hagree (by decide)
  exact ⟨_, hnative (by decide) (by decide), hstatus, hbytes, by decide⟩

/-- A size of one byte more than the memory, for a string of one: the native exporter refuses it,
    the host-JS exporter writes the two bytes it has to. -/
theorem large_size_not_agree : ¬ ∀ (en : Engines), en.Documented → ∀ (m : Memory) (s : List UInt16)
    (bp bs rp : ℕ) (enc : GuestStringEncoding),
    (native en enc m.bytes (some s) bp bs rp).1 =
      (writeGuestStringValue m (some s) bp bs rp enc).1 := by
  intro h
  set m : Memory := { bytes := List.replicate 65536 0 } with hm
  have hlen : m.bytes.length = 65536 := List.length_replicate
  have hsame := h plainEngines plainEngines_documented m [0x61] 16 65537 0 .utf8
  rw [native_of_lt (by rw [hlen]; decide)] at hsame
  rcases writeGuestStringValue_cases m [0x61] 16 65537 0 .utf8 with ⟨_, hok, _⟩ | ⟨hout, _⟩
  · rw [hok] at hsame
    cases hsame
  · apply hout
    refine ⟨fun _ => ?_, fun hne => absurd rfl hne⟩
    rw [hlen]
    decide

end WasmerNapi.Guest.Strings
