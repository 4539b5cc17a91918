import WasmerNapi.Guest.Strings

/-!
# The host-JS string writer, store by store

`wasmer_napi_guest_write_string` has one way to store a string for each encoding, and two where it
can choose: ASCII is stored unit by unit and other text from an encoder's bytes, and UTF-16 goes
through a `Uint16Array` where `buf` is aligned and byte by byte where it is not. Here it is written
with all of them, and shown to be the writer of `Guest.Strings`, which has one store.

The result pointer comes last. A call that fails on it has stored the text.
-/

namespace WasmerNapi.Guest.StringExport

open Strings

/-! ## The writer -/

/-- `bytes[start + i] = data[i]`, one after the other. -/
def setBytes (mem : List UInt8) (start : ℕ) : List UInt8 → List UInt8
  | [] => mem
  | b :: data => setBytes (mem.set start b) (start + 1) data

/-- `units[i] = c`, from `i` on, in a `Uint16Array` that begins at `start`. -/
def setUnits (mem : List UInt8) (start i : ℕ) : List UInt16 → List UInt8
  | [] => mem
  | c :: units => setUnits (Bytes.put mem (start + 2 * i) (Bytes.le 2 c.toNat)) start (i + 1) units

/-- `bytes[start + 2 * i] = c` and `bytes[start + 2 * i + 1] = c >>> 8`, from `i` on. -/
def setHalves (mem : List UInt8) (start i : ℕ) : List UInt16 → List UInt8
  | [] => mem
  | c :: units =>
    setHalves ((mem.set (start + 2 * i) c.toUInt8).set (start + 2 * i + 1) (c >>> 8).toUInt8)
      start (i + 1) units

/-- The memory with other bytes, of which there are as many. -/
def setMemory (m : Memory) (bytes : List UInt8) : Memory where
  bytes := bytes
  viewed := min m.viewed bytes.length
  viewed_le := Nat.min_le_right ..

/-- UTF-8: what the encoder made, if it was asked, and how many bytes are stored. -/
def utf8Text (value : List UInt16) (size : ℕ) : Option (List UInt8) × ℕ :=
  let length := min value.length (size - 1)
  if asciiLength (value.take length) < length then
    let encoded := (Text.utf8 value).flatten
    (some encoded, Text.backOff Text.isContinuation encoded (min encoded.length (size - 1)))
  else (none, length)

def writeUtf8 (m : Memory) (value : List UInt16) (buf size resultPtr : ℕ) : ℤ × Memory :=
  let text := utf8Text value size
  let stop := buf + text.2 + 1
  let m := m.view stop
  if stop > m.viewed then (-2, m)
  else
    let stored := match text.1 with
      | some encoded => Bytes.put m.bytes buf (encoded.take text.2)
      | none => setBytes m.bytes buf ((value.take text.2).map UInt16.toUInt8)
    reportLength (setMemory m (stored.set (buf + text.2) 0)) resultPtr text.2

def writeUnits (m : Memory) (value : List UInt16) (buf size resultPtr unit : ℕ) : ℤ × Memory :=
  let length := min value.length (size - 1)
  let stop := buf + (length + 1) * unit
  let m := m.view stop
  if stop > m.viewed then (-2, m)
  else
    let stored :=
      if unit = 1 then
        (setBytes m.bytes buf ((value.take length).map UInt16.toUInt8)).set (buf + length) 0
      else if buf % 2 = 0 then setUnits m.bytes buf 0 (value.take length ++ [0])
      else
        ((setHalves m.bytes buf 0 (value.take length)).set (buf + 2 * length) 0).set
          (buf + 2 * length + 1) 0
    reportLength (setMemory m stored) resultPtr length

def wasmerNapiGuestWriteString (m : Memory) (value : Option (List UInt16))
    (buf size resultPtr : ℕ) (enc : GuestStringEncoding) : ℤ × Memory :=
  match value with
  | none => (-1, m)
  | some value =>
    if buf = 0 ∨ size = 0 then
      reportLength m resultPtr (if enc = .utf8 then utf8Length value else value.length)
    else if enc = .utf8 then writeUtf8 m value buf size resultPtr
    else writeUnits m value buf size resultPtr enc.unit

/-! ## One store -/

section Stores

variable {mem : List UInt8} {start i : ℕ}

theorem set_eq_put {b : UInt8} (h : start < mem.length) : mem.set start b = Bytes.put mem start [b] := by
  rw [List.set_eq_take_cons_drop b h, Bytes.put, List.append_assoc, List.singleton_append,
    List.length_singleton]

/-- Stores that follow each other are one store. -/
theorem setBytes_eq {data : List UInt8} (h : start + data.length ≤ mem.length) :
    setBytes mem start data = Bytes.put mem start data := by
  induction data generalizing mem start with
  | nil => exact (Bytes.put_nil mem start).symm
  | cons b data ih =>
    rw [List.length_cons] at h
    have hset : mem.set start b = Bytes.put mem start [b] := set_eq_put (by omega)
    have hlen : start + 1 + data.length ≤ (mem.set start b).length := by
      rw [List.length_set]
      omega
    rw [setBytes, ih hlen, hset]
    exact Bytes.put_put (by omega) [b] data

theorem setUnits_eq {units : List UInt16} (h : start + 2 * (i + units.length) ≤ mem.length) :
    setUnits mem start i units =
      Bytes.put mem (start + 2 * i) (units.flatMap fun c => Bytes.le 2 c.toNat) := by
  induction units generalizing mem i with
  | nil => exact (Bytes.put_nil ..).symm
  | cons c units ih =>
    rw [List.length_cons] at h
    have hlen : (Bytes.put mem (start + 2 * i) (Bytes.le 2 c.toNat)).length = mem.length := by
      apply Bytes.length_put
      rw [Bytes.length_le]
      omega
    have hstart : start + 2 * i ≤ mem.length := by omega
    have hput := Bytes.put_put hstart (Bytes.le 2 c.toNat)
      (units.flatMap fun c => Bytes.le 2 c.toNat)
    rw [Bytes.length_le] at hput
    rw [setUnits, ih (by omega), List.flatMap_cons, ← hput]
    congr 1

/-- Both ways of storing UTF-16 are the same. -/
theorem setHalves_eq_setUnits {units : List UInt16}
    (h : start + 2 * (i + units.length) ≤ mem.length) :
    setHalves mem start i units = setUnits mem start i units := by
  induction units generalizing mem i with
  | nil => rfl
  | cons c units ih =>
    rw [List.length_cons] at h
    have hfirst : mem.set (start + 2 * i) c.toUInt8 =
        Bytes.put mem (start + 2 * i) [c.toUInt8] := set_eq_put (by omega)
    have hboth : (mem.set (start + 2 * i) c.toUInt8).set (start + 2 * i + 1) (c >>> 8).toUInt8 =
        Bytes.put mem (start + 2 * i) (Bytes.le 2 c.toNat) := by
      rw [set_eq_put (by rw [List.length_set]; omega), hfirst, le_two_toNat]
      exact Bytes.put_put (by omega) [c.toUInt8] [(c >>> 8).toUInt8]
    have hlen : (Bytes.put mem (start + 2 * i) (Bytes.le 2 c.toNat)).length = mem.length := by
      apply Bytes.length_put
      rw [Bytes.length_le]
      omega
    rw [setHalves, hboth, setUnits, ih (by omega)]

/-- The terminator is one more code unit. -/
theorem setHalves_concat (units : List UInt16) (c : UInt16) :
    setHalves mem start i (units ++ [c]) =
      ((setHalves mem start i units).set (start + 2 * (i + units.length)) c.toUInt8).set
        (start + 2 * (i + units.length) + 1) (c >>> 8).toUInt8 := by
  induction units generalizing mem i with
  | nil => rfl
  | cons d units ih =>
    rw [List.cons_append, setHalves, ih, setHalves, List.length_cons]
    have hindex : i + 1 + units.length = i + (units.length + 1) := by omega
    rw [hindex]

theorem setBytes_concat (data : List UInt8) (b : UInt8) :
    setBytes mem start (data ++ [b]) = (setBytes mem start data).set (start + data.length) b := by
  induction data generalizing mem start with
  | nil => rfl
  | cons d data ih =>
    rw [List.cons_append, setBytes, ih, setBytes, List.length_cons]
    have hindex : start + 1 + data.length = start + (data.length + 1) := by omega
    rw [hindex]

end Stores

/-! ## The two writers -/

section Writers

variable {m : Memory} {value : List UInt16} {buf size resultPtr : ℕ}

/-- A store that was checked, in one of the two ways. -/
theorem setMemory_put {data : List UInt8} (h : buf + data.length ≤ m.viewed) :
    setMemory m (Bytes.put m.bytes buf data) = m.set buf data h := by
  have hlen := Bytes.length_put (h.trans m.viewed_le)
  unfold setMemory Memory.set
  congr 1
  rw [hlen]
  exact Nat.min_eq_left m.viewed_le

/-- A writer that checks where its text ends, stores it and reports a length does what one write
    does. -/
theorem report_write (stored : List UInt8 → List UInt8) {data : List UInt8} {stop length : ℕ}
    (hstop : stop = buf + data.length)
    (hstored : ∀ mem : List UInt8, buf + data.length ≤ mem.length →
      stored mem = Bytes.put mem buf data) :
    (if stop > (m.view stop).viewed then ((-2 : ℤ), m.view stop)
      else reportLength (setMemory (m.view stop) (stored (m.view stop).bytes)) resultPtr length) =
    if !(m.write buf data).1 then (-2, (m.write buf data).2)
      else reportLength (m.write buf data).2 resultPtr length := by
  subst hstop
  unfold Memory.write
  dsimp only
  by_cases hin : buf + data.length ≤ (m.view (buf + data.length)).viewed
  · rw [if_neg (not_lt.mpr hin), dif_pos hin,
      hstored _ (hin.trans (m.view (buf + data.length)).viewed_le), setMemory_put hin]
    rfl
  · rw [if_pos (not_le.mp hin), dif_neg hin]
    rfl

theorem backOff_le {α : Type} (cont : α → Bool) (l : List α) (n : ℕ) :
    Text.backOff cont l n ≤ n := by
  induction n with
  | zero => exact le_rfl
  | succ n ih =>
    rw [Text.backOff]
    split
    · exact le_rfl
    · split
      · exact ih.trans (Nat.le_succ n)
      · exact le_rfl

/-- Text and terminator, stored one after the other. -/
theorem put_set {text : List UInt8} {mem : List UInt8} (hfits : buf + (text ++ [0]).length ≤ mem.length) :
    (Bytes.put mem buf text).set (buf + text.length) 0 = Bytes.put mem buf (text ++ [0]) := by
  rw [List.length_append, List.length_singleton] at hfits
  have hput : (Bytes.put mem buf text).length = mem.length := Bytes.length_put (by omega)
  rw [set_eq_put (by omega)]
  exact Bytes.put_put (by omega) text [0]

theorem setBytes_set {text : List UInt8} {mem : List UInt8}
    (hfits : buf + (text ++ [0]).length ≤ mem.length) :
    (setBytes mem buf text).set (buf + text.length) 0 = Bytes.put mem buf (text ++ [0]) := by
  rw [← setBytes_concat]
  exact setBytes_eq hfits

theorem length_take_min (n : ℕ) :
    ((value.take (min value.length n)).map UInt16.toUInt8).length = min value.length n := by
  rw [List.length_map, List.length_take]
  exact Nat.min_eq_left (Nat.min_le_left ..)

theorem writeUtf8_eq :
    writeUtf8 m value buf size resultPtr =
      let data := payload value size .utf8
      let w := m.write buf (data ++ [0])
      if !w.1 then (-2, w.2) else reportLength w.2 resultPtr data.length := by
  unfold writeUtf8 utf8Text payload
  dsimp only
  by_cases hascii : asciiLength (value.take (min value.length (size - 1))) <
      min value.length (size - 1)
  · -- The encoder's bytes are stored at once.
    simp only [if_pos hascii]
    set encoded := (Text.utf8 value).flatten
    set length := Text.backOff Text.isContinuation encoded (min encoded.length (size - 1))
    have htake : (encoded.take length).length = length := by
      rw [List.length_take]
      exact Nat.min_eq_left ((backOff_le ..).trans (Nat.min_le_left ..))
    rw [htake]
    refine report_write (fun mem => (Bytes.put mem buf (encoded.take length)).set (buf + length) 0)
      ?_ ?_
    · rw [List.length_append, htake]
      rfl
    · intro mem hfits
      have hput := put_set hfits
      rwa [htake] at hput
  · -- The text is ASCII as far as it fits.
    simp only [if_neg hascii]
    set text := (value.take (min value.length (size - 1))).map UInt16.toUInt8 with htext
    have hlen : text.length = min value.length (size - 1) := length_take_min (size - 1)
    rw [← hlen]
    refine report_write (fun mem => (setBytes mem buf text).set (buf + text.length) 0) ?_ ?_
    · rw [List.length_append]
      rfl
    · intro mem hfits
      exact setBytes_set hfits

theorem writeUnits_latin1_eq :
    writeUnits m value buf size resultPtr 1 =
      let data := payload value size .latin1
      let w := m.write buf (data ++ [0])
      if !w.1 then (-2, w.2) else reportLength w.2 resultPtr data.length := by
  unfold writeUnits payload
  dsimp only
  simp only [if_true]
  set text := (value.take (min value.length (size - 1))).map UInt16.toUInt8 with htext
  have hlen : text.length = min value.length (size - 1) := length_take_min (size - 1)
  rw [← hlen]
  refine report_write (fun mem => (setBytes mem buf text).set (buf + text.length) 0) ?_ ?_
  · rw [List.length_append, Nat.mul_one]
    rfl
  · intro mem hfits
    exact setBytes_set hfits

/-- The units of UTF-16 with their terminator, whether they go in whole or byte by byte. -/
theorem stored_utf16 {units : List UInt16} {mem : List UInt8}
    (hfits : buf + 2 * (units.length + 1) ≤ mem.length) :
    (if buf % 2 = 0 then setUnits mem buf 0 (units ++ [0])
      else ((setHalves mem buf 0 units).set (buf + 2 * units.length) 0).set
        (buf + 2 * units.length + 1) 0) =
      Bytes.put mem buf ((units ++ [0]).flatMap fun c : UInt16 => Bytes.le 2 c.toNat) := by
  have hroom : buf + 2 * (0 + (units ++ [0]).length) ≤ mem.length := by
    rw [List.length_append, List.length_singleton, Nat.zero_add]
    exact hfits
  have hunits := setUnits_eq hroom
  rw [Nat.mul_zero, Nat.add_zero] at hunits
  split_ifs
  · exact hunits
  · have hconcat := @setHalves_concat mem buf 0 units 0
    rw [Nat.zero_add] at hconcat
    calc ((setHalves mem buf 0 units).set (buf + 2 * units.length) 0).set
          (buf + 2 * units.length + 1) 0
      _ = setHalves mem buf 0 (units ++ [0]) := hconcat.symm
      _ = setUnits mem buf 0 (units ++ [0]) := setHalves_eq_setUnits hroom
      _ = _ := hunits

theorem writeUnits_utf16_eq :
    writeUnits m value buf size resultPtr 2 =
      let data := payload value size .utf16
      let w := m.write buf (data ++ [0, 0])
      if !w.1 then (-2, w.2) else reportLength w.2 resultPtr (data.length / 2) := by
  unfold writeUnits payload
  dsimp only
  simp only [if_neg (show ¬ (2 : ℕ) = 1 by decide)]
  set units := value.take (min value.length (size - 1)) with hunits
  have hlen : units.length = min value.length (size - 1) := by
    rw [hunits, List.length_take]
    exact Nat.min_eq_left (Nat.min_le_left ..)
  have hdata : (units.flatMap fun c : UInt16 => [c.toUInt8, (c >>> 8).toUInt8]).length =
      2 * units.length := by
    rw [List.length_flatMap]
    simp [Nat.mul_comm]
  rw [← hlen, hdata, Nat.mul_div_cancel_left _ (by decide : 0 < 2)]
  refine report_write (fun mem => if buf % 2 = 0 then setUnits mem buf 0 (units ++ [0])
    else ((setHalves mem buf 0 units).set (buf + 2 * units.length) 0).set
      (buf + 2 * units.length + 1) 0) ?_ ?_
  · rw [List.length_append, hdata]
    show _ = buf + (2 * units.length + 2)
    ring
  · intro mem hfits
    rw [List.length_append, hdata] at hfits
    have hstored := stored_utf16 hfits
    simp only [le_two_toNat] at hstored
    rw [List.flatMap_append] at hstored
    exact hstored

end Writers

/-- Store by store or all at once, a string is written the same. -/
theorem writeString_eq (m : Memory) (value : Option (List UInt16)) (buf size resultPtr : ℕ)
    (enc : GuestStringEncoding) :
    wasmerNapiGuestWriteString m value buf size resultPtr enc =
      Strings.wasmerNapiGuestWriteString m value buf size resultPtr enc := by
  cases value with
  | none => rfl
  | some value =>
    unfold wasmerNapiGuestWriteString Strings.wasmerNapiGuestWriteString
    dsimp only
    by_cases hnone : buf = 0 ∨ size = 0
    · rw [if_pos hnone, if_pos hnone]
    rw [if_neg hnone, if_neg hnone]
    cases enc with
    | utf8 =>
      rw [if_pos rfl, writeUtf8_eq, GuestStringEncoding.unit, Nat.div_one]
      rfl
    | latin1 =>
      rw [if_neg (by decide), GuestStringEncoding.unit, writeUnits_latin1_eq, Nat.div_one]
      rfl
    | utf16 =>
      rw [if_neg (by decide)]
      exact writeUnits_utf16_eq

/-! ## What a call leaves -/

/-- `units` is the longest prefix of whole characters for which there is room. -/
def LongestPrefix (room : ℕ) (characters : List (List ℕ)) (units : List ℕ) : Prop :=
  ∃ k, units = (characters.take k).flatten ∧ units.length ≤ room ∧
    (k < characters.length → room < (characters.take (k + 1)).flatten.length)

/-- What a call that stores `data` at `buf` and reports `length` returns and leaves. The text is
    checked before it is stored, the result pointer when the text has been stored. -/
structure Leaves (m : Memory) (buf : ℕ) (data : List UInt8) (length resultPtr : ℕ)
    (r : ℤ × Memory) : Prop where
  outside : m.bytes.length < buf + data.length → r.1 = -2 ∧ r.2.bytes = m.bytes
  silent : buf + data.length ≤ m.bytes.length → resultPtr = 0 →
    r.1 = length ∧ r.2.bytes = Bytes.put m.bytes buf data
  reported : buf + data.length ≤ m.bytes.length → resultPtr ≠ 0 →
    resultPtr + 4 ≤ m.bytes.length →
    r.1 = length ∧ r.2.bytes = Bytes.put (Bytes.put m.bytes buf data) resultPtr (Bytes.le 4 length)
  late : buf + data.length ≤ m.bytes.length → resultPtr ≠ 0 → m.bytes.length < resultPtr + 4 →
    r.1 = -2 ∧ r.2.bytes = Bytes.put m.bytes buf data

/-- A write that leaves the memory changes nothing in it. -/
theorem bytes_write_fail {m : Memory} {ptr : ℕ} {data : List UInt8}
    (h : m.bytes.length < ptr + data.length) : (m.write ptr data).2.bytes = m.bytes := by
  unfold Memory.write
  dsimp only
  rw [dif_neg (not_le.mpr (viewed_view_lt_iff.mpr h))]
  exact bytes_view m _

/-- The report at the end, after the text. -/
theorem reportLength_leaves {m m' : Memory} {buf length resultPtr : ℕ} {data : List UInt8}
    (hin : buf + data.length ≤ m.bytes.length) (hput : m'.bytes = Bytes.put m.bytes buf data) :
    Leaves m buf data length resultPtr (reportLength m' resultPtr length) := by
  have hlen : m'.bytes.length = m.bytes.length := by
    rw [hput]
    exact Bytes.length_put hin
  refine ⟨fun hout => absurd hin (not_le.mpr hout), ?_, ?_, ?_⟩
  · intro _ hrp
    rw [reportLength, if_neg (not_not.mpr hrp)]
    exact ⟨rfl, hput⟩
  · intro _ hrp hrange
    rcases reportLength_cases m' resultPtr length with ⟨_, hlength, hbytes⟩ | ⟨hout, _⟩
    · rw [if_neg hrp, hput] at hbytes
      exact ⟨hlength, hbytes⟩
    · exact absurd (fun _ => hlen.symm ▸ hrange) hout
  · intro _ hrp hrange
    rcases reportLength_cases m' resultPtr length with ⟨hok, _⟩ | ⟨_, hfail⟩
    · have := hok hrp
      omega
    · refine ⟨hfail, ?_⟩
      unfold reportLength wasmerNapiGuestWriteU32
      rw [if_pos hrp, ← Bytes.le_eq_map]
      rw [← hlen, ← Bytes.length_le 4 length] at hrange
      dsimp only
      split_ifs
      · exact (bytes_write_fail hrange).trans hput
      · exact (bytes_write_fail hrange).trans hput

/-- The writer leaves the longest prefix of whole characters that fits with its terminator: in
    Latin-1 and UTF-16 a unit is a character. -/
theorem writeString_longest (m : Memory) (s : List UInt16) (buf size resultPtr : ℕ)
    (enc : GuestStringEncoding) :
    (buf = 0 ∨ size = 0 →
      Leaves m 0 [] (chars enc s).flatten.length resultPtr
        (wasmerNapiGuestWriteString m (some s) buf size resultPtr enc)) ∧
    (buf ≠ 0 → size ≠ 0 → ∃ units, LongestPrefix (size - 1) (chars enc s) units ∧
      (enc = .latin1 → units = (s.take (min s.length (size - 1))).map fun c => c.toUInt8.toNat) ∧
      (enc = .utf16 → units = (s.take (min s.length (size - 1))).map UInt16.toNat) ∧
      Leaves m buf ((units ++ [0]).flatMap (Bytes.le enc.unit)) units.length resultPtr
        (wasmerNapiGuestWriteString m (some s) buf size resultPtr enc)) := by
  rw [writeString_eq]
  unfold Strings.wasmerNapiGuestWriteString
  dsimp only
  constructor
  · intro hnone
    rw [if_pos hnone, whole_length]
    exact reportLength_leaves (Nat.zero_le _) (Bytes.put_nil m.bytes 0).symm
  intro hbuf hsize
  rw [if_neg (not_or.mpr ⟨hbuf, hsize⟩), payload_eq]
  set units := Text.fit (size - 1) (chars enc s) with hunits
  have hterminated : units.flatMap (Bytes.le enc.unit) ++ List.replicate enc.unit 0 =
      (units ++ [0]).flatMap (Bytes.le enc.unit) := by
    rw [List.flatMap_append, List.flatMap_singleton, le_zero]
  have hlength : (units.flatMap (Bytes.le enc.unit)).length / enc.unit = units.length := by
    rw [length_flatMap_le, Nat.mul_div_cancel_left _ (unit_pos enc)]
  obtain ⟨k, hk, hlongest⟩ := Text.fit_longest (size - 1) (chars enc s)
  refine ⟨units, ⟨k, hk, Text.length_fit_le _ _, hlongest⟩, ?_, ?_, ?_⟩
  · rintro rfl
    rw [hunits, chars, Text.fit_map_singleton, List.take_eq_take_min, Nat.min_comm]
  · rintro rfl
    rw [hunits, chars, Text.fit_map_singleton, List.take_eq_take_min, Nat.min_comm]
  · rw [hterminated, hlength]
    rcases write_cases m buf ((units ++ [0]).flatMap (Bytes.le enc.unit)) with
      ⟨hin, hok, hbytes⟩ | ⟨hout, hfail⟩
    · simp only [hok, Bool.not_true, Bool.false_eq_true, if_false]
      exact reportLength_leaves hin hbytes
    · simp only [hfail, Bool.not_false, if_true]
      exact ⟨fun _ => ⟨rfl, bytes_write_fail hout⟩, fun hin => absurd hin (not_le.mpr hout),
        fun hin => absurd hin (not_le.mpr hout), fun hin => absurd hin (not_le.mpr hout)⟩

/-- `ab` and a lone surrogate in UTF-16, at an odd address and with room for two units. -/
theorem writeString_longest_odd : ∃ units, units = [0x61, 0x62] ∧
    Leaves { bytes := List.replicate 32 0xff } 17 ((units ++ [0]).flatMap (Bytes.le 2)) units.length 8
      (wasmerNapiGuestWriteString { bytes := List.replicate 32 0xff } (some [0x61, 0x62, 0xd800])
        17 3 8 .utf16) := by
  obtain ⟨units, -, -, hunits, hleaves⟩ :=
    (writeString_longest { bytes := List.replicate 32 0xff } [0x61, 0x62, 0xd800] 17 3 8 .utf16).2
      (by decide) (by decide)
  exact ⟨units, hunits rfl, hleaves⟩

/-- `ab` at 4 in a memory of 16 bytes. With the result pointer at 14 the call fails and the text is
    there; with the result pointer at 4 it does not fail, and the length is where the text was. -/
theorem result_pointer_last :
    ¬ (∀ (m : Memory) (s : List UInt16) (buf size resultPtr : ℕ) (enc : GuestStringEncoding),
      (wasmerNapiGuestWriteString m (some s) buf size resultPtr enc).1 = -2 →
      (wasmerNapiGuestWriteString m (some s) buf size resultPtr enc).2.bytes = m.bytes) ∧
    ¬ (∀ (m : Memory) (s : List UInt16) (buf size resultPtr : ℕ) (enc : GuestStringEncoding),
      buf ≠ 0 → size ≠ 0 →
      0 ≤ (wasmerNapiGuestWriteString m (some s) buf size resultPtr enc).1 →
      ∀ units, LongestPrefix (size - 1) (chars enc s) units →
        ((wasmerNapiGuestWriteString m (some s) buf size resultPtr enc).2.bytes.drop buf).take
          ((units ++ [0]).flatMap (Bytes.le enc.unit)).length =
          (units ++ [0]).flatMap (Bytes.le enc.unit)) := by
  constructor
  · intro h
    have hclean := h { bytes := List.replicate 16 0xff } [0x61, 0x62] 4 8 14 .utf8 (by decide)
    revert hclean
    decide
  · intro h
    have hlongest : LongestPrefix (8 - 1) (chars .utf8 [0x61, 0x62]) [0x61, 0x62] :=
      ⟨2, by decide, by decide, fun hlt => absurd hlt (by decide)⟩
    have hstored := h { bytes := List.replicate 16 0xff } [0x61, 0x62] 4 8 4 .utf8 (by decide)
      (by decide) (by decide) _ hlongest
    revert hstored
    decide

end WasmerNapi.Guest.StringExport
