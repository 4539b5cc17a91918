import WasmerNapi.Lib.Bytes

/-!
# The serializer and the deserializer of the QuickJS engine

`src/quickjs/src/internal/napi_serdes.cc`. A serializer is a vector that writes append to, a
deserializer a copy of such a vector and one offset that reads move. `JS_WriteObject2` and
`JS_ReadObject2` are the engine's own, a parameter here with what the two rely on.

A handle for what a read gives back is taken to be there: making one fails only when the host is
out of memory.

Every read moves the offset over what it read, but for `deserializer_read_value`, which moves it to
the end of the buffer. What was written behind a value is out of reach then.
-/

namespace WasmerNapi.Quickjs.Serdes

/-- The engine's own format of a value. -/
structure Engine (V : Type) where
  writeObject : V → Option (List UInt8)
  readObject : List UInt8 → Option V

/-- An encoding says itself where it ends: it is read back from every buffer that starts with it,
    and from a buffer of no bytes nothing is. -/
structure Engine.Inverts {V : Type} (e : Engine V) : Prop where
  reads : ∀ v bytes rest, e.writeObject v = some bytes → e.readObject (bytes ++ rest) = some v
  empty : e.readObject [] = none

/-- `AppendLittleEndian`, of a type of `width` bytes. -/
def appendLittleEndian (width : ℕ) (bytes : List UInt8) (value : UInt64) : List UInt8 :=
  bytes ++ (List.range width).map fun i => ((value >>> UInt64.ofNat (i * 8)) &&& 0xff).toUInt8

/-- A call of the serializer, with its arguments as the engine converts them: `none` is what is no
    number, or has no bytes. A double is its bits. -/
inductive Write (V : Type) where
  | uint32 (value : Option UInt32)
  | uint64 (hi lo : Option UInt32)
  | double (value : Option UInt64)
  | rawBytes (source : Option (List UInt8))
  | value (v : V)

section

variable {V : Type} (e : Engine V)

def serializerWriteValue (bytes : List UInt8) (v : V) : List UInt8 :=
  match e.writeObject v with
  | none => bytes
  | some encoded => bytes ++ encoded

def serializerWriteUint32 (bytes : List UInt8) : Option UInt32 → List UInt8
  | none => bytes
  | some value => appendLittleEndian 4 bytes value.toUInt64

def serializerWriteUint64 (bytes : List UInt8) : Option UInt32 → Option UInt32 → List UInt8
  | some hi, some lo => appendLittleEndian 8 bytes ((hi.toUInt64 <<< 32) ||| lo.toUInt64)
  | _, _ => bytes

/-- The bytes of the double as it stands in memory. -/
def serializerWriteDouble (bytes : List UInt8) : Option UInt64 → List UInt8
  | none => bytes
  | some value => bytes ++ Bytes.le 8 value.toNat

def serializerWriteRawBytes (bytes : List UInt8) : Option (List UInt8) → List UInt8
  | none => bytes
  | some source => bytes ++ source

def Write.perform (bytes : List UInt8) : Write V → List UInt8
  | .uint32 n => serializerWriteUint32 bytes n
  | .uint64 hi lo => serializerWriteUint64 bytes hi lo
  | .double bits => serializerWriteDouble bytes bits
  | .rawBytes source => serializerWriteRawBytes bytes source
  | .value v => serializerWriteValue e bytes v

/-- The buffer that is given out, and the bytes that stay behind. -/
def serializerReleaseBuffer (bytes : List UInt8) : List UInt8 × List UInt8 := (bytes, [])

/-- The vector of a deserializer is what stands in memory from `bytes.data()` on, and its size:
    what lies behind it is there to be read by mistake. -/
structure Deserializer where
  memory : ℕ → UInt8
  size : ℕ
  offset : ℕ

/-- A deserializer over `buffer`, in a memory that goes on with `beyond`. -/
def deserializerNew (buffer : List UInt8) (beyond : ℕ → UInt8) : Deserializer where
  memory i := (buffer[i]?).getD (beyond i)
  size := buffer.length
  offset := 0

/-- A call of the deserializer. The length is `none` when it is missing or no number. -/
inductive Read where
  | uint32
  | uint64
  | double
  | rawBytes (length : Option ℤ)
  | value

/-- What a read gives back. -/
inductive Result (V : Type) where
  | uint32 (value : UInt32)
  | uint64 (hi lo : UInt32)
  | double (value : UInt64)
  | offset (value : ℕ)
  | value (v : V)
  deriving DecidableEq

namespace Deserializer

/-- The bytes that `memcpy` and the engine take: `width` of them, from the offset on. -/
def slice (d : Deserializer) (width : ℕ) : List UInt8 :=
  (List.range width).map fun i => d.memory (d.offset + i)

/-- `ReadLittleEndian`. -/
def readLittleEndian (d : Deserializer) (width : ℕ) : Option (UInt64 × Deserializer) :=
  if d.offset > d.size ∨ width > d.size - d.offset ∨ width > 8 then none
  else
    some ((List.range width).foldl (fun value i =>
      value ||| (d.memory (d.offset + i)).toUInt64 <<< UInt64.ofNat (i * 8)) 0,
      { d with offset := d.offset + width })

/-- `deserializer_read_uint32`; `none` is an exception. -/
def readUint32 (d : Deserializer) : Option (Result V) × Deserializer :=
  match d.readLittleEndian 4 with
  | none => (none, d)
  | some (value, d) => (some (.uint32 value.toUInt32), d)

def readUint64 (d : Deserializer) : Option (Result V) × Deserializer :=
  match d.readLittleEndian 8 with
  | none => (none, d)
  | some (value, d) => (some (.uint64 (value >>> 32).toUInt32 value.toUInt32), d)

def readDouble (d : Deserializer) : Option (Result V) × Deserializer :=
  if d.offset > d.size ∨ 8 > d.size - d.offset then (none, d)
  else (some (.double (UInt64.ofNat (Bytes.ofLe (d.slice 8)))), { d with offset := d.offset + 8 })

def readRawBytes (d : Deserializer) : Option ℤ → Option (Result V) × Deserializer
  | none => (none, d)
  | some length =>
    if length < 0 ∨ d.offset > d.size ∨ length.toNat > d.size - d.offset then (none, d)
    else
      (some (.offset (UInt32.ofNat d.offset).toNat), { d with offset := d.offset + length.toNat })

def readValue (d : Deserializer) : Option (Result V) × Deserializer :=
  if d.offset > d.size then (none, d)
  else
    match e.readObject (d.slice (d.size - d.offset)) with
    | none => (none, d)
    | some v => (some (.value v), { d with offset := d.size })

def read (d : Deserializer) : Read → Option (Result V) × Deserializer
  | .uint32 => d.readUint32
  | .uint64 => d.readUint64
  | .double => d.readDouble
  | .rawBytes length => d.readRawBytes length
  | .value => d.readValue e

/-- Reads one after the other; one that throws does not keep the next from being made. -/
def readAll : Deserializer → List Read → List (Option (Result V)) × Deserializer
  | d, [] => ([], d)
  | d, r :: rs => (((d.read e r).1 :: (readAll (d.read e r).2 rs).1), (readAll (d.read e r).2 rs).2)

end Deserializer

/-- Something written, and the bytes it was written as. -/
inductive Item (V : Type) where
  | uint32 (n : UInt32)
  | uint64 (hi lo : UInt32)
  | double (bits : UInt64)
  | rawBytes (source : List UInt8)
  | value (v : V) (encoded : List UInt8)

/-- What a call writes: an argument of the wrong kind, or a value that the engine does not encode,
    is not written at all. -/
def Write.item : Write V → Option (Item V)
  | .uint32 n => n.map .uint32
  | .uint64 (some hi) (some lo) => some (.uint64 hi lo)
  | .uint64 _ _ => none
  | .double bits => bits.map .double
  | .rawBytes source => source.map .rawBytes
  | .value v => (e.writeObject v).map (.value v)

namespace Item

def bytes : Item V → List UInt8
  | .uint32 n => Bytes.le 4 n.toNat
  | .uint64 hi lo => Bytes.le 8 (hi.toNat * 2 ^ 32 + lo.toNat)
  | .double bits => Bytes.le 8 bits.toNat
  | .rawBytes source => source
  | .value _ encoded => encoded

/-- The read that matches. -/
def read : Item V → Read
  | .uint32 _ => .uint32
  | .uint64 _ _ => .uint64
  | .double _ => .double
  | .rawBytes source => .rawBytes (some source.length)
  | .value _ _ => .value

/-- What it is to give back, for an item that starts at `start`. -/
def result (start : ℕ) : Item V → Result V
  | .uint32 n => .uint32 n
  | .uint64 hi lo => .uint64 hi lo
  | .double bits => .double bits
  | .rawBytes _ => .offset start
  | .value v _ => .value v

/-- An item at `start` with `rest` behind it can be read without harm. -/
def Fits (start : ℕ) (rest : List UInt8) : Item V → Prop
  | .rawBytes _ => start < 2 ^ 32
  | .value _ _ => rest = []
  | _ => True

end Item

/-- The items that the calls write. -/
def items (ws : List (Write V)) : List (Item V) := ws.filterMap (Write.item e)

/-- The bytes of the items, one after the other. -/
def layout (is : List (Item V)) : List UInt8 := is.flatMap Item.bytes

def results : ℕ → List (Item V) → List (Option (Result V))
  | _, [] => []
  | start, i :: is => some (i.result start) :: results (start + i.bytes.length) is

/-- Raw bytes start below `2 ^ 32`, and no byte is written behind a value. -/
def AllFit : ℕ → List (Item V) → Prop
  | _, [] => True
  | start, i :: is => i.Fits start (layout is) ∧ AllFit (start + i.bytes.length) is

/-- The buffer that the calls make of an empty serializer. -/
def buffer (ws : List (Write V)) : List UInt8 :=
  (serializerReleaseBuffer (ws.foldl (Write.perform e) [])).1

/-- The reads that match the writes give back what was written, and end where the buffer does. -/
def RoundTrips (ws : List (Write V)) (beyond : ℕ → UInt8) : Prop :=
  let d := deserializerNew (buffer e ws) beyond
  let done := d.readAll e ((items e ws).map Item.read)
  done.1 = results 0 (items e ws) ∧ done.2.offset = done.2.size

/-- A read that fails leaves the offset where it is. -/
def FailuresKeep : Prop := ∀ (d : Deserializer) (r : Read), (d.read e r).1 = none → (d.read e r).2 = d

/-- Two deserializers with the same buffer and offset, whatever stands behind the buffer. -/
structure Deserializer.SameBuffer (d d' : Deserializer) : Prop where
  size : d.size = d'.size
  offset : d.offset = d'.offset
  memory : ∀ i < d.size, d.memory i = d'.memory i

/-- No read depends on what stands behind the buffer. -/
def ReadsWithin : Prop := ∀ (d d' : Deserializer) (r : Read), d.SameBuffer d' →
  (d.read e r).1 = (d'.read e r).1 ∧ (d.read e r).2.offset = (d'.read e r).2.offset

/-! ## What the calls write -/

theorem appendLittleEndian_eq (width : ℕ) (bytes : List UInt8) (value : UInt64) (hw : width ≤ 8) :
    appendLittleEndian width bytes value = bytes ++ Bytes.le width value.toNat := by
  rw [appendLittleEndian, Bytes.le_eq_map]
  congr 1
  refine List.map_congr_left ?_
  intro i hi
  have hi : i < width := List.mem_range.mp hi
  have hlow : (value >>> UInt64.ofNat (i * 8)).toNat = value.toNat >>> (8 * i) := by
    rw [UInt64.toNat_shiftRight, UInt64.toNat_ofNat', Nat.mod_eq_of_lt (show i * 8 < 2 ^ 64 by omega),
      Nat.mod_eq_of_lt (show i * 8 < 64 by omega), Nat.mul_comm]
  apply UInt8.toNat_inj.mp
  rw [UInt64.toNat_toUInt8, UInt64.toNat_and, hlow, UInt8.toNat_ofNat']
  show (value.toNat >>> (8 * i) &&& 2 ^ 8 - 1) % 2 ^ 8 = _
  rw [Nat.and_two_pow_sub_one_eq_mod, Nat.mod_mod]

theorem toNat_high_or_low (hi lo : UInt32) :
    ((hi.toUInt64 <<< 32) ||| lo.toUInt64).toNat = hi.toNat * 2 ^ 32 + lo.toNat := by
  have hhi := hi.toNat_lt
  have hshift : (hi.toUInt64 <<< 32).toNat = hi.toNat <<< 32 := by
    rw [UInt64.toNat_shiftLeft, UInt32.toNat_toUInt64]
    show hi.toNat <<< 32 % 2 ^ 64 = _
    apply Nat.mod_eq_of_lt
    rw [Nat.shiftLeft_eq]
    omega
  rw [UInt64.toNat_or, hshift, UInt32.toNat_toUInt64,
    ← Nat.shiftLeft_add_eq_or_of_lt lo.toNat_lt, Nat.shiftLeft_eq]

theorem perform_eq (bytes : List UInt8) (w : Write V) :
    w.perform e bytes = bytes ++ layout (w.item e).toList := by
  cases w with
  | uint32 n =>
    cases n with
    | none => simp [Write.perform, serializerWriteUint32, Write.item, layout]
    | some n =>
      simp [Write.perform, serializerWriteUint32, Write.item, layout, Item.bytes,
        appendLittleEndian_eq]
  | uint64 hi lo =>
    cases hi with
    | none => simp [Write.perform, serializerWriteUint64, Write.item, layout]
    | some hi =>
      cases lo with
      | none => simp [Write.perform, serializerWriteUint64, Write.item, layout]
      | some lo =>
        show appendLittleEndian 8 bytes _ = bytes ++ (Bytes.le 8 _ ++ [])
        rw [appendLittleEndian_eq 8 bytes _ (le_refl 8), toNat_high_or_low, List.append_nil]
  | double bits =>
    cases bits with
    | none => simp [Write.perform, serializerWriteDouble, Write.item, layout]
    | some bits => simp [Write.perform, serializerWriteDouble, Write.item, layout, Item.bytes]
  | rawBytes source =>
    cases source with
    | none => simp [Write.perform, serializerWriteRawBytes, Write.item, layout]
    | some source => simp [Write.perform, serializerWriteRawBytes, Write.item, layout, Item.bytes]
  | value v =>
    cases h : e.writeObject v with
    | none => simp [Write.perform, serializerWriteValue, Write.item, layout, h]
    | some encoded => simp [Write.perform, serializerWriteValue, Write.item, layout, Item.bytes, h]

theorem layout_cons (i : Item V) (is : List (Item V)) : layout (i :: is) = i.bytes ++ layout is := rfl

theorem layout_append (is js : List (Item V)) : layout (is ++ js) = layout is ++ layout js :=
  List.flatMap_append

theorem foldl_perform (ws : List (Write V)) (bytes : List UInt8) :
    ws.foldl (Write.perform e) bytes = bytes ++ layout (items e ws) := by
  induction ws generalizing bytes with
  | nil => simp [items, layout]
  | cons w ws ih =>
    have hitems : items e (w :: ws) = (w.item e).toList ++ items e ws := by
      cases h : w.item e with
      | none => simp [items, h]
      | some i => simp [items, h]
    rw [List.foldl_cons, ih, perform_eq, hitems, layout_append, List.append_assoc]

theorem buffer_eq (ws : List (Write V)) : buffer e ws = layout (items e ws) := by
  rw [buffer, foldl_perform]
  rfl

/-! ## What the calls read -/

namespace Deserializer

/-- What is left to read. -/
def rest (d : Deserializer) : List UInt8 := d.slice (d.size - d.offset)

@[simp] theorem length_slice (d : Deserializer) (width : ℕ) : (d.slice width).length = width := by
  simp [slice]

theorem slice_add (d : Deserializer) (n m : ℕ) :
    d.slice (n + m) = d.slice n ++ { d with offset := d.offset + n }.slice m := by
  rw [slice, List.range_add, List.map_append, List.map_map]
  congr 1
  refine List.map_congr_left ?_
  intro i _
  show d.memory (d.offset + (n + i)) = d.memory (d.offset + n + i)
  rw [Nat.add_assoc]

variable {d : Deserializer}

/-- `rest` starts with `bytes`, and goes on with `more`. -/
theorem rest_split {bytes more : List UInt8} (h : d.rest = bytes ++ more) :
    d.slice bytes.length = bytes ∧ { d with offset := d.offset + bytes.length }.rest = more ∧
      bytes.length ≤ d.size - d.offset := by
  have hlen : d.size - d.offset = bytes.length + more.length := by
    have hlen := congrArg List.length h
    rwa [rest, length_slice, List.length_append] at hlen
  rw [rest, hlen, slice_add] at h
  obtain ⟨hslice, hmore⟩ := List.append_inj h (length_slice d _)
  refine ⟨hslice, ?_, by omega⟩
  show slice _ (d.size - (d.offset + bytes.length)) = more
  rw [show d.size - (d.offset + bytes.length) = more.length by omega]
  exact hmore

theorem foldl_eq (d : Deserializer) (width : ℕ) (hw : width ≤ 8) :
    ((List.range width).foldl (fun value i =>
      value ||| (d.memory (d.offset + i)).toUInt64 <<< UInt64.ofNat (i * 8)) 0).toNat =
        Bytes.ofLe (d.slice width) := by
  induction width with
  | zero => rfl
  | succ n ih =>
    have hbyte : ((d.memory (d.offset + n)).toUInt64 <<< UInt64.ofNat (n * 8)).toNat =
        (d.memory (d.offset + n)).toNat <<< (8 * n) := by
      rw [UInt64.toNat_shiftLeft, UInt64.toNat_ofNat', UInt8.toNat_toUInt64,
        Nat.mod_eq_of_lt (show n * 8 < 2 ^ 64 by omega), Nat.mod_eq_of_lt (show n * 8 < 64 by omega),
        Nat.mul_comm n 8]
      apply Nat.mod_eq_of_lt
      have hb := (d.memory (d.offset + n)).toNat_lt
      have hp : 2 ^ (8 * n) ≤ 2 ^ 56 := Nat.pow_le_pow_right (by omega) (by omega)
      rw [Nat.shiftLeft_eq]
      calc _ < 2 ^ 8 * 2 ^ (8 * n) := Nat.mul_lt_mul_of_pos_right hb (Nat.two_pow_pos _)
        _ ≤ 2 ^ 8 * 2 ^ 56 := Nat.mul_le_mul_left _ hp
    have hslice : d.slice (n + 1) = d.slice n ++ [d.memory (d.offset + n)] := by
      rw [slice_add]
      rfl
    rw [List.range_succ, List.foldl_append, List.foldl_cons, List.foldl_nil, UInt64.toNat_or,
      ih (by omega), hbyte, hslice, Bytes.ofLe_shift, length_slice]

theorem readLittleEndian_eq {width n : ℕ} {more : List UInt8} (hw : width ≤ 8)
    (hn : n < 256 ^ width) (hoff : d.offset ≤ d.size) (h : d.rest = Bytes.le width n ++ more) :
    d.readLittleEndian width = some (UInt64.ofNat n, { d with offset := d.offset + width }) := by
  obtain ⟨hslice, -, hle⟩ := rest_split h
  rw [Bytes.length_le] at hslice hle
  rw [readLittleEndian, if_neg (by omega)]
  congr 2
  apply UInt64.toNat_inj.mp
  have hlt : n < 2 ^ 64 := lt_of_lt_of_le hn (by
    calc 256 ^ width ≤ 256 ^ 8 := Nat.pow_le_pow_right (by omega) hw
      _ = 2 ^ 64 := by norm_num)
  rw [foldl_eq d width hw, hslice, Bytes.ofLe_le hn, UInt64.toNat_ofNat', Nat.mod_eq_of_lt hlt]

theorem failures_keep : FailuresKeep e := by
  intro d r hnone
  cases r with
  | uint32 =>
    simp only [read, readUint32] at hnone ⊢
    cases h : d.readLittleEndian 4 with
    | none => rfl
    | some p => simp [h] at hnone
  | uint64 =>
    simp only [read, readUint64] at hnone ⊢
    cases h : d.readLittleEndian 8 with
    | none => rfl
    | some p => simp [h] at hnone
  | double =>
    simp only [read, readDouble] at hnone ⊢
    split at hnone
    · rw [if_pos ‹_›]
    · cases hnone
  | rawBytes length =>
    cases length with
    | none => rfl
    | some length =>
      simp only [read, readRawBytes] at hnone ⊢
      split at hnone
      · rw [if_pos ‹_›]
      · cases hnone
  | value =>
    simp only [read, readValue] at hnone ⊢
    split at hnone
    · rw [if_pos ‹_›]
    · rw [if_neg ‹_›]
      cases h : e.readObject (d.slice (d.size - d.offset)) with
      | none => rfl
      | some v => simp [h] at hnone

theorem SameBuffer.slice_eq {d' : Deserializer} (h : d.SameBuffer d') {width : ℕ}
    (hw : d.offset + width ≤ d.size) : d.slice width = d'.slice width := by
  refine List.map_congr_left ?_
  intro i hi
  have hi : i < width := List.mem_range.mp hi
  rw [← h.offset]
  exact h.memory _ (by omega)

theorem SameBuffer.readLittleEndian {d' : Deserializer} (h : d.SameBuffer d') (width : ℕ) :
    (d.readLittleEndian width).map (fun p => (p.1, p.2.offset)) =
      (d'.readLittleEndian width).map fun p => (p.1, p.2.offset) := by
  by_cases hin : d.offset > d.size ∨ width > d.size - d.offset ∨ width > 8
  · have hin' : d'.offset > d'.size ∨ width > d'.size - d'.offset ∨ width > 8 := by
      rwa [← h.offset, ← h.size]
    rw [Deserializer.readLittleEndian, if_pos hin, Deserializer.readLittleEndian, if_pos hin']
  · have hin' : ¬(d'.offset > d'.size ∨ width > d'.size - d'.offset ∨ width > 8) := by
      rwa [← h.offset, ← h.size]
    rw [Deserializer.readLittleEndian, if_neg hin, Deserializer.readLittleEndian, if_neg hin',
      Option.map_some, Option.map_some]
    have hvalue : d.slice width = d'.slice width := h.slice_eq (by omega)
    refine congrArg some (Prod.ext ?_ (by rw [h.offset]))
    apply UInt64.toNat_inj.mp
    rw [foldl_eq d width (by omega), foldl_eq d' width (by omega), hvalue]

theorem reads_within : ReadsWithin e := by
  intro d d' r h
  cases r with
  | uint32 =>
    have hread := h.readLittleEndian 4
    simp only [read, readUint32]
    cases hd : d.readLittleEndian 4 <;> cases hd' : d'.readLittleEndian 4 <;>
      simp_all [h.offset]
  | uint64 =>
    have hread := h.readLittleEndian 8
    simp only [read, readUint64]
    cases hd : d.readLittleEndian 8 <;> cases hd' : d'.readLittleEndian 8 <;>
      simp_all [h.offset]
  | double =>
    simp only [read, readDouble, ← h.offset, ← h.size]
    by_cases hin : d.offset > d.size ∨ 8 > d.size - d.offset
    · rw [if_pos hin, if_pos hin]
      exact ⟨rfl, h.offset⟩
    · rw [if_neg hin, if_neg hin, h.slice_eq (by omega)]
      exact ⟨rfl, rfl⟩
  | rawBytes length =>
    cases length with
    | none => exact ⟨rfl, h.offset⟩
    | some length =>
      simp only [read, readRawBytes, ← h.offset, ← h.size]
      by_cases hin : length < 0 ∨ d.offset > d.size ∨ length.toNat > d.size - d.offset
      · rw [if_pos hin, if_pos hin]
        exact ⟨rfl, h.offset⟩
      · rw [if_neg hin, if_neg hin]
        exact ⟨rfl, rfl⟩
  | value =>
    simp only [read, readValue, ← h.offset, ← h.size]
    by_cases hin : d.offset > d.size
    · rw [if_pos hin, if_pos hin]
      exact ⟨rfl, h.offset⟩
    · rw [if_neg hin, if_neg hin, h.slice_eq (by omega)]
      cases e.readObject (d'.slice (d.size - d.offset)) with
      | none => exact ⟨rfl, h.offset⟩
      | some v => exact ⟨rfl, rfl⟩

end Deserializer

/-! ## Reading back what was written -/

/-- The bytes of a value are those the engine gave for it. -/
def Item.Written : Item V → Prop
  | .value v encoded => e.writeObject v = some encoded
  | _ => True

variable {i : Item V}

theorem written_of_mem {ws : List (Write V)} (hi : i ∈ items e ws) : i.Written e := by
  obtain ⟨w, -, hitem⟩ := List.mem_filterMap.mp hi
  cases w with
  | value v =>
    obtain ⟨encoded, henc, rfl⟩ := Option.map_eq_some_iff.mp hitem
    exact henc
  | uint32 n =>
    obtain ⟨n, -, rfl⟩ := Option.map_eq_some_iff.mp hitem
    trivial
  | uint64 hi lo =>
    cases hi with
    | none => cases hitem
    | some hi =>
      cases lo with
      | none => cases hitem
      | some lo =>
        cases hitem
        trivial
  | double bits =>
    obtain ⟨bits, -, rfl⟩ := Option.map_eq_some_iff.mp hitem
    trivial
  | rawBytes source =>
    obtain ⟨source, -, rfl⟩ := Option.map_eq_some_iff.mp hitem
    trivial

/-- Where the read that matches leaves the offset: behind the item, but at the end of the buffer
    after a value. -/
def Item.next (d : Deserializer) : Item V → ℕ
  | .value _ _ => d.size
  | i => d.offset + i.bytes.length

variable {e}

variable {d : Deserializer}

/-- A read in front of its item gives it back, with the offset in 32 bits. -/
theorem read_item (h : e.Inverts) {more : List UInt8} (hw : i.Written e) (hoff : d.offset ≤ d.size)
    (hrest : d.rest = i.bytes ++ more) :
    d.read e i.read = (some (i.result (d.offset % 2 ^ 32)), { d with offset := i.next d }) := by
  obtain ⟨hslice, -, hle⟩ := Deserializer.rest_split hrest
  cases i with
  | uint32 n =>
    have hread := Deserializer.readLittleEndian_eq (by omega) n.toNat_lt hoff hrest
    simp [Item.read, Deserializer.read, Deserializer.readUint32, hread, Item.result, Item.next,
      Item.bytes]
  | uint64 hi lo =>
    have hhi := hi.toNat_lt
    have hlo := lo.toNat_lt
    have hlt : hi.toNat * 2 ^ 32 + lo.toNat < 256 ^ 8 := by omega
    have hread := Deserializer.readLittleEndian_eq (by omega) hlt hoff hrest
    have hhigh : (UInt64.ofNat (hi.toNat * 2 ^ 32 + lo.toNat) >>> 32).toUInt32 = hi := by
      apply UInt32.toNat_inj.mp
      rw [UInt64.toNat_toUInt32, UInt64.toNat_shiftRight, UInt64.toNat_ofNat']
      show (_ % 2 ^ 64) >>> 32 % 2 ^ 32 = _
      rw [Nat.shiftRight_eq_div_pow]
      omega
    have hlow : (UInt64.ofNat (hi.toNat * 2 ^ 32 + lo.toNat)).toUInt32 = lo := by
      apply UInt32.toNat_inj.mp
      rw [UInt64.toNat_toUInt32, UInt64.toNat_ofNat']
      omega
    rw [Item.read, Deserializer.read, Deserializer.readUint64, hread]
    dsimp only
    rw [hhigh, hlow]
    rfl
  | double bits =>
    rw [Item.bytes, Bytes.length_le] at hslice hle
    have hin : ¬(d.offset > d.size ∨ 8 > d.size - d.offset) := by omega
    rw [Item.read, Deserializer.read, Deserializer.readDouble, if_neg hin, hslice,
      Bytes.ofLe_le bits.toNat_lt, UInt64.ofNat_toNat]
    rfl
  | rawBytes source =>
    rw [Item.bytes] at hle
    have hin : ¬((source.length : ℤ) < 0 ∨ d.offset > d.size ∨
        (source.length : ℤ).toNat > d.size - d.offset) := by omega
    rw [Item.read, Deserializer.read, Deserializer.readRawBytes, if_neg hin, UInt32.toNat_ofNat',
      Int.toNat_natCast]
    rfl
  | value v encoded =>
    have hobject : e.readObject (d.slice (d.size - d.offset)) = some v := by
      show e.readObject d.rest = some v
      rw [hrest]
      exact h.reads v encoded more hw
    rw [Item.read, Deserializer.read, Deserializer.readValue, if_neg (by omega), hobject]
    rfl

/-- At the end of the buffer there is nothing to read. -/
theorem read_end (h : e.Inverts) (hoff : d.offset = d.size) (hne : i.bytes ≠ []) :
    (d.read e i.read).1 = none := by
  have hlittle : ∀ width, 0 < width → d.readLittleEndian width = none := by
    intro width hpos
    rw [Deserializer.readLittleEndian, if_pos (by omega)]
  cases i with
  | uint32 n => rw [Item.read, Deserializer.read, Deserializer.readUint32, hlittle 4 (by omega)]
  | uint64 hi lo => rw [Item.read, Deserializer.read, Deserializer.readUint64, hlittle 8 (by omega)]
  | double bits =>
    rw [Item.read, Deserializer.read, Deserializer.readDouble, if_pos (by omega)]
  | rawBytes source =>
    have hpos : 0 < source.length := List.length_pos_iff.mpr hne
    rw [Item.read, Deserializer.read, Deserializer.readRawBytes, if_pos (by omega)]
  | value v encoded =>
    have hslice : d.slice (d.size - d.offset) = [] := by
      rw [hoff, Nat.sub_self]
      rfl
    rw [Item.read, Deserializer.read, Deserializer.readValue, if_neg (by omega), hslice, h.empty]

theorem bytes_eq_nil (h : e.Inverts) (hw : i.Written e) (hnil : i.bytes = []) :
    i = .rawBytes [] := by
  cases i with
  | rawBytes source => exact congrArg Item.rawBytes hnil
  | value v encoded =>
    have hread := h.reads v encoded [] hw
    rw [show encoded = [] from hnil, List.append_nil, h.empty] at hread
    cases hread
  | uint32 n => cases hnil
  | uint64 hi lo => cases hnil
  | double bits => cases hnil

theorem none_not_mem_results (start : ℕ) (is : List (Item V)) : none ∉ results start is := by
  induction is generalizing start with
  | nil => simp [results]
  | cons i is ih => simp [results, ih]

/-- Once the offset is at the end, the next read of something throws. -/
theorem none_mem_readAll (h : e.Inverts) (hoff : d.offset = d.size) {is : List (Item V)}
    (hw : ∀ i ∈ is, i.Written e) (hne : layout is ≠ []) :
    none ∈ (d.readAll e (is.map Item.read)).1 := by
  induction is with
  | nil => exact absurd rfl hne
  | cons i is ih =>
    rw [List.map_cons, Deserializer.readAll]
    by_cases hnil : i.bytes = []
    · -- Only raw bytes are written as no byte at all, and reading none of them moves nothing.
      obtain rfl := bytes_eq_nil h (hw i (List.mem_cons_self ..)) hnil
      have hread : (d.read e (Item.rawBytes ([] : List UInt8) : Item V).read).2 = d := by
        rw [Item.read, Deserializer.read, Deserializer.readRawBytes, if_neg (by simp; omega)]
        rfl
      rw [hread]
      rw [layout_cons, hnil, List.nil_append] at hne
      exact List.mem_cons_of_mem _ (ih (fun i hi => hw i (List.mem_cons_of_mem _ hi)) hne)
    · rw [read_end h hoff hnil]
      exact List.mem_cons_self ..

/-- What is left is the items `is`: their reads give them back just when they all fit. -/
theorem readAll_iff (h : e.Inverts) {is : List (Item V)} (hw : ∀ i ∈ is, i.Written e)
    (hoff : d.offset ≤ d.size) (hrest : d.rest = layout is) :
    ((d.readAll e (is.map Item.read)).1 = results d.offset is ∧
      (d.readAll e (is.map Item.read)).2.offset = (d.readAll e (is.map Item.read)).2.size) ↔
        AllFit d.offset is := by
  induction is generalizing d with
  | nil =>
    have hlen := congrArg List.length hrest
    rw [Deserializer.rest, Deserializer.length_slice] at hlen
    have hend : d.offset = d.size := by
      have hzero : d.size - d.offset = 0 := hlen
      omega
    exact iff_of_true ⟨rfl, hend⟩ trivial
  | cons i is ih =>
    have hread := read_item h (hw i (List.mem_cons_self ..)) hoff hrest
    obtain ⟨-, hmore, hle⟩ := Deserializer.rest_split hrest
    have hmore : { d with offset := d.offset + i.bytes.length }.rest = layout is := hmore
    have hlen : d.size - (d.offset + i.bytes.length) = (layout is).length := by
      rw [← hmore, Deserializer.rest, Deserializer.length_slice]
    have hw' : ∀ j ∈ is, j.Written e := fun j hj => hw j (List.mem_cons_of_mem _ hj)
    rw [List.map_cons, Deserializer.readAll, hread, results, AllFit, List.cons.injEq, and_assoc]
    by_cases hend : i.next d = d.offset + i.bytes.length
    · -- The offset is behind the item: the rest is read as the rest of the items.
      have hfit : some (i.result (d.offset % 2 ^ 32)) = some (i.result d.offset) ↔
          i.Fits d.offset (layout is) := by
        cases i with
        | rawBytes source =>
          show _ ↔ d.offset < 2 ^ 32
          simp only [Item.result, Option.some.injEq, Result.offset.injEq]
          omega
        | value v encoded =>
          have hsize : d.size = d.offset + (Item.value v encoded).bytes.length := hend
          exact iff_of_true rfl (List.length_eq_zero_iff.mp (by omega))
        | uint32 n => exact iff_of_true rfl trivial
        | uint64 hi lo => exact iff_of_true rfl trivial
        | double bits => exact iff_of_true rfl trivial
      rw [hend, hfit]
      refine and_congr_right fun _ => ?_
      apply ih hw' _ hmore
      show d.offset + i.bytes.length ≤ d.size
      omega
    · -- A value with something behind it: the offset is at the end, and the next read throws.
      cases i with
      | value v encoded =>
        have hne : layout is ≠ [] := by
          intro hnil
          apply hend
          rw [hnil, List.length_nil] at hlen
          show d.size = _
          omega
        refine iff_of_false ?_ (fun hfit => hne hfit.1)
        rintro ⟨-, hresults, -⟩
        apply none_not_mem_results (d.offset + (Item.value v encoded).bytes.length) is
        rw [← hresults]
        exact none_mem_readAll h rfl hw' hne
      | rawBytes source => exact absurd rfl hend
      | uint32 n => exact absurd rfl hend
      | uint64 hi lo => exact absurd rfl hend
      | double bits => exact absurd rfl hend

theorem rest_deserializerNew (bytes : List UInt8) (beyond : ℕ → UInt8) :
    (deserializerNew bytes beyond).rest = bytes := by
  refine List.ext_getElem ?_ ?_
  · exact Deserializer.length_slice _ _
  · intro i hi hi'
    simp [Deserializer.rest, Deserializer.slice, deserializerNew, hi']

/-- Reading back what was written gives it all, and ends at the end of the buffer, just when no byte
    is written behind a value and raw bytes start below `2 ^ 32`. That a failing read moves nothing
    and that no read looks behind the buffer does not depend on it. -/
theorem round_trips_iff (h : e.Inverts) (ws : List (Write V)) (beyond : ℕ → UInt8) :
    (RoundTrips e ws beyond ∧ FailuresKeep e ∧ ReadsWithin e) ↔ AllFit 0 (items e ws) := by
  have hrest : (deserializerNew (buffer e ws) beyond).rest = layout (items e ws) := by
    rw [rest_deserializerNew, buffer_eq]
  have hiff := readAll_iff h (fun i hi => written_of_mem e hi)
    (Nat.zero_le _ : (deserializerNew (buffer e ws) beyond).offset ≤ _) hrest
  exact (and_iff_left ⟨Deserializer.failures_keep e, Deserializer.reads_within e⟩).trans hiff

/-- An engine of one kind of value: a byte behind a tag. -/
def tagged : Engine UInt8 where
  writeObject v := some [1, v]
  readObject
    | 1 :: v :: _ => some v
    | _ => none

theorem tagged_inverts : tagged.Inverts where
  reads v bytes rest h := by
    cases h
    rfl
  empty := rfl

/-- What stands in front of a value is read back. -/
theorem number_first_round_trips :
    RoundTrips tagged [.uint32 (some 5), .rawBytes (some [9]), .value 7] (fun _ => 0) ∧
      FailuresKeep tagged ∧ ReadsWithin tagged :=
  (round_trips_iff tagged_inverts [.uint32 (some 5), .rawBytes (some [9]), .value 7]
    fun _ => 0).mpr ⟨trivial, show 0 + 4 < 2 ^ 32 by decide, rfl, trivial⟩

/-- What stands behind a value is not: `ReadUint32() failed`, with four bytes left to read. -/
theorem value_first_not_round_trips :
    tagged.Inverts ∧ ¬RoundTrips tagged [.value 7, .uint32 (some 5)] (fun _ => 0) := by
  refine ⟨tagged_inverts, ?_⟩
  rintro ⟨hresults, -⟩
  revert hresults
  decide

end

end WasmerNapi.Quickjs.Serdes
