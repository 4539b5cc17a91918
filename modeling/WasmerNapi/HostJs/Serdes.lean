import WasmerNapi.Quickjs.Serdes

/-!
# The serdes binding of the host's JavaScript

`wasmer_napi_create_serdes_binding`. A serializer collects chunks of bytes. A value is not among
them: the process keeps its clone under an id and the chunk holds the id, so that the first
deserializer that reads it takes it out. `structuredClone` is the host's, a parameter here.

Then the same calls on both bindings: what is written, and reads by any number of deserializers
over the released buffer. A deserializer goes by a number.
-/

namespace WasmerNapi.HostJs.Serdes

variable {V : Type}

/-! ## The host's binding -/

/-- `wasmerNapiSerdesState` -/
structure SerdesState (V : Type) where
  next : ℕ := 1
  values : ℕ → Option V := fun _ => none

def headerTag : List UInt8 := [0x57, 0x53, 0x48, 0x31]

def valueTag : List UInt8 := [0x57, 0x53, 0x56, 0x31]

/-- `wasmerNapiU32` -/
def u32 (value : ℕ) : List UInt8 := Bytes.le 4 (value % 2 ^ 32)

/-- A serializer's chunks. -/
abbrev Chunks : Type := List (List UInt8)

def writeHeader (chunks : Chunks) : Chunks := chunks ++ [headerTag]

def writeUint32 (chunks : Chunks) (value : UInt32) : Chunks := chunks ++ [u32 value.toNat]

def writeUint64 (chunks : Chunks) (low high : UInt32) : Chunks :=
  writeUint32 (writeUint32 chunks low) high

def writeDouble (chunks : Chunks) (bits : UInt64) : Chunks := chunks ++ [Bytes.le 8 bits.toNat]

def writeRawBytes (chunks : Chunks) (source : List UInt8) : Chunks := chunks ++ [source]

/-- The id is used up even if the clone fails. -/
def writeValue (structuredClone : V → Option V) (p : SerdesState V) (chunks : Chunks) (v : V) :
    SerdesState V × Chunks :=
  match structuredClone v with
  | none => ({ p with next := p.next + 1 }, chunks)
  | some cloned =>
    ({ next := p.next + 1, values := Function.update p.values p.next (some cloned) },
      chunks ++ [valueTag, u32 p.next])

def releaseBuffer (chunks : Chunks) : List UInt8 × Chunks := (chunks.flatten, [])

structure Deserializer where
  bytes : List UInt8
  offset : ℕ := 0

namespace Deserializer

/-- The next bytes. -/
def slice (d : Deserializer) (n : ℕ) : List UInt8 := (d.bytes.drop d.offset).take n

def skip (d : Deserializer) (n : ℕ) : Deserializer := { d with offset := d.offset + n }

def readHeader (d : Deserializer) : Bool × Deserializer :=
  if d.bytes.length < d.offset + 4 ∨ d.slice 4 ≠ headerTag then (false, d) else (true, d.skip 4)

def readUint32 (d : Deserializer) : Option UInt32 × Deserializer :=
  if d.bytes.length < d.offset + 4 then (none, d)
  else (some (UInt32.ofNat (Bytes.ofLe (d.slice 4))), d.skip 4)

/-- The high half may be missing once the low one has been read. -/
def readUint64 (d : Deserializer) : Option ℕ × Deserializer :=
  match d.readUint32 with
  | (none, d) => (none, d)
  | (some low, d) =>
    match d.readUint32 with
    | (none, d) => (none, d)
    | (some high, d) => (some (high.toNat * 2 ^ 32 + low.toNat), d)

def readDouble (d : Deserializer) : Option UInt64 × Deserializer :=
  if d.bytes.length < d.offset + 8 then (none, d)
  else (some (UInt64.ofNat (Bytes.ofLe (d.slice 8))), d.skip 8)

/-- `_readRawBytes`: the offset at which the bytes start. -/
def readRawBytes (d : Deserializer) (length : ℕ) : Option ℕ × Deserializer :=
  if d.bytes.length < d.offset + length % 2 ^ 32 then (none, d)
  else (some d.offset, d.skip (length % 2 ^ 32))

def readValue (structuredClone : V → Option V) (p : SerdesState V) (d : Deserializer) :
    Option V × SerdesState V × Deserializer :=
  if d.bytes.length < d.offset + 8 ∨ d.slice 4 ≠ valueTag then (none, p, d)
  else
    match (d.skip 4).readUint32 with
    | (none, d) => (none, p, d)
    | (some id, d) =>
      match p.values id.toNat with
      | none => (none, p, d)
      | some value =>
        (structuredClone value,
          { p with values := Function.update p.values id.toNat none }, d)

end Deserializer

/-! ## The same calls on both -/

/-- A call of a serializer. The halves of a 64-bit number are in the order of the arguments. -/
inductive Write (V : Type) where
  | header
  | uint32 (value : UInt32)
  | uint64 (first second : UInt32)
  | double (bits : UInt64)
  | rawBytes (source : List UInt8)
  | value (v : V)

/-- A call of a deserializer. -/
inductive Read where
  | header
  | uint32
  | uint64
  | double
  | rawBytes (length : ℕ)
  | value
  deriving DecidableEq

/-- What a call gives back. For raw bytes that is an offset into the binding's own buffer; the
    answer is the bytes there. -/
inductive Answer (V : Type) where
  | header (found : Bool)
  | uint32 (value : UInt32)
  | halves (first second : UInt32)
  | number (value : ℕ)
  | double (bits : UInt64)
  | rawBytes (bytes : List UInt8)
  | value (v : V)
  deriving DecidableEq

/-- A read: its answer, or none if it throws, and where the deserializer was and is. -/
structure Reading (V : Type) where
  answer : Option (Answer V)
  before : ℕ
  after : ℕ

def write (structuredClone : V → Option V) (p : SerdesState V × Chunks) :
    Write V → SerdesState V × Chunks
  | .header => (p.1, writeHeader p.2)
  | .uint32 value => (p.1, writeUint32 p.2 value)
  | .uint64 first second => (p.1, writeUint64 p.2 first second)
  | .double bits => (p.1, writeDouble p.2 bits)
  | .rawBytes source => (p.1, writeRawBytes p.2 source)
  | .value v => writeValue structuredClone p.1 p.2 v

/-- The process after the writes, and the buffer. -/
def written (structuredClone : V → Option V) (p : SerdesState V) (ws : List (Write V)) :
    SerdesState V × List UInt8 :=
  let r := ws.foldl (write structuredClone) (p, [])
  (r.1, (releaseBuffer r.2).1)

def read (structuredClone : V → Option V) (p : SerdesState V) (d : Deserializer) :
    Read → Option (Answer V) × SerdesState V × Deserializer
  | .header => (some (.header d.readHeader.1), p, d.readHeader.2)
  | .uint32 => (d.readUint32.1.map .uint32, p, d.readUint32.2)
  | .uint64 => (d.readUint64.1.map .number, p, d.readUint64.2)
  | .double => (d.readDouble.1.map .double, p, d.readDouble.2)
  | .rawBytes length =>
    ((d.readRawBytes length).1.map fun offset =>
      .rawBytes ((d.bytes.drop offset).take length), p, (d.readRawBytes length).2)
  | .value =>
    ((d.readValue structuredClone p).1.map .value, (d.readValue structuredClone p).2)

def readAll (structuredClone : V → Option V) :
    SerdesState V → (ℕ → Deserializer) → List (ℕ × Read) → List (Reading V)
  | _, _, [] => []
  | p, ds, (i, r) :: reads =>
    let result := read structuredClone p (ds i) r
    { answer := result.1, before := (ds i).offset, after := result.2.2.offset } ::
      readAll structuredClone result.2.1 (Function.update ds i result.2.2) reads

/-- The QuickJS serializer writes no header. -/
def Write.quickjs : Write V → Option (Quickjs.Serdes.Write V)
  | .header => none
  | .uint32 n => some (.uint32 (some n))
  | .uint64 first second => some (.uint64 (some first) (some second))
  | .double bits => some (.double (some bits))
  | .rawBytes source => some (.rawBytes (some source))
  | .value v => some (.value v)

def quickjsWritten (e : Quickjs.Serdes.Engine V) (ws : List (Write V)) : List UInt8 :=
  Quickjs.Serdes.buffer e (ws.filterMap Write.quickjs)

/-- The QuickJS deserializer finds a header everywhere. -/
def Read.quickjs : Read → Option Quickjs.Serdes.Read
  | .header => none
  | .uint32 => some .uint32
  | .uint64 => some .uint64
  | .double => some .double
  | .rawBytes length => some (.rawBytes (some length))
  | .value => some .value

/-- What a result is, of a read of that length. -/
def answer (buffer : List UInt8) (length : ℕ) : Quickjs.Serdes.Result V → Answer V
  | .uint32 value => .uint32 value
  | .uint64 hi lo => .halves hi lo
  | .double bits => .double bits
  | .offset offset => .rawBytes ((buffer.drop offset).take length)
  | .value v => .value v

def Read.length : Read → ℕ
  | .rawBytes length => length
  | _ => 0

def quickjsRead (e : Quickjs.Serdes.Engine V) (buffer : List UInt8)
    (d : Quickjs.Serdes.Deserializer) (r : Read) :
    Option (Answer V) × Quickjs.Serdes.Deserializer :=
  match r.quickjs with
  | none => (some (.header true), d)
  | some read => ((d.read e read).1.map (answer buffer r.length), (d.read e read).2)

def quickjsReadAll (e : Quickjs.Serdes.Engine V) (buffer : List UInt8) :
    (ℕ → Quickjs.Serdes.Deserializer) → List (ℕ × Read) → List (Reading V)
  | _, [] => []
  | ds, (i, r) :: reads =>
    let result := quickjsRead e buffer (ds i) r
    { answer := result.1, before := (ds i).offset, after := result.2.offset } ::
      quickjsReadAll e buffer (Function.update ds i result.2) reads

/-- The read that matches. -/
def Write.read : Write V → Read
  | .header => .header
  | .uint32 _ => .uint32
  | .uint64 _ _ => .uint64
  | .double _ => .double
  | .rawBytes source => .rawBytes source.length
  | .value _ => .value

/-- It reads at least one byte. -/
def Read.consumes : Read → Bool
  | .header => false
  | .rawBytes length => length % 2 ^ 32 != 0
  | _ => true

/-- Every deserializer reads what was written from the start on, and then whatever reads a byte
    (past the end no header and no raw bytes of length 0); `pos` says how far each of them has
    come. -/
def Matching (ws : List (Write V)) : (ℕ → ℕ) → List (ℕ × Read) → Prop
  | _, [] => True
  | pos, (i, r) :: reads =>
    match ws[pos i]? with
    | none => r.consumes = true ∧ Matching ws pos reads
    | some w => r = w.read ∧ Matching ws (Function.update pos i (pos i + 1)) reads

/-- The bindings give the same answers, and a read that throws leaves its deserializer where it
    was. -/
structure Agree (host quickjs : List (Reading V)) : Prop where
  answers : host.map Reading.answer = quickjs.map Reading.answer
  host_keeps : ∀ x ∈ host, x.answer = none → x.after = x.before
  quickjs_keeps : ∀ x ∈ quickjs, x.answer = none → x.after = x.before

/-- What both bindings do with the same calls: the host's in a process that has been writing
    before, the QuickJS one in a memory that goes on behind the buffer. -/
def Agrees (e : Quickjs.Serdes.Engine V) (structuredClone : V → Option V) (p : SerdesState V)
    (beyond : ℕ → UInt8) (ws : List (Write V)) (reads : List (ℕ × Read)) : Prop :=
  Agree
    (readAll structuredClone (written structuredClone p ws).1
      (fun _ => { bytes := (written structuredClone p ws).2 }) reads)
    (quickjsReadAll e (quickjsWritten e ws)
      (fun _ => Quickjs.Serdes.deserializerNew (quickjsWritten e ws) beyond) reads)

end WasmerNapi.HostJs.Serdes
