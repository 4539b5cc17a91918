import WasmerNapi.Guest.Memory
import WasmerNapi.GuestHeap.Runs

/-!
# Data pointers

Eight imports of `src/src/guest/napi.rs` tell the guest where the bytes of a value are. Three make
a value over a range of the guest heap and report the range's offset; four ask the engine where the
bytes are and translate: by subtraction where the address is in guest memory, through a copy in
guest memory where it is not; and `guest_node_api_create_sharedarraybuffer` writes what the engine
said.

The engine's answers are arguments. What an import writes at the guest's data pointer is a
`Report`, next to the bytes of the value it is meant to point at and the env it is written in.
-/

namespace WasmerNapi

open Word Run Budget Bridge
open Option (map_eq_some_iff)

/-! ## What `alloc_with_store` hands out -/

namespace World

section

variable {α A : Type} [NapiMemoryAccountant α] [OffsetAllocator A] {w w' : World α A}

/-- What no refill touches. -/
structure Refilled (w w' : World α A) : Prop where
  base : w'.heap.base = w.heap.base
  live : w'.heap.inner.live = w.heap.inner.live
  bytes : w.memory.bytes ≤ w'.memory.bytes

omit [NapiMemoryAccountant α] in
theorem finishClaim_refilled {prev delta baseNow bytes : ℕ} {r : Bool}
    (hf : w.finishClaim prev delta baseNow bytes = some (r, w')) : Refilled w w' := by
  unfold World.finishClaim at hf
  split at hf
  · cases hf
  · dsimp only at hf
    split at hf
    · obtain ⟨-, rfl⟩ := Prod.mk.inj (Option.some.inj hf)
      exact ⟨rfl, rfl, Nat.le_refl _⟩
    · obtain ⟨-, rfl⟩ := Prod.mk.inj (Option.some.inj hf)
      exact ⟨rfl, rfl, Nat.le_refl _⟩

theorem refillWithStoreLocked_refilled {store minBytes : ℕ} {call : GrowCall α} {r : Bool}
    (hr : w.refillWithStoreLocked store minBytes call = some (r, w')) : Refilled w w' := by
  rcases refillWithStoreLocked_cases hr with ⟨-, rfl⟩ | ⟨-, budget, -, rfl⟩ |
    ⟨-, charge, budget, w₁, e, memory, budget', -, hbefore, hgrow, rfl⟩ |
    ⟨-, charge, budget, w₁, prev, memory, budget', w₂, -, hbefore, hgrow, hafter, hf⟩
  · exact ⟨rfl, rfl, Nat.le_refl _⟩
  · exact ⟨rfl, rfl, Nat.le_refl _⟩
  · have h₁ := run_interfere_spec hbefore
    rcases grow_spec hgrow with ⟨prev, hok, -⟩ | ⟨e', -, hbytes⟩
    · cases hok
    · refine ⟨by rw [h₁.heap], by rw [h₁.heap], ?_⟩
      exact h₁.bytes.trans (Nat.le_of_eq hbytes.symm)
  · have h₁ := run_interfere_spec hbefore
    have h₂ := run_interfere_spec hafter
    have h₃ := finishClaim_refilled hf
    have hheap : w₂.heap = w.heap := h₂.heap.trans h₁.heap
    rcases grow_spec hgrow with ⟨prev', -, -, hbytes⟩ | ⟨e', herr, -⟩
    · refine ⟨?_, ?_, ?_⟩
      · rw [h₃.base, ← hheap]
        rfl
      · rw [h₃.live, ← hheap]
        rfl
      · have hmore : w.memory.bytes ≤ memory.bytes := by
          rw [hbytes]
          exact h₁.bytes.trans (Nat.le_add_right _ _)
        exact (hmore.trans h₂.bytes).trans h₃.bytes
    · cases herr

end

variable {α A : Type} [NapiMemoryAccountant α] [LawfulOffsetAllocator A] {w w' : World α A}

/-- A range of the guest's memory that was nobody's before the call. -/
structure Allocated (w w' : World α A) (len offset : ℕ) : Prop where
  base : w'.heap.base = w.heap.base
  bytes : w.memory.bytes ≤ w'.memory.bytes
  fresh : w.heap.inner.live.lookup offset = none
  entry : ∃ l, w'.heap.inner.live.lookup offset = some l ∧ len ≤ l.len
  inside : offset + len ≤ w'.memory.bytes

variable {len : ℕ}

section

omit [NapiMemoryAccountant α]

theorem Ok.entry_inside (h : w.Ok) {offset : ℕ} {l : LiveAlloc}
    (hl : w.heap.inner.live.lookup offset = some l) : offset + l.len ≤ w.memory.bytes := by
  obtain ⟨c, hi, hb⟩ := h.inner.live offset l hl
  have hmem := List.mem_of_getElem? hi
  have hin := (hb.inside (h.inner.chunks.each c hmem)).2
  have hclaimed := h.claimed c.span (List.mem_map.mpr ⟨c, hmem, rfl⟩)
  have hlen := hb.len_le
  simp only [LiveAlloc.span, Span.stop] at hin hclaimed
  omega

omit [LawfulOffsetAllocator A] in
theorem len_le_unitsFor {h : GuestHeap A} {units : ℕ} (hu : h.unitsFor len = some units) :
    len ≤ units * unit := by
  unfold GuestHeap.unitsFor at hu
  split at hu
  · cases hu
  · obtain ⟨-, rfl⟩ := tryFrom_eq_some.mp hu
    simp only [unit]
    omega

/-- A try that finds room, in a heap that differs from the one the call found by a refill. -/
theorem allocated_of_tryChunks {w₁ : World α A} {units offset : ℕ} {inner : HeapInner A}
    (h₁ : w₁.Ok) (hrefilled : Refilled w w₁) (hu : 0 < units) (hlen : len ≤ units * unit)
    (ht : w₁.heap.inner.tryChunks units = (some offset, inner)) :
    Allocated w (w₁.setInner inner) len offset := by
  obtain ⟨hfresh, l, hl, hll⟩ := h₁.inner.tryChunks_entered h₁.max_le hu ht
  have hinside : offset + l.len ≤ w₁.memory.bytes :=
    (h₁.tryChunks hu ht).entry_inside (l := l) hl
  refine ⟨hrefilled.base, hrefilled.bytes, ?_, ⟨l, hl, hll ▸ hlen⟩, ?_⟩
  · rw [← hrefilled.live]
    exact hfresh
  · show offset + len ≤ w₁.memory.bytes
    omega

end

theorem Ok.allocated (h : w.Ok) {store offset : ℕ} {call : GrowCall α}
    (hr : w.allocWithStore store len call = some (some offset, w')) :
    Allocated w w' len offset := by
  unfold World.allocWithStore at hr
  split at hr
  · cases hr
  rename_i units hu
  have hpos := unitsFor_pos hu
  have hlen := len_le_unitsFor hu
  split at hr
  · rename_i offset' inner ht
    obtain ⟨hoff, rfl⟩ := Prod.mk.inj (Option.some.inj hr)
    cases hoff
    exact allocated_of_tryChunks h ⟨rfl, rfl, Nat.le_refl _⟩ hpos hlen ht
  rename_i inner ht
  -- The first try changed nothing that the refill and the second could tell.
  have hsame : inner = w.heap.inner := by
    rcases HeapInner.tryChunksFrom_cases w.heap.inner units w.heap.inner.chunks 0 rfl with
      hnone | ⟨i, chunk, allocation, alloc, hi, hal, heq⟩
    · exact (Prod.mk.inj (ht.symm.trans hnone)).2
    · obtain ⟨o, inner', hp, -⟩ := h.inner.placeIn h.max_le hpos hi hal
      cases ht.symm.trans (heq.trans hp)
  subst hsame
  split at hr
  · cases hr
  obtain ⟨⟨refilled, w₂⟩, hrefill, hr⟩ := map_eq_some_iff.mp hr
  have h₂ : w₂.Ok := Ok.refillWithStoreLocked (w := w.setInner w.heap.inner) h hrefill
  have hrefilled : Refilled w w₂ :=
    refillWithStoreLocked_refilled (w := w.setInner w.heap.inner) hrefill
  dsimp only at hr
  split at hr
  · split at hr
    · rename_i offset' inner' ht'
      obtain ⟨hoff, rfl⟩ := Prod.mk.inj hr
      cases hoff
      exact allocated_of_tryChunks h₂ hrefilled hpos hlen ht'
    · cases hr
  · cases hr

end World

/-! ## The env -/

namespace Guest.DataPointers

variable {α A : Type} [NapiMemoryAccountant α]

/-- What the imports use of a `NapiEnv`; `store` is the store they are called with. The guest heap
    comes with what it stands on, so that its memory is there twice: as pages, and as bytes. -/
structure NapiEnv (α A : Type) where
  memory : Option GuestMemory := none
  guestHeap : Option (World α A) := none
  store : ℕ := 0

/-- Where the bytes of a value are on the host's side, and what they are. -/
structure Data where
  addr : ℕ
  bytes : List UInt8
  deriving DecidableEq

/-- Bytes the engine has: only no bytes at all may be nowhere. -/
abbrev EngineData := { d : Data // d.bytes ≠ [] → d.addr ≠ 0 }

/-- The bytes as far as the length goes that the import reports. -/
def Data.upTo (d : Data) (byteLen : ℕ) : Data := { d with bytes := d.bytes.take byteLen }

namespace NapiEnv

/-- `write_guest_bytes`. -/
def writeGuestBytes (env : NapiEnv α A) (guestPtr : ℕ) (bytes : List UInt8) : Bool × NapiEnv α A :=
  (env.memory.any fun m => decide (guestPtr + bytes.length ≤ m.size),
    { env with memory := env.memory.map fun m => m.write guestPtr bytes })

def writeU32 (env : NapiEnv α A) (guestPtr value : ℕ) : NapiEnv α A :=
  (env.writeGuestBytes guestPtr (leBytes 4 value)).2

/-- `if ptr != 0 { write_guest_u32(..) }`. -/
def writeU32At (env : NapiEnv α A) (guestPtr value : ℕ) : NapiEnv α A :=
  if guestPtr ≠ 0 then env.writeU32 guestPtr value else env

/-- `read_guest_bytes`. -/
def readGuestBytes (env : NapiEnv α A) (guestPtr len : ℕ) : Option (List UInt8) :=
  env.memory.bind fun m => m.read guestPtr len

/-- The guest's bytes from `guestPtr` on, as many as there are of `len`. -/
def bytesAt (env : NapiEnv α A) (guestPtr len : ℕ) : List UInt8 :=
  match env.memory with
  | none => []
  | some m => (m.data.drop guestPtr).take len

/-- The env after a call into its heap: what the memory has grown by is zero. -/
def withHeap (env : NapiEnv α A) (w : World α A) : NapiEnv α A :=
  { env with
    guestHeap := some w
    memory := env.memory.map fun m =>
      { m with data := m.data ++ List.replicate (w.memory.bytes - m.size) 0 } }

variable [OffsetAllocator A]

/-- `alloc_guest`; the outer `none` is the abort of a base that moved. -/
def allocGuest (env : NapiEnv α A) (len : ℕ) (zero : Bool) (call : World.GrowCall α) :
    Option (Option ℕ × NapiEnv α A) :=
  match env.guestHeap with
  | none => some (none, env)
  | some w => (w.allocWithStore env.store len call).map fun r =>
    match r.1 with
    | none => (none, env.withHeap r.2)
    | some offset =>
      if zero then
        (some offset, ((env.withHeap r.2).writeGuestBytes offset (List.replicate len 0)).2)
      else (some offset, env.withHeap r.2)

def freeOffset (env : NapiEnv α A) (offset : ℕ) : Option (NapiEnv α A) :=
  match env.guestHeap with
  | none => some env
  | some w => (w.freeOffset offset).map fun r => { env with guestHeap := some r.2 }

/-- `offset_to_host`. -/
def offsetToHost (env : NapiEnv α A) (offset : ℕ) : ℕ :=
  match env.guestHeap with
  | none => offset
  | some w => w.heap.base + offset

def hostPtrToGuestPtr (env : NapiEnv α A) (hostAddr : ℕ) : Option ℕ :=
  env.memory.bind fun m =>
    if hostAddr < m.base ∨ m.base + m.size ≤ hostAddr then none else tryFrom 32 (hostAddr - m.base)

/-- `resolve_host_data_to_guest`; `attached` is the status of the copy's finalizer. -/
def resolveHostDataToGuest (env : NapiEnv α A) (data : Data) (byteLen : ℕ) (attached : ℤ)
    (call : World.GrowCall α) : Option (Option ℕ × NapiEnv α A) :=
  if data.addr = 0 ∨ byteLen = 0 then some (some 0, env)
  else
    match env.hostPtrToGuestPtr data.addr with
    | some guestPtr => some (some guestPtr, env)
    | none =>
      -- A foreign backing store: a snapshot, which the value's finalizer frees.
      (env.allocGuest byteLen false call).bind fun r =>
        match r.1 with
        | none => some (none, r.2)
        | some guestPtr =>
          let wrote := r.2.writeGuestBytes guestPtr (data.upTo byteLen).bytes
          if wrote.1 = true ∧ attached = 0 then some (some guestPtr, wrote.2)
          else (wrote.2.freeOffset guestPtr).map fun env => (none, env)

end NapiEnv

/-! ## The imports -/

/-- A `u32` written at the guest's data pointer, the bytes it stands for, and the env it is
    written in. -/
structure Report (α A : Type) where
  pointer : ℕ
  data : Data
  env : NapiEnv α A

structure Outcome (α A : Type) where
  status : ℤ
  report : Option (Report α A) := none
  env : NapiEnv α A

/-- What the bridge answers to a call that makes a value. -/
structure Created where
  status : ℤ
  outId : ℕ := 0

namespace NapiEnv

variable [OffsetAllocator A]

/-- The copy of the source bytes, where there are any. -/
def writeSource (env : NapiEnv α A) (guestPtr : ℕ) : Option (List UInt8) → NapiEnv α A
  | none => env
  | some bytes => (env.writeGuestBytes guestPtr bytes).2

/-- A value over a range of the guest heap: zeroed, or with `source` copied into it. -/
def createOverHeap (env : NapiEnv α A) (length : ℕ) (source : Option (List UInt8))
    (dataPtr rp : ℕ) (created : Created) (call : World.GrowCall α) : Option (Outcome α A) :=
  (env.allocGuest length source.isNone call).bind fun r =>
    match r.1 with
    | none => some { status := 9, env := r.2 }
    | some guestPtr =>
      let env := r.2.writeSource guestPtr source
      if created.status ≠ 0 then
        (env.freeOffset guestPtr).map fun env => { status := created.status, env }
      else
        let env := env.writeU32 rp created.outId
        let data := { addr := env.offsetToHost guestPtr, bytes := env.bytesAt guestPtr length }
        some {
          status := created.status
          report := if dataPtr ≠ 0 then some { pointer := guestPtr, data, env } else none
          env := env.writeU32At dataPtr guestPtr }

/-- A value over memory of the host, where there is no guest heap: no data pointer. -/
def createOverHost (env : NapiEnv α A) (rp : ℕ) (created : Created) : Outcome α A :=
  { status := created.status
    env := if created.status = 0 then env.writeU32 rp created.outId else env }

def guestNapiCreateArraybuffer (env : NapiEnv α A) (byteLength dataPtr rp : ℕ) (created : Created)
    (call : World.GrowCall α) : Option (Outcome α A) :=
  if env.guestHeap.isSome then env.createOverHeap byteLength none dataPtr rp created call
  else some (env.createOverHost rp created)

def guestNapiCreateBuffer (env : NapiEnv α A) (length dataPtr rp : ℕ) (created : Created)
    (call : World.GrowCall α) : Option (Outcome α A) :=
  if env.guestHeap.isSome then env.createOverHeap length none dataPtr rp created call
  else some (env.createOverHost rp created)

def guestNapiCreateBufferCopy (env : NapiEnv α A) (length dataPtr resultDataPtr rp : ℕ)
    (created : Created) (call : World.GrowCall α) : Option (Outcome α A) :=
  match env.readGuestBytes dataPtr length with
  | none => some { status := 1, env }
  | some srcData =>
    if env.guestHeap.isSome then
      env.createOverHeap length (some srcData) resultDataPtr rp created call
    else some (env.createOverHost rp created)

/-- The engine allocates the bytes itself, and the import passes on where. -/
def guestNodeApiCreateSharedarraybuffer (env : NapiEnv α A) (dataPtr rp : ℕ) (created : Created)
    (data : EngineData) : Outcome α A :=
  if created.status ≠ 0 then { status := created.status, env }
  else
    let pointer := truncate 32 data.1.addr
    { status := created.status
      report := if dataPtr ≠ 0 then some { pointer, data := data.1, env } else none
      env := (env.writeU32At dataPtr pointer).writeU32 rp created.outId }

/-- The end of every `_info` import that is asked for the data. -/
def reportHostData (env : NapiEnv α A) (dataPtr : ℕ) (data : Data) (byteLen : ℕ) (attached : ℤ)
    (call : World.GrowCall α) : Option (Option (Report α A) × NapiEnv α A) :=
  if dataPtr = 0 then some (none, env)
  else
    (env.resolveHostDataToGuest data byteLen attached call).map fun r =>
      match r.1 with
      | none => (none, r.2)
      | some pointer =>
        (some { pointer, data := data.upTo byteLen, env := r.2 }, r.2.writeU32 dataPtr pointer)

/-- An `ArrayBuffer` and a `Buffer` are asked in the same words. -/
def bytesInfo (env : NapiEnv α A) (dataPtr lenPtr : ℕ) (status : ℤ) (data : EngineData)
    (attached : ℤ) (call : World.GrowCall α) : Option (Outcome α A) :=
  if status ≠ 0 then some { status, env }
  else
    let bl := truncate 32 data.1.bytes.length
    let env := env.writeU32At lenPtr bl
    (env.reportHostData dataPtr data.1 bl attached call).map fun r =>
      { status := 0, report := r.1, env := r.2 }

def guestNapiGetArraybufferInfo (env : NapiEnv α A) (dataPtr lenPtr : ℕ) (status : ℤ)
    (data : EngineData) (attached : ℤ) (call : World.GrowCall α) : Option (Outcome α A) :=
  env.bytesInfo dataPtr lenPtr status data attached call

def guestNapiGetBufferInfo (env : NapiEnv α A) (dataPtr lenPtr : ℕ) (status : ℤ)
    (data : EngineData) (attached : ℤ) (call : World.GrowCall α) : Option (Outcome α A) :=
  env.bytesInfo dataPtr lenPtr status data attached call

end NapiEnv

/-- What the bridge answers about a view: of a typed array `length` counts elements, and a
    `DataView` has no type. -/
structure ViewInfo where
  status : ℤ
  typ : ℤ := 0
  length : ℕ
  data : EngineData
  arraybuffer : ℕ := 0
  byteOffset : ℕ := 0

/-- `typedarray_element_size`. -/
def typedarrayElementSize (typ : ℤ) : Option ℕ :=
  if 0 ≤ typ ∧ typ ≤ 2 then some 1
  else if typ = 3 ∨ typ = 4 ∨ typ = 11 then some 2
  else if 5 ≤ typ ∧ typ ≤ 7 then some 4
  else if 8 ≤ typ ∧ typ ≤ 10 then some 8
  else none

/-- The length of a typed array's bytes, as the import works it out. -/
def ViewInfo.typedarrayBytes (info : ViewInfo) : Option ℕ :=
  (typedarrayElementSize info.typ).map fun size => truncate 32 info.length * size

namespace NapiEnv

variable [OffsetAllocator A]

def guestNapiGetTypedarrayInfo (env : NapiEnv α A) (tp lp dp abp bop : ℕ) (info : ViewInfo)
    (attached : ℤ) (call : World.GrowCall α) : Option (Outcome α A) :=
  if info.status ≠ 0 then some { status := info.status, env }
  else
    let env := (env.writeU32At tp (info.typ % 2 ^ 32).toNat).writeU32At lp (truncate 32 info.length)
    match if dp = 0 then some 0 else info.typedarrayBytes with
    | none => some { status := 1, env }
    | some byteLen =>
      (env.reportHostData dp info.data.1 byteLen attached call).map fun r =>
        { status := info.status
          report := r.1
          env := (r.2.writeU32At abp info.arraybuffer).writeU32At bop (truncate 32 info.byteOffset) }

def guestNapiGetDataviewInfo (env : NapiEnv α A) (blp dp abp bop : ℕ) (info : ViewInfo)
    (attached : ℤ) (call : World.GrowCall α) : Option (Outcome α A) :=
  if info.status ≠ 0 then some { status := info.status, env }
  else
    let bl := truncate 32 info.length
    let env := env.writeU32At blp bl
    (env.reportHostData dp info.data.1 bl attached call).map fun r =>
      { status := info.status
        report := r.1
        env := (r.2.writeU32At abp info.arraybuffer).writeU32At bop (truncate 32 info.byteOffset) }

end NapiEnv

/-! ## What a report should be -/

/-- An offset of the guest's that is the address of the bytes, all of them in its memory. -/
def PointsAt (env : NapiEnv α A) (data : Data) (pointer : ℕ) : Prop :=
  ∃ m ∈ env.memory, m.base + pointer = data.addr ∧ pointer + data.bytes.length ≤ m.size

/-- The bytes lie in guest memory. -/
def InMemory (env : NapiEnv α A) (data : Data) : Prop :=
  ∃ m ∈ env.memory, m.base ≤ data.addr ∧ data.addr + data.bytes.length ≤ m.base + m.size

/-- The bytes begin in guest memory and go on past its end. -/
def Straddles (env : NapiEnv α A) (data : Data) : Prop :=
  ∃ m ∈ env.memory, m.base ≤ data.addr ∧ data.addr < m.base + m.size ∧
    m.base + m.size < data.addr + data.bytes.length

/-- A copy of the bytes in guest memory, in an allocation the heap did not have when the import
    was called, in `env`. -/
structure Copied (env : NapiEnv α A) (r : Report α A) : Prop where
  fresh : ∃ w ∈ env.guestHeap, w.heap.inner.live.lookup r.pointer = none
  entry : ∃ w ∈ r.env.guestHeap, ∃ l, w.heap.inner.live.lookup r.pointer = some l ∧
    r.data.bytes.length ≤ l.len
  bytes : r.env.bytesAt r.pointer r.data.bytes.length = r.data.bytes
  inside : ∃ m ∈ r.env.memory, r.pointer + r.data.bytes.length ≤ m.size

/-- What the guest is told of bytes that are there at all: where they are, if they lie in its
    memory, or else where a copy of them is. -/
def Right (env : NapiEnv α A) (r : Report α A) : Prop :=
  r.data.bytes ≠ [] → PointsAt r.env r.data r.pointer ∨ ¬ InMemory env r.data ∧ Copied env r

namespace NapiEnv

/-- The heap is in order and stands on the memory, which is one of 32-bit addresses. -/
structure Ok [LawfulOffsetAllocator A] (env : NapiEnv α A) : Prop where
  heap : ∀ w ∈ env.guestHeap, w.Ok ∧
    ∃ m ∈ env.memory, m.base = w.heap.base ∧ m.size = w.memory.bytes
  size_le : ∀ m ∈ env.memory, m.size ≤ 2 ^ 32

/-! ## Writes of the guest's -/

/-- Nothing but bytes of the guest's memory has changed. -/
structure Wrote (env env' : NapiEnv α A) : Prop where
  guestHeap : env'.guestHeap = env.guestHeap
  store : env'.store = env.store
  memory : env'.memory.map (fun m => (m.base, m.size)) = env.memory.map fun m => (m.base, m.size)

variable {env env' env'' : NapiEnv α A}

section

omit [NapiMemoryAccountant α]

theorem Wrote.refl (env : NapiEnv α A) : Wrote env env := ⟨rfl, rfl, rfl⟩

theorem Wrote.trans (h : Wrote env env') (h' : Wrote env' env'') : Wrote env env'' :=
  ⟨h'.guestHeap.trans h.guestHeap, h'.store.trans h.store, h'.memory.trans h.memory⟩

theorem wrote_writeGuestBytes (env : NapiEnv α A) (guestPtr : ℕ) (bytes : List UInt8) :
    Wrote env (env.writeGuestBytes guestPtr bytes).2 := by
  refine ⟨rfl, rfl, ?_⟩
  simp only [writeGuestBytes, Option.map_map]
  congr 1
  funext m
  simp [Memory.size_write, Memory.base_write]

theorem wrote_writeU32At (env : NapiEnv α A) (guestPtr value : ℕ) :
    Wrote env (env.writeU32At guestPtr value) := by
  unfold writeU32At
  split
  · exact wrote_writeGuestBytes ..
  · exact Wrote.refl env

/-- A memory after the writes is one before them, of the same place and size. -/
theorem Wrote.memory_of (h : Wrote env env') {m' : GuestMemory} (hm : m' ∈ env'.memory) :
    ∃ m ∈ env.memory, m.base = m'.base ∧ m.size = m'.size := by
  have hmap := h.memory
  rw [Option.mem_def.mp hm, Option.map_some] at hmap
  obtain ⟨m, hm, heq⟩ := map_eq_some_iff.mp hmap.symm
  obtain ⟨hbase, hsize⟩ := Prod.mk.inj heq
  exact ⟨m, hm, hbase, hsize⟩

theorem Wrote.symm (h : Wrote env env') : Wrote env' env :=
  ⟨h.guestHeap.symm, h.store.symm, h.memory.symm⟩

theorem Wrote.inMemory_iff (h : Wrote env env') (data : Data) :
    InMemory env' data ↔ InMemory env data := by
  constructor
  · rintro ⟨m, hm, hin⟩
    obtain ⟨m', hm', hbase, hsize⟩ := h.memory_of hm
    exact ⟨m', hm', by rw [hbase, hsize]; exact hin⟩
  · rintro ⟨m, hm, hin⟩
    obtain ⟨m', hm', hbase, hsize⟩ := h.symm.memory_of hm
    exact ⟨m', hm', by rw [hbase, hsize]; exact hin⟩

theorem Wrote.straddles_iff (h : Wrote env env') (data : Data) :
    Straddles env' data ↔ Straddles env data := by
  constructor
  · rintro ⟨m, hm, hin⟩
    obtain ⟨m', hm', hbase, hsize⟩ := h.memory_of hm
    exact ⟨m', hm', by rw [hbase, hsize]; exact hin⟩
  · rintro ⟨m, hm, hin⟩
    obtain ⟨m', hm', hbase, hsize⟩ := h.symm.memory_of hm
    exact ⟨m', hm', by rw [hbase, hsize]; exact hin⟩

/-- What a report is judged by does not show the writes before it. -/
theorem Wrote.right_iff (h : Wrote env env') (r : Report α A) : Right env' r ↔ Right env r := by
  have hcopied : Copied env' r ↔ Copied env r := by
    constructor
    · intro hc
      exact ⟨h.guestHeap ▸ hc.fresh, hc.entry, hc.bytes, hc.inside⟩
    · intro hc
      exact ⟨h.guestHeap ▸ hc.fresh, hc.entry, hc.bytes, hc.inside⟩
  unfold Right
  rw [h.inMemory_iff, hcopied]

theorem Wrote.ok [LawfulOffsetAllocator A] (h : Wrote env env') (hok : env.Ok) : env'.Ok := by
  refine ⟨?_, ?_⟩
  · intro w hw
    rw [h.guestHeap] at hw
    obtain ⟨hwok, m, hm, hbase, hsize⟩ := hok.heap w hw
    obtain ⟨m', hm', hbase', hsize'⟩ := h.symm.memory_of hm
    exact ⟨hwok, m', hm', hbase'.trans hbase, hsize'.trans hsize⟩
  · intro m' hm'
    obtain ⟨m, hm, -, hsize⟩ := h.memory_of hm'
    rw [← hsize]
    exact hok.size_le m hm

theorem bytesAt_writeGuestBytes {m : GuestMemory} (hm : env.memory = some m) {guestPtr : ℕ}
    {bytes : List UInt8} (hin : guestPtr + bytes.length ≤ m.size) :
    (env.writeGuestBytes guestPtr bytes).2.bytesAt guestPtr bytes.length = bytes := by
  have hlen : (m.data.take guestPtr).length = guestPtr := by
    rw [List.length_take]
    unfold GuestMemory.size at hin
    omega
  simp only [bytesAt, writeGuestBytes, hm, Option.map_some, GuestMemory.write, if_pos hin]
  rw [List.append_assoc, List.drop_append_of_le_length (by omega), List.drop_of_length_le (by omega),
    List.nil_append, List.take_append_of_le_length (Nat.le_refl _), List.take_length]

end

/-! ## A range of the guest heap -/

variable [LawfulOffsetAllocator A]

/-- What `alloc_guest` hands out, on an env in order. -/
structure Allocated (env env' : NapiEnv α A) (len offset : ℕ) : Prop where
  heaps : ∃ w ∈ env.guestHeap, ∃ w' ∈ env'.guestHeap, w.Allocated w' len offset
  memory : ∃ m, env'.memory = some m ∧ m.base + offset = env'.offsetToHost offset ∧
    offset + len ≤ m.size

variable {call : World.GrowCall α}

theorem Ok.allocGuest (h : env.Ok) {len offset : ℕ} {zero : Bool}
    (hr : env.allocGuest len zero call = some (some offset, env')) :
    Allocated env env' len offset := by
  unfold NapiEnv.allocGuest at hr
  cases hheap : env.guestHeap with
  | none =>
    rw [hheap] at hr
    cases hr
  | some w =>
    rw [hheap] at hr
    obtain ⟨⟨found, w'⟩, halloc, hr⟩ := map_eq_some_iff.mp hr
    obtain ⟨hok, m, hm, hbase, hsize⟩ := h.heap w hheap
    cases found with
    | none => cases hr
    | some offset' =>
      have hwith : Allocated env (env.withHeap w') len offset' := by
        have hall := hok.allocated halloc
        have hgrown : m.size + (w'.memory.bytes - m.size) = w'.memory.bytes := by
          have := hall.bytes
          omega
        refine ⟨⟨w, hheap, w', rfl, hall⟩, _, by rw [NapiEnv.withHeap, hm]; rfl, ?_, ?_⟩
        · simp only [offsetToHost, NapiEnv.withHeap, hall.base, hbase]
        · have hin := hall.inside
          rw [← hgrown] at hin
          simpa [GuestMemory.size] using hin
      dsimp only at hr
      split at hr
      · obtain ⟨hoff, rfl⟩ := Prod.mk.inj hr
        obtain rfl := Option.some.inj hoff
        -- Zeroing the range is a write like any other.
        have hwrote := wrote_writeGuestBytes (env.withHeap w') offset' (List.replicate len 0)
        obtain ⟨m₁, hm₁, haddr, hin⟩ := hwith.memory
        obtain ⟨m₂, hm₂, hbase₂, hsize₂⟩ := hwrote.symm.memory_of hm₁
        refine ⟨hwith.heaps, m₂, hm₂, ?_, hsize₂ ▸ hin⟩
        rw [hbase₂, haddr]
        rfl
      · obtain ⟨hoff, rfl⟩ := Prod.mk.inj hr
        cases hoff
        exact hwith

omit [NapiMemoryAccountant α] [LawfulOffsetAllocator A] in
/-- An allocation survives what is written afterwards. -/
theorem Allocated.wrote {len offset : ℕ} (h : Allocated env env' len offset)
    (hw : Wrote env' env'') : Allocated env env'' len offset := by
  obtain ⟨m, hm, haddr, hin⟩ := h.memory
  obtain ⟨m', hm', hbase, hsize⟩ := hw.symm.memory_of hm
  refine ⟨?_, m', hm', ?_, hsize ▸ hin⟩
  · rw [hw.guestHeap]
    exact h.heaps
  · rw [hbase, haddr]
    unfold offsetToHost
    rw [hw.guestHeap]

variable {dataPtr : ℕ}

/-- **A value over the guest heap** is where the guest is told that it is. -/
theorem Ok.createOverHeap (h : env.Ok) {length rp : ℕ} {source : Option (List UInt8)}
    {created : Created} {out : Outcome α A}
    (hr : env.createOverHeap length source dataPtr rp created call = some out) :
    ∀ r ∈ out.report, Right env r := by
  unfold NapiEnv.createOverHeap at hr
  obtain ⟨⟨found, env₁⟩, halloc, hr⟩ := Option.bind_eq_some_iff.mp hr
  intro r hmem
  cases found with
  | none =>
    cases hr
    cases hmem
  | some offset =>
    have hall := h.allocGuest halloc
    dsimp only at hr
    split at hr
    · obtain ⟨env₂, -, rfl⟩ := map_eq_some_iff.mp hr
      cases hmem
    · cases hr
      dsimp only at hmem
      split at hmem
      · cases hmem
        intro _
        left
        have hsource : Wrote env₁ (env₁.writeSource offset source) := by
          cases source with
          | none => exact Wrote.refl env₁
          | some bytes => exact wrote_writeGuestBytes ..
        obtain ⟨m, hm, haddr, hin⟩ :=
          (hall.wrote (hsource.trans (wrote_writeGuestBytes _ rp (leBytes 4 created.outId)))).memory
        refine ⟨m, hm, haddr, ?_⟩
        refine Nat.le_trans (Nat.add_le_add_left ?_ offset) hin
        simp only [bytesAt]
        split
        · exact Nat.zero_le _
        · rw [List.length_take]
          exact Nat.min_le_left _ _
      · cases hmem

/-! ## A translation -/

variable {p : ℕ}

variable {data : Data}

section

omit [LawfulOffsetAllocator A] [NapiMemoryAccountant α]

/-- An address is translated where it is in the memory, and only there. -/
theorem hostPtrToGuestPtr_eq_some (hsize : ∀ m ∈ env.memory, m.size ≤ 2 ^ 32) {addr : ℕ} :
    env.hostPtrToGuestPtr addr = some p ↔
      ∃ m ∈ env.memory, m.base + p = addr ∧ addr < m.base + m.size := by
  unfold hostPtrToGuestPtr
  cases hm : env.memory with
  | none => simp
  | some m =>
    have hle := hsize m hm
    simp only [Option.bind_some, Option.mem_some_iff, exists_eq_left']
    split
    next hout =>
      simp only [reduceCtorEq, false_iff]
      omega
    next hin =>
      rw [tryFrom_eq_some]
      omega

/-- No env holds an allocation and is without it. -/
theorem not_copied_self {pointer : ℕ} : ¬ Copied env { pointer, data, env } := by
  intro hc
  obtain ⟨w, hw, hnone⟩ := hc.fresh
  obtain ⟨w', hw', l, hl, -⟩ := hc.entry
  obtain rfl := Option.some.inj ((Option.mem_def.mp hw).symm.trans hw')
  cases hnone.symm.trans hl

/-- Bytes that begin in the memory are where the translation says, if they end there too. -/
theorem right_translated_iff {m : GuestMemory} (hm : env.memory = some m)
    (haddr : m.base + p = data.addr) (hlt : data.addr < m.base + m.size) :
    Right env { pointer := p, data, env } ↔ ¬ Straddles env data := by
  have hstraddles : Straddles env data ↔ m.base + m.size < data.addr + data.bytes.length := by
    constructor
    · rintro ⟨m', hm', -, -, h⟩
      obtain rfl := Option.some.inj (hm.symm.trans hm')
      exact h
    · intro h
      exact ⟨m, hm, by omega, hlt, h⟩
  rw [hstraddles]
  constructor
  · intro hright hover
    have hbytes : data.bytes ≠ [] := by
      intro hnil
      rw [hnil, List.length_nil] at hover
      omega
    rcases hright hbytes with ⟨m', hm', -, hin⟩ | ⟨-, hc⟩
    · obtain rfl := Option.some.inj (hm.symm.trans hm')
      simp only at hin
      omega
    · exact not_copied_self hc
  · intro hin _
    exact .inl ⟨m, hm, haddr, by simp only; omega⟩

end

variable {byteLen : ℕ}

/-- **A snapshot** is a copy of bytes that did not begin in the memory. -/
theorem Ok.right_snapshot (h : env.Ok) (hforeign : env.hostPtrToGuestPtr data.addr = none)
    (halloc : env.allocGuest byteLen false call = some (some p, env')) :
    Right env
      { pointer := p, data := data.upTo byteLen
        env := (env'.writeGuestBytes p (data.upTo byteLen).bytes).2 } := by
  intro hbytes
  right
  have hall := h.allocGuest halloc
  have hlen : (data.upTo byteLen).bytes.length ≤ byteLen := by
    rw [Data.upTo, List.length_take]
    exact Nat.min_le_left _ _
  refine ⟨?_, ?_, ?_, ?_, ?_⟩
  · rintro ⟨m, hm, hbase, hstop⟩
    have hpos := List.length_pos_iff.mpr hbytes
    have hsome : env.hostPtrToGuestPtr data.addr = some (data.addr - m.base) := by
      refine (hostPtrToGuestPtr_eq_some h.size_le).mpr ⟨m, hm, ?_, ?_⟩
      · exact Nat.add_sub_cancel' hbase
      · simp only [Data.upTo] at hstop hpos
        omega
    cases hforeign.symm.trans hsome
  · obtain ⟨w, hw, w', -, hw'⟩ := hall.heaps
    exact ⟨w, hw, hw'.fresh⟩
  · obtain ⟨w, -, w', hmem, hw'⟩ := hall.heaps
    obtain ⟨l, hl, hle⟩ := hw'.entry
    exact ⟨w', hmem, l, hl, hlen.trans hle⟩
  · obtain ⟨m, hm, -, hin⟩ := hall.memory
    exact bytesAt_writeGuestBytes hm ((Nat.add_le_add_left hlen p).trans hin)
  · obtain ⟨m, hm, -, hin⟩ := hall.memory
    obtain ⟨m', hm', -, hsize⟩ := (wrote_writeGuestBytes env' p _).symm.memory_of hm
    exact ⟨m', hm', hsize ▸ (Nat.add_le_add_left hlen p).trans hin⟩

/-- What an `_info` import reports is right exactly when the bytes do not run out of the memory
    they begin in. -/
theorem Ok.reportHostData (h : env.Ok) {data : EngineData} {attached : ℤ}
    {report : Option (Report α A)}
    (hr : env.reportHostData dataPtr data.1 byteLen attached call = some (report, env')) :
    (∀ r ∈ report, Right env r) ↔ (dataPtr ≠ 0 → ¬ Straddles env (data.1.upTo byteLen)) := by
  unfold NapiEnv.reportHostData at hr
  split at hr
  next hz =>
    obtain ⟨rfl, -⟩ := Prod.mk.inj (Option.some.inj hr)
    simp [hz]
  next hnz =>
    obtain ⟨⟨found, env₁⟩, hresolve, hr⟩ := map_eq_some_iff.mp hr
    rw [forall_prop_of_true hnz]
    unfold NapiEnv.resolveHostDataToGuest at hresolve
    split at hresolve
    next hnull =>
      -- Nothing to point at, and nothing that could run out.
      obtain ⟨rfl, rfl⟩ := Prod.mk.inj (Option.some.inj hresolve)
      obtain ⟨rfl, -⟩ := Prod.mk.inj hr
      have hnil : (data.1.upTo byteLen).bytes = [] := by
        rcases hnull with haddr | hlen
        · have hdata : data.1.bytes = [] := by
            by_contra hne
            exact data.2 hne haddr
          simp [Data.upTo, hdata]
        · simp [Data.upTo, hlen]
      constructor
      · rintro - ⟨m, -, -, hlt, hover⟩
        rw [hnil, List.length_nil] at hover
        omega
      · rintro - r hmem hbytes
        cases hmem
        exact absurd hnil hbytes
    next hsome =>
      split at hresolve
      next p hp =>
        obtain ⟨rfl, rfl⟩ := Prod.mk.inj (Option.some.inj hresolve)
        obtain ⟨rfl, -⟩ := Prod.mk.inj hr
        obtain ⟨m, hm, haddr, hlt⟩ := (hostPtrToGuestPtr_eq_some h.size_le).mp hp
        have hright : Right env { pointer := p, data := data.1.upTo byteLen, env } ↔
            ¬ Straddles env (data.1.upTo byteLen) := right_translated_iff hm haddr hlt
        rw [← hright]
        simp
      next hforeign =>
        have hclear : ¬ Straddles env (data.1.upTo byteLen) := by
          rintro ⟨m, hm, hbase, hlt, -⟩
          have := (hostPtrToGuestPtr_eq_some h.size_le).mpr
            ⟨m, hm, Nat.add_sub_cancel' hbase, hlt⟩
          cases hforeign.symm.trans this
        refine iff_of_true ?_ hclear
        intro r hmem
        obtain ⟨⟨placed, env₂⟩, halloc, hresolve⟩ := Option.bind_eq_some_iff.mp hresolve
        cases placed with
        | none =>
          obtain ⟨rfl, -⟩ := Prod.mk.inj (Option.some.inj hresolve)
          obtain ⟨rfl, -⟩ := Prod.mk.inj hr
          cases hmem
        | some p =>
          dsimp only at hresolve
          split at hresolve
          next =>
            obtain ⟨rfl, rfl⟩ := Prod.mk.inj (Option.some.inj hresolve)
            obtain ⟨rfl, -⟩ := Prod.mk.inj hr
            cases hmem
            exact h.right_snapshot hforeign halloc
          next =>
            obtain ⟨env₃, -, hfreed⟩ := map_eq_some_iff.mp hresolve
            obtain ⟨rfl, -⟩ := Prod.mk.inj hfreed
            obtain ⟨rfl, -⟩ := Prod.mk.inj hr
            cases hmem

/-- The same of an import that has written to the guest before it asks. -/
theorem Ok.reportHostData_wrote (h : env.Ok) {env₁ : NapiEnv α A} (hw : Wrote env env₁)
    {data : EngineData} {attached : ℤ} {report : Option (Report α A)}
    (hr : env₁.reportHostData dataPtr data.1 byteLen attached call = some (report, env')) :
    (∀ r ∈ report, Right env r) ↔ (dataPtr ≠ 0 → ¬ Straddles env (data.1.upTo byteLen)) := by
  rw [← hw.straddles_iff, ← (hw.ok h).reportHostData hr]
  exact forall_congr' fun r => imp_congr_right fun _ => (hw.right_iff r).symm

omit [NapiMemoryAccountant α] [LawfulOffsetAllocator A] in
/-- A host address cut down to 32 bits is the offset only in a memory at a multiple of 4 GiB. -/
theorem right_truncated_iff (hsize : ∀ m ∈ env.memory, m.size ≤ 2 ^ 32) (data : Data) :
    Right env { pointer := truncate 32 data.addr, data, env } ↔
      (data.bytes ≠ [] → InMemory env data ∧ ∀ m ∈ env.memory, 2 ^ 32 ∣ m.base) := by
  refine imp_congr_right fun hbytes => ?_
  have hpos : 0 < data.bytes.length := List.length_pos_iff.mpr hbytes
  constructor
  · rintro (⟨m, hm, haddr, hin⟩ | ⟨-, hc⟩)
    · simp only at haddr hin
      refine ⟨⟨m, hm, by omega, by omega⟩, ?_⟩
      intro m' hm'
      obtain rfl := Option.some.inj ((Option.mem_def.mp hm).symm.trans hm')
      unfold truncate at haddr
      omega
    · exact absurd hc not_copied_self
  · rintro ⟨⟨m, hm, hbase, hstop⟩, hdvd⟩
    left
    have hle := hsize m hm
    obtain ⟨q, hq⟩ := hdvd m hm
    have haddr : truncate 32 data.addr = data.addr - m.base := by
      unfold truncate
      omega
    exact ⟨m, hm, by simp only; omega, by simp only; omega⟩

end NapiEnv

/-! ## Every import -/

/-- A call of one of the eight, with everything the engine and the heap's grow answer. -/
inductive Call (α : Type) where
  | createArraybuffer (byteLength dataPtr rp : ℕ) (created : Created) (grow : World.GrowCall α)
  | createBuffer (length dataPtr rp : ℕ) (created : Created) (grow : World.GrowCall α)
  | createBufferCopy (length dataPtr resultDataPtr rp : ℕ) (created : Created)
      (grow : World.GrowCall α)
  | createSharedarraybuffer (dataPtr rp : ℕ) (created : Created) (data : EngineData)
  | getArraybufferInfo (dataPtr lenPtr : ℕ) (status : ℤ) (data : EngineData) (attached : ℤ)
      (grow : World.GrowCall α)
  | getTypedarrayInfo (tp lp dp abp bop : ℕ) (info : ViewInfo) (attached : ℤ)
      (grow : World.GrowCall α)
  | getDataviewInfo (blp dp abp bop : ℕ) (info : ViewInfo) (attached : ℤ)
      (grow : World.GrowCall α)
  | getBufferInfo (dataPtr lenPtr : ℕ) (status : ℤ) (data : EngineData) (attached : ℤ)
      (grow : World.GrowCall α)

/-- A call that returns `napi_ok` reports nothing wrong. -/
def Sound (env : NapiEnv α A) (out : Outcome α A) : Prop :=
  out.status = 0 → ∀ r ∈ out.report, Right env r

namespace NapiEnv

def perform [OffsetAllocator A] (env : NapiEnv α A) : Call α → Option (Outcome α A)
  | .createArraybuffer byteLength dataPtr rp created grow =>
    env.guestNapiCreateArraybuffer byteLength dataPtr rp created grow
  | .createBuffer length dataPtr rp created grow =>
    env.guestNapiCreateBuffer length dataPtr rp created grow
  | .createBufferCopy length dataPtr resultDataPtr rp created grow =>
    env.guestNapiCreateBufferCopy length dataPtr resultDataPtr rp created grow
  | .createSharedarraybuffer dataPtr rp created data =>
    some (env.guestNodeApiCreateSharedarraybuffer dataPtr rp created data)
  | .getArraybufferInfo dataPtr lenPtr status data attached grow =>
    env.guestNapiGetArraybufferInfo dataPtr lenPtr status data attached grow
  | .getTypedarrayInfo tp lp dp abp bop info attached grow =>
    env.guestNapiGetTypedarrayInfo tp lp dp abp bop info attached grow
  | .getDataviewInfo blp dp abp bop info attached grow =>
    env.guestNapiGetDataviewInfo blp dp abp bop info attached grow
  | .getBufferInfo dataPtr lenPtr status data attached grow =>
    env.guestNapiGetBufferInfo dataPtr lenPtr status data attached grow

/-- Where the engine's bytes have to be. -/
def Placed (env : NapiEnv α A) : Call α → Prop
  | .createArraybuffer .. | .createBuffer .. | .createBufferCopy .. => True
  | .createSharedarraybuffer dataPtr _ created data =>
    created.status = 0 → dataPtr ≠ 0 → data.1.bytes ≠ [] →
      InMemory env data.1 ∧ ∀ m ∈ env.memory, 2 ^ 32 ∣ m.base
  | .getArraybufferInfo dataPtr _ status data _ _ | .getBufferInfo dataPtr _ status data _ _ =>
    status = 0 → dataPtr ≠ 0 → ¬ Straddles env (data.1.upTo (truncate 32 data.1.bytes.length))
  | .getTypedarrayInfo _ _ dp _ _ info _ _ =>
    info.status = 0 → dp ≠ 0 → ∀ byteLen ∈ info.typedarrayBytes,
      ¬ Straddles env (info.data.1.upTo byteLen)
  | .getDataviewInfo _ dp _ _ info _ _ =>
    info.status = 0 → dp ≠ 0 → ¬ Straddles env (info.data.1.upTo (truncate 32 info.length))

/-! ## Where a report is written

A `Report` is what the guest finds at the data pointer when the import has returned, unless the
guest has one of the import's later answers put over it. -/

end NapiEnv

/-- The place for the data pointer. -/
def Call.dataPtr : Call α → ℕ
  | .createArraybuffer _ dataPtr .. | .createBuffer _ dataPtr .. => dataPtr
  | .createBufferCopy _ _ resultDataPtr .. => resultDataPtr
  | .createSharedarraybuffer dataPtr .. => dataPtr
  | .getArraybufferInfo dataPtr .. | .getBufferInfo dataPtr .. => dataPtr
  | .getTypedarrayInfo _ _ dp .. => dp
  | .getDataviewInfo _ dp .. => dp

/-- The places of what an import writes after it. -/
def Call.later : Call α → List ℕ
  | .createSharedarraybuffer _ rp .. => [rp]
  | .getTypedarrayInfo _ _ _ abp bop .. => [abp, bop]
  | .getDataviewInfo _ _ abp bop .. => [abp, bop]
  | _ => []

namespace NapiEnv

/-- The guest finds the `u32` at the place, if there is such a place. -/
def Holds (env : NapiEnv α A) (guestPtr value : ℕ) : Prop :=
  ∀ m ∈ env.memory, guestPtr + 4 ≤ m.size → ∀ i < 4, m.data[guestPtr + i]? = (leBytes 4 value)[i]?

section Held

variable {env env' : NapiEnv α A} {out : Outcome α A} {guestPtr value : ℕ}

section

omit [NapiMemoryAccountant α]

theorem holds_writeU32 (env : NapiEnv α A) (guestPtr value : ℕ) :
    (env.writeU32 guestPtr value).Holds guestPtr value := by
  intro m' hm' hin i hi
  obtain ⟨m, hm, rfl⟩ := map_eq_some_iff.mp hm'
  rw [Memory.size_write] at hin
  have hwrote : Memory.Wrote m guestPtr (leBytes 4 value) _ := Memory.wrote_write hin
  exact hwrote.inside i hi

theorem Holds.writeU32 (h : env.Holds guestPtr value) {p v : ℕ}
    (hp : p + 4 ≤ guestPtr ∨ guestPtr + 4 ≤ p) : (env.writeU32 p v).Holds guestPtr value := by
  intro m' hm' hin i hi
  obtain ⟨m, hm, rfl⟩ := map_eq_some_iff.mp hm'
  rw [Memory.size_write] at hin
  rw [← h m hm hin i hi]
  by_cases hfits : p + (leBytes 4 v).length ≤ m.size
  · have hlen : (leBytes 4 v).length = 4 := rfl
    exact (Memory.wrote_write hfits).outside _ (by omega)
  · rw [GuestMemory.write, if_neg hfits]

theorem Holds.writeU32At (h : env.Holds guestPtr value) {p v : ℕ}
    (hp : p + 4 ≤ guestPtr ∨ guestPtr + 4 ≤ p) : (env.writeU32At p v).Holds guestPtr value := by
  unfold NapiEnv.writeU32At
  split
  · exact h.writeU32 hp
  · exact h

end

variable [OffsetAllocator A]
variable {dataPtr : ℕ} {call : World.GrowCall α}

theorem createOverHeap_held {length rp : ℕ} {source : Option (List UInt8)} {created : Created}
    (hr : env.createOverHeap length source dataPtr rp created call = some out) :
    ∀ r ∈ out.report, out.env.Holds dataPtr r.pointer := by
  intro r hmem
  unfold createOverHeap at hr
  obtain ⟨⟨placed, env₁⟩, -, hr⟩ := Option.bind_eq_some_iff.mp hr
  cases placed with
  | none =>
    cases hr
    cases hmem
  | some p =>
    dsimp only at hr
    split at hr
    next =>
      obtain ⟨env₂, -, rfl⟩ := map_eq_some_iff.mp hr
      cases hmem
    next =>
      cases hr
      dsimp only at hmem ⊢
      split at hmem
      next hptr =>
        cases hmem
        rw [NapiEnv.writeU32At, if_pos hptr]
        exact holds_writeU32 _ _ _
      next => cases hmem

theorem reportHostData_held {byteLen : ℕ} {data : Data} {attached : ℤ}
    {report : Option (Report α A)}
    (hr : env.reportHostData dataPtr data byteLen attached call = some (report, env')) :
    ∀ r ∈ report, env'.Holds dataPtr r.pointer := by
  intro r hmem
  unfold NapiEnv.reportHostData at hr
  split at hr
  next =>
    cases hr
    cases hmem
  next =>
    obtain ⟨⟨found, env₁⟩, -, hr⟩ := map_eq_some_iff.mp hr
    cases found with
    | none =>
      cases hr
      cases hmem
    | some p =>
      cases hr
      cases hmem
      exact holds_writeU32 _ _ _

theorem bytesInfo_held {lenPtr : ℕ} {status : ℤ} {data : EngineData} {attached : ℤ}
    (hr : env.bytesInfo dataPtr lenPtr status data attached call = some out) :
    ∀ r ∈ out.report, out.env.Holds dataPtr r.pointer := by
  unfold NapiEnv.bytesInfo at hr
  split at hr
  next =>
    cases hr
    rintro r ⟨⟩
  next =>
    obtain ⟨⟨report, env₁⟩, hreport, rfl⟩ := map_eq_some_iff.mp hr
    exact reportHostData_held hreport

/-- **What is reported is what the guest reads**, of every import and whatever it answers. -/
theorem perform_held (c : Call α) (hr : env.perform c = some out)
    (hlater : ∀ p ∈ c.later, p + 4 ≤ c.dataPtr ∨ c.dataPtr + 4 ≤ p) :
    ∀ r ∈ out.report, out.env.Holds c.dataPtr r.pointer := by
  cases c with
  | createArraybuffer byteLength dataPtr rp created grow =>
    simp only [perform, guestNapiCreateArraybuffer] at hr
    split at hr
    · exact createOverHeap_held hr
    · cases hr
      rintro r ⟨⟩
  | createBuffer length dataPtr rp created grow =>
    simp only [perform, guestNapiCreateBuffer] at hr
    split at hr
    · exact createOverHeap_held hr
    · cases hr
      rintro r ⟨⟩
  | createBufferCopy length dataPtr resultDataPtr rp created grow =>
    simp only [perform, guestNapiCreateBufferCopy] at hr
    split at hr
    · cases hr
      rintro r ⟨⟩
    · split at hr
      · exact createOverHeap_held hr
      · cases hr
        rintro r ⟨⟩
  | createSharedarraybuffer dataPtr rp created data =>
    cases hr
    intro r hmem
    unfold guestNodeApiCreateSharedarraybuffer at hmem ⊢
    split at hmem
    · cases hmem
    · rename_i hok
      dsimp only at hmem
      split at hmem
      · rename_i hptr
        cases hmem
        rw [if_neg hok]
        dsimp only
        have hheld : (env.writeU32At dataPtr (truncate 32 data.1.addr)).Holds dataPtr
            (truncate 32 data.1.addr) := by
          rw [NapiEnv.writeU32At, if_pos hptr]
          exact holds_writeU32 _ _ _
        exact hheld.writeU32 (hlater rp (List.mem_singleton_self rp))
      · cases hmem
  | getArraybufferInfo dataPtr lenPtr status data attached grow => exact bytesInfo_held hr
  | getTypedarrayInfo tp lp dp abp bop info attached grow =>
    simp only [perform, guestNapiGetTypedarrayInfo] at hr
    split at hr
    · cases hr
      rintro r ⟨⟩
    split at hr
    · cases hr
      rintro r ⟨⟩
    obtain ⟨⟨report, env₁⟩, hreport, rfl⟩ := map_eq_some_iff.mp hr
    intro r hmem
    refine Holds.writeU32At (Holds.writeU32At (reportHostData_held hreport r hmem) ?_) ?_
    · exact hlater abp (by simp [Call.later])
    · exact hlater bop (by simp [Call.later])
  | getDataviewInfo blp dp abp bop info attached grow =>
    simp only [perform, guestNapiGetDataviewInfo] at hr
    split at hr
    · cases hr
      rintro r ⟨⟩
    obtain ⟨⟨report, env₁⟩, hreport, rfl⟩ := map_eq_some_iff.mp hr
    intro r hmem
    refine Holds.writeU32At (Holds.writeU32At (reportHostData_held hreport r hmem) ?_) ?_
    · exact hlater abp (by simp [Call.later])
    · exact hlater bop (by simp [Call.later])
  | getBufferInfo dataPtr lenPtr status data attached grow => exact bytesInfo_held hr

end Held

variable [LawfulOffsetAllocator A] {env : NapiEnv α A} {out : Outcome α A}

omit [NapiMemoryAccountant α] [LawfulOffsetAllocator A] in
theorem sound_createOverHost (env : NapiEnv α A) (rp : ℕ) (created : Created) :
    Sound env (env.createOverHost rp created) := by
  intro _ r hmem
  cases hmem

variable {attached : ℤ} {call : World.GrowCall α}

theorem Ok.sound_bytesInfo (h : env.Ok) {dataPtr lenPtr : ℕ} {status : ℤ} {data : EngineData}
    (hr : env.bytesInfo dataPtr lenPtr status data attached call = some out) :
    Sound env out ↔ (status = 0 → dataPtr ≠ 0 →
      ¬ Straddles env (data.1.upTo (truncate 32 data.1.bytes.length))) := by
  unfold NapiEnv.bytesInfo at hr
  split at hr
  next hfail =>
    cases hr
    exact iff_of_true (fun hok => absurd hok hfail) (fun hok => absurd hok hfail)
  next hok =>
    obtain ⟨⟨report, env'⟩, hreport, rfl⟩ := map_eq_some_iff.mp hr
    rw [forall_prop_of_true (not_not.mp hok),
      ← h.reportHostData_wrote (wrote_writeU32At env lenPtr _) hreport]
    exact forall_prop_of_true rfl

theorem Ok.sound_typedarrayInfo (h : env.Ok) {tp lp dp abp bop : ℕ} {info : ViewInfo}
    (hr : env.guestNapiGetTypedarrayInfo tp lp dp abp bop info attached call = some out) :
    Sound env out ↔ (info.status = 0 → dp ≠ 0 → ∀ byteLen ∈ info.typedarrayBytes,
      ¬ Straddles env (info.data.1.upTo byteLen)) := by
  have hw := (wrote_writeU32At env tp (info.typ % 2 ^ 32).toNat).trans
    (wrote_writeU32At _ lp (truncate 32 info.length))
  unfold NapiEnv.guestNapiGetTypedarrayInfo at hr
  split at hr
  next hfail =>
    cases hr
    exact iff_of_true (fun hok => absurd hok hfail) (fun hok => absurd hok hfail)
  next hok =>
    have hzero := not_not.mp hok
    rw [forall_prop_of_true hzero]
    dsimp only at hr
    split at hr
    next hbytes =>
      -- An element type the import does not know: not `napi_ok`.
      cases hr
      refine iff_of_true (fun hone => absurd hone (one_ne_zero (α := ℤ))) ?_
      intro hdp byteLen hmem
      rw [if_neg hdp] at hbytes
      cases hbytes.symm.trans hmem
    next byteLen hbytes =>
      obtain ⟨⟨report, env'⟩, hreport, rfl⟩ := map_eq_some_iff.mp hr
      have hright := h.reportHostData_wrote hw hreport
      have hsound : Sound env { status := info.status, report, env := env' } ↔
          ∀ r ∈ report, Right env r := forall_prop_of_true hzero
      refine (hsound.trans hright).trans (imp_congr_right fun hdp => ?_)
      rw [if_neg hdp] at hbytes
      simp [hbytes]

theorem Ok.sound_dataviewInfo (h : env.Ok) {blp dp abp bop : ℕ} {info : ViewInfo}
    (hr : env.guestNapiGetDataviewInfo blp dp abp bop info attached call = some out) :
    Sound env out ↔ (info.status = 0 → dp ≠ 0 →
      ¬ Straddles env (info.data.1.upTo (truncate 32 info.length))) := by
  unfold NapiEnv.guestNapiGetDataviewInfo at hr
  split at hr
  next hfail =>
    cases hr
    exact iff_of_true (fun hok => absurd hok hfail) (fun hok => absurd hok hfail)
  next hok =>
    have hzero := not_not.mp hok
    obtain ⟨⟨report, env'⟩, hreport, rfl⟩ := map_eq_some_iff.mp hr
    rw [forall_prop_of_true hzero,
      ← h.reportHostData_wrote (wrote_writeU32At env blp _) hreport]
    exact forall_prop_of_true hzero

/-- **Data pointers.** Of every import that returns, in every env and for every value: what it
    reports is right exactly when the value's bytes do not run out of the memory they begin in
    and, from the one that writes a host address, when the memory is at a multiple of 4 GiB and
    the bytes are in it. -/
theorem data_pointers_right_iff (h : env.Ok) (c : Call α) (hr : env.perform c = some out) :
    Sound env out ↔ env.Placed c := by
  have hover : ∀ {length dataPtr rp source created call},
      env.createOverHeap length source dataPtr rp created call = some out → Sound env out :=
    fun hr _ => h.createOverHeap hr
  cases c with
  | createArraybuffer byteLength dataPtr rp created grow =>
    refine iff_of_true ?_ trivial
    simp only [perform, guestNapiCreateArraybuffer] at hr
    split at hr
    · exact hover hr
    · cases hr
      exact sound_createOverHost env rp created
  | createBuffer length dataPtr rp created grow =>
    refine iff_of_true ?_ trivial
    simp only [perform, guestNapiCreateBuffer] at hr
    split at hr
    · exact hover hr
    · cases hr
      exact sound_createOverHost env rp created
  | createBufferCopy length dataPtr resultDataPtr rp created grow =>
    refine iff_of_true ?_ trivial
    simp only [perform, guestNapiCreateBufferCopy] at hr
    split at hr
    · cases hr
      intro hone
      exact absurd hone (one_ne_zero (α := ℤ))
    · split at hr
      · exact hover hr
      · cases hr
        exact sound_createOverHost env rp created
  | createSharedarraybuffer dataPtr rp created data =>
    cases hr
    simp only [Sound, guestNodeApiCreateSharedarraybuffer, Placed]
    by_cases hok : created.status = 0
    · by_cases hptr : dataPtr = 0
      · simp [hok, hptr]
      · simp only [hok, ne_eq, not_true_eq_false, if_false, hptr, not_false_eq_true, if_true,
          forall_const, Option.mem_some_iff, forall_eq']
        exact right_truncated_iff h.size_le data.1
    · simp [hok]
  | getArraybufferInfo dataPtr lenPtr status data attached grow => exact h.sound_bytesInfo hr
  | getTypedarrayInfo tp lp dp abp bop info attached grow => exact h.sound_typedarrayInfo hr
  | getDataviewInfo blp dp abp bop info attached grow => exact h.sound_dataviewInfo hr
  | getBufferInfo dataPtr lenPtr status data attached grow => exact h.sound_bytesInfo hr

end NapiEnv

/-- Sixteen bytes of guest memory where a host has them. -/
def sixteen : NapiEnv Empty Bump where
  memory := some ⟨2 ^ 46 + 4096, List.replicate 16 7⟩

theorem sixteen_ok : sixteen.Ok where
  heap w hw := by cases hw
  size_le m hm := by
    cases hm
    decide

def quiet : World.GrowCall Empty := { before := [], inner := false, after := [], baseNow := 0 }

/-- Eight bytes at offset 4. -/
def eight : EngineData := ⟨⟨2 ^ 46 + 4100, List.replicate 8 7⟩, fun _ => by decide⟩

theorem sixteen_info_right : ∃ out, sixteen.perform (.getArraybufferInfo 12 0 0 eight 0 quiet) =
    some out ∧ Sound sixteen out ∧ out.report.map Report.pointer = some 4 := by
  have hruns : (sixteen.perform (.getArraybufferInfo 12 0 0 eight 0 quiet)).map
      (fun out => out.report.map Report.pointer) = some (some 4) := by decide
  obtain ⟨out, hout, hpointer⟩ := map_eq_some_iff.mp hruns
  refine ⟨out, hout, (NapiEnv.data_pointers_right_iff sixteen_ok _ hout).mpr ?_, hpointer⟩
  rintro - - ⟨m, hm, -, -, hover⟩
  cases hm
  revert hover
  decide

/-- A shared buffer over the same bytes: the guest is told 4100. -/
theorem sixteen_shared_wrong : ∃ out, sixteen.Ok ∧
    sixteen.perform (.createSharedarraybuffer 12 8 { status := 0 } eight) = some out ∧
    out.report.map Report.pointer = some 4100 ∧ ¬ Sound sixteen out := by
  refine ⟨_, sixteen_ok, rfl, by decide, ?_⟩
  intro hsound
  have hright := hsound rfl _ rfl (by decide)
  rcases hright with ⟨m, hm, haddr, -⟩ | ⟨-, hc⟩
  · cases hm
    revert haddr
    decide
  · obtain ⟨w, hw, -⟩ := hc.fresh
    cases hw

end Guest.DataPointers
end WasmerNapi
