import WasmerNapi.Bridge.Basic
import WasmerNapi.Lib.Bytes
import WasmerNapi.Lib.Run
import WasmerNapi.Lib.Span

/-!
# Buffer leases

`guest_unofficial_napi_acquire_buffer_lease` and its release of `src/src/guest/napi.rs`,
`discard_buffer_leases_for_env` of `src/src/env.rs`, the handles of `src/src/napi_bridge_init.cc`
and `src/lib/src/napi_buffer_lease.cc`. A lease is an entry of the store's table and a handle of the
bridge under one id. Where the bytes of the value are not in the guest's memory, it is a block of the
guest's heap besides, with a copy of them.

The host address of the bytes is kept from the acquire to the release, with JavaScript in between
that may detach or resize what the bytes are in. The release asks no one.

Acquires are numbered. The number of a lease is not in the source: by it the records of what was
copied, freed and written back tell two leases apart that had one id or one block.
-/

namespace WasmerNapi.Bridge.Leases

open Function (update update_self update_of_ne)
open Run

/-- `NativeBufferLease`, with the number of its acquire. -/
structure NativeBufferLease where
  guestPtr : ℕ
  hostPtr : ℕ
  byteLen : ℕ
  writable : Bool
  copied : Bool
  serial : ℕ
  deriving DecidableEq

/-- Whether a release copies the block back. -/
def NativeBufferLease.publishes (lease : NativeBufferLease) (modified : Bool) : Bool :=
  lease.copied && lease.writable && modified && decide (0 < lease.byteLen)

/-- `unofficial_napi_buffer_lease__`: the value its reference keeps. -/
structure Handle where
  value : ℕ
  serial : ℕ
  deriving DecidableEq

/-- Whose a block of the guest's heap is. -/
inductive Owner where
  | lease (serial : ℕ)
  | other
  deriving DecidableEq

/-- How an env of the store stands with the bridge. -/
inductive Phase where
  | absent
  | live
  | closing
  deriving DecidableEq

/-- What an acquire leased: which bytes, of which value. -/
structure Acquired where
  serial : ℕ
  value : ℕ
  bytes : Span
  deriving DecidableEq

/-- Bytes written back, and where the value had its bytes then. -/
structure Written where
  serial : ℕ
  value : ℕ
  into : Span
  view : Option Span
  deriving DecidableEq

/-- A store, the agents of its envs, the bytes of the JavaScript values, and what happened. -/
structure World where
  /-- `native_buffer_leases`, by guest env and lease id. -/
  leases : AList (fun _ : ℕ × ℕ => NativeBufferLease) := ∅
  env : ℕ → Phase := fun _ => .absent
  /-- `buffer_lease_handles`. -/
  table : ℕ → HandleTable Handle := fun _ => {}
  /-- The bytes a value is a view of; `none` is a value that is no view. -/
  view : ℕ → Option Span := fun _ => none
  host : ℕ → UInt8 := fun _ => 0
  guest : ℕ → UInt8 := fun _ => 0
  /-- Where the guest's memory is in the host, and its length. -/
  base : ℕ := 2 ^ 32
  memLen : ℕ := 0
  /-- The blocks of the guest's heap. -/
  blocks : ℕ → Option Owner := fun _ => none
  next : ℕ := 0
  acquired : List Acquired := []
  copies : List ℕ := []
  freed : List ℕ := []
  written : List Written := []

namespace World

/-! ## The guest's memory -/

def readGuestBytes (w : World) (ptr len : ℕ) : Option (List UInt8) :=
  if ptr + len ≤ w.memLen then some ((List.range len).map fun i => w.guest (ptr + i)) else none

def writeGuestBytes (w : World) (ptr : ℕ) (data : List UInt8) : Bool × World :=
  if ptr + data.length ≤ w.memLen then
    (true, { w with guest := fun a => if ptr ≤ a then data.getD (a - ptr) (w.guest a) else w.guest a })
  else (false, w)

def writeGuestU32 (w : World) (ptr value : ℕ) : World := (w.writeGuestBytes ptr (Bytes.le 4 value)).2

def hostPtrToGuestPtr (w : World) (addr : ℕ) : Option ℕ :=
  if addr < w.base ∨ addr ≥ w.base + w.memLen then none
  else if addr - w.base < 2 ^ 32 then some (addr - w.base) else none

/-- `alloc_guest`, with what the heap answers. -/
def allocGuest (w : World) (block : ℕ) : World :=
  { w with blocks := update w.blocks block (some (.lease w.next)), copies := w.next :: w.copies }

/-- `free_offset`; an offset the heap does not know is rejected. -/
def freeOffset (w : World) (block : ℕ) : World :=
  match w.blocks block with
  | none => w
  | some .other => { w with blocks := update w.blocks block none }
  | some (.lease n) =>
    { w with blocks := update w.blocks block none, freed := n :: w.freed }

def freeCopy (w : World) (lease : NativeBufferLease) : World :=
  if lease.copied then w.freeOffset lease.guestPtr else w

/-! ## The bridge -/

/-- `RequireEnvState`: the env is there, and the thread is the one that owns it. -/
def requireEnvState (w : World) (e : ℕ) (owned : Bool) : Bool := w.env e != .absent && owned

/-- `snapi_bridge_unofficial_acquire_buffer_lease` of a value id that loads `value`, where the lease
    and its reference could be made or not: the id and the host address, or a status. -/
def bridgeAcquire (w : World) (e : ℕ) (owned : Bool) (value : Option ℕ) (byteOffset byteLength : ℕ)
    (made : Bool) : Except ℕ (ℕ × ℕ) × World :=
  if w.requireEnvState e owned = false then (.error 1, w)
  else
    match value with
    | none => (.error 1, w)
    | some v =>
      match w.view v with
      | none => (.error 1, w)
      | some view =>
        if byteOffset > view.len ∨ byteLength > view.len - byteOffset then (.error 1, w)
        else if made = false then (.error 9, w)
        else
          let (id, table) := (w.table e).store (some { value := v, serial := w.next })
          let w := { w with table := update w.table e table }
          -- The lease is released, but its handle stays in the table.
          if id = 0 then (.error 9, w)
          else (.ok (id, if view.start = 0 then 0 else view.start + byteOffset), w)

/-- `snapi_bridge_unofficial_release_buffer_lease`. -/
def bridgeRelease (w : World) (e : ℕ) (owned : Bool) (id : ℕ) : ℕ × World :=
  if w.requireEnvState e owned = false then (1, w)
  else
    match (w.table e).named id with
    | none => (1, w)
    | some _ => (0, { w with table := update w.table e ((w.table e).remove id) })

/-! ## The imports -/

/-- The arguments of an acquire, and how what it asks answers: whether the thread owns the env, the
    value the id loads, whether the bridge could make the lease, and the block of the heap. -/
structure Acquire where
  e : ℕ
  value : ℕ
  byteOffset : ℕ
  byteLength : ℕ
  mode : ℕ
  leaseOut : ℕ
  dataOut : ℕ
  owned : Bool
  loaded : Option ℕ
  made : Bool
  block : Option ℕ
  deriving DecidableEq

/-- The lease goes into the table, and its id and address to the guest. -/
def insertLease (w : World) (c : Acquire) (id hostPtr guestPtr : ℕ) (copied : Bool) : World :=
  let lease : NativeBufferLease :=
    { guestPtr, hostPtr, byteLen := c.byteLength, writable := c.mode &&& 2 != 0, copied, serial := w.next }
  let w := { w with
    leases := w.leases.insert (c.e, id) lease
    next := w.next + 1
    acquired := { serial := w.next, value := c.loaded.getD 0, bytes := ⟨hostPtr, c.byteLength⟩ } ::
      w.acquired }
  (w.writeGuestU32 c.leaseOut id).writeGuestU32 c.dataOut guestPtr

/-- An acquire that came to nothing behind the bridge. -/
def giveUp (w : World) (c : Acquire) (id : ℕ) : ℕ × World :=
  (9, { (w.bridgeRelease c.e c.owned id).2 with next := w.next + 1 })

/-- `guest_unofficial_napi_acquire_buffer_lease`. -/
def acquireBufferLease (w : World) (c : Acquire) : ℕ × World :=
  if c.value = 0 ∨ c.leaseOut = 0 ∨ c.dataOut = 0 ∨ c.mode > 3 ∨ c.mode = 0 then (1, w)
  else
    match w.bridgeAcquire c.e c.owned c.loaded c.byteOffset c.byteLength c.made with
    | (.error status, w) => (status, w)
    | (.ok (id, hostPtr), w) =>
      match if c.byteLength = 0 then some 0 else w.hostPtrToGuestPtr hostPtr with
      | some ptr => (0, w.insertLease c id hostPtr ptr false)
      | none =>
        match c.block with
        | none => w.giveUp c id
        | some ptr =>
          let w := w.allocGuest ptr
          if c.mode &&& 1 ≠ 0 then
            let source := (List.range c.byteLength).map fun i => w.host (hostPtr + i)
            match w.writeGuestBytes ptr source with
            | (true, w) => (0, w.insertLease c id hostPtr ptr true)
            | (false, w) => (w.freeOffset ptr).giveUp c id
          else (0, w.insertLease c id hostPtr ptr true)

/-- `copy_nonoverlapping` of a lease's bytes to its host address. The handle says whose they are. -/
def writeBack (w : World) (lease : NativeBufferLease) (handle : Option Handle) (bytes : List UInt8) :
    World :=
  let value := (handle.map Handle.value).getD 0
  { w with
    host := fun a => if lease.hostPtr ≤ a then bytes.getD (a - lease.hostPtr) (w.host a) else w.host a
    written := { serial := lease.serial, value, into := ⟨lease.hostPtr, bytes.length⟩, view := w.view value } ::
      w.written }

/-- `guest_unofficial_napi_release_buffer_lease`. -/
def releaseBufferLease (w : World) (e leaseId : ℕ) (modified owned : Bool) : ℕ × World :=
  if leaseId = 0 then (1, w)
  else
    match w.leases.lookup (e, leaseId) with
    | none => (1, w)
    | some lease =>
      let w := { w with leases := w.leases.erase (e, leaseId) }
      if lease.publishes modified then
        match w.readGuestBytes lease.guestPtr lease.byteLen with
        | none => (9, ((w.freeOffset lease.guestPtr).bridgeRelease e owned leaseId).2)
        | some bytes =>
          ((w.writeBack lease ((w.table e).named leaseId) bytes).freeCopy lease).bridgeRelease e owned leaseId
      else (w.freeCopy lease).bridgeRelease e owned leaseId

/-- The loop of `discard_buffer_leases_for_env`. -/
def discard (w : World) : List (ℕ × ℕ) → World
  | [] => w
  | key :: keys =>
    match w.leases.lookup key with
    | none => w.discard keys
    | some lease => ({ w with leases := w.leases.erase key }.freeCopy lease).discard keys

def discardBufferLeasesForEnv (w : World) (e : ℕ) : World :=
  w.discard ((w.leases.entries.map Sigma.fst).filter fun key => key.1 = e)

end World

/-- `js` is any JavaScript: buffers get other bytes, or are detached, resized or replaced. `guest` is
    any code of the guest, which may grow its memory. The other blocks of the heap come and go. A
    teardown that the bridge refuses is one of a store dropped on another thread. -/
inductive Act where
  | create (e : ℕ)
  | acquire (c : World.Acquire)
  | release (e leaseId : ℕ) (modified owned : Bool)
  | js (view : ℕ → Option Span) (host : ℕ → UInt8)
  | guest (memory : ℕ → UInt8) (grow : ℕ)
  | alloc (block : ℕ)
  | free (block : ℕ)
  | teardown (e : ℕ) (refused : Bool)
  | gone (e : ℕ)

def step (w : World) : Act → Option World
  | .create e => if w.env e = .absent then some { w with env := update w.env e .live } else none
  | .acquire c =>
    if ∀ block ∈ c.block, w.blocks block = none then some (w.acquireBufferLease c).2 else none
  | .release e leaseId modified owned => some (w.releaseBufferLease e leaseId modified owned).2
  | .js view host => some { w with view, host }
  | .guest memory grow => some { w with guest := memory, memLen := w.memLen + grow }
  | .alloc block =>
    if w.blocks block = none then
      some { w with blocks := update w.blocks block (some .other) }
    else none
  | .free block => if w.blocks block = some .other then some (w.freeOffset block) else none
  | .teardown e refused =>
    if w.env e = .live then
      let w := w.discardBufferLeasesForEnv e
      if refused then some w
      else
        some { w with
          env := update w.env e .closing
          table := update w.table e (w.table e).reset }
    else none
  | .gone e =>
    if w.env e = .closing then
      some { w with
        env := update w.env e .absent
        table := update w.table e {} }
    else none

/-- The host's memory as an act is to leave it. A release that copies back puts the bytes of the
    lease's block, as the guest has them, where the leased ones were, and leaves every other byte;
    JavaScript writes what it likes; and nothing else here writes to it. -/
def World.hostAfter (w : World) : Act → ℕ → UInt8
  | .js _ host => host
  | .release e leaseId modified _ =>
    match w.leases.lookup (e, leaseId) with
    | none => w.host
    | some lease =>
      if lease.publishes modified ∧ lease.guestPtr + lease.byteLen ≤ w.memLen then
        fun a =>
          if lease.hostPtr ≤ a ∧ a < lease.hostPtr + lease.byteLen then
            w.guest (lease.guestPtr + (a - lease.hostPtr))
          else w.host a
      else w.host
  | _ => w.host

/-- The table of the store and the handles of the bridge are the same leases; a block that was copied
    for a lease is there as long as the lease is, and was freed once after it; what was written back
    went to the bytes leased, where the value still had them; and a release writes those bytes, and
    no others, whatever comes next. -/
structure World.Sound (w : World) : Prop where
  paired : ∀ e id, ((w.table e).handles.lookup id).map Handle.serial =
    (w.leases.lookup (e, id)).map NativeBufferLease.serial
  freed_once : w.freed.Nodup
  freed_mem : ∀ n ∈ w.freed, n ∈ w.copies
  copies : ∀ n ∈ w.copies,
    (n ∈ w.freed ∧ ∀ key lease, w.leases.lookup key = some lease → lease.serial ≠ n) ∨
    (n ∉ w.freed ∧ ∃ key lease, w.leases.lookup key = some lease ∧ lease.serial = n ∧
      w.blocks lease.guestPtr = some (.lease n))
  written : ∀ b ∈ w.written, ⟨b.serial, b.value, b.into⟩ ∈ w.acquired ∧
    ∃ view, b.view = some view ∧ b.into.Inside view
  host : ∀ act w', step w act = some w' → w'.host = w.hostAfter act

/-- No lease of the env. -/
def World.NoLeases (w : World) (e : ℕ) : Prop := ∀ key ∈ w.leases.entries.map Sigma.fst, key.1 ≠ e

/-- What keeps the leases sound: the id of a new handle is neither 0 nor in use; a lease is released
    on the thread of its env, and when it copies back, the value still has the bytes leased where
    they were; and an env does not go while it has a lease, nor is its teardown refused. -/
def Safe (w : World) : Act → Prop
  | .acquire c => (w.table c.e).nextId ≠ 0 ∧ (w.table c.e).nextId ∉ (w.table c.e).handles
  | .release e leaseId modified owned =>
    ∀ lease ∈ w.leases.lookup (e, leaseId), owned = true ∧
      (lease.publishes modified = true → ∀ handle ∈ (w.table e).named leaseId,
        ∃ view ∈ w.view handle.value, (⟨lease.hostPtr, lease.byteLen⟩ : Span).Inside view)
  | .teardown e refused => refused = true → w.NoLeases e
  | .gone e => w.NoLeases e
  | _ => True

instance decidableNoLeases (w : World) (e : ℕ) : Decidable (w.NoLeases e) :=
  inferInstanceAs (Decidable (∀ key ∈ w.leases.entries.map Sigma.fst, key.1 ≠ e))

instance decidableSafe (w : World) : ∀ act, Decidable (Safe w act)
  | .acquire _ => inferInstanceAs (Decidable (_ ∧ _))
  | .release e leaseId modified owned =>
    inferInstanceAs (Decidable (∀ lease ∈ w.leases.lookup (e, leaseId), owned = true ∧
      (lease.publishes modified = true → ∀ handle ∈ (w.table e).named leaseId,
        ∃ view ∈ w.view handle.value, (⟨lease.hostPtr, lease.byteLen⟩ : Span).Inside view)))
  | .teardown e refused => inferInstanceAs (Decidable (refused = true → w.NoLeases e))
  | .gone e => inferInstanceAs (Decidable (w.NoLeases e))
  | .create _ | .js _ _ | .guest _ _ | .alloc _ | .free _ => isTrue trivial

/-! ## The blocks of the leases -/

/-- The leases `L`, the blocks of the heap, and which acquires up to `next` had a block copied and
    freed. -/
structure Blocks (L : AList fun _ : ℕ × ℕ => NativeBufferLease) (blocks : ℕ → Option Owner)
    (copies freed : List ℕ) (next : ℕ) : Prop where
  serial_lt : ∀ {key lease}, L.lookup key = some lease → lease.serial < next
  unique : ∀ {key lease key' lease'}, L.lookup key = some lease → L.lookup key' = some lease' →
    lease.serial = lease'.serial → key = key'
  copies_lt : ∀ n ∈ copies, n < next
  copied : ∀ {key lease}, L.lookup key = some lease → (lease.copied = true ↔ lease.serial ∈ copies)
  block : ∀ {key lease}, L.lookup key = some lease → lease.copied = true →
    blocks lease.guestPtr = some (.lease lease.serial)
  freed_once : freed.Nodup
  freed_mem : ∀ n ∈ freed, n ∈ copies
  live : ∀ n ∈ copies, (n ∈ freed ↔ ∀ key lease, L.lookup key = some lease → lease.serial ≠ n)

theorem not_mem_of_lookup {L : AList fun _ : ℕ × ℕ => NativeBufferLease} {key key' : ℕ × ℕ}
    {lease : NativeBufferLease} (hkey : key ∉ L) (hl : L.lookup key' = some lease) : key' ≠ key := by
  rintro rfl
  exact hkey (AList.lookup_isSome.mp (by rw [hl]; rfl))

namespace Blocks

variable {L : AList fun _ : ℕ × ℕ => NativeBufferLease} {blocks blocks' : ℕ → Option Owner}
  {copies copies' freed : List ℕ} {next : ℕ} {key : ℕ × ℕ} {lease : NativeBufferLease}

theorem succ (h : Blocks L blocks copies freed next) : Blocks L blocks copies freed (next + 1) :=
  { h with
    serial_lt := fun hl => Nat.lt_succ_of_lt (h.serial_lt hl)
    copies_lt := fun n hn => Nat.lt_succ_of_lt (h.copies_lt n hn) }

/-- Blocks come and go that are no lease's. -/
theorem setBlocks (h : Blocks L blocks copies freed next)
    (hb : ∀ {b n}, blocks b = some (.lease n) → blocks' b = some (.lease n)) :
    Blocks L blocks' copies freed next :=
  { h with block := fun hl hc => hb (h.block hl hc) }

/-- A new lease, with the next number, and with a block or without. -/
theorem insert (h : Blocks L blocks copies freed next) (hkey : key ∉ L) (hserial : lease.serial = next)
    (hcopies : ∀ n, n ∈ copies' ↔ n ∈ copies ∨ (n = next ∧ lease.copied = true))
    (hb : ∀ {b n}, blocks b = some (.lease n) → blocks' b = some (.lease n))
    (hnew : lease.copied = true → blocks' lease.guestPtr = some (.lease next)) :
    Blocks (L.insert key lease) blocks' copies' freed (next + 1) where
  serial_lt := by
    intro k l hl
    rcases Table.lookup_insert_iff.mp hl with ⟨-, rfl⟩ | ⟨-, hl⟩
    · omega
    · exact Nat.lt_succ_of_lt (h.serial_lt hl)
  unique := by
    intro k l k' l' hl hl' heq
    rcases Table.lookup_insert_iff.mp hl with ⟨rfl, rfl⟩ | ⟨-, hl⟩
    · rcases Table.lookup_insert_iff.mp hl' with ⟨rfl, -⟩ | ⟨-, hl'⟩
      · rfl
      · have := h.serial_lt hl'
        omega
    · rcases Table.lookup_insert_iff.mp hl' with ⟨-, hnew⟩ | ⟨-, hl'⟩
      · rw [hnew] at heq
        have := h.serial_lt hl
        omega
      · exact h.unique hl hl' heq
  copies_lt n hn := by
    rcases (hcopies n).mp hn with hn | ⟨rfl, -⟩
    · exact Nat.lt_succ_of_lt (h.copies_lt n hn)
    · exact Nat.lt_succ_self n
  copied := by
    intro k l hl
    rw [hcopies]
    rcases Table.lookup_insert_iff.mp hl with ⟨-, rfl⟩ | ⟨-, hl⟩
    · constructor
      · exact fun hc => .inr ⟨hserial, hc⟩
      · rintro (hmem | ⟨-, hc⟩)
        · have := h.copies_lt _ hmem
          omega
        · exact hc
    · rw [h.copied hl]
      have hlt := h.serial_lt hl
      exact ⟨.inl, fun hor => hor.resolve_right fun hnext => absurd hnext.1 (Nat.ne_of_lt hlt)⟩
  block := by
    intro k l hl hc
    rcases Table.lookup_insert_iff.mp hl with ⟨-, rfl⟩ | ⟨-, hl⟩
    · rw [hserial]
      exact hnew hc
    · exact hb (h.block hl hc)
  freed_once := h.freed_once
  freed_mem n hn := (hcopies n).mpr (.inl (h.freed_mem n hn))
  live n hn := by
    rcases (hcopies n).mp hn with hn | ⟨rfl, -⟩
    · have hlt := h.copies_lt n hn
      rw [h.live n hn]
      constructor
      · intro hno k l hl
        rcases Table.lookup_insert_iff.mp hl with ⟨-, rfl⟩ | ⟨-, hl⟩
        · omega
        · exact hno k l hl
      · intro hno k l hl
        exact hno k l (Table.lookup_insert_iff.mpr (.inr ⟨not_mem_of_lookup hkey hl, hl⟩))
    · refine iff_of_false ?_ ?_
      · intro hmem
        have := h.copies_lt n (h.freed_mem n hmem)
        omega
      · intro hno
        exact hno key lease (Table.lookup_insert_iff.mpr (.inl ⟨rfl, rfl⟩)) hserial

/-- A lease goes, and with it its block if it has one. -/
theorem erase (h : Blocks L blocks copies freed next) (hl : L.lookup key = some lease) :
    Blocks (L.erase key)
      (if lease.copied then update blocks lease.guestPtr none else blocks) copies
      (if lease.copied then lease.serial :: freed else freed) next where
  serial_lt hl' := h.serial_lt (Table.lookup_erase_iff.mp hl').2
  unique h₁ h₂ heq := h.unique (Table.lookup_erase_iff.mp h₁).2 (Table.lookup_erase_iff.mp h₂).2 heq
  copies_lt := h.copies_lt
  copied hl' := h.copied (Table.lookup_erase_iff.mp hl').2
  block := by
    intro k l hl' hc
    obtain ⟨hne, hl'⟩ := Table.lookup_erase_iff.mp hl'
    have hblock := h.block hl' hc
    split
    · next hcopied =>
      have hptr : l.guestPtr ≠ lease.guestPtr := by
        intro heq
        have hb := h.block hl hcopied
        rw [← heq, hblock] at hb
        exact hne (h.unique hl' hl (by simpa using hb))
      rw [update_of_ne hptr]
      exact hblock
    · exact hblock
  freed_once := by
    split
    · next hcopied =>
      refine List.nodup_cons.mpr ⟨?_, h.freed_once⟩
      intro hmem
      exact (h.live _ ((h.copied hl).mp hcopied)).mp hmem key lease hl rfl
    · exact h.freed_once
  freed_mem n hn := by
    split at hn
    · next hcopied =>
      rcases List.mem_cons.mp hn with rfl | hn
      · exact (h.copied hl).mp hcopied
      · exact h.freed_mem n hn
    · exact h.freed_mem n hn
  live n hn := by
    have hold : (∀ k l, (L.erase key).lookup k = some l → l.serial ≠ n) ↔
        (n = lease.serial ∨ ∀ k l, L.lookup k = some l → l.serial ≠ n) := by
      constructor
      · intro hno
        by_cases heq : n = lease.serial
        · exact .inl heq
        · refine .inr ?_
          intro k l hl'
          by_cases hk : k = key
          · subst hk
            obtain rfl := Option.some.inj (hl.symm.trans hl')
            exact Ne.symm heq
          · exact hno k l (Table.lookup_erase_iff.mpr ⟨hk, hl'⟩)
      · rintro (rfl | hno) k l hl'
        · obtain ⟨hne, hl'⟩ := Table.lookup_erase_iff.mp hl'
          exact fun heq => hne (h.unique hl' hl heq)
        · exact hno k l (Table.lookup_erase_iff.mp hl').2
    rw [hold, ← h.live n hn]
    split
    · exact List.mem_cons
    · next hcopied =>
      refine (or_iff_right ?_).symm
      rintro rfl
      exact hcopied ((h.copied hl).mpr hn)

end Blocks

theorem erase_insert {α β : Type} [DecidableEq α] {L : AList fun _ : α => β} {k : α} {v : β} (hk : k ∉ L) :
    (L.insert k v).erase k = L := by
  apply AList.ext
  show List.kerase k (L.insert k v).entries = L.entries
  rw [AList.entries_insert_of_notMem hk]
  exact List.kerase_cons_eq (s := (⟨k, v⟩ : Σ _ : α, β)) rfl

/-! ## The handles of the leases -/

/-- The leases `L` and the handles of the agents are the same, of envs that are there. -/
structure Paired (L : AList fun _ : ℕ × ℕ => NativeBufferLease) (table : ℕ → HandleTable Handle)
    (env : ℕ → Phase) (acquired : List Acquired) : Prop where
  same : ∀ e id, ((table e).handles.lookup id).map Handle.serial =
    (L.lookup (e, id)).map NativeBufferLease.serial
  pos : ∀ {e id lease}, L.lookup (e, id) = some lease → id ≠ 0
  present : ∀ {e id lease}, L.lookup (e, id) = some lease → env e ≠ .absent
  leased : ∀ {e id lease handle}, L.lookup (e, id) = some lease →
    (table e).handles.lookup id = some handle →
      ⟨lease.serial, handle.value, ⟨lease.hostPtr, lease.byteLen⟩⟩ ∈ acquired

namespace Paired

variable {L : AList fun _ : ℕ × ℕ => NativeBufferLease} {table table' : ℕ → HandleTable Handle}
  {env : ℕ → Phase} {acquired : List Acquired} {e id : ℕ} {lease : NativeBufferLease} {handle : Handle}

theorem setTable (h : Paired L table env acquired)
    (ht : ∀ e id, (table' e).handles.lookup id = (table e).handles.lookup id) :
    Paired L table' env acquired where
  same e id := by
    rw [ht]
    exact h.same e id
  pos := h.pos
  present := h.present
  leased hl hh := by
    rw [ht] at hh
    exact h.leased hl hh

theorem handle_of_lookup (h : Paired L table env acquired) (hl : L.lookup (e, id) = some lease) :
    ∃ handle, (table e).handles.lookup id = some handle ∧ (table e).named id = some handle := by
  have hsame := h.same e id
  rw [hl] at hsame
  obtain ⟨handle, hh, -⟩ := Option.map_eq_some_iff.mp hsame
  exact ⟨handle, hh, by rw [HandleTable.named, if_neg (h.pos hl), hh]⟩

theorem not_mem (h : Paired L table env acquired) (hid : id ∉ (table e).handles) : (e, id) ∉ L := by
  have hsame := h.same e id
  rw [AList.lookup_eq_none.mpr hid] at hsame
  exact AList.lookup_eq_none.mp (Option.map_eq_none_iff.mp hsame.symm)

theorem insert (h : Paired L table env acquired) (hid : id = (table e).nextId) (hpos : id ≠ 0)
    (henv : env e ≠ .absent) (hserial : handle.serial = lease.serial) :
    Paired (L.insert (e, id) lease) (update table e ((table e).store (some handle)).2) env
      (⟨lease.serial, handle.value, ⟨lease.hostPtr, lease.byteLen⟩⟩ :: acquired) := by
  have hstore : ∀ e' id', ((update table e ((table e).store (some handle)).2) e').handles.lookup id' =
      if e' = e ∧ id' = id then some handle else (table e').handles.lookup id' := by
    intro e' id'
    by_cases he : e' = e
    · subst he
      rw [update_self]
      show ((table e').handles.insert (table e').nextId handle).lookup id' = _
      by_cases hid' : id' = id
      · rw [if_pos ⟨rfl, hid'⟩, hid', hid, AList.lookup_insert]
      · rw [if_neg fun hor => hid' hor.2, AList.lookup_insert_ne (hid ▸ hid')]
    · rw [update_of_ne he, if_neg fun hor => he hor.1]
  have hlookup : ∀ e' id', (L.insert (e, id) lease).lookup (e', id') =
      if e' = e ∧ id' = id then some lease else L.lookup (e', id') := by
    intro e' id'
    by_cases heq : e' = e ∧ id' = id
    · rw [if_pos heq, heq.1, heq.2, AList.lookup_insert]
    · rw [if_neg heq, AList.lookup_insert_ne (by simpa using heq)]
  refine ⟨?_, ?_, ?_, ?_⟩
  · intro e' id'
    rw [hstore, hlookup]
    split
    · exact congrArg some hserial
    · exact h.same e' id'
  · intro e' id' l hl
    rw [hlookup] at hl
    split at hl
    · next heq => rw [heq.2]; exact hpos
    · exact h.pos hl
  · intro e' id' l hl
    rw [hlookup] at hl
    split at hl
    · next heq => rw [heq.1]; exact henv
    · exact h.present hl
  · intro e' id' l hd hl hh
    rw [hlookup] at hl
    rw [hstore] at hh
    split at hl
    · next heq =>
      rw [if_pos heq] at hh
      cases hl
      cases hh
      exact List.mem_cons_self ..
    · next heq =>
      rw [if_neg heq] at hh
      exact List.mem_cons_of_mem _ (h.leased hl hh)

theorem erase (h : Paired L table env acquired) :
    Paired (L.erase (e, id)) (update table e ((table e).remove id)) env acquired := by
  have hremove : ∀ e' id', ((update table e ((table e).remove id)) e').handles.lookup id' =
      if e' = e ∧ id' = id then none else (table e').handles.lookup id' := by
    intro e' id'
    by_cases he : e' = e
    · subst he
      rw [update_self]
      show ((table e').handles.erase id).lookup id' = _
      by_cases hid' : id' = id
      · rw [if_pos ⟨rfl, hid'⟩, hid', AList.lookup_erase]
      · rw [if_neg fun hor => hid' hor.2, AList.lookup_erase_ne hid']
    · rw [update_of_ne he, if_neg fun hor => he hor.1]
  have hlookup : ∀ e' id', (L.erase (e, id)).lookup (e', id') =
      if e' = e ∧ id' = id then none else L.lookup (e', id') := by
    intro e' id'
    by_cases heq : e' = e ∧ id' = id
    · rw [if_pos heq, heq.1, heq.2, AList.lookup_erase]
    · rw [if_neg heq, AList.lookup_erase_ne (by simpa using heq)]
  refine ⟨?_, ?_, ?_, ?_⟩
  · intro e' id'
    rw [hremove, hlookup]
    split
    · rfl
    · exact h.same e' id'
  · intro e' id' l hl
    exact h.pos (Table.lookup_erase_iff.mp hl).2
  · intro e' id' l hl
    exact h.present (Table.lookup_erase_iff.mp hl).2
  · intro e' id' l hd hl hh
    rw [hlookup] at hl
    rw [hremove] at hh
    split at hl
    · cases hl
    · next heq =>
      rw [if_neg heq] at hh
      exact h.leased hl hh

end Paired

/-! ## Steps -/

structure Inv (w : World) : Prop where
  blocks : Blocks w.leases w.blocks w.copies w.freed w.next
  paired : Paired w.leases w.table w.env w.acquired
  written : ∀ b ∈ w.written, ⟨b.serial, b.value, b.into⟩ ∈ w.acquired ∧
    ∃ view, b.view = some view ∧ b.into.Inside view

section

variable {w : World} {e id : ℕ}

theorem Inv.written_cons (hi : Inv w) (q : Acquired) : ∀ b ∈ w.written,
    ⟨b.serial, b.value, b.into⟩ ∈ q :: w.acquired ∧ ∃ view, b.view = some view ∧ b.into.Inside view :=
  fun b hb => ⟨List.mem_cons_of_mem q (hi.written b hb).1, (hi.written b hb).2⟩

theorem writeGuestBytes_eq (w : World) (ptr : ℕ) (data : List UInt8) :
    ∃ g, (w.writeGuestBytes ptr data).2 = { w with guest := g } := by
  rw [World.writeGuestBytes]
  split
  · exact ⟨_, rfl⟩
  · exact ⟨w.guest, rfl⟩

/-- An acquire puts one entry into the table; the guest's memory is its own. -/
theorem insertLease_eq (w : World) (c : World.Acquire) (id hostPtr guestPtr : ℕ) (copied : Bool) :
    ∃ g, w.insertLease c id hostPtr guestPtr copied = { w with
      leases := w.leases.insert (c.e, id)
        { guestPtr, hostPtr, byteLen := c.byteLength, writable := c.mode &&& 2 != 0, copied, serial := w.next }
      next := w.next + 1
      acquired := { serial := w.next, value := c.loaded.getD 0, bytes := ⟨hostPtr, c.byteLength⟩ } :: w.acquired
      guest := g } := by
  obtain ⟨g, hg⟩ := writeGuestBytes_eq { w with
    leases := w.leases.insert (c.e, id)
      { guestPtr, hostPtr, byteLen := c.byteLength, writable := c.mode &&& 2 != 0, copied, serial := w.next }
    next := w.next + 1
    acquired := { serial := w.next, value := c.loaded.getD 0, bytes := ⟨hostPtr, c.byteLength⟩ } :: w.acquired }
    c.leaseOut (Bytes.le 4 id)
  obtain ⟨g', hg'⟩ := writeGuestBytes_eq { w with
    leases := w.leases.insert (c.e, id)
      { guestPtr, hostPtr, byteLen := c.byteLength, writable := c.mode &&& 2 != 0, copied, serial := w.next }
    next := w.next + 1
    acquired := { serial := w.next, value := c.loaded.getD 0, bytes := ⟨hostPtr, c.byteLength⟩ } :: w.acquired
    guest := g } c.dataOut (Bytes.le 4 guestPtr)
  refine ⟨g', ?_⟩
  simp only [World.insertLease, World.writeGuestU32]
  rw [hg, hg']

/-- `w` with a handle for the value `v` in the table of `e`. -/
def World.stored (w : World) (e v : ℕ) : World :=
  { w with
    table := update w.table e ((w.table e).store (some { value := v, serial := w.next })).2 }

theorem bridgeAcquire_cases {c : World.Acquire} (hpos : (w.table c.e).nextId ≠ 0) :
    (∃ status, w.bridgeAcquire c.e c.owned c.loaded c.byteOffset c.byteLength c.made =
      (.error status, w)) ∨
    ∃ v ptr, w.env c.e ≠ .absent ∧ c.owned = true ∧ c.loaded = some v ∧
      w.bridgeAcquire c.e c.owned c.loaded c.byteOffset c.byteLength c.made =
        (.ok ((w.table c.e).nextId, ptr), w.stored c.e v) := by
  unfold World.bridgeAcquire
  by_cases hreq : w.requireEnvState c.e c.owned = false
  · exact .inl ⟨1, by rw [if_pos hreq]⟩
  · rw [if_neg hreq]
    have hreq : w.env c.e ≠ .absent ∧ c.owned = true := by
      simpa [World.requireEnvState] using hreq
    cases hloaded : c.loaded with
    | none => exact .inl ⟨1, rfl⟩
    | some v =>
      dsimp only
      cases w.view v with
      | none => exact .inl ⟨1, rfl⟩
      | some view =>
        dsimp only
        by_cases hrange : c.byteOffset > view.len ∨ c.byteLength > view.len - c.byteOffset
        · exact .inl ⟨1, by rw [if_pos hrange]⟩
        · rw [if_neg hrange]
          by_cases hmade : c.made = false
          · exact .inl ⟨9, by rw [if_pos hmade]⟩
          · rw [if_neg hmade]
            refine .inr ⟨v, if view.start = 0 then 0 else view.start + c.byteOffset, hreq.1, hreq.2, rfl, ?_⟩
            exact if_neg hpos

/-- The handle that an acquire stored goes again: the table names what it named before. -/
theorem giveUp_inv (hi : Inv w) {c : World.Acquire} {v : ℕ} (henv : w.env c.e ≠ .absent)
    (howned : c.owned = true) (hpos : (w.table c.e).nextId ≠ 0)
    (hfresh : (w.table c.e).nextId ∉ (w.table c.e).handles) {u : World}
    (htable : u.table = (w.stored c.e v).table) (henv' : u.env = w.env)
    (hleases : u.leases = w.leases) (hacquired : u.acquired = w.acquired)
    (hwritten : u.written = w.written)
    (hblocks : Blocks u.leases u.blocks u.copies u.freed (u.next + 1)) :
    Inv (u.giveUp c (w.table c.e).nextId).2 := by
  have hreq : u.requireEnvState c.e c.owned ≠ false := by
    simp [World.requireEnvState, henv', henv, howned]
  have hnamed : (u.table c.e).named (w.table c.e).nextId =
      some { value := v, serial := w.next } := by
    rw [htable]
    show (update w.table c.e _ c.e).named _ = _
    rw [update_self, HandleTable.named_store, if_neg hpos, if_pos rfl]
  have hrelease : (u.bridgeRelease c.e c.owned (w.table c.e).nextId).2 =
      { u with table := update u.table c.e ((u.table c.e).remove (w.table c.e).nextId) } := by
    rw [World.bridgeRelease, if_neg hreq, hnamed]
  have hpaired : Paired w.leases
      (update u.table c.e ((u.table c.e).remove (w.table c.e).nextId)) w.env w.acquired := by
    refine hi.paired.setTable ?_
    intro e' id'
    by_cases he : e' = c.e
    · subst he
      rw [update_self, htable]
      show ((update w.table c.e _ c.e).handles.erase _).lookup id' = _
      rw [update_self]
      show (((w.table c.e).handles.insert _ _).erase _).lookup id' = _
      rw [erase_insert hfresh]
    · rw [update_of_ne he, htable]
      show (update w.table c.e _ e').handles.lookup id' = _
      rw [update_of_ne he]
  rw [World.giveUp, hrelease]
  refine ⟨hblocks, ?_, ?_⟩
  · rw [← hleases, ← henv', ← hacquired] at hpaired
    exact hpaired
  · show ∀ b ∈ u.written, _ ∈ u.acquired ∧ _
    rw [hwritten, hacquired]
    exact hi.written

/-- The lease of a handle just stored goes into the table, with a block or without. -/
theorem insertLease_inv (hi : Inv w) {c : World.Acquire} {v : ℕ} (henv : w.env c.e ≠ .absent)
    (hloaded : c.loaded = some v) (hpos : (w.table c.e).nextId ≠ 0)
    (hfresh : (w.table c.e).nextId ∉ (w.table c.e).handles) {u : World}
    (htable : u.table = (w.stored c.e v).table) (henv' : u.env = w.env)
    (hleases : u.leases = w.leases) (hacquired : u.acquired = w.acquired)
    (hwritten : u.written = w.written) (hnext : u.next = w.next) (hfreed : u.freed = w.freed)
    {hostPtr guestPtr : ℕ} {copied : Bool}
    (hcopies : ∀ n, n ∈ u.copies ↔ n ∈ w.copies ∨ (n = w.next ∧ copied = true))
    (hb : ∀ {b n}, w.blocks b = some (.lease n) → u.blocks b = some (.lease n))
    (hnew : copied = true → u.blocks guestPtr = some (.lease w.next)) :
    Inv (u.insertLease c (w.table c.e).nextId hostPtr guestPtr copied) := by
  obtain ⟨g, hg⟩ := insertLease_eq u c (w.table c.e).nextId hostPtr guestPtr copied
  have hkey := hi.paired.not_mem hfresh
  rw [hg]
  refine ⟨?_, ?_, ?_⟩
  · show Blocks (u.leases.insert _ _) u.blocks u.copies u.freed (u.next + 1)
    rw [hleases, hnext, hfreed]
    exact hi.blocks.insert hkey rfl hcopies hb hnew
  · show Paired (u.leases.insert _ _) u.table u.env (_ :: u.acquired)
    rw [hleases, htable, henv', hacquired, hnext, hloaded]
    exact hi.paired.insert rfl hpos henv rfl
  · show ∀ b ∈ u.written, _ ∈ _ :: u.acquired ∧ _
    rw [hwritten, hacquired]
    exact hi.written_cons _

theorem acquire_inv (hi : Inv w) {c : World.Acquire} (hblock : ∀ block ∈ c.block, w.blocks block = none)
    (hpos : (w.table c.e).nextId ≠ 0) (hfresh : (w.table c.e).nextId ∉ (w.table c.e).handles) :
    Inv (w.acquireBufferLease c).2 := by
  unfold World.acquireBufferLease
  split
  · exact hi
  rcases bridgeAcquire_cases hpos with ⟨status, heq⟩ | ⟨v, ptr, henv, howned, hloaded, heq⟩
  · rw [heq]
    exact hi
  rw [heq]
  dsimp only
  split
  · -- The bytes are the guest's own.
    exact insertLease_inv hi henv hloaded hpos hfresh rfl rfl rfl rfl rfl rfl rfl (by simp [World.stored])
      id (by simp)
  cases hb : c.block with
  | none => exact giveUp_inv hi henv howned hpos hfresh rfl rfl rfl rfl rfl hi.blocks.succ
  | some block =>
    have hfree := hblock block (by rw [hb]; rfl)
    have hother : ∀ {b n}, w.blocks b = some (.lease n) →
        ((w.stored c.e v).allocGuest block).blocks b = some (.lease n) := by
      intro b n hlease
      have hne : b ≠ block := by
        rintro rfl
        rw [hfree] at hlease
        cases hlease
      exact (update_of_ne hne _ _).trans hlease
    have hcopies : ∀ n, n ∈ ((w.stored c.e v).allocGuest block).copies ↔
        n ∈ w.copies ∨ (n = w.next ∧ true = true) := by
      intro n
      show n ∈ w.next :: w.copies ↔ _
      rw [List.mem_cons]
      tauto
    have hnew : ((w.stored c.e v).allocGuest block).blocks block = some (.lease w.next) :=
      update_self ..
    dsimp only
    split
    · rcases hwrite : ((w.stored c.e v).allocGuest block).writeGuestBytes block
        ((List.range c.byteLength).map fun i => ((w.stored c.e v).allocGuest block).host (ptr + i)) with ⟨ok, w₁⟩
      obtain ⟨g, hg⟩ := writeGuestBytes_eq ((w.stored c.e v).allocGuest block) block
        ((List.range c.byteLength).map fun i => ((w.stored c.e v).allocGuest block).host (ptr + i))
      rw [hwrite] at hg
      obtain rfl : w₁ = _ := hg
      cases ok with
      | true =>
        exact insertLease_inv (u := { (w.stored c.e v).allocGuest block with guest := g }) hi henv hloaded
          hpos hfresh rfl rfl rfl rfl rfl rfl rfl hcopies hother (fun _ => hnew)
      | false =>
        -- The block is freed as that of a lease is.
        have hfreed : ({ (w.stored c.e v).allocGuest block with guest := g } : World).freeOffset block =
            { (w.stored c.e v).allocGuest block with
              guest := g
              blocks := update ((w.stored c.e v).allocGuest block).blocks block none
              freed := w.next :: w.freed } := by
          rw [World.freeOffset]
          dsimp only
          rw [hnew]
          rfl
        have hkey := hi.paired.not_mem hfresh
        let lent : NativeBufferLease :=
          { guestPtr := block, hostPtr := 0, byteLen := 0, writable := false, copied := true, serial := w.next }
        have hlent : Blocks (w.leases.insert (c.e, (w.table c.e).nextId) lent) _ _ w.freed (w.next + 1) :=
          hi.blocks.insert hkey rfl hcopies hother (fun _ => hnew)
        have hblocks := hlent.erase (AList.lookup_insert _)
        rw [erase_insert hkey, if_pos rfl, if_pos rfl] at hblocks
        show Inv ((World.freeOffset { (w.stored c.e v).allocGuest block with guest := g } block).giveUp c _).2
        rw [hfreed]
        exact giveUp_inv hi henv howned hpos hfresh rfl rfl rfl rfl rfl hblocks
    · exact insertLease_inv (u := (w.stored c.e v).allocGuest block) hi henv hloaded hpos hfresh rfl rfl
        rfl rfl rfl rfl rfl hcopies hother (fun _ => hnew)

/-- The block of a lease that is leaving the table. -/
theorem freeCopy_eq (u : World) {lease : NativeBufferLease}
    (hblock : lease.copied = true → u.blocks lease.guestPtr = some (.lease lease.serial)) :
    u.freeCopy lease = { u with
      blocks := if lease.copied then update u.blocks lease.guestPtr none else u.blocks
      freed := if lease.copied then lease.serial :: u.freed else u.freed } := by
  rw [World.freeCopy]
  split
  · next hcopied =>
    rw [World.freeOffset, hblock hcopied]
  · rfl

theorem bridgeRelease_eq (u : World) (henv : u.env e ≠ .absent) {handle : Handle}
    (hnamed : (u.table e).named id = some handle) :
    (u.bridgeRelease e true id).2 =
      { u with table := update u.table e ((u.table e).remove id) } := by
  have hreq : u.requireEnvState e true ≠ false := by
    simp [World.requireEnvState, henv]
  rw [World.bridgeRelease, if_neg hreq, hnamed]

/-- How every release ends: the block and the handle go. -/
theorem freeCopy_bridgeRelease_eq (u : World) {lease : NativeBufferLease} {handle : Handle}
    (hblock : lease.copied = true → u.blocks lease.guestPtr = some (.lease lease.serial))
    (henv : u.env e ≠ .absent) (hnamed : (u.table e).named id = some handle) :
    ((u.freeCopy lease).bridgeRelease e true id).2 = { u with
      blocks := if lease.copied then update u.blocks lease.guestPtr none else u.blocks
      freed := if lease.copied then lease.serial :: u.freed else u.freed
      table := update u.table e ((u.table e).remove id) } := by
  rw [freeCopy_eq u hblock]
  exact bridgeRelease_eq { u with
    blocks := if lease.copied then update u.blocks lease.guestPtr none else u.blocks
    freed := if lease.copied then lease.serial :: u.freed else u.freed } henv hnamed

theorem release_inv (hi : Inv w) {modified owned : Bool}
    (hsafe : Safe w (.release e id modified owned)) : Inv (w.releaseBufferLease e id modified owned).2 := by
  unfold World.releaseBufferLease
  split
  · exact hi
  cases hl : w.leases.lookup (e, id) with
  | none => exact hi
  | some lease =>
    obtain ⟨rfl, hview⟩ := hsafe lease (by rw [hl]; rfl)
    obtain ⟨handle, hh, hnamed⟩ := hi.paired.handle_of_lookup hl
    have henv := hi.paired.present hl
    have hfree : lease.copied = true → w.blocks lease.guestPtr = some (.lease lease.serial) :=
      hi.blocks.block hl
    have hpaired : Paired (w.leases.erase (e, id)) (update w.table e ((w.table e).remove id)) w.env
        w.acquired := hi.paired.erase
    have hblocks := hi.blocks.erase hl
    have hend : ∀ u : World, u.blocks = w.blocks → u.env = w.env → u.table = w.table →
        ((u.freeCopy lease).bridgeRelease e true id).2 = { u with
          blocks := if lease.copied then update w.blocks lease.guestPtr none else w.blocks
          freed := if lease.copied then lease.serial :: u.freed else u.freed
          table := update w.table e ((w.table e).remove id) } := by
      intro u hb he ht
      rw [freeCopy_bridgeRelease_eq u (hb ▸ hfree) (he ▸ henv) (ht ▸ hnamed), hb, ht]
    dsimp only
    split
    · next hpublishes =>
      have hcopied : lease.copied = true := by
        simp only [NativeBufferLease.publishes, Bool.and_eq_true] at hpublishes
        exact hpublishes.1.1.1
      cases hread : World.readGuestBytes { w with leases := w.leases.erase (e, id) } lease.guestPtr
          lease.byteLen with
      | none =>
        have heq := hend { w with leases := w.leases.erase (e, id) } rfl rfl rfl
        rw [World.freeCopy, if_pos hcopied] at heq
        dsimp only
        rw [heq]
        exact ⟨hblocks, hpaired, hi.written⟩
      | some bytes =>
        have hlen : bytes.length = lease.byteLen := by
          rw [World.readGuestBytes] at hread
          split at hread
          · cases hread
            simp
          · cases hread
        have heq := hend (World.writeBack { w with leases := w.leases.erase (e, id) } lease
          ((w.table e).named id) bytes) rfl rfl rfl
        dsimp only
        rw [heq]
        refine ⟨hblocks, hpaired, ?_⟩
        refine List.forall_mem_cons.mpr ⟨?_, hi.written⟩
        rw [hnamed, hlen]
        obtain ⟨view, hv, hin⟩ := hview hpublishes handle hnamed
        exact ⟨hi.paired.leased hl hh, view, hv, hin⟩
    · have heq := hend { w with leases := w.leases.erase (e, id) } rfl rfl rfl
      rw [heq]
      exact ⟨hblocks, hpaired, hi.written⟩

/-- The leases of some keys are discarded: the others stay, and nothing else changes but their
    blocks. -/
theorem discard_spec (keys : List (ℕ × ℕ)) (u : World)
    (h : Blocks u.leases u.blocks u.copies u.freed u.next) :
    ∃ L blocks freed, u.discard keys = { u with leases := L, blocks := blocks, freed := freed } ∧
      Blocks L blocks u.copies freed u.next ∧
      ∀ key, L.lookup key = if key ∈ keys then none else u.leases.lookup key := by
  induction keys generalizing u with
  | nil => exact ⟨u.leases, u.blocks, u.freed, rfl, h, fun key => by simp⟩
  | cons k keys ih =>
    cases hl : u.leases.lookup k with
    | none =>
      obtain ⟨L, blocks, freed, heq, hblocks, hlookup⟩ := ih u h
      refine ⟨L, blocks, freed, ?_, hblocks, ?_⟩
      · rw [World.discard, hl]
        exact heq
      · intro key
        rw [hlookup]
        by_cases hkey : key = k
        · subst hkey
          simp [hl]
        · simp [hkey]
    | some lease =>
      have hfree := freeCopy_eq { u with leases := u.leases.erase k } (h.block hl)
      obtain ⟨L, blocks, freed, heq, hblocks, hlookup⟩ :=
        ih (World.freeCopy { u with leases := u.leases.erase k } lease) (by rw [hfree]; exact h.erase hl)
      rw [hfree] at heq hblocks hlookup
      refine ⟨L, blocks, freed, ?_, hblocks, ?_⟩
      · rw [World.discard, hl]
        dsimp only
        rw [hfree]
        exact heq
      · intro key
        rw [hlookup]
        show (if key ∈ keys then none else (u.leases.erase k).lookup key) = _
        by_cases hkey : key = k
        · subst hkey
          simp
        · rw [AList.lookup_erase_ne hkey]
          simp [hkey]

theorem noLeases_iff : w.NoLeases e ↔ ∀ id, w.leases.lookup (e, id) = none := by
  constructor
  · intro h id
    by_contra hne
    have hmem : (e, id) ∈ w.leases := AList.lookup_isSome.mp (Option.ne_none_iff_isSome.mp hne)
    exact h (e, id) hmem rfl
  · rintro h ⟨e', id⟩ hmem heq
    obtain rfl : e' = e := heq
    have hsome := AList.lookup_isSome.mpr hmem
    rw [h id] at hsome
    cases hsome

/-- `discard_buffer_leases_for_env` leaves the leases of the other envs. -/
theorem discardBufferLeasesForEnv_spec (hi : Inv w) (e : ℕ) :
    ∃ L blocks freed,
      w.discardBufferLeasesForEnv e = { w with leases := L, blocks := blocks, freed := freed } ∧
      Blocks L blocks w.copies freed w.next ∧
      ∀ e' id', L.lookup (e', id') = if e' = e then none else w.leases.lookup (e', id') := by
  obtain ⟨L, blocks, freed, heq, hblocks, hlookup⟩ :=
    discard_spec ((w.leases.entries.map Sigma.fst).filter fun key => key.1 = e) w hi.blocks
  refine ⟨L, blocks, freed, heq, hblocks, ?_⟩
  intro e' id'
  rw [hlookup]
  by_cases he : e' = e
  · rw [if_pos he]
    split
    · rfl
    · next hmem =>
      apply AList.lookup_eq_none.mpr
      intro hin
      exact hmem (List.mem_filter.mpr ⟨hin, by simpa using he⟩)
  · rw [if_neg he, if_neg]
    intro hmem
    exact he (by simpa using (List.mem_filter.mp hmem).2)

theorem teardown_inv (hi : Inv w) {refused : Bool} {w' : World} (hsafe : Safe w (.teardown e refused))
    (h : step w (.teardown e refused) = some w') : Inv w' := by
  simp only [step] at h
  split at h
  · next hlive =>
    obtain ⟨L, blocks, freed, heq, hblocks, hlookup⟩ := discardBufferLeasesForEnv_spec hi e
    rw [heq] at h
    have hleft : ∀ {e' id' lease}, L.lookup (e', id') = some lease →
        e' ≠ e ∧ w.leases.lookup (e', id') = some lease := by
      intro e' id' lease hl
      rw [hlookup] at hl
      split at hl
      · cases hl
      · exact ⟨‹_›, hl⟩
    cases refused with
    | true =>
      -- There is no lease to discard.
      have hnone := noLeases_iff.mp (hsafe rfl)
      cases h
      refine ⟨hblocks, ⟨?_, ?_, ?_, ?_⟩, hi.written⟩
      · intro e' id'
        show _ = (L.lookup (e', id')).map _
        rw [hlookup]
        split
        · next he =>
          subst he
          rw [← hnone id']
          exact hi.paired.same e' id'
        · exact hi.paired.same e' id'
      · exact fun hl => hi.paired.pos (hleft hl).2
      · exact fun hl => hi.paired.present (hleft hl).2
      · exact fun hl hh => hi.paired.leased (hleft hl).2 hh
    | false =>
      cases h
      refine ⟨hblocks, ⟨?_, ?_, ?_, ?_⟩, hi.written⟩
      · intro e' id'
        show ((update w.table e _ e').handles.lookup id').map _ = (L.lookup (e', id')).map _
        rw [hlookup]
        by_cases he : e' = e
        · rw [he, update_self, if_pos rfl]
          rfl
        · rw [update_of_ne he, if_neg he]
          exact hi.paired.same e' id'
      · exact fun hl => hi.paired.pos (hleft hl).2
      · intro e' id' lease hl
        show update w.env e _ e' ≠ _
        rw [update_of_ne (hleft hl).1]
        exact hi.paired.present (hleft hl).2
      · intro e' id' lease handle hl hh
        have hh : (update w.table e _ e').handles.lookup id' = some handle := hh
        rw [update_of_ne (hleft hl).1] at hh
        exact hi.paired.leased (hleft hl).2 hh
  · cases h

theorem gone_inv (hi : Inv w) (hnone : w.NoLeases e) : Inv { w with
    env := update w.env e .absent
    table := update w.table e {} } := by
  have hnone := noLeases_iff.mp hnone
  have hother : ∀ {e' id' lease}, w.leases.lookup (e', id') = some lease → e' ≠ e := by
    rintro e' id' lease hl rfl
    rw [hnone] at hl
    cases hl
  refine ⟨hi.blocks, ⟨?_, hi.paired.pos, ?_, ?_⟩, hi.written⟩
  · intro e' id'
    show ((update w.table e _ e').handles.lookup id').map _ = _
    by_cases he : e' = e
    · rw [he, update_self, hnone]
      rfl
    · rw [update_of_ne he]
      exact hi.paired.same e' id'
  · intro e' id' lease hl
    show update w.env e _ e' ≠ _
    rw [update_of_ne (hother hl)]
    exact hi.paired.present hl
  · intro e' id' lease handle hl hh
    have hh : (update w.table e _ e').handles.lookup id' = some handle := hh
    rw [update_of_ne (hother hl)] at hh
    exact hi.paired.leased hl hh

end

theorem step_inv (w : World) (act : Act) (w' : World) (h : step w act = some w') (hsafe : Safe w act)
    (hi : Inv w) : Inv w' := by
  cases act with
  | create e =>
    simp only [step] at h
    split at h
    · cases h
      refine ⟨hi.blocks, ⟨hi.paired.same, hi.paired.pos, ?_, hi.paired.leased⟩, hi.written⟩
      intro e' id' lease hl
      show update w.env e _ e' ≠ _
      by_cases he : e' = e
      · rw [he, update_self]
        simp
      · rw [update_of_ne he]
        exact hi.paired.present hl
    · cases h
  | acquire c =>
    simp only [step] at h
    split at h
    · next hblock =>
      cases h
      exact acquire_inv hi hblock hsafe.1 hsafe.2
    · cases h
  | release e leaseId modified owned =>
    cases h
    exact release_inv hi hsafe
  | js view host =>
    cases h
    exact { hi with }
  | guest memory grow =>
    cases h
    exact { hi with }
  | alloc block =>
    simp only [step] at h
    split at h
    · next hfree =>
      cases h
      refine ⟨hi.blocks.setBlocks ?_, hi.paired, hi.written⟩
      intro b n hb
      have hne : b ≠ block := by
        rintro rfl
        rw [hfree] at hb
        cases hb
      exact (update_of_ne hne _ _).trans hb
    · cases h
  | free block =>
    simp only [step] at h
    split at h
    · next hother =>
      cases h
      have heq : w.freeOffset block = { w with blocks := update w.blocks block none } := by
        rw [World.freeOffset, hother]
      rw [heq]
      refine ⟨hi.blocks.setBlocks ?_, hi.paired, hi.written⟩
      intro b n hb
      have hne : b ≠ block := by
        rintro rfl
        rw [hother] at hb
        cases hb
      exact (update_of_ne hne _ _).trans hb
    · cases h
  | teardown e refused => exact teardown_inv hi hsafe h
  | gone e =>
    simp only [step] at h
    split at h
    · cases h
      exact gone_inv hi hsafe
    · cases h

theorem init_inv : Inv {} where
  blocks := {
    serial_lt := nofun
    unique := nofun
    copies_lt := nofun
    copied := nofun
    block := nofun
    freed_once := List.nodup_nil
    freed_mem := nofun
    live := nofun }
  paired := {
    same := fun _ _ => rfl
    pos := nofun
    present := nofun
    leased := nofun }
  written := nofun

/-! ## The host's memory

Every piece of an import but `writeBack` leaves it alone. -/

section

variable (w : World) {e id : ℕ}

theorem host_freeOffset (block : ℕ) : (w.freeOffset block).host = w.host := by
  unfold World.freeOffset
  split <;> rfl

theorem host_freeCopy (lease : NativeBufferLease) : (w.freeCopy lease).host = w.host := by
  unfold World.freeCopy
  split
  · exact host_freeOffset w _
  · rfl

theorem host_bridgeRelease (owned : Bool) : (w.bridgeRelease e owned id).2.host = w.host := by
  unfold World.bridgeRelease
  split
  · rfl
  · split <;> rfl

theorem host_bridgeAcquire (owned made : Bool) (value : Option ℕ) (byteOffset byteLength : ℕ) :
    (w.bridgeAcquire e owned value byteOffset byteLength made).2.host = w.host := by
  unfold World.bridgeAcquire
  split
  · rfl
  · split
    · rfl
    · split
      · rfl
      · split
        · rfl
        · split
          · rfl
          · dsimp only
            split <;> rfl

theorem host_insertLease (c : World.Acquire) (id hostPtr guestPtr : ℕ) (copied : Bool) :
    (w.insertLease c id hostPtr guestPtr copied).host = w.host := by
  obtain ⟨g, hg⟩ := insertLease_eq w c id hostPtr guestPtr copied
  rw [hg]

theorem host_giveUp (c : World.Acquire) : (w.giveUp c id).2.host = w.host :=
  host_bridgeRelease w c.owned

theorem host_writeGuestBytes (ptr : ℕ) (data : List UInt8) :
    (w.writeGuestBytes ptr data).2.host = w.host := by
  obtain ⟨g, hg⟩ := writeGuestBytes_eq w ptr data
  rw [hg]

theorem host_acquireBufferLease (c : World.Acquire) : (w.acquireBufferLease c).2.host = w.host := by
  have hbridge := host_bridgeAcquire w (e := c.e) c.owned c.made c.loaded c.byteOffset c.byteLength
  unfold World.acquireBufferLease
  split
  · rfl
  · split
    · next heq => rw [heq] at hbridge; exact hbridge
    · next id hostPtr w' heq =>
      rw [heq] at hbridge
      have hbridge : w'.host = w.host := hbridge
      rw [← hbridge]
      split
      · exact host_insertLease w' ..
      · split
        · exact host_giveUp w' c
        · next block _ =>
          dsimp only
          split
          · split
            · next w'' hwrite =>
              have hsame := host_writeGuestBytes (w'.allocGuest block) block
                ((List.range c.byteLength).map fun i => (w'.allocGuest block).host (hostPtr + i))
              rw [hwrite] at hsame
              exact (host_insertLease w'' ..).trans hsame
            · next w'' hwrite =>
              have hsame := host_writeGuestBytes (w'.allocGuest block) block
                ((List.range c.byteLength).map fun i => (w'.allocGuest block).host (hostPtr + i))
              rw [hwrite] at hsame
              exact (host_giveUp _ c).trans ((host_freeOffset w'' block).trans hsame)
          · exact host_insertLease (w'.allocGuest block) ..

theorem host_discard (keys : List (ℕ × ℕ)) : ∀ w : World, (w.discard keys).host = w.host := by
  induction keys with
  | nil => exact fun _ => rfl
  | cons key keys ih =>
    intro w
    unfold World.discard
    split
    · exact ih w
    · exact (ih _).trans (host_freeCopy _ _)

/-- What `copy_nonoverlapping` leaves, when the bytes are those of the lease's block. -/
theorem host_writeBack (lease : NativeBufferLease) (handle : Option Handle) :
    (w.writeBack lease handle
        ((List.range lease.byteLen).map fun i => w.guest (lease.guestPtr + i))).host =
      fun a =>
        if lease.hostPtr ≤ a ∧ a < lease.hostPtr + lease.byteLen then
          w.guest (lease.guestPtr + (a - lease.hostPtr))
        else w.host a := by
  funext a
  simp only [World.writeBack]
  by_cases hle : lease.hostPtr ≤ a
  · by_cases hlt : a < lease.hostPtr + lease.byteLen
    · have hin : a - lease.hostPtr < lease.byteLen := by omega
      rw [if_pos hle, if_pos ⟨hle, hlt⟩, List.getD_eq_getElem?_getD, List.getElem?_map,
        List.getElem?_range hin]
      rfl
    · have hout : lease.byteLen ≤ a - lease.hostPtr := by omega
      rw [if_pos hle, if_neg fun h => hlt h.2, List.getD_eq_default]
      rw [List.length_map, List.length_range]
      exact hout
  · rw [if_neg hle, if_neg fun h => hle h.1]

variable {w}

theorem host_releaseBufferLease (hi : Inv w) (modified owned : Bool) :
    (w.releaseBufferLease e id modified owned).2.host =
      w.hostAfter (.release e id modified owned) := by
  unfold World.releaseBufferLease World.hostAfter
  dsimp only
  split
  · next hzero =>
    -- No lease has the id 0.
    cases hl : w.leases.lookup (e, id) with
    | none => rfl
    | some lease => exact absurd hzero (hi.paired.pos hl)
  · cases hl : w.leases.lookup (e, id) with
    | none => rfl
    | some lease =>
      dsimp only
      by_cases hpublishes : lease.publishes modified = true
      · rw [if_pos hpublishes, World.readGuestBytes]
        by_cases hfit : lease.guestPtr + lease.byteLen ≤ w.memLen
        · rw [if_pos hfit, if_pos ⟨hpublishes, hfit⟩]
          dsimp only
          rw [host_bridgeRelease, host_freeCopy]
          exact host_writeBack { w with leases := w.leases.erase (e, id) } lease _
        · rw [if_neg hfit, if_neg fun h => hfit h.2]
          dsimp only
          rw [host_bridgeRelease, host_freeOffset]
      · rw [if_neg hpublishes, if_neg fun h => hpublishes h.1, host_bridgeRelease, host_freeCopy]

theorem host_step (hi : Inv w) (act : Act) (w' : World) (h : step w act = some w') :
    w'.host = w.hostAfter act := by
  cases act with
  | acquire c =>
    simp only [step] at h
    split at h
    · cases h
      exact host_acquireBufferLease w c
    · cases h
  | release e leaseId modified owned =>
    cases h
    exact host_releaseBufferLease hi modified owned
  | js view host =>
    cases h
    rfl
  | guest memory grow =>
    cases h
    rfl
  | free block =>
    simp only [step] at h
    split at h
    · cases h
      exact host_freeOffset w block
    · cases h
  | teardown e refused =>
    simp only [step] at h
    split at h
    · split at h
      · cases h
        exact host_discard _ w
      · cases h
        exact host_discard _ w
    · cases h
  | create e | alloc block | gone e =>
    simp only [step] at h
    split at h
    · cases h
      rfl
    · cases h

end

theorem sound_of_inv {w : World} (hi : Inv w) : w.Sound where
  paired := hi.paired.same
  freed_once := hi.blocks.freed_once
  freed_mem := hi.blocks.freed_mem
  copies n hn := by
    by_cases hfreed : n ∈ w.freed
    · exact .inl ⟨hfreed, (hi.blocks.live n hn).mp hfreed⟩
    · have hlive := mt (hi.blocks.live n hn).mpr hfreed
      push Not at hlive
      obtain ⟨key, lease, hl, hserial⟩ := hlive
      refine .inr ⟨hfreed, key, lease, hl, hserial, ?_⟩
      rw [← hserial]
      exact hi.blocks.block hl ((hi.blocks.copied hl).mpr (hserial ▸ hn))
  written := hi.written
  host := host_step hi

/-- Whatever order leases are acquired and released in, and whatever JavaScript and the guest do
    between, the leases are sound while every step is safe. -/
theorem leases_sound {acts : List Act} {w : World} (h : run step {} acts = some w)
    (hsafe : AllSteps step Safe {} acts) : w.Sound :=
  sound_of_inv (invariant_of_allSteps step_inv h hsafe init_inv)

/-- Eight bytes at 1000, outside the guest's memory, read and written through a lease. -/
def leaseOfEight : World.Acquire where
  e := 1
  value := 5
  byteOffset := 0
  byteLength := 8
  mode := 3
  leaseOut := 16
  dataOut := 24
  owned := true
  loaded := some 5
  made := true
  block := some 64

def viewOfEight : ℕ → Option Span := fun v => if v = 5 then some ⟨1000, 8⟩ else none

/-- Two leases of one value, the second with an id that no lease has; one released and copied back,
    the other left to the teardown. -/
theorem released_sound : ∃ w : World,
    run step {} [.create 1, .guest (fun _ => 7) 65536, .js viewOfEight (fun _ => 9),
      .acquire leaseOfEight, .acquire { leaseOfEight with block := some 128 }, .release 1 3 true true,
      .release 1 1 true true, .teardown 1 false, .gone 1] = some w ∧ w.Sound :=
  have hsafe : AllSteps step Safe {} [.create 1, .guest (fun _ => 7) 65536,
      .js viewOfEight (fun _ => 9), .acquire leaseOfEight,
      .acquire { leaseOfEight with block := some 128 }, .release 1 3 true true,
      .release 1 1 true true, .teardown 1 false, .gone 1] := by decide
  ⟨_, rfl, leases_sound (show run step {} _ = some _ from rfl) hsafe⟩

/-- The buffer is detached between the two: the release writes to where the bytes were. -/
theorem detached_not_sound : ∃ w : World,
    run step {} [.create 1, .guest (fun _ => 7) 65536, .js viewOfEight (fun _ => 9),
      .acquire leaseOfEight, .js (fun _ => some ⟨0, 0⟩) (fun _ => 9),
      .release 1 1 true true] = some w ∧ ¬w.Sound := by
  refine ⟨_, rfl, ?_⟩
  intro h
  obtain ⟨-, view, hview, hin⟩ := h.written _ (List.mem_cons_self ..)
  cases hview
  revert hin
  decide

end WasmerNapi.Bridge.Leases
