import WasmerNapi.Bridge.External
import WasmerNapi.GuestHeap.HostRange
import WasmerNapi.Lib.Bytes

/-!
# Reading and writing guest memory

`src/src/guest/util.rs`. Every import reads and writes guest memory through the helpers here. Where
the env has a guest heap they go through a raw host pointer, checked against the length the heap
has seen, and copy in steps of 8, 4, 2 and 1 bytes; where it has none they go through a
`MemoryView`, which checks by itself. `access_agrees` says that nobody can tell which it was.

A pointer to guest bytes on the host's side is a host address; what can be read at it is the rest
of the memory from there on.
-/

namespace WasmerNapi.Guest.Memory

open Word Bridge

variable {A : Type}

/-- What the helpers use of a `NapiEnv`. -/
structure GuestEnv (A : Type) where
  memory : Option GuestMemory := none
  guestHeap : Option (GuestHeap A) := none

/-- A heap is made over the memory of its env, which cannot move or shrink or outgrow its
    maximum. -/
structure HeapOver (h : GuestHeap A) (m : GuestMemory) : Prop where
  base : h.base = m.base
  observed : h.observedLen ≤ m.size
  max : m.size ≤ h.maxBytes

def GuestEnv.Ok (e : GuestEnv A) : Prop := ∀ h ∈ e.guestHeap, ∀ m ∈ e.memory, HeapOver h m

def GuestEnv.withoutHeap (e : GuestEnv A) : GuestEnv A := { e with guestHeap := none }

/-- Someone grows the memory: the new bytes are zero. -/
def GuestEnv.grow (e : GuestEnv A) (bytes : ℕ) : GuestEnv A :=
  { e with memory := e.memory.map fun m => { m with data := m.data ++ List.replicate bytes 0 } }

/-! ## The copies -/

/-- A copy under way: what is still to be read, where it has got to and how much is left. -/
structure Copy (D : Type) where
  src : List UInt8
  dst : D
  len : ℕ

namespace Copy

variable {D : Type} (put : D → List UInt8 → D)

/-- `step`, for a type of `n` bytes. -/
def step (n : ℕ) (c : Copy D) : Copy D where
  src := c.src.drop n
  dst := put c.dst (c.src.take n)
  len := c.len - n

/-- `while len >= 8`. -/
def words : ℕ → Copy D → Copy D
  | 0, c => c
  | fuel + 1, c => if 8 ≤ c.len then words fuel (c.step put 8) else c

def stepIf (n : ℕ) (c : Copy D) : Copy D := if n ≤ c.len then c.step put n else c

def run (c : Copy D) : Copy D :=
  (((c.words put c.len).stepIf put 4).stepIf put 2).stepIf put 1

end Copy

/-- `copy_from_guest`, into a buffer of the host's. -/
def copyFromGuest (src dst : List UInt8) (len : ℕ) : List UInt8 :=
  (Copy.run (fun dst bytes => dst ++ bytes) { src, dst, len }).dst

/-- Bytes of the host stored at an address, and the address after them. -/
def store (dst : GuestMemory × ℕ) (bytes : List UInt8) : GuestMemory × ℕ :=
  ({ dst.1 with data := Bytes.put dst.1.data (dst.2 - dst.1.base) bytes }, dst.2 + bytes.length)

/-- `copy_to_guest`. -/
def copyToGuest (m : GuestMemory) (src : List UInt8) (dst len : ℕ) : GuestMemory :=
  (Copy.run store { src, dst := (m, dst), len }).dst.1

/-- What there is to read at a host address. -/
def bytesAt (m : GuestMemory) (src : ℕ) : List UInt8 := m.data.drop (src - m.base)

/-- `guest_bytes_at`. -/
def guestBytesAt (m : GuestMemory) (src len : ℕ) : List UInt8 := copyFromGuest (bytesAt m src) [] len

/-! ## The helpers

`none` is the abort of a base that moved, here and below. -/

def guestRange (e : GuestEnv A) (guestPtr len : ℕ) : Option (Option ℕ × GuestEnv A) :=
  if len = 0 then some (none, e)
  else
    match e.guestHeap, e.memory with
    | some h, some m => (h.hostRange guestPtr len m.base m.size).map fun r =>
        (r.1, { e with guestHeap := some r.2 })
    | _, _ => some (none, e)

/-- `MemoryView::read`. -/
def viewRead (m : GuestMemory) (offset len : ℕ) : Option (List UInt8) :=
  if offset + len ≤ m.size then some ((m.data.drop offset).take len) else none

/-- `MemoryView::write`. -/
def viewWrite (m : GuestMemory) (offset : ℕ) (data : List UInt8) : Option GuestMemory :=
  if offset + data.length ≤ m.size then some { m with data := Bytes.put m.data offset data }
  else none

def writeGuestBytes (e : GuestEnv A) (guestPtr : ℕ) (data : List UInt8) :
    Option (Bool × GuestEnv A) :=
  (guestRange e guestPtr data.length).map fun r =>
    match r.1, r.2.memory with
    | _, none => (false, r.2)
    | some dst, some m => (true, { r.2 with memory := some (copyToGuest m data dst data.length) })
    | none, some m =>
      match viewWrite m guestPtr data with
      | none => (false, r.2)
      | some m => (true, { r.2 with memory := some m })

def readGuestBytes (e : GuestEnv A) (guestPtr len : ℕ) :
    Option (Option (List UInt8) × GuestEnv A) :=
  (guestRange e guestPtr len).map fun r =>
    (r.2.memory.bind fun m =>
      match r.1 with
      | some src => some (guestBytesAt m src len)
      -- A guest cannot reference more bytes than its memory holds.
      | none => if m.size < len then none else viewRead m guestPtr len, r.2)

def readGuestU32 (e : GuestEnv A) (guestPtr : ℕ) : Option (Option ℕ × GuestEnv A) :=
  (guestRange e guestPtr 4).map fun r =>
    (r.2.memory.bind fun m =>
      match r.1 with
      | some src => some (Bytes.ofLe (copyFromGuest (bytesAt m src) [] 4))
      | none => (viewRead m guestPtr 4).map Bytes.ofLe, r.2)

def writeGuestU32 (e : GuestEnv A) (guestPtr val : ℕ) : Option (Bool × GuestEnv A) :=
  writeGuestBytes e guestPtr (Bytes.le 4 val)

/-- `guest_data_size`. -/
def guestDataSize (e : GuestEnv A) : ℕ := (e.memory.map GuestMemory.size).getD 0

/-! ## The copies copy -/

section Copy

variable {D : Type} {put : D → List UInt8 → D} {Valid : D → Prop}

/-- A destination to which bytes can be put one stretch after the other. -/
structure Appends (put : D → List UInt8 → D) (Valid : D → Prop) : Prop where
  nil : ∀ d, Valid d → put d [] = d
  append : ∀ d a b, Valid d → put (put d a) b = put d (a ++ b)
  valid : ∀ d a, Valid d → Valid (put d a)

/-- Nothing of what is still to come is lost in a step. -/
structure SameCopy (put : D → List UInt8 → D) (Valid : D → Prop) (c c' : Copy D) : Prop where
  valid : Valid c.dst → Valid c'.dst
  rest : Valid c.dst → put c'.dst (c'.src.take c'.len) = put c.dst (c.src.take c.len)

theorem SameCopy.refl (c : Copy D) : SameCopy put Valid c c := ⟨id, fun _ => rfl⟩

theorem SameCopy.trans {c c' c'' : Copy D} (h : SameCopy put Valid c c')
    (h' : SameCopy put Valid c' c'') : SameCopy put Valid c c'' where
  valid hv := h'.valid (h.valid hv)
  rest hv := (h'.rest (h.valid hv)).trans (h.rest hv)

theorem same_step (ha : Appends put Valid) {n : ℕ} {c : Copy D} (hn : n ≤ c.len) :
    SameCopy put Valid c (c.step put n) where
  valid hv := ha.valid _ _ hv
  rest hv := by
    have hsplit : c.src.take c.len = c.src.take n ++ (c.src.drop n).take (c.len - n) := by
      rw [← List.take_add, Nat.add_sub_cancel' hn]
    show put (put c.dst (c.src.take n)) ((c.src.drop n).take (c.len - n)) = _
    rw [ha.append _ _ _ hv, hsplit]

theorem same_stepIf (ha : Appends put Valid) (n : ℕ) (c : Copy D) :
    SameCopy put Valid c (c.stepIf put n) := by
  unfold Copy.stepIf
  split
  next hn => exact same_step ha hn
  next => exact SameCopy.refl c

theorem same_words (ha : Appends put Valid) (fuel : ℕ) (c : Copy D) :
    SameCopy put Valid c (c.words put fuel) := by
  induction fuel generalizing c with
  | zero => exact SameCopy.refl c
  | succ fuel ih =>
    unfold Copy.words
    split
    next hn => exact (same_step ha hn).trans (ih _)
    next => exact SameCopy.refl c

variable (put) in
/-- After the loop fewer than eight bytes are left, … -/
theorem len_words (fuel : ℕ) (c : Copy D) (h : c.len ≤ fuel) : (c.words put fuel).len < 8 := by
  induction fuel generalizing c with
  | zero =>
    have hzero : c.len = 0 := Nat.le_zero.mp h
    simp [Copy.words, hzero]
  | succ fuel ih =>
    unfold Copy.words
    split
    next hn =>
      refine ih _ ?_
      show c.len - 8 ≤ fuel
      omega
    next hn => exact not_le.mp hn

variable (put) in
theorem len_stepIf (n : ℕ) (c : Copy D) (h : c.len < 2 * n) : (c.stepIf put n).len < n := by
  unfold Copy.stepIf
  split
  next =>
    show c.len - n < n
    omega
  next hn => exact not_le.mp hn

/-- … and after each of the smaller steps fewer than its own size. -/
theorem run_len (c : Copy D) : (c.run put).len = 0 := by
  have hlen := len_stepIf put 1 _ (len_stepIf put 2 _ (len_stepIf put 4 _
    (len_words put c.len c le_rfl)))
  exact Nat.lt_one_iff.mp hlen

theorem run_dst (ha : Appends put Valid) {c : Copy D} (hv : Valid c.dst) :
    (c.run put).dst = put c.dst (c.src.take c.len) := by
  have hsame : SameCopy put Valid c (c.run put) :=
    (((same_words ha c.len c).trans (same_stepIf ha 4 _)).trans (same_stepIf ha 2 _)).trans
      (same_stepIf ha 1 _)
  have hrest := hsame.rest hv
  rw [run_len, List.take_zero, ha.nil _ (hsame.valid hv)] at hrest
  exact hrest

end Copy

theorem appends_append : Appends (fun dst bytes : List UInt8 => dst ++ bytes) fun _ => True where
  nil d _ := List.append_nil d
  append d a b _ := List.append_assoc d a b
  valid _ _ _ := trivial

theorem copyFromGuest_eq (src dst : List UInt8) (len : ℕ) :
    copyFromGuest src dst len = dst ++ src.take len :=
  run_dst appends_append (c := { src, dst, len }) trivial

/-- The address is in the memory or at its end. -/
def Within (dst : GuestMemory × ℕ) : Prop :=
  dst.1.base ≤ dst.2 ∧ dst.2 - dst.1.base ≤ dst.1.data.length

theorem appends_store : Appends store Within where
  nil d _ := by simp [store, Bytes.put_nil]
  append d a b hd := by
    obtain ⟨hbase, hin⟩ := hd
    have haddr : d.2 + a.length - d.1.base = d.2 - d.1.base + a.length := by omega
    simp only [store, haddr, Bytes.put_put hin, List.length_append, Nat.add_assoc]
  valid d a hd := by
    obtain ⟨hbase, hin⟩ := hd
    have hlen := Bytes.length_put_of_le hin a
    refine ⟨Nat.le_add_right_of_le hbase, ?_⟩
    show d.2 + a.length - d.1.base ≤ (Bytes.put d.1.data (d.2 - d.1.base) a).length
    omega

theorem copyToGuest_eq {m : GuestMemory} {dst : ℕ} (data : List UInt8) (hd : Within (m, dst)) :
    copyToGuest m data dst data.length =
      { m with data := Bytes.put m.data (dst - m.base) data } := by
  unfold copyToGuest
  rw [run_dst appends_store (c := { src := data, dst := (m, dst), len := data.length }) hd]
  simp [store]

/-! ## Both ways are one -/

variable {e e' : GuestEnv A} {h : GuestHeap A} {m : GuestMemory} {guestPtr len : ℕ}

theorem ok_withoutHeap (e : GuestEnv A) : e.withoutHeap.Ok := by
  intro h hh
  cases hh

/-- Nothing is lost of what is known of a heap when its memory grows up to its maximum. -/
theorem ok_grow {bytes : ℕ} (he : e.Ok)
    (hmax : ∀ h ∈ e.guestHeap, ∀ m ∈ e.memory, m.size + bytes ≤ h.maxBytes) : (e.grow bytes).Ok := by
  intro h hh m' hm'
  obtain ⟨m, hm, rfl⟩ := Option.map_eq_some_iff.mp hm'
  have hover := he h hh m hm
  have hsize : GuestMemory.size { m with data := m.data ++ List.replicate bytes 0 } =
      m.size + bytes := by
    simp [GuestMemory.size]
  refine ⟨hover.base, ?_, ?_⟩
  · rw [hsize]
    exact hover.observed.trans (Nat.le_add_right ..)
  · rw [hsize]
    exact hmax h hh m hm

/-- What `guest_range` finds: the address of a range in the memory, where there is a heap. -/
structure Found (e e' : GuestEnv A) (m : GuestMemory) (guestPtr len : ℕ) (r : Option ℕ) : Prop where
  ok : e'.Ok
  memory : e'.memory = some m
  inside : ∀ p, r = some p → p = m.base + guestPtr ∧ guestPtr + len ≤ m.size

/-- A lookup in a heap does not abort, and what it finds is what a look at the memory would. -/
theorem hostRange_spec (ho : HeapOver h m) (guestPtr len : ℕ) :
    ∃ r h', h.hostRange guestPtr len m.base m.size = some (r, h') ∧ HeapOver h' m ∧
      ∀ p, r = some p → p = m.base + guestPtr ∧ guestPtr + len ≤ m.size := by
  have hat : ∀ {h' : GuestHeap A} {p : ℕ}, h'.base = h.base → guestPtr + len ≤ m.size →
      h'.rangeAt guestPtr (guestPtr + len) = some p →
      p = m.base + guestPtr ∧ guestPtr + len ≤ m.size := by
    intro h' p hbase hin hp
    obtain ⟨rfl, _⟩ := HostRange.rangeAt_eq_some.mp hp
    exact ⟨by rw [hbase, ho.base], hin⟩
  unfold GuestHeap.hostRange
  cases hadd : checkedAdd 64 guestPtr len with
  | none => exact ⟨none, h, rfl, ho, nofun⟩
  | some stop =>
    obtain ⟨_, rfl⟩ := checkedAdd_eq_some.mp hadd
    simp only
    have hseen : HeapOver (h.observe m.size) m :=
      ⟨ho.base, max_le ho.observed le_rfl, ho.max⟩
    by_cases hslow : h.observedLen < guestPtr + len
    · rw [if_pos hslow, if_neg (not_not.mpr ho.base.symm)]
      by_cases hshort : m.size < guestPtr + len
      · rw [if_pos hshort]
        exact ⟨none, _, rfl, hseen, nofun⟩
      · rw [if_neg hshort]
        exact ⟨_, _, rfl, hseen, fun p hp => hat rfl (not_lt.mp hshort) hp⟩
    · rw [if_neg hslow]
      exact ⟨_, _, rfl, ho, fun p hp => hat rfl ((not_lt.mp hslow).trans ho.observed) hp⟩

theorem guestRange_spec (he : e.Ok) (hm : e.memory = some m) (guestPtr len : ℕ) :
    ∃ r e', guestRange e guestPtr len = some (r, e') ∧ Found e e' m guestPtr len r := by
  have hnone : Found e e m guestPtr len none := ⟨he, hm, nofun⟩
  unfold guestRange
  by_cases hlen : len = 0
  · rw [if_pos hlen]
    exact ⟨none, e, rfl, hnone⟩
  · rw [if_neg hlen]
    cases hh : e.guestHeap with
    | none => exact ⟨none, e, rfl, hnone⟩
    | some h =>
      obtain ⟨r, h', hr, ho, hin⟩ := hostRange_spec (he h hh m hm) guestPtr len
      simp only [hm, hr]
      refine ⟨r, _, rfl, ?_, rfl, hin⟩
      intro h'' hh'' m' hm'
      cases hh''
      cases hm'
      exact ho

/-- `read_guest_bytes` is a read of the view. -/
theorem readGuestBytes_spec (he : e.Ok) (hm : e.memory = some m) (guestPtr len : ℕ) :
    ∃ e', readGuestBytes e guestPtr len = some (m.read guestPtr len, e') ∧ e'.Ok ∧
      e'.memory = some m := by
  obtain ⟨r, e', hr, hf⟩ := guestRange_spec he hm guestPtr len
  refine ⟨e', ?_, hf.ok, hf.memory⟩
  unfold readGuestBytes
  rw [hr, Option.map_some, hf.memory, Option.bind_some]
  cases r with
  | some p =>
    obtain ⟨rfl, hin⟩ := hf.inside p rfl
    simp only [guestBytesAt, copyFromGuest_eq, bytesAt, Nat.add_sub_cancel_left, List.nil_append,
      GuestMemory.read, if_pos hin]
  | none =>
    simp only [viewRead, GuestMemory.read]
    by_cases hlong : m.size < len
    · rw [if_pos hlong, if_neg (by omega)]
    · rw [if_neg hlong]

theorem readGuestU32_spec (he : e.Ok) (hm : e.memory = some m) (guestPtr : ℕ) :
    ∃ e', readGuestU32 e guestPtr = some ((m.read guestPtr 4).map Bytes.ofLe, e') ∧ e'.Ok ∧
      e'.memory = some m := by
  obtain ⟨r, e', hr, hf⟩ := guestRange_spec he hm guestPtr 4
  refine ⟨e', ?_, hf.ok, hf.memory⟩
  unfold readGuestU32
  rw [hr, Option.map_some, hf.memory, Option.bind_some]
  cases r with
  | some p =>
    obtain ⟨rfl, hin⟩ := hf.inside p rfl
    simp only [copyFromGuest_eq, bytesAt, Nat.add_sub_cancel_left, List.nil_append,
      GuestMemory.read, if_pos hin, Option.map_some]
  | none => rfl

theorem write_eq_put {data : List UInt8} (hin : guestPtr + data.length ≤ m.size) :
    m.write guestPtr data = { m with data := Bytes.put m.data guestPtr data } := if_pos hin

theorem size_write (m : GuestMemory) (guestPtr : ℕ) (data : List UInt8) :
    (m.write guestPtr data).size = m.size := by
  unfold GuestMemory.write
  split
  next hin => exact Bytes.length_put hin
  next => rfl

theorem base_write (m : GuestMemory) (guestPtr : ℕ) (data : List UInt8) :
    (m.write guestPtr data).base = m.base := by
  unfold GuestMemory.write
  split <;> rfl

/-- `write_guest_bytes` is a write through the view. -/
theorem writeGuestBytes_spec (he : e.Ok) (hm : e.memory = some m) (guestPtr : ℕ)
    (data : List UInt8) :
    ∃ e', writeGuestBytes e guestPtr data =
        some (decide (guestPtr + data.length ≤ m.size), e') ∧ e'.Ok ∧
      e'.memory = some (m.write guestPtr data) := by
  obtain ⟨r, e', hr, hf⟩ := guestRange_spec he hm guestPtr data.length
  have hok : ∀ {m' : GuestMemory}, m' = m.write guestPtr data →
      GuestEnv.Ok { e' with memory := some m' } := by
    rintro m' rfl h hh m₁ hm₁
    cases hm₁
    obtain ⟨hbase, hobs, hmax⟩ := hf.ok h hh m hf.memory
    exact ⟨by rw [base_write, hbase], by rw [size_write]; exact hobs, by rw [size_write]; exact hmax⟩
  unfold writeGuestBytes
  rw [hr, Option.map_some]
  simp only [hf.memory]
  cases r with
  | some p =>
    obtain ⟨rfl, hin⟩ := hf.inside p rfl
    have hwithin : Within (m, m.base + guestPtr) := by
      refine ⟨Nat.le_add_right .., ?_⟩
      show m.base + guestPtr - m.base ≤ m.size
      omega
    have hcopy : copyToGuest m data (m.base + guestPtr) data.length = m.write guestPtr data := by
      rw [copyToGuest_eq data hwithin, write_eq_put hin, Nat.add_sub_cancel_left]
    refine ⟨_, ?_, hok hcopy, congrArg some hcopy⟩
    simp [hin]
  | none =>
    simp only [viewWrite]
    by_cases hin : guestPtr + data.length ≤ m.size
    · rw [if_pos hin]
      refine ⟨_, ?_, hok (write_eq_put hin).symm, congrArg some (write_eq_put hin).symm⟩
      simp [hin]
    · rw [if_neg hin]
      refine ⟨e', ?_, hf.ok, ?_⟩
      · simp [hin]
      · rw [hf.memory, GuestMemory.write, if_neg hin]

/-- Memory after a write of `data` at `guestPtr`: the range is the data, and the rest is as it
    was. -/
structure Wrote (m : GuestMemory) (guestPtr : ℕ) (data : List UInt8) (m' : GuestMemory) : Prop where
  base : m'.base = m.base
  size : m'.size = m.size
  inside : ∀ i < data.length, m'.data[guestPtr + i]? = data[i]?
  outside : ∀ i, i < guestPtr ∨ guestPtr + data.length ≤ i → m'.data[i]? = m.data[i]?

theorem wrote_write {data : List UInt8} (hin : guestPtr + data.length ≤ m.size) :
    Wrote m guestPtr data (m.write guestPtr data) := by
  have hlen : (m.data.take guestPtr).length = guestPtr := by
    rw [List.length_take]
    unfold GuestMemory.size at hin
    omega
  refine ⟨base_write .., size_write .., ?_, ?_⟩
  · intro i hi
    rw [write_eq_put hin]
    unfold Bytes.put
    rw [List.getElem?_append_left (by rw [List.length_append]; omega),
      List.getElem?_append_right (by omega), hlen, Nat.add_sub_cancel_left]
  · intro i hi
    rw [write_eq_put hin]
    unfold Bytes.put
    rcases hi with hlt | hge
    · rw [List.append_assoc, List.getElem?_append_left (by omega), List.getElem?_take_of_lt hlt]
    · rw [List.getElem?_append_right (by rw [List.length_append]; omega), List.length_append, hlen,
        List.getElem?_drop, Nat.add_sub_cancel' hge]

/-- What the three helpers answer on a memory. -/
structure Accesses (e : GuestEnv A) (m : GuestMemory) (guestPtr len : ℕ) (data : List UInt8) :
    Prop where
  read : (readGuestBytes e guestPtr len).map Prod.fst = some
    (if guestPtr + len ≤ m.size then some ((m.data.drop guestPtr).take len) else none)
  readU32 : (readGuestU32 e guestPtr).map Prod.fst = some
    (if guestPtr + 4 ≤ m.size then some (Bytes.ofLe ((m.data.drop guestPtr).take 4)) else none)
  written : guestPtr + data.length ≤ m.size → ∃ e' m', writeGuestBytes e guestPtr data =
    some (true, e') ∧ e'.memory = some m' ∧ Wrote m guestPtr data m'
  refused : m.size < guestPtr + data.length → ∃ e', writeGuestBytes e guestPtr data =
    some (false, e') ∧ e'.memory = some m

theorem accesses (he : e.Ok) (hm : e.memory = some m) (guestPtr len : ℕ) (data : List UInt8) :
    Accesses e m guestPtr len data where
  read := by
    obtain ⟨e', hr, _, _⟩ := readGuestBytes_spec he hm guestPtr len
    rw [hr]
    rfl
  readU32 := by
    obtain ⟨e', hr, _, _⟩ := readGuestU32_spec he hm guestPtr
    rw [hr, Option.map_some]
    unfold GuestMemory.read
    split <;> rfl
  written hin := by
    obtain ⟨e', hw, _, hm'⟩ := writeGuestBytes_spec he hm guestPtr data
    rw [decide_eq_true hin] at hw
    exact ⟨e', _, hw, hm', wrote_write hin⟩
  refused hout := by
    obtain ⟨e', hw, _, hm'⟩ := writeGuestBytes_spec he hm guestPtr data
    rw [decide_eq_false (not_le.mpr hout)] at hw
    rw [GuestMemory.write, if_neg (not_le.mpr hout)] at hm'
    exact ⟨e', hw, hm'⟩

/-- Whether an env has a heap does not show in what it reads and writes, even after its memory has
    been grown. -/
theorem access_agrees (he : e.Ok) (hm : e.memory = some m) (bytes : ℕ)
    (hmax : ∀ h ∈ e.guestHeap, m.size + bytes ≤ h.maxBytes) (guestPtr len : ℕ) (data : List UInt8) :
    let grown := { m with data := m.data ++ List.replicate bytes 0 }
    Accesses (e.grow bytes) grown guestPtr len data ∧
      Accesses (e.grow bytes).withoutHeap grown guestPtr len data := by
  have hgrown : (e.grow bytes).memory = some { m with data := m.data ++ List.replicate bytes 0 } := by
    simp [GuestEnv.grow, hm]
  refine ⟨accesses (ok_grow he ?_) hgrown guestPtr len data,
    accesses (ok_withoutHeap (e.grow bytes)) hgrown guestPtr len data⟩
  intro h hh m' hm'
  rw [hm] at hm'
  cases hm'
  exact hmax h hh

/-- A memory of sixteen bytes, of which the heap has seen eight. -/
def sixteen : GuestEnv Unit where
  memory := some ⟨4096, List.replicate 16 7⟩
  guestHeap := some
    { base := 4096, maxBytes := 32, charged := 0, observedLen := 8,
      inner := { memories := [], chunks := [], live := ∅, freeBytes := 0, pendingWant := 0 } }

theorem access_agrees_sixteen :
    let grown : GuestMemory := ⟨4096, List.replicate 16 7 ++ List.replicate 8 0⟩
    Accesses (sixteen.grow 8) grown 11 13 [1, 2, 3] ∧
      Accesses (sixteen.grow 8).withoutHeap grown 11 13 [1, 2, 3] := by
  have hok : sixteen.Ok := by
    intro h hh m hm
    cases hh
    cases hm
    exact ⟨rfl, by decide, by decide⟩
  refine access_agrees hok rfl 8 ?_ 11 13 [1, 2, 3]
  intro h hh
  cases hh
  decide

end WasmerNapi.Guest.Memory
