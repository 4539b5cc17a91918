import WasmerNapi.HostJs.Serdes

/-!
# Where the two serdes bindings agree

The host hands a written value over once, to the first deserializer that reads it, and the QuickJS
deserializer goes to the end of the buffer with a value. Both write the two halves of a 64-bit
number, but not in the same order, and read them back as different things. Where none of this
matters the two bindings give the same answers.
-/

namespace WasmerNapi.HostJs.Serdes

open Function (update update_self update_of_ne update_eq_self)

variable {V : Type} {e : Quickjs.Serdes.Engine V} {structuredClone : V → Option V}
  {p : SerdesState V} {ws : List (Write V)} {w : Write V} {k : ℕ}

def Write.isValue : Write V → Bool
  | .value _ => true
  | _ => false

def Write.isHalves : Write V → Bool
  | .uint64 _ _ => true
  | _ => false

/-- The write before is a value. -/
def behindValue (ws : List (Write V)) : ℕ → Bool
  | 0 => false
  | k + 1 => (ws[k]?).any Write.isValue

/-- No 64-bit number is read, every value by one deserializer only, and nothing of what was written
    behind it by that one; `used` has the values that have been read. -/
def Once (ws : List (Write V)) : (ℕ → ℕ) → List ℕ → List (ℕ × Read) → Prop
  | _, _, [] => True
  | pos, used, (i, _) :: reads =>
    match ws[pos i]? with
    | none => Once ws pos used reads
    | some w => w.isHalves = false ∧ behindValue ws (pos i) = false ∧
        (w.isValue = true → pos i ∉ used) ∧
        Once ws (update pos i (pos i + 1)) (if w.isValue then pos i :: used else used) reads

/-- Both engines give back the value itself. -/
def Cloneable (e : Quickjs.Serdes.Engine V) (structuredClone : V → Option V) (v : V) : Prop :=
  structuredClone v = some v ∧ e.writeObject v ≠ none

/-! ## What is written -/

def Write.ids (w : Write V) : ℕ := if w.isValue then 1 else 0

/-- What the host's binding writes, a value under that id. -/
def Write.hostBytes (id : ℕ) : Write V → List UInt8
  | .header => headerTag
  | .uint32 n => u32 n.toNat
  | .uint64 first second => u32 first.toNat ++ u32 second.toNat
  | .double bits => Bytes.le 8 bits.toNat
  | .rawBytes source => source
  | .value _ => valueTag ++ u32 id

def hostLayout : ℕ → List (Write V) → List UInt8
  | _, [] => []
  | id, w :: ws => w.hostBytes id ++ hostLayout (id + w.ids) ws

/-- The id of a value. -/
def idAt (next : ℕ) (ws : List (Write V)) (k : ℕ) : ℕ := next + (ws.take k).countP Write.isValue

theorem idAt_cons (next : ℕ) (w : Write V) (ws : List (Write V)) (k : ℕ) :
    idAt next (w :: ws) (k + 1) = idAt (next + w.ids) ws k := by
  unfold idAt Write.ids
  rw [List.take_succ_cons, List.countP_cons]
  omega

theorem idAt_succ (next : ℕ) (h : ws[k]? = some w) : idAt next ws (k + 1) = idAt next ws k + w.ids := by
  unfold idAt Write.ids
  rw [List.take_add_one, h, List.countP_append]
  simp [List.countP_cons, Nat.add_assoc]

theorem idAt_mono (next : ℕ) (ws : List (Write V)) {k k' : ℕ} (h : k ≤ k') :
    idAt next ws k ≤ idAt next ws k' := by
  unfold idAt
  have hsub : (ws.take k).Sublist (ws.take k') := (List.take_prefix_take_left h).sublist
  have hcount := hsub.countP_le (p := Write.isValue)
  omega

theorem idAt_lt (next : ℕ) (h : ws[k]? = some w) (hw : w.isValue = true) {k' : ℕ} (hk : k < k') :
    idAt next ws k < idAt next ws k' := by
  have hsucc := idAt_succ next h
  have hmono := idAt_mono next ws (Nat.succ_le_of_lt hk)
  unfold Write.ids at hsucc
  rw [if_pos hw] at hsucc
  have hmono' : idAt next ws (k + 1) ≤ idAt next ws k' := hmono
  omega

theorem idAt_le (next : ℕ) (ws : List (Write V)) (k : ℕ) : idAt next ws k ≤ next + ws.length := by
  unfold idAt
  have hcount := List.countP_le_length (p := Write.isValue) (l := ws.take k)
  have htake := List.length_take_le' k ws
  omega

theorem hostLayout_drop (next : ℕ) (h : ws[k]? = some w) :
    hostLayout (idAt next ws k) (ws.drop k) =
      w.hostBytes (idAt next ws k) ++ hostLayout (idAt next ws (k + 1)) (ws.drop (k + 1)) := by
  obtain ⟨hlt, rfl⟩ := List.getElem?_eq_some_iff.mp h
  rw [List.drop_eq_getElem_cons hlt, hostLayout, idAt_succ next h]

/-- What the host's writes leave: the buffer, and every value under its id. -/
structure Written (p : SerdesState V) (ws : List (Write V)) (chunks : Chunks)
    (r : SerdesState V × Chunks) : Prop where
  bytes : r.2.flatten = chunks.flatten ++ hostLayout p.next ws
  old : ∀ id, id < p.next → r.1.values id = p.values id
  values : ∀ k v, ws[k]? = some (.value v) → r.1.values (idAt p.next ws k) = some v

theorem foldl_written (hclone : ∀ v, .value v ∈ ws → structuredClone v = some v) :
    ∀ (p : SerdesState V) (chunks : Chunks),
      Written p ws chunks (ws.foldl (write structuredClone) (p, chunks)) := by
  induction ws with
  | nil =>
    intro p chunks
    refine ⟨(List.append_nil _).symm, fun _ _ => rfl, ?_⟩
    intro k v h
    cases h
  | cons w ws ih =>
    intro p chunks
    have ih := ih fun v hv => hclone v (List.mem_cons_of_mem _ hv)
    rw [List.foldl_cons]
    -- one write, which leaves the process alone unless it is a value
    have hplain : ∀ chunks', w.isValue = false → write structuredClone (p, chunks) w = (p, chunks') →
        chunks'.flatten = chunks.flatten ++ w.hostBytes p.next →
        Written p (w :: ws) chunks (ws.foldl (write structuredClone)
          (write structuredClone (p, chunks) w)) := by
      intro chunks' hw hwrite hflat
      obtain ⟨hbytes, hold, hvalues⟩ := ih p chunks'
      have hids : w.ids = 0 := by
        unfold Write.ids
        rw [hw]
        rfl
      rw [hwrite]
      refine ⟨?_, hold, ?_⟩
      · rw [hbytes, hflat, hostLayout, hids, Nat.add_zero, List.append_assoc]
      · intro k v hk
        cases k with
        | zero =>
          cases hk
          cases hw
        | succ k =>
          rw [idAt_cons, hids, Nat.add_zero]
          exact hvalues k v hk
    cases w with
    | header => exact hplain _ rfl rfl (by simp [writeHeader, Write.hostBytes])
    | uint32 n => exact hplain _ rfl rfl (by simp [writeUint32, Write.hostBytes])
    | uint64 first second =>
      exact hplain _ rfl rfl (by simp [writeUint64, writeUint32, Write.hostBytes])
    | double bits => exact hplain _ rfl rfl (by simp [writeDouble, Write.hostBytes])
    | rawBytes source => exact hplain _ rfl rfl (by simp [writeRawBytes, Write.hostBytes])
    | value v =>
      have hv := hclone v (List.mem_cons_self ..)
      have hwrite : write structuredClone (p, chunks) (.value v) =
          ({ next := p.next + 1, values := update p.values p.next (some v) },
            chunks ++ [valueTag, u32 p.next]) := by
        simp only [write, writeValue, hv]
      obtain ⟨hbytes, hold, hvalues⟩ := ih
        { next := p.next + 1, values := update p.values p.next (some v) }
        (chunks ++ [valueTag, u32 p.next])
      rw [hwrite]
      refine ⟨?_, ?_, ?_⟩
      · rw [hbytes]
        simp [hostLayout, Write.hostBytes, Write.ids, Write.isValue]
      · intro id hid
        rw [hold id (Nat.lt_succ_of_lt hid)]
        exact update_of_ne hid.ne ..
      · intro k v' hk
        cases k with
        | zero =>
          cases Option.some.inj hk
          show _ = some v
          rw [show idAt p.next (Write.value v :: ws) 0 = p.next from rfl,
            hold p.next (Nat.lt_succ_self _)]
          exact update_self ..
        | succ k =>
          rw [idAt_cons]
          exact hvalues k v' hk

/-! ## What QuickJS writes -/

/-- What a write puts into the QuickJS buffer. -/
def Write.item (e : Quickjs.Serdes.Engine V) (w : Write V) : Option (Quickjs.Serdes.Item V) :=
  w.quickjs.bind (Quickjs.Serdes.Write.item e)

def quickjsLayout (e : Quickjs.Serdes.Engine V) (ws : List (Write V)) : List UInt8 :=
  Quickjs.Serdes.layout (ws.filterMap (Write.item e))

def Write.quickjsBytes (e : Quickjs.Serdes.Engine V) (w : Write V) : List UInt8 :=
  Quickjs.Serdes.layout (w.item e).toList

theorem quickjsWritten_eq (e : Quickjs.Serdes.Engine V) (ws : List (Write V)) :
    quickjsWritten e ws = quickjsLayout e ws := by
  unfold quickjsWritten quickjsLayout
  rw [Quickjs.Serdes.buffer_eq, Quickjs.Serdes.items, List.filterMap_filterMap]
  rfl

theorem quickjsLayout_cons (e : Quickjs.Serdes.Engine V) (w : Write V) (ws : List (Write V)) :
    quickjsLayout e (w :: ws) = w.quickjsBytes e ++ quickjsLayout e ws := by
  unfold quickjsLayout Write.quickjsBytes
  cases h : w.item e with
  | none => simp [h, Quickjs.Serdes.layout]
  | some i => simp [h, Quickjs.Serdes.layout]

theorem quickjsLayout_drop (e : Quickjs.Serdes.Engine V) (h : ws[k]? = some w) :
    quickjsLayout e (ws.drop k) = w.quickjsBytes e ++ quickjsLayout e (ws.drop (k + 1)) := by
  obtain ⟨hlt, rfl⟩ := List.getElem?_eq_some_iff.mp h
  rw [List.drop_eq_getElem_cons hlt, quickjsLayout_cons]

/-! ## What is read -/

/-- The answer that matches. -/
def Write.answer : Write V → Answer V
  | .header => .header true
  | .uint32 n => .uint32 n
  | .uint64 first second => .halves first second
  | .double bits => .double bits
  | .rawBytes source => .rawBytes source
  | .value v => .value v

namespace Deserializer

/-- The next bytes are there. -/
structure Next (d : Deserializer) (bytes more : List UInt8) : Prop where
  rest : d.bytes.drop d.offset = bytes ++ more
  le : d.offset ≤ d.bytes.length

variable {bytes more : List UInt8}

theorem Next.slice {d : Deserializer} (h : d.Next bytes more) :
    d.slice bytes.length = bytes := by
  rw [Deserializer.slice, h.rest, List.take_left]

theorem Next.room {d : Deserializer} (h : d.Next bytes more) :
    d.offset + bytes.length + more.length = d.bytes.length := by
  have hlen := congrArg List.length h.rest
  rw [List.length_drop, List.length_append] at hlen
  have hle := h.le
  omega

theorem Next.skip {d : Deserializer} (h : d.Next bytes more) :
    (d.skip bytes.length).bytes.drop (d.skip bytes.length).offset = more ∧
      (d.skip bytes.length).offset ≤ d.bytes.length := by
  have hroom := h.room
  constructor
  · show d.bytes.drop (d.offset + bytes.length) = more
    rw [← List.drop_drop, h.rest, List.drop_left]
  · show d.offset + bytes.length ≤ d.bytes.length
    omega

theorem Next.append {d : Deserializer} {first second : List UInt8}
    (h : d.Next (first ++ second) more) :
    d.Next first (second ++ more) ∧ (d.skip first.length).Next second more := by
  have hfirst : d.Next first (second ++ more) := ⟨by rw [h.rest, List.append_assoc], h.le⟩
  exact ⟨hfirst, hfirst.skip.1, hfirst.skip.2⟩

theorem readUint32_next {d : Deserializer} {n : ℕ} (hn : n < 2 ^ 32) (h : d.Next (u32 n) more) :
    d.readUint32 = (some (UInt32.ofNat n), d.skip 4) := by
  have hlen : (u32 n).length = 4 := Bytes.length_le ..
  have hroom := h.room
  have hslice := h.slice
  rw [hlen] at hroom hslice
  have hvalue : Bytes.ofLe (u32 n) = n := by
    rw [u32, Nat.mod_eq_of_lt hn]
    exact Bytes.ofLe_le hn
  rw [readUint32, if_neg (by omega), hslice, hvalue]

theorem readDouble_next {d : Deserializer} {bits : UInt64}
    (h : d.Next (Bytes.le 8 bits.toNat) more) : d.readDouble = (some bits, d.skip 8) := by
  have hroom := h.room
  have hslice := h.slice
  rw [Bytes.length_le] at hroom hslice
  rw [readDouble, if_neg (by omega), hslice, Bytes.ofLe_le bits.toNat_lt, UInt64.ofNat_toNat]

theorem readHeader_next {d : Deserializer} (h : d.Next headerTag more) :
    d.readHeader = (true, d.skip 4) := by
  have hlen : headerTag.length = 4 := rfl
  have hroom := h.room
  have hslice := h.slice
  rw [hlen] at hroom hslice
  rw [readHeader, if_neg (by rw [hslice]; simp; omega)]

theorem readRawBytes_next {d : Deserializer} {source : List UInt8} (hlen : source.length < 2 ^ 32)
    (h : d.Next source more) :
    d.readRawBytes source.length = (some d.offset, d.skip source.length) := by
  have hroom := h.room
  rw [readRawBytes, Nat.mod_eq_of_lt hlen, if_neg (by omega)]

theorem readValue_next {d : Deserializer} {id : ℕ} {v : V} (hid : id < 2 ^ 32)
    (h : d.Next (valueTag ++ u32 id) more) (hvalue : p.values id = some v) :
    d.readValue structuredClone p = (structuredClone v,
      { p with values := update p.values id none }, d.skip 8) := by
  have hlen : (valueTag ++ u32 id).length = 8 := by
    rw [List.length_append, u32, Bytes.length_le]
    rfl
  have hroom := h.room
  obtain ⟨htag, hrest⟩ := h.append
  have hslice := htag.slice
  have hlen' : valueTag.length = 4 := rfl
  rw [hlen] at hroom
  rw [hlen'] at hslice hrest
  have hread := readUint32_next hid hrest
  have hnat : (UInt32.ofNat id).toNat = id := by
    rw [UInt32.toNat_ofNat', Nat.mod_eq_of_lt hid]
  rw [readValue, if_neg (by rw [hslice]; simp; omega), hread]
  dsimp only
  rw [hnat, hvalue]
  rfl

end Deserializer

/-- How far a deserializer of each binding has come, behind the first `k` writes. -/
structure Place (e : Quickjs.Serdes.Engine V) (next : ℕ) (ws : List (Write V))
    (host quickjs : List UInt8) (k : ℕ) (d : Deserializer) (q : Quickjs.Serdes.Deserializer) :
    Prop where
  le : k ≤ ws.length
  bytes : d.bytes = host
  offset : d.offset ≤ host.length
  rest : host.drop d.offset = hostLayout (idAt next ws k) (ws.drop k)
  memory : ∀ i < quickjs.length, q.memory i = (quickjs[i]?).getD 0
  size : q.size = quickjs.length
  qoffset : q.offset ≤ quickjs.length
  qrest : behindValue ws k = false ∨ k = ws.length →
    quickjs.drop q.offset = quickjsLayout e (ws.drop k)

section

variable {start : ℕ} {host quickjs : List UInt8} {d : Deserializer}
  {q : Quickjs.Serdes.Deserializer}

theorem Place.upcoming (h : Place e start ws host quickjs k d q) (hw : ws[k]? = some w) :
    d.Next (w.hostBytes (idAt start ws k))
      (hostLayout (idAt start ws (k + 1)) (ws.drop (k + 1))) := by
  constructor
  · rw [h.bytes, h.rest, hostLayout_drop start hw]
  · rw [h.bytes]
    exact h.offset

theorem Place.hostSize (h : Place e start ws host quickjs k d q) (hw : ws[k]? = some w) :
    (w.hostBytes (idAt start ws k)).length ≤ host.length := by
  have hroom := (h.upcoming hw).room
  rw [h.bytes] at hroom
  omega

/-- The host's read of what was written next. -/
theorem Place.host_read (h : Place e start ws host quickjs k d q) (hw : ws[k]? = some w)
    (hhalves : w.isHalves = false) (hsize : host.length < 2 ^ 32)
    (hid : w.isValue = true → idAt start ws k < 2 ^ 32)
    (hvalue : ∀ v, w = .value v → structuredClone v = some v ∧ p.values (idAt start ws k) = some v) :
    ∃ p', read structuredClone p d w.read =
        (some w.answer, p', d.skip (w.hostBytes (idAt start ws k)).length) ∧
      (w.isValue = false → p' = p) ∧
      ∀ id, id ≠ idAt start ws k → p'.values id = p.values id := by
  have hnext := h.upcoming hw
  have hsmall := h.hostSize hw
  cases w with
  | header =>
    refine ⟨p, ?_, fun _ => rfl, fun _ _ => rfl⟩
    rw [Write.read, Serdes.read, Deserializer.readHeader_next hnext]
    rfl
  | uint32 n =>
    refine ⟨p, ?_, fun _ => rfl, fun _ _ => rfl⟩
    rw [Write.read, Serdes.read, Deserializer.readUint32_next n.toNat_lt hnext, UInt32.ofNat_toNat,
      Write.hostBytes, u32, Bytes.length_le]
    rfl
  | uint64 first second => cases hhalves
  | double bits =>
    refine ⟨p, ?_, fun _ => rfl, fun _ _ => rfl⟩
    rw [Write.read, Serdes.read, Deserializer.readDouble_next hnext, Write.hostBytes,
      Bytes.length_le]
    rfl
  | rawBytes source =>
    refine ⟨p, ?_, fun _ => rfl, fun _ _ => rfl⟩
    have hlen : source.length < 2 ^ 32 := hsmall.trans_lt hsize
    have hslice : (d.bytes.drop d.offset).take source.length = source := hnext.slice
    rw [Write.read, Serdes.read, Deserializer.readRawBytes_next hlen hnext]
    show (some (Answer.rawBytes ((d.bytes.drop d.offset).take source.length)), _) = _
    rw [hslice]
    rfl
  | value v =>
    obtain ⟨hclone, hv⟩ := hvalue v rfl
    refine ⟨{ p with values := update p.values (idAt start ws k) none }, ?_, fun h => (by cases h), ?_⟩
    · have hlen : (Write.hostBytes (idAt start ws k) (Write.value v)).length = 8 := by
        rw [Write.hostBytes, List.length_append, u32, Bytes.length_le]
        rfl
      rw [Write.read, Serdes.read, Deserializer.readValue_next (hid rfl) hnext hv, hclone, hlen]
      rfl
    · exact fun id hne => update_of_ne hne ..

theorem Place.quickjs_rest (h : Place e start ws host quickjs k d q) :
    q.rest = quickjs.drop q.offset := by
  have hq := h.qoffset
  have hlen : q.rest.length = (quickjs.drop q.offset).length := by
    rw [Quickjs.Serdes.Deserializer.rest, Quickjs.Serdes.Deserializer.length_slice,
      List.length_drop, h.size]
  refine List.ext_getElem hlen ?_
  intro i hi hi'
  rw [List.length_drop] at hi'
  have hin : q.offset + i < quickjs.length := by omega
  have hmemory := h.memory (q.offset + i) hin
  rw [List.getElem?_eq_getElem hin, Option.getD_some] at hmemory
  rw [List.getElem_drop, ← hmemory]
  simp [Quickjs.Serdes.Deserializer.rest, Quickjs.Serdes.Deserializer.slice]

/-- What QuickJS reads back is the item. -/
theorem Place.quickjs_item (h : Place e start ws host quickjs k d q) (he : e.Inverts)
    (hw : ws[k]? = some w) (hbehind : behindValue ws k = false) {i : Quickjs.Serdes.Item V}
    (hitem : w.item e = some i) (hread : w.read.quickjs = some i.read) (hwritten : i.Written e) :
    quickjsRead e quickjs q w.read =
      (some (answer quickjs w.read.length (i.result (q.offset % 2 ^ 32))),
        { q with offset := i.next q }) := by
  have hbytes : w.quickjsBytes e = i.bytes := by
    simp [Write.quickjsBytes, hitem, Quickjs.Serdes.layout]
  have hrest : q.rest = i.bytes ++ quickjsLayout e (ws.drop (k + 1)) := by
    rw [h.quickjs_rest, h.qrest (Or.inl hbehind), quickjsLayout_drop e hw, hbytes]
  have hoff : q.offset ≤ q.size := h.size ▸ h.qoffset
  rw [quickjsRead, hread]
  dsimp only
  rw [Quickjs.Serdes.read_item he hwritten hoff hrest]
  rfl

/-- The QuickJS read of what was written next. -/
theorem Place.quickjs_read (h : Place e start ws host quickjs k d q) (he : e.Inverts)
    (hw : ws[k]? = some w) (hbehind : behindValue ws k = false)
    (hvalue : ∀ v, w = .value v → e.writeObject v ≠ none) (hsize : quickjs.length < 2 ^ 32) :
    quickjsRead e quickjs q w.read = (some w.answer,
      { q with offset := if w.isValue then q.size else q.offset + (w.quickjsBytes e).length }) := by
  have hbytes : ∀ {i}, w.item e = some i → w.quickjsBytes e = i.bytes := by
    intro i hitem
    simp [Write.quickjsBytes, hitem, Quickjs.Serdes.layout]
  cases w with
  | header => rfl
  | uint32 n =>
    rw [h.quickjs_item he hw hbehind (i := .uint32 n) rfl rfl trivial, hbytes rfl]
    rfl
  | uint64 first second =>
    rw [h.quickjs_item he hw hbehind (i := .uint64 first second) rfl rfl trivial, hbytes rfl]
    rfl
  | double bits =>
    rw [h.quickjs_item he hw hbehind (i := .double bits) rfl rfl trivial, hbytes rfl]
    rfl
  | rawBytes source =>
    have hrest := h.qrest (Or.inl hbehind)
    rw [quickjsLayout_drop e hw, hbytes (i := .rawBytes source) rfl] at hrest
    have hsource : (quickjs.drop (q.offset % 2 ^ 32)).take source.length = source := by
      rw [Nat.mod_eq_of_lt (h.qoffset.trans_lt hsize), hrest]
      exact List.take_left
    rw [h.quickjs_item he hw hbehind (i := .rawBytes source) rfl rfl trivial, hbytes rfl]
    show (some (Answer.rawBytes ((quickjs.drop (q.offset % 2 ^ 32)).take source.length)), _) = _
    rw [hsource]
    rfl
  | value v =>
    obtain ⟨encoded, hencoded⟩ := Option.ne_none_iff_exists'.mp (hvalue v rfl)
    have hitem : (Write.value v).item e = some (.value v encoded) := by
      show (e.writeObject v).map _ = _
      rw [hencoded]
      rfl
    rw [h.quickjs_item he hw hbehind hitem rfl hencoded]
    rfl

/-! ## Behind the last write -/

theorem Place.host_end (h : Place e start ws host quickjs k d q) (hk : ws[k]? = none) {r : Read}
    (hr : r.consumes = true) : read structuredClone p d r = (none, p, d) := by
  have hge : ws.length ≤ k := List.getElem?_eq_none_iff.mp hk
  have hend : d.bytes.length = d.offset := by
    have hrest := h.rest
    rw [List.drop_eq_nil_of_le hge, hostLayout] at hrest
    have hle := List.drop_eq_nil_iff.mp hrest
    have hoff := h.offset
    rw [h.bytes]
    omega
  cases r with
  | header => cases hr
  | uint32 => simp [Serdes.read, Deserializer.readUint32, hend]
  | uint64 => simp [Serdes.read, Deserializer.readUint64, Deserializer.readUint32, hend]
  | double => simp [Serdes.read, Deserializer.readDouble, hend]
  | rawBytes length =>
    have hpos : 0 < length % 2 ^ 32 := by
      simp only [Read.consumes, bne_iff_ne] at hr
      omega
    rw [Serdes.read, Deserializer.readRawBytes, if_pos (by omega)]
    rfl
  | value => simp [Serdes.read, Deserializer.readValue, hend]

theorem Place.quickjs_end (h : Place e start ws host quickjs k d q) (he : e.Inverts)
    (hk : ws[k]? = none) {r : Read} (hr : r.consumes = true) :
    quickjsRead e quickjs q r = (none, q) := by
  have hge : ws.length ≤ k := List.getElem?_eq_none_iff.mp hk
  have hend : q.offset = q.size := by
    have hrest := h.qrest (Or.inr (le_antisymm h.le hge))
    rw [List.drop_eq_nil_of_le hge] at hrest
    have hle := List.drop_eq_nil_iff.mp hrest
    have hoff := h.qoffset
    rw [h.size]
    omega
  have hfails : ∀ {read}, r.quickjs = some read → (q.read e read).1 = none →
      quickjsRead e quickjs q r = (none, q) := by
    intro read hread hnone
    rw [quickjsRead, hread]
    dsimp only
    rw [hnone, Quickjs.Serdes.Deserializer.failures_keep e q read hnone]
    rfl
  have hlittle : ∀ width, 0 < width → q.readLittleEndian width = none := by
    intro width hpos
    rw [Quickjs.Serdes.Deserializer.readLittleEndian, if_pos (by omega)]
  cases r with
  | header => cases hr
  | uint32 =>
    apply hfails rfl
    rw [Quickjs.Serdes.Deserializer.read, Quickjs.Serdes.Deserializer.readUint32,
      hlittle 4 (by omega)]
  | uint64 =>
    apply hfails rfl
    rw [Quickjs.Serdes.Deserializer.read, Quickjs.Serdes.Deserializer.readUint64,
      hlittle 8 (by omega)]
  | double =>
    apply hfails rfl
    rw [Quickjs.Serdes.Deserializer.read, Quickjs.Serdes.Deserializer.readDouble,
      if_pos (by omega)]
  | rawBytes length =>
    have hpos : 0 < length := by
      simp only [Read.consumes, bne_iff_ne] at hr
      by_contra hzero
      rw [Nat.le_zero.mp (Nat.le_of_not_lt hzero)] at hr
      exact hr rfl
    apply hfails rfl
    rw [Quickjs.Serdes.Deserializer.read, Quickjs.Serdes.Deserializer.readRawBytes,
      if_pos (by omega)]
  | value =>
    have hslice : q.slice (q.size - q.offset) = [] := by
      rw [hend, Nat.sub_self]
      rfl
    apply hfails rfl
    rw [Quickjs.Serdes.Deserializer.read, Quickjs.Serdes.Deserializer.readValue,
      if_neg (by omega), hslice, he.empty]

/-! ## The whole -/

/-- Where the deserializers are, and what the process has still to hand over. -/
structure Related (e : Quickjs.Serdes.Engine V) (start : ℕ) (ws : List (Write V))
    (host quickjs : List UInt8) (pos : ℕ → ℕ) (used : List ℕ) (p : SerdesState V)
    (ds : ℕ → Deserializer) (qs : ℕ → Quickjs.Serdes.Deserializer) : Prop where
  place : ∀ i, Place e start ws host quickjs (pos i) (ds i) (qs i)
  values : ∀ k v, ws[k]? = some (.value v) → k ∉ used → p.values (idAt start ws k) = some v

theorem Place.behind (h : Place e start ws host quickjs k d q) (hw : ws[k]? = some w)
    (hbehind : behindValue ws k = false) :
    Place e start ws host quickjs (k + 1) (d.skip (w.hostBytes (idAt start ws k)).length)
      { q with offset := if w.isValue then q.size else q.offset + (w.quickjsBytes e).length } := by
  obtain ⟨hlt, _⟩ := List.getElem?_eq_some_iff.mp hw
  have hskip := (h.upcoming hw).skip
  have hrest := h.qrest (Or.inl hbehind)
  rw [quickjsLayout_drop e hw] at hrest
  have hlen := congrArg List.length hrest
  rw [List.length_drop, List.length_append] at hlen
  have hoff := h.qoffset
  refine ⟨hlt, h.bytes, ?_, ?_, h.memory, h.size, ?_, ?_⟩
  · rw [← h.bytes]
    exact hskip.2
  · rw [← h.bytes]
    exact hskip.1
  · dsimp only
    split
    · exact h.size.le
    · omega
  · intro hclean
    dsimp only
    cases hvalue : w.isValue with
    | false =>
      rw [if_neg Bool.false_ne_true, ← List.drop_drop, hrest, List.drop_left]
    | true =>
      -- nothing is read behind a value but where nothing was written
      have hend : k + 1 = ws.length := by
        refine hclean.resolve_left ?_
        simp [behindValue, hw, hvalue]
      rw [if_pos rfl, hend, List.drop_length, h.size, List.drop_length]
      rfl

theorem readAll_agree (he : e.Inverts) (hhost : host.length < 2 ^ 32)
    (hquickjs : quickjs.length < 2 ^ 32) (hids : start + ws.length ≤ 2 ^ 32)
    (hcloneable : ∀ v, .value v ∈ ws → Cloneable e structuredClone v) (reads : List (ℕ × Read)) :
    ∀ (pos : ℕ → ℕ) (used : List ℕ) (p : SerdesState V) (ds : ℕ → Deserializer)
      (qs : ℕ → Quickjs.Serdes.Deserializer),
      Matching ws pos reads → Once ws pos used reads →
      Related e start ws host quickjs pos used p ds qs →
      Agree (readAll structuredClone p ds reads) (quickjsReadAll e quickjs qs reads) := by
  induction reads with
  | nil =>
    intro pos used p ds qs _ _ _
    exact ⟨rfl, nofun, nofun⟩
  | cons read reads ih =>
    obtain ⟨i, r⟩ := read
    intro pos used p ds qs hmatching honce hrelated
    have hplace := hrelated.place i
    unfold Matching at hmatching
    unfold Once at honce
    cases hw : ws[pos i]? with
    | none =>
      rw [hw] at hmatching honce
      dsimp only at hmatching honce
      have hread : read structuredClone p (ds i) r = (none, p, ds i) :=
        hplace.host_end hw hmatching.1
      have hqread := hplace.quickjs_end he hw hmatching.1
      have hsame : update ds i (ds i) = ds := update_eq_self i ds
      have hqsame : update qs i (qs i) = qs := update_eq_self i qs
      obtain ⟨hanswers, hkeeps, hqkeeps⟩ := ih pos used p ds qs hmatching.2 honce hrelated
      unfold readAll quickjsReadAll
      dsimp only
      rw [hread, hqread]
      dsimp only
      rw [hsame, hqsame]
      refine ⟨congrArg (none :: ·) hanswers, ?_, ?_⟩
      · intro x hx hnone
        rcases List.mem_cons.mp hx with rfl | hx
        · rfl
        · exact hkeeps x hx hnone
      · intro x hx hnone
        rcases List.mem_cons.mp hx with rfl | hx
        · rfl
        · exact hqkeeps x hx hnone
    | some w =>
      rw [hw] at hmatching honce
      dsimp only at hmatching honce
      obtain ⟨rfl, hmatching⟩ := hmatching
      obtain ⟨hhalves, hbehind, hunused, honce⟩ := honce
      have hmem : w ∈ ws := List.mem_of_getElem? hw
      have hvalue : ∀ v, w = .value v → structuredClone v = some v ∧
          p.values (idAt start ws (pos i)) = some v := by
        rintro v rfl
        exact ⟨(hcloneable v hmem).1, hrelated.values _ v hw (hunused rfl)⟩
      have hid : w.isValue = true → idAt start ws (pos i) < 2 ^ 32 := by
        intro hv
        obtain ⟨hlt, _⟩ := List.getElem?_eq_some_iff.mp hw
        have hbelow := idAt_lt start hw hv (Nat.lt_succ_self (pos i))
        have hle := idAt_le start ws (pos i + 1)
        have hbelow' : idAt start ws (pos i) < idAt start ws (pos i + 1) := hbelow
        omega
      obtain ⟨p', hread, hplain, hother⟩ := hplace.host_read hw hhalves hhost hid hvalue
      have hqread := hplace.quickjs_read he hw hbehind
        (fun v hv => (hcloneable v (hv ▸ hmem)).2) hquickjs
      have hbehind' := hplace.behind hw hbehind
      have hnext : Related e start ws host quickjs (update pos i (pos i + 1))
          (if w.isValue then pos i :: used else used) p'
          (update ds i ((ds i).skip (w.hostBytes (idAt start ws (pos i))).length))
          (update qs i { qs i with
            offset := if w.isValue then (qs i).size
              else (qs i).offset + (w.quickjsBytes e).length }) := by
        constructor
        · intro j
          by_cases hj : j = i
          · subst hj
            rw [update_self, update_self, update_self]
            exact hbehind'
          · rw [update_of_ne hj, update_of_ne hj, update_of_ne hj]
            exact hrelated.place j
        · intro j v hj hnot
          cases hv : w.isValue with
          | false =>
            rw [hv] at hnot
            rw [hplain hv]
            exact hrelated.values j v hj hnot
          | true =>
            rw [hv] at hnot
            have hne : j ≠ pos i := List.ne_of_not_mem_cons hnot
            rw [hother _ _, hrelated.values j v hj (List.not_mem_of_not_mem_cons hnot)]
            rcases Nat.lt_or_gt_of_ne hne with hlt | hlt
            · exact (idAt_lt start hj rfl hlt).ne
            · exact (idAt_lt start hw hv hlt).ne'
      obtain ⟨hanswers, hkeeps, hqkeeps⟩ := ih _ _ p' _ _ hmatching honce hnext
      unfold readAll quickjsReadAll
      dsimp only
      rw [hread, hqread]
      refine ⟨congrArg (some w.answer :: ·) hanswers, ?_, ?_⟩
      · intro x hx hnone
        rcases List.mem_cons.mp hx with rfl | hx
        · cases hnone
        · exact hkeeps x hx hnone
      · intro x hx hnone
        rcases List.mem_cons.mp hx with rfl | hx
        · cases hnone
        · exact hqkeeps x hx hnone

end

/-- **The two bindings agree** on all reads that match the writes, as long as no 64-bit number is
    read, every value once, and by each deserializer last. Past the end nothing is said of a
    header, for which QuickJS has no bytes, or of raw bytes of length 0. -/
theorem serdes_agree (he : e.Inverts) (p : SerdesState V) (beyond : ℕ → UInt8)
    (hcloneable : ∀ v, .value v ∈ ws → Cloneable e structuredClone v)
    (hids : p.next + ws.length ≤ 2 ^ 32)
    (hhost : (written structuredClone p ws).2.length < 2 ^ 32)
    (hquickjs : (quickjsWritten e ws).length < 2 ^ 32) {reads : List (ℕ × Read)}
    (hmatching : Matching ws (fun _ => 0) reads) (honce : Once ws (fun _ => 0) [] reads) :
    Agrees e structuredClone p beyond ws reads := by
  obtain ⟨hbytes, _, hvalues⟩ := foldl_written (fun v hv => (hcloneable v hv).1) p []
  have hbuffer : (written structuredClone p ws).2 = hostLayout p.next ws := by
    rw [List.flatten_nil, List.nil_append] at hbytes
    exact hbytes
  have hrelated : Related e p.next ws (written structuredClone p ws).2 (quickjsWritten e ws)
      (fun _ => 0) [] (written structuredClone p ws).1
      (fun _ => { bytes := (written structuredClone p ws).2 })
      (fun _ => Quickjs.Serdes.deserializerNew (quickjsWritten e ws) beyond) := by
    refine ⟨?_, fun k v hk _ => hvalues k v hk⟩
    intro i
    refine ⟨Nat.zero_le _, rfl, Nat.zero_le _, hbuffer, ?_, rfl, Nat.zero_le _, ?_⟩
    · intro j hj
      show ((quickjsWritten e ws)[j]?).getD (beyond j) = _
      rw [List.getElem?_eq_getElem hj]
      rfl
    · intro _
      exact quickjsWritten_eq e ws
  exact readAll_agree he hhost hquickjs hids hcloneable reads _ _ _ _ _ hmatching honce hrelated

/-- Two deserializers read what is in front of a value, one of them the value and then too much. -/
theorem one_value_agrees : Agrees Quickjs.Serdes.tagged some {} (fun _ => 0)
    [.header, .uint32 5, .rawBytes [9], .value 7]
    [(0, .header), (1, .header), (0, .uint32), (0, .rawBytes 1), (1, .uint32), (0, .value),
      (0, .double)] := by
  have hcloneable : ∀ v, .value v ∈ [.header, .uint32 5, .rawBytes [9], (.value 7 : Write UInt8)] →
      Cloneable Quickjs.Serdes.tagged some v := fun v _ => ⟨rfl, Option.some_ne_none _⟩
  refine serdes_agree Quickjs.Serdes.tagged_inverts {} (fun _ => 0) hcloneable ?_ ?_ ?_ ?_ ?_
  · decide
  · decide
  · decide
  · exact ⟨rfl, rfl, rfl, rfl, rfl, rfl, rfl, trivial⟩
  · simp [Once, Write.isHalves, Write.isValue, behindValue]

/-- A second deserializer over the same buffer does not get the value from the host's binding. -/
theorem two_readers_not_agree : ¬ ∀ (ws : List (Write UInt8)) (reads : List (ℕ × Read)),
    Matching ws (fun _ => 0) reads →
      Agrees Quickjs.Serdes.tagged some {} (fun _ => 0) ws reads := by
  intro h
  have hagrees := (h [.value 7] [(0, .value), (1, .value)] ⟨rfl, rfl, trivial⟩).answers
  revert hagrees
  decide

end WasmerNapi.HostJs.Serdes
