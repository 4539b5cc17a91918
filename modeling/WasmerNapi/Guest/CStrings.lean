import WasmerNapi.Guest.Memory

/-!
# NUL-terminated strings in guest memory

`read_guest_c_string_max` finds the end of a string in one of three ways: in place in a first
chunk, in place in the rest of the memory, or a block at a time through a `MemoryView`. The scans in
place read eight bytes at a time and test a word for a zero byte.

`readGuestCStringMax_iff` says what all of them find. The UTF-16 import has a scan of its own, which
stops at an unreadable address and after a fixed number of units as if the string ended there;
`createStringUtf16_iff` says on which memories that is the string.
-/

namespace WasmerNapi.Guest.Memory

open Word Bridge

variable {A : Type}

/-! ## The scan in place -/

def ones : BitVec 64 := 0x0101010101010101
def highs : BitVec 64 := 0x8080808080808080

/-- No byte of the word is zero. -/
def noNul (word : BitVec 64) : Bool := (word - ones) &&& ~~~word &&& highs == 0

def wordOf (bytes : List UInt8) : BitVec 64 := BitVec.ofNat 64 (Bytes.ofLe bytes)

/-- The loop of `guest_nul_offset` from `index` on, over the bytes that are left. -/
def guestNulOffset (index : ℕ) : List UInt8 → Option ℕ
  | b₀ :: b₁ :: b₂ :: b₃ :: b₄ :: b₅ :: b₆ :: b₇ :: rest =>
    if noNul (wordOf [b₀, b₁, b₂, b₃, b₄, b₅, b₆, b₇]) then guestNulOffset (index + 8) rest
    else if b₀ = 0 then some index
    else guestNulOffset (index + 1) (b₁ :: b₂ :: b₃ :: b₄ :: b₅ :: b₆ :: b₇ :: rest)
  | b :: rest => if b = 0 then some index else guestNulOffset (index + 1) rest
  | [] => none

/-! ## The reader -/

/-- `c_string_search_len`. -/
def cStringSearchLen (size start max : ℕ) : Option ℕ :=
  if start < size then
    tryFrom 64 (min (size - start) (min (saturatingAdd 64 max 1) (2 ^ 32 - 1)))
  else none

/-- The loop over blocks, from `offset` on. -/
def scanBlocks (m : GuestMemory) (start stop : ℕ) : ℕ → ℕ → Option (List UInt8)
  | 0, _ => none
  | fuel + 1, offset =>
    if offset < stop then
      let len := min (stop - offset) 4096
      (viewRead m offset len).bind fun block =>
        match block.findIdx? (· == 0) with
        | some nul => viewRead m start (offset - start + nul)
        | none => scanBlocks m start stop fuel (offset + len)
    else none

/-- Past the first chunk, of which `scanned` bytes have been looked at. -/
def readRest (e : GuestEnv A) (guestPtr max scanned : ℕ) :
    Option (Option (List UInt8) × GuestEnv A) :=
  match cStringSearchLen (guestDataSize e) guestPtr max with
  | none => some (none, e)
  | some search =>
    (guestRange e guestPtr search).map fun r =>
      (r.2.memory.bind fun m =>
        match r.1 with
        | some src =>
          if search < scanned then none
          else
            (guestNulOffset scanned (((bytesAt m src).take search).drop scanned)).map fun len =>
              guestBytesAt m src len
        | none => scanBlocks m guestPtr (guestPtr + search) (search + 1) guestPtr, r.2)

def readGuestCStringMax (e : GuestEnv A) (guestPtr max : ℕ) :
    Option (Option (List UInt8) × GuestEnv A) :=
  let chunk := min 256 (saturatingAdd 64 max 1)
  (guestRange e guestPtr chunk).bind fun r =>
    match r.1, r.2.memory with
    | some src, some m =>
      match guestNulOffset 0 ((bytesAt m src).take chunk) with
      | some len => some (some (guestBytesAt m src len), r.2)
      | none => readRest r.2 guestPtr max chunk
    | _, _ => readRest r.2 guestPtr max 0

/-! ## UTF-16 -/

/-- `MAX_GUEST_CSTRING_SCAN`. -/
def maxGuestCStringScan : ℕ := 64 * 1024

def autoLength : ℕ := 0xFFFFFFFF

/-- Pairs of bytes as little-endian code units; an odd byte at the end is none. -/
def unitsOf : List UInt8 → List UInt16
  | a :: b :: rest => UInt16.ofNat (Bytes.ofLe [a, b]) :: unitsOf rest
  | _ => []

/-- The scan for a zero unit, from the unit `scanLen` on. -/
def scanUnits (strPtr : ℕ) : ℕ → ℕ → GuestEnv A → Option (ℕ × GuestEnv A)
  | 0, scanLen, e => some (scanLen, e)
  | fuel + 1, scanLen, e =>
    (readGuestBytes e (saturatingAdd 32 strPtr (truncate 32 (truncate 32 scanLen * 2))) 2).bind
      fun r =>
        match r.1 with
        | none => some (scanLen, r.2)
        | some bytes =>
          if Bytes.ofLe bytes = 0 then some (scanLen, r.2)
          else if maxGuestCStringScan < scanLen + 1 then some (scanLen + 1, r.2)
          else scanUnits strPtr fuel (scanLen + 1) r.2

/-- What the import leaves behind: its status, and the units and the count the engine was handed. -/
structure Reply (A : Type) where
  status : ℕ
  handed : Option (List UInt16 × ℕ) := none
  env : GuestEnv A

/-- `guest_napi_create_string_utf16`. The bridge answers with a status and an id. -/
def guestNapiCreateStringUtf16 (bridge : List UInt16 → ℕ → ℕ × ℕ) (e : GuestEnv A)
    (strPtr length rp : ℕ) : Option (Reply A) :=
  (if length = autoLength then scanUnits strPtr (maxGuestCStringScan + 1) 0 e
    else some (length, e)).bind fun counted =>
    (readGuestBytes counted.2 strPtr (counted.1 * 2)).bind fun r =>
      match r.1 with
      | none => some { status := 1, env := r.2 }
      | some rawBytes =>
        let handed := (unitsOf rawBytes, truncate 32 counted.1)
        let (s, out) := bridge handed.1 handed.2
        if s = 0 then
          (writeGuestU32 r.2 rp out).map fun w => { status := s, handed := some handed, env := w.2 }
        else some { status := s, handed := some handed, env := r.2 }

/-! ## The word test -/

/-- Below the first zero byte nothing is borrowed, so its high bit comes out set. -/
theorem high_bit {w j : ℕ} (hj : j < 8) (hz : w / 256 ^ j % 256 = 0)
    (hlow : ∀ i < j, w / 256 ^ i % 256 ≠ 0) :
    (2 ^ 64 - 0x0101010101010101 + w) % 2 ^ 64 / 2 ^ (8 * j + 7) % 2 = 1 ∧
      w / 2 ^ (8 * j + 7) % 2 = 0 := by
  have h0 := hlow 0
  have h1 := hlow 1
  have h2 := hlow 2
  have h3 := hlow 3
  have h4 := hlow 4
  have h5 := hlow 5
  have h6 := hlow 6
  interval_cases j <;> norm_num at hz h0 h1 h2 h3 h4 h5 h6 ⊢ <;> omega

theorem getLsbD_of_digit {x : BitVec 64} {i v : ℕ} (h : x.toNat / 2 ^ i % 2 = v) :
    x.getLsbD i = decide (v = 1) := by
  rw [BitVec.getLsbD, Nat.testBit_eq_decide_div_mod_eq, h]

theorem noNul_spec {word : BitVec 64} (h : noNul word = true) :
    ∀ j < 8, word.toNat / 256 ^ j % 256 ≠ 0 := by
  intro j
  induction j using Nat.strong_induction_on with
  | _ j ih =>
    intro hj hz
    obtain ⟨hsub, hword⟩ := high_bit hj hz fun i hi => ih i hi (hi.trans hj)
    have hzero : (word - ones) &&& ~~~word &&& highs = 0 := by simpa [noNul] using h
    have hbit := congrArg (fun x : BitVec 64 => x.getLsbD (8 * j + 7)) hzero
    have hsub' : (word - ones).getLsbD (8 * j + 7) = true := by
      rw [getLsbD_of_digit (v := 1)]
      · rfl
      · rw [BitVec.toNat_sub]
        exact hsub
    have hhigh : highs.getLsbD (8 * j + 7) = true := by
      interval_cases j <;> rfl
    have hin : 8 * j + 7 < 64 := by omega
    simp only [BitVec.getLsbD_and, BitVec.getLsbD_not, hsub', hhigh, getLsbD_of_digit hword, hin]
      at hbit
    simp at hbit

theorem byte_ofLe (bytes : List UInt8) (i : ℕ) (hi : i < bytes.length) :
    Bytes.ofLe bytes / 256 ^ i % 256 = (bytes[i]).toNat := by
  induction bytes generalizing i with
  | nil => cases hi
  | cons b bytes ih =>
    have hb : b.toNat < 256 := b.toNat_lt
    cases i with
    | zero =>
      rw [Bytes.ofLe, pow_zero, Nat.div_one, List.getElem_cons_zero]
      omega
    | succ i =>
      have hdiv : Bytes.ofLe (b :: bytes) / 256 ^ (i + 1) = Bytes.ofLe bytes / 256 ^ i := by
        rw [pow_succ', ← Nat.div_div_eq_div_mul, Bytes.ofLe]
        congr 1
        omega
      rw [hdiv, List.getElem_cons_succ]
      exact ih i (Nat.lt_of_succ_lt_succ hi)

/-- A word that passes the test has no zero byte. -/
theorem noNul_wordOf {bytes : List UInt8} (hlen : bytes.length = 8)
    (h : noNul (wordOf bytes) = true) : ∀ b ∈ bytes, ¬ (b == 0) = true := by
  intro b hb
  obtain ⟨i, hi, rfl⟩ := List.getElem_of_mem hb
  have hword : (wordOf bytes).toNat = Bytes.ofLe bytes := by
    have hlt := Bytes.ofLe_lt bytes
    rw [hlen] at hlt
    exact Nat.mod_eq_of_lt hlt
  have hne := noNul_spec h i (hlen ▸ hi)
  rw [hword, byte_ofLe bytes i hi] at hne
  intro hz
  rw [eq_of_beq hz] at hne
  exact hne rfl

theorem findIdx_nul (rest : List UInt8) : (0 :: rest).findIdx? (· == 0) = some 0 := by
  rw [List.findIdx?_cons, if_pos (beq_self_eq_true 0)]

theorem findIdx_cons {b : UInt8} (hb : ¬ b = 0) (rest : List UInt8) :
    (b :: rest).findIdx? (· == 0) = (rest.findIdx? (· == 0)).map (· + 1) := by
  rw [List.findIdx?_cons, if_neg (by simpa using hb)]

theorem map_shift (o : Option ℕ) (index n : ℕ) :
    (o.map (· + n)).map (index + ·) = o.map (index + n + ·) := by
  cases o with
  | none => rfl
  | some k =>
    simp only [Option.map_some]
    congr 1
    omega

/-- `guest_nul_offset` finds the first zero byte. -/
theorem guestNulOffset_eq (index : ℕ) (bytes : List UInt8) :
    guestNulOffset index bytes = (bytes.findIdx? (· == 0)).map (index + ·) := by
  induction index, bytes using guestNulOffset.induct with
  | case1 index b₀ b₁ b₂ b₃ b₄ b₅ b₆ b₇ rest hword ih =>
    have hno := noNul_wordOf rfl hword
    have hskip : (b₀ :: b₁ :: b₂ :: b₃ :: b₄ :: b₅ :: b₆ :: b₇ :: rest).findIdx? (· == 0) =
        (rest.findIdx? (· == 0)).map (· + 8) := by
      have hnone : [b₀, b₁, b₂, b₃, b₄, b₅, b₆, b₇].findIdx? (· == (0 : UInt8)) = none :=
        List.findIdx?_eq_none_iff.mpr fun b hb => Bool.eq_false_iff.mpr (hno b hb)
      show ([b₀, b₁, b₂, b₃, b₄, b₅, b₆, b₇] ++ rest).findIdx? (· == 0) = _
      rw [List.findIdx?_append, hnone, Option.none_or]
      rfl
    rw [guestNulOffset, if_pos hword, ih, hskip, map_shift]
  | case2 index b₁ b₂ b₃ b₄ b₅ b₆ b₇ rest hword =>
    rw [guestNulOffset, if_neg hword, if_pos rfl, findIdx_nul]
    rfl
  | case3 index b₀ b₁ b₂ b₃ b₄ b₅ b₆ b₇ rest hword hb ih =>
    rw [guestNulOffset, if_neg hword, if_neg hb, ih, findIdx_cons hb, map_shift]
  | case4 index rest hshort =>
    rw [guestNulOffset, if_pos rfl, findIdx_nul]
    · rfl
    · exact hshort
  | case5 index b rest hshort hb ih =>
    rw [guestNulOffset, if_neg hb, ih, findIdx_cons hb, map_shift]
    exact hshort
  | case6 index => rfl

/-! ## What is found -/

/-- Where the string at `start` ends: the first NUL, unless it comes after `max` bytes or after as
    many as the bridge takes for no length. -/
def stringEnd (bytes : List UInt8) (max : ℕ) : Option ℕ :=
  (bytes.findIdx? (· == 0)).filter fun k => decide (k ≤ max) && decide (k ≤ 2 ^ 32 - 2)

/-- The string at the front of `bytes`. -/
def stringAt (bytes : List UInt8) (max : ℕ) : Option (List UInt8) :=
  (stringEnd bytes max).map bytes.take

theorem findIdx_take (bytes : List UInt8) (n : ℕ) :
    (bytes.take n).findIdx? (· == 0) = (bytes.findIdx? (· == 0)).filter fun k => decide (k < n) := by
  rw [List.findIdx?_take]
  cases bytes.findIdx? (· == 0) with
  | none => rfl
  | some k =>
    by_cases hk : k < n
    · simp [Option.guard, Option.filter_some, hk]
    · simp [Option.guard, Option.filter_some, hk]

/-- Bytes with no NUL in front do not matter but for their number. -/
theorem findIdx_drop {bytes : List UInt8} {n : ℕ} (h : (bytes.take n).findIdx? (· == 0) = none)
    (hn : n ≤ bytes.length) :
    bytes.findIdx? (· == 0) = ((bytes.drop n).findIdx? (· == 0)).map (n + ·) := by
  have hlen : (bytes.take n).length = n := by
    rw [List.length_take, min_eq_left hn]
  conv_lhs => rw [← List.take_append_drop n bytes]
  rw [List.findIdx?_append, h, Option.none_or, hlen]
  congr 1
  funext k
  exact Nat.add_comm k n

variable {e e' : GuestEnv A} {m : GuestMemory} {guestPtr max : ℕ}

/-- The rest of the memory, as far as a string of `max` bytes and its NUL could reach. -/
theorem cStringSearchLen_eq_some {size start search : ℕ}
    (h : cStringSearchLen size start max = some search) :
    start < size ∧ search = min (size - start) (min (max + 1) (2 ^ 32 - 1)) := by
  unfold cStringSearchLen at h
  split at h
  next hlt =>
    obtain ⟨_, rfl⟩ := tryFrom_eq_some.mp h
    refine ⟨hlt, ?_⟩
    unfold saturatingAdd
    omega
  next => cases h

theorem cStringSearchLen_eq_none {size start : ℕ} (h : cStringSearchLen size start max = none) :
    size ≤ start := by
  unfold cStringSearchLen at h
  split at h
  next hlt =>
    unfold tryFrom at h
    rw [if_pos (by omega)] at h
    cases h
  next hlt => exact not_lt.mp hlt

/-- A search of that many bytes is enough. -/
theorem stringEnd_eq {bytes : List UInt8} {search : ℕ}
    (hs : search = min bytes.length (min (max + 1) (2 ^ 32 - 1))) :
    stringEnd bytes max = (bytes.take search).findIdx? (· == 0) := by
  rw [findIdx_take]
  unfold stringEnd
  cases hk : bytes.findIdx? (· == 0) with
  | none => rfl
  | some k =>
    have hlt : k < bytes.length := (List.findIdx?_eq_some_iff_getElem.mp hk).1
    have hiff : (k ≤ max ∧ k ≤ 2 ^ 32 - 2) ↔ k < search := by omega
    simp only [Option.filter_some, Bool.and_eq_true, decide_eq_true_eq, hiff]

/-- The scan of blocks finds the same NUL. -/
theorem scanBlocks_eq {start stop : ℕ} (hstop : stop ≤ m.size) (fuel offset : ℕ)
    (hstart : start ≤ offset) (hoffset : offset ≤ stop) (hfuel : stop - offset < fuel) :
    scanBlocks m start stop fuel offset =
      (((m.data.drop offset).take (stop - offset)).findIdx? (· == 0)).map fun k =>
        (m.data.drop start).take (offset - start + k) := by
  induction fuel generalizing offset with
  | zero => cases hfuel
  | succ fuel ih =>
    rw [scanBlocks]
    by_cases hlt : offset < stop
    · have hlen : min (stop - offset) 4096 ≤ stop - offset := min_le_left ..
      have hpos : 0 < min (stop - offset) 4096 := by omega
      generalize min (stop - offset) 4096 = len at hlen hpos
      have hsize : m.data.length = m.size := rfl
      have hblock : viewRead m offset len = some ((m.data.drop offset).take len) :=
        if_pos (by omega)
      have htake : ((m.data.drop offset).take (stop - offset)).take len =
          (m.data.drop offset).take len := by
        rw [List.take_take, min_eq_left hlen]
      have hlong : len ≤ ((m.data.drop offset).take (stop - offset)).length := by
        rw [List.length_take, List.length_drop]
        omega
      simp only [if_pos hlt, hblock, Option.bind_some]
      cases hnul : ((m.data.drop offset).take len).findIdx? (· == 0) with
      | some k =>
        -- The NUL is in this block, so in the window too.
        have hk : k < len := by
          have := (List.findIdx?_eq_some_iff_getElem.mp hnul).1
          rw [List.length_take] at this
          omega
        have hwindow : ((m.data.drop offset).take (stop - offset)).findIdx? (· == 0) = some k := by
          conv_lhs => rw [← List.take_append_drop len ((m.data.drop offset).take (stop - offset))]
          rw [List.findIdx?_append, htake, hnul, Option.some_or]
        rw [hwindow]
        exact if_pos (by omega)
      | none =>
        rw [← htake] at hnul
        rw [findIdx_drop hnul hlong, ih (offset + len) (by omega) (by omega) (by omega),
          List.drop_take, List.drop_drop, Option.map_map]
        simp only [Nat.sub_sub]
        congr 1
        funext k
        show List.take (offset + len - start + k) _ = List.take (offset - start + (len + k)) _
        congr 1
        omega
    · have hzero : stop - offset = 0 := by omega
      simp [hlt, hzero]

/-- The rest of the reader, when no NUL is among the bytes it has scanned already. -/
theorem readRest_eq (he : e.Ok) (hm : e.memory = some m) {scanned : ℕ}
    (hno : ((m.data.drop guestPtr).take scanned).findIdx? (· == 0) = none)
    (hscanned : guestPtr + scanned ≤ m.size ∨ scanned = 0)
    (hmax : scanned ≤ max + 1 ∧ scanned ≤ 256) :
    (readRest e guestPtr max scanned).map Prod.fst =
      some (stringAt (m.data.drop guestPtr) max) := by
  have hsize : guestDataSize e = m.size := by simp [guestDataSize, hm]
  have hlength : (m.data.drop guestPtr).length = m.size - guestPtr := List.length_drop
  unfold readRest
  rw [hsize]
  cases hsearch : cStringSearchLen m.size guestPtr max with
  | none =>
    have hempty : m.data.drop guestPtr = [] :=
      List.drop_eq_nil_of_le (cStringSearchLen_eq_none hsearch)
    simp [stringAt, stringEnd, hempty]
  | some search =>
    obtain ⟨hin, hs⟩ := cStringSearchLen_eq_some hsearch
    have hend : stringEnd (m.data.drop guestPtr) max =
        ((m.data.drop guestPtr).take search).findIdx? (· == 0) :=
      stringEnd_eq (by rw [hlength]; exact hs)
    have hbound : search ≤ m.size - guestPtr := hs ▸ min_le_left ..
    obtain ⟨r, e', hr, hf⟩ := guestRange_spec he hm guestPtr search
    simp only [hr, Option.map_some, hf.memory, Option.bind_some, stringAt, hend]
    congr 1
    cases r with
    | some p =>
      obtain ⟨rfl, _⟩ := hf.inside p rfl
      have hle : scanned ≤ search := by omega
      have hprefix : (((m.data.drop guestPtr).take search).take scanned).findIdx? (· == 0) =
          none := by
        rw [List.take_take, min_eq_left hle]
        exact hno
      have hlong : scanned ≤ ((m.data.drop guestPtr).take search).length := by
        rw [List.length_take, hlength]
        exact le_min hle (hle.trans hbound)
      simp only [if_neg (not_lt.mpr hle), guestNulOffset_eq, bytesAt, Nat.add_sub_cancel_left,
        guestBytesAt, copyFromGuest_eq, List.nil_append]
      rw [findIdx_drop hprefix hlong]
    | none =>
      have hwindow : guestPtr + search - guestPtr = search := Nat.add_sub_cancel_left ..
      have hstop : guestPtr + search ≤ m.size := (Nat.le_sub_iff_add_le' hin.le).mp hbound
      simp only
      rw [scanBlocks_eq hstop _ _ le_rfl (Nat.le_add_right ..) (by rw [hwindow]; exact Nat.lt_succ_self _),
        hwindow]
      simp

/-- The reader finds the string that is there. -/
theorem readGuestCStringMax_eq (he : e.Ok) (hm : e.memory = some m) (guestPtr max : ℕ) :
    (readGuestCStringMax e guestPtr max).map Prod.fst =
      some (stringAt (m.data.drop guestPtr) max) := by
  have hlength : (m.data.drop guestPtr).length = m.size - guestPtr := List.length_drop
  unfold readGuestCStringMax
  have hchunk : min 256 (saturatingAdd 64 max 1) ≤ max + 1 ∧
      min 256 (saturatingAdd 64 max 1) ≤ 256 := by
    unfold saturatingAdd
    omega
  generalize min 256 (saturatingAdd 64 max 1) = chunk at hchunk
  obtain ⟨r, e', hr, hf⟩ := guestRange_spec he hm guestPtr chunk
  simp only [hr, Option.bind_some, hf.memory]
  cases r with
  | none => exact readRest_eq hf.ok hf.memory rfl (Or.inr rfl) ⟨Nat.zero_le _, Nat.zero_le _⟩
  | some p =>
    obtain ⟨rfl, hin⟩ := hf.inside p rfl
    have hbytes : bytesAt m (m.base + guestPtr) = m.data.drop guestPtr := by
      rw [bytesAt, Nat.add_sub_cancel_left]
    simp only [guestNulOffset_eq, hbytes]
    cases hnul : ((m.data.drop guestPtr).take chunk).findIdx? (· == 0) with
    | none =>
      simp only [Option.map_none]
      exact readRest_eq hf.ok hf.memory hnul (Or.inl hin) hchunk
    | some k =>
      rw [findIdx_take] at hnul
      obtain ⟨hfirst, hk⟩ := Option.filter_eq_some_iff.mp hnul
      have hlt : k < chunk := of_decide_eq_true hk
      have hend : stringEnd (m.data.drop guestPtr) max = some k := by
        unfold stringEnd
        rw [hfirst, Option.filter_some, if_pos]
        simp only [Bool.and_eq_true, decide_eq_true_eq]
        omega
      simp only [Option.map_some, stringAt, hend, guestBytesAt, hbytes, copyFromGuest_eq,
        List.nil_append, Nat.zero_add]

/-- A string is what stands before the first NUL. -/
theorem stringAt_eq_some {bytes s : List UInt8} :
    stringAt bytes max = some s ↔
      (s ++ [0]) <+: bytes ∧ 0 ∉ s ∧ s.length ≤ max ∧ s.length ≤ 2 ^ 32 - 2 := by
  unfold stringAt stringEnd
  rw [Option.map_eq_some_iff]
  constructor
  · rintro ⟨k, hk, rfl⟩
    obtain ⟨hfirst, hbounds⟩ := Option.filter_eq_some_iff.mp hk
    simp only [Bool.and_eq_true, decide_eq_true_eq] at hbounds
    obtain ⟨hlt, hzero, hbefore⟩ := List.findIdx?_eq_some_iff_getElem.mp hfirst
    have hlen : (bytes.take k).length = k := by
      rw [List.length_take, min_eq_left hlt.le]
    refine ⟨?_, ?_, by omega, by omega⟩
    · have hnext : bytes.take k ++ [0] = bytes.take (k + 1) := by
        rw [List.take_add_one, List.getElem?_eq_getElem hlt, eq_of_beq hzero]
        rfl
      rw [hnext]
      exact List.take_prefix ..
    · intro hmem
      obtain ⟨j, hj, hval⟩ := List.getElem_of_mem hmem
      rw [hlen] at hj
      have hne := hbefore j hj
      rw [List.getElem_take] at hval
      simp [hval] at hne
  · rintro ⟨⟨rest, rfl⟩, hno, hmax, hcap⟩
    refine ⟨s.length, ?_, ?_⟩
    · have hnone : s.findIdx? (· == 0) = none := by
        refine List.findIdx?_eq_none_iff.mpr ?_
        intro b hb
        by_contra htrue
        have hzero : b = 0 := by simpa using htrue
        exact hno (hzero ▸ hb)
      rw [List.append_assoc, List.findIdx?_append, hnone, Option.none_or, List.singleton_append,
        findIdx_nul]
      simp [hmax]
      omega
    · simp

/-- Reads of a NUL-terminated string succeed exactly where there is one that is not too long, and
    find it, with a guest heap and without. -/
theorem readGuestCStringMax_iff (he : e.Ok) (hm : e.memory = some m) (guestPtr max : ℕ) :
    (∃ r, (readGuestCStringMax e guestPtr max).map Prod.fst = some r ∧
      (readGuestCStringMax e.withoutHeap guestPtr max).map Prod.fst = some r ∧
      ∀ s, r = some s ↔ (s ++ [0]) <+: m.data.drop guestPtr ∧ 0 ∉ s ∧ s.length ≤ max ∧
        s.length ≤ 2 ^ 32 - 2) := by
  refine ⟨stringAt (m.data.drop guestPtr) max, readGuestCStringMax_eq he hm guestPtr max,
    readGuestCStringMax_eq (ok_withoutHeap e) hm guestPtr max, ?_⟩
  intro s
  exact stringAt_eq_some

/-- Twelve bytes of memory behind a heap that has seen eight of them. -/
def dozen : GuestEnv Unit where
  memory := some ⟨4096, [7, 0, 104, 101, 108, 108, 111, 0, 120, 121, 122, 119]⟩
  guestHeap := some
    { base := 4096, maxBytes := 32, charged := 0, observedLen := 8,
      inner := { memories := [], chunks := [], live := ∅, freeBytes := 0, pendingWant := 0 } }

theorem ok_dozen : dozen.Ok := by
  intro h hh m hm
  cases hh
  cases hm
  exact ⟨rfl, by decide, by decide⟩

theorem readGuestCStringMax_dozen :
    (readGuestCStringMax dozen 2 5).map Prod.fst = some (some [104, 101, 108, 108, 111]) := by
  obtain ⟨r, hr, _, hiff⟩ := readGuestCStringMax_iff ok_dozen rfl 2 5
  have hread : r = some [104, 101, 108, 108, 111] :=
    (hiff _).mpr ⟨⟨[120, 121, 122, 119], rfl⟩, by decide, by decide, by decide⟩
  rw [hr, hread]

/-! ## Where a UTF-16 string ends -/

/-- The string at the front of some code units: what stands before the first zero unit, if there
    is one. -/
def unitString (units : List UInt16) : Option (List UInt16) :=
  if 0 ∈ units then some (units.takeWhile (· ≠ 0)) else none

/-- The units that can be read from an address on. -/
def unitsAt (m : GuestMemory) (strPtr : ℕ) : List UInt16 := unitsOf (m.data.drop strPtr)

theorem length_unitsOf (bytes : List UInt8) : (unitsOf bytes).length = bytes.length / 2 := by
  induction bytes using unitsOf.induct with
  | case1 a b rest ih =>
    rw [unitsOf, List.length_cons, ih, List.length_cons, List.length_cons]
    omega
  | case2 rest hshort =>
    cases rest with
    | nil => rfl
    | cons a rest =>
      cases rest with
      | nil => simp [unitsOf]
      | cons b rest => exact absurd rfl (hshort a b rest)

theorem unitsOf_take (n : ℕ) (bytes : List UInt8) :
    unitsOf (bytes.take (n * 2)) = (unitsOf bytes).take n := by
  induction n generalizing bytes with
  | zero => simp [unitsOf]
  | succ n ih =>
    rw [Nat.succ_mul]
    cases bytes with
    | nil => simp [unitsOf]
    | cons a rest =>
      cases rest with
      | nil => simp [unitsOf]
      | cons b rest =>
        rw [List.take_succ_cons, List.take_succ_cons, unitsOf, unitsOf, List.take_succ_cons, ih]

theorem unit_eq_zero_iff (a b : UInt8) :
    UInt16.ofNat (Bytes.ofLe [a, b]) = 0 ↔ Bytes.ofLe [a, b] = 0 := by
  have hlt : Bytes.ofLe [a, b] < 2 ^ 16 := by simpa using Bytes.ofLe_lt [a, b]
  rw [← UInt16.toNat_inj, UInt16.toNat_ofNat', Nat.mod_eq_of_lt hlt, UInt16.toNat_zero]

/-- The unit at an address, and the ones after it. -/
theorem unitsAt_cons {ptr : ℕ} (h : ptr + 2 ≤ m.size) :
    ∃ a b, m.read ptr 2 = some [a, b] ∧
      unitsAt m ptr = UInt16.ofNat (Bytes.ofLe [a, b]) :: unitsAt m (ptr + 2) := by
  have hsize : m.data.length = m.size := rfl
  have hdrop : m.data.drop ptr =
      m.data[ptr] :: m.data[ptr + 1] :: m.data.drop (ptr + 2) := by
    rw [List.drop_eq_getElem_cons (by omega), List.drop_eq_getElem_cons (by omega)]
    rfl
  refine ⟨m.data[ptr], m.data[ptr + 1], ?_, ?_⟩
  · rw [GuestMemory.read, if_pos h, hdrop]
    rfl
  · rw [unitsAt, hdrop, unitsOf]
    rfl

theorem unitsAt_nil {ptr : ℕ} (h : m.size < ptr + 2) : unitsAt m ptr = [] := by
  refine List.eq_nil_of_length_eq_zero ?_
  rw [unitsAt, length_unitsOf, List.length_drop]
  unfold GuestMemory.size at h
  omega

/-- The scan counts the units before the first zero, but only so many of them. -/
theorem scanUnits_eq {strPtr : ℕ} (hsize : m.size ≤ 2 ^ 32) (hptr : strPtr < 2 ^ 32)
    (fuel scanLen : ℕ) (e : GuestEnv A) (he : e.Ok) (hm : e.memory = some m)
    (hfuel : scanLen + fuel = maxGuestCStringScan + 1) :
    ∃ e', scanUnits strPtr fuel scanLen e = some
        (scanLen + min ((unitsAt m (strPtr + scanLen * 2)).takeWhile (· ≠ 0)).length fuel, e') ∧
      e'.Ok ∧ e'.memory = some m := by
  induction fuel generalizing scanLen e with
  | zero => exact ⟨e, by simp [scanUnits], he, hm⟩
  | succ fuel ih =>
    have haddr : saturatingAdd 32 strPtr (truncate 32 (truncate 32 scanLen * 2)) =
        min (strPtr + scanLen * 2) (2 ^ 32 - 1) := by
      unfold maxGuestCStringScan at hfuel
      have hlt : scanLen < 2 ^ 32 := by omega
      rw [truncate_of_lt hlt, truncate_of_lt (by omega), saturatingAdd]
    obtain ⟨e', hr, he', hm'⟩ :=
      readGuestBytes_spec he hm (min (strPtr + scanLen * 2) (2 ^ 32 - 1)) 2
    rw [scanUnits, haddr, hr, Option.bind_some]
    by_cases hin : strPtr + scanLen * 2 + 2 ≤ m.size
    · obtain ⟨a, b, hread, hunits⟩ := unitsAt_cons hin
      rw [min_eq_left (by omega), hread, hunits]
      by_cases hzero : Bytes.ofLe [a, b] = 0
      · have hunit := (unit_eq_zero_iff a b).mpr hzero
        refine ⟨e', ?_, he', hm'⟩
        rw [List.takeWhile_cons_of_neg (by simpa using hunit)]
        simp [hzero]
      · have hunit := (not_congr (unit_eq_zero_iff a b)).mpr hzero
        have hlen : ∀ us : List UInt16, ((UInt16.ofNat (Bytes.ofLe [a, b]) :: us).takeWhile
            (· ≠ 0)).length = (us.takeWhile (· ≠ 0)).length + 1 := by
          intro us
          rw [List.takeWhile_cons_of_pos (by simpa using hunit), List.length_cons]
        rw [hlen]
        simp only [if_neg hzero]
        by_cases hlast : maxGuestCStringScan < scanLen + 1
        · refine ⟨e', ?_, he', hm'⟩
          rw [if_pos hlast]
          congr 2
          omega
        · obtain ⟨e'', hscan, he'', hm''⟩ := ih (scanLen + 1) e' he' hm' (by omega)
          refine ⟨e'', ?_, he'', hm''⟩
          rw [if_neg hlast, hscan, Nat.succ_mul, Nat.add_assoc strPtr]
          congr 2
          omega
    · -- The address saturates only past the end of the memory.
      have hread : m.read (min (strPtr + scanLen * 2) (2 ^ 32 - 1)) 2 = none :=
        if_neg (by omega)
      refine ⟨e', ?_, he', hm'⟩
      rw [hread, unitsAt_nil (by omega)]
      simp

/-- What the engine is to be handed: the string, or nothing and the call fails. -/
def Reply.Hands (r : Reply A) (string : Option (List UInt16)) : Prop :=
  r.handed = string.map (fun units => (units, units.length)) ∧ (string = none → r.status ≠ 0)

theorem takeWhile_take (us : List UInt16) (n : ℕ) :
    us.take (min (us.takeWhile (· ≠ 0)).length n) = (us.takeWhile (· ≠ 0)).take n := by
  conv_rhs => rw [List.prefix_iff_eq_take.mp (List.takeWhile_prefix _), List.take_take]
  rw [Nat.min_comm]

theorem length_unitsAt (m : GuestMemory) (ptr : ℕ) : (unitsAt m ptr).length = (m.size - ptr) / 2 := by
  rw [unitsAt, length_unitsOf, List.length_drop, GuestMemory.size]

/-- What becomes of the units that were counted. -/
theorem createStringUtf16_spec {strPtr : ℕ} (bridge : List UInt16 → ℕ → ℕ × ℕ) (he : e.Ok)
    (hm : e.memory = some m) (hsize : m.size ≤ 2 ^ 32) (hptr : strPtr < 2 ^ 32) (rp : ℕ) :
    ∃ r, guestNapiCreateStringUtf16 bridge e strPtr autoLength rp = some r ∧
      (m.size < strPtr → r.handed = none ∧ r.status = 1) ∧
      (strPtr ≤ m.size → r.handed = some
        ((unitsAt m strPtr).takeWhile (· ≠ 0) |>.take (maxGuestCStringScan + 1),
          min ((unitsAt m strPtr).takeWhile (· ≠ 0)).length (maxGuestCStringScan + 1))) := by
  obtain ⟨e₁, hscan, he₁, hm₁⟩ := scanUnits_eq hsize hptr (maxGuestCStringScan + 1) 0 e he hm
    (Nat.zero_add _)
  rw [Nat.zero_mul, Nat.add_zero, Nat.zero_add] at hscan
  have hprefix : ((unitsAt m strPtr).takeWhile (· ≠ 0)).length ≤ (unitsAt m strPtr).length :=
    (List.takeWhile_prefix _).length_le
  have hunits := length_unitsAt m strPtr
  have hcount : min ((unitsAt m strPtr).takeWhile (· ≠ 0)).length (maxGuestCStringScan + 1) < 2 ^ 32 :=
    (min_le_right ..).trans_lt (by decide)
  have htake := takeWhile_take (unitsAt m strPtr) (maxGuestCStringScan + 1)
  have hle : min ((unitsAt m strPtr).takeWhile (· ≠ 0)).length (maxGuestCStringScan + 1) ≤
      ((unitsAt m strPtr).takeWhile (· ≠ 0)).length := min_le_left ..
  generalize min ((unitsAt m strPtr).takeWhile (· ≠ 0)).length (maxGuestCStringScan + 1) = count
    at hscan hcount htake hle
  obtain ⟨e₂, hr, he₂, hm₂⟩ := readGuestBytes_spec he₁ hm₁ strPtr (count * 2)
  rw [guestNapiCreateStringUtf16, if_pos rfl, hscan, Option.bind_some]
  simp only [hr, Option.bind_some]
  by_cases hin : strPtr ≤ m.size
  · have hread : m.read strPtr (count * 2) = some ((m.data.drop strPtr).take (count * 2)) :=
      if_pos (by omega)
    have hhanded : unitsOf ((m.data.drop strPtr).take (count * 2)) =
        ((unitsAt m strPtr).takeWhile (· ≠ 0)).take (maxGuestCStringScan + 1) := by
      rw [unitsOf_take, ← htake]
      rfl
    simp only [hread, hhanded, truncate_of_lt hcount]
    by_cases hok : (bridge (((unitsAt m strPtr).takeWhile (· ≠ 0)).take (maxGuestCStringScan + 1))
        count).1 = 0
    · obtain ⟨e₃, hw, _, _⟩ := writeGuestBytes_spec he₂ hm₂ rp (Bytes.le 4
        (bridge (((unitsAt m strPtr).takeWhile (· ≠ 0)).take (maxGuestCStringScan + 1)) count).2)
      rw [if_pos hok, writeGuestU32, hw, Option.map_some]
      exact ⟨_, rfl, fun hout => absurd hin (not_le.mpr hout), fun _ => rfl⟩
    · rw [if_neg hok]
      exact ⟨_, rfl, fun hout => absurd hin (not_le.mpr hout), fun _ => rfl⟩
  · have hread : m.read strPtr (count * 2) = none := if_neg (by omega)
    simp only [hread]
    exact ⟨_, rfl, fun _ => ⟨rfl, rfl⟩, fun hle => absurd hle hin⟩

/-- The engine is handed the string exactly when its end is within the reach of the scan, or the
    address is past the end of the memory. -/
theorem createStringUtf16_iff {strPtr : ℕ} (bridge : List UInt16 → ℕ → ℕ × ℕ) (he : e.Ok)
    (hm : e.memory = some m) (hsize : m.size ≤ 2 ^ 32) (hptr : strPtr < 2 ^ 32) (rp : ℕ) :
    (∃ r, guestNapiCreateStringUtf16 bridge e strPtr autoLength rp = some r ∧
        r.Hands (unitString (unitsAt m strPtr))) ↔
      (0 ∈ unitsAt m strPtr ∧
          ((unitsAt m strPtr).takeWhile (· ≠ 0)).length ≤ maxGuestCStringScan + 1) ∨
        (0 ∉ unitsAt m strPtr ∧ m.size < strPtr) := by
  obtain ⟨r, hr, hpast, hin⟩ := createStringUtf16_spec bridge he hm hsize hptr rp
  have hfound : (∃ r, guestNapiCreateStringUtf16 bridge e strPtr autoLength rp = some r ∧
      r.Hands (unitString (unitsAt m strPtr))) ↔ r.Hands (unitString (unitsAt m strPtr)) := by
    constructor
    · rintro ⟨r', hr', hhands⟩
      rwa [← Option.some.inj (hr.symm.trans hr')] at hhands
    · intro hhands
      exact ⟨r, hr, hhands⟩
  rw [hfound]
  by_cases hlt : m.size < strPtr
  · obtain ⟨hnone, hstatus⟩ := hpast hlt
    have hempty : unitsAt m strPtr = [] := unitsAt_nil (by omega)
    simp [Reply.Hands, unitString, hempty, hnone, hstatus, hlt]
  · have hhanded := hin (not_lt.mp hlt)
    by_cases hzero : 0 ∈ unitsAt m strPtr
    · have hstring : unitString (unitsAt m strPtr) =
          some ((unitsAt m strPtr).takeWhile (· ≠ 0)) := if_pos hzero
      constructor
      · rintro ⟨heq, _⟩
        rw [hhanded, hstring] at heq
        have hlen := congrArg Prod.snd (Option.some.inj heq)
        exact Or.inl ⟨hzero, min_eq_left_iff.mp hlen⟩
      · rintro (⟨_, hle⟩ | ⟨hno, _⟩)
        · refine ⟨?_, fun hnone => ?_⟩
          · rw [hhanded, hstring, List.take_of_length_le hle, min_eq_left hle]
            rfl
          · rw [hstring] at hnone
            cases hnone
        · exact absurd hzero hno
    · simp [Reply.Hands, unitString, hzero, hhanded, hlt]

/-- Two units and no end, in a memory with no heap. -/
def unended : GuestEnv Unit where
  memory := some ⟨4096, [104, 0, 105, 0]⟩

theorem ok_unended : unended.Ok := ok_withoutHeap unended

theorem unended_handed_over :
    ¬ ∃ r, guestNapiCreateStringUtf16 (fun _ _ => (0, 9)) unended 0 autoLength 0 = some r ∧
      r.Hands (unitString (unitsAt ⟨4096, [104, 0, 105, 0]⟩ 0)) := by
  rintro ⟨r, hr, hhands, _⟩
  have hptr : 0 < 2 ^ 32 := by decide
  obtain ⟨r', hr', _, hin⟩ := createStringUtf16_spec (m := ⟨4096, [104, 0, 105, 0]⟩)
    (fun _ _ => (0, 9)) ok_unended rfl (by decide) hptr 0
  obtain rfl := Option.some.inj (hr.symm.trans hr')
  have hstring : unitString (unitsAt ⟨4096, [104, 0, 105, 0]⟩ 0) = none := by decide
  rw [hin (by decide), hstring] at hhands
  cases hhands

/-- Two units and their end, with bytes after it. -/
def ended : GuestEnv Unit where
  memory := some ⟨4096, [104, 0, 105, 0, 0, 0, 120, 0]⟩

/-- The engine is handed "hi". -/
theorem createStringUtf16_ended :
    unitString (unitsAt ⟨4096, [104, 0, 105, 0, 0, 0, 120, 0]⟩ 0) = some [104, 105] ∧
      ∃ r, guestNapiCreateStringUtf16 (fun _ _ => (0, 9)) ended 0 autoLength 0 = some r ∧
        r.Hands (unitString (unitsAt ⟨4096, [104, 0, 105, 0, 0, 0, 120, 0]⟩ 0)) :=
  ⟨by decide, (createStringUtf16_iff (fun _ _ => (0, 9)) (ok_withoutHeap ended) rfl (by decide)
    (by decide) 0).mpr (Or.inl ⟨by decide, by decide⟩)⟩

end WasmerNapi.Guest.Memory
