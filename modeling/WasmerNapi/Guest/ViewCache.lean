import WasmerNapi.Lib.Run

/-!
# The cached view of guest memory

The host-JS backend reads and writes guest memory through one `Uint8Array` for each
`WebAssembly.Memory`, made anew when an access reaches past it. A memory grows at any time. A shared
one keeps its old views, which stay as long as they were; one that is not shared gets another buffer
and detaches the old one, which leaves its views empty.

`terminated` looks for the end of a string through the view, and looks again through a longer one
when the old one ended first. While it runs only a shared memory grows, another thread's doing:
`grown` says by how much before each of its accesses.
-/

namespace WasmerNapi.Guest.ViewCache

open Run

/-- A `Uint8Array` on a buffer of the memory. -/
structure View where
  buffer : ℕ
  length : ℕ
  deriving DecidableEq, Repr

/-- `data` is what is stored at each address, once the memory reaches it. A memory that grows gets
    another buffer, so a view is of the whole of its buffer. -/
structure Memory where
  shared : Bool
  length : ℕ
  data : ℕ → UInt8
  buffer : ℕ := 0
  /-- The entry of the memory in `views`. -/
  cached : Option View := none
  cached_ok : ∀ v, cached = some v → v.length ≤ length ∧ v.buffer ≤ buffer ∧
    (v.buffer = buffer → v.length = length) := by
      intro v h
      cases h

/-- `bytes.length`: a view of a detached buffer is empty. -/
def View.bytesLength (v : View) (m : Memory) : ℕ :=
  if m.shared = true ∨ v.buffer = m.buffer then v.length else 0

/-- `bytes[i]`. -/
def View.byte (v : View) (m : Memory) (i : ℕ) : Option UInt8 :=
  if i < v.bytesLength m then some (m.data i) else none

def Memory.grow (m : Memory) (n : ℕ) : Memory where
  shared := m.shared
  length := m.length + n
  data := m.data
  buffer := m.buffer + 1
  cached := m.cached
  cached_ok v h := by
    obtain ⟨hlength, hbuffer, -⟩ := m.cached_ok v h
    refine ⟨by omega, by omega, ?_⟩
    intro hsame
    omega

/-- What happens to the memory while a call runs. -/
def Memory.growMeanwhile (m : Memory) (n : ℕ) : Memory := if m.shared = true then m.grow n else m

/-- A view of the buffer there is now, remembered. -/
def Memory.freshView (m : Memory) : View × Memory :=
  (⟨m.buffer, m.length⟩,
    { m with
      cached := some ⟨m.buffer, m.length⟩
      cached_ok v h := by
        cases h
        exact ⟨le_rfl, le_rfl, fun _ => rfl⟩ })

def Memory.view (m : Memory) (stop : ℕ) : View × Memory :=
  match m.cached with
  | none => m.freshView
  | some bytes =>
    if stop > bytes.bytesLength m ∨ bytes.bytesLength m = 0 then m.freshView else (bytes, m)

/-! ## The scan -/

/-- `bytes.subarray(ptr, limit).indexOf(0)`. -/
def indexOfZero (data : ℕ → UInt8) (ptr limit : ℕ) : Option ℕ :=
  (List.range (limit - ptr)).find? fun i => data (ptr + i) == 0

/-- The loop over units of two bytes, from `i` on. -/
def scanPairs (data : ℕ → UInt8) (ptr limit i : ℕ) : Option ℕ :=
  if i + 1 < limit then
    if data i = 0 ∧ data (i + 1) = 0 then some ((i - ptr) / 2) else scanPairs data ptr limit (i + 2)
  else none
termination_by limit - i

def scan (data : ℕ → UInt8) (ptr unit limit : ℕ) : Option ℕ :=
  if unit = 1 then indexOfZero data ptr limit else scanPairs data ptr limit ptr

/-! ## Views -/

variable {m : Memory} {v : View} {stop : ℕ}

theorem View.bytesLength_le (v : View) (m : Memory) : v.bytesLength m ≤ v.length := by
  unfold View.bytesLength
  split_ifs
  · exact le_rfl
  · exact Nat.zero_le _

/-- What a call to `view` returns and leaves. -/
theorem view_cases (m : Memory) (stop : ℕ) :
    m.view stop = m.freshView ∨ ∃ bytes, m.cached = some bytes ∧ m.view stop = (bytes, m) ∧
      stop ≤ bytes.bytesLength m := by
  unfold Memory.view
  cases hcached : m.cached with
  | none => exact Or.inl rfl
  | some bytes =>
    dsimp only
    split_ifs with hreplace
    · exact Or.inl rfl
    · push Not at hreplace
      exact Or.inr ⟨bytes, rfl, rfl, hreplace.1⟩

theorem bytesLength_freshView (m : Memory) :
    m.freshView.1.bytesLength m.freshView.2 = m.length := if_pos (Or.inr rfl)

/-- A view never shows more than there is. -/
theorem bytesLength_view_le (m : Memory) (stop : ℕ) :
    (m.view stop).1.bytesLength (m.view stop).2 ≤ m.length := by
  rcases view_cases m stop with h | ⟨bytes, hcached, h, -⟩
  · rw [h, bytesLength_freshView]
  · rw [h]
    exact (bytes.bytesLength_le m).trans (m.cached_ok bytes hcached).1

/-- It shows as much as was asked for, or all there is. -/
theorem le_bytesLength_view (m : Memory) (stop : ℕ) :
    min stop m.length ≤ (m.view stop).1.bytesLength (m.view stop).2 := by
  rcases view_cases m stop with h | ⟨bytes, hcached, h, hstop⟩
  · rw [h, bytesLength_freshView]
    exact Nat.min_le_right ..
  · rw [h]
    exact (Nat.min_le_left ..).trans hstop

@[simp] theorem length_view (m : Memory) (stop : ℕ) : (m.view stop).2.length = m.length := by
  rcases view_cases m stop with h | ⟨bytes, -, h, -⟩
  · rw [h]; rfl
  · rw [h]

@[simp] theorem data_view (m : Memory) (stop : ℕ) : (m.view stop).2.data = m.data := by
  rcases view_cases m stop with h | ⟨bytes, -, h, -⟩
  · rw [h]; rfl
  · rw [h]

@[simp] theorem data_growMeanwhile (m : Memory) (n : ℕ) : (m.growMeanwhile n).data = m.data := by
  unfold Memory.growMeanwhile
  split_ifs <;> rfl

theorem length_growMeanwhile (m : Memory) (n : ℕ) :
    (m.growMeanwhile n).length = if m.shared = true then m.length + n else m.length := by
  unfold Memory.growMeanwhile
  split_ifs <;> rfl

/-- The loop of `terminated`. -/
def scanLoop (m : Memory) (ptr unit max : ℕ) (bytes : View) (grown : List ℕ) : ℤ × Memory :=
  let limit := min (bytes.bytesLength m) (ptr + max * unit)
  match scan m.data ptr unit limit with
  | some n => (n, m)
  | none =>
    if limit = ptr + max * unit then (-1, m)
    else
      let current := (m.growMeanwhile (grown.headD 0)).view (bytes.bytesLength m + 1)
      if current.1.bytesLength current.2 ≤ bytes.bytesLength m then (-1, current.2)
      else scanLoop current.2 ptr unit max current.1 grown.tail
termination_by (grown.length, m.length - bytes.bytesLength m)
decreasing_by
  rename_i hlonger
  cases grown with
  | cons n grown =>
    left
    exact Nat.lt_succ_self _
  | nil =>
    -- Without more growth the next view is the last.
    right
    have hlen : (m.growMeanwhile 0).length = m.length := by
      rw [length_growMeanwhile]
      split_ifs <;> rfl
    have hle := bytesLength_view_le (m.growMeanwhile 0) (bytes.bytesLength m + 1)
    simp only [current, List.headD_nil, length_view, not_le] at hlonger ⊢
    omega

/-- The index of the terminator of the string at `ptr`, in units, or -1. -/
def terminated (m : Memory) (ptr unit max : ℕ) (grown : List ℕ) : ℤ × Memory :=
  let bytes := (m.growMeanwhile (grown.headD 0)).view (ptr + unit)
  scanLoop bytes.2 ptr unit max bytes.1 grown.tail

/-! ## What the scan finds -/

/-- The unit of index `n` from `ptr` on is a terminator. -/
def NulAt (data : ℕ → UInt8) (ptr unit n : ℕ) : Prop := ∀ k < unit, data (ptr + n * unit + k) = 0

instance (data : ℕ → UInt8) (ptr unit n : ℕ) : Decidable (NulAt data ptr unit n) :=
  inferInstanceAs (Decidable (∀ k < unit, data (ptr + n * unit + k) = 0))

/-- The first terminator from `ptr` on is the unit of index `n`, which lies below `limit`. -/
structure FirstNul (data : ℕ → UInt8) (ptr unit limit n : ℕ) : Prop where
  nul : NulAt data ptr unit n
  le_limit : ptr + (n + 1) * unit ≤ limit
  first : ∀ k < n, ¬ NulAt data ptr unit k

variable {data : ℕ → UInt8} {ptr unit limit max n : ℕ}

theorem nulAt_one : NulAt data ptr 1 n ↔ data (ptr + n) = 0 := by
  constructor
  · intro h
    simpa using h 0 Nat.one_pos
  · intro h k hk
    obtain rfl : k = 0 := by omega
    simpa using h

theorem nulAt_two :
    NulAt data ptr 2 n ↔ data (ptr + 2 * n) = 0 ∧ data (ptr + 2 * n + 1) = 0 := by
  rw [Nat.mul_comm 2 n]
  constructor
  · intro h
    exact ⟨h 0 Nat.two_pos, h 1 Nat.one_lt_two⟩
  · rintro ⟨hlow, hhigh⟩ k hk
    interval_cases k
    · exact hlow
    · exact hhigh

theorem indexOfZero_eq_some_iff :
    indexOfZero data ptr limit = some n ↔ FirstNul data ptr 1 limit n := by
  unfold indexOfZero
  rw [List.find?_range_eq_some]
  constructor
  · rintro ⟨hnul, hmem, hfirst⟩
    have hlt := List.mem_range.1 hmem
    refine ⟨nulAt_one.2 (by simpa using hnul), by omega, ?_⟩
    intro k hk
    rw [nulAt_one]
    simpa using hfirst k hk
  · intro h
    have hle := h.le_limit
    refine ⟨by simpa using nulAt_one.1 h.nul, List.mem_range.2 (by omega), ?_⟩
    intro k hk
    have hnot := h.first k hk
    rw [nulAt_one] at hnot
    simpa using hnot

/-- From the unit of index `j` on: the loop is at `ptr + 2 * j`. -/
theorem scanPairs_eq_some_iff (j : ℕ) :
    scanPairs data ptr limit (ptr + 2 * j) = some n ↔
      j ≤ n ∧ NulAt data ptr 2 n ∧ ptr + (n + 1) * 2 ≤ limit ∧
        ∀ k, j ≤ k → k < n → ¬ NulAt data ptr 2 k := by
  -- on how much is left below `limit`
  induction hleft : limit - (ptr + 2 * j) using Nat.strong_induction_on generalizing j with
  | _ left ih =>
    rw [scanPairs]
    split_ifs with hlt hnul
    · have hindex : (ptr + 2 * j - ptr) / 2 = j := by omega
      rw [hindex, Option.some.injEq]
      constructor
      · rintro rfl
        refine ⟨le_rfl, nulAt_two.2 hnul, by omega, ?_⟩
        intro k hjk hkj
        omega
      · rintro ⟨hj, -, -, hfirst⟩
        by_contra hne
        exact hfirst j le_rfl (by omega) (nulAt_two.2 hnul)
    · rw [show ptr + 2 * j + 2 = ptr + 2 * (j + 1) by omega, ih _ (by omega) (j + 1) rfl]
      constructor
      · rintro ⟨hj, hn, hle, hfirst⟩
        refine ⟨by omega, hn, hle, ?_⟩
        intro k hjk hkn
        rcases hjk.eq_or_lt with rfl | hjk
        · exact fun h => hnul (nulAt_two.1 h)
        · exact hfirst k hjk hkn
      · rintro ⟨hj, hn, hle, hfirst⟩
        have hne : j ≠ n := by
          rintro rfl
          exact hnul (nulAt_two.1 hn)
        refine ⟨by omega, hn, hle, ?_⟩
        intro k hjk hkn
        exact hfirst k (by omega) hkn
    · constructor
      · nofun
      · rintro ⟨hj, -, hle, -⟩
        omega

theorem scan_eq_some_iff (hunit : unit = 1 ∨ unit = 2) :
    scan data ptr unit limit = some n ↔ FirstNul data ptr unit limit n := by
  rcases hunit with rfl | rfl
  · exact indexOfZero_eq_some_iff
  · change scanPairs data ptr limit (ptr + 2 * 0) = some n ↔ _
    rw [scanPairs_eq_some_iff]
    constructor
    · rintro ⟨-, hnul, hle, hfirst⟩
      exact ⟨hnul, hle, fun k => hfirst k (Nat.zero_le k)⟩
    · intro h
      exact ⟨Nat.zero_le n, h.nul, h.le_limit, fun k _ => h.first k⟩

/-- A scan that finds nothing has seen every unit below `limit`. -/
theorem not_nulAt_of_scan (hunit : unit = 1 ∨ unit = 2) (h : scan data ptr unit limit = none)
    (hle : ptr + (n + 1) * unit ≤ limit) : ¬ NulAt data ptr unit n := by
  induction n using Nat.strong_induction_on with
  | _ n ih =>
    intro hnul
    have hfound : scan data ptr unit limit = some n := by
      rw [scan_eq_some_iff hunit]
      refine ⟨hnul, hle, ?_⟩
      intro k hk
      apply ih k hk
      have : (k + 1) * unit ≤ (n + 1) * unit := Nat.mul_le_mul_right unit (by omega)
      omega
    rw [h] at hfound
    cases hfound

/-- What `terminated` has to say of a memory: the index of the first terminator among the first
    `max` units that lie in it, or -1 when there is none. -/
def Answers (m : Memory) (ptr unit max : ℕ) (result : ℤ) : Prop :=
  (∃ n : ℕ, result = n ∧ n < max ∧ FirstNul m.data ptr unit m.length n) ∨
    (result = -1 ∧ ∀ n < max, ptr + (n + 1) * unit ≤ m.length → ¬ NulAt m.data ptr unit n)

/-- A memory that others may have let grow in between. -/
structure Later (m m' : Memory) : Prop where
  data : m'.data = m.data
  shared : m'.shared = m.shared
  length_le : m.length ≤ m'.length
  length_eq : m.shared = false → m'.length = m.length

/-- There is one answer. -/
theorem Answers.eq_of_firstNul {result : ℤ} (h : Answers m ptr unit max result) (hn : n < max)
    (hfirst : FirstNul m.data ptr unit m.length n) : result = n := by
  rcases h with ⟨k, rfl, -, hk⟩ | ⟨-, hnone⟩
  · rcases Nat.lt_trichotomy k n with hlt | heq | hlt
    · exact absurd hk.nul (hfirst.first k hlt)
    · rw [heq]
    · exact absurd hfirst.nul (hk.first n hlt)
  · exact absurd hfirst.nul (hnone n hn hfirst.le_limit)

theorem Later.refl (m : Memory) : Later m m := ⟨rfl, rfl, le_rfl, fun _ => rfl⟩

theorem Later.trans {m₁ m₂ m₃ : Memory} (h : Later m₁ m₂) (h' : Later m₂ m₃) : Later m₁ m₃ where
  data := h'.data.trans h.data
  shared := h'.shared.trans h.shared
  length_le := h.length_le.trans h'.length_le
  length_eq hshared := by
    rw [h'.length_eq (h.shared.trans hshared), h.length_eq hshared]

theorem later_view (m : Memory) (stop : ℕ) : Later m (m.view stop).2 where
  data := data_view m stop
  shared := by
    rcases view_cases m stop with h | ⟨bytes, -, h, -⟩
    · rw [h]; rfl
    · rw [h]
  length_le := (length_view m stop).ge
  length_eq := fun _ => length_view m stop

theorem later_growMeanwhile (m : Memory) (n : ℕ) : Later m (m.growMeanwhile n) where
  data := data_growMeanwhile m n
  shared := by
    unfold Memory.growMeanwhile
    split_ifs <;> rfl
  length_le := by
    rw [length_growMeanwhile]
    split_ifs <;> omega
  length_eq hshared := by
    rw [length_growMeanwhile, hshared]
    exact if_neg Bool.false_ne_true

theorem scanLoop_spec (m : Memory) (ptr unit max : ℕ) (bytes : View) (grown : List ℕ)
    (hunit : unit = 1 ∨ unit = 2) (hle : bytes.bytesLength m ≤ m.length) :
    Later m (scanLoop m ptr unit max bytes grown).2 ∧
      Answers (scanLoop m ptr unit max bytes grown).2 ptr unit max
        (scanLoop m ptr unit max bytes grown).1 := by
  have hpos : 0 < unit := by omega
  fun_induction scanLoop m ptr unit max bytes grown with
  | case1 m bytes grown limit n hscan =>
    -- found in what the view shows
    refine ⟨Later.refl m, Or.inl ⟨n, rfl, ?_, ?_⟩⟩
    · have hlimit := ((scan_eq_some_iff hunit).1 hscan).le_limit
      have hmax : (n + 1) * unit ≤ max * unit := by omega
      exact Nat.le_of_mul_le_mul_right hmax hpos
    · obtain ⟨hnul, hlimit, hfirst⟩ := (scan_eq_some_iff hunit).1 hscan
      exact ⟨hnul, hlimit.trans ((Nat.min_le_left ..).trans hle), hfirst⟩
  | case2 m bytes grown limit hscan hall =>
    -- all `max` units have been seen
    refine ⟨Later.refl m, Or.inr ⟨rfl, ?_⟩⟩
    intro n hn _
    apply not_nulAt_of_scan hunit hscan
    have : (n + 1) * unit ≤ max * unit := Nat.mul_le_mul_right unit hn
    omega
  | case3 m bytes grown limit hscan hmore current hshort =>
    -- the view there is now is no longer than the one that was searched
    have hlater := (later_growMeanwhile m (grown.headD 0)).trans
      (later_view _ (bytes.bytesLength m + 1))
    refine ⟨hlater, Or.inr ⟨rfl, ?_⟩⟩
    intro n hn hfits
    have hlong : _ ≤ current.1.bytesLength current.2 := le_bytesLength_view ..
    rw [length_view] at hfits
    rw [hlater.data]
    apply not_nulAt_of_scan hunit hscan
    have : (n + 1) * unit ≤ max * unit := Nat.mul_le_mul_right unit hn
    omega
  | case4 m bytes grown limit hscan hmore current hlonger ih =>
    have hlater := (later_growMeanwhile m (grown.headD 0)).trans
      (later_view _ (bytes.bytesLength m + 1))
    have hle' := bytesLength_view_le (m.growMeanwhile (grown.headD 0)) (bytes.bytesLength m + 1)
    rw [← length_view _ (bytes.bytesLength m + 1)] at hle'
    obtain ⟨hrest, hanswers⟩ := ih hle'
    exact ⟨hlater.trans hrest, hanswers⟩

/-- What `view` returns shows what the memory holds now, at least up to `stop` or to its end. -/
theorem byte_view {i : ℕ} (hi : i < min stop m.length) :
    (m.view stop).1.byte (m.view stop).2 i = some (m.data i) := by
  unfold View.byte
  rw [if_pos (hi.trans_le (le_bytesLength_view m stop)), data_view]

/-- Whatever view the memory's entry is, and however the memory grows before and while it is
    searched, `terminated` answers for the memory as it is at its last access, the first terminator
    of which it finds; and `view` reaches as far as it is asked to, or to the end of the memory. -/
theorem terminated_answers (m : Memory) (ptr unit max : ℕ) (grown : List ℕ)
    (hunit : unit = 1 ∨ unit = 2) :
    Later m (terminated m ptr unit max grown).2 ∧
      Answers (terminated m ptr unit max grown).2 ptr unit max
        (terminated m ptr unit max grown).1 ∧
      ∀ stop, min stop m.length ≤ (m.view stop).1.bytesLength (m.view stop).2 ∧
        (m.view stop).1.bytesLength (m.view stop).2 ≤ m.length ∧
        ∀ i < min stop m.length, (m.view stop).1.byte (m.view stop).2 i = some (m.data i) := by
  have hle := bytesLength_view_le (m.growMeanwhile (grown.headD 0)) (ptr + unit)
  rw [← length_view _ (ptr + unit)] at hle
  obtain ⟨hlater, hanswers⟩ := scanLoop_spec _ ptr unit max _ grown.tail hunit hle
  refine ⟨?_, hanswers, ?_⟩
  · exact ((later_growMeanwhile m _).trans (later_view _ _)).trans hlater
  · intro stop
    exact ⟨le_bytesLength_view m stop, bytesLength_view_le m stop, fun i => byte_view⟩

/-- A shared memory whose view is as long as it was before it grew. -/
def grownMemory : Memory :=
  ({ shared := true, length := 4, data := fun i => if i = 5 then 0 else 97 : Memory }.view 0).2.grow 4

/-- The terminator lies past the end of the old view. -/
theorem terminated_answers_grown : (terminated grownMemory 2 1 16 [0]).1 = 3 := by
  obtain ⟨hlater, hanswers, -⟩ := terminated_answers grownMemory 2 1 16 [0] (Or.inl rfl)
  apply hanswers.eq_of_firstNul (by decide)
  rw [hlater.data]
  exact ⟨by decide, le_trans (by decide) hlater.length_le, by decide⟩

end WasmerNapi.Guest.ViewCache
