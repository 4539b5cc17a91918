import Mathlib

/-!
# Text in code units

A string of UTF-16 code units, its scalar values, and their UTF-8. A surrogate with no partner
stands for U+FFFD, as every converter to UTF-8 has it.

The other half is about truncation. A text in some encoding is a list of characters, each a list
of units; `fit n` is the longest prefix of whole characters of at most `n` units. A program that
has only the units finds it by going back from `n` over the units that cannot begin a character:
`backOff_flatten`.
-/

namespace Text

open List (flatten_cons length_append map_cons mem_cons_self map_map map_id)

def isHigh (c : UInt16) : Bool := 0xd800 ≤ c && c ≤ 0xdbff

def isLow (c : UInt16) : Bool := 0xdc00 ≤ c && c ≤ 0xdfff

def replacement : Char := Char.ofNat 0xfffd

/-- The scalar value of a surrogate pair. -/
def pair (c d : UInt16) : Char :=
  Char.ofNat (0x10000 + (c.toNat - 0xd800) * 0x400 + (d.toNat - 0xdc00))

/-- The scalar values of a string. -/
def scalars : List UInt16 → List Char
  | [] => []
  | [c] => [if isHigh c || isLow c then replacement else Char.ofNat c.toNat]
  | c :: d :: rest =>
    if isHigh c && isLow d then pair c d :: scalars rest
    else (if isHigh c || isLow c then replacement else Char.ofNat c.toNat) :: scalars (d :: rest)

/-- The characters of a string in UTF-8. -/
def utf8 (s : List UInt16) : List (List UInt8) := (scalars s).map String.utf8EncodeChar

/-! ## The longest prefix that fits -/

section Fit

variable {α : Type*}

/-- Whole characters only, of at most `n` units together. -/
def fit : ℕ → List (List α) → List α
  | _, [] => []
  | n, c :: cs => if c.length ≤ n then c ++ fit (n - c.length) cs else []

variable {cs : List (List α)}

theorem fit_of_le {n : ℕ} (h : cs.flatten.length ≤ n) :
    fit n cs = cs.flatten := by
  induction cs generalizing n with
  | nil => rfl
  | cons c cs ih =>
    rw [flatten_cons, length_append] at h
    rw [fit, if_pos (by omega), ih (by omega), flatten_cons]

/-- More room than there is text makes no difference. -/
theorem fit_min (n : ℕ) (cs : List (List α)) : fit (min n cs.flatten.length) cs = fit n cs := by
  rcases Nat.le_total n cs.flatten.length with hle | hle
  · rw [Nat.min_eq_left hle]
  · rw [Nat.min_eq_right hle, fit_of_le (le_refl _), fit_of_le hle]

theorem length_fit_le (n : ℕ) (cs : List (List α)) : (fit n cs).length ≤ n := by
  induction cs generalizing n with
  | nil => exact Nat.zero_le n
  | cons c cs ih =>
    rw [fit]
    split
    next hc =>
      have hrest := ih (n - c.length)
      rw [length_append]
      omega
    next => exact Nat.zero_le n

/-- It is a prefix of whole characters, and one character more does not fit. -/
theorem fit_longest (n : ℕ) (cs : List (List α)) : ∃ k, fit n cs = (cs.take k).flatten ∧
    (k < cs.length → n < (cs.take (k + 1)).flatten.length) := by
  induction cs generalizing n with
  | nil => exact ⟨0, rfl, fun h => absurd h (Nat.not_lt_zero _)⟩
  | cons c cs ih =>
    rw [fit]
    split
    next hc =>
      obtain ⟨k, hk, hlongest⟩ := ih (n - c.length)
      refine ⟨k + 1, by rw [hk, List.take_succ_cons, flatten_cons], ?_⟩
      intro hlt
      have := hlongest (Nat.lt_of_succ_lt_succ hlt)
      rw [List.take_succ_cons, flatten_cons, length_append]
      omega
    next hc =>
      refine ⟨0, rfl, ?_⟩
      intro _
      rw [List.take_succ_cons, List.take_zero, List.flatten_singleton]
      exact not_le.mp hc

/-- The boundary where it ends is the greatest that is not above `n`. -/
theorem length_fit_isGreatest (n : ℕ) (cs : List (List α)) :
    IsGreatest {i | (∃ k, i = (cs.take k).flatten.length) ∧ i ≤ n} (fit n cs).length := by
  have hmono : ∀ {j k : ℕ}, j ≤ k → (cs.take j).flatten.length ≤ (cs.take k).flatten.length :=
    fun hjk => (List.take_sublist_take_left hjk).flatten.length_le
  obtain ⟨k, hk, hlongest⟩ := fit_longest n cs
  refine ⟨⟨⟨k, congrArg List.length hk⟩, length_fit_le n cs⟩, ?_⟩
  rintro i ⟨⟨j, rfl⟩, hj⟩
  rw [hk]
  rcases Nat.lt_or_ge k j with hlt | hle
  · rcases Nat.lt_or_ge k cs.length with hinside | hend
    · have hnext : (cs.take (k + 1)).flatten.length ≤ (cs.take j).flatten.length := hmono hlt
      have hcut := hlongest hinside
      omega
    · rw [List.take_of_length_le hend, List.take_of_length_le (hend.trans hlt.le)]
  · exact hmono hle

theorem fit_eq_take (n : ℕ) (cs : List (List α)) : ∃ k, fit n cs = (cs.take k).flatten := by
  obtain ⟨k, hk, -⟩ := fit_longest n cs
  exact ⟨k, hk⟩

theorem fit_isPrefix (n : ℕ) (cs : List (List α)) : fit n cs <+: cs.flatten := by
  obtain ⟨k, hk⟩ := fit_eq_take n cs
  rw [hk]
  refine ⟨(cs.drop k).flatten, ?_⟩
  rw [← List.flatten_append, List.take_append_drop]

theorem take_length_fit (n : ℕ) (cs : List (List α)) :
    cs.flatten.take (fit n cs).length = fit n cs :=
  (List.prefix_iff_eq_take.mp (fit_isPrefix n cs)).symm

/-- Characters of one unit are cut at `n`. -/
theorem fit_map_singleton {β : Type*} (f : β → α) (n : ℕ) (s : List β) :
    fit n (s.map fun c => [f c]) = (s.take n).map f := by
  induction s generalizing n with
  | nil => simp [fit]
  | cons c s ih =>
    cases n with
    | zero => simp [fit]
    | succ n => simp [fit, ih]

theorem fit_map {β : Type*} (f : α → β) (n : ℕ) (cs : List (List α)) :
    fit n (cs.map (List.map f)) = (fit n cs).map f := by
  induction cs generalizing n with
  | nil => rfl
  | cons c cs ih =>
    rw [map_cons, fit, fit, List.length_map]
    split
    · rw [ih, List.map_append]
    · rfl

theorem fit_append {n : ℕ} (ds : List (List α)) (h : cs.flatten.length ≤ n) :
    fit n (cs ++ ds) = cs.flatten ++ fit (n - cs.flatten.length) ds := by
  induction cs generalizing n with
  | nil => simp
  | cons c cs ih =>
    rw [flatten_cons, length_append] at h
    rw [List.cons_append, fit, if_pos (by omega), ih (by omega), flatten_cons,
      List.append_assoc, length_append, Nat.sub_sub]

theorem fit_zero (h : ∀ c ∈ cs, c ≠ []) : fit 0 cs = [] := by
  cases cs with
  | nil => rfl
  | cons c cs =>
    rw [fit, if_neg]
    have hpos := List.length_pos_iff.mpr (h c mem_cons_self)
    omega

end Fit

/-! ## Finding it from the units -/

section BackOff

variable {α : Type*}

/-- From `n`, back over the units that `cont` says cannot begin a character. -/
def backOff (cont : α → Bool) (l : List α) : ℕ → ℕ
  | 0 => 0
  | n + 1 =>
    match l[n + 1]? with
    | none => n + 1
    | some b => if cont b then backOff cont l n else n + 1

/-- A character as such a program sees it: only its first unit begins one. -/
structure Coded (cont : α → Bool) (ch : List α) : Prop where
  pos : 0 < ch.length
  cont_iff : ∀ {i b}, ch[i]? = some b → (cont b = true ↔ 0 < i)

variable {cont : α → Bool}

/-- Inside a character it goes back to where the character begins. -/
theorem backOff_inside {ch : List α} (h : Coded cont ch) (l : List α) {n : ℕ} (hn : n < ch.length) :
    backOff cont (ch ++ l) n = 0 := by
  induction n with
  | zero => rfl
  | succ n ih =>
    have hget : (ch ++ l)[n + 1]? = some ch[n + 1] := by
      rw [List.getElem?_append_left hn, List.getElem?_eq_getElem hn]
    have hcont : cont ch[n + 1] = true :=
      (h.cont_iff (List.getElem?_eq_getElem hn)).mpr (Nat.succ_pos n)
    rw [backOff, hget]
    dsimp only
    rw [if_pos hcont]
    exact ih (by omega)

/-- Past a character the character does not matter, if what follows begins one. -/
theorem backOff_append {ch l : List α} (h : Coded cont ch) {n : ℕ} (hn : ch.length ≤ n)
    (hlead : ∀ {b}, l[0]? = some b → cont b = false) :
    backOff cont (ch ++ l) n = ch.length + backOff cont l (n - ch.length) := by
  induction n with
  | zero =>
    have hpos := h.pos
    omega
  | succ n ih =>
    have hget : (ch ++ l)[n + 1]? = l[n + 1 - ch.length]? := List.getElem?_append_right hn
    rcases Nat.lt_or_ge n ch.length with hlt | hle
    · -- the first unit of what follows
      have hlen : n + 1 - ch.length = 0 := by omega
      rw [backOff, hget, hlen]
      cases hl : l[0]? with
      | none =>
        show n + 1 = ch.length + 0
        omega
      | some b =>
        dsimp only
        rw [if_neg (by simp [hlead hl])]
        show n + 1 = ch.length + 0
        omega
    · have hsub : n + 1 - ch.length = (n - ch.length) + 1 := by omega
      rw [backOff, hget, hsub, backOff]
      cases l[n - ch.length + 1]? with
      | none =>
        dsimp only
        omega
      | some b =>
        dsimp only
        split
        · exact ih hle
        · omega

/-- Going back from a cut ends where the whole characters that fit end. -/
theorem backOff_flatten {cs : List (List α)} (h : ∀ ch ∈ cs, Coded cont ch) (n : ℕ) :
    backOff cont cs.flatten (min cs.flatten.length n) = (fit n cs).length := by
  induction cs generalizing n with
  | nil => simp [backOff, fit]
  | cons ch cs ih =>
    have hc := h ch mem_cons_self
    have hcs : ∀ d ∈ cs, Coded cont d := fun d hd => h d (List.mem_cons_of_mem ch hd)
    rw [flatten_cons, length_append, fit]
    split
    next hle =>
      have hlead : ∀ {b}, cs.flatten[0]? = some b → cont b = false := by
        intro b hb
        cases cs with
        | nil => simp at hb
        | cons d cs =>
          have hd := hcs d mem_cons_self
          rw [flatten_cons, List.getElem?_append_left hd.pos] at hb
          rw [← Bool.not_eq_true, hd.cont_iff hb]
          exact lt_irrefl 0
      rw [backOff_append hc (by omega) hlead, length_append, ← ih hcs]
      congr 2
      omega
    next hgt =>
      rw [List.length_nil, Nat.min_eq_right (by omega)]
      exact backOff_inside hc _ (by omega)

end BackOff

/-! ## UTF-8 -/

/-- `10xxxxxx`: a byte inside a character. -/
def isContinuation (b : UInt8) : Bool := b &&& 0xc0 == 0x80

theorem isContinuation_or : ∀ b : UInt8, isContinuation (b &&& 0x3f ||| 0x80) = true := by
  intro b
  rw [isContinuation, beq_iff_eq, ← UInt8.toBitVec_inj]
  apply BitVec.eq_of_getLsbD_eq
  intro i hi
  simp only [UInt8.toBitVec_and, UInt8.toBitVec_or, BitVec.getLsbD_and, BitVec.getLsbD_or]
  interval_cases i <;> simp

variable {b : UInt8}

/-- What a mask shows, a narrower one shows too. -/
theorem and_mask {m₁ m₂ v : UInt8} (h : b &&& m₁ = v) (hm : m₁ &&& m₂ = m₂) :
    b &&& m₂ = v &&& m₂ := by
  rw [← h, UInt8.and_assoc, hm]

theorem not_isContinuation_of_first : ∀ b : UInt8, b.IsUTF8FirstByte → isContinuation b = false := by
  intro b hfirst
  rw [isContinuation, beq_eq_false_iff_ne]
  intro hc
  rcases hfirst with h | h | h | h
  · have h80 : b &&& 0x80 = 0x80 &&& 0x80 := and_mask hc (by decide)
    rw [h] at h80
    exact absurd h80 (by decide)
  · exact absurd (hc.symm.trans (and_mask h (by decide))) (by decide)
  · exact absurd (hc.symm.trans (and_mask h (by decide))) (by decide)
  · exact absurd (hc.symm.trans (and_mask h (by decide))) (by decide)

theorem not_ascii_of_isContinuation (hb : isContinuation b = true) :
    ¬ b.toNat < 0x80 := by
  rw [isContinuation, beq_iff_eq] at hb
  have hle : (b &&& 0xc0).toNat ≤ b.toNat := by
    rw [UInt8.toNat_and]
    exact Nat.and_le_left
  rw [hb] at hle
  change 0x80 ≤ _ at hle
  omega

/-- Every byte of a character but its first is a continuation. -/
theorem isContinuation_of_pos {c : Char} {i : ℕ} (hb : (String.utf8EncodeChar c)[i]? = some b)
    (hi : 0 < i) : isContinuation b = true := by
  have hrest : ∀ b' ∈ (String.utf8EncodeChar c).tail, isContinuation b' = true := by
    intro b' hb'
    match hsize : c.utf8Size, c.utf8Size_pos, c.utf8Size_le_four with
    | 1, _, _ =>
      rw [String.utf8EncodeChar_eq_singleton hsize] at hb'
      cases hb'
    | 2, _, _ =>
      rw [String.utf8EncodeChar_eq_cons_cons hsize] at hb'
      obtain rfl := List.mem_singleton.mp hb'
      exact isContinuation_or _
    | 3, _, _ =>
      rw [String.utf8EncodeChar_eq_cons_cons_cons hsize] at hb'
      rcases List.mem_pair.mp hb' with rfl | rfl <;> exact isContinuation_or _
    | 4, _, _ =>
      rw [String.utf8EncodeChar_eq_cons_cons_cons_cons hsize] at hb'
      rcases List.mem_cons.mp hb' with rfl | hb'
      · exact isContinuation_or _
      · rcases List.mem_pair.mp hb' with rfl | rfl <;> exact isContinuation_or _
  apply hrest
  rw [← Nat.succ_pred_eq_of_pos hi, Nat.succ_eq_add_one, ← List.getElem?_tail] at hb
  exact List.mem_of_getElem? hb

theorem coded_utf8EncodeChar (c : Char) : Coded isContinuation (String.utf8EncodeChar c) where
  pos := by
    rw [String.length_utf8EncodeChar]
    exact c.utf8Size_pos
  cont_iff := by
    intro i b hb
    obtain ⟨hlt, hget⟩ := List.getElem?_eq_some_iff.mp hb
    constructor
    · intro hcont
      by_contra hi
      have hfirst : b.IsUTF8FirstByte := by
        rw [← hget, UInt8.isUTF8FirstByte_getElem_utf8EncodeChar]
        omega
      rw [not_isContinuation_of_first b hfirst] at hcont
      cases hcont
    · exact isContinuation_of_pos hb

theorem coded_utf8 (s : List UInt16) : ∀ ch ∈ utf8 s, Coded isContinuation ch := by
  intro ch hch
  obtain ⟨c, _, rfl⟩ := List.mem_map.mp hch
  exact coded_utf8EncodeChar c

/-! ### Sizes -/

theorem utf8Size_eq (c : Char) : c.utf8Size = if c.toNat < 0x80 then 1 else
    if c.toNat < 0x800 then 2 else if c.toNat < 0x10000 then 3 else 4 := by
  have h1 : c.val ≤ 0x7f ↔ c.toNat < 0x80 := Nat.lt_succ_iff.symm
  have h2 : c.val ≤ 0x7ff ↔ c.toNat < 0x800 := Nat.lt_succ_iff.symm
  have h3 : c.val ≤ 0xffff ↔ c.toNat < 0x10000 := Nat.lt_succ_iff.symm
  show (if c.val ≤ 0x7f then 1 else if c.val ≤ 0x7ff then 2 else if c.val ≤ 0xffff then 3 else 4) = _
  simp only [h1, h2, h3]

variable {c : UInt16}

/-- A unit that is no surrogate is its own scalar value. -/
theorem toNat_ofNat_unit (hhigh : isHigh c = false) (hlow : isLow c = false) :
    (Char.ofNat c.toNat).toNat = c.toNat := by
  rw [Char.toNat_ofNat, if_pos]
  have hlt := c.toNat_lt
  simp only [isHigh, isLow, Bool.and_eq_false_iff, decide_eq_false_iff_not, UInt16.not_le,
    UInt16.lt_iff_toNat_lt] at hhigh hlow
  simp only [Nat.isValidChar, UInt16.reduceToNat] at hhigh hlow ⊢
  omega

theorem toNat_pair {d : UInt16} (hhigh : isHigh c = true) (hlow : isLow d = true) :
    (pair c d).toNat = 0x10000 + (c.toNat - 0xd800) * 0x400 + (d.toNat - 0xdc00) := by
  simp only [isHigh, isLow, Bool.and_eq_true, decide_eq_true_eq, UInt16.le_iff_toNat_le,
    UInt16.reduceToNat] at hhigh hlow
  rw [pair, Char.toNat_ofNat, if_pos]
  simp only [Nat.isValidChar]
  omega

theorem isSurrogate_eq (c : UInt16) :
    (isHigh c || isLow c) = true ↔ 0xd800 ≤ c.toNat ∧ c.toNat ≤ 0xdfff := by
  simp only [isHigh, isLow, Bool.or_eq_true, Bool.and_eq_true, decide_eq_true_eq,
    UInt16.le_iff_toNat_le, UInt16.reduceToNat]
  omega

/-- A unit alone takes one, two or three bytes; a lone surrogate three. -/
theorem utf8Size_unit (c : UInt16) :
    (if isHigh c || isLow c then replacement else Char.ofNat c.toNat).utf8Size =
      if c.toNat < 0x80 then 1 else if c.toNat < 0x800 then 2 else 3 := by
  by_cases h : (isHigh c || isLow c) = true
  · have hrange := (isSurrogate_eq c).mp h
    rw [if_pos h, if_neg (by omega), if_neg (by omega)]
    rfl
  · have hlt := c.toNat_lt
    rw [if_neg h, utf8Size_eq]
    rw [Bool.or_eq_true, not_or, Bool.not_eq_true, Bool.not_eq_true] at h
    rw [toNat_ofNat_unit h.1 h.2]
    split_ifs <;> omega

theorem utf8Size_pair {d : UInt16} (hhigh : isHigh c = true) (hlow : isLow d = true) :
    (pair c d).utf8Size = 4 := by
  rw [utf8Size_eq, toNat_pair hhigh hlow, if_neg (by omega), if_neg (by omega), if_neg (by omega)]

/-- A unit of ASCII is a scalar value, whatever follows. -/
theorem scalars_cons_ascii (hc : c.toNat < 0x80) (s : List UInt16) :
    scalars (c :: s) = Char.ofNat c.toNat :: scalars s := by
  have hsurrogate : (isHigh c || isLow c) = false := by
    rw [← Bool.not_eq_true, isSurrogate_eq]
    omega
  have hhigh : isHigh c = false := (Bool.or_eq_false_iff.mp hsurrogate).1
  have hlow : isLow c = false := (Bool.or_eq_false_iff.mp hsurrogate).2
  cases s with
  | nil => simp [scalars, hsurrogate]
  | cons d rest => simp [scalars, hhigh, hlow]

theorem toNat_ofNat_ascii (hc : c.toNat < 0x80) :
    (Char.ofNat c.toNat).toNat = c.toNat := by
  rw [Char.toNat_ofNat, if_pos (.inl (by omega))]

/-- ASCII is its own UTF-8. -/
theorem utf8_ascii {l : List UInt16} (h : ∀ c ∈ l, c.toNat < 0x80) (s : List UInt16) :
    utf8 (l ++ s) = (l.map fun c => [c.toUInt8]) ++ utf8 s := by
  induction l with
  | nil => rfl
  | cons c l ih =>
    have hc := h c mem_cons_self
    have hl : ∀ d ∈ l, d.toNat < 0x80 := fun d hd => h d (List.mem_cons_of_mem c hd)
    have hsize : (Char.ofNat c.toNat).utf8Size = 1 := by
      rw [utf8Size_eq, toNat_ofNat_ascii hc, if_pos hc]
    have hbyte : String.utf8EncodeChar (Char.ofNat c.toNat) = [c.toUInt8] := by
      rw [String.utf8EncodeChar_eq_singleton hsize]
      congr 1
      apply UInt8.toNat_inj.mp
      rw [UInt32.toNat_toUInt8, UInt16.toNat_toUInt8]
      show (Char.ofNat c.toNat).toNat % 256 = c.toNat % 256
      rw [toNat_ofNat_ascii hc]
    show (scalars (c :: (l ++ s))).map _ = _
    rw [scalars_cons_ascii hc, map_cons, hbyte, map_cons, List.cons_append]
    congr 1
    exact ih hl

variable {s : List UInt16}

theorem scalars_ascii (h : ∀ c ∈ s, c.toNat < 0x80) :
    scalars s = s.map fun c => Char.ofNat c.toNat := by
  induction s with
  | nil => rfl
  | cons c s ih =>
    rw [scalars_cons_ascii (h c mem_cons_self), map_cons,
      ih fun d hd => h d (List.mem_cons_of_mem c hd)]

/-- A character beyond ASCII has a byte beyond ASCII. -/
theorem exists_byte_of_not_ascii {c : Char} (h : ¬ c.toNat < 0x80) :
    ∃ b ∈ String.utf8EncodeChar c, ¬ b.toNat < 0x80 := by
  have hsize : 1 < c.utf8Size := by
    rw [utf8Size_eq]
    split_ifs <;> omega
  have hlen : 1 < (String.utf8EncodeChar c).length := by
    rw [String.length_utf8EncodeChar]
    exact hsize
  have hget := List.getElem?_eq_getElem hlen
  have hcont := isContinuation_of_pos hget (by decide)
  exact ⟨_, List.getElem_mem hlen, not_ascii_of_isContinuation hcont⟩

/-- A text whose UTF-8 is ASCII is ASCII. -/
theorem ascii_of_scalars (h : ∀ c ∈ scalars s, c.toNat < 0x80) :
    ∀ c ∈ s, c.toNat < 0x80 := by
  have hreplacement : ¬ replacement.toNat < 0x80 := by decide
  have hunit (c : UInt16)
      (hc : (if isHigh c || isLow c then replacement else Char.ofNat c.toNat).toNat < 0x80) :
      c.toNat < 0x80 := by
    split_ifs at hc with hs
    · exact absurd hc hreplacement
    · rw [Bool.or_eq_true, not_or, Bool.not_eq_true, Bool.not_eq_true] at hs
      rwa [toNat_ofNat_unit hs.1 hs.2] at hc
  induction s using scalars.induct with
  | case1 => simp
  | case2 c =>
    intro d hd
    obtain rfl := List.mem_singleton.mp hd
    exact hunit d (h _ (by simp [scalars]))
  | case3 c d rest hpair ih =>
    have hp := h (pair c d) (by simp [scalars, hpair])
    rw [Bool.and_eq_true] at hpair
    rw [toNat_pair hpair.1 hpair.2] at hp
    omega
  | case4 c d rest hpair ih =>
    have hscalars : scalars (c :: d :: rest) =
        (if isHigh c || isLow c then replacement else Char.ofNat c.toNat) ::
          scalars (d :: rest) := by
      rw [scalars, if_neg hpair]
    rw [hscalars] at h
    intro x hx
    rcases List.mem_cons.mp hx with rfl | hx
    · exact hunit x (h _ mem_cons_self)
    · exact ih (fun y hy => h y (List.mem_cons_of_mem _ hy)) x hx

/-- The text whose scalar values are a given ASCII. -/
theorem scalars_eq_iff {cs : List Char} (hcs : ∀ c ∈ cs, c.toNat < 0x80) :
    scalars s = cs ↔ s = cs.map fun c => UInt16.ofNat c.toNat := by
  constructor
  · rintro rfl
    have hs := ascii_of_scalars hcs
    rw [scalars_ascii hs, map_map]
    refine (map_id s).symm.trans (List.map_congr_left fun c hc => ?_)
    simp [toNat_ofNat_ascii (hs c hc)]
  · rintro rfl
    have hunit : ∀ c ∈ cs, (UInt16.ofNat c.toNat).toNat = c.toNat := by
      intro c hc
      have := hcs c hc
      rw [UInt16.toNat_ofNat']
      omega
    rw [scalars_ascii, map_map]
    · refine (List.map_congr_left fun c hc => ?_).trans (map_id cs)
      simp [hunit c hc]
    · intro u hu
      obtain ⟨c, hc, rfl⟩ := List.mem_map.mp hu
      rw [hunit c hc]
      exact hcs c hc

/-- The texts whose UTF-8 is a given ASCII. -/
theorem flatten_utf8_eq_iff {bytes : List UInt8} (hbytes : ∀ b ∈ bytes, b.toNat < 0x80) :
    (utf8 s).flatten = bytes ↔ s = bytes.map UInt8.toUInt16 := by
  have hback (s : List UInt16) (hs : ∀ c ∈ s, c.toNat < 0x80) :
      (utf8 s).flatten = s.map UInt16.toUInt8 := by
    have := utf8_ascii hs []
    simp only [List.append_nil] at this
    rw [this, List.flatten_append, ← List.flatMap_def, ← List.map_eq_flatMap]
    simp [utf8, scalars]
  constructor
  · intro h
    have hs : ∀ c ∈ s, c.toNat < 0x80 := by
      apply ascii_of_scalars
      intro c hc
      by_contra hhigh
      obtain ⟨b, hb, hb'⟩ := exists_byte_of_not_ascii hhigh
      apply hb'
      apply hbytes
      rw [← h]
      exact List.mem_flatten.mpr ⟨_, List.mem_map_of_mem hc, hb⟩
    rw [hback s hs] at h
    rw [← h, map_map]
    refine (map_id s).symm.trans (List.map_congr_left fun c hc => ?_)
    have := hs c hc
    apply UInt16.toNat_inj.mp
    simp only [id_eq, Function.comp_apply, UInt8.toNat_toUInt16, UInt16.toNat_toUInt8]
    omega
  · rintro rfl
    rw [hback, map_map]
    · refine (List.map_congr_left fun b _ => ?_).trans (map_id bytes)
      apply UInt8.toNat_inj.mp
      have := b.toNat_lt
      simp only [id_eq, Function.comp_apply, UInt8.toNat_toUInt16, UInt16.toNat_toUInt8]
      omega
    · intro c hc
      obtain ⟨b, hb, rfl⟩ := List.mem_map.mp hc
      simpa using hbytes b hb

end Text
