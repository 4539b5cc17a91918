import WasmerNapi.Lib.Utf8

/-!
# Strings from UTF-8 in the QuickJS backend

`JS_NewStringLenNodeUtf8` in `src/quickjs/src/js_native_api_quickjs.cc` decodes a byte range into
UTF-16 itself. A read past the range is `none`.
-/

namespace WasmerNapi.Quickjs.NodeUtf8

/-- `append_code_point` -/
def appendCodePoint (cp : ℕ) : List UInt16 :=
  if cp ≤ 0xffff then [cp.toUInt16]
  else
    [(0xd800 + ((cp - 0x10000) >>> 10 &&& 0x3ff)).toUInt16,
      (0xdc00 + (cp - 0x10000 &&& 0x3ff)).toUInt16]

/-- `append_replacement` -/
def appendReplacement : List UInt16 := [0xfffd]

/-- What the first byte says: how many bytes follow, its bits, and the least code point. -/
def firstByte (b0 : UInt8) : Option (ℕ × ℕ × ℕ) :=
  if b0 ≥ 0xc2 && b0 ≤ 0xdf then some (1, (b0 &&& 0x1f).toNat, 0x80)
  else if b0 ≥ 0xe0 && b0 ≤ 0xef then some (2, (b0 &&& 0x0f).toNat, 0x800)
  else if b0 ≥ 0xf0 && b0 ≤ 0xf4 then some (3, (b0 &&& 0x07).toNat, 0x10000)
  else none

/-- The loop over the bytes that follow, `left` of them still to come: the last `j` and `cp`. -/
def follow (str : List UInt8) (i : ℕ) : ℕ → ℕ → ℕ → Option (ℕ × ℕ)
  | 0, j, cp => some (j, cp)
  | left + 1, j, cp =>
    if i + j < str.length then
      str[i + j]?.bind fun bx =>
        if bx &&& 0xc0 ≠ 0x80 then some (j, cp)
        else follow str i left (j + 1) (cp <<< 6 ||| (bx &&& 0x3f).toNat)
    else some (j, cp)

/-- The second byte is one that this first byte cannot have. -/
def prefixInvalid (needed : ℕ) (b0 b1 : UInt8) : Bool :=
  needed == 2 && b0 == 0xe0 && b1 < 0xa0 || needed == 2 && b0 == 0xed && b1 > 0x9f ||
    needed == 3 && b0 == 0xf0 && b1 < 0x90 || needed == 3 && b0 == 0xf4 && b1 > 0x8f

/-- A turn once the bytes that follow are read up to `j`: too few, or all of them. -/
def conclude (str : List UInt8) (i : ℕ) (b0 : UInt8) (needed minCp j cp : ℕ) :
    Option (ℕ × List UInt16) :=
  if j ≤ needed then
    if j > 1 then
      str[i + 1]?.bind fun b1 =>
        some (i + (if prefixInvalid needed b0 b1 then 1 else j), appendReplacement)
    else some (i + j, appendReplacement)
  else
    str[i + 1]?.bind fun b1 =>
      if cp < minCp || cp > 0x10ffff || cp ≥ 0xd800 && cp ≤ 0xdfff || prefixInvalid needed b0 b1 then
        some (i + 1, appendReplacement)
      else some (i + (needed + 1), appendCodePoint cp)

/-- One turn of the loop at `i`: the next `i`, and what is appended. -/
def decodeOne (str : List UInt8) (i : ℕ) : Option (ℕ × List UInt16) :=
  str[i]?.bind fun b0 =>
    if b0 < 0x80 then some (i + 1, [b0.toUInt16])
    else
      match firstByte b0 with
      | none => some (i + 1, appendReplacement)
      | some (needed, bits, minCp) =>
        (follow str i needed 1 bits).bind fun r => conclude str i b0 needed minCp r.1 r.2

/-- The loop from `i`, for at most so many turns. -/
def decodeLoop (str : List UInt8) : ℕ → ℕ → List UInt16 → Option (List UInt16)
  | 0, i, utf16 => if i < str.length then none else some utf16
  | turns + 1, i, utf16 =>
    if i < str.length then
      (decodeOne str i).bind fun r => decodeLoop str turns r.1 (utf16 ++ r.2)
    else some utf16

/-- `JS_NewStringLenNodeUtf8` -/
def jsNewStringLenNodeUtf8 (turns : ℕ) (str : List UInt8) : Option (List UInt16) :=
  decodeLoop str turns 0 []

/-- `napi_create_string_utf8`, for a live env and a result pointer. `str`: what can be read from
    the pointer on; `length`: `none` is `NAPI_AUTO_LENGTH`. `error` is `napi_invalid_arg`. -/
def napiCreateStringUtf8 (turns : ℕ) (str : Option (List UInt8)) (length : Option ℕ) :
    Except Unit (Option (List UInt16)) :=
  match str with
  | none =>
    match length with
    | some (_ + 1) => .error ()
    | some 0 | none => .ok (jsNewStringLenNodeUtf8 turns [])
  | some bytes =>
    let length := length.getD (bytes.takeWhile (· ≠ 0)).length
    if length > 2147483647 then .error ()
    else .ok (jsNewStringLenNodeUtf8 turns (bytes.take length))

/-! ## The first byte and those that follow -/

theorem tail_iff : ∀ b : UInt8, ¬ (b &&& 0xc0 ≠ 0x80) ↔ Utf8.isTail b := by
  decide +kernel

theorem toNat_and_3f : ∀ b : UInt8, (b &&& 0x3f).toNat = b.toNat % 0x40 := by
  intro b
  rw [UInt8.toNat_and]
  exact Nat.and_two_pow_sub_one_eq_mod _ 6

theorem toNat_and_1f : ∀ b : UInt8, (b &&& 0x1f).toNat = b.toNat % 0x20 := by
  intro b
  rw [UInt8.toNat_and]
  exact Nat.and_two_pow_sub_one_eq_mod _ 5

theorem toNat_and_0f : ∀ b : UInt8, (b &&& 0x0f).toNat = b.toNat % 0x10 := by
  intro b
  rw [UInt8.toNat_and]
  exact Nat.and_two_pow_sub_one_eq_mod _ 4

theorem toNat_and_07 : ∀ b : UInt8, (b &&& 0x07).toNat = b.toNat % 8 := by
  intro b
  rw [UInt8.toNat_and]
  exact Nat.and_two_pow_sub_one_eq_mod _ 3

theorem shiftLeft_or (cp : ℕ) (b : UInt8) :
    cp <<< 6 ||| (b &&& 0x3f).toNat = cp * 0x40 + b.toNat % 0x40 := by
  have hlt : b.toNat % 0x40 < 2 ^ 6 := Nat.mod_lt _ (by decide)
  rw [toNat_and_3f, ← Nat.shiftLeft_add_eq_or_of_lt hlt, Nat.shiftLeft_eq]

theorem appendCodePoint_eq {cp : ℕ} (h : cp ≤ 0x10ffff) : appendCodePoint cp = Utf8.utf16 cp := by
  have hand : ∀ n : ℕ, n &&& 0x3ff = n % 0x400 := fun n => Nat.and_two_pow_sub_one_eq_mod n 10
  rw [appendCodePoint, Utf8.utf16, hand, hand, Nat.shiftRight_eq_div_pow]
  split
  · rfl
  · have hhigh : (cp - 0x10000) / 2 ^ 10 < 0x400 := by omega
    rw [Nat.mod_eq_of_lt hhigh]
    rfl

/-- The loop gathers what the decoder's look-ahead does, and reads only what is there. -/
theorem follow_eq (str : List UInt8) (i left j cp : ℕ) :
    follow str i left j cp =
      some (j + (Utf8.gather left cp (str.drop (i + j))).1,
        (Utf8.gather left cp (str.drop (i + j))).2) := by
  induction left generalizing j cp with
  | zero => rfl
  | succ left ih =>
    rw [follow]
    by_cases hlt : i + j < str.length
    · have hdrop : str.drop (i + j) = str[i + j] :: str.drop (i + (j + 1)) :=
        List.drop_eq_getElem_cons hlt
      rw [if_pos hlt, List.getElem?_eq_getElem hlt, Option.bind_some, hdrop, Utf8.gather]
      by_cases htail : Utf8.isTail str[i + j]
      · rw [if_neg ((tail_iff _).mpr htail), if_pos htail, ih, shiftLeft_or]
        dsimp only
        rw [Nat.add_assoc, Nat.add_comm 1]
      · rw [if_pos (by_contra fun h => htail ((tail_iff _).mp h)), if_neg htail]
        rfl
    · rw [if_neg hlt, List.drop_eq_nil_of_le (Nat.le_of_not_lt hlt)]
      rfl

/-! ## One turn -/

section

variable {str : List UInt8} {i needed bits minCp lo hi : ℕ} {b0 : UInt8} {t : List UInt8}

/-- What one turn is to do: it reads what is there, goes on, and appends what the decoder does. -/
def Turn (str : List UInt8) (i : ℕ) : Prop :=
  ∃ i' units, decodeOne str i = some (i', units) ∧ i < i' ∧ i' ≤ str.length ∧
    (Utf8.decode (str.drop i)).flatMap Utf8.utf16 =
      units ++ (Utf8.decode (str.drop i')).flatMap Utf8.utf16

theorem Turn.of_eq {i' c : ℕ} {units : List UInt16} (hone : decodeOne str i = some (i', units))
    (hlt : i < i') (hle : i' ≤ str.length) (hunits : units = Utf8.utf16 c)
    (hdecode : Utf8.decode (str.drop i) = c :: Utf8.decode (str.drop i')) : Turn str i := by
  refine ⟨i', units, hone, hlt, hle, ?_⟩
  rw [hdecode, List.flatMap_cons, hunits]

theorem utf16_replacement : appendReplacement = Utf8.utf16 Utf8.replacement := rfl

theorem gather_pos {n c : ℕ} {b : UInt8} {bs : List UInt8} (hb : Utf8.isTail b) :
    0 < (Utf8.gather (n + 1) c (b :: bs)).1 := by
  rw [Utf8.gather, if_pos hb]
  exact Nat.succ_pos _

/-- The second byte when there is a continuation byte. -/
theorem gather_head {n c : ℕ} {bs : List UInt8} (h : 0 < (Utf8.gather n c bs).1) :
    ∃ b rest, bs = b :: rest ∧ Utf8.isTail b := by
  cases n with
  | zero => exact absurd h (lt_irrefl 0)
  | succ n =>
    cases bs with
    | nil => exact absurd h (lt_irrefl 0)
    | cons b rest =>
      refine ⟨b, rest, rfl, ?_⟩
      by_contra hb
      rw [Utf8.gather, if_neg hb] at h
      exact lt_irrefl 0 h

/-- A turn on a first byte that others follow, given what its second byte may be and that the
    bits of a whole character are then in range. -/
theorem Turn.of_lead (hi' : i < str.length) (hstr : str.drop i = b0 :: t) (hb0 : ¬ b0 < 0x80)
    (hfirst : firstByte b0 = some (needed, bits, minCp))
    (hlead : Utf8.lead b0.toNat =
      .more { codePoint := bits, needed := needed, lower := lo, upper := hi })
    (hneeded : needed ≠ 0) (hlo : 0x80 ≤ lo) (hhi : hi ≤ 0xbf)
    (hsecond : ∀ b1, Utf8.isTail b1 →
      (prefixInvalid needed b0 b1 = true ↔ ¬ (lo ≤ b1.toNat ∧ b1.toNat ≤ hi)))
    (hrange : ∀ (b1 : UInt8) (cp : ℕ), lo ≤ b1.toNat → b1.toNat ≤ hi →
      (bits * 0x40 + b1.toNat % 0x40) * 0x40 ^ (needed - 1) ≤ cp →
      cp < (bits * 0x40 + b1.toNat % 0x40 + 1) * 0x40 ^ (needed - 1) →
      minCp ≤ cp ∧ cp ≤ 0x10ffff ∧ (cp < 0xd800 ∨ 0xdfff < cp)) : Turn str i := by
  have hget : str[i]? = some b0 := by
    rw [← List.head?_drop, hstr]
    rfl
  have htail : str.drop (i + 1) = t := by
    rw [← List.drop_drop, hstr]
    rfl
  have hlen : str.length = i + 1 + t.length := by
    have hdrop := congrArg List.length hstr
    rw [List.length_drop, List.length_cons] at hdrop
    omega
  have hdecode : Utf8.decode (str.drop i) =
      Utf8.decodeFrom { codePoint := bits, needed := needed, lower := lo, upper := hi } t := by
    rw [hstr]
    exact Utf8.decodeFrom_more (d := {}) t hlead
  rw [Utf8.decode_bounded bits t hneeded hlo hhi] at hdecode
  set r := Utf8.gather needed bits t with hr
  have hle : r.1 ≤ needed := Utf8.gather_le needed bits t
  have hfits : r.1 ≤ t.length := Utf8.gather_le_length needed bits t
  have hafter : t.drop r.1 = str.drop (i + (1 + r.1)) := by
    rw [← htail, List.drop_drop]
    congr 1
    omega
  have hone : decodeOne str i = conclude str i b0 needed minCp (1 + r.1) r.2 := by
    rw [decodeOne, hget, Option.bind_some, if_neg hb0, hfirst]
    dsimp only
    rw [follow_eq, htail, Option.bind_some]
  rw [conclude] at hone
  by_cases hzero : r.1 = 0
  · -- Nothing that could follow does.
    have hhead : ¬ ∃ b ∈ t.head?, Utf8.isTail b ∧ ¬ (lo ≤ b.toNat ∧ b.toNat ≤ hi) := by
      rintro ⟨b, hb, hb', -⟩
      obtain ⟨n, rfl⟩ := Nat.exists_eq_succ_of_ne_zero hneeded
      cases t with
      | nil => cases hb
      | cons b' t' =>
        obtain rfl : b' = b := Option.some.inj hb
        have hpos : 0 < r.1 := gather_pos hb'
        omega
    rw [if_neg hhead, Utf8.decode_gather bits t hneeded, ← hr, if_neg (by omega), hafter]
      at hdecode
    rw [if_pos (by omega), if_neg (by omega), hzero] at hone
    rw [hzero] at hdecode
    exact .of_eq hone (by omega) (by omega) utf16_replacement hdecode
  · obtain ⟨b1, rest, rfl, hb1⟩ := gather_head (Nat.pos_of_ne_zero hzero)
    have hget1 : str[i + 1]? = some b1 := by
      rw [← List.head?_drop, htail]
      rfl
    have hiff : (∃ b ∈ (b1 :: rest).head?, Utf8.isTail b ∧ ¬ (lo ≤ b.toNat ∧ b.toNat ≤ hi)) ↔
        prefixInvalid needed b0 b1 = true := by
      rw [hsecond b1 hb1]
      simp [hb1]
    rw [hget1] at hone
    simp only [Option.bind_some] at hone
    by_cases hinvalid : prefixInvalid needed b0 b1 = true
    · -- The second byte cannot stand there: only the first is dropped.
      rw [if_pos (hiff.mpr hinvalid)] at hdecode
      have hone' : decodeOne str i = some (i + 1, appendReplacement) := by
        rw [hone]
        by_cases hwhole : 1 + r.1 ≤ needed
        · rw [if_pos hwhole, if_pos (by omega), if_pos hinvalid]
        · rw [if_neg hwhole, if_pos (by rw [hinvalid, Bool.or_true])]
      rw [← htail] at hdecode
      exact .of_eq hone' (by omega) (by omega) utf16_replacement hdecode
    · rw [if_neg (mt hiff.mp hinvalid), Utf8.decode_gather bits _ hneeded, ← hr, hafter] at hdecode
      by_cases hwhole : r.1 = needed
      · have hin : lo ≤ b1.toNat ∧ b1.toNat ≤ hi := by
          by_contra hout
          exact hinvalid ((hsecond b1 hb1).mpr hout)
        obtain ⟨n, rfl⟩ := Nat.exists_eq_succ_of_ne_zero hneeded
        obtain ⟨hlow, hhigh⟩ := Utf8.gather_cons_bounds hwhole
        obtain ⟨hmin, hmax, hsurrogate⟩ := hrange b1 r.2 hin.1 hin.2 hlow hhigh
        have hgood : (decide (r.2 < minCp) || decide (r.2 > 0x10ffff) ||
            decide (r.2 ≥ 0xd800) && decide (r.2 ≤ 0xdfff) || prefixInvalid (n + 1) b0 b1) =
              false := by
          simp only [Bool.or_eq_false_iff, Bool.and_eq_false_iff, decide_eq_false_iff_not]
          refine ⟨⟨⟨?_, ?_⟩, ?_⟩, ?_⟩
          · omega
          · omega
          · omega
          · exact Bool.eq_false_iff.mpr hinvalid
        rw [if_neg (by omega), hgood, if_neg Bool.false_ne_true] at hone
        rw [if_pos hwhole, hwhole, Nat.add_comm 1] at hdecode
        exact .of_eq hone (by omega) (by omega) (appendCodePoint_eq hmax) hdecode
      · rw [if_pos (by omega), if_pos (by omega), if_neg hinvalid] at hone
        rw [if_neg hwhole] at hdecode
        exact .of_eq hone (by omega) (by omega) utf16_replacement hdecode

end

theorem prefixInvalid_iff (needed : ℕ) (b0 b1 : UInt8) : prefixInvalid needed b0 b1 = true ↔
    needed = 2 ∧ b0.toNat = 0xe0 ∧ b1.toNat < 0xa0 ∨ needed = 2 ∧ b0.toNat = 0xed ∧ 0x9f < b1.toNat ∨
      needed = 3 ∧ b0.toNat = 0xf0 ∧ b1.toNat < 0x90 ∨
        needed = 3 ∧ b0.toNat = 0xf4 ∧ 0x8f < b1.toNat := by
  simp [prefixInvalid, UInt8.lt_iff_toNat_lt, ← UInt8.toNat_inj, or_assoc, and_assoc]

theorem firstByte_eq (b : UInt8) : firstByte b =
    if 0xc2 ≤ b.toNat ∧ b.toNat ≤ 0xdf then some (1, b.toNat % 0x20, 0x80)
    else if 0xe0 ≤ b.toNat ∧ b.toNat ≤ 0xef then some (2, b.toNat % 0x10, 0x800)
    else if 0xf0 ≤ b.toNat ∧ b.toNat ≤ 0xf4 then some (3, b.toNat % 8, 0x10000)
    else none := by
  simp only [firstByte, toNat_and_1f, toNat_and_0f, toNat_and_07, UInt8.le_iff_toNat_le, ge_iff_le,
    Bool.and_eq_true, decide_eq_true_eq, UInt8.reduceToNat]

/-- **Every turn does what the decoder does.** -/
theorem turn {str : List UInt8} {i : ℕ} (hi : i < str.length) : Turn str i := by
  have hstr : str.drop i = str[i] :: str.drop (i + 1) := List.drop_eq_getElem_cons hi
  have hget : str[i]? = some str[i] := List.getElem?_eq_getElem hi
  generalize str[i] = b0 at hstr hget
  have hfirst := firstByte_eq b0
  have hlt := b0.toNat_lt
  by_cases hascii : b0.toNat ≤ 0x7f
  · have hone : decodeOne str i = some (i + 1, [b0.toUInt16]) := by
      rw [decodeOne, hget, Option.bind_some, if_pos]
      rw [UInt8.lt_iff_toNat_lt]
      exact Nat.lt_succ_of_le hascii
    have hdecode : Utf8.decode (str.drop i) = b0.toNat :: Utf8.decode (str.drop (i + 1)) := by
      rw [hstr]
      apply Utf8.decodeFrom_emit
      rw [Utf8.Decoder.feed, if_pos rfl, Utf8.lead, if_pos hascii]
    refine .of_eq hone (Nat.lt_succ_self i) hi ?_ hdecode
    have hunit : b0.toUInt16 = b0.toNat.toUInt16 := by
      apply UInt16.toNat_inj.mp
      rw [UInt8.toNat_toUInt16]
      exact (UInt16.toNat_ofNat_of_lt' (hascii.trans_lt (by decide))).symm
    rw [Utf8.utf16, if_pos (by omega), hunit]
  have hb0 : ¬ b0 < 0x80 := by
    have hbound : (0x80 : UInt8).toNat = 0x80 := rfl
    rw [UInt8.lt_iff_toNat_lt, hbound]
    omega
  by_cases h2 : 0xc2 ≤ b0.toNat ∧ b0.toNat ≤ 0xdf
  · rw [if_pos h2] at hfirst
    have hlead : Utf8.lead b0.toNat = .more { codePoint := b0.toNat % 0x20, needed := 1 } := by
      rw [Utf8.lead, if_neg hascii, if_pos h2]
    apply Turn.of_lead hi hstr hb0 hfirst hlead Nat.one_ne_zero le_rfl le_rfl
    · intro b1 hb1
      rw [prefixInvalid_iff]
      unfold Utf8.isTail at hb1
      omega
    · intro b1 cp hlow hhigh hcp hcp'
      omega
  by_cases h3 : 0xe0 ≤ b0.toNat ∧ b0.toNat ≤ 0xef
  · rw [if_neg h2, if_pos h3] at hfirst
    have hlead : Utf8.lead b0.toNat =
        .more
          { codePoint := b0.toNat % 0x10
            needed := 2
            lower := if b0.toNat = 0xe0 then 0xa0 else 0x80
            upper := if b0.toNat = 0xed then 0x9f else 0xbf } := by
      rw [Utf8.lead, if_neg hascii, if_neg h2, if_pos h3]
    apply Turn.of_lead hi hstr hb0 hfirst hlead two_ne_zero
    · split <;> omega
    · split <;> omega
    · intro b1 hb1
      rw [prefixInvalid_iff]
      unfold Utf8.isTail at hb1
      split_ifs <;> omega
    · intro b1 cp hlow hhigh hcp hcp'
      split_ifs at hlow hhigh <;> omega
  by_cases h4 : 0xf0 ≤ b0.toNat ∧ b0.toNat ≤ 0xf4
  · rw [if_neg h2, if_neg h3, if_pos h4] at hfirst
    have hlead : Utf8.lead b0.toNat =
        .more
          { codePoint := b0.toNat % 8
            needed := 3
            lower := if b0.toNat = 0xf0 then 0x90 else 0x80
            upper := if b0.toNat = 0xf4 then 0x8f else 0xbf } := by
      rw [Utf8.lead, if_neg hascii, if_neg h2, if_neg h3, if_pos h4]
    apply Turn.of_lead hi hstr hb0 hfirst hlead three_ne_zero
    · split <;> omega
    · split <;> omega
    · intro b1 hb1
      rw [prefixInvalid_iff]
      unfold Utf8.isTail at hb1
      split_ifs <;> omega
    · intro b1 cp hlow hhigh hcp hcp'
      split_ifs at hlow hhigh <;> omega
  · -- no character begins so
    rw [if_neg h2, if_neg h3, if_neg h4] at hfirst
    have hone : decodeOne str i = some (i + 1, appendReplacement) := by
      rw [decodeOne, hget, Option.bind_some, if_neg hb0, hfirst]
    have hdecode : Utf8.decode (str.drop i) =
        Utf8.replacement :: Utf8.decode (str.drop (i + 1)) := by
      rw [hstr]
      apply Utf8.decodeFrom_error
      rw [Utf8.Decoder.feed, if_pos rfl, Utf8.lead, if_neg hascii, if_neg h2, if_neg h3, if_neg h4]
    exact .of_eq hone (Nat.lt_succ_self i) hi utf16_replacement hdecode

/-! ## The loop -/

/-- Turns enough for what is left are enough. -/
theorem decodeLoop_eq (str : List UInt8) {turns i : ℕ} (out : List UInt16)
    (h : str.length ≤ i + turns) (hi : i ≤ str.length) :
    decodeLoop str turns i out =
      some (out ++ (Utf8.decode (str.drop i)).flatMap Utf8.utf16) := by
  induction turns generalizing i out with
  | zero =>
    rw [decodeLoop, if_neg (by omega), List.drop_eq_nil_of_le (by omega)]
    simp
  | succ turns ih =>
    rw [decodeLoop]
    by_cases hlt : i < str.length
    · obtain ⟨i', units, hone, hadvance, hle, hunits⟩ := turn hlt
      rw [if_pos hlt, hone, Option.bind_some, ih _ (by omega) hle, List.append_assoc, ← hunits]
    · rw [if_neg hlt, List.drop_eq_nil_of_le (Nat.le_of_not_lt hlt)]
      simp

theorem jsNewStringLenNodeUtf8_eq (str : List UInt8) (extra : ℕ) :
    jsNewStringLenNodeUtf8 (str.length + extra) str =
      some ((Utf8.decode str).flatMap Utf8.utf16) := by
  rw [jsNewStringLenNodeUtf8, decodeLoop_eq str [] (by omega) (Nat.zero_le _)]
  rfl

/-- **UTF-8 decoding equals the standard.** One turn for each byte is enough, and no turn reads
    past the end: the units are those of the decoder's code points, and every turn goes on. Valid
    UTF-8 gives its characters. -/
theorem newString_decodes (str : List UInt8) (extra : ℕ) :
    jsNewStringLenNodeUtf8 (str.length + extra) str =
        some ((Utf8.decode str).flatMap Utf8.utf16) ∧
      (∀ i : Fin str.length, ∃ i' units, decodeOne str i = some (i', units) ∧ i < i' ∧
        i' ≤ str.length) ∧
      ∀ cs : List Char,
        jsNewStringLenNodeUtf8 ((cs.flatMap String.utf8EncodeChar).length + extra)
            (cs.flatMap String.utf8EncodeChar) =
          some (cs.flatMap fun c => Utf8.utf16 c.toNat) := by
  refine ⟨jsNewStringLenNodeUtf8_eq str extra, ?_, ?_⟩
  · rintro ⟨i, hi⟩
    obtain ⟨i', units, hone, hadvance, hle, -⟩ := turn hi
    exact ⟨i', units, hone, hadvance, hle⟩
  · intro cs
    rw [jsNewStringLenNodeUtf8_eq, Utf8.decode_flatMap_utf8EncodeChar, List.flatMap_map]

-- E0 80 is no beginning of a character, F0 90 is; a stray byte follows each.
example : jsNewStringLenNodeUtf8 8 [0x61, 0xe0, 0x80, 0xf0, 0x90, 0xff, 0xc3, 0xa9] =
    some [0x61, 0xfffd, 0xfffd, 0xfffd, 0xfffd, 0xe9] := by
  decide

end WasmerNapi.Quickjs.NodeUtf8
