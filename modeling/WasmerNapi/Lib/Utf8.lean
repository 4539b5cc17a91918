import Mathlib

/-!
# The UTF-8 decoder

The decoder of the Encoding Standard, byte by byte, with U+FFFD for each error; and UTF-16.

A decoder that looks ahead instead counts how many continuation bytes follow the first byte:
`gather`. `decode_gather` is what the byte-by-byte decoder does there.
-/

namespace Utf8

/-- The decoder between two bytes. `needed`: how many bytes the character still takes. -/
structure Decoder where
  codePoint : ℕ := 0
  needed : ℕ := 0
  lower : ℕ := 0x80
  upper : ℕ := 0xbf

/-- What the decoder makes of a byte. `restore` is an error that puts the byte back. -/
inductive Reply where
  | more (d : Decoder)
  | emit (codePoint : ℕ)
  | error
  | restore

/-- The first byte of a character. -/
def lead (b : ℕ) : Reply :=
  if b ≤ 0x7f then .emit b
  else if 0xc2 ≤ b ∧ b ≤ 0xdf then .more { codePoint := b % 0x20, needed := 1 }
  else if 0xe0 ≤ b ∧ b ≤ 0xef then
    .more
      { codePoint := b % 0x10
        needed := 2
        lower := if b = 0xe0 then 0xa0 else 0x80
        upper := if b = 0xed then 0x9f else 0xbf }
  else if 0xf0 ≤ b ∧ b ≤ 0xf4 then
    .more
      { codePoint := b % 8
        needed := 3
        lower := if b = 0xf0 then 0x90 else 0x80
        upper := if b = 0xf4 then 0x8f else 0xbf }
  else .error

def Decoder.feed (d : Decoder) (b : ℕ) : Reply :=
  if d.needed = 0 then lead b
  else if b < d.lower ∨ d.upper < b then .restore
  else if d.needed = 1 then .emit (d.codePoint * 0x40 + b % 0x40)
  else .more { codePoint := d.codePoint * 0x40 + b % 0x40, needed := d.needed - 1 }

theorem lead_ne_restore (b : ℕ) : lead b ≠ .restore := by
  unfold lead
  split_ifs <;> exact Reply.noConfusion

theorem Decoder.needed_of_restore {d : Decoder} {b : ℕ} (h : d.feed b = .restore) :
    d.needed ≠ 0 := by
  intro hzero
  rw [Decoder.feed, if_pos hzero] at h
  exact lead_ne_restore b h

def replacement : ℕ := 0xfffd

/-- The code points of a byte sequence, the decoder standing at `d`. -/
def decodeFrom (d : Decoder) : List UInt8 → List ℕ
  | [] => if d.needed = 0 then [] else [replacement]
  | b :: bs =>
    match _h : d.feed b.toNat with
    | .more d' => decodeFrom d' bs
    | .emit c => c :: decodeFrom {} bs
    | .error => replacement :: decodeFrom {} bs
    | .restore => replacement :: decodeFrom {} (b :: bs)
termination_by bs => (bs.length, d.needed)
decreasing_by
  · exact Prod.Lex.left _ _ (Nat.lt_succ_self bs.length)
  · exact Prod.Lex.left _ _ (Nat.lt_succ_self bs.length)
  · exact Prod.Lex.left _ _ (Nat.lt_succ_self bs.length)
  · exact Prod.Lex.right _ (Nat.pos_of_ne_zero (Decoder.needed_of_restore ‹_›))

def decode (bs : List UInt8) : List ℕ := decodeFrom {} bs

/-- A code point in UTF-16. -/
def utf16 (c : ℕ) : List UInt16 :=
  if c ≤ 0xffff then [c.toUInt16]
  else [(0xd800 + (c - 0x10000) / 0x400).toUInt16, (0xdc00 + (c - 0x10000) % 0x400).toUInt16]

section

variable {d : Decoder} {b : UInt8} (bs : List UInt8)

@[simp] theorem decodeFrom_nil : decodeFrom d [] = if d.needed = 0 then [] else [replacement] := by
  rw [decodeFrom]

@[simp] theorem decode_nil : decode [] = [] := by
  rw [decode, decodeFrom_nil, if_pos rfl]

theorem decodeFrom_more {d' : Decoder} (h : d.feed b.toNat = .more d') :
    decodeFrom d (b :: bs) = decodeFrom d' bs := by
  rw [decodeFrom]
  split <;> simp_all

theorem decodeFrom_emit {c : ℕ} (h : d.feed b.toNat = .emit c) :
    decodeFrom d (b :: bs) = c :: decode bs := by
  rw [decodeFrom]
  split <;> simp_all [decode]

theorem decodeFrom_error (h : d.feed b.toNat = .error) :
    decodeFrom d (b :: bs) = replacement :: decode bs := by
  rw [decodeFrom]
  split <;> simp_all [decode]

theorem decodeFrom_restore (h : d.feed b.toNat = .restore) :
    decodeFrom d (b :: bs) = replacement :: decode (b :: bs) := by
  rw [decodeFrom]
  split <;> simp_all [decode]

end

/-! ## Looking ahead -/

/-- `10xxxxxx` -/
def isTail (b : UInt8) : Prop := 0x80 ≤ b.toNat ∧ b.toNat ≤ 0xbf

instance (b : UInt8) : Decidable (isTail b) := inferInstanceAs (Decidable (_ ∧ _))

/-- At most `n` continuation bytes from the front: how many there are, and the code point with
    their bits. -/
def gather : ℕ → ℕ → List UInt8 → ℕ × ℕ
  | 0, c, _ => (0, c)
  | _ + 1, c, [] => (0, c)
  | n + 1, c, b :: bs =>
    if isTail b then
      let (k, c') := gather n (c * 0x40 + b.toNat % 0x40) bs
      (k + 1, c')
    else (0, c)

theorem gather_le (n c : ℕ) (bs : List UInt8) : (gather n c bs).1 ≤ n := by
  induction n generalizing c bs with
  | zero => exact le_rfl
  | succ n ih =>
    cases bs with
    | nil => exact Nat.zero_le _
    | cons b bs =>
      rw [gather]
      split
      · exact Nat.succ_le_succ (ih _ bs)
      · exact Nat.zero_le _

theorem gather_le_length (n c : ℕ) (bs : List UInt8) : (gather n c bs).1 ≤ bs.length := by
  induction n generalizing c bs with
  | zero => exact Nat.zero_le _
  | succ n ih =>
    cases bs with
    | nil => exact Nat.zero_le _
    | cons b bs =>
      rw [gather]
      split
      · exact Nat.succ_le_succ (ih _ bs)
      · exact Nat.zero_le _

/-- Each continuation byte adds six bits. -/
theorem gather_bounds {n c : ℕ} {bs : List UInt8} (h : (gather n c bs).1 = n) :
    c * 0x40 ^ n ≤ (gather n c bs).2 ∧ (gather n c bs).2 < (c + 1) * 0x40 ^ n := by
  induction n generalizing c bs with
  | zero => simp [gather]
  | succ n ih =>
    cases bs with
    | nil => exact absurd h (Nat.succ_ne_zero n).symm
    | cons b bs =>
      rw [gather] at h ⊢
      split at h
      next ht =>
        rw [if_pos ht]
        obtain ⟨hlow, hhigh⟩ := ih (Nat.succ_injective h)
        have hbits : b.toNat % 0x40 < 0x40 := Nat.mod_lt _ (by decide)
        constructor
        · calc c * 0x40 ^ (n + 1) = c * 0x40 * 0x40 ^ n := by ring
            _ ≤ (c * 0x40 + b.toNat % 0x40) * 0x40 ^ n := Nat.mul_le_mul_right _ (by omega)
            _ ≤ _ := hlow
        · calc _ < (c * 0x40 + b.toNat % 0x40 + 1) * 0x40 ^ n := hhigh
            _ ≤ (c * 0x40 + 0x40) * 0x40 ^ n := Nat.mul_le_mul_right _ (by omega)
            _ = (c + 1) * 0x40 ^ (n + 1) := by ring
      next => exact absurd h (Nat.succ_ne_zero n).symm

/-- So the first of them bounds the code point. -/
theorem gather_cons_bounds {n c : ℕ} {b : UInt8} {bs : List UInt8}
    (h : (gather (n + 1) c (b :: bs)).1 = n + 1) :
    (c * 0x40 + b.toNat % 0x40) * 0x40 ^ n ≤ (gather (n + 1) c (b :: bs)).2 ∧
      (gather (n + 1) c (b :: bs)).2 < (c * 0x40 + b.toNat % 0x40 + 1) * 0x40 ^ n := by
  rw [gather] at h ⊢
  split at h
  next ht =>
    rw [if_pos ht]
    exact gather_bounds (Nat.succ_injective h)
  next => exact absurd h (Nat.succ_ne_zero n).symm

/-- What comes of a character whose first byte has been read: it is whole, or it breaks off and
    what follows is decoded afresh. -/
theorem decode_gather {n : ℕ} (c : ℕ) (bs : List UInt8) (hn : n ≠ 0) :
    decodeFrom { codePoint := c, needed := n } bs =
      (if (gather n c bs).1 = n then (gather n c bs).2 else replacement) ::
        decode (bs.drop (gather n c bs).1) := by
  induction n generalizing c bs with
  | zero => exact absurd rfl hn
  | succ n ih =>
    cases bs with
    | nil => simp [gather]
    | cons b bs =>
      by_cases ht : isTail b
      · have hin : ¬ (b.toNat < 0x80 ∨ 0xbf < b.toNat) := by
          have hrange := ht
          unfold isTail at hrange
          omega
        rw [gather, if_pos ht]
        by_cases hone : n = 0
        · -- the last byte
          subst hone
          have hfeed : ({ codePoint := c, needed := 1 } : Decoder).feed b.toNat =
              .emit (c * 0x40 + b.toNat % 0x40) := by
            simp [Decoder.feed, hin]
          rw [decodeFrom_emit bs hfeed]
          simp [gather]
        · have hfeed : ({ codePoint := c, needed := n + 1 } : Decoder).feed b.toNat =
              .more { codePoint := c * 0x40 + b.toNat % 0x40, needed := n } := by
            simp [Decoder.feed, hin, hone]
          rw [decodeFrom_more bs hfeed, ih _ bs hone]
          simp
      · have hout : b.toNat < 0x80 ∨ 0xbf < b.toNat := by
          unfold isTail at ht
          omega
        have hfeed : ({ codePoint := c, needed := n + 1 } : Decoder).feed b.toNat = .restore := by
          simp [Decoder.feed, hout]
        rw [decodeFrom_restore bs hfeed, gather, if_neg ht]
        simp

/-- The same where the second byte has bounds of its own. -/
theorem decode_bounded {n lo hi : ℕ} (c : ℕ) (bs : List UInt8) (hn : n ≠ 0) (hlo : 0x80 ≤ lo)
    (hhi : hi ≤ 0xbf) :
    decodeFrom { codePoint := c, needed := n, lower := lo, upper := hi } bs =
      if ∃ b ∈ bs.head?, isTail b ∧ ¬ (lo ≤ b.toNat ∧ b.toNat ≤ hi) then
        replacement :: decode bs
      else decodeFrom { codePoint := c, needed := n } bs := by
  cases bs with
  | nil => simp
  | cons b bs =>
    simp only [List.head?_cons, Option.mem_def, Option.some.injEq, exists_eq_left']
    by_cases hin : lo ≤ b.toNat ∧ b.toNat ≤ hi
    · rw [if_neg (fun h => h.2 hin)]
      have hbounds : ¬ (b.toNat < lo ∨ hi < b.toNat) := by omega
      have hbounds' : ¬ (b.toNat < 0x80 ∨ 0xbf < b.toNat) := by omega
      have hfeed : ({ codePoint := c, needed := n, lower := lo, upper := hi } : Decoder).feed
          b.toNat = ({ codePoint := c, needed := n } : Decoder).feed b.toNat := by
        simp only [Decoder.feed, hn, hbounds, hbounds', if_false]
      cases hreply : ({ codePoint := c, needed := n } : Decoder).feed b.toNat with
      | more d =>
        rw [decodeFrom_more bs (hfeed.trans hreply), decodeFrom_more bs hreply]
      | emit c =>
        rw [decodeFrom_emit bs (hfeed.trans hreply), decodeFrom_emit bs hreply]
      | error =>
        rw [decodeFrom_error bs (hfeed.trans hreply), decodeFrom_error bs hreply]
      | restore =>
        rw [decodeFrom_restore bs (hfeed.trans hreply), decodeFrom_restore bs hreply]
    · have hfeed : ({ codePoint := c, needed := n, lower := lo, upper := hi } : Decoder).feed
          b.toNat = .restore := by
        have hbounds : b.toNat < lo ∨ hi < b.toNat := by omega
        simp [Decoder.feed, hn, hbounds]
      by_cases ht : isTail b
      · rw [if_pos ⟨ht, hin⟩, decodeFrom_restore bs hfeed]
      · have hout : b.toNat < 0x80 ∨ 0xbf < b.toNat := by
          unfold isTail at ht
          omega
        have hfeed' : ({ codePoint := c, needed := n } : Decoder).feed b.toNat = .restore := by
          simp [Decoder.feed, hn, hout]
        rw [if_neg (fun h => ht h.1), decodeFrom_restore bs hfeed, decodeFrom_restore bs hfeed']

/-! ## Valid UTF-8 -/

section

variable {d : Decoder} {n : ℕ} (bs : List UInt8)

theorem toNat_ofNat {n : ℕ} (h : n < 256) : (UInt8.ofNat n).toNat = n :=
  UInt8.toNat_ofNat_of_lt' h

/-- A continuation byte in bounds that is not the last. -/
theorem decodeFrom_tail (hn : n < 256) (hneeded : 1 < d.needed) (hlower : d.lower ≤ n)
    (hupper : n ≤ d.upper) :
    decodeFrom d (UInt8.ofNat n :: bs) =
      decodeFrom { codePoint := d.codePoint * 0x40 + n % 0x40, needed := d.needed - 1 } bs := by
  apply decodeFrom_more
  rw [toNat_ofNat hn, Decoder.feed, if_neg (by omega), if_neg (by omega), if_neg (by omega)]

theorem decodeFrom_last (hn : n < 256) (hneeded : d.needed = 1) (hlower : d.lower ≤ n)
    (hupper : n ≤ d.upper) :
    decodeFrom d (UInt8.ofNat n :: bs) = (d.codePoint * 0x40 + n % 0x40) :: decode bs := by
  apply decodeFrom_emit
  rw [toNat_ofNat hn, Decoder.feed, if_neg (by omega), if_neg (by omega), if_pos hneeded]

theorem decode_lead {d' : Decoder} (hn : n < 256) (h : lead n = .more d') :
    decode (UInt8.ofNat n :: bs) = decodeFrom d' bs := by
  apply decodeFrom_more
  rw [toNat_ofNat hn, Decoder.feed, if_pos rfl, h]

/-- A character's UTF-8 decodes to it, whatever follows. -/
theorem decode_utf8EncodeChar_append (c : Char) :
    decode (String.utf8EncodeChar c ++ bs) = c.toNat :: decode bs := by
  have hvalid : c.toNat < 0xd800 ∨ 0xdfff < c.toNat ∧ c.toNat < 0x110000 := c.valid
  have hval : c.val.toNat = c.toNat := rfl
  rw [String.utf8EncodeChar]
  simp only [hval]
  generalize c.toNat = v at hvalid
  split_ifs with h1 h2 h3
  · -- one byte
    apply decodeFrom_emit
    rw [toNat_ofNat (by omega), Decoder.feed, if_pos rfl, lead, if_pos h1]
  · have hlead : lead (v / 64 % 0x20 + 0xc0) =
        .more { codePoint := (v / 64 % 0x20 + 0xc0) % 0x20, needed := 1 } := by
      rw [lead, if_neg (by omega), if_pos (by omega)]
    simp only [List.cons_append, List.nil_append]
    rw [decode_lead _ (by omega) hlead,
      decodeFrom_last bs (by omega) rfl (by dsimp only; omega) (by dsimp only; omega)]
    dsimp only
    congr 1
    omega
  · have hlead : lead (v / 4096 % 0x10 + 0xe0) =
        .more
          { codePoint := (v / 4096 % 0x10 + 0xe0) % 0x10
            needed := 2
            lower := if v / 4096 % 0x10 + 0xe0 = 0xe0 then 0xa0 else 0x80
            upper := if v / 4096 % 0x10 + 0xe0 = 0xed then 0x9f else 0xbf } := by
      rw [lead, if_neg (by omega), if_neg (by omega), if_pos (by omega)]
    simp only [List.cons_append, List.nil_append]
    rw [decode_lead _ (by omega) hlead,
      decodeFrom_tail _ (by omega) (by dsimp only; omega) (by dsimp only; split <;> omega)
        (by dsimp only; split <;> omega),
      decodeFrom_last bs (by omega) rfl (by dsimp only; omega) (by dsimp only; omega)]
    dsimp only
    congr 1
    omega
  · have hlead : lead (v / 262144 % 0x08 + 0xf0) =
        .more
          { codePoint := (v / 262144 % 0x08 + 0xf0) % 8
            needed := 3
            lower := if v / 262144 % 0x08 + 0xf0 = 0xf0 then 0x90 else 0x80
            upper := if v / 262144 % 0x08 + 0xf0 = 0xf4 then 0x8f else 0xbf } := by
      rw [lead, if_neg (by omega), if_neg (by omega), if_neg (by omega), if_pos (by omega)]
    simp only [List.cons_append, List.nil_append]
    rw [decode_lead _ (by omega) hlead,
      decodeFrom_tail _ (by omega) (by dsimp only; omega) (by dsimp only; split <;> omega)
        (by dsimp only; split <;> omega),
      decodeFrom_tail _ (by omega) (by dsimp only; omega) (by dsimp only; omega)
        (by dsimp only; omega),
      decodeFrom_last bs (by omega) rfl (by dsimp only; omega) (by dsimp only; omega)]
    dsimp only
    congr 1
    omega

end

/-- **Valid UTF-8 decodes to its characters.** -/
theorem decode_flatMap_utf8EncodeChar (cs : List Char) :
    decode (cs.flatMap String.utf8EncodeChar) = cs.map Char.toNat := by
  induction cs with
  | nil => exact decode_nil
  | cons c cs ih => rw [List.flatMap_cons, decode_utf8EncodeChar_append, ih, List.map_cons]

end Utf8
