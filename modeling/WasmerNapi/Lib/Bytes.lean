import Mathlib

/-!
# Little-endian numbers

A number in `n` bytes, least significant first, and back. The two are inverse to each other on
numbers below `256 ^ n` and lists of length `n`; both directions matter, the first to read what
was written and the second to know that a reader that accepts saw what a writer writes.

A program that shifts and masks is brought here by `ofLe_shift`: or-ing in one more byte above the
ones there are is one more digit.
-/

namespace Bytes

/-- `v` in `n` bytes. -/
def le : ℕ → ℕ → List UInt8
  | 0, _ => []
  | n + 1, v => UInt8.ofNat v :: le n (v / 256)

def ofLe : List UInt8 → ℕ
  | [] => 0
  | b :: bs => b.toNat + 256 * ofLe bs

@[simp] theorem length_le (n v : ℕ) : (le n v).length = n := by
  induction n generalizing v with
  | zero => rfl
  | succ n ih => simp [le, ih]

theorem ofLe_lt (bs : List UInt8) : ofLe bs < 256 ^ bs.length := by
  induction bs with
  | nil => simp [ofLe]
  | cons b bs ih =>
    have hb : b.toNat < 256 := b.toNat_lt
    rw [ofLe, List.length_cons, pow_succ]
    omega

/-- What was written is what is read. -/
theorem ofLe_le {n v : ℕ} (h : v < 256 ^ n) : ofLe (le n v) = v := by
  induction n generalizing v with
  | zero =>
    rw [pow_zero] at h
    simp [le, ofLe]
    omega
  | succ n ih =>
    rw [pow_succ] at h
    rw [le, ofLe, ih (by omega), UInt8.toNat_ofNat']
    omega

/-- What is read is what would have been written. -/
theorem le_ofLe (bs : List UInt8) : le bs.length (ofLe bs) = bs := by
  induction bs with
  | nil => rfl
  | cons b bs ih =>
    have hb : b.toNat < 256 := b.toNat_lt
    have hdiv : (b.toNat + 256 * ofLe bs) / 256 = ofLe bs := by omega
    rw [ofLe, List.length_cons, le, hdiv, ih]
    congr 1
    apply UInt8.toNat_inj.mp
    rw [UInt8.toNat_ofNat']
    omega

theorem ofLe_append (bs : List UInt8) (b : UInt8) :
    ofLe (bs ++ [b]) = ofLe bs + 256 ^ bs.length * b.toNat := by
  induction bs with
  | nil => simp [ofLe]
  | cons c bs ih =>
    rw [List.cons_append, ofLe, ih, ofLe, List.length_cons, pow_succ]
    ring

/-- One more byte, or-ed in above the others. -/
theorem ofLe_shift (bs : List UInt8) (b : UInt8) :
    ofLe (bs ++ [b]) = ofLe bs ||| (b.toNat <<< (8 * bs.length)) := by
  have hlt : ofLe bs < 2 ^ (8 * bs.length) := by
    rw [pow_mul]
    exact ofLe_lt bs
  rw [Nat.lor_comm, ← Nat.shiftLeft_add_eq_or_of_lt hlt, ofLe_append, Nat.shiftLeft_eq, pow_mul]
  ring

/-- Byte by byte, a number is written by shifting. -/
theorem le_eq_map (n v : ℕ) : le n v = (List.range n).map fun i => UInt8.ofNat (v >>> (8 * i)) := by
  induction n generalizing v with
  | zero => rfl
  | succ n ih =>
    rw [le, ih, List.range_succ_eq_map, List.map_cons, List.map_map]
    congr 1
    refine List.map_congr_left ?_
    intro i _
    show UInt8.ofNat ((v / 256) >>> (8 * i)) = UInt8.ofNat (v >>> (8 * (i + 1)))
    rw [show (256 : ℕ) = 2 ^ 8 from rfl, ← Nat.shiftRight_eq_div_pow, ← Nat.shiftRight_add]
    congr 2
    omega

/-! ## A store into a memory -/

/-- `data` over what is at `ptr`. -/
def put (mem : List UInt8) (ptr : ℕ) (data : List UInt8) : List UInt8 :=
  mem.take ptr ++ data ++ mem.drop (ptr + data.length)

theorem length_put {mem : List UInt8} {ptr : ℕ} {data : List UInt8}
    (h : ptr + data.length ≤ mem.length) : (put mem ptr data).length = mem.length := by
  rw [put, List.length_append, List.length_append, List.length_take, List.length_drop]
  omega

theorem put_nil (mem : List UInt8) (ptr : ℕ) : put mem ptr [] = mem := by
  simp [put]

theorem put_put {mem : List UInt8} {ptr : ℕ} (h : ptr ≤ mem.length) (a b : List UInt8) :
    put (put mem ptr a) (ptr + a.length) b = put mem ptr (a ++ b) := by
  have hlen : (mem.take ptr ++ a).length = ptr + a.length := by
    rw [List.length_append, List.length_take, min_eq_left h]
  unfold put
  rw [List.take_append_of_le_length (by omega), List.take_of_length_le (by omega),
    List.drop_append, List.drop_eq_nil_of_le (by omega), hlen, List.nil_append, List.drop_drop,
    List.length_append, List.append_assoc (mem.take ptr)]
  congr 2
  omega

theorem length_put_of_le {mem : List UInt8} {ptr : ℕ} (h : ptr ≤ mem.length) (a : List UInt8) :
    ptr + a.length ≤ (put mem ptr a).length := by
  simp [put]
  omega

end Bytes
