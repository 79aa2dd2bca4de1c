import Mathlib.Data.List.Basic
import Mathlib.Tactic.Ring

/-!
# Numbers as little-endian bytes

A number is written as a fixed count of bytes, the lowest first.
-/

namespace LittleEndian

/-- The last `width` bytes of a number, the lowest first. -/
def bytes (width n : ℕ) : List UInt8 :=
  (List.range width).map fun i => UInt8.ofNat (n / 256 ^ i % 256)

def value : List UInt8 → ℕ
  | [] => 0
  | b :: bs => b.toNat + 256 * value bs

lemma value_append (xs ys : List UInt8) :
    value (xs ++ ys) = value xs + 256 ^ xs.length * value ys := by
  induction xs with
  | nil => simp [value]
  | cons b xs ih =>
    rw [List.cons_append, value, ih, value, List.length_cons, pow_succ]
    ring

lemma value_lt (bs : List UInt8) : value bs < 256 ^ bs.length := by
  induction bs with
  | nil => simp [value]
  | cons b bs ih =>
    have hb := b.toNat_lt
    rw [value, List.length_cons, pow_succ]
    omega

@[simp] lemma length_bytes (width n : ℕ) : (bytes width n).length = width := by
  simp [bytes]

lemma value_bytes (width n : ℕ) : value (bytes width n) = n % 256 ^ width := by
  induction width with
  | zero => simp [bytes, value, Nat.mod_one]
  | succ width ih =>
    have hsucc : bytes (width + 1) n = bytes width n ++ [UInt8.ofNat (n / 256 ^ width % 256)] := by
      simp [bytes, List.range_succ]
    rw [hsucc, value_append, ih, length_bytes, pow_succ, Nat.mod_mul]
    simp [value]

lemma value_bytes_of_lt {width n : ℕ} (h : n < 256 ^ width) : value (bytes width n) = n := by
  rw [value_bytes, Nat.mod_eq_of_lt h]

end LittleEndian
