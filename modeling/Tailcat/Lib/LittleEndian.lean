import Mathlib.Algebra.Group.Nat.Defs
import Mathlib.Data.List.Basic

/-!
# Little-endian integers

An integer as a number of bytes, the lowest first.

* `ofBytes_toBytes`, `toBytes_ofBytes` : the two directions are inverse to each other.

The width is a parameter: `toBytes w n` writes the last `w` bytes of `n`, and a larger number is
cut, as a cast to a machine integer cuts it.  So a reader gets back what was written whenever the
number fits (`n < 2 ^ (8 * w)`), and every byte string is the encoding of the number it stands for.
Both directions are by induction on the bytes, one division by 256 a step.
-/

namespace LittleEndian

/-- The bytes of an integer, the lowest first; higher ones are dropped. -/
def toBytes : ℕ → ℕ → List UInt8
  | 0, _ => []
  | w + 1, n => UInt8.ofNat n :: toBytes w (n / 2 ^ 8)

/-- The integer of some bytes. -/
def ofBytes : List UInt8 → ℕ
  | [] => 0
  | b :: bs => b.toNat + 2 ^ 8 * ofBytes bs

@[simp] theorem length_toBytes (w n : ℕ) : (toBytes w n).length = w := by
  induction w generalizing n with
  | zero => rfl
  | succ w ih => rw [toBytes, List.length_cons, ih]

/-- What is written in enough bytes is read back. -/
theorem ofBytes_toBytes {w n : ℕ} (h : n < 2 ^ (8 * w)) : ofBytes (toBytes w n) = n := by
  induction w generalizing n with
  | zero =>
    have : n = 0 := by simpa using h
    rw [toBytes, ofBytes, this]
  | succ w ih =>
    have hpow : 2 ^ (8 * (w + 1)) = 2 ^ (8 * w) * 2 ^ 8 := by rw [← Nat.pow_add, Nat.mul_add]
    have hdiv : n / 2 ^ 8 < 2 ^ (8 * w) := by
      rw [Nat.div_lt_iff_lt_mul (by decide), ← hpow]
      exact h
    rw [toBytes, ofBytes, ih hdiv, UInt8.toNat_ofNat']
    omega

theorem ofBytes_lt (bs : List UInt8) : ofBytes bs < 2 ^ (8 * bs.length) := by
  induction bs with
  | nil => decide
  | cons b bs ih =>
    have hpow : 2 ^ (8 * (bs.length + 1)) = 2 ^ (8 * bs.length) * 2 ^ 8 := by
      rw [← Nat.pow_add, Nat.mul_add]
    have hb := b.toNat_lt
    rw [ofBytes, List.length_cons, hpow]
    omega

/-- What is read is written back. -/
theorem toBytes_ofBytes (bs : List UInt8) : toBytes bs.length (ofBytes bs) = bs := by
  induction bs with
  | nil => rfl
  | cons b bs ih =>
    have hb := b.toNat_lt
    have hlow : UInt8.ofNat (b.toNat + 2 ^ 8 * ofBytes bs) = b := by
      apply UInt8.toNat.inj
      rw [UInt8.toNat_ofNat']
      omega
    have hhigh : (b.toNat + 2 ^ 8 * ofBytes bs) / 2 ^ 8 = ofBytes bs := by omega
    rw [List.length_cons, ofBytes, toBytes, hlow, hhigh, ih]

end LittleEndian
