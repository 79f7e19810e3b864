import Mathlib.Algebra.Group.Nat.Defs
import Mathlib.Data.List.Basic

/-!
# The Internet checksum

The sum of the 16-bit words of a byte string, with the carries added back in (`data`), and sums of
such sums (`combine`).  A checksum is the complement of a sum: with it among the words, the sum is
all ones.

`combine_complement` : the sum with its complement added is all ones, if anything was added at all.

Adding the carries back in keeps the value modulo `2 ^ 16 - 1`, and a sum that is not zero never
becomes zero by it; these two facts characterise the result (`propagateCarries_eq`), and no proof
needs to look at carries again.  A checksum of zero would mean that none was computed, so the
complement writes all ones instead; the sum is the same.
-/

namespace InternetChecksum

/-- Add the carries of a 32-bit sum back in, until 16 bits are left. -/
def propagateCarries (n : ℕ) : ℕ :=
  let sum := n / 2 ^ 16 + n % 2 ^ 16
  sum / 2 ^ 16 + sum % 2 ^ 16

/-- The sum of the words of a byte string; an odd last byte is the high one of its word. -/
def total : List UInt8 → ℕ
  | a :: b :: rest => a.toNat * 2 ^ 8 + b.toNat + total rest
  | [a] => a.toNat * 2 ^ 8
  | [] => 0

/-- The sum of a byte string in 16 bits. -/
def data (b : List UInt8) : ℕ := propagateCarries (total b)

/-- The sum of several sums in 16 bits. -/
def combine (sums : List ℕ) : ℕ := propagateCarries (sums.foldl (· + ·) 0)

/-- All ones, the sum that verifies. -/
def allOnes : ℕ := 2 ^ 16 - 1

/-- The checksum of a sum: its complement, all ones instead of zero. -/
def complement (sum : ℕ) : ℕ := if allOnes - sum = 0 then allOnes else allOnes - sum

theorem propagateCarries_mod (n : ℕ) : propagateCarries n % allOnes = n % allOnes := by
  simp only [propagateCarries, allOnes]
  omega

theorem propagateCarries_le {n : ℕ} (h : n < 2 ^ 32) : propagateCarries n ≤ allOnes := by
  simp only [propagateCarries, allOnes]
  omega

theorem propagateCarries_pos {n : ℕ} (h : 0 < n) : 0 < propagateCarries n := by
  simp only [propagateCarries]
  omega

/-- A sum that is a multiple of all ones is all ones, unless it is zero. -/
theorem propagateCarries_eq {n : ℕ} (hpos : 0 < n) (hlt : n < 2 ^ 32) (hmod : n % allOnes = 0) :
    propagateCarries n = allOnes := by
  have hmod' := propagateCarries_mod n
  have hle := propagateCarries_le hlt
  have hpos' := propagateCarries_pos hpos
  simp only [allOnes] at *
  omega

theorem total_le (b : List UInt8) : total b ≤ allOnes * ((b.length + 1) / 2) := by
  induction b using total.induct with
  | case1 x y rest ih =>
    have hx := x.toNat_lt
    have hy := y.toNat_lt
    simp only [total, allOnes, List.length_cons] at *
    omega
  | case2 x =>
    have hx := x.toNat_lt
    simp only [total, allOnes, List.length_singleton]
    omega
  | case3 => exact Nat.zero_le _

theorem complement_pos (sum : ℕ) : 0 < complement sum := by
  unfold complement
  split_ifs with h
  · decide
  · exact Nat.pos_of_ne_zero h

theorem complement_le (sum : ℕ) : complement sum ≤ allOnes := by
  unfold complement
  split_ifs
  · exact Nat.le_refl _
  · exact Nat.sub_le _ _

theorem add_complement_mod {sum : ℕ} (h : sum ≤ allOnes) :
    (sum + complement sum) % allOnes = 0 := by
  unfold complement
  split_ifs with hfull
  · rw [show sum = allOnes by omega]
    rfl
  · rw [show sum + (allOnes - sum) = allOnes by omega]
    rfl

/-- **Checksums verify.**  The sum of a header and of data is all ones if the complement of the sum
without it is among the data. -/
theorem combine_complement {pseudo t : ℕ} (hpseudo : pseudo ≤ allOnes) (ht : t < 2 ^ 31) :
    combine [pseudo, propagateCarries (t + complement (combine [pseudo, propagateCarries t]))] =
      allOnes := by
  have hsum := propagateCarries_mod (pseudo + propagateCarries t)
  have ht' := propagateCarries_mod t
  have htle := propagateCarries_le (show t < 2 ^ 32 by omega)
  have hle : propagateCarries (pseudo + propagateCarries t) ≤ allOnes :=
    propagateCarries_le (by simp only [allOnes] at *; omega)
  simp only [combine, List.foldl_cons, List.foldl_nil, Nat.zero_add]
  generalize propagateCarries (pseudo + propagateCarries t) = sum at hsum hle ⊢
  have hcpos := complement_pos sum
  have hcle := complement_le sum
  have hc := add_complement_mod hle
  generalize complement sum = c at hcpos hcle hc ⊢
  have hfull := propagateCarries_mod (t + c)
  have hfullle := propagateCarries_le (show t + c < 2 ^ 32 by simp only [allOnes] at *; omega)
  have hfullpos := propagateCarries_pos (show 0 < t + c by omega)
  refine propagateCarries_eq (by omega) (by simp only [allOnes] at *; omega) ?_
  simp only [allOnes] at *
  omega

end InternetChecksum
