import Mathlib.Algebra.Group.Int.Defs
import Mathlib.Algebra.Group.Nat.Defs
import Mathlib.Data.List.Basic

/-!
# Byte strings and big-endian integers

Network formats of the program are sequences of bytes with big-endian integers.  `beBytes16` and
`beBytes32` are `to_be_bytes` of `u16` and `u32` (a larger number is truncated, as `as u16` and
`as u32` do), `ofBeBytes16` and `ofBeBytes32` are `from_be_bytes`.

A reader and a writer of the same width are inverse to each other for numbers that fit.  The
definitions are written out byte by byte, which keeps them small enough to be evaluated in examples;
a format with other widths uses `Lib.LittleEndian` or a definition of its own.
-/

namespace Tailcat

/-- A byte string. -/
abbrev Bytes := List UInt8

/-- The bytes of an ASCII literal. -/
def ascii (s : String) : Bytes := s.toList.map fun c => UInt8.ofNat c.toNat

/-- `to_be_bytes` of a `u16`. -/
def beBytes16 (n : ℕ) : Bytes := [UInt8.ofNat (n / 2 ^ 8), UInt8.ofNat n]

/-- `to_be_bytes` of a `u32`. -/
def beBytes32 (n : ℕ) : Bytes :=
  [UInt8.ofNat (n / 2 ^ 24), UInt8.ofNat (n / 2 ^ 16), UInt8.ofNat (n / 2 ^ 8), UInt8.ofNat n]

/-- `u16::from_be_bytes`. -/
def ofBeBytes16 (a b : UInt8) : ℕ := a.toNat * 2 ^ 8 + b.toNat

/-- `u32::from_be_bytes`. -/
def ofBeBytes32 (a b c d : UInt8) : ℕ :=
  a.toNat * 2 ^ 24 + b.toNat * 2 ^ 16 + c.toNat * 2 ^ 8 + d.toNat

@[simp] theorem length_beBytes16 (n : ℕ) : (beBytes16 n).length = 2 := rfl

@[simp] theorem length_beBytes32 (n : ℕ) : (beBytes32 n).length = 4 := rfl

theorem ofBeBytes16_beBytes16 {n : ℕ} (h : n < 2 ^ 16) :
    ofBeBytes16 (UInt8.ofNat (n / 2 ^ 8)) (UInt8.ofNat n) = n := by
  simp only [ofBeBytes16, UInt8.toNat_ofNat']
  omega

theorem ofBeBytes32_beBytes32 {n : ℕ} (h : n < 2 ^ 32) :
    ofBeBytes32 (UInt8.ofNat (n / 2 ^ 24)) (UInt8.ofNat (n / 2 ^ 16)) (UInt8.ofNat (n / 2 ^ 8))
      (UInt8.ofNat n) = n := by
  simp only [ofBeBytes32, UInt8.toNat_ofNat']
  omega

theorem ofBeBytes32_lt (a b c d : UInt8) : ofBeBytes32 a b c d < 2 ^ 32 := by
  have ha := a.toNat_lt
  have hb := b.toNat_lt
  have hc := c.toNat_lt
  have hd := d.toNat_lt
  simp only [ofBeBytes32]
  omega

end Tailcat
