import Mathlib.Algebra.Group.Nat.Defs
import Mathlib.Data.List.Basic

/-!
# Hexadecimal

`encode` writes a byte string with two lower-case digits a byte; `decode` reads digits of either
case back, and refuses foreign characters and an odd number of digits.

`decode_encode` : every byte string is read back from its encoding.

The other direction does not hold, since a reader takes upper-case digits that a writer does not
write; that a reader refuses the rest is by definition.  The proof looks at one byte: its two digits
are those of the quotient and the remainder by 16, and each is read back (`ofDigit_digitChar`).
-/

namespace Hex

/-- The number of a digit. -/
def ofDigit (c : Char) : Option ℕ :=
  if '0' ≤ c ∧ c ≤ '9' then some (c.toNat - 48)
  else if 'a' ≤ c ∧ c ≤ 'f' then some (c.toNat - 87)
  else if 'A' ≤ c ∧ c ≤ 'F' then some (c.toNat - 55)
  else none

theorem ofDigit_digitChar {n : ℕ} (h : n < 16) : ofDigit (Nat.digitChar n) = some n := by
  have hall : ∀ n ∈ List.range 16, ofDigit (Nat.digitChar n) = some n := by decide
  exact hall n (List.mem_range.2 h)

/-- The digits of a byte. -/
def digits (b : UInt8) : List Char :=
  [Nat.digitChar (b.toNat / 16), Nat.digitChar (b.toNat % 16)]

/-- The text of a byte string. -/
def encode (bs : List UInt8) : String := String.ofList (bs.flatMap digits)

/-- The bytes of a list of digits. -/
def ofDigits : List Char → Option (List UInt8)
  | [] => some []
  | [_] => none
  | c :: d :: rest => do
    let high ← ofDigit c
    let low ← ofDigit d
    let bs ← ofDigits rest
    return UInt8.ofNat (high * 16 + low) :: bs

/-- The bytes of a text. -/
def decode (s : String) : Option (List UInt8) := ofDigits s.toList

theorem ofDigits_flatMap (bs : List UInt8) : ofDigits (bs.flatMap digits) = some bs := by
  induction bs with
  | nil => rfl
  | cons b bs ih =>
    have hb := b.toNat_lt
    have hhigh := ofDigit_digitChar (show b.toNat / 16 < 16 by omega)
    have hlow := ofDigit_digitChar (show b.toNat % 16 < 16 by omega)
    have hbyte : b.toNat / 16 * 16 + b.toNat % 16 = b.toNat := by omega
    simp only [List.flatMap_cons, digits, List.cons_append, List.nil_append, ofDigits, hhigh, hlow,
      ih, hbyte, UInt8.ofNat_toNat, Option.pure_def, Option.bind_eq_bind, Option.bind_some]

/-- **Byte strings round trip.** -/
theorem decode_encode (bs : List UInt8) : decode (encode bs) = some bs := by
  rw [decode, encode, String.toList_ofList, ofDigits_flatMap]

end Hex
