import Mathlib.Data.List.Basic

/-!
# Base64

The URL-safe alphabet without padding.  `encode` writes three bytes as four digits of six bits;
`decode` reads them back, and refuses foreign characters, a single digit at the end and unused
bits that are not zero.

`decode_encode` : every byte string is read back from its encoding.

A decoder goes in two steps, as here: characters to digits, each less than 64, and four digits to
three bytes.  The proof has the same two steps with the digits between them (`digits`): the encoder
writes a character for each digit, and the digits are read back by arithmetic on the groups.  What
is refused matters as much to the program as what is read, since an address has one text only; the
unused bits are why.
-/

namespace Base64

/-- The digits. -/
def alphabet : List Char :=
  "ABCDEFGHIJKLMNOPQRSTUVWXYZabcdefghijklmnopqrstuvwxyz0123456789-_".toList

/-- The digit of a number below 64. -/
def digit (n : ℕ) : Char := alphabet.getD n 'A'

/-- The number of a digit. -/
def ofDigit (c : Char) : Option ℕ := if c ∈ alphabet then some (alphabet.idxOf c) else none

theorem ofDigit_digit {n : ℕ} (h : n < 64) : ofDigit (digit n) = some n := by
  have hall : ∀ n ∈ List.range 64, ofDigit (digit n) = some n := by decide +kernel
  exact hall n (List.mem_range.2 h)

/-- The digits of a byte string. -/
def encode : List UInt8 → List Char
  | a :: b :: c :: rest =>
    digit (a.toNat / 4) :: digit (a.toNat % 4 * 16 + b.toNat / 16) ::
      digit (b.toNat % 16 * 4 + c.toNat / 64) :: digit (c.toNat % 64) :: encode rest
  | [a, b] =>
    [digit (a.toNat / 4), digit (a.toNat % 4 * 16 + b.toNat / 16), digit (b.toNat % 16 * 4)]
  | [a] => [digit (a.toNat / 4), digit (a.toNat % 4 * 16)]
  | [] => []

/-- The bytes of a list of numbers below 64. -/
def ofDigits : List ℕ → Option (List UInt8)
  | w :: x :: y :: z :: rest => do
    let bs ← ofDigits rest
    return UInt8.ofNat (w * 4 + x / 16) :: UInt8.ofNat (x % 16 * 16 + y / 4) ::
      UInt8.ofNat (y % 4 * 64 + z) :: bs
  | [w, x, y] =>
    if y % 4 = 0 then
      some [UInt8.ofNat (w * 4 + x / 16), UInt8.ofNat (x % 16 * 16 + y / 4)]
    else none
  | [w, x] => if x % 16 = 0 then some [UInt8.ofNat (w * 4 + x / 16)] else none
  | [_] => none
  | [] => some []

/-- The bytes of a text. -/
def decode (cs : List Char) : Option (List UInt8) := cs.mapM ofDigit >>= ofDigits

/-- The numbers of the digits of a byte string. -/
def digits : List UInt8 → List ℕ
  | a :: b :: c :: rest =>
    a.toNat / 4 :: (a.toNat % 4 * 16 + b.toNat / 16) :: (b.toNat % 16 * 4 + c.toNat / 64) ::
      c.toNat % 64 :: digits rest
  | [a, b] => [a.toNat / 4, a.toNat % 4 * 16 + b.toNat / 16, b.toNat % 16 * 4]
  | [a] => [a.toNat / 4, a.toNat % 4 * 16]
  | [] => []

theorem ofNat_eq {n : ℕ} {a : UInt8} (h : n = a.toNat) : UInt8.ofNat n = a := by
  rw [h, UInt8.ofNat_toNat]

theorem ofDigits_digits (bs : List UInt8) : ofDigits (digits bs) = some bs := by
  induction bs using digits.induct with
  | case1 a b c rest ih =>
    have ha := a.toNat_lt
    have hb := b.toNat_lt
    have hc := c.toNat_lt
    simp only [digits, ofDigits, ih, Option.pure_def, Option.bind_eq_bind, Option.bind_some]
    congr 2
    · exact ofNat_eq (by omega)
    congr 1
    · exact ofNat_eq (by omega)
    congr 1
    exact ofNat_eq (by omega)
  | case2 a b =>
    have ha := a.toNat_lt
    have hb := b.toNat_lt
    rw [digits, ofDigits, if_pos (by omega)]
    congr 2
    · exact ofNat_eq (by omega)
    congr 1
    exact ofNat_eq (by omega)
  | case3 a =>
    have ha := a.toNat_lt
    rw [digits, ofDigits, if_pos (by omega)]
    congr 2
    exact ofNat_eq (by omega)
  | case4 => rfl

theorem mapM_ofDigit_encode (bs : List UInt8) : (encode bs).mapM ofDigit = some (digits bs) := by
  induction bs using digits.induct with
  | case1 a b c rest ih =>
    have ha := a.toNat_lt
    have hb := b.toNat_lt
    have hc := c.toNat_lt
    simp only [encode, digits, List.mapM_cons, ih, Option.pure_def, Option.bind_eq_bind,
      ofDigit_digit (show a.toNat / 4 < 64 by omega),
      ofDigit_digit (show a.toNat % 4 * 16 + b.toNat / 16 < 64 by omega),
      ofDigit_digit (show b.toNat % 16 * 4 + c.toNat / 64 < 64 by omega),
      ofDigit_digit (show c.toNat % 64 < 64 by omega), Option.bind_some]
  | case2 a b =>
    have ha := a.toNat_lt
    have hb := b.toNat_lt
    simp only [encode, digits, List.mapM_cons, List.mapM_nil, Option.pure_def, Option.bind_eq_bind,
      ofDigit_digit (show a.toNat / 4 < 64 by omega),
      ofDigit_digit (show a.toNat % 4 * 16 + b.toNat / 16 < 64 by omega),
      ofDigit_digit (show b.toNat % 16 * 4 < 64 by omega), Option.bind_some]
  | case3 a =>
    have ha := a.toNat_lt
    simp only [encode, digits, List.mapM_cons, List.mapM_nil, Option.pure_def, Option.bind_eq_bind,
      ofDigit_digit (show a.toNat / 4 < 64 by omega),
      ofDigit_digit (show a.toNat % 4 * 16 < 64 by omega), Option.bind_some]
  | case4 => rfl

/-- **Byte strings round trip.** -/
theorem decode_encode (bs : List UInt8) : decode (encode bs) = some bs := by
  rw [decode, mapM_ofDigit_encode]
  exact ofDigits_digits bs

end Base64
