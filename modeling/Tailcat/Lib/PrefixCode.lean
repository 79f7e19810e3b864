import Mathlib.Data.List.Basic

/-!
# Codes without prefixes

A text is encoded by writing a word for each of its symbols.  Where no word begins another, and
none is empty, two texts with one encoding are the same (`PrefixCode.encode_injective`).

The condition is a field of the structure, so that a code cannot be built without it.  Decoding is
not defined: injectivity is all that a program needs which uses encodings as names, where nothing is
ever read back.  The proof takes the two texts apart together.  At the front stand two words of
which one begins the other, since both begin the same list; so they are the same word, and the rests
have one encoding again.
-/

/-- Words for symbols, of which none begins another. -/
structure PrefixCode (α β : Type*) where
  /-- The word of a symbol. -/
  word : α → List β
  word_ne_nil : ∀ a, word a ≠ []
  /-- A word that begins another is that word. -/
  eq_of_prefix : ∀ {a b}, word a <+: word b → a = b

namespace PrefixCode

variable {α β : Type*} (code : PrefixCode α β)

/-- The words of a text, one after the other. -/
def encode (text : List α) : List β := text.flatMap code.word

theorem encode_cons (a : α) (text : List α) :
    code.encode (a :: text) = code.word a ++ code.encode text := List.flatMap_cons

/-- The first symbol of a text can be read off. -/
theorem eq_of_append_eq {a b : α} {rest rest' : List β}
    (h : code.word a ++ rest = code.word b ++ rest') : a = b := by
  rcases Nat.le_total (code.word a).length (code.word b).length with hle | hle
  · exact code.eq_of_prefix (List.prefix_of_prefix_length_le ⟨rest, h⟩ ⟨rest', rfl⟩ hle)
  · exact (code.eq_of_prefix (List.prefix_of_prefix_length_le ⟨rest', h.symm⟩ ⟨rest, rfl⟩ hle)).symm

/-- **A text can be read off its encoding.** -/
theorem encode_injective : Function.Injective code.encode := by
  intro text
  induction text with
  | nil =>
    intro text' h
    cases text' with
    | nil => rfl
    | cons b text' =>
      rw [encode_cons] at h
      exact absurd (List.append_eq_nil_iff.1 h.symm).1 (code.word_ne_nil b)
  | cons a text ih =>
    intro text' h
    cases text' with
    | nil =>
      rw [encode_cons] at h
      exact absurd (List.append_eq_nil_iff.1 h).1 (code.word_ne_nil a)
    | cons b text' =>
      rw [encode_cons, encode_cons] at h
      obtain rfl := code.eq_of_append_eq h
      rw [ih (List.append_cancel_left h)]

end PrefixCode
