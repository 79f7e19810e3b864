import Tailcat.Bytes

/-!
# Type-length-value attributes

An attribute is a 16-bit type, a 16-bit length, that many bytes, and what pads them to a multiple of
four.  `findAttribute` looks for the first attribute with something of interest in it; it does not
look at what comes after, and gives up at an attribute that is cut off.

* `findAttribute_flatMap` : in the encoding of attributes, it finds what the attributes have.
-/

namespace Tlv

open Tailcat

/-- A length with its padding. -/
def padded (size : ℕ) : ℕ := (size + 3) / 4 * 4

theorem le_padded (size : ℕ) : size ≤ padded size := by
  unfold padded
  omega

/-- An attribute, with its padding. -/
structure Attribute where
  kind : UInt16
  value : Bytes
  padding : Bytes
  /-- The length is a 16-bit number. -/
  size_lt : value.length < 2 ^ 16
  aligned : value.length + padding.length = padded value.length

/-- The bytes of an attribute. -/
def Attribute.bytes (a : Attribute) : Bytes :=
  beBytes16 a.kind.toNat ++ beBytes16 a.value.length ++ a.value ++ a.padding

variable {α : Type*} (p : ℕ → Bytes → Option α)

/-- What `p` makes of the first attribute it makes something of. -/
def findAttribute : Bytes → Option α
  | k₀ :: k₁ :: s₀ :: s₁ :: rest =>
    let size := ofBeBytes16 s₀ s₁
    if rest.length < size then none
    else
      match p (ofBeBytes16 k₀ k₁) (rest.take size) with
      | some x => some x
      | none => findAttribute (rest.drop (padded size))
  | _ => none
termination_by b => b.length
decreasing_by
  simp only [List.length_drop, List.length_cons]
  omega

/-- Less than the head of an attribute is no attribute. -/
theorem findAttribute_of_short {b : Bytes} (h : b.length < 4) : findAttribute p b = none := by
  rcases b with _ | ⟨k₀, _ | ⟨k₁, _ | ⟨s₀, _ | ⟨s₁, b⟩⟩⟩⟩
  · simp [findAttribute]
  · simp [findAttribute]
  · simp [findAttribute]
  · simp [findAttribute]
  · simp only [List.length_cons] at h
    omega

theorem findAttribute_bytes (a : Attribute) (rest : Bytes) :
    findAttribute p (a.bytes ++ rest) =
      (p a.kind.toNat a.value).or (findAttribute p rest) := by
  have hkind := a.kind.toNat_lt
  have hsize := a.size_lt
  have hdrop : (a.value ++ (a.padding ++ rest)).drop (padded a.value.length) = rest := by
    rw [← a.aligned, ← List.append_assoc, ← List.length_append, List.drop_left]
  have htake : (a.value ++ (a.padding ++ rest)).take a.value.length = a.value := List.take_left
  simp only [Attribute.bytes, beBytes16, List.append_assoc, List.cons_append, List.nil_append]
  rw [findAttribute, ofBeBytes16_beBytes16 hkind, ofBeBytes16_beBytes16 hsize, if_neg (by simp),
    htake, hdrop]
  cases p a.kind.toNat a.value <;> rfl

/-- **In the encoding of attributes the first one of interest is found.** -/
theorem findAttribute_flatMap (as : List Attribute) {rest : Bytes} (h : rest.length < 4) :
    findAttribute p (as.flatMap Attribute.bytes ++ rest) =
      as.findSome? fun a => p a.kind.toNat a.value := by
  induction as with
  | nil => exact findAttribute_of_short p h
  | cons a as ih =>
    rw [List.flatMap_cons, List.append_assoc, findAttribute_bytes, ih, List.findSome?_cons]
    cases p a.kind.toNat a.value <;> rfl

end Tlv
