import Mathlib.Data.List.Nodup
import Mathlib.Data.List.Perm.Basic

/-!
# Vectors

`Vec::swap_remove` takes an element out by letting the last one take its place.

* `swapRemove_perm` : the other elements stay, in some order.
* `getElem?_swapRemove_lt` : those before the removed one stay where they are.

The order of the elements is the only thing that changes, and only behind the removed one.  A loop
that goes over a vector from the end and removes as it goes can therefore rely on the elements it
has not reached yet.  The general lemma is `swapRemove_concat`, in which the last element is named;
everything else follows by splitting a list that is not empty at its end.
-/

namespace Tailcat

variable {α : Type*}

/-- `Vec::swap_remove`: the last element takes the place of the removed one. -/
def swapRemove (l : List α) (index : ℕ) : List α :=
  match l.getLast? with
  | some last => if index + 1 < l.length then (l.set index last).dropLast else l.dropLast
  | none => l

theorem swapRemove_concat (l : List α) (last : α) (index : ℕ) :
    swapRemove (l ++ [last]) index = l.set index last := by
  simp only [swapRemove, List.getLast?_append, List.getLast?_singleton, Option.some_or,
    List.length_append, List.length_singleton, Nat.add_lt_add_iff_right]
  split_ifs with h
  · rw [List.set_append_left _ _ h, List.dropLast_concat]
  · rw [List.dropLast_concat, List.set_eq_of_length_le (by omega)]

theorem swapRemove_perm {l : List α} {index : ℕ} (h : index < l.length) :
    (swapRemove l index).Perm (l.eraseIdx index) := by
  obtain rfl | ⟨l, last, rfl⟩ := List.eq_nil_or_concat' l
  · simp at h
  rw [swapRemove_concat]
  by_cases hi : index < l.length
  · rw [List.eraseIdx_append_of_lt_length hi]
    exact (List.set_perm_cons_eraseIdx hi last).trans (List.perm_append_singleton _ _).symm
  · simp only [List.length_append, List.length_singleton] at h
    obtain rfl : index = l.length := by omega
    rw [List.set_eq_of_length_le (Nat.le_refl _), List.eraseIdx_append_of_length_le (Nat.le_refl _)]
    simp

theorem getElem?_swapRemove_lt {l : List α} {index i : ℕ} (h : index < l.length) (hi : i < index) :
    (swapRemove l index)[i]? = l[i]? := by
  obtain rfl | ⟨l, last, rfl⟩ := List.eq_nil_or_concat' l
  · simp at h
  simp only [List.length_append, List.length_singleton] at h
  rw [swapRemove_concat, List.getElem?_set_ne (by omega), List.getElem?_append_left (by omega)]

theorem mem_of_mem_swapRemove {l : List α} {index : ℕ} (h : index < l.length) {x : α}
    (hx : x ∈ swapRemove l index) : x ∈ l :=
  (List.eraseIdx_sublist l index).subset ((swapRemove_perm h).mem_iff.1 hx)

end Tailcat
