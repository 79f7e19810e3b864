import Mathlib.Data.List.Basic

/-!
# Lines

A stream consists of lines, each with the element that ends it, and of a tail without one.

* `split_flatten` : nothing is lost.
* `split_line` : the first line does not depend on what follows it.
* `split_append` : what comes before the first line's end belongs to that line, or to the tail.

The separator is a parameter, and so is the type of the elements.  A reader of a stream sees it in
pieces of any size, so what it needs to know is how the split of a longer stream extends that of a
shorter one: the lines that are complete stay, and the tail becomes the beginning of the next line.
A line keeps its separator, which is why the lines and the tail together are the stream.
-/

namespace Lines

variable {α : Type*} [DecidableEq α] (sep : α)

/-- The lines of a stream and its tail. -/
def split : List α → List (List α) × List α
  | [] => ([], [])
  | c :: s =>
    if c = sep then ([c] :: (split s).1, (split s).2)
    else
      match split s with
      | ([], tail) => ([], c :: tail)
      | (line :: lines, tail) => ((c :: line) :: lines, tail)

variable {sep} {s : List α}

theorem split_flatten (s : List α) : (split sep s).1.flatten ++ (split sep s).2 = s := by
  induction s with
  | nil => rfl
  | cons c s ih =>
    unfold split
    split
    · rw [List.flatten_cons, List.append_assoc, ih]
      rfl
    · split
      · rename_i hsplit
        rw [hsplit] at ih
        exact congrArg (c :: ·) ih
      · rename_i hsplit
        rw [hsplit] at ih
        exact congrArg (c :: ·) ih

theorem split_append (h : sep ∉ s) (t : List α) :
    split sep (s ++ t) =
      match split sep t with
      | ([], tail) => ([], s ++ tail)
      | (line :: lines, tail) => ((s ++ line) :: lines, tail) := by
  induction s with
  | nil =>
    cases hsplit : split sep t with
    | mk lines tail => cases lines <;> exact hsplit
  | cons c s ih =>
    rw [List.mem_cons, not_or] at h
    rw [List.cons_append, split, if_neg (Ne.symm h.1), ih h.2]
    cases split sep t with
    | mk lines tail => cases lines <;> rfl

theorem split_of_notMem (h : sep ∉ s) : split sep s = ([], s) := by
  have hsplit := split_append h []
  rw [List.append_nil] at hsplit
  rw [hsplit]
  simp [split]

theorem split_line (h : sep ∉ s) (t : List α) :
    split sep (s ++ sep :: t) = ((s ++ [sep]) :: (split sep t).1, (split sep t).2) := by
  rw [split_append h, split, if_pos rfl]

end Lines
