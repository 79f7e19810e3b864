import Mathlib.Data.List.Basic

/-!
# Channels

A channel hands out what was put into it in order.  It remembers everything that was put in, and
how much of that was handed out; what is in it is the difference.

A receiver takes a prefix of what is pending, and nothing is ever taken back, so what has been
handed out is a prefix of what was put in at any time (`passed_prefix`).  This is what a model needs
to say that a stream loses, repeats and reorders nothing: it keeps the channel instead of the queue,
and the record comes with the state.

The structure carries the bound that makes the difference well defined, and `push` and `pop` keep
it.  Both are total: taking more than there is takes what there is.
-/

namespace Tailcat

/-- A first-in-first-out channel with its history. -/
structure Channel (α : Type*) where
  /-- Everything that was ever put in. -/
  log : List α
  /-- How much of it was handed out. -/
  taken : ℕ
  /-- No more is handed out than was put in. -/
  taken_le : taken ≤ log.length

namespace Channel

variable {α : Type*}

/-- A channel that nothing was put into yet. -/
def empty : Channel α := ⟨[], 0, Nat.zero_le _⟩

/-- What is in the channel. -/
def pending (c : Channel α) : List α := c.log.drop c.taken

/-- What was handed out. -/
def passed (c : Channel α) : List α := c.log.take c.taken

/-- Put values in. -/
def push (c : Channel α) (xs : List α) : Channel α where
  log := c.log ++ xs
  taken := c.taken
  taken_le := by simpa using Nat.le_add_right_of_le c.taken_le

/-- Hand out the first `n` values, or all of them. -/
def pop (c : Channel α) (n : ℕ) : Channel α where
  log := c.log
  taken := min (c.taken + n) c.log.length
  taken_le := Nat.min_le_right _ _

theorem passed_append_pending (c : Channel α) : c.passed ++ c.pending = c.log :=
  List.take_append_drop _ _

theorem passed_prefix (c : Channel α) : c.passed <+: c.log := List.take_prefix _ _

theorem passed_of_pending {c : Channel α} (h : c.pending = []) : c.passed = c.log := by
  rw [← c.passed_append_pending, h, List.append_nil]

@[simp] theorem log_push (c : Channel α) (xs : List α) : (c.push xs).log = c.log ++ xs := rfl

@[simp] theorem log_pop (c : Channel α) (n : ℕ) : (c.pop n).log = c.log := rfl

@[simp] theorem passed_push (c : Channel α) (xs : List α) : (c.push xs).passed = c.passed := by
  simp [passed, push, List.take_append_of_le_length c.taken_le]

@[simp] theorem pending_push (c : Channel α) (xs : List α) :
    (c.push xs).pending = c.pending ++ xs := by
  simp [pending, push, List.drop_append_of_le_length c.taken_le]

theorem passed_pop (c : Channel α) (n : ℕ) : (c.pop n).passed = c.passed ++ c.pending.take n := by
  simp only [passed, pop, pending]
  rw [← List.take_add, List.take_eq_take_iff]
  simp

end Channel

end Tailcat
