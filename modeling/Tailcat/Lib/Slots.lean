import Mathlib.Data.List.Basic

/-!
# Slot tables

A slot table keeps its values at handles that stay valid until the value is removed; a removed
value's slot is the first to be used again.

* `get_add` : a new value is found at its handle, and no other handle changes.
* `get_free` : its handle was free before.

A handle is a place in a list, and a removed value leaves a hole there.  What a program has to fear
is a handle that is kept after its value was removed: the next value that is added takes the place,
and the handle leads to it.  The table does not prevent that, and its lemmas say exactly when it
happens; a program that keeps handles needs a number of its own besides, as the connections of the
browser do.
-/

namespace Tailcat

/-- A table of slots, each free or with a value. -/
structure Slots (α : Type*) where
  slots : List (Option α) := []

namespace Slots

variable {α : Type*}

instance : EmptyCollection (Slots α) := ⟨{}⟩

/-- The value at a handle. -/
def get (s : Slots α) (h : ℕ) : Option α := (s.slots[h]?).join

/-- The first free slot, or a new one. -/
def free (s : Slots α) : ℕ := s.slots.findIdx Option.isNone

/-- Put a value into the first free slot; its handle, and the table with it. -/
def add (s : Slots α) (x : α) : ℕ × Slots α :=
  if s.free < s.slots.length then (s.free, ⟨s.slots.set s.free (some x)⟩)
  else (s.slots.length, ⟨s.slots ++ [some x]⟩)

/-- Replace the value at a handle, if there is one. -/
def update (s : Slots α) (h : ℕ) (f : α → α) : Slots α := ⟨s.slots.modify h (Option.map f)⟩

/-- Free a slot. -/
def remove (s : Slots α) (h : ℕ) : Slots α := ⟨s.slots.set h none⟩

/-- The first handle whose value meets a condition. -/
def find (s : Slots α) (p : α → Bool) : Option ℕ :=
  s.slots.findIdx? fun o => o.any p

theorem add_fst (s : Slots α) (x : α) : (s.add x).1 = s.free := by
  unfold add
  split_ifs with hfree
  · rfl
  · have hle : s.free ≤ s.slots.length := List.findIdx_le_length
    omega

/-- The handle of a new value was free. -/
theorem get_free (s : Slots α) : s.get s.free = none := by
  unfold get
  by_cases hfree : s.free < s.slots.length
  · have hnone := List.findIdx_getElem (p := Option.isNone) (w := hfree)
    rw [List.getElem?_eq_getElem hfree]
    exact Option.isNone_iff_eq_none.1 hnone
  · rw [List.getElem?_eq_none (by omega)]
    rfl

theorem get_add (s : Slots α) (x : α) (h : ℕ) :
    (s.add x).2.get h = if h = s.free then some x else s.get h := by
  have hle : s.free ≤ s.slots.length := List.findIdx_le_length
  unfold add get
  split_ifs with hfree hh hh
  · subst hh
    simp [hfree]
  · rw [List.getElem?_set_ne (Ne.symm hh)]
  · have : h = s.slots.length := by omega
    simp [this]
  · rcases Nat.lt_or_ge h s.slots.length with hlt | hge
    · rw [List.getElem?_append_left hlt]
    · rw [List.getElem?_eq_none (by simp; omega), List.getElem?_eq_none (by omega)]

theorem get_add_of_get {s : Slots α} {x y : α} {h : ℕ} (hy : s.get h = some y) :
    (s.add x).2.get h = some y := by
  rw [get_add, if_neg, hy]
  rintro rfl
  rw [get_free] at hy
  cases hy

theorem get_update (s : Slots α) (h : ℕ) (f : α → α) (h' : ℕ) :
    (s.update h f).get h' = if h' = h then (s.get h').map f else s.get h' := by
  unfold update get
  rw [List.getElem?_modify]
  by_cases hh : h = h'
  · subst hh
    rcases s.slots[h]? with _ | _ | _ <;> simp
  · simp [hh, Ne.symm hh]

theorem get_remove (s : Slots α) (h h' : ℕ) :
    (s.remove h).get h' = if h' = h then none else s.get h' := by
  unfold remove get
  by_cases hh : h' = h
  · subst hh
    rw [if_pos rfl]
    rcases Nat.lt_or_ge h' s.slots.length with hlt | hge
    · simp [hlt]
    · rw [List.getElem?_eq_none (by simpa using hge)]
      rfl
  · rw [List.getElem?_set_ne (Ne.symm hh), if_neg hh]

theorem get_of_find {s : Slots α} {p : α → Bool} {h : ℕ} (hfind : s.find p = some h) :
    ∃ x, s.get h = some x ∧ p x = true := by
  obtain ⟨hlt, hp, -⟩ := List.findIdx?_eq_some_iff_getElem.1 hfind
  obtain ⟨x, hx, hpx⟩ := (Option.any_eq_true _ _).1 hp
  exact ⟨x, by rw [get, List.getElem?_eq_getElem hlt, hx]; rfl, hpx⟩

end Slots

end Tailcat
