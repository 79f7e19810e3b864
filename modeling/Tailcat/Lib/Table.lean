import Mathlib.Data.List.AList

/-!
# Hash maps

A hash map is an association list without duplicate keys; its order stands for the order of
iteration, which says nothing about the order of insertion.  `AList` is that structure; this module
adds the updates of `std::collections::HashMap` it lacks.

What is added is `retain`, `adjust` (a change of the value at a key), the number of entries, and the
lookups after each of them.  A lemma about a lookup after an update always has one form, by whether
the key is the one that was updated, so that `simp` and `split_ifs` close what is left.

A program that iterates over a hash map may not depend on the order.  Here the order is that of the
list, one of those possible; a result that has to hold for all of them is stated up to permutation
of the entries.
-/

namespace Tailcat

/-- A hash map. -/
abbrev Table (κ ν : Type*) := AList fun _ : κ => ν

namespace Table

variable {κ ν : Type*}

/-- The number of entries. -/
def size (t : Table κ ν) : ℕ := t.entries.length

/-- Keep the entries that meet a condition. -/
def retain (p : κ → ν → Bool) (t : Table κ ν) : Table κ ν where
  entries := t.entries.filter fun e => p e.1 e.2
  nodupKeys := t.nodupKeys.sublist List.filter_sublist

theorem size_retain_le (p : κ → ν → Bool) (t : Table κ ν) : (t.retain p).size ≤ t.size :=
  List.length_filter_le _ _

variable [DecidableEq κ]

/-- Change the value of a key, if it has one. -/
def adjust (k : κ) (f : ν → ν) (t : Table κ ν) : Table κ ν where
  entries := t.entries.map fun e => if e.1 = k then ⟨e.1, f e.2⟩ else e
  nodupKeys := by
    have hkeys : (t.entries.map fun e => if e.1 = k then ⟨e.1, f e.2⟩ else e).keys =
        t.entries.keys := by
      simp only [List.keys, List.map_map]
      refine List.map_congr_left fun e _ => ?_
      simp only [Function.comp_apply]
      split_ifs <;> rfl
    rw [List.NodupKeys, hkeys]
    exact t.nodupKeys

@[simp] theorem keys_adjust (k : κ) (f : ν → ν) (t : Table κ ν) : (t.adjust k f).keys = t.keys := by
  simp only [AList.keys, adjust, List.keys, List.map_map]
  refine List.map_congr_left fun e _ => ?_
  simp only [Function.comp_apply]
  split_ifs <;> rfl

@[simp] theorem size_adjust (k : κ) (f : ν → ν) (t : Table κ ν) : (t.adjust k f).size = t.size :=
  List.length_map _

theorem lookup_insert_eq (t : Table κ ν) (k k' : κ) (v : ν) :
    (t.insert k v).lookup k' = if k' = k then some v else t.lookup k' := by
  split_ifs with h
  · subst h
    exact AList.lookup_insert t
  · exact AList.lookup_insert_ne h

theorem lookup_erase_eq (t : Table κ ν) (k k' : κ) :
    (t.erase k).lookup k' = if k' = k then none else t.lookup k' := by
  split_ifs with h
  · subst h
    exact AList.lookup_erase _ t
  · exact AList.lookup_erase_ne h

theorem size_insert_le (k : κ) (v : ν) (t : Table κ ν) : size (t.insert k v) ≤ t.size + 1 := by
  simp only [size, AList.entries_insert, List.length_cons]
  exact Nat.succ_le_succ (List.Sublist.length_le (List.kerase_sublist _ _))

theorem size_erase_le (k : κ) (t : Table κ ν) : size (t.erase k) ≤ t.size :=
  List.Sublist.length_le (List.kerase_sublist _ _)

theorem lookup_retain (p : κ → ν → Bool) (t : Table κ ν) (k : κ) :
    (t.retain p).lookup k = (t.lookup k).filter (p k) := by
  ext v
  rw [← Option.mem_def, AList.mem_lookup_iff, Option.filter_eq_some_iff, ← Option.mem_def,
    AList.mem_lookup_iff]
  simp [retain]

theorem lookup_union (t t' : Table κ ν) (k : κ) :
    (t ∪ t').lookup k = (t.lookup k).or (t'.lookup k) := by
  cases h : t.lookup k with
  | none => exact AList.lookup_union_right (AList.lookup_eq_none.1 h)
  | some v =>
    have hmem : k ∈ t := by
      rw [← AList.lookup_isSome, h]
      rfl
    rw [AList.lookup_union_left hmem, h]
    rfl

theorem lookup_adjust (k : κ) (f : ν → ν) (t : Table κ ν) (k' : κ) :
    (t.adjust k f).lookup k' = if k' = k then (t.lookup k').map f else t.lookup k' := by
  ext v
  rw [← Option.mem_def, AList.mem_lookup_iff]
  simp only [adjust, List.mem_map]
  split_ifs with hk
  · subst hk
    rw [Option.map_eq_some_iff]
    constructor
    · rintro ⟨⟨k, w⟩, he, h⟩
      split_ifs at h with hk
      · obtain rfl : k = k' := hk
        cases h
        exact ⟨w, AList.mem_lookup_iff.2 he, rfl⟩
      · cases h
        exact absurd rfl hk
    · rintro ⟨w, hw, rfl⟩
      exact ⟨⟨k', w⟩, AList.mem_lookup_iff.1 hw, by simp⟩
  · rw [← Option.mem_def, AList.mem_lookup_iff]
    constructor
    · rintro ⟨⟨k'', w⟩, he, h⟩
      split_ifs at h with hk'
      · cases h
        exact absurd hk' hk
      · exact h ▸ he
    · intro he
      exact ⟨_, he, if_neg hk⟩

/-- A change of several keys that makes no difference when it is made twice. -/
theorem lookup_foldl_adjust {f : ν → ν} (hf : ∀ v, f (f v) = f v) (keys : List κ) (t : Table κ ν)
    (k : κ) : (keys.foldl (fun t k => t.adjust k f) t).lookup k =
      if k ∈ keys then (t.lookup k).map f else t.lookup k := by
  induction keys generalizing t with
  | nil => simp
  | cons k' keys ih =>
    rw [List.foldl_cons, ih, lookup_adjust]
    by_cases hk : k = k'
    · subst hk
      simp only [if_true, List.mem_cons, true_or]
      split_ifs
      · cases t.lookup k with
        | none => rfl
        | some v => exact congrArg some (hf v)
      · rfl
    · simp only [List.mem_cons, hk, false_or, if_false]

end Table

end Tailcat
