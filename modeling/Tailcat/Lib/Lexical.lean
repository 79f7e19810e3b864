import Mathlib.Logic.Relation
import Mathlib.Data.List.Basic
import Mathlib.Data.List.TakeDrop

/-!
# Lexical cleaning of paths

A path is a list of components, of which some are idle (they stay where they are) and one goes up.
`Rewrites` is a step of cleaning such a path at a root, by the usual rules, in any order and at
any place:

* an idle component is removed;
* a name and the component that goes up behind it are removed;
* at the root, the component that goes up is removed.

`Cleaning` relates a path to what the rules lead to where none applies any more.  The stack machine
`resolve` computes it (`cleaning_iff`), so the rules end in one result whatever their order.
`resolve` also starts below the root; `resolve_eq_take` compares this with cleaning at the root.
-/

namespace Lexical

variable {α : Type} (idle : α → Prop) (up : α)

/-! ### The rules -/

/-- All components are names. -/
def Names (path : List α) : Prop := ∀ part ∈ path, ¬idle part ∧ part ≠ up

/-- One step of cleaning at the root. -/
inductive Rewrites : List α → List α → Prop
  | idle (before after : List α) {part : α} (h : idle part) :
      Rewrites (before ++ part :: after) (before ++ after)
  | inner (before after : List α) {part : α} (hi : ¬idle part) (hu : part ≠ up) :
      Rewrites (before ++ part :: up :: after) (before ++ after)
  | root (after : List α) : Rewrites (up :: after) after

/-- `path` is what the rules lead from `parts` to, where no rule applies any more. -/
def Cleaning (parts path : List α) : Prop :=
  Relation.ReflTransGen (Rewrites idle up) parts path ∧ ∀ next, ¬Rewrites idle up path next

variable {idle up} {base parts path : List α} {part : α}

theorem names_nil : Names idle up [] := nofun

theorem names_concat :
    Names idle up (path ++ [part]) ↔ Names idle up path ∧ ¬idle part ∧ part ≠ up := by
  simp only [Names, List.mem_append, List.mem_singleton]
  constructor
  · intro h
    exact ⟨fun p hp => h p (.inl hp), h part (.inr rfl)⟩
  · rintro ⟨h, hpart⟩ p (hp | rfl)
    · exact h p hp
    · exact hpart

theorem Names.dropLast (h : Names idle up path) : Names idle up path.dropLast :=
  fun p hp => h p (List.dropLast_subset path hp)

/-- To names no rule applies. -/
theorem Names.not_rewrites (h : Names idle up path) (next : List α) :
    ¬Rewrites idle up path next := by
  intro hr
  cases hr with
  | idle before after hi => exact (h _ (by simp)).1 hi
  | inner before after hi hu => exact (h up (by simp)).2 rfl
  | root => exact (h up List.mem_cons_self).2 rfl

/-! ### The stack machine -/

variable [DecidableEq α] [DecidablePred idle]

variable (idle up) in
/-- A component is taken at the end of a path. -/
def push (path : List α) (part : α) : List α :=
  if idle part then path else if part = up then path.dropLast else path ++ [part]

variable (idle up) in
/-- The components are taken one after the other, from the end of `base`. -/
def resolve (base parts : List α) : List α := parts.foldl (push idle up) base

theorem push_idle (h : idle part) : push idle up path part = path := if_pos h

theorem push_up (h : ¬idle up) : push idle up path up = path.dropLast := by
  rw [push, if_neg h, if_pos rfl]

theorem push_name (hi : ¬idle part) (hu : part ≠ up) :
    push idle up path part = path ++ [part] := by
  rw [push, if_neg hi, if_neg hu]

theorem resolve_cons (base : List α) (part : α) (parts : List α) :
    resolve idle up base (part :: parts) = resolve idle up (push idle up base part) parts := rfl

theorem resolve_append (base before after : List α) :
    resolve idle up base (before ++ after) =
      resolve idle up (resolve idle up base before) after :=
  List.foldl_append

theorem Names.push (h : Names idle up path) (part : α) :
    Names idle up (push idle up path part) := by
  unfold Lexical.push
  split_ifs with hi hu
  · exact h
  · exact h.dropLast
  · exact names_concat.2 ⟨h, hi, hu⟩

theorem Names.resolve (h : Names idle up base) (parts : List α) :
    Names idle up (resolve idle up base parts) := by
  induction parts generalizing base with
  | nil => exact h
  | cons part parts ih => exact ih (h.push part)

/-- Names are appended. -/
theorem resolve_names (base : List α) (h : Names idle up path) :
    resolve idle up base path = base ++ path := by
  induction path generalizing base with
  | nil => exact (List.append_nil base).symm
  | cons part path ih =>
    obtain ⟨hi, hu⟩ := h part List.mem_cons_self
    have hrest : Names idle up path := fun p hp => h p (List.mem_cons_of_mem part hp)
    rw [resolve_cons, push_name hi hu, ih _ hrest, List.append_assoc, List.singleton_append]

/-! ### The rules and the stack machine -/

/-- A step of cleaning does not change what the stack machine computes. -/
theorem Rewrites.resolve_eq (hup : ¬idle up) {next : List α} (h : Rewrites idle up parts next) :
    resolve idle up [] parts = resolve idle up [] next := by
  cases h with
  | idle before after h => rw [resolve_append, resolve_append, resolve_cons, push_idle h]
  | inner before after hi hu =>
    rw [resolve_append, resolve_append, resolve_cons, resolve_cons, push_name hi hu, push_up hup,
      List.dropLast_concat]
  | root => rw [resolve_cons, push_up hup, List.dropLast_nil]

/-- The rules lead to what the stack machine computes. -/
theorem rewrites_resolve (h : Names idle up base) (parts : List α) :
    Relation.ReflTransGen (Rewrites idle up) (base ++ parts) (resolve idle up base parts) := by
  induction parts generalizing base with
  | nil =>
    rw [List.append_nil]
    exact .refl
  | cons part parts ih =>
    have hrest := ih (h.push part)
    rw [resolve_cons]
    by_cases hi : idle part
    · rw [push_idle hi] at hrest ⊢
      exact .head (.idle base parts hi) hrest
    by_cases hu : part = up
    · subst hu
      rw [push_up hi] at hrest ⊢
      -- at the root there is nothing to go up from, below it the last name goes
      rcases List.eq_nil_or_concat' base with rfl | ⟨before, name, rfl⟩
      · exact .head (.root parts) hrest
      · obtain ⟨-, hni, hnu⟩ := names_concat.1 h
        rw [List.dropLast_concat] at hrest ⊢
        rw [List.append_assoc, List.singleton_append]
        exact .head (.inner before parts hni hnu) hrest
    · rw [push_name hi hu] at hrest ⊢
      rwa [List.append_assoc, List.singleton_append] at hrest

/-- **The stack machine computes the cleaning**, which is unique. -/
theorem cleaning_iff (hup : ¬idle up) :
    Cleaning idle up parts path ↔ path = resolve idle up [] parts := by
  constructor
  · rintro ⟨hr, hend⟩
    have heq : resolve idle up [] parts = resolve idle up [] path := by
      clear hend
      induction hr with
      | refl => rfl
      | tail _ hstep ih => exact ih.trans (hstep.resolve_eq hup)
    -- no rule applies to the end, so the machine leaves it as it is
    have hstay : resolve idle up [] path = path := by
      have hlead : Relation.ReflTransGen (Rewrites idle up) path (resolve idle up [] path) :=
        rewrites_resolve names_nil path
      rcases hlead.cases_head with h | ⟨next, hnext, -⟩
      · exact h.symm
      · exact absurd hnext (hend next)
    rw [heq, hstay]
  · rintro rfl
    exact ⟨rewrites_resolve names_nil parts, (names_nil.resolve parts).not_rewrites⟩

/-! ### Below the root -/

variable (idle up) in
/-- A component is taken, and where there is nothing to go up from the climb is counted. -/
def climbPart (s : ℕ × List α) (part : α) : ℕ × List α :=
  (if ¬idle part ∧ part = up ∧ s.2 = [] then s.1 + 1 else s.1, push idle up s.2 part)

variable (idle up) in
/-- How far a path climbs above the directory it starts at. -/
def climbs (parts : List α) : ℕ := (parts.foldl (climbPart idle up) (0, [])).1

theorem foldl_climbPart_snd (s : ℕ × List α) (parts : List α) :
    (parts.foldl (climbPart idle up) s).2 = resolve idle up s.2 parts := by
  induction parts generalizing s with
  | nil => rfl
  | cons part parts ih => exact ih _

/-- A component taken at the end of what is left of `base`. -/
theorem push_take (hup : ¬idle up) (base : List α) (s : ℕ × List α) (part : α) :
    push idle up (base.take (base.length - s.1) ++ s.2) part =
      base.take (base.length - (climbPart idle up s part).1) ++ (climbPart idle up s part).2 := by
  simp only [climbPart]
  by_cases hi : idle part
  · rw [push_idle hi, push_idle hi, if_neg (fun h => h.1 hi)]
  by_cases hu : part = up
  · subst hu
    rw [push_up hi, push_up hi]
    by_cases hs : s.2 = []
    · rw [if_pos ⟨hi, rfl, hs⟩, hs, List.dropLast_nil, List.append_nil, List.append_nil,
        List.dropLast_eq_take, List.take_take, List.length_take]
      congr 1
      omega
    · rw [if_neg (fun h => hs h.2.2), List.dropLast_append_of_ne_nil hs]
  · rw [push_name hi hu, push_name hi hu, if_neg (fun h => hu h.2.1), List.append_assoc]

theorem resolve_take (hup : ¬idle up) (base : List α) (s : ℕ × List α) (parts : List α) :
    resolve idle up (base.take (base.length - s.1) ++ s.2) parts =
      base.take (base.length - (parts.foldl (climbPart idle up) s).1) ++
        (parts.foldl (climbPart idle up) s).2 := by
  induction parts generalizing s with
  | nil => rfl
  | cons part parts ih => rw [resolve_cons, push_take hup, ih, List.foldl_cons]

/-- Resolving a path below the root removes as many components as it climbs, and adds what it is
cleaned to at the root. -/
theorem resolve_eq_take (hup : ¬idle up) (base parts : List α) :
    resolve idle up base parts =
      base.take (base.length - climbs idle up parts) ++ resolve idle up [] parts := by
  have h := resolve_take hup base (0, []) parts
  rw [foldl_climbPart_snd, Nat.sub_zero, List.take_length, List.append_nil] at h
  exact h

/-- A path resolved below the root is the one cleaned at the root, behind `base`, exactly if it
does not climb or there is nothing to climb. -/
theorem resolve_eq_append_iff (hup : ¬idle up) (base parts : List α) :
    resolve idle up base parts = base ++ resolve idle up [] parts ↔
      base = [] ∨ climbs idle up parts = 0 := by
  rw [resolve_eq_take hup, List.append_left_inj, List.take_eq_self_iff]
  constructor
  · intro h
    by_cases hb : base = []
    · exact .inl hb
    · have hpos := List.length_pos_iff.2 hb
      exact .inr (by omega)
  · rintro (rfl | h)
    · exact Nat.zero_le _
    · omega

end Lexical
