import Mathlib.Data.List.Basic

/-!
# Paths of Unix

A path is a list of bytes, or of any other symbols of which one is the slash and one the dot.  It
stands for its components: `Path::components` drops the empty parts between slashes, and the
parts of one dot except for the first.  Two paths are equal if their components are.

* `components_join` : a plain name joined to a directory is one more component.
-/

namespace UnixPath

variable {α : Type*} [DecidableEq α] (slash dot : α)

/-- A component of a path. -/
inductive Component (α : Type*) where
  | rootDir
  | curDir
  | parentDir
  | normal (name : List α)
  deriving DecidableEq

/-- What a part between slashes stands for. -/
def component (part : List α) : Option (Component α) :=
  if part = [] ∨ part = [dot] then none
  else if part = [dot, dot] then some .parentDir
  else some (.normal part)

/-- What a path begins with, before its names. -/
def start (path : List α) : List (Component α) :=
  if path.head? = some slash then [.rootDir]
  else if (path.splitOn slash).head? = some [dot] then [.curDir]
  else []

/-- `Path::components`. -/
def components (path : List α) : List (Component α) :=
  start slash dot path ++ (path.splitOn slash).filterMap (component dot)

/-- `Path::join`. -/
def join (dir name : List α) : List α :=
  if name.head? = some slash then name
  else if dir = [] ∨ dir.getLast? = some slash then dir ++ name
  else dir ++ slash :: name

/-- A name of a file in a directory. -/
def IsName (name : List α) : Prop :=
  slash ∉ name ∧ name ≠ [] ∧ name ≠ [dot] ∧ name ≠ [dot, dot]

variable {slash dot} {dir name : List α}

theorem component_of_isName (h : IsName slash dot name) :
    component dot name = some (.normal name) := by
  obtain ⟨-, hnil, hdot, hdots⟩ := h
  rw [component, if_neg (not_or.2 ⟨hnil, hdot⟩), if_neg hdots]

theorem filterMap_singleton (h : IsName slash dot name) :
    [name].filterMap (component dot) = [.normal name] :=
  List.filterMap_cons_some (component_of_isName h)

theorem filterMap_empty : [[]].filterMap (component dot) = [] :=
  List.filterMap_cons_none (if_pos (.inl rfl))

theorem start_slash (rest : List α) : start slash dot (slash :: rest) = [.rootDir] := if_pos rfl

/-- What a path begins with is not changed by what comes after a slash. -/
theorem start_append {path : List α} (h : path ≠ []) (after : List α) :
    start slash dot (path ++ slash :: after) = start slash dot path := by
  obtain ⟨c, cs, rfl⟩ := List.exists_cons_of_ne_nil h
  obtain ⟨part, parts, hparts⟩ :=
    List.exists_cons_of_ne_nil (List.splitOn_ne_nil slash (c :: cs))
  rw [start, start, List.splitOn_append_cons_self, hparts]
  rfl

/-- **A name joined to a directory is one more component.** -/
theorem components_join (dir : List α) (h : IsName slash dot name) :
    components slash dot (join slash dir name) = components slash dot dir ++ [.normal name] := by
  have hparts : name.splitOn slash = [name] := List.splitOn_eq_singleton h.1
  have hhead : name.head? ≠ some slash := fun heq => h.1 (List.mem_of_mem_head? heq)
  rw [join, if_neg hhead]
  rcases List.eq_nil_or_concat' dir with rfl | ⟨before, last, rfl⟩
  · have hstart : start slash dot name = [] := by
      rw [start, if_neg hhead, hparts, List.head?_cons,
        if_neg fun heq => h.2.2.1 (Option.some.inj heq)]
    rw [if_pos (.inl rfl), List.nil_append, components, components, hstart, hparts,
      filterMap_singleton h, List.splitOn_nil, filterMap_empty, start, if_neg (by simp),
      if_neg (by simp)]
    rfl
  by_cases hlast : last = slash
  · subst hlast
    have hstart : start last dot (before ++ last :: name) = start last dot (before ++ [last]) := by
      by_cases hbefore : before = []
      · rw [hbefore, List.nil_append, List.nil_append, start_slash, start_slash]
      · rw [start_append hbefore, start_append hbefore]
    rw [if_pos (.inr List.getLast?_concat), List.append_assoc, List.singleton_append, components,
      components, hstart, List.splitOn_append_cons_self, List.splitOn_append_cons_self, hparts,
      List.splitOn_nil, List.filterMap_append, List.filterMap_append, filterMap_singleton h,
      filterMap_empty, List.append_nil, List.append_assoc]
  · have hend : ¬(before ++ [last] = [] ∨ (before ++ [last]).getLast? = some slash) := by
      simp [hlast]
    rw [if_neg hend, components, components, start_append (by simp),
      List.splitOn_append_cons_self, hparts, List.filterMap_append, filterMap_singleton h,
      List.append_assoc]

end UnixPath
