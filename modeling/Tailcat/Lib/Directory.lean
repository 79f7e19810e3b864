import Tailcat.Lib.Table
import Tailcat.Bytes

/-!
# A directory that several processes share

A directory gives names to files; a file may have several names, or none any more.  Each operation
is atomic, and processes that share the directory take turns with them.

What an operation does is said by what the names and the files are afterwards: `createNew_eq_some`,
`link_eq_done`, `rename_eq_some` and `createOrTruncate_eq` for the names, `content_writeAt` and
`writeSome_eq_some` for the files.

It is a small model of a POSIX directory, for programs that share one and have no locks: a name is
given exclusively (`createNew`), moved over another (`rename`) or added to a file (`link`), and a
file is written at an offset through a handle that outlives its names.  Files are numbered in the
order of their creation and never deleted, as an open handle keeps them alive.

An operation that fails answers `none` and changes nothing.  Whether it fails for another reason
than the names, such as a full disk, is for the program's model to say.
-/

namespace Tailcat

/-- A directory: the files its names stand for, and the contents of all files there ever were. -/
structure Directory where
  names : Table String ℕ := ∅
  files : List Bytes := []
  /-- Every name stands for a file. -/
  valid : ∀ name file, names.lookup name = some file → file < files.length := by
    intro name file h
    cases h

namespace Directory

variable (d : Directory)

/-- The content of a file. -/
def content (file : ℕ) : Option Bytes := d.files[file]?

/-- The content of the file with a name. -/
def read (name : String) : Option Bytes := (d.names.lookup name).bind d.content

/-- Give a name to a file, whatever the name stood for before. -/
def setName (name : String) (file : ℕ) (h : file < d.files.length) : Directory where
  names := d.names.insert name file
  files := d.files
  valid := by
    intro name' file' hname
    by_cases heq : name' = name
    · subst heq
      rw [AList.lookup_insert, Option.some.injEq] at hname
      exact hname ▸ h
    · rw [AList.lookup_insert_ne heq] at hname
      exact d.valid name' file' hname

/-- Add an empty file without a name. -/
def addFile : Directory where
  names := d.names
  files := d.files ++ [[]]
  valid := by
    intro name file hname
    have := d.valid name file hname
    simp only [List.length_append, List.length_singleton]
    omega

/-- Take a name away. -/
def unlink (name : String) : Directory where
  names := d.names.erase name
  files := d.files
  valid := by
    intro name' file hname
    by_cases heq : name' = name
    · subst heq
      rw [AList.lookup_erase] at hname
      cases hname
    · rw [AList.lookup_erase_ne heq] at hname
      exact d.valid name' file hname

/-- A content with some bytes written over it from an offset on. -/
def overwrite (old : Bytes) (offset : ℕ) (b : Bytes) : Bytes :=
  old.take offset ++ List.replicate (offset - old.length) 0 ++ b ++ old.drop (offset + b.length)

/-- Write to a file at an offset. -/
def writeAt (file offset : ℕ) (b : Bytes) : Directory where
  names := d.names
  files := d.files.modify file (overwrite · offset b)
  valid := by
    intro name file' hname
    rw [List.length_modify]
    exact d.valid name file' hname

/-- Write some of what is left of a content, at least one byte, or find that nothing is left. -/
def writeSome (file : ℕ) (goal : Bytes) (written count : ℕ) : Option (Directory × ℕ) :=
  let rest := goal.drop written
  if rest = [] then none
  else
    let b := rest.take (max 1 count)
    some (d.writeAt file written b, written + b.length)

/-- Create a file, unless there is one with the name. -/
def createNew (name : String) : Option (ℕ × Directory) :=
  if name ∈ d.names then none
  else some (d.files.length, d.addFile.setName name d.files.length (by simp [addFile]))

/-- Empty the file with a name, or create one. -/
def createOrTruncate (name : String) : ℕ × Directory :=
  match d.names.lookup name with
  | some file => (file, { d with
      files := d.files.set file []
      valid := fun name file hname => by rw [List.length_set]; exact d.valid name file hname })
  | none => (d.files.length, d.addFile.setName name d.files.length (by simp [addFile]))

/-- How a call that gives a second name to a file ends. -/
inductive Linked
  | done (d : Directory)
  | taken
  | missing

/-- Give a second name to the file with a name, unless there is a file with the new one. -/
def link (old new : String) : Linked :=
  match h : d.names.lookup old with
  | none => .missing
  | some file =>
    if new ∈ d.names then .taken else .done (d.setName new file (d.valid old file h))

/-- Give another name to the file with a name, in the place of any file with the new one. -/
def rename (old new : String) : Option Directory :=
  match h : d.names.lookup old with
  | none => none
  | some file => some ((d.setName new file (d.valid old file h)).unlink old)

variable {d}

/-! ### Names -/

theorem lookup_setName {name : String} {file : ℕ} {h : file < d.files.length} (name' : String) :
    (d.setName name file h).names.lookup name' =
      if name' = name then some file else d.names.lookup name' := by
  split_ifs with heq
  · subst heq
    exact AList.lookup_insert _
  · exact AList.lookup_insert_ne heq

theorem lookup_unlink (name name' : String) :
    (d.unlink name).names.lookup name' = if name' = name then none else d.names.lookup name' := by
  split_ifs with heq
  · subst heq
    exact AList.lookup_erase _ _
  · exact AList.lookup_erase_ne heq

theorem notMem_names {name : String} : name ∉ d.names ↔ d.names.lookup name = none :=
  AList.lookup_eq_none.symm

theorem read_eq_some {name : String} {b : Bytes} :
    d.read name = some b ↔ ∃ file, d.names.lookup name = some file ∧ d.content file = some b :=
  Option.bind_eq_some_iff

/-! ### Operations -/

/-- A new file has a new name and no content; nothing else changes. -/
theorem createNew_eq_some {name : String} {file : ℕ} {d' : Directory}
    (h : d.createNew name = some (file, d')) :
    d.names.lookup name = none ∧ file = d.files.length ∧
      (∀ name', d'.names.lookup name' = if name' = name then some file else d.names.lookup name') ∧
      d'.files = d.files ++ [[]] := by
  unfold createNew at h
  split_ifs at h with hmem
  cases h
  exact ⟨notMem_names.1 hmem, rfl, fun name' => lookup_setName name', rfl⟩

/-- A file has one name more. -/
theorem link_eq_done {old new : String} {d' : Directory} (h : d.link old new = .done d') :
    ∃ file, d.names.lookup old = some file ∧ d.names.lookup new = none ∧
      (∀ name, d'.names.lookup name = if name = new then some file else d.names.lookup name) ∧
      d'.files = d.files := by
  unfold link at h
  split at h
  · cases h
  · rename_i file hold
    split_ifs at h with hmem
    cases h
    exact ⟨file, hold, notMem_names.1 hmem, fun name => lookup_setName name, rfl⟩

/-- A file has another name, and a file that had it has lost it. -/
theorem rename_eq_some {old new : String} {d' : Directory} (h : d.rename old new = some d') :
    ∃ file, d.names.lookup old = some file ∧
      (∀ name, d'.names.lookup name =
        if name = old then none else if name = new then some file else d.names.lookup name) ∧
      d'.files = d.files := by
  unfold rename at h
  split at h
  · cases h
  · rename_i file hold
    cases h
    exact ⟨file, hold, fun name => by rw [lookup_unlink, lookup_setName], rfl⟩

/-- The name stands for an empty file, a new one or the one it stood for. -/
theorem createOrTruncate_eq {name : String} {file : ℕ} {d' : Directory}
    (h : d.createOrTruncate name = (file, d')) :
    d'.names.lookup name = some file ∧ d'.content file = some [] ∧
      (∀ name', name' ≠ name → d'.names.lookup name' = d.names.lookup name') ∧
      (∀ file', file' ≠ file → file' < d.files.length → d'.content file' = d.content file') ∧
      (d.names.lookup name = some file ∨ file = d.files.length) := by
  unfold createOrTruncate at h
  split at h
  · rename_i file' hold
    cases h
    refine ⟨hold, ?_, fun _ _ => rfl, fun _ hne _ => ?_, .inl hold⟩
    · exact List.getElem?_set_self (d.valid name file hold)
    · exact List.getElem?_set_ne hne.symm
  · cases h
    refine ⟨(lookup_setName name).trans (if_pos rfl), ?_, fun name' hne => ?_,
      fun _ _ hlt => List.getElem?_append_left hlt, .inr rfl⟩
    · exact List.getElem?_concat_length
    · exact (lookup_setName name').trans (if_neg hne)

theorem length_le_createOrTruncate {name : String} {file : ℕ} {d' : Directory}
    (h : d.createOrTruncate name = (file, d')) : d.files.length ≤ d'.files.length := by
  unfold createOrTruncate at h
  split at h
  · cases h
    rw [List.length_set]
  · cases h
    exact Nat.le_of_lt (by simp [setName, addFile])

theorem content_writeAt (file offset : ℕ) (b : Bytes) (file' : ℕ) :
    (d.writeAt file offset b).content file' =
      if file' = file then (d.content file').map (overwrite · offset b) else d.content file' := by
  unfold content writeAt
  rw [List.getElem?_modify]
  split_ifs with h h' h'
  · rfl
  · exact absurd h.symm h'
  · exact absurd h'.symm h
  · simp

/-- What is written over itself stays. -/
theorem overwrite_same {old b : Bytes} {offset : ℕ} (hb : b ≠ []) (h : b <+: old.drop offset) :
    overwrite old offset b = old := by
  obtain ⟨rest, hrest⟩ := h
  have hle : offset ≤ old.length := by
    by_contra hlt
    rw [List.drop_of_length_le (by omega), List.append_eq_nil_iff] at hrest
    exact hb hrest.1
  rw [overwrite, Nat.sub_eq_zero_of_le hle, List.replicate_zero, List.append_nil, ← List.drop_drop,
    ← hrest, List.drop_left, List.append_assoc, hrest, List.take_append_drop]

theorem overwrite_zero (b : Bytes) : overwrite [] 0 b = b := by simp [overwrite]

/-- What is written at the end of a content is appended. -/
theorem overwrite_length (old b : Bytes) : overwrite old old.length b = old ++ b := by
  simp [overwrite]

theorem take_of_writeSome {file : ℕ} {goal : Bytes} {n count : ℕ}
    (h : d.writeSome file goal n count = none) : goal.take n = goal := by
  simp only [writeSome] at h
  split_ifs at h with hrest
  exact List.take_of_length_le (List.drop_eq_nil_iff.1 hrest)

theorem writeSome_eq {file : ℕ} {goal : Bytes} {n n' count : ℕ} {d' : Directory}
    (h : d.writeSome file goal n count = some (d', n')) :
    d' = d.writeAt file n ((goal.drop n).take (max 1 count)) ∧
      (goal.drop n).take (max 1 count) ≠ [] := by
  simp only [writeSome] at h
  split_ifs at h with hrest
  cases h
  refine ⟨rfl, fun hnil => ?_⟩
  rcases List.take_eq_nil_iff.1 hnil with hzero | hdone
  · omega
  · exact hrest hdone

/-- A write of some of what is left is a write at the end of what is written. -/
theorem writeSome_eq_some {file : ℕ} {goal : Bytes} {n n' count : ℕ} {d' : Directory}
    (h : d.writeSome file goal n count = some (d', n')) :
    ∃ b, d' = d.writeAt file (goal.take n).length b ∧ goal.take n' = goal.take n ++ b := by
  simp only [writeSome] at h
  split_ifs at h with hrest
  cases h
  generalize hb : (goal.drop n).take (max 1 count) = b
  have hle : n ≤ goal.length := by
    by_contra hlt
    exact hrest (List.drop_eq_nil_iff.2 (by omega))
  have hpre : b <+: goal.drop n := hb ▸ List.take_prefix _ _
  refine ⟨b, by rw [List.length_take_of_le hle], ?_⟩
  rw [List.take_add, ← List.prefix_iff_eq_take.1 hpre]

theorem names_of_writeSome {file : ℕ} {goal : Bytes} {n n' count : ℕ} {d' : Directory}
    (h : d.writeSome file goal n count = some (d', n')) : d'.names = d.names := by
  obtain ⟨b, rfl, -⟩ := writeSome_eq_some h
  rfl

end Directory

end Tailcat
