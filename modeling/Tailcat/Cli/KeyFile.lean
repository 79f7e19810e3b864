import Tailcat.Lib.Directory

/-!
# Key files

`secure_write` puts a key into a file, in one of two ways: with `force` it writes a temporary file
and renames it over the old one, otherwise it creates the file and writes to it in its place.

* `secureWrite_force` : with `force` the file is replaced as a whole or not at all.
* `all_or_nothing_iff` : without, a file that was created and could not be written stays behind.

The operations may fail one by one, and a write may take a part only.  In the first way a failure is
one of the temporary file, and nothing else has the key's name until the rename.  In the second the
new file has the key's own name from the start, so the second result is about what fails: a part of
the key stays exactly if the file was created and what follows fails (`LeavesPart`).
-/

namespace Tailcat.Cli.KeyFile

/-! ### Writing -/

/-- What fails of a call. -/
structure Faults where
  /-- The time is before the epoch. -/
  clock : Bool := false
  /-- The file cannot be created, although there is none. -/
  create : Bool := false
  /-- Writing fails after so many bytes. -/
  write : Option ℕ := none
  sync : Bool := false
  rename : Bool := false
  /-- The temporary file cannot be removed. -/
  remove : Bool := false
  deriving DecidableEq, Repr

/-- The name of the temporary file for a name. -/
def temporaryName (name : String) (pid nanos : ℕ) : String :=
  String.ofList ('.' :: (name.toList ++ '.' :: (Nat.toDigits 10 pid ++ '.' ::
    (Nat.toDigits 10 nanos ++ ".tmp".toList))))

/-- `File::write_all` and `File::sync_all` of a new file, and whether both succeed. -/
def writeAll (f : Faults) (d : Directory) (file : ℕ) (bytes : Bytes) : Directory × Bool :=
  match f.write with
  | some n =>
    if n < bytes.length then (d.writeAt file 0 (bytes.take n), false)
    else (d.writeAt file 0 bytes, !f.sync)
  | none => (d.writeAt file 0 bytes, !f.sync)

/-- `OpenOptions::open` of a file that must not exist. -/
def openNew (f : Faults) (d : Directory) (name : String) : Option (ℕ × Directory) :=
  if f.create then none else d.createNew name

/-- `secure_write` without `force`. -/
def createInPlace (f : Faults) (d : Directory) (name : String) (bytes : Bytes) : Directory × Bool :=
  match openNew f d name with
  | none => (d, false)
  | some (file, d) => writeAll f d file bytes

/-- The temporary file is removed after an error. -/
def cleanUp (f : Faults) (d : Directory) (temporary : String) : Directory :=
  if f.remove then d else d.unlink temporary

/-- `secure_write` with `force`. -/
def replace (f : Faults) (d : Directory) (name temporary : String) (bytes : Bytes) :
    Directory × Bool :=
  match openNew f d temporary with
  | none => (cleanUp f d temporary, false)
  | some (file, d) =>
    let (d, written) := writeAll f d file bytes
    if !written then (cleanUp f d temporary, false)
    else
      match if f.rename then none else d.rename temporary name with
      | none => (cleanUp f d temporary, false)
      | some d => (d, true)

/-- `secure_write` of a path in a directory, and whether it succeeds; a path like `..` has no file
name, and is that of a directory. -/
def secureWrite (f : Faults) (pid nanos : ℕ) (d : Directory) (fileName : Option String)
    (bytes : Bytes) (force : Bool) : Directory × Bool :=
  match fileName with
  | none => (d, false)
  | some name =>
    if !force then createInPlace f d name bytes
    else if f.clock then (d, false)
    else replace f d name (temporaryName name pid nanos) bytes

/-! ### All or nothing -/

/-- What a path holds. -/
def contentOf (d : Directory) (fileName : Option String) : Option Bytes := fileName.bind d.read

/-- A call writes the file as a whole or leaves it as it was. -/
structure AllOrNothing (d : Directory) (fileName : Option String) (bytes : Bytes) (force : Bool)
    (r : Directory × Bool) : Prop where
  err : r.2 = false → contentOf r.1 fileName = contentOf d fileName
  ok : r.2 = true → contentOf r.1 fileName = some bytes
  kept : force = false → contentOf d fileName ≠ none →
    contentOf r.1 fileName = contentOf d fileName

/-- Writing or syncing a new file fails. -/
def Faults.Break (f : Faults) (bytes : Bytes) : Prop :=
  f.sync = true ∨ ∃ n, f.write = some n ∧ n < bytes.length

variable {f : Faults} {d d' : Directory} {name temporary : String} {file : ℕ} {bytes : Bytes}

theorem temporaryName_ne (name : String) (pid nanos : ℕ) : temporaryName name pid nanos ≠ name := by
  intro h
  have hlength := congrArg (fun s => s.toList.length) h
  simp only [temporaryName, String.toList_ofList, List.length_cons, List.length_append] at hlength
  omega

/-- What is in a new file, after it is written. -/
theorem writeAll_eq (f : Faults) (d : Directory) (file : ℕ) (bytes : Bytes) :
    ∃ b, (writeAll f d file bytes).1 = d.writeAt file 0 b ∧
      ((writeAll f d file bytes).2 = true → b = bytes) ∧
        ((writeAll f d file bytes).2 = false ↔ f.Break bytes) := by
  unfold writeAll Faults.Break
  cases f.write with
  | none =>
    refine ⟨bytes, rfl, fun _ => rfl, ?_⟩
    simp
  | some n =>
    by_cases hn : n < bytes.length
    · simp only [if_pos hn]
      refine ⟨bytes.take n, rfl, by simp, ?_⟩
      simp [hn]
    · simp only [if_neg hn]
      refine ⟨bytes, rfl, fun _ => rfl, ?_⟩
      simp [hn]

/-- A new file, after it is written, under its name. -/
theorem read_writeAt_createNew (h : d.createNew name = some (file, d')) (b : Bytes) :
    (d'.writeAt file 0 b).read name = some b := by
  obtain ⟨-, hfile, hnames, hfiles⟩ := Directory.createNew_eq_some h
  rw [Directory.read_eq_some]
  refine ⟨file, (hnames name).trans (if_pos rfl), ?_⟩
  rw [Directory.content_writeAt, if_pos rfl, Directory.content, hfiles, hfile]
  simp [Directory.overwrite_zero]

/-- The other names do not see it. -/
theorem read_writeAt_createNew_of_ne (h : d.createNew temporary = some (file, d'))
    (hne : name ≠ temporary) (b : Bytes) : (d'.writeAt file 0 b).read name = d.read name := by
  obtain ⟨-, hfile, hnames, hfiles⟩ := Directory.createNew_eq_some h
  have hlookup : (d'.writeAt file 0 b).names.lookup name = d.names.lookup name :=
    (hnames name).trans (if_neg hne)
  rw [Directory.read, Directory.read, hlookup]
  refine Option.bind_congr fun file' hfile' => ?_
  have hlt := d.valid name file' hfile'
  rw [Directory.content_writeAt, if_neg (by omega), Directory.content, hfiles,
    List.getElem?_append_left hlt]
  rfl

theorem read_cleanUp (hne : name ≠ temporary) : (cleanUp f d temporary).read name = d.read name := by
  unfold cleanUp
  split_ifs
  · rfl
  · rw [Directory.read, Directory.lookup_unlink, if_neg hne]
    rfl

/-- A path holds nothing if and only if there is no file. -/
theorem read_eq_none_iff : d.read name = none ↔ name ∉ d.names := by
  rw [Directory.notMem_names, Directory.read]
  constructor
  · intro h
    cases hfile : d.names.lookup name with
    | none => rfl
    | some file =>
      rw [hfile, Option.bind_some, Directory.content, List.getElem?_eq_none_iff] at h
      have hlt := d.valid name file hfile
      omega
  · intro h
    rw [h, Option.bind_none]

/-- What is renamed is read under its new name. -/
theorem read_rename (hd : d.rename temporary name = some d') (hne : name ≠ temporary) :
    d'.read name = d.read temporary := by
  obtain ⟨file, hfile, hnames, hfiles⟩ := Directory.rename_eq_some hd
  rw [Directory.read, Directory.read, hnames, if_neg hne, if_pos rfl, hfile, Option.bind_some,
    Option.bind_some, Directory.content, Directory.content, hfiles]

/-- **A replaced file is replaced as a whole or not at all.** -/
theorem secureWrite_force (f : Faults) (d : Directory) (hne : name ≠ temporary) (bytes : Bytes) :
    ((replace f d name temporary bytes).2 = false →
      (replace f d name temporary bytes).1.read name = d.read name) ∧
    ((replace f d name temporary bytes).2 = true →
      (replace f d name temporary bytes).1.read name = some bytes) := by
  unfold replace
  cases hopen : openNew f d temporary with
  | none => exact ⟨fun _ => read_cleanUp hne, fun h => by cases h⟩
  | some opened =>
    obtain ⟨file, d₁⟩ := opened
    have hcreate : d.createNew temporary = some (file, d₁) := by
      unfold openNew at hopen
      split_ifs at hopen
      exact hopen
    obtain ⟨b, hwritten, hwhole, -⟩ := writeAll_eq f d₁ file bytes
    have hsame : (writeAll f d₁ file bytes).1.read name = d.read name := by
      rw [hwritten, read_writeAt_createNew_of_ne hcreate hne]
    dsimp only
    by_cases hok : (writeAll f d₁ file bytes).2 = true
    · rw [hok, Bool.not_true, if_neg Bool.false_ne_true]
      cases hrename : (if f.rename = true then none
          else (writeAll f d₁ file bytes).1.rename temporary name) with
      | none => exact ⟨fun _ => (read_cleanUp hne).trans hsame, fun h => by cases h⟩
      | some d₂ =>
        refine ⟨fun h => (by cases h), fun _ => ?_⟩
        split_ifs at hrename
        rw [read_rename hrename hne, hwritten, read_writeAt_createNew hcreate, hwhole hok]
    · rw [Bool.not_eq_true] at hok
      rw [hok, Bool.not_false, if_pos rfl]
      exact ⟨fun _ => (read_cleanUp hne).trans hsame, fun h => by cases h⟩

/-- The call creates the file in its place, and cannot write it. -/
def LeavesPart (f : Faults) (d : Directory) (fileName : Option String) (bytes : Bytes)
    (force : Bool) : Prop :=
  force = false ∧ fileName ≠ none ∧ contentOf d fileName = none ∧ f.create = false ∧ f.Break bytes

/-- **Keys are written all or nothing** unless a file is created in its place and cannot be
written. -/
theorem all_or_nothing_iff (f : Faults) (pid nanos : ℕ) (d : Directory) (fileName : Option String)
    (bytes : Bytes) (force : Bool) :
    AllOrNothing d fileName bytes force (secureWrite f pid nanos d fileName bytes force) ↔
      ¬LeavesPart f d fileName bytes force := by
  cases fileName with
  | none =>
    refine iff_of_true ⟨fun _ => rfl, fun h => (by cases h), fun _ _ => rfl⟩ fun h => h.2.1 rfl
  | some name =>
  cases force with
  | true =>
    refine iff_of_true ?_ fun h => by cases h.1
    simp only [secureWrite, Bool.not_true, Bool.false_eq_true, if_false]
    split_ifs
    · exact ⟨fun _ => rfl, fun h => (by cases h), fun h => by cases h⟩
    · obtain ⟨herr, hok⟩ :=
        secureWrite_force f d (temporaryName_ne name pid nanos).symm bytes
      exact ⟨herr, hok, fun h => by cases h⟩
  | false =>
    simp only [secureWrite, Bool.not_false, if_true, createInPlace]
    cases hopen : openNew f d name with
    | none =>
      refine iff_of_true ⟨fun _ => rfl, fun h => (by cases h), fun _ _ => rfl⟩ ?_
      rintro ⟨-, -, habsent, hcreate, -⟩
      rw [openNew, hcreate, if_neg Bool.false_ne_true, Directory.createNew,
        if_neg (read_eq_none_iff.1 habsent)] at hopen
      cases hopen
    | some opened =>
      obtain ⟨file, d₁⟩ := opened
      have hcreate : f.create = false ∧ d.createNew name = some (file, d₁) := by
        unfold openNew at hopen
        split_ifs at hopen with h
        exact ⟨Bool.not_eq_true _ ▸ h, hopen⟩
      have habsent : contentOf d (some name) = none :=
        read_eq_none_iff.2 (Directory.notMem_names.2 (Directory.createNew_eq_some hcreate.2).1)
      obtain ⟨b, hwritten, hwhole, hbreak⟩ := writeAll_eq f d₁ file bytes
      have hread : contentOf (writeAll f d₁ file bytes).1 (some name) = some b := by
        rw [contentOf, Option.bind_some, hwritten, read_writeAt_createNew hcreate.2]
      constructor
      · intro h hleaves
        -- the file is there after an error, and was not before
        have herr := h.err (hbreak.2 hleaves.2.2.2.2)
        rw [hread, habsent] at herr
        cases herr
      · intro h
        have hok : ¬(writeAll f d₁ file bytes).2 = false := fun herr =>
          h ⟨rfl, by simp, habsent, hcreate.1, hbreak.1 herr⟩
        refine ⟨fun herr => absurd herr hok, fun hok => ?_, fun _ hthere => absurd habsent hthere⟩
        rw [hread, hwhole hok]

/-- A key of which two bytes can be written. -/
def fullDisk : Faults := { write := some 2 }

/-- A part of the key stays behind. -/
theorem part_of_key_left :
    (secureWrite fullDisk 7 0 {} (some "key.json") (ascii "key") false).2 = false ∧
    contentOf {} (some "key.json") = none ∧
    contentOf (secureWrite fullDisk 7 0 {} (some "key.json") (ascii "key") false).1
      (some "key.json") = some (ascii "ke") := by
  decide +kernel

end Tailcat.Cli.KeyFile
