import Tailcat.Lib.Program
import Mathlib.Logic.Function.Basic
import Mathlib.Data.Nat.Bitwise

/-!
# A filesystem

Objects, known by their inode numbers, are files, directories or symbolic links with their
attributes (times in seconds since the epoch).  A path is a list of
components; `walk` resolves one, from the root of the filesystem or confined below a directory.
The system calls are programs on the state `Fs` that answer or fail with an `Errno`.

* A call may fail for reasons of its own (no space, no permission, an input error): the list
  `faults` says which calls do, and how far a write gets before it fails.
* Reading records the access time as the mount decides (`Host.records`); following a symbolic
  link reads it.
* Inode numbers are given out in order (`Fs.next`) and never again.
-/

namespace Posix

open Program

/-! ### Objects -/

/-- The components of a path. -/
abbrev Path := List String

/-- Why a call failed. -/
inductive Errno where
  | noent | acces | exist | notdir | isdir | loop | notempty | inval | notsup | io
  deriving DecidableEq, Repr

/-- Permissions, owner and times. -/
structure Attr where
  mode : ℕ
  uid : ℕ
  gid : ℕ
  atime : ℤ
  mtime : ℤ
  ctime : ℤ
  deriving DecidableEq, Repr

/-- What an object is. -/
inductive Kind where
  | file (data : List UInt8)
  | dir (parent : ℕ) (entries : List (String × ℕ))
  | symlink (target : String)
  deriving DecidableEq, Repr

/-- An object. -/
structure Node where
  kind : Kind
  attr : Attr
  deriving DecidableEq, Repr

/-- The options of the mount and of the process. -/
structure Host where
  /-- Is a read at a time recorded? -/
  records : Attr → ℤ → Bool
  /-- The length of a directory. -/
  dirSize : List (String × ℕ) → ℕ
  /-- What the filesystem says about itself. -/
  statfs : List UInt8
  umask : ℕ
  uid : ℕ
  gid : ℕ

/-- A call fails, after a number of bytes if it writes. -/
structure Fault where
  errno : Errno
  written : ℕ

/-- A filesystem. -/
structure Fs where
  /-- The objects. -/
  node : ℕ → Option Node
  /-- The next number. -/
  next : ℕ
  /-- Numbers from `next` on are free. -/
  fresh : ∀ i, next ≤ i → node i = none
  /-- The root directory. -/
  slash : ℕ
  host : Host
  clock : ℤ
  /-- Which of the next calls fail. -/
  faults : List (Option Fault)

/-- A system call. -/
abbrev FsM := EStateM Errno Fs

namespace Fs

/-- What an object is. -/
def kind (fs : Fs) (i : ℕ) : Option Kind := (fs.node i).map Node.kind

/-- The entry of a directory. -/
def child (fs : Fs) (d : ℕ) (name : String) : Option ℕ :=
  match fs.kind d with
  | some (.dir parent entries) => if name = ".." then some parent else entries.lookup name
  | _ => none

/-! ### Elementary changes -/

/-- The filesystem of a list of objects, the first of which is the root directory. -/
def ofList (nodes : List Node) (host : Host) : Fs where
  node i := nodes[i]?
  next := nodes.length
  fresh _ h := List.getElem?_eq_none h
  slash := 0
  host := host
  clock := 0
  faults := []

/-- Change one object. -/
def update (fs : Fs) (i : ℕ) (f : Node → Node) : Fs :=
  { fs with
    node := fun j => if j = i then (fs.node j).map f else fs.node j
    fresh := fun j hj => by
      split_ifs
      · rw [fs.fresh j hj, Option.map_none]
      · exact fs.fresh j hj }

/-- Add an object. -/
def add (fs : Fs) (n : Node) : Fs :=
  { fs with
    node := fun j => if j = fs.next then some n else fs.node j
    next := fs.next + 1
    fresh := fun j (hj : fs.next + 1 ≤ j) => by
      rw [if_neg (by omega)]
      exact fs.fresh j (by omega) }

/-- An access recorded. -/
def accessed (host : Host) (clock : ℤ) (n : Node) : Node :=
  if host.records n.attr clock then { n with attr := { n.attr with atime := clock } } else n

/-- Read an object. -/
def access (fs : Fs) (i : ℕ) : Fs := fs.update i (accessed fs.host fs.clock)

/-- A change recorded. -/
def changed (clock : ℤ) (n : Node) : Node :=
  { n with attr := { n.attr with mtime := clock, ctime := clock } }

/-- Change the entries of a directory. -/
def setEntries (fs : Fs) (d : ℕ) (f : List (String × ℕ) → List (String × ℕ)) : Fs :=
  fs.update d fun n => match n.kind with
    | .dir parent entries => changed fs.clock { n with kind := .dir parent (f entries) }
    | _ => n

end Fs

/-! ### Paths -/

/-- Where a path is resolved: below a directory, or in the whole filesystem. -/
inductive Base where
  | within (root : ℕ)
  | ambient
  deriving DecidableEq

/-- The directory a path starts at. -/
def Base.start (fs : Fs) : Base → ℕ
  | within root => root
  | ambient => fs.slash

/-- Where a path leads: to an object, or to a missing entry of a directory. -/
inductive Target where
  | found (i : ℕ)
  | missing (dir : ℕ) (name : String)
  deriving DecidableEq

/-- Is a component one that stays in its directory? -/
def isDot (name : String) : Bool := name = "." || name = ""

/-- The limit on symbolic links in a path. -/
def maxLinks : ℕ := 40

/-- The components of the text of a symbolic link. -/
def linkPath (target : String) : Path := (target.toList.splitOn '/').map String.ofList

/-- The result of a walk, and the symbolic links followed. -/
abbrev Walked := List ℕ × Except Errno Target

section Walk

variable (fs : Fs) (base : Base)

/-- Follow the text of a symbolic link in a directory: a confined path must not leave. -/
def follow (jump : ℕ → Path → Walked) (cur : ℕ) (target : String) (rest : Path) : Walked :=
  if target.toList.head? = some '/' then
    match base with
    | .within _ => ([], .error .acces)
    | .ambient => jump fs.slash (linkPath target ++ rest)
  else jump cur (linkPath target ++ rest)

/-- A path ends at a missing entry, or in an error if it goes on. -/
def absent (cur : ℕ) (name : String) (rest : Path) : Except Errno Target :=
  if rest = [] then .ok (.missing cur name) else .error .noent

/-- Resolve a path from a directory, `jump` being what to do behind a symbolic link. -/
def walkFrom (jump : ℕ → Path → Walked) : ℕ → Path → Walked
  | cur, [] => ([], .ok (.found cur))
  | cur, name :: rest =>
    match fs.kind cur with
    | some (.dir parent entries) =>
      if isDot name then walkFrom jump cur rest
      else if name = ".." then
        if base = .within cur then ([], .error .acces) else walkFrom jump parent rest
      else
        match entries.lookup name with
        | none => ([], absent cur name rest)
        | some i =>
          match fs.kind i with
          | none => ([], .error .noent)
          | some (.symlink target) =>
            let r := follow fs base jump cur target rest
            (i :: r.1, r.2)
          | some _ => walkFrom jump i rest
    | _ => ([], .error .notdir)

/-- Resolve a path from a directory through at most a number of symbolic links. -/
def walk : ℕ → ℕ → Path → Walked
  | 0 => walkFrom fs base fun _ _ => ([], .error .loop)
  | n + 1 => walkFrom fs base (walk n)

variable {fs base} {jump : ℕ → Path → Walked} {cur parent : ℕ} {entries : List (String × ℕ)}
  {name : String} {rest : Path}

theorem walkFrom_notdir (h : ∀ parent entries, fs.kind cur ≠ some (.dir parent entries)) :
    walkFrom fs base jump cur (name :: rest) = ([], .error .notdir) := by
  unfold walkFrom
  split
  · exact absurd ‹_› (h _ _)
  · rfl

theorem walkFrom_dot (h : fs.kind cur = some (.dir parent entries)) (hd : isDot name) :
    walkFrom fs base jump cur (name :: rest) = walkFrom fs base jump cur rest := by
  rw [walkFrom, h]
  exact if_pos hd

theorem walkFrom_up (h : fs.kind cur = some (.dir parent entries)) :
    walkFrom fs base jump cur (".." :: rest) =
      if base = .within cur then ([], .error .acces) else walkFrom fs base jump parent rest := by
  rw [walkFrom, h]
  rfl

/-- At an ordinary name. -/
theorem walkFrom_name (h : fs.kind cur = some (.dir parent entries)) (hd : ¬isDot name)
    (hu : name ≠ "..") :
    walkFrom fs base jump cur (name :: rest) =
      match entries.lookup name with
      | none => ([], absent cur name rest)
      | some i =>
        match fs.kind i with
        | none => ([], .error .noent)
        | some (.symlink target) =>
          (i :: (follow fs base jump cur target rest).1, (follow fs base jump cur target rest).2)
        | some _ => walkFrom fs base jump i rest := by
  rw [walkFrom, h]
  simp only [if_neg hd, if_neg hu]

end Walk

/-! ### Calls that read -/

/-- The outcome of a call with no effect. -/
def ofExcept {α : Type} : Except Errno α → FsM α
  | .ok a => pure a
  | .error e => throw e

/-- The fault of the next call. -/
def nextFault : FsM (Option Fault) :=
  modifyGet fun fs => (fs.faults.headD none, { fs with faults := fs.faults.tail })

/-- The next call may fail. -/
def enter : FsM Unit := do
  match ← nextFault with
  | some fault => throw fault.errno
  | none => pure ()

/-- Resolve a path. -/
def resolve (base : Base) (path : Path) : FsM Target := do
  let fs ← get
  let r := walk fs base maxLinks (base.start fs) path
  modify fun fs => r.1.foldl Fs.access fs
  ofExcept r.2

/-- The object at the end of a path. -/
def resolveIno (base : Base) (path : Path) : FsM ℕ := do
  match ← resolve base path with
  | .found i => pure i
  | .missing _ _ => throw .noent

/-- The directory at the end of a path. -/
def resolveDir (base : Base) (path : Path) : FsM ℕ := do
  let i ← resolveIno base path
  match (← get).kind i with
  | some (.dir _ _) => pure i
  | _ => throw .notdir

/-- The path of the directory of an entry, and its name. -/
def splitLast (path : Path) : Option (Path × String) :=
  path.getLast?.map fun name => (path.dropLast, name)

/-- The object at the end of a path, a symbolic link there not being followed. -/
def lookupLast (base : Base) (path : Path) : FsM ℕ := do
  match splitLast path with
  | none => return base.start (← get)
  | some (parent, name) =>
    let d ← resolveDir base parent
    match (← get).child d name with
    | some i => pure i
    | none => throw .noent

/-- An open object. -/
def nodeOf (i : ℕ) : FsM Node := do
  match (← get).node i with
  | some n => pure n
  | none => throw .noent

theorem nodeOf_of_some {fs : Fs} {i : ℕ} {n : Node} (h : fs.node i = some n) :
    nodeOf i fs = .ok n fs := by
  unfold nodeOf
  refine (bind_ok rfl _).trans ?_
  simp only [h]
  rfl

theorem nodeOf_of_none {fs : Fs} {i : ℕ} (h : fs.node i = none) :
    nodeOf i fs = .error .noent fs := by
  unfold nodeOf
  refine (bind_ok rfl _).trans ?_
  simp only [h]
  rfl

/-- `stat` and `lstat`. -/
def stat (base : Base) (path : Path) (follow : Bool) : FsM Node := do
  enter
  let i ← if follow then resolveIno base path else lookupLast base path
  nodeOf i

/-- `fstat`. -/
def fstat (i : ℕ) : FsM Node := do
  enter
  nodeOf i

/-- `lseek` and `read`. -/
def read (i : ℕ) (offset len : ℕ) : FsM (List UInt8) := do
  require (offset < 2 ^ 63) .inval
  enter
  match (← nodeOf i).kind with
  | .file data =>
    modify fun fs => fs.access i
    return (data.drop offset).take len
  | .dir _ _ => throw .isdir
  | .symlink _ => throw .inval

/-- `opendir` and `readdir`: the names in a directory. -/
def readDir (base : Base) (path : Path) : FsM (List String) := do
  enter
  let d ← resolveDir base path
  modify fun fs => fs.access d
  match (← nodeOf d).kind with
  | .dir _ entries => return entries.map Prod.fst
  | _ => throw .notdir

/-- `readlink`. -/
def readLink (base : Base) (path : Path) : FsM String := do
  enter
  let i ← lookupLast base path
  match (← nodeOf i).kind with
  | .symlink target =>
    modify fun fs => fs.access i
    return target
  | _ => throw .inval

/-- `fsync`. -/
def fsync (_i : ℕ) : FsM Unit := enter

/-- `statvfs`. -/
def statvfs (base : Base) (path : Path) : FsM (List UInt8) := do
  enter
  let _ ← resolveIno base path
  return (← get).host.statfs

/-! ### Calls that create -/

/-- The attributes of a new object. -/
def Fs.newAttr (fs : Fs) (mode : ℕ) : Attr where
  mode := mode &&& (0o7777 ^^^ fs.host.umask)
  uid := fs.host.uid
  gid := fs.host.gid
  atime := fs.clock
  mtime := fs.clock
  ctime := fs.clock

/-- Add an object to a directory. -/
def Fs.create (fs : Fs) (d : ℕ) (name : String) (kind : Kind) (mode : ℕ) : Fs :=
  (fs.add ⟨kind, fs.newAttr mode⟩).setEntries d fun entries => entries ++ [(name, fs.next)]

/-- A new object in a directory. -/
def create (d : ℕ) (name : String) (kind : Kind) (mode : ℕ) : FsM ℕ :=
  modifyGet fun fs => (fs.next, fs.create d name kind mode)

/-- The directory and the name of an entry to be made, which must not be there. -/
def vacant (base : Base) (path : Path) : FsM (ℕ × String) := do
  match splitLast path with
  | none => throw .exist
  | some (parent, name) =>
    let d ← resolveDir base parent
    let fs ← get
    require (isDot name = false ∧ fs.child d name = none) .exist
    return (d, name)

/-- A new object at a path where there is none; what it is may depend on its directory. -/
def createNew (base : Base) (path : Path) (kind : ℕ → Kind) (mode : ℕ) : FsM ℕ := do
  let (d, name) ← vacant base path
  create d name (kind d) mode

/-- `mkdir`. -/
def mkdir (base : Base) (path : Path) (mode : ℕ) : FsM Unit := do
  enter
  let _ ← createNew base path (fun d => .dir d []) mode

/-- `symlink`. -/
def symlink (base : Base) (target : String) (path : Path) : FsM Unit := do
  enter
  let _ ← createNew base path (fun _ => .symlink target) 0o777

/-- Change the length of a file. -/
def Fs.setLen (fs : Fs) (i len : ℕ) : Fs :=
  fs.update i fun n => match n.kind with
    | .file data =>
      changed fs.clock
        { n with kind := .file (data.take len ++ List.replicate (len - data.length) 0) }
    | _ => n

/-- How a file is opened. -/
structure OpenOptions where
  read : Bool := false
  write : Bool := false
  append : Bool := false
  create : Bool := false
  truncate : Bool := false
  createNew : Bool := false

/-- Do the options make sense together? -/
def OpenOptions.valid (o : OpenOptions) : Bool :=
  (o.read || o.write || o.append) &&
    (if o.append then !o.truncate || o.createNew
      else o.write || !(o.truncate || o.create || o.createNew))

/-- `open`. -/
def openFile (base : Base) (path : Path) (o : OpenOptions) (mode : ℕ) : FsM ℕ := do
  require o.valid .inval
  enter
  if o.createNew then createNew base path (fun _ => .file []) mode
  else
    match ← resolve base path with
    | .missing d name => if o.create then create d name (.file []) mode else throw .noent
    | .found i =>
      match (← nodeOf i).kind with
      | .dir _ _ =>
        require (!(o.write || o.append || o.create || o.truncate)) .isdir
        return i
      | .symlink _ => throw .loop
      | .file _ =>
        modify fun fs => if o.truncate then fs.setLen i 0 else fs
        return i

/-! ### Calls that change an object -/

/-- Bytes written over a file. -/
def overwrite (data : List UInt8) (offset : ℕ) (bytes : List UInt8) : List UInt8 :=
  data.take offset ++ List.replicate (offset - data.length) 0 ++ bytes ++
    data.drop (offset + bytes.length)

/-- Write some bytes of a file. -/
def Fs.put (fs : Fs) (i : ℕ) (append : Bool) (offset : ℕ) (bytes : List UInt8) : Fs :=
  if bytes = [] then fs
  else fs.update i fun n => match n.kind with
    | .file data =>
      changed fs.clock
        { n with kind := .file (overwrite data (if append then data.length else offset) bytes) }
    | _ => n

/-- `lseek` and `write`, until all is written. -/
def write (i : ℕ) (append : Bool) (offset : ℕ) (bytes : List UInt8) : FsM Unit := do
  require (offset < 2 ^ 63) .inval
  match ← nextFault with
  | some fault =>
    modify fun fs => fs.put i append offset (bytes.take fault.written)
    throw fault.errno
  | none => modify fun fs => fs.put i append offset bytes

/-- Change the attributes of an object. -/
def Fs.setAttr (fs : Fs) (i : ℕ) (f : Attr → Attr) : Fs :=
  fs.update i fun n => { n with attr := { f n.attr with ctime := fs.clock } }

/-- `fchmod`. -/
def fchmod (i : ℕ) (mode : ℕ) : FsM Unit := do
  enter
  modify fun fs => fs.setAttr i fun a => { a with mode }

/-- `futimens`. -/
def futimes (i : ℕ) (atime mtime : Option ℤ) : FsM Unit := do
  enter
  modify fun fs => fs.setAttr i fun a =>
    { a with atime := atime.getD a.atime, mtime := mtime.getD a.mtime }

/-- `fchown`. -/
def fchown (i : ℕ) (uid gid : Option ℕ) : FsM Unit := do
  enter
  modify fun fs => fs.setAttr i fun a => { a with uid := uid.getD a.uid, gid := gid.getD a.gid }

/-- `ftruncate`. -/
def ftruncate (i : ℕ) (len : ℕ) : FsM Unit := do
  require (len < 2 ^ 63) .inval
  enter
  match (← nodeOf i).kind with
  | .file _ => modify fun fs => fs.setLen i len
  | _ => throw .inval

/-- `chmod`. -/
def chmod (base : Base) (path : Path) (mode : ℕ) : FsM Unit := do
  fchmod (← resolveIno base path) mode

/-- `utimensat`. -/
def utimes (base : Base) (path : Path) (atime mtime : Option ℤ) : FsM Unit := do
  futimes (← resolveIno base path) atime mtime

/-- `chown`. -/
def chown (base : Base) (path : Path) (uid gid : Option ℕ) : FsM Unit := do
  fchown (← resolveIno base path) uid gid

/-! ### Calls that change entries -/

/-- The directory, the name and the object of an entry. -/
def entryAt (base : Base) (path : Path) : FsM (ℕ × String × Node) := do
  match splitLast path with
  | none => throw .inval
  | some (parent, name) =>
    let d ← resolveDir base parent
    require (name ≠ "..") .inval
    match (← get).child d name with
    | some i => return (d, name, ← nodeOf i)
    | none => throw .noent

/-- Entries without a name. -/
def without (name : String) (entries : List (String × ℕ)) : List (String × ℕ) :=
  entries.filter fun e => e.1 ≠ name

/-- `unlink`. -/
def unlink (base : Base) (path : Path) : FsM Unit := do
  enter
  let (d, name, n) ← entryAt base path
  match n.kind with
  | .dir _ _ => throw .isdir
  | _ => modify fun fs => fs.setEntries d (without name)

/-- `rmdir`. -/
def rmdir (base : Base) (path : Path) : FsM Unit := do
  enter
  let (d, name, n) ← entryAt base path
  match n.kind with
  | .dir _ [] => modify fun fs => fs.setEntries d (without name)
  | .dir _ _ => throw .notempty
  | _ => throw .notdir

/-- `link`. -/
def link (base : Base) (source path : Path) : FsM Unit := do
  enter
  let i ← lookupLast base source
  match (← nodeOf i).kind with
  | .dir _ _ => throw .acces
  | _ =>
    let (d, name) ← vacant base path
    modify fun fs => (fs.setEntries d fun entries => entries ++ [(name, i)]).setAttr i id

/-- Is `d` the directory `i` or below it?  (`n` bounds the climb.) -/
def Fs.below (fs : Fs) (i : ℕ) : ℕ → ℕ → Bool
  | 0, _ => false
  | n + 1, d => d = i || (fs.child d "..").any fun p => p ≠ d && below fs i n p

/-- May an object take the place of another? -/
def replaceable : Kind → Option Kind → Except Errno Unit
  | _, none => .ok ()
  | .dir _ _, some (.dir _ []) => .ok ()
  | .dir _ _, some (.dir _ _) => .error .notempty
  | .dir _ _, some _ => .error .notdir
  | _, some (.dir _ _) => .error .isdir
  | _, some _ => .ok ()

/-- Give a directory a parent. -/
def setParent (parent : ℕ) (n : Node) : Node :=
  match n.kind with
  | .dir _ entries => { n with kind := .dir parent entries }
  | _ => n

/-- `rename`. -/
def rename (base : Base) (old new : Path) : FsM Unit := do
  enter
  match splitLast old, splitLast new with
  | some (oldParent, oldName), some (newParent, newName) =>
    let d ← resolveDir base oldParent
    let d' ← resolveDir base newParent
    require (oldName ≠ ".." ∧ newName ≠ ".." ∧ isDot newName = false) .inval
    let fs ← get
    match fs.child d oldName with
    | none => throw .noent
    | some i =>
      if fs.child d' newName = some i then return
      let n ← nodeOf i
      ofExcept (replaceable n.kind ((fs.child d' newName).bind fs.kind))
      require (fs.below i fs.next d' = false) .inval
      modify fun fs => fs.setEntries d (without oldName)
      modify fun fs => fs.setEntries d' fun entries => without newName entries ++ [(newName, i)]
      modify fun fs => (fs.update i (setParent d')).setAttr i id
  | _, _ => throw .inval

end Posix
