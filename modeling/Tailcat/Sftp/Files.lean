import Tailcat.Sftp.Path
import Mathlib.Data.List.Sort

/-!
# The file service

A session of the file service (`Files`) serves a directory in one of four modes, or the whole
filesystem.  `dispatch` answers one request; `process` turns its errors into status replies, and
`run` processes a sequence of requests.

A session with a mode other than read-write always has a root (`Files.rooted`): without one it is
the file service of a shell.

The filesystem is part of the session's state, and a request is a program over it that may fail with
a status; the calls of the system are those of `Lib.Posix`, with their error codes.  What the source
reads of its surroundings is an argument of each request: the time of day and a random number
(`Env`).  Functions have the names of the source's, and the cases of `answer` its order, since some
requests are tried before the mode is looked at.

The module ends with the facts that every other module about sessions uses: how an error becomes a
status reply, that a call of the system leaves the session alone, and how a run is put together.
-/

namespace Tailcat.Sftp

open Posix (Path Base Fs FsM Node Errno)
open Program (require)

/-! ### Sessions -/

/-- What a share permits. -/
inductive FileMode where
  | readOnly | readWrite | writeOnly | writeOnlyPlus
  deriving DecidableEq, Repr

/-- `FileMode::write_only`. -/
def FileMode.isWriteOnly (mode : FileMode) : Bool := mode = .writeOnly || mode = .writeOnlyPlus

/-- The flags of an open request. -/
structure OpenFlags where
  read : Bool := false
  write : Bool := false
  append : Bool := false
  create : Bool := false
  truncate : Bool := false
  exclude : Bool := false
  deriving DecidableEq, Repr

/-- The attributes of a file in requests and replies. -/
structure FileAttributes where
  size : Option UInt64 := none
  uid : Option UInt32 := none
  gid : Option UInt32 := none
  permissions : Option UInt32 := none
  atime : Option UInt32 := none
  mtime : Option UInt32 := none
  deriving DecidableEq, Repr

/-- The type bits of a directory. -/
def dirBit : UInt32 := 0o040000

/-- `FileAttributes::is_dir`. -/
def FileAttributes.isDir (a : FileAttributes) : Bool := (a.permissions.getD 0) &&& dirBit = dirBit

/-- A named entry of a reply. -/
structure File where
  filename : String
  attrs : FileAttributes
  deriving DecidableEq, Repr

/-- What a handle stands for. -/
inductive OpenHandle where
  | file (ino : ℕ) (append readable writable : Bool)
  | directory (entries : List File) (next : ℕ)
  deriving DecidableEq, Repr

/-- What a session was opened with: the directory it is confined to, if any, the home directory
and the mode. -/
structure Files where
  root : Option ℕ
  home : Path
  mode : FileMode
  /-- Only a read-write session may have no root. -/
  rooted : root = none → mode = .readWrite

/-- The state of a session, and the filesystem. -/
structure Session where
  fs : Fs
  /-- The requested paths of the session's own creations, and where these are. -/
  wrote : List (Path × Path)
  handles : List (String × OpenHandle)
  nextHandle : ℕ
  initialized : Bool

/-- A new session. -/
def Session.new (fs : Fs) : Session := ⟨fs, [], [], 0, false⟩

/-- What a request finds when it is processed: the time, as seconds and as text, and the random
number drawn. -/
structure Env where
  clock : ℤ
  stamp : String
  random : UInt64

/-- The session of a share. -/
def Files.ofShare (root : ℕ) (mode : FileMode) : Files := ⟨some root, [], mode, nofun⟩

/-- The handling of a request. -/
abbrev FxM := EStateM StatusCode Session

/-- A system call. -/
def attempt {α : Type} (m : FsM α) : FxM (Except Errno α) := fun s =>
  match m s.fs with
  | .ok a fs => .ok (.ok a) { s with fs }
  | .error e fs => .ok (.error e) { s with fs }

/-- The outcome of a computation without effects. -/
def ofExcept {α : Type} : Except StatusCode α → FxM α
  | .ok a => pure a
  | .error e => throw e

/-- A system call whose failure ends the request. -/
def call {α : Type} (m : FsM α) : FxM α := do
  match ← attempt m with
  | .ok a => pure a
  | .error e => throw (status e)

theorem call_eq {α : Type} (m : FsM α) (s : Session) :
    call m s = match m s.fs with
      | .ok a fs => .ok a { s with fs }
      | .error e fs => .error (status e) { s with fs } := by
  change EStateM.bind (attempt m) _ s = _
  unfold EStateM.bind attempt
  cases m s.fs <;> rfl

/-- What holds of the end of a system call holds of the outcome and the filesystem then. -/
theorem ends_attempt {α : Type} {m : FsM α} {s : Session} {P : α → Fs → Prop}
    {E : Errno → Fs → Prop} (h : Program.Ends P E (m s.fs)) :
    Program.Ends (fun r s' => ∃ fs, s' = { s with fs } ∧ match r with
        | .ok a => P a fs
        | .error e => E e fs)
      (fun _ _ => False) (attempt m s) := by
  unfold attempt
  cases hr : m s.fs with
  | ok a fs =>
    rw [hr] at h
    exact ⟨fs, rfl, h⟩
  | error e fs =>
    rw [hr] at h
    exact ⟨fs, rfl, h⟩

theorem ends_call {α : Type} {m : FsM α} {s : Session} {P : α → Fs → Prop}
    {E : Errno → Fs → Prop} (h : Program.Ends P E (m s.fs)) :
    Program.Ends (fun a s' => ∃ fs, s' = { s with fs } ∧ P a fs)
      (fun code s' => ∃ fs e, code = status e ∧ s' = { s with fs } ∧ E e fs) (call m s) := by
  rw [call_eq]
  cases hr : m s.fs with
  | ok a fs =>
    rw [hr] at h
    exact ⟨fs, rfl, h⟩
  | error e fs =>
    rw [hr] at h
    exact ⟨fs, e, rfl, rfl, h⟩

theorem status_ne_ok (e : Errno) : status e ≠ .ok := by
  cases e <;> decide

/-- A call that fails does not answer that all went well. -/
theorem ends_call_ne {α : Type} {m : FsM α} {s : Session} {P : α → Fs → Prop}
    (h : Program.Ends P (fun _ _ => True) (m s.fs)) :
    Program.Ends (fun a s' => ∃ fs, s' = { s with fs } ∧ P a fs) (fun code _ => code ≠ .ok)
      (call m s) :=
  (ends_call h).mono (fun _ _ h => h) fun _ _ h => by
    obtain ⟨_, e, rfl, -⟩ := h
    exact status_ne_ok e

/-! ### Requests and replies -/

/-- A request. -/
inductive Request where
  | init
  | open (filename : String) (flags : OpenFlags)
  | close (handle : String)
  | read (handle : String) (offset : UInt64) (len : UInt32)
  | write (handle : String) (offset : UInt64) (data : Bytes)
  | fstat (handle : String)
  | stat (path : String)
  | lstat (path : String)
  | setStat (path : String) (attrs : FileAttributes)
  | fSetStat (handle : String) (attrs : FileAttributes)
  | openDir (path : String)
  | readDir (handle : String)
  | realPath (path : String)
  | mkDir (path : String)
  | remove (filename : String)
  | rmDir (path : String)
  | rename (oldpath newpath : String)
  | readLink (path : String)
  | symlink (linkpath targetpath : String)
  | extended (request : String) (data : Bytes)
  /-- A packet that is not a request. -/
  | other
  deriving DecidableEq

/-- A reply. -/
inductive Reply where
  | version (extensions : List (String × String))
  | handle (handle : String)
  | data (data : Bytes)
  | name (files : List File)
  | attrs (attrs : FileAttributes)
  | extendedReply (data : Bytes)
  | status (code : StatusCode)
  deriving DecidableEq

/-! ### Metadata -/

/-- Seconds as SFTP has them. -/
def seconds (t : ℤ) : UInt32 := UInt32.ofNat t.toNat

/-- The length and the type bits of an object. -/
def sizeAndType (host : Posix.Host) : Posix.Kind → ℕ × UInt32
  | .file data => (data.length, 0o100000)
  | .dir _ entries => (host.dirSize entries, dirBit)
  | .symlink target => (target.utf8ByteSize, 0o120000)

/-- The attributes of an object. -/
def attributes (host : Posix.Host) (n : Node) : FileAttributes where
  size := some (UInt64.ofNat (sizeAndType host n.kind).1)
  uid := some (UInt32.ofNat n.attr.uid)
  gid := some (UInt32.ofNat n.attr.gid)
  permissions := some ((sizeAndType host n.kind).2 ||| UInt32.ofNat (n.attr.mode % 0o10000))
  atime := some (seconds n.attr.atime)
  mtime := some (seconds n.attr.mtime)

theorem dirBit_or (bits : UInt32) : (dirBit ||| bits) &&& dirBit = dirBit := by
  apply UInt32.eq_of_toBitVec_eq
  rw [UInt32.toBitVec_and, UInt32.toBitVec_or]
  ext i hi
  simp only [BitVec.getElem_and, BitVec.getElem_or]
  cases dirBit.toBitVec[i] <;> cases bits.toBitVec[i] <;> rfl

/-- Permissions have no type bits. -/
theorem not_dirBit {type : UInt32} (ht : type.toBitVec.getLsbD 14 = false) (mode : ℕ) :
    (type ||| UInt32.ofNat (mode % 0o10000)) &&& dirBit ≠ dirBit := by
  intro h
  have hbit := congrArg (fun x : UInt32 => x.toBitVec.getLsbD 14) h
  simp only [UInt32.toBitVec_and, UInt32.toBitVec_or, BitVec.getLsbD_and, BitVec.getLsbD_or,
    ht] at hbit
  have hmode : (UInt32.ofNat (mode % 0o10000)).toBitVec.getLsbD 14 = false := by
    have hlt : mode % 0o10000 < 2 ^ 14 := by omega
    change (BitVec.ofNat 32 (mode % 0o10000)).getLsbD 14 = false
    rw [BitVec.getLsbD_ofNat, Nat.testBit_lt_two_pow hlt, Bool.and_false]
  rw [hmode] at hbit
  revert hbit
  decide

theorem attributes_isDir (host : Posix.Host) (n : Node) :
    (attributes host n).isDir = true ↔ ∃ parent entries, n.kind = .dir parent entries := by
  cases hk : n.kind with
  | dir parent entries =>
    simp [attributes, hk, sizeAndType, FileAttributes.isDir, dirBit_or]
  | file data =>
    simp [attributes, hk, sizeAndType, FileAttributes.isDir, not_dirBit]
  | symlink target =>
    simp [attributes, hk, sizeAndType, FileAttributes.isDir, not_dirBit]

namespace Files

variable (files : Files)

/-- Where the session's paths are resolved. -/
def base : Base :=
  match files.root with
  | some root => .within root
  | none => .ambient

/-- A client's path. -/
def path (path : String) : Except StatusCode Path := do
  match files.root with
  | some _ => relative path
  | none =>
    let path ← noNul path
    if path.toList.head? = some '/' then
      return (parts path).filter fun part => part ≠ "" ∧ part ≠ "."
    else return clean (files.home ++ parts path)

/-- The attributes of the object at a path. -/
def metadata (path : Path) (follow : Bool) : FxM FileAttributes := do
  let n ← call (Posix.stat files.base path follow)
  return attributes (← get).fs.host n

/-- The attributes of a path as far as the mode lets them be seen: in a drop box, those of the
session's own creations and of directories. -/
def statPath (path : Path) (follow : Bool) : FxM FileAttributes := do
  if !files.mode.isWriteOnly then files.metadata path follow
  else
    match (← get).wrote.lookup path with
    | some actual => files.metadata actual follow
    | none =>
      require (¬(files.mode = .writeOnly ∧ path ≠ [])) .noSuchFile
      match ← attempt (Posix.stat files.base path follow) with
      | .error _ => throw .noSuchFile
      | .ok n =>
        let m := attributes (← get).fs.host n
        require m.isDir .noSuchFile
        return m

/-! ### Handles -/

/-- A new handle. -/
def addHandle (handle : OpenHandle) : FxM Reply :=
  modifyGet fun s =>
    let name := toString (s.nextHandle + 1)
    (.handle name,
      { s with nextHandle := s.nextHandle + 1, handles := (name, handle) :: s.handles })

/-- The meaning of a handle. -/
def getHandle (handle : String) : FxM (Option OpenHandle) := do
  return (← get).handles.lookup handle

theorem getHandle_bind {α : Type} (handle : String) (f : Option OpenHandle → FxM α)
    (s : Session) : (getHandle handle >>= f) s = f (s.handles.lookup handle) s := rfl

/-- Forget a handle. -/
def close (handle : String) : FxM Reply := do
  let removed ← modifyGet fun s =>
    (s.handles.lookup handle, { s with handles := s.handles.filter fun h => h.1 ≠ handle })
  require removed.isSome .failure
  return .status .ok

/-! ### Opening -/

/-- Open a file, or create it exclusively. -/
def openFile (path : Path) (flags : OpenFlags) (exclusive : Bool) : FsM ℕ :=
  match files.root with
  | some root =>
    Posix.openFile (.within root) path {
      read := flags.read
      write := flags.write
      append := !exclusive && flags.append
      create := !exclusive && flags.create
      truncate := !exclusive && flags.truncate
      createNew := exclusive || flags.exclude } 0o644
  | none =>
    Posix.openFile .ambient path {
      read := flags.read
      write := flags.write
      append := flags.append
      create := flags.create
      truncate := flags.truncate
      createNew := flags.exclude } 0o644

/-- The flags a drop box creates files with. -/
def createFlags : OpenFlags := { write := true, create := true }

/-- Do the flags ask for a change? -/
def mutating (flags : OpenFlags) : Bool :=
  flags.write || flags.append || flags.create || flags.truncate || flags.exclude

/-- Create a file of a drop box: under a name of the server's choosing (`WriteOnly`), or under
the requested name, and under one of the server's choosing if that is taken
(`WriteOnlyPlus`). -/
def openNew (env : Env) (requested : Path) : FxM ℕ := do
  let unique := uniquePath requested env.stamp env.random
  if files.mode = .writeOnly then
    let ino ← call (files.openFile unique createFlags true)
    modify fun s => { s with wrote := (requested, unique) :: s.wrote }
    return ino
  else
    match ← attempt (files.openFile requested createFlags true) with
    | .ok ino =>
      modify fun s => { s with wrote := (requested, requested) :: s.wrote }
      return ino
    | .error .exist =>
      let ino ← call (files.openFile unique createFlags true)
      modify fun s => { s with wrote := (requested, unique) :: s.wrote }
      return ino
    | .error e => throw (status e)

/-- Open a file. -/
def «open» (env : Env) (filename : String) (flags : OpenFlags) : FxM Reply := do
  require (¬(files.mode = .readOnly ∧ mutating flags)) .permissionDenied
  let requested ← ofExcept (files.path filename)
  if files.mode.isWriteOnly then
    require (flags.read = false ∧ flags.write ∧ flags.create) .permissionDenied
    require (files.mode = .writeOnly → requested.length = 1) .permissionDenied
    let ino ← files.openNew env requested
    addHandle (.file ino false flags.read flags.write)
  else
    let ino ← call (files.openFile requested flags false)
    addHandle (.file ino flags.append flags.read flags.write)

/-- Open a directory. -/
def opendir (path : String) : FxM Reply := do
  require (!files.mode.isWriteOnly) .permissionDenied
  let path ← ofExcept (files.path path)
  let names ← call (Posix.readDir files.base path)
  let entries ← names.mapM fun name => do
    return (⟨name, ← files.metadata (path ++ [name]) false⟩ : File)
  addHandle (.directory (entries.insertionSort fun a b => a.filename ≤ b.filename) 0)

/-! ### Changing attributes -/

/-- Run a call if there is something to set. -/
def setIf {α : Type} (o : Option α) (f : α → FxM Unit) : FxM Unit :=
  match o with
  | some a => f a
  | none => pure ()

/-- A time of a request. -/
def time (t : UInt32) : ℤ := t.toNat

/-- Set the times of a request, if it has any. -/
def setTimes (attrs : FileAttributes) (f : Option ℤ → Option ℤ → FsM Unit) : FxM Unit :=
  if attrs.atime.isSome || attrs.mtime.isSome then
    call (f (attrs.atime.map time) (attrs.mtime.map time))
  else pure ()

/-- Set the owner of a request, if it has one. -/
def setOwner (attrs : FileAttributes) (f : Option ℕ → Option ℕ → FsM Unit) : FxM Unit :=
  if attrs.uid.isSome || attrs.gid.isSome then
    call (f (attrs.uid.map UInt32.toNat) (attrs.gid.map UInt32.toNat))
  else pure ()

/-- The permission bits a client may set. -/
def permissionBits (mode : UInt32) : ℕ := (mode &&& 0o777).toNat

/-- Set the size of the file at a path. -/
def setLenAt (path : Path) (size : UInt64) : FsM Unit := do
  let ino ← Posix.openFile files.base path { write := true } 0o666
  Posix.ftruncate ino size.toNat

/-- The path to change the attributes of: in a drop box, that of the session's own creation. -/
def settable (path : Path) : FxM Path := do
  if files.mode.isWriteOnly then
    match (← get).wrote.lookup path with
    | some actual => pure actual
    | none => throw .permissionDenied
  else pure path

/-- Set the attributes of the object at a path; without a root the size comes first. -/
def setAttrsAt (path : Path) (attrs : FileAttributes) : FxM Unit := do
  let setLen := setIf attrs.size fun size => call (files.setLenAt path size)
  let setMode := setIf attrs.permissions fun mode =>
    call (Posix.chmod files.base path (permissionBits mode))
  let setTimes := setTimes attrs (Posix.utimes files.base path)
  match files.root with
  | some _ =>
    setMode
    setTimes
    setLen
  | none =>
    setLen
    setMode
    setTimes
    setOwner attrs (Posix.chown files.base path)

/-- Change the attributes of a path. -/
def setstatPath (path : Path) (attrs : FileAttributes) : FxM Reply := do
  require (files.mode ≠ .readOnly) .permissionDenied
  let path ← files.settable path
  files.setAttrsAt path attrs
  return .status .ok

/-- Change the attributes of an open file; `full` for a session without a root. -/
def setFileAttrs (ino : ℕ) (attrs : FileAttributes) (full : Bool) : FxM Unit := do
  let setLen := setIf attrs.size fun size => call (Posix.ftruncate ino size.toNat)
  let setMode := setIf attrs.permissions fun mode =>
    call (Posix.fchmod ino (permissionBits mode))
  let setTimes := setTimes attrs (Posix.futimes ino)
  if full then
    setLen
    setMode
    setTimes
    setOwner attrs (Posix.fchown ino)
  else
    setMode
    setTimes
    setLen

/-! ### The requests -/

/-- The size of the largest block read at once. -/
def maxRead : ℕ := 256 * 1024

/-- The number of entries of one block of a directory. -/
def blockSize : ℕ := 64

/-- The session must be read-write. -/
def requireRw : FxM Unit := require (files.mode = .readWrite) .permissionDenied

/-- The extensions announced. -/
def extensions : List (String × String) :=
  [("posix-rename@openssh.com", "1"), ("hardlink@openssh.com", "1"),
    ("fsync@openssh.com", "1")] ++
    if files.root = none then [("statvfs@openssh.com", "2")] else []

/-- Start the session. -/
def init : FxM Reply := do
  let s ← get
  require (s.initialized = false) .badMessage
  modify fun s => { s with initialized := true }
  return .version files.extensions

/-- Read from a handle. -/
def read (handle : String) (offset : UInt64) (len : UInt32) : FxM Reply := do
  require (!files.mode.isWriteOnly) .permissionDenied
  match ← getHandle handle with
  | some (.file ino _ true _) =>
    let data ← call (Posix.read ino offset.toNat (min len.toNat maxRead))
    require (data ≠ []) .eof
    return .data data
  | _ => throw .permissionDenied

/-- Write to a handle. -/
def write (handle : String) (offset : UInt64) (data : Bytes) : FxM Reply := do
  match ← getHandle handle with
  | some (.file ino append _ true) =>
    call (Posix.write ino append offset.toNat data)
    return .status .ok
  | _ => throw .permissionDenied

/-- The attributes of an open file. -/
def fstat (handle : String) : FxM Reply := do
  match ← getHandle handle with
  | some (.file ino _ _ _) =>
    let n ← call (Posix.fstat ino)
    return .attrs (attributes (← get).fs.host n)
  | _ => throw .failure

/-- The attributes of a path. -/
def statRequest (path : String) (follow : Bool) : FxM Reply := do
  let path ← ofExcept (files.path path)
  return .attrs (← files.statPath path follow)

/-- Change the attributes of a path. -/
def setStat (path : String) (attrs : FileAttributes) : FxM Reply := do
  let path ← ofExcept (files.path path)
  files.setstatPath path attrs

/-- Change the attributes of an open file. -/
def fSetStat (handle : String) (attrs : FileAttributes) : FxM Reply := do
  require (files.mode ≠ .readOnly) .permissionDenied
  match ← getHandle handle with
  | some (.file ino _ _ writable) =>
    require (files.mode.isWriteOnly → writable) .permissionDenied
    setFileAttrs ino attrs files.root.isNone
    return .status .ok
  | _ => throw .failure

/-- The next block of a directory. -/
def readdir (handle : String) : FxM Reply := do
  match ← getHandle handle with
  | some (.directory entries next) =>
    require (next ≠ entries.length) .eof
    let stop := min (next + blockSize) entries.length
    modify fun s => { s with
      handles := (handle, .directory entries stop) :: s.handles.filter fun h => h.1 ≠ handle }
    return .name ((entries.drop next).take (stop - next))
  | _ => throw .failure

/-- The cleaned text of a path. -/
def realPath (path : String) : FxM Reply := do
  let path ← ofExcept (files.path path)
  match files.root with
  | some _ => return .name [⟨slashed path, {}⟩]
  | none => return .name [⟨slashed (clean path), {}⟩]

/-- Make a directory. -/
def mkDir (path : String) : FxM Reply := do
  require (files.mode ≠ .readOnly ∧ files.mode ≠ .writeOnly) .permissionDenied
  let path ← ofExcept (files.path path)
  call (Posix.mkdir files.base path 0o755)
  if files.mode.isWriteOnly then
    modify fun s => { s with wrote := (path, path) :: s.wrote }
  return .status .ok

/-- Remove a file. -/
def remove (filename : String) : FxM Reply := do
  files.requireRw
  let path ← ofExcept (files.path filename)
  call (Posix.unlink files.base path)
  return .status .ok

/-- Remove a directory. -/
def rmDir (path : String) : FxM Reply := do
  files.requireRw
  let path ← ofExcept (files.path path)
  call (Posix.rmdir files.base path)
  return .status .ok

/-- Rename. -/
def rename (old new : String) : FxM Reply := do
  files.requireRw
  let old ← ofExcept (files.path old)
  let new ← ofExcept (files.path new)
  call (Posix.rename files.base old new)
  return .status .ok

/-- The text of a symbolic link. -/
def readLink (path : String) : FxM Reply := do
  require (!files.mode.isWriteOnly) .permissionDenied
  let path ← ofExcept (files.path path)
  let target ← call (Posix.readLink files.base path)
  return .name [⟨target, {}⟩]

/-- Make a symbolic link.  OpenSSH sends the target first, whatever the fields are called. -/
def symlink (linkpath targetpath : String) : FxM Reply := do
  files.requireRw
  let target ← match files.root with
    | some _ => do
      let target ← ofExcept (relative linkpath)
      pure (if target = [] then "." else String.intercalate "/" target)
    | none => do
      let target ← ofExcept (files.path linkpath)
      pure (slashed target)
  let link ← ofExcept (files.path targetpath)
  call (Posix.symlink files.base target link)
  return .status .ok

/-- Read a string from the data of an extended request. -/
def readString (bytes : Bytes) : Except StatusCode (String × Bytes) :=
  match bytes with
  | a :: b :: c :: d :: rest =>
    let n := ofBeBytes32 a b c d
    if rest.length < n then .error .badMessage
    else
      match fromUtf8 (rest.take n) with
      | some s => .ok (String.ofList s, rest.drop n)
      | none => .error .badMessage
  | _ => .error .badMessage

/-- Make a hard link. -/
def hardlink (first : String) (bytes : Bytes) : FxM Reply := do
  files.requireRw
  let src ← ofExcept (files.path first)
  let (second, _) ← ofExcept (readString bytes)
  let dst ← ofExcept (files.path second)
  call (Posix.link files.base src dst)
  return .status .ok

/-- Flush an open file. -/
def fsync (handle : String) : FxM Reply := do
  match ← getHandle handle with
  | some (.file ino _ _ _) =>
    call (Posix.fsync ino)
    return .status .ok
  | _ => throw .failure

/-- An extended request. -/
def extended (request : String) (data : Bytes) : FxM Reply := do
  let (first, bytes) ← ofExcept (readString data)
  if request = "posix-rename@openssh.com" then
    let (second, _) ← ofExcept (readString bytes)
    files.rename first second
  else if request = "hardlink@openssh.com" then files.hardlink first bytes
  else if request = "fsync@openssh.com" then fsync first
  else if request = "statvfs@openssh.com" ∧ files.root = none then
    let path ← ofExcept (files.path first)
    return .extendedReply (← call (Posix.statvfs files.base path))
  else throw .opUnsupported

/-- Answer a request of a session that has started. -/
def answer (env : Env) : Request → FxM Reply
  | .init => files.init
  | .open filename flags => files.open env filename flags
  | .close handle => close handle
  | .read handle offset len => files.read handle offset len
  | .write handle offset data => write handle offset data
  | .fstat handle => fstat handle
  | .stat path => files.statRequest path true
  | .lstat path => files.statRequest path false
  | .setStat path attrs => files.setStat path attrs
  | .fSetStat handle attrs => files.fSetStat handle attrs
  | .openDir path => files.opendir path
  | .readDir handle => readdir handle
  | .realPath path => files.realPath path
  | .mkDir path => files.mkDir path
  | .remove filename => files.remove filename
  | .rmDir path => files.rmDir path
  | .rename oldpath newpath => files.rename oldpath newpath
  | .readLink path => files.readLink path
  | .symlink linkpath targetpath => files.symlink linkpath targetpath
  | .extended request data => files.extended request data
  | .other => throw .opUnsupported

/-- Answer a request. -/
def dispatch (env : Env) (request : Request) : FxM Reply := do
  require (request = .init ∨ (← get).initialized) .badMessage
  files.answer env request

theorem dispatch_eq (env : Env) (request : Request) (s : Session) :
    files.dispatch env request s =
      if request = .init ∨ s.initialized then files.answer env request s
      else .error .badMessage s := by
  change (require (request = .init ∨ s.initialized) .badMessage >>= fun _ =>
    files.answer env request : FxM Reply) s = _
  unfold require
  split_ifs <;> rfl

/-- Process a request: its reply, and the session afterwards. -/
def process (env : Env) (request : Request) (s : Session) : Reply × Session :=
  match files.dispatch env request { s with fs := { s.fs with clock := env.clock } } with
  | .ok reply s => (reply, s)
  | .error code s => (.status code, s)

/-- Process a sequence of requests: the replies, and the session afterwards. -/
def run (s : Session) : List (Env × Request) → List Reply × Session
  | [] => ([], s)
  | (env, request) :: rest =>
    let r := files.process env request s
    (r.1 :: (run r.2 rest).1, (run r.2 rest).2)

theorem run_append (s : Session) (before after : List (Env × Request)) :
    files.run s (before ++ after) =
      ((files.run s before).1 ++ (files.run (files.run s before).2 after).1,
        (files.run (files.run s before).2 after).2) := by
  induction before generalizing s with
  | nil => rfl
  | cons r rest ih =>
    obtain ⟨env, request⟩ := r
    simp only [List.cons_append, run, ih]

/-- What holds of the end of an answer holds of a processed request. -/
theorem process_of_ends {env : Env} {request : Request} {s : Session}
    {P : Reply → Session → Prop}
    (h : Program.Ends P (fun e => P (.status e))
      (files.dispatch env request { s with fs := { s.fs with clock := env.clock } })) :
    P (files.process env request s).1 (files.process env request s).2 := by
  unfold process
  split <;> rename_i hr <;> rw [hr] at h <;> exact h

/-- What holds of the end of a request that succeeds. -/
theorem of_process_ok {env : Env} {request : Request} {s : Session} {P : Session → Prop}
    (h : Program.Ends (fun _ => P) (fun code _ => code ≠ .ok)
      (files.dispatch env request { s with fs := { s.fs with clock := env.clock } }))
    (hok : (files.process env request s).1 = .status .ok) : P (files.process env request s).2 := by
  unfold process at hok ⊢
  split at hok <;> rename_i hr
  · rw [hr] at h
    exact h
  · rw [hr] at h
    exact absurd (Reply.status.inj hok) h

theorem process_after (env : Env) (request : Request) (s : Session) :
    (files.process env request s).2 = Program.after (files.dispatch env request
      { s with fs := { s.fs with clock := env.clock } }) := by
  unfold process
  split <;> rename_i h <;> rw [h] <;> rfl

end Files

end Tailcat.Sftp
