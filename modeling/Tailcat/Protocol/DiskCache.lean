import Tailcat.Lib.Drafts
import Tailcat.Protocol.Publish
import Tailcat.Text

/-!
# The DERP map cache on disk

A body and its ETag are kept in two files of the cache directory.  `write_disk_cache` writes the
body to a temporary file, renames it over the old one, and then writes the ETag.

The operations on files are atomic, and what comes between them is up to the other processes.

A call goes through the states of `Call`, one operation on the directory at a time, and an event
says whose turn it is and how the operation goes: it may fail, or write a part only.  Any number of
processes take part, in any order, and each may stop in between for ever.  The names of the two
files are computed from the URL as in the source (`cachePaths`).

`readDiskCache` is the reading side: a body that can be parsed, with its ETag if there is one.  This
module has the model; what a reader can find is shown in `Protocol.CachePairs`, and that different
URLs have different files in `Protocol.CacheNames`.
-/

namespace Tailcat.Protocol

/-! ### Entries -/

/-- A body of a response and its ETag; the time is in nanoseconds since the epoch. -/
structure CachedMap where
  data : Bytes
  etag : List Char
  storedAt : ℤ
  deriving DecidableEq

/-- 8 MiB. -/
def maxMapBytes : ℕ := 8 * 2 ^ 20

/-- What `read_disk_cache` learns of the body's file. -/
structure JsonFile where
  isFile : Bool := true
  length : ℕ
  /-- What is read of it, unless reading fails. -/
  content : Option Bytes
  modified : Option ℤ

/-- What `read_disk_cache` finds. -/
structure CacheFiles where
  json : Option JsonFile := none
  etag : Option Bytes := none

/-- The ETag in a file. -/
def etagText (file : Option Bytes) : List Char := trim ((file.bind fromUtf8).getD [])

/-- `read_disk_cache`. -/
def readDiskCache (parse : Bytes → Option DerpMap) (files : CacheFiles) : Option CachedMap := do
  let file ← files.json
  if !file.isFile || maxMapBytes < file.length then none
  else
    let content ← file.content
    let data := content.take (maxMapBytes + 1)
    if maxMapBytes < data.length then none
    else
      let _ ← parse data
      let storedAt ← file.modified
      some { data, etag := etagText files.etag, storedAt }

/-- What is known of an entry that is read. -/
theorem readDiskCache_eq_some {parse : Bytes → Option DerpMap} {files : CacheFiles} {c : CachedMap}
    (h : readDiskCache parse files = some c) : ∃ file content, files.json = some file ∧
      file.content = some content ∧ c.data = content.take (maxMapBytes + 1) ∧
        c.data.length ≤ maxMapBytes ∧ (∃ map, parse c.data = some map) ∧
          c.etag = etagText files.etag ∧ file.modified = some c.storedAt := by
  unfold readDiskCache at h
  obtain ⟨file, hfile, h⟩ := Option.bind_eq_some_iff.1 h
  split_ifs at h
  obtain ⟨content, hcontent, h⟩ := Option.bind_eq_some_iff.1 h
  simp only at h
  split_ifs at h with hlength
  obtain ⟨map, hmap, h⟩ := Option.bind_eq_some_iff.1 h
  obtain ⟨storedAt, hmodified, h⟩ := Option.bind_eq_some_iff.1 h
  cases h
  exact ⟨file, content, hfile, hcontent, rfl, Nat.le_of_not_lt hlength, ⟨map, hmap⟩, rfl,
    hmodified⟩

/-! ### File names -/

/-- A hexadecimal digit, in upper case. -/
def hexDigit (n : ℕ) : Char := (Nat.digitChar n).toUpper

/-- A byte of a URL in a file name. -/
def escapeByte (b : UInt8) : List Char :=
  let c := Char.ofNat b.toNat
  if c.isAlphanum || c = '-' || c = '_' || c = '.' || c = '~' then [c]
  else if c = ' ' then ['+']
  else ['%', hexDigit (b.toNat / 16), hexDigit (b.toNat % 16)]

/-- The names of the body's file and of the ETag's. -/
def cachePaths (url : Bytes) : String × String :=
  let stem := "derpmap-".toList ++ url.flatMap escapeByte
  (String.ofList (stem ++ ".json".toList), String.ofList (stem ++ ".etag".toList))

/-- The name of a temporary file. -/
def temporaryName (pid : ℕ) (random : UInt64) : String :=
  String.ofList ('.' :: ("derpmap-".toList ++ Nat.toDigits 10 pid ++ '-' :: hex16 random ++
    ".tmp".toList))

/-! ### Writing -/

namespace DiskCache

/-- A temporary file. -/
structure Temporary where
  name : String
  file : ℕ
  deriving DecidableEq

/-- How far a call of `write_disk_cache` is. -/
inductive Call
  | start
  /-- The directory is there. -/
  | create
  /-- This many bytes of the body are written. -/
  | write (t : Temporary) (written : ℕ)
  | sync (t : Temporary)
  | rename (t : Temporary)
  /-- The body is in its place. -/
  | etag (name : String)
  /-- This many bytes of the ETag are written. -/
  | writeEtag (name : String) (file written : ℕ)
  | cleanup (name : String)
  | done (ok : Bool)
  deriving DecidableEq

/-- One operation of a call, with what the system and the random generator choose. -/
structure Event where
  /-- The call that goes on. -/
  call : ℕ
  /-- The operation fails. -/
  fails : Bool := false
  /-- The process of the call. -/
  pid : ℕ := 0
  /-- The number in the name of the temporary file. -/
  random : UInt64 := 0
  /-- The number of bytes a write takes. -/
  count : ℕ := 0

/-- One operation of a call. -/
def step (url : Bytes) (entry : CachedMap) (e : Event) (d : Directory) : Call → Directory × Call
  | .start => (d, if e.fails then .done false else .create)
  | .create =>
    let name := temporaryName e.pid e.random
    match if e.fails then none else d.createNew name with
    | some (file, d) => (d, .write ⟨name, file⟩ 0)
    | none => (d, .cleanup name)
  | .write t written =>
    if e.fails then (d, .cleanup t.name)
    else
      match d.writeSome t.file entry.data written e.count with
      | some (d, written) => (d, .write t written)
      | none => (d, .sync t)
  | .sync t => (d, if e.fails then .cleanup t.name else .rename t)
  | .rename t =>
    match if e.fails then none else d.rename t.name (cachePaths url).1 with
    | some d => (d, .etag t.name)
    | none => (d, .cleanup t.name)
  | .etag name =>
    if entry.etag = [] then (if e.fails then d else d.unlink (cachePaths url).2, .done true)
    else if e.fails then (d, .cleanup name)
    else
      -- `fs::write` empties the file or creates it, and then writes
      let (file, d) := d.createOrTruncate (cachePaths url).2
      (d, .writeEtag name file 0)
  | .writeEtag name file written =>
    if e.fails then (d, .cleanup name)
    else
      match d.writeSome file (utf8 entry.etag) written e.count with
      | some (d, written) => (d, .writeEtag name file written)
      | none => (d, .done true)
  | .cleanup name => (if e.fails then d else d.unlink name, .done false)
  | .done ok => (d, .done ok)

/-- The directory and the calls of all processes. -/
structure World where
  dir : Directory
  calls : ℕ → Call

/-- One operation of one call; every call has an entry to write. -/
def World.step (url : Bytes) (entries : ℕ → CachedMap) (w : World) (e : Event) : World :=
  let next := DiskCache.step url (entries e.call) e w.dir (w.calls e.call)
  { dir := next.1, calls := Function.update w.calls e.call next.2 }

/-- Any number of calls that have not begun. -/
def World.init (dir : Directory) : World := { dir, calls := fun _ => .start }

/-- What a call of `read_disk_cache` would find. -/
def World.files (url : Bytes) (w : World) (modified : ℤ) : CacheFiles where
  json := (w.dir.read (cachePaths url).1).map fun data =>
    { length := data.length, content := some data, modified := some modified }
  etag := w.dir.read (cachePaths url).2

end DiskCache

/-! ### File names of a cache -/

theorem toList_cachePaths_fst (url : Bytes) :
    (cachePaths url).1.toList = "derpmap-".toList ++ url.flatMap escapeByte ++ ".json".toList :=
  String.toList_ofList

theorem toList_cachePaths_snd (url : Bytes) :
    (cachePaths url).2.toList = "derpmap-".toList ++ url.flatMap escapeByte ++ ".etag".toList :=
  String.toList_ofList

theorem cachePaths_ne (url : Bytes) : (cachePaths url).1 ≠ (cachePaths url).2 := by
  intro h
  have hchars := congrArg String.toList h
  rw [toList_cachePaths_fst, toList_cachePaths_snd] at hchars
  exact absurd (List.append_cancel_left hchars) (by decide +kernel)

/-- A temporary file has the name of neither file. -/
theorem temporaryName_ne (pid : ℕ) (random : UInt64) (url : Bytes) :
    temporaryName pid random ≠ (cachePaths url).1 ∧
      temporaryName pid random ≠ (cachePaths url).2 := by
  have htemporary : (temporaryName pid random).toList = '.' :: ("derpmap-".toList ++
      Nat.toDigits 10 pid ++ '-' :: hex16 random ++ ".tmp".toList) := String.toList_ofList
  have hstem : "derpmap-".toList = 'd' :: "erpmap-".toList := by decide +kernel
  constructor
  · intro h
    have hchars := congrArg String.toList h
    rw [htemporary, toList_cachePaths_fst, hstem, List.cons_append, List.cons_append] at hchars
    exact absurd (List.cons.inj hchars).1 (by decide)
  · intro h
    have hchars := congrArg String.toList h
    rw [htemporary, toList_cachePaths_snd, hstem, List.cons_append, List.cons_append] at hchars
    exact absurd (List.cons.inj hchars).1 (by decide)

end Tailcat.Protocol
