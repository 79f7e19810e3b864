import Tailcat.Lib.Posix
import Tailcat.Text

/-!
# Paths of the file service

A client's path is cleaned lexically at a virtual root before the filesystem sees it
(`relative`).  A collision in a drop box is avoided with a name of the server's choosing
(`uniquePath`): the requested name with the time and a random number in it.

Cleaning is the loop of the source over the components: an empty one and `.` are skipped, `..` takes
the last one away, if there is one, and every other is put behind.  It never fails, except on a NUL
byte, which no call of the system takes.  So a path that begins with `..` stays inside the root, and
a link that a component goes through does not count: lexical means that the filesystem is not asked.

What the cleaned paths are is shown in `Sftp.Clean`, and what links do to them in `Sftp.Links`.
-/

namespace Tailcat.Sftp

open Posix (Path)

/-- The status codes of SFTP. -/
inductive StatusCode where
  | ok | eof | noSuchFile | permissionDenied | failure | badMessage | noConnection
  | connectionLost | opUnsupported
  deriving DecidableEq, Repr

/-- The status code of a failed call. -/
def status : Posix.Errno → StatusCode
  | .noent => .noSuchFile
  | .acces => .permissionDenied
  | .notsup => .opUnsupported
  | _ => .failure

/-- The parts of a path between slashes. -/
def parts (path : String) : List String := (splitOn '/' path.toList).map String.ofList

/-- One part of a path is appended to the cleaned parts before it. -/
def cleanPart (path : Path) (part : String) : Path :=
  if part = "" ∨ part = "." then path
  else if part = ".." then path.dropLast
  else path ++ [part]

/-- Clean a path lexically; the root is its own parent. -/
def clean (parts : List String) : Path := parts.foldl cleanPart []

/-- A path without NUL characters. -/
def noNul (path : String) : Except StatusCode String :=
  if '\x00' ∈ path.toList then .error .badMessage else .ok path

/-- A client's path below the virtual root (`[]` is the root itself, `.`). -/
def relative (path : String) : Except StatusCode Path := do
  let path ← noNul path
  return clean (parts path)

/-- The text of a path below a slash. -/
def slashed (path : Path) : String := "/" ++ String.intercalate "/" path

/-- The stem and the extension of a name: the extension starts at the last dot. -/
def splitExt (base : String) : String × String :=
  match (splitOnce '.' base.toList.reverse) with
  | none => (base, "")
  | some (ext, stem) => (String.ofList stem.reverse, "." ++ String.ofList ext.reverse)

/-- The hexadecimal digits of a number, `n` of them. -/
def hexDigits : ℕ → ℕ → List Char
  | 0, _ => []
  | n + 1, k => hexDigits n (k / 16) ++ [Nat.digitChar (k % 16)]

/-- The name the server chooses for `base`, at a time (as `%Y%m%d%H%M%S`). -/
def uniqueName (base stamp : String) (random : UInt64) : String :=
  (splitExt base).1 ++ "." ++ stamp ++ "." ++ String.ofList (hexDigits 16 random.toNat) ++
    (splitExt base).2

/-- The path beside `path` with a name the server chooses. -/
def uniquePath (path : Path) (stamp : String) (random : UInt64) : Path :=
  path.dropLast ++ [uniqueName (path.getLast?.getD "") stamp random]

example : uniquePath ["sub", "existing.txt"] "20250102030405" 255 =
    ["sub", "existing.20250102030405.00000000000000ff.txt"] := by
  decide +kernel

end Tailcat.Sftp
