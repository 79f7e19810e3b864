import Tailcat.Runtime.Socket

/-!
# Pipes to the application

Each connection has a bounded duplex pipe: the program holds one end and hands the other to the
application.  A direction is closed when its writer shuts it down and when either end is dropped;
what is in it can still be read.

A direction (`Duct`) is a channel with a capacity and a mark that it is closed.  A read returns what
there is, up to the space of the reader, and the end once the direction is closed and empty; a write
takes what there is room for and fails once the direction is closed.  Both may find nothing to do
and wait.

What the application does with its end is an event of the run (`AppOp`): it may read, write, shut
down or drop its end at any time and in any order, and nothing is assumed of it.
-/

namespace Tailcat.Runtime

/-- One direction of a pipe. -/
structure Duct where
  data : Channel UInt8 := .empty
  closed : Bool := false

/-- The outcome of polling a pipe. -/
inductive Poll (α : Type)
  | ready (x : α)
  | broken
  | pending

namespace Duct

/-- Read up to `n` bytes; nothing is the end of the stream. -/
def pollRead (d : Duct) (n : ℕ) : Poll Bytes × Duct :=
  if d.data.pending ≠ [] then (.ready (d.data.pending.take n), { d with data := d.data.pop n })
  else if d.closed then (.ready [], d)
  else (.pending, d)

/-- Write what there is room for. -/
def pollWrite (d : Duct) (bytes : Bytes) : Poll ℕ × Duct :=
  if d.closed then (.broken, d)
  else
    let room := bufferSize - d.data.pending.length
    if room = 0 then (.pending, d)
    else (.ready (min bytes.length room), { d with data := d.data.push (bytes.take room) })

/-- Close the direction. -/
def shut (d : Duct) : Duct := { d with closed := true }

/-- A reader sees the end of the stream. -/
def AtEnd (d : Duct) : Prop := d.data.pending = [] ∧ d.closed = true

end Duct

/-- A pipe between the program and the application. -/
structure Pipe where
  /-- From the application to the program. -/
  up : Duct := {}
  /-- From the program to the application. -/
  down : Duct := {}
  /-- The application's end was dropped. -/
  appDropped : Bool := false

namespace Pipe

/-- The program's end is dropped. -/
def dropLink (p : Pipe) : Pipe := { p with up := p.up.shut, down := p.down.shut }

/-- The application's end is dropped. -/
def dropApp (p : Pipe) : Pipe :=
  { p with up := p.up.shut, down := p.down.shut, appDropped := true }

end Pipe

/-- What the application does with its end of a pipe. -/
inductive AppOp
  | write (bytes : Bytes)
  | read (n : ℕ)
  | shutdown
  | drop

/-- The effect of the application's operation. -/
def Pipe.app (p : Pipe) : AppOp → Pipe
  | .write bytes =>
    if p.appDropped then p else { p with up := (p.up.pollWrite bytes).2 }
  | .read n => if p.appDropped then p else { p with down := (p.down.pollRead n).2 }
  | .shutdown => if p.appDropped then p else { p with up := p.up.shut }
  | .drop => p.dropApp

end Tailcat.Runtime
