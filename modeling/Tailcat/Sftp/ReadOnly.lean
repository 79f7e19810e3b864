import Tailcat.Sftp.Files
import Tailcat.Lib.PosixReads

/-!
# A read-only share is only read

`onlyRead_run` : whatever a client of a read-only share sends, nothing in the filesystem changes
but access times, and these only on a mount that records reads.

No request but those that open a file checks the mode before it writes to a handle; so the
invariant is that no handle is writable (`Locked`).

The frame says that objects, their contents and their attributes other than access times are the
same, and that the session has no writable handle.  Both have to be carried together, as a write is
checked against its handle only.  An open without any flag for writing gives such a handle, and with
one it is refused before the filesystem is asked; the other requests that change something are
refused by the mode.  Each request has its lemma, and the run is an induction over them.
-/

namespace Tailcat.Sftp

open Posix (FsM OnlyRead onlyRead)
open Program (Frame require)

/-- No open file is writable. -/
def Session.Locked (s : Session) : Prop :=
  ∀ h ∈ s.handles, ∀ ino append readable writable,
    h.2 = .file ino append readable writable → writable = false

/-- The filesystem is only read, as long as no open file is writable, and none becomes so. -/
def lockedFrame : Frame Session where
  rel s s' := s.Locked → s'.Locked ∧ OnlyRead s.fs s'.fs
  refl s hs := ⟨hs, onlyRead.refl s.fs⟩
  trans h h' hs := by
    obtain ⟨ht, hst⟩ := h hs
    obtain ⟨hu, htu⟩ := h' ht
    exact ⟨hu, onlyRead.trans hst htu⟩

section

variable {α : Type}

theorem locked_attempt {m : FsM α} (h : onlyRead.Keeps m) : lockedFrame.Keeps (attempt m) := by
  intro s hs
  have hm := h s.fs
  unfold attempt
  cases hr : m s.fs with
  | ok a fs =>
    rw [hr] at hm
    exact ⟨hs, hm⟩
  | error e fs =>
    rw [hr] at hm
    exact ⟨hs, hm⟩

theorem locked_call {m : FsM α} (h : onlyRead.Keeps m) : lockedFrame.Keeps (call m) :=
  (locked_attempt h).bind fun r => by
    cases r with
    | ok a => exact Frame.Keeps.pure a
    | error e => exact Frame.Keeps.throw _

theorem locked_ofExcept (r : Except StatusCode α) : lockedFrame.Keeps (ofExcept r) := by
  cases r with
  | ok a => exact Frame.Keeps.pure a
  | error e => exact Frame.Keeps.throw e

end

/-! ### The requests that do something -/

namespace Files

theorem locked_addHandle {handle : OpenHandle}
    (h : ∀ ino append readable writable,
      handle = .file ino append readable writable → writable = false) :
    lockedFrame.Keeps (addHandle handle) :=
  Frame.Keeps.modifyGet fun s hs => by
    refine ⟨?_, onlyRead.refl s.fs⟩
    intro h' hh'
    rcases List.mem_cons.1 hh' with rfl | hh'
    · exact h
    · exact hs h' hh'

/-- A change of the handles that only drops some keeps them locked. -/
theorem locked_filter (p : String × OpenHandle → Bool) (s : Session) :
    lockedFrame.rel s { s with handles := s.handles.filter p } :=
  fun hs => ⟨fun h hh => hs h (List.mem_filter.1 hh).1, onlyRead.refl s.fs⟩

theorem locked_close (handle : String) : lockedFrame.Keeps (close handle) :=
  (Frame.Keeps.modifyGet (locked_filter _)).bind fun _ =>
    Frame.Keeps.require.bind fun _ => Frame.Keeps.pure _

theorem locked_getHandle (handle : String) : lockedFrame.Keeps (getHandle handle) :=
  Frame.Keeps.get.bind fun _ => Frame.Keeps.pure _

theorem locked_fstat (handle : String) : lockedFrame.Keeps (fstat handle) :=
  (locked_getHandle handle).bind fun h => by
    split
    · exact (locked_call (Posix.keeps_fstat Posix.pathFrame_onlyRead _)).bind fun _ =>
        Frame.Keeps.get.bind fun _ => Frame.Keeps.pure _
    · exact Frame.Keeps.throw _

theorem locked_fsync (handle : String) : lockedFrame.Keeps (fsync handle) :=
  (locked_getHandle handle).bind fun h => by
    split
    · exact (locked_call (Posix.keeps_enter Posix.pathFrame_onlyRead)).bind fun _ =>
        Frame.Keeps.pure _
    · exact Frame.Keeps.throw _

theorem locked_readdir (handle : String) : lockedFrame.Keeps (readdir handle) :=
  (locked_getHandle handle).bind fun h => by
    split
    · refine Frame.Keeps.require.bind fun _ =>
        (Frame.Keeps.modify fun s hs => ⟨?_, onlyRead.refl s.fs⟩).bind fun _ => Frame.Keeps.pure _
      intro h' hh'
      rcases List.mem_cons.1 hh' with rfl | hh'
      · intro ino append readable writable he
        exact absurd he (by simp)
      · exact hs h' (List.mem_filter.1 hh').1
    · exact Frame.Keeps.throw _

theorem locked_lookup {s : Session} (hs : s.Locked) {handle : String} {ino : ℕ}
    {append readable writable : Bool}
    (h : s.handles.lookup handle = some (.file ino append readable writable)) :
    writable = false := by
  obtain ⟨l₁, l₂, hl, -⟩ := List.lookup_eq_some_iff.1 h
  refine hs (handle, _) ?_ ino append readable writable rfl
  rw [hl]
  simp

/-- Without a writable handle, writing is refused. -/
theorem write_of_locked {s : Session} (hs : s.Locked) (handle : String) (offset : UInt64)
    (data : Bytes) : write handle offset data s = .error .permissionDenied s := by
  unfold write
  rw [getHandle_bind]
  cases ho : s.handles.lookup handle with
  | none => rfl
  | some o =>
    cases o with
    | directory entries next => rfl
    | file ino append readable writable =>
      obtain rfl := locked_lookup hs ho
      rfl

theorem locked_write (handle : String) (offset : UInt64) (data : Bytes) :
    lockedFrame.Keeps (write handle offset data) := by
  intro s hs
  rw [write_of_locked hs]
  exact ⟨hs, onlyRead.refl s.fs⟩

variable {files : Files}

theorem locked_metadata (path : Posix.Path) (follow : Bool) :
    lockedFrame.Keeps (files.metadata path follow) :=
  (locked_call (Posix.keeps_stat Posix.pathFrame_onlyRead (Posix.resolves_onlyRead _ _)
    (Posix.resolves_onlyRead _ _) _)).bind fun _ =>
    Frame.Keeps.get.bind fun _ => Frame.Keeps.pure _

theorem locked_init : lockedFrame.Keeps files.init :=
  Frame.Keeps.get.bind fun _ => Frame.Keeps.require.bind fun _ =>
    (Frame.Keeps.modify fun s hs => ⟨hs, onlyRead.refl s.fs⟩).bind fun _ => Frame.Keeps.pure _

theorem locked_realPath (path : String) : lockedFrame.Keeps (files.realPath path) :=
  (locked_ofExcept _).bind fun _ => by
    split <;> exact Frame.Keeps.pure _

theorem locked_read (handle : String) (offset : UInt64) (len : UInt32) :
    lockedFrame.Keeps (files.read handle offset len) :=
  Frame.Keeps.require.bind fun _ => (locked_getHandle handle).bind fun h => by
    split
    · exact (locked_call (Posix.keeps_read _ _ _)).bind fun _ =>
        Frame.Keeps.require.bind fun _ => Frame.Keeps.pure _
    · exact Frame.Keeps.throw _

theorem locked_readLink (path : String) : lockedFrame.Keeps (files.readLink path) :=
  Frame.Keeps.require.bind fun _ => (locked_ofExcept _).bind fun _ =>
    (locked_call (Posix.keeps_readLink _ _)).bind fun _ => Frame.Keeps.pure _

theorem locked_opendir (path : String) : lockedFrame.Keeps (files.opendir path) :=
  Frame.Keeps.require.bind fun _ => (locked_ofExcept _).bind fun path =>
    (locked_call (Posix.keeps_readDir _ _)).bind fun names =>
      (Frame.Keeps.mapM (fun name => (locked_metadata _ false).bind fun _ => Frame.Keeps.pure _)
        names).bind fun _ => locked_addHandle fun _ _ _ _ h => by simp at h

/-! ### A read-only share -/

/-- A request stopped by a condition that does not hold. -/
theorem locked_of_refused {c : Prop} [Decidable c] (hc : ¬c) {f : Unit → FxM Reply} :
    lockedFrame.Keeps ((require c .permissionDenied : FxM Unit) >>= f) := by
  rw [require, if_neg hc]
  exact Frame.Keeps.throw _

section

variable (hmode : files.mode = .readOnly)

include hmode

theorem locked_statPath (path : Posix.Path) (follow : Bool) :
    lockedFrame.Keeps (files.statPath path follow) := by
  simp only [statPath, hmode]
  exact locked_metadata path follow

theorem locked_statRequest (path : String) (follow : Bool) :
    lockedFrame.Keeps (files.statRequest path follow) :=
  (locked_ofExcept _).bind fun _ => (locked_statPath hmode _ _).bind fun _ => Frame.Keeps.pure _

/-- No flag that asks for a change is let through, so the file is opened as it is, and its handle
is not writable. -/
theorem locked_open (env : Env) (filename : String) (flags : OpenFlags) :
    lockedFrame.Keeps (files.open env filename flags) := by
  unfold «open»
  by_cases hf : mutating flags
  · exact locked_of_refused (by simp [hmode, hf])
  · simp only [mutating, Bool.or_eq_true, not_or, Bool.not_eq_true] at hf
    obtain ⟨⟨⟨⟨hw, ha⟩, hc⟩, ht⟩, he⟩ := hf
    refine Frame.Keeps.require.bind fun _ => (locked_ofExcept _).bind fun requested => ?_
    rw [hmode, if_neg (by decide)]
    have hopen : onlyRead.Keeps (files.openFile requested flags false) := by
      unfold openFile
      cases files.root with
      | none =>
        exact Posix.keeps_openFile Posix.pathFrame_onlyRead (Posix.resolves_onlyRead _ _) hc ht he _
      | some root =>
        exact Posix.keeps_openFile Posix.pathFrame_onlyRead (Posix.resolves_onlyRead _ _)
          (by simp [hc]) (by simp [ht]) (by simp [he]) _
    refine (locked_call hopen).bind fun ino => locked_addHandle ?_
    intro _ _ _ _ h
    obtain ⟨-, -, -, h⟩ := OpenHandle.file.inj h
    exact h.symm.trans hw

theorem locked_setStat (path : String) (attrs : FileAttributes) :
    lockedFrame.Keeps (files.setStat path attrs) :=
  (locked_ofExcept _).bind fun _ => locked_of_refused (by simp [hmode])

theorem locked_fSetStat (handle : String) (attrs : FileAttributes) :
    lockedFrame.Keeps (files.fSetStat handle attrs) := locked_of_refused (by simp [hmode])

theorem locked_mkDir (path : String) : lockedFrame.Keeps (files.mkDir path) :=
  locked_of_refused (by simp [hmode])

theorem locked_requireRw {f : Unit → FxM Reply} : lockedFrame.Keeps (files.requireRw >>= f) :=
  locked_of_refused (by simp [hmode])

theorem locked_extended (request : String) (data : Bytes) :
    lockedFrame.Keeps (files.extended request data) := by
  refine (locked_ofExcept _).bind fun p => ?_
  split_ifs
  · exact (locked_ofExcept _).bind fun _ => locked_requireRw hmode
  · exact locked_requireRw hmode
  · exact locked_fsync _
  · exact (locked_ofExcept _).bind fun _ =>
      (locked_call (Posix.keeps_statvfs Posix.pathFrame_onlyRead (Posix.resolves_onlyRead _ _))).bind fun _ => Frame.Keeps.pure _
  · exact Frame.Keeps.throw _

/-- Every request, one case each. -/
theorem locked_answer (env : Env) (request : Request) :
    lockedFrame.Keeps (files.answer env request) := by
  cases request with
  | init => exact locked_init
  | «open» filename flags => exact locked_open hmode env filename flags
  | close handle => exact locked_close handle
  | read handle offset len => exact locked_read handle offset len
  | write handle offset data => exact locked_write handle offset data
  | fstat handle => exact locked_fstat handle
  | stat path => exact locked_statRequest hmode path true
  | lstat path => exact locked_statRequest hmode path false
  | setStat path attrs => exact locked_setStat hmode path attrs
  | fSetStat handle attrs => exact locked_fSetStat hmode handle attrs
  | openDir path => exact locked_opendir path
  | readDir handle => exact locked_readdir handle
  | realPath path => exact locked_realPath path
  | mkDir path => exact locked_mkDir hmode path
  | remove filename => exact locked_requireRw hmode
  | rmDir path => exact locked_requireRw hmode
  | rename oldpath newpath => exact locked_requireRw hmode
  | readLink path => exact locked_readLink path
  | symlink linkpath targetpath => exact locked_requireRw hmode
  | extended request data => exact locked_extended hmode request data
  | other => exact Frame.Keeps.throw _

/-- One request. -/
theorem locked_process (env : Env) (request : Request) (s : Session) :
    lockedFrame.rel s (files.process env request s).2 := by
  intro hs
  have hclock : OnlyRead s.fs { s.fs with clock := env.clock } :=
    ⟨rfl, rfl, fun _ => rfl, fun _ => rfl⟩
  have hkeep : lockedFrame.Keeps (files.dispatch env request) :=
    Frame.Keeps.get.bind fun _ => Frame.Keeps.require.bind fun _ => locked_answer hmode env request
  obtain ⟨hl, hr⟩ := hkeep { s with fs := { s.fs with clock := env.clock } } hs
  rw [process_after]
  exact ⟨hl, onlyRead.trans hclock hr⟩

end

/-- **A read-only share is only read.**  Whatever the requests of a session and the handles they
open, no object is created, removed, renamed, linked or changed, but for access times, and these
stay too on a mount that records no reads. -/
theorem onlyRead_run (hmode : files.mode = .readOnly) (fs : Posix.Fs)
    (requests : List (Env × Request)) :
    OnlyRead fs (files.run (Session.new fs) requests).2.fs := by
  have hrun : ∀ s : Session, lockedFrame.rel s (files.run s requests).2 := by
    induction requests with
    | nil => exact fun s => lockedFrame.refl s
    | cons r rest ih =>
      exact fun s => lockedFrame.trans (locked_process hmode r.1 r.2 s) (ih _)
  exact (hrun (Session.new fs) (fun h hh => absurd hh List.not_mem_nil)).2

/-! ### A mount that records reads -/

/-- A share with one file, on a mount that records every read. -/
def sampleFs : Posix.Fs :=
  .ofList [⟨.dir 0 [("f", 1)], ⟨0o755, 0, 0, 0, 0, 0⟩⟩, ⟨.file [104, 105], ⟨0o644, 0, 0, 0, 0, 0⟩⟩]
    ⟨fun _ _ => true, fun _ => 4096, [], 0o022, 0, 0⟩

/-- Open the file and read it. -/
def sampleRequests : List (Env × Request) :=
  [(⟨7, "", 0⟩, .init), (⟨7, "", 0⟩, .open "f" { read := true }), (⟨7, "", 0⟩, .read "1" 0 10)]

theorem onlyRead_run_sample :
    OnlyRead sampleFs ((ofShare 0 .readOnly).run (Session.new sampleFs) sampleRequests).2.fs :=
  onlyRead_run rfl sampleFs sampleRequests

/-- Reading a file of a read-only share changes its access time there. -/
theorem read_changes_access_time :
    let after := ((ofShare 0 .readOnly).run (Session.new sampleFs) sampleRequests).2.fs
    (sampleFs.node 1).map (fun n => n.attr.atime) = some 0 ∧
      (after.node 1).map (fun n => n.attr.atime) = some 7 := by
  decide +kernel

end Files

end Tailcat.Sftp
