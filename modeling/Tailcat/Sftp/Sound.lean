import Tailcat.Lib.PosixSound
import Tailcat.Sftp.Files

/-!
# Sessions stay sound

Whatever a client sends, in every mode, the filesystem stays a sound one (`Posix.Fs.Sound`) and
every handle of an open file stands for an object (`Session.Live`).  `sound_run` is the result; the
frame behind it is `steady`, with one lemma for each request.

Soundness says of the tree what the handlers rely on: the base of the share is a directory, and so
is the parent of every directory.  The calls of the operating system keep it (`Posix.lasting`), so
only the handlers remain to be gone through, and most of them are a sequence of calls with nothing
in between.

The sessions of the other modules assume a sound filesystem to begin with.  This module is what lets
them assume it for the rest of the session.
-/

namespace Tailcat.Sftp

open Posix (Base Fs FsM lasting)
open Program (Ends Frame require)

/-- Every handle of an open file stands for an object. -/
def Session.Live (s : Session) : Prop :=
  ∀ h ∈ s.handles, ∀ ino append readable writable,
    h.2 = .file ino append readable writable → ∃ n, s.fs.node ino = some n

/-- The filesystem is sound, and the handles stand for objects. -/
structure Session.Sound (base : Base) (s : Session) : Prop where
  fs : s.fs.Sound base
  live : s.Live

/-- A sound session stays sound. -/
def steady (base : Base) : Frame Session where
  rel s s' := s.Sound base → s'.Sound base
  refl _ h := h
  trans h h' hs := h' (h hs)

section

variable {base : Base} {s : Session} {α : Type}

theorem steady_fs {fs : Fs} (h : (lasting base []).rel s.fs fs) :
    (steady base).rel s { s with fs } := by
  intro hs
  obtain ⟨hsound, -, hnode⟩ := h ⟨hs.fs, fun d hd => absurd hd List.not_mem_nil⟩
  refine ⟨hsound, fun h hh ino append readable writable heq => ?_⟩
  obtain ⟨n, hn⟩ := hs.live h hh ino append readable writable heq
  exact Option.isSome_iff_exists.1 (hnode ino (by rw [hn]; rfl))

theorem steady_attempt {m : FsM α} (h : (lasting base []).Keeps m) :
    (steady base).Keeps (attempt m) := by
  intro s
  have hm := h s.fs
  unfold attempt
  cases hr : m s.fs with
  | ok a fs =>
    rw [hr] at hm
    exact steady_fs hm
  | error e fs =>
    rw [hr] at hm
    exact steady_fs hm

theorem steady_call {m : FsM α} (h : (lasting base []).Keeps m) : (steady base).Keeps (call m) :=
  (steady_attempt h).bind fun r => by
    cases r with
    | ok a => exact Frame.Keeps.pure a
    | error e => exact Frame.Keeps.throw _

theorem steady_ofExcept (r : Except StatusCode α) : (steady base).Keeps (ofExcept r) := by
  cases r with
  | ok a => exact Frame.Keeps.pure a
  | error e => exact Frame.Keeps.throw e

/-- A change of what a session remembers, the handles apart. -/
theorem steady_wrote (p : Posix.Path × Posix.Path) :
    (steady base).Keeps (modify fun s => { s with wrote := p :: s.wrote } : FxM PUnit) :=
  Frame.Keeps.modify fun _ hs => ⟨hs.fs, hs.live⟩

end

namespace Files

variable (base : Base)

theorem steady_getHandle (handle : String) : (steady base).Keeps (getHandle handle) :=
  Frame.Keeps.get.bind fun _ => Frame.Keeps.pure _

/-- A handle that stands for no file. -/
theorem steady_addDirectory (entries : List File) (next : ℕ) :
    (steady base).Keeps (addHandle (.directory entries next)) :=
  Frame.Keeps.modifyGet fun s hs => by
    refine ⟨hs.fs, fun h hh ino append readable writable heq => ?_⟩
    rcases List.mem_cons.1 hh with rfl | hh
    · cases heq
    · exact hs.live h hh ino append readable writable heq

theorem steady_close (handle : String) : (steady base).Keeps (close handle) :=
  (Frame.Keeps.modifyGet fun _ hs =>
    ⟨hs.fs, fun h hh => hs.live h (List.mem_filter.1 hh).1⟩).bind fun _ =>
      Frame.Keeps.require.bind fun _ => Frame.Keeps.pure _

theorem steady_fstat (handle : String) : (steady base).Keeps (fstat handle) :=
  (steady_getHandle base handle).bind fun h => by
    split
    · exact (steady_call (Posix.keeps_fstat Posix.pathFrame_lasting _)).bind fun _ =>
        Frame.Keeps.get.bind fun _ => Frame.Keeps.pure _
    · exact Frame.Keeps.throw _

theorem steady_fsync (handle : String) : (steady base).Keeps (fsync handle) :=
  (steady_getHandle base handle).bind fun h => by
    split
    · exact (steady_call (Posix.lasting_enter base [])).bind fun _ => Frame.Keeps.pure _
    · exact Frame.Keeps.throw _

theorem steady_readdir (handle : String) : (steady base).Keeps (readdir handle) :=
  (steady_getHandle base handle).bind fun h => by
    split
    · refine Frame.Keeps.require.bind fun _ =>
        (Frame.Keeps.modify fun s hs => ⟨hs.fs, ?_⟩).bind fun _ => Frame.Keeps.pure _
      intro h' hh' ino append readable writable heq
      rcases List.mem_cons.1 hh' with rfl | hh'
      · cases heq
      · exact hs.live h' (List.mem_filter.1 hh').1 ino append readable writable heq
    · exact Frame.Keeps.throw _

theorem steady_write (handle : String) (offset : UInt64) (data : Bytes) :
    (steady base).Keeps (write handle offset data) :=
  (steady_getHandle base handle).bind fun h => by
    split
    · exact (steady_call (Posix.lasting_write base [] _ _ _ _)).bind fun _ => Frame.Keeps.pure _
    · exact Frame.Keeps.throw _

variable (files : Files)

theorem steady_metadata (path : Posix.Path) (follow : Bool) :
    (steady base).Keeps (files.metadata path follow) :=
  (steady_call (Posix.keeps_stat Posix.pathFrame_lasting (Posix.resolves_lasting _ _)
    (Posix.resolves_lasting _ _) _)).bind fun _ =>
    Frame.Keeps.get.bind fun _ => Frame.Keeps.pure _

theorem steady_init : (steady base).Keeps files.init :=
  Frame.Keeps.get.bind fun _ => Frame.Keeps.require.bind fun _ =>
    (Frame.Keeps.modify fun _ hs => ⟨hs.fs, hs.live⟩).bind fun _ => Frame.Keeps.pure _

theorem steady_realPath (path : String) : (steady base).Keeps (files.realPath path) :=
  (steady_ofExcept _).bind fun _ => by
    split <;> exact Frame.Keeps.pure _

theorem steady_read (handle : String) (offset : UInt64) (len : UInt32) :
    (steady base).Keeps (files.read handle offset len) :=
  Frame.Keeps.require.bind fun _ => (steady_getHandle base handle).bind fun h => by
    split
    · exact (steady_call (Posix.lasting_read base [] _ _ _)).bind fun _ =>
        Frame.Keeps.require.bind fun _ => Frame.Keeps.pure _
    · exact Frame.Keeps.throw _

theorem steady_readLink (path : String) : (steady base).Keeps (files.readLink path) :=
  Frame.Keeps.require.bind fun _ => (steady_ofExcept _).bind fun _ =>
    (steady_call (Posix.lasting_readLink base _ [] _)).bind fun _ => Frame.Keeps.pure _

theorem steady_opendir (path : String) : (steady base).Keeps (files.opendir path) :=
  Frame.Keeps.require.bind fun _ => (steady_ofExcept _).bind fun _ =>
    (steady_call (Posix.lasting_readDir base _ [] _)).bind fun names =>
      (Frame.Keeps.mapM (fun _ => (steady_metadata base files _ false).bind fun _ =>
        Frame.Keeps.pure _) names).bind fun _ => steady_addDirectory base _ _

theorem steady_statPath (path : Posix.Path) (follow : Bool) :
    (steady base).Keeps (files.statPath path follow) := by
  unfold statPath
  split
  · exact steady_metadata base files path follow
  · refine Frame.Keeps.get.bind fun s => ?_
    split
    · exact steady_metadata base files _ follow
    · refine Frame.Keeps.require.bind fun _ =>
        (steady_attempt (Posix.keeps_stat Posix.pathFrame_lasting (Posix.resolves_lasting _ _)
          (Posix.resolves_lasting _ _) _)).bind fun r => ?_
      cases r with
      | error e => exact Frame.Keeps.throw _
      | ok n =>
        exact Frame.Keeps.get.bind fun _ => Frame.Keeps.require.bind fun _ => Frame.Keeps.pure _

theorem steady_statRequest (path : String) (follow : Bool) :
    (steady base).Keeps (files.statRequest path follow) :=
  (steady_ofExcept _).bind fun _ => (steady_statPath base files _ _).bind fun _ =>
    Frame.Keeps.pure _

/-! ### Opening -/

/-- A handle for an object that a call answers with. -/
theorem steady_addFile (ino : ℕ) (append readable writable : Bool) {s : Session}
    (hino : (s.fs.node ino).isSome) :
    (steady base).rel s (Program.after (addHandle (.file ino append readable writable) s)) := by
  intro hs
  refine ⟨hs.fs, fun h hh ino' append' readable' writable' heq => ?_⟩
  rcases List.mem_cons.1 hh with rfl | hh
  · cases heq
    exact Option.isSome_iff_exists.1 hino
  · exact hs.live h hh ino' append' readable' writable' heq

/-- A sound session stays sound, and a program answers with an object. -/
def Opens (m : FxM ℕ) : Prop :=
  ∀ s, Ends (fun i s' => (steady base).rel s s' ∧ (s'.fs.node i).isSome)
    (fun _ s' => (steady base).rel s s') (m s)

theorem opens_attempt (path : Posix.Path) (flags : OpenFlags) (exclusive : Bool) (s : Session) :
    Ends (fun r s' => (steady base).rel s s' ∧ ∀ i, r = .ok i → (s'.fs.node i).isSome)
      (fun _ s' => (steady base).rel s s') (attempt (files.openFile path flags exclusive) s) := by
  have hkeep : (lasting base []).Keeps (files.openFile path flags exclusive) := by
    unfold openFile
    cases files.root with
    | none => exact Posix.lasting_openFile base _ [] path _ _
    | some root => exact Posix.lasting_openFile base _ [] path _ _
  have hlive : Ends (fun i fs' => (fs'.node i).isSome) (fun _ _ => True)
      (files.openFile path flags exclusive s.fs) := by
    unfold openFile
    cases files.root with
    | none => exact Posix.openFile_live _ s.fs path _ _
    | some root => exact Posix.openFile_live _ s.fs path _ _
  have hrel := steady_attempt hkeep s
  unfold attempt at hrel ⊢
  cases hr : files.openFile path flags exclusive s.fs with
  | ok i fs =>
    rw [hr] at hrel hlive
    exact ⟨hrel, fun j hj => Except.ok.inj hj ▸ hlive⟩
  | error e fs =>
    rw [hr] at hrel
    exact ⟨hrel, fun j hj => by cases hj⟩

theorem opens_call (path : Posix.Path) (flags : OpenFlags) (exclusive : Bool) :
    Opens base (call (files.openFile path flags exclusive)) := by
  intro s
  refine (opens_attempt base files path flags exclusive s).bind fun r s₁ h => ?_
  cases r with
  | ok i => exact ⟨h.1, h.2 i rfl⟩
  | error e => exact h.1

/-- Remembering a creation. -/
theorem Opens.wrote {m : FxM ℕ} (h : Opens base m) (p : Posix.Path × Posix.Path) :
    Opens base (do
      let ino ← m
      modify fun s => { s with wrote := p :: s.wrote }
      return ino) := fun s =>
  (h s).bind fun _ _ h₁ =>
    ⟨(steady base).trans h₁.1 fun hs => ⟨hs.fs, hs.live⟩, h₁.2⟩

theorem opens_openNew (env : Env) (requested : Posix.Path) :
    Opens base (files.openNew env requested) := by
  unfold openNew
  split
  · exact (opens_call base files _ _ _).wrote base _
  · intro s
    refine (opens_attempt base files _ _ _ s).bind fun r s₁ h => ?_
    cases r with
    | ok i => exact ⟨(steady base).trans h.1 fun hs => ⟨hs.fs, hs.live⟩, h.2 i rfl⟩
    | error e =>
      have hunique := (opens_call base files (uniquePath requested env.stamp env.random)
        createFlags true).wrote base (requested, uniquePath requested env.stamp env.random) s₁
      cases e with
      | exist =>
        exact hunique.mono (fun _ _ h' => ⟨(steady base).trans h.1 h'.1, h'.2⟩)
          fun _ _ h' => (steady base).trans h.1 h'
      | _ => exact h.1

/-- Opening a file. -/
theorem steady_open (env : Env) (filename : String) (flags : OpenFlags) :
    (steady base).Keeps (files.open env filename flags) := by
  have hadd : ∀ {m : FxM ℕ} (append readable writable : Bool), Opens base m →
      (steady base).Keeps (m >>= fun ino => addHandle (.file ino append readable writable)) := by
    intro m append readable writable hm s
    have hend : Ends (fun _ s' => (steady base).rel s s') (fun _ s' => (steady base).rel s s')
        ((m >>= fun ino => addHandle (.file ino append readable writable)) s) :=
      (hm s).bind fun ino s₁ h =>
        (steady base).trans h.1 (steady_addFile base ino append readable writable h.2)
    exact hend.after
  refine Frame.Keeps.require.bind fun _ => (steady_ofExcept _).bind fun requested => ?_
  split
  · exact Frame.Keeps.require.bind fun _ => Frame.Keeps.require.bind fun _ =>
      hadd false _ _ (opens_openNew base files env requested)
  · exact hadd _ _ _ (opens_call base files requested flags false)

/-! ### Changing attributes and entries -/

theorem steady_setIf {β : Type} {o : Option β} {f : β → FxM Unit}
    (h : ∀ b, (steady base).Keeps (f b)) : (steady base).Keeps (setIf o f) := by
  cases o with
  | none => exact Frame.Keeps.pure _
  | some b => exact h b

theorem steady_setTimes {attrs : FileAttributes} {f : Option ℤ → Option ℤ → FsM Unit}
    (h : ∀ atime mtime, (lasting base []).Keeps (f atime mtime)) :
    (steady base).Keeps (setTimes attrs f) := by
  unfold setTimes
  split_ifs
  · exact steady_call (h _ _)
  · exact Frame.Keeps.pure _

theorem steady_setOwner {attrs : FileAttributes} {f : Option ℕ → Option ℕ → FsM Unit}
    (h : ∀ uid gid, (lasting base []).Keeps (f uid gid)) :
    (steady base).Keeps (setOwner attrs f) := by
  unfold setOwner
  split_ifs
  · exact steady_call (h _ _)
  · exact Frame.Keeps.pure _

theorem steady_setAttrsAt (path : Posix.Path) (attrs : FileAttributes) :
    (steady base).Keeps (files.setAttrsAt path attrs) := by
  have hlen : (steady base).Keeps (setIf attrs.size fun size => call (files.setLenAt path size)) :=
    steady_setIf base fun _ => steady_call ((Posix.lasting_openFile base _ [] path _ _).bind
      fun i => Posix.lasting_ftruncate base [] i _)
  have hmode : (steady base).Keeps (setIf attrs.permissions fun mode =>
      call (Posix.chmod files.base path (permissionBits mode))) :=
    steady_setIf base fun _ => steady_call (Posix.lasting_at base _ [] path fun i =>
      Posix.lasting_fchmod base [] i _)
  have htimes : (steady base).Keeps (setTimes attrs (Posix.utimes files.base path)) :=
    steady_setTimes base fun _ _ => Posix.lasting_at base _ [] path fun i =>
      Posix.lasting_futimes base [] i _ _
  unfold setAttrsAt
  cases files.root with
  | some root => exact hmode.bind fun _ => htimes.bind fun _ => hlen
  | none =>
    exact hlen.bind fun _ => hmode.bind fun _ => htimes.bind fun _ =>
      steady_setOwner base fun _ _ => Posix.lasting_at base _ [] path fun i =>
        Posix.lasting_fchown base [] i _ _

theorem steady_setStat (path : String) (attrs : FileAttributes) :
    (steady base).Keeps (files.setStat path attrs) := by
  refine (steady_ofExcept _).bind fun path => Frame.Keeps.require.bind fun _ => ?_
  have hsettable : (steady base).Keeps (files.settable path) := by
    unfold settable
    split
    · refine Frame.Keeps.get.bind fun s => ?_
      split
      · exact Frame.Keeps.pure _
      · exact Frame.Keeps.throw _
    · exact Frame.Keeps.pure _
  exact hsettable.bind fun _ => (steady_setAttrsAt base files _ attrs).bind fun _ =>
    Frame.Keeps.pure _

theorem steady_setFileAttrs (ino : ℕ) (attrs : FileAttributes) (full : Bool) :
    (steady base).Keeps (setFileAttrs ino attrs full) := by
  have hlen : (steady base).Keeps (setIf attrs.size fun size =>
      call (Posix.ftruncate ino size.toNat)) :=
    steady_setIf base fun _ => steady_call (Posix.lasting_ftruncate base [] ino _)
  have hmode : (steady base).Keeps (setIf attrs.permissions fun mode =>
      call (Posix.fchmod ino (permissionBits mode))) :=
    steady_setIf base fun _ => steady_call (Posix.lasting_fchmod base [] ino _)
  have htimes : (steady base).Keeps (setTimes attrs (Posix.futimes ino)) :=
    steady_setTimes base fun _ _ => Posix.lasting_futimes base [] ino _ _
  unfold setFileAttrs
  split
  · exact hlen.bind fun _ => hmode.bind fun _ => htimes.bind fun _ =>
      steady_setOwner base fun _ _ => Posix.lasting_fchown base [] ino _ _
  · exact hmode.bind fun _ => htimes.bind fun _ => hlen

theorem steady_fSetStat (handle : String) (attrs : FileAttributes) :
    (steady base).Keeps (files.fSetStat handle attrs) :=
  Frame.Keeps.require.bind fun _ => (steady_getHandle base handle).bind fun h => by
    split
    · exact Frame.Keeps.require.bind fun _ => (steady_setFileAttrs base _ attrs _).bind fun _ =>
        Frame.Keeps.pure _
    · exact Frame.Keeps.throw _

theorem steady_mkDir (path : String) : (steady base).Keeps (files.mkDir path) := by
  refine Frame.Keeps.require.bind fun _ => (steady_ofExcept _).bind fun path =>
    (steady_call (Posix.lasting_mkdir base _ [] path _)).bind fun _ => ?_
  split
  · exact (steady_wrote (path, path)).bind fun _ => Frame.Keeps.pure _
  · exact Frame.Keeps.pure _

/-- A call of a read-write session. -/
theorem steady_rw {m : FsM Unit} (h : (lasting base []).Keeps m) :
    (steady base).Keeps (call m >>= fun _ => pure (.status .ok) : FxM Reply) :=
  (steady_call h).bind fun _ => Frame.Keeps.pure _

theorem steady_rename (old new : String) : (steady base).Keeps (files.rename old new) :=
  Frame.Keeps.require.bind fun _ => (steady_ofExcept _).bind fun _ => (steady_ofExcept _).bind
    fun _ => steady_rw base (Posix.lasting_rename base _ [] _ _)

theorem steady_symlink (linkpath targetpath : String) :
    (steady base).Keeps (files.symlink linkpath targetpath) := by
  have hmake : ∀ target : String, (steady base).Keeps (do
      let link ← ofExcept (files.path targetpath)
      call (Posix.symlink files.base target link)
      return .status .ok : FxM Reply) := fun target =>
    (steady_ofExcept _).bind fun _ => steady_rw base (Posix.lasting_symlink base _ [] target _)
  refine Frame.Keeps.require.bind fun _ => ?_
  cases files.root with
  | none =>
    exact (steady_ofExcept _).bind fun _ => (Frame.Keeps.pure _).bind fun target => hmake target
  | some root =>
    exact (steady_ofExcept _).bind fun _ => (Frame.Keeps.pure _).bind fun target => hmake target

theorem steady_extended (request : String) (data : Bytes) :
    (steady base).Keeps (files.extended request data) := by
  refine (steady_ofExcept _).bind fun p => ?_
  split_ifs
  · exact (steady_ofExcept _).bind fun _ => steady_rename base files _ _
  · exact Frame.Keeps.require.bind fun _ => (steady_ofExcept _).bind fun _ =>
      (steady_ofExcept _).bind fun _ => (steady_ofExcept _).bind fun _ =>
        steady_rw base (Posix.lasting_link base _ [] _ _)
  · exact steady_fsync base _
  · exact (steady_ofExcept _).bind fun _ => (steady_call (Posix.keeps_statvfs
      Posix.pathFrame_lasting (Posix.resolves_lasting _ _))).bind fun _ => Frame.Keeps.pure _
  · exact Frame.Keeps.throw _

/-! ### Every request -/

theorem steady_answer (env : Env) (request : Request) :
    (steady base).Keeps (files.answer env request) := by
  cases request with
  | init => exact steady_init base files
  | «open» filename flags => exact steady_open base files env filename flags
  | close handle => exact steady_close base handle
  | read handle offset len => exact steady_read base files handle offset len
  | write handle offset data => exact steady_write base handle offset data
  | fstat handle => exact steady_fstat base handle
  | stat path => exact steady_statRequest base files path true
  | lstat path => exact steady_statRequest base files path false
  | setStat path attrs => exact steady_setStat base files path attrs
  | fSetStat handle attrs => exact steady_fSetStat base files handle attrs
  | openDir path => exact steady_opendir base files path
  | readDir handle => exact steady_readdir base handle
  | realPath path => exact steady_realPath base files path
  | mkDir path => exact steady_mkDir base files path
  | remove filename =>
    exact Frame.Keeps.require.bind fun _ => (steady_ofExcept _).bind fun _ =>
      steady_rw base (Posix.lasting_unlink base _ [] _)
  | rmDir path =>
    exact Frame.Keeps.require.bind fun _ => (steady_ofExcept _).bind fun _ =>
      steady_rw base (Posix.lasting_rmdir base _ [] _)
  | rename oldpath newpath => exact steady_rename base files oldpath newpath
  | readLink path => exact steady_readLink base files path
  | symlink linkpath targetpath => exact steady_symlink base files linkpath targetpath
  | extended request data => exact steady_extended base files request data
  | other => exact Frame.Keeps.throw _

theorem steady_process (env : Env) (request : Request) (s : Session) :
    (steady base).rel s (files.process env request s).2 := by
  have hclock : (steady base).rel s { s with fs := { s.fs with clock := env.clock } } :=
    steady_fs (Posix.pathFrame_lasting.clock s.fs env.clock)
  have hkeep : (steady base).Keeps (files.dispatch env request) :=
    Frame.Keeps.get.bind fun _ => Frame.Keeps.require.bind fun _ =>
      steady_answer base files env request
  rw [process_after]
  exact (steady base).trans hclock (hkeep _)

end Files

/-- **Sessions stay sound**, whatever the requests. -/
theorem sound_run (files : Files) {base : Base} {fs : Fs} (h : fs.Sound base)
    (requests : List (Env × Request)) :
    (files.run (Session.new fs) requests).2.Sound base := by
  have hrun : ∀ s : Session, (steady base).rel s (files.run s requests).2 := by
    induction requests with
    | nil => exact fun s => (steady base).refl s
    | cons r rest ih =>
      exact fun s => (steady base).trans (Files.steady_process base files r.1 r.2 s) (ih _)
  exact hrun (Session.new fs) ⟨h, fun h hh => absurd hh List.not_mem_nil⟩

end Tailcat.Sftp
