import Tailcat.Sftp.Files
import Tailcat.Lib.PosixMake

/-!
# Drop boxes

What a session of a write-only share can see and change (`dropBox_run`): its replies contain no
data, no entries and no link, the objects that were there before stay as they are, and each object
it makes is made exclusively; in the plain write-only mode, in the root under a name of the
server's choosing.

The invariant is `Session.Private`: the paths in `wrote` and the handles stand for objects the
session made.  Objects are numbered in order, so these are the objects from the number `m` on that
was next when the session started.

Every request is gone through twice: once for what it does to the filesystem (`tending`, and
`Effect` for the two that make something), once for what its reply tells (`Discreet`).  In the mode
that keeps the requested names an object can be made in a directory that a link leads to, so the
statement has the access times of links in it; the plain mode follows none.
-/

namespace Tailcat.Sftp

open Posix (Path FsM Leads Owns Made Unmade Straight owning)
open Program (Frame Ends Yields after require)

/-- May the session pass through symbolic links?  In the plain write-only mode it does not. -/
def Files.links (files : Files) : Bool := files.mode ≠ .writeOnly

/-- The session can only reach what it made: the objects from `m` on. -/
structure Session.Private (m : ℕ) (files : Files) (s : Session) : Prop where
  next : m ≤ s.fs.next
  wrote : ∀ w ∈ s.wrote, Leads m files.links files.base s.fs w.2
  handles : ∀ h ∈ s.handles, ∃ ino append readable writable,
    h.2 = .file ino append readable writable ∧ m ≤ ino

section Private

variable {m : ℕ} {files : Files} {s : Session}

theorem mem_of_lookup {α β : Type} [BEq α] [LawfulBEq α] {l : List (α × β)} {a : α} {b : β}
    (h : l.lookup a = some b) : (a, b) ∈ l := by
  obtain ⟨l₁, l₂, rfl, -⟩ := List.lookup_eq_some_iff.1 h
  simp

theorem Session.Private.leads (hs : s.Private m files) {path actual : Path}
    (h : s.wrote.lookup path = some actual) : Leads m files.links files.base s.fs actual :=
  hs.wrote _ (mem_of_lookup h)

theorem Session.Private.file (hs : s.Private m files) {handle : String} {o : OpenHandle}
    (h : s.handles.lookup handle = some o) :
    ∃ ino append readable writable, o = .file ino append readable writable ∧ m ≤ ino :=
  hs.handles _ (mem_of_lookup h)

/-- A session whose filesystem has grown since. -/
theorem Session.Private.grow {s' : Session} (hs : s.Private m files) (hw : s'.wrote = s.wrote)
    (hh : s'.handles = s.handles) (hg : Posix.Grows s.fs s'.fs) : s'.Private m files where
  next := le_trans hs.next hg.next
  wrote w hmem := (hs.wrote w (hw ▸ hmem)).mono hg
  handles h hmem := hs.handles h (hh ▸ hmem)

end Private

/-- As long as some paths lead to objects from `m` on, only such objects are changed, and the
session can reach no others. -/
def tending (m : ℕ) (files : Files) (paths : List Path) : Frame Session where
  rel s s' := s.Private m files → (∀ a ∈ paths, Leads m files.links files.base s.fs a) →
    s'.Private m files ∧ Owns m files.links s.fs s'.fs
  refl s hs _ := ⟨hs, Posix.owns_of_node rfl rfl rfl rfl⟩
  trans {s t u} h h' hs hp := by
    obtain ⟨ht, hst⟩ := h hs hp
    obtain ⟨hu, htu⟩ := h' ht fun a ha => (hp a ha).mono hst.toGrows
    exact ⟨hu, hst.trans hs.next htu⟩

section Tending

variable {m : ℕ} {files : Files} {paths : List Path} {α : Type}

theorem tending_fs {s : Session} {fs : Posix.Fs}
    (h : (owning m files.links files.base paths).rel s.fs fs) :
    (tending m files paths).rel s { s with fs } := by
  intro hs hp
  have ho := h hs.next hp
  exact ⟨hs.grow rfl rfl ho.toGrows, ho⟩

theorem tending_attempt {n : FsM α} (h : (owning m files.links files.base paths).Keeps n) :
    (tending m files paths).Keeps (attempt n) := by
  intro s
  have hn := h s.fs
  unfold attempt
  cases hr : n s.fs with
  | ok a fs =>
    rw [hr] at hn
    exact tending_fs hn
  | error e fs =>
    rw [hr] at hn
    exact tending_fs hn

theorem tending_call {n : FsM α} (h : (owning m files.links files.base paths).Keeps n) :
    (tending m files paths).Keeps (call n) :=
  (tending_attempt h).bind fun r => by
    cases r with
    | ok a => exact Frame.Keeps.pure a
    | error e => exact Frame.Keeps.throw _

theorem tending_ofExcept (r : Except StatusCode α) :
    (tending m files paths).Keeps (ofExcept r) := by
  cases r with
  | ok a => exact Frame.Keeps.pure a
  | error e => exact Frame.Keeps.throw e

/-- What is done with a handle is done with a file from `m` on. -/
theorem tending_getHandle {f : Option OpenHandle → FxM α} (handle : String)
    (hnone : (tending m files paths).Keeps (f none))
    (hfile : ∀ ino append readable writable, m ≤ ino →
      (tending m files paths).Keeps (f (some (.file ino append readable writable)))) :
    (tending m files paths).Keeps (Files.getHandle handle >>= f) := by
  intro s hs hp
  rw [Files.getHandle_bind]
  cases ho : s.handles.lookup handle with
  | none => exact hnone s hs hp
  | some o =>
    obtain ⟨ino, append, readable, writable, rfl, hino⟩ := hs.file ho
    exact hfile ino append readable writable hino s hs hp

theorem tending_setIf {β : Type} {o : Option β} {f : β → FxM Unit}
    (h : ∀ b, (tending m files paths).Keeps (f b)) :
    (tending m files paths).Keeps (Files.setIf o f) := by
  cases o with
  | none => exact Frame.Keeps.pure _
  | some b => exact h b

theorem tending_setTimes {attrs : FileAttributes} {f : Option ℤ → Option ℤ → FsM Unit}
    (h : ∀ a b, (owning m files.links files.base paths).Keeps (f a b)) :
    (tending m files paths).Keeps (Files.setTimes attrs f) := by
  unfold Files.setTimes
  split_ifs
  · exact tending_call (h _ _)
  · exact Frame.Keeps.pure _

end Tending

/-! ### Requests that make nothing -/

namespace Files

section

variable {m : ℕ} {files : Files} {paths : List Path}

theorem tending_init : (tending m files paths).Keeps files.init :=
  Frame.Keeps.get.bind fun _ => Frame.Keeps.require.bind fun _ =>
    (Frame.Keeps.modify fun _ hs _ =>
      ⟨hs.grow rfl rfl (Posix.growing.refl _), Posix.owns_of_node rfl rfl rfl rfl⟩).bind
      fun _ => Frame.Keeps.pure _

theorem tending_close (handle : String) : (tending m files paths).Keeps (close handle) := by
  refine (Frame.Keeps.modifyGet fun s hs _ => ⟨⟨hs.next, hs.wrote, fun h hh => ?_⟩, ?_⟩).bind
    fun _ => Frame.Keeps.require.bind fun _ => Frame.Keeps.pure _
  · exact hs.handles h (List.mem_filter.1 hh).1
  · exact Posix.owns_of_node rfl rfl rfl rfl

theorem tending_write (handle : String) (offset : UInt64) (data : Bytes) :
    (tending m files paths).Keeps (write handle offset data) := by
  refine tending_getHandle handle (Frame.Keeps.throw _) fun ino append readable writable hino => ?_
  cases writable with
  | true => exact (tending_call (Posix.keeps_write hino _ _ _)).bind fun _ => Frame.Keeps.pure _
  | false => exact Frame.Keeps.throw _

theorem tending_fstat (handle : String) : (tending m files paths).Keeps (fstat handle) :=
  tending_getHandle handle (Frame.Keeps.throw _) fun ino _ _ _ _ =>
    (tending_call (Posix.keeps_fstat Posix.pathFrame_owning ino)).bind fun _ =>
      Frame.Keeps.get.bind fun _ => Frame.Keeps.pure _

theorem tending_fsync (handle : String) : (tending m files paths).Keeps (fsync handle) :=
  tending_getHandle handle (Frame.Keeps.throw _) fun _ _ _ _ _ =>
    (tending_call (Posix.keeps_enter Posix.pathFrame_owning)).bind fun _ => Frame.Keeps.pure _

/-- In a session without directory handles there is nothing to list. -/
theorem tending_readdir (handle : String) : (tending m files paths).Keeps (readdir handle) :=
  tending_getHandle handle (Frame.Keeps.throw _) fun _ _ _ _ _ => Frame.Keeps.throw _

theorem tending_realPath (path : String) : (tending m files paths).Keeps (files.realPath path) :=
  (tending_ofExcept _).bind fun _ => by
    split <;> exact Frame.Keeps.pure _

theorem tending_setFileAttrs {ino : ℕ} (hino : m ≤ ino) (attrs : FileAttributes)
    (hroot : files.root.isNone = false) :
    (tending m files paths).Keeps (setFileAttrs ino attrs files.root.isNone) := by
  simp only [setFileAttrs, hroot]
  exact (tending_setIf fun _ => tending_call (Posix.keeps_fchmod hino _)).bind fun _ =>
    (tending_setTimes fun _ _ => Posix.keeps_futimes hino _ _).bind fun _ =>
      tending_setIf fun _ => tending_call (Posix.keeps_ftruncate hino _)

theorem tending_fSetStat (hroot : files.root.isNone = false) (handle : String)
    (attrs : FileAttributes) : (tending m files paths).Keeps (files.fSetStat handle attrs) :=
  Frame.Keeps.require.bind fun _ =>
    tending_getHandle handle (Frame.Keeps.throw _) fun _ _ _ _ hino =>
      Frame.Keeps.require.bind fun _ => (tending_setFileAttrs hino attrs hroot).bind fun _ =>
        Frame.Keeps.pure _

/-- A request stopped by a condition that does not hold. -/
theorem tending_of_refused {c : Prop} [Decidable c] (hc : ¬c) {f : Unit → FxM Reply} :
    (tending m files paths).Keeps ((require c .permissionDenied : FxM Unit) >>= f) := by
  rw [require, if_neg hc]
  exact Frame.Keeps.throw _

theorem tending_metadata {path : Path} (h : path ∈ paths) (follow : Bool) :
    (tending m files paths).Keeps (files.metadata path follow) :=
  (tending_call (Posix.keeps_stat Posix.pathFrame_owning (Posix.resolves_mem h)
    (Posix.resolves_parent h) _)).bind fun _ => Frame.Keeps.get.bind fun _ => Frame.Keeps.pure _

/-- What is done at a path the session wrote is done at one that leads to an object from `m`
on. -/
theorem tending_wrote {α : Type} {f : Path → FxM α} {g : FxM α} (path : Path)
    (hf : ∀ actual, (tending m files [actual]).Keeps (f actual))
    (hg : (tending m files []).Keeps g) :
    (tending m files []).Keeps (do
      match (← get).wrote.lookup path with
      | some actual => f actual
      | none => g) := by
  intro s hs hp
  have hrun : (do
      match (← get).wrote.lookup path with
      | some actual => f actual
      | none => g : FxM α) s = (match s.wrote.lookup path with
      | some actual => f actual
      | none => g) s := rfl
  rw [hrun]
  cases hw : s.wrote.lookup path with
  | none => exact hg s hs hp
  | some actual => exact hf actual s hs fun a ha => List.mem_singleton.1 ha ▸ hs.leads hw

end

/-! ### A write-only share -/

section

variable {m : ℕ} {files : Files} (hwo : files.mode.isWriteOnly)

include hwo

theorem root_of_writeOnly : ∃ root, files.root = some root := by
  cases hr : files.root with
  | some root => exact ⟨root, rfl⟩
  | none =>
    rw [files.rooted hr] at hwo
    exact absurd hwo (by decide)

theorem tending_setAttrsAt {paths : List Path} {path : Path} (h : path ∈ paths)
    (attrs : FileAttributes) : (tending m files paths).Keeps (files.setAttrsAt path attrs) := by
  obtain ⟨root, hroot⟩ := root_of_writeOnly hwo
  simp only [setAttrsAt, hroot]
  refine (tending_setIf fun _ => tending_call ?_).bind fun _ =>
    (tending_setTimes fun _ _ => ?_).bind fun _ => tending_setIf fun _ => tending_call ?_
  · exact Posix.keeps_at (fun _ hi => Posix.keeps_fchmod hi _) h
  · exact Posix.keeps_at (fun _ hi => Posix.keeps_futimes hi _ _) h
  · exact Posix.keeps_truncate h rfl rfl rfl _ _

/-- In a drop box only the session's own creations can be changed. -/
theorem settable_eq (path : Path) (s : Session) :
    files.settable path s = match s.wrote.lookup path with
      | some actual => .ok actual s
      | none => .error .permissionDenied s := by
  simp only [settable, hwo, if_true]
  change (match s.wrote.lookup path with
    | some actual => pure actual
    | none => throw .permissionDenied : FxM Path) s = _
  cases s.wrote.lookup path <;> rfl

theorem tending_setstatPath (path : Path) (attrs : FileAttributes) :
    (tending m files []).Keeps (files.setstatPath path attrs) := by
  refine Frame.Keeps.require.bind fun _ s hs hp => ?_
  have hrun := settable_eq hwo path s
  cases hw : s.wrote.lookup path with
  | none =>
    rw [hw] at hrun
    rw [Program.bind_error hrun]
    exact (tending m files []).refl s hs hp
  | some actual =>
    rw [hw] at hrun
    rw [Program.bind_ok hrun]
    have hset : (tending m files [actual]).Keeps (do
        files.setAttrsAt actual attrs
        return Reply.status .ok) :=
      (tending_setAttrsAt hwo (List.mem_singleton_self _) attrs).bind fun _ => Frame.Keeps.pure _
    exact hset s hs fun a ha => List.mem_singleton.1 ha ▸ hs.leads hw

/-- The attributes of other objects are those of the root, or of any directory where links may be
read. -/
theorem tending_statPath (path : Path) (follow : Bool) :
    (tending m files []).Keeps (files.statPath path follow) := by
  simp only [statPath, hwo, Bool.not_true, Bool.false_eq_true, if_false]
  refine tending_wrote path (fun actual => tending_metadata (List.mem_singleton_self _) follow) ?_
  by_cases hp : files.mode = .writeOnly ∧ path ≠ []
  · rw [require, if_neg (by simpa using hp)]
    exact Frame.Keeps.throw _
  have hresolves : ∀ path' : Path, path' = path ∨ path' = path.dropLast →
      Posix.Resolves (owning m files.links files.base []) files.base path' := by
    intro path' hpath'
    cases hl : files.links with
    | true => exact Posix.resolves_owning files.base path'
    | false =>
      have hnil : path = [] := by
        by_contra hne
        exact hp ⟨by simpa [links] using hl, hne⟩
      have hnil' : path' = [] := by
        rcases hpath' with rfl | rfl
        · exact hnil
        · rw [hnil, List.dropLast_nil]
      rw [hnil']
      exact Posix.resolves_nil files.base
  refine Frame.Keeps.require.bind fun _ => (tending_attempt (Posix.keeps_stat
    Posix.pathFrame_owning (hresolves _ (.inl rfl)) (hresolves _ (.inr rfl)) follow)).bind
    fun r => ?_
  cases r with
  | error e => exact Frame.Keeps.throw _
  | ok n => exact Frame.Keeps.get.bind fun _ => Frame.Keeps.require.bind fun _ => Frame.Keeps.pure _

theorem tending_statRequest (path : String) (follow : Bool) :
    (tending m files []).Keeps (files.statRequest path follow) :=
  (tending_ofExcept _).bind fun _ => (tending_statPath hwo _ _).bind fun _ => Frame.Keeps.pure _

theorem tending_setStat (path : String) (attrs : FileAttributes) :
    (tending m files []).Keeps (files.setStat path attrs) :=
  (tending_ofExcept _).bind fun _ => tending_setstatPath hwo _ _

theorem not_readWrite : files.mode ≠ .readWrite := by
  intro h
  rw [h] at hwo
  exact absurd hwo (by decide)

theorem tending_requireRw {f : Unit → FxM Reply} :
    (tending m files []).Keeps (files.requireRw >>= f) :=
  tending_of_refused (not_readWrite hwo)

theorem tending_extended (request : String) (data : Bytes) :
    (tending m files []).Keeps (files.extended request data) := by
  obtain ⟨root, hroot⟩ := root_of_writeOnly hwo
  refine (tending_ofExcept _).bind fun p => ?_
  split_ifs with _ _ _ h
  · exact (tending_ofExcept _).bind fun _ => tending_requireRw hwo
  · exact tending_requireRw hwo
  · exact tending_fsync _
  · rw [hroot] at h
    exact absurd h.2 (by simp)
  · exact Frame.Keeps.throw _

end

/-! ### Requests that make something -/

/-- The path is the one the server chooses for the request. -/
def ServerChosen (env : Env) : Request → Path → Prop
  | .open filename _, path =>
    ∃ name, relative filename = .ok [name] ∧ path = [uniqueName name env.stamp env.random]
  | _, _ => False

/-- What a request of a drop box does to the filesystem: it changes the session's own objects
only, or it makes one object exclusively, in the plain mode in the root under a name of the
server's choosing. -/
def Effect (m : ℕ) (files : Files) (env : Env) (request : Request) (fs fs' : Posix.Fs) : Prop :=
  Owns m files.links fs fs' ∨ ∃ path, Made m files.links files.base path fs fs' ∧
    (files.mode = .writeOnly → ServerChosen env request path)

/-- What came before without changing what the objects are. -/
theorem Effect.after {m : ℕ} {files : Files} {env : Env} {request : Request}
    {fs fs₁ fs' : Posix.Fs} (hm : m ≤ fs.next) (hu : Unmade m files.links fs fs₁)
    (h : Effect m files env request fs₁ fs') : Effect m files env request fs fs' := by
  rcases h with h | ⟨path, h, hp⟩
  · exact .inl (hu.toOwns.trans hm h)
  · exact .inr ⟨path, h.after hm hu, hp⟩

theorem Effect.preserves {m : ℕ} {files : Files} {env : Env} {request : Request}
    {fs fs' : Posix.Fs} (h : Effect m files env request fs fs') :
    Posix.Preserves m files.links fs fs' := by
  rcases h with h | ⟨path, h, -⟩
  · exact h.toPreserves
  · exact h.toPreserves

section

variable {m : ℕ} {files : Files} {s : Session}

/-- A session that has made an object, and remembers where it is. -/
theorem private_made {fs : Posix.Fs} {path : Path} (hs : s.Private m files)
    (h : Made m files.links files.base path s.fs fs) (requested : Path) :
    ({ s with fs := fs, wrote := (requested, path) :: s.wrote } : Session).Private m files where
  next := le_trans hs.next h.next
  wrote w hw := by
    rcases List.mem_cons.1 hw with rfl | hw
    · exact h.leads.le hs.next
    · exact (hs.wrote w hw).mono h.toGrows
  handles := hs.handles

theorem private_unmade {fs : Posix.Fs} (hs : s.Private m files)
    (h : Unmade m files.links s.fs fs) : ({ s with fs := fs } : Session).Private m files :=
  hs.grow rfl rfl h.toGrows

/-- The state after a creation in a drop box. -/
def Opened (m : ℕ) (files : Files) (env : Env) (requested : Path) (s : Session) (ino : ℕ)
    (s' : Session) : Prop :=
  ∃ path fs, Made m files.links files.base path s.fs fs ∧ ino = s.fs.next ∧
    s' = { s with fs := fs, wrote := (requested, path) :: s.wrote } ∧
    (files.mode = .writeOnly → path = uniquePath requested env.stamp env.random)

/-- The state after a creation that failed. -/
def NotOpened (m : ℕ) (files : Files) (s s' : Session) : Prop :=
  ∃ fs, s' = { s with fs := fs } ∧ Unmade m files.links s.fs fs

variable (hwo : files.mode.isWriteOnly)

include hwo

/-- A drop box opens files exclusively. -/
theorem openFile_makes {fs : Posix.Fs} {path : Path} (hm : m ≤ fs.next)
    (hp : Straight files.links path) :
    Ends (fun i fs' => i = fs.next ∧ Made m files.links files.base path fs fs')
      (fun _ fs' => Unmade m files.links fs fs') (files.openFile path createFlags true fs) := by
  obtain ⟨root, hroot⟩ := root_of_writeOnly hwo
  have hbase : files.base = .within root := by rw [base, hroot]
  simp only [openFile, hroot, hbase]
  exact Posix.openFile_makes hm hp rfl rfl 0o644

theorem openNew_ends (hs : s.Private m files) (env : Env) {requested : Path}
    (hp : files.mode = .writeOnly → requested.length = 1) :
    Ends (Opened m files env requested s) (fun _ => NotOpened m files s)
      (files.openNew env requested s) := by
  have hdrop : files.links = false → requested.dropLast = [] := fun hl => by
    have hlen : requested.length = 1 := hp (by simpa [links] using hl)
    exact List.length_eq_zero_iff.1 (by simp [hlen])
  have hstraight : Straight files.links (uniquePath requested env.stamp env.random) := fun hl => by
    simp [uniquePath, hdrop hl]
  unfold openNew
  by_cases hmode : files.mode = .writeOnly
  · rw [if_pos hmode]
    refine Ends.bind ((ends_call (openFile_makes hwo hs.next hstraight)).mono
      (fun _ _ h => h) fun _ s' h => ?_) fun ino s' h => ?_
    · obtain ⟨fs, e, -, rfl, hu⟩ := h
      exact ⟨fs, rfl, hu⟩
    · obtain ⟨fs, rfl, hi, hmade⟩ := h
      exact ⟨_, fs, hmade, hi, rfl, fun _ => rfl⟩
  rw [if_neg hmode]
  have hrequested : Straight files.links requested := fun hl => hdrop hl
  refine Ends.bind ((ends_attempt (openFile_makes hwo hs.next hrequested)).mono
    (fun _ _ h => h) fun _ s' h => h.elim) fun r s' h => ?_
  obtain ⟨fs, rfl, hr⟩ := h
  rcases r with e | ino
  · have hu : Unmade m files.links s.fs fs := hr
    cases e
    case exist =>
      -- the requested name is taken: the file gets one of the server's choosing
      refine Ends.bind ((ends_call (openFile_makes hwo (le_trans hs.next hu.next) hstraight)).mono
        (fun _ _ h => h) fun _ s' h => ?_) fun ino s' h => ?_
      · obtain ⟨fs', e, -, rfl, hu'⟩ := h
        exact ⟨fs', rfl, hu.trans hs.next hu'⟩
      · obtain ⟨fs', rfl, hi, hmade⟩ := h
        exact ⟨_, fs', hmade.after hs.next hu, hi.trans hu.same_next, rfl,
          fun hw => absurd hw hmode⟩
    all_goals exact ⟨fs, rfl, hu⟩
  · have hmade : ino = s.fs.next ∧ Made m files.links files.base requested s.fs fs := hr
    exact ⟨requested, fs, hmade.2, hmade.1, rfl, fun hw => absurd hw hmode⟩

theorem open_ends (hs : s.Private m files) (env : Env) (filename : String) (flags : OpenFlags) :
    (after (files.open env filename flags s)).Private m files ∧
      Effect m files env (.open filename flags) s.fs
        (after (files.open env filename flags s)).fs := by
  let Q : Session → Prop := fun s' =>
    s'.Private m files ∧ Effect m files env (.open filename flags) s.fs s'.fs
  have hsame : Q s := ⟨hs, .inl (Posix.owns_of_node rfl rfl rfl rfl)⟩
  refine Ends.after (P := Q) ?_
  unfold «open»
  refine Ends.bind (P := fun _ s' => s' = s) (Ends.require (fun _ => rfl) fun _ => hsame)
    fun _ s' h => ?_
  subst h
  cases hpath : files.path filename with
  | error e => exact hsame
  | ok requested =>
    refine Ends.bind (P := fun a s'' => a = requested ∧ s'' = s') ⟨rfl, rfl⟩ fun a s'' h => ?_
    obtain ⟨rfl, rfl⟩ := h
    rw [if_pos hwo]
    refine Ends.bind (P := fun _ s₁ => s₁ = s'') (Ends.require (fun _ => rfl) fun _ => hsame)
      fun _ s₁ h => ?_
    subst h
    refine Ends.bind (P := fun _ s₂ => s₂ = s₁ ∧ (files.mode = .writeOnly → a.length = 1))
      (Ends.require (fun h => ⟨rfl, h⟩) fun _ => hsame) fun _ s₂ h => ?_
    obtain ⟨rfl, hlen⟩ := h
    refine Ends.bind ((openNew_ends hwo hs env hlen).mono (fun _ _ h => h) fun _ s' h => ?_)
      fun ino s' h => ?_
    · obtain ⟨fs, rfl, hu⟩ := h
      exact ⟨private_unmade hs hu, .inl hu.toOwns⟩
    · obtain ⟨path, fs, hmade, rfl, rfl, hunique⟩ := h
      refine ⟨?_, .inr ⟨path, hmade, fun hw => ?_⟩⟩
      · have hp := private_made hs hmade a
        refine ⟨hp.next, hp.wrote, fun h hh => ?_⟩
        rcases List.mem_cons.1 hh with rfl | hh
        · exact ⟨_, _, _, _, rfl, hs.next⟩
        · exact hs.handles h hh
      · obtain ⟨name, rfl⟩ := List.length_eq_one_iff.1 (hlen hw)
        obtain ⟨root, hroot⟩ := root_of_writeOnly hwo
        refine ⟨name, ?_, hunique hw⟩
        simpa [Files.path, hroot] using hpath

theorem mkDir_ends (hs : s.Private m files) (env : Env) (path : String) :
    (after (files.mkDir path s)).Private m files ∧
      Effect m files env (.mkDir path) s.fs (after (files.mkDir path s)).fs := by
  let Q : Session → Prop := fun s' =>
    s'.Private m files ∧ Effect m files env (.mkDir path) s.fs s'.fs
  have hsame : Q s := ⟨hs, .inl (Posix.owns_of_node rfl rfl rfl rfl)⟩
  refine Ends.after (P := Q) ?_
  unfold mkDir
  refine Ends.bind (P := fun _ s' => s' = s ∧ files.mode ≠ .writeOnly)
    (Ends.require (fun h => ⟨rfl, h.2⟩) fun _ => hsame) fun _ s' h => ?_
  obtain ⟨rfl, hmode⟩ := h
  cases hpath : files.path path with
  | error e => exact hsame
  | ok path' =>
    refine Ends.bind (P := fun a s'' => a = path' ∧ s'' = s') ⟨rfl, rfl⟩ fun a s'' h => ?_
    obtain ⟨rfl, rfl⟩ := h
    have hstraight : Straight files.links a := fun hl =>
      absurd (by simpa [links] using hl) hmode
    have hmk : Ends (fun _ fs' => Made m files.links files.base a s''.fs fs')
        (fun _ fs' => Unmade m files.links s''.fs fs')
        (Posix.mkdir files.base a 0o755 s''.fs) := Posix.mkdir_makes hs.next hstraight 0o755
    refine Ends.bind ((ends_call hmk).mono (fun _ _ h => h) fun _ s₁ h => ?_) fun _ s₁ h => ?_
    · obtain ⟨fs, e, -, rfl, hu⟩ := h
      exact ⟨private_unmade hs hu, .inl hu.toOwns⟩
    · obtain ⟨fs, rfl, hmade⟩ := h
      rw [if_pos hwo]
      have hp := private_made hs hmade a
      exact ⟨hp, .inr ⟨a, hmade, fun hw => absurd hw hmode⟩⟩

/-- Every request, one case each. -/
theorem answer_ends (hs : s.Private m files) (env : Env) (request : Request) :
    (after (files.answer env request s)).Private m files ∧
      Effect m files env request s.fs (after (files.answer env request s)).fs := by
  have of_tending : ∀ {n : FxM Reply}, (tending m files []).Keeps n →
      (after (n s)).Private m files ∧ Effect m files env request s.fs (after (n s)).fs := by
    intro n hn
    obtain ⟨hp, ho⟩ := hn s hs (by simp)
    exact ⟨hp, .inl ho⟩
  obtain ⟨root, hroot⟩ := root_of_writeOnly hwo
  cases request with
  | «open» filename flags => exact open_ends hwo hs env filename flags
  | mkDir path => exact mkDir_ends hwo hs env path
  | init => exact of_tending tending_init
  | close handle => exact of_tending (tending_close handle)
  | read handle offset len => exact of_tending (tending_of_refused (by simp [hwo]))
  | write handle offset data => exact of_tending (tending_write handle offset data)
  | fstat handle => exact of_tending (tending_fstat handle)
  | stat path => exact of_tending (tending_statRequest hwo path true)
  | lstat path => exact of_tending (tending_statRequest hwo path false)
  | setStat path attrs => exact of_tending (tending_setStat hwo path attrs)
  | fSetStat handle attrs =>
    exact of_tending (tending_fSetStat (by simp [hroot]) handle attrs)
  | openDir path => exact of_tending (tending_of_refused (by simp [hwo]))
  | readDir handle => exact of_tending (tending_readdir handle)
  | realPath path => exact of_tending (tending_realPath path)
  | remove filename => exact of_tending (tending_requireRw hwo)
  | rmDir path => exact of_tending (tending_requireRw hwo)
  | rename oldpath newpath => exact of_tending (tending_requireRw hwo)
  | readLink path => exact of_tending (tending_of_refused (by simp [hwo]))
  | symlink linkpath targetpath => exact of_tending (tending_requireRw hwo)
  | extended request data => exact of_tending (tending_extended hwo request data)
  | other => exact of_tending (Frame.Keeps.throw _)

end

/-! ### Replies -/

/-- The reply tells nothing of what is stored: no data, no entries and no link. -/
def Discreet (request : Request) : Reply → Prop
  | .data _ => False
  | .extendedReply _ => False
  | .name entries => ∃ path cleaned, request = .realPath path ∧ relative path = .ok cleaned ∧
      entries = [⟨slashed cleaned, {}⟩]
  | _ => True

section

variable {files : Files} (hwo : files.mode.isWriteOnly)

theorem yields_refused {P : Reply → Prop} {c : Prop} [Decidable c] (hc : ¬c)
    {f : Unit → FxM Reply} : Yields P ((require c .permissionDenied : FxM Unit) >>= f) :=
  Yields.require_bind fun h => absurd h hc

include hwo

theorem yields_requireRw {P : Reply → Prop} {f : Unit → FxM Reply} :
    Yields P (files.requireRw >>= f) := yields_refused (not_readWrite hwo)

theorem discreet_realPath (path : String) :
    Yields (Discreet (.realPath path)) (files.realPath path) := by
  obtain ⟨root, hroot⟩ := root_of_writeOnly hwo
  have hpath : files.path path = relative path := by simp only [Files.path, hroot]
  simp only [realPath, hroot, hpath]
  cases hr : relative path with
  | error e => exact Yields.throw
  | ok cleaned => exact Yields.pure ⟨path, cleaned, rfl, hr, rfl⟩

theorem discreet_extended (request : String) (data : Bytes) :
    Yields (Discreet (.extended request data)) (files.extended request data) := by
  obtain ⟨root, hroot⟩ := root_of_writeOnly hwo
  refine Yields.bind fun p => ?_
  split_ifs with _ _ _ h
  · exact Yields.bind fun _ => yields_requireRw hwo
  · exact yields_requireRw hwo
  · refine Yields.bind fun h => ?_
    split
    · exact Yields.bind fun _ => Yields.pure trivial
    · exact Yields.throw
  · rw [hroot] at h
    exact absurd h.2 (by simp)
  · exact Yields.throw

variable {m : ℕ} {s : Session}

omit hwo in
/-- A drop box has no directory handles. -/
theorem readdir_eq (hs : s.Private m files) (handle : String) :
    readdir handle s = .error .failure s := by
  rw [readdir, getHandle_bind]
  cases ho : s.handles.lookup handle with
  | none => rfl
  | some o =>
    obtain ⟨ino, append, readable, writable, rfl, -⟩ := hs.file ho
    rfl

/-- Every reply, one case each. -/
theorem discreet_answer (hs : s.Private m files) (env : Env) (request : Request) :
    Ends (fun reply _ => Discreet request reply) (fun _ _ => True)
      (files.answer env request s) := by
  cases request with
  | init => exact Yields.bind (fun _ => Yields.bind fun _ => Yields.bind fun _ => Yields.pure trivial) s
  | «open» filename flags =>
    refine Yields.bind (fun _ => Yields.bind fun requested => ?_) s
    rw [if_pos hwo]
    exact Yields.bind fun _ => Yields.bind fun _ => Yields.bind fun ino s => trivial
  | close handle => exact Yields.bind (fun _ => Yields.bind fun _ => Yields.pure trivial) s
  | read handle offset len => exact yields_refused (by simp [hwo]) s
  | write handle offset data =>
    refine Yields.bind (fun o => ?_) s
    split
    · exact Yields.bind fun _ => Yields.pure trivial
    · exact Yields.throw
  | fstat handle =>
    refine Yields.bind (fun o => ?_) s
    split
    · exact Yields.bind fun _ => Yields.bind fun _ => Yields.pure trivial
    · exact Yields.throw
  | stat path => exact Yields.bind (fun _ => Yields.bind fun _ => Yields.pure trivial) s
  | lstat path => exact Yields.bind (fun _ => Yields.bind fun _ => Yields.pure trivial) s
  | setStat path attrs =>
    exact Yields.bind (fun _ => Yields.bind fun _ => Yields.bind fun _ => Yields.bind fun _ =>
      Yields.pure trivial) s
  | fSetStat handle attrs =>
    refine Yields.bind (fun _ => Yields.bind fun o => ?_) s
    split
    · exact Yields.bind fun _ => Yields.bind fun _ => Yields.pure trivial
    · exact Yields.throw
  | openDir path => exact yields_refused (by simp [hwo]) s
  | readDir handle =>
    have hrun : files.answer env (.readDir handle) s = .error .failure s := readdir_eq hs handle
    rw [hrun]
    trivial
  | realPath path => exact discreet_realPath hwo path s
  | mkDir path =>
    refine Yields.bind (fun _ => Yields.bind fun _ => Yields.bind fun _ => ?_) s
    rw [if_pos hwo]
    exact Yields.bind fun _ => Yields.pure trivial
  | remove filename => exact yields_requireRw hwo s
  | rmDir path => exact yields_requireRw hwo s
  | rename oldpath newpath => exact yields_requireRw hwo s
  | readLink path => exact yields_refused (by simp [hwo]) s
  | symlink linkpath targetpath => exact yields_requireRw hwo s
  | extended request data => exact discreet_extended hwo request data s
  | other => trivial

/-! ### Runs -/

/-- One request: it is answered discreetly, does what a request of a drop box may do, and leaves
the session private. -/
theorem process_step (hs : s.Private m files) (env : Env) (request : Request) :
    Discreet request (files.process env request s).1 ∧
      Effect m files env request s.fs (files.process env request s).2.fs ∧
      (files.process env request s).2.Private m files := by
  have hclock : Unmade m files.links s.fs { s.fs with clock := env.clock } :=
    ⟨Posix.owns_of_node rfl rfl rfl rfl, rfl⟩
  have hs₁ : Session.Private m files { s with fs := { s.fs with clock := env.clock } } :=
    hs.grow rfl rfl hclock.toGrows
  refine process_of_ends files (P := fun reply s' => Discreet request reply ∧
    Effect m files env request s.fs s'.fs ∧ s'.Private m files) ?_
  rw [dispatch_eq]
  split_ifs
  · have hends := answer_ends hwo hs₁ env request
    have hreply := discreet_answer hwo hs₁ env request
    cases ha : files.answer env request { s with fs := { s.fs with clock := env.clock } } with
    | ok reply s' =>
      rw [ha] at hends hreply
      exact ⟨hreply, hends.2.after hs.next hclock, hends.1⟩
    | error e s' =>
      rw [ha] at hends
      exact ⟨trivial, hends.2.after hs.next hclock, hends.1⟩
  · exact ⟨trivial, .inl hclock.toOwns, hs₁⟩

theorem private_run (hs : s.Private m files) (requests : List (Env × Request)) :
    (files.run s requests).2.Private m files := by
  induction requests generalizing s with
  | nil => exact hs
  | cons r rest ih => exact ih (process_step hwo hs r.1 r.2).2.2

theorem discreet_run (hs : s.Private m files) (requests : List (Env × Request)) :
    List.Forall₂ (fun r reply => Discreet r.2 reply) requests (files.run s requests).1 := by
  induction requests generalizing s with
  | nil => exact .nil
  | cons r rest ih =>
    obtain ⟨hd, -, hs'⟩ := process_step hwo hs r.1 r.2
    exact .cons hd (ih hs')

theorem preserves_run (hs : s.Private m files) (requests : List (Env × Request)) :
    Posix.Preserves m files.links s.fs (files.run s requests).2.fs := by
  induction requests generalizing s with
  | nil => exact (Posix.preserving m files.links).refl s.fs hs.next
  | cons r rest ih =>
    obtain ⟨-, he, hs'⟩ := process_step hwo hs r.1 r.2
    exact (Posix.preserving m files.links).trans (fun _ => he.preserves) (fun _ => ih hs') hs.next

end

/-- A new session has made nothing. -/
theorem private_new (fs : Posix.Fs) : (Session.new fs).Private fs.next files :=
  ⟨le_refl _, fun _ h => absurd h List.not_mem_nil, fun _ h => absurd h List.not_mem_nil⟩

/-- **A drop box neither shows nor changes what was there before.**  Whatever the requests of a
session, no reply contains data, entries or the text of a link; the objects that were there before
stay as they are, but for the entries and times of directories that gain entries (and, where
symbolic links are followed, access times of links on a mount that records reads); and each request
changes only the session's own objects, or makes one object under a name that was free, in the
plain mode in the root under a name of the server's choosing. -/
theorem dropBox_run (hwo : files.mode.isWriteOnly) (fs : Posix.Fs)
    (requests : List (Env × Request)) :
    List.Forall₂ (fun r reply => Discreet r.2 reply) requests
        (files.run (Session.new fs) requests).1 ∧
      Posix.Preserves fs.next files.links fs (files.run (Session.new fs) requests).2.fs ∧
      ∀ before env request after, requests = before ++ (env, request) :: after →
        Effect fs.next files env request (files.run (Session.new fs) before).2.fs
          (files.run (Session.new fs) (before ++ [(env, request)])).2.fs := by
  refine ⟨discreet_run hwo (private_new fs) requests, preserves_run hwo (private_new fs) requests,
    fun before env request after _ => ?_⟩
  rw [run_append]
  exact (process_step hwo (private_run hwo (private_new fs) before) env request).2.1

/-! ### Samples -/

/-- A share with a file and a symbolic link to a directory, on a mount that records every read. -/
def dropBoxFs : Posix.Fs :=
  .ofList
    [⟨.dir 0 [("f", 1), ("d", 2), ("l", 3)], ⟨0o755, 0, 0, 0, 0, 0⟩⟩,
      ⟨.file [104, 105], ⟨0o644, 0, 0, 0, 0, 0⟩⟩, ⟨.dir 0 [], ⟨0o755, 0, 0, 0, 0, 0⟩⟩,
      ⟨.symlink "d", ⟨0o777, 0, 0, 0, 0, 0⟩⟩]
    ⟨fun _ _ => true, fun _ => 4096, [], 0o022, 0, 0⟩

/-- A file is sent under the name of one that is there. -/
def sendF : List (Env × Request) :=
  [(⟨7, "7", 0⟩, .init), (⟨7, "7", 1⟩, .open "f" { write := true, create := true }),
    (⟨8, "8", 0⟩, .write "1" 0 [1, 2, 3]), (⟨9, "9", 0⟩, .stat "f")]

theorem dropBox_run_sample :
    List.Forall₂ (fun r reply => Discreet r.2 reply) sendF
        ((ofShare 0 .writeOnly).run (Session.new dropBoxFs) sendF).1 ∧
      Posix.Preserves dropBoxFs.next false dropBoxFs
        ((ofShare 0 .writeOnly).run (Session.new dropBoxFs) sendF).2.fs :=
  have h := @dropBox_run (ofShare 0 .writeOnly) rfl dropBoxFs sendF
  ⟨h.1, h.2.1⟩

/-- Asking for the attributes of a directory behind a symbolic link sets the access time of the
link. -/
theorem stat_changes_link :
    let after := ((ofShare 0 .writeOnlyPlus).run (Session.new dropBoxFs)
      [(⟨7, "7", 0⟩, .init), (⟨7, "7", 0⟩, .stat "l")]).2.fs
    (dropBoxFs.node 3).map (fun n => n.attr.atime) = some 0 ∧
      (after.node 3).map (fun n => n.attr.atime) = some 7 := by
  decide +kernel

end Files

end Tailcat.Sftp
