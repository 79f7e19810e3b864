import Tailcat.Lib.PosixWalk

/-!
# Calls that only read

A frame of the filesystem that contains what resolving a path does, `Resolves`, is kept by the
calls that only resolve that path and look at objects (`keeps_stat`, `keeps_openFile`, ...).

`onlyRead` is such a frame: the filesystem stays as it is, access times apart.  It is kept by
reading files, directories and links too, and by opening a file without creating or truncating it
(`keeps_openFile`).
-/

namespace Posix

open Program

/-! ### Resolving paths -/

/-- A frame that says nothing about the faults to come and the clock. -/
structure PathFrame (F : Frame Fs) : Prop where
  faults : ∀ fs faults, F.rel fs { fs with faults }
  clock : ∀ fs clock, F.rel fs { fs with clock }

/-- The frame contains what resolving a path does. -/
def Resolves (F : Frame Fs) (base : Base) (path : Path) : Prop :=
  ∀ fs, F.rel fs (fs.resolved base path)

section PathFrame

variable {F : Frame Fs} {α : Type} {base : Base} {path : Path}

/-- A frame that contains reading links contains resolving paths. -/
theorem resolves_of_link
    (hlink : ∀ {fs i target}, fs.kind i = some (.symlink target) → F.rel fs (fs.access i))
    (base : Base) (path : Path) : Resolves F base path := by
  intro fs
  unfold Fs.resolved
  have hlinks : ∀ i ∈ (walk fs base maxLinks (base.start fs) path).1,
      ∃ target, fs.kind i = some (.symlink target) := walk_links
  generalize (walk fs base maxLinks (base.start fs) path).1 = is at hlinks
  induction is generalizing fs with
  | nil => exact F.refl fs
  | cons i is ih =>
    obtain ⟨target, hi⟩ := hlinks i List.mem_cons_self
    refine F.trans (hlink hi) (ih _ fun j hj => ?_)
    rw [kind_access]
    exact hlinks j (List.mem_cons_of_mem _ hj)

theorem resolves_nil (base : Base) : Resolves F base [] := by
  intro fs
  have hnil : fs.resolved base [] = fs := rfl
  rw [hnil]
  exact F.refl fs

theorem keeps_ofExcept (r : Except Errno α) : F.Keeps (ofExcept r) := by
  cases r with
  | ok a => exact Frame.Keeps.pure a
  | error e => exact Frame.Keeps.throw e

theorem keeps_nodeOf (i : ℕ) : F.Keeps (nodeOf i) :=
  Frame.Keeps.get.bind fun fs => by
    split
    · exact Frame.Keeps.pure _
    · exact Frame.Keeps.throw _

theorem keeps_resolve (hr : Resolves F base path) : F.Keeps (resolve base path) := by
  intro fs
  rw [resolve_eq]
  cases (walk fs base maxLinks (base.start fs) path).2 with
  | ok target => exact hr fs
  | error e => exact hr fs

theorem keeps_resolveIno (hr : Resolves F base path) : F.Keeps (resolveIno base path) :=
  (keeps_resolve hr).bind fun target => by
    cases target with
    | found i => exact Frame.Keeps.pure i
    | missing d name => exact Frame.Keeps.throw _

theorem keeps_resolveDir (hr : Resolves F base path) : F.Keeps (resolveDir base path) :=
  (keeps_resolveIno hr).bind fun i => Frame.Keeps.get.bind fun fs => by
    split
    · exact Frame.Keeps.pure i
    · exact Frame.Keeps.throw _

theorem keeps_lookupLast (hr : Resolves F base path.dropLast) :
    F.Keeps (lookupLast base path) := by
  unfold lookupLast splitLast
  cases path.getLast? with
  | none => exact Frame.Keeps.get.bind fun _ => Frame.Keeps.pure _
  | some name =>
    refine (keeps_resolveDir hr).bind fun d => Frame.Keeps.get.bind fun fs => ?_
    split
    · exact Frame.Keeps.pure _
    · exact Frame.Keeps.throw _

variable (hF : PathFrame F)

include hF

theorem keeps_nextFault : F.Keeps nextFault :=
  Frame.Keeps.modifyGet fun fs => hF.faults fs _

theorem keeps_enter : F.Keeps enter :=
  (keeps_nextFault hF).bind fun fault => by
    cases fault with
    | none => exact Frame.Keeps.pure _
    | some fault => exact Frame.Keeps.throw _

theorem keeps_stat (hr : Resolves F base path) (hp : Resolves F base path.dropLast)
    (follow : Bool) : F.Keeps (stat base path follow) :=
  (keeps_enter hF).bind fun _ => by
    cases follow with
    | true => exact (keeps_resolveIno hr).bind keeps_nodeOf
    | false => exact (keeps_lookupLast hp).bind keeps_nodeOf

theorem keeps_fstat (i : ℕ) : F.Keeps (fstat i) :=
  (keeps_enter hF).bind fun _ => keeps_nodeOf i

theorem keeps_statvfs (hr : Resolves F base path) : F.Keeps (statvfs base path) :=
  (keeps_enter hF).bind fun _ => (keeps_resolveIno hr).bind fun _ =>
    Frame.Keeps.get.bind fun _ => Frame.Keeps.pure _

/-- Opening without creating or truncating only resolves the path. -/
theorem keeps_openFile (hr : Resolves F base path) {o : OpenOptions} (hc : o.create = false)
    (ht : o.truncate = false) (hn : o.createNew = false) (mode : ℕ) :
    F.Keeps (openFile base path o mode) := by
  unfold openFile
  refine Frame.Keeps.require.bind fun _ => (keeps_enter hF).bind fun _ => ?_
  rw [hn, if_neg (by decide)]
  refine (keeps_resolve hr).bind fun target => ?_
  cases target with
  | missing d name =>
    simp only [hc]
    exact Frame.Keeps.throw _
  | found i =>
    refine (keeps_nodeOf i).bind fun n => ?_
    cases n.kind with
    | dir parent entries => exact Frame.Keeps.require.bind fun _ => Frame.Keeps.pure i
    | symlink target => exact Frame.Keeps.throw _
    | file data =>
      refine (Frame.Keeps.modify fun fs => ?_).bind fun _ => Frame.Keeps.pure i
      rw [ht, if_neg (by decide)]
      exact F.refl fs

end PathFrame

/-! ### Nothing but access times -/

/-- An object without its access time. -/
def Node.unread (n : Node) : Node := { n with attr := { n.attr with atime := 0 } }

theorem accessed_unread (host : Host) (clock : ℤ) (x : Node) :
    (Fs.accessed host clock x).unread = x.unread := by
  unfold Fs.accessed
  split_ifs <;> rfl

/-- Nothing but access times differs, and nothing at all if the mount records no reads. -/
structure OnlyRead (fs fs' : Fs) : Prop where
  next : fs'.next = fs.next
  host : fs'.host = fs.host
  node : ∀ i, (fs'.node i).map Node.unread = (fs.node i).map Node.unread
  quiet : (∀ a t, fs.host.records a t = false) → fs'.node = fs.node

/-- Nothing but access times changes. -/
def onlyRead : Frame Fs where
  rel := OnlyRead
  refl _ := ⟨rfl, rfl, fun _ => rfl, fun _ => rfl⟩
  trans h h' := {
    next := h'.next.trans h.next
    host := h'.host.trans h.host
    node := fun i => (h'.node i).trans (h.node i)
    quiet := fun hq => (h'.quiet (by rwa [h.host])).trans (h.quiet hq) }

theorem onlyRead_access (fs : Fs) (i : ℕ) : OnlyRead fs (fs.access i) where
  next := rfl
  host := rfl
  node j := by
    by_cases hj : j = i
    · have hu : Node.unread ∘ Fs.accessed fs.host fs.clock = Node.unread :=
        funext fun x => accessed_unread _ _ x
      simp only [Fs.access, Fs.update, if_pos hj, Option.map_map, hu]
    · simp only [Fs.access, Fs.update, if_neg hj]
  quiet hq := by
    funext j
    have ha : Fs.accessed fs.host fs.clock = id := by
      funext n
      simp [Fs.accessed, hq]
    simp only [Fs.access, Fs.update, ha, Option.map_id_fun, id, ite_self]

theorem pathFrame_onlyRead : PathFrame onlyRead where
  faults _ _ := ⟨rfl, rfl, fun _ => rfl, fun _ => rfl⟩
  clock _ _ := ⟨rfl, rfl, fun _ => rfl, fun _ => rfl⟩

theorem resolves_onlyRead (base : Base) (path : Path) : Resolves onlyRead base path :=
  resolves_of_link (fun _ => onlyRead_access _ _) base path

theorem keeps_access (i : ℕ) : onlyRead.Keeps (modify fun fs => fs.access i : FsM PUnit) :=
  Frame.Keeps.modify fun fs => onlyRead_access fs i

theorem keeps_read (i offset len : ℕ) : onlyRead.Keeps (read i offset len) :=
  Frame.Keeps.require.bind fun _ => (keeps_enter pathFrame_onlyRead).bind fun _ =>
    (keeps_nodeOf i).bind fun n => by
      cases n.kind with
      | file data => exact (keeps_access i).bind fun _ => Frame.Keeps.pure _
      | dir parent entries => exact Frame.Keeps.throw _
      | symlink target => exact Frame.Keeps.throw _

theorem keeps_readDir (base : Base) (path : Path) : onlyRead.Keeps (readDir base path) :=
  (keeps_enter pathFrame_onlyRead).bind fun _ =>
    (keeps_resolveDir (resolves_onlyRead base path)).bind fun d =>
      (keeps_access d).bind fun _ => (keeps_nodeOf d).bind fun n => by
        split
        · exact Frame.Keeps.pure _
        · exact Frame.Keeps.throw _

theorem keeps_readLink (base : Base) (path : Path) : onlyRead.Keeps (readLink base path) :=
  (keeps_enter pathFrame_onlyRead).bind fun _ =>
    (keeps_lookupLast (resolves_onlyRead base _)).bind fun i =>
      (keeps_nodeOf i).bind fun n => by
        split
        · exact (keeps_access i).bind fun _ => Frame.Keeps.pure _
        · exact Frame.Keeps.throw _

end Posix
