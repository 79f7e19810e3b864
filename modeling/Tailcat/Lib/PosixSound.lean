import Tailcat.Lib.PosixEdits
import Tailcat.Lib.PosixMake

/-!
# Filesystems stay sound

Every call keeps a sound filesystem sound (`Fs.Sound`): directories stay directories, and a new
parent is a directory.  Objects stay, too, whether or not an entry leads to them.  The frame is
`lasting`, with one lemma for each call; renaming is the only one that gives a directory another
parent (`lasting_rename`).

The base has to stay a directory, and the parent of every directory one.  Both are about what lies
above an object (`Kind.above`) only, so a change that leaves this alone keeps them at once
(`lasting_same`): writing, attributes, lengths and access times.  A creation adds an object below a
directory that exists, and a removal takes entries away but no object, so they follow as well.
After a rename the moved directory has the directory it was moved to as its parent.

A directory may be moved below itself as far as soundness is concerned, and it is not said that
every object can be reached.
-/

namespace Posix

open Program

/-- The parent of a directory. -/
def Kind.above : Kind → Option ℕ
  | .dir parent _ => some parent
  | _ => none

/-- The parent of the object, if it is a directory. -/
def Fs.above (fs : Fs) (i : ℕ) : Option ℕ := (fs.kind i).bind Kind.above

/-- A sound filesystem, in which `ds` are directories, stays sound; its directories stay
directories and its objects stay. -/
def lasting (base : Base) (ds : List ℕ) : Frame Fs where
  rel fs fs' := (fs.Sound base ∧ ∀ d ∈ ds, fs.IsDir d) →
    fs'.Sound base ∧ (∀ i, fs.IsDir i → fs'.IsDir i) ∧
      ∀ i, (fs.node i).isSome → (fs'.node i).isSome
  refl fs h := ⟨h.1, fun _ h => h, fun _ h => h⟩
  trans h h' hs := by
    obtain ⟨hs', hdir, hnode⟩ := h hs
    obtain ⟨hs'', hdir', hnode'⟩ := h' ⟨hs', fun d hd => hdir d (hs.2 d hd)⟩
    exact ⟨hs'', fun i hi => hdir' i (hdir i hi), fun i hi => hnode' i (hnode i hi)⟩

section

variable {base base' : Base} {ds : List ℕ} {fs fs' : Fs} {i : ℕ}

theorem Fs.isDir_iff_above : fs.IsDir i ↔ ∃ parent, fs.above i = some parent := by
  constructor
  · rintro ⟨parent, entries, hk⟩
    exact ⟨parent, by rw [Fs.above, hk]; rfl⟩
  · rintro ⟨parent, h⟩
    rw [Fs.above] at h
    cases hk : fs.kind i with
    | none =>
      rw [hk] at h
      cases h
    | some k =>
      rw [hk] at h
      cases k with
      | file data => cases h
      | symlink target => cases h
      | dir p es => exact ⟨p, es, hk⟩

/-! ### Elementary changes -/

/-- Changes after which the directories are the old ones, with their old parents or with one of
`ds`, and perhaps new ones below old ones. -/
theorem lasting_of_above (hslash : fs'.slash = fs.slash)
    (hkeep : ∀ i, (fs.above i).isSome → (fs'.above i).isSome)
    (habove : ∀ i p, fs'.above i = some p → fs.above i = some p ∨ p ∈ ds ∨ fs.IsDir p)
    (hnode : ∀ i, (fs.node i).isSome → (fs'.node i).isSome) :
    (lasting base ds).rel fs fs' := by
  rintro ⟨hs, hds⟩
  have hdir : ∀ i, fs.IsDir i → fs'.IsDir i := fun i hi => by
    obtain ⟨p, hp⟩ := Fs.isDir_iff_above.1 hi
    exact Fs.isDir_iff_above.2 (Option.isSome_iff_exists.1 (hkeep i (by rw [hp]; rfl)))
  have hstart : base.start fs' = base.start fs := by
    cases base with
    | within root => rfl
    | ambient => exact hslash
  refine ⟨⟨hstart ▸ hdir _ hs.start, fun i p entries hk => hdir p ?_⟩, hdir, hnode⟩
  have hi : fs'.above i = some p := by
    rw [Fs.above, hk]
    rfl
  rcases habove i p hi with h | h | h
  · obtain ⟨p', es, hk'⟩ := Fs.isDir_iff_above.2 ⟨p, h⟩
    have hp : p' = p := by
      rw [Fs.above, hk'] at h
      exact Option.some.inj h
    exact hp ▸ hs.parent i p' es hk'
  · exact hds p h
  · exact h

/-- Changing an object without making it another directory, or one below `ds`. -/
theorem lasting_update {f : Node → Node}
    (h : ∀ n, (n.kind.above.isSome → (f n).kind.above.isSome) ∧
      ∀ p, (f n).kind.above = some p → n.kind.above = some p ∨ p ∈ ds) :
    (lasting base ds).rel fs (fs.update i f) := by
  refine lasting_of_above rfl (fun j hj => ?_) (fun j p hj => ?_) fun j hj => ?_
  · simp only [Fs.above, Fs.kind, node_update] at hj ⊢
    split_ifs
    · cases hn : fs.node j with
      | none =>
        rw [hn] at hj
        cases hj
      | some n =>
        rw [hn] at hj
        exact (h n).1 hj
    · exact hj
  · simp only [Fs.above, Fs.kind, node_update] at hj ⊢
    split_ifs at hj
    · cases hn : fs.node j with
      | none =>
        rw [hn] at hj
        cases hj
      | some n =>
        rw [hn] at hj
        exact ((h n).2 p hj).imp_right .inl
    · exact .inl hj
  · rw [node_update]
    split_ifs
    · rw [Option.isSome_map]
      exact hj
    · exact hj

/-- Changing an object without changing the parent, if it is a directory. -/
theorem lasting_same {f : Node → Node} (h : ∀ n, (f n).kind.above = n.kind.above) :
    (lasting base ds).rel fs (fs.update i f) :=
  lasting_update fun n => ⟨fun hn => by rwa [h], fun p hp => .inl (by rwa [← h])⟩

theorem lasting_access (fs : Fs) (i : ℕ) : (lasting base ds).rel fs (fs.access i) :=
  lasting_same fun n => by rw [accessed_kind]

theorem lasting_setEntries (fs : Fs) (d : ℕ) (f : List (String × ℕ) → List (String × ℕ)) :
    (lasting base ds).rel fs (fs.setEntries d f) :=
  lasting_same fun n => by
    cases hk : n.kind <;> simp [Fs.changed, Kind.above, hk]

theorem lasting_setAttr (fs : Fs) (i : ℕ) (f : Attr → Attr) :
    (lasting base ds).rel fs (fs.setAttr i f) := lasting_same fun _ => rfl

theorem lasting_setLen (fs : Fs) (i len : ℕ) : (lasting base ds).rel fs (fs.setLen i len) :=
  lasting_same fun n => by
    cases hk : n.kind <;> simp [Fs.changed, Kind.above, hk]

theorem lasting_put (fs : Fs) (i : ℕ) (append : Bool) (offset : ℕ) (bytes : List UInt8) :
    (lasting base ds).rel fs (fs.put i append offset bytes) := by
  unfold Fs.put
  split_ifs
  · exact (lasting base ds).refl fs
  all_goals
    exact lasting_same fun n => by
      cases hk : n.kind <;> simp [Fs.changed, Kind.above, hk]

/-- A new object, which is no directory, or one below a directory. -/
theorem lasting_add (n : Node) (h : ∀ p, n.kind.above = some p → p ∈ ds ∨ fs.IsDir p) :
    (lasting base ds).rel fs (fs.add n) := by
  refine lasting_of_above rfl (fun j hj => ?_) (fun j p hj => ?_) fun j hj => ?_
  · rw [Fs.above, kind_add]
    split_ifs with hnew
    · rw [hnew, Fs.above, kind_next] at hj
      cases hj
    · exact hj
  · rw [Fs.above, kind_add] at hj
    split_ifs at hj
    · exact .inr (h p hj)
    · exact .inl hj
  · simp only [Fs.add]
    split_ifs
    · rfl
    · exact hj

theorem lasting_create (d : ℕ) (name : String) {kind : Kind}
    (h : ∀ p, kind.above = some p → p ∈ ds ∨ fs.IsDir p) (mode : ℕ) :
    (lasting base ds).rel fs (fs.create d name kind mode) :=
  (lasting base ds).trans (lasting_add _ h) (lasting_setEntries _ d _)

theorem lasting_setParent {p : ℕ} (hp : p ∈ ds) (fs : Fs) (i : ℕ) :
    (lasting base ds).rel fs (fs.update i (setParent p)) := by
  refine lasting_update fun n => ?_
  cases hk : n.kind with
  | file data => simp [setParent, hk, Kind.above]
  | symlink target => simp [setParent, hk, Kind.above]
  | dir parent entries =>
    refine ⟨fun _ => by simp [setParent, hk, Kind.above], fun q hq => ?_⟩
    have heq : p = q := by simpa [setParent, hk, Kind.above] using hq
    exact .inr (heq ▸ hp)

/-! ### The calls -/

theorem pathFrame_lasting : PathFrame (lasting base ds) where
  faults _ _ := lasting_of_above rfl (fun _ h => h) (fun _ _ h => .inl h) fun _ h => h
  clock _ _ := lasting_of_above rfl (fun _ h => h) (fun _ _ h => .inl h) fun _ h => h

theorem resolves_lasting (base' : Base) (path : Path) : Resolves (lasting base ds) base' path :=
  resolves_of_link (fun _ => lasting_access _ _) base' path

variable (base base' ds)

theorem lasting_enter : (lasting base ds).Keeps enter := keeps_enter pathFrame_lasting

theorem lasting_modify {f : Fs → Fs} (h : ∀ fs, (lasting base ds).rel fs (f fs)) :
    (lasting base ds).Keeps (modify f : FsM PUnit) := Frame.Keeps.modify h

theorem lasting_read (i offset len : ℕ) : (lasting base ds).Keeps (read i offset len) :=
  Frame.Keeps.require.bind fun _ => (lasting_enter base ds).bind fun _ =>
    (keeps_nodeOf i).bind fun n => by
      cases n.kind with
      | file data =>
        exact (lasting_modify base ds fun fs => lasting_access fs i).bind fun _ =>
          Frame.Keeps.pure _
      | dir parent entries => exact Frame.Keeps.throw _
      | symlink target => exact Frame.Keeps.throw _

theorem lasting_readDir (path : Path) : (lasting base ds).Keeps (readDir base' path) :=
  (lasting_enter base ds).bind fun _ => (keeps_resolveDir (resolves_lasting base' path)).bind
    fun d => (lasting_modify base ds fun fs => lasting_access fs d).bind fun _ =>
      (keeps_nodeOf d).bind fun n => by
        cases n.kind with
        | file data => exact Frame.Keeps.throw _
        | dir parent entries => exact Frame.Keeps.pure _
        | symlink target => exact Frame.Keeps.throw _

theorem lasting_readLink (path : Path) : (lasting base ds).Keeps (readLink base' path) :=
  (lasting_enter base ds).bind fun _ =>
    (keeps_lookupLast (resolves_lasting base' path.dropLast)).bind fun i =>
      (keeps_nodeOf i).bind fun n => by
        cases n.kind with
        | file data => exact Frame.Keeps.throw _
        | dir parent entries => exact Frame.Keeps.throw _
        | symlink target =>
          exact (lasting_modify base ds fun fs => lasting_access fs i).bind fun _ =>
            Frame.Keeps.pure _

theorem lasting_resolvedParent (path : Path) (fs : Fs) :
    (lasting base ds).rel fs (fs.resolvedParent base' path) := by
  unfold Fs.resolvedParent
  cases splitLast path with
  | none => exact (lasting base ds).refl fs
  | some p => exact resolves_lasting base' p.1 fs

theorem lasting_vacant (path : Path) : (lasting base ds).Keeps (vacant base' path) := by
  intro fs
  rw [vacant_eq]
  cases fs.vacantAt base' path with
  | ok p => exact lasting_resolvedParent base base' ds path fs
  | error e => exact lasting_resolvedParent base base' ds path fs

theorem lasting_createNew (path : Path) {kind : ℕ → Kind}
    (h : ∀ d p, (kind d).above = some p → p = d) (mode : ℕ) :
    (lasting base ds).Keeps (createNew base' path kind mode) := by
  intro fs
  have hres := lasting_resolvedParent base base' ds path fs
  cases hv : fs.vacantAt base' path with
  | error e =>
    rw [createNew_error hv]
    exact hres
  | ok p =>
    obtain ⟨d, name⟩ := p
    rw [createNew_ok hv]
    have hdir : (fs.resolvedParent base' path).IsDir d := by
      rw [Fs.IsDir, kind_resolvedParent]
      exact (of_dirAt (of_vacantAt hv).2.2.1).2
    exact (lasting base ds).trans hres
      (lasting_create d name (fun p hp => .inr (h d p hp ▸ hdir)) mode)

theorem lasting_mkdir (path : Path) (mode : ℕ) : (lasting base ds).Keeps (mkdir base' path mode) :=
  have habove : ∀ d p, (Kind.dir d []).above = some p → p = d := fun _ _ h =>
    (Option.some.inj h).symm
  (lasting_enter base ds).bind fun _ =>
    (lasting_createNew base base' ds path habove mode).bind fun _ => Frame.Keeps.pure _

theorem lasting_symlink (target : String) (path : Path) :
    (lasting base ds).Keeps (symlink base' target path) :=
  (lasting_enter base ds).bind fun _ =>
    (lasting_createNew base base' ds path (fun _ _ h => by cases h) 0o777).bind fun _ =>
      Frame.Keeps.pure _

theorem lasting_openFile (path : Path) (o : OpenOptions) (mode : ℕ) :
    (lasting base ds).Keeps (openFile base' path o mode) := by
  refine Frame.Keeps.require.bind fun _ => (lasting_enter base ds).bind fun _ => ?_
  split
  · exact lasting_createNew base base' ds path (fun _ _ h => by cases h) mode
  · refine (keeps_resolve (resolves_lasting base' path)).bind fun target => ?_
    cases target with
    | missing d name =>
      dsimp only
      split
      · exact Frame.Keeps.modifyGet fun fs => lasting_create d name (fun _ h => by cases h) mode
      · exact Frame.Keeps.throw _
    | found i =>
      refine (keeps_nodeOf i).bind fun n => ?_
      cases n.kind with
      | dir parent entries => exact Frame.Keeps.require.bind fun _ => Frame.Keeps.pure i
      | symlink target => exact Frame.Keeps.throw _
      | file data =>
        refine (lasting_modify base ds fun fs => ?_).bind fun _ => Frame.Keeps.pure i
        split
        · exact lasting_setLen fs i 0
        · exact (lasting base ds).refl fs

theorem lasting_write (i : ℕ) (append : Bool) (offset : ℕ) (bytes : List UInt8) :
    (lasting base ds).Keeps (write i append offset bytes) :=
  Frame.Keeps.require.bind fun _ => (keeps_nextFault pathFrame_lasting).bind fun fault => by
    cases fault with
    | none => exact lasting_modify base ds fun fs => lasting_put fs i append offset bytes
    | some fault =>
      exact (lasting_modify base ds fun fs => lasting_put fs i append offset _).bind fun _ =>
        Frame.Keeps.throw _

theorem lasting_fchmod (i mode : ℕ) : (lasting base ds).Keeps (fchmod i mode) :=
  (lasting_enter base ds).bind fun _ => lasting_modify base ds fun fs => lasting_setAttr fs i _

theorem lasting_futimes (i : ℕ) (atime mtime : Option ℤ) :
    (lasting base ds).Keeps (futimes i atime mtime) :=
  (lasting_enter base ds).bind fun _ => lasting_modify base ds fun fs => lasting_setAttr fs i _

theorem lasting_fchown (i : ℕ) (uid gid : Option ℕ) :
    (lasting base ds).Keeps (fchown i uid gid) :=
  (lasting_enter base ds).bind fun _ => lasting_modify base ds fun fs => lasting_setAttr fs i _

theorem lasting_ftruncate (i len : ℕ) : (lasting base ds).Keeps (ftruncate i len) :=
  Frame.Keeps.require.bind fun _ => (lasting_enter base ds).bind fun _ =>
    (keeps_nodeOf i).bind fun n => by
      cases n.kind with
      | file data => exact lasting_modify base ds fun fs => lasting_setLen fs i len
      | dir parent entries => exact Frame.Keeps.throw _
      | symlink target => exact Frame.Keeps.throw _

/-- A change of the object at a path. -/
theorem lasting_at {α : Type} {f : ℕ → FsM α} (path : Path)
    (hf : ∀ i, (lasting base ds).Keeps (f i)) :
    (lasting base ds).Keeps (resolveIno base' path >>= f) :=
  (keeps_resolveIno (resolves_lasting base' path)).bind hf

theorem lasting_entryAt (path : Path) : (lasting base ds).Keeps (entryAt base' path) := by
  unfold entryAt
  cases splitLast path with
  | none => exact Frame.Keeps.throw _
  | some p =>
    refine (keeps_resolveDir (resolves_lasting base' p.1)).bind fun d =>
      Frame.Keeps.require.bind fun _ => Frame.Keeps.get.bind fun fs => ?_
    cases fs.child d p.2 with
    | none => exact Frame.Keeps.throw _
    | some i => exact (keeps_nodeOf i).bind fun _ => Frame.Keeps.pure _

theorem lasting_unlink (path : Path) : (lasting base ds).Keeps (unlink base' path) :=
  (lasting_enter base ds).bind fun _ => (lasting_entryAt base base' ds path).bind fun e => by
    obtain ⟨d, name, n⟩ := e
    cases hk : n.kind with
    | dir parent entries =>
      simp only [hk]
      exact Frame.Keeps.throw _
    | file data =>
      simp only [hk]
      exact lasting_modify base ds fun fs => lasting_setEntries fs d _
    | symlink target =>
      simp only [hk]
      exact lasting_modify base ds fun fs => lasting_setEntries fs d _

theorem lasting_rmdir (path : Path) : (lasting base ds).Keeps (rmdir base' path) :=
  (lasting_enter base ds).bind fun _ => (lasting_entryAt base base' ds path).bind fun e => by
    obtain ⟨d, name, n⟩ := e
    cases hk : n.kind with
    | dir parent entries =>
      cases entries with
      | nil =>
        simp only [hk]
        exact lasting_modify base ds fun fs => lasting_setEntries fs d _
      | cons e es =>
        simp only [hk]
        exact Frame.Keeps.throw _
    | file data =>
      simp only [hk]
      exact Frame.Keeps.throw _
    | symlink target =>
      simp only [hk]
      exact Frame.Keeps.throw _

theorem lasting_link (source path : Path) : (lasting base ds).Keeps (link base' source path) :=
  (lasting_enter base ds).bind fun _ =>
    (keeps_lookupLast (resolves_lasting base' source.dropLast)).bind fun i =>
      (keeps_nodeOf i).bind fun n => by
        have hlink : (lasting base ds).Keeps (vacant base' path >>= fun p => modify fun fs =>
            (fs.setEntries p.1 fun entries => entries ++ [(p.2, i)]).setAttr i id) :=
          (lasting_vacant base base' ds path).bind fun p => lasting_modify base ds fun fs =>
            (lasting base ds).trans (lasting_setEntries fs p.1 _) (lasting_setAttr _ i id)
        cases n.kind with
        | dir parent entries => exact Frame.Keeps.throw _
        | file data => exact hlink
        | symlink target => exact hlink

/-- Behind a step that finds a directory. -/
theorem lasting_below {d : ℕ} {fs₁ fs₂ : Fs} (hd : fs₁.IsDir d)
    (h : (lasting base (d :: ds)).rel fs₁ fs₂) : (lasting base ds).rel fs₁ fs₂ := by
  rintro ⟨hs, hds⟩
  refine h ⟨hs, fun e he => ?_⟩
  rcases List.mem_cons.1 he with rfl | he
  · exact hd
  · exact hds e he

/-- What is done in the directory at a path may rely on its being one. -/
theorem lasting_inDir {α : Type} {f : ℕ → FsM α} (path : Path)
    (hf : ∀ d, (lasting base (d :: ds)).Keeps (f d)) :
    (lasting base ds).Keeps (resolveDir base' path >>= f) := by
  intro fs
  have hr := resolveDir_eq fs base' path
  have hres : (lasting base ds).rel fs (fs.resolved base' path) := resolves_lasting base' path fs
  cases hd : fs.dirAt base' path with
  | error e =>
    rw [hd] at hr
    rw [bind_error hr]
    exact hres
  | ok d =>
    rw [hd] at hr
    rw [bind_ok hr]
    have hdir : (fs.resolved base' path).IsDir d := by
      rw [Fs.IsDir, kind_resolved]
      exact (of_dirAt hd).2
    exact (lasting base ds).trans hres (lasting_below base ds hdir (hf d _))

/-- Renaming gives a directory another parent, which is one. -/
theorem lasting_rename (old new : Path) : (lasting base ds).Keeps (rename base' old new) := by
  refine (lasting_enter base ds).bind fun _ => ?_
  cases splitLast old with
  | none => exact Frame.Keeps.throw _
  | some p =>
    cases splitLast new with
    | none => exact Frame.Keeps.throw _
    | some q =>
      refine (keeps_resolveDir (resolves_lasting base' p.1)).bind fun d =>
        lasting_inDir base base' ds q.1 fun d' =>
          Frame.Keeps.require.bind fun _ => Frame.Keeps.get.bind fun fs => ?_
      cases fs.child d p.2 with
      | none => exact Frame.Keeps.throw _
      | some i =>
        dsimp only
        split
        · exact Frame.Keeps.pure _
        · exact (keeps_nodeOf i).bind fun n => (keeps_ofExcept _).bind fun _ =>
            Frame.Keeps.require.bind fun _ =>
              (lasting_modify base _ fun fs => lasting_setEntries fs d _).bind fun _ =>
                (lasting_modify base _ fun fs => lasting_setEntries fs d' _).bind fun _ =>
                  lasting_modify base _ fun fs => (lasting base _).trans
                    (lasting_setParent List.mem_cons_self fs i) (lasting_setAttr _ i id)

/-! ### What opening answers with -/

theorem live_create (fs : Fs) (d : ℕ) (name : String) (kind : Kind) (mode : ℕ) :
    ((fs.create d name kind mode).node fs.next).isSome := by
  have hadd : ((fs.add ⟨kind, fs.newAttr mode⟩).node fs.next).isSome := by
    simp [Fs.add]
  rw [Fs.create, Fs.setEntries, node_update]
  split_ifs
  · rw [Option.isSome_map]
    exact hadd
  · exact hadd

/-- An open file is an object. -/
theorem openFile_live (fs : Fs) (path : Path) (o : OpenOptions) (mode : ℕ) :
    Ends (fun i fs' => (fs'.node i).isSome) (fun _ _ => True)
      (openFile base' path o mode fs) := by
  refine Ends.bind (Ends.trivial _) fun _ fs₁ _ => Ends.bind (Ends.trivial _) fun _ fs₂ _ => ?_
  split
  · cases hv : fs₂.vacantAt base' path with
    | error e =>
      rw [createNew_error hv]
      trivial
    | ok p =>
      obtain ⟨d, name⟩ := p
      rw [createNew_ok hv]
      exact live_create _ d name _ mode
  · refine Ends.bind (Ends.trivial _) fun target fs₃ _ => ?_
    cases target with
    | missing d name =>
      dsimp only
      split
      · exact live_create fs₃ d name _ mode
      · trivial
    | found i =>
      refine (ends_nodeOf fs₃ i).bind fun n fs₄ h => ?_
      obtain ⟨rfl, hn⟩ := h
      cases n.kind with
      | dir parent entries =>
        refine Ends.bind (P := fun _ fs' => fs' = fs₄) (Ends.require (fun _ => rfl)
          fun _ => trivial) fun _ fs₅ h => ?_
        subst h
        exact Option.isSome_iff_exists.2 ⟨n, hn⟩
      | symlink target => trivial
      | file data =>
        refine Ends.bind (P := fun _ fs' => (fs'.node i).isSome) ?_ fun _ fs₅ h => h
        change ((if o.truncate = true then fs₄.setLen i 0 else fs₄).node i).isSome
        split_ifs
        · rw [Fs.setLen, node_update, if_pos rfl, Option.isSome_map, hn]
          rfl
        · rw [hn]
          rfl

end

end Posix
