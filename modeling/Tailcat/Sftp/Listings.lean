import Tailcat.Sftp.Files

/-!
# Listing a directory

A directory handle keeps the listing that was taken when the directory was opened and how much of it
has been returned; `readdir` returns the next entries of it, at most 64.

No request gives a name to a handle that was given before (`issued_run`), and none but `close` and
`readdir` touches what a handle stands for (`kept_answer`); so the replies to `readdir` add up to
the listing, whatever else the client asks for in between (`directory_delivered`).

The frame `kept` says what a request leaves of a handle that has been given; it goes through every
request, one lemma for each part of the code.  `Listed` is the invariant of one handle: the blocks
returned so far.  A read moves it on by a block, and everything else keeps it.

Handles are numbered by natural numbers here and by 64 bits in the program.  A request gives one at
most, so the two are the same in every session with fewer than `2 ^ 64` requests.  A listing is taken
once: what becomes of the directory afterwards shows in no reply.
-/

namespace Tailcat.Sftp

open Posix (FsM)
open Program (Ends Frame Yields require)

/-! ### What requests do to handles -/

/-- A handle has been given this name. -/
def Session.Issued (s : Session) (name : String) : Prop := ∃ k ≤ s.nextHandle, name = toString k

/-- What a handle stands for is kept, and only an opening gives a new handle. -/
def kept (opening : Bool) (name : String) : Frame Session where
  rel s s' := s.nextHandle ≤ s'.nextHandle ∧
    (opening = false → s'.nextHandle = s.nextHandle) ∧ (s.initialized → s'.initialized) ∧
    (s.Issued name → s'.handles.lookup name = s.handles.lookup name)
  refl s := ⟨Nat.le_refl _, fun _ => rfl, id, fun _ => rfl⟩
  trans h h' := by
    obtain ⟨hnext, hsame, hinit, hlookup⟩ := h
    obtain ⟨hnext', hsame', hinit', hlookup'⟩ := h'
    refine ⟨hnext.trans hnext', fun hopening => (hsame' hopening).trans (hsame hopening),
      hinit' ∘ hinit, fun hissued => ?_⟩
    obtain ⟨k, hk, hname⟩ := hissued
    rw [hlookup' ⟨k, hk.trans hnext, hname⟩, hlookup ⟨k, hk, hname⟩]

/-- The numbers of handles are told apart by their names. -/
theorem toString_inj {j k : ℕ} : (toString j : String) = toString k ↔ j = k := by
  constructor
  · intro h
    have hdigits : Nat.toDigits 10 j = Nat.toDigits 10 k := by
      rw [← Nat.toList_repr, ← Nat.toList_repr]
      exact congrArg String.toList h
    rw [← Nat.ofDigitChars_toDigits (b := 10) (n := j) (by decide) (by decide), hdigits,
      Nat.ofDigitChars_toDigits (by decide) (by decide)]
  · rintro rfl
    rfl

section

variable {α : Type} {opening : Bool} {name : String}

theorem kept_attempt (m : FsM α) : (kept opening name).Keeps (attempt m) := by
  intro s
  unfold attempt
  cases m s.fs <;> exact (kept opening name).refl s

theorem kept_call (m : FsM α) : (kept opening name).Keeps (call m) :=
  (kept_attempt m).bind fun r => by
    cases r with
    | ok a => exact Frame.Keeps.pure a
    | error e => exact Frame.Keeps.throw _

theorem kept_ofExcept (r : Except StatusCode α) : (kept opening name).Keeps (ofExcept r) := by
  cases r with
  | ok a => exact Frame.Keeps.pure a
  | error e => exact Frame.Keeps.throw e

end

namespace Files

variable {files : Files} {opening : Bool} {name : String}

theorem kept_getHandle (handle : String) : (kept opening name).Keeps (getHandle handle) :=
  Frame.Keeps.get.bind fun _ => Frame.Keeps.pure _

/-- A new handle has a name of its own. -/
theorem kept_addHandle (handle : OpenHandle) : (kept true name).Keeps (addHandle handle) :=
  Frame.Keeps.modifyGet fun s => by
    refine ⟨Nat.le_succ _, nofun, id, ?_⟩
    rintro ⟨k, hk, rfl⟩
    have hne : (toString k : String) ≠ toString (s.nextHandle + 1) := by
      rw [Ne, toString_inj]
      omega
    dsimp only
    rw [List.lookup_cons, beq_eq_false_iff_ne.2 hne]

theorem lookup_filter_ne {handles : List (String × OpenHandle)} {handle : String}
    (hne : name ≠ handle) :
    (handles.filter fun h => h.1 ≠ handle).lookup name = handles.lookup name := by
  induction handles with
  | nil => rfl
  | cons h handles ih =>
    obtain ⟨first, o⟩ := h
    by_cases hfirst : first = handle
    · have hname : (name == first) = false := by
        rw [beq_eq_false_iff_ne, hfirst]
        exact hne
      rw [List.filter_cons_of_neg (by simp [hfirst]), ih, List.lookup_cons, hname]
    · rw [List.filter_cons_of_pos (by simp [hfirst]), List.lookup_cons, List.lookup_cons, ih]

theorem kept_close {handle : String} (hne : name ≠ handle) :
    (kept opening name).Keeps (close handle) := by
  have hremove : (kept opening name).Keeps (modifyGet fun s => (s.handles.lookup handle,
      { s with handles := s.handles.filter fun h => h.1 ≠ handle }) :
        FxM (Option OpenHandle)) :=
    Frame.Keeps.modifyGet fun s =>
      ⟨Nat.le_refl _, fun _ => rfl, id, fun _ => lookup_filter_ne hne⟩
  exact hremove.bind fun _ => Frame.Keeps.require.bind fun _ => Frame.Keeps.pure _

theorem kept_readdir {handle : String} (hne : name ≠ handle) :
    (kept opening name).Keeps (readdir handle) := by
  refine (kept_getHandle handle).bind fun h => ?_
  split
  · rename_i entries next
    have hmove (stop : ℕ) : (kept opening name).Keeps (modify fun s => { s with
        handles := (handle, .directory entries stop) ::
          s.handles.filter fun h => h.1 ≠ handle } : FxM PUnit) :=
      Frame.Keeps.modify fun s => by
        refine ⟨Nat.le_refl _, fun _ => rfl, id, fun _ => ?_⟩
        dsimp only
        rw [List.lookup_cons, beq_eq_false_iff_ne.2 hne]
        exact lookup_filter_ne hne
    exact Frame.Keeps.require.bind fun _ => (hmove _).bind fun _ => Frame.Keeps.pure _
  · exact Frame.Keeps.throw _

theorem kept_metadata (path : Posix.Path) (follow : Bool) :
    (kept opening name).Keeps (files.metadata path follow) :=
  (kept_call _).bind fun _ => Frame.Keeps.get.bind fun _ => Frame.Keeps.pure _

theorem kept_statPath (path : Posix.Path) (follow : Bool) :
    (kept opening name).Keeps (files.statPath path follow) := by
  unfold statPath
  split_ifs
  · exact kept_metadata path follow
  · refine Frame.Keeps.get.bind fun s => ?_
    split
    · exact kept_metadata _ follow
    · refine Frame.Keeps.require.bind fun _ => (kept_attempt _).bind fun r => ?_
      split
      · exact Frame.Keeps.throw _
      · exact Frame.Keeps.get.bind fun _ => Frame.Keeps.require.bind fun _ => Frame.Keeps.pure _

theorem kept_statRequest (path : String) (follow : Bool) :
    (kept opening name).Keeps (files.statRequest path follow) :=
  (kept_ofExcept _).bind fun _ => (kept_statPath _ _).bind fun _ => Frame.Keeps.pure _

/-- Remembering a creation changes no handle. -/
theorem kept_wrote (paths : Posix.Path × Posix.Path) :
    (kept opening name).Keeps (modify fun s => { s with wrote := paths :: s.wrote } : FxM PUnit) :=
  Frame.Keeps.modify fun s => (kept opening name).refl s

theorem kept_openNew (env : Env) (requested : Posix.Path) :
    (kept opening name).Keeps (files.openNew env requested) := by
  unfold openNew
  dsimp only
  split_ifs
  · exact (kept_call _).bind fun _ => (kept_wrote _).bind fun _ => Frame.Keeps.pure _
  · refine (kept_attempt _).bind fun r => ?_
    split
    · exact (kept_wrote _).bind fun _ => Frame.Keeps.pure _
    · exact (kept_call _).bind fun _ => (kept_wrote _).bind fun _ => Frame.Keeps.pure _
    · exact Frame.Keeps.throw _

theorem kept_open (env : Env) (filename : String) (flags : OpenFlags) :
    (kept true name).Keeps (files.open env filename flags) := by
  refine Frame.Keeps.require.bind fun _ => (kept_ofExcept _).bind fun requested => ?_
  split_ifs
  · exact Frame.Keeps.require.bind fun _ => Frame.Keeps.require.bind fun _ =>
      (kept_openNew env _).bind fun _ => kept_addHandle _
  · exact (kept_call _).bind fun _ => kept_addHandle _

variable (files) in
/-- The listing that is taken when a directory is opened. -/
def listing (path : String) : FxM (List File) := do
  let path ← ofExcept (files.path path)
  let names ← call (Posix.readDir files.base path)
  names.mapM fun name => do
    return (⟨name, ← files.metadata (path ++ [name]) false⟩ : File)

/-- A listing in the order of its names. -/
def sorted (entries : List File) : List File :=
  entries.insertionSort fun a b => a.filename ≤ b.filename

theorem opendir_eq (path : String) : files.opendir path =
    (require (!files.mode.isWriteOnly) .permissionDenied >>= fun _ =>
      files.listing path >>= fun entries => addHandle (.directory (sorted entries) 0)) := by
  simp only [opendir, listing, bind_assoc, sorted]

theorem kept_listing (path : String) : (kept opening name).Keeps (files.listing path) :=
  (kept_ofExcept _).bind fun _ => (kept_call _).bind fun names =>
    Frame.Keeps.mapM (fun _ => (kept_metadata _ false).bind fun _ => Frame.Keeps.pure _) names

theorem kept_opendir (path : String) : (kept true name).Keeps (files.opendir path) := by
  rw [opendir_eq]
  exact Frame.Keeps.require.bind fun _ => (kept_listing path).bind fun _ => kept_addHandle _

theorem kept_setIf {α : Type} (o : Option α) {f : α → FxM Unit}
    (h : ∀ a, (kept opening name).Keeps (f a)) : (kept opening name).Keeps (setIf o f) := by
  cases o with
  | none => exact Frame.Keeps.pure _
  | some a => exact h a

theorem kept_setTimes (attrs : FileAttributes) (f : Option ℤ → Option ℤ → FsM Unit) :
    (kept opening name).Keeps (setTimes attrs f) := by
  unfold setTimes
  split_ifs
  · exact kept_call _
  · exact Frame.Keeps.pure _

theorem kept_setOwner (attrs : FileAttributes) (f : Option ℕ → Option ℕ → FsM Unit) :
    (kept opening name).Keeps (setOwner attrs f) := by
  unfold setOwner
  split_ifs
  · exact kept_call _
  · exact Frame.Keeps.pure _

theorem kept_settable (path : Posix.Path) : (kept opening name).Keeps (files.settable path) := by
  unfold settable
  split_ifs
  · refine Frame.Keeps.get.bind fun s => ?_
    split
    · exact Frame.Keeps.pure _
    · exact Frame.Keeps.throw _
  · exact Frame.Keeps.pure _

theorem kept_setAttrsAt (path : Posix.Path) (attrs : FileAttributes) :
    (kept opening name).Keeps (files.setAttrsAt path attrs) := by
  have hlen : (kept opening name).Keeps
      (setIf attrs.size fun size => call (files.setLenAt path size)) :=
    kept_setIf _ fun _ => kept_call _
  have hmode : (kept opening name).Keeps (setIf attrs.permissions fun mode =>
      call (Posix.chmod files.base path (permissionBits mode))) :=
    kept_setIf _ fun _ => kept_call _
  have htimes : (kept opening name).Keeps (setTimes attrs (Posix.utimes files.base path)) :=
    kept_setTimes attrs _
  unfold setAttrsAt
  dsimp only
  split
  · exact hmode.bind fun _ => htimes.bind fun _ => hlen
  · exact hlen.bind fun _ => hmode.bind fun _ => htimes.bind fun _ => kept_setOwner attrs _

theorem kept_setStat (path : String) (attrs : FileAttributes) :
    (kept opening name).Keeps (files.setStat path attrs) :=
  (kept_ofExcept _).bind fun _ => Frame.Keeps.require.bind fun _ => (kept_settable _).bind fun _ =>
    (kept_setAttrsAt _ attrs).bind fun _ => Frame.Keeps.pure _

theorem kept_setFileAttrs (ino : ℕ) (attrs : FileAttributes) (full : Bool) :
    (kept opening name).Keeps (setFileAttrs ino attrs full) := by
  have hlen : (kept opening name).Keeps (setIf attrs.size fun size =>
      call (Posix.ftruncate ino size.toNat)) :=
    kept_setIf _ fun _ => kept_call _
  have hmode : (kept opening name).Keeps (setIf attrs.permissions fun mode =>
      call (Posix.fchmod ino (permissionBits mode))) :=
    kept_setIf _ fun _ => kept_call _
  have htimes : (kept opening name).Keeps (setTimes attrs (Posix.futimes ino)) :=
    kept_setTimes attrs _
  unfold setFileAttrs
  dsimp only
  split_ifs
  · exact hlen.bind fun _ => hmode.bind fun _ => htimes.bind fun _ => kept_setOwner attrs _
  · exact hmode.bind fun _ => htimes.bind fun _ => hlen

theorem kept_fSetStat (handle : String) (attrs : FileAttributes) :
    (kept opening name).Keeps (files.fSetStat handle attrs) := by
  refine Frame.Keeps.require.bind fun _ => (kept_getHandle handle).bind fun o => ?_
  split
  · exact Frame.Keeps.require.bind fun _ => (kept_setFileAttrs _ attrs _).bind fun _ =>
      Frame.Keeps.pure _
  · exact Frame.Keeps.throw _

theorem kept_read (handle : String) (offset : UInt64) (len : UInt32) :
    (kept opening name).Keeps (files.read handle offset len) := by
  refine Frame.Keeps.require.bind fun _ => (kept_getHandle handle).bind fun o => ?_
  split
  · exact (kept_call _).bind fun _ => Frame.Keeps.require.bind fun _ => Frame.Keeps.pure _
  · exact Frame.Keeps.throw _

theorem kept_write (handle : String) (offset : UInt64) (data : Bytes) :
    (kept opening name).Keeps (write handle offset data) := by
  refine (kept_getHandle handle).bind fun o => ?_
  split
  · exact (kept_call _).bind fun _ => Frame.Keeps.pure _
  · exact Frame.Keeps.throw _

theorem kept_fstat (handle : String) : (kept opening name).Keeps (fstat handle) := by
  refine (kept_getHandle handle).bind fun o => ?_
  split
  · exact (kept_call _).bind fun _ => Frame.Keeps.get.bind fun _ => Frame.Keeps.pure _
  · exact Frame.Keeps.throw _

theorem kept_fsync (handle : String) : (kept opening name).Keeps (fsync handle) := by
  refine (kept_getHandle handle).bind fun o => ?_
  split
  · exact (kept_call _).bind fun _ => Frame.Keeps.pure _
  · exact Frame.Keeps.throw _

theorem kept_init : (kept opening name).Keeps files.init := by
  have hstart : (kept opening name).Keeps
      (modify fun s => { s with initialized := true } : FxM PUnit) :=
    Frame.Keeps.modify fun s =>
      ⟨Nat.le_refl _, fun _ => rfl, fun _ => rfl, fun _ => rfl⟩
  exact Frame.Keeps.get.bind fun _ => Frame.Keeps.require.bind fun _ =>
    hstart.bind fun _ => Frame.Keeps.pure _

theorem kept_realPath (path : String) : (kept opening name).Keeps (files.realPath path) :=
  (kept_ofExcept _).bind fun _ => by
    split <;> exact Frame.Keeps.pure _

theorem kept_mkDir (path : String) : (kept opening name).Keeps (files.mkDir path) := by
  refine Frame.Keeps.require.bind fun _ => (kept_ofExcept _).bind fun path =>
    (kept_call _).bind fun _ => ?_
  split_ifs
  · exact (kept_wrote _).bind fun _ => Frame.Keeps.pure _
  · exact Frame.Keeps.pure _

/-- What is done in a read-write session only. -/
theorem kept_requireRw {f : Unit → FxM Reply} (h : (kept opening name).Keeps (f ())) :
    (kept opening name).Keeps (files.requireRw >>= f) :=
  Frame.Keeps.require.bind fun _ => h

theorem kept_rename (old new : String) : (kept opening name).Keeps (files.rename old new) :=
  kept_requireRw ((kept_ofExcept _).bind fun _ => (kept_ofExcept _).bind fun _ =>
    (kept_call _).bind fun _ => Frame.Keeps.pure _)

theorem kept_readLink (path : String) : (kept opening name).Keeps (files.readLink path) :=
  Frame.Keeps.require.bind fun _ => (kept_ofExcept _).bind fun _ => (kept_call _).bind fun _ =>
    Frame.Keeps.pure _

theorem kept_symlink (linkpath targetpath : String) :
    (kept opening name).Keeps (files.symlink linkpath targetpath) := by
  refine kept_requireRw ?_
  split
  · exact (kept_ofExcept _).bind fun _ => (Frame.Keeps.pure _).bind fun _ =>
      (kept_ofExcept _).bind fun _ => (kept_call _).bind fun _ => Frame.Keeps.pure _
  · exact (kept_ofExcept _).bind fun _ => (Frame.Keeps.pure _).bind fun _ =>
      (kept_ofExcept _).bind fun _ => (kept_call _).bind fun _ => Frame.Keeps.pure _

theorem kept_extended (request : String) (data : Bytes) :
    (kept opening name).Keeps (files.extended request data) := by
  refine (kept_ofExcept _).bind fun p => ?_
  split_ifs
  · exact (kept_ofExcept _).bind fun _ => kept_rename _ _
  · exact kept_requireRw ((kept_ofExcept _).bind fun _ => (kept_ofExcept _).bind fun _ =>
      (kept_ofExcept _).bind fun _ => (kept_call _).bind fun _ => Frame.Keeps.pure _)
  · exact kept_fsync _
  · exact (kept_ofExcept _).bind fun _ => (kept_call _).bind fun _ => Frame.Keeps.pure _
  · exact Frame.Keeps.throw _

/-- The requests that give new handles. -/
def opens : Request → Bool
  | .open _ _ | .openDir _ => true
  | _ => false

/-- Every request, one case each. -/
theorem kept_answer (env : Env) {request : Request} (hclose : request ≠ .close name)
    (hread : request ≠ .readDir name) :
    (kept (opens request) name).Keeps (files.answer env request) := by
  cases request with
  | init => exact kept_init
  | «open» filename flags => exact kept_open env filename flags
  | close handle => exact kept_close fun h => hclose (h ▸ rfl)
  | read handle offset len => exact kept_read handle offset len
  | write handle offset data => exact kept_write handle offset data
  | fstat handle => exact kept_fstat handle
  | stat path => exact kept_statRequest path true
  | lstat path => exact kept_statRequest path false
  | setStat path attrs => exact kept_setStat path attrs
  | fSetStat handle attrs => exact kept_fSetStat handle attrs
  | openDir path => exact kept_opendir path
  | readDir handle => exact kept_readdir fun h => hread (h ▸ rfl)
  | realPath path => exact kept_realPath path
  | mkDir path => exact kept_mkDir path
  | remove filename =>
    exact kept_requireRw ((kept_ofExcept _).bind fun _ => (kept_call _).bind fun _ =>
      Frame.Keeps.pure _)
  | rmDir path =>
    exact kept_requireRw ((kept_ofExcept _).bind fun _ => (kept_call _).bind fun _ =>
      Frame.Keeps.pure _)
  | rename oldpath newpath => exact kept_rename oldpath newpath
  | readLink path => exact kept_readLink path
  | symlink linkpath targetpath => exact kept_symlink linkpath targetpath
  | extended request data => exact kept_extended request data
  | other => exact Frame.Keeps.throw _

/-! ### Names of handles -/

/-- A handle in the reply has the number of the last handle, which is new. -/
def Numbered (s : Session) (reply : Reply) (s' : Session) : Prop :=
  ∀ handle, reply = .handle handle → handle = toString s'.nextHandle ∧ s.nextHandle < s'.nextHandle

/-- The handles a program gives are new. -/
def NamesNew (m : FxM Reply) : Prop := ∀ s, Ends (Numbered s) (fun _ _ => True) (m s)

theorem NamesNew.bind {α : Type} {m : FxM α} {f : α → FxM Reply} (hm : (kept false "").Keeps m)
    (hf : ∀ a, NamesNew (f a)) : NamesNew (m >>= f) := by
  intro s
  have hs := hm s
  change Ends _ _ (EStateM.bind m f s)
  unfold EStateM.bind
  cases h : m s with
  | error e s₁ => trivial
  | ok a s₁ =>
    rw [h] at hs
    refine (hf a s₁).mono (fun reply s' hnumbered handle hreply => ?_) fun _ _ h => h
    obtain ⟨hname, hlt⟩ := hnumbered handle hreply
    exact ⟨hname, Nat.lt_of_le_of_lt hs.1 hlt⟩

theorem namesNew_addHandle (o : OpenHandle) : NamesNew (addHandle o) := by
  intro s handle hreply
  exact ⟨(Reply.handle.inj hreply).symm, Nat.lt_succ_self _⟩

/-- Most requests give no handle. -/
theorem NamesNew.of_yields {m : FxM Reply} (h : Yields (fun r => ∀ handle, r ≠ .handle handle) m) :
    NamesNew m :=
  fun s => (h s).mono (fun _ _ hreply handle heq => absurd heq (hreply handle)) fun _ _ h => h

theorem namesNew_open (env : Env) (filename : String) (flags : OpenFlags) :
    NamesNew (files.open env filename flags) := by
  refine .bind Frame.Keeps.require fun _ => .bind (kept_ofExcept _) fun requested => ?_
  split_ifs
  · exact .bind Frame.Keeps.require fun _ => .bind Frame.Keeps.require fun _ =>
      .bind (kept_openNew env _) fun _ => namesNew_addHandle _
  · exact .bind (kept_call _) fun _ => namesNew_addHandle _

theorem namesNew_opendir (path : String) : NamesNew (files.opendir path) := by
  rw [opendir_eq]
  exact .bind Frame.Keeps.require fun _ => .bind (kept_listing path) fun _ => namesNew_addHandle _

/-- What is done in a read-write session only gives no handle. -/
theorem yields_rename (old new : String) :
    Yields (fun r => ∀ handle, r ≠ .handle handle) (files.rename old new) :=
  Yields.bind fun _ => Yields.bind fun _ => Yields.bind fun _ => Yields.bind fun _ =>
    Yields.pure nofun

theorem yields_extended (request : String) (data : Bytes) :
    Yields (fun r => ∀ handle, r ≠ .handle handle) (files.extended request data) := by
  refine Yields.bind fun p => ?_
  split_ifs
  · exact Yields.bind fun _ => yields_rename _ _
  · exact Yields.bind fun _ => Yields.bind fun _ => Yields.bind fun _ => Yields.bind fun _ =>
      Yields.bind fun _ => Yields.pure nofun
  · refine Yields.bind fun o => ?_
    split
    · exact Yields.bind fun _ => Yields.pure nofun
    · exact Yields.throw
  · exact Yields.bind fun _ => Yields.bind fun _ => Yields.pure nofun
  · exact Yields.throw

/-- Every request, one case each. -/
theorem namesNew_answer (env : Env) (request : Request) : NamesNew (files.answer env request) := by
  cases request with
  | «open» filename flags => exact namesNew_open env filename flags
  | openDir path => exact namesNew_opendir path
  | init =>
    exact .of_yields (Yields.bind fun _ => Yields.bind fun _ => Yields.bind fun _ =>
      Yields.pure nofun)
  | close handle =>
    exact .of_yields (Yields.bind fun _ => Yields.bind fun _ => Yields.pure nofun)
  | read handle offset len =>
    refine .of_yields (Yields.bind fun _ => Yields.bind fun o => ?_)
    split
    · exact Yields.bind fun _ => Yields.bind fun _ => Yields.pure nofun
    · exact Yields.throw
  | write handle offset data =>
    refine .of_yields (Yields.bind fun o => ?_)
    split
    · exact Yields.bind fun _ => Yields.pure nofun
    · exact Yields.throw
  | fstat handle =>
    refine .of_yields (Yields.bind fun o => ?_)
    split
    · exact Yields.bind fun _ => Yields.bind fun _ => Yields.pure nofun
    · exact Yields.throw
  | stat path => exact .of_yields (Yields.bind fun _ => Yields.bind fun _ => Yields.pure nofun)
  | lstat path => exact .of_yields (Yields.bind fun _ => Yields.bind fun _ => Yields.pure nofun)
  | setStat path attrs =>
    exact .of_yields (Yields.bind fun _ => Yields.bind fun _ => Yields.bind fun _ =>
      Yields.bind fun _ => Yields.pure nofun)
  | fSetStat handle attrs =>
    refine .of_yields (Yields.bind fun _ => Yields.bind fun o => ?_)
    split
    · exact Yields.bind fun _ => Yields.bind fun _ => Yields.pure nofun
    · exact Yields.throw
  | readDir handle =>
    refine .of_yields (Yields.bind fun o => ?_)
    split
    · exact Yields.bind fun _ => Yields.bind fun _ => Yields.pure nofun
    · exact Yields.throw
  | realPath path =>
    refine .of_yields (Yields.bind fun path => ?_)
    split <;> exact Yields.pure nofun
  | mkDir path =>
    refine .of_yields (Yields.bind fun _ => Yields.bind fun _ => Yields.bind fun _ => ?_)
    split_ifs
    · exact Yields.bind fun _ => Yields.pure nofun
    · exact Yields.pure nofun
  | remove filename =>
    exact .of_yields (Yields.bind fun _ => Yields.bind fun _ => Yields.bind fun _ =>
      Yields.pure nofun)
  | rmDir path =>
    exact .of_yields (Yields.bind fun _ => Yields.bind fun _ => Yields.bind fun _ =>
      Yields.pure nofun)
  | rename oldpath newpath => exact .of_yields (yields_rename _ _)
  | readLink path =>
    exact .of_yields (Yields.bind fun _ => Yields.bind fun _ => Yields.bind fun _ =>
      Yields.pure nofun)
  | symlink linkpath targetpath =>
    refine .of_yields (Yields.bind fun _ => ?_)
    split <;> exact Yields.bind fun _ => Yields.bind fun _ => Yields.bind fun _ =>
      Yields.bind fun _ => Yields.pure nofun
  | extended request data => exact .of_yields (yields_extended _ _)
  | other => exact .of_yields Yields.throw

/-! ### Numbers of handles -/

/-- A program gives one handle at most. -/
def OpensOne (m : FxM Reply) : Prop :=
  ∀ s, (Program.after (m s)).nextHandle ≤ s.nextHandle + 1

theorem OpensOne.of_kept {m : FxM Reply} (hm : (kept false name).Keeps m) : OpensOne m :=
  fun s => ((hm s).2.1 rfl).trans_le (Nat.le_succ _)

theorem OpensOne.bind {α : Type} {m : FxM α} {f : α → FxM Reply} (hm : (kept false "").Keeps m)
    (hf : ∀ a, OpensOne (f a)) : OpensOne (m >>= f) := by
  intro s
  have hs := (hm s).2.1 rfl
  change (Program.after (EStateM.bind m f s)).nextHandle ≤ _
  unfold EStateM.bind
  cases h : m s with
  | error e s₁ =>
    rw [h] at hs
    exact hs.trans_le (Nat.le_succ _)
  | ok a s₁ =>
    rw [h] at hs
    exact (hf a s₁).trans_eq (congrArg (· + 1) hs)

theorem opensOne_addHandle (o : OpenHandle) : OpensOne (addHandle o) := fun _ => Nat.le_refl _

theorem opensOne_open (env : Env) (filename : String) (flags : OpenFlags) :
    OpensOne (files.open env filename flags) := by
  refine .bind Frame.Keeps.require fun _ => .bind (kept_ofExcept _) fun requested => ?_
  split_ifs
  · exact .bind Frame.Keeps.require fun _ => .bind Frame.Keeps.require fun _ =>
      .bind (kept_openNew env _) fun _ => opensOne_addHandle _
  · exact .bind (kept_call _) fun _ => opensOne_addHandle _

theorem opensOne_opendir (path : String) : OpensOne (files.opendir path) := by
  rw [opendir_eq]
  exact .bind Frame.Keeps.require fun _ => .bind (kept_listing path) fun _ =>
    opensOne_addHandle _

/-- A request does not read or close every handle. -/
theorem exists_untouched (request : Request) :
    ∃ name, request ≠ .close name ∧ request ≠ .readDir name := by
  by_cases h : request = .close "" ∨ request = .readDir ""
  · refine ⟨"a", ?_, ?_⟩
    all_goals
      rintro rfl
      simp at h
  · exact ⟨"", fun heq => h (.inl heq), fun heq => h (.inr heq)⟩

theorem opensOne_answer (env : Env) (request : Request) : OpensOne (files.answer env request) := by
  by_cases hopens : opens request = true
  · cases request with
    | «open» filename flags => exact opensOne_open env filename flags
    | openDir path => exact opensOne_opendir path
    | _ => cases hopens
  · obtain ⟨name, hclose, hread⟩ := exists_untouched request
    have hkept : (kept (opens request) name).Keeps (files.answer env request) :=
      kept_answer env hclose hread
    rw [Bool.eq_false_iff.2 hopens] at hkept
    exact .of_kept hkept

/-! ### One request -/

variable {s : Session} {entries : List File}

theorem kept_process (env : Env) {request : Request} (hclose : request ≠ .close name)
    (hread : request ≠ .readDir name) (s : Session) :
    (kept (opens request) name).rel s (files.process env request s).2 := by
  have hkeep : (kept (opens request) name).Keeps (files.dispatch env request) :=
    Frame.Keeps.get.bind fun _ => Frame.Keeps.require.bind fun _ => kept_answer env hclose hread
  rw [process_after]
  exact hkeep { s with fs := { s.fs with clock := env.clock } }

theorem numbered_process (env : Env) (request : Request) (s : Session) :
    Numbered s (files.process env request s).1 (files.process env request s).2 := by
  refine process_of_ends files (P := Numbered s) ?_
  rw [dispatch_eq]
  split_ifs
  · exact (namesNew_answer env request _).mono (fun _ _ h => h) fun _ _ _ handle h => by cases h
  · exact fun handle h => by cases h

/-- A request never takes the number of a handle back. -/
theorem nextHandle_le (env : Env) (request : Request) (s : Session) :
    s.nextHandle ≤ (files.process env request s).2.nextHandle := by
  obtain ⟨name, hclose, hread⟩ := exists_untouched request
  exact (kept_process env hclose hread s).1

/-- A request gives one handle at most. -/
theorem nextHandle_le_succ (env : Env) (request : Request) (s : Session) :
    (files.process env request s).2.nextHandle ≤ s.nextHandle + 1 := by
  refine process_of_ends files (P := fun _ s' => s'.nextHandle ≤ s.nextHandle + 1) ?_
  rw [dispatch_eq]
  split_ifs
  · have hone : OpensOne (files.answer env request) := opensOne_answer env request
    have hone := hone { s with fs := { s.fs with clock := env.clock } }
    revert hone
    cases files.answer env request { s with fs := { s.fs with clock := env.clock } } <;>
      exact id
  · exact Nat.le_succ _

/-- The handle of a directory stands for its listing. -/
theorem ends_opendir (path : String) (s : Session) :
    Ends (fun reply s' => ∀ handle, reply = .handle handle → ∃ entries s₁,
        files.listing path s = .ok entries s₁ ∧
          s'.handles.lookup handle = some (.directory (sorted entries) 0))
      (fun _ _ => True) (files.opendir path s) := by
  rw [opendir_eq]
  refine Ends.bind (P := fun _ s' => s' = s) (Ends.require (fun _ => rfl) fun _ => trivial) ?_
  rintro _ s' hs
  rw [hs]
  refine Ends.bind (P := fun entries s₁ => files.listing path s = .ok entries s₁) ?_ ?_
  · cases files.listing path s with
    | ok entries s₁ => exact rfl
    | error e s₁ => trivial
  · rintro entries s₁ hlisting handle hreply
    refine ⟨entries, s₁, hlisting, ?_⟩
    rw [← Reply.handle.inj hreply]
    exact List.lookup_cons_self

/-- A directory that is opened. -/
theorem process_openDir {env : Env} {path handle : String}
    (h : (files.process env (.openDir path) s).1 = .handle handle) :
    (files.process env (.openDir path) s).2.initialized = true ∧
      (files.process env (.openDir path) s).2.Issued handle ∧
      ∃ entries s₁, files.listing path { s with fs := { s.fs with clock := env.clock } } =
          .ok entries s₁ ∧
        (files.process env (.openDir path) s).2.handles.lookup handle =
          some (.directory (sorted entries) 0) := by
  have hclose : Request.openDir path ≠ .close "" := nofun
  have hread : Request.openDir path ≠ .readDir "" := nofun
  have hkept : (kept true "").rel s (files.process env (.openDir path) s).2 :=
    kept_process env hclose hread s
  have hinit : s.initialized = true := by
    by_contra hinit
    rw [process, dispatch_eq, if_neg (by simpa using hinit)] at h
    cases h
  refine ⟨hkept.2.2.1 hinit, ⟨_, Nat.le_refl _, (numbered_process env _ s handle h).1⟩, ?_⟩
  -- any handle in the reply stands for the listing
  have hends : ∀ handle, (files.process env (.openDir path) s).1 = .handle handle →
      ∃ entries s₁, files.listing path { s with fs := { s.fs with clock := env.clock } } =
          .ok entries s₁ ∧
        (files.process env (.openDir path) s).2.handles.lookup handle =
          some (.directory (sorted entries) 0) := by
    refine process_of_ends files (P := fun reply s' => ∀ handle, reply = .handle handle →
      ∃ entries s₁, files.listing path { s with fs := { s.fs with clock := env.clock } } =
          .ok entries s₁ ∧ s'.handles.lookup handle = some (.directory (sorted entries) 0)) ?_
    rw [dispatch_eq, if_pos (.inr hinit)]
    refine (ends_opendir path _).mono (fun _ _ h => h) ?_
    intro e s' _ handle' heq
    cases heq
  exact hends handle h

/-- The entries of one reply. -/
def block (entries : List File) (i : ℕ) : Reply :=
  if 64 * i < entries.length then .name ((entries.drop (64 * i)).take 64) else .status .eof

/-- The handle stands for a directory of which so many blocks have been returned. -/
structure Listed (handle : String) (entries : List File) (i : ℕ) (s : Session) : Prop where
  initialized : s.initialized = true
  issued : s.Issued handle
  lookup : s.handles.lookup handle = some (.directory entries (min (64 * i) entries.length))

/-- A block is returned. -/
theorem process_readDir {handle : String} {i : ℕ} (h : Listed handle entries i s) (env : Env) :
    (files.process env (.readDir handle) s).1 = block entries i ∧
      Listed handle entries (i + 1) (files.process env (.readDir handle) s).2 := by
  refine process_of_ends files (P := fun reply s' => reply = block entries i ∧
    Listed handle entries (i + 1) s') ?_
  rw [dispatch_eq, if_pos (.inr h.initialized)]
  change Ends _ _ (readdir handle _)
  rw [readdir, getHandle_bind]
  dsimp only
  rw [h.lookup]
  dsimp only
  unfold block
  by_cases hlt : 64 * i < entries.length
  · rw [if_pos hlt, Nat.min_eq_left hlt.le]
    refine Ends.bind (P := fun _ s' => s' = { s with fs := { s.fs with clock := env.clock } })
      (Ends.require (fun _ => rfl) fun heq => absurd heq (not_not.2 (by omega))) ?_
    rintro _ _ rfl
    have hstop : min (64 * i + blockSize) entries.length = min (64 * (i + 1)) entries.length := rfl
    refine ⟨congrArg Reply.name ?_, h.initialized, h.issued, ?_⟩
    · rw [hstop]
      rcases Nat.le_total (64 * (i + 1)) entries.length with hle | hle
      · rw [Nat.min_eq_left hle, Nat.mul_succ, Nat.add_sub_cancel_left]
      · rw [Nat.min_eq_right hle, List.take_of_length_le (by rw [List.length_drop]),
          List.take_of_length_le (by rw [List.length_drop]; omega)]
    · exact List.lookup_cons_self.trans (by rw [hstop])
  -- the listing is at its end
  · rw [if_neg hlt, Nat.min_eq_right (by omega)]
    unfold Program.require
    rw [if_neg (not_not.2 rfl)]
    refine ⟨rfl, h.initialized, h.issued, ?_⟩
    dsimp only
    rw [h.lookup, Nat.min_eq_right (by omega), Nat.min_eq_right (by omega)]

/-! ### Runs -/

/-- The handle in a reply. -/
def handleOf : Reply → Option String
  | .handle handle => some handle
  | _ => none

/-- The handles given in replies. -/
def issued (replies : List Reply) : List String := replies.filterMap handleOf

/-- The entries in a reply. -/
def entriesOf : Reply → List File
  | .name entries => entries
  | _ => []

/-- The replies to the requests that read a handle. -/
def readReplies (handle : String) (requests : List (Env × Request)) (replies : List Reply) :
    List Reply :=
  ((requests.zip replies).filter fun p => p.1.2 = .readDir handle).map Prod.snd

/-- Replies return the entries of a listing in order, each once: some as long as there are any, and
then the end. -/
structure Delivers (entries : List File) (replies : List Reply) : Prop where
  returned : replies.flatMap entriesOf = entries.take (64 * replies.length)
  more : ∀ i < replies.length, 64 * i < entries.length →
    ∃ files, files ≠ [] ∧ replies[i]? = some (.name files)
  eof : ∀ i < replies.length, entries.length ≤ 64 * i → replies[i]? = some (.status .eof)

/-- The handles a session gives are new, and count the requests at most. -/
theorem issued_run (s : Session) (es : List (Env × Request)) :
    (issued (files.run s es).1).Nodup ∧
      ∀ handle ∈ issued (files.run s es).1, ∃ k, handle = toString k ∧ s.nextHandle < k ∧
        k ≤ s.nextHandle + es.length := by
  induction es generalizing s with
  | nil => exact ⟨List.nodup_nil, fun handle h => by cases h⟩
  | cons r rest ih =>
    obtain ⟨env, request⟩ := r
    obtain ⟨hnodup, hnew⟩ := ih (files.process env request s).2
    have hle : s.nextHandle ≤ (files.process env request s).2.nextHandle :=
      nextHandle_le env request s
    have hone : (files.process env request s).2.nextHandle ≤ s.nextHandle + 1 :=
      nextHandle_le_succ env request s
    have hnumbered : Numbered s (files.process env request s).1 (files.process env request s).2 :=
      numbered_process env request s
    simp only [run, issued, List.filterMap_cons] at hnodup hnew ⊢
    cases hreply : handleOf (files.process env request s).1 with
    | none =>
      refine ⟨hnodup, fun handle hmem => ?_⟩
      obtain ⟨k, hk, hlt, hcount⟩ := hnew handle hmem
      exact ⟨k, hk, by omega, by rw [List.length_cons]; omega⟩
    | some handle =>
      have heq : (files.process env request s).1 = .handle handle := by
        revert hreply
        cases (files.process env request s).1 <;> simp [handleOf]
      obtain ⟨hname, hlt⟩ := hnumbered handle heq
      refine ⟨List.nodup_cons.2 ⟨fun hmem => ?_, hnodup⟩, fun handle' hmem => ?_⟩
      · obtain ⟨k, hk, hlt', -⟩ := hnew handle hmem
        have := toString_inj.1 (hname.symm.trans hk)
        omega
      · rcases List.mem_cons.1 hmem with rfl | hmem
        · exact ⟨_, hname, hlt, by rw [List.length_cons]; omega⟩
        · obtain ⟨k, hk, hlt', hcount⟩ := hnew handle' hmem
          exact ⟨k, hk, by omega, by rw [List.length_cons]; omega⟩

/-- The blocks of a directory are returned in order, whatever comes between. -/
theorem readReplies_run {handle : String} {i : ℕ} (h : Listed handle entries i s)
    (es : List (Env × Request)) (hclose : ∀ r ∈ es, r.2 ≠ .close handle) :
    ∃ n, readReplies handle es (files.run s es).1 = (List.range' i n).map (block entries) := by
  induction es generalizing s i with
  | nil => exact ⟨0, rfl⟩
  | cons r rest ih =>
    obtain ⟨env, request⟩ := r
    have hrest : ∀ r ∈ rest, r.2 ≠ .close handle := fun r hr =>
      hclose r (List.mem_cons_of_mem _ hr)
    by_cases hread : request = .readDir handle
    · subst hread
      have hstep : (files.process env (.readDir handle) s).1 = block entries i ∧
          Listed handle entries (i + 1) (files.process env (.readDir handle) s).2 :=
        process_readDir h env
      obtain ⟨hreply, hlisted⟩ := hstep
      obtain ⟨n, hn⟩ := ih hlisted hrest
      refine ⟨n + 1, ?_⟩
      rw [List.range'_succ, List.map_cons, ← hn, ← hreply]
      simp [readReplies, run]
    · have hkept : (kept (opens request) handle).rel s (files.process env request s).2 :=
        kept_process env (hclose _ List.mem_cons_self) hread s
      obtain ⟨hnext, -, hinit, hlookup⟩ := hkept
      obtain ⟨k, hk, hname⟩ := h.issued
      obtain ⟨n, hn⟩ := ih ⟨hinit h.initialized, ⟨k, hk.trans hnext, hname⟩,
        (hlookup h.issued).trans h.lookup⟩ hrest
      refine ⟨n, ?_⟩
      rw [← hn]
      simp [readReplies, run, hread]

/-- The blocks of a listing are its entries. -/
theorem delivers_blocks (entries : List File) (n : ℕ) :
    Delivers entries ((List.range' 0 n).map (block entries)) := by
  have hget : ∀ i < ((List.range' 0 n).map (block entries)).length,
      ((List.range' 0 n).map (block entries))[i]? = some (block entries i) := by
    intro i hi
    rw [List.length_map, List.length_range'] at hi
    rw [List.getElem?_map, List.getElem?_range' (by omega)]
    simp
  refine ⟨?_, fun i hi hlt => ?_, fun i hi hle => ?_⟩
  · rw [List.length_map, List.length_range']
    clear hget
    induction n with
    | zero => simp
    | succ n ih =>
      have hblock : entriesOf (block entries n) = (entries.drop (64 * n)).take 64 := by
        unfold block
        split_ifs with hlt
        · rfl
        · rw [List.drop_eq_nil_of_le (by omega)]
          rfl
      rw [List.range'_concat, List.map_append, List.flatMap_append, ih, List.map_singleton,
        List.flatMap_singleton, Nat.zero_add, Nat.one_mul, hblock, Nat.mul_succ, List.take_add]
  · refine ⟨(entries.drop (64 * i)).take 64, ?_, ?_⟩
    · rw [Ne, List.take_eq_nil_iff, List.drop_eq_nil_iff]
      omega
    · rw [hget i hi, block, if_pos hlt]
  · rw [hget i hi, block, if_neg (by omega)]

/-- **Directory handles deliver each entry once.**  The handles of a session are new, with numbers
that do not exceed the number of requests, and the replies to reading a directory handle, up to its
end or until it is closed, return what was listed when it was opened, in the order of the names. -/
theorem directory_delivered (files : Files) (fs : Posix.Fs) :
    (∀ es, (issued (files.run (Session.new fs) es).1).Nodup ∧
      ∀ handle ∈ issued (files.run (Session.new fs) es).1, ∃ k ≤ es.length,
        handle = toString k) ∧
    ∀ before env path during,
      let s := (files.run (Session.new fs) before).2
      let opened := files.process env (.openDir path) s
      ∀ handle, opened.1 = .handle handle → (∀ r ∈ during, r.2 ≠ .close handle) →
        ∃ entries s₁ order,
          files.listing path { s with fs := { s.fs with clock := env.clock } } = .ok entries s₁ ∧
          order.Perm entries ∧ order.Pairwise (·.filename ≤ ·.filename) ∧
          Delivers order (readReplies handle during (files.run opened.2 during).1) := by
  refine ⟨fun es => ⟨(issued_run _ es).1, fun handle hmem => ?_⟩, ?_⟩
  · obtain ⟨k, hk, -, hcount⟩ := (issued_run _ es).2 handle hmem
    exact ⟨k, hcount.trans_eq (Nat.zero_add _), hk⟩
  intro before env path during s opened handle hopened hclose
  obtain ⟨hinit, hissued, entries, s₁, hlisting, hlookup⟩ := process_openDir hopened
  obtain ⟨n, hn⟩ := readReplies_run ⟨hinit, hissued, by
    rw [hlookup, Nat.mul_zero, Nat.zero_min]⟩ during hclose
  refine ⟨entries, s₁, sorted entries, hlisting, List.perm_insertionSort _ _, ?_, ?_⟩
  · exact List.pairwise_insertionSort (fun a b : File => a.filename ≤ b.filename) entries
  · rw [hn]
    exact delivers_blocks _ n

end Files

end Tailcat.Sftp
