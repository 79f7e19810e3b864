import Tailcat.Sftp.DropBox
import Tailcat.Lib.PosixTwins

/-!
# Two sessions of a drop box

The same requests in two sessions over different filesystems.  The sessions are `Twins` as long as
their own objects cannot be told apart (`Posix.Coupling`), their handles are the same, and what
either remembers to have written leads to the same object.  Requests that look at nothing else are
answered alike (`twins_answer`): all but those that create something or ask for the attributes of a
path the session did not write.

The frame is `Agree`: both programs end with related results in related states, or with the same
error.  It is put together along the requests like the programs are, from the calls of two
filesystems in `Lib.PosixTwins`.  The coupling is a parameter, so that the two drop boxes, which
create their objects in different ways, share everything else.
-/

namespace Tailcat.Sftp

open Posix (Path FsM Coupling)
open Program (Agree require)

section

variable {m : ℕ} (C : Coupling m) (files : Files) (places : List (Path × Path × ℕ))

/-- The sessions differ in nothing the client can see of its own objects. -/
structure Twins (s t : Session) : Prop where
  fs : (C.placing files.base places).rel s.fs t.fs
  own : ∀ p ∈ places, m ≤ p.2.2
  /-- The sessions remember the same paths, each with where the object is. -/
  wrote : ∀ path, Option.Rel (fun p q => ∃ i, (p, q, i) ∈ places) (s.wrote.lookup path)
    (t.wrote.lookup path)
  handles : t.handles = s.handles
  file : ∀ h ∈ s.handles, ∃ ino append readable writable,
    h.2 = .file ino append readable writable ∧ m ≤ ino
  nextHandle : t.nextHandle = s.nextHandle
  initialized : t.initialized = s.initialized

/-- The replies are the same, or attributes of objects nobody can tell apart. -/
def AlikeReply (r r' : Reply) : Prop :=
  r = r' ∨ ∃ host x y, C.same x y ∧ r = .attrs (attributes host x) ∧
    r' = .attrs (attributes host y)

/-- The sessions after a request that was answered in both. -/
def Answered (r r' : Reply) (s t : Session) : Prop :=
  AlikeReply C r r' ∧ Twins C files places s t

end

section

variable {m : ℕ} {C : Coupling m} {files : Files} {places : List (Path × Path × ℕ)}
  {s t : Session} {α : Type}

theorem Twins.set_fs (h : Twins C files places s t) {fs fs' : Posix.Fs}
    (hfs : (C.placing files.base places).rel fs fs') :
    Twins C files places { s with fs := fs } { t with fs := fs' } :=
  ⟨hfs, h.own, h.wrote, h.handles, h.file, h.nextHandle, h.initialized⟩

/-- A system call that ends alike in two sessions. -/
theorem agree_call {A : α → α → Posix.Fs → Posix.Fs → Prop} {E : Posix.Fs → Posix.Fs → Prop}
    {n n' : FsM α} (s t : Session) (hn : Agree A E (n s.fs) (n' t.fs)) :
    Agree (fun a b s' t' => ∃ u v, s' = { s with fs := u } ∧ t' = { t with fs := v } ∧ A a b u v)
      (fun s' t' => ∃ u v, s' = { s with fs := u } ∧ t' = { t with fs := v } ∧ E u v)
      (call n s) (call n' t) := by
  rw [call_eq, call_eq]
  cases hs : n s.fs with
  | ok a u =>
    cases ht : n' t.fs with
    | ok b v =>
      rw [hs, ht] at hn
      exact ⟨u, v, rfl, rfl, hn⟩
    | error e v =>
      rw [hs, ht] at hn
      exact hn.elim
  | error e u =>
    cases ht : n' t.fs with
    | ok b v =>
      rw [hs, ht] at hn
      exact hn.elim
    | error e' v =>
      rw [hs, ht] at hn
      exact ⟨congrArg status hn.1, u, v, rfl, rfl, hn.2⟩

/-- The filesystems have grown since. -/
theorem Twins.grow (h : Twins C files places s t) {fs fs' : Posix.Fs} (hfs : C.rel fs fs')
    (hg : Posix.Grows s.fs fs) (hg' : Posix.Grows t.fs fs') :
    Twins C files places { s with fs := fs } { t with fs := fs' } :=
  h.set_fs ⟨hfs, fun o ho => ⟨(h.fs.2 o ho).1.grow hg, (h.fs.2 o ho).2.grow hg'⟩⟩

theorem twins_call {A : α → α → Prop} {n n' : FsM α} (h : Twins C files places s t)
    (hn : Agree (fun a b u v => A a b ∧ (C.placing files.base places).rel u v)
      (C.placing files.base places).rel (n s.fs) (n' t.fs)) :
    Agree (fun a b s t => A a b ∧ Twins C files places s t) (Twins C files places)
      (call n s) (call n' t) := by
  refine (agree_call s t hn).mono ?_ ?_
  · rintro a b _ _ ⟨u, v, rfl, rfl, hab, hrel⟩
    exact ⟨hab, h.set_fs hrel⟩
  · rintro _ _ ⟨u, v, rfl, rfl, hrel⟩
    exact h.set_fs hrel

/-- A call without an answer. -/
theorem twins_do {n n' : FsM Unit} (h : Twins C files places s t)
    (hn : Agree (fun _ _ => (C.placing files.base places).rel)
      (C.placing files.base places).rel (n s.fs) (n' t.fs)) :
    Agree (fun _ _ => Twins C files places) (Twins C files places) (call n s) (call n' t) :=
  (twins_call (A := fun _ _ => True) h (hn.mono (fun _ _ _ _ h => ⟨trivial, h⟩)
    fun _ _ h => h)).mono (fun _ _ _ _ h => h.2) fun _ _ h => h

theorem twins_ofExcept (h : Twins C files places s t) (r : Except StatusCode α) :
    Agree (fun a b s t => a = b ∧ Twins C files places s t) (Twins C files places)
      (ofExcept r s) (ofExcept r t) := by
  cases r with
  | ok a => exact ⟨rfl, h⟩
  | error e => exact Agree.throw h

/-- What is done with a handle. -/
theorem twins_getHandle {A : α → α → Session → Session → Prop} {f g : Option OpenHandle → FxM α}
    (handle : String) (h : Twins C files places s t)
    (hnone : Agree A (Twins C files places) (f none s) (g none t))
    (hfile : ∀ ino append readable writable, m ≤ ino → Agree A (Twins C files places)
      (f (some (.file ino append readable writable)) s)
      (g (some (.file ino append readable writable)) t)) :
    Agree A (Twins C files places) ((Files.getHandle handle >>= f) s)
      ((Files.getHandle handle >>= g) t) := by
  rw [Files.getHandle_bind, Files.getHandle_bind, h.handles]
  cases ho : s.handles.lookup handle with
  | none => exact hnone
  | some o =>
    obtain ⟨ino, append, readable, writable, ho', hino⟩ := h.file _ (mem_of_lookup ho)
    obtain rfl : o = .file ino append readable writable := ho'
    exact hfile ino append readable writable hino

theorem twins_setIf {β : Type} {o : Option β} {f g : β → FxM Unit} (h : Twins C files places s t)
    (hf : ∀ b, Agree (fun _ _ => Twins C files places) (Twins C files places) (f b s) (g b t)) :
    Agree (fun _ _ => Twins C files places) (Twins C files places) (Files.setIf o f s)
      (Files.setIf o g t) := by
  cases o with
  | none => exact h
  | some b => exact hf b

theorem twins_setTimes {attrs : FileAttributes} {f g : Option ℤ → Option ℤ → FsM Unit}
    (h : Twins C files places s t)
    (hf : ∀ a b, Agree (fun _ _ => (C.placing files.base places).rel)
      (C.placing files.base places).rel (f a b s.fs) (g a b t.fs)) :
    Agree (fun _ _ => Twins C files places) (Twins C files places)
      (Files.setTimes attrs f s) (Files.setTimes attrs g t) := by
  unfold Files.setTimes
  split_ifs
  · exact twins_do h (hf _ _)
  · exact h

/-- The answer to a change. -/
theorem answered_ok (h : Twins C files places s t) :
    Agree (Answered C files places) (Twins C files places)
      ((pure (.status .ok) : FxM Reply) s) ((pure (.status .ok) : FxM Reply) t) :=
  ⟨.inl rfl, h⟩

/-! ### Requests about handles -/

namespace Files

theorem twins_init (h : Twins C files places s t) :
    Agree (Answered C files places) (Twins C files places) (files.init s) (files.init t) := by
  change Agree _ _ ((require (s.initialized = false) .badMessage >>= fun _ => _ : FxM Reply) s)
    ((require (t.initialized = false) .badMessage >>= fun _ => _ : FxM Reply) t)
  rw [h.initialized]
  refine Agree.require_bind h fun _ => ⟨.inl rfl, ?_⟩
  exact ⟨h.fs, h.own, h.wrote, h.handles, h.file, h.nextHandle, rfl⟩

theorem twins_close (handle : String) (h : Twins C files places s t) :
    Agree (Answered C files places) (Twins C files places) (close handle s) (close handle t) := by
  refine Agree.bind (A := fun a b s t => a = b ∧ Twins C files places s t) ⟨?_, ?_⟩ ?_
  · rw [h.handles]
  · refine ⟨h.fs, h.own, h.wrote, ?_, fun o ho => h.file o (List.mem_filter.1 ho).1,
      h.nextHandle, h.initialized⟩
    rw [h.handles]
  · rintro a b s t ⟨rfl, h⟩
    exact Agree.require_bind h fun _ => answered_ok h

theorem twins_write (handle : String) (offset : UInt64) (data : Bytes)
    (h : Twins C files places s t) :
    Agree (Answered C files places) (Twins C files places) (write handle offset data s)
      (write handle offset data t) := by
  refine twins_getHandle handle h (Agree.throw h) fun ino append readable writable hino => ?_
  cases writable with
  | true =>
    exact (twins_do h (Coupling.agree_write hino append offset.toNat data h.fs)).bind
      fun _ _ _ _ h => answered_ok h
  | false => exact Agree.throw h

theorem twins_fstat (handle : String) (h : Twins C files places s t) :
    Agree (Answered C files places) (Twins C files places) (fstat handle s) (fstat handle t) := by
  refine twins_getHandle handle h (Agree.throw h) fun ino append readable writable hino => ?_
  refine (twins_call h (Coupling.agree_fstat hino h.fs)).bind ?_
  rintro x y s t ⟨hxy, h⟩
  refine ⟨.inr ⟨s.fs.host, x, y, hxy, rfl, ?_⟩, h⟩
  rw [(C.placing files.base places).host h.fs]

theorem twins_fsync (handle : String) (h : Twins C files places s t) :
    Agree (Answered C files places) (Twins C files places) (fsync handle s) (fsync handle t) :=
  twins_getHandle handle h (Agree.throw h) fun _ _ _ _ _ =>
    (twins_do h (Coupling.agree_enter h.fs)).bind fun _ _ _ _ h => answered_ok h

theorem twins_readdir (handle : String) (h : Twins C files places s t) :
    Agree (Answered C files places) (Twins C files places) (readdir handle s)
      (readdir handle t) :=
  twins_getHandle handle h (Agree.throw h) fun _ _ _ _ _ => Agree.throw h

theorem twins_realPath (path : String) (h : Twins C files places s t) :
    Agree (Answered C files places) (Twins C files places) (files.realPath path s)
      (files.realPath path t) := by
  refine (twins_ofExcept h _).bind ?_
  rintro p _ s t ⟨rfl, h⟩
  cases files.root with
  | none => exact ⟨.inl rfl, h⟩
  | some root => exact ⟨.inl rfl, h⟩

/-- A request stopped by a condition that does not hold. -/
theorem twins_of_refused {c : Prop} [Decidable c] (hc : ¬c) {f : Unit → FxM Reply}
    (h : Twins C files places s t) :
    Agree (Answered C files places) (Twins C files places)
      ((require c .permissionDenied >>= f : FxM Reply) s)
      ((require c .permissionDenied >>= f : FxM Reply) t) :=
  Agree.require_bind h fun hc' => absurd hc' hc

/-! ### Changing attributes -/

section

variable (hwo : files.mode.isWriteOnly)

include hwo

theorem twins_fSetStat (handle : String) (attrs : FileAttributes)
    (h : Twins C files places s t) :
    Agree (Answered C files places) (Twins C files places) (files.fSetStat handle attrs s)
      (files.fSetStat handle attrs t) := by
  obtain ⟨root, hroot⟩ := root_of_writeOnly hwo
  refine Agree.require_bind h fun _ => twins_getHandle handle h (Agree.throw h)
    fun ino append readable writable hino => Agree.require_bind h fun _ => ?_
  refine Agree.bind (A := fun _ _ => Twins C files places) ?_ fun _ _ _ _ h => answered_ok h
  simp only [setFileAttrs, hroot, Option.isNone_some, Bool.false_eq_true, if_false]
  exact (twins_setIf h fun _ => twins_do h (Coupling.agree_fchmod hino _ h.fs)).bind
    fun _ _ _ _ h => (twins_setTimes h fun _ _ => Coupling.agree_futimes hino _ _ h.fs).bind
    fun _ _ _ _ h => twins_setIf h fun _ => twins_do h (Coupling.agree_ftruncate hino _ h.fs)

/-- The attributes of an object placed at a path of either session. -/
theorem twins_setAttrsAt {p q : Path} {i : ℕ} (hmem : (p, q, i) ∈ places)
    (attrs : FileAttributes) (h : Twins C files places s t) :
    Agree (fun _ _ => Twins C files places) (Twins C files places)
      (files.setAttrsAt p attrs s) (files.setAttrsAt q attrs t) := by
  obtain ⟨root, hroot⟩ := root_of_writeOnly hwo
  have hi : m ≤ i := h.own _ hmem
  have hC : (C.placing files.base places).Places files.base p q i := Coupling.places_of_mem hmem
  simp only [setAttrsAt, hroot]
  exact (twins_setIf h fun _ => twins_do h (Coupling.agree_chmod hi hC _ h.fs)).bind
    fun _ _ _ _ h => (twins_setTimes h fun _ _ => Coupling.agree_utimes hi hC _ _ h.fs).bind
    fun _ _ _ _ h => twins_setIf h fun _ =>
      twins_do h (Coupling.agree_truncate hi hC rfl rfl _ _ h.fs)

theorem twins_setStat (path : String) (attrs : FileAttributes)
    (h : Twins C files places s t) :
    Agree (Answered C files places) (Twins C files places) (files.setStat path attrs s)
      (files.setStat path attrs t) := by
  refine (twins_ofExcept h _).bind ?_
  rintro path _ s t ⟨rfl, h⟩
  refine Agree.require_bind h fun _ => ?_
  refine Agree.bind (A := fun p q s t => (∃ i, (p, q, i) ∈ places) ∧ Twins C files places s t)
    ?_ ?_
  · rw [settable_eq hwo, settable_eq hwo]
    have hw := h.wrote path
    revert hw
    generalize s.wrote.lookup path = p, t.wrote.lookup path = q
    intro hw
    cases hw with
    | some hpq => exact ⟨hpq, h⟩
    | none => exact ⟨rfl, h⟩
  · rintro p q s t ⟨⟨i, hmem⟩, h⟩
    exact (twins_setAttrsAt hwo hmem attrs h).bind fun _ _ _ _ h => answered_ok h

theorem twins_requireRw {f : Unit → FxM Reply} (h : Twins C files places s t) :
    Agree (Answered C files places) (Twins C files places) ((files.requireRw >>= f) s)
      ((files.requireRw >>= f) t) :=
  twins_of_refused (not_readWrite hwo) h

theorem twins_extended (request : String) (data : Bytes) (h : Twins C files places s t) :
    Agree (Answered C files places) (Twins C files places) (files.extended request data s)
      (files.extended request data t) := by
  obtain ⟨root, hroot⟩ := root_of_writeOnly hwo
  refine (twins_ofExcept h _).bind ?_
  rintro ⟨first, bytes⟩ _ s t ⟨rfl, h⟩
  dsimp only
  split_ifs with _ _ _ hv
  · refine (twins_ofExcept h _).bind ?_
    rintro ⟨second, _⟩ _ s t ⟨rfl, h⟩
    exact twins_requireRw hwo h
  · exact twins_requireRw hwo h
  · exact twins_fsync first h
  · rw [hroot] at hv
    exact absurd hv.2 (by simp)
  · exact Agree.throw h

/-! ### Attributes of paths -/

omit hwo in
theorem twins_metadata {p q : Path} {i : ℕ} (hmem : (p, q, i) ∈ places) (follow : Bool)
    (h : Twins C files places s t) :
    Agree (fun a b s t => AlikeReply C (.attrs a) (.attrs b) ∧ Twins C files places s t)
      (Twins C files places) (files.metadata p follow s) (files.metadata q follow t) := by
  have hC : (C.placing files.base places).Places files.base p q i := Coupling.places_of_mem hmem
  refine (twins_call h (Coupling.agree_stat (h.own _ hmem) hC follow h.fs)).bind ?_
  rintro x y s t ⟨hxy, h⟩
  refine ⟨.inr ⟨s.fs.host, x, y, hxy, rfl, ?_⟩, h⟩
  rw [(C.placing files.base places).host h.fs]

omit hwo in
/-- The attributes of a path the session did not write. -/
def statOther (files : Files) (path : Path) (follow : Bool) : FxM FileAttributes := do
  require (¬(files.mode = .writeOnly ∧ path ≠ [])) .noSuchFile
  match ← attempt (Posix.stat files.base path follow) with
  | .error _ => throw .noSuchFile
  | .ok n =>
    let m := attributes (← get).fs.host n
    require m.isDir .noSuchFile
    return m

omit hwo in
/-- What asking for the attributes of another object comes to. -/
theorem statOther_eq {path : Path} (hc : ¬(files.mode = .writeOnly ∧ path ≠ [])) (follow : Bool)
    (s : Session) :
    files.statOther path follow s = match Posix.stat files.base path follow s.fs with
      | .ok n fs =>
        if (attributes fs.host n).isDir then .ok (attributes fs.host n) { s with fs }
        else .error .noSuchFile { s with fs }
      | .error _ fs => .error .noSuchFile { s with fs } := by
  rw [statOther, require, if_pos hc]
  change (attempt (Posix.stat files.base path follow) >>= _) s = _
  cases hr : Posix.stat files.base path follow s.fs with
  | error e fs =>
    have ha : attempt (Posix.stat files.base path follow) s = .ok (.error e) { s with fs } := by
      rw [attempt, hr]
    exact Program.bind_ok ha _
  | ok n fs =>
    have ha : attempt (Posix.stat files.base path follow) s = .ok (.ok n) { s with fs } := by
      rw [attempt, hr]
    refine (Program.bind_ok ha _).trans ?_
    change (require ((attributes fs.host n).isDir) .noSuchFile >>= fun _ =>
      pure (attributes fs.host n) : FxM FileAttributes) { s with fs } = _
    dsimp only
    unfold require
    split_ifs <;> rfl

theorem statPath_eq (path : Path) (follow : Bool) (s : Session) :
    files.statPath path follow s = (match s.wrote.lookup path with
      | some actual => files.metadata actual follow
      | none => files.statOther path follow) s := by
  simp only [statPath, hwo, Bool.not_true, Bool.false_eq_true, if_false]
  rfl

theorem twins_statRequest {A : Reply → Reply → Session → Session → Prop} (path : String)
    (follow : Bool) (h : Twins C files places s t)
    (hA : ∀ r r' s t, Answered C files places r r' s t → A r r' s t)
    (hother : ∀ path', files.path path = .ok path' →
      Agree (fun a b => A (.attrs a) (.attrs b)) (Twins C files places)
        (files.statOther path' follow s) (files.statOther path' follow t)) :
    Agree A (Twins C files places) (files.statRequest path follow s)
      (files.statRequest path follow t) := by
  unfold statRequest
  cases hpath : files.path path with
  | error e => exact Agree.throw h
  | ok path' =>
    refine Agree.bind (A := fun a b => A (.attrs a) (.attrs b)) ?_ fun _ _ _ _ h => h
    rw [statPath_eq hwo, statPath_eq hwo]
    have hw := h.wrote path'
    revert hw
    generalize s.wrote.lookup path' = p, t.wrote.lookup path' = q
    intro hw
    cases hw with
    | none => exact hother path' hpath
    | some hpq =>
      obtain ⟨i, hmem⟩ := hpq
      exact (twins_metadata hmem follow h).mono (fun a b s t h => hA _ _ s t h) fun _ _ h => h

/-! ### Requests that depend on nothing else -/

/-- Does a request create something, or look at objects the session may not have made? -/
def Outward : Request → Prop
  | .open _ _ => True
  | .mkDir _ => True
  | .stat _ => True
  | .lstat _ => True
  | _ => False

/-- Every other request, one case each. -/
theorem twins_answer {request : Request} (hin : ¬Outward request) (env : Env)
    (h : Twins C files places s t) :
    Agree (Answered C files places) (Twins C files places) (files.answer env request s)
      (files.answer env request t) := by
  cases request with
  | «open» filename flags => exact absurd trivial hin
  | mkDir path => exact absurd trivial hin
  | stat path => exact absurd trivial hin
  | lstat path => exact absurd trivial hin
  | init => exact twins_init h
  | close handle => exact twins_close handle h
  | read handle offset len => exact twins_of_refused (by simp [hwo]) h
  | write handle offset data => exact twins_write handle offset data h
  | fstat handle => exact twins_fstat handle h
  | setStat path attrs => exact twins_setStat hwo path attrs h
  | fSetStat handle attrs => exact twins_fSetStat hwo handle attrs h
  | openDir path => exact twins_of_refused (by simp [hwo]) h
  | readDir handle => exact twins_readdir handle h
  | realPath path => exact twins_realPath path h
  | remove filename => exact twins_requireRw hwo h
  | rmDir path => exact twins_requireRw hwo h
  | rename oldpath newpath => exact twins_requireRw hwo h
  | readLink path => exact twins_of_refused (by simp [hwo]) h
  | symlink linkpath targetpath => exact twins_requireRw hwo h
  | extended request data => exact twins_extended hwo request data h
  | other => exact Agree.throw h

end

/-! ### Creating -/

/-- Either session has made an object, the same one, and remembers where it is. -/
theorem twins_created (h : Twins C files places s t) {fs fs' : Posix.Fs} (hfs : C.rel fs fs')
    (hg : Posix.Grows s.fs fs) (hg' : Posix.Grows t.fs fs') {p q : Path} {i : ℕ} (hi : m ≤ i)
    (hp : Posix.Placed files.base fs p i) (hq : Posix.Placed files.base fs' q i)
    (requested : Path) :
    Twins C files ((p, q, i) :: places)
      { s with fs := fs, wrote := (requested, p) :: s.wrote }
      { t with fs := fs', wrote := (requested, q) :: t.wrote } where
  fs := by
    refine ⟨hfs, fun o ho => ?_⟩
    rcases List.mem_cons.1 ho with rfl | ho
    · exact ⟨hp, hq⟩
    · exact ⟨(h.fs.2 o ho).1.grow hg, (h.fs.2 o ho).2.grow hg'⟩
  own o ho := by
    rcases List.mem_cons.1 ho with rfl | ho
    · exact hi
    · exact h.own o ho
  wrote path := by
    by_cases hpath : path = requested
    · subst hpath
      simp only [List.lookup_cons_self]
      exact .some ⟨i, List.mem_cons_self⟩
    · have hne : (path == requested) = false := by simpa using hpath
      simp only [List.lookup_cons, hne]
      have hw := h.wrote path
      revert hw
      generalize s.wrote.lookup path = a, t.wrote.lookup path = b
      intro hw
      cases hw with
      | none => exact .none
      | some hab =>
        obtain ⟨j, hj⟩ := hab
        exact .some ⟨j, List.mem_cons_of_mem _ hj⟩
  handles := h.handles
  file := h.file
  nextHandle := h.nextHandle
  initialized := h.initialized

/-- A handle for an object of the sessions' own. -/
theorem twins_addHandle (h : Twins C files places s t) {ino : ℕ} (hi : m ≤ ino)
    (append readable writable : Bool) :
    Agree (Answered C files places) (Twins C files places)
      (addHandle (.file ino append readable writable) s)
      (addHandle (.file ino append readable writable) t) := by
  refine ⟨.inl ?_, h.fs, h.own, h.wrote, ?_, ?_, ?_, h.initialized⟩
  · rw [h.nextHandle]
  · rw [h.nextHandle, h.handles]
  · intro o ho
    rcases List.mem_cons.1 ho with rfl | ho
    · exact ⟨_, _, _, _, rfl, hi⟩
    · exact h.file o ho
  · rw [h.nextHandle]

/-! ### Processing -/

/-- Two requests that end alike are processed alike. -/
theorem process_agree {A : Reply → Reply → Session → Session → Prop}
    {E : Session → Session → Prop} {env : Env} {request : Request} {s t : Session}
    (h : Agree A E (files.dispatch env request { s with fs := { s.fs with clock := env.clock } })
      (files.dispatch env request { t with fs := { t.fs with clock := env.clock } }))
    (hE : ∀ e s t, E s t → A (.status e) (.status e) s t) :
    A (files.process env request s).1 (files.process env request t).1
      (files.process env request s).2 (files.process env request t).2 := by
  unfold process
  cases hs : files.dispatch env request { s with fs := { s.fs with clock := env.clock } } with
  | ok r s' =>
    cases ht : files.dispatch env request { t with fs := { t.fs with clock := env.clock } } with
    | ok r' t' =>
      rw [hs, ht] at h
      exact h
    | error e t' =>
      rw [hs, ht] at h
      exact h.elim
  | error e s' =>
    cases ht : files.dispatch env request { t with fs := { t.fs with clock := env.clock } } with
    | ok r' t' =>
      rw [hs, ht] at h
      exact h.elim
    | error e' t' =>
      rw [hs, ht] at h
      obtain ⟨rfl, h⟩ := h
      exact hE e s' t' h

theorem twins_dispatch {A : Reply → Reply → Session → Session → Prop} {env : Env}
    {request : Request} (h : Twins C files places s t)
    (hanswer : request = .init ∨ s.initialized → Agree A (Twins C files places)
      (files.answer env request s) (files.answer env request t)) :
    Agree A (Twins C files places) (files.dispatch env request s)
      (files.dispatch env request t) := by
  rw [dispatch_eq, dispatch_eq, h.initialized]
  split_ifs with hc
  · exact hanswer hc
  · exact ⟨rfl, h⟩

theorem twins_clock (h : Twins C files places s t) (clock : ℤ) :
    Twins C files places { s with fs := { s.fs with clock } }
      { t with fs := { t.fs with clock } } :=
  h.set_fs ((C.placing files.base places).set_clock clock h.fs)

/-- A request in twin sessions. -/
theorem twins_process {A : Reply → Reply → Session → Session → Prop} {env : Env}
    {request : Request} (h : Twins C files places s t)
    (hE : ∀ e s t, Twins C files places s t → A (.status e) (.status e) s t)
    (hanswer : Twins C files places { s with fs := { s.fs with clock := env.clock } }
        { t with fs := { t.fs with clock := env.clock } } → request = .init ∨ s.initialized →
      Agree A (Twins C files places)
        (files.answer env request { s with fs := { s.fs with clock := env.clock } })
        (files.answer env request { t with fs := { t.fs with clock := env.clock } })) :
    A (files.process env request s).1 (files.process env request t).1
      (files.process env request s).2 (files.process env request t).2 :=
  process_agree (twins_dispatch (twins_clock h env.clock) (hanswer (twins_clock h env.clock))) hE

end Files

end

end Tailcat.Sftp
