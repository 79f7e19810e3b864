import Tailcat.Sftp.DropBox
import Tailcat.Sftp.ReadOnly
import Tailcat.Sftp.Sound

/-!
# Setting attributes

A SetStat or FSetStat request asks for permissions, times and a length, which are applied to the
object one after the other.  On a share the length comes last (`applied`), and setting it sets the
modification time to the current time.

* `reports_applied_iff` : what is seen of the object then is what was asked for, exactly if not
  both a length and a modification time other than the current time were.
* `setStat_reported_iff` : the same of the requests of any session, for the Stat request that
  follows.

What was asked for and what is reported are compared as far as the request says something: an
attribute that it leaves out may be anything.  The calls go to one object, which the path leads to
before and after (`Edited`), so their effects compose to one function on it, and the comparison is
about this function.  Of a request that fails nothing is said.
-/

namespace Tailcat.Sftp

open Posix (Fs FsM Node Errno Edited Edits withMode withTimes withLen)
open Program (Ends require)

/-! ### What is asked for, and what is seen -/

/-- Everything asked for but the owner is what is seen. -/
structure Reports (attrs seen : FileAttributes) : Prop where
  permissions : ∀ mode, attrs.permissions = some mode →
    seen.permissions.map (· &&& 0o777) = some (mode &&& 0o777)
  atime : ∀ t, attrs.atime = some t → seen.atime = some t
  mtime : ∀ t, attrs.mtime = some t → seen.mtime = some t
  size : ∀ size, attrs.size = some size → seen.size = some size

/-- Nothing is asked for but the owner. -/
def FileAttributes.Idle (attrs : FileAttributes) : Prop :=
  attrs.permissions = none ∧ attrs.atime = none ∧ attrs.mtime = none ∧ attrs.size = none

/-- A reply has the attributes asked for, if there are any. -/
def Reported (attrs : FileAttributes) (reply : Reply) : Prop :=
  attrs.Idle ∨ ∃ seen, reply = .attrs seen ∧ Reports attrs seen

/-- A modification time is asked for together with a length, and is not the time at which the
request is processed. -/
def Clobbered (clock : ℤ) (attrs : FileAttributes) : Prop :=
  attrs.size.isSome ∧ ∃ t, attrs.mtime = some t ∧ seconds clock ≠ t

/-- What an object becomes: its mode is set, then its times, then its length. -/
def applied (clock : ℤ) (attrs : FileAttributes) : Node → Node :=
  (attrs.size.elim id fun size => withLen clock size.toNat) ∘
    (if attrs.atime.isSome || attrs.mtime.isSome then
      withTimes clock (attrs.atime.map Files.time) (attrs.mtime.map Files.time)
    else id) ∘
    attrs.permissions.elim id fun mode => withMode clock (Files.permissionBits mode)

/-! ### The low bits of a mode -/

theorem seconds_time (t : UInt32) : seconds (Files.time t) = t := by
  rw [seconds, Files.time, Int.toNat_natCast, UInt32.ofNat_toNat]

/-- The type bits are above the permissions. -/
theorem low_bits_type (host : Posix.Host) (k : Posix.Kind) :
    (sizeAndType host k).2 &&& 0o777 = 0 := by
  cases k with
  | file data => exact (by decide : (0o100000 : UInt32) &&& 0o777 = 0)
  | dir parent entries => exact (by decide : dirBit &&& 0o777 = 0)
  | symlink target => exact (by decide : (0o120000 : UInt32) &&& 0o777 = 0)

theorem low_bits_or {type : UInt32} (ht : type &&& 0o777 = 0) (mode : UInt32) :
    (type ||| UInt32.ofNat (Files.permissionBits mode % 0o10000)) &&& 0o777 = mode &&& 0o777 := by
  have hbits : UInt32.ofNat (Files.permissionBits mode % 0o10000) = mode &&& 0o777 := by
    have hle : (mode &&& 0o777).toNat ≤ 0o777 := by
      rw [UInt32.toNat_and]
      exact Nat.and_le_right
    rw [Files.permissionBits, Nat.mod_eq_of_lt (by omega), UInt32.ofNat_toNat]
  rw [hbits]
  apply UInt32.eq_of_toBitVec_eq
  have htype := congrArg UInt32.toBitVec ht
  simp only [UInt32.toBitVec_and, UInt32.toBitVec_or] at htype ⊢
  ext i hi
  have hbit : (type.toBitVec[i] && (0o777 : UInt32).toBitVec[i]) = false := by
    rw [← BitVec.getElem_and, htype]
    exact BitVec.getElem_zero hi
  simp only [BitVec.getElem_and, BitVec.getElem_or]
  cases ht : type.toBitVec[i] with
  | false => cases mode.toBitVec[i] <;> cases (0o777 : UInt32).toBitVec[i] <;> rfl
  | true =>
    rw [ht, Bool.true_and] at hbit
    rw [hbit, Bool.and_false, Bool.and_false]

/-! ### What the object becomes -/

section Applied

variable (clock : ℤ) (attrs : FileAttributes) (n : Node)

theorem applied_kind {size : UInt64} (h : attrs.size = some size) :
    (applied clock attrs n).kind = .file
      (n.kind.bytes.take size.toNat ++
        List.replicate (size.toNat - n.kind.bytes.length) 0) := by
  simp only [applied, h, Option.elim_some, Function.comp_apply]
  cases attrs.permissions <;> split_ifs <;> rfl

theorem applied_mode {mode : UInt32} (h : attrs.permissions = some mode) :
    (applied clock attrs n).attr.mode = Files.permissionBits mode := by
  simp only [applied, h, Option.elim_some, Function.comp_apply]
  cases attrs.size <;> split_ifs <;> rfl

theorem applied_atime {t : UInt32} (h : attrs.atime = some t) :
    (applied clock attrs n).attr.atime = Files.time t := by
  simp only [applied, h, Option.isSome_some, Bool.true_or, if_true, Function.comp_apply]
  cases attrs.size <;> rfl

/-- Setting the length comes after setting the times. -/
theorem applied_mtime {t : UInt32} (h : attrs.mtime = some t) :
    (applied clock attrs n).attr.mtime =
      if attrs.size.isSome then clock else Files.time t := by
  simp only [applied, h, Option.isSome_some, Bool.or_true, if_true, Function.comp_apply]
  cases attrs.size <;> rfl

end Applied

/-- **What is asked for is what is seen**, exactly if no time is asked for that setting the length
overwrites. -/
theorem reports_applied_iff (host : Posix.Host) (clock : ℤ) (attrs : FileAttributes) (n : Node) :
    Reports attrs (attributes host (applied clock attrs n)) ↔ ¬Clobbered clock attrs := by
  constructor
  · rintro h ⟨hsize, t, ht, hne⟩
    have hseen := h.mtime t ht
    simp only [attributes, applied_mtime clock attrs n ht, if_pos hsize] at hseen
    exact hne (Option.some.inj hseen)
  · intro h
    refine ⟨fun mode hm => ?_, fun t ht => ?_, fun t ht => ?_, fun size hs => ?_⟩
    · simp only [attributes, applied_mode clock attrs n hm, Option.map_some]
      rw [low_bits_or (low_bits_type _ _)]
    · simp only [attributes, applied_atime clock attrs n ht, seconds_time]
    · simp only [attributes, applied_mtime clock attrs n ht]
      split_ifs with hsize
      · by_contra hne
        exact h ⟨hsize, t, ht, fun heq => hne (congrArg some heq)⟩
      · rw [seconds_time]
    · have hlen : (n.kind.bytes.take size.toNat ++
          List.replicate (size.toNat - n.kind.bytes.length) 0).length = size.toNat := by
        rw [List.length_append, List.length_take, List.length_replicate]
        omega
      simp only [attributes, applied_kind clock attrs n hs, sizeAndType, hlen,
        UInt64.ofNat_toNat]

/-! ### The steps of a request -/

/-- A program that may fail, and otherwise changes the object `i` by `f`. -/
def SessionEdits (i : ℕ) (f : Node → Node) (s : Session)
    (r : EStateM.Result StatusCode Session Unit) : Prop :=
  Ends (fun _ s' => ∃ fs, s' = { s with fs } ∧ Edited i f s.fs fs) (fun code _ => code ≠ .ok) r

section Steps

variable {i : ℕ} {f g : Node → Node} {s : Session}

theorem edits_call {m : FsM Unit} (h : Edits i f s.fs (m s.fs)) :
    SessionEdits i f s (call m s) :=
  ends_call_ne h

/-- One step after the other. -/
theorem SessionEdits.seq {m m' : FxM Unit} (h : SessionEdits i f s (m s))
    (h' : ∀ fs, Edited i f s.fs fs → SessionEdits i g { s with fs } (m' { s with fs })) :
    SessionEdits i (g ∘ f) s ((do m; m') s) := by
  refine Ends.bind h fun _ s₁ h₁ => ?_
  obtain ⟨fs₁, rfl, he₁⟩ := h₁
  refine (h' fs₁ he₁).mono (fun _ s₂ h₂ => ?_) fun _ _ h => h
  obtain ⟨fs₂, rfl, he₂⟩ := h₂
  exact ⟨fs₂, rfl, he₁.trans he₂⟩

theorem edits_setIf {α : Type} {o : Option α} {f : α → Node → Node} {m : α → FxM Unit}
    (h : ∀ a, SessionEdits i (f a) s (m a s)) :
    SessionEdits i (o.elim id f) s (Files.setIf o m s) := by
  cases o with
  | none => exact ⟨s.fs, rfl, Posix.edited_refl s.fs i⟩
  | some a => exact h a

theorem edits_setTimes {attrs : FileAttributes} {m : Option ℤ → Option ℤ → FsM Unit}
    (h : ∀ atime mtime, Edits i (withTimes s.fs.clock atime mtime) s.fs (m atime mtime s.fs)) :
    SessionEdits i (if attrs.atime.isSome || attrs.mtime.isSome then
        withTimes s.fs.clock (attrs.atime.map Files.time) (attrs.mtime.map Files.time)
      else id) s (Files.setTimes attrs m s) := by
  unfold Files.setTimes
  split_ifs
  · exact edits_call (h _ _)
  · exact ⟨s.fs, rfl, Posix.edited_refl s.fs i⟩

/-- The mode, the times and the length, one after the other, by calls that change the object `i`
wherever `good` holds, which these changes keep. -/
theorem edits_applied (good : Fs → Prop) (hgood : good s.fs)
    (hkeep : ∀ f fs fs', good fs → Edited i f fs fs' → good fs') (attrs : FileAttributes)
    (mode len : ℕ → FsM Unit) (times : Option ℤ → Option ℤ → FsM Unit)
    (hmode : ∀ fs n, good fs → Edits i (withMode fs.clock n) fs (mode n fs))
    (htimes : ∀ fs a m, good fs → Edits i (withTimes fs.clock a m) fs (times a m fs))
    (hlen : ∀ fs n, good fs → Edits i (withLen fs.clock n) fs (len n fs)) :
    SessionEdits i (applied s.fs.clock attrs) s ((do
      Files.setIf attrs.permissions fun m => call (mode (Files.permissionBits m))
      Files.setTimes attrs times
      Files.setIf attrs.size fun size => call (len size.toNat) : FxM Unit) s) := by
  rw [applied, ← Function.comp_assoc]
  refine SessionEdits.seq ?_ fun fs₁ h₁ => ?_
  · exact edits_setIf fun m => edits_call (hmode s.fs _ hgood)
  have hgood₁ := hkeep _ _ _ hgood h₁
  rw [← h₁.clock]
  refine SessionEdits.seq (s := { s with fs := fs₁ }) ?_ fun fs₂ h₂ => ?_
  · exact edits_setTimes fun a m => htimes fs₁ a m hgood₁
  have hgood₂ := hkeep _ _ _ hgood₁ h₂
  have hclock : fs₁.clock = fs₂.clock := h₂.clock.symm
  rw [hclock]
  exact edits_setIf (s := { s with fs := fs₂ }) fun size => edits_call (hlen fs₂ _ hgood₂)

end Steps

/-! ### The requests -/

section Requests

variable {files : Files} {root i : ℕ} {s : Session} {attrs : FileAttributes}

theorem edits_setFileAttrs (ino : ℕ) (s : Session) (attrs : FileAttributes) :
    SessionEdits ino (applied s.fs.clock attrs) s (Files.setFileAttrs ino attrs false s) :=
  edits_applied (fun _ => True) trivial (fun _ _ _ _ _ => trivial) attrs _ _ _
    (fun fs n _ => Posix.edits_fchmod fs ino n) (fun fs a m _ => Posix.edits_futimes fs ino a m)
    fun fs n _ => (Posix.edits_ftruncate fs ino n).mono (fun _ _ h => h.1) fun _ _ h => h

theorem edits_setAttrsAt (hroot : files.root = some root) (hs : s.fs.Sound files.base)
    {path : Posix.Path} (hi : s.fs.objectAt files.base path true = .ok i) :
    SessionEdits i (applied s.fs.clock attrs) s (files.setAttrsAt path attrs s) := by
  have h := edits_applied (fun fs => fs.objectAt files.base path true = .ok i ∧ ¬fs.IsLink i)
    ⟨hi, (hs.isEnd hi).not_link⟩
    (fun f fs fs' h he => ⟨Posix.objectAt_grows he.toGrows h.1, he.not_link h.2⟩)
    attrs (Posix.chmod files.base path)
    (fun n => do
      let ino ← Posix.openFile files.base path { write := true } 0o666
      Posix.ftruncate ino n)
    (Posix.utimes files.base path)
    (fun fs n h => Posix.edits_chmod h.1 h.2 n)
    (fun fs a m h => Posix.edits_utimes h.1 h.2 a m)
    fun fs n h => (Posix.edits_truncate h.1 h.2 rfl rfl 0o666 n).mono (fun _ _ h => h.1)
      fun _ _ h => h
  unfold Files.setAttrsAt
  rw [hroot]
  exact h

/-- Where the path leads nowhere, there is nothing to set. -/
theorem setAttrsAt_nowhere (hroot : files.root = some root) {path : Posix.Path} {e : Errno}
    (he : s.fs.objectAt files.base path true = .error e) :
    Ends (fun _ s' => s' = s ∧ attrs.Idle) (fun code _ => code ≠ .ok)
      (files.setAttrsAt path attrs s) := by
  have hfail : ∀ {m : FsM Unit}, Ends (fun _ _ => False) (fun _ _ => True) (m s.fs) →
      Ends (fun _ _ => False) (fun code _ => code ≠ StatusCode.ok) (call m s) := fun h =>
    (ends_call_ne h).mono (fun _ _ h => h.choose_spec.2) fun _ _ h => h
  unfold Files.setAttrsAt
  rw [hroot]
  refine Ends.bind (P := fun _ s' => s' = s ∧ attrs.permissions = none) ?_ fun _ s₁ h₁ => ?_
  · cases hm : attrs.permissions with
    | none => exact ⟨rfl, rfl⟩
    | some mode => exact (hfail (Posix.edits_nowhere he)).mono (fun _ _ h => h.elim) fun _ _ h => h
  obtain ⟨rfl, hmode⟩ := h₁
  refine Ends.bind (P := fun _ s' => s' = s₁ ∧ attrs.atime = none ∧ attrs.mtime = none) ?_
    fun _ s₂ h₂ => ?_
  · unfold Files.setTimes
    split_ifs with ht
    · exact (hfail (Posix.edits_nowhere he)).mono (fun _ _ h => h.elim) fun _ _ h => h
    · simp only [Bool.or_eq_true, not_or, Option.not_isSome_iff_eq_none] at ht
      exact ⟨rfl, ht⟩
  obtain ⟨rfl, hatime, hmtime⟩ := h₂
  cases hsize : attrs.size with
  | none => exact ⟨rfl, hmode, hatime, hmtime, hsize⟩
  | some size =>
    refine (hfail ((Posix.openFile_nowhere he rfl rfl _).bind fun _ _ h => h.elim)).mono
      (fun _ _ h => h.elim) fun _ _ h => h

/-- The path to change the attributes of is the one whose attributes are seen. -/
theorem settable_looks (files : Files) (path : Posix.Path) (s : Session) :
    Ends (fun actual s' => s' = s ∧ ∀ s₁ : Session, s₁.wrote = s.wrote →
        files.statPath path true s₁ = files.metadata actual true s₁)
      (fun code _ => code ≠ .ok) (files.settable path s) := by
  cases hwo : files.mode.isWriteOnly with
  | false =>
    unfold Files.settable
    rw [hwo]
    refine ⟨rfl, fun s₁ _ => ?_⟩
    unfold Files.statPath
    rw [hwo]
    rfl
  | true =>
    rw [Files.settable_eq hwo]
    cases hw : s.wrote.lookup path with
    | none => exact fun h => by cases h
    | some actual =>
      refine ⟨rfl, fun s₁ h₁ => ?_⟩
      unfold Files.statPath
      rw [hwo, if_neg (by decide)]
      have hget : (get : FxM Session) s₁ = .ok s₁ s₁ := rfl
      rw [Program.bind_ok hget, h₁, hw]

/-- The attributes of an object are seen, unless the call fails for reasons of its own. -/
theorem metadata_found {path : Posix.Path} (hi : s.fs.objectAt files.base path true = .ok i)
    (hl : ¬s.fs.IsLink i) {n : Node} (hn : s.fs.node i = some n)
    (hf : s.fs.faults.headD none = none) :
    ∃ s', files.metadata path true s = .ok (attributes s.fs.host n) s' := by
  obtain ⟨fs', hstat, hhost⟩ := Posix.stat_found hi hl hn hf
  have hcall : call (Posix.stat files.base path true) s = .ok n { s with fs := fs' } := by
    rw [call_eq, hstat]
  refine ⟨{ s with fs := fs' }, (Program.bind_ok hcall _).trans ?_⟩
  rw [← hhost]
  rfl

/-- The object a request changes, and what the next request for its attributes will see: nothing
was asked for, or `stat` answers with the attributes of the changed object. -/
def Settled (stat : FxM Reply) (attrs : FileAttributes) (s s' : Session) : Prop :=
  s'.initialized = s.initialized ∧ (attrs.Idle ∨ ∃ n : Node, ∀ clock : ℤ,
    s'.fs.faults.headD none = none → ∃ s'',
      stat { s' with fs := { s'.fs with clock } } =
        .ok (.attrs (attributes s.fs.host (applied s.fs.clock attrs n))) s'')

theorem settled_of_edited {stat : FxM Reply} {n : Node} {fs : Fs}
    (he : Edited i (applied s.fs.clock attrs) s.fs fs) (hn : s.fs.node i = some n)
    (hstat : ∀ fs' : Fs, fs'.host = s.fs.host → fs'.node i = some (applied s.fs.clock attrs n) →
      Posix.Grows s.fs fs' → (¬s.fs.IsLink i → ¬fs'.IsLink i) →
      fs'.faults.headD none = none → ∃ s'', stat { s with fs := fs' } =
        .ok (.attrs (attributes s.fs.host (applied s.fs.clock attrs n))) s'') :
    Settled stat attrs s { s with fs } := by
  refine ⟨rfl, .inr ⟨n, fun clock hf => hstat { fs with clock } he.host ?_ ?_ he.not_link hf⟩⟩
  · exact he.node.trans (by rw [hn, Option.map_some])
  · exact Posix.growing.trans he.toGrows
      ⟨le_refl _, rfl, rfl, fun j k hk => ⟨k, hk, Posix.Kind.Extends.refl k⟩⟩

/-- Changing the attributes of a path. -/
theorem setStat_settles (hroot : files.root = some root) (hs : s.fs.Sound files.base)
    (text : String) :
    Ends (fun _ s' => Settled (files.statRequest text true) attrs s s') (fun code _ => code ≠ .ok)
      (files.setStat text attrs s) := by
  unfold Files.setStat
  cases hp : files.path text with
  | error code =>
    refine fun h => ?_
    rw [Files.path, hroot, relative, noNul] at hp
    split_ifs at hp
    all_goals cases hp
    cases h
  | ok path =>
    have hrequest : ∀ s₁ : Session, files.statRequest text true s₁ =
        (files.statPath path true >>= fun m => pure (.attrs m)) s₁ := by
      intro s₁
      unfold Files.statRequest
      rw [hp]
      rfl
    refine Ends.bind (P := fun p s' => p = path ∧ s' = s) ⟨rfl, rfl⟩ fun p s₁ h => ?_
    obtain ⟨rfl, rfl⟩ := h
    refine Ends.bind (P := fun _ s' => s' = s₁) (Ends.require (fun _ => rfl) fun _ => by decide)
      fun _ s₂ h => ?_
    subst h
    refine (settable_looks files p s₂).bind fun actual s₃ h => ?_
    obtain ⟨rfl, hlooks⟩ := h
    -- the path leads to an object, which is changed, or nothing happens
    cases ho : s₃.fs.objectAt files.base actual true with
    | error e =>
      refine Ends.bind (setAttrsAt_nowhere hroot ho) fun _ s₄ h => ?_
      obtain ⟨rfl, hidle⟩ := h
      exact ⟨rfl, .inl hidle⟩
    | ok i =>
      refine Ends.bind (edits_setAttrsAt hroot hs ho) fun _ s₄ h => ?_
      obtain ⟨fs, rfl, he⟩ := h
      have hlink := (hs.isEnd ho).not_link
      obtain ⟨k, hk, -⟩ := hs.isEnd ho
      obtain ⟨n, hn, -⟩ := Option.map_eq_some_iff.1 hk
      refine settled_of_edited he hn fun fs' hhost hn' hg hl hf => ?_
      obtain ⟨s'', hm⟩ : ∃ s'', files.metadata actual true { s₃ with fs := fs' } =
          .ok (attributes fs'.host (applied s₃.fs.clock attrs n)) s'' := by
        refine metadata_found ?_ (hl hlink) hn' hf
        exact Posix.objectAt_grows hg ho
      have hstat := (hlooks { s₃ with fs := fs' } rfl).trans hm
      rw [hrequest, Program.bind_ok hstat]
      exact ⟨s'', congrArg (fun host => EStateM.Result.ok
        (Reply.attrs (attributes host (applied s₃.fs.clock attrs n))) s'') hhost⟩

/-- Changing the attributes of an open file. -/
theorem fSetStat_settles (hroot : files.root = some root) (hlive : s.Live) (handle : String) :
    Ends (fun _ s' => Settled (Files.fstat handle) attrs s s') (fun code _ => code ≠ .ok)
      (files.fSetStat handle attrs s) := by
  unfold Files.fSetStat
  refine Ends.bind (P := fun _ s' => s' = s) (Ends.require (fun _ => rfl) fun _ => by decide)
    fun _ s₁ h => ?_
  subst h
  rw [Files.getHandle_bind]
  cases ho : s₁.handles.lookup handle with
  | none => exact fun h => by cases h
  | some o =>
    cases o with
    | directory entries next => exact fun h => by cases h
    | file ino append readable writable =>
      refine Ends.bind (P := fun _ s' => s' = s₁) (Ends.require (fun _ => rfl) fun _ => by decide)
        fun _ s₂ h => ?_
      subst h
      have hnone : files.root.isNone = false := by rw [hroot]; rfl
      rw [hnone]
      refine Ends.bind (edits_setFileAttrs ino s₂ attrs) fun _ s₃ h => ?_
      obtain ⟨fs, rfl, he⟩ := h
      obtain ⟨n, hn⟩ := hlive _ (mem_of_lookup ho) ino append readable writable rfl
      refine settled_of_edited he hn fun fs' hhost hn' hg hl hf => ?_
      obtain ⟨fs'', hstat, hhost''⟩ := Posix.fstat_found hn' hf
      have hcall : call (Posix.fstat ino) { s₂ with fs := fs' } =
          .ok (applied s₂.fs.clock attrs n) { s₂ with fs := fs'' } := by
        rw [call_eq, hstat]
      refine ⟨{ s₂ with fs := fs'' }, ?_⟩
      unfold Files.fstat
      rw [Files.getHandle_bind]
      simp only [ho]
      rw [Program.bind_ok hcall]
      exact congrArg (fun host => EStateM.Result.ok
        (Reply.attrs (attributes host (applied s₂.fs.clock attrs n))) { s₂ with fs := fs'' })
        (hhost''.trans hhost)

end Requests

/-! ### A request and the next -/

/-- What a request is about: the object at a path, or an open file. -/
inductive Subject where
  | path (text : String)
  | handle (name : String)

/-- The request that changes attributes. -/
def Subject.set (attrs : FileAttributes) : Subject → Request
  | .path text => .setStat text attrs
  | .handle name => .fSetStat name attrs

/-- The request that asks for attributes. -/
def Subject.stat : Subject → Request
  | .path text => .stat text
  | .handle name => .fstat name

theorem dispatch_settles {files : Files} {root : ℕ} (hroot : files.root = some root) {s : Session}
    (hs : s.fs.Sound files.base) (hlive : s.Live) (env env' : Env) (subject : Subject)
    (attrs : FileAttributes) :
    Ends (fun _ s' => s'.initialized ∧ Settled (files.answer env' subject.stat) attrs s s')
      (fun code _ => code ≠ .ok) (files.dispatch env (subject.set attrs) s) := by
  rw [Files.dispatch_eq]
  split_ifs with hstarted
  · have hinit : s.initialized := by
      rcases hstarted with h | h
      · cases subject <;> cases h
      · exact h
    cases subject with
    | path text =>
      exact (setStat_settles hroot hs text).mono (fun _ s' h => ⟨h.1.trans hinit, h⟩)
        fun _ _ h => h
    | handle name =>
      exact (fSetStat_settles hroot hlive name).mono (fun _ s' h => ⟨h.1.trans hinit, h⟩)
        fun _ _ h => h
  · exact fun h => by cases h

/-- A request that succeeds does what was asked for, as far as the next request for the attributes
can see, exactly if it is not clobbered. -/
theorem reported_iff {files : Files} (hroot : files.root.isSome) {s : Session}
    (hs : s.fs.Sound files.base) (hlive : s.Live) (env env' : Env) (subject : Subject)
    (attrs : FileAttributes)
    (hok : (files.process env (subject.set attrs) s).1 = .status .ok)
    (hf : (files.process env (subject.set attrs) s).2.fs.faults.headD none = none) :
    Reported attrs
        (files.process env' subject.stat (files.process env (subject.set attrs) s).2).1 ↔
      ¬Clobbered env.clock attrs := by
  obtain ⟨root, hr⟩ := Option.isSome_iff_exists.1 hroot
  have hset := dispatch_settles (s := { s with fs := { s.fs with clock := env.clock } }) hr
    ⟨hs.start, hs.parent⟩ hlive env env' subject attrs
  obtain ⟨hinit, -, hseen⟩ := files.of_process_ok hset hok
  generalize (files.process env (subject.set attrs) s).2 = s' at hf hinit hseen ⊢
  rcases hseen with hidle | ⟨n, hseen⟩
  · refine ⟨fun _ => ?_, fun _ => .inl hidle⟩
    rintro ⟨hsize, -⟩
    rw [hidle.2.2.2] at hsize
    cases hsize
  · obtain ⟨s'', hstat⟩ := hseen env'.clock hf
    have hreply : (files.process env' subject.stat s').1 =
        .attrs (attributes s.fs.host (applied env.clock attrs n)) := by
      rw [Files.process, Files.dispatch_eq, if_pos (.inr hinit), hstat]
    rw [hreply, ← reports_applied_iff s.fs.host env.clock attrs n]
    constructor
    · rintro (hidle | ⟨seen, heq, h⟩)
      · obtain ⟨hmode, hatime, hmtime, hsize⟩ := hidle
        exact ⟨by simp [hmode], by simp [hatime], by simp [hmtime], by simp [hsize]⟩
      · rw [Reply.attrs.inj heq]
        exact h
    · exact fun h => .inr ⟨_, rfl, h⟩

/-- **Setting attributes on a share**, in any session: a request that succeeds does what was asked
for, as far as the next request for the attributes sees (unless that fails for reasons of its own),
exactly if it is not clobbered. -/
theorem setStat_reported_iff {files : Files} (hroot : files.root.isSome) {fs : Fs}
    (hfs : fs.Sound files.base) (before : List (Env × Request)) (env env' : Env)
    (subject : Subject) (attrs : FileAttributes) :
    let s := (files.run (Session.new fs) before).2
    let r := files.process env (subject.set attrs) s
    r.1 = .status .ok → r.2.fs.faults.headD none = none →
      (Reported attrs (files.process env' subject.stat r.2).1 ↔ ¬Clobbered env.clock attrs) := by
  intro s r hok hf
  have hs := sound_run files hfs before
  exact reported_iff hroot hs.fs hs.live env env' subject attrs hok hf

/-! ### A length and a time -/

/-- The filesystem of a share with one file. -/
theorem sound_sampleFs : Files.sampleFs.Sound (.within 0) where
  start := ⟨0, [("f", 1)], rfl⟩
  parent i parent entries h := by
    rcases i with _ | _ | i
    · obtain ⟨rfl, -⟩ := Posix.Kind.dir.inj (Option.some.inj h)
      exact ⟨0, [("f", 1)], rfl⟩
    · cases h
    · cases h

/-- The length of the file and a modification time. -/
def sizeAndTime : FileAttributes := { size := some 1, mtime := some 5 }

theorem setStat_reported_sample :
    Reported { mtime := some 5 } ((Files.ofShare 0 .readWrite).process ⟨8, "", 0⟩
      (Subject.stat (.path "f")) ((Files.ofShare 0 .readWrite).process ⟨7, "", 0⟩
        (Subject.set { mtime := some 5 } (.path "f"))
        ((Files.ofShare 0 .readWrite).run (Session.new Files.sampleFs)
          [(⟨7, "", 0⟩, .init)]).2).2).1 ↔ ¬Clobbered 7 { mtime := some 5 } :=
  @setStat_reported_iff (Files.ofShare 0 .readWrite) rfl Files.sampleFs sound_sampleFs
    [(⟨7, "", 0⟩, .init)] ⟨7, "", 0⟩ ⟨8, "", 0⟩ (.path "f") { mtime := some 5 }
    (by decide +kernel) (by decide +kernel)

/-- Asked for both, the server answers that it has set them, and the time is the current one. -/
theorem setStat_clobbers :
    let share := Files.ofShare 0 .readWrite
    let s := (share.run (Session.new Files.sampleFs) [(⟨7, "", 0⟩, .init)]).2
    let r := share.process ⟨7, "", 0⟩ (.setStat "f" sizeAndTime) s
    r.1 = .status .ok ∧ ¬Reported sizeAndTime (share.process ⟨8, "", 0⟩ (.stat "f") r.2).1 := by
  intro share s r
  have hok : r.1 = .status .ok := by decide +kernel
  have hs := sound_run share sound_sampleFs [(⟨7, "", 0⟩, .init)]
  have hclobbered : Clobbered 7 sizeAndTime := ⟨rfl, 5, rfl, by decide⟩
  refine ⟨hok, fun h => ?_⟩
  exact (reported_iff rfl hs.fs hs.live ⟨7, "", 0⟩ ⟨8, "", 0⟩ (.path "f") sizeAndTime hok
    (by decide +kernel)).1 h hclobbered

end Tailcat.Sftp
