import Tailcat.Sftp.Twins
import Tailcat.Lib.PosixTrees

/-!
# Probing for files

In the mode that keeps the requested names (`WriteOnlyPlus`) a sender can probe for files it did
not send: a directory cannot be made where a file is (`mkDir_probes`), and a path through a file
fails in another way than one through nothing.

`probe_run` says exactly when two shares with the same directories and different files can be told
apart: when some request makes something (`Alike`) whose directory is missing for reasons of
different status, or whose names are all taken in one share only.

The filesystems are coupled by their directories (`Trees`), which no request of a sender tells from
each other, while files may be there in one share and not in the other.  A request that makes
nothing is answered alike in any case.  One that makes something compares the requested name with
what is there, and the comparison is what a probe sees; the condition says so request by request
(`Unprobed`), in the states that the run has reached.
-/

namespace Tailcat.Sftp

open Posix (Path Fs Kind Base Calm Trees treeCoupling Grows)
open Program (Agree Ends require)

/-! ### What a request finds -/

/-- Can an entry of that name be made in a directory? -/
def free (fs : Fs) (d : ℕ) (name : String) : Bool :=
  !Posix.isDot name && (fs.child d name).isNone

/-- In both filesystems the directory can be reached, or it cannot for reasons with the same status;
and some of the names are free there in both or in neither. -/
def Alike (base : Base) (s t : Fs) (parent : Path) (names : List String) : Prop :=
  match s.dirAt base parent, t.dirAt base parent with
  | .ok d, .ok d' => names.any (free s d) = names.any (free t d')
  | .error e, .error e' => status e = status e'
  | _, _ => False

/-- Why nothing can be made in a directory under any of the names, if so. -/
def refusal (base : Base) (fs : Fs) (parent : Path) (names : List String) : Option StatusCode :=
  match fs.dirAt base parent with
  | .ok d => if names.any (free fs d) then none else some .failure
  | .error e => some (status e)

section

variable {base : Base} {s t : Fs}

theorem alike_iff (h : Posix.SameTree s t) (parent : Path) (names : List String) :
    Alike base s t parent names ↔
      refusal base s parent names = refusal base t parent names := by
  unfold Alike refusal
  cases hs : s.dirAt base parent with
  | ok d =>
    have ht := (Posix.dirAt_tree h parent d).1 hs
    simp only [ht]
    cases names.any (free s d) <;> cases names.any (free t d) <;> simp
  | error e =>
    cases ht : t.dirAt base parent with
    | ok d =>
      have hs' := (Posix.dirAt_tree h parent d).2 ht
      rw [hs] at hs'
      cases hs'
    | error e' => simp

theorem free_congr {fs fs' : Fs} (hk : fs'.kind = fs.kind) (d : ℕ) : free fs' d = free fs d := by
  funext name
  rw [free, free, Fs.child, Fs.child, hk]

theorem kind_clock (fs : Fs) (clock : ℤ) : Fs.kind { fs with clock } = fs.kind := rfl

theorem refusal_congr {fs fs' : Fs} (hk : fs'.kind = fs.kind) (hs : fs'.slash = fs.slash)
    (parent : Path) (names : List String) :
    refusal base fs' parent names = refusal base fs parent names := by
  simp only [refusal, Posix.dirAt_congr hk hs, free_congr hk]

theorem alike_congr {s' t' : Fs} (hs : s'.kind = s.kind) (hs' : s'.slash = s.slash)
    (ht : t'.kind = t.kind) (ht' : t'.slash = t.slash) (parent : Path) (names : List String) :
    Alike base s' t' parent names = Alike base s t parent names := by
  simp only [Alike, Posix.dirAt_congr hs hs', Posix.dirAt_congr ht ht', free_congr hs,
    free_congr ht]

theorem vacantAt_of_last {path : Path} {name : String} (h : path.getLast? = some name) :
    s.vacantAt base path = match s.dirAt base path.dropLast with
      | .ok d => if free s d name then .ok (d, name) else .error .exist
      | .error e => .error e := by
  unfold Fs.vacantAt Posix.splitLast
  rw [h]
  simp only [Option.map_some]
  cases s.dirAt base path.dropLast with
  | error e => rfl
  | ok d => simp [free, Option.isNone_iff_eq_none]

theorem vacantAt_nil : s.vacantAt base [] = .error .exist := rfl

/-- Making something under one name. -/
theorem refusal_make {path : Path} (hhome : ∃ d, s.dirAt base [] = .ok d) :
    refusal base s path.dropLast path.getLast?.toList =
      match s.vacantAt base path with
      | .ok _ => none
      | .error e => some (status e) := by
  unfold refusal
  cases hl : path.getLast? with
  | none =>
    obtain rfl := List.getLast?_eq_none_iff.1 hl
    obtain ⟨d, hd⟩ := hhome
    rw [List.dropLast_nil, hd, vacantAt_nil]
    rfl
  | some name =>
    rw [vacantAt_of_last hl]
    cases s.dirAt base path.dropLast with
    | error e => rfl
    | ok d =>
      cases hf : free s d name <;> simp [hf, status]

/-- Making something under one name, or else under another. -/
theorem refusal_open {path : Path} (unique : String) :
    refusal base s path.dropLast (path.getLast?.toList ++ [unique]) =
      match s.vacantAt base path with
      | .ok _ => none
      | .error .exist =>
        match s.vacantAt base (path.dropLast ++ [unique]) with
        | .ok _ => none
        | .error e => some (status e)
      | .error e => some (status e) := by
  have hunique : s.vacantAt base (path.dropLast ++ [unique]) =
      match s.dirAt base path.dropLast with
      | .ok d => if free s d unique then .ok (d, unique) else .error .exist
      | .error e => .error e := by
    have hlast : (path.dropLast ++ [unique]).getLast? = some unique := by simp
    rw [vacantAt_of_last hlast, List.dropLast_concat]
  rw [hunique]
  unfold refusal
  cases hl : path.getLast? with
  | none =>
    obtain rfl := List.getLast?_eq_none_iff.1 hl
    rw [List.dropLast_nil, vacantAt_nil]
    cases s.dirAt base [] with
    | error e => rfl
    | ok d => cases hf : free s d unique <;> simp [hf, status]
  | some name =>
    rw [vacantAt_of_last hl]
    cases s.dirAt base path.dropLast with
    | error e => cases e <;> rfl
    | ok d => cases hf : free s d name <;> cases hf' : free s d unique <;> simp [hf, hf', status]

end

/-! ### Making something, in one session -/

namespace Files

section

variable {m root : ℕ} {files : Files} (hmode : files.mode = .writeOnlyPlus)
  (hroot : files.root = some root) {s t : Session}

/-- The names a file may be created under. -/
def openNames (env : Env) (requested : Path) : List String :=
  requested.getLast?.toList ++
    [uniqueName (requested.getLast?.getD "") env.stamp env.random]

/-- The state after an object has been made at a path in a directory. -/
def MadeAt (m root : ℕ) (base : Base) (kind : ℕ → Kind) (mode : ℕ) (requested path : Path)
    (s s' : Session) (i : ℕ) : Prop :=
  ∃ d name u, path.dropLast = requested.dropLast ∧ u.vacantAt base path = .ok (d, name) ∧
    Calm m root s.fs u ∧ i = u.next ∧
    s' = { s with fs := u.create d name (kind d) mode, wrote := (requested, path) :: s.wrote }

/-- The state after nothing has been made. -/
def NotMade (m root : ℕ) (s s' : Session) : Prop :=
  ∃ u, Calm m root s.fs u ∧ s' = { s with fs := u }

include hmode hroot

theorem openNew_ends_iff (hf : s.fs.faults = []) (env : Env) (requested : Path) :
    Ends (fun ino s' =>
        refusal files.base s.fs requested.dropLast (openNames env requested) = none ∧
          ∃ path, MadeAt m root files.base (fun _ => .file []) 0o644 requested path s s' ino)
      (fun code s' =>
        refusal files.base s.fs requested.dropLast (openNames env requested) = some code ∧
          NotMade m root s s') (files.openNew env requested s) := by
  have hopen : ∀ path, files.openFile path createFlags true =
      Posix.enter >>= fun _ => Posix.createNew files.base path (fun _ => .file []) 0o644 := by
    intro path
    have hbase : files.base = .within root := by rw [base, hroot]
    simp only [openFile, hroot, hbase]
    exact Posix.openFile_new rfl rfl 0o644
  have hne : ¬files.mode = .writeOnly := by
    rw [hmode]
    decide
  simp only [openNew, if_neg hne, hopen, openNames, refusal_open]
  refine Ends.bind ((ends_attempt (Posix.createNew_ends m root hf files.base requested
    (fun _ => .file []) 0o644)).mono (fun _ _ h => h) fun _ _ h => h.elim) fun r s' h => ?_
  obtain ⟨fs, rfl, hr⟩ := h
  rcases r with e | ino
  · obtain ⟨hv, hcalm⟩ : s.fs.vacantAt files.base requested = .error e ∧
      Calm m root s.fs fs := hr
    rw [hv]
    cases e
    case exist =>
      -- the requested name is taken: the file gets one of the server's choosing
      have hf' : fs.faults = [] := hcalm.faults.trans hf
      have hv' : fs.vacantAt files.base (uniquePath requested env.stamp env.random) =
          s.fs.vacantAt files.base (uniquePath requested env.stamp env.random) :=
        Posix.vacantAt_congr hcalm.kind hcalm.slash _ _
      refine Ends.bind ((ends_call (Posix.createNew_ends m root hf' files.base
        (uniquePath requested env.stamp env.random) (fun _ => .file []) 0o644)).mono
        (fun _ _ h => h) fun code s' h => ?_) fun ino s' h => ?_
      · obtain ⟨fs', e, rfl, rfl, hv'', hcalm'⟩ := h
        rw [hv'] at hv''
        have hpath : requested.dropLast ++
            [uniqueName (requested.getLast?.getD "") env.stamp env.random] =
            uniquePath requested env.stamp env.random := rfl
        simp only [hpath, hv'']
        exact ⟨trivial, fs', hcalm.trans hcalm', rfl⟩
      · obtain ⟨fs', rfl, d, name, u, hv'', hcalm', rfl, rfl⟩ := h
        have hpath : requested.dropLast ++
            [uniqueName (requested.getLast?.getD "") env.stamp env.random] =
            uniquePath requested env.stamp env.random := rfl
        have hvs := hv''
        rw [hv'] at hvs
        simp only [hpath, hvs]
        refine ⟨trivial, _, d, name, u, by simp [uniquePath], ?_, hcalm.trans hcalm', rfl, rfl⟩
        rw [← hv'', Posix.vacantAt_congr hcalm'.kind hcalm'.slash]
    all_goals exact ⟨rfl, fs, hcalm, rfl⟩
  · obtain ⟨d, name, u, hv, hcalm, rfl, rfl⟩ : ∃ d name u,
      s.fs.vacantAt files.base requested = .ok (d, name) ∧ Calm m root s.fs u ∧ ino = u.next ∧
        fs = u.create d name (.file []) 0o644 := hr
    rw [hv]
    refine ⟨rfl, requested, d, name, u, rfl, ?_, hcalm, rfl, rfl⟩
    rw [← hv, Posix.vacantAt_congr hcalm.kind hcalm.slash]

omit hmode hroot in
variable (m root) in
theorem mkDir_call_ends (hf : s.fs.faults = []) (path : Path)
    (hhome : ∃ d, s.fs.dirAt files.base [] = .ok d) :
    Ends (fun _ s' => refusal files.base s.fs path.dropLast path.getLast?.toList = none ∧
        ∃ d name u, u.vacantAt files.base path = .ok (d, name) ∧ Calm m root s.fs u ∧
          s' = { s with fs := u.create d name (.dir d []) 0o755 })
      (fun code s' =>
        refusal files.base s.fs path.dropLast path.getLast?.toList = some code ∧
          NotMade m root s s') (call (Posix.mkdir files.base path 0o755) s) := by
  have hmk : Ends (fun _ fs' => ∃ d name u, s.fs.vacantAt files.base path = .ok (d, name) ∧
        Calm m root s.fs u ∧ fs' = u.create d name (.dir d []) 0o755)
      (fun e fs' => s.fs.vacantAt files.base path = .error e ∧ Calm m root s.fs fs')
      (Posix.mkdir files.base path 0o755 s.fs) := by
    rw [Posix.mkdir_new]
    exact Ends.bind (Posix.createNew_ends m root hf files.base path (fun d => .dir d []) 0o755)
      fun _ _ ⟨d, name, u, hv, hcalm, _, hfs⟩ => ⟨d, name, u, hv, hcalm, hfs⟩
  rw [refusal_make hhome]
  refine (ends_call hmk).mono ?_ ?_
  · rintro _ s' ⟨fs, rfl, d, name, u, hv, hcalm, rfl⟩
    refine ⟨by rw [hv], d, name, u, ?_, hcalm, rfl⟩
    rw [← hv, Posix.vacantAt_congr hcalm.kind hcalm.slash]
  · rintro _ s' ⟨fs, e, rfl, rfl, hv, hcalm⟩
    exact ⟨by rw [hv], fs, hcalm, rfl⟩

end

/-! ### Making something, in two sessions -/

section

variable {m root : ℕ} {files : Files} {places : List (Path × Path × ℕ)} {s t : Session}

/-- The replies are the same, unless they are attributes of directories. -/
def SameButDirs (r r' : Reply) : Prop :=
  r = r' ∨ ∃ a b, r = .attrs a ∧ r' = .attrs b ∧ a.isDir ∧ b.isDir

/-- The replies and the sessions are the same as far as the client can tell. -/
def SameStep (m root : ℕ) (files : Files) (r r' : Reply) (s t : Session) : Prop :=
  SameButDirs r r' ∧ ∃ places, Twins (treeCoupling m root) files places s t

theorem sameStep_of_answered {r r' : Reply}
    (h : Answered (treeCoupling m root) files places r r' s t) :
    SameStep m root files r r' s t := by
  obtain ⟨hr | ⟨host, x, y, rfl | ⟨hx, hy⟩, rfl, rfl⟩, h⟩ := h
  · exact ⟨.inl hr, places, h⟩
  · exact ⟨.inl rfl, places, h⟩
  · refine ⟨.inr ⟨_, _, rfl, rfl, ?_, ?_⟩, places, h⟩
    · exact (attributes_isDir host x).2 (Posix.isDir_iff.1 hx)
    · exact (attributes_isDir host y).2 (Posix.isDir_iff.1 hy)

/-- Two sessions in which nothing has been made. -/
theorem twins_notMade (h : Twins (treeCoupling m root) files places s t) {s' t' : Session}
    (hs : NotMade m root s s') (ht : NotMade m root t t') :
    Twins (treeCoupling m root) files places s' t' := by
  obtain ⟨u, hu, rfl⟩ := hs
  obtain ⟨v, hv, rfl⟩ := ht
  exact h.grow (Trees.calm h.fs.1 hu hv) hu.grows hv.grows

/-- Two sessions in which an object has been made in the same directory. -/
theorem twins_madeAt (h : Twins (treeCoupling m root) files places s t) {kind : ℕ → Kind}
    {mode : ℕ} {requested p q : Path} {s' t' : Session} {i j : ℕ}
    (hentries : ∀ d, (kind d).entries = []) (hlink : ∀ d target, kind d ≠ .symlink target)
    (hname : ∀ d, (kind d).isTree → p = q)
    (hs : MadeAt m root files.base kind mode requested p s s' i)
    (ht : MadeAt m root files.base kind mode requested q t t' j) :
    i = j ∧ m ≤ i ∧ Twins (treeCoupling m root) files ((p, q, i) :: places) s' t' := by
  obtain ⟨d, name, u, hp, hvu, hu, rfl, rfl⟩ := hs
  obtain ⟨d', name', v, hq, hvv, hv, rfl, rfl⟩ := ht
  have huv : Trees m root u v := Trees.calm h.fs.1 hu hv
  have hd := (Posix.of_vacantAt hvu).2.2.1
  have hd' := (Posix.of_vacantAt hvv).2.2.1
  obtain rfl : d = d' := by
    rw [hp] at hd
    rw [hq] at hd'
    have hsame := (Posix.dirAt_tree huv.tree _ d).1 hd
    rw [hd'] at hsame
    exact (Except.ok.inj hsame).symm
  obtain ⟨-, parent, entries, hk⟩ := Posix.of_dirAt hd
  obtain ⟨-, parent', entries', hk'⟩ := Posix.of_dirAt hd'
  refine ⟨huv.next, huv.le, ?_⟩
  have hcreate : Trees m root (u.create d name (kind d) mode) (v.create d name' (kind d) mode) := by
    have hlast := (Posix.of_vacantAt hvu).2.1
    have hlast' := (Posix.of_vacantAt hvv).2.1
    refine huv.create hk hk' (hentries d) (hlink d) (fun htree => ?_) mode
    obtain rfl : name = name' := by
      rw [hname d htree, hlast'] at hlast
      exact (Option.some.inj hlast).symm
    exact ⟨rfl, (Posix.lookup_of_vacantAt hvu hk).2, (Posix.lookup_of_vacantAt hvv hk').2⟩
  have hplaced := Posix.placed_create hvu (hlink d) mode
  have hplaced' := Posix.placed_create hvv (hlink d) mode
  rw [← huv.next] at hplaced'
  exact twins_created h hcreate (Posix.growing.trans hu.grows (Posix.grows_create _ _ _ _ _))
    (Posix.growing.trans hv.grows (Posix.grows_create _ _ _ _ _)) huv.le hplaced hplaced' requested

variable (hmode : files.mode = .writeOnlyPlus) (hroot : files.root = some root)

include hmode hroot

omit hmode in
theorem dirAt_home (h : Trees m root s.fs t.fs) : ∃ d, s.fs.dirAt files.base [] = .ok d := by
  obtain ⟨parent, entries, hd⟩ := h.home
  refine ⟨root, ?_⟩
  have hbase : files.base = .within root := by rw [base, hroot]
  have hw : (Posix.walk s.fs (.within root) Posix.maxLinks
      ((Posix.Base.within root).start s.fs) []).2 = .ok (.found root) := rfl
  rw [hbase]
  simp only [Fs.dirAt, hw, hd]

/-- Creating a file in both sessions. -/
theorem agree_openNew (h : Twins (treeCoupling m root) files places s t) (env : Env)
    (requested : Path)
    (halike : refusal files.base s.fs requested.dropLast (openNames env requested) =
      refusal files.base t.fs requested.dropLast (openNames env requested)) :
    Agree (fun i j s t => i = j ∧ m ≤ i ∧
        ∃ places, Twins (treeCoupling m root) files places s t)
      (Twins (treeCoupling m root) files places)
      (files.openNew env requested s) (files.openNew env requested t) := by
  refine Agree.of_ends (openNew_ends_iff (m := m) hmode hroot h.fs.1.faults_left env requested)
    (openNew_ends_iff (m := m) hmode hroot h.fs.1.faults_right env requested) ?_ ?_ ?_ ?_
  · rintro i j s' t' ⟨-, p, hs⟩ ⟨-, q, ht⟩
    obtain ⟨hij, hi, h⟩ := twins_madeAt h (fun _ => rfl) (by simp)
      (fun _ htree => absurd htree (by decide)) hs ht
    exact ⟨hij, hi, _, h⟩
  · rintro e f s' t' ⟨he, hs⟩ ⟨hf, ht⟩
    rw [he, hf] at halike
    exact ⟨Option.some.inj halike, twins_notMade h hs ht⟩
  · rintro i s' f t' ⟨hi, -⟩ ⟨hf, -⟩
    rw [hi, hf] at halike
    cases halike
  · rintro e s' j t' ⟨he, -⟩ ⟨hj, -⟩
    rw [he, hj] at halike
    cases halike

omit hmode in
/-- Making a directory in both sessions. -/
theorem agree_mkDir (h : Twins (treeCoupling m root) files places s t) (path : Path)
    (halike : refusal files.base s.fs path.dropLast path.getLast?.toList =
      refusal files.base t.fs path.dropLast path.getLast?.toList) :
    Agree (fun _ _ s' t' => ∃ places, Twins (treeCoupling m root) files places
        { s' with wrote := (path, path) :: s'.wrote } { t' with wrote := (path, path) :: t'.wrote })
      (Twins (treeCoupling m root) files places)
      (call (Posix.mkdir files.base path 0o755) s)
      (call (Posix.mkdir files.base path 0o755) t) := by
  refine Agree.of_ends
    (mkDir_call_ends m root h.fs.1.faults_left path
      (dirAt_home hroot h.fs.1))
    (mkDir_call_ends m root h.fs.1.faults_right path
      (dirAt_home hroot h.fs.1.symm)) ?_ ?_ ?_ ?_
  · rintro _ _ s' t' ⟨-, d, name, u, hvu, hu, rfl⟩ ⟨-, d', name', v, hvv, hv, rfl⟩
    have hs : MadeAt m root files.base (fun d => .dir d []) 0o755 path path s _ u.next :=
      ⟨d, name, u, rfl, hvu, hu, rfl, rfl⟩
    have ht : MadeAt m root files.base (fun d => .dir d []) 0o755 path path t _ v.next :=
      ⟨d', name', v, rfl, hvv, hv, rfl, rfl⟩
    obtain ⟨-, -, hmade⟩ := twins_madeAt h (fun _ => rfl) (by simp) (fun _ _ => rfl) hs ht
    exact ⟨_, hmade⟩
  · rintro e f s' t' ⟨he, hs⟩ ⟨hf, ht⟩
    rw [he, hf] at halike
    exact ⟨Option.some.inj halike, twins_notMade h hs ht⟩
  · rintro i s' f t' ⟨hi, -⟩ ⟨hf, -⟩
    rw [hi, hf] at halike
    cases halike
  · rintro e s' j t' ⟨he, -⟩ ⟨hj, -⟩
    rw [he, hj] at halike
    cases halike

end

/-! ### Requests -/

/-- Can nobody tell from the answer to a request which of two shares it is? -/
def Unprobed (base : Base) (env : Env) (s t : Fs) : Request → Prop
  | .open filename flags => flags.read = false ∧ flags.write ∧ flags.create →
    ∀ path, relative filename = .ok path → Alike base s t path.dropLast (openNames env path)
  | .mkDir path => ∀ path', relative path = .ok path' →
    Alike base s t path'.dropLast path'.getLast?.toList
  | _ => True

theorem unprobed_congr {base : Base} {env : Env} {s t s' t' : Fs} (hs : s'.kind = s.kind)
    (hs' : s'.slash = s.slash) (ht : t'.kind = t.kind) (ht' : t'.slash = t.slash)
    {request : Request} (h : Unprobed base env s t request) : Unprobed base env s' t' request := by
  cases request <;> try exact trivial
  all_goals simpa only [Unprobed, alike_congr hs hs' ht ht'] using h

section

variable {m root : ℕ} {files : Files} {places : List (Path × Path × ℕ)} {s t : Session}
  (hmode : files.mode = .writeOnlyPlus) (hroot : files.root = some root)

include hmode hroot

omit hroot in
theorem isWriteOnly_plus : files.mode.isWriteOnly = true := by
  rw [hmode]
  rfl

omit hmode in
theorem path_plus (path : String) : files.path path = relative path := by
  simp only [Files.path, hroot]

/-- An open request that is not refused. -/
theorem open_eq (env : Env) {filename : String} {flags : OpenFlags} {path : Path}
    (hflags : flags.read = false ∧ flags.write ∧ flags.create)
    (hpath : relative filename = .ok path) (s : Session) :
    files.open env filename flags s =
      (files.openNew env path >>= fun ino => addHandle (.file ino false flags.read flags.write))
        s := by
  have hrw : ¬(files.mode = .readOnly ∧ mutating flags) := by
    rw [hmode]
    simp
  have hlen : files.mode = .writeOnly → path.length = 1 := by
    rw [hmode]
    simp
  unfold «open»
  rw [require, if_pos hrw, path_plus hroot, hpath]
  change (if files.mode.isWriteOnly = true then _ else _ : FxM Reply) s = _
  rw [if_pos (isWriteOnly_plus hmode)]
  change (require _ _ >>= fun _ => require _ _ >>= fun _ => files.openNew env path >>= fun ino =>
    addHandle (.file ino false flags.read flags.write) : FxM Reply) s = _
  rw [require, if_pos hflags, require, if_pos hlen]
  rfl

/-- Opening in both sessions. -/
theorem twins_openPlus (h : Twins (treeCoupling m root) files places s t) (env : Env)
    (filename : String) (flags : OpenFlags)
    (hsame : Unprobed files.base env s.fs t.fs (.open filename flags)) :
    Agree (SameStep m root files) (Twins (treeCoupling m root) files places)
      (files.open env filename flags s) (files.open env filename flags t) := by
  by_cases hflags : flags.read = false ∧ flags.write ∧ flags.create
  swap
  · -- refused before anything is looked at
    refine Agree.require_bind h fun _ => (twins_ofExcept h _).bind ?_
    rintro path _ s t ⟨rfl, h⟩
    rw [if_pos (isWriteOnly_plus hmode)]
    exact Agree.require_bind h fun hc => absurd hc hflags
  cases hpath : relative filename with
  | error code =>
    refine Agree.require_bind h fun _ => ?_
    rw [path_plus hroot, hpath]
    exact Agree.throw h
  | ok path =>
    rw [open_eq hmode hroot env hflags hpath, open_eq hmode hroot env hflags hpath]
    have halike := (alike_iff h.fs.1.tree _ _).1 (hsame hflags path hpath)
    refine Agree.bind (agree_openNew hmode hroot h env path halike) ?_
    rintro ino _ s t ⟨rfl, hi, places', h⟩
    have hadd := twins_addHandle h hi false flags.read flags.write
    exact sameStep_of_answered hadd

/-- Making a directory in both sessions. -/
theorem twins_mkDir (h : Twins (treeCoupling m root) files places s t) (env : Env)
    (path : String) (hsame : Unprobed files.base env s.fs t.fs (.mkDir path)) :
    Agree (SameStep m root files) (Twins (treeCoupling m root) files places)
      (files.mkDir path s) (files.mkDir path t) := by
  refine Agree.require_bind h fun _ => ?_
  rw [path_plus hroot]
  cases hpath : relative path with
  | error code => exact Agree.throw h
  | ok path' =>
    have halike := (alike_iff h.fs.1.tree _ _).1 (hsame path' hpath)
    refine Agree.bind (A := fun a b s' t' => a = path' ∧ b = path' ∧ s' = s ∧ t' = t)
      ⟨rfl, rfl, rfl, rfl⟩ ?_
    rintro _ _ _ _ ⟨rfl, rfl, rfl, rfl⟩
    refine (agree_mkDir hroot h _ halike).bind ?_
    rintro _ _ s' t' ⟨places', h'⟩
    rw [if_pos (isWriteOnly_plus hmode)]
    exact ⟨.inl rfl, places', h'⟩

/-- Is there a directory at a path? -/
def IsDirAt (base : Base) (fs : Fs) (path : Path) (follow : Bool) : Prop :=
  ∃ i parent entries, fs.objectAt base path follow = .ok i ∧
    fs.kind i = some (.dir parent entries)

omit hroot in
variable (m root) in
/-- Only attributes of directories are told. -/
theorem statOther_ends (hf : s.fs.faults = []) (path : Path) (follow : Bool) :
    Ends (fun a s' => a.isDir ∧ IsDirAt files.base s.fs path follow ∧ NotMade m root s s')
      (fun code s' => code = .noSuchFile ∧ ¬IsDirAt files.base s.fs path follow ∧
        NotMade m root s s') (files.statOther path follow s) := by
  have hc : ¬(files.mode = .writeOnly ∧ path ≠ []) := by
    rw [hmode]
    simp
  have hstat := Posix.stat_ends m root hf files.base path follow
  rw [statOther_eq hc]
  cases hr : Posix.stat files.base path follow s.fs with
  | error e u =>
    rw [hr] at hstat
    refine ⟨rfl, ?_, u, hstat.2, rfl⟩
    rintro ⟨i, parent, entries, ho, hk⟩
    rw [hstat.1 i ho] at hk
    cases hk
  | ok n u =>
    rw [hr] at hstat
    obtain ⟨i, ho, hk, hcalm⟩ := hstat
    dsimp only
    split_ifs with hd
    · obtain ⟨parent, entries, hdir⟩ := (attributes_isDir u.host n).1 hd
      exact ⟨hd, ⟨i, parent, entries, ho, hdir ▸ hk⟩, u, hcalm, rfl⟩
    · refine ⟨rfl, ?_, u, hcalm, rfl⟩
      rintro ⟨j, parent, entries, ho', hk'⟩
      rw [ho] at ho'
      cases ho'
      rw [hk] at hk'
      exact hd ((attributes_isDir u.host n).2 ⟨parent, entries, Option.some.inj hk'⟩)

omit hmode hroot in
theorem isDirAt_tree {base : Base} {s t : Fs} (h : Posix.SameTree s t) {path : Path}
    {follow : Bool} (hd : IsDirAt base s path follow) : IsDirAt base t path follow := by
  obtain ⟨i, parent, entries, ho, hk⟩ := hd
  obtain ⟨entries', hk'⟩ := h.left.dir i parent entries hk
  exact ⟨i, parent, entries', Posix.objectAt_tree h ho hk, hk'⟩

omit hroot in
/-- The attributes of a path the sessions did not write are those of a directory, which is there in
both. -/
theorem twins_statPlus (h : Twins (treeCoupling m root) files places s t) (path : String)
    (follow : Bool) :
    Agree (SameStep m root files) (Twins (treeCoupling m root) files places)
      (files.statRequest path follow s) (files.statRequest path follow t) := by
  refine twins_statRequest (isWriteOnly_plus hmode) path follow h
    (fun _ _ _ _ h => sameStep_of_answered h) fun path' _ => ?_
  refine Agree.of_ends (statOther_ends m root hmode h.fs.1.faults_left path' follow)
    (statOther_ends m root hmode h.fs.1.faults_right path' follow) ?_ ?_ ?_ ?_
  · rintro a b s' t' ⟨ha, -, hs⟩ ⟨hb, -, ht⟩
    exact ⟨.inr ⟨a, b, rfl, rfl, ha, hb⟩, places, twins_notMade h hs ht⟩
  · rintro e f s' t' ⟨rfl, -, hs⟩ ⟨rfl, -, ht⟩
    exact ⟨rfl, twins_notMade h hs ht⟩
  · rintro a s' f t' ⟨-, hd, -⟩ ⟨-, hd', -⟩
    exact hd' (isDirAt_tree h.fs.1.tree hd)
  · rintro e s' b t' ⟨-, hd, -⟩ ⟨-, hd', -⟩
    exact hd (isDirAt_tree h.fs.1.tree.symm hd')

/-- A request that tells nothing about files. -/
theorem twins_stepPlus (h : Twins (treeCoupling m root) files places s t) (env : Env)
    (request : Request)
    (hsame : s.initialized → Unprobed files.base env s.fs t.fs request) :
    SameStep m root files (files.process env request s).1 (files.process env request t).1
      (files.process env request s).2 (files.process env request t).2 := by
  refine twins_process h (fun e s t h => ⟨.inl rfl, places, h⟩) fun h hinit => ?_
  have hunprobed : s.initialized → Unprobed files.base env { s.fs with clock := env.clock }
      { t.fs with clock := env.clock } request := fun hstarted =>
    unprobed_congr (kind_clock s.fs env.clock) rfl (kind_clock t.fs env.clock) rfl (hsame hstarted)
  by_cases hin : Outward request
  · cases request with
    | «open» filename flags =>
      have hstarted : s.initialized := by simpa using hinit
      exact twins_openPlus hmode hroot h env filename flags (hunprobed hstarted)
    | mkDir path =>
      have hstarted : s.initialized := by simpa using hinit
      exact twins_mkDir hmode hroot h env path (hunprobed hstarted)
    | stat path => exact twins_statPlus hmode h path true
    | lstat path => exact twins_statPlus hmode h path false
    | _ => exact hin.elim
  · exact (twins_answer (isWriteOnly_plus hmode) hin env h).mono
      (fun _ _ _ _ h => sameStep_of_answered h) fun _ _ h => h

/-! ### The replies to requests that make something -/

omit hmode hroot in
theorem refusal_ne_ok {base : Base} {fs : Fs} {parent : Path} {names : List String} :
    refusal base fs parent names ≠ some .ok := by
  unfold refusal
  cases fs.dirAt base parent with
  | ok d => cases names.any (free fs d) <;> simp
  | error e => cases e <;> simp [status]

/-- The reply to an open request that is not refused. -/
theorem open_reply (hf : s.fs.faults = []) (hinit : s.initialized) (env : Env)
    {filename : String} {flags : OpenFlags} {path : Path}
    (hflags : flags.read = false ∧ flags.write ∧ flags.create)
    (hpath : relative filename = .ok path) :
    (files.process env (.open filename flags) s).1 =
      match refusal files.base s.fs path.dropLast (openNames env path) with
      | none => .handle (toString (s.nextHandle + 1))
      | some code => .status code := by
  refine process_of_ends files (P := fun r _ => r =
    match refusal files.base s.fs path.dropLast (openNames env path) with
      | none => .handle (toString (s.nextHandle + 1))
      | some code => .status code) ?_
  have hrefusal : refusal files.base { s.fs with clock := env.clock } path.dropLast
      (openNames env path) = refusal files.base s.fs path.dropLast (openNames env path) :=
    refusal_congr (kind_clock s.fs env.clock) rfl _ _
  have hopen := openNew_ends_iff (m := 0) hmode hroot
    (s := { s with fs := { s.fs with clock := env.clock } }) hf env path
  rw [dispatch_eq, if_pos (.inr hinit)]
  change Ends _ _ (files.open env filename flags _)
  rw [open_eq hmode hroot env hflags hpath]
  refine Ends.bind (hopen.mono (fun _ _ h => h) fun code s' h => ?_) fun ino s' h => ?_
  · rw [← hrefusal, h.1]
  · obtain ⟨hnone, p, d, name, u, -, -, -, -, rfl⟩ := h
    rw [← hrefusal, hnone]
    rfl

/-- The reply to a request to make a directory. -/
theorem mkDir_reply (hf : s.fs.faults = []) (hhome : ∃ d, s.fs.dirAt files.base [] = .ok d)
    (hinit : s.initialized) (env : Env) {path : String} {path' : Path}
    (hpath : relative path = .ok path') :
    (files.process env (.mkDir path) s).1 =
      .status ((refusal files.base s.fs path'.dropLast path'.getLast?.toList).getD .ok) := by
  refine process_of_ends files (P := fun r _ => r =
    .status ((refusal files.base s.fs path'.dropLast path'.getLast?.toList).getD .ok)) ?_
  have hrefusal : refusal files.base { s.fs with clock := env.clock } path'.dropLast
      path'.getLast?.toList = refusal files.base s.fs path'.dropLast path'.getLast?.toList :=
    refusal_congr (kind_clock s.fs env.clock) rfl _ _
  have hhome' : ∃ d, Fs.dirAt { s.fs with clock := env.clock } files.base [] = .ok d := hhome
  have hmk := @mkDir_call_ends 0 root files
    { s with fs := { s.fs with clock := env.clock } } hf path' hhome'
  have hrw : files.mode ≠ .readOnly ∧ files.mode ≠ .writeOnly := by
    rw [hmode]
    simp
  rw [dispatch_eq, if_pos (.inr hinit)]
  change Ends _ _ (files.mkDir path _)
  unfold mkDir
  refine Ends.bind (P := fun _ s' => s' = { s with fs := { s.fs with clock := env.clock } })
    (Ends.require (fun _ => rfl) fun h => absurd hrw h) fun _ s' h => ?_
  subst h
  rw [path_plus hroot, hpath]
  refine Ends.bind (P := fun a s' => a = path' ∧
    s' = { s with fs := { s.fs with clock := env.clock } })
    (Ends.pure ⟨rfl, rfl⟩) fun a s' h => ?_
  obtain ⟨rfl, rfl⟩ := h
  refine Ends.bind (hmk.mono (fun _ _ h => h) fun code s' h => ?_) fun _ s' h => ?_
  · rw [← hrefusal, h.1]
    rfl
  · rw [if_pos (isWriteOnly_plus hmode), ← hrefusal, h.1]
    rfl

/-- A request that tells something about files. -/
theorem not_sameButDirs (h : Twins (treeCoupling m root) files places s t) (env : Env)
    (request : Request) (hinit : s.initialized)
    (hdiffer : ¬Unprobed files.base env s.fs t.fs request) :
    ¬SameButDirs (files.process env request s).1 (files.process env request t).1 := by
  have hinit' : t.initialized := by rw [h.initialized]; exact hinit
  have htree : Trees m root s.fs t.fs := h.fs.1
  cases request <;> try exact absurd trivial hdiffer
  case «open» filename flags =>
    simp only [Unprobed, not_forall] at hdiffer
    obtain ⟨hflags, path, hpath, hdiffer⟩ := hdiffer
    rw [alike_iff htree.tree] at hdiffer
    rw [open_reply hmode hroot htree.faults_left hinit env hflags hpath,
      open_reply hmode hroot htree.faults_right hinit' env hflags hpath, h.nextHandle]
    revert hdiffer
    generalize refusal files.base s.fs path.dropLast (openNames env path) = r,
      refusal files.base t.fs path.dropLast (openNames env path) = r'
    rintro hdiffer (hsame | ⟨a, b, ha, -⟩)
    · rcases r with _ | code <;> rcases r' with _ | code' <;> simp at hsame
      · exact hdiffer rfl
      · exact hdiffer (by rw [hsame])
    · rcases r with _ | code <;> cases ha
  case mkDir path =>
    simp only [Unprobed, not_forall] at hdiffer
    obtain ⟨path', hpath, hdiffer⟩ := hdiffer
    rw [alike_iff htree.tree] at hdiffer
    rw [mkDir_reply hmode hroot htree.faults_left (dirAt_home hroot htree) hinit env hpath,
      mkDir_reply hmode hroot htree.faults_right (dirAt_home hroot htree.symm) hinit' env hpath]
    have hs : refusal files.base s.fs path'.dropLast path'.getLast?.toList ≠ some .ok :=
      refusal_ne_ok
    have ht : refusal files.base t.fs path'.dropLast path'.getLast?.toList ≠ some .ok :=
      refusal_ne_ok
    revert hdiffer hs ht
    generalize refusal files.base s.fs path'.dropLast path'.getLast?.toList = r,
      refusal files.base t.fs path'.dropLast path'.getLast?.toList = r'
    rintro hdiffer hs ht (hsame | ⟨a, b, ha, -⟩)
    · rcases r with _ | code <;> rcases r' with _ | code' <;> simp at hsame
      · exact hdiffer rfl
      · exact ht (by rw [hsame])
      · exact hs (by rw [hsame])
      · exact hdiffer (by rw [hsame])
    · cases ha

end

/-! ### Runs -/

/-- Two shares with the same directories and symbolic links, that differ only in their files.  Calls
do not fail by themselves, and numbers from `next` on are free, so that it may be taken to be the
same. -/
structure SameDirs (root : ℕ) (s t : Fs) : Prop where
  clock : s.clock = t.clock
  host : s.host = t.host
  faults_left : s.faults = []
  faults_right : t.faults = []
  next : s.next = t.next
  tree : Posix.SameTree s t
  closed_left : s.Closed
  closed_right : t.Closed
  home : ∃ parent entries, s.kind root = some (.dir parent entries)

/-- New sessions over two such shares. -/
theorem twins_newPlus {root : ℕ} {s t : Fs} (h : SameDirs root s t) (files : Files) :
    Twins (treeCoupling s.next root) files [] (Session.new s) (Session.new t) where
  fs := by
    refine ⟨⟨h.clock, h.host, h.faults_left, h.faults_right, h.next, le_refl _, h.tree,
      h.closed_left, h.closed_right, fun i hi => ?_, fun i target hi hk => ?_, h.home⟩,
      fun _ hp => absurd hp List.not_mem_nil⟩
    · rw [Session.new, Session.new, s.fresh i hi, t.fresh i (h.next ▸ hi)]
      exact .none
    · rw [Session.new, Fs.kind, s.fresh i hi] at hk
      cases hk
  own _ hp := absurd hp List.not_mem_nil
  wrote _ := .none
  handles := rfl
  file _ hh := absurd hh List.not_mem_nil
  nextHandle := rfl
  initialized := rfl

/-- No request before which the two runs have come as far as `s` and `t` tells the shares apart. -/
def UnprobedRun (files : Files) (s t : Session) (requests : List (Env × Request)) : Prop :=
  ∀ before env request after, requests = before ++ (env, request) :: after →
    (files.run s before).2.initialized →
      Unprobed files.base env (files.run s before).2.fs (files.run t before).2.fs request

theorem unprobedRun_cons {files : Files} {s t : Session} {env : Env} {request : Request}
    {rest : List (Env × Request)} :
    UnprobedRun files s t ((env, request) :: rest) ↔
      (s.initialized → Unprobed files.base env s.fs t.fs request) ∧
        UnprobedRun files (files.process env request s).2 (files.process env request t).2 rest := by
  constructor
  · intro h
    refine ⟨h [] env request rest rfl, fun before env' request' after he => ?_⟩
    exact h ((env, request) :: before) env' request' after (by rw [he]; rfl)
  · rintro ⟨h, hrest⟩ before env' request' after he
    cases before with
    | nil =>
      cases he
      exact h
    | cons first before =>
      rw [List.cons_append, List.cons.injEq] at he
      obtain ⟨rfl, he⟩ := he
      exact hrest before env' request' after he

/-- The replies to the same requests. -/
theorem probe_iff {m root : ℕ} {files : Files} (hmode : files.mode = .writeOnlyPlus)
    (hroot : files.root = some root) {places : List (Path × Path × ℕ)} {s t : Session}
    (h : Twins (treeCoupling m root) files places s t) (requests : List (Env × Request)) :
    List.Forall₂ SameButDirs (files.run s requests).1 (files.run t requests).1 ↔
      UnprobedRun files s t requests := by
  induction requests generalizing s t places with
  | nil =>
    refine ⟨fun _ before env request after he => ?_, fun _ => .nil⟩
    simp at he
  | cons r rest ih =>
    obtain ⟨env, request⟩ := r
    rw [unprobedRun_cons]
    simp only [run, List.forall₂_cons]
    by_cases hsame : s.initialized → Unprobed files.base env s.fs t.fs request
    · obtain ⟨hreply, places', h'⟩ := twins_stepPlus hmode hroot h env request hsame
      rw [ih h']
      exact ⟨fun hr => ⟨hsame, hr.2⟩, fun hr => ⟨hreply, hr.2⟩⟩
    · refine ⟨fun hr => absurd hr.1 ?_, fun hr => absurd hr.1 hsame⟩
      rw [Classical.not_imp] at hsame
      exact not_sameButDirs hmode hroot h env request hsame.1 hsame.2

/-- **What can be probed.**  The same requests of new sessions of two shares that keep the requested
names and differ only in their files get the same replies (attributes of directories apart) if and
only if each request that makes something finds, when it is processed, the directory of its path
reached in both shares, or in neither for reasons with the same status, and the names it may use all
taken there in both shares or in neither. -/
theorem probe_run {root : ℕ} {files : Files} (hmode : files.mode = .writeOnlyPlus)
    (hroot : files.root = some root) {s t : Fs} (h : SameDirs root s t)
    (requests : List (Env × Request)) :
    List.Forall₂ SameButDirs (files.run (Session.new s) requests).1
        (files.run (Session.new t) requests).1 ↔
      UnprobedRun files (Session.new s) (Session.new t) requests :=
  probe_iff hmode hroot (twins_newPlus h files) requests

/-! ### A guessed name -/

/-- A share whose root has the given entries; object 1 is a file. -/
def shareFs (entries : List (String × ℕ)) : Fs :=
  .ofList [⟨.dir 0 entries, ⟨0o755, 0, 0, 0, 0, 0⟩⟩, ⟨.file [104, 105], ⟨0o644, 0, 0, 0, 0, 0⟩⟩]
    ⟨fun _ _ => false, fun _ => 4096, [], 0o022, 0, 0⟩

theorem shareFs_kind (entries : List (String × ℕ)) (i : ℕ) :
    (shareFs entries).kind i =
      if i = 0 then some (.dir 0 entries) else if i = 1 then some (.file [104, 105]) else none := by
  match i with
  | 0 => rfl
  | 1 => rfl
  | i + 2 => rfl

theorem treeOf_shareFs {entries entries' : List (String × ℕ)}
    (h : ∀ e ∈ entries, e.2 = 1) : Posix.TreeOf (shareFs entries) (shareFs entries') where
  dir d parent es hd := by
    rw [shareFs_kind] at hd ⊢
    split_ifs at hd ⊢ with h0 h1
    · cases hd
      exact ⟨entries', rfl⟩
    · cases hd
  link i target hi := by
    rw [shareFs_kind] at hi
    split_ifs at hi <;> cases hi
  entry d name i hl htree := by
    -- every entry is a file
    have hi : i = 1 := by
      have hmem := mem_of_lookup hl
      rw [Fs.entries, shareFs_kind] at hmem
      split_ifs at hmem
      · exact h _ hmem
      · exact absurd hmem List.not_mem_nil
      · exact absurd hmem List.not_mem_nil
    obtain ⟨k, hk, hkt⟩ := htree
    rw [hi, shareFs_kind] at hk
    cases hk
    cases hkt

theorem closed_shareFs {entries : List (String × ℕ)} (h : ∀ e ∈ entries, e.2 = 1) :
    (shareFs entries).Closed := by
  intro d e he
  rw [Fs.entries, shareFs_kind] at he
  split_ifs at he
  · have := h e he
    change e.2 < 2
    omega
  · exact absurd he List.not_mem_nil
  · exact absurd he List.not_mem_nil

/-- One share has a file `f`, the other has not. -/
theorem sameDirs_shareFs : SameDirs 0 (shareFs []) (shareFs [("f", 1)]) where
  clock := rfl
  host := rfl
  faults_left := rfl
  faults_right := rfl
  next := rfl
  tree := ⟨rfl, treeOf_shareFs (by simp), treeOf_shareFs (by simp)⟩
  closed_left := closed_shareFs (by simp)
  closed_right := closed_shareFs (by simp)
  home := ⟨0, [], rfl⟩

/-- The session starts, and a directory is made under a guessed name. -/
def guess (name : String) : List (Env × Request) :=
  [(⟨7, "7", 0⟩, .init), (⟨7, "7", 0⟩, .mkDir name)]

theorem probe_run_sample :
    List.Forall₂ SameButDirs
        ((ofShare 0 .writeOnlyPlus).run (Session.new (shareFs [])) (guess "g")).1
        ((ofShare 0 .writeOnlyPlus).run (Session.new (shareFs [("f", 1)])) (guess "g")).1 ↔
      UnprobedRun (ofShare 0 .writeOnlyPlus) (Session.new (shareFs []))
        (Session.new (shareFs [("f", 1)])) (guess "g") :=
  probe_run rfl rfl sameDirs_shareFs (guess "g")

/-- The status of making a directory tells whether there is a file of that name. -/
theorem mkDir_probes :
    SameDirs 0 (shareFs []) (shareFs [("f", 1)]) ∧
      ¬List.Forall₂ SameButDirs
        ((ofShare 0 .writeOnlyPlus).run (Session.new (shareFs [])) (guess "f")).1
        ((ofShare 0 .writeOnlyPlus).run (Session.new (shareFs [("f", 1)])) (guess "f")).1 := by
  refine ⟨sameDirs_shareFs, fun h => ?_⟩
  have hs : ((ofShare 0 .writeOnlyPlus).run (Session.new (shareFs [])) (guess "f")).1 =
      [.version (extensions (ofShare 0 .writeOnlyPlus)), .status .ok] := by decide +kernel
  have ht : ((ofShare 0 .writeOnlyPlus).run (Session.new (shareFs [("f", 1)])) (guess "f")).1 =
      [.version (extensions (ofShare 0 .writeOnlyPlus)), .status .failure] := by decide +kernel
  rw [hs, ht] at h
  obtain ⟨-, h⟩ := List.forall₂_cons.1 h
  obtain ⟨h, -⟩ := List.forall₂_cons.1 h
  simp [SameButDirs] at h

end Files

end Tailcat.Sftp
