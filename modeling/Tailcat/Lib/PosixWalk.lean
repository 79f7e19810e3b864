import Tailcat.Lib.Posix

/-!
# Path resolution

What a walk depends on (`walk_congr`) and touches (`walk_links`), how it goes on below the
directory it leads to (`walk_append`), and what the calls that resolve a path answer: `Fs.dirAt`
is the directory at a path, `Fs.vacantAt` the directory and the name of an entry that is free.

A walk goes on through links by a jump, which is the walk with one link less to spend, so its lemmas
are stated for any jump and used by induction on the number of links.  A walk reads directories and
links only, hence two filesystems with the same kinds of objects have the same walks.  What a walk
changes are access times; `Fs.resolved` is the filesystem after it.

Every call that takes a path begins with a walk, and each of them has an equation here
(`resolve_eq`, `resolveDir_eq`, `vacant_eq`, `lookupLast_eq`), after which nothing unfolds a walk
again.
-/

namespace Posix

open Program

/-! ### Walks -/

section Walk

variable {fs fs' : Fs} {base : Base}

/-- The links followed by a walk are symbolic links. -/
theorem walkFrom_links {jump : ℕ → Path → Walked}
    (hj : ∀ cur path, ∀ i ∈ (jump cur path).1, ∃ target, fs.kind i = some (.symlink target))
    {cur : ℕ} {path : Path} :
    ∀ i ∈ (walkFrom fs base jump cur path).1, ∃ target, fs.kind i = some (.symlink target) := by
  induction path generalizing cur with
  | nil => exact fun i hi => absurd hi List.not_mem_nil
  | cons name rest ih =>
    by_cases hdir : ∃ parent entries, fs.kind cur = some (.dir parent entries)
    swap
    · rw [walkFrom_notdir fun p es he => hdir ⟨p, es, he⟩]
      exact fun i hi => absurd hi List.not_mem_nil
    obtain ⟨parent, entries, hk⟩ := hdir
    by_cases hd : isDot name
    · rw [walkFrom_dot hk hd]
      exact ih
    by_cases hu : name = ".."
    · subst hu
      rw [walkFrom_up hk]
      split_ifs
      · exact fun i hi => absurd hi List.not_mem_nil
      · exact ih
    rw [walkFrom_name hk hd hu]
    cases entries.lookup name with
    | none => exact fun i hi => absurd hi List.not_mem_nil
    | some j =>
      cases hkj : fs.kind j with
      | none => simp [hkj]
      | some kj =>
        cases kj with
        | file data => simpa [hkj] using ih
        | dir p es => simpa [hkj] using ih
        | symlink target =>
          simp only [hkj]
          intro i hi
          rcases List.mem_cons.1 hi with rfl | hi
          · exact ⟨target, hkj⟩
          · unfold follow at hi
            split_ifs at hi
            · cases base with
              | within root => exact absurd hi List.not_mem_nil
              | ambient => exact hj _ _ i hi
            · exact hj _ _ i hi

theorem walk_links {n cur : ℕ} {path : Path} :
    ∀ i ∈ (walk fs base n cur path).1, ∃ target, fs.kind i = some (.symlink target) := by
  induction n generalizing cur path with
  | zero => exact walkFrom_links fun _ _ i hi => absurd hi List.not_mem_nil
  | succ n ih => exact walkFrom_links fun _ _ => ih

/-- What follows of a step through a symbolic link. -/
theorem follow_imp {fs' : Fs} (hs : fs'.slash = fs.slash) {jump jump' : ℕ → Path → Walked}
    {P P' : Except Errno Target} (hP : ∀ e, P ≠ .error e) {rest rest' : Path}
    (hj : ∀ cur target links, jump cur (linkPath target ++ rest) = (links, P) →
      jump' cur (linkPath target ++ rest') = (links, P')) {cur i : ℕ} {target : String}
    {links : List ℕ}
    (h : (i :: (follow fs base jump cur target rest).1, (follow fs base jump cur target rest).2) =
      (links, P)) :
    (i :: (follow fs' base jump' cur target rest').1, (follow fs' base jump' cur target rest').2) =
      (links, P') := by
  obtain ⟨hl, hr⟩ := Prod.mk.inj h
  subst hl
  have hf : follow fs' base jump' cur target rest' =
      ((follow fs base jump cur target rest).1, P') := by
    unfold follow at hr ⊢
    split_ifs at hr ⊢
    · cases base with
      | within root => exact absurd hr.symm (hP _)
      | ambient =>
        rw [hs]
        exact hj _ _ _ (Prod.ext rfl hr)
    · exact hj _ _ _ (Prod.ext rfl hr)
  rw [hf]

theorem walkFrom_append {jump : ℕ → Path → Walked} {d parent i : ℕ}
    {entries : List (String × ℕ)} {name : String} {k : Kind}
    (hd : fs.kind d = some (.dir parent entries)) (hdot : ¬isDot name) (hup : name ≠ "..")
    (hl : entries.lookup name = some i) (hk : fs.kind i = some k)
    (hlink : ∀ target, k ≠ .symlink target)
    (hj : ∀ cur path links, jump cur path = (links, .ok (.found d)) →
      jump cur (path ++ [name]) = (links, .ok (.found i))) {cur : ℕ} {path : Path}
    {links : List ℕ} (h : walkFrom fs base jump cur path = (links, .ok (.found d))) :
    walkFrom fs base jump cur (path ++ [name]) = (links, .ok (.found i)) := by
  induction path generalizing cur with
  | nil =>
    cases h
    rw [List.nil_append, walkFrom_name hd hdot hup, hl]
    cases k with
    | file data => simp only [hk, walkFrom]
    | dir p es => simp only [hk, walkFrom]
    | symlink target => exact absurd rfl (hlink target)
  | cons first rest ih =>
    by_cases hdir : ∃ parent entries, fs.kind cur = some (.dir parent entries)
    swap
    · rw [walkFrom_notdir fun p es he => hdir ⟨p, es, he⟩] at h
      cases h
    obtain ⟨p, es, hcur⟩ := hdir
    rw [List.cons_append]
    by_cases hfd : isDot first
    · rw [walkFrom_dot hcur hfd] at h ⊢
      exact ih h
    by_cases hfu : first = ".."
    · subst hfu
      rw [walkFrom_up hcur] at h ⊢
      split_ifs at h ⊢
      · cases h
      · exact ih h
    rw [walkFrom_name hcur hfd hfu] at h ⊢
    cases hlf : es.lookup first with
    | none =>
      simp only [hlf, absent] at h
      split_ifs at h <;> cases h
    | some j =>
      simp only [hlf] at h ⊢
      cases hkj : fs.kind j with
      | none =>
        rw [hkj] at h
        cases h
      | some kj =>
        rw [hkj] at h
        cases kj with
        | file data => exact ih h
        | dir p' es' => exact ih h
        | symlink target =>
          -- behind the link the rest is walked with one link less
          refine follow_imp rfl (by simp) (fun cur target links hw => ?_) h
          rw [← List.append_assoc]
          exact hj _ _ _ hw

/-- A path to a directory, and the name of an entry that is no link. -/
theorem walk_append {d parent i : ℕ} {entries : List (String × ℕ)} {name : String} {k : Kind}
    (hd : fs.kind d = some (.dir parent entries)) (hdot : ¬isDot name) (hup : name ≠ "..")
    (hl : entries.lookup name = some i) (hk : fs.kind i = some k)
    (hlink : ∀ target, k ≠ .symlink target) {n cur : ℕ} {path : Path} {links : List ℕ}
    (h : walk fs base n cur path = (links, .ok (.found d))) :
    walk fs base n cur (path ++ [name]) = (links, .ok (.found i)) := by
  induction n generalizing cur path links with
  | zero => exact walkFrom_append hd hdot hup hl hk hlink (fun _ _ _ h => by cases h) h
  | succ n ih => exact walkFrom_append hd hdot hup hl hk hlink (fun _ _ _ h => ih h) h

/-- A walk depends on what the objects are, not on their attributes. -/
theorem walk_congr (hk : fs'.kind = fs.kind) (hs : fs'.slash = fs.slash) (n : ℕ) :
    walk fs' base n = walk fs base n := by
  have hfrom : ∀ jump, walkFrom fs' base jump = walkFrom fs base jump := by
    intro jump
    funext cur path
    induction path generalizing cur with
    | nil => rfl
    | cons name rest ih =>
      unfold walkFrom
      simp only [hk, follow, hs, ih]
  induction n with
  | zero => exact hfrom _
  | succ n ih => rw [walk, walk, ih, hfrom]

end Walk

/-- The filesystem after a path has been resolved. -/
def Fs.resolved (fs : Fs) (base : Base) (path : Path) : Fs :=
  (walk fs base maxLinks (base.start fs) path).1.foldl Fs.access fs

theorem resolve_eq (fs : Fs) (base : Base) (path : Path) :
    resolve base path fs =
      result (walk fs base maxLinks (base.start fs) path).2 (fs.resolved base path) := by
  change (ofExcept (walk fs base maxLinks (base.start fs) path).2 : FsM Target)
    (fs.resolved base path) = _
  cases (walk fs base maxLinks (base.start fs) path).2 with
  | ok target => rfl
  | error e => rfl

theorem resolveIno_ok {fs : Fs} {base : Base} {path : Path} {i : ℕ}
    (h : (walk fs base maxLinks (base.start fs) path).2 = .ok (.found i)) :
    resolveIno base path fs = .ok i (fs.resolved base path) := by
  have hr : resolve base path fs = .ok (.found i) (fs.resolved base path) := by
    rw [resolve_eq, h]
    rfl
  exact bind_ok hr _

theorem accessed_kind (host : Host) (clock : ℤ) (x : Node) :
    (Fs.accessed host clock x).kind = x.kind := by
  unfold Fs.accessed
  split_ifs <;> rfl

theorem kind_access (fs : Fs) (i j : ℕ) : (fs.access i).kind j = fs.kind j := by
  by_cases h : j = i
  · subst h
    have hk : (fun x => (Fs.accessed fs.host fs.clock x).kind) = fun x : Node => x.kind :=
      funext fun x => accessed_kind _ _ x
    simp only [Fs.kind, Fs.access, Fs.update, if_true, Option.map_map, Function.comp_def, hk]
  · simp only [Fs.kind, Fs.access, Fs.update, if_neg h]

theorem kind_accesses (is : List ℕ) (fs : Fs) : (is.foldl Fs.access fs).kind = fs.kind := by
  induction is generalizing fs with
  | nil => rfl
  | cons i is ih =>
    rw [List.foldl_cons, ih]
    exact funext (kind_access fs i)

theorem kind_resolved (fs : Fs) (base : Base) (path : Path) :
    (fs.resolved base path).kind = fs.kind := kind_accesses _ _

theorem enter_eq (fs : Fs) :
    enter fs = result (match fs.faults.headD none with
      | some fault => .error fault.errno
      | none => .ok ()) { fs with faults := fs.faults.tail } := by
  change (match fs.faults.headD none with
    | some fault => throw fault.errno
    | none => pure () : FsM Unit) { fs with faults := fs.faults.tail } = _
  cases fs.faults.headD none <;> rfl

/-! ### The directory at a path -/

/-- The directory at a path. -/
def Fs.dirAt (fs : Fs) (base : Base) (path : Path) : Except Errno ℕ :=
  match (walk fs base maxLinks (base.start fs) path).2 with
  | .ok (.found d) =>
    match fs.kind d with
    | some (.dir _ _) => .ok d
    | _ => .error .notdir
  | .ok (.missing _ _) => .error .noent
  | .error e => .error e

/-- The directory and the name of an entry to be made. -/
def Fs.vacantAt (fs : Fs) (base : Base) (path : Path) : Except Errno (ℕ × String) :=
  match splitLast path with
  | none => .error .exist
  | some (parent, name) =>
    match fs.dirAt base parent with
    | .ok d => if isDot name = false ∧ fs.child d name = none then .ok (d, name) else .error .exist
    | .error e => .error e

/-- The filesystem after the directory of an entry has been resolved. -/
def Fs.resolvedParent (fs : Fs) (base : Base) (path : Path) : Fs :=
  match splitLast path with
  | none => fs
  | some (parent, _) => fs.resolved base parent

theorem kind_resolvedParent (fs : Fs) (base : Base) (path : Path) :
    (fs.resolvedParent base path).kind = fs.kind := by
  unfold Fs.resolvedParent
  split
  · rfl
  · exact kind_resolved _ _ _

theorem resolveDir_eq (fs : Fs) (base : Base) (path : Path) :
    resolveDir base path fs = result (fs.dirAt base path) (fs.resolved base path) := by
  have hr := resolve_eq fs base path
  unfold Fs.dirAt
  cases hw : (walk fs base maxLinks (base.start fs) path).2 with
  | error e =>
    rw [hw] at hr
    exact bind_error (bind_error hr _) _
  | ok target =>
    rw [hw] at hr
    cases target with
    | missing d name => exact bind_error (bind_ok hr _) _
    | found d =>
      refine (bind_ok (resolveIno_ok hw) _).trans ?_
      change (match (fs.resolved base path).kind d with
        | some (.dir _ _) => pure d
        | _ => throw .notdir : FsM ℕ) (fs.resolved base path) = _
      rw [kind_resolved]
      dsimp only
      cases fs.kind d with
      | none => rfl
      | some k => cases k <;> rfl

theorem vacant_eq (fs : Fs) (base : Base) (path : Path) :
    vacant base path fs = result (fs.vacantAt base path) (fs.resolvedParent base path) := by
  unfold vacant Fs.vacantAt Fs.resolvedParent
  cases splitLast path with
  | none => rfl
  | some p =>
    obtain ⟨parent, name⟩ := p
    have hr := resolveDir_eq fs base parent
    cases hd : fs.dirAt base parent with
    | error e =>
      rw [hd] at hr
      simp only [hd]
      exact bind_error hr _
    | ok d =>
      rw [hd] at hr
      refine (bind_ok hr _).trans ?_
      have hchild : (fs.resolved base parent).child d name = fs.child d name := by
        rw [Fs.child, Fs.child, kind_resolved]
      simp only [hd]
      change (require (isDot name = false ∧ (fs.resolved base parent).child d name = none) .exist
        >>= fun _ => pure (d, name) : FsM (ℕ × String)) (fs.resolved base parent) = _
      rw [hchild, require]
      split_ifs <;> rfl

theorem createNew_ok {fs : Fs} {base : Base} {path : Path} {d : ℕ} {name : String}
    (h : fs.vacantAt base path = .ok (d, name)) (kind : ℕ → Kind) (mode : ℕ) :
    createNew base path kind mode fs =
      .ok (fs.resolvedParent base path).next
        ((fs.resolvedParent base path).create d name (kind d) mode) := by
  have hv : vacant base path fs = .ok (d, name) (fs.resolvedParent base path) := by
    rw [vacant_eq, h]
    rfl
  exact bind_ok hv _

theorem createNew_error {fs : Fs} {base : Base} {path : Path} {e : Errno}
    (h : fs.vacantAt base path = .error e) (kind : ℕ → Kind) (mode : ℕ) :
    createNew base path kind mode fs = .error e (fs.resolvedParent base path) := by
  have hv : vacant base path fs = .error e (fs.resolvedParent base path) := by
    rw [vacant_eq, h]
    rfl
  exact bind_error hv _

/-! ### The object at a path -/

/-- The object at a path; a symbolic link at its end is followed or not. -/
def Fs.objectAt (fs : Fs) (base : Base) (path : Path) (follow : Bool) : Except Errno ℕ :=
  if follow then
    match (walk fs base maxLinks (base.start fs) path).2 with
    | .ok (.found i) => .ok i
    | .ok (.missing _ _) => .error .noent
    | .error e => .error e
  else
    match splitLast path with
    | none => .ok (base.start fs)
    | some (parent, name) =>
      match fs.dirAt base parent with
      | .ok d =>
        match fs.child d name with
        | some i => .ok i
        | none => .error .noent
      | .error e => .error e

theorem resolveIno_eq (fs : Fs) (base : Base) (path : Path) :
    resolveIno base path fs = result (fs.objectAt base path true) (fs.resolved base path) := by
  have hr := resolve_eq fs base path
  simp only [Fs.objectAt, if_true]
  cases hw : (walk fs base maxLinks (base.start fs) path).2 with
  | error e =>
    rw [hw] at hr
    exact bind_error hr _
  | ok target =>
    rw [hw] at hr
    cases target with
    | missing d name => exact bind_ok hr _
    | found d => exact bind_ok hr _

theorem lookupLast_eq (fs : Fs) (base : Base) (path : Path) :
    lookupLast base path fs =
      result (fs.objectAt base path false) (fs.resolvedParent base path) := by
  simp only [Fs.objectAt, Bool.false_eq_true, if_false]
  unfold lookupLast Fs.resolvedParent
  cases splitLast path with
  | none => rfl
  | some p =>
    obtain ⟨parent, name⟩ := p
    have hr := resolveDir_eq fs base parent
    cases hd : fs.dirAt base parent with
    | error e =>
      rw [hd] at hr
      simp only [hd]
      exact bind_error hr _
    | ok d =>
      rw [hd] at hr
      refine (bind_ok hr _).trans ?_
      have hchild : (fs.resolved base parent).child d name = fs.child d name := by
        rw [Fs.child, Fs.child, kind_resolved]
      simp only [hd]
      change (match (fs.resolved base parent).child d name with
        | some i => pure i
        | none => throw .noent : FsM ℕ) (fs.resolved base parent) = _
      rw [hchild]
      cases fs.child d name <;> rfl

end Posix
