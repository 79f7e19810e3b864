import Tailcat.Lib.PosixGrowth

/-!
# Calls that change one object

`Edited i f` relates the filesystems before and after the calls that change the object `i` by `f`
and leave every path leading where it led: changing the mode, the times and the length.  A call at
a path changes the object the path leads to (`edits_at`), if following paths never ends at a
symbolic link (`Fs.Sound`): reading the links on the way then leaves the object alone.
-/

namespace Posix

open Program

/-! ### The ends of paths -/

/-- Is the object a directory? -/
def Fs.IsDir (fs : Fs) (i : ℕ) : Prop := ∃ parent entries, fs.kind i = some (.dir parent entries)

/-- Is the object a symbolic link? -/
def Fs.IsLink (fs : Fs) (i : ℕ) : Prop := ∃ target, fs.kind i = some (.symlink target)

/-- Paths start at a directory, and the parents of directories are directories. -/
structure Fs.Sound (fs : Fs) (base : Base) : Prop where
  start : fs.IsDir (base.start fs)
  parent : ∀ i parent entries, fs.kind i = some (.dir parent entries) → fs.IsDir parent

/-- May a path end at the object? -/
def Fs.IsEnd (fs : Fs) (i : ℕ) : Prop := ∃ k, fs.kind i = some k ∧ ∀ target, k ≠ .symlink target

section Ends

variable {fs : Fs} {base : Base} {i : ℕ}

theorem Fs.IsDir.isEnd (h : fs.IsDir i) : fs.IsEnd i := by
  obtain ⟨parent, entries, hk⟩ := h
  exact ⟨_, hk, fun target => by simp⟩

theorem Fs.IsEnd.not_link (h : fs.IsEnd i) : ¬fs.IsLink i := by
  obtain ⟨k, hk, hne⟩ := h
  rintro ⟨target, hl⟩
  exact hne target (Option.some.inj (hk.symm.trans hl))

theorem walkFrom_isEnd (hs : fs.Sound base) {jump : ℕ → Path → Walked}
    (hj : ∀ cur path i, fs.IsDir cur → (jump cur path).2 = .ok (.found i) → fs.IsEnd i)
    {cur : ℕ} {path : Path} (hc : fs.IsEnd cur)
    (h : (walkFrom fs base jump cur path).2 = .ok (.found i)) : fs.IsEnd i := by
  induction path generalizing cur with
  | nil =>
    obtain rfl : cur = i := by simpa [walkFrom] using h
    exact hc
  | cons name rest ih =>
    by_cases hdir : fs.IsDir cur
    swap
    · rw [walkFrom_notdir fun p es he => hdir ⟨p, es, he⟩] at h
      cases h
    obtain ⟨parent, entries, hk⟩ := hdir
    by_cases hd : isDot name
    · rw [walkFrom_dot hk hd] at h
      exact ih hc h
    by_cases hu : name = ".."
    · subst hu
      rw [walkFrom_up hk] at h
      split_ifs at h
      exact ih (hs.parent cur parent entries hk).isEnd h
    rw [walkFrom_name hk hd hu] at h
    cases hl : entries.lookup name with
    | none =>
      simp only [hl, absent] at h
      split_ifs at h
      all_goals cases h
    | some j =>
      simp only [hl] at h
      cases hkj : fs.kind j with
      | none =>
        rw [hkj] at h
        cases h
      | some kj =>
        rw [hkj] at h
        cases kj with
        | file data => exact ih ⟨_, hkj, fun target => by simp⟩ h
        | dir p es => exact ih ⟨_, hkj, fun target => by simp⟩ h
        | symlink target =>
          -- behind the link the path goes on from the directory of the link, or from the root
          simp only [follow] at h
          split_ifs at h
          · cases base with
            | within root => cases h
            | ambient => exact hj _ _ i hs.start h
          · exact hj _ _ i ⟨parent, entries, hk⟩ h

/-- Following a path ends at a file or a directory. -/
theorem Fs.Sound.isEnd (hs : fs.Sound base) {path : Path}
    (h : fs.objectAt base path true = .ok i) : fs.IsEnd i := by
  have hwalk : ∀ n cur path i, fs.IsDir cur →
      (walk fs base n cur path).2 = .ok (.found i) → fs.IsEnd i := by
    intro n
    induction n with
    | zero =>
      intro cur path i hc
      exact walkFrom_isEnd hs (fun _ _ _ _ h => by cases h) hc.isEnd
    | succ n ih =>
      intro cur path i hc
      exact walkFrom_isEnd hs ih hc.isEnd
  simp only [objectAt, if_true] at h
  cases hw : (walk fs base maxLinks (base.start fs) path).2 with
  | error e =>
    rw [hw] at h
    cases h
  | ok target =>
    rw [hw] at h
    cases target with
    | missing d name => cases h
    | found j =>
      obtain rfl : j = i := Except.ok.inj h
      exact hwalk _ _ _ j hs.start hw

end Ends

/-! ### Edits -/

/-- The object `i` has been changed by `f`, and every path leads where it led. -/
structure Edited (i : ℕ) (f : Node → Node) (fs fs' : Fs) : Prop extends Grows fs fs' where
  clock : fs'.clock = fs.clock
  node : fs'.node i = (fs.node i).map f

/-- The bytes of a file. -/
def Kind.bytes : Kind → List UInt8
  | .file data => data
  | _ => []

/-- An object with another mode. -/
def withMode (clock : ℤ) (mode : ℕ) (n : Node) : Node :=
  { n with attr := { n.attr with mode, ctime := clock } }

/-- An object with other times. -/
def withTimes (clock : ℤ) (atime mtime : Option ℤ) (n : Node) : Node :=
  { n with attr := { n.attr with
      atime := atime.getD n.attr.atime
      mtime := mtime.getD n.attr.mtime
      ctime := clock } }

/-- A file with another length. -/
def withLen (clock : ℤ) (len : ℕ) (n : Node) : Node :=
  Fs.changed clock
    { n with
      kind := .file (n.kind.bytes.take len ++ List.replicate (len - n.kind.bytes.length) 0) }

section Edited

variable {fs fs' fs'' : Fs} {base : Base} {path : Path} {i : ℕ} {f g : Node → Node}

theorem Edited.not_link (h : Edited i f fs fs') (hl : ¬fs.IsLink i) : ¬fs'.IsLink i := by
  rintro ⟨target, ht⟩
  have hnode := h.node
  cases hn : fs.node i with
  | none =>
    rw [hn, Option.map_none] at hnode
    rw [Fs.kind, hnode] at ht
    cases ht
  | some n =>
    have hk : fs.kind i = some n.kind := by rw [Fs.kind, hn, Option.map_some]
    obtain ⟨k', hk', he⟩ := h.kind i n.kind hk
    obtain rfl : k' = .symlink target := Option.some.inj (hk'.symm.trans ht)
    cases hn' : n.kind with
    | file data =>
      rw [hn'] at he
      exact he
    | dir parent entries =>
      rw [hn'] at he
      exact he
    | symlink t => exact hl ⟨t, hn' ▸ hk⟩

theorem Edited.trans (h : Edited i f fs fs') (h' : Edited i g fs' fs'') :
    Edited i (g ∘ f) fs fs'' where
  toGrows := growing.trans h.toGrows h'.toGrows
  clock := h'.clock.trans h.clock
  node := by rw [h'.node, h.node, Option.map_map]

theorem edited_refl (fs : Fs) (i : ℕ) : Edited i id fs fs where
  toGrows := growing.refl fs
  clock := rfl
  node := (Option.map_id_fun' ▸ rfl)

/-- A path leads where it led. -/
theorem objectAt_grows (h : Grows fs fs') (hi : fs.objectAt base path true = .ok i) :
    fs'.objectAt base path true = .ok i := by
  have hstart : base.start fs' = base.start fs := by
    cases base with
    | within root => rfl
    | ambient => exact h.slash
  simp only [Fs.objectAt, if_true] at hi ⊢
  cases hw : walk fs base maxLinks (base.start fs) path with
  | mk links r =>
    rw [hw] at hi
    cases r with
    | error e => cases hi
    | ok target =>
      cases target with
      | missing d name => cases hi
      | found j =>
        rw [hstart, walk_found h hw]
        exact hi

/-- The object is changed in place, by a function that does there what `f` does. -/
theorem edited_update (h : ∀ n, fs.node i = some n → g n = f n ∧ n.kind.Extends (f n).kind) :
    Edited i f fs (fs.update i g) where
  toGrows :=
    have hkept : Preserves 0 true fs (fs.update i g) := preserves_update
      (fun n hn => (h n hn).1 ▸ (h n hn).2) (fun _ _ hi => absurd hi (Nat.not_lt_zero i))
    hkept.toGrows
  clock := rfl
  node := by
    rw [node_update, if_pos rfl]
    cases hn : fs.node i with
    | none => rfl
    | some n => rw [Option.map_some, Option.map_some, (h n hn).1]

theorem edited_faults (fs : Fs) (i : ℕ) (faults : List (Option Fault)) :
    Edited i id fs { fs with faults } where
  toGrows := ⟨le_refl _, rfl, rfl, fun _ k h => ⟨k, h, Kind.Extends.refl k⟩⟩
  clock := rfl
  node := (edited_refl fs i).node

/-- Reading links on the way leaves what is not a link alone. -/
theorem edited_accesses (is : List ℕ) (fs : Fs) (his : ∀ j ∈ is, fs.IsLink j)
    (hi : ¬fs.IsLink i) : Edited i id fs (is.foldl Fs.access fs) := by
  induction is generalizing fs with
  | nil => exact edited_refl fs i
  | cons j is ih =>
    have hj := his j List.mem_cons_self
    have hij : i ≠ j := fun h => hi (h ▸ hj)
    have hkind : (fs.access j).kind = fs.kind := funext (kind_access fs j)
    have hlink : ∀ k, (fs.access j).IsLink k ↔ fs.IsLink k := fun k => by
      rw [Fs.IsLink, Fs.IsLink, hkind]
    have hfirst : Edited i id fs (fs.access j) := {
      toGrows := ⟨le_refl _, rfl, rfl, fun k x h => ⟨x, by rw [hkind, h], Kind.Extends.refl x⟩⟩
      clock := rfl
      node := by
        rw [Fs.access, node_update, if_neg hij, Option.map_id]
        rfl }
    exact hfirst.trans (ih (fs.access j)
      (fun k hk => (hlink k).2 (his k (List.mem_cons_of_mem j hk)))
      fun h => hi ((hlink i).1 h))

theorem edited_resolved (hi : ¬fs.IsLink i) (base : Base) (path : Path) :
    Edited i id fs (fs.resolved base path) :=
  edited_accesses _ fs walk_links hi

theorem edited_setLen {data : List UInt8} (h : fs.kind i = some (.file data)) (len : ℕ) :
    Edited i (withLen fs.clock len) fs (fs.setLen i len) := by
  refine edited_update fun n hn => ?_
  have hk : n.kind = .file data := by
    rw [Fs.kind, hn] at h
    exact Option.some.inj h
  simp only [hk, withLen, Kind.bytes, true_and]
  trivial

/-! ### The calls -/

/-- A program that may fail, and otherwise changes the object `i` by `f`. -/
def Edits (i : ℕ) (f : Node → Node) {α : Type} (fs : Fs) (r : EStateM.Result Errno Fs α) : Prop :=
  Ends (fun _ fs' => Edited i f fs fs') (fun _ _ => True) r

theorem ends_enter (fs : Fs) :
    Ends (fun _ fs' => fs' = { fs with faults := fs.faults.tail }) (fun _ _ => True)
      (enter fs) := by
  rw [enter_eq]
  cases fs.faults.headD none with
  | none => rfl
  | some fault => trivial

theorem ends_nodeOf (fs : Fs) (i : ℕ) :
    Ends (fun n fs' => fs' = fs ∧ fs.node i = some n) (fun _ _ => True) (nodeOf i fs) := by
  cases hn : fs.node i with
  | none =>
    rw [nodeOf_of_none hn]
    trivial
  | some n =>
    rw [nodeOf_of_some hn]
    exact ⟨rfl, rfl⟩

theorem edits_fchmod (fs : Fs) (i mode : ℕ) :
    Edits i (withMode fs.clock mode) fs (fchmod i mode fs) := by
  refine (ends_enter fs).bind fun _ fs₁ h => ?_
  subst h
  exact (edited_faults fs i fs.faults.tail).trans
    (edited_update (f := withMode fs.clock mode) fun n _ => ⟨rfl, Kind.Extends.refl _⟩)

theorem edits_futimes (fs : Fs) (i : ℕ) (atime mtime : Option ℤ) :
    Edits i (withTimes fs.clock atime mtime) fs (futimes i atime mtime fs) := by
  refine (ends_enter fs).bind fun _ fs₁ h => ?_
  subst h
  exact (edited_faults fs i fs.faults.tail).trans
    (edited_update (f := withTimes fs.clock atime mtime) fun n _ =>
      ⟨rfl, Kind.Extends.refl _⟩)

/-- Only a file has a length to set. -/
theorem edits_ftruncate (fs : Fs) (i len : ℕ) :
    Ends (fun _ fs' => Edited i (withLen fs.clock len) fs fs' ∧
        ∃ data, fs.kind i = some (.file data)) (fun _ _ => True) (ftruncate i len fs) := by
  refine Ends.bind (P := fun _ fs₁ => fs₁ = fs) (Ends.require (fun _ => rfl) fun _ => trivial)
    fun _ fs₁ h => ?_
  subst h
  refine (ends_enter fs₁).bind fun _ fs₂ h => ?_
  subst h
  refine (ends_nodeOf _ i).bind fun n fs₂ h => ?_
  obtain ⟨rfl, hn⟩ := h
  cases hk : n.kind with
  | dir parent entries => trivial
  | symlink target => trivial
  | file data =>
    have hkind : fs₁.kind i = some (.file data) := by
      rw [Fs.kind]
      exact (congrArg (Option.map Node.kind) hn).trans (congrArg some hk)
    have hset := edited_setLen
      (show Fs.kind { fs₁ with faults := fs₁.faults.tail } i = some (.file data) from hkind) len
    exact ⟨(edited_faults fs₁ i fs₁.faults.tail).trans hset, data, hkind⟩

/-! ### At a path -/

/-- A change of the object at a path. -/
theorem edits_at {α : Type} {m : ℕ → FsM α} (hi : fs.objectAt base path true = .ok i)
    (hl : ¬fs.IsLink i)
    (hm : ∀ fs', Edited i id fs fs' → Edits i f fs' (m i fs')) :
    Edits i f fs ((resolveIno base path >>= m) fs) := by
  have hr := resolveIno_eq fs base path
  rw [hi] at hr
  rw [bind_ok hr]
  have hres : Edited i id fs (fs.resolved base path) := edited_resolved hl base path
  exact (hm _ hres).mono (fun _ fs' h => hres.trans h) fun _ _ _ => trivial

/-- A path that leads nowhere is not changed. -/
theorem edits_nowhere {α : Type} {m : ℕ → FsM α} {e : Errno}
    (he : fs.objectAt base path true = .error e) :
    Ends (fun _ _ => False) (fun _ _ => True) ((resolveIno base path >>= m) fs) := by
  have hr := resolveIno_eq fs base path
  rw [he] at hr
  rw [bind_error hr]
  trivial

theorem edits_chmod (hi : fs.objectAt base path true = .ok i) (hl : ¬fs.IsLink i) (mode : ℕ) :
    Edits i (withMode fs.clock mode) fs (chmod base path mode fs) :=
  edits_at hi hl fun fs' h => h.clock ▸ edits_fchmod fs' i mode

theorem edits_utimes (hi : fs.objectAt base path true = .ok i) (hl : ¬fs.IsLink i)
    (atime mtime : Option ℤ) :
    Edits i (withTimes fs.clock atime mtime) fs (utimes base path atime mtime fs) :=
  edits_at hi hl fun fs' h => h.clock ▸ edits_futimes fs' i atime mtime

/-- Opening without truncating leaves the object at the path alone, and answers with
it. -/
theorem edits_openFile (hi : fs.objectAt base path true = .ok i) (hl : ¬fs.IsLink i)
    {o : OpenOptions} (ht : o.truncate = false) (hn : o.createNew = false) (mode : ℕ) :
    Ends (fun j fs' => j = i ∧ Edited i id fs fs') (fun _ _ => True)
      (openFile base path o mode fs) := by
  refine Ends.bind (P := fun _ fs₁ => fs₁ = fs) (Ends.require (fun _ => rfl) fun _ => trivial)
    fun _ fs₁ h => ?_
  subst h
  refine (ends_enter fs₁).bind fun _ fs₂ h => ?_
  have hfaults : Edited i id fs₁ fs₂ := h ▸ edited_faults fs₁ i fs₁.faults.tail
  have hl₂ : ¬fs₂.IsLink i := by
    rw [h]
    exact hl
  have hi₂ := objectAt_grows hfaults.toGrows hi
  clear h
  rw [hn, if_neg (by decide)]
  -- the path leads to the object, and only links are read on the way
  have hres : Edited i id fs₁ (fs₂.resolved base path) :=
    hfaults.trans (edited_resolved hl₂ base path)
  have hr := resolve_eq fs₂ base path
  simp only [Fs.objectAt, if_true] at hi₂
  cases hw : (walk fs₂ base maxLinks (base.start fs₂) path).2 with
  | error e =>
    rw [hw] at hi₂
    cases hi₂
  | ok target =>
    rw [hw] at hi₂ hr
    cases target with
    | missing d name => cases hi₂
    | found j =>
      obtain rfl : j = i := Except.ok.inj hi₂
      rw [bind_ok hr]
      refine (ends_nodeOf _ j).bind fun n fs₃ h => ?_
      obtain ⟨rfl, -⟩ := h
      cases n.kind with
      | dir parent entries =>
        exact Ends.bind (P := fun _ fs' => fs' = fs₂.resolved base path)
          (Ends.require (fun _ => rfl) fun _ => trivial) fun _ _ h => h ▸ ⟨rfl, hres⟩
      | symlink target => trivial
      | file data =>
        refine Ends.bind (P := fun _ fs' => fs' = fs₂.resolved base path) ?_
          fun _ _ h => h ▸ ⟨rfl, hres⟩
        rw [ht]
        rfl

/-- Setting the length of the file at a path. -/
theorem edits_truncate (hi : fs.objectAt base path true = .ok i) (hl : ¬fs.IsLink i)
    {o : OpenOptions} (ht : o.truncate = false) (hn : o.createNew = false) (mode len : ℕ) :
    Ends (fun _ fs' => Edited i (withLen fs.clock len) fs fs' ∧
        ∃ data, fs.kind i = some (.file data)) (fun _ _ => True)
      ((openFile base path o mode >>= fun i => ftruncate i len) fs) := by
  refine (edits_openFile hi hl ht hn mode).bind fun j fs₁ h => ?_
  obtain ⟨rfl, hopen⟩ := h
  have hkind : fs₁.kind j = fs.kind j := by
    rw [Fs.kind, Fs.kind, hopen.node, Option.map_id, id]
  refine (edits_ftruncate fs₁ j len).mono (fun _ fs' h => ?_) fun _ _ _ => trivial
  obtain ⟨hlen, data, hdata⟩ := h
  rw [hopen.clock] at hlen
  exact ⟨hopen.trans hlen, data, hkind ▸ hdata⟩

/-- Opening at a path that leads nowhere fails. -/
theorem openFile_nowhere {o : OpenOptions} {e : Errno}
    (he : fs.objectAt base path true = .error e) (hc : o.create = false)
    (hn : o.createNew = false) (mode : ℕ) :
    Ends (fun _ _ => False) (fun _ _ => True) (openFile base path o mode fs) := by
  refine (openFile_answer hc hn mode).mono (fun i _ h => ?_) fun _ _ _ => trivial
  simp only [Fs.objectAt, if_true, h] at he
  cases he

/-! ### What is seen afterwards -/

/-- The object at a path is seen, unless the call fails for reasons of its own. -/
theorem stat_found (hi : fs.objectAt base path true = .ok i) (hl : ¬fs.IsLink i) {n : Node}
    (hn : fs.node i = some n) (hf : fs.faults.headD none = none) :
    ∃ fs', stat base path true fs = .ok n fs' ∧ fs'.host = fs.host := by
  have he := enter_eq fs
  rw [hf] at he
  have hfaults := edited_faults fs i fs.faults.tail
  have hi' := objectAt_grows hfaults.toGrows hi
  have hr := resolveIno_eq { fs with faults := fs.faults.tail } base path
  rw [hi'] at hr
  have hres : Edited i id { fs with faults := fs.faults.tail }
      (Fs.resolved { fs with faults := fs.faults.tail } base path) :=
    edited_resolved (show ¬Fs.IsLink { fs with faults := fs.faults.tail } i from hl) base path
  have hnode : (Fs.resolved { fs with faults := fs.faults.tail } base path).node i = some n := by
    rw [hres.node]
    exact (congrArg (Option.map id) hn).trans rfl
  refine ⟨_, ?_, hres.host⟩
  refine (bind_ok he _).trans ((bind_ok ?_ _).trans (nodeOf_of_some hnode))
  exact hr

/-- So is an open object. -/
theorem fstat_found {n : Node} (hn : fs.node i = some n) (hf : fs.faults.headD none = none) :
    ∃ fs', fstat i fs = .ok n fs' ∧ fs'.host = fs.host := by
  have he := enter_eq fs
  rw [hf] at he
  refine ⟨{ fs with faults := fs.faults.tail }, (bind_ok he _).trans (nodeOf_of_some hn), rfl⟩

end Edited

end Posix
