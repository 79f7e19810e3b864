import Tailcat.Lib.PosixTwins

/-!
# Filesystems with the same directories

`SameTree` relates filesystems that have the same directories and symbolic links, at the same places,
while their files may differ.  A path leads to a directory in both or in neither
(`dirAt_tree`, `objectAt_tree`); and both keep that when a file is created in the same directory of
either, under any names, or a directory is made at the same place (`TreeOf.create`).

`TreeOf` is the one direction of it, so each fact about a change is shown once and used both ways.
`Trees` adds what two sessions need besides: the objects that they make themselves are the same in
both filesystems.  What a call changes without making anything, access times and contents of files,
leaves the trees alone (`Fs.Like`).
-/

namespace Posix

open Program

/-! ### Directories and links -/

/-- Is the object a directory or a symbolic link? -/
def Kind.isTree : Kind → Bool
  | .file _ => false
  | _ => true

/-- Is the object a directory or a symbolic link? -/
def Fs.tree (fs : Fs) (i : ℕ) : Prop := ∃ k, fs.kind i = some k ∧ k.isTree

/-- The directories and symbolic links of one filesystem are those of another. -/
structure TreeOf (s t : Fs) : Prop where
  dir : ∀ d parent entries, s.kind d = some (.dir parent entries) →
    ∃ entries', t.kind d = some (.dir parent entries')
  link : ∀ i target, s.kind i = some (.symlink target) → t.kind i = some (.symlink target)
  entry : ∀ d name i, (s.entries d).lookup name = some i → s.tree i →
    (t.entries d).lookup name = some i

/-- The filesystems have the same directories and symbolic links. -/
structure SameTree (s t : Fs) : Prop where
  slash : s.slash = t.slash
  left : TreeOf s t
  right : TreeOf t s

variable {s t : Fs} {base : Base}

theorem SameTree.symm (h : SameTree s t) : SameTree t s := ⟨h.slash.symm, h.right, h.left⟩

theorem tree_of_dir {d parent : ℕ} {entries : List (String × ℕ)}
    (h : s.kind d = some (.dir parent entries)) : s.tree d := ⟨_, h, rfl⟩

theorem tree_of_link {i : ℕ} {target : String} (h : s.kind i = some (.symlink target)) :
    s.tree i := ⟨_, h, rfl⟩

theorem walkFrom_tree (h : SameTree s t) {jump jump' : ℕ → Path → Walked} {d : ℕ}
    (hd : ∃ parent entries, s.kind d = some (.dir parent entries))
    (hj : ∀ cur path links, jump cur path = (links, .ok (.found d)) →
      jump' cur path = (links, .ok (.found d))) {cur : ℕ} {path : Path} {links : List ℕ}
    (hw : walkFrom s base jump cur path = (links, .ok (.found d))) :
    walkFrom t base jump' cur path = (links, .ok (.found d)) := by
  induction path generalizing cur links with
  | nil => exact hw
  | cons name rest ih =>
    by_cases hdir : ∃ parent entries, s.kind cur = some (.dir parent entries)
    swap
    · rw [walkFrom_notdir fun p es he => hdir ⟨p, es, he⟩] at hw
      cases hw
    obtain ⟨parent, entries, hk⟩ := hdir
    obtain ⟨entries', hk'⟩ := h.left.dir cur parent entries hk
    by_cases hdot : isDot name
    · rw [walkFrom_dot hk hdot] at hw
      rw [walkFrom_dot hk' hdot]
      exact ih hw
    by_cases hup : name = ".."
    · subst hup
      rw [walkFrom_up hk] at hw
      rw [walkFrom_up hk']
      split_ifs at hw ⊢
      · cases hw
      · exact ih hw
    rw [walkFrom_name hk hdot hup] at hw
    rw [walkFrom_name hk' hdot hup]
    cases hl : entries.lookup name with
    | none =>
      simp only [hl, absent] at hw
      split_ifs at hw <;> cases hw
    | some j =>
      have hentry : s.tree j → entries'.lookup name = some j := fun htree => by
        have he := h.left.entry cur name j
        rw [entries_of_kind hk, entries_of_kind hk'] at he
        exact he hl htree
      simp only [hl] at hw
      cases hkj : s.kind j with
      | none =>
        rw [hkj] at hw
        cases hw
      | some kj =>
        rw [hkj] at hw
        cases kj with
        | dir p es =>
          obtain ⟨es', hkj'⟩ := h.left.dir j p es hkj
          simp only [hentry (tree_of_dir hkj), hkj']
          exact ih hw
        | symlink target =>
          simp only [hentry (tree_of_link hkj), h.left.link j target hkj]
          exact follow_imp h.slash.symm (by simp) (fun cur target links hw => hj _ _ _ hw) hw
        | file data =>
          -- a file is no directory, and nothing is below it
          cases rest with
          | nil =>
            cases hw
            obtain ⟨p, es, hd⟩ := hd
            rw [hkj] at hd
            cases hd
          | cons next rest =>
            have hnot : walkFrom s base jump j (next :: rest) = ([], .error .notdir) :=
              walkFrom_notdir fun p es he => by
                rw [hkj] at he
                cases he
            simp only [hnot] at hw
            cases hw

/-- A path that leads to a directory leads to the same one. -/
theorem walk_tree (h : SameTree s t) {n cur d : ℕ} {path : Path} {links : List ℕ}
    (hd : ∃ parent entries, s.kind d = some (.dir parent entries))
    (hw : walk s base n cur path = (links, .ok (.found d))) :
    walk t base n cur path = (links, .ok (.found d)) := by
  induction n generalizing cur path links with
  | zero => exact walkFrom_tree h hd (fun _ _ _ h => by cases h) hw
  | succ n ih => exact walkFrom_tree h hd (fun _ _ _ h => ih h) hw

theorem start_tree (h : SameTree s t) : base.start t = base.start s := by
  cases base with
  | within root => rfl
  | ambient => exact h.slash.symm

theorem dirAt_of_tree (h : SameTree s t) {path : Path} {d : ℕ} (hd : s.dirAt base path = .ok d) :
    t.dirAt base path = .ok d := by
  obtain ⟨hw, parent, entries, hk⟩ := of_dirAt hd
  have hwalk : walk s base maxLinks (base.start s) path =
      ((walk s base maxLinks (base.start s) path).1, .ok (.found d)) := Prod.ext rfl hw
  obtain ⟨entries', hk'⟩ := h.left.dir d parent entries hk
  rw [Fs.dirAt, start_tree h, walk_tree h ⟨_, _, hk⟩ hwalk]
  simp only [hk']

/-- The directory at a path. -/
theorem dirAt_tree (h : SameTree s t) (path : Path) (d : ℕ) :
    s.dirAt base path = .ok d ↔ t.dirAt base path = .ok d :=
  ⟨dirAt_of_tree h, dirAt_of_tree h.symm⟩

/-- The object at a path is a directory. -/
theorem objectAt_tree (h : SameTree s t) {path : Path} {follow : Bool} {d parent : ℕ}
    {entries : List (String × ℕ)} (ho : s.objectAt base path follow = .ok d)
    (hd : s.kind d = some (.dir parent entries)) : t.objectAt base path follow = .ok d := by
  cases follow with
  | true =>
    simp only [Fs.objectAt, if_true] at ho ⊢
    have hdirAt : s.dirAt base path = .ok d := by
      unfold Fs.dirAt
      split at ho
      · rename_i i hw
        cases ho
        simp only [hd]
      · cases ho
      · cases ho
    obtain ⟨hw, -⟩ := of_dirAt (dirAt_of_tree h hdirAt)
    rw [hw]
  | false =>
    simp only [Fs.objectAt, Bool.false_eq_true, if_false] at ho ⊢
    cases hl : splitLast path with
    | none =>
      simp only [hl] at ho ⊢
      rw [start_tree h, ho]
    | some p =>
      obtain ⟨up, name⟩ := p
      simp only [hl] at ho ⊢
      cases hdir : s.dirAt base up with
      | error e =>
        rw [hdir] at ho
        cases ho
      | ok d' =>
        rw [dirAt_of_tree h hdir]
        obtain ⟨-, p, es, hk⟩ := of_dirAt hdir
        obtain ⟨es', hk'⟩ := h.left.dir d' p es hk
        simp only [hdir, Fs.child, hk] at ho
        simp only [Fs.child, hk']
        by_cases hup : name = ".."
        · simp only [if_pos hup] at ho ⊢
          exact ho
        · simp only [if_neg hup] at ho ⊢
          cases hle : es.lookup name with
          | none =>
            rw [hle] at ho
            cases ho
          | some i =>
            rw [hle] at ho
            cases ho
            have he := h.left.entry d' name d
            rw [entries_of_kind hk, entries_of_kind hk'] at he
            have hle' : es'.lookup name = some d := he hle (tree_of_dir hd)
            rw [hle']

/-! ### Creating objects -/

/-- Every entry leads to a number that has been given out. -/
def Fs.Closed (fs : Fs) : Prop := ∀ d, ∀ e ∈ fs.entries d, e.2 < fs.next

section Create

variable {d parent : ℕ} {entries entries' : List (String × ℕ)} {name name' : String} {kind : Kind}

theorem closed_create (hc : s.Closed) (hd : s.kind d = some (.dir parent entries))
    (hentries : kind.entries = []) (mode : ℕ) : (s.create d name kind mode).Closed := by
  intro j e he
  rw [entries_create hd hentries] at he
  have hnext : (s.create d name kind mode).next = s.next + 1 := rfl
  rw [hnext]
  split_ifs at he with hj
  · rcases List.mem_append.1 he with he | he
    · have := hc d e (by rw [entries_of_kind hd]; exact he)
      omega
    · obtain rfl := List.mem_singleton.1 he
      exact Nat.lt_succ_self _
  · have := hc j e he
    omega

/-- An object is created in the same directory, at the same name if it is a directory. -/
theorem TreeOf.create (h : TreeOf s t) (hd : s.kind d = some (.dir parent entries))
    (hd' : t.kind d = some (.dir parent entries')) (hnext : s.next = t.next) (hc : s.Closed)
    (hentries : kind.entries = [])
    (hname : kind.isTree → name = name' ∧ entries'.lookup name = none) (mode mode' : ℕ) :
    TreeOf (s.create d name kind mode) (t.create d name' kind mode') := by
  have hkind := kind_create hd name kind mode
  have hkind' := kind_create hd' name' kind mode'
  have hne : d ≠ s.next := by
    rintro rfl
    rw [kind_next] at hd
    cases hd
  refine ⟨fun j p es hj => ?_, fun j target hj => ?_, fun j nm i hl htree => ?_⟩
  · rw [hkind] at hj
    rw [hkind', ← hnext]
    split_ifs at hj ⊢ with h1 h2
    · exact ⟨es, hj⟩
    · cases hj
      exact ⟨_, rfl⟩
    · exact h.dir j p es hj
  · rw [hkind] at hj
    rw [hkind', ← hnext]
    split_ifs at hj ⊢ with h1 h2
    · exact hj
    · cases hj
    · exact h.link j target hj
  · rw [entries_create hd hentries] at hl
    rw [entries_create hd' hentries]
    -- an older directory or link was one before
    have hold : i ≠ s.next → s.tree i := fun hi => by
      obtain ⟨k, hk, hkt⟩ := htree
      rw [hkind, if_neg hi] at hk
      split_ifs at hk with h2
      · subst h2
        exact ⟨_, hd, rfl⟩
      · exact ⟨k, hk, hkt⟩
    split_ifs at hl ⊢ with hj
    · subst hj
      rw [List.lookup_append] at hl ⊢
      cases hle : entries.lookup nm with
      | some i' =>
        rw [hle, Option.some_or] at hl
        cases hl
        have hlt : i < s.next := by
          refine hc j (nm, i) ?_
          rw [entries_of_kind hd]
          obtain ⟨l₁, l₂, hle, -⟩ := List.lookup_eq_some_iff.1 hle
          change (nm, i) ∈ entries
          rw [hle]
          simp
        have he := h.entry j nm i
        rw [entries_of_kind hd, entries_of_kind hd'] at he
        have hle' : entries'.lookup nm = some i := he hle (hold (by omega))
        rw [hle', Option.some_or]
      | none =>
        rw [hle, Option.none_or] at hl
        obtain ⟨rfl, rfl⟩ : nm = name ∧ s.next = i := by
          by_cases hnm : nm = name
          · subst hnm
            simpa using hl
          · have hne : (nm == name) = false := by simpa using hnm
            simp [List.lookup_cons, hne] at hl
        obtain ⟨k, hk, hkt⟩ := htree
        rw [hkind, if_pos rfl] at hk
        cases hk
        obtain ⟨rfl, hfree⟩ := hname hkt
        rw [hfree, Option.none_or, List.lookup_cons_self, hnext]
    · refine h.entry j nm i hl (hold ?_)
      rintro rfl
      have hlt : s.next < s.next := by
        refine hc j (nm, s.next) ?_
        obtain ⟨l₁, l₂, hle, -⟩ := List.lookup_eq_some_iff.1 hl
        rw [hle]
        simp
      omega

end Create

/-! ### The coupling -/

/-- The objects are the same, except that files may be other files. -/
def Fs.Like (fs fs' : Fs) : Prop :=
  ∀ j, fs'.kind j = fs.kind j ∨
    ∃ data data', fs.kind j = some (.file data) ∧ fs'.kind j = some (.file data')

theorem like_of_kind {fs fs' : Fs} (h : fs'.kind = fs.kind) : fs.Like fs' :=
  fun j => .inl (congrFun h j)

theorem like_update {fs : Fs} {i : ℕ} {f : Node → Node} (hf : Touches f) :
    fs.Like (fs.update i f) := by
  intro j
  by_cases hj : j = i
  · subst hj
    rw [Fs.kind, node_update, if_pos rfl, Fs.kind]
    cases hx : fs.node j with
    | none => exact .inl rfl
    | some x =>
      have hfx := hf x
      cases hk : x.kind with
      | file data =>
        simp only [hk] at hfx
        obtain ⟨data', hd⟩ := hfx
        exact .inr ⟨data, data', by simp [hk], by simp [hd]⟩
      | dir parent entries =>
        simp only [hk] at hfx
        exact .inl (by simp [hk, hfx])
      | symlink target =>
        simp only [hk] at hfx
        exact .inl (by simp [hk, hfx])
  · rw [Fs.kind, node_update, if_neg hj]
    exact .inl rfl

theorem Fs.Like.tree {fs fs' : Fs} (h : fs.Like fs') {j : ℕ} {k : Kind} (hk : k.isTree) :
    fs'.kind j = some k ↔ fs.kind j = some k := by
  rcases h j with h | ⟨data, data', hd, hd'⟩
  · rw [h]
  · rw [hd, hd']
    constructor <;> intro hk' <;> cases hk' <;> cases hk

theorem Fs.Like.entries {fs fs' : Fs} (h : fs.Like fs') (d : ℕ) :
    fs'.entries d = fs.entries d := by
  rcases h d with h | ⟨data, data', hd, hd'⟩
  · rw [Fs.entries, h, Fs.entries]
  · rw [entries_of_kind hd, entries_of_kind hd']
    rfl

theorem TreeOf.like {s' t' : Fs} (h : TreeOf s t) (hs : s.Like s') (ht : t.Like t') :
    TreeOf s' t' where
  dir d parent entries hd := by
    obtain ⟨entries', hd'⟩ := h.dir d parent entries ((hs.tree rfl).1 hd)
    exact ⟨entries', (ht.tree rfl).2 hd'⟩
  link i target hi := (ht.tree rfl).2 (h.link i target ((hs.tree rfl).1 hi))
  entry d name i hl htree := by
    rw [hs.entries] at hl
    rw [ht.entries]
    obtain ⟨k, hk, hkt⟩ := htree
    exact h.entry d name i hl ⟨k, (hs.tree hkt).1 hk, hkt⟩

/-- Two filesystems with the same directories and symbolic links, in which calls do not fail by
themselves, and the objects from `m` on are the same but for the attributes and the files of
directories. -/
structure Trees (m root : ℕ) (s t : Fs) : Prop where
  clock : s.clock = t.clock
  host : s.host = t.host
  faults_left : s.faults = []
  faults_right : t.faults = []
  next : s.next = t.next
  le : m ≤ s.next
  tree : SameTree s t
  closed_left : s.Closed
  closed_right : t.Closed
  node : ∀ i, m ≤ i →
    Option.Rel (fun x y : Node => x = y ∨ x.kind.isDir ∧ y.kind.isDir) (s.node i) (t.node i)
  own : ∀ i target, m ≤ i → s.kind i ≠ some (.symlink target)
  home : ∃ parent entries, s.kind root = some (.dir parent entries)

variable {m root : ℕ}

theorem rel_symm {x y : Option Node}
    (h : Option.Rel (fun x y : Node => x = y ∨ x.kind.isDir ∧ y.kind.isDir) x y) :
    Option.Rel (fun x y : Node => x = y ∨ x.kind.isDir ∧ y.kind.isDir) y x := by
  cases h with
  | none => exact .none
  | some hxy =>
    rcases hxy with rfl | ⟨hx, hy⟩
    · exact .some (.inl rfl)
    · exact .some (.inr ⟨hy, hx⟩)

theorem Trees.symm (h : Trees m root s t) : Trees m root t s where
  clock := h.clock.symm
  host := h.host.symm
  faults_left := h.faults_right
  faults_right := h.faults_left
  next := h.next.symm
  le := h.next ▸ h.le
  tree := h.tree.symm
  closed_left := h.closed_right
  closed_right := h.closed_left
  node i hi := rel_symm (h.node i hi)
  own i target hi hk := h.own i target hi (h.tree.right.link i target hk)
  home := by
    obtain ⟨parent, entries, hd⟩ := h.home
    obtain ⟨entries', hd'⟩ := h.tree.left.dir root parent entries hd
    exact ⟨parent, entries', hd'⟩

theorem closed_like {fs fs' : Fs} (h : fs.Closed) (hl : fs.Like fs') (hn : fs'.next = fs.next) :
    fs'.Closed := by
  intro d e he
  rw [hl.entries] at he
  rw [hn]
  exact h d e he

/-- An older object of one of the filesystems is changed without becoming another. -/
theorem Trees.change_left {s' : Fs} (h : Trees m root s t) (hk : s'.kind = s.kind)
    (hclock : s'.clock = s.clock) (hhost : s'.host = s.host) (hfaults : s'.faults = s.faults)
    (hnext : s'.next = s.next) (hslash : s'.slash = s.slash)
    (hnode : ∀ i, m ≤ i → s'.node i = s.node i) : Trees m root s' t where
  clock := hclock.trans h.clock
  host := hhost.trans h.host
  faults_left := hfaults.trans h.faults_left
  faults_right := h.faults_right
  next := hnext.trans h.next
  le := hnext ▸ h.le
  tree := ⟨hslash.trans h.tree.slash, h.tree.left.like (like_of_kind hk) (like_of_kind rfl),
    h.tree.right.like (like_of_kind rfl) (like_of_kind hk)⟩
  closed_left := closed_like h.closed_left (like_of_kind hk) hnext
  closed_right := h.closed_right
  node i hi := hnode i hi ▸ h.node i hi
  own i target hi := hk ▸ h.own i target hi
  home := hk ▸ h.home

theorem Trees.access_left (h : Trees m root s t) {i : ℕ} {target : String}
    (hi : s.kind i = some (.symlink target)) : Trees m root (s.access i) t := by
  refine h.change_left (funext (kind_access s i)) rfl rfl rfl rfl rfl fun j hj => ?_
  have hne : j ≠ i := by
    rintro rfl
    exact h.own j target hj hi
  rw [Fs.access, node_update, if_neg hne]

theorem Trees.update (h : Trees m root s t) {i : ℕ} {f : Node → Node} (hf : Touches f) :
    Trees m root (s.update i f) (t.update i f) where
  clock := h.clock
  host := h.host
  faults_left := h.faults_left
  faults_right := h.faults_right
  next := h.next
  le := h.le
  tree := ⟨h.tree.slash, h.tree.left.like (like_update hf) (like_update hf),
    h.tree.right.like (like_update hf) (like_update hf)⟩
  closed_left := closed_like h.closed_left (like_update hf) rfl
  closed_right := closed_like h.closed_right (like_update hf) rfl
  node j hj := by
    rw [node_update, node_update]
    have hnode := h.node j hj
    split_ifs
    · revert hnode
      generalize s.node j = x, t.node j = y
      intro hnode
      cases hnode with
      | none => exact .none
      | @some x y hxy =>
        refine .some ?_
        rcases hxy with rfl | ⟨hx, hy⟩
        · exact .inl rfl
        · have hdir : ∀ x : Node, x.kind.isDir → (f x).kind.isDir := fun x hx => by
            have hfx := hf x
            cases hk : x.kind with
            | file data =>
              rw [hk] at hx
              cases hx
            | dir parent entries =>
              simp only [hk] at hfx
              rw [hfx]
              rfl
            | symlink target =>
              rw [hk] at hx
              cases hx
          exact .inr ⟨hdir x hx, hdir y hy⟩
    · exact hnode
  own j target hj hk := h.own j target hj (((like_update hf).tree rfl).1 hk)
  home := by
    obtain ⟨parent, entries, hd⟩ := h.home
    exact ⟨parent, entries, ((like_update hf).tree rfl).2 hd⟩

/-- Two shares with the same directories. -/
def treeCoupling (m root : ℕ) : Coupling m where
  rel := Trees m root
  same x y := x = y ∨ x.kind.isDir ∧ y.kind.isDir
  same_or h := h
  clock h := h.clock
  host h := h.host
  faults h := h.faults_left.trans h.faults_right.symm
  node h hi := h.node _ hi
  set_clock clock h := ⟨rfl, h.host, h.faults_left, h.faults_right, h.next, h.le, ⟨h.tree.slash,
    h.tree.left.like (like_of_kind rfl) (like_of_kind rfl),
    h.tree.right.like (like_of_kind rfl) (like_of_kind rfl)⟩, h.closed_left, h.closed_right,
    h.node, h.own, h.home⟩
  next_fault {s t} h := ⟨h.clock, h.host, by simp [h.faults_left], by simp [h.faults_right],
    h.next, h.le, ⟨h.tree.slash, h.tree.left.like (like_of_kind rfl) (like_of_kind rfl),
    h.tree.right.like (like_of_kind rfl) (like_of_kind rfl)⟩, h.closed_left, h.closed_right,
    h.node, h.own, h.home⟩
  access_left hk h := h.access_left hk
  access_right hk h := (h.symm.access_left hk).symm
  update h _ hf := h.update hf

/-! ### Creating in both -/

/-- A filesystem after nothing but symbolic links have been read. -/
structure Calm (m root : ℕ) (fs fs' : Fs) : Prop where
  trees : ∀ t, Trees m root fs t → Trees m root fs' t
  kind : fs'.kind = fs.kind
  slash : fs'.slash = fs.slash
  next : fs'.next = fs.next
  faults : fs'.faults = fs.faults
  grows : Grows fs fs'

theorem Calm.refl (fs : Fs) : Calm m root fs fs :=
  ⟨fun _ h => h, rfl, rfl, rfl, rfl, growing.refl fs⟩

theorem Calm.trans {fs fs' fs'' : Fs} (h : Calm m root fs fs') (h' : Calm m root fs' fs'') :
    Calm m root fs fs'' :=
  ⟨fun t ht => h'.trees t (h.trees t ht), h'.kind.trans h.kind, h'.slash.trans h.slash,
    h'.next.trans h.next, h'.faults.trans h.faults, growing.trans h.grows h'.grows⟩

theorem calm_access {fs : Fs} {i : ℕ} {target : String} (h : fs.kind i = some (.symlink target)) :
    Calm m root fs (fs.access i) :=
  ⟨fun _ ht => ht.access_left h, funext (kind_access fs i), rfl, rfl, rfl, grows_access fs i⟩

/-- Reading links. -/
def calming (m root : ℕ) : Frame Fs where
  rel := Calm m root
  refl := Calm.refl
  trans := Calm.trans

theorem calm_resolved (fs : Fs) (base : Base) (path : Path) :
    Calm m root fs (fs.resolved base path) :=
  resolves_of_link (F := calming m root) calm_access base path fs

theorem calm_resolvedParent (fs : Fs) (base : Base) (path : Path) :
    Calm m root fs (fs.resolvedParent base path) := by
  unfold Fs.resolvedParent
  split
  · exact Calm.refl fs
  · exact calm_resolved fs base _

/-- Two filesystems after links have been read. -/
theorem Trees.calm {u v : Fs} (h : Trees m root s t) (hu : Calm m root s u)
    (hv : Calm m root t v) : Trees m root u v :=
  (hv.trees u (hu.trees t h).symm).symm

theorem enter_quiet {fs : Fs} (h : fs.faults = []) : enter fs = .ok () fs := by
  rw [enter_eq, h]
  obtain ⟨node, next, fresh, slash, host, clock, faults⟩ := fs
  subst h
  rfl

/-- Looking at an object in a filesystem in which calls do not fail by themselves. -/
theorem stat_ends (m root : ℕ) {fs : Fs} (hf : fs.faults = []) (base : Base) (path : Path)
    (follow : Bool) :
    Ends (fun n fs' => ∃ i, fs.objectAt base path follow = .ok i ∧ fs.kind i = some n.kind ∧
        Calm m root fs fs')
      (fun _ fs' => (∀ i, fs.objectAt base path follow = .ok i → fs.kind i = none) ∧
        Calm m root fs fs') (stat base path follow fs) := by
  -- the object is looked up among what has not been changed by looking for it
  have hnode : ∀ {i : ℕ} {fs' : Fs}, Calm m root fs fs' →
      Ends (fun n fs'' => fs.kind i = some n.kind ∧ Calm m root fs fs'')
        (fun _ fs'' => fs.kind i = none ∧ Calm m root fs fs'') (nodeOf i fs') := by
    intro i fs' hcalm
    cases hn : fs'.node i with
    | some n =>
      rw [nodeOf_of_some hn]
      exact ⟨by rw [← hcalm.kind, Fs.kind, hn]; rfl, hcalm⟩
    | none =>
      rw [nodeOf_of_none hn]
      exact ⟨by rw [← hcalm.kind, Fs.kind, hn]; rfl, hcalm⟩
  have hfound : ∀ {m' : FsM ℕ} {fs' : Fs}, Calm m root fs fs' →
      m' fs = result (fs.objectAt base path follow) fs' →
      Ends (fun n fs' => ∃ i, fs.objectAt base path follow = .ok i ∧ fs.kind i = some n.kind ∧
          Calm m root fs fs')
        (fun _ fs' => (∀ i, fs.objectAt base path follow = .ok i → fs.kind i = none) ∧
          Calm m root fs fs') ((m' >>= nodeOf) fs) := by
    intro m' fs' hcalm hrun
    cases ho : fs.objectAt base path follow with
    | ok i =>
      rw [ho] at hrun
      rw [bind_ok hrun]
      refine (hnode hcalm).mono (fun n fs'' h => ⟨i, rfl, h⟩) fun _ fs'' h => ⟨?_, h.2⟩
      rintro j hj
      cases hj
      exact h.1
    | error e =>
      rw [ho] at hrun
      rw [bind_error hrun]
      exact ⟨fun i hi => absurd hi (by simp), hcalm⟩
  rw [stat, bind_ok (enter_quiet hf)]
  cases follow with
  | true => exact hfound (calm_resolved fs base path) (resolveIno_eq fs base path)
  | false => exact hfound (calm_resolvedParent fs base path) (lookupLast_eq fs base path)

/-- A creation in a filesystem in which calls do not fail by themselves. -/
theorem createNew_ends (m root : ℕ) {fs : Fs} (hf : fs.faults = []) (base : Base) (path : Path)
    (kind : ℕ → Kind) (mode : ℕ) :
    Ends (fun i fs' => ∃ d name u, fs.vacantAt base path = .ok (d, name) ∧ Calm m root fs u ∧
        i = u.next ∧ fs' = u.create d name (kind d) mode)
      (fun e fs' => fs.vacantAt base path = .error e ∧ Calm m root fs fs')
      ((enter >>= fun _ => createNew base path kind mode) fs) := by
  rw [bind_ok (enter_quiet hf)]
  cases hv : fs.vacantAt base path with
  | ok p =>
    obtain ⟨d, name⟩ := p
    rw [createNew_ok hv]
    exact ⟨d, name, _, rfl, calm_resolvedParent fs base path, rfl, rfl⟩
  | error e =>
    rw [createNew_error hv]
    exact ⟨rfl, calm_resolvedParent fs base path⟩

/-- The same object is created in the same directory, under the same name if it is a directory. -/
theorem Trees.create (h : Trees m root s t) {d parent parent' : ℕ}
    {entries entries' : List (String × ℕ)} (hd : s.kind d = some (.dir parent entries))
    (hd' : t.kind d = some (.dir parent' entries')) {name name' : String} {kind : Kind}
    (hentries : kind.entries = []) (hlink : ∀ target, kind ≠ .symlink target)
    (hname : kind.isTree → name = name' ∧ entries.lookup name = none ∧ entries'.lookup name = none)
    (mode : ℕ) : Trees m root (s.create d name kind mode) (t.create d name' kind mode) := by
  obtain rfl : parent' = parent := by
    obtain ⟨es, he⟩ := h.tree.left.dir d parent entries hd
    rw [hd'] at he
    cases he
    rfl
  have hkind := kind_create hd name kind mode
  -- the directory is older than the object
  have hne : d ≠ s.next := by
    rintro rfl
    rw [kind_next] at hd
    cases hd
  have hnode : ∀ (fs : Fs) (name : String) (i : ℕ), i ≠ d →
      (fs.create d name kind mode).node i =
        if i = fs.next then some ⟨kind, fs.newAttr mode⟩ else fs.node i := fun fs name i hi => by
    rw [Fs.create, Fs.setEntries, node_update, if_neg hi]
    rfl
  refine ⟨h.clock, h.host, h.faults_left, h.faults_right, congrArg (· + 1) h.next,
    le_trans h.le (Nat.le_succ _), ⟨h.tree.slash, ?_, ?_⟩,
    closed_create h.closed_left hd hentries mode, closed_create h.closed_right hd' hentries mode,
    fun i hi => ?_, fun i target hi hk => ?_, ?_⟩
  · exact h.tree.left.create hd hd' h.next h.closed_left hentries
      (fun ht => ⟨(hname ht).1, (hname ht).2.2⟩) mode mode
  · exact h.tree.right.create hd' hd h.next.symm h.closed_right hentries
      (fun ht => ⟨(hname ht).1.symm, (hname ht).1 ▸ (hname ht).2.1⟩) mode mode
  -- objects are the same or both directories
  · by_cases hid : i = d
    · subst hid
      have hdirs : ∀ {fs : Fs} {p : ℕ} {es : List (String × ℕ)} (name : String),
          fs.kind i = some (.dir p es) → i ≠ fs.next →
          ∃ x, (fs.create i name kind mode).node i = some x ∧ x.kind.isDir := by
        intro fs p es name hk hn
        have hk' : (fs.create i name kind mode).kind i = some (.dir p (es ++ [(name, fs.next)])) := by
          rw [kind_create hk, if_neg hn, if_pos rfl]
        obtain ⟨x, hx, hxk⟩ := Option.map_eq_some_iff.1 hk'
        exact ⟨x, hx, by rw [hxk]; rfl⟩
      obtain ⟨x, hx, hxd⟩ := hdirs name hd hne
      obtain ⟨y, hy, hyd⟩ := hdirs name' hd' (h.next ▸ hne)
      rw [hx, hy]
      exact .some (.inr ⟨hxd, hyd⟩)
    · rw [hnode s name i hid, hnode t name' i hid, ← h.next]
      split_ifs
      · have hattr : s.newAttr mode = t.newAttr mode := by
          simp only [Fs.newAttr, h.host, h.clock]
        rw [hattr]
        exact .some (.inl rfl)
      · exact h.node i hi
  · rw [hkind] at hk
    split_ifs at hk
    · cases hk
      exact hlink target rfl
    · cases hk
    · exact h.own i target hi hk
  · obtain ⟨p, es, hr⟩ := h.home
    rw [hkind]
    split_ifs with h1 h2
    · subst h1
      rw [kind_next] at hr
      cases hr
    · exact ⟨_, _, rfl⟩
    · exact ⟨p, es, hr⟩

end Posix
