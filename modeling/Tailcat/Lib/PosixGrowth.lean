import Tailcat.Lib.PosixReads

/-!
# Filesystems that only grow

Without removing and renaming, objects stay what they are and directories only gain entries
(`growing`), and so a path that leads to an object goes on leading to it (`walk_found`).

`preserving m` is the frame of the calls that, besides, leave the objects below `m` as they are.
`owning m` is that of the calls that create nothing either: it is kept by changing the objects
from `m` on, through an open file or at a path that leads to one (`keeps_at`).
-/

namespace Posix

open Program

/-! ### Growth -/

/-- What an object may become while entries are only added. -/
def Kind.Extends : Kind → Kind → Prop
  | .file _, .file _ => True
  | .dir parent entries, .dir parent' entries' => parent = parent' ∧ entries <+: entries'
  | .symlink target, .symlink target' => target = target'
  | _, _ => False

theorem Kind.Extends.refl (k : Kind) : k.Extends k := by
  cases k <;> simp [Kind.Extends]

theorem Kind.Extends.trans {k k' k'' : Kind} (h : k.Extends k') (h' : k'.Extends k'') :
    k.Extends k'' := by
  cases k <;> cases k' <;> try exact h.elim
  all_goals cases k'' <;> try exact h'.elim
  · trivial
  · exact ⟨h.1.trans h'.1, h.2.trans h'.2⟩
  · exact Eq.trans h h'

/-- Nothing is removed or replaced. -/
structure Grows (fs fs' : Fs) : Prop where
  next : fs.next ≤ fs'.next
  slash : fs'.slash = fs.slash
  host : fs'.host = fs.host
  kind : ∀ i k, fs.kind i = some k → ∃ k', fs'.kind i = some k' ∧ k.Extends k'

/-- Nothing is removed or replaced. -/
def growing : Frame Fs where
  rel := Grows
  refl fs := ⟨le_refl _, rfl, rfl, fun _ k h => ⟨k, h, Kind.Extends.refl k⟩⟩
  trans h h' := {
    next := le_trans h.next h'.next
    slash := h'.slash.trans h.slash
    host := h'.host.trans h.host
    kind := fun i k hk => by
      obtain ⟨k', hk', he⟩ := h.kind i k hk
      obtain ⟨k'', hk'', he'⟩ := h'.kind i k' hk'
      exact ⟨k'', hk'', he.trans he'⟩ }

theorem lookup_extended {es es' : List (String × ℕ)} (h : es <+: es') {name : String} {i : ℕ}
    (hi : es.lookup name = some i) : es'.lookup name = some i := by
  obtain ⟨more, rfl⟩ := h
  rw [List.lookup_append, hi, Option.some_or]

section Walk

variable {fs fs' : Fs} {base : Base}

theorem walkFrom_found (hg : Grows fs fs') {jump jump' : ℕ → Path → Walked}
    (hj : ∀ cur path links i, jump cur path = (links, .ok (.found i)) →
      jump' cur path = (links, .ok (.found i))) {cur : ℕ} {path : Path} {links : List ℕ} {i : ℕ}
    (h : walkFrom fs base jump cur path = (links, .ok (.found i))) :
    walkFrom fs' base jump' cur path = (links, .ok (.found i)) := by
  induction path generalizing cur with
  | nil => exact h
  | cons name rest ih =>
    by_cases hdir : ∃ parent entries, fs.kind cur = some (.dir parent entries)
    swap
    · rw [walkFrom_notdir fun p es he => hdir ⟨p, es, he⟩] at h
      cases h
    obtain ⟨parent, entries, hk⟩ := hdir
    obtain ⟨k', hk', he⟩ := hg.kind cur _ hk
    obtain _ | ⟨parent', entries'⟩ | _ := k' <;> try exact he.elim
    obtain ⟨rfl, hp⟩ := he
    by_cases hd : isDot name
    · rw [walkFrom_dot hk hd] at h
      rw [walkFrom_dot hk' hd]
      exact ih h
    by_cases hu : name = ".."
    · subst hu
      rw [walkFrom_up hk] at h
      rw [walkFrom_up hk']
      split_ifs at h ⊢
      · cases h
      · exact ih h
    rw [walkFrom_name hk hd hu] at h
    rw [walkFrom_name hk' hd hu]
    cases hl : entries.lookup name with
    | none =>
      simp only [hl, absent] at h
      split_ifs at h <;> cases h
    | some j =>
      simp only [hl] at h
      simp only [lookup_extended hp hl]
      cases hkj : fs.kind j with
      | none =>
        rw [hkj] at h
        cases h
      | some kj =>
        obtain ⟨kj', hkj', hej⟩ := hg.kind j _ hkj
        rw [hkj] at h
        rw [hkj']
        obtain data | ⟨p, es⟩ | target := kj <;>
          obtain data' | ⟨p', es'⟩ | target' := kj' <;> try exact hej.elim
        · exact ih h
        · exact ih h
        · obtain rfl : target = target' := hej
          -- a link has the same text as before
          exact follow_imp hg.slash (by simp) (fun cur target links hw => hj _ _ _ _ hw) h

/-- A path goes on leading where it led, through the same links. -/
theorem walk_found (hg : Grows fs fs') {n cur : ℕ} {path : Path} {links : List ℕ} {i : ℕ}
    (h : walk fs base n cur path = (links, .ok (.found i))) :
    walk fs' base n cur path = (links, .ok (.found i)) := by
  induction n generalizing cur path links i with
  | zero => exact walkFrom_found hg (fun _ _ _ _ h => by cases h) h
  | succ n ih => exact walkFrom_found hg (fun _ _ _ _ h => ih h) h

end Walk

/-! ### Leaving the old objects alone -/

/-- What may become of an object that was there before: a file stays exactly as it is, so does a
symbolic link unless `links` may be read and reads are recorded, and a directory unless it gains
entries, which changes its times. -/
def Node.Preserved (host : Host) (links : Bool) (n n' : Node) : Prop :=
  match n.kind with
  | .file _ => n' = n
  | .symlink _ =>
    n'.unread = n.unread ∧ ((∀ a t, host.records a t = false) ∨ links = false → n' = n)
  | .dir parent entries =>
    ∃ entries', n'.kind = .dir parent entries' ∧ entries <+: entries' ∧
      n'.attr.mode = n.attr.mode ∧ n'.attr.uid = n.attr.uid ∧ n'.attr.gid = n.attr.gid ∧
      n'.attr.atime = n.attr.atime ∧ (entries' = entries → n' = n)

variable {host : Host} {links : Bool} {n n' n'' : Node}

theorem Node.Preserved.refl (host : Host) (links : Bool) (n : Node) :
    n.Preserved host links n := by
  unfold Preserved
  split
  · rfl
  · exact ⟨rfl, fun _ => rfl⟩
  · exact ⟨_, ‹_›, List.prefix_refl _, rfl, rfl, rfl, rfl, fun _ => rfl⟩

theorem Node.kind_of_unread (h : n.unread = n'.unread) : n.kind = n'.kind := by
  have hk := congrArg Node.kind h
  exact hk

theorem Node.Preserved.trans (h : n.Preserved host links n')
    (h' : n'.Preserved host links n'') : n.Preserved host links n'' := by
  unfold Preserved at h ⊢
  split at h
  · obtain rfl := h
    unfold Preserved at h'
    simpa only [‹_ = Kind.file _›] using h'
  · obtain ⟨hu, hq⟩ := h
    have hk := Node.kind_of_unread hu
    unfold Preserved at h'
    simp only [hk, ‹n.kind = _›] at h'
    exact ⟨h'.1.trans hu, fun hr => (h'.2 hr).trans (hq hr)⟩
  · obtain ⟨entries', hk, hp, hm, hui, hgi, hat, hsame⟩ := h
    unfold Preserved at h'
    simp only [hk] at h'
    obtain ⟨entries'', hk', hp', hm', hui', hgi', hat', hsame'⟩ := h'
    refine ⟨entries'', hk', hp.trans hp', hm'.trans hm, hui'.trans hui, hgi'.trans hgi,
      hat'.trans hat, fun he => ?_⟩
    -- without new entries in the end there were none in between
    have he' : entries' = _ := (hp.eq_of_length_le (he ▸ hp'.length_le)).symm
    exact (hsame' (he.trans he'.symm)).trans (hsame he')

/-- The objects below `m` are left as they are. -/
structure Preserves (m : ℕ) (links : Bool) (fs fs' : Fs) : Prop extends Grows fs fs' where
  old : ∀ i < m, ∀ x, fs.node i = some x →
    ∃ x', fs'.node i = some x' ∧ x.Preserved fs.host links x'

/-- The objects below `m` are left as they are, where `m` is at most the next number. -/
def preserving (m : ℕ) (links : Bool) : Frame Fs where
  rel fs fs' := m ≤ fs.next → Preserves m links fs fs'
  refl fs _ := ⟨growing.refl fs, fun _ _ x hx => ⟨x, hx, Node.Preserved.refl _ _ x⟩⟩
  trans h h' hm := by
    have h := h hm
    have h' := h' (le_trans hm h.next)
    refine ⟨growing.trans h.toGrows h'.toGrows, fun i hi x hx => ?_⟩
    obtain ⟨x', hx', hp⟩ := h.old i hi x hx
    obtain ⟨x'', hx'', hp'⟩ := h'.old i hi x' hx'
    rw [h.host] at hp'
    exact ⟨x'', hx'', hp.trans hp'⟩

/-! ### Elementary changes -/

section Elementary

variable {m i : ℕ} {fs : Fs}

theorem node_update (fs : Fs) (i : ℕ) (f : Node → Node) (j : ℕ) :
    (fs.update i f).node j = if j = i then (fs.node j).map f else fs.node j := rfl

/-- Changing one object, which must be preserved if it is an old one. -/
theorem preserves_update {f : Node → Node}
    (hk : ∀ x, fs.node i = some x → x.kind.Extends (f x).kind)
    (hp : ∀ x, fs.node i = some x → i < m → x.Preserved fs.host links (f x)) :
    Preserves m links fs (fs.update i f) where
  next := le_refl _
  slash := rfl
  host := rfl
  kind j k hj := by
    obtain ⟨x, hx, rfl⟩ := Option.map_eq_some_iff.1 hj
    by_cases hji : j = i
    · subst hji
      exact ⟨(f x).kind, by simp [Fs.kind, node_update, hx], hk x hx⟩
    · exact ⟨x.kind, by simp [Fs.kind, node_update, hji, hx], Kind.Extends.refl _⟩
  old j hj x hx := by
    by_cases hji : j = i
    · subst hji
      exact ⟨f x, by simp [node_update, hx], hp x hx hj⟩
    · exact ⟨x, by simp [node_update, hji, hx], Node.Preserved.refl _ _ x⟩

/-- Reading a symbolic link. -/
theorem preserves_access {target : String} (hi : fs.kind i = some (.symlink target)) :
    Preserves m true fs (fs.access i) := by
  refine preserves_update (fun x _ => ?_) fun x hx _ => ?_
  · rw [accessed_kind]
    exact Kind.Extends.refl _
  · have hk : x.kind = .symlink target := by
      rw [Fs.kind, hx] at hi
      exact Option.some.inj hi
    simp only [Node.Preserved, hk]
    refine ⟨accessed_unread _ _ x, fun hr => ?_⟩
    rcases hr with hr | hr
    · rw [Fs.accessed, hr, if_neg (by decide)]
    · exact absurd hr (by decide)

theorem preserves_add (fs : Fs) (x : Node) : Preserves m links fs (fs.add x) := by
  have hnode : ∀ j y, fs.node j = some y → (fs.add x).node j = some y := by
    intro j y hy
    have hj : j ≠ fs.next := by
      rintro rfl
      rw [fs.fresh _ (le_refl _)] at hy
      cases hy
    simp only [Fs.add, if_neg hj, hy]
  refine ⟨⟨Nat.le_succ _, rfl, rfl, fun j k hk => ?_⟩, fun j _ y hy => ?_⟩
  · obtain ⟨y, hy, rfl⟩ := Option.map_eq_some_iff.1 hk
    exact ⟨y.kind, by rw [Fs.kind, hnode j y hy]; rfl, Kind.Extends.refl _⟩
  · exact ⟨y, hnode j y hy, Node.Preserved.refl _ _ y⟩

/-- A directory gains an entry. -/
theorem preserves_addEntry (fs : Fs) (d : ℕ) (entry : String × ℕ) :
    Preserves m links fs (fs.setEntries d fun entries => entries ++ [entry]) := by
  refine preserves_update (fun x _ => ?_) fun x _ _ => ?_
  · cases hk : x.kind with
    | file data => simp [hk, Kind.Extends]
    | symlink target => simp [hk, Kind.Extends]
    | dir parent entries => simp [Kind.Extends, Fs.changed]
  · cases hk : x.kind with
    | file data => simp [Node.Preserved, hk]
    | symlink target => simp [Node.Preserved, hk]
    | dir parent entries => simp [Node.Preserved, hk, Fs.changed]

/-- Creating an object. -/
theorem preserves_create (hm : m ≤ fs.next) (d : ℕ) (name : String) (kind : Kind) (mode : ℕ) :
    Preserves m links fs (fs.create d name kind mode) :=
  (preserving m links).trans (fun _ => preserves_add fs ⟨kind, fs.newAttr mode⟩)
    (fun _ => preserves_addEntry _ d (name, fs.next)) hm

theorem grows_create (fs : Fs) (d : ℕ) (name : String) (kind : Kind) (mode : ℕ) :
    Grows fs (fs.create d name kind mode) := by
  have h : Preserves 0 true fs (fs.create d name kind mode) :=
    preserves_create (Nat.zero_le _) d name kind mode
  exact h.toGrows

end Elementary

/-! ### Changing one's own objects -/

/-- The entries of a directory. -/
def Kind.entries : Kind → List (String × ℕ)
  | .dir _ entries => entries
  | _ => []

/-- The entries of a directory. -/
def Fs.entries (fs : Fs) (d : ℕ) : List (String × ℕ) :=
  match fs.kind d with
  | some k => k.entries
  | none => []

/-- The objects below `m` are left as they are, and no directory changes. -/
structure Owns (m : ℕ) (links : Bool) (fs fs' : Fs) : Prop extends Preserves m links fs fs' where
  same_next : fs'.next = fs.next
  same_entries : ∀ d, fs'.entries d = fs.entries d

/-- Nothing happens to the objects. -/
theorem owns_of_node {m : ℕ} {fs fs' : Fs} (hnode : fs'.node = fs.node)
    (hnext : fs'.next = fs.next) (hslash : fs'.slash = fs.slash) (hhost : fs'.host = fs.host) :
    Owns m links fs fs' := by
  have hkind : fs'.kind = fs.kind := by
    funext i
    simp only [Fs.kind, hnode]
  refine ⟨⟨⟨hnext ▸ le_refl _, hslash, hhost, fun i k hk => ?_⟩, fun i _ x hx => ?_⟩, hnext,
    fun d => ?_⟩
  · exact ⟨k, hkind ▸ hk, Kind.Extends.refl k⟩
  · exact ⟨x, hnode ▸ hx, Node.Preserved.refl _ _ x⟩
  · simp only [Fs.entries, hkind]

/-- The path leads to an object from `m` on; without passing through links, and in one step,
unless `links` may be read. -/
def Leads (m : ℕ) (links : Bool) (base : Base) (fs : Fs) (path : Path) : Prop :=
  ∃ i followed, m ≤ i ∧
    walk fs base maxLinks (base.start fs) path = (followed, .ok (.found i)) ∧
    (links = false → followed = [] ∧ path.dropLast = [])

theorem Leads.mono {m : ℕ} {base : Base} {fs fs' : Fs} {path : Path}
    (h : Leads m links base fs path) (hg : Grows fs fs') : Leads m links base fs' path := by
  obtain ⟨i, followed, hi, hw, hl⟩ := h
  refine ⟨i, followed, hi, ?_, hl⟩
  have hs : base.start fs' = base.start fs := by
    cases base with
    | within root => rfl
    | ambient => exact hg.slash
  rw [hs]
  exact walk_found hg hw

theorem Leads.le {m n : ℕ} {base : Base} {fs : Fs} {path : Path} (hmn : m ≤ n)
    (h : Leads n links base fs path) : Leads m links base fs path := by
  obtain ⟨i, followed, hi, hw⟩ := h
  exact ⟨i, followed, le_trans hmn hi, hw⟩

/-- As long as some paths lead to objects from `m` on, only such objects are changed. -/
def owning (m : ℕ) (links : Bool) (base : Base) (paths : List Path) : Frame Fs where
  rel fs fs' := m ≤ fs.next → (∀ a ∈ paths, Leads m links base fs a) → Owns m links fs fs'
  refl fs _ _ := owns_of_node rfl rfl rfl rfl
  trans {s t u} h h' hm hp := by
    have h := h hm hp
    have h' := h' (le_trans hm h.next) fun a ha => (hp a ha).mono h.toGrows
    exact ⟨(preserving m links).trans (fun _ => h.toPreserves) (fun _ => h'.toPreserves) hm,
      h'.same_next.trans h.same_next, fun d => (h'.same_entries d).trans (h.same_entries d)⟩

theorem Owns.trans {m : ℕ} {fs fs' fs'' : Fs} (hm : m ≤ fs.next) (h : Owns m links fs fs')
    (h' : Owns m links fs' fs'') : Owns m links fs fs'' :=
  (owning m links .ambient []).trans (fun _ _ => h) (fun _ _ => h') hm (by simp)

section Owning

variable {m i : ℕ} {base : Base} {path : Path} {paths : List Path} {α : Type}

theorem owns_update {fs : Fs} {f : Node → Node}
    (hk : ∀ x, fs.node i = some x →
      x.kind.Extends (f x).kind ∧ (f x).kind.entries = x.kind.entries)
    (hp : ∀ x, fs.node i = some x → i < m → x.Preserved fs.host links (f x)) :
    Owns m links fs (fs.update i f) := by
  refine ⟨preserves_update (fun x hx => (hk x hx).1) hp, rfl, fun d => ?_⟩
  by_cases hd : d = i
  · subst hd
    simp only [Fs.entries, Fs.kind, node_update, if_true]
    cases hx : fs.node d with
    | none => rfl
    | some x => exact (hk x hx).2
  · simp only [Fs.entries, Fs.kind, node_update, if_neg hd]

theorem pathFrame_owning : PathFrame (owning m links base paths) where
  faults _ _ _ _ := owns_of_node rfl rfl rfl rfl
  clock _ _ _ _ := owns_of_node rfl rfl rfl rfl

/-- Where links may be read, any path may be resolved. -/
theorem resolves_owning (base' : Base) (path : Path) :
    Resolves (owning m true base paths) base' path :=
  resolves_of_link (fun h _ _ => by
    refine ⟨preserves_access h, rfl, fun d => ?_⟩
    rw [Fs.entries, Fs.entries, kind_access]) base' path

/-- A path that leads to an object from `m` on may be resolved. -/
theorem resolves_mem (h : path ∈ paths) : Resolves (owning m links base paths) base path := by
  cases links with
  | true => exact resolves_owning base path
  | false =>
    intro fs hm hp
    obtain ⟨i, followed, -, hw, hl⟩ := hp path h
    have hsame : fs.resolved base path = fs := by
      rw [Fs.resolved, hw, (hl rfl).1]
      rfl
    rw [hsame]
    exact owns_of_node rfl rfl rfl rfl

/-- So may the path of its directory. -/
theorem resolves_parent (h : path ∈ paths) :
    Resolves (owning m links base paths) base path.dropLast := by
  cases links with
  | true => exact resolves_owning base _
  | false =>
    intro fs hm hp
    obtain ⟨i, followed, -, hw, hl⟩ := hp path h
    have hnil : Resolves (owning m false base paths) base [] := resolves_nil base
    rw [(hl rfl).2]
    exact hnil fs hm hp

/-- A change of an object from `m` on that keeps it what it is. -/
theorem owning_update (hi : m ≤ i) {fs : Fs} {f : Node → Node}
    (hk : ∀ x, x.kind.Extends (f x).kind ∧ (f x).kind.entries = x.kind.entries) :
    (owning m links base paths).rel fs (fs.update i f) :=
  fun _ _ => owns_update (fun x _ => hk x) fun _ _ hlt => absurd hi (by omega)

theorem owning_setAttr (hi : m ≤ i) (f : Attr → Attr) (fs : Fs) :
    (owning m links base paths).rel fs (fs.setAttr i f) :=
  owning_update hi fun _ => ⟨Kind.Extends.refl _, rfl⟩

theorem owning_setLen (hi : m ≤ i) (len : ℕ) (fs : Fs) :
    (owning m links base paths).rel fs (fs.setLen i len) := by
  refine owning_update hi fun x => ?_
  cases hk : x.kind with
  | file data => exact ⟨trivial, rfl⟩
  | dir parent entries => simp [hk, Kind.Extends]
  | symlink target => simp [hk, Kind.Extends]

theorem owning_put (hi : m ≤ i) (append : Bool) (offset : ℕ) (bytes : List UInt8) (fs : Fs) :
    (owning m links base paths).rel fs (fs.put i append offset bytes) := by
  by_cases hb : bytes = []
  · rw [Fs.put, if_pos hb]
    exact (owning m links base paths).refl fs
  · rw [Fs.put, if_neg hb]
    refine owning_update hi fun x => ?_
    cases hk : x.kind with
    | file data => exact ⟨trivial, rfl⟩
    | dir parent entries => simp [hk, Kind.Extends]
    | symlink target => simp [hk, Kind.Extends]

theorem keeps_write (hi : m ≤ i) (append : Bool) (offset : ℕ) (bytes : List UInt8) :
    (owning m links base paths).Keeps (write i append offset bytes) :=
  Frame.Keeps.require.bind fun _ => (keeps_nextFault pathFrame_owning).bind fun fault => by
    cases fault with
    | none => exact Frame.Keeps.modify (owning_put hi append offset bytes)
    | some fault =>
      exact (Frame.Keeps.modify (owning_put hi append offset _)).bind fun _ => Frame.Keeps.throw _

theorem keeps_fchmod (hi : m ≤ i) (mode : ℕ) :
    (owning m links base paths).Keeps (fchmod i mode) :=
  (keeps_enter pathFrame_owning).bind fun _ => Frame.Keeps.modify (owning_setAttr hi _)

theorem keeps_futimes (hi : m ≤ i) (atime mtime : Option ℤ) :
    (owning m links base paths).Keeps (futimes i atime mtime) :=
  (keeps_enter pathFrame_owning).bind fun _ => Frame.Keeps.modify (owning_setAttr hi _)

theorem keeps_ftruncate (hi : m ≤ i) (len : ℕ) :
    (owning m links base paths).Keeps (ftruncate i len) :=
  Frame.Keeps.require.bind fun _ => (keeps_enter pathFrame_owning).bind fun _ =>
    (keeps_nodeOf i).bind fun n => by
      split
      · exact Frame.Keeps.modify (owning_setLen hi len)
      · exact Frame.Keeps.throw _

/-- What is done at a path that leads to an object from `m` on is done to such an object. -/
theorem keeps_at {f : ℕ → FsM α} (hf : ∀ i, m ≤ i → (owning m links base paths).Keeps (f i))
    (hpath : path ∈ paths) : (owning m links base paths).Keeps (resolveIno base path >>= f) := by
  intro fs hm hp
  obtain ⟨i, followed, hi, hw, -⟩ := hp path hpath
  have hr : resolveIno base path fs = .ok i (fs.resolved base path) := resolveIno_ok (by rw [hw])
  rw [bind_ok hr]
  exact (owning m links base paths).trans (resolves_mem hpath fs) (hf i hi _) hm hp

/-- Opening without creating answers with the object the path leads to. -/
theorem openFile_answer {fs : Fs} {o : OpenOptions} (hc : o.create = false)
    (hn : o.createNew = false) (mode : ℕ) :
    Ends (fun i _ => (walk fs base maxLinks (base.start fs) path).2 = .ok (.found i))
      (fun _ _ => True) (openFile base path o mode fs) := by
  unfold openFile
  refine Ends.bind (P := fun _ fs₁ => fs₁ = fs) (Ends.require (fun _ => rfl) fun _ => trivial)
    fun _ fs₁ h => ?_
  subst h
  have hkind : Fs.kind { fs₁ with faults := fs₁.faults.tail } = fs₁.kind := rfl
  have hwalk : walk { fs₁ with faults := fs₁.faults.tail } base maxLinks =
      walk fs₁ base maxLinks := walk_congr hkind rfl maxLinks
  refine Ends.bind (P := fun _ fs₂ => fs₂ = { fs₁ with faults := fs₁.faults.tail }) ?_
    fun _ fs₂ h => ?_
  · rw [enter_eq]
    cases fs₁.faults.headD none with
    | none => rfl
    | some fault => trivial
  subst h
  rw [hn, if_neg (by decide)]
  refine Ends.bind (P := fun target _ =>
    (walk fs₁ base maxLinks (base.start fs₁) path).2 = .ok target) ?_ fun target fs₂ h => ?_
  · have hstart : base.start { fs₁ with faults := fs₁.faults.tail } = base.start fs₁ := by
      cases base <;> rfl
    rw [resolve_eq, hwalk, hstart]
    cases (walk fs₁ base maxLinks (base.start fs₁) path).2 with
    | ok target => rfl
    | error e => trivial
  cases target with
  | missing d name =>
    simp only [hc]
    trivial
  | found i =>
    refine Ends.bind (Ends.trivial _) fun n fs₃ _ => ?_
    cases n.kind with
    | dir parent entries =>
      exact Ends.bind (Ends.trivial _) fun _ _ _ => Ends.pure h
    | symlink target => trivial
    | file data =>
      exact Ends.bind (Ends.trivial _) fun _ _ _ => Ends.pure h

/-- Setting the length at a path that leads to an object from `m` on. -/
theorem keeps_truncate (hpath : path ∈ paths) {o : OpenOptions} (hc : o.create = false)
    (ht : o.truncate = false) (hn : o.createNew = false) (mode len : ℕ) :
    (owning m links base paths).Keeps (openFile base path o mode >>= fun i => ftruncate i len) := by
  intro fs hm hp
  have hopen : (owning m links base paths).rel fs (after (openFile base path o mode fs)) :=
    keeps_openFile pathFrame_owning (resolves_mem hpath) hc ht hn mode fs
  have hanswer : Ends (fun i _ => (walk fs base maxLinks (base.start fs) path).2 = .ok (.found i))
      (fun _ _ => True) (openFile base path o mode fs) := openFile_answer hc hn mode
  cases h : openFile base path o mode fs with
  | error e fs' =>
    rw [bind_error h]
    rw [h] at hopen
    exact hopen hm hp
  | ok i fs' =>
    rw [h] at hopen hanswer
    obtain ⟨j, followed, hj, hw, -⟩ := hp path hpath
    obtain rfl : j = i := by
      rw [hw] at hanswer
      cases hanswer
      rfl
    rw [bind_ok h]
    exact (owning m links base paths).trans hopen (keeps_ftruncate hj len fs') hm hp

end Owning

end Posix
