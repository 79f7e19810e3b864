import Tailcat.Lib.PosixGrowth
import Mathlib.Data.List.Basic

/-!
# Creating objects

`Made` says what an exclusive creation does: the object is the only new one, its name was free in
its directory, its path leads to it, and the older objects are left as they are.  Creating a file
(`openFile_makes`) or a directory (`mkdir_makes`) does just that, or it fails and changes nothing
(`Owns`).

An exclusive creation is the call that a drop box rests on, so it is stated in full.  A name is
vacant if the path leads to a directory without it (`Fs.vacantAt`).  Then the new object gets the
number `fs.next`, which nothing had, an entry is added to the directory, and everything else is as
before; otherwise the call answers an error, and only access times may have changed (`Unmade`).

The parameter `links` says whether symbolic links may be on the way.  Without them the new object is
an entry of the base itself, as what a drop box makes is.
-/

namespace Posix

open Program

/-- An object was made at a path, under a name that was free. -/
structure Made (m : ℕ) (links : Bool) (base : Base) (path : Path) (fs fs' : Fs) : Prop
    extends Preserves m links fs fs' where
  one : fs'.next = fs.next + 1
  entry : ∃ d name, path.getLast? = some name ∧ fs.dirAt base path.dropLast = .ok d ∧
    (∀ j, (name, j) ∉ fs.entries d) ∧ fs'.entries d = fs.entries d ++ [(name, fs.next)] ∧
    ∀ d' ≠ d, fs'.entries d' = fs.entries d'
  leads : Leads fs.next links base fs' path

section

variable {fs fs' : Fs} {base : Base} {path : Path} {d m : ℕ} {name : String}
  {links : Bool}

theorem entries_of_kind {k : Kind} (h : fs.kind d = some k) : fs.entries d = k.entries := by
  rw [Fs.entries, h]

theorem kind_next (fs : Fs) : fs.kind fs.next = none := by
  rw [Fs.kind, fs.fresh _ (le_refl _), Option.map_none]

/-- What a free entry is. -/
theorem of_vacantAt (h : fs.vacantAt base path = .ok (d, name)) :
    path = path.dropLast ++ [name] ∧ path.getLast? = some name ∧
      fs.dirAt base path.dropLast = .ok d ∧ isDot name = false ∧ fs.child d name = none := by
  unfold Fs.vacantAt splitLast at h
  cases hl : path.getLast? with
  | none => simp [hl] at h
  | some last =>
    simp only [hl, Option.map_some] at h
    cases hd : fs.dirAt base path.dropLast with
    | error e => simp [hd] at h
    | ok d' =>
      simp only [hd] at h
      split_ifs at h with hfree
      cases h
      exact ⟨(List.dropLast_append_getLast? _ hl).symm, rfl, rfl, hfree.1, hfree.2⟩

/-- The name of a free entry is not among the entries, nor the parent's. -/
theorem lookup_of_vacantAt (h : fs.vacantAt base path = .ok (d, name)) {parent : ℕ}
    {entries : List (String × ℕ)} (hd : fs.kind d = some (.dir parent entries)) :
    name ≠ ".." ∧ entries.lookup name = none := by
  obtain ⟨-, -, -, -, hchild⟩ := of_vacantAt h
  have hup : name ≠ ".." := by
    rintro rfl
    simp [Fs.child, hd] at hchild
  exact ⟨hup, by simpa [Fs.child, hd, hup] using hchild⟩

/-- What the directory at a path is. -/
theorem of_dirAt (h : fs.dirAt base path = .ok d) :
    (walk fs base maxLinks (base.start fs) path).2 = .ok (.found d) ∧
      ∃ parent entries, fs.kind d = some (.dir parent entries) := by
  unfold Fs.dirAt at h
  split at h
  · rename_i i hw
    split at h
    · rename_i hk
      cases h
      exact ⟨hw, _, _, hk⟩
    · cases h
  · cases h
  · cases h

theorem dirAt_congr (hk : fs'.kind = fs.kind) (hs : fs'.slash = fs.slash) (base : Base)
    (path : Path) : fs'.dirAt base path = fs.dirAt base path := by
  have hstart : base.start fs' = base.start fs := by
    cases base with
    | within root => rfl
    | ambient => exact hs
  simp only [Fs.dirAt, walk_congr hk hs, hstart, hk]

theorem slash_accesses (is : List ℕ) (fs : Fs) : (is.foldl Fs.access fs).slash = fs.slash := by
  induction is generalizing fs with
  | nil => rfl
  | cons i is ih =>
    rw [List.foldl_cons, ih]
    rfl

theorem slash_resolvedParent (fs : Fs) (base : Base) (path : Path) :
    (fs.resolvedParent base path).slash = fs.slash := by
  unfold Fs.resolvedParent
  split
  · rfl
  · exact slash_accesses _ _

theorem kind_add (fs : Fs) (x : Node) (j : ℕ) :
    (fs.add x).kind j = if j = fs.next then some x.kind else fs.kind j := by
  simp only [Fs.kind, Fs.add]
  split_ifs <;> rfl

theorem kind_setEntries (fs : Fs) (d : ℕ) (f : List (String × ℕ) → List (String × ℕ)) (j : ℕ) :
    (fs.setEntries d f).kind j =
      if j = d then (fs.kind j).map fun k => match k with
        | .dir parent entries => .dir parent (f entries)
        | k => k
      else fs.kind j := by
  simp only [Fs.kind, Fs.setEntries, node_update]
  split_ifs with h
  · cases hx : fs.node j with
    | none => rfl
    | some x =>
      simp only [Option.map_some, Option.some.injEq]
      cases hk : x.kind <;> simp [Fs.changed, hk]
  · rfl

/-- What the objects are after a creation in a directory. -/
theorem kind_create {parent : ℕ} {entries : List (String × ℕ)}
    (hd : fs.kind d = some (.dir parent entries)) (name : String) (kind : Kind) (mode j : ℕ) :
    (fs.create d name kind mode).kind j =
      if j = fs.next then some kind
      else if j = d then some (.dir parent (entries ++ [(name, fs.next)]))
      else fs.kind j := by
  have hne : d ≠ fs.next := by
    rintro rfl
    rw [kind_next] at hd
    cases hd
  rw [Fs.create, kind_setEntries]
  by_cases hj : j = d
  · subst hj
    rw [if_pos rfl, kind_add, if_neg hne, hd, if_neg hne, if_pos rfl]
    rfl
  · rw [if_neg hj, kind_add, if_neg hj]

/-- What the entries are after a creation in a directory. -/
theorem entries_create {parent : ℕ} {entries : List (String × ℕ)}
    (hd : fs.kind d = some (.dir parent entries)) {kind : Kind} (hentries : kind.entries = [])
    {name : String} {mode : ℕ} (j : ℕ) :
    (fs.create d name kind mode).entries j =
      if j = d then entries ++ [(name, fs.next)] else fs.entries j := by
  rw [Fs.entries, kind_create hd]
  by_cases hn : j = fs.next
  · have hne : fs.next ≠ d := by
      rintro rfl
      rw [kind_next] at hd
      cases hd
    subst hn
    rw [if_pos rfl, if_neg hne, Fs.entries, kind_next]
    exact hentries
  · rw [if_neg hn]
    split_ifs
    · rfl
    · rw [Fs.entries]

/-- Creating an object with no entries that is no link. -/
theorem made_create (hm : m ≤ fs.next) (hv : fs.vacantAt base path = .ok (d, name))
    (hstraight : links = false → path.dropLast = []) {kind : Kind}
    (hlink : ∀ target, kind ≠ .symlink target) (hentries : kind.entries = []) (mode : ℕ) :
    Made m links base path fs (fs.create d name kind mode) := by
  obtain ⟨hpath, hlast, hdir, hdot, hchild⟩ := of_vacantAt hv
  obtain ⟨hwalk, parent, entries, hd⟩ := of_dirAt hdir
  obtain ⟨hup, hlookup⟩ := lookup_of_vacantAt hv hd
  have hne : d ≠ fs.next := by
    rintro rfl
    rw [kind_next] at hd
    cases hd
  have hnew : (fs.create d name kind mode).kind fs.next = some kind := by
    rw [kind_create hd, if_pos rfl]
  have hdir' : (fs.create d name kind mode).kind d =
      some (.dir parent (entries ++ [(name, fs.next)])) := by
    rw [kind_create hd, if_neg hne, if_pos rfl]
  refine ⟨preserves_create hm d name kind mode, rfl, ⟨d, name, hlast, hdir, ?_, ?_, ?_⟩, ?_⟩
  · intro j hj
    rw [entries_of_kind hd] at hj
    have := List.lookup_eq_none_iff.1 hlookup (name, j) hj
    simp at this
  · rw [entries_of_kind hdir', entries_of_kind hd]
    rfl
  · intro d' hd'
    by_cases hn : d' = fs.next
    · subst hn
      rw [entries_of_kind hnew, hentries, Fs.entries, kind_next]
    · rw [Fs.entries, kind_create hd, if_neg hn, if_neg hd', Fs.entries]
  · have hp : Preserves m links fs (fs.create d name kind mode) :=
      preserves_create hm d name kind mode
    have hstart : base.start (fs.create d name kind mode) = base.start fs := by
      cases base <;> rfl
    have hparent : walk fs base maxLinks (base.start fs) path.dropLast =
        ((walk fs base maxLinks (base.start fs) path.dropLast).1, .ok (.found d)) :=
      Prod.ext rfl hwalk
    refine ⟨fs.next, (walk fs base maxLinks (base.start fs) path.dropLast).1, le_refl _, ?_,
      fun hl => ?_⟩
    · rw [hstart]
      nth_rewrite 1 [hpath]
      have hlast : (entries ++ [(name, fs.next)]).lookup name = some fs.next := by
        simp [List.lookup_append, hlookup]
      exact walk_append hdir' (by simp [hdot]) hup hlast hnew hlink
        (walk_found hp.toGrows hparent)
    · rw [hstraight hl]
      exact ⟨rfl, rfl⟩

theorem vacantAt_congr (hk : fs'.kind = fs.kind) (hs : fs'.slash = fs.slash) (base : Base)
    (path : Path) : fs'.vacantAt base path = fs.vacantAt base path := by
  have hchild : ∀ d name, fs'.child d name = fs.child d name := fun d name => by
    rw [Fs.child, Fs.child, hk]
  unfold Fs.vacantAt
  split
  · rfl
  · simp only [dirAt_congr hk hs, hchild]

/-- Nothing was made, and the objects are what they were. -/
structure Unmade (m : ℕ) (links : Bool) (fs fs' : Fs) : Prop extends Owns m links fs fs' where
  same_kind : fs'.kind = fs.kind

theorem Unmade.trans {fs₁ : Fs} (hm : m ≤ fs.next) (h : Unmade m links fs fs₁)
    (h' : Unmade m links fs₁ fs') : Unmade m links fs fs' :=
  ⟨h.toOwns.trans hm h'.toOwns, h'.same_kind.trans h.same_kind⟩

/-- What came before a creation without changing what the objects are. -/
theorem Made.after {fs₁ : Fs} (hm : m ≤ fs.next) (h₁ : Unmade m links fs fs₁)
    (h : Made m links base path fs₁ fs') : Made m links base path fs fs' := by
  obtain ⟨d, name, hlast, hdir, hfree, hd, hother⟩ := h.entry
  refine ⟨(preserving m links).trans (fun _ => h₁.toPreserves) (fun _ => h.toPreserves) hm,
    h.one.trans (by rw [h₁.same_next]),
    ⟨d, name, hlast, ?_, fun j hj => hfree j (by rwa [h₁.same_entries]), ?_, fun d' hd' => ?_⟩,
    h₁.same_next ▸ h.leads⟩
  · rw [← hdir, dirAt_congr h₁.same_kind h₁.slash]
  · rw [hd, h₁.same_entries, h₁.same_next]
  · rw [hother d' hd', h₁.same_entries]

/-- A path may be created at in one step, unless `links` may be read. -/
def Straight (links : Bool) (path : Path) : Prop := links = false → path.dropLast = []

theorem unmade_resolvedParent (hm : m ≤ fs.next) (hs : Straight links path) :
    Unmade m links fs (fs.resolvedParent base path) := by
  refine ⟨?_, kind_resolvedParent fs base path⟩
  have hr : Resolves (owning m links base []) base path.dropLast := by
    cases links with
    | true => exact resolves_owning base _
    | false =>
      rw [hs rfl]
      exact resolves_nil base
  unfold Fs.resolvedParent splitLast
  cases path.getLast? with
  | none => exact owns_of_node rfl rfl rfl rfl
  | some name => exact hr fs hm (by simp)

variable {kind : ℕ → Kind}

/-- An exclusive creation makes an object or nothing. -/
theorem createNew_makes (hm : m ≤ fs.next) (hs : Straight links path)
    (hlink : ∀ d target, kind d ≠ .symlink target) (hentries : ∀ d, (kind d).entries = [])
    (mode : ℕ) :
    Ends (fun i fs' => i = fs.next ∧ Made m links base path fs fs')
      (fun _ fs' => Unmade m links fs fs') (createNew base path kind mode fs) := by
  have hu : Unmade m links fs (fs.resolvedParent base path) := unmade_resolvedParent hm hs
  cases hv : fs.vacantAt base path with
  | error e =>
    rw [createNew_error hv]
    exact hu
  | ok p =>
    obtain ⟨d, name⟩ := p
    rw [createNew_ok hv]
    have hv' : (fs.resolvedParent base path).vacantAt base path = .ok (d, name) := by
      rw [vacantAt_congr hu.same_kind (slash_resolvedParent fs base path), hv]
    exact ⟨hu.same_next,
      (made_create (le_trans hm hu.next) hv' hs (hlink d) (hentries d) mode).after hm hu⟩

theorem ends_enter_bind {α : Type} {P : α → Fs → Prop} {E : Errno → Fs → Prop}
    {f : Unit → FsM α} (hE : ∀ e fs₁, Unmade m links fs fs₁ → E e fs₁)
    (hf : ∀ fs₁, Unmade m links fs fs₁ → Ends P E (f () fs₁)) :
    Ends P E ((enter >>= f) fs) := by
  have hu : Unmade m links fs { fs with faults := fs.faults.tail } :=
    ⟨owns_of_node rfl rfl rfl rfl, rfl⟩
  have hrun := enter_eq fs
  cases hfault : fs.faults.headD none with
  | some fault =>
    rw [hfault] at hrun
    rw [bind_error hrun]
    exact hE _ _ hu
  | none =>
    rw [hfault] at hrun
    rw [bind_ok hrun]
    exact hf _ hu

/-- Creating behind the chance of failing. -/
theorem enter_createNew_makes (hm : m ≤ fs.next) (hs : Straight links path)
    (hlink : ∀ d target, kind d ≠ .symlink target) (hentries : ∀ d, (kind d).entries = [])
    (mode : ℕ) :
    Ends (fun i fs' => i = fs.next ∧ Made m links base path fs fs')
      (fun _ fs' => Unmade m links fs fs')
      ((enter >>= fun _ => createNew base path kind mode) fs) := by
  refine ends_enter_bind (fun _ _ h => h) fun fs₁ hu => ?_
  have hmake : Ends (fun i fs' => i = fs₁.next ∧ Made m links base path fs₁ fs')
      (fun _ fs' => Unmade m links fs₁ fs') (createNew base path kind mode fs₁) :=
    createNew_makes (le_trans hm hu.next) hs hlink hentries mode
  exact hmake.mono (fun i fs' h => ⟨h.1.trans hu.same_next, h.2.after hm hu⟩)
    fun _ _ h => hu.trans hm h

/-- Creating a file is creating an object. -/
theorem openFile_new {o : OpenOptions} (hv : o.valid) (hn : o.createNew) (mode : ℕ) :
    openFile base path o mode = enter >>= fun _ => createNew base path (fun _ => .file []) mode := by
  have hopen : openFile base path o mode =
      (require o.valid .inval : FsM Unit) >>= fun _ =>
        enter >>= fun _ => createNew base path (fun _ => .file []) mode := by
    rw [openFile, hn]
    rfl
  rw [hopen, require, if_pos hv]
  rfl

/-- Creating a file. -/
theorem openFile_makes (hm : m ≤ fs.next) (hs : Straight links path) {o : OpenOptions}
    (hv : o.valid) (hn : o.createNew) (mode : ℕ) :
    Ends (fun i fs' => i = fs.next ∧ Made m links base path fs fs')
      (fun _ fs' => Unmade m links fs fs') (openFile base path o mode fs) := by
  rw [openFile_new hv hn]
  exact enter_createNew_makes hm hs (by simp) (by simp [Kind.entries]) mode

/-- Making a directory is creating an object. -/
theorem mkdir_new (base : Base) (path : Path) (mode : ℕ) : mkdir base path mode =
    (enter >>= fun _ => createNew base path (fun d => .dir d []) mode) >>= fun _ => pure () := by
  funext fs
  change EStateM.bind _ _ fs = EStateM.bind (EStateM.bind _ _) _ fs
  unfold EStateM.bind
  cases enter fs <;> rfl

/-- Making a directory. -/
theorem mkdir_makes (hm : m ≤ fs.next) (hs : Straight links path) (mode : ℕ) :
    Ends (fun _ fs' => Made m links base path fs fs') (fun _ fs' => Unmade m links fs fs')
      (mkdir base path mode fs) := by
  rw [mkdir_new]
  exact Ends.bind (enter_createNew_makes hm hs (by simp) (by simp [Kind.entries]) mode)
    fun _ _ h => Ends.pure h.2

end

end Posix
