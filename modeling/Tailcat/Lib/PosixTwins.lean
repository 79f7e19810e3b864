import Tailcat.Lib.PosixMake

/-!
# Two filesystems

A `Coupling` relates two filesystems in which some objects, those from the number `m` on, are the
same as far as anyone can tell.  It is kept when the same is done to such an object in both, through
an open file (`agree_write`, `agree_fchmod`, ...) or at paths that lead to it (`agree_stat`,
`agree_chmod`, ...), and the answers are the same.

`Placed` says that an object is the entry at a path; `Coupling.placing` adds to a coupling that some
objects stay placed where they are.
-/

namespace Posix

open Program

/-! ### Where an object is -/

theorem grows_of_kind {fs fs' : Fs} (hk : fs'.kind = fs.kind) (hnext : fs'.next = fs.next)
    (hslash : fs'.slash = fs.slash) (hhost : fs'.host = fs.host) : Grows fs fs' :=
  ⟨hnext ▸ le_refl _, hslash, hhost, fun _ k h => ⟨k, hk ▸ h, Kind.Extends.refl k⟩⟩

theorem grows_access (fs : Fs) (i : ℕ) : Grows fs (fs.access i) :=
  grows_of_kind (funext (kind_access fs i)) rfl rfl rfl

/-- The object is an entry of the directory a path ends in, and no symbolic link. -/
structure Placed (base : Base) (fs : Fs) (path : Path) (i : ℕ) : Prop where
  entry : ∃ d name, path.getLast? = some name ∧ isDot name = false ∧ name ≠ ".." ∧
    fs.dirAt base path.dropLast = .ok d ∧ fs.child d name = some i
  kind : ∃ k, fs.kind i = some k ∧ ∀ target, k ≠ .symlink target

section Placed

variable {base : Base} {fs fs' : Fs} {path : Path} {i : ℕ}

theorem start_grows (hg : Grows fs fs') : base.start fs' = base.start fs := by
  cases base with
  | within root => rfl
  | ambient => exact hg.slash

theorem dir_grows (hg : Grows fs fs') {d parent : ℕ} {entries : List (String × ℕ)}
    (h : fs.kind d = some (.dir parent entries)) :
    ∃ entries', fs'.kind d = some (.dir parent entries') ∧ entries <+: entries' := by
  obtain ⟨k, hk, he⟩ := hg.kind d _ h
  obtain data | ⟨parent', entries'⟩ | target := k
  · exact he.elim
  · obtain ⟨rfl, hp⟩ := he
    exact ⟨entries', hk, hp⟩
  · exact he.elim

/-- The directory at a path stays there. -/
theorem dirAt_grows (hg : Grows fs fs') {d : ℕ} (h : fs.dirAt base path = .ok d) :
    fs'.dirAt base path = .ok d := by
  obtain ⟨hw, parent, entries, hd⟩ := of_dirAt h
  have hwalk : walk fs base maxLinks (base.start fs) path =
      ((walk fs base maxLinks (base.start fs) path).1, .ok (.found d)) := Prod.ext rfl hw
  obtain ⟨entries', hd', -⟩ := dir_grows hg hd
  rw [Fs.dirAt, start_grows hg, walk_found hg hwalk]
  simp only [hd']

theorem Placed.grow (h : Placed base fs path i) (hg : Grows fs fs') : Placed base fs' path i := by
  obtain ⟨⟨d, name, hlast, hdot, hup, hdir, hchild⟩, k, hk, hlink⟩ := h
  obtain ⟨-, parent, entries, hd⟩ := of_dirAt hdir
  obtain ⟨entries', hd', hp⟩ := dir_grows hg hd
  refine ⟨⟨d, name, hlast, hdot, hup, dirAt_grows hg hdir, ?_⟩, ?_⟩
  · simp only [Fs.child, hd, if_neg hup] at hchild
    simp only [Fs.child, hd', if_neg hup]
    exact lookup_extended hp hchild
  · obtain ⟨k', hk', he⟩ := hg.kind i k hk
    refine ⟨k', hk', ?_⟩
    rintro target rfl
    cases k with
    | symlink target' => exact hlink target' rfl
    | file data => exact he.elim
    | dir parent entries => exact he.elim

theorem Placed.walk (h : Placed base fs path i) :
    (Posix.walk fs base maxLinks (base.start fs) path).2 = .ok (.found i) := by
  obtain ⟨⟨d, name, hlast, hdot, hup, hdir, hchild⟩, k, hk, hlink⟩ := h
  obtain ⟨hw, parent, entries, hd⟩ := of_dirAt hdir
  have hwalk : Posix.walk fs base maxLinks (base.start fs) path.dropLast =
      ((Posix.walk fs base maxLinks (base.start fs) path.dropLast).1, .ok (.found d)) :=
    Prod.ext rfl hw
  have hl : entries.lookup name = some i := by
    simpa only [Fs.child, hd, if_neg hup] using hchild
  have happ := walk_append hd (by simp [hdot]) hup hl hk hlink hwalk
  rw [List.dropLast_append_getLast? _ hlast] at happ
  rw [happ]

theorem lookupLast_placed (h : Placed base fs path i) :
    lookupLast base path fs = .ok i (fs.resolved base path.dropLast) := by
  obtain ⟨⟨d, name, hlast, hdot, hup, hdir, hchild⟩, -⟩ := h
  have hr := resolveDir_eq fs base path.dropLast
  rw [hdir] at hr
  unfold lookupLast splitLast
  rw [hlast]
  refine (bind_ok hr _).trans ((bind_ok rfl _).trans ?_)
  have hchild' : (fs.resolved base path.dropLast).child d name = some i := by
    rw [← hchild, Fs.child, Fs.child, kind_resolved]
  simp only [hchild']
  rfl

/-- A created object is placed where it was created. -/
theorem placed_create {d : ℕ} {name : String} (hv : fs.vacantAt base path = .ok (d, name))
    {kind : Kind} (hlink : ∀ target, kind ≠ .symlink target) (mode : ℕ) :
    Placed base (fs.create d name kind mode) path fs.next := by
  obtain ⟨-, hlast, hdir, hdot, -⟩ := of_vacantAt hv
  obtain ⟨-, parent, entries, hd⟩ := of_dirAt hdir
  obtain ⟨hup, hlookup⟩ := lookup_of_vacantAt hv hd
  have hne : d ≠ fs.next := by
    rintro rfl
    rw [kind_next] at hd
    cases hd
  have hg : Grows fs (fs.create d name kind mode) := grows_create fs d name kind mode
  refine ⟨⟨d, name, hlast, hdot, hup, dirAt_grows hg hdir, ?_⟩, kind, ?_, hlink⟩
  · rw [Fs.child, kind_create hd, if_neg hne, if_pos rfl]
    simp [hup, List.lookup_append, hlookup]
  · rw [kind_create hd, if_pos rfl]

end Placed

/-! ### Couplings -/

/-- Is it a directory? -/
def Kind.isDir : Kind → Bool
  | .dir _ _ => true
  | _ => false

theorem isDir_iff {k : Kind} : k.isDir ↔ ∃ parent entries, k = .dir parent entries := by
  cases k <;> simp [Kind.isDir]

/-- A change that leaves directories and symbolic links what they are. -/
def Touches (f : Node → Node) : Prop :=
  ∀ x : Node, match x.kind with
    | .file _ => ∃ data, (f x).kind = .file data
    | k => (f x).kind = k

theorem Touches.extends {f : Node → Node} (hf : Touches f) (x : Node) :
    x.kind.Extends (f x).kind := by
  have h := hf x
  cases hk : x.kind with
  | file data =>
    simp only [hk] at h
    obtain ⟨data', h⟩ := h
    rw [h]
    trivial
  | dir parent entries =>
    simp only [hk] at h
    rw [h]
    exact Kind.Extends.refl _
  | symlink target =>
    simp only [hk] at h
    rw [h]
    exact Kind.Extends.refl _

/-- Two filesystems in which the objects from `m` on are the same as far as anyone can tell. -/
structure Coupling (m : ℕ) where
  rel : Fs → Fs → Prop
  /-- Two objects nobody can tell apart. -/
  same : Node → Node → Prop
  same_or : ∀ {x y}, same x y → x = y ∨ (x.kind.isDir ∧ y.kind.isDir)
  clock : ∀ {s t}, rel s t → s.clock = t.clock
  host : ∀ {s t}, rel s t → s.host = t.host
  faults : ∀ {s t}, rel s t → s.faults = t.faults
  node : ∀ {s t i}, rel s t → m ≤ i → Option.Rel same (s.node i) (t.node i)
  set_clock : ∀ {s t} clock, rel s t → rel { s with clock } { t with clock }
  next_fault : ∀ {s t}, rel s t →
    rel { s with faults := s.faults.tail } { t with faults := t.faults.tail }
  access_left : ∀ {s t i target}, s.kind i = some (.symlink target) → rel s t →
    rel (s.access i) t
  access_right : ∀ {s t i target}, t.kind i = some (.symlink target) → rel s t →
    rel s (t.access i)
  update : ∀ {s t i f}, rel s t → m ≤ i → Touches f → rel (s.update i f) (t.update i f)

theorem grows_update {fs : Fs} {i : ℕ} {f : Node → Node} (hf : Touches f) :
    Grows fs (fs.update i f) := by
  have h : Preserves 0 true fs (fs.update i f) :=
    preserves_update (fun x _ => hf.extends x) fun _ _ h => absurd h (Nat.not_lt_zero _)
  exact h.toGrows

namespace Coupling

variable {m : ℕ} (C : Coupling m) (base : Base)

/-- A coupling under which some objects stay placed where they are, in either filesystem at a path
of its own. -/
def placing (places : List (Path × Path × ℕ)) : Coupling m where
  rel s t := C.rel s t ∧ ∀ p ∈ places, Placed base s p.1 p.2.2 ∧ Placed base t p.2.1 p.2.2
  same := C.same
  same_or := C.same_or
  clock h := C.clock h.1
  host h := C.host h.1
  faults h := C.faults h.1
  node h := C.node h.1
  set_clock clock h := ⟨C.set_clock clock h.1, fun p hp =>
    ⟨(h.2 p hp).1.grow (grows_of_kind rfl rfl rfl rfl),
      (h.2 p hp).2.grow (grows_of_kind rfl rfl rfl rfl)⟩⟩
  next_fault h := ⟨C.next_fault h.1, fun p hp =>
    ⟨(h.2 p hp).1.grow (grows_of_kind rfl rfl rfl rfl),
      (h.2 p hp).2.grow (grows_of_kind rfl rfl rfl rfl)⟩⟩
  access_left hk h := ⟨C.access_left hk h.1, fun p hp =>
    ⟨(h.2 p hp).1.grow (grows_access _ _), (h.2 p hp).2⟩⟩
  access_right hk h := ⟨C.access_right hk h.1, fun p hp =>
    ⟨(h.2 p hp).1, (h.2 p hp).2.grow (grows_access _ _)⟩⟩
  update h hi hf := ⟨C.update h.1 hi hf, fun p hp =>
    ⟨(h.2 p hp).1.grow (grows_update hf), (h.2 p hp).2.grow (grows_update hf)⟩⟩

variable {C base} {s t : Fs}

/-! ### Through open files -/

theorem agree_enter (h : C.rel s t) :
    Agree (fun _ _ => C.rel) C.rel (enter s) (enter t) := by
  rw [enter_eq, enter_eq, C.faults h]
  have hnext := C.next_fault h
  rw [C.faults h] at hnext
  cases t.faults.headD none with
  | none => exact hnext
  | some fault => exact ⟨rfl, hnext⟩

/-- What comes behind the chance of failing. -/
theorem agree_enter_bind {α β : Type} {A : α → β → Fs → Fs → Prop} {E : Fs → Fs → Prop}
    {f : Unit → FsM α} {g : Unit → FsM β} (h : C.rel s t)
    (hE : ∀ u v, C.rel u v → Grows s u → Grows t v → E u v)
    (hf : ∀ u v, C.rel u v → Grows s u → Grows t v → Agree A E (f () u) (g () v)) :
    Agree A E ((enter >>= f) s) ((enter >>= g) t) := by
  have hg : ∀ fs : Fs, Grows fs { fs with faults := fs.faults.tail } := fun _ =>
    grows_of_kind rfl rfl rfl rfl
  refine Agree.bind (A := fun _ _ u v => C.rel u v ∧ Grows s u ∧ Grows t v) ?_ ?_
  · rw [enter_eq, enter_eq, C.faults h]
    have hnext := C.next_fault h
    rw [C.faults h] at hnext
    have hgs := hg s
    rw [C.faults h] at hgs
    cases t.faults.headD none with
    | none => exact ⟨hnext, hgs, hg t⟩
    | some fault => exact ⟨rfl, hE _ _ hnext hgs (hg t)⟩
  · rintro _ _ u v ⟨h, hgs, hgt⟩
    exact hf u v h hgs hgt

variable {i : ℕ} (hi : m ≤ i)

include hi

theorem agree_nodeOf (h : C.rel s t) :
    Agree (fun x y s t => C.same x y ∧ C.rel s t) C.rel (nodeOf i s) (nodeOf i t) := by
  have hnode := C.node h hi
  generalize hx : s.node i = x, hy : t.node i = y at hnode
  cases hnode with
  | some hxy =>
    rw [nodeOf_of_some hx, nodeOf_of_some hy]
    exact ⟨hxy, h⟩
  | none =>
    rw [nodeOf_of_none hx, nodeOf_of_none hy]
    exact ⟨rfl, h⟩

theorem agree_fstat (h : C.rel s t) :
    Agree (fun x y s t => C.same x y ∧ C.rel s t) C.rel (fstat i s) (fstat i t) :=
  (agree_enter h).bind fun _ _ _ _ h => agree_nodeOf hi h

theorem rel_setAttr (f : Attr → Attr) (h : C.rel s t) : C.rel (s.setAttr i f) (t.setAttr i f) := by
  have hupdate := C.update h hi (f := fun n => { n with attr := { f n.attr with ctime := s.clock } })
    fun ⟨kind, attr⟩ => by cases kind <;> simp
  have hclock := C.clock h
  simp only [Fs.setAttr, ← hclock]
  exact hupdate

theorem rel_setLen (len : ℕ) (h : C.rel s t) : C.rel (s.setLen i len) (t.setLen i len) := by
  have hclock := C.clock h
  unfold Fs.setLen
  rw [← hclock]
  exact C.update h hi fun ⟨kind, attr⟩ => by cases kind <;> simp [Fs.changed]

theorem rel_put (append : Bool) (offset : ℕ) (bytes : List UInt8) (h : C.rel s t) :
    C.rel (s.put i append offset bytes) (t.put i append offset bytes) := by
  have hclock := C.clock h
  unfold Fs.put
  rw [← hclock]
  by_cases hb : bytes = []
  · rw [if_pos hb, if_pos hb]
    exact h
  · rw [if_neg hb, if_neg hb]
    exact C.update h hi fun ⟨kind, attr⟩ => by cases kind <;> simp [Fs.changed]

theorem agree_write (append : Bool) (offset : ℕ) (bytes : List UInt8) (h : C.rel s t) :
    Agree (fun _ _ => C.rel) C.rel (write i append offset bytes s)
      (write i append offset bytes t) := by
  refine Agree.require_bind h fun _ => ?_
  refine Agree.bind (A := fun a b s t => a = b ∧ C.rel s t) ⟨by rw [C.faults h], C.next_fault h⟩ ?_
  rintro fault _ s t ⟨rfl, h⟩
  cases fault with
  | none => exact rel_put hi append offset bytes h
  | some fault =>
    refine Agree.bind (A := fun _ _ => C.rel) (rel_put hi append offset _ h) fun _ _ _ _ h => ?_
    exact Agree.throw h

theorem agree_fchmod (mode : ℕ) (h : C.rel s t) :
    Agree (fun _ _ => C.rel) C.rel (fchmod i mode s) (fchmod i mode t) :=
  (agree_enter h).bind fun _ _ _ _ h => rel_setAttr hi _ h

theorem agree_futimes (atime mtime : Option ℤ) (h : C.rel s t) :
    Agree (fun _ _ => C.rel) C.rel (futimes i atime mtime s) (futimes i atime mtime t) :=
  (agree_enter h).bind fun _ _ _ _ h => rel_setAttr hi _ h

omit hi in
/-- What cannot be told apart is a file in both filesystems or in neither. -/
theorem file_or {x y : Node} (h : C.same x y) :
    x = y ∨ ∃ p es p' es', x.kind = .dir p es ∧ y.kind = .dir p' es' := by
  rcases C.same_or h with h | ⟨hx, hy⟩
  · exact .inl h
  · cases hkx : x.kind <;> cases hky : y.kind <;> simp_all [Kind.isDir]

theorem agree_ftruncate (len : ℕ) (h : C.rel s t) :
    Agree (fun _ _ => C.rel) C.rel (ftruncate i len s) (ftruncate i len t) := by
  refine Agree.require_bind h fun _ => (agree_enter h).bind fun _ _ _ _ h =>
    (agree_nodeOf hi h).bind ?_
  rintro x y s t ⟨hxy, h⟩
  rcases file_or hxy with rfl | ⟨_, _, _, _, hx, hy⟩
  · cases x.kind with
    | file data => exact rel_setLen hi len h
    | dir parent entries => exact Agree.throw h
    | symlink target => exact Agree.throw h
  · rw [hx, hy]
    exact Agree.throw h

/-! ### At paths -/

omit hi

theorem rel_accesses {is : List ℕ} {u : Fs}
    (his : ∀ i ∈ is, ∃ target, s.kind i = some (.symlink target)) (h : C.rel s u) :
    C.rel (is.foldl Fs.access s) u := by
  induction is generalizing s with
  | nil => exact h
  | cons i is ih =>
    obtain ⟨target, hk⟩ := his i List.mem_cons_self
    refine ih (fun j hj => ?_) (C.access_left hk h)
    rw [kind_access]
    exact his j (List.mem_cons_of_mem _ hj)

theorem rel_accesses_right {is : List ℕ}
    (his : ∀ i ∈ is, ∃ target, t.kind i = some (.symlink target)) (h : C.rel s t) :
    C.rel s (is.foldl Fs.access t) := by
  induction is generalizing t with
  | nil => exact h
  | cons i is ih =>
    obtain ⟨target, hk⟩ := his i List.mem_cons_self
    refine ih (fun j hj => ?_) (C.access_right hk h)
    rw [kind_access]
    exact his j (List.mem_cons_of_mem _ hj)

theorem rel_resolved (base : Base) (p q : Path) (h : C.rel s t) :
    C.rel (s.resolved base p) (t.resolved base q) :=
  rel_accesses walk_links (rel_accesses_right walk_links h)

/-- Under the coupling an object stays placed, in either filesystem at a path of its own. -/
def Places (C : Coupling m) (base : Base) (p q : Path) (i : ℕ) : Prop :=
  ∀ s t, C.rel s t → Placed base s p i ∧ Placed base t q i

theorem places_of_mem {places : List (Path × Path × ℕ)} {p q : Path}
    (h : (p, q, i) ∈ places) : (C.placing base places).Places base p q i :=
  fun _ _ hrel => hrel.2 _ h

section Places

variable {p q : Path} (hC : C.Places base p q i)

include hC

theorem agree_resolveIno (h : C.rel s t) :
    Agree (fun a b s t => a = i ∧ b = i ∧ C.rel s t) C.rel (resolveIno base p s)
      (resolveIno base q t) := by
  obtain ⟨hp, hq⟩ := hC s t h
  rw [resolveIno_ok hp.walk, resolveIno_ok hq.walk]
  exact ⟨rfl, rfl, rel_resolved base p q h⟩

theorem agree_resolve (h : C.rel s t) :
    Agree (fun a b s t => a = .found i ∧ b = .found i ∧ C.rel s t) C.rel (resolve base p s)
      (resolve base q t) := by
  obtain ⟨hp, hq⟩ := hC s t h
  rw [resolve_eq, resolve_eq, hp.walk, hq.walk]
  exact ⟨rfl, rfl, rel_resolved base p q h⟩

theorem agree_lookupLast (h : C.rel s t) :
    Agree (fun a b s t => a = i ∧ b = i ∧ C.rel s t) C.rel (lookupLast base p s)
      (lookupLast base q t) := by
  obtain ⟨hp, hq⟩ := hC s t h
  rw [lookupLast_placed hp, lookupLast_placed hq]
  exact ⟨rfl, rfl, rel_resolved base p.dropLast q.dropLast h⟩

/-- What is done to the object at a path. -/
theorem agree_at {α : Type} {f : ℕ → FsM α} {A : α → α → Fs → Fs → Prop} (h : C.rel s t)
    (hf : ∀ {s t}, C.rel s t → Agree A C.rel (f i s) (f i t)) :
    Agree A C.rel ((resolveIno base p >>= f) s) ((resolveIno base q >>= f) t) := by
  refine (agree_resolveIno hC h).bind ?_
  rintro a b s t ⟨rfl, rfl, h⟩
  exact hf h

include hi

theorem agree_stat (follow : Bool) (h : C.rel s t) :
    Agree (fun x y s t => C.same x y ∧ C.rel s t) C.rel (stat base p follow s)
      (stat base q follow t) := by
  refine (agree_enter h).bind fun _ _ s t h => ?_
  cases follow with
  | true => exact agree_at hC h (agree_nodeOf hi)
  | false =>
    refine (agree_lookupLast hC h).bind ?_
    rintro a b s t ⟨rfl, rfl, h⟩
    exact agree_nodeOf hi h

theorem agree_chmod (mode : ℕ) (h : C.rel s t) :
    Agree (fun _ _ => C.rel) C.rel (chmod base p mode s) (chmod base q mode t) :=
  agree_at hC h (agree_fchmod hi mode)

theorem agree_utimes (atime mtime : Option ℤ) (h : C.rel s t) :
    Agree (fun _ _ => C.rel) C.rel (utimes base p atime mtime s) (utimes base q atime mtime t) :=
  agree_at hC h (agree_futimes hi atime mtime)

/-- Opening without creating. -/
theorem agree_openFile {o : OpenOptions} (ht : o.truncate = false) (hn : o.createNew = false)
    (mode : ℕ) (h : C.rel s t) :
    Agree (fun a b s t => a = i ∧ b = i ∧ C.rel s t) C.rel (openFile base p o mode s)
      (openFile base q o mode t) := by
  refine Agree.require_bind h fun _ => (agree_enter h).bind fun _ _ s t h => ?_
  simp only [hn, Bool.false_eq_true, if_false]
  refine (agree_resolve hC h).bind ?_
  rintro _ _ s t ⟨rfl, rfl, h⟩
  refine (agree_nodeOf hi h).bind ?_
  rintro x y s t ⟨hxy, h⟩
  rcases file_or hxy with rfl | ⟨_, _, _, _, hx, hy⟩
  · cases x.kind with
    | dir parent entries => exact Agree.require_bind h fun _ => ⟨rfl, rfl, h⟩
    | symlink target => exact Agree.throw h
    | file data =>
      simp only [ht]
      exact ⟨rfl, rfl, h⟩
  · rw [hx, hy]
    exact Agree.require_bind h fun _ => ⟨rfl, rfl, h⟩

theorem agree_truncate {o : OpenOptions} (ht : o.truncate = false) (hn : o.createNew = false)
    (mode len : ℕ) (h : C.rel s t) :
    Agree (fun _ _ => C.rel) C.rel ((openFile base p o mode >>= fun i => ftruncate i len) s)
      ((openFile base q o mode >>= fun i => ftruncate i len) t) := by
  refine (agree_openFile hi hC ht hn mode h).bind ?_
  rintro a b s t ⟨rfl, rfl, h⟩
  exact agree_ftruncate hi len h

end Places

end Coupling

end Posix
