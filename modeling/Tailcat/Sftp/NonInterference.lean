import Tailcat.Sftp.Twins

/-!
# A drop box tells nothing of its contents

`noninterference` : the same requests to two write-only shares that differ only in what is stored
under the root get the same replies, the attributes of the root itself excepted.

The two filesystems are coupled (`Shares`) by what the session made: the objects from `m` on are
the same, and so are the entries of the root under names that neither share had at the start.

The two sessions are run side by side (`Twins`), and each request keeps the coupling and is answered
alike; so the theorem is about whole runs, and about requests that were chosen after all the replies
before.  A drop box gives its files names of its own, and the condition on the two shares is that
none of these is taken in either.  What takes time is not seen by a model of replies, and neither is
how full the disk is.
-/

namespace Tailcat.Sftp

open Posix (Path Fs Kind Node Coupling Grows Placed)
open Program (Agree require)

/-! ### The coupling -/

/-- Two filesystems with the same objects from `m` on, and the same entries of the root but for
names that were taken. -/
structure Shares (m root : ℕ) (taken : String → Prop) (s t : Fs) : Prop where
  clock : s.clock = t.clock
  host : s.host = t.host
  faults : s.faults = t.faults
  next : s.next = t.next
  le : m ≤ s.next
  root_lt : root < m
  node : ∀ i, m ≤ i → s.node i = t.node i
  file : ∀ i n, m ≤ i → s.node i = some n → ∃ data, n.kind = .file data
  dir_left : ∃ parent entries, s.kind root = some (.dir parent entries)
  dir_right : ∃ parent entries, t.kind root = some (.dir parent entries)
  names : ∀ name, ¬taken name → (s.entries root).lookup name = (t.entries root).lookup name

section Shares

variable {m root : ℕ} {taken : String → Prop} {s t : Fs}

theorem kind_update_ne {fs : Fs} {i j : ℕ} {f : Node → Node} (h : j ≠ i) :
    (fs.update i f).kind j = fs.kind j := by
  rw [Fs.kind, Posix.node_update, if_neg h, Fs.kind]

theorem entries_update_ne {fs : Fs} {i j : ℕ} {f : Node → Node} (h : j ≠ i) :
    (fs.update i f).entries j = fs.entries j := by
  rw [Fs.entries, kind_update_ne h, Fs.entries]

/-- An older object of one of the filesystems, not the root, is changed. -/
theorem Shares.update_left {i : ℕ} {f : Node → Node} (h : Shares m root taken s t) (hm : i < m)
    (hroot : root ≠ i) : Shares m root taken (s.update i f) t where
  clock := h.clock
  host := h.host
  faults := h.faults
  next := h.next
  le := h.le
  root_lt := h.root_lt
  node j hj := by
    rw [Posix.node_update, if_neg (by omega), h.node j hj]
  file j n hj hn := by
    rw [Posix.node_update, if_neg (by omega)] at hn
    exact h.file j n hj hn
  dir_left := by
    rw [kind_update_ne hroot]
    exact h.dir_left
  dir_right := h.dir_right
  names name hname := by
    rw [entries_update_ne hroot]
    exact h.names name hname

theorem Shares.symm (h : Shares m root taken s t) : Shares m root taken t s where
  clock := h.clock.symm
  host := h.host.symm
  faults := h.faults.symm
  next := h.next.symm
  le := h.next ▸ h.le
  root_lt := h.root_lt
  node i hi := (h.node i hi).symm
  file i n hi hn := h.file i n hi (h.node i hi ▸ hn)
  dir_left := h.dir_right
  dir_right := h.dir_left
  names name hname := (h.names name hname).symm

/-- The session's own objects are files: symbolic links are older, and not the root. -/
theorem Shares.link (h : Shares m root taken s t) {i : ℕ} {target : String}
    (hi : s.kind i = some (.symlink target)) : i < m ∧ root ≠ i := by
  constructor
  · by_contra hge
    obtain ⟨n, hn, hk⟩ := Option.map_eq_some_iff.1 hi
    obtain ⟨data, hd⟩ := h.file i n (by omega) hn
    rw [hd] at hk
    cases hk
  · rintro rfl
    obtain ⟨parent, entries, hd⟩ := h.dir_left
    rw [hi] at hd
    cases hd

theorem Shares.update {i : ℕ} {f : Node → Node} (h : Shares m root taken s t) (hi : m ≤ i)
    (hf : Posix.Touches f) : Shares m root taken (s.update i f) (t.update i f) := by
  have hroot : root ≠ i := by
    have := h.root_lt
    omega
  refine ⟨h.clock, h.host, h.faults, h.next, h.le, h.root_lt, fun j hj => ?_, fun j n hj hn => ?_,
    ?_, ?_, fun name hname => ?_⟩
  · rw [Posix.node_update, Posix.node_update, h.node j hj]
  · rw [Posix.node_update] at hn
    by_cases hji : j = i
    · rw [if_pos hji] at hn
      obtain ⟨x, hx, rfl⟩ := Option.map_eq_some_iff.1 hn
      obtain ⟨data, hd⟩ := h.file j x hj hx
      have hfx := hf x
      simpa only [hd] using hfx
    · rw [if_neg hji] at hn
      exact h.file j n hj hn
  · rw [kind_update_ne hroot]
    exact h.dir_left
  · rw [kind_update_ne hroot]
    exact h.dir_right
  · rw [entries_update_ne hroot, entries_update_ne hroot]
    exact h.names name hname

/-- Two shares of which only the session's own objects are seen. -/
def sharesCoupling (m root : ℕ) (taken : String → Prop) : Coupling m where
  rel := Shares m root taken
  same := Eq
  same_or h := .inl h
  clock h := h.clock
  host h := h.host
  faults h := h.faults
  node {s t i} h hi := by
    rw [h.node i hi]
    cases t.node i with
    | none => exact .none
    | some x => exact .some rfl
  set_clock clock h := ⟨rfl, h.host, h.faults, h.next, h.le, h.root_lt, h.node, h.file,
    h.dir_left, h.dir_right, h.names⟩
  next_fault h := ⟨h.clock, h.host, by rw [h.faults], h.next, h.le, h.root_lt, h.node, h.file,
    h.dir_left, h.dir_right, h.names⟩
  access_left hk h := h.update_left (h.link hk).1 (h.link hk).2
  access_right hk h := (h.symm.update_left (h.symm.link hk).1 (h.symm.link hk).2).symm
  update h hi hf := h.update hi hf

/-! ### Creating a file -/

theorem dirAt_root (h : Shares m root taken s t) : s.dirAt (.within root) [] = .ok root := by
  obtain ⟨parent, entries, hd⟩ := h.dir_left
  have hw : (Posix.walk s (.within root) Posix.maxLinks ((Posix.Base.within root).start s) []).2 =
      .ok (.found root) := rfl
  simp only [Fs.dirAt, hw, hd]

theorem vacantAt_root (h : Shares m root taken s t) (name : String) :
    s.vacantAt (.within root) [name] =
      if Posix.isDot name = false ∧ s.child root name = none then .ok (root, name)
      else .error .exist := by
  have hsplit : Posix.splitLast [name] = some ([], name) := rfl
  simp only [Fs.vacantAt, hsplit, dirAt_root h]

/-- A name that was free in both shares is free in both or in neither. -/
theorem child_root (h : Shares m root taken s t) {name : String} (hname : ¬taken name) :
    s.child root name = none ↔ t.child root name = none := by
  obtain ⟨parent, entries, hd⟩ := h.dir_left
  obtain ⟨parent', entries', hd'⟩ := h.dir_right
  have hnames : entries.lookup name = entries'.lookup name := by
    have hn := h.names name hname
    rwa [Posix.entries_of_kind hd, Posix.entries_of_kind hd'] at hn
  simp only [Fs.child, hd, hd']
  by_cases hup : name = ".."
  · simp [hup]
  · simp only [if_neg hup, hnames]

theorem resolvedParent_root (fs : Fs) (base : Posix.Base) (name : String) :
    fs.resolvedParent base [name] = fs := rfl

/-- Creating a file under the same name. -/
theorem Shares.create (h : Shares m root taken s t) (name : String) (mode : ℕ) :
    Shares m root taken (s.create root name (.file []) mode)
      (t.create root name (.file []) mode) := by
  obtain ⟨parent, entries, hd⟩ := h.dir_left
  obtain ⟨parent', entries', hd'⟩ := h.dir_right
  have hroot : root ≠ s.next := by
    have := h.root_lt
    have := h.le
    omega
  have hkind : ∀ {fs : Fs} {p : ℕ} {es : List (String × ℕ)}, fs.kind root = some (.dir p es) →
      root ≠ fs.next → (fs.create root name (.file []) mode).kind root =
        some (.dir p (es ++ [(name, fs.next)])) := fun hk hne => by
    rw [Posix.kind_create hk, if_neg hne, if_pos rfl]
  have hnode : ∀ {fs : Fs} {i : ℕ}, i ≠ root → (fs.create root name (.file []) mode).node i =
      if i = fs.next then some ⟨.file [], fs.newAttr mode⟩ else fs.node i := fun hi => by
    rw [Fs.create, Fs.setEntries, Posix.node_update, if_neg hi]
    rfl
  have hattr : s.newAttr mode = t.newAttr mode := by
    simp only [Fs.newAttr, h.host, h.clock]
  -- the new file has the same number and the same attributes in both
  refine ⟨h.clock, h.host, h.faults, ?_, ?_, h.root_lt, fun i hi => ?_, fun i n hi hn => ?_,
    ⟨_, _, hkind hd hroot⟩, ⟨_, _, hkind hd' (h.next ▸ hroot)⟩, fun name' hname' => ?_⟩
  · exact congrArg (· + 1) h.next
  · exact le_trans h.le (Nat.le_succ _)
  · have hne : i ≠ root := by
      have := h.root_lt
      omega
    rw [hnode hne, hnode hne, h.next, hattr, h.node i hi]
  · have hne : i ≠ root := by
      have := h.root_lt
      omega
    rw [hnode hne] at hn
    split_ifs at hn
    · cases hn
      exact ⟨[], rfl⟩
    · exact h.file i n hi hn
  · rw [Posix.entries_of_kind (hkind hd hroot),
      Posix.entries_of_kind (hkind hd' (h.next ▸ hroot))]
    have hn := h.names name' hname'
    rw [Posix.entries_of_kind hd, Posix.entries_of_kind hd'] at hn
    change (entries ++ _).lookup name' = (entries' ++ _).lookup name'
    have hn' : entries.lookup name' = entries'.lookup name' := hn
    rw [List.lookup_append, List.lookup_append, hn', h.next]

/-- What holds of two filesystems after a file has been created at the same path of both. -/
def Created (m root : ℕ) (taken : String → Prop) (base : Posix.Base) (path : Path) (s t : Fs)
    (i j : ℕ) (u v : Fs) : Prop :=
  i = j ∧ m ≤ i ∧ Shares m root taken u v ∧ Grows s u ∧ Grows t v ∧ Placed base u path i ∧
    Placed base v path i

/-- Creating a file in the root, under a name that was free in both shares. -/
theorem agree_createNew (h : Shares m root taken s t) {name : String} (hname : ¬taken name)
    (mode : ℕ) :
    Agree (Created m root taken (.within root) [name] s t)
      (fun u v => Shares m root taken u v ∧ Grows s u ∧ Grows t v)
      (Posix.createNew (.within root) [name] (fun _ => .file []) mode s)
      (Posix.createNew (.within root) [name] (fun _ => .file []) mode t) := by
  have hv := vacantAt_root h name
  have hv' := vacantAt_root h.symm name
  by_cases hfree : Posix.isDot name = false ∧ s.child root name = none
  · rw [if_pos hfree] at hv
    rw [if_pos ⟨hfree.1, (child_root h hname).1 hfree.2⟩] at hv'
    rw [Posix.createNew_ok hv, Posix.createNew_ok hv', resolvedParent_root, resolvedParent_root]
    have hlink : ∀ target, Kind.file [] ≠ .symlink target := by simp
    have hplaced' := Posix.placed_create hv' hlink mode
    rw [← h.next] at hplaced'
    exact ⟨h.next, h.le, h.create name mode, Posix.grows_create _ _ _ _ _,
      Posix.grows_create _ _ _ _ _, Posix.placed_create hv hlink mode, hplaced'⟩
  · rw [if_neg hfree] at hv
    have hfree' : ¬(Posix.isDot name = false ∧ t.child root name = none) := fun hf =>
      hfree ⟨hf.1, (child_root h hname).2 hf.2⟩
    rw [if_neg hfree'] at hv'
    rw [Posix.createNew_error hv, Posix.createNew_error hv', resolvedParent_root,
      resolvedParent_root]
    exact ⟨rfl, h, Posix.growing.refl s, Posix.growing.refl t⟩

end Shares

/-! ### Requests -/

namespace Files

variable {m root : ℕ} {taken : String → Prop} {files : Files} {places : List (Path × Path × ℕ)}
  {s t : Session}

/-- Does a request ask for the attributes of the root? -/
def AsksRoot (request : Request) : Prop :=
  ∃ path, (request = .stat path ∨ request = .lstat path) ∧ relative path = .ok []

/-- The replies are the same, unless they are attributes of the root. -/
def SameReply (request : Request) (r r' : Reply) : Prop :=
  r = r' ∨ AsksRoot request ∧ ∃ a b, r = .attrs a ∧ r' = .attrs b

/-- The replies are the same, and so are the sessions as far as the client can tell. -/
def SameAnswer (m root : ℕ) (taken : String → Prop) (files : Files) (request : Request)
    (r r' : Reply) (s t : Session) : Prop :=
  SameReply request r r' ∧ ∃ places, Twins (sharesCoupling m root taken) files places s t

theorem sameAnswer_of_answered {request : Request} {r r' : Reply}
    (h : Answered (sharesCoupling m root taken) files places r r' s t) :
    SameAnswer m root taken files request r r' s t := by
  obtain ⟨hr | ⟨host, x, y, rfl, rfl, rfl⟩, h⟩ := h
  · exact ⟨.inl hr, places, h⟩
  · exact ⟨.inl rfl, places, h⟩

section

variable (hmode : files.mode = .writeOnly) (hroot : files.root = some root)

include hmode hroot

/-- Creating a file under a name of the server's choosing that was free in both shares. -/
theorem twins_openNew (h : Twins (sharesCoupling m root taken) files places s t) (env : Env)
    {name : String} (hname : ¬taken (uniqueName name env.stamp env.random)) :
    Agree (fun i j s t => i = j ∧ m ≤ i ∧
        ∃ places, Twins (sharesCoupling m root taken) files places s t)
      (Twins (sharesCoupling m root taken) files places)
      (files.openNew env [name] s) (files.openNew env [name] t) := by
  have hbase : files.base = .within root := by rw [base, hroot]
  have hunique : uniquePath [name] env.stamp env.random =
      [uniqueName name env.stamp env.random] := rfl
  have hopen : files.openFile [uniqueName name env.stamp env.random] createFlags true =
      Posix.enter >>= fun _ => Posix.createNew (.within root)
        [uniqueName name env.stamp env.random] (fun _ => .file []) 0o644 := by
    simp only [openFile, hroot]
    exact Posix.openFile_new rfl rfl 0o644
  simp only [openNew, hmode, if_true, hunique, hopen]
  have hcreate : Agree
      (Created m root taken (.within root) [uniqueName name env.stamp env.random] s.fs t.fs)
      (fun u v => Shares m root taken u v ∧ Grows s.fs u ∧ Grows t.fs v)
      ((Posix.enter >>= fun _ => Posix.createNew (.within root)
        [uniqueName name env.stamp env.random] (fun _ => .file []) 0o644) s.fs)
      ((Posix.enter >>= fun _ => Posix.createNew (.within root)
        [uniqueName name env.stamp env.random] (fun _ => .file []) 0o644) t.fs) := by
    have hrel : (sharesCoupling m root taken).rel s.fs t.fs := h.fs.1
    refine Coupling.agree_enter_bind hrel (fun u v hrel hs ht => ⟨hrel, hs, ht⟩)
      fun u v hrel hs ht => (agree_createNew hrel hname 0o644).mono ?_ ?_
    · rintro i j u' v' ⟨hij, hi, hrel, hs', ht', hp, hq⟩
      exact ⟨hij, hi, hrel, Posix.growing.trans hs hs', Posix.growing.trans ht ht', hp, hq⟩
    · rintro u' v' ⟨hrel, hs', ht'⟩
      exact ⟨hrel, Posix.growing.trans hs hs', Posix.growing.trans ht ht'⟩
  refine Agree.bind ((agree_call s t hcreate).mono (fun _ _ _ _ h => h) ?_) ?_
  · rintro _ _ ⟨u, v, rfl, rfl, hrel, hs, ht⟩
    exact h.grow hrel hs ht
  · rintro i _ _ _ ⟨u, v, rfl, rfl, rfl, hi, hrel, hs, ht, hp, hq⟩
    rw [← hbase] at hp hq
    exact ⟨rfl, hi, _, twins_created h hrel hs ht hi hp hq [name]⟩

theorem twins_open (h : Twins (sharesCoupling m root taken) files places s t) (env : Env)
    (filename : String) (flags : OpenFlags)
    (hfree : ∀ name, relative filename = .ok [name] →
      ¬taken (uniqueName name env.stamp env.random)) :
    Agree (SameAnswer m root taken files (.open filename flags))
      (Twins (sharesCoupling m root taken) files places)
      (files.open env filename flags s) (files.open env filename flags t) := by
  have hwo : files.mode.isWriteOnly = true := by
    rw [hmode]
    rfl
  refine Agree.require_bind h fun _ => ?_
  cases hpath : files.path filename with
  | error e => exact Agree.throw h
  | ok requested =>
    refine Agree.bind (A := fun a b s t => a = requested ∧ b = requested ∧
      Twins (sharesCoupling m root taken) files places s t) ⟨rfl, rfl, h⟩ ?_
    rintro _ _ s t ⟨rfl, rfl, h⟩
    rw [if_pos hwo]
    refine Agree.require_bind h fun _ => Agree.require_bind h fun hlen => ?_
    obtain ⟨name, rfl⟩ := List.length_eq_one_iff.1 (hlen hmode)
    have hrel : relative filename = .ok [name] := by
      simpa [Files.path, hroot] using hpath
    refine Agree.bind (twins_openNew hmode hroot h env (hfree name hrel)) ?_
    rintro ino _ s t ⟨rfl, hi, places', h⟩
    have hadd := twins_addHandle h hi false flags.read flags.write
    exact sameAnswer_of_answered hadd

omit hmode in
/-- The attributes of the root are those of a directory in both shares. -/
theorem twins_statRoot (h : Twins (sharesCoupling m root taken) files places s t)
    (follow : Bool) :
    Agree (fun _ _ => Twins (sharesCoupling m root taken) files places)
      (Twins (sharesCoupling m root taken) files places)
      (files.statOther [] follow s) (files.statOther [] follow t) := by
  -- with links followed or not, an empty path leads to the root
  have hstat : Agree (fun x y u v => (∃ p es, x.kind = .dir p es) ∧ (∃ p es, y.kind = .dir p es) ∧
        (Coupling.placing (sharesCoupling m root taken) files.base places).rel u v)
      (Coupling.placing (sharesCoupling m root taken) files.base places).rel
      (Posix.stat files.base [] follow s.fs) (Posix.stat files.base [] follow t.fs) := by
    refine (Coupling.agree_enter h.fs).bind fun _ _ u v hrel => ?_
    have hnode : ∀ fs : Fs, (∃ parent entries, fs.kind root = some (.dir parent entries)) →
        ∃ n, (∃ p es, n.kind = .dir p es) ∧ Posix.nodeOf root fs = .ok n fs := by
      rintro fs ⟨parent, entries, hd⟩
      obtain ⟨n, hn, hk⟩ := Option.map_eq_some_iff.1 hd
      exact ⟨n, ⟨parent, entries, hk⟩, Posix.nodeOf_of_some hn⟩
    obtain ⟨n, hn, hrun⟩ := hnode u hrel.1.dir_left
    obtain ⟨n', hn', hrun'⟩ := hnode v hrel.1.dir_right
    have hbase : ∀ fs : Fs, files.base.start fs = root := fun fs => by
      rw [base, hroot]
      rfl
    have hfind : ∀ fs : Fs, (Posix.resolveIno files.base [] >>= Posix.nodeOf) fs =
        Posix.nodeOf root fs := fun fs => by
      rw [← hbase fs]
      rfl
    have hlast : ∀ fs : Fs, (Posix.lookupLast files.base [] >>= Posix.nodeOf) fs =
        Posix.nodeOf root fs := fun fs => by
      rw [← hbase fs]
      rfl
    cases follow with
    | true =>
      have hu := (hfind u).trans hrun
      have hv := (hfind v).trans hrun'
      change Agree _ _ ((Posix.resolveIno files.base [] >>= Posix.nodeOf) u)
        ((Posix.resolveIno files.base [] >>= Posix.nodeOf) v)
      rw [hu, hv]
      exact ⟨hn, hn', hrel⟩
    | false =>
      have hu := (hlast u).trans hrun
      have hv := (hlast v).trans hrun'
      change Agree _ _ ((Posix.lookupLast files.base [] >>= Posix.nodeOf) u)
        ((Posix.lookupLast files.base [] >>= Posix.nodeOf) v)
      rw [hu, hv]
      exact ⟨hn, hn', hrel⟩
  have hc : ¬(files.mode = .writeOnly ∧ ([] : Path) ≠ []) := fun h => h.2 rfl
  rw [statOther_eq hc, statOther_eq hc]
  cases hs : Posix.stat files.base [] follow s.fs with
  | ok x u =>
    cases ht : Posix.stat files.base [] follow t.fs with
    | ok y v =>
      rw [hs, ht] at hstat
      obtain ⟨hx, hy, hrel⟩ := hstat
      -- so the attributes are left out of both replies
      have hdx : ∀ host, (attributes host x).isDir = true := fun host =>
        (attributes_isDir host x).2 hx
      have hdy : ∀ host, (attributes host y).isDir = true := fun host =>
        (attributes_isDir host y).2 hy
      simp only [hdx, hdy, if_true]
      exact h.set_fs hrel
    | error e v =>
      rw [hs, ht] at hstat
      exact hstat.elim
  | error e u =>
    cases ht : Posix.stat files.base [] follow t.fs with
    | ok y v =>
      rw [hs, ht] at hstat
      exact hstat.elim
    | error e' v =>
      rw [hs, ht] at hstat
      exact ⟨rfl, h.set_fs hstat.2⟩

theorem twins_stat (h : Twins (sharesCoupling m root taken) files places s t) (path : String)
    (follow : Bool) {request : Request} (hreq : request = .stat path ∨ request = .lstat path) :
    Agree (SameAnswer m root taken files request)
      (Twins (sharesCoupling m root taken) files places)
      (files.statRequest path follow s) (files.statRequest path follow t) := by
  have hwo : files.mode.isWriteOnly = true := by
    rw [hmode]
    rfl
  refine twins_statRequest hwo path follow h (fun _ _ _ _ h => sameAnswer_of_answered h)
    fun path' hpath => ?_
  by_cases hnil : path' = []
  · subst hnil
    have hrel : relative path = .ok [] := by
      simpa [Files.path, hroot] using hpath
    exact (twins_statRoot hroot h follow).mono (fun a b s t h =>
      ⟨.inr ⟨⟨path, hreq, hrel⟩, a, b, rfl, rfl⟩, places, h⟩) fun _ _ h => h
  · have hrefused : ¬¬(files.mode = .writeOnly ∧ path' ≠ []) := not_not.2 ⟨hmode, hnil⟩
    exact Agree.require_bind h fun hc => absurd hc hrefused

/-- Every request. -/
theorem twins_step (h : Twins (sharesCoupling m root taken) files places s t) (env : Env)
    (request : Request)
    (hfree : ∀ filename flags name, request = .open filename flags →
      relative filename = .ok [name] → ¬taken (uniqueName name env.stamp env.random)) :
    SameAnswer m root taken files request (files.process env request s).1
      (files.process env request t).1 (files.process env request s).2
      (files.process env request t).2 := by
  have hwo : files.mode.isWriteOnly = true := by
    rw [hmode]
    rfl
  refine twins_process h (fun e s t h => ⟨.inl rfl, places, h⟩) fun h _ => ?_
  by_cases hin : Outward request
  · cases request with
    | «open» filename flags =>
      exact twins_open hmode hroot h env filename flags fun name => hfree filename flags name rfl
    | mkDir path =>
      have hrefused : ¬(files.mode ≠ .readOnly ∧ files.mode ≠ .writeOnly) := fun hc => hc.2 hmode
      exact (twins_of_refused hrefused h).mono (fun _ _ _ _ h => sameAnswer_of_answered h)
        fun _ _ h => h
    | stat path => exact twins_stat hmode hroot h path true (.inl rfl)
    | lstat path => exact twins_stat hmode hroot h path false (.inr rfl)
    | _ => exact hin.elim
  · exact (twins_answer hwo hin env h).mono (fun _ _ _ _ h => sameAnswer_of_answered h)
      fun _ _ h => h

end

/-! ### Runs -/

/-- Two shares that differ only in what is stored under the root: its entries, and what these
lead to.  Numbers from `next` on are free, so that it may be taken to be the same. -/
structure SameBut (root : ℕ) (s t : Fs) : Prop where
  clock : s.clock = t.clock
  host : s.host = t.host
  faults : s.faults = t.faults
  next : s.next = t.next
  dir_left : ∃ parent entries, s.kind root = some (.dir parent entries)
  dir_right : ∃ parent entries, t.kind root = some (.dir parent entries)

/-- A name of an entry of the root of one of two shares. -/
def Taken (root : ℕ) (s t : Fs) (name : String) : Prop :=
  ∃ i, (name, i) ∈ s.entries root ∨ (name, i) ∈ t.entries root

theorem shares_of_sameBut {root : ℕ} {s t : Fs} (h : SameBut root s t) :
    Shares s.next root (Taken root s t) s t where
  clock := h.clock
  host := h.host
  faults := h.faults
  next := h.next
  le := le_refl _
  root_lt := by
    by_contra hge
    obtain ⟨parent, entries, hd⟩ := h.dir_left
    rw [Fs.kind, s.fresh root (by omega)] at hd
    cases hd
  node i hi := by rw [s.fresh i hi, t.fresh i (h.next ▸ hi)]
  file i n hi hn := by
    rw [s.fresh i hi] at hn
    cases hn
  dir_left := h.dir_left
  dir_right := h.dir_right
  names name hname := by
    have hfree : ∀ entries : List (String × ℕ), (∀ i, (name, i) ∉ entries) →
        entries.lookup name = none := fun entries hn => by
      cases hl : entries.lookup name with
      | none => rfl
      | some i => exact absurd (mem_of_lookup hl) (hn i)
    rw [hfree _ fun i hi => hname ⟨i, .inl hi⟩, hfree _ fun i hi => hname ⟨i, .inr hi⟩]

/-- New sessions over two such shares. -/
theorem twins_new {root : ℕ} {s t : Fs} (h : SameBut root s t) (files : Files) :
    Twins (sharesCoupling s.next root (Taken root s t)) files [] (Session.new s)
      (Session.new t) where
  fs := ⟨shares_of_sameBut h, fun _ hp => absurd hp List.not_mem_nil⟩
  own _ hp := absurd hp List.not_mem_nil
  wrote _ := .none
  handles := rfl
  file _ hh := absurd hh List.not_mem_nil
  nextHandle := rfl
  initialized := rfl

/-- No open request gets a name of the server's choosing that an entry of the root has already. -/
def NoCollision (taken : String → Prop) (requests : List (Env × Request)) : Prop :=
  ∀ env filename flags name, (env, .open filename flags) ∈ requests →
    relative filename = .ok [name] → ¬taken (uniqueName name env.stamp env.random)

/-- The replies to the same requests. -/
theorem sameReply_run {m root : ℕ} {taken : String → Prop} {files : Files}
    (hmode : files.mode = .writeOnly) (hroot : files.root = some root)
    {requests : List (Env × Request)} (hfree : NoCollision taken requests)
    {places : List (Path × Path × ℕ)} {s t : Session}
    (h : Twins (sharesCoupling m root taken) files places s t) :
    List.Forall₂ (fun r p => SameReply r.2 p.1 p.2) requests
      ((files.run s requests).1.zip (files.run t requests).1) := by
  induction requests generalizing s t places with
  | nil => exact .nil
  | cons r rest ih =>
    obtain ⟨env, request⟩ := r
    have hstep := twins_step hmode hroot h env request fun filename flags name hreq hrel =>
      hfree env filename flags name (hreq ▸ List.mem_cons_self) hrel
    obtain ⟨hsame, places', h'⟩ := hstep
    exact .cons hsame (ih (fun env filename flags name hmem =>
      hfree env filename flags name (List.mem_cons_of_mem _ hmem)) h')

/-- **A drop box tells nothing of its contents.**  The same requests of new sessions of two
write-only shares that differ only in what is stored under the root get the same replies, but for
the attributes of the root itself, unless a name the server chooses is taken already. -/
theorem noninterference {root : ℕ} {files : Files} (hmode : files.mode = .writeOnly)
    (hroot : files.root = some root) {s t : Fs} (h : SameBut root s t)
    (requests : List (Env × Request)) (hfree : NoCollision (Taken root s t) requests) :
    List.Forall₂ (fun r p => SameReply r.2 p.1 p.2) requests
      ((files.run (Session.new s) requests).1.zip (files.run (Session.new t) requests).1) :=
  sameReply_run hmode hroot hfree (twins_new h files)

/-- A share with other contents than `dropBoxFs`. -/
def otherFs : Fs :=
  .ofList
    [⟨.dir 0 [("x", 1), ("y", 2)], ⟨0o700, 5, 5, 1, 2, 3⟩⟩,
      ⟨.file [1], ⟨0o600, 5, 5, 0, 0, 0⟩⟩, ⟨.file [], ⟨0o600, 5, 5, 0, 0, 0⟩⟩,
      ⟨.file [], ⟨0o600, 5, 5, 0, 0, 0⟩⟩]
    dropBoxFs.host

/-- Sending a file under the name of one that is there. -/
theorem noninterference_sample :
    List.Forall₂ (fun r p => SameReply r.2 p.1 p.2) sendF
      (((ofShare 0 .writeOnly).run (Session.new dropBoxFs) sendF).1.zip
        ((ofShare 0 .writeOnly).run (Session.new otherFs) sendF).1) := by
  refine @noninterference 0 (ofShare 0 .writeOnly) rfl rfl dropBoxFs otherFs
    ⟨rfl, rfl, rfl, rfl, ⟨_, _, rfl⟩, ⟨_, _, rfl⟩⟩ sendF ?_
  intro env filename flags name hmem hrel
  obtain ⟨rfl, rfl⟩ : env = ⟨7, "7", 1⟩ ∧ filename = "f" := by
    simp only [sendF, List.mem_cons, Prod.mk.injEq, reduceCtorEq, and_false, Request.open.injEq,
      List.not_mem_nil, or_false, false_or] at hmem
    exact ⟨hmem.1, hmem.2.1⟩
  have hname : relative "f" = .ok ["f"] := by decide +kernel
  rw [hname] at hrel
  cases hrel
  rintro ⟨i, hi | hi⟩
  · have hentries : dropBoxFs.entries 0 = [("f", 1), ("d", 2), ("l", 3)] := rfl
    have hunique : uniqueName "f" "7" 1 = "f.7.0000000000000001" := by decide +kernel
    simp [hentries, hunique] at hi
  · have hentries : otherFs.entries 0 = [("x", 1), ("y", 2)] := rfl
    have hunique : uniqueName "f" "7" 1 = "f.7.0000000000000001" := by decide +kernel
    simp [hentries, hunique] at hi

end Files

end Tailcat.Sftp
