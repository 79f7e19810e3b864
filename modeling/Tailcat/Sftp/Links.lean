import Tailcat.Lib.PosixFork
import Tailcat.Lib.PosixMake
import Tailcat.Sftp.Clean

/-!
# Symbolic links of a share

A request for a symbolic link names the link and its target, as paths of the share: an absolute
target starts at the virtual root, another one in the directory of the link (`aimed`).  The server
stores the target as cleaned at the virtual root, whichever it is, and the filesystem follows it
from the directory of the link.

* `linked_leads` : a link with a `Faithful` target leads to what the client meant;
* `exists_elsewhere` : with any other target there is a filesystem in which it does not, built of
  two paths (`Posix.forkFs`);
* `symlink_leads_iff` : both, for the requests of any session;
* `symlink_leads_elsewhere` : a link to a file in the root, from a directory.
-/

namespace Tailcat.Sftp

open Posix (Base Fs Path isDot linkPath)
open Program (require)

/-! ### Texts -/

/-- The text stored in a link to a path below the virtual root. -/
def linkText (target : Path) : String :=
  if target = [] then "." else String.intercalate "/" target

/-- Does a text name a path from the virtual root? -/
def isAbsolute (text : String) : Prop := text.toList.head? = some '/'

instance (text : String) : Decidable (isAbsolute text) :=
  inferInstanceAs (Decidable (text.toList.head? = some '/'))

/-- The path a client means by the target of a link. -/
def aimed (target : String) (link : Path) : Path :=
  if isAbsolute target then clean (parts target)
  else resolved link.dropLast (parts target)

theorem linkPath_linkText {t : Path} (h : Normal t) :
    linkPath (linkText t) = if t = [] then ["."] else t := by
  unfold linkText
  split_ifs with ht
  · decide +kernel
  · have hslash : ∀ s ∈ t.map String.toList, '/' ∉ s := by
      intro s hs
      obtain ⟨name, hname, rfl⟩ := List.mem_map.1 hs
      exact (h name hname).2.2.2
    have hne : t.map String.toList ≠ [] := by simpa using ht
    have hsep : ("/" : String).toList = ['/'] := rfl
    rw [linkPath, String.toList_intercalate, hsep, List.splitOn_intercalate '/' hslash hne,
      List.map_map]
    simp

/-- A stored text is not absolute. -/
theorem linkText_relative {t : Path} (h : Normal t) : (linkText t).toList.head? ≠ some '/' := by
  intro hhead
  obtain ⟨cs, hcs⟩ : ∃ cs, (linkText t).toList = '/' :: cs := by
    cases hl : (linkText t).toList with
    | nil =>
      rw [hl] at hhead
      cases hhead
    | cons c cs =>
      rw [hl] at hhead
      exact ⟨cs, by rw [Option.some.inj hhead]⟩
  by_cases ht : t = []
  · rw [linkText, if_pos ht] at hcs
    revert hcs
    simp
  · have hparts : parts (linkText t) = t := by
      rw [linkText, if_neg ht]
      exact parts_intercalate ht h
    rw [parts, hcs] at hparts
    have hfirst : "" ∈ t := by
      rw [← hparts, splitOn, if_pos rfl]
      exact List.mem_cons_self
    exact (h "" hfirst).1 rfl

/-! ### The request -/

/-- The filesystem in which a link has been made. -/
def linked (base : Base) (fs : Fs) (text : String) (link : Path) (d : ℕ) (name : String) : Fs :=
  (fs.resolvedParent base link).create d name (.symlink text) 0o777

/-- The filesystem a call finds behind the chance of failing. -/
def entered (fs : Fs) : Fs := { fs with faults := fs.faults.tail }

theorem symlink_made {base : Base} {fs : Fs} {text : String} {link : Path} {d : ℕ} {name : String}
    (hf : fs.faults.headD none = none)
    (hv : (entered fs).vacantAt base link = .ok (d, name)) :
    Posix.symlink base text link fs = .ok () (linked base (entered fs) text link d name) := by
  have he := Posix.enter_eq fs
  rw [hf] at he
  refine (Program.bind_ok he _).trans ?_
  exact Program.bind_ok (Posix.createNew_ok hv _ _) _

/-- A link is made only where there is nothing. -/
theorem symlink_ends (base : Base) (fs : Fs) (text : String) (link : Path) :
    Program.Ends (fun _ fs' => fs.faults.headD none = none ∧ ∃ d name,
        (entered fs).vacantAt base link = .ok (d, name) ∧
          fs' = linked base (entered fs) text link d name)
      (fun _ _ => True) (Posix.symlink base text link fs) := by
  have he := Posix.enter_eq fs
  cases hf : fs.faults.headD none with
  | some fault =>
    rw [hf] at he
    have hfail : Posix.symlink base text link fs = .error fault.errno (entered fs) :=
      Program.bind_error he _
    rw [hfail]
    trivial
  | none =>
    cases hv : (entered fs).vacantAt base link with
    | ok p =>
      rw [symlink_made hf hv]
      exact ⟨rfl, p.1, p.2, rfl, rfl⟩
    | error e =>
      rw [hf] at he
      have hfail : Posix.symlink base text link fs =
          .error e ((entered fs).resolvedParent base link) :=
        (Program.bind_ok he _).trans (Program.bind_error (Posix.createNew_error hv _ _) _)
      rw [hfail]
      trivial

section Request

variable {files : Files} {root : ℕ} {s : Session} {env : Env} {target link : String}

theorem symlink_eq (hroot : files.root = some root) (hT : '\x00' ∉ target.toList)
    (hL : '\x00' ∉ link.toList) (s : Session) :
    files.symlink target link s = (files.requireRw >>= fun _ => do
      call (Posix.symlink files.base (linkText (clean (parts target))) (clean (parts link)))
      return .status .ok : FxM Reply) s := by
  have hpath : files.path link = .ok (clean (parts link)) := by
    rw [Files.path, hroot]
    exact relative_ok hL
  unfold Files.symlink
  rw [hroot, hpath, relative_ok hT]
  rfl

/-- The filesystem when a request is processed, behind the chance of failing. -/
def found (env : Env) (s : Session) : Fs := entered { s.fs with clock := env.clock }

/-- A request that succeeds has made the link. -/
theorem symlink_ok (hroot : files.root = some root) (hT : '\x00' ∉ target.toList)
    (hL : '\x00' ∉ link.toList)
    (hok : (files.process env (.symlink target link) s).1 = .status .ok) :
    ∃ d name, (found env s).vacantAt files.base (clean (parts link)) = .ok (d, name) ∧
      (files.process env (.symlink target link) s).2.fs =
        linked files.base (found env s) (linkText (clean (parts target))) (clean (parts link))
          d name := by
  refine files.of_process_ok (P := fun s' => ∃ d name,
    (found env s).vacantAt files.base (clean (parts link)) = .ok (d, name) ∧
      s'.fs = linked files.base (found env s) (linkText (clean (parts target)))
        (clean (parts link)) d name) ?_ hok
  rw [Files.dispatch_eq]
  split
  · rw [Files.answer, symlink_eq hroot hT hL]
    refine Program.Ends.bind (P := fun _ s' => s' = { s with fs := { s.fs with clock := env.clock } })
      (Program.Ends.require (fun _ => rfl) fun _ => by decide) fun _ s₁ h => ?_
    subst h
    refine Program.Ends.bind (ends_call_ne (symlink_ends files.base _ _ _)) fun _ s₂ h => ?_
    obtain ⟨fs, rfl, -, d, name, hv, rfl⟩ := h
    exact ⟨d, name, hv, rfl⟩
  · exact fun h => by cases h

/-- A request succeeds in a read-write session, where the link can be made. -/
theorem process_symlink (hroot : files.root = some root) (hmode : files.mode = .readWrite)
    (hinit : s.initialized) (hT : '\x00' ∉ target.toList) (hL : '\x00' ∉ link.toList)
    (hf : s.fs.faults.headD none = none) {d : ℕ} {name : String}
    (hv : (found env s).vacantAt files.base (clean (parts link)) = .ok (d, name)) :
    (files.process env (.symlink target link) s).1 = .status .ok := by
  have hmade : Posix.symlink files.base (linkText (clean (parts target))) (clean (parts link))
      { s.fs with clock := env.clock } = _ := symlink_made hf hv
  have hcall := call_eq (Posix.symlink files.base (linkText (clean (parts target)))
    (clean (parts link))) { s with fs := { s.fs with clock := env.clock } }
  rw [hmade] at hcall
  have hrw : files.requireRw { s with fs := { s.fs with clock := env.clock } } =
      .ok () { s with fs := { s.fs with clock := env.clock } } := by
    rw [Files.requireRw, require, if_pos hmode]
    rfl
  rw [Files.process, Files.dispatch_eq, if_pos (.inr hinit), Files.answer,
    symlink_eq hroot hT hL, Program.bind_ok hrw, Program.bind_ok hcall]
  rfl

end Request

/-! ### Where the link leads -/

section Leads

variable {base : Base} {fs : Fs} {link : Path} {d i : ℕ} {name : String} {t : Path}

/-- What a link is in the filesystem in which it has been made. -/
theorem linked_spec (hv : fs.vacantAt base link = .ok (d, name)) (text : String) :
    Posix.Grows fs (linked base fs text link d name) ∧ ∃ parent entries l,
      (linked base fs text link d name).kind d = some (.dir parent entries) ∧
      entries.lookup name = some l ∧
      (linked base fs text link d name).kind l = some (.symlink text) := by
  have hunmade : Posix.Unmade 0 true fs (fs.resolvedParent base link) :=
    Posix.unmade_resolvedParent (Nat.zero_le _) (fun h => by cases h)
  have hres : Posix.Grows fs (fs.resolvedParent base link) := hunmade.toGrows
  obtain ⟨-, -, hdir, -, -⟩ := Posix.of_vacantAt hv
  obtain ⟨-, parent, entries, hd⟩ := Posix.of_dirAt hdir
  obtain ⟨-, hnone⟩ := Posix.lookup_of_vacantAt hv hd
  have hd' : (fs.resolvedParent base link).kind d = some (.dir parent entries) := by
    rw [Posix.kind_resolvedParent, hd]
  have hne : d ≠ (fs.resolvedParent base link).next := by
    intro h
    rw [h, Posix.kind_next] at hd'
    cases hd'
  refine ⟨Posix.growing.trans hres (Posix.grows_create _ d name _ 0o777), parent,
    entries ++ [(name, (fs.resolvedParent base link).next)],
    (fs.resolvedParent base link).next, ?_, ?_, ?_⟩
  · rw [linked, Posix.kind_create hd', if_neg hne, if_pos rfl]
  · rw [List.lookup_append, hnone, Option.none_or, List.lookup_cons_self]
  · rw [linked, Posix.kind_create hd', if_pos rfl]

/-- A path through the link goes on with the target, in the directory of the link. -/
theorem reaches_linked (hv : fs.vacantAt base link = .ok (d, name)) (ht : Normal t)
    (hname : name ≠ "..") (rest : Path) :
    (linked base fs (linkText t) link d name).Reaches base d (name :: rest) i ↔
      (linked base fs (linkText t) link d name).Reaches base d (t ++ rest) i := by
  obtain ⟨-, parent, entries, l, hd, hl, hk⟩ := linked_spec hv (linkText t)
  obtain ⟨-, -, -, hdot, -⟩ := Posix.of_vacantAt hv
  rw [Posix.reaches_link hd (by simp [hdot]) hname hl hk (linkText_relative ht),
    linkPath_linkText ht]
  split_ifs with hnil
  · -- the text of a link to the root stays where it is
    subst hnil
    have hdots : (linked base fs (linkText []) link d name).Straight base d ["."] d := by
      rw [Fs.Straight, Posix.walk, Posix.walkFrom_dot hd (by decide)]
      rfl
    exact Posix.reaches_append hdots
  · rfl

/-- A link whose target begins with its own name leads nowhere. -/
theorem not_reaches_linked (hv : fs.vacantAt base link = .ok (d, name)) (ht : Normal t)
    (hname : name ≠ "..") (hloop : t.head? = some name) (rest : Path) :
    ¬(linked base fs (linkText t) link d name).Reaches base d (name :: rest) i := by
  obtain ⟨-, parent, entries, l, hd, hl, hk⟩ := linked_spec hv (linkText t)
  obtain ⟨-, -, -, hdot, -⟩ := Posix.of_vacantAt hv
  refine Posix.not_reaches_loop hd (by simp [hdot]) hname hl hk (linkText_relative ht) ?_
  rw [linkPath_linkText ht, if_neg ?_, hloop]
  rintro rfl
  cases hloop

/-- Paths through the link, and beside it. -/
theorem reaches_linked_root (hv : fs.vacantAt base link = .ok (d, name)) (ht : Normal t)
    (hlink : Normal link) (hdir : fs.Straight base (base.start fs) link.dropLast d)
    (rest : Path) :
    ((linked base fs (linkText t) link d name).Reaches base (base.start fs) (link ++ rest) i ↔
      (linked base fs (linkText t) link d name).Reaches base d (t ++ rest) i) ∧
    ((linked base fs (linkText t) link d name).Reaches base (base.start fs)
        (link.dropLast ++ rest) i ↔
      (linked base fs (linkText t) link d name).Reaches base d rest i) := by
  obtain ⟨hl, hlast, -, -, -⟩ := Posix.of_vacantAt hv
  have hname : name ≠ ".." := (hlink name (List.mem_of_getLast? hlast)).2.2.1
  obtain ⟨hgrow, -⟩ := linked_spec hv (linkText t)
  have hstraight := hdir.grow hgrow
  refine ⟨?_, Posix.reaches_append hstraight⟩
  rw [← reaches_linked hv ht hname, ← Posix.reaches_append hstraight]
  have happ : link ++ rest = link.dropLast ++ name :: rest := by
    conv_lhs => rw [hl]
    rw [List.append_assoc, List.singleton_append]
  rw [happ]

end Leads

/-! ### When a link leads where the client meant -/

/-- The targets that a link leads to in any filesystem: every target if the link is in the virtual
root; otherwise one that is not absolute and does not climb out of the directory of the link.  (A
link to itself is itself; and neither a link whose target is cleaned to what begins with the link's
own name leads anywhere, nor does a target behind such a link.) -/
def Faithful (target link : String) : Prop :=
  let l := clean (parts link)
  l.dropLast = [] ∨ (¬isAbsolute target ∧ climbs target = 0) ∨ aimed target l = l ∨
    (l <+: aimed target l ∧ (clean (parts target)).head? = l.getLast?)

/-- The link leads to the object that the target leads to. -/
def LeadsThere (base : Base) (fs : Fs) (target link : String) : Prop :=
  ∀ i, fs.Reaches base (base.start fs) (clean (parts link)) i ↔
    fs.Reaches base (base.start fs) (aimed target (clean (parts link))) i

/-- From the directory of the link. -/
theorem aimed_of_stays {target : String} {l : Path}
    (h : l.dropLast = [] ∨ (¬isAbsolute target ∧ climbs target = 0)) :
    aimed target l = l.dropLast ++ clean (parts target) := by
  have hresolved : l.dropLast = [] ∨ climbs target = 0 →
      resolved l.dropLast (parts target) = l.dropLast ++ clean (parts target) :=
    (Lexical.resolve_eq_append_iff up_not_idle l.dropLast (parts target)).2
  unfold aimed
  split_ifs with habs
  · rcases h with h | ⟨hrel, -⟩
    · rw [h, List.nil_append]
    · exact absurd habs hrel
  · exact hresolved (h.imp_right And.right)

theorem start_linked {base : Base} {fs : Fs} {link : Path} {d : ℕ} {name : String}
    (hv : fs.vacantAt base link = .ok (d, name)) (text : String) :
    base.start (linked base fs text link d name) = base.start fs := by
  cases base with
  | within root => rfl
  | ambient => exact (linked_spec hv text).1.slash

theorem linked_leads {base : Base} {fs : Fs} {target link : String} {d : ℕ} {name : String}
    (hv : fs.vacantAt base (clean (parts link)) = .ok (d, name))
    (hdir : fs.Straight base (base.start fs) (clean (parts link)).dropLast d)
    (h : Faithful target link) :
    LeadsThere base (linked base fs (linkText (clean (parts target))) (clean (parts link)) d name)
      target link := by
  have ht : Normal (clean (parts target)) := clean_normal target
  have hL : Normal (clean (parts link)) := clean_normal link
  obtain ⟨hl, hlast, -, -, -⟩ := Posix.of_vacantAt hv
  intro i
  rw [start_linked hv]
  have hpaths := reaches_linked_root (i := i) hv ht hL hdir
  have hlink := (hpaths []).1
  rw [List.append_nil, List.append_nil] at hlink
  have hstays : aimed target (clean (parts link)) =
      (clean (parts link)).dropLast ++ clean (parts target) → _ :=
    fun haim => hlink.trans (haim ▸ (hpaths _).2.symm)
  rcases h with h | h | h | ⟨⟨rest, hrest⟩, hloop⟩
  · exact hstays (aimed_of_stays (.inl h))
  · exact hstays (aimed_of_stays (.inr h))
  · rw [h]
  · -- neither leads anywhere
    have hname : name ≠ ".." := (hL name (List.mem_of_getLast? hlast)).2.2.1
    have hnever : ∀ rest, ¬(linked base fs (linkText (clean (parts target))) (clean (parts link)) d
        name).Reaches base d (clean (parts target) ++ rest) i := fun rest hr =>
      not_reaches_linked hv ht hname (hloop.trans hlast) rest
        ((reaches_linked hv ht hname rest).2 hr)
    rw [← hrest]
    constructor
    · intro hr
      have hr' := (hpaths []).1.1 (by rwa [List.append_nil])
      exact absurd hr' (hnever [])
    · intro hr
      exact absurd ((hpaths rest).1.1 hr) (hnever rest)

/-! ### Where a link leads elsewhere -/

/-- The name of a new entry of the directory at a straight path. -/
theorem vacantAt_of_straight {base : Base} {fs : Fs} {p : Path} {d parent : ℕ} {x : String}
    {entries : List (String × ℕ)} (hs : fs.Straight base (base.start fs) p d)
    (hd : fs.kind d = some (.dir parent entries)) (hdot : isDot x = false) (hup : x ≠ "..")
    (hnone : entries.lookup x = none) : fs.vacantAt base (p ++ [x]) = .ok (d, x) := by
  have hsplit : Posix.splitLast (p ++ [x]) = some (p, x) := by
    rw [Posix.splitLast, List.getLast?_append, List.dropLast_concat]
    rfl
  have hwalk : (Posix.walk fs base Posix.maxLinks (base.start fs) p).2 = .ok (.found d) := by
    have h := hs.walk Posix.maxLinks []
    rw [List.append_nil] at h
    rw [h]
    rfl
  have hdirAt : fs.dirAt base p = .ok d := by
    simp only [Fs.dirAt, hwalk, hd]
  have hchild : fs.child d x = none := by
    rw [Fs.child, hd]
    simp only [if_neg hup, hnone]
  rw [Fs.vacantAt, hsplit]
  simp only [hdirAt, hdot, hchild, and_self, if_true]

/-- Making a link changes nothing but the entries of its directory. -/
theorem linked_dir {base : Base} {fs : Fs} {link : Path} {d : ℕ} {name : String} (text : String)
    (hv : fs.vacantAt base link = .ok (d, name)) {k parent : ℕ} {entries : List (String × ℕ)}
    (hk : fs.kind k = some (.dir parent entries)) :
    ∃ entries', (linked base fs text link d name).kind k = some (.dir parent entries') ∧
      ∀ other i, entries'.lookup other = some i →
        entries.lookup other = some i ∨ (k = d ∧ other = name) := by
  obtain ⟨-, -, hdir, -, -⟩ := Posix.of_vacantAt hv
  obtain ⟨-, p, es, hd⟩ := Posix.of_dirAt hdir
  have hd' : (fs.resolvedParent base link).kind d = some (.dir p es) := by
    rw [Posix.kind_resolvedParent, hd]
  have hk' : (fs.resolvedParent base link).kind k = some (.dir parent entries) := by
    rw [Posix.kind_resolvedParent, hk]
  have hne : k ≠ (fs.resolvedParent base link).next := by
    intro h
    rw [h, Posix.kind_next] at hk'
    cases hk'
  rw [linked, Posix.kind_create hd', if_neg hne]
  by_cases hkd : k = d
  · obtain ⟨rfl, rfl⟩ : p = parent ∧ es = entries := by
      rw [hkd, hd] at hk
      exact Posix.Kind.dir.inj (Option.some.inj hk)
    rw [if_pos hkd]
    refine ⟨_, rfl, fun other i hl => ?_⟩
    rw [List.lookup_append] at hl
    cases ho : es.lookup other with
    | some j =>
      rw [ho, Option.some_or] at hl
      exact .inl hl
    | none =>
      rw [ho, Option.none_or, List.lookup_cons] at hl
      by_cases hother : other = name
      · exact .inr ⟨hkd, hother⟩
      · rw [beq_false_of_ne hother] at hl
        cases hl
  · rw [if_neg hkd]
    exact ⟨entries, hk', fun other i hl => .inl hl⟩

/-- A name of a path that leads to an object. -/
theorem walkFrom_step {fs : Fs} {base : Base} {jump : ℕ → Path → Posix.Walked}
    {k i parent : ℕ} {entries : List (String × ℕ)} {name : String} {rest : Path}
    (hk : fs.kind k = some (.dir parent entries)) (hdot : ¬isDot name) (hup : name ≠ "..")
    (h : (Posix.walkFrom fs base jump k (name :: rest)).2 = .ok (.found i)) :
    ∃ j, entries.lookup name = some j ∧
      ((∀ target, fs.kind j ≠ some (.symlink target)) →
        (Posix.walkFrom fs base jump j rest).2 = .ok (.found i)) := by
  rw [Posix.walkFrom_name hk hdot hup] at h
  cases hl : entries.lookup name with
  | none =>
    simp only [hl, Posix.absent] at h
    split_ifs at h
    all_goals cases h
  | some j =>
    simp only [hl] at h
    refine ⟨j, rfl, fun hlink => ?_⟩
    cases hkj : fs.kind j with
    | none =>
      rw [hkj] at h
      cases h
    | some kj =>
      rw [hkj] at h
      cases kj with
      | file data => exact h
      | dir p es => exact h
      | symlink target => exact absurd hkj (hlink target)

/-- A name of a normal form is an ordinary one. -/
theorem Normal.ordinary {path : Path} (h : Normal path) :
    ∀ name ∈ path, ¬isDot name ∧ name ≠ ".." := by
  intro name hname
  obtain ⟨hempty, hdot, hup, -⟩ := h name hname
  refine ⟨fun hd => ?_, hup⟩
  rw [isDot, Bool.or_eq_true, decide_eq_true_eq, decide_eq_true_eq] at hd
  exact hd.elim hdot hempty

section Elsewhere

variable {base : Base} {p t : Path} {x text : String}

/-- A path that does not lead through the link ends at most as many directories deeper as it has
names. -/
theorem linked_bound {file : Bool}
    (hv : (Posix.forkFs (p ++ t) file 0 []).vacantAt base (p ++ [x]) = .ok (p.length, x))
    {n k i : ℕ} {path : Path} (hk : k ≤ (p ++ t).length)
    (hnames : ∀ name ∈ path, ¬isDot name ∧ name ≠ "..")
    (hpast : ¬(k ≤ p.length ∧ p.drop k ++ [x] <+: path))
    (h : (Posix.walk (linked base (Posix.forkFs (p ++ t) file 0 []) text (p ++ [x])
      p.length x) base n k path).2 = .ok (.found i)) : i ≤ k + path.length := by
  -- how far links may still be followed does not matter here
  obtain ⟨jump, hjump⟩ : ∃ jump, Posix.walk (linked base (Posix.forkFs (p ++ t) file 0 [])
      text (p ++ [x]) p.length x) base n = Posix.walkFrom (linked base
        (Posix.forkFs (p ++ t) file 0 []) text (p ++ [x]) p.length x) base jump := by
    cases n with
    | zero => exact ⟨_, rfl⟩
    | succ n => exact ⟨_, rfl⟩
  rw [hjump] at h
  obtain ⟨hgrow, -⟩ := linked_spec hv text
  induction path generalizing k with
  | nil =>
    obtain rfl : k = i := by simpa [Posix.walkFrom] using h
    omega
  | cons name rest ih =>
    by_cases hfile : k = (p ++ t).length ∧ file = true
    · -- behind a file there is nothing
      have hkind : (Posix.forkFs (p ++ t) file 0 []).kind k = some (.file []) := by
        rw [Posix.kind_forkFs _ _ _ _ (by omega), Posix.forkKind, if_pos hk, if_pos hfile]
      obtain ⟨k', hk', he⟩ := hgrow.kind k _ hkind
      rw [Posix.walkFrom_notdir] at h
      · cases h
      · rintro parent entries heq
        rw [hk'] at heq
        obtain rfl := Option.some.inj heq
        exact he
    obtain ⟨parent, entries, hd, hl⟩ := Posix.forkFs_main (p ++ t) file 0 [] hk fun hlast => by
        cases file with
        | false => rfl
        | true => exact absurd ⟨hlast, rfl⟩ hfile
    obtain ⟨entries', hd', hnew⟩ := linked_dir text hv hd
    obtain ⟨hdot, hup⟩ := hnames name List.mem_cons_self
    obtain ⟨j, hj, hrest⟩ := walkFrom_step hd' hdot hup h
    rcases hnew name j hj with hold | ⟨hkp, hname⟩
    · -- the path goes on along the directories
      rw [hl] at hold
      split_ifs at hold with hat hbranch
      · obtain rfl := Option.some.inj hold
        have hlt : k < (p ++ t).length := (List.getElem?_eq_some_iff.1 hat).1
        obtain ⟨kk, hkk⟩ : ∃ kk, (Posix.forkFs (p ++ t) file 0 []).kind (k + 1) = some kk :=
          ⟨_, Posix.kind_forkFs _ _ _ _ (by omega)⟩
        obtain ⟨kk', hkk', he⟩ := hgrow.kind (k + 1) kk hkk
        have hlink : ∀ target, (linked base (Posix.forkFs (p ++ t) file 0 []) text (p ++ [x])
            p.length x).kind (k + 1) ≠ some (.symlink target) := by
          intro target heq
          rw [hkk'] at heq
          obtain rfl := Option.some.inj heq
          cases kk with
          | file data => exact he
          | dir p es => exact he
          | symlink other => exact Posix.not_link_forkFs hkk other rfl
        have hle := ih (by omega) (fun n hn => hnames n (List.mem_cons_of_mem name hn)) ?_
          (hrest hlink)
        · rw [List.length_cons]
          omega
        · rintro ⟨hkp, hpre⟩
          refine hpast ⟨by omega, ?_⟩
          have hat' : p[k]? = some name := by
            rw [← hat, List.getElem?_append_left (by omega)]
          obtain ⟨hkp', hget⟩ := List.getElem?_eq_some_iff.1 hat'
          rw [List.drop_eq_getElem_cons hkp', hget, List.cons_append]
          exact List.cons_prefix_cons.2 ⟨rfl, hpre⟩
      · exact absurd hbranch.2 (by simp)
    · -- or through the link
      refine absurd ⟨hkp.le, ?_⟩ hpast
      rw [hkp, hname, List.drop_length, List.nil_append]
      exact ⟨rest, rfl⟩

/-- Two paths go together as far as they are the same. -/
theorem exists_fork (p aim : Path) :
    ∃ j branch, j ≤ p.length ∧ aim = p.take j ++ branch ∧
      ∀ y, branch.head? = some y → p[j]? ≠ some y := by
  induction p generalizing aim with
  | nil => exact ⟨0, aim, le_refl _, rfl, fun y _ => by simp⟩
  | cons a p ih =>
    cases aim with
    | nil => exact ⟨0, [], Nat.zero_le _, rfl, fun y hy => by cases hy⟩
    | cons b aim =>
      by_cases hab : a = b
      · subst hab
        obtain ⟨j, branch, hj, rfl, hleave⟩ := ih aim
        exact ⟨j + 1, branch, Nat.succ_le_succ hj, rfl, fun y hy => by simpa using hleave y hy⟩
      · refine ⟨0, b :: aim, Nat.zero_le _, rfl, fun y hy h => hab ?_⟩
        rw [List.head?_cons, Option.some.injEq] at hy
        rw [List.getElem?_cons_zero, Option.some.injEq] at h
        exact h.trans hy.symm

variable {root : ℕ}

/-- Behind a file there is nothing. -/
theorem not_reaches_file {fs : Fs} {k : Posix.Kind} {e i : ℕ} (hk : fs.kind e = some k)
    (he : (Posix.Kind.file []).Extends k) {rest : Path} (hne : rest ≠ []) :
    ¬fs.Reaches base e rest i := by
  rintro ⟨n, links, hn⟩
  obtain ⟨name, rest, rfl⟩ := List.exists_cons_of_ne_nil hne
  have hdir : ∀ parent entries, fs.kind e ≠ some (.dir parent entries) := by
    intro parent entries heq
    rw [hk] at heq
    obtain rfl := Option.some.inj heq
    exact he
  cases n with
  | zero =>
    rw [Posix.walk, Posix.walkFrom_notdir hdir] at hn
    cases hn
  | succ n =>
    rw [Posix.walk, Posix.walkFrom_notdir hdir] at hn
    cases hn

/-- A straight path below the root, to the directory of a new entry. -/
structure Ready (fs : Fs) (p : Path) (x : String) : Prop where
  clock : fs.clock = 0
  faults : fs.faults = []
  straight : fs.Straight (.within 0) 0 p p.length
  vacant : fs.vacantAt (.within 0) (p ++ [x]) = .ok (p.length, x)

/-- The directories along a path, and what is behind them. -/
theorem ready_fork (hp : Normal (p ++ [x])) {file : Bool} {j : ℕ} {branch : Path}
    (hf : t = [] → file = false) (ht : t.head? ≠ some x)
    (hb : p.length = j → branch.head? ≠ some x) :
    Ready (Posix.forkFs (p ++ t) file j branch) p x where
  clock := rfl
  faults := rfl
  straight := by
    have h := Posix.straight_main file j branch (.within 0) (show p ++ t = [] ++ p ++ t by simp)
      fun name hname => hp.ordinary name (List.mem_append_left _ hname)
    simpa using h
  vacant := by
    have hstraight := Posix.straight_main file j branch (.within 0)
      (show p ++ t = [] ++ p ++ t by simp) fun name hname => hp.ordinary name (List.mem_append_left _ hname)
    rw [List.length_nil, Nat.zero_add] at hstraight
    obtain ⟨hdot, hup⟩ := hp.ordinary x (List.mem_append_right _ List.mem_cons_self)
    obtain ⟨parent, entries, hd, hl⟩ := Posix.forkFs_main (p ++ t) file j branch
      (show p.length ≤ (p ++ t).length by simp) fun h => hf (by simpa using h)
    refine vacantAt_of_straight hstraight hd (by simpa using hdot) hup ?_
    have hat : (p ++ t)[p.length]? ≠ some x := by
      rw [List.getElem?_append_right (le_refl _), Nat.sub_self, ← List.head?_eq_getElem?]
      exact ht
    rw [hl, if_neg hat, if_neg fun h => hb h.1 h.2]

/-- The target does not begin with the name of the link: along the directories of the link and then
of the target there is something that the link leads to, and what the client meant is higher. -/
theorem leads_deeper (hp : Normal (p ++ [x])) (ht : Normal t) (hx : t.head? ≠ some x) {aim : Path}
    (haim : ∃ k < p.length, aim = p.take k ++ t) (hself : aim ≠ p ++ [x]) :
    ∃ fs, Ready fs p x ∧ ∃ e,
      (linked (.within 0) fs (linkText t) (p ++ [x]) p.length x).Reaches (.within 0) 0
        (p ++ [x]) e ∧
      ¬(linked (.within 0) fs (linkText t) (p ++ [x]) p.length x).Reaches (.within 0) 0 aim e := by
  have hpn : Normal p := fun name hname => hp name (List.mem_append_left _ hname)
  have hready : Ready (Posix.forkFs (p ++ t) (t ≠ []) 0 []) p x :=
    ready_fork hp (fun h => by simp [h]) hx fun _ => by simp
  refine ⟨_, hready, (p ++ t).length, ?_⟩
  obtain ⟨hgrow, -⟩ := linked_spec hready.vacant (linkText t)
  have htarget : (Posix.forkFs (p ++ t) (t ≠ []) 0 []).Straight (.within 0) p.length t
      (p ++ t).length := by
    have h := Posix.straight_main (t ≠ []) 0 [] (.within 0) (show p ++ t = p ++ t ++ [] by simp)
      ht.ordinary
    rwa [← List.length_append] at h
  have hpaths := fun i => reaches_linked_root (i := i) hready.vacant ht hp (by
    rw [List.dropLast_concat]
    exact hready.straight)
  have htarget' := htarget.grow hgrow
  constructor
  · have h := ((hpaths (p ++ t).length []).1).2 (by
      rw [List.append_nil]
      exact htarget'.reaches.2 rfl)
    rwa [List.append_nil] at h
  · intro hreach
    obtain ⟨k, hk, rfl⟩ := haim
    by_cases hpast : p ++ [x] <+: p.take k ++ t
    · -- the path goes through the link, to something behind a file
      obtain ⟨rest, hrest⟩ := hpast
      rw [← hrest] at hreach hself
      have hne : rest ≠ [] := by
        rintro rfl
        exact hself (List.append_nil _)
      have hthrough := (Posix.reaches_append htarget').1
        ((hpaths (p ++ t).length rest).1.1 hreach)
      have htn : t ≠ [] := by
        rintro rfl
        have hlen := congrArg List.length hrest
        simp only [List.length_append, List.length_singleton, List.length_take,
          List.length_nil] at hlen
        omega
      have hkind : (Posix.forkFs (p ++ t) (t ≠ []) 0 []).kind (p ++ t).length =
          some (.file []) := by
        rw [Posix.kind_forkFs _ _ _ _ (by omega), Posix.forkKind, if_pos (le_refl _), if_pos ⟨rfl, by simpa⟩]
      obtain ⟨k', hk', he⟩ := hgrow.kind _ _ hkind
      exact not_reaches_file hk' he hne hthrough
    · obtain ⟨n, links, hn⟩ := hreach
      have hnames : ∀ name ∈ p.take k ++ t, ¬isDot name ∧ name ≠ ".." := by
        intro name hname
        rcases List.mem_append.1 hname with h | h
        · exact hpn.ordinary name (List.mem_of_mem_take h)
        · exact ht.ordinary name h
      have hle := linked_bound hready.vacant (Nat.zero_le _) hnames
        (fun h => hpast (by simpa using h.2)) (by rw [hn])
      rw [List.length_append, List.length_append, List.length_take] at hle
      omega

/-- The target begins with the name of the link, which then leads nowhere, and what the client meant
is somewhere else. -/
theorem leads_nowhere (hp : Normal (p ++ [x])) (ht : Normal t) (hx : t.head? = some x) {aim : Path}
    (haim : Normal aim) (hpast : ¬p ++ [x] <+: aim) :
    ∃ fs, Ready fs p x ∧ ∃ e,
      ¬(linked (.within 0) fs (linkText t) (p ++ [x]) p.length x).Reaches (.within 0) 0
        (p ++ [x]) e ∧
      (linked (.within 0) fs (linkText t) (p ++ [x]) p.length x).Reaches (.within 0) 0 aim e := by
  obtain ⟨j, branch, hj, rfl, hleave⟩ := exists_fork p aim
  have hpn : Normal p := fun name hname => hp name (List.mem_append_left _ hname)
  have hbn : Normal branch := fun name hname => haim name (List.mem_append_right _ hname)
  have hready : Ready (Posix.forkFs (p ++ []) false j branch) p x := by
    refine ready_fork hp (fun _ => rfl) (by simp) fun hlast hb => hpast ?_
    obtain ⟨rest, hrest⟩ : ∃ rest, branch = x :: rest := by
      cases branch with
      | nil => cases hb
      | cons y rest => exact ⟨rest, by rw [Option.some.inj hb]⟩
    rw [← hlast, List.take_length, hrest]
    exact ⟨rest, by simp⟩
  rw [List.append_nil] at hready
  obtain ⟨e, hbranch⟩ := Posix.straight_branch (.within 0) hj (fun _ => rfl) hleave hbn.ordinary
  have hfirst := Posix.straight_main false j branch (.within 0)
    (show p = [] ++ p.take j ++ p.drop j by simp) fun name hname => hpn.ordinary name (List.mem_of_mem_take hname)
  rw [List.length_nil, Nat.zero_add, List.length_take, min_eq_left hj] at hfirst
  obtain ⟨hgrow, -⟩ := linked_spec hready.vacant (linkText t)
  refine ⟨_, hready, e, fun hreach => ?_, ?_⟩
  · have hpaths := reaches_linked_root (i := e) hready.vacant ht hp (by
      rw [List.dropLast_concat]
      exact hready.straight) []
    rw [List.append_nil] at hpaths
    have hup := (hp x (List.mem_append_right _ List.mem_cons_self)).2.2.1
    exact not_reaches_linked hready.vacant ht hup hx []
      ((reaches_linked hready.vacant ht hup []).2 (hpaths.1.1 hreach))
  · exact ((hfirst.append hbranch).grow hgrow).reaches.2 rfl

end Elsewhere

/-! ### Every filesystem -/

/-- The path a client means, where it is not below the directory of the link. -/
theorem aimed_of_leaves {target : String} {l : Path} (hl : l.dropLast ≠ [])
    (h : isAbsolute target ∨ climbs target ≠ 0) :
    ∃ k < l.dropLast.length, aimed target l = l.dropLast.take k ++ clean (parts target) := by
  have hpos : 0 < l.dropLast.length := List.length_pos_iff.2 hl
  by_cases habs : isAbsolute target
  · exact ⟨0, hpos, by rw [aimed, if_pos habs]; rfl⟩
  · have hclimbs : climbs target ≠ 0 := h.resolve_left habs
    refine ⟨l.dropLast.length - climbs target, by omega, ?_⟩
    rw [aimed, if_neg habs]
    exact Lexical.resolve_eq_take up_not_idle l.dropLast (parts target)

theorem aimed_normal (target link : String) : Normal (aimed target (clean (parts link))) := by
  unfold aimed
  split_ifs
  · exact clean_normal target
  · intro name hname
    have hnames : Lexical.Names isIdle ".." (clean (parts link)).dropLast :=
      (clean_normal link).names.dropLast
    obtain ⟨hidle, hup⟩ := hnames.resolve (parts target) name hname
    have hslash : '/' ∉ name.toList := by
      rcases mem_resolved hname with h | h
      · exact (clean_normal link name (List.dropLast_subset _ h)).2.2.2
      · exact notMem_of_mem_parts h
    exact ⟨fun h => hidle (.inl h), fun h => hidle (.inr h), hup, hslash⟩

/-- Some filesystem in which the link leads elsewhere. -/
theorem exists_elsewhere {target link : String} (h : ¬Faithful target link) :
    ∃ fs p x, clean (parts link) = p ++ [x] ∧ Ready fs p x ∧
      ¬LeadsThere (.within 0)
        (linked (.within 0) fs (linkText (clean (parts target))) (p ++ [x]) p.length x)
        target link := by
  have hl : (clean (parts link)).dropLast ≠ [] := fun hnil => h (.inl hnil)
  have hleaves : isAbsolute target ∨ climbs target ≠ 0 := by
    by_contra hstays
    rw [not_or, not_not] at hstays
    exact h (.inr (.inl hstays))
  have hself : aimed target (clean (parts link)) ≠ clean (parts link) :=
    fun heq => h (.inr (.inr (.inl heq)))
  have hthrough : ¬(clean (parts link) <+: aimed target (clean (parts link)) ∧
      (clean (parts target)).head? = (clean (parts link)).getLast?) :=
    fun hboth => h (.inr (.inr (.inr hboth)))
  have haim := aimed_of_leaves hl hleaves
  have haimn := aimed_normal target link
  have hln := clean_normal link
  obtain ⟨p, x, hpx⟩ : ∃ p x, clean (parts link) = p ++ [x] := by
    rcases List.eq_nil_or_concat' (clean (parts link)) with hnil | ⟨p, x, hpx⟩
    · rw [hnil] at hl
      exact absurd rfl hl
    · exact ⟨p, x, hpx⟩
  unfold LeadsThere
  rw [hpx] at hself hthrough haim haimn hln ⊢
  rw [List.dropLast_concat] at haim
  by_cases hx : (clean (parts target)).head? = some x
  · have hpast : ¬p ++ [x] <+: aimed target (p ++ [x]) := fun hpre =>
      hthrough ⟨hpre, by rw [hx, List.getLast?_append]; rfl⟩
    obtain ⟨fs, hready, e, hnot, hreach⟩ :=
      leads_nowhere hln (clean_normal target) hx haimn hpast
    exact ⟨fs, p, x, rfl, hready, fun hall => hnot ((hall e).2 hreach)⟩
  · obtain ⟨fs, hready, e, hreach, hnot⟩ :=
      leads_deeper hln (clean_normal target) hx haim hself
    exact ⟨fs, p, x, rfl, hready, fun hall => hnot ((hall e).1 hreach)⟩

/-- A session in a filesystem at rest. -/
theorem found_started {fs : Fs} (hc : fs.clock = 0) (hf : fs.faults = []) :
    ((Files.ofShare 0 .readWrite).run (Session.new fs) [(⟨0, "", 0⟩, .init)]).2.fs = fs ∧
      found ⟨0, "", 0⟩
        ((Files.ofShare 0 .readWrite).run (Session.new fs) [(⟨0, "", 0⟩, .init)]).2 = fs := by
  obtain ⟨node, next, fresh, slash, host, clock, faults⟩ := fs
  subst hc hf
  exact ⟨rfl, rfl⟩

/-- Where a straight path leads is the directory there. -/
theorem straight_dirAt {base : Base} {fs : Fs} {p : Path} {d d' : ℕ}
    (hs : fs.Straight base (base.start fs) p d') (hd : fs.dirAt base p = .ok d) : d' = d := by
  obtain ⟨hw, -⟩ := Posix.of_dirAt hd
  have h := hs.walk Posix.maxLinks []
  rw [List.append_nil] at h
  rw [h] at hw
  exact Posix.Target.found.inj (Except.ok.inj hw)

/-- **Symbolic links of a share.**  In every session, a link that a client makes in an ordinary
directory of the share leads where the client meant it to, exactly if its target is one of the
faithful ones. -/
theorem symlink_leads_iff (target link : String) (hT : '\x00' ∉ target.toList)
    (hL : '\x00' ∉ link.toList) :
    (∀ (files : Files) (root : ℕ) (fs : Fs) (before : List (Env × Request)) (env : Env),
      files.root = some root →
      let s := (files.run (Session.new fs) before).2
      let r := files.process env (.symlink target link) s
      (∃ d, s.fs.Straight (.within root) root (clean (parts link)).dropLast d) →
        r.1 = .status .ok → LeadsThere (.within root) r.2.fs target link) ↔
      Faithful target link := by
  constructor
  -- otherwise there is a filesystem where the link leads elsewhere
  · intro hall
    by_contra hbad
    obtain ⟨fs, p, x, hpx, hready, hnot⟩ := exists_elsewhere hbad
    obtain ⟨hfs, hfound⟩ := found_started hready.clock hready.faults
    have hleads := hall (Files.ofShare 0 .readWrite) 0 fs [(⟨0, "", 0⟩, .init)] ⟨0, "", 0⟩ rfl
    have hroot : (Files.ofShare 0 .readWrite).root = some 0 := rfl
    have hok : ((Files.ofShare 0 .readWrite).process ⟨0, "", 0⟩ (.symlink target link)
        ((Files.ofShare 0 .readWrite).run (Session.new fs) [(⟨0, "", 0⟩, .init)]).2).1 =
          .status .ok :=
      process_symlink hroot rfl rfl hT hL (by rw [hfs, hready.faults]; rfl)
        (by rw [hfound, hpx]; exact hready.vacant)
    obtain ⟨d, name, hv, hmade⟩ := symlink_ok hroot hT hL hok
    rw [hfound, hpx] at hv hmade
    obtain ⟨rfl, rfl⟩ := Prod.mk.inj (Except.ok.inj (hready.vacant.symm.trans hv))
    have hthere := hleads ⟨p.length, by rw [hfs, hpx, List.dropLast_concat]; exact hready.straight⟩
      hok
    rw [hmade] at hthere
    exact hnot hthere
  · intro h files root fs before env hroot s r hdir hok
    obtain ⟨d', hd'⟩ := hdir
    have hbase : files.base = .within root := by rw [Files.base, hroot]
    obtain ⟨d, name, hv, hfs⟩ := symlink_ok hroot hT hL
      (show (files.process env (.symlink target link) s).1 = .status .ok from hok)
    rw [hbase] at hv hfs
    rw [hfs]
    have hwalk : Posix.walk (found env s) (.within root) = Posix.walk s.fs (.within root) :=
      funext (Posix.walk_congr rfl rfl)
    have hfound : (found env s).Straight (.within root) root (clean (parts link)).dropLast d' := by
      rw [Fs.Straight, hwalk]
      exact hd'
    obtain rfl := straight_dirAt hfound (Posix.of_vacantAt hv).2.2.1
    exact linked_leads hv hfound h

theorem symlink_leads_sample : (∀ (files : Files) (root : ℕ) (fs : Fs)
      (before : List (Env × Request)) (env : Env), files.root = some root →
      let s := (files.run (Session.new fs) before).2
      let r := files.process env (.symlink "b/c" "d/e") s
      (∃ d, s.fs.Straight (.within root) root (clean (parts "d/e")).dropLast d) →
        r.1 = .status .ok → LeadsThere (.within root) r.2.fs "b/c" "d/e") ↔
      Faithful "b/c" "d/e" :=
  symlink_leads_iff "b/c" "d/e" (by decide +kernel) (by decide +kernel)

/-! ### A link below the root -/

/-- A share with a file and a directory. -/
def linkFs : Fs :=
  .ofList [⟨.dir 0 [("f", 1), ("d", 2)], ⟨0o755, 0, 0, 0, 0, 0⟩⟩,
    ⟨.file [104, 105], ⟨0o644, 0, 0, 0, 0, 0⟩⟩, ⟨.dir 0 [], ⟨0o755, 0, 0, 0, 0, 0⟩⟩]
    Posix.quietHost

/-- The session after a link has been asked for. -/
def linkedTo (target : String) : Reply × Session :=
  (Files.ofShare 0 .readWrite).process ⟨0, "", 0⟩ (.symlink target "/d/l")
    ((Files.ofShare 0 .readWrite).run (Session.new linkFs) [(⟨0, "", 0⟩, .init)]).2

theorem linkedTo_elsewhere : ∀ target ∈ ["/f", "../f"],
    (linkedTo target).1 = .status .ok ∧
      ¬LeadsThere (.within 0) (linkedTo target).2.fs target "/d/l" := by
  have hnowhere : ∀ target ∈ ["/f", "../f"], ∀ n,
      Posix.walk (linkedTo target).2.fs (.within 0) (n + 2) 0 ["d", "l"] =
        ([3], .ok (.missing 2 "f")) := by
    intro target htarget n
    rcases List.mem_cons.1 htarget with rfl | htarget
    · rfl
    · rw [List.mem_singleton.1 htarget]
      rfl
  have hthere : ∀ target ∈ ["/f", "../f"], (linkedTo target).1 = .status .ok ∧
      (clean (parts "/d/l")) = ["d", "l"] ∧ aimed target ["d", "l"] = ["f"] ∧
      (Posix.walk (linkedTo target).2.fs (.within 0) 0 0 ["f"]).1 = [] ∧
      (Posix.walk (linkedTo target).2.fs (.within 0) 0 0 ["f"]).2 = .ok (.found 1) := by
    decide +kernel
  intro target htarget
  obtain ⟨hok, hl, ha, hlinks, hfound⟩ := hthere target htarget
  refine ⟨hok, fun h => ?_⟩
  rw [LeadsThere, hl, ha] at h
  obtain ⟨n, links, hn⟩ := (h 1).2 ⟨0, [], Prod.ext hlinks hfound⟩
  have hn' := Posix.walk_mono (Nat.le_add_right n 2) hn
  have heq := (hnowhere target htarget n).symm.trans hn'
  cases heq

/-- A link in the directory to the file, as an absolute path and as the relative one from there: the
server makes it, and it leads nowhere. -/
theorem symlink_leads_elsewhere :
    ((linkedTo "/f").1 = .status .ok ∧
      ¬LeadsThere (.within 0) (linkedTo "/f").2.fs "/f" "/d/l") ∧
    ((linkedTo "../f").1 = .status .ok ∧
      ¬LeadsThere (.within 0) (linkedTo "../f").2.fs "../f" "/d/l") :=
  ⟨linkedTo_elsewhere _ (by simp), linkedTo_elsewhere _ (by simp)⟩

end Tailcat.Sftp
