import Tailcat.Lib.PosixLinks

/-!
# A filesystem of two paths

The filesystem `forkFs main file j branch` holds the directories along a path, the last of which
may be a file, and those along another path that leaves the first after `j` names.  The objects
along `main` are numbered from the root, the others follow.

It is a family of filesystems for counterexamples: given a path that leads into a file or leaves a
directory, it is the filesystem in which this happens, and everything in it has the default
attributes.  That the objects are where they should be is shown for all lengths by induction on the
path (`straight_main`, `straight_branch`), so that a result can quantify over paths and still name a
filesystem for each of them.
-/

namespace Posix

section

variable (main : Path) (file : Bool) (j : ℕ) (branch : Path)

/-- The entry that leads on along a path, if it goes on. -/
def entryOf (name : Option String) (i : ℕ) : List (String × ℕ) := (name.map (·, i)).toList

/-- The objects along `main`, and then those along `branch`. -/
def forkKind (i : ℕ) : Kind :=
  if i ≤ main.length then
    if i = main.length ∧ file then .file []
    else .dir (i - 1) (entryOf main[i]? (i + 1) ++
      if i = j then entryOf branch.head? (main.length + 1) else [])
  else .dir (if i = main.length + 1 then j else i - 1)
    (entryOf branch[i - main.length]? (i + 1))

/-- A mount that records no reads. -/
def quietHost : Host := ⟨fun _ _ => false, fun _ => 0, [], 0, 0, 0⟩

/-- The filesystem of two paths. -/
def forkFs : Fs where
  node i :=
    if i ≤ main.length + branch.length then some ⟨forkKind main file j branch i, ⟨0, 0, 0, 0, 0, 0⟩⟩
    else none
  next := main.length + branch.length + 1
  fresh i hi := if_neg (by omega)
  slash := 0
  host := quietHost
  clock := 0
  faults := []

variable {main file j branch} {base : Base}

theorem lookup_entryOf (name : String) (other : Option String) (i : ℕ) :
    (entryOf other i).lookup name = if other = some name then some i else none := by
  cases other with
  | none => rfl
  | some first =>
    rw [entryOf, Option.map_some, Option.toList_some, List.lookup_cons]
    by_cases h : name = first
    · subst h
      rw [if_pos rfl, beq_self_eq_true]
    · have hne : ¬some first = some name := fun h' => h (Option.some.inj h').symm
      rw [if_neg hne, beq_false_of_ne h]
      rfl

variable (main file j branch) in
theorem kind_forkFs {i : ℕ} (hi : i ≤ main.length + branch.length) :
    (forkFs main file j branch).kind i = some (forkKind main file j branch i) := by
  rw [Fs.kind, forkFs]
  simp only [if_pos hi, Option.map_some]

variable (main file j branch) in
/-- A directory along `main`. -/
theorem forkFs_main {i : ℕ} (hi : i ≤ main.length) (hf : i = main.length → file = false) :
    ∃ parent entries, (forkFs main file j branch).kind i = some (.dir parent entries) ∧
      ∀ name, entries.lookup name =
        if main[i]? = some name then some (i + 1)
        else if i = j ∧ branch.head? = some name then some (main.length + 1) else none := by
  have hdir : ¬(i = main.length ∧ file = true) := by
    rintro ⟨h, ht⟩
    rw [hf h] at ht
    cases ht
  have hk : (forkFs main file j branch).kind i = some (.dir (i - 1)
      (entryOf main[i]? (i + 1) ++
        if i = j then entryOf branch.head? (main.length + 1) else [])) := by
    rw [kind_forkFs main file j branch (by omega), forkKind, if_pos hi, if_neg hdir]
  refine ⟨_, _, hk, fun name => ?_⟩
  rw [List.lookup_append, lookup_entryOf]
  by_cases hm : main[i]? = some name
  · rw [if_pos hm, if_pos hm, Option.some_or]
  · rw [if_neg hm, if_neg hm, Option.none_or]
    by_cases hj : i = j
    · rw [if_pos hj, lookup_entryOf]
      simp only [hj, true_and]
    · rw [if_neg hj, if_neg fun h => hj h.1]
      rfl

variable (main file j branch) in
/-- A directory along `branch`. -/
theorem forkFs_branch {i : ℕ} (hi : main.length < i) (hi' : i ≤ main.length + branch.length) :
    ∃ parent entries, (forkFs main file j branch).kind i = some (.dir parent entries) ∧
      ∀ name, entries.lookup name =
        if branch[i - main.length]? = some name then some (i + 1) else none := by
  have hk : (forkFs main file j branch).kind i = some
      (.dir (if i = main.length + 1 then j else i - 1)
        (entryOf branch[i - main.length]? (i + 1))) := by
    rw [kind_forkFs main file j branch hi', forkKind, if_neg (by omega)]
  exact ⟨_, _, hk, fun name => lookup_entryOf name _ _⟩

theorem not_link_forkFs {i : ℕ} {k : Kind}
    (h : (forkFs main file j branch).kind i = some k) (target : String) :
    k ≠ .symlink target := by
  rw [Fs.kind, forkFs] at h
  simp only at h
  split_ifs at h
  · obtain rfl := Option.some.inj h
    unfold forkKind
    split_ifs <;> simp
  · cases h

/-! ### Steps -/

/-- One name of a path that leads through no link. -/
theorem straight_cons {fs : Fs} {d i e parent : ℕ} {entries : List (String × ℕ)} {name : String}
    {k : Kind} {rest : Path} (hd : fs.kind d = some (.dir parent entries)) (hdot : ¬isDot name)
    (hup : name ≠ "..") (hl : entries.lookup name = some i) (hk : fs.kind i = some k)
    (hlink : ∀ target, k ≠ .symlink target) (h : fs.Straight base i rest e) :
    fs.Straight base d (name :: rest) e := by
  unfold Fs.Straight walk at h ⊢
  rw [walkFrom_name hd hdot hup, hl]
  cases k with
  | file data =>
    simp only [hk]
    exact h
  | dir p es =>
    simp only [hk]
    exact h
  | symlink target => exact absurd rfl (hlink target)

theorem straight_nil (fs : Fs) (base : Base) (d : ℕ) : fs.Straight base d [] d := rfl

theorem Fs.Straight.append {fs : Fs} {cur d e : ℕ} {path rest : Path}
    (h : fs.Straight base cur path d) (h' : fs.Straight base d rest e) :
    fs.Straight base cur (path ++ rest) e := by
  rw [Fs.Straight, h.walk]
  exact h'

variable (file j branch base) in
/-- Along `main`. -/
theorem straight_main {before path after : Path} (hmain : main = before ++ path ++ after)
    (hnames : ∀ name ∈ path, ¬isDot name ∧ name ≠ "..") :
    (forkFs main file j branch).Straight base before.length path
      (before.length + path.length) := by
  induction path generalizing before with
  | nil => exact straight_nil _ _ _
  | cons name path ih =>
    have hlen : main.length = before.length + (path.length + 1) + after.length := by
      rw [hmain, List.length_append, List.length_append, List.length_cons]
    obtain ⟨hdot, hup⟩ := hnames name List.mem_cons_self
    obtain ⟨parent, entries, hd, hl⟩ := forkFs_main main file j branch
      (show before.length ≤ main.length by omega) (fun h => by omega)
    have hat : main[before.length]? = some name := by
      rw [hmain, List.append_assoc, List.getElem?_append_right (le_refl _), Nat.sub_self]
      rfl
    have hrest : main = before ++ [name] ++ path ++ after := by
      rw [hmain, List.append_assoc, List.append_assoc, List.append_assoc]
      rfl
    have hnext := ih hrest fun n hn => hnames n (List.mem_cons_of_mem name hn)
    rw [List.length_append, List.length_singleton] at hnext
    have hk := kind_forkFs main file j branch
      (show before.length + 1 ≤ main.length + branch.length by omega)
    rw [List.length_cons, Nat.add_comm path.length 1, ← Nat.add_assoc]
    exact straight_cons hd hdot hup (by rw [hl, if_pos hat]) hk (not_link_forkFs hk) hnext

variable (main file j base) in
/-- Along the rest of `branch`. -/
theorem straight_branch_rest {before path : Path} (hbranch : branch = before ++ path)
    (hne : before ≠ []) (hnames : ∀ name ∈ path, ¬isDot name ∧ name ≠ "..") :
    (forkFs main file j branch).Straight base (main.length + before.length) path
      (main.length + branch.length) := by
  induction path generalizing before with
  | nil =>
    rw [hbranch, List.append_nil]
    exact straight_nil _ _ _
  | cons name path ih =>
    have hlen : branch.length = before.length + (path.length + 1) := by
      rw [hbranch, List.length_append, List.length_cons]
    have hpos : 0 < before.length := List.length_pos_iff.2 hne
    obtain ⟨hdot, hup⟩ := hnames name List.mem_cons_self
    obtain ⟨parent, entries, hd, hl⟩ := forkFs_branch main file j branch
      (show main.length < main.length + before.length by omega) (by omega)
    have hat : branch[main.length + before.length - main.length]? = some name := by
      rw [Nat.add_sub_cancel_left, hbranch, List.getElem?_append_right (le_refl _), Nat.sub_self]
      rfl
    have hrest : branch = before ++ [name] ++ path := by
      rw [hbranch, List.append_assoc]
      rfl
    have hnext := ih hrest (by simp) fun n hn => hnames n (List.mem_cons_of_mem name hn)
    rw [List.length_append, List.length_singleton, ← Nat.add_assoc] at hnext
    have hk := kind_forkFs main file j branch
      (show main.length + before.length + 1 ≤ main.length + branch.length by omega)
    exact straight_cons hd hdot hup (by rw [hl, if_pos hat]) hk (not_link_forkFs hk) hnext

variable (base) in
/-- Along `branch`, from where it leaves `main`. -/
theorem straight_branch (hj : j ≤ main.length) (hf : j = main.length → file = false)
    (hleave : ∀ name, branch.head? = some name → main[j]? ≠ some name)
    (hnames : ∀ name ∈ branch, ¬isDot name ∧ name ≠ "..") :
    ∃ e, (forkFs main file j branch).Straight base j branch e := by
  cases hb : branch with
  | nil => exact ⟨j, straight_nil _ _ _⟩
  | cons name rest =>
    obtain ⟨hdot, hup⟩ := hnames name (by rw [hb]; exact List.mem_cons_self)
    obtain ⟨parent, entries, hd, hl⟩ := forkFs_main main file j branch hj hf
    have hhead : branch.head? = some name := by rw [hb]; rfl
    have hsplit : branch = [name] ++ rest := hb
    have hrest := straight_branch_rest main file j base hsplit (by simp) fun n hn => hnames n (by rw [hb]; exact List.mem_cons_of_mem name hn)
    have hk := kind_forkFs main file j branch
      (show main.length + 1 ≤ main.length + branch.length by rw [hb, List.length_cons]; omega)
    have hlookup : entries.lookup name = some (main.length + 1) := by
      rw [hl, if_neg (hleave name hhead), if_pos ⟨rfl, hhead⟩]
    rw [hb] at hd hk hrest
    exact ⟨_, straight_cons hd hdot hup hlookup hk (not_link_forkFs hk) hrest⟩

end

end Posix
