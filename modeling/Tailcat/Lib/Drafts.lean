import Tailcat.Lib.Directory

/-!
# Files that are written before others may see them

Processes that share a directory write their files under names of their own.  A file that is
complete then gets a public name, as a second one (`link`) or in the place of its own (`rename`).

A process that cleans up may take the name of a draft that is not its own.  Whether this can happen
is a parameter, `loses`: a draft without a name can still be written, but no name leads to it, and
neither `link` nor `rename` finds it any more.  What must not happen is that its name is given to
another draft; `Drafted.step` asks for that.

* `Drafted` : what holds of the drafts of all processes.
* `Drafting` : what an operation of one process does.
* `Drafted.step` : every operation keeps the invariant.
* `Drafting.lookup`, `Drafting.content` : what an operation does to the public names and the files
  that have one.

Nothing is said of the order in which the processes take turns, nor of when a draft is published.
-/

namespace Tailcat

/-- A file that a process writes. -/
structure Draft where
  name : String
  file : ℕ
  /-- What is written of it, until the process is done with it. -/
  content : Option Bytes
  deriving DecidableEq

/-- What an operation of a process does to the directory and to its own draft: the public names it
may give are the targets, and it may take them from other files or not. -/
inductive Drafting (isPublic targets : String → Prop) (replaces : Prop) (d : Directory) :
    Option Draft → Directory → Option Draft → Prop
  | create {name : String} {file : ℕ} {d' : Directory} (hname : ¬isPublic name)
      (h : d.createNew name = some (file, d')) :
      Drafting isPublic targets replaces d none d' (some ⟨name, file, some []⟩)
  | write {name : String} {file : ℕ} (old b : Bytes) :
      Drafting isPublic targets replaces d (some ⟨name, file, some old⟩)
        (d.writeAt file old.length b) (some ⟨name, file, some (old ++ b)⟩)
  | link {name name' : String} {file : ℕ} {b : Bytes} {d' : Directory} (hname : isPublic name')
      (htarget : targets name') (h : d.link name name' = .done d') :
      Drafting isPublic targets replaces d (some ⟨name, file, some b⟩) d' (some ⟨name, file, none⟩)
  | rename {name name' : String} {file : ℕ} {b : Bytes} {d' : Directory} (hreplaces : replaces)
      (hname : isPublic name') (htarget : targets name') (h : d.rename name name' = some d') :
      Drafting isPublic targets replaces d (some ⟨name, file, some b⟩) d' none
  | unlink (t : Draft) : Drafting isPublic targets replaces d (some t) (d.unlink t.name) none
  | keep (o : Option Draft) : Drafting isPublic targets replaces d o d o
  | finish (t : Draft) :
      Drafting isPublic targets replaces d (some t) d (some { t with content := none })
  | forget (o : Option Draft) : Drafting isPublic targets replaces d o d none

variable {isPublic targets : String → Prop} {replaces loses : Prop} {d d' : Directory}
  {drafts drafts' : ℕ → Option Draft} {o o' : Option Draft} {i : ℕ}

/-- What holds of a draft. -/
structure Draft.Valid (isPublic : String → Prop) (loses : Prop) (d : Directory) (t : Draft) :
    Prop where
  named : d.names.lookup t.name = some t.file ∨ (loses ∧ d.names.lookup t.name = none)
  file_lt : t.file < d.files.length
  private_name : ¬isPublic t.name
  kept : ∀ b, t.content = some b → d.content t.file = some b
  /-- No one else sees it. -/
  hidden : ∀ b, t.content = some b → ∀ name, isPublic name → d.names.lookup name ≠ some t.file

/-- What holds of the drafts of all processes. -/
structure Drafted (isPublic : String → Prop) (loses : Prop) (d : Directory)
    (drafts : ℕ → Option Draft) : Prop where
  valid : ∀ i t, drafts i = some t → t.Valid isPublic loses d
  /-- No two processes share one. -/
  own : ∀ i j t u, drafts i = some t → drafts j = some u → t.file = u.file → i = j

/-! ### One operation -/

/-- A public name is not a private one. -/
theorem ne_of_public {name name' : String} (h : ¬isPublic name) (h' : isPublic name') :
    name' ≠ name :=
  fun heq => h (heq ▸ h')

/-- The name of a draft leads to no other file. -/
theorem Draft.Valid.file_eq {t : Draft} (h : t.Valid isPublic loses d) {file : ℕ}
    (hfile : d.names.lookup t.name = some file) : file = t.file := by
  rcases h.named with hnamed | ⟨-, hlost⟩
  · exact Option.some.inj (hfile.symm.trans hnamed)
  · cases hfile.symm.trans hlost

/-- A draft is still what it was if its names and its content are. -/
theorem Draft.Valid.of_eq {t : Draft} (h : t.Valid isPublic loses d)
    (hnamed : d'.names.lookup t.name = d.names.lookup t.name ∨
      (loses ∧ d'.names.lookup t.name = none))
    (hlength : d.files.length ≤ d'.files.length) (hcontent : d'.content t.file = d.content t.file)
    (hnames : ∀ name, isPublic name → d'.names.lookup name = some t.file →
      d.names.lookup name = some t.file) : t.Valid isPublic loses d' where
  named := by
    rcases hnamed with hsame | hlost
    · rw [hsame]
      exact h.named
    · exact .inr hlost
  file_lt := Nat.lt_of_lt_of_le h.file_lt hlength
  private_name := h.private_name
  kept b hb := hcontent.trans (h.kept b hb)
  hidden b hb name hname hlookup := h.hidden b hb name hname (hnames name hname hlookup)

/-- An operation leaves the drafts of the other processes alone, unless it gives the name of one to
a new draft. -/
theorem Drafting.others (h : Drafting isPublic targets replaces d o d' o')
    (ho : ∀ t, o = some t → t.Valid isPublic loses d) {u : Draft} (hu : u.Valid isPublic loses d)
    (hne : ∀ t, o = some t → u.file ≠ t.file)
    (hfresh : loses → o = none → ∀ t, o' = some t → u.name ≠ t.name) :
    u.Valid isPublic loses d' := by
  cases h with
  | @create name _ _ hname h =>
    obtain ⟨hfree, rfl, hlookup, hfiles⟩ := Directory.createNew_eq_some h
    have hlength : d.files.length ≤ d'.files.length := by
      rw [hfiles, List.length_append]
      exact Nat.le_add_right _ _
    refine hu.of_eq (.inl ?_) hlength ?_ fun name' hname' => ?_
    -- the name was free, so it is that of no draft, unless that has lost its own
    · have hother : u.name ≠ name := by
        rcases hu.named with hnamed | ⟨hloses, -⟩
        · rintro rfl
          cases hfree.symm.trans hnamed
        · exact hfresh hloses rfl _ rfl
      rw [hlookup, if_neg hother]
    · rw [Directory.content, Directory.content, hfiles, List.getElem?_append_left hu.file_lt]
    · rw [hlookup, if_neg (ne_of_public hname hname')]
      exact id
  -- only the own file is written
  | write old b =>
    refine hu.of_eq (.inl rfl) (Nat.le_of_eq (List.length_modify ..).symm) ?_ fun _ _ => id
    exact (Directory.content_writeAt _ _ _ _).trans (if_neg (hne _ rfl))
  | @link name name' file b _ hname _ h =>
    obtain ⟨file', hold, -, hlookup, hfiles⟩ := Directory.link_eq_done h
    obtain rfl : file' = file := (ho _ rfl).file_eq hold
    have hcontent : d'.content u.file = d.content u.file := by
      rw [Directory.content, hfiles, Directory.content]
    refine hu.of_eq (.inl ?_) (by rw [hfiles]) hcontent fun name'' _ => ?_
    · rw [hlookup, if_neg (ne_of_public hu.private_name hname).symm]
    · rw [hlookup]
      split_ifs
      · exact fun heq => absurd (Option.some.inj heq).symm (hne _ rfl)
      · exact id
  | @rename name name' file b _ _ hname _ h =>
    obtain ⟨file', hold, hlookup, hfiles⟩ := Directory.rename_eq_some h
    obtain rfl : file' = file := (ho _ rfl).file_eq hold
    have hcontent : d'.content u.file = d.content u.file := by
      rw [Directory.content, hfiles, Directory.content]
    refine hu.of_eq (.inl ?_) (by rw [hfiles]) hcontent fun name'' _ => ?_
    · have hother : u.name ≠ name := by
        rintro rfl
        exact hne _ rfl (hu.file_eq hold).symm
      rw [hlookup, if_neg hother, if_neg (ne_of_public hu.private_name hname).symm]
    · rw [hlookup]
      split_ifs
      · exact nofun
      · exact fun heq => absurd (Option.some.inj heq).symm (hne _ rfl)
      · exact id
  -- the own name is removed, and no other draft has it
  | unlink t =>
    refine hu.of_eq ?_ le_rfl rfl fun name _ => ?_
    · rw [Directory.lookup_unlink]
      split_ifs with heq
      · rcases hu.named with hnamed | ⟨hloses, -⟩
        · exact absurd ((ho t rfl).file_eq (heq ▸ hnamed)) (hne t rfl)
        · exact .inr ⟨hloses, rfl⟩
      · exact .inl rfl
    · rw [Directory.lookup_unlink]
      split_ifs
      · exact nofun
      · exact id
  | keep => exact hu
  | finish => exact hu
  | forget => exact hu

/-- The file of a draft is the one the process had, or a new one. -/
theorem Drafting.file_eq (h : Drafting isPublic targets replaces d o d' o') {t : Draft}
    (ho' : o' = some t) : (∃ u, o = some u ∧ u.file = t.file) ∨ t.file = d.files.length := by
  cases h with
  | create _ h =>
    obtain ⟨-, rfl, -⟩ := Directory.createNew_eq_some h
    cases ho'
    exact .inr rfl
  | write =>
    cases ho'
    exact .inl ⟨_, rfl, rfl⟩
  | link =>
    cases ho'
    exact .inl ⟨_, rfl, rfl⟩
  | finish t =>
    cases ho'
    exact .inl ⟨t, rfl, rfl⟩
  | keep => exact .inl ⟨t, ho', rfl⟩
  | rename => cases ho'
  | unlink => cases ho'
  | forget => cases ho'

/-- No operation removes a file for good. -/
theorem Drafting.length_le (h : Drafting isPublic targets replaces d o d' o') :
    d.files.length ≤ d'.files.length := by
  cases h with
  | create _ h =>
    obtain ⟨-, -, -, hfiles⟩ := Directory.createNew_eq_some h
    rw [hfiles, List.length_append]
    exact Nat.le_add_right _ _
  | write => exact Nat.le_of_eq (List.length_modify ..).symm
  | link _ _ h =>
    obtain ⟨_, -, -, -, hfiles⟩ := Directory.link_eq_done h
    rw [hfiles]
  | rename _ _ _ h =>
    obtain ⟨_, -, -, hfiles⟩ := Directory.rename_eq_some h
    rw [hfiles]
  | unlink => exact le_rfl
  | keep => exact le_rfl
  | finish => exact le_rfl
  | forget => exact le_rfl

/-- What an operation makes of the process's own draft. -/
theorem Drafting.valid (h : Drafting isPublic targets replaces d o d' o')
    (ho : ∀ t, o = some t → t.Valid isPublic loses d) {t : Draft} (ho' : o' = some t) :
    t.Valid isPublic loses d' := by
  cases h with
  | create hname h =>
    obtain ⟨-, rfl, hlookup, hfiles⟩ := Directory.createNew_eq_some h
    cases ho'
    have hnamed : d'.names.lookup _ = some d.files.length := (hlookup _).trans (if_pos rfl)
    refine ⟨.inl hnamed, d'.valid _ _ hnamed, hname, ?_, ?_⟩
    · rintro b ⟨⟩
      rw [Directory.content, hfiles]
      simp
    · rintro b ⟨⟩ name' hname'
      rw [hlookup, if_neg (ne_of_public hname hname')]
      exact fun hlookup => absurd rfl (Nat.ne_of_lt (d.valid _ _ hlookup))
  | write old b =>
    cases ho'
    have ht := ho _ rfl
    refine ⟨ht.named, Nat.lt_of_lt_of_eq ht.file_lt (List.length_modify ..).symm, ht.private_name,
      ?_, fun _ _ => ht.hidden old rfl⟩
    rintro b' ⟨⟩
    rw [Directory.content_writeAt, if_pos rfl, ht.kept old rfl, Option.map_some,
      Directory.overwrite_length]
  -- a draft with a public name may no longer be written
  | link hname _ h =>
    obtain ⟨_, -, -, hlookup, hfiles⟩ := Directory.link_eq_done h
    cases ho'
    have ht := ho _ rfl
    refine ⟨?_, hfiles ▸ ht.file_lt, ht.private_name, nofun, nofun⟩
    rw [hlookup, if_neg (ne_of_public ht.private_name hname).symm]
    exact ht.named
  | finish t =>
    cases ho'
    have ht := ho t rfl
    exact ⟨ht.named, ht.file_lt, ht.private_name, nofun, nofun⟩
  | keep => exact ho t ho'
  | rename => cases ho'
  | unlink => cases ho'
  | forget => cases ho'

theorem Drafting.writeSome {name : String} {file : ℕ} {goal : Bytes} {n n' count : ℕ}
    (h : d.writeSome file goal n count = some (d', n')) :
    Drafting isPublic targets replaces d (some ⟨name, file, some (goal.take n)⟩) d'
      (some ⟨name, file, some (goal.take n')⟩) := by
  obtain ⟨b, rfl, hnext⟩ := Directory.writeSome_eq_some h
  rw [hnext]
  exact .write _ b

/-! ### The invariant -/

theorem drafted_none : Drafted isPublic loses d fun _ => none :=
  ⟨fun _ _ => nofun, fun _ _ _ _ => nofun⟩

/-- Every operation keeps the invariant, if no new draft gets the name of another. -/
theorem Drafted.step (hI : Drafted isPublic loses d drafts)
    (h : Drafting isPublic targets replaces d (drafts i) d' (drafts' i))
    (hothers : ∀ j, j ≠ i → drafts' j = drafts j)
    (hfresh : loses → drafts i = none → ∀ t, drafts' i = some t →
      ∀ j u, drafts j = some u → u.name ≠ t.name) : Drafted isPublic loses d' drafts' := by
  have ho : ∀ t, drafts i = some t → t.Valid isPublic loses d := hI.valid i
  have hne : ∀ {j u}, j ≠ i → drafts' j = some u → ∀ t, drafts i = some t → u.file ≠ t.file :=
    fun hj hu t ht heq => hj (hI.own _ i _ t ((hothers _ hj).symm.trans hu) ht heq)
  have hvalid : ∀ {j u}, j ≠ i → drafts' j = some u → u.Valid isPublic loses d :=
    fun hj hu => hI.valid _ _ ((hothers _ hj).symm.trans hu)
  have hfile : ∀ {j t u}, drafts' i = some t → j ≠ i → drafts' j = some u →
      u.file ≠ t.file := by
    intro j t u ht hj hu heq
    rcases h.file_eq ht with ⟨t', ht', hsame⟩ | hnew
    · exact hne hj hu t' ht' (heq.trans hsame.symm)
    · exact absurd (heq.trans hnew) (Nat.ne_of_lt (hvalid hj hu).file_lt)
  constructor
  · intro j t ht
    by_cases hj : j = i
    · subst hj
      exact h.valid ho ht
    · refine h.others ho (hvalid hj ht) (hne hj ht) fun hloses hnone u hu => ?_
      exact hfresh hloses hnone u hu j t ((hothers j hj).symm.trans ht)
  · intro j k t u ht hu heq
    by_cases hj : j = i
    · by_cases hk : k = i
      · rw [hj, hk]
      · subst hj
        exact absurd heq.symm (hfile ht hk hu)
    · by_cases hk : k = i
      · subst hk
        exact absurd heq (hfile hu hj ht)
      · rw [hothers j hj] at ht
        rw [hothers k hk] at hu
        exact hI.own j k t u ht hu heq

/-- An operation on other files keeps the invariant. -/
theorem Drafted.of_eq (hI : Drafted isPublic loses d drafts)
    (hdrafts : ∀ i t, drafts' i = some t → drafts i = some t)
    (hnames : ∀ i t, drafts i = some t → d'.names.lookup t.name = d.names.lookup t.name ∨
      (loses ∧ d'.names.lookup t.name = none))
    (hlength : d.files.length ≤ d'.files.length)
    (hpublic : ∀ name, isPublic name → ∀ file, d'.names.lookup name = some file →
      d.names.lookup name = some file ∨ d.files.length ≤ file)
    (hcontent : ∀ i t b, drafts i = some t → t.content = some b →
      d'.content t.file = d.content t.file) : Drafted isPublic loses d' drafts' where
  valid i t ht' := by
    have ht := hdrafts i t ht'
    have h := hI.valid i t ht
    refine ⟨?_, Nat.lt_of_lt_of_le h.file_lt hlength, h.private_name,
      fun b hb => (hcontent i t b ht hb).trans (h.kept b hb), fun b hb name hname hlookup => ?_⟩
    · rcases hnames i t ht with hsame | hlost
      · rw [hsame]
        exact h.named
      · exact .inr hlost
    · rcases hpublic name hname _ hlookup with hold | hnew
      · exact h.hidden b hb name hname hold
      · exact absurd hnew (Nat.not_le_of_lt h.file_lt)
  own i j t u ht hu := hI.own i j t u (hdrafts i t ht) (hdrafts j u hu)

/-! ### The public names -/

/-- A public name stands for the file it stood for, or for a draft that has been published. -/
theorem Drafting.lookup (h : Drafting isPublic targets replaces d o d' o')
    (ho : ∀ t, o = some t → t.Valid isPublic loses d) {name : String} (hname : isPublic name) :
    d'.names.lookup name = d.names.lookup name ∨
      (targets name ∧ (d.names.lookup name = none ∨ replaces) ∧
        ∃ t b, o = some t ∧ t.content = some b ∧
          d'.names.lookup name = some t.file ∧ d'.content t.file = some b) := by
  cases h with
  | create hprivate h =>
    obtain ⟨-, -, hlookup, -⟩ := Directory.createNew_eq_some h
    rw [hlookup, if_neg (ne_of_public hprivate hname)]
    exact .inl rfl
  | @link old new file b _ _ htarget h =>
    obtain ⟨file', hold, hfree, hlookup, hfiles⟩ := Directory.link_eq_done h
    obtain rfl : file' = file := (ho _ rfl).file_eq hold
    rw [hlookup]
    split_ifs with heq
    · subst heq
      refine .inr ⟨htarget, .inl hfree, _, b, rfl, rfl, rfl, ?_⟩
      rw [Directory.content, hfiles]
      exact (ho _ rfl).kept b rfl
    · exact .inl rfl
  | @rename old new file b _ hreplaces _ htarget h =>
    obtain ⟨file', hold, hlookup, hfiles⟩ := Directory.rename_eq_some h
    obtain rfl : file' = file := (ho _ rfl).file_eq hold
    rw [hlookup, if_neg (ne_of_public (ho _ rfl).private_name hname)]
    split_ifs with heq
    · subst heq
      refine .inr ⟨htarget, .inr hreplaces, _, b, rfl, rfl, rfl, ?_⟩
      rw [Directory.content, hfiles]
      exact (ho _ rfl).kept b rfl
    · exact .inl rfl
  | unlink t =>
    rw [Directory.lookup_unlink, if_neg (ne_of_public (ho t rfl).private_name hname)]
    exact .inl rfl
  | write => exact .inl rfl
  | keep => exact .inl rfl
  | finish => exact .inl rfl
  | forget => exact .inl rfl

/-- A file with a public name keeps its content. -/
theorem Drafting.content (h : Drafting isPublic targets replaces d o d' o')
    (ho : ∀ t, o = some t → t.Valid isPublic loses d) {name : String} {file : ℕ}
    (hname : isPublic name)
    (hfile : d.names.lookup name = some file) : d'.content file = d.content file := by
  cases h with
  | create _ h =>
    obtain ⟨-, -, -, hfiles⟩ := Directory.createNew_eq_some h
    rw [Directory.content, Directory.content, hfiles,
      List.getElem?_append_left (d.valid name file hfile)]
  | write old b =>
    rw [Directory.content_writeAt, if_neg]
    rintro rfl
    exact (ho _ rfl).hidden old rfl name hname hfile
  | link _ _ h =>
    obtain ⟨_, -, -, -, hfiles⟩ := Directory.link_eq_done h
    rw [Directory.content, hfiles, Directory.content]
  | rename _ _ _ h =>
    obtain ⟨_, -, -, hfiles⟩ := Directory.rename_eq_some h
    rw [Directory.content, hfiles, Directory.content]
  | unlink => rfl
  | keep => rfl
  | finish => rfl
  | forget => rfl

/-- What is read at a public name is what was read there, or a draft that has been published. -/
theorem Drafting.read (h : Drafting isPublic targets replaces d o d' o')
    (ho : ∀ t, o = some t → t.Valid isPublic loses d) {name : String} (hname : isPublic name) :
    (d'.names.lookup name = d.names.lookup name ∧ d'.read name = d.read name) ∨
      (targets name ∧ (d.names.lookup name = none ∨ replaces) ∧
        ∃ t b, o = some t ∧ t.content = some b ∧
          d'.names.lookup name = some t.file ∧ d'.read name = some b) := by
  rcases h.lookup ho hname with hsame | ⟨htarget, hold, t, b, ht, hb, hlookup, hcontent⟩
  · refine .inl ⟨hsame, ?_⟩
    rw [Directory.read, Directory.read, hsame]
    cases hfile : d.names.lookup name with
    | none => rfl
    | some file => exact h.content ho hname hfile
  · refine .inr ⟨htarget, hold, t, b, ht, hb, hlookup, ?_⟩
    rw [Directory.read, hlookup]
    exact hcontent

end Tailcat
