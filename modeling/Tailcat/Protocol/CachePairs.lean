import Tailcat.Lib.Transition
import Tailcat.Protocol.DiskCache

/-!
# Bodies and ETags on disk

The body and the ETag of an entry are published one after the other.  Between the two operations,
or when a process stops there, a reader finds the new body with the old ETag.

Any number of calls take turns with the operations of `DiskCache`, and any operation of any call may
fail or be its last.  `KeepsPairs` is what the next operation has to meet; an operation that fails
meets it.  A call whose temporary file has a name that is taken removes the other call's file as it
ends: that call then has a draft without a name, finds nothing to rename, and publishes nothing.

The invariant `Inv` speaks of the drafts of all calls, of the file of the body, which no call writes
to, and of the ETag next to it.  `step_cases` says once what an operation can do; for each kind
of operation there is one lemma (`Inv.drafting`, `Inv.renames`, `Inv.cleans` and so on), and
`World.step_inv` puts them together.

* `run_paired` : what is read is the pair of one entry, as long as a body never replaces one that
  has another ETag, and an ETag is written in one piece next to its own body.
* `read_mixed` : a body that replaces another is read with the other's ETag.

That a run outside the condition always ends in such a pair is not shown.
-/

namespace Tailcat.Protocol.DiskCache

open Transition

/-! ### The condition -/

/-- The temporary file of a call, and what it has written of the body. -/
def Call.draft (data : Bytes) : Call → Option Draft
  | .write t written => some ⟨t.name, t.file, some (data.take written)⟩
  | .sync t | .rename t => some ⟨t.name, t.file, some data⟩
  | _ => none

/-- The temporary file of a call that has not renamed it. -/
def Call.temporary : Call → Option Temporary
  | .write t _ | .sync t | .rename t => some t
  | _ => none

/-- The name a call that has not ended gave or meant to give to its temporary file. -/
def Call.name : Call → Option String
  | .write t _ | .sync t | .rename t => some t.name
  | .etag name | .writeEtag name _ _ | .cleanup name => some name
  | _ => none

/-- A call has begun to write this body with this ETag. -/
def Pairs (entries : ℕ → CachedMap) (w : World) (data : Bytes) (etag : List Char) : Prop :=
  ∃ i, w.calls i ≠ .start ∧ (entries i).data = data ∧ trim (entries i).etag = etag

/-- The next operation fails, or it keeps bodies and ETags together:
a temporary file that is created does not get the name of one that a call has not renamed yet;
when a body is renamed, the ETag there is blank or its own;
an ETag is written in one piece and next to its own body, if it is not there already. -/
def KeepsPairs (url : Bytes) (entries : ℕ → CachedMap) (w : World) (e : Event) : Prop :=
  let (path, etagPath) := cachePaths url
  match w.calls e.call with
  | .create =>
    let name := temporaryName e.pid e.random
    e.fails = false → name ∉ w.dir.names →
      ∀ i t, (w.calls i).temporary = some t → t.name ≠ name
  | .rename t =>
    let there := etagText (w.dir.read etagPath)
    e.fails = false → t.name ∈ w.dir.names →
      there = [] ∨ Pairs entries w (entries e.call).data there
  | .writeEtag _ file written =>
    let etag := utf8 (entries e.call).etag
    e.fails = false → ∀ old, w.dir.names.lookup etagPath = some file →
      w.dir.content file = some old →
        ((etag.drop written).take (max 1 e.count) <+: old.drop written) ∨
          (old = [] ∧ written = 0 ∧ etag.length ≤ max 1 e.count ∧
            ∀ data, w.dir.read path = some data →
              Pairs entries w data (trim (entries e.call).etag))
  | _ => True

/-! ### What an operation does -/

/-- The name of a file of the cache. -/
def IsPublic (url : Bytes) (name : String) : Prop :=
  name = (cachePaths url).1 ∨ name = (cachePaths url).2

theorem not_isPublic_temporaryName (url : Bytes) (pid : ℕ) (random : UInt64) :
    ¬IsPublic url (temporaryName pid random) := by
  obtain ⟨hjson, hetag⟩ := temporaryName_ne pid random url
  rintro (h | h)
  · exact hjson h
  · exact hetag h

variable {url : Bytes} {entries : ℕ → CachedMap} {entry : CachedMap} {w w' : World}
  {d d' : Directory} {c c' : Call}

/-- The effects of an operation of a call. -/
inductive Step (url : Bytes) (entry : CachedMap) (e : Event) (d : Directory) :
    Call → Directory → Call → Prop
  /-- Only the temporary file changes. -/
  | drafts {c c' : Call} {d' : Directory}
      (h : Drafting (IsPublic url) (fun _ => False) True d (c.draft entry.data) d'
        (c'.draft entry.data)) (hc' : ∀ name file n, c' ≠ .writeEtag name file n) :
      Step url entry e d c d' c'
  | renames {t : Temporary} {d' : Directory} (he : e.fails = false)
      (h : d.rename t.name (cachePaths url).1 = some d') :
      Step url entry e d (.rename t) d' (.etag t.name)
  | cleans (name : String) : Step url entry e d (.cleanup name) (d.unlink name) (.done false)
  | removes (name : String) :
      Step url entry e d (.etag name) (d.unlink (cachePaths url).2) (.done true)
  | opens (name : String) {file : ℕ} {d' : Directory}
      (h : d.createOrTruncate (cachePaths url).2 = (file, d')) :
      Step url entry e d (.etag name) d' (.writeEtag name file 0)
  | writes (name : String) {file n n' : ℕ} {d' : Directory} (he : e.fails = false)
      (h : d.writeSome file (utf8 entry.etag) n e.count = some (d', n')) :
      Step url entry e d (.writeEtag name file n) d' (.writeEtag name file n')

theorem step_cases (e : Event) (d : Directory) (c : Call) :
    Step url entry e d c (step url entry e d c).1 (step url entry e d c).2 := by
  cases c with
  | start =>
    simp only [step]
    split_ifs <;> exact .drafts (.keep _) nofun
  | create =>
    simp only [step]
    split
    · rename_i file d' hcreate
      split_ifs at hcreate
      exact .drafts (.create (not_isPublic_temporaryName url _ _) hcreate) nofun
    · exact .drafts (.keep _) nofun
  | write t n =>
    simp only [step]
    split_ifs
    · exact .drafts (.forget _) nofun
    · split
      · rename_i hsome
        exact .drafts (.writeSome hsome) nofun
      · rename_i hnone
        refine .drafts ?_ nofun
        simp only [Call.draft, Directory.take_of_writeSome hnone]
        exact .keep _
  | sync t =>
    simp only [step]
    split_ifs
    · exact .drafts (.forget _) nofun
    · exact .drafts (.keep _) nofun
  | rename t =>
    simp only [step]
    split
    · rename_i d' hrename
      split_ifs at hrename with hfails
      exact .renames (Bool.eq_false_iff.2 hfails) hrename
    · exact .drafts (.forget _) nofun
  | etag name =>
    simp only [step]
    split_ifs
    · exact .drafts (.keep _) nofun
    · exact .removes name
    · exact .drafts (.keep _) nofun
    · exact .opens name rfl
  | writeEtag name file n =>
    simp only [step]
    split_ifs with hfails
    · exact .drafts (.keep _) nofun
    · split
      · rename_i hsome
        exact .writes name (Bool.eq_false_iff.2 hfails) hsome
      · exact .drafts (.keep _) nofun
  | cleanup name =>
    simp only [step]
    split_ifs
    · exact .drafts (.keep _) nofun
    · exact .cleans name
  | done ok => exact .drafts (.keep _) nofun

/-- A call keeps its name until it ends. -/
theorem step_name {e : Event} {name : String} (h : (step url entry e d c).2.name = some name) :
    c.name = some name ∨ c = .create ∧ name = temporaryName e.pid e.random := by
  cases c with
  | start =>
    simp only [step] at h
    split_ifs at h <;> cases h
  | create =>
    simp only [step] at h
    split at h <;> exact .inr ⟨rfl, (Option.some.inj h).symm⟩
  | write t n =>
    simp only [step] at h
    split_ifs at h
    · exact .inl h
    · split at h <;> exact .inl h
  | sync t =>
    simp only [step] at h
    split_ifs at h <;> exact .inl h
  | rename t =>
    simp only [step] at h
    split at h <;> exact .inl h
  | etag name' =>
    simp only [step] at h
    split_ifs at h
    · cases h
    · cases h
    · exact .inl h
    · exact .inl h
  | writeEtag name' file n =>
    simp only [step] at h
    split_ifs at h
    · exact .inl h
    · split at h
      · exact .inl h
      · cases h
  | cleanup name' => cases h
  | done ok => cases h

theorem step_ne_start (e : Event) (d : Directory) (c : Call) :
    (step url entry e d c).2 ≠ .start := by
  cases c with
  | start => simp only [step]; split_ifs <;> exact nofun
  | create => simp only [step]; split <;> exact nofun
  | write t n =>
    simp only [step]
    split_ifs
    · exact nofun
    · split <;> exact nofun
  | sync t => simp only [step]; split_ifs <;> exact nofun
  | rename t => simp only [step]; split <;> exact nofun
  | etag name => simp only [step]; split_ifs <;> exact nofun
  | writeEtag name file n =>
    simp only [step]
    split_ifs
    · exact nofun
    · split <;> exact nofun
  | cleanup name => exact nofun
  | done ok => exact nofun

theorem temporary_of_draft {data : Bytes} {t : Draft} (h : c.draft data = some t) :
    c.temporary = some ⟨t.name, t.file⟩ := by
  cases c with
  | write t n => cases h; rfl
  | sync t => cases h; rfl
  | rename t => cases h; rfl
  | start => cases h
  | create => cases h
  | etag name => cases h
  | writeEtag name file n => cases h
  | cleanup name => cases h
  | done ok => cases h

theorem content_of_draft {data : Bytes} {t : Draft} (h : c.draft data = some t) :
    ∃ b, t.content = some b := by
  cases c with
  | write t n => cases h; exact ⟨_, rfl⟩
  | sync t => cases h; exact ⟨_, rfl⟩
  | rename t => cases h; exact ⟨_, rfl⟩
  | start => cases h
  | create => cases h
  | etag name => cases h
  | writeEtag name file n => cases h
  | cleanup name => cases h
  | done ok => cases h

/-- A draft is begun with a new name. -/
theorem step_draft {e : Event} {data : Bytes} {t : Draft} (hc : c.draft data = none)
    (h : (step url entry e d c).2.draft data = some t) :
    c = .create ∧ e.fails = false ∧ t.name ∉ d.names ∧ t.name = temporaryName e.pid e.random := by
  cases c with
  | create =>
    simp only [step] at h
    split at h
    · rename_i file d' hcreate
      split_ifs at hcreate with hfails
      cases h
      obtain ⟨hfree, -⟩ := Directory.createNew_eq_some hcreate
      exact ⟨rfl, Bool.eq_false_iff.2 hfails, Directory.notMem_names.2 hfree, rfl⟩
    · cases h
  | start =>
    simp only [step] at h
    split_ifs at h <;> cases h
  | write t n => cases hc
  | sync t => cases hc
  | rename t => cases hc
  | etag name =>
    simp only [step] at h
    split_ifs at h <;> cases h
  | writeEtag name file n =>
    simp only [step] at h
    split_ifs at h
    · cases h
    · split at h <;> cases h
  | cleanup name => cases h
  | done ok => cases h

/-! ### The invariant -/

/-- What holds of the directory and the calls in every run that keeps the pairs. -/
structure Inv (url : Bytes) (entries : ℕ → CachedMap) (w : World) : Prop where
  drafts : Drafted (IsPublic url) True w.dir fun i => (w.calls i).draft (entries i).data
  temporary : ∀ i name, (w.calls i).name = some name → ¬IsPublic url name
  /-- The file of the body is no file of an ETag. -/
  apart : ∀ file, w.dir.names.lookup (cachePaths url).1 = some file →
    w.dir.names.lookup (cachePaths url).2 ≠ some file ∧
      ∀ i name n, w.calls i ≠ .writeEtag name file n
  /-- A file an ETag is written to is no temporary file. -/
  opened : ∀ i name file n, w.calls i = .writeEtag name file n → file < w.dir.files.length ∧
    ∀ j t, (w.calls j).draft (entries j).data = some t → t.file ≠ file
  /-- The ETag belongs to the body. -/
  paired : ∀ data b, w.dir.read (cachePaths url).1 = some data →
    w.dir.read (cachePaths url).2 = some b →
    etagText (some b) = [] ∨ Pairs entries w data (etagText (some b))

/-- The names of the files and the state of the calls after an operation. -/
structure Follows (url : Bytes) (entries : ℕ → CachedMap) (w : World) (i : ℕ) (w' : World) :
    Prop where
  others : ∀ j, j ≠ i → w'.calls j = w.calls j
  started : w'.calls i ≠ .start
  /-- A new draft does not have the name of another. -/
  fresh : (w.calls i).draft (entries i).data = none → ∀ t,
    (w'.calls i).draft (entries i).data = some t →
      ∀ j u, (w.calls j).draft (entries j).data = some u → u.name ≠ t.name
  temporary : ∀ j name, (w'.calls j).name = some name → ¬IsPublic url name

variable {i : ℕ}

theorem Follows.pairs (h : Follows url entries w i w') {data : Bytes} {etag : List Char}
    (hpairs : Pairs entries w data etag) : Pairs entries w' data etag := by
  obtain ⟨j, hj, hdata, hetag⟩ := hpairs
  refine ⟨j, ?_, hdata, hetag⟩
  by_cases hji : j = i
  · subst hji
    exact h.started
  · rw [h.others j hji]
    exact hj

theorem Follows.paired (h : Follows url entries w i w') {data : Bytes} {etag : List Char}
    (hpairs : etag = [] ∨ Pairs entries w data etag) : etag = [] ∨ Pairs entries w' data etag :=
  hpairs.imp_right h.pairs

/-- An operation on the drafts, which may give the body's name to one. -/
theorem Inv.drafting (hI : Inv url entries w) (hw : Follows url entries w i w')
    (targets : String → Prop) (h : Drafting (IsPublic url) targets True w.dir
      ((w.calls i).draft (entries i).data) w'.dir ((w'.calls i).draft (entries i).data))
    (hcall : ∀ name file n, w'.calls i ≠ .writeEtag name file n)
    (htargets : ∀ name, targets name → name = (cachePaths url).1)
    (hcondition : (∃ name, targets name) → ∀ t b, (w.calls i).draft (entries i).data = some t →
      t.content = some b → ∀ there, w.dir.read (cachePaths url).2 = some there →
        etagText (some there) = [] ∨ Pairs entries w b (etagText (some there))) :
    Inv url entries w' := by
  have ho := hI.drafts.valid i
  have hcalls : ∀ {j name file n}, w'.calls j = .writeEtag name file n →
      w.calls j = .writeEtag name file n := by
    intro j name file n hj
    by_cases hji : j = i
    · subst hji
      exact absurd hj (hcall name file n)
    · exact (hw.others j hji).symm.trans hj
  -- no draft gets the name of the ETag
  obtain ⟨hetag, hetagRead⟩ : w'.dir.names.lookup (cachePaths url).2 =
      w.dir.names.lookup (cachePaths url).2 ∧
        w'.dir.read (cachePaths url).2 = w.dir.read (cachePaths url).2 := by
    rcases h.read ho (.inr rfl) with hsame | ⟨htarget, -⟩
    · exact hsame
    · exact absurd (htargets _ htarget).symm (cachePaths_ne url)
  have hothers : ∀ j, j ≠ i → (w'.calls j).draft (entries j).data =
      (w.calls j).draft (entries j).data := fun j hj => by rw [hw.others j hj]
  refine ⟨hI.drafts.step h hothers fun _ => hw.fresh, hw.temporary, ?_, ?_, ?_⟩
  -- the body is in another file than the ETag, and no call writes to it
  · intro file hfile
    rw [hetag]
    rcases h.lookup ho (.inl rfl) with hsame | ⟨-, -, t, b, ht, hb, hlookup, -⟩
    · obtain ⟨hne, hopened⟩ := hI.apart file (hsame.symm.trans hfile)
      exact ⟨hne, fun j name n hj => hopened j name n (hcalls hj)⟩
    · obtain rfl : t.file = file := Option.some.inj (hlookup.symm.trans hfile)
      refine ⟨(ho t ht).hidden b hb _ (.inr rfl), fun j name n hj => ?_⟩
      exact (hI.opened j name t.file n (hcalls hj)).2 i t ht rfl
  -- a file that is open for an ETag is no draft
  · intro j name file n hj
    obtain ⟨hlt, hne⟩ := hI.opened j name file n (hcalls hj)
    refine ⟨Nat.lt_of_lt_of_le hlt h.length_le, fun k t ht => ?_⟩
    by_cases hk : k = i
    · subst hk
      rcases h.file_eq ht with ⟨u, hu, hsame⟩ | hnew
      · exact hsame ▸ hne k u hu
      · exact hnew ▸ Nat.ne_of_gt hlt
    · rw [hw.others k hk] at ht
      exact hne k t ht
  -- the body and the ETag belong together
  · intro data b hdata hb
    rw [hetagRead] at hb
    refine hw.paired ?_
    rcases h.read ho (.inl rfl) with ⟨-, hsame⟩ | ⟨htarget, -, t, b', ht, hb', -, hread⟩
    · exact hI.paired data b (hsame.symm.trans hdata) hb
    · obtain rfl : b' = data := Option.some.inj (hread.symm.trans hdata)
      exact hcondition ⟨_, htarget⟩ t b' ht hb' b hb

/-- An operation on the file of the ETag. -/
theorem Inv.etag (hI : Inv url entries w) (hw : Follows url entries w i w')
    (hdraft : (w'.calls i).draft (entries i).data = none)
    (hnames : ∀ name, name ≠ (cachePaths url).2 →
      w'.dir.names.lookup name = w.dir.names.lookup name ∨
        (¬IsPublic url name ∧ w'.dir.names.lookup name = none))
    (hetag : ∀ file, w'.dir.names.lookup (cachePaths url).2 = some file →
      w.dir.names.lookup (cachePaths url).2 = some file ∨ w.dir.files.length ≤ file)
    (hlength : w.dir.files.length ≤ w'.dir.files.length)
    (hcontent : ∀ file, file < w.dir.files.length →
      w.dir.names.lookup (cachePaths url).2 ≠ some file →
        (∀ name n, w.calls i ≠ .writeEtag name file n) →
          w'.dir.content file = w.dir.content file)
    (hcall : ∀ name file n, w'.calls i = .writeEtag name file n →
      w'.dir.names.lookup (cachePaths url).2 = some file ∨ ∃ m, w.calls i = .writeEtag name file m)
    (hpaired : ∀ data b, w.dir.read (cachePaths url).1 = some data →
      w'.dir.read (cachePaths url).2 = some b →
      etagText (some b) = [] ∨ Pairs entries w data (etagText (some b))) : Inv url entries w' := by
  have hdrafts : ∀ j t, (w'.calls j).draft (entries j).data = some t →
      (w.calls j).draft (entries j).data = some t := by
    intro j t ht
    by_cases hj : j = i
    · subst hj
      cases hdraft.symm.trans ht
    · rwa [hw.others j hj] at ht
  -- the name of the body stays where it is
  have hpath : w'.dir.names.lookup (cachePaths url).1 = w.dir.names.lookup (cachePaths url).1 := by
    rcases hnames _ (cachePaths_ne url) with hsame | ⟨hprivate, -⟩
    · exact hsame
    · exact absurd (.inl rfl) hprivate
  refine ⟨hI.drafts.of_eq hdrafts ?_ hlength ?_ ?_, hw.temporary, ?_, ?_, ?_⟩
  · intro j t ht
    refine (hnames _ fun heq => (hI.drafts.valid j t ht).private_name (.inr heq)).imp_right ?_
    exact fun hlost => ⟨trivial, hlost.2⟩
  · rintro name (rfl | rfl) file hfile
    · exact .inl (hpath.symm.trans hfile)
    · exact hetag file hfile
  · intro j t b ht hb
    have hvalid := hI.drafts.valid j t ht
    refine hcontent t.file hvalid.file_lt (hvalid.hidden b hb _ (.inr rfl)) ?_
    exact fun name n hi => (hI.opened i name t.file n hi).2 j t ht rfl
  -- the body is in another file than the ETag, and no call writes to it
  · intro file hfile
    rw [hpath] at hfile
    obtain ⟨hne, hopened⟩ := hI.apart file hfile
    have hne' : w'.dir.names.lookup (cachePaths url).2 ≠ some file := by
      intro hnew
      rcases hetag file hnew with hold | hge
      · exact hne hold
      · exact absurd hge (Nat.not_le_of_lt (w.dir.valid _ _ hfile))
    refine ⟨hne', fun j name n hj => ?_⟩
    by_cases hji : j = i
    · subst hji
      rcases hcall name file n hj with hnew | ⟨m, hold⟩
      · exact hne' hnew
      · exact hopened j name m hold
    · exact hopened j name n ((hw.others j hji).symm.trans hj)
  -- a file that is open for an ETag is no draft
  · intro j name file n hj
    have hold : ∀ m, w.calls j = .writeEtag name file m → file < w'.dir.files.length ∧
        ∀ k t, (w'.calls k).draft (entries k).data = some t → t.file ≠ file := by
      intro m hm
      obtain ⟨hlt, hne⟩ := hI.opened j name file m hm
      exact ⟨Nat.lt_of_lt_of_le hlt hlength, fun k t ht => hne k t (hdrafts k t ht)⟩
    by_cases hji : j = i
    · subst hji
      rcases hcall name file n hj with hnew | ⟨m, hm⟩
      · refine ⟨w'.dir.valid _ _ hnew, fun k t ht heq => ?_⟩
        have hvalid := hI.drafts.valid k t (hdrafts k t ht)
        rcases hetag file hnew with hfile | hge
        · obtain ⟨b, hb⟩ : ∃ b, t.content = some b := content_of_draft (hdrafts k t ht)
          exact hvalid.hidden b hb _ (.inr rfl) (heq ▸ hfile)
        · exact absurd (heq ▸ hge) (Nat.not_le_of_lt hvalid.file_lt)
      · exact hold m hm
    · exact hold n ((hw.others j hji).symm.trans hj)
  -- the body is the one that was there
  · intro data b hdata hb
    obtain ⟨file, hfile, hcontent'⟩ := Directory.read_eq_some.1 hdata
    rw [hpath] at hfile
    obtain ⟨hne, hopened⟩ := hI.apart file hfile
    rw [hcontent file (w.dir.valid _ _ hfile) hne (hopened i)] at hcontent'
    exact hw.paired (hpaired data b (Directory.read_eq_some.2 ⟨file, hfile, hcontent'⟩) hb)

/-- A body is renamed, next to an ETag that is blank or its own. -/
theorem Inv.renames (hI : Inv url entries w) (hw : Follows url entries w i w') {t : Temporary}
    (hc : w.calls i = .rename t) (hc' : w'.calls i = .etag t.name)
    (h : w.dir.rename t.name (cachePaths url).1 = some w'.dir)
    (hpairs : etagText (w.dir.read (cachePaths url).2) = [] ∨
      Pairs entries w (entries i).data (etagText (w.dir.read (cachePaths url).2))) :
    Inv url entries w' := by
  refine hI.drafting hw (· = (cachePaths url).1) ?_ (fun _ _ _ h => by cases hc'.symm.trans h)
    (fun _ => id) fun _ u b hu hb there hthere => ?_
  · rw [hc, hc']
    exact .rename trivial (.inl rfl) rfl h
  · rw [hc] at hu
    cases hu
    cases hb
    rw [hthere] at hpairs
    exact hpairs

/-- A call removes the file with the name of its temporary file, and the file may be another's. -/
theorem Inv.cleans (hI : Inv url entries w) (hw : Follows url entries w i w') {name : String}
    (hc : w.calls i = .cleanup name) (hc' : w'.calls i = .done false)
    (h : w'.dir = w.dir.unlink name) : Inv url entries w' := by
  have hprivate : ¬IsPublic url name := hI.temporary i name (by rw [hc]; rfl)
  have hlookup : ∀ name', w'.dir.names.lookup name' =
      if name' = name then none else w.dir.names.lookup name' := by
    rw [h]
    exact Directory.lookup_unlink name
  have hetag : w'.dir.names.lookup (cachePaths url).2 = w.dir.names.lookup (cachePaths url).2 :=
    (hlookup _).trans (if_neg fun heq => hprivate (.inr heq.symm))
  refine hI.etag hw (by rw [hc']; rfl) ?_ ?_ (by rw [h]; exact le_rfl) ?_
    (fun _ _ _ h => by cases hc'.symm.trans h) ?_
  · intro name' _
    rw [hlookup]
    split_ifs with heq
    · exact .inr ⟨heq ▸ hprivate, rfl⟩
    · exact .inl rfl
  · exact fun file hfile => .inl (hetag.symm.trans hfile)
  · intro file _ _ _
    rw [h]
    rfl
  · intro data b hdata hb
    refine hI.paired data b hdata ?_
    rw [← hb, Directory.read, Directory.read, hetag, h]
    rfl

/-- The ETag is removed. -/
theorem Inv.removes (hI : Inv url entries w) (hw : Follows url entries w i w')
    (hc' : w'.calls i = .done true) (h : w'.dir = w.dir.unlink (cachePaths url).2) :
    Inv url entries w' := by
  have hlookup : ∀ name, w'.dir.names.lookup name =
      if name = (cachePaths url).2 then none else w.dir.names.lookup name := by
    rw [h]
    exact Directory.lookup_unlink _
  have hetag : w'.dir.names.lookup (cachePaths url).2 = none := (hlookup _).trans (if_pos rfl)
  refine hI.etag hw (by rw [hc']; rfl) ?_ ?_ (by rw [h]; exact le_rfl) ?_
    (fun _ _ _ h => by cases hc'.symm.trans h) ?_
  · exact fun name hne => .inl ((hlookup name).trans (if_neg hne))
  · exact fun file hfile => (Option.some_ne_none _ (hfile.symm.trans hetag)).elim
  · intro file _ _ _
    rw [h]
    rfl
  · intro data b hdata hb
    obtain ⟨file, hfile, -⟩ := Directory.read_eq_some.1 hb
    cases hetag.symm.trans hfile

/-- The file of the ETag is made empty. -/
theorem Inv.opens (hI : Inv url entries w) (hw : Follows url entries w i w') {name : String}
    {file : ℕ} (hc' : w'.calls i = .writeEtag name file 0)
    (h : w.dir.createOrTruncate (cachePaths url).2 = (file, w'.dir)) : Inv url entries w' := by
  obtain ⟨hnew, hempty, hnames, hcontent, hold⟩ := Directory.createOrTruncate_eq h
  refine hI.etag hw (by rw [hc']; rfl) ?_ ?_ (Directory.length_le_createOrTruncate h) ?_ ?_ ?_
  · exact fun name' hne => .inl (hnames name' hne)
  · intro file' hfile'
    obtain rfl : file = file' := Option.some.inj (hnew.symm.trans hfile')
    exact hold.imp_right fun heq => Nat.le_of_eq heq.symm
  · intro file' hlt hne _
    refine hcontent file' ?_ hlt
    rintro rfl
    rcases hold with hold | heq
    · exact hne hold
    · exact absurd heq (Nat.ne_of_lt hlt)
  · intro name' file' n h'
    rw [hc'] at h'
    cases h'
    exact .inl hnew
  · intro data b _ hb
    rw [Directory.read, hnew] at hb
    cases hempty.symm.trans hb
    exact .inl (by decide)

/-- A part of an ETag is written: what is there already, or all of it next to its body. -/
theorem Inv.writes (hI : Inv url entries w) (hw : Follows url entries w i w') {name : String}
    {file n n' count : ℕ} (hc : w.calls i = .writeEtag name file n)
    (hc' : w'.calls i = .writeEtag name file n')
    (h : w.dir.writeSome file (utf8 (entries i).etag) n count = some (w'.dir, n'))
    (hpairs : ∀ old, w.dir.names.lookup (cachePaths url).2 = some file →
      w.dir.content file = some old →
        (((utf8 (entries i).etag).drop n).take (max 1 count) <+: old.drop n) ∨
          (old = [] ∧ n = 0 ∧ (utf8 (entries i).etag).length ≤ max 1 count ∧
            ∀ data, w.dir.read (cachePaths url).1 = some data →
              Pairs entries w data (trim (entries i).etag))) : Inv url entries w' := by
  obtain ⟨hwrite, hne⟩ := Directory.writeSome_eq h
  have hnames : w'.dir.names = w.dir.names := Directory.names_of_writeSome h
  refine hI.etag hw (by rw [hc']; rfl) (fun _ _ => .inl (by rw [hnames])) ?_ ?_ ?_ ?_ ?_
  · exact fun file' hfile' => .inl (hnames ▸ hfile')
  · rw [hwrite]
    exact Nat.le_of_eq (List.length_modify ..).symm
  · intro file' _ _ hopened
    rw [hwrite, Directory.content_writeAt, if_neg]
    rintro rfl
    exact hopened name n hc
  · intro name' file' m h'
    rw [hc'] at h'
    cases h'
    exact .inr ⟨n, hc⟩
  · intro data b hdata hb
    obtain ⟨file', hfile', hcontent⟩ := Directory.read_eq_some.1 hb
    rw [hnames] at hfile'
    rw [hwrite, Directory.content_writeAt] at hcontent
    split_ifs at hcontent with heq
    · subst heq
      obtain ⟨old, hold, rfl⟩ := Option.map_eq_some_iff.1 hcontent
      rcases hpairs old hfile' hold with hsame | ⟨rfl, rfl, hall, hpairs⟩
      · rw [Directory.overwrite_same hne hsame]
        exact hI.paired data old hdata (Directory.read_eq_some.2 ⟨file', hfile', hold⟩)
      · right
        rw [List.drop_zero, List.take_of_length_le hall, Directory.overwrite_zero, etagText,
          Option.bind_some, fromUtf8_utf8]
        exact hpairs data hdata
    · exact hI.paired data b hdata (Directory.read_eq_some.2 ⟨file', hfile', hcontent⟩)

/-! ### Runs -/

theorem World.step_calls (w : World) (e : Event) : (w.step url entries e).calls e.call =
    (DiskCache.step url (entries e.call) e w.dir (w.calls e.call)).2 :=
  Function.update_self _ _ _

theorem World.step_follows (hI : Inv url entries w) {e : Event} (he : KeepsPairs url entries w e) :
    Follows url entries w e.call (w.step url entries e) where
  others j hj := Function.update_of_ne hj _ _
  started := by
    rw [World.step_calls]
    exact step_ne_start e _ _
  fresh hnone t ht j u hu := by
    rw [World.step_calls] at ht
    obtain ⟨hcreate, hfails, hfree, hname⟩ := step_draft hnone ht
    simp only [KeepsPairs, hcreate] at he
    rw [hname] at hfree ⊢
    exact he hfails hfree j _ (temporary_of_draft hu)
  temporary j name hj := by
    by_cases hje : j = e.call
    · subst hje
      rw [World.step_calls] at hj
      rcases step_name hj with hold | ⟨-, rfl⟩
      · exact hI.temporary _ name hold
      · exact not_isPublic_temporaryName url _ _
    · refine hI.temporary j name ?_
      rw [← hj]
      exact congrArg Call.name (Function.update_of_ne hje _ _).symm

/-- An operation that keeps bodies and ETags together keeps the invariant. -/
theorem World.step_inv (hI : Inv url entries w) {e : Event} (he : KeepsPairs url entries w e) :
    Inv url entries (w.step url entries e) := by
  have hw := World.step_follows hI he
  have hstep : Step url (entries e.call) e w.dir (w.calls e.call) (w.step url entries e).dir
      ((w.step url entries e).calls e.call) := by
    rw [World.step_calls]
    exact step_cases e w.dir (w.calls e.call)
  generalize hw' : w.step url entries e = w' at hw hstep
  generalize hc : w.calls e.call = c at hstep
  generalize hc' : w'.calls e.call = c' at hstep
  generalize hd' : w'.dir = d' at hstep
  cases hstep with
  | drafts h hcall =>
    rw [← hc, ← hc', ← hd'] at h
    exact hI.drafting hw (fun _ => False) h (hc' ▸ hcall) (fun _ => False.elim)
      (fun hfalse => hfalse.elim fun _ => False.elim)
  | @renames t _ hfails h =>
    simp only [KeepsPairs, hc] at he
    obtain ⟨file, hfile, -⟩ := Directory.rename_eq_some h
    have hthere : t.name ∈ w.dir.names := by
      by_contra hfree
      cases hfile.symm.trans (Directory.notMem_names.1 hfree)
    exact hI.renames hw hc hc' (hd' ▸ h) (he hfails hthere)
  | cleans name => exact hI.cleans hw hc hc' hd'
  | removes name => exact hI.removes hw hc' hd'
  | opens name h => exact hI.opens hw hc' (hd' ▸ h)
  | writes name hfails h =>
    simp only [KeepsPairs, hc] at he
    exact hI.writes hw hc hc' (hd' ▸ h) (he hfails)

theorem inv_init {dir : Directory} (h : dir.names.lookup (cachePaths url).1 = none) :
    Inv url entries (World.init dir) where
  drafts := drafted_none
  temporary _ _ := nofun
  apart file hfile := nomatch h.symm.trans hfile
  opened _ _ _ _ := nofun
  paired data b hdata := by
    obtain ⟨file, hfile, -⟩ := Directory.read_eq_some.1 hdata
    cases h.symm.trans hfile

/-- **Pairs on disk**: in a run that keeps bodies and ETags together, an entry that is read with an
ETag has the body and the ETag of one entry that was written. -/
theorem run_paired (parse : Bytes → Option DerpMap) (url : Bytes) (entries : ℕ → CachedMap)
    (dir : Directory) (hdir : dir.names.lookup (cachePaths url).1 = none) (es : List Event)
    (hes : Along (World.step url entries) (KeepsPairs url entries) (World.init dir) es)
    (modified : ℤ) (c : CachedMap) :
    let w := run (World.step url entries) (World.init dir) es
    readDiskCache parse (w.files url modified) = some c → c.etag ≠ [] →
      ∃ i, w.calls i ≠ .start ∧ (entries i).data = c.data ∧ trim (entries i).etag = c.etag := by
  intro w hc hetag
  have hI : Inv url entries w :=
    run_invariant (P := KeepsPairs url entries) (fun _ _ hI he => World.step_inv hI he)
      (inv_init hdir) hes
  obtain ⟨file, content, hjson, hcontent, hdata, hlength, -, htext, -⟩ := readDiskCache_eq_some hc
  obtain ⟨data, hread, hfile⟩ := Option.map_eq_some_iff.1 hjson
  subst hfile
  obtain rfl : data = content := Option.some.inj hcontent
  -- the file is read as a whole, as it is short enough
  have hwhole : c.data = data := by
    rw [hdata, List.length_take] at hlength
    have hle : data.length ≤ maxMapBytes + 1 := by omega
    rw [hdata, List.take_of_length_le hle]
  cases hb : w.dir.read (cachePaths url).2 with
  | none =>
    refine absurd ?_ hetag
    rw [htext]
    change etagText (w.dir.read (cachePaths url).2) = []
    rw [hb]
    decide
  | some b =>
    have htext' : c.etag = etagText (some b) := by
      rw [htext, ← hb]
      rfl
    rcases hI.paired data b hread hb with hblank | hpairs
    · exact absurd (htext'.trans hblank) hetag
    · rw [htext', hwhole]
      exact hpairs

/-- Two maps a server may send, one after the other. -/
def sampleEntry (i : ℕ) : CachedMap :=
  if i = 0 then
    { data := ascii "\x7b\"Regions\":\x7b\x7d\x7d", etag := ['"', '1', '"'], storedAt := 0 }
  else
    { data := ascii "\x7b\"Regions\":\x7b\"1\":\x7b\"RegionID\":1\x7d\x7d\x7d"
      etag := ['"', '2', '"'], storedAt := 0 }

/-- The maps in the two bodies. -/
def sampleParse (data : Bytes) : Option DerpMap :=
  if data = (sampleEntry 0).data then some {}
  else if data = (sampleEntry 1).data then some { regions := [(1, { regionId := 1 })] }
  else none

/-- Every operation of a call succeeds. -/
def sampleCall (call : ℕ) : List Event :=
  List.replicate 9 { call, random := UInt64.ofNat call, count := 4096 }

/-- A second call, whose rename fails and which removes its temporary file. -/
def sampleFailing : List Event :=
  (sampleCall 1).take 5 ++ [{ call := 1, fails := true }, { call := 1 }]

/-- A call that does not go on stays where it is. -/
theorem World.run_calls {i : ℕ} {es : List Event} (h : ∀ e ∈ es, e.call ≠ i) (w : World) :
    (run (World.step url entries) w es).calls i = w.calls i := by
  induction es generalizing w with
  | nil => rfl
  | cons e es ih =>
    rw [run_cons, ih fun e' he' => h e' (List.mem_cons_of_mem e he')]
    exact Function.update_of_ne (h e List.mem_cons_self).symm _ _

/-- One call writes the first map, and another fails to replace it. -/
theorem run_paired_sample :
    let w := run (World.step (ascii "u") sampleEntry) (World.init {})
      (sampleCall 0 ++ sampleFailing)
    readDiskCache sampleParse (w.files (ascii "u") 0) = some (sampleEntry 0) ∧
      ∃ i, w.calls i ≠ .start ∧ (sampleEntry i).data = (sampleEntry 0).data ∧
        trim (sampleEntry i).etag = (sampleEntry 0).etag := by
  intro w
  have hread : readDiskCache sampleParse (w.files (ascii "u") 0) = some (sampleEntry 0) := by
    decide +kernel
  refine ⟨hread, run_paired sampleParse (ascii "u") sampleEntry {} rfl
    (sampleCall 0 ++ sampleFailing) (along_append.2 ⟨?_, ?_⟩) 0 _ hread (by decide)⟩
  · -- only the new name, the rename and the writes of the ETag have a condition
    refine ⟨trivial, ?_, trivial, trivial, trivial, ?_, trivial, ?_, ?_, trivial⟩
    · intro _ _ i t ht
      by_cases hi : i = 0
      · subst hi
        cases ht
      · have hcall := @World.run_calls (ascii "u") sampleEntry i ((sampleCall 0).take 1)
          (fun e he => by
            rw [List.eq_of_mem_replicate (List.mem_of_mem_take he)]
            exact fun h => hi h.symm) (World.init {})
        cases (congrArg Call.temporary hcall).symm.trans ht
    · intro _ _
      left
      decide +kernel
    · intro _ old _ hold
      have hempty : (run (World.step (ascii "u") sampleEntry) (World.init {})
        ((sampleCall 0).take 7)).dir.content 1 = some [] := by decide +kernel
      obtain rfl : [] = old := Option.some.inj (hempty.symm.trans hold)
      refine .inr ⟨rfl, rfl, by decide, fun data hdata => ⟨0, by decide +kernel, ?_, rfl⟩⟩
      have hthere : (run (World.step (ascii "u") sampleEntry) (World.init {})
        ((sampleCall 0).take 7)).dir.read (cachePaths (ascii "u")).1 =
          some (sampleEntry 0).data := by decide +kernel
      exact Option.some.inj (hthere.symm.trans hdata)
    · intro _ old _ hold
      left
      exact List.nil_prefix
  · -- the rename fails, so the ETag that is there is not its own and need not be
    refine ⟨trivial, ?_, trivial, trivial, trivial, nofun, trivial, trivial⟩
    intro _ _ i t ht
    have hsecond : ∀ e ∈ (sampleCall 1).take 1, e.call = 1 := by decide
    by_cases hi : i = 1
    · subst hi
      cases ht
    · have hcall := @World.run_calls (ascii "u") sampleEntry i ((sampleCall 1).take 1)
        (fun e he => by
          rw [hsecond e he]
          exact fun h => hi h.symm) (run (World.step (ascii "u") sampleEntry) (World.init {})
            (sampleCall 0))
      by_cases hi' : i = 0
      · subst hi'
        have hdone : (run (World.step (ascii "u") sampleEntry) (World.init {})
          (sampleCall 0)).calls 0 = .done true := by decide +kernel
        cases (congrArg Call.temporary (hcall.trans hdone)).symm.trans ht
      · have hstart := @World.run_calls (ascii "u") sampleEntry i (sampleCall 0)
          (fun e he => by
            rw [List.eq_of_mem_replicate he]
            exact fun h => hi' h.symm) (World.init {})
        cases (congrArg Call.temporary (hcall.trans hstart)).symm.trans ht

/-- A second call has renamed its body and not yet written its ETag, or has stopped there. -/
theorem read_mixed :
    let w := run (World.step (ascii "u") sampleEntry) (World.init {})
      (sampleCall 0 ++ (sampleCall 1).take 6)
    let c : CachedMap := ⟨(sampleEntry 1).data, (sampleEntry 0).etag, 0⟩
    readDiskCache sampleParse (w.files (ascii "u") 0) = some c ∧ c.etag ≠ [] ∧
      ∀ i, ¬((sampleEntry i).data = c.data ∧ trim (sampleEntry i).etag = c.etag) := by
  intro w c
  refine ⟨by decide +kernel, by decide, fun i h => ?_⟩
  by_cases hi : i = 0
  · rw [hi] at h
    exact absurd h.1 (by decide +kernel)
  · have hentry : sampleEntry i = sampleEntry 1 := by
      rw [sampleEntry, if_neg hi]
      rfl
    rw [hentry] at h
    exact absurd h.2 (by decide)

end Tailcat.Protocol.DiskCache
