import Tailcat.Lib.Lexical
import Tailcat.Sftp.Files

/-!
# The normal form of virtual paths

A client's path below the virtual root is a normal form (`Normal`): its components are names.  It
is what the rules of lexical cleaning lead to from the components of the path behind a slash
(`Cleaned`), its text behind a slash is cleaned to itself, and a path of two halves is cleaned by
resolving the second from the first (`relative_append`).

Main results:

* `cleaned_iff`, `clean_normal` : `clean` computes the cleaning, which is a normal form;
* `relative_slashed` : the reply to a RealPath request names the same path again;
* `relative_append_iff` : when the halves of a path may be cleaned apart;
* `relative_cleaned` : all of this for `relative`.
-/

namespace Tailcat.Sftp

open Posix (Path)

/-! ### Normal forms -/

/-- A component that stays in its directory. -/
def isIdle (part : String) : Prop := part = "" ∨ part = "."

instance : DecidablePred isIdle := fun part => inferInstanceAs (Decidable (part = "" ∨ part = "."))

/-- A path of names: no component is empty, `.` or `..` or has a slash in it. -/
def Normal (path : Path) : Prop :=
  ∀ part ∈ path, part ≠ "" ∧ part ≠ "." ∧ part ≠ ".." ∧ '/' ∉ part.toList

/-- `path` is the lexical cleaning of a text at the root. -/
def Cleaned (text : String) (path : Path) : Prop := Lexical.Cleaning isIdle ".." (parts text) path

/-- A path resolved from another, without looking at the filesystem. -/
def resolved (base path : Path) : Path := Lexical.resolve isIdle ".." base path

/-- How far a text climbs above the directory it is resolved from. -/
def climbs (text : String) : ℕ := Lexical.climbs isIdle ".." (parts text)

theorem up_not_idle : ¬isIdle ".." := by decide

theorem clean_eq (parts : List String) : clean parts = resolved [] parts := rfl

theorem Normal.names {path : Path} (h : Normal path) : Lexical.Names isIdle ".." path := by
  intro part hpart
  obtain ⟨hempty, hdot, hup, -⟩ := h part hpart
  exact ⟨fun hi => hi.elim hempty hdot, hup⟩

/-! ### The parts of a text -/

theorem parts_append (a b : String) : parts (a ++ "/" ++ b) = parts a ++ parts b := by
  have htext : (a ++ "/" ++ b).toList = a.toList ++ '/' :: b.toList := by
    rw [String.toList_append, String.toList_append, List.append_assoc]
    rfl
  rw [parts, htext, splitOn_append, List.map_append]
  rfl

theorem notMem_of_mem_parts {text part : String} (h : part ∈ parts text) : '/' ∉ part.toList := by
  obtain ⟨s, hs, rfl⟩ := List.mem_map.1 h
  rw [String.toList_ofList]
  exact notMem_of_mem_splitOn hs

theorem parts_of_notMem {part : String} (h : '/' ∉ part.toList) : parts part = [part] := by
  rw [parts, splitOn_of_notMem h, List.map_singleton, String.ofList_toList]

/-- The parts of a text behind a slash. -/
theorem parts_slash (text : String) : parts ("/" ++ text) = "" :: parts text := by
  have h := parts_append "" text
  rwa [String.empty_append] at h

/-- Joined parts are split again. -/
theorem parts_intercalate {path : Path} (hne : path ≠ []) (h : Normal path) :
    parts (String.intercalate "/" path) = path := by
  induction path with
  | nil => exact absurd rfl hne
  | cons part path ih =>
    have hpart : parts part = [part] := parts_of_notMem (h part List.mem_cons_self).2.2.2
    by_cases hp : path = []
    · rw [hp, String.intercalate_singleton, hpart]
    · rw [String.intercalate_cons_of_ne_nil hp, parts_append, hpart,
        ih hp fun p hmem => h p (List.mem_cons_of_mem part hmem), List.singleton_append]

/-! ### Cleaning a text -/

/-- The components of a cleaned path are parts of the text, so they have no slash. -/
theorem mem_resolved {base path : Path} {part : String} (h : part ∈ resolved base path) :
    part ∈ base ∨ part ∈ path := by
  induction path generalizing base with
  | nil => exact .inl h
  | cons p path ih =>
    rcases ih h with hbase | hpath
    · unfold Lexical.push at hbase
      split_ifs at hbase
      · exact .inl hbase
      · exact .inl (List.dropLast_subset base hbase)
      · rcases List.mem_append.1 hbase with hbase | hp
        · exact .inl hbase
        · rw [List.mem_singleton.1 hp]
          exact .inr List.mem_cons_self
    · exact .inr (List.mem_cons_of_mem p hpath)

theorem clean_normal (text : String) : Normal (clean (parts text)) := by
  intro part hpart
  have hnames : Lexical.Names isIdle ".." (clean (parts text)) :=
    Lexical.names_nil.resolve (parts text)
  obtain ⟨hidle, hup⟩ := hnames part hpart
  have hslash : '/' ∉ part.toList := by
    rcases mem_resolved hpart with hnil | hmem
    · exact absurd hnil List.not_mem_nil
    · exact notMem_of_mem_parts hmem
  exact ⟨fun h => hidle (.inl h), fun h => hidle (.inr h), hup, hslash⟩

/-- The empty component in front of a text behind a slash is idle. -/
theorem clean_slash (text : String) : clean (parts ("/" ++ text)) = clean (parts text) := by
  rw [parts_slash]
  rfl

theorem cleaned_iff (text : String) (path : Path) :
    Cleaned ("/" ++ text) path ↔ path = clean (parts text) := by
  rw [← clean_slash]
  exact Lexical.cleaning_iff up_not_idle

/-- A normal form is cleaned to itself. -/
theorem clean_slashed {path : Path} (h : Normal path) : clean (parts (slashed path)) = path := by
  rw [slashed, clean_slash]
  by_cases hp : path = []
  · rw [hp]
    rfl
  · rw [parts_intercalate hp h, clean_eq, resolved, Lexical.resolve_names [] h.names]
    rfl

/-- The text of a cleaned path is made of characters of the text, and slashes. -/
theorem noNul_intercalate {path : Path} (h : ∀ part ∈ path, '\x00' ∉ part.toList) :
    '\x00' ∉ (String.intercalate "/" path).toList := by
  induction path with
  | nil => exact List.not_mem_nil
  | cons part path ih =>
    have hpart := h part List.mem_cons_self
    have hrest := ih fun p hp => h p (List.mem_cons_of_mem part hp)
    by_cases hp : path = []
    · rwa [hp, String.intercalate_singleton]
    · rw [String.intercalate_cons_of_ne_nil hp, String.toList_append, String.toList_append,
        List.mem_append, List.mem_append, not_or, not_or]
      exact ⟨⟨hpart, by decide⟩, hrest⟩

theorem noNul_slashed_clean {text : String} (h : '\x00' ∉ text.toList) :
    '\x00' ∉ (slashed (clean (parts text))).toList := by
  rw [slashed, String.toList_append, List.mem_append, not_or]
  refine ⟨by decide, noNul_intercalate fun part hpart hnul => h ?_⟩
  rcases mem_resolved hpart with hnil | hmem
  · exact absurd hnil List.not_mem_nil
  · obtain ⟨s, hs, rfl⟩ := List.mem_map.1 hmem
    rw [String.toList_ofList] at hnul
    exact mem_of_mem_splitOn hs hnul

/-! ### The paths of clients -/

theorem relative_ok {text : String} (h : '\x00' ∉ text.toList) :
    relative text = .ok (clean (parts text)) := by
  rw [relative, noNul, if_neg h]
  rfl

/-- Only a text without NUL characters names a path. -/
theorem relative_eq_ok_iff {text : String} {path : Path} :
    relative text = .ok path ↔ '\x00' ∉ text.toList ∧ path = clean (parts text) := by
  constructor
  · intro h
    by_cases hn : '\x00' ∈ text.toList
    · rw [relative, noNul, if_pos hn] at h
      cases h
    · rw [relative_ok hn] at h
      exact ⟨hn, (Except.ok.inj h).symm⟩
  · rintro ⟨hn, rfl⟩
    exact relative_ok hn

/-- The text of a client's path names the path again. -/
theorem relative_slashed {text : String} (h : '\x00' ∉ text.toList) :
    relative (slashed (clean (parts text))) = .ok (clean (parts text)) := by
  rw [relative_ok (noNul_slashed_clean h), clean_slashed (clean_normal text)]

/-- Two halves of a text: the second is resolved from the first. -/
theorem relative_append {a b : String} (ha : '\x00' ∉ a.toList) (hb : '\x00' ∉ b.toList) :
    relative (a ++ "/" ++ b) = .ok (resolved (clean (parts a)) (parts b)) := by
  have hab : '\x00' ∉ (a ++ "/" ++ b).toList := by
    rw [String.toList_append, String.toList_append, List.mem_append, List.mem_append, not_or,
      not_or]
    exact ⟨⟨ha, by decide⟩, hb⟩
  rw [relative_ok hab, parts_append, clean_eq, resolved, Lexical.resolve_append]
  rfl

/-- The second half may be cleaned first exactly if it does not climb above where it starts, or
starts at the root. -/
theorem relative_append_iff (path : Path) (b : String) :
    resolved path (parts b) = resolved path (clean (parts b)) ↔ path = [] ∨ climbs b = 0 := by
  have hb : resolved path (clean (parts b)) = path ++ clean (parts b) :=
    Lexical.resolve_names path (clean_normal b).names
  rw [hb]
  exact Lexical.resolve_eq_append_iff up_not_idle path (parts b)

/-- The reply to a RealPath request on a share. -/
theorem process_realPath {files : Files} (hroot : files.root.isSome) (env : Env) {s : Session}
    (hinit : s.initialized) {text : String} (h : '\x00' ∉ text.toList) :
    (files.process env (.realPath text) s).1 = .name [⟨slashed (clean (parts text)), {}⟩] := by
  obtain ⟨root, hr⟩ := Option.isSome_iff_exists.1 hroot
  have hpath : files.path text = .ok (clean (parts text)) := by
    rw [Files.path, hr]
    exact relative_ok h
  have hreply : ∀ s : Session, files.realPath text s =
      .ok (.name [⟨slashed (clean (parts text)), {}⟩]) s := by
    intro s
    rw [Files.realPath, hpath, hr]
    rfl
  rw [Files.process, Files.dispatch_eq, if_pos (.inr hinit), Files.answer, hreply]

/-- What `relative` answers to a text: a normal form, the cleaning of the text at the root. -/
structure RootedPath (text : String) (path : Path) : Prop where
  /-- It is the answer. -/
  answer : relative text = .ok path
  /-- Its components are names. -/
  normal : Normal path
  /-- It is what the rules of cleaning lead to, and nothing else is. -/
  cleaned : ∀ p, Cleaned ("/" ++ text) p ↔ p = path
  /-- RealPath answers with its text, which names the path and which RealPath leaves as it is. -/
  realPath : relative (slashed path) = .ok path ∧
    ∀ (files : Files) (env : Env) (s : Session), files.root.isSome → s.initialized →
      (files.process env (.realPath text) s).1 = .name [⟨slashed path, {}⟩] ∧
      (files.process env (.realPath (slashed path)) s).1 = .name [⟨slashed path, {}⟩]
  /-- What follows behind a slash is resolved from it; cleaning that first makes no difference
  exactly if it does not climb, or the path is the root. -/
  append : ∀ b, '\x00' ∉ b.toList → relative (text ++ "/" ++ b) = .ok (resolved path (parts b)) ∧
    ∀ p, relative b = .ok p →
      (relative (text ++ "/" ++ b) = .ok (resolved path p) ↔ path = [] ∨ climbs b = 0)

/-- **Virtual-root path cleaning**: every text without NUL characters names one path, a normal
form. -/
theorem relative_cleaned (text : String) (h : '\x00' ∉ text.toList) :
    ∃ path, RootedPath text path := by
  refine ⟨clean (parts text), relative_ok h, clean_normal text, cleaned_iff text, ?_, ?_⟩
  · refine ⟨relative_slashed h, fun files env s hroot hinit => ?_⟩
    have hagain := process_realPath hroot env hinit (noNul_slashed_clean h)
    rw [clean_slashed (clean_normal text)] at hagain
    exact ⟨process_realPath hroot env hinit h, hagain⟩
  · intro b hb
    refine ⟨relative_append h hb, fun p hp => ?_⟩
    obtain ⟨-, rfl⟩ := relative_eq_ok_iff.1 hp
    rw [relative_append h hb, Except.ok.injEq]
    exact relative_append_iff _ b

/-- A text with idle components, and one that climbs too far. -/
theorem relative_cleaned_example : ∃ path, RootedPath "/a//./../../b" path :=
  relative_cleaned "/a//./../../b" (by decide +kernel)

/-- A half that climbs is not cleaned on its own: `a/..` is the root, not `a`. -/
theorem relative_append_climbs : ¬∀ (a b : String) (p q : Path), relative a = .ok p →
    relative b = .ok q → relative (a ++ "/" ++ b) = .ok (resolved p q) := by
  intro h
  have hbad := h "a" ".." ["a"] [] (by decide +kernel) (by decide +kernel)
  revert hbad
  decide +kernel

end Tailcat.Sftp
