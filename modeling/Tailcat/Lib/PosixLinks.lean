import Tailcat.Lib.PosixGrowth
import Mathlib.Data.List.Infix

/-!
# Where symbolic links lead

`Fs.Reaches` says where a path leads from a directory, through any number of links: a call may give
up before (`maxLinks`), but never leads elsewhere (`walk_mono`).  A path that leads through
no link is `Fs.Straight`; what follows behind it starts where it ends (`reaches_append`).  Behind a
link a path goes on with its text, from the directory of the link (`reaches_link`); a link whose
text begins with its own name leads nowhere (`not_reaches_loop`).
-/

namespace Posix

section

variable {fs fs' : Fs} {base : Base} {cur d i j : ℕ} {path rest : Path}

/-! ### Walks through any number of links -/

/-- The path leads from a directory to an object. -/
def Fs.Reaches (fs : Fs) (base : Base) (cur : ℕ) (path : Path) (i : ℕ) : Prop :=
  ∃ n links, walk fs base n cur path = (links, .ok (.found i))

/-- The path leads there without a link. -/
def Fs.Straight (fs : Fs) (base : Base) (cur : ℕ) (path : Path) (d : ℕ) : Prop :=
  (walk fs base 0 cur path).2 = .ok (.found d)

theorem walk_mono {n m : ℕ} (hnm : n ≤ m) {links : List ℕ}
    (h : walk fs base n cur path = (links, .ok (.found i))) :
    walk fs base m cur path = (links, .ok (.found i)) := by
  induction n generalizing m cur path links i with
  | zero =>
    cases m with
    | zero => exact h
    | succ m => exact walkFrom_found (growing.refl fs) (fun _ _ _ _ h => by cases h) h
  | succ n ih =>
    cases m with
    | zero => omega
    | succ m =>
      exact walkFrom_found (growing.refl fs) (fun _ _ _ _ h => ih (by omega) h) h

theorem Fs.Straight.grow (hg : Grows fs fs') (h : fs.Straight base cur path d) :
    fs'.Straight base cur path d := by
  have hw : walk fs base 0 cur path = ((walk fs base 0 cur path).1, .ok (.found d)) :=
    Prod.ext rfl h
  rw [Fs.Straight, walk_found hg hw]

/-! ### Straight paths -/

/-- What follows behind a path without links. -/
theorem walkFrom_straight
    (h : (walkFrom fs base (fun _ _ => ([], .error .loop)) cur path).2 = .ok (.found d))
    (jump : ℕ → Path → Walked) (rest : Path) :
    walkFrom fs base jump cur (path ++ rest) = walkFrom fs base jump d rest := by
  induction path generalizing cur with
  | nil =>
    obtain rfl : cur = d := by simpa [walkFrom] using h
    rfl
  | cons name path ih =>
    by_cases hdir : ∃ parent entries, fs.kind cur = some (.dir parent entries)
    swap
    · rw [walkFrom_notdir fun p es he => hdir ⟨p, es, he⟩] at h
      cases h
    obtain ⟨parent, entries, hk⟩ := hdir
    rw [List.cons_append]
    by_cases hd : isDot name
    · rw [walkFrom_dot hk hd] at h ⊢
      exact ih h
    by_cases hu : name = ".."
    · subst hu
      rw [walkFrom_up hk] at h ⊢
      split_ifs at h ⊢
      · exact ih h
    rw [walkFrom_name hk hd hu] at h ⊢
    cases hl : entries.lookup name with
    | none =>
      simp only [hl, absent] at h
      split_ifs at h
      all_goals cases h
    | some j =>
      simp only [hl] at h ⊢
      cases hkj : fs.kind j with
      | none =>
        rw [hkj] at h
        cases h
      | some kj =>
        rw [hkj] at h
        cases kj with
        | file data => exact ih h
        | dir p es => exact ih h
        | symlink target =>
          simp only [follow] at h
          split_ifs at h
          cases base with
          | within root => cases h
          | ambient => cases h

theorem Fs.Straight.walk (h : fs.Straight base cur path d) (n : ℕ) (rest : Path) :
    Posix.walk fs base n cur (path ++ rest) = Posix.walk fs base n d rest := by
  cases n with
  | zero => exact walkFrom_straight h _ rest
  | succ n => exact walkFrom_straight h _ rest

theorem reaches_append (h : fs.Straight base cur path d) :
    fs.Reaches base cur (path ++ rest) i ↔ fs.Reaches base d rest i := by
  unfold Fs.Reaches
  simp only [h.walk]

theorem reaches_nil : fs.Reaches base cur [] i ↔ i = cur := by
  constructor
  · rintro ⟨n, links, h⟩
    have h0 : walk fs base n cur [] = ([], .ok (.found cur)) := by cases n <;> rfl
    rw [h0] at h
    simp only [Prod.mk.injEq, Except.ok.injEq, Target.found.injEq] at h
    exact h.2.symm
  · rintro rfl
    exact ⟨0, [], rfl⟩

theorem Fs.Straight.reaches (h : fs.Straight base cur path d) :
    fs.Reaches base cur path i ↔ i = d := by
  rw [← List.append_nil path, reaches_append h, reaches_nil]

/-! ### Links -/

section Link

variable {parent l : ℕ} {entries : List (String × ℕ)} {name target : String}
  (hd : fs.kind d = some (.dir parent entries)) (hdot : ¬isDot name) (hup : name ≠ "..")
  (hl : entries.lookup name = some l) (hk : fs.kind l = some (.symlink target))
  (hrel : target.toList.head? ≠ some '/')

include hd hdot hup hl hk hrel

theorem walkFrom_link (jump : ℕ → Path → Walked) (rest : Path) :
    walkFrom fs base jump d (name :: rest) =
      (l :: (jump d (linkPath target ++ rest)).1, (jump d (linkPath target ++ rest)).2) := by
  rw [walkFrom_name hd hdot hup, hl]
  simp only [hk, follow, if_neg hrel]

/-- Behind a link a path goes on with its text, in its directory. -/
theorem reaches_link : fs.Reaches base d (name :: rest) i ↔
    fs.Reaches base d (linkPath target ++ rest) i := by
  constructor
  · rintro ⟨n, links, h⟩
    cases n with
    | zero =>
      rw [Posix.walk, walkFrom_link hd hdot hup hl hk hrel] at h
      cases h
    | succ n =>
      rw [Posix.walk, walkFrom_link hd hdot hup hl hk hrel] at h
      have hsnd : (Posix.walk fs base n d (linkPath target ++ rest)).2 = .ok (.found i) :=
        congrArg Prod.snd h
      exact ⟨n, _, Prod.ext rfl hsnd⟩
  · rintro ⟨n, links, h⟩
    refine ⟨n + 1, l :: links, ?_⟩
    rw [Posix.walk, walkFrom_link hd hdot hup hl hk hrel, h]

/-- A link to what begins with its own name leads nowhere. -/
theorem not_reaches_loop (hloop : (linkPath target).head? = some name) :
    ¬fs.Reaches base d (name :: rest) i := by
  obtain ⟨t, ht⟩ : ∃ t, linkPath target = name :: t := by
    cases hp : linkPath target with
    | nil =>
      rw [hp] at hloop
      cases hloop
    | cons first t =>
      rw [hp] at hloop
      exact ⟨t, by rw [Option.some.inj hloop]⟩
  have hnever : ∀ n rest, (Posix.walk fs base n d (name :: rest)).2 ≠ .ok (.found i) := by
    intro n
    induction n with
    | zero =>
      intro rest h
      rw [Posix.walk, walkFrom_link hd hdot hup hl hk hrel] at h
      cases h
    | succ n ih =>
      intro rest h
      rw [Posix.walk, walkFrom_link hd hdot hup hl hk hrel, ht] at h
      exact ih (t ++ rest) h
  rintro ⟨n, links, h⟩
  exact hnever n rest (by rw [h])

end Link

end

end Posix
