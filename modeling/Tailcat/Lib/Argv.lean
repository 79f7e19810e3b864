import Mathlib.Data.List.DropRight

/-!
# The arguments of a Windows command line

`commandLineToArgv` splits a command line as the C runtime's `CommandLineToArgvW` does.  The program
is what stands before the first blank or, if it begins with a quotation mark, before the next one.
In the arguments after it, `2 n` backslashes before a quotation mark are `n` backslashes and the mark
begins or ends a quotation, `2 n + 1` are `n` backslashes and a mark that is text, and other
backslashes are text.  A mark right after the end of a quotation is text, too.

`rest_quotation` reads one quoted argument.
-/

namespace Argv

/-- The blanks that separate arguments. -/
def isBlank (c : Char) : Bool := c = ' ' || c = '\t'

/-- Read arguments: there have been `quotes` quotation marks of the current quotation, `slashes`
backslashes right before, and `run` says that the last character was a mark. -/
def rest (quotes slashes : ℕ) (run : Bool) : Option (List Char) → List Char → List (List Char)
  | arg, [] => arg.toList
  | arg, c :: cs =>
    let text := arg.getD []
    if run ∧ c = '"' then
      if quotes = 2 then rest 0 0 true (some (text ++ ['"'])) cs
      else rest (quotes + 1) 0 true (some text) cs
    else
      let quotes := if run ∧ quotes = 2 then 0 else quotes
      if isBlank c ∧ quotes = 0 then arg.toList ++ rest 0 0 false none cs
      else if c = '\\' then rest quotes (slashes + 1) false (some (text ++ [c])) cs
      else if c = '"' then
        if slashes % 2 = 0 then
          rest (quotes + 1) 0 true (some (text.take (text.length - slashes / 2))) cs
        else rest quotes 0 true (some (text.take (text.length - slashes / 2 - 1) ++ ['"'])) cs
      else rest quotes 0 false (some (text ++ [c])) cs

/-- The program, and what stands after it. -/
def program : List Char → List Char × List Char
  | '"' :: cs => (cs.takeWhile (· ≠ '"'), (cs.dropWhile (· ≠ '"')).tail)
  | cs => (cs.takeWhile (!isBlank ·), cs.dropWhile (!isBlank ·))

/-- The program and the arguments of a command line that is not empty. -/
def commandLineToArgv (commandLine : List Char) : List (List Char) :=
  (program commandLine).1 :: rest 0 0 false none (program commandLine).2

/-! ### Quotations -/

/-- The number of backslashes before the next character, with `n` before the text. -/
def slashesAfter (n : ℕ) (s : List Char) : ℕ := s.foldl (fun n c => if c = '\\' then n + 1 else 0) n

/-- The number of backslashes a text ends with. -/
def trailing (s : List Char) : ℕ := s.length - (s.rdropWhile (· = '\\')).length

theorem slashesAfter_zero (s : List Char) : slashesAfter 0 s = trailing s := by
  unfold slashesAfter trailing
  induction s using List.reverseRecOn with
  | nil => rfl
  | append_singleton s c ih =>
    have hle : (s.rdropWhile (· = '\\')).length ≤ s.length :=
      (List.rdropWhile_prefix _ s).length_le
    rw [List.foldl_append, List.foldl_cons, List.foldl_nil, List.length_append,
      List.length_singleton]
    split_ifs with hc
    · rw [List.rdropWhile_concat_pos _ _ _ (by simpa using hc), ih]
      omega
    · rw [List.rdropWhile_concat_neg _ _ _ (by simpa using hc), List.length_append,
        List.length_singleton]
      omega

theorem slashesAfter_replicate (n k : ℕ) : slashesAfter n (List.replicate k '\\') = n + k := by
  induction k generalizing n with
  | zero => rfl
  | succ k ih =>
    have := ih (n + 1)
    simp only [slashesAfter] at this
    simp only [slashesAfter, List.replicate_succ, List.foldl_cons, if_true, this]
    omega

/-- Inside a quotation, text without marks is read as it is. -/
theorem rest_text {s : List Char} (hs : '"' ∉ s) (slashes : ℕ) (text tail : List Char) :
    rest 1 slashes false (some text) (s ++ tail) =
      rest 1 (slashesAfter slashes s) false (some (text ++ s)) tail := by
  induction s generalizing slashes text with
  | nil => simp [slashesAfter]
  | cons c s ih =>
    have hc : c ≠ '"' := fun h => hs (by simp [h])
    have hrest : '"' ∉ s := fun h => hs (by simp [h])
    rw [List.cons_append, rest]
    simp only [Bool.false_eq_true, false_and, if_false, Nat.one_ne_zero, and_false,
      Option.getD_some, if_neg hc]
    split_ifs with hslash
    · rw [ih hrest, slashesAfter, slashesAfter, List.foldl_cons, if_pos hslash]
      simp
    · rw [ih hrest, slashesAfter, slashesAfter, List.foldl_cons, if_neg hslash]
      simp

/-- After the mark that ends a quotation, the argument ends at a blank. -/
theorem rest_end (arg : List Char) {tail : List Char} (htail : ∀ c ∈ tail.head?, c = ' ') :
    rest 2 0 true (some arg) tail = arg :: rest 0 0 false none tail := by
  cases tail with
  | nil => rfl
  | cons c tail =>
    obtain rfl : c = ' ' := htail c rfl
    simp [rest, isBlank]

/-- A mark after an even number of backslashes ends the quotation and takes half of them away. -/
theorem rest_close (arg : List Char) (n : ℕ) (tail : List Char) :
    rest 1 (n + n) false (some (arg ++ List.replicate n '\\')) ('"' :: tail) =
      rest 2 0 true (some arg) tail := by
  have htake : (arg ++ List.replicate n '\\').length - (n + n) / 2 = arg.length := by
    rw [List.length_append, List.length_replicate]
    omega
  have heven : (n + n) % 2 = 0 := by omega
  rw [rest]
  simp only [Bool.false_eq_true, false_and, if_false, isBlank, Nat.one_ne_zero, and_false,
    Option.getD_some, Char.reduceEq, if_true, heven, htake, List.take_left']

/-- Blanks between arguments are skipped. -/
theorem rest_blank (tail : List Char) :
    rest 0 0 false none (' ' :: tail) = rest 0 0 false none tail := by
  simp [rest, isBlank]

/-- A quoted program ends at the next mark. -/
theorem program_quotation {s : List Char} (hs : '"' ∉ s) (tail : List Char) :
    program ('"' :: (s ++ '"' :: tail)) = (s, tail) := by
  have hall : ∀ c ∈ s, decide (c ≠ '"') = true := fun c hc =>
    decide_eq_true fun heq => hs (heq ▸ hc)
  rw [program, List.takeWhile_append_of_pos hall, List.dropWhile_append_of_pos hall]
  simp

theorem trailing_eq_zero {s : List Char} (h : s.getLast? ≠ some '\\') : trailing s = 0 := by
  rw [trailing, List.rdropWhile_eq_self_iff.2, Nat.sub_self]
  intro hs hlast
  rw [List.getLast?_eq_some_getLast hs] at h
  exact h (congrArg some (of_decide_eq_true hlast))

/-- **A quoted argument**: its marks are taken away, and so is the second half of the backslashes
before the last one. -/
theorem rest_quotation {s : List Char} (hs : '"' ∉ s) {tail : List Char}
    (htail : ∀ c ∈ tail.head?, c = ' ') :
    rest 0 0 false none ('"' :: (s ++ List.replicate (trailing s) '\\' ++ '"' :: tail)) =
      s :: rest 0 0 false none tail := by
  have hbegin : ∀ cs, rest 0 0 false none ('"' :: cs) = rest 1 0 true (some []) cs :=
    fun cs => by simp [rest, isBlank]
  rw [hbegin]
  cases s with
  | nil =>
    have hclose : rest 1 0 true (some []) ('"' :: tail) = rest 2 0 true (some []) tail := by
      simp [rest]
    exact hclose.trans (rest_end [] htail)
  | cons c s =>
    have hc : c ≠ '"' := fun h => hs (by simp [h])
    have hrun : ∀ cs, rest 1 0 true (some []) (c :: cs) = rest 1 0 false (some []) (c :: cs) :=
      fun cs => by simp [rest, hc]
    have hmarks : '"' ∉ (c :: s) ++ List.replicate (trailing (c :: s)) '\\' := by
      rw [List.mem_append, not_or]
      exact ⟨hs, fun h => absurd (List.eq_of_mem_replicate h) (by decide)⟩
    have hslashes : slashesAfter 0 ((c :: s) ++ List.replicate (trailing (c :: s)) '\\') =
        trailing (c :: s) + trailing (c :: s) := by
      rw [slashesAfter, List.foldl_append]
      exact (slashesAfter_replicate _ _).trans (by rw [← slashesAfter_zero]; rfl)
    calc rest 1 0 true (some []) ((c :: s) ++ List.replicate (trailing (c :: s)) '\\' ++ '"' :: tail)
        = rest 1 0 false (some []) ((c :: s) ++ List.replicate (trailing (c :: s)) '\\' ++
            '"' :: tail) := hrun _
      _ = rest 2 0 true (some (c :: s)) tail := by
        rw [rest_text hmarks, hslashes, List.nil_append, rest_close]
      _ = (c :: s) :: rest 0 0 false none tail := rest_end _ htail

end Argv
