import Mathlib.Data.List.Basic

/-!
# Words of a shell command

The token recognition and the quoting rules of the POSIX shell, for one simple command.  `lex` splits
a command into words and keeps for each character whether it is quoted; `fields` gives the words of a
command in which the shell expands, substitutes and executes nothing.

`lex_quote` reads a text that was quoted, and `fields_of_quoted` says that words whose characters are
all quoted stand for themselves.
-/

namespace Shell

/-- A character of a word. -/
structure Cell where
  char : Char
  quoted : Bool
  deriving DecidableEq

/-- A word. -/
abbrev Word := List Cell

/-- A quotation that has begun. -/
inductive Quotation
  | none | single | double
  deriving DecidableEq

/-- The blanks that separate words. -/
def isBlank (c : Char) : Bool := c = ' ' || c = '\t'

/-- Add a character to a word, which may begin with it. -/
def push (word : Option Word) (char : Char) (quoted : Bool) : Option Word :=
  some (word.getD [] ++ [⟨char, quoted⟩])

/-- The words of a command; an error if a quotation does not end or contains an expansion. -/
def lex : Quotation → Option Word → List Char → Option (List Word)
  | .none, word, [] => some word.toList
  | _, _, [] => none
  | .none, word, c :: cs =>
    if c = '\'' then lex .single (some (word.getD [])) cs
    else if c = '"' then lex .double (some (word.getD [])) cs
    else if c = '\\' then
      match cs with
      | [] => none
      | d :: cs => if d = '\n' then lex .none word cs else lex .none (push word d true) cs
    else if isBlank c then (lex .none none cs).map (word.toList ++ ·)
    else lex .none (push word c false) cs
  | .single, word, c :: cs =>
    if c = '\'' then lex .none word cs else lex .single (push word c true) cs
  | .double, word, c :: cs =>
    if c = '"' then lex .none word cs
    else if c = '$' ∨ c = '`' then none
    else if c = '\\' then
      match cs with
      | [] => none
      | d :: cs =>
        if d = '\n' then lex .double word cs
        else if d = '$' ∨ d = '`' ∨ d = '"' ∨ d = '\\' then lex .double (push word d true) cs
        else lex .double (push (push word c true) d true) cs
    else lex .double (push word c true) cs

/-- The characters that do more than stand for themselves when they are not quoted: those of
operators, expansions, patterns, comments, assignments and reserved words. -/
def active : List Char :=
  ['|', '&', ';', '<', '>', '(', ')', '\n', '$', '`', '*', '?', '[', ']', '#', '~', '=', '%', '!',
    '{', '}']

/-- The reserved words that are not made of active characters. -/
def reserved : List (List Char) :=
  ["case", "do", "done", "elif", "else", "esac", "fi", "for", "if", "in", "then", "until",
    "while"].map String.toList

/-- Nothing happens to a word. -/
def Inert (w : Word) : Prop := ∀ c ∈ w, c.quoted = false → c.char ∉ active

instance (w : Word) : Decidable (Inert w) := inferInstanceAs (Decidable (∀ c ∈ w, _))

/-- The text of a word. -/
def text (w : Word) : List Char := w.map (·.char)

/-- The word may stand first: no reserved word that is not quoted. -/
def MayBegin (w : Word) : Prop := text w ∈ reserved → ∃ c ∈ w, c.quoted = true

instance (w : Word) : Decidable (MayBegin w) := inferInstanceAs (Decidable (_ → ∃ c ∈ w, _))

/-- The words of a command in which nothing is expanded, substituted or executed. -/
def fields (command : List Char) : Option (List (List Char)) := do
  let words ← lex .none none command
  if (∀ w ∈ words, Inert w) ∧ ∀ w ∈ words.head?, MayBegin w then some (words.map text) else none

/-! ### Quoted texts -/

/-- A text all of whose characters are quoted. -/
def quoted (s : List Char) : Word := s.map fun c => ⟨c, true⟩

@[simp] theorem text_quoted (s : List Char) : text (quoted s) = s := by
  simp [text, quoted, Function.comp_def]

theorem inert_quoted (s : List Char) : Inert (quoted s) := by
  intro c hc hquoted
  obtain ⟨d, -, rfl⟩ := List.mem_map.1 hc
  cases hquoted

theorem mayBegin_quoted (s : List Char) : MayBegin (quoted s) := by
  intro hreserved
  rw [text_quoted] at hreserved
  cases s with
  | nil => exact absurd hreserved (by decide)
  | cons c s => exact ⟨⟨c, true⟩, by simp [quoted], rfl⟩

/-- Words whose characters are all quoted stand for themselves. -/
theorem fields_of_quoted {command : List Char} {args : List (List Char)}
    (h : lex .none none command = some (args.map quoted)) : fields command = some args := by
  unfold fields
  rw [h, Option.bind_eq_bind, Option.bind_some, if_pos]
  · simp [Function.comp_def]
  · constructor
    · intro w hw
      obtain ⟨s, -, rfl⟩ := List.mem_map.1 hw
      exact inert_quoted s
    · intro w hw
      obtain ⟨s, -, rfl⟩ := List.mem_map.1 (List.mem_of_mem_head? hw)
      exact mayBegin_quoted s

/-- A text in single quotes, the single quotes in it between double quotes. -/
def quote (s : List Char) : List Char :=
  '\'' :: (s.flatMap fun c => if c = '\'' then ['\'', '"', '\'', '"', '\''] else [c]) ++ ['\'']

theorem lex_open (word : Option Word) (cs : List Char) :
    lex .none word ('\'' :: cs) = lex .single (some (word.getD [])) cs := by
  rw [lex.eq_def]
  simp

/-- A blank ends a word. -/
theorem lex_blank (word : Option Word) (cs : List Char) :
    lex .none word (' ' :: cs) = (lex .none none cs).map (word.toList ++ ·) := by
  rw [lex.eq_def]
  simp [isBlank]

/-- A text that was quoted is part of a word, with all its characters quoted. -/
theorem lex_quote (s : List Char) (word : Option Word) (rest : List Char) :
    lex .none word (quote s ++ rest) = lex .none (some (word.getD [] ++ quoted s)) rest := by
  have hinside : ∀ w : Word, lex .single (some w)
      ((s.flatMap fun c => if c = '\'' then ['\'', '"', '\'', '"', '\''] else [c]) ++ '\'' :: rest) =
        lex .none (some (w ++ quoted s)) rest := by
    induction s with
    | nil => simp [lex, quoted]
    | cons c s ih =>
      intro w
      by_cases hc : c = '\''
      · subst hc
        -- out of the single quotes, through the double ones and back
        simp [lex, lex_open, push, ih, quoted]
      · simp [hc, lex, push, ih, quoted]
  simp only [quote, List.cons_append, List.append_assoc, List.nil_append, lex_open, hinside]

end Shell
