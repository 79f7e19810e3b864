import Tailcat.Lib.Argv
import Tailcat.Lib.Shell

/-!
# The `ProxyCommand` of SSH

The `ssh` command hands OpenSSH a `ProxyCommand` that runs this program again.  OpenSSH replaces the
percent sequences in it and gives the result to the user's shell; on Windows the program splits its
command line itself.  Both joins quote every argument.

* `proxyCommandJoinUnix_fields` : on Unix the shell finds the arguments.
* `proxyCommandJoinWindows_argv` : on Windows the program finds them, if the first one does not end in
  a backslash.
* `sshProxyCommand_runs` : so the command runs this program with the arguments meant for it.
-/

namespace Tailcat.Cli

/-- `str::replace` of a character. -/
def replaceChar (c : Char) (new s : List Char) : List Char :=
  s.flatMap fun d => if d = c then new else [d]

/-- `slice::join` with a space. -/
def joinSpaces : List (List Char) → List Char
  | [] => []
  | [arg] => arg
  | arg :: args => arg ++ ' ' :: joinSpaces args

/-! ### Quoting -/

/-- The characters no argument may have on Unix. -/
def unsafeUnix : List Char := ['\r', '\n', '\x00']

/-- An argument in single quotes, its percent signs doubled. -/
def quoteUnix (arg : List Char) : Except String (List Char) :=
  if arg.any (· ∈ unsafeUnix) then .error "ProxyCommand argument contains a control character"
  else .ok ('\'' :: replaceChar '\'' "'\"'\"'".toList (replaceChar '%' "%%".toList arg) ++ ['\''])

def proxyCommandJoinUnix (args : List (List Char)) : Except String (List Char) :=
  (args.mapM quoteUnix).map joinSpaces

/-- The characters no argument may have on Windows. -/
def unsafeWindows : List Char := ['"', '%', '!', '\r', '\n', '\x00']

/-- An argument in double quotes, the backslashes at its end doubled. -/
def quoteWindows (arg : List Char) : Except String (List Char) :=
  if arg.any (· ∈ unsafeWindows) then
    .error "ProxyCommand argument contains a character unsafe for cmd.exe"
  else
    let trimmed := arg.rdropWhile (· = '\\')
    .ok ('"' :: (arg ++ List.replicate (arg.length - trimmed.length) '\\') ++ ['"'])

def proxyCommandJoinWindows (args : List (List Char)) : Except String (List Char) :=
  (args.mapM quoteWindows).map joinSpaces

/-- The map of relays that needs no option. -/
def defaultDerpMapUrl : List Char := "https://tailcat.dev/derpmap.json".toList

/-- The arguments of the command. -/
def proxyArgs (exe key url addr port : List Char) : List (List Char) :=
  [exe] ++ (if key ≠ [] then ["--key=".toList ++ key] else []) ++
    (if url ≠ defaultDerpMapUrl then ["--derpmap-url=".toList ++ url] else []) ++ [addr, port]

/-- The command that connects to a port of a server. -/
def sshProxyCommand (windows : Bool) (exe key url addr port : List Char) :
    Except String (List Char) :=
  let args := proxyArgs exe key url addr port
  if windows then proxyCommandJoinWindows args else proxyCommandJoinUnix args

/-! ### What OpenSSH does -/

/-- `percent_expand` of OpenSSH: two percent signs are one, and a percent sign with another character
is replaced by what it stands for; anything else is a fatal error. -/
def percentExpand (keys : Char → Option (List Char)) : List Char → Option (List Char)
  | [] => some []
  | ['%'] => none
  | '%' :: '%' :: cs => (percentExpand keys cs).map ('%' :: ·)
  | '%' :: c :: cs => do
    let value ← keys c
    let rest ← percentExpand keys cs
    return value ++ rest
  | c :: cs => (percentExpand keys cs).map (c :: ·)

variable {keys : Char → Option (List Char)}

theorem percentExpand_cons {c : Char} (h : c ≠ '%') (cs : List Char) :
    percentExpand keys (c :: cs) = (percentExpand keys cs).map (c :: ·) := by
  rw [percentExpand] <;> simp [h]

/-- The percent signs doubled, and the single quotes taken out of the quotation. -/
def escapeUnix (arg : List Char) : List Char :=
  replaceChar '\'' "'\"'\"'".toList (replaceChar '%' "%%".toList arg)

theorem escapeUnix_cons (c : Char) (arg : List Char) :
    escapeUnix (c :: arg) =
      (if c = '%' then ['%', '%'] else if c = '\'' then ['\'', '"', '\'', '"', '\''] else [c]) ++
        escapeUnix arg := by
  unfold escapeUnix replaceChar
  rw [List.flatMap_cons, List.flatMap_append]
  split_ifs with hpercent hquote
  · rfl
  · subst hquote
    rfl
  · simp [hquote]

/-- Doubled percent signs become single ones again, and what is left is the argument quoted. -/
theorem percentExpand_escapeUnix (arg rest : List Char) :
    percentExpand keys ('\'' :: escapeUnix arg ++ ['\''] ++ rest) =
      (percentExpand keys rest).map (Shell.quote arg ++ ·) := by
  have hinside : ∀ tail, percentExpand keys (escapeUnix arg ++ tail) = (percentExpand keys tail).map
      ((arg.flatMap fun c => if c = '\'' then ['\'', '"', '\'', '"', '\''] else [c]) ++ ·) := by
    intro tail
    induction arg with
    | nil => simp [escapeUnix, replaceChar]
    | cons c arg ih =>
      rw [escapeUnix_cons, List.flatMap_cons]
      by_cases hpercent : c = '%'
      · subst hpercent
        simp [percentExpand, ih, Function.comp_def]
      · by_cases hquote : c = '\''
        · subst hquote
          simp [percentExpand_cons, ih, Function.comp_def]
        · simp [hpercent, hquote, percentExpand_cons hpercent, ih, Function.comp_def]
  simp [percentExpand_cons, hinside, Shell.quote, Function.comp_def]

/-! ### Joining -/

/-- A list of arguments each of which is quoted unless it is bad. -/
theorem mapM_guard {g : List Char → Except String (List Char)} {bad : List Char → Bool}
    {err : String} {f : List Char → List Char}
    (h : ∀ arg, g arg = if bad arg then .error err else .ok (f arg)) (args : List (List Char)) :
    args.mapM g = if args.any bad then .error err else .ok (args.map f) := by
  induction args with
  | nil => rfl
  | cons arg args ih =>
    rw [List.mapM_cons, ih, List.any_cons, h]
    cases bad arg
    · cases args.any bad <;> rfl
    · rfl

theorem joinSpaces_map (f : List Char → List Char) (arg arg' : List Char) (args : List (List Char)) :
    joinSpaces ((arg :: arg' :: args).map f) =
      f arg ++ ' ' :: joinSpaces ((arg' :: args).map f) := rfl

theorem percentExpand_join (args : List (List Char)) :
    percentExpand keys (joinSpaces (args.map fun arg => '\'' :: escapeUnix arg ++ ['\''])) =
      some (joinSpaces (args.map Shell.quote)) := by
  induction args with
  | nil => rfl
  | cons arg args ih =>
    cases args with
    | nil =>
      have h : percentExpand keys ('\'' :: escapeUnix arg ++ ['\''] ++ []) = _ :=
        percentExpand_escapeUnix arg []
      simpa [joinSpaces, percentExpand] using h
    | cons arg' args =>
      rw [joinSpaces_map, percentExpand_escapeUnix, percentExpand_cons (by decide), ih,
        joinSpaces_map]
      rfl

theorem lex_join (args : List (List Char)) :
    Shell.lex .none none (joinSpaces (args.map Shell.quote)) = some (args.map Shell.quoted) := by
  induction args with
  | nil => rfl
  | cons arg args ih =>
    cases args with
    | nil =>
      have h := Shell.lex_quote arg none []
      simpa [joinSpaces, Shell.lex] using h
    | cons arg' args =>
      rw [joinSpaces_map, Shell.lex_quote, Shell.lex_blank, ih]
      rfl

theorem proxyCommandJoinUnix_eq (args : List (List Char)) :
    proxyCommandJoinUnix args =
      if args.any (·.any (· ∈ unsafeUnix)) then
        .error "ProxyCommand argument contains a control character"
      else .ok (joinSpaces (args.map fun arg => '\'' :: escapeUnix arg ++ ['\''])) := by
  unfold proxyCommandJoinUnix
  rw [mapM_guard (g := quoteUnix) (f := fun arg => '\'' :: escapeUnix arg ++ ['\''])
    fun _ => rfl]
  split_ifs <;> rfl

/-- The shell finds the arguments. -/
theorem fields_of_joinUnix {args : List (List Char)} {command : List Char}
    (h : proxyCommandJoinUnix args = .ok command) :
    (percentExpand keys command).bind Shell.fields = some args := by
  rw [proxyCommandJoinUnix_eq] at h
  split_ifs at h
  cases h
  rw [percentExpand_join]
  exact Shell.fields_of_quoted (lex_join args)

/-- **On Unix** a list of arguments is refused if and only if one of them has a carriage return, a
line feed or a NUL; otherwise OpenSSH makes of the result, whatever its other percent sequences stand
for, a command whose words are the arguments, and in which the shell expands, substitutes and
executes nothing. -/
theorem proxyCommandJoinUnix_fields (args : List (List Char)) :
    ((∃ err, proxyCommandJoinUnix args = .error err) ↔
      ∃ arg ∈ args, '\r' ∈ arg ∨ '\n' ∈ arg ∨ '\x00' ∈ arg) ∧
    ∀ command, proxyCommandJoinUnix args = .ok command →
      ∀ keys, (percentExpand keys command).bind Shell.fields = some args := by
  have hbad : args.any (·.any (· ∈ unsafeUnix)) = true ↔
      ∃ arg ∈ args, '\r' ∈ arg ∨ '\n' ∈ arg ∨ '\x00' ∈ arg := by
    simp only [List.any_eq_true, decide_eq_true_eq]
    refine exists_congr fun arg => and_congr_right fun _ => ?_
    simp [unsafeUnix, and_or_left, exists_or]
  refine ⟨?_, fun command hcommand keys => fields_of_joinUnix hcommand⟩
  rw [proxyCommandJoinUnix_eq]
  split_ifs with h
  · exact iff_of_true ⟨_, rfl⟩ (hbad.1 h)
  · exact iff_of_false nofun fun hex => h (hbad.2 hex)

/-- Arguments with percent signs, quotes, expansions and nothing at all. -/
theorem proxyCommandJoinUnix_fields_sample :
    let args := ["100%".toList, "it's \"$HOME\"".toList, []]
    let command := "'100%%' 'it'\"'\"'s \"$HOME\"' ''".toList
    (percentExpand (fun _ => none) command).bind Shell.fields = some args :=
  (proxyCommandJoinUnix_fields _).2 _ (by decide +kernel) _

theorem rest_join {args : List (List Char)} (h : ∀ arg ∈ args, '"' ∉ arg) :
    Argv.rest 0 0 false none (joinSpaces (args.map fun arg =>
      '"' :: (arg ++ List.replicate (Argv.trailing arg) '\\') ++ ['"'])) = args := by
  induction args with
  | nil => rfl
  | cons arg args ih =>
    have harg := h arg (by simp)
    cases args with
    | nil =>
      rw [List.map_singleton, joinSpaces]
      have hend : ∀ c ∈ ([] : List Char).head?, c = ' ' := nofun
      exact (Argv.rest_quotation harg hend).trans rfl
    | cons arg' args =>
      rw [joinSpaces_map, List.append_assoc, List.cons_append]
      refine (Argv.rest_quotation harg ?_).trans (congrArg (arg :: ·) ?_)
      · rintro c ⟨⟩
        rfl
      · exact (Argv.rest_blank _).trans (ih fun x hx => h x (by simp [hx]))

theorem proxyCommandJoinWindows_eq (args : List (List Char)) :
    proxyCommandJoinWindows args =
      if args.any (·.any (· ∈ unsafeWindows)) then
        .error "ProxyCommand argument contains a character unsafe for cmd.exe"
      else .ok (joinSpaces (args.map fun arg =>
        '"' :: (arg ++ List.replicate (Argv.trailing arg) '\\') ++ ['"'])) := by
  unfold proxyCommandJoinWindows
  rw [mapM_guard (g := quoteWindows)
    (f := fun arg => '"' :: (arg ++ List.replicate (Argv.trailing arg) '\\') ++ ['"'])
    fun _ => rfl]
  split_ifs <;> rfl

/-- The program finds its arguments. -/
theorem argv_of_joinWindows {program : List Char} {args : List (List Char)} {command : List Char}
    (h : proxyCommandJoinWindows (program :: args) = .ok command)
    (hprogram : program.getLast? ≠ some '\\') :
    Argv.commandLineToArgv command = program :: args := by
  rw [proxyCommandJoinWindows_eq] at h
  split_ifs at h with hbad
  cases h
  have hmarks : ∀ arg ∈ program :: args, '"' ∉ arg := by
    intro arg harg hmark
    exact hbad (List.any_eq_true.2 ⟨arg, harg, List.any_eq_true.2 ⟨_, hmark, by decide⟩⟩)
  -- nothing is doubled at the end of the program, where the marks are found without the backslashes
  have hfirst : '"' :: (program ++ List.replicate (Argv.trailing program) '\\') ++ ['"'] =
      '"' :: (program ++ ['"']) := by
    rw [Argv.trailing_eq_zero hprogram, List.replicate_zero, List.append_nil, List.cons_append]
  unfold Argv.commandLineToArgv
  cases args with
  | nil =>
    rw [List.map_singleton, joinSpaces, hfirst, Argv.program_quotation (hmarks program (by simp))]
    rfl
  | cons arg args =>
    rw [joinSpaces_map, hfirst, List.cons_append, List.append_assoc, List.singleton_append,
      Argv.program_quotation (hmarks program (by simp))]
    exact congrArg (program :: ·)
      ((Argv.rest_blank _).trans (rest_join fun x hx => hmarks x (by simp [hx])))

/-- **On Windows** the command line a list of arguments is joined to is split into these arguments,
if the first one does not end in a backslash. -/
theorem proxyCommandJoinWindows_argv (program : List Char) (args : List (List Char))
    (command : List Char) (h : proxyCommandJoinWindows (program :: args) = .ok command)
    (hprogram : program.getLast? ≠ some '\\') :
    Argv.commandLineToArgv command = program :: args :=
  argv_of_joinWindows h hprogram

/-- Backslashes inside an argument, at the end of one and in front of a blank, and no text at all. -/
theorem proxyCommandJoinWindows_argv_sample :
    Argv.commandLineToArgv "\"C:\\t.exe\" \"a\\b\\\\\" \"\\ c\" \"\"".toList =
      ["C:\\t.exe", "a\\b\\", "\\ c", ""].map String.toList :=
  proxyCommandJoinWindows_argv _ _ _ (by decide +kernel) (by decide +kernel)

/-- The command runs this program with the key, the map, the address and the port it was made for. -/
theorem sshProxyCommand_runs {exe key url addr port command : List Char} :
    (sshProxyCommand false exe key url addr port = .ok command →
      (percentExpand keys command).bind Shell.fields = some (proxyArgs exe key url addr port)) ∧
    (sshProxyCommand true exe key url addr port = .ok command → exe.getLast? ≠ some '\\' →
      Argv.commandLineToArgv command = proxyArgs exe key url addr port) :=
  ⟨fields_of_joinUnix, argv_of_joinWindows⟩

end Tailcat.Cli
