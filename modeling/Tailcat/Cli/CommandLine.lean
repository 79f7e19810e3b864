import Mathlib.Data.List.Basic
import Mathlib.Data.List.TakeWhile

/-!
# The command line

`parse` reads the arguments of the program.  Flags stand before the first positional argument or a
bare `--`, with the command word among them; what follows is left as it is.  A server takes a
command to execute from behind a `--`, which `parse` looks for a second time, in the arguments as
they were given.

Floating-point numbers are parsed by a parameter, `Environment`.

* `Divided` : how the arguments are divided into flags and the rest.
* `readArgs_of_divided`, `divided_of_readArgs` : the loop reads the arguments as they are divided.
* `parse_preserves_iff` : everything behind the flags is preserved, exactly unless a server's first
  `--` is the value of a flag and not the last argument.
-/

namespace Tailcat.Cli.CommandLine

/-- A time in nanoseconds. -/
abbrev Duration := ℕ

/-- Whole seconds. -/
def fromSecs (n : ℕ) : Duration := n * 1000000000

/-- The command words. -/
def commands : List String :=
  ["serve", "recv", "ping", "socks", "ssh", "cp", "ls", "forward", "parse", "resolve", "genkey",
    "printpub", "version", "readme", "browse", "perf"]

def defaultDerpMapUrl : String := "https://tailcat.dev/derpmap.json"

/-- What the command line says. -/
structure Args where
  command : String := ""
  positional : List String := []
  serve : String := ""
  key : String := ""
  verbose : Bool := false
  json : Bool := false
  derpMapUrl : String
  allow : String := ""
  fullAddress : Bool := false
  psk : Bool := true
  exec : List String := []
  openBrowser : Bool := false
  perfUdp : Bool := false
  reverse : Bool := false
  bidir : Bool := false
  viaDerp : Bool := false
  perfTime : Duration := fromSecs 10
  perfBytes : ℕ := 0
  parallel : ℕ := 1
  length : ℕ := 0
  bitrate : Option ℕ := none
  interval : Duration := fromSecs 1
  sshAuthorizedKeys : String := ""
  skipDnsSafetyCheck : Bool := false
  files : String := ""
  acceptDirs : Bool := false
  untilDirect : Bool := false
  timeout : Duration := fromSecs 10
  listen : String := "127.0.0.1:0"
  bind : String := "127.0.0.1"
  port : String := "22"
  recursive : Bool := false
  preserve : Bool := false
  long : Bool := false
  genkeyKey : String := ""
  client : Bool := false
  force : Bool := false
  delete : Bool := false
  list : Bool := false
  region : String := "auto"
  fixedRegion : Bool := false
  embedDerpMap : Bool := false
  /-- The flags that were given, as a set. -/
  explicit : List String := []
  help : Bool := false
  deriving DecidableEq

/-- What parsing needs from elsewhere. -/
structure Environment where
  /-- The variable `TAILCAT_DERPMAP_URL`. -/
  derpMapUrl : Option String
  /-- `parse_si`. -/
  parseSi : String → Except String ℕ
  /-- `parse_duration`. -/
  parseDuration : String → Except String Duration

/-- The arguments before any is read. -/
def Environment.default (env : Environment) : Args where
  derpMapUrl := (env.derpMapUrl.filter (· ≠ "")).getD defaultDerpMapUrl

/-! ### Flags -/

/-- The number of decimal digits, with what was read before them. -/
def usizeDigits (acc : ℕ) : List Char → Except String ℕ
  | [] => .ok acc
  | c :: cs =>
    if ¬c.isDigit then .error "invalid digit found in string"
    else if 2 ^ 64 ≤ acc * 10 + (c.toNat - 48) then
      .error "number too large to fit in target type"
    else usizeDigits (acc * 10 + (c.toNat - 48)) cs

/-- `usize::from_str`. -/
def parseUsize (value : String) : Except String ℕ :=
  match value.toList with
  | [] => .error "cannot parse integer from empty string"
  | ['+'] => .error "invalid digit found in string"
  | '+' :: cs => usizeDigits 0 cs
  | cs => usizeDigits 0 cs

/-- The commands that serve. -/
def isServer (command : String) : Bool := command = "serve" || command = "recv"

/-- A flag, for the commands it belongs to. -/
structure Flag where
  name : String
  scope : String → Bool
  /-- What a value of it changes. -/
  update : String → Except String (Args → Args)

/-- A flag for every command. -/
def always : String → Bool := fun _ => true

/-- A flag for one command. -/
def only (command : String) : String → Bool := fun c => c = command

/-- A value that is true or false. -/
def yes (set : Bool → Args → Args) : String → Except String (Args → Args) :=
  fun value => .ok (set (value = "true"))

/-- A value that is taken as it is. -/
def text (set : String → Args → Args) : String → Except String (Args → Args) :=
  fun value => .ok (set value)

/-- A value that has to be parsed. -/
def parsed {α : Type} (parse : String → Except String α) (set : α → Args → Args) :
    String → Except String (Args → Args) :=
  fun value => (parse value).map set

/-- `--bytes` -/
def parseBytes (env : Environment) (value : String) : Except String ℕ := do
  let bytes ← env.parseSi value
  if bytes = 0 then .error "--bytes must be positive" else .ok bytes

/-- The flags. -/
def flags (env : Environment) : List Flag := [
  ⟨"--psk", fun c => isServer c || c = "genkey", yes fun b out => { out with psk := b }⟩,
  ⟨"--ssh-authorized-keys", isServer, text fun s out => { out with sshAuthorizedKeys := s }⟩,
  ⟨"--skip-dns-safety-check", only "ssh", yes fun b out => { out with skipDnsSafetyCheck := b }⟩,
  ⟨"--open-browser", only "forward", yes fun b out => { out with openBrowser := b }⟩,
  ⟨"--udp", only "perf", yes fun b out => { out with perfUdp := b }⟩,
  ⟨"--reverse", only "perf", yes fun b out => { out with reverse := b }⟩,
  ⟨"--bidir", only "perf", yes fun b out => { out with bidir := b }⟩,
  ⟨"--via-derp", only "perf", yes fun b out => { out with viaDerp := b }⟩,
  ⟨"--time", only "perf", parsed env.parseDuration fun d out => { out with perfTime := d }⟩,
  ⟨"--bytes", only "perf", parsed (parseBytes env) fun n out => { out with perfBytes := n }⟩,
  ⟨"--parallel", only "perf", parsed parseUsize fun n out => { out with parallel := n }⟩,
  ⟨"--length", only "perf", parsed parseUsize fun n out => { out with length := n }⟩,
  ⟨"--bitrate", only "perf", parsed env.parseSi fun n out => { out with bitrate := some n }⟩,
  ⟨"--interval", only "perf", parsed env.parseDuration fun d out => { out with interval := d }⟩,
  ⟨"--serve", always, text fun s out => { out with serve := s }⟩,
  ⟨"--key", only "genkey", text fun s out => { out with genkeyKey := s }⟩,
  ⟨"--key", always, text fun s out => { out with key := s }⟩,
  ⟨"--verbose", always, yes fun b out => { out with verbose := b }⟩,
  ⟨"--json", always, yes fun b out => { out with json := b }⟩,
  ⟨"--derpmap-url", always, text fun s out => { out with derpMapUrl := s }⟩,
  ⟨"--allow", isServer, text fun s out => { out with allow := s }⟩,
  ⟨"--full-address", isServer, yes fun b out => { out with fullAddress := b }⟩,
  ⟨"--files", isServer, text fun s out => { out with files := s }⟩,
  ⟨"--accept-dirs", only "recv", yes fun b out => { out with acceptDirs := b }⟩,
  ⟨"--until-direct", only "ping", yes fun b out => { out with untilDirect := b }⟩,
  ⟨"--timeout", fun c => c = "ping" || c = "perf",
    parsed env.parseDuration fun d out => { out with timeout := d }⟩,
  ⟨"--listen", only "socks", text fun s out => { out with listen := s }⟩,
  ⟨"--bind", only "forward", text fun s out => { out with bind := s }⟩,
  ⟨"-p", only "ssh", text fun s out => { out with port := s }⟩,
  ⟨"-P", only "cp", text fun s out => { out with port := s }⟩,
  ⟨"-r", only "cp", yes fun b out => { out with recursive := b }⟩,
  ⟨"-p", only "cp", yes fun b out => { out with preserve := b }⟩,
  ⟨"-l", only "ls", yes fun b out => { out with long := b }⟩,
  ⟨"--client", only "genkey", yes fun b out => { out with client := b }⟩,
  ⟨"--force", only "genkey", yes fun b out => { out with force := b }⟩,
  ⟨"--delete", only "genkey", yes fun b out => { out with delete := b }⟩,
  ⟨"--list", only "genkey", yes fun b out => { out with list := b }⟩,
  ⟨"--region", only "genkey", text fun s out => { out with region := s }⟩,
  ⟨"--fixed-region", only "genkey", yes fun b out => { out with fixedRegion := b }⟩,
  ⟨"--embed-derp-map", only "genkey", yes fun b out => { out with embedDerpMap := b }⟩]

/-- What a flag with a value changes. -/
def updateFor (env : Environment) (command name value : String) :
    Except String (Args → Args) :=
  match (flags env).find? fun flag => flag.name = name && flag.scope command with
  | some flag => flag.update value
  | none => .error s!"unknown flag {name}"

/-- The flags that need no value. -/
def isBoolean (command name : String) : Bool :=
  name ∈ ["--verbose", "--json"] ||
  name ∈ ["--udp", "--reverse", "--bidir", "--via-derp"] && command = "perf" ||
  name = "--open-browser" && command = "forward" ||
  name = "--skip-dns-safety-check" && command = "ssh" ||
  name = "--full-address" && isServer command ||
  name = "--psk" && (isServer command || command = "genkey") ||
  name = "--accept-dirs" && command = "recv" ||
  name = "--until-direct" && command = "ping" ||
  name ∈ ["-r", "-p"] && command = "cp" ||
  name = "-l" && command = "ls" ||
  name ∈ ["--client", "--force", "--delete", "--list", "--fixed-region", "--embed-derp-map"] &&
    command = "genkey"

/-- `str::split_once` at an equals sign: what stands before it, and what behind it. -/
def splitOnce (arg : String) : String × Option String :=
  (String.ofList (arg.toList.takeWhile (· ≠ '=')),
    match arg.toList.dropWhile (· ≠ '=') with
    | [] => none
    | _ :: value => some (String.ofList value))

/-- The name of a flag. -/
def nameOf (arg : String) : String := (splitOnce arg).1

/-- The value that a flag has without the next argument. -/
def ownValue (command arg : String) : Except String (Option String) :=
  if isBoolean command (nameOf arg) then
    match (splitOnce arg).2 with
    | none | some "true" => .ok (some "true")
    | some "false" => .ok (some "false")
    | some _ => .error s!"invalid boolean value for {nameOf arg}"
  else .ok (splitOnce arg).2

/-- `str::trim_start_matches` of hyphens. -/
def trimHyphens (name : String) : String := String.ofList (name.toList.dropWhile (· = '-'))

/-! ### Parsing -/

/-- A failure of `parse`. -/
inductive Failure
  | error (text : String)
  /-- A subtraction of lengths overflows, which panics. -/
  | overflow
  deriving DecidableEq, Repr

/-- How the loop over the arguments ends. -/
inductive Loop
  /-- With all flags read. -/
  | done (out : Args)
  /-- With a request for help or the version. -/
  | early (out : Args)
  deriving DecidableEq

/-- What one argument leads to. -/
inductive Progress
  /-- Nothing more is read. -/
  | stop (result : Except String Loop)
  /-- The arguments behind it are read. -/
  | next (out : Args)
  /-- The next argument is the value of a flag. -/
  | wants (name : String)

/-- The argument has the form of a flag. -/
def isFlag (arg : String) : Bool := arg.toList.head? = some '-' && arg ≠ "-"

/-- The command is known. -/
def Args.withCommand (out : Args) (command : String) : Args := { out with command }

/-- The positional arguments are extended. -/
def Args.withPositional (out : Args) (words : List String) : Args :=
  { out with positional := out.positional ++ words }

/-- Help is requested. -/
def Args.withHelp (out : Args) : Args := { out with help := true }

/-- Note a flag. -/
def setFlag (update : Args → Args) (name : String) (out : Args) : Args :=
  let out := update out
  { out with explicit := out.explicit.insert (trimHyphens name) }

/-- Set the flag to a value. -/
def setValue (env : Environment) (out : Args) (name value : String) : Except String Args :=
  (updateFor env out.command name value).map fun update => setFlag update name out

/-- Behind a bare `--` stand positional arguments, a server's if there is no command word. -/
def readSeparator (out : Args) (rest : List String) : Args :=
  (if out.command = "" then out.withCommand "serve" else out).withPositional rest

/-- Read an argument that is no flag. -/
def readWord (out : Args) (arg : String) (rest : List String) : Progress :=
  if out.command = "" ∧ arg ∈ commands then .next (out.withCommand arg)
  else if out.command = "" ∧ arg = "help" then .stop (.ok (.early out.withHelp))
  else .stop (.ok (.done (out.withPositional (arg :: rest))))

/-- Read a flag. -/
def readFlag (env : Environment) (out : Args) (arg : String) : Progress :=
  match ownValue out.command arg with
  | .error e => .stop (.error e)
  | .ok none => .wants (nameOf arg)
  | .ok (some value) =>
    match setValue env out (nameOf arg) value with
    | .error e => .stop (.error e)
    | .ok out => .next out

/-- Read one argument, with the arguments behind it in view. -/
def readArg (env : Environment) (out : Args) (arg : String) (rest : List String) : Progress :=
  if arg = "--" then .stop (.ok (.done (readSeparator out rest)))
  else if arg = "--version" then .stop (.ok (.early (out.withCommand "version")))
  else if arg = "-h" ∨ arg = "--help" then .stop (.ok (.early out.withHelp))
  else if isFlag arg then readFlag env out arg
  else readWord out arg rest

/-- A flag that needs a value is the last argument. -/
def missingValue (out : Args) (name : String) : Except String Loop :=
  if name = "--serve" then .ok (.early (out.withCommand "serve").withHelp)
  else .error s!"missing value for {name}"

/-- Read the arguments from some point on. -/
def readArgs (env : Environment) (out : Args) : List String → Except String Loop
  | [] => .ok (.done out)
  | arg :: rest =>
    match readArg env out arg rest with
    | .stop result => result
    | .next out => readArgs env out rest
    | .wants name =>
      match rest with
      | [] => missingValue out name
      | value :: rest =>
        match setValue env out name value with
        | .error e => .error e
        | .ok out => readArgs env out rest

/-- Take the command to execute from behind the separator. -/
def splitExec (input : List String) (out : Args) : Except Failure Args :=
  if "--" ∈ input then
    let exec := input.drop (input.idxOf "--" + 1)
    if exec = [] then .error (.error "no command given after --")
    else if out.positional.length < exec.length then .error .overflow
    else
      let positional := out.positional.take (out.positional.length - exec.length)
      let positional :=
        if positional.getLast? = some "--" then positional.dropLast else positional
      .ok { out with exec, positional }
  else .ok out

/-- Parse the command line. -/
def parse (env : Environment) (input : List String) : Except Failure Args :=
  match readArgs env env.default input with
  | .error e => .error (.error e)
  | .ok (.early out) => .ok out
  | .ok (.done out) =>
    if out.command = "" ∧ out.serve = "" ∧ "--" ∈ out.positional then
      .error (.error "command after -- is only valid in server mode")
    else if out.command = "serve" ∨ out.serve ≠ "" then splitExec input out
    else .ok out

/-! ### Dividing the arguments -/

/-- What is read at once. -/
inductive Item
  /-- The command word. -/
  | command (word : String)
  /-- A flag with a value of its own. -/
  | flag (arg value : String)
  /-- A flag with the next argument for its value. -/
  | flagWith (arg value : String)

/-- The arguments of an item. -/
def Item.words : Item → List String
  | command word => [word]
  | flag arg _ => [arg]
  | flagWith arg value => [arg, value]

/-- The flag of an item is `--serve`, with a value. -/
def Item.serves : Item → Option String
  | command _ => none
  | flag arg value | flagWith arg value => if nameOf arg = "--serve" then some value else none

/-- What is left behind the flags. -/
inductive Tail
  | nothing
  /-- A bare `--` and what stands behind it. -/
  | separator (rest : List String)
  /-- The first positional argument and what stands behind it. -/
  | positional (word : String) (rest : List String)

namespace Tail

/-- The arguments of the tail. -/
def words : Tail → List String
  | nothing => []
  | separator rest => "--" :: rest
  | positional word rest => word :: rest

/-- The arguments that are preserved. -/
def args : Tail → List String
  | nothing => []
  | separator rest => rest
  | positional word rest => word :: rest

/-- The positional arguments of a server. -/
def served : Tail → List String
  | nothing | separator _ => []
  | positional word rest => (word :: rest).takeWhile (· ≠ "--")

/-- The command that a server executes. -/
def exec : Tail → List String
  | nothing => []
  | separator rest => rest
  | positional word rest => ((word :: rest).dropWhile (· ≠ "--")).tail

end Tail

/-- The argument is neither a separator nor a request for help or the version. -/
def isOrdinary (arg : String) : Bool := arg ∉ ["--", "--version", "-h", "--help"]

/-- The arguments are divided into flags, which belong to the command at their place and have valid
values, the command word, and the tail; the last argument is the command after them. -/
inductive Divided (env : Environment) :
    String → List String → List Item → Tail → String → Prop
  | nothing {c : String} : Divided env c [] [] .nothing c
  | separator {c : String} {rest : List String} :
      Divided env c ("--" :: rest) [] (.separator rest) (if c = "" then "serve" else c)
  | positional {c word : String} {rest : List String} (hordinary : isOrdinary word = true)
      (hflag : isFlag word = false) (hcommand : c = "" → word ∉ "help" :: commands) :
      Divided env c (word :: rest) [] (.positional word rest) c
  | command {word c : String} {rest : List String} {items : List Item} {tail : Tail}
      (hordinary : isOrdinary word = true) (hflag : isFlag word = false) (hword : word ∈ commands)
      (h : Divided env word rest items tail c) :
      Divided env "" (word :: rest) (.command word :: items) tail c
  | flag {c c' arg value : String} {update : Args → Args} {rest : List String} {items : List Item}
      {tail : Tail} (hordinary : isOrdinary arg = true) (hflag : isFlag arg = true)
      (hvalue : ownValue c arg = .ok (some value))
      (hupdate : updateFor env c (nameOf arg) value = .ok update)
      (h : Divided env c rest items tail c') :
      Divided env c (arg :: rest) (.flag arg value :: items) tail c'
  | flagWith {c c' arg value : String} {update : Args → Args} {rest : List String}
      {items : List Item} {tail : Tail} (hordinary : isOrdinary arg = true)
      (hflag : isFlag arg = true) (hvalue : ownValue c arg = .ok none)
      (hupdate : updateFor env c (nameOf arg) value = .ok update)
      (h : Divided env c rest items tail c') :
      Divided env c (arg :: value :: rest) (.flagWith arg value :: items) tail c'

/-- The value of the last `--serve`. -/
def serveOf (items : List Item) : String := (items.filterMap Item.serves).getLastD ""

/-- The arguments are a server's: the command is `serve`, or there is a `--serve` value. -/
def Serves (items : List Item) (command : String) : Prop := command = "serve" ∨ serveOf items ≠ ""

/-- The first `--` of a server is the value of a flag, and not the last argument. -/
def Shadowed (env : Environment) (input : List String) : Prop :=
  ∃ items tail command, Divided env "" input items tail command ∧ Serves items command ∧
    (∃ arg, .flagWith arg "--" ∈ items) ∧ input.idxOf "--" + 1 < input.length

/-- Everything behind the flags is in its place. -/
structure Preserves (items : List Item) (tail : Tail) (command : String) (out : Args) : Prop where
  server : Serves items command → out.positional = tail.served ∧ out.exec = tail.exec
  client : ¬Serves items command → out.positional = tail.args ∧ out.exec = []

/-- What the arguments are divided into is preserved, and the lengths of its parts can be
subtracted. -/
structure Partitions (env : Environment) (input : List String) : Prop where
  fits : parse env input ≠ .error .overflow
  /-- What is accepted, other than a request for help or the version, is divided. -/
  divided : ∀ out, parse env input = .ok out → out.help = false → out.command ≠ "version" →
    ∃ items tail command, Divided env "" input items tail command
  preserves : ∀ out, parse env input = .ok out → ∀ items tail command,
    Divided env "" input items tail command → Preserves items tail command out

/-! ### What flags change -/

/-- The parts of the command line that are not set by an ordinary flag. -/
def frame (out : Args) : String × List String × List String × Bool :=
  (out.command, out.positional, out.exec, out.help)

/-- The flag sets the services if it is `--serve`, and leaves the frame alone. -/
def Flag.Keeps (flag : Flag) : Prop :=
  ∀ value update, flag.update value = .ok update → ∀ out,
    frame (update out) = frame out ∧
      (update out).serve = if flag.name = "--serve" then value else out.serve

theorem keeps_yes {name : String} {scope : String → Bool} {set : Bool → Args → Args}
    (hname : name ≠ "--serve") (hframe : ∀ b out, frame (set b out) = frame out)
    (hserve : ∀ b out, (set b out).serve = out.serve) : Flag.Keeps ⟨name, scope, yes set⟩ := by
  intro value update h out
  cases h
  exact ⟨hframe _ out, (hserve _ out).trans (if_neg hname).symm⟩

theorem keeps_text {name : String} {scope : String → Bool} {set : String → Args → Args}
    (hname : name ≠ "--serve") (hframe : ∀ s out, frame (set s out) = frame out)
    (hserve : ∀ s out, (set s out).serve = out.serve) : Flag.Keeps ⟨name, scope, text set⟩ := by
  intro value update h out
  cases h
  exact ⟨hframe _ out, (hserve _ out).trans (if_neg hname).symm⟩

theorem keeps_parsed {α : Type} {name : String} {scope : String → Bool}
    {parse : String → Except String α} {set : α → Args → Args} (hname : name ≠ "--serve")
    (hframe : ∀ x out, frame (set x out) = frame out)
    (hserve : ∀ x out, (set x out).serve = out.serve) :
    Flag.Keeps ⟨name, scope, parsed parse set⟩ := by
  intro value update h out
  change (parse value).map set = .ok update at h
  cases hparse : parse value with
  | error e =>
    rw [hparse] at h
    cases h
  | ok x =>
    rw [hparse] at h
    cases h
    exact ⟨hframe x out, (hserve x out).trans (if_neg hname).symm⟩

theorem keeps_serve {scope : String → Bool} :
    Flag.Keeps ⟨"--serve", scope, text fun s out => { out with serve := s }⟩ := by
  intro value update h out
  cases h
  exact ⟨rfl, rfl⟩

theorem flags_keep (env : Environment) : ∀ flag ∈ flags env, flag.Keeps := by
  simp only [flags, List.forall_mem_cons, List.not_mem_nil, false_imp_iff, implies_true, and_true]
  and_intros
  all_goals
    first
    | exact keeps_serve
    | exact keeps_yes (by decide) (fun _ _ => rfl) (fun _ _ => rfl)
    | exact keeps_text (by decide) (fun _ _ => rfl) (fun _ _ => rfl)
    | exact keeps_parsed (by decide) (fun _ _ => rfl) (fun _ _ => rfl)

variable {env : Environment} {c name value : String} {update : Args → Args}

/-- What a flag that is set changes. -/
theorem setFlag_of_updateFor (h : updateFor env c name value = .ok update) (out : Args) :
    frame (setFlag update name out) = frame out ∧
      (setFlag update name out).serve = if name = "--serve" then value else out.serve := by
  unfold updateFor at h
  split at h
  · rename_i flag hfind
    have hname := List.find?_some hfind
    simp only [Bool.and_eq_true, decide_eq_true_eq] at hname
    have hkeeps := flags_keep env flag (List.mem_of_find?_eq_some hfind) value update h out
    rw [hname.1] at hkeeps
    exact hkeeps
  · cases h

theorem command_setFlag {out : Args} (h : updateFor env out.command name value = .ok update) :
    (setFlag update name out).command = out.command :=
  congrArg Prod.fst (setFlag_of_updateFor h out).1

/-! ### The loop reads what is divided -/

/-- What the loop leaves behind. -/
structure Reads (items : List Item) (tail : Tail) (command : String) (out out' : Args) : Prop where
  frame : frame out' = (command, out.positional ++ tail.args, out.exec, out.help)
  serve : out'.serve = ((items.filterMap Item.serves).getLast?).getD out.serve

theorem getLast?_cons_getD {α : Type} (x : Option α) (l : List α) (d : α) :
    ((x.toList ++ l).getLast?).getD d = (l.getLast?).getD (x.getD d) := by
  cases x with
  | none => rfl
  | some x =>
    cases l with
    | nil => rfl
    | cons y l => simp [List.getLast?_cons]

theorem filterMap_serves (item : Item) (items : List Item) :
    (item :: items).filterMap Item.serves = item.serves.toList ++ items.filterMap Item.serves := by
  rw [List.filterMap_cons]
  cases item.serves <;> rfl

/-- An item that leaves the frame alone is read before the others. -/
theorem Reads.cons {item : Item} {items : List Item} {tail : Tail} {command : String}
    {out mid out' : Args} (hframe : CommandLine.frame mid = CommandLine.frame out)
    (hserve : mid.serve = item.serves.getD out.serve) (h : Reads items tail command mid out') :
    Reads (item :: items) tail command out out' := by
  simp only [CommandLine.frame, Prod.mk.injEq] at hframe
  refine ⟨?_, ?_⟩
  · rw [h.frame, hframe.2.1, hframe.2.2.1, hframe.2.2.2]
  · rw [h.serve, hserve, filterMap_serves, getLast?_cons_getD]

theorem isOrdinary_iff {arg : String} : isOrdinary arg = true ↔
    arg ≠ "--" ∧ arg ≠ "--version" ∧ arg ≠ "-h" ∧ arg ≠ "--help" := by
  simp [isOrdinary]

theorem serves_flag (arg value d : String) : (Item.flag arg value).serves.getD d =
    if nameOf arg = "--serve" then value else d := by
  show (if nameOf arg = "--serve" then some value else none).getD d = _
  split_ifs <;> rfl

theorem serves_flagWith (arg value d : String) : (Item.flagWith arg value).serves.getD d =
    if nameOf arg = "--serve" then value else d := serves_flag arg value d

section ReadArgs

variable {out : Args} {arg : String} {rest : List String}

theorem setValue_of_updateFor (hupdate : updateFor env out.command name value = .ok update) :
    setValue env out name value = .ok (setFlag update name out) := by
  rw [setValue, hupdate]
  rfl

theorem readArg_ordinary (hordinary : isOrdinary arg = true) : readArg env out arg rest =
    if isFlag arg then readFlag env out arg else readWord out arg rest := by
  obtain ⟨h1, h2, h3, h4⟩ := isOrdinary_iff.1 hordinary
  rw [readArg, if_neg h1, if_neg h2, if_neg (not_or.2 ⟨h3, h4⟩)]

theorem readArgs_word (hordinary : isOrdinary arg = true) (hflag : isFlag arg = false) :
    readArgs env out (arg :: rest) =
      if out.command = "" ∧ arg ∈ commands then readArgs env (out.withCommand arg) rest
      else if out.command = "" ∧ arg = "help" then .ok (.early out.withHelp)
      else .ok (.done (out.withPositional (arg :: rest))) := by
  rw [readArgs, readArg_ordinary hordinary, hflag, if_neg (by decide), readWord]
  split_ifs <;> rfl

theorem readFlag_own (hvalue : ownValue out.command arg = .ok (some value))
    (hupdate : updateFor env out.command (nameOf arg) value = .ok update) :
    readFlag env out arg = .next (setFlag update (nameOf arg) out) := by
  unfold readFlag
  simp only [hvalue, setValue_of_updateFor hupdate]

theorem readFlag_none (hvalue : ownValue out.command arg = .ok none) :
    readFlag env out arg = .wants (nameOf arg) := by
  unfold readFlag
  simp only [hvalue]

theorem readArgs_flag (hordinary : isOrdinary arg = true) (hflag : isFlag arg = true)
    (hvalue : ownValue out.command arg = .ok (some value))
    (hupdate : updateFor env out.command (nameOf arg) value = .ok update) :
    readArgs env out (arg :: rest) = readArgs env (setFlag update (nameOf arg) out) rest := by
  have hread : readArg env out arg rest = .next (setFlag update (nameOf arg) out) := by
    rw [readArg_ordinary hordinary, if_pos hflag, readFlag_own hvalue hupdate]
  simp only [readArgs, hread]

theorem readArgs_flagWith (hordinary : isOrdinary arg = true) (hflag : isFlag arg = true)
    (hvalue : ownValue out.command arg = .ok none)
    (hupdate : updateFor env out.command (nameOf arg) value = .ok update) :
    readArgs env out (arg :: value :: rest) =
      readArgs env (setFlag update (nameOf arg) out) rest := by
  have hread : readArg env out arg (value :: rest) = .wants (nameOf arg) := by
    rw [readArg_ordinary hordinary, if_pos hflag, readFlag_none hvalue]
  simp only [readArgs, hread, setValue_of_updateFor hupdate]

/-- A value that is set has a flag. -/
theorem exists_updateFor {out' : Args} (h : setValue env out name value = .ok out') :
    ∃ update, updateFor env out.command name value = .ok update ∧
      out' = setFlag update name out := by
  unfold setValue at h
  cases hupdate : updateFor env out.command name value with
  | error e =>
    rw [hupdate] at h
    cases h
  | ok update =>
    rw [hupdate] at h
    cases h
    exact ⟨update, rfl, rfl⟩

/-- How one argument is read. -/
inductive ReadsArg (env : Environment) (out : Args) (arg : String) : Progress → Prop
  | separator (h : arg = "--") {rest : List String} :
      ReadsArg env out arg (.stop (.ok (.done (readSeparator out rest))))
  | early {out' : Args} (h : out'.help = true ∨ out'.command = "version") :
      ReadsArg env out arg (.stop (.ok (.early out')))
  | error {e : String} : ReadsArg env out arg (.stop (.error e))
  | command (hordinary : isOrdinary arg = true) (hflag : isFlag arg = false)
      (hnone : out.command = "") (hword : arg ∈ commands) :
      ReadsArg env out arg (.next (out.withCommand arg))
  | positional (hordinary : isOrdinary arg = true) (hflag : isFlag arg = false)
      (hcommand : out.command = "" → arg ∉ "help" :: commands) {words : List String} :
      ReadsArg env out arg (.stop (.ok (.done (out.withPositional words))))
  | flag {value : String} {update : Args → Args} (hordinary : isOrdinary arg = true)
      (hflag : isFlag arg = true) (hvalue : ownValue out.command arg = .ok (some value))
      (hupdate : updateFor env out.command (nameOf arg) value = .ok update) :
      ReadsArg env out arg (.next (setFlag update (nameOf arg) out))
  | wants (hordinary : isOrdinary arg = true) (hflag : isFlag arg = true)
      (hvalue : ownValue out.command arg = .ok none) : ReadsArg env out arg (.wants (nameOf arg))

theorem readWord_reads (hordinary : isOrdinary arg = true) (hflag : isFlag arg = false) :
    ReadsArg env out arg (readWord out arg rest) := by
  unfold readWord
  by_cases hword : out.command = "" ∧ arg ∈ commands
  · rw [if_pos hword]
    exact .command hordinary hflag hword.1 hword.2
  rw [if_neg hword]
  by_cases hhelp : out.command = "" ∧ arg = "help"
  · rw [if_pos hhelp]
    exact .early (.inl rfl)
  rw [if_neg hhelp]
  refine .positional hordinary hflag fun hnone hmem => ?_
  rcases List.mem_cons.1 hmem with h | h
  · exact hhelp ⟨hnone, h⟩
  · exact hword ⟨hnone, h⟩

theorem readFlag_reads (hordinary : isOrdinary arg = true) (hflag : isFlag arg = true) :
    ReadsArg env out arg (readFlag env out arg) := by
  cases hvalue : ownValue out.command arg with
  | error e =>
    unfold readFlag
    rw [hvalue]
    exact .error
  | ok value =>
    cases value with
    | none =>
      rw [readFlag_none hvalue]
      exact .wants hordinary hflag hvalue
    | some value =>
      cases hset : setValue env out (nameOf arg) value with
      | error e =>
        unfold readFlag
        rw [hvalue]
        dsimp only
        rw [hset]
        exact .error
      | ok out' =>
        obtain ⟨update, hupdate, -⟩ := exists_updateFor hset
        rw [readFlag_own hvalue hupdate]
        exact .flag hordinary hflag hvalue hupdate

theorem readArg_reads (env : Environment) (out : Args) (arg : String) (rest : List String) :
    ReadsArg env out arg (readArg env out arg rest) := by
  unfold readArg
  by_cases h1 : arg = "--"
  · rw [if_pos h1]
    exact .separator h1
  rw [if_neg h1]
  by_cases h2 : arg = "--version"
  · rw [if_pos h2]
    exact .early (.inr rfl)
  rw [if_neg h2]
  by_cases h3 : arg = "-h" ∨ arg = "--help"
  · rw [if_pos h3]
    exact .early (.inl rfl)
  rw [if_neg h3]
  obtain ⟨h4, h5⟩ := not_or.1 h3
  have hordinary : isOrdinary arg = true := isOrdinary_iff.2 ⟨h1, h2, h4, h5⟩
  by_cases hflag : isFlag arg = true
  · rw [if_pos hflag]
    exact readFlag_reads hordinary hflag
  · rw [if_neg hflag]
    exact readWord_reads hordinary (Bool.eq_false_iff.2 hflag)

end ReadArgs

/-- Arguments that are divided are read to their end. -/
theorem readArgs_of_divided {input : List String} {items : List Item} {tail : Tail}
    {command : String} (h : Divided env c input items tail command) {out : Args}
    (hc : out.command = c) :
    ∃ out', readArgs env out input = .ok (.done out') ∧ Reads items tail command out out' := by
  induction h generalizing out with
  | nothing => exact ⟨out, rfl, by rw [frame, hc, Tail.args, List.append_nil], rfl⟩
  | separator =>
    subst hc
    refine ⟨readSeparator out _, rfl, ?_, ?_⟩
    · rw [readSeparator]
      split_ifs <;> rfl
    · rw [readSeparator]
      split_ifs <;> rfl
  | positional hordinary hflag hcommand =>
    subst hc
    have hword := fun h0 => List.mem_cons.not.1 (hcommand h0)
    rw [readArgs_word hordinary hflag, if_neg (fun h => hword h.1 (.inr h.2)),
      if_neg (fun h => hword h.1 (.inl h.2))]
    exact ⟨_, rfl, rfl, rfl⟩
  | command hordinary hflag hword _ ih =>
    rw [readArgs_word hordinary hflag, if_pos ⟨hc, hword⟩]
    obtain ⟨out', hread, hreads⟩ := @ih (out.withCommand _) rfl
    exact ⟨out', hread, hreads.frame, hreads.serve⟩
  | flag hordinary hflag hvalue hupdate _ ih =>
    subst hc
    obtain ⟨hframe, hserve⟩ := setFlag_of_updateFor hupdate out
    obtain ⟨out', hread, hreads⟩ := ih (congrArg Prod.fst hframe)
    rw [readArgs_flag hordinary hflag hvalue hupdate]
    exact ⟨out', hread, hreads.cons hframe (hserve.trans (serves_flag _ _ _).symm)⟩
  | flagWith hordinary hflag hvalue hupdate _ ih =>
    subst hc
    obtain ⟨hframe, hserve⟩ := setFlag_of_updateFor hupdate out
    obtain ⟨out', hread, hreads⟩ := ih (congrArg Prod.fst hframe)
    rw [readArgs_flagWith hordinary hflag hvalue hupdate]
    exact ⟨out', hread, hreads.cons hframe (hserve.trans (serves_flagWith _ _ _).symm)⟩

/-- Arguments that are read to their end are divided. -/
theorem divided_of_readArgs {out' : Args} (input : List String) {out : Args}
    (h : readArgs env out input = .ok (.done out')) :
    ∃ items tail command, Divided env out.command input items tail command := by
  cases input with
  | nil => exact ⟨_, _, _, .nothing⟩
  | cons arg rest =>
    rw [readArgs] at h
    have hread := readArg_reads env out arg rest
    generalize readArg env out arg rest = progress at h hread
    cases hread with
    | separator harg =>
      subst harg
      exact ⟨_, _, _, .separator⟩
    | early => cases h
    | error => cases h
    | command hordinary hflag hnone hword =>
      obtain ⟨items, tail, command, hrest⟩ := divided_of_readArgs rest h
      rw [hnone]
      exact ⟨_, _, _, .command hordinary hflag hword hrest⟩
    | positional hordinary hflag hcommand =>
      exact ⟨_, _, _, .positional hordinary hflag hcommand⟩
    | flag hordinary hflag hvalue hupdate =>
      obtain ⟨items, tail, command, hrest⟩ := divided_of_readArgs rest h
      rw [command_setFlag hupdate] at hrest
      exact ⟨_, _, _, .flag hordinary hflag hvalue hupdate hrest⟩
    | wants hordinary hflag hvalue =>
      cases rest with
      | nil =>
        dsimp only [missingValue] at h
        split at h <;> cases h
      | cons value rest =>
        dsimp only at h
        cases hset : setValue env out (nameOf arg) value with
        | error e =>
          rw [hset] at h
          cases h
        | ok mid =>
          rw [hset] at h
          obtain ⟨update, hupdate, rfl⟩ := exists_updateFor hset
          obtain ⟨items, tail, command, hrest⟩ := divided_of_readArgs rest h
          rw [command_setFlag hupdate] at hrest
          exact ⟨_, _, _, .flagWith hordinary hflag hvalue hupdate hrest⟩

/-- Reading that ends early is a request for help or the version. -/
theorem early_of_readArgs {out' : Args} (input : List String) {out : Args}
    (h : readArgs env out input = .ok (.early out')) :
    out'.help = true ∨ out'.command = "version" := by
  cases input with
  | nil => cases h
  | cons arg rest =>
    rw [readArgs] at h
    have hread := readArg_reads env out arg rest
    generalize readArg env out arg rest = progress at h hread
    cases hread with
    | separator => cases h
    | early hearly =>
      cases h
      exact hearly
    | error => cases h
    | command => exact early_of_readArgs rest h
    | positional => cases h
    | flag => exact early_of_readArgs rest h
    | wants =>
      cases rest with
      | nil =>
        dsimp only [missingValue] at h
        split at h
        · cases h
          exact .inl rfl
        · cases h
      | cons value rest =>
        dsimp only at h
        cases hset : setValue env out (nameOf arg) value with
        | error e =>
          rw [hset] at h
          cases h
        | ok mid =>
          rw [hset] at h
          exact early_of_readArgs rest h

/-! ### The separator -/

/-- The arguments are those of the items and of the tail. -/
theorem words_of_divided {input : List String} {items : List Item} {tail : Tail}
    {command : String} (h : Divided env c input items tail command) :
    input = items.flatMap Item.words ++ tail.words := by
  induction h with
  | nothing => rfl
  | separator => rfl
  | positional => rfl
  | command _ _ _ _ ih => exact congrArg _ ih
  | flag _ _ _ _ _ ih => exact congrArg _ ih
  | flagWith _ _ _ _ _ ih => exact congrArg (fun words => _ :: _ :: words) ih

theorem separator_notMem_commands : "--" ∉ commands := by decide

/-- Among the items, a `--` is the value of a flag. -/
theorem separator_mem_words {input : List String} {items : List Item} {tail : Tail}
    {command : String} (h : Divided env c input items tail command) :
    "--" ∈ items.flatMap Item.words ↔ ∃ arg, .flagWith arg "--" ∈ items := by
  induction h with
  | nothing => simp
  | separator => simp
  | positional => simp
  | @command word _ _ _ _ hordinary _ hword _ ih =>
    have hne : "--" ≠ word := fun h => separator_notMem_commands (h ▸ hword)
    simp [Item.words, hne, ih]
  | @flag _ _ arg _ _ _ _ _ hordinary _ _ _ _ ih =>
    have hne : "--" ≠ arg := (isOrdinary_iff.1 hordinary).1.symm
    simp [Item.words, hne, ih]
  | @flagWith _ _ arg value _ _ _ _ hordinary _ _ _ _ ih =>
    have hne : "--" ≠ arg := (isOrdinary_iff.1 hordinary).1.symm
    by_cases hvalue : "--" = value
    · subst hvalue
      simp [Item.words]
    · simp [Item.words, hne, hvalue, ih]

/-- A positional argument that begins the tail is no separator. -/
theorem word_ne_of_divided {input : List String} {items : List Item} {tail : Tail}
    {command word : String} {rest : List String}
    (h : Divided env c input items tail command) (htail : tail = .positional word rest) :
    word ≠ "--" := by
  induction h with
  | nothing => cases htail
  | separator => cases htail
  | positional hordinary =>
    cases htail
    exact (isOrdinary_iff.1 hordinary).1
  | command _ _ _ _ ih => exact ih htail
  | flag _ _ _ _ _ ih => exact ih htail
  | flagWith _ _ _ _ _ ih => exact ih htail

/-- A list with a separator, around the first one. -/
theorem eq_takeWhile_append {l : List String} (h : "--" ∈ l) :
    l = l.takeWhile (· ≠ "--") ++ "--" :: (l.dropWhile (· ≠ "--")).tail := by
  induction l with
  | nil => cases h
  | cons x l ih =>
    by_cases hx : x = "--"
    · subst hx
      rfl
    · have hl : "--" ∈ l := (List.mem_cons.1 h).resolve_left fun h => hx h.symm
      rw [List.takeWhile_cons_of_pos (by simpa using hx),
        List.dropWhile_cons_of_pos (by simpa using hx), List.cons_append, ← ih hl]

theorem takeWhile_eq_self {l : List String} (h : "--" ∉ l) :
    l.takeWhile (· ≠ "--") = l ∧ (l.dropWhile (· ≠ "--")).tail = [] := by
  have hall : ∀ x ∈ l, decide (x ≠ "--") = true := fun x hx =>
    decide_eq_true fun h' => h (h' ▸ hx)
  exact ⟨List.takeWhile_eq_self_iff.2 hall, by rw [List.dropWhile_eq_nil_iff.2 hall]; rfl⟩

section SplitExec

variable {out : Args} {p b : List String}

theorem idxOf_separator (hp : "--" ∉ p) : (p ++ "--" :: b).idxOf "--" = p.length := by
  rw [List.idxOf_append_of_notMem hp, List.idxOf_cons_self, Nat.add_zero]

/-- The command is taken from behind the first separator. -/
theorem splitExec_append (hp : "--" ∉ p) : splitExec (p ++ "--" :: b) out =
    if b = [] then .error (.error "no command given after --")
    else if out.positional.length < b.length then .error .overflow
    else
      let positional := out.positional.take (out.positional.length - b.length)
      .ok { out with
        exec := b,
        positional :=
          if positional.getLast? = some "--" then positional.dropLast else positional } := by
  have hdrop : (p ++ "--" :: b).drop ((p ++ "--" :: b).idxOf "--" + 1) = b := by
    rw [idxOf_separator hp, List.drop_append, List.drop_eq_nil_of_le (Nat.le_succ _),
      Nat.add_sub_cancel_left]
    rfl
  unfold splitExec
  rw [if_pos (by simp), hdrop]

/-- The separator is in the tail of the arguments: the tail is divided there. -/
theorem splitExec_clear {tail : Tail} (hp : "--" ∉ p)
    (hword : ∀ word rest, tail = .positional word rest → word ≠ "--")
    (hpositional : out.positional = tail.args) (hexec : out.exec = []) :
    (∃ text, splitExec (p ++ tail.words) out = .error (.error text)) ∨
      ∃ out', splitExec (p ++ tail.words) out = .ok out' ∧ out'.positional = tail.served ∧
        out'.exec = tail.exec := by
  cases tail with
  | nothing =>
    refine .inr ⟨out, ?_, hpositional, hexec⟩
    unfold splitExec
    rw [Tail.words, List.append_nil, if_neg hp]
  | separator rest =>
    rw [Tail.words, splitExec_append hp]
    by_cases hrest : rest = []
    · exact .inl ⟨_, if_pos hrest⟩
    · rw [if_neg hrest, hpositional, Tail.args, if_neg (Nat.lt_irrefl _), Nat.sub_self]
      exact .inr ⟨_, rfl, rfl, rfl⟩
  | positional word rest =>
    rw [Tail.words]
    -- a later separator divides the tail, and without one nothing is to be executed
    by_cases hmem : "--" ∈ word :: rest
    · have hsplit := eq_takeWhile_append hmem
      have hclear : "--" ∉ (word :: rest).takeWhile (· ≠ "--") := fun h => by
        simpa using List.mem_takeWhile_imp h
      rw [Tail.args] at hpositional
      rw [hsplit] at hpositional
      rw [hsplit, ← List.append_assoc,
        splitExec_append (by rw [List.mem_append]; exact not_or.2 ⟨hp, hclear⟩)]
      rw [Tail.served, Tail.exec]
      generalize (word :: rest).takeWhile (· ≠ "--") = front at hpositional ⊢
      generalize ((word :: rest).dropWhile (· ≠ "--")).tail = back at hpositional ⊢
      by_cases hback : back = []
      · exact .inl ⟨_, if_pos hback⟩
      · have hlength : out.positional.length - back.length = front.length + 1 := by
          rw [hpositional, List.length_append, List.length_cons]
          omega
        have htake : out.positional.take (front.length + 1) = front ++ ["--"] := by
          rw [hpositional, List.take_append, List.take_of_length_le (Nat.le_succ _),
            Nat.add_sub_cancel_left]
          rfl
        have hle : ¬out.positional.length < back.length := by
          rw [hpositional, List.length_append, List.length_cons]
          omega
        rw [if_neg hback, if_neg hle, hlength, htake]
        refine .inr ⟨_, rfl, ?_, rfl⟩
        rw [List.getLast?_concat, if_pos rfl, List.dropLast_concat]
    · obtain ⟨htake, hdrop⟩ := takeWhile_eq_self hmem
      refine .inr ⟨out, ?_, ?_, ?_⟩
      · unfold splitExec
        rw [if_neg (by rw [List.mem_append]; exact not_or.2 ⟨hp, hmem⟩)]
      · rw [hpositional, Tail.served, htake, Tail.args]
      · rw [hexec, Tail.exec, hdrop]

end SplitExec

/-! ### What is preserved -/

section Partition

variable {input : List String} {items : List Item} {tail : Tail} {command : String}

/-- What the loop leaves behind when it starts with nothing. -/
theorem readArgs_default (h : Divided env "" input items tail command) :
    ∃ out, readArgs env env.default input = .ok (.done out) ∧ out.command = command ∧
      out.positional = tail.args ∧ out.exec = [] ∧ out.serve = serveOf items := by
  obtain ⟨out, hread, hframe, hserve⟩ :=
    readArgs_of_divided h (show env.default.command = "" from rfl)
  simp only [frame, Prod.mk.injEq] at hframe
  obtain ⟨hcommand, hpositional, hexec, -⟩ := hframe
  exact ⟨out, hread, hcommand, hpositional, hexec,
    hserve.trans (List.getLastD_eq_getLast?.symm)⟩

/-- The command of a server is taken from the arguments as they were given. -/
theorem parse_server (h : Divided env "" input items tail command)
    (hserves : Serves items command) :
    ∃ out, out.positional = tail.args ∧ out.exec = [] ∧ parse env input = splitExec input out := by
  obtain ⟨out, hread, hcommand, hpositional, hexec, hserve⟩ := readArgs_default h
  refine ⟨out, hpositional, hexec, ?_⟩
  have hserver : out.command = "serve" ∨ out.serve ≠ "" := by
    rw [hcommand, hserve]
    exact hserves
  have hknown : ¬(out.command = "" ∧ out.serve = "" ∧ "--" ∈ out.positional) := by
    rintro ⟨hnone, hnoserve, -⟩
    rcases hserver with hs | hs
    · exact absurd (hs.symm.trans hnone) (by decide)
    · exact hs hnoserve
  unfold parse
  rw [hread]
  dsimp only
  rw [if_neg hknown, if_pos hserver]

/-- The arguments of a client stay where they are. -/
theorem parse_client (h : Divided env "" input items tail command)
    (hserves : ¬Serves items command) :
    (∃ text, parse env input = .error (.error text)) ∨
      ∃ out, parse env input = .ok out ∧ out.positional = tail.args ∧ out.exec = [] := by
  obtain ⟨out, hread, hcommand, hpositional, hexec, hserve⟩ := readArgs_default h
  have hserver : ¬(out.command = "serve" ∨ out.serve ≠ "") := by
    rw [hcommand, hserve]
    exact hserves
  unfold parse
  rw [hread]
  dsimp only
  split_ifs with hbare
  · exact .inl ⟨_, rfl⟩
  · exact .inr ⟨out, rfl, hpositional, hexec⟩

/-- Where the first separator is that of the tail, everything is preserved. -/
theorem parse_clear (h : Divided env "" input items tail command)
    (hserves : Serves items command) (hclear : ¬∃ arg, .flagWith arg "--" ∈ items) :
    (∃ text, parse env input = .error (.error text)) ∨
      ∃ out, parse env input = .ok out ∧ out.positional = tail.served ∧ out.exec = tail.exec := by
  obtain ⟨out, hpositional, hexec, hparse⟩ := parse_server h hserves
  rw [hparse, words_of_divided h]
  exact splitExec_clear ((separator_mem_words h).not.2 hclear)
    (fun word rest htail => word_ne_of_divided h htail) hpositional hexec

/-- The lengths of the arguments around a separator among the items. -/
theorem split_of_value (h : Divided env "" input items tail command)
    (hvalue : ∃ arg, .flagWith arg "--" ∈ items) :
    ∃ p q, "--" ∉ p ∧ input = p ++ "--" :: (q ++ tail.words) := by
  have hmem := (separator_mem_words h).2 hvalue
  refine ⟨(items.flatMap Item.words).takeWhile (· ≠ "--"),
    ((items.flatMap Item.words).dropWhile (· ≠ "--")).tail, fun hp => ?_, ?_⟩
  · simpa using List.mem_takeWhile_imp hp
  · rw [words_of_divided h, ← List.cons_append, ← List.append_assoc, ← eq_takeWhile_append hmem]

/-- A separator that is the last argument leaves a server without its command. -/
theorem parse_value_last (h : Divided env "" input items tail command)
    (hserves : Serves items command) (hvalue : ∃ arg, .flagWith arg "--" ∈ items)
    (hlast : ¬input.idxOf "--" + 1 < input.length) :
    parse env input = .error (.error "no command given after --") := by
  obtain ⟨out, -, -, hparse⟩ := parse_server h hserves
  obtain ⟨p, q, hp, hinput⟩ := split_of_value h hvalue
  rw [hparse, hinput, splitExec_append hp]
  rw [hinput, idxOf_separator hp, List.length_append, List.length_cons] at hlast
  exact if_pos (List.length_eq_zero_iff.1 (by omega))

/-- A separator among the items overflows the subtraction, or moves the whole tail. -/
theorem parse_value (h : Divided env "" input items tail command)
    (hserves : Serves items command) (hvalue : ∃ arg, .flagWith arg "--" ∈ items)
    (hlast : input.idxOf "--" + 1 < input.length) :
    parse env input = .error .overflow ∨
      ∃ out word rest, tail = .positional word rest ∧ parse env input = .ok out ∧
        out.positional = [] := by
  obtain ⟨out, hpositional, -, hparse⟩ := parse_server h hserves
  obtain ⟨p, q, hp, hinput⟩ := split_of_value h hvalue
  rw [hinput, idxOf_separator hp, List.length_append, List.length_cons] at hlast
  have hne : q ++ tail.words ≠ [] := fun hnil => by
    rw [hnil, List.length_nil] at hlast
    omega
  rw [hparse, hinput, splitExec_append hp, if_neg hne]
  by_cases hlt : out.positional.length < (q ++ tail.words).length
  · exact .inl (if_pos hlt)
  · rw [if_neg hlt]
    -- Nothing stands between the separator and the tail, and no separator begins the tail.
    rw [hpositional, List.length_append] at hlt
    cases tail with
    | nothing =>
      rw [Tail.words, List.append_nil] at hne
      exact absurd (List.length_eq_zero_iff.1 (by simpa [Tail.words, Tail.args] using hlt)) hne
    | separator rest =>
      simp only [Tail.words, Tail.args, List.length_cons] at hlt
      omega
    | positional word rest =>
      have hzero :
          out.positional.length - (q ++ Tail.words (.positional word rest)).length = 0 := by
        rw [hpositional, List.length_append]
        simp only [Tail.words, Tail.args]
        omega
      rw [hzero]
      exact .inr ⟨_, word, rest, rfl, rfl, rfl⟩

/-- The first positional argument of a server that is no separator is preserved. -/
theorem served_ne_nil {word : String} {rest : List String} (h : word ≠ "--") :
    Tail.served (.positional word rest) ≠ [] := by
  rw [Tail.served, List.takeWhile_cons_of_pos (by simpa using h)]
  exact List.cons_ne_nil _ _

/-- What is divided is preserved, unless a separator is the value of a server's flag. -/
theorem preserves_of_divided (hshadowed : ¬Shadowed env input)
    (h : Divided env "" input items tail command) :
    (∃ text, parse env input = .error (.error text)) ∨
      ∃ out, parse env input = .ok out ∧ Preserves items tail command out := by
  by_cases hserves : Serves items command
  · by_cases hvalue : ∃ arg, .flagWith arg "--" ∈ items
    · have hlast : ¬input.idxOf "--" + 1 < input.length := fun hlast =>
        hshadowed ⟨items, tail, command, h, hserves, hvalue, hlast⟩
      exact .inl ⟨_, parse_value_last h hserves hvalue hlast⟩
    · rcases parse_clear h hserves hvalue with herror | ⟨out, hparse, hplace⟩
      · exact .inl herror
      · exact .inr ⟨out, hparse, fun _ => hplace, fun hnot => absurd hserves hnot⟩
  · rcases parse_client h hserves with herror | ⟨out, hparse, hplace⟩
    · exact .inl herror
    · exact .inr ⟨out, hparse, fun hyes => absurd hyes hserves, fun _ => hplace⟩

/-- What is not divided is an error, or a request for help or the version. -/
theorem parse_of_not_divided (h : ∀ items tail command, ¬Divided env "" input items tail command) :
    (∃ text, parse env input = .error (.error text)) ∨
      ∃ out, parse env input = .ok out ∧ (out.help = true ∨ out.command = "version") := by
  unfold parse
  cases hread : readArgs env env.default input with
  | error e => exact .inl ⟨e, rfl⟩
  | ok loop =>
    cases loop with
    | early out => exact .inr ⟨out, rfl, early_of_readArgs input hread⟩
    | done out =>
      obtain ⟨items, tail, command, hdivided⟩ := divided_of_readArgs input hread
      exact absurd hdivided (h items tail command)

end Partition

/-- **Everything behind the flags is preserved in its place and the lengths can be subtracted,
exactly unless a server's first `--` is the value of a flag and not the last argument.** -/
theorem parse_preserves_iff (env : Environment) (input : List String) :
    Partitions env input ↔ ¬Shadowed env input := by
  constructor
  · rintro hpartitions ⟨items, tail, command, hdivided, hserves, hvalue, hlast⟩
    rcases parse_value hdivided hserves hvalue hlast with hover | ⟨out, word, rest, htail, hout⟩
    · exact hpartitions.fits hover
    · have hplace :=
        ((hpartitions.preserves out hout.1 items tail command hdivided).server hserves).1
      subst htail
      exact served_ne_nil (word_ne_of_divided hdivided rfl) (hplace.symm.trans hout.2)
  · intro hshadowed
    by_cases hdivided : ∃ items tail command, Divided env "" input items tail command
    · have hpreserves := fun items tail command =>
        @preserves_of_divided env input items tail command hshadowed
      obtain ⟨items, tail, command, hd⟩ := hdivided
      refine ⟨fun hover => ?_, fun _ _ _ _ => ⟨items, tail, command, hd⟩,
        fun out hout items' tail' command' hd' => ?_⟩
      · rcases hpreserves _ _ _ hd with ⟨text, herror⟩ | ⟨out, hok, -⟩
        · rw [hover] at herror
          cases herror
        · rw [hover] at hok
          cases hok
      · rcases hpreserves _ _ _ hd' with ⟨text, herror⟩ | ⟨out', hok, hplace⟩
        · rw [hout] at herror
          cases herror
        · rw [hout] at hok
          cases hok
          exact hplace
    · have hnone := fun items tail command h => hdivided ⟨items, tail, command, h⟩
      rcases parse_of_not_divided hnone with ⟨text, herror⟩ | ⟨out, hok, hearly⟩
      · refine ⟨fun hover => ?_, fun out hout => ?_, fun out hout => ?_⟩
        · rw [hover] at herror
          cases herror
        · rw [hout] at herror
          cases herror
        · rw [hout] at herror
          cases herror
      · refine ⟨fun hover => ?_, fun out' hout hhelp hversion => ?_,
          fun _ _ items tail command hd => absurd hd (hnone items tail command)⟩
        · rw [hover] at hok
          cases hok
        · rw [hout] at hok
          cases hok
          rw [hhelp] at hearly
          exact absurd (hearly.resolve_left Bool.noConfusion) hversion

/-- An environment without the variable, in which no number is valid. -/
def plainEnv : Environment where
  derpMapUrl := none
  parseSi := fun _ => .error ""
  parseDuration := fun _ => .error ""

/-- A key that is called `--`: the lengths cannot be subtracted. -/
theorem separator_key_overflows :
    parse plainEnv ["serve", "--key", "--", "--json", "80"] = .error .overflow ∧
      ¬Partitions plainEnv ["serve", "--key", "--", "--json", "80"] := by
  have hover : parse plainEnv ["serve", "--key", "--", "--json", "80"] = .error .overflow := by
    decide
  exact ⟨hover, fun h => h.fits hover⟩

end Tailcat.Cli.CommandLine
