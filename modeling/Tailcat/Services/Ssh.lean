import Tailcat.Lib.Table
import Tailcat.Lib.Transition
import Tailcat.Text

/-!
# The sessions of the SSH server

A client opens channels and asks on each of them for variables, a terminal, and then for a shell, a
command or the file service.  The first of these takes the channel, and the task that serves it
works with what was asked before.

* `Session.step` : the handlers of a connection.
* `Task.process` : the process that a task starts.
* `run_policy` : what the programs of a connection are, whatever the client asks for.

The policy is about what a client can bring a server to run.  What reaches a program's command line,
environment and directory is followed from the requests to the process, and what a client cannot
choose comes from the server's configuration (`Policy`).  The invariant is about the tasks that were
started: each has a channel of its own and only what the configuration allows.  What the programs do
then is not modelled.
-/

namespace Tailcat.Services.Ssh

open Transition

/-! ### Programs -/

/-- The size of a terminal. -/
structure PtySize where
  cols : ℕ
  rows : ℕ
  pixelWidth : ℕ
  pixelHeight : ℕ
  deriving DecidableEq, Repr

/-- The terminal a client asks for. -/
structure Terminal where
  term : String
  size : PtySize
  modes : List (ℕ × ℕ)
  deriving DecidableEq, Repr

/-- Variables and their values. -/
abbrev Environment := Table String String

/-- A client may set a variable. -/
def acceptedEnv (name : String) : Bool :=
  name = "TERM" || name = "LANG" || "LC_".toList.isPrefixOf name.toList

/-- A text has a NUL. -/
def hasNul (s : String) : Bool := s.toList.contains '\x00'

/-- What the system knows about the user of this process. -/
structure System where
  /-- Name, home and number of the user, if they are found. -/
  user : Option (String × String × ℕ)
  /-- The variable `SHELL`. -/
  shell : Option String

/-- `login_shell`. -/
def System.loginShell (sys : System) : String :=
  match sys.shell.filter (· ≠ "") with
  | some shell => shell
  | none => "/bin/sh"

/-- A program to start. -/
structure CommandSpec where
  program : String
  args : List String
  home : String
  env : Environment

/-- A variable of the server that a program sees, too. -/
def isForwarded (name : String) : Bool :=
  name = "TAILCAT_PEER_KEY" || name = "TAILCAT_REMOTE_ADDR" || name = "TAILCAT_LOCAL_ADDR" ||
    name = "SSH_ORIGINAL_COMMAND"

/-- The directories with programs. -/
def searchPath (uid : ℕ) : String :=
  if uid = 0 then "/usr/local/sbin:/usr/local/bin:/usr/sbin:/usr/bin:/sbin:/bin"
  else "/usr/local/bin:/usr/bin:/bin"

/-- The variables a program gets in any case. -/
def systemEnv (user home : String) (uid : ℕ) (shell : String) : Environment :=
  (((AList.insert "SHELL" shell ∅).insert "USER" user).insert "HOME" home).insert "PATH"
    (searchPath uid)

/-- `command_spec`. -/
def commandSpec (sys : System) (command : String) (forwarded : Environment) : Option CommandSpec :=
  sys.user.map fun (user, home, uid) =>
    let shell := sys.loginShell
    { program := shell
      args := if command = "" then ["-l"] else ["-c", command]
      home
      env := forwarded.retain (fun k v => (acceptedEnv k || isForwarded k) && !hasNul v) ∪
        systemEnv user home uid shell }

/-! ### The connection -/

/-- What the server offers. -/
structure Config where
  shell : Bool
  /-- It has files to share. -/
  files : Bool
  forcedCommand : List String := []

/-- A channel that no task has taken. -/
structure Pending where
  /-- The number of channels that were opened before. -/
  channel : ℕ
  env : Environment
  terminal : Option Terminal := none

/-- What serves a channel. -/
inductive Task
  /-- `shell::run`. -/
  | shell (channel : ℕ) (command : String) (env : Environment) (terminal : Option Terminal)
  /-- The text that there are no shells. -/
  | refuse (channel : ℕ)
  /-- `run_sftp`. -/
  | sftp (channel : ℕ)

/-- The channel of a task. -/
def Task.channel : Task → ℕ
  | .shell channel _ _ _ | .refuse channel | .sftp channel => channel

/-- A request of the client; a channel is named by an identifier. -/
inductive Request
  | openSession (id : ℕ)
  | close (id : ℕ)
  | env (id : ℕ) (name value : String)
  | pty (id : ℕ) (term : String) (columns rows width height : ℕ) (modes : List (ℕ × ℕ))
  | shell (id : ℕ)
  | exec (id : ℕ) (data : Bytes)
  | subsystem (id : ℕ) (name : String)

/-- The state of a connection, and what it has done. -/
structure Session where
  pending : Table ℕ Pending := ∅
  /-- The variables of the connection. -/
  environment : Environment
  /-- The number of channels opened. -/
  opened : ℕ := 0
  tasks : List Task := []
  /-- The replies to requests on channels. -/
  replies : List (ℕ × Bool) := []

variable (cfg : Config)

/-- Answer a request. -/
def Session.reply (s : Session) (id : ℕ) (success : Bool) : Session :=
  { s with replies := s.replies ++ [(id, success)] }

/-- Let a task take a channel. -/
def Session.take (s : Session) (id : ℕ) (task : Pending → Task) : Session :=
  match s.pending.lookup id with
  | none => s.reply id false
  | some pending =>
    { s.reply id true with pending := s.pending.erase id, tasks := s.tasks ++ [task pending] }

/-- `start_shell`. -/
def Session.startShell (s : Session) (id : ℕ) (command : String) : Session :=
  s.take id fun pending =>
    if cfg.shell then .shell pending.channel command pending.env pending.terminal
    else .refuse pending.channel

/-- `size`. -/
def size (columns rows width height : ℕ) : PtySize where
  cols := if columns = 0 then 80 else min columns 65535
  rows := if rows = 0 then 24 else min rows 65535
  pixelWidth := min width 65535
  pixelHeight := min height 65535

/-- The command of an `exec` request. -/
def execCommand (data : Bytes) : Option String :=
  ((fromUtf8 data).map String.ofList).filter fun s => !hasNul s

/-- The handlers. -/
def Session.step (s : Session) : Request → Session
  | .openSession id =>
    { s with
      pending := s.pending.insert id { channel := s.opened, env := s.environment }
      opened := s.opened + 1 }
  | .close id => { s with pending := s.pending.erase id }
  | .env id name value =>
    match s.pending.lookup id with
    | some pending =>
      if acceptedEnv name && !hasNul value then
        { s.reply id true with
          pending := s.pending.insert id { pending with env := pending.env.insert name value } }
      else s.reply id false
    | none => s.reply id false
  | .pty id term columns rows width height modes =>
    match s.pending.lookup id with
    | some pending =>
      { s.reply id true with
        pending := s.pending.insert id
          { pending with terminal := some { term, size := size columns rows width height, modes } } }
    | none => s.reply id false
  | .shell id => s.startShell cfg id ""
  | .exec id data =>
    match execCommand data with
    | some command => s.startShell cfg id command
    | none => s.reply id false
  | .subsystem id name =>
    if cfg.forcedCommand ≠ [] || name ≠ "sftp" || (!cfg.shell && !cfg.files) then s.reply id false
    else s.take id fun pending => .sftp pending.channel

/-- A process, and whether it has a terminal. -/
structure Process where
  program : String
  args : List String
  home : String
  env : Environment
  terminal : Option (PtySize × List (ℕ × ℕ))

/-- The program of `shell::run`: the forced one, if there is one. -/
def forced (command : String) (spec : CommandSpec) : CommandSpec :=
  match cfg.forcedCommand with
  | program :: args =>
    { spec with program, args, env := spec.env.insert "SSH_ORIGINAL_COMMAND" command }
  | [] => spec

/-- The name of the terminal, if there is one. -/
def terminalEnv (terminal : Option Terminal) (env : Environment) : Environment :=
  match terminal with
  | some t => if t.term = "" then env else env.insert "TERM" t.term
  | none => env

/-- The process that a task starts, unless the system refuses it. -/
def Task.process (sys : System) : Task → Option Process
  | .shell _ command env terminal =>
    (commandSpec sys command env).map fun spec =>
      let spec := forced cfg command spec
      { program := spec.program
        args := spec.args
        home := spec.home
        env := terminalEnv terminal spec.env
        terminal := terminal.map fun t => (t.size, t.modes) }
  | .refuse _ | .sftp _ => none

/-! ### The invariant -/

/-- The command of a request for a program. -/
def Request.command : Request → Option String
  | .shell _ => some ""
  | .exec _ data => execCommand data
  | _ => none

/-- The variables a client may not set are those of the connection. -/
def KeepsEnv (environment env : Environment) : Prop :=
  ∀ k, acceptedEnv k = false → env.lookup k = environment.lookup k

/-- A task the server may start, for one of the commands that were asked for. -/
def Task.Allowed (environment : Environment) (asked : String → Prop) : Task → Prop
  | .shell _ command env _ => cfg.shell = true ∧ KeepsEnv environment env ∧ asked command
  | .refuse _ => True
  | .sftp _ => cfg.forcedCommand = []

/-- What holds of a connection. -/
structure Session.Inv (environment : Environment) (asked : String → Prop) (s : Session) :
    Prop where
  same : s.environment = environment
  allowed : ∀ t ∈ s.tasks, t.Allowed cfg environment asked
  nodup : (s.tasks.map Task.channel).Nodup
  lt : ∀ t ∈ s.tasks, t.channel < s.opened
  pending_lt : ∀ id p, s.pending.lookup id = some p → p.channel < s.opened
  /-- No task has a channel that is pending. -/
  untaken : ∀ id p, s.pending.lookup id = some p → ∀ t ∈ s.tasks, t.channel ≠ p.channel
  distinct : ∀ id id' p p', s.pending.lookup id = some p → s.pending.lookup id' = some p' →
    p.channel = p'.channel → id = id'
  keeps : ∀ id p, s.pending.lookup id = some p → KeepsEnv environment p.env

variable {cfg} {environment : Environment} {asked : String → Prop} {s : Session} {id : ℕ}

/-- A reply changes nothing else. -/
theorem Session.Inv.reply (hI : s.Inv cfg environment asked) (id : ℕ) (success : Bool) :
    (s.reply id success).Inv cfg environment asked :=
  ⟨hI.same, hI.allowed, hI.nodup, hI.lt, hI.pending_lt, hI.untaken, hI.distinct, hI.keeps⟩

theorem Session.Inv.close (hI : s.Inv cfg environment asked) (id : ℕ) :
    ({ s with pending := s.pending.erase id } : Session).Inv cfg environment asked := by
  have hlookup : ∀ {id' p}, (s.pending.erase id).lookup id' = some p →
      s.pending.lookup id' = some p := by
    intro id' p h
    rw [Table.lookup_erase_eq] at h
    split_ifs at h
    exact h
  exact ⟨hI.same, hI.allowed, hI.nodup, hI.lt, fun id' p h => hI.pending_lt id' p (hlookup h),
    fun id' p h => hI.untaken id' p (hlookup h),
    fun _ _ _ _ h h' => hI.distinct _ _ _ _ (hlookup h) (hlookup h'),
    fun id' p h => hI.keeps id' p (hlookup h)⟩

/-- A task takes the channel that it is for. -/
theorem Session.Inv.take (hI : s.Inv cfg environment asked) {task : Pending → Task}
    (hchannel : ∀ p, (task p).channel = p.channel)
    (hallowed : ∀ p, KeepsEnv environment p.env → (task p).Allowed cfg environment asked) :
    (s.take id task).Inv cfg environment asked := by
  unfold Session.take
  cases hp : s.pending.lookup id with
  | none => exact hI.reply id false
  | some p =>
    have hclosed := (hI.reply id true).close id
    refine ⟨hI.same, ?_, ?_, ?_, hclosed.pending_lt, ?_, hclosed.distinct, hclosed.keeps⟩
    · intro t ht
      rcases List.mem_append.1 ht with ht | ht
      · exact hI.allowed t ht
      · cases List.mem_singleton.1 ht
        exact hallowed p (hI.keeps id p hp)
    · rw [List.map_append, List.map_singleton, hchannel, List.nodup_append_comm]
      refine List.nodup_cons.2 ⟨fun hmem => ?_, by simpa using hI.nodup⟩
      obtain ⟨t, ht, heq⟩ := List.mem_map.1 (by simpa using hmem)
      exact hI.untaken id p hp t ht heq
    · intro t ht
      rcases List.mem_append.1 ht with ht | ht
      · exact hI.lt t ht
      · cases List.mem_singleton.1 ht
        rw [hchannel]
        exact hI.pending_lt id p hp
    · intro id' p' hp' t ht
      have hp'' := hp'
      rw [Table.lookup_erase_eq] at hp''
      split_ifs at hp'' with hid
      rcases List.mem_append.1 ht with ht | ht
      · exact hI.untaken id' p' hp'' t ht
      · cases List.mem_singleton.1 ht
        rw [hchannel]
        exact fun heq => hid (hI.distinct id id' p p' hp hp'' heq).symm

/-- A request changes what is pending on its channel. -/
theorem Session.Inv.change (hI : s.Inv cfg environment asked) {p : Pending} (p' : Pending)
    (hp : s.pending.lookup id = some p) (hchannel : p'.channel = p.channel)
    (hkeeps : KeepsEnv environment p'.env) (success : Bool) :
    ({ s.reply id success with pending := s.pending.insert id p' } : Session).Inv cfg
      environment asked := by
  have hlookup : ∀ {id' q}, (s.pending.insert id p').lookup id' = some q →
      ∃ q', s.pending.lookup id' = some q' ∧ q.channel = q'.channel ∧ KeepsEnv environment q.env := by
    intro id' q h
    rw [Table.lookup_insert_eq] at h
    split_ifs at h with heq
    · subst heq
      cases h
      exact ⟨p, hp, hchannel, hkeeps⟩
    · exact ⟨q, h, rfl, hI.keeps id' q h⟩
  refine ⟨hI.same, hI.allowed, hI.nodup, hI.lt, ?_, ?_, ?_, ?_⟩
  · intro id' q h
    obtain ⟨q', hq', heq, -⟩ := hlookup h
    exact heq ▸ hI.pending_lt id' q' hq'
  · intro id' q h t ht
    obtain ⟨q', hq', heq, -⟩ := hlookup h
    exact heq ▸ hI.untaken id' q' hq' t ht
  · intro i j q r hq hr heq
    obtain ⟨q', hq', hqc, -⟩ := hlookup hq
    obtain ⟨r', hr', hrc, -⟩ := hlookup hr
    exact hI.distinct i j q' r' hq' hr' (by rw [← hqc, ← hrc, heq])
  · intro id' q h
    obtain ⟨-, -, -, hq⟩ := hlookup h
    exact hq

/-- Every request keeps the invariant. -/
theorem Session.Inv.step (hI : s.Inv cfg environment asked) {r : Request}
    (hr : ∀ command, r.command = some command → asked command) :
    (s.step cfg r).Inv cfg environment asked := by
  have hshell : ∀ id command, asked command →
      (s.startShell cfg id command).Inv cfg environment asked := by
    intro id command hasked
    refine hI.take (fun p => ?_) fun p hp => ?_
    · split_ifs <;> rfl
    · split_ifs with h
      · exact ⟨h, hp, hasked⟩
      · trivial
  cases r with
  -- a new channel has a number that no channel had before
  | openSession id =>
    have hlookup : ∀ {id' q}, (s.pending.insert id
        { channel := s.opened, env := s.environment }).lookup id' = some q →
        (id' = id ∧ q = { channel := s.opened, env := s.environment }) ∨
          s.pending.lookup id' = some q := by
      intro id' q h
      rw [Table.lookup_insert_eq] at h
      split_ifs at h with heq
      · exact .inl ⟨heq, (Option.some.inj h).symm⟩
      · exact .inr h
    refine ⟨hI.same, hI.allowed, hI.nodup, fun t ht => Nat.lt_succ_of_lt (hI.lt t ht), ?_, ?_, ?_, ?_⟩
    · intro id' q h
      rcases hlookup h with ⟨-, rfl⟩ | h
      · exact Nat.lt_succ_self _
      · exact Nat.lt_succ_of_lt (hI.pending_lt id' q h)
    · intro id' q h t ht
      rcases hlookup h with ⟨-, rfl⟩ | h
      · exact Nat.ne_of_lt (hI.lt t ht)
      · exact hI.untaken id' q h t ht
    · intro i j q r hq hr heq
      rcases hlookup hq with ⟨rfl, rfl⟩ | hold
      · rcases hlookup hr with ⟨rfl, rfl⟩ | hold'
        · rfl
        · exact absurd heq (Nat.ne_of_gt (hI.pending_lt j r hold'))
      · rcases hlookup hr with ⟨rfl, rfl⟩ | hold'
        · exact absurd heq (Nat.ne_of_lt (hI.pending_lt i q hold))
        · exact hI.distinct i j q r hold hold' heq
    · intro id' q h
      rcases hlookup h with ⟨-, rfl⟩ | h
      · intro k _
        rw [hI.same]
      · exact hI.keeps id' q h
  | close id => exact hI.close id
  | env id name value =>
    simp only [Session.step]
    split
    · rename_i p hp
      split_ifs with h
      · refine hI.change { p with env := p.env.insert name value } hp rfl ?_ true
        -- a variable that is kept from the client is another one
        intro k hk
        have hne : k ≠ name := by
          rintro rfl
          rw [hk] at h
          cases h
        exact (AList.lookup_insert_ne hne).trans (hI.keeps id p hp k hk)
      · exact hI.reply id false
    · exact hI.reply id false
  | pty id term columns rows width height modes =>
    simp only [Session.step]
    split
    · rename_i p hp
      let t : Terminal := { term, size := size columns rows width height, modes }
      exact hI.change { p with terminal := some t } hp rfl (hI.keeps id p hp) true
    · exact hI.reply id false
  | shell id => exact hshell id "" (hr "" rfl)
  | exec id data =>
    simp only [Session.step]
    split
    · rename_i command hcommand
      exact hshell id command (hr command hcommand)
    · exact hI.reply id false
  | subsystem id name =>
    simp only [Session.step]
    split_ifs with h
    · exact hI.reply id false
    · refine hI.take (fun _ => rfl) fun p _ => ?_
      simp only [Bool.or_eq_true, decide_eq_true_eq, not_or, not_not] at h
      exact h.1.1

/-! ### What is started -/

/-- What holds of the tasks of a connection. -/
structure Policy (cfg : Config) (sys : System) (environment : Environment) (rs : List Request)
    (tasks : List Task) : Prop where
  /-- A channel has at most one task. -/
  once : (tasks.map Task.channel).Nodup
  /-- A program is started for a command that the client asked for. -/
  asked : ∀ channel command env terminal, .shell channel command env terminal ∈ tasks →
    ∃ r ∈ rs, r.command = some command
  /-- A forced command is the only program. -/
  forced : ∀ program args, cfg.forcedCommand = program :: args → ∀ t ∈ tasks,
    (∀ channel, t ≠ .sftp channel) ∧
      ∀ p, t.process cfg sys = some p → p.program = program ∧ p.args = args
  /-- It gets what the client asked for in one variable, and otherwise does not depend on it. -/
  original : cfg.forcedCommand ≠ [] → ∀ channel command env terminal p,
    .shell channel command env terminal ∈ tasks →
    (Task.shell channel command env terminal).process cfg sys = some p →
      p.env.lookup "SSH_ORIGINAL_COMMAND" = some command ∧
      ∀ command', ∃ p', (Task.shell channel command' env terminal).process cfg sys = some p' ∧
        p'.program = p.program ∧ p'.args = p.args ∧ p'.home = p.home ∧ p'.terminal = p.terminal ∧
        ∀ k, k ≠ "SSH_ORIGINAL_COMMAND" → p'.env.lookup k = p.env.lookup k
  /-- Without shells there are no processes. -/
  quiet : cfg.shell = false → ∀ t ∈ tasks, t.process cfg sys = none
  /-- These variables are up to the server. -/
  server : ∀ t ∈ tasks, ∀ p, t.process cfg sys = some p → ∃ user home uid,
    sys.user = some (user, home, uid) ∧ p.env.lookup "HOME" = some home ∧
      p.env.lookup "USER" = some user ∧ p.env.lookup "SHELL" = some sys.loginShell ∧
      p.env.lookup "PATH" = some (searchPath uid) ∧
      ∀ k ∈ ["TAILCAT_PEER_KEY", "TAILCAT_REMOTE_ADDR", "TAILCAT_LOCAL_ADDR"],
        p.env.lookup k = (environment.lookup k).filter fun v => !hasNul v

variable {sys : System} {t : Task} {p : Process} {env : Environment} {command : String}
  {terminal : Option Terminal} {spec : CommandSpec}

theorem lookup_terminalEnv {k : String} (hk : k ≠ "TERM") :
    (terminalEnv terminal env).lookup k = env.lookup k := by
  unfold terminalEnv
  split
  · split_ifs
    · rfl
    · exact AList.lookup_insert_ne hk
  · rfl

/-- The terminal's name does not depend on the other variables. -/
theorem lookup_terminalEnv_congr {env' : Environment} {k : String}
    (h : env'.lookup k = env.lookup k) :
    (terminalEnv terminal env').lookup k = (terminalEnv terminal env).lookup k := by
  unfold terminalEnv
  split
  · split_ifs
    · exact h
    · rw [Table.lookup_insert_eq, Table.lookup_insert_eq, h]
  · exact h

/-- A variable that is not the original command does not depend on it. -/
theorem lookup_forced {k : String} (hk : k ≠ "SSH_ORIGINAL_COMMAND") :
    (Ssh.forced cfg command spec).env.lookup k = spec.env.lookup k := by
  unfold Ssh.forced
  split
  · exact AList.lookup_insert_ne hk
  · rfl

theorem lookup_systemEnv (user home : String) (uid : ℕ) (shell : String) :
    (systemEnv user home uid shell).lookup "HOME" = some home ∧
      (systemEnv user home uid shell).lookup "USER" = some user ∧
      (systemEnv user home uid shell).lookup "SHELL" = some shell ∧
      (systemEnv user home uid shell).lookup "PATH" = some (searchPath uid) := by
  simp only [systemEnv, Table.lookup_insert_eq]
  refine ⟨?_, ?_, ?_, ?_⟩ <;> simp

/-- What a program gets. -/
theorem commandSpec_eq_some (h : commandSpec sys command env = some spec) :
    ∃ user home uid, sys.user = some (user, home, uid) ∧ spec.home = home ∧
      (∀ k, (acceptedEnv k || isForwarded k) = false →
        spec.env.lookup k = (systemEnv user home uid sys.loginShell).lookup k) ∧
      ∀ k, (systemEnv user home uid sys.loginShell).lookup k = none → isForwarded k →
        spec.env.lookup k = (env.lookup k).filter fun v => !hasNul v := by
  obtain ⟨⟨user, home, uid⟩, huser, rfl⟩ := Option.map_eq_some_iff.1 h
  refine ⟨user, home, uid, huser, rfl, fun k hk => ?_, fun k hk hforwarded => ?_⟩
  · have hnone : (env.lookup k).filter (fun v =>
        (acceptedEnv k || isForwarded k) && !hasNul v) = none := by
      simp [hk]
    rw [Table.lookup_union, Table.lookup_retain, hnone, Option.none_or]
  · rw [Table.lookup_union, Table.lookup_retain, hk, Option.or_none, hforwarded, Bool.or_true]
    simp only [Bool.true_and]

/-- Only the arguments depend on the command. -/
theorem commandSpec_congr (h : commandSpec sys command env = some spec) (command' : String) :
    ∃ spec', commandSpec sys command' env = some spec' ∧ spec'.env = spec.env ∧
      spec'.home = spec.home := by
  obtain ⟨⟨user, home, uid⟩, huser, rfl⟩ := Option.map_eq_some_iff.1 h
  exact ⟨_, Option.map_eq_some_iff.2 ⟨_, huser, rfl⟩, rfl, rfl⟩

theorem process_eq_some (h : t.process cfg sys = some p) :
    ∃ channel command env terminal spec, t = .shell channel command env terminal ∧
      commandSpec sys command env = some spec ∧
      p = { program := (Ssh.forced cfg command spec).program
            args := (Ssh.forced cfg command spec).args
            home := (Ssh.forced cfg command spec).home
            env := terminalEnv terminal (Ssh.forced cfg command spec).env
            terminal := terminal.map fun t => (t.size, t.modes) } := by
  cases t with
  | shell channel command env terminal =>
    obtain ⟨spec, hspec, rfl⟩ := Option.map_eq_some_iff.1 h
    exact ⟨channel, command, env, terminal, spec, rfl, hspec, rfl⟩
  | refuse channel => cases h
  | sftp channel => cases h

/-- The variables that are up to the server. -/
theorem lookup_process (hallowed : t.Allowed cfg environment asked) (h : t.process cfg sys = some p) :
    ∃ user home uid, sys.user = some (user, home, uid) ∧
      (∀ k ∈ ["HOME", "USER", "SHELL", "PATH"],
        p.env.lookup k = (systemEnv user home uid sys.loginShell).lookup k) ∧
      ∀ k ∈ ["TAILCAT_PEER_KEY", "TAILCAT_REMOTE_ADDR", "TAILCAT_LOCAL_ADDR"],
        p.env.lookup k = (environment.lookup k).filter fun v => !hasNul v := by
  obtain ⟨channel, command, env, terminal, spec, rfl, hspec, rfl⟩ := process_eq_some h
  obtain ⟨user, home, uid, huser, -, hsystem, hserver⟩ := commandSpec_eq_some hspec
  have hlookup : ∀ k, k ≠ "TERM" → k ≠ "SSH_ORIGINAL_COMMAND" →
      (terminalEnv terminal (Ssh.forced cfg command spec).env).lookup k = spec.env.lookup k :=
    fun k hterm horiginal => (lookup_terminalEnv hterm).trans (lookup_forced horiginal)
  have hnames : ∀ k ∈ ["HOME", "USER", "SHELL", "PATH"], k ≠ "TERM" ∧
      k ≠ "SSH_ORIGINAL_COMMAND" ∧ (acceptedEnv k || isForwarded k) = false := by decide +kernel
  have hforwarded : ∀ k ∈ ["TAILCAT_PEER_KEY", "TAILCAT_REMOTE_ADDR", "TAILCAT_LOCAL_ADDR"],
      k ≠ "TERM" ∧ k ≠ "SSH_ORIGINAL_COMMAND" ∧ isForwarded k = true ∧ acceptedEnv k = false ∧
        k ≠ "HOME" ∧ k ≠ "USER" ∧ k ≠ "SHELL" ∧ k ≠ "PATH" := by decide +kernel
  refine ⟨user, home, uid, huser, fun k hk => ?_, fun k hk => ?_⟩
  · obtain ⟨hterm, horiginal, hother⟩ := hnames k hk
    exact (hlookup k hterm horiginal).trans (hsystem k hother)
  · obtain ⟨hterm, horiginal, hyes, hno, hhome, huser', hshell, hpath⟩ := hforwarded k hk
    have hsys : (systemEnv user home uid sys.loginShell).lookup k = none := by
      simp only [systemEnv, Table.lookup_insert_eq, if_neg hhome, if_neg huser', if_neg hshell,
        if_neg hpath]
      rfl
    rw [hlookup k hterm horiginal, hserver k hsys hyes, hallowed.2.1 k hno]

/-- **The policy of a connection**: whatever the client asks for, on any channels and in any order. -/
theorem run_policy (cfg : Config) (sys : System) (environment : Environment)
    (rs : List Request) :
    Policy cfg sys environment rs (run (Session.step cfg) { environment } rs).tasks := by
  have hI : (run (Session.step cfg) { environment } rs).Inv cfg environment
      fun command => ∃ r ∈ rs, r.command = some command := by
    refine run_invariant (P := fun _ r => r ∈ rs)
      (fun _ r hI hr => hI.step fun command hcommand => ⟨r, hr, hcommand⟩)
      ⟨rfl, nofun, List.nodup_nil, nofun, ?_, ?_, ?_, ?_⟩ (along_mem fun _ => id)
    all_goals intro id; exact nofun
  generalize run (Session.step cfg) { environment } rs = s at hI
  refine ⟨hI.nodup, fun _ _ _ _ ht => (hI.allowed _ ht).2.2, ?_, ?_, ?_, ?_⟩
  -- with a forced command there is no file service, and every process runs it
  · intro program args hforced t ht
    refine ⟨?_, fun p hp => ?_⟩
    · rintro channel rfl
      exact absurd (hforced.symm.trans (hI.allowed _ ht)) (List.cons_ne_nil _ _)
    · obtain ⟨channel, command, env, terminal, spec, -, -, rfl⟩ := process_eq_some hp
      simp only [Ssh.forced, hforced, and_self]
  -- what the client asked for is in a variable, and nothing else depends on it
  · intro hforced channel command env terminal p ht hp
    obtain ⟨program, args, hcommand⟩ := List.exists_cons_of_ne_nil hforced
    obtain ⟨spec, hspec, rfl⟩ := Option.map_eq_some_iff.1 hp
    refine ⟨?_, fun command' => ?_⟩
    · refine (lookup_terminalEnv (by decide)).trans ?_
      simp only [Ssh.forced, hcommand]
      exact AList.lookup_insert _
    · obtain ⟨spec', hspec', henv, hhome⟩ := commandSpec_congr hspec command'
      refine ⟨_, Option.map_eq_some_iff.2 ⟨spec', hspec', rfl⟩, ?_, ?_, ?_, rfl, fun k hk => ?_⟩
      · simp only [Ssh.forced, hcommand]
      · simp only [Ssh.forced, hcommand]
      · simp only [Ssh.forced, hcommand, hhome]
      · refine lookup_terminalEnv_congr ?_
        rw [lookup_forced hk, lookup_forced hk, henv]
  · intro hshell t ht
    cases t with
    | shell channel command env terminal =>
      exact absurd (hshell.symm.trans (hI.allowed _ ht).1) Bool.false_ne_true
    | refuse channel => rfl
    | sftp channel => rfl
  -- what the server sets comes from the account and the connection
  · intro t ht p hp
    obtain ⟨user, home, uid, huser, hsystem, hserver⟩ := lookup_process (hI.allowed t ht) hp
    refine ⟨user, home, uid, huser, ?_, ?_, ?_, ?_, hserver⟩
    all_goals rw [hsystem _ (by decide)]
    · exact (lookup_systemEnv user home uid _).1
    · exact (lookup_systemEnv user home uid _).2.1
    · exact (lookup_systemEnv user home uid _).2.2.1
    · exact (lookup_systemEnv user home uid _).2.2.2

end Tailcat.Services.Ssh
