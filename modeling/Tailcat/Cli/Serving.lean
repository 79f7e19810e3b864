import Tailcat.Cli.ServeSpec

/-!
# The serve command

`serve` turns the command line into the configuration of a server: the ports its packet filter lets
through (`servedTcpPorts`) and what answers a connection to a port (`onTcp`).

`admits_iff_onTcp` : the filter lets a port through if and only if something answers there.

The configuration follows the source step by step: the positional argument and `--serve`, the flags
that need a service, the services that need a flag, the ports of `perf` and `ssh`, and the exit
node, which serves every port and so has no filter.  A command line that is refused has the source's
message.

The filter and the dispatch are computed from the same configuration in two ways, a list of ranges
and a chain of conditions.  The result says that these agree on every port, for every command line
that is accepted and every host.
-/

namespace Tailcat.Cli

open Net (Port PortFilter)

/-! ### The command line -/

/-- The options of the command line that decide what is served. -/
structure Args where
  command : String := ""
  positional : List (List Char) := []
  serve : List Char := []
  files : List Char := []
  acceptDirs : Bool := false
  exec : List String := []
  sshAuthorizedKeys : String := ""
  deriving Repr

/-- What `serve` asks of the host. -/
structure Host where
  /-- `resolve_command`. -/
  resolveCommand : List String → Except String (List String)
  /-- `FileShare::parse`. -/
  fileShare : List Char → Except String Unit
  /-- `SshConfig::new`, which needs a host key. -/
  sshConfig : Except String Unit
  /-- `load_authorized_keys`. -/
  loadAuthorizedKeys : String → Except String Unit

/-- What answers a TCP connection. -/
inductive Service
  /-- The performance test. -/
  | perf
  /-- SSH and SFTP. -/
  | ssh
  /-- The first connection is copied to the standard output. -/
  | stdout
  /-- A proxy to a target. -/
  | forward (target : String)
  /-- A command, for each connection. -/
  | exec (command : List String)
  deriving DecidableEq, Repr

/-- What a server serves. -/
structure Serving where
  spec : ServeSpec
  oneShot : Bool
  exitNode : Bool
  execService : Bool
  ssh : Bool
  perf : Bool
  execArgs : List String

/-- The port of the performance test. -/
def perfPort : Port := 5201

/-- The port of SSH. -/
def sshPort : Port := 22

/-- The specification and the file share the options and arguments ask for. -/
def serveValues (args : Args) : Except String (List Char × List Char) :=
  if args.command = "recv" then
    if 1 < args.positional.length then .error "recv takes at most one directory argument"
    else if args.files ≠ [] then .error "recv takes the directory as an argument, not --files"
    else
      let dir := args.positional.headD ['.']
      .ok ([], dir ++ (if args.acceptDirs then ":wo+" else ":wo").toList)
  else if args.positional ≠ [] then
    if args.command = "" then .error "no positional arguments are valid along with --serve"
    else if args.serve ≠ [] then
      .error "use either --serve or positional port/service arguments, not both"
    else .ok ([','].intercalate args.positional, args.files)
  else .ok (args.serve, args.files)

/-- The services of the command line, with the ones its other options imply. -/
def serveSpec (args : Args) : Except String (ServeSpec × List Char) := do
  let (value, filesValue) ← serveValues args
  let spec ← match parseServeSpec value with
    | .ok spec => .ok spec
    | .error _ => .error "invalid port or service to serve"
  let services := if filesValue = [] then spec.services else insert "files" spec.services
  let services := if args.exec ≠ [] ∧ "ssh" ∉ services ∧ "no-auth-ssh" ∉ services then
    insert "exec" services else services
  return ({ spec with services }, filesValue)

/-- The combinations of services that are refused. -/
def checkServices (args : Args) (spec : ServeSpec) : Except String Unit :=
  let has := fun s => decide (s ∈ spec.services)
  let anySsh := has "ssh" || has "no-auth-ssh"
  if has "perf" ∧ perfPort ∈ spec.ports then
    .error "port 5201 is used by the 'perf' service and cannot also be proxied"
  else if has "exec" ∧ args.exec = [] then .error "exec requires a command after --"
  else if args.exec ≠ [] ∧ !has "exec" ∧ !anySsh then
    .error "command after -- requires exec or SSH service"
  else if args.exec ≠ [] ∧ anySsh ∧ has "files" then
    .error "files cannot be served with an SSH -- command"
  else .ok ()

/-- The combinations of SSH options that are refused. -/
def checkSsh (args : Args) (spec : ServeSpec) : Except String Unit :=
  let has := fun s => decide (s ∈ spec.services)
  if has "ssh" ∧ has "no-auth-ssh" then .error "ssh and no-auth-ssh are mutually exclusive"
  else if has "ssh" ∧ args.sshAuthorizedKeys = "" then
    .error "ssh requires --ssh-authorized-keys"
  else if args.sshAuthorizedKeys ≠ "" ∧ !has "ssh" then
    .error "--ssh-authorized-keys requires the ssh service"
  else .ok ()

/-- What the command line serves. -/
def serve (h : Host) (args : Args) : Except String Serving := do
  let (spec, filesValue) ← serveSpec args
  let execArgs ← match h.resolveCommand args.exec with
    | .ok execArgs => .ok execArgs
    | .error _ => .error "exec command:"
  checkServices args spec
  let files := decide ("files" ∈ spec.services)
  if files then h.fileShare (if filesValue = [] then ['.'] else filesValue)
  checkSsh args spec
  let authenticatedSsh := decide ("ssh" ∈ spec.services)
  let noAuthSsh := decide ("no-auth-ssh" ∈ spec.services)
  let ssh := authenticatedSsh || noAuthSsh || files
  if ssh then h.sshConfig
  if authenticatedSsh then h.loadAuthorizedKeys args.sshAuthorizedKeys
  return {
    spec, ssh, execArgs
    oneShot := decide (spec.ports = ∅ ∧ spec.services = ∅)
    exitNode := decide ("exit-node" ∈ spec.services)
    execService := decide ("exec" ∈ spec.services)
    perf := decide ("perf" ∈ spec.services) }

namespace Serving

/-! ### The packet filter and the dispatcher -/

/-- The ports that answer, apart from those of the modes in which every port does. -/
def ports (s : Serving) : Finset Port :=
  let ports := s.spec.ports
  let ports := if s.ssh then insert sshPort ports else ports
  if s.perf then insert perfPort ports else ports

/-- The packet filter. -/
def servedTcpPorts (s : Serving) : PortFilter :=
  if s.oneShot || s.exitNode || s.execService then none else some (portRanges s.ports)

/-- What answers a connection to a port of the server. -/
def onTcp (s : Serving) (port : Port) : Option Service :=
  if port = perfPort ∧ s.perf then some .perf
  else if port = sshPort ∧ s.ssh then some .ssh
  else if s.oneShot then some .stdout
  else if port ∈ s.spec.ports then
    some (.forward ((s.spec.targets.lookup port).getD s!"localhost:{port}"))
  else if s.execService then some (.exec s.execArgs)
  else if s.exitNode then some (.forward s!"localhost:{port}")
  else none

/-- The filter of a set of ranges lets through the ports they cover. -/
theorem admits_portRanges (ports : Finset Port) (p : Port) :
    PortFilter.admits (some (portRanges ports)) p = true ↔ p ∈ ports := by
  rw [← (portRanges_spec ports).mem_iff p]
  simp [PortFilter.admits]

theorem mem_ports (s : Serving) (p : Port) :
    p ∈ s.ports ↔ (p = perfPort ∧ s.perf) ∨ (p = sshPort ∧ s.ssh) ∨ p ∈ s.spec.ports := by
  unfold ports
  split_ifs with hperf hssh <;> simp [*]

theorem isSome_onTcp (s : Serving) (p : Port) :
    (s.onTcp p).isSome ↔ (s.oneShot || s.exitNode || s.execService) = true ∨ p ∈ s.ports := by
  rw [mem_ports]
  unfold onTcp
  split_ifs <;> simp_all

/-- **The packet filter and the dispatcher agree**, whatever is served: the filter lets a port through
if and only if something answers there; and its ranges cover the set they were made from. -/
theorem admits_iff_onTcp (h : Host) (args : Args) :
    (∀ s, serve h args = .ok s → ∀ p, s.servedTcpPorts.admits p = true ↔ (s.onTcp p).isSome) ∧
      ∀ ports : Finset Port, RangesOf (portRanges ports) (· ∈ ports) := by
  refine ⟨fun s _ p => ?_, portRanges_spec⟩
  rw [isSome_onTcp, servedTcpPorts]
  split_ifs with hall
  · simp [PortFilter.admits, hall]
  · simp [admits_portRanges, hall]

end Serving

end Tailcat.Cli
