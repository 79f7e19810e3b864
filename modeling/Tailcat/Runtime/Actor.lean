import Tailcat.Runtime.Pipe
import Tailcat.Runtime.Packet
import Tailcat.Lib.Table

/-!
# The actor

One task owns the tunnels and the network stack of a server or a client.  `Actor` is its state,
together with what it shares with its surroundings: the pipes and datagram streams it has handed out,
which of the receivers of its answers are gone, the clock, and a record of what it has done.

Hash maps are tables (`Tailcat.Table`), instants are milliseconds.

Fields have the names of the source's.  What the source keeps in a library's structure (the tunnels
of boringtun, the sockets of smoltcp) is a value of a type that the platform or `Runtime.Socket`
defines.  The sockets, pipes and streams that others hold a part of are named by numbers that are
never used again, which stands for the identity of a shared pointer; sockets alone have handles that
are.

The record (`trace`) and the lists of handed-out objects are there for the statements.  The step
function is in `Runtime.Step`.
-/

namespace Tailcat.Runtime

open Net

/-! ### What the actor answers -/

/-- The receiver of an answer. -/
abbrev ReplyId := ℕ

/-- A pipe, in the order of creation. -/
abbrev PipeId := ℕ

/-- A datagram stream, in the order of creation; also its cancellation token. -/
abbrev StreamId := ℕ

/-- The two sides of a TCP connection: local and remote. -/
abbrev TcpFlow := IpEndpoint × IpEndpoint

/-- The two sides of a UDP flow: local and remote. -/
abbrev UdpFlowKey := SocketAddr × SocketAddr

/-- What takes accepted connections: a listener, or a service of the configuration. -/
inductive Handler
  | listener (id : ℕ)
  | service (name : String)
  deriving DecidableEq, Repr

/-- Authenticated metadata available while a TCP service handler runs. -/
structure ConnectionInfo where
  peerKey : Key
  remoteAddr : SocketAddr
  localAddr : SocketAddr
  deriving DecidableEq

/-- The result of a ping. -/
structure PingResult where
  latency : ℕ
  endpoint : Option SocketAddr
  derpRegionId : Int64

/-- The answer to a command. -/
inductive Answer
  | listener (id : ℕ) (port : Port)
  | stream (id : StreamId)
  | sent
  | status
  | connected (pipe : PipeId)
  | pong (result : PingResult)
  | drained
  | failed (error : String)

/-! ### State -/

/-- The configuration of a server. -/
structure ServerConfig where
  allowedClients : List Key := []
  onTcp : Option (Port → Option String) := none
  onTcpForward : Option (SocketAddr → Option String) := none
  servedTcpPorts : PortFilter := none
  onUdp : Option (Port → Option String) := none
  onUdpForward : Option (SocketAddr → Option String) := none
  servedUdpPorts : PortFilter := none
  udpIdleTimeout : Option ℕ := none

/-- A connection between a socket and the application. -/
structure Link where
  socket : ℕ
  /-- The flow it was opened for: a listening socket has no remote side yet. -/
  flow : TcpFlow
  pipe : PipeId
  /-- The application's end of the pipe is still held here. -/
  app : Bool := true
  /-- The dial that waits for the connection. -/
  connected : Option ReplyId := none
  handler : Option Handler := none
  writeClosed : Bool := false
  readClosed : Bool := false
  started : ℕ
  deriving DecidableEq

/-- A registered peer. -/
structure Peer where
  discoKey : Key
  direct : Option (SocketAddr × ℕ) := none
  candidates : List SocketAddr := []
  deriving DecidableEq

/-- A ping that waits for its answer. -/
structure PendingPing where
  started : ℕ
  sent : ℕ
  disco : Bool
  txid : TxId
  result : ReplyId

/-- A probe of an endpoint of a peer. -/
structure Probe where
  key : Key
  endpoint : SocketAddr
  sent : ℕ

/-- A port claimed by a listener, which may have been dropped. -/
structure Claim where
  id : ℕ
  closed : Bool := false

/-- An entry of the table of datagram flows. -/
structure UdpFlow where
  stream : StreamId
  touched : ℕ

/-- A datagram stream: its queue and its cancellation token. -/
structure Stream where
  flow : UdpFlowKey
  queue : List Bytes := []
  cancelled : Bool := false
  /-- The handle was dropped. -/
  dropped : Bool := false

/-- Something the actor has done. -/
inductive Act
  /-- A packet for a peer was queued for the relay. -/
  | relay (key : Key) (data : Bytes)
  /-- A datagram was to be sent; whether the system took it. -/
  | udp (when : ℕ) (endpoint : SocketAddr) (data : Bytes) (sent : Bool)
  /-- A packet from the tunnel of a peer was given to the network stack. -/
  | receiveIp (key : Key) (packet : Bytes)
  /-- A packet of the network stack was given to the tunnel of a peer. -/
  | encapsulate (key : Key) (packet : Bytes)
  /-- A command was answered. -/
  | answer (result : ReplyId) (answer : Answer)
  /-- The configuration was asked for a TCP handler. -/
  | onTcp (port : Port)
  | onTcpForward (target : SocketAddr)
  /-- The configuration was asked for a UDP handler. -/
  | onUdp (port : Port)
  | onUdpForward (target : SocketAddr)
  /-- A handler was started for a connection, whose socket was connected to these two sides. -/
  | serve (handler : Handler) (pipe : PipeId) (info : ConnectionInfo) (tuple : Option TcpFlow)
  /-- A handler was given a datagram flow. -/
  | serveUdp (handler : Handler) (stream : StreamId)
  /-- A datagram was put into the queue of a stream. -/
  | deliver (stream : StreamId) (payload : Bytes)
  /-- The direct path of a peer was set, for the answer to a probe. -/
  | promote (key : Key) (endpoint : SocketAddr) (when : ℕ) (txid : TxId)
  /-- A link was removed, and its socket. -/
  | remove (link : Link) (socket : Socket)

/-- The state of the actor and of what it shares with others. -/
structure Actor where
  key : PrivateKey
  localAddr : Ipv6Addr
  regionId : Int64 := 0
  config : Option ServerConfig
  server : Option Key
  peers : Table Key Peer := ∅
  /-- The packets the network stack has to process. -/
  incoming : List Bytes := []
  /-- The packets the network stack and the datagram flows have produced. -/
  outgoing : List Bytes := []
  sockets : SocketSet := ∅
  links : List Link := []
  udpFlows : Table UdpFlowKey UdpFlow := ∅
  /-- The claimed ports, of UDP or TCP. -/
  listeners : Table (Bool × Port) Claim := ∅
  /-- There is a UDP socket for IPv6. -/
  udp6 : Bool := false
  endpoints : List SocketAddr := []
  nextPort : Port := 32768
  lastTimers : ℕ
  lastAdvertise : ℕ
  pings : List PendingPing := []
  probes : Table TxId Probe := ∅
  drains : List ReplyId := []
  stunTxid : TxId
  /-- The clock. -/
  now : ℕ
  /-- The number of outcomes drawn from the platform. -/
  draws : ℕ := 0
  pipes : List Pipe := []
  streams : List Stream := []
  /-- The number of listeners handed out. -/
  listenersIssued : ℕ := 0
  /-- The receivers of answers that are gone. -/
  closedReplies : List ReplyId := []
  /-- What was done so far. -/
  trace : List Act := []

/-! ### Constants -/

/-- What every packet of the discovery protocol starts with. -/
def discoMagic : Bytes := ascii "TS" ++ [0xf0, 0x9f, 0x92, 0xac]

/-- What every registration packet starts with. -/
def meow : Bytes := ascii "meow"

/-- The most peers. -/
def maxPeers : ℕ := 1024

/-- The most connections, half-open ones included, and the most datagram flows. -/
def maxConnections : ℕ := 256

/-- The most endpoints and candidates. -/
def maxCandidates : ℕ := 32

/-- The most pings that wait. -/
def maxPendingPings : ℕ := 128

/-- The most probes that wait. -/
def maxProbes : ℕ := 4096

/-- How long a probe may be answered. -/
def probeTimeout : ℕ := 10000

/-- How long a direct path is used. -/
def directTimeout : ℕ := 15000

namespace Actor

/-! ### Effects -/

/-- Record something done. -/
def act (a : Actor) (x : Act) : Actor := { a with trace := a.trace ++ [x] }

/-- Draw an outcome from the platform. -/
def draw (a : Actor) : Actor := { a with draws := a.draws + 1 }

/-- Answer a command. -/
def answer (a : Actor) (result : ReplyId) (x : Answer) : Actor := a.act (.answer result x)

/-- The receiver of an answer is gone. -/
def isClosed (a : Actor) (result : ReplyId) : Bool := result ∈ a.closedReplies

variable (π : Platform)

/-- Queue a packet for the relay, unless its queue is full. -/
def relaySend (a : Actor) (key : Key) (data : Bytes) : Actor :=
  if π.relayRoom a.draws then a.draw.act (.relay key data) else a.draw

/-- There is a socket for an endpoint's family. -/
def hasSocket (a : Actor) : SocketAddr → Bool
  | .v4 .. => true
  | .v6 .. => a.udp6

/-- Send a datagram; whether it was sent, and the state after. -/
def sendUdp (a : Actor) (data : Bytes) (endpoint : SocketAddr) : Bool × Actor :=
  let sent := a.hasSocket endpoint && π.sendsUdp a.draws
  (sent, a.draw.act (.udp a.now endpoint data sent))

/-- Send a packet to a peer, directly if there is a recent direct path, else through the relay. -/
def sendPacket (a : Actor) (key : Key) (packet : Bytes) : Actor :=
  match (a.peers.lookup key).bind (·.direct) with
  | some (endpoint, when) =>
    if a.now - when < directTimeout then
      match a.sendUdp π packet endpoint with
      | (true, a) => a
      | (false, a) => a.relaySend π key packet
    else a.relaySend π key packet
  | none => a.relaySend π key packet

/-- Seal a message of the discovery protocol for a peer's disco key; the packet, and the state
after. -/
def sealDisco (a : Actor) (peer : Key) (data : Bytes) : Option Bytes × Actor :=
  let nonce := π.nonce a.draws
  let packet := (π.encrypt a.key.discoPrivate peer nonce data).map fun encrypted =>
    discoMagic ++ a.key.discoPublic.1 ++ nonce.1 ++ encrypted
  (packet, a.draw)

/-- Open a message of the discovery protocol from a peer's disco key. -/
def openDisco (a : Actor) (peer : Key) (data : Bytes) : Option Bytes :=
  if data.length < 78 then none
  else π.decrypt a.key.discoPrivate peer (slice data 38 62) (data.drop 62)

end Actor

end Tailcat.Runtime
