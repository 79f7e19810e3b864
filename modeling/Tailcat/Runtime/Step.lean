import Tailcat.Runtime.Links
import Tailcat.Lib.Transition

/-!
# Steps of the actor

The actor processes one event at a time: a packet from the relay (`incoming`), a datagram
(`udpPacket`), a command, or a tick.  Between them its surroundings act on what they share with it:
the application uses its pipes and streams, receivers and listeners are dropped, time passes, and a
hash map may change its order of iteration.

`Actor.step` is one such event, and `Actor.init` the state an actor starts in.

The source waits for several things at once and takes whichever is there, so any order of events is
a run.  An event runs to its end before the next one: the state is held by one task, and whether
what it sends in between arrives is up to the platform.  What the network stack does within a tick
is a list of actions (`PollAction`), each with the condition under which a socket allows it.
-/

namespace Tailcat.Runtime

open Net

namespace Actor

variable (π : Platform)

/-! ### Packets -/

/-- Answer every ping that waits for a registration. -/
def answerMeow (a : Actor) : Actor :=
  let answered := a.pings.filter fun p => !p.disco
  let a := { a with pings := a.pings.filter fun p => p.disco }
  answered.foldl (fun a p =>
    let result := { latency := a.now - p.started, endpoint := none, derpRegionId := a.regionId }
    a.answer p.result (.pong result)) a

/-- A registration is accepted: it is complete, names its sender, and the sender is allowed. -/
def registers (config : ServerConfig) (key : Key) (data : Bytes) : Bool :=
  69 ≤ data.length && data.getD 4 0 = 1 && slice data 5 37 = key.1 &&
    slice data 37 69 ≠ Key.zero.1 &&
    (config.allowedClients.isEmpty || config.allowedClients.contains key)

/-- The disco key of a registration. -/
def registeredDisco (data : Bytes) : Key :=
  ⟨(slice data 37 69).rightpad 32 0, by rw [List.length_rightpad, slice, List.length_take]; omega⟩

/-- Process a registration packet. -/
def meowPacket (a : Actor) (key : Key) (data : Bytes) : Actor :=
  match a.config with
  | some config =>
    if registers config key data then
      let a := a.addPeer key (registeredDisco data)
      if key ∈ a.peers then (a.relaySend π key (meow ++ [2])).advertise π else a
    else a
  | none =>
    if some key = a.server ∧ 5 ≤ data.length ∧ data.getD 4 0 = 2 then a.answerMeow else a

/-- A packet out of a peer's tunnel may be given to the network stack: on a server, its source has to
be the peer's address. -/
def mayReceive (a : Actor) (key : Key) (b : Bytes) : Bool :=
  40 ≤ b.length && (a.config.isNone || slice b 8 24 = (tcAddrForKey key).1)

/-- Write what a tunnel wants written. -/
def tunnelWrite (key : Key) (a : Actor) : TunnResult → Actor
  | .writeToNetwork b => a.sendPacket π key b
  | .writeToTunnelV6 b =>
    if a.mayReceive key b then (a.act (.receiveIp key b)).receiveIp π b else a

/-- Process a packet for a peer, from the relay or from a datagram's source. -/
def incomingPacket (a : Actor) (key : Key) (data : Bytes) (source : Option SocketAddr) : Actor :=
  if meow.isPrefixOf data then
    match source with
    | some _ => a
    | none => a.meowPacket π key data
  else if discoMagic.isPrefixOf data then a.discoPacket π key data source
  else if key ∈ a.peers then
    let results := π.decapsulate a.draws key (source.map (·.ip)) data
    results.foldl (tunnelWrite π key) a.draw
  else a

/-- The peer whose disco key a datagram names. -/
def discoOwner (a : Actor) (data : Bytes) : Option Key :=
  (a.peers.entries.find? fun e => e.2.discoKey.1 = slice data 6 38).map (·.1)

/-- The peers that may have sent a datagram. -/
def knownAt (a : Actor) (source : SocketAddr) : List Key :=
  (a.peers.entries.filter fun e =>
    e.2.direct.any (fun d => d.1 = source) || e.2.candidates.contains source).map (·.1)

/-- The datagram answers the own STUN query. -/
def answersStun (a : Actor) (data : Bytes) : Bool :=
  20 ≤ data.length && slice data 0 2 = [1, 1] && slice data 4 8 = [0x21, 0x12, 0xa4, 0x42] &&
    slice data 8 20 = a.stunTxid.1

/-- Process a datagram. -/
def udpPacket (a : Actor) (data : Bytes) (source : SocketAddr) : Actor :=
  if a.answersStun data then
    match parseStun data with
    | some endpoint =>
      match rememberEndpoint a.endpoints endpoint with
      | (true, endpoints) => { a with endpoints, lastAdvertise := a.now - 60000 }
      | (false, _) => a
    | none => a
  else if discoMagic.isPrefixOf data ∧ 38 ≤ data.length then
    match a.discoOwner data with
    | some key => a.incomingPacket π key data (some source)
    | none => a
  else
    (a.knownAt source).foldl (fun a key => a.incomingPacket π key data (some source)) a

/-! ### Commands -/

/-- A command from a handle or a stream. -/
inductive Command
  | listen (udp : Bool) (port : Port) (result : ReplyId)
  | dialUdp (target : SocketAddr) (result : ReplyId)
  /-- Sent by a datagram stream, with its flow and its token. -/
  | sendUdp (stream : StreamId) (bytes : Bytes) (result : ReplyId)
  | status (result : ReplyId)
  | dial (target : SocketAddr) (result : ReplyId)
  | ping (disco : Bool) (result : ReplyId)
  | drain (result : ReplyId)
  | allow (key : Key)

/-- The ports from `lo` to 65535, in order. -/
def portsFrom (lo : ℕ) : List Port := (List.range' lo (65536 - lo)).map UInt16.ofNat

theorem mem_portsFrom {lo : ℕ} {p : Port} : p ∈ portsFrom lo ↔ lo ≤ p.toNat := by
  have hlt := p.toNat_lt
  unfold portsFrom
  rw [List.mem_map]
  constructor
  · rintro ⟨n, hn, rfl⟩
    rw [List.mem_range'_1] at hn
    rw [UInt16.toNat_ofNat']
    omega
  · intro hle
    refine ⟨p.toNat, ?_, UInt16.ofNat_toNat⟩
    rw [List.mem_range'_1]
    omega

/-- Claim a port, or any free one for port 0. -/
def listenCommand (a : Actor) (udp : Bool) (port : Port) (result : ReplyId) : Actor :=
  let a := a.purgeListeners
  let port : Port := if port = 0 then
    ((portsFrom 49152).find? fun p => (udp, p) ∉ a.listeners).getD 0 else port
  if port = 0 ∨ (udp, port) ∈ a.listeners then
    a.answer result (.failed "port is already in use")
  else
    -- a listener nobody receives is dropped at once
    let claim : Claim := { id := a.listenersIssued, closed := a.isClosed result }
    let a := { a with
      listeners := a.listeners.insert (udp, port) claim
      listenersIssued := a.listenersIssued + 1 }
    a.answer result (.listener claim.id port)

/-- Open a datagram flow to a target, from a free port. -/
def dialUdpCommand (a : Actor) (target : SocketAddr) (result : ReplyId) : Actor :=
  if maxConnections ≤ a.udpFlows.size then a.answer result (.failed "too many UDP flows")
  else
    match (portsFrom 32768).find? fun p =>
      (SocketAddr.new (.v6 a.localAddr) p, target) ∉ a.udpFlows with
    | none => a.answer result (.failed "no UDP ports available")
    | some port =>
      let (stream, a) := a.newUdpFlow (SocketAddr.new (.v6 a.localAddr) port, target)
      -- a stream nobody receives is dropped at once
      let a := if a.isClosed result then a.dropStream stream else a
      a.answer result (.stream stream)

/-- Drop the pings nobody waits for. -/
def dropClosedPings (a : Actor) : Actor :=
  { a with pings := a.pings.filter fun p => !a.isClosed p.result }

/-- Send a ping and let it wait for its answer. -/
def startPing (a : Actor) (ping : PendingPing) : Actor :=
  let sent := a.sendPing π ping
  let a := { sent.2 with pings := sent.2.pings ++ [sent.1] }
  if ping.disco then a.advertise π else a

/-- Ping the server. -/
def pingCommand (a : Actor) (disco : Bool) (result : ReplyId) : Actor :=
  if a.isClosed result then a
  else if maxPendingPings ≤ a.dropClosedPings.pings.length then
    a.dropClosedPings.answer result (.failed "too many pending pings")
  else
    a.dropClosedPings.draw.startPing π
      { started := a.now, sent := a.now, disco, txid := π.txid a.draws, result }

/-- Carry out a command. -/
def command (a : Actor) : Command → Actor
  | .listen udp port result => a.listenCommand udp port result
  | .dialUdp target result => a.dialUdpCommand target result
  | .sendUdp stream bytes result =>
    match a.streams[stream]? with
    | some s => (a.udpOutput π s.flow bytes stream).answer result .sent
    | none => a
  | .status result => a.answer result .status
  | .dial target result => a.dial π target result
  | .ping disco result => a.pingCommand π disco result
  | .drain result => { a with drains := a.drains ++ [result] }
  | .allow key =>
    match a.config with
    | some c =>
      if key ∈ c.allowedClients then a
      else { a with config := some { c with allowedClients := c.allowedClients ++ [key] } }
    | none => a

/-! ### Ticks -/

/-- Something the network stack does when it is polled. -/
inductive PollAction
  /-- A socket takes a step by itself. -/
  | progress (socket : ℕ) (p : Progress)
  /-- The next packet is processed; a SYN may be ignored by the socket that listens for it. -/
  | ingress (ignored : Bool)
  /-- A packet is sent. -/
  | emit (packet : Bytes)

/-- The endpoints of a packet that opens a TCP connection: its destination and its source. -/
def synOf (packet : Bytes) : Option TcpFlow := do
  let ip ← Ipv6Packet.newChecked packet
  if ip.nextHeader ≠ protoTcp then none
  else
    let tcp ← π.parseTcp ip.srcAddr ip.dstAddr ip.payload
    if tcp.opens then some (⟨ip.dstAddr, tcp.dstPort⟩, ⟨ip.srcAddr, tcp.srcPort⟩) else none

/-- One action of the network stack. -/
def pollAction (a : Actor) : PollAction → Actor
  | .progress socket p => { a with sockets := a.sockets.update socket (·.progress p) }
  | .ingress ignored =>
    match a.incoming with
    | [] => a
    | packet :: incoming =>
      let a := { a with incoming }
      match synOf π packet with
      | some (localEnd, remote) =>
        { a with sockets := a.sockets.deliver localEnd remote ignored }
      | none => a
  | .emit packet => { a with outgoing := a.outgoing ++ [packet] }

theorem pollAction_eq (a : Actor) (action : PollAction) :
    a.pollAction π action = { a with
      sockets := (a.pollAction π action).sockets
      incoming := (a.pollAction π action).incoming
      outgoing := (a.pollAction π action).outgoing } := by
  unfold pollAction
  split
  · rfl
  · split
    · rfl
    · dsimp only
      split <;> rfl
  · rfl

/-- Poll the network stack. -/
def ifacePoll (a : Actor) (actions : List PollAction) : Actor := actions.foldl (pollAction π) a

/-- The peer whose tunnel takes a packet. -/
def tunnelFor (a : Actor) (packet : Bytes) : Option Key :=
  a.server.or (a.peers.keys.find? fun key => (tcAddrForKey key).1 = slice packet 24 40)

/-- Send a packet of the network stack through the tunnel of its destination. -/
def egress (a : Actor) (packet : Bytes) : Actor :=
  if packet.length < 40 then a
  else
    match a.tunnelFor packet with
    | none => a
    | some key =>
      let a' := a.draw.act (.encapsulate key packet)
      match π.encapsulate a.draws key packet with
      | some b => a'.sendPacket π key b
      | none => a'

/-- Send everything the network stack has produced. -/
def drainOutgoing (a : Actor) : Actor :=
  a.outgoing.foldl (egress π) { a with outgoing := [] }

/-- Let the tunnel of a peer do what is due. -/
def tunnelTimer (a : Actor) (key : Key) : Actor :=
  match π.updateTimers a.draws key with
  | some b => a.draw.sendPacket π key b
  | none => a.draw

/-- Repeat a ping that is due, and drop one that is too old or that nobody waits for. -/
def pingTimer (a : Actor) (p : PendingPing) : Actor :=
  if a.isClosed p.result then a
  else if 10000 < a.now - p.started then a.answer p.result (.failed "ping timed out")
  else
    let (p, a) := if 1000 ≤ a.now - p.sent then a.sendPing π p else (p, a)
    { a with pings := a.pings ++ [p] }

/-- Do what is due every 250 milliseconds. -/
def timers (a : Actor) : Actor :=
  if 250 ≤ a.now - a.lastTimers then
    let a := { a with lastTimers := a.now }
    let a := a.peers.keys.foldl (tunnelTimer π) a
    let pending := a.pings
    let a := pending.foldl (pingTimer π) { a with pings := [] }
    { a with probes := a.probes.retain fun _ probe => a.now - probe.sent < probeTimeout }
  else a

/-- Announce the own endpoints every five seconds. -/
def advertiseTimer (a : Actor) : Actor :=
  if 5000 < a.now - a.lastAdvertise then a.advertise π else a

/-- Nothing is left to send. -/
def drained (a : Actor) : Bool :=
  a.links.all (fun link => (a.sockets.get link.socket).all fun s =>
    s.state = .closed || s.state = .timeWait || s.state = .finWait2) && a.outgoing.isEmpty

/-- Answer the drains once nothing is left to send. -/
def drainTimer (a : Actor) : Actor :=
  if a.drains ≠ [] ∧ a.drained then
    a.drains.foldl (fun a result => a.answer result .drained) { a with drains := [] }
  else a

/-- One tick, during which the network stack is polled twice. -/
def tick (a : Actor) (first second : List PollAction) : Actor :=
  let a := a.expireUdp
  let a := (a.ifacePoll π first).pollLinks π
  let a := (a.ifacePoll π second).drainOutgoing π
  ((a.timers π).advertiseTimer π).drainTimer

/-! ### Events -/

/-- Something that happens to the actor or to what it shares. -/
inductive Event
  /-- Time passes. -/
  | elapse (d : ℕ)
  | command (c : Command)
  /-- A packet of an authenticated sender arrives from the relay. -/
  | relayed (key : Key) (data : Bytes)
  /-- A datagram arrives. -/
  | datagram (source : SocketAddr) (data : Bytes)
  | tick (first second : List PollAction)
  /-- The application uses its end of a pipe. -/
  | app (pipe : PipeId) (op : AppOp)
  /-- A datagram is read from a stream. -/
  | recv (stream : StreamId)
  /-- The handle of a datagram stream is dropped. -/
  | dropStream (stream : StreamId)
  /-- A listener is dropped. -/
  | dropListener (id : ℕ)
  /-- The receiver of an answer is dropped. -/
  | dropReply (result : ReplyId)
  /-- The table of peers changes its order of iteration. -/
  | reorder (peers : Table Key Peer)

/-- The application holds its end of a pipe. -/
def appHolds (a : Actor) (pipe : PipeId) : Bool :=
  !a.links.any fun link => link.app && link.pipe = pipe

/-- Drop a listener: the claim of its port is closed. -/
def dropListener (a : Actor) (id : ℕ) : Actor :=
  { a with listeners := a.listeners.entries.foldl (fun listeners e =>
      listeners.adjust e.1 fun claim => if claim.id = id then { claim with closed := true }
        else claim) a.listeners }

/-- One event. -/
def step (a : Actor) : Event → Actor
  | .elapse d => { a with now := a.now + d }
  | .command c => a.command π c
  | .relayed key data => a.incomingPacket π key data none
  | .datagram source data => a.udpPacket π data source
  | .tick first second => a.tick π first second
  | .app pipe op =>
    if a.appHolds pipe then { a with pipes := a.pipes.modify pipe (·.app op) } else a
  | .recv stream =>
    { a with streams := a.streams.modify stream fun s => { s with queue := s.queue.tail } }
  | .dropStream stream => a.dropStream stream
  | .dropListener id => a.dropListener id
  | .dropReply result => { a with closedReplies := result :: a.closedReplies }
  | .reorder peers => if peers.entries.Perm a.peers.entries then { a with peers } else a

/-- The state after some events. -/
abbrev run (a : Actor) (es : List Event) : Actor := Transition.run (step π) a es

/-! ### Start -/

/-- What an actor is started with. -/
structure Setup where
  key : PrivateKey
  regionId : Int64 := 0
  config : Option ServerConfig
  /-- The server's key and disco key, for a client. -/
  server : Option (Key × Key)
  /-- The addresses of the interfaces. -/
  interfaces : List IpAddr := []
  /-- The port of the UDP sockets. -/
  port : Port
  udp6 : Bool := false
  stunTxid : TxId
  now : ℕ

/-- The own address of an interface can be announced. -/
def announces (udp6 : Bool) (ip : IpAddr) : Bool :=
  !ip.isUnspecified && !ip.isMulticast &&
    match ip with
    | .v4 _ => true
    | .v6 ip => udp6 && !isUnicastLinkLocal ip

/-- The state an actor starts in. -/
def init (s : Setup) : Actor :=
  let a : Actor := {
    key := s.key
    localAddr := tcAddrForKey s.key.pub
    regionId := s.regionId
    config := s.config
    server := s.server.map (·.1)
    udp6 := s.udp6
    endpoints := rememberAll ((s.interfaces.filter (announces s.udp6)).map (.new · s.port))
    lastTimers := s.now
    lastAdvertise := s.now - 60000
    stunTxid := s.stunTxid
    now := s.now }
  match s.server with
  | some (key, disco) => a.addPeer key disco
  | none => a

/-- The states an actor started with `s` can reach. -/
def Reachable (s : Setup) (a : Actor) : Prop := ∃ es, a = run π (init s) es

end Actor

end Tailcat.Runtime
