import Tailcat.Runtime.Datagram
import Tailcat.Runtime.Discovery
import Tailcat.Lib.Vec

/-!
# TCP connections

A link ties a socket of the network stack to a pipe of the application.  `receiveIp` opens one for
a SYN that something answers, `dial` one for the application; `pollLinks` moves bytes between the
two, hands connections over, and removes the links whose connection is over.

A round of a link (`Conn.poll`) has the order of the source: the connection is handed over once it
is established (`handOver`), or given up after twenty seconds (`giveUp`); then bytes go from the
application's pipe to the socket, a chunk at a time, and the end of them closes the socket
(`upload`), and from the socket to the pipe (`download`); then the pipe is shut when nothing more
will arrive (`finish`), and a dial that still waits for a connection that is over is answered
(`refuse`).  The functions are on one connection with its surroundings, so that what one round does
can be said without the actor around it.

All links have their round first, in the order of the vector (`pollRounds`).  Those that are over
are removed afterwards, from the last one on, because a removal lets the last link take the place of
the removed one.

The module has definitions and the facts that the rounds change nothing but links, sockets and
pipes; the properties of connections are in `Runtime.Wiring`, `Runtime.Fidelity` and
`Runtime.Answers`.
-/

namespace Tailcat.Runtime

open Net

/-! ### One connection -/

/-- A link with its socket and its pipe, and what was done for it. -/
structure Conn where
  link : Link
  socket : Socket
  pipe : Pipe
  acts : List Act := []

/-- What `poll_links` looks at besides the connection. -/
structure Surroundings where
  now : ℕ
  /-- The keys of the peers, in the order of iteration. -/
  peers : List Key
  closedReplies : List ReplyId
  /-- The pipe may be polled for reading and for writing. -/
  readReady : Bool
  writeReady : Bool
  /-- Where the socket's buffer wraps. -/
  contiguous : ℕ

/-- The longest a connection may take to be established. -/
def connectTimeout : ℕ := 20000

/-- The most bytes moved to the socket at once. -/
def chunkSize : ℕ := 16384

namespace Conn

variable (w : Surroundings)

/-- The metadata of the connection, by the flow its link was opened for. -/
def info (c : Conn) : ConnectionInfo where
  peerKey := (w.peers.find? fun key => tcAddrForKey key = c.link.flow.2.addr).getD Key.zero
  localAddr := .new (.v6 c.link.flow.1.addr) c.link.flow.1.port
  remoteAddr := .new (.v6 c.link.flow.2.addr) c.link.flow.2.port

/-- Hand an established connection to the dial or the handler that waits for it. -/
def handOver (c : Conn) : Conn :=
  if (c.socket.state = .established ∨ c.socket.state = .closeWait) ∧ c.link.app then
    let c := { c with link := { c.link with app := false } }
    match c.link.connected, c.link.handler with
    | some result, _ =>
      let c := { c with link := { c.link with connected := none } }
      if result ∈ w.closedReplies then
        { c with socket := c.socket.abort, pipe := c.pipe.dropApp }
      else { c with acts := c.acts ++ [.answer result (.connected c.link.pipe)] }
    | none, some handler =>
      { c with
        link := { c.link with handler := none }
        acts := c.acts ++ [.serve handler c.link.pipe (c.info w) c.socket.tuple] }
    | none, none => { c with pipe := c.pipe.dropApp }
  else c

/-- Abort a connection nobody waits for any more, or that takes too long to be established. -/
def giveUp (c : Conn) : Conn :=
  let c := if c.link.connected.any (· ∈ w.closedReplies) then { c with socket := c.socket.abort }
    else c
  if c.link.app ∧ connectTimeout < w.now - c.link.started then { c with socket := c.socket.abort }
  else c

/-- Move bytes from the application to the socket; the end of them closes the socket. -/
def upload (c : Conn) : Conn :=
  if c.socket.canSend ∧ !c.link.writeClosed ∧ !c.link.app ∧ w.readReady then
    let available := min (bufferSize - c.socket.sendQueue) chunkSize
    match c.pipe.up.pollRead available with
    | (.ready [], up) =>
      { c with
        pipe := { c.pipe with up }
        link := { c.link with writeClosed := true }
        socket := c.socket.close }
    | (.ready data, up) =>
      { c with pipe := { c.pipe with up }, socket := c.socket.sendSlice data }
    | (.broken, up) => { c with pipe := { c.pipe with up }, socket := c.socket.abort }
    | (.pending, up) => { c with pipe := { c.pipe with up } }
  else c

/-- The bytes the socket offers at once: a non-empty part of those not read. -/
def offered (c : Conn) : Bytes :=
  c.socket.rx.pending.take (1 + w.contiguous % c.socket.rx.pending.length)

/-- Move bytes from the socket to the application; they are discarded if it has dropped its end. -/
def download (c : Conn) : Conn :=
  if c.socket.canRecv ∧ !c.link.app ∧ w.writeReady then
    let data := c.offered w
    match c.pipe.down.pollWrite data with
    | (.ready n, down) => { c with pipe := { c.pipe with down }, socket := c.socket.consume n }
    | (.broken, down) =>
      { c with
        pipe := { c.pipe with down }
        link := { c.link with readClosed := true }
        socket := c.socket.consume data.length }
    | (.pending, down) => { c with pipe := { c.pipe with down } }
  else c

/-- Tell the application that nothing more will arrive. -/
def finish (c : Conn) : Conn :=
  if !c.socket.mayRecv ∧ !c.link.readClosed ∧ !c.link.app then
    { c with
      pipe := { c.pipe with down := c.pipe.down.shut }
      link := { c.link with readClosed := true } }
  else c

/-- The connection is over and everything received was delivered. -/
def isOver (c : Conn) : Bool :=
  c.socket.state = .closed && (!c.socket.canRecv || c.link.readClosed)

/-- Tell a dial that still waits that its connection is over. -/
def refuse (c : Conn) : Conn :=
  match c.link.connected with
  | some result =>
    if c.isOver then
      { c with
        link := { c.link with connected := none }
        acts := c.acts ++ [.answer result (.failed "TCP connection refused or closed")] }
    else c
  | none => c

/-- One round for a connection. -/
def poll (c : Conn) : Conn :=
  (((((c.handOver w).giveUp w).upload w).download w).finish).refuse

end Conn

namespace Actor

variable (π : Platform)

/-! ### All connections -/

/-- A link's socket and pipe. -/
def conn (a : Actor) (link : Link) : Option Conn := do
  let socket ← a.sockets.get link.socket
  let pipe ← a.pipes[link.pipe]?
  return { link, socket, pipe }

/-- The connection of the link at an index. -/
def connAt (a : Actor) (index : ℕ) : Option Conn := a.links[index]?.bind a.conn

/-- What a connection sees of the actor. -/
def surroundings (a : Actor) : Surroundings where
  now := a.now
  peers := a.peers.keys
  closedReplies := a.closedReplies
  readReady := π.pipeReady a.draws
  writeReady := π.pipeReady (a.draws + 1)
  contiguous := π.contiguous (a.draws + 2)

/-- Put a connection back after its round. -/
def putConn (a : Actor) (index : ℕ) (c : Conn) : Actor :=
  { a with
    links := a.links.set index c.link
    sockets := a.sockets.update c.link.socket fun _ => c.socket
    pipes := a.pipes.set c.link.pipe c.pipe
    trace := a.trace ++ c.acts
    draws := a.draws + 3 }

/-- One round for the link at an index; whether the link is to be removed, and the state after. -/
def pollLink (a : Actor) (index : ℕ) : Bool × Actor :=
  match a.connAt index with
  | some c =>
    let c := c.poll (a.surroundings π)
    (c.isOver, a.putConn index c)
  | none => (false, a)

/-- Remove a link, its socket, and its end of the pipe. -/
def removeLink (a : Actor) (index : ℕ) : Actor :=
  match a.connAt index with
  | some c =>
    { a with
      links := swapRemove a.links index
      sockets := a.sockets.remove c.link.socket
      pipes := a.pipes.modify c.link.pipe fun p =>
        if c.link.app then p.dropApp.dropLink else p.dropLink
      trace := a.trace ++ [.remove c.link c.socket] }
  | none => a

/-- The rounds of all links, and the indices of those to be removed. -/
def pollRounds (a : Actor) : List ℕ × Actor :=
  (List.range a.links.length).foldl (fun (remove, a) index =>
    let (ended, a) := a.pollLink π index
    (if ended then remove ++ [index] else remove, a)) ([], a)

/-- One round for every link. -/
def pollLinks (a : Actor) : Actor :=
  let (remove, a) := a.pollRounds π
  remove.reverse.foldl removeLink a

/-- The states differ in their connections and what was done for them. -/
def SameButLinks (a b : Actor) : Prop :=
  b = { a with
    links := b.links, sockets := b.sockets, pipes := b.pipes, trace := b.trace, draws := b.draws }

theorem SameButLinks.trans {a b c : Actor} (h : SameButLinks a b) (h' : SameButLinks b c) :
    SameButLinks a c := by
  unfold SameButLinks at h h' ⊢
  rw [h] at h'
  exact h'

theorem sameButLinks_pollLink (a : Actor) (index : ℕ) : SameButLinks a (a.pollLink π index).2 := by
  unfold pollLink
  split <;> rfl

theorem sameButLinks_removeLink (a : Actor) (index : ℕ) : SameButLinks a (a.removeLink index) := by
  unfold removeLink
  split <;> rfl

theorem sameButLinks_pollLinks (a : Actor) : SameButLinks a (a.pollLinks π) := by
  have hrounds : ∀ (l : List ℕ) (p : List ℕ × Actor), SameButLinks a p.2 →
      SameButLinks a (l.foldl (fun (remove, a) index =>
        let (ended, a) := a.pollLink π index
        (if ended then remove ++ [index] else remove, a)) p).2 := by
    intro l
    induction l with
    | nil => exact fun p hp => hp
    | cons index l ih =>
      exact fun p hp => ih _ (hp.trans (sameButLinks_pollLink π p.2 index))
  have hremove : ∀ (l : List ℕ) (b : Actor), SameButLinks a b →
      SameButLinks a (l.foldl removeLink b) := by
    intro l
    induction l with
    | nil => exact fun b hb => hb
    | cons index l ih => exact fun b hb => ih _ (hb.trans (sameButLinks_removeLink b index))
  exact hremove _ _ (hrounds _ ([], a) rfl)

/-! ### New connections -/

/-- Add a socket and a link for it, with a new pipe. -/
def openLink (a : Actor) (socket : Socket) (flow : TcpFlow) (connected : Option ReplyId)
    (handler : Option Handler) : Actor :=
  let (h, sockets) := a.sockets.add socket
  { a with
    sockets
    pipes := a.pipes ++ [{}]
    links := a.links ++ [{
      socket := h, flow, pipe := a.pipes.length, connected, handler, started := a.now }] }

/-- The handler for a connection to a port of the own address or to a forwarded address. -/
def tcpHandler (a : Actor) (config : ServerConfig) (dest : Ipv6Addr) (port : Port) :
    Option Handler × Actor :=
  match a.liveListener false dest port with
  | some claim => (some (.listener claim.id), a)
  | none =>
    if dest = a.localAddr then
      match config.onTcp with
      | some f => ((f port).map .service, a.act (.onTcp port))
      | none => (none, a)
    else
      match config.onTcpForward with
      | some f =>
        let target := fromIpv6 (.new (.v6 dest) port)
        ((f target).map .service, a.act (.onTcpForward target))
      | none => (none, a)

/-- Open a link for a SYN, unless there is one for its flow, or there are too many. -/
def openSyn (a : Actor) (config : ServerConfig) (dest src : Ipv6Addr) (tcp : TcpRepr) : Actor :=
  let flow : TcpFlow := (⟨dest, tcp.dstPort⟩, ⟨src, tcp.srcPort⟩)
  let duplicate := a.links.any fun link => link.flow = flow
  if !duplicate ∧ a.links.length < maxConnections then
    match a.tcpHandler config dest tcp.dstPort with
    | (some handler, a) =>
      match ({} : Socket).listen ⟨dest, tcp.dstPort⟩ with
      | some socket => a.openLink socket flow none (some handler)
      | none => a
    | (none, a) => a
  else a

/-- The packet filter drops a TCP segment. -/
def filtered (a : Actor) (config : ServerConfig) (dest : Ipv6Addr) (port : Port) : Bool :=
  dest = a.localAddr && (a.liveListener false dest port).isNone &&
    !config.servedTcpPorts.admits port

/-- Give a packet to the network stack. -/
def pushIncoming (a : Actor) (packet : Bytes) : Actor :=
  { a with incoming := a.incoming ++ [packet] }

/-- Process a packet from the tunnel. -/
def receiveIp (a : Actor) (packet : Bytes) : Actor :=
  match Ipv6Packet.newChecked packet with
  | none => a
  | some ip =>
    if ip.version ≠ 6 then a
    else if ip.nextHeader = protoUdp then a.udpInput π ip
    else
      match a.config with
      | none => a.pushIncoming packet
      | some config =>
        let dest := ip.dstAddr
        if ip.nextHeader = protoTcp then
          match π.parseTcp ip.srcAddr dest ip.payload with
          | none => a
          | some tcp =>
            if a.filtered config dest tcp.dstPort then a
            else
              let a := if tcp.opens then a.openSyn config dest ip.srcAddr tcp else a
              a.pushIncoming packet
        else if dest ≠ a.localAddr then a
        else a.pushIncoming packet

/-- The next source port, after the last one the first again. -/
def advancePort (a : Actor) : Actor :=
  { a with nextPort := if a.nextPort = 65535 then 32768 else a.nextPort + 1 }

/-- Dial a connection for a client. -/
def dial (a : Actor) (target : SocketAddr) (result : ReplyId) : Actor :=
  if a.isClosed result then a
  else if maxConnections ≤ a.links.length then a.answer result (.failed "too many connections")
  else
    let source : IpEndpoint := ⟨a.localAddr, a.nextPort⟩
    let target : IpEndpoint := ⟨nat64Addr target.ip, target.port⟩
    match ({} : Socket).connect target source with
    | none => a.advancePort.answer result (.failed "TCP connect: Unaddressable")
    | some socket =>
      (a.advancePort.openLink socket (source, target) (some result) none).advertise π

end Actor

end Tailcat.Runtime
