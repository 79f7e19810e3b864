import Tailcat.Derp.WebSocket
import Tailcat.Runtime.Step

/-!
# The engine of the browser

In a browser one `Engine` runs the tunnels and the network stack over a WebSocket to the relay, and
the connections are polled by the page.  A connection is known to the page by the handle of its
socket and a generation: handles are used again, generations are not.

The network stack, the tunnels and the boxes are those of the native program (`Platform`).  The calls
that would throw an exception, because a socket or a link is not there, are `none` here.

The page, the messages of the relay and a timer call the engine, and each call runs to its end
before the next one.  What the page can do with a handle, also long after the connection was closed,
is an event; `Browser.Handles` shows that none of them reaches another connection.
-/

namespace Tailcat.Browser

open Tailcat.Net Tailcat.Runtime

/-! ### State -/

/-- A connection of the engine. -/
structure Link where
  generation : ℕ
  flow : TcpFlow
  port : Port
  /-- The page was told of it. -/
  notified : Bool
  /-- The page has closed it in both directions. -/
  appClosed : Bool := false
  created : ℕ
  deriving DecidableEq

/-- A connection of the page. -/
structure BrowserConn where
  handle : ℕ
  generation : ℕ
  port : Port
  /-- A read is in progress. -/
  reading : Bool := false
  /-- The bytes not sent yet of the write in progress. -/
  writing : Option Bytes := none
  deriving DecidableEq

/-- A dial of the page that waits for its connection. -/
structure Dialing where
  handle : ℕ
  generation : ℕ
  port : Port
  started : ℕ
  ended : Bool := false
  deriving DecidableEq

/-- The result of a call of the page. -/
inductive Answer
  | null
  | bytes (b : Bytes)
  | done
  | connected (conn : ℕ)
  | failed (error : String)
  deriving DecidableEq

/-- Something the engine has done. -/
inductive Act
  /-- A frame was sent to the relay. -/
  | frame (kind : UInt8) (body : Bytes)
  /-- A socket was created, together with a link. -/
  | opened (handle generation socket : ℕ)
  /-- A call on a connection has ended. -/
  | answer (conn : ℕ) (x : Answer)
  /-- A dial has ended; it has no number if it was refused at once. -/
  | dialled (dial : Option ℕ) (x : Answer)
  /-- The page's callback was called with a connection. -/
  | accepted (conn : ℕ)
  deriving DecidableEq

/-- The state of the engine and of what the page holds of it. -/
structure Engine where
  key : PrivateKey
  localAddr : Ipv6Addr
  /-- The server, for a client. -/
  server : Option Key
  /-- There is a callback for accepted connections. -/
  onConnection : Bool
  ws : Derp.Ws := .empty
  /-- The disco keys of the peers. -/
  peers : Table Key Key := ∅
  incoming : List Bytes := []
  outgoing : List Bytes := []
  sockets : SocketSet := ∅
  links : Table ℕ Link := ∅
  meowed : Bool := false
  closed : Bool := false
  closeWhenDrained : Bool := false
  drainedAt : Option ℕ := none
  lastTimers : ℕ
  lastMeow : ℕ
  lastHeartbeat : ℕ
  nextPort : Port := 32768
  /-- Counts one for each connection; 64 bits in the program. -/
  nextGeneration : ℕ := 1
  /-- The clock, in milliseconds. -/
  now : ℕ
  /-- The number of outcomes drawn from the platform. -/
  draws : ℕ := 0
  /-- The number of sockets created. -/
  issued : ℕ := 0
  conns : List BrowserConn := []
  dials : List Dialing := []
  trace : List Act := []

/-- The most packets that wait on either side of the network stack. -/
def maxQueued : ℕ := 256

namespace Engine

variable (π : Platform)

/-- Record something done. -/
def act (e : Engine) (x : Act) : Engine := { e with trace := e.trace ++ [x] }

/-- Draw an outcome from the platform. -/
def draw (e : Engine) : Engine := { e with draws := e.draws + 1 }

/-- Send a frame, if the relay is connected and its queue has room. -/
def send (e : Engine) (kind : UInt8) (body : Bytes) : Engine :=
  if !e.ws.closed && π.relayRoom e.draws then e.draw.act (.frame kind body) else e.draw

/-- Send a packet to a peer through the relay. -/
def packet (e : Engine) (key : Key) (b : Bytes) : Engine := e.send π 4 (key.1 ++ b)

/-- Add a peer, once. -/
def addPeer (e : Engine) (key disco : Key) : Engine :=
  if key ∈ e.peers ∨ maxPeers ≤ e.peers.size ∨ key = Key.zero ∨ disco = Key.zero then e
  else { e with peers := e.peers.insert key disco }

/-! ### Connections -/

/-- The connection at a handle is still the one with this generation. -/
def liveHandle (e : Engine) (handle generation : ℕ) : Bool :=
  (e.links.lookup handle).any fun link => link.generation = generation

/-- A new socket. -/
def tcpSocket (e : Engine) : Socket := { id := e.issued }

/-- Add a socket and a link for it; the handle, and the state after. -/
def addLink (e : Engine) (socket : Socket) (flow : TcpFlow) (port : Port) (notified : Bool) :
    ℕ × Engine :=
  let (handle, sockets) := e.sockets.add socket
  let link : Link := {
    generation := e.nextGeneration, flow, port, notified, created := e.now }
  (handle, { e with
    sockets
    issued := e.issued + 1
    nextGeneration := e.nextGeneration + 1
    links := e.links.insert handle link }.act (.opened handle e.nextGeneration socket.id))

/-- Dial a connection; its handle and its generation, and the state after. -/
def dial (e : Engine) (destination : Ipv6Addr) (port : Port) :
    Except String (ℕ × ℕ) × Engine :=
  if maxConnections ≤ e.links.size then (.error "too many TCP connections", e)
  else
    let flow : TcpFlow := (⟨e.localAddr, e.nextPort⟩, ⟨destination, port⟩)
    match e.tcpSocket.connect flow.2 flow.1 with
    | none => (.error "TCP dial: Unaddressable", e)
    | some socket =>
      let e := { e with nextPort := if e.nextPort = 65535 then 32768 else e.nextPort + 1 }
      let added := e.addLink socket flow port true
      (.ok (added.1, e.nextGeneration), added.2)

/-- There is a link of a flow whose socket is not closed. -/
def duplicate (e : Engine) (flow : TcpFlow) : Option Bool :=
  e.links.entries.anyM fun entry =>
    if entry.2.flow = flow then
      (e.sockets.get entry.1).map fun socket => decide (socket.state ≠ .closed)
    else some false

/-- Open a link for a SYN, unless there is one for its flow, or there are too many. -/
def openSyn (e : Engine) (flow : TcpFlow) : Option Engine := do
  let duplicate ← e.duplicate flow
  if !duplicate ∧ e.links.size < maxConnections then
    match e.tcpSocket.listen ⟨e.localAddr, flow.1.port⟩ with
    | some socket => return (e.addLink socket flow flow.1.port false).2
    | none => return e
  else return e

/-- Give a packet to the network stack, unless its queue is full. -/
def pushIncoming (e : Engine) (packet : Bytes) : Engine :=
  if e.incoming.length < maxQueued then { e with incoming := e.incoming ++ [packet] } else e

/-- Process a packet from the tunnel. -/
def receiveIp (e : Engine) (packet : Bytes) : Option Engine :=
  match Ipv6Packet.newChecked packet with
  | none => some e
  | some ip =>
    if ip.version ≠ 6 ∨ ip.dstAddr ≠ e.localAddr ∨ ip.nextHeader ≠ protoTcp then some e
    else
      match π.parseTcp ip.srcAddr ip.dstAddr ip.payload with
      | none => some e
      | some tcp =>
        if tcp.opens then
          if e.server.isSome then some e
          else do
            let e ← e.openSyn (⟨ip.dstAddr, tcp.dstPort⟩, ⟨ip.srcAddr, tcp.srcPort⟩)
            return e.pushIncoming packet
        else some (e.pushIncoming packet)

/-! ### Packets -/

/-- Process a registration packet. -/
def meowPacket (e : Engine) (source : Key) (data : Bytes) : Engine :=
  if e.server.isNone then
    if 69 ≤ data.length ∧ (meow ++ [1]).isPrefixOf data ∧ slice data 37 69 ≠ Key.zero.1 ∧
        slice data 5 37 = source.1 then
      let e := e.addPeer source (Actor.registeredDisco data)
      if source ∈ e.peers then e.packet π source (meow ++ [2]) else e
    else e
  else if e.server = some source ∧ (meow ++ [2]).isPrefixOf data then { e with meowed := true }
  else e

/-- Answer a ping of a peer. -/
def discoPacket (e : Engine) (source : Key) (data : Bytes) : Engine :=
  match e.peers.lookup source with
  | none => e
  | some disco =>
    if data.length < 78 ∨ slice data 6 38 ≠ disco.1 then e
    else
      match π.decrypt e.key.discoPrivate disco (slice data 38 62) (data.drop 62) with
      | none => e
      | some plaintext =>
        if plaintext.length < 14 ∨ plaintext.getD 0 0 ≠ 1 then e
        else
          let pong := [2, 0] ++ slice plaintext 2 14 ++ List.replicate 18 0
          let nonce := π.nonce e.draws
          match π.encrypt e.key.discoPrivate disco nonce pong with
          | some encrypted =>
            e.draw.packet π source (discoMagic ++ e.key.discoPublic.1 ++ nonce.1 ++ encrypted)
          | none => e.draw

/-- A packet out of a peer's tunnel may be given to the network stack: on a server, its source has to
be the peer's address. -/
def mayReceive (e : Engine) (source : Key) (b : Bytes) : Bool :=
  40 ≤ b.length && (e.server.isSome || slice b 8 24 = (tcAddrForKey source).1)

/-- Write what a tunnel wants written. -/
def tunnelWrite (source : Key) (e : Engine) : TunnResult → Option Engine
  | .writeToNetwork b => some (e.packet π source b)
  | .writeToTunnelV6 b => if e.mayReceive source b then e.receiveIp π b else some e

/-- Process a packet of an authenticated sender. -/
def receive (e : Engine) (source : Key) (data : Bytes) : Option Engine :=
  if meow.isPrefixOf data then some (e.meowPacket π source data)
  else if discoMagic.isPrefixOf data then some (e.discoPacket π source data)
  else if source ∈ e.peers then
    (π.decapsulate e.draws source none data).foldlM (tunnelWrite π source) e.draw
  else some e

/-- Process a frame of the relay. -/
def frame (e : Engine) (kind : UInt8) (body : Bytes) : Option Engine :=
  if h : kind = 5 ∧ 32 ≤ body.length ∧ body.length ≤ 65568 then
    e.receive π ⟨body.take 32, by simp; omega⟩ (body.drop 32)
  else if kind = 0x12 ∧ body.length = 8 then some (e.send π 0x13 body)
  else if kind = 0x15 then some { e with ws := { e.ws with closed := true } }
  else some e

/-- Process up to `n` frames; an oversized one is an error. -/
def frames : ℕ → Engine → Option (Except Derp.DerpError Unit × Engine)
  | 0, e => some (.ok (), e)
  | n + 1, e =>
    match e.ws.nextFrame with
    | (.error err, ws) => some (.error err, { e with ws })
    | (.ok none, ws) => some (.ok (), { e with ws })
    | (.ok (some (kind, body)), ws) => do
      let e ← { e with ws }.frame π kind body
      frames n e

/-! ### Ticks -/

/-- Ask the server for a registration, once a second until it answers. -/
def meowTimer (e : Engine) : Engine :=
  match e.server with
  | some server =>
    if !e.meowed ∧ 1000 < e.now - e.lastMeow then
      { e with lastMeow := e.now }.packet π server
        (meow ++ [1] ++ e.key.pub.1 ++ e.key.discoPublic.1)
    else e
  | none => e

/-- Ping the relay every thirty seconds. -/
def heartbeat (e : Engine) : Engine :=
  if 30000 < e.now - e.lastHeartbeat then
    { e with lastHeartbeat := e.now }.draw.send π 0x12 ((π.txid e.draws).1.take 8)
  else e

/-- One action of the network stack, which waits while too many packets are to be sent. -/
def pollAction (e : Engine) : Actor.PollAction → Engine
  | .progress socket p => { e with sockets := e.sockets.update socket (·.progress p) }
  | .ingress ignored =>
    match e.incoming with
    | [] => e
    | packet :: incoming =>
      if maxQueued ≤ e.outgoing.length then e
      else
        let e := { e with incoming }
        match Actor.synOf π packet with
        | some (localEnd, remote) =>
          { e with sockets := e.sockets.deliver localEnd remote ignored }
        | none => e
  | .emit packet =>
    if e.outgoing.length < maxQueued then { e with outgoing := e.outgoing ++ [packet] } else e

/-- Send a packet of the network stack through the tunnel of its destination. -/
def egress (e : Engine) (packet : Bytes) : Engine :=
  if packet.length < 40 then e
  else
    match e.server.or (e.peers.keys.find? fun key => (tcAddrForKey key).1 = slice packet 24 40) with
    | none => e
    | some key =>
      match π.encapsulate e.draws key packet with
      | some b => e.draw.packet π key b
      | none => e.draw

/-- Let the tunnel of a peer do what is due. -/
def tunnelTimer (e : Engine) (key : Key) : Engine :=
  match π.updateTimers e.draws key with
  | some b => e.draw.packet π key b
  | none => e.draw

/-- Do what is due every 250 milliseconds. -/
def timers (e : Engine) : Engine :=
  if 250 < e.now - e.lastTimers then
    e.peers.keys.foldl (tunnelTimer π) { e with lastTimers := e.now }
  else e

/-- A connection the page is to be told of: its handle, its generation and its port. -/
abbrev Accepted := ℕ × ℕ × Port

/-- What a tick does to a link and its socket, and whether the page is to be told of it. -/
def visit (now contiguous : ℕ) (link : Link) (socket : Socket) : Link × Socket × Bool :=
  let socket :=
    if link.appClosed ∧ socket.canRecv then
      socket.consume (1 + contiguous % socket.rx.pending.length)
    else socket
  let accepts := !link.notified && (socket.state = .established || socket.state = .closeWait)
  let link := if accepts then { link with notified := true } else link
  if !link.notified ∧ 60000 < now - link.created then
    ({ link with appClosed := true }, socket.abort, accepts)
  else (link, socket, accepts)

/-- Put a link back after its visit, and note whether it is accepted and whether it is over. -/
def afterVisit (visited : List Accepted × List ℕ × Engine) (handle : ℕ)
    (v : Link × Socket × Bool) : List Accepted × List ℕ × Engine :=
  let (accepted, removed, e) := visited
  let (link, socket, accepts) := v
  (if accepts then accepted ++ [(handle, link.generation, link.port)] else accepted,
    if socket.state = .closed ∧ socket.rx.pending.length = 0 then removed ++ [handle] else removed,
    { e.draw with
      links := e.links.adjust handle fun _ => link
      sockets := e.sockets.update handle fun _ => socket })

/-- Visit one link. -/
def visitLink (visited : List Accepted × List ℕ × Engine) (entry : (_ : ℕ) × Link) :
    Option (List Accepted × List ℕ × Engine) := do
  let e := visited.2.2
  let socket ← e.sockets.get entry.1
  return afterVisit visited entry.1 (visit e.now (π.contiguous e.draws) entry.2 socket)

/-- Remove a link and its socket. -/
def removeLink (e : Engine) (handle : ℕ) : Option Engine := do
  let _ ← e.sockets.get handle
  return { e with links := e.links.erase handle, sockets := e.sockets.remove handle }

/-- Visit all links and remove those that are over. -/
def visitLinks (e : Engine) : Option (List Accepted × Engine) := do
  let (accepted, removed, e) ← e.links.entries.foldlM (visitLink π) ([], [], e)
  let e ← removed.foldlM removeLink e
  return (accepted, e)

/-- Abort a socket that is there. -/
def abortSocket (e : Engine) (handle : ℕ) : Option Engine := do
  let _ ← e.sockets.get handle
  return { e with sockets := e.sockets.update handle (·.abort) }

/-- Close the engine. -/
def close (e : Engine) : Option Engine := do
  let e ← e.links.keys.foldlM abortSocket
    { e with closed := true, ws := { e.ws with closed := true } }
  return { e with
    links := ∅, sockets := ∅, peers := ∅, incoming := [], outgoing := []
    ws := { e.ws with bytes := [] } }

/-- Nothing is left to send. -/
def drained (e : Engine) : Option Bool :=
  e.links.keys.allM fun handle => (e.sockets.get handle).map fun socket =>
    decide (socket.state = .closed ∨ socket.state = .timeWait ∨ socket.state = .finWait2)

/-- Close the engine a tenth of a second after nothing was left to send, if that is wanted. -/
def closeDrained (e : Engine) : Option Engine :=
  if e.closeWhenDrained then do
    let drained ← e.drained
    if drained then
      let since := e.drainedAt.getD e.now
      let e := { e with drainedAt := some since }
      if 100 < e.now - since then e.close else return e
    else return e
  else some e

/-- One tick: the connections accepted, or an error. -/
def tick (e : Engine) (actions : List Actor.PollAction) :
    Option (Except Derp.DerpError (List Accepted) × Engine) := do
  let (result, e) ← e.frames π 512
  match result with
  | .error err => return (.error err, e)
  | .ok () =>
    let e := actions.foldl (pollAction π) ((e.meowTimer π).heartbeat π)
    let e := (e.outgoing.foldl (egress π) { e with outgoing := [] }).timers π
    let (accepted, e) ← e.visitLinks π
    let e ← e.closeDrained
    return (.ok accepted, e)

/-! ### Calls of the page -/

/-- Replace the record of a connection. -/
def setConn (e : Engine) (i : ℕ) (conn : BrowserConn) : Engine :=
  { e with conns := e.conns.set i conn }

/-- The connection is still there. -/
def live (e : Engine) (conn : BrowserConn) : Bool :=
  !e.closed && e.liveHandle conn.handle conn.generation

/-- One round of a read: its result, if it has one. -/
def readOnce (e : Engine) (conn : BrowserConn) : Option (Option Answer × Engine) :=
  if !e.live conn then some (some .null, e)
  else do
    let socket ← e.sockets.get conn.handle
    if socket.canRecv then
      let data := socket.rx.pending.take 65536
      return (some (.bytes data),
        { e with sockets := e.sockets.update conn.handle (·.consume data.length) })
    else if !socket.mayRecv then return (some .null, e)
    else return (none, e)

/-- Go on with a read. -/
def resumeRead (e : Engine) (i : ℕ) : Option Engine :=
  match e.conns[i]? with
  | some conn =>
    if conn.reading then do
      let (result, e) ← e.readOnce conn
      match result with
      | some x => return (e.setConn i { conn with reading := false }).act (.answer i x)
      | none => return e
    else some e
  | none => some e

/-- Begin a read. -/
def read (e : Engine) (i : ℕ) : Option Engine :=
  match e.conns[i]? with
  | some conn =>
    if conn.reading then
      some (e.act (.answer i (.failed "concurrent reads are unsupported")))
    else (e.setConn i { conn with reading := true }).resumeRead i
  | none => some e

/-- One round of a write: what is left of it, or its result. -/
def writeOnce (e : Engine) (conn : BrowserConn) (data : Bytes) :
    Option ((Bytes ⊕ Answer) × Engine) :=
  if data = [] then some (.inr .done, e)
  else if !e.live conn then some (.inr (.failed "connection is closed"), e)
  else do
    let socket ← e.sockets.get conn.handle
    if !socket.maySend then return (.inr (.failed "connection write side is closed"), e)
    else if socket.canSend then
      let rest := data.drop (bufferSize - socket.sendQueue)
      let e := { e with sockets := e.sockets.update conn.handle (·.sendSlice data) }
      return (if rest = [] then .inr .done else .inl rest, e)
    else return (.inl data, e)

/-- Go on with a write. -/
def resumeWrite (e : Engine) (i : ℕ) : Option Engine :=
  match e.conns[i]? with
  | some conn =>
    match conn.writing with
    | some data => do
      let (result, e) ← e.writeOnce conn data
      match result with
      | .inr x => return (e.setConn i { conn with writing := none }).act (.answer i x)
      | .inl rest => return e.setConn i { conn with writing := some rest }
    | none => some e
  | none => some e

/-- Begin a write. -/
def write (e : Engine) (i : ℕ) (data : Bytes) : Option Engine :=
  match e.conns[i]? with
  | some conn =>
    if conn.writing.isSome then
      some (e.act (.answer i (.failed "concurrent writes are unsupported")))
    else (e.setConn i { conn with writing := some data }).resumeWrite i
  | none => some e

/-- Close the socket of a connection that is there. -/
def closeSocket (e : Engine) (handle : ℕ) : Option Engine := do
  let _ ← e.sockets.get handle
  return { e with sockets := e.sockets.update handle (·.close) }

/-- End the writes of a connection. -/
def closeWrite (e : Engine) (i : ℕ) : Option Engine :=
  match e.conns[i]? with
  | some conn =>
    if conn.writing.isSome then
      some (e.act (.answer i (.failed "write must finish before closeWrite")))
    else if e.live conn then do
      let e ← e.closeSocket conn.handle
      return e.act (.answer i .done)
    else some (e.act (.answer i .done))
  | none => some e

/-- The page has closed the connection at a handle. -/
def markClosed (e : Engine) (handle : ℕ) : Engine :=
  { e with links := e.links.adjust handle fun link => { link with appClosed := true } }

/-- Close a connection. -/
def closeConn (e : Engine) (i : ℕ) : Option Engine :=
  match e.conns[i]? with
  | some conn =>
    if e.live conn then do
      let e ← e.closeSocket conn.handle
      let _ ← e.links.lookup conn.handle
      let e := e.markClosed conn.handle
      return if e.server.isSome then { e with closeWhenDrained := true } else e
    else some e
  | none => some e

/-- Begin a dial. -/
def dialConn (e : Engine) (destination : Ipv6Addr) (port : Port) : Engine :=
  let dialled := e.dial destination port
  match dialled.1 with
  | .ok (handle, generation) =>
    let e := dialled.2
    { e with dials := e.dials ++ [{ handle, generation, port, started := e.now }] }
  | .error err => dialled.2.act (.dialled none (.failed err))

/-- End a dial. -/
def endDial (e : Engine) (i : ℕ) (d : Dialing) (x : Answer) : Engine :=
  { e with dials := e.dials.set i { d with ended := true } }.act (.dialled (some i) x)

/-- Go on with a dial: its connection may be established, or over, or late. -/
def resumeDial (e : Engine) (i : ℕ) : Option Engine :=
  match e.dials[i]? with
  | some d =>
    if d.ended then some e
    else if e.closed || !e.liveHandle d.handle d.generation then
      some (e.endDial i d (.failed "connection closed"))
    else do
      let socket ← e.sockets.get d.handle
      if socket.state = .established ∨ socket.state = .closeWait then
        let conn := { handle := d.handle, generation := d.generation, port := d.port }
        return { e with conns := e.conns ++ [conn] }.endDial i d (.connected e.conns.length)
      else if socket.state = .closed then do
        let e ← e.close
        return e.endDial i d (.failed "TCP connection refused")
      else if 60000 < e.now - d.started then do
        let e ← e.close
        return e.endDial i d (.failed "TCP connection timed out")
      else return e
  | none => some e

/-! ### The loop of the engine -/

/-- What the page does at once when it is called. -/
inductive PageOp
  | closeConn (i : ℕ)
  | closeEngine

/-- What the page does when it is told of a connection; it may fail. -/
structure Callback where
  ops : List PageOp := []
  throws : Bool := false

/-- Something the page does at once. -/
def pageOp (e : Engine) : PageOp → Option Engine
  | .closeConn i => e.closeConn i
  | .closeEngine => e.close

/-- Close the connection whose callback has failed. -/
def callbackFailed (e : Engine) (handle : ℕ) : Option Engine :=
  match e.links.lookup handle with
  | some _ => (e.markClosed handle).closeSocket handle
  | none => some e

/-- Give the page a connection. -/
def giveConn (e : Engine) (handle generation : ℕ) (port : Port) : Engine :=
  let conn : BrowserConn := { handle, generation, port }
  { e with conns := e.conns ++ [conn] }.act (.accepted e.conns.length)

/-- Tell the page of a connection, if it is still there. -/
def notify (e : Engine) (accepted : Accepted × Callback) : Option Engine :=
  let ((handle, generation, port), callback) := accepted
  if !e.liveHandle handle generation then some e
  else do
    let e ← callback.ops.foldlM pageOp (e.giveConn handle generation port)
    if callback.throws then e.callbackFailed handle else return e

/-- One round of the loop of the engine, unless it is closed or its relay is not connected. -/
def round (e : Engine) (actions : List Actor.PollAction) (callbacks : ℕ → Callback) :
    Option Engine :=
  if e.closed || e.ws.closed then some e
  else do
    let (result, e) ← e.tick π actions
    match result with
    | .ok accepted =>
      if e.onConnection then
        (accepted.zipIdx.map fun (x, i) => (x, callbacks i)).foldlM notify e
      else return e
    | .error _ => e.close

/-! ### Events -/

/-- Something that happens to the engine. -/
inductive Event
  /-- Time passes. -/
  | elapse (d : ℕ)
  /-- A WebSocket message arrives. -/
  | message (data : Bytes)
  /-- The WebSocket is closed. -/
  | disconnected
  /-- A new WebSocket is connected; some bytes may have arrived. -/
  | reconnected (bytes : Bytes)
  | round (actions : List Actor.PollAction) (callbacks : ℕ → Callback)
  | dial (destination : Ipv6Addr) (port : Port)
  | resumeDial (i : ℕ)
  | read (i : ℕ)
  | resumeRead (i : ℕ)
  | write (i : ℕ) (data : Bytes)
  | resumeWrite (i : ℕ)
  | closeWrite (i : ℕ)
  | closeConn (i : ℕ)
  | closeEngine
  /-- The tables change their order of iteration. -/
  | reorder (links : Table ℕ Link) (peers : Table Key Key)

/-- One event. -/
def step (e : Engine) : Event → Option Engine
  | .elapse d => some { e with now := e.now + d }
  | .message data => some { e with ws := e.ws.onMessage data }
  | .disconnected => some { e with ws := { e.ws with closed := true } }
  | .reconnected bytes =>
    some (if e.closed || !e.ws.closed then e
      else { e with ws := ⟨bytes, false⟩, meowed := false })
  | .round actions callbacks => e.round π actions callbacks
  | .dial destination port => some (e.dialConn destination port)
  | .resumeDial i => e.resumeDial i
  | .read i => e.read i
  | .resumeRead i => e.resumeRead i
  | .write i data => e.write i data
  | .resumeWrite i => e.resumeWrite i
  | .closeWrite i => e.closeWrite i
  | .closeConn i => e.closeConn i
  | .closeEngine => e.close
  | .reorder links peers =>
    some (if links.entries.Perm e.links.entries ∧ peers.entries.Perm e.peers.entries then
      { e with links, peers } else e)

/-- The state after some events, if no call fails. -/
abbrev run (e : Engine) (es : List Event) : Option Engine := Transition.runM (step π) e es

/-- What an engine is started with. -/
structure Setup where
  key : PrivateKey
  /-- The server's key and disco key, for a client. -/
  server : Option (Key × Key)
  onConnection : Bool
  now : ℕ

/-- The state an engine starts in. -/
def init (s : Setup) : Engine :=
  let e : Engine := {
    key := s.key
    localAddr := tcAddrForKey s.key.pub
    server := s.server.map (·.1)
    onConnection := s.onConnection
    lastTimers := s.now
    lastMeow := s.now
    lastHeartbeat := s.now
    now := s.now }
  match s.server with
  | some (key, disco) => e.addPeer key disco
  | none => e

end Engine

end Tailcat.Browser
