import Tailcat.Runtime.Actor

/-!
# Datagram flows

A datagram flow is an entry of a table, owned together with the stream that was handed out for it.
The two share a cancellation token: dropping either cancels it.

What is modelled is `datagram.rs`: the queue of a stream, which holds 32 datagrams and drops the
others, the two ways in which a flow comes about (a datagram for a live listener or for a handler of
the server, and a flow the application dials), the idle timeout, and the removal of flows whose
token was cancelled.

Besides the functions the module has one equation for each of them that says which fields it leaves
alone (`deliver_eq`, `expireUdp_eq` and so on).  Later modules rewrite with these and unfold no
function.  Who may open a flow, and what reaches whom, is shown in `Runtime.Flows` and
`Runtime.Isolation`.
-/

namespace Tailcat.Runtime

open Net

/-- The datagrams a stream holds for its reader. -/
def streamQueue : ℕ := 32

/-- An IPv6 packet with a UDP datagram. -/
def datagramPacket (π : Platform) (flow : UdpFlowKey) (bytes : Bytes) : Bytes :=
  let src := nat64Addr flow.1.ip
  let dst := nat64Addr flow.2.ip
  let len := beBytes16 (8 + bytes.length)
  let udp := fun checksum => beBytes16 flow.1.port.toNat ++ beBytes16 flow.2.port.toNat ++ len ++
    beBytes16 checksum ++ bytes
  [0x60, 0, 0, 0] ++ len ++ [protoUdp, 64] ++ src.1 ++ dst.1 ++ udp (π.udpChecksum src dst (udp 0))

namespace Actor

/-! ### Streams -/

/-- The token of a stream is cancelled. -/
def isCancelled (a : Actor) (id : StreamId) : Bool := (a.streams[id]?).any (·.cancelled)

/-- The handle of a stream was dropped. -/
def isDropped (a : Actor) (id : StreamId) : Bool := (a.streams[id]?).any (·.dropped)

/-- Cancel the token of a stream. -/
def cancel (a : Actor) (id : StreamId) : Actor :=
  { a with streams := a.streams.modify id fun s => { s with cancelled := true } }

/-- Drop the handle of a stream, which cancels its token. -/
def dropStream (a : Actor) (id : StreamId) : Actor :=
  { a with streams := a.streams.modify id fun s => { s with cancelled := true, dropped := true } }

/-- Create a flow with a stream of its own; an entry it replaces is dropped. -/
def newUdpFlow (a : Actor) (flow : UdpFlowKey) : StreamId × Actor :=
  let id := a.streams.length
  let a := match a.udpFlows.lookup flow with
    | some old => a.cancel old.stream
    | none => a
  (id, { a with
    udpFlows := a.udpFlows.insert flow { stream := id, touched := a.now }
    streams := a.streams ++ [{ flow := flow }] })

variable (π : Platform)

/-! ### Datagrams from the tunnel -/

/-- The handler the configuration has for a new flow. -/
def udpHandler (a : Actor) (config : ServerConfig) (dst : Ipv6Addr) (flow : UdpFlowKey) :
    Option String × Actor :=
  if dst = a.localAddr then
    match config.onUdp with
    | some f => (f flow.1.port, a.act (.onUdp flow.1.port))
    | none => (none, a)
  else
    match config.onUdpForward with
    | some f => (f (fromIpv6 flow.1), a.act (.onUdpForward (fromIpv6 flow.1)))
    | none => (none, a)

/-- The listener that claims a port of the own address. -/
def liveListener (a : Actor) (udp : Bool) (dst : Ipv6Addr) (port : Port) : Option Claim :=
  if dst = a.localAddr then (a.listeners.lookup (udp, port)).filter fun claim => !claim.closed
  else none

/-- Create the flow of a first datagram, if something takes it. -/
def openUdpFlow (a : Actor) (dst : Ipv6Addr) (flow : UdpFlowKey) : Actor :=
  match a.config with
  | none => a
  | some config =>
    if maxConnections ≤ a.udpFlows.size then a
    else
      let listener := a.liveListener true dst flow.1.port
      if listener.isNone ∧ dst = a.localAddr ∧ !config.servedUdpPorts.admits flow.1.port then a
      else
        let (handler, a) := a.udpHandler config dst flow
        match listener, handler with
        | none, none => a
        | some claim, _ =>
          let (stream, a) := a.newUdpFlow flow
          -- a listener whose queue is full drops the stream
          if π.appRoom a.draws then a.draw.act (.serveUdp (.listener claim.id) stream)
          else a.draw.dropStream stream
        | none, some name =>
          let (stream, a) := a.newUdpFlow flow
          a.act (.serveUdp (.service name) stream)

/-- Put a datagram into the queue of its flow's stream. -/
def deliver (a : Actor) (flow : UdpFlowKey) (payload : Bytes) : Actor :=
  match a.udpFlows.lookup flow with
  | none => a
  | some state =>
    let a := { a with udpFlows := a.udpFlows.adjust flow fun f => { f with touched := a.now } }
    match a.streams[state.stream]? with
    | some s =>
      if s.queue.length < streamQueue ∧ !s.dropped then
        { a with
          streams := a.streams.modify state.stream fun s =>
            { s with queue := s.queue ++ [payload] } }.act (.deliver state.stream payload)
      else a
    | none => a

/-- Remove a flow whose stream is gone. -/
def removeCancelled (a : Actor) (flow : UdpFlowKey) : Actor :=
  match a.udpFlows.lookup flow with
  | some state =>
    if a.isCancelled state.stream then { a with udpFlows := a.udpFlows.erase flow } else a
  | none => a

/-- Process a UDP packet from the tunnel. -/
def udpInput (a : Actor) (ip : Ipv6Packet) : Actor :=
  match π.parseUdp ip.srcAddr ip.dstAddr ip.payload with
  | none => a
  | some repr =>
    if repr.srcPort = 0 ∨ repr.dstPort = 0 then a
    else
      let flow := (SocketAddr.new (.v6 ip.dstAddr) repr.dstPort,
        SocketAddr.new (.v6 ip.srcAddr) repr.srcPort)
      let a := a.removeCancelled flow
      let a := if flow ∈ a.udpFlows then a else a.openUdpFlow π ip.dstAddr flow
      a.deliver flow repr.payload

/-! ### Datagrams to the tunnel -/

/-- Send a datagram of a stream's flow, unless its token is cancelled. -/
def udpOutput (a : Actor) (flow : UdpFlowKey) (bytes : Bytes) (generation : StreamId) : Actor :=
  if a.isCancelled generation then a
  else if flow ∈ a.udpFlows then
    { a with
      udpFlows := a.udpFlows.adjust flow fun f => { f with touched := a.now }
      outgoing := a.outgoing ++ [datagramPacket π flow bytes] }
  else a

/-! ### Expiry -/

/-- How long a flow may be idle. -/
def udpIdleTimeout (a : Actor) : ℕ := (a.config.bind (·.udpIdleTimeout)).getD 120000

/-- A flow stays: its stream is there and it is not idle. -/
def staysOpen (a : Actor) (f : UdpFlow) : Bool :=
  !a.isCancelled f.stream && !a.isDropped f.stream && a.now - f.touched < a.udpIdleTimeout

/-- Remove the claims of listeners that were dropped. -/
def purgeListeners (a : Actor) : Actor :=
  { a with listeners := a.listeners.retain fun _ claim => !claim.closed }

/-- Remove the flows and listeners that are gone or idle. -/
def expireUdp (a : Actor) : Actor :=
  let gone := a.udpFlows.entries.filter fun e => !a.staysOpen e.2
  let udpFlows := a.udpFlows.retain fun _ f => a.staysOpen f
  let a := gone.foldl (fun (a : Actor) e => a.cancel e.2.stream) a
  { a with udpFlows }.purgeListeners

/-! ### What is left alone -/

theorem udpFlows_newUdpFlow (a : Actor) (flow : UdpFlowKey) : (a.newUdpFlow flow).2.udpFlows =
    a.udpFlows.insert flow { stream := a.streams.length, touched := a.now } := by
  unfold newUdpFlow
  dsimp only
  split <;> rfl

theorem newUdpFlow_eq (a : Actor) (flow : UdpFlowKey) :
    (a.newUdpFlow flow).2 = { a with
      udpFlows := (a.newUdpFlow flow).2.udpFlows, streams := (a.newUdpFlow flow).2.streams } := by
  unfold newUdpFlow
  dsimp only
  split <;> rfl

theorem removeCancelled_eq (a : Actor) (flow : UdpFlowKey) :
    a.removeCancelled flow = { a with udpFlows := (a.removeCancelled flow).udpFlows } := by
  unfold removeCancelled
  split
  · split_ifs <;> rfl
  · rfl

theorem deliver_eq (a : Actor) (flow : UdpFlowKey) (payload : Bytes) :
    a.deliver flow payload = { a with
      udpFlows := (a.deliver flow payload).udpFlows
      streams := (a.deliver flow payload).streams
      trace := (a.deliver flow payload).trace } := by
  unfold deliver
  split
  · rfl
  · dsimp only
    split
    · split_ifs <;> rfl
    · rfl

theorem udpOutput_eq (a : Actor) (flow : UdpFlowKey) (bytes : Bytes) (generation : StreamId) :
    a.udpOutput π flow bytes generation = { a with
      udpFlows := (a.udpOutput π flow bytes generation).udpFlows
      outgoing := (a.udpOutput π flow bytes generation).outgoing } := by
  unfold udpOutput
  split_ifs <;> rfl

theorem foldl_cancel_eq {α : Type} (a : Actor) (f : α → StreamId) (l : List α) :
    l.foldl (fun (a : Actor) x => a.cancel (f x)) a = { a with
      streams := (l.foldl (fun (a : Actor) x => a.cancel (f x)) a).streams } := by
  induction l generalizing a with
  | nil => rfl
  | cons x l ih => rw [List.foldl_cons, ih (a.cancel (f x))]; rfl

theorem expireUdp_eq (a : Actor) :
    a.expireUdp = { a with
      udpFlows := a.expireUdp.udpFlows
      streams := a.expireUdp.streams
      listeners := a.expireUdp.listeners } := by
  unfold expireUdp purgeListeners
  dsimp only
  rw [foldl_cancel_eq]

end Actor

end Tailcat.Runtime
