import Tailcat.Runtime.Step
import Mathlib.Data.List.Infix

/-!
# What a step can do

`Small` lists the changes the actor makes while it processes an event, each with the conditions the
code checks before it; `step_changes` says that every step is a sequence of them.  An invariant
of the actor is then proved once for each kind of change.

A change may depend on the event and on the state it was found in; the condition `Q` is what is
known about the actions of the network stack.

They range from the sending of a packet to the removal of a link, and each is an expression in the
actor's own functions, so that what it does is read off there.  `Changes` is a sequence of them
within one event.  Only `StepChanges` opens the functions of the step; the modules that follow go
through the constructors, and their invariants do not see in which order an event makes its changes.
-/

namespace Tailcat.Runtime.Actor

open Net

/-! ### Sending -/

/-- Packets are sent to this key: it is the key of a peer or of the server. -/
def Knows (a : Actor) (key : Key) : Prop := key ∈ a.peers ∨ a.server = some key

/-- Something may be sent, or a command answered. -/
def MaySend (a : Actor) : Act → Prop
  | .relay key _ => a.Knows key
  | .udp .. | .answer .. => True
  | _ => False

/-- The states differ by what was sent. -/
structure Sends (a b : Actor) : Prop where
  eq : b = { a with draws := b.draws, trace := b.trace }
  draws : a.draws ≤ b.draws
  trace : ∃ new, b.trace = a.trace ++ new ∧ ∀ x ∈ new, a.MaySend x

namespace Sends

variable {a b c : Actor}

theorem refl (a : Actor) : Sends a a := ⟨rfl, le_refl _, [], by simp, by simp⟩

theorem knows (h : Sends a b) (key : Key) : b.Knows key ↔ a.Knows key := by rw [h.eq]; rfl

theorem trans (h : Sends a b) (h' : Sends b c) : Sends a c := by
  obtain ⟨new, hnew, hmay⟩ := h.trace
  obtain ⟨new', hnew', hmay'⟩ := h'.trace
  refine ⟨?_, Nat.le_trans h.draws h'.draws, new ++ new', by rw [hnew', hnew, List.append_assoc], ?_⟩
  · have hb := h.eq
    have hc := h'.eq
    rw [hb] at hc
    exact hc
  · intro x hx
    rcases List.mem_append.1 hx with hx | hx
    · exact hmay x hx
    · have hx' := hmay' x hx
      cases x with
      | relay key data => exact (h.knows key).1 hx'
      | _ => exact hx'

theorem draw (a : Actor) : Sends a a.draw := ⟨rfl, Nat.le_succ _, [], by simp [Actor.draw], by simp⟩

theorem act {x : Act} (h : a.MaySend x) : Sends a (a.act x) :=
  ⟨rfl, le_refl _, [x], rfl, by simpa using h⟩

theorem answer (a : Actor) (result : ReplyId) (x : Answer) : Sends a (a.answer result x) :=
  act trivial

end Sends

variable (π : Platform)

theorem relaySend_sends {a : Actor} {key : Key} (h : a.Knows key) (data : Bytes) :
    Sends a (a.relaySend π key data) := by
  unfold relaySend
  split_ifs
  · exact (Sends.draw a).trans (Sends.act h)
  · exact Sends.draw a

theorem sendUdp_sends (a : Actor) (data : Bytes) (endpoint : SocketAddr) :
    Sends a (a.sendUdp π data endpoint).2 :=
  (Sends.draw a).trans (Sends.act trivial)

theorem sendPacket_sends {a : Actor} {key : Key} (h : a.Knows key) (packet : Bytes) :
    Sends a (a.sendPacket π key packet) := by
  unfold sendPacket
  split
  · rename_i endpoint when _
    split_ifs
    · have hudp := sendUdp_sends π a packet endpoint
      split
      · rename_i b hb
        rwa [hb] at hudp
      · rename_i b hb
        rw [hb] at hudp
        exact hudp.trans (relaySend_sends π ((hudp.knows key).2 h) packet)
    · exact relaySend_sends π h packet
  · exact relaySend_sends π h packet

theorem sendPing_sends (a : Actor) (ping : PendingPing) : Sends a (a.sendPing π ping).2 := by
  unfold sendPing
  split
  · exact Sends.refl a
  · rename_i key hserver
    have hknows : a.Knows key := .inr hserver
    dsimp only
    split_ifs
    · split
      · simp only [sealDisco]
        split
        · rename_i frame b hb
          obtain ⟨-, rfl⟩ := Prod.mk.inj hb
          exact (Sends.draw a).trans (sendPacket_sends π (a := a.draw) hknows frame)
        · rename_i b hb
          obtain ⟨-, rfl⟩ := Prod.mk.inj hb
          exact Sends.draw a
      · exact Sends.refl a
    · exact relaySend_sends π hknows _

/-! ### Changes -/

/-- Something other than sending may be done. -/
def MayAct (a : Actor) : Act → Prop
  | .receiveIp key packet => key ∈ a.peers ∧ a.mayReceive key packet = true ∧
      ∃ n source data, .writeToTunnelV6 packet ∈ π.decapsulate n key source data
  | .encapsulate key packet => a.tunnelFor packet = some key
  | .onTcp _ | .onTcpForward _ | .onUdp _ | .onUdpForward _ | .serveUdp .. => True
  | _ => False

/-- The candidates a peer has learned of: one more, or a new list. -/
def Learned (old new : List SocketAddr) : Prop :=
  (∃ source, rememberEndpoint old source = (true, new)) ∨
    ∃ announced : List SocketAddr, new = rememberAll (announced.take maxCandidates)

/-- A packet from the tunnel of a peer is a UDP datagram of this flow. -/
def ReceivedUdp (a : Actor) (flow : UdpFlowKey) (payload : Bytes) : Prop :=
  ∃ key packet ip repr, Act.receiveIp key packet ∈ a.trace ∧
    Ipv6Packet.newChecked packet = some ip ∧
    π.parseUdp ip.srcAddr ip.dstAddr ip.payload = some repr ∧ repr.payload = payload ∧
    flow = (.new (.v6 ip.dstAddr) repr.dstPort, .new (.v6 ip.srcAddr) repr.srcPort)

/-- A packet from the tunnel of a peer opens a TCP connection of this flow. -/
def ReceivedSyn (a : Actor) (flow : TcpFlow) : Prop :=
  ∃ key packet ip tcp, Act.receiveIp key packet ∈ a.trace ∧
    Ipv6Packet.newChecked packet = some ip ∧
    π.parseTcp ip.srcAddr ip.dstAddr ip.payload = some tcp ∧ tcp.opens = true ∧
    flow = (⟨ip.dstAddr, tcp.dstPort⟩, ⟨ip.srcAddr, tcp.srcPort⟩)

/-- Datagram flows may be opened: neither time passes nor a stream is dropped. -/
def OpensFlows : Event → Prop
  | .tick .. | .dropStream _ => False
  | _ => True

/-- A packet arrives. -/
def Receives : Event → Prop
  | .relayed .. | .datagram .. => True
  | _ => False

theorem Receives.opensFlows {e : Event} (h : Receives e) : OpensFlows e := by
  cases e with
  | relayed | datagram => trivial
  | _ => exact h.elim

/-- What takes a new connection: the listener that claims its port, if there is one, and a listener
only if the connection is to the own address. -/
structure TakenBy (a : Actor) (flow : TcpFlow) (handler : Handler) : Prop where
  own : ∀ id, handler = .listener id → flow.1.addr = a.localAddr
  claimed : ∀ claim, a.liveListener false flow.1.addr flow.1.port = some claim →
    handler = .listener claim.id

variable (Q : Actor → PollAction → Prop)

/-- A change the actor makes while it processes the event `e`, found in the state `s`. -/
inductive Small (s : Actor) (e : Event) : Actor → Actor → Prop
  -- what others can see
  | sends {a b : Actor} (h : Sends a b) : Small s e a b
  | act {a : Actor} {x : Act} (h : a.MayAct π x) : Small s e a (a.act x)
  -- peers and paths
  | register {a : Actor} {key disco : Key} {data : Bytes} {config : ServerConfig}
      (he : e = .relayed key data) (hconfig : a.config = some config)
      (hregisters : registers config key data = true) (hdisco : disco = registeredDisco data)
      (hnew : key ∉ a.peers) (hsize : a.peers.size < maxPeers) (hkey : key ≠ Key.zero)
      (hzero : disco ≠ Key.zero) :
      Small s e a { a with peers := a.peers.insert key { discoKey := disco } }
  | advertised {a : Actor} (t : ℕ) : Small s e a { a with lastAdvertise := t }
  | candidates {a : Actor} {key : Key} {peer : Peer} {new : List SocketAddr}
      (hpeer : a.peers.lookup key = some peer) (hlearned : Learned peer.candidates new) :
      Small s e a
        { a with peers := a.peers.adjust key fun peer => { peer with candidates := new } }
  | probed {a : Actor} {key : Key} {peer : Peer} {endpoint : SocketAddr} {packet : Bytes}
      (hpeer : a.peers.lookup key = some peer) (husable : usableEndpoint endpoint = true)
      (hsize : a.probes.size < maxProbes)
      (hpacket : (a.draw.sealDisco π peer.discoKey
        ([1, 0] ++ (π.txid a.draws).1 ++ a.key.pub.1)).1 = some packet) :
      Small s e a ({ a with
        draws := a.draws + 2
        probes := a.probes.insert (π.txid a.draws) { key, endpoint, sent := a.now } }.sendUdp π
          packet endpoint).2
  | direct {a : Actor} {key : Key} {peer : Peer} {probe : Probe} {packet data : Bytes}
      (he : e = .datagram probe.endpoint packet) (hpeer : a.peers.lookup key = some peer)
      (hheader : slice packet 6 38 = peer.discoKey.1)
      (hopen : a.openDisco π peer.discoKey packet = some data) (hpong : data.getD 0 0 = 2)
      (hprobe : a.probes.lookup (txidOf data) = some probe) (hkey : probe.key = key)
      (husable : usableEndpoint probe.endpoint = true)
      (hsent : a.now - probe.sent < probeTimeout) :
      Small s e a ({ a with
        probes := a.probes.erase (txidOf data)
        peers := a.peers.adjust key fun peer =>
          { peer with direct := some (probe.endpoint, a.now) } }.act
            (.promote key probe.endpoint a.now (txidOf data)))
  | expireProbes {a : Actor} (p : TxId → Probe → Bool) :
      Small s e a { a with probes := a.probes.retain p }
  | ownEndpoint {a : Actor} {endpoint : SocketAddr} {endpoints : List SocketAddr}
      (h : rememberEndpoint a.endpoints endpoint = (true, endpoints)) (t : ℕ)
      {source : SocketAddr} {packet : Bytes} (he : e = .datagram source packet)
      (hstun : parseStun packet = some endpoint) :
      Small s e a { a with endpoints, lastAdvertise := t }
  -- pings
  | dropPings {a : Actor} {pings : List PendingPing} (h : pings.Sublist a.pings) :
      Small s e a { a with pings }
  | addPing {a : Actor} (ping : PendingPing) (h : a.pings.length < maxPendingPings) :
      Small s e a { a with pings := a.pings ++ [ping] }
  | repeatPings {a b : Actor} (h : Sends { a with pings := b.pings } b)
      (hlength : b.pings.length ≤ a.pings.length) : Small s e a b
  -- commands
  | allow {a : Actor} {config : ServerConfig} {key : Key} (he : e = .command (.allow key))
      (hconfig : a.config = some config) :
      Small s e a { a with
        config := some { config with allowedClients := config.allowedClients ++ [key] } }
  | drains {a : Actor} (drains : List ReplyId) : Small s e a { a with drains }
  | timers {a : Actor} (t : ℕ) : Small s e a { a with lastTimers := t }
  -- listeners
  | purgeListeners (a : Actor) : Small s e a a.purgeListeners
  | claim {a : Actor} {udp : Bool} {port asked : Port} {result : ReplyId} (closed : Bool)
      (he : e = .command (.listen udp asked result)) (hnew : (udp, port) ∉ a.listeners) :
      Small s e a { a with
        listeners := a.listeners.insert (udp, port) { id := a.listenersIssued, closed }
        listenersIssued := a.listenersIssued + 1 }
  | dropListener {a : Actor} {id : ℕ} (he : e = .dropListener id) :
      Small s e a (a.dropListener id)
  -- datagram flows
  | newUdpFlow {a : Actor} {flow : UdpFlowKey} (he : OpensFlows e) (hnew : flow ∉ a.udpFlows)
      (hsize : a.udpFlows.size < maxConnections) : Small s e a (a.newUdpFlow flow).2
  | lostUdpFlow {a : Actor} {flow : UdpFlowKey} (he : OpensFlows e) (hnew : flow ∉ a.udpFlows)
      (hsize : a.udpFlows.size < maxConnections) :
      Small s e a ((a.newUdpFlow flow).2.dropStream (a.newUdpFlow flow).1)
  | dropStream {a : Actor} {stream : StreamId} (he : e = .dropStream stream) :
      Small s e a (a.dropStream stream)
  | removeCancelled (a : Actor) (flow : UdpFlowKey) : Small s e a (a.removeCancelled flow)
  | deliver {a : Actor} {flow : UdpFlowKey} {payload : Bytes}
      (h : a.ReceivedUdp π flow payload) : Small s e a (a.deliver flow payload)
  | udpOutput {a : Actor} {stream : StreamId} {st : Stream} {bytes : Bytes} {result : ReplyId}
      (he : e = .command (.sendUdp stream bytes result)) (hs : a.streams[stream]? = some st) :
      Small s e a (a.udpOutput π st.flow bytes stream)
  | expireUdp {a : Actor} {first second : List PollAction} (he : e = .tick first second) :
      Small s e a a.expireUdp
  | recv {a : Actor} {stream : StreamId} (he : e = .recv stream) :
      Small s e a { a with
        streams := a.streams.modify stream fun st => { st with queue := st.queue.tail } }
  -- connections
  | openSyn {a : Actor} {flow : TcpFlow} {handler : Handler} {socket : Socket}
      {config : ServerConfig} (he : Receives e) (hconfig : a.config = some config)
      (hsyn : a.ReceivedSyn π flow) (hhandler : a.TakenBy flow handler)
      (hnew : ∀ link ∈ a.links, link.flow ≠ flow) (hlength : a.links.length < maxConnections)
      (hsocket : ({} : Socket).listen flow.1 = some socket) :
      Small s e a (a.openLink socket flow none (some handler))
  | dialled {target : SocketAddr} {result : ReplyId} {socket : Socket}
      (he : e = .command (.dial target result)) (hopen : s.isClosed result = false)
      (hlength : s.links.length < maxConnections)
      (hsocket : ({} : Socket).connect ⟨nat64Addr target.ip, target.port⟩
        ⟨s.localAddr, s.nextPort⟩ = some socket) :
      Small s e s.advancePort (s.advancePort.openLink socket
        (⟨s.localAddr, s.nextPort⟩, ⟨nat64Addr target.ip, target.port⟩) (some result) none)
  | advancePort (a : Actor) : Small s e a a.advancePort
  | pushIncoming (a : Actor) (packet : Bytes) : Small s e a (a.pushIncoming packet)
  | poll {a : Actor} {action : PollAction} (h : Q a action) :
      Small s e a (a.pollAction π action)
  | pollLink {a : Actor} {index : ℕ} {c : Conn} {first second : List PollAction}
      (he : e = .tick first second) (hc : a.connAt index = some c) :
      Small s e a (a.putConn index (c.poll (a.surroundings π)))
  | removeLink {a : Actor} {index : ℕ} {c : Conn} (hc : a.connAt index = some c)
      (hover : c.isOver = true) : Small s e a (a.removeLink index)
  | takeOutgoing (a : Actor) : Small s e a { a with outgoing := [] }
  -- surroundings
  | elapse {a : Actor} (d : ℕ) : Small s e a { a with now := a.now + d }
  | app {a : Actor} {pipe : PipeId} {op : AppOp} (h : a.appHolds pipe = true) :
      Small s e a { a with pipes := a.pipes.modify pipe (·.app op) }
  | dropReply {a : Actor} (result : ReplyId) :
      Small s e a { a with closedReplies := result :: a.closedReplies }
  | reorder {a : Actor} {peers : Table Key Peer} (h : peers.entries.Perm a.peers.entries) :
      Small s e a { a with peers }

/-- A sequence of changes. -/
abbrev Changes (s : Actor) (e : Event) : Actor → Actor → Prop :=
  Relation.ReflTransGen (Small π Q s e)

namespace Changes

variable {π Q} {s a b : Actor} {e : Event}

theorem single (h : Small π Q s e a b) : Changes π Q s e a b :=
  Relation.ReflTransGen.single h

/-- What every change preserves holds after a sequence of them. -/
theorem preserves {I : Actor → Prop} (hI : ∀ a b, Small π Q s e a b → I a → I b)
    (h : Changes π Q s e a b) (ha : I a) : I b := by
  induction h with
  | refl => exact ha
  | tail _ hstep ih => exact hI _ _ hstep ih

/-- A loop whose body is a sequence of changes, under a condition that changes preserve. -/
theorem foldl {α : Type} {f : Actor → α → Actor} {I : Actor → Prop} {l : List α}
    (hI : ∀ a b, Changes π Q s e a b → I a → I b)
    (hf : ∀ a, ∀ x ∈ l, I a → Changes π Q s e a (f a x)) (ha : I a) :
    Changes π Q s e a (l.foldl f a) := by
  induction l generalizing a with
  | nil => exact .refl
  | cons x l ih =>
    have hx := hf a x (by simp) ha
    exact hx.trans (ih (fun a y hy => hf a y (by simp [hy])) (hI _ _ hx ha))

end Changes

/-! ### What never changes -/

/-- The keys and addresses of the actor, and whether it is a server; peers are never removed. -/
structure Extends (a b : Actor) : Prop where
  key : b.key = a.key
  localAddr : b.localAddr = a.localAddr
  server : b.server = a.server
  config : b.config.isSome = a.config.isSome
  peers : ∀ key, key ∈ a.peers → key ∈ b.peers

theorem Extends.refl (a : Actor) : Extends a a := ⟨rfl, rfl, rfl, rfl, fun _ h => h⟩

theorem Extends.trans {a b c : Actor} (h : Extends a b) (h' : Extends b c) : Extends a c :=
  ⟨h'.key.trans h.key, h'.localAddr.trans h.localAddr, h'.server.trans h.server,
    h'.config.trans h.config, fun key hkey => h'.peers key (h.peers key hkey)⟩

variable {π Q} {s a b : Actor} {e : Event}

theorem mem_adjust {t : Table Key Peer} {k k' : Key} {f : Peer → Peer} :
    k ∈ t.adjust k' f ↔ k ∈ t := by
  rw [AList.mem_keys, AList.mem_keys, Table.keys_adjust]

theorem Small.extends (h : Small π Q s e a b) : Extends a b := by
  cases h with
  | sends h => rw [h.eq]; exact ⟨rfl, rfl, rfl, rfl, fun _ hkey => hkey⟩
  | repeatPings h => rw [h.eq]; exact ⟨rfl, rfl, rfl, rfl, fun _ hkey => hkey⟩
  | register => exact ⟨rfl, rfl, rfl, rfl, fun key hkey => (AList.mem_insert _).2 (.inr hkey)⟩
  | candidates => exact ⟨rfl, rfl, rfl, rfl, fun key hkey => mem_adjust.2 hkey⟩
  | direct => exact ⟨rfl, rfl, rfl, rfl, fun key hkey => mem_adjust.2 hkey⟩
  | allow _ hconfig => exact ⟨rfl, rfl, rfl, by rw [hconfig]; rfl, fun _ hkey => hkey⟩
  | newUdpFlow => rw [newUdpFlow_eq]; exact ⟨rfl, rfl, rfl, rfl, fun _ hkey => hkey⟩
  | lostUdpFlow => rw [newUdpFlow_eq]; exact ⟨rfl, rfl, rfl, rfl, fun _ hkey => hkey⟩
  | removeCancelled => rw [removeCancelled_eq]; exact ⟨rfl, rfl, rfl, rfl, fun _ hkey => hkey⟩
  | deliver => rw [deliver_eq]; exact ⟨rfl, rfl, rfl, rfl, fun _ hkey => hkey⟩
  | udpOutput => rw [udpOutput_eq]; exact ⟨rfl, rfl, rfl, rfl, fun _ hkey => hkey⟩
  | expireUdp => rw [expireUdp_eq]; exact ⟨rfl, rfl, rfl, rfl, fun _ hkey => hkey⟩
  | poll => rw [pollAction_eq]; exact ⟨rfl, rfl, rfl, rfl, fun _ hkey => hkey⟩
  | pollLink => unfold putConn; exact ⟨rfl, rfl, rfl, rfl, fun _ hkey => hkey⟩
  | removeLink => rw [sameButLinks_removeLink]; exact ⟨rfl, rfl, rfl, rfl, fun _ hkey => hkey⟩
  | reorder h => exact ⟨rfl, rfl, rfl, rfl, fun key hkey => (AList.mem_of_perm h).2 hkey⟩
  | _ => exact ⟨rfl, rfl, rfl, rfl, fun _ hkey => hkey⟩

theorem Changes.extends (h : Changes π Q s e a b) : Extends a b := by
  induction h with
  | refl => exact .refl a
  | tail _ hstep ih => exact ih.trans hstep.extends

theorem Extends.knows (h : Extends a b) {key : Key} (hkey : a.Knows key) : b.Knows key :=
  hkey.imp (h.peers key) fun hserver => h.server.trans hserver

/-! ### The record of what was done -/

theorem deliver_trace (a : Actor) (flow : UdpFlowKey) (payload : Bytes) :
    a.trace <+: (a.deliver flow payload).trace := by
  unfold deliver
  split
  · exact List.prefix_refl _
  · dsimp only
    split
    · split_ifs
      · exact List.prefix_append _ _
      · exact List.prefix_refl _
    · exact List.prefix_refl _

theorem Sends.trace_prefix (h : Sends a b) : a.trace <+: b.trace := by
  obtain ⟨new, hnew, -⟩ := h.trace
  exact ⟨new, hnew.symm⟩

theorem Small.trace_prefix (h : Small π Q s e a b) : a.trace <+: b.trace := by
  cases h with
  | sends h => exact h.trace_prefix
  | repeatPings h => exact h.trace_prefix
  | act => exact List.prefix_append _ _
  | probed => exact List.prefix_append _ _
  | direct => exact List.prefix_append _ _
  | deliver => exact deliver_trace _ _ _
  | newUdpFlow => rw [newUdpFlow_eq]
  | lostUdpFlow => rw [newUdpFlow_eq]; exact List.prefix_refl _
  | removeCancelled => rw [removeCancelled_eq]
  | udpOutput => rw [udpOutput_eq]
  | expireUdp => rw [expireUdp_eq]
  | poll => rw [pollAction_eq]
  | pollLink => unfold putConn; exact List.prefix_append _ _
  | removeLink =>
    unfold Actor.removeLink
    split
    · exact List.prefix_append _ _
    · exact List.prefix_refl _
  | _ => exact List.prefix_refl _

/-- What was done stays done. -/
theorem Changes.trace_subset (h : Changes π Q s e a b) {x : Act} (hx : x ∈ a.trace) :
    x ∈ b.trace :=
  h.preserves (I := fun c => x ∈ c.trace) (fun _ _ hstep hc => hstep.trace_prefix.subset hc) hx

end Tailcat.Runtime.Actor
