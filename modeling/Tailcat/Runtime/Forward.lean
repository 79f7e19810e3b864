import Tailcat.Runtime.Admission
import Tailcat.Runtime.Echo

/-!
# Addresses beyond the server

A client dials any address, and its server asks its configuration for a handler of that address.
The tunnel between them carries IPv6 only: an IPv4 address is mapped into `64:ff9b::/96` by the
client and back by the server.

* `asked_receiveIp_tcp`, `asked_receiveIp_udp` : what a server asks for a packet to an address
  beyond it.
* `dial_transparent` : the server asks for the address and port that were dialled; targets that
  differ in one of them have different flows; the two implementations of the mapping agree.
* `same_flow` : a flow label or a scope identifier does not get through the tunnel.
-/

namespace Tailcat.Runtime

open Net

/-! ### Lookups -/

/-- The configuration is asked for a handler. -/
def Act.asks : Act → Bool
  | .onTcp _ | .onTcpForward _ | .onUdp _ | .onUdpForward _ => true
  | _ => false

/-- A way to dial a target. -/
inductive Transport
  | tcp
  | udp
  deriving DecidableEq, Repr

/-- The configuration is asked for a handler of an address beyond the server. -/
def Transport.asksFor (target : SocketAddr) : Transport → Act
  | .tcp => .onTcpForward target
  | .udp => .onUdpForward target

/-- The configuration can be asked for a handler of an address beyond the server. -/
def ServerConfig.forwards (config : ServerConfig) : Transport → Bool
  | .tcp => config.onTcpForward.isSome
  | .udp => config.onUdpForward.isSome

/-- An end of a packet of the tunnel as an end of a datagram flow. -/
def streamEnd (endpoint : IpEndpoint) : SocketAddr := .new (.v6 endpoint.addr) endpoint.port

namespace Actor

/-- What the configuration was asked for so far. -/
def asked (a : Actor) : List Act := a.trace.filter Act.asks

/-- A packet is of a flow, which is given by its destination and its source. -/
def OfFlow (π : Platform) (packet : Bytes) (flow : TcpFlow) : Transport → Prop
  | .tcp => OfTcpFlow π packet flow
  | .udp => ∃ payload, OfUdpFlow π packet (streamEnd flow.1, streamEnd flow.2) payload

/-- The flow is not there yet, and there is room for it. -/
def HasRoom (a : Actor) (flow : TcpFlow) : Transport → Prop
  | .tcp => (∀ link ∈ a.links, link.flow ≠ flow) ∧ a.links.length < maxConnections
  | .udp => (streamEnd flow.1, streamEnd flow.2) ∉ a.udpFlows ∧ a.udpFlows.size < maxConnections

/-- The first packet of a flow is awaited: there is room for the flow, and the configuration can be
asked for a handler. -/
structure Awaits (a : Actor) (transport : Transport) (flow : TcpFlow) : Prop where
  config : ∃ config, a.config = some config ∧ config.forwards transport = true
  room : a.HasRoom flow transport

/-- The lookups for a packet of a flow are for this target. -/
structure LooksUp (π : Platform) (a : Actor) (transport : Transport) (flow : TcpFlow)
    (packet : Bytes) (target : SocketAddr) : Prop where
  only : (a.receiveIp π packet).asked = a.asked ∨
    (a.receiveIp π packet).asked = a.asked ++ [transport.asksFor target]
  /-- There is one for the first packet, which over TCP is a SYN. -/
  first : a.Awaits transport flow → (transport = .tcp → OpensTcpFlow π packet flow) →
    (a.receiveIp π packet).asked = a.asked ++ [transport.asksFor target]

/-! ### Dials -/

/-- A packet of the flow that a dial opens, and the flow as the server has it: first the end that
was dialled, then the end of the client. -/
inductive DialSends (π : Platform) (c : Actor) (target : SocketAddr) :
    Transport → TcpFlow → Bytes → Prop
  /-- A segment between the ends of the link. -/
  | tcp {result : ReplyId} {link : Link} {packet : Bytes}
      (hopens : (step π c (.command (dialTcp target result))).links = c.links ++ [link])
      (hpacket : OfTcpFlow π packet link.flow.swap) :
      DialSends π c target .tcp link.flow.swap packet
  /-- What a send on the stream, at any later time, gives to the tunnel. -/
  | udp {result result' : ReplyId} {command : Command} {st : Stream} {es : List Event}
      {d : Actor} {bytes packet : Bytes}
      (hdial : dialUdp target result = .ok command)
      (hopens : (step π c (.command command)).streams = c.streams ++ [st])
      (hlater : d = run π (step π c (.command command)) es)
      (hlength : bytes.length ≤ 65507)
      (hsends : (step π d (.command (.sendUdp c.streams.length bytes result'))).outgoing =
        d.outgoing ++ [packet]) :
      DialSends π c target .udp (tunnelEnd st.flow.2, tunnelEnd st.flow.1) packet

/-- Dials are transparent: the server looks up what was dialled. -/
structure Transparent (π : Platform) : Prop where
  /-- In every state of a client and of a server, the lookups for the flow of a dial are for the
  address and port that were dialled. -/
  lookup : ∀ client server es es' target transport flow packet, ¬IsNat64 target.ip →
    target.ip ≠ .v6 (tcAddrForKey server.key.pub) →
    DialSends π (run π (init client) es) target transport flow packet →
    LooksUp π (run π (init server) es') transport flow packet (.new target.ip target.port)
  /-- Different addresses or ports have different flows. -/
  distinct : ∀ client client' es es' target target' transport transport' flow flow' packet packet',
    ¬IsNat64 target.ip → ¬IsNat64 target'.ip →
    DialSends π (run π (init client) es) target transport flow packet →
    DialSends π (run π (init client') es') target' transport' flow' packet' →
    (target.ip, target.port) ≠ (target'.ip, target'.port) → flow.1 ≠ flow'.1
  /-- `to_ipv6` and `nat64_addr` agree. -/
  encode : ∀ addr, (toIpv6 addr).ip = .v6 (nat64Addr addr.ip) ∧ (toIpv6 addr).port = addr.port
  /-- `from_ipv6` and `unmap_nat64` agree. -/
  decode : ∀ ip port flowinfo scopeId,
    (fromIpv6 (.v6 ip port flowinfo scopeId)).ip = unmapNat64 ip ∧
      (fromIpv6 (.v6 ip port flowinfo scopeId)).port = port

variable {π : Platform} {a : Actor} {target : SocketAddr} {transport : Transport} {flow : TcpFlow}
  {packet : Bytes}

/-! ### What a server asks -/

theorem asked_act (a : Actor) (x : Act) :
    (a.act x).asked = a.asked ++ if x.asks then [x] else [] := by
  rw [asked, act, List.filter_append, List.filter_singleton, asked]
  cases x.asks <;> rfl

theorem liveListener_of_ne (udp : Bool) {dst : Ipv6Addr} (h : dst ≠ a.localAddr) (port : Port) :
    a.liveListener udp dst port = none := if_neg h

theorem asked_tcpHandler (config : ServerConfig) {dest : Ipv6Addr} (hdest : dest ≠ a.localAddr)
    (port : Port) : (a.tcpHandler config dest port).2.asked =
      a.asked ++ if config.onTcpForward.isSome then
        [.onTcpForward (.new (unmapNat64 dest) port)] else [] := by
  unfold tcpHandler
  rw [liveListener_of_ne false hdest]
  dsimp only
  rw [if_neg hdest]
  cases config.onTcpForward with
  | none => exact (List.append_nil _).symm
  | some f =>
    rw [fromIpv6_new]
    exact asked_act a _

/-- For a connection to an address beyond the server, the configuration is asked for its handler if
there is room. -/
theorem asked_openSyn (config : ServerConfig) {dest : Ipv6Addr} (hdest : dest ≠ a.localAddr)
    (src : Ipv6Addr) (tcp : TcpRepr) : (a.openSyn config dest src tcp).asked =
      a.asked ++ if ((∀ link ∈ a.links, link.flow ≠ (⟨dest, tcp.dstPort⟩, ⟨src, tcp.srcPort⟩)) ∧
          a.links.length < maxConnections) ∧ config.onTcpForward.isSome then
        [.onTcpForward (.new (unmapNat64 dest) tcp.dstPort)] else [] := by
  have hasked := asked_tcpHandler config hdest tcp.dstPort
  unfold openSyn
  dsimp only
  by_cases hroom : (∀ link ∈ a.links, link.flow ≠ (⟨dest, tcp.dstPort⟩, ⟨src, tcp.srcPort⟩)) ∧
      a.links.length < maxConnections
  · rw [if_pos (by simpa using hroom)]
    simp only [and_iff_right hroom]
    rw [← hasked]
    generalize a.tcpHandler config dest tcp.dstPort = p
    obtain ⟨handler, b⟩ := p
    cases handler with
    | none => rfl
    | some handler =>
      dsimp only
      split <;> rfl
  · rw [if_neg (by simpa using hroom), if_neg (fun h => hroom h.1), List.append_nil]

/-- What a server asks for a segment to an address beyond it. -/
theorem asked_receiveIp_tcp (hdest : flow.1.addr ≠ a.localAddr) (h : OfTcpFlow π packet flow) :
    ((a.receiveIp π packet).asked = a.asked ∨ (a.receiveIp π packet).asked =
        a.asked ++ [.onTcpForward (.new (unmapNat64 flow.1.addr) flow.1.port)]) ∧
      (a.Awaits .tcp flow → OpensTcpFlow π packet flow → (a.receiveIp π packet).asked =
        a.asked ++ [.onTcpForward (.new (unmapNat64 flow.1.addr) flow.1.port)]) := by
  obtain ⟨ip, tcp, hip, hversion, hproto, hparse, rfl⟩ := h
  dsimp only at hdest ⊢
  have hudp : ¬(protoTcp = protoUdp) := by decide
  cases hconfig : a.config with
  | none =>
    have hreceive : a.receiveIp π packet = a.pushIncoming packet := by
      simp only [receiveIp, hip, hversion, ne_eq, not_true_eq_false, if_false, hproto, hudp, hconfig]
    rw [hreceive]
    refine ⟨.inl rfl, fun hawaits => ?_⟩
    obtain ⟨config, hsome, -⟩ := hawaits.config
    rw [hconfig] at hsome
    cases hsome
  | some config =>
    have hfilter : a.filtered config ip.dstAddr tcp.dstPort = false := by
      simp [filtered, hdest]
    have hreceive : a.receiveIp π packet =
        (if tcp.opens then a.openSyn config ip.dstAddr ip.srcAddr tcp else a).pushIncoming
          packet := by
      simp only [receiveIp, hip, hversion, ne_eq, not_true_eq_false, if_false, hproto, hudp, hconfig,
        if_true, hparse, hfilter, Bool.false_eq_true]
    have hasked := asked_openSyn config hdest ip.srcAddr tcp
    have hpush : ∀ b : Actor, (b.pushIncoming packet).asked = b.asked := fun _ => rfl
    rw [hreceive, hpush]
    refine ⟨?_, fun hawaits hopens => ?_⟩
    · split_ifs
      · rw [hasked]
        split_ifs
        · exact .inr rfl
        · exact .inl (List.append_nil _)
      · exact .inl rfl
    · obtain ⟨ip', tcp', hip', -, -, hparse', hopen, -⟩ := hopens
      obtain rfl := Option.some.inj (hip.symm.trans hip')
      obtain rfl := Option.some.inj (hparse.symm.trans hparse')
      obtain ⟨config', hsome, hforwards⟩ := hawaits.config
      rw [hconfig] at hsome
      cases hsome
      rw [if_pos hopen, hasked, if_pos ⟨hawaits.room, hforwards⟩]

theorem asked_removeCancelled (flow : UdpFlowKey) : (a.removeCancelled flow).asked = a.asked := by
  rw [removeCancelled_eq]
  rfl

theorem asked_deliver (flow : UdpFlowKey) (payload : Bytes) :
    (a.deliver flow payload).asked = a.asked := by
  unfold deliver
  split
  · rfl
  · dsimp only
    split
    · split_ifs
      · exact (asked_act _ _).trans (List.append_nil _)
      · rfl
    · rfl

theorem asked_newUdpFlow (flow : UdpFlowKey) : (a.newUdpFlow flow).2.asked = a.asked := by
  rw [newUdpFlow_eq]
  rfl

/-- For a first datagram to an address beyond the server, the configuration is asked for its handler
if there is room. -/
theorem asked_openUdpFlow {config : ServerConfig} (hconfig : a.config = some config)
    {dst : Ipv6Addr} (hdst : dst ≠ a.localAddr) (flow : UdpFlowKey) :
    (a.openUdpFlow π dst flow).asked =
      a.asked ++ if a.udpFlows.size < maxConnections ∧ config.onUdpForward.isSome then
        [.onUdpForward (fromIpv6 flow.1)] else [] := by
  have hhandler : (a.udpHandler config dst flow).2.asked =
      a.asked ++ if config.onUdpForward.isSome then [.onUdpForward (fromIpv6 flow.1)] else [] := by
    unfold udpHandler
    rw [if_neg hdst]
    cases config.onUdpForward with
    | none => exact (List.append_nil _).symm
    | some f => exact asked_act a _
  unfold openUdpFlow
  rw [hconfig]
  dsimp only
  by_cases hsize : maxConnections ≤ a.udpFlows.size
  · rw [if_pos hsize, if_neg (fun h => Nat.not_lt.2 hsize h.1), List.append_nil]
  rw [if_neg hsize]
  simp only [Nat.lt_of_not_le hsize, true_and]
  rw [if_neg (fun h => hdst h.2.1), ← hhandler, liveListener_of_ne true hdst]
  generalize a.udpHandler config dst flow = p
  obtain ⟨handler, b⟩ := p
  cases handler with
  | none => rfl
  | some name => exact (asked_act _ _).trans ((List.append_nil _).trans (asked_newUdpFlow flow))

/-- What a server asks for a datagram to an address beyond it. -/
theorem asked_receiveIp_udp (hdst : flow.1.addr ≠ a.localAddr) {payload : Bytes}
    (h : OfUdpFlow π packet (streamEnd flow.1, streamEnd flow.2) payload) :
    ((a.receiveIp π packet).asked = a.asked ∨ (a.receiveIp π packet).asked =
        a.asked ++ [.onUdpForward (.new (unmapNat64 flow.1.addr) flow.1.port)]) ∧
      (a.Awaits .udp flow → (a.receiveIp π packet).asked =
        a.asked ++ [.onUdpForward (.new (unmapNat64 flow.1.addr) flow.1.port)]) := by
  obtain ⟨dst, haddr, hreceive⟩ := receiveIp_udp (a := a) h
  obtain rfl : flow.1.addr = dst := by
    rw [streamEnd, SocketAddr.ip_new] at haddr
    exact IpAddr.v6.inj haddr
  have hlookup : fromIpv6 (streamEnd flow.1) = .new (unmapNat64 flow.1.addr) flow.1.port :=
    fromIpv6_new _ _
  rw [hreceive, asked_deliver]
  generalize hkey : (streamEnd flow.1, streamEnd flow.2) = key at *
  have hkey1 : key.1 = streamEnd flow.1 := by rw [← hkey]
  have hlocal : (a.removeCancelled key).localAddr = a.localAddr := by rw [removeCancelled_eq]
  have hconfig' : (a.removeCancelled key).config = a.config := by rw [removeCancelled_eq]
  refine ⟨?_, fun hawaits => ?_⟩
  · split_ifs
    · exact .inl (asked_removeCancelled key)
    · cases hconfig : a.config with
      | none =>
        rw [openUdpFlow, hconfig', hconfig]
        exact .inl (asked_removeCancelled key)
      | some config =>
        rw [asked_openUdpFlow (hconfig'.trans hconfig) (hlocal ▸ hdst), asked_removeCancelled, hkey1,
          hlookup]
        split_ifs
        · exact .inr rfl
        · exact .inl (List.append_nil _)
  · obtain ⟨config, hconfig, hforwards⟩ := hawaits.config
    obtain ⟨hnew, hsize⟩ := hawaits.room
    rw [hkey] at hnew
    have hsame : a.removeCancelled key = a := by
      rw [removeCancelled, AList.lookup_eq_none.2 hnew]
    rw [hsame, if_neg hnew, asked_openUdpFlow hconfig hdst, if_pos ⟨hsize, hforwards⟩, hkey1, hlookup]

/-! ### What a dial sends -/

/-- The datagrams of a stream are of its flow. -/
theorem ofUdpFlow_datagramPacket (hπ : π.StandardUdp) {key : UdpFlowKey} {bytes : Bytes}
    (hown : key.1.port ≠ 0) (hother : key.2.port ≠ 0) (hlength : bytes.length ≤ 65507) :
    OfUdpFlow π (datagramPacket π key bytes)
      (streamEnd (tunnelEnd key.2), streamEnd (tunnelEnd key.1)) bytes := by
  have hwell := datagramPacket_wellFormed hπ hother hlength
  obtain ⟨ip, hip, hversion, hnext, hsrc, hdst, hpayload⟩ := hwell.header
  have hparse := hπ.parse _ _ _ _ hwell.datagram
  rw [← hsrc, ← hdst, ← hpayload] at hparse
  refine ⟨ip, _, hip, hversion, hnext, hparse, hown, hother, rfl, ?_⟩
  rw [hsrc, hdst]
  rfl

/-- The packets of a dial are of a flow to what was dialled. -/
theorem flow_of_dialSends (hπ : π.StandardUdp) {client : Setup} {es : List Event}
    (h : DialSends π (run π (init client) es) target transport flow packet) :
    flow.1 = tunnelEnd target ∧ OfFlow π packet flow transport := by
  cases h with
  | tcp hopens hpacket => exact ⟨flow_of_dial hopens, hpacket⟩
  | @udp result result' command st later d bytes packet hdial hopens hlater hlength hsends =>
    obtain ⟨⟨port, hport, hflow⟩, htarget, -⟩ := flow_of_dialUdp hdial hopens
    have hwired : (step π (run π (init client) es) (.command command)).Wired :=
      step_wired (run_wired client es) _
    have hflows : (step π (run π (init client) es) (.command command)).FlowsOwned := by
      have hrun := run_flowsOwned (π := π) client (es ++ [.command command])
      rwa [run, Transition.run_append] at hrun
    have hst : (step π (run π (init client) es) (.command command)).streams[
        (run π (init client) es).streams.length]? = some st := by
      rw [hopens, List.getElem?_concat_length]
    obtain ⟨st', hst', hsame⟩ := run_streamFlow hwired hflows later hst
    rw [← hlater] at hst'
    obtain rfl := packet_of_send hst' hsends
    rw [hsame]
    refine ⟨?_, bytes, ofUdpFlow_datagramPacket hπ ?_ ?_ hlength⟩
    · rw [hflow]
      exact tunnelEnd_toIpv6 target
    · rw [hflow, SocketAddr.port_new]
      exact hport
    · rw [hflow, port_toIpv6]
      exact htarget

/-! ### Transparency -/

/-- No IPv4 address is mapped to a tunnel address. -/
theorem nat64Addr_ne {ip : IpAddr} {key : Key} (h : ip ≠ .v6 (tcAddrForKey key)) :
    nat64Addr ip ≠ tcAddrForKey key := by
  cases ip with
  | v4 ip =>
    intro heq
    have hhead := congrArg (fun addr : Ipv6Addr => addr.1.headD 0) heq
    exact absurd hhead (by simp [nat64Addr, nat64Prefix, tcAddrForKey])
  | v6 ip => exact fun heq => h (congrArg IpAddr.v6 heq)

theorem run_localAddr (setup : Setup) (es : List Event) :
    (run π (init setup) es).localAddr = tcAddrForKey setup.key.pub := by
  refine run_invariant (I := fun a => a.localAddr = tcAddrForKey setup.key.pub) ?_
    (fun _ _ _ _ hstep ha => hstep.extends.localAddr.trans ha) es
  unfold init addPeer
  dsimp only
  split
  · split_ifs <;> rfl
  · rfl

/-- **Dials are transparent** over TCP and over UDP. -/
theorem dial_transparent (hπ : π.StandardUdp) : Transparent π where
  lookup client server es es' target transport flow packet hnat hown h := by
    obtain ⟨hflow, hpacket⟩ := flow_of_dialSends hπ h
    have hdest : flow.1.addr ≠ (run π (init server) es').localAddr := by
      rw [run_localAddr, hflow]
      exact nat64Addr_ne hown
    have htarget : SocketAddr.new (unmapNat64 flow.1.addr) flow.1.port =
        .new target.ip target.port := by
      rw [hflow]
      exact congrArg (SocketAddr.new · target.port) (unmapNat64_nat64Addr hnat)
    cases transport with
    | tcp =>
      have hasked := asked_receiveIp_tcp hdest hpacket
      rw [htarget] at hasked
      exact ⟨hasked.1, fun hawaits hopens => hasked.2 hawaits (hopens rfl)⟩
    | udp =>
      obtain ⟨payload, hpacket⟩ := hpacket
      have hasked := asked_receiveIp_udp hdest hpacket
      rw [htarget] at hasked
      exact ⟨hasked.1, fun hawaits _ => hasked.2 hawaits⟩
  distinct client client' es es' target target' transport transport' flow flow' packet packet' hnat
      hnat' h h' hne heq := by
    rw [(flow_of_dialSends hπ h).1, (flow_of_dialSends hπ h').1] at heq
    have hip := congrArg (fun endpoint => unmapNat64 endpoint.addr) heq
    simp only [tunnelEnd, unmapNat64_nat64Addr hnat, unmapNat64_nat64Addr hnat'] at hip
    exact hne (Prod.ext hip (congrArg IpEndpoint.port heq))
  encode addr := ⟨ip_toIpv6 addr, port_toIpv6 addr⟩
  decode ip port flowinfo scopeId := by
    unfold fromIpv6 unmapNat64
    dsimp only
    split_ifs <;> exact ⟨rfl, rfl⟩

/-! ### Samples -/

/-- The address with a flow label, without it. -/
def unlabelled : SocketAddr := .new labelled.ip labelled.port

/-- The client of the sample sends to a target on a new stream. -/
theorem dialSends_first (es : List Event) (target : SocketAddr) {command : Command}
    (hdial : dialUdp target 0 = .ok command) {id : StreamId}
    (hid : (run standardUdp (init Sample.clientSetup) es).streams.length = id)
    (hopens : (step standardUdp (run standardUdp (init Sample.clientSetup) es)
      (.command command)).streams =
        (run standardUdp (init Sample.clientSetup) es).streams ++ [firstStream target])
    (hsends : (step standardUdp (step standardUdp (run standardUdp (init Sample.clientSetup) es)
      (.command command)) (.command (.sendUdp id (ascii "hi") 1))).outgoing =
        (step standardUdp (run standardUdp (init Sample.clientSetup) es)
          (.command command)).outgoing ++
            [datagramPacket standardUdp (firstStream target).flow (ascii "hi")]) :
    DialSends standardUdp (run standardUdp (init Sample.clientSetup) es) target .udp
      (tunnelEnd (firstStream target).flow.2, tunnelEnd (firstStream target).flow.1)
      (datagramPacket standardUdp (firstStream target).flow (ascii "hi")) := by
  have hlater : step standardUdp (run standardUdp (init Sample.clientSetup) es)
      (.command command) = run standardUdp (step standardUdp
        (run standardUdp (init Sample.clientSetup) es) (.command command)) [] := rfl
  subst hid
  exact .udp hdial hopens hlater (by decide) hsends

/-- An exit node asks for the IPv4 address that its client dialled. -/
theorem dial_transparent_sample :
    ((run standardUdp (init (Sample.serverSetup { onUdpForward := some fun _ => some "exit" })) []
      ).receiveIp standardUdp
        (datagramPacket standardUdp (firstStream plainTarget).flow (ascii "hi"))).asked =
          [.onUdpForward plainTarget] :=
  ((dial_transparent standardUdp_standard).lookup Sample.clientSetup
    (Sample.serverSetup { onUdpForward := some fun _ => some "exit" }) [] [] plainTarget .udp _ _
      (by decide) (by decide) (dialSends_first [] plainTarget rfl rfl rfl rfl)).first
        ⟨⟨_, rfl, rfl⟩, by decide, by decide⟩ (fun h => absurd h (by decide))

/-- Two different targets have the same flow, with the same packets. -/
theorem same_flow :
    labelled ≠ unlabelled ∧ ¬IsNat64 labelled.ip ∧ ∃ flow packet,
      DialSends standardUdp (run standardUdp (init Sample.clientSetup) []) labelled .udp flow
          packet ∧
        DialSends standardUdp
          (run standardUdp (init Sample.clientSetup) [.command (.dialUdp labelled 0)]) unlabelled
            .udp flow packet :=
  ⟨by decide, by decide, _, _, dialSends_first [] labelled rfl rfl rfl rfl,
    dialSends_first [.command (.dialUdp labelled 0)] unlabelled rfl rfl rfl rfl⟩

end Actor

end Tailcat.Runtime
