import Tailcat.Runtime.Listeners

/-!
# What a packet may bring about

A packet out of a tunnel may open a TCP connection on a server, which takes memory and asks the
configuration for a handler.  It has to be a well-formed SYN of a new flow that the filter admits,
and there has to be room.

* `Receipt` : what becomes of a packet, case by case.
* `admission` : what a connection is opened for and the configuration is asked for, and that a
  packet that is malformed or filtered changes nothing but the entry of a dead datagram flow.
* `filtered_datagram` : which a filtered datagram does remove.
-/

namespace Tailcat.Runtime

open Net

/-- The configuration is asked for a TCP handler. -/
def Act.asksTcp : Act → Bool
  | .onTcp _ | .onTcpForward _ => true
  | _ => false

namespace Actor

variable {π : Platform} {a b : Actor} {config : ServerConfig} {packet : Bytes} {flow : TcpFlow}

/-! ### Packets -/

/-- A well-formed SYN of a TCP connection. -/
def OpensTcpFlow (π : Platform) (packet : Bytes) (flow : TcpFlow) : Prop :=
  ∃ ip tcp, Ipv6Packet.newChecked packet = some ip ∧ ip.version = 6 ∧ ip.nextHeader = protoTcp ∧
    π.parseTcp ip.srcAddr ip.dstAddr ip.payload = some tcp ∧ tcp.opens = true ∧
    flow = (⟨ip.dstAddr, tcp.dstPort⟩, ⟨ip.srcAddr, tcp.srcPort⟩)

/-- A packet that is not well-formed; nothing is sent from or to UDP port 0. -/
inductive Malformed (π : Platform) (packet : Bytes) : Prop
  | header (h : Ipv6Packet.newChecked packet = none)
  | version {ip : Ipv6Packet} (hip : Ipv6Packet.newChecked packet = some ip) (h : ip.version ≠ 6)
  | tcp {ip : Ipv6Packet} (hip : Ipv6Packet.newChecked packet = some ip)
      (hproto : ip.nextHeader = protoTcp)
      (h : π.parseTcp ip.srcAddr ip.dstAddr ip.payload = none)
  | udp {ip : Ipv6Packet} (hip : Ipv6Packet.newChecked packet = some ip)
      (hproto : ip.nextHeader = protoUdp)
      (h : ∀ repr, π.parseUdp ip.srcAddr ip.dstAddr ip.payload = some repr →
        repr.srcPort = 0 ∨ repr.dstPort = 0)

/-- A UDP port of the own address is served, by the configuration or by a live listener. -/
def ServesUdp (a : Actor) (port : Port) : Prop :=
  (∃ config, a.config = some config ∧ config.servedUdpPorts.admits port = true) ∨
    ∃ claim, a.listeners.lookup (true, port) = some claim ∧ claim.closed = false

/-- The stream of a datagram flow is there. -/
def IsOpen (a : Actor) (flow : UdpFlowKey) : Prop :=
  ∃ f, a.udpFlows.lookup flow = some f ∧ a.isCancelled f.stream = false

/-- A well-formed packet that the filter drops. -/
inductive Filtered (π : Platform) (a : Actor) (packet : Bytes) : Prop
  | tcp {flow : TcpFlow} (h : OfTcpFlow π packet flow) (haddr : flow.1.addr = a.localAddr)
      (hport : ¬a.Serves flow.1.port)
  | udp {flow : UdpFlowKey} {payload : Bytes} (h : OfUdpFlow π packet flow payload)
      (haddr : flow.1.ip = .v6 a.localAddr) (hport : ¬a.ServesUdp flow.1.port)
      (hopen : ¬a.IsOpen flow)
  | other {ip : Ipv6Packet} (hip : Ipv6Packet.newChecked packet = some ip)
      (hversion : ip.version = 6) (hudp : ip.nextHeader ≠ protoUdp) (htcp : ip.nextHeader ≠ protoTcp)
      (haddr : ip.dstAddr ≠ a.localAddr)

/-- A handler that is there for a connection to an address and port. -/
inductive HasHandler (a : Actor) (config : ServerConfig) (endpoint : IpEndpoint) : Handler → Prop
  | listener {claim : Claim} (haddr : endpoint.addr = a.localAddr)
      (h : a.listeners.lookup (false, endpoint.port) = some claim) (hopen : claim.closed = false) :
      HasHandler a config endpoint (.listener claim.id)
  | onTcp {f : Port → Option String} {name : String} (haddr : endpoint.addr = a.localAddr)
      (hf : config.onTcp = some f) (h : f endpoint.port = some name) :
      HasHandler a config endpoint (.service name)
  | onTcpForward {f : SocketAddr → Option String} {name : String}
      (haddr : endpoint.addr ≠ a.localAddr) (hf : config.onTcpForward = some f)
      (h : f (fromIpv6 (.new (.v6 endpoint.addr) endpoint.port)) = some name) :
      HasHandler a config endpoint (.service name)

/-- A connection may be opened for a packet, if there is a handler. -/
structure Admits (π : Platform) (a : Actor) (packet : Bytes) (flow : TcpFlow) : Prop where
  syn : OpensTcpFlow π packet flow
  served : flow.1.addr = a.localAddr → a.Serves flow.1.port
  new : ∀ link ∈ a.links, link.flow ≠ flow
  room : a.links.length < maxConnections

/-- What the configuration was asked for TCP so far. -/
def askedTcp (a : Actor) : List Act := a.trace.filter Act.asksTcp

/-- What a packet brings about on a server. -/
structure Admission (π : Platform) (a : Actor) (config : ServerConfig) (packet : Bytes) : Prop where
  /-- One connection is opened at most, for a packet that is admitted and has a handler. -/
  links : (a.receiveIp π packet).links = a.links ∨
    ∃ link handler, (a.receiveIp π packet).links = a.links ++ [link] ∧ Admits π a packet link.flow ∧
      a.HasHandler config link.flow.1 handler ∧ link.handler = some handler
  /-- The configuration is asked once at most, for a packet that is admitted. -/
  asked : (a.receiveIp π packet).askedTcp = a.askedTcp ∨
    ∃ x flow, (a.receiveIp π packet).askedTcp = a.askedTcp ++ [x] ∧ Admits π a packet flow
  /-- A malformed packet changes nothing. -/
  malformed : Malformed π packet → a.receiveIp π packet = a
  /-- A filtered packet changes nothing, if it is not a datagram. -/
  filtered : Filtered π a packet → (∀ flow payload, ¬OfUdpFlow π packet flow payload) →
    a.receiveIp π packet = a
  /-- A filtered datagram changes nothing but the entry of its flow, whose stream is gone. -/
  datagram : ∀ flow payload, Filtered π a packet → OfUdpFlow π packet flow payload →
    a.receiveIp π packet = a ∨ ∃ f, a.udpFlows.lookup flow = some f ∧
      a.isCancelled f.stream = true ∧
      a.receiveIp π packet = { a with udpFlows := a.udpFlows.erase flow }

/-! ### What becomes of a packet -/

/-- What becomes of a packet on a server. -/
inductive Receipt (π : Platform) (a : Actor) (config : ServerConfig) (packet : Bytes) :
    Actor → Prop
  | malformed (h : Malformed π packet) : Receipt π a config packet a
  /-- The filter drops a TCP segment. -/
  | filtered {flow : TcpFlow} (h : OfTcpFlow π packet flow)
      (hfilter : a.filtered config flow.1.addr flow.1.port = true) : Receipt π a config packet a
  /-- A packet of another protocol that is not for the own address. -/
  | beyond {ip : Ipv6Packet} (hip : Ipv6Packet.newChecked packet = some ip)
      (hudp : ip.nextHeader ≠ protoUdp) (htcp : ip.nextHeader ≠ protoTcp)
      (haddr : ip.dstAddr ≠ a.localAddr) : Receipt π a config packet a
  | datagram {dst : Ipv6Addr} {flow : UdpFlowKey} {payload : Bytes} {b : Actor}
      (h : OfUdpFlow π packet flow payload) (hdst : flow.1.ip = .v6 dst)
      (hb : b = a.removeCancelled flow) :
      Receipt π a config packet
        ((if flow ∈ b.udpFlows then b else b.openUdpFlow π dst flow).deliver flow payload)
  | syn {ip : Ipv6Packet} {tcp : TcpRepr} {flow : TcpFlow} (h : OpensTcpFlow π packet flow)
      (hfilter : a.filtered config flow.1.addr flow.1.port = false)
      (hflow : flow = (⟨ip.dstAddr, tcp.dstPort⟩, ⟨ip.srcAddr, tcp.srcPort⟩)) :
      Receipt π a config packet
        ((a.openSyn config ip.dstAddr ip.srcAddr tcp).pushIncoming packet)
  /-- A TCP segment that opens nothing. -/
  | segment {flow : TcpFlow} (h : OfTcpFlow π packet flow)
      (hfilter : a.filtered config flow.1.addr flow.1.port = false) :
      Receipt π a config packet (a.pushIncoming packet)
  | other {ip : Ipv6Packet} (hip : Ipv6Packet.newChecked packet = some ip)
      (hversion : ip.version = 6) (hudp : ip.nextHeader ≠ protoUdp) (htcp : ip.nextHeader ≠ protoTcp)
      (haddr : ip.dstAddr = a.localAddr) : Receipt π a config packet (a.pushIncoming packet)

theorem receipt_udp {ip : Ipv6Packet} (hip : Ipv6Packet.newChecked packet = some ip)
    (hversion : ip.version = 6) (hudp : ip.nextHeader = protoUdp) :
    Receipt π a config packet (a.udpInput π ip) := by
  unfold udpInput
  split
  · rename_i hparse
    refine .malformed (.udp hip hudp fun repr hrepr => ?_)
    rw [hparse] at hrepr
    cases hrepr
  · rename_i repr hparse
    split_ifs with hports
    · refine .malformed (.udp hip hudp fun repr' hrepr => ?_)
      rw [hparse] at hrepr
      cases hrepr
      exact hports
    · rw [not_or] at hports
      exact .datagram ⟨ip, repr, hip, hversion, hudp, hparse, hports.1, hports.2, rfl, rfl⟩ rfl rfl

/-- Every packet is one of these. -/
theorem receipt (π : Platform) (hconfig : a.config = some config) (packet : Bytes) :
    Receipt π a config packet (a.receiveIp π packet) := by
  unfold receiveIp
  split
  · rename_i hip
    exact .malformed (.header hip)
  · rename_i ip hip
    by_cases hversion : ip.version = 6
    · rw [if_neg (not_not.2 hversion)]
      by_cases hudp : ip.nextHeader = protoUdp
      · rw [if_pos hudp]
        exact receipt_udp hip hversion hudp
      · rw [if_neg hudp]
        simp only [hconfig]
        by_cases htcp : ip.nextHeader = protoTcp
        · rw [if_pos htcp]
          split
          · rename_i hparse
            exact .malformed (.tcp hip htcp hparse)
          · rename_i tcp hparse
            have hflow : OfTcpFlow π packet
                (⟨ip.dstAddr, tcp.dstPort⟩, ⟨ip.srcAddr, tcp.srcPort⟩) :=
              ⟨ip, tcp, hip, hversion, htcp, hparse, rfl⟩
            cases hfilter : a.filtered config ip.dstAddr tcp.dstPort with
            | true => exact .filtered hflow hfilter
            | false =>
              cases hopens : tcp.opens with
              | true =>
                exact .syn ⟨ip, tcp, hip, hversion, htcp, hparse, hopens, rfl⟩ hfilter rfl
              | false => exact .segment hflow hfilter
        · rw [if_neg htcp]
          by_cases haddr : ip.dstAddr = a.localAddr
          · rw [if_neg (not_not.2 haddr)]
            exact .other hip hversion hudp htcp haddr
          · rw [if_pos haddr]
            exact .beyond hip hudp htcp haddr
    · rw [if_pos hversion]
      exact .malformed (.version hip hversion)

/-! ### Opening a connection -/

theorem tcpHandler_cases (a : Actor) (config : ServerConfig) (dest : Ipv6Addr) (port : Port) :
    ((a.tcpHandler config dest port).2 = a ∨
        ∃ x : Act, x.asksTcp = true ∧ (a.tcpHandler config dest port).2 = a.act x) ∧
      ∀ handler, (a.tcpHandler config dest port).1 = some handler →
        a.HasHandler config ⟨dest, port⟩ handler := by
  unfold tcpHandler
  split
  · rename_i claim hclaim
    refine ⟨.inl rfl, ?_⟩
    rintro handler hhandler
    cases hhandler
    unfold liveListener at hclaim
    split_ifs at hclaim with haddr
    obtain ⟨hlookup, hopen⟩ := Option.filter_eq_some_iff.1 hclaim
    exact .listener haddr hlookup (by simpa using hopen)
  · split_ifs with haddr
    · split
      · rename_i f hf
        refine ⟨.inr ⟨_, rfl, rfl⟩, ?_⟩
        intro handler hhandler
        obtain ⟨name, hname, rfl⟩ := Option.map_eq_some_iff.1 hhandler
        exact .onTcp haddr hf hname
      · exact ⟨.inl rfl, by simp⟩
    · split
      · rename_i f hf
        refine ⟨.inr ⟨_, rfl, rfl⟩, ?_⟩
        intro handler hhandler
        obtain ⟨name, hname, rfl⟩ := Option.map_eq_some_iff.1 hhandler
        exact .onTcpForward haddr hf hname
      · exact ⟨.inl rfl, by simp⟩

/-- A connection is opened only where there is room for a new flow. -/
theorem openSyn_cases (a : Actor) (config : ServerConfig) (dest src : Ipv6Addr) (tcp : TcpRepr) :
    let flow : TcpFlow := (⟨dest, tcp.dstPort⟩, ⟨src, tcp.srcPort⟩)
    a.openSyn config dest src tcp = a ∨
      ((∀ link ∈ a.links, link.flow ≠ flow) ∧ a.links.length < maxConnections ∧
        (a.openSyn config dest src tcp = (a.tcpHandler config dest tcp.dstPort).2 ∨
          ∃ handler socket, (a.tcpHandler config dest tcp.dstPort).1 = some handler ∧
            a.openSyn config dest src tcp =
              (a.tcpHandler config dest tcp.dstPort).2.openLink socket flow none
                (some handler))) := by
  intro flow
  unfold openSyn
  dsimp only
  split_ifs with hroom
  · refine .inr ⟨by simpa [flow] using hroom.1, hroom.2, ?_⟩
    split
    · rename_i handler b heq
      rw [heq]
      split
      · rename_i socket hsocket
        exact .inr ⟨handler, socket, rfl, rfl⟩
      · exact .inl rfl
    · rename_i b heq
      rw [heq]
      exact .inl rfl
  · exact .inl rfl

theorem askedTcp_act {x : Act} (a : Actor) (h : x.asksTcp = true) :
    (a.act x).askedTcp = a.askedTcp ++ [x] := by
  simp [askedTcp, act, h]

/-- What a SYN that is not filtered brings about. -/
theorem links_openSyn (a : Actor) (config : ServerConfig) (dest src : Ipv6Addr) (tcp : TcpRepr) :
    let flow : TcpFlow := (⟨dest, tcp.dstPort⟩, ⟨src, tcp.srcPort⟩)
    let b := a.openSyn config dest src tcp
    (b.links = a.links ∨ ∃ link handler, b.links = a.links ++ [link] ∧ link.flow = flow ∧
        (∀ link ∈ a.links, link.flow ≠ flow) ∧ a.links.length < maxConnections ∧
        a.HasHandler config flow.1 handler ∧ link.handler = some handler) ∧
      (b.askedTcp = a.askedTcp ∨ ∃ x, b.askedTcp = a.askedTcp ++ [x] ∧
        (∀ link ∈ a.links, link.flow ≠ flow) ∧ a.links.length < maxConnections) := by
  intro flow b
  obtain ⟨hasked, hhandler⟩ := tcpHandler_cases a config dest tcp.dstPort
  have hlinks : (a.tcpHandler config dest tcp.dstPort).2.links = a.links := by
    obtain hb | ⟨x, -, hb⟩ := hasked
    · rw [hb]
    · rw [hb]
      rfl
  have hasked' : (a.tcpHandler config dest tcp.dstPort).2.askedTcp = a.askedTcp ∨
      ∃ x, (a.tcpHandler config dest tcp.dstPort).2.askedTcp = a.askedTcp ++ [x] := by
    obtain hb | ⟨x, hx, hb⟩ := hasked
    · rw [hb]
      exact .inl rfl
    · rw [hb]
      exact .inr ⟨x, askedTcp_act a hx⟩
  obtain hb | ⟨hnew, hroom, hb | ⟨handler, socket, hsome, hb⟩⟩ := openSyn_cases a config dest src tcp
  · rw [show b = a from hb]
    exact ⟨.inl rfl, .inl rfl⟩
  · rw [show b = _ from hb]
    refine ⟨.inl hlinks, hasked'.imp_right ?_⟩
    rintro ⟨x, hx⟩
    exact ⟨x, hx, hnew, hroom⟩
  · have hopened : ∃ link : Link, b.links = a.links ++ [link] ∧ link.flow = flow ∧
        link.handler = some handler := by
      rw [show b = _ from hb, ← hlinks]
      exact ⟨_, rfl, rfl, rfl⟩
    obtain ⟨link, hblinks, hflow, hlink⟩ := hopened
    refine ⟨.inr ⟨link, handler, hblinks, hflow, hnew, hroom, hhandler handler hsome, hlink⟩, ?_⟩
    rw [show b = _ from hb]
    refine hasked'.imp_right ?_
    rintro ⟨x, hx⟩
    exact ⟨x, hx, hnew, hroom⟩

/-! ### Datagrams -/

/-- The states differ in their datagram flows, and in what was done that asks for no TCP handler. -/
structure OnlyDatagrams (a b : Actor) : Prop where
  eq : b = { a with
    udpFlows := b.udpFlows, streams := b.streams, trace := b.trace, draws := b.draws }
  asked : b.askedTcp = a.askedTcp

namespace OnlyDatagrams

theorem refl (a : Actor) : OnlyDatagrams a a := ⟨rfl, rfl⟩

theorem trans {c : Actor} (h : OnlyDatagrams a b) (h' : OnlyDatagrams b c) :
    OnlyDatagrams a c := by
  refine ⟨?_, h'.asked.trans h.asked⟩
  have heq := h'.eq
  rw [h.eq] at heq
  exact heq

theorem act {x : Act} (a : Actor) (h : x.asksTcp = false) : OnlyDatagrams a (a.act x) :=
  ⟨rfl, by simp [askedTcp, Actor.act, h]⟩

theorem draw (a : Actor) : OnlyDatagrams a a.draw := ⟨rfl, rfl⟩

theorem newUdpFlow (a : Actor) (flow : UdpFlowKey) : OnlyDatagrams a (a.newUdpFlow flow).2 := by
  rw [newUdpFlow_eq]
  exact ⟨rfl, rfl⟩

theorem removeCancelled (a : Actor) (flow : UdpFlowKey) :
    OnlyDatagrams a (a.removeCancelled flow) := by
  rw [removeCancelled_eq]
  exact ⟨rfl, rfl⟩

theorem deliver (a : Actor) (flow : UdpFlowKey) (payload : Bytes) :
    OnlyDatagrams a (a.deliver flow payload) := by
  unfold Actor.deliver
  split
  · exact .refl a
  · dsimp only
    split
    · split_ifs
      · exact ⟨rfl, by simp [askedTcp, Actor.act, Act.asksTcp]⟩
      · exact ⟨rfl, rfl⟩
    · exact ⟨rfl, rfl⟩

theorem udpHandler (a : Actor) (config : ServerConfig) (dst : Ipv6Addr) (flow : UdpFlowKey) :
    OnlyDatagrams a (a.udpHandler config dst flow).2 := by
  unfold Actor.udpHandler
  split_ifs
  · split
    · exact .act a rfl
    · exact .refl a
  · split
    · exact .act a rfl
    · exact .refl a

theorem openUdpFlow (π : Platform) (a : Actor) (dst : Ipv6Addr) (flow : UdpFlowKey) :
    OnlyDatagrams a (a.openUdpFlow π dst flow) := by
  unfold Actor.openUdpFlow
  split
  · exact .refl a
  · rename_i config _
    split
    · exact .refl a
    · dsimp only
      split
      · exact .refl a
      · have hhandler := udpHandler a config dst flow
        generalize a.udpHandler config dst flow = p at hhandler ⊢
        obtain ⟨handler, b⟩ := p
        refine .trans hhandler ?_
        split
        · exact .refl b
        · dsimp only
          split_ifs
          · exact ((newUdpFlow b flow).trans (draw _)).trans (act _ rfl)
          · exact ((newUdpFlow b flow).trans (draw _)).trans ⟨rfl, rfl⟩
        · exact (newUdpFlow b flow).trans (act _ rfl)

end OnlyDatagrams

/-! ### The filter -/

theorem filtered_iff_addr (hconfig : a.config = some config) (endpoint : IpEndpoint) :
    a.filtered config endpoint.addr endpoint.port = true ↔
      endpoint.addr = a.localAddr ∧ ¬a.Serves endpoint.port := by
  by_cases haddr : endpoint.addr = a.localAddr
  · rw [haddr, filtered_iff hconfig]
    simp
  · simp [filtered, haddr]

theorem liveListener_eq_none (udp : Bool) (port : Port)
    (h : ¬∃ claim, a.listeners.lookup (udp, port) = some claim ∧ claim.closed = false) :
    a.liveListener udp a.localAddr port = none := by
  rw [liveListener, if_pos rfl, Option.filter_eq_none_iff]
  rintro claim hclaim
  cases hclosed : claim.closed with
  | true => simp
  | false => exact (h ⟨claim, hclaim, hclosed⟩).elim

theorem not_mem_removeCancelled {flow : UdpFlowKey} (h : ¬a.IsOpen flow) :
    flow ∉ (a.removeCancelled flow).udpFlows := by
  unfold removeCancelled
  split
  · rename_i f hf
    split_ifs with hcancelled
    · rw [← AList.lookup_isSome]
      simp
    · exact (h ⟨f, hf, by simpa using hcancelled⟩).elim
  · rename_i hf
    exact AList.lookup_eq_none.1 hf

/-- A datagram that the filter drops opens no flow. -/
theorem openUdpFlow_of_filtered (π : Platform) (hconfig : a.config = some config)
    {flow : UdpFlowKey} (hport : ¬a.ServesUdp flow.1.port) :
    a.openUdpFlow π a.localAddr flow = a := by
  have hadmits : config.servedUdpPorts.admits flow.1.port = false := by
    by_contra h
    exact hport (.inl ⟨config, hconfig, by simpa using h⟩)
  have hlistener : a.liveListener true a.localAddr flow.1.port = none :=
    liveListener_eq_none true flow.1.port fun hlive => hport (.inr hlive)
  simp [openUdpFlow, hconfig, hlistener, hadmits]

theorem deliver_of_not_mem {flow : UdpFlowKey} (payload : Bytes) (h : flow ∉ a.udpFlows) :
    a.deliver flow payload = a := by
  rw [deliver, AList.lookup_eq_none.2 h]

/-- What the receipt of a filtered datagram comes to. -/
theorem receiveUdp_of_filtered (π : Platform) (hconfig : a.config = some config)
    {flow : UdpFlowKey} (payload : Bytes) {dst : Ipv6Addr} (hdst : flow.1.ip = .v6 dst)
    (haddr : flow.1.ip = .v6 a.localAddr) (hport : ¬a.ServesUdp flow.1.port)
    (hopen : ¬a.IsOpen flow) (hb : b = a.removeCancelled flow) :
    (if flow ∈ b.udpFlows then b else b.openUdpFlow π dst flow).deliver flow payload = b := by
  have hmem : flow ∉ b.udpFlows := hb ▸ not_mem_removeCancelled hopen
  have heq := removeCancelled_eq a flow
  rw [← hb] at heq
  have hlocal : b.localAddr = a.localAddr := by rw [heq]
  have hport' : ¬b.ServesUdp flow.1.port := by
    rw [heq]
    exact hport
  have hconfig' : b.config = some config := by
    rw [heq]
    exact hconfig
  obtain rfl : dst = b.localAddr := by
    rw [hlocal]
    exact IpAddr.v6.inj (hdst.symm.trans haddr)
  rw [if_neg hmem, openUdpFlow_of_filtered π hconfig' hport', deliver_of_not_mem payload hmem]

/-! ### The results -/

theorem Malformed.receiveIp (h : Malformed π packet) (hconfig : a.config = some config) :
    a.receiveIp π packet = a := by
  cases h with
  | header h => simp only [Actor.receiveIp, h]
  | version hip h => simp only [Actor.receiveIp, hip, if_pos h]
  | tcp hip hproto h =>
    have hudp : ¬(protoTcp = protoUdp) := by decide
    simp only [Actor.receiveIp, hip, hproto, hudp, if_false, hconfig, if_true, h, ite_self]
  | @udp ip hip hproto h =>
    simp only [Actor.receiveIp, hip, hproto, if_true, udpInput]
    split_ifs with hversion
    · rfl
    · split
      · rfl
      · rename_i repr hrepr
        rw [if_pos (h repr hrepr)]

theorem receiveIp_udp {flow : UdpFlowKey} {payload : Bytes} (h : OfUdpFlow π packet flow payload) :
    ∃ dst, flow.1.ip = .v6 dst ∧ a.receiveIp π packet =
      (if flow ∈ (a.removeCancelled flow).udpFlows then a.removeCancelled flow
        else (a.removeCancelled flow).openUdpFlow π dst flow).deliver flow payload := by
  obtain ⟨ip, repr, hip, hversion, hproto, hparse, hsrc, hdst, hpayload, rfl⟩ := h
  refine ⟨ip.dstAddr, rfl, ?_⟩
  simp only [receiveIp, hip, hversion, ne_eq, not_true_eq_false, if_false, hproto, if_true, udpInput,
    hparse, hsrc, hdst, or_self, hpayload]

theorem removeCancelled_cases (a : Actor) (flow : UdpFlowKey) : a.removeCancelled flow = a ∨
    ∃ f, a.udpFlows.lookup flow = some f ∧ a.isCancelled f.stream = true ∧
      a.removeCancelled flow = { a with udpFlows := a.udpFlows.erase flow } := by
  unfold removeCancelled
  split
  · rename_i f hf
    split_ifs with hcancelled
    · exact .inr ⟨f, hf, hcancelled, rfl⟩
    · exact .inl rfl
  · exact .inl rfl

/-- What a filtered packet does. -/
theorem Filtered.receiveIp (h : Filtered π a packet) (hconfig : a.config = some config) :
    a.receiveIp π packet = a ∨ ∃ flow payload f, OfUdpFlow π packet flow payload ∧
      a.udpFlows.lookup flow = some f ∧ a.isCancelled f.stream = true ∧
      a.receiveIp π packet = { a with udpFlows := a.udpFlows.erase flow } := by
  cases h with
  | tcp h haddr hport =>
    obtain ⟨ip, tcp, hip, hversion, hproto, hparse, rfl⟩ := h
    have hfilter : a.filtered config ip.dstAddr tcp.dstPort = true :=
      (filtered_iff_addr hconfig ⟨ip.dstAddr, tcp.dstPort⟩).2 ⟨haddr, hport⟩
    have hudp : ¬(protoTcp = protoUdp) := by decide
    refine .inl ?_
    simp only [Actor.receiveIp, hip, hversion, ne_eq, not_true_eq_false, if_false, hproto, hudp,
      hconfig, if_true, hparse, hfilter]
  | @udp flow payload h haddr hport hopen =>
    obtain ⟨dst, hdst, hreceive⟩ := receiveIp_udp (a := a) h
    rw [receiveUdp_of_filtered π hconfig payload hdst haddr hport hopen rfl] at hreceive
    rw [hreceive]
    refine (removeCancelled_cases a flow).imp_right ?_
    rintro ⟨f, hf, hcancelled, hremoved⟩
    exact ⟨flow, payload, f, h, hf, hcancelled, hremoved⟩
  | other hip hversion hudp htcp haddr =>
    refine .inl ?_
    simp only [Actor.receiveIp, hip, hversion, ne_eq, not_true_eq_false, if_false, hudp, hconfig,
      htcp, haddr, not_false_eq_true, if_true]

theorem OfUdpFlow.unique {flow flow' : UdpFlowKey} {payload payload' : Bytes}
    (h : OfUdpFlow π packet flow payload) (h' : OfUdpFlow π packet flow' payload') :
    flow = flow' := by
  obtain ⟨ip, repr, hip, -, -, hparse, -, -, -, rfl⟩ := h
  obtain ⟨ip', repr', hip', -, -, hparse', -, -, -, rfl⟩ := h'
  cases hip.symm.trans hip'
  cases hparse.symm.trans hparse'
  rfl

/-- What a packet does to the connections, and what is asked for it. -/
theorem Receipt.opens (h : Receipt π a config packet b) (hconfig : a.config = some config) :
    (b.links = a.links ∨ ∃ link handler, b.links = a.links ++ [link] ∧
        Admits π a packet link.flow ∧ a.HasHandler config link.flow.1 handler ∧
        link.handler = some handler) ∧
      (b.askedTcp = a.askedTcp ∨
        ∃ x flow, b.askedTcp = a.askedTcp ++ [x] ∧ Admits π a packet flow) := by
  cases h with
  | malformed | filtered | beyond | segment | other => exact ⟨.inl rfl, .inl rfl⟩
  | @datagram dst flow payload b h hdst hb =>
    have hremoved : OnlyDatagrams a b := by
      rw [hb]
      exact .removeCancelled a flow
    have hopened : OnlyDatagrams a (if flow ∈ b.udpFlows then b else b.openUdpFlow π dst flow) := by
      split_ifs
      · exact hremoved
      · exact hremoved.trans (.openUdpFlow π b dst flow)
    have hdelivered := hopened.trans (.deliver _ flow payload)
    refine ⟨.inl ?_, .inl hdelivered.asked⟩
    rw [hdelivered.eq]
  | @syn ip tcp flow h hfilter hflow =>
    have hserved : flow.1.addr = a.localAddr → a.Serves flow.1.port := by
      intro haddr
      by_contra hport
      have hfiltered := (filtered_iff_addr hconfig flow.1).2 ⟨haddr, hport⟩
      rw [hfilter] at hfiltered
      cases hfiltered
    obtain ⟨hlinks, hasked⟩ := links_openSyn a config ip.dstAddr ip.srcAddr tcp
    rw [← hflow] at hlinks hasked
    refine ⟨hlinks.imp_right ?_, hasked.imp_right ?_⟩
    · rintro ⟨link, handler, hopened, heq, hnew, hroom, hhandler, hlink⟩
      rw [← heq] at h hserved hnew hhandler
      exact ⟨link, handler, hopened, ⟨h, hserved, hnew, hroom⟩, hhandler, hlink⟩
    · rintro ⟨x, hx, hnew, hroom⟩
      exact ⟨x, flow, hx, ⟨h, hserved, hnew, hroom⟩⟩

/-- **Whatever packet comes out of a tunnel in whatever state of a server**, it opens one connection
at most and asks the configuration once at most, and only as a well-formed SYN of a new flow that is
served and has room; a malformed or filtered packet changes nothing but the entry of a datagram flow
whose stream is gone. -/
theorem admission (π : Platform) (setup : Setup) (config : ServerConfig) (es : List Event)
    (packet : Bytes) : ∃ config',
      (run π (init (setup.serving config)) es).config = some config' ∧
      Admission π (run π (init (setup.serving config)) es) config' packet := by
  have hserver := (run_sourcesChecked (π := π) setup config es).server
  generalize run π (init (setup.serving config)) es = a at hserver
  obtain ⟨config', hconfig⟩ := Option.isSome_iff_exists.1 hserver
  obtain ⟨hlinks, hasked⟩ := (receipt π hconfig packet).opens hconfig
  refine ⟨config', hconfig, hlinks, hasked, fun h => h.receiveIp hconfig,
    fun h hnot => ?_, fun flow payload h hof => ?_⟩
  · obtain hsame | ⟨flow, payload, f, hof, -⟩ := h.receiveIp hconfig
    · exact hsame
    · exact (hnot flow payload hof).elim
  · refine (h.receiveIp hconfig).imp_right ?_
    rintro ⟨flow', payload', f, hof', hf, hcancelled, hreceive⟩
    obtain rfl := hof.unique hof'
    exact ⟨f, hf, hcancelled, hreceive⟩

open Sample in
/-- A client's datagram was taken by a listener that is gone, and so is the stream; the next one is
filtered, and removes the entry of the flow. -/
theorem filtered_datagram :
    let flow := (inside (keyOf 1) 53, inside (keyOf 2) 1000)
    let packet := datagramPacket sample flow.swap [1]
    let a := run sample (init ((serverSetup {}).serving { servedUdpPorts := some [] })) [
      registration (keyOf 2) (keyOf 130), .command (.listen true 53 0),
      tunnelled (keyOf 2) packet, .dropStream 0, .dropListener 0]
    Filtered sample a packet ∧ a.udpFlows.keys = [flow] ∧
      (a.receiveIp sample packet).udpFlows.keys = [] := by
  intro flow packet a
  have hflow : OfUdpFlow sample packet flow [1] := by
    refine ⟨(Ipv6Packet.newChecked packet).get (by decide +kernel), ⟨1000, 53, [1]⟩,
      (Option.some_get _).symm, ?_⟩
    decide +kernel
  have hserved : (a.config.any fun config => config.servedUdpPorts.admits 53) = false := by
    decide +kernel
  have hlistener : ((a.listeners.lookup (true, 53)).any fun claim => !claim.closed) = false := by
    decide +kernel
  have hopen : ((a.udpFlows.lookup flow).any fun f => !a.isCancelled f.stream) = false := by
    decide +kernel
  refine ⟨.udp hflow (by decide +kernel) ?_ ?_, by decide +kernel, by decide +kernel⟩
  · rw [show flow.1.port = 53 from rfl]
    rintro (⟨config, hconfig, hadmits⟩ | ⟨claim, hclaim, hopen⟩)
    · simp [hconfig, hadmits] at hserved
    · rw [hclaim] at hlistener
      simp [hopen] at hlistener
  · rintro ⟨f, hf, hcancelled⟩
    rw [hf] at hopen
    simp [hcancelled] at hopen

end Actor

end Tailcat.Runtime
