import Tailcat.Runtime.PortClaims
import Tailcat.Runtime.Admission

/-!
# Flows to claimed ports

A new flow to a port of the own address goes to the listener that claims the port, before the packet
filter and the services of the configuration are looked at.  A handler is started for the pipe of
its link, but the network stack decides which connection the link's socket takes (`ownSyn`).

* `tcp_claimed`, `udp_claimed` : the first packet of a flow to a claimed port.
* `run_opened` : a handler that is started is the one its link was opened with.
* `listeners_exclusive` : the claims of a run, and what they are for.
* `claimed_port_served` : a connection to a claimed port that a service is given.
-/

namespace Tailcat.Runtime.Actor

open Net

variable {π : Platform} {Q : Actor → PollAction → Prop} {s a b : Actor} {e : Event}
  {config : ServerConfig} {packet payload : Bytes} {port : Port} {id : ℕ} {setup : Setup}
  {handler : Handler} {es : List Event}

/-! ### First packets -/

/-- The claims are those of another state, as they are while an event's packets are received. -/
structure SameClaims (a b : Actor) : Prop where
  listeners : b.listeners = a.listeners
  localAddr : b.localAddr = a.localAddr
  config : b.config.isSome = a.config.isSome

/-- A connection is opened for a listener, and nothing is asked or started. -/
def OpensFor (π : Platform) (a : Actor) (packet : Bytes) (flow : TcpFlow) (id : ℕ) : Prop :=
  (a.receiveIp π packet).trace = a.trace ∧ ∃ link, (a.receiveIp π packet).links = a.links ++ [link] ∧
    link.flow = flow ∧ link.handler = some (.listener id)

/-- A datagram flow is opened, its stream is offered to a listener, and nothing else is started. -/
structure OffersTo (π : Platform) (a : Actor) (packet : Bytes) (flow : UdpFlowKey) (id : ℕ) :
    Prop where
  stream : ∃ st, (a.receiveIp π packet).streams[a.streams.length]? = some st ∧ st.flow = flow
  acts : ∃ new, (a.receiveIp π packet).trace = a.trace ++ new ∧
    (∀ handler stream, .serveUdp handler stream ∈ new →
      handler = .listener id ∧ stream = a.streams.length) ∧
    -- a listener takes it unless its queue is full
    (π.appRoom a.draws = true → .serveUdp (.listener id) a.streams.length ∈ new)

theorem liveListener_iff {udp : Bool} : (∃ claim, a.liveListener udp a.localAddr port = some claim ∧
    claim.id = id) ↔ a.Holds udp port id := by
  unfold Holds liveListener
  rw [if_pos rfl]
  constructor
  · rintro ⟨⟨id', closed⟩, hclaim, rfl⟩
    obtain ⟨hlookup, hopen⟩ := Option.filter_eq_some_iff.1 hclaim
    obtain rfl : closed = false := by simpa using hopen
    exact hlookup
  · intro hlookup
    exact ⟨{ id, closed := false }, by rw [hlookup]; rfl, rfl⟩

/-- The SYN of a new flow to a claimed port opens a connection for the listener, whatever ports are
served. -/
theorem tcp_claimed {flow : TcpFlow} (hconfig : a.config = some config)
    (hheld : a.Holds false port id) (hport : port ≠ 0) (hsyn : OpensTcpFlow π packet flow)
    (hflow : flow.1 = ⟨a.localAddr, port⟩) (hnew : ∀ link ∈ a.links, link.flow ≠ flow)
    (hroom : a.links.length < maxConnections) : OpensFor π a packet flow id := by
  obtain ⟨ip, tcp, hip, hversion, hproto, hparse, hopens, rfl⟩ := hsyn
  simp only [IpEndpoint.mk.injEq] at hflow
  obtain ⟨hdst, rfl⟩ := hflow
  obtain ⟨claim, hlive, rfl⟩ := liveListener_iff.2 hheld
  rw [← hdst] at hlive
  have hfilter : a.filtered config ip.dstAddr tcp.dstPort = false := by
    simp [filtered, hlive]
  have hudp : ¬(protoTcp = protoUdp) := by decide
  have hreceive : a.receiveIp π packet =
      (a.openSyn config ip.dstAddr ip.srcAddr tcp).pushIncoming packet := by
    simp only [receiveIp, hip, hversion, ne_eq, not_true_eq_false, if_false, hproto, hudp, hconfig,
      if_true, hparse, hfilter, hopens, Bool.false_eq_true]
  have hdup : (a.links.any fun link =>
      decide (link.flow = (⟨ip.dstAddr, tcp.dstPort⟩, ⟨ip.srcAddr, tcp.srcPort⟩))) = false := by
    simpa using hnew
  have hsyn : a.openSyn config ip.dstAddr ip.srcAddr tcp =
      a.openLink { state := .listen, listenEndpoint := some ⟨ip.dstAddr, tcp.dstPort⟩ }
        (⟨ip.dstAddr, tcp.dstPort⟩, ⟨ip.srcAddr, tcp.srcPort⟩) none
        (some (.listener claim.id)) := by
    simp only [openSyn, hdup, Bool.not_false, hroom, and_self, if_true, tcpHandler_claimed hlive,
      Socket.listen, hport, if_false]
  unfold OpensFor
  rw [hreceive, hsyn]
  exact ⟨rfl, _, rfl, rfl, rfl⟩

/-- The configuration is asked for a handler, if it can be. -/
theorem udpHandler_own (a : Actor) (config : ServerConfig) (flow : UdpFlowKey) :
    ∃ asked, (asked = [] ∨ asked = [.onUdp flow.1.port]) ∧
      (a.udpHandler config a.localAddr flow).2 = { a with trace := a.trace ++ asked } := by
  unfold udpHandler
  rw [if_pos rfl]
  split
  · exact ⟨_, .inr rfl, rfl⟩
  · refine ⟨[], .inl rfl, ?_⟩
    rw [List.append_nil]

theorem newUdpFlow_of_notMem {flow : UdpFlowKey} (h : flow ∉ a.udpFlows) :
    a.newUdpFlow flow = (a.streams.length, { a with
      udpFlows := a.udpFlows.insert flow { stream := a.streams.length, touched := a.now }
      streams := a.streams ++ [{ flow := flow }] }) := by
  rw [newUdpFlow, AList.lookup_eq_none.2 h]

/-- The states before and after a datagram flow is opened for a listener. -/
structure Offered (π : Platform) (a b : Actor) (flow : UdpFlowKey) (id : ℕ) : Prop where
  stream : ∃ st, b.streams = a.streams ++ [st] ∧ st.flow = flow
  acts : ∃ asked offered, b.trace = a.trace ++ (asked ++ offered) ∧
    (asked = [] ∨ asked = [.onUdp flow.1.port]) ∧
    offered = if π.appRoom a.draws then [.serveUdp (.listener id) a.streams.length] else []

theorem offered_openUdpFlow {flow : UdpFlowKey} {claim : Claim} (hconfig : a.config = some config)
    (hlive : a.liveListener true a.localAddr flow.1.port = some claim) (hnew : flow ∉ a.udpFlows)
    (hroom : a.udpFlows.size < maxConnections) :
    Offered π a (a.openUdpFlow π a.localAddr flow) flow claim.id := by
  obtain ⟨asked, hasked, hhandler⟩ := udpHandler_own a config flow
  have hopen : a.openUdpFlow π a.localAddr flow =
      let b := (a.udpHandler config a.localAddr flow).2
      if π.appRoom (b.newUdpFlow flow).2.draws then
        (b.newUdpFlow flow).2.draw.act (.serveUdp (.listener claim.id) (b.newUdpFlow flow).1)
      else (b.newUdpFlow flow).2.draw.dropStream (b.newUdpFlow flow).1 := by
    simp only [openUdpFlow, hconfig, Nat.not_le.2 hroom, if_false, hlive, Option.isNone_some,
      Bool.false_eq_true, false_and]
  have hnew' : flow ∉ ({ a with trace := a.trace ++ asked } : Actor).udpFlows := hnew
  rw [hopen, hhandler]
  dsimp only
  rw [newUdpFlow_of_notMem hnew']
  dsimp only
  split_ifs with hspace
  · refine ⟨⟨_, rfl, rfl⟩, asked, _, ?_, hasked, (if_pos hspace).symm⟩
    exact List.append_assoc _ _ _
  · refine ⟨⟨{ flow := flow, cancelled := true, dropped := true }, ?_, rfl⟩, asked, [], ?_, hasked,
      (if_neg hspace).symm⟩
    · exact modify_concat a.streams { flow := flow } _
    · rw [List.append_nil]
      rfl

/-- A delivery is recorded, and keeps the flows of the streams. -/
theorem deliver_adds (a : Actor) (flow : UdpFlowKey) (payload : Bytes) :
    (∃ new, (a.deliver flow payload).trace = a.trace ++ new ∧
        ∀ handler stream, .serveUdp handler stream ∉ new) ∧
      ∀ id : StreamId, (((a.deliver flow payload).streams[id]?).map (·.flow)) =
        (a.streams[id]?).map (·.flow) := by
  have hsame : (∃ new, a.trace = a.trace ++ new ∧ ∀ handler stream, .serveUdp handler stream ∉ new) :=
    ⟨[], (List.append_nil _).symm, by simp⟩
  unfold deliver
  split
  · exact ⟨hsame, fun _ => rfl⟩
  · rename_i state _
    dsimp only
    split
    · split_ifs
      · refine ⟨⟨[.deliver state.stream payload], rfl, by simp⟩, fun id => ?_⟩
        simp only [act, List.getElem?_modify]
        cases a.streams[id]? with
        | none => rfl
        | some st =>
          simp only [Option.map_eq_map, Option.map_some]
          split_ifs <;> rfl
      · exact ⟨hsame, fun _ => rfl⟩
    · exact ⟨hsame, fun _ => rfl⟩

/-- The first datagram of a new flow to a claimed port opens the flow for the listener, whatever
ports are served. -/
theorem udp_claimed {flow : UdpFlowKey} (hconfig : a.config = some config)
    (hheld : a.Holds true port id) (hof : OfUdpFlow π packet flow payload)
    (hflow : flow.1 = .new (.v6 a.localAddr) port) (hnew : ¬a.IsOpen flow)
    (hroom : (a.removeCancelled flow).udpFlows.size < maxConnections) :
    OffersTo π a packet flow id := by
  obtain ⟨dst, hdst, hreceive⟩ := receiveIp_udp (a := a) hof
  obtain rfl : dst = a.localAddr := by
    rw [hflow, SocketAddr.ip_new] at hdst
    exact (IpAddr.v6.inj hdst).symm
  have hmem := not_mem_removeCancelled hnew
  have hremoved := removeCancelled_eq a flow
  generalize a.removeCancelled flow = b at *
  -- what is removed leaves all but the table of flows as it is
  have hlocal : b.localAddr = a.localAddr := by rw [hremoved]
  have hdraws : b.draws = a.draws := by rw [hremoved]
  have hstreams : b.streams = a.streams := by rw [hremoved]
  have htrace : b.trace = a.trace := by rw [hremoved]
  have hconfig' : b.config = some config := by
    rw [hremoved]
    exact hconfig
  have hheld' : b.Holds true port id := by
    rw [hremoved]
    exact hheld
  obtain ⟨claim, hlive, rfl⟩ := liveListener_iff.2 hheld'
  rw [← SocketAddr.port_new (.v6 a.localAddr) port, ← hflow] at hlive
  obtain ⟨⟨st, hopened, hst⟩, asked, offered, hacts, hasked, hoffered⟩ :=
    offered_openUdpFlow (π := π) hconfig' hlive hmem hroom
  rw [if_neg hmem, ← hlocal] at hreceive
  generalize b.openUdpFlow π b.localAddr flow = c at *
  obtain ⟨⟨new, hdelivered, hserve⟩, hkept⟩ := deliver_adds c flow payload
  have hofferedMem : ∀ x ∈ offered, x = .serveUdp (.listener claim.id) a.streams.length := by
    intro x hx
    rw [hoffered, hstreams] at hx
    split_ifs at hx
    · exact List.mem_singleton.1 hx
    · cases hx
  refine ⟨?_, asked ++ offered ++ new, ?_, fun handler stream hmem => ?_, fun hspace => ?_⟩
  · rw [hreceive, ← Option.map_eq_some_iff]
    have hlast := hkept a.streams.length
    rw [hopened, hstreams, List.getElem?_concat_length, Option.map_some, hst] at hlast
    exact hlast
  · rw [hreceive, hdelivered, hacts, htrace]
    simp only [List.append_assoc]
  · rcases List.mem_append.1 hmem with hmem | hmem
    · rcases List.mem_append.1 hmem with hmem | hmem
      · obtain rfl | rfl := hasked
        · cases hmem
        · cases List.mem_singleton.1 hmem
      · cases hofferedMem _ hmem
        exact ⟨rfl, rfl⟩
    · exact (hserve _ _ hmem).elim
  · rw [hoffered, hdraws, if_pos hspace, hstreams]
    simp

/-! ### Later -/

/-- Where a link with a handler comes from: it was there with that handler, or it is a new one. -/
theorem Small.handler_of_link (h : Small π Q s e a b) {link : Link} (hlink : link ∈ b.links)
    (hhandler : link.handler = some handler) :
    (∃ old ∈ a.links, old.pipe = link.pipe ∧ old.flow = link.flow ∧ old.handler = some handler) ∨
      Receives e ∧ link.pipe = a.pipes.length ∧ a.TakenBy link.flow handler := by
  cases h.conns with
  | same hlinks => exact .inl ⟨link, hlinks ▸ hlink, rfl, rfl, hhandler⟩
  | accepted he _ htaken =>
    obtain hlink | hlink := List.mem_append.1 hlink
    · exact .inl ⟨link, hlink, rfl, rfl, hhandler⟩
    · rw [List.mem_singleton.1 hlink] at hhandler ⊢
      cases hhandler
      exact .inr ⟨he, rfl, htaken⟩
  | dialled =>
    obtain hlink | hlink := List.mem_append.1 hlink
    · exact .inl ⟨link, hlink, rfl, rfl, hhandler⟩
    · rw [List.mem_singleton.1 hlink] at hhandler
      cases hhandler
  | polled =>
    rw [pollAction_eq] at hlink
    exact .inl ⟨link, hlink, rfl, rfl, hhandler⟩
  | @round _ index c hc =>
    have hgoes := Conn.poll_goes (a.surroundings π) c
    obtain hlink | rfl := List.mem_or_eq_of_mem_set hlink
    · exact .inl ⟨link, hlink, rfl, rfl, hhandler⟩
    · exact .inl ⟨c.link, List.mem_of_getElem? (connAt_eq_some.1 hc).1, hgoes.pipe.symm,
        hgoes.flow.symm, hgoes.handler handler hhandler⟩
  | removed hc =>
    rw [removeLink_of_connAt hc] at hlink
    exact .inl ⟨link, mem_of_mem_swapRemove (lt_of_connAt hc) hlink, rfl, rfl, hhandler⟩
  | app => exact .inl ⟨link, hlink, rfl, rfl, hhandler⟩

/-- What is known in the course of an event: the claims while packets arrive, and where the links
with handlers come from. -/
structure Midway (a : Actor) (e : Event) (b : Actor) : Prop where
  pipes : a.pipes.length ≤ b.pipes.length
  localAddr : b.localAddr = a.localAddr
  claims : Receives e → ∀ udp port id, b.Holds udp port id ↔ a.Holds udp port id
  links : ∀ link ∈ b.links, ∀ handler, link.handler = some handler →
    (∃ old ∈ a.links, old.pipe = link.pipe ∧ old.flow = link.flow ∧ old.handler = some handler) ∨
      Receives e ∧ a.pipes.length ≤ link.pipe ∧ (link.flow.1.addr = a.localAddr →
        ∀ id, a.Holds false link.flow.1.port id → handler = .listener id)

theorem Midway.refl (a : Actor) (e : Event) : Midway a e a :=
  ⟨le_refl _, rfl, fun _ _ _ _ => .rfl, fun link hlink _ hhandler =>
    .inl ⟨link, hlink, rfl, rfl, hhandler⟩⟩

theorem Small.midway {c : Actor} (h : Small π Q s e b c) (hI : Midway a e b) : Midway a e c := by
  have hlocal : c.localAddr = b.localAddr := h.extends.localAddr
  refine ⟨Nat.le_trans hI.pipes h.oldLinks.1, hlocal.trans hI.localAddr, fun he udp port id => ?_,
    fun link hlink handler hhandler => ?_⟩
  · refine (h.holds (fun udp asked result heq => ?_) fun id heq => ?_).trans (hI.claims he udp port id)
    · rw [heq] at he
      exact he
    · rw [heq] at he
      exact he
  · obtain ⟨old, hold, hpipe, hflow, holdhandler⟩ | ⟨he, hpipe, htaken⟩ :=
      h.handler_of_link hlink hhandler
    · rw [← hpipe, ← hflow]
      exact hI.links old hold handler holdhandler
    · refine .inr ⟨he, hpipe ▸ hI.pipes, fun haddr id hheld => ?_⟩
      obtain ⟨claim, hlive, rfl⟩ := liveListener_iff.2 ((hI.claims he _ _ _).2 hheld)
      refine htaken.claimed claim ?_
      rw [haddr, ← hI.localAddr]
      exact hlive

/-- A handler is started, in a tick, for a link that waits for it, and told what its socket is
connected to. -/
theorem Small.served (h : Small π Q s e a b) {pipe : PipeId} {info : ConnectionInfo}
    {tuple : Option TcpFlow} (hx : .serve handler pipe info tuple ∈ b.trace) :
    .serve handler pipe info tuple ∈ a.trace ∨ ¬Receives e ∧ ∃ index c,
      a.connAt index = some c ∧ c.link.handler = some handler ∧ c.link.pipe = pipe ∧
        (Attributed a c → tuple = some c.link.flow) := by
  refine (h.mem_trace hx).imp_right fun horigin => ?_
  cases horigin with
  | send h => exact h.elim
  | act h => exact h.elim
  | @link _ index c hc hx _ he =>
    obtain ⟨first, second, rfl⟩ := he
    obtain ⟨hready, hhandler, rfl, -, rfl⟩ := Conn.mem_acts_poll _ hx (connAt_eq_some.1 hc).2.2.2
    refine ⟨fun hfalse => hfalse, index, c, hc, hhandler, rfl, fun hattributed => ?_⟩
    refine hattributed.tuple ?_ ?_
    · rcases hready with h | h <;> rw [h] <;> simp
    · rcases hready with h | h <;> rw [h] <;> simp

/-- The connection of a pipe was opened in the run, for the listener that held its port if there was
one. -/
def Opened (π : Platform) (setup : Setup) (es : List Event) (flow : TcpFlow) (pipe : PipeId)
    (handler : Handler) : Prop :=
  ∃ before e after link, es = before ++ e :: after ∧
    link ∈ (run π (init setup) (before ++ [e])).links ∧
    (run π (init setup) before).pipes.length ≤ link.pipe ∧ link.pipe = pipe ∧ link.flow = flow ∧
    link.handler = some handler ∧
    (flow.1.addr = (run π (init setup) before).localAddr →
      ∀ earlier id, Live π setup before earlier false flow.1.port id → handler = .listener id)

theorem Opened.later {flow : TcpFlow} {pipe : PipeId} (h : Opened π setup es flow pipe handler)
    (e : Event) : Opened π setup (es ++ [e]) flow pipe handler := by
  obtain ⟨before, e', after, link, rfl, h⟩ := h
  exact ⟨before, e', after ++ [e], link, by simp, h⟩

/-- What is known of the connections and of the handlers in the course of an event. -/
structure Serving (π : Platform) (a : Actor) (e : Event) (b : Actor) : Prop where
  attributed : b.WellAttributed π
  midway : Midway a e b
  served : ∀ handler pipe info tuple, .serve handler pipe info tuple ∈ b.trace →
    .serve handler pipe info tuple ∈ a.trace ∨ ∃ old ∈ a.links, old.handler = some handler ∧
      old.pipe = pipe ∧ tuple = some old.flow

theorem Small.serving {c : Actor} (h : Small π (fun a x => ownSyn π a x = true) s e b c)
    (hI : Serving π a e b) : Serving π a e c := by
  refine ⟨h.wellAttributed hI.attributed, h.midway hI.midway, fun handler pipe info tuple hx => ?_⟩
  obtain hx | ⟨hno, index, conn, hconn, hhandler, rfl, htuple⟩ := h.served hx
  · exact hI.served handler pipe info tuple hx
  · refine .inr ?_
    have hmem := List.mem_of_getElem? (connAt_eq_some.1 hconn).1
    obtain ⟨old, hold, hpipe, hflow, holdhandler⟩ | ⟨he, -⟩ :=
      hI.midway.links conn.link hmem handler hhandler
    · refine ⟨old, hold, holdhandler, hpipe, ?_⟩
      rw [hflow]
      exact htuple (hI.attributed.conns index conn hconn)
    · exact (hno he).elim

/-- Every handler was started for a connection its link was opened for, and is the one the link was
opened with. -/
theorem run_opened (setup : Setup) (config : ServerConfig) (es : List Event)
    (h : Transition.Along (step π) (OwnSyns π) (init (setup.serving config)) es) :
    (∀ link ∈ (run π (init (setup.serving config)) es).links, ∀ handler,
        link.handler = some handler →
        Opened π (setup.serving config) es link.flow link.pipe handler) ∧
      ∀ handler pipe info tuple,
        .serve handler pipe info tuple ∈ (run π (init (setup.serving config)) es).trace →
        ∃ flow, tuple = some flow ∧ Opened π (setup.serving config) es flow pipe handler := by
  induction es using List.reverseRecOn with
  | nil =>
    refine ⟨?_, ?_⟩
    · intro link hlink
      rw [run, Transition.run_nil, init_links] at hlink
      cases hlink
    · intro handler pipe info tuple hx
      rw [run, Transition.run_nil, init_trace] at hx
      cases hx
  | append_singleton es e ih =>
    obtain ⟨hes, hlast⟩ := Transition.along_append.1 h
    obtain ⟨hlinks, hserved⟩ := ih hes
    have hrun : run π (init (setup.serving config)) (es ++ [e]) =
        step π (run π (init (setup.serving config)) es) e := by
      rw [run, Transition.run_append, Transition.run_cons, Transition.run_nil]
    have hattributed := run_wellAttributed setup config es hes
    have hserving : Serving π (run π (init (setup.serving config)) es) e
        (run π (init (setup.serving config)) (es ++ [e])) := by
      rw [hrun]
      refine (step_changes hattributed.wired hlast.1).preserves
        (fun _ _ hsmall hI => hsmall.serving hI) ⟨hattributed, .refl _ _, ?_⟩
      exact fun _ _ _ _ hx => .inl hx
    -- a link is from before the step, or was opened for a claim there was at its start
    refine ⟨fun link hlink handler hhandler => ?_, fun handler pipe info tuple hx => ?_⟩
    · obtain ⟨old, hold, hpipe, hflow, holdhandler⟩ | ⟨-, hpipe, hclaimed⟩ :=
        hserving.midway.links link hlink handler hhandler
      · rw [← hpipe, ← hflow]
        exact (hlinks old hold handler holdhandler).later e
      · refine ⟨es, e, [], link, rfl, hlink, hpipe, rfl, rfl, hhandler, ?_⟩
        intro haddr earlier id hlive
        exact hclaimed haddr id ((live_iff es).1 ⟨earlier, hlive⟩)
    · obtain hx | ⟨old, hold, hhandler, rfl, rfl⟩ := hserving.served handler pipe info tuple hx
      · obtain ⟨flow, htuple, hopened⟩ := hserved handler pipe info tuple hx
        exact ⟨flow, htuple, hopened.later e⟩
      · exact ⟨old.flow, rfl, (hlinks old hold handler hhandler).later e⟩

/-! ### The claims of a run -/

/-- The claims of a run, and what they are for. -/
structure Exclusive (π : Platform) (setup : Setup) (es : List Event) : Prop where
  /-- A port has one live listener at most. -/
  one : ∀ udp port before before' id id', Live π setup es before udp port id →
    Live π setup es before' udp port id' → before = before' ∧ id = id'
  /-- A port that is asked for is given exactly if no live listener holds it. -/
  asked : ∀ udp port result, port ≠ 0 →
    ((∃ id port', ListensWith π (run π (init setup) es) udp port result id port') ↔
      ¬∃ before id, Live π setup es before udp port id) ∧
    ∀ id port', ListensWith π (run π (init setup) es) udp port result id port' → port' = port
  /-- For port 0 any port from 49152 on is given that no live listener holds, if there is one. -/
  any : ∀ udp result,
    ((∃ id port, ListensWith π (run π (init setup) es) udp 0 result id port) ↔
      ∃ port : Port, 49152 ≤ port.toNat ∧ ¬∃ before id, Live π setup es before udp port id) ∧
    ∀ id port, ListensWith π (run π (init setup) es) udp 0 result id port →
      49152 ≤ port.toNat ∧ ¬∃ before id, Live π setup es before udp port id
  /-- The first segment of a new TCP flow to a port that is held opens a connection for the
  listener. -/
  tcp : ∀ before port id b packet flow, Live π setup es before false port id →
    SameClaims (run π (init setup) es) b → OpensTcpFlow π packet flow →
    flow.1 = ⟨b.localAddr, port⟩ → (∀ link ∈ b.links, link.flow ≠ flow) →
    b.links.length < maxConnections → OpensFor π b packet flow id
  /-- If SYNs are taken by the sockets opened for them, each connection that was given to a handler
  was opened for the listener that held its port, if there was one. -/
  served : Transition.Along (step π) (OwnSyns π) (init setup) es →
    ∀ handler pipe info tuple, .serve handler pipe info tuple ∈ (run π (init setup) es).trace →
      ∃ flow, tuple = some flow ∧ Opened π setup es flow pipe handler
  /-- The first datagram of a new flow to a port that is held offers the flow to the listener. -/
  udp : ∀ before port id b packet flow payload, Live π setup es before true port id →
    SameClaims (run π (init setup) es) b → OfUdpFlow π packet flow payload →
    flow.1 = .new (.v6 b.localAddr) port → ¬b.IsOpen flow →
    (b.removeCancelled flow).udpFlows.size < maxConnections → OffersTo π b packet flow id

theorem Live.same_id {udp : Bool} {before : List Event} {id' : ℕ}
    (h : Live π setup es before udp port id) (h' : Live π setup es before udp port id') :
    id = id' := by
  have hheld := (live_iff es).1 ⟨before, h⟩
  have hheld' := (live_iff es).1 ⟨before, h'⟩
  unfold Holds at hheld hheld'
  rw [hheld] at hheld'
  cases hheld'
  rfl

theorem not_live_iff {udp : Bool} : (¬∃ before id, Live π setup es before udp port id) ↔
    ¬∃ id, (run π (init setup) es).Holds udp port id := by
  rw [not_iff_not, exists_comm]
  exact exists_congr fun id => live_iff es

theorem SameClaims.holds {udp : Bool} (h : SameClaims a b) :
    b.Holds udp port id ↔ a.Holds udp port id := by
  unfold Holds
  rw [h.listeners]

/-- **The claims of listeners**, in every run of a server: a port has one live listener at most,
`Listen` succeeds exactly if there is none, and a new flow to the port is offered to the listener and
to nothing else, whatever ports are served; it is the listener that gets the connection as long as
SYNs are taken by the sockets that were opened for them. -/
theorem listeners_exclusive (π : Platform) (setup : Setup) (config : ServerConfig)
    (es : List Event) : Exclusive π (setup.serving config) es := by
  have hserver := (run_sourcesChecked (π := π) setup config es).server
  have hconfig : ∀ b, SameClaims (run π (init (setup.serving config)) es) b →
      ∃ config', b.config = some config' := by
    intro b hsame
    rw [← hsame.config] at hserver
    exact Option.isSome_iff_exists.1 hserver
  refine ⟨?_, ?_, ?_, ?_, fun h => (run_opened setup config es h).2, ?_⟩
  -- one live listener for a port
  · intro udp port before before' id id' hlive hlive'
    obtain rfl := hlive.unique hlive'
    exact ⟨rfl, hlive.same_id hlive'⟩
  -- a port that is asked for
  · intro udp port result hne
    have hchosen : (run π (init (setup.serving config)) es).purgeListeners.chosenPort udp port =
        port := chosenPort_of_ne hne
    rw [not_live_iff]
    refine ⟨⟨?_, fun hfree => ?_⟩, fun id port' hlistens => ?_⟩
    · rintro ⟨id, port', hlistens⟩
      obtain ⟨-, hport, -, hfree⟩ := listensWith_iff.1 hlistens
      rw [hchosen] at hport
      rw [← hport]
      exact hfree
    · exact ⟨_, port, listensWith_iff.2 ⟨rfl, hchosen.symm, hne, hfree⟩⟩
    · exact (listensWith_iff.1 hlistens).2.1.trans hchosen
  -- a port that the program chooses
  · intro udp result
    simp only [not_live_iff]
    refine ⟨listensWith_zero_iff, fun id port hlistens => ?_⟩
    exact ⟨range_of_listensWith_zero hlistens, (listensWith_iff.1 hlistens).2.2.2⟩
  -- connections
  · intro before port id b packet flow hlive hsame hsyn hflow hnew hroom
    obtain ⟨config', hconfig'⟩ := hconfig b hsame
    have hheld := hsame.holds.2 ((live_iff es).1 ⟨before, hlive⟩)
    exact tcp_claimed hconfig' hheld hlive.port_ne hsyn hflow hnew hroom
  -- datagrams
  · intro before port id b packet flow payload hlive hsame hof hflow hnew hroom
    obtain ⟨config', hconfig'⟩ := hconfig b hsame
    have hheld := hsame.holds.2 ((live_iff es).1 ⟨before, hlive⟩)
    exact udp_claimed hconfig' hheld hof hflow hnew hroom

open Sample in
/-- A client gives up the connection to a served port after its SYN, and the socket listens on.  A
listener claims the port; but the next connection to it goes to the old socket, and so to the
service. -/
theorem claimed_port_served :
    let setup := (serverSetup {}).serving { onTcp := some fun _ => some "service" }
    let es := [registration (keyOf 2) (keyOf 130), .tick [] [],
      registration (keyOf 3) (keyOf 131), .tick [] [],
      tunnelled (keyOf 2) (tcpSegment (inside (keyOf 2) 1000, inside (keyOf 1) 80) 2),
      .tick [.ingress false, .progress 0 { state := .listen }] [], .command (.listen false 80 0)]
    let es' := [tunnelled (keyOf 3) (tcpSegment (inside (keyOf 3) 2000, inside (keyOf 1) 80) 2),
      .tick [.ingress false, .progress 0 { state := .established }] []]
    (∃ before, Live sample setup es before false 80 0) ∧
      ((run sample (init setup) (es ++ es')).trace.filterMap fun
        | .serve handler _ _ tuple => some (handler, tuple)
        | _ => none) =
      [(.service "service", some (⟨tcAddrForKey (keyOf 1), 80⟩, ⟨tcAddrForKey (keyOf 3), 2000⟩))] := by
  intro setup es es'
  have hclaim : (((run sample (init setup) es).listeners.lookup (false, 80)).map fun claim =>
      (claim.id, claim.closed)) = some (0, false) := by
    decide +kernel
  refine ⟨(live_iff es).2 ?_, by decide +kernel⟩
  obtain ⟨⟨id, closed⟩, hlookup, hfields⟩ := Option.map_eq_some_iff.1 hclaim
  cases hfields
  exact hlookup

end Tailcat.Runtime.Actor
