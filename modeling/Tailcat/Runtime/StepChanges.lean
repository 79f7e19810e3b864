import Tailcat.Runtime.Wiring

/-!
# Every step is a sequence of changes

`step_changes` goes through the functions of the actor, from the probe of an endpoint to the tick,
and finds each of their effects in the list of `Small`.

There is one lemma for each function, in the order in which they call each other, and it says that
the state after the call is reached by small changes under the condition that the caller has
checked: that the peer is known, that the datagram came from the relay, that the packet was opened
by the tunnel.  These conditions end up in the constructors of `Small`, where they are found again
by whoever needs them.

This is the only module about the actor that opens its functions.  When a function of the source
changes, its lemma here has to be done again, and the invariants of the other modules only if the
list of changes has become longer.
-/

namespace Tailcat.Runtime.Actor

open Net

variable {π : Platform} {Q : Actor → PollAction → Prop} {s a b : Actor} {e : Event}

/-! ### Paths -/

theorem probe_changes (a : Actor) (key : Key) (endpoint : SocketAddr) :
    Changes π Q s e a (a.probe π key endpoint) := by
  unfold probe
  split_ifs with husable
  · exact .refl
  · dsimp only
    split
    · exact .single (.sends (.draw a))
    · rename_i peer hpeer
      simp only [sealDisco]
      split
      · rename_i heq
        obtain ⟨-, rfl⟩ := Prod.mk.inj heq
        exact .single (.sends ((Sends.draw a).trans (.draw _)))
      · rename_i packet _ heq
        obtain ⟨hpacket, rfl⟩ := Prod.mk.inj heq
        split_ifs with hsize
        · exact .single (.probed hpeer (by simpa using husable) hsize hpacket)
        · exact .single (.sends ((Sends.draw a).trans (.draw _)))

theorem probeAll_changes (a : Actor) (key : Key) (endpoints : List SocketAddr) :
    Changes π Q s e a (a.probeAll π key endpoints) :=
  Changes.foldl (I := fun _ => True) (fun _ _ _ _ => trivial)
    (fun a endpoint _ _ => probe_changes a key endpoint) trivial

theorem knows_of_lookup {key : Key} {peer : Peer} (h : a.peers.lookup key = some peer) :
    a.Knows key :=
  .inl (AList.lookup_isSome.1 (by rw [h]; rfl))

theorem sealAndRelay_sends {key : Key} (h : a.Knows key) (peer : Peer) (data : Bytes) :
    Sends a (a.sealAndRelay π key peer data) := by
  unfold sealAndRelay
  simp only [sealDisco]
  split
  · rename_i packet b heq
    obtain ⟨-, rfl⟩ := Prod.mk.inj heq
    exact (Sends.draw a).trans (relaySend_sends π (a := a.draw) h _)
  · rename_i b heq
    obtain ⟨-, rfl⟩ := Prod.mk.inj heq
    exact .draw a

theorem advertiseTo_changes (payload : Bytes) (a : Actor) (key : Key) :
    Changes π Q s e a (advertiseTo π payload a key) := by
  unfold advertiseTo
  split
  · exact .refl
  · rename_i peer hpeer
    exact .head (.sends (sealAndRelay_sends (knows_of_lookup hpeer) peer payload))
      (probeAll_changes _ _ _)

theorem advertise_changes (a : Actor) : Changes π Q s e a (a.advertise π) :=
  .head (.advertised a.now) (Changes.foldl (I := fun _ => True) (fun _ _ _ _ => trivial)
    (fun a key _ _ => advertiseTo_changes _ a key) trivial)

/-! ### Packets of the discovery protocol -/

theorem sendPong_sends {key : Key} (h : a.Knows key) (peer : Peer) (pong : Bytes)
    (source : Option SocketAddr) : Sends a (a.sendPong π key peer pong source) := by
  unfold sendPong
  split
  · simp only [sealDisco]
    split
    · rename_i frame b heq
      obtain ⟨-, rfl⟩ := Prod.mk.inj heq
      exact (Sends.draw a).trans (sendUdp_sends π _ _ _)
    · rename_i b heq
      obtain ⟨-, rfl⟩ := Prod.mk.inj heq
      exact .draw a
  · exact sealAndRelay_sends h peer pong

theorem probeSource_changes {key : Key} {peer : Peer} (hpeer : a.peers.lookup key = some peer)
    (source : Option SocketAddr) : Changes π Q s e a (a.probeSource π key peer source) := by
  unfold probeSource
  split
  · rename_i src
    split
    · rename_i candidates hremember
      exact .head (.candidates hpeer (.inl ⟨src, hremember⟩)) (probe_changes _ _ _)
    · exact .refl
  · exact .refl

theorem discoPing_changes {key : Key} {peer : Peer} (hpeer : a.peers.lookup key = some peer)
    (data : Bytes) (source : Option SocketAddr) :
    Changes π Q s e a (a.discoPing π key peer data source) := by
  have hsends := sendPong_sends (π := π) (knows_of_lookup hpeer) peer
    ([2, 0] ++ slice data 2 14 ++ endpointBytes (reportedEndpoint source)) source
  refine .head (.sends hsends) (probeSource_changes ?_ source)
  rw [hsends.eq]
  exact hpeer

theorem callMeMaybe_changes {key : Key} {peer : Peer} (hpeer : a.peers.lookup key = some peer)
    (data : Bytes) : Changes π Q s e a (a.callMeMaybe π key data) :=
  .head (.candidates hpeer (.inr ⟨_, rfl⟩)) (probeAll_changes _ _ _)

theorem answerPing_changes (a : Actor) (txid : TxId) (source : Option SocketAddr) :
    Changes π Q s e a (a.answerPing txid source) := by
  unfold answerPing
  split
  · rename_i index _
    split
    · exact .head (.dropPings (List.eraseIdx_sublist _ index)) (.single (.sends (.answer _ _ _)))
    · exact .refl
  · exact .refl

theorem answerProbe_changes {key : Key} {peer : Peer} {packet data : Bytes}
    {source : Option SocketAddr} (he : ∀ src, source = some src → e = .datagram src packet)
    (hpeer : a.peers.lookup key = some peer) (hheader : slice packet 6 38 = peer.discoKey.1)
    (hopen : a.openDisco π peer.discoKey packet = some data) (hpong : data.getD 0 0 = 2)
    (husable : source.any (fun s => !usableEndpoint s) = false) :
    Changes π Q s e a (a.answerProbe key (txidOf data) source) := by
  unfold answerProbe
  split
  · rename_i probe hprobe
    split_ifs with hmatches
    · obtain ⟨hkey, hsource, hsent⟩ := hmatches
      rw [hsource] at husable
      exact .single (.direct (he _ hsource) hpeer hheader hopen hpong hprobe hkey
        (by simpa using husable) hsent)
    · exact .refl
  · exact .refl

theorem discoPong_changes {key : Key} {peer : Peer} {packet data : Bytes}
    {source : Option SocketAddr} (he : ∀ src, source = some src → e = .datagram src packet)
    (hpeer : a.peers.lookup key = some peer) (hheader : slice packet 6 38 = peer.discoKey.1)
    (hopen : a.openDisco π peer.discoKey packet = some data) (hpong : data.getD 0 0 = 2)
    (husable : source.any (fun s => !usableEndpoint s) = false) :
    Changes π Q s e a (a.discoPong key data source) :=
  (answerProbe_changes he hpeer hheader hopen hpong husable).trans (answerPing_changes _ _ _)

theorem discoPacket_changes {key : Key} {packet : Bytes} {source : Option SocketAddr}
    (he : ∀ src, source = some src → e = .datagram src packet) :
    Changes π Q s e a (a.discoPacket π key packet source) := by
  unfold discoPacket
  split
  · exact .refl
  · rename_i peer hpeer
    split_ifs with hheader
    · exact .refl
    · obtain ⟨-, hheader⟩ := not_or.1 hheader
      rw [not_not] at hheader
      split
      · exact .refl
      · rename_i data hopen
        split_ifs with hbad hping hpong hcall
        · exact .refl
        · exact discoPing_changes hpeer _ _
        · obtain ⟨-, hbad⟩ := not_or.1 hbad
          obtain ⟨-, husable⟩ := not_or.1 hbad
          exact discoPong_changes he hpeer hheader hopen hpong.1 (by simpa using husable)
        · exact callMeMaybe_changes hpeer _
        · exact .refl

/-! ### Registrations -/

theorem answers_sends {α : Type} (a : Actor) (l : List α) (result : α → ReplyId)
    (x : Actor → α → Answer) : Sends a (l.foldl (fun a y => a.answer (result y) (x a y)) a) := by
  induction l generalizing a with
  | nil => exact .refl a
  | cons y l ih => exact (Sends.answer a (result y) (x a y)).trans (ih _)

theorem answerMeow_changes (a : Actor) : Changes π Q s e a a.answerMeow :=
  .head (.dropPings List.filter_sublist) (.single (.sends (answers_sends _ _ _ _)))

theorem addPeer_changes {key : Key} {data : Bytes} {config : ServerConfig}
    (he : e = .relayed key data) (hconfig : a.config = some config)
    (hregisters : registers config key data = true) :
    Changes π Q s e a (a.addPeer key (registeredDisco data)) := by
  unfold addPeer
  split_ifs with hbad
  · exact .refl
  · simp only [not_or, Nat.not_le] at hbad
    exact .single (.register he hconfig hregisters rfl hbad.1 hbad.2.1 hbad.2.2.1 hbad.2.2.2)

theorem meowPacket_changes {key : Key} {data : Bytes} (he : e = .relayed key data) :
    Changes π Q s e a (a.meowPacket π key data) := by
  unfold meowPacket
  split
  · rename_i config hconfig
    split_ifs with hregisters
    · refine .trans (addPeer_changes he hconfig hregisters) ?_
      dsimp only
      split_ifs with hkey
      · exact .head (.sends (relaySend_sends π (.inl hkey) _)) (advertise_changes _)
      · exact .refl
    · exact .refl
  · split_ifs
    · exact answerMeow_changes a
    · exact .refl

/-! ### Packets from the tunnel -/

theorem removeCancelled_changes (a : Actor) (flow : UdpFlowKey) :
    Changes π Q s e a (a.removeCancelled flow) := .single (.removeCancelled a flow)

theorem udpHandler_changes (a : Actor) (config : ServerConfig) (dst : Ipv6Addr)
    (flow : UdpFlowKey) : Changes π Q s e a (a.udpHandler config dst flow).2 ∧
      (a.udpHandler config dst flow).2.udpFlows = a.udpFlows := by
  unfold udpHandler
  split_ifs
  · split
    · exact ⟨.single (.act trivial), rfl⟩
    · exact ⟨.refl, rfl⟩
  · split
    · exact ⟨.single (.act trivial), rfl⟩
    · exact ⟨.refl, rfl⟩

theorem openUdpFlow_changes {dst : Ipv6Addr} {flow : UdpFlowKey} (he : OpensFlows e)
    (hnew : flow ∉ a.udpFlows) :
    Changes π Q s e a (a.openUdpFlow π dst flow) := by
  unfold openUdpFlow
  split
  · exact .refl
  · rename_i config _
    by_cases hsize : maxConnections ≤ a.udpFlows.size
    · rw [if_pos hsize]
    rw [if_neg hsize]
    dsimp only
    by_cases hfiltered : (a.liveListener true dst flow.1.port).isNone ∧ dst = a.localAddr ∧
        !config.servedUdpPorts.admits flow.1.port
    · rw [if_pos hfiltered]
    rw [if_neg hfiltered]
    obtain ⟨hchanges, hflows⟩ := udpHandler_changes (π := π) (Q := Q) (s := s) (e := e)
      a config dst flow
    generalize a.udpHandler config dst flow = p at hchanges hflows ⊢
    obtain ⟨handler, b⟩ := p
    have hnew' : flow ∉ b.udpFlows := hflows ▸ hnew
    have hsize' : b.udpFlows.size < maxConnections := hflows ▸ Nat.lt_of_not_le hsize
    refine .trans hchanges ?_
    split
    · exact .refl
    · dsimp only
      split_ifs
      · exact .head (.newUdpFlow he hnew' hsize') (.head (.sends (.draw _)) (.single (.act trivial)))
      · exact .head (.lostUdpFlow he hnew' hsize') (.single (.sends (.draw _)))
    · exact .head (.newUdpFlow he hnew' hsize') (.single (.act trivial))

theorem udpInput_changes {key : Key} {packet : Bytes} {ip : Ipv6Packet} (he : OpensFlows e)
    (hreceived : Act.receiveIp key packet ∈ a.trace)
    (hip : Ipv6Packet.newChecked packet = some ip) :
    Changes π Q s e a (a.udpInput π ip) := by
  unfold udpInput
  split
  · exact .refl
  · rename_i repr hrepr
    split_ifs
    · exact .refl
    · dsimp only
      generalize hflow : (SocketAddr.new (.v6 ip.dstAddr) repr.dstPort,
        SocketAddr.new (.v6 ip.srcAddr) repr.srcPort) = flow
      have hfirst : Changes π Q s e a (a.removeCancelled flow) := removeCancelled_changes a flow
      have hopened : Changes π Q s e a (if flow ∈ (a.removeCancelled flow).udpFlows then
          a.removeCancelled flow else (a.removeCancelled flow).openUdpFlow π ip.dstAddr flow) := by
        split_ifs with hmem
        · exact hfirst
        · exact .trans hfirst (openUdpFlow_changes he hmem)
      exact .tail hopened (.deliver ⟨key, packet, ip, repr, hopened.trace_subset hreceived, hip, hrepr,
        rfl, hflow.symm⟩)

theorem tcpHandler_changes (a : Actor) (config : ServerConfig) (dest : Ipv6Addr) (port : Port) :
    Changes π Q s e a (a.tcpHandler config dest port).2 ∧
      (a.tcpHandler config dest port).2.links = a.links ∧
      (a.tcpHandler config dest port).2.config = a.config ∧
      (a.tcpHandler config dest port).2.liveListener = a.liveListener := by
  unfold tcpHandler
  split
  · exact ⟨.refl, rfl, rfl, rfl⟩
  · split_ifs
    · split
      · exact ⟨.single (.act trivial), rfl, rfl, rfl⟩
      · exact ⟨.refl, rfl, rfl, rfl⟩
    · split
      · exact ⟨.single (.act trivial), rfl, rfl, rfl⟩
      · exact ⟨.refl, rfl, rfl, rfl⟩

/-- Listeners claim ports of the own address. -/
theorem tcpHandler_listener {config : ServerConfig} {dest : Ipv6Addr} {port : Port} {id : ℕ}
    (h : (a.tcpHandler config dest port).1 = some (.listener id)) : dest = a.localAddr := by
  unfold tcpHandler at h
  split at h
  · rename_i claim hclaim
    unfold liveListener at hclaim
    by_contra hdest
    rw [if_neg hdest] at hclaim
    cases hclaim
  · split_ifs at h
    · assumption
    · split at h
      · obtain ⟨name, -, hname⟩ := Option.map_eq_some_iff.1 h
        cases hname
      · cases h

/-- A listener that claims the port comes first. -/
theorem tcpHandler_claimed {config : ServerConfig} {dest : Ipv6Addr} {port : Port} {claim : Claim}
    (h : a.liveListener false dest port = some claim) :
    a.tcpHandler config dest port = (some (.listener claim.id), a) := by
  rw [tcpHandler, h]

theorem openSyn_changes {key : Key} {packet : Bytes} {ip : Ipv6Packet} {tcp : TcpRepr}
    {config : ServerConfig} (he : Receives e) (hconfig : a.config = some config)
    (hreceived : Act.receiveIp key packet ∈ a.trace)
    (hip : Ipv6Packet.newChecked packet = some ip)
    (htcp : π.parseTcp ip.srcAddr ip.dstAddr ip.payload = some tcp) (hopens : tcp.opens = true) :
    Changes π Q s e a (a.openSyn config ip.dstAddr ip.srcAddr tcp) := by
  unfold openSyn
  dsimp only
  split_ifs with hroom
  · obtain ⟨hdup, hlength⟩ := hroom
    obtain ⟨hchanges, hlinks, hconfig', hlive⟩ := tcpHandler_changes (π := π) (Q := Q) (s := s) (e := e)
      a config ip.dstAddr tcp.dstPort
    split
    · rename_i handler b heq
      have hlistener : ∀ id, handler = .listener id → ip.dstAddr = a.localAddr := by
        rintro id rfl
        exact tcpHandler_listener (a := a)
          (show (a.tcpHandler config ip.dstAddr tcp.dstPort).1 = some (.listener id) by rw [heq])
      rw [heq] at hchanges hlinks hconfig' hlive
      refine .trans hchanges ?_
      split
      · rename_i socket hsocket
        have htaken : b.TakenBy (⟨ip.dstAddr, tcp.dstPort⟩, ⟨ip.srcAddr, tcp.srcPort⟩) handler := by
          refine ⟨fun id hid => ?_, fun claim hclaim => ?_⟩
          · exact (hlistener id hid).trans hchanges.extends.localAddr.symm
          · rw [hlive] at hclaim
            rw [tcpHandler_claimed hclaim] at heq
            exact (Option.some.inj (Prod.mk.inj heq).1).symm
        refine .single (.openSyn he (hconfig'.trans hconfig) ?_ htaken ?_ ?_ hsocket)
        · exact ⟨key, packet, ip, tcp, hchanges.trace_subset hreceived, hip, htcp, hopens, rfl⟩
        · rw [hlinks]
          simpa using hdup
        · rw [hlinks]
          exact hlength
      · exact .refl
    · rename_i b heq
      rw [heq] at hchanges
      exact hchanges
  · exact .refl

theorem receiveIp_changes (key : Key) {packet : Bytes} (he : Receives e)
    (hreceived : Act.receiveIp key packet ∈ a.trace) :
    Changes π Q s e a (a.receiveIp π packet) := by
  unfold receiveIp
  split
  · exact .refl
  · rename_i ip hip
    by_cases hversion : ip.version ≠ 6
    · rw [if_pos hversion]
    rw [if_neg hversion]
    by_cases hudp : ip.nextHeader = protoUdp
    · rw [if_pos hudp]
      exact udpInput_changes he.opensFlows hreceived hip
    rw [if_neg hudp]
    split
    · exact .single (.pushIncoming a packet)
    · rename_i config hconfig
      dsimp only
      by_cases htcp : ip.nextHeader = protoTcp
      · rw [if_pos htcp]
        split
        · exact .refl
        · rename_i tcp hparse
          split_ifs with _ hopens
          · exact .refl
          · exact .tail (openSyn_changes he hconfig hreceived hip hparse hopens) (.pushIncoming _ _)
          · exact .single (.pushIncoming _ _)
      · rw [if_neg htcp]
        split_ifs
        · exact .refl
        · exact .single (.pushIncoming _ _)

theorem tunnelWrite_changes {key : Key} {r : TunnResult} {n : ℕ} {source : Option IpAddr}
    {data : Bytes} (he : Receives e) (hkey : key ∈ a.peers)
    (hr : r ∈ π.decapsulate n key source data) :
    Changes π Q s e a (tunnelWrite π key a r) := by
  unfold tunnelWrite
  split
  · exact .single (.sends (sendPacket_sends π (.inl hkey) _))
  · rename_i b
    split_ifs with hmay
    · have hact : a.MayAct π (.receiveIp key b) := ⟨hkey, hmay, n, source, data, hr⟩
      refine .head (.act hact) (receiveIp_changes key he ?_)
      exact List.mem_append_right _ (List.mem_singleton_self _)
    · exact .refl

theorem incomingPacket_changes {key : Key} {data : Bytes} {source : Option SocketAddr}
    (hrelayed : source = none → e = .relayed key data)
    (hdatagram : ∀ src, source = some src → e = .datagram src data) :
    Changes π Q s e a (a.incomingPacket π key data source) := by
  have he : Receives e := by
    cases source with
    | none => rw [hrelayed rfl]; trivial
    | some src => rw [hdatagram src rfl]; trivial
  unfold incomingPacket
  split_ifs with hmeow hdisco hkey
  · split
    · exact .refl
    · exact meowPacket_changes (hrelayed rfl)
  · exact discoPacket_changes hdatagram
  · refine .head (.sends (.draw a)) (Changes.foldl (I := fun b => key ∈ b.peers)
      (fun _ _ hchanges hmem => hchanges.extends.peers key hmem)
      (fun b r hr hmem => tunnelWrite_changes he hmem hr) hkey)
  · exact .refl

theorem udpPacket_changes {source : SocketAddr} {data : Bytes} (he : e = .datagram source data) :
    Changes π Q s e a (a.udpPacket π data source) := by
  have hincoming : ∀ (b : Actor) (key : Key),
      Changes π Q s e b (b.incomingPacket π key data (some source)) := fun b key =>
    incomingPacket_changes (fun h => by cases h) (fun src h => by cases h; exact he)
  unfold udpPacket
  split_ifs
  · split
    · split
      · rename_i endpoint hstun _ endpoints hremember
        exact .single (.ownEndpoint hremember _ he hstun)
      · exact .refl
    · exact .refl
  · split
    · exact hincoming _ _
    · exact .refl
  · exact Changes.foldl (I := fun _ => True) (fun _ _ _ _ => trivial)
      (fun b key _ _ => hincoming b key) trivial

/-! ### Commands -/

theorem listenCommand_changes (a : Actor) {udp : Bool} {port : Port} {result : ReplyId}
    (he : e = .command (.listen udp port result)) :
    Changes π Q s e a (a.listenCommand udp port result) := by
  unfold listenCommand
  refine .head (.purgeListeners a) ?_
  dsimp only
  split_ifs with hport hused hused
  all_goals first
    | exact .single (.sends (.answer _ _ _))
    | exact .head (.claim _ he (not_or.1 hused).2) (.single (.sends (.answer _ _ _)))

theorem dialUdpCommand_changes (he : OpensFlows e) (a : Actor) (target : SocketAddr)
    (result : ReplyId) :
    Changes π Q s e a (a.dialUdpCommand target result) := by
  unfold dialUdpCommand
  split_ifs with hsize
  · exact .single (.sends (.answer _ _ _))
  · split
    · exact .single (.sends (.answer _ _ _))
    · rename_i port hport
      have hfree := List.find?_some hport
      simp only [decide_eq_true_eq] at hfree
      have hsize' : a.udpFlows.size < maxConnections := Nat.lt_of_not_le hsize
      dsimp only
      split_ifs
      · exact .head (.lostUdpFlow he hfree hsize') (.single (.sends (.answer _ _ _)))
      · exact .head (.newUdpFlow he hfree hsize') (.single (.sends (.answer _ _ _)))

theorem startPing_changes (a : Actor) (ping : PendingPing) (h : a.pings.length < maxPendingPings) :
    Changes π Q s e a (a.startPing π ping) := by
  have hsends := sendPing_sends π a ping
  have hlength : (a.sendPing π ping).2.pings.length < maxPendingPings := by
    rw [hsends.eq]
    exact h
  unfold startPing
  refine .head (.sends hsends) (.head (.addPing (a.sendPing π ping).1 hlength) ?_)
  dsimp only
  split_ifs
  · exact advertise_changes _
  · exact .refl

theorem pingCommand_changes (a : Actor) (disco : Bool) (result : ReplyId) :
    Changes π Q s e a (a.pingCommand π disco result) := by
  have hdrop : Small π Q s e a a.dropClosedPings := .dropPings List.filter_sublist
  unfold pingCommand
  split_ifs with hclosed hlength
  · exact .refl
  · exact .head hdrop (.single (.sends (.answer _ _ _)))
  · exact .head hdrop (.head (.sends (.draw _)) (startPing_changes _ _ (Nat.lt_of_not_le hlength)))

theorem dial_changes (hs : a = s) {target : SocketAddr} {result : ReplyId}
    (he : e = .command (.dial target result)) : Changes π Q s e a (a.dial π target result) := by
  unfold dial
  split_ifs with hclosed hlength
  · exact .refl
  · exact .single (.sends (.answer _ _ _))
  · subst hs
    refine .head (.advancePort a) ?_
    dsimp only
    split
    · exact .single (.sends (.answer _ _ _))
    · rename_i socket hsocket
      exact .head (.dialled he (by simpa using hclosed) (Nat.lt_of_not_le hlength) hsocket)
        (advertise_changes _)

theorem command_changes (hs : a = s) {c : Command} (he : e = .command c) :
    Changes π Q s e a (a.command π c) := by
  unfold command
  split
  · exact listenCommand_changes _ he
  · exact dialUdpCommand_changes (by rw [he]; trivial) _ _ _
  · split
    · rename_i st hst
      exact .head (.udpOutput he hst) (.single (.sends (.answer _ _ _)))
    · exact .refl
  · exact .single (.sends (.answer _ _ _))
  · exact dial_changes hs he
  · exact pingCommand_changes _ _ _
  · exact .single (.drains _)
  · split
    · rename_i config hconfig
      split_ifs
      · exact .refl
      · exact .single (.allow he hconfig)
    · exact .refl

/-! ### Ticks -/

/-- The network stack acts within `Q` in both polls of a tick. -/
def PollsMeet (π : Platform) (Q : Actor → PollAction → Prop) (a : Actor) : Event → Prop
  | .tick first second =>
    Transition.Along (pollAction π) Q a.expireUdp first ∧
      Transition.Along (pollAction π) Q ((a.expireUdp.ifacePoll π first).pollLinks π) second
  | _ => True

instance [∀ a action, Decidable (Q a action)] (a : Actor) : ∀ e, Decidable (PollsMeet π Q a e)
  | .tick first second =>
    inferInstanceAs (Decidable (Transition.Along (pollAction π) Q a.expireUdp first ∧
      Transition.Along (pollAction π) Q ((a.expireUdp.ifacePoll π first).pollLinks π) second))
  | .elapse _ | .command _ | .relayed .. | .datagram .. | .app .. | .recv _ | .dropStream _
  | .dropListener _ | .dropReply _ | .reorder _ => inferInstanceAs (Decidable True)

theorem ifacePoll_changes {actions : List PollAction}
    (h : Transition.Along (pollAction π) Q a actions) :
    Changes π Q s e a (a.ifacePoll π actions) := by
  induction actions generalizing a with
  | nil => exact .refl
  | cons action actions ih => exact .head (.poll h.1) (ih h.2)

theorem knows_of_tunnelFor {key : Key} {packet : Bytes} (h : a.tunnelFor packet = some key) :
    a.Knows key := by
  unfold tunnelFor at h
  rcases Option.or_eq_some_iff.1 h with hserver | ⟨-, hfind⟩
  · exact .inr hserver
  · exact .inl (List.mem_of_find?_eq_some hfind)

theorem egress_changes (a : Actor) (packet : Bytes) : Changes π Q s e a (a.egress π packet) := by
  unfold egress
  split_ifs
  · exact .refl
  · split
    · exact .refl
    · rename_i key hkey
      have hact : Changes π Q s e a (a.draw.act (.encapsulate key packet)) :=
        .head (.sends (.draw a)) (.single (.act hkey))
      dsimp only
      split
      · exact hact.tail (.sends (sendPacket_sends π
          (a := a.draw.act (.encapsulate key packet)) (knows_of_tunnelFor hkey) _))
      · exact hact

theorem drainOutgoing_changes (a : Actor) : Changes π Q s e a (a.drainOutgoing π) :=
  .head (.takeOutgoing a) (Changes.foldl (I := fun _ => True) (fun _ _ _ _ => trivial)
    (fun a packet _ _ => egress_changes a packet) trivial)

theorem tunnelTimer_changes {key : Key} (h : a.Knows key) :
    Changes π Q s e a (a.tunnelTimer π key) := by
  unfold tunnelTimer
  split
  · exact .head (.sends (.draw a)) (.single (.sends (sendPacket_sends π (a := a.draw) h _)))
  · exact .single (.sends (.draw a))

/-- One ping of the list is repeated, kept or dropped. -/
theorem pingTimer_sends (a : Actor) (p : PendingPing) :
    Sends { a with pings := (a.pingTimer π p).pings } (a.pingTimer π p) ∧
      (a.pingTimer π p).pings.length ≤ a.pings.length + 1 := by
  unfold pingTimer
  split_ifs with hclosed hold hdue
  · exact ⟨.refl a, Nat.le_succ _⟩
  · exact ⟨.answer a _ _, Nat.le_succ _⟩
  · have h := sendPing_sends π a p
    generalize a.sendPing π p = r at h ⊢
    obtain ⟨p, b⟩ := r
    dsimp only at h ⊢
    have hpings : b.pings = a.pings := by rw [h.eq]
    refine ⟨⟨?_, h.draws, h.trace⟩, by simp [hpings]⟩
    have heq := h.eq
    generalize b.pings ++ [p] = pings
    rw [heq]
  · exact ⟨.refl _, by simp⟩

theorem pingTimers_sends (a : Actor) (pending : List PendingPing) :
    Sends { a with pings := (pending.foldl (pingTimer π) a).pings }
        (pending.foldl (pingTimer π) a) ∧
      (pending.foldl (pingTimer π) a).pings.length ≤ a.pings.length + pending.length := by
  induction pending generalizing a with
  | nil => exact ⟨.refl a, Nat.le_refl _⟩
  | cons p pending ih =>
    obtain ⟨hsends, hlength⟩ := pingTimer_sends (π := π) a p
    obtain ⟨hsends', hlength'⟩ := ih (a.pingTimer π p)
    rw [List.foldl_cons]
    generalize a.pingTimer π p = b at *
    generalize pending.foldl (pingTimer π) b = c at *
    refine ⟨?_, by rw [List.length_cons]; omega⟩
    refine Sends.trans (b := { b with pings := c.pings }) ⟨?_, hsends.draws, hsends.trace⟩ hsends'
    have heq := hsends.eq
    generalize c.pings = pings
    rw [heq]

theorem timers_changes (a : Actor) : Changes π Q s e a (a.timers π) := by
  unfold timers
  split_ifs
  · refine .head (.timers a.now) ?_
    refine .trans (Changes.foldl (f := tunnelTimer π)
      (I := fun b => ∀ key ∈ a.peers.keys, b.Knows key)
      (fun _ _ hchanges hknows key hkey => hchanges.extends.knows (hknows key hkey))
      (fun b key hkey hknows => tunnelTimer_changes (hknows key hkey))
      (fun key hkey => .inl hkey)) ?_
    dsimp only
    generalize List.foldl (tunnelTimer π) _ a.peers.keys = b
    obtain ⟨hsends, hlength⟩ := pingTimers_sends (π := π) { b with pings := [] } b.pings
    exact .head (.repeatPings hsends (by simpa using hlength)) (.single (.expireProbes _))
  · exact .refl

theorem advertiseTimer_changes (a : Actor) : Changes π Q s e a (a.advertiseTimer π) := by
  unfold advertiseTimer
  split_ifs
  · exact advertise_changes a
  · exact .refl

theorem drainTimer_changes (a : Actor) : Changes π Q s e a a.drainTimer := by
  unfold drainTimer
  split_ifs
  · exact .head (.drains []) (.single (.sends (answers_sends _ _ _ _)))
  · exact .refl

theorem tick_changes {first second : List PollAction} (h : a.Wired)
    (he : e = .tick first second)
    (hpolls : PollsMeet π Q a (.tick first second)) :
    Changes π Q s e a (a.tick π first second) := by
  have hfirst : Changes π Q s e a (a.expireUdp.ifacePoll π first) :=
    .head (.expireUdp he) (ifacePoll_changes hpolls.1)
  have hlinks := hfirst.trans (pollLinks_changes he (hfirst.wired h))
  have hsecond := (hlinks.trans (ifacePoll_changes hpolls.2)).trans (drainOutgoing_changes _)
  exact ((hsecond.trans (timers_changes _)).trans (advertiseTimer_changes _)).trans
    (drainTimer_changes _)

/-! ### Steps -/

/-- **Every step is a sequence of changes.** -/
theorem step_changes (h : a.Wired) (hpolls : PollsMeet π Q a e) :
    Changes π Q a e a (step π a e) := by
  cases e with
  | elapse d => exact .single (.elapse d)
  | command c => exact command_changes rfl rfl
  | relayed key data => exact incomingPacket_changes (fun _ => rfl) (fun _ h => by cases h)
  | datagram source data => exact udpPacket_changes rfl
  | tick first second => exact tick_changes h rfl hpolls
  | app pipe op =>
    simp only [step]
    split_ifs with hholds
    · exact .single (.app hholds)
    · exact .refl
  | recv stream => exact .single (.recv rfl)
  | dropStream stream => exact .single (.dropStream rfl)
  | dropListener id => exact .single (.dropListener rfl)
  | dropReply result => exact .single (.dropReply result)
  | reorder peers =>
    simp only [step]
    split_ifs with hperm
    · exact .single (.reorder hperm)
    · exact .refl

theorem init_wired (setup : Setup) : (init setup).Wired := by
  have hempty : ∀ b : Actor, b.links = [] → b.Wired := by
    intro b hb
    refine ⟨?_, ?_, ?_, ?_⟩ <;> simp [hb]
  refine hempty _ ?_
  unfold init addPeer
  dsimp only
  split
  · split_ifs <;> rfl
  · rfl

theorem pollsMeet_of_forall (h : ∀ a action, Q a action) (a : Actor) (e : Event) :
    PollsMeet π Q a e := by
  cases e with
  | tick => exact ⟨.of_forall h _ _, .of_forall h _ _⟩
  | _ => trivial

theorem step_wired (h : a.Wired) (e : Event) : (step π a e).Wired :=
  (step_changes (Q := fun _ _ => True) h (pollsMeet_of_forall (fun _ _ => trivial) a e)).wired h

theorem run_wired (setup : Setup) (es : List Event) : (run π (init setup) es).Wired :=
  Transition.invariant (I := Wired) (fun _ e ha => step_wired ha e) (init_wired setup) es

/-- **What every change preserves holds after every run**, if the conditions that the changes are
known under are met along it. -/
theorem run_preserves {P : Actor → Event → Prop} {I : Actor → Prop} {setup : Setup}
    {es : List Event} (h0 : I (init setup))
    (hP : ∀ a e, P a e → PollsMeet π Q a e)
    (hI : ∀ s e a b, P s e → Changes π Q s e s a → Small π Q s e a b → I s → I a → I b)
    (h : Transition.Along (step π) P (init setup) es) : I (run π (init setup) es) := by
  refine (Transition.run_invariant (I := fun a => a.Wired ∧ I a) ?_ ⟨init_wired setup, h0⟩ h).2
  rintro a e ⟨hwired, ha⟩ hPe
  refine ⟨step_wired hwired e, ?_⟩
  have hchanges := step_changes hwired (hP a e hPe)
  generalize step π a e = b at hchanges ⊢
  induction hchanges with
  | refl => exact ha
  | tail hbefore hstep ih => exact hI _ _ _ _ hPe hbefore hstep ha ih

/-- The changes of a step without conditions. -/
abbrev AnyPoll : Actor → PollAction → Prop := fun _ _ => True

/-- What every change preserves holds after every run. -/
theorem run_invariant {I : Actor → Prop} {setup : Setup} (h0 : I (init setup))
    (hI : ∀ s e a b, Small π AnyPoll s e a b → I a → I b) (es : List Event) :
    I (run π (init setup) es) :=
  run_preserves (P := fun _ _ => True) (Q := AnyPoll) h0
    (fun a e _ => pollsMeet_of_forall (fun _ _ => trivial) a e)
    (fun s e a b _ _ hsmall _ ha => hI s e a b hsmall ha)
    (.of_forall (fun _ _ => trivial) _ _)

end Tailcat.Runtime.Actor
