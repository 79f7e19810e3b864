import Tailcat.Runtime.Trace

/-!
# Probes

Probes are sent to the candidates of a peer, and to nothing else.  Most of what the actor does
leaves peers and probes alone; `Probing` follows both through the functions that do not.

* `step_probes` : a probe that waits after a step has waited before it, or is one of a candidate.

A direct path to a peer is taken only after a probe to it was answered, so where probes go decides
where packets can go later.  A candidate is an endpoint that the peer has announced, or one that a
ping of the peer came from; the module follows the table of probes through the functions of the
actor, in the order of the source, and finds one new entry at most for each candidate.

`NewProbes` allows for functions that learn a candidate and probe it in the same step: the new
probes are of candidates of the state after the step.  `Runtime.DirectPaths` goes on from here.
-/

namespace Tailcat.Runtime.Actor

open Net

variable {π : Platform} {a b c : Actor} {key : Key} {endpoint : SocketAddr}

/-- The endpoint is a candidate for a direct path to the peer. -/
def IsCandidate (a : Actor) (key : Key) (endpoint : SocketAddr) : Prop :=
  ∃ peer, a.peers.lookup key = some peer ∧ endpoint ∈ peer.candidates

/-- A probe that waits in `b` has waited in `a`, or is one of a candidate in `c`. -/
def NewProbes (c a b : Actor) : Prop :=
  ∀ txid probe, b.probes.lookup txid = some probe →
    a.probes.lookup txid = some probe ∨ c.IsCandidate probe.key probe.endpoint

/-- The states have the same peers, and only candidates were probed between them. -/
structure Probing (a b : Actor) : Prop where
  peers : b.peers = a.peers
  probes : NewProbes a a b

theorem isCandidate_congr (h : b.peers = a.peers) :
    b.IsCandidate key endpoint ↔ a.IsCandidate key endpoint := by
  rw [IsCandidate, IsCandidate, h]

namespace Probing

theorem ofEq (hpeers : b.peers = a.peers) (hprobes : b.probes = a.probes) : Probing a b :=
  ⟨hpeers, fun _ _ h => .inl (hprobes ▸ h)⟩

theorem refl (a : Actor) : Probing a a := ofEq rfl rfl

theorem trans (h : Probing a b) (h' : Probing b c) : Probing a c := by
  refine ⟨h'.peers.trans h.peers, fun txid probe hprobe => ?_⟩
  rcases h'.probes txid probe hprobe with hold | hnew
  · exact h.probes txid probe hold
  · exact .inr ((isCandidate_congr h.peers).1 hnew)

theorem ofSends (h : Sends a b) : Probing a b := by
  rw [h.eq]
  exact ofEq rfl rfl

/-- A loop whose body probes only candidates. -/
theorem foldl {α : Type} {f : Actor → α → Actor} (hf : ∀ a x, Probing a (f a x)) (l : List α)
    (a : Actor) : Probing a (l.foldl f a) := by
  induction l generalizing a with
  | nil => exact refl a
  | cons x l ih => exact (hf a x).trans (ih (f a x))

/-- What is probed after the states is probed in the last of them. -/
theorem newProbes (h : Probing a b) : NewProbes b a b := fun txid probe hprobe =>
  (h.probes txid probe hprobe).imp_right (isCandidate_congr h.peers).2

end Probing

/-! ### What probes -/

theorem probe_probing (h : a.IsCandidate key endpoint) : Probing a (a.probe π key endpoint) := by
  unfold probe
  split_ifs with husable
  · exact .refl a
  · dsimp only
    split
    · exact .ofEq rfl rfl
    · simp only [sealDisco]
      split
      · rename_i heq
        obtain ⟨-, rfl⟩ := Prod.mk.inj heq
        exact .ofEq rfl rfl
      · rename_i packet _ heq
        obtain ⟨-, rfl⟩ := Prod.mk.inj heq
        split_ifs
        · refine ⟨rfl, fun txid probe hprobe => ?_⟩
          change (a.probes.insert (π.txid a.draws) ⟨key, endpoint, a.now⟩).lookup txid =
            some probe at hprobe
          rw [Table.lookup_insert_eq] at hprobe
          split_ifs at hprobe with htxid
          · cases hprobe
            exact .inr h
          · exact .inl hprobe
        · exact .ofEq rfl rfl

theorem probeAll_probing {endpoints : List SocketAddr}
    (h : ∀ endpoint ∈ endpoints, a.IsCandidate key endpoint) :
    Probing a (a.probeAll π key endpoints) := by
  unfold probeAll
  induction endpoints generalizing a with
  | nil => exact .refl a
  | cons endpoint endpoints ih =>
    have hfirst := probe_probing (π := π) (h endpoint List.mem_cons_self)
    exact hfirst.trans (ih fun endpoint' hmem =>
      (isCandidate_congr hfirst.peers).2 (h endpoint' (List.mem_cons_of_mem _ hmem)))

theorem advertiseTo_probing (payload : Bytes) (a : Actor) (key : Key) :
    Probing a (advertiseTo π payload a key) := by
  unfold advertiseTo
  split
  · exact .refl a
  · rename_i peer hpeer
    have hsends := sealAndRelay_sends (π := π) (knows_of_lookup hpeer) peer payload
    have hsame := Probing.ofSends hsends
    exact hsame.trans (probeAll_probing fun endpoint hmem =>
      (isCandidate_congr hsame.peers).2 ⟨peer, hpeer, hmem⟩)

theorem advertise_probing (a : Actor) : Probing a (a.advertise π) :=
  Probing.trans (b := { a with lastAdvertise := a.now }) (.ofEq rfl rfl)
    (.foldl (advertiseTo_probing _) _ _)

/-! ### Packets from the tunnel -/

theorem newUdpFlow_probing (a : Actor) (flow : UdpFlowKey) : Probing a (a.newUdpFlow flow).2 := by
  rw [newUdpFlow_eq]
  exact .ofEq rfl rfl

theorem openUdpFlow_probing (a : Actor) (dst : Ipv6Addr) (flow : UdpFlowKey) :
    Probing a (a.openUdpFlow π dst flow) := by
  unfold openUdpFlow
  split
  · exact .refl a
  · rename_i config _
    have hhandler : Probing a (a.udpHandler config dst flow).2 := by
      unfold udpHandler
      split_ifs <;> split <;> exact .ofEq rfl rfl
    by_cases hsize : maxConnections ≤ a.udpFlows.size
    · rw [if_pos hsize]
      exact .refl a
    rw [if_neg hsize]
    dsimp only
    by_cases hfiltered : (a.liveListener true dst flow.1.port).isNone ∧ dst = a.localAddr ∧
        !config.servedUdpPorts.admits flow.1.port
    · rw [if_pos hfiltered]
      exact .refl a
    rw [if_neg hfiltered]
    generalize a.udpHandler config dst flow = p at hhandler ⊢
    obtain ⟨handler, b⟩ := p
    refine hhandler.trans ?_
    split
    · exact .refl b
    · dsimp only
      split_ifs <;> exact (newUdpFlow_probing b flow).trans (.ofEq rfl rfl)
    · exact (newUdpFlow_probing b flow).trans (.ofEq rfl rfl)

theorem removeCancelled_probing (a : Actor) (flow : UdpFlowKey) :
    Probing a (a.removeCancelled flow) := by
  rw [removeCancelled_eq]
  exact .ofEq rfl rfl

theorem udpInput_probing (a : Actor) (ip : Ipv6Packet) : Probing a (a.udpInput π ip) := by
  unfold udpInput
  split
  · exact .refl a
  · rename_i repr _
    split_ifs
    · exact .refl a
    · dsimp only
      generalize (SocketAddr.new (.v6 ip.dstAddr) repr.dstPort,
        SocketAddr.new (.v6 ip.srcAddr) repr.srcPort) = flow
      have hopened : Probing a (if flow ∈ (a.removeCancelled flow).udpFlows then
          a.removeCancelled flow else (a.removeCancelled flow).openUdpFlow π ip.dstAddr flow) := by
        split_ifs
        · exact removeCancelled_probing a flow
        · exact (removeCancelled_probing a flow).trans (openUdpFlow_probing _ _ _)
      refine hopened.trans ?_
      rw [deliver_eq]
      exact .ofEq rfl rfl

theorem openSyn_probing (a : Actor) (config : ServerConfig) (dest src : Ipv6Addr)
    (tcp : TcpRepr) : Probing a (a.openSyn config dest src tcp) := by
  have hhandler : Probing a (a.tcpHandler config dest tcp.dstPort).2 := by
    unfold tcpHandler
    split
    · exact .refl a
    · split_ifs <;> split <;> exact .ofEq rfl rfl
  unfold openSyn
  dsimp only
  split_ifs
  · split
    · rename_i handler b heq
      rw [heq] at hhandler
      refine hhandler.trans ?_
      split <;> exact .ofEq rfl rfl
    · rename_i b heq
      rw [heq] at hhandler
      exact hhandler
  · exact .refl a

theorem receiveIp_probing (a : Actor) (packet : Bytes) : Probing a (a.receiveIp π packet) := by
  unfold receiveIp
  split
  · exact .refl a
  · rename_i ip _
    by_cases hversion : ip.version ≠ 6
    · rw [if_pos hversion]
      exact .refl a
    rw [if_neg hversion]
    by_cases hudp : ip.nextHeader = protoUdp
    · rw [if_pos hudp]
      exact udpInput_probing a ip
    rw [if_neg hudp]
    split
    · exact .ofEq rfl rfl
    · dsimp only
      by_cases htcp : ip.nextHeader = protoTcp
      · rw [if_pos htcp]
        split
        · exact .refl a
        · split_ifs
          · exact .refl a
          · exact (openSyn_probing _ _ _ _ _).trans (.ofEq rfl rfl)
          · exact .ofEq rfl rfl
      · rw [if_neg htcp]
        split_ifs
        · exact .refl a
        · exact .ofEq rfl rfl

theorem tunnelWrite_probing (a : Actor) (r : TunnResult) (h : a.Knows key) :
    Probing a (tunnelWrite π key a r) := by
  unfold tunnelWrite
  split
  · exact .ofSends (sendPacket_sends π h _)
  · split_ifs
    · exact Probing.trans (b := a.act _) (.ofEq rfl rfl) (receiveIp_probing _ _)
    · exact .refl a

theorem tunnelWrites_probing (results : List TunnResult) (a : Actor) (h : key ∈ a.peers) :
    Probing a (results.foldl (tunnelWrite π key) a) := by
  induction results generalizing a with
  | nil => exact .refl a
  | cons r results ih =>
    have hfirst := tunnelWrite_probing (π := π) a r (.inl h)
    exact hfirst.trans (ih _ (hfirst.peers ▸ h))

/-! ### Packets of the discovery protocol -/

/-- What is probed after the probes were left alone. -/
theorem Probing.newProbes_of_eq (h : Probing b c) (hprobes : b.probes = a.probes) :
    NewProbes c a c := by
  intro txid probe hprobe
  rw [← hprobes]
  exact h.newProbes txid probe hprobe

/-- What is remembered is known. -/
theorem mem_of_rememberEndpoint {endpoints known : List SocketAddr}
    (h : rememberEndpoint known endpoint = (true, endpoints)) : endpoint ∈ endpoints := by
  unfold rememberEndpoint at h
  by_cases hknown : (!usableEndpoint endpoint || known.contains endpoint) = true
  · rw [if_pos hknown] at h
    exact absurd (Prod.mk.inj h).1 Bool.false_ne_true
  · rw [if_neg hknown] at h
    rw [← (Prod.mk.inj h).2]
    exact List.mem_append_right _ (List.mem_singleton_self _)

/-- The candidates of a peer, after they were changed. -/
theorem isCandidate_adjust {peer : Peer} {candidates : List SocketAddr}
    (hpeer : a.peers.lookup key = some peer) (hmem : endpoint ∈ candidates) :
    { a with peers := a.peers.adjust key fun peer => { peer with candidates } }.IsCandidate key
      endpoint := by
  refine ⟨{ peer with candidates }, ?_, hmem⟩
  change (a.peers.adjust key _).lookup key = _
  rw [Table.lookup_adjust, if_pos rfl, hpeer]
  rfl

theorem probeSource_newProbes {peer peer' : Peer} (hpeer : a.peers.lookup key = some peer)
    (source : Option SocketAddr) :
    NewProbes (a.probeSource π key peer' source) a (a.probeSource π key peer' source) := by
  unfold probeSource
  split
  · split
    · rename_i candidates hremember
      exact Probing.newProbes_of_eq
        (probe_probing (isCandidate_adjust hpeer (mem_of_rememberEndpoint hremember))) rfl
    · exact (Probing.refl a).newProbes
  · exact (Probing.refl a).newProbes

theorem discoPing_newProbes {peer : Peer} (hpeer : a.peers.lookup key = some peer) (data : Bytes)
    (source : Option SocketAddr) : NewProbes (a.discoPing π key peer data source) a
      (a.discoPing π key peer data source) := by
  unfold discoPing
  dsimp only
  generalize [2, 0] ++ slice data 2 14 ++ endpointBytes (reportedEndpoint source) = pong
  have hsends := sendPong_sends (π := π) (knows_of_lookup hpeer) peer pong source
  generalize a.sendPong π key peer pong source = b at hsends ⊢
  have hsame := Probing.ofSends hsends
  rw [← hsame.peers] at hpeer
  have hprobes : b.probes = a.probes := by rw [hsends.eq]
  intro txid probe hprobe
  rw [← hprobes]
  exact probeSource_newProbes hpeer source txid probe hprobe

/-- A probe that waits while another is answered has waited before. -/
theorem answerProbe_newProbes (a : Actor) (key : Key) (txid : TxId)
    (source : Option SocketAddr) : NewProbes c a (a.answerProbe key txid source) := by
  unfold answerProbe
  split
  · split_ifs
    · intro txid' probe' hprobe
      refine .inl ?_
      change (a.probes.erase txid).lookup txid' = some probe' at hprobe
      rw [Table.lookup_erase_eq] at hprobe
      split_ifs at hprobe
      exact hprobe
    · exact fun _ _ h => .inl h
  · exact fun _ _ h => .inl h

theorem probes_answerPing (a : Actor) (txid : TxId) (source : Option SocketAddr) :
    (a.answerPing txid source).probes = a.probes := by
  unfold answerPing
  split
  · split <;> rfl
  · rfl

theorem callMeMaybe_newProbes {peer : Peer} (hpeer : a.peers.lookup key = some peer)
    (data : Bytes) :
    NewProbes (a.callMeMaybe π key data) a (a.callMeMaybe π key data) :=
  Probing.newProbes_of_eq (probeAll_probing fun _ hmem => isCandidate_adjust hpeer hmem) rfl

theorem discoPacket_newProbes (a : Actor) (key : Key) (packet : Bytes)
    (source : Option SocketAddr) : NewProbes (a.discoPacket π key packet source) a
      (a.discoPacket π key packet source) := by
  have hrefl : NewProbes a a a := (Probing.refl a).newProbes
  unfold discoPacket
  split
  · exact hrefl
  · rename_i peer hpeer
    split_ifs
    · exact hrefl
    · split
      · exact hrefl
      · split_ifs
        · exact hrefl
        · exact discoPing_newProbes hpeer _ _
        · intro txid probe hprobe
          rw [discoPong, probes_answerPing] at hprobe
          exact answerProbe_newProbes a key _ source txid probe hprobe
        · exact callMeMaybe_newProbes hpeer _
        · exact hrefl

/-! ### Steps -/

theorem answers_probing {α : Type} (a : Actor) (l : List α) (result : α → ReplyId)
    (x : Actor → α → Answer) : Probing a (l.foldl (fun a y => a.answer (result y) (x a y)) a) :=
  .ofSends (answers_sends a l result x)

theorem probes_addPeer (a : Actor) (key disco : Key) :
    (a.addPeer key disco).probes = a.probes := by
  unfold addPeer
  split_ifs <;> rfl

theorem meowPacket_newProbes (a : Actor) (key : Key) (data : Bytes) :
    NewProbes (a.meowPacket π key data) a (a.meowPacket π key data) := by
  have hrefl : NewProbes a a a := (Probing.refl a).newProbes
  unfold meowPacket
  split
  · split_ifs with hregisters
    · dsimp only
      have hprobes := probes_addPeer a key (registeredDisco data)
      split_ifs with hkey
      · exact ((Probing.ofSends (relaySend_sends π (.inl hkey) _)).trans
          (advertise_probing _)).newProbes_of_eq hprobes
      · exact (Probing.refl _).newProbes_of_eq hprobes
    · exact hrefl
  · split_ifs
    · exact (Probing.trans (b := { a with pings := a.pings.filter fun p => p.disco })
        (.ofEq rfl rfl) (answers_probing _ _ _ _)).newProbes
    · exact hrefl

/-- What neither registers a peer nor is of the discovery protocol leaves peers and probes alone. -/
theorem incomingPacket_probing (a : Actor) {data : Bytes} {source : SocketAddr}
    (h : ¬(discoMagic.isPrefixOf data = true ∧ 38 ≤ data.length)) :
    Probing a (a.incomingPacket π key data (some source)) := by
  unfold incomingPacket
  split_ifs with hmeow hdisco hkey
  · exact .refl a
  · have hshort : data.length < 38 := Nat.lt_of_not_le fun hle => h ⟨hdisco, hle⟩
    unfold discoPacket
    split
    · exact .refl a
    · rw [if_pos (.inl (by omega))]
      exact .refl a
  · exact Probing.trans (b := a.draw) (.ofEq rfl rfl) (tunnelWrites_probing _ _ hkey)
  · exact .refl a

theorem incomingPacket_newProbes (a : Actor) (key : Key) (data : Bytes)
    (source : Option SocketAddr) : NewProbes (a.incomingPacket π key data source) a
      (a.incomingPacket π key data source) := by
  have hrefl : NewProbes a a a := (Probing.refl a).newProbes
  unfold incomingPacket
  split_ifs with hmeow hdisco hkey
  · split
    · exact hrefl
    · exact meowPacket_newProbes a key data
  · exact discoPacket_newProbes a key data source
  · exact (Probing.trans (b := a.draw) (.ofEq rfl rfl) (tunnelWrites_probing _ _ hkey)).newProbes
  · exact hrefl

theorem udpPacket_newProbes (a : Actor) (data : Bytes) (source : SocketAddr) :
    NewProbes (a.udpPacket π data source) a (a.udpPacket π data source) := by
  have hrefl : NewProbes a a a := (Probing.refl a).newProbes
  unfold udpPacket
  split_ifs with hstun hdisco
  · split
    · split
      · exact (Probing.ofEq rfl rfl).newProbes
      · exact hrefl
    · exact hrefl
  · split
    · exact incomingPacket_newProbes a _ data (some source)
    · exact hrefl
  · exact (Probing.foldl (fun b key => incomingPacket_probing b hdisco) _ a).newProbes

theorem startPing_probing (a : Actor) (ping : PendingPing) :
    Probing a (a.startPing π ping) := by
  have hsent := Probing.ofSends (sendPing_sends π a ping)
  unfold startPing
  generalize a.sendPing π ping = sent at hsent ⊢
  have hadded : Probing a { sent.2 with pings := sent.2.pings ++ [sent.1] } :=
    hsent.trans (.ofEq rfl rfl)
  dsimp only
  split_ifs
  · exact hadded.trans (advertise_probing _)
  · exact hadded

theorem command_probing (a : Actor) (x : Command) : Probing a (a.command π x) := by
  unfold command
  split
  · unfold listenCommand
    dsimp only
    split_ifs <;> exact .ofEq rfl rfl
  · unfold dialUdpCommand
    split_ifs
    · exact .ofEq rfl rfl
    · split
      · exact .ofEq rfl rfl
      · dsimp only
        split_ifs <;> exact (newUdpFlow_probing a _).trans (.ofEq rfl rfl)
  · split
    · rw [udpOutput_eq]
      exact .ofEq rfl rfl
    · exact .refl a
  · exact .ofEq rfl rfl
  · unfold dial
    split_ifs
    · exact .refl a
    · exact .ofEq rfl rfl
    · dsimp only
      split
      · exact .ofEq rfl rfl
      · refine Probing.trans ?_ (advertise_probing _)
        exact .ofEq rfl rfl
  · unfold pingCommand
    split_ifs
    · exact .refl a
    · exact .ofEq rfl rfl
    · exact Probing.trans (b := a.dropClosedPings.draw) (.ofEq rfl rfl) (startPing_probing _ _)
  · exact .ofEq rfl rfl
  · split
    · split_ifs
      · exact .refl a
      · exact .ofEq rfl rfl
    · exact .refl a

theorem egress_probing (a : Actor) (packet : Bytes) : Probing a (a.egress π packet) := by
  unfold egress
  split_ifs
  · exact .refl a
  · split
    · exact .refl a
    · rename_i key hkey
      have hact : Probing a (a.draw.act (.encapsulate key packet)) := .ofEq rfl rfl
      dsimp only
      split
      · exact hact.trans (.ofSends (sendPacket_sends π
          (a := a.draw.act (.encapsulate key packet)) (knows_of_tunnelFor hkey) _))
      · exact hact

theorem tunnelTimers_probing (keys : List Key) (a : Actor) (h : ∀ key ∈ keys, key ∈ a.peers) :
    Probing a (keys.foldl (tunnelTimer π) a) := by
  induction keys generalizing a with
  | nil => exact .refl a
  | cons key keys ih =>
    have hfirst : Probing a (a.tunnelTimer π key) := by
      unfold tunnelTimer
      split
      · exact Probing.trans (b := a.draw) (.ofEq rfl rfl) (.ofSends
          (sendPacket_sends π (a := a.draw) (.inl (h key List.mem_cons_self)) _))
      · exact .ofEq rfl rfl
    exact hfirst.trans (ih _ fun key' hkey' =>
      hfirst.peers ▸ h key' (List.mem_cons_of_mem _ hkey'))

theorem pingTimers_probing (pending : List PendingPing) (a : Actor) :
    Probing a (pending.foldl (pingTimer π) a) := by
  have hpings := (pingTimers_sends (π := π) a pending).1
  rw [hpings.eq]
  exact .ofEq rfl rfl

theorem retain_probing (a : Actor) (p : TxId → Probe → Bool) :
    Probing a { a with probes := a.probes.retain p } := by
  refine ⟨rfl, fun txid probe hprobe => .inl ?_⟩
  change (a.probes.retain p).lookup txid = some probe at hprobe
  rw [Table.lookup_retain] at hprobe
  exact (Option.filter_eq_some_iff.1 hprobe).1

theorem timers_probing (a : Actor) : Probing a (a.timers π) := by
  unfold timers
  split_ifs
  · dsimp only
    have htunnels := tunnelTimers_probing (π := π) a.peers.keys { a with lastTimers := a.now }
      fun key hkey => hkey
    generalize a.peers.keys.foldl (tunnelTimer π) _ = b at htunnels ⊢
    have hpings := pingTimers_probing (π := π) b.pings { b with pings := [] }
    generalize b.pings.foldl (pingTimer π) _ = c at hpings ⊢
    have hstart : Probing a b := Probing.trans (b := { a with lastTimers := a.now })
      (.ofEq rfl rfl) htunnels
    have hend : Probing b c := Probing.trans (b := { b with pings := [] }) (.ofEq rfl rfl) hpings
    exact (hstart.trans hend).trans (retain_probing c _)
  · exact .refl a

theorem tick_probing (a : Actor) (first second : List PollAction) :
    Probing a (a.tick π first second) := by
  have hpoll : ∀ (b : Actor) (actions : List PollAction),
      Probing b (b.ifacePoll π actions) := fun b actions =>
    .foldl (fun b action => by rw [pollAction_eq]; exact .ofEq rfl rfl) actions b
  have hexpire : Probing a a.expireUdp := by
    rw [expireUdp_eq]
    exact .ofEq rfl rfl
  have hlinks : ∀ b : Actor, Probing b (b.pollLinks π) := fun b => by
    rw [sameButLinks_pollLinks π b]
    exact .ofEq rfl rfl
  have hout : ∀ b : Actor, Probing b (b.drainOutgoing π) := fun b =>
    Probing.trans (b := { b with outgoing := [] }) (.ofEq rfl rfl) (.foldl egress_probing _ _)
  have hadvertise : ∀ b : Actor, Probing b (b.advertiseTimer π) := fun b => by
    unfold advertiseTimer
    split_ifs
    · exact advertise_probing b
    · exact .refl b
  have hdrain : ∀ b : Actor, Probing b b.drainTimer := fun b => by
    unfold drainTimer
    split_ifs
    · exact Probing.trans (b := { b with drains := [] }) (.ofEq rfl rfl) (answers_probing _ _ _ _)
    · exact .refl b
  unfold tick
  exact (((((((hexpire.trans (hpoll _ first)).trans (hlinks _)).trans (hpoll _ second)).trans
    (hout _)).trans (timers_probing _)).trans (hadvertise _)).trans (hdrain _))

/-- **Only candidates are probed**: a probe that waits after a step has waited before it, or its
endpoint is a candidate of its peer after the step. -/
theorem step_probes (a : Actor) (e : Event) : NewProbes (step π a e) a (step π a e) := by
  cases e with
  | command x => exact (command_probing a x).newProbes
  | relayed key data => exact incomingPacket_newProbes a key data none
  | datagram source data => exact udpPacket_newProbes a data source
  | tick first second => exact (tick_probing a first second).newProbes
  | app pipe op =>
    simp only [step]
    split_ifs <;> exact (Probing.ofEq rfl rfl).newProbes
  | reorder peers =>
    simp only [step]
    split_ifs <;> exact fun _ _ h => .inl h
  | _ => exact (Probing.ofEq rfl rfl).newProbes

end Tailcat.Runtime.Actor
