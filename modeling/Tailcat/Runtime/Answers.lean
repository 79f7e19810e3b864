import Tailcat.Runtime.Passes

/-!
# Who is answered

A command comes with the receiver of its answer.  Pings and drains keep theirs for later, and so
does a link whose dial waits; all others are answered at once.  For a receiver that no ping and no
drain keeps (`Spare`), the answers it got and the links that keep it are counted together (`owed`).

`Accounts` relates two states: the count is the same, unless the receiver is gone, and a link that
keeps the receiver is not a new one.  Most operations do nothing that concerns receivers, and for
these it is enough that what concerns them (`heard`) stays; the others are followed one by one, the
rounds of a pass over the links in particular.

* `step_accounts` : no event changes the count, but a command with this receiver, and a receiver
  that is gone.
* `dial_owes` : a dial adds one.
* `run_dial` : so a receiver that came with a dial is answered once, or kept by one link.

When it is answered is the subject of `AnsweredDials`.
-/

namespace Tailcat.Runtime

open Net

/-- Is this an answer? -/
def Act.isAnswer : Act → Bool
  | .answer .. => true
  | _ => false

/-- Is this an answer to the receiver? -/
def Act.answers (r : ReplyId) : Act → Bool
  | .answer result _ => result = r
  | _ => false

namespace Actor

variable {π : Platform} {r : ReplyId} {a b c : Actor}

/-! ### Counting -/

/-- How often a receiver was answered. -/
def answersTo (a : Actor) (r : ReplyId) : ℕ := a.trace.countP (Act.answers r)

/-- How many links keep a receiver. -/
def waitsFor (a : Actor) (r : ReplyId) : ℕ := a.links.countP fun link => link.connected = some r

/-- Both together. -/
def owed (a : Actor) (r : ReplyId) : ℕ := a.answersTo r + a.waitsFor r

/-- No ping and no drain keeps the receiver. -/
structure Spare (a : Actor) (r : ReplyId) : Prop where
  pings : ∀ p ∈ a.pings, p.result ≠ r
  drains : r ∉ a.drains

/-- A link that keeps the receiver has kept it before, and for as long. -/
def Waits (r : ReplyId) (a b : Actor) : Prop :=
  ∀ link ∈ b.links, link.connected = some r → ∃ link' ∈ a.links,
    link'.connected = some r ∧ link'.started = link.started

theorem Waits.of_subset (h : b.links ⊆ a.links) : Waits r a b :=
  fun link hlink hconnected => ⟨link, h hlink, hconnected, rfl⟩

theorem Waits.trans (h : Waits r a b) (h' : Waits r b c) : Waits r a c := by
  intro link hlink hconnected
  obtain ⟨mid, hmid, hconnected', hstarted⟩ := h' link hlink hconnected
  obtain ⟨old, hold, hconnected'', hstarted'⟩ := h mid hmid hconnected'
  exact ⟨old, hold, hconnected'', hstarted'.trans hstarted⟩

/-- The count stays the same, unless the receiver is gone. -/
structure Accounts (r : ReplyId) (a b : Actor) : Prop where
  spare : b.Spare r
  closed : a.closedReplies ⊆ b.closedReplies
  le : b.owed r ≤ a.owed r
  eq : r ∉ b.closedReplies → b.owed r = a.owed r
  waits : Waits r a b

/-- The links, and so what they keep, are the same. -/
theorem Accounts.of_links (hspare : b.Spare r) (hclosed : a.closedReplies ⊆ b.closedReplies)
    (howed : b.owed r = a.owed r) (hlinks : b.links = a.links) : Accounts r a b :=
  ⟨hspare, hclosed, le_of_eq howed, fun _ => howed,
    .of_subset (by rw [hlinks]; exact fun _ h => h)⟩

theorem Accounts.refl (h : a.Spare r) : Accounts r a a := .of_links h (fun _ h => h) rfl rfl

theorem Accounts.trans (h : Accounts r a b) (h' : Accounts r b c) : Accounts r a c :=
  ⟨h'.spare, fun _ hx => h'.closed (h.closed hx), h'.le.trans h.le, fun hopen =>
    (h'.eq hopen).trans (h.eq fun hx => hopen (h'.closed hx)), h.waits.trans h'.waits⟩

/-- What concerns the receivers of answers. -/
structure Heard where
  answers : List Act
  /-- The links whose dial waits. -/
  waiting : List Link
  pings : List PendingPing
  drains : List ReplyId
  closed : List ReplyId

/-- What concerns the receivers of answers in a state. -/
def heard (a : Actor) : Heard where
  answers := a.trace.filter Act.isAnswer
  waiting := a.links.filter (·.connected.isSome)
  pings := a.pings
  drains := a.drains
  closed := a.closedReplies

theorem answersTo_eq (a : Actor) (r : ReplyId) :
    a.answersTo r = a.heard.answers.countP (Act.answers r) := by
  simp only [answersTo, heard, List.countP_filter]
  refine List.countP_congr fun x _ => ?_
  cases x <;> simp [Act.answers, Act.isAnswer]

theorem waitsFor_eq (a : Actor) (r : ReplyId) :
    a.waitsFor r = a.heard.waiting.countP (·.connected = some r) := by
  simp only [waitsFor, heard, List.countP_filter]
  refine List.countP_congr fun link _ => ?_
  cases link.connected <;> simp

/-- Nothing that concerns receivers has changed. -/
theorem Accounts.of_heard (h : b.heard = a.heard) (hs : a.Spare r) : Accounts r a b := by
  have hpings : b.pings = a.pings := congrArg Heard.pings h
  have hdrains : b.drains = a.drains := congrArg Heard.drains h
  have hclosed : b.closedReplies = a.closedReplies := congrArg Heard.closed h
  have howed : b.owed r = a.owed r := by
    rw [owed, owed, answersTo_eq, answersTo_eq, waitsFor_eq, waitsFor_eq, h]
  refine ⟨⟨hpings ▸ hs.pings, hdrains ▸ hs.drains⟩, fun x hx => hclosed ▸ hx, le_of_eq howed,
    fun _ => howed, fun link hlink hconnected => ?_⟩
  have hwaits : link ∈ b.heard.waiting :=
    List.mem_filter.2 ⟨hlink, by rw [hconnected]; rfl⟩
  rw [h] at hwaits
  exact ⟨link, (List.mem_filter.1 hwaits).1, hconnected, rfl⟩

/-- Another receiver is answered. -/
theorem Accounts.answer (hs : a.Spare r) {result : ReplyId} (hne : result ≠ r) (x : Answer) :
    Accounts r a (a.answer result x) := by
  have howed : (a.answer result x).owed r = a.owed r := by
    simp only [owed, answersTo, waitsFor, Actor.answer, act, List.countP_append,
      List.countP_singleton, Act.answers, hne, decide_false, Bool.false_eq_true, if_false,
      Nat.add_zero]
  exact .of_links ⟨hs.pings, hs.drains⟩ (fun _ h => h) howed rfl

/-- The same after something that concerns no receiver. -/
theorem Accounts.heard_answer (h : b.heard = a.heard) (hs : a.Spare r) {result : ReplyId}
    (hne : result ≠ r) (x : Answer) : Accounts r a (b.answer result x) :=
  (Accounts.of_heard h hs).trans (.answer (Accounts.of_heard h hs).spare hne x)

/-! ### Sending -/

theorem heard_act {x : Act} (hx : x.isAnswer = false) : (a.act x).heard = a.heard := by
  simp only [heard, act, List.filter_append, List.filter_singleton, hx, cond_false,
    List.append_nil]

theorem heard_draw : a.draw.heard = a.heard := rfl

theorem heard_foldl {α : Type} {f : Actor → α → Actor} (hf : ∀ a x, (f a x).heard = a.heard)
    (l : List α) (a : Actor) : (l.foldl f a).heard = a.heard := by
  induction l generalizing a with
  | nil => rfl
  | cons x l ih => exact (ih (f a x)).trans (hf a x)

theorem heard_relaySend (key : Key) (data : Bytes) :
    (a.relaySend π key data).heard = a.heard := by
  unfold relaySend
  split_ifs
  · exact heard_act rfl
  · rfl

theorem heard_sendUdp (data : Bytes) (endpoint : SocketAddr) :
    (a.sendUdp π data endpoint).2.heard = a.heard := heard_act rfl

theorem heard_sendPacket (key : Key) (packet : Bytes) :
    (a.sendPacket π key packet).heard = a.heard := by
  unfold sendPacket
  split
  · rename_i endpoint when _
    have hudp := heard_sendUdp (π := π) (a := a) packet endpoint
    split_ifs
    · split
      · rename_i b hb
        rwa [hb] at hudp
      · rename_i b hb
        rw [hb] at hudp
        exact (heard_relaySend key packet).trans hudp
    · exact heard_relaySend key packet
  · exact heard_relaySend key packet

theorem heard_sealAndRelay (key : Key) (peer : Peer) (data : Bytes) :
    (a.sealAndRelay π key peer data).heard = a.heard := by
  unfold sealAndRelay sealDisco
  split
  · rename_i b hb
    obtain ⟨-, rfl⟩ := Prod.mk.inj hb
    exact (heard_relaySend key _).trans heard_draw
  · rename_i b hb
    obtain ⟨-, rfl⟩ := Prod.mk.inj hb
    rfl

theorem heard_probe (key : Key) (endpoint : SocketAddr) :
    (a.probe π key endpoint).heard = a.heard := by
  unfold probe
  split_ifs
  · rfl
  dsimp only
  split
  · rfl
  · unfold sealDisco
    split
    · rename_i b hb
      obtain ⟨-, rfl⟩ := Prod.mk.inj hb
      rfl
    · rename_i b hb
      obtain ⟨-, rfl⟩ := Prod.mk.inj hb
      split_ifs
      · exact heard_sendUdp _ _
      · rfl

theorem heard_probeAll (key : Key) (endpoints : List SocketAddr) :
    (a.probeAll π key endpoints).heard = a.heard :=
  heard_foldl (fun _ endpoint => heard_probe key endpoint) endpoints a

theorem heard_advertiseTo (payload : Bytes) (a : Actor) (key : Key) :
    (a.advertiseTo π payload key).heard = a.heard := by
  unfold advertiseTo
  split
  · rfl
  · exact (heard_probeAll key _).trans (heard_sealAndRelay key _ _)

theorem heard_advertise : (a.advertise π).heard = a.heard :=
  heard_foldl (heard_advertiseTo _) _ _

/-! ### Packets of the discovery protocol -/

theorem heard_sendPong (key : Key) (peer : Peer) (pong : Bytes) (source : Option SocketAddr) :
    (a.sendPong π key peer pong source).heard = a.heard := by
  unfold sendPong
  split
  · unfold sealDisco
    split
    · rename_i b hb
      obtain ⟨-, rfl⟩ := Prod.mk.inj hb
      exact heard_sendUdp _ _
    · rename_i b hb
      obtain ⟨-, rfl⟩ := Prod.mk.inj hb
      rfl
  · exact heard_sealAndRelay key peer pong

theorem heard_probeSource (key : Key) (peer : Peer) (source : Option SocketAddr) :
    (a.probeSource π key peer source).heard = a.heard := by
  unfold probeSource
  split
  · split
    · exact heard_probe key _
    · rfl
  · rfl

theorem heard_discoPing (key : Key) (peer : Peer) (data : Bytes) (source : Option SocketAddr) :
    (a.discoPing π key peer data source).heard = a.heard :=
  (heard_probeSource key peer source).trans (heard_sendPong key peer _ source)

theorem heard_callMeMaybe (key : Key) (data : Bytes) :
    (a.callMeMaybe π key data).heard = a.heard := heard_probeAll key _

theorem heard_answerProbe (key : Key) (txid : TxId) (source : Option SocketAddr) :
    (a.answerProbe key txid source).heard = a.heard := by
  unfold answerProbe
  split
  · split_ifs
    · exact heard_act rfl
    · rfl
  · rfl

theorem accounts_answerPing (hs : a.Spare r) (txid : TxId) (source : Option SocketAddr) :
    Accounts r a (a.answerPing txid source) := by
  unfold answerPing
  split
  · rename_i index _
    split
    · rename_i p hp
      have herased : ({ a with pings := a.pings.eraseIdx index } : Actor).Spare r :=
        ⟨fun q hq => hs.pings q ((List.eraseIdx_sublist _ _).subset hq), hs.drains⟩
      have hkept : Accounts r a { a with pings := a.pings.eraseIdx index } :=
        .of_links herased (fun _ h => h) rfl rfl
      exact hkept.trans (.answer herased (hs.pings p (List.mem_of_getElem? hp)) _)
    · exact .refl hs
  · exact .refl hs

theorem accounts_discoPong (hs : a.Spare r) (key : Key) (data : Bytes)
    (source : Option SocketAddr) : Accounts r a (a.discoPong key data source) := by
  have hprobe := Accounts.of_heard (heard_answerProbe key (txidOf data) source) hs
  exact hprobe.trans (accounts_answerPing hprobe.spare _ source)

theorem accounts_discoPacket (hs : a.Spare r) (key : Key) (packet : Bytes)
    (source : Option SocketAddr) : Accounts r a (a.discoPacket π key packet source) := by
  unfold discoPacket
  split
  · exact .refl hs
  split_ifs
  · exact .refl hs
  split
  · exact .refl hs
  split_ifs
  · exact .refl hs
  · exact .of_heard (heard_discoPing key _ _ source) hs
  · exact accounts_discoPong hs key _ source
  · exact .of_heard (heard_callMeMaybe key _) hs
  · exact .refl hs

/-! ### Packets from the tunnel -/

theorem heard_newUdpFlow (flow : UdpFlowKey) : (a.newUdpFlow flow).2.heard = a.heard := by
  rw [newUdpFlow_eq]
  rfl

theorem heard_udpHandler (config : ServerConfig) (dst : Ipv6Addr) (flow : UdpFlowKey) :
    (a.udpHandler config dst flow).2.heard = a.heard := by
  unfold udpHandler
  split_ifs
  · split
    · exact heard_act rfl
    · rfl
  · split
    · exact heard_act rfl
    · rfl

theorem heard_openUdpFlow (dst : Ipv6Addr) (flow : UdpFlowKey) :
    (a.openUdpFlow π dst flow).heard = a.heard := by
  unfold openUdpFlow
  split
  · rfl
  rename_i config _
  by_cases hfull : maxConnections ≤ a.udpFlows.size
  · rw [if_pos hfull]
  rw [if_neg hfull]
  dsimp only
  by_cases hfiltered : (a.liveListener true dst flow.1.port).isNone ∧ dst = a.localAddr ∧
      !config.servedUdpPorts.admits flow.1.port
  · rw [if_pos hfiltered]
  rw [if_neg hfiltered]
  have hhandler := heard_udpHandler (a := a) config dst flow
  generalize a.udpHandler config dst flow = p at hhandler ⊢
  obtain ⟨handler, b⟩ := p
  have hnew := (heard_newUdpFlow (a := b) flow).trans hhandler
  dsimp only
  split
  · exact hhandler
  · split_ifs
    · exact (heard_act rfl).trans hnew
    · exact hnew
  · exact (heard_act rfl).trans hnew

theorem heard_deliver (flow : UdpFlowKey) (payload : Bytes) :
    (a.deliver flow payload).heard = a.heard := by
  unfold deliver
  split
  · rfl
  · dsimp only
    split
    · split_ifs
      · exact heard_act rfl
      · rfl
    · rfl

theorem heard_removeCancelled (flow : UdpFlowKey) : (a.removeCancelled flow).heard = a.heard := by
  rw [removeCancelled_eq]
  rfl

theorem heard_udpInput (ip : Ipv6Packet) : (a.udpInput π ip).heard = a.heard := by
  unfold udpInput
  split
  · rfl
  split_ifs
  · rfl
  dsimp only
  refine (heard_deliver _ _).trans ?_
  split_ifs
  · exact heard_removeCancelled _
  · exact (heard_openUdpFlow _ _).trans (heard_removeCancelled _)

theorem heard_tcpHandler (config : ServerConfig) (dest : Ipv6Addr) (port : Port) :
    (a.tcpHandler config dest port).2.heard = a.heard := by
  unfold tcpHandler
  split
  · rfl
  split_ifs
  · split
    · exact heard_act rfl
    · rfl
  · split
    · exact heard_act rfl
    · rfl

theorem heard_openLink (socket : Socket) (flow : TcpFlow) (handler : Option Handler) :
    (a.openLink socket flow none handler).heard = a.heard := by
  simp only [heard, openLink, List.filter_append, List.filter_singleton, Option.isSome_none,
    cond_false, List.append_nil]

theorem heard_openSyn (config : ServerConfig) (dest src : Ipv6Addr) (tcp : TcpRepr) :
    (a.openSyn config dest src tcp).heard = a.heard := by
  unfold openSyn
  dsimp only
  by_cases hopens : (!(a.links.any fun link =>
      link.flow = (⟨dest, tcp.dstPort⟩, ⟨src, tcp.srcPort⟩))) ∧ a.links.length < maxConnections
  · rw [if_pos hopens]
    have hhandler := heard_tcpHandler (a := a) config dest tcp.dstPort
    generalize a.tcpHandler config dest tcp.dstPort = p at hhandler ⊢
    obtain ⟨_ | handler, b⟩ := p
    · exact hhandler
    · dsimp only
      split
      · exact (heard_openLink _ _ _).trans hhandler
      · exact hhandler
  · rw [if_neg hopens]

theorem heard_receiveIp (packet : Bytes) : (a.receiveIp π packet).heard = a.heard := by
  unfold receiveIp
  split
  · rfl
  split
  · rfl
  split
  · exact heard_udpInput _
  split
  · rfl
  dsimp only
  split
  · split
    · rfl
    · split
      · rfl
      · split
        · exact heard_openSyn _ _ _ _
        · rfl
  · split <;> rfl

theorem heard_tunnelWrite (key : Key) (a : Actor) (result : TunnResult) :
    (tunnelWrite π key a result).heard = a.heard := by
  unfold tunnelWrite
  split
  · exact heard_sendPacket key _
  · split_ifs
    · exact (heard_receiveIp _).trans (heard_act rfl)
    · rfl

theorem heard_addPeer (key discoKey : Key) : (a.addPeer key discoKey).heard = a.heard := by
  unfold addPeer
  split_ifs <;> rfl

/-- Other receivers are answered, one after another. -/
theorem accounts_answers {α : Type} {l : List α} {f : Actor → α → Actor}
    (hf : ∀ b, ∀ x ∈ l, ∃ result y, result ≠ r ∧ f b x = b.answer result y) (hs : a.Spare r) :
    Accounts r a (l.foldl f a) := by
  induction l generalizing a with
  | nil => exact .refl hs
  | cons x l ih =>
    obtain ⟨result, y, hne, heq⟩ := hf a x List.mem_cons_self
    have hx : Accounts r a (f a x) := heq ▸ Accounts.answer hs hne y
    exact hx.trans (ih (fun b y hy => hf b y (List.mem_cons_of_mem x hy)) hx.spare)

theorem accounts_dropPings (hs : a.Spare r) {pings : List PendingPing} (h : pings ⊆ a.pings) :
    Accounts r a { a with pings } :=
  .of_links ⟨fun p hp => hs.pings p (h hp), hs.drains⟩ (fun _ h => h) rfl rfl

theorem accounts_answerMeow (hs : a.Spare r) : Accounts r a a.answerMeow := by
  have hsub : (a.pings.filter fun p => p.disco) ⊆ a.pings := List.filter_sublist.subset
  have hdrop := accounts_dropPings hs hsub
  refine hdrop.trans (accounts_answers (fun b p hp => ?_) hdrop.spare)
  exact ⟨p.result, _, hs.pings p (List.mem_filter.1 hp).1, rfl⟩

theorem accounts_meowPacket (hs : a.Spare r) (key : Key) (data : Bytes) :
    Accounts r a (a.meowPacket π key data) := by
  unfold meowPacket
  split
  · split
    · refine .of_heard ?_ hs
      dsimp only
      split
      · exact (heard_advertise.trans (heard_relaySend _ _)).trans (heard_addPeer _ _)
      · exact heard_addPeer _ _
    · exact .refl hs
  · split
    · exact accounts_answerMeow hs
    · exact .refl hs

theorem accounts_incomingPacket (hs : a.Spare r) (key : Key) (data : Bytes)
    (source : Option SocketAddr) : Accounts r a (a.incomingPacket π key data source) := by
  unfold incomingPacket
  split_ifs
  · split
    · exact .refl hs
    · exact accounts_meowPacket hs key data
  · exact accounts_discoPacket hs key data source
  · exact .of_heard (heard_foldl (heard_tunnelWrite key) _ _) hs
  · exact .refl hs

theorem accounts_foldl {α : Type} {f : Actor → α → Actor}
    (hf : ∀ a x, a.Spare r → Accounts r a (f a x)) (l : List α) (hs : a.Spare r) :
    Accounts r a (l.foldl f a) := by
  induction l generalizing a with
  | nil => exact .refl hs
  | cons x l ih => exact (hf a x hs).trans (ih (hf a x hs).spare)

theorem accounts_udpPacket (hs : a.Spare r) (data : Bytes) (source : SocketAddr) :
    Accounts r a (a.udpPacket π data source) := by
  unfold udpPacket
  split_ifs
  · split
    · split <;> exact .of_heard rfl hs
    · exact .refl hs
  · split
    · exact accounts_incomingPacket hs _ data _
    · exact .refl hs
  · exact accounts_foldl (fun _ key h => accounts_incomingPacket h key data _) _ hs

/-! ### Commands -/

/-- The receiver of the answer to a command. -/
def Command.receiver : Command → Option ReplyId
  | .listen _ _ result | .dialUdp _ result | .sendUdp _ _ result | .status result
  | .dial _ result | .ping _ result | .drain result => some result
  | .allow _ => none

theorem accounts_listenCommand (hs : a.Spare r) (udp : Bool) (port : Port) {result : ReplyId}
    (hne : result ≠ r) : Accounts r a (a.listenCommand udp port result) := by
  unfold listenCommand
  dsimp only
  generalize (if port = 0 then ((portsFrom 49152).find? fun p =>
    (udp, p) ∉ a.purgeListeners.listeners).getD 0 else port) = port
  split
  · refine .heard_answer ?_ hs hne _
    rfl
  · refine .heard_answer ?_ hs hne _
    rfl

theorem accounts_dialUdpCommand (hs : a.Spare r) (target : SocketAddr) {result : ReplyId}
    (hne : result ≠ r) : Accounts r a (a.dialUdpCommand target result) := by
  unfold dialUdpCommand
  split
  · exact .answer hs hne _
  split
  · exact .answer hs hne _
  · rename_i port _
    have hnew := heard_newUdpFlow (a := a) (SocketAddr.new (.v6 a.localAddr) port, target)
    generalize a.newUdpFlow (SocketAddr.new (.v6 a.localAddr) port, target) = p at hnew ⊢
    obtain ⟨stream, b⟩ := p
    dsimp only at hnew ⊢
    split
    · exact .heard_answer (b := b.dropStream stream) hnew hs hne _
    · exact .heard_answer hnew hs hne _

theorem heard_sendPing (ping : PendingPing) :
    (a.sendPing π ping).2.heard = a.heard ∧ (a.sendPing π ping).1.result = ping.result := by
  unfold sendPing
  split
  · exact ⟨rfl, rfl⟩
  dsimp only
  split
  · split
    · unfold sealDisco
      split
      · rename_i b hb
        obtain ⟨-, rfl⟩ := Prod.mk.inj hb
        exact ⟨heard_sendPacket _ _, rfl⟩
      · rename_i b hb
        obtain ⟨-, rfl⟩ := Prod.mk.inj hb
        exact ⟨rfl, rfl⟩
    · exact ⟨rfl, rfl⟩
  · exact ⟨heard_relaySend _ _, rfl⟩

/-- A ping of another receiver is added. -/
theorem accounts_addPing (hs : a.Spare r) {ping : PendingPing} (hne : ping.result ≠ r) :
    Accounts r a { a with pings := a.pings ++ [ping] } := by
  refine .of_links ⟨fun p hp => ?_, hs.drains⟩ (fun _ h => h) rfl rfl
  rcases List.mem_append.1 hp with hp | hp
  · exact hs.pings p hp
  · exact List.mem_singleton.1 hp ▸ hne

theorem accounts_startPing (hs : a.Spare r) {ping : PendingPing} (hne : ping.result ≠ r) :
    Accounts r a (a.startPing π ping) := by
  obtain ⟨hheard, hresult⟩ := heard_sendPing (π := π) (a := a) ping
  have hsent := Accounts.of_heard hheard hs
  have hadded := hsent.trans (accounts_addPing hsent.spare (hresult ▸ hne))
  unfold startPing
  dsimp only
  split
  · exact hadded.trans (.of_heard heard_advertise hadded.spare)
  · exact hadded

theorem accounts_pingCommand (hs : a.Spare r) (disco : Bool) {result : ReplyId} (hne : result ≠ r) :
    Accounts r a (a.pingCommand π disco result) := by
  have hsub : (a.pings.filter fun p => !a.isClosed p.result) ⊆ a.pings := List.filter_sublist.subset
  have hdrop : Accounts r a a.dropClosedPings := accounts_dropPings hs hsub
  unfold pingCommand
  split
  · exact .refl hs
  split
  · exact hdrop.trans (.answer hdrop.spare hne _)
  · have hdraw : Accounts r a a.dropClosedPings.draw := hdrop.trans (.of_heard rfl hdrop.spare)
    exact hdraw.trans (accounts_startPing hdraw.spare hne)

theorem owed_openLink (socket : Socket) (flow : TcpFlow) (result : ReplyId) :
    (a.openLink socket flow (some result) none).owed r =
      a.owed r + if result = r then 1 else 0 := by
  simp only [owed, answersTo, waitsFor, openLink, List.countP_append, List.countP_singleton,
    Option.some.injEq, decide_eq_true_eq, Nat.add_assoc]

theorem accounts_dial (hs : a.Spare r) (target : SocketAddr) {result : ReplyId} (hne : result ≠ r) :
    Accounts r a (a.dial π target result) := by
  unfold dial
  split
  · exact .refl hs
  split
  · exact .answer hs hne _
  dsimp only
  have hport : Accounts r a a.advancePort := .of_heard rfl hs
  split
  · refine .heard_answer ?_ hs hne _
    rfl
  · rename_i socket _
    generalize a.advancePort = b at hport ⊢
    refine hport.trans (.trans ?_ (.of_heard heard_advertise
      ⟨hport.spare.pings, hport.spare.drains⟩))
    have howed := owed_openLink (a := b) (r := r) socket
      (⟨a.localAddr, a.nextPort⟩, ⟨nat64Addr target.ip, target.port⟩) result
    rw [if_neg hne, Nat.add_zero] at howed
    refine ⟨⟨hport.spare.pings, hport.spare.drains⟩, fun _ h => h, le_of_eq howed, fun _ => howed,
      fun link hlink hconnected => ?_⟩
    rcases List.mem_append.1 hlink with hlink | hlink
    · exact ⟨link, hlink, hconnected, rfl⟩
    · rw [List.mem_singleton.1 hlink] at hconnected
      exact absurd (Option.some.inj hconnected) hne

/-- A dial adds one, unless its receiver is gone. -/
theorem dial_owes (hs : a.Spare r) (target : SocketAddr) :
    (a.dial π target r).Spare r ∧ (a.dial π target r).closedReplies = a.closedReplies ∧
      (a.dial π target r).owed r = a.owed r + if r ∈ a.closedReplies then 0 else 1 := by
  have hanswered : ∀ (b : Actor) (x : Answer), (b.answer r x).owed r = b.owed r + 1 := by
    intro b x
    simp only [owed, answersTo, waitsFor, Actor.answer, act, List.countP_append,
      List.countP_singleton, Act.answers, decide_true, if_true]
    omega
  unfold dial
  by_cases hclosed : a.isClosed r = true
  · have hmem : r ∈ a.closedReplies := of_decide_eq_true hclosed
    rw [if_pos hclosed, if_pos hmem]
    exact ⟨hs, rfl, rfl⟩
  have hmem : r ∉ a.closedReplies := fun h => hclosed (decide_eq_true h)
  rw [if_neg hclosed, if_neg hmem]
  -- it is refused at once, or waits in a new link
  by_cases hfull : maxConnections ≤ a.links.length
  · rw [if_pos hfull]
    exact ⟨⟨hs.pings, hs.drains⟩, rfl, hanswered a _⟩
  rw [if_neg hfull]
  dsimp only
  split
  · exact ⟨⟨hs.pings, hs.drains⟩, rfl, hanswered a.advancePort _⟩
  · rename_i socket _
    have howed := owed_openLink (a := a.advancePort) (r := r) socket
      (⟨a.localAddr, a.nextPort⟩, ⟨nat64Addr target.ip, target.port⟩) r
    rw [if_pos rfl] at howed
    have hopened : (a.advancePort.openLink socket (⟨a.localAddr, a.nextPort⟩,
        ⟨nat64Addr target.ip, target.port⟩) (some r) none).Spare r := ⟨hs.pings, hs.drains⟩
    have hadvertised := Accounts.of_heard (heard_advertise (π := π)) hopened
    refine ⟨hadvertised.spare, congrArg Heard.closed heard_advertise, ?_⟩
    rw [hadvertised.eq (fun h => hmem ?_), howed]
    · rfl
    · rwa [show (Actor.advertise π _).closedReplies = _ from
        congrArg Heard.closed heard_advertise] at h

theorem accounts_command (hs : a.Spare r) {c : Command} (hc : c.receiver ≠ some r) :
    Accounts r a (a.command π c) := by
  cases c with
  | listen udp port result => exact accounts_listenCommand hs udp port fun h => hc (h ▸ rfl)
  | dialUdp target result => exact accounts_dialUdpCommand hs target fun h => hc (h ▸ rfl)
  | sendUdp stream bytes result =>
    unfold command
    dsimp only
    split
    · rename_i st _
      have hheard : (a.udpOutput π st.flow bytes stream).heard = a.heard := by
        rw [udpOutput_eq]
        rfl
      exact .heard_answer hheard hs (fun h => hc (h ▸ rfl)) _
    · exact .refl hs
  | status result => exact .answer hs (fun h => hc (h ▸ rfl)) _
  | dial target result => exact accounts_dial hs target fun h => hc (h ▸ rfl)
  | ping disco result => exact accounts_pingCommand hs disco fun h => hc (h ▸ rfl)
  | drain result =>
    refine .of_links ⟨hs.pings, fun h => ?_⟩ (fun _ h => h) rfl rfl
    rcases List.mem_append.1 h with h | h
    · exact hs.drains h
    · exact hc (congrArg some (List.mem_singleton.1 h).symm)
  | allow key =>
    unfold command
    dsimp only
    split
    · split <;> exact .of_heard rfl hs
    · exact .refl hs

/-! ### One round -/

end Actor

namespace Conn

variable {r : ReplyId} {c : Conn} {w : Surroundings}

/-- The answers a round has given a receiver, and whether the link keeps it. -/
def owed (c : Conn) (r : ReplyId) : ℕ :=
  c.acts.countP (Act.answers r) + if c.link.connected = some r then 1 else 0

/-- A part of a round that has nothing to do with receivers. -/
structure Silent (c c' : Conn) : Prop where
  connected : c'.link.connected = c.link.connected
  app : c'.link.app = c.link.app
  started : c'.link.started = c.link.started
  acts : c'.acts = c.acts

theorem Silent.owed {c' : Conn} (h : Silent c c') : c'.owed r = c.owed r := by
  rw [Conn.owed, Conn.owed, h.connected, h.acts]

theorem Silent.trans {c' c'' : Conn} (h : Silent c c') (h' : Silent c' c'') : Silent c c'' :=
  ⟨h'.connected.trans h.connected, h'.app.trans h.app, h'.started.trans h.started,
    h'.acts.trans h.acts⟩

theorem silent_giveUp (c : Conn) : Silent c (c.giveUp w) := by
  unfold giveUp
  dsimp only
  split_ifs <;> exact ⟨rfl, rfl, rfl, rfl⟩

theorem silent_upload (c : Conn) : Silent c (c.upload w) := by
  unfold upload
  split_ifs
  · dsimp only
    split <;> exact ⟨rfl, rfl, rfl, rfl⟩
  · exact ⟨rfl, rfl, rfl, rfl⟩

theorem silent_download (c : Conn) : Silent c (c.download w) := by
  unfold download
  split_ifs
  · dsimp only
    split <;> exact ⟨rfl, rfl, rfl, rfl⟩
  · exact ⟨rfl, rfl, rfl, rfl⟩

theorem silent_finish (c : Conn) : Silent c c.finish := by
  unfold finish
  split_ifs <;> exact ⟨rfl, rfl, rfl, rfl⟩

/-- Handing a connection over answers the dial that waits, unless its receiver is gone. -/
theorem owed_handOver (c : Conn) : (c.handOver w).owed r ≤ c.owed r ∧
    (r ∉ w.closedReplies → (c.handOver w).owed r = c.owed r) := by
  unfold handOver
  by_cases hready : (c.socket.state = .established ∨ c.socket.state = .closeWait) ∧ c.link.app
  · rw [if_pos hready]
    dsimp only
    cases hconnected : c.link.connected with
    | some result =>
      dsimp only
      by_cases hclosed : result ∈ w.closedReplies
      · rw [if_pos hclosed]
        simp only [owed, hconnected, Option.some.injEq, reduceCtorEq, if_false, Nat.add_zero]
        refine ⟨Nat.le_add_right _ _, fun hopen => ?_⟩
        have hne : result ≠ r := fun h => hopen (h ▸ hclosed)
        rw [if_neg hne, Nat.add_zero]
      · rw [if_neg hclosed]
        refine ⟨le_of_eq ?_, fun _ => ?_⟩ <;>
        simp only [owed, hconnected, Option.some.injEq, reduceCtorEq, if_false, Nat.add_zero,
          List.countP_append, List.countP_singleton, Act.answers, decide_eq_true_eq]
    | none =>
      -- no dial waits, so none is answered
      have hsame : ∀ (c' : Conn), c'.link.connected = none →
          c'.acts.countP (Act.answers r) = c.acts.countP (Act.answers r) →
          c'.owed r = c.owed r := by
        intro c' hconnected' hacts
        rw [owed, owed, hconnected', hconnected, hacts]
      cases c.link.handler with
      | some handler =>
        dsimp only
        refine ⟨le_of_eq (hsame _ rfl ?_), fun _ => hsame _ rfl ?_⟩ <;>
        · rw [List.countP_append]
          rfl
      | none => exact ⟨le_of_eq (hsame _ rfl rfl), fun _ => hsame _ rfl rfl⟩
  · rw [if_neg hready]
    exact ⟨le_refl _, fun _ => rfl⟩

/-- Refusing a connection answers the dial that waits. -/
theorem owed_refuse (c : Conn) : c.refuse.owed r = c.owed r := by
  unfold refuse
  split
  · rename_i result hconnected
    split
    · simp only [owed, hconnected, Option.some.injEq, reduceCtorEq, if_false, Nat.add_zero,
        List.countP_append, List.countP_singleton, Act.answers, decide_eq_true_eq]
    · rfl
  · rfl

theorem owed_poll (c : Conn) : (c.poll w).owed r ≤ c.owed r ∧
    (r ∉ w.closedReplies → (c.poll w).owed r = c.owed r) := by
  have hsilent := (((silent_giveUp (w := w) (c.handOver w)).trans
    (silent_upload (w := w) _)).trans (silent_download (w := w) _)).trans (silent_finish _)
  rw [poll, owed_refuse, hsilent.owed]
  exact owed_handOver c

/-- After a round a link whose connection is over keeps no receiver. -/
theorem connected_of_isOver (hover : (c.poll w).isOver = true) :
    (c.poll w).link.connected = none := by
  unfold poll at hover ⊢
  generalize ((((c.handOver w).giveUp w).upload w).download w).finish = d at hover ⊢
  unfold refuse at hover ⊢
  cases hconnected : d.link.connected with
  | none =>
    dsimp only
    exact hconnected
  | some result =>
    simp only [hconnected] at hover ⊢
    by_cases hd : d.isOver = true
    · rw [if_pos hd]
    · rw [if_neg hd] at hover
      exact absurd hover hd

/-- A connection that is handed over keeps no dial. -/
theorem connected_handOver
    (hready : (c.socket.state = .established ∨ c.socket.state = .closeWait) ∧ c.link.app) :
    (c.handOver w).link.connected = none := by
  unfold handOver
  rw [if_pos hready]
  dsimp only
  cases hconnected : c.link.connected with
  | none => cases c.link.handler <;> rfl
  | some result =>
    dsimp only
    split <;> rfl

/-- A dial whose connection is open is answered. -/
theorem connects
    (hready : (c.socket.state = .established ∨ c.socket.state = .closeWait) ∧ c.link.app)
    (hwaits : c.link.connected = some r) (hopen : r ∉ w.closedReplies) :
    .answer r (.connected c.link.pipe) ∈ (c.poll w).acts := by
  have hsilent := (((silent_giveUp (w := w) (c.handOver w)).trans
    (silent_upload (w := w) _)).trans (silent_download (w := w) _)).trans (silent_finish _)
  have hanswer : .answer r (.connected c.link.pipe) ∈ (c.handOver w).acts := by
    unfold handOver
    rw [if_pos hready]
    dsimp only
    rw [hwaits]
    dsimp only
    rw [if_neg hopen]
    exact List.mem_append_right _ List.mem_cons_self
  rw [← hsilent.acts] at hanswer
  unfold poll refuse
  split
  · split_ifs
    · exact List.mem_append_left _ hanswer
    · exact hanswer
  · exact hanswer

/-- A dial that still waits after a round waited before it. -/
theorem waits_poll (hwaits : (c.poll w).link.connected = some r) : c.link.connected = some r ∧
    c.link.app = (c.poll w).link.app ∧ c.link.started = (c.poll w).link.started := by
  have hsilent := (((silent_giveUp (w := w) (c.handOver w)).trans
    (silent_upload (w := w) _)).trans (silent_download (w := w) _)).trans (silent_finish _)
  unfold poll at hwaits ⊢
  generalize ((((c.handOver w).giveUp w).upload w).download w).finish = d at hwaits hsilent ⊢
  have hrefuse : d.refuse = d := by
    unfold refuse at hwaits ⊢
    split
    · rename_i result hconnected
      by_cases hover : d.isOver = true
      · rw [hconnected] at hwaits
        dsimp only at hwaits
        rw [if_pos hover] at hwaits
        cases hwaits
      · rw [if_neg hover]
    · rfl
  rw [hrefuse] at hwaits ⊢
  have hkept := hsilent.connected.symm.trans hwaits
  -- handing over would have taken the dial
  have hwaiting : c.handOver w = c := by
    by_cases hready : (c.socket.state = .established ∨ c.socket.state = .closeWait) ∧ c.link.app
    · cases (connected_handOver hready).symm.trans hkept
    · exact if_neg hready
  rw [hwaiting] at hsilent hkept
  exact ⟨hkept, hsilent.app.symm, hsilent.started.symm⟩

/-- A dial that still waits when its connection is over is refused. -/
theorem refused (hwaits : (c.handOver w).link.connected = some r)
    (hover : (c.poll w).isOver = true) :
    .answer r (.failed "TCP connection refused or closed") ∈ (c.poll w).acts := by
  have hsilent := (((silent_giveUp (w := w) (c.handOver w)).trans
    (silent_upload (w := w) _)).trans (silent_download (w := w) _)).trans (silent_finish _)
  have hconnected := hsilent.connected.trans hwaits
  unfold poll at hover ⊢
  generalize ((((c.handOver w).giveUp w).upload w).download w).finish = d at hover hconnected ⊢
  unfold refuse at hover ⊢
  simp only [hconnected] at hover ⊢
  by_cases hd : d.isOver = true
  · rw [if_pos hd]
    exact List.mem_append_right _ List.mem_cons_self
  · rw [if_neg hd] at hover
    exact absurd hover hd

/-- No dial waits any longer after twenty seconds, unless its connection went through being open and
left bytes behind between two rounds. -/
theorem answered_in_time (happ : c.link.app = true)
    (htime : connectTimeout < w.now - c.link.started)
    (hread : c.socket.state = .established ∨ c.socket.state = .closeWait ∨
      c.socket.rx.pending = []) : (c.poll w).link.connected = none := by
  have hkept := ((silent_upload (w := w) ((c.handOver w).giveUp w)).trans
    (silent_download (w := w) _)).trans (silent_finish _)
  have hrefuse : ∀ d : Conn, d.link.connected = none ∨ d.isOver = true →
      d.refuse.link.connected = none := by
    intro d hd
    unfold refuse
    cases hconnected : d.link.connected with
    | none => exact hconnected
    | some result =>
      rcases hd with hd | hd
      · rw [hconnected] at hd
        cases hd
      · dsimp only
        rw [if_pos hd]
  unfold poll
  refine hrefuse _ ?_
  by_cases hready : c.socket.state = .established ∨ c.socket.state = .closeWait
  · -- it is handed over, and nothing after that makes it wait again
    exact .inl (hkept.connected.trans ((silent_giveUp _).connected.trans
      (connected_handOver ⟨hready, happ⟩)))
  · have hpending : c.socket.rx.pending = [] := by
      rcases hread with h | h | h
      · exact absurd (.inl h) hready
      · exact absurd (.inr h) hready
      · exact h
    have hwaits : c.handOver w = c := if_neg fun h => hready h.1
    -- it is aborted, and the rest of the round leaves it alone
    have haborted : c.giveUp w = { c with socket := c.socket.abort } := by
      unfold giveUp
      dsimp only
      split_ifs with h1 h2 h3
      · rfl
      · exact absurd ⟨happ, htime⟩ h2
      · rfl
      · exact absurd ⟨happ, htime⟩ h3
    right
    rw [hwaits, haborted]
    have hupload : ({ c with socket := c.socket.abort } : Conn).upload w =
        { c with socket := c.socket.abort } :=
      if_neg fun h => by
        have happ' := h.2.2.1
        rw [happ] at happ'
        cases happ'
    have hdownload : ({ c with socket := c.socket.abort } : Conn).download w =
        { c with socket := c.socket.abort } :=
      if_neg fun h => by
        have happ' := h.2.1
        rw [happ] at happ'
        cases happ'
    have hfinish : ({ c with socket := c.socket.abort } : Conn).finish =
        { c with socket := c.socket.abort } :=
      if_neg fun h => by
        have happ' := h.2.2
        rw [happ] at happ'
        cases happ'
    rw [hupload, hdownload, hfinish, isOver, Socket.canRecv]
    show (decide (State.closed = State.closed) &&
      (!(c.socket.abort.mayRecv && decide (c.socket.rx.pending ≠ [])) || _)) = true
    rw [hpending]
    simp

end Conn

namespace Actor

variable {π : Platform} {r : ReplyId} {a b : Actor}

/-! ### Ticks -/

theorem waitsFor_set {index : ℕ} {link : Link} (link' : Link) (h : a.links[index]? = some link) :
    (a.links.set index link').countP (fun l => l.connected = some r) +
        (if link.connected = some r then 1 else 0) =
      a.waitsFor r + if link'.connected = some r then 1 else 0 := by
  obtain ⟨hlt, rfl⟩ := List.getElem?_eq_some_iff.1 h
  rw [List.countP_set hlt, waitsFor]
  have hpos : a.links[index].connected = some r →
      0 < a.links.countP fun l => l.connected = some r := fun hc =>
    List.countP_pos_iff.2 ⟨_, List.getElem_mem hlt, decide_eq_true hc⟩
  simp only [decide_eq_true_eq]
  split_ifs with h1 h2 h2
  · have := hpos h1
    omega
  · have := hpos h1
    omega
  · omega
  · omega

theorem accounts_pollLink (hs : a.Spare r) (index : ℕ) : Accounts r a (a.pollLink π index).2 := by
  unfold pollLink
  cases hc : a.connAt index with
  | none => exact .refl hs
  | some c =>
    obtain ⟨hlink, -, -, hacts⟩ := connAt_eq_some.1 hc
    obtain ⟨hle, heq⟩ := Conn.owed_poll (r := r) (w := a.surroundings π) c
    have hwaits := waitsFor_set (r := r) (c.poll (a.surroundings π)).link hlink
    have howed : (a.putConn index (c.poll (a.surroundings π))).owed r =
        a.answersTo r + (c.poll (a.surroundings π)).acts.countP (Act.answers r) +
          (a.links.set index (c.poll (a.surroundings π)).link).countP
            (fun l => l.connected = some r) := by
      rw [owed, answersTo, answersTo, waitsFor, putConn, List.countP_append]
    have hbefore : c.owed r = if c.link.connected = some r then 1 else 0 := by
      rw [Conn.owed, hacts, List.countP_nil, Nat.zero_add]
    have hafter : (c.poll (a.surroundings π)).owed r =
        (c.poll (a.surroundings π)).acts.countP (Act.answers r) +
          if (c.poll (a.surroundings π)).link.connected = some r then 1 else 0 := rfl
    refine ⟨⟨hs.pings, hs.drains⟩, fun _ h => h, ?_, fun hopen => ?_, fun link hlink' hr => ?_⟩
    · rw [howed, owed]
      omega
    · have := heq hopen
      rw [howed, owed]
      omega
    · rcases List.mem_or_eq_of_mem_set hlink' with hold | rfl
      · exact ⟨link, hold, hr, rfl⟩
      · obtain ⟨hbefore, -, hstarted⟩ := Conn.waits_poll hr
        exact ⟨c.link, List.mem_of_getElem? hlink, hbefore, hstarted⟩

theorem accounts_removeLink (hs : a.Spare r) {index : ℕ} {c : Conn} (hc : a.connAt index = some c)
    (hconnected : c.link.connected = none) : Accounts r a (a.removeLink index) := by
  have hlink := (connAt_eq_some.1 hc).1
  obtain ⟨hlt, hget⟩ := List.getElem?_eq_some_iff.1 hlink
  have howed : (a.removeLink index).owed r = a.owed r := by
    rw [removeLink_of_connAt hc]
    simp only [owed, answersTo, waitsFor, List.countP_append, List.countP_singleton, Act.answers,
      Bool.false_eq_true, if_false, Nat.add_zero]
    rw [(swapRemove_perm hlt).countP_eq, ← (List.getElem_cons_eraseIdx_perm hlt).countP_eq,
      List.countP_cons, hget, hconnected]
    rfl
  have hsame : (a.removeLink index).Spare r ∧
      (a.removeLink index).closedReplies = a.closedReplies ∧
        (a.removeLink index).links ⊆ a.links := by
    rw [removeLink_of_connAt hc]
    refine ⟨⟨hs.pings, hs.drains⟩, rfl, fun link hmem => ?_⟩
    exact List.mem_of_mem_eraseIdx ((swapRemove_perm hlt).mem_iff.1 hmem)
  exact ⟨hsame.1, fun x hx => hsame.2.1 ▸ hx, le_of_eq howed, fun _ => howed, .of_subset hsame.2.2⟩

theorem accounts_removals (hs : a.Spare r) (h : a.Wired) {remove : List ℕ}
    (hsorted : remove.Pairwise (· > ·))
    (hnone : ∀ i ∈ remove, ∃ c, a.connAt i = some c ∧ c.link.connected = none) :
    Accounts r a (remove.foldl removeLink a) := by
  induction remove generalizing a with
  | nil => exact .refl hs
  | cons index rest ih =>
    obtain ⟨hfirst, hrest⟩ := List.pairwise_cons.1 hsorted
    obtain ⟨c, hc, hconnected⟩ := hnone index List.mem_cons_self
    have hkept := accounts_removeLink hs hc hconnected
    refine hkept.trans (ih hkept.spare (h.removeLink hc) hrest fun i hi => ?_)
    rw [connAt_removeLink_lt h hc (hfirst i hi)]
    exact hnone i (List.mem_cons_of_mem _ hi)

theorem accounts_rounds (l : List ℕ) (p : List ℕ × Actor) (hp : Accounts r a p.2) :
    Accounts r a (l.foldl (fun (remove, a) index =>
      let (ended, a) := a.pollLink π index
      (if ended then remove ++ [index] else remove, a)) p).2 := by
  induction l generalizing p with
  | nil => exact hp
  | cons index l ih => exact ih _ (hp.trans (accounts_pollLink hp.spare index))

theorem accounts_pollLinks (hs : a.Spare r) (h : a.Wired) : Accounts r a (a.pollLinks π) := by
  have hkept := accounts_rounds (π := π) (List.range a.links.length) ([], a) (.refl hs)
  have hp := polled (π := π) h (Nat.le_refl a.links.length)
  unfold pollLinks pollRounds
  generalize (List.range a.links.length).foldl _ ([], a) = p at hp hkept ⊢
  obtain ⟨remove, b⟩ := p
  obtain ⟨-, hwired, -, -, hat, hremove, -⟩ := hp
  dsimp only at hwired hat hremove hkept ⊢
  refine hkept.trans (accounts_removals hkept.spare hwired (hremove ▸ sorted_ends a _) ?_)
  intro i hi
  rw [List.mem_reverse, hremove] at hi
  obtain ⟨hlt, hends⟩ := List.mem_filter.1 hi
  obtain ⟨c, hc⟩ := h.connAt_isSome (List.mem_range.1 hlt)
  rw [endsAt, hc, Option.any_some] at hends
  refine ⟨_, by rw [hat, if_pos (List.mem_range.1 hlt), hc]; rfl, ?_⟩
  exact Conn.connected_of_isOver hends

theorem heard_ifacePoll (actions : List PollAction) :
    (a.ifacePoll π actions).heard = a.heard :=
  heard_foldl (fun b action => by rw [pollAction_eq]; rfl) actions a

theorem heard_egress (packet : Bytes) : (a.egress π packet).heard = a.heard := by
  unfold egress
  split
  · rfl
  split
  · rfl
  · dsimp only
    split
    · exact (heard_sendPacket _ _).trans (heard_act rfl)
    · exact heard_act rfl

theorem heard_drainOutgoing : (a.drainOutgoing π).heard = a.heard :=
  heard_foldl (fun _ packet => heard_egress packet) _ _

theorem heard_tunnelTimer (a : Actor) (key : Key) : (a.tunnelTimer π key).heard = a.heard := by
  unfold tunnelTimer
  split
  · exact heard_sendPacket _ _
  · rfl

theorem accounts_pingTimer (hs : a.Spare r) {p : PendingPing} (hne : p.result ≠ r) :
    Accounts r a (a.pingTimer π p) := by
  unfold pingTimer
  split
  · exact .refl hs
  split
  · exact .answer hs hne _
  dsimp only
  split
  · obtain ⟨hheard, hresult⟩ := heard_sendPing (π := π) (a := a) p
    have hsent := Accounts.of_heard hheard hs
    exact hsent.trans (accounts_addPing hsent.spare (hresult ▸ hne))
  · exact accounts_addPing hs hne

theorem accounts_pingTimers (hs : a.Spare r) {pending : List PendingPing}
    (hne : ∀ p ∈ pending, p.result ≠ r) : Accounts r a (pending.foldl (pingTimer π) a) := by
  induction pending generalizing a with
  | nil => exact .refl hs
  | cons p pending ih =>
    have hp := accounts_pingTimer (π := π) hs (hne p List.mem_cons_self)
    exact hp.trans (ih hp.spare fun q hq => hne q (List.mem_cons_of_mem p hq))

theorem accounts_timers (hs : a.Spare r) : Accounts r a (a.timers π) := by
  unfold timers
  split
  · dsimp only
    have htunnels : Accounts r a
        (({ a with lastTimers := a.now } : Actor).peers.keys.foldl (tunnelTimer π)
          { a with lastTimers := a.now }) :=
      .of_heard (heard_foldl heard_tunnelTimer _ _) hs
    generalize (List.foldl (tunnelTimer π) _ _ : Actor) = b at htunnels ⊢
    have htaken := htunnels.trans (accounts_dropPings htunnels.spare (List.nil_subset _))
    have hpings := htaken.trans (accounts_pingTimers (π := π) htaken.spare htunnels.spare.pings)
    exact hpings.trans (.of_heard rfl hpings.spare)
  · exact .refl hs

theorem accounts_advertiseTimer (hs : a.Spare r) : Accounts r a (a.advertiseTimer π) := by
  unfold advertiseTimer
  split
  · exact .of_heard heard_advertise hs
  · exact .refl hs

theorem accounts_drainTimer (hs : a.Spare r) : Accounts r a a.drainTimer := by
  unfold drainTimer
  split
  · have hdrained : Accounts r a { a with drains := [] } :=
      .of_links ⟨hs.pings, List.not_mem_nil⟩ (fun _ h => h) rfl rfl
    exact hdrained.trans (accounts_answers (fun b result hresult =>
      ⟨result, .drained, fun h => hs.drains (h ▸ hresult), rfl⟩) hdrained.spare)
  · exact .refl hs

theorem accounts_beforePass (hs : a.Spare r) (first : List PollAction) :
    Accounts r a (a.beforePass π first) := by
  have hexpired : a.expireUdp.heard = a.heard := by
    rw [expireUdp_eq]
    rfl
  exact .of_heard ((heard_ifacePoll first).trans hexpired) hs

/-- What a tick does after the pass over the links. -/
theorem accounts_afterPass (hs : a.Spare r) (second : List PollAction) : Accounts r a
    ((((a.ifacePoll π second).drainOutgoing π).timers π).advertiseTimer π).drainTimer := by
  have hsent : Accounts r a ((a.ifacePoll π second).drainOutgoing π) :=
    .of_heard (heard_drainOutgoing.trans (heard_ifacePoll second)) hs
  have htimers := hsent.trans (accounts_timers (π := π) hsent.spare)
  have hadvertised := htimers.trans (accounts_advertiseTimer (π := π) htimers.spare)
  exact hadvertised.trans (accounts_drainTimer hadvertised.spare)

theorem accounts_tick (hs : a.Spare r) (h : a.Wired) (first second : List PollAction) :
    Accounts r a (a.tick π first second) := by
  have hbefore := accounts_beforePass (π := π) hs first
  have hwired := (beforePass_changes (π := π) (s := a) a first second).wired h
  have hpass := hbefore.trans (accounts_pollLinks (π := π) hbefore.spare hwired)
  exact hpass.trans (accounts_afterPass hpass.spare second)

/-! ### Events -/

/-- The receiver of the answer to an event's command. -/
def Event.receiver : Event → Option ReplyId
  | .command c => c.receiver
  | _ => none

/-- No event changes the count, but a command with this receiver. -/
theorem step_accounts (hs : a.Spare r) (h : a.Wired) {e : Event} (he : e.receiver ≠ some r) :
    Accounts r a (step π a e) := by
  cases e with
  | elapse d => exact .of_heard rfl hs
  | command c => exact accounts_command hs he
  | relayed key data => exact accounts_incomingPacket hs key data none
  | datagram source data => exact accounts_udpPacket hs data source
  | tick first second => exact accounts_tick hs h first second
  | app pipe op =>
    simp only [step]
    split <;> exact .of_heard rfl hs
  | recv stream => exact .of_heard rfl hs
  | dropStream stream => exact .of_heard rfl hs
  | dropListener id => exact .of_heard rfl hs
  | dropReply result =>
    exact .of_links ⟨hs.pings, hs.drains⟩ (List.subset_cons_self _ _) rfl rfl
  | reorder peers =>
    simp only [step]
    split <;> exact .of_heard rfl hs

theorem run_accounts {es : List Event} (hs : a.Spare r) (h : a.Wired)
    (hes : ∀ e ∈ es, e.receiver ≠ some r) : Accounts r a (run π a es) := by
  induction es generalizing a with
  | nil => exact .refl hs
  | cons e es ih =>
    have hstep := step_accounts (π := π) hs h (hes e List.mem_cons_self)
    exact hstep.trans (ih hstep.spare (step_wired h e) fun e' he' =>
      hes e' (List.mem_cons_of_mem e he'))

theorem init_spare (setup : Setup) : (init setup).Spare r ∧ (init setup).owed r = 0 := by
  have hempty : ∀ b : Actor, b.heard = ⟨[], [], [], [], []⟩ → b.Spare r ∧ b.owed r = 0 := by
    intro b hb
    have hpings : b.pings = [] := congrArg Heard.pings hb
    have hdrains : b.drains = [] := congrArg Heard.drains hb
    refine ⟨⟨?_, ?_⟩, ?_⟩
    · rw [hpings]
      exact fun p hp => by cases hp
    · rw [hdrains]
      exact List.not_mem_nil
    · rw [owed, answersTo_eq, waitsFor_eq, hb]
      rfl
  refine hempty _ ?_
  unfold init
  dsimp only
  split
  · exact heard_addPeer _ _
  · rfl

/-- A receiver that came with a dial, and with no other command, got one answer or is kept by one
link, unless it is gone. -/
theorem run_dial (setup : Setup) {before after : List Event} (target : SocketAddr)
    (hbefore : ∀ e ∈ before, e.receiver ≠ some r) (hafter : ∀ e ∈ after, e.receiver ≠ some r) :
    (run π (init setup) (before ++ .command (.dial target r) :: after)).owed r ≤ 1 ∧
      (r ∉ (run π (init setup) (before ++ .command (.dial target r) :: after)).closedReplies →
        (run π (init setup) (before ++ .command (.dial target r) :: after)).owed r = 1) := by
  obtain ⟨hspare, hzero⟩ := init_spare (r := r) setup
  have hfirst := run_accounts (π := π) hspare (init_wired setup) hbefore
  have hwired : (run π (init setup) before).Wired := run_wired setup before
  rw [run, Transition.run_append, Transition.run_cons]
  change (run π (step π (run π (init setup) before) _) after).owed r ≤ 1 ∧
    (r ∉ (run π (step π (run π (init setup) before) _) after).closedReplies →
      (run π (step π (run π (init setup) before) _) after).owed r = 1)
  have hnone : (run π (init setup) before).owed r = 0 := Nat.le_zero.1 (hzero ▸ hfirst.le)
  generalize run π (init setup) before = b at hfirst hwired hnone ⊢
  obtain ⟨hspare', hclosed, howed⟩ := dial_owes (π := π) hfirst.spare target
  have hdialled := step_wired (π := π) hwired (.command (.dial target r))
  have hlast := run_accounts (π := π) (a := step π b (.command (.dial target r))) hspare' hdialled
    hafter
  rw [hnone, Nat.zero_add] at howed
  have hstep : (step π b (.command (.dial target r))).owed r =
      if r ∈ b.closedReplies then 0 else 1 := howed
  refine ⟨hlast.le.trans (hstep ▸ ?_), fun hopen => ?_⟩
  · split <;> omega
  · rw [hlast.eq hopen, hstep, if_neg]
    exact fun h => hopen (hlast.closed (hclosed.symm ▸ h))

end Actor

end Tailcat.Runtime
