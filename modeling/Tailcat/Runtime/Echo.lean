import Tailcat.Runtime.Dials
import Tailcat.Runtime.Sample
import Tailcat.Runtime.Udp

/-!
# Echoes

A datagram flow to an address beyond the server lives under the `SocketAddr` that was dialled.  The
packets of the flow carry its address and port only, and the key of an answer is made of those.

* `datagramPacket_wellFormed` (in `Tailcat.Runtime.Udp`) : what is sent is well formed.
* `streams_udpInput` : an answer reaches the stream whose key is made of its ends.
* `getElem?_udpInput_of_ne` : no other stream is touched.
* `echoes_iff` : answers reach the stream exactly if the address that was dialled has neither a flow
  label nor a scope identifier.

The parser and the checksum of the network stack are taken at their standard
(`Platform.StandardUdp`), as an answer is built by the other end and read back here.  `Echoes` is
about any later state in which the flow is still open: the answer to what was sent then reaches the
stream, and no other one.
-/

namespace Tailcat.Runtime.Actor

open Net

/-- The stream is open and its queue has room. -/
def Takes (a : Actor) (id : StreamId) : Prop :=
  ∃ st, a.streams[id]? = some st ∧ st.cancelled = false ∧ st.dropped = false ∧
    st.queue.length < streamQueue

/-- From here on, whatever happens, the stream `id` of a flow to `target` sends `bytes` in a well
formed packet, and gets them back if the peer answers with them. -/
structure Echoes (π : Platform) (a : Actor) (target : SocketAddr) (id : StreamId)
    (flow : UdpFlowKey) (bytes : Bytes) : Prop where
  sends : ∀ es, (run π a es).Takes id → ((run π a es).udpOutput π flow bytes id).outgoing =
    (run π a es).outgoing ++ [datagramPacket π flow bytes]
  wellFormed : WellFormedDatagram (datagramPacket π flow bytes) (tunnelEnd flow.1)
    (tunnelEnd target) bytes
  answered : ∀ es packet ip, (run π a es).Takes id →
    WellFormedDatagram packet (tunnelEnd target) (tunnelEnd flow.1) bytes →
    Ipv6Packet.newChecked packet = some ip →
    ((run π a es).udpInput π ip).streams =
      (run π a es).streams.modify id fun st => { st with queue := st.queue ++ [bytes] }

variable {π : Platform} {a : Actor} {target : SocketAddr} {ip : Ipv6Packet} {repr : UdpRepr}

/-! ### Answers -/

/-- The key of the flow of a datagram. -/
def udpKey (ip : Ipv6Packet) (repr : UdpRepr) : UdpFlowKey :=
  (.new (.v6 ip.dstAddr) repr.dstPort, .new (.v6 ip.srcAddr) repr.srcPort)

theorem udpInput_of_parse (h : π.parseUdp ip.srcAddr ip.dstAddr ip.payload = some repr)
    (hsrc : repr.srcPort ≠ 0) (hdst : repr.dstPort ≠ 0) :
    a.udpInput π ip =
      (if udpKey ip repr ∈ (a.removeCancelled (udpKey ip repr)).udpFlows then
          a.removeCancelled (udpKey ip repr)
        else (a.removeCancelled (udpKey ip repr)).openUdpFlow π ip.dstAddr (udpKey ip repr)).deliver
          (udpKey ip repr) repr.payload := by
  unfold udpInput
  rw [h]
  dsimp only
  rw [if_neg (not_or.2 ⟨hsrc, hdst⟩)]
  rfl

/-- An answer reaches the stream that owns its key. -/
theorem streams_udpInput (hI : a.FlowsOwned) {id : StreamId} {st : Stream}
    (hst : a.streams[id]? = some st) (hopen : st.cancelled = false) (hdropped : st.dropped = false)
    (hroom : st.queue.length < streamQueue)
    (h : π.parseUdp ip.srcAddr ip.dstAddr ip.payload = some repr) (hsrc : repr.srcPort ≠ 0)
    (hdst : repr.dstPort ≠ 0) (hkey : udpKey ip repr = st.flow) :
    (a.udpInput π ip).streams =
      a.streams.modify id fun st => { st with queue := st.queue ++ [repr.payload] } := by
  obtain ⟨st', touched, hst', hlookup⟩ := hI.owner id st hst hopen
  obtain rfl := Option.some.inj (hst.symm.trans hst')
  have hlive : a.isCancelled id = false := by
    rw [isCancelled, hst]
    exact hopen
  have hkept : a.removeCancelled st.flow = a := by
    rw [removeCancelled, hlookup]
    dsimp only
    rw [hlive, if_neg (by decide)]
  have hmem : st.flow ∈ a.udpFlows := AList.lookup_isSome.1 (by rw [hlookup]; rfl)
  rw [udpInput_of_parse h hsrc hdst, hkey, hkept, if_pos hmem, deliver, hlookup]
  dsimp only
  rw [hst]
  dsimp only
  rw [if_pos ⟨hroom, by rw [hdropped]; rfl⟩]
  rfl

/-- A flow that is opened has a stream of its own. -/
theorem streams_openUdpFlow (dst : Ipv6Addr) {flow : UdpFlowKey} (h : flow ∉ a.udpFlows) :
    ∃ new, (a.openUdpFlow π dst flow).streams = a.streams ++ new := by
  have hhandler : ∀ config, (a.udpHandler config dst flow).2.streams = a.streams ∧
      (a.udpHandler config dst flow).2.udpFlows = a.udpFlows := by
    intro config
    unfold udpHandler
    split_ifs <;> split <;> exact ⟨rfl, rfl⟩
  have hsame : ∃ new, a.streams = a.streams ++ new := ⟨[], (List.append_nil _).symm⟩
  unfold openUdpFlow
  split
  · exact hsame
  · rename_i config _
    by_cases hsize : maxConnections ≤ a.udpFlows.size
    · rw [if_pos hsize]
      exact hsame
    rw [if_neg hsize]
    dsimp only
    by_cases hfiltered : (a.liveListener true dst flow.1.port).isNone ∧ dst = a.localAddr ∧
        !config.servedUdpPorts.admits flow.1.port
    · rw [if_pos hfiltered]
      exact hsame
    rw [if_neg hfiltered]
    obtain ⟨hstreams, hflows⟩ := hhandler config
    generalize a.udpHandler config dst flow = p at hstreams hflows ⊢
    obtain ⟨handler, b⟩ := p
    dsimp only at hstreams hflows ⊢
    rw [← hflows] at h
    rw [← hstreams] at hsame ⊢
    split
    · exact hsame
    · split_ifs
      · exact ⟨_, (opens_newUdpFlow h).streams⟩
      · exact ⟨_, (opens_lostUdpFlow h).streams⟩
    · exact ⟨_, (opens_newUdpFlow h).streams⟩

/-- A stream of another key is not touched. -/
theorem getElem?_udpInput_of_ne (hI : a.FlowsOwned) {id : StreamId} {st : Stream}
    (hst : a.streams[id]? = some st)
    (h : π.parseUdp ip.srcAddr ip.dstAddr ip.payload = some repr) (hsrc : repr.srcPort ≠ 0)
    (hdst : repr.dstPort ≠ 0) (hkey : udpKey ip repr ≠ st.flow) :
    (a.udpInput π ip).streams[id]? = some st := by
  rw [udpInput_of_parse h hsrc hdst]
  generalize udpKey ip repr = key at hkey ⊢
  have hremoved : (a.removeCancelled key).streams[id]? = some st := by
    rw [removeCancelled_eq]
    exact hst
  have hI' := (keeps_removeCancelled (e := .elapse 0) a key).flowsOwned hI
  generalize a.removeCancelled key = b at hremoved hI' ⊢
  have hopened : (if key ∈ b.udpFlows then b else
      b.openUdpFlow π ip.dstAddr key).streams[id]? = some st := by
    split_ifs with hmem
    · exact hremoved
    · obtain ⟨new, hnew⟩ := streams_openUdpFlow (π := π) ip.dstAddr hmem
      rw [hnew, List.getElem?_append_left (List.getElem?_eq_some_iff.1 hremoved).1, hremoved]
  have hI'' : (if key ∈ b.udpFlows then b else b.openUdpFlow π ip.dstAddr key).FlowsOwned := by
    split_ifs with hmem
    · exact hI'
    · exact Changes.flowsOwned (openUdpFlow_changes (Q := AnyPoll) (s := b) (e := .elapse 0) trivial hmem) hI'
  generalize (if key ∈ b.udpFlows then b else b.openUdpFlow π ip.dstAddr key) = c at hopened hI'' ⊢
  unfold deliver
  split
  · exact hopened
  · rename_i f hf
    obtain ⟨owner, howner, hflow⟩ := hI''.entry key f hf
    have hne : f.stream ≠ id := by
      rintro rfl
      rw [hopened] at howner
      cases howner
      exact hkey hflow.symm
    dsimp only
    rw [howner]
    dsimp only
    split_ifs
    · simp only [act, List.getElem?_modify, if_neg hne, hopened]
      rfl
    · exact hopened

/-! ### The echo -/

/-- What an answer is, and the key it is looked up by. -/
theorem udpKey_answer (hπ : π.StandardUdp) {own : SocketAddr} {packet bytes : Bytes}
    (hwell : WellFormedDatagram packet (tunnelEnd target) (tunnelEnd own) bytes)
    (hip : Ipv6Packet.newChecked packet = some ip) :
    π.parseUdp ip.srcAddr ip.dstAddr ip.payload = some ⟨target.port, own.port, bytes⟩ ∧
      udpKey ip ⟨target.port, own.port, bytes⟩ =
        (.new (.v6 (nat64Addr own.ip)) own.port, .new (.v6 (nat64Addr target.ip)) target.port) := by
  obtain ⟨ip', hip', -, -, hsrc, hdst, hpayload⟩ := hwell.header
  obtain rfl := Option.some.inj (hip.symm.trans hip')
  constructor
  · refine hπ.parse _ _ _ _ ?_
    rw [hsrc, hdst, hpayload]
    exact hwell.datagram
  · rw [udpKey, hsrc, hdst]
    rfl

/-- The key of a flow is made of what its packets carry only without a flow label and a scope
identifier. -/
theorem toIpv6_eq_iff : toIpv6 target = .new (.v6 (nat64Addr target.ip)) target.port ↔
    target = .new target.ip target.port := by
  cases target with
  | v4 ip port => exact ⟨fun _ => rfl, fun _ => rfl⟩
  | v6 ip port flowinfo scopeId => exact Iff.rfl

/-- A stream that a dial opened and somebody received. -/
structure UdpDialled (π : Platform) (a : Actor) (target : SocketAddr) (id : StreamId) (st : Stream) :
    Prop where
  wired : a.Wired
  flows : ∀ es, (run π a es).FlowsOwned
  stream : a.streams[id]? = some st
  fresh : st = { flow := st.flow }
  own : st.flow.1 = .new (.v6 (nat64Addr st.flow.1.ip)) st.flow.1.port
  other : st.flow.2 = toIpv6 target
  ownPort : st.flow.1.port ≠ 0
  otherPort : target.port ≠ 0

theorem udpDialled_of_dialUdp (setup : Setup) (es : List Event) {result : ReplyId}
    {command : Command} {st : Stream} (hdial : dialUdp target result = .ok command)
    (hopens : (step π (run π (init setup) es) (.command command)).streams =
      (run π (init setup) es).streams ++ [st])
    (hreceived : st.cancelled = false) :
    UdpDialled π (step π (run π (init setup) es) (.command command)) target
      (run π (init setup) es).streams.length st := by
  obtain ⟨⟨port, hport, hflow⟩, htarget, hnew⟩ := flow_of_dialUdp hdial hopens
  refine ⟨step_wired (run_wired setup es) _, fun es' => ?_, ?_, hnew hreceived, ?_, ?_, ?_, htarget⟩
  · have hrun := run_flowsOwned (π := π) setup (es ++ .command command :: es')
    rwa [run, Transition.run_append] at hrun
  · rw [hopens, List.getElem?_concat_length]
  · rw [hflow]
    rfl
  · rw [hflow]
  · rw [hflow, SocketAddr.port_new]
    exact hport

namespace UdpDialled

variable {id : StreamId} {st : Stream} {bytes : Bytes}

theorem tunnelEnd_eq (h : UdpDialled π a target id st) : tunnelEnd st.flow.2 = tunnelEnd target := by
  rw [h.other, tunnelEnd_toIpv6]

/-- The stream, at any later time. -/
theorem later (h : UdpDialled π a target id st) (es : List Event) {st' : Stream}
    (hst' : (run π a es).streams[id]? = some st') : st'.flow = st.flow := by
  obtain ⟨st'', hst'', hsame⟩ := run_streamFlow (π := π) h.wired (h.flows []) es h.stream
  obtain rfl := Option.some.inj (hst'.symm.trans hst'')
  exact hsame

/-- Answers come back to an address without a flow label and a scope identifier. -/
theorem echoes (h : UdpDialled π a target id st) (hπ : π.StandardUdp) (hlength : bytes.length ≤ 65507)
    (hplain : target = .new target.ip target.port) : Echoes π a target id st.flow bytes := by
  have hkey : (.new (.v6 (nat64Addr st.flow.1.ip)) st.flow.1.port,
      .new (.v6 (nat64Addr target.ip)) target.port) = st.flow :=
    Prod.ext h.own.symm ((toIpv6_eq_iff.2 hplain).symm.trans h.other.symm)
  refine ⟨fun es htakes => ?_, ?_, fun es packet ip htakes hwell hip => ?_⟩
  · obtain ⟨st', hst', hopen, -, -⟩ := htakes
    have hsame := h.later es hst'
    obtain ⟨st'', touched, hst'', hlookup⟩ := (h.flows es).owner id st' hst' hopen
    obtain rfl := Option.some.inj (hst'.symm.trans hst'')
    have hlive : (run π a es).isCancelled id = false := by
      rw [isCancelled, hst']
      exact hopen
    have hmem : st.flow ∈ (run π a es).udpFlows :=
      AList.lookup_isSome.1 (by rw [← hsame, hlookup]; rfl)
    rw [udpOutput, hlive, if_neg (by decide), if_pos hmem]
  · rw [← h.tunnelEnd_eq]
    exact datagramPacket_wellFormed hπ (by rw [h.other, port_toIpv6]; exact h.otherPort) hlength
  · obtain ⟨st', hst', hopen, hdropped, hroom⟩ := htakes
    obtain ⟨hparse, hanswer⟩ := udpKey_answer hπ hwell hip
    exact streams_udpInput (h.flows es) hst' hopen hdropped hroom hparse h.otherPort h.ownPort
      (hanswer.trans (hkey.trans (h.later es hst').symm))

/-- No answer comes back to an address with a flow label or a scope identifier. -/
theorem plain_of_echoes (h : UdpDialled π a target id st) (hπ : π.StandardUdp)
    (hlength : bytes.length ≤ 65507) (hecho : Echoes π a target id st.flow bytes) :
    target = .new target.ip target.port := by
  by_contra hplain
  -- the peer answers at once, with the packet a stream of its own would send
  have hpacket : WellFormedDatagram (datagramPacket π (st.flow.2, st.flow.1) bytes)
      (tunnelEnd target) (tunnelEnd st.flow.1) bytes := by
    rw [← h.tunnelEnd_eq]
    exact datagramPacket_wellFormed hπ h.ownPort hlength
  obtain ⟨ip, hip, -⟩ := hpacket.header
  obtain ⟨hparse, hkey⟩ := udpKey_answer hπ hpacket hip
  have hne : udpKey ip ⟨target.port, st.flow.1.port, bytes⟩ ≠ st.flow := by
    intro heq
    refine hplain (toIpv6_eq_iff.1 ?_)
    rw [← h.other, ← heq, hkey]
  have htakes : a.Takes id :=
    ⟨st, h.stream, by rw [h.fresh], by rw [h.fresh], by rw [h.fresh]; exact Nat.zero_lt_succ _⟩
  have hadded := hecho.answered [] _ ip htakes hpacket hip
  have hkept := getElem?_udpInput_of_ne (h.flows []) h.stream hparse h.otherPort h.ownPort hne
  have hsame : (run π a []).streams[id]? = some st := h.stream
  simp only [hadded, List.getElem?_modify, hsame, if_true, Option.map_eq_map, Option.map_some,
    Option.some.injEq] at hkept
  exact absurd (congrArg Stream.queue hkept) (by simp)

end UdpDialled

/-- **When answers come back.**  A flow that a dial opened echoes every payload of up to 65507 bytes
if the address that was dialled has neither a flow label nor a scope identifier, and none if it has
one. -/
theorem echoes_iff (hπ : π.StandardUdp) (setup : Setup) (es : List Event) {result : ReplyId}
    {command : Command} {st : Stream} {bytes : Bytes} (hdial : dialUdp target result = .ok command)
    (hopens : (step π (run π (init setup) es) (.command command)).streams =
      (run π (init setup) es).streams ++ [st])
    (hreceived : st.cancelled = false) (hlength : bytes.length ≤ 65507) :
    Echoes π (step π (run π (init setup) es) (.command command)) target
        (run π (init setup) es).streams.length st.flow bytes ↔
      target = .new target.ip target.port :=
  have hdialled := udpDialled_of_dialUdp setup es hdial hopens hreceived
  ⟨hdialled.plain_of_echoes hπ hlength, hdialled.echoes hπ hlength⟩

/-! ### Two targets -/

/-- The sample with UDP by its standard. -/
def standardUdp : Platform :=
  { Sample.sample with parseUdp := Udp.parse, udpChecksum := Udp.checksum }

theorem standardUdp_standard : standardUdp.StandardUdp where
  checksum _ _ _ := rfl
  parse _ _ _ _ h := h

/-- The first stream of the client of the sample, to a target. -/
def firstStream (target : SocketAddr) : Stream where
  flow := (.new (.v6 (tcAddrForKey (Sample.keyOf 2))) 32768, toIpv6 target)

theorem streams_firstDial (target : SocketAddr) :
    (step standardUdp (init Sample.clientSetup) (.command (.dialUdp (toIpv6 target) 0))).streams =
      [firstStream target] := rfl

/-- An address with a flow label. -/
def labelled : SocketAddr :=
  .v6 ⟨[0x20, 0x01, 0x0d, 0xb8, 0, 0, 0, 0, 0, 0, 0, 0, 0, 0, 0, 1], rfl⟩ 53 7 0

/-- Answers from an address that was dialled with a flow label do not come back. -/
theorem labelled_unanswered :
    dialUdp labelled 0 = .ok (.dialUdp labelled 0) ∧
      (step standardUdp (init Sample.clientSetup) (.command (.dialUdp labelled 0))).streams =
        [firstStream labelled] ∧
      ¬Echoes standardUdp (step standardUdp (init Sample.clientSetup)
        (.command (.dialUdp labelled 0))) labelled 0 (firstStream labelled).flow (ascii "hi") := by
  have hdial : dialUdp labelled 0 = .ok (.dialUdp labelled 0) := rfl
  refine ⟨hdial, streams_firstDial labelled, fun hecho => ?_⟩
  have hdialled := udpDialled_of_dialUdp (π := standardUdp) Sample.clientSetup [] hdial
    (streams_firstDial labelled) rfl
  exact absurd (hdialled.plain_of_echoes standardUdp_standard (by decide) hecho) (by decide)

/-- An IPv4 address. -/
def plainTarget : SocketAddr := .v4 ⟨[192, 0, 2, 1], rfl⟩ 53

/-- Answers from an IPv4 address come back. -/
theorem plainTarget_echoes :
    Echoes standardUdp (step standardUdp (init Sample.clientSetup)
      (.command (.dialUdp (toIpv6 plainTarget) 0))) plainTarget 0 (firstStream plainTarget).flow
        (ascii "hi") :=
  (echoes_iff standardUdp_standard Sample.clientSetup [] (show dialUdp plainTarget 0 = _ from rfl)
    (streams_firstDial plainTarget) rfl (by decide)).2 rfl

end Tailcat.Runtime.Actor
