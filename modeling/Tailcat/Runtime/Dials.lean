import Tailcat.Runtime.Flows
import Tailcat.Runtime.FourTuples

/-!
# Dials

A client's handle turns a dial into a command of its actor, which opens a link or a datagram flow.

* `flow_of_dial`, `flow_of_dialUdp` : what is opened goes to the address that was dialled.
* `run_streamFlow` : a stream keeps its flow for as long as the actor runs.
* `packet_of_send` : what a stream sends is a datagram of its flow.

The address of a dial is translated twice: an IPv4 address becomes an IPv6 address under a NAT64
prefix where the handle sends its command (`toIpv6`), and again where packets are built
(`tunnelEnd`).  The second time changes nothing, as an IPv6 address is its own translation.  A
stream keeps the flow it was opened with, so a datagram that is sent much later still goes to the
address that was dialled.
-/

namespace Tailcat.Runtime

open Net

/-- An end of a datagram flow in the packets of the tunnel. -/
def tunnelEnd (addr : SocketAddr) : IpEndpoint := ⟨nat64Addr addr.ip, addr.port⟩

theorem tunnelEnd_toIpv6 (addr : SocketAddr) : tunnelEnd (toIpv6 addr) = tunnelEnd addr := by
  rw [tunnelEnd, ip_toIpv6, port_toIpv6]
  rfl

namespace Actor

/-- `Client::dial_tcp`: the command of the handle. -/
def dialTcp (addr : SocketAddr) (result : ReplyId) : Command := .dial (toIpv6 addr) result

/-- `Client::dial_udp`: the command of the handle, if it sends one. -/
def dialUdp (target : SocketAddr) (result : ReplyId) : Except String Command :=
  if target.port = 0 then .error "UDP port must be nonzero"
  else .ok (.dialUdp (toIpv6 target) result)

variable {π : Platform} {a : Actor} {target : SocketAddr}

/-- A dial opens a link to the address that was dialled. -/
theorem flow_of_dial {result : ReplyId} {link : Link}
    (h : (step π a (.command (dialTcp target result))).links = a.links ++ [link]) :
    link.flow.2 = tunnelEnd target := by
  have hdial : step π a (.command (dialTcp target result)) = a.dial π (toIpv6 target) result := rfl
  rw [hdial, dial] at h
  split_ifs at h
  · simp at h
  · simp [answer, act] at h
  · dsimp only at h
    split at h
    · simp [answer, act, advancePort] at h
    · rename_i socket hsocket
      obtain ⟨hlinks, -⟩ := sameConns_advertise (π := π) (a.advancePort.openLink socket
        (⟨a.localAddr, a.nextPort⟩, ⟨nat64Addr (toIpv6 target).ip, (toIpv6 target).port⟩)
        (some result) none)
      rw [hlinks] at h
      have hlink := List.append_cancel_left h
      obtain rfl := (List.cons.inj hlink).1
      exact tunnelEnd_toIpv6 target

/-- A dial opens a datagram flow to the address that was dialled, between ports that are not 0; its
stream is new unless nobody receives it. -/
theorem flow_of_dialUdp {result : ReplyId} {command : Command} {st : Stream}
    (hdial : dialUdp target result = .ok command)
    (h : (step π a (.command command)).streams = a.streams ++ [st]) :
    (∃ port : Port, port ≠ 0 ∧ st.flow = (.new (.v6 a.localAddr) port, toIpv6 target)) ∧
      target.port ≠ 0 ∧ (st.cancelled = false → st = { flow := st.flow }) := by
  unfold dialUdp at hdial
  split_ifs at hdial with hport
  cases hdial
  have hstep : step π a (.command (.dialUdp (toIpv6 target) result)) =
      a.dialUdpCommand (toIpv6 target) result := rfl
  rw [hstep, dialUdpCommand] at h
  split_ifs at h with hfull
  · simp [answer, act] at h
  · split at h
    · simp [answer, act] at h
    · rename_i port hfind
      have hfree : (SocketAddr.new (.v6 a.localAddr) port, toIpv6 target) ∉ a.udpFlows := by
        simpa using List.find?_some hfind
      have hport' : port ≠ 0 := by
        rintro rfl
        have hle := mem_portsFrom.1 (List.mem_of_find?_eq_some hfind)
        exact absurd hle (by decide)
      dsimp only at h
      split_ifs at h
      · -- nobody receives the stream, which is dropped at once
        rw [answer, act, (opens_lostUdpFlow hfree).streams] at h
        obtain rfl := (List.cons.inj (List.append_cancel_left h)).1
        exact ⟨⟨port, hport', rfl⟩, hport, fun hopen => absurd hopen (by simp)⟩
      · rw [answer, act, (opens_newUdpFlow hfree).streams] at h
        obtain rfl := (List.cons.inj (List.append_cancel_left h)).1
        exact ⟨⟨port, hport', rfl⟩, hport, fun _ => rfl⟩

/-- The flow of a stream never changes. -/
theorem run_streamFlow (hw : a.Wired) (hI : a.FlowsOwned) (es : List Event) {id : StreamId}
    {st : Stream} (hst : a.streams[id]? = some st) :
    ∃ st', (run π a es).streams[id]? = some st' ∧ st'.flow = st.flow := by
  let I (b : Actor) : Prop := b.Wired ∧ b.FlowsOwned ∧
    ∃ st', b.streams[id]? = some st' ∧ st'.flow = st.flow
  have hrun : I (run π a es) := by
    refine Transition.invariant (I := I) (fun b e hb => ?_) ⟨hw, hI, st, hst, rfl⟩ es
    obtain ⟨hbw, hbI, hb⟩ := hb
    have hchanges := step_changes (Q := AnyPoll) hbw
      (pollsMeet_of_forall (π := π) (fun _ _ => trivial) b e)
    refine ⟨step_wired hbw e, ?_⟩
    refine hchanges.preserves (I := fun b => b.FlowsOwned ∧
      ∃ st', b.streams[id]? = some st' ∧ st'.flow = st.flow) ?_ ⟨hbI, hb⟩
    rintro b c hsmall ⟨hflows, st', hst', hflow⟩
    refine ⟨hsmall.flowsOwned hflows, ?_⟩
    rcases hsmall.flows hflows with hkeeps | ⟨-, new, hopens⟩
    · obtain ⟨st'', hst'', hflow', -⟩ := hkeeps.stream id st' hst'
      exact ⟨st'', hst'', hflow'.trans hflow⟩
    · exact ⟨st', hopens.stream hst', hflow⟩
  exact hrun.2.2

/-- What a stream sends is a datagram of its flow. -/
theorem packet_of_send {id : StreamId} {st : Stream} {bytes packet : Bytes} {result : ReplyId}
    (hst : a.streams[id]? = some st)
    (h : (step π a (.command (.sendUdp id bytes result))).outgoing = a.outgoing ++ [packet]) :
    packet = datagramPacket π st.flow bytes := by
  simp only [step, command, hst, answer, act, udpOutput] at h
  split_ifs at h
  · simp at h
  · exact (List.cons.inj (List.append_cancel_left h)).1.symm
  · simp at h

end Actor

end Tailcat.Runtime
