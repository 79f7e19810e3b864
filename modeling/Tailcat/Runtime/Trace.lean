import Tailcat.Runtime.StepChanges

/-!
# The record of what was done

Each entry of the record was made under a condition on the state it was made in (`Origin`); a
condition that lasts holds of every entry after every run (`trace_invariant`).

The record (`trace`) is no part of the program's state: it lists what the actor sent, handed out and
answered, and no function reads it.  A property of the record is shown in two parts, that it holds
when an entry is made, from the condition in `Origin`, and that it lasts, which is often immediate
because it speaks of fields that only grow.

`Small.mem_trace` finds the origin of every entry that a small change adds.  Together with
`Runtime.StepChanges`, where a step is a sequence of small changes, it gives `trace_invariant`, and
later modules never look at the functions of the actor to know why something was sent.
-/

namespace Tailcat.Runtime.Actor

open Net

variable {π : Platform} {Q : Actor → PollAction → Prop} {s a b : Actor} {e : Event}

/-- A datagram from the tunnel went into the queue of a stream. -/
structure Delivers (π : Platform) (a : Actor) (stream : StreamId) (payload : Bytes) : Prop where
  delivered : ∃ flow touched, a.udpFlows.lookup flow = some ⟨stream, touched⟩ ∧
    a.ReceivedUdp π flow payload

/-- The direct path of a peer was set by a pong, for a probe that waited for it. -/
structure Promotes (π : Platform) (a : Actor) (e : Event) (key : Key) (endpoint : SocketAddr)
    (when : ℕ) (txid : TxId) : Prop where
  now : when = a.now
  pong : ∃ peer packet data probe, e = .datagram endpoint packet ∧
    a.peers.lookup key = some peer ∧ slice packet 6 38 = peer.discoKey.1 ∧
    a.openDisco π peer.discoKey packet = some data ∧ data.getD 0 0 = 2 ∧ txid = txidOf data ∧
    a.probes.lookup txid = some probe ∧ probe.key = key ∧ probe.endpoint = endpoint ∧
    usableEndpoint endpoint = true ∧ a.now - probe.sent < probeTimeout

/-- What holds in the state where an entry of the record is made, for an event. -/
inductive Origin (π : Platform) (a : Actor) (e : Event) : Act → Prop
  | send {x : Act} (h : a.MaySend x) : Origin π a e x
  | act {x : Act} (h : a.MayAct π x) : Origin π a e x
  | link {x : Act} {index : ℕ} {c : Conn} (hc : a.connAt index = some c)
      (hx : x ∈ (c.poll (a.surroundings π)).acts) (h : x.OfLink)
      (he : ∃ first second, e = .tick first second) : Origin π a e x
  | deliver {stream : StreamId} {payload : Bytes} (h : Delivers π a stream payload) :
      Origin π a e (.deliver stream payload)
  | promote {key : Key} {endpoint : SocketAddr} {when : ℕ} {txid : TxId}
      (h : Promotes π a e key endpoint when txid) : Origin π a e (.promote key endpoint when txid)
  | remove {index : ℕ} {c : Conn} (hc : a.connAt index = some c) (hover : c.isOver = true) :
      Origin π a e (.remove c.link c.socket)

theorem Sends.mem_trace (h : Sends a b) {x : Act} (hx : x ∈ b.trace) :
    x ∈ a.trace ∨ a.MaySend x := by
  obtain ⟨new, hnew, hmay⟩ := h.trace
  rw [hnew] at hx
  exact (List.mem_append.1 hx).imp_right (hmay x)

theorem mem_trace_deliver {flow : UdpFlowKey} {payload : Bytes} {x : Act}
    (hx : x ∈ (a.deliver flow payload).trace) : x ∈ a.trace ∨
      ∃ stream touched, a.udpFlows.lookup flow = some ⟨stream, touched⟩ ∧
        x = .deliver stream payload := by
  unfold deliver at hx
  split at hx
  · exact .inl hx
  · rename_i state hstate
    dsimp only at hx
    split at hx
    · split_ifs at hx
      · refine (List.mem_append.1 hx).imp_right fun hx => ?_
        exact ⟨state.stream, state.touched, hstate, List.mem_singleton.1 hx⟩
      · exact .inl hx
    · exact .inl hx

/-- Each change enters only what it may. -/
theorem Small.mem_trace (h : Small π Q s e a b) {x : Act} (hx : x ∈ b.trace) :
    x ∈ a.trace ∨ Origin π a e x := by
  cases h with
  | sends h => exact (h.mem_trace hx).imp_right .send
  | repeatPings h => exact (h.mem_trace hx).imp_right .send
  | act h =>
    refine (List.mem_append.1 hx).imp_right fun hx => ?_
    rw [List.mem_singleton.1 hx]
    exact .act h
  | probed =>
    refine (List.mem_append.1 hx).imp_right fun hx => ?_
    rw [List.mem_singleton.1 hx]
    exact .send trivial
  | direct he hpeer hheader hopen hpong hprobe hkey husable hsent =>
    refine (List.mem_append.1 hx).imp_right fun hx => ?_
    rw [List.mem_singleton.1 hx]
    exact .promote ⟨rfl, _, _, _, _, he, hpeer, hheader, hopen, hpong, rfl, hprobe, hkey, rfl,
      husable, hsent⟩
  | deliver h =>
    refine (mem_trace_deliver hx).imp_right ?_
    rintro ⟨stream, touched, hlookup, rfl⟩
    exact .deliver ⟨⟨_, touched, hlookup, h⟩⟩
  | newUdpFlow => rw [newUdpFlow_eq] at hx; exact .inl hx
  | lostUdpFlow => rw [newUdpFlow_eq] at hx; exact .inl hx
  | removeCancelled => rw [removeCancelled_eq] at hx; exact .inl hx
  | udpOutput => rw [udpOutput_eq] at hx; exact .inl hx
  | expireUdp => rw [expireUdp_eq] at hx; exact .inl hx
  | poll => rw [pollAction_eq] at hx; exact .inl hx
  | @pollLink _ index c _ _ he hc =>
    obtain ⟨new, hnew, hof⟩ := (Conn.poll_goes (a.surroundings π) c).acts
    rw [(connAt_eq_some.1 hc).2.2.2, List.nil_append] at hnew
    unfold putConn at hx
    refine (List.mem_append.1 hx).imp_right fun hx => .link hc hx (hof x ?_) ⟨_, _, he⟩
    rwa [hnew] at hx
  | removeLink hc hover =>
    rw [removeLink_of_connAt hc] at hx
    refine (List.mem_append.1 hx).imp_right fun hx => ?_
    rw [List.mem_singleton.1 hx]
    exact .remove hc hover
  | _ => exact .inl hx

theorem init_trace (setup : Setup) : (init setup).trace = [] := by
  unfold init addPeer
  dsimp only
  split
  · split_ifs <;> rfl
  · rfl

theorem init_links (setup : Setup) : (init setup).links = [] := by
  unfold init addPeer
  dsimp only
  split
  · split_ifs <;> rfl
  · rfl

/-- **What holds of each entry when it is made, and lasts, holds of all entries.** -/
theorem trace_invariant {I : Actor → Act → Prop}
    (hlasts : ∀ s e a b x, Small π AnyPoll s e a b → I a x → I b x)
    (hmade : ∀ a e x, Origin π a e x → I a x) (setup : Setup) (es : List Event) {x : Act}
    (hx : x ∈ (run π (init setup) es).trace) : I (run π (init setup) es) x := by
  refine run_invariant (I := fun a => ∀ x, x ∈ a.trace → I a x) ?_ ?_ es x hx
  · intro x hx
    rw [init_trace] at hx
    cases hx
  · intro s e a b hstep ha x hx
    refine hlasts s e a b x hstep ?_
    exact (hstep.mem_trace hx).elim (ha x) (hmade a e x)

end Tailcat.Runtime.Actor
