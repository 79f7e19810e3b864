import Tailcat.Net.Addr
import Tailcat.Lib.Channel
import Tailcat.Lib.Slots

/-!
# TCP sockets of the network stack

The program uses the sockets of a userspace TCP stack through a few calls.  What they do to a socket
is documented and written down here; what the stack does on its own, when it is polled, is left
open but for the rules the program relies on (`Socket.Allows`, `SocketSet.deliver`):

* bytes are received in order, and none once the remote side is done;
* a closed socket stays closed, and a listening one leaves that state by a SYN only;
* a SYN goes to the first socket in slot order that listens on its address and port, which may
  ignore it; a RST sends a socket that has only received a SYN back to listening.
-/

namespace Tailcat.Runtime

open Net (IpEndpoint)

/-- The states of a TCP connection. -/
inductive State
  | closed | listen | synSent | synReceived | established
  | finWait1 | finWait2 | closeWait | closing | lastAck | timeWait
  deriving DecidableEq, Repr

/-- How far a connection is: not open yet, receiving, or done receiving. -/
def State.phase : State → ℕ
  | .listen | .synSent | .synReceived => 0
  | .established | .finWait1 | .finWait2 => 1
  | .closeWait | .closing | .lastAck | .timeWait | .closed => 2

/-- A TCP socket. -/
structure Socket where
  state : State := .closed
  /-- The address and port it listens on. -/
  listenEndpoint : Option IpEndpoint := none
  /-- The local and the remote side it is connected to. -/
  tuple : Option (IpEndpoint × IpEndpoint) := none
  /-- From the remote side to the program. -/
  rx : Channel UInt8 := .empty
  /-- From the program to the remote side. -/
  tx : Channel UInt8 := .empty
  /-- The program has aborted the connection. -/
  aborted : Bool := false
  /-- Which socket it is, where that matters; no operation looks at it. -/
  id : ℕ := 0

/-- The size of each buffer of a socket and of a pipe. -/
def bufferSize : ℕ := 256 * 1024

namespace Socket

/-- The remote side may still send, or sent something not read yet. -/
def mayRecv (s : Socket) : Bool :=
  s.state = .established || s.state = .finWait1 || s.state = .finWait2 || s.rx.pending ≠ []

/-- There is something to read. -/
def canRecv (s : Socket) : Bool := s.mayRecv && s.rx.pending ≠ []

/-- The program may still send. -/
def maySend (s : Socket) : Bool := s.state = .established || s.state = .closeWait

/-- There is room to send. -/
def canSend (s : Socket) : Bool := s.maySend && s.tx.pending.length < bufferSize

/-- The bytes that wait to be sent. -/
def sendQueue (s : Socket) : ℕ := s.tx.pending.length

/-- Listen for a connection. -/
def listen (s : Socket) (endpoint : IpEndpoint) : Option Socket :=
  if endpoint.port = 0 then none
  else some { s with state := .listen, listenEndpoint := some endpoint }

/-- Connect to a remote side. -/
def connect (s : Socket) (remote localEnd : IpEndpoint) : Option Socket :=
  if remote.port = 0 ∨ remote.addr.1 = List.replicate 16 0 ∨ localEnd.port = 0 then none
  else some { s with state := .synSent, tuple := some (localEnd, remote) }

/-- Enqueue what there is room for. -/
def sendSlice (s : Socket) (data : Bytes) : Socket :=
  { s with tx := s.tx.push (data.take (bufferSize - s.sendQueue)) }

/-- Read `n` bytes. -/
def consume (s : Socket) (n : ℕ) : Socket := { s with rx := s.rx.pop n }

/-- End the own side of the connection. -/
def close (s : Socket) : Socket :=
  match s.state with
  | .listen | .synSent => { s with state := .closed }
  | .synReceived | .established => { s with state := .finWait1 }
  | .closeWait => { s with state := .lastAck }
  | _ => s

/-- Drop the connection. -/
def abort (s : Socket) : Socket := { s with state := .closed, aborted := true }

end Socket

/-! ### What the stack does by itself -/

/-- A step a socket takes when the stack is polled. -/
structure Progress where
  state : State
  /-- Bytes that arrive. -/
  received : Bytes := []
  /-- The number of bytes sent and acknowledged. -/
  acked : ℕ := 0

/-- The rules for the steps of a socket by itself. -/
structure Socket.Allows (s : Socket) (p : Progress) : Prop where
  /-- A closed socket does nothing. -/
  not_closed : s.state ≠ .closed
  /-- A listening socket waits for a SYN. -/
  not_listening : s.state ≠ .listen
  /-- Only a RST right after the SYN leads back to listening. -/
  back : p.state = .listen → s.state = .synReceived
  /-- A connection does not return to an earlier phase. -/
  forward : s.state.phase ≤ p.state.phase
  /-- Nothing arrives once the remote side is done. -/
  arrives : p.received ≠ [] → s.state.phase ≤ 1

instance (s : Socket) (p : Progress) : Decidable (s.Allows p) :=
  decidable_of_iff
    (s.state ≠ .closed ∧ s.state ≠ .listen ∧ (p.state = .listen → s.state = .synReceived) ∧
      s.state.phase ≤ p.state.phase ∧ (p.received ≠ [] → s.state.phase ≤ 1))
    ⟨fun ⟨h1, h2, h3, h4, h5⟩ => ⟨h1, h2, h3, h4, h5⟩,
      fun ⟨h1, h2, h3, h4, h5⟩ => ⟨h1, h2, h3, h4, h5⟩⟩

/-- A step of a socket by itself; a step against the rules does not happen. -/
def Socket.progress (s : Socket) (p : Progress) : Socket :=
  if s.Allows p then
    { s with
      state := p.state
      tuple := if p.state = .listen ∨ p.state = .closed then none else s.tuple
      rx := s.rx.push p.received
      tx := s.tx.pop p.acked }
  else s

/-- A listening socket takes a SYN to its endpoint from a remote side. -/
def Socket.acceptSyn (s : Socket) (localEnd remote : IpEndpoint) : Socket :=
  { s with state := .synReceived, tuple := some (localEnd, remote) }

/-- The socket listens on this address and port. -/
def Socket.listensOn (s : Socket) (endpoint : IpEndpoint) : Bool :=
  s.state = .listen && s.listenEndpoint = some endpoint

/-- A set of sockets. -/
abbrev SocketSet := Slots Socket

/-- The socket that takes a SYN to an endpoint. -/
def SocketSet.listener (sockets : SocketSet) (endpoint : IpEndpoint) : Option ℕ :=
  sockets.find (·.listensOn endpoint)

/-- Deliver a SYN, which the socket that would take it may ignore. -/
def SocketSet.deliver (sockets : SocketSet) (localEnd remote : IpEndpoint) (ignored : Bool) :
    SocketSet :=
  match sockets.listener localEnd with
  | some h => if ignored then sockets else sockets.update h (·.acceptSyn localEnd remote)
  | none => sockets

/-- Delivering a SYN changes at most one socket, which listens. -/
theorem SocketSet.deliver_cases (sockets : SocketSet) (localEnd remote : IpEndpoint) (ignored : Bool) :
    sockets.deliver localEnd remote ignored = sockets ∨
      ∃ h x, sockets.get h = some x ∧ x.state = .listen ∧
        sockets.deliver localEnd remote ignored = sockets.update h (·.acceptSyn localEnd remote) := by
  unfold SocketSet.deliver
  split
  · rename_i h hlistener
    split_ifs
    · exact .inl rfl
    · obtain ⟨x, hx, hlistens⟩ := Slots.get_of_find hlistener
      simp only [Socket.listensOn, Bool.and_eq_true, decide_eq_true_eq] at hlistens
      exact .inr ⟨h, x, hx, hlistens.1, rfl⟩
  · exact .inl rfl

/-- A socket that connects waits for the answer to its SYN. -/
theorem Socket.connect_state {x y : Socket} {remote localEnd : IpEndpoint}
    (h : x.connect remote localEnd = some y) : y.state = .synSent := by
  unfold Socket.connect at h
  split_ifs at h
  cases h
  rfl

/-- The network stack leaves a closed socket closed. -/
theorem Socket.closed_progress {x : Socket} (h : x.state = .closed) (p : Progress) :
    (x.progress p).state = .closed := by
  rw [Socket.progress, if_neg fun hallows => hallows.not_closed h, h]

end Tailcat.Runtime
