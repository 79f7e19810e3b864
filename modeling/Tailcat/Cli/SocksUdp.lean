import Tailcat.Cli.Socks
import Tailcat.Lib.Program
import Tailcat.Protocol.AddressRoundTrip

/-!
# Datagrams through the SOCKS proxy

An association relays the datagrams of one client.  Each begins with a header that names a host and
a port; the first for a host and a port starts a task, which dials it, and the later ones are
queued for that task.  What the host answers goes to the client behind the header that started the
task.

The events are the datagrams of arbitrary senders, what the tasks do, and the end of the control
connection, in any order.  `Relay.Valid` is the invariant: every route leads to the task of its host
and port, and what is in a queue arrived from the client with a header for these.  From it follow
what an association may do (`Relay.Relays`) and what it does (`Relay.Serves`), in every state that
it reaches.

* `udp_target_iff` : the headers that are understood are those of RFC 1928.
* `socks_udp_relay` : what is relayed, in either direction, belongs to the client and to the host
  and the port of its header; what can be queued is queued, and leaves the queue in its turn.

A payload that finds a full queue, or 256 other routes, is dropped.  When a task gets its turn is
not modelled, nor what the network does with what is sent.
-/

namespace Tailcat.Cli.SocksUdp

open Net Protocol

/-! ### Headers -/

/-- Why a datagram is not relayed. -/
inductive UdpError
  | fragmented
  | address
  | utf8
  /-- An index out of range, which is a panic. -/
  | range
  deriving DecidableEq, Repr

/-- `packet[i]`. -/
def byteAt (packet : Bytes) (i : ℕ) : Except UdpError UInt8 :=
  match packet[i]? with
  | some b => .ok b
  | none => .error .range

/-- `packet[start..stop]`. -/
def slice (packet : Bytes) (start stop : ℕ) : Except UdpError Bytes :=
  if start ≤ stop ∧ stop ≤ packet.length then .ok ((packet.drop start).take (stop - start))
  else .error .range

/-- The address in a header, and where it ends. -/
def udpAddress (packet : Bytes) : Except UdpError (List Char × ℕ) := do
  let kind ← byteAt packet 3
  if kind = 1 ∧ 10 ≤ packet.length then
    let octets ← slice packet 4 8
    if h : octets.length = 4 then return (ipv4Text ⟨octets, h⟩, 8) else .error .range
  else if kind = 4 ∧ 22 ≤ packet.length then
    let octets ← slice packet 4 20
    if h : octets.length = 16 then return (ipv6Text ⟨octets, h⟩, 20) else .error .range
  else if kind = 3 ∧ 5 ≤ packet.length then
    let length ← byteAt packet 4
    if 7 + length.toNat ≤ packet.length then
      let name ← slice packet 5 (5 + length.toNat)
      match fromUtf8 name with
      | some host => return (host, 5 + length.toNat)
      | none => .error .utf8
    else .error .address
  else .error .address

/-- `udp_socks_target`: the host and the port of a header, and its length. -/
def udpSocksTarget (packet : Bytes) : Except UdpError (List Char × Port × ℕ) :=
  if packet.length < 4 then .error .fragmented
  else do
    let front ← slice packet 0 3
    if front ≠ [0, 0, 0] then .error .fragmented
    else
      let (host, offset) ← udpAddress packet
      let port ← slice packet offset (offset + 2)
      match port with
      | [hi, lo] => return (host, UInt16.ofNat (ofBeBytes16 hi lo), offset + 2)
      | _ => .error .range

/-- The address of a header of RFC 1928. -/
inductive HeaderAddr
  | v4 (ip : Ipv4Addr)
  | v6 (ip : Ipv6Addr)
  /-- A name in UTF-8. -/
  | domain (name : Bytes) (host : List Char) (hlength : name.length < 256)
    (hutf8 : fromUtf8 name = some host)

/-- The host as a text. -/
def HeaderAddr.host : HeaderAddr → List Char
  | .v4 ip => ipv4Text ip
  | .v6 ip => ipv6Text ip
  | .domain _ host .. => host

/-- The type and the bytes of an address. -/
def HeaderAddr.encode : HeaderAddr → Bytes
  | .v4 ip => 1 :: ip.1
  | .v6 ip => 4 :: ip.1
  | .domain name .. => 3 :: UInt8.ofNat name.length :: name

/-- A header of RFC 1928 that is not a fragment. -/
structure UdpHeader where
  addr : HeaderAddr
  port : Port

/-- The bytes of a header. -/
def UdpHeader.encode (h : UdpHeader) : Bytes :=
  [0, 0, 0] ++ h.addr.encode ++ beBytes16 h.port.toNat

section

variable {packet payload : Bytes} {host : List Char} {port : Port} {offset : ℕ}

theorem slice_eq_ok {start stop : ℕ} {b : Bytes} : slice packet start stop = .ok b ↔
    (start ≤ stop ∧ stop ≤ packet.length) ∧ b = (packet.drop start).take (stop - start) := by
  unfold slice
  split_ifs with h
  · rw [Except.ok.injEq, eq_comm]
    exact (and_iff_right h).symm
  · refine iff_of_false (fun heq => by cases heq) fun heq => h heq.1

theorem slice_of_le {start stop : ℕ} (h : start ≤ stop) (h' : stop ≤ packet.length) :
    slice packet start stop = .ok ((packet.drop start).take (stop - start)) := if_pos ⟨h, h'⟩

/-- What is sliced comes after what is in front of it. -/
theorem take_of_slice {start stop : ℕ} {b : Bytes} (h : slice packet start stop = .ok b) :
    packet.take stop = packet.take start ++ b := by
  obtain ⟨⟨hle, -⟩, rfl⟩ := slice_eq_ok.1 h
  obtain ⟨n, rfl⟩ := Nat.exists_eq_add_of_le hle
  rw [Nat.add_sub_cancel_left, List.take_add]

theorem byteAt_of_lt {i : ℕ} (h : i < packet.length) : byteAt packet i = .ok packet[i] := by
  rw [byteAt, List.getElem?_eq_getElem h]

theorem take_of_byteAt {i : ℕ} {b : UInt8} (h : byteAt packet i = .ok b) :
    packet.take (i + 1) = packet.take i ++ [b] := by
  unfold byteAt at h
  split at h
  · rename_i b' hb
    cases h
    rw [List.take_add_one, hb]
    rfl
  · cases h

/-- A slice of a packet that is put together. -/
theorem slice_append (before middle after : Bytes) :
    slice (before ++ (middle ++ after)) before.length (before.length + middle.length) =
      .ok middle := by
  rw [slice_of_le (Nat.le_add_right _ _) (by simp), List.drop_left, Nat.add_sub_cancel_left,
    List.take_left]

/-- The address of a header is read, whatever comes after it. -/
theorem udpAddress_encode (addr : HeaderAddr) (hi lo : UInt8) (payload : Bytes) :
    udpAddress ([0, 0, 0] ++ (addr.encode ++ (hi :: lo :: payload))) =
      .ok (addr.host, 3 + addr.encode.length) := by
  cases addr with
  | v4 ip =>
    obtain ⟨octets, hoctets⟩ := ip
    have hslice := slice_append [0, 0, 0, 1] octets (hi :: lo :: payload)
    rw [hoctets] at hslice
    change udpAddress ([0, 0, 0, 1] ++ (octets ++ (hi :: lo :: payload))) = _
    have hlength : 10 ≤ ([0, 0, 0, 1] ++ (octets ++ (hi :: lo :: payload))).length := by
      simp only [List.length_append, List.length_cons, List.length_nil, hoctets]
      omega
    rw [udpAddress, byteAt_of_lt (by omega), Program.except_ok_bind, if_pos ⟨rfl, hlength⟩]
    refine (congrArg (· >>= _) hslice).trans ?_
    rw [Program.except_ok_bind, dif_pos hoctets]
    simp [HeaderAddr.host, HeaderAddr.encode, hoctets]
    rfl
  | v6 ip =>
    obtain ⟨octets, hoctets⟩ := ip
    have hslice := slice_append [0, 0, 0, 4] octets (hi :: lo :: payload)
    rw [hoctets] at hslice
    change udpAddress ([0, 0, 0, 4] ++ (octets ++ (hi :: lo :: payload))) = _
    have hlength : 22 ≤ ([0, 0, 0, 4] ++ (octets ++ (hi :: lo :: payload))).length := by
      simp only [List.length_append, List.length_cons, List.length_nil, hoctets]
      omega
    have hkind : ¬(([0, 0, 0, 4] ++ (octets ++ (hi :: lo :: payload)))[3] = 1 ∧ 10 ≤
        ([0, 0, 0, 4] ++ (octets ++ (hi :: lo :: payload))).length) :=
      fun h => absurd h.1 (show (4 : UInt8) ≠ 1 by decide)
    rw [udpAddress, byteAt_of_lt (by omega), Program.except_ok_bind, if_neg hkind,
      if_pos ⟨rfl, hlength⟩]
    refine (congrArg (· >>= _) hslice).trans ?_
    rw [Program.except_ok_bind, dif_pos hoctets]
    simp [HeaderAddr.host, HeaderAddr.encode, hoctets]
    rfl
  | domain name host hname hutf8 =>
    have hsize : (UInt8.ofNat name.length).toNat = name.length := by
      rw [UInt8.toNat_ofNat', Nat.mod_eq_of_lt hname]
    have hslice := slice_append [0, 0, 0, 3, UInt8.ofNat name.length] name (hi :: lo :: payload)
    change udpAddress
      ([0, 0, 0, 3, UInt8.ofNat name.length] ++ (name ++ (hi :: lo :: payload))) = _
    generalize hpacket :
      [0, 0, 0, 3, UInt8.ofNat name.length] ++ (name ++ (hi :: lo :: payload)) = packet at hslice ⊢
    have hlength : 7 + name.length ≤ packet.length := by
      rw [← hpacket]
      simp only [List.length_append, List.length_cons, List.length_nil]
      omega
    have hbyte : byteAt packet 3 = .ok 3 := by
      rw [← hpacket]
      rfl
    have hbyte' : byteAt packet 4 = .ok (UInt8.ofNat name.length) := by
      rw [← hpacket]
      rfl
    -- the code tries the two literal kinds first
    rw [udpAddress, hbyte, Program.except_ok_bind, if_neg (fun h => absurd h.1 (by decide)),
      if_neg (fun h => absurd h.1 (by decide)), if_pos ⟨rfl, by omega⟩, hbyte',
      Program.except_ok_bind, hsize, if_pos hlength]
    refine (congrArg (· >>= _) hslice).trans ?_
    rw [Program.except_ok_bind, hutf8]
    change Except.ok (host, 5 + name.length) = Except.ok (host, 3 + (name.length + 1 + 1))
    rw [Except.ok.injEq, Prod.mk.injEq]
    exact ⟨rfl, by omega⟩

/-- A header is read, whatever comes after it. -/
theorem udpSocksTarget_encode (h : UdpHeader) (payload : Bytes) :
    udpSocksTarget (h.encode ++ payload) = .ok (h.addr.host, h.port, h.encode.length) := by
  obtain ⟨addr, port⟩ := h
  obtain ⟨hi, lo, hport⟩ : ∃ hi lo, beBytes16 port.toNat = [hi, lo] := ⟨_, _, rfl⟩
  have hback : UInt16.ofNat (ofBeBytes16 hi lo) = port := by
    have hinj := List.cons.inj hport
    rw [← hinj.1, ← (List.cons.inj hinj.2).1, ofBeBytes16_beBytes16 port.toNat_lt,
      UInt16.ofNat_toNat]
  have hencode : UdpHeader.encode ⟨addr, port⟩ ++ payload =
      [0, 0, 0] ++ (addr.encode ++ (hi :: lo :: payload)) := by
    simp [UdpHeader.encode, hport]
  have hslice := slice_append ([0, 0, 0] ++ addr.encode) [hi, lo] payload
  rw [List.append_assoc, List.length_append] at hslice
  rw [hencode, udpSocksTarget, if_neg (by simp; omega), slice_of_le (by simp) (by simp),
    Program.except_ok_bind, if_neg (by simp), udpAddress_encode, Program.except_ok_bind]
  refine (congrArg (· >>= _) hslice).trans ?_
  rw [Program.except_ok_bind]
  change Except.ok (addr.host, _, _) = _
  have hlength : ([0, 0, 0] ++ addr.encode ++ [hi, lo]).length = 3 + addr.encode.length + 2 := by
    simp only [List.length_append, List.length_cons, List.length_nil]
  rw [hback, UdpHeader.encode, hport, hlength]

/-- Every address that is read is one of RFC 1928, and the port is behind it. -/
theorem exists_headerAddr (h : udpAddress packet = .ok (host, offset)) :
    (∃ addr : HeaderAddr, packet.take offset = packet.take 3 ++ addr.encode ∧ addr.host = host) ∧
      offset + 2 ≤ packet.length := by
  unfold udpAddress at h
  obtain ⟨kind, hkind, h⟩ := Program.except_bind_eq_ok.1 h
  have hfour := take_of_byteAt hkind
  split_ifs at h with h4 h6 hdomain
  · obtain ⟨octets, hoctets, h⟩ := Program.except_bind_eq_ok.1 h
    split_ifs at h with hlength
    obtain ⟨rfl, rfl⟩ := Prod.mk.inj (Except.ok.inj h)
    refine ⟨⟨.v4 ⟨octets, hlength⟩, ?_, rfl⟩, h4.2⟩
    rw [take_of_slice hoctets, hfour, h4.1, List.append_assoc]
    rfl
  · obtain ⟨octets, hoctets, h⟩ := Program.except_bind_eq_ok.1 h
    split_ifs at h with hlength
    obtain ⟨rfl, rfl⟩ := Prod.mk.inj (Except.ok.inj h)
    refine ⟨⟨.v6 ⟨octets, hlength⟩, ?_, rfl⟩, h6.2⟩
    rw [take_of_slice hoctets, hfour, h6.1, List.append_assoc]
    rfl
  · obtain ⟨length, hlength, h⟩ := Program.except_bind_eq_ok.1 h
    split_ifs at h with hle
    obtain ⟨name, hname, h⟩ := Program.except_bind_eq_ok.1 h
    split at h
    · rename_i host' hutf8
      obtain ⟨rfl, rfl⟩ := Prod.mk.inj (Except.ok.inj h)
      have hsize : name.length = length.toNat := by
        obtain ⟨-, rfl⟩ := slice_eq_ok.1 hname
        rw [List.length_take, List.length_drop]
        omega
      refine ⟨⟨.domain name host' (hsize ▸ length.toNat_lt) hutf8, ?_, rfl⟩, by omega⟩
      rw [take_of_slice hname, take_of_byteAt hlength, hfour, hdomain.1, List.append_assoc,
        List.append_assoc, HeaderAddr.encode, hsize, UInt8.ofNat_toNat]
      rfl
    · cases h

/-- Every header that is read is one of RFC 1928. -/
theorem exists_header (h : udpSocksTarget packet = .ok (host, port, offset)) :
    ∃ header : UdpHeader, packet.take offset = header.encode ∧ header.addr.host = host ∧
      header.port = port ∧ offset ≤ packet.length := by
  unfold udpSocksTarget at h
  split_ifs at h with hlength
  obtain ⟨front, hfront, h⟩ := Program.except_bind_eq_ok.1 h
  split_ifs at h with hzero
  obtain ⟨⟨host', start⟩, haddress, h⟩ := Program.except_bind_eq_ok.1 h
  obtain ⟨bytes, hbytes, h⟩ := Program.except_bind_eq_ok.1 h
  split at h
  · rename_i hi lo
    cases h
    obtain ⟨⟨addr, htake, hhost⟩, hle⟩ := exists_headerAddr haddress
    refine ⟨⟨addr, UInt16.ofNat (ofBeBytes16 hi lo)⟩, ?_, hhost, rfl, hle⟩
    have hthree : packet.take 3 = [0, 0, 0] := by
      rw [take_of_slice hfront, not_not.1 hzero]
      rfl
    have hport : beBytes16 (UInt16.ofNat (ofBeBytes16 hi lo)).toNat = [hi, lo] := by
      have hhi := hi.toNat_lt
      have hlo := lo.toNat_lt
      have hvalue : ofBeBytes16 hi lo < 2 ^ 16 := by
        simp only [ofBeBytes16]
        omega
      rw [UInt16.toNat_ofNat', Nat.mod_eq_of_lt hvalue, beBytes16]
      simp only [ofBeBytes16, List.cons.injEq, and_true, ← UInt8.toNat_inj, UInt8.toNat_ofNat']
      omega
    rw [take_of_slice hbytes, htake, hthree, UdpHeader.encode, hport]
  · cases h

theorem udpAddress_ne_range (h : 4 ≤ packet.length) : udpAddress packet ≠ .error .range := by
  rw [udpAddress, byteAt_of_lt (by omega), Program.except_ok_bind]
  split_ifs with h4 h6 hdomain
  · have hfour : ((packet.drop 4).take (8 - 4)).length = 4 := by
      rw [List.length_take, List.length_drop]
      omega
    rw [slice_of_le (by omega) (by omega), Program.except_ok_bind, dif_pos hfour]
    exact fun h => by cases h
  · have hsixteen : ((packet.drop 4).take (20 - 4)).length = 16 := by
      rw [List.length_take, List.length_drop]
      omega
    rw [slice_of_le (by omega) (by omega), Program.except_ok_bind, dif_pos hsixteen]
    exact fun h => by cases h
  · rw [byteAt_of_lt (by omega), Program.except_ok_bind]
    split_ifs with hle
    · rw [slice_of_le (by omega) (by omega), Program.except_ok_bind]
      split <;> exact fun h => by cases h
    · exact fun h => by cases h
  · exact fun h => by cases h

/-- No index is out of range. -/
theorem udpSocksTarget_ne_range (packet : Bytes) : udpSocksTarget packet ≠ .error .range := by
  unfold udpSocksTarget
  split_ifs with hlength
  · exact fun h => by cases h
  rw [slice_of_le (by omega) (by omega), Program.except_ok_bind]
  split_ifs
  · exact fun h => by cases h
  cases haddress : udpAddress packet with
  | error e =>
    intro h
    cases h
    exact udpAddress_ne_range (by omega) haddress
  | ok address =>
    obtain ⟨host, start⟩ := address
    obtain ⟨-, hle⟩ := exists_headerAddr haddress
    rw [Program.except_ok_bind]
    dsimp only
    rw [slice_of_le (by omega) hle, Program.except_ok_bind]
    have htwo : ((packet.drop start).take (start + 2 - start)).length = 2 := by
      rw [List.length_take, List.length_drop]
      omega
    obtain ⟨hi, lo, heq⟩ := List.length_eq_two.1 htwo
    rw [heq]
    exact fun h => by cases h

/-- **The headers that are understood** are those of RFC 1928 that are no fragments, with a payload
behind them. -/
theorem udp_target_iff : udpSocksTarget packet = .ok (host, port, offset) ↔
    ∃ header : UdpHeader, ∃ payload, packet = header.encode ++ payload ∧
      header.addr.host = host ∧ header.port = port ∧ header.encode.length = offset := by
  constructor
  · intro h
    obtain ⟨header, htake, hhost, hport, hle⟩ := exists_header h
    refine ⟨header, packet.drop offset, ?_, hhost, hport, ?_⟩
    · rw [← htake, List.take_append_drop]
    · rw [← htake, List.length_take, Nat.min_eq_left hle]
  · rintro ⟨header, payload, rfl, rfl, rfl, rfl⟩
    exact udpSocksTarget_encode header payload

end

/-! ### The association -/

/-- The task for a host and a port. -/
structure Task where
  host : List Char
  port : Port
  /-- The header that started it. -/
  header : Bytes
  /-- The client that did. -/
  client : SocketAddr
  /-- What is queued for the host. -/
  inbox : List Bytes := []
  /-- What was dialled. -/
  remote : Option SocksTarget := none
  ended : Bool := false

/-- The state of `socks_udp`. -/
structure Relay where
  /-- The client, once it is known. -/
  source : Option SocketAddr
  /-- The tasks by host and port. -/
  routes : List ((List Char × Port) × ℕ) := []
  /-- All tasks there ever were. -/
  tasks : List Task := []
  /-- The control connection is closed. -/
  closed : Bool := false

/-- What happens to an association. -/
inductive Event
  /-- A datagram arrives. -/
  | datagram (sender : SocketAddr) (packet : Bytes)
  /-- A task has found its target, by this answer of the resolver if it asked, and dials it. -/
  | dial (task : ℕ) (lookupHost : LookupHost) (succeeds : Bool)
  /-- A task takes a payload from its queue. -/
  | forward (task : ℕ) (succeeds : Bool)
  /-- A task receives a payload from its host. -/
  | reply (task : ℕ) (payload : Bytes) (succeeds : Bool)
  /-- A task loses its host. -/
  | lost (task : ℕ)
  | controlClosed

/-- What an association sends. -/
inductive Output
  /-- To a host. -/
  | sent (target : SocksTarget) (payload : Bytes)
  /-- To a client. -/
  | replied (client : SocketAddr) (packet : Bytes)
  deriving DecidableEq

/-- The association a client asks for, from an address and a port of its own. -/
def associate (peer : IpAddr) (host : List Char) (port : Port) : Except String Relay :=
  match parseIp host with
  | none => .error "UDP association requires an IP address"
  | some requested =>
    if !requested.isUnspecified ∧ requested ≠ peer then
      .error "UDP association address does not match TCP peer"
    else .ok { source := if port ≠ 0 then some (.new peer port) else none }

/-- The number of routes. -/
def maxRoutes : ℕ := 256

/-- The number of payloads in a queue. -/
def queueLength : ℕ := 32

/-- Has the task ended? -/
def Relay.hasEnded (r : Relay) (task : ℕ) : Bool := (r.tasks[task]?).all (·.ended)

/-- `try_send`: a payload is queued unless the task has ended or the queue is full. -/
def Task.queue (payload : Bytes) (t : Task) : Task :=
  if t.ended ∨ queueLength ≤ t.inbox.length then t else { t with inbox := t.inbox ++ [payload] }

/-- A datagram with a header for a host and a port. -/
def Relay.relay (r : Relay) (sender : SocketAddr) (host : List Char) (port : Port)
    (header payload : Bytes) : Relay :=
  let r := { r with source := some sender }
  let r := { r with routes := r.routes.filter fun route => !r.hasEnded route.2 }
  match r.routes.lookup (host, port) with
  | some task => { r with tasks := r.tasks.modify task (Task.queue payload) }
  | none =>
    if maxRoutes ≤ r.routes.length then r
    else
      { r with
        routes := ((host, port), r.tasks.length) :: r.routes
        tasks := r.tasks ++ [{ host, port, header, client := sender, inbox := [payload] }] }

/-- A datagram arrives. -/
def Relay.receive (r : Relay) (peer : IpAddr) (sender : SocketAddr) (packet : Bytes) : Relay :=
  if sender.ip ≠ peer ∨ r.source.any (· ≠ sender) then r
  else
    match udpSocksTarget packet with
    | .error _ => r
    | .ok (host, port, offset) =>
      r.relay sender host port (packet.take offset) (packet.drop offset)

/-- A task that goes on, and what it sends. -/
def Relay.run (r : Relay) (task : ℕ) (f : Task → Task × List Output) : Relay × List Output :=
  match r.tasks[task]? with
  | none => (r, [])
  | some t =>
    if t.ended then (r, [])
    else ({ r with tasks := r.tasks.set task (f t).1 }, (f t).2)

variable (c : Codec)

/-- A task dials its target. -/
def Task.dial (lookupHost : LookupHost) (succeeds : Bool) (t : Task) : Task × List Output :=
  if t.remote.isSome then (t, [])
  else
    match (socksTarget c lookupHost t.host t.port).2 with
    | .ok target => if succeeds then ({ t with remote := some target }, [])
      else ({ t with ended := true }, [])
    | .error _ => ({ t with ended := true }, [])

/-- A task sends what is first in its queue. -/
def Task.forward (succeeds : Bool) (t : Task) : Task × List Output :=
  match t.remote, t.inbox with
  | some target, payload :: inbox =>
    if succeeds then ({ t with inbox }, [.sent target payload])
    else ({ t with inbox, ended := true }, [])
  | _, _ => (t, [])

/-- A task passes on what its host sends. -/
def Task.reply (payload : Bytes) (succeeds : Bool) (t : Task) : Task × List Output :=
  if t.remote.isSome then
    if succeeds then (t, [.replied t.client (t.header ++ payload)])
    else ({ t with ended := true }, [])
  else (t, [])

/-- What happens to an association, and what it sends. -/
def Relay.step (peer : IpAddr) (r : Relay) (e : Event) : Relay × List Output :=
  if r.closed then (r, [])
  else
    match e with
    | .datagram sender packet => (r.receive peer sender packet, [])
    | .dial task lookupHost succeeds => r.run task (Task.dial c lookupHost succeeds)
    | .forward task succeeds => r.run task (Task.forward succeeds)
    | .reply task payload succeeds => r.run task (Task.reply payload succeeds)
    | .lost task => r.run task fun t => ({ t with ended := true }, [])
    | .controlClosed => ({ r with closed := true }, [])

/-- An association after events. -/
def Relay.after (peer : IpAddr) (r : Relay) (es : List Event) : Relay :=
  es.foldl (fun r e => (r.step c peer e).1) r

/-! ### What is relayed -/

/-- The resolver's answers lead from a host and a port to this target. -/
def LeadsTo (host : List Char) (port : Port) (target : SocksTarget) : Prop :=
  ∃ lookupHost, (socksTarget c lookupHost host port).2 = .ok target

/-- A payload arrived from the client, behind a header for the host and the port. -/
def Arrived (es : List Event) (client : SocketAddr) (host : List Char) (port : Port)
    (payload : Bytes) : Prop :=
  ∃ packet offset, .datagram client packet ∈ es ∧
    udpSocksTarget packet = .ok (host, port, offset) ∧ payload = packet.drop offset

/-- What is sent after these events belongs to the client.  What goes to a target arrived from the
client with the host and the port of a task that dialled the target; and what goes to the client
came from a task's target, behind a header for the task's host and port. -/
def Output.Belongs (es : List Event) (r : Relay) (e : Event) : Output → Prop
  | .sent target payload => ∃ task t client, e = .forward task true ∧ r.tasks[task]? = some t ∧
      t.remote = some target ∧ LeadsTo c t.host t.port target ∧
      r.source = some client ∧ Arrived es client t.host t.port payload
  | .replied client packet => ∃ task t target payload, e = .reply task payload true ∧
      r.tasks[task]? = some t ∧ t.remote = some target ∧ LeadsTo c t.host t.port target ∧
      r.source = some client ∧ packet = t.header ++ payload ∧
      udpSocksTarget packet = .ok (t.host, t.port, t.header.length)

/-- A payload is the last one in a task's queue, after it was queued or with it the task started. -/
def Queues (sender : SocketAddr) (host : List Char) (port : Port) (header payload : Bytes)
    (old : Option Task) (t : Task) : Prop :=
  t.host = host ∧ t.port = port ∧
    ((∃ t₀, old = some t₀ ∧ t = { t₀ with inbox := t₀.inbox ++ [payload] }) ∨
      old = none ∧ t = { host, port, header, client := sender, inbox := [payload] })

/-- A datagram counts if it comes from the client, once it is known, and has a header that is
understood. -/
def Counts (peer : IpAddr) (source : Option SocketAddr) (sender : SocketAddr) (packet : Bytes) :
    Prop :=
  sender.ip = peer ∧ (∀ client, source = some client → client = sender) ∧
    ∃ target, udpSocksTarget packet = .ok target

/-- What an association does next, after these events. -/
structure Relay.Relays (peer : IpAddr) (es : List Event) (r : Relay) : Prop where
  /-- What is sent belongs to the client. -/
  belongs : ∀ e, ∀ out ∈ (r.step c peer e).2, out.Belongs c es r e
  /-- The client has the address of the control connection. -/
  client_ip : ∀ client, r.source = some client → client.ip = peer
  /-- The client stays the same. -/
  client_stays : ∀ client, r.source = some client →
    ∀ es', (r.after c peer es').source = some client
  /-- Other datagrams than the client's change nothing. -/
  foreign : ∀ sender packet, ¬ Counts peer r.source sender packet →
    r.step c peer (.datagram sender packet) = (r, [])
  /-- The first datagram fixes the client. -/
  fixes : ∀ sender packet, r.closed = false → Counts peer r.source sender packet →
    (r.step c peer (.datagram sender packet)).1.source = some sender
  /-- A payload goes to the route of its own host and port only. -/
  queues : ∀ sender packet host port offset, udpSocksTarget packet = .ok (host, port, offset) →
    ∀ (i : ℕ) t, (r.step c peer (.datagram sender packet)).1.tasks[i]? = some t →
      r.tasks[i]? = some t ∨
        Queues sender host port (packet.take offset) (packet.drop offset) r.tasks[i]? t

/-- The routes whose tasks have not ended. -/
def Relay.liveRoutes (r : Relay) : List ((List Char × Port) × ℕ) :=
  r.routes.filter fun route => !r.hasEnded route.2

/-- The route of a host and a port leads to this task of theirs. -/
structure Relay.Leads (r : Relay) (host : List Char) (port : Port) (i : ℕ) (t : Task) : Prop where
  route : r.liveRoutes.lookup (host, port) = some i
  task : r.tasks[i]? = some t
  host : t.host = host
  port : t.port = port

/-- What an open association does for its client. -/
structure Relay.Serves (peer : IpAddr) (r : Relay) : Prop where
  /-- A payload is queued for the task of its host and port, if the queue has room. -/
  queued : ∀ sender packet host port offset, Counts peer r.source sender packet →
    udpSocksTarget packet = .ok (host, port, offset) → ∀ i t, r.Leads host port i t →
      t.inbox.length < queueLength →
        (r.step c peer (.datagram sender packet)).1.Leads host port i
          { t with inbox := t.inbox ++ [packet.drop offset] }
  /-- Where there is no task, one starts with it, if there is room for a route. -/
  started : ∀ sender packet host port offset, Counts peer r.source sender packet →
    udpSocksTarget packet = .ok (host, port, offset) →
      r.liveRoutes.lookup (host, port) = none → r.liveRoutes.length < maxRoutes →
        ∃ i, (r.step c peer (.datagram sender packet)).1.Leads host port i
          { host, port, header := packet.take offset, client := sender,
            inbox := [packet.drop offset] }
  /-- A task dials what its host and port lead to. -/
  dialled : ∀ i t lookupHost target, r.tasks[i]? = some t → t.ended = false → t.remote = none →
    (socksTarget c lookupHost t.host t.port).2 = .ok target →
      (r.step c peer (.dial i lookupHost true)).1.tasks[i]? = some { t with remote := some target }
  /-- A task sends what is first in its queue. -/
  forwarded : ∀ i t target payload inbox, r.tasks[i]? = some t → t.ended = false →
    t.remote = some target → t.inbox = payload :: inbox →
      r.step c peer (.forward i true) =
        ({ r with tasks := r.tasks.set i { t with inbox } }, [.sent target payload])
  /-- What a task receives from its host goes to the client. -/
  replied : ∀ i t target payload, r.tasks[i]? = some t → t.ended = false →
    t.remote = some target → ∃ client, r.source = some client ∧
      r.step c peer (.reply i payload true) = (r, [.replied client (t.header ++ payload)])
  /-- Nothing else takes a payload out of a queue. -/
  keeps : ∀ e i t, r.tasks[i]? = some t → (∀ succeeds, e ≠ .forward i succeeds) →
    ∃ t', (r.step c peer e).1.tasks[i]? = some t' ∧ t.inbox <+: t'.inbox

/-- What holds of a task. -/
structure Task.Valid (es : List Event) (source : Option SocketAddr) (t : Task) : Prop where
  source : source = some t.client
  header : ∀ payload, udpSocksTarget (t.header ++ payload) = .ok (t.host, t.port, t.header.length)
  inbox : ∀ payload ∈ t.inbox, Arrived es t.client t.host t.port payload
  remote : ∀ target, t.remote = some target → LeadsTo c t.host t.port target

/-- A task stays valid, and for the same host and port. -/
structure Task.Step (es : List Event) (source : Option SocketAddr) (t t' : Task) : Prop where
  valid : t'.Valid c es source
  host : t'.host = t.host
  port : t'.port = t.port

/-- What holds of an association after events. -/
structure Relay.Valid (peer : IpAddr) (es : List Event) (r : Relay) : Prop where
  source : ∀ client, r.source = some client → client.ip = peer
  tasks : ∀ t ∈ r.tasks, t.Valid c es r.source
  routes : ∀ route ∈ r.routes, ∃ t, r.tasks[route.2]? = some t ∧ (t.host, t.port) = route.1

section

variable {c} {peer : IpAddr} {es : List Event} {r : Relay} {e : Event} {t t' : Task}
  {source : Option SocketAddr} {out : Output}

theorem Arrived.append {client : SocketAddr} {host : List Char} {port : Port} {payload : Bytes}
    (h : Arrived es client host port payload) (e : Event) :
    Arrived (es ++ [e]) client host port payload := by
  obtain ⟨packet, offset, hmem, h⟩ := h
  exact ⟨packet, offset, List.mem_append_left _ hmem, h⟩

theorem Task.Valid.append (h : t.Valid c es source) (e : Event) : t.Valid c (es ++ [e]) source :=
  ⟨h.source, h.header, fun payload hpayload => (h.inbox payload hpayload).append e, h.remote⟩

theorem Task.Valid.end (h : t.Valid c es source) :
    Task.Step c es source t { t with ended := true } :=
  ⟨⟨h.source, h.header, h.inbox, h.remote⟩, rfl, rfl⟩

theorem Task.Valid.dial (h : t.Valid c es source) (lookupHost : LookupHost) (succeeds : Bool) :
    Task.Step c es source t (t.dial c lookupHost succeeds).1 := by
  unfold Task.dial
  by_cases hremote : t.remote.isSome
  · rw [if_pos hremote]
    exact ⟨h, rfl, rfl⟩
  rw [if_neg hremote]
  split
  · rename_i target htarget
    by_cases hsucceeds : succeeds
    · rw [if_pos hsucceeds]
      refine ⟨⟨h.source, h.header, h.inbox, ?_⟩, rfl, rfl⟩
      intro target' heq
      cases heq
      exact ⟨lookupHost, htarget⟩
    · rw [if_neg hsucceeds]
      exact h.end
  · exact h.end

theorem Task.dial_sends (lookupHost : LookupHost) (succeeds : Bool) (t : Task) :
    (t.dial c lookupHost succeeds).2 = [] := by
  unfold Task.dial
  split
  · rfl
  split
  · split <;> rfl
  · rfl

theorem Task.Valid.forward (h : t.Valid c es source) (succeeds : Bool) :
    Task.Step c es source t (t.forward succeeds).1 ∧
      ∀ out ∈ (t.forward succeeds).2, succeeds = true ∧ ∃ target payload,
        out = .sent target payload ∧ t.remote = some target ∧
        Arrived es t.client t.host t.port payload := by
  unfold Task.forward
  split
  · rename_i target payload inbox hremote hinbox
    have hrest : ∀ payload ∈ inbox, Arrived es t.client t.host t.port payload := fun p hp =>
      h.inbox p (hinbox ▸ List.mem_cons_of_mem _ hp)
    split_ifs with hsucceeds
    · refine ⟨⟨⟨h.source, h.header, hrest, h.remote⟩, rfl, rfl⟩, fun out hout => ?_⟩
      exact ⟨hsucceeds, target, payload, List.mem_singleton.1 hout, hremote,
        h.inbox payload (hinbox ▸ List.mem_cons_self)⟩
    · exact ⟨⟨⟨h.source, h.header, hrest, h.remote⟩, rfl, rfl⟩, fun out hout => by cases hout⟩
  · exact ⟨⟨h, rfl, rfl⟩, fun out hout => by cases hout⟩

theorem Task.Valid.reply (h : t.Valid c es source) (payload : Bytes) (succeeds : Bool) :
    Task.Step c es source t (t.reply payload succeeds).1 ∧
      ∀ out ∈ (t.reply payload succeeds).2, succeeds = true ∧
        out = .replied t.client (t.header ++ payload) ∧ ∃ target, t.remote = some target := by
  unfold Task.reply
  split_ifs with hremote hsucceeds
  · refine ⟨⟨h, rfl, rfl⟩, fun out hout => ?_⟩
    obtain ⟨target, htarget⟩ := Option.isSome_iff_exists.1 hremote
    exact ⟨hsucceeds, List.mem_singleton.1 hout, target, htarget⟩
  · exact ⟨h.end, fun out hout => by cases hout⟩
  · exact ⟨⟨h, rfl, rfl⟩, fun out hout => by cases hout⟩

/-- A task goes on. -/
theorem Relay.Valid.run (h : r.Valid c peer es) (task : ℕ) {f : Task → Task × List Output}
    (hf : ∀ t, t.Valid c es r.source → Task.Step c es r.source t (f t).1) :
    (r.run task f).1.Valid c peer es ∧ (r.run task f).1.source = r.source ∧
      ∀ out ∈ (r.run task f).2, ∃ t, r.tasks[task]? = some t ∧ t.Valid c es r.source ∧
        out ∈ (f t).2 := by
  unfold Relay.run
  cases ht : r.tasks[task]? with
  | none => exact ⟨h, rfl, fun out hout => by cases hout⟩
  | some t =>
    have hvalid := h.tasks t (List.mem_of_getElem? ht)
    have hstep := hf t hvalid
    dsimp only
    split_ifs
    · exact ⟨h, rfl, fun out hout => by cases hout⟩
    refine ⟨⟨h.source, fun t' ht' => ?_, fun route hroute => ?_⟩, rfl, fun out hout =>
      ⟨t, rfl, hvalid, hout⟩⟩
    · rcases List.mem_or_eq_of_mem_set ht' with ht' | rfl
      · exact h.tasks t' ht'
      · exact hstep.valid
    · obtain ⟨t', ht', hkey⟩ := h.routes route hroute
      by_cases heq : task = route.2
      · subst heq
        obtain rfl : t = t' := Option.some.inj (ht.symm.trans ht')
        refine ⟨(f t).1, List.getElem?_set_self (List.getElem?_eq_some_iff.1 ht).1, ?_⟩
        rw [hstep.host, hstep.port, hkey]
      · exact ⟨t', (List.getElem?_set_ne heq).trans ht', hkey⟩

/-- A header is what was in front of the payload, and is read as it was. -/
theorem udpSocksTarget_take {packet : Bytes} {host : List Char} {port : Port} {offset : ℕ}
    (h : udpSocksTarget packet = .ok (host, port, offset)) (payload : Bytes) :
    udpSocksTarget (packet.take offset ++ payload) =
      .ok (host, port, (packet.take offset).length) := by
  obtain ⟨header, htake, rfl, rfl, -⟩ := exists_header h
  rw [htake]
  exact udpSocksTarget_encode header payload

theorem Relay.Valid.append (h : r.Valid c peer es) (e : Event) : r.Valid c peer (es ++ [e]) :=
  ⟨h.source, fun t ht => (h.tasks t ht).append e, h.routes⟩

/-- A payload of the client is queued. -/
theorem Task.Valid.queue (h : t.Valid c es source) {payload : Bytes}
    (hpayload : Arrived es t.client t.host t.port payload) :
    Task.Step c es source t (t.queue payload) := by
  unfold Task.queue
  split_ifs
  · exact ⟨h, rfl, rfl⟩
  · refine ⟨⟨h.source, h.header, fun p hp => ?_, h.remote⟩, rfl, rfl⟩
    rcases List.mem_append.1 hp with hp | hp
    · exact h.inbox p hp
    · exact List.mem_singleton.1 hp ▸ hpayload

/-- A datagram of the client is queued for its own host and port. -/
theorem Relay.Valid.relay (h : r.Valid c peer es) {sender : SocketAddr} {packet : Bytes}
    (hip : sender.ip = peer) (hsource : ∀ s, r.source = some s → s = sender) {host : List Char}
    {port : Port} {offset : ℕ} (htarget : udpSocksTarget packet = .ok (host, port, offset)) :
    (r.relay sender host port (packet.take offset) (packet.drop offset)).Valid c peer
      (es ++ [.datagram sender packet]) ∧
    (r.relay sender host port (packet.take offset) (packet.drop offset)).source = some sender := by
  have harrived : Arrived (es ++ [.datagram sender packet]) sender host port (packet.drop offset) :=
    ⟨packet, offset, List.mem_append_right _ List.mem_cons_self, htarget, rfl⟩
  have hclient : ∀ client, some sender = some client → client.ip = peer := fun client heq =>
    Option.some.inj heq ▸ hip
  -- the tasks there are were started by the same client
  have htasks : ∀ t ∈ r.tasks, t.Valid c (es ++ [.datagram sender packet]) (some sender) := by
    intro t ht
    obtain ⟨hs, hheader, hinbox, hremote⟩ := (h.tasks t ht).append (.datagram sender packet)
    exact ⟨by rw [hsource t.client hs], hheader, hinbox, hremote⟩
  have hroutes : ∀ route ∈ r.routes.filter fun route => !r.hasEnded route.2,
      ∃ t, r.tasks[route.2]? = some t ∧ (t.host, t.port) = route.1 :=
    fun route hroute => h.routes route (List.mem_filter.1 hroute).1
  change Relay.Valid c peer _ (Relay.relay _ _ _ _ _ _) ∧ Relay.source (Relay.relay _ _ _ _ _ _) = _
  unfold Relay.relay
  have hended : ∀ i, ({ r with source := some sender } : Relay).hasEnded i = r.hasEnded i :=
    fun _ => rfl
  simp only [hended]
  generalize (r.routes.filter fun route => !r.hasEnded route.2) = routes at hroutes
  cases hlookup : routes.lookup (host, port) with
  | some task =>
    obtain ⟨before, after, hsplit, -⟩ := List.lookup_eq_some_iff.1 hlookup
    obtain ⟨t, ht, hkey⟩ := hroutes ((host, port), task) (by simp [hsplit])
    obtain ⟨hhost, hport⟩ := Prod.mk.inj hkey
    have hvalid := htasks t (List.mem_of_getElem? ht)
    have hsame : t.client = sender := Option.some.inj hvalid.source.symm
    have hpayload : Arrived (es ++ [.datagram sender packet]) t.client t.host t.port
        (packet.drop offset) := by
      rw [hsame, hhost, hport]
      exact harrived
    have hstep := hvalid.queue hpayload
    refine ⟨⟨hclient, fun t' ht' => ?_, fun route hroute => ?_⟩, rfl⟩
    · obtain ⟨i, hi⟩ := List.getElem?_of_mem ht'
      rw [List.getElem?_modify] at hi
      obtain ⟨t₀, ht₀, hqueue⟩ := Option.map_eq_some_iff.1 hi
      by_cases heq : task = i
      · subst heq
        obtain rfl : t = t₀ := Option.some.inj (ht.symm.trans ht₀)
        rw [← hqueue, if_pos rfl]
        exact hstep.valid
      · rw [← hqueue, if_neg heq]
        exact htasks t₀ (List.mem_of_getElem? ht₀)
    · obtain ⟨t₀, ht₀, hkey₀⟩ := hroutes route hroute
      dsimp only
      rw [List.getElem?_modify, ht₀]
      by_cases heq : task = route.2
      · obtain rfl : t = t₀ := Option.some.inj (ht.symm.trans (heq ▸ ht₀))
        simp only [if_pos heq]
        exact ⟨_, rfl, by rw [hstep.host, hstep.port, hkey₀]⟩
      · simp only [if_neg heq]
        exact ⟨t₀, rfl, hkey₀⟩
  | none =>
    dsimp only
    split_ifs
    · exact ⟨⟨hclient, htasks, hroutes⟩, rfl⟩
    · refine ⟨⟨hclient, fun t' ht' => ?_, fun route hroute => ?_⟩, rfl⟩
      · rcases List.mem_append.1 ht' with ht' | ht'
        · exact htasks t' ht'
        · rw [List.mem_singleton.1 ht']
          refine ⟨rfl, udpSocksTarget_take htarget, fun payload hpayload => ?_, fun _ heq => by
            cases heq⟩
          exact List.mem_singleton.1 hpayload ▸ harrived
      · rcases List.mem_cons.1 hroute with rfl | hroute
        · exact ⟨_, List.getElem?_concat_length, rfl⟩
        · obtain ⟨t, ht, hkey⟩ := hroutes route hroute
          exact ⟨t, (List.getElem?_append_left (List.getElem?_eq_some_iff.1 ht).1).trans ht, hkey⟩

/-- A payload gets into the queue of one task, for its own host and port, if into any. -/
theorem Relay.Valid.tasks_relay (h : r.Valid c peer es) {sender : SocketAddr} {host : List Char}
    {port : Port} {header payload : Bytes} {i : ℕ}
    (ht' : (r.relay sender host port header payload).tasks[i]? = some t') :
    r.tasks[i]? = some t' ∨ Queues sender host port header payload r.tasks[i]? t' := by
  unfold Relay.relay at ht'
  dsimp only at ht'
  split at ht'
  · rename_i task hlookup
    obtain ⟨before, after, hsplit, -⟩ := List.lookup_eq_some_iff.1 hlookup
    have hroute : ((host, port), task) ∈ before ++ ((host, port), task) :: after :=
      List.mem_append_right _ List.mem_cons_self
    obtain ⟨t, ht, hkey⟩ := h.routes _ (List.mem_filter.1 (hsplit ▸ hroute)).1
    obtain ⟨hhost, hport⟩ := Prod.mk.inj hkey
    dsimp only at ht'
    rw [List.getElem?_modify] at ht'
    obtain ⟨t₀, ht₀, hqueue⟩ := Option.map_eq_some_iff.1 ht'
    by_cases hi : task = i
    · subst hi
      obtain rfl : t = t₀ := Option.some.inj (ht.symm.trans ht₀)
      rw [if_pos rfl, Task.queue] at hqueue
      split_ifs at hqueue
      · exact .inl (ht.trans (congrArg some hqueue))
      · subst hqueue
        exact .inr ⟨hhost, hport, .inl ⟨t, ht, rfl⟩⟩
    · rw [if_neg hi] at hqueue
      exact .inl (ht₀.trans (congrArg some hqueue))
  · split_ifs at ht'
    · exact .inl ht'
    · rcases Nat.lt_or_ge i r.tasks.length with hi | hi
      · exact .inl ((List.getElem?_append_left hi).symm.trans ht')
      · have hlast := (List.getElem?_append_right hi).symm.trans ht'
        have hnone : r.tasks[i]? = none := List.getElem?_eq_none hi
        cases hzero : i - r.tasks.length with
        | zero =>
          rw [hzero] at hlast
          obtain rfl := Option.some.inj hlast
          exact .inr ⟨rfl, rfl, .inr ⟨hnone, rfl⟩⟩
        | succ n =>
          rw [hzero] at hlast
          cases hlast

/-- A datagram that does not count changes nothing. -/
theorem Relay.receive_of_not_counts {sender : SocketAddr} {packet : Bytes}
    (h : ¬ Counts peer r.source sender packet) : r.receive peer sender packet = r := by
  unfold Relay.receive
  by_cases hforeign : sender.ip ≠ peer ∨ r.source.any (· ≠ sender)
  · rw [if_pos hforeign]
  rw [if_neg hforeign]
  cases htarget : udpSocksTarget packet with
  | error => rfl
  | ok target =>
    obtain ⟨hip, hany⟩ := not_or.1 hforeign
    refine absurd ⟨not_not.1 hip, fun client heq => ?_, target, htarget⟩ h
    rw [heq] at hany
    simpa using hany

/-- One that does is relayed. -/
theorem Relay.receive_of_counts {sender : SocketAddr} {packet : Bytes} {host : List Char}
    {port : Port} {offset : ℕ} (hcounts : Counts peer r.source sender packet)
    (htarget : udpSocksTarget packet = .ok (host, port, offset)) :
    r.receive peer sender packet =
      r.relay sender host port (packet.take offset) (packet.drop offset) := by
  obtain ⟨hip, hsource, -⟩ := hcounts
  have hclient : ¬ (sender.ip ≠ peer ∨ r.source.any (· ≠ sender)) := by
    rintro (hne | hany)
    · exact hne hip
    · obtain ⟨hsome, hne⟩ := (Option.any_eq_true_iff_get _ _).1 hany
      exact absurd (hsource _ (Option.some_get hsome).symm) (by simpa using hne)
  rw [Relay.receive, if_neg hclient, htarget]

/-- The sender of a datagram that counts is the client from then on. -/
theorem Relay.Valid.receive (h : r.Valid c peer es) {sender : SocketAddr} {packet : Bytes}
    (hcounts : Counts peer r.source sender packet) :
    (r.receive peer sender packet).Valid c peer (es ++ [.datagram sender packet]) ∧
      (r.receive peer sender packet).source = some sender := by
  obtain ⟨⟨host, port, offset⟩, htarget⟩ := hcounts.2.2
  rw [Relay.receive_of_counts hcounts htarget]
  exact h.relay hcounts.1 hcounts.2.1 htarget

/-- What an event does: an association stays valid, its client stays the same, and what is sent
belongs to it. -/
structure Relay.Step (c : Codec) (peer : IpAddr) (es : List Event) (r : Relay) (e : Event) :
    Prop where
  valid : (r.step c peer e).1.Valid c peer (es ++ [e])
  source : ∀ client, r.source = some client → (r.step c peer e).1.source = some client
  sent : ∀ out ∈ (r.step c peer e).2, out.Belongs c es r e

/-- An event after which nothing is sent. -/
theorem Relay.Step.silent {r' : Relay} (heq : r.step c peer e = (r', []))
    (hvalid : r'.Valid c peer (es ++ [e]))
    (hsource : ∀ client, r.source = some client → r'.source = some client) :
    r.Step c peer es e := by
  refine ⟨?_, fun client hclient => ?_, fun out hout => ?_⟩
  · rw [heq]
    exact hvalid
  · rw [heq]
    exact hsource client hclient
  · rw [heq] at hout
    cases hout

/-- An event with which a task goes on. -/
theorem Relay.Valid.step_run (h : r.Valid c peer es) {task : ℕ}
    {f : Task → Task × List Output} (heq : r.step c peer e = r.run task f)
    (hf : ∀ t, t.Valid c es r.source → Task.Step c es r.source t (f t).1)
    (hsent : ∀ t, r.tasks[task]? = some t → t.Valid c es r.source →
      ∀ out ∈ (f t).2, out.Belongs c es r e) : r.Step c peer es e := by
  obtain ⟨hvalid, hsource, hrun⟩ := h.run task hf
  refine ⟨?_, fun client hclient => ?_, fun out hout => ?_⟩
  · rw [heq]
    exact hvalid.append e
  · rw [heq, hsource, hclient]
  · rw [heq] at hout
    obtain ⟨t, htask, ht, hout⟩ := hrun out hout
    exact hsent t htask ht out hout

/-- One event. -/
theorem Relay.Valid.step (h : r.Valid c peer es) (e : Event) : r.Step c peer es e := by
  by_cases hclosed : r.closed
  · exact .silent (if_pos hclosed) (h.append e) fun _ hclient => hclient
  cases e with
  | datagram sender packet =>
    have heq : r.step c peer (.datagram sender packet) = (r.receive peer sender packet, []) :=
      if_neg hclosed
    by_cases hcounts : Counts peer r.source sender packet
    · obtain ⟨hvalid, hsource⟩ := h.receive hcounts
      exact .silent heq hvalid fun client hclient => hcounts.2.1 client hclient ▸ hsource
    · rw [Relay.receive_of_not_counts hcounts] at heq
      exact .silent heq (h.append _) fun _ hclient => hclient
  | dial task lookupHost succeeds =>
    refine h.step_run (if_neg hclosed) (fun t ht => ht.dial lookupHost succeeds) ?_
    intro t htask ht out hout
    rw [Task.dial_sends] at hout
    cases hout
  | forward task succeeds =>
    refine h.step_run (if_neg hclosed) (fun t ht => (ht.forward succeeds).1) ?_
    intro t htask ht out hout
    obtain ⟨rfl, target, payload, rfl, hremote, harrived⟩ := (ht.forward succeeds).2 out hout
    exact ⟨task, t, t.client, rfl, htask, hremote, ht.remote target hremote, ht.source, harrived⟩
  | reply task payload succeeds =>
    refine h.step_run (if_neg hclosed) (fun t ht => (ht.reply payload succeeds).1) ?_
    intro t htask ht out hout
    obtain ⟨rfl, rfl, target, hremote⟩ := (ht.reply payload succeeds).2 out hout
    exact ⟨task, t, target, payload, rfl, htask, hremote, ht.remote target hremote, ht.source,
      rfl, ht.header payload⟩
  | lost task =>
    refine h.step_run (if_neg hclosed) (fun t ht => ht.end) ?_
    intro t htask ht out hout
    cases hout
  | controlClosed =>
    exact .silent (if_neg hclosed) ⟨h.source, (h.append _).tasks, h.routes⟩
      fun _ hclient => hclient

/-- Events one after another. -/
theorem Relay.after_append (r : Relay) (es : List Event) (e : Event) :
    r.after c peer (es ++ [e]) = ((r.after c peer es).step c peer e).1 := by
  unfold Relay.after
  rw [List.foldl_append, List.foldl_cons, List.foldl_nil]

/-- A run. -/
theorem Relay.Valid.after (h : r.Valid c peer []) (es : List Event) :
    (r.after c peer es).Valid c peer es := by
  induction es using List.reverseRecOn with
  | nil => exact h
  | append_singleton es e ih =>
    rw [Relay.after_append]
    exact (ih.step e).valid

/-- A new association is valid. -/
theorem valid_of_associate {host : List Char} {port : Port} (h : associate peer host port = .ok r) :
    r.Valid c peer [] := by
  unfold associate at h
  split at h
  · cases h
  split at h
  · cases h
  cases h
  refine ⟨fun client heq => ?_, fun t ht => (by cases ht), fun route hroute => (by cases hroute)⟩
  by_cases hport : port ≠ 0
  · rw [← Option.some.inj ((if_pos hport).symm.trans heq)]
    cases peer <;> rfl
  · cases (if_neg hport).symm.trans heq

/-- The client stays the same in a run. -/
theorem Relay.Valid.source_after (h : r.Valid c peer es) {client : SocketAddr}
    (hclient : r.source = some client) (es' : List Event) :
    (r.after c peer es').source = some client := by
  induction es' generalizing r es with
  | nil => exact hclient
  | cons e es' ih => exact ih (h.step e).valid ((h.step e).source client hclient)

theorem Relay.Valid.relays (h : r.Valid c peer es) : r.Relays c peer es where
  belongs e := (h.step e).sent
  client_ip := h.source
  client_stays _ hclient := h.source_after hclient
  foreign sender packet hcounts := by
    unfold Relay.step
    split_ifs
    · rfl
    · dsimp only
      rw [Relay.receive_of_not_counts hcounts]
  fixes sender packet hclosed hcounts := by
    have hopen : ¬ r.closed = true := by
      rw [hclosed]
      exact Bool.false_ne_true
    rw [Relay.step, if_neg hopen]
    exact (h.receive hcounts).2
  queues sender packet host port offset htarget i t ht := by
    by_cases hclosed : r.closed = true
    · rw [Relay.step, if_pos hclosed] at ht
      exact .inl ht
    · rw [Relay.step, if_neg hclosed] at ht
      dsimp only at ht
      rw [Relay.receive, htarget] at ht
      split_ifs at ht
      · exact .inl ht
      · exact h.tasks_relay ht

/-! ### What is done for the client -/

/-- A payload whose route leads to a task is queued there. -/
theorem Relay.relay_of_route {sender : SocketAddr} {host : List Char} {port : Port}
    {header payload : Bytes} {i : ℕ} (hroute : r.liveRoutes.lookup (host, port) = some i) :
    r.relay sender host port header payload =
      { r with
        source := some sender
        routes := r.liveRoutes
        tasks := r.tasks.modify i (Task.queue payload) } := by
  unfold Relay.relay
  change (match r.liveRoutes.lookup (host, port) with
    | some task => _
    | none => _) = _
  rw [hroute]
  rfl

/-- A payload without a route starts a task. -/
theorem Relay.relay_of_none {sender : SocketAddr} {host : List Char} {port : Port}
    {header payload : Bytes} (hroute : r.liveRoutes.lookup (host, port) = none)
    (hroom : r.liveRoutes.length < maxRoutes) :
    r.relay sender host port header payload =
      { r with
        source := some sender
        routes := ((host, port), r.tasks.length) :: r.liveRoutes
        tasks := r.tasks ++ [{ host, port, header, client := sender, inbox := [payload] }] } := by
  unfold Relay.relay
  change (match r.liveRoutes.lookup (host, port) with
    | some task => _
    | none => if maxRoutes ≤ r.liveRoutes.length then _ else _) = _
  rw [hroute]
  exact if_neg (Nat.not_le_of_lt hroom)

/-- A task with a route has not ended. -/
theorem Relay.Leads.ended {host : List Char} {port : Port} {i : ℕ} (h : r.Leads host port i t) :
    t.ended = false := by
  obtain ⟨before, after, hsplit, -⟩ := List.lookup_eq_some_iff.1 h.route
  have hroute : ((host, port), i) ∈ r.liveRoutes := by
    rw [hsplit]
    exact List.mem_append_right _ List.mem_cons_self
  have hlive := (List.mem_filter.1 hroute).2
  rw [Relay.hasEnded, h.task] at hlive
  simpa using hlive

theorem Task.ended_queue (payload : Bytes) (t : Task) : (t.queue payload).ended = t.ended := by
  unfold Task.queue
  split_ifs <;> rfl

/-- A payload is queued where there is room. -/
theorem Relay.Leads.queue {sender : SocketAddr} {host : List Char} {port : Port}
    {header payload : Bytes} {i : ℕ} (h : r.Leads host port i t)
    (hroom : t.inbox.length < queueLength) :
    (r.relay sender host port header payload).Leads host port i
      { t with inbox := t.inbox ++ [payload] } := by
  have hqueue : t.queue payload = { t with inbox := t.inbox ++ [payload] } := by
    rw [Task.queue, h.ended, if_neg]
    simpa using hroom
  rw [Relay.relay_of_route h.route]
  refine ⟨?_, ?_, h.host, h.port⟩
  · -- queueing ends no task, so all routes stay
    have hended : ∀ j, Relay.hasEnded { r with tasks := r.tasks.modify i (Task.queue payload) } j =
        r.hasEnded j := by
      intro j
      rw [Relay.hasEnded, Relay.hasEnded, List.getElem?_modify]
      cases r.tasks[j]? with
      | none => rfl
      | some t₀ =>
        by_cases hij : i = j
        · exact (congrArg Task.ended (if_pos hij)).trans (Task.ended_queue payload t₀)
        · exact congrArg Task.ended (if_neg hij)
    refine (congrArg (List.lookup (host, port)) ?_).trans h.route
    refine (List.filter_congr fun route _ => congrArg (!·) (hended route.2)).trans ?_
    rw [Relay.liveRoutes, List.filter_filter]
    simp
  · rw [List.getElem?_modify, h.task, ← hqueue]
    exact congrArg some (if_pos rfl)

/-- A new task has the route of its host and port. -/
theorem Relay.leads_of_none {sender : SocketAddr} {host : List Char} {port : Port}
    {header payload : Bytes} (hroute : r.liveRoutes.lookup (host, port) = none)
    (hroom : r.liveRoutes.length < maxRoutes) :
    (r.relay sender host port header payload).Leads host port r.tasks.length
      { host, port, header, client := sender, inbox := [payload] } := by
  rw [Relay.relay_of_none hroute hroom]
  refine ⟨?_, List.getElem?_concat_length, rfl, rfl⟩
  rw [Relay.liveRoutes, List.filter_cons_of_pos, List.lookup_cons_self]
  simp [Relay.hasEnded]

/-- A task that has not ended goes on. -/
theorem Relay.run_of_not_ended {i : ℕ} (ht : r.tasks[i]? = some t) (hended : t.ended = false)
    (f : Task → Task × List Output) :
    r.run i f = ({ r with tasks := r.tasks.set i (f t).1 }, (f t).2) := by
  rw [Relay.run, ht]
  dsimp only
  rw [hended, if_neg Bool.false_ne_true]

/-- A task that goes on takes nothing from another's queue. -/
theorem Relay.inbox_run {i j : ℕ} (ht : r.tasks[i]? = some t) {f : Task → Task × List Output}
    (hf : i = j → t.inbox <+: (f t).1.inbox) :
    ∃ t', (r.run j f).1.tasks[i]? = some t' ∧ t.inbox <+: t'.inbox := by
  by_cases hij : i = j
  · subst hij
    by_cases hended : t.ended = true
    · refine ⟨t, ?_, List.prefix_rfl⟩
      rw [Relay.run, ht]
      dsimp only
      rw [if_pos hended, ht]
    · rw [Relay.run_of_not_ended ht (Bool.eq_false_iff.2 hended)]
      exact ⟨(f t).1, List.getElem?_set_self (List.getElem?_eq_some_iff.1 ht).1, hf rfl⟩
  · refine ⟨t, ?_, List.prefix_rfl⟩
    rw [Relay.run]
    split
    · exact ht
    · split_ifs
      · exact ht
      · exact (List.getElem?_set_ne (Ne.symm hij)).trans ht

/-- A datagram takes nothing from a queue. -/
theorem Relay.inbox_receive {i : ℕ} (ht : r.tasks[i]? = some t) (sender : SocketAddr)
    (packet : Bytes) :
    ∃ t', (r.receive peer sender packet).tasks[i]? = some t' ∧ t.inbox <+: t'.inbox := by
  unfold Relay.receive
  split_ifs
  · exact ⟨t, ht, List.prefix_rfl⟩
  split
  · exact ⟨t, ht, List.prefix_rfl⟩
  · rename_i host port offset _
    unfold Relay.relay
    dsimp only
    split
    · rename_i task _
      refine ⟨if task = i then t.queue (packet.drop offset) else t, ?_, ?_⟩
      · rw [List.getElem?_modify, ht]
        rfl
      · split_ifs
        · rw [Task.queue]
          split_ifs
          · exact List.prefix_rfl
          · exact List.prefix_append _ _
        · exact List.prefix_rfl
    · split_ifs
      · exact ⟨t, ht, List.prefix_rfl⟩
      · have hlt := (List.getElem?_eq_some_iff.1 ht).1
        exact ⟨t, (List.getElem?_append_left hlt).trans ht, List.prefix_rfl⟩

/-- Only `forward` changes the queue of the task that goes on. -/
theorem Task.inbox_dial (lookupHost : LookupHost) (succeeds : Bool) (t : Task) :
    (t.dial c lookupHost succeeds).1.inbox = t.inbox := by
  unfold Task.dial
  split
  · rfl
  split
  · split <;> rfl
  · rfl

theorem Task.inbox_reply (payload : Bytes) (succeeds : Bool) (t : Task) :
    (t.reply payload succeeds).1.inbox = t.inbox := by
  unfold Task.reply
  split_ifs <;> rfl

/-- Nothing but `forward` takes a payload out of a queue. -/
theorem Relay.inbox_step {i : ℕ} (ht : r.tasks[i]? = some t)
    (he : ∀ succeeds, e ≠ .forward i succeeds) :
    ∃ t', (r.step c peer e).1.tasks[i]? = some t' ∧ t.inbox <+: t'.inbox := by
  unfold Relay.step
  split_ifs
  · exact ⟨t, ht, List.prefix_rfl⟩
  cases e with
  | datagram sender packet => exact Relay.inbox_receive ht sender packet
  | dial j lookupHost succeeds =>
    refine Relay.inbox_run ht fun _ => ?_
    rw [Task.inbox_dial]
  | forward j succeeds => exact Relay.inbox_run ht fun hij => absurd (hij ▸ rfl) (he succeeds)
  | reply j payload succeeds =>
    refine Relay.inbox_run ht fun _ => ?_
    rw [Task.inbox_reply]
  | lost j => exact Relay.inbox_run ht fun _ => List.prefix_rfl
  | controlClosed => exact ⟨t, ht, List.prefix_rfl⟩

theorem Relay.Valid.serves (h : r.Valid c peer es) (hopen : r.closed = false) :
    r.Serves c peer := by
  have hstep : ¬ r.closed = true := by
    rw [hopen]
    exact Bool.false_ne_true
  constructor
  -- a payload for a task there is, or for a new one
  · intro sender packet host port offset hcounts htarget i t hleads hroom
    rw [Relay.step, if_neg hstep]
    dsimp only
    rw [Relay.receive_of_counts hcounts htarget]
    exact hleads.queue hroom
  · intro sender packet host port offset hcounts htarget hroute hroom
    rw [Relay.step, if_neg hstep]
    dsimp only
    rw [Relay.receive_of_counts hcounts htarget]
    exact ⟨r.tasks.length, Relay.leads_of_none hroute hroom⟩
  -- the task dials, sends and receives
  · intro i t lookupHost target ht hended hremote htarget
    have hdial : t.dial c lookupHost true = ({ t with remote := some target }, []) := by
      rw [Task.dial, hremote, if_neg (by simp), htarget]
      rfl
    rw [Relay.step, if_neg hstep, Relay.run_of_not_ended ht hended, hdial]
    exact List.getElem?_set_self (List.getElem?_eq_some_iff.1 ht).1
  · intro i t target payload inbox ht hended hremote hinbox
    have hforward : t.forward true = ({ t with inbox }, [.sent target payload]) := by
      rw [Task.forward, hremote, hinbox]
      rfl
    rw [Relay.step, if_neg hstep, Relay.run_of_not_ended ht hended, hforward]
  · intro i t target payload ht hended hremote
    refine ⟨t.client, (h.tasks t (List.mem_of_getElem? ht)).source, ?_⟩
    have hreply : t.reply payload true = (t, [.replied t.client (t.header ++ payload)]) := by
      rw [Task.reply, hremote]
      rfl
    rw [Relay.step, if_neg hstep, Relay.run_of_not_ended ht hended, hreply]
    have hset : r.tasks.set i t = r.tasks := by
      obtain ⟨hlt, rfl⟩ := List.getElem?_eq_some_iff.1 ht
      exact List.set_getElem_self hlt
    rw [hset]
  · exact fun e i t ht he => Relay.inbox_step ht he

end

/-- **The relay of datagrams.**  The headers that are understood are those of RFC 1928 that are no
fragments, and no index is ever out of range.  Whatever happens to an association, what it relays
belongs to its one client and to the host and the port of the header; and while it is open, what the
client sends is queued for the task of that host and port, each task sends what is in its queue, and
what it receives goes to the client. -/
theorem socks_udp_relay (c : Codec) :
    (∀ packet host port offset, udpSocksTarget packet = .ok (host, port, offset) ↔
      ∃ header : UdpHeader, ∃ payload, packet = header.encode ++ payload ∧
        header.addr.host = host ∧ header.port = port ∧ header.encode.length = offset) ∧
    (∀ packet host port offset, udpSocksTarget packet = .ok (host, port, offset) →
      offset ≤ packet.length) ∧
    (∀ packet, udpSocksTarget packet ≠ .error .range) ∧
    ∀ peer host port r, associate peer host port = .ok r →
      ∀ es, (r.after c peer es).Relays c peer es ∧
        ((r.after c peer es).closed = false → (r.after c peer es).Serves c peer) := by
  refine ⟨fun _ _ _ _ => udp_target_iff, fun packet host port offset h => ?_,
    udpSocksTarget_ne_range, fun peer host port r h es => ?_⟩
  · obtain ⟨header, htake, -, -, hle⟩ := exists_header h
    exact hle
  · have hvalid : (r.after c peer es).Valid c peer es := (valid_of_associate h).after es
    exact ⟨hvalid.relays, hvalid.serves⟩

/-- The association that any client of this host may claim. -/
theorem loopback_relays : associate (.v4 ⟨[127, 0, 0, 1], rfl⟩) "0.0.0.0".toList 0 =
      .ok { source := none } ∧
    ∀ es, (Relay.after standard (.v4 ⟨[127, 0, 0, 1], rfl⟩) { source := none } es).Relays standard
        (.v4 ⟨[127, 0, 0, 1], rfl⟩) es ∧
      ((Relay.after standard (.v4 ⟨[127, 0, 0, 1], rfl⟩) { source := none } es).closed = false →
        (Relay.after standard (.v4 ⟨[127, 0, 0, 1], rfl⟩) { source := none } es).Serves standard
          (.v4 ⟨[127, 0, 0, 1], rfl⟩)) :=
  have h : associate (.v4 ⟨[127, 0, 0, 1], rfl⟩) "0.0.0.0".toList 0 = .ok { source := none } := by
    rfl
  ⟨h, (socks_udp_relay standard).2.2.2 _ _ _ _ h⟩

end Tailcat.Cli.SocksUdp
