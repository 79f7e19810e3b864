import Tailcat.Runtime.Actor

/-!
# Peers and paths to them

Peers register through the relay (`addPeer`), announce their endpoints (`advertise`) and probe each
other's (`probe`); a probe answered from the probed endpoint makes it the direct path
(`discoPacket`).

A message of the disco protocol comes sealed for this end, through the relay or in a datagram; what
it is sealed with is a parameter of the platform, and `Runtime.Reflection` says what follows if only
the two ends of a box can make it.  Of a STUN answer only the mapped address is read, by a walk over
its attributes that ends with the data (`stunAttribute`).

Three things are kept for a peer: its endpoints, the probes that wait for a pong, with the endpoint
each was sent to, and the path that was found.  The module has definitions only.  That what it keeps
is bounded is in `Runtime.Bounds`, that a path is used only if it was probed in
`Runtime.DirectPaths`, and what an announcement leads to in `Runtime.CallMeMaybe`.
-/

namespace Tailcat.Runtime

open Net

/-! ### Endpoints -/

/-- Remember an endpoint that may be used and is not known, at the expense of the oldest one; whether
it was remembered, and the endpoints after. -/
def rememberEndpoint (endpoints : List SocketAddr) (endpoint : SocketAddr) :
    Bool × List SocketAddr :=
  if !usableEndpoint endpoint || endpoints.contains endpoint then (false, endpoints)
  else
    let endpoints := if endpoints.length = maxCandidates then endpoints.eraseIdx 0 else endpoints
    (true, endpoints ++ [endpoint])

/-- The endpoints a list of announced ones leaves. -/
def rememberAll (announced : List SocketAddr) : List SocketAddr :=
  announced.foldl (fun endpoints endpoint => (rememberEndpoint endpoints endpoint).2) []

/-- The bytes of an endpoint in a message of the discovery protocol. -/
def endpointBytes (endpoint : SocketAddr) : Bytes := ip16 endpoint.ip ++ beBytes16 endpoint.port.toNat

/-- The first 16 bytes of a byte string, as an address. -/
def ipv6Of (b : Bytes) : Ipv6Addr :=
  ⟨(b.take 16).rightpad 16 0, by rw [List.length_rightpad, List.length_take]; omega⟩

/-- The endpoint of 18 bytes of a message. -/
def endpointOf (p : Bytes) : SocketAddr :=
  .new (IpAddr.canonical (.v6 (ipv6Of p))) (UInt16.ofNat (ofBeBytes16 (p.getD 16 0) (p.getD 17 0)))

/-- `chunks_exact(18)`: the whole parts of 18 bytes. -/
def endpointChunks (b : Bytes) : List Bytes :=
  (List.range (b.length / 18)).map fun i => slice b (18 * i) (18 * i + 18)

/-- The attribute of a STUN response that carries the own address, from an offset on; at most as many
attributes as there are bytes are read. -/
def stunAttribute (data : Bytes) (length : ℕ) : (fuel offset : ℕ) → Option SocketAddr
  | 0, _ => none
  | fuel + 1, offset =>
    if offset + 4 ≤ length then
      let kind := ofBeBytes16 (data.getD offset 0) (data.getD (offset + 1) 0)
      let size := ofBeBytes16 (data.getD (offset + 2) 0) (data.getD (offset + 3) 0)
      let offset := offset + 4
      if offset + size ≤ data.length then
        let b := slice data offset (offset + size)
        if kind = 0x20 ∧ 8 ≤ size ∧ b.getD 1 0 = 1 then
          let port := UInt16.ofNat (ofBeBytes16 (b.getD 2 0) (b.getD 3 0)) ^^^ 0x2112
          some (.v4 ⟨[b.getD 4 0 ^^^ 0x21, b.getD 5 0 ^^^ 0x12, b.getD 6 0 ^^^ 0xa4,
            b.getD 7 0 ^^^ 0x42], rfl⟩ port)
        else stunAttribute data length fuel (offset + (size + 3) / 4 * 4)
      else none
    else none

/-- The own address in a STUN response. -/
def parseStun (data : Bytes) : Option SocketAddr :=
  let length := 20 + ofBeBytes16 (data.getD 2 0) (data.getD 3 0)
  if data.length < length then none else stunAttribute data length data.length 20

namespace Actor

variable (π : Platform)

/-! ### Peers -/

/-- Register a peer, unless it is known, the table is full or a key is zero. -/
def addPeer (a : Actor) (key discoKey : Key) : Actor :=
  if key ∈ a.peers ∨ maxPeers ≤ a.peers.size ∨ key = Key.zero ∨ discoKey = Key.zero then a
  else { a with peers := a.peers.insert key { discoKey } }

/-- Send a ping to the server; the ping with the time of sending, and the state after. -/
def sendPing (a : Actor) (ping : PendingPing) : PendingPing × Actor :=
  match a.server with
  | none => (ping, a)
  | some key =>
    let ping := { ping with sent := a.now }
    if ping.disco then
      let data := [1, 0] ++ ping.txid.1 ++ a.key.pub.1
      match a.peers.lookup key with
      | some peer =>
        match a.sealDisco π peer.discoKey data with
        | (some frame, a) => (ping, a.sendPacket π key frame)
        | (none, a) => (ping, a)
      | none => (ping, a)
    else
      (ping, a.relaySend π key (meow ++ [1] ++ a.key.pub.1 ++ a.key.discoPublic.1))

/-! ### Probes -/

/-- Probe an endpoint of a peer. -/
def probe (a : Actor) (key : Key) (endpoint : SocketAddr) : Actor :=
  if !usableEndpoint endpoint then a
  else
    let txid := π.txid a.draws
    let a := a.draw
    let data := [1, 0] ++ txid.1 ++ a.key.pub.1
    match a.peers.lookup key with
    | none => a
    | some peer =>
      match a.sealDisco π peer.discoKey data with
      | (none, a) => a
      | (some packet, a) =>
        if a.probes.size < maxProbes then
          let a := { a with probes := a.probes.insert txid { key, endpoint, sent := a.now } }
          (a.sendUdp π packet endpoint).2
        else a

/-- Seal a message for a peer and send it through the relay. -/
def sealAndRelay (a : Actor) (key : Key) (peer : Peer) (data : Bytes) : Actor :=
  match a.sealDisco π peer.discoKey data with
  | (some packet, a) => a.relaySend π key packet
  | (none, a) => a

/-- Probe some endpoints of a peer. -/
def probeAll (a : Actor) (key : Key) (endpoints : List SocketAddr) : Actor :=
  endpoints.foldl (fun a endpoint => a.probe π key endpoint) a

/-- Announce the own endpoints to a peer and probe its candidates. -/
def advertiseTo (payload : Bytes) (a : Actor) (key : Key) : Actor :=
  match a.peers.lookup key with
  | none => a
  | some peer => (a.sealAndRelay π key peer payload).probeAll π key peer.candidates

/-- Announce the own endpoints to every peer. -/
def advertise (a : Actor) : Actor :=
  let a := { a with lastAdvertise := a.now }
  let payload := [3, 0] ++ a.endpoints.flatMap endpointBytes
  a.peers.keys.foldl (advertiseTo π payload) a

/-! ### Packets of the discovery protocol -/

/-- The endpoint a ping came from, as the pong reports it. -/
def reportedEndpoint (source : Option SocketAddr) : SocketAddr :=
  source.getD (.new (.v4 unspecifiedV4) 0)

/-- Send a pong back the way its ping came. -/
def sendPong (a : Actor) (key : Key) (peer : Peer) (pong : Bytes) (source : Option SocketAddr) :
    Actor :=
  match source with
  | some src =>
    match a.sealDisco π peer.discoKey pong with
    | (some frame, a) => (a.sendUdp π frame src).2
    | (none, a) => a
  | none => a.sealAndRelay π key peer pong

/-- Probe the source of a ping if it is a new candidate. -/
def probeSource (a : Actor) (key : Key) (peer : Peer) (source : Option SocketAddr) : Actor :=
  match source with
  | some src =>
    match rememberEndpoint peer.candidates src with
    | (true, candidates) =>
      { a with peers := a.peers.adjust key fun peer => { peer with candidates } }.probe π key src
    | (false, _) => a
  | none => a

/-- Answer a ping.  That is not enough to trust its source, which is probed in turn. -/
def discoPing (a : Actor) (key : Key) (peer : Peer) (data : Bytes) (source : Option SocketAddr) :
    Actor :=
  let pong := [2, 0] ++ slice data 2 14 ++ endpointBytes (reportedEndpoint source)
  (a.sendPong π key peer pong source).probeSource π key peer source

/-- The transaction identifier of a ping or pong. -/
def txidOf (data : Bytes) : TxId :=
  ⟨(slice data 2 14).rightpad 12 0, by rw [List.length_rightpad, slice, List.length_take]; omega⟩

/-- A pong from the endpoint a probe was sent to, in time, makes it the direct path. -/
def answerProbe (a : Actor) (key : Key) (txid : TxId) (source : Option SocketAddr) : Actor :=
  match a.probes.lookup txid with
  | some probe =>
    if probe.key = key ∧ source = some probe.endpoint ∧ a.now - probe.sent < probeTimeout then
      { a with
        probes := a.probes.erase txid
        peers := a.peers.adjust key fun peer =>
          { peer with direct := some (probe.endpoint, a.now) } }.act
        (.promote key probe.endpoint a.now txid)
    else a
  | none => a

/-- A pong answers a ping that waits for it. -/
def answerPing (a : Actor) (txid : TxId) (source : Option SocketAddr) : Actor :=
  match a.pings.findIdx? fun p => p.disco && p.txid = txid with
  | some index =>
    match a.pings[index]? with
    | some p =>
      let result := { latency := a.now - p.started, endpoint := source, derpRegionId := a.regionId }
      { a with pings := a.pings.eraseIdx index }.answer p.result (.pong result)
    | none => a
  | none => a

/-- Take a pong: it may answer a probe and a ping. -/
def discoPong (a : Actor) (key : Key) (data : Bytes) (source : Option SocketAddr) : Actor :=
  (a.answerProbe key (txidOf data) source).answerPing (txidOf data) source

/-- Take a peer's list of endpoints as its candidates, and probe them. -/
def callMeMaybe (a : Actor) (key : Key) (data : Bytes) : Actor :=
  let announced := (endpointChunks (data.drop 2)).map endpointOf
  let endpoints := rememberAll (announced.take maxCandidates)
  { a with
    peers := a.peers.adjust key fun peer => { peer with candidates := endpoints } }.probeAll π key
    endpoints

/-- Process a packet of the discovery protocol for a peer, from the relay or from a datagram's
source. -/
def discoPacket (a : Actor) (key : Key) (packet : Bytes) (source : Option SocketAddr) : Actor :=
  match a.peers.lookup key with
  | none => a
  | some peer =>
    if packet.length < 78 ∨ slice packet 6 38 ≠ peer.discoKey.1 then a
    else
      match a.openDisco π peer.discoKey packet with
      | none => a
      | some data =>
        if data.length < 2 ∨ data.getD 1 0 ≠ 0 ∨ source.any (fun s => !usableEndpoint s) then a
        else if data.getD 0 0 = 1 ∧ 14 ≤ data.length then a.discoPing π key peer data source
        else if data.getD 0 0 = 2 ∧ 32 ≤ data.length then a.discoPong key data source
        else if data.getD 0 0 = 3 ∧ source = none ∧ (data.length - 2) % 18 = 0 then
          a.callMeMaybe π key data
        else a

end Actor

end Tailcat.Runtime
