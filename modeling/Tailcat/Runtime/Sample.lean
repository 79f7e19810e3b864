import Tailcat.Runtime.Step

/-!
# A platform for small runs

`sample` stands for the libraries below the actor where a run has to be carried out.  It reads TCP and
UDP headers as they are laid out; its boxes and its tunnels have the lengths of the real ones but
keep nothing secret.

It is not a model of these libraries: the results are for every platform, and where they need more
of it, that is a hypothesis.  `sample` is what witnesses and failing inputs are evaluated with, so
it has to agree with the real libraries on what they do there, and it does where it matters: which
segments a socket takes, which datagrams parse, and the lengths of what is sealed.
-/

namespace Tailcat.Runtime.Sample

open Net

/-- A key of one repeated byte. -/
def keyOf (n : UInt8) : Key := ⟨List.replicate 32 n, by simp⟩

/-- A byte string of a fixed length that starts with a number. -/
def numbered (length n : ℕ) : { b : Bytes // b.length = length } :=
  ⟨([UInt8.ofNat (n / 256), UInt8.ofNat n] ++ List.replicate length 0).take length, by
    simp; omega⟩

/-- The tag of a box, the same from both ends. -/
def tag (secret pub : Key) : Bytes := (secret.1.zipWith (· ^^^ ·) pub.1).take 16

/-- The ports of a transport header. -/
def ports (b : Bytes) : Port × Port :=
  (UInt16.ofNat (ofBeBytes16 (b.getD 0 0) (b.getD 1 0)),
    UInt16.ofNat (ofBeBytes16 (b.getD 2 0) (b.getD 3 0)))

/-- A TCP header without options. -/
def parseTcp (b : Bytes) : Option TcpRepr :=
  let flags := b.getD 13 0
  if b.length < 20 ∨ (ports b).1 = 0 ∨ (ports b).2 = 0 then none
  else some {
    srcPort := (ports b).1
    dstPort := (ports b).2
    control :=
      if flags &&& 2 ≠ 0 then .syn
      else if flags &&& 4 ≠ 0 then .rst
      else if flags &&& 1 ≠ 0 then .fin
      else if flags &&& 8 ≠ 0 then .psh
      else .none
    ackNumber := if flags &&& 16 ≠ 0 then some (ofBeBytes32 (b.getD 8 0) (b.getD 9 0) (b.getD 10 0) (b.getD 11 0)) else none }

/-- A UDP header. -/
def parseUdp (b : Bytes) : Option UdpRepr :=
  let length := ofBeBytes16 (b.getD 4 0) (b.getD 5 0)
  if b.length < 8 ∨ b.length < length ∨ length < 8 then none
  else some { srcPort := (ports b).1, dstPort := (ports b).2, payload := slice b 8 length }

/-- A platform where every send succeeds and every tunnel is open. -/
def sample : Platform where
  parseTcp := fun _ _ b => parseTcp b
  parseUdp := fun _ _ b => parseUdp b
  udpChecksum := fun _ _ _ => 0xffff
  encrypt := fun secret pub _ data => some (tag secret pub ++ data)
  decrypt := fun secret pub _ b => if b.take 16 = tag secret pub then some (b.drop 16) else none
  txid := numbered 12
  nonce := numbered 24
  sendsUdp := fun _ => true
  relayRoom := fun _ => true
  appRoom := fun _ => true
  pipeReady := fun _ => true
  contiguous := fun n => n
  decapsulate := fun _ _ _ b => if b.getD 0 0 = 4 then [.writeToTunnelV6 (b.drop 32)] else []
  encapsulate := fun _ _ b => some (4 :: List.replicate 31 0 ++ b)
  updateTimers := fun _ _ => none

/-- The private key of one repeated byte, which is public here. -/
def privateKey (n : UInt8) : PrivateKey where
  pub := keyOf n
  discoPrivate := keyOf (n + 128)
  discoPublic := keyOf (n + 128)

/-- A server. -/
def serverSetup (config : ServerConfig) : Actor.Setup where
  key := privateKey 1
  config := some config
  server := none
  port := 41641
  stunTxid := numbered 12 7
  now := 100000

/-- A client of that server. -/
def clientSetup : Actor.Setup where
  key := privateKey 2
  config := none
  server := some (keyOf 1, keyOf 129)
  port := 41642
  stunTxid := numbered 12 8
  now := 100000

/-- A registration of a key with a disco key. -/
def registration (key disco : Key) : Actor.Event := .relayed key (meow ++ [1] ++ key.1 ++ disco.1)

/-- A packet for the tunnel of a key, through the relay. -/
def tunnelled (key : Key) (packet : Bytes) : Actor.Event :=
  .relayed key (4 :: List.replicate 31 0 ++ packet)

/-- An address and port inside the tunnel. -/
def inside (key : Key) (port : Port) : SocketAddr := .new (.v6 (tcAddrForKey key)) port

/-- An IPv6 packet with a TCP header of some flags. -/
def tcpSegment (flow : UdpFlowKey) (flags : UInt8) : Bytes :=
  [0x60, 0, 0, 0] ++ beBytes16 20 ++ [protoTcp, 64] ++ (nat64Addr flow.1.ip).1 ++
    (nat64Addr flow.2.ip).1 ++ beBytes16 flow.1.port.toNat ++ beBytes16 flow.2.port.toNat ++
    beBytes32 1 ++ beBytes32 0 ++ [0x50, flags, 0xff, 0xff, 0, 0, 0, 0]

end Tailcat.Runtime.Sample
