import Tailcat.Net.Addr

/-!
# Packets and the libraries below the actor

`Ipv6Packet.newChecked` reads the fixed header of an IPv6 packet.  The rest of what the program
uses from elsewhere is a parameter, `Platform`: the TCP and UDP parsers of the network stack, the
sealed boxes of the discovery protocol, the WireGuard tunnels, random numbers, and whether a queue
or the system has room for a packet.  An outcome that may differ from call to call takes a number as
its argument, and no number is used twice.
-/

namespace Tailcat.Runtime

open Net

/-! ### Packets -/

/-- A part of a byte string, by its bounds. -/
def slice (b : Bytes) (lo hi : ℕ) : Bytes := (b.drop lo).take (hi - lo)

theorem slice_append {pre mid : Bytes} {lo hi : ℕ} (rest : Bytes) (hlo : pre.length = lo)
    (hhi : lo + mid.length = hi) : slice (pre ++ (mid ++ rest)) lo hi = mid := by
  subst hlo hhi
  simp [slice]

/-- The fields of an IPv6 packet. -/
structure Ipv6Packet where
  version : ℕ
  nextHeader : UInt8
  srcAddr : Ipv6Addr
  dstAddr : Ipv6Addr
  payload : Bytes

/-- The length of an IPv6 packet's payload by its header. -/
def payloadLen (b : Bytes) : ℕ := ofBeBytes16 (b.getD 4 0) (b.getD 5 0)

/-- `Ipv6Packet::new_checked`: the header is complete and the payload is there. -/
def Ipv6Packet.newChecked (b : Bytes) : Option Ipv6Packet :=
  if h : 40 ≤ b.length then
    if 40 + payloadLen b ≤ b.length then
      some {
        version := (b.getD 0 0).toNat / 16
        nextHeader := b.getD 6 0
        srcAddr := ⟨slice b 8 24, by simp [slice]; omega⟩
        dstAddr := ⟨slice b 24 40, by simp [slice]; omega⟩
        payload := slice b 40 (40 + payloadLen b) }
    else none
  else none

/-- `IpProtocol::Tcp`. -/
def protoTcp : UInt8 := 6

/-- `IpProtocol::Udp`. -/
def protoUdp : UInt8 := 17

/-- The control flags of a TCP segment. -/
inductive TcpControl
  | none | psh | syn | fin | rst
  deriving DecidableEq, Repr

/-- A TCP segment, as far as it is looked at. -/
structure TcpRepr where
  srcPort : Port
  dstPort : Port
  control : TcpControl
  ackNumber : Option ℕ
  deriving DecidableEq

/-- The segment opens a connection. -/
def TcpRepr.opens (r : TcpRepr) : Bool := r.control = .syn && r.ackNumber.isNone

/-- A UDP datagram. -/
structure UdpRepr where
  srcPort : Port
  dstPort : Port
  payload : Bytes
  deriving DecidableEq

/-! ### Below the actor -/

/-- A transaction identifier of the discovery protocol. -/
abbrev TxId := { b : Bytes // b.length = 12 }

/-- A nonce of a sealed box. -/
abbrev Nonce := { b : Bytes // b.length = 24 }

/-- What a tunnel wants written, for as long as it wants anything written. -/
inductive TunnResult
  | writeToNetwork (b : Bytes)
  | writeToTunnelV6 (b : Bytes)

/-- The keys that belong to a private key. -/
structure PrivateKey where
  pub : Key
  discoPrivate : Key
  discoPublic : Key

/-- What the program uses from elsewhere. -/
structure Platform where
  /-- `TcpPacket::new_checked` and `TcpRepr::parse`, which check lengths, flags, options, ports and
  the checksum. -/
  parseTcp : (src dst : Ipv6Addr) → Bytes → Option TcpRepr
  /-- `UdpPacket::new_checked` and `UdpRepr::parse`. -/
  parseUdp : (src dst : Ipv6Addr) → Bytes → Option UdpRepr
  /-- The checksum of a UDP packet whose checksum field is zero. -/
  udpChecksum : (src dst : Ipv6Addr) → Bytes → ℕ
  /-- `SalsaBox::encrypt` with a private and a public key. -/
  encrypt : (secret pub : Key) → Nonce → Bytes → Option Bytes
  /-- `SalsaBox::decrypt`. -/
  decrypt : (secret pub : Key) → (nonce : Bytes) → Bytes → Option Bytes
  /-- `rand::random`. -/
  txid : ℕ → TxId
  /-- `SalsaBox::generate_nonce`. -/
  nonce : ℕ → Nonce
  /-- The system takes a datagram to send. -/
  sendsUdp : ℕ → Bool
  /-- The relay's queue has room. -/
  relayRoom : ℕ → Bool
  /-- A queue to the application has room. -/
  appRoom : ℕ → Bool
  /-- A pipe may be polled now. -/
  pipeReady : ℕ → Bool
  /-- Where the buffer of a socket wraps: how much of it is offered at once. -/
  contiguous : ℕ → ℕ
  /-- `Tunn::decapsulate` of a packet, repeated for as long as there is something to write. -/
  decapsulate : ℕ → Key → Option IpAddr → Bytes → List TunnResult
  /-- `Tunn::encapsulate`. -/
  encapsulate : ℕ → Key → Bytes → Option Bytes
  /-- `Tunn::update_timers`. -/
  updateTimers : ℕ → Key → Option Bytes

end Tailcat.Runtime
