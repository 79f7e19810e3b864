import Tailcat.Protocol.Value

/-!
# Addresses

IP addresses are their octets, as `Ipv4Addr::octets` and `Ipv6Addr::octets` give them.  A
`SocketAddr` of IPv6 carries a flow label and a scope identifier next to its address and port, and
two that differ only there are different.

* `tcAddrForKey` : the tunnel address of a key.
* `nat64Addr`, `unmapNat64`, `toIpv6`, `fromIpv6` : IPv4 addresses inside the tunnel, which carries
  IPv6 only; `unmapNat64_nat64Addr` and `fromIpv6_new` say that nothing else is mapped.
* `usableEndpoint` : the endpoints a peer may be probed at.
-/

namespace Tailcat.Net

/-! ### Data types -/

/-- An IPv4 address, by its octets. -/
abbrev Ipv4Addr := { b : Bytes // b.length = 4 }

/-- An IPv6 address, by its octets. -/
abbrev Ipv6Addr := { b : Bytes // b.length = 16 }

/-- A TCP or UDP port. -/
abbrev Port := UInt16

/-- An IP address of either family. -/
inductive IpAddr
  | v4 (ip : Ipv4Addr)
  | v6 (ip : Ipv6Addr)
  deriving DecidableEq

/-- An IP address and a port. -/
inductive SocketAddr
  | v4 (ip : Ipv4Addr) (port : Port)
  | v6 (ip : Ipv6Addr) (port : Port) (flowinfo scopeId : UInt32)
  deriving DecidableEq

namespace SocketAddr

/-- `SocketAddr::new`. -/
def new : IpAddr → Port → SocketAddr
  | .v4 ip, port => .v4 ip port
  | .v6 ip, port => .v6 ip port 0 0

/-- The IP address. -/
def ip : SocketAddr → IpAddr
  | .v4 ip _ => .v4 ip
  | .v6 ip .. => .v6 ip

/-- The port. -/
def port : SocketAddr → Port
  | .v4 _ port => port
  | .v6 _ port .. => port

@[simp] theorem ip_new (a : IpAddr) (p : Port) : (new a p).ip = a := by cases a <;> rfl

@[simp] theorem port_new (a : IpAddr) (p : Port) : (new a p).port = p := by cases a <;> rfl

end SocketAddr

/-- An address and a port of the tunnel's network stack, which knows IPv6 only. -/
structure IpEndpoint where
  addr : Ipv6Addr
  port : Port
  deriving DecidableEq

/-- The ports a packet filter lets through, as inclusive ranges; without ranges, every port. -/
abbrev PortFilter := Option (List (Port × Port))

/-- The filter lets the port through. -/
def PortFilter.admits (filter : PortFilter) (port : Port) : Bool :=
  match filter with
  | some ports => ports.any fun r => r.1 ≤ port && port ≤ r.2
  | none => true

/-! ### Classes of addresses -/

/-- `Ipv6Addr::to_ipv4_mapped`. -/
def toIpv4Mapped (ip : Ipv6Addr) : Option Ipv4Addr :=
  if ip.1.take 12 = [0, 0, 0, 0, 0, 0, 0, 0, 0, 0, 0xff, 0xff] then
    some ⟨ip.1.drop 12, by simp [ip.2]⟩
  else none

/-- `Ipv4Addr::to_ipv6_mapped`. -/
def toIpv6Mapped (ip : Ipv4Addr) : Ipv6Addr :=
  ⟨[0, 0, 0, 0, 0, 0, 0, 0, 0, 0, 0xff, 0xff] ++ ip.1, by simp [ip.2]⟩

/-- `Ipv4Addr::UNSPECIFIED`. -/
def unspecifiedV4 : Ipv4Addr := ⟨[0, 0, 0, 0], rfl⟩

/-- `Ipv4Addr::BROADCAST`. -/
def broadcast : Ipv4Addr := ⟨[255, 255, 255, 255], rfl⟩

/-- `IpAddr::is_unspecified`. -/
def IpAddr.isUnspecified : IpAddr → Bool
  | .v4 ip => ip = unspecifiedV4
  | .v6 ip => ip.1 = List.replicate 16 0

/-- `IpAddr::is_multicast`. -/
def IpAddr.isMulticast : IpAddr → Bool
  | .v4 ip => 224 ≤ ip.1.headD 0 && ip.1.headD 0 ≤ 239
  | .v6 ip => ip.1.headD 0 = 0xff

/-- `Ipv6Addr::is_unicast_link_local`. -/
def isUnicastLinkLocal (ip : Ipv6Addr) : Bool :=
  ip.1.getD 0 0 = 0xfe && ip.1.getD 1 0 &&& 0xc0 = 0x80

/-- An IPv4-mapped address as the IPv4 address it stands for. -/
def IpAddr.canonical : IpAddr → IpAddr
  | .v6 ip => match toIpv4Mapped ip with
    | some ip => .v4 ip
    | none => .v6 ip
  | ip => ip

/-- Packets may be sent to this endpoint. -/
def usableEndpoint (endpoint : SocketAddr) : Bool :=
  let ip := endpoint.ip.canonical
  endpoint.port ≠ 0 && !ip.isUnspecified && !ip.isMulticast && ip ≠ .v4 broadcast

/-- The octets of an address, IPv4 as IPv4-mapped. -/
def ip16 : IpAddr → Bytes
  | .v4 ip => (toIpv6Mapped ip).1
  | .v6 ip => ip.1

/-! ### Tunnel addresses -/

/-- The tunnel address of a key: a fixed prefix and the first ten bytes of the key. -/
def tcAddrForKey (key : Key) : Ipv6Addr :=
  ⟨[0xfd, 0x7a, 0x11, 0x5c, 0xa1, 0xe0] ++ key.1.take 10, by simp [key.2]⟩

/-- The prefix `64:ff9b::/96` of IPv4 addresses inside the tunnel. -/
def nat64Prefix : Bytes := [0, 0x64, 0xff, 0x9b, 0, 0, 0, 0, 0, 0, 0, 0]

/-- `protocol::nat64_addr`. -/
def nat64Addr : IpAddr → Ipv6Addr
  | .v6 a => a
  | .v4 a => ⟨nat64Prefix ++ a.1, by simp [nat64Prefix, a.2]⟩

/-- `protocol::unmap_nat64`. -/
def unmapNat64 (addr : Ipv6Addr) : IpAddr :=
  if addr.1.take 12 = nat64Prefix then .v4 ⟨addr.1.drop 12, by simp [addr.2]⟩ else .v6 addr

/-- `runtime::to_ipv6`. -/
def toIpv6 (addr : SocketAddr) : SocketAddr :=
  match addr with
  | .v6 .. => addr
  | .v4 ip port => .new (.v6 ⟨nat64Prefix ++ ip.1, by simp [nat64Prefix, ip.2]⟩) port

/-- `runtime::from_ipv6`. -/
def fromIpv6 (addr : SocketAddr) : SocketAddr :=
  match addr with
  | .v6 ip port _ _ =>
    if ip.1.take 12 = nat64Prefix then .new (.v4 ⟨ip.1.drop 12, by simp [ip.2]⟩) port else addr
  | .v4 .. => addr

/-- The address stands for an IPv4 address inside the tunnel. -/
def IsNat64 : IpAddr → Prop
  | .v4 _ => False
  | .v6 ip => ip.1.take 12 = nat64Prefix

instance : DecidablePred IsNat64
  | .v4 _ => inferInstanceAs (Decidable False)
  | .v6 ip => inferInstanceAs (Decidable (ip.1.take 12 = nat64Prefix))

/-- Every address outside the prefix is found back. -/
theorem unmapNat64_nat64Addr {ip : IpAddr} (h : ¬IsNat64 ip) : unmapNat64 (nat64Addr ip) = ip := by
  cases ip with
  | v4 ip => simp [nat64Addr, unmapNat64, nat64Prefix]
  | v6 ip => exact if_neg h

/-- Both encoders give the same address. -/
theorem ip_toIpv6 (addr : SocketAddr) : (toIpv6 addr).ip = .v6 (nat64Addr addr.ip) := by
  cases addr <;> rfl

@[simp] theorem port_toIpv6 (addr : SocketAddr) : (toIpv6 addr).port = addr.port := by
  cases addr <;> rfl

/-- Both decoders give the same address. -/
theorem fromIpv6_new (ip : Ipv6Addr) (port : Port) :
    fromIpv6 (.new (.v6 ip) port) = .new (unmapNat64 ip) port := by
  simp only [SocketAddr.new, fromIpv6, unmapNat64]
  split_ifs <;> rfl

end Tailcat.Net
