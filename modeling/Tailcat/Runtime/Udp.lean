import Tailcat.Lib.InternetChecksum
import Tailcat.Runtime.Datagram

/-!
# UDP over IPv6

The datagrams of the network stack by their standard: a header of four 16-bit numbers (both ports,
the length and the checksum) and the payload.  The checksum also covers a pseudo header of the
addresses, the length and the protocol, and is not optional over IPv6.

* `Platform.StandardUdp` : what the program relies on of the network stack.
* `parse_datagram` : a datagram with its checksum filled in is read back.
* `datagramPacket_wellFormed` : the packets the program builds for a flow are well formed.
-/

namespace Tailcat.Runtime

open Net InternetChecksum

namespace Udp

/-- The sum of the pseudo header. -/
def pseudoHeader (src dst : Ipv6Addr) (length : ℕ) : ℕ :=
  combine [data src.1, data dst.1, data ([0, 0, 0, protoUdp] ++ beBytes32 length)]

/-- The length field. -/
def len (b : Bytes) : ℕ := ofBeBytes16 (b.getD 4 0) (b.getD 5 0)

/-- The checksum field. -/
def checksumField (b : Bytes) : ℕ := ofBeBytes16 (b.getD 6 0) (b.getD 7 0)

/-- The sum that a checksum complements. -/
def sum (src dst : Ipv6Addr) (b : Bytes) : ℕ :=
  combine [pseudoHeader src dst (len b), data (b.take (len b))]

/-- The checksum of a datagram whose checksum field is zero. -/
def checksum (src dst : Ipv6Addr) (b : Bytes) : ℕ := complement (sum src dst b)

/-- Read a datagram. -/
def parse (src dst : Ipv6Addr) (b : Bytes) : Option UdpRepr :=
  let dstPort := ofBeBytes16 (b.getD 2 0) (b.getD 3 0)
  if b.length < 8 ∨ b.length < len b ∨ len b < 8 then none
  else if dstPort = 0 then none
  else if checksumField b = 0 ∨ sum src dst b ≠ allOnes then none
  else
    some {
      srcPort := UInt16.ofNat (ofBeBytes16 (b.getD 0 0) (b.getD 1 0))
      dstPort := UInt16.ofNat dstPort
      payload := slice b 8 (len b) }

/-- A datagram with a checksum. -/
def datagram (srcPort dstPort : Port) (payload : Bytes) (checksum : ℕ) : Bytes :=
  beBytes16 srcPort.toNat ++ beBytes16 dstPort.toNat ++ beBytes16 (8 + payload.length) ++
    beBytes16 checksum ++ payload

end Udp

/-- The network stack fills in the standard's checksums and reads what the standard reads. -/
structure Platform.StandardUdp (π : Platform) : Prop where
  checksum : ∀ src dst b, π.udpChecksum src dst b = Udp.checksum src dst b
  parse : ∀ src dst b repr, Udp.parse src dst b = some repr → π.parseUdp src dst b = some repr

/-- A packet is an IPv6 packet with a datagram between two ends and nothing else: the addresses,
the ports, both lengths and the checksum are right. -/
structure WellFormedDatagram (packet : Bytes) (src dst : IpEndpoint) (payload : Bytes) : Prop where
  header : ∃ ip, Ipv6Packet.newChecked packet = some ip ∧ ip.version = 6 ∧
    ip.nextHeader = protoUdp ∧ ip.srcAddr = src.addr ∧ ip.dstAddr = dst.addr ∧
    ip.payload = packet.drop 40
  datagram : Udp.parse src.addr dst.addr (packet.drop 40) = some ⟨src.port, dst.port, payload⟩
  payloadLen : packet.length = 40 + payloadLen packet
  len : Udp.len (packet.drop 40) = 8 + payload.length

namespace Udp

variable (srcPort dstPort : Port) (payload : Bytes)

/-! ### Fields -/

theorem length_datagram (c : ℕ) :
    (datagram srcPort dstPort payload c).length = 8 + payload.length := by
  simp only [datagram, List.length_append, length_beBytes16]

variable {payload}

theorem len_datagram (h : payload.length ≤ 65507) (c : ℕ) :
    len (datagram srcPort dstPort payload c) = 8 + payload.length :=
  ofBeBytes16_beBytes16 (show 8 + payload.length < 2 ^ 16 by omega)

theorem checksumField_datagram {c : ℕ} (hc : c ≤ allOnes) :
    checksumField (datagram srcPort dstPort payload c) = c :=
  ofBeBytes16_beBytes16 (Nat.lt_of_le_of_lt hc (by decide))

theorem ofBeBytes16_port (p : Port) :
    ofBeBytes16 (UInt8.ofNat (p.toNat / 2 ^ 8)) (UInt8.ofNat p.toNat) = p.toNat :=
  ofBeBytes16_beBytes16 p.toNat_lt

/-! ### Sums -/

theorem total_beBytes16 {n : ℕ} (h : n < 2 ^ 16) (b : Bytes) :
    total (beBytes16 n ++ b) = n + total b := by
  show ofBeBytes16 _ _ + total b = _
  rw [ofBeBytes16_beBytes16 h]

/-- The checksum is one of the words of a datagram. -/
theorem total_datagram (h : payload.length ≤ 65507) {c : ℕ} (hc : c ≤ allOnes) :
    total (datagram srcPort dstPort payload c) =
      total (datagram srcPort dstPort payload 0) + c := by
  have hc' : c < 2 ^ 16 := Nat.lt_of_le_of_lt hc (by decide)
  have hlen : 8 + payload.length < 2 ^ 16 := by omega
  simp only [datagram, List.append_assoc]
  rw [total_beBytes16 srcPort.toNat_lt, total_beBytes16 dstPort.toNat_lt, total_beBytes16 hlen,
    total_beBytes16 hc', total_beBytes16 srcPort.toNat_lt, total_beBytes16 dstPort.toNat_lt,
    total_beBytes16 hlen, total_beBytes16 (by decide)]
  omega

theorem pseudoHeader_le (src dst : Ipv6Addr) (length : ℕ) : pseudoHeader src dst length ≤ allOnes := by
  have hdata : ∀ b : Bytes, b.length ≤ 16 → data b ≤ allOnes := by
    intro b hb
    have htotal := total_le b
    refine propagateCarries_le ?_
    simp only [allOnes] at htotal
    omega
  have hsrc := hdata src.1 (Nat.le_of_eq src.2)
  have hdst := hdata dst.1 (Nat.le_of_eq dst.2)
  have hlen := hdata ([0, 0, 0, protoUdp] ++ beBytes32 length) (by simp)
  refine propagateCarries_le ?_
  simp only [List.foldl_cons, List.foldl_nil, allOnes] at *
  omega

/-- A datagram with its checksum verifies. -/
theorem sum_datagram (src dst : Ipv6Addr) (h : payload.length ≤ 65507) :
    sum src dst (datagram srcPort dstPort payload
      (checksum src dst (datagram srcPort dstPort payload 0))) = allOnes := by
  have htake : ∀ c, (datagram srcPort dstPort payload c).take
      (len (datagram srcPort dstPort payload c)) = datagram srcPort dstPort payload c := by
    intro c
    rw [len_datagram srcPort dstPort h, ← length_datagram srcPort dstPort, List.take_length]
  have htotal : total (datagram srcPort dstPort payload 0) < 2 ^ 31 := by
    have hle := total_le (datagram srcPort dstPort payload 0)
    rw [length_datagram] at hle
    simp only [allOnes] at hle
    omega
  have hc : checksum src dst (datagram srcPort dstPort payload 0) ≤ allOnes := complement_le _
  rw [sum, htake, len_datagram _ _ h, data, total_datagram _ _ h hc, checksum, sum, htake,
    len_datagram _ _ h, data]
  exact combine_complement (pseudoHeader_le src dst _) htotal

variable {dstPort}

/-- **Datagrams are read back.** -/
theorem parse_datagram (src dst : Ipv6Addr) (hport : dstPort ≠ 0) (h : payload.length ≤ 65507) :
    parse src dst (datagram srcPort dstPort payload
      (checksum src dst (datagram srcPort dstPort payload 0))) =
        some ⟨srcPort, dstPort, payload⟩ := by
  have hsum := sum_datagram srcPort dstPort src dst h
  have hpos := complement_pos (sum src dst (datagram srcPort dstPort payload 0))
  have hle := complement_le (sum src dst (datagram srcPort dstPort payload 0))
  rw [← checksum] at hpos hle
  generalize checksum src dst (datagram srcPort dstPort payload 0) = c at *
  have hsrc : ofBeBytes16 ((datagram srcPort dstPort payload c).getD 0 0)
      ((datagram srcPort dstPort payload c).getD 1 0) = srcPort.toNat := ofBeBytes16_port srcPort
  have hdst : ofBeBytes16 ((datagram srcPort dstPort payload c).getD 2 0)
      ((datagram srcPort dstPort payload c).getD 3 0) = dstPort.toNat := ofBeBytes16_port dstPort
  have hport' : dstPort.toNat ≠ 0 := fun h0 => hport (UInt16.toNat_inj.1 h0)
  have hslice : slice (datagram srcPort dstPort payload c) 8 (8 + payload.length) = payload := by
    show (payload.take (8 + payload.length - 8)) = payload
    rw [Nat.add_sub_cancel_left, List.take_length]
  unfold parse
  dsimp only
  rw [hsrc, hdst, length_datagram, len_datagram _ _ h, checksumField_datagram _ _ hle, hsum,
    if_neg (by omega), if_neg hport', if_neg (by omega), hslice]
  simp

end Udp

/-! ### Packets of flows -/

theorem datagramPacket_eq (π : Platform) (flow : UdpFlowKey) (bytes : Bytes) :
    datagramPacket π flow bytes = [0x60, 0, 0, 0] ++ (beBytes16 (8 + bytes.length) ++
      ([protoUdp, 64] ++ ((nat64Addr flow.1.ip).1 ++ ((nat64Addr flow.2.ip).1 ++
        Udp.datagram flow.1.port flow.2.port bytes (π.udpChecksum (nat64Addr flow.1.ip)
          (nat64Addr flow.2.ip) (Udp.datagram flow.1.port flow.2.port bytes 0)))))) := by
  simp only [datagramPacket, Udp.datagram, List.append_assoc]

/-- **Datagrams of flows are well formed.** -/
theorem datagramPacket_wellFormed {π : Platform} (hπ : π.StandardUdp) {flow : UdpFlowKey}
    {bytes : Bytes} (hport : flow.2.port ≠ 0) (h : bytes.length ≤ 65507) :
    WellFormedDatagram (datagramPacket π flow bytes) ⟨nat64Addr flow.1.ip, flow.1.port⟩
      ⟨nat64Addr flow.2.ip, flow.2.port⟩ bytes := by
  have hparse := Udp.parse_datagram flow.1.port (nat64Addr flow.1.ip) (nat64Addr flow.2.ip) hport h
  rw [← hπ.checksum] at hparse
  have hpacket := datagramPacket_eq π flow bytes
  generalize datagramPacket π flow bytes = packet at hpacket ⊢
  generalize π.udpChecksum _ _ _ = c at hparse hpacket
  have hudp := Udp.length_datagram flow.1.port flow.2.port bytes c
  have hlen := Udp.len_datagram flow.1.port flow.2.port h c
  generalize Udp.datagram flow.1.port flow.2.port bytes c = datagram at *
  generalize nat64Addr flow.1.ip = src at *
  generalize nat64Addr flow.2.ip = dst at *
  have hlength : packet.length = 40 + (8 + bytes.length) := by
    simp only [hpacket, List.length_append, List.length_cons, List.length_nil, length_beBytes16,
      src.2, dst.2, hudp]
    omega
  have hpayload : payloadLen packet = 8 + bytes.length := by
    rw [hpacket]
    exact ofBeBytes16_beBytes16 (show 8 + bytes.length < 2 ^ 16 by omega)
  -- the header is fixed, so the addresses and the datagram are at known places
  have hdrop8 : packet.drop 8 = src.1 ++ (dst.1 ++ datagram) := by
    rw [hpacket]
    rfl
  have hdrop24 : packet.drop 24 = dst.1 ++ datagram := by
    rw [show 24 = 8 + 16 from rfl, ← List.drop_drop, hdrop8, List.drop_left' src.2]
  have hdrop40 : packet.drop 40 = datagram := by
    rw [show 40 = 24 + 16 from rfl, ← List.drop_drop, hdrop24, List.drop_left' dst.2]
  -- what is read back of the packet
  have hchecked : Ipv6Packet.newChecked packet = some
      ⟨(packet.getD 0 0).toNat / 16, packet.getD 6 0, src, dst, packet.drop 40⟩ := by
    rw [Ipv6Packet.newChecked, dif_pos (by omega), if_pos (by omega)]
    have hsrc : slice packet 8 24 = src.1 := by
      rw [slice, hdrop8, List.take_left' src.2]
    have hdst : slice packet 24 40 = dst.1 := by
      rw [slice, hdrop24, List.take_left' dst.2]
    have hrest : slice packet 40 (40 + payloadLen packet) = packet.drop 40 := by
      rw [slice, Nat.add_sub_cancel_left, List.take_of_length_le]
      rw [List.length_drop]
      omega
    simp only [hsrc, hdst, hrest]
  have hfirst : packet.getD 0 0 = 0x60 := by
    rw [hpacket]
    rfl
  have hnext : packet.getD 6 0 = protoUdp := by
    rw [hpacket]
    rfl
  refine ⟨⟨_, hchecked, ?_, hnext, rfl, rfl, rfl⟩, ?_, ?_, ?_⟩
  · dsimp only
    rw [hfirst]
    rfl
  · rw [hdrop40]
    exact hparse
  · omega
  · rw [hdrop40, hlen]

end Tailcat.Runtime
