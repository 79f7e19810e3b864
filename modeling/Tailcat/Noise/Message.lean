import Tailcat.Bytes
import Tailcat.Lib.LittleEndian
import Tailcat.Noise.Counter

/-!
# Messages between the ends of a tunnel

The four kinds of datagrams, as `noise/mod.rs` tells them apart: by their type and length.

* `Packet.Fits` : the fields of a packet have the lengths of its format.
* `parseIncomingPacket_encode` : a packet that was written is read back, whatever MACs follow it.
* `parseIncomingPacket_iff` : what is read from a datagram is what was written in it, and only
  datagrams of the right type and length are read.
-/

namespace Tailcat.Noise

open LittleEndian

/-- `u32::to_le_bytes`. -/
def leBytes32 (n : ℕ) : Bytes := toBytes 4 n

/-- `u64::to_le_bytes`. -/
def leBytes64 (n : ℕ) : Bytes := toBytes 8 n

/-! ### The formats -/

/-- Types of messages. -/
def handshakeInit : ℕ := 1
def handshakeResp : ℕ := 2
def cookieReply : ℕ := 3
def data : ℕ := 4

/-- Lengths of messages. -/
def handshakeInitSz : ℕ := 148
def handshakeRespSz : ℕ := 92
def cookieReplySz : ℕ := 64
def dataOverheadSz : ℕ := 32

/-- A handshake initiation, without its MACs. -/
structure HandshakeInit where
  senderIdx : ℕ
  unencryptedEphemeral : Bytes
  encryptedStatic : Bytes
  encryptedTimestamp : Bytes
  deriving DecidableEq, Repr

/-- A handshake response, without its MACs. -/
structure HandshakeResponse where
  senderIdx : ℕ
  receiverIdx : ℕ
  unencryptedEphemeral : Bytes
  encryptedNothing : Bytes
  deriving DecidableEq, Repr

/-- A cookie for the next handshake. -/
structure PacketCookieReply where
  receiverIdx : ℕ
  nonce : Bytes
  encryptedCookie : Bytes
  deriving DecidableEq, Repr

/-- A packet of the tunnel. -/
structure PacketData where
  receiverIdx : ℕ
  counter : ℕ
  encryptedEncapsulatedPacket : Bytes
  deriving DecidableEq, Repr

/-- A packet from the network. -/
inductive Packet
  | handshakeInit (p : HandshakeInit)
  | handshakeResponse (p : HandshakeResponse)
  | packetCookieReply (p : PacketCookieReply)
  | packetData (p : PacketData)
  deriving DecidableEq, Repr

/-- `src[from..to]`. -/
def slice (src : Bytes) (first last : ℕ) : Bytes := (src.drop first).take (last - first)

/-- `Tunn::parse_incoming_packet`. -/
def parseIncomingPacket (src : Bytes) : Except WireGuardError Packet :=
  if src.length < 4 then .error .invalidPacket
  else
    let packetType := ofBytes (slice src 0 4)
    if packetType = handshakeInit ∧ src.length = handshakeInitSz then
      .ok (.handshakeInit {
        senderIdx := ofBytes (slice src 4 8)
        unencryptedEphemeral := slice src 8 40
        encryptedStatic := slice src 40 88
        encryptedTimestamp := slice src 88 116 })
    else if packetType = handshakeResp ∧ src.length = handshakeRespSz then
      .ok (.handshakeResponse {
        senderIdx := ofBytes (slice src 4 8)
        receiverIdx := ofBytes (slice src 8 12)
        unencryptedEphemeral := slice src 12 44
        encryptedNothing := slice src 44 60 })
    else if packetType = cookieReply ∧ src.length = cookieReplySz then
      .ok (.packetCookieReply {
        receiverIdx := ofBytes (slice src 4 8)
        nonce := slice src 8 32
        encryptedCookie := slice src 32 64 })
    else if packetType = data ∧ dataOverheadSz ≤ src.length then
      .ok (.packetData {
        receiverIdx := ofBytes (slice src 4 8)
        counter := ofBytes (slice src 8 16)
        encryptedEncapsulatedPacket := src.drop 16 })
    else .error .invalidPacket

/-! ### Writing packets -/

namespace Packet

/-- The bytes of a packet, up to the MACs of a handshake. -/
def encode : Packet → Bytes
  | .handshakeInit p => leBytes32 Noise.handshakeInit ++ leBytes32 p.senderIdx ++
      p.unencryptedEphemeral ++ p.encryptedStatic ++ p.encryptedTimestamp
  | .handshakeResponse p => leBytes32 handshakeResp ++ leBytes32 p.senderIdx ++
      leBytes32 p.receiverIdx ++ p.unencryptedEphemeral ++ p.encryptedNothing
  | .packetCookieReply p => leBytes32 cookieReply ++ leBytes32 p.receiverIdx ++ p.nonce ++
      p.encryptedCookie
  | .packetData p => leBytes32 data ++ leBytes32 p.receiverIdx ++ leBytes64 p.counter ++
      p.encryptedEncapsulatedPacket

/-- The length of the MACs of a packet. -/
def macLength : Packet → ℕ
  | .handshakeInit _ | .handshakeResponse _ => 32
  | .packetCookieReply _ | .packetData _ => 0

/-- The fields of a packet have the lengths of its format. -/
def Fits : Packet → Prop
  | .handshakeInit p => p.senderIdx < 2 ^ 32 ∧ p.unencryptedEphemeral.length = 32 ∧
      p.encryptedStatic.length = 48 ∧ p.encryptedTimestamp.length = 28
  | .handshakeResponse p => p.senderIdx < 2 ^ 32 ∧ p.receiverIdx < 2 ^ 32 ∧
      p.unencryptedEphemeral.length = 32 ∧ p.encryptedNothing.length = 16
  | .packetCookieReply p => p.receiverIdx < 2 ^ 32 ∧ p.nonce.length = 24 ∧
      p.encryptedCookie.length = 32
  | .packetData p => p.receiverIdx < 2 ^ 32 ∧ p.counter < 2 ^ 64 ∧
      16 ≤ p.encryptedEncapsulatedPacket.length

end Packet

/-! ### Slices -/

section Slices

variable {src x rest : Bytes} {i j k n : ℕ}

theorem length_slice (hij : i ≤ j) (hj : j ≤ src.length) : (slice src i j).length = j - i := by
  rw [slice, List.length_take, List.length_drop]
  omega

theorem slice_append_drop (hij : i ≤ j) : slice src i j ++ src.drop j = src.drop i := by
  have hdrop : src.drop j = (src.drop i).drop (j - i) := by
    rw [List.drop_drop, Nat.add_sub_cancel' hij]
  rw [slice, hdrop, List.take_append_drop]

/-- A field of known place and length. -/
theorem slice_at (front back : Bytes) {x : Bytes} (h : src = front ++ (x ++ back))
    (hi : front.length = i)
    (hj : i + x.length = j) : slice src i j = x := by
  have hsub : j - i = x.length := by omega
  rw [slice, hsub, h, ← hi, List.drop_left, List.take_left]

/-- An integer read from a slice is written as the slice. -/
theorem toBytes_slice (hij : i ≤ j) (hj : j ≤ src.length) :
    toBytes (j - i) (ofBytes (slice src i j)) = slice src i j := by
  have hback := toBytes_ofBytes (slice src i j)
  rwa [length_slice hij hj] at hback

theorem ofBytes_slice_lt (hij : i ≤ j) (hj : j ≤ src.length) :
    ofBytes (slice src i j) < 2 ^ (8 * (j - i)) := by
  have hlt := ofBytes_lt (slice src i j)
  rwa [length_slice hij hj] at hlt

end Slices

/-! ### Reading what was written -/

@[simp] theorem length_leBytes32 (n : ℕ) : (leBytes32 n).length = 4 := length_toBytes 4 n

@[simp] theorem length_leBytes64 (n : ℕ) : (leBytes64 n).length = 8 := length_toBytes 8 n

theorem ofBytes_leBytes32 {n : ℕ} (h : n < 2 ^ 32) : ofBytes (leBytes32 n) = n := ofBytes_toBytes h

theorem ofBytes_leBytes64 {n : ℕ} (h : n < 2 ^ 64) : ofBytes (leBytes64 n) = n := ofBytes_toBytes h

/-- The type of a datagram that starts with it. -/
theorem packetType_of {src back : Bytes} {n : ℕ} (h : src = leBytes32 n ++ back) (hn : n < 2 ^ 32) :
    ofBytes (slice src 0 4) = n := by
  have hslice : slice src 0 4 = leBytes32 n :=
    slice_at [] back h rfl (by simp)
  rw [hslice, ofBytes_leBytes32 hn]

theorem not_type {src : Bytes} {n m : ℕ} {P : Prop} (h : ofBytes (slice src 0 4) = n)
    (hne : n ≠ m) : ¬ (ofBytes (slice src 0 4) = m ∧ P) := fun hm => hne (h.symm.trans hm.1)

theorem parse_handshakeInit {p : HandshakeInit} {macs src : Bytes}
    (hp : (Packet.handshakeInit p).Fits) (hmacs : macs.length = 32)
    (hsrc : src = (Packet.handshakeInit p).encode ++ macs) :
    parseIncomingPacket src = .ok (.handshakeInit p) := by
  obtain ⟨senderIdx, eph, static, stamp⟩ := p
  obtain ⟨hidx, heph, hstatic, hstamp⟩ := hp
  simp only at hidx heph hstatic hstamp
  simp only [Packet.encode, List.append_assoc] at hsrc
  have hlen : src.length = handshakeInitSz := by
    simp [hsrc, heph, hstatic, hstamp, hmacs, handshakeInitSz]
  have htype := packetType_of hsrc (by decide)
  have hsender : slice src 4 8 = leBytes32 senderIdx :=
    slice_at (leBytes32 handshakeInit) _ hsrc (by simp) (by simp)
  have hephemeral : slice src 8 40 = eph :=
    slice_at (leBytes32 handshakeInit ++ leBytes32 senderIdx) _
      (by simpa using hsrc) (by simp) (by omega)
  have hkey : slice src 40 88 = static :=
    slice_at (leBytes32 handshakeInit ++ leBytes32 senderIdx ++ eph) _
      (by simpa using hsrc) (by simp [heph]) (by omega)
  have htime : slice src 88 116 = stamp :=
    slice_at (leBytes32 handshakeInit ++ leBytes32 senderIdx ++ eph ++ static) _
      (by simpa using hsrc) (by simp [heph, hstatic]) (by omega)
  unfold parseIncomingPacket
  rw [if_neg (by rw [hlen]; decide), if_pos ⟨htype, hlen⟩, hsender, hephemeral, hkey, htime,
    ofBytes_leBytes32 hidx]

theorem parse_handshakeResponse {p : HandshakeResponse} {macs src : Bytes}
    (hp : (Packet.handshakeResponse p).Fits) (hmacs : macs.length = 32)
    (hsrc : src = (Packet.handshakeResponse p).encode ++ macs) :
    parseIncomingPacket src = .ok (.handshakeResponse p) := by
  obtain ⟨senderIdx, receiverIdx, eph, nothing⟩ := p
  obtain ⟨hidx, hridx, heph, hnothing⟩ := hp
  simp only at hidx hridx heph hnothing
  simp only [Packet.encode, List.append_assoc] at hsrc
  have hlen : src.length = handshakeRespSz := by
    simp [hsrc, heph, hnothing, hmacs, handshakeRespSz]
  have htype := packetType_of hsrc (by decide)
  have hsender : slice src 4 8 = leBytes32 senderIdx :=
    slice_at (leBytes32 handshakeResp) _ hsrc (by simp) (by simp)
  have hreceiver : slice src 8 12 = leBytes32 receiverIdx :=
    slice_at (leBytes32 handshakeResp ++ leBytes32 senderIdx) _
      (by simpa using hsrc) (by simp) (by simp)
  have hephemeral : slice src 12 44 = eph :=
    slice_at (leBytes32 handshakeResp ++ leBytes32 senderIdx ++ leBytes32 receiverIdx) _
      (by simpa using hsrc) (by simp) (by omega)
  have hempty : slice src 44 60 = nothing :=
    slice_at (leBytes32 handshakeResp ++ leBytes32 senderIdx ++ leBytes32 receiverIdx ++ eph) _
      (by simpa using hsrc) (by simp [heph]) (by omega)
  unfold parseIncomingPacket
  rw [if_neg (by rw [hlen]; decide), if_neg (not_type htype (by decide)), if_pos ⟨htype, hlen⟩,
    hsender,
    hreceiver, hephemeral, hempty, ofBytes_leBytes32 hidx, ofBytes_leBytes32 hridx]

theorem parse_packetCookieReply {p : PacketCookieReply} {src : Bytes}
    (hp : (Packet.packetCookieReply p).Fits) (hsrc : src = (Packet.packetCookieReply p).encode) :
    parseIncomingPacket src = .ok (.packetCookieReply p) := by
  obtain ⟨receiverIdx, nonce, cookie⟩ := p
  obtain ⟨hidx, hnonce, hcookie⟩ := hp
  simp only at hidx hnonce hcookie
  simp only [Packet.encode, List.append_assoc] at hsrc
  have hlen : src.length = cookieReplySz := by simp [hsrc, hnonce, hcookie, cookieReplySz]
  have htype := packetType_of hsrc (by decide)
  have hreceiver : slice src 4 8 = leBytes32 receiverIdx :=
    slice_at (leBytes32 cookieReply) _ hsrc (by simp) (by simp)
  have hnon : slice src 8 32 = nonce :=
    slice_at (leBytes32 cookieReply ++ leBytes32 receiverIdx) _
      (by simpa using hsrc) (by simp) (by omega)
  have hcook : slice src 32 64 = cookie :=
    slice_at (leBytes32 cookieReply ++ leBytes32 receiverIdx ++ nonce) []
      (by simpa using hsrc) (by simp [hnonce]) (by omega)
  unfold parseIncomingPacket
  rw [if_neg (by rw [hlen]; decide), if_neg (not_type htype (by decide)),
    if_neg (not_type htype (by decide)),
    if_pos ⟨htype, hlen⟩, hreceiver, hnon, hcook, ofBytes_leBytes32 hidx]

theorem parse_packetData {p : PacketData} {src : Bytes} (hp : (Packet.packetData p).Fits)
    (hsrc : src = (Packet.packetData p).encode) :
    parseIncomingPacket src = .ok (.packetData p) := by
  obtain ⟨receiverIdx, counter, packet⟩ := p
  obtain ⟨hidx, hcounter, hpacket⟩ := hp
  simp only at hidx hcounter hpacket
  simp only [Packet.encode, List.append_assoc] at hsrc
  have hlen : dataOverheadSz ≤ src.length := by
    rw [hsrc]
    simp only [List.length_append, length_leBytes32, length_leBytes64, dataOverheadSz]
    omega
  have hshort : ¬ src.length < 4 := by
    simp only [dataOverheadSz] at hlen
    omega
  have htype := packetType_of hsrc (by decide)
  have hreceiver : slice src 4 8 = leBytes32 receiverIdx :=
    slice_at (leBytes32 data) _ hsrc (by simp) (by simp)
  have hcount : slice src 8 16 = leBytes64 counter :=
    slice_at (leBytes32 data ++ leBytes32 receiverIdx) _
      (by simpa using hsrc) (by simp) (by simp)
  have hrest : src.drop 16 = packet := by
    have hfront :
        src = (leBytes32 data ++ leBytes32 receiverIdx ++ leBytes64 counter) ++ packet := by
      simpa using hsrc
    rw [hfront, List.drop_append_of_le_length (by simp), List.drop_eq_nil_of_le (by simp),
      List.nil_append]
  unfold parseIncomingPacket
  rw [if_neg hshort, if_neg (not_type htype (by decide)), if_neg (not_type htype (by decide)),
    if_neg (not_type htype (by decide)), if_pos ⟨htype, hlen⟩, hreceiver, hcount, hrest,
    ofBytes_leBytes32 hidx, ofBytes_leBytes64 hcounter]

/-- **A packet that was written is read back**, whatever MACs follow it. -/
theorem parseIncomingPacket_encode {p : Packet} {macs : Bytes} (hp : p.Fits)
    (hmacs : macs.length = p.macLength) : parseIncomingPacket (p.encode ++ macs) = .ok p := by
  cases p with
  | handshakeInit p => exact parse_handshakeInit hp hmacs rfl
  | handshakeResponse p => exact parse_handshakeResponse hp hmacs rfl
  | packetCookieReply p =>
    have hnil : macs = [] := List.length_eq_zero_iff.1 hmacs
    exact parse_packetCookieReply hp (by rw [hnil, List.append_nil])
  | packetData p =>
    have hnil : macs = [] := List.length_eq_zero_iff.1 hmacs
    exact parse_packetData hp (by rw [hnil, List.append_nil])

/-! ### Writing what was read -/

/-- The type of a datagram starts it. -/
theorem leBytes32_packetType {src : Bytes} {n : ℕ} (hlen : 4 ≤ src.length)
    (h : ofBytes (slice src 0 4) = n) : leBytes32 n = slice src 0 4 := by
  rw [← h]
  exact toBytes_slice (i := 0) (j := 4) (by decide) hlen

/-- **What is read from a datagram is what was written in it**: nothing else is read, and the
lengths are right. -/
theorem encode_of_parse {src : Bytes} {p : Packet} (h : parseIncomingPacket src = .ok p) :
    p.Fits ∧ ∃ macs, macs.length = p.macLength ∧ src = p.encode ++ macs := by
  unfold parseIncomingPacket at h
  split at h
  · cases h
  next hshort =>
  -- every field of four bytes is the number it is read as
  have hword : ∀ i, i + 4 ≤ src.length →
      ofBytes (slice src i (i + 4)) < 2 ^ 32 ∧
        leBytes32 (ofBytes (slice src i (i + 4))) = slice src i (i + 4) := by
    intro i hi
    have hlt := ofBytes_slice_lt (Nat.le_add_right i 4) hi
    have hback := toBytes_slice (Nat.le_add_right i 4) hi
    rw [Nat.add_sub_cancel_left] at hlt hback
    exact ⟨hlt, hback⟩
  have hwhole : slice src 0 4 ++ src.drop 4 = src := by
    have happend : slice src 0 4 ++ src.drop 4 = src.drop 0 := slice_append_drop (by decide)
    simpa using happend
  dsimp only at h
  -- the types in the order in which the code tries them
  split at h
  · next hinit =>
    obtain ⟨htype, hlen⟩ := hinit
    cases h
    have hl : src.length = 148 := hlen
    refine ⟨⟨(hword 4 (by omega)).1, ?_, ?_, ?_⟩, src.drop 116, by simp [hl, Packet.macLength], ?_⟩
    · exact length_slice (by decide) (by omega)
    · exact length_slice (by decide) (by omega)
    · exact length_slice (by decide) (by omega)
    · simp only [Packet.encode, List.append_assoc]
      rw [leBytes32_packetType (by omega) htype, (hword 4 (by omega)).2,
        slice_append_drop (by decide), slice_append_drop (by decide), slice_append_drop (by decide),
        slice_append_drop (by decide), hwhole]
  · split at h
    · next hresp =>
      obtain ⟨htype, hlen⟩ := hresp
      cases h
      have hl : src.length = 92 := hlen
      refine ⟨⟨(hword 4 (by omega)).1, (hword 8 (by omega)).1, ?_, ?_⟩, src.drop 60,
        by simp [hl, Packet.macLength], ?_⟩
      · exact length_slice (by decide) (by omega)
      · exact length_slice (by decide) (by omega)
      · simp only [Packet.encode, List.append_assoc]
        rw [leBytes32_packetType (by omega) htype, (hword 4 (by omega)).2, (hword 8 (by omega)).2,
          slice_append_drop (by decide), slice_append_drop (by decide),
          slice_append_drop (by decide), slice_append_drop (by decide), hwhole]
    · split at h
      · next hcookie =>
        obtain ⟨htype, hlen⟩ := hcookie
        cases h
        have hl : src.length = 64 := hlen
        refine ⟨⟨(hword 4 (by omega)).1, ?_, ?_⟩, [], rfl, ?_⟩
        · exact length_slice (by decide) (by omega)
        · exact length_slice (by decide) (by omega)
        · have hlast : slice src 32 64 = src.drop 32 := by
            rw [slice, List.take_of_length_le (by simp [hl])]
          simp only [Packet.encode, List.append_assoc, List.append_nil]
          rw [leBytes32_packetType (by omega) htype, (hword 4 (by omega)).2, hlast,
            slice_append_drop (by decide), slice_append_drop (by decide), hwhole]
      · split at h
        · next hdata =>
          obtain ⟨htype, hlen⟩ := hdata
          cases h
          have hl : 32 ≤ src.length := hlen
          have hlt : ofBytes (slice src 8 16) < 2 ^ (8 * (16 - 8)) :=
            ofBytes_slice_lt (by decide) (by omega)
          have hback : toBytes (16 - 8) (ofBytes (slice src 8 16)) = slice src 8 16 :=
            toBytes_slice (by decide) (by omega)
          refine ⟨⟨(hword 4 (by omega)).1, hlt, ?_⟩, [], rfl, ?_⟩
          · simp only [List.length_drop]
            omega
          · have hcounter : leBytes64 (ofBytes (slice src 8 16)) = slice src 8 16 := hback
            simp only [Packet.encode, List.append_assoc, List.append_nil]
            rw [leBytes32_packetType (by omega) htype, (hword 4 (by omega)).2, hcounter,
              slice_append_drop (by decide), slice_append_drop (by decide), hwhole]
        · cases h

/-- **A datagram is read as a packet exactly if it is the packet's bytes with its MACs.** -/
theorem parseIncomingPacket_iff (src : Bytes) (p : Packet) : parseIncomingPacket src = .ok p ↔
    p.Fits ∧ ∃ macs, macs.length = p.macLength ∧ src = p.encode ++ macs := by
  refine ⟨encode_of_parse, ?_⟩
  rintro ⟨hp, macs, hmacs, rfl⟩
  exact parseIncomingPacket_encode hp hmacs

end Tailcat.Noise
