import Tailcat.Noise.TunnRuns

/-!
# The first packet of a tunnel

A packet that is sent before there is a session waits for one.  It starts a handshake, and is
delivered at the other end after one round trip.

* `verifyPacket_passes` : a message with the first MAC for this end passes below the limit.
* `first_packet` : the four datagrams between two new tunnels, and the packet at the other end.

The proof follows the messages: each end's call has a lemma that says what it answers and what the
tunnel is afterwards, as far as the next call needs it, and `Handshake.agree_signed` joins the two.
Both ends are new, none of the datagrams is lost, and the initiator's clock shows a time that a new
responder accepts; what the network may do otherwise is in the results about runs.
-/

namespace Tailcat.Noise

open Handshake (Signed)

variable {P : LimiterPrimitives}

namespace RateLimiter

variable {r : RateLimiter} {src : Bytes} {packet : Packet} {senderIdx : ℕ}

/-- A handshake message passes with a first MAC for this end, below the limit. -/
theorem verifyPacket_passes (srcAddr : Option Net.IpAddr) (now : ℕ)
    (hsigned : Signed P.toPrimitives r.mac1Key src)
    (hparse : parseIncomingPacket src = .ok packet) (hsender : senderOf packet = some senderIdx)
    (hlt : r.count < r.limit) : r.verifyPacket P srcAddr src now = (.ok packet, r.counted) := by
  obtain ⟨front, macs, rfl, hlen, hmac⟩ := hsigned
  have hfront : (front ++ macs).length - 32 = front.length := by
    rw [List.length_append, hlen, Nat.add_sub_cancel]
  have hsig : signed (front ++ macs) = front := by
    rw [signed, hfront, List.take_left]
  have hfirst : firstMac (front ++ macs) = macs.take 16 := by
    rw [firstMac, hfront, List.drop_left]
  have hmacs : r.verifyMacs P senderIdx srcAddr (front ++ macs) now = (none, r.counted) := by
    have hload : r.isUnderLoad = (false, r.counted) := by simp [isUnderLoad, hlt]
    -- the limiter checks the first MAC over what precedes it, with the key of this end
    unfold verifyMacs
    rw [hsig, hfirst, hmac, hload]
    simp
  unfold verifyPacket
  simp only [hparse, hsender, hmacs]

end RateLimiter

/-- What an end sends first in a session is read at the other end. -/
theorem Session.Crossed.receives {aead : Aead} {s s' : Session} (hcrossed : s.Crossed s')
    (haead : aead.Correct) (src : Bytes) {counter room : ℕ} (hcounter : counter + nBits < u64)
    (hroom : src.length + dataOverheadSz ≤ room) :
    ∃ v, s'.receivePacketData aead
      (Session.outgoing aead { s with sendingKeyCounter := counter } counter src) room =
        some (.ok src, { s' with receivingKeyCounter := v }) := by
  have hwindow : s'.receivingKeyCounter.Refines [] := hcrossed.rightNew.2 ▸ .initial
  have hlength : (Session.sealed aead { s with sendingKeyCounter := counter } counter src).length =
      src.length + 16 := haead.length ..
  have hfits : src.length + 16 ≤ src.length + dataOverheadSz := Nat.add_le_add_left (by decide) _
  have hopen : s'.opened aead
      (Session.outgoing aead { s with sendingKeyCounter := counter } counter src) = some src := by
    unfold Session.opened
    rw [← hcrossed.toRight]
    exact haead.opens ..
  obtain ⟨v, hread, -⟩ := Session.receivePacketData_ok hwindow
    (hlength ▸ hfits.trans hroom) hcrossed.leftIndex ⟨by simp, by simp⟩ hopen hcounter
  exact ⟨v, hread⟩

namespace Tunn

variable {t : Tunn} {call : Call} {src : Bytes}

/-- A packet without a session waits, and starts a handshake. -/
theorem encapsulate_starts (src : Bytes) {message : Bytes} {waiting : Handshake}
    (hs : t.sessions (slot t.current) = none) (hqueue : t.packetQueue = [])
    (hstate : t.handshake.state = .none)
    (hformat : t.handshake.formatHandshakeInitiation P.toPrimitives call.ephemeral call.now
      call.room = (.ok message, waiting)) :
    ∃ t', t.encapsulate P src call = some (.writeToNetwork message, t') ∧ t'.handshake = waiting ∧
      t'.packetQueue = [src] ∧ t'.rateLimiter = t.rateLimiter ∧ t'.sessions = t.sessions := by
  have hwaits : t.queuePacket src = { t with packetQueue := [src] }.act (.waits src) := by
    simp [queuePacket, hqueue, maxQueueDepth]
  rw [encapsulate_of_none hs, hwaits]
  have hprogress : t.handshake.isInProgress = false := by simp [Handshake.isInProgress, hstate]
  have hexpired : t.handshake.isExpired = false := by simp [Handshake.isExpired, hstate]
  unfold formatHandshakeInitiation
  simp only [act, hprogress, hexpired, Bool.false_eq_true, false_and, if_false, hformat]
  exact ⟨_, rfl, rfl, rfl, rfl, rfl⟩

/-- A handshake message that passes is handled. -/
theorem decapsulate_passes (call : Call) (srcAddr : Option Net.IpAddr) {message : Bytes}
    {packet : Packet} {senderIdx : ℕ}
    (hsigned : Signed P.toPrimitives t.rateLimiter.mac1Key message)
    (hparse : parseIncomingPacket message = .ok packet)
    (hsender : RateLimiter.senderOf packet = some senderIdx)
    (hlt : t.rateLimiter.count < t.rateLimiter.limit) :
    t.decapsulate P srcAddr message call =
      { t with rateLimiter := t.rateLimiter.counted }.handleVerifiedPacket P packet call := by
  have hne : message.isEmpty = false := by
    obtain ⟨front, macs, rfl, hlen, -⟩ := hsigned
    cases front with
    | cons b front => rfl
    | nil =>
      cases macs with
      | cons b macs => rfl
      | nil => cases hlen
  unfold decapsulate
  rw [hne, RateLimiter.verifyPacket_passes srcAddr call.now hsigned hparse hsender hlt]
  rfl

/-- An initiation is answered, and its session established. -/
theorem handleHandshakeInit_ok {init : HandshakeInit} {reply : Bytes} {session : Session}
    {handshake : Handshake}
    (hreceive : t.handshake.receiveHandshakeInitialization P.toPrimitives init call.ephemeral
      call.room = some (.ok (reply, session), handshake)) :
    ∃ t', t.handleHandshakeInit P init call = some (.writeToNetwork reply, t') ∧
      t'.sessions (slot session.receivingIndex) = some session := by
  unfold handleHandshakeInit
  simp only [hreceive, Option.bind_eq_bind, Option.bind_some]
  exact ⟨_, rfl, Function.update_self ..⟩

/-- The session that is established becomes the current one, if it is the only one. -/
theorem setCurrentSession_current {newIdx : ℕ}
    (honly : ∀ i, i ≠ slot newIdx → t.sessions i = none) :
    (t.setCurrentSession newIdx).current = newIdx := by
  unfold setCurrentSession
  split
  · next heq => exact heq
  · split
    · rfl
    · next hkeep =>
      refine absurd ?_ hkeep
      -- the current slot is the new one, or it is empty
      by_cases hslot : slot t.current = slot newIdx
      · exact .inr (by rw [hslot])
      · exact .inl (by rw [honly _ hslot]; rfl)

/-- A response is read: its session is established, and a keepalive sent in it. -/
theorem handleHandshakeResponse_ok (call : Call) {resp : HandshakeResponse} {session : Session}
    {handshake : Handshake} (hnone : ∀ i, t.sessions i = none)
    (hroom : dataOverheadSz ≤ call.room) (hcounter : session.sendingKeyCounter = 0)
    (hreceive : t.handshake.receiveHandshakeResponse P.toPrimitives resp call.now =
      (.ok session, handshake)) :
    ∃ keepalive t', t.handleHandshakeResponse P resp call = some (.writeToNetwork keepalive, t') ∧
      t'.sessions (slot t'.current) = some { session with sendingKeyCounter := 1 } ∧
      t'.packetQueue = t.packetQueue := by
  have hformat : session.formatPacketData P.aead [] call.room = some _ :=
    Session.formatPacketData_eq (by simpa using hroom) (by rw [hcounter]; decide)
  unfold handleHandshakeResponse
  simp only [hreceive, hformat, Option.bind_eq_bind, Option.bind_some]
  refine ⟨_, _, rfl, ?_, (frame_setCurrentSession _ _).queue⟩
  rw [setCurrentSession_current, (frame_setCurrentSession _ _).sessions, hcounter]
  · exact Function.update_self ..
  · intro i hi
    exact (Function.update_of_ne hi ..).trans (hnone i)

theorem encapsulate_seals {s : Session} (hs : t.sessions (slot t.current) = some s)
    (hroom : src.length + dataOverheadSz ≤ call.room) (hcounter : s.sendingKeyCounter + 1 < u64) :
    ∃ t', t.encapsulate P src call = some (.writeToNetwork
      (Packet.packetData (s.outgoing P.aead s.sendingKeyCounter src)).encode, t') := by
  unfold encapsulate
  rw [hs]
  simp only [Session.formatPacketData_eq hroom hcounter, Option.bind_eq_bind, Option.bind_some]
  exact ⟨_, rfl⟩

/-- The packet that waits is sent. -/
theorem sendQueuedPacket_ok (call : Call) (srcAddr : Option Net.IpAddr) {s : Session}
    (hqueue : t.packetQueue = [src]) (hs : t.sessions (slot t.current) = some s)
    (hroom : src.length + dataOverheadSz ≤ call.room) (hcounter : s.sendingKeyCounter + 1 < u64) :
    ∃ t', t.decapsulate P srcAddr [] call = some (.writeToNetwork
      (Packet.packetData (s.outgoing P.aead s.sendingKeyCounter src)).encode, t') := by
  obtain ⟨t', hseals⟩ := encapsulate_seals (P := P) (t := t.dequeued src []) hs hroom hcounter
  have hsend : t.decapsulate P srcAddr [] call = t.sendQueuedPacket P call := rfl
  rw [hsend]
  unfold sendQueuedPacket
  rw [hqueue]
  simp only [hseals, Option.bind_eq_bind, Option.bind_some]
  exact ⟨_, rfl⟩

theorem validateDecapsulatedPacket_ok {packet : Bytes} {len : ℕ} {write : Bytes → TunnResult}
    (hheader : ipHeader packet = some (len, write)) (hlen : len ≤ packet.length) :
    ∃ t', t.validateDecapsulatedPacket packet = (write (packet.take len), t') := by
  -- no header can be read from an empty packet, which would be a keepalive
  cases packet with
  | nil => cases hheader
  | cons b packet =>
    unfold validateDecapsulatedPacket
    simp only [hheader, if_neg (Nat.not_lt.2 hlen)]
    exact ⟨_, rfl⟩

/-- A data packet that its session delivers is handed out. -/
theorem decapsulate_data (call : Call) (srcAddr : Option Net.IpAddr) {packet : PacketData}
    {s s' : Session} {message : Bytes} {len : ℕ} {write : Bytes → TunnResult}
    (hs : t.sessions (slot packet.receiverIdx) = some s)
    (hfits : (Packet.packetData packet).Fits)
    (hread : s.receivePacketData P.aead packet call.room = some (.ok message, s'))
    (hheader : ipHeader message = some (len, write)) (hlen : len ≤ message.length) :
    ∃ t', t.decapsulate P srcAddr (Packet.packetData packet).encode call =
      some (write (message.take len), t') := by
  have hne : (Packet.packetData packet).encode.isEmpty = false := rfl
  have hverify : t.rateLimiter.verifyPacket P srcAddr (Packet.packetData packet).encode call.now =
      (.ok (.packetData packet), t.rateLimiter) := by
    unfold RateLimiter.verifyPacket
    rw [parse_packetData hfits rfl]
    rfl
  unfold decapsulate
  rw [hne, hverify]
  simp only [handleVerifiedPacket, handleData, hs, hread, Option.bind_eq_bind, Option.bind_some]
  obtain ⟨t', ht'⟩ := validateDecapsulatedPacket_ok (t := (((t.act
    (.opens s.receiver packet.counter message)).setSession packet.receiverIdx
      (some s')).setCurrentSession packet.receiverIdx).tick .timeLastPacketReceived) hheader hlen
  exact ⟨t', congrArg some ht'⟩

/-- **The first packet arrives**: between two new tunnels that know each other's keys, a packet
starts a handshake, waits for its session, and is handed out at the other end after one round
trip. -/
theorem first_packet (P : LimiterPrimitives) (hP : P.toPrimitives.Correct) (a b : Bytes)
    (psk : Option Bytes) (keepalive keepalive' : Option ℕ)
    (nonceKey secretKey nonceKey' secretKey' : Bytes)
    (index index' durationAtStart durationAtStart' start start' : ℕ)
    (srcAddr srcAddr' : Option Net.IpAddr) (src : Bytes) (len : ℕ) (write : Bytes → TunnResult)
    (hheader : ipHeader src = some (len, write)) (hlen : len ≤ src.length)
    (c₁ c₂ c₃ c₄ c₅ : Call)
    (hroom : ∀ c ∈ [c₁, c₂, c₃, c₄, c₅],
      handshakeInitSz ≤ c.room ∧ src.length + dataOverheadSz ≤ c.room)
    (hfresh : (Tai64N.parse ((⟨durationAtStart, start⟩ : TimeStamper).stamp c₁.now)).after
      .zero = true) :
    ∃ m₁ m₂ m₃ m₄ a₁ a₂ a₃ b₁ b₂,
      (new P a (P.publicKey b) psk keepalive index none nonceKey secretKey durationAtStart
        start).encapsulate P src c₁ = some (.writeToNetwork m₁, a₁) ∧
      (new P b (P.publicKey a) psk keepalive' index' none nonceKey' secretKey' durationAtStart'
        start').decapsulate P srcAddr m₁ c₂ = some (.writeToNetwork m₂, b₁) ∧
      a₁.decapsulate P srcAddr' m₂ c₃ = some (.writeToNetwork m₃, a₂) ∧
      a₂.decapsulate P srcAddr' [] c₄ = some (.writeToNetwork m₄, a₃) ∧
      b₁.decapsulate P srcAddr m₄ c₅ = some (write (src.take len), b₂) := by
  obtain ⟨h₁, h₂, h₃, h₄, h₅⟩ : (handshakeInitSz ≤ c₁.room ∧ _) ∧ (handshakeInitSz ≤ c₂.room ∧ _) ∧
      (handshakeInitSz ≤ c₃.room ∧ _) ∧ (handshakeInitSz ≤ c₄.room ∧ _) ∧
      (handshakeInitSz ≤ c₅.room ∧ src.length + dataOverheadSz ≤ c₅.room) :=
    ⟨hroom c₁ (by simp), hroom c₂ (by simp), hroom c₃ (by simp), hroom c₄ (by simp),
      hroom c₅ (by simp)⟩
  -- the handshake
  obtain ⟨m₁, waiting, init, m₂, session, responder, resp, hwrite, hparse, hreceive, hparse',
    ⟨s, hstate, -⟩, hparams, hsigned, hsigned', hread⟩ := Handshake.agree_signed P.toPrimitives hP
      (new P a (P.publicKey b) psk keepalive index none nonceKey secretKey durationAtStart
        start).handshake
      (new P b (P.publicKey a) psk keepalive' index' none nonceKey' secretKey' durationAtStart'
        start').handshake a b psk rfl rfl (Nat.mod_lt _ (by decide)) (Nat.mod_lt _ (by decide))
      c₁.ephemeral c₂.ephemeral c₁.now c₁.room c₂.room h₁.1
      (le_trans (by decide : handshakeRespSz ≤ handshakeInitSz) h₂.1) hfresh
  obtain ⟨a₁, hencapsulate, hwaiting, hqueue, hlimiter, hsessions⟩ :=
    encapsulate_starts (P := P) src rfl rfl rfl hwrite
  -- the initiation arrives
  have hinit := decapsulate_passes (P := P) (t := new P b (P.publicKey a) psk keepalive' index' none
    nonceKey' secretKey' durationAtStart' start') c₂ srcAddr hsigned hparse rfl
    (by decide : 0 < peerHandshakeRateLimit)
  obtain ⟨b₁, hanswer, hsession⟩ := handleHandshakeInit_ok (t := { new P b (P.publicKey a) psk
    keepalive' index' none nonceKey' secretKey' durationAtStart' start' with
      rateLimiter := RateLimiter.counted _ }) hreceive
  -- the response arrives
  obtain ⟨session', later, hread', hcrossed⟩ := hread s waiting c₃.now hstate hparams (.inl hstate)
  have hresp := decapsulate_passes (P := P) (t := a₁) c₃ srcAddr'
    (by rw [hlimiter]; exact hsigned') hparse' rfl
    (by rw [hlimiter]; exact (by decide : 0 < peerHandshakeRateLimit))
  obtain ⟨m₃, a₂, hkeepalive, hcurrent, hqueue'⟩ := handleHandshakeResponse_ok (P := P)
    (t := { a₁ with rateLimiter := a₁.rateLimiter.counted }) c₃
    (by rw [hsessions]; exact fun _ => rfl) ((Nat.le_add_left ..).trans h₃.2) hcrossed.leftNew.1
    (by rw [hwaiting]; exact hread')
  -- the packet is sent, and handed out
  obtain ⟨a₃, hsend⟩ := sendQueuedPacket_ok (P := P) c₄ srcAddr' (hqueue'.trans hqueue) hcurrent
    h₄.2 (by decide : 1 + 1 < u64)
  obtain ⟨v, hopen⟩ := hcrossed.receives hP.aead src (by decide : 1 + nBits < u64) h₅.2
  have hslot : b₁.sessions (slot session'.sendingIndex) = some session := by
    rw [hcrossed.leftIndex]
    exact hsession
  obtain ⟨b₂, hdeliver⟩ := decapsulate_data (P := P) c₅ srcAddr hslot
    (Session.outgoing_fits hP.aead hcrossed.leftLt (by decide)) hopen hheader hlen
  exact ⟨m₁, m₂, m₃, _, a₁, a₂, a₃, b₁, b₂, hencapsulate, hinit.trans hanswer,
    hresp.trans hkeepalive, hsend, hdeliver⟩

/-- An IPv4 packet without a payload. -/
def samplePacket : Bytes := [69, 0, 0, 20, 0, 0, 0, 0, 64, 17, 0, 0, 10, 0, 0, 1, 10, 0, 0, 2]

theorem first_packet_sample : ∃ m₁ m₂ m₃ m₄ a₁ a₂ a₃ b₁ b₂,
    (new sampleLimiter [1] (samplePrimitives.publicKey [2]) none none 1 none [8] [9]
      1700000000000000000 1000000000).encapsulate sampleLimiter samplePacket sampleCall =
        some (.writeToNetwork m₁, a₁) ∧
    (new sampleLimiter [2] (samplePrimitives.publicKey [1]) none none 2 none [8] [9]
      1700000000000000000 1000000000).decapsulate sampleLimiter none m₁ sampleCall =
        some (.writeToNetwork m₂, b₁) ∧
    a₁.decapsulate sampleLimiter none m₂ sampleCall = some (.writeToNetwork m₃, a₂) ∧
    a₂.decapsulate sampleLimiter none [] sampleCall = some (.writeToNetwork m₄, a₃) ∧
    b₁.decapsulate sampleLimiter none m₄ sampleCall =
      some (.writeToTunnelV4 samplePacket [10, 0, 0, 1], b₂) :=
  first_packet sampleLimiter samplePrimitives_correct [1] [2] none none none [8] [9] [8] [9] 1 2
    1700000000000000000 1700000000000000000 1000000000 1000000000 none none samplePacket 20
    (fun b => .writeToTunnelV4 b [10, 0, 0, 1]) rfl (by decide) sampleCall sampleCall sampleCall
    sampleCall sampleCall (by decide) (by decide)

end Tunn

end Tailcat.Noise
