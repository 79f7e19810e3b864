import Tailcat.Noise.Handshake

/-!
# The two ends of a handshake agree

An end initiates a handshake, the other responds, and the first reads the response, at once or
after it has written another initiation: the state that waits is kept in `previous` then, and found
again by its index, which differs from the new one.

Each message has a lemma that says what is written and the state left behind (`…_spec`).  The proof
of the agreement goes through them in the order of the messages: the secrets of the two sides are
equal by the law of the curve, hence so are the hashes and the chaining keys, and what one seals the
other opens.

* `openInitiation_initiation` : the responder finds in an initiation what the initiator put there.
* `awaits_initiation` : an end that initiates again still waits for the response to the first.
* `agree` : both ends then have a session, with each other's keys and indices.

The two ends have each other's public keys and the same preshared key, and the responder has not
accepted a later timestamp.  Nothing is said of an end that has initiated twice in the meantime: it
keeps one handshake besides the current one.
-/

namespace Tailcat.Noise

namespace Primitives

variable {P : Primitives} {key message aad : Bytes}

theorem disclose_enclose (hP : P.Correct) :
    P.disclose key (P.enclose key message aad) aad = .ok message := by
  simp only [disclose, enclose, hP.aead.opens]

theorem length_enclose (hP : P.Correct) :
    (P.enclose key message aad).length = message.length + 16 := hP.aead.length ..

end Primitives

@[simp] theorem TimeStamper.length_stamp (t : TimeStamper) (now : ℕ) :
    (t.stamp now).length = 12 := by
  simp [TimeStamper.stamp]

namespace Handshake

variable {P : Primitives} {h : Handshake} {room : ℕ}

/-- What an initiation seals has the lengths of its format. -/
theorem length_initiation (hP : P.Correct)
    (staticPublic ephemeralSecret staticSecret eph peer timestamp : Bytes)
    (hstatic : staticPublic.length = 32) (htime : timestamp.length = 12) :
    let i := initiation P staticPublic ephemeralSecret staticSecret eph peer timestamp
    i.2.2.1.length = 48 ∧ i.2.2.2.length = 28 := by
  simp only [initiation, Primitives.length_enclose hP, hstatic, htime]
  decide

/-- **The responder finds in an initiation what the initiator put there.** -/
theorem openInitiation_initiation (hP : P.Correct) (idx : ℕ)
    {staticPublic ephemeralSecret eph timestamp : Bytes}
    (hpeer : h.params.peerStaticPublic = staticPublic)
    (hsecret : P.diffieHellman h.params.staticPrivate eph = ephemeralSecret)
    (hfresh : (Tai64N.parse timestamp).after h.lastHandshakeTimestamp = true) :
    let i := initiation P staticPublic ephemeralSecret h.params.staticShared eph
      h.params.staticPublic timestamp
    h.openInitiation P ⟨idx, eph, i.2.2.1, i.2.2.2⟩ = .ok (Tai64N.parse timestamp, i.1, i.2.1) := by
  subst hpeer hsecret
  unfold openInitiation initiation
  simp only [Primitives.disclose_enclose hP, hfresh, ne_eq, not_true_eq_false, if_false, if_true]

/-- A message with its two MACs, the first one under a key. -/
def Signed (P : Primitives) (key message : Bytes) : Prop :=
  ∃ front macs, message = front ++ macs ∧ macs.length = 32 ∧ macs.take 16 = P.mac16 key front

theorem length_macs (hP : P.Correct) (localIndex : ℕ) (message : Bytes) :
    ∃ macs h', h.appendMac1AndMac2 P localIndex message = (message ++ macs, h') ∧
      macs.length = 32 ∧ h'.params = h.params ∧ h'.state = h.state ∧ h'.previous = h.previous ∧
      h'.nextIndex = h.nextIndex ∧ h'.lastHandshakeTimestamp = h.lastHandshakeTimestamp ∧
      macs.take 16 = P.mac16 h.params.sendingMac1Key message := by
  refine ⟨_, _, rfl, ?_, rfl, rfl, rfl, rfl, rfl, List.take_left' (hP.mac16Length ..)⟩
  have hmac2 : (h.mac2 P (message ++ h.mac1 P message)).length = 16 := by
    unfold mac2
    split
    · exact hP.mac16Length ..
    · rfl
  rw [List.length_append, hmac2, mac1, hP.mac16Length]

/-- **An initiation is written**: its bytes, and the state that waits for the response. -/
theorem formatHandshakeInitiation_spec (hP : P.Correct) (ephemeralPrivate : Bytes) (now : ℕ)
    (hroom : handshakeInitSz ≤ room) :
    let i := initiation P h.params.staticPublic
      (P.diffieHellman ephemeralPrivate h.params.peerStaticPublic) h.params.staticShared
      (P.publicKey ephemeralPrivate) h.params.peerStaticPublic (h.stamper.stamp now)
    ∃ macs h', h.formatHandshakeInitiation P ephemeralPrivate now room =
        (.ok ((Packet.handshakeInit
          ⟨h.incIndex.1, P.publicKey ephemeralPrivate, i.2.2.1, i.2.2.2⟩).encode ++ macs), h') ∧
      macs.length = 32 ∧ h'.params = h.params ∧
      h'.state = .initSent ⟨h.incIndex.1, i.1, i.2.1, ephemeralPrivate, now⟩ ∧
      h'.previous = h.state ∧ h'.nextIndex = h.incIndex.1 ∧
      macs.take 16 = P.mac16 h.params.sendingMac1Key (Packet.handshakeInit
        ⟨h.incIndex.1, P.publicKey ephemeralPrivate, i.2.2.1, i.2.2.2⟩).encode := by
  intro i
  unfold formatHandshakeInitiation
  rw [if_neg (by omega)]
  obtain ⟨macs, h', hmacs, hlen, hparams, hstate, hprevious, hindex, -, hfirst⟩ :=
    length_macs (h := { h.incIndex.2 with
      previous := h.state
      state := .initSent ⟨h.incIndex.1, i.1, i.2.1, ephemeralPrivate, now⟩ }) hP h.incIndex.1
      (Packet.handshakeInit
        ⟨h.incIndex.1, P.publicKey ephemeralPrivate, i.2.2.1, i.2.2.2⟩).encode
  refine ⟨macs, h', ?_, hlen, hparams, hstate, hprevious, hindex, hfirst⟩
  exact congrArg (fun r : Bytes × Handshake => (Except.ok r.1, r.2)) hmacs

/-- **An initiation is answered**: the bytes of the response, and the session. -/
theorem receiveHandshakeInitialization_spec (hP : P.Correct) {packet : HandshakeInit}
    {timestamp : Tai64N} {hash chainingKey : Bytes} (ephemeralPrivate : Bytes)
    (hroom : handshakeRespSz ≤ room)
    (hopen : h.openInitiation P packet = .ok (timestamp, hash, chainingKey)) :
    let r := response P hash chainingKey (P.publicKey ephemeralPrivate)
      (P.diffieHellman ephemeralPrivate packet.unencryptedEphemeral)
      (P.diffieHellman ephemeralPrivate h.params.peerStaticPublic) h.params.presharedKey
    ∃ macs h', h.receiveHandshakeInitialization P packet ephemeralPrivate room =
        some (.ok ((Packet.handshakeResponse ⟨h.incIndex.1, packet.senderIdx,
            P.publicKey ephemeralPrivate, P.enclose r.1.1 [] r.1.2⟩).encode ++ macs,
          .new h.incIndex.1 packet.senderIdx r.2.1 r.2.2), h') ∧
      macs.length = 32 ∧ h'.params = h.params ∧ h'.lastHandshakeTimestamp = timestamp ∧
      macs.take 16 = P.mac16 h.params.sendingMac1Key (Packet.handshakeResponse ⟨h.incIndex.1,
        packet.senderIdx, P.publicKey ephemeralPrivate, P.enclose r.1.1 [] r.1.2⟩).encode := by
  intro r
  unfold receiveHandshakeInitialization
  rw [hopen]
  simp only
  unfold formatHandshakeResponse
  rw [if_neg (by omega)]
  obtain ⟨macs, h', hmacs, hlen, hparams, -, -, -, hlast, hfirst⟩ :=
    length_macs (h := { h.incIndex.2 with
      lastHandshakeTimestamp := timestamp, previous := h.state, state := .none }) hP h.incIndex.1
      (Packet.handshakeResponse ⟨h.incIndex.1, packet.senderIdx, P.publicKey ephemeralPrivate,
        P.enclose r.1.1 [] r.1.2⟩).encode
  refine ⟨macs, h', ?_, hlen, hparams, hlast, hfirst⟩
  exact congrArg (fun m : Bytes × Handshake => some (Except.ok (m.1,
    Session.new h.incIndex.1 packet.senderIdx r.2.1 r.2.2), m.2)) hmacs

/-- The end waits for a response to the initiation, sent last or before the last. -/
def Awaits (h : Handshake) (s : HandshakeInitSentState) : Prop :=
  h.state = .initSent s ∨ (h.previous = .initSent s ∧
    ∀ s', h.state = .initSent s' → s'.localIndex ≠ s.localIndex)

theorem Awaits.awaited {s : HandshakeInitSentState} (hs : h.Awaits s) :
    ∃ isPrevious, h.awaited s.localIndex = some (s, isPrevious) := by
  unfold Handshake.awaited
  rcases hs with hstate | ⟨hprevious, hother⟩
  · rw [hstate]
    cases h.previous with
    | initSent s' => exact ⟨false, by simp⟩
    | none => exact ⟨false, by simp⟩
    | initReceived hash ck eph idx => exact ⟨false, by simp⟩
    | expired => exact ⟨false, by simp⟩
  · rw [hprevious]
    cases hstate : h.state with
    | initSent s' =>
      have hne := hother s' hstate
      exact ⟨true, by simp [hne]⟩
    | none => exact ⟨true, by simp⟩
    | initReceived hash ck eph idx => exact ⟨true, by simp⟩
    | expired => exact ⟨true, by simp⟩

/-- The low byte of the index changes, so two initiations in a row have different indices. -/
theorem incIndex_ne : h.incIndex.1 ≠ h.nextIndex := by
  simp only [incIndex]
  omega

/-- **An end that initiates again still waits** for the response to the last initiation; a message
that does not fit into the buffer changes nothing. -/
theorem awaits_initiation (hP : P.Correct) {s : HandshakeInitSentState}
    (hstate : h.state = .initSent s) (hindex : s.localIndex = h.nextIndex)
    (ephemeralPrivate : Bytes) (now room : ℕ) :
    (h.formatHandshakeInitiation P ephemeralPrivate now room).2.params = h.params ∧
      (h.formatHandshakeInitiation P ephemeralPrivate now room).2.Awaits s := by
  by_cases hroom : handshakeInitSz ≤ room
  · obtain ⟨macs, h', hwrite, -, hparams, hstate', hprevious, -, -⟩ :=
      formatHandshakeInitiation_spec (h := h) hP ephemeralPrivate now hroom
    rw [hwrite]
    refine ⟨hparams, .inr ⟨hprevious.trans hstate, fun s' hs' heq => ?_⟩⟩
    -- the new initiation has the next index
    rw [hstate'] at hs'
    cases hs'
    exact incIndex_ne (heq.trans hindex)
  · unfold formatHandshakeInitiation
    rw [if_pos (by omega)]
    exact ⟨rfl, .inl hstate⟩

/-- **A response is read**: the session. -/
theorem receiveHandshakeResponse_spec (hP : P.Correct) {s : HandshakeInitSentState}
    (senderIdx now : ℕ) {eph ephemeralSecret staticSecret : Bytes} (hs : h.Awaits s)
    (hephemeral : P.diffieHellman s.ephemeralPrivate eph = ephemeralSecret)
    (hstatic : P.diffieHellman h.params.staticPrivate eph = staticSecret) :
    let r := response P s.hash s.chainingKey eph ephemeralSecret staticSecret h.params.presharedKey
    ∃ h', h.receiveHandshakeResponse P
        ⟨senderIdx, s.localIndex, eph, P.enclose r.1.1 [] r.1.2⟩ now =
          (.ok (.new s.localIndex senderIdx r.2.2 r.2.1), h') := by
  subst hephemeral hstatic
  intro r
  obtain ⟨isPrevious, hawaited⟩ := hs.awaited
  unfold receiveHandshakeResponse
  simp only [hawaited, Primitives.disclose_enclose hP, r]
  exact ⟨_, rfl⟩

theorem incIndex_lt (hidx : h.nextIndex < 2 ^ 32) : h.incIndex.1 < 2 ^ 32 := by
  simp only [incIndex]
  omega

/-- The two ends agree, and their messages have the MACs that let them pass. -/
theorem agree_signed (P : Primitives) (hP : P.Correct) (initiator responder : Handshake)
    (a b : Bytes) (psk : Option Bytes)
    (hinitiator : initiator.params = .new P a (P.publicKey a) (P.publicKey b) psk)
    (hresponder : responder.params = .new P b (P.publicKey b) (P.publicKey a) psk)
    (hidx : initiator.nextIndex < 2 ^ 32) (hidx' : responder.nextIndex < 2 ^ 32)
    (ephemeral ephemeral' : Bytes) (now room room' : ℕ) (hroom : handshakeInitSz ≤ room)
    (hroom' : handshakeRespSz ≤ room')
    (hfresh : (Tai64N.parse (initiator.stamper.stamp now)).after
      responder.lastHandshakeTimestamp = true) :
    ∃ message waiting init reply session responder' resp,
      initiator.formatHandshakeInitiation P ephemeral now room = (.ok message, waiting) ∧
      parseIncomingPacket message = .ok (.handshakeInit init) ∧
      responder.receiveHandshakeInitialization P init ephemeral' room' =
        some (.ok (reply, session), responder') ∧
      parseIncomingPacket reply = .ok (.handshakeResponse resp) ∧
      (∃ s, waiting.state = .initSent s ∧ s.localIndex = waiting.nextIndex) ∧
      waiting.params = initiator.params ∧
      Signed P (P.hash labelMac1 (P.publicKey b)) message ∧
      Signed P (P.hash labelMac1 (P.publicKey a)) reply ∧
      ∀ (s : HandshakeInitSentState) (later : Handshake) (now' : ℕ), waiting.state = .initSent s →
        later.params = initiator.params → later.Awaits s → ∃ session' later',
          later.receiveHandshakeResponse P resp now' = (.ok session', later') ∧
            session'.Crossed session := by
  obtain ⟨macs, waiting, hwrite, hmacs, hparams, hwaiting, -, hindex, hfirst⟩ :=
    formatHandshakeInitiation_spec (h := initiator) hP ephemeral now hroom
  rw [hinitiator] at hwrite hwaiting hfirst
  simp only [NoiseParams.new] at hwrite hwaiting hfirst
  -- what the responder needs to find the same keys
  have hpeer : responder.params.peerStaticPublic = P.publicKey a := by rw [hresponder]; rfl
  have hown : responder.params.staticPublic = P.publicKey b := by rw [hresponder]; rfl
  have hshared : responder.params.staticShared = P.diffieHellman a (P.publicKey b) := by
    rw [hresponder]
    exact hP.shared b a
  have hsecret : P.diffieHellman responder.params.staticPrivate (P.publicKey ephemeral) =
      P.diffieHellman ephemeral (P.publicKey b) := by
    rw [hresponder]
    exact hP.shared b ephemeral
  have hopen := openInitiation_initiation hP initiator.incIndex.1 hpeer hsecret hfresh
  rw [hown, hshared] at hopen
  simp only at hopen
  obtain ⟨macs', responder', hreply, hmacs', -, -, hfirst'⟩ :=
    receiveHandshakeInitialization_spec (h := responder) hP ephemeral' hroom' hopen
  rw [hresponder] at hreply hfirst'
  simp only [NoiseParams.new] at hreply hfirst'
  have hlengths := length_initiation hP (P.publicKey a)
    (P.diffieHellman ephemeral (P.publicKey b)) (P.diffieHellman a (P.publicKey b))
    (P.publicKey ephemeral) (P.publicKey b) (initiator.stamper.stamp now) (hP.publicKeyLength a)
    (TimeStamper.length_stamp ..)
  have hinit : (Packet.handshakeInit ⟨initiator.incIndex.1, P.publicKey ephemeral, _, _⟩).Fits :=
    ⟨incIndex_lt hidx, hP.publicKeyLength ephemeral, hlengths.1, hlengths.2⟩
  refine ⟨_, waiting, _, _, _, responder', _, hwrite, parse_handshakeInit hinit hmacs rfl, hreply,
    parse_handshakeResponse ⟨incIndex_lt hidx', incIndex_lt hidx,
      hP.publicKeyLength ephemeral', Primitives.length_enclose hP⟩ hmacs' rfl,
    ⟨_, hwaiting, hindex.symm⟩, hparams, ⟨_, macs, rfl, hmacs, hfirst⟩,
    ⟨_, macs', rfl, hmacs', hfirst'⟩, ?_⟩
  intro s later now' hs hlater hawaits
  rw [hwaiting] at hs
  cases hs
  -- the initiator computes the secrets of the response from the other side
  have hephemeral := hP.shared ephemeral ephemeral'
  have hstatic : P.diffieHellman later.params.staticPrivate (P.publicKey ephemeral') =
      P.diffieHellman ephemeral' (P.publicKey a) := by
    rw [hlater, hinitiator]
    exact hP.shared a ephemeral'
  have hpsk : later.params.presharedKey = psk := by rw [hlater, hinitiator]; rfl
  obtain ⟨later', hread⟩ := receiveHandshakeResponse_spec hP responder.incIndex.1 now' hawaits
    hephemeral hstatic
  rw [hpsk] at hread
  exact ⟨_, later', hread, rfl, rfl, rfl, rfl, incIndex_lt hidx', incIndex_lt hidx, ⟨rfl, rfl⟩,
    ⟨rfl, rfl⟩⟩

/-- **The two ends agree**: what one seals with the other opens with, and each knows the other's
index, also if the first end has started another handshake in the meantime, with any ephemeral key,
at any time and into a buffer of any length. -/
theorem agree (P : Primitives) (hP : P.Correct) (initiator responder : Handshake)
    (a b : Bytes) (psk : Option Bytes)
    (hinitiator : initiator.params = .new P a (P.publicKey a) (P.publicKey b) psk)
    (hresponder : responder.params = .new P b (P.publicKey b) (P.publicKey a) psk)
    (hidx : initiator.nextIndex < 2 ^ 32) (hidx' : responder.nextIndex < 2 ^ 32)
    (ephemeral ephemeral' : Bytes) (now room room' : ℕ) (hroom : handshakeInitSz ≤ room)
    (hroom' : handshakeRespSz ≤ room')
    (hfresh : (Tai64N.parse (initiator.stamper.stamp now)).after
      responder.lastHandshakeTimestamp = true) :
    ∃ message waiting init reply session responder' resp,
      initiator.formatHandshakeInitiation P ephemeral now room = (.ok message, waiting) ∧
      parseIncomingPacket message = .ok (.handshakeInit init) ∧
      responder.receiveHandshakeInitialization P init ephemeral' room' =
        some (.ok (reply, session), responder') ∧
      parseIncomingPacket reply = .ok (.handshakeResponse resp) ∧
      ∀ (ephemeral'' : Bytes) (now' now'' room'' : ℕ), ∃ session' done done',
        waiting.receiveHandshakeResponse P resp now'' = (.ok session', done) ∧
        (waiting.formatHandshakeInitiation P ephemeral'' now' room'').2.receiveHandshakeResponse P
          resp now'' = (.ok session', done') ∧
        session'.Crossed session := by
  obtain ⟨message, waiting, init, reply, session, responder', resp, hwrite, hparse, hreceive,
    hparse', ⟨s, hstate, hindex⟩, hparams, -, -, hread⟩ :=
      agree_signed P hP initiator responder a b psk hinitiator hresponder hidx hidx' ephemeral
        ephemeral' now room room' hroom hroom' hfresh
  refine ⟨message, waiting, init, reply, session, responder', resp, hwrite, hparse, hreceive,
    hparse', fun ephemeral'' now' now'' room'' => ?_⟩
  -- the state that waits is kept as the previous one
  obtain ⟨hkept, hawaits⟩ := awaits_initiation hP hstate hindex ephemeral'' now' room''
  obtain ⟨session', done, hnow, hcrossed⟩ :=
    hread s waiting now'' hstate hparams (.inl hstate)
  obtain ⟨again, done', hlater, hcrossed'⟩ :=
    hread s _ now'' hstate (hkept.trans hparams) hawaits
  exact ⟨session', done, done', hnow, hcrossed.unique hcrossed' ▸ hlater, hcrossed⟩

/-- An end for small runs, with its own secret and its peer's. -/
def sampleEnd (own peer : Bytes) (globalIdx : ℕ) : Handshake :=
  .new samplePrimitives own (samplePrimitives.publicKey own) (samplePrimitives.publicKey peer)
    globalIdx none ⟨1700000000000000000, 0⟩

theorem agree_sample :
    ∃ message waiting init reply session responder' resp,
      (sampleEnd [1] [2] 256).formatHandshakeInitiation samplePrimitives [3] 5 2048 =
        (.ok message, waiting) ∧
      parseIncomingPacket message = .ok (.handshakeInit init) ∧
      (sampleEnd [2] [1] 512).receiveHandshakeInitialization samplePrimitives init [4] 2048 =
        some (.ok (reply, session), responder') ∧
      parseIncomingPacket reply = .ok (.handshakeResponse resp) ∧
      ∀ (ephemeral'' : Bytes) (now' now'' room'' : ℕ), ∃ session' done done',
        waiting.receiveHandshakeResponse samplePrimitives resp now'' = (.ok session', done) ∧
        (waiting.formatHandshakeInitiation samplePrimitives ephemeral'' now'
          room'').2.receiveHandshakeResponse samplePrimitives resp now'' = (.ok session', done') ∧
        session'.Crossed session :=
  agree samplePrimitives samplePrimitives_correct (sampleEnd [1] [2] 256) (sampleEnd [2] [1] 512)
    [1] [2] none rfl rfl (by decide) (by decide) [3] [4] 5 2048 2048 (by decide) (by decide)
    (by decide)

end Handshake

end Tailcat.Noise
