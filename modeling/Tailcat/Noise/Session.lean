import Tailcat.Noise.Message

/-!
# Sessions

A session seals the packets of one end of the tunnel under the counters 0, 1, 2 and so on, and opens
those of the other end (`noise/session.rs`).  The cipher is a parameter: the program takes
ChaCha20-Poly1305 from a library.

* `formatPacketData_eq` : what is sent, and what the next packet is sealed with.
* `receivePacketData_cases` : what becomes of a packet by its index, its counter and its cipher text.

Neither secrecy nor unforgeability is a law of the cipher here: `Aead.Correct` says that what was
sealed is opened with the same key, nonce and data, and that the tag has sixteen bytes.  Where a
result needs that nobody else can seal, it is a condition on the run (`Noise.Exchange`).  A packet
is marked as received only after it was opened, so a forged one does not move the window.
-/

namespace Tailcat.Noise

/-- ChaCha20-Poly1305, with a key, a nonce and additional data. -/
structure Aead where
  /-- The cipher text, with its tag at the end. -/
  sealInPlace : Bytes → Bytes → Bytes → Bytes → Bytes
  openInPlace : Bytes → Bytes → Bytes → Bytes → Option Bytes

/-- What is sealed can be opened, and is longer by the tag. -/
structure Aead.Correct (aead : Aead) : Prop where
  opens : ∀ key nonce aad message,
    aead.openInPlace key nonce aad (aead.sealInPlace key nonce aad message) = some message
  length : ∀ key nonce aad message,
    (aead.sealInPlace key nonce aad message).length = message.length + 16

/-- The nonce of a counter. -/
def nonceOf (counter : ℕ) : Bytes := List.replicate 4 0 ++ leBytes64 counter

/-! ### A cipher for small runs -/

/-- A key. -/
def sampleKey : Bytes := List.replicate 32 1

/-- A message under that key and a counter. -/
structure SampleText where
  counter : ℕ
  message : Bytes
  cipher : Bytes

def sampleFirst : SampleText :=
  ⟨0, [42], [43, 241, 218, 217, 226, 64, 230, 24, 60, 138, 240, 179, 177, 39, 31, 228, 177]⟩

def sampleSecond : SampleText :=
  ⟨1, [43], [102, 18, 80, 147, 205, 133, 36, 160, 218, 219, 224, 248, 27, 217, 51, 76, 43]⟩

def sampleThird : SampleText :=
  ⟨2, [44], [81, 11, 226, 254, 251, 216, 25, 74, 153, 10, 23, 17, 122, 66, 249, 5, 190]⟩

/-- The cipher texts of one byte each under the first counters. -/
def sampleTexts : List SampleText := [sampleFirst, sampleSecond, sampleThird]

/-- A tag. -/
def sampleTag : Bytes := List.replicate 16 0

/-- A cipher that is ChaCha20-Poly1305 for these messages, and adds a fixed tag to the others. -/
def sampleAead : Aead where
  sealInPlace key nonce aad message :=
    match sampleTexts.find? fun c =>
        key = sampleKey ∧ nonce = nonceOf c.counter ∧ aad = [] ∧ message = c.message with
    | some c => c.cipher
    | none => message ++ sampleTag
  openInPlace key nonce aad cipher :=
    match sampleTexts.find? fun c =>
        key = sampleKey ∧ nonce = nonceOf c.counter ∧ aad = [] ∧ cipher = c.cipher with
    | some c => some c.message
    | none =>
      if cipher.drop (cipher.length - 16) = sampleTag then
        some (cipher.take (cipher.length - 16))
      else none

/-- A cipher text with the fixed tag is none of the others. -/
theorem append_sampleTag_ne (message : Bytes) :
    ∀ c ∈ sampleTexts, message ++ sampleTag ≠ c.cipher := by
  have hlast : ∀ c ∈ sampleTexts, c.cipher.getLast? ≠ some 0 := by decide
  intro c hc heq
  apply hlast c hc
  rw [← heq]
  simp [sampleTag]

theorem sampleAead_seal (key nonce aad message : Bytes) :
    (∃ c ∈ sampleTexts, key = sampleKey ∧ nonce = nonceOf c.counter ∧ aad = [] ∧
      message = c.message ∧ sampleAead.sealInPlace key nonce aad message = c.cipher) ∨
    sampleAead.sealInPlace key nonce aad message = message ++ sampleTag := by
  simp only [sampleAead]
  split
  · next c hfind =>
    have hc := List.find?_some hfind
    simp only [decide_eq_true_eq] at hc
    exact .inl ⟨c, List.mem_of_find?_eq_some hfind, hc.1, hc.2.1, hc.2.2.1, hc.2.2.2, rfl⟩
  · exact .inr rfl

theorem sampleAead_correct : sampleAead.Correct where
  opens key nonce aad message := by
    rcases sampleAead_seal key nonce aad message with
      ⟨c, hc, rfl, rfl, rfl, rfl, hcipher⟩ | hcipher
    · have hopens : ∀ c ∈ sampleTexts, sampleAead.openInPlace sampleKey (nonceOf c.counter) []
          c.cipher = some c.message := by decide
      rw [hcipher]
      exact hopens c hc
    · have hlength : (message ++ sampleTag).length - 16 = message.length := by simp [sampleTag]
      rw [hcipher]
      simp only [sampleAead]
      split
      · next c hfind =>
        have hc := List.find?_some hfind
        simp only [decide_eq_true_eq] at hc
        exact absurd hc.2.2.2 (append_sampleTag_ne message c (List.mem_of_find?_eq_some hfind))
      · rw [hlength, List.drop_left, List.take_left, if_pos rfl]
  length key nonce aad message := by
    rcases sampleAead_seal key nonce aad message with ⟨c, hc, -, -, -, rfl, hcipher⟩ | hcipher
    · have hlengths : ∀ c ∈ sampleTexts, c.cipher.length = c.message.length + 16 := by decide
      rw [hcipher]
      exact hlengths c hc
    · rw [hcipher, List.length_append]
      rfl

/-! ### One end -/

/-- One end of a session. -/
structure Session where
  receivingIndex : ℕ
  sendingIndex : ℕ
  /-- The key that opens what is received. -/
  receiver : Bytes
  /-- The key that seals what is sent. -/
  sender : Bytes
  sendingKeyCounter : ℕ := 0
  receivingKeyCounter : ReceivingKeyCounterValidator := {}
  deriving DecidableEq, Repr

/-- The ends of one session before any packet: each seals with the key that the other opens with,
and knows the other's index. -/
structure Session.Crossed (left right : Session) : Prop where
  toRight : left.sender = right.receiver
  toLeft : right.sender = left.receiver
  leftIndex : left.sendingIndex = right.receivingIndex
  rightIndex : right.sendingIndex = left.receivingIndex
  leftLt : left.sendingIndex < 2 ^ 32
  rightLt : right.sendingIndex < 2 ^ 32
  leftNew : left.sendingKeyCounter = 0 ∧ left.receivingKeyCounter = {}
  rightNew : right.sendingKeyCounter = 0 ∧ right.receivingKeyCounter = {}

/-- A new session has one counterpart only. -/
theorem Session.Crossed.unique {left left' right : Session} (h : left.Crossed right)
    (h' : left'.Crossed right) : left = left' := by
  cases left
  cases left'
  simp only [mk.injEq]
  exact ⟨h.rightIndex.symm.trans h'.rightIndex, h.leftIndex.trans h'.leftIndex.symm,
    h.toLeft.symm.trans h'.toLeft, h.toRight.trans h'.toRight.symm,
    h.leftNew.1.trans h'.leftNew.1.symm, h.leftNew.2.trans h'.leftNew.2.symm⟩

namespace Session

/-- `Session::new`. -/
def new (localIndex peerIndex : ℕ) (receivingKey sendingKey : Bytes) : Session :=
  { receivingIndex := localIndex, sendingIndex := peerIndex,
    receiver := receivingKey, sender := sendingKey }

/-- `local_index`. -/
def localIndex (s : Session) : ℕ := s.receivingIndex

/-- The session as it was established: no packet was sealed or opened yet. -/
def origin (s : Session) : Session := .new s.receivingIndex s.sendingIndex s.receiver s.sender

theorem origin_of_new {s : Session} (hcounter : s.sendingKeyCounter = 0)
    (hvalidator : s.receivingKeyCounter = {}) : s.origin = s := by
  cases s
  simp only at hcounter hvalidator
  subst hcounter hvalidator
  rfl

/-- The cipher text of a packet under a counter. -/
def sealed (aead : Aead) (s : Session) (counter : ℕ) (src : Bytes) : Bytes :=
  aead.sealInPlace s.sender (nonceOf counter) [] src

/-- `format_packet_data`: seal a packet, in a buffer with room for so many bytes.  `none` is a
panic. -/
def formatPacketData (aead : Aead) (s : Session) (src : Bytes) (room : ℕ) :
    Option (Bytes × Session) :=
  if room < src.length + dataOverheadSz then none
  else
    let counter := s.sendingKeyCounter
    some (leBytes32 data ++ leBytes32 s.sendingIndex ++ leBytes64 counter ++
        s.sealed aead counter src,
      { s with sendingKeyCounter := (counter + 1) % u64 })

/-- `receive_packet_data`: open a packet, in a buffer with room for so many bytes.  `none` is a
panic, or a call that does not return. -/
def receivePacketData (aead : Aead) (s : Session) (packet : PacketData) (room : ℕ) :
    Option (Except WireGuardError Bytes × Session) :=
  if room < packet.encryptedEncapsulatedPacket.length then none
  else if packet.receiverIdx ≠ s.receivingIndex then some (.error .wrongIndex, s)
  else
    -- a replay is refused before the packet is opened
    match s.receivingKeyCounter.willAccept packet.counter with
    | .error e => some (.error e, s)
    | .ok () =>
      match aead.openInPlace s.receiver (nonceOf packet.counter) []
          packet.encryptedEncapsulatedPacket with
      | none => some (.error .invalidAeadTag, s)
      | some message => do
        let (marked, validator) ← s.receivingKeyCounter.receivingCounterMark packet.counter
        let s' := { s with receivingKeyCounter := validator }
        match marked with
        | .error e => return (.error e, s')
        | .ok () => return (.ok message, s')

/-- `current_packet_cnt`. -/
def currentPacketCnt (s : Session) : ℕ × ℕ := s.receivingKeyCounter.currentPacketCnt

variable {aead : Aead} {s : Session} {src : Bytes} {room : ℕ} {packet : PacketData}

/-- The packet that is sent next. -/
def outgoing (aead : Aead) (s : Session) (counter : ℕ) (src : Bytes) : PacketData :=
  { receiverIdx := s.sendingIndex, counter := counter,
    encryptedEncapsulatedPacket := s.sealed aead counter src }

theorem formatPacketData_eq (hroom : src.length + dataOverheadSz ≤ room)
    (hcounter : s.sendingKeyCounter + 1 < u64) : s.formatPacketData aead src room =
      some ((Packet.packetData (s.outgoing aead s.sendingKeyCounter src)).encode,
        { s with sendingKeyCounter := s.sendingKeyCounter + 1 }) := by
  have hwrap := Nat.mod_eq_of_lt hcounter
  unfold formatPacketData
  rw [if_neg (by omega)]
  simp only [hwrap]
  rfl

/-- A packet takes the next counter. -/
theorem formatPacketData_session {datagram : Bytes} {s' : Session}
    (h : s.formatPacketData aead src room = some (datagram, s')) :
    s' = { s with sendingKeyCounter := (s.sendingKeyCounter + 1) % u64 } := by
  unfold formatPacketData at h
  split at h
  · cases h
  · cases h
    rfl

/-- What is sent has the format of a packet. -/
theorem outgoing_fits (haead : aead.Correct) {counter : ℕ} (hidx : s.sendingIndex < 2 ^ 32)
    (hcounter : counter < 2 ^ 64) : (Packet.packetData (s.outgoing aead counter src)).Fits := by
  refine ⟨hidx, hcounter, ?_⟩
  simp only [outgoing, sealed, haead.length]
  omega

open ReplayWindow

/-- What the cipher finds in a packet. -/
def opened (aead : Aead) (s : Session) (packet : PacketData) : Option Bytes :=
  aead.openInPlace s.receiver (nonceOf packet.counter) [] packet.encryptedEncapsulatedPacket

/-- **A packet is delivered** if it is for this end, its counter is fresh, and it opens: then its
counter is taken. -/
theorem receivePacketData_ok {seen : List ℕ} {message : Bytes}
    (h : s.receivingKeyCounter.Refines seen)
    (hroom : packet.encryptedEncapsulatedPacket.length ≤ room)
    (hidx : packet.receiverIdx = s.receivingIndex) (hfresh : Fresh nBits seen packet.counter)
    (hopen : s.opened aead packet = some message) (hbound : packet.counter + nBits < u64) :
    ∃ v, s.receivePacketData aead packet room =
        some (.ok message, { s with receivingKeyCounter := v }) ∧
      v.Refines (packet.counter :: seen) := by
  obtain ⟨⟨res, v⟩, hmark, hv, hok, -⟩ :=
    ReceivingKeyCounterValidator.receivingCounterMark_yields h hbound
  have haccept : accept nBits seen packet.counter = packet.counter :: seen := if_pos hfresh
  have hres : res = .ok () := hok.2 hfresh
  refine ⟨v, ?_, haccept ▸ hv⟩
  unfold opened at hopen
  unfold receivePacketData
  rw [if_neg (by omega), if_neg (not_not_intro hidx), h.willAccept_ok_iff.2 hfresh]
  simp only [hopen, hmark, hres]
  rfl

/-- **A packet is refused** if it is for another end, its counter is stale, or it does not open: the
session stays as it is. -/
theorem receivePacketData_error {seen : List ℕ} (h : s.receivingKeyCounter.Refines seen)
    (hroom : packet.encryptedEncapsulatedPacket.length ≤ room)
    (hrefuse : packet.receiverIdx = s.receivingIndex → Fresh nBits seen packet.counter →
      s.opened aead packet = none) :
    ∃ e, s.receivePacketData aead packet room = some (.error e, s) := by
  unfold opened at hrefuse
  unfold receivePacketData
  rw [if_neg (by omega)]
  by_cases hidx : packet.receiverIdx = s.receivingIndex
  · rw [if_neg (not_not_intro hidx)]
    by_cases hfresh : Fresh nBits seen packet.counter
    · rw [h.willAccept_ok_iff.2 hfresh]
      simp only [hrefuse hidx hfresh]
      exact ⟨_, rfl⟩
    · cases hcheck : s.receivingKeyCounter.willAccept packet.counter with
      | ok u => exact absurd (h.willAccept_ok_iff.1 hcheck) hfresh
      | error e => exact ⟨e, rfl⟩
  · rw [if_pos hidx]
    exact ⟨_, rfl⟩

/-- A packet that is refused leaves the session as it is; one that is delivered was for this end,
opened, and had its counter taken. -/
theorem receivePacketData_cases {r : Except WireGuardError Bytes} {s' : Session}
    (h : s.receivePacketData aead packet room = some (r, s')) :
    ((∃ e, r = .error e) ∧ s' = s) ∨ ∃ message v, r = .ok message ∧
      packet.receiverIdx = s.receivingIndex ∧ s.opened aead packet = some message ∧
      s.receivingKeyCounter.receivingCounterMark packet.counter = some (.ok (), v) ∧
      s' = { s with receivingKeyCounter := v } := by
  unfold receivePacketData at h
  split at h
  · cases h
  · split at h
    · cases h
      exact .inl ⟨⟨_, rfl⟩, rfl⟩
    · next hidx =>
      split at h
      · cases h
        exact .inl ⟨⟨_, rfl⟩, rfl⟩
      · split at h
        · cases h
          exact .inl ⟨⟨_, rfl⟩, rfl⟩
        · next message hopen =>
          cases hmark : s.receivingKeyCounter.receivingCounterMark packet.counter with
          | none => simp [hmark] at h
          | some x =>
            obtain ⟨marked, v⟩ := x
            simp only [hmark, Option.bind_eq_bind, Option.bind_some] at h
            cases marked with
            | error e =>
              cases h
              have hv := ReceivingKeyCounterValidator.receivingCounterMark_error hmark
              exact .inl ⟨⟨e, rfl⟩, by rw [hv]⟩
            | ok u =>
              cases h
              exact .inr ⟨message, v, rfl, not_not.1 hidx, hopen, rfl, rfl⟩

end Session

end Tailcat.Noise
