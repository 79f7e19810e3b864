import Tailcat.Noise.Session

/-!
# The handshake

Two round trips of keys that only the two ends can compute (`noise/handshake.rs`).  Hashes, ciphers
and the curve come from libraries and are parameters (`Primitives`); randomness and the clock are
arguments.

* `NoiseParams`, `HandshakeState`, `Handshake` : what an end knows, and how far a handshake has got.
* `formatHandshakeInitiation`, `receiveHandshakeInitialization`, `formatHandshakeResponse`,
  `receiveHandshakeResponse`, `receiveCookieReply` : the messages, written and read.

The functions have the order of the source, which mixes every part of a message into the chain and
the hash as it is written or read.  The laws of the parameters (`Primitives.Correct`) are that what
was sealed with a key is opened with it, that both ends compute the same shared secret, and the
lengths.  That nobody else can compute a key is not part of it, and no result speaks of secrecy.

That the two ends agree is shown in `Noise.Agreement`, that an initiation is taken once in
`Noise.Replays`.
-/

namespace Tailcat.Noise

/-- What the handshake takes from libraries. -/
structure Primitives where
  /-- BLAKE2s. -/
  blake2s : Bytes → Bytes
  /-- HMAC with BLAKE2s. -/
  hmac : Bytes → Bytes → Bytes
  /-- Keyed BLAKE2s with 16 bytes. -/
  mac16 : Bytes → Bytes → Bytes
  aead : Aead
  /-- XChaCha20-Poly1305. -/
  xaead : Aead
  /-- The public key of a secret key on the curve. -/
  publicKey : Bytes → Bytes
  diffieHellman : Bytes → Bytes → Bytes

/-- What libraries promise. -/
structure Primitives.Correct (P : Primitives) : Prop where
  aead : P.aead.Correct
  /-- Both ends compute the same secret. -/
  shared : ∀ a b, P.diffieHellman a (P.publicKey b) = P.diffieHellman b (P.publicKey a)
  publicKeyLength : ∀ a, (P.publicKey a).length = 32
  mac16Length : ∀ key message, (P.mac16 key message).length = 16

/-- Primitives for small runs: they have the lengths of the real ones but keep nothing secret. -/
def samplePrimitives : Primitives where
  blake2s data := (data ++ List.replicate 32 0).take 32
  hmac key data := (data ++ key ++ List.replicate 32 0).take 32
  mac16 key data := (data ++ key ++ List.replicate 16 0).take 16
  aead := sampleAead
  xaead := sampleAead
  publicKey secret := (secret ++ List.replicate 32 0).take 32
  diffieHellman secret peer := ((secret ++ List.replicate 32 0).take 32).zipWith (· ^^^ ·) peer

theorem samplePrimitives_correct : samplePrimitives.Correct where
  aead := sampleAead_correct
  shared a b := List.zipWith_comm_of_comm UInt8.xor_comm
  publicKeyLength a := by simp [samplePrimitives]
  mac16Length key message := by
    simp [samplePrimitives]
    omega

/-- `INITIAL_CHAIN_KEY`. -/
def initialChainKey : Bytes :=
  [96, 226, 109, 174, 243, 39, 239, 192, 46, 195, 53, 226, 160, 37, 210, 208, 22, 235, 66, 6, 248,
    114, 119, 245, 45, 56, 209, 152, 139, 120, 205, 54]

/-- `INITIAL_CHAIN_HASH`. -/
def initialChainHash : Bytes :=
  [34, 17, 179, 97, 8, 26, 197, 102, 105, 18, 67, 219, 69, 138, 213, 50, 45, 156, 108, 102, 34,
    147, 232, 183, 14, 225, 156, 101, 186, 7, 158, 243]

/-- `LABEL_MAC1`. -/
def labelMac1 : Bytes := ascii "mac1----"

/-- `LABEL_COOKIE`. -/
def labelCookie : Bytes := ascii "cookie--"

/-! ### Hashes and keys -/

namespace Primitives

variable (P : Primitives)

/-- `b2s_hash`. -/
def hash (data1 data2 : Bytes) : Bytes := P.blake2s (data1 ++ data2)

/-- `b2s_hmac2`. -/
def hmac2 (key data1 data2 : Bytes) : Bytes := P.hmac key (data1 ++ data2)

/-- The next chaining key. -/
def mix (chainingKey input : Bytes) : Bytes := P.hmac (P.hmac chainingKey input) [1]

/-- The next chaining key, and a key to seal with. -/
def mixKey (chainingKey input : Bytes) : Bytes × Bytes :=
  let temp := P.hmac chainingKey input
  let next := P.hmac temp [1]
  (next, P.hmac2 temp next [2])

/-- The next chaining key, with an input to the hash and a key to seal with: the preshared key. -/
def mixKeyAndHash (chainingKey input : Bytes) : Bytes × Bytes × Bytes :=
  let temp := P.hmac chainingKey input
  let next := P.hmac temp [1]
  let temp2 := P.hmac2 temp next [2]
  (next, temp2, P.hmac2 temp temp2 [3])

/-- The two keys of a session. -/
def split (chainingKey : Bytes) : Bytes × Bytes :=
  let temp1 := P.hmac chainingKey []
  let temp2 := P.hmac temp1 [1]
  (temp2, P.hmac2 temp1 temp2 [2])

/-- `aead_chacha20_seal` with counter 0. -/
def enclose (key data aad : Bytes) : Bytes := P.aead.sealInPlace key (nonceOf 0) aad data

/-- `aead_chacha20_open` with counter 0. -/
def disclose (key data aad : Bytes) : Except WireGuardError Bytes :=
  match P.aead.openInPlace key (nonceOf 0) aad data with
  | some message => .ok message
  | none => .error .invalidAeadTag

end Primitives

/-! ### Timestamps -/

/-- `Tai64N`. -/
structure Tai64N where
  secs : ℕ
  nano : ℕ
  deriving DecidableEq, Repr

namespace Tai64N

/-- `zero`. -/
def zero : Tai64N := ⟨0, 0⟩

/-- `parse`. -/
def parse (buf : Bytes) : Tai64N :=
  { secs := LittleEndian.ofBytes (slice buf 0 8).reverse
    nano := LittleEndian.ofBytes (slice buf 8 12).reverse }

/-- `after`: the timestamp is later than the other. -/
def after (t other : Tai64N) : Bool :=
  t.secs > other.secs || (t.secs = other.secs && t.nano > other.nano)

end Tai64N

/-- `TimeStamper`; times are in nanoseconds. -/
structure TimeStamper where
  /-- The time of day at the start. -/
  durationAtStart : ℕ
  instantAtStart : ℕ
  deriving DecidableEq, Repr

/-- `stamp`: the bytes of a timestamp. -/
def TimeStamper.stamp (t : TimeStamper) (now : ℕ) : Bytes :=
  let stamp := now - t.instantAtStart + t.durationAtStart
  (LittleEndian.toBytes 8 (stamp / 10 ^ 9 + (2 ^ 62 + 37))).reverse ++
    (LittleEndian.toBytes 4 (stamp % 10 ^ 9)).reverse

/-! ### The state of an end -/

/-- `NoiseParams`. -/
structure NoiseParams where
  staticPublic : Bytes
  staticPrivate : Bytes
  peerStaticPublic : Bytes
  staticShared : Bytes
  sendingMac1Key : Bytes
  presharedKey : Option Bytes
  deriving DecidableEq, Repr

/-- `NoiseParams::new`. -/
def NoiseParams.new (P : Primitives) (staticPrivate staticPublic peerStaticPublic : Bytes)
    (presharedKey : Option Bytes) : NoiseParams where
  staticPublic := staticPublic
  staticPrivate := staticPrivate
  peerStaticPublic := peerStaticPublic
  staticShared := P.diffieHellman staticPrivate peerStaticPublic
  sendingMac1Key := P.hash labelMac1 peerStaticPublic
  presharedKey := presharedKey

/-- An initiation that was sent. -/
structure HandshakeInitSentState where
  localIndex : ℕ
  hash : Bytes
  chainingKey : Bytes
  ephemeralPrivate : Bytes
  timeSent : ℕ
  deriving DecidableEq, Repr

/-- `HandshakeState`. -/
inductive HandshakeState
  | none
  | initSent (s : HandshakeInitSentState)
  | initReceived (hash chainingKey peerEphemeralPublic : Bytes) (peerIndex : ℕ)
  | expired
  deriving DecidableEq, Repr

/-- `Cookies`. -/
structure Cookies where
  lastMac1 : Option Bytes := .none
  index : ℕ := 0
  writeCookie : Option Bytes := .none
  deriving DecidableEq, Repr

/-- `Handshake`. -/
structure Handshake where
  params : NoiseParams
  /-- The index of the next session. -/
  nextIndex : ℕ
  /-- The handshake before the current one: its response may still be on its way. -/
  previous : HandshakeState := .none
  state : HandshakeState := .none
  cookies : Cookies := {}
  /-- The timestamp of the last initiation received. -/
  lastHandshakeTimestamp : Tai64N := .zero
  stamper : TimeStamper
  /-- In milliseconds. -/
  lastRtt : Option ℕ := .none
  deriving DecidableEq, Repr

namespace Handshake

/-- `Handshake::new`. -/
def new (P : Primitives) (staticPrivate staticPublic peerStaticPublic : Bytes) (globalIdx : ℕ)
    (presharedKey : Option Bytes) (stamper : TimeStamper) : Handshake :=
  { params := .new P staticPrivate staticPublic peerStaticPublic presharedKey
    nextIndex := globalIdx, stamper }

/-- `is_in_progress`. -/
def isInProgress (h : Handshake) : Bool :=
  match h.state with
  | .none | .expired => false
  | _ => true

/-- `timer`: when the initiation was sent that is waiting for a response. -/
def timer (h : Handshake) : Option ℕ :=
  match h.state with
  | .initSent s => some s.timeSent
  | _ => .none

/-- `set_expired`. -/
def setExpired (h : Handshake) : Handshake := { h with previous := .expired, state := .expired }

/-- `is_expired`. -/
def isExpired (h : Handshake) : Bool :=
  match h.state with
  | .expired => true
  | _ => false

/-- `has_cookie`. -/
def hasCookie (h : Handshake) : Bool := h.cookies.writeCookie.isSome

/-- `clear_cookie`. -/
def clearCookie (h : Handshake) : Handshake :=
  { h with cookies := { h.cookies with writeCookie := .none } }

/-- `inc_index`: the low byte counts the sessions, the others are the peer's. -/
def incIndex (h : Handshake) : ℕ × Handshake :=
  let next := h.nextIndex / 2 ^ 8 * 2 ^ 8 + (h.nextIndex + 1) % 2 ^ 8
  (next, { h with nextIndex := next })

variable (P : Primitives)

/-- The first MAC: over the message, with a key that the peer's public key gives. -/
def mac1 (h : Handshake) (message : Bytes) : Bytes := P.mac16 h.params.sendingMac1Key message

/-- The second MAC: over the message and the first, with the peer's cookie. -/
def mac2 (h : Handshake) (signed : Bytes) : Bytes :=
  match h.cookies.writeCookie with
  | some cookie => P.mac16 cookie signed
  | .none => List.replicate 16 0

/-- `append_mac1_and_mac2`, to a message without its MACs. -/
def appendMac1AndMac2 (h : Handshake) (localIndex : ℕ) (message : Bytes) : Bytes × Handshake :=
  let mac1 := h.mac1 P message
  (message ++ (mac1 ++ h.mac2 P (message ++ mac1)),
    { h with cookies := { h.cookies with index := localIndex, lastMac1 := some mac1 } })

/-- The hash and the chaining key of an initiation, with what it seals: the static key under the
ephemeral secret, and the timestamp under the static secret. -/
def initiation (staticPublic ephemeralSecret staticSecret ephemeralPublic peerStaticPublic
    timestamp : Bytes) : Bytes × Bytes × Bytes × Bytes :=
  let hash := P.hash initialChainHash peerStaticPublic
  let hash := P.hash hash ephemeralPublic
  let chainingKey := P.mix initialChainKey ephemeralPublic
  let (chainingKey, key) := P.mixKey chainingKey ephemeralSecret
  let encryptedStatic := P.enclose key staticPublic hash
  let hash := P.hash hash encryptedStatic
  let (chainingKey, key) := P.mixKey chainingKey staticSecret
  let encryptedTimestamp := P.enclose key timestamp hash
  (P.hash hash encryptedTimestamp, chainingKey, encryptedStatic, encryptedTimestamp)

/-- `format_handshake_initiation`, with a fresh ephemeral key. -/
def formatHandshakeInitiation (h : Handshake) (ephemeralPrivate : Bytes) (now room : ℕ) :
    Except WireGuardError Bytes × Handshake :=
  if room < handshakeInitSz then (.error .destinationBufferTooSmall, h)
  else
    let (localIndex, h) := h.incIndex
    let unencryptedEphemeral := P.publicKey ephemeralPrivate
    let (hash, chainingKey, encryptedStatic, encryptedTimestamp) :=
      initiation P h.params.staticPublic
        (P.diffieHellman ephemeralPrivate h.params.peerStaticPublic) h.params.staticShared
        unencryptedEphemeral h.params.peerStaticPublic (h.stamper.stamp now)
    let h := { h with
      previous := h.state
      state := .initSent { localIndex, hash, chainingKey, ephemeralPrivate, timeSent := now } }
    let (message, h) := h.appendMac1AndMac2 P localIndex
      (leBytes32 handshakeInit ++ leBytes32 localIndex ++ unencryptedEphemeral ++ encryptedStatic ++
        encryptedTimestamp)
    (.ok message, h)

/-- The keys of a response, from the chaining key of the initiation: a key that seals nothing, with
the hash to seal it with, and the keys of the session. -/
def response (hash chainingKey unencryptedEphemeral ephemeralSecret staticSecret : Bytes)
    (presharedKey : Option Bytes) : (Bytes × Bytes) × Bytes × Bytes :=
  let hash := P.hash hash unencryptedEphemeral
  let chainingKey := P.mix chainingKey unencryptedEphemeral
  let chainingKey := P.mix chainingKey ephemeralSecret
  let chainingKey := P.mix chainingKey staticSecret
  let (chainingKey, temp2, key) :=
    P.mixKeyAndHash chainingKey (presharedKey.getD (List.replicate 32 0))
  ((key, P.hash hash temp2), P.split chainingKey)

/-- `format_handshake_response`, with a fresh ephemeral key.  `none` is a panic. -/
def formatHandshakeResponse (h : Handshake) (ephemeralPrivate : Bytes) (room : ℕ) :
    Option (Except WireGuardError (Bytes × Session) × Handshake) :=
  if room < handshakeRespSz then some (.error .destinationBufferTooSmall, h)
  else
    match h.state with
    | .initReceived hash chainingKey peerEphemeralPublic peerIndex =>
      let h := { h with state := .none }
      let unencryptedEphemeral := P.publicKey ephemeralPrivate
      let (localIndex, h) := h.incIndex
      let ((key, hash), temp2, temp3) := response P hash chainingKey unencryptedEphemeral
        (P.diffieHellman ephemeralPrivate peerEphemeralPublic)
        (P.diffieHellman ephemeralPrivate h.params.peerStaticPublic) h.params.presharedKey
      let encryptedNothing := P.enclose key [] hash
      let (message, h) := h.appendMac1AndMac2 P localIndex
        (leBytes32 handshakeResp ++ leBytes32 localIndex ++ leBytes32 peerIndex ++
          unencryptedEphemeral ++ encryptedNothing)
      some (.ok (message, .new localIndex peerIndex temp2 temp3), h)
    | _ => .none

/-- The checks of `receive_handshake_initialization`: the timestamp, and the hash and the chaining
key that the response goes on with. -/
def openInitiation (h : Handshake) (packet : HandshakeInit) :
    Except WireGuardError (Tai64N × Bytes × Bytes) :=
  let peerEphemeralPublic := packet.unencryptedEphemeral
  let hash := P.hash initialChainHash h.params.staticPublic
  let hash := P.hash hash peerEphemeralPublic
  let chainingKey := P.mix initialChainKey peerEphemeralPublic
  let (chainingKey, key) := P.mixKey chainingKey
    (P.diffieHellman h.params.staticPrivate peerEphemeralPublic)
  match P.disclose key packet.encryptedStatic hash with
  | .error e => .error e
  | .ok peerStaticPublicDecrypted =>
    if h.params.peerStaticPublic ≠ peerStaticPublicDecrypted then .error .wrongKey
    else
      let hash := P.hash hash packet.encryptedStatic
      let (chainingKey, key) := P.mixKey chainingKey h.params.staticShared
      match P.disclose key packet.encryptedTimestamp hash with
      | .error e => .error e
      | .ok timestamp =>
        let timestamp := Tai64N.parse timestamp
        if timestamp.after h.lastHandshakeTimestamp then
          .ok (timestamp, P.hash hash packet.encryptedTimestamp, chainingKey)
        else
          -- possibly a replay
          .error .wrongTai64nTimestamp

/-- `receive_handshake_initialization`, with a fresh ephemeral key for the response. -/
def receiveHandshakeInitialization (h : Handshake) (packet : HandshakeInit)
    (ephemeralPrivate : Bytes) (room : ℕ) :
    Option (Except WireGuardError (Bytes × Session) × Handshake) :=
  match h.openInitiation P packet with
  | .error e => some (.error e, h)
  | .ok (timestamp, hash, chainingKey) =>
    let h := { h with
      lastHandshakeTimestamp := timestamp
      previous := h.state
      state := .initReceived hash chainingKey packet.unencryptedEphemeral packet.senderIdx }
    h.formatHandshakeResponse P ephemeralPrivate room

/-- The initiation that a response answers, and whether it is the previous one. -/
def awaited (h : Handshake) (receiverIdx : ℕ) : Option (HandshakeInitSentState × Bool) :=
  match h.state, h.previous with
  | .initSent s, .initSent s' =>
    if s.localIndex = receiverIdx then some (s, false)
    else if s'.localIndex = receiverIdx then some (s', true) else .none
  | .initSent s, _ => if s.localIndex = receiverIdx then some (s, false) else .none
  | _, .initSent s' => if s'.localIndex = receiverIdx then some (s', true) else .none
  | _, _ => .none

/-- `receive_handshake_response`. -/
def receiveHandshakeResponse (h : Handshake) (packet : HandshakeResponse) (now : ℕ) :
    Except WireGuardError Session × Handshake :=
  match h.awaited packet.receiverIdx with
  | .none => (.error .unexpectedPacket, h)
  | some (state, isPrevious) =>
    let unencryptedEphemeral := packet.unencryptedEphemeral
    let ((key, hash), temp2, temp3) :=
      response P state.hash state.chainingKey unencryptedEphemeral
        (P.diffieHellman state.ephemeralPrivate unencryptedEphemeral)
        (P.diffieHellman h.params.staticPrivate unencryptedEphemeral) h.params.presharedKey
    match P.disclose key packet.encryptedNothing hash with
    | .error e => (.error e, h)
    | .ok _ =>
      let h := { h with lastRtt := some ((now - state.timeSent) / 10 ^ 6 % 2 ^ 32) }
      (.ok (.new state.localIndex packet.senderIdx temp3 temp2),
        if isPrevious then { h with previous := .none } else { h with state := .none })

/-- `receive_cookie_reply`. -/
def receiveCookieReply (h : Handshake) (packet : PacketCookieReply) :
    Except WireGuardError Unit × Handshake :=
  match h.cookies.lastMac1 with
  | .none => (.error .unexpectedPacket, h)
  | some mac1 =>
    if packet.receiverIdx ≠ h.cookies.index then (.error .wrongIndex, h)
    else
      let key := P.hash labelCookie h.params.peerStaticPublic
      match P.xaead.openInPlace key packet.nonce mac1 packet.encryptedCookie with
      | .none => (.error .invalidAeadTag, h)
      | some cookie =>
        if cookie.length = 16 then
          (.ok (), { h with cookies := { h.cookies with writeCookie := some cookie } })
        else (.error .invalidPacket, h)

end Handshake

end Tailcat.Noise
