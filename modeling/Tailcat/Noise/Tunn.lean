import Mathlib.Logic.Function.Basic
import Tailcat.Noise.RateLimiter

/-!
# One end of a tunnel

The state machine over handshakes and sessions (`noise/mod.rs`, `noise/timers.rs`): up to eight
sessions, the packets that wait for one, and the timers that start handshakes, send keepalives and
end sessions.

* `Tunn` : the state; `encapsulate`, `decapsulate`, `updateTimers` : the calls.
* `Call` : what a call reads of its surroundings: the clock, fresh randomness and the buffer.
* `Act` : what a call does to sessions and waiting packets; the record of them is no part of the
  program's state, and nothing reads it.

A call is `none` where the code would panic, as it does for want of room in a buffer.  The clock is
read once in a call, as an argument, where the code reads it several times; the record and the
arguments are the only differences in what a call takes and leaves behind.  The sessions lie in a
ring of eight slots by their index, so a new one takes the place of an old one.
-/

namespace Tailcat.Noise

open Net

/-! ### Constants -/

/-- Packets that may wait for a session. -/
def maxQueueDepth : ℕ := 256

/-- Sessions in the ring. -/
def nSessions : ℕ := 8

/-- `PEER_HANDSHAKE_RATE_LIMIT`. -/
def peerHandshakeRateLimit : ℕ := 10

/-- `Duration::from_secs`, in nanoseconds. -/
def fromSecs (s : ℕ) : ℕ := s * 1000000000

def rekeyAfterTime : ℕ := fromSecs 120
def rejectAfterTime : ℕ := fromSecs 180
def rekeyAttemptTime : ℕ := fromSecs 90
def rekeyTimeout : ℕ := fromSecs 5
def keepaliveTimeout : ℕ := fromSecs 10
def cookieExpirationTime : ℕ := fromSecs 120

/-! ### The state -/

/-- `TimerName`. -/
inductive TimerName
  /-- The time of the last call of `update_timers`. -/
  | timeCurrent
  | timeSessionEstablished
  | timeLastHandshakeStarted
  | timeLastPacketReceived
  | timeLastPacketSent
  | timeLastDataPacketReceived
  | timeLastDataPacketSent
  | timeCookieReceived
  | timePersistentKeepalive
  deriving DecidableEq, Repr

/-- `Timers`; times are in nanoseconds since the start of the tunnel. -/
structure Timers where
  /-- This end has initiated the last handshake. -/
  isInitiator : Bool := false
  timeStarted : ℕ
  timers : TimerName → ℕ := fun _ => 0
  sessionTimers : Fin nSessions → ℕ := fun _ => 0
  wantKeepalive : Bool := false
  wantHandshake : Bool := false
  /-- In seconds; 0 is none. -/
  persistentKeepalive : ℕ
  shouldResetRr : Bool

/-- What is done to sessions and to packets that wait for one. -/
inductive Act
  /-- A packet is put to the waiting ones. -/
  | waits (packet : Bytes)
  /-- A packet is taken from the waiting ones. -/
  | leaves (packet : Bytes)
  /-- The waiting packets are given up. -/
  | drops (packets : List Bytes)
  /-- A session is established by a call at some time. -/
  | establishes (session : Session) (time : ℕ)
  /-- A packet is sealed with a key under a counter. -/
  | seals (key : Bytes) (counter : ℕ) (packet : Bytes)
  /-- A packet is opened with a key, and its counter taken. -/
  | opens (key : Bytes) (counter : ℕ) (packet : Bytes)
  deriving DecidableEq, Repr

/-- `Tunn`. -/
structure Tunn where
  handshake : Handshake
  /-- The most recent sessions, by their index modulo the size of the ring. -/
  sessions : Fin nSessions → Option Session := fun _ => none
  /-- The index of the session that seals what is sent. -/
  current : ℕ := 0
  /-- Packets that wait for a session. -/
  packetQueue : List Bytes := []
  timers : Timers
  txBytes : ℕ := 0
  rxBytes : ℕ := 0
  rateLimiter : RateLimiter
  /-- What was done, in order. -/
  trace : List Act := []

/-- `TunnResult`. -/
inductive TunnResult
  | done
  | err (e : WireGuardError)
  | writeToNetwork (datagram : Bytes)
  | writeToTunnelV4 (packet : Bytes) (addr : Bytes)
  | writeToTunnelV6 (packet : Bytes) (addr : Bytes)
  deriving DecidableEq, Repr

/-- What a call reads of its surroundings. -/
structure Call where
  /-- The clock. -/
  now : ℕ
  /-- A fresh ephemeral key. -/
  ephemeral : Bytes
  /-- The length of the buffer. -/
  room : ℕ

/-- The place of a session in the ring. -/
def slot (index : ℕ) : Fin nSessions := ⟨index % nSessions, Nat.mod_lt _ (by decide)⟩

namespace Timers

/-- `Timers::clear`: the timers start again at the current time. -/
def clear (t : Timers) (now : ℕ) : Timers :=
  { t with
    timers := fun _ => now - t.timeStarted
    wantHandshake := false
    wantKeepalive := false }

/-- `timer_tick`. -/
def tick (t : Timers) (name : TimerName) : Timers :=
  { t with
    timers := Function.update t.timers name (t.timers .timeCurrent)
    wantKeepalive := match name with
      | .timeLastPacketReceived => true
      | .timeLastPacketSent => false
      | _ => t.wantKeepalive
    wantHandshake := match name with
      | .timeLastPacketReceived => false
      | .timeLastPacketSent => true
      | _ => t.wantHandshake }

/-- `timer_tick_session_established`. -/
def tickSessionEstablished (t : Timers) (isInitiator : Bool) (sessionIdx : ℕ) : Timers :=
  let t := t.tick .timeSessionEstablished
  { t with
    sessionTimers := Function.update t.sessionTimers (slot sessionIdx) (t.timers .timeCurrent)
    isInitiator := isInitiator }

end Timers

namespace Tunn

variable (P : LimiterPrimitives)

/-- `Tunn::new`; the rate limiter is this tunnel's own if none is given. -/
def new (staticPrivate peerStaticPublic : Bytes) (presharedKey : Option Bytes)
    (persistentKeepalive : Option ℕ) (index : ℕ) (rateLimiter : Option RateLimiter)
    (nonceKey secretKey : Bytes) (durationAtStart now : ℕ) : Tunn where
  handshake := .new P.toPrimitives staticPrivate (P.publicKey staticPrivate) peerStaticPublic
    (index * 2 ^ 8 % 2 ^ 32) presharedKey ⟨durationAtStart, now⟩
  timers := {
    timeStarted := now
    persistentKeepalive := persistentKeepalive.getD 0
    shouldResetRr := rateLimiter.isNone }
  rateLimiter := rateLimiter.getD
    (.new P (P.publicKey staticPrivate) peerHandshakeRateLimit nonceKey secretKey now)

/-- `is_expired`. -/
def isExpired (t : Tunn) : Bool := t.handshake.isExpired

/-- Something is done. -/
def act (t : Tunn) (a : Act) : Tunn := { t with trace := t.trace ++ [a] }

/-- `timer_tick`. -/
def tick (t : Tunn) (name : TimerName) : Tunn := { t with timers := t.timers.tick name }

/-- Put a session in the ring. -/
def setSession (t : Tunn) (index : ℕ) (session : Option Session) : Tunn :=
  { t with sessions := Function.update t.sessions (slot index) session }

/-- `queue_packet`: at the back, unless too many are waiting. -/
def queuePacket (t : Tunn) (packet : Bytes) : Tunn :=
  if t.packetQueue.length < maxQueueDepth then
    { t with packetQueue := t.packetQueue ++ [packet] }.act (.waits packet)
  else t

/-- `requeue_packet`: at the front, unless too many are waiting. -/
def requeuePacket (t : Tunn) (packet : Bytes) : Tunn :=
  if t.packetQueue.length < maxQueueDepth then
    { t with packetQueue := packet :: t.packetQueue }.act (.waits packet)
  else t

/-- `set_current_session`. -/
def setCurrentSession (t : Tunn) (newIdx : ℕ) : Tunn :=
  if t.current = newIdx then t
  else if (t.sessions (slot t.current)).isNone ∨
      t.timers.sessionTimers (slot newIdx) ≥ t.timers.sessionTimers (slot t.current) then
    { t with current := newIdx }
  else t

/-- `format_handshake_initiation`. -/
def formatHandshakeInitiation (t : Tunn) (call : Call) (forceResend : Bool) : TunnResult × Tunn :=
  if t.handshake.isInProgress ∧ ¬ forceResend then (.done, t)
  else
    let t := if t.handshake.isExpired then { t with timers := t.timers.clear call.now } else t
    let startingNewHandshake := !t.handshake.isInProgress
    match t.handshake.formatHandshakeInitiation P.toPrimitives call.ephemeral call.now
        call.room with
    | (.ok packet, handshake) =>
      let t := { t with handshake }
      let t := if startingNewHandshake then t.tick .timeLastHandshakeStarted else t
      (.writeToNetwork packet, t.tick .timeLastPacketSent)
    | (.error e, handshake) => (.err e, { t with handshake })

/-- `encapsulate`.  `none` is a panic. -/
def encapsulate (t : Tunn) (src : Bytes) (call : Call) : Option (TunnResult × Tunn) :=
  match t.sessions (slot t.current) with
  | some session => do
    let (packet, session') ← session.formatPacketData P.aead src call.room
    let t := t.act (.seals session.sender session.sendingKeyCounter src)
    let t := (t.setSession t.current (some session')).tick .timeLastPacketSent
    -- keepalives are no data
    let t := if src.isEmpty then t else t.tick .timeLastDataPacketSent
    return (.writeToNetwork packet, { t with txBytes := t.txBytes + src.length })
  | none => some ((t.queuePacket src).formatHandshakeInitiation P call false)

/-- The length of an IP packet by its header, and its source. -/
def ipHeader (packet : Bytes) : Option (ℕ × (Bytes → TunnResult)) :=
  match packet.head? with
  | none => none
  | some first =>
    if first.toNat / 2 ^ 4 = 4 ∧ 20 ≤ packet.length then
      some (ofBeBytes16 (packet.getD 2 0) (packet.getD 3 0),
        fun b => .writeToTunnelV4 b (slice packet 12 16))
    else if first.toNat / 2 ^ 4 = 6 ∧ 40 ≤ packet.length then
      some (ofBeBytes16 (packet.getD 4 0) (packet.getD 5 0) + 40,
        fun b => .writeToTunnelV6 b (slice packet 8 24))
    else none

/-- `validate_decapsulated_packet`. -/
def validateDecapsulatedPacket (t : Tunn) (packet : Bytes) : TunnResult × Tunn :=
  if packet.isEmpty then (.done, t)
  else
    match ipHeader packet with
    | none => (.err .invalidPacket, t)
    | some (computedLen, write) =>
      if computedLen > packet.length then (.err .invalidPacket, t)
      else
        let t := t.tick .timeLastDataPacketReceived
        (write (packet.take computedLen), { t with rxBytes := t.rxBytes + computedLen })

/-- `handle_data`. -/
def handleData (t : Tunn) (packet : PacketData) (call : Call) : Option (TunnResult × Tunn) :=
  match t.sessions (slot packet.receiverIdx) with
  | none => some (.err .noCurrentSession, t)
  | some session => do
    match ← session.receivePacketData P.aead packet call.room with
    | (.error e, session') => return (.err e, t.setSession packet.receiverIdx (some session'))
    | (.ok message, session') =>
      let t := t.act (.opens session.receiver packet.counter message)
      let t := t.setSession packet.receiverIdx (some session')
      let t := (t.setCurrentSession packet.receiverIdx).tick .timeLastPacketReceived
      return t.validateDecapsulatedPacket message

/-- `handle_handshake_init`. -/
def handleHandshakeInit (t : Tunn) (packet : HandshakeInit) (call : Call) :
    Option (TunnResult × Tunn) := do
  match ← t.handshake.receiveHandshakeInitialization P.toPrimitives packet call.ephemeral
      call.room with
  | (.error e, handshake) => return (.err e, { t with handshake })
  | (.ok (reply, session), handshake) =>
    let index := session.localIndex
    let t := ({ t with handshake }.act (.establishes session call.now)).setSession index
      (some session)
    let t := (t.tick .timeLastPacketReceived).tick .timeLastPacketSent
    return (.writeToNetwork reply,
      { t with timers := t.timers.tickSessionEstablished false index })

/-- `handle_handshake_response`. -/
def handleHandshakeResponse (t : Tunn) (packet : HandshakeResponse) (call : Call) :
    Option (TunnResult × Tunn) :=
  match t.handshake.receiveHandshakeResponse P.toPrimitives packet call.now with
  | (.error e, handshake) => some (.err e, { t with handshake })
  | (.ok session, handshake) => do
    -- a keepalive tells the peer that the session is there
    let (keepalive, session') ← session.formatPacketData P.aead [] call.room
    let index := session.localIndex
    let t := ({ t with handshake }.act (.establishes session call.now)).act
      (.seals session.sender session.sendingKeyCounter [])
    let t := t.setSession index (some session')
    let t := t.tick .timeLastPacketReceived
    let t := { t with timers := t.timers.tickSessionEstablished true index }
    return (.writeToNetwork keepalive, t.setCurrentSession index)

/-- `handle_cookie_reply`. -/
def handleCookieReply (t : Tunn) (packet : PacketCookieReply) : TunnResult × Tunn :=
  match t.handshake.receiveCookieReply P.toPrimitives packet with
  | (.error e, handshake) => (.err e, { t with handshake })
  | (.ok (), handshake) =>
    (.done, ({ t with handshake }.tick .timeLastPacketReceived).tick .timeCookieReceived)

/-- `handle_verified_packet`. -/
def handleVerifiedPacket (t : Tunn) (packet : Packet) (call : Call) : Option (TunnResult × Tunn) :=
  match packet with
  | .handshakeInit p => t.handleHandshakeInit P p call
  | .handshakeResponse p => t.handleHandshakeResponse P p call
  | .packetCookieReply p => some (t.handleCookieReply P p)
  | .packetData p => t.handleData P p call

/-- `dequeue_packet`: the packet is taken from the front. -/
def dequeued (t : Tunn) (packet : Bytes) (rest : List Bytes) : Tunn :=
  { t with packetQueue := rest }.act (.leaves packet)

/-- `send_queued_packet`. -/
def sendQueuedPacket (t : Tunn) (call : Call) : Option (TunnResult × Tunn) :=
  match t.packetQueue with
  | [] => some (.done, t)
  | packet :: rest => do
    match ← (t.dequeued packet rest).encapsulate P packet call with
    | (.err _, t) => return (.done, t.requeuePacket packet)
    | r => return r

/-- `decapsulate`: an empty datagram asks for the next packet that is waiting. -/
def decapsulate (t : Tunn) (srcAddr : Option IpAddr) (datagram : Bytes) (call : Call) :
    Option (TunnResult × Tunn) :=
  if datagram.isEmpty then t.sendQueuedPacket P call
  else
    match t.rateLimiter.verifyPacket P srcAddr datagram call.now with
    | (.error (.err e), rateLimiter) => some (.err e, { t with rateLimiter })
    | (.error (.writeToNetwork cookie), rateLimiter) =>
      if call.room < cookie.length then none
      else some (.writeToNetwork cookie, { t with rateLimiter })
    | (.ok packet, rateLimiter) => { t with rateLimiter }.handleVerifiedPacket P packet call

/-! ### Timers -/

/-- `clear_all`. -/
def clearAll (t : Tunn) (now : ℕ) : Tunn :=
  { t with sessions := fun _ => none, packetQueue := [], timers := t.timers.clear now }.act
    (.drops t.packetQueue)

/-- `update_session_timers`: sessions end that are too old. -/
def updateSessionTimers (t : Tunn) (timeNow : ℕ) : Tunn :=
  { t with
    sessions := fun i =>
      if timeNow - t.timers.sessionTimers i > rejectAfterTime then none else t.sessions i
    timers := { t.timers with
      sessionTimers := fun i =>
        if timeNow - t.timers.sessionTimers i > rejectAfterTime then timeNow
        else t.timers.sessionTimers i } }

/-- The clock of the tunnel is set, and sessions end that are too old. -/
def advance (t : Tunn) (now : ℕ) : Tunn :=
  let t := if t.timers.shouldResetRr then
    { t with rateLimiter := t.rateLimiter.resetCount now } else t
  let time := now - t.timers.timeStarted
  { t with timers := { t.timers with
    timers := Function.update t.timers.timers .timeCurrent time } }.updateSessionTimers time

/-- A new handshake is due, and none is in progress. -/
def rekeyDue (t : Tunn) (now : ℕ) : Bool × Tunn :=
  let timers := t.timers.timers
  let established := timers .timeSessionEstablished
  let onSend := t.timers.isInitiator && established < timers .timeLastDataPacketSent &&
    now - established ≥ rekeyAfterTime
  let onReceive := t.timers.isInitiator && established < timers .timeLastDataPacketReceived &&
    now - established ≥ rejectAfterTime - keepaliveTimeout - rekeyTimeout
  let silent := timers .timeLastDataPacketSent > timers .timeLastPacketReceived &&
    now - timers .timeLastPacketReceived ≥ keepaliveTimeout + rekeyTimeout
  (onSend || onReceive || silent && t.timers.wantHandshake,
    if silent then { t with timers := { t.timers with wantHandshake := false } } else t)

/-- A keepalive is due. -/
def keepaliveDue (t : Tunn) (now : ℕ) : Bool × Tunn :=
  let timers := t.timers.timers
  let quiet := timers .timeLastDataPacketReceived > timers .timeLastPacketSent &&
    now - timers .timeLastPacketSent ≥ keepaliveTimeout
  let passive := quiet && t.timers.wantKeepalive
  let persistent := t.timers.persistentKeepalive > 0 &&
    now - timers .timePersistentKeepalive ≥ fromSecs t.timers.persistentKeepalive
  let t := if quiet then { t with timers := { t.timers with wantKeepalive := false } } else t
  (passive || persistent, if persistent then t.tick .timePersistentKeepalive else t)

/-- `update_timers`. -/
def updateTimers (t : Tunn) (call : Call) : Option (TunnResult × Tunn) :=
  let t := t.advance call.now
  let now := t.timers.timers .timeCurrent
  if t.handshake.isExpired then some (.err .connectionExpired, t)
  else
    let t := if t.handshake.hasCookie ∧
        now - t.timers.timers .timeCookieReceived ≥ cookieExpirationTime then
      { t with handshake := t.handshake.clearCookie } else t
    if now - t.timers.timers .timeSessionEstablished ≥ rejectAfterTime * 3 then
      some (.err .connectionExpired,
        { t with handshake := t.handshake.setExpired }.clearAll call.now)
    else
      match t.handshake.timer with
      | some timeInitSent =>
        if now - t.timers.timers .timeLastHandshakeStarted ≥ rekeyAttemptTime then
          some (.err .connectionExpired,
            { t with handshake := t.handshake.setExpired }.clearAll call.now)
        else if call.now - timeInitSent ≥ rekeyTimeout then
          some (t.formatHandshakeInitiation P call true)
        else some (.done, t)
      | none =>
        let (rekey, t) := t.rekeyDue now
        if rekey then some (t.formatHandshakeInitiation P call true)
        else
          let (keepalive, t) := t.keepaliveDue now
          if keepalive then t.encapsulate P [] call else some (.done, t)

/-! ### Runs -/

/-- A call of the tunnel. -/
inductive Event
  | encapsulate (src : Bytes) (call : Call)
  | decapsulate (srcAddr : Option IpAddr) (datagram : Bytes) (call : Call)
  | formatHandshakeInitiation (call : Call) (forceResend : Bool)
  | updateTimers (call : Call)

/-- What a call reads of its surroundings. -/
def Event.call : Event → Call
  | .encapsulate _ call | .decapsulate _ _ call | .formatHandshakeInitiation call _
  | .updateTimers call => call

/-- One call, with its result.  `none` is a panic. -/
def perform (t : Tunn) : Event → Option (TunnResult × Tunn)
  | .encapsulate src call => t.encapsulate P src call
  | .decapsulate srcAddr datagram call => t.decapsulate P srcAddr datagram call
  | .formatHandshakeInitiation call forceResend =>
    some (t.formatHandshakeInitiation P call forceResend)
  | .updateTimers call => t.updateTimers P call

/-- The state after one call. -/
def step (t : Tunn) (e : Event) : Option Tunn := (t.perform P e).map Prod.snd

end Tunn

end Tailcat.Noise
