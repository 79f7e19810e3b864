import Mathlib.Logic.Relation
import Tailcat.Lib.Transition
import Tailcat.Noise.Tunn

/-!
# What the calls of a tunnel can do

Every call is a chain of a few small changes to the sessions, the waiting packets and the clock of
the tunnel.

* `Small` : the small changes, each with what it adds to the record.
* `perform_path` : every call is a chain of them.

There are ten small changes, among them that nothing happens to the sessions (`Frame`), that a
packet is put to the waiting ones or taken from them, that one is sealed or opened in a session,
that a session is established, and that the clock advances.  Each constructor has the condition that
the call has checked, so that invariants can be shown change by change and never open a call again.

`Sound` is what the chains need to exist at all: an expired tunnel has no sessions, and at most 256
packets wait.  It is kept by the small changes too.  The calls are gone through in the order of the
source; a buffer shorter than an initiation is excluded, since a queued packet would be lost there.
-/

namespace Tailcat.Noise

namespace Tai64N

theorem after_iff {t t' : Tai64N} :
    t.after t' = true ↔ t'.secs < t.secs ∨ t.secs = t'.secs ∧ t'.nano < t.nano := by
  simp [after]

theorem after_self (t : Tai64N) : t.after t = false :=
  Bool.eq_false_iff.2 fun h => by
    have := after_iff.1 h
    omega

theorem not_after_of_after {t t' : Tai64N} (h : t.after t' = true) : t'.after t = false :=
  Bool.eq_false_iff.2 fun h' => by
    have := after_iff.1 h
    have := after_iff.1 h'
    omega

theorem not_after_trans {t t' t'' : Tai64N} (h : t.after t' = false) (h' : t'.after t'' = false) :
    t.after t'' = false :=
  Bool.eq_false_iff.2 fun hafter => by
    have := mt after_iff.2 (Bool.eq_false_iff.1 h)
    have := mt after_iff.2 (Bool.eq_false_iff.1 h')
    have := after_iff.1 hafter
    omega

end Tai64N

namespace Handshake

variable {P : Primitives} {h h' : Handshake}

/-- Both handshakes expire together. -/
def Settled (h : Handshake) : Prop := h.state = .expired → h.previous = .expired

/-- The keys stay, and the timestamp of the last initiation does not go back. -/
structure Advances (h h' : Handshake) : Prop where
  params : h'.params = h.params
  timestamp : h.lastHandshakeTimestamp.after h'.lastHandshakeTimestamp = false

theorem Advances.refl (h : Handshake) : h.Advances h := ⟨rfl, Tai64N.after_self _⟩

theorem Advances.trans {h'' : Handshake} (ha : h.Advances h') (ha' : h'.Advances h'') :
    h.Advances h'' :=
  ⟨ha'.params.trans ha.params, Tai64N.not_after_trans ha.timestamp ha'.timestamp⟩

theorem Advances.of_eq (hparams : h'.params = h.params)
    (hlast : h'.lastHandshakeTimestamp = h.lastHandshakeTimestamp) : h.Advances h' :=
  ⟨hparams, hlast ▸ Tai64N.after_self _⟩

/-- A handshake goes on, and has expired only if it had before. -/
structure Lasts (h h' : Handshake) : Prop where
  advances : h.Advances h'
  settled : h.Settled → (h'.isExpired = true → h.isExpired = true) ∧ h'.Settled

theorem Lasts.refl (h : Handshake) : h.Lasts h := ⟨.refl h, fun hsettled => ⟨id, hsettled⟩⟩

theorem Lasts.trans {h'' : Handshake} (hl : h.Lasts h') (hl' : h'.Lasts h'') : h.Lasts h'' where
  advances := hl.advances.trans hl'.advances
  settled hsettled :=
    have hfirst := hl.settled hsettled
    have hsecond := hl'.settled hfirst.2
    ⟨fun hexpired => hfirst.1 (hsecond.1 hexpired), hsecond.2⟩

theorem isExpired_iff : h.isExpired = true ↔ h.state = .expired := by
  unfold isExpired
  cases h.state <;> simp

/-- A handshake that is under way lasts. -/
theorem Lasts.of_ne (hadvances : h.Advances h') (hstate : h'.state ≠ .expired) : h.Lasts h' :=
  ⟨hadvances, fun _ => ⟨fun hexpired => absurd (isExpired_iff.1 hexpired) hstate, fun hexpired =>
    absurd hexpired hstate⟩⟩

/-- A change of the rest leaves the handshakes alone. -/
theorem Lasts.of_eq (hadvances : h.Advances h') (hstate : h'.state = h.state)
    (hprevious : h'.previous = h.previous) : h.Lasts h' :=
  ⟨hadvances, fun hsettled =>
    ⟨fun hexpired => isExpired_iff.2 (hstate ▸ isExpired_iff.1 hexpired), fun hexpired =>
      hprevious.trans (hsettled (hstate ▸ hexpired))⟩⟩

theorem lasts_formatHandshakeInitiation {eph : Bytes} {now room : ℕ}
    {r : Except WireGuardError Bytes}
    (hr : h.formatHandshakeInitiation P eph now room = (r, h')) : h.Lasts h' := by
  unfold formatHandshakeInitiation at hr
  split at hr
  · cases hr
    exact .refl h
  · cases hr
    exact .of_ne (.of_eq rfl rfl) (by simp)

/-- An initiation that opens is later than the last one. -/
theorem openInitiation_after {packet : HandshakeInit} {x : Tai64N × Bytes × Bytes}
    (hopen : h.openInitiation P packet = .ok x) : x.1.after h.lastHandshakeTimestamp = true := by
  unfold openInitiation at hopen
  simp only at hopen
  split at hopen
  · cases hopen
  · split at hopen
    · cases hopen
    · split at hopen
      · cases hopen
      · split at hopen
        · next hafter =>
          cases hopen
          exact hafter
        · cases hopen

/-- What is found in an initiation depends on the keys only. -/
theorem openInitiation_unique {packet : HandshakeInit} {x x' : Tai64N × Bytes × Bytes}
    (hparams : h'.params = h.params) (hopen : h.openInitiation P packet = .ok x)
    (hopen' : h'.openInitiation P packet = .ok x') : x' = x := by
  unfold openInitiation at hopen hopen'
  rw [hparams] at hopen'
  simp only at hopen hopen'
  split at hopen
  · cases hopen
  · next hstatic =>
    simp only [hstatic] at hopen'
    split at hopen
    · cases hopen
    · next hpeer =>
      simp only [if_neg hpeer] at hopen'
      split at hopen
      · cases hopen
      · next hstamp =>
        simp only [hstamp] at hopen'
        split at hopen
        · split at hopen'
          · cases hopen
            cases hopen'
            rfl
          · cases hopen'
        · cases hopen

/-- An initiation that is answered gives a new session, and the handshake has not expired. -/
theorem receiveHandshakeInitialization_cases {packet : HandshakeInit} {eph : Bytes} {room : ℕ}
    {r : Except WireGuardError (Bytes × Session)}
    (hr : h.receiveHandshakeInitialization P packet eph room = some (r, h')) :
    h.Lasts h' ∧ ∀ reply s, r = .ok (reply, s) → h'.isExpired = false ∧
      s.sendingKeyCounter = 0 ∧ s.receivingKeyCounter = {} ∧ ∃ x,
        h.openInitiation P packet = .ok x ∧ h'.lastHandshakeTimestamp = x.1 := by
  unfold receiveHandshakeInitialization at hr
  cases hopen : h.openInitiation P packet with
  | error e =>
    rw [hopen] at hr
    cases hr
    exact ⟨.refl h, fun _ _ hx => (by cases hx)⟩
  | ok x =>
    obtain ⟨timestamp, hash, chainingKey⟩ := x
    have hlater := Tai64N.not_after_of_after (openInitiation_after hopen)
    rw [hopen] at hr
    unfold formatHandshakeResponse at hr
    simp only at hr
    split at hr
    · cases hr
      exact ⟨.of_ne ⟨rfl, hlater⟩ (by simp), fun _ _ hx => (by cases hx)⟩
    · cases hr
      refine ⟨.of_ne ⟨rfl, hlater⟩
        (fun hstate : HandshakeState.none = .expired => (by cases hstate)), fun _ _ hx => ?_⟩
      cases hx
      exact ⟨rfl, rfl, rfl, _, rfl, rfl⟩

/-- A response is awaited only before the handshake expires. -/
theorem Settled.awaited {receiverIdx : ℕ} {s : HandshakeInitSentState} {isPrevious : Bool}
    (hsettled : h.Settled) (hs : h.awaited receiverIdx = some (s, isPrevious)) :
    h.state ≠ .expired := by
  intro hstate
  unfold Handshake.awaited at hs
  rw [hstate, hsettled hstate] at hs
  cases hs

/-- A response that is accepted gives a new session, and the handshake has not expired. -/
theorem receiveHandshakeResponse_cases {packet : HandshakeResponse} {now : ℕ}
    {r : Except WireGuardError Session} (hsettled : h.Settled)
    (hr : h.receiveHandshakeResponse P packet now = (r, h')) :
    h.Lasts h' ∧ ∀ s, r = .ok s → h'.isExpired = false ∧
      s.sendingKeyCounter = 0 ∧ s.receivingKeyCounter = {} := by
  unfold receiveHandshakeResponse at hr
  cases hawaited : h.awaited packet.receiverIdx with
  | none =>
    simp only [hawaited] at hr
    cases hr
    exact ⟨.refl h, fun _ hx => (by cases hx)⟩
  | some x =>
    obtain ⟨state, isPrevious⟩ := x
    have hstate := hsettled.awaited hawaited
    simp only [hawaited] at hr
    split at hr
    · cases hr
      exact ⟨.refl h, fun _ hx => (by cases hx)⟩
    · cases isPrevious with
      | true =>
        cases hr
        refine ⟨.of_ne (.of_eq rfl rfl) hstate, fun _ hx => ?_⟩
        cases hx
        exact ⟨Bool.eq_false_iff.2 fun hexpired => hstate (isExpired_iff.1 hexpired), rfl, rfl⟩
      | false =>
        cases hr
        refine ⟨.of_ne (.of_eq rfl rfl) (by simp), fun _ hx => ?_⟩
        cases hx
        exact ⟨rfl, rfl, rfl⟩

theorem lasts_receiveCookieReply {packet : PacketCookieReply} {r : Except WireGuardError Unit}
    (hr : h.receiveCookieReply P packet = (r, h')) : h.Lasts h' := by
  unfold receiveCookieReply at hr
  split at hr
  · cases hr
    exact .refl h
  · split at hr
    · cases hr
      exact .refl h
    · simp only at hr
      split at hr
      · cases hr
        exact .refl h
      · split at hr
        · cases hr
          exact .of_eq (.of_eq rfl rfl) rfl rfl
        · cases hr
          exact .refl h

end Handshake

namespace Tunn

/-- The clock of the tunnel: the time of the last call of `update_timers`. -/
def clock (t : Tunn) : ℕ := t.timers.timers .timeCurrent

/-- Sessions, waiting packets and the clock are the same. -/
structure Frame (t t' : Tunn) : Prop where
  sessions : t'.sessions = t.sessions
  queue : t'.packetQueue = t.packetQueue
  clock : t'.clock = t.clock
  sessionTimers : t'.timers.sessionTimers = t.timers.sessionTimers
  started : t'.timers.timeStarted = t.timers.timeStarted
  trace : t'.trace = t.trace
  lasts : t.handshake.Lasts t'.handshake

theorem Frame.refl (t : Tunn) : Frame t t := ⟨rfl, rfl, rfl, rfl, rfl, rfl, .refl _⟩

theorem Frame.trans {t u v : Tunn} (h : Frame t u) (h' : Frame u v) : Frame t v :=
  ⟨h'.sessions.trans h.sessions, h'.queue.trans h.queue, h'.clock.trans h.clock,
    h'.sessionTimers.trans h.sessionTimers, h'.started.trans h.started, h'.trace.trans h.trace,
    h.lasts.trans h'.lasts⟩

/-- A packet is sealed in the session of a slot. -/
def sealing (t : Tunn) (index : ℕ) (s : Session) (packet : Bytes) : Tunn :=
  (t.act (.seals s.sender s.sendingKeyCounter packet)).setSession index
    (some { s with sendingKeyCounter := (s.sendingKeyCounter + 1) % u64 })

/-- A packet is opened in the session of a slot. -/
def opening (t : Tunn) (index : ℕ) (s : Session) (v : ReceivingKeyCounterValidator) (counter : ℕ)
    (packet : Bytes) : Tunn :=
  (t.act (.opens s.receiver counter packet)).setSession index
    (some { s with receivingKeyCounter := v })

/-- A session is established. -/
def establishing (t : Tunn) (s : Session) (time : ℕ) : Tunn :=
  { (t.act (.establishes s time)).setSession s.receivingIndex (some s) with
    timers := { t.timers with
      sessionTimers := Function.update t.timers.sessionTimers (slot s.receivingIndex) t.clock } }

/-- The waiting packets are replaced. -/
def withQueue (t : Tunn) (packets : List Bytes) : Tunn := { t with packetQueue := packets }

/-- The clock is set. -/
def setClock (t : Tunn) (time : ℕ) : Tunn :=
  { t with timers := { t.timers with
    timers := Function.update t.timers.timers .timeCurrent time } }

/-- A small change, by a call at some time. -/
inductive Small (now : ℕ) : Tunn → Tunn → Prop
  | frame {t t' : Tunn} : Frame t t' → Small now t t'
  | waits {t : Tunn} (packet : Bytes) : t.packetQueue.length < maxQueueDepth →
    Small now t ((t.withQueue (t.packetQueue ++ [packet])).act (.waits packet))
  /-- A waiting packet is put to the back, as there is no session yet. -/
  | rotates {t : Tunn} (packet : Bytes) (rest : List Bytes) : t.packetQueue = packet :: rest →
    Small now t
      (((t.dequeued packet rest).withQueue (rest ++ [packet])).act (.waits packet))
  /-- A waiting packet is sealed. -/
  | resumes {t : Tunn} (packet : Bytes) (rest : List Bytes) (index : ℕ) (s : Session) :
    t.packetQueue = packet :: rest → t.sessions (slot index) = some s →
      Small now t ((t.dequeued packet rest).sealing index s packet)
  | seals {t : Tunn} (index : ℕ) (s : Session) (packet : Bytes) :
    t.sessions (slot index) = some s → Small now t (t.sealing index s packet)
  | opens {t : Tunn} (s : Session) (v : ReceivingKeyCounterValidator) (counter : ℕ)
      (packet : Bytes) : t.sessions (slot s.receivingIndex) = some s →
    s.receivingKeyCounter.receivingCounterMark counter = some (.ok (), v) →
      Small now t (t.opening s.receivingIndex s v counter packet)
  | establishes {t : Tunn} (s : Session) : t.handshake.isExpired = false →
    s.sendingKeyCounter = 0 → s.receivingKeyCounter = {} → Small now t (t.establishing s now)
  /-- The clock advances, and sessions end that are too old. -/
  | advances {t : Tunn} : Small now t
      ((t.setClock (now - t.timers.timeStarted)).updateSessionTimers (now - t.timers.timeStarted))
  /-- The timers start again, when there are no sessions. -/
  | restarts {t : Tunn} : (∀ i, t.sessions i = none) →
    Small now t { t with timers := t.timers.clear now }
  /-- The tunnel expires. -/
  | expires {t : Tunn} :
    Small now t ({ t with handshake := t.handshake.setExpired }.clearAll now)

/-- A chain of small changes. -/
abbrev Path (now : ℕ) : Tunn → Tunn → Prop := Relation.ReflTransGen (Small now)

/-- An expired tunnel has no sessions, and the waiting packets are not too many. -/
structure Sound (t : Tunn) : Prop where
  settled : t.handshake.Settled
  expired : t.handshake.isExpired = true → ∀ i, t.sessions i = none
  depth : t.packetQueue.length ≤ maxQueueDepth

variable {P : LimiterPrimitives} {now : ℕ} {t t' u : Tunn} {call : Call} {r : TunnResult}

theorem Frame.path (h : Frame t t') : Path now t t' := .single (.frame h)

theorem Frame.sound (h : Frame t t') (ht : t.Sound) : t'.Sound where
  settled := (h.lasts.settled ht.settled).2
  expired hexpired i := by
    rw [h.sessions]
    exact ht.expired ((h.lasts.settled ht.settled).1 hexpired) i
  depth := by
    rw [h.queue]
    exact ht.depth

/-! ### Calls -/

theorem frame_tick (t : Tunn) {name : TimerName} (hname : name ≠ .timeCurrent) :
    Frame t (t.tick name) :=
  ⟨rfl, rfl, Function.update_of_ne hname.symm .., rfl, rfl, rfl, .refl _⟩

theorem frame_setCurrentSession (t : Tunn) (newIdx : ℕ) : Frame t (t.setCurrentSession newIdx) := by
  unfold setCurrentSession
  split
  · exact .refl t
  · split
    · exact ⟨rfl, rfl, rfl, rfl, rfl, rfl, .refl _⟩
    · exact .refl t

/-- A session is put in the ring with the current time. -/
theorem frame_established (t : Tunn) (isInitiator : Bool) (s : Session) :
    Frame (({ t with timers := { t.timers with
      sessionTimers := Function.update t.timers.sessionTimers (slot s.receivingIndex) t.clock } }))
      { t with timers := t.timers.tickSessionEstablished isInitiator s.receivingIndex } := by
  have hclock : (t.timers.tick .timeSessionEstablished).timers .timeCurrent = t.clock :=
    (frame_tick t (by decide : TimerName.timeSessionEstablished ≠ .timeCurrent)).clock
  refine ⟨rfl, rfl, hclock, ?_, rfl, rfl, .refl _⟩
  simp only [Timers.tickSessionEstablished, hclock]
  rfl

/-- An initiation is sent, and the timers start again if the tunnel has expired. -/
theorem formatHandshakeInitiation_path {force : Bool} (ht : t.Sound)
    (h : t.formatHandshakeInitiation P call force = (r, t')) : Path call.now t t' := by
  unfold formatHandshakeInitiation at h
  split at h
  · cases h
    exact .refl
  · simp only at h
    -- the timers, then the handshake
    obtain ⟨u, hu, hpath⟩ : ∃ u, u = (if t.handshake.isExpired = true then
        { t with timers := t.timers.clear call.now } else t) ∧ Path call.now t u := by
      refine ⟨_, rfl, ?_⟩
      split
      · next hexpired => exact .single (.restarts (ht.expired hexpired))
      · exact .refl
    rw [← hu] at h
    cases hformat : u.handshake.formatHandshakeInitiation P.toPrimitives call.ephemeral call.now
        call.room with
    | mk x handshake =>
      have hlasts := Handshake.lasts_formatHandshakeInitiation hformat
      have hframe : Frame u { u with handshake } := ⟨rfl, rfl, rfl, rfl, rfl, rfl, hlasts⟩
      rw [hformat] at h
      cases x with
      | error e =>
        cases h
        exact hpath.trans hframe.path
      | ok packet =>
        cases h
        refine hpath.trans (hframe.trans (Frame.trans ?_ (frame_tick _ (by decide)))).path
        split
        · exact frame_tick _ (by decide)
        · exact .refl _

/-- In a buffer of the documented size an initiation can always be written. -/
theorem formatHandshakeInitiation_ne_err {force : Bool} (hroom : handshakeInitSz ≤ call.room)
    (h : t.formatHandshakeInitiation P call force = (r, t')) : ∀ e, r ≠ .err e := by
  intro e hr
  subst hr
  unfold formatHandshakeInitiation at h
  split at h
  · cases h
  · simp only [Handshake.formatHandshakeInitiation, if_neg (Nat.not_lt.2 hroom)] at h
    cases h

theorem queuePacket_path (t : Tunn) (packet : Bytes) : Path now t (t.queuePacket packet) := by
  unfold queuePacket
  split
  · next hroom => exact .single (.waits packet hroom)
  · exact .refl

theorem queuePacket_sound (ht : t.Sound) (packet : Bytes) : (t.queuePacket packet).Sound := by
  unfold queuePacket
  split
  · next hroom =>
    refine ⟨ht.settled, ht.expired, ?_⟩
    simp only [act, List.length_append, List.length_singleton]
    omega
  · exact ht

/-- A packet is sealed in the current session, if there is one. -/
theorem encapsulate_of_session {src : Bytes} {s : Session}
    (hs : t.sessions (slot t.current) = some s) (h : t.encapsulate P src call = some (r, t')) :
    (∃ datagram, r = .writeToNetwork datagram) ∧ Frame (t.sealing t.current s src) t' := by
  unfold encapsulate at h
  rw [hs] at h
  cases hformat : s.formatPacketData P.aead src call.room with
  | none => simp [hformat] at h
  | some x =>
    obtain ⟨datagram, s'⟩ := x
    have hs' := Session.formatPacketData_session hformat
    subst hs'
    simp only [hformat, Option.bind_eq_bind, Option.bind_some] at h
    cases h
    refine ⟨⟨datagram, rfl⟩, ?_⟩
    refine Frame.trans (frame_tick _ (by decide : TimerName.timeLastPacketSent ≠ .timeCurrent)) ?_
    split
    · exact ⟨rfl, rfl, rfl, rfl, rfl, rfl, .refl _⟩
    · exact (frame_tick _ (by decide : TimerName.timeLastDataPacketSent ≠ .timeCurrent)).trans
        ⟨rfl, rfl, rfl, rfl, rfl, rfl, .refl _⟩

theorem encapsulate_of_none {src : Bytes} (hs : t.sessions (slot t.current) = none) :
    t.encapsulate P src call =
      some ((t.queuePacket src).formatHandshakeInitiation P call false) := by
  unfold encapsulate
  rw [hs]

theorem encapsulate_path {src : Bytes} (ht : t.Sound)
    (h : t.encapsulate P src call = some (r, t')) : Path call.now t t' := by
  cases hs : t.sessions (slot t.current) with
  | some s =>
    exact .trans (.single (.seals t.current s src hs)) (encapsulate_of_session hs h).2.path
  | none =>
    rw [encapsulate_of_none hs] at h
    exact (queuePacket_path t src).trans
      (formatHandshakeInitiation_path (queuePacket_sound ht src) (Option.some.inj h))

theorem sendQueuedPacket_path (ht : t.Sound) (hroom : handshakeInitSz ≤ call.room)
    (h : t.sendQueuedPacket P call = some (r, t')) : Path call.now t t' := by
  unfold sendQueuedPacket at h
  cases hqueue : t.packetQueue with
  | nil =>
    rw [hqueue] at h
    cases h
    exact .refl
  | cons packet rest =>
    rw [hqueue] at h
    simp only at h
    have hdepth : rest.length < maxQueueDepth := by
      have := ht.depth
      rw [hqueue, List.length_cons] at this
      omega
    cases hencap : (t.dequeued packet rest).encapsulate P packet call with
    | none =>
      rw [hencap] at h
      cases h
    | some x =>
      obtain ⟨r', u⟩ := x
      rw [hencap] at h
      cases hs : (t.dequeued packet rest).sessions (slot (t.dequeued packet rest).current) with
      | some s =>
        obtain ⟨⟨datagram, rfl⟩, hframe⟩ := encapsulate_of_session hs hencap
        cases h
        exact .trans (.single (.resumes packet rest t.current s hqueue hs)) hframe.path
      | none =>
        rw [encapsulate_of_none hs] at hencap
        -- there is no session: the packet is put to the back, and a handshake started
        have hrotate : (t.dequeued packet rest).queuePacket packet =
            ((t.dequeued packet rest).withQueue (rest ++ [packet])).act (.waits packet) := by
          unfold queuePacket
          exact if_pos hdepth
        rw [hrotate] at hencap
        have hformat := Option.some.inj hencap
        have hsound : (((t.dequeued packet rest).withQueue (rest ++ [packet])).act
            (.waits packet)).Sound := by
          refine ⟨ht.settled, ht.expired, ?_⟩
          simp only [act, withQueue, List.length_append, List.length_singleton]
          omega
        have hpath : Path call.now t u := .trans (.single (.rotates packet rest hqueue))
          (formatHandshakeInitiation_path hsound hformat)
        have hok := formatHandshakeInitiation_ne_err hroom hformat
        cases r' with
        | err e => exact absurd rfl (hok e)
        | done =>
          cases h
          exact hpath
        | writeToNetwork datagram =>
          cases h
          exact hpath
        | writeToTunnelV4 b addr =>
          cases h
          exact hpath
        | writeToTunnelV6 b addr =>
          cases h
          exact hpath

/-- Small changes keep a tunnel sound. -/
theorem Small.sound (h : Small now t t') (ht : t.Sound) : t'.Sound := by
  have hlive : ∀ {i s}, t.sessions i = some s → t.handshake.isExpired = true → False :=
    fun {i s} hs hexpired => by
      rw [ht.expired hexpired i] at hs
      cases hs
  cases h with
  | frame h => exact h.sound ht
  | waits packet hroom =>
    refine ⟨ht.settled, ht.expired, ?_⟩
    simp only [act, withQueue, List.length_append, List.length_singleton]
    omega
  | rotates packet rest hqueue =>
    refine ⟨ht.settled, ht.expired, ?_⟩
    have hdepth := ht.depth
    rw [hqueue, List.length_cons] at hdepth
    simpa [act, withQueue] using hdepth
  | resumes packet rest index s hqueue hs =>
    refine ⟨ht.settled, fun hexpired => (hlive hs hexpired).elim, ?_⟩
    have hdepth := ht.depth
    rw [hqueue, List.length_cons] at hdepth
    simp only [sealing, dequeued, act, setSession]
    omega
  | seals index s packet hs =>
    exact ⟨ht.settled, fun hexpired => (hlive hs hexpired).elim, ht.depth⟩
  | opens s v counter packet hs =>
    exact ⟨ht.settled, fun hexpired => (hlive hs hexpired).elim, ht.depth⟩
  | establishes s hlasts =>
    -- an expired handshake establishes nothing
    refine ⟨ht.settled, fun hexpired => ?_, ht.depth⟩
    have hexpired' : t.handshake.isExpired = true := hexpired
    rw [hlasts] at hexpired'
    cases hexpired'
  | advances =>
    refine ⟨ht.settled, fun hexpired i => ?_, ht.depth⟩
    simp only [updateSessionTimers]
    split
    · rfl
    · exact ht.expired hexpired i
  | restarts hnone => exact ⟨ht.settled, fun _ => hnone, ht.depth⟩
  | expires => exact ⟨fun _ => rfl, fun _ _ => rfl, Nat.zero_le _⟩

theorem Path.sound (h : Path now t t') (ht : t.Sound) : t'.Sound := by
  induction h with
  | refl => exact ht
  | tail _ hlast ih => exact hlast.sound ih

theorem frame_validateDecapsulatedPacket {packet : Bytes}
    (h : t.validateDecapsulatedPacket packet = (r, t')) : Frame t t' := by
  unfold validateDecapsulatedPacket at h
  split at h
  · cases h
    exact .refl t
  · split at h
    · cases h
      exact .refl t
    · split at h
      · cases h
        exact .refl t
      · cases h
        exact (frame_tick t (by decide : TimerName.timeLastDataPacketReceived ≠ .timeCurrent)).trans
          ⟨rfl, rfl, rfl, rfl, rfl, rfl, .refl _⟩

theorem handleData_path {packet : PacketData} (h : t.handleData P packet call = some (r, t')) :
    Path call.now t t' := by
  unfold handleData at h
  cases hs : t.sessions (slot packet.receiverIdx) with
  | none =>
    simp only [hs] at h
    cases h
    exact .refl
  | some s =>
    cases hreceive : s.receivePacketData P.aead packet call.room with
    | none => simp [hs, hreceive] at h
    | some x =>
      obtain ⟨y, s'⟩ := x
      simp only [hs, hreceive, Option.bind_eq_bind, Option.bind_some] at h
      obtain ⟨⟨e, rfl⟩, rfl⟩ | ⟨message, v, rfl, hidx, -, hmark, rfl⟩ :=
        Session.receivePacketData_cases hreceive
      · cases h
        -- a packet that is refused leaves its session as it was
        have hsame : (t.setSession packet.receiverIdx (some s')).sessions = t.sessions := by
          simp only [setSession, ← hs, Function.update_eq_self]
        exact (⟨hsame, rfl, rfl, rfl, rfl, rfl, .refl _⟩ : Frame t _).path
      · rw [hidx] at hs h
        have hframe : Frame (t.opening s.receivingIndex s v packet.counter message) _ :=
          ((frame_setCurrentSession _ s.receivingIndex).trans
            (frame_tick _ (by decide : TimerName.timeLastPacketReceived ≠ .timeCurrent))).trans
              (frame_validateDecapsulatedPacket (Option.some.inj h))
        exact .trans (.single (.opens s v packet.counter message hs hmark)) hframe.path

/-- Establishing a session at the same place and time is the same. -/
theorem Frame.established {s : Session} (h : Frame u t) :
    Frame { u with timers := { u.timers with
      sessionTimers := Function.update u.timers.sessionTimers (slot s.receivingIndex) u.clock } }
      { t with timers := { t.timers with
        sessionTimers :=
          Function.update t.timers.sessionTimers (slot s.receivingIndex) t.clock } } where
  sessions := h.sessions
  queue := h.queue
  clock := h.clock
  sessionTimers := by simp only [h.sessionTimers, h.clock]
  started := h.started
  trace := h.trace
  lasts := h.lasts

theorem handleHandshakeInit_path {packet : HandshakeInit}
    (h : t.handleHandshakeInit P packet call = some (r, t')) : Path call.now t t' := by
  unfold handleHandshakeInit at h
  cases hreceive : t.handshake.receiveHandshakeInitialization P.toPrimitives packet call.ephemeral
      call.room with
  | none => simp [hreceive] at h
  | some x =>
    obtain ⟨y, handshake⟩ := x
    simp only [hreceive, Option.bind_eq_bind, Option.bind_some] at h
    obtain ⟨hlasts, hok⟩ := Handshake.receiveHandshakeInitialization_cases hreceive
    have hframe : Frame t { t with handshake } := ⟨rfl, rfl, rfl, rfl, rfl, rfl, hlasts⟩
    cases y with
    | error e =>
      cases h
      exact hframe.path
    | ok x =>
      obtain ⟨reply, s⟩ := x
      cases h
      obtain ⟨hexpired, hcounter, hvalidator, -⟩ := hok reply s rfl
      set v : Tunn :=
        ({ t with handshake }.act (.establishes s call.now)).setSession s.localIndex (some s)
      have hticks : Frame v ((v.tick .timeLastPacketReceived).tick .timeLastPacketSent) :=
        (frame_tick _ (by decide)).trans (frame_tick _ (by decide))
      refine hframe.path.trans (.trans (.single (.establishes s hexpired hcounter hvalidator)) ?_)
      exact (hticks.established.trans (frame_established _ false s)).path

theorem handleHandshakeResponse_path {packet : HandshakeResponse} (ht : t.Sound)
    (h : t.handleHandshakeResponse P packet call = some (r, t')) : Path call.now t t' := by
  unfold handleHandshakeResponse at h
  cases hreceive : t.handshake.receiveHandshakeResponse P.toPrimitives packet call.now with
  | mk x handshake =>
    obtain ⟨hlasts, hok⟩ := Handshake.receiveHandshakeResponse_cases ht.settled hreceive
    have hframe : Frame t { t with handshake } := ⟨rfl, rfl, rfl, rfl, rfl, rfl, hlasts⟩
    simp only [hreceive] at h
    cases x with
    | error e =>
      cases h
      exact hframe.path
    | ok s =>
      obtain ⟨hexpired, hcounter, hvalidator⟩ := hok s rfl
      cases hformat : s.formatPacketData P.aead [] call.room with
      | none => simp [hformat] at h
      | some x =>
        obtain ⟨datagram, s'⟩ := x
        have hs' := Session.formatPacketData_session hformat
        subst hs'
        simp only [hformat, Option.bind_eq_bind, Option.bind_some] at h
        cases h
        -- the session, then the keepalive in it
        have hestablish : Small call.now { t with handshake } _ :=
          .establishes s hexpired hcounter hvalidator
        have hseal : Small call.now (establishing { t with handshake } s call.now) _ :=
          .seals s.receivingIndex s [] (Function.update_self ..)
        refine hframe.path.trans (.trans (.single hestablish) (.trans (.single hseal) ?_))
        set v : Tunn := (({ t with handshake }.act (.establishes s call.now)).act
          (.seals s.sender s.sendingKeyCounter [])).setSession s.localIndex
            (some { s with sendingKeyCounter := (s.sendingKeyCounter + 1) % u64 })
        have hsame : Frame
            ((establishing { t with handshake } s call.now).sealing s.receivingIndex s [])
            { v with timers := { v.timers with
              sessionTimers :=
                Function.update v.timers.sessionTimers (slot s.receivingIndex) v.clock } } :=
          ⟨(Function.update_idem ..).symm, rfl, rfl, rfl, rfl, rfl, .refl _⟩
        have htick : Frame v (v.tick .timeLastPacketReceived) := frame_tick _ (by decide)
        exact ((hsame.trans (htick.established.trans (frame_established _ true s))).trans
          (frame_setCurrentSession _ _)).path

theorem handleCookieReply_path {packet : PacketCookieReply}
    (h : t.handleCookieReply P packet = (r, t')) : Path now t t' := by
  unfold handleCookieReply at h
  cases hreceive : t.handshake.receiveCookieReply P.toPrimitives packet with
  | mk x handshake =>
    have hlasts := Handshake.lasts_receiveCookieReply hreceive
    have hframe : Frame t { t with handshake } := ⟨rfl, rfl, rfl, rfl, rfl, rfl, hlasts⟩
    rw [hreceive] at h
    cases x with
    | error e =>
      cases h
      exact hframe.path
    | ok u =>
      cases h
      exact (hframe.trans ((frame_tick _ (by decide)).trans (frame_tick _ (by decide)))).path

theorem handleVerifiedPacket_path {packet : Packet} (ht : t.Sound)
    (h : t.handleVerifiedPacket P packet call = some (r, t')) : Path call.now t t' := by
  unfold handleVerifiedPacket at h
  cases packet with
  | handshakeInit p => exact handleHandshakeInit_path h
  | handshakeResponse p => exact handleHandshakeResponse_path ht h
  | packetCookieReply p => exact handleCookieReply_path (Option.some.inj h)
  | packetData p => exact handleData_path h

theorem decapsulate_path {srcAddr : Option Net.IpAddr} {datagram : Bytes} (ht : t.Sound)
    (hroom : handshakeInitSz ≤ call.room)
    (h : t.decapsulate P srcAddr datagram call = some (r, t')) : Path call.now t t' := by
  unfold decapsulate at h
  split at h
  · exact sendQueuedPacket_path ht hroom h
  · cases hverify : t.rateLimiter.verifyPacket P srcAddr datagram call.now with
    | mk x rateLimiter =>
      have hframe : Frame t { t with rateLimiter } := ⟨rfl, rfl, rfl, rfl, rfl, rfl, .refl _⟩
      rw [hverify] at h
      cases x with
      | ok packet => exact hframe.path.trans (handleVerifiedPacket_path (hframe.sound ht) h)
      | error refusal =>
        cases refusal with
        | err e =>
          cases h
          exact hframe.path
        | writeToNetwork cookie =>
          simp only at h
          split at h
          · cases h
          · cases h
            exact hframe.path

/-! ### Timers -/

theorem advance_path (t : Tunn) (now : ℕ) : Path now t (t.advance now) := by
  unfold advance
  have hframe : Frame t (if t.timers.shouldResetRr then
      { t with rateLimiter := t.rateLimiter.resetCount now } else t) := by
    split
    · exact ⟨rfl, rfl, rfl, rfl, rfl, rfl, .refl _⟩
    · exact .refl t
  exact hframe.path.trans (.single .advances)

theorem frame_rekeyDue (t : Tunn) (now : ℕ) : Frame t (t.rekeyDue now).2 := by
  unfold rekeyDue
  simp only
  split
  · exact ⟨rfl, rfl, rfl, rfl, rfl, rfl, .refl _⟩
  · exact .refl t

theorem frame_keepaliveDue (t : Tunn) (now : ℕ) : Frame t (t.keepaliveDue now).2 := by
  unfold keepaliveDue
  simp only
  have hquiet : ∀ quiet : Bool, Frame t
      (if quiet = true then
        { t with timers := { t.timers with wantKeepalive := false } } else t) := by
    intro quiet
    split
    · exact ⟨rfl, rfl, rfl, rfl, rfl, rfl, .refl _⟩
    · exact .refl t
  split
  · exact (hquiet _).trans (frame_tick _ (by decide))
  · exact hquiet _

/-- After the clock is set, the rest of the timer call. -/
theorem updateTimers_path_advance (ht : t.Sound) (h : t.updateTimers P call = some (r, t')) :
    Path call.now (t.advance call.now) t' := by
  unfold updateTimers at h
  have hsound := (advance_path t call.now).sound ht
  generalize t.advance call.now = u at h hsound ⊢
  simp only at h
  split at h
  · cases h
    exact .refl
  · -- a cookie that is too old is forgotten
    obtain ⟨v, hv, hframe⟩ : ∃ v, v = (if u.handshake.hasCookie ∧
        u.timers.timers .timeCurrent - u.timers.timers .timeCookieReceived ≥
          cookieExpirationTime then
        { u with handshake := u.handshake.clearCookie } else u) ∧ Frame u v := by
      refine ⟨_, rfl, ?_⟩
      split
      · exact ⟨rfl, rfl, rfl, rfl, rfl, rfl, .of_eq (.of_eq rfl rfl) rfl rfl⟩
      · exact .refl u
    rw [← hv] at h
    refine hframe.path.trans ?_
    have hsound' := hframe.sound hsound
    split at h
    · cases h
      exact .single .expires
    · split at h
      · -- a handshake is in progress
        split at h
        · cases h
          exact .single .expires
        · split at h
          · exact formatHandshakeInitiation_path hsound' (Option.some.inj h)
          · cases h
            exact .refl
      · -- no handshake is in progress
        have hrekey := frame_rekeyDue v (u.timers.timers .timeCurrent)
        refine hrekey.path.trans ?_
        split at h
        · exact formatHandshakeInitiation_path (hrekey.sound hsound') (Option.some.inj h)
        · have hkeepalive := frame_keepaliveDue (v.rekeyDue (u.timers.timers .timeCurrent)).2
            (u.timers.timers .timeCurrent)
          refine hkeepalive.path.trans ?_
          split at h
          · exact encapsulate_path (hkeepalive.sound (hrekey.sound hsound')) h
          · cases h
            exact .refl

theorem updateTimers_path (ht : t.Sound) (h : t.updateTimers P call = some (r, t')) :
    Path call.now t t' :=
  (advance_path t call.now).trans (updateTimers_path_advance ht h)

/-! ### Runs -/

/-- **Every call is a chain of small changes**, if its buffer has room for an initiation. -/
theorem perform_path {e : Event} (ht : t.Sound) (hroom : handshakeInitSz ≤ e.call.room)
    (h : t.perform P e = some (r, t')) : Path e.call.now t t' := by
  cases e with
  | encapsulate src call => exact encapsulate_path ht h
  | decapsulate srcAddr datagram call => exact decapsulate_path ht hroom h
  | formatHandshakeInitiation call force =>
    exact formatHandshakeInitiation_path ht (Option.some.inj h)
  | updateTimers call => exact updateTimers_path ht h

end Tunn

end Tailcat.Noise
