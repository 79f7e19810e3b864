import Tailcat.Noise.Session

/-!
# Two ends of a session

The two ends of a session, and a network between them that holds back, repeats, reorders and alters
what is sent, and makes up datagrams of its own; only it does not make cipher texts that open.

* `reachable` : what holds after every run, by the induction over its events.
* `at_most_once` : whatever an end delivers, the other end has sent, under the same counter; nothing
  is delivered twice, and no counter is used for two packets.
* `Inv.arrivals` : of the datagrams that arrive as they were sent, an end delivers those whose
  counters an abstract window accepts.
* `all_delivered` : datagrams that arrive once each, displaced by less than the window, are all
  delivered.
-/

namespace Tailcat.Noise

open ReplayWindow Transition

/-- An end of a session. -/
inductive Side
  | left
  | right
  deriving DecidableEq, Repr

/-- The end across. -/
def Side.other : Side → Side
  | .left => .right
  | .right => .left

@[simp] theorem Side.other_other (side : Side) : side.other.other = side := by cases side <;> rfl

theorem Side.eq_or (side from_ : Side) : from_ = side ∨ from_ = side.other := by
  cases side <;> cases from_ <;> decide

/-- The two ends, and what they have done. -/
structure Exchange where
  session : Side → Session
  /-- The packets that each end has sent, with their datagrams. -/
  sent : Side → List (Bytes × Bytes) := fun _ => []
  /-- What each end has delivered, with its counter, the latest first. -/
  delivered : Side → List (ℕ × Bytes) := fun _ => []

namespace Exchange

/-- What happens. -/
inductive Event
  | send (side : Side) (payload : Bytes)
  | arrive (side : Side) (datagram : Bytes)

variable (aead : Aead) (room : ℕ)

/-- An end sends a packet. -/
def send (x : Exchange) (side : Side) (payload : Bytes) : Option Exchange := do
  let (datagram, s) ← (x.session side).formatPacketData aead payload room
  return { x with
    session := Function.update x.session side s
    sent := Function.update x.sent side (x.sent side ++ [(payload, datagram)]) }

/-- A datagram arrives at an end: only data packets concern its session. -/
def arrive (x : Exchange) (side : Side) (datagram : Bytes) : Option Exchange :=
  match parseIncomingPacket datagram with
  | .ok (.packetData p) => do
    let (r, s) ← (x.session side).receivePacketData aead p room
    let x' := { x with session := Function.update x.session side s }
    match r with
    | .ok message => return { x' with
        delivered := Function.update x.delivered side ((p.counter, message) :: x.delivered side) }
    | .error _ => return x'
  | _ => some x

/-- One event. -/
def step (x : Exchange) : Event → Option Exchange
  | .send side payload => x.send aead room side payload
  | .arrive side datagram => x.arrive aead room side datagram

/-- The counters of what an end has delivered. -/
def counters (x : Exchange) (side : Side) : List ℕ := (x.delivered side).map Prod.fst

/-- A cipher text that was sealed with a key under a counter, and sent. -/
def Sealed (x : Exchange) (key : Bytes) (counter : ℕ) (cipher : Bytes) : Prop :=
  ∃ side, (x.session side).sender = key ∧ ∃ sent ∈ x.sent side, ∃ p,
    parseIncomingPacket sent.2 = .ok (.packetData p) ∧ p.counter = counter ∧
      p.encryptedEncapsulatedPacket = cipher

/-- What can happen: packets and datagrams fit in the buffers, and a cipher text that opens was
sealed by an end. -/
def Possible (x : Exchange) : Event → Prop
  | .send _ payload => payload.length + dataOverheadSz ≤ room
  | .arrive side datagram => datagram.length ≤ room ∧
    ∀ p, parseIncomingPacket datagram = .ok (.packetData p) →
      (x.session side).opened aead p ≠ none →
        x.Sealed (x.session side).receiver p.counter p.encryptedEncapsulatedPacket

/-- The ends of one session, as the handshake sets them up, with different keys for the two
directions. -/
structure Paired (left right : Session) : Prop extends left.Crossed right where
  keys : left.sender ≠ right.sender

/-- A session before any packet. -/
def start (left right : Session) : Exchange where
  session
    | .left => left
    | .right => right

/-! ### What holds after every run -/

/-- The ends after so many packets at most. -/
structure Inv (x : Exchange) (n : ℕ) : Prop where
  /-- Each end seals with the key that the other opens with. -/
  keys : ∀ side, (x.session side).sender = (x.session side.other).receiver
  distinct : ∀ side, (x.session side).sender ≠ (x.session side.other).sender
  index : ∀ side, (x.session side).sendingIndex = (x.session side.other).receivingIndex
  indexLt : ∀ side, (x.session side).sendingIndex < 2 ^ 32
  /-- The next packet is sealed under the number of those sent. -/
  counter : ∀ side, (x.session side).sendingKeyCounter = (x.sent side).length
  bound : ∀ side, (x.sent side).length ≤ n
  /-- Each packet is sealed under its number. -/
  form : ∀ side i payload datagram, (x.sent side)[i]? = some (payload, datagram) →
    datagram = (Packet.packetData ((x.session side).outgoing aead i payload)).encode
  window : ∀ side, (x.session side).receivingKeyCounter.Refines (x.counters side)
  /-- What was delivered was sent by the other end, under its counter. -/
  origin : ∀ side i payload, (i, payload) ∈ x.delivered side →
    ∃ datagram, (x.sent side.other)[i]? = some (payload, datagram)
  nodup : ∀ side, (x.counters side).Nodup

variable {aead room} {x x' : Exchange} {n i : ℕ} {side : Side} {payload datagram message : Bytes}
  {left right : Session}

theorem Inv.start (h : Paired left right) : Inv aead (start left right) 0 where
  keys side := by
    cases side
    · exact h.toRight
    · exact h.toLeft
  distinct side := by
    cases side
    · exact h.keys
    · exact h.keys.symm
  index side := by
    cases side
    · exact h.leftIndex
    · exact h.rightIndex
  indexLt side := by
    cases side
    · exact h.leftLt
    · exact h.rightLt
  counter side := by
    cases side
    · exact h.leftNew.1
    · exact h.rightNew.1
  bound side := le_refl _
  form side i payload datagram hi := by cases hi
  window side := by
    have hnew : ((Exchange.start left right).session side).receivingKeyCounter = {} := by
      cases side
      · exact h.leftNew.2
      · exact h.rightNew.2
    rw [hnew]
    exact .initial
  origin side i payload hi := by cases hi
  nodup side := List.nodup_nil

/-- What an end has sent is read back as it was sealed. -/
theorem Inv.parse (h : Inv aead x n) (haead : aead.Correct) (hn : n < u64)
    (hi : (x.sent side)[i]? = some (payload, datagram)) : parseIncomingPacket datagram =
      .ok (.packetData ((x.session side).outgoing aead i payload)) := by
  have hlt : i < (x.sent side).length := (List.getElem?_eq_some_iff.1 hi).1
  have hbound := h.bound side
  rw [h.form side i payload datagram hi]
  exact parse_packetData (Session.outgoing_fits haead (h.indexLt side)
    (by simp only [u64] at hn; omega)) rfl

/-- What the other end has sealed opens, and gives the packet it has sealed. -/
theorem Inv.opened (h : Inv aead x n) (haead : aead.Correct) (i : ℕ) (payload : Bytes) :
    (x.session side).opened aead ((x.session side.other).outgoing aead i payload) =
      some payload := by
  have hkey := h.keys side.other
  rw [Side.other_other] at hkey
  unfold Session.opened Session.outgoing Session.sealed
  rw [← hkey]
  exact haead.opens _ _ _ _

/-- **What opens was sealed by the other end**, under the counter of the packet. -/
theorem Inv.sealed_by_other (h : Inv aead x n) (haead : aead.Correct) (hn : n < u64)
    {p : PacketData} (hsealed : x.Sealed (x.session side).receiver p.counter
      p.encryptedEncapsulatedPacket) : ∃ payload datagram,
      (x.sent side.other)[p.counter]? = some (payload, datagram) ∧
      (x.session side).opened aead p = some payload := by
  obtain ⟨origin, hkey, ⟨payload, datagram⟩, hmem, q, hparse, hcounter, hcipher⟩ := hsealed
  have horigin : origin = side.other := by
    rcases Side.eq_or side origin with hown | hother
    · have hkeys := h.keys side.other
      rw [Side.other_other, ← hkey, hown] at hkeys
      exact absurd hkeys.symm (h.distinct side)
    · exact hother
  subst horigin
  obtain ⟨i, hi⟩ := List.mem_iff_getElem?.1 hmem
  have hq := h.parse haead hn hi
  rw [hparse] at hq
  cases hq
  have hi' : i = p.counter := hcounter
  subst hi'
  refine ⟨payload, datagram, hi, ?_⟩
  have hopened : (x.session side).opened aead
      ((x.session side.other).outgoing aead p.counter payload) = some payload :=
    h.opened haead p.counter payload
  unfold Session.opened at hopened ⊢
  rw [← hcipher]
  exact hopened

/-! ### Steps -/

/-- Keys and indices are the same. -/
structure SameEnds (x x' : Exchange) : Prop where
  sender : ∀ side, (x'.session side).sender = (x.session side).sender
  receiver : ∀ side, (x'.session side).receiver = (x.session side).receiver
  sendingIndex : ∀ side, (x'.session side).sendingIndex = (x.session side).sendingIndex
  receivingIndex : ∀ side, (x'.session side).receivingIndex = (x.session side).receivingIndex

/-- A session is replaced by one with the same keys and indices. -/
theorem SameEnds.update {s : Session} (hs : x'.session = Function.update x.session side s)
    (hsender : s.sender = (x.session side).sender)
    (hreceiver : s.receiver = (x.session side).receiver)
    (hsending : s.sendingIndex = (x.session side).sendingIndex)
    (hreceiving : s.receivingIndex = (x.session side).receivingIndex) : SameEnds x x' := by
  have hat : x'.session side = s := by rw [hs, Function.update_self]
  have hoff : ∀ side', side' ≠ side → x'.session side' = x.session side' := fun side' hne => by
    rw [hs, Function.update_of_ne hne]
  constructor <;> intro side' <;> by_cases hside : side' = side
  · rw [hside, hat, hsender]
  · rw [hoff side' hside]
  · rw [hside, hat, hreceiver]
  · rw [hoff side' hside]
  · rw [hside, hat, hsending]
  · rw [hoff side' hside]
  · rw [hside, hat, hreceiving]
  · rw [hoff side' hside]

theorem SameEnds.outgoing (h : SameEnds x x') (side : Side) (i : ℕ) (payload : Bytes) :
    (x'.session side).outgoing aead i payload = (x.session side).outgoing aead i payload := by
  simp only [Session.outgoing, Session.sealed, h.sender, h.sendingIndex]

/-- The keys and indices stay: what else there is to prove after a step. -/
theorem Inv.change {n' : ℕ} (h : Inv aead x n) (hsame : SameEnds x x')
    (counter : ∀ side, (x'.session side).sendingKeyCounter = (x'.sent side).length)
    (bound : ∀ side, (x'.sent side).length ≤ n')
    (form : ∀ side i payload datagram, (x'.sent side)[i]? = some (payload, datagram) →
      datagram = (Packet.packetData ((x.session side).outgoing aead i payload)).encode)
    (window : ∀ side, (x'.session side).receivingKeyCounter.Refines (x'.counters side))
    (origin : ∀ side i payload, (i, payload) ∈ x'.delivered side →
      ∃ datagram, (x'.sent side.other)[i]? = some (payload, datagram))
    (nodup : ∀ side, (x'.counters side).Nodup) : Inv aead x' n' where
  keys side := by
    rw [hsame.sender, hsame.receiver]
    exact h.keys side
  distinct side := by
    rw [hsame.sender, hsame.sender]
    exact h.distinct side
  index side := by
    rw [hsame.sendingIndex, hsame.receivingIndex]
    exact h.index side
  indexLt side := by
    rw [hsame.sendingIndex]
    exact h.indexLt side
  counter := counter
  bound := bound
  form side i payload datagram hi := by
    rw [hsame.outgoing]
    exact form side i payload datagram hi
  window := window
  origin := origin
  nodup := nodup

/-- A packet is sent, under the next counter. -/
theorem Inv.send (h : Inv aead x n) (hn : n + 1 < u64)
    (hroom : payload.length + dataOverheadSz ≤ room) :
    Yields (x.send aead room side payload) fun x' => Inv aead x' (n + 1) := by
  have hcounter := h.counter side
  have hbound := h.bound side
  have hformat : (x.session side).formatPacketData aead payload room = _ :=
    Session.formatPacketData_eq hroom (by omega)
  unfold Exchange.send
  rw [hformat]
  -- counters, bounds, sent packets, windows and arrivals
  refine .ofSome (h.change (.update rfl rfl rfl rfl rfl) (fun side' => ?_) (fun side' => ?_)
    (fun side' i p d hi => ?_) (fun side' => ?_) (fun side' i p hi => ?_) h.nodup)
  · by_cases hside : side' = side
    · rw [hside]
      simp [hcounter]
    · simp [Function.update_of_ne hside, h.counter side']
  · by_cases hside : side' = side
    · rw [hside]
      simpa using hbound
    · have := h.bound side'
      simp only [Function.update_of_ne hside]
      omega
  · by_cases hside : side' = side
    · subst hside
      simp only [Function.update_self, List.getElem?_append] at hi
      split at hi
      · exact h.form side' i p d hi
      · next hge =>
        obtain ⟨hlt, hnew⟩ := List.getElem?_eq_some_iff.1 hi
        have hi' : i = (x.sent side').length := by
          simp only [List.length_singleton] at hlt
          omega
        simp only [List.getElem_singleton, Prod.mk.injEq] at hnew
        rw [← hnew.1, ← hnew.2, hcounter, hi']
    · simp only [Function.update_of_ne hside] at hi
      exact h.form side' i p d hi
  · have hsame : (Function.update x.session side
        { x.session side with sendingKeyCounter := (x.session side).sendingKeyCounter + 1 }
        side').receivingKeyCounter = (x.session side').receivingKeyCounter := by
      by_cases hside : side' = side
      · rw [hside, Function.update_self]
      · rw [Function.update_of_ne hside]
    simp only [hsame]
    exact h.window side'
  · obtain ⟨d, hd⟩ := h.origin side' i p hi
    refine ⟨d, ?_⟩
    by_cases hside : side'.other = side
    · obtain ⟨hlt, -⟩ := List.getElem?_eq_some_iff.1 hd
      simp only [← hside, Function.update_self]
      rw [List.getElem?_append_left hlt]
      exact hd
    · simp only [Function.update_of_ne hside]
      exact hd

/-- The end after it has delivered a packet. -/
def deliver (x : Exchange) (side : Side) (v : ReceivingKeyCounterValidator) (i : ℕ)
    (payload : Bytes) : Exchange :=
  { x with
    session := Function.update x.session side { x.session side with receivingKeyCounter := v }
    delivered := Function.update x.delivered side ((i, payload) :: x.delivered side) }

/-- A packet of the other end is delivered. -/
theorem Inv.deliver (h : Inv aead x n) {v : ReceivingKeyCounterValidator}
    (hsent : (x.sent side.other)[i]? = some (payload, datagram))
    (hfresh : Fresh nBits (x.counters side) i) (hv : v.Refines (i :: x.counters side)) :
    Inv aead (x.deliver side v i payload) n := by
  have hcounters : (x.deliver side v i payload).counters side = i :: x.counters side := by
    simp [counters, Exchange.deliver]
  have hothers : ∀ side', side' ≠ side →
      (x.deliver side v i payload).counters side' = x.counters side' := fun side' hside => by
    simp [counters, Exchange.deliver, Function.update_of_ne hside]
  refine h.change (.update rfl rfl rfl rfl rfl) (fun side' => ?_) h.bound h.form (fun side' => ?_)
    (fun side' j p hj => ?_) (fun side' => ?_)
  · by_cases hside : side' = side
    · rw [hside]
      simpa [Exchange.deliver] using h.counter side
    · simpa [Exchange.deliver, Function.update_of_ne hside] using h.counter side'
  · by_cases hside : side' = side
    · rw [hside, hcounters]
      simpa [Exchange.deliver] using hv
    · rw [hothers side' hside]
      simpa [Exchange.deliver, Function.update_of_ne hside] using h.window side'
  · by_cases hside : side' = side
    · subst hside
      simp only [Exchange.deliver, Function.update_self] at hj
      rcases List.mem_cons.1 hj with heq | hj
      · cases heq
        exact ⟨datagram, hsent⟩
      · exact h.origin side' j p hj
    · simp only [Exchange.deliver, Function.update_of_ne hside] at hj
      exact h.origin side' j p hj
  · by_cases hside : side' = side
    · rw [hside, hcounters]
      exact List.nodup_cons.2 ⟨hfresh.1, h.nodup side⟩
    · rw [hothers side' hside]
      exact h.nodup side'

/-- A packet that is refused changes nothing. -/
theorem arrive_of_error {p : PacketData} {e : WireGuardError}
    (hparse : parseIncomingPacket datagram = .ok (.packetData p))
    (hreceive : (x.session side).receivePacketData aead p room = some (.error e, x.session side)) :
    x.arrive aead room side datagram = some x := by
  unfold arrive
  rw [hparse]
  simp only [hreceive, Option.bind_eq_bind, Option.bind_some, Function.update_eq_self]
  rfl

/-- The cipher text of a packet fits in the buffer if the datagram does. -/
theorem cipher_le {p : PacketData} (hparse : parseIncomingPacket datagram = .ok (.packetData p))
    (hroom : datagram.length ≤ room) : p.encryptedEncapsulatedPacket.length ≤ room := by
  obtain ⟨-, macs, -, hsrc⟩ := encode_of_parse hparse
  rw [hsrc] at hroom
  simp only [Packet.encode, List.length_append] at hroom
  omega

/-- **One arrival**: what the other end has sent under a fresh counter is delivered, or nothing
changes. -/
theorem Inv.arrive (h : Inv aead x n) (haead : aead.Correct) (hn : n + nBits < u64)
    (hpossible : Possible aead room x (.arrive side datagram)) :
    x.arrive aead room side datagram = some x ∨ ∃ p payload sent v,
      parseIncomingPacket datagram = .ok (.packetData p) ∧
      (x.sent side.other)[p.counter]? = some (payload, sent) ∧
      Fresh nBits (x.counters side) p.counter ∧ v.Refines (p.counter :: x.counters side) ∧
      x.arrive aead room side datagram = some (x.deliver side v p.counter payload) := by
  obtain ⟨hroom, hsealed⟩ := hpossible
  cases hparse : parseIncomingPacket datagram with
  | error e => exact .inl (by simp [Exchange.arrive, hparse])
  | ok packet =>
    cases packet with
    | handshakeInit p => exact .inl (by simp [Exchange.arrive, hparse])
    | handshakeResponse p => exact .inl (by simp [Exchange.arrive, hparse])
    | packetCookieReply p => exact .inl (by simp [Exchange.arrive, hparse])
    | packetData p =>
      have hcipher := cipher_le hparse hroom
      -- whatever opens was sealed by the other end, so it was sent
      by_cases htaken : p.receiverIdx = (x.session side).receivingIndex ∧
          Fresh nBits (x.counters side) p.counter ∧ (x.session side).opened aead p ≠ none
      · obtain ⟨hidx, hfresh, hopens⟩ := htaken
        obtain ⟨payload, sent, hsent, hopen⟩ :=
          h.sealed_by_other haead (by omega) (hsealed p hparse hopens)
        have hlt := (List.getElem?_eq_some_iff.1 hsent).1
        have hbound := h.bound side.other
        obtain ⟨v, hreceive, hv⟩ := Session.receivePacketData_ok (h.window side) hcipher hidx hfresh
          hopen (by omega)
        refine .inr ⟨p, payload, sent, v, rfl, hsent, hfresh, hv, ?_⟩
        unfold Exchange.arrive
        rw [hparse]
        simp only [hreceive, Option.bind_eq_bind, Option.bind_some]
        rfl
      · have hrefuse : p.receiverIdx = (x.session side).receivingIndex →
            Fresh nBits (x.counters side) p.counter → (x.session side).opened aead p = none := by
          intro hidx hfresh
          by_contra hopens
          exact htaken ⟨hidx, hfresh, hopens⟩
        obtain ⟨e, hreceive⟩ := Session.receivePacketData_error (h.window side) hcipher hrefuse
        exact .inl (arrive_of_error hparse hreceive)

/-- **One event.** -/
theorem Inv.step (h : Inv aead x n) (haead : aead.Correct) (hn : n + 1 + nBits < u64) {e : Event}
    (hpossible : Possible aead room x e) :
    Yields (x.step aead room e) fun x' => Inv aead x' (n + 1) := by
  cases e with
  | send side payload => exact h.send (by omega) hpossible
  | arrive side datagram =>
    have hmore : ∀ {x}, Inv aead x n → Inv aead x (n + 1) := fun hx =>
      { hx with bound := fun side => (hx.bound side).trans (Nat.le_succ n) }
    rcases h.arrive haead (by omega) hpossible with
      hsame | ⟨p, payload, sent, v, -, hsent, hfresh, hv, hdeliver⟩
    · exact ⟨x, hsame, hmore h⟩
    · exact ⟨_, hdeliver, hmore (h.deliver hsent hfresh hv)⟩

/-- **What holds after every run.** -/
theorem reachable (haead : aead.Correct) (h : Inv aead x n) {es : List Event}
    (hn : n + es.length + nBits < u64)
    (hpossible : AlongM (Exchange.step aead room) (Possible aead room) x es) :
    Yields (runM (Exchange.step aead room) x es) fun x' => Inv aead x' (n + es.length) := by
  induction es generalizing x n with
  | nil => exact .ofSome h
  | cons e es ih =>
    rw [List.length_cons] at hn ⊢
    obtain ⟨x', hx', hI⟩ := h.step haead (by omega) hpossible.1
    obtain ⟨y, hy, hIy⟩ := ih hI (by omega) (hpossible.2 x' hx')
    refine ⟨y, ?_, ?_⟩
    · rw [runM, List.foldlM_cons, hx']
      exact hy
    · have hsum : n + (es.length + 1) = n + 1 + es.length := by omega
      rw [hsum]
      exact hIy

/-- The ends after some events. -/
abbrev after (aead : Aead) (room : ℕ) (left right : Session) (es : List Event) : Option Exchange :=
  runM (step aead room) (start left right) es

theorem after_inv (haead : aead.Correct) (hpair : Paired left right) {es : List Event}
    (hshort : es.length + nBits < u64)
    (hpossible : AlongM (Exchange.step aead room) (Possible aead room)
      (Exchange.start left right) es) :
    Yields (after aead room left right es) fun x => Inv aead x es.length := by
  have hstart : Inv aead (Exchange.start left right) 0 := .start hpair
  have h := reachable haead hstart (by omega) hpossible
  rwa [Nat.zero_add] at h

/-- **An end delivers what the other end has sent, and nothing twice**, whatever the network does:
each packet delivered was sent under its counter, and the `i`-th packet an end sends is sealed under
counter `i`, so that no nonce is used for two packets. -/
theorem at_most_once (aead : Aead) (haead : aead.Correct) (room : ℕ) (left right : Session)
    (hpair : Paired left right) (es : List Event) (hshort : es.length + nBits < u64)
    (hpossible : AlongM (step aead room) (Possible aead room) (start left right) es) :
    ∃ x, after aead room left right es = some x ∧ ∀ side,
      (x.counters side).Nodup ∧
      (∀ i payload, (i, payload) ∈ x.delivered side →
        ∃ datagram, (x.sent side.other)[i]? = some (payload, datagram)) ∧
      ∀ i payload datagram, (x.sent side)[i]? = some (payload, datagram) →
        parseIncomingPacket datagram = .ok (.packetData {
          receiverIdx := (x.session side.other).receivingIndex
          counter := i
          encryptedEncapsulatedPacket :=
            aead.sealInPlace (x.session side).sender (nonceOf i) [] payload }) := by
  obtain ⟨x, hx, h⟩ := after_inv haead hpair hshort hpossible
  refine ⟨x, hx, fun side => ⟨h.nodup side, h.origin side, fun i payload datagram hi => ?_⟩⟩
  rw [h.parse haead (by omega) hi, ← h.index side]
  rfl

/-! ### Datagrams that arrive as they were sent -/

/-- A datagram arrives as it was sent: it is delivered exactly if its counter is fresh. -/
theorem Inv.arrive_sent (h : Inv aead x n) (haead : aead.Correct) (hn : n + nBits < u64)
    (hsent : (x.sent side.other)[i]? = some (payload, datagram)) (hroom : datagram.length ≤ room) :
    Yields (x.arrive aead room side datagram) fun x' => Inv aead x' n ∧ x'.sent = x.sent ∧
      x'.delivered side = if Fresh nBits (x.counters side) i then
        (i, payload) :: x.delivered side else x.delivered side := by
  have hparse := h.parse haead (by omega) hsent
  have hlt := (List.getElem?_eq_some_iff.1 hsent).1
  have hbound := h.bound side.other
  have hcipher := cipher_le hparse hroom
  by_cases hfresh : Fresh nBits (x.counters side) i
  · have hidx := h.index side.other
    rw [Side.other_other] at hidx
    obtain ⟨v, hreceive, hv⟩ := Session.receivePacketData_ok (h.window side) hcipher hidx hfresh
      (h.opened haead i payload) (by simp only [Session.outgoing]; omega)
    refine ⟨x.deliver side v i payload, ?_, h.deliver hsent hfresh hv, rfl, ?_⟩
    · unfold Exchange.arrive
      rw [hparse]
      simp only [hreceive, Option.bind_eq_bind, Option.bind_some]
      rfl
    · rw [if_pos hfresh]
      simp [Exchange.deliver]
  · have hrefuse : ((x.session side.other).outgoing aead i payload).receiverIdx =
        (x.session side).receivingIndex → Fresh nBits (x.counters side) i →
          (x.session side).opened aead ((x.session side.other).outgoing aead i payload) = none :=
      fun _ hf => absurd hf hfresh
    obtain ⟨e, hreceive⟩ := Session.receivePacketData_error (h.window side) hcipher hrefuse
    refine ⟨x, arrive_of_error hparse hreceive, h, rfl, ?_⟩
    rw [if_neg hfresh]

/-- Datagrams that were sent arrive in turn, again and again as it may be: the packets delivered are
those whose counters an abstract window accepts. -/
theorem Inv.arrivals (h : Inv aead x n) (haead : aead.Correct) (hn : n + nBits < u64)
    (hnone : x.delivered side = []) (packets : List (ℕ × Bytes × Bytes))
    (hsent : ∀ q ∈ packets, (x.sent side.other)[q.1]? = some q.2 ∧ q.2.2.length ≤ room) :
    Yields (runM (Exchange.step aead room) x
      (packets.map fun q => Event.arrive side q.2.2)) fun x' =>
      Inv aead x' n ∧ x'.sent = x.sent ∧
        x'.counters side = accepted nBits (packets.map Prod.fst) := by
  induction packets using List.reverseRecOn with
  | nil => exact .ofSome ⟨h, rfl, by simp [counters, hnone, accepted]⟩
  | append_singleton packets q ih =>
    obtain ⟨y, hy, hI, hsame, hcounters⟩ := ih fun q' hq' => hsent q' (by simp [hq'])
    obtain ⟨hq, hroom⟩ := hsent q (by simp)
    have hqy : (y.sent side.other)[q.1]? = some (q.2.1, q.2.2) := by
      rw [hsame]
      exact hq
    obtain ⟨z, hz, hIz, hsame', hdelivered⟩ := hI.arrive_sent haead hn hqy hroom
    refine ⟨z, ?_, hIz, hsame'.trans hsame, ?_⟩
    · have hlast : Exchange.step aead room y (.arrive side q.2.2) = some z := hz
      unfold runM at hy ⊢
      rw [List.map_append, List.foldlM_append, hy]
      simpa using hlast
    · rw [List.map_append, List.map_singleton, accepted_concat, ← hcounters, counters, hdelivered,
        accept]
      split
      · rfl
      · rfl

/-- **Nothing is lost to the window**: after any run, packets of the other end that arrive once
each, in an order that displaces them by less than 1024, are all delivered. -/
theorem all_delivered (aead : Aead) (haead : aead.Correct) (room : ℕ) (left right : Session)
    (hpair : Paired left right) (es : List Event) (hshort : es.length + nBits < u64)
    (hpossible : AlongM (step aead room) (Possible aead room) (start left right) es) (side : Side)
    (x : Exchange) (hx : after aead room left right es = some x) (hnone : x.delivered side = [])
    (packets : List (ℕ × Bytes × Bytes))
    (hsent : ∀ q ∈ packets, (x.sent side.other)[q.1]? = some q.2 ∧ q.2.2.length ≤ room)
    (horder : packets.Pairwise fun p q => p.1 ≠ q.1 ∧ p.1 < q.1 + nBits) :
    ∃ x', after aead room left right (es ++ packets.map fun q => .arrive side q.2.2) = some x' ∧
      (x'.delivered side).length = packets.length ∧
      ∀ q ∈ packets, (q.1, q.2.1) ∈ x'.delivered side := by
  obtain ⟨y, hy, h⟩ := after_inv haead hpair hshort hpossible
  have hsame : y = x := Option.some.inj (hy.symm.trans hx)
  subst hsame
  obtain ⟨x', hx', hI, hx'sent, hcounters⟩ := h.arrivals haead (by omega) hnone packets hsent
  -- with so small a displacement the abstract window accepts them all
  have hall : x'.counters side = (packets.map Prod.fst).reverse := by
    rw [hcounters]
    exact accepted_eq_reverse (List.pairwise_map.2 horder)
  refine ⟨x', ?_, ?_, fun q hq => ?_⟩
  · unfold after runM at hx ⊢
    rw [List.foldlM_append, hx]
    exact hx'
  · have hlen := congrArg List.length hall
    simpa [counters] using hlen
  · have hmem : q.1 ∈ x'.counters side := by
      rw [hall, List.mem_reverse]
      exact List.mem_map_of_mem hq
    obtain ⟨⟨i, payload⟩, hin, hi⟩ := List.mem_map.1 hmem
    have hi' : i = q.1 := hi
    subst hi'
    obtain ⟨datagram, hd⟩ := hI.origin side q.1 payload hin
    rw [hx'sent, (hsent q hq).1] at hd
    have hpayload : q.2.1 = payload := congrArg Prod.fst (Option.some.inj hd)
    rw [hpayload]
    exact hin

/-! ### What can happen can be decided -/

/-- The data packet of a datagram. -/
def dataOf (datagram : Bytes) : Option PacketData :=
  match parseIncomingPacket datagram with
  | .ok (.packetData p) => some p
  | _ => none

theorem dataOf_eq_some {p : PacketData} :
    dataOf datagram = some p ↔ parseIncomingPacket datagram = .ok (.packetData p) := by
  unfold dataOf
  split
  · next p' hp => rw [hp, Option.some.injEq, Except.ok.injEq, Packet.packetData.injEq]
  · next hne => exact ⟨fun h => (by cases h), fun h => absurd h (hne p)⟩

theorem sealed_iff {key cipher : Bytes} {counter : ℕ} : x.Sealed key counter cipher ↔
    ∃ side ∈ [Side.left, .right], (x.session side).sender = key ∧ ∃ sent ∈ x.sent side,
      ∃ p ∈ dataOf sent.2, p.counter = counter ∧ p.encryptedEncapsulatedPacket = cipher := by
  simp only [Sealed, Option.mem_def, dataOf_eq_some]
  refine ⟨fun ⟨side, h⟩ => ⟨side, ?_, h⟩, fun ⟨side, _, h⟩ => ⟨side, h⟩⟩
  cases side <;> decide

instance {key cipher : Bytes} {counter : ℕ} : Decidable (x.Sealed key counter cipher) :=
  decidable_of_iff _ sealed_iff.symm

theorem possible_arrive_iff : Possible aead room x (.arrive side datagram) ↔
    datagram.length ≤ room ∧ ∀ p ∈ dataOf datagram, (x.session side).opened aead p ≠ none →
      x.Sealed (x.session side).receiver p.counter p.encryptedEncapsulatedPacket := by
  simp only [Possible, Option.mem_def, dataOf_eq_some]

instance possible_decidable : ∀ e : Event, Decidable (Possible aead room x e)
  | .send _ payload => inferInstanceAs (Decidable (payload.length + dataOverheadSz ≤ room))
  | .arrive _ _ => decidable_of_iff _ possible_arrive_iff.symm

/-! ### A session with three packets -/

def sampleLeft : Session := .new 256 512 (List.replicate 32 2) sampleKey

def sampleRight : Session := .new 512 256 sampleKey (List.replicate 32 2)

theorem samplePaired : Paired sampleLeft sampleRight where
  toRight := rfl
  toLeft := rfl
  keys := by decide
  leftIndex := rfl
  rightIndex := rfl
  leftLt := by decide
  rightLt := by decide
  leftNew := ⟨rfl, rfl⟩
  rightNew := ⟨rfl, rfl⟩

/-- The datagram of a packet. -/
def sampleDatagram (c : SampleText) : Bytes :=
  leBytes32 data ++ leBytes32 512 ++ leBytes64 c.counter ++ c.cipher

/-- The left end sends the packets. -/
def sampleSends : List Event := sampleTexts.map fun c => .send .left c.message

/-- A datagram that is made up. -/
def sampleForged : SampleText := ⟨3, [45], List.replicate 17 7⟩

/-- The packets arrive, the third one first and once more after a datagram that is made up. -/
def sampleArrivals : List Event :=
  [sampleThird, sampleFirst, sampleForged, sampleThird, sampleSecond].map fun c =>
    .arrive .right (sampleDatagram c)

theorem after_sample : (after sampleAead 2048 sampleLeft sampleRight
    (sampleSends ++ sampleArrivals)).map (fun x => x.delivered .right) =
      some [(1, [43]), (0, [42]), (2, [44])] := by
  decide +kernel

theorem at_most_once_sample : ∃ x,
    after sampleAead 2048 sampleLeft sampleRight (sampleSends ++ sampleArrivals) = some x ∧
      x.delivered .right = [(1, [43]), (0, [42]), (2, [44])] ∧ ∀ side,
      (x.counters side).Nodup ∧
      (∀ i payload, (i, payload) ∈ x.delivered side →
        ∃ datagram, (x.sent side.other)[i]? = some (payload, datagram)) ∧
      ∀ i payload datagram, (x.sent side)[i]? = some (payload, datagram) →
        parseIncomingPacket datagram = .ok (.packetData {
          receiverIdx := (x.session side.other).receivingIndex
          counter := i
          encryptedEncapsulatedPacket :=
            sampleAead.sealInPlace (x.session side).sender (nonceOf i) [] payload }) := by
  obtain ⟨x, hx, h⟩ := at_most_once sampleAead sampleAead_correct 2048 sampleLeft sampleRight
    samplePaired (sampleSends ++ sampleArrivals) (by decide) (by decide +kernel)
  have hdelivered := after_sample
  rw [hx, Option.map_some, Option.some.injEq] at hdelivered
  exact ⟨x, hx, hdelivered, h⟩

/-- The packets with their datagrams, the third one first. -/
def samplePackets : List (ℕ × Bytes × Bytes) :=
  [sampleThird, sampleFirst, sampleSecond].map fun c => (c.counter, c.message, sampleDatagram c)

theorem after_sends :
    (after sampleAead 2048 sampleLeft sampleRight sampleSends).isSome = true := by
  decide +kernel

theorem all_delivered_sample : ∃ x',
    after sampleAead 2048 sampleLeft sampleRight
      (sampleSends ++ samplePackets.map fun q => .arrive .right q.2.2) = some x' ∧
      (x'.delivered .right).length = 3 ∧
      ∀ q ∈ samplePackets, (q.1, q.2.1) ∈ x'.delivered .right :=
  all_delivered sampleAead sampleAead_correct 2048 sampleLeft sampleRight samplePaired sampleSends
    (by decide) (by decide +kernel) .right _ (Option.some_get after_sends).symm
    (by decide +kernel) samplePackets (by decide +kernel) (by decide)

end Exchange

end Tailcat.Noise
