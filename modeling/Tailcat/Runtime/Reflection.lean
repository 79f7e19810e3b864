import Tailcat.Lib.SealedBox
import Tailcat.Runtime.DirectPaths
import Tailcat.Runtime.Sample
import Mathlib.Data.List.Lex

/-!
# Who answers a probe

An actor, the parties that seal boxes with other private keys, and a network that delivers every box
it has seen, as often as it likes and under any header, but seals none itself.  The boxes of the
discovery protocol are perfect (`SealedBox.Scheme.Ideal`): either end opens them, and they do not
tell which end has sealed them.

* `authentic` : as long as the network does not give the actor back a pong of its own, a direct path
  is set only for a pong that the peer itself has sealed.
* `reflected` : the actor answers its own ping, and takes its own pong for the peer's.
-/

namespace Tailcat.Runtime

open Net SealedBox Transition

/-- The boxes of the discovery protocol, with the public key of every private key. -/
def Platform.boxes (π : Platform) (pub : Key → Key) : Scheme Key Nonce Bytes Bytes where
  pub := pub
  enclose := π.encrypt
  disclose := fun secret peer nonce box => π.decrypt secret peer nonce.1 box

/-- The nonce and the box of a packet, without the header. -/
def boxOf (packet : Bytes) : Bytes := packet.drop 38

/-- A box that another party has sealed, as it is sent. -/
structure Sealed where
  secret : Key
  peer : Key
  data : Bytes
  box : Bytes

/-- The actor, and the boxes that others have sealed. -/
structure World where
  actor : Actor
  sealed : List Sealed := []

namespace World

/-- What happens in the world. -/
inductive Event
  /-- A party seals a box with its private key. -/
  | seals (secret peer : Key) (nonce : Nonce) (data : Bytes)
  /-- The actor takes a step. -/
  | actor (e : Actor.Event)

/-- The packet that an event delivers to the actor. -/
def delivered : Actor.Event → Option Bytes
  | .relayed _ packet | .datagram _ packet => some packet
  | _ => none

/-- The boxes that the actor has sent. -/
def ownBoxes (a : Actor) : List Bytes :=
  a.trace.filterMap fun
    | .relay _ packet | .udp _ _ packet _ => some (boxOf packet)
    | _ => none

variable (π : Platform) (pub : Key → Key)

/-- One event. -/
def step (w : World) : Event → World
  | .seals secret peer nonce data =>
    match π.encrypt secret peer nonce data with
    | some box => { w with sealed := w.sealed ++ [{ secret, peer, data, box := nonce.1 ++ box }] }
    | none => w
  | .actor e => { w with actor := w.actor.step π e }

/-- The world at the start of an actor. -/
def start (setup : Actor.Setup) : World := { actor := .init setup }

/-- The world after some events. -/
abbrev after (setup : Actor.Setup) (es : List Event) : World := run (step π) (start setup) es

/-- The network has seen a box. -/
def Seen (w : World) (box : Bytes) : Prop :=
  box ∈ ownBoxes w.actor ∨ ∃ x ∈ w.sealed, x.box = box

/-- What the network can do: others seal boxes with other keys than the actor's, and what is
delivered was seen or is a box for nobody. -/
def Possible (w : World) : Event → Prop
  | .seals secret .. => pub secret ≠ w.actor.key.discoPublic
  | .actor e => ∀ packet, delivered e = some packet →
    w.Seen (boxOf packet) ∨ ∀ peer, w.actor.openDisco π peer packet = none

/-- The network does not give the actor back a pong of its own. -/
def KeepsPongs (w : World) : Event → Prop
  | .seals .. => True
  | .actor e => ∀ packet, delivered e = some packet → boxOf packet ∈ ownBoxes w.actor →
    ∀ peer data, w.actor.openDisco π peer packet = some data → data.getD 0 0 ≠ 2

/-- The packet is a pong for the actor that the peer itself has sealed. -/
def PeerAnswers (w : World) (key : Key) (packet : Bytes) (txid : TxId) : Prop :=
  ∃ x ∈ w.sealed, x.box = boxOf packet ∧ w.actor.discoOf key = some (pub x.secret) ∧
    pub x.secret ≠ w.actor.key.discoPublic ∧ x.peer = w.actor.key.discoPublic ∧
    x.data.getD 0 0 = 2 ∧ Actor.txidOf x.data = txid

/-- The actor has probed the endpoint for the peer, less than ten seconds ago. -/
def RecentlyProbed (a : Actor) (key : Key) (endpoint : SocketAddr) (txid : TxId) : Prop :=
  ∃ disco packet sentAt sent, a.discoOf key = some disco ∧ Actor.IsPing π a.key disco txid packet ∧
    .udp sentAt endpoint packet sent ∈ a.trace ∧ sentAt ≤ a.now ∧ a.now - sentAt < probeTimeout

/-- A direct path was set by the peer itself: its answer to a recent probe of a candidate came from
there. -/
def Answered (setup : Actor.Setup) (es : List Event) (before : List Act) (key : Key)
    (endpoint : SocketAddr) (when : ℕ) (txid : TxId) : Prop :=
  ∃ es₁ packet, es₁ ++ [.actor (.datagram endpoint packet)] <+: es ∧
    before = (after π setup es₁).actor.trace ∧ when = (after π setup es₁).actor.now ∧
    usableEndpoint endpoint = true ∧
    RecentlyProbed π (after π setup es₁).actor key endpoint txid ∧
    (∃ es₀, es₀ <+: es₁ ∧ (after π setup es₀).actor.IsCandidate key endpoint) ∧
    PeerAnswers pub (after π setup es₁) key packet txid

/-- The direct paths that were set in a run were set by the peers themselves. -/
structure Authentic (setup : Actor.Setup) (es : List Event) : Prop where
  answered : ∀ before key endpoint when txid,
    before ++ [.promote key endpoint when txid] <+: (after π setup es).actor.trace →
      Answered π pub setup es before key endpoint when txid
  /-- Every direct path is in the record. -/
  recorded : (after π setup es).actor.Recorded
  /-- A transaction identifier sets one direct path, once, if none is drawn twice. -/
  once : Actor.Fresh π (after π setup es).actor → (after π setup es).actor.promotions.Nodup

/-! ### Runs of the world -/

variable {π pub} {setup : Actor.Setup} {es : List Event} {w : World} {e : Event}

/-- The actor's own events. -/
def Event.own : Event → Option Actor.Event
  | .seals .. => none
  | .actor e => some e

@[simp] theorem actor_step_seals (w : World) (secret peer : Key) (nonce : Nonce) (data : Bytes) :
    (step π w (.seals secret peer nonce data)).actor = w.actor := by
  unfold step
  dsimp only
  split <;> rfl

@[simp] theorem actor_step_actor (w : World) (e : Actor.Event) :
    (step π w (.actor e)).actor = w.actor.step π e := rfl

theorem after_concat (setup : Actor.Setup) (es : List Event) (e : Event) :
    after π setup (es ++ [e]) = step π (after π setup es) e := by
  rw [after, run_append]
  rfl

/-- The actor of the world runs by itself. -/
theorem actor_after (setup : Actor.Setup) (es : List Event) :
    (after π setup es).actor = Actor.run π (.init setup) (es.filterMap Event.own) := by
  induction es using List.reverseRecOn with
  | nil => rfl
  | append_singleton es e ih =>
    rw [after_concat, List.filterMap_append]
    cases e with
    | seals secret peer nonce data =>
      rw [actor_step_seals, ih]
      exact congrArg (Actor.run π _) (List.append_nil _).symm
    | actor e =>
      rw [actor_step_actor, ih]
      exact (@run_append _ _ (Actor.step π) (.init setup) (es.filterMap Event.own) [e]).symm

theorem wired_after (setup : Actor.Setup) (es : List Event) : (after π setup es).actor.Wired := by
  rw [actor_after]
  exact Actor.run_wired setup _

/-- A list that ends in an entry of some kind is no longer a prefix after entries of other kinds. -/
theorem prefix_of_silent {α : Type*} {P : α → Prop} {l new before : List α} {x : α} (hx : P x)
    (hnew : ∀ y ∈ new, ¬P y) (h : before ++ [x] <+: l ++ new) : before ++ [x] <+: l := by
  induction new using List.reverseRecOn with
  | nil => rwa [List.append_nil] at h
  | append_singleton new y ih =>
    rw [← List.append_assoc, List.prefix_concat_iff] at h
    rcases h with heq | hprefix
    · obtain ⟨-, hxy⟩ := List.append_inj' heq rfl
      rw [List.singleton_inj] at hxy
      exact absurd (hxy ▸ hx) (hnew y (by simp))
    · exact ih (fun z hz => hnew z (List.mem_append_left _ hz)) hprefix

theorem key_after (setup : Actor.Setup) (es : List Event) :
    (after π setup es).actor.key = setup.key := by
  rw [actor_after]
  refine Actor.run_invariant (I := fun a => a.key = setup.key) ?_ ?_ _
  · unfold Actor.init Actor.addPeer
    dsimp only
    split
    · split_ifs <;> rfl
    · rfl
  · exact fun _ _ _ _ hstep ha => hstep.extends.key.trans ha

theorem probesSent_after (setup : Actor.Setup) (es : List Event) :
    Actor.ProbesSent π (after π setup es).actor := by
  rw [actor_after]
  refine Actor.run_invariant (I := Actor.ProbesSent π) ?_ ?_ _
  · intro txid probe hprobe
    rw [Actor.init_probes] at hprobe
    cases hprobe
  · exact fun _ _ _ _ hstep ha => hstep.probesSent ha

/-- What waits for an answer was sent to a candidate. -/
theorem candidate_after {txid : TxId} {probe : Probe}
    (h : (after π setup es).actor.probes.lookup txid = some probe) :
    ∃ es₀, es₀ <+: es ∧ (after π setup es₀).actor.IsCandidate probe.key probe.endpoint := by
  induction es using List.reverseRecOn with
  | nil =>
    change (Actor.init setup).probes.lookup txid = some probe at h
    rw [Actor.init_probes] at h
    cases h
  | append_singleton es e ih =>
    have hold : (after π setup es).actor.probes.lookup txid = some probe →
        ∃ es₀, es₀ <+: es ++ [e] ∧
          (after π setup es₀).actor.IsCandidate probe.key probe.endpoint := fun h => by
      obtain ⟨es₀, hprefix, hcandidate⟩ := ih h
      exact ⟨es₀, hprefix.trans (List.prefix_append _ _), hcandidate⟩
    have hnew := after_concat (π := π) setup es e
    cases e with
    | seals secret peer nonce data =>
      rw [hnew, actor_step_seals] at h
      exact hold h
    | actor e =>
      rw [hnew] at h
      rcases Actor.step_probes (after π setup es).actor e txid probe h with hprobe | hcandidate
      · exact hold hprobe
      · exact ⟨_, List.prefix_refl _, by rw [hnew]; exact hcandidate⟩

/-- What others have sealed was sealed with other keys than the actor's. -/
def SealedByOthers (π : Platform) (pub : Key → Key) (w : World) : Prop :=
  ∀ x ∈ w.sealed, pub x.secret ≠ w.actor.key.discoPublic ∧
    ∃ nonce box, π.encrypt x.secret x.peer nonce x.data = some box ∧ x.box = nonce.1 ++ box

theorem step_sealedByOthers (hpossible : Possible π pub w e) (h : SealedByOthers π pub w)
    (hown : (step π w e).actor.key = w.actor.key) : SealedByOthers π pub (step π w e) := by
  intro x hx
  rw [hown]
  cases e with
  | seals secret peer nonce data =>
    unfold step at hx
    dsimp only at hx
    split at hx
    · rename_i box hbox
      rcases List.mem_append.1 hx with hx | hx
      · exact h x hx
      · rw [List.mem_singleton.1 hx]
        exact ⟨hpossible, nonce, box, hbox, rfl⟩
    · exact h x hx
  | actor e => exact h x hx

/-- The parts of a packet whose box is known. -/
theorem parts_of_boxOf {packet box : Bytes} {nonce : Nonce} (h : boxOf packet = nonce.1 ++ box) :
    slice packet 38 62 = nonce.1 ∧ packet.drop 62 = box := by
  have hlength : nonce.1.length = 24 := nonce.2
  refine ⟨?_, ?_⟩
  · rw [slice, show packet.drop 38 = nonce.1 ++ box from h]
    exact List.take_left' hlength
  · rw [show packet.drop 62 = (packet.drop 38).drop 24 by rw [List.drop_drop],
      show packet.drop 38 = nonce.1 ++ box from h]
    exact List.drop_left' hlength

/-- **A pong that the actor opens and has not sealed was sealed by the peer**, for the actor. -/
theorem peerAnswers (hideal : (π.boxes pub).Ideal)
    (hown : pub w.actor.key.discoPrivate = w.actor.key.discoPublic)
    (hothers : SealedByOthers π pub w) {key : Key} {packet data : Bytes} {endpoint : SocketAddr}
    (hpossible : Possible π pub w (.actor (.datagram endpoint packet)))
    (hkeeps : KeepsPongs π w (.actor (.datagram endpoint packet)))
    (hpong : Actor.IsPong π w.actor key packet data endpoint) :
    PeerAnswers pub w key packet (Actor.txidOf data) := by
  obtain ⟨peer, hpeer, hopen⟩ := hpong.opens
  have hseen : w.Seen (boxOf packet) := by
    refine (hpossible packet rfl).resolve_right fun hnone => ?_
    rw [hnone] at hopen
    cases hopen
  rcases hseen with hmem | ⟨x, hx, hbox⟩
  · exact absurd hpong.kind (hkeeps packet rfl hmem _ _ hopen)
  obtain ⟨hother, nonce, box, hsealed, hx'⟩ := hothers x hx
  obtain ⟨hnonce, hrest⟩ := parts_of_boxOf (hbox.symm.trans hx')
  unfold Actor.openDisco at hopen
  split_ifs at hopen
  rw [hnonce, hrest] at hopen
  have hdisclose : (π.boxes pub).disclose w.actor.key.discoPrivate peer.discoKey nonce box =
      some data := hopen
  -- The box does not tell who has sealed it, but the actor has not.
  obtain ⟨hsealer, hreceiver⟩ := hideal.sealed_by_peer hsealed hdisclose (by rwa [← hown] at hother)
  obtain ⟨-, -, rfl⟩ := hideal.only hsealed hdisclose
  refine ⟨x, hx, hbox, ?_, hother, hreceiver.trans hown, hpong.kind, rfl⟩
  rw [Actor.discoOf, hpeer]
  exact congrArg some hsealer.symm

/-- A probe that is answered in time was sent recently. -/
theorem recentlyProbed {a : Actor} (h : Actor.ProbesSent π a) {key : Key} {endpoint : SocketAddr}
    {txid : TxId} (hawaits : a.AwaitsPong key endpoint txid) :
    RecentlyProbed π a key endpoint txid := by
  obtain ⟨probe, hprobe, rfl, rfl, hrecent⟩ := hawaits
  obtain ⟨disco, packet, sent, hknown, hping, hsent, hpast, -⟩ := h txid probe hprobe
  exact ⟨disco, packet, probe.sent, sent, hknown, hping, hsent, hpast, hrecent⟩

theorem promoted_after (hideal : (π.boxes pub).Ideal)
    (hkey : pub setup.key.discoPrivate = setup.key.discoPublic)
    (h : Along (step π) (fun w e => Possible π pub w e ∧ KeepsPongs π w e) (start setup) es) :
    SealedByOthers π pub (after π setup es) ∧ ∀ before key endpoint when txid,
      before ++ [.promote key endpoint when txid] <+: (after π setup es).actor.trace →
        Answered π pub setup es before key endpoint when txid := by
  induction es using List.reverseRecOn with
  | nil =>
    refine ⟨fun x hx => (by cases hx), fun before key endpoint when txid hprefix => ?_⟩
    rw [show (after π setup []).actor.trace = [] from Actor.init_trace setup,
      List.prefix_nil] at hprefix
    exact absurd hprefix (List.append_ne_nil_of_right_ne_nil _ (List.cons_ne_nil _ _))
  | append_singleton es e ih =>
    obtain ⟨hbefore, hlast⟩ := along_append.1 h
    obtain ⟨hpossible, hkeeps⟩ := hlast.1
    obtain ⟨hothers, hanswered⟩ := ih hbefore
    refine ⟨?_, fun before key endpoint when txid hprefix => ?_⟩
    · rw [after_concat]
      refine step_sealedByOthers hpossible hothers ?_
      rw [← after_concat, key_after, key_after]
    -- an old entry was answered then
    · have hold : before ++ [.promote key endpoint when txid] <+: (after π setup es).actor.trace →
          Answered π pub setup (es ++ [e]) before key endpoint when txid := fun hprefix => by
        obtain ⟨es₁, packet, hes, hrest⟩ := hanswered _ _ _ _ _ hprefix
        exact ⟨es₁, packet, hes.trans (List.prefix_append _ _), hrest⟩
      rw [after_concat] at hprefix
      cases e with
      | seals secret peer nonce data =>
        rw [actor_step_seals] at hprefix
        exact hold hprefix
      | actor e =>
        rw [actor_step_actor] at hprefix
        rcases Actor.step_silent (π := π) (wired_after setup es) e with hsilent | hpromoted
        · obtain ⟨new, hnew, hsilent⟩ := hsilent
          rw [hnew] at hprefix
          exact hold (prefix_of_silent (P := Act.IsPromote) trivial hsilent hprefix)
        · obtain ⟨key', packet, data, endpoint', rfl, hpong, hawaits, new, hnew, hsilent⟩ :=
            hpromoted
          rw [List.append_cons] at hnew
          rw [hnew] at hprefix
          have hlast := prefix_of_silent (P := Act.IsPromote)
            (x := .promote key endpoint when txid) trivial hsilent hprefix
          -- the entry is new, or it is an old one
          rcases List.prefix_concat_iff.1 hlast with heq | hprefix
          · obtain ⟨hbefore, hact⟩ := List.append_inj' heq rfl
            rw [List.singleton_inj] at hact
            cases hact
            obtain ⟨probe, hprobe, rfl, rfl, -⟩ := id hawaits
            refine ⟨es, packet, List.prefix_refl _, hbefore, rfl, hpong.usable,
              recentlyProbed (probesSent_after setup es) hawaits, candidate_after hprobe, ?_⟩
            refine peerAnswers hideal ?_ hothers hpossible hkeeps hpong
            rw [key_after]
            exact hkey
          · exact hold hprefix

theorem recorded_after (setup : Actor.Setup) (es : List Event) :
    (after π setup es).actor.Recorded := by
  rw [actor_after]
  refine Actor.run_invariant (I := Actor.Recorded) ?_ (fun _ _ _ _ hstep => hstep.recorded) _
  intro key endpoint when hdirect
  rw [Actor.init_directOf] at hdirect
  cases hdirect

theorem once_after (setup : Actor.Setup) (es : List Event)
    (hfresh : Actor.Fresh π (after π setup es).actor) :
    (after π setup es).actor.promotions.Nodup := by
  rw [actor_after] at hfresh ⊢
  refine (Actor.run_invariant (I := fun a => Actor.Fresh π a → Actor.Once π a) ?_ ?_ _ hfresh).nodup
  · exact fun _ => Actor.init_once setup
  · exact fun _ _ a b hstep hI hfresh => hstep.once hfresh (hI (hfresh.mono hstep.draws))

/-- **Direct paths are set by the peers themselves**: in every run in which the network does not
give the actor back a pong of its own, a direct path is set only for the peer's own answer to a
recent probe of a candidate, from there. -/
theorem authentic (hideal : (π.boxes pub).Ideal) (setup : Actor.Setup)
    (hkey : pub setup.key.discoPrivate = setup.key.discoPublic) (es : List Event)
    (h : Along (step π) (fun w e => Possible π pub w e ∧ KeepsPongs π w e) (start setup) es) :
    Authentic π pub setup es :=
  ⟨(promoted_after hideal hkey h).2, recorded_after setup es, once_after setup es⟩

/-! ### Perfect boxes -/

/-- The bytes of a key, as numbers. -/
def digits (key : Key) : List ℕ := key.1.map UInt8.toNat

/-- The ends of a box in their order. -/
def ordered (secret peer : Key) : Key × Key :=
  if digits secret ≤ digits peer then (secret, peer) else (peer, secret)

/-- What a perfect box shows: its ends in their order, and its nonce. -/
def label (secret peer : Key) (nonce : Bytes) : Bytes :=
  (ordered secret peer).1.1 ++ ((ordered secret peer).2.1 ++ nonce)

/-- The sample platform with perfect boxes; every key is its own public key. -/
def symbolic : Platform :=
  { Sample.sample with
    encrypt := fun secret peer nonce data => some (label secret peer nonce.1 ++ data)
    decrypt := fun secret peer nonce box =>
      if box.take 88 = label secret peer nonce then some (box.drop 88) else none }

theorem digits_injective {x y : Key} (h : digits x = digits y) : x = y :=
  Subtype.ext (List.map_injective_iff.2 (fun _ _ => UInt8.toNat.inj) h)

theorem ordered_comm (x y : Key) : ordered x y = ordered y x := by
  unfold ordered
  split_ifs with hxy hyx
  · rw [digits_injective (le_antisymm hxy hyx)]
  · rfl
  · rfl
  · exact absurd (le_total _ _) (not_or.2 ⟨hxy, by assumption⟩)

theorem ordered_ends (x y : Key) : s((ordered x y).1, (ordered x y).2) = s(x, y) := by
  unfold ordered
  split_ifs
  · rfl
  · exact Sym2.eq_swap

theorem length_label (secret peer : Key) (nonce : Nonce) :
    (label secret peer nonce.1).length = 88 := by
  simp only [label, List.length_append, (ordered secret peer).1.2, (ordered secret peer).2.2,
    nonce.2]

theorem label_congr {secret peer secret' peer' : Key} (h : s(secret, peer) = s(secret', peer'))
    (nonce : Bytes) : label secret peer nonce = label secret' peer' nonce := by
  rcases Sym2.eq_iff.1 h with ⟨rfl, rfl⟩ | ⟨rfl, rfl⟩
  · rfl
  · rw [label, label, ordered_comm]

theorem label_inj {secret peer secret' peer' : Key} {nonce nonce' : Nonce}
    (h : label secret' peer' nonce'.1 = label secret peer nonce.1) :
    s(secret', peer') = s(secret, peer) ∧ nonce' = nonce := by
  obtain ⟨hfirst, hrest⟩ := List.append_inj h
    ((ordered secret' peer').1.2.trans (ordered secret peer).1.2.symm)
  obtain ⟨hsecond, hnonce⟩ := List.append_inj hrest
    ((ordered secret' peer').2.2.trans (ordered secret peer).2.2.symm)
  refine ⟨?_, Subtype.ext hnonce⟩
  rw [← ordered_ends secret' peer', Subtype.ext hfirst, Subtype.ext hsecond, ordered_ends]

theorem symbolic_ideal : (symbolic.boxes id).Ideal where
  enclose_congr {secret peer secret' peer'} h := by
    funext nonce data
    exact congrArg (fun front => some (front ++ data)) (label_congr h nonce.1)
  disclose_congr {secret peer secret' peer'} h := by
    funext nonce box
    change (if box.take 88 = label secret peer nonce.1 then _ else _) =
      if box.take 88 = label secret' peer' nonce.1 then _ else _
    rw [label_congr (show s(secret, peer) = s(secret', peer') from h) nonce.1]
  opens {secret peer nonce data box} h := by
    cases h
    have hlength := length_label secret peer nonce
    change (if (label secret peer nonce.1 ++ data).take 88 = label secret peer nonce.1 then
      some ((label secret peer nonce.1 ++ data).drop 88) else none) = some data
    rw [List.take_left' hlength, if_pos rfl, List.drop_left' hlength]
  only {secret peer secret' peer' nonce nonce' data data' box} h hopen := by
    cases h
    have hlength := length_label secret peer nonce
    change (if (label secret peer nonce.1 ++ data).take 88 = label secret' peer' nonce'.1 then
      some ((label secret peer nonce.1 ++ data).drop 88) else none) = some data' at hopen
    rw [List.take_left' hlength, List.drop_left' hlength] at hopen
    split_ifs at hopen with hlabel
    obtain ⟨hends, hnonce⟩ := label_inj hlabel.symm
    exact ⟨hends, hnonce, (Option.some.inj hopen).symm⟩

/-! ### Two runs -/

open Sample

/-- The packet of the peer `2` with a box. -/
def fromPeer (box : Bytes) : Bytes := discoMagic ++ (keyOf 130).1 ++ box

/-- The last datagram that was sent. -/
def lastUdp (a : Actor) : Bytes :=
  (a.trace.filterMap fun
    | .udp _ _ packet _ => some packet
    | _ => none).getLastD []

/-- An endpoint of the peer. -/
def peerEndpoint : SocketAddr := .v4 ⟨[198, 51, 100, 7], rfl⟩ 5000

/-- A box that the peer seals for the server `1`. -/
def peerSeals (n : ℕ) (data : Bytes) : Event := .seals (keyOf 130) (keyOf 129) (numbered 24 n) data

/-- The box of `peerSeals`, as it is sent. -/
def peerBox (n : ℕ) (data : Bytes) : Bytes :=
  (numbered 24 n).1 ++ (label (keyOf 130) (keyOf 129) (numbered 24 n).1 ++ data)

/-- The peer announces its endpoint. -/
def announcement : Bytes := [3, 0] ++ endpointBytes peerEndpoint

/-- A peer registers and announces an endpoint, which is probed. -/
def opening : List Event := [
  .actor (registration (keyOf 2) (keyOf 130)),
  peerSeals 1000 announcement,
  .actor (.relayed (keyOf 2) (fromPeer (peerBox 1000 announcement)))]

/-- A packet that nobody opens, or whose box was seen. -/
def isPossible (w : World) : Event → Bool
  | .seals secret .. => secret ≠ w.actor.key.discoPublic
  | .actor e => (delivered e).all fun packet =>
    packet.length < 78 || boxOf packet ∈ ownBoxes w.actor ||
      w.sealed.any fun x => x.box = boxOf packet

/-- A packet that nobody opens, or whose box the actor has not sent. -/
def isOthers (w : World) : Event → Bool
  | .seals .. => true
  | .actor e => (delivered e).all fun packet =>
    packet.length < 78 || boxOf packet ∉ ownBoxes w.actor

theorem openDisco_of_short {a : Actor} {packet : Bytes} (h : packet.length < 78) (peer : Key) :
    a.openDisco π peer packet = none := if_pos h

theorem possible_of_isPossible (h : isPossible w e = true) : Possible π id w e := by
  cases e with
  | seals => simpa [isPossible, Possible] using h
  | actor e =>
    intro packet hpacket
    simp only [isPossible, hpacket, Option.all_some, Bool.or_eq_true, decide_eq_true_eq,
      List.any_eq_true] at h
    rcases h with (hshort | hown) | hsealed
    · exact .inr (openDisco_of_short hshort)
    · exact .inl (.inl hown)
    · exact .inl (.inr hsealed)

theorem keepsPongs_of_isOthers (h : isOthers w e = true) : KeepsPongs π w e := by
  cases e with
  | seals => trivial
  | actor e =>
    intro packet hpacket hown peer data hopen
    simp only [isOthers, hpacket, Option.all_some, Bool.or_eq_true, decide_eq_true_eq] at h
    rcases h with hshort | hother
    · rw [openDisco_of_short hshort] at hopen
      cases hopen
    · exact absurd hown hother

/-- The peer answers the probe, and its endpoint becomes the direct path. -/
theorem authentic_sample :
    let pong := [2, 0] ++ (numbered 12 3).1 ++ endpointBytes peerEndpoint
    let es := opening ++ [peerSeals 1001 pong,
      .actor (.datagram peerEndpoint (fromPeer (peerBox 1001 pong)))]
    (after symbolic (serverSetup {}) es).actor.directOf (keyOf 2) = some (peerEndpoint, 100000) ∧
      Authentic symbolic id (serverSetup {}) es := by
  intro pong es
  have hsteps : Along (step symbolic) (fun w e => isPossible w e = true ∧ isOthers w e = true)
      (start (serverSetup {})) es := by decide +kernel
  exact ⟨by decide +kernel, authentic symbolic_ideal (serverSetup {}) rfl es
    (hsteps.mono fun w e h => ⟨possible_of_isPossible h.1, keepsPongs_of_isOthers h.2⟩)⟩

/-- Boxes that were sealed stay sealed. -/
theorem sealed_stays {es₁ : List Event} (h : es₁ <+: es) {x : Sealed}
    (hx : x ∈ (after π setup es₁).sealed) : x ∈ (after π setup es).sealed := by
  obtain ⟨es₂, rfl⟩ := h
  induction es₂ using List.reverseRecOn with
  | nil => rwa [List.append_nil]
  | append_singleton es₂ e ih =>
    rw [← List.append_assoc, after_concat]
    cases e with
    | seals secret peer nonce data =>
      unfold step
      dsimp only
      split
      · exact List.mem_append_left _ ih
      · exact ih
    | actor e => exact ih

/-- A direct path that was set is in the record. -/
theorem exists_promote {trace : List Act} (h : trace.filterMap Act.promotion ≠ []) :
    ∃ before key endpoint when txid, before ++ [.promote key endpoint when txid] <+: trace := by
  obtain ⟨txid, hmem⟩ := List.exists_mem_of_ne_nil _ h
  obtain ⟨x, hx, hpromotion⟩ := List.mem_filterMap.1 hmem
  obtain ⟨before, rest, rfl⟩ := List.append_of_mem hx
  cases x with
  | promote key endpoint when txid =>
    exact ⟨before, key, endpoint, when, txid, rest, by rw [List.append_assoc]; rfl⟩
  | _ => cases hpromotion

/-- The network gives the actor its own ping back, and then its own answer to it: an endpoint
becomes the direct path of a peer that has answered nothing. -/
theorem reflected :
    let ping := fromPeer (boxOf (lastUdp (after symbolic (serverSetup {}) opening).actor))
    let es := opening ++ [.actor (.datagram peerEndpoint ping)]
    let pong := fromPeer (boxOf (lastUdp (after symbolic (serverSetup {}) es).actor))
    let es := es ++ [.actor (.datagram peerEndpoint pong)]
    Along (step symbolic) (Possible symbolic id) (start (serverSetup {})) es ∧
      (after symbolic (serverSetup {}) es).actor.directOf (keyOf 2) =
        some (peerEndpoint, 100000) ∧
      ¬Authentic symbolic id (serverSetup {}) es := by
  intro ping es pong es'
  have hsteps : Along (step symbolic) (fun w e => isPossible w e = true) (start (serverSetup {}))
      es' := by decide +kernel
  have hpromoted : (after symbolic (serverSetup {}) es').actor.promotions ≠ [] := by
    decide +kernel
  have hkinds : ∀ x ∈ (after symbolic (serverSetup {}) es').sealed, x.data.getD 0 0 ≠ 2 := by
    decide +kernel
  refine ⟨hsteps.mono fun w e h => possible_of_isPossible h, by decide +kernel, fun h => ?_⟩
  obtain ⟨before, key, endpoint, when, txid, hprefix⟩ := exists_promote hpromoted
  obtain ⟨es₁, packet, hes, -, -, -, -, -, x, hx, -, -, -, -, hpong, -⟩ :=
    h.answered before key endpoint when txid hprefix
  exact hkinds x (sealed_stays ((List.prefix_append _ _).trans hes) hx) hpong

end World

end Tailcat.Runtime
