import Tailcat.Runtime.Probes
import Tailcat.Runtime.Registration
import Mathlib.Data.Set.Function

/-!
# Direct paths

A direct path is set by the answer to a probe that was sent to its endpoint, and every time it is
set the record of what was done has an entry.

* `Small.paths` : what one change does to peers, probes and direct paths.
* `ProbesSent` : probes that wait were sent, in the past, to an endpoint that may be used.
* `Once` : no transaction identifier sets two direct paths, as long as none is drawn twice.

Two kinds of changes matter: a probe is sent, or an answer sets a path.  All others are quiet, which
allows them to forget probes and paths.  An answer is checked against the probe with its transaction
identifier, which is drawn at random; that no identifier is drawn twice is the condition `Fresh`,
and without it the last result does not hold.
-/

namespace Tailcat.Runtime

open Net

/-- The entry of a direct path that is set. -/
def Act.IsPromote : Act → Prop
  | .promote .. => True
  | _ => False

/-- The transaction identifier of a direct path that is set. -/
def Act.promotion : Act → Option TxId
  | .promote _ _ _ txid => some txid
  | _ => none

theorem Act.promotion_eq_none {x : Act} (h : ¬x.IsPromote) : x.promotion = none := by
  cases x with
  | promote => exact absurd trivial h
  | _ => rfl

namespace Actor

variable {π : Platform} {Q : Actor → PollAction → Prop} {s a b : Actor} {e : Event}

/-- The transaction identifiers that have set a direct path. -/
def promotions (a : Actor) : List TxId := a.trace.filterMap Act.promotion

/-- No direct path was set between two states. -/
def Silent (a b : Actor) : Prop := ∃ new, b.trace = a.trace ++ new ∧ ∀ x ∈ new, ¬x.IsPromote

theorem Silent.ofEq (h : b.trace = a.trace) : Silent a b :=
  ⟨[], by rw [h, List.append_nil], by simp⟩

theorem Silent.trans {c : Actor} (h : Silent a b) (h' : Silent b c) : Silent a c := by
  obtain ⟨new, hnew, hsilent⟩ := h
  obtain ⟨new', hnew', hsilent'⟩ := h'
  refine ⟨new ++ new', by rw [hnew', hnew, List.append_assoc], fun x hx => ?_⟩
  exact (List.mem_append.1 hx).elim (hsilent x) (hsilent' x)

/-- The direct path of a peer, and when it was set. -/
def directOf (a : Actor) (key : Key) : Option (SocketAddr × ℕ) :=
  (a.peers.lookup key).bind (·.direct)

/-- The packet is a sealed ping with a transaction identifier. -/
def IsPing (π : Platform) (key : PrivateKey) (disco : Key) (txid : TxId) (packet : Bytes) : Prop :=
  ∃ nonce box, π.encrypt key.discoPrivate disco nonce ([1, 0] ++ txid.1 ++ key.pub.1) = some box ∧
    packet = discoMagic ++ key.discoPublic.1 ++ nonce.1 ++ box

/-! ### What a change does to paths -/

/-- No direct path is set, and no endpoint is probed. -/
structure Quiet (a b : Actor) : Prop where
  own : b.key = a.key
  now : a.now ≤ b.now
  draws : a.draws ≤ b.draws
  trace : Silent a b
  disco : ∀ key disco, a.discoOf key = some disco → b.discoOf key = some disco
  direct : ∀ key path, b.directOf key = some path → a.directOf key = some path
  probes : ∀ txid probe, b.probes.lookup txid = some probe → a.probes.lookup txid = some probe

/-- A peer's endpoint is probed. -/
structure Probed (π : Platform) (a b : Actor) (key disco : Key) (endpoint : SocketAddr)
    (packet : Bytes) : Prop where
  own : b.key = a.key
  now : b.now = a.now
  draws : a.draws < b.draws
  trace : ∃ sent, b.trace = a.trace ++ [.udp a.now endpoint packet sent]
  peers : b.peers = a.peers
  probes : b.probes = a.probes.insert (π.txid a.draws) { key, endpoint, sent := a.now }
  known : a.discoOf key = some disco
  usable : usableEndpoint endpoint = true
  ping : IsPing π a.key disco (π.txid a.draws) packet

/-- A direct path is set. -/
structure Promoted (π : Platform) (e : Event) (a b : Actor) (key : Key) (endpoint : SocketAddr)
    (txid : TxId) : Prop where
  own : b.key = a.key
  now : b.now = a.now
  draws : b.draws = a.draws
  trace : b.trace = a.trace ++ [.promote key endpoint a.now txid]
  disco : ∀ key, b.discoOf key = a.discoOf key
  direct : ∀ key', b.directOf key' =
    if key' = key then some (endpoint, a.now) else a.directOf key'
  probes : b.probes = a.probes.erase txid
  answers : Promotes π a e key endpoint a.now txid

namespace Quiet

theorem ofEq (hkey : b.key = a.key) (hnow : a.now ≤ b.now) (hdraws : a.draws ≤ b.draws)
    (htrace : Silent a b) (hpeers : b.peers = a.peers) (hprobes : b.probes = a.probes) :
    Quiet a b where
  own := hkey
  now := hnow
  draws := hdraws
  trace := htrace
  disco key disco h := by rwa [discoOf_congr hpeers]
  direct key path h := by rwa [directOf, hpeers] at h
  probes txid probe h := by rwa [hprobes] at h

end Quiet

theorem not_isPromote_of_maySend {x : Act} (h : a.MaySend x) : ¬x.IsPromote := by
  cases x with
  | promote => exact h.elim
  | _ => exact not_false

theorem Sends.silent (h : Sends a b) : Silent a b := by
  obtain ⟨new, hnew, hmay⟩ := h.trace
  exact ⟨new, hnew, fun x hx => not_isPromote_of_maySend (hmay x hx)⟩

theorem directOf_adjust {key key' : Key} {f : Peer → Peer} (peers : Table Key Peer)
    (hf : ∀ peer, (f peer).direct = peer.direct) :
    ((peers.adjust key f).lookup key').bind (·.direct) = (peers.lookup key').bind (·.direct) := by
  rw [Table.lookup_adjust]
  split_ifs
  · cases peers.lookup key' with
    | none => rfl
    | some peer => exact hf peer
  · rfl

theorem silent_deliver (a : Actor) (flow : UdpFlowKey) (payload : Bytes) :
    Silent a (a.deliver flow payload) := by
  unfold deliver
  split
  · exact Silent.ofEq rfl
  · rename_i state _
    dsimp only
    split
    · split_ifs
      · exact ⟨[.deliver state.stream payload], rfl, by simp [Act.IsPromote]⟩
      · exact Silent.ofEq rfl
    · exact Silent.ofEq rfl

theorem silent_pollLink {index : ℕ} {conn : Conn} (hc : a.connAt index = some conn) :
    Silent a (a.putConn index (conn.poll (a.surroundings π))) := by
  obtain ⟨new, hnew, hof⟩ := (Conn.poll_goes (a.surroundings π) conn).acts
  rw [(connAt_eq_some.1 hc).2.2.2, List.nil_append] at hnew
  refine ⟨new, by rw [← hnew]; rfl, fun x hx hpromote => ?_⟩
  have hlink := hof x hx
  cases x with
  | promote => exact hlink
  | _ => exact hpromote

/-- A sealed message is what the box scheme makes of it. -/
theorem isPing_of_sealDisco {disco : Key} {txid : TxId} {packet : Bytes}
    (h : (a.sealDisco π disco ([1, 0] ++ txid.1 ++ a.key.pub.1)).1 = some packet) :
    IsPing π a.key disco txid packet := by
  obtain ⟨box, hbox, rfl⟩ := Option.map_eq_some_iff.1 h
  exact ⟨_, box, hbox, rfl⟩

/-- **A change leaves paths alone, probes a peer's endpoint, or sets a direct path.** -/
theorem Small.paths (h : Small π Q s e a b) :
    Quiet a b ∨ (∃ key disco endpoint packet, Probed π a b key disco endpoint packet) ∨
      ∃ key endpoint txid, Promoted π e a b key endpoint txid := by
  cases h with
  | sends h => rw [h.eq]; exact .inl (.ofEq rfl (le_refl _) h.draws h.silent rfl rfl)
  | repeatPings h => rw [h.eq]; exact .inl (.ofEq rfl (le_refl _) h.draws h.silent rfl rfl)
  | @act _ x h =>
    refine .inl (.ofEq rfl (le_refl _) (le_refl _) ⟨[x], rfl, fun y hy => ?_⟩ rfl rfl)
    rw [List.mem_singleton.1 hy]
    cases x with
    | promote => exact h.elim
    | _ => exact not_false
  -- nobody had the key, and a new peer has no direct path
  | @register _ key disco _ _ _ _ _ _ hnew =>
    refine .inl ⟨rfl, le_refl _, le_refl _, Silent.ofEq rfl, fun key' disco' h => ?_,
      fun key' path h => ?_, fun _ _ h => h⟩
    · have hne : key' ≠ key := fun heq => by
        rw [heq, discoOf_eq_none.2 hnew] at h
        cases h
      rw [Actor.discoOf, AList.lookup_insert_ne hne]
      exact h
    · rw [directOf, Table.lookup_insert_eq] at h
      split_ifs at h
      · cases h
      · exact h
  | candidates =>
    refine .inl ⟨rfl, le_refl _, le_refl _, Silent.ofEq rfl, fun key' disco h => ?_,
      fun key' path h => ?_, fun _ _ h => h⟩
    · rw [Actor.discoOf, discoOf_adjust]
      · exact h
      · exact fun _ => rfl
    · rw [directOf, directOf_adjust] at h
      · exact h
      · exact fun _ => rfl
  -- the one change that adds a probe
  | @probed _ key peer endpoint packet hpeer husable _ hpacket =>
    refine .inr (.inl ⟨key, peer.discoKey, endpoint, packet, rfl, rfl,
      Nat.lt_succ_of_lt (Nat.lt_succ_of_lt (Nat.lt_succ_self _)), ⟨_, rfl⟩, rfl, rfl, ?_, husable,
      isPing_of_sealDisco (a := a.draw) hpacket⟩)
    rw [Actor.discoOf, hpeer]
    rfl
  -- the one change that sets a direct path
  | @direct _ key peer probe packet data he hpeer hheader hopen hpong hprobe hkey husable hsent =>
    refine .inr (.inr ⟨key, probe.endpoint, txidOf data, rfl, rfl, rfl, rfl, fun key' => ?_,
      fun key' => ?_, rfl, rfl, peer, packet, data, probe, he, hpeer, hheader, hopen, hpong, rfl,
      hprobe, hkey, rfl, husable, hsent⟩)
    · exact discoOf_adjust _ fun _ => rfl
    · change ((a.peers.adjust key _).lookup key').bind _ = _
      rw [Table.lookup_adjust]
      split_ifs with hk
      · rw [hk, hpeer]
        rfl
      · rfl
  | expireProbes p =>
    refine .inl ⟨rfl, le_refl _, le_refl _, Silent.ofEq rfl, fun _ _ h => h, fun _ _ h => h,
      fun txid probe h => ?_⟩
    rw [Table.lookup_retain] at h
    exact (Option.filter_eq_some_iff.1 h).1
  -- the others are about other tables
  | newUdpFlow =>
    rw [newUdpFlow_eq]
    exact .inl (.ofEq rfl (le_refl _) (le_refl _) (Silent.ofEq rfl) rfl rfl)
  | lostUdpFlow =>
    rw [newUdpFlow_eq]
    exact .inl (.ofEq rfl (le_refl _) (le_refl _) (Silent.ofEq rfl) rfl rfl)
  | removeCancelled =>
    rw [removeCancelled_eq]
    exact .inl (.ofEq rfl (le_refl _) (le_refl _) (Silent.ofEq rfl) rfl rfl)
  | deliver =>
    rw [deliver_eq]
    exact .inl (.ofEq rfl (le_refl _) (le_refl _) (silent_deliver _ _ _) rfl rfl)
  | udpOutput =>
    rw [udpOutput_eq]
    exact .inl (.ofEq rfl (le_refl _) (le_refl _) (Silent.ofEq rfl) rfl rfl)
  | expireUdp =>
    rw [expireUdp_eq]
    exact .inl (.ofEq rfl (le_refl _) (le_refl _) (Silent.ofEq rfl) rfl rfl)
  | poll =>
    rw [pollAction_eq]
    exact .inl (.ofEq rfl (le_refl _) (le_refl _) (Silent.ofEq rfl) rfl rfl)
  | pollLink _ hc =>
    exact .inl (.ofEq rfl (le_refl _) (Nat.le_add_right _ _) (silent_pollLink hc) rfl rfl)
  | removeLink hc =>
    rw [removeLink_of_connAt hc]
    exact .inl (.ofEq rfl (le_refl _) (le_refl _) ⟨[_], rfl, by simp [Act.IsPromote]⟩ rfl rfl)
  | elapse d =>
    exact .inl (.ofEq rfl (Nat.le_add_right _ _) (le_refl _) (Silent.ofEq rfl) rfl rfl)
  | reorder hperm =>
    refine .inl ⟨rfl, le_refl _, le_refl _, Silent.ofEq rfl, fun key disco h => ?_,
      fun key path h => ?_, fun _ _ h => h⟩
    · rw [Actor.discoOf, AList.perm_lookup hperm]
      exact h
    · rw [directOf, AList.perm_lookup hperm] at h
      exact h
  | _ => exact .inl (.ofEq rfl (le_refl _) (le_refl _) (Silent.ofEq rfl) rfl rfl)

/-! ### When a direct path is set -/

/-- Only datagrams set direct paths. -/
theorem Small.silent (h : Small π Q s e a b) (he : ∀ source packet, e ≠ .datagram source packet) :
    Silent a b := by
  rcases h.paths with hquiet | ⟨key, disco, endpoint, packet, hprobed⟩ |
    ⟨key, endpoint, txid, hpromoted⟩
  · exact hquiet.trace
  · obtain ⟨sent, htrace⟩ := hprobed.trace
    exact ⟨_, htrace, by simp [Act.IsPromote]⟩
  · obtain ⟨peer, packet, data, probe, hdatagram, -⟩ := hpromoted.answers.pong
    exact absurd hdatagram (he _ _)

theorem Changes.silent (h : Changes π Q s e a b)
    (he : ∀ source packet, e ≠ .datagram source packet) : Silent a b :=
  h.preserves (I := Silent a) (fun _ _ hstep hc => hc.trans (hstep.silent he)) (.ofEq rfl)

/-- The changes of a function that may be made while a command is carried out. -/
theorem silent_of_changes (h : Changes π AnyPoll a (.elapse 0) a b) : Silent a b :=
  h.silent fun _ _ he => by cases he

theorem tunnelWrites_silent {key : Key} {n : ℕ} {source : Option IpAddr} {data : Bytes}
    (hkey : key ∈ a.peers) :
    Silent a ((π.decapsulate n key source data).foldl (tunnelWrite π key) a) := by
  have hchanges : Changes π AnyPoll a (.relayed key data) a
      ((π.decapsulate n key source data).foldl (tunnelWrite π key) a) :=
    Changes.foldl (I := fun b => key ∈ b.peers)
      (fun _ _ hchanges hmem => hchanges.extends.peers key hmem)
      (fun b r hr hmem => tunnelWrite_changes trivial hmem hr) hkey
  exact hchanges.silent fun _ _ he => by cases he

/-- A packet that is a pong for a peer, from an endpoint that may be used. -/
structure IsPong (π : Platform) (a : Actor) (key : Key) (packet data : Bytes)
    (source : SocketAddr) : Prop where
  opens : ∃ peer, a.peers.lookup key = some peer ∧
    a.openDisco π peer.discoKey packet = some data
  kind : data.getD 0 0 = 2
  usable : usableEndpoint source = true

theorem discoPacket_silent (a : Actor) (key : Key) (packet : Bytes) (source : SocketAddr) :
    Silent a (a.discoPacket π key packet (some source)) ∨
      ∃ data, IsPong π a key packet data source ∧
        a.discoPacket π key packet (some source) = a.discoPong key data (some source) := by
  have hrefl : Silent a a := .ofEq rfl
  unfold discoPacket
  split
  · exact .inl hrefl
  · rename_i peer hpeer
    split_ifs
    · exact .inl hrefl
    · split
      · exact .inl hrefl
      · rename_i data hopen
        split_ifs with hbad hping hpong hcall
        · exact .inl hrefl
        · exact .inl (silent_of_changes (discoPing_changes hpeer _ _))
        · have husable : usableEndpoint source = true := by
            simpa using (not_or.1 (not_or.1 hbad).2).2
          exact .inr ⟨data, ⟨⟨peer, hpeer, hopen⟩, hpong.1, husable⟩, rfl⟩
        · exact .inl (silent_of_changes (callMeMaybe_changes hpeer _))
        · exact .inl hrefl

theorem incomingPacket_silent (a : Actor) (key : Key) (data : Bytes) (source : SocketAddr)
    (h : discoMagic.isPrefixOf data = false ∨ data.length < 38) :
    Silent a (a.incomingPacket π key data (some source)) := by
  unfold incomingPacket
  split_ifs with hmeow hdisco hkey
  · exact .ofEq rfl
  · have hshort : data.length < 38 := h.resolve_left (by simp [hdisco])
    unfold discoPacket
    split
    · exact .ofEq rfl
    · rw [if_pos (.inl (by omega))]
      exact .ofEq rfl
  · exact Silent.trans (b := a.draw) (.ofEq rfl) (tunnelWrites_silent hkey)
  · exact .ofEq rfl

theorem foldl_silent {α : Type} {f : Actor → α → Actor} (hf : ∀ a x, Silent a (f a x))
    (l : List α) (a : Actor) : Silent a (l.foldl f a) := by
  induction l generalizing a with
  | nil => exact .ofEq rfl
  | cons x l ih => exact (hf a x).trans (ih (f a x))

theorem udpPacket_silent (a : Actor) (data : Bytes) (source : SocketAddr) :
    Silent a (a.udpPacket π data source) ∨
      ∃ key plain, IsPong π a key data plain source ∧
        a.udpPacket π data source = a.discoPong key plain (some source) := by
  unfold udpPacket
  split_ifs with hstun hdisco
  · refine .inl ?_
    split
    · split <;> exact .ofEq rfl
    · exact .ofEq rfl
  · split
    · rename_i key _
      unfold incomingPacket
      split_ifs with hmeow
      · exact .inl (.ofEq rfl)
      · exact (discoPacket_silent a key data source).imp_right fun h => ⟨key, h⟩
      · exact absurd hdisco.1 ‹_›
      · exact absurd hdisco.1 ‹_›
    · exact .inl (.ofEq rfl)
  · refine .inl (foldl_silent (fun b key => incomingPacket_silent b key data source ?_) _ a)
    rcases not_and_or.1 hdisco with hmagic | hshort
    · exact .inl (Bool.eq_false_iff.2 hmagic)
    · exact .inr (Nat.lt_of_not_le hshort)

/-- A probe of the peer's endpoint waits for its answer, and may still be answered. -/
def AwaitsPong (a : Actor) (key : Key) (endpoint : SocketAddr) (txid : TxId) : Prop :=
  ∃ probe, a.probes.lookup txid = some probe ∧ probe.key = key ∧ probe.endpoint = endpoint ∧
    a.now - probe.sent < probeTimeout

theorem answerProbe_silent (a : Actor) (key : Key) (txid : TxId) (source : SocketAddr) :
    Silent a (a.answerProbe key txid (some source)) ∨ AwaitsPong a key source txid ∧
      (a.answerProbe key txid (some source)).trace =
        a.trace ++ [.promote key source a.now txid] := by
  unfold answerProbe
  split
  · rename_i probe hprobe
    split_ifs with hmatches
    · obtain ⟨hkey, hsource, hrecent⟩ := hmatches
      cases hsource
      exact .inr ⟨⟨probe, hprobe, hkey, rfl, hrecent⟩, rfl⟩
    · exact .inl (.ofEq rfl)
  · exact .inl (.ofEq rfl)

/-- **A step sets one direct path at most**, at its beginning: for a datagram that is a pong and
answers a probe that waits. -/
theorem step_silent (h : a.Wired) (e : Event) : Silent a (step π a e) ∨
    ∃ key packet data endpoint, e = .datagram endpoint packet ∧
      IsPong π a key packet data endpoint ∧ AwaitsPong a key endpoint (txidOf data) ∧
      ∃ new, (step π a e).trace = a.trace ++ .promote key endpoint a.now (txidOf data) :: new ∧
        ∀ x ∈ new, ¬x.IsPromote := by
  have hother : (∀ source packet, e ≠ .datagram source packet) → Silent a (step π a e) := fun he =>
    (step_changes (Q := AnyPoll) h (pollsMeet_of_forall (fun _ _ => trivial) a e)).silent he
  cases e with
  | datagram source packet =>
    rcases udpPacket_silent (π := π) a packet source with hsilent | ⟨key, data, hpong, hstep⟩
    · exact .inl hsilent
    · have hanswer : Silent (a.answerProbe key (txidOf data) (some source))
          (a.discoPong key data (some source)) := by
        refine Changes.silent (π := π) (Q := AnyPoll) (s := a) (e := .elapse 0)
          (answerPing_changes _ _ _) ?_
        exact fun _ _ he => by cases he
      rcases answerProbe_silent a key (txidOf data) source with hsilent | ⟨hawaits, htrace⟩
      · refine .inl ?_
        change Silent a (a.udpPacket π packet source)
        rw [hstep]
        exact hsilent.trans hanswer
      · obtain ⟨new, hnew, hrest⟩ := hanswer
        refine .inr ⟨key, packet, data, source, rfl, hpong, hawaits, new, ?_, hrest⟩
        change (a.udpPacket π packet source).trace = _
        rw [hstep, hnew, htrace, List.append_assoc]
        rfl
  | _ => exact .inl (hother fun _ _ he => by cases he)

/-! ### Probes that wait -/

/-- Probes that wait were sent to the peer, at an endpoint that may be used. -/
def ProbesSent (π : Platform) (a : Actor) : Prop :=
  ∀ txid probe, a.probes.lookup txid = some probe →
    ∃ disco packet sent, a.discoOf probe.key = some disco ∧ IsPing π a.key disco txid packet ∧
      .udp probe.sent probe.endpoint packet sent ∈ a.trace ∧ probe.sent ≤ a.now ∧
      usableEndpoint probe.endpoint = true

theorem Small.probesSent (h : Small π Q s e a b) (hI : ProbesSent π a) : ProbesSent π b := by
  rcases h.paths with hquiet | ⟨key, disco, endpoint, packet, hprobed⟩ |
    ⟨key, endpoint, txid, hpromoted⟩
  · intro txid probe hprobe
    obtain ⟨disco, packet, sent, hknown, hping, hsent, hpast, husable⟩ :=
      hI txid probe (hquiet.probes txid probe hprobe)
    exact ⟨disco, packet, sent, hquiet.disco _ _ hknown, hquiet.own ▸ hping,
      h.trace_prefix.subset hsent, hpast.trans hquiet.now, husable⟩
  · intro txid probe hprobe
    rw [hprobed.probes, Table.lookup_insert_eq] at hprobe
    split_ifs at hprobe with htxid
    · cases hprobe
      obtain ⟨sent, htrace⟩ := hprobed.trace
      refine ⟨disco, packet, sent, (discoOf_congr hprobed.peers key).trans hprobed.known, ?_, ?_,
        le_of_eq hprobed.now.symm, hprobed.usable⟩
      · rw [hprobed.own, htxid]
        exact hprobed.ping
      · rw [htrace]
        exact List.mem_append_right _ (List.mem_singleton_self _)
    · obtain ⟨disco', packet', sent, hknown, hping, hsent, hpast, husable⟩ := hI txid probe hprobe
      exact ⟨disco', packet', sent, (discoOf_congr hprobed.peers _).trans hknown,
        hprobed.own ▸ hping, h.trace_prefix.subset hsent, hprobed.now ▸ hpast, husable⟩
  · intro txid' probe hprobe
    rw [hpromoted.probes, Table.lookup_erase_eq] at hprobe
    split_ifs at hprobe
    obtain ⟨disco, packet, sent, hknown, hping, hsent, hpast, husable⟩ := hI txid' probe hprobe
    exact ⟨disco, packet, sent, (hpromoted.disco _).trans hknown, hpromoted.own ▸ hping,
      h.trace_prefix.subset hsent, hpromoted.now ▸ hpast, husable⟩

/-! ### The record of direct paths -/

/-- Every direct path has an entry in the record. -/
def Recorded (a : Actor) : Prop :=
  ∀ key endpoint when, a.directOf key = some (endpoint, when) →
    ∃ txid, .promote key endpoint when txid ∈ a.trace

theorem Small.recorded (h : Small π Q s e a b) (hI : a.Recorded) : b.Recorded := by
  intro key endpoint when hdirect
  have hold : a.directOf key = some (endpoint, when) →
      ∃ txid, .promote key endpoint when txid ∈ b.trace := fun hdirect =>
    (hI key endpoint when hdirect).imp fun txid hmem => h.trace_prefix.subset hmem
  rcases h.paths with hquiet | ⟨key', disco, endpoint', packet, hprobed⟩ |
    ⟨key', endpoint', txid, hpromoted⟩
  · exact hold (hquiet.direct key _ hdirect)
  · rw [directOf, hprobed.peers] at hdirect
    exact hold hdirect
  · rw [hpromoted.direct] at hdirect
    split_ifs at hdirect with hkey
    · cases hdirect
      refine ⟨txid, ?_⟩
      rw [hpromoted.trace, hkey]
      exact List.mem_append_right _ (List.mem_singleton_self _)
    · exact hold hdirect

/-! ### Transaction identifiers -/

/-- No transaction identifier was drawn twice. -/
def Fresh (π : Platform) (a : Actor) : Prop := Set.InjOn π.txid { n | n < a.draws }

theorem Fresh.mono (h : Fresh π b) (hdraws : a.draws ≤ b.draws) : Fresh π a :=
  Set.InjOn.mono (fun _ hn => Nat.lt_of_lt_of_le hn hdraws) h

/-- The transaction identifier is one of the first that were drawn. -/
def Drawn (π : Platform) (draws : ℕ) (txid : TxId) : Prop := ∃ n < draws, txid = π.txid n

theorem Drawn.mono {draws draws' : ℕ} {txid : TxId} (h : Drawn π draws txid)
    (hle : draws ≤ draws') : Drawn π draws' txid := by
  obtain ⟨n, hn, htxid⟩ := h
  exact ⟨n, Nat.lt_of_lt_of_le hn hle, htxid⟩

/-- Identifiers were drawn before they were used, and one that has set a direct path neither waits
nor has set another. -/
structure Once (π : Platform) (a : Actor) : Prop where
  waiting : ∀ txid ∈ a.probes, Drawn π a.draws txid
  used : ∀ txid ∈ a.promotions, Drawn π a.draws txid
  spent : ∀ txid ∈ a.promotions, txid ∉ a.probes
  nodup : a.promotions.Nodup

theorem promotions_of_silent {new : List Act} (htrace : b.trace = a.trace ++ new)
    (hsilent : ∀ x ∈ new, ¬x.IsPromote) : b.promotions = a.promotions := by
  have hnone : new.filterMap Act.promotion = [] :=
    List.filterMap_eq_nil_iff.2 fun x hx => Act.promotion_eq_none (hsilent x hx)
  rw [promotions, htrace, List.filterMap_append, hnone, List.append_nil]
  rfl

theorem mem_probes_iff {txid : TxId} :
    txid ∈ a.probes ↔ ∃ probe, a.probes.lookup txid = some probe := by
  rw [← AList.lookup_isSome, Option.isSome_iff_exists]

theorem Small.once (h : Small π Q s e a b) (hfresh : Fresh π b) (hI : Once π a) : Once π b := by
  rcases h.paths with hquiet | ⟨key, disco, endpoint, packet, hprobed⟩ |
    ⟨key, endpoint, txid, hpromoted⟩
  -- nothing is probed or promoted
  · obtain ⟨new, hnew, hsilent⟩ := hquiet.trace
    have hpromotions := promotions_of_silent hnew hsilent
    have hwaits : ∀ txid ∈ b.probes, txid ∈ a.probes := fun txid hmem =>
      mem_probes_iff.2 ((mem_probes_iff.1 hmem).imp fun probe => hquiet.probes txid probe)
    refine ⟨fun txid hmem => (hI.waiting txid (hwaits txid hmem)).mono hquiet.draws, ?_, ?_, ?_⟩
    · rw [hpromotions]
      exact fun txid hmem => (hI.used txid hmem).mono hquiet.draws
    · rw [hpromotions]
      exact fun txid hmem hwait => hI.spent txid hmem (hwaits txid hwait)
    · rw [hpromotions]
      exact hI.nodup
  -- a probe is sent, with an identifier of its own
  · obtain ⟨sent, hnew⟩ := hprobed.trace
    have hpromotions := promotions_of_silent hnew (by simp [Act.IsPromote])
    refine ⟨fun txid hmem => ?_, ?_, ?_, ?_⟩
    · rw [hprobed.probes, AList.mem_insert] at hmem
      rcases hmem with rfl | hmem
      · exact ⟨a.draws, hprobed.draws, rfl⟩
      · exact (hI.waiting txid hmem).mono (Nat.le_of_lt hprobed.draws)
    · rw [hpromotions]
      exact fun txid hmem => (hI.used txid hmem).mono (Nat.le_of_lt hprobed.draws)
    · rw [hpromotions]
      intro txid hmem hwait
      rw [hprobed.probes, AList.mem_insert] at hwait
      rcases hwait with rfl | hwait
      · obtain ⟨n, hn, htxid⟩ := hI.used _ hmem
        have hsame := hfresh hprobed.draws (Nat.lt_trans hn hprobed.draws) htxid
        omega
      · exact hI.spent txid hmem hwait
    · rw [hpromotions]
      exact hI.nodup
  -- the probe is spent
  · have hpromotions : b.promotions = a.promotions ++ [txid] := by
      rw [promotions, hpromoted.trace, List.filterMap_append]
      rfl
    obtain ⟨peer, packet, data, probe, -, -, -, -, -, -, hprobe, -⟩ := hpromoted.answers.pong
    have hwaiting : txid ∈ a.probes := mem_probes_iff.2 ⟨probe, hprobe⟩
    refine ⟨fun txid' hmem => ?_, fun txid' hmem => ?_, fun txid' hmem hwait => ?_, ?_⟩
    · rw [hpromoted.probes, AList.mem_erase] at hmem
      rw [hpromoted.draws]
      exact hI.waiting txid' hmem.2
    · rw [hpromoted.draws]
      rw [hpromotions, List.mem_append, List.mem_singleton] at hmem
      rcases hmem with hmem | rfl
      · exact hI.used txid' hmem
      · exact hI.waiting _ hwaiting
    · rw [hpromoted.probes, AList.mem_erase] at hwait
      rw [hpromotions, List.mem_append, List.mem_singleton] at hmem
      rcases hmem with hmem | heq
      · exact hI.spent txid' hmem hwait.2
      · exact hwait.1 heq
    · rw [hpromotions]
      refine hI.nodup.append (List.nodup_singleton _) fun txid' hmem hsingle => ?_
      rw [List.mem_singleton.1 hsingle] at hmem
      exact hI.spent txid hmem hwaiting

theorem Small.draws (h : Small π Q s e a b) : a.draws ≤ b.draws := by
  rcases h.paths with hquiet | ⟨key, disco, endpoint, packet, hprobed⟩ |
    ⟨key, endpoint, txid, hpromoted⟩
  · exact hquiet.draws
  · exact Nat.le_of_lt hprobed.draws
  · exact le_of_eq hpromoted.draws.symm

/-! ### At the start -/

theorem init_probes (setup : Setup) : (init setup).probes = ∅ := by
  unfold init
  dsimp only
  split
  · exact probes_addPeer _ _ _
  · rfl

theorem init_directOf (setup : Setup) (key : Key) : (init setup).directOf key = none := by
  unfold init addPeer directOf
  dsimp only
  split
  · split_ifs
    · rfl
    · rw [Table.lookup_insert_eq]
      split_ifs <;> rfl
  · rfl

theorem init_once (setup : Setup) : Once π (init setup) := by
  have hpromotions : (init setup).promotions = [] := by
    rw [promotions, init_trace]
    rfl
  refine ⟨?_, ?_, ?_, ?_⟩
  · rw [init_probes]
    exact fun txid hmem => absurd hmem (AList.notMem_empty txid)
  all_goals
    rw [hpromotions]
    simp

end Actor

end Tailcat.Runtime
