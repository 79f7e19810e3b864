import Tailcat.Runtime.Trace
import Tailcat.Runtime.Sample
import Mathlib.Data.List.Induction

/-!
# Registrations

A peer is registered by a packet that its own key has sent through the relay, while the allow-list
was empty or named it; peers and their disco keys stay (`step_discoOf`).

* `run_registered` : who is registered, and whom a server answers.
* `run_owners` : as long as no registration names the disco key of another peer, a packet of the
  discovery protocol has one owner, whatever the order of iteration.

The tables are followed through every function of the actor, most of which leave them alone.  A
disco key is told by the packet that registers its peer and cannot be checked there, so a peer may
name the key of another; whether the results hold then depends on the order in which a hash map is
iterated, and the condition of `run_owners` excludes it.
-/

namespace Tailcat.Runtime.Actor

open Net

variable {π : Platform} {Q : Actor → PollAction → Prop} {s a b : Actor} {e : Event}

/-! ### Disco keys -/

/-- The disco key of a registered peer. -/
def discoOf (a : Actor) (key : Key) : Option Key := (a.peers.lookup key).map (·.discoKey)

theorem discoOf_eq_none {key : Key} : a.discoOf key = none ↔ key ∉ a.peers := by
  rw [discoOf, Option.map_eq_none_iff, AList.lookup_eq_none]

theorem mem_peers_iff {key : Key} : key ∈ a.peers ↔ ∃ d, a.discoOf key = some d := by
  rw [← not_iff_not, ← discoOf_eq_none]
  simp [Option.eq_none_iff_forall_ne_some]

theorem discoOf_adjust {key key' : Key} {f : Peer → Peer} (peers : Table Key Peer)
    (hf : ∀ peer, (f peer).discoKey = peer.discoKey) :
    ((peers.adjust key f).lookup key').map (·.discoKey) =
      (peers.lookup key').map (·.discoKey) := by
  rw [Table.lookup_adjust]
  split_ifs
  · rw [Option.map_map]
    exact Option.map_congr fun peer _ => hf peer
  · rfl

theorem discoOf_congr (h : b.peers = a.peers) (key : Key) : b.discoOf key = a.discoOf key := by
  rw [discoOf, discoOf, h]

/-- A registration is accepted. -/
structure Registration (s : Actor) (e : Event) (key disco : Key) : Prop where
  accepted : ∃ data config, e = .relayed key data ∧ s.config = some config ∧
    registers config key data = true ∧ disco = registeredDisco data
  unknown : key ∉ s.peers
  room : s.peers.size < maxPeers
  key_ne : key ≠ Key.zero
  disco_ne : disco ≠ Key.zero

theorem Small.config (h : Small π Q s e a b) (he : ∀ key, e ≠ .command (.allow key)) :
    b.config = a.config := by
  cases h with
  | sends h => rw [h.eq]
  | repeatPings h => rw [h.eq]
  | allow h => exact absurd h (he _)
  | newUdpFlow => rw [newUdpFlow_eq]
  | lostUdpFlow => rw [newUdpFlow_eq]; rfl
  | removeCancelled => rw [removeCancelled_eq]
  | deliver => rw [deliver_eq]
  | udpOutput => rw [udpOutput_eq]
  | expireUdp => rw [expireUdp_eq]
  | poll => rw [pollAction_eq]
  | removeLink hc => rw [removeLink_of_connAt hc]
  | _ => rfl

/-- Except for a registration, a change keeps the disco keys. -/
theorem Small.discoOf (h : Small π Q s e a b) :
    (∀ key, b.discoOf key = a.discoOf key) ∨
      ∃ key disco, Registration a e key disco ∧
        ∀ key', b.discoOf key' = if key' = key then some disco else a.discoOf key' := by
  cases h with
  | sends h => rw [h.eq]; exact .inl (discoOf_congr rfl)
  | repeatPings h => rw [h.eq]; exact .inl (discoOf_congr rfl)
  | @register _ key disco data config he hconfig hregisters hdisco hnew hsize hkey hzero =>
    refine .inr ⟨key, disco, ⟨⟨data, config, he, hconfig, hregisters, hdisco⟩, hnew, hsize, hkey,
      hzero⟩, fun key' => ?_⟩
    simp only [Actor.discoOf]
    split_ifs with heq
    · rw [heq, AList.lookup_insert]
      rfl
    · rw [AList.lookup_insert_ne heq]
  | candidates => exact .inl fun key => discoOf_adjust _ fun _ => rfl
  | direct => exact .inl fun key => discoOf_adjust _ fun _ => rfl
  | newUdpFlow => rw [newUdpFlow_eq]; exact .inl (discoOf_congr rfl)
  | lostUdpFlow => rw [newUdpFlow_eq]; exact .inl (discoOf_congr rfl)
  | removeCancelled => rw [removeCancelled_eq]; exact .inl (discoOf_congr rfl)
  | deliver => rw [deliver_eq]; exact .inl (discoOf_congr rfl)
  | udpOutput => rw [udpOutput_eq]; exact .inl (discoOf_congr rfl)
  | expireUdp => rw [expireUdp_eq]; exact .inl (discoOf_congr rfl)
  | poll => rw [pollAction_eq]; exact .inl (discoOf_congr rfl)
  | removeLink hc => rw [removeLink_of_connAt hc]; exact .inl (discoOf_congr rfl)
  | reorder h => exact .inl fun key => by rw [Actor.discoOf, AList.perm_lookup h, Actor.discoOf]
  | _ => exact .inl (discoOf_congr rfl)

theorem Changes.config (h : Changes π Q s e a b) (he : ∀ key, e ≠ .command (.allow key)) :
    b.config = a.config :=
  h.preserves (I := fun c => c.config = a.config) (fun _ _ hstep hc => (hstep.config he).trans hc)
    rfl

/-- There are at least as many peers as before. -/
theorem Extends.size_peers (h : Extends a b) : a.peers.size ≤ b.peers.size := by
  have hsub : a.peers.keys.Subperm b.peers.keys :=
    List.subperm_of_subset a.peers.keys_nodup h.peers
  have hle := hsub.length_le
  simpa [AList.keys, List.keys, Table.size] using hle

/-- **Peers and their disco keys stay**, and a step registers one peer at most. -/
theorem step_discoOf (h : a.Wired) (e : Event) :
    (∀ key, (step π a e).discoOf key = a.discoOf key) ∨
      ∃ key disco, Registration a e key disco ∧
        ∀ key', (step π a e).discoOf key' = if key' = key then some disco else a.discoOf key' := by
  have hchanges := step_changes (Q := AnyPoll) h (pollsMeet_of_forall (π := π) (fun _ _ => trivial) a e)
  generalize step π a e = b at hchanges ⊢
  induction hchanges with
  | refl => exact .inl fun _ => rfl
  | @tail b c hbefore hstep ih =>
    rcases hstep.discoOf with hsame | ⟨key, disco, hreg, hdisco⟩
    · simp only [hsame]
      exact ih
    · obtain ⟨⟨data, config, he, hconfig, hregisters, hd⟩, hnew, hroom, hkey, hzero⟩ := hreg
      have hallow : ∀ key, e ≠ .command (.allow key) := by
        intro key' he'
        rw [he] at he'
        cases he'
      rw [Changes.config hbefore hallow] at hconfig
      have hext := Changes.extends hbefore
      have hreg : Registration a e key disco := ⟨⟨data, config, he, hconfig, hregisters, hd⟩,
        fun hmem => hnew (hext.peers key hmem), Nat.lt_of_le_of_lt hext.size_peers hroom, hkey, hzero⟩
      refine .inr ⟨key, disco, hreg, fun key' => ?_⟩
      rcases ih with hsame | ⟨key₁, disco₁, hreg₁, hdisco₁⟩
      · rw [hdisco, hsame]
      · -- the same packet has registered its sender already
        obtain ⟨data₁, config₁, he₁, -⟩ := hreg₁.accepted
        obtain ⟨rfl, -⟩ := Event.relayed.inj (he.symm.trans he₁)
        exact absurd (mem_peers_iff.2 ⟨disco₁, by rw [hdisco₁, if_pos rfl]⟩) hnew

/-! ### The owner of a packet -/

/-- A registration that is accepted names a disco key no other peer has. -/
def FreshDisco (a : Actor) (e : Event) : Prop :=
  ∀ key disco, Registration a e key disco → ∀ key', a.discoOf key' ≠ some disco

/-- Different peers have different disco keys. -/
def DistinctDisco (a : Actor) : Prop :=
  ∀ key key' disco, a.discoOf key = some disco → a.discoOf key' = some disco → key = key'

theorem step_distinctDisco (h : a.Wired) (hfresh : FreshDisco a e) (hI : a.DistinctDisco) :
    (step π a e).DistinctDisco := by
  intro key key' disco hkey hkey'
  rcases step_discoOf (π := π) h e with hsame | ⟨new, fresh, hreg, hdisco⟩
  · rw [hsame] at hkey hkey'
    exact hI key key' disco hkey hkey'
  · rw [hdisco] at hkey hkey'
    split_ifs at hkey hkey' with h₁ h₂ h₂
    · rw [h₁, h₂]
    · cases hkey
      exact absurd hkey' (hfresh new _ hreg key')
    · cases hkey'
      exact absurd hkey (hfresh new _ hreg key)
    · exact hI key key' disco hkey hkey'

theorem discoOwner_eq_some {data : Bytes} {key : Key} (h : a.DistinctDisco) :
    a.discoOwner data = some key ↔ ∃ disco, a.discoOf key = some disco ∧ disco.1 = slice data 6 38 := by
  unfold discoOwner
  constructor
  · intro hfind
    obtain ⟨⟨key', peer⟩, hentry, rfl⟩ := Option.map_eq_some_iff.1 hfind
    have hmem := List.mem_of_find?_eq_some hentry
    have hdisco := List.find?_some hentry
    refine ⟨peer.discoKey, ?_, by simpa using hdisco⟩
    rw [discoOf, AList.mem_lookup_iff.2 hmem]
    rfl
  · rintro ⟨disco, hkey, hdisco⟩
    obtain ⟨peer, hpeer, rfl⟩ := Option.map_eq_some_iff.1 hkey
    have hmem : (⟨key, peer⟩ : Sigma fun _ => Peer) ∈ a.peers.entries := AList.mem_lookup_iff.1 hpeer
    cases hfind : a.peers.entries.find? fun e => decide (e.2.discoKey.1 = slice data 6 38) with
    | none =>
      have hnone := List.find?_eq_none.1 hfind _ hmem
      exact absurd (by simpa using hdisco) hnone
    | some found =>
      have hfound := List.find?_some hfind
      have hfoundMem := List.mem_of_find?_eq_some hfind
      simp only [decide_eq_true_eq] at hfound
      have hfoundDisco : a.discoOf found.1 = some peer.discoKey := by
        rw [discoOf, AList.mem_lookup_iff.2 hfoundMem]
        exact congrArg some (Subtype.ext (hfound.trans hdisco.symm))
      exact congrArg some (h found.1 key peer.discoKey hfoundDisco hkey)

/-- Every packet of the discovery protocol has one owner, in every order of iteration. -/
def OwnersUnique (a : Actor) : Prop :=
  a.DistinctDisco ∧ ∀ peers : Table Key Peer, peers.entries.Perm a.peers.entries →
    ∀ data, discoOwner { a with peers } data = a.discoOwner data

theorem ownersUnique (h : a.DistinctDisco) : a.OwnersUnique := by
  refine ⟨h, fun peers hperm data => ?_⟩
  have hdisco : ∀ key, discoOf { a with peers } key = a.discoOf key := fun key => by
    rw [discoOf, AList.perm_lookup hperm, discoOf]
  have h' : DistinctDisco { a with peers } := fun key key' disco => by
    rw [hdisco, hdisco]
    exact h key key' disco
  ext key
  rw [discoOwner_eq_some h', discoOwner_eq_some h]
  simp only [hdisco]

theorem distinctDisco_init (setup : Setup) : (init setup).DistinctDisco := by
  have hempty : ∀ b : Actor, b.peers = ∅ → ∀ key disco, (b.addPeer key disco).DistinctDisco ∧
      b.DistinctDisco := by
    intro b hb key disco
    have hnone : ∀ key, b.discoOf key = none := fun key => by rw [discoOf, hb]; rfl
    have hdistinct : b.DistinctDisco := by
      intro k k' d hk
      rw [hnone] at hk
      cases hk
    refine ⟨?_, hdistinct⟩
    unfold addPeer
    split_ifs
    · exact hdistinct
    · have honly : ∀ k d, discoOf { b with peers := b.peers.insert key { discoKey := disco } } k =
          some d → k = key := by
        intro k d hk
        by_contra hne
        rw [discoOf, AList.lookup_insert_ne hne] at hk
        exact absurd (hnone k) (by rw [discoOf, hk]; simp)
      exact fun k k' d hk hk' => (honly k d hk).trans (honly k' d hk').symm
  unfold init
  dsimp only
  split
  · exact (hempty _ rfl _ _).1
  · exact (hempty _ rfl Key.zero Key.zero).2

/-- **Discovery packets have a unique owner** after every run whose registrations name fresh disco
keys, and a further step that does so too leaves each packet to its owner. -/
theorem run_owners (setup : Setup) (es : List Event)
    (h : Transition.Along (step π) FreshDisco (init setup) es) :
    (run π (init setup) es).OwnersUnique ∧
      ∀ e, FreshDisco (run π (init setup) es) e → ∀ data key,
        (run π (init setup) es).discoOwner data = some key →
        (step π (run π (init setup) es) e).discoOwner data = some key := by
  have hI := Transition.run_invariant (I := fun a => a.Wired ∧ a.DistinctDisco)
    (fun a e ha hfresh => ⟨step_wired ha.1 e, step_distinctDisco ha.1 hfresh ha.2⟩)
    ⟨init_wired setup, distinctDisco_init setup⟩ h
  change (run π (init setup) es).Wired ∧ (run π (init setup) es).DistinctDisco at hI
  generalize run π (init setup) es = a at hI ⊢
  obtain ⟨hwired, hdistinct⟩ := hI
  refine ⟨ownersUnique hdistinct, fun e hfresh data key howner => ?_⟩
  rw [discoOwner_eq_some hdistinct] at howner
  rw [discoOwner_eq_some (step_distinctDisco hwired hfresh hdistinct)]
  obtain ⟨disco, hkey, hdisco⟩ := howner
  refine ⟨disco, ?_, hdisco⟩
  rcases step_discoOf (π := π) hwired e with hsame | ⟨new, disco', hreg, hstep⟩
  · rw [hsame]
    exact hkey
  · rw [hstep, if_neg]
    · exact hkey
    · rintro rfl
      exact hreg.unknown (mem_peers_iff.2 ⟨disco, hkey⟩)

/-- A packet of a sender is a registration with one disco key. -/
theorem freshDisco_of_entries {key : Key} {data : Bytes}
    (h : ∀ entry ∈ a.peers.entries, entry.2.discoKey ≠ registeredDisco data) :
    FreshDisco a (.relayed key data) := by
  intro key' disco hreg key'' hdisco
  obtain ⟨data', config, he, -, -, rfl⟩ := hreg.accepted
  obtain ⟨-, rfl⟩ := Event.relayed.inj he
  obtain ⟨peer, hpeer, hkey⟩ := Option.map_eq_some_iff.1 hdisco
  exact h _ (AList.mem_lookup_iff.1 hpeer) hkey

open Sample in
/-- Two clients with disco keys of their own register. -/
theorem run_owners_sample :
    (run sample (init (serverSetup {}))
      [registration (keyOf 2) (keyOf 130), registration (keyOf 3) (keyOf 131)]).OwnersUnique :=
  (run_owners (serverSetup {})
    [registration (keyOf 2) (keyOf 130), registration (keyOf 3) (keyOf 131)]
    ⟨freshDisco_of_entries (by decide +kernel), freshDisco_of_entries (by decide +kernel),
      trivial⟩).1

open Sample in
/-- A second client may register with the disco key of the first, and takes its packets over. -/
theorem owners_clash :
    let first := run sample (init (serverSetup {}))
      [registration (keyOf 2) (keyOf 130), .tick [] []]
    let second := run sample first [registration (keyOf 3) (keyOf 130), .tick [] []]
    let packet := discoMagic ++ (keyOf 130).1
    keyOf 2 ≠ keyOf 3 ∧ first.discoOwner packet = some (keyOf 2) ∧
      second.discoOf (keyOf 2) = some (keyOf 130) ∧ second.discoOf (keyOf 3) = some (keyOf 130) ∧
      second.discoOwner packet = some (keyOf 3) := by
  decide +kernel

/-! ### The allow-list -/

/-- Keys are only added to the allow-list. -/
def Allows (a : Actor) (key : Key) : Prop :=
  ∀ config, a.config = some config → key ∈ config.allowedClients

theorem Small.allows (h : Small π Q s e a b) {key : Key} (ha : a.Allows key) : b.Allows key := by
  by_cases he : ∃ key', e = .command (.allow key')
  · cases h with
    | allow _ hconfig =>
      rintro config ⟨⟩
      exact List.mem_append_left _ (ha _ hconfig)
    | sends h => rw [h.eq]; exact ha
    | repeatPings h => rw [h.eq]; exact ha
    | newUdpFlow => rw [newUdpFlow_eq]; exact ha
    | lostUdpFlow => rw [newUdpFlow_eq]; exact ha
    | removeCancelled => rw [removeCancelled_eq]; exact ha
    | deliver => rw [deliver_eq]; exact ha
    | udpOutput => rw [udpOutput_eq]; exact ha
    | expireUdp => rw [expireUdp_eq]; exact ha
    | poll => rw [pollAction_eq]; exact ha
    | removeLink hc => rw [removeLink_of_connAt hc]; exact ha
    | _ => exact ha
  · rw [Allows, h.config fun key' he' => he ⟨key', he'⟩]
    exact ha

/-- How a key came to be registered in a run: it has sent a registration itself, through the relay,
while the allow-list was empty or named it. -/
structure Admitted (π : Platform) (setup : Setup) (es : List Event) (key disco : Key) : Prop where
  intro ::
  admitted : ∃ before data after config, es = before ++ .relayed key data :: after ∧
    (run π (init setup) before).config = some config ∧ registers config key data = true ∧
    disco = registeredDisco data ∧ key ∉ (run π (init setup) before).peers ∧
    (config.allowedClients = [] ∨ (run π (init setup) es).Allows key)
  key_ne : key ≠ Key.zero
  disco_ne : disco ≠ Key.zero

/-- The setup of a server. -/
def Setup.serving (setup : Setup) (config : ServerConfig) : Setup :=
  { setup with config := some config, server := none }

theorem step_allows (h : a.Wired) {key : Key} (ha : a.Allows key) : (step π a e).Allows key :=
  (step_changes (Q := AnyPoll) h (pollsMeet_of_forall (fun _ _ => trivial) a e)).preserves
    (fun _ _ hstep => hstep.allows) ha

theorem admitted (setup : Setup) (config : ServerConfig) (es : List Event) {key disco : Key}
    (h : (run π (init (setup.serving config)) es).discoOf key = some disco) :
    Admitted π (setup.serving config) es key disco := by
  induction es using List.reverseRecOn with
  | nil => cases h
  | append_singleton es e ih =>
    have hrun : run π (init (setup.serving config)) (es ++ [e]) =
        step π (run π (init (setup.serving config)) es) e := Transition.run_append _ _ _
    have hwired := run_wired (π := π) (setup.serving config) es
    have hlasts : ∀ key, (run π (init (setup.serving config)) es).Allows key →
        (run π (init (setup.serving config)) (es ++ [e])).Allows key := by
      intro key hkey
      rw [hrun]
      exact step_allows hwired hkey
    rw [hrun] at h
    rcases step_discoOf (π := π) hwired e with hsame | ⟨new, fresh, hreg, hdisco⟩
    · -- registered before
      rw [hsame] at h
      obtain ⟨⟨before, data, after, c, rfl, hc, hregisters, hd, hnew, hallowed⟩, hkey, hzero⟩ := ih h
      refine ⟨⟨before, data, after ++ [e], c, by simp, hc, hregisters, hd, hnew, ?_⟩, hkey, hzero⟩
      exact hallowed.imp_right (hlasts key)
    · rw [hdisco] at h
      split_ifs at h with heq
      · -- registered by this packet
        subst heq
        obtain rfl : fresh = disco := Option.some.inj h
        obtain ⟨data, c, rfl, hc, hregisters, hd⟩ := hreg.accepted
        refine ⟨⟨es, data, [], c, rfl, hc, hregisters, hd, hreg.unknown, ?_⟩, hreg.key_ne,
          hreg.disco_ne⟩
        have hlist : c.allowedClients = [] ∨ key ∈ c.allowedClients := by
          simp only [registers, Bool.and_eq_true, Bool.or_eq_true, List.isEmpty_iff,
            List.contains_eq_mem, decide_eq_true_eq] at hregisters
          exact hregisters.2
        refine hlist.imp_right fun hmem => hlasts key ?_
        intro c' hc'
        obtain rfl : c = c' := Option.some.inj (hc.symm.trans hc')
        exact hmem
      · obtain ⟨⟨before, data, after, c, rfl, hc, hregisters, hd, hnew, hallowed⟩, hkey, hzero⟩ :=
          ih h
        refine ⟨⟨before, data, after ++ [e], c, by simp, hc, hregisters, hd, hnew, ?_⟩, hkey, hzero⟩
        exact hallowed.imp_right (hlasts key)

/-- What is queued for the relay is for a peer or for the server. -/
theorem knows_of_relay (setup : Setup) (es : List Event) {key : Key} {data : Bytes}
    (h : .relay key data ∈ (run π (init setup) es).trace) :
    (run π (init setup) es).Knows key := by
  refine trace_invariant (I := fun a x => ∀ key data, x = .relay key data → a.Knows key) ?_ ?_
    setup es h key data rfl
  · intro s e a b x hstep ha key data hx
    exact hstep.extends.knows (ha key data hx)
  · rintro a e x horigin key data rfl
    cases horigin with
    | send h => exact h
    | act h => exact h.elim
    | link _ _ h => exact h.elim

theorem run_server (setup : Setup) (config : ServerConfig) (es : List Event) :
    (run π (init (setup.serving config)) es).server = none :=
  run_invariant (I := fun a => a.server = none) rfl
    (fun _ _ _ _ hstep ha => hstep.extends.server.trans ha) es

/-- **Who is registered**: after every run of a server each peer was admitted by a registration of
its own through the relay, and stays on the allow-list if there was one then; only peers are
answered. -/
theorem run_registered (π : Platform) (setup : Setup) (config : ServerConfig) (es : List Event) :
    (∀ key disco, (run π (init (setup.serving config)) es).discoOf key = some disco →
      Admitted π (setup.serving config) es key disco) ∧
    ∀ key, .relay key (meow ++ [2]) ∈ (run π (init (setup.serving config)) es).trace →
      key ∈ (run π (init (setup.serving config)) es).peers := by
  refine ⟨fun key disco h => admitted setup config es h, fun key h => ?_⟩
  rcases knows_of_relay _ es h with hpeer | hserver
  · exact hpeer
  · rw [run_server] at hserver
    cases hserver

open Sample in
/-- A client that registered with an open server stays when the list is begun without it. -/
theorem allow_keeps_others :
    let a := run sample (init (serverSetup {}))
      [registration (keyOf 2) (keyOf 130), .tick [] [], .command (.allow (keyOf 3)), .tick [] []]
    a.config.map (·.allowedClients) = some [keyOf 3] ∧ keyOf 2 ∈ a.peers ∧ keyOf 2 ∉ [keyOf 3] := by
  decide +kernel

end Tailcat.Runtime.Actor
