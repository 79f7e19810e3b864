import Tailcat.Runtime.StepChanges
import Mathlib.Order.Basic

/-!
# Bounds

Everything the actor keeps for others is bounded, whoever they are and whatever they send
(`run_bounded`).  Endpoints are kept in lists without duplicates, the oldest of which makes room for
a new one (`Remembered`).

The bounds are those of the source: 1024 peers with 32 candidates each, 256 connections and as many
datagram flows, 32 endpoints, 128 pings and 4096 probes that wait, all fields of one invariant
(`Bounded`).  They are kept by each change of a step separately (`Small.bounded`), so the run needs
no induction of its own.

Which endpoint makes room is stated too: a new endpoint is put at the back and the first is dropped
when there are more than may be kept, so those that stay keep their order.  What a bounded queue
drops is not of interest here; `Runtime.Fidelity` and `Runtime.Isolation` say what that means for
connections and flows.
-/

namespace Tailcat.Runtime

open Net

/-! ### Endpoints -/

/-- A remembered endpoint comes last, and when the list is full the first one makes room for it. -/
theorem rememberEndpoint_cases (endpoints : List SocketAddr) (endpoint : SocketAddr) :
    rememberEndpoint endpoints endpoint = (false, endpoints) ∨
      usableEndpoint endpoint = true ∧ endpoint ∉ endpoints ∧
        rememberEndpoint endpoints endpoint = (true,
          (if endpoints.length = maxCandidates then endpoints.tail else endpoints) ++ [endpoint]) := by
  unfold rememberEndpoint
  by_cases hskip : (!usableEndpoint endpoint || endpoints.contains endpoint) = true
  · exact .inl (if_pos hskip)
  · rw [if_neg hskip, ← List.eraseIdx_zero]
    simp only [Bool.or_eq_true, Bool.not_eq_true', List.contains_eq_mem, decide_eq_true_eq,
      not_or, Bool.not_eq_false] at hskip
    exact .inr ⟨hskip.1, hskip.2, rfl⟩

/-- A list of endpoints as `rememberEndpoint` keeps it. -/
structure Remembered (endpoints : List SocketAddr) : Prop where
  length : endpoints.length ≤ maxCandidates
  nodup : endpoints.Nodup
  usable : ∀ endpoint ∈ endpoints, usableEndpoint endpoint = true

namespace Remembered

theorem nil : Remembered [] := ⟨Nat.zero_le _, .nil, by simp⟩

theorem concat {endpoints l : List SocketAddr} {endpoint : SocketAddr} (h : Remembered endpoints)
    (hsub : l.Sublist endpoints) (hlength : l.length < maxCandidates)
    (husable : usableEndpoint endpoint = true) (hnew : endpoint ∉ endpoints) :
    Remembered (l ++ [endpoint]) := by
  refine ⟨by simpa using Nat.succ_le_of_lt hlength, ?_, ?_⟩
  · refine List.nodup_append.2 ⟨hsub.nodup h.nodup, List.nodup_singleton _, ?_⟩
    rintro x hx y hy rfl
    rw [List.mem_singleton.1 hy] at hx
    exact hnew (hsub.subset hx)
  · intro x hx
    rcases List.mem_append.1 hx with hx | hx
    · exact h.usable x (hsub.subset hx)
    · rw [List.mem_singleton.1 hx]
      exact husable

theorem remember {endpoints : List SocketAddr} (h : Remembered endpoints) (endpoint : SocketAddr) :
    Remembered (rememberEndpoint endpoints endpoint).2 := by
  rcases rememberEndpoint_cases endpoints endpoint with heq | ⟨husable, hnew, heq⟩
  · rw [heq]
    exact h
  · rw [heq]
    dsimp only
    split_ifs with hfull
    · refine h.concat (List.tail_sublist _) ?_ husable hnew
      rw [List.length_tail, hfull]
      decide
    · exact h.concat (List.Sublist.refl _) (Nat.lt_of_le_of_ne h.length hfull) husable hnew

theorem rememberAll (announced : List SocketAddr) : Remembered (rememberAll announced) := by
  have hfold : ∀ (l : List SocketAddr) (endpoints : List SocketAddr), Remembered endpoints →
      Remembered (l.foldl (fun endpoints endpoint => (rememberEndpoint endpoints endpoint).2)
        endpoints) := by
    intro l
    induction l with
    | nil => exact fun _ h => h
    | cons endpoint l ih => exact fun _ h => ih _ (h.remember endpoint)
  exact hfold announced [] nil

end Remembered

/-! ### The actor -/

namespace Actor

variable {π : Platform} {Q : Actor → PollAction → Prop} {s a b : Actor} {e : Event}

/-- The candidates of every peer are bounded. -/
def CandidatesBounded (peers : Table Key Peer) : Prop :=
  ∀ key peer, peers.lookup key = some peer → Remembered peer.candidates

/-- Everything that grows with what others send is bounded. -/
structure Bounded (a : Actor) : Prop where
  peers : a.peers.size ≤ maxPeers
  links : a.links.length ≤ maxConnections
  udpFlows : a.udpFlows.size ≤ maxConnections
  pings : a.pings.length ≤ maxPendingPings
  probes : a.probes.size ≤ maxProbes
  endpoints : Remembered a.endpoints
  candidates : CandidatesBounded a.peers

namespace CandidatesBounded

variable {peers : Table Key Peer}

theorem insert (h : CandidatesBounded peers) (key disco : Key) :
    CandidatesBounded (peers.insert key { discoKey := disco }) := by
  intro key' peer hpeer
  by_cases hkey : key' = key
  · subst hkey
    rw [AList.lookup_insert] at hpeer
    cases hpeer
    exact .nil
  · rw [AList.lookup_insert_ne hkey] at hpeer
    exact h key' peer hpeer

theorem adjust {key : Key} {f : Peer → Peer} (h : CandidatesBounded peers)
    (hf : ∀ peer, peers.lookup key = some peer → Remembered (f peer).candidates) :
    CandidatesBounded (peers.adjust key f) := by
  intro key' peer hpeer
  rw [Table.lookup_adjust] at hpeer
  split_ifs at hpeer with hkey
  · subst hkey
    obtain ⟨old, hold, rfl⟩ := Option.map_eq_some_iff.1 hpeer
    exact hf old hold
  · exact h key' peer hpeer

theorem perm {peers' : Table Key Peer} (h : CandidatesBounded peers)
    (hperm : peers'.entries.Perm peers.entries) : CandidatesBounded peers' := by
  intro key peer hpeer
  rw [AList.perm_lookup hperm] at hpeer
  exact h key peer hpeer

end CandidatesBounded

theorem size_udpFlows_removeCancelled (a : Actor) (flow : UdpFlowKey) :
    (a.removeCancelled flow).udpFlows.size ≤ a.udpFlows.size := by
  unfold removeCancelled
  split
  · split_ifs
    · exact Table.size_erase_le _ _
    · exact Nat.le_refl _
  · exact Nat.le_refl _

theorem size_udpFlows_deliver (a : Actor) (flow : UdpFlowKey) (payload : Bytes) :
    (a.deliver flow payload).udpFlows.size = a.udpFlows.size := by
  unfold deliver
  split
  · rfl
  · dsimp only
    split
    · split_ifs <;> exact Table.size_adjust _ _ _
    · exact Table.size_adjust _ _ _

theorem size_udpFlows_udpOutput (a : Actor) (flow : UdpFlowKey) (bytes : Bytes)
    (stream : StreamId) : (a.udpOutput π flow bytes stream).udpFlows.size = a.udpFlows.size := by
  unfold udpOutput
  split_ifs
  · rfl
  · exact Table.size_adjust _ _ _
  · rfl

theorem size_udpFlows_expireUdp (a : Actor) : a.expireUdp.udpFlows.size ≤ a.udpFlows.size :=
  Table.size_retain_le _ _

theorem length_links_removeLink {index : ℕ} {c : Conn} (hc : a.connAt index = some c) :
    (a.removeLink index).links.length ≤ a.links.length := by
  have hlt := lt_of_connAt hc
  rw [removeLink_of_connAt hc]
  have hlength := (swapRemove_perm hlt).length_eq
  rw [List.length_eraseIdx_of_lt hlt] at hlength
  show (swapRemove a.links index).length ≤ _
  omega

theorem Small.bounded (h : Small π Q s e a b) (hI : a.Bounded) : b.Bounded := by
  obtain ⟨hpeers, hlinks, hflows, hpings, hprobes, hendpoints, hcandidates⟩ := hI
  cases h with
  | sends h =>
    rw [h.eq]
    exact ⟨hpeers, hlinks, hflows, hpings, hprobes, hendpoints, hcandidates⟩
  -- whatever adds to a table has looked at its size before
  | register _ _ _ _ _ hsize =>
    exact ⟨(Table.size_insert_le _ _ _).trans hsize, hlinks, hflows, hpings, hprobes, hendpoints,
      hcandidates.insert _ _⟩
  | candidates hpeer hlearned =>
    refine ⟨(Table.size_adjust _ _ _).trans_le hpeers, hlinks, hflows, hpings, hprobes, hendpoints,
      hcandidates.adjust fun old hold => ?_⟩
    rw [hpeer] at hold
    cases hold
    rcases hlearned with ⟨source, hremember⟩ | ⟨announced, rfl⟩
    · have h := (hcandidates _ _ hpeer).remember source
      rwa [hremember] at h
    · exact .rememberAll _
  | probed _ _ hsize =>
    exact ⟨hpeers, hlinks, hflows, hpings, (Table.size_insert_le _ _ _).trans hsize, hendpoints,
      hcandidates⟩
  | direct _ hpeer =>
    exact ⟨(Table.size_adjust _ _ _).trans_le hpeers, hlinks, hflows, hpings,
      (Table.size_erase_le _ _).trans hprobes, hendpoints,
      hcandidates.adjust fun old hold => hcandidates _ old hold⟩
  | expireProbes =>
    exact ⟨hpeers, hlinks, hflows, hpings, (Table.size_retain_le _ _).trans hprobes, hendpoints,
      hcandidates⟩
  | @ownEndpoint _ endpoint _ hremember =>
    have h := hendpoints.remember endpoint
    rw [hremember] at h
    exact ⟨hpeers, hlinks, hflows, hpings, hprobes, h, hcandidates⟩
  | dropPings h =>
    exact ⟨hpeers, hlinks, hflows, h.length_le.trans hpings, hprobes, hendpoints, hcandidates⟩
  | addPing ping h =>
    exact ⟨hpeers, hlinks, hflows, by simpa using Nat.succ_le_of_lt h, hprobes, hendpoints, hcandidates⟩
  | repeatPings h hlength =>
    have hle := hlength.trans hpings
    revert hle
    generalize hb : b.pings = pings
    intro hle
    rw [h.eq, hb]
    exact ⟨hpeers, hlinks, hflows, hle, hprobes, hendpoints, hcandidates⟩
  | newUdpFlow _ _ hsize =>
    rw [newUdpFlow_eq, udpFlows_newUdpFlow]
    exact ⟨hpeers, hlinks, (Table.size_insert_le _ _ _).trans hsize, hpings, hprobes, hendpoints,
      hcandidates⟩
  | lostUdpFlow _ _ hsize =>
    rw [newUdpFlow_eq, udpFlows_newUdpFlow]
    exact ⟨hpeers, hlinks, (Table.size_insert_le _ _ _).trans hsize, hpings, hprobes, hendpoints,
      hcandidates⟩
  | removeCancelled =>
    rw [removeCancelled_eq]
    exact ⟨hpeers, hlinks, (size_udpFlows_removeCancelled _ _).trans hflows, hpings, hprobes,
      hendpoints, hcandidates⟩
  | deliver =>
    rw [deliver_eq]
    exact ⟨hpeers, hlinks, (size_udpFlows_deliver _ _ _).trans_le hflows, hpings, hprobes,
      hendpoints, hcandidates⟩
  | udpOutput =>
    rw [udpOutput_eq]
    exact ⟨hpeers, hlinks, (size_udpFlows_udpOutput _ _ _ _).trans_le hflows, hpings, hprobes,
      hendpoints, hcandidates⟩
  | expireUdp =>
    rw [expireUdp_eq]
    exact ⟨hpeers, hlinks, (size_udpFlows_expireUdp _).trans hflows, hpings, hprobes, hendpoints,
      hcandidates⟩
  | openSyn _ _ _ _ _ hlength =>
    exact ⟨hpeers, by simpa [Actor.openLink] using Nat.succ_le_of_lt hlength, hflows, hpings, hprobes, hendpoints,
      hcandidates⟩
  | dialled _ _ hlength =>
    exact ⟨hpeers, by simpa [Actor.openLink, Actor.advancePort] using Nat.succ_le_of_lt hlength, hflows, hpings,
      hprobes, hendpoints, hcandidates⟩
  | poll =>
    rw [pollAction_eq]
    exact ⟨hpeers, hlinks, hflows, hpings, hprobes, hendpoints, hcandidates⟩
  | pollLink =>
    unfold putConn
    exact ⟨hpeers, by simpa using hlinks, hflows, hpings, hprobes, hendpoints,
      hcandidates⟩
  | removeLink hc =>
    have hlength := (length_links_removeLink hc).trans hlinks
    rw [removeLink_of_connAt hc] at hlength ⊢
    exact ⟨hpeers, hlength, hflows, hpings, hprobes, hendpoints, hcandidates⟩
  | reorder h =>
    exact ⟨h.length_eq.trans_le hpeers, hlinks, hflows, hpings, hprobes, hendpoints,
      hcandidates.perm h⟩
  | _ => exact ⟨hpeers, hlinks, hflows, hpings, hprobes, hendpoints, hcandidates⟩

theorem bounded_addPeer (h : a.Bounded) (key disco : Key) : (a.addPeer key disco).Bounded := by
  unfold addPeer
  split_ifs with hskip
  · exact h
  · simp only [not_or, Nat.not_le] at hskip
    exact ⟨(Table.size_insert_le _ _ _).trans hskip.2.1, h.links, h.udpFlows, h.pings, h.probes,
      h.endpoints, h.candidates.insert _ _⟩

theorem init_bounded (setup : Setup) : (init setup).Bounded := by
  have hempty : ∀ b : Actor, b.peers = ∅ → b.links = [] → b.udpFlows = ∅ → b.pings = [] →
      b.probes = ∅ → Remembered b.endpoints → b.Bounded := by
    intro b hpeers hlinks hflows hpings hprobes hendpoints
    refine ⟨?_, ?_, ?_, ?_, ?_, hendpoints, ?_⟩
    · rw [hpeers]
      exact Nat.zero_le _
    · rw [hlinks]
      exact Nat.zero_le _
    · rw [hflows]
      exact Nat.zero_le _
    · rw [hpings]
      exact Nat.zero_le _
    · rw [hprobes]
      exact Nat.zero_le _
    · rw [hpeers]
      intro key peer hpeer
      cases hpeer
  unfold init
  dsimp only
  split
  · exact bounded_addPeer (hempty _ rfl rfl rfl rfl rfl (.rememberAll _)) _ _
  · exact hempty _ rfl rfl rfl rfl rfl (.rememberAll _)

/-- **Resource bounds**: after every run everything the actor keeps is bounded, and an endpoint just
remembered is kept, at the expense of the oldest one at most. -/
theorem run_bounded (π : Platform) (setup : Setup) (es : List Event) :
    (run π (init setup) es).Bounded ∧ ∀ endpoints endpoint,
      (rememberEndpoint endpoints endpoint).1 = true →
      (rememberEndpoint endpoints endpoint).2 =
        (if endpoints.length = maxCandidates then endpoints.tail else endpoints) ++ [endpoint] := by
  refine ⟨run_invariant (init_bounded setup) (fun _ _ _ _ h => h.bounded) es, ?_⟩
  intro endpoints endpoint hnew
  rcases rememberEndpoint_cases endpoints endpoint with heq | ⟨-, -, heq⟩
  · rw [heq] at hnew
    cases hnew
  · rw [heq]

end Actor

end Tailcat.Runtime
