import Tailcat.Runtime.Flows
import Tailcat.Runtime.Registration

/-!
# Clients inside the tunnel

The tunnel address of a client is made of the first ten bytes of its key.  A packet from a client's
tunnel is processed only if it comes from the client's own address, and a packet for an address is
sealed only to the client it belongs to; so a datagram flow with a client is with that client only
(`run_isolated`).

Both directions are needed.  Inwards, a packet that a tunnel opens is compared with the address of
its key before anything looks at it, so no client can put another's address on a packet.  Outwards,
the actor looks for the peer whose address the packet has, and seals for that one.  Ten bytes of a
key are not the key: two clients with the same prefix would have one address, and the theorem has
the condition that no two registered peers do (`DistinctPrefixes`).

Nothing is assumed of the tunnels themselves here: a packet counts as that of the client whose
tunnel has opened it.
-/

namespace Tailcat.Runtime.Actor

open Net

variable {π : Platform} {s a b : Actor} {e : Event}

/-- Registered keys have distinct tunnel addresses. -/
def DistinctPrefixes (a : Actor) : Prop := (a.peers.keys.map fun key => key.1.take 10).Nodup

instance : Decidable a.DistinctPrefixes := inferInstanceAs (Decidable (List.Nodup _))

/-- Clients are isolated from each other. -/
structure Isolated (π : Platform) (a : Actor) : Prop where
  /-- Packets are processed only from the tunnel of the client they come from. -/
  receive : ∀ key packet, .receiveIp key packet ∈ a.trace → key ∈ a.peers ∧
    slice packet 8 24 = (tcAddrForKey key).1 ∧
    ∃ n source data, .writeToTunnelV6 packet ∈ π.decapsulate n key source data
  /-- Packets are sealed only to the client they are for. -/
  encapsulate : ∀ key packet, .encapsulate key packet ∈ a.trace → key ∈ a.peers ∧
    slice packet 24 40 = (tcAddrForKey key).1
  /-- A packet for nobody is dropped. -/
  dropped : ∀ packet, (∀ key ∈ a.peers, slice packet 24 40 ≠ (tcAddrForKey key).1) →
    a.egress π packet = a
  /-- A datagram flow with a client gets datagrams of that client only. -/
  delivered : ∀ key ∈ a.peers, ∀ id st payload, a.streams[id]? = some st →
    st.flow.2.ip = .v6 (tcAddrForKey key) → .deliver id payload ∈ a.trace →
    ∃ packet ip repr, .receiveIp key packet ∈ a.trace ∧ Ipv6Packet.newChecked packet = some ip ∧
      π.parseUdp ip.srcAddr ip.dstAddr ip.payload = some repr ∧ repr.payload = payload
  /-- What is written to it is sealed to that client only. -/
  written : ∀ key ∈ a.peers, ∀ (flow : UdpFlowKey) bytes key', flow.2.ip = .v6 (tcAddrForKey key) →
    .encapsulate key' (datagramPacket π flow bytes) ∈ a.trace → key' = key

/-! ### Sources -/

/-- A server has processed packets only from the address of the tunnel they came out of. -/
structure SourcesChecked (π : Platform) (a : Actor) : Prop where
  server : a.config.isSome = true
  source : ∀ key packet, .receiveIp key packet ∈ a.trace → key ∈ a.peers ∧
    slice packet 8 24 = (tcAddrForKey key).1 ∧
    ∃ n source data, .writeToTunnelV6 packet ∈ π.decapsulate n key source data

theorem Small.sourcesChecked {Q : Actor → PollAction → Prop} (h : Small π Q s e a b)
    (hI : a.SourcesChecked π) : b.SourcesChecked π := by
  have hext := h.extends
  refine ⟨hext.config.trans hI.server, fun key packet hmem => ?_⟩
  rcases h.mem_trace hmem with hold | horigin
  · obtain ⟨hkey, hrest⟩ := hI.source key packet hold
    exact ⟨hext.peers key hkey, hrest⟩
  · cases horigin with
    | send h => exact h.elim
    | link _ _ h => exact h.elim
    | act h =>
      obtain ⟨hkey, hmay, hdecapsulated⟩ := h
      refine ⟨hext.peers key hkey, ?_, hdecapsulated⟩
      unfold mayReceive at hmay
      rw [← Option.not_isSome, hI.server] at hmay
      simpa using (Bool.and_eq_true_iff.1 hmay).2

theorem init_sourcesChecked (setup : Setup) (config : ServerConfig) :
    (init (setup.serving config)).SourcesChecked π := by
  refine ⟨rfl, fun key packet hmem => ?_⟩
  rw [init_trace] at hmem
  cases hmem

theorem run_sourcesChecked (setup : Setup) (config : ServerConfig) (es : List Event) :
    (run π (init (setup.serving config)) es).SourcesChecked π :=
  run_invariant (init_sourcesChecked setup config) (fun _ _ _ _ h => h.sourcesChecked) es

/-! ### Destinations -/

theorem tunnelFor_server (hserver : a.server = none) {packet : Bytes} {key : Key}
    (h : a.tunnelFor packet = some key) :
    key ∈ a.peers ∧ slice packet 24 40 = (tcAddrForKey key).1 := by
  unfold tunnelFor at h
  rw [hserver, Option.none_or] at h
  refine ⟨List.mem_of_find?_eq_some h, ?_⟩
  have haddr := List.find?_some h
  exact (by simpa using haddr : (tcAddrForKey key).1 = slice packet 24 40).symm

/-- Packets are sealed only to the client whose address they are for. -/
theorem encapsulate_destination (setup : Setup) (config : ServerConfig) (es : List Event) {key : Key}
    {packet : Bytes} (h : .encapsulate key packet ∈ (run π (init (setup.serving config)) es).trace) :
    key ∈ (run π (init (setup.serving config)) es).peers ∧
      slice packet 24 40 = (tcAddrForKey key).1 := by
  refine trace_invariant (I := fun a x => a.server = none → ∀ key packet,
    x = .encapsulate key packet → key ∈ a.peers ∧ slice packet 24 40 = (tcAddrForKey key).1)
    ?_ ?_ _ es h (run_server setup config es) key packet rfl
  · intro s e a b x hstep ha hb key packet hx
    obtain ⟨hkey, hdst⟩ := ha (hstep.extends.server ▸ hb) key packet hx
    exact ⟨hstep.extends.peers key hkey, hdst⟩
  · rintro a e x horigin hserver key packet rfl
    cases horigin with
    | send h => exact h.elim
    | link _ _ h => exact h.elim
    | act h => exact tunnelFor_server hserver h

theorem egress_of_nobody (hserver : a.server = none) {packet : Bytes}
    (h : ∀ key ∈ a.peers, slice packet 24 40 ≠ (tcAddrForKey key).1) : a.egress π packet = a := by
  unfold egress
  split_ifs with hshort
  · rfl
  · cases htunnel : a.tunnelFor packet with
    | none => rfl
    | some key =>
      obtain ⟨hkey, hdst⟩ := tunnelFor_server hserver htunnel
      exact absurd hdst (h key hkey)

/-! ### Flows -/

/-- Registered keys with one tunnel address are one key. -/
theorem DistinctPrefixes.key_eq (h : a.DistinctPrefixes) {key key' : Key} (hkey : key ∈ a.peers)
    (hkey' : key' ∈ a.peers) (haddr : tcAddrForKey key = tcAddrForKey key') : key = key' := by
  have hpre : key.1.take 10 = key'.1.take 10 :=
    List.append_cancel_left (congrArg Subtype.val haddr)
  exact List.inj_on_of_nodup_map h hkey hkey' hpre

theorem srcAddr_newChecked {packet : Bytes} {ip : Ipv6Packet}
    (h : Ipv6Packet.newChecked packet = some ip) : ip.srcAddr.1 = slice packet 8 24 := by
  unfold Ipv6Packet.newChecked at h
  split_ifs at h
  cases h
  rfl

theorem slice_datagramPacket (flow : UdpFlowKey) (bytes : Bytes) :
    slice (datagramPacket π flow bytes) 24 40 = (nat64Addr flow.2.ip).1 := by
  unfold datagramPacket
  dsimp only
  rw [List.append_assoc]
  refine slice_append _ ?_ ?_
  · simp [beBytes16, (nat64Addr flow.1.ip).2]
  · simp [(nat64Addr flow.2.ip).2]

/-- **Client isolation**: in every state a server reaches in which the registered keys have distinct
prefixes, clients are isolated from each other. -/
theorem run_isolated (π : Platform) (setup : Setup) (config : ServerConfig) (es : List Event)
    (h : (run π (init (setup.serving config)) es).DistinctPrefixes) :
    Isolated π (run π (init (setup.serving config)) es) := by
  have hserver := run_server (π := π) setup config es
  have hsources := run_sourcesChecked (π := π) setup config es
  refine ⟨hsources.source,
    fun key packet hmem => encapsulate_destination setup config es hmem,
    fun packet hnobody => egress_of_nobody hserver hnobody, ?_, ?_⟩
  · intro key hkey id st payload hst hremote hmem
    obtain ⟨st', hst', key', packet, ip, repr, hreceived, hip, hrepr, hpayload, hflow⟩ :=
      run_deliveredRight (setup.serving config) es hmem
    obtain rfl := Option.some.inj (hst.symm.trans hst')
    obtain ⟨hkey', hsource, -⟩ := hsources.source _ _ hreceived
    have haddr : tcAddrForKey key' = tcAddrForKey key := by
      rw [hflow, SocketAddr.ip_new] at hremote
      rw [← IpAddr.v6.inj hremote]
      exact Subtype.ext (hsource.symm.trans (srcAddr_newChecked hip).symm)
    obtain rfl := h.key_eq hkey' hkey haddr
    exact ⟨packet, ip, repr, hreceived, hip, hrepr, hpayload⟩
  · intro key hkey flow bytes key' hremote hmem
    obtain ⟨hkey', hdst⟩ := encapsulate_destination setup config es hmem
    rw [slice_datagramPacket, hremote] at hdst
    exact h.key_eq hkey' hkey (Subtype.ext hdst.symm)

open Sample in
/-- Two clients register, one of them sends a datagram to a service and gets an answer. -/
theorem run_isolated_sample :
    let config : ServerConfig := { onUdp := some fun _ => some "echo" }
    let es := [registration (keyOf 2) (keyOf 130), registration (keyOf 3) (keyOf 131), .tick [] [],
      tunnelled (keyOf 2) (datagramPacket sample (inside (keyOf 2) 5000, inside (keyOf 1) 7) [1, 2]),
      .tick [] [], .command (.sendUdp 0 [3, 4] 0), .tick [] []]
    let a := run sample (init ((serverSetup {}).serving config)) es
    a.streams.map (·.queue) = [[[1, 2]]] ∧ Isolated sample a :=
  ⟨by decide +kernel, run_isolated sample (serverSetup {}) _ _ (by decide +kernel)⟩

end Tailcat.Runtime.Actor
