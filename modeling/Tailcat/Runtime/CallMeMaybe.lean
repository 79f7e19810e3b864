import Tailcat.Runtime.Bounds

/-!
# The exchange of endpoints

An actor announces its endpoints in a call-me-maybe message, and a peer that receives it takes them
as the candidates for a direct path.  The protocol library has an encoder and a decoder of the same
message.

* `rememberAll_eq` : a short list of usable endpoints is remembered without its duplicates.
* `call_me_maybe` : what is announced is what the peer's candidates become.

Both sides are followed through their own code: what an actor announces is the list of its
endpoints, in the layout of the message, and what a peer does with the packet is to read eighteen
bytes at a time, to skip what may not be used, and to replace its candidates.  A message that comes
from an endpoint directly, or whose length is not a multiple, changes nothing.  That the library's
encoder and decoder agree with the actor's is part of the result.
-/

namespace Tailcat.Runtime

open Net

/-- An endpoint with an IPv4-mapped address as one of IPv4. -/
def canonicalEndpoint : SocketAddr → SocketAddr
  | .v6 ip port flowinfo scopeId =>
    match toIpv4Mapped ip with
    | some ip => .v4 ip port
    | none => .v6 ip port flowinfo scopeId
  | endpoint => endpoint

/-- `protocol::encode_call_me_maybe`. -/
def encodeCallMeMaybe (endpoints : List SocketAddr) : Bytes :=
  endpoints.foldl (fun b endpoint =>
    let octets := match endpoint.ip with
      | .v4 a => (toIpv6Mapped a).1
      | .v6 a => a.1
    b ++ octets ++ beBytes16 endpoint.port.toNat) [3, 0]

/-- `protocol::parse_call_me_maybe`. -/
def parseCallMeMaybe (payload : Bytes) : List SocketAddr :=
  if payload.length < 2 ∨ payload.take 2 ≠ [3, 0] ∨ (payload.length - 2) % 18 ≠ 0 then []
  else
    (endpointChunks (payload.drop 2)).map fun p =>
      let a := ipv6Of p
      .new ((toIpv4Mapped a).elim (.v6 a) .v4) (UInt16.ofNat (ofBeBytes16 (p.getD 16 0) (p.getD 17 0)))

/-! ### The message -/

variable {endpoint : SocketAddr} {endpoints : List SocketAddr}

/-- The encoder of the library writes what `advertise` writes. -/
theorem encodeCallMeMaybe_eq (endpoints : List SocketAddr) :
    encodeCallMeMaybe endpoints = [3, 0] ++ endpoints.flatMap endpointBytes := by
  have hfold : ∀ (l : List SocketAddr) (b : Bytes), l.foldl (fun b endpoint =>
      let octets := match endpoint.ip with
        | .v4 a => (toIpv6Mapped a).1
        | .v6 a => a.1
      b ++ octets ++ beBytes16 endpoint.port.toNat) b = b ++ l.flatMap endpointBytes := by
    intro l
    induction l with
    | nil => simp
    | cons endpoint l ih =>
      intro b
      rw [List.foldl_cons, ih, List.flatMap_cons, endpointBytes, ← List.append_assoc,
        ← List.append_assoc]
      cases endpoint <;> rfl
  exact hfold endpoints _

theorem length_ip16 (ip : IpAddr) : (ip16 ip).length = 16 := by
  cases ip with
  | v4 ip => exact (toIpv6Mapped ip).2
  | v6 ip => exact ip.2

theorem length_endpointBytes (endpoint : SocketAddr) : (endpointBytes endpoint).length = 18 := by
  rw [endpointBytes, List.length_append, length_ip16, length_beBytes16]

theorem length_flatMap_endpointBytes (endpoints : List SocketAddr) :
    (endpoints.flatMap endpointBytes).length = 18 * endpoints.length := by
  induction endpoints with
  | nil => rfl
  | cons endpoint endpoints ih =>
    rw [List.flatMap_cons, List.length_append, length_endpointBytes, ih, List.length_cons]
    omega

/-- A block of an encoding whose blocks have one length. -/
theorem slice_flatMap {α : Type*} {f : α → Bytes} {w : ℕ} (hf : ∀ x, (f x).length = w) (l : List α)
    {i : ℕ} (h : i < l.length) : slice (l.flatMap f) (w * i) (w * i + w) = f l[i] := by
  induction l generalizing i with
  | nil => simp at h
  | cons x l ih =>
    rw [List.flatMap_cons]
    cases i with
    | zero =>
      rw [slice, Nat.mul_zero, Nat.zero_add, Nat.sub_zero, List.drop_zero]
      exact List.take_left' (hf x)
    | succ i =>
      have hoffset : w * (i + 1) = (f x).length + w * i := by
        rw [hf, Nat.mul_succ, Nat.add_comm]
      have hi : i < l.length := by simpa using h
      rw [slice, hoffset, List.drop_length_add_append, Nat.add_sub_cancel_left]
      have hblock := ih hi
      rw [slice, Nat.add_sub_cancel_left] at hblock
      exact hblock

/-- The parts of 18 bytes of a message are its endpoints. -/
theorem endpointChunks_flatMap (endpoints : List SocketAddr) :
    endpointChunks (endpoints.flatMap endpointBytes) = endpoints.map endpointBytes := by
  have hcount : (endpoints.flatMap endpointBytes).length / 18 = endpoints.length := by
    rw [length_flatMap_endpointBytes, Nat.mul_div_cancel_left _ (by decide)]
  rw [endpointChunks, hcount]
  refine List.ext_getElem (by simp) fun i hi hi' => ?_
  rw [List.getElem_map, List.getElem_range, List.getElem_map]
  exact slice_flatMap length_endpointBytes endpoints (by simpa using hi')

theorem toIpv4Mapped_toIpv6Mapped (ip : Ipv4Addr) : toIpv4Mapped (toIpv6Mapped ip) = some ip := by
  simp [toIpv4Mapped, toIpv6Mapped]

theorem ipv6Of_ip16 (ip : IpAddr) (rest : Bytes) :
    (ipv6Of (ip16 ip ++ rest)).1 = ip16 ip := by
  have hlength := length_ip16 ip
  show List.rightpad 16 0 ((ip16 ip ++ rest).take 16) = ip16 ip
  rw [List.take_left' hlength, List.rightpad, hlength, Nat.sub_self, List.replicate_zero,
    List.append_nil]

/-- An endpoint is read as it was written, but for an IPv4-mapped address. -/
theorem endpointOf_endpointBytes (hplain : endpoint = .new endpoint.ip endpoint.port) :
    endpointOf (endpointBytes endpoint) = canonicalEndpoint endpoint := by
  have hlength := length_ip16 endpoint.ip
  have hport : UInt16.ofNat (ofBeBytes16 ((endpointBytes endpoint).getD 16 0)
      ((endpointBytes endpoint).getD 17 0)) = endpoint.port := by
    simp only [endpointBytes, List.getD_eq_getElem?_getD]
    rw [List.getElem?_append_right (by omega), List.getElem?_append_right (by omega), hlength]
    simp only [beBytes16, Nat.sub_self, List.getElem?_cons_zero, List.getElem?_cons_succ,
      Option.getD_some]
    rw [ofBeBytes16_beBytes16 endpoint.port.toNat_lt, UInt16.ofNat_toNat]
  have hip := ipv6Of_ip16 endpoint.ip (beBytes16 endpoint.port.toNat)
  rw [endpointOf, hport, endpointBytes]
  cases endpoint with
  | v4 ip port =>
    rw [show ipv6Of _ = toIpv6Mapped ip from Subtype.ext hip, IpAddr.canonical,
      toIpv4Mapped_toIpv6Mapped]
    rfl
  | v6 ip port flowinfo scopeId =>
    cases hplain
    rw [show ipv6Of _ = ip from Subtype.ext hip, IpAddr.canonical, canonicalEndpoint]
    cases toIpv4Mapped ip <;> rfl

/-- The decoder of the library reads what the receiver of a message reads. -/
theorem parseCallMeMaybe_eq (h : ∀ endpoint ∈ endpoints, endpoint = .new endpoint.ip endpoint.port) :
    parseCallMeMaybe (encodeCallMeMaybe endpoints) = endpoints.map canonicalEndpoint := by
  have hlength : (encodeCallMeMaybe endpoints).length = 2 + 18 * endpoints.length := by
    rw [encodeCallMeMaybe_eq, List.length_append, length_flatMap_endpointBytes]
    rfl
  have hhead : ¬((encodeCallMeMaybe endpoints).length < 2 ∨
      (encodeCallMeMaybe endpoints).take 2 ≠ [3, 0] ∨
      ((encodeCallMeMaybe endpoints).length - 2) % 18 ≠ 0) := by
    rw [hlength, encodeCallMeMaybe_eq]
    rintro (h | h | h)
    · omega
    · exact h rfl
    · omega
  have hdecode : ∀ p : Bytes, SocketAddr.new ((toIpv4Mapped (ipv6Of p)).elim (.v6 (ipv6Of p)) .v4)
      (UInt16.ofNat (ofBeBytes16 (p.getD 16 0) (p.getD 17 0))) = endpointOf p := by
    intro p
    rw [endpointOf, IpAddr.canonical]
    cases toIpv4Mapped (ipv6Of p) <;> rfl
  rw [parseCallMeMaybe, if_neg hhead, encodeCallMeMaybe_eq]
  simp only [hdecode, List.cons_append, List.nil_append, List.drop_succ_cons, List.drop_zero]
  rw [endpointChunks_flatMap, List.map_map]
  exact List.map_congr_left fun endpoint hmem => endpointOf_endpointBytes (h endpoint hmem)

/-! ### What is remembered -/

/-- An endpoint may be used exactly if its canonical form may be. -/
theorem usable_canonical (endpoint : SocketAddr) :
    usableEndpoint (canonicalEndpoint endpoint) = usableEndpoint endpoint := by
  cases endpoint with
  | v4 ip port => rfl
  | v6 ip port flowinfo scopeId =>
    cases hmapped : toIpv4Mapped ip with
    | some ip' =>
      simp only [canonicalEndpoint, hmapped, usableEndpoint, SocketAddr.ip, SocketAddr.port,
        IpAddr.canonical]
      rfl
    | none => simp only [canonicalEndpoint, hmapped]

/-- Usable endpoints, not too many, are remembered without later duplicates. -/
theorem rememberAll_eq (h : ∀ endpoint ∈ endpoints, usableEndpoint endpoint = true)
    (hlength : endpoints.length ≤ maxCandidates) : rememberAll endpoints = endpoints.eraseDups := by
  -- the same from any endpoints that are known already
  have hfold : ∀ (l known : List SocketAddr), (∀ endpoint ∈ l, usableEndpoint endpoint = true) →
      known.length + l.length ≤ maxCandidates →
      l.foldl (fun endpoints endpoint => (rememberEndpoint endpoints endpoint).2) known =
        known ++ (l.filter fun endpoint => !known.contains endpoint).eraseDups := by
    intro l
    induction l with
    | nil => simp
    | cons endpoint l ih =>
      intro known husable hsum
      rw [List.length_cons] at hsum
      have husable' : ∀ e ∈ l, usableEndpoint e = true := fun e he => husable e (by simp [he])
      have hfirst := husable endpoint (by simp)
      rw [List.foldl_cons, List.filter_cons]
      cases hknown : known.contains endpoint with
      | true =>
        rw [rememberEndpoint, hfirst, hknown]
        exact ih known husable' (by omega)
      | false =>
        rw [rememberEndpoint, hfirst, hknown]
        simp only [Bool.not_true, Bool.or_self, Bool.false_eq_true, if_false, Bool.not_false,
          if_true]
        have hnew : (fun e => !(known ++ [endpoint]).contains e) =
            fun e => (!e == endpoint) && !known.contains e := by
          funext e
          by_cases he : e = endpoint <;> simp [he]
        have hroom : (known ++ [endpoint]).length + l.length ≤ maxCandidates := by
          rw [List.length_append, List.length_singleton]
          omega
        rw [if_neg (by omega), ih _ husable' hroom, List.eraseDups_cons, List.filter_filter,
          List.append_assoc, List.singleton_append, hnew]
  have hall := hfold endpoints [] h (by simpa using hlength)
  simpa [rememberAll] using hall

namespace Actor

variable {π : Platform} {Q : Actor → PollAction → Prop} {s a b : Actor} {e : Event} {key : Key}
  {packet data : Bytes}

/-! ### The endpoints of an actor -/

/-- An endpoint has nothing but an address and a port. -/
def Plain (endpoint : SocketAddr) : Prop := endpoint = .new endpoint.ip endpoint.port

theorem plain_of_parseStun (h : parseStun data = some endpoint) : Plain endpoint := by
  have hattribute : ∀ (fuel length offset : ℕ),
      stunAttribute data length fuel offset = some endpoint → Plain endpoint := by
    intro fuel
    induction fuel with
    | zero =>
      intro length offset h
      cases h
    | succ fuel ih =>
      intro length offset h
      unfold stunAttribute at h
      split_ifs at h
      · dsimp only at h
        split_ifs at h
        · cases h
          rfl
        · exact ih _ _ h
  unfold parseStun at h
  dsimp only at h
  split_ifs at h
  exact hattribute _ _ _ h

theorem plain_rememberEndpoint (h : ∀ x ∈ endpoints, Plain x) (hplain : Plain endpoint) :
    ∀ x ∈ (rememberEndpoint endpoints endpoint).2, Plain x := by
  obtain heq | ⟨-, -, heq⟩ := rememberEndpoint_cases endpoints endpoint
  · rw [heq]
    exact h
  · rw [heq]
    intro x hx
    obtain hx | hx := List.mem_append.1 hx
    · split_ifs at hx
      · exact h x (List.mem_of_mem_tail hx)
      · exact h x hx
    · rw [List.mem_singleton.1 hx]
      exact hplain

theorem plain_rememberAll {announced : List SocketAddr} (h : ∀ x ∈ announced, Plain x) :
    ∀ x ∈ rememberAll announced, Plain x := by
  have hfold : ∀ (l known : List SocketAddr), (∀ x ∈ l, Plain x) → (∀ x ∈ known, Plain x) →
      ∀ x ∈ l.foldl (fun endpoints endpoint => (rememberEndpoint endpoints endpoint).2) known,
        Plain x := by
    intro l
    induction l with
    | nil => exact fun known _ hknown => hknown
    | cons endpoint l ih =>
      exact fun known hl hknown => ih _ (fun x hx => hl x (by simp [hx]))
        (plain_rememberEndpoint hknown (hl endpoint (by simp)))
  exact hfold announced [] h (by simp)

theorem Small.plain (h : Small π Q s e a b) (hI : ∀ x ∈ a.endpoints, Plain x) :
    ∀ x ∈ b.endpoints, Plain x := by
  cases h with
  | sends h => rw [h.eq]; exact hI
  | repeatPings h => rw [h.eq]; exact hI
  | newUdpFlow => rw [newUdpFlow_eq]; exact hI
  | lostUdpFlow => rw [newUdpFlow_eq]; exact hI
  | removeCancelled => rw [removeCancelled_eq]; exact hI
  | deliver => rw [deliver_eq]; exact hI
  | udpOutput => rw [udpOutput_eq]; exact hI
  | expireUdp => rw [expireUdp_eq]; exact hI
  | poll => rw [pollAction_eq]; exact hI
  | removeLink => rw [sameButLinks_removeLink]; exact hI
  | ownEndpoint hremember _ _ hstun =>
    have hplain := plain_rememberEndpoint hI (plain_of_parseStun hstun)
    rw [hremember] at hplain
    exact hplain
  | _ => exact hI

/-- The own endpoints have nothing but an address and a port. -/
theorem run_plain (setup : Setup) (es : List Event) :
    ∀ x ∈ (run π (init setup) es).endpoints, Plain x := by
  refine run_invariant (I := fun a => ∀ x ∈ a.endpoints, Plain x) ?_
    (fun _ _ _ _ h hI => h.plain hI) es
  have hinit : (init setup).endpoints = rememberAll
      ((setup.interfaces.filter (announces setup.udp6)).map (.new · setup.port)) := by
    unfold init addPeer
    dsimp only
    split
    · split_ifs <;> rfl
    · rfl
  rw [hinit]
  refine plain_rememberAll fun x hx => ?_
  obtain ⟨ip, -, rfl⟩ := List.mem_map.1 hx
  rw [Plain, SocketAddr.ip_new, SocketAddr.port_new]

/-! ### The receipt of a message -/

/-- A packet of the discovery protocol is from a peer and opens to some data. -/
structure Carries (π : Platform) (b : Actor) (key : Key) (packet data : Bytes) : Prop where
  length : 78 ≤ packet.length
  opens : ∃ peer, b.peers.lookup key = some peer ∧ slice packet 6 38 = peer.discoKey.1 ∧
    b.openDisco π peer.discoKey packet = some data

theorem peers_probe (a : Actor) (key : Key) (endpoint : SocketAddr) :
    (a.probe π key endpoint).peers = a.peers := by
  unfold probe sealDisco
  split_ifs
  · rfl
  · dsimp only
    split
    · rfl
    · split
      · rename_i heq
        obtain ⟨-, rfl⟩ := Prod.mk.inj heq
        rfl
      · rename_i heq
        obtain ⟨-, rfl⟩ := Prod.mk.inj heq
        split_ifs <;> rfl

theorem peers_probeAll (a : Actor) (key : Key) (endpoints : List SocketAddr) :
    (a.probeAll π key endpoints).peers = a.peers := by
  induction endpoints generalizing a with
  | nil => rfl
  | cons endpoint endpoints ih => exact (ih _).trans (peers_probe a key endpoint)

theorem discoPacket_of_carries (h : Carries π b key packet data) {source : Option SocketAddr}
    (hkind : data.getD 0 0 = 3) : b.discoPacket π key packet source =
      if 2 ≤ data.length ∧ data.getD 1 0 = 0 ∧ source = none ∧ (data.length - 2) % 18 = 0 then
        b.callMeMaybe π key data
      else b := by
  obtain ⟨hlength, peer, hpeer, hheader, hopen⟩ := h
  have hone : ¬(3 : UInt8) = 1 := by decide
  have htwo : ¬(3 : UInt8) = 2 := by decide
  unfold discoPacket
  simp only [hpeer, Nat.not_lt.2 hlength, hheader, ne_eq, not_true_eq_false, or_self, if_false,
    hopen, hkind, hone, htwo, false_and, true_and]
  by_cases hgood : 2 ≤ data.length ∧ data.getD 1 0 = 0 ∧ source = none ∧ (data.length - 2) % 18 = 0
  · obtain ⟨htwo, hzero, rfl, hparts⟩ := hgood
    have hgood' : ¬(data.length < 2 ∨ ¬data.getD 1 0 = 0 ∨
        ((none : Option SocketAddr).any fun s => !usableEndpoint s) = true) := by
      rintro (h | h | h)
      · omega
      · exact h hzero
      · cases h
    rw [if_neg hgood', if_pos ⟨rfl, hparts⟩, if_pos ⟨htwo, hzero, rfl, hparts⟩]
  · rw [if_neg hgood]
    split_ifs with hbad hparts
    · rfl
    · rw [not_or, not_or, not_not, Nat.not_lt] at hbad
      exact (hgood ⟨hbad.1, hbad.2.1, hparts⟩).elim
    · rfl

/-- What a message makes of the candidates of its sender. -/
theorem peers_callMeMaybe (hplain : ∀ x ∈ endpoints, Plain x)
    (husable : ∀ x ∈ endpoints, usableEndpoint x = true) (hlength : endpoints.length ≤ maxCandidates) :
    (b.callMeMaybe π key (encodeCallMeMaybe endpoints)).peers = b.peers.adjust key fun peer =>
      { peer with candidates := (endpoints.map canonicalEndpoint).eraseDups } := by
  have hdecoded : (endpointChunks ((encodeCallMeMaybe endpoints).drop 2)).map endpointOf =
      endpoints.map canonicalEndpoint := by
    rw [encodeCallMeMaybe_eq]
    simp only [List.cons_append, List.nil_append, List.drop_succ_cons, List.drop_zero]
    rw [endpointChunks_flatMap, List.map_map]
    exact List.map_congr_left fun x hx => endpointOf_endpointBytes (hplain x hx)
  have hremembered : rememberAll ((endpoints.map canonicalEndpoint).take maxCandidates) =
      (endpoints.map canonicalEndpoint).eraseDups := by
    rw [List.take_of_length_le (by simpa using hlength)]
    refine rememberAll_eq ?_ (by simpa using hlength)
    intro x hx
    obtain ⟨held, hheld, rfl⟩ := List.mem_map.1 hx
    rw [usable_canonical]
    exact husable held hheld
  unfold callMeMaybe
  rw [hdecoded]
  dsimp only
  rw [hremembered, peers_probeAll]

/-- What is announced, and what a message brings about. -/
structure Exchanges (π : Platform) (a : Actor) : Prop where
  /-- What is sealed for every peer is what the library encodes. -/
  announced : a.advertise π = a.peers.keys.foldl (advertiseTo π (encodeCallMeMaybe a.endpoints))
    { a with lastAdvertise := a.now }
  /-- The library decodes it to the same endpoints. -/
  decoded : parseCallMeMaybe (encodeCallMeMaybe a.endpoints) = a.endpoints.map canonicalEndpoint
  /-- The peer takes the same endpoints, without later duplicates, as its candidates. -/
  received : ∀ b key packet, Carries π b key packet (encodeCallMeMaybe a.endpoints) →
    (b.discoPacket π key packet none).peers = b.peers.adjust key fun peer =>
      { peer with candidates := (a.endpoints.map canonicalEndpoint).eraseDups }

/-- **The exchange of endpoints**: what an actor announces in any state it comes to is what the
candidates of its peer become; a message that is not made of whole endpoints, or that does not come
through the relay, changes nothing. -/
theorem call_me_maybe (π : Platform) :
    (∀ setup es, Exchanges π (run π (init setup) es)) ∧
      ∀ b key packet data source, Carries π b key packet data → data.getD 0 0 = 3 →
        ((data.length - 2) % 18 ≠ 0 ∨ source.isSome = true) →
        b.discoPacket π key packet source = b := by
  refine ⟨fun setup es => ?_, fun b key packet data source hcarries hkind hbad => ?_⟩
  · have hremembered := (run_bounded π setup es).1.endpoints
    have hplain := run_plain (π := π) setup es
    generalize run π (init setup) es = a at hremembered hplain
    refine ⟨?_, parseCallMeMaybe_eq hplain, fun b key packet hcarries => ?_⟩
    · rw [encodeCallMeMaybe_eq]
      rfl
    · have hcount : ((encodeCallMeMaybe a.endpoints).length - 2) % 18 = 0 := by
        rw [encodeCallMeMaybe_eq, List.length_append, length_flatMap_endpointBytes]
        simp
      have hhead : (encodeCallMeMaybe a.endpoints).getD 0 0 = 3 ∧
          (encodeCallMeMaybe a.endpoints).getD 1 0 = 0 ∧
          2 ≤ (encodeCallMeMaybe a.endpoints).length := by
        rw [encodeCallMeMaybe_eq]
        exact ⟨rfl, rfl, by simp⟩
      rw [discoPacket_of_carries hcarries hhead.1, if_pos ⟨hhead.2.2, hhead.2.1, rfl, hcount⟩]
      exact peers_callMeMaybe hplain hremembered.usable hremembered.length
  · rw [discoPacket_of_carries hcarries hkind, if_neg]
    rintro ⟨-, -, rfl, hparts⟩
    obtain hbad | hbad := hbad
    · exact hbad hparts
    · cases hbad

end Actor

end Tailcat.Runtime
