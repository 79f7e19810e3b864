import Tailcat.Protocol.AddressRoundTrip
import Mathlib.Data.List.Perm.Basic

/-!
# Published addresses

`resolve_addr`, `serve` with an embedded region and `genkey --embed-derp-map` publish an address that
carries a relay region of a DERP map.  Each of them first shortens the region's node list; the nodes
for STUN only are left out later, by `encodeAddr`.

* `expand` : the region an address names, with its nodes in the order the map or the shuffle gives.
* `keepsRelay_encodeAddr` : what is read back has a relay if and only if the published region has
  one and the address is within the decoder's limit.
* `published_keepsRelay` : for the three publishers, the relay has to be among the nodes kept.
-/

namespace Tailcat.Protocol

/-! ### Regions -/

/-- The nodes `open_region` tries. -/
def Region.relays (r : Region) : List Node := r.nodes.filter fun n => !n.stunOnly

/-- `nodes.truncate(n)`. -/
def Region.truncate (n : ℕ) (r : Region) : Region := { r with nodes := r.nodes.take n }

/-- A DERP map: its regions by identifier. -/
structure DerpMap where
  regions : List (Int64 × Region) := []
  deriving Repr

/-- The default location of the DERP map. -/
def defaultDerpMapUrl : String := "https://tailcat.dev/derpmap.json"

/-- What `expand` learns from outside. -/
structure Surroundings where
  /-- The location asked for the DERP map. -/
  url : Option String := none
  /-- `fetch_derp_map`. -/
  fetchDerpMap : Except String DerpMap
  /-- The order `shuffle` leaves a node list in. -/
  shuffle : List Node → List Node := id
  /-- The region that answered first, or a random one. -/
  pickBestRegion : DerpMap → Int64 := fun dm => (dm.regions.head?.map (·.1)).getD 0

/-- The identifiers of a region and its nodes, where they are missing. -/
def Region.fillIds (r : Region) : Region :=
  let id := if r.regionId = 0 then 1 else r.regionId
  { r with
    regionId := id
    nodes := r.nodes.map fun n => if n.regionId = 0 then { n with regionId := id } else n }

/-- Give a `ConnInfo` without a region the one it names, or the best one. -/
def expand (s : Surroundings) (ci : ConnInfo) : Except String ConnInfo :=
  let ci := { ci with region := ci.region.map Region.fillIds }
  if ci.region ≠ [] ∨ ci.regionId = 0 then .ok ci
  else do
    let dm ← s.fetchDerpMap
    if ci.regionId = -1 then
      if dm.regions = [] then .error "failed to auto-detect any regions"
      else
        let regions := dm.regions.map fun kr => (kr.1, { kr.2 with nodes := s.shuffle kr.2.nodes })
        match regions.lookup (s.pickBestRegion { dm with regions }) with
        | some r => .ok { ci with region := [r], regionId := 0 }
        | none => .error "known region"
    else
      match dm.regions.lookup ci.regionId with
      | some r => .ok { ci with region := ci.region ++ [r] }
      | none =>
        let url := s.url.getD defaultDerpMapUrl
        .error s!"no DERP region {ci.regionId.toInt} exists in {url}"

/-! ### Publishers -/

/-- `resolve_addr`: an address with the region it names. -/
def Codec.resolveAddr (c : Codec) (s : Surroundings) (addr : String) : Except String String := do
  let ci ← c.parseAddr addr
  if ci.region ≠ [] then .ok addr
  else do
    let ci ← expand s ci
    .ok (c.encodeAddr { ci with region := ci.region.map (Region.truncate 2), regionId := 0 })

/-- The info `serve` publishes with the server's region in it. -/
def serveInfo (presharedKey : Option Key) (serverPublic disco : Key) (region : Region) :
    ConnInfo where
  presharedKey
  serverPublic
  serverDiscoPublic := some disco
  region :=
    let region := Region.truncate 1 { region with regionCode := "" }
    [{ region with nodes := region.nodes.map fun n => { n with regionId := 0 } }]
  regionId := 0

/-- `genkey --embed-derp-map`: the public half of a key with its region in it. -/
def embedDerpMap (s : Surroundings) (pub : ConnInfo) : Except String ConnInfo := do
  let pub ← expand s pub
  .ok { pub with
    region := pub.region.map fun region =>
      let region := region.truncate 2
      { region with nodes := region.nodes.map fun n => { n with ipv6 := "" } }
    regionId := 0 }

/-! ### What is read back -/

variable (c : Codec)

/-- The address is read back with a region that has a node. -/
def Codec.KeepsRelay (addr : String) : Prop :=
  ∃ ci, c.parseAddr addr = .ok ci ∧ ∃ r ∈ ci.region, r.nodes ≠ []

/-- The address is within the decoder's limit. -/
def Codec.Fits (addr : String) : Prop := addr.utf8ByteSize ≤ 2 + (maxAddressBytes * 4 / 3 + 4)

instance (addr : String) : Decidable (Codec.Fits addr) :=
  inferInstanceAs (Decidable (_ ≤ _))

/-- Some node among the first `n` of the region is not for STUN only. -/
def Region.RelayWithin (n : ℕ) (r : Region) : Prop := ∃ node ∈ r.nodes.take n, node.stunOnly = false

instance (n : ℕ) (r : Region) : Decidable (r.RelayWithin n) :=
  inferInstanceAs (Decidable (∃ node ∈ r.nodes.take n, node.stunOnly = false))

variable {c}

theorem relays_ne_nil {r : Region} : r.relays ≠ [] ↔ ∃ n ∈ r.nodes, n.stunOnly = false := by
  simp [Region.relays, List.filter_eq_nil_iff]

/-- A region is read back with the nodes `open_region` would have tried. -/
theorem normRegion_nodes_ne_nil (ri : ℕ) (r : Region) :
    (normRegion ri r).nodes ≠ [] ↔ r.relays ≠ [] := by
  simp [normRegion, Region.relays]

theorem parseAddr_encodeAddr_of_not_fits {ci : ConnInfo} (h : ¬Codec.Fits (c.encodeAddr ci)) :
    c.parseAddr (c.encodeAddr ci) = .error "tailcat address is too large" := by
  have hlen : (c.toBase64 (c.toCbor (.map (addrFields ci)))).utf8ByteSize >
      Codec.maxAddressBytes * 4 / 3 + 4 := by
    rw [Codec.Fits, Codec.encodeAddr, String.utf8ByteSize_append] at h
    have h2 : "tc".utf8ByteSize = 2 := rfl
    omega
  simp only [Codec.parseAddr, Codec.decodeAddr, Codec.encodeAddr, stripPrefix_append, if_pos hlen]
  rfl

/-- An address keeps a relay if and only if it fits and one of its regions had one. -/
theorem keepsRelay_encodeAddr (hc : c.Lawful) (ci : ConnInfo) :
    c.KeepsRelay (c.encodeAddr ci) ↔
      Codec.Fits (c.encodeAddr ci) ∧ ∃ r ∈ ci.region, r.relays ≠ [] := by
  by_cases hfit : Codec.Fits (c.encodeAddr ci)
  · have hparse : c.parseAddr (c.encodeAddr ci) = .ok (norm ci) := by
      rw [Codec.parseAddr, decodeAddr_encodeAddr hc hfit]
      exact parseValue_addrFields ci
    have hregion : (∃ r ∈ (norm ci).region, r.nodes ≠ []) ↔ ∃ r ∈ ci.region, r.relays ≠ [] := by
      constructor
      · rintro ⟨r, hr, hn⟩
        obtain ⟨i, hi, rfl⟩ := List.mem_mapIdx.1 hr
        exact ⟨_, List.getElem_mem hi, (normRegion_nodes_ne_nil _ _).1 hn⟩
      · rintro ⟨r, hr, hn⟩
        obtain ⟨i, hi, rfl⟩ := List.mem_iff_getElem.1 hr
        exact ⟨_, List.mem_mapIdx.2 ⟨i, hi, rfl⟩, (normRegion_nodes_ne_nil _ _).2 hn⟩
    constructor
    · rintro ⟨info, hinfo, hr⟩
      obtain rfl : norm ci = info := Except.ok.inj (hparse.symm.trans hinfo)
      exact ⟨hfit, hregion.1 hr⟩
    · rintro ⟨-, hr⟩
      exact ⟨norm ci, hparse, hregion.2 hr⟩
  · constructor
    · rintro ⟨info, hinfo, -⟩
      rw [parseAddr_encodeAddr_of_not_fits hfit] at hinfo
      cases hinfo
    · rintro ⟨h, -⟩
      exact absurd h hfit

/-- A shortened region has a relay if and only if one was among the nodes kept. -/
theorem relays_truncate (n : ℕ) (r : Region) :
    (r.truncate n).relays ≠ [] ↔ r.RelayWithin n := relays_ne_nil

/-- Rewriting the nodes of a region without touching what they are for keeps its relays. -/
theorem relays_of_map {r r' : Region} (f : Node → Node) (hf : ∀ n, (f n).stunOnly = n.stunOnly)
    (h : r'.nodes = r.nodes.map f) : r'.relays ≠ [] ↔ r.relays ≠ [] := by
  simp only [relays_ne_nil, h, List.mem_map]
  constructor
  · rintro ⟨-, ⟨n, hn, rfl⟩, h⟩
    exact ⟨n, hn, hf n ▸ h⟩
  · rintro ⟨n, hn, h⟩
    exact ⟨f n, ⟨n, hn, rfl⟩, (hf n).trans h⟩

/-- **When a published address keeps a usable relay.**  An address that `resolve_addr`, `serve` or
`genkey` builds by shortening the node list of a region is read back with a node to connect to if and
only if it fits the decoder's limit and one of the nodes kept, the first two (the first one for
`serve`), is not for STUN only. -/
theorem published_keepsRelay (hc : c.Lawful) (s : Surroundings) :
    (∀ addr ci expanded out, c.parseAddr addr = .ok ci → ci.region = [] →
      expand s ci = .ok expanded → c.resolveAddr s addr = .ok out →
      (c.KeepsRelay out ↔ Codec.Fits out ∧ ∃ r ∈ expanded.region, r.RelayWithin 2)) ∧
    (∀ presharedKey serverPublic disco region,
      let out := c.encodeAddr (serveInfo presharedKey serverPublic disco region)
      (c.KeepsRelay out ↔ Codec.Fits out ∧ region.RelayWithin 1)) ∧
    (∀ pub expanded ci, expand s pub = .ok expanded → embedDerpMap s pub = .ok ci →
      (c.KeepsRelay (c.encodeAddr ci) ↔
        Codec.Fits (c.encodeAddr ci) ∧ ∃ r ∈ expanded.region, r.RelayWithin 2)) := by
  refine ⟨?_, ?_, ?_⟩
  · intro addr ci expanded out hparse hregion hexpand hout
    simp only [Codec.resolveAddr, hparse, bind, Except.bind, hregion, ne_eq, not_true_eq_false,
      if_false, hexpand, Except.ok.injEq] at hout
    subst hout
    rw [keepsRelay_encodeAddr hc]
    simp only [List.mem_map, exists_exists_and_eq_and, relays_truncate]
  · intro presharedKey serverPublic disco region out
    rw [keepsRelay_encodeAddr hc]
    refine and_congr_right fun _ => ?_
    simp only [serveInfo, List.mem_singleton, exists_eq_left]
    exact (relays_of_map (fun n => { n with regionId := 0 }) (fun _ => rfl) rfl).trans
      (relays_truncate 1 { region with regionCode := "" })
  · intro pub expanded ci hexpand hci
    simp only [embedDerpMap, hexpand, bind, Except.bind, Except.ok.injEq] at hci
    subst hci
    rw [keepsRelay_encodeAddr hc]
    refine and_congr_right fun _ => ?_
    simp only [List.mem_map, exists_exists_and_eq_and]
    refine exists_congr fun r => and_congr_right fun _ => ?_
    exact (relays_of_map (fun n => { n with ipv6 := "" }) (fun _ => rfl) rfl).trans
      (relays_truncate 2 r)

/-! ### A region that starts with nodes for STUN only -/

/-- A region whose third node is the first relay. -/
def sampleRegion (stun : ℕ) : Region where
  regionId := 7
  nodes := List.replicate stun { name := "s", stunOnly := true } ++ [{ hostName := "relay" }]

/-- A DERP map with one region. -/
def sampleMap (stun : ℕ) : Surroundings where
  fetchDerpMap := .ok { regions := [(7, sampleRegion stun)] }

/-- A server in region 7. -/
def sampleServer : ConnInfo where
  serverPublic := sampleKey
  regionId := 7

/-- The sample server's info with its region. -/
def sampleExpanded (stun : ℕ) : ConnInfo := { sampleServer with region := [sampleRegion stun] }

/-- A relay behind one node for STUN only is kept by `resolve_addr` and by `genkey`. -/
theorem published_keepsRelay_sample :
    (∃ out, standard.resolveAddr (sampleMap 1) (standard.encodeAddr sampleServer) = .ok out ∧
      standard.KeepsRelay out) ∧
    (∃ ci, embedDerpMap (sampleMap 1) sampleServer = .ok ci ∧
      standard.KeepsRelay (standard.encodeAddr ci)) := by
  have hpub := published_keepsRelay standard_lawful (sampleMap 1)
  have hout : standard.resolveAddr (sampleMap 1) (standard.encodeAddr sampleServer) =
      .ok (standard.encodeAddr { sampleServer with region := [(sampleRegion 1).truncate 2], regionId := 0 }) := by
    decide +kernel
  have hparse : standard.parseAddr (standard.encodeAddr sampleServer) = .ok sampleServer := by
    decide +kernel
  refine ⟨⟨_, hout, (hpub.1 _ _ (sampleExpanded 1) _ hparse rfl rfl hout).2 ?_⟩, ⟨_, rfl, (hpub.2.2 sampleServer (sampleExpanded 1) _ rfl rfl).2 ?_⟩⟩
  · exact ⟨by decide +kernel, sampleRegion 1, by decide +kernel, by decide +kernel⟩
  · exact ⟨by decide +kernel, sampleRegion 1, by decide +kernel, by decide +kernel⟩

/-- Each publisher loses the relay of some region: `serve` behind one node for STUN only, the other
two behind two of them. -/
theorem published_loses_relay :
    ((sampleRegion 1).relays ≠ [] ∧ ¬standard.KeepsRelay
      (standard.encodeAddr (serveInfo none sampleKey sampleKey (sampleRegion 1)))) ∧
    ((sampleRegion 2).relays ≠ [] ∧
      (∃ out, standard.resolveAddr (sampleMap 2) (standard.encodeAddr sampleServer) = .ok out ∧
        ¬standard.KeepsRelay out) ∧
      (∃ ci, embedDerpMap (sampleMap 2) sampleServer = .ok ci ∧
        ¬standard.KeepsRelay (standard.encodeAddr ci))) := by
  have hout : standard.resolveAddr (sampleMap 2) (standard.encodeAddr sampleServer) =
      .ok (standard.encodeAddr { sampleServer with region := [(sampleRegion 2).truncate 2], regionId := 0 }) := by
    decide +kernel
  have loses : ∀ ci : ConnInfo, ¬(∃ r ∈ ci.region, r.relays ≠ []) →
      ¬standard.KeepsRelay (standard.encodeAddr ci) := fun ci h hkeep =>
    h ((keepsRelay_encodeAddr standard_lawful ci).1 hkeep).2
  exact ⟨⟨by decide, loses _ (by decide)⟩, by decide, ⟨_, hout, loses _ (by decide)⟩,
    ⟨_, rfl, loses _ (by decide)⟩⟩

end Tailcat.Protocol
