import Tailcat.Protocol.Publish

/-!
# Where a listener and a dialer meet

A listener connects to a relay of one region and publishes an address.  A dialer parses the address,
expands it with the same DERP map, and connects to a relay of the region that it gets.

* `reaches_iff` : which addresses lead every dialer to the listener's region.
* `listen_reaches_iff` : when the address a listener publishes does.
* `browser_keeps_auto` : a browser listener with a saved key for any region publishes an address
  for any region.

Both sides choose a region by the same functions, the listener before it publishes the address and
the dialer when it has expanded it with the map.  An address names a region, carries its nodes, or
leaves the choice open; in the last case each side measures for itself, and a choice by measuring is
a parameter that nothing is assumed of.  So an address leads every dialer to the region only if no
measuring is left to it (`Leads`), and if it is short enough to be parsed (`Codec.Fits`).
-/

namespace Tailcat.Protocol

/-! ### Listeners -/

/-- The public half of a listener's identity. -/
structure Identity where
  serverPublic : Key
  disco : Key
  presharedKey : Option Key

/-- `expand` of the browser. -/
def expandInBrowser (s : Surroundings) (ci : ConnInfo) : Except String ConnInfo :=
  if ci.region ≠ [] then .ok ci
  else if ci.regionId = 0 then .error "no DERP region in tailcat address"
  else do
    let map ← s.fetchDerpMap
    let id ←
      if ci.regionId = -1 then
        match map.regions.head? with
        | some (id, _) => .ok id
        | none => .error "DERP map has no regions"
      else .ok ci.regionId
    match map.regions.lookup id with
    | some r => .ok { ci with region := [r], regionId := if ci.regionId = -1 then 0 else ci.regionId }
    | none => .error s!"DERP region {id.toInt} does not exist"

/-- The info of a server before it is expanded. -/
def serverInfo (who : Identity) (region : Option Region) (regionId : Int64) : ConnInfo where
  presharedKey := who.presharedKey
  serverPublic := who.serverPublic
  serverDiscoPublic := some who.disco
  region := region.toList
  regionId := if regionId = 0 then -1 else regionId

/-- `Server::start`: the region the server connects to, and what `tailcat_addr` encodes. -/
def serverStart (s : Surroundings) (who : Identity) (region : Option Region) (regionId : Int64) :
    Except String (Region × ConnInfo) := do
  let info ← expand s (serverInfo who region regionId)
  match info.region with
  | region :: _ => .ok (region, info)
  | [] => .error "server has no DERP region"

/-- `serve` publishes its region itself. -/
def embeds (fullAddress : Bool) (localRelay : Option Region) (saved : Option ConnInfo) : Bool :=
  fullAddress || (saved.getD {}).region ≠ [] || localRelay.isSome

/-- `serve`: the region of its server, and what it publishes. -/
def serve (s : Surroundings) (who : Identity) (fullAddress : Bool) (localRelay : Option Region)
    (saved : Option ConnInfo) : Except String (Region × ConnInfo) := do
  let info := saved.getD { regionId := -1 }
  let (region, _) ← serverStart s who (localRelay.or info.region.head?) info.regionId
  .ok (region,
    if embeds fullAddress localRelay saved then
      serveInfo who.presharedKey who.serverPublic who.disco region
    else
      { presharedKey := who.presharedKey
        serverPublic := who.serverPublic
        serverDiscoPublic := some who.disco
        regionId := region.regionId })

/-- `listen` of the browser: the region of its engine, and what it publishes. -/
def listenInBrowser (s : Surroundings) (who : Identity) (saved : Option ConnInfo) :
    Except String (Region × ConnInfo) := do
  let pub := saved.getD { presharedKey := who.presharedKey, regionId := -1 }
  let pub := { pub with serverPublic := who.serverPublic, serverDiscoPublic := some who.disco }
  let ci ← expandInBrowser s pub
  match ci.region with
  | region :: _ => .ok (region, if saved.isNone then { pub with regionId := region.regionId } else pub)
  | [] => .error "index out of bounds"

/-- Who listens, and with what settings. -/
inductive Listener
  /-- `Server::start` and `tailcat_addr`. -/
  | server (region : Option Region) (regionId : Int64)
  | serve (fullAddress : Bool) (localRelay : Option Region) (saved : Option ConnInfo)
  | browser (saved : Option ConnInfo)

/-- The region a listener is on, and what it publishes. -/
def Listener.listen (s : Surroundings) (who : Identity) :
    Listener → Except String (Region × ConnInfo)
  | .server region regionId => serverStart s who region regionId
  | .serve fullAddress localRelay saved => Protocol.serve s who fullAddress localRelay saved
  | .browser saved => listenInBrowser s who saved

/-! ### Dialers -/

/-- Who dials. -/
inductive Dialer
  | native
  | browser

/-- Expand what an address says. -/
def Dialer.expand (s : Surroundings) : Dialer → ConnInfo → Except String ConnInfo
  | .native => Protocol.expand s
  | .browser => expandInBrowser s

/-- A node without the names that tell nothing about where it is. -/
def Node.endpoint (n : Node) : Node := { n with name := "", regionId := 0 }

/-- Where the relays of a region are. -/
def Region.endpoints (r : Region) : List Node := r.relays.map Node.endpoint

/-- A region has relays, and all of them are relays of another region. -/
def Region.IsWithin (r region : Region) : Prop :=
  r.endpoints ≠ [] ∧ ∀ n ∈ r.endpoints, n ∈ region.endpoints

instance (r region : Region) : Decidable (r.IsWithin region) :=
  inferInstanceAs (Decidable (_ ∧ _))

/-- A peer sees a DERP map, and may select any of its regions. -/
structure Surroundings.Sees (s : Surroundings) (dm : DerpMap) : Prop where
  fetch : s.fetchDerpMap = .ok dm
  shuffle : ∀ nodes, (s.shuffle nodes).Perm nodes
  pick : ∀ map : DerpMap, map.regions ≠ [] → ∃ r, map.regions.lookup (s.pickBestRegion map) = some r

/-- What a dialer gets has one region, within another. -/
def ComesTo (region : Region) (result : Except String ConnInfo) : Prop :=
  ∃ expanded r, result = .ok expanded ∧ expanded.region = [r] ∧ r.IsWithin region

/-- A dialer with an address comes to a region. -/
def Codec.Reaches (c : Codec) (s : Surroundings) (dialer : Dialer) (addr : String)
    (region : Region) : Prop :=
  ∃ ci, c.parseAddr addr = .ok ci ∧ ComesTo region (dialer.expand s ci)

/-- Every dialer that sees the map comes to a region. -/
def Codec.AllReach (c : Codec) (dm : DerpMap) (addr : String) (region : Region) : Prop :=
  ∀ s : Surroundings, s.Sees dm → ∀ dialer, c.Reaches s dialer addr region

/-! ### Where an address leads -/

/-- A region identifier leads to a region, by any selection if it is -1. -/
def Resolves (dm : DerpMap) (id : Int64) (region : Region) : Prop :=
  id ≠ 0 ∧ if id = -1 then dm.regions ≠ [] ∧ ∀ k r, dm.regions.lookup k = some r → r.IsWithin region
    else ∃ r, dm.regions.lookup id = some r ∧ r.IsWithin region

/-- What is published leads to a region. -/
def Leads (dm : DerpMap) (pub : ConnInfo) (region : Region) : Prop :=
  match pub.region with
  | [] => Resolves dm pub.regionId region
  | [r] => r.IsWithin region
  | _ => False

variable {c : Codec} {s : Surroundings} {dm : DerpMap} {r r' region : Region} {ci pub : ConnInfo}
  {dialer : Dialer}

theorem isWithin_self : region.IsWithin region ↔ region.relays ≠ [] := by
  simp [Region.IsWithin, Region.endpoints]

theorem isWithin_of_perm (h : r.endpoints.Perm r'.endpoints) :
    r.IsWithin region ↔ r'.IsWithin region := by
  have hnil : r.endpoints ≠ [] ↔ r'.endpoints ≠ [] := by
    rw [← List.length_pos_iff, ← List.length_pos_iff, h.length_eq]
  exact and_congr hnil (forall_congr' fun n => by rw [h.mem_iff])

/-- An address keeps where the relays are. -/
theorem endpoints_normRegion (ri : ℕ) (r : Region) : (normRegion ri r).endpoints = r.endpoints := by
  have hrelays : (normRegion ri r).relays = r.relays.map (normNode (implicitId ri)) := by
    rw [Region.relays, normRegion, List.filter_eq_self.2]
    · rfl
    · intro n hn
      obtain ⟨m, -, rfl⟩ := List.mem_map.1 hn
      rfl
  rw [Region.endpoints, hrelays, List.map_map, Region.endpoints]
  refine List.map_congr_left fun n hn => ?_
  have hrelay : n.stunOnly = false := by simpa using (List.mem_filter.1 hn).2
  simp [Node.endpoint, normNode, hrelay]

/-- A change of the names of nodes keeps where they are. -/
theorem endpoints_of_map {f : Node → Node} (hstun : ∀ n, (f n).stunOnly = n.stunOnly)
    (hf : ∀ n, (f n).endpoint = n.endpoint) (h : r'.nodes = r.nodes.map f) :
    r'.endpoints = r.endpoints := by
  have hcomp : ((fun n : Node => !n.stunOnly) ∘ f) = fun n => !n.stunOnly := by
    funext n
    simp only [Function.comp_apply, hstun]
  rw [Region.endpoints, Region.relays, h, List.filter_map, hcomp, List.map_map]
  exact List.map_congr_left fun n _ => hf n

theorem endpoints_fillIds (r : Region) : r.fillIds.endpoints = r.endpoints := by
  refine endpoints_of_map (f := fun n =>
    if n.regionId = 0 then { n with regionId := if r.regionId = 0 then 1 else r.regionId } else n)
    (fun n => ?_) (fun n => ?_) rfl
  · split_ifs <;> rfl
  · split_ifs <;> rfl

/-- The first nodes of a region are within it if one of them is a relay. -/
theorem isWithin_truncate (n : ℕ) (region : Region) :
    (region.truncate n).IsWithin region ↔ region.RelayWithin n := by
  rw [← relays_truncate, ← isWithin_self]
  refine and_congr_right fun _ => iff_of_true (fun m hm => ?_) fun m hm => hm
  exact (((List.take_sublist n region.nodes).filter _).map _).subset hm

theorem endpoints_shuffle (hs : s.Sees dm) (r : Region) :
    (Region.endpoints { r with nodes := s.shuffle r.nodes }).Perm r.endpoints :=
  ((hs.shuffle r.nodes).filter _).map _

/-- A dialer keeps the regions that an address has. -/
theorem expand_of_region (dialer : Dialer) (s : Surroundings) (h : ci.region ≠ []) : ∃ f : Region → Region,
    (∀ r, (f r).endpoints = r.endpoints) ∧
      dialer.expand s ci = .ok { ci with region := ci.region.map f } := by
  cases dialer with
  | native =>
    refine ⟨Region.fillIds, endpoints_fillIds, ?_⟩
    simp only [Dialer.expand, expand]
    rw [if_pos (.inl (by simpa using h))]
  | browser =>
    refine ⟨id, fun _ => rfl, ?_⟩
    simp only [Dialer.expand, expandInBrowser]
    rw [if_pos h, List.map_id]

/-- The region of the map that a dialer selects. -/
def Dialer.selects (s : Surroundings) (dm : DerpMap) : Dialer → Option Region
  | .native =>
    dm.regions.lookup (s.pickBestRegion { dm with
      regions := dm.regions.map fun kr => (kr.1, { kr.2 with nodes := s.shuffle kr.2.nodes }) })
  | .browser => (dm.regions.head?).map (·.2)

theorem lookup_map_snd {α β γ : Type*} [BEq α] (f : β → γ) (l : List (α × β)) (k : α) :
    (l.map fun kv => (kv.1, f kv.2)).lookup k = (l.lookup k).map f := by
  induction l with
  | nil => rfl
  | cons kv l ih =>
    obtain ⟨k', x⟩ := kv
    rw [List.map_cons, List.lookup_cons, List.lookup_cons]
    cases k == k'
    · exact ih
    · rfl

theorem comesTo_ok (h : ci.region = [r]) : ComesTo region (.ok ci) ↔ r.IsWithin region := by
  constructor
  · rintro ⟨expanded, r', hexpand, hregion, hwithin⟩
    cases hexpand
    obtain rfl : r' = r := by
      have hsame := hregion.symm.trans h
      exact (List.cons.inj hsame).1
    exact hwithin
  · exact fun hwithin => ⟨ci, r, rfl, h, hwithin⟩

theorem not_comesTo_ok (h : ∀ r, ci.region ≠ [r]) : ¬ComesTo region (.ok ci) := by
  rintro ⟨expanded, r, hexpand, hregion, -⟩
  cases hexpand
  exact h r hregion

theorem not_comesTo_error {error : String} : ¬ComesTo region (.error error) := by
  rintro ⟨expanded, r, hexpand, -⟩
  cases hexpand

/-- A dialer gets the region that the identifier in the address leads to. -/
theorem expand_of_nil (hs : s.Sees dm) (h : ci.region = []) :
    ComesTo region (dialer.expand s ci) ↔ ci.regionId ≠ 0 ∧ ∃ r, (if ci.regionId = -1 then dialer.selects s dm
        else dm.regions.lookup ci.regionId) = some r ∧ r.IsWithin region := by
  cases dialer with
  | native =>
    simp only [Dialer.expand, expand, h, List.map_nil, ne_eq, not_true_eq_false, false_or, hs.fetch,
      bind, Except.bind]
    by_cases hzero : ci.regionId = 0
    · rw [if_pos hzero]
      exact iff_of_false (not_comesTo_ok fun r => nofun) fun hne => hne.1 hzero
    · rw [if_neg hzero, and_iff_right hzero]
      -- a region of its own choice, or the one that is named
      by_cases hauto : ci.regionId = -1
      · simp only [if_pos hauto, Dialer.selects]
        generalize s.pickBestRegion _ = k
        have hlookup := lookup_map_snd (fun r : Region => { r with nodes := s.shuffle r.nodes })
          dm.regions k
        rw [hlookup]
        split_ifs with hempty
        · refine iff_of_false not_comesTo_error ?_
          rintro ⟨r, hr, -⟩
          rw [hempty] at hr
          cases hr
        · cases dm.regions.lookup _ with
          | none => exact iff_of_false not_comesTo_error nofun
          | some r =>
            refine (comesTo_ok rfl).trans ((isWithin_of_perm (endpoints_shuffle hs r)).trans ?_)
            simp
      · rw [if_neg hauto, if_neg hauto]
        cases dm.regions.lookup _ with
        | none => exact iff_of_false not_comesTo_error nofun
        | some r =>
          refine (comesTo_ok rfl).trans ?_
          simp
  | browser =>
    simp only [Dialer.expand, expandInBrowser, h, ne_eq, not_true_eq_false, if_false, hs.fetch,
      bind, Except.bind]
    by_cases hzero : ci.regionId = 0
    · rw [if_pos hzero]
      exact iff_of_false not_comesTo_error fun hne => hne.1 hzero
    · rw [if_neg hzero, and_iff_right hzero]
      by_cases hauto : ci.regionId = -1
      · simp only [if_pos hauto, Dialer.selects]
        cases dm.regions with
        | nil => exact iff_of_false not_comesTo_error (by simp)
        | cons kr regions =>
          obtain ⟨k, r⟩ := kr
          simp only [List.head?_cons, List.lookup_cons_self]
          refine (comesTo_ok rfl).trans ?_
          simp
      · simp only [if_neg hauto]
        cases dm.regions.lookup _ with
        | none => exact iff_of_false not_comesTo_error (by simp)
        | some r =>
          refine (comesTo_ok rfl).trans ?_
          simp

/-- A peer that selects a region, if there is one with this identifier. -/
def selecting (dm : DerpMap) (k : Int64) : Surroundings where
  fetchDerpMap := .ok dm
  pickBestRegion map :=
    if (map.regions.lookup k).isSome then k else ((map.regions.head?).map (·.1)).getD 0

theorem sees_selecting (dm : DerpMap) (k : Int64) : (selecting dm k).Sees dm where
  fetch := rfl
  shuffle _ := .refl _
  pick map hmap := by
    simp only [selecting]
    split_ifs with hk
    · exact Option.isSome_iff_exists.1 hk
    · cases hregions : map.regions with
      | nil => exact absurd hregions hmap
      | cons kr regions =>
        obtain ⟨k', r⟩ := kr
        exact ⟨r, List.lookup_cons_self⟩

theorem selects_selecting {k : Int64} (h : dm.regions.lookup k = some r) :
    Dialer.native.selects (selecting dm k) dm = some r := by
  have hlookup := lookup_map_snd (fun r : Region => { r with nodes := id r.nodes }) dm.regions k
  simp only [Dialer.selects, selecting]
  rw [hlookup, h]
  exact h

/-- What every dialer selects is a region of the map. -/
theorem selects_eq_some (hs : s.Sees dm) (hmap : dm.regions ≠ []) (dialer : Dialer) :
    ∃ k r, dialer.selects s dm = some r ∧ dm.regions.lookup k = some r := by
  cases dialer with
  | native =>
    obtain ⟨r, hr⟩ := hs.pick { dm with
      regions := dm.regions.map fun kr => (kr.1, { kr.2 with nodes := s.shuffle kr.2.nodes }) }
      (by simpa using hmap)
    have hlookup := lookup_map_snd (fun r : Region => { r with nodes := s.shuffle r.nodes })
      dm.regions (s.pickBestRegion { dm with
        regions := dm.regions.map fun kr => (kr.1, { kr.2 with nodes := s.shuffle kr.2.nodes }) })
    obtain ⟨r', hr', -⟩ := Option.map_eq_some_iff.1 (hlookup.symm.trans hr)
    exact ⟨_, r', hr', hr'⟩
  | browser =>
    cases hregions : dm.regions with
    | nil => exact absurd hregions hmap
    | cons kr regions =>
      obtain ⟨k, r⟩ := kr
      refine ⟨k, r, ?_, List.lookup_cons_self⟩
      rw [Dialer.selects, hregions]
      rfl

/-- An identifier resolves if and only if every dialer gets the region it leads to. -/
theorem resolves_iff (h : ci.region = []) :
    (∀ s : Surroundings, s.Sees dm → ∀ dialer : Dialer, ComesTo region (dialer.expand s ci)) ↔
      Resolves dm ci.regionId region := by
  by_cases hauto : ci.regionId = -1
  · constructor
    · intro hall
      have hfirst := (expand_of_nil (sees_selecting dm 0) h).1
        (hall _ (sees_selecting dm 0) .browser)
      obtain ⟨hzero, r, hr, -⟩ := hfirst
      refine ⟨hzero, ?_⟩
      rw [if_pos hauto] at hr ⊢
      refine ⟨fun hmap => ?_, fun k r' hr' => ?_⟩
      · rw [Dialer.selects, hmap] at hr
        cases hr
      · obtain ⟨-, r'', hselect, hwithin⟩ := (expand_of_nil (sees_selecting dm k) h).1
          (hall _ (sees_selecting dm k) .native)
        rw [if_pos hauto, selects_selecting hr'] at hselect
        cases hselect
        exact hwithin
    · rintro ⟨hzero, hall⟩ s hs dialer
      rw [if_pos hauto] at hall
      obtain ⟨k, r, hselect, hr⟩ := selects_eq_some hs hall.1 dialer
      refine (expand_of_nil hs h).2 ⟨hzero, r, ?_, hall.2 k r hr⟩
      rw [if_pos hauto, hselect]
  · constructor
    · intro hall
      obtain ⟨hzero, r, hr, hwithin⟩ := (expand_of_nil (sees_selecting dm 0) h).1
        (hall _ (sees_selecting dm 0) .native)
      rw [if_neg hauto] at hr
      refine ⟨hzero, ?_⟩
      rw [if_neg hauto]
      exact ⟨r, hr, hwithin⟩
    · rintro ⟨hzero, hall⟩ s hs dialer
      rw [if_neg hauto] at hall
      obtain ⟨r, hr, hwithin⟩ := hall
      refine (expand_of_nil hs h).2 ⟨hzero, r, ?_, hwithin⟩
      rw [if_neg hauto, hr]

theorem allReach_iff_of_parse {addr : String} (h : c.parseAddr addr = .ok ci) :
    c.AllReach dm addr region ↔
      ∀ s : Surroundings, s.Sees dm → ∀ dialer : Dialer, ComesTo region (dialer.expand s ci) := by
  refine forall_congr' fun s => imp_congr_right fun _ => forall_congr' fun dialer => ?_
  constructor
  · rintro ⟨ci', hparse, hcomes⟩
    obtain rfl : ci' = ci := Except.ok.inj (hparse.symm.trans h)
    exact hcomes
  · exact fun hcomes => ⟨ci, h, hcomes⟩

/-- **Which addresses lead to a region**: those that fit, and have one region that is within it or
an identifier that resolves to it. -/
theorem reaches_iff (hc : c.Lawful) (dm : DerpMap) (pub : ConnInfo) (region : Region) :
    c.AllReach dm (c.encodeAddr pub) region ↔
      Codec.Fits (c.encodeAddr pub) ∧ Leads dm pub region := by
  by_cases hfit : Codec.Fits (c.encodeAddr pub)
  · have hparse := (parseAddr_encodeAddr hc pub hfit).1
    rw [allReach_iff_of_parse hparse, and_iff_right hfit]
    have hnorm : (norm pub).region = pub.region.mapIdx normRegion := rfl
    unfold Leads
    split
    · rename_i hregion
      rw [hregion, List.mapIdx_nil] at hnorm
      exact resolves_iff hnorm
    · rename_i r hregion
      rw [hregion] at hnorm
      have hone : (norm pub).region = [normRegion 0 r] := hnorm
      constructor
      · intro hall
        obtain ⟨f, hf, hexpand⟩ := expand_of_region .browser (selecting dm 0)
          (show (norm pub).region ≠ [] by rw [hone]; exact List.cons_ne_nil _ _)
        have hcomes := hall _ (sees_selecting dm 0) .browser
        rw [hexpand, comesTo_ok (r := f (normRegion 0 r)) (by rw [hone]; rfl)] at hcomes
        exact (isWithin_of_perm (by rw [hf, endpoints_normRegion])).1 hcomes
      · intro hwithin s hs dialer
        obtain ⟨f, hf, hexpand⟩ := expand_of_region dialer s
          (show (norm pub).region ≠ [] by rw [hone]; exact List.cons_ne_nil _ _)
        rw [hexpand, comesTo_ok (r := f (normRegion 0 r)) (by rw [hone]; rfl)]
        exact (isWithin_of_perm (by rw [hf, endpoints_normRegion])).2 hwithin
    · rename_i hnil hone
      refine iff_of_false (fun hall => ?_) id
      obtain ⟨f, -, hexpand⟩ := expand_of_region .browser (selecting dm 0)
        (show (norm pub).region ≠ [] by rw [hnorm]; simpa using hnil)
      have hcomes := hall _ (sees_selecting dm 0) .browser
      rw [hexpand] at hcomes
      refine not_comesTo_ok (fun r hr => ?_) hcomes
      have hlength := congrArg List.length hr
      simp only [hnorm, List.length_map, List.length_mapIdx, List.length_singleton] at hlength
      obtain ⟨r', hr'⟩ := List.length_eq_one_iff.1 hlength
      exact hone r' hr'
  -- an address that does not fit cannot be parsed
  · refine iff_of_false (fun hall => ?_) fun h => hfit h.1
    obtain ⟨ci, hparse, -⟩ := hall _ (sees_selecting dm 0) .browser
    rw [parseAddr_encodeAddr_of_not_fits hfit] at hparse
    cases hparse

/-! ### What listeners publish -/

/-- What a listener publishes leads to its region:
a server's own info has the region;
`serve` publishes the first node of the region, or its identifier;
the browser publishes the identifier of the region for a new key, and a saved key as it is. -/
def Listener.Publishes (dm : DerpMap) (region : Region) : Listener → Prop
  | .server _ _ => True
  | .serve fullAddress localRelay saved =>
    if embeds fullAddress localRelay saved then region.RelayWithin 1
    else Resolves dm region.regionId region
  | .browser none => Resolves dm region.regionId region
  | .browser (some saved) =>
    match saved.region with
    | [] => saved.regionId = -1 → Resolves dm (-1) region
    | [_] => True
    | _ => False

variable {who : Identity}

/-- An info with at most one region gets at most one. -/
theorem length_region_expand {o : Option Region} {expanded : ConnInfo} (hregion : ci.region = o.toList)
    (h : expand s ci = .ok expanded) : expanded.region.length ≤ 1 := by
  unfold expand at h
  simp only [hregion] at h
  cases o with
  | some r =>
    rw [if_pos (.inl (List.cons_ne_nil _ _))] at h
    cases h
    exact Nat.le_refl 1
  | none =>
    simp only [Option.toList_none, List.map_nil, ne_eq, not_true_eq_false, false_or,
      List.nil_append] at h
    by_cases hzero : ci.regionId = 0
    · rw [if_pos hzero] at h
      cases h
      exact Nat.zero_le 1
    · rw [if_neg hzero] at h
      cases hfetch : s.fetchDerpMap with
      | error err =>
        rw [hfetch] at h
        cases h
      | ok dm =>
        simp only [hfetch, bind, Except.bind] at h
        split_ifs at h
        · split at h
          · cases h
            exact Nat.le_refl 1
          · cases h
        · split at h
          · cases h
            exact Nat.le_refl 1
          · cases h

/-- A server publishes the one region it is on. -/
theorem region_of_serverStart {o : Option Region} {id : Int64}
    (h : serverStart s who o id = .ok (region, pub)) : pub.region = [region] := by
  unfold serverStart at h
  cases hexpand : expand s (serverInfo who o id) with
  | error err =>
    rw [hexpand] at h
    cases h
  | ok expanded =>
    have hone := length_region_expand (o := o) rfl hexpand
    rw [hexpand] at h
    simp only [bind, Except.bind] at h
    split at h
    · rename_i r rest hrest
      cases h
      rw [hrest] at hone ⊢
      cases rest with
      | nil => rfl
      | cons r' rest => simp at hone
    · cases h

/-- The first node of a region leads to it if it is a relay. -/
theorem leads_serveInfo (presharedKey : Option Key) (serverPublic disco : Key) :
    Leads dm (serveInfo presharedKey serverPublic disco region) region ↔ region.RelayWithin 1 := by
  rw [← isWithin_truncate]
  refine isWithin_of_perm (.of_eq ?_)
  exact endpoints_of_map (f := fun n => { n with regionId := 0 }) (fun _ => rfl) (fun _ => rfl) rfl

/-- The identifier that leads the browser to a region leads others to it, unless it is -1. -/
theorem resolves_of_expandInBrowser (hs : s.fetchDerpMap = .ok dm) (ci : ConnInfo)
    (hregion : ci.region = []) {expanded : ConnInfo} {rest : List Region} (h : expandInBrowser s ci = .ok expanded)
    (hexpanded : expanded.region = region :: rest) (hrelay : region.relays ≠ [])
    (hauto : ci.regionId ≠ -1) : Resolves dm ci.regionId region := by
  simp only [expandInBrowser, hregion, ne_eq, not_true_eq_false, if_false] at h
  split_ifs at h with hzero
  refine ⟨hzero, ?_⟩
  rw [if_neg hauto]
  simp only [hs, bind, Except.bind] at h
  split at h
  · rename_i r hr
    cases h
    cases hexpanded
    exact ⟨region, hr, isWithin_self.2 hrelay⟩
  · cases h

/-- **Where the address of a listener leads**: every dialer with the same DERP map comes to a relay
of the listener's region if and only if the address fits and has that region's relays, or an
identifier that resolves to them. -/
theorem listen_reaches_iff (hc : c.Lawful) (listener : Listener) (hs : s.fetchDerpMap = .ok dm)
    (h : listener.listen s who = .ok (region, pub)) (hrelay : region.relays ≠ []) :
    c.AllReach dm (c.encodeAddr pub) region ↔
      Codec.Fits (c.encodeAddr pub) ∧ listener.Publishes dm region := by
  rw [reaches_iff hc]
  refine and_congr_right fun _ => ?_
  cases listener with
  -- the region itself is in the address
  | server o id =>
    have hone : pub.region = [region] := region_of_serverStart h
    simp only [Leads, hone, Listener.Publishes, iff_true]
    exact isWithin_self.2 hrelay
  -- the region is embedded, or its identifier is given
  | serve fullAddress localRelay saved =>
    simp only [Listener.listen, serve] at h
    cases hstart : serverStart s who (localRelay.or (saved.getD { regionId := -1 }).region.head?)
        (saved.getD { regionId := -1 }).regionId with
    | error err =>
      rw [hstart] at h
      cases h
    | ok started =>
      simp only [hstart, bind, Except.bind] at h
      cases h
      simp only [Listener.Publishes]
      split_ifs with hembed
      · exact leads_serveInfo _ _ _
      · exact Iff.rfl
  -- the address is that of the saved key, expanded for the listener alone
  | browser saved =>
    simp only [Listener.listen, listenInBrowser] at h
    generalize hpub : saved.getD { presharedKey := who.presharedKey, regionId := -1 } = base at h
    cases hexpand : expandInBrowser s { base with
        serverPublic := who.serverPublic, serverDiscoPublic := some who.disco } with
    | error err =>
      rw [hexpand] at h
      cases h
    | ok expanded =>
      simp only [hexpand, bind, Except.bind] at h
      split at h
      · rename_i r rest hrest
        cases h
        cases saved with
        | none =>
          obtain rfl : _ = base := hpub
          exact Iff.rfl
        | some saved =>
          obtain rfl : saved = base := hpub
          simp only [Listener.Publishes, Option.isNone_some, Bool.false_eq_true, if_false, Leads]
          cases hregion : saved.region with
          | nil =>
            simp only
            by_cases hauto : saved.regionId = -1
            · simp only [hauto, true_imp_iff]
            · refine iff_of_true ?_ fun heq => absurd heq hauto
              let full : ConnInfo :=
                { saved with serverPublic := who.serverPublic, serverDiscoPublic := some who.disco }
              exact resolves_of_expandInBrowser hs full hregion hexpand hrest hrelay hauto
          | cons r rest' =>
            have hkeep : expanded.region = saved.region := by
              unfold expandInBrowser at hexpand
              rw [if_pos (by simp [hregion])] at hexpand
              cases hexpand
              rfl
            have hsame := hrest.symm.trans (hkeep.trans hregion)
            cases hsame
            cases rest with
            | nil =>
              simp only [iff_true]
              exact isWithin_self.2 hrelay
            | cons r' rest => exact Iff.rfl
      · cases h

/-- A DERP map with two regions. -/
def twoRegions : DerpMap where
  regions := [(1, { regionId := 1, nodes := [{ hostName := "one" }] }),
    (2, { regionId := 2, nodes := [{ hostName := "two" }] })]

/-- A listener with the sample key. -/
def sampleIdentity : Identity where
  serverPublic := sampleKey
  disco := sampleKey
  presharedKey := none

/-- A listener with the sample key on the second region, and its address by that identifier. -/
theorem listen_reaches_iff_sample :
    let pub : ConnInfo :=
      { serverPublic := sampleKey, serverDiscoPublic := some sampleKey, regionId := 2 }
    standard.AllReach twoRegions (standard.encodeAddr pub)
      { regionId := 2, nodes := [{ hostName := "two" }] } := by
  intro pub
  have hlisten : (Listener.serve false none none).listen (selecting twoRegions 2) sampleIdentity =
      .ok ({ regionId := 2, nodes := [{ hostName := "two" }] }, pub) := by rfl
  refine (listen_reaches_iff standard_lawful (.serve false none none) rfl hlisten (by decide)).2
    ⟨by decide +kernel, ?_⟩
  exact ⟨by decide, ⟨_, rfl, by decide⟩⟩

/-- A saved key for any region is published for any region, and a dialer that selects another one
than the browser comes to a region without the listener's relay. -/
theorem browser_keeps_auto :
    let region : Region := { regionId := 1, nodes := [{ hostName := "one" }] }
    ∃ pub, (Listener.browser (some { serverPublic := sampleKey, regionId := -1 })).listen
        (selecting twoRegions 1) sampleIdentity = .ok (region, pub) ∧
      (selecting twoRegions 2).Sees twoRegions ∧
      ¬standard.Reaches (selecting twoRegions 2) .native (standard.encodeAddr pub) region := by
  intro region
  refine ⟨_, rfl, sees_selecting twoRegions 2, ?_⟩
  rintro ⟨ci, hparse, hcomes⟩
  let auto : ConnInfo :=
    { serverPublic := sampleKey, serverDiscoPublic := some sampleKey, regionId := -1 }
  have hauto : standard.parseAddr (standard.encodeAddr auto) = .ok auto := by decide +kernel
  obtain rfl : auto = ci := Except.ok.inj (hauto.symm.trans hparse)
  obtain ⟨-, r, hr, hwithin⟩ := (expand_of_nil (sees_selecting twoRegions 2) rfl).1 hcomes
  obtain rfl : { regionId := 2, nodes := [{ hostName := "two" }] } = r := Option.some.inj hr
  exact absurd hwithin (by decide)

end Tailcat.Protocol
