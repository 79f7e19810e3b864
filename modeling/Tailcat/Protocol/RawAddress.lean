import Tailcat.Lib.Hex
import Tailcat.Lib.Json
import Tailcat.Lib.Program
import Tailcat.Protocol.AddressRoundTrip
import Mathlib.Data.List.Forall2

/-!
# The diagnostic decoder

`parseAddrRaw` shows an address as JSON, with null entries kept and implicit fields left out.  It
walks the same CBOR item as `parseAddr`, but reads one table of entries at every level, where
`parseAddr` reads at each level the entries that belong there.  `readConnInfo` reads the JSON as a
`ConnInfo` and `fill` adds the implicit fields.

* `Shown` : an item of which the table's entries can be read, recursively.
* `mirrors_convertEntries` : what the JSON of a map says about each entry of the table.
* `reads_region`, `reads_connInfo` : where both decoders accept, the JSON reads as the `ConnInfo`.
* `parseAddrRaw_agrees` : the decoders agree exactly on the addresses whose misplaced entries can
  be read too.
-/

namespace Tailcat.Protocol

open Cbor (Value)

/-! ### Converting to JSON -/

/-- The integer entries of the table, with their names in JSON. -/
def intNames : List (String × String) :=
  [("i", "RegionID"), ("s", "STUNPort"), ("d", "DERPPort")]

/-- The text entries of the table, with their names in JSON. -/
def textNames : List (String × String) :=
  [("c", "RegionCode"), ("m", "RegionName"), ("n", "Name"), ("h", "HostName"), ("t", "CertName"),
    ("4", "IPv4"), ("6", "IPv6")]

/-- The array entry of a level, with its name in JSON. -/
def arrayName (level : ℕ) : String × String := if level = 0 then ("r", "Region") else ("N", "Nodes")

section Table

variable {α : Type} [DecidableEq α] (read : Fields → String → Except String α) (absent : α)
  (shown : α → Json.Value) (fields : Fields)

/-- Insert the entries of a table, except those that are absent, null or as if absent. -/
def convertTable (names : List (String × String)) (out : Json.Members) :
    Except String Json.Members :=
  names.foldlM (fun out name => do
    let v ← read fields name.1
    return if v ≠ absent then Json.insert out name.2 (shown v) else out) out

end Table

/-- A key in JSON. -/
def keyText (kind : String) (key : Key) : Json.Value := .string (kind ++ Hex.encode key.1)

/-- Insert a key, if there is one. -/
def insertKey (out : Json.Members) (name kind : String) : Option Key → Json.Members
  | some key => Json.insert out name (keyText kind key)
  | none => out

/-- The keys of an address, all in the map at the top. -/
def convertKeys (fields : Fields) : Except String Json.Members := do
  let serverPublic ← readKey fields "p"
  let out := Json.insert [] "ServerPublic" (keyText "nodekey:" (serverPublic.getD Key.zero))
  let presharedKey ← readKey fields "q"
  let out := insertKey out "PresharedKey" "psk:" presharedKey
  let serverDiscoPublic ← readKey fields "k"
  return insertKey out "ServerDiscoPublic" "discokey:" serverDiscoPublic

/-- The object the table is inserted into: the keys at the top, nothing below. -/
def convertBase (fields : Fields) (level : ℕ) : Except String Json.Members :=
  if level = 0 then convertKeys fields else return []

/-- The entries of a map, other than its array. -/
def convertEntries (fields : Fields) (level : ℕ) : Except String Json.Members := do
  let out ← convertBase fields level
  let out ← convertTable readInt 0 (fun n => .number n.toInt) fields intNames out
  let out ← convertTable readString "" .string fields textNames out
  let x ← readBool fields "x"
  return if x then Json.insert out "InsecureForTests" (.bool true) else out

/-- The object of a map: its entries, and its array unless that is empty. -/
def withArray (out : Json.Members) (name : String) : List Json.Value → Json.Members
  | [] => out
  | items => Json.insert out name (.array items)

theorem eq_map_of_asMap {v : Value} {fields : Fields} (h : asMap v = .ok fields) :
    v = .map fields := by
  cases v <;> cases h
  rfl

theorem sizeOf_lookup {fields : Fields} {name : String} {v : Value}
    (h : lookup fields name = some v) : sizeOf v < sizeOf (Value.map fields) := by
  obtain ⟨kv, hmem, hkv⟩ := List.exists_of_findSome?_eq_some h
  have hlt := List.sizeOf_lt_of_mem (List.mem_reverse.1 hmem)
  obtain ⟨k, w⟩ := kv
  split_ifs at hkv
  cases hkv
  simp only [Value.map.sizeOf_spec, Prod.mk.sizeOf_spec] at hlt ⊢
  omega

theorem sizeOf_readArray {fields : Fields} {name : String} {a : List Value}
    (h : readArray fields name = .ok a) : sizeOf a < sizeOf (Value.map fields) := by
  have hnil : sizeOf ([] : List Value) < sizeOf (Value.map fields) := by
    rw [List.nil.sizeOf_spec, Value.map.sizeOf_spec]
    cases fields <;> simp +arith
  unfold readArray at h
  split at h
  · cases h
    exact hnil
  · cases h
    exact hnil
  · rename_i hlookup
    cases h
    have hlt := sizeOf_lookup hlookup
    rw [Value.array.sizeOf_spec] at hlt
    omega
  · cases h

mutual

/-- The JSON of an item at a level of the address. -/
def convert (value : Value) (level : ℕ) : Except String Json.Value :=
  match value with
  | .null => .ok .null
  | .map fields =>
    match convertEntries fields level, _hread : readArray fields (arrayName level).1 with
    | .error e, _ | .ok _, .error e => .error e
    | .ok out, .ok a =>
      match convertAll a (level + 1) with
      | .error e => .error e
      | .ok items => .ok (.object (withArray out (arrayName level).2 items))
  | _ => .error "expected CBOR map"
termination_by sizeOf value
decreasing_by exact sizeOf_readArray _hread

/-- The JSON of the items of an array. -/
def convertAll (items : List Value) (level : ℕ) : Except String (List Json.Value) :=
  match items with
  | [] => .ok []
  | value :: values => do
    let j ← convert value level
    let js ← convertAll values level
    return j :: js
termination_by sizeOf items

end

/-- Show an address as JSON. -/
def Codec.parseAddrRaw (c : Codec) (addr : String) : Except String Json.Value :=
  c.decodeAddr addr >>= (convert · 0)

/-! ### Reading the JSON -/

/-- `parse_hex_key` -/
def parseHexKey (kind s : String) : Option Key := do
  let hex ← Codec.stripPrefix kind s
  let raw ← Hex.decode hex
  Key.ofBytes? raw

/-- A key of a kind. -/
def hexKey (kind : String) (v : Json.Value) : Option Key := Json.text v >>= parseHexKey kind

/-- A relay node, the members it lacks being empty. -/
def readNode : Json.Value → Option Node
  | .object m => do
    let name ← Json.field m "Name" Json.text ""
    let regionId ← Json.field m "RegionID" Json.i64 0
    let hostName ← Json.field m "HostName" Json.text ""
    let certName ← Json.field m "CertName" Json.text ""
    let ipv4 ← Json.field m "IPv4" Json.text ""
    let ipv6 ← Json.field m "IPv6" Json.text ""
    let stunPort ← Json.field m "STUNPort" Json.i32 0
    let derpPort ← Json.field m "DERPPort" Json.i32 0
    let insecureForTests ← Json.field m "InsecureForTests" Json.boolean false
    let stunOnly ← Json.field m "STUNOnly" Json.boolean false
    return ⟨name, regionId, hostName, certName, ipv4, ipv6, stunPort, derpPort, insecureForTests,
      stunOnly⟩
  | _ => none

/-- A relay region. -/
def readRegion : Json.Value → Option Region
  | .object m => do
    let regionId ← Json.field m "RegionID" Json.i64 0
    let regionCode ← Json.field m "RegionCode" Json.text ""
    let regionName ← Json.field m "RegionName" Json.text ""
    let nodes ← Json.field m "Nodes" (Json.sequence readNode) []
    return ⟨regionId, regionCode, regionName, nodes⟩
  | _ => none

/-- What is needed to connect to a server; an all-zero preshared key counts as none. -/
def readConnInfo : Json.Value → Option ConnInfo
  | .object m => do
    let serverPublic ← Json.field m "ServerPublic" (hexKey "nodekey:") Key.zero
    let serverDiscoPublic ←
      Json.field m "ServerDiscoPublic" (Json.nullable (hexKey "discokey:")) none
    let presharedKey ← Json.field m "PresharedKey" (Json.nullable (hexKey "psk:")) none
    let region ← Json.field m "Region" (Json.sequence readRegion) []
    let regionId ← Json.field m "RegionID" Json.i64 0
    return ⟨serverPublic, serverDiscoPublic, nonzero presharedKey, region, regionId⟩
  | _ => none

/-! ### Implicit fields -/

/-- A node of the region with an identifier, its implicit fields filled in. -/
def fillNode (regionId : Int64) (n : Node) : Node :=
  { n with
    name := if n.name = "" then n.hostName else n.name
    regionId := if n.regionId = 0 then regionId else n.regionId }

/-- Region `ri`, its implicit fields filled in. -/
def fillRegion (ri : ℕ) (r : Region) : Region :=
  let regionId := if r.regionId = 0 then implicitId ri else r.regionId
  { r with
    regionId
    regionCode := if r.regionCode = "" then toString regionId.toInt else r.regionCode
    nodes := r.nodes.map (fillNode regionId) }

/-- A `ConnInfo`, its implicit fields filled in. -/
def fill (ci : ConnInfo) : ConnInfo := { ci with region := ci.region.mapIdx fillRegion }

/-! ### Entries that can be read -/

/-- The entries of the table, other than keys and arrays, can be read. -/
structure TableReads (fields : Fields) : Prop where
  ints : ∀ name ∈ intNames, ∃ n, readInt fields name.1 = .ok n
  texts : ∀ name ∈ textNames, ∃ s, readString fields name.1 = .ok s
  bool : ∃ b, readBool fields "x" = .ok b

/-- A null, or a map with entries that can be read and an array `N` of the same kind. -/
inductive Shown : Value → Prop
  | null : Shown .null
  | map {fields : Fields} {a : List Value} (table : TableReads fields)
      (array : readArray fields "N" = .ok a) (items : ∀ v ∈ a, Shown v) : Shown (.map fields)

/-- The misplaced entries of an address can be read too: at the top, in its regions, in their
nodes and in whatever the nodes hold as nodes. -/
inductive StrayReads : Value → Prop
  | map {fields : Fields} {regions : List Value} (table : TableReads fields)
      (array : readArray fields "r" = .ok regions) (items : ∀ v ∈ regions, Shown v) :
      StrayReads (.map fields)

section Table

variable {α : Type} [DecidableEq α] {read : Fields → String → Except String α} {absent : α}
  {shown : α → Json.Value} {fields : Fields}

theorem exists_convertTable {names : List (String × String)} {out : Json.Members} :
    (∃ out', convertTable read absent shown fields names out = .ok out') ↔
      ∀ name ∈ names, ∃ v, read fields name.1 = .ok v := by
  induction names generalizing out with
  | nil => exact ⟨fun _ _ h => absurd h List.not_mem_nil, fun _ => ⟨out, rfl⟩⟩
  | cons name names ih =>
    rw [convertTable, List.foldlM_cons, List.forall_mem_cons]
    cases hread : read fields name.1 with
    | error e =>
      refine ⟨fun h => ?_, fun h => ?_⟩
      · obtain ⟨out', h⟩ := h
        cases h
      · obtain ⟨v, hv⟩ := h.1
        cases hv
    | ok v => exact ih.trans ⟨fun h => ⟨⟨v, rfl⟩, h⟩, fun h => h.2⟩

/-- What a table leaves in the object. -/
theorem get?_convertTable {names : List (String × String)} {out out' : Json.Members}
    (hnames : (names.map Prod.snd).Nodup)
    (h : convertTable read absent shown fields names out = .ok out') :
    (∀ name ∈ names, ∀ v, read fields name.1 = .ok v → Json.get? out' name.2 =
        if v ≠ absent then some (shown v) else Json.get? out name.2) ∧
      ∀ key ∉ names.map Prod.snd, Json.get? out' key = Json.get? out key := by
  induction names generalizing out with
  | nil =>
    cases h
    exact ⟨fun _ h => absurd h List.not_mem_nil, fun _ _ => rfl⟩
  | cons name names ih =>
    rw [List.map_cons, List.nodup_cons] at hnames
    rw [convertTable, List.foldlM_cons] at h
    obtain ⟨mid, hmid, h⟩ := Program.except_bind_eq_ok.1 h
    obtain ⟨v, hv, hmid⟩ := Program.except_bind_eq_ok.1 hmid
    cases hmid
    obtain ⟨hin, hout⟩ := ih hnames.2 h
    have hne : ∀ key, key ≠ name.2 →
        Json.get? (if v ≠ absent then Json.insert out name.2 (shown v) else out) key =
          Json.get? out key := by
      intro key hkey
      split_ifs
      · rw [Json.get?_insert, if_neg hkey]
      · rfl
    refine ⟨fun name' hname' w hw => ?_, fun key hkey => ?_⟩
    · obtain rfl | hmem := List.mem_cons.1 hname'
      · rw [hv] at hw
        cases hw
        rw [hout _ hnames.1]
        split_ifs
        · rw [Json.get?_insert, if_pos rfl]
        · rfl
      · rw [hin _ hmem w hw, hne]
        intro heq
        exact hnames.1 (heq ▸ List.mem_map_of_mem hmem)
    · rw [List.map_cons, List.mem_cons, not_or] at hkey
      rw [hout key hkey.2, hne key hkey.1]

end Table

/-! ### What is shown of a map -/

/-- The names of the table in JSON. -/
def tableNames : List String :=
  intNames.map Prod.snd ++ textNames.map Prod.snd ++ ["InsecureForTests"]

/-- An object says of each entry of the table what it is in the map. -/
structure Mirrors (fields : Fields) (m : Json.Members) : Prop where
  ints : ∀ name ∈ intNames, ∀ n, readInt fields name.1 = .ok n →
    Json.get? m name.2 = if n ≠ 0 then some (.number n.toInt) else none
  texts : ∀ name ∈ textNames, ∀ s, readString fields name.1 = .ok s →
    Json.get? m name.2 = if s ≠ "" then some (.string s) else none
  bool : ∀ b, readBool fields "x" = .ok b →
    Json.get? m "InsecureForTests" = if b then some (.bool true) else none

section Mirrors

variable {fields : Fields} {m : Json.Members} {short long : String}

/-- Only the names of the table matter. -/
theorem Mirrors.congr {m' : Json.Members} (h : Mirrors fields m)
    (hm : ∀ key ∈ tableNames, Json.get? m' key = Json.get? m key) : Mirrors fields m' where
  ints name hname n hn := by
    rw [hm _ (List.mem_append_left _ (List.mem_append_left _ (List.mem_map_of_mem hname)))]
    exact h.ints name hname n hn
  texts name hname s hs := by
    rw [hm _ (List.mem_append_left _ (List.mem_append_right _ (List.mem_map_of_mem hname)))]
    exact h.texts name hname s hs
  bool b hb := by
    rw [hm _ (List.mem_append_right _ List.mem_cons_self)]
    exact h.bool b hb

theorem Mirrors.field_i64 (h : Mirrors fields m) (hname : (short, long) ∈ intNames) {n : Int64}
    (hn : readInt fields short = .ok n) : Json.field m long Json.i64 0 = some n := by
  rw [Json.field, h.ints _ hname n hn]
  by_cases h0 : n = 0
  · rw [if_neg (not_not.2 h0), h0]
  · rw [if_pos h0]
    exact Json.i64_number n

theorem Mirrors.field_i32 (h : Mirrors fields m) (hname : (short, long) ∈ intNames) {n : Int64}
    {context : String} {k : Int32} (hn : readInt fields short = .ok n)
    (hk : i32TryFrom context n = .ok k) : Json.field m long Json.i32 0 = some k := by
  unfold i32TryFrom at hk
  split_ifs at hk with hrange
  cases hk
  rw [Json.field, h.ints _ hname n hn]
  by_cases h0 : n = 0
  · rw [if_neg (not_not.2 h0), h0]
    rfl
  · rw [if_pos h0]
    exact if_pos hrange

theorem Mirrors.field_text (h : Mirrors fields m) (hname : (short, long) ∈ textNames) {s : String}
    (hs : readString fields short = .ok s) : Json.field m long Json.text "" = some s := by
  rw [Json.field, h.texts _ hname s hs]
  by_cases h0 : s = ""
  · rw [if_neg (not_not.2 h0), h0]
  · rw [if_pos h0]
    rfl

theorem Mirrors.field_boolean (h : Mirrors fields m) {b : Bool}
    (hb : readBool fields "x" = .ok b) :
    Json.field m "InsecureForTests" Json.boolean false = some b := by
  rw [Json.field, h.bool b hb]
  cases b <;> rfl

end Mirrors

section Entries

variable {fields : Fields} {level : ℕ} {out : Json.Members}

theorem get?_insertKey (m : Json.Members) (name kind key : String) (k : Option Key) :
    Json.get? (insertKey m name kind k) key =
      if key = name ∧ k.isSome then k.map (keyText kind) else Json.get? m key := by
  cases k with
  | none => simp [insertKey]
  | some k => simp [insertKey, Json.get?_insert]

/-- The keys of an address, as they are shown. -/
theorem get?_convertKeys (h : convertKeys fields = .ok out) :
    ∃ p q k, readKey fields "p" = .ok p ∧ readKey fields "q" = .ok q ∧
      readKey fields "k" = .ok k ∧ ∀ key, Json.get? out key =
        if key = "ServerDiscoPublic" then k.map (keyText "discokey:")
        else if key = "PresharedKey" then q.map (keyText "psk:")
        else if key = "ServerPublic" then some (keyText "nodekey:" (p.getD Key.zero))
        else none := by
  obtain ⟨p, hp, h⟩ := Program.except_bind_eq_ok.1 h
  obtain ⟨q, hq, h⟩ := Program.except_bind_eq_ok.1 h
  obtain ⟨k, hk, h⟩ := Program.except_bind_eq_ok.1 h
  cases h
  refine ⟨p, q, k, hp, hq, hk, fun key => ?_⟩
  simp only [get?_insertKey, Json.get?_insert, Json.get?_nil]
  cases q <;> cases k <;> simp <;> split_ifs <;> simp_all

theorem exists_convertKeys :
    (∃ out, convertKeys fields = .ok out) ↔
      ∀ name ∈ ["p", "q", "k"], ∃ key, readKey fields name = .ok key := by
  constructor
  · rintro ⟨out, h⟩
    obtain ⟨p, q, k, hp, hq, hk, -⟩ := get?_convertKeys h
    simp [hp, hq, hk]
  · intro h
    simp only [List.forall_mem_cons, List.not_mem_nil, false_imp_iff, implies_true,
      and_true] at h
    obtain ⟨⟨p, hp⟩, ⟨q, hq⟩, ⟨k, hk⟩⟩ := h
    exact ⟨_, by rw [convertKeys, hp, hq, hk]; rfl⟩

theorem get?_convertBase (h : convertBase fields level = .ok out) {key : String}
    (hkey : key ∈ tableNames) : Json.get? out key = none := by
  unfold convertBase at h
  split_ifs at h
  · obtain ⟨p, q, k, -, -, -, hout⟩ := get?_convertKeys h
    rw [hout]
    have hkeys : ∀ key ∈ tableNames,
        key ∉ ["ServerDiscoPublic", "PresharedKey", "ServerPublic"] := by decide
    have hne := hkeys key hkey
    simp only [List.mem_cons, List.not_mem_nil, or_false, not_or] at hne
    rw [if_neg hne.1, if_neg hne.2.1, if_neg hne.2.2]
  · cases h
    rfl

/-- The entries that are shown mirror the map, and the rest is as in the base. -/
theorem mirrors_convertEntries (h : convertEntries fields level = .ok out) :
    ∃ base, convertBase fields level = .ok base ∧ Mirrors fields out ∧
      ∀ key ∉ tableNames, Json.get? out key = Json.get? base key := by
  obtain ⟨base, hbase, h⟩ := Program.except_bind_eq_ok.1 h
  obtain ⟨ints, hints, h⟩ := Program.except_bind_eq_ok.1 h
  obtain ⟨texts, htexts, h⟩ := Program.except_bind_eq_ok.1 h
  obtain ⟨x, hx, h⟩ := Program.except_bind_eq_ok.1 h
  cases h
  obtain ⟨hin, hout⟩ := get?_convertTable (by decide) hints
  obtain ⟨htin, htout⟩ := get?_convertTable (by decide) htexts
  have hnone : ∀ key ∈ tableNames, Json.get? base key = none := fun _ => get?_convertBase hbase
  have hflag : ∀ key, key ≠ "InsecureForTests" →
      Json.get? (if x then Json.insert texts "InsecureForTests" (.bool true) else texts) key =
        Json.get? texts key := by
    intro key hkey
    split_ifs
    · rw [Json.get?_insert, if_neg hkey]
    · rfl
  refine ⟨base, hbase, ⟨fun name hname n hn => ?_, fun name hname s hs => ?_, fun b hb => ?_⟩,
    fun key hkey => ?_⟩
  · have hmem := List.mem_map_of_mem (f := Prod.snd) hname
    have hints : ∀ key ∈ intNames.map Prod.snd,
        key ∉ "InsecureForTests" :: textNames.map Prod.snd := by decide
    have hne := hints _ hmem
    rw [List.mem_cons, not_or] at hne
    rw [hflag _ hne.1, htout _ hne.2, hin name hname n hn,
      hnone _ (List.mem_append_left _ (List.mem_append_left _ hmem))]
  · have hmem := List.mem_map_of_mem (f := Prod.snd) hname
    have htexts : ∀ key ∈ textNames.map Prod.snd,
        key ∉ "InsecureForTests" :: intNames.map Prod.snd := by decide
    have hne := htexts _ hmem
    rw [List.mem_cons, not_or] at hne
    rw [hflag _ hne.1, htin name hname s hs, hout _ hne.2,
      hnone _ (List.mem_append_left _ (List.mem_append_right _ hmem))]
  · rw [hx] at hb
    cases hb
    have htext : Json.get? texts "InsecureForTests" = none := by
      rw [htout _ (by decide), hout _ (by decide), hnone _ (by decide)]
    cases x with
    | false => exact htext
    | true => rw [if_pos rfl, Json.get?_insert, if_pos rfl, if_pos rfl]
  · simp only [tableNames, List.mem_append, List.mem_singleton, not_or] at hkey
    rw [hflag _ hkey.2, htout _ hkey.1.2, hout _ hkey.1.1]

theorem exists_convertEntries :
    (∃ out, convertEntries fields level = .ok out) ↔
      (∃ base, convertBase fields level = .ok base) ∧ TableReads fields := by
  constructor
  · rintro ⟨out, h⟩
    obtain ⟨base, hbase, h⟩ := Program.except_bind_eq_ok.1 h
    obtain ⟨ints, hints, h⟩ := Program.except_bind_eq_ok.1 h
    obtain ⟨texts, htexts, h⟩ := Program.except_bind_eq_ok.1 h
    obtain ⟨x, hx, -⟩ := Program.except_bind_eq_ok.1 h
    exact ⟨⟨base, hbase⟩, exists_convertTable.1 ⟨ints, hints⟩, exists_convertTable.1 ⟨texts, htexts⟩,
      x, hx⟩
  · rintro ⟨⟨base, hbase⟩, hreads⟩
    obtain ⟨ints, hints⟩ := exists_convertTable.2 hreads.ints
    obtain ⟨texts, htexts⟩ := exists_convertTable.2 hreads.texts
    obtain ⟨x, hx⟩ := hreads.bool
    refine ⟨_, Program.except_bind_eq_ok.2 ⟨base, hbase, Program.except_bind_eq_ok.2
      ⟨ints, hints, Program.except_bind_eq_ok.2 ⟨texts, htexts, Program.except_bind_eq_ok.2
        ⟨x, hx, rfl⟩⟩⟩⟩⟩

end Entries

/-! ### When an item can be shown -/

theorem convertBase_succ (fields : Fields) (level : ℕ) :
    convertBase fields (level + 1) = .ok [] := rfl

theorem convertAll_ok {values : List Value} {level : ℕ} {items : List Json.Value} :
    convertAll values level = .ok items ↔
      List.Forall₂ (fun v j => convert v level = .ok j) values items := by
  induction values generalizing items with
  | nil =>
    rw [convertAll, List.forall₂_nil_left_iff, Except.ok.injEq]
    exact eq_comm
  | cons v values ih =>
    rw [convertAll, List.forall₂_cons_left_iff, Program.except_bind_eq_ok]
    constructor
    · rintro ⟨j, hj, h⟩
      obtain ⟨js, hjs, h⟩ := Program.except_bind_eq_ok.1 h
      cases h
      exact ⟨j, js, hj, ih.1 hjs, rfl⟩
    · rintro ⟨j, js, hj, hjs, rfl⟩
      exact ⟨j, hj, Program.except_bind_eq_ok.2 ⟨js, ih.2 hjs, rfl⟩⟩

theorem exists_convertAll {values : List Value} {level : ℕ} :
    (∃ items, convertAll values level = .ok items) ↔
      ∀ v ∈ values, ∃ j, convert v level = .ok j := by
  induction values with
  | nil => exact ⟨fun _ _ h => absurd h List.not_mem_nil, fun _ => ⟨[], by rw [convertAll]⟩⟩
  | cons v values ih =>
    rw [List.forall_mem_cons, ← ih]
    constructor
    · rintro ⟨items, h⟩
      rw [convertAll] at h
      obtain ⟨j, hj, h⟩ := Program.except_bind_eq_ok.1 h
      obtain ⟨js, hjs, -⟩ := Program.except_bind_eq_ok.1 h
      exact ⟨⟨j, hj⟩, js, hjs⟩
    · rintro ⟨⟨j, hj⟩, js, hjs⟩
      refine ⟨j :: js, ?_⟩
      rw [convertAll, hj, hjs]
      rfl

theorem convert_map {fields : Fields} {level : ℕ} {json : Json.Value} :
    convert (.map fields) level = .ok json ↔
      ∃ out a items, convertEntries fields level = .ok out ∧
        readArray fields (arrayName level).1 = .ok a ∧ convertAll a (level + 1) = .ok items ∧
          json = .object (withArray out (arrayName level).2 items) := by
  rw [convert]
  cases hout : convertEntries fields level with
  | error e => simp
  | ok out =>
    cases ha : readArray fields (arrayName level).1 with
    | error e => simp
    | ok a =>
      cases hitems : convertAll a (level + 1) with
      | error e => simp [hitems]
      | ok items => simp [hitems, eq_comm]

/-- Below the top, exactly the items with entries that can be read are shown. -/
theorem shown_iff {v : Value} {level : ℕ} : Shown v ↔ ∃ j, convert v (level + 1) = .ok j := by
  constructor
  · intro h
    induction h generalizing level with
    | null => exact ⟨.null, by rw [convert]⟩
    | map table array items ih =>
      obtain ⟨out, hout⟩ := exists_convertEntries.2
        ⟨⟨[], convertBase_succ _ level⟩, table⟩
      obtain ⟨js, hjs⟩ := exists_convertAll.2 fun v hv => @ih v hv (level + 1)
      exact ⟨_, convert_map.2 ⟨out, _, js, hout, array, hjs, rfl⟩⟩
  · -- by induction on the size of the item: the items of an array are smaller than its map
    intro h
    induction hn : sizeOf v using Nat.strongRecOn generalizing v level with
    | _ n ih =>
      subst hn
      obtain ⟨j, h⟩ := h
      cases v with
      | null => exact .null
      | map fields =>
        obtain ⟨out, a, items, hout, ha, hitems, -⟩ := convert_map.1 h
        refine .map (exists_convertEntries.1 ⟨out, hout⟩).2 ha fun v hv => ?_
        have hlt := Nat.lt_trans (List.sizeOf_lt_of_mem hv) (sizeOf_readArray ha)
        exact ih _ hlt (exists_convertAll.1 ⟨items, hitems⟩ v hv) rfl
      | _ => simp [convert] at h

/-- At the top, an item that `parseAddr` accepts is shown if its misplaced entries can be read. -/
theorem strayReads_iff {v : Value} {ci : ConnInfo} (hparse : parseValue v = .ok ci) :
    StrayReads v ↔ ∃ j, convert v 0 = .ok j := by
  obtain ⟨fields, hmap, hparse⟩ := Program.except_bind_eq_ok.1 hparse
  obtain ⟨p, hp, hparse⟩ := Program.except_bind_eq_ok.1 hparse
  obtain ⟨k, hk, hparse⟩ := Program.except_bind_eq_ok.1 hparse
  obtain ⟨q, hq, hparse⟩ := Program.except_bind_eq_ok.1 hparse
  obtain rfl := eq_map_of_asMap hmap
  constructor
  · rintro ⟨table, array, items⟩
    have hreads : ∀ name ∈ ["p", "q", "k"], ∃ key, readKey fields name = .ok key := by
      simp [hp, hk, hq]
    obtain ⟨base, hbase⟩ := exists_convertKeys.2 hreads
    have hbase0 : convertBase fields 0 = .ok base := hbase
    obtain ⟨out, hout⟩ := exists_convertEntries.2 ⟨⟨base, hbase0⟩, table⟩
    obtain ⟨js, hjs⟩ := exists_convertAll.2 fun v hv => shown_iff.1 (items v hv)
    exact ⟨_, convert_map.2 ⟨out, _, js, hout, array, hjs, rfl⟩⟩
  · rintro ⟨j, h⟩
    obtain ⟨out, a, items, hout, ha, hitems, -⟩ := convert_map.1 h
    exact .map (exists_convertEntries.1 ⟨out, hout⟩).2 ha fun v hv =>
      shown_iff.2 (exists_convertAll.1 ⟨items, hitems⟩ v hv)

/-! ### Reading back what is shown -/

/-- What an object says of a map: each entry of the table, and the array under its name. -/
theorem convert_object {fields : Fields} {level : ℕ} {j : Json.Value}
    (h : convert (.map fields) level = .ok j) :
    ∃ m base a items, j = .object m ∧ Mirrors fields m ∧
      readArray fields (arrayName level).1 = .ok a ∧
      List.Forall₂ (fun v j => convert v (level + 1) = .ok j) a items ∧
      convertBase fields level = .ok base ∧
      Json.get? m (arrayName level).2 =
        (if items.isEmpty then Json.get? base (arrayName level).2 else some (.array items)) ∧
      ∀ key ∉ (arrayName level).2 :: tableNames, Json.get? m key = Json.get? base key := by
  obtain ⟨out, a, items, hout, ha, hitems, rfl⟩ := convert_map.1 h
  obtain ⟨base, hbase, hmirrors, hrest⟩ := mirrors_convertEntries hout
  have hname : (arrayName level).2 ∉ tableNames := by
    rw [arrayName]
    split_ifs <;> decide
  have hwith : ∀ key, Json.get? (withArray out (arrayName level).2 items) key =
      if key = (arrayName level).2 ∧ ¬items.isEmpty then some (.array items)
      else Json.get? out key := by
    intro key
    cases items with
    | nil => simp [withArray]
    | cons j js => simp [withArray, Json.get?_insert]
  refine ⟨_, base, a, items, rfl, hmirrors.congr fun key hkey => ?_, ha, convertAll_ok.1 hitems,
    hbase, ?_, fun key hkey => ?_⟩
  · have hne : key ≠ (arrayName level).2 := fun hc => hname (hc ▸ hkey)
    rw [hwith, if_neg (fun hc : _ ∧ _ => hne hc.1)]
  · rw [hwith, hrest _ hname]
    cases items <;> simp
  · rw [List.mem_cons, not_or] at hkey
    rw [hwith, if_neg (fun hc : _ ∧ _ => hkey.1 hc.1), hrest key hkey.2]

theorem hexKey_keyText (kind : String) (key : Key) : hexKey kind (keyText kind key) = some key := by
  simp [hexKey, keyText, Json.text, parseHexKey, stripPrefix_append, Hex.decode_encode]

theorem nullable_keyText (kind : String) (key : Option Key) :
    (match key.map (keyText kind) with
      | none => some none
      | some v => Json.nullable (hexKey kind) v) = some key := by
  cases key with
  | none => rfl
  | some key =>
    show Option.map some (hexKey kind (keyText kind key)) = _
    rw [hexKey_keyText]
    rfl

/-- An array is read back item by item. -/
theorem field_sequence {α : Type} {read : Json.Value → Option α} {m : Json.Members} {key : String}
    {items : List Json.Value} {as : List α}
    (hm : Json.get? m key = if items.isEmpty then none else some (.array items))
    (has : items.mapM read = some as) : Json.field m key (Json.sequence read) [] = some as := by
  rw [Json.field, hm]
  cases items with
  | nil => exact has
  | cons j js => exact has

/-- A node reads as what `parseNode` makes of it, but for the implicit fields. -/
theorem reads_node {ri ni level : ℕ} {id : Int64} {v : Value} {n : Node} {j : Json.Value}
    (hparse : parseNode ri ni id v = .ok n) (h : convert v (level + 1) = .ok j) :
    ∃ draft, readNode j = some draft ∧ fillNode id draft = n := by
  unfold parseNode at hparse
  split at hparse
  · cases hparse
  obtain ⟨fields, hmap, hparse⟩ := Program.except_bind_eq_ok.1 hparse
  obtain ⟨name, hname, hparse⟩ := Program.except_bind_eq_ok.1 hparse
  obtain ⟨rid, hrid, hparse⟩ := Program.except_bind_eq_ok.1 hparse
  obtain ⟨hostName, hhost, hparse⟩ := Program.except_bind_eq_ok.1 hparse
  obtain ⟨certName, hcert, hparse⟩ := Program.except_bind_eq_ok.1 hparse
  obtain ⟨ipv4, h4, hparse⟩ := Program.except_bind_eq_ok.1 hparse
  obtain ⟨ipv6, h6, hparse⟩ := Program.except_bind_eq_ok.1 hparse
  obtain ⟨stunPort, hstun, hparse⟩ := Program.except_bind_eq_ok.1 hparse
  obtain ⟨derpPort, hderp, hparse⟩ := Program.except_bind_eq_ok.1 hparse
  obtain ⟨x, hx, hparse⟩ := Program.except_bind_eq_ok.1 hparse
  cases hparse
  obtain ⟨s, hs, hstun⟩ := Program.except_bind_eq_ok.1 hstun
  obtain ⟨d, hd, hderp⟩ := Program.except_bind_eq_ok.1 hderp
  obtain rfl := eq_map_of_asMap hmap
  obtain ⟨m, base, a, items, rfl, hm, -, -, hbase, -, hrest⟩ := convert_object h
  cases hbase
  have hid := hm.field_i64 (show ("i", "RegionID") ∈ _ by decide) hrid
  have hsp := hm.field_i32 (show ("s", "STUNPort") ∈ _ by decide) hs hstun
  have hdp := hm.field_i32 (show ("d", "DERPPort") ∈ _ by decide) hd hderp
  have hn := hm.field_text (show ("n", "Name") ∈ _ by decide) hname
  have hh := hm.field_text (show ("h", "HostName") ∈ _ by decide) hhost
  have hc := hm.field_text (show ("t", "CertName") ∈ _ by decide) hcert
  have hi4 := hm.field_text (show ("4", "IPv4") ∈ _ by decide) h4
  have hi6 := hm.field_text (show ("6", "IPv6") ∈ _ by decide) h6
  have hxx := hm.field_boolean hx
  have hstunOnly : Json.field m "STUNOnly" Json.boolean false = some false := by
    rw [Json.field, hrest "STUNOnly" (by rw [arrayName, if_neg (Nat.succ_ne_zero level)]; decide)]
    rfl
  refine ⟨⟨name, rid, hostName, certName, ipv4, ipv6, stunPort, derpPort, x, false⟩, ?_, rfl⟩
  simp only [readNode, hid, hsp, hdp, hn, hh, hc, hi4, hi6, hxx, hstunOnly, Option.bind_eq_bind,
    Option.bind_some, Option.pure_def]

theorem reads_nodes {ri ni level : ℕ} {id : Int64} {a : List Value} {ns : List Node}
    {items : List Json.Value} (hparse : parseNodes ri ni id a = .ok ns)
    (h : List.Forall₂ (fun v j => convert v (level + 1) = .ok j) a items) :
    ∃ drafts, items.mapM readNode = some drafts ∧ drafts.map (fillNode id) = ns := by
  induction h generalizing ni ns with
  | nil =>
    cases hparse
    exact ⟨[], rfl, rfl⟩
  | cons hv _ ih =>
    obtain ⟨n, hn, hparse⟩ := Program.except_bind_eq_ok.1 hparse
    obtain ⟨ns, hns, hparse⟩ := Program.except_bind_eq_ok.1 hparse
    cases hparse
    obtain ⟨d, hd, rfl⟩ := reads_node hn hv
    obtain ⟨ds, hds, rfl⟩ := ih hns
    exact ⟨d :: ds, by rw [List.mapM_cons, hd, hds]; rfl, rfl⟩

/-- A region reads as what `parseRegion` makes of it, but for the implicit fields. -/
theorem reads_region {ri level : ℕ} {v : Value} {r : Region} {j : Json.Value}
    (hparse : parseRegion ri v = .ok r) (h : convert v (level + 1) = .ok j) :
    ∃ draft, readRegion j = some draft ∧ fillRegion ri draft = r := by
  unfold parseRegion at hparse
  split at hparse
  · cases hparse
  obtain ⟨fields, hmap, hparse⟩ := Program.except_bind_eq_ok.1 hparse
  obtain ⟨rid, hrid, hparse⟩ := Program.except_bind_eq_ok.1 hparse
  obtain ⟨code, hcode, hparse⟩ := Program.except_bind_eq_ok.1 hparse
  obtain ⟨regionName, hname, hparse⟩ := Program.except_bind_eq_ok.1 hparse
  obtain ⟨nodes, hnodes, hparse⟩ := Program.except_bind_eq_ok.1 hparse
  obtain ⟨ns, hns, hparse⟩ := Program.except_bind_eq_ok.1 hparse
  cases hparse
  obtain rfl := eq_map_of_asMap hmap
  obtain ⟨m, base, a, items, rfl, hm, ha, hitems, hbase, harray, -⟩ := convert_object h
  cases hbase
  rw [arrayName, if_neg (Nat.succ_ne_zero level)] at ha harray
  rw [hnodes] at ha
  cases ha
  obtain ⟨ds, hds, rfl⟩ := reads_nodes hns hitems
  have hid := hm.field_i64 (show ("i", "RegionID") ∈ _ by decide) hrid
  have hc := hm.field_text (show ("c", "RegionCode") ∈ _ by decide) hcode
  have hn := hm.field_text (show ("m", "RegionName") ∈ _ by decide) hname
  have hseq := field_sequence harray hds
  refine ⟨⟨rid, code, regionName, ds⟩, ?_, rfl⟩
  simp only [readRegion, hid, hc, hn, hseq, Option.bind_eq_bind, Option.bind_some, Option.pure_def]

theorem reads_regions {ri level : ℕ} {a : List Value} {rs : List Region}
    {items : List Json.Value} (hparse : parseRegions ri a = .ok rs)
    (h : List.Forall₂ (fun v j => convert v (level + 1) = .ok j) a items) :
    ∃ drafts, items.mapM readRegion = some drafts ∧
      drafts.mapIdx (fun i => fillRegion (i + ri)) = rs := by
  induction h generalizing ri rs with
  | nil =>
    cases hparse
    exact ⟨[], rfl, rfl⟩
  | cons hv _ ih =>
    obtain ⟨r, hr, hparse⟩ := Program.except_bind_eq_ok.1 hparse
    obtain ⟨rs, hrs, hparse⟩ := Program.except_bind_eq_ok.1 hparse
    cases hparse
    obtain ⟨d, hd, rfl⟩ := reads_region hr hv
    obtain ⟨ds, hds, rfl⟩ := ih hrs
    refine ⟨d :: ds, by rw [List.mapM_cons, hd, hds]; rfl, ?_⟩
    rw [List.mapIdx_cons, Nat.zero_add]
    simp only [Nat.add_assoc, Nat.add_comm 1 ri]

/-- An address reads as what `parseAddr` makes of it, but for the implicit fields. -/
theorem reads_connInfo {v : Value} {ci : ConnInfo} {j : Json.Value}
    (hparse : parseValue v = .ok ci) (h : convert v 0 = .ok j) :
    ∃ draft, readConnInfo j = some draft ∧ fill draft = ci := by
  obtain ⟨fields, hmap, hparse⟩ := Program.except_bind_eq_ok.1 hparse
  obtain ⟨p, hp, hparse⟩ := Program.except_bind_eq_ok.1 hparse
  obtain ⟨k, hk, hparse⟩ := Program.except_bind_eq_ok.1 hparse
  obtain ⟨q, hq, hparse⟩ := Program.except_bind_eq_ok.1 hparse
  obtain ⟨rid, hrid, hparse⟩ := Program.except_bind_eq_ok.1 hparse
  obtain ⟨regions, hregions, hparse⟩ := Program.except_bind_eq_ok.1 hparse
  obtain ⟨rs, hrs, hparse⟩ := Program.except_bind_eq_ok.1 hparse
  cases hparse
  obtain rfl := eq_map_of_asMap hmap
  obtain ⟨m, base, a, items, rfl, hm, ha, hitems, hbase, harray, hrest⟩ := convert_object h
  obtain ⟨p', q', k', hp', hq', hk', hkeys⟩ := get?_convertKeys hbase
  rw [hp] at hp'
  rw [hq] at hq'
  rw [hk] at hk'
  cases hp'
  cases hq'
  cases hk'
  rw [arrayName, if_pos rfl] at ha harray hrest
  rw [hregions] at ha
  cases ha
  obtain ⟨ds, hds, rfl⟩ := reads_regions hrs hitems
  have hid := hm.field_i64 (show ("i", "RegionID") ∈ _ by decide) hrid
  have hregion : Json.get? base ("r", "Region").2 = none := by
    rw [hkeys, if_neg (by decide), if_neg (by decide), if_neg (by decide)]
  rw [hregion] at harray
  have hseq := field_sequence harray hds
  have hpublic : Json.field m "ServerPublic" (hexKey "nodekey:") Key.zero =
      some (p.getD Key.zero) := by
    rw [Json.field, hrest _ (by decide), hkeys, if_neg (by decide), if_neg (by decide), if_pos rfl]
    exact hexKey_keyText _ _
  have hpsk : Json.field m "PresharedKey" (Json.nullable (hexKey "psk:")) none = some q := by
    rw [Json.field, hrest _ (by decide), hkeys, if_neg (by decide), if_pos rfl]
    exact nullable_keyText _ q
  have hdisco : Json.field m "ServerDiscoPublic" (Json.nullable (hexKey "discokey:")) none =
      some k := by
    rw [Json.field, hrest _ (by decide), hkeys, if_pos rfl]
    exact nullable_keyText _ k
  refine ⟨⟨p.getD Key.zero, k, nonzero q, ds, rid⟩, ?_, rfl⟩
  simp only [readConnInfo, hpublic, hpsk, hdisco, hseq, hid, Option.bind_eq_bind, Option.bind_some,
    Option.pure_def]

/-- **Where the diagnostic decoder agrees with the real one.**  Of an address that `parseAddr`
accepts, `parseAddrRaw` shows a JSON that reads as the same `ConnInfo`, up to the implicit fields,
exactly if the entries that stand where `parseAddr` does not look for them can be read. -/
theorem parseAddrRaw_agrees (c : Codec) {addr : String} {ci : ConnInfo}
    (h : c.parseAddr addr = .ok ci) :
    (∃ json, c.parseAddrRaw addr = .ok json ∧
        ∃ draft, readConnInfo json = some draft ∧ fill draft = ci) ↔
      ∃ item, c.decodeAddr addr = .ok item ∧ StrayReads item := by
  obtain ⟨item, hitem, hparse⟩ := Program.except_bind_eq_ok.1 h
  rw [Codec.parseAddrRaw, hitem]
  constructor
  · rintro ⟨json, hjson, -⟩
    exact ⟨item, rfl, (strayReads_iff hparse).2 ⟨json, hjson⟩⟩
  · rintro ⟨item', hitem', hstray⟩
    cases hitem'
    obtain ⟨json, hjson⟩ := (strayReads_iff hparse).1 hstray
    exact ⟨json, hjson, reads_connInfo hparse hjson⟩

/-! ### Two addresses -/

/-- The address of an item. -/
def addrOf (item : Value) : String := "tc" ++ standard.toBase64 (standard.toCbor item)

/-- An address with a number at the top where a region has its code. -/
def misplaced : Value := .map [field "p" (.bytes sampleKey.1), field "c" (.integer 5)]

example : addrOf misplaced =
    "tcomFwWCAAAQIAAAAAAAAAAAAAAAAAAAAAAAAAAAAAAAAAAAAAH2FjBQ" := by
  decide +kernel

/-- The number there is ignored by the real decoder and refused by the diagnostic one. -/
theorem misplaced_entry_refused :
    standard.parseAddr (addrOf misplaced) = .ok { serverPublic := sampleKey } ∧
      standard.parseAddrRaw (addrOf misplaced) = .error "c must be text" := by
  have hdecode : standard.decodeAddr (addrOf misplaced) = .ok misplaced :=
    decodeAddr_append standard_lawful (by simp [misplaced, field, Value.Plain])
      (by decide +kernel)
  rw [Codec.parseAddr, Codec.parseAddrRaw, hdecode]
  refine ⟨rfl, ?_⟩
  show convert misplaced 0 = _
  rw [misplaced, convert]
  rfl

/-- An address with a region of one node, and a region's name in the node. -/
def wellPlaced : Value :=
  .map [field "p" (.bytes sampleKey.1), field "r" (.array [
    .map [field "N" (.array [.map [field "h" (.text "h"), field "m" (.text "unused")]])]])]

theorem parseAddr_wellPlaced :
    standard.decodeAddr (addrOf wellPlaced) = .ok wellPlaced ∧
      standard.parseAddr (addrOf wellPlaced) = .ok
        { serverPublic := sampleKey
          region := [{ regionId := 1, regionCode := "1", nodes := [
            { name := "h", regionId := 1, hostName := "h" }] }] } := by
  have hdecode : standard.decodeAddr (addrOf wellPlaced) = .ok wellPlaced :=
    decodeAddr_append standard_lawful (by simp [wellPlaced, field, Value.Plain])
      (by decide +kernel)
  refine ⟨hdecode, ?_⟩
  rw [Codec.parseAddr, hdecode]
  decide +kernel

theorem tableReads_of {fields : Fields} {ints texts : Json.Members} {b : Bool}
    (hints : convertTable readInt 0 (fun n => .number n.toInt) fields intNames [] = .ok ints)
    (htexts : convertTable readString "" .string fields textNames [] = .ok texts)
    (hb : readBool fields "x" = .ok b) : TableReads fields :=
  ⟨exists_convertTable.1 ⟨ints, hints⟩, exists_convertTable.1 ⟨texts, htexts⟩, b, hb⟩

/-- The diagnostic decoder shows the region and its node. -/
theorem wellPlaced_shown :
    ∃ json, standard.parseAddrRaw (addrOf wellPlaced) = .ok json ∧
      ∃ draft, readConnInfo json = some draft ∧ fill draft =
        { serverPublic := sampleKey
          region := [{ regionId := 1, regionCode := "1", nodes := [
            { name := "h", regionId := 1, hostName := "h" }] }] } := by
  have hnode : Shown (.map [field "h" (.text "h"), field "m" (.text "unused")]) :=
    .map (tableReads_of rfl rfl rfl) (a := []) rfl fun _ h => absurd h List.not_mem_nil
  have hregion : Shown (.map [field "N" (.array [.map [field "h" (.text "h"),
      field "m" (.text "unused")]])]) :=
    .map (tableReads_of rfl rfl rfl) rfl (List.forall_mem_singleton.2 hnode)
  have hstray : StrayReads wellPlaced :=
    .map (tableReads_of rfl rfl rfl) rfl (List.forall_mem_singleton.2 hregion)
  exact (parseAddrRaw_agrees standard parseAddr_wellPlaced.2).2
    ⟨wellPlaced, parseAddr_wellPlaced.1, hstray⟩

end Tailcat.Protocol
