import Tailcat.Protocol.Address
import Tailcat.Lib.Base64

/-!
# Addresses round trip

`parseAddr_encodeAddr` : the address of a `ConnInfo` is read back as what an address preserves of
it, `norm`.  The proof follows the nesting: nodes (`parseNode_nodeFields`), regions
(`parseRegion_regionFields`), the whole map (`parseValue_addrFields`), and last the two libraries.
`addrFields_norm` says that nothing an address encodes is lost in `norm`.

The codec of an address has two layers, a map of fields and the binary format around it, and the
second is a parameter with its law (`Codec`); here only the first is worked on.  Fields with default
values are left out when writing and put back when reading, and some are implied by others, such as
the number of a node by its place.  What cannot be expressed is dropped (`norm`), and only that: a
map that was already read back is read back unchanged.

Two things are needed of the library besides its law: that what the writer produces is in the part
of the format it promises to read (`PlainFields`), and that it is not nested too deeply.
-/

namespace Tailcat.Protocol

open Cbor (Value)

theorem lookup_ite (p : Prop) [Decidable p] (f g : Fields) (name : String) :
    lookup (if p then f else g) name = if p then lookup f name else lookup g name := by
  split_ifs <;> rfl

/-! ### Nodes -/

theorem i64TryFrom_toInt32 (i : Int32) : i64TryFrom i.toInt = .ok i.toInt64 := by
  rw [← Int32.toInt_toInt64, i64TryFrom_toInt]

/-- The texts of a node are read back. -/
theorem readString_nodeFields (n : Node) :
    readString (nodeFields n) "n" = .ok (if n.hostName = "" then n.name else "") ∧
      readString (nodeFields n) "h" = .ok n.hostName ∧
      readString (nodeFields n) "t" = .ok n.certName ∧
      readString (nodeFields n) "4" = .ok n.ipv4 ∧
      readString (nodeFields n) "6" = .ok n.ipv6 := by
  refine ⟨?_, ?_, ?_, ?_, ?_⟩ <;> simp [readString, nodeFields, lookup_ite] <;> split_ifs <;>
    simp_all

/-- The ports and the flag of a node are read back; the region identifier is left out. -/
theorem readInt_nodeFields (n : Node) :
    readInt (nodeFields n) "i" = .ok 0 ∧
      readInt (nodeFields n) "s" = .ok n.stunPort.toInt64 ∧
      readInt (nodeFields n) "d" = .ok n.derpPort.toInt64 ∧
      readBool (nodeFields n) "x" = .ok n.insecureForTests := by
  refine ⟨?_, ?_, ?_, ?_⟩ <;> simp [readInt, readBool, nodeFields, lookup_ite] <;> split_ifs <;>
    simp_all [i64TryFrom_toInt32]

theorem parseNode_nodeFields (ri ni : ℕ) (id : Int64) (n : Node) :
    parseNode ri ni id (.map (nodeFields n)) = .ok (normNode id n) := by
  obtain ⟨hn, hh, ht, h4, h6⟩ := readString_nodeFields n
  obtain ⟨hi, hs, hd, hx⟩ := readInt_nodeFields n
  simp only [parseNode, asMap, bind, Except.bind, hn, hh, ht, h4, h6, hi, hs, hd, hx,
    i32TryFrom_toInt64, pure, Except.pure, normNode]
  by_cases h : n.hostName = "" <;> simp [h]

theorem parseNodes_map (ri ni : ℕ) (id : Int64) (ns : List Node) :
    parseNodes ri ni id (ns.map fun n => .map (nodeFields n)) = .ok (ns.map (normNode id)) := by
  induction ns generalizing ni with
  | nil => rfl
  | cons n ns ih =>
    simp only [List.map_cons, parseNodes, parseNode_nodeFields, ih, bind, Except.bind, pure,
      Except.pure]

/-! ### Regions -/

theorem readArray_regionFields (r : Region) :
    readArray (regionFields r) "N" =
      .ok ((r.nodes.filter fun n => !n.stunOnly).map fun n => .map (nodeFields n)) := by
  simp only [readArray, regionFields]
  generalize (r.nodes.filter fun n => !n.stunOnly).map (fun n => Value.map (nodeFields n)) = vs
  split_ifs with h
  · simp [h]
  · rw [lookup_push, if_pos rfl]

theorem lookup_regionFields (r : Region) {name : String} (h : "N" ≠ name) :
    lookup (regionFields r) name = none := by
  simp only [regionFields]
  generalize (r.nodes.filter fun n => !n.stunOnly).map (fun n => Value.map (nodeFields n)) = vs
  split_ifs
  · rfl
  · rw [lookup_push, if_neg h, lookup_nil]

theorem parseRegion_regionFields (ri : ℕ) (r : Region) :
    parseRegion ri (.map (regionFields r)) = .ok (normRegion ri r) := by
  have hi : readInt (regionFields r) "i" = .ok 0 := by
    rw [readInt, lookup_regionFields r (by decide)]
  have hc : readString (regionFields r) "c" = .ok "" := by
    rw [readString, lookup_regionFields r (by decide)]
  have hm : readString (regionFields r) "m" = .ok "" := by
    rw [readString, lookup_regionFields r (by decide)]
  simp only [parseRegion, asMap, bind, Except.bind, hi, hc, hm, readArray_regionFields, if_true,
    parseNodes_map, pure, Except.pure, normRegion]

theorem parseRegions_map (ri : ℕ) (rs : List Region) :
    parseRegions ri (rs.map fun r => .map (regionFields r)) =
      .ok (rs.mapIdx fun i r => normRegion (ri + i) r) := by
  induction rs generalizing ri with
  | nil => rfl
  | cons r rs ih =>
    simp only [List.map_cons, parseRegions, parseRegion_regionFields, ih, bind, Except.bind, pure,
      Except.pure, List.mapIdx_cons, Nat.add_zero]
    simp only [Nat.add_assoc, Nat.add_comm 1]

/-! ### The whole map -/

theorem readKey_addrFields (ci : ConnInfo) :
    readKey (addrFields ci) "p" = .ok (some ci.serverPublic) ∧
      readKey (addrFields ci) "k" = .ok (nonzero ci.serverDiscoPublic) ∧
      readKey (addrFields ci) "q" = .ok (nonzero ci.presharedKey) := by
  cases hk : nonzero ci.serverDiscoPublic <;> cases hq : nonzero ci.presharedKey <;>
    simp [readKey, addrFields, hk, hq, lookup_ite]

theorem readInt_addrFields (ci : ConnInfo) :
    readInt (addrFields ci) "i" = .ok ci.regionId := by
  cases hk : nonzero ci.serverDiscoPublic <;> cases hq : nonzero ci.presharedKey <;>
    simp [readInt, addrFields, hk, hq, lookup_ite] <;> split_ifs <;>
    simp_all [i64TryFrom_toInt]

theorem readArray_addrFields (ci : ConnInfo) :
    readArray (addrFields ci) "r" = .ok (ci.region.map fun r => .map (regionFields r)) := by
  cases hk : nonzero ci.serverDiscoPublic <;> cases hq : nonzero ci.presharedKey <;>
    simp [readArray, addrFields, hk, hq, lookup_ite] <;> split_ifs <;> simp_all

theorem nonzero_nonzero (key : Option Key) : nonzero (nonzero key) = nonzero key := by
  simp only [nonzero, Option.filter_filter, Bool.and_self]

theorem parseValue_addrFields (ci : ConnInfo) :
    parseValue (.map (addrFields ci)) = .ok (norm ci) := by
  obtain ⟨hp, hk, hq⟩ := readKey_addrFields ci
  simp only [parseValue, asMap, bind, Except.bind, hp, hk, hq, readInt_addrFields,
    readArray_addrFields, parseRegions_map, pure, Except.pure, norm, nonzero_nonzero,
    Option.getD_some, Nat.zero_add]

/-! ### Encoding again -/

theorem nodeFields_normNode (id : Int64) (n : Node) :
    nodeFields (normNode id n) = nodeFields n := by
  by_cases h : n.hostName = "" <;> simp [nodeFields, normNode, h]

theorem regionFields_normRegion (ri : ℕ) (r : Region) :
    regionFields (normRegion ri r) = regionFields r := by
  have hf : (((r.nodes.filter fun n => !n.stunOnly).map (normNode (implicitId ri))).filter
      fun n => !n.stunOnly) =
        (r.nodes.filter fun n => !n.stunOnly).map (normNode (implicitId ri)) :=
    List.filter_eq_self.2 fun n hn => by
      obtain ⟨m, -, rfl⟩ := List.mem_map.1 hn
      rfl
  simp only [regionFields, normRegion, hf, List.map_map, Function.comp_def, nodeFields_normNode]

/-- Everything an address encodes of a `ConnInfo` is still there in what it is read back as. -/
theorem addrFields_norm (ci : ConnInfo) : addrFields (norm ci) = addrFields ci := by
  have hr : ((ci.region.mapIdx normRegion).map fun r => Value.map (regionFields r)) =
      ci.region.map fun r => .map (regionFields r) := by
    apply List.ext_getElem
    · simp
    · intro i h1 h2
      simp [regionFields_normRegion]
  have he : ci.region.mapIdx normRegion = [] ↔ ci.region = [] := by simp
  simp only [addrFields, norm, nonzero_nonzero, hr, he]

/-! ### The libraries -/

/-- Fields the CBOR library reads back, nested less than `n` deep. -/
def PlainFields (n : ℕ) (fields : Fields) : Prop :=
  ∀ kv ∈ fields, kv.1.Plain n ∧ kv.2.Plain n

theorem PlainFields.nil (n : ℕ) : PlainFields n [] := fun _ h => absurd h List.not_mem_nil

theorem PlainFields.push {n : ℕ} {fields : Fields} (h : PlainFields (n + 1) fields)
    (name : String) {v : Value} (hv : v.Plain (n + 1)) :
    PlainFields (n + 1) (push fields name v) := by
  intro kv hkv
  rcases List.mem_append.1 hkv with hkv | hkv
  · exact h kv hkv
  · obtain rfl := List.mem_singleton.1 hkv
    exact ⟨trivial, hv⟩

theorem PlainFields.pushString {n : ℕ} {fields : Fields} (h : PlainFields (n + 1) fields)
    (name text : String) : PlainFields (n + 1) (pushString fields name text) := by
  unfold Protocol.pushString
  split_ifs
  · exact h.push name trivial
  · exact h

theorem PlainFields.pushInt {n : ℕ} {fields : Fields} (h : PlainFields (n + 1) fields)
    (name : String) (i : Int64) : PlainFields (n + 1) (pushInt fields name i) := by
  have h1 := i.le_toInt
  have h2 := i.toInt_lt
  unfold Protocol.pushInt
  split_ifs
  · exact h.push name ⟨by omega, by omega⟩
  · exact h

theorem plainFields_node (k : ℕ) (n : Node) : PlainFields (k + 1) (nodeFields n) := by
  have h0 : PlainFields (k + 1)
      (if n.hostName = "" then Protocol.pushString [] "n" n.name else []) := by
    split_ifs
    · exact (PlainFields.nil _).pushString _ _
    · exact PlainFields.nil _
  have h := ((((((h0.pushString "h" n.hostName).pushString "t" n.certName).pushString "4"
    n.ipv4).pushString "6" n.ipv6).pushInt "s" n.stunPort.toInt64).pushInt "d" n.derpPort.toInt64)
  unfold nodeFields
  split_ifs at h ⊢
  all_goals first | exact h | exact h.push "x" trivial

theorem plainFields_region (k : ℕ) (r : Region) : PlainFields (k + 3) (regionFields r) := by
  simp only [regionFields]
  split_ifs
  · exact PlainFields.nil _
  · refine (PlainFields.nil _).push "N" fun v hv => ?_
    obtain ⟨n, -, rfl⟩ := List.mem_map.1 hv
    exact plainFields_node k n

/-- Appending an optional key keeps the fields readable. -/
theorem PlainFields.pushKey {n : ℕ} {fields : Fields} (h : PlainFields (n + 1) fields)
    (name : String) (key : Option Key) :
    PlainFields (n + 1) (match key with
      | some key => Protocol.push fields name (.bytes key.1)
      | none => fields) := by
  cases key with
  | none => exact h
  | some key => exact h.push name (v := .bytes key.1) trivial

theorem plainFields_addr (k : ℕ) (ci : ConnInfo) : PlainFields (k + 5) (addrFields ci) := by
  have hp : PlainFields (k + 5) (Protocol.push [] "p" (.bytes ci.serverPublic.1)) :=
    (PlainFields.nil _).push "p" (v := .bytes ci.serverPublic.1) trivial
  have hkq := (hp.pushKey "k" (nonzero ci.serverDiscoPublic)).pushKey "q"
    (nonzero ci.presharedKey)
  have hr : (Value.array (ci.region.map fun r => .map (regionFields r))).Plain (k + 5) := by
    intro v hv
    obtain ⟨r, -, rfl⟩ := List.mem_map.1 hv
    exact plainFields_region k r
  simp only [addrFields]
  refine PlainFields.pushInt ?_ "i" ci.regionId
  split_ifs
  · exact hkq
  · exact hkq.push "r" hr

theorem stripPrefix_append (p s : String) : Codec.stripPrefix p (p ++ s) = some s := by
  simp [Codec.stripPrefix]

variable {c : Codec}

theorem decodeAddr_append (hc : c.Lawful) {v : Value} (hv : v.Plain 128)
    (hsize : ("tc" ++ c.toBase64 (c.toCbor v)).utf8ByteSize ≤
      2 + (Codec.maxAddressBytes * 4 / 3 + 4)) :
    c.decodeAddr ("tc" ++ c.toBase64 (c.toCbor v)) = .ok v := by
  have hcbor : c.ofCbor (c.toCbor v) = .ok (v, []) := hc.ofCbor_toCbor _ hv
  have hlen : ¬(c.toBase64 (c.toCbor v)).utf8ByteSize > Codec.maxAddressBytes * 4 / 3 + 4 := by
    rw [String.utf8ByteSize_append] at hsize
    have h2 : "tc".utf8ByteSize = 2 := rfl
    omega
  simp only [Codec.decodeAddr, stripPrefix_append, if_neg hlen, hc.ofBase64_toBase64, hcbor, ne_eq,
    not_true_eq_false, if_false]

theorem decodeAddr_encodeAddr (hc : c.Lawful) {ci : ConnInfo}
    (hsize : (c.encodeAddr ci).utf8ByteSize ≤ 2 + (Codec.maxAddressBytes * 4 / 3 + 4)) :
    c.decodeAddr (c.encodeAddr ci) = .ok (.map (addrFields ci)) :=
  decodeAddr_append hc (plainFields_addr 122 ci) hsize

/-- **Addresses round trip.**  An address within the decoder's size limit is read back as what an
address preserves of its `ConnInfo`, and encoding that again gives the same address. -/
theorem parseAddr_encodeAddr (hc : c.Lawful) (ci : ConnInfo)
    (hsize : (c.encodeAddr ci).utf8ByteSize ≤ 2 + (Codec.maxAddressBytes * 4 / 3 + 4)) :
    c.parseAddr (c.encodeAddr ci) = .ok (norm ci) ∧
      (c.parseAddr (c.encodeAddr ci)).map c.encodeAddr = .ok (c.encodeAddr ci) := by
  have hparse : c.parseAddr (c.encodeAddr ci) = .ok (norm ci) := by
    rw [Codec.parseAddr, decodeAddr_encodeAddr hc hsize]
    exact parseValue_addrFields ci
  refine ⟨hparse, ?_⟩
  rw [hparse, Except.map, Codec.encodeAddr, addrFields_norm, ← Codec.encodeAddr]

/-! ### The standard codec -/

/-- CBOR and base64 by their standards. -/
def standard : Codec where
  toCbor := Cbor.encode
  ofCbor b := match Cbor.decode 256 b with
    | some r => .ok r
    | none => .error "not CBOR"
  toBase64 b := String.ofList (Base64.encode b)
  ofBase64 s := match Base64.decode s.toList with
    | some b => .ok b
    | none => .error "not base64"

theorem standard_lawful : standard.Lawful where
  ofCbor_toCbor v hv := by
    have h := Cbor.decode_encode (show 128 ≤ 256 by omega) hv []
    rw [List.append_nil] at h
    simp only [standard, h]
  ofBase64_toBase64 b := by
    simp only [standard, String.toList_ofList, Base64.decode_encode]

/-- A server key. -/
def sampleKey : Key := ⟨[0, 1, 2] ++ List.replicate 28 0 ++ [31], rfl⟩

example : standard.encodeAddr { serverPublic := sampleKey, regionId := 10 } =
    "tcomFwWCAAAQIAAAAAAAAAAAAAAAAAAAAAAAAAAAAAAAAAAAAAH2FpCg" := by
  decide +kernel

/-- A server with a key, a disco key and a region of its own, which has a node for STUN only. -/
def sampleInfo : ConnInfo where
  serverPublic := sampleKey
  serverDiscoPublic := some Key.zero
  region := [{ regionId := 9, regionCode := "x", nodes := [
    { name := "a", hostName := "h", derpPort := -1, insecureForTests := true },
    { name := "s", stunOnly := true }, { name := "b" }] }]
  regionId := 10

/-- The sample's address is read back, without the zero key and the node for STUN only. -/
theorem parseAddr_encodeAddr_sample :
    (norm sampleInfo).region = [{ regionId := 1, regionCode := "1", nodes := [
        { name := "h", regionId := 1, hostName := "h", derpPort := -1, insecureForTests := true },
        { name := "b", regionId := 1 }] }] ∧
      standard.parseAddr (standard.encodeAddr sampleInfo) = .ok (norm sampleInfo) ∧
        (standard.parseAddr (standard.encodeAddr sampleInfo)).map standard.encodeAddr =
          .ok (standard.encodeAddr sampleInfo) :=
  ⟨by decide +kernel,
    parseAddr_encodeAddr standard_lawful sampleInfo (by decide +kernel)⟩

end Tailcat.Protocol
