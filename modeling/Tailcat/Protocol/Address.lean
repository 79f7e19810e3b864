import Tailcat.Protocol.Value

/-!
# Addresses

A server's address is `tc` followed by the unpadded URL-safe base64 of a CBOR map with its keys
and, optionally, the relay regions to reach it through.  `encodeAddr` builds the address of a
`ConnInfo` and `parseAddr` reads one.

The CBOR and base64 libraries are a parameter, `Codec`, with the round trips the program relies
on (`Codec.Lawful`).  `norm` says what an address preserves of a `ConnInfo`; that it does is proved
in `Tailcat.Protocol.AddressRoundTrip`.
-/

namespace Tailcat.Protocol

open Cbor (Value)

/-! ### Data types -/

/-- A relay node. -/
structure Node where
  name : String := ""
  regionId : Int64 := 0
  hostName : String := ""
  certName : String := ""
  ipv4 : String := ""
  ipv6 : String := ""
  stunPort : Int32 := 0
  derpPort : Int32 := 0
  insecureForTests : Bool := false
  stunOnly : Bool := false
  deriving DecidableEq, Repr

/-- A relay region. -/
structure Region where
  regionId : Int64 := 0
  regionCode : String := ""
  regionName : String := ""
  nodes : List Node := []
  deriving DecidableEq, Repr

/-- What is needed to connect to a server. -/
structure ConnInfo where
  serverPublic : Key := Key.zero
  serverDiscoPublic : Option Key := none
  presharedKey : Option Key := none
  region : List Region := []
  regionId : Int64 := 0
  deriving DecidableEq, Repr

/-- The CBOR library and the base64 engine (URL-safe, without padding). -/
structure Codec where
  /-- `ciborium::ser::into_writer` into a vector, which cannot fail. -/
  toCbor : Value → Bytes
  /-- `ciborium::de::from_reader`: the item at the front, and the bytes after it. -/
  ofCbor : Bytes → Except String (Value × Bytes)
  /-- `Engine::encode`. -/
  toBase64 : Bytes → String
  /-- `Engine::decode`. -/
  ofBase64 : String → Except String Bytes

/-- The round trips of the libraries.  The CBOR reader accepts items nested up to 256 deep; half
of that is asked of it here. -/
structure Codec.Lawful (c : Codec) : Prop where
  ofCbor_toCbor : ∀ v, v.Plain 128 → c.ofCbor (c.toCbor v) = .ok (v, [])
  ofBase64_toBase64 : ∀ b, c.ofBase64 (c.toBase64 b) = .ok b

/-! ### Encoding -/

/-- A key to publish: an all-zero key counts as none. -/
def nonzero (key : Option Key) : Option Key := key.filter fun k => k ≠ Key.zero

/-- The fields of a node. -/
def nodeFields (n : Node) : Fields :=
  let fields := []
  let fields := if n.hostName = "" then pushString fields "n" n.name else fields
  let fields := pushString fields "h" n.hostName
  let fields := pushString fields "t" n.certName
  let fields := pushString fields "4" n.ipv4
  let fields := pushString fields "6" n.ipv6
  let fields := pushInt fields "s" n.stunPort.toInt64
  let fields := pushInt fields "d" n.derpPort.toInt64
  if n.insecureForTests then push fields "x" (.bool true) else fields

/-- The fields of a region: its nodes, other than those for STUN only. -/
def regionFields (r : Region) : Fields :=
  let nodes := (r.nodes.filter fun n => !n.stunOnly).map fun n => Value.map (nodeFields n)
  if nodes = [] then [] else push [] "N" (.array nodes)

/-- The fields of an address. -/
def addrFields (ci : ConnInfo) : Fields :=
  let fields := push [] "p" (.bytes ci.serverPublic.1)
  let fields := match nonzero ci.serverDiscoPublic with
    | some key => push fields "k" (.bytes key.1)
    | none => fields
  let fields := match nonzero ci.presharedKey with
    | some key => push fields "q" (.bytes key.1)
    | none => fields
  let fields := if ci.region = [] then fields
    else push fields "r" (.array (ci.region.map fun r => .map (regionFields r)))
  pushInt fields "i" ci.regionId

namespace Codec

variable (c : Codec)

/-- The address of a `ConnInfo`. -/
def encodeAddr (ci : ConnInfo) : String :=
  "tc" ++ c.toBase64 (c.toCbor (.map (addrFields ci)))

/-! ### Decoding -/

/-- The limit on the bytes of an address before base64. -/
def maxAddressBytes : ℕ := 1048576

/-- `str::strip_prefix`. -/
def stripPrefix (p s : String) : Option String :=
  if p.toList.isPrefixOf s.toList then some (String.ofList (s.toList.drop p.toList.length))
  else none

/-- The CBOR item of an address. -/
def decodeAddr (addr : String) : Except String Value :=
  match stripPrefix "tc" addr with
  | none => .error "tailcat address doesn't start with \"tc\""
  | some rest =>
    if rest.utf8ByteSize > maxAddressBytes * 4 / 3 + 4 then .error "tailcat address is too large"
    else
      match c.ofBase64 rest with
      | .error _ => .error "base64 decode"
      | .ok bytes =>
        match c.ofCbor bytes with
        | .error _ => .error "CBOR unmarshal"
        | .ok (value, reader) =>
          if reader ≠ [] then .error "trailing data after CBOR address" else .ok value

end Codec

/-- Node `ni` of region `ri`, whose identifier is `regionId`. -/
def parseNode (ri ni : ℕ) (regionId : Int64) (value : Value) : Except String Node :=
  match value with
  | .null => .error s!"invalid tailcat address: region {ri} node {ni} is null"
  | value => do
    let fields ← asMap value
    let name ← readString fields "n"
    let id ← readInt fields "i"
    let hostName ← readString fields "h"
    let certName ← readString fields "t"
    let ipv4 ← readString fields "4"
    let ipv6 ← readString fields "6"
    let stunPort ← readInt fields "s" >>= i32TryFrom "invalid STUN port"
    let derpPort ← readInt fields "d" >>= i32TryFrom "invalid DERP port"
    let insecureForTests ← readBool fields "x"
    return {
      name := if name = "" then hostName else name
      regionId := if id = 0 then regionId else id
      hostName, certName, ipv4, ipv6, stunPort, derpPort, insecureForTests
      stunOnly := false }

/-- The nodes of region `ri` from index `ni` on. -/
def parseNodes (ri ni : ℕ) (regionId : Int64) : List Value → Except String (List Node)
  | [] => .ok []
  | value :: values => do
    let n ← parseNode ri ni regionId value
    let ns ← parseNodes ri (ni + 1) regionId values
    return n :: ns

/-- The identifier of region `ri` without one of its own. -/
def implicitId (ri : ℕ) : Int64 := Int64.ofNat ri + 1

/-- Region `ri`. -/
def parseRegion (ri : ℕ) (value : Value) : Except String Region :=
  match value with
  | .null => .error s!"invalid tailcat address: region {ri} is null"
  | value => do
    let fields ← asMap value
    let id ← readInt fields "i"
    let regionId := if id = 0 then implicitId ri else id
    let code ← readString fields "c"
    let regionName ← readString fields "m"
    let nodes ← readArray fields "N"
    let nodes ← parseNodes ri 0 regionId nodes
    return {
      regionId
      regionCode := if code = "" then toString regionId.toInt else code
      regionName, nodes }

/-- The regions from index `ri` on. -/
def parseRegions (ri : ℕ) : List Value → Except String (List Region)
  | [] => .ok []
  | value :: values => do
    let r ← parseRegion ri value
    let rs ← parseRegions (ri + 1) values
    return r :: rs

/-- The `ConnInfo` of a decoded address. -/
def parseValue (value : Value) : Except String ConnInfo := do
  let fields ← asMap value
  let serverPublic ← readKey fields "p"
  let serverDiscoPublic ← readKey fields "k"
  let presharedKey ← readKey fields "q"
  let regionId ← readInt fields "i"
  let regions ← readArray fields "r"
  let region ← parseRegions 0 regions
  return {
    serverPublic := serverPublic.getD Key.zero
    serverDiscoPublic
    presharedKey := nonzero presharedKey
    region, regionId }

/-- Read an address. -/
def Codec.parseAddr (c : Codec) (addr : String) : Except String ConnInfo :=
  c.decodeAddr addr >>= parseValue

/-! ### What an address preserves -/

/-- A node as an address rebuilds it, in a region with identifier `id`. -/
def normNode (id : Int64) (n : Node) : Node :=
  { n with
    name := if n.hostName = "" then n.name else n.hostName
    regionId := id
    stunOnly := false }

/-- Region `ri` as an address rebuilds it. -/
def normRegion (ri : ℕ) (r : Region) : Region where
  regionId := implicitId ri
  regionCode := toString (implicitId ri).toInt
  regionName := ""
  nodes := (r.nodes.filter fun n => !n.stunOnly).map (normNode (implicitId ri))

/-- A `ConnInfo` as its address rebuilds it: all-zero optional keys and nodes for STUN only are
dropped, the implicit fields of regions and nodes are rebuilt, everything else is kept. -/
def norm (ci : ConnInfo) : ConnInfo :=
  { ci with
    serverDiscoPublic := nonzero ci.serverDiscoPublic
    presharedKey := nonzero ci.presharedKey
    region := ci.region.mapIdx normRegion }

end Tailcat.Protocol
