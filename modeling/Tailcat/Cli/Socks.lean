import Tailcat.Cli.AddressArg
import Tailcat.Net.IpText

/-!
# The SOCKS proxy

The proxy connects to a port of the server, to another server by its address, or through the exit
node to an IP address, for which a host name is looked up.

`lookups_protected_iff` : a name with an address among its labels is looked up if and only if it has
a dot.  An argument on the command line would be refused.

A request is read from its bytes, as far as the model needs them: the kind of address, the host and
the port.  A literal address is taken as it is, an address of a server in a name is taken for that
server, and everything else is looked up by the system's resolver, which is a parameter.  So the
host name leaves the machine in the clear, and the question is for which names.

The theorem gives the condition exactly.  What `classify_address` does with an argument on the
command line is in `Cli.AddressArg`; there every label is looked at, while here only a host without
any dot is tried as an address.
-/

namespace Tailcat.Cli

open Net Protocol

/-! ### Targets -/

/-- Where a request leads. -/
inductive SocksTarget
  /-- A port of the server. -/
  | server (port : Port)
  /-- A port of the server with this address. -/
  | address (addr : List Char) (port : Port)
  /-- An address behind the exit node. -/
  | exit (target : SocketAddr)
  deriving DecidableEq

/-- An IPv4-mapped address as the IPv4 address it stands for. -/
def unmap (ip : IpAddr) : IpAddr := ip.canonical

/-- `IpAddr::is_ipv4`. -/
def isIpv4 : IpAddr → Bool
  | .v4 _ => true
  | .v6 _ => false

variable (c : Codec)

def classifySocksTarget (host : List Char) (port : Port) (resolved : List IpAddr) :
    Except String SocksTarget :=
  if host = [] ∨ host = "server.tailcat".toList then .ok (.server port)
  else if "tc".toList <+: host ∧ '.' ∉ host ∧ accepts c host then .ok (.address host port)
  else
    let ip := (parseIp host).or ((resolved.find? fun ip => isIpv4 (unmap ip)).or resolved.head?)
    match ip with
    | some ip => .ok (.exit (.new (unmap ip) port))
    | none => .error s!"no addresses found for {quoted host}"

/-- The system's resolver for host names. -/
abbrev LookupHost := List Char → Port → Except String (List IpAddr)

/-- The names looked up for a host, and the target.  `socks_connection` and `socks_udp` do the same. -/
def socksTarget (lookupHost : LookupHost) (host : List Char) (port : Port) :
    List (List Char) × Except String SocksTarget :=
  match classifySocksTarget c host port [] with
  | .ok target => ([], .ok target)
  | .error _ => ([host], lookupHost host port >>= classifySocksTarget c host port)

/-! ### Requests -/

/-- The host at the front of a request or of a datagram, and what comes after it. -/
def socksHost (kind : UInt8) (b : Bytes) : Option (List Char × Bytes) :=
  if kind = 1 then
    if h : 4 ≤ b.length then some (ipv4Text ⟨b.take 4, by simp [h]⟩, b.drop 4) else none
  else if kind = 4 then
    if h : 16 ≤ b.length then some (ipv6Text ⟨b.take 16, by simp [h]⟩, b.drop 16) else none
  else if kind = 3 then
    match b with
    | length :: b =>
      if length.toNat ≤ b.length then
        (fromUtf8 (b.take length.toNat)).map fun host => (host, b.drop length.toNat)
      else none
    | [] => none
  else none

/-- The port in the first two bytes. -/
def socksPort (b : Bytes) : Option Port :=
  match b with
  | hi :: lo :: _ => some (UInt16.ofNat (ofBeBytes16 hi lo))
  | _ => none

/-- What a client sends: a request on its connection, after the choice of the method, or a datagram
for which there is no route yet. -/
inductive SocksRequest
  | connection (request : Bytes)
  | datagram (packet : Bytes)

/-- The host and the port a client wants to reach.  An association for datagrams reaches none by
itself. -/
def SocksRequest.host : SocksRequest → Option (List Char × Port)
  | .connection (5 :: 1 :: 0 :: kind :: b) => do
    let (host, b) ← socksHost kind b
    let port ← socksPort b
    return (host, port)
  | .datagram (0 :: 0 :: 0 :: kind :: b) => do
    let (host, b) ← socksHost kind b
    let port ← socksPort b
    return (host, port)
  | _ => none

/-- The names looked up for a request. -/
def SocksRequest.lookups (lookupHost : LookupHost) (r : SocksRequest) : List (List Char) :=
  match r.host with
  | some (host, port) => (socksTarget c lookupHost host port).1
  | none => []

/-! ### What is looked up -/

variable {c}

/-- A host with an address as a label is no IP address: it has a letter no IP address has. -/
theorem parseIp_of_accepts {host label : List Char} (hlabel : label ∈ labels host)
    (h : accepts c label = true) : parseIp host = none := by
  cases hip : parseIp host with
  | none => rfl
  | some ip =>
    have ht : 't' ∈ host := mem_of_mem_splitOn hlabel ((prefix_of_accepts h).subset (by simp))
    have hchar := chars_of_parseIp hip 't' ht
    exact absurd hchar (by unfold IsIpChar; decide)

/-- A name is looked up only if it is the host, and always if it has a dot and an address. -/
theorem socksTarget_lookups (lookupHost : LookupHost) (host : List Char) (port : Port) :
    (∀ name ∈ (socksTarget c lookupHost host port).1, ∀ label ∈ labels name,
      accepts c label = false) ↔
    ('.' ∈ host → ∀ label ∈ labels host, accepts c label = false) := by
  constructor
  · intro h hdot label hlabel
    refine Bool.eq_false_iff.2 fun haccepts => ?_
    have hserver : ¬(host = [] ∨ host = "server.tailcat".toList) := by
      rintro (rfl | rfl)
      · cases hdot
      · have hfirst : ∀ label ∈ labels "server.tailcat".toList, ¬['t', 'c'] <+: label := by decide
        exact hfirst label hlabel (prefix_of_accepts haccepts)
    have hclassify : classifySocksTarget c host port [] =
        .error s!"no addresses found for {quoted host}" := by
      rw [classifySocksTarget, if_neg hserver, if_neg fun h => h.2.1 hdot,
        parseIp_of_accepts hlabel haccepts]
      rfl
    have hname : host ∈ (socksTarget c lookupHost host port).1 := by
      rw [socksTarget, hclassify]
      exact List.mem_singleton_self host
    exact Bool.false_ne_true ((h host hname label hlabel).symm.trans haccepts)
  · intro h name hname label hlabel
    unfold socksTarget at hname
    split at hname
    · cases hname
    · rename_i err hclassify
      obtain rfl := List.mem_singleton.1 hname
      by_cases hdot : '.' ∈ name
      · exact h hdot label hlabel
      · -- a host without a dot is one label, which would have been dialled as an address
        rw [labels, splitOn_of_notMem hdot, List.mem_singleton] at hlabel
        subst hlabel
        refine Bool.eq_false_iff.2 fun haccepts => ?_
        unfold classifySocksTarget at hclassify
        split_ifs at hclassify with hserver haddress
        exact haddress ⟨prefix_of_accepts haccepts, hdot, haccepts⟩

/-- **The SOCKS proxy**: it looks up no name with an address among its labels exactly if the host of
the request has no dot or no label that is an address. -/
theorem lookups_protected_iff (c : Codec) (lookupHost : LookupHost) (r : SocksRequest) :
    (∀ name ∈ r.lookups c lookupHost, ∀ label ∈ labels name, accepts c label = false) ↔
      ∀ host port, r.host = some (host, port) → '.' ∈ host →
        ∀ label ∈ labels host, accepts c label = false := by
  unfold SocksRequest.lookups
  cases hhost : r.host with
  | none => exact iff_of_true nofun nofun
  | some target =>
    obtain ⟨host, port⟩ := target
    rw [socksTarget_lookups]
    constructor
    · rintro h host' port' ⟨⟩
      exact h
    · intro h
      exact h host port rfl

/-- A client asks for a host below an address, and the proxy looks it up, though the command line
refuses it. -/
theorem lookups_address :
    let addr := "tcomFwWCAAAQIAAAAAAAAAAAAAAAAAAAAAAAAAAAAAAAAAAAAAH2FpCg"
    let host := "x." ++ addr ++ ".example"
    let r : SocksRequest := .connection
      ([5, 1, 0, 3, UInt8.ofNat host.length] ++ utf8 host.toList ++ [0, 80])
    accepts standard addr.toList = true ∧ addr.toList ∈ labels host.toList ∧
      (∀ lookupHost, r.lookups standard lookupHost = [host.toList]) ∧
      classifyAddress standard host = .error
        "argument contains a valid tailcat address as a DNS label; refusing DNS lookup" := by
  intro addr host r
  have hhost : r.host = some (host.toList, 80) := by decide +kernel
  have hclassify : classifySocksTarget standard host.toList 80 [] =
      .error s!"no addresses found for {quoted host.toList}" := by decide +kernel
  refine ⟨by decide +kernel, by decide +kernel, fun lookupHost => ?_, by decide +kernel⟩
  simp only [SocksRequest.lookups, hhost, socksTarget, hclassify]

end Tailcat.Cli
