import Tailcat.Lib.Transition
import Tailcat.Protocol.DiskCache

/-!
# The DERP map cache

`fetch_derp_map_cached` keeps the last body in memory and, if it may, on disk.  It asks the server
when the body is an hour old, and falls back to the body when the server does not help.

* `fetchDerpMapCached_cases` : the three ways a call goes.
* `run_serves` : what holds of every call after any others.
* `request_clock_set_back` : a clock that is set back makes an entry stale.

The server, the disk and the clock are part of each call, so a run is any sequence of their choices,
and the invariant is about the memory only: what it holds is a body that may be stored (`Storable`).
The time of an entry is compared with a clock that may be set back between the calls; then its age
cannot be computed, and the entry counts as stale by the source's own choice of a greatest age.
-/

namespace Tailcat.Protocol

open Transition

namespace MapCache

/-! ### The surroundings -/

/-- What `serde_json` and `reqwest` do. -/
structure Library where
  /-- `serde_json::from_slice`. -/
  parse : Bytes → Except String DerpMap
  /-- The error of `error_for_status_ref`. -/
  statusError : ℕ → String
  /-- The error of a header value that is not allowed. -/
  headerError : String

/-- A response of the server. -/
structure Response where
  status : ℕ
  /-- The value of its `ETag` header. -/
  etag : Option Bytes := none
  chunks : List Bytes := []
  /-- The error after the last chunk, if the body is not complete. -/
  broken : Option String := none

/-- A call, with what it meets. -/
structure Call where
  isServer : Bool := false
  /-- The files in the cache directory, if there is one. -/
  disk : Option CacheFiles := none
  /-- The time of the call. -/
  now : ℤ
  /-- The error of building the client. -/
  clientError : Option String := none
  /-- What sending the request leads to. -/
  reply : Except String Response
  /-- The time when the response is there. -/
  later : ℤ

/-- A request to the server. -/
structure Request where
  mode : String
  ifNoneMatch : Option (List Char)
  deriving DecidableEq

/-- How a call ends. -/
structure Outcome where
  result : Except String DerpMap
  /-- The request it sends. -/
  request : Option Request := none
  /-- The entry it stores in memory and, if it can, on disk. -/
  stored : Option CachedMap := none

/-! ### A call -/

/-- `HeaderValue::to_str`, or nothing. -/
def headerText (value : Option Bytes) : List Char :=
  match value with
  | some b =>
    if b.all fun c => (32 ≤ c.toNat && c.toNat < 127) || c = 9 then
      b.map fun c => Char.ofNat c.toNat
    else []
  | none => []

/-- A text may be the value of a header. -/
def isHeaderValue (text : List Char) : Bool :=
  (utf8 text).all fun b => (32 ≤ b.toNat && b.toNat ≠ 127) || b = 9

/-- The largest `Duration`, in nanoseconds. -/
def durationMax : ℕ := (2 ^ 64 - 1) * 10 ^ 9 + 999999999

/-- `SystemTime::elapsed`, a time in the future being an error. -/
def elapsed (now storedAt : ℤ) : Option ℕ :=
  if storedAt ≤ now then some (now - storedAt).toNat else none

/-- One hour, in nanoseconds. -/
def hour : ℕ := 3600 * 10 ^ 9

/-- An entry that needs no request. -/
def isFresh (now : ℤ) (c : CachedMap) : Bool :=
  (elapsed now c.storedAt).getD durationMax < hour

variable (lib : Library)

/-- The entry on disk. -/
def Call.onDisk (call : Call) : Option CachedMap :=
  call.disk.bind (readDiskCache fun data => (lib.parse data).toOption)

/-- The entry in memory, or else the one on disk. -/
def Call.cached (memory : Option CachedMap) (call : Call) : Option CachedMap :=
  memory.or (call.onDisk lib)

/-- Build a request. -/
def Call.build (cached : Option CachedMap) (call : Call) : Except String Request :=
  let mode := if call.isServer then "server" else "client"
  match call.clientError with
  | some err => .error err
  | none =>
    match cached with
    | some c =>
      if c.etag = [] then .ok { mode, ifNoneMatch := none }
      else if isHeaderValue c.etag then .ok { mode, ifNoneMatch := some c.etag }
      else .error lib.headerError
    | none => .ok { mode, ifNoneMatch := none }

/-- The body of a response, in chunks. -/
def receive (broken : Option String) : List Bytes → Bytes → Except String Bytes
  | [], data =>
    match broken with
    | some err => .error err
    | none => .ok data
  | chunk :: chunks, data =>
    if maxMapBytes < data.length + chunk.length then .error "DERP map exceeds 8 MiB"
    else receive broken chunks (data ++ chunk)

/-- The map a response stands for, and the entry to store. -/
def Call.accept (cached : Option CachedMap) (call : Call) (response : Response) :
    Except String (DerpMap × CachedMap) :=
  if response.status = 304 then
    match cached with
    | some c => do
      let map ← lib.parse c.data
      .ok (map, { c with storedAt := call.later })
    | none => .error "DERP map returned 304 without a cached representation"
  else if 400 ≤ response.status ∧ response.status < 600 then
    .error (lib.statusError response.status)
  else do
    let data ← receive response.broken response.chunks []
    let map ← (lib.parse data).mapError fun _ => "invalid DERP map JSON"
    .ok (map, { data, etag := headerText response.etag, storedAt := call.later })

/-- The entry needs no request and is a map. -/
def freshMap (cached : Option CachedMap) (now : ℤ) : Option DerpMap :=
  match cached with
  | some c => if isFresh now c then (lib.parse c.data).toOption else none
  | none => none

/-- Ask the server. -/
def Call.fetch (cached : Option CachedMap) (call : Call) : Except String (DerpMap × CachedMap) := do
  let _ ← call.build lib cached
  let response ← call.reply
  call.accept lib cached response

/-- The entry there is, when the server does not help. -/
def fallback (cached : Option CachedMap) (error : String) : Except String DerpMap :=
  match cached with
  | some c => (lib.parse c.data).mapError fun _ => error
  | none => .error error

/-- `fetch_derp_map_cached`. -/
def fetchDerpMapCached (memory : Option CachedMap) (call : Call) : Outcome :=
  let cached := call.cached lib memory
  match freshMap lib cached call.now with
  | some map => { result := .ok map }
  | none =>
    let fetched := call.fetch lib cached
    { request := (call.build lib cached).toOption
      stored := (fetched.toOption).map (·.2)
      result :=
        match fetched with
        | .ok (map, _) => .ok map
        | .error err => fallback lib cached err }

/-- The calls of a process for one URL. -/
structure Session where
  memory : Option CachedMap := none
  outcomes : List Outcome := []

/-- One more call. -/
def Session.step (s : Session) (call : Call) : Session :=
  let outcome := fetchDerpMapCached lib s.memory call
  { memory := outcome.stored.or s.memory, outcomes := s.outcomes ++ [outcome] }

/-- The entries that have been stored, the last one at the end. -/
def Session.stored (s : Session) : List CachedMap := s.outcomes.filterMap (·.stored)

/-! ### What a call does -/

/-- An entry that may be stored. -/
structure Storable (c : CachedMap) : Prop where
  length_le : c.data.length ≤ maxMapBytes
  parses : ∃ map, lib.parse c.data = .ok map

/-- A response that confirms the entry or has a body that may be stored. -/
def Response.Valid (r : Response) : Prop :=
  r.status = 304 ∨ ¬(400 ≤ r.status ∧ r.status < 600) ∧ r.broken = none ∧
    r.chunks.flatten.length ≤ maxMapBytes ∧ ∃ map, lib.parse r.chunks.flatten = .ok map

/-- The request fails, or its response is of no use. -/
def Call.Fails (call : Call) : Prop :=
  call.clientError ≠ none ∨ ∀ r, call.reply = .ok r → ¬r.Valid lib

variable {lib} {memory cached : Option CachedMap} {call : Call}

theorem receive_eq_ok {broken : Option String} {chunks : List Bytes} {data b : Bytes}
    (hdata : data.length ≤ maxMapBytes) (h : receive broken chunks data = .ok b) :
    broken = none ∧ b = data ++ chunks.flatten ∧ b.length ≤ maxMapBytes := by
  induction chunks generalizing data with
  | nil =>
    simp only [receive] at h
    split at h
    · cases h
    · cases h
      exact ⟨rfl, by simp, hdata⟩
  | cons chunk chunks ih =>
    simp only [receive] at h
    split_ifs at h with hlong
    obtain ⟨hbroken, hb, hlength⟩ := ih (by rw [List.length_append]; omega) h
    exact ⟨hbroken, by rw [hb, List.flatten_cons, List.append_assoc], hlength⟩

theorem storable_onDisk {c : CachedMap} (h : call.onDisk lib = some c) : Storable lib c := by
  obtain ⟨files, -, hread⟩ := Option.bind_eq_some_iff.1 h
  obtain ⟨-, -, -, -, -, hlength, ⟨map, hmap⟩, -⟩ := readDiskCache_eq_some hread
  refine ⟨hlength, map, ?_⟩
  cases hparse : lib.parse c.data with
  | ok map' =>
    rw [hparse] at hmap
    exact congrArg Except.ok (Option.some.inj hmap)
  | error err =>
    rw [hparse] at hmap
    cases hmap

theorem storable_cached (hmemory : ∀ c, memory = some c → Storable lib c) {c : CachedMap}
    (h : call.cached lib memory = some c) : Storable lib c := by
  unfold Call.cached at h
  cases hm : memory with
  | some m =>
    rw [hm, Option.some_or] at h
    exact hmemory c (hm.trans h)
  | none =>
    rw [hm, Option.none_or] at h
    exact storable_onDisk h

/-- What an accepted response stores. -/
theorem accept_eq_ok {r : Response} {map : DerpMap} {entry : CachedMap}
    (hcached : ∀ c, cached = some c → Storable lib c)
    (h : call.accept lib cached r = .ok (map, entry)) :
    r.Valid lib ∧ Storable lib entry ∧ lib.parse entry.data = .ok map ∧
      entry.storedAt = call.later ∧
      (r.status = 304 → ∃ c, cached = some c ∧ entry = { c with storedAt := call.later }) ∧
      (r.status ≠ 304 → entry.data = r.chunks.flatten ∧ entry.etag = headerText r.etag) := by
  unfold Call.accept at h
  split_ifs at h with hstatus herror
  · split at h
    · rename_i c
      cases hparse : lib.parse c.data with
      | error err =>
        rw [hparse] at h
        cases h
      | ok map' =>
        rw [hparse] at h
        cases h
        exact ⟨.inl hstatus, ⟨(hcached c rfl).length_le, map, hparse⟩, hparse, rfl,
          fun _ => ⟨c, rfl, rfl⟩, fun hne => absurd hstatus hne⟩
    · cases h
  · cases hreceive : receive r.broken r.chunks [] with
    | error err =>
      rw [hreceive] at h
      cases h
    | ok data =>
      obtain ⟨hbroken, hdata, hlength⟩ := receive_eq_ok (Nat.zero_le _) hreceive
      rw [List.nil_append] at hdata
      rw [hreceive] at h
      cases hparse : lib.parse data with
      | error err =>
        simp only [bind, Except.bind, hparse, Except.mapError] at h
        cases h
      | ok map' =>
        simp only [bind, Except.bind, hparse, Except.mapError] at h
        cases h
        refine ⟨.inr ⟨herror, hbroken, hdata ▸ hlength, map, hdata ▸ hparse⟩, ⟨hlength, map, hparse⟩,
          hparse, rfl, fun h304 => absurd h304 hstatus, fun _ => ⟨hdata, rfl⟩⟩

theorem freshMap_eq_some {now : ℤ} {map : DerpMap} (h : freshMap lib cached now = some map) :
    ∃ c, cached = some c ∧ isFresh now c ∧ lib.parse c.data = .ok map := by
  unfold freshMap at h
  split at h
  · rename_i c
    split_ifs at h with hage
    refine ⟨c, rfl, hage, ?_⟩
    cases hparse : lib.parse c.data with
    | ok map' =>
      rw [hparse] at h
      exact congrArg Except.ok (Option.some.inj h)
    | error err =>
      rw [hparse] at h
      cases h
  · cases h

/-- A fresh entry is the result, and nothing else happens. -/
theorem fetchDerpMapCached_of_isFresh {c : CachedMap} {map : DerpMap}
    (hc : call.cached lib memory = some c) (hage : isFresh call.now c)
    (hmap : lib.parse c.data = .ok map) :
    fetchDerpMapCached lib memory call = { result := .ok map } := by
  have hfresh : freshMap lib (some c) call.now = some map := by
    simp only [freshMap, hage, if_true, hmap]
    rfl
  rw [fetchDerpMapCached, hc, hfresh]

theorem isFresh_of_lt {now : ℤ} {c : CachedMap} (hpast : 0 ≤ now - c.storedAt)
    (hlt : now - c.storedAt < hour) : isFresh now c := by
  rw [isFresh, elapsed, if_pos (by omega), Option.getD_some]
  exact decide_eq_true (by omega)

theorem fallback_eq_ok {c : CachedMap} {map : DerpMap} (error : String)
    (hmap : lib.parse c.data = .ok map) : fallback lib (some c) error = .ok map := by
  simp only [fallback, hmap, Except.mapError]

theorem fetch_eq_ok {x : DerpMap × CachedMap} (h : call.fetch lib cached = .ok x) :
    call.clientError = none ∧ ∃ r, call.reply = .ok r ∧ call.accept lib cached r = .ok x := by
  unfold Call.fetch at h
  cases hbuild : call.build lib cached with
  | error err =>
    rw [hbuild] at h
    cases h
  | ok request =>
    cases hreply : call.reply with
    | error err =>
      rw [hbuild, hreply] at h
      cases h
    | ok r =>
      rw [hbuild, hreply] at h
      refine ⟨?_, r, rfl, h⟩
      unfold Call.build at hbuild
      cases hclient : call.clientError with
      | none => rfl
      | some err =>
        rw [hclient] at hbuild
        cases hbuild

/-- The three ways a call goes: the entry is fresh, a response is stored, or neither. -/
theorem fetchDerpMapCached_cases (memory : Option CachedMap) (call : Call) {o : Outcome}
    (ho : o = fetchDerpMapCached lib memory call) :
    (∃ c map, call.cached lib memory = some c ∧ isFresh call.now c ∧ lib.parse c.data = .ok map ∧
        o.result = .ok map ∧ o.request = none ∧ o.stored = none) ∨
      freshMap lib (call.cached lib memory) call.now = none ∧
        ((∃ map entry, call.fetch lib (call.cached lib memory) = .ok (map, entry) ∧
            o.result = .ok map ∧ o.stored = some entry) ∨
          ∃ err, o.result = fallback lib (call.cached lib memory) err ∧ o.stored = none) := by
  cases hfresh : freshMap lib (call.cached lib memory) call.now with
  | some map =>
    obtain ⟨c, hc, hage, hmap⟩ := freshMap_eq_some hfresh
    rw [fetchDerpMapCached, hfresh] at ho
    subst ho
    exact .inl ⟨c, map, hc, hage, hmap, rfl, rfl, rfl⟩
  | none =>
    rw [fetchDerpMapCached, hfresh] at ho
    refine .inr ⟨rfl, ?_⟩
    cases hfetch : call.fetch lib (call.cached lib memory) with
    | ok x =>
      rw [hfetch] at ho
      subst ho
      exact .inl ⟨x.1, x.2, rfl, rfl, rfl⟩
    | error err =>
      rw [hfetch] at ho
      subst ho
      exact .inr ⟨err, rfl, rfl⟩

/-! ### Any calls -/

/-- What holds of a call. -/
structure Session.Serves (lib : Library) (s : Session) (call : Call) : Prop where
  /-- In memory is the last entry that was stored. -/
  memory : s.memory = s.stored.getLast?
  /-- What is stored is a map of at most 8 MiB. -/
  storable : ∀ c ∈ s.stored, Storable lib c
  /-- After the first entry every call returns the last one, or the one it stores itself. -/
  last : ∀ c, s.stored.getLast? = some c → ∃ map,
    let o := fetchDerpMapCached lib s.memory call
    o.result = .ok map ∧ lib.parse (o.stored.getD c).data = .ok map
  /-- Before the first one an entry on disk is returned if it is fresh or the request fails. -/
  disk : s.stored = [] → ∀ c, call.onDisk lib = some c → isFresh call.now c ∨ call.Fails lib →
    ∃ map, (fetchDerpMapCached lib s.memory call).result = .ok map ∧ lib.parse c.data = .ok map
  /-- A request that fails stores nothing. -/
  fails : call.Fails lib → (fetchDerpMapCached lib s.memory call).stored = none ∧
    (s.step lib call).memory = s.memory
  /-- A response that confirms the entry only changes its time. -/
  confirms : ∀ r, call.reply = .ok r → r.status = 304 → (s.step lib call).memory = s.memory ∨
    ∃ c, call.cached lib s.memory = some c ∧
      (s.step lib call).memory = some { c with storedAt := call.later }
  /-- A response with a body replaces the entry. -/
  replaces : ∀ r, call.reply = .ok r → r.status ≠ 304 → (s.step lib call).memory = s.memory ∨
    (s.step lib call).memory = some
      { data := r.chunks.flatten, etag := headerText r.etag, storedAt := call.later }
  /-- There is no request in the hour after the entry was stored. -/
  quiet : ∀ c, call.cached lib s.memory = some c → 0 ≤ call.now - c.storedAt →
    call.now - c.storedAt < hour → (fetchDerpMapCached lib s.memory call).request = none

/-- What holds of a process. -/
structure Session.Inv (lib : Library) (s : Session) : Prop where
  memory : s.memory = s.stored.getLast?
  storable : ∀ c ∈ s.stored, Storable lib c

variable {s : Session}

theorem Session.Inv.storable_memory (hI : s.Inv lib) {c : CachedMap} (h : s.memory = some c) :
    Storable lib c := by
  rw [hI.memory] at h
  exact hI.storable c (List.mem_of_getLast? h)

theorem Session.stored_step (s : Session) (call : Call) : (s.step lib call).stored =
    s.stored ++ (fetchDerpMapCached lib s.memory call).stored.toList := by
  simp only [stored, step, List.filterMap_append]
  cases hstored : (fetchDerpMapCached lib s.memory call).stored <;> simp [hstored]

/-- What a call stores comes from a response that is of use. -/
theorem fetch_eq_of_stored {call : Call} {entry : CachedMap}
    (h : (fetchDerpMapCached lib memory call).stored = some entry) :
    call.clientError = none ∧ ∃ r map, call.reply = .ok r ∧
      call.accept lib (call.cached lib memory) r = .ok (map, entry) := by
  rcases fetchDerpMapCached_cases memory call rfl with
    ⟨c, map, -, -, -, -, -, hnone⟩ | ⟨-, ⟨map, entry', hfetch, -, hstored⟩ | ⟨err, -, hnone⟩⟩
  · cases hnone.symm.trans h
  · obtain rfl : entry' = entry := Option.some.inj (hstored.symm.trans h)
    obtain ⟨hclient, r, hr, haccept⟩ := fetch_eq_ok hfetch
    exact ⟨hclient, r, map, hr, haccept⟩
  · cases hnone.symm.trans h

/-- A call that finds an entry succeeds. -/
theorem Session.Inv.result (hI : s.Inv lib) {call : Call} {c : CachedMap}
    (hc : call.cached lib s.memory = some c) : ∃ map,
      (fetchDerpMapCached lib s.memory call).result = .ok map ∧
      lib.parse ((fetchDerpMapCached lib s.memory call).stored.getD c).data = .ok map := by
  have hstorable : ∀ c, call.cached lib s.memory = some c → Storable lib c :=
    fun _ => storable_cached fun _ => hI.storable_memory
  rcases fetchDerpMapCached_cases s.memory call rfl with
    ⟨c', map, hc', -, hmap, hresult, -, hnone⟩ |
      ⟨-, ⟨map, entry, hfetch, hresult, hstored⟩ | ⟨err, hresult, hnone⟩⟩
  · obtain rfl : c' = c := Option.some.inj (hc'.symm.trans hc)
    exact ⟨map, hresult, by rw [hnone]; exact hmap⟩
  · obtain ⟨-, r, -, haccept⟩ := fetch_eq_ok hfetch
    obtain ⟨-, -, hmap, -⟩ := accept_eq_ok hstorable haccept
    exact ⟨map, hresult, by rw [hstored]; exact hmap⟩
  · obtain ⟨map, hmap⟩ := (hstorable c hc).parses
    refine ⟨map, ?_, by rw [hnone]; exact hmap⟩
    rw [hresult, hc]
    exact fallback_eq_ok err hmap

theorem Session.Inv.fails (hI : s.Inv lib) {call : Call} (h : call.Fails lib) :
    (fetchDerpMapCached lib s.memory call).stored = none := by
  cases hstored : (fetchDerpMapCached lib s.memory call).stored with
  | none => rfl
  | some entry =>
    obtain ⟨hclient, r, map, hr, haccept⟩ := fetch_eq_of_stored hstored
    have hstorable : ∀ c, call.cached lib s.memory = some c → Storable lib c :=
      fun _ => storable_cached fun _ => hI.storable_memory
    rcases h with h | h
    · exact absurd hclient h
    · exact absurd (accept_eq_ok hstorable haccept).1 (h r hr)

theorem Session.Inv.step (hI : s.Inv lib) (call : Call) : (s.step lib call).Inv lib := by
  have hstorable : ∀ c, call.cached lib s.memory = some c → Storable lib c :=
    fun _ => storable_cached fun _ => hI.storable_memory
  have hmemory : (s.step lib call).memory =
      (fetchDerpMapCached lib s.memory call).stored.or s.memory := rfl
  constructor
  · rw [hmemory, s.stored_step]
    cases hstored : (fetchDerpMapCached lib s.memory call).stored with
    | none => rw [Option.none_or, Option.toList_none, List.append_nil, hI.memory]
    | some entry => rw [Option.some_or, Option.toList_some, List.getLast?_concat]
  · intro c hc
    rw [s.stored_step, List.mem_append, Option.mem_toList] at hc
    rcases hc with hc | hc
    · exact hI.storable c hc
    · obtain ⟨-, r, map, -, haccept⟩ := fetch_eq_of_stored hc
      exact (accept_eq_ok hstorable haccept).2.1

/-- **The DERP map cache**: what holds of a call after any others, whatever the server, the disk
and the clock do. -/
theorem run_serves (lib : Library) (calls : List Call) (call : Call) :
    (run (Session.step lib) {} calls).Serves lib call := by
  have hI : (run (Session.step lib) {} calls).Inv lib :=
    invariant (fun _ call hI => hI.step call) ⟨rfl, nofun⟩ calls
  generalize run (Session.step lib) {} calls = s at hI
  have hstorable : ∀ c, call.cached lib s.memory = some c → Storable lib c :=
    fun _ => storable_cached fun _ => hI.storable_memory
  have hmemory : (s.step lib call).memory =
      (fetchDerpMapCached lib s.memory call).stored.or s.memory := rfl
  refine ⟨hI.memory, hI.storable, ?_, ?_, ?_, ?_, ?_, ?_⟩
  · intro c hc
    refine hI.result (c := c) ?_
    rw [Call.cached, hI.memory, hc, Option.some_or]
  · intro hnone c hc hcase
    have hcached : call.cached lib s.memory = some c := by
      rw [Call.cached, hI.memory, hnone, List.getLast?_nil, Option.none_or, hc]
    rcases hcase with hfresh | hfails
    · obtain ⟨map, hmap⟩ := (hstorable c hcached).parses
      refine ⟨map, ?_, hmap⟩
      rw [fetchDerpMapCached_of_isFresh hcached hfresh hmap]
    · obtain ⟨map, hresult, hmap⟩ := hI.result hcached
      rw [hI.fails hfails] at hmap
      exact ⟨map, hresult, hmap⟩
  · intro h
    rw [hmemory, hI.fails h]
    exact ⟨rfl, rfl⟩
  -- the entry that is confirmed is the one there was
  · intro r hr h304
    rw [hmemory]
    cases hstored : (fetchDerpMapCached lib s.memory call).stored with
    | none => exact .inl rfl
    | some entry =>
      obtain ⟨-, r', map, hr', haccept⟩ := fetch_eq_of_stored hstored
      obtain rfl : r' = r := Except.ok.inj (hr'.symm.trans hr)
      obtain ⟨-, -, -, -, hconfirms, -⟩ := accept_eq_ok hstorable haccept
      obtain ⟨c, hc, rfl⟩ := hconfirms h304
      exact .inr ⟨c, hc, rfl⟩
  -- a new body comes with its own ETag
  · intro r hr hbody
    rw [hmemory]
    cases hstored : (fetchDerpMapCached lib s.memory call).stored with
    | none => exact .inl rfl
    | some entry =>
      obtain ⟨-, r', map, hr', haccept⟩ := fetch_eq_of_stored hstored
      obtain rfl : r' = r := Except.ok.inj (hr'.symm.trans hr)
      obtain ⟨-, -, -, htime, -, hreplaces⟩ := accept_eq_ok hstorable haccept
      obtain ⟨hdata, hetag⟩ := hreplaces hbody
      rw [← hdata, ← hetag, ← htime]
      exact .inr rfl
  · intro c hc hpast hlt
    obtain ⟨map, hmap⟩ := (hstorable c hc).parses
    rw [fetchDerpMapCached_of_isFresh hc (isFresh_of_lt hpast hlt) hmap]

/-- The clock is set back by an hour after a body is stored, and half an hour later there is a
request. -/
theorem request_clock_set_back :
    let body := ascii "\x7b\x7d"
    let lib : Library :=
      { parse := fun b => if b = body then .ok {} else .error "expected value"
        statusError := fun _ => "HTTP status error"
        headerError := "failed to parse header value" }
    let call : Call := { now := 5 * hour, reply := .ok { status := 200, chunks := [body] }, later := 5 * hour }
    let s := run (Session.step lib) {} [call]
    let next : Call := { call with now := 5 * hour - hour / 2 }
    ∃ c, s.memory = some c ∧ next.now - c.storedAt < hour ∧
      (fetchDerpMapCached lib s.memory next).request = some { mode := "client", ifNoneMatch := none } := by
  refine ⟨_, rfl, ?_, ?_⟩
  · decide
  · decide +kernel

end MapCache

end Tailcat.Protocol
