import Tailcat.Services.Perf
import Tailcat.Lib.Loop
import Tailcat.Lib.Program
import Mathlib.Algebra.GroupWithZero.Nat
import Mathlib.Order.Bounds.Basic

/-!
# Sending for a performance test

A data stream of a test writes until a number of bytes is reached or the time is over.  The
remainder of the bytes is a `u64`, and is cut to a `usize` to get the length of the last write.

`sendTurn` is one round of `send_data`.  The pause before a write of a limited rate is left out.  It
only takes time unless it cannot be expressed: for a pause of astronomical length
`Duration::from_secs_f64`, or the addition to an `Instant`, would panic, and these panics are not
modelled.  What other streams of the test add to the shared counter in the meantime is a parameter.

`send_data_delivers_iff` : with a number of bytes to send and writes that succeed, `send_data` ends
and has written the right number of bytes, if and only if that number is not cut (TCP with a
`usize` of 32 bits) and the datagrams that reach it can be counted (UDP).
-/

namespace Tailcat.Services.Perf

/-! ### Machine integers -/

/-- The number of bits of a `usize`. -/
inductive Width
  | w32 | w64
  deriving DecidableEq, Repr

/-- The number of values of a `usize`. -/
def Width.values : Width → ℕ
  | .w32 => 2 ^ 32
  | .w64 => 2 ^ 64

/-- How the program is built. -/
structure Build where
  width : Width
  /-- An addition that overflows panics; otherwise it wraps around. -/
  checks : Bool
  deriving DecidableEq, Repr

/-- Why a stream of a test has no result. -/
inductive Failure
  /-- The connection failed. -/
  | io
  /-- An addition overflowed. -/
  | overflow
  /-- An index is out of range. -/
  | range
  deriving DecidableEq, Repr

variable (b : Build)

/-- The sum of two `u64`. -/
def Build.add (x y : ℕ) : Except Failure ℕ :=
  if x + y < 2 ^ 64 then .ok (x + y)
  else if b.checks then .error .overflow
  else .ok ((x + y) % 2 ^ 64)

/-- `to_be_bytes` of a `u64`. -/
def beBytes64 (n : ℕ) : Bytes := beBytes32 (n / 2 ^ 32) ++ beBytes32 n

@[simp] theorem length_beBytes64 (n : ℕ) : (beBytes64 n).length = 8 := rfl

/-! ### What is counted -/

/-- What was counted in an interval of the test. -/
structure Interval where
  bytes : ℕ := 0
  datagrams : ℕ := 0
  deriving DecidableEq, Repr

/-- What a stream counts. -/
structure Stats where
  bytes : ℕ := 0
  duration : ℕ := 0
  datagrams : ℕ := 0
  reordered : ℕ := 0
  jitter : ℕ := 0
  intervals : List Interval := []
  deriving DecidableEq, Repr

/-- `Vec::resize_with`, with the default. -/
def resize (l : List Interval) (n : ℕ) : List Interval :=
  l.take n ++ List.replicate (n - l.length) ({} : Interval)

/-- The part of `count` that is about an interval. -/
def countInterval (intervals : List Interval) (n : ℕ) (udp : Bool) (elapsed interval : ℕ) :
    Except Failure (List Interval) :=
  let slot := elapsed / interval % b.width.values
  if interval ≠ 0 ∧ slot < 6001 then do
    let old := (resize intervals (slot + 1)).getD slot {}
    let bytes ← b.add old.bytes n
    let datagrams ← b.add old.datagrams udp.toNat
    return (resize intervals (slot + 1)).set slot { bytes, datagrams }
  else .ok intervals

/-- `count`, `elapsed` nanoseconds after the start. -/
def count (stats : Stats) (n : ℕ) (udp : Bool) (elapsed interval : ℕ) : Except Failure Stats := do
  let bytes ← b.add stats.bytes n
  let datagrams ← b.add stats.datagrams udp.toNat
  let intervals ← countInterval b stats.intervals n udp elapsed interval
  return { stats with bytes, datagrams, intervals }

/-! ### Sending -/

/-- The identifier of a test, decoded. -/
abbrev TestId := { id : Bytes // id.length = 8 }

/-- `header`: the first 32 bytes of a datagram. -/
def header (id : TestId) (stream : ℕ) (flags : UInt8) (seq now : ℕ) (data : Bytes) :
    Except Failure Bytes :=
  if data.length < 32 then .error .range
  else .ok (id.1 ++ (beBytes16 stream ++ (flags :: List.replicate 5 0 ++
    (beBytes64 seq ++ (beBytes64 now ++ data.drop 32)))))

/-- What a stream does to its connection. -/
inductive Effect
  /-- `write_all`. -/
  | write (bytes : Bytes)
  /-- A datagram is sent. -/
  | send (bytes : Bytes)
  | shutdown
  deriving DecidableEq, Repr

/-- The number of bytes of a write or a datagram. -/
def Effect.size : Effect → ℕ
  | .write bytes | .send bytes => bytes.length
  | .shutdown => 0

/-- What a stream reads and meets, in the order of its rounds and effects. -/
structure Surroundings where
  /-- The nanoseconds since the start, when a round begins and when it counts. -/
  checked : ℕ → ℕ
  counted : ℕ → ℕ
  /-- The nanoseconds since the start when the loop has ended. -/
  ended : ℕ
  /-- `now_ns`, for the datagram of a round. -/
  now : ℕ → ℕ
  /-- An effect fails. -/
  fails : ℕ → Bool
  /-- What other streams add to the shared counter before this one does. -/
  others : ℕ → ℕ

/-- A stream that sends. -/
structure Sender where
  stats : Stats := {}
  /-- The shared counter. -/
  counter : ℕ := 0
  rounds : ℕ := 0
  /-- What was done so far. -/
  log : List Effect := []
  deriving DecidableEq, Repr

/-- An effect, with `?` on its result. -/
def Sender.perform (env : Surroundings) (s : Sender) (e : Effect) : Except Failure Sender :=
  if env.fails s.log.length then .error .io else .ok { s with log := s.log ++ [e] }

section SendData

variable (env : Surroundings) (udp : Bool) (p : Params) (id : TestId) (index : ℕ)

/-- `(0..p.length).map(|i| i as u8)`. -/
def pattern (length : ℕ) : Bytes := (List.range length).map UInt8.ofNat

/-- The loop of `send_data` breaks. -/
def Sender.finished (s : Sender) : Bool :=
  0 < p.bytes && p.bytes ≤ s.stats.bytes || p.bytes = 0 && p.duration ≤ env.checked s.rounds

/-- The length of the next write. -/
def Sender.nextLength (s : Sender) : ℕ :=
  if 0 < p.bytes then min p.length ((p.bytes - s.stats.bytes) % b.width.values) else p.length

/-- The write of a round, and its length. -/
def Sender.writeNext (s : Sender) : Except Failure (ℕ × Sender) :=
  if udp then do
    let bytes ← header id index 0 s.stats.datagrams (env.now s.rounds) (pattern p.length)
    let s ← s.perform env (.send bytes)
    return (bytes.length, s)
  else do
    let s' ← s.perform env (.write ((pattern p.length).take (s.nextLength b p)))
    return (s.nextLength b p, s')

/-- The body of the loop of `send_data`. -/
def Sender.round (s : Sender) : Except Failure Sender := do
  let (n, s) ← s.writeNext b env udp p id index
  let stats ← count b s.stats n udp (env.counted s.rounds) p.interval
  return { s with
    stats
    counter := (s.counter + env.others s.rounds + n) % 2 ^ 64
    rounds := s.rounds + 1 }

/-- What `send_data` does after its loop. -/
def Sender.close (s : Sender) : Except Failure Sender := do
  let s := { s with stats.duration := env.ended % 2 ^ 64 }
  if udp then
    let fin ← header id index 2 0 (env.now s.rounds) (List.replicate 32 0)
    let s ← s.perform env (.send fin)
    let s ← s.perform env (.send fin)
    s.perform env (.send fin)
  else s.perform env .shutdown

/-- A round of `send_data`, or its end. -/
def sendTurn (s : Sender) : Sender ⊕ Except Failure Sender :=
  if s.finished env p then .inr (s.close env udp id index)
  else
    match s.round b env udp p id index with
    | .ok s' => .inl s'
    | .error e => .inr (.error e)

end SendData

/-! ### What a stream of a limited number of bytes is to do -/

/-- The bytes that a stream is to send for a number of bytes that is asked for. -/
def Params.IsTotal (p : Params) (total : ℕ) : Prop :=
  if p.proto = "udp" then IsLeast {n | p.length ∣ n ∧ p.bytes ≤ n} total else total = p.bytes

/-- What follows the data. -/
def closing (udp : Bool) (fin : Bytes) : List Effect :=
  if udp then List.replicate 3 (.send fin) else [.shutdown]

/-- A stream has sent so many bytes, and says so. -/
structure Delivers (env : Surroundings) (udp : Bool) (total : ℕ) (s : Sender) : Prop where
  log : ∃ data fin, s.log = data ++ closing udp fin ∧ (data.map Effect.size).sum = total ∧
    ∀ e ∈ data, 0 < e.size
  bytes : s.stats.bytes = total
  counter : s.counter = (((List.range s.rounds).map env.others).sum + total) % 2 ^ 64

/-- The number of bytes is not cut, and a `u64` can count the datagrams that reach it. -/
def Params.Countable (b : Build) (p : Params) : Prop :=
  (p.proto = "tcp" → b.width = .w32 → p.bytes < 2 ^ 32) ∧
    (p.proto = "udp" → p.bytes ≤ (2 ^ 64 - 1) / p.length * p.length)

instance (p : Params) : Decidable (p.Countable b) := by
  unfold Params.Countable
  infer_instance

/-! ### Counting -/

variable {b} {env : Surroundings} {udp : Bool} {p : Params} {id : TestId} {index : ℕ}
  {s s' : Sender} {stats stats' : Stats} {n x y z : ℕ}

theorem add_of_lt (h : x + y < 2 ^ 64) : b.add x y = .ok (x + y) := if_pos h

theorem lt_of_add (h : b.add x y = .ok z) : z < 2 ^ 64 := by
  unfold Build.add at h
  split at h
  · cases h
    assumption
  · split at h
    · cases h
    · cases h
      exact Nat.mod_lt _ (by omega)

theorem eq_of_add (hlt : x + y < 2 ^ 64) (h : b.add x y = .ok z) : z = x + y := by
  rw [add_of_lt hlt] at h
  cases h
  rfl

/-- What `count` changes, if it does not panic. -/
structure Counted (b : Build) (n : ℕ) (udp : Bool) (stats stats' : Stats) : Prop where
  bytes : b.add stats.bytes n = .ok stats'.bytes
  datagrams : b.add stats.datagrams udp.toNat = .ok stats'.datagrams
  duration : stats'.duration = stats.duration
  reordered : stats'.reordered = stats.reordered
  jitter : stats'.jitter = stats.jitter

theorem counted_of_count {elapsed interval : ℕ}
    (h : count b stats n udp elapsed interval = .ok stats') : Counted b n udp stats stats' := by
  unfold count at h
  obtain ⟨bytes, hbytes, h⟩ := Program.except_bind_eq_ok.1 h
  obtain ⟨datagrams, hdatagrams, h⟩ := Program.except_bind_eq_ok.1 h
  obtain ⟨intervals, -, h⟩ := Program.except_bind_eq_ok.1 h
  cases h
  exact ⟨hbytes, hdatagrams, rfl, rfl, rfl⟩

/-- No interval has counted more than so many bytes and datagrams. -/
def Within (intervals : List Interval) (bytes datagrams : ℕ) : Prop :=
  ∀ v ∈ intervals, v.bytes ≤ bytes ∧ v.datagrams ≤ datagrams

theorem Within.resize {intervals : List Interval} {bytes datagrams : ℕ}
    (h : Within intervals bytes datagrams) (n : ℕ) :
    Within (resize intervals n) bytes datagrams := by
  intro v hv
  obtain hv | hv := List.mem_append.1 hv
  · exact h v (List.mem_of_mem_take hv)
  · rw [List.eq_of_mem_replicate hv]
    exact ⟨Nat.zero_le _, Nat.zero_le _⟩

theorem Within.getD {intervals : List Interval} {bytes datagrams : ℕ}
    (h : Within intervals bytes datagrams) (i : ℕ) :
    (intervals.getD i {}).bytes ≤ bytes ∧ (intervals.getD i {}).datagrams ≤ datagrams := by
  rw [List.getD_eq_getElem?_getD]
  cases hi : intervals[i]? with
  | none => exact ⟨Nat.zero_le _, Nat.zero_le _⟩
  | some v => exact h v (List.mem_of_getElem? hi)

/-- While the sums of a stream fit, those of its intervals do. -/
theorem countInterval_of_lt {intervals : List Interval} {bytes datagrams : ℕ}
    (h : Within intervals bytes datagrams) (hbytes : bytes + n < 2 ^ 64)
    (hdatagrams : datagrams + udp.toNat < 2 ^ 64) (elapsed interval : ℕ) :
    ∃ intervals', countInterval b intervals n udp elapsed interval = .ok intervals' ∧
      Within intervals' (bytes + n) (datagrams + udp.toNat) := by
  unfold countInterval
  dsimp only
  generalize elapsed / interval % b.width.values = slot
  split
  · obtain ⟨hold, hold'⟩ := (h.resize (slot + 1)).getD slot
    generalize (resize intervals (slot + 1)).getD slot {} = old at hold hold'
    have hadd : b.add old.bytes n = .ok (old.bytes + n) := add_of_lt (by omega)
    have hadd' : b.add old.datagrams udp.toNat = .ok (old.datagrams + udp.toNat) :=
      add_of_lt (by omega)
    rw [hadd, hadd']
    refine ⟨_, rfl, ?_⟩
    intro v hv
    obtain hv | rfl := List.mem_or_eq_of_mem_set hv
    · have hle := h.resize (slot + 1) v hv
      omega
    · exact ⟨Nat.add_le_add_right hold _, Nat.add_le_add_right hold' _⟩
  · refine ⟨intervals, rfl, ?_⟩
    intro v hv
    have hle := h v hv
    omega

/-- While the sums of a stream fit, nothing in `count` overflows. -/
theorem count_of_lt (hwithin : Within stats.intervals stats.bytes stats.datagrams)
    (hbytes : stats.bytes + n < 2 ^ 64) (hdatagrams : stats.datagrams + udp.toNat < 2 ^ 64)
    (elapsed interval : ℕ) :
    ∃ stats', count b stats n udp elapsed interval = .ok stats' ∧
      Within stats'.intervals stats'.bytes stats'.datagrams := by
  obtain ⟨intervals, hintervals, hwithin'⟩ :=
    countInterval_of_lt (b := b) hwithin hbytes hdatagrams elapsed interval
  unfold count
  rw [add_of_lt hbytes, add_of_lt hdatagrams, hintervals]
  exact ⟨_, rfl, hwithin'⟩

/-! ### One round -/

theorem length_pattern (length : ℕ) : (pattern length).length = length := by
  rw [pattern, List.length_map, List.length_range]

theorem header_of_le (id : TestId) (index : ℕ) (flags : UInt8) (seq now : ℕ) {data : Bytes}
    (h : 32 ≤ data.length) :
    ∃ bytes, header id index flags seq now data = .ok bytes ∧ bytes.length = data.length := by
  refine ⟨_, if_neg (by omega), ?_⟩
  have hid := id.2
  simp only [List.length_append, List.length_cons, List.length_drop, List.length_replicate,
    length_beBytes16, length_beBytes64, hid]
  omega

/-- The number of bytes of the next round. -/
def Sender.amount (b : Build) (udp : Bool) (p : Params) (s : Sender) : ℕ :=
  if udp then p.length else s.nextLength b p

theorem nextLength_le (s : Sender) : s.nextLength b p ≤ p.length := by
  unfold Sender.nextLength
  split
  · exact Nat.min_le_left _ _
  · exact Nat.le_refl _

/-- The parameters of a datagram test leave room for a header. -/
def Roomy (udp : Bool) (p : Params) : Prop := udp = true → 32 ≤ p.length

theorem perform_of_succeeds (hok : ∀ n, env.fails n = false) (e : Effect) :
    s.perform env e = .ok { s with log := s.log ++ [e] } := by
  rw [Sender.perform, hok]
  rfl

theorem writeNext_of_succeeds (b : Build) (id : TestId) (index : ℕ) (s : Sender)
    (hok : ∀ n, env.fails n = false) (hroomy : Roomy udp p) :
    ∃ e : Effect, e.size = s.amount b udp p ∧
      s.writeNext b env udp p id index =
        .ok (s.amount b udp p, { s with log := s.log ++ [e] }) := by
  unfold Sender.writeNext Sender.amount
  cases udp with
  | false =>
    refine ⟨.write ((pattern p.length).take (s.nextLength b p)), ?_, ?_⟩
    · change ((pattern p.length).take (s.nextLength b p)).length = s.nextLength b p
      rw [List.length_take, length_pattern, Nat.min_eq_left (nextLength_le s)]
    · simp only [Bool.false_eq_true, if_false, perform_of_succeeds hok]
      rfl
  | true =>
    obtain ⟨bytes, hheader, hlength⟩ := header_of_le id index 0 s.stats.datagrams (env.now s.rounds)
      (le_of_le_of_eq (hroomy rfl) (length_pattern p.length).symm)
    rw [length_pattern] at hlength
    refine ⟨.send bytes, hlength, ?_⟩
    simp only [if_true, hheader, perform_of_succeeds hok, bind, Except.bind, hlength]
    rfl

/-- What a round does, if it does not fail. -/
structure Advances (b : Build) (env : Surroundings) (udp : Bool) (p : Params) (s s' : Sender) :
    Prop where
  log : ∃ e : Effect, e.size = s.amount b udp p ∧ s'.log = s.log ++ [e]
  stats : Counted b (s.amount b udp p) udp s.stats s'.stats
  counter : s'.counter = (s.counter + env.others s.rounds + s.amount b udp p) % 2 ^ 64
  rounds : s'.rounds = s.rounds + 1

theorem advances_of_round (hok : ∀ n, env.fails n = false) (hroomy : Roomy udp p)
    (h : s.round b env udp p id index = .ok s') : Advances b env udp p s s' := by
  obtain ⟨e, hsize, hwrite⟩ := writeNext_of_succeeds b id index s hok hroomy
  unfold Sender.round at h
  rw [hwrite] at h
  obtain ⟨_, hr, h⟩ := Program.except_bind_eq_ok.1 h
  cases hr
  obtain ⟨stats, hstats, h⟩ := Program.except_bind_eq_ok.1 h
  cases h
  exact ⟨⟨e, hsize, rfl⟩, counted_of_count hstats, rfl, rfl⟩

theorem round_of_succeeds (id : TestId) (index : ℕ) (hok : ∀ n, env.fails n = false)
    (hroomy : Roomy udp p)
    (hwithin : Within s.stats.intervals s.stats.bytes s.stats.datagrams)
    (hbytes : s.stats.bytes + s.amount b udp p < 2 ^ 64)
    (hdatagrams : s.stats.datagrams + udp.toNat < 2 ^ 64) :
    ∃ s', s.round b env udp p id index = .ok s' ∧ Advances b env udp p s s' ∧
      Within s'.stats.intervals s'.stats.bytes s'.stats.datagrams := by
  obtain ⟨e, hsize, hwrite⟩ := writeNext_of_succeeds b id index s hok hroomy
  obtain ⟨stats, hstats, hwithin'⟩ := count_of_lt (b := b) hwithin hbytes hdatagrams
    (env.counted s.rounds) p.interval
  have hround : s.round b env udp p id index = .ok { s with
      stats
      counter := (s.counter + env.others s.rounds + s.amount b udp p) % 2 ^ 64
      rounds := s.rounds + 1
      log := s.log ++ [e] } := by
    unfold Sender.round
    rw [hwrite]
    simp only [bind, Except.bind, hstats]
    rfl
  exact ⟨_, hround, advances_of_round hok hroomy hround, hwithin'⟩

/-! ### All rounds -/

/-- What is counted is what was written, and no write was empty. -/
structure Sent (env : Surroundings) (s : Sender) : Prop where
  log : (s.log.map Effect.size).sum = s.stats.bytes
  nonempty : ∀ e ∈ s.log, 0 < e.size
  counter : s.counter = (((List.range s.rounds).map env.others).sum + s.stats.bytes) % 2 ^ 64
  datagrams : s.stats.datagrams ≤ s.stats.bytes
  within : Within s.stats.intervals s.stats.bytes s.stats.datagrams

theorem sent_start (env : Surroundings) : Sent env {} where
  log := rfl
  nonempty := by simp
  counter := rfl
  datagrams := Nat.le_refl 0
  within := by simp [Within]

theorem Sent.advance (h : Sent env s) (ha : Advances b env udp p s s')
    (hwithin : Within s'.stats.intervals s'.stats.bytes s'.stats.datagrams)
    (hpos : 0 < s.amount b udp p) (hlt : s.stats.bytes + s.amount b udp p < 2 ^ 64) :
    Sent env s' := by
  obtain ⟨e, hsize, hlog⟩ := ha.log
  have hbytes := eq_of_add hlt ha.stats.bytes
  have hudp : udp.toNat ≤ 1 := Bool.toNat_le udp
  have hle := h.datagrams
  have hdatagrams := eq_of_add (by omega) ha.stats.datagrams
  refine ⟨?_, ?_, ?_, by omega, hwithin⟩
  · rw [hlog, List.map_append, List.sum_append, h.log, hbytes, ← hsize]
    simp
  · rw [hlog]
    intro e' he'
    obtain he' | he' := List.mem_append.1 he'
    · exact h.nonempty e' he'
    · rw [List.mem_singleton.1 he', hsize]
      exact hpos
  · rw [ha.counter, ha.rounds, h.counter, hbytes, List.range_succ, List.map_append,
      List.sum_append]
    simp only [List.map_cons, List.map_nil, List.sum_cons, List.sum_nil]
    omega

theorem close_of_succeeds (udp : Bool) (id : TestId) (index : ℕ) (s : Sender)
    (hok : ∀ n, env.fails n = false) :
    ∃ s' fin, s.close env udp id index = .ok s' ∧ s'.log = s.log ++ closing udp fin ∧
      s'.stats.bytes = s.stats.bytes ∧ s'.counter = s.counter ∧ s'.rounds = s.rounds := by
  cases udp with
  | false =>
    simp only [Sender.close, Bool.false_eq_true, if_false, perform_of_succeeds hok]
    exact ⟨_, [], rfl, rfl, rfl, rfl, rfl⟩
  | true =>
    have hlength : 32 ≤ (List.replicate 32 (0 : UInt8)).length := Nat.le_refl 32
    obtain ⟨fin, hfin, -⟩ := header_of_le id index 2 0 (env.now s.rounds) hlength
    simp only [Sender.close, if_true, hfin, perform_of_succeeds hok, bind, Except.bind]
    refine ⟨_, fin, rfl, ?_, rfl, rfl, rfl⟩
    simp [closing, List.replicate]

theorem delivers_of_sent {closed : Sender} {fin : Bytes} (h : Sent env s)
    (hlog : closed.log = s.log ++ closing udp fin) (hbytes : closed.stats.bytes = s.stats.bytes)
    (hcounter : closed.counter = s.counter) (hrounds : closed.rounds = s.rounds) :
    Delivers env udp s.stats.bytes closed where
  log := ⟨s.log, fin, hlog, h.log, h.nonempty⟩
  bytes := hbytes
  counter := by rw [hcounter, hrounds, h.counter]

theorem finished_iff (hpositive : 0 < p.bytes) :
    s.finished env p = true ↔ p.bytes ≤ s.stats.bytes := by
  have hne : p.bytes ≠ 0 := by omega
  simp [Sender.finished, hpositive, hne]

/-- A turn ends the loop when the bytes are there. -/
theorem turn_done (hok : ∀ n, env.fails n = false) (hpositive : 0 < p.bytes)
    (hsent : Sent env s) (hdone : p.bytes ≤ s.stats.bytes) :
    ∃ closed, sendTurn b env udp p id index s = .inr (.ok closed) ∧
      Delivers env udp s.stats.bytes closed := by
  obtain ⟨closed, fin, hclosed, hlog, hbytes, hcounter, hrounds⟩ :=
    close_of_succeeds udp id index s hok
  refine ⟨closed, ?_, delivers_of_sent hsent hlog hbytes hcounter hrounds⟩
  rw [sendTurn, if_pos ((finished_iff hpositive).2 hdone), hclosed]

/-- A turn goes on while they are not, and counts what it writes. -/
theorem turn_again (hok : ∀ n, env.fails n = false) (hroomy : Roomy udp p)
    (hpositive : 0 < p.bytes) (hsent : Sent env s) (hlt : s.stats.bytes < p.bytes)
    (hpos : 0 < s.amount b udp p) (hfits : s.stats.bytes + s.amount b udp p < 2 ^ 64) :
    ∃ s', sendTurn b env udp p id index s = .inl s' ∧ Sent env s' ∧
      s'.stats.bytes = s.stats.bytes + s.amount b udp p := by
  have hdatagrams := hsent.datagrams
  have hudp : udp.toNat ≤ 1 := Bool.toNat_le udp
  obtain ⟨s', hround, hadvances, hwithin⟩ :=
    round_of_succeeds id index hok hroomy hsent.within hfits (by omega)
  refine ⟨s', ?_, hsent.advance hadvances hwithin hpos hfits,
    eq_of_add hfits hadvances.stats.bytes⟩
  have hf : ¬s.finished env p = true := by
    rw [finished_iff hpositive]
    omega
  rw [sendTurn, if_neg hf, hround]

/-- If each round brings the bytes nearer to a number that is enough, the stream sends that number
of bytes. -/
theorem exists_delivers (A : ℕ → Prop) {total : ℕ} (hok : ∀ n, env.fails n = false)
    (hroomy : Roomy udp p) (hpositive : 0 < p.bytes) (htotal : total < 2 ^ 64) (h0 : A 0)
    (hle : ∀ n, A n → n ≤ total) (hdone : ∀ n, A n → p.bytes ≤ n → n = total)
    (hnext : ∀ s : Sender, A s.stats.bytes → s.stats.bytes < p.bytes →
      0 < s.amount b udp p ∧ A (s.stats.bytes + s.amount b udp p)) :
    ∃ s, Loop.Returns (sendTurn b env udp p id index) {} (.ok s) ∧ Delivers env udp total s := by
  have hturn : ∀ s, Sent env s ∧ A s.stats.bytes →
      (∃ s', sendTurn b env udp p id index s = .inl s' ∧ (Sent env s' ∧ A s'.stats.bytes) ∧
        total - s'.stats.bytes < total - s.stats.bytes) ∨
      ∃ r, sendTurn b env udp p id index s = .inr r ∧ ∃ s', r = .ok s' ∧
        Delivers env udp total s' := by
    rintro s ⟨hsent, hA⟩
    by_cases hfinished : p.bytes ≤ s.stats.bytes
    · obtain ⟨closed, hclosed, hdelivers⟩ := turn_done hok hpositive hsent hfinished
      rw [hdone _ hA hfinished] at hdelivers
      exact .inr ⟨.ok closed, hclosed, closed, rfl, hdelivers⟩
    · obtain ⟨hpos, hA'⟩ := hnext s hA (by omega)
      have hfits := hle _ hA'
      obtain ⟨s', hs', hsent', hbytes⟩ :=
        turn_again hok hroomy hpositive hsent (by omega) hpos (by omega)
      rw [← hbytes] at hA' hfits
      exact .inl ⟨s', hs', ⟨hsent', hA'⟩, by omega⟩
  obtain ⟨_, hreturns, s, rfl, hdelivers⟩ :=
    Loop.exists_returns (fun s : Sender => total - s.stats.bytes) hturn ⟨sent_start env, h0⟩
  exact ⟨s, hreturns, hdelivers⟩

/-! ### When the number of bytes is reached -/

/-- What the check of the parameters means for a stream. -/
theorem of_validate (h : p.validate = .ok ()) :
    (p.proto = "tcp" ∨ p.proto = "udp") ∧ 0 < p.length ∧ p.length ≤ 2 ^ 20 ∧
      Roomy (p.proto = "udp" : Bool) p := by
  unfold Params.validate at h
  split at h
  · cases h
  · rename_i hproto
    split at h
    · cases h
    · split at h
      · cases h
      · split at h
        · cases h
        · rename_i hlength
          have hnames : p.proto = "tcp" ∨ p.proto = "udp" := by
            by_contra hneither
            simp_all
          refine ⟨hnames, by omega, by omega, ?_⟩
          intro hudp
          have hudp : p.proto = "udp" := by simpa using hudp
          by_contra hlt
          exact hlength (.inr (.inr ⟨hudp, fun hle => hlt hle.1⟩))

/-- Over TCP the remainder is what is written at the end, if it is not cut. -/
theorem tcp_next (hpositive : 0 < p.bytes) (hlength : 0 < p.length)
    (hwhole : p.bytes < b.width.values) (hlt : s.stats.bytes < p.bytes) :
    0 < s.amount b false p ∧ s.stats.bytes + s.amount b false p ≤ p.bytes := by
  have hmod : (p.bytes - s.stats.bytes) % b.width.values = p.bytes - s.stats.bytes :=
    Nat.mod_eq_of_lt (by omega)
  simp only [Sender.amount, Sender.nextLength, hpositive, if_true, hmod, Bool.false_eq_true,
    if_false]
  omega

/-- The least multiple of the length that is enough for the bytes. -/
def Params.rounded (p : Params) : ℕ := (p.bytes + p.length - 1) / p.length * p.length

theorem isLeast_rounded (hlength : 0 < p.length) :
    IsLeast {n | p.length ∣ n ∧ p.bytes ≤ n} p.rounded := by
  have hdiv := Nat.div_add_mod (p.bytes + p.length - 1) p.length
  have hmod := Nat.mod_lt (p.bytes + p.length - 1) hlength
  refine ⟨⟨Nat.dvd_mul_left _ _, ?_⟩, ?_⟩
  · rw [Params.rounded, Nat.mul_comm]
    omega
  · rintro n ⟨⟨k, rfl⟩, hn⟩
    rw [Params.rounded, Nat.mul_comm]
    refine Nat.mul_le_mul_left _ (Nat.le_of_lt_succ ((Nat.div_lt_iff_lt_mul hlength).2 ?_))
    rw [Nat.succ_mul, Nat.mul_comm k]
    omega

/-- Over UDP the sum is a multiple of the length all along. -/
theorem udp_next (hlength : 0 < p.length) (hdvd : p.length ∣ s.stats.bytes)
    (hlt : s.stats.bytes < p.bytes) :
    p.length ∣ s.stats.bytes + p.length ∧ s.stats.bytes + p.length ≤ p.rounded := by
  obtain ⟨k, hk⟩ := hdvd
  obtain ⟨⟨⟨n, hn⟩, hle⟩, -⟩ := isLeast_rounded hlength
  refine ⟨⟨k + 1, by rw [hk, Nat.mul_succ]⟩, ?_⟩
  have hlt' := Nat.lt_of_lt_of_le hlt hle
  rw [hk, hn] at hlt'
  have hkn : k < n := Nat.lt_of_mul_lt_mul_left hlt'
  rw [hk, hn, ← Nat.mul_succ]
  exact Nat.mul_le_mul_left _ hkn

/-- A remainder of `2 ^ 32` bytes or more, which a short `usize` cuts. -/
structure Stuck (p : Params) (s : Sender) : Prop where
  bytes : s.stats.bytes + 2 ^ 32 ≤ p.bytes
  datagrams : s.stats.datagrams = 0
  within : Within s.stats.intervals s.stats.bytes s.stats.datagrams

/-- What is written is the cut remainder at most, so that `2 ^ 32` bytes are never made up for. -/
theorem Stuck.turn (id : TestId) (index : ℕ) (h : Stuck p s)
    (hok : ∀ n, env.fails n = false) (hwidth : b.width = .w32) (hfits : p.bytes < 2 ^ 64) :
    ∃ s', sendTurn b env false p id index s = .inl s' ∧ Stuck p s' := by
  have hbytes := h.bytes
  have hpositive : 0 < p.bytes := by omega
  have hcut : s.amount b false p ≤ (p.bytes - s.stats.bytes) % 2 ^ 32 := by
    simp only [Sender.amount, Sender.nextLength, hpositive, if_true, hwidth, Width.values,
      Bool.false_eq_true, if_false]
    exact Nat.min_le_right _ _
  have hroomy : Roomy false p := fun h => by cases h
  have hmod := Nat.mod_le (p.bytes - s.stats.bytes) (2 ^ 32)
  have hsum : s.stats.bytes + s.amount b false p < 2 ^ 64 := by omega
  have hcounted : s.stats.datagrams + false.toNat < 2 ^ 64 := by
    rw [h.datagrams]
    decide
  obtain ⟨s', hround, hadvances, hwithin⟩ :=
    round_of_succeeds (b := b) id index hok hroomy h.within hsum hcounted
  have hbytes' := eq_of_add hsum hadvances.stats.bytes
  have hdatagrams := eq_of_add hcounted hadvances.stats.datagrams
  refine ⟨s', ?_, by omega, by rw [hdatagrams, h.datagrams]; rfl, hwithin⟩
  have hf : ¬s.finished env p = true := by
    rw [finished_iff hpositive]
    omega
  rw [sendTurn, if_neg hf, hround]

/-- The loop does not end: from some round on it writes nothing. -/
theorem tcp_never_returns (hok : ∀ n, env.fails n = false) (hwidth : b.width = .w32)
    (hbytes : 2 ^ 32 ≤ p.bytes) (hfits : p.bytes < 2 ^ 64) (r : Except Failure Sender) :
    ¬Loop.Returns (sendTurn b env false p id index) {} r := by
  intro h
  refine h.post (I := Stuck p) (P := fun _ => False) (fun s s' hI hturn => ?_)
    (fun s r hI hturn => ?_) ⟨by simpa using hbytes, rfl, by simp [Within]⟩
  · obtain ⟨s'', hs'', hI'⟩ := hI.turn id index hok hwidth hfits
    cases hs''.symm.trans hturn
    exact hI'
  · obtain ⟨s'', hs'', -⟩ := hI.turn id index hok hwidth hfits
    cases hs''.symm.trans hturn

/-- What a stream says it has sent fits a `u64`. -/
theorem bytes_lt (hok : ∀ n, env.fails n = false) (hroomy : Roomy udp p)
    (h : Loop.Returns (sendTurn b env udp p id index) {} (.ok s)) : s.stats.bytes < 2 ^ 64 := by
  have hpost := h.post (I := fun s => s.stats.bytes < 2 ^ 64)
    (P := fun r => ∀ s, r = .ok s → s.stats.bytes < 2 ^ 64) (fun s s' _ hturn => ?_)
    (fun s r hI hturn => ?_) (by decide)
  · exact hpost s rfl
  · unfold sendTurn at hturn
    split at hturn
    · cases hturn
    · split at hturn
      · rename_i hround
        cases hturn
        exact lt_of_add (advances_of_round hok hroomy hround).stats.bytes
      · cases hturn
  · unfold sendTurn at hturn
    split at hturn
    · obtain ⟨closed, -, hclosed, -, hbytes, -, -⟩ := close_of_succeeds udp id index s hok
      cases hturn
      rintro s' hs'
      cases hclosed.symm.trans hs'
      rw [hbytes]
      exact hI
    · split at hturn
      · cases hturn
      · cases hturn
        rintro s' hs'
        cases hs'

/-- A multiple of the length that is enough fits a `u64` exactly if the greatest multiple that fits
is enough. -/
theorem rounded_lt_iff (hlength : 0 < p.length) :
    p.rounded < 2 ^ 64 ↔ p.bytes ≤ (2 ^ 64 - 1) / p.length * p.length := by
  have hleast := isLeast_rounded hlength
  constructor
  · intro h
    obtain ⟨k, hk⟩ := hleast.1.1
    refine Nat.le_trans hleast.1.2 ?_
    rw [hk, Nat.mul_comm] at h ⊢
    exact Nat.mul_le_mul_right _ ((Nat.le_div_iff_mul_le hlength).2 (by omega))
  · intro h
    have hle := hleast.2 ⟨Nat.dvd_mul_left _ _, h⟩
    have hfits := Nat.div_mul_le_self (2 ^ 64 - 1) p.length
    omega

/-- A datagram stream sends its bytes if whole datagrams for them can be counted. -/
theorem udp_delivers_iff (hok : ∀ n, env.fails n = false) (hroomy : Roomy true p)
    (hpositive : 0 < p.bytes) (hlength : 0 < p.length) :
    (∃ total s, Loop.Returns (sendTurn b env true p id index) {} (.ok s) ∧
      IsLeast {n | p.length ∣ n ∧ p.bytes ≤ n} total ∧ Delivers env true total s) ↔
      p.bytes ≤ (2 ^ 64 - 1) / p.length * p.length := by
  rw [← rounded_lt_iff hlength]
  constructor
  · rintro ⟨total, s, hreturns, htotal, hdelivers⟩
    rw [(isLeast_rounded hlength).unique htotal, ← hdelivers.bytes]
    exact bytes_lt hok hroomy hreturns
  · intro hlt
    obtain ⟨s, hreturns, hdelivers⟩ := exists_delivers (b := b)
      (fun n => p.length ∣ n ∧ n ≤ p.rounded) hok hroomy hpositive hlt
      ⟨Nat.dvd_zero _, Nat.zero_le _⟩ (fun n hn => hn.2)
      (fun n hn hle => Nat.le_antisymm hn.2 ((isLeast_rounded hlength).2 ⟨hn.1, hle⟩))
      (fun s hs hlt => ⟨hlength, udp_next hlength hs.1 hlt⟩)
    exact ⟨p.rounded, s, hreturns, isLeast_rounded hlength, hdelivers⟩

/-- A byte stream sends its bytes if their number is not cut. -/
theorem tcp_delivers_iff (hok : ∀ n, env.fails n = false) (hpositive : 0 < p.bytes)
    (hlength : 0 < p.length) (hfits : p.bytes < 2 ^ 64) :
    (∃ total s, Loop.Returns (sendTurn b env false p id index) {} (.ok s) ∧ total = p.bytes ∧
      Delivers env false total s) ↔ (b.width = .w32 → p.bytes < 2 ^ 32) := by
  have hroomy : Roomy false p := fun h => by cases h
  constructor
  · rintro ⟨total, s, hreturns, -⟩ hwidth
    by_contra hge
    exact tcp_never_returns hok hwidth (by omega) hfits _ hreturns
  · intro hshort
    have hwhole : p.bytes < b.width.values := by
      cases hwidth : b.width with
      | w32 => exact hshort hwidth
      | w64 => exact hfits
    obtain ⟨s, hreturns, hdelivers⟩ := exists_delivers (b := b) (fun n => n ≤ p.bytes) hok hroomy
      hpositive hfits (Nat.zero_le _) (fun n hn => hn) (fun n hn hle => Nat.le_antisymm hn hle)
      (fun s _ hlt => tcp_next hpositive hlength hwhole hlt)
    exact ⟨p.bytes, s, hreturns, rfl, hdelivers⟩

/-- **A stream of a limited number of bytes, whose writes succeed, ends and has sent the right
number of bytes, no write being empty, if and only if the number is not cut to a short `usize` and
the datagrams that reach it can be counted.** -/
theorem send_data_delivers_iff (b : Build) (env : Surroundings) (hok : ∀ n, env.fails n = false)
    (p : Params) (hp : p.validate = .ok ()) (hpositive : 0 < p.bytes) (hfits : p.bytes < 2 ^ 64)
    (id : TestId) (index : ℕ) :
    (∃ total s, Loop.Returns (sendTurn b env (p.proto = "udp" : Bool) p id index) {} (.ok s) ∧
      p.IsTotal total ∧ Delivers env (p.proto = "udp" : Bool) total s) ↔ p.Countable b := by
  obtain ⟨hproto, hlength, -, hroomy⟩ := of_validate hp
  unfold Params.IsTotal Params.Countable
  obtain htcp | hudp := hproto
  · have hne : ¬("tcp" = "udp") := by decide
    simp only [htcp, hne, if_false, decide_false, true_implies, false_implies, and_true]
    exact tcp_delivers_iff hok hpositive hlength hfits
  · have hne : ¬("udp" = "tcp") := by decide
    simp only [hudp, decide_true] at hroomy
    simp only [hudp, hne, if_true, decide_true, true_implies, false_implies, true_and]
    exact udp_delivers_iff hok hroomy hpositive hlength

/-- Surroundings in which nothing fails and no one else sends. -/
def calm : Surroundings where
  checked _ := 0
  counted _ := 0
  ended := 0
  now _ := 0
  fails _ := false
  others _ := 0

/-- A TCP test of `2 ^ 32` bytes. -/
def fourGiB : Params :=
  { proto := "tcp", dir := "up", bytes := 2 ^ 32, streams := 1, length := 2 ^ 17 }

/-- With a `usize` of 32 bits, a test of `2 ^ 32` bytes does not end. -/
theorem four_gib_never_sent : fourGiB.validate = .ok () ∧
    ¬∃ total s, Loop.Returns (sendTurn ⟨.w32, false⟩ calm (fourGiB.proto = "udp" : Bool) fourGiB
      ⟨List.replicate 8 0, rfl⟩ 0) {} (.ok s) ∧ fourGiB.IsTotal total ∧
        Delivers calm (fourGiB.proto = "udp" : Bool) total s := by
  refine ⟨by decide +kernel, ?_⟩
  rintro ⟨total, s, hreturns, -⟩
  have hok : ∀ n, calm.fails n = false := fun _ => rfl
  exact tcp_never_returns (b := ⟨.w32, false⟩) (p := fourGiB) hok rfl (by decide) (by decide) _
    hreturns

/-- With 64 bits it ends, and `2 ^ 32` bytes are sent. -/
theorem four_gib_sent : ∃ total s,
    Loop.Returns (sendTurn ⟨.w64, false⟩ calm (fourGiB.proto = "udp" : Bool) fourGiB
      ⟨List.replicate 8 0, rfl⟩ 0) {} (.ok s) ∧ fourGiB.IsTotal total ∧
        Delivers calm (fourGiB.proto = "udp" : Bool) total s :=
  (send_data_delivers_iff ⟨.w64, false⟩ calm (fun _ => rfl) fourGiB (by decide +kernel) (by decide)
    (by decide) ⟨List.replicate 8 0, rfl⟩ 0).2 (by decide +kernel)

end Tailcat.Services.Perf
