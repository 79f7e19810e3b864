import Tailcat.Services.PerfSend
import Mathlib.Data.List.GetD

/-!
# Receiving for a performance test

A stream of datagrams counts those that carry the identifier of its test, and tells from their
sequence numbers which of them came late.  The jitter is a floating-point number that nothing else
depends on; its numbers are a parameter.

`receive_data_counts_iff` : nothing overflows and the counts are right if and only if no datagram
that is counted has the greatest sequence number, and a `u64` can count the bytes.

The counts are defined from the list of datagrams that the loop has taken (`Counts`), and the loop
is compared with them turn by turn (`Hears`).  The number expected next is one more than the
greatest there was, and the greatest of all has none; apart from this and the sum of the bytes
nothing can overflow, the differences of times included.
-/

namespace Tailcat.Services.Perf

/-! ### Datagrams -/

/-- `u64::from_be_bytes`, of eight bytes from an offset on. -/
def u64At (data : Bytes) (offset : ℕ) : ℕ :=
  ofBeBytes32 (data.getD offset 0) (data.getD (offset + 1) 0) (data.getD (offset + 2) 0)
      (data.getD (offset + 3) 0) * 2 ^ 32 +
    ofBeBytes32 (data.getD (offset + 4) 0) (data.getD (offset + 5) 0) (data.getD (offset + 6) 0)
      (data.getD (offset + 7) 0)

/-- The flags of a datagram. -/
def flags (data : Bytes) : UInt8 := data.getD 10 0

/-- The sequence number of a datagram. -/
def seqOf (data : Bytes) : ℕ := u64At data 16

/-- When a datagram was sent, by its sender. -/
def stampOf (data : Bytes) : ℕ := u64At data 24

/-! ### Signed integers -/

variable (b : Build)

/-- A value of `i128`, if it is one. -/
def Build.i128 (x : ℤ) : Except Failure ℤ :=
  if -((2 ^ 127 : ℕ) : ℤ) ≤ x ∧ x < (2 ^ 127 : ℕ) then .ok x
  else if b.checks then .error .overflow
  else .ok (x.bmod (2 ^ 128))

/-! ### The receiver -/

/-- The numbers of the jitter. -/
structure Floats (F : Type) where
  zero : F
  /-- A sixteenth of the way to an `i128`. -/
  smooth : F → ℤ → F
  /-- `as u64`. -/
  round : F → ℕ

/-- What the clocks say while an arrival is looked at. -/
structure Clock where
  /-- The nanoseconds since 1970. -/
  wall : ℕ
  /-- The nanoseconds since the start, when it has arrived. -/
  arrived : ℕ
  /-- The nanoseconds since the start, when the duration is taken. -/
  measured : ℕ
  /-- The nanoseconds since the start, when it is counted. -/
  counted : ℕ

/-- `now_ns`. -/
def Clock.nowNs (clock : Clock) : ℕ := clock.wall % 2 ^ 64

/-- What a stream that receives waits for. -/
inductive Arrival
  /-- A datagram, or what was read. -/
  | data (bytes : Bytes) (clock : Clock)
  /-- The connection fails. -/
  | failed
  /-- The other side is done. -/
  | changed
  /-- The time after that is over. -/
  | deadline

/-- A stream that receives. -/
structure Receiver (F : Type) where
  stats : Stats := {}
  /-- The sequence number after the greatest one so far. -/
  expected : ℕ := 0
  transit : Option ℤ := none
  jitter : F
  /-- When the first arrival was counted. -/
  first : Option ℕ := none
  /-- The shared counter. -/
  counter : ℕ := 0

section ReceiveData

variable {F : Type} (floats : Floats F) (udp : Bool) (p : Params) (id : TestId)

/-- The sequence number of a datagram is looked at. -/
def Receiver.order (r : Receiver F) (seq : ℕ) : Except Failure (Receiver F) :=
  if seq < r.expected then do
    let reordered ← b.add r.stats.reordered 1
    return { r with stats.reordered := reordered }
  else do
    let expected ← b.add seq 1
    return { r with expected }

/-- `(current - old).abs()`. -/
def Build.distance (current old : ℤ) : Except Failure ℤ := do
  let difference ← b.i128 (current - old)
  b.i128 difference.natAbs

/-- The transit time of a datagram is looked at. -/
def Receiver.time (r : Receiver F) (now stamp : ℕ) : Except Failure (Receiver F) := do
  let current ← b.i128 (now - stamp)
  match r.transit with
  | none => return { r with transit := some current }
  | some old =>
    let difference ← b.distance current old
    return { r with transit := some current, jitter := floats.smooth r.jitter difference }

/-- An arrival is counted. -/
def Receiver.tally (r : Receiver F) (n : ℕ) (clock : Clock) : Except Failure (Receiver F) := do
  let first := r.first.getD clock.arrived
  let stats := { r.stats with duration := (clock.measured - first) % 2 ^ 64 }
  let stats ← count b stats n udp clock.counted p.interval
  return { r with first := some first, stats, counter := (r.counter + n) % 2 ^ 64 }

/-- A datagram of the test is looked at. -/
def Receiver.accept (r : Receiver F) (data : Bytes) (clock : Clock) :
    Except Failure (Receiver F) := do
  let r ← r.order b (seqOf data)
  let r ← r.time b floats clock.nowNs (stampOf data)
  r.tally b true p data.length clock

/-- The stream is over. -/
def Receiver.finish (r : Receiver F) : Receiver F :=
  { r with stats.jitter := floats.round r.jitter }

/-- A round of the loop, or its end. -/
def Receiver.turn (r : Receiver F) : Arrival → Receiver F ⊕ Except Failure (Receiver F)
  | .failed => .inr (.error .io)
  | .changed => .inl r
  | .deadline => .inr (.ok (r.finish floats))
  | .data data clock =>
    if udp then
      if data.length < 32 ∨ data.take 8 ≠ id.1 then .inl r
      else if flags data &&& 2 ≠ 0 then .inr (.ok (r.finish floats))
      else if flags data &&& 1 ≠ 0 then .inl r
      else
        match r.accept b floats p data clock with
        | .ok r' => .inl r'
        | .error e => .inr (.error e)
    else if data.isEmpty then .inr (.ok (r.finish floats))
    else
      match r.tally b false p data.length clock with
      | .ok r' => .inl r'
      | .error e => .inr (.error e)

/-- `receive_data`: the stream that is still open after some arrivals, or its end. -/
def receiveData : Receiver F → List Arrival → Receiver F ⊕ Except Failure (Receiver F)
  | r, [] => .inl r
  | r, e :: es =>
    match r.turn b floats udp p id e with
    | .inl r' => receiveData r' es
    | .inr result => .inr result

end ReceiveData

/-! ### What is to be counted -/

/-- The end of a stream of datagrams. -/
def Arrival.ends (id : TestId) : Arrival → Bool
  | .data bytes _ => 32 ≤ bytes.length && bytes.take 8 = id.1 && flags bytes &&& 2 ≠ 0
  | .failed | .deadline => true
  | .changed => false

/-- The datagram that an arrival brings to the test. -/
def Arrival.brings (id : TestId) : Arrival → Option Bytes
  | .data bytes _ =>
    if 32 ≤ bytes.length ∧ bytes.take 8 = id.1 ∧ flags bytes &&& 2 = 0 ∧ flags bytes &&& 1 = 0 then
      some bytes
    else none
  | _ => none

/-- The datagrams of a test, up to its end. -/
def brought (id : TestId) (es : List Arrival) : List Bytes :=
  (es.takeWhile fun e => !e.ends id).filterMap (Arrival.brings id)

/-- The number of those that do not exceed the greatest one before them. -/
def lateCount (seqs : List ℕ) : ℕ :=
  (List.range seqs.length).countP fun i => (seqs.take i).max?.any (seqs.getD i 0 ≤ ·)

/-- The counts are those of the datagrams. -/
structure Counts (seen : List Bytes) (stats : Stats) : Prop where
  bytes : stats.bytes = (seen.map List.length).sum
  datagrams : stats.datagrams = seen.length
  reordered : stats.reordered = lateCount (seen.map seqOf)

/-- A stream of datagrams counts them, and nothing overflows. -/
def CountsAll {F : Type} (floats : Floats F) (p : Params) (id : TestId) (es : List Arrival) :
    Prop :=
  receiveData { b with checks := true } floats true p id { jitter := floats.zero } es ≠
      .inr (.error .overflow) ∧
    ∀ r, (receiveData b floats true p id { jitter := floats.zero } es = .inl r ∨
        receiveData b floats true p id { jitter := floats.zero } es = .inr (.ok r)) →
      Counts (brought id es) r.stats

/-- No datagram has the greatest sequence number, and their bytes can be counted. -/
def Moderate (seen : List Bytes) : Prop :=
  (∀ data ∈ seen, seqOf data ≠ 2 ^ 64 - 1) ∧ (seen.map List.length).sum < 2 ^ 64

instance (seen : List Bytes) : Decidable (Moderate seen) := by
  unfold Moderate
  infer_instance

/-! ### Late datagrams -/

theorem u64At_lt (data : Bytes) (offset : ℕ) : u64At data offset < 2 ^ 64 := by
  have hhigh := ofBeBytes32_lt (data.getD offset 0) (data.getD (offset + 1) 0)
    (data.getD (offset + 2) 0) (data.getD (offset + 3) 0)
  have hlow := ofBeBytes32_lt (data.getD (offset + 4) 0) (data.getD (offset + 5) 0)
    (data.getD (offset + 6) 0) (data.getD (offset + 7) 0)
  unfold u64At
  omega

theorem seqOf_lt (data : Bytes) : seqOf data < 2 ^ 64 := by
  unfold seqOf
  exact u64At_lt data 16

theorem stampOf_lt (data : Bytes) : stampOf data < 2 ^ 64 := by
  unfold stampOf
  exact u64At_lt data 24

theorem any_max?_iff (seqs : List ℕ) (x : ℕ) :
    seqs.max?.any (x ≤ ·) = true ↔ ∃ s ∈ seqs, x ≤ s := by
  cases hmax : seqs.max? with
  | none =>
    rw [List.max?_eq_none_iff] at hmax
    simp [hmax]
  | some m =>
    obtain ⟨hm, hle⟩ := List.max?_eq_some_iff.1 hmax
    simp only [Option.any_some, decide_eq_true_eq]
    constructor
    · intro h
      exact ⟨m, hm, h⟩
    · rintro ⟨s, hs, h⟩
      exact Nat.le_trans h (hle s hs)

theorem lateCount_concat (seqs : List ℕ) (x : ℕ) :
    lateCount (seqs ++ [x]) =
      lateCount seqs + if seqs.max?.any (x ≤ ·) then 1 else 0 := by
  have hold : ∀ i ∈ List.range seqs.length,
      (((seqs ++ [x]).take i).max?.any ((seqs ++ [x]).getD i 0 ≤ ·) = true ↔
        (seqs.take i).max?.any (seqs.getD i 0 ≤ ·) = true) := by
    intro i hi
    have hlt := List.mem_range.1 hi
    rw [List.take_append_of_le_length (Nat.le_of_lt hlt), List.getD_append _ _ _ _ hlt]
  unfold lateCount
  rw [List.length_append, List.length_singleton, List.range_succ, List.countP_append,
    List.countP_congr hold]
  simp

theorem lateCount_le (seqs : List ℕ) : lateCount seqs ≤ seqs.length := by
  have h := List.countP_le_length (l := List.range seqs.length)
    (p := fun i => (seqs.take i).max?.any (seqs.getD i 0 ≤ ·))
  rwa [List.length_range] at h

/-! ### One datagram -/

/-- What a receiver knows of the datagrams it has counted. -/
structure Hears {F : Type} (seen : List Bytes) (r : Receiver F) : Prop where
  counts : Counts seen r.stats
  moderate : Moderate seen
  long : 32 * seen.length ≤ (seen.map List.length).sum
  expected : ∀ x, x < r.expected ↔ ∃ data ∈ seen, x ≤ seqOf data
  transit : ∀ old, r.transit = some old → old.natAbs < 2 ^ 64
  within : Within r.stats.intervals r.stats.bytes r.stats.datagrams

variable {b} {F : Type} {floats : Floats F} {p : Params} {id : TestId} {r : Receiver F}
  {seen : List Bytes} {data : Bytes} {clock : Clock}

theorem moderate_concat : Moderate (seen ++ [data]) ↔
    Moderate seen ∧ seqOf data ≠ 2 ^ 64 - 1 ∧
      (seen.map List.length).sum + data.length < 2 ^ 64 := by
  simp only [Moderate, List.forall_mem_append, List.forall_mem_singleton, List.map_append,
    List.map_cons, List.map_nil, List.sum_append, List.sum_cons, List.sum_nil, Nat.add_zero]
  constructor
  · rintro ⟨⟨hseen, hdata⟩, hsum⟩
    exact ⟨⟨hseen, by omega⟩, hdata, hsum⟩
  · rintro ⟨⟨hseen, -⟩, hdata, hsum⟩
    exact ⟨⟨hseen, hdata⟩, hsum⟩

/-- A datagram is late if its sequence number is below the expected one. -/
theorem Hears.late_iff (h : Hears seen r) (seq : ℕ) :
    (seen.map seqOf).max?.any (seq ≤ ·) = true ↔ seq < r.expected := by
  rw [any_max?_iff, h.expected]
  simp

theorem expected_concat {expected expected' : ℕ}
    (h : ∀ x, x < expected ↔ ∃ data ∈ seen, x ≤ seqOf data)
    (h' : ∀ x, x < expected' ↔ x < expected ∨ x ≤ seqOf data) :
    ∀ x, x < expected' ↔ ∃ data' ∈ seen ++ [data], x ≤ seqOf data' := by
  intro x
  rw [h', h]
  constructor
  · rintro (⟨data', hmem, hle⟩ | hle)
    · exact ⟨data', List.mem_append_left _ hmem, hle⟩
    · exact ⟨data, List.mem_append_right _ (List.mem_singleton_self _), hle⟩
  · rintro ⟨data', hmem, hle⟩
    obtain hmem | hmem := List.mem_append.1 hmem
    · exact .inl ⟨data', hmem, hle⟩
    · rw [List.mem_singleton.1 hmem] at hle
      exact .inr hle

/-- The sequence number of a datagram is looked at without overflow, unless it is the greatest. -/
theorem Hears.order (h : Hears seen r) (hseq : seqOf data ≠ 2 ^ 64 - 1) :
    ∃ expected, r.order b (seqOf data) = .ok { r with
        stats.reordered := lateCount ((seen ++ [data]).map seqOf)
        expected } ∧
      ∀ x, x < expected ↔ ∃ data' ∈ seen ++ [data], x ≤ seqOf data' := by
  have hlt := seqOf_lt data
  have hle := lateCount_le (seen.map seqOf)
  have hsum := h.moderate.2
  have hlong := h.long
  rw [List.length_map] at hle
  unfold Receiver.order
  rw [List.map_append, List.map_cons, List.map_nil, lateCount_concat, ← h.counts.reordered]
  by_cases hlate : seqOf data < r.expected
  · have hreordered := h.counts.reordered
    rw [if_pos hlate, if_pos ((h.late_iff _).2 hlate), add_of_lt (by omega)]
    refine ⟨r.expected, rfl, expected_concat h.expected fun x => ?_⟩
    omega
  · rw [if_neg hlate, if_neg (fun hl => hlate ((h.late_iff _).1 hl)), add_of_lt (by omega)]
    refine ⟨seqOf data + 1, rfl, expected_concat h.expected fun x => ?_⟩
    omega

theorem Clock.nowNs_lt (clock : Clock) : clock.nowNs < 2 ^ 64 := by
  unfold Clock.nowNs
  omega

theorem i128_of_natAbs {x : ℤ} (h : x.natAbs < 2 ^ 65) : b.i128 x = .ok x :=
  if_pos (by omega)

theorem distance_ok {current old : ℤ} (hcurrent : current.natAbs < 2 ^ 64)
    (hold : old.natAbs < 2 ^ 64) :
    b.distance current old = .ok ((current - old).natAbs : ℤ) := by
  have hdifference : (current - old).natAbs < 2 ^ 65 := by omega
  have habs : ((current - old).natAbs : ℤ).natAbs < 2 ^ 65 := by omega
  unfold Build.distance
  rw [i128_of_natAbs hdifference, Program.except_ok_bind, i128_of_natAbs habs]

/-- The time of a datagram is looked at without overflow, whatever its sender says. -/
theorem time_ok (b : Build) (floats : Floats F)
    (htransit : ∀ old, r.transit = some old → old.natAbs < 2 ^ 64) (clock : Clock) (data : Bytes) :
    ∃ current jitter, r.time b floats clock.nowNs (stampOf data) =
      .ok { r with transit := some current, jitter } ∧ current.natAbs < 2 ^ 64 := by
  have hnow := clock.nowNs_lt
  have hstamp := stampOf_lt data
  have hcurrent : ((clock.nowNs : ℤ) - stampOf data).natAbs < 2 ^ 64 := by omega
  have hfits : ((clock.nowNs : ℤ) - stampOf data).natAbs < 2 ^ 65 := by omega
  unfold Receiver.time
  rw [i128_of_natAbs hfits, Program.except_ok_bind]
  generalize (clock.nowNs : ℤ) - stampOf data = current at hcurrent
  cases hold : r.transit with
  | none => exact ⟨current, r.jitter, rfl, hcurrent⟩
  | some old =>
    refine ⟨current, floats.smooth r.jitter (current - old).natAbs, ?_, hcurrent⟩
    dsimp only
    rw [distance_ok hcurrent (htransit old hold), Program.except_ok_bind]
    rfl

/-- A datagram is counted without overflow, if its bytes can be added. -/
theorem tally_ok (b : Build) (p : Params) {n : ℕ} {udp : Bool} (clock : Clock)
    (hwithin : Within r.stats.intervals r.stats.bytes r.stats.datagrams)
    (hbytes : r.stats.bytes + n < 2 ^ 64) (hdatagrams : r.stats.datagrams + udp.toNat < 2 ^ 64) :
    ∃ r', r.tally b udp p n clock = .ok r' ∧ r'.expected = r.expected ∧
      r'.transit = r.transit ∧ r'.stats.bytes = r.stats.bytes + n ∧
      r'.stats.datagrams = r.stats.datagrams + udp.toNat ∧
      r'.stats.reordered = r.stats.reordered ∧
      Within r'.stats.intervals r'.stats.bytes r'.stats.datagrams := by
  let stats := { r.stats with
    duration := (clock.measured - r.first.getD clock.arrived) % 2 ^ 64 }
  have hwithin' : Within stats.intervals stats.bytes stats.datagrams := hwithin
  obtain ⟨stats, hstats, hwithin'⟩ :=
    count_of_lt (b := b) hwithin' hbytes hdatagrams clock.counted p.interval
  have hcounted := counted_of_count hstats
  refine ⟨{ r with
    first := some (r.first.getD clock.arrived)
    stats
    counter := (r.counter + n) % 2 ^ 64 }, ?_, rfl, rfl, eq_of_add hbytes hcounted.bytes,
    eq_of_add hdatagrams hcounted.datagrams, hcounted.reordered, hwithin'⟩
  unfold Receiver.tally
  dsimp only
  rw [hstats, Program.except_ok_bind]
  rfl

/-- A datagram of the test is counted. -/
theorem Hears.accept (b : Build) (floats : Floats F) (p : Params) (clock : Clock)
    (h : Hears seen r) (hlong : 32 ≤ data.length) (hmoderate : Moderate (seen ++ [data])) :
    ∃ r', r.accept b floats p data clock = .ok r' ∧ Hears (seen ++ [data]) r' := by
  obtain ⟨-, hseq, hsum⟩ := moderate_concat.1 hmoderate
  have hseen := h.long
  have hnext : r.stats.datagrams + true.toNat < 2 ^ 64 := by
    rw [h.counts.datagrams, Bool.toNat_true]
    omega
  obtain ⟨expected, horder, hexpected⟩ := h.order (b := b) hseq
  obtain ⟨current, jitter, htime, hcurrent⟩ := time_ok b floats
    (r := { r with stats.reordered := lateCount ((seen ++ [data]).map seqOf), expected })
    h.transit clock data
  obtain ⟨r', htally, hexpected', htransit, hbytes, hdatagrams, hreordered, hwithin⟩ :=
    tally_ok b p (r := { r with
      stats.reordered := lateCount ((seen ++ [data]).map seqOf)
      expected
      transit := some current
      jitter }) clock h.within (h.counts.bytes ▸ hsum) hnext
  refine ⟨r', ?_, ⟨?_, ?_, hreordered⟩, hmoderate, ?_, ?_, ?_, hwithin⟩
  · unfold Receiver.accept
    rw [horder, Program.except_ok_bind, htime, Program.except_ok_bind]
    exact htally
  · simp [hbytes, h.counts.bytes]
  · simp [hdatagrams, h.counts.datagrams]
  · simp only [List.length_append, List.length_singleton, List.map_append, List.map_cons,
      List.map_nil, List.sum_append, List.sum_cons, List.sum_nil]
    omega
  · rw [hexpected']
    exact hexpected
  · rw [htransit]
    rintro old hold
    cases hold
    exact hcurrent

/-- A datagram that is not moderate overflows an addition. -/
theorem Hears.overflow (h : Hears seen r) (hchecks : b.checks = true)
    (hmoderate : ¬Moderate (seen ++ [data])) :
    r.accept b floats p data clock = .error .overflow := by
  have hlt := seqOf_lt data
  have hover : ∀ x y, 2 ^ 64 ≤ x + y → b.add x y = .error .overflow := by
    intro x y hle
    rw [Build.add, if_neg (by omega), if_pos hchecks]
  unfold Receiver.accept
  by_cases hseq : seqOf data = 2 ^ 64 - 1
  · -- the sequence number after it is not a `u64`
    have hlate : ¬seqOf data < r.expected := by
      rw [h.expected]
      rintro ⟨data', hmem, hle⟩
      have hne := h.moderate.1 data' hmem
      have hlt' := seqOf_lt data'
      omega
    unfold Receiver.order
    rw [if_neg hlate, hover _ _ (by omega)]
    rfl
  · have hsum : 2 ^ 64 ≤ (seen.map List.length).sum + data.length := by
      by_contra hlt
      exact hmoderate (moderate_concat.2 ⟨h.moderate, hseq, by omega⟩)
    obtain ⟨expected, horder, -⟩ := h.order (b := b) hseq
    obtain ⟨current, jitter, htime, -⟩ := time_ok b floats
      (r := { r with stats.reordered := lateCount ((seen ++ [data]).map seqOf), expected })
      h.transit clock data
    rw [horder, Program.except_ok_bind, htime, Program.except_ok_bind]
    rw [← h.counts.bytes] at hsum
    unfold Receiver.tally count
    dsimp only
    rw [hover _ _ hsum]
    rfl

/-! ### All arrivals -/

theorem brought_cons (id : TestId) (e : Arrival) (es : List Arrival) :
    brought id (e :: es) = if e.ends id then [] else (e.brings id).toList ++ brought id es := by
  unfold brought
  cases hends : e.ends id with
  | true => simp [hends]
  | false => cases hbrings : e.brings id <;> simp [hends, hbrings]

theorem Moderate.left {seen' : List Bytes} (h : Moderate (seen ++ seen')) : Moderate seen := by
  obtain ⟨hseq, hsum⟩ := h
  rw [List.map_append, List.sum_append] at hsum
  exact ⟨fun data hmem => hseq data (List.mem_append_left _ hmem), by omega⟩

/-- What the end of a stream does to its counts. -/
theorem turn_ends (b : Build) (floats : Floats F) (p : Params) {e : Arrival}
    (hends : e.ends id = true) (hcounts : Counts seen r.stats) :
    ∃ result, r.turn b floats true p id e = .inr result ∧ result ≠ .error .overflow ∧
      ∀ r', result = .ok r' → Counts seen r'.stats := by
  have hfinish : Counts seen (r.finish floats).stats :=
    ⟨hcounts.bytes, hcounts.datagrams, hcounts.reordered⟩
  cases e with
  | failed => exact ⟨.error .io, rfl, by simp, by simp⟩
  | changed => cases hends
  | deadline =>
    refine ⟨_, rfl, by simp, ?_⟩
    rintro r' hr'
    cases hr'
    exact hfinish
  | data bytes clock =>
    simp only [Arrival.ends, Bool.and_eq_true, decide_eq_true_eq] at hends
    obtain ⟨⟨hlong, hid⟩, hflag⟩ := hends
    refine ⟨.ok (r.finish floats), ?_, by simp, ?_⟩
    · have hmine : ¬(bytes.length < 32 ∨ bytes.take 8 ≠ id.1) := by
        rintro (hlt | hne)
        · omega
        · exact hne hid
      simp only [Receiver.turn, if_true, if_neg hmine, if_pos hflag]
    · rintro r' hr'
      cases hr'
      exact hfinish

/-- An arrival that is neither the end nor for the test changes nothing. -/
theorem turn_skips {e : Arrival} (hends : e.ends id = false) (hbrings : e.brings id = none) :
    r.turn b floats true p id e = .inl r := by
  cases e with
  | failed => cases hends
  | changed => rfl
  | deadline => cases hends
  | data bytes clock =>
    simp only [Arrival.ends, Arrival.brings] at hends hbrings
    by_cases hmine : bytes.length < 32 ∨ bytes.take 8 ≠ id.1
    · simp only [Receiver.turn, if_true, if_pos hmine]
    · have hlong : 32 ≤ bytes.length := Nat.le_of_not_lt fun hlt => hmine (.inl hlt)
      have hid : bytes.take 8 = id.1 := by
        by_contra hne
        exact hmine (.inr hne)
      have hflag : flags bytes &&& 2 = 0 := by simpa [hlong, hid] using hends
      have hflag' : flags bytes &&& 1 ≠ 0 := by simpa [hlong, hid, hflag] using hbrings
      simp [Receiver.turn, hmine, hflag, hflag']

/-- An arrival for the test is counted. -/
theorem turn_brings (b : Build) (floats : Floats F) (p : Params) (r : Receiver F) {e : Arrival}
    (hbrings : e.brings id = some data) :
    32 ≤ data.length ∧ ∃ clock, r.turn b floats true p id e =
      match r.accept b floats p data clock with
      | .ok r' => .inl r'
      | .error e => .inr (.error e) := by
  cases e with
  | failed => cases hbrings
  | changed => cases hbrings
  | deadline => cases hbrings
  | data bytes clock =>
    simp only [Arrival.brings] at hbrings
    split at hbrings
    · rename_i hall
      obtain ⟨hlong, hid, hflag, hflag'⟩ := hall
      cases hbrings
      refine ⟨hlong, clock, ?_⟩
      have hmine : ¬(data.length < 32 ∨ data.take 8 ≠ id.1) := by
        rintro (hlt | hne)
        · omega
        · exact hne hid
      simp only [Receiver.turn, if_true, if_neg hmine, hflag, hflag', ne_eq, not_true_eq_false,
        if_false]
    · cases hbrings

/-- What a stream makes of all that arrives, after some datagrams. -/
theorem Hears.receive (h : Hears seen r) (es : List Arrival) :
    (Moderate (seen ++ brought id es) →
      receiveData b floats true p id r es ≠ .inr (.error .overflow) ∧
      ∀ r', (receiveData b floats true p id r es = .inl r' ∨
          receiveData b floats true p id r es = .inr (.ok r')) →
        Counts (seen ++ brought id es) r'.stats) ∧
    (b.checks = true → ¬Moderate (seen ++ brought id es) →
      receiveData b floats true p id r es = .inr (.error .overflow)) := by
  induction es generalizing seen r with
  | nil =>
    simp only [receiveData, brought, List.takeWhile_nil, List.filterMap_nil, List.append_nil]
    refine ⟨fun _ => ⟨by simp, ?_⟩, fun _ hnot => (hnot h.moderate).elim⟩
    rintro r' (hr' | hr')
    · cases hr'
      exact h.counts
    · cases hr'
  | cons e es ih =>
    rw [brought_cons]
    cases hends : e.ends id with
    | true =>
      obtain ⟨result, hturn, hne, hresult⟩ :=
        turn_ends b floats p hends h.counts
      simp only [receiveData, hturn, if_true, List.append_nil]
      refine ⟨fun _ => ⟨by simpa using hne, ?_⟩, fun _ hnot => (hnot h.moderate).elim⟩
      rintro r' (hr' | hr')
      · cases hr'
      · exact hresult r' (by simpa using hr')
    | false =>
      cases hbrings : e.brings id with
      | none =>
        simp only [receiveData, turn_skips hends hbrings, Bool.false_eq_true, if_false,
          Option.toList_none, List.nil_append]
        exact ih h
      | some data =>
        obtain ⟨hlong, clock, hturn⟩ :=
          turn_brings b floats p r hbrings
        simp only [Bool.false_eq_true, if_false, Option.toList_some, ← List.append_assoc]
        -- the first datagram that cannot be counted ends the stream
        by_cases hmoderate : Moderate (seen ++ [data])
        · obtain ⟨r', haccept, h'⟩ :=
            h.accept b floats p clock hlong hmoderate
          rw [haccept] at hturn
          simp only [receiveData, hturn]
          exact ih h'
        · refine ⟨fun hall => (hmoderate hall.left).elim, fun hchecks _ => ?_⟩
          rw [h.overflow hchecks hmoderate] at hturn
          simp only [receiveData, hturn]

theorem hears_start {F : Type} (jitter : F) : Hears [] { jitter } where
  counts := ⟨rfl, rfl, rfl⟩
  moderate := ⟨by simp, by simp⟩
  long := by simp
  expected x := by simp
  transit := by simp
  within := by simp [Within]

/-- **Whatever arrives in whatever order, a stream of datagrams counts those of its test up to its
end without overflow, and those that came late, if and only if none of them has the greatest
sequence number and a `u64` can count their bytes.** -/
theorem receive_data_counts_iff {F : Type} (b : Build) (floats : Floats F) (p : Params)
    (id : TestId) (es : List Arrival) :
    CountsAll b floats p id es ↔ Moderate (brought id es) := by
  have hstart := hears_start floats.zero
  constructor
  · rintro ⟨hne, -⟩
    by_contra hnot
    exact hne ((hstart.receive es).2 rfl hnot)
  · intro hmoderate
    exact ⟨((hstart.receive es).1 hmoderate).1, ((hstart.receive es).1 hmoderate).2⟩

/-- A datagram whose sequence number has no successor. -/
def lastDatagram : Bytes :=
  List.replicate 8 7 ++ (List.replicate 8 0 ++ (List.replicate 8 255 ++ List.replicate 8 0))

/-- One datagram is enough to overflow the sequence number that is expected next. -/
theorem last_sequence_overflows :
    ¬CountsAll ⟨.w64, false⟩ ⟨(), fun _ _ => (), fun _ => 0⟩
      { proto := "udp", dir := "up", bytes := 32, streams := 1, length := 32 }
      ⟨List.replicate 8 7, rfl⟩ [.data lastDatagram ⟨0, 0, 0, 0⟩] := by
  have hnot : ¬Moderate (brought ⟨List.replicate 8 7, rfl⟩ [.data lastDatagram ⟨0, 0, 0, 0⟩]) := by
    decide +kernel
  rintro ⟨hne, -⟩
  exact hne (((hears_start ()).receive _).2 rfl hnot)

end Tailcat.Services.Perf
