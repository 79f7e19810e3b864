import Tailcat.Services.PerfSend
import Mathlib.Algebra.BigOperators.Group.List.Basic
import Mathlib.Data.List.GetD
import Mathlib.Data.List.Induction
import Mathlib.Algebra.Order.BigOperators.Group.List
import Mathlib.Algebra.Order.Group.Nat
import Mathlib.Algebra.Group.Action.Defs

/-!
# Totals of a performance test

`combine` adds what the streams of a test have counted, in the order in which they ended, and
`count` adds what a stream writes or receives to its total and to the interval it falls in.  All
counters are `u64`, and the number of an interval is cut to a `usize` before it is compared with
the largest one.

* `combine_eq_settle` : what `combine` computes is the exact total, brought into a `u64`.
* `totals_exact_iff` : totals and intervals are exact if and only if they fit, and no interval is
  mistaken for another.

The exact amounts are defined from the calls and the streams (`amount`, `amountIn`), without any
bound, and the code's loops are compared with them.  Sums are commutative, whether an overflow fails
or wraps around (`Build`), so the order in which the streams end does not matter even then.  The
callers of `count` check that an interval is at least 100 ms; the numbers that are cut would take
years to come up.
-/

namespace Tailcat.Services.Perf

variable (b : Build)

/-! ### Adding up streams -/

/-- The intervals of a stream are added to those of the total. -/
def addIntervals : List Interval → List Interval → Except Failure (List Interval)
  | total, [] => .ok total
  | [], _ :: _ => .error .range
  | t :: total, v :: intervals => do
    let bytes ← b.add t.bytes v.bytes
    let datagrams ← b.add t.datagrams v.datagrams
    let total ← addIntervals total intervals
    return { bytes, datagrams } :: total

/-- One turn of the loop of `combine`. -/
def absorb (streams : ℕ) (total s : Stats) : Except Failure Stats := do
  let bytes ← b.add total.bytes s.bytes
  let datagrams ← b.add total.datagrams s.datagrams
  let reordered ← b.add total.reordered s.reordered
  let jitter ← b.add total.jitter (s.jitter / streams)
  let length := max total.intervals.length s.intervals.length
  let intervals ← addIntervals b (resize total.intervals length) s.intervals
  let duration := max total.duration s.duration
  return { bytes, duration, datagrams, reordered, jitter, intervals }

/-- `combine`. -/
def combine (all : List Stats) : Except Failure Stats := all.foldlM (absorb b all.length) {}

/-! ### Exact totals -/

/-- What an interval of a stream has counted; a missing one has counted nothing. -/
def Stats.interval (s : Stats) (i : ℕ) : Interval := s.intervals.getD i {}

/-- The intervals of two streams, added. -/
def plusIntervals : List Interval → List Interval → List Interval
  | total, [] => total
  | [], intervals => intervals
  | t :: total, v :: intervals =>
    ⟨t.bytes + v.bytes, t.datagrams + v.datagrams⟩ :: plusIntervals total intervals

/-- A stream added to a total, without bounds. -/
def Stats.plus (streams : ℕ) (total s : Stats) : Stats where
  bytes := total.bytes + s.bytes
  duration := max total.duration s.duration
  datagrams := total.datagrams + s.datagrams
  reordered := total.reordered + s.reordered
  jitter := total.jitter + s.jitter / streams
  intervals := plusIntervals total.intervals s.intervals

/-- The counters of an interval are those of a `u64`. -/
def Interval.Fits (v : Interval) : Prop := v.bytes < 2 ^ 64 ∧ v.datagrams < 2 ^ 64

/-- The counters of a total are those of a `u64`. -/
structure Stats.Fits (s : Stats) : Prop where
  bytes : s.bytes < 2 ^ 64
  datagrams : s.datagrams < 2 ^ 64
  reordered : s.reordered < 2 ^ 64
  jitter : s.jitter < 2 ^ 64
  intervals : ∀ v ∈ s.intervals, v.Fits

/-- The total of streams: sums, and the maximum of the durations. -/
structure IsTotal (all : List Stats) (total : Stats) : Prop where
  bytes : total.bytes = (all.map (·.bytes)).sum
  datagrams : total.datagrams = (all.map (·.datagrams)).sum
  reordered : total.reordered = (all.map (·.reordered)).sum
  duration : total.duration = (all.map (·.duration)).foldl max 0
  interval : ∀ i, total.interval i =
    ⟨(all.map fun s => (s.interval i).bytes).sum, (all.map fun s => (s.interval i).datagrams).sum⟩

/-- The sums over streams are those of a `u64`. -/
structure Addable (all : List Stats) : Prop where
  bytes : (all.map (·.bytes)).sum < 2 ^ 64
  datagrams : (all.map (·.datagrams)).sum < 2 ^ 64
  reordered : (all.map (·.reordered)).sum < 2 ^ 64
  interval : ∀ i, (all.map fun s => (s.interval i).bytes).sum < 2 ^ 64 ∧
    (all.map fun s => (s.interval i).datagrams).sum < 2 ^ 64

/-- An interval without the upper bits of its counters. -/
def Interval.wrap (v : Interval) : Interval := ⟨v.bytes % 2 ^ 64, v.datagrams % 2 ^ 64⟩

/-- A total without the upper bits of its counters. -/
def Stats.wrap (s : Stats) : Stats where
  bytes := s.bytes % 2 ^ 64
  duration := s.duration
  datagrams := s.datagrams % 2 ^ 64
  reordered := s.reordered % 2 ^ 64
  jitter := s.jitter % 2 ^ 64
  intervals := s.intervals.map Interval.wrap

open Classical in
/-- A value is brought into counters of a `u64`. -/
noncomputable def Build.settle {α : Type} (fits : α → Prop) (wrap : α → α) (x : α) :
    Except Failure α :=
  if b.checks then if fits x then .ok x else .error .overflow
  else .ok (wrap x)

/-! ### One stream -/

section

variable {b} {x y : ℕ} {v : Interval} {l total intervals : List Interval} {s t : Stats}
  {streams : ℕ}

theorem settle_of_fits {α : Type} {fits : α → Prop} {wrap : α → α} {x : α} (h : fits x)
    (hwrap : wrap x = x) : b.settle fits wrap x = .ok x := by
  rw [Build.settle, if_pos h, hwrap, ite_self]

theorem settle_of_not_fits {α : Type} {fits : α → Prop} {wrap : α → α} {x : α} (h : ¬fits x)
    (hb : b.checks = true) : b.settle fits wrap x = .error .overflow := by
  rw [Build.settle, if_pos hb, if_neg h]

theorem settle_wraps {α : Type} {fits : α → Prop} {wrap : α → α} {x : α} (hb : b.checks = false) :
    b.settle fits wrap x = .ok (wrap x) := if_neg (by rw [hb]; exact Bool.false_ne_true)

theorem add_overflows (hb : b.checks = true) (h : ¬x + y < 2 ^ 64) :
    b.add x y = .error .overflow := by
  rw [Build.add, if_neg h, if_pos hb]

theorem add_wraps (hb : b.checks = false) : b.add x y = .ok ((x + y) % 2 ^ 64) := by
  by_cases h : x + y < 2 ^ 64
  · rw [add_of_lt h, Nat.mod_eq_of_lt h]
  · rw [Build.add, if_neg h, if_neg (by rw [hb]; exact Bool.false_ne_true)]

theorem Interval.Fits.wrap (h : v.Fits) : v.wrap = v := by
  rw [Interval.wrap, Nat.mod_eq_of_lt h.1, Nat.mod_eq_of_lt h.2]

theorem map_wrap (h : ∀ v ∈ l, v.Fits) : l.map Interval.wrap = l :=
  (List.map_congr_left fun v hv => (h v hv).wrap).trans (List.map_id l)

theorem Stats.Fits.wrap (h : s.Fits) : s.wrap = s := by
  rw [Stats.wrap, Nat.mod_eq_of_lt h.bytes, Nat.mod_eq_of_lt h.datagrams,
    Nat.mod_eq_of_lt h.reordered, Nat.mod_eq_of_lt h.jitter, map_wrap h.intervals]

@[simp] theorem plusIntervals_nil (total : List Interval) : plusIntervals total [] = total := by
  cases total <;> rfl

@[simp] theorem nil_plusIntervals (intervals : List Interval) :
    plusIntervals [] intervals = intervals := by
  cases intervals <;> rfl

/-- Adding intervals to a total that has as many. -/
theorem addIntervals_eq_settle (htotal : ∀ v ∈ total, v.Fits)
    (hlength : intervals.length ≤ total.length) : addIntervals b total intervals =
      b.settle (fun l => ∀ v ∈ l, v.Fits) (List.map Interval.wrap)
        (plusIntervals total intervals) := by
  induction total generalizing intervals with
  | nil =>
    obtain rfl := List.eq_nil_of_length_eq_zero (Nat.le_zero.1 hlength)
    exact (settle_of_fits (by simp) rfl).symm
  | cons t total ih =>
    cases intervals with
    | nil => exact (settle_of_fits htotal (map_wrap htotal)).symm
    | cons v intervals =>
      rw [addIntervals, ih (fun v hv => htotal v (List.mem_cons_of_mem t hv))
        (Nat.le_of_succ_le_succ hlength), plusIntervals]
      generalize plusIntervals total intervals = l
      cases hb : b.checks with
      | false =>
        rw [add_wraps hb, add_wraps hb, settle_wraps hb, settle_wraps hb]
        rfl
      | true =>
        set first : Interval := ⟨t.bytes + v.bytes, t.datagrams + v.datagrams⟩ with hfirst
        have hoverflow (h : ¬(first.Fits ∧ ∀ v ∈ l, v.Fits)) :
            b.settle (fun l => ∀ v ∈ l, v.Fits) (List.map Interval.wrap) (first :: l) =
              .error .overflow :=
          settle_of_not_fits (fun hall => h (List.forall_mem_cons.1 hall)) hb
        by_cases hbytes : t.bytes + v.bytes < 2 ^ 64
        swap
        · rw [add_overflows hb hbytes, hoverflow fun h => hbytes h.1.1]
          rfl
        by_cases hdatagrams : t.datagrams + v.datagrams < 2 ^ 64
        swap
        · rw [add_of_lt hbytes, add_overflows hb hdatagrams, hoverflow fun h => hdatagrams h.1.2]
          rfl
        by_cases hl : ∀ v ∈ l, v.Fits
        swap
        · rw [add_of_lt hbytes, add_of_lt hdatagrams, settle_of_not_fits hl hb,
            hoverflow fun h => hl h.2]
          rfl
        have hall : ∀ v ∈ first :: l, v.Fits := List.forall_mem_cons.2 ⟨⟨hbytes, hdatagrams⟩, hl⟩
        rw [add_of_lt hbytes, add_of_lt hdatagrams, settle_of_fits hl (map_wrap hl),
          settle_of_fits hall (map_wrap hall)]
        rfl

theorem resize_nil (n : ℕ) : resize [] n = List.replicate n {} := by
  rw [resize, List.take_nil, List.nil_append, List.length_nil, Nat.sub_zero]

theorem resize_cons (v : Interval) (l : List Interval) (n : ℕ) :
    resize (v :: l) (n + 1) = v :: resize l n := by
  rw [resize, resize, List.take_succ_cons, List.length_cons, Nat.add_sub_add_right,
    List.cons_append]

/-- A total is made as long as the intervals that are added to it. -/
theorem plusIntervals_resize (total intervals : List Interval) :
    plusIntervals (resize total (max total.length intervals.length)) intervals =
      plusIntervals total intervals := by
  induction total generalizing intervals with
  | nil =>
    rw [List.length_nil, Nat.zero_max, resize_nil, nil_plusIntervals]
    induction intervals with
    | nil => rfl
    | cons v intervals ih =>
      rw [List.length_cons, List.replicate_succ, plusIntervals, ih, Nat.zero_add, Nat.zero_add]
  | cons t total ih =>
    cases intervals with
    | nil =>
      rw [plusIntervals_nil, plusIntervals_nil, List.length_nil, Nat.max_zero, resize,
        List.take_length, Nat.sub_self, List.replicate_zero, List.append_nil]
    | cons v intervals =>
      rw [List.length_cons, List.length_cons, Nat.add_max_add_right, resize_cons, plusIntervals,
        ih, plusIntervals]

theorem length_resize (l : List Interval) (n : ℕ) : (resize l n).length = n := by
  rw [resize, List.length_append, List.length_take, List.length_replicate]
  omega

theorem fits_resize (h : ∀ v ∈ l, v.Fits) (n : ℕ) : ∀ v ∈ resize l n, v.Fits := by
  intro v hv
  obtain hv | hv := List.mem_append.1 hv
  · exact h v (List.mem_of_mem_take hv)
  · rw [List.eq_of_mem_replicate hv]
    exact ⟨by decide, by decide⟩

/-- **Adding a stream to a total.** -/
theorem absorb_eq_settle (ht : t.Fits) (streams : ℕ) (s : Stats) :
    absorb b streams t s = b.settle Stats.Fits Stats.wrap (t.plus streams s) := by
  have hintervals : addIntervals b
      (resize t.intervals (max t.intervals.length s.intervals.length)) s.intervals =
        b.settle (fun l => ∀ v ∈ l, v.Fits) (List.map Interval.wrap)
          (plusIntervals t.intervals s.intervals) := by
    rw [addIntervals_eq_settle (fits_resize ht.intervals _)
      (by rw [length_resize]; exact Nat.le_max_right _ _), plusIntervals_resize]
  unfold absorb
  dsimp only
  rw [hintervals]
  cases hb : b.checks with
  | false =>
    rw [add_wraps hb, add_wraps hb, add_wraps hb, add_wraps hb, settle_wraps hb, settle_wraps hb]
    rfl
  | true =>
    have hoverflow (h : ¬(t.plus streams s).Fits) :
        b.settle Stats.Fits Stats.wrap (t.plus streams s) = .error .overflow :=
      settle_of_not_fits h hb
    by_cases hbytes : t.bytes + s.bytes < 2 ^ 64
    swap
    · rw [add_overflows hb hbytes, hoverflow fun h => hbytes h.bytes]
      rfl
    by_cases hdatagrams : t.datagrams + s.datagrams < 2 ^ 64
    swap
    · rw [add_of_lt hbytes, add_overflows hb hdatagrams, hoverflow fun h => hdatagrams h.datagrams]
      rfl
    by_cases hreordered : t.reordered + s.reordered < 2 ^ 64
    swap
    · rw [add_of_lt hbytes, add_of_lt hdatagrams, add_overflows hb hreordered,
        hoverflow fun h => hreordered h.reordered]
      rfl
    by_cases hjitter : t.jitter + s.jitter / streams < 2 ^ 64
    swap
    · rw [add_of_lt hbytes, add_of_lt hdatagrams, add_of_lt hreordered, add_overflows hb hjitter,
        hoverflow fun h => hjitter h.jitter]
      rfl
    rw [add_of_lt hbytes, add_of_lt hdatagrams, add_of_lt hreordered, add_of_lt hjitter]
    by_cases hl : ∀ v ∈ plusIntervals t.intervals s.intervals, v.Fits
    · have hfits : (t.plus streams s).Fits := ⟨hbytes, hdatagrams, hreordered, hjitter, hl⟩
      rw [settle_of_fits hl (map_wrap hl), settle_of_fits hfits hfits.wrap]
      rfl
    · rw [settle_of_not_fits hl hb, hoverflow fun h => hl h.intervals]
      rfl

/-! ### All streams -/

theorem length_plusIntervals (l l' : List Interval) :
    (plusIntervals l l').length = max l.length l'.length := by
  induction l generalizing l' with
  | nil => simp
  | cons v l ih =>
    cases l' with
    | nil => simp
    | cons v' l' => simp [plusIntervals, ih, Nat.add_max_add_right]

theorem getD_plusIntervals (l l' : List Interval) (i : ℕ) : (plusIntervals l l').getD i {} =
    ⟨(l.getD i {}).bytes + (l'.getD i {}).bytes,
      (l.getD i {}).datagrams + (l'.getD i {}).datagrams⟩ := by
  induction l generalizing l' i with
  | nil => simp
  | cons v l ih =>
    cases l' with
    | nil => simp
    | cons v' l' =>
      cases i with
      | zero => rfl
      | succ i => exact ih l' i

theorem ext_getD {l l' : List Interval} (hlength : l.length = l'.length)
    (h : ∀ i, l.getD i {} = l'.getD i {}) : l = l' := by
  refine List.ext_getElem hlength fun i hi hi' => ?_
  have hget := h i
  rwa [List.getD_eq_getElem _ _ hi, List.getD_eq_getElem _ _ hi'] at hget

theorem fits_iff_getD : (∀ v ∈ l, v.Fits) ↔ ∀ i, (l.getD i {}).Fits := by
  constructor
  · intro h i
    rw [List.getD_eq_getElem?_getD]
    cases hi : l[i]? with
    | none => exact ⟨by decide, by decide⟩
    | some v => exact h v (List.mem_of_getElem? hi)
  · intro h v hv
    obtain ⟨i, hi, rfl⟩ := List.getElem_of_mem hv
    rw [← List.getD_eq_getElem _ {} hi]
    exact h i

theorem getD_map_wrap (l : List Interval) (i : ℕ) :
    (l.map Interval.wrap).getD i {} = (l.getD i {}).wrap := by
  rw [List.getD_eq_getElem?_getD, List.getD_eq_getElem?_getD, List.getElem?_map]
  cases l[i]? <;> rfl

/-- What does not fit does not fit with more added to it. -/
theorem Stats.Fits.of_plus (h : (t.plus streams s).Fits) : t.Fits where
  bytes := Nat.lt_of_le_of_lt (Nat.le_add_right _ _) h.bytes
  datagrams := Nat.lt_of_le_of_lt (Nat.le_add_right _ _) h.datagrams
  reordered := Nat.lt_of_le_of_lt (Nat.le_add_right _ _) h.reordered
  jitter := Nat.lt_of_le_of_lt (Nat.le_add_right _ _) h.jitter
  intervals := by
    refine fits_iff_getD.2 fun i => ?_
    obtain ⟨hbytes, hdatagrams⟩ := fits_iff_getD.1 h.intervals i
    simp only [Stats.plus, getD_plusIntervals] at hbytes hdatagrams
    exact ⟨by omega, by omega⟩

theorem fits_wrap (s : Stats) : s.wrap.Fits where
  bytes := Nat.mod_lt _ (by decide)
  datagrams := Nat.mod_lt _ (by decide)
  reordered := Nat.mod_lt _ (by decide)
  jitter := Nat.mod_lt _ (by decide)
  intervals := by
    intro v hv
    obtain ⟨v', -, rfl⟩ := List.mem_map.1 hv
    exact ⟨Nat.mod_lt _ (by decide), Nat.mod_lt _ (by decide)⟩

/-- Upper bits may be cut before an addition. -/
theorem wrap_plus (streams : ℕ) (t s : Stats) :
    (t.wrap.plus streams s).wrap = (t.plus streams s).wrap := by
  have hintervals : (plusIntervals (t.intervals.map Interval.wrap) s.intervals).map Interval.wrap =
      (plusIntervals t.intervals s.intervals).map Interval.wrap := by
    refine ext_getD ?_ fun i => ?_
    · simp only [List.length_map, length_plusIntervals]
    · simp only [getD_map_wrap, getD_plusIntervals, Interval.wrap, Nat.mod_add_mod]
  simp only [Stats.plus, Stats.wrap, Nat.mod_add_mod, hintervals]

theorem settle_bind_absorb (streams : ℕ) (t s : Stats) :
    (b.settle Stats.Fits Stats.wrap t >>= fun t => absorb b streams t s) =
      b.settle Stats.Fits Stats.wrap (t.plus streams s) := by
  cases hb : b.checks with
  | false =>
    rw [settle_wraps hb, settle_wraps hb, Program.except_ok_bind, absorb_eq_settle (fits_wrap t),
      settle_wraps hb, wrap_plus]
  | true =>
    by_cases ht : t.Fits
    · rw [settle_of_fits ht ht.wrap, Program.except_ok_bind, absorb_eq_settle ht]
    · rw [settle_of_not_fits ht hb, settle_of_not_fits (fun h => ht h.of_plus) hb]
      rfl

variable (b) in
/-- **`combine` brings the exact total into counters of a `u64`.** -/
theorem combine_eq_settle (all : List Stats) : combine b all =
    b.settle Stats.Fits Stats.wrap (all.foldl (Stats.plus all.length) {}) := by
  unfold combine
  generalize all.length = streams
  induction all using List.reverseRecOn with
  | nil =>
    have hfits : ({} : Stats).Fits :=
      ⟨by decide, by decide, by decide, by decide, fun v hv => by cases hv⟩
    exact (settle_of_fits hfits hfits.wrap).symm
  | append_singleton all s ih =>
    rw [List.foldlM_append, ih, List.foldl_append]
    simp only [List.foldlM_cons, List.foldlM_nil, bind_pure]
    exact settle_bind_absorb streams _ s

theorem plus_right_comm (streams : ℕ) (t s s' : Stats) :
    (t.plus streams s).plus streams s' = (t.plus streams s').plus streams s := by
  have hintervals : plusIntervals (plusIntervals t.intervals s.intervals) s'.intervals =
      plusIntervals (plusIntervals t.intervals s'.intervals) s.intervals := by
    refine ext_getD ?_ fun i => ?_
    · simp only [length_plusIntervals, Nat.max_right_comm]
    · simp only [getD_plusIntervals, Nat.add_right_comm]
  simp only [Stats.plus, hintervals, Nat.add_right_comm, Nat.max_right_comm]

/-- The order of the streams does not matter. -/
theorem combine_perm {all all' : List Stats} (h : all'.Perm all) :
    combine b all' = combine b all := by
  have : RightCommutative (Stats.plus all.length) := ⟨plus_right_comm all.length⟩
  rw [combine_eq_settle, combine_eq_settle, h.length_eq, h.foldl_eq]

/-- Without bounds, `combine` computes the total. -/
theorem isTotal_foldl (streams : ℕ) (all : List Stats) :
    IsTotal all (all.foldl (Stats.plus streams) {}) ∧
      (all.foldl (Stats.plus streams) {}).jitter = (all.map (·.jitter / streams)).sum := by
  induction all using List.reverseRecOn with
  | nil =>
    refine ⟨⟨rfl, rfl, rfl, rfl, fun i => ?_⟩, rfl⟩
    simp [Stats.interval]
  | append_singleton all s ih =>
    obtain ⟨ih, hjitter⟩ := ih
    rw [List.foldl_append, List.foldl_cons, List.foldl_nil]
    generalize all.foldl (Stats.plus streams) {} = t at ih hjitter
    refine ⟨⟨?_, ?_, ?_, ?_, fun i => ?_⟩, ?_⟩
    · simp [Stats.plus, ih.bytes]
    · simp [Stats.plus, ih.datagrams]
    · simp [Stats.plus, ih.reordered]
    · simp [Stats.plus, ih.duration]
    · have hi := ih.interval i
      simp only [Stats.interval] at hi
      simp only [Stats.interval, Stats.plus, getD_plusIntervals, hi, List.map_append,
        List.map_cons, List.map_nil, List.sum_append, List.sum_cons, List.sum_nil, Nat.add_zero]
    · simp [Stats.plus, hjitter]

/-- A mean of counters is a counter. -/
theorem sum_div_lt {all : List Stats} (h : ∀ s ∈ all, s.jitter < 2 ^ 64) :
    (all.map (·.jitter / all.length)).sum < 2 ^ 64 := by
  have hle : ∀ x ∈ all.map (·.jitter / all.length), x ≤ (2 ^ 64 - 1) / all.length := by
    intro x hx
    obtain ⟨s, hs, rfl⟩ := List.mem_map.1 hx
    exact Nat.div_le_div_right (Nat.le_sub_one_of_lt (h s hs))
  have hsum := List.sum_le_card_nsmul _ _ hle
  rw [List.length_map, smul_eq_mul] at hsum
  have hmul := Nat.mul_div_le (2 ^ 64 - 1) all.length
  omega

theorem IsTotal.fits_iff {all : List Stats} (ht : IsTotal all t) (hjitter : t.jitter < 2 ^ 64) :
    t.Fits ↔ Addable all := by
  have hinterval (i : ℕ) : (t.interval i).Fits ↔
      (all.map fun s => (s.interval i).bytes).sum < 2 ^ 64 ∧
        (all.map fun s => (s.interval i).datagrams).sum < 2 ^ 64 := by
    rw [ht.interval i]
    rfl
  constructor
  · intro h
    exact ⟨ht.bytes ▸ h.bytes, ht.datagrams ▸ h.datagrams, ht.reordered ▸ h.reordered,
      fun i => (hinterval i).1 (fits_iff_getD.1 h.intervals i)⟩
  · intro h
    refine ⟨?_, ?_, ?_, hjitter, fits_iff_getD.2 fun i => (hinterval i).2 (h.interval i)⟩
    · rw [ht.bytes]
      exact h.bytes
    · rw [ht.datagrams]
      exact h.datagrams
    · rw [ht.reordered]
      exact h.reordered

/-- **`combine` computes the total** if and only if the sums are those of a `u64`. -/
theorem combine_isTotal_iff {all : List Stats} (hjitter : ∀ s ∈ all, s.jitter < 2 ^ 64) :
    (∃ total, combine b all = .ok total ∧ IsTotal all total) ↔ Addable all := by
  obtain ⟨hexact, hmean⟩ := isTotal_foldl all.length all
  have hiff := hexact.fits_iff (hmean ▸ sum_div_lt hjitter)
  rw [combine_eq_settle]
  generalize all.foldl (Stats.plus all.length) {} = t at hexact hiff
  constructor
  · rintro ⟨total, hok, htotal⟩
    by_cases hfits : t.Fits
    · exact hiff.1 hfits
    cases hb : b.checks with
    | true =>
      rw [settle_of_not_fits hfits hb] at hok
      cases hok
    | false =>
      -- the sums are what is left of them
      rw [settle_wraps hb, Except.ok.injEq] at hok
      have hwrap := fits_wrap t
      rw [hok] at hwrap
      exact (htotal.fits_iff hwrap.jitter).1 hwrap
  · intro h
    have hfits := hiff.2 h
    exact ⟨t, settle_of_fits hfits hfits.wrap, hexact⟩

end

/-! ### Counting in intervals -/

/-- A call of `count`, so many nanoseconds after the start. -/
structure Call where
  n : ℕ
  udp : Bool := false
  elapsed : ℕ
  deriving DecidableEq, Repr

/-- The calls of `count` for a stream, one after the other. -/
def countAll (interval : ℕ) (calls : List Call) : Except Failure Stats :=
  calls.foldlM (fun stats c => count b stats c.n c.udp c.elapsed interval) {}

/-- The interval a call falls in. -/
def Call.slot (interval : ℕ) (c : Call) : ℕ := c.elapsed / interval

/-- The call counts nothing. -/
def Call.IsEmpty (c : Call) : Prop := c.n = 0 ∧ c.udp = false

/-- What calls count together. -/
def amount (calls : List Call) : Interval :=
  ⟨(calls.map (·.n)).sum, (calls.map (·.udp.toNat)).sum⟩

/-- What is counted in an interval. -/
def amountIn (interval i : ℕ) (calls : List Call) : Interval :=
  amount (calls.filter fun c => c.slot interval = i)

/-- The totals and the intervals are those of the calls. -/
structure IsCounted (interval : ℕ) (calls : List Call) (stats : Stats) : Prop where
  total : (⟨stats.bytes, stats.datagrams⟩ : Interval) = amount calls
  interval : ∀ i < 6001, stats.interval i = amountIn interval i calls

/-- After each call, everything counted so far is there, and the call has left the earlier
intervals as they were. -/
structure CountsExactly (interval : ℕ) (calls : List Call) : Prop where
  counted : ∀ before, before <+: calls →
    ∃ stats, countAll b interval before = .ok stats ∧ IsCounted interval before stats
  keeps : ∀ before c, before ++ [c] <+: calls → ∀ stats stats',
    countAll b interval before = .ok stats → countAll b interval (before ++ [c]) = .ok stats' →
      ∀ i < 6001, i < c.slot interval → stats'.interval i = stats.interval i

/-- The interval of a call, after others, is not mistaken for an earlier one when its number is
cut to a `usize`; or nothing is lost by that. -/
def Call.NotMistaken (interval : ℕ) (before : List Call) (c : Call) : Prop :=
  let cut := c.slot interval % b.width.values
  cut < 6001 → cut = c.slot interval ∨
    c.IsEmpty ∧ ∀ c' ∈ before, cut < c'.slot interval → c'.slot interval < 6001 → c'.IsEmpty

/-- The sums are those of a `u64`, and no interval is mistaken for an earlier one. -/
structure CallsFit (interval : ℕ) (calls : List Call) : Prop where
  total : (amount calls).Fits
  slots : ∀ before c, before ++ [c] <+: calls → c.NotMistaken b interval before

section

variable {b} {interval : ℕ} {before calls : List Call} {c : Call} {stats stats' : Stats}

theorem getD_resize (l : List Interval) (n i : ℕ) :
    (resize l n).getD i {} = if i < n then l.getD i {} else {} := by
  simp only [resize, List.getD_eq_getElem?_getD, List.getElem?_append, List.getElem?_take,
    List.length_take, List.getElem?_replicate]
  by_cases hi : i < n
  · simp only [if_pos hi]
    by_cases hl : i < l.length
    · rw [if_pos (by omega)]
    · rw [if_neg (by omega), if_pos (by omega), List.getElem?_eq_none (by omega)]
      rfl
  · simp only [if_neg hi]
    rw [if_neg (by omega), if_neg (by omega)]
    rfl

theorem amount_append (calls calls' : List Call) : amount (calls ++ calls') =
    ⟨(amount calls).bytes + (amount calls').bytes,
      (amount calls).datagrams + (amount calls').datagrams⟩ := by
  simp only [amount, List.map_append, List.sum_append]

theorem amount_singleton (c : Call) : amount [c] = ⟨c.n, c.udp.toNat⟩ := by
  simp [amount]

theorem amount_eq_empty_iff : amount calls = {} ↔ ∀ c ∈ calls, c.IsEmpty := by
  simp only [amount, Interval.mk.injEq, List.sum_eq_zero_iff_forall_eq_nat, List.mem_map,
    forall_exists_index, and_imp, forall_apply_eq_imp_iff₂, Call.IsEmpty, Bool.toNat_eq_zero]
  exact forall₂_and.symm

/-- Part of the calls count at most as much. -/
theorem amount_le_of_sublist (h : before.Sublist calls) :
    (amount before).bytes ≤ (amount calls).bytes ∧
      (amount before).datagrams ≤ (amount calls).datagrams :=
  ⟨(h.map _).sum_le_sum fun _ _ => Nat.zero_le _, (h.map _).sum_le_sum fun _ _ => Nat.zero_le _⟩

theorem amountIn_concat (interval i : ℕ) (before : List Call) (c : Call) :
    amountIn interval i (before ++ [c]) =
      if c.slot interval = i then
        ⟨(amountIn interval i before).bytes + c.n,
          (amountIn interval i before).datagrams + c.udp.toNat⟩
      else amountIn interval i before := by
  rw [amountIn, List.filter_append]
  split_ifs with hi
  · rw [List.filter_cons_of_pos (by simpa using hi), List.filter_nil, amount_append,
      amount_singleton]
    rfl
  · rw [List.filter_cons_of_neg (by simpa using hi), List.filter_nil, List.append_nil]
    rfl

theorem amountIn_eq_empty_iff {i : ℕ} : amountIn interval i calls = {} ↔
    ∀ c ∈ calls, c.slot interval = i → c.IsEmpty := by
  rw [amountIn, amount_eq_empty_iff]
  simp only [List.mem_filter, decide_eq_true_eq, and_imp]

/-- What a call does to the intervals, while the sums fit. -/
theorem count_eq_ok (hinterval : interval ≠ 0) (h : IsCounted interval before stats)
    (hfits : (amount (before ++ [c])).Fits) :
    ∃ stats', count b stats c.n c.udp c.elapsed interval = .ok stats' ∧
      (⟨stats'.bytes, stats'.datagrams⟩ : Interval) = amount (before ++ [c]) ∧
        ∀ i, stats'.interval i =
          let cut := c.slot interval % b.width.values
          if cut < 6001 then
            if i < cut then stats.interval i
            else if i = cut then
              ⟨(stats.interval i).bytes + c.n, (stats.interval i).datagrams + c.udp.toNat⟩
            else {}
          else stats.interval i := by
  have htotal := h.total
  rw [amount_append, amount_singleton, ← htotal] at hfits
  obtain ⟨hbytes, hdatagrams⟩ := hfits
  simp only at hbytes hdatagrams
  have hsum : (⟨stats.bytes + c.n, stats.datagrams + c.udp.toNat⟩ : Interval) =
      amount (before ++ [c]) := by
    rw [amount_append, amount_singleton, ← htotal]
  have hslot : c.elapsed / interval = c.slot interval := rfl
  unfold count countInterval
  rw [add_of_lt hbytes, add_of_lt hdatagrams, hslot]
  dsimp only
  generalize c.slot interval % b.width.values = cut
  by_cases hcut : cut < 6001
  -- the interval is there, or is added empty
  · have hold : (resize stats.intervals (cut + 1)).getD cut {} = stats.interval cut := by
      rw [getD_resize, if_pos (Nat.lt_succ_self cut), Stats.interval]
    have hpart : (stats.interval cut).bytes ≤ stats.bytes ∧
        (stats.interval cut).datagrams ≤ stats.datagrams := by
      have hle := amount_le_of_sublist (before.filter_sublist (p := fun c => c.slot interval = cut))
      rw [← htotal] at hle
      rw [h.interval cut hcut]
      exact hle
    rw [if_pos ⟨hinterval, hcut⟩, hold, add_of_lt (by omega), add_of_lt (by omega)]
    refine ⟨_, rfl, hsum, fun i => ?_⟩
    rw [if_pos hcut]
    simp only [Stats.interval]
    by_cases hi : i = cut
    · subst hi
      rw [if_neg (Nat.lt_irrefl i), if_pos rfl, List.getD_eq_getElem?_getD,
        List.getElem?_set_self (by rw [length_resize]; omega)]
      rfl
    · rw [if_neg hi, List.getD_eq_getElem?_getD, List.getElem?_set_ne (Ne.symm hi),
        ← List.getD_eq_getElem?_getD, getD_resize]
      by_cases hlt : i < cut
      · rw [if_pos hlt, if_pos (by omega)]
      · rw [if_neg hlt, if_neg (by omega)]
  · rw [if_neg fun hboth => hcut hboth.2]
    refine ⟨_, rfl, hsum, fun i => ?_⟩
    rw [if_neg hcut]
    rfl

theorem values_ge (b : Build) : 2 ^ 32 ≤ b.width.values := by
  cases b.width <;> decide

/-- The interval of a call, if it is one that is counted, is not cut. -/
theorem cut_of_lt (b : Build) (h : c.slot interval < 6001) :
    c.slot interval % b.width.values = c.slot interval :=
  Nat.mod_eq_of_lt (Nat.lt_of_lt_of_le h (Nat.le_trans (by decide) (values_ge b)))

/-- **One call counts exactly** if and only if its interval is not mistaken for another. -/
theorem isCounted_concat_iff (hinterval : interval ≠ 0) (h : IsCounted interval before stats)
    (htimes : ∀ c' ∈ before, c'.elapsed ≤ c.elapsed) (hfits : (amount (before ++ [c])).Fits) :
    ∃ stats', count b stats c.n c.udp c.elapsed interval = .ok stats' ∧
      (IsCounted interval (before ++ [c]) stats' ↔ c.NotMistaken b interval before) := by
  obtain ⟨stats', hok, htotal, hslots⟩ := count_eq_ok (b := b) hinterval h hfits
  refine ⟨stats', hok, ?_⟩
  have hiff : IsCounted interval (before ++ [c]) stats' ↔
      ∀ i < 6001, stats'.interval i = amountIn interval i (before ++ [c]) :=
    ⟨fun hall => hall.interval, fun hall => ⟨htotal, hall⟩⟩
  rw [hiff]
  simp only [hslots, amountIn_concat, Call.NotMistaken]
  by_cases hcut : c.slot interval % b.width.values < 6001
  swap
  · -- the call is in none of the intervals
    have hslot : ¬c.slot interval < 6001 := fun hlt => hcut (by rwa [cut_of_lt b hlt])
    refine iff_of_true (fun i hi => ?_) fun hlt => absurd hlt hcut
    rw [if_neg hcut, if_neg (by omega), h.interval i hi]
  by_cases heq : c.slot interval % b.width.values = c.slot interval
  -- the number of the interval is not cut
  · rw [heq] at hcut ⊢
    refine iff_of_true (fun i hi => ?_) fun _ => .inl rfl
    rw [if_pos hcut, h.interval i hi]
    by_cases hlt : i < c.slot interval
    · rw [if_pos hlt, if_neg (by omega)]
    by_cases hi' : i = c.slot interval
    · rw [if_neg hlt, if_pos hi', if_pos hi'.symm]
    · -- nothing has been counted in a later interval
      rw [if_neg hlt, if_neg hi', if_neg (Ne.symm hi'), eq_comm, amountIn_eq_empty_iff]
      intro c' hc' hslot
      have hle : c'.slot interval ≤ c.slot interval := Nat.div_le_div_right (htimes c' hc')
      omega
  -- it is cut to that of another interval
  · have hslot : ¬c.slot interval < 6001 := fun hlt => heq (cut_of_lt b hlt)
    generalize c.slot interval % b.width.values = cut at *
    simp only [if_pos hcut]
    constructor
    · intro hall _
      refine .inr ⟨?_, fun c' hc' hgt hlt => ?_⟩
      · have hat := hall cut hcut
        rw [if_neg (Nat.lt_irrefl cut), if_pos rfl, if_neg (by omega), ← h.interval cut hcut] at hat
        have hbytes := congrArg Interval.bytes hat
        have hdatagrams := congrArg Interval.datagrams hat
        exact ⟨Nat.add_eq_left.1 hbytes, Bool.toNat_eq_zero.1 (Nat.add_eq_left.1 hdatagrams)⟩
      · have hat := hall (c'.slot interval) hlt
        rw [if_neg (by omega), if_neg (by omega), if_neg (by omega), eq_comm,
          amountIn_eq_empty_iff] at hat
        exact hat c' hc' rfl
    · intro hnot i hi
      obtain heq' | ⟨hempty, hlater⟩ := hnot hcut
      · exact absurd heq' heq
      have hne : ¬c.slot interval = i := by omega
      rw [if_neg hne]
      by_cases hlt : i < cut
      · rw [if_pos hlt, h.interval i hi]
      by_cases hi' : i = cut
      · rw [if_neg hlt, if_pos hi', hempty.1, hempty.2, Nat.add_zero, Bool.toNat_false, Nat.add_zero,
          h.interval i hi]
      · rw [if_neg hlt, if_neg hi', eq_comm, amountIn_eq_empty_iff]
        rintro c' hc' rfl
        exact hlater c' hc' (by omega) hi

theorem countAll_concat (interval : ℕ) (before : List Call) (c : Call) :
    countAll b interval (before ++ [c]) =
      countAll b interval before >>= fun s => count b s c.n c.udp c.elapsed interval := by
  rw [countAll, List.foldlM_append]
  simp only [List.foldlM_cons, List.foldlM_nil, bind_pure]
  rfl

/-- The totals of any calls are counters of a `u64`. -/
theorem fits_of_countAll (h : countAll b interval calls = .ok stats) :
    (⟨stats.bytes, stats.datagrams⟩ : Interval).Fits := by
  obtain rfl | ⟨before, c, rfl⟩ := List.eq_nil_or_concat' calls
  · cases h
    exact ⟨by decide, by decide⟩
  · rw [countAll_concat] at h
    obtain ⟨stats₀, -, h⟩ := Program.except_bind_eq_ok.1 h
    have hcounted := counted_of_count h
    exact ⟨lt_of_add hcounted.bytes, lt_of_add hcounted.datagrams⟩

theorem CallsFit.counted (h : CallsFit b interval calls) (hinterval : interval ≠ 0)
    (htimes : calls.Pairwise (·.elapsed ≤ ·.elapsed)) (hbefore : before <+: calls) :
    ∃ stats, countAll b interval before = .ok stats ∧ IsCounted interval before stats := by
  induction before using List.reverseRecOn with
  | nil => exact ⟨{}, rfl, rfl, fun i _ => rfl⟩
  | append_singleton before c ih =>
    obtain ⟨stats, hok, hcounted⟩ := ih ((List.prefix_append before [c]).trans hbefore)
    have hfits : (amount (before ++ [c])).Fits :=
      ⟨Nat.lt_of_le_of_lt (amount_le_of_sublist hbefore.sublist).1 h.total.1,
        Nat.lt_of_le_of_lt (amount_le_of_sublist hbefore.sublist).2 h.total.2⟩
    have hlast : ∀ c' ∈ before, c'.elapsed ≤ c.elapsed := fun c' hc' =>
      (List.pairwise_append.1 (htimes.sublist hbefore.sublist)).2.2 c' hc' c List.mem_cons_self
    obtain ⟨stats', hok', hiff⟩ := isCounted_concat_iff (b := b) hinterval hcounted hlast hfits
    exact ⟨stats', by rw [countAll_concat, hok, Program.except_ok_bind, hok'],
      hiff.2 (h.slots before c hbefore)⟩

/-- **Intervals are exact** if and only if the sums fit and no interval is mistaken for another. -/
theorem countsExactly_iff (hinterval : interval ≠ 0)
    (htimes : calls.Pairwise (·.elapsed ≤ ·.elapsed)) :
    CountsExactly b interval calls ↔ CallsFit b interval calls := by
  constructor
  · intro h
    have hfits : ∀ before, before <+: calls → (amount before).Fits := by
      intro before hbefore
      obtain ⟨stats, hok, hcounted⟩ := h.counted before hbefore
      exact hcounted.total ▸ fits_of_countAll hok
    refine ⟨hfits calls (List.prefix_refl calls), fun before c hbefore => ?_⟩
    obtain ⟨stats, hok, hcounted⟩ :=
      h.counted before ((List.prefix_append before [c]).trans hbefore)
    obtain ⟨stats', hok', hcounted'⟩ := h.counted _ hbefore
    have hlast : ∀ c' ∈ before, c'.elapsed ≤ c.elapsed := fun c' hc' =>
      (List.pairwise_append.1 (htimes.sublist hbefore.sublist)).2.2 c' hc' c List.mem_cons_self
    obtain ⟨stats₁, hok₁, hiff⟩ :=
      isCounted_concat_iff (b := b) hinterval hcounted hlast (hfits _ hbefore)
    rw [countAll_concat, hok, Program.except_ok_bind, hok₁, Except.ok.injEq] at hok'
    exact hiff.1 (hok' ▸ hcounted')
  · intro h
    refine ⟨fun before hbefore => h.counted hinterval htimes hbefore, ?_⟩
    intro before c hbefore stats stats' hok hok' i hi hlt
    obtain ⟨stats₀, hok₀, hcounted⟩ :=
      h.counted hinterval htimes ((List.prefix_append before [c]).trans hbefore)
    obtain ⟨stats₁, hok₁, hcounted'⟩ := h.counted hinterval htimes hbefore
    rw [hok, Except.ok.injEq] at hok₀
    rw [hok', Except.ok.injEq] at hok₁
    rw [hok₀, hok₁, hcounted.interval i hi, hcounted'.interval i hi, amountIn_concat,
      if_neg (by omega)]

end

/-! ### Totals -/

/-- **Totals are exact and independent of scheduling**: the order of the streams does not matter;
`combine` computes the total, and `count` the amounts of the intervals, if and only if the sums are
those of a `u64` and no interval is mistaken for another when its number is cut to a `usize`. -/
theorem totals_exact_iff (all : List Stats) (hjitter : ∀ s ∈ all, s.jitter < 2 ^ 64)
    {interval : ℕ} (hinterval : interval ≠ 0) (calls : List Call)
    (htimes : calls.Pairwise (·.elapsed ≤ ·.elapsed)) :
    (∀ all', all'.Perm all → combine b all' = combine b all) ∧
    ((∃ total, combine b all = .ok total ∧ IsTotal all total) ↔ Addable all) ∧
    (CountsExactly b interval calls ↔ CallsFit b interval calls) :=
  ⟨fun _ => combine_perm, combine_isTotal_iff hjitter, countsExactly_iff hinterval htimes⟩

/-- Two streams, of which one has no second interval. -/
def twoStreams : List Stats :=
  [{ bytes := 7, duration := 20, datagrams := 2, intervals := [⟨4, 1⟩, ⟨3, 1⟩] },
    { bytes := 5, duration := 30, datagrams := 1, jitter := 6, intervals := [⟨5, 1⟩] }]

/-- Three calls in two intervals of 10 ns. -/
def threeCalls : List Call := [⟨4, true, 0⟩, ⟨3, true, 9⟩, ⟨5, true, 12⟩]

theorem two_streams_exact :
    (∀ all', all'.Perm twoStreams →
      combine ⟨.w64, true⟩ all' = combine ⟨.w64, true⟩ twoStreams) ∧
    ((∃ total, combine ⟨.w64, true⟩ twoStreams = .ok total ∧ IsTotal twoStreams total) ↔
      Addable twoStreams) ∧
    (CountsExactly ⟨.w64, true⟩ 10 threeCalls ↔ CallsFit ⟨.w64, true⟩ 10 threeCalls) :=
  totals_exact_iff ⟨.w64, true⟩ twoStreams (by decide) (by decide) threeCalls (by decide)

example : combine ⟨.w64, true⟩ twoStreams = .ok
    { bytes := 12, duration := 30, datagrams := 3, jitter := 3, intervals := [⟨9, 2⟩, ⟨3, 1⟩] } := by
  decide +kernel

/-- With a `usize` of 32 bits, a call after 2³² intervals takes the first one for its own, and the
others are gone. -/
theorem interval_mistaken :
    countAll ⟨.w32, true⟩ 1 [⟨10, false, 2⟩, ⟨20, false, 2 ^ 32⟩] =
      .ok { bytes := 30, intervals := [⟨20, 0⟩] } ∧
    ¬CountsExactly ⟨.w32, true⟩ 1 [⟨10, false, 2⟩, ⟨20, false, 2 ^ 32⟩] := by
  have hok : countAll ⟨.w32, true⟩ 1 [⟨10, false, 2⟩, ⟨20, false, 2 ^ 32⟩] =
      .ok { bytes := 30, intervals := [⟨20, 0⟩] } := by
    decide +kernel
  refine ⟨hok, fun h => ?_⟩
  obtain ⟨stats, hstats, hcounted⟩ := h.counted _ (List.prefix_refl _)
  rw [hok, Except.ok.injEq] at hstats
  have hinterval := hcounted.interval 2 (by decide)
  rw [← hstats] at hinterval
  exact absurd hinterval (by decide)

end Tailcat.Services.Perf
