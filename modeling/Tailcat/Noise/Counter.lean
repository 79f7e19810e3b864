import Mathlib.Data.BitVec
import Tailcat.Lib.Loop
import Tailcat.Lib.ReplayWindow
import Tailcat.Lib.Transition

/-!
# Counters of received packets

A session numbers its data packets.  Its receiver keeps a ring of 1024 bits and the counter after
the highest received, and takes each counter once, in any order within the window.

* `ReceivingKeyCounterValidator` : the ring of bits, with `will_accept` and `mark_did_receive` as
  `noise/session.rs` computes them, loops and wrapping additions included.
* `markDidReceive_yields` : marking a counter is a step of the abstract window.
* `marks_refines` : after any counters, those marked are the ones an abstract window accepts.
* `willAccept_after` : the check made before decryption predicts the mark, in every such state.

Counters from `2 ^ 64 - 1024` on are outside these results: there `counter + N_BITS` wraps, and the
loop over whole words may not end.
-/

namespace Tailcat.Noise

/-- What may go wrong. -/
inductive WireGuardError
  | destinationBufferTooSmall
  | incorrectPacketLength
  | unexpectedPacket
  | wrongPacketType
  | wrongIndex
  | wrongKey
  | invalidTai64nTimestamp
  | wrongTai64nTimestamp
  | invalidMac
  | invalidAeadTag
  | invalidCounter
  | duplicateCounter
  | invalidPacket
  | noCurrentSession
  | lockFailed
  | connectionExpired
  | underLoad
  deriving DecidableEq, Repr

/-- The number of values of a `u64`. -/
def u64 : ℕ := 2 ^ 64

/-- Bits in a word. -/
def wordSize : ℕ := 64

/-- Words in the ring. -/
def nWords : ℕ := 16

/-- Bits in the ring. -/
def nBits : ℕ := wordSize * nWords

theorem word_lt (idx : ℕ) : idx % nBits / wordSize < nWords := by
  simp only [nBits, wordSize, nWords]
  omega

/-- The ring of received counters. -/
structure ReceivingKeyCounterValidator where
  /-- The counter after the highest received. -/
  next : ℕ := 0
  /-- Packets received. -/
  receiveCnt : ℕ := 0
  bitmap : Vector (BitVec 64) nWords := .replicate nWords 0
  deriving DecidableEq, Repr

namespace ReceivingKeyCounterValidator

/-- The word with the bit of a counter. -/
def wordOf (v : ReceivingKeyCounterValidator) (idx : ℕ) : BitVec 64 :=
  have := word_lt idx
  v.bitmap[idx % nBits / wordSize]

/-- Replace the word with the bit of a counter. -/
def putWord (v : ReceivingKeyCounterValidator) (idx : ℕ) (word : BitVec 64) :
    ReceivingKeyCounterValidator :=
  { v with bitmap := v.bitmap.set (idx % nBits / wordSize) word (word_lt idx) }

/-- `set_bit`. -/
def setBit (v : ReceivingKeyCounterValidator) (idx : ℕ) : ReceivingKeyCounterValidator :=
  v.putWord idx (v.wordOf idx ||| 1#64 <<< (idx % nBits % wordSize))

/-- `clear_bit`. -/
def clearBit (v : ReceivingKeyCounterValidator) (idx : ℕ) : ReceivingKeyCounterValidator :=
  v.putWord idx (v.wordOf idx &&& ~~~(1#64 <<< (idx % nBits % wordSize)))

/-- `clear_word`: clear the word that contains `idx`. -/
def clearWord (v : ReceivingKeyCounterValidator) (idx : ℕ) : ReceivingKeyCounterValidator :=
  v.putWord idx 0

/-- `check_bit`. -/
def checkBit (v : ReceivingKeyCounterValidator) (idx : ℕ) : Bool :=
  (v.wordOf idx >>> (idx % nBits % wordSize) &&& 1#64) == 1#64

/-- `will_accept`: the counter was not yet received, and is not too far back. -/
def willAccept (v : ReceivingKeyCounterValidator) (counter : ℕ) : Except WireGuardError Unit :=
  if counter ≥ v.next then .ok ()
  else if (counter + nBits) % u64 < v.next then .error .invalidCounter
  else if v.checkBit counter then .error .duplicateCounter
  else .ok ()

/-- A loop over counters: it runs while `more` holds of the counter.  One that is not over after a
turn for every value of the counter never is. -/
def sweep (more : ℕ → Bool)
    (clear : ReceivingKeyCounterValidator → ℕ → ReceivingKeyCounterValidator)
    (following : ℕ → ℕ) :
    ReceivingKeyCounterValidator × ℕ → Option (ReceivingKeyCounterValidator × ℕ) :=
  Loop.runFor (fun s => if more s.2 then .inl (clear s.1 s.2, following s.2) else .inr s) (u64 + 1)

/-- The loops of `mark_did_receive` that clear the bits of the counters skipped: up to a whole word,
then whole words, then the rest. -/
def skip (v : ReceivingKeyCounterValidator) (counter : ℕ) :
    Option ReceivingKeyCounterValidator := do
  let aligned ←
    sweep (fun i => i % wordSize ≠ 0 ∧ i < counter) clearBit (fun i => i + 1) (v, v.next)
  let words ← sweep (fun i => (i + wordSize) % u64 < counter) clearWord
    (fun i => (i + wordSize) % u64 &&& (u64 - wordSize)) aligned
  let rest ← sweep (fun i => i < counter) clearBit (fun i => i + 1) words
  return rest.1

/-- The bits are cleared for a counter above the one that is due: all of them if it is too far
ahead, else those of the counters skipped. -/
def makeRoom (v : ReceivingKeyCounterValidator) (counter : ℕ) :
    Option ReceivingKeyCounterValidator :=
  if counter - v.next ≥ nBits then some { v with bitmap := .replicate nWords 0 }
  else v.skip counter

/-- `mark_did_receive`: mark the counter as received.  `none` is a call that does not return. -/
def markDidReceive (v : ReceivingKeyCounterValidator) (counter : ℕ) :
    Option (Except WireGuardError Unit × ReceivingKeyCounterValidator) :=
  if (counter + nBits) % u64 < v.next then some (.error .invalidCounter, v)
  else if counter = v.next then some (.ok (), { v.setBit counter with next := (v.next + 1) % u64 })
  else if counter < v.next then
    if v.checkBit counter then some (.error .invalidCounter, v) else some (.ok (), v.setBit counter)
  else do
    let cleared ← v.makeRoom counter
    return (.ok (), { cleared.setBit counter with next := (counter + 1) % u64 })

/-- `Session::receiving_counter_mark`: mark the counter, and count the packet if it is good. -/
def receivingCounterMark (v : ReceivingKeyCounterValidator) (counter : ℕ) :
    Option (Except WireGuardError Unit × ReceivingKeyCounterValidator) := do
  match ← v.markDidReceive counter with
  | (.ok (), v') => return (.ok (), { v' with receiveCnt := v'.receiveCnt + 1 })
  | (.error e, v') => return (.error e, v')

/-- `Session::current_packet_cnt`: packets expected and received. -/
def currentPacketCnt (v : ReceivingKeyCounterValidator) : ℕ × ℕ := (v.next, v.receiveCnt)

variable {v w : ReceivingKeyCounterValidator} {i j counter : ℕ}

/-! ### Bits -/

theorem wordOf_putWord (word : BitVec 64) : (v.putWord i word).wordOf j =
    if i % nBits / wordSize = j % nBits / wordSize then word else v.wordOf j := by
  simp only [wordOf, putWord]
  rw [Vector.getElem_set]

theorem checkBit_eq : v.checkBit i = (v.wordOf i).getLsbD (i % nBits % wordSize) := by
  rw [checkBit, Bool.eq_iff_iff, beq_iff_eq]
  constructor
  · intro h
    have hbit := congrArg (fun word => word.getLsbD 0) h
    simpa using hbit
  · intro h
    ext k hk
    rcases k with _ | k
    · simpa using h
    · simp

/-- Two counters share a bit if they share the word and the place in it. -/
theorem mod_nBits_eq_iff : i % nBits = j % nBits ↔
    i % nBits / wordSize = j % nBits / wordSize ∧
      i % nBits % wordSize = j % nBits % wordSize := by
  simp only [wordSize]
  omega

theorem place_lt (i : ℕ) : i % nBits % wordSize < 64 := Nat.mod_lt _ (by decide)

theorem checkBit_setBit :
    (v.setBit i).checkBit j = (decide (i % nBits = j % nBits) || v.checkBit j) := by
  have hi := place_lt i
  simp only [checkBit_eq, setBit, wordOf_putWord, mod_nBits_eq_iff]
  by_cases hword : i % nBits / wordSize = j % nBits / wordSize
  · have hsame : v.wordOf i = v.wordOf j := by simp only [wordOf, hword]
    rw [if_pos hword, hsame, Bool.eq_iff_iff]
    simp only [hword, true_and, BitVec.getLsbD_or, BitVec.getLsbD_shiftLeft, BitVec.getLsbD_one,
      Bool.or_eq_true, Bool.and_eq_true, decide_eq_true_eq, Bool.not_eq_true']
    have := place_lt j
    grind
  · rw [if_neg hword]
    simp [hword]

theorem checkBit_clearBit :
    (v.clearBit i).checkBit j = (decide (i % nBits ≠ j % nBits) && v.checkBit j) := by
  have hi := place_lt i
  simp only [checkBit_eq, clearBit, wordOf_putWord, ne_eq, mod_nBits_eq_iff]
  by_cases hword : i % nBits / wordSize = j % nBits / wordSize
  · have hsame : v.wordOf i = v.wordOf j := by simp only [wordOf, hword]
    rw [if_pos hword, hsame, Bool.eq_iff_iff]
    have := place_lt j
    simp only [hword, true_and, BitVec.getLsbD_and, BitVec.getLsbD_not, BitVec.getLsbD_shiftLeft,
      BitVec.getLsbD_one, Bool.and_eq_true, decide_eq_true_eq, Bool.not_eq_true']
    grind
  · rw [if_neg hword]
    simp [hword]

theorem checkBit_clearWord : (v.clearWord i).checkBit j =
    (decide (i % nBits / wordSize ≠ j % nBits / wordSize) && v.checkBit j) := by
  simp only [checkBit_eq, clearWord, wordOf_putWord, ne_eq]
  by_cases hword : i % nBits / wordSize = j % nBits / wordSize
  · rw [if_pos hword]
    simp [hword]
  · rw [if_neg hword]
    simp [hword]

theorem checkBit_cleared : ({ v with bitmap := .replicate nWords 0 }).checkBit j = false := by
  simp [checkBit_eq, wordOf]

theorem checkBit_mod : v.checkBit (i % nBits) = v.checkBit i := by
  simp only [checkBit, wordOf, Nat.mod_mod]

/-! ### Skipping counters -/

open Tailcat.Transition

/-- The bits of the counters from `first` up to `i` have been cleared, and the rest is as before. -/
structure Cleared (v w : ReceivingKeyCounterValidator) (first i : ℕ) : Prop where
  next : w.next = v.next
  receiveCnt : w.receiveCnt = v.receiveCnt
  bits : ∀ j, w.checkBit j = true ↔
    v.checkBit j = true ∧ ∀ k, first ≤ k → k < i → k % nBits ≠ j % nBits

namespace Cleared

variable {first : ℕ}

theorem refl : Cleared v v first first :=
  ⟨rfl, rfl, fun _ => ⟨fun h => ⟨h, fun _ hle hlt => absurd hlt (by omega)⟩, fun h => h.1⟩⟩

theorem clearBit (h : Cleared v w first i) (hi : first ≤ i) :
    Cleared v (w.clearBit i) first (i + 1) := by
  refine ⟨h.next, h.receiveCnt, fun j => ?_⟩
  rw [checkBit_clearBit, Bool.and_eq_true, decide_eq_true_eq, h.bits j]
  constructor
  · rintro ⟨hne, hbit, hall⟩
    refine ⟨hbit, fun k hle hlt => ?_⟩
    rcases Nat.lt_succ_iff_lt_or_eq.1 hlt with hlt | rfl
    · exact hall k hle hlt
    · exact hne
  · rintro ⟨hbit, hall⟩
    exact ⟨hall i hi (by omega), hbit, fun k hle hlt => hall k hle (by omega)⟩

/-- A word holds the bits of the counters from its first one on. -/
theorem clearWord (h : Cleared v w first i) (hi : first ≤ i) (haligned : i % wordSize = 0) :
    Cleared v (w.clearWord i) first (i + wordSize) := by
  refine ⟨h.next, h.receiveCnt, fun j => ?_⟩
  rw [checkBit_clearWord, Bool.and_eq_true, decide_eq_true_eq, h.bits j]
  have hword : i % nBits / wordSize ≠ j % nBits / wordSize ↔
      ∀ k, i ≤ k → k < i + wordSize → k % nBits ≠ j % nBits := by
    simp only [nBits, nWords, wordSize] at haligned ⊢
    constructor
    · intro hne k hle hlt
      omega
    · intro hall heq
      exact hall (i + j % 64) (by omega) (by omega) (by omega)
  rw [hword]
  constructor
  · rintro ⟨hne, hbit, hall⟩
    refine ⟨hbit, fun k hle hlt => ?_⟩
    by_cases hk : k < i
    · exact hall k hle hk
    · exact hne k (by omega) hlt
  · rintro ⟨hbit, hall⟩
    exact ⟨fun k hle hlt => hall k (by omega) hlt, hbit,
      fun k hle hlt => hall k hle (by omega)⟩

end Cleared

/-- A loop over counters ends, if each turn keeps an invariant and goes on to a higher counter. -/
theorem sweep_yields {more : ℕ → Bool} {following : ℕ → ℕ}
    {clear : ReceivingKeyCounterValidator → ℕ → ReceivingKeyCounterValidator}
    {I : ReceivingKeyCounterValidator × ℕ → Prop} {s : ReceivingKeyCounterValidator × ℕ}
    (hturn : ∀ s, I s → more s.2 = true →
      I (clear s.1 s.2, following s.2) ∧ s.2 < following s.2)
    (hlimit : ∀ s, I s → s.2 < u64) (h0 : I s) :
    Yields (sweep more clear following s) fun r => I r ∧ more r.2 = false := by
  refine Loop.runFor_yields (fun s => u64 - s.2) (fun s hs => ?_) h0 (by omega)
  by_cases hmore : more s.2 = true
  · obtain ⟨hnext, hlt⟩ := hturn s hs hmore
    have := hlimit s hs
    exact .inl ⟨_, if_pos hmore, hnext, by simp only; omega⟩
  · exact .inr ⟨s, if_neg hmore, hs, Bool.not_eq_true _ ▸ hmore⟩

/-- The mask of `mark_did_receive` keeps a multiple of the word size. -/
theorem and_mask (hi : i < u64) (haligned : i % wordSize = 0) : i &&& (u64 - wordSize) = i := by
  have hmul : i = i / 64 * 2 ^ 6 := by
    simp only [wordSize] at haligned
    omega
  refine Nat.eq_of_testBit_eq fun k => ?_
  have hmask : (u64 - wordSize).testBit k = (decide (6 ≤ k) && decide (k < 64)) := by
    have hu : u64 - wordSize = (2 ^ 58 - 1) * 2 ^ 6 := by decide
    rw [hu, Nat.testBit_mul_two_pow, Nat.testBit_two_pow_sub_one, Bool.eq_iff_iff]
    simp only [Bool.and_eq_true, decide_eq_true_eq]
    omega
  rw [Nat.testBit_and, hmask]
  by_cases hk : k < 64
  · have hlow : i.testBit k = true → 6 ≤ k := by
      rw [hmul, Nat.testBit_mul_two_pow]
      simp only [Bool.and_eq_true, decide_eq_true_eq]
      exact fun h => h.1
    rw [Bool.eq_iff_iff]
    simp only [Bool.and_eq_true, decide_eq_true_eq]
    exact ⟨fun h => h.1, fun h => ⟨h, hlow h, hk⟩⟩
  · have hhigh : i.testBit k = false :=
      Nat.testBit_lt_two_pow (lt_of_lt_of_le hi (Nat.pow_le_pow_right (by decide) (by omega)))
    rw [hhigh, Bool.false_and]

/-- **The loops clear exactly the bits of the counters skipped.** -/
theorem skip_yields (hnext : v.next ≤ counter) (hbound : counter + nBits < u64) :
    Yields (v.skip counter) fun w => Cleared v w v.next counter := by
  -- what the three loops keep: the bits below `i` are done, and `i` has not passed the counter
  let I : ReceivingKeyCounterValidator × ℕ → Prop :=
    fun s => Cleared v s.1 v.next s.2 ∧ v.next ≤ s.2 ∧ s.2 ≤ counter
  have hlimit : ∀ s, I s → s.2 < u64 := fun s hs => by
    have := hs.2.2
    omega
  have hbits : ∀ s, I s → s.2 < counter → I (s.1.clearBit s.2, s.2 + 1) := fun s hs hlt =>
    ⟨hs.1.clearBit hs.2.1, by simp only; omega, by simp only; omega⟩
  unfold skip
  refine Yields.bind (I := fun r => I r ∧ (r.2 % wordSize = 0 ∨ r.2 = counter)) ?_
    fun aligned h1 => ?_
  · refine (sweep_yields (I := I) (fun s hs hmore => ?_) hlimit
      ⟨.refl, le_refl _, hnext⟩).mono fun r hr => ⟨hr.1, ?_⟩
    · exact ⟨hbits s hs (of_decide_eq_true hmore).2, Nat.lt_succ_self _⟩
    · have hstop := of_decide_eq_false hr.2
      have := hr.1.2.2
      by_cases hzero : r.2 % wordSize = 0
      · exact .inl hzero
      · exact .inr (by
          by_contra hne
          exact hstop ⟨hzero, by omega⟩)
  refine Yields.bind (I := I) ?_ fun words h2 => ?_
  · refine (sweep_yields (I := fun r => I r ∧ (r.2 % wordSize = 0 ∨ r.2 = counter))
      (fun s hs hmore => ?_) (fun s hs => hlimit s hs.1) h1).mono fun r hr => hr.1.1
    obtain ⟨⟨hcleared, hle, hcounter⟩, haligned⟩ := hs
    have hwrap : (s.2 + wordSize) % u64 = s.2 + wordSize :=
      Nat.mod_eq_of_lt (by simp only [nBits, nWords, wordSize] at hbound ⊢; omega)
    have hlt : s.2 + wordSize < counter := hwrap ▸ of_decide_eq_true hmore
    have hzero : s.2 % wordSize = 0 := by
      simp only [wordSize] at hlt haligned ⊢
      omega
    have hzero' : (s.2 + wordSize) % wordSize = 0 := by rw [Nat.add_mod_right, hzero]
    have hmask : (s.2 + wordSize) % u64 &&& (u64 - wordSize) = s.2 + wordSize := by
      rw [hwrap, and_mask (by omega) hzero']
    rw [hmask]
    refine ⟨⟨⟨hcleared.clearWord hle hzero, ?_, ?_⟩, .inl hzero'⟩, ?_⟩
    · simp only
      omega
    · exact hlt.le
    · simp [wordSize]
  refine Yields.bind (I := fun r => I r ∧ r.2 = counter) ?_ fun rest h3 => ?_
  · refine (sweep_yields (I := I) (fun s hs hmore => ?_) hlimit h2).mono fun r hr => ⟨hr.1, ?_⟩
    · exact ⟨hbits s hs (of_decide_eq_true hmore), Nat.lt_succ_self _⟩
    · have hstop := of_decide_eq_false hr.2
      have := hr.1.2.2
      omega
  · obtain ⟨⟨hcleared, -, -⟩, hend⟩ := h3
    exact .ofSome (hend ▸ hcleared)

/-! ### Marking counters -/

open ReplayWindow

/-- The validator is in the state of an abstract window. -/
structure Refines (v : ReceivingKeyCounterValidator) (seen : List ℕ) : Prop where
  tracks : Tracks nBits v.checkBit v.next seen
  received : v.receiveCnt = seen.length
  /-- Counters so high that the additions wrap have not been taken. -/
  bounded : ∀ c ∈ seen, c + nBits < u64

variable {seen : List ℕ}

theorem Refines.initial : Refines {} [] := by
  have hclear : ({} : ReceivingKeyCounterValidator).checkBit = fun _ => false := by
    funext j
    exact checkBit_cleared (v := {})
  exact ⟨hclear ▸ .empty, rfl, by simp⟩

theorem Refines.next_lt (h : Refines v seen) : v.next + nBits ≤ u64 := by
  by_cases hzero : v.next = 0
  · rw [hzero]
    decide
  · have := h.bounded _ (h.tracks.last hzero)
    omega

/-- Setting a bit sets that of the counters with its place, and no other. -/
theorem checkBit_setBit_self : (v.setBit i).checkBit (i % nBits) = true := by
  rw [checkBit_mod, checkBit_setBit]
  simp

theorem checkBit_setBit_of_ne (hne : i % nBits ≠ j % nBits) :
    (v.setBit i).checkBit j = v.checkBit j := by
  rw [checkBit_setBit]
  simp [hne]

/-- Marking a counter fails exactly if it is not fresh; if it does not, the window has it. -/
structure Marked (v : ReceivingKeyCounterValidator) (seen : List ℕ) (counter : ℕ)
    (r : Except WireGuardError Unit × ReceivingKeyCounterValidator) : Prop where
  fresh : Fresh nBits seen counter →
    r.1 = .ok () ∧ Tracks nBits r.2.checkBit r.2.next (counter :: seen) ∧
      r.2.receiveCnt = v.receiveCnt
  stale : ¬ Fresh nBits seen counter → r = (.error .invalidCounter, v)

theorem Marked.ofFresh {r : Except WireGuardError Unit × ReceivingKeyCounterValidator}
    (hfresh : Fresh nBits seen counter) (hr : r.1 = .ok ())
    (htracks : Tracks nBits r.2.checkBit r.2.next (counter :: seen))
    (hcnt : r.2.receiveCnt = v.receiveCnt) : Marked v seen counter r :=
  ⟨fun _ => ⟨hr, htracks, hcnt⟩, fun h => absurd hfresh h⟩

theorem Marked.ofStale (hstale : ¬ Fresh nBits seen counter) :
    Marked v seen counter (.error .invalidCounter, v) :=
  ⟨fun h => absurd h hstale, fun _ => rfl⟩

/-- The bits after a jump to a higher counter, cleared as the code does it. -/
theorem tracks_jump (h : Refines v seen) (hlt : v.next < counter)
    (hcleared : if counter - v.next ≥ nBits then ∀ j, w.checkBit j = false
      else Cleared v w v.next counter) :
    Tracks nBits (w.setBit counter).checkBit (counter + 1) (counter :: seen) := by
  refine h.tracks.advance hlt.le checkBit_setBit_self (fun i hle hi hwin => ?_)
    fun i hi hwin => ?_
  · have hne : counter % nBits ≠ i % nBits := (Tracks.mod_ne hi hwin).symm
    rw [checkBit_mod, checkBit_setBit_of_ne hne]
    split at hcleared
    · exact hcleared i
    · refine Bool.not_eq_true _ ▸ fun hbit => ?_
      exact ((hcleared.bits i).1 hbit).2 i hle hi rfl
  · have hne : counter % nBits ≠ i % nBits := (Tracks.mod_ne (by omega) hwin).symm
    rw [checkBit_mod, checkBit_mod, checkBit_setBit_of_ne hne]
    rw [if_neg (by omega)] at hcleared
    rw [Bool.eq_iff_iff, hcleared.bits i]
    refine ⟨fun hbit => hbit.1, fun hbit => ⟨hbit, fun k hle hk => ?_⟩⟩
    exact (Tracks.mod_ne (by omega) (by omega)).symm

/-- **One call of `mark_did_receive`**: it returns, and takes the counter exactly if it is fresh. -/
theorem markDidReceive_yields (h : Refines v seen) (hbound : counter + nBits < u64) :
    Yields (v.markDidReceive counter) (Marked v seen counter) := by
  have hwrap : (counter + nBits) % u64 = counter + nBits := Nat.mod_eq_of_lt hbound
  have hfresh := h.tracks.fresh_iff (c := counter)
  rw [checkBit_mod] at hfresh
  have hnextlt := h.next_lt
  have hbits : 0 < nBits := by decide
  unfold markDidReceive
  rw [hwrap]
  split
  · next hfar => exact .ofSome (.ofStale fun hf => by
      rcases hfresh.1 hf with hle | ⟨hle, -⟩ <;> omega)
  · next hnear =>
    split
    · next heq =>
      -- the packet that is due: the window moves by one
      subst heq
      have hstep : (v.next + 1) % u64 = v.next + 1 := Nat.mod_eq_of_lt (by omega)
      rw [hstep]
      refine .ofSome (.ofFresh (hfresh.2 (.inl (le_refl _))) rfl ?_ rfl)
      refine h.tracks.advance (le_refl _) checkBit_setBit_self (fun i hle hi => by omega)
        fun i hi hwin => ?_
      rw [checkBit_mod, checkBit_mod]
      exact checkBit_setBit_of_ne (Tracks.mod_ne hi hwin).symm
    · next hne =>
      split
      · next hlt =>
        split
        · next hbit => exact .ofSome (.ofStale fun hf => by
            rcases hfresh.1 hf with hle | ⟨-, hclear⟩
            · omega
            · exact absurd hbit (by simp [hclear]))
        · next hbit =>
          refine .ofSome (.ofFresh (hfresh.2 (.inr ⟨by omega, by simpa using hbit⟩)) rfl ?_ rfl)
          refine h.tracks.mark hlt checkBit_setBit_self (fun i hi => ?_) (by omega)
          rw [checkBit_mod, checkBit_mod]
          exact checkBit_setBit_of_ne hi.symm
      · next hge =>
        -- packets were dropped or reordered: the window jumps
        have hlt : v.next < counter := by omega
        have hstep : (counter + 1) % u64 = counter + 1 := Nat.mod_eq_of_lt (by omega)
        rw [hstep]
        refine Yields.bind (I := fun w => w.receiveCnt = v.receiveCnt ∧
          if counter - v.next ≥ nBits then ∀ j, w.checkBit j = false
            else Cleared v w v.next counter) ?_ fun w hw => ?_
        · unfold makeRoom
          split
          · exact .ofSome ⟨rfl, fun j => checkBit_cleared⟩
          · exact (skip_yields hlt.le hbound).mono fun w hw => ⟨hw.receiveCnt, hw⟩
        · exact .ofSome (.ofFresh (hfresh.2 (.inl hlt.le)) rfl (tracks_jump h hlt hw.2) hw.1)

/-- **One packet**: its counter is taken exactly if it is fresh, and then counted. -/
theorem receivingCounterMark_yields (h : Refines v seen) (hbound : counter + nBits < u64) :
    Yields (v.receivingCounterMark counter) fun r => Refines r.2 (accept nBits seen counter) ∧
      (r.1 = .ok () ↔ Fresh nBits seen counter) ∧
      (¬ Fresh nBits seen counter → r.1 = .error .invalidCounter) := by
  obtain ⟨⟨res, w⟩, hmark, hmarked⟩ := markDidReceive_yields h hbound
  unfold receivingCounterMark accept
  rw [hmark]
  by_cases hfresh : Fresh nBits seen counter
  · obtain ⟨rfl, htracks, hcnt⟩ := hmarked.fresh hfresh
    refine .ofSome ⟨?_, by simp [hfresh], fun hstale => absurd hfresh hstale⟩
    rw [if_pos hfresh]
    refine ⟨htracks, ?_, fun c hc => ?_⟩
    · have hcount : w.receiveCnt = seen.length := hcnt.trans h.received
      simp only [List.length_cons, hcount]
    · rcases List.mem_cons.1 hc with rfl | hc
      · exact hbound
      · exact h.bounded c hc
  · have hr := hmarked.stale hfresh
    cases hr
    refine .ofSome ⟨?_, by simp [hfresh], fun _ => rfl⟩
    rw [if_neg hfresh]
    exact h

/-- A counter that is not taken leaves the validator as it is. -/
theorem receivingCounterMark_error {e : WireGuardError}
    (h : v.receivingCounterMark counter = some (.error e, w)) : w = v := by
  unfold receivingCounterMark at h
  cases hmark : v.markDidReceive counter with
  | none => simp [hmark] at h
  | some x =>
    obtain ⟨r, v'⟩ := x
    simp only [hmark, Option.bind_eq_bind, Option.bind_some] at h
    cases r with
    | ok u => cases h
    | error e' =>
      cases h
      unfold markDidReceive at hmark
      split at hmark
      · cases hmark
        rfl
      · split at hmark
        · cases hmark
        · split at hmark
          · split at hmark
            · cases hmark
              rfl
            · cases hmark
          · cases hroom : v.makeRoom counter with
            | none => simp [hroom] at hmark
            | some cleared =>
              simp only [hroom, Option.bind_eq_bind, Option.bind_some] at hmark
              cases hmark

/-! ### Any number of packets -/

/-- A packet of the counter arrives: the counters taken, with the latest first. -/
def mark (s : ReceivingKeyCounterValidator × List ℕ) (counter : ℕ) :
    Option (ReceivingKeyCounterValidator × List ℕ) := do
  match ← s.1.receivingCounterMark counter with
  | (.ok (), v) => return (v, counter :: s.2)
  | (.error _, v) => return (v, s.2)

/-- Packets of these counters arrive at a new session. -/
def marks (counters : List ℕ) : Option (ReceivingKeyCounterValidator × List ℕ) :=
  runM mark ({}, []) counters

theorem mark_yields (h : Refines v seen) (hbound : counter + nBits < u64) :
    Yields (mark (v, seen) counter) fun s => s.2 = accept nBits seen counter ∧ Refines s.1 s.2 := by
  obtain ⟨⟨res, w⟩, hmark, hrefines, hok, -⟩ := receivingCounterMark_yields h hbound
  unfold mark
  rw [hmark]
  cases res with
  | ok u =>
    have haccept : accept nBits seen counter = counter :: seen := if_pos (hok.1 rfl)
    exact .ofSome ⟨haccept.symm, haccept ▸ hrefines⟩
  | error e =>
    have haccept : accept nBits seen counter = seen := if_neg fun hf => by cases hok.2 hf
    exact .ofSome ⟨haccept.symm, haccept ▸ hrefines⟩

theorem marks_yields (counters : List ℕ) (hbound : ∀ c ∈ counters, c + nBits < u64) :
    Yields (marks counters) fun s => s.2 = accepted nBits counters ∧ Refines s.1 s.2 := by
  induction counters using List.reverseRecOn with
  | nil => exact .ofSome ⟨rfl, .initial⟩
  | append_singleton counters c ih =>
    obtain ⟨⟨w, seen⟩, hmarks, hseen, hrefines⟩ := ih fun c' hc' => hbound c' (by simp [hc'])
    obtain ⟨s, hmark, hnext, hlast⟩ := mark_yields hrefines (hbound c (by simp))
    refine ⟨s, ?_, ?_, hlast⟩
    · unfold marks runM at hmarks ⊢
      rw [List.foldlM_append, hmarks]
      simpa using hmark
    · rw [accepted_concat, hnext, hseen]

/-- **The counters taken are those an abstract window accepts**, whatever arrives in whatever order:
each at most once, and none too far below the highest.  They are counted, and the counter that is
due is the one after the highest. -/
theorem marks_refines (counters : List ℕ) (hbound : ∀ c ∈ counters, c + nBits < u64) :
    ∃ v, marks counters = some (v, accepted nBits counters) ∧
      (accepted nBits counters).Nodup ∧ accepted nBits counters ⊆ counters ∧
      v.receiveCnt = (accepted nBits counters).length ∧
      ∀ c, c < v.next ↔ ∃ a ∈ accepted nBits counters, c ≤ a := by
  obtain ⟨⟨v, seen⟩, hmarks, hseen, hrefines⟩ := marks_yields counters hbound
  cases hseen
  have hreceived : v.receiveCnt = (accepted nBits counters).length := hrefines.received
  have htracks : Tracks nBits v.checkBit v.next (accepted nBits counters) := hrefines.tracks
  refine ⟨v, hmarks, accepted_nodup, accepted_subset, hreceived, fun c => ⟨fun hlt => ?_, ?_⟩⟩
  · exact ⟨v.next - 1, htracks.last (by omega), by omega⟩
  · rintro ⟨a, ha, hle⟩
    exact lt_of_le_of_lt hle (htracks.below a ha)

theorem marks_refines_sample :
    ∃ v, marks [3, 0, 3, 2000, 900, 1500] = some (v, [1500, 2000, 0, 3]) ∧
      [1500, 2000, 0, 3].Nodup ∧ [1500, 2000, 0, 3] ⊆ [3, 0, 3, 2000, 900, 1500] ∧
      v.receiveCnt = 4 ∧ ∀ c, c < v.next ↔ ∃ a ∈ [1500, 2000, 0, 3], c ≤ a := by
  have h := marks_refines [3, 0, 3, 2000, 900, 1500] (by decide)
  have haccepted : accepted nBits [3, 0, 3, 2000, 900, 1500] = [1500, 2000, 0, 3] := by decide
  rw [haccepted] at h
  exact h

/-- The check made before decryption, by the window. -/
theorem Refines.willAccept_eq (h : Refines v seen) : v.willAccept counter =
    if ∀ a ∈ seen, a < counter + nBits then
      if counter ∈ seen then .error .duplicateCounter else .ok ()
    else .error .invalidCounter := by
  have hnext := h.next_lt
  have hwindow := h.tracks.forall_lt_iff (c := counter)
  unfold willAccept
  by_cases hle : v.next ≤ counter
  · have hnew : counter ∉ seen := fun hin => absurd (h.tracks.below counter hin) (by omega)
    rw [if_pos hle, if_pos (hwindow.2 (by omega)), if_neg hnew]
  · rw [if_neg hle, Nat.mod_eq_of_lt (by omega)]
    by_cases hnear : v.next ≤ counter + nBits
    · have hbit := h.tracks.bits counter (by omega) hnear
      rw [checkBit_mod] at hbit
      rw [if_neg (by omega), if_pos (hwindow.2 hnear)]
      simp only [hbit]
    · rw [if_pos (by omega), if_neg fun hall => hnear (hwindow.1 hall)]

theorem Refines.willAccept_ok_iff (h : Refines v seen) :
    v.willAccept counter = .ok () ↔ Fresh nBits seen counter := by
  rw [h.willAccept_eq, Fresh]
  by_cases hall : ∀ a ∈ seen, a < counter + nBits
  · rw [if_pos hall]
    by_cases hin : counter ∈ seen
    · simp [hin]
    · rw [if_neg hin]
      exact ⟨fun _ => ⟨hin, hall⟩, fun _ => rfl⟩
  · rw [if_neg hall]
    simp only [hall, and_false, reduceCtorEq]

/-- **The check made before decryption predicts the mark**: after any packets, `will_accept` takes a
counter exactly if marking it would, and its errors tell a counter too far back from one received
already. -/
theorem willAccept_after (counters : List ℕ) (hbound : ∀ c ∈ counters, c + nBits < u64) (c : ℕ)
    (hc : c + nBits < u64) : ∃ v seen, marks counters = some (v, seen) ∧
      (v.willAccept c = .ok () ↔ ∃ w, v.receivingCounterMark c = some (.ok (), w)) ∧
      (v.willAccept c = .error .invalidCounter ↔ ∃ a ∈ seen, c + nBits ≤ a) ∧
      (v.willAccept c = .error .duplicateCounter ↔ c ∈ seen ∧ ∀ a ∈ seen, a < c + nBits) := by
  obtain ⟨⟨v, seen⟩, hmarks, -, hrefines⟩ := marks_yields counters hbound
  obtain ⟨⟨res, w⟩, hmark, -, hok, -⟩ := receivingCounterMark_yields hrefines hc
  have hsome : (∃ w', v.receivingCounterMark c = some (.ok (), w')) ↔ Fresh nBits seen c := by
    rw [hmark, ← hok]
    constructor
    · rintro ⟨w', hw'⟩
      cases hw'
      rfl
    · rintro rfl
      exact ⟨w, rfl⟩
  have hfar : (∃ a ∈ seen, c + nBits ≤ a) ↔ ¬ ∀ a ∈ seen, a < c + nBits := by
    push Not
    rfl
  -- what is accepted, what is too far back, and what is there already
  refine ⟨v, seen, hmarks, ?_, ?_, ?_⟩
  · rw [hsome]
    exact hrefines.willAccept_ok_iff
  · rw [hrefines.willAccept_eq, hfar]
    by_cases hall : ∀ a ∈ seen, a < c + nBits
    · rw [if_pos hall]
      have hnear : ¬ ¬ ∀ a ∈ seen, a < c + nBits := not_not_intro hall
      by_cases hin : c ∈ seen
      · simp [hin, hnear]
      · simp [hin, hnear]
    · rw [if_neg hall]
      simp only [hall, not_false_eq_true]
  · rw [hrefines.willAccept_eq]
    by_cases hall : ∀ a ∈ seen, a < c + nBits
    · rw [if_pos hall]
      by_cases hin : c ∈ seen
      · rw [if_pos hin]
        exact ⟨fun _ => ⟨hin, hall⟩, fun _ => rfl⟩
      · simp [hin]
    · rw [if_neg hall]
      simp only [hall, and_false, Except.error.injEq, reduceCtorEq]

theorem willAccept_after_sample : ∃ v seen, marks [3, 0, 3, 2000, 900] = some (v, seen) ∧
    (v.willAccept 976 = .ok () ↔ ∃ w, v.receivingCounterMark 976 = some (.ok (), w)) ∧
    (v.willAccept 976 = .error .invalidCounter ↔ ∃ a ∈ seen, 976 + nBits ≤ a) ∧
    (v.willAccept 976 = .error .duplicateCounter ↔
      976 ∈ seen ∧ ∀ a ∈ seen, a < 976 + nBits) :=
  willAccept_after [3, 0, 3, 2000, 900] (by decide) 976 (by decide)

end ReceivingKeyCounterValidator

end Tailcat.Noise
