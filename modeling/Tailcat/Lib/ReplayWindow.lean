import Mathlib.Data.List.Induction
import Mathlib.Data.List.Nodup
import Mathlib.Data.Int.ModEq

/-!
# Replay windows

Numbered messages arrive in any order, some of them again and again.  A window of size `n` accepts
a number if it is fresh: it was not accepted before, and lies at most `n` below the numbers
accepted so far.

* `accepted` : the numbers accepted of those that have arrived, the latest first.
* `accepted_nodup`, `accepted_subset` : no number is accepted twice, or without having arrived.
* `accepted_eq_reverse` : numbers that arrive once each, displaced by less than `n`, are all
  accepted.
* `Tracks` : a ring of `n` bits, one for each number modulo `n`, tells the fresh numbers.  It still
  does after a number below the highest is marked (`Tracks.mark`), and after it is moved up to a new
  highest number, with the bits of the numbers skipped cleared (`Tracks.advance`).
-/

namespace ReplayWindow

/-- A number can be accepted after those of `seen`. -/
def Fresh (n : ℕ) (seen : List ℕ) (c : ℕ) : Prop := c ∉ seen ∧ ∀ a ∈ seen, a < c + n

instance (n : ℕ) (seen : List ℕ) (c : ℕ) : Decidable (Fresh n seen c) :=
  inferInstanceAs (Decidable (_ ∧ _))

/-- The numbers accepted after one more has arrived. -/
def accept (n : ℕ) (seen : List ℕ) (c : ℕ) : List ℕ := if Fresh n seen c then c :: seen else seen

/-- The numbers accepted of those that have arrived, the latest first. -/
def accepted (n : ℕ) (arrived : List ℕ) : List ℕ := arrived.foldl (accept n) []

variable {n : ℕ} {seen arrived : List ℕ} {c : ℕ}

theorem accepted_concat : accepted n (arrived ++ [c]) = accept n (accepted n arrived) c := by
  simp [accepted]

theorem accept_nodup (h : seen.Nodup) : (accept n seen c).Nodup := by
  unfold accept
  split
  · next hfresh => exact List.nodup_cons.2 ⟨hfresh.1, h⟩
  · exact h

/-- No number is accepted twice. -/
theorem accepted_nodup : (accepted n arrived).Nodup := by
  induction arrived using List.reverseRecOn with
  | nil => exact List.nodup_nil
  | append_singleton arrived c ih =>
    rw [accepted_concat]
    exact accept_nodup ih

/-- What is accepted has arrived. -/
theorem accepted_subset : accepted n arrived ⊆ arrived := by
  induction arrived using List.reverseRecOn with
  | nil => exact List.Subset.refl _
  | append_singleton arrived c ih =>
    rw [accepted_concat]
    unfold accept
    split
    · exact List.cons_subset.2 ⟨by simp, fun a ha => by simp [ih ha]⟩
    · exact fun a ha => by simp [ih ha]

/-- **Numbers that arrive once each, displaced by less than the window, are all accepted.** -/
theorem accepted_eq_reverse
    (h : arrived.Pairwise fun earlier later => earlier ≠ later ∧ earlier < later + n) :
    accepted n arrived = arrived.reverse := by
  induction arrived using List.reverseRecOn with
  | nil => rfl
  | append_singleton arrived c ih =>
    obtain ⟨hfirst, -, hlast⟩ := List.pairwise_append.1 h
    have hfresh : Fresh n arrived.reverse c := by
      refine ⟨fun hc => ?_, fun a ha => ?_⟩
      · exact (hlast c (List.mem_reverse.1 hc) c (by simp)).1 rfl
      · exact (hlast a (List.mem_reverse.1 ha) c (by simp)).2
    rw [accepted_concat, ih hfirst, accept, if_pos hfresh]
    simp

/-! ### A ring of bits -/

/-- The bits tell which numbers of the last `n` below `next` have been accepted, and none has been
accepted from `next` on. -/
structure Tracks (n : ℕ) (bit : ℕ → Bool) (next : ℕ) (seen : List ℕ) : Prop where
  below : ∀ a ∈ seen, a < next
  /-- The number below `next` is the highest. -/
  last : next ≠ 0 → next - 1 ∈ seen
  bits : ∀ c < next, next ≤ c + n → (bit (c % n) = true ↔ c ∈ seen)

namespace Tracks

variable {bit bit' : ℕ → Bool} {next : ℕ}

theorem empty : Tracks n bit 0 [] :=
  ⟨by simp, fun h => absurd rfl h, fun _ h => absurd h (Nat.not_lt_zero _)⟩

/-- A number is too far below those accepted exactly if it is below the window. -/
theorem forall_lt_iff (h : Tracks n bit next seen) : (∀ a ∈ seen, a < c + n) ↔ next ≤ c + n := by
  constructor
  · intro hall
    by_cases hzero : next = 0
    · omega
    · have := hall _ (h.last hzero)
      omega
  · intro hle a ha
    have := h.below a ha
    omega

/-- **Fresh numbers are told by their bits.** -/
theorem fresh_iff (h : Tracks n bit next seen) :
    Fresh n seen c ↔ next ≤ c ∨ (next ≤ c + n ∧ bit (c % n) = false) := by
  unfold Fresh
  rw [h.forall_lt_iff]
  by_cases hc : next ≤ c
  · have hnew : c ∉ seen := fun hmem => absurd (h.below c hmem) (by omega)
    simp only [hc, true_or, iff_true]
    exact ⟨hnew, by omega⟩
  · by_cases hle : next ≤ c + n
    · have hbit := h.bits c (by omega) hle
      simp only [hc, hle, false_or, true_and, and_true, ← hbit, Bool.not_eq_true]
    · simp only [hc, hle, and_false, false_and, or_self]

/-- Two numbers of one window have different places on the ring. -/
theorem mod_ne {a b : ℕ} (hlt : a < b) (hle : b < a + n) : a % n ≠ b % n := by
  intro heq
  have hdvd : n ∣ b - a := (Nat.modEq_iff_dvd' hlt.le).1 heq
  have := Nat.le_of_dvd (by omega) hdvd
  omega

/-- A number in the window is marked. -/
theorem mark (h : Tracks n bit next seen) (hlt : c < next) (hset : bit' (c % n) = true)
    (hsame : ∀ i, i % n ≠ c % n → bit' (i % n) = bit (i % n)) (hle : next ≤ c + n) :
    Tracks n bit' next (c :: seen) := by
  refine ⟨?_, fun hzero => List.mem_cons_of_mem _ (h.last hzero), ?_⟩
  · intro a ha
    rcases List.mem_cons.1 ha with rfl | ha
    · exact hlt
    · exact h.below a ha
  · intro a ha hale
    rcases Nat.lt_trichotomy a c with hac | rfl | hac
    · rw [hsame _ (mod_ne hac (by omega)), h.bits a ha hale]
      simp [hac.ne]
    · simp [hset]
    · rw [hsame _ (mod_ne hac (by omega)).symm, h.bits a ha hale]
      simp [hac.ne']

/-- The window moves up to a new highest number: its bit is set, those of the numbers skipped are
cleared, and those of the numbers still in the window are kept. -/
theorem advance (h : Tracks n bit next seen) (hle : next ≤ c) (hset : bit' (c % n) = true)
    (hclear : ∀ i, next ≤ i → i < c → c < i + n → bit' (i % n) = false)
    (hkeep : ∀ i < next, c < i + n → bit' (i % n) = bit (i % n)) :
    Tracks n bit' (c + 1) (c :: seen) := by
  refine ⟨?_, fun _ => by simp, ?_⟩
  · intro a ha
    rcases List.mem_cons.1 ha with rfl | ha
    · omega
    · have := h.below a ha
      omega
  · intro a ha hale
    by_cases hac : a = c
    · subst hac
      simp [hset]
    · by_cases hnext : a < next
      · rw [hkeep a hnext (by omega), h.bits a hnext (by omega)]
        simp [hac]
      · have hnew : a ∉ seen := fun hmem => hnext (h.below a hmem)
        rw [hclear a (by omega) (by omega) (by omega)]
        simp [hac, hnew]

end Tracks

end ReplayWindow
