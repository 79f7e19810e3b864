import Mathlib.Order.Basic

/-!
# Loops

A loop takes turns: each leads to another state, or ends the loop with a result.

* `Returns` : the loop ends with the result after some number of turns.
* `Returns.post` : what holds of the result, by an invariant of the turns (partial correctness).
* `exists_returns` : the loop ends, if a measure gets smaller with each turn (total correctness).
* `runFor_yields` : it ends within as many turns as the measure says.
-/

namespace Loop

variable {σ ρ : Type*}

/-- The result of at most so many turns. -/
def runFor (turn : σ → σ ⊕ ρ) : ℕ → σ → Option ρ
  | 0, _ => none
  | fuel + 1, s =>
    match turn s with
    | .inl s' => runFor turn fuel s'
    | .inr r => some r

/-- The loop ends with a result. -/
def Returns (turn : σ → σ ⊕ ρ) (s : σ) (r : ρ) : Prop := ∃ fuel, runFor turn fuel s = some r

variable {turn : σ → σ ⊕ ρ} {s s' : σ} {r : ρ} {I : σ → Prop} {P : ρ → Prop}

theorem Returns.stop (h : turn s = .inr r) : Returns turn s r := by
  refine ⟨1, ?_⟩
  rw [runFor, h]

theorem Returns.again (h : turn s = .inl s') (hr : Returns turn s' r) : Returns turn s r := by
  obtain ⟨fuel, hfuel⟩ := hr
  refine ⟨fuel + 1, ?_⟩
  rw [runFor, h]
  exact hfuel

/-- What holds of every result, if each turn preserves an invariant. -/
theorem Returns.post (hagain : ∀ s s', I s → turn s = .inl s' → I s')
    (hstop : ∀ s r, I s → turn s = .inr r → P r) (h0 : I s) (h : Returns turn s r) : P r := by
  obtain ⟨fuel, hfuel⟩ := h
  induction fuel generalizing s with
  | zero => cases hfuel
  | succ fuel ih =>
    rw [runFor] at hfuel
    cases hturn : turn s with
    | inl s' =>
      rw [hturn] at hfuel
      exact ih (hagain s s' h0 hturn) hfuel
    | inr r' =>
      rw [hturn] at hfuel
      cases hfuel
      exact hstop s r h0 hturn

/-- The loop ends, if each turn ends it or makes a measure smaller. -/
theorem exists_returns (μ : σ → ℕ)
    (hturn : ∀ s, I s → (∃ s', turn s = .inl s' ∧ I s' ∧ μ s' < μ s) ∨ ∃ r, turn s = .inr r ∧ P r)
    (h0 : I s) : ∃ r, Returns turn s r ∧ P r := by
  induction hn : μ s using Nat.strongRecOn generalizing s with
  | _ n ih =>
    obtain ⟨s', hs', hI, hlt⟩ | ⟨r, hr, hP⟩ := hturn s h0
    · obtain ⟨r, hr, hP⟩ := ih (μ s') (hn ▸ hlt) hI rfl
      exact ⟨r, hr.again hs', hP⟩
    · exact ⟨r, .stop hr, hP⟩

/-- The loop ends within as many turns as a measure says that each turn lowers. -/
theorem runFor_yields (μ : σ → ℕ)
    (hturn : ∀ s, I s → (∃ s', turn s = .inl s' ∧ I s' ∧ μ s' < μ s) ∨ ∃ r, turn s = .inr r ∧ P r)
    (h0 : I s) {fuel : ℕ} (hfuel : μ s < fuel) : ∃ r, runFor turn fuel s = some r ∧ P r := by
  induction fuel generalizing s with
  | zero => exact absurd hfuel (Nat.not_lt_zero _)
  | succ fuel ih =>
    obtain ⟨s', hs', hI, hlt⟩ | ⟨r, hr, hP⟩ := hturn s h0
    · rw [runFor, hs']
      have hless : μ s' < fuel := by omega
      exact ih hI hless
    · exact ⟨r, by rw [runFor, hr], hP⟩

end Loop
