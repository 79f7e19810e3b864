import Mathlib.Data.List.Basic

/-!
# Runs of a step function

A system takes a step at each event; whatever its surroundings may choose is part of the event.

* `run` : the state after a list of events.
* `Along P` : every step of a run meets `P`, a condition on the state before it and the event.
* `run_invariant` : what every step that meets the condition preserves holds after the run.
* `Yields`, `runM` : the same for computations and steps that may fail.
-/

namespace Tailcat.Transition

variable {σ ε : Type*} (step : σ → ε → σ)

/-- The state after some events. -/
def run (s : σ) (es : List ε) : σ := es.foldl step s

/-- Every step of the run from `s` meets the condition. -/
def Along (P : σ → ε → Prop) : σ → List ε → Prop
  | _, [] => True
  | s, e :: es => P s e ∧ Along P (step s e) es

/-- A condition that can be decided can be decided along a run. -/
def Along.decidable {P : σ → ε → Prop} (h : ∀ s e, Decidable (P s e)) :
    ∀ (s : σ) (es : List ε), Decidable (Along step P s es)
  | _, [] => .isTrue trivial
  | s, e :: es =>
    match h s e, Along.decidable h (step s e) es with
    | .isTrue hfirst, .isTrue hrest => .isTrue ⟨hfirst, hrest⟩
    | .isFalse hfirst, _ => .isFalse fun hall => hfirst hall.1
    | _, .isFalse hrest => .isFalse fun hall => hrest hall.2

instance {P : σ → ε → Prop} [h : ∀ s e, Decidable (P s e)] (s : σ) (es : List ε) :
    Decidable (Along step P s es) := Along.decidable step h s es

variable {step}

@[simp] theorem run_nil (s : σ) : run step s [] = s := rfl

@[simp] theorem run_cons (s : σ) (e : ε) (es : List ε) :
    run step s (e :: es) = run step (step s e) es := rfl

theorem run_append (s : σ) (es es' : List ε) :
    run step s (es ++ es') = run step (run step s es) es' := by
  simp [run]

theorem along_append {P : σ → ε → Prop} {s : σ} {es es' : List ε} :
    Along step P s (es ++ es') ↔ Along step P s es ∧ Along step P (run step s es) es' := by
  induction es generalizing s with
  | nil => simp [Along]
  | cons e es ih => simp [Along, ih, and_assoc]

theorem Along.mono {P Q : σ → ε → Prop} (hPQ : ∀ s e, P s e → Q s e) {s : σ} {es : List ε}
    (h : Along step P s es) : Along step Q s es := by
  induction es generalizing s with
  | nil => trivial
  | cons e es ih => exact ⟨hPQ s e h.1, ih h.2⟩

/-- A condition that every step meets is met along every run. -/
theorem Along.of_forall {P : σ → ε → Prop} (h : ∀ s e, P s e) (s : σ) (es : List ε) :
    Along step P s es := by
  induction es generalizing s with
  | nil => trivial
  | cons e es ih => exact ⟨h s e, ih _⟩

/-- Every event of a run is one of its events. -/
theorem along_mem {s : σ} {es es' : List ε} (h : ∀ e ∈ es, e ∈ es') :
    Along step (fun _ e => e ∈ es') s es := by
  induction es generalizing s with
  | nil => trivial
  | cons e es ih => exact ⟨h e List.mem_cons_self, ih fun e' he' => h e' (List.mem_cons_of_mem e he')⟩

/-- What every step that meets the condition preserves holds after the run. -/
theorem run_invariant {P : σ → ε → Prop} {I : σ → Prop}
    (hstep : ∀ s e, I s → P s e → I (step s e)) {s : σ} {es : List ε} (h0 : I s)
    (h : Along step P s es) : I (run step s es) := by
  induction es generalizing s with
  | nil => exact h0
  | cons e es ih => exact ih (hstep s e h0 h.1) h.2

/-- What every step preserves holds after every run. -/
theorem invariant {I : σ → Prop} (hstep : ∀ s e, I s → I (step s e)) {s : σ} (h0 : I s)
    (es : List ε) : I (run step s es) :=
  run_invariant (P := fun _ _ => True) (fun s e hI _ => hstep s e hI) h0
    (Along.of_forall (fun _ _ => trivial) s es)

/-! ### Steps that may fail -/

variable {α β : Type*}

/-- A computation does not fail, and its result meets a condition. -/
def Yields (o : Option α) (I : α → Prop) : Prop := ∃ x, o = some x ∧ I x

theorem Yields.ofSome {I : α → Prop} {x : α} (h : I x) : Yields (some x) I := ⟨x, rfl, h⟩

theorem Yields.mono {I J : α → Prop} {o : Option α} (h : Yields o I) (hIJ : ∀ x, I x → J x) :
    Yields o J := by
  obtain ⟨x, hx, hI⟩ := h
  exact ⟨x, hx, hIJ x hI⟩

theorem Yields.bind {I : α → Prop} {J : β → Prop} {o : Option α} {f : α → Option β}
    (h : Yields o I) (hf : ∀ x, I x → Yields (f x) J) : Yields (o.bind f) J := by
  obtain ⟨x, rfl, hI⟩ := h
  exact hf x hI

/-- A loop does not fail if no round of it does under an invariant. -/
theorem Yields.foldlM {I : σ → Prop} {f : σ → α → Option σ} {l : List α} {s : σ} (h0 : I s)
    (hf : ∀ s, ∀ x ∈ l, I s → Yields (f s x) I) : Yields (l.foldlM f s) I := by
  induction l generalizing s with
  | nil => exact .ofSome h0
  | cons x l ih =>
    rw [List.foldlM_cons]
    exact (hf s x (by simp) h0).bind fun s' hs' =>
      ih hs' fun s'' y hy => hf s'' y (by simp [hy])

variable (stepM : σ → ε → Option σ)

/-- The state after some events, if no step fails. -/
def runM (s : σ) (es : List ε) : Option σ := es.foldlM stepM s

/-- Every step of the run from `s` meets the condition, up to one that fails. -/
def AlongM (P : σ → ε → Prop) : σ → List ε → Prop
  | _, [] => True
  | s, e :: es => P s e ∧ ∀ s', stepM s e = some s' → AlongM P s' es

variable {stepM}

/-- A condition that can be decided can be decided along a run of steps that may fail. -/
def AlongM.decidable {P : σ → ε → Prop} (h : ∀ s e, Decidable (P s e)) :
    ∀ (s : σ) (es : List ε), Decidable (AlongM stepM P s es)
  | _, [] => .isTrue trivial
  | s, e :: es =>
    have : Decidable (P s e) := h s e
    have : Decidable (∀ s', stepM s e = some s' → AlongM stepM P s' es) :=
      match stepM s e with
      | none => .isTrue fun _ hs' => nomatch hs'
      | some s' =>
        have := AlongM.decidable h s' es
        decidable_of_iff (AlongM stepM P s' es)
          ⟨fun hrest _ hs' => Option.some.inj hs' ▸ hrest, fun hrest => hrest s' rfl⟩
    inferInstanceAs (Decidable (P s e ∧ _))

instance {P : σ → ε → Prop} [h : ∀ s e, Decidable (P s e)] (s : σ) (es : List ε) :
    Decidable (AlongM stepM P s es) := AlongM.decidable h s es

/-- If no step that meets the condition fails, nor a step from a state with the invariant leads out
of it, then no run fails, and the invariant holds after it. -/
theorem runM_invariant {P : σ → ε → Prop} {I : σ → Prop}
    (hstep : ∀ s e, I s → P s e → Yields (stepM s e) I) {s : σ} {es : List ε} (h0 : I s)
    (h : AlongM stepM P s es) : Yields (runM stepM s es) I := by
  induction es generalizing s with
  | nil => exact .ofSome h0
  | cons e es ih =>
    obtain ⟨s', hs', hI⟩ := hstep s e h0 h.1
    rw [runM, List.foldlM_cons, hs']
    exact ih hI (h.2 s' hs')

theorem AlongM.of_forall {P : σ → ε → Prop} (h : ∀ s e, P s e) (s : σ) (es : List ε) :
    AlongM stepM P s es := by
  induction es generalizing s with
  | nil => trivial
  | cons e es ih => exact ⟨h s e, fun s' _ => ih s'⟩

end Tailcat.Transition
