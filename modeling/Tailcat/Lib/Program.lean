import Mathlib.Tactic.SplitIfs

/-!
# Programs with state and errors

A program of type `EStateM ε σ α` changes a state and ends with an answer or an error; the
changes made before an error stay.  Three kinds of rules, each with one lemma per way of building
a program:

* `Ends` : what holds of the answer and of the state in which a program ends (pre- and
  postconditions of one run); `Yields` : what holds of the answer of any run.
* `Frame.Keeps` : whatever happens, the states before and after a program are related (a
  preorder).
* `Agree` : two programs from related states end alike, in related states, with related answers
  (two runs).
-/

namespace Program

variable {ε σ τ α β γ δ : Type}

/-- Stop with an error unless a condition holds. -/
def require (c : Prop) [Decidable c] (e : ε) : EStateM ε σ Unit :=
  if c then pure () else throw e

theorem bind_ok {m : EStateM ε σ α} {s s' : σ} {a : α} (h : m s = .ok a s')
    (f : α → EStateM ε σ β) : (m >>= f) s = f a s' := by
  change EStateM.bind m f s = f a s'
  rw [EStateM.bind, h]

theorem bind_error {m : EStateM ε σ α} {s s' : σ} {e : ε} (h : m s = .error e s')
    (f : α → EStateM ε σ β) : (m >>= f) s = .error e s' := by
  change EStateM.bind m f s = .error e s'
  rw [EStateM.bind, h]

theorem except_ok_bind (a : α) (f : α → Except ε β) : (Except.ok a >>= f) = f a := rfl

/-- A computation without state gives a value in two steps that do. -/
theorem except_bind_eq_ok {x : Except ε α} {f : α → Except ε β} {b : β} :
    (x >>= f) = .ok b ↔ ∃ a, x = .ok a ∧ f a = .ok b := by
  cases x with
  | error e =>
    refine iff_of_false (fun h => by cases h) ?_
    rintro ⟨a, ha, -⟩
    cases ha
  | ok a =>
    constructor
    · intro h
      exact ⟨a, rfl, h⟩
    · rintro ⟨a', ha', h⟩
      cases ha'
      exact h

/-- The outcome of a run that ends with an answer or an error in a state. -/
def result (r : Except ε α) (s : σ) : EStateM.Result ε σ α :=
  match r with
  | .ok a => .ok a s
  | .error e => .error e s

/-! ### One run -/

/-- The run ended with an answer and a state related by `P`, or in a state with `E`. -/
def Ends (P : α → σ → Prop) (E : ε → σ → Prop) : EStateM.Result ε σ α → Prop
  | .ok a s => P a s
  | .error e s => E e s

section Ends

variable {P P' : α → σ → Prop} {Q : β → σ → Prop} {E E' : ε → σ → Prop}

theorem Ends.mono {r : EStateM.Result ε σ α} (h : Ends P E r) (hP : ∀ a s, P a s → P' a s)
    (hE : ∀ e s, E e s → E' e s) : Ends P' E' r := by
  cases r with
  | ok a s => exact hP a s h
  | error e s => exact hE e s h

theorem Ends.trivial (r : EStateM.Result ε σ α) : Ends (fun _ _ => True) (fun _ _ => True) r := by
  cases r with
  | ok a s => exact True.intro
  | error e s => exact True.intro

theorem Ends.bind {m : EStateM ε σ α} {f : α → EStateM ε σ β} {s : σ} (hm : Ends P E (m s))
    (hf : ∀ a s', P a s' → Ends Q E (f a s')) : Ends Q E ((m >>= f) s) := by
  change Ends Q E (EStateM.bind m f s)
  unfold EStateM.bind
  cases h : m s with
  | ok a s' =>
    rw [h] at hm
    exact hf a s' hm
  | error e s' =>
    rw [h] at hm
    exact hm

theorem Ends.pure {a : α} {s : σ} (h : P a s) :
    Ends P E ((Pure.pure a : EStateM ε σ α) s) := h

theorem Ends.require {c : Prop} [Decidable c] {e : ε} {s : σ} {P : Unit → σ → Prop}
    (h : c → P () s) (hE : ¬c → E e s) : Ends P E ((require c e : EStateM ε σ Unit) s) := by
  unfold Program.require
  split_ifs with hc
  · exact h hc
  · exact hE hc

/-- Every answer of a program satisfies `P`. -/
def Yields (P : α → Prop) (m : EStateM ε σ α) : Prop :=
  ∀ s, Ends (fun a _ => P a) (fun _ _ => True) (m s)

theorem Yields.bind {P : β → Prop} {m : EStateM ε σ α} {f : α → EStateM ε σ β}
    (hf : ∀ a, Yields P (f a)) : Yields P (m >>= f) :=
  fun _ => Ends.bind (Ends.trivial _) fun a s' _ => hf a s'

theorem Yields.pure {P : α → Prop} {a : α} (h : P a) :
    Yields P (Pure.pure a : EStateM ε σ α) := fun _ => h

theorem Yields.throw {P : α → Prop} {e : ε} :
    Yields P (MonadExcept.throw e : EStateM ε σ α) := fun _ => True.intro

/-- Behind a condition, the condition holds. -/
theorem Yields.require_bind {P : β → Prop} {c : Prop} [Decidable c] {e : ε}
    {f : Unit → EStateM ε σ β} (hf : c → Yields P (f ())) :
    Yields P ((Program.require c e : EStateM ε σ Unit) >>= f) :=
  fun _ => Ends.bind (P := fun _ _ => c) (Ends.require id fun _ => True.intro)
    fun _ s' hc => hf hc s'

end Ends

/-! ### What never changes -/

/-- The state in which a run ended. -/
def after : EStateM.Result ε σ α → σ
  | .ok _ s => s
  | .error _ s => s

theorem Ends.after {P : σ → Prop} {r : EStateM.Result ε σ α}
    (h : Ends (fun _ s => P s) (fun _ s => P s) r) : P (Program.after r) := by
  cases r with
  | ok a s => exact h
  | error e s => exact h

/-- A relation between the states before and after. -/
structure Frame (σ : Type) where
  /-- The first state may become the second. -/
  rel : σ → σ → Prop
  refl : ∀ s, rel s s
  trans : ∀ {s t u}, rel s t → rel t u → rel s u

namespace Frame

variable (F : Frame σ)

/-- Every run of a program stays within the frame. -/
def Keeps (m : EStateM ε σ α) : Prop := ∀ s, F.rel s (after (m s))

variable {F}

theorem Keeps.bind {m : EStateM ε σ α} {f : α → EStateM ε σ β} (hm : F.Keeps m)
    (hf : ∀ a, F.Keeps (f a)) : F.Keeps (m >>= f) := by
  intro s
  have hs := hm s
  change F.rel s (after (EStateM.bind m f s))
  unfold EStateM.bind
  cases h : m s with
  | ok a s' =>
    rw [h] at hs
    exact F.trans hs (hf a s')
  | error e s' =>
    rw [h] at hs
    exact hs

theorem Keeps.pure (a : α) : F.Keeps (Pure.pure a : EStateM ε σ α) := F.refl

theorem Keeps.throw (e : ε) : F.Keeps (MonadExcept.throw e : EStateM ε σ α) := F.refl

theorem Keeps.require {c : Prop} [Decidable c] {e : ε} :
    F.Keeps (require c e : EStateM ε σ Unit) := by
  unfold Program.require
  split_ifs
  · exact Keeps.pure _
  · exact Keeps.throw _

theorem Keeps.get : F.Keeps (MonadState.get : EStateM ε σ σ) := F.refl

theorem Keeps.modify {f : σ → σ} (h : ∀ s, F.rel s (f s)) :
    F.Keeps (modify f : EStateM ε σ PUnit) := h

theorem Keeps.modifyGet {f : σ → α × σ} (h : ∀ s, F.rel s (f s).2) :
    F.Keeps (modifyGet f : EStateM ε σ α) := h

theorem Keeps.mapM {f : α → EStateM ε σ β} (h : ∀ a, F.Keeps (f a)) (as : List α) :
    F.Keeps (as.mapM f) := by
  induction as with
  | nil => exact Keeps.pure _
  | cons a as ih =>
    rw [List.mapM_cons]
    exact (h a).bind fun b => ih.bind fun bs => Keeps.pure _

end Frame

/-! ### Two runs -/

/-- Both runs ended with answers and states related by `A`, or both with the same error and states
related by `E`. -/
def Agree (A : α → β → σ → τ → Prop) (E : σ → τ → Prop) :
    EStateM.Result ε σ α → EStateM.Result ε τ β → Prop
  | .ok a s, .ok b t => A a b s t
  | .error e s, .error f t => e = f ∧ E s t
  | _, _ => False

section Agree

variable {A A' : α → β → σ → τ → Prop} {B : γ → δ → σ → τ → Prop} {E E' : σ → τ → Prop}

theorem Agree.mono {r : EStateM.Result ε σ α} {q : EStateM.Result ε τ β} (h : Agree A E r q)
    (hA : ∀ a b s t, A a b s t → A' a b s t) (hE : ∀ s t, E s t → E' s t) : Agree A' E' r q := by
  cases r with
  | ok a s =>
    cases q with
    | ok b t => exact hA a b s t h
    | error f t => exact h.elim
  | error e s =>
    cases q with
    | ok b t => exact h.elim
    | error f t => exact ⟨h.1, hE s t h.2⟩

theorem Agree.bind {m : EStateM ε σ α} {n : EStateM ε τ β} {f : α → EStateM ε σ γ}
    {g : β → EStateM ε τ δ} {s : σ} {t : τ} (hm : Agree A E (m s) (n t))
    (hf : ∀ a b s t, A a b s t → Agree B E (f a s) (g b t)) :
    Agree B E ((m >>= f) s) ((n >>= g) t) := by
  change Agree B E (EStateM.bind m f s) (EStateM.bind n g t)
  unfold EStateM.bind
  cases h : m s with
  | ok a s' =>
    cases h' : n t with
    | ok b t' =>
      rw [h, h'] at hm
      exact hf a b s' t' hm
    | error e' t' =>
      rw [h, h'] at hm
      exact hm.elim
  | error e s' =>
    cases h' : n t with
    | ok b t' =>
      rw [h, h'] at hm
      exact hm.elim
    | error e' t' =>
      rw [h, h'] at hm
      exact hm

theorem Agree.throw {e : ε} {s : σ} {t : τ} (h : E s t) :
    Agree A E ((MonadExcept.throw e : EStateM ε σ α) s)
      ((MonadExcept.throw e : EStateM ε τ β) t) := ⟨rfl, h⟩

/-- Two runs that can only end alike. -/
theorem Agree.of_ends {P : α → σ → Prop} {F : ε → σ → Prop} {Q : β → τ → Prop}
    {G : ε → τ → Prop} {r : EStateM.Result ε σ α} {q : EStateM.Result ε τ β} (hr : Ends P F r)
    (hq : Ends Q G q) (hok : ∀ a b s t, P a s → Q b t → A a b s t)
    (herror : ∀ e f s t, F e s → G f t → e = f ∧ E s t)
    (hleft : ∀ a s f t, P a s → G f t → False)
    (hright : ∀ e s b t, F e s → Q b t → False) : Agree A E r q := by
  cases r with
  | ok a s =>
    cases q with
    | ok b t => exact hok a b s t hr hq
    | error f t => exact hleft a s f t hr hq
  | error e s =>
    cases q with
    | ok b t => exact hright e s b t hr hq
    | error f t => exact herror e f s t hr hq

/-- Behind the same condition. -/
theorem Agree.require_bind {c : Prop} [Decidable c] {e : ε} {f : Unit → EStateM ε σ α}
    {g : Unit → EStateM ε τ β} {s : σ} {t : τ} (hE : E s t)
    (h : c → Agree A E (f () s) (g () t)) :
    Agree A E (((require c e : EStateM ε σ Unit) >>= f) s)
      (((require c e : EStateM ε τ Unit) >>= g) t) := by
  unfold Program.require
  split_ifs with hc
  · exact h hc
  · exact Agree.throw hE

end Agree

end Program
