import Mathlib.Data.Sym.Sym2

/-!
# Sealed boxes

A box is sealed with a private key for a public key, and opened the same way from the other end.
`Scheme.Ideal` is the symbolic model of such boxes: either end opens a box, nobody else does, and
what is found in it was sealed in it.  It does not tell which of its ends has sealed a box.

* `Ideal.opens_iff` : who opens a box, and what is found in it.
* `Ideal.sealed_by_peer` : a box that an end opens and has not sealed was sealed by the other end.
-/

namespace SealedBox

/-- Operations that seal and open boxes: with a private key, the public key of the other end and a
nonce. -/
structure Scheme (κ ν μ γ : Type*) where
  /-- The public key of a private key. -/
  pub : κ → κ
  /-- Seal a message in a box. -/
  enclose : κ → κ → ν → μ → Option γ
  /-- Open a box. -/
  disclose : κ → κ → ν → γ → Option μ

namespace Scheme

variable {κ ν μ γ : Type*} (S : Scheme κ ν μ γ)

/-- The two ends of a box, in no order. -/
def ends (secret peer : κ) : Sym2 κ := s(S.pub secret, peer)

/-- Boxes are perfect. -/
structure Ideal : Prop where
  /-- A box depends on its ends only. -/
  enclose_congr : ∀ {secret peer secret' peer' : κ}, S.ends secret peer = S.ends secret' peer' →
    S.enclose secret peer = S.enclose secret' peer'
  disclose_congr : ∀ {secret peer secret' peer' : κ}, S.ends secret peer = S.ends secret' peer' →
    S.disclose secret peer = S.disclose secret' peer'
  /-- A box can be opened. -/
  opens : ∀ {secret peer : κ} {nonce : ν} {message : μ} {box : γ},
    S.enclose secret peer nonce message = some box →
      S.disclose secret peer nonce box = some message
  /-- A box can be opened by its ends only, and holds one message. -/
  only : ∀ {secret peer secret' peer' : κ} {nonce nonce' : ν} {message message' : μ} {box : γ},
    S.enclose secret peer nonce message = some box →
      S.disclose secret' peer' nonce' box = some message' →
        S.ends secret' peer' = S.ends secret peer ∧ nonce' = nonce ∧ message' = message

namespace Ideal

variable {S} {secret peer secret' peer' : κ} {nonce nonce' : ν} {message message' : μ} {box : γ}

/-- **A box is opened exactly by its ends**, with its nonce. -/
theorem opens_iff (hS : S.Ideal) (hbox : S.enclose secret peer nonce message = some box) :
    S.disclose secret' peer' nonce' box = some message' ↔
      S.ends secret' peer' = S.ends secret peer ∧ nonce' = nonce ∧ message' = message := by
  refine ⟨hS.only hbox, ?_⟩
  rintro ⟨hends, rfl, rfl⟩
  rw [hS.disclose_congr hends]
  exact hS.opens hbox

/-- **A box that an end opens and has not sealed was sealed by the other end**, for it. -/
theorem sealed_by_peer (hS : S.Ideal) (hbox : S.enclose secret peer nonce message = some box)
    (hopen : S.disclose secret' peer' nonce' box = some message')
    (hother : S.pub secret ≠ S.pub secret') : S.pub secret = peer' ∧ peer = S.pub secret' := by
  have hends : s(S.pub secret', peer') = s(S.pub secret, peer) := ((hS.opens_iff hbox).1 hopen).1
  rcases Sym2.eq_iff.1 hends with ⟨hsame, -⟩ | ⟨hown, hpeer⟩
  · exact absurd hsame.symm hother
  · exact ⟨hpeer.symm, hown.symm⟩

end Ideal

end Scheme

end SealedBox
