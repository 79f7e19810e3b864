import Tailcat.Noise.TunnRuns

/-!
# Replayed initiations

The timestamp of the last initiation never goes back, and an initiation is answered only with a
later one.

* `Small.handshake_advances` : no call of a tunnel changes its keys or puts the timestamp back.
* `initiation_once` : an initiation that was answered is not answered again.

Whoever has recorded an initiation can send it again at any time, with other MACs if it likes, and
it opens again, since the responder has nothing but its long-term key to open it with.  The
timestamp inside is what stops it.  The invariant over a run is only that the last timestamp does
not go back (`Handshake.Advances`); the rest is a comparison: the initiation holds the timestamp
that was stored when it was answered, and this is not later than itself.

What the run shows is that such a message does nothing that the record shows.  It still costs the
responder a computation of keys, which is why handshakes are limited (`Noise.RateLimiter`).
-/

namespace Tailcat.Noise

namespace Tunn

variable {P : LimiterPrimitives} {now : ℕ} {t t' : Tunn} {call : Call} {r : TunnResult}

theorem Small.handshake_advances (h : Small now t t') : t.handshake.Advances t'.handshake := by
  cases h with
  | frame h => exact h.lasts.advances
  | waits packet => exact .refl _
  | rotates packet rest => exact .refl _
  | resumes packet rest index s => exact .refl _
  | seals index s packet => exact .refl _
  | opens s v counter packet => exact .refl _
  | establishes s => exact .refl _
  | advances => exact .refl _
  | restarts => exact .refl _
  | expires => exact .of_eq rfl rfl

/-- An initiation is recorded only if it opens, and then its timestamp is kept. -/
theorem decapsulate_initiation {srcAddr : Option Net.IpAddr} {datagram : Bytes}
    {packet : HandshakeInit} (hparse : parseIncomingPacket datagram = .ok (.handshakeInit packet))
    (h : t.decapsulate P srcAddr datagram call = some (r, t')) :
    t'.trace = t.trace ∨ ∃ x, t.handshake.openInitiation P.toPrimitives packet = .ok x ∧
      t'.handshake.lastHandshakeTimestamp = x.1 ∧ t'.handshake.params = t.handshake.params := by
  have hne : datagram.isEmpty = false := by
    cases datagram with
    | nil => cases hparse
    | cons b datagram => rfl
  unfold decapsulate at h
  rw [hne] at h
  cases hverify : t.rateLimiter.verifyPacket P srcAddr datagram call.now with
  | mk x rateLimiter =>
    simp only [hverify, Bool.false_eq_true, if_false] at h
    -- what is refused or answered with a cookie is not recorded
    cases x with
    | error refusal =>
      cases refusal with
      | err e =>
        cases h
        exact .inl rfl
      | writeToNetwork cookie =>
        simp only at h
        split at h
        · cases h
        · cases h
          exact .inl rfl
    | ok packet' =>
      have hsame := (RateLimiter.verifyPacket_ok hverify).1
      rw [hparse] at hsame
      cases hsame
      simp only [handleVerifiedPacket, handleHandshakeInit] at h
      cases hreceive : t.handshake.receiveHandshakeInitialization P.toPrimitives packet
          call.ephemeral call.room with
      | none => simp [hreceive] at h
      | some y =>
        obtain ⟨answer, handshake⟩ := y
        simp only [hreceive, Option.bind_eq_bind, Option.bind_some] at h
        obtain ⟨hlasts, hok⟩ := Handshake.receiveHandshakeInitialization_cases hreceive
        cases answer with
        | error e =>
          cases h
          exact .inl rfl
        | ok answer =>
          obtain ⟨reply, s⟩ := answer
          obtain ⟨-, -, -, x, hopen, hlast⟩ := hok reply s rfl
          cases h
          exact .inr ⟨x, hopen, hlast, hlasts.advances.params⟩

/-- **An initiation is answered once**: after any run, if an initiation has established a session,
it has no effect whenever it arrives again, with whatever MACs: no session is established, and nothing
sealed, opened or sent from the waiting packets. -/
theorem initiation_once (P : LimiterPrimitives) (staticPrivate peer nonceKey secretKey : Bytes)
    (psk : Option Bytes) (keepalive : Option ℕ) (index durationAtStart start : ℕ)
    (limiter : Option RateLimiter) (es es' : List Event)
    (hroom : ∀ e ∈ es ++ es', handshakeInitSz ≤ e.call.room) (t t₁ t₂ t₃ : Tunn)
    (h : Transition.runM (step P) (new P staticPrivate peer psk keepalive index limiter nonceKey
      secretKey durationAtStart start) es = some t)
    (packet : HandshakeInit) (datagram datagram' : Bytes)
    (hparse : parseIncomingPacket datagram = .ok (.handshakeInit packet))
    (hparse' : parseIncomingPacket datagram' = .ok (.handshakeInit packet))
    (srcAddr srcAddr' : Option Net.IpAddr) (call call' : Call) (r r' : TunnResult)
    (hcall : handshakeInitSz ≤ call.room)
    (hfirst : t.decapsulate P srcAddr datagram call = some (r, t₁)) (hacts : t₁.trace ≠ t.trace)
    (h' : Transition.runM (step P) t₁ es' = some t₂)
    (hagain : t₂.decapsulate P srcAddr' datagram' call' = some (r', t₃)) : t₃.trace = t₂.trace := by
  have ht : t.Sound := (run_path_invariant (I := fun _ => True) (fun _ _ hI => hI)
    (fun e he => hroom e (List.mem_append_left _ he)) (new_sound ..) trivial h).1
  have ht₁ : t₁.Sound := (decapsulate_path ht hcall hfirst).sound ht
  have hadvances : t₁.handshake.Advances t₂.handshake :=
    (run_path_invariant (I := fun u => t₁.handshake.Advances u.handshake)
      (fun hsmall _ hI => hI.trans hsmall.handshake_advances)
      (fun e he => hroom e (List.mem_append_right _ he)) ht₁ (.refl _) h').2
  rcases decapsulate_initiation hparse hfirst with hsame | ⟨x, hopen, hlast, hparams⟩
  · exact absurd hsame hacts
  · rcases decapsulate_initiation hparse' hagain with hsame | ⟨x', hopen', -, -⟩
    · exact hsame
    · -- the timestamp would have to be later than itself
      have hunique : x' = x := Handshake.openInitiation_unique
        (hadvances.params.trans hparams) hopen hopen'
      have hafter := Handshake.openInitiation_after hopen'
      have hnot := hadvances.timestamp
      rw [hlast] at hnot
      rw [hunique, hnot] at hafter
      cases hafter

/-- The peer of `sampleTunnel`. -/
def samplePeer : Tunn :=
  new sampleLimiter [2] (samplePrimitives.publicKey [1]) none none 2 none [8] [9]
    1700000000000000000 1000000000

/-- The initiation of `sampleTunnel`. -/
def sampleInitiation : Bytes :=
  match (sampleTunnel.formatHandshakeInitiation sampleLimiter sampleCall false).1 with
  | .writeToNetwork message => message
  | _ => []

/-- The packet in the initiation. -/
def sampleInit : HandshakeInit :=
  match parseIncomingPacket sampleInitiation with
  | .ok (.handshakeInit init) => init
  | _ => ⟨0, [], [], []⟩

theorem answered_isSome :
    (samplePeer.decapsulate sampleLimiter none sampleInitiation sampleCall).isSome = true := by
  decide +kernel

theorem again_isSome : (((samplePeer.decapsulate sampleLimiter none sampleInitiation sampleCall).get
    answered_isSome).2.decapsulate sampleLimiter none sampleInitiation sampleCall).isSome =
      true := by
  decide +kernel

theorem some_get_pair {α β : Type*} {o : Option (α × β)} (h : o.isSome = true) :
    o = some ((o.get h).1, (o.get h).2) := (Option.some_get h).symm

theorem answered_sample : ∃ r r' t₁ t₃,
    samplePeer.decapsulate sampleLimiter none sampleInitiation sampleCall = some (r, t₁) ∧
      t₁.trace ≠ samplePeer.trace ∧
      t₁.decapsulate sampleLimiter none sampleInitiation sampleCall = some (r', t₃) :=
  ⟨_, _, _, _, some_get_pair answered_isSome, by decide +kernel, some_get_pair again_isSome⟩

theorem initiation_once_sample : ∃ r r' t₁ t₃,
    samplePeer.decapsulate sampleLimiter none sampleInitiation sampleCall = some (r, t₁) ∧
      t₁.trace ≠ samplePeer.trace ∧
      t₁.decapsulate sampleLimiter none sampleInitiation sampleCall = some (r', t₃) ∧
      t₃.trace = t₁.trace := by
  obtain ⟨r, r', t₁, t₃, hfirst, hacts, hagain⟩ := answered_sample
  have hparse : parseIncomingPacket sampleInitiation = .ok (.handshakeInit sampleInit) := by
    decide +kernel
  exact ⟨r, r', t₁, t₃, hfirst, hacts, hagain,
    initiation_once sampleLimiter [2] (samplePrimitives.publicKey [1]) [8] [9] none none 2
      1700000000000000000 1000000000 none [] [] (fun _ he => by cases he) samplePeer t₁ t₁ t₃ rfl
      sampleInit sampleInitiation sampleInitiation hparse hparse none none sampleCall sampleCall r
      r' (by decide) hfirst hacts rfl hagain⟩

end Tunn

end Tailcat.Noise
