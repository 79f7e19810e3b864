import Mathlib.Data.List.Nodup
import Tailcat.Noise.Agreement
import Tailcat.Noise.TunnSteps

/-!
# Whole runs of a tunnel

What holds after any calls of one end, across all its handshakes.

* `Effect` : what a small change does to the sessions, with what it adds to the record.
* `nonces_once` : no key seals twice under a counter, and none opens twice under one.
* `waiting_conserved` : a packet that waits for a session is sealed, still waits, or was given up.
* `sessions_young` : no session is older than three minutes at the last timer call.

Each of them is an invariant of the small changes of `Noise.TunnSteps`, carried along a run by
`run_path_invariant`, so no call of a tunnel is opened again here.  The statements are about the
record: which session has sealed, opened or dropped what, and when a session was established.  An
age is counted from that entry (`Session.origin`), and `Timed` says how the clock of the timers,
which starts again with them, goes with the time of the calls.

The calls are given buffers that hold an initiation.  Without one a packet that waits can be lost,
and nothing is said of such runs.
-/

namespace Tailcat.Noise

/-! ### The record -/

/-- The session that is established. -/
def Act.session : Act → Option Session
  | .establishes s _ => some s
  | _ => none

/-- The key and the counter that a packet is sealed with. -/
def Act.sealNonce : Act → Option (Bytes × ℕ)
  | .seals key counter _ => some (key, counter)
  | _ => none

/-- The key and the counter that a packet is opened with. -/
def Act.openNonce : Act → Option (Bytes × ℕ)
  | .opens key counter _ => some (key, counter)
  | _ => none

/-- The packet that is put to the waiting ones. -/
def Act.waiting : Act → List Bytes
  | .waits packet => [packet]
  | _ => []

/-- The packets that wait no longer. -/
def Act.leaving : Act → List Bytes
  | .leaves packet => [packet]
  | .drops packets => packets
  | _ => []

/-- The sessions that were established. -/
def establishedIn (trace : List Act) : List Session := trace.filterMap Act.session

/-- The keys and counters that packets were sealed with. -/
def sealedIn (trace : List Act) : List (Bytes × ℕ) := trace.filterMap Act.sealNonce

/-- The keys and counters that packets were opened with. -/
def openedIn (trace : List Act) : List (Bytes × ℕ) := trace.filterMap Act.openNonce

/-- The counters that packets were opened with under a key, the latest first. -/
def countersOf (key : Bytes) (nonces : List (Bytes × ℕ)) : List ℕ :=
  ((nonces.filter fun n => n.1 = key).map Prod.snd).reverse

theorem mem_countersOf {key : Bytes} {nonces : List (Bytes × ℕ)} {c : ℕ} :
    c ∈ countersOf key nonces ↔ (key, c) ∈ nonces := by
  simp [countersOf]

theorem countersOf_concat (key : Bytes) (nonces : List (Bytes × ℕ)) (n : Bytes × ℕ) :
    countersOf key (nonces ++ [n]) =
      if n.1 = key then n.2 :: countersOf key nonces else countersOf key nonces := by
  unfold countersOf
  split
  · next heq => simp [heq]
  · next hne => simp [hne]

/-- The keys of the sessions are fresh, and the counters do not wrap. -/
structure Apart (trace : List Act) : Prop where
  senders : ((establishedIn trace).map Session.sender).Nodup
  receivers : ((establishedIn trace).map Session.receiver).Nodup
  short : (sealedIn trace).length < u64
  bounded : ∀ n ∈ openedIn trace, n.2 + nBits < u64

theorem Apart.of_prefix {trace trace' : List Act} (h : Apart trace') (hpre : trace <+: trace') :
    Apart trace where
  senders := h.senders.sublist ((hpre.filterMap _).map _).sublist
  receivers := h.receivers.sublist ((hpre.filterMap _).map _).sublist
  short := lt_of_le_of_lt (hpre.filterMap _).length_le h.short
  bounded n hn := h.bounded n ((hpre.filterMap _).subset hn)

namespace Tunn

variable {P : LimiterPrimitives} {now : ℕ} {t t' : Tunn}

/-- What a small change does to the sessions and to the record of them. -/
inductive Effect (t t' : Tunn) : Prop
  /-- Sessions stay as they are, or end. -/
  | keeps : (∀ i s, t'.sessions i = some s → t.sessions i = some s) →
      establishedIn t'.trace = establishedIn t.trace → sealedIn t'.trace = sealedIn t.trace →
      openedIn t'.trace = openedIn t.trace → Effect t t'
  | seals (i : Fin nSessions) (s : Session) : t.sessions i = some s →
      t'.sessions = Function.update t.sessions i
        (some { s with sendingKeyCounter := (s.sendingKeyCounter + 1) % u64 }) →
      establishedIn t'.trace = establishedIn t.trace →
      sealedIn t'.trace = sealedIn t.trace ++ [(s.sender, s.sendingKeyCounter)] →
      openedIn t'.trace = openedIn t.trace → Effect t t'
  | opens (i : Fin nSessions) (s : Session) (v : ReceivingKeyCounterValidator) (counter : ℕ) :
      t.sessions i = some s →
      s.receivingKeyCounter.receivingCounterMark counter = some (.ok (), v) →
      t'.sessions = Function.update t.sessions i (some { s with receivingKeyCounter := v }) →
      establishedIn t'.trace = establishedIn t.trace → sealedIn t'.trace = sealedIn t.trace →
      openedIn t'.trace = openedIn t.trace ++ [(s.receiver, counter)] → Effect t t'
  | establishes (i : Fin nSessions) (s : Session) :
      s.sendingKeyCounter = 0 → s.receivingKeyCounter = {} →
      t'.sessions = Function.update t.sessions i (some s) →
      establishedIn t'.trace = establishedIn t.trace ++ [s] →
      sealedIn t'.trace = sealedIn t.trace → openedIn t'.trace = openedIn t.trace → Effect t t'

@[simp] theorem trace_act (t : Tunn) (a : Act) : (t.act a).trace = t.trace ++ [a] := rfl

@[simp] theorem sessions_act (t : Tunn) (a : Act) : (t.act a).sessions = t.sessions := rfl

theorem Small.effect (h : Small now t t') : Effect t t' := by
  cases h with
  | frame h =>
    exact .keeps (fun i s hs => h.sessions ▸ hs) (by rw [h.trace]) (by rw [h.trace])
      (by rw [h.trace])
  | waits packet hroom =>
    exact .keeps (fun _ _ hs => hs) (by simp [establishedIn, withQueue, Act.session])
      (by simp [sealedIn, withQueue, Act.sealNonce]) (by simp [openedIn, withQueue, Act.openNonce])
  | rotates packet rest hqueue =>
    exact .keeps (fun _ _ hs => hs) (by simp [establishedIn, withQueue, dequeued, Act.session])
      (by simp [sealedIn, withQueue, dequeued, Act.sealNonce])
      (by simp [openedIn, withQueue, dequeued, Act.openNonce])
  | resumes packet rest index s hqueue hs =>
    exact .seals (slot index) s hs rfl
      (by simp [establishedIn, sealing, setSession, dequeued, Act.session])
      (by simp [-List.append_assoc, sealedIn, sealing, setSession, dequeued, Act.sealNonce])
      (by simp [openedIn, sealing, setSession, dequeued, Act.openNonce])
  | seals index s packet hs =>
    exact .seals (slot index) s hs rfl (by simp [establishedIn, sealing, setSession, Act.session])
      (by simp [sealedIn, sealing, setSession, Act.sealNonce])
      (by simp [openedIn, sealing, setSession, Act.openNonce])
  | opens s v counter packet hs hmark =>
    exact .opens (slot s.receivingIndex) s v counter hs hmark rfl
      (by simp [establishedIn, opening, setSession, Act.session])
      (by simp [sealedIn, opening, setSession, Act.sealNonce])
      (by simp [openedIn, opening, setSession, Act.openNonce])
  | establishes s hexpired hcounter hvalidator =>
    exact .establishes (slot s.receivingIndex) s hcounter hvalidator rfl
      (by simp [establishedIn, establishing, setSession, Act.session])
      (by simp [sealedIn, establishing, setSession, Act.sealNonce])
      (by simp [openedIn, establishing, setSession, Act.openNonce])
  | advances =>
    refine .keeps (fun i s hs => ?_) rfl rfl rfl
    simp only [updateSessionTimers] at hs
    split at hs
    · cases hs
    · exact hs
  | restarts hnone => exact .keeps (fun _ _ hs => hs) rfl rfl rfl
  | expires =>
    exact .keeps (fun _ _ hs => by cases hs) (by simp [establishedIn, clearAll, Act.session])
      (by simp [sealedIn, clearAll, Act.sealNonce]) (by simp [openedIn, clearAll, Act.openNonce])

/-- A packet that leaves the waiting ones is sealed at once, or waits again. -/
def Answered (acts : List Act) : Prop :=
  ∀ i packet, acts[i]? = some (.leaves packet) →
    acts[i + 1]? = some (.waits packet) ∨
      ∃ key counter, acts[i + 1]? = some (.seals key counter packet)

theorem Answered.append {acts acts' : List Act} (h : Answered acts) (h' : Answered acts') :
    Answered (acts ++ acts') := by
  intro i packet hi
  by_cases hlt : i < acts.length
  · rw [List.getElem?_append_left hlt] at hi
    have hnext : ∀ a, acts[i + 1]? = some a → (acts ++ acts')[i + 1]? = some a := fun a ha => by
      rw [List.getElem?_append_left (List.getElem?_eq_some_iff.1 ha).1, ha]
    rcases h i packet hi with ha | ⟨key, counter, ha⟩
    · exact .inl (hnext _ ha)
    · exact .inr ⟨key, counter, hnext _ ha⟩
  · have hle := Nat.le_of_not_lt hlt
    have hsucc : i + 1 - acts.length = i - acts.length + 1 := Nat.succ_sub hle
    rw [List.getElem?_append_right hle] at hi
    rw [List.getElem?_append_right (hle.trans (Nat.le_succ i)), hsucc]
    exact h' _ packet hi

theorem answered_nil : Answered [] := fun i packet hi => by cases hi

theorem answered_singleton {a : Act} (ha : ∀ packet, a ≠ .leaves packet) : Answered [a] := by
  intro i packet hi
  cases i with
  | zero => exact absurd (Option.some.inj hi) (ha packet)
  | succ i => cases hi

theorem answered_pair {packet : Bytes} {a : Act}
    (ha : a = .waits packet ∨ ∃ key counter, a = .seals key counter packet) :
    Answered [.leaves packet, a] := by
  intro i packet' hi
  rcases i with _ | _ | i
  · cases hi
    rcases ha with rfl | ⟨key, counter, rfl⟩
    · exact .inl rfl
    · exact .inr ⟨key, counter, rfl⟩
  · rcases ha with rfl | ⟨key, counter, rfl⟩
    · cases hi
    · cases hi
  · cases hi

/-- The record only grows. -/
theorem Small.trace (h : Small now t t') : ∃ acts, t'.trace = t.trace ++ acts ∧ Answered acts := by
  cases h with
  | frame h => exact ⟨[], by rw [h.trace, List.append_nil], answered_nil⟩
  | waits packet => exact ⟨_, rfl, answered_singleton (by simp)⟩
  | rotates packet rest =>
    exact ⟨[.leaves packet, .waits packet], by simp [withQueue, dequeued],
      answered_pair (.inl rfl)⟩
  | resumes packet rest index s =>
    exact ⟨[.leaves packet, .seals s.sender s.sendingKeyCounter packet],
      by simp [sealing, setSession, dequeued], answered_pair (.inr ⟨_, _, rfl⟩)⟩
  | seals index s packet => exact ⟨_, rfl, answered_singleton (by simp)⟩
  | opens s v counter packet => exact ⟨_, rfl, answered_singleton (by simp)⟩
  | establishes s => exact ⟨_, rfl, answered_singleton (by simp)⟩
  | advances => exact ⟨[], (List.append_nil _).symm, answered_nil⟩
  | restarts => exact ⟨[], (List.append_nil _).symm, answered_nil⟩
  | expires => exact ⟨_, rfl, answered_singleton (by simp)⟩

/-! ### Nonces -/

/-- Each slot has a key of its own, and keys that were used belong to sessions that were
established. -/
structure Keyed (key : Session → Bytes) (used : List (Bytes × ℕ)) (t : Tunn) : Prop where
  keys : ∀ {i s}, t.sessions i = some s → key s ∈ (establishedIn t.trace).map key
  distinct : ∀ {i j s s'}, t.sessions i = some s → t.sessions j = some s' → key s = key s' → i = j
  known : ∀ n ∈ used, n.1 ∈ (establishedIn t.trace).map key

/-- After a session is replaced. -/
theorem sessions_cases {i j : Fin nSessions} {s r : Session}
    (hsessions : t'.sessions = Function.update t.sessions i (some s))
    (hr : t'.sessions j = some r) : (j = i ∧ r = s) ∨ (j ≠ i ∧ t.sessions j = some r) := by
  rw [hsessions] at hr
  by_cases hj : j = i
  · subst hj
    rw [Function.update_self] at hr
    exact .inl ⟨rfl, (Option.some.inj hr).symm⟩
  · rw [Function.update_of_ne hj] at hr
    exact .inr ⟨hj, hr⟩

section Keyed

variable {key : Session → Bytes} {used : List (Bytes × ℕ)}

/-- The keys in the slots stay as they are, or go. -/
theorem Keyed.of_carried (h : Keyed key used t)
    (hcarried : ∀ {j r}, t'.sessions j = some r → ∃ s, t.sessions j = some s ∧ key s = key r)
    (hestablished : establishedIn t'.trace = establishedIn t.trace) : Keyed key used t' where
  keys hs := by
    obtain ⟨s, hs, hkey⟩ := hcarried hs
    rw [hestablished, ← hkey]
    exact h.keys hs
  distinct hr hr' heq := by
    obtain ⟨s, hs, hkey⟩ := hcarried hr
    obtain ⟨s', hs', hkey'⟩ := hcarried hr'
    exact h.distinct hs hs' (hkey.trans (heq.trans hkey'.symm))
  known n hn := hestablished ▸ h.known n hn

theorem Keyed.of_keeps (h : Keyed key used t)
    (hsub : ∀ i s, t'.sessions i = some s → t.sessions i = some s)
    (hestablished : establishedIn t'.trace = establishedIn t.trace) : Keyed key used t' :=
  h.of_carried (fun hr => ⟨_, hsub _ _ hr, rfl⟩) hestablished

theorem Keyed.of_update {i : Fin nSessions} {s s' : Session} (h : Keyed key used t)
    (hs : t.sessions i = some s)
    (hsessions : t'.sessions = Function.update t.sessions i (some s')) (hkey : key s = key s')
    (hestablished : establishedIn t'.trace = establishedIn t.trace) : Keyed key used t' := by
  refine h.of_carried (fun hr => ?_) hestablished
  rcases sessions_cases hsessions hr with ⟨rfl, rfl⟩ | ⟨-, hr⟩
  · exact ⟨s, hs, hkey⟩
  · exact ⟨_, hr, rfl⟩

/-- A key is used. -/
theorem Keyed.uses {i : Fin nSessions} {s : Session} (h : Keyed key used t)
    (hs : t.sessions i = some s) (c : ℕ) : Keyed key (used ++ [(key s, c)]) t where
  keys := h.keys
  distinct := h.distinct
  known n hn := by
    rcases List.mem_append.1 hn with hn | hn
    · exact h.known n hn
    · rw [List.mem_singleton.1 hn]
      exact h.keys hs

/-- A session with a fresh key is established. -/
theorem Keyed.of_establishes {i : Fin nSessions} {s : Session} (h : Keyed key used t)
    (hfresh : key s ∉ (establishedIn t.trace).map key)
    (hsessions : t'.sessions = Function.update t.sessions i (some s))
    (hestablished : establishedIn t'.trace = establishedIn t.trace ++ [s]) :
    Keyed key used t' where
  keys hr := by
    rw [hestablished, List.map_append, List.mem_append]
    rcases sessions_cases hsessions hr with ⟨-, rfl⟩ | ⟨-, hr⟩
    · exact .inr (by simp)
    · exact .inl (h.keys hr)
  distinct hr hr' heq := by
    rcases sessions_cases hsessions hr with ⟨rfl, rfl⟩ | ⟨-, hr⟩
    · rcases sessions_cases hsessions hr' with ⟨rfl, -⟩ | ⟨-, hr'⟩
      · rfl
      · exact absurd (heq ▸ h.keys hr') hfresh
    · rcases sessions_cases hsessions hr' with ⟨-, rfl⟩ | ⟨-, hr'⟩
      · exact absurd (heq ▸ h.keys hr) hfresh
      · exact h.distinct hr hr' heq
  known n hn := by
    rw [hestablished, List.map_append]
    exact List.mem_append_left _ (h.known n hn)

end Keyed

/-- Every nonce was used once, and the counters of the sessions in the ring account for them. -/
structure Numbered (t : Tunn) : Prop where
  senders : Keyed Session.sender (sealedIn t.trace) t
  receivers : Keyed Session.receiver (openedIn t.trace) t
  below : ∀ {i s c}, t.sessions i = some s → (s.sender, c) ∈ sealedIn t.trace →
    c < s.sendingKeyCounter
  counter : ∀ {i s}, t.sessions i = some s → s.sendingKeyCounter ≤ (sealedIn t.trace).length
  window : ∀ {i s}, t.sessions i = some s →
    s.receivingKeyCounter.Refines (countersOf s.receiver (openedIn t.trace))
  sealedOnce : (sealedIn t.trace).Nodup
  openedOnce : (openedIn t.trace).Nodup

theorem nodup_concat {α : Type*} {l : List α} {a : α} (hl : l.Nodup) (ha : a ∉ l) :
    (l ++ [a]).Nodup :=
  List.nodup_append.2 ⟨hl, List.nodup_singleton a, fun _ hx _ hy heq =>
    ha (List.mem_singleton.1 hy ▸ heq ▸ hx)⟩

/-- A packet is sealed under a counter that the key was not used with. -/
theorem Numbered.seals {i : Fin nSessions} {s : Session} (h : t.Numbered)
    (hapart : Apart t'.trace) (hs : t.sessions i = some s)
    (hsessions : t'.sessions = Function.update t.sessions i
      (some { s with sendingKeyCounter := (s.sendingKeyCounter + 1) % u64 }))
    (hestablished : establishedIn t'.trace = establishedIn t.trace)
    (hsealed : sealedIn t'.trace = sealedIn t.trace ++ [(s.sender, s.sendingKeyCounter)])
    (hopened : openedIn t'.trace = openedIn t.trace) : t'.Numbered := by
  -- a session has sealed as many packets as its counter says, so the counter does not wrap
  have hcounter := h.counter hs
  have hshort := hapart.short
  rw [hsealed, List.length_append, List.length_singleton] at hshort
  have hnext : (s.sendingKeyCounter + 1) % u64 = s.sendingKeyCounter + 1 :=
    Nat.mod_eq_of_lt (by omega)
  rw [hnext] at hsessions
  refine ⟨?_, ?_, fun {j r c} hr hc => ?_, fun {j r} hr => ?_, fun {j r} hr => ?_, ?_, ?_⟩
  · rw [hsealed]
    exact (h.senders.uses hs _).of_update hs hsessions rfl hestablished
  · rw [hopened]
    exact h.receivers.of_update hs hsessions rfl hestablished
  · -- the other slots have other keys
    rw [hsealed, List.mem_append, List.mem_singleton] at hc
    rcases sessions_cases hsessions hr with ⟨rfl, rfl⟩ | ⟨hj, hr⟩
    · rcases hc with hc | hc
      · exact (h.below hs hc).trans (Nat.lt_succ_self _)
      · cases hc
        exact Nat.lt_succ_self _
    · rcases hc with hc | hc
      · exact h.below hr hc
      · exact absurd (h.senders.distinct hr hs (congrArg Prod.fst hc)) hj
  · rw [hsealed, List.length_append, List.length_singleton]
    rcases sessions_cases hsessions hr with ⟨-, rfl⟩ | ⟨-, hr⟩
    · exact Nat.succ_le_succ hcounter
    · exact (h.counter hr).trans (Nat.le_succ _)
  · rw [hopened]
    rcases sessions_cases hsessions hr with ⟨-, rfl⟩ | ⟨-, hr⟩
    · exact h.window (s := s) hs
    · exact h.window hr
  · rw [hsealed]
    exact nodup_concat h.sealedOnce fun hmem => absurd (h.below hs hmem) (Nat.lt_irrefl _)
  · rw [hopened]
    exact h.openedOnce

/-- A packet is opened under a counter that the key was not used with. -/
theorem Numbered.opens {i : Fin nSessions} {s : Session} {v : ReceivingKeyCounterValidator}
    {counter : ℕ} (h : t.Numbered) (hapart : Apart t'.trace) (hs : t.sessions i = some s)
    (hmark : s.receivingKeyCounter.receivingCounterMark counter = some (.ok (), v))
    (hsessions : t'.sessions = Function.update t.sessions i
      (some { s with receivingKeyCounter := v }))
    (hestablished : establishedIn t'.trace = establishedIn t.trace)
    (hsealed : sealedIn t'.trace = sealedIn t.trace)
    (hopened : openedIn t'.trace = openedIn t.trace ++ [(s.receiver, counter)]) :
    t'.Numbered := by
  have hbound : counter + nBits < u64 :=
    hapart.bounded (s.receiver, counter) (by rw [hopened]; simp)
  -- the counter was fresh, and is now taken
  obtain ⟨⟨res, w⟩, hyields, hrefines, hok, -⟩ :=
    ReceivingKeyCounterValidator.receivingCounterMark_yields (h.window hs) hbound
  rw [hmark] at hyields
  cases hyields
  have hfresh := hok.1 rfl
  have haccept : ReplayWindow.accept nBits (countersOf s.receiver (openedIn t.trace)) counter =
      counter :: countersOf s.receiver (openedIn t.trace) := if_pos hfresh
  rw [haccept] at hrefines
  refine ⟨?_, ?_, fun {j r c} hr hc => ?_, fun {j r} hr => ?_, fun {j r} hr => ?_, ?_, ?_⟩
  · rw [hsealed]
    exact h.senders.of_update hs hsessions rfl hestablished
  · rw [hopened]
    exact (h.receivers.uses hs _).of_update hs hsessions rfl hestablished
  · rw [hsealed] at hc
    rcases sessions_cases hsessions hr with ⟨-, rfl⟩ | ⟨-, hr⟩
    · exact h.below (s := s) hs hc
    · exact h.below hr hc
  · rw [hsealed]
    rcases sessions_cases hsessions hr with ⟨-, rfl⟩ | ⟨-, hr⟩
    · exact h.counter (s := s) hs
    · exact h.counter hr
  · rw [hopened, countersOf_concat]
    rcases sessions_cases hsessions hr with ⟨-, rfl⟩ | ⟨hj, hr⟩
    · rw [if_pos rfl]
      exact hrefines
    · rw [if_neg fun heq => hj (h.receivers.distinct hr hs heq.symm)]
      exact h.window hr
  · rw [hsealed]
    exact h.sealedOnce
  · rw [hopened]
    exact nodup_concat h.openedOnce fun hmem => hfresh.1 (mem_countersOf.2 hmem)

/-- A session with fresh keys starts to count at 0. -/
theorem Numbered.establishes {i : Fin nSessions} {s : Session} (h : t.Numbered)
    (hapart : Apart t'.trace) (hcounter : s.sendingKeyCounter = 0)
    (hvalidator : s.receivingKeyCounter = {})
    (hsessions : t'.sessions = Function.update t.sessions i (some s))
    (hestablished : establishedIn t'.trace = establishedIn t.trace ++ [s])
    (hsealed : sealedIn t'.trace = sealedIn t.trace)
    (hopened : openedIn t'.trace = openedIn t.trace) : t'.Numbered := by
  -- its keys are none of those that were used before
  have hfresh : ∀ key : Session → Bytes, ((establishedIn t'.trace).map key).Nodup →
      key s ∉ (establishedIn t.trace).map key := fun key hnodup hmem => by
    rw [hestablished, List.map_append] at hnodup
    exact (List.nodup_append.1 hnodup).2.2 _ hmem (key s) (by simp) rfl
  have hsender := hfresh Session.sender hapart.senders
  have hreceiver := hfresh Session.receiver hapart.receivers
  refine ⟨?_, ?_, fun {j r c} hr hc => ?_, fun {j r} hr => ?_, fun {j r} hr => ?_, ?_, ?_⟩
  · rw [hsealed]
    exact h.senders.of_establishes hsender hsessions hestablished
  · rw [hopened]
    exact h.receivers.of_establishes hreceiver hsessions hestablished
  · rw [hsealed] at hc
    rcases sessions_cases hsessions hr with ⟨-, rfl⟩ | ⟨-, hr⟩
    · exact absurd (h.senders.known _ hc) hsender
    · exact h.below hr hc
  · rw [hsealed]
    rcases sessions_cases hsessions hr with ⟨-, rfl⟩ | ⟨-, hr⟩
    · rw [hcounter]
      exact Nat.zero_le _
    · exact h.counter hr
  · rw [hopened]
    rcases sessions_cases hsessions hr with ⟨-, rfl⟩ | ⟨-, hr⟩
    · have hunused : countersOf r.receiver (openedIn t.trace) = [] :=
        List.eq_nil_iff_forall_not_mem.2 fun c hc =>
          hreceiver (h.receivers.known _ (mem_countersOf.1 hc))
      rw [hvalidator, hunused]
      exact .initial
    · exact h.window hr
  · rw [hsealed]
    exact h.sealedOnce
  · rw [hopened]
    exact h.openedOnce

theorem Effect.numbered (he : Effect t t') (hapart : Apart t'.trace) (h : t.Numbered) :
    t'.Numbered := by
  cases he with
  | keeps hsub hestablished hsealed hopened =>
    exact
      { senders := hsealed ▸ h.senders.of_keeps hsub hestablished
        receivers := hopened ▸ h.receivers.of_keeps hsub hestablished
        below := fun hr hc => h.below (hsub _ _ hr) (hsealed ▸ hc)
        counter := fun hr => hsealed ▸ h.counter (hsub _ _ hr)
        window := fun hr => hopened ▸ h.window (hsub _ _ hr)
        sealedOnce := hsealed ▸ h.sealedOnce
        openedOnce := hopened ▸ h.openedOnce }
  | seals i s hs hsessions hestablished hsealed hopened =>
    exact h.seals hapart hs hsessions hestablished hsealed hopened
  | opens i s v counter hs hmark hsessions hestablished hsealed hopened =>
    exact h.opens hapart hs hmark hsessions hestablished hsealed hopened
  | establishes i s hcounter hvalidator hsessions hestablished hsealed hopened =>
    exact h.establishes hapart hcounter hvalidator hsessions hestablished hsealed hopened

/-! ### Waiting packets -/

/-- The packets that were put to the waiting ones are those that left and those that wait. -/
def Conserved (t : Tunn) : Prop :=
  (t.trace.flatMap Act.waiting).Perm (t.trace.flatMap Act.leaving ++ t.packetQueue)

theorem Small.conserved (h : Small now t t') (hc : t.Conserved) : t'.Conserved := by
  unfold Conserved at hc ⊢
  cases h with
  | frame h =>
    rw [h.trace, h.queue]
    exact hc
  | waits packet =>
    simpa [act, withQueue, Act.waiting, Act.leaving] using hc.append_right [packet]
  | rotates packet rest hqueue =>
    rw [hqueue] at hc
    simpa [act, withQueue, dequeued, Act.waiting, Act.leaving] using hc.append_right [packet]
  | resumes packet rest index s hqueue =>
    rw [hqueue] at hc
    simpa [act, sealing, setSession, dequeued, Act.waiting, Act.leaving] using hc
  | seals index s packet =>
    simpa [act, sealing, setSession, Act.waiting, Act.leaving] using hc
  | opens s v counter packet =>
    simpa [act, opening, setSession, Act.waiting, Act.leaving] using hc
  | establishes s => simpa [act, establishing, setSession, Act.waiting, Act.leaving] using hc
  | advances => exact hc
  | restarts => exact hc
  | expires => simpa [act, clearAll, Act.waiting, Act.leaving] using hc

/-! ### The age of a session -/

/-- By the clock of the tunnel, no session is older than three minutes. -/
def Young (t : Tunn) : Prop :=
  ∀ i s, t.sessions i = some s → t.clock ≤ t.timers.sessionTimers i + rejectAfterTime

/-- A session is replaced by one with the same age. -/
theorem Young.of_update {i : Fin nSessions} {s s' : Session} (h : t.Young)
    (hs : t.sessions i = some s) (hsessions : t'.sessions = Function.update t.sessions i (some s'))
    (htimers : t'.timers = t.timers) : t'.Young := by
  intro j r hr
  unfold clock
  rw [htimers]
  rcases sessions_cases hsessions hr with ⟨rfl, -⟩ | ⟨-, hr⟩
  · exact h j s hs
  · exact h j r hr

/-- Sessions end that are too old by the clock. -/
theorem updateSessionTimers_young (t : Tunn) : (t.updateSessionTimers t.clock).Young := by
  intro i s hs
  show t.clock ≤ (t.updateSessionTimers t.clock).timers.sessionTimers i + rejectAfterTime
  simp only [updateSessionTimers] at hs ⊢
  split at hs
  · cases hs
  · next hage =>
    rw [if_neg hage]
    omega

theorem Small.young (h : Small now t t') (hy : t.Young) : t'.Young := by
  cases h with
  | frame h =>
    intro i s hs
    rw [h.clock, h.sessionTimers]
    exact hy i s (h.sessions ▸ hs)
  | waits packet => exact hy
  | rotates packet rest => exact hy
  | resumes packet rest index s hqueue hs => exact hy.of_update hs rfl rfl
  | seals index s packet hs => exact hy.of_update hs rfl rfl
  | opens s v counter packet hs => exact hy.of_update hs rfl rfl
  | establishes s =>
    -- the slot's time is the clock, whatever was in the slot before
    intro j r hr
    show t.clock ≤ Function.update t.timers.sessionTimers (slot s.receivingIndex) t.clock j + _
    rcases sessions_cases (t := t) rfl hr with ⟨rfl, -⟩ | ⟨hj, hr⟩
    · rw [Function.update_self]
      exact Nat.le_add_right _ _
    · rw [Function.update_of_ne hj]
      exact hy j r hr
  | advances =>
    have hclock : (t.setClock (now - t.timers.timeStarted)).clock = now - t.timers.timeStarted := by
      simp [clock, setClock]
    have hyoung := updateSessionTimers_young (t.setClock (now - t.timers.timeStarted))
    rw [hclock] at hyoung
    exact hyoung
  | restarts hnone =>
    intro i s hs
    rw [hnone i] at hs
    cases hs
  | expires =>
    intro i s hs
    cases hs

/-- The clock of the tunnel shows a time from the last timer call on, and the slots of the sessions
show no time after the one they were established at. -/
structure Timed (tick now : ℕ) (t : Tunn) : Prop where
  ticked : tick ≤ t.timers.timeStarted + t.clock
  passed : t.timers.timeStarted + t.clock ≤ now
  established : ∀ {i s}, t.sessions i = some s → ∃ time, .establishes s.origin time ∈ t.trace ∧
    t.timers.timeStarted + t.timers.sessionTimers i ≤ time

/-- Time passes. -/
theorem Timed.mono {tick last : ℕ} (h : t.Timed tick last) (hle : last ≤ now) :
    t.Timed tick now where
  ticked := h.ticked
  passed := h.passed.trans hle
  established := h.established

/-- The sessions and their times stay as they are, or go, and the record grows. -/
theorem Timed.of_carried {tick : ℕ} (h : t.Timed tick now) (htimers : t'.timers = t.timers)
    (hcarried : ∀ {j r}, t'.sessions j = some r →
      ∃ s, t.sessions j = some s ∧ s.origin = r.origin)
    (htrace : ∀ {a}, a ∈ t.trace → a ∈ t'.trace) : t'.Timed tick now where
  ticked := by
    unfold clock
    rw [htimers]
    exact h.ticked
  passed := by
    unfold clock
    rw [htimers]
    exact h.passed
  established hr := by
    obtain ⟨s, hs, horigin⟩ := hcarried hr
    obtain ⟨time, hmem, hle⟩ := h.established hs
    rw [htimers, ← horigin]
    exact ⟨time, htrace hmem, hle⟩

/-- A packet is sealed or opened in a session. -/
theorem Timed.of_update {tick : ℕ} {i : Fin nSessions} {s s' : Session} (h : t.Timed tick now)
    (hs : t.sessions i = some s) (horigin : s.origin = s'.origin)
    (hsessions : t'.sessions = Function.update t.sessions i (some s'))
    (htimers : t'.timers = t.timers) (htrace : ∀ {a}, a ∈ t.trace → a ∈ t'.trace) :
    t'.Timed tick now := by
  refine h.of_carried htimers (fun {j r} hr => ?_) htrace
  rcases sessions_cases hsessions hr with ⟨rfl, rfl⟩ | ⟨-, hr⟩
  · exact ⟨s, hs, horigin⟩
  · exact ⟨r, hr, rfl⟩

/-- The clock of the tunnel is set to the time. -/
theorem Timed.of_clock {tick : ℕ} (h : t.Timed tick now)
    (hstarted : t'.timers.timeStarted = t.timers.timeStarted)
    (hclock : t'.clock = now - t.timers.timeStarted)
    (hestablished : ∀ {i s}, t'.sessions i = some s → t.sessions i = some s ∧
      t'.timers.sessionTimers i = t.timers.sessionTimers i)
    (htrace : ∀ {a}, a ∈ t.trace → a ∈ t'.trace) : t'.Timed now now := by
  have hpassed := h.passed
  refine ⟨?_, ?_, fun {i s} hs => ?_⟩
  · rw [hstarted, hclock]
    omega
  · rw [hstarted, hclock]
    omega
  · obtain ⟨hs, htimer⟩ := hestablished hs
    obtain ⟨time, hmem, hle⟩ := h.established hs
    rw [hstarted, htimer]
    exact ⟨time, htrace hmem, hle⟩

/-- A session that is not too old is as it was, and so is its time. -/
theorem updateSessionTimers_kept {time : ℕ} {i : Fin nSessions} {s : Session}
    (hs : (t.updateSessionTimers time).sessions i = some s) : t.sessions i = some s ∧
      (t.updateSessionTimers time).timers.sessionTimers i = t.timers.sessionTimers i := by
  simp only [updateSessionTimers] at hs ⊢
  split at hs
  · cases hs
  · next hage => exact ⟨hs, if_neg hage⟩

theorem clock_advances (t : Tunn) (time : ℕ) :
    ((t.setClock time).updateSessionTimers time).clock = time := by
  simp [clock, setClock, updateSessionTimers]

theorem Small.timed {tick : ℕ} (h : Small now t t') (ht : t.Timed tick now) :
    t'.Timed tick now := by
  -- a clock that is set is not behind the last timer call
  have hset : t'.Timed now now → t'.Timed tick now := fun h' =>
    { h' with ticked := (ht.ticked.trans ht.passed).trans h'.ticked }
  cases h with
  | frame h =>
    refine ⟨?_, ?_, fun hs => ?_⟩
    · rw [h.started, h.clock]
      exact ht.ticked
    · rw [h.started, h.clock]
      exact ht.passed
    · rw [h.started, h.sessionTimers, h.trace]
      exact ht.established (h.sessions ▸ hs)
  | waits packet =>
    exact ht.of_carried rfl (fun hr => ⟨_, hr, rfl⟩) (List.mem_append_left _)
  | rotates packet rest =>
    exact ht.of_carried rfl (fun hr => ⟨_, hr, rfl⟩)
      fun ha => List.mem_append_left _ (List.mem_append_left _ ha)
  | resumes packet rest index s hqueue hs =>
    exact ht.of_update hs (by rfl) rfl rfl
      fun ha => List.mem_append_left _ (List.mem_append_left _ ha)
  | seals index s packet hs => exact ht.of_update hs (by rfl) rfl rfl (List.mem_append_left _)
  | opens s v counter packet hs =>
    exact ht.of_update hs (by rfl) rfl rfl (List.mem_append_left _)
  | establishes s hexpired hcounter hvalidator =>
    -- the slot shows the clock of the tunnel, which is not ahead of the time
    refine ⟨ht.ticked, ht.passed, fun {j r} hr => ?_⟩
    show ∃ time, Act.establishes r.origin time ∈ t.trace ++ [.establishes s now] ∧
      t.timers.timeStarted +
        Function.update t.timers.sessionTimers (slot s.receivingIndex) t.clock j ≤ time
    rcases sessions_cases (t := t) rfl hr with ⟨rfl, rfl⟩ | ⟨hj, hr⟩
    · rw [Function.update_self, Session.origin_of_new hcounter hvalidator]
      exact ⟨now, by simp, ht.passed⟩
    · rw [Function.update_of_ne hj]
      obtain ⟨time, hmem, hle⟩ := ht.established hr
      exact ⟨time, List.mem_append_left _ hmem, hle⟩
  | advances =>
    exact hset (ht.of_clock rfl (clock_advances ..) updateSessionTimers_kept id)
  | restarts hnone =>
    refine hset (ht.of_clock rfl rfl (fun {i s} hs => ?_) id)
    rw [hnone i] at hs
    cases hs
  | expires =>
    exact hset (ht.of_clock rfl rfl (fun hs => by cases hs) (List.mem_append_left _))

theorem Path.timed {tick : ℕ} (h : Path now t t') (ht : t.Timed tick now) : t'.Timed tick now := by
  induction h with
  | refl => exact ht
  | tail _ hlast ih => exact hlast.timed ih

/-- After a timer call has set the clock. -/
theorem advance_timed {tick : ℕ} (h : t.Timed tick now) : (t.advance now).Timed now now := by
  refine { (advance_path t now).timed h with ticked := ?_ }
  have hpassed := h.passed
  have hclock : (t.advance now).timers.timeStarted + (t.advance now).clock =
      t.timers.timeStarted + (now - t.timers.timeStarted) := by
    unfold advance
    split <;> simp [clock, updateSessionTimers]
  omega

/-! ### Runs -/

/-- What small changes keep holds after every run. -/
theorem run_path_invariant {I : Tunn → Prop}
    (hsmall : ∀ {now t t'}, Small now t t' → t.Sound → I t → I t') {es : List Event}
    (hroom : ∀ e ∈ es, handshakeInitSz ≤ e.call.room) (ht : t.Sound) (hI : I t)
    (h : Transition.runM (step P) t es = some t') : t'.Sound ∧ I t' := by
  induction es generalizing t with
  | nil =>
    cases h
    exact ⟨ht, hI⟩
  | cons e es ih =>
    rw [Transition.runM, List.foldlM_cons] at h
    cases hperform : t.perform P e with
    | none => simp [step, hperform] at h
    | some x =>
      obtain ⟨r, u⟩ := x
      simp only [step, hperform, Option.map_some, Option.bind_eq_bind, Option.bind_some] at h
      -- the call is a chain of small changes, and each keeps the invariant
      have hpath := perform_path ht (hroom e (by simp)) hperform
      have hu : I u := by
        clear h hperform
        induction hpath with
        | refl => exact hI
        | tail hinit hlast ih => exact hsmall hlast (Path.sound hinit ht) ih
      exact ih (fun e' he' => hroom e' (by simp [he'])) (hpath.sound ht) hu h

/-- The time of the last timer call goes with the calls. -/
theorem perform_timed {tick last : ℕ} {e : Event} {r : TunnResult} (ht : t.Sound)
    (hroom : handshakeInitSz ≤ e.call.room) (hle : last ≤ e.call.now)
    (h : t.perform P e = some (r, t')) (htimed : t.Timed tick last) :
    ∃ tick', t'.Timed tick' e.call.now ∧ tick ≤ tick' ∧
      ∀ call, e = .updateTimers call → call.now ≤ tick' := by
  have hnow := htimed.mono hle
  by_cases htick : ∃ call, e = .updateTimers call
  · obtain ⟨call, rfl⟩ := htick
    refine ⟨call.now, (updateTimers_path_advance ht h).timed (advance_timed hnow),
      hnow.ticked.trans hnow.passed, fun call' heq => ?_⟩
    cases heq
    exact le_rfl
  · exact ⟨tick, (perform_path ht hroom h).timed hnow, le_rfl,
      fun call heq => absurd ⟨call, heq⟩ htick⟩

theorem run_timed {tick last : ℕ} {es : List Event}
    (hclock : (last :: es.map fun e => e.call.now).Pairwise (· ≤ ·))
    (hroom : ∀ e ∈ es, handshakeInitSz ≤ e.call.room) (ht : t.Sound) (htimed : t.Timed tick last)
    (h : Transition.runM (step P) t es = some t') : ∃ tick' last', t'.Timed tick' last' ∧
      tick ≤ tick' ∧ ∀ call, .updateTimers call ∈ es → call.now ≤ tick' := by
  induction es generalizing t tick last with
  | nil =>
    cases h
    exact ⟨tick, last, htimed, le_rfl, fun _ hmem => by cases hmem⟩
  | cons e es ih =>
    rw [Transition.runM, List.foldlM_cons] at h
    cases hperform : t.perform P e with
    | none => simp [step, hperform] at h
    | some x =>
      obtain ⟨r, u⟩ := x
      simp only [step, hperform, Option.map_some, Option.bind_eq_bind, Option.bind_some] at h
      rw [List.map_cons, List.pairwise_cons] at hclock
      obtain ⟨tick₁, hu, hle, hcall⟩ := perform_timed ht (hroom e (by simp))
        (hclock.1 _ (by simp)) hperform htimed
      have hsound := (perform_path ht (hroom e (by simp)) hperform).sound ht
      obtain ⟨tick₂, last', ht', hle', hcalls⟩ := ih hclock.2
        (fun e' he' => hroom e' (by simp [he'])) hsound hu h
      refine ⟨tick₂, last', ht', hle.trans hle', fun call hmem => ?_⟩
      rcases List.mem_cons.1 hmem with heq | hmem
      · exact (hcall call heq.symm).trans hle'
      · exact hcalls call hmem

section New

variable (staticPrivate peer nonceKey secretKey : Bytes) (psk : Option Bytes)
  (keepalive : Option ℕ) (index durationAtStart start : ℕ) (limiter : Option RateLimiter)

theorem new_sound : (new P staticPrivate peer psk keepalive index limiter nonceKey secretKey
    durationAtStart start).Sound :=
  ⟨fun hexpired => (by cases hexpired), fun hexpired => (by cases hexpired), Nat.zero_le _⟩

theorem new_numbered : (new P staticPrivate peer psk keepalive index limiter nonceKey secretKey
    durationAtStart start).Numbered where
  senders := ⟨fun hs => (by cases hs), fun hs => (by cases hs), fun _ hn => (by cases hn)⟩
  receivers := ⟨fun hs => (by cases hs), fun hs => (by cases hs), fun _ hn => (by cases hn)⟩
  below hs := by cases hs
  counter hs := by cases hs
  window hs := by cases hs
  sealedOnce := List.nodup_nil
  openedOnce := List.nodup_nil

/-- **No nonce is used twice**: over all calls and all handshakes of a tunnel, no key seals two
packets under one counter, and no packet is taken twice under one, as long as the keys of the
sessions are fresh and their counters do not wrap. -/
theorem nonces_once (P : LimiterPrimitives) (es : List Event)
    (hroom : ∀ e ∈ es, handshakeInitSz ≤ e.call.room) (t' : Tunn)
    (h : Transition.runM (step P) (new P staticPrivate peer psk keepalive index limiter nonceKey
      secretKey durationAtStart start) es = some t') (hapart : Apart t'.trace) :
    (sealedIn t'.trace).Nodup ∧ (openedIn t'.trace).Nodup := by
  have hnumbered : t'.Numbered := (run_path_invariant
    (I := fun t => Apart t.trace → t.Numbered)
    (fun hsmall _ hI hapart => by
      obtain ⟨acts, htrace, -⟩ := hsmall.trace
      exact hsmall.effect.numbered hapart (hI (hapart.of_prefix ⟨acts, htrace.symm⟩)))
    hroom (new_sound ..) (fun _ => new_numbered ..) h).2 hapart
  exact ⟨hnumbered.sealedOnce, hnumbered.openedOnce⟩

/-- **No waiting packet is lost or sent twice**: every packet that was put to the waiting ones still
waits, has left them once, or was given up when the tunnel expired; and a packet that leaves is
sealed at once or waits again. -/
theorem waiting_conserved (P : LimiterPrimitives) (es : List Event)
    (hroom : ∀ e ∈ es, handshakeInitSz ≤ e.call.room) (t' : Tunn)
    (h : Transition.runM (step P) (new P staticPrivate peer psk keepalive index limiter nonceKey
      secretKey durationAtStart start) es = some t') :
    (t'.trace.flatMap Act.waiting).Perm (t'.trace.flatMap Act.leaving ++ t'.packetQueue) ∧
      Answered t'.trace ∧ t'.packetQueue.length ≤ maxQueueDepth := by
  have hnew : (new P staticPrivate peer psk keepalive index limiter nonceKey secretKey
      durationAtStart start).Conserved := .refl _
  obtain ⟨hsound, hconserved, hanswered⟩ := run_path_invariant
    (I := fun t => t.Conserved ∧ Answered t.trace)
    (fun hsmall _ hI => by
      obtain ⟨acts, htrace, hacts⟩ := hsmall.trace
      exact ⟨hsmall.conserved hI.1, htrace ▸ hI.2.append hacts⟩)
    hroom (new_sound ..) ⟨hnew, answered_nil⟩ h
  exact ⟨hconserved, hanswered, hsound.depth⟩

/-- **No session outlives three minutes**: a session in the ring was established, as the record
says, no more than three minutes before any timer call; the clock does not go back. -/
theorem sessions_young (P : LimiterPrimitives) (es : List Event)
    (hroom : ∀ e ∈ es, handshakeInitSz ≤ e.call.room)
    (hclock : (start :: es.map fun e => e.call.now).Pairwise (· ≤ ·)) (t' : Tunn)
    (h : Transition.runM (step P) (new P staticPrivate peer psk keepalive index limiter nonceKey
      secretKey durationAtStart start) es = some t') (i : Fin nSessions) (s : Session)
    (hs : t'.sessions i = some s) : ∃ time, .establishes s.origin time ∈ t'.trace ∧
      ∀ call, .updateTimers call ∈ es → call.now ≤ time + rejectAfterTime := by
  have hyoung : t'.Young := (run_path_invariant (fun hsmall _ hI => hsmall.young hI) hroom
    (new_sound ..) (fun _ _ hs => by cases hs) h).2
  have htimed : (new P staticPrivate peer psk keepalive index limiter nonceKey secretKey
      durationAtStart start).Timed start start :=
    ⟨Nat.le_add_right .., le_rfl, fun hs => by cases hs⟩
  obtain ⟨tick, last, ht', -, hcalls⟩ := run_timed hclock hroom (new_sound ..) htimed h
  obtain ⟨time, hmem, hle⟩ := ht'.established hs
  refine ⟨time, hmem, fun call hcall => ?_⟩
  calc call.now ≤ tick := hcalls call hcall
    _ ≤ t'.timers.timeStarted + t'.clock := ht'.ticked
    _ ≤ t'.timers.timeStarted + (t'.timers.sessionTimers i + rejectAfterTime) :=
      Nat.add_le_add_left (hyoung i s hs) _
    _ = t'.timers.timeStarted + t'.timers.sessionTimers i + rejectAfterTime :=
      (Nat.add_assoc ..).symm
    _ ≤ time + rejectAfterTime := Nat.add_le_add_right hle _

end New

/-! ### A small run -/

def sampleCall : Call := ⟨2000000000, [3], 2048⟩

def sampleTunnel : Tunn :=
  new sampleLimiter [1] (samplePrimitives.publicKey [2]) none none 1 none [8] [9]
    1700000000000000000 1000000000

/-- The peer's answer to the initiation of the tunnel. -/
def sampleResponse : Bytes :=
  match (sampleTunnel.formatHandshakeInitiation sampleLimiter sampleCall false).1 with
  | .writeToNetwork message =>
    match parseIncomingPacket message with
    | .ok (.handshakeInit init) =>
      match (Handshake.sampleEnd [2] [1] 512).receiveHandshakeInitialization samplePrimitives init
        [4] 2048 with
      | some (.ok (reply, _), _) => reply
      | _ => []
    | _ => []
  | _ => []

/-- A packet waits for a session, which is established; it is sent, and another one. -/
def sampleEvents : List Event :=
  [.encapsulate [42] sampleCall, .decapsulate none sampleResponse sampleCall,
    .decapsulate none [] sampleCall, .encapsulate [43] sampleCall]

theorem run_returns :
    (Transition.runM (step sampleLimiter) sampleTunnel sampleEvents).isSome = true := by
  decide +kernel

theorem run_sample : ∃ t', Transition.runM (step sampleLimiter) sampleTunnel sampleEvents =
    some t' ∧ Apart t'.trace ∧ t'.trace.length = 6 ∧ t'.sessions (slot 257) ≠ none := by
  refine ⟨_, (Option.some_get run_returns).symm, ⟨?_, ?_, ?_, ?_⟩, ?_, ?_⟩ <;> decide +kernel

theorem nonces_once_sample : ∃ t', Transition.runM (step sampleLimiter) sampleTunnel sampleEvents =
    some t' ∧ t'.trace.length = 6 ∧ (sealedIn t'.trace).Nodup ∧ (openedIn t'.trace).Nodup := by
  obtain ⟨t', h, hapart, hlength, -⟩ := run_sample
  exact ⟨t', h, hlength, nonces_once [1] (samplePrimitives.publicKey [2]) [8] [9] none none 1
    1700000000000000000 1000000000 none sampleLimiter sampleEvents (by decide) t' h hapart⟩

theorem waiting_conserved_sample : ∃ t',
    Transition.runM (step sampleLimiter) sampleTunnel sampleEvents = some t' ∧
      (t'.trace.flatMap Act.waiting).Perm (t'.trace.flatMap Act.leaving ++ t'.packetQueue) ∧
      Answered t'.trace ∧ t'.packetQueue.length ≤ maxQueueDepth := by
  obtain ⟨t', h, -⟩ := run_sample
  exact ⟨t', h, waiting_conserved [1] (samplePrimitives.publicKey [2]) [8] [9] none none 1
    1700000000000000000 1000000000 none sampleLimiter sampleEvents (by decide) t' h⟩

/-- Two and a half minutes later the timers are called. -/
def sampleTick : Call := ⟨152000000000, [5], 2048⟩

def sampleTicks : List Event := sampleEvents ++ [.updateTimers sampleTick]

theorem run_ticks_returns :
    (Transition.runM (step sampleLimiter) sampleTunnel sampleTicks).isSome = true := by
  decide +kernel

theorem run_ticks : ∃ t', Transition.runM (step sampleLimiter) sampleTunnel sampleTicks =
    some t' ∧ t'.sessions (slot 257) ≠ none :=
  ⟨_, (Option.some_get run_ticks_returns).symm, by decide +kernel⟩

theorem sessions_young_sample : ∃ t' s time,
    Transition.runM (step sampleLimiter) sampleTunnel sampleTicks = some t' ∧
      t'.sessions (slot 257) = some s ∧ .establishes s.origin time ∈ t'.trace ∧
      sampleTick.now ≤ time + rejectAfterTime := by
  obtain ⟨t', h, hne⟩ := run_ticks
  obtain ⟨s, hs⟩ := Option.ne_none_iff_exists'.1 hne
  obtain ⟨time, hmem, hle⟩ := sessions_young [1] (samplePrimitives.publicKey [2]) [8] [9] none
    none 1 1700000000000000000 1000000000 none sampleLimiter sampleTicks (by decide)
    (by decide +kernel) t' h (slot 257) s hs
  exact ⟨t', s, time, h, hs, hmem, hle sampleTick (by simp [sampleTicks])⟩

end Tunn

end Tailcat.Noise
