import Tailcat.Runtime.Listeners

/-!
# Claims of ports

A listener holds its port from the command that hands it out until it is dropped.  The actor only has
the table of claims, where the claim of a dropped listener is closed and stays until it is purged.

* `live_iff` : the listeners that are alive are the open claims of the table.
* `Live.unique` : a port has one live listener at most.
* `listensWith_iff`, `listensWith_zero_iff` : a command succeeds exactly if there is none.

A listener is alive by the history: it was handed out and was not dropped since (`Live`).  The table
cannot say this, as it has no history, so the invariant compares the two after every event
(`live_iff`), and the results about commands are then facts of the table.  Identifiers are never
given twice, which is why dropping an old listener does not concern the next one of its port.
-/

namespace Tailcat.Runtime.Actor

open Net

variable {π : Platform} {Q : Actor → PollAction → Prop} {s a b : Actor} {e : Event}
  {udp : Bool} {port asked : Port} {id : ℕ} {result : ReplyId} {setup : Setup}

/-! ### Listeners -/

/-- The claim of a port is open. -/
def Holds (a : Actor) (udp : Bool) (port : Port) (id : ℕ) : Prop :=
  a.listeners.lookup (udp, port) = some { id, closed := false }

/-- The command `Listen` is answered with a listener. -/
def ListensWith (π : Platform) (a : Actor) (udp : Bool) (asked : Port) (result : ReplyId) (id : ℕ)
    (port : Port) : Prop :=
  (step π a (.command (.listen udp asked result))).trace =
    a.trace ++ [.answer result (.listener id port)]

/-- An event hands out a listener: a command is answered with it, and its caller is there. -/
def HandsOut (π : Platform) (a : Actor) (e : Event) (udp : Bool) (port : Port) (id : ℕ) : Prop :=
  ∃ asked result, e = .command (.listen udp asked result) ∧
    ListensWith π a udp asked result id port ∧ a.isClosed result = false

/-- A listener was handed out by the event after `before`, and was not dropped since. -/
def Live (π : Platform) (setup : Setup) (es before : List Event) (udp : Bool) (port : Port)
    (id : ℕ) : Prop :=
  ∃ e after, es = before ++ e :: after ∧ HandsOut π (run π (init setup) before) e udp port id ∧
    .dropListener id ∉ after

/-! ### The command -/

theorem holds_purge : a.purgeListeners.Holds udp port id ↔ a.Holds udp port id := by
  unfold Holds purgeListeners
  dsimp only
  rw [Table.lookup_retain, Option.filter_eq_some_iff]
  simp

theorem mem_purge : (udp, port) ∈ a.purgeListeners.listeners ↔ ∃ id, a.Holds udp port id := by
  rw [← AList.lookup_isSome]
  unfold Holds purgeListeners
  dsimp only
  rw [Table.lookup_retain]
  constructor
  · intro h
    obtain ⟨claim, hclaim⟩ := Option.isSome_iff_exists.1 h
    obtain ⟨hlookup, hopen⟩ := Option.filter_eq_some_iff.1 hclaim
    refine ⟨claim.id, ?_⟩
    rw [hlookup]
    obtain ⟨id, closed⟩ := claim
    obtain rfl : closed = false := by simpa using hopen
    rfl
  · rintro ⟨id, hlookup⟩
    rw [hlookup]
    rfl

/-- The port that a command claims, or 0. -/
def chosenPort (a : Actor) (udp : Bool) (asked : Port) : Port :=
  if asked = 0 then ((portsFrom 49152).find? fun p => (udp, p) ∉ a.listeners).getD 0 else asked

/-- What a command does: it fails, or claims its port. -/
theorem listen_cases (π : Platform) (a : Actor) (udp : Bool) (asked : Port) (result : ReplyId) :
    let chosen := a.purgeListeners.chosenPort udp asked
    let b := step π a (.command (.listen udp asked result))
    ((chosen = 0 ∨ ∃ id, a.Holds udp chosen id) ∧ b.listeners = a.purgeListeners.listeners ∧
        b.listenersIssued = a.listenersIssued ∧
        b.trace = a.trace ++ [.answer result (.failed "port is already in use")]) ∨
      (¬(chosen = 0 ∨ ∃ id, a.Holds udp chosen id) ∧
        b.listeners = a.purgeListeners.listeners.insert (udp, chosen)
          { id := a.listenersIssued, closed := a.isClosed result } ∧
        b.listenersIssued = a.listenersIssued + 1 ∧
        b.trace = a.trace ++ [.answer result (.listener a.listenersIssued chosen)]) := by
  intro chosen b
  rw [← mem_purge]
  have hb : b = a.listenCommand udp asked result := rfl
  by_cases hused : chosen = 0 ∨ (udp, chosen) ∈ a.purgeListeners.listeners
  · refine .inl ⟨hused, ?_⟩
    have hlisten : b = a.purgeListeners.answer result (.failed "port is already in use") := by
      rw [hb]
      exact if_pos hused
    rw [hlisten]
    exact ⟨rfl, rfl, rfl⟩
  · refine .inr ⟨hused, ?_⟩
    have hlisten : b = { a.purgeListeners with
        listeners := a.purgeListeners.listeners.insert (udp, chosen)
          { id := a.listenersIssued, closed := a.isClosed result }
        listenersIssued := a.listenersIssued + 1
        trace := a.trace ++ [.answer result (.listener a.listenersIssued chosen)] } := by
      rw [hb]
      exact if_neg hused
    rw [hlisten]
    exact ⟨rfl, rfl, rfl⟩

/-- A command is answered with a listener exactly if nothing holds its port. -/
theorem listensWith_iff : ListensWith π a udp asked result id port ↔
    id = a.listenersIssued ∧ port = a.purgeListeners.chosenPort udp asked ∧ port ≠ 0 ∧
      ¬∃ id', a.Holds udp port id' := by
  unfold ListensWith
  obtain ⟨hused, -, -, htrace⟩ | ⟨hfree, -, -, htrace⟩ := listen_cases π a udp asked result
  · refine iff_of_false ?_ ?_
    · rw [htrace]
      simp
    · rintro ⟨-, rfl, hne, hnone⟩
      exact hused.elim hne hnone
  · rw [htrace, List.append_right_inj]
    simp only [List.cons.injEq, and_true, Act.answer.injEq, true_and, Answer.listener.injEq]
    constructor
    · rintro ⟨rfl, rfl⟩
      exact ⟨rfl, rfl, fun hzero => hfree (.inl hzero), fun hheld => hfree (.inr hheld)⟩
    · rintro ⟨rfl, rfl, -⟩
      exact ⟨rfl, rfl⟩

/-! ### One event -/

theorem holds_listen (π : Platform) (a : Actor) (udp' : Bool) (asked : Port) (result : ReplyId) :
    (step π a (.command (.listen udp' asked result))).Holds udp port id ↔
      a.Holds udp port id ∨
        (udp' = udp ∧ ListensWith π a udp' asked result id port ∧ a.isClosed result = false) := by
  have hiff : ListensWith π a udp' asked result id port ↔ _ := listensWith_iff
  obtain ⟨hused, hlisteners, -, htrace⟩ | ⟨hfree, hlisteners, -, htrace⟩ :=
    listen_cases π a udp' asked result
  · unfold Holds
    rw [hlisteners]
    have hnot : ¬ListensWith π a udp' asked result id port := by
      rw [hiff]
      rintro ⟨-, rfl, hne, hnone⟩
      exact hused.elim hne hnone
    simp only [hnot, false_and, and_false, or_false]
    exact holds_purge
  · unfold Holds
    rw [hlisteners, Table.lookup_insert_eq, hiff]
    split_ifs with hkey
    · simp only [Prod.mk.injEq] at hkey
      obtain ⟨rfl, rfl⟩ := hkey
      rw [not_or] at hfree
      have hnot : ¬a.listeners.lookup (udp, a.purgeListeners.chosenPort udp asked) =
          some { id, closed := false } := fun hheld => hfree.2 ⟨id, hheld⟩
      simp only [Option.some.injEq, Claim.mk.injEq, hnot, false_or, true_and]
      constructor
      · rintro ⟨rfl, hclosed⟩
        exact ⟨⟨rfl, hfree.1, hfree.2⟩, hclosed⟩
      · rintro ⟨⟨rfl, -⟩, hclosed⟩
        exact ⟨rfl, hclosed⟩
    · have hother : ¬(udp' = udp ∧ (id = a.listenersIssued ∧
          port = a.purgeListeners.chosenPort udp' asked ∧ port ≠ 0 ∧
          ¬∃ id', a.Holds udp' port id') ∧ a.isClosed result = false) := by
        rintro ⟨rfl, ⟨-, rfl, -⟩, -⟩
        exact hkey rfl
      rw [or_iff_left hother]
      exact holds_purge

/-- What the drop of a listener makes of a claim. -/
def afterDrop (dropped : ℕ) (claim : Claim) : Claim :=
  if claim.id = dropped then { claim with closed := true } else claim

theorem afterDrop_twice (dropped : ℕ) (claim : Claim) :
    afterDrop dropped (afterDrop dropped claim) = afterDrop dropped claim := by
  unfold afterDrop
  by_cases hid : claim.id = dropped <;> simp [hid]

theorem lookup_dropListener (a : Actor) (dropped : ℕ) (k : Bool × Port) :
    (a.dropListener dropped).listeners.lookup k =
      (a.listeners.lookup k).map (afterDrop dropped) := by
  have hfold := Table.lookup_foldl_adjust (afterDrop_twice dropped)
    (a.listeners.entries.map Sigma.fst) a.listeners k
  rw [List.foldl_map] at hfold
  refine hfold.trans ?_
  split_ifs with hmem
  · rfl
  · have hnone : a.listeners.lookup k = none := AList.lookup_eq_none.2 hmem
    rw [hnone]
    rfl

theorem holds_dropListener (a : Actor) (dropped : ℕ) :
    (a.dropListener dropped).Holds udp port id ↔ a.Holds udp port id ∧ id ≠ dropped := by
  unfold Holds
  rw [lookup_dropListener]
  cases a.listeners.lookup (udp, port) with
  | none => simp
  | some claim =>
    obtain ⟨id', closed⟩ := claim
    simp only [Option.map_some, Option.some.injEq, afterDrop]
    split_ifs with hid
    · subst hid
      simp only [Claim.mk.injEq, Bool.true_eq_false, and_false, false_iff, not_and, not_not]
      rintro ⟨rfl, -⟩
      rfl
    · simp only [Claim.mk.injEq, iff_self_and, and_imp]
      rintro rfl -
      exact hid

/-- Every other change leaves the open claims as they are. -/
theorem Small.holds (h : Small π Q s e a b)
    (hlisten : ∀ udp asked result, e ≠ .command (.listen udp asked result))
    (hdrop : ∀ id, e ≠ .dropListener id) : b.Holds udp port id ↔ a.Holds udp port id := by
  cases h with
  | sends h => rw [h.eq]; rfl
  | repeatPings h => rw [h.eq]; rfl
  | purgeListeners => exact holds_purge
  | claim _ he => exact absurd he (hlisten _ _ _)
  | dropListener he => exact absurd he (hdrop _)
  | newUdpFlow => rw [newUdpFlow_eq]; rfl
  | lostUdpFlow => rw [newUdpFlow_eq]; rfl
  | removeCancelled => rw [removeCancelled_eq]; rfl
  | deliver => rw [deliver_eq]; rfl
  | udpOutput => rw [udpOutput_eq]; rfl
  | expireUdp =>
    unfold Actor.expireUdp
    rw [holds_purge, foldl_cancel_eq]
    rfl
  | poll => rw [pollAction_eq]; rfl
  | removeLink => rw [sameButLinks_removeLink]; rfl
  | _ => rfl

/-- What holds a port after an event: what held it before, if it is not dropped, and the listener
that is handed out. -/
theorem holds_step (hwired : a.Wired) (e : Event) : (step π a e).Holds udp port id ↔
    (a.Holds udp port id ∧ e ≠ .dropListener id) ∨ HandsOut π a e udp port id := by
  by_cases hlisten : ∃ udp asked result, e = .command (.listen udp asked result)
  · obtain ⟨udp', asked, result, rfl⟩ := hlisten
    rw [holds_listen]
    refine or_congr (by simp) ?_
    unfold HandsOut
    constructor
    · rintro ⟨rfl, hlistens, hclosed⟩
      exact ⟨asked, result, rfl, hlistens, hclosed⟩
    · rintro ⟨asked', result', he, hlistens, hclosed⟩
      cases he
      exact ⟨rfl, hlistens, hclosed⟩
  · have hnot : ¬HandsOut π a e udp port id := by
      rintro ⟨asked, result, he, -⟩
      exact hlisten ⟨udp, asked, result, he⟩
    rw [or_iff_left hnot]
    by_cases hdrop : ∃ id, e = .dropListener id
    · obtain ⟨dropped, rfl⟩ := hdrop
      have hstep : (a.dropListener dropped).Holds udp port id ↔ _ := holds_dropListener a dropped
      simp only [ne_eq, Event.dropListener.injEq]
      rw [show (dropped = id) = (id = dropped) from propext eq_comm]
      exact hstep
    · rw [and_iff_left (fun he => hdrop ⟨id, he⟩)]
      have hchanges := step_changes (Q := AnyPoll) hwired
        (pollsMeet_of_forall (π := π) (fun _ _ => trivial) a e)
      refine hchanges.preserves (I := fun b => b.Holds udp port id ↔ a.Holds udp port id) ?_ .rfl
      intro c d hsmall hc
      exact (hsmall.holds (fun udp asked result he => hlisten ⟨udp, asked, result, he⟩)
        (fun id he => hdrop ⟨id, he⟩)).trans hc

/-! ### Live listeners -/

theorem not_live_nil {before : List Event} : ¬Live π setup [] before udp port id := by
  rintro ⟨e, after, hes, -⟩
  simp at hes

/-- What is alive after one more event. -/
theorem live_concat {es before : List Event} : Live π setup (es ++ [e]) before udp port id ↔
    (Live π setup es before udp port id ∧ e ≠ .dropListener id) ∨
      (before = es ∧ HandsOut π (run π (init setup) es) e udp port id) := by
  constructor
  · rintro ⟨e', after, hes, hhands, hdrop⟩
    obtain rfl | ⟨after, last, rfl⟩ := List.eq_nil_or_concat' after
    · obtain ⟨rfl, he⟩ := List.append_inj' hes rfl
      cases he
      exact .inr ⟨rfl, hhands⟩
    · rw [← List.cons_append, ← List.append_assoc] at hes
      obtain ⟨rfl, he⟩ := List.append_inj' hes rfl
      cases he
      simp only [List.mem_append, List.mem_singleton, not_or] at hdrop
      exact .inl ⟨⟨e', after, rfl, hhands, hdrop.1⟩, fun he => hdrop.2 he.symm⟩
  · rintro (⟨⟨e', after, rfl, hhands, hdrop⟩, hne⟩ | ⟨rfl, hhands⟩)
    · refine ⟨e', after ++ [e], by simp, hhands, ?_⟩
      simp only [List.mem_append, List.mem_singleton, not_or]
      exact ⟨hdrop, fun he => hne he.symm⟩
    · exact ⟨e, [], rfl, hhands, by simp⟩

theorem init_listeners (setup : Setup) : (init setup).listeners = ∅ := by
  unfold init addPeer
  dsimp only
  split
  · split_ifs <;> rfl
  · rfl

/-- The open claims are those of the live listeners. -/
theorem live_iff (es : List Event) : (∃ before, Live π setup es before udp port id) ↔
    (run π (init setup) es).Holds udp port id := by
  induction es using List.reverseRecOn with
  | nil =>
    refine iff_of_false ?_ ?_
    · rintro ⟨before, hlive⟩
      exact not_live_nil hlive
    · simp [Holds, init_listeners]
  | append_singleton es e ih =>
    rw [run, Transition.run_append, Transition.run_cons, Transition.run_nil,
      holds_step (run_wired setup es), ← ih]
    constructor
    · rintro ⟨before, hlive⟩
      obtain ⟨hlive, hne⟩ | ⟨-, hhands⟩ := live_concat.1 hlive
      · exact .inl ⟨⟨before, hlive⟩, hne⟩
      · exact .inr hhands
    · rintro (⟨⟨before, hlive⟩, hne⟩ | hhands)
      · exact ⟨before, live_concat.2 (.inl ⟨hlive, hne⟩)⟩
      · exact ⟨es, live_concat.2 (.inr ⟨rfl, hhands⟩)⟩

/-- A port has one live listener at most. -/
theorem Live.unique {es before before' : List Event} {id' : ℕ}
    (h : Live π setup es before udp port id) (h' : Live π setup es before' udp port id') :
    before = before' := by
  induction es using List.reverseRecOn with
  | nil => exact (not_live_nil h).elim
  | append_singleton es e ih =>
    have hfree : ∀ {before : List Event} {id id' : ℕ}, Live π setup es before udp port id →
        ¬HandsOut π (run π (init setup) es) e udp port id' := by
      rintro before id id' hlive ⟨asked, result, -, hlistens, -⟩
      exact (listensWith_iff.1 hlistens).2.2.2 ⟨id, (live_iff es).1 ⟨before, hlive⟩⟩
    obtain ⟨h, -⟩ | ⟨rfl, hhands⟩ := live_concat.1 h
    · obtain ⟨h', -⟩ | ⟨rfl, hhands'⟩ := live_concat.1 h'
      · exact ih h h'
      · exact (hfree h hhands').elim
    · obtain ⟨h', -⟩ | ⟨rfl, -⟩ := live_concat.1 h'
      · exact (hfree h' hhands).elim
      · rfl

/-! ### Which port -/

theorem chosenPort_of_ne (h : asked ≠ 0) : a.chosenPort udp asked = asked := if_neg h

/-- What is chosen for port 0 is the first free port from 49152 on. -/
theorem chosenPort_zero (a : Actor) (udp : Bool) : (a.chosenPort udp 0 = 0 ∧
      ∀ port : Port, 49152 ≤ port.toNat → (udp, port) ∈ a.listeners) ∨
    (49152 ≤ (a.chosenPort udp 0).toNat ∧ (udp, a.chosenPort udp 0) ∉ a.listeners) := by
  have hchosen : a.chosenPort udp 0 =
      ((portsFrom 49152).find? fun p => (udp, p) ∉ a.listeners).getD 0 := if_pos rfl
  rw [hchosen]
  cases hfind : (portsFrom 49152).find? fun p => (udp, p) ∉ a.listeners with
  | none =>
    refine .inl ⟨rfl, fun port hport => ?_⟩
    have hused := List.find?_eq_none.1 hfind port (mem_portsFrom.2 hport)
    simpa using hused
  | some port =>
    have hfree := List.find?_some hfind
    exact .inr ⟨mem_portsFrom.1 (List.mem_of_find?_eq_some hfind), by simpa using hfree⟩

/-- Port 0 asks for any free port from 49152 on. -/
theorem listensWith_zero_iff : (∃ id port, ListensWith π a udp 0 result id port) ↔
    ∃ port : Port, 49152 ≤ port.toNat ∧ ¬∃ id, a.Holds udp port id := by
  obtain ⟨hnone, hall⟩ | ⟨hrange, hfree⟩ := chosenPort_zero a.purgeListeners udp
  · refine iff_of_false ?_ ?_
    · rintro ⟨id, port, hlistens⟩
      obtain ⟨-, hport, hne, -⟩ := listensWith_iff.1 hlistens
      exact hne (hport.trans hnone)
    · rintro ⟨port, hport, hfree⟩
      exact hfree (mem_purge.1 (hall port hport))
  · have hfree' := fun hheld => hfree (mem_purge.2 hheld)
    refine iff_of_true ⟨a.listenersIssued, _, listensWith_iff.2 ⟨rfl, rfl, ?_, hfree'⟩⟩
      ⟨_, hrange, hfree'⟩
    intro hzero
    rw [hzero] at hrange
    exact absurd hrange (by decide)

theorem range_of_listensWith_zero (h : ListensWith π a udp 0 result id port) :
    49152 ≤ port.toNat := by
  obtain ⟨-, hport, hne, -⟩ := listensWith_iff.1 h
  obtain ⟨hnone, -⟩ | ⟨hrange, -⟩ := chosenPort_zero a.purgeListeners udp
  · exact absurd (hport.trans hnone) hne
  · rw [hport]
    exact hrange

theorem Live.port_ne {es before : List Event} (h : Live π setup es before udp port id) :
    port ≠ 0 := by
  obtain ⟨e, after, -, ⟨asked, result, -, hlistens, -⟩, -⟩ := h
  exact (listensWith_iff.1 hlistens).2.2.1

end Tailcat.Runtime.Actor
