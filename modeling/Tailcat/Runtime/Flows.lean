import Tailcat.Runtime.Trace
import Tailcat.Runtime.Bounds

/-!
# Datagram streams and the table of flows

The key of a flow is used again after the flow is gone, while handles and queued commands of the old
one still exist.  A stream whose token is not cancelled owns the entry of its key (`FlowsOwned`), and
no entry of such a stream is replaced; so a stale handle has no effect (`run_inert`).

A stream is named by a number that is never given again (`StreamId`), while the key of its flow is
the pair of addresses.  A function either keeps the streams and their entries (`Keeps`) or opens one
new flow (`Opens`), and every function of the actor is shown to do one or the other.  So a stream
that has lost its entry never gets it back.

A stale handle may still be sent on, received from and dropped, and its queued datagrams may still
be on their way to the actor.  Each of these is an event, and the result covers them one by one.
-/

namespace Tailcat.Runtime.Actor

open Net

variable {π : Platform} {Q : Actor → PollAction → Prop} {s a b : Actor} {e : Event}

/-! ### Ownership -/

/-- The stream owns the current entry of its key. -/
def Owns (a : Actor) (id : StreamId) : Prop :=
  ∃ st touched, a.streams[id]? = some st ∧ a.udpFlows.lookup st.flow = some ⟨id, touched⟩

/-- Entries belong to streams of their key, and open streams own their entries. -/
structure FlowsOwned (a : Actor) : Prop where
  entry : ∀ flow f, a.udpFlows.lookup flow = some f →
    ∃ st, a.streams[f.stream]? = some st ∧ st.flow = flow
  owner : ∀ id st, a.streams[id]? = some st → st.cancelled = false → a.Owns id

/-- A change that opens no flow: it may remove entries of cancelled streams, and puts datagrams only
into the queues of owners.  In most events no stream is cancelled. -/
structure Keeps (e : Event) (a b : Actor) : Prop where
  length : b.streams.length = a.streams.length
  stream : ∀ id st, a.streams[id]? = some st → ∃ st', b.streams[id]? = some st' ∧
    st'.flow = st.flow ∧ (st'.cancelled = false → st.cancelled = false) ∧
    (a.Owns id ∨ st'.queue <:+ st.queue)
  calm : OpensFlows e → ∀ id, b.isCancelled id = a.isCancelled id
  entry : ∀ flow f, b.udpFlows.lookup flow = some f →
    ∃ touched, a.udpFlows.lookup flow = some ⟨f.stream, touched⟩
  kept : ∀ flow f, a.udpFlows.lookup flow = some f → b.isCancelled f.stream = true ∨
    ∃ touched, b.udpFlows.lookup flow = some ⟨f.stream, touched⟩

/-- A change that opens a flow whose key has no entry. -/
structure Opens (a b : Actor) (new : Stream) : Prop where
  unused : new.flow ∉ a.udpFlows
  streams : b.streams = a.streams ++ [new]
  udpFlows : b.udpFlows = a.udpFlows.insert new.flow ⟨a.streams.length, a.now⟩

/-! ### What each change does to the flows -/

theorem keeps_of_eq (hstreams : b.streams = a.streams) (hflows : b.udpFlows = a.udpFlows) :
    Keeps e a b where
  length := by rw [hstreams]
  stream id st hst := ⟨st, hstreams ▸ hst, rfl, fun h => h, .inr (List.suffix_refl _)⟩
  calm _ id := by rw [isCancelled, isCancelled, hstreams]
  entry flow f hf := ⟨f.touched, hflows ▸ hf⟩
  kept flow f hf := .inr ⟨f.touched, hflows ▸ hf⟩

theorem isCancelled_modify {id : StreamId} {f : Stream → Stream}
    (hb : b.streams = a.streams.modify id f) (hf : ∀ st, (f st).cancelled = st.cancelled)
    (i : StreamId) : b.isCancelled i = a.isCancelled i := by
  unfold isCancelled
  rw [hb, List.getElem?_modify]
  split_ifs
  · cases a.streams[i]? with
    | none => rfl
    | some st => exact hf st
  · simp

/-- Entries keep their streams when one is touched. -/
theorem lookup_touch {flow flow' : UdpFlowKey} {f : UdpFlow} {now : ℕ} (t : Table UdpFlowKey UdpFlow)
    (h : (t.adjust flow fun f => { f with touched := now }).lookup flow' = some f) :
    ∃ touched, t.lookup flow' = some ⟨f.stream, touched⟩ := by
  rw [Table.lookup_adjust] at h
  split_ifs at h
  · obtain ⟨f', hf', rfl⟩ := Option.map_eq_some_iff.1 h
    exact ⟨f'.touched, hf'⟩
  · exact ⟨f.touched, h⟩

theorem touch_lookup {flow flow' : UdpFlowKey} {f : UdpFlow} {now : ℕ} (t : Table UdpFlowKey UdpFlow)
    (h : t.lookup flow' = some f) :
    ∃ touched, (t.adjust flow fun f => { f with touched := now }).lookup flow' =
      some ⟨f.stream, touched⟩ := by
  rw [Table.lookup_adjust]
  split_ifs
  · rw [h]
    exact ⟨now, rfl⟩
  · exact ⟨f.touched, h⟩

theorem keeps_dropStream {id : StreamId} (he : e = .dropStream id) (a : Actor) :
    Keeps e a (a.dropStream id) where
  length := List.length_modify _ _ _
  stream i st hst := by
    refine ⟨if id = i then { st with cancelled := true, dropped := true } else st, ?_, ?_, ?_, ?_⟩
    · simp only [dropStream, List.getElem?_modify, hst]
      split_ifs <;> rfl
    · split_ifs <;> rfl
    · split_ifs
      · simp
      · exact fun h => h
    · split_ifs <;> exact .inr (List.suffix_refl _)
  calm hopens := by
    rw [he] at hopens
    exact hopens.elim
  entry flow f hf := ⟨f.touched, hf⟩
  kept flow f hf := .inr ⟨f.touched, hf⟩

theorem keeps_removeCancelled (a : Actor) (flow : UdpFlowKey) : Keeps e a (a.removeCancelled flow) := by
  unfold removeCancelled
  split
  · rename_i state hstate
    split_ifs with hcancelled
    · refine ⟨rfl, fun id st hst => ⟨st, hst, rfl, fun h => h, .inr (List.suffix_refl _)⟩, fun _ _ => rfl,
        ?_, ?_⟩
      · intro flow' f hf
        by_cases hflow : flow' = flow
        · rw [hflow, AList.lookup_erase] at hf
          cases hf
        · rw [AList.lookup_erase_ne hflow] at hf
          exact ⟨f.touched, hf⟩
      · intro flow' f hf
        by_cases hflow : flow' = flow
        · rw [hflow, hstate] at hf
          cases hf
          exact .inl hcancelled
        · refine .inr ⟨f.touched, ?_⟩
          rw [AList.lookup_erase_ne hflow]
          exact hf
    · exact keeps_of_eq rfl rfl
  · exact keeps_of_eq rfl rfl

theorem keeps_touch (a : Actor) (flow : UdpFlowKey) (outgoing : List Bytes) :
    Keeps e a { a with
      udpFlows := a.udpFlows.adjust flow fun f => { f with touched := a.now }
      outgoing } where
  length := rfl
  stream _ st hst := ⟨st, hst, rfl, fun h => h, .inr (List.suffix_refl _)⟩
  calm _ _ := rfl
  entry _ _ hf := lookup_touch a.udpFlows hf
  kept _ _ hf := .inr (touch_lookup a.udpFlows hf)

theorem keeps_udpOutput (a : Actor) (flow : UdpFlowKey) (bytes : Bytes) (id : StreamId) :
    Keeps e a (a.udpOutput π flow bytes id) := by
  unfold udpOutput
  split_ifs
  · exact keeps_of_eq rfl rfl
  · exact keeps_touch a flow _
  · exact keeps_of_eq rfl rfl

theorem keeps_deliver (h : a.FlowsOwned) (flow : UdpFlowKey) (payload : Bytes) :
    Keeps e a (a.deliver flow payload) := by
  unfold deliver
  split
  · exact keeps_of_eq rfl rfl
  · rename_i state hstate
    obtain ⟨owner, howner, hflow⟩ := h.entry flow state hstate
    dsimp only
    rw [howner]
    dsimp only
    split_ifs
    · refine ⟨List.length_modify _ _ _, ?_, ?_, fun flow' f hf => lookup_touch a.udpFlows hf,
        fun flow' f hf => ?_⟩
      · intro id st hst
        simp only [act, List.getElem?_modify, hst]
        split_ifs with hid
        · -- the datagram goes to the owner of the entry
          subst hid
          refine ⟨_, rfl, rfl, fun h => h, .inl ⟨owner, state.touched, howner, ?_⟩⟩
          rw [hflow]
          exact hstate
        · exact ⟨st, rfl, rfl, fun h => h, .inr (List.suffix_refl _)⟩
      · exact fun _ id => isCancelled_modify (a := a)
          (f := fun st => { st with queue := st.queue ++ [payload] }) rfl (fun _ => rfl) id
      · exact .inr (touch_lookup a.udpFlows hf)
    · exact keeps_touch a flow a.outgoing

theorem keeps_recv (a : Actor) (id : StreamId) : Keeps e a { a with
    streams := a.streams.modify id fun st => { st with queue := st.queue.tail } } where
  length := List.length_modify _ _ _
  stream i st hst := by
    refine ⟨if id = i then { st with queue := st.queue.tail } else st, ?_, ?_, ?_, ?_⟩
    · simp only [List.getElem?_modify, hst]
      split_ifs <;> rfl
    · split_ifs <;> rfl
    · split_ifs <;> exact fun h => h
    · split_ifs
      · exact .inr (List.tail_suffix _)
      · exact .inr (List.suffix_refl _)
  calm _ i := isCancelled_modify (a := a) (f := fun st => { st with queue := st.queue.tail }) rfl
    (fun _ => rfl) i
  entry flow f hf := ⟨f.touched, hf⟩
  kept flow f hf := .inr ⟨f.touched, hf⟩

/-! ### Expiry -/

theorem streams_cancel (a : Actor) (id i : StreamId) : (a.cancel id).streams[i]? =
    (a.streams[i]?).map fun st => if id = i then { st with cancelled := true } else st := by
  simp only [cancel, List.getElem?_modify]
  split_ifs <;> simp

theorem streams_cancelAll {α : Type} (f : α → StreamId) (l : List α) (a : Actor) (i : StreamId) :
    (l.foldl (fun (a : Actor) x => a.cancel (f x)) a).streams[i]? =
      (a.streams[i]?).map fun st => if i ∈ l.map f then { st with cancelled := true } else st := by
  induction l generalizing a with
  | nil => simp
  | cons x l ih =>
    rw [List.foldl_cons, ih, streams_cancel, Option.map_map]
    refine congrArg (fun g => Option.map g a.streams[i]?) (funext fun st => ?_)
    simp only [Function.comp_apply, List.map_cons, List.mem_cons]
    by_cases hx : f x = i
    · simp [hx]
    · simp [hx, Ne.symm hx]

/-- The streams whose entries do not stay. -/
def expiring (a : Actor) : List StreamId :=
  (a.udpFlows.entries.filter fun e => !a.staysOpen e.2).map (·.2.stream)

theorem streams_expireUdp (a : Actor) (i : StreamId) : a.expireUdp.streams[i]? =
    (a.streams[i]?).map fun st => if i ∈ a.expiring then { st with cancelled := true } else st :=
  streams_cancelAll (fun x : Sigma fun _ : UdpFlowKey => UdpFlow => x.2.stream) _ a i

theorem keeps_expireUdp (h : a.FlowsOwned) {first second : List PollAction}
    (he : e = .tick first second) : Keeps e a a.expireUdp where
  length := by
    have hlen : ∀ (l : List (Sigma fun _ : UdpFlowKey => UdpFlow)) (b : Actor),
        (l.foldl (fun (a : Actor) x => a.cancel x.2.stream) b).streams.length = b.streams.length := by
      intro l
      induction l with
      | nil => exact fun _ => rfl
      | cons x l ih => exact fun b => (ih _).trans (List.length_modify _ _ _)
    exact hlen _ a
  stream i st hst := by
    rw [streams_expireUdp, hst]
    refine ⟨_, rfl, ?_, ?_, ?_⟩
    · split_ifs <;> rfl
    · split_ifs
      · simp
      · exact fun h => h
    · split_ifs <;> exact .inr (List.suffix_refl _)
  calm hopens := by
    rw [he] at hopens
    exact hopens.elim
  entry flow f hf := by
    have hlookup : (a.udpFlows.retain fun _ f => a.staysOpen f).lookup flow = some f := hf
    rw [Table.lookup_retain] at hlookup
    exact ⟨f.touched, (Option.filter_eq_some_iff.1 hlookup).1⟩
  kept flow f hf := by
    by_cases hopen : a.staysOpen f = true
    · refine .inr ⟨f.touched, ?_⟩
      show (a.udpFlows.retain fun _ f => a.staysOpen f).lookup flow = _
      rw [Table.lookup_retain, hf]
      exact Option.filter_eq_some_iff.2 ⟨rfl, hopen⟩
    · -- an entry that does not stay cancels its stream when it is dropped
      left
      obtain ⟨st, hst, -⟩ := h.entry flow f hf
      have hgone : f.stream ∈ a.expiring :=
        List.mem_map.2 ⟨⟨flow, f⟩, List.mem_filter.2 ⟨AList.mem_lookup_iff.1 hf, by simpa using hopen⟩,
          rfl⟩
      rw [isCancelled, streams_expireUdp, hst, Option.map_some, if_pos hgone]
      rfl

/-! ### New flows -/

theorem opens_newUdpFlow {flow : UdpFlowKey} (h : flow ∉ a.udpFlows) :
    Opens a (a.newUdpFlow flow).2 { flow } := by
  have hnone : a.udpFlows.lookup flow = none := AList.lookup_eq_none.2 h
  refine ⟨h, ?_, udpFlows_newUdpFlow a flow⟩
  unfold newUdpFlow
  rw [hnone]

theorem modify_concat (l : List Stream) (st : Stream) (f : Stream → Stream) :
    (l ++ [st]).modify l.length f = l ++ [f st] := by
  refine List.ext_getElem? fun i => ?_
  rw [List.getElem?_modify]
  rcases Nat.lt_trichotomy i l.length with hi | rfl | hi
  · simp [List.getElem?_append_left hi, Nat.ne_of_gt hi]
  · simp
  · obtain ⟨k, rfl⟩ := Nat.exists_eq_add_of_lt hi
    simp [Nat.add_assoc]

theorem opens_lostUdpFlow {flow : UdpFlowKey} (h : flow ∉ a.udpFlows) :
    Opens a ((a.newUdpFlow flow).2.dropStream (a.newUdpFlow flow).1)
      { flow, cancelled := true, dropped := true } := by
  have hopens := opens_newUdpFlow h
  refine ⟨h, ?_, hopens.udpFlows⟩
  show (a.newUdpFlow flow).2.streams.modify a.streams.length _ = _
  rw [hopens.streams, modify_concat]

/-- Each change keeps the flows or opens one. -/
theorem Small.flows (h : Small π Q s e a b) (hI : a.FlowsOwned) :
    Keeps e a b ∨ OpensFlows e ∧ ∃ new, Opens a b new := by
  cases h with
  | sends h => rw [h.eq]; exact .inl (keeps_of_eq rfl rfl)
  | repeatPings h => rw [h.eq]; exact .inl (keeps_of_eq rfl rfl)
  | newUdpFlow he hnew => exact .inr ⟨he, _, opens_newUdpFlow hnew⟩
  | lostUdpFlow he hnew => exact .inr ⟨he, _, opens_lostUdpFlow hnew⟩
  | dropStream he => exact .inl (keeps_dropStream he _)
  | removeCancelled => exact .inl (keeps_removeCancelled _ _)
  | deliver => exact .inl (keeps_deliver hI _ _)
  | udpOutput => exact .inl (keeps_udpOutput _ _ _ _)
  | expireUdp he => exact .inl (keeps_expireUdp hI he)
  | recv => exact .inl (keeps_recv _ _)
  | poll => rw [pollAction_eq]; exact .inl (keeps_of_eq rfl rfl)
  | pollLink => exact .inl (keeps_of_eq rfl rfl)
  | removeLink hc => rw [removeLink_of_connAt hc]; exact .inl (keeps_of_eq rfl rfl)
  | _ => exact .inl (keeps_of_eq rfl rfl)

/-! ### Ownership is kept -/

theorem Keeps.owns (h : Keeps e a b) {id : StreamId} (hb : b.Owns id) : a.Owns id := by
  obtain ⟨st', touched, hst', hlookup⟩ := hb
  have hlt : id < a.streams.length := h.length ▸ (List.getElem?_eq_some_iff.1 hst').1
  obtain ⟨st'', hst'', hflow, -⟩ := h.stream id _ (List.getElem?_eq_getElem hlt)
  obtain rfl : st' = st'' := Option.some.inj (hst'.symm.trans hst'')
  obtain ⟨touched', hlookup'⟩ := h.entry _ _ hlookup
  exact ⟨_, touched', List.getElem?_eq_getElem hlt, hflow ▸ hlookup'⟩

theorem Keeps.flowsOwned (h : Keeps e a b) (hI : a.FlowsOwned) : b.FlowsOwned where
  entry flow f hf := by
    obtain ⟨touched, hlookup⟩ := h.entry flow f hf
    obtain ⟨st, hst, hflow⟩ := hI.entry flow _ hlookup
    obtain ⟨st', hst', hflow', -⟩ := h.stream _ st hst
    exact ⟨st', hst', hflow'.trans hflow⟩
  owner id st' hst' hopen := by
    have hlt : id < a.streams.length := h.length ▸ (List.getElem?_eq_some_iff.1 hst').1
    obtain ⟨st'', hst'', hflow, hcancelled, -⟩ := h.stream id _ (List.getElem?_eq_getElem hlt)
    obtain rfl : st' = st'' := Option.some.inj (hst'.symm.trans hst'')
    obtain ⟨st, touched, hst, hlookup⟩ :=
      hI.owner id _ (List.getElem?_eq_getElem hlt) (hcancelled hopen)
    obtain rfl := Option.some.inj ((List.getElem?_eq_getElem hlt).symm.trans hst)
    rcases h.kept _ _ hlookup with hgone | ⟨touched', hlookup'⟩
    · rw [isCancelled, hst'] at hgone
      exact absurd hgone (by simp [hopen])
    · exact ⟨st', touched', hst', hflow ▸ hlookup'⟩

theorem Opens.lookup {new : Stream} (h : Opens a b new) (flow : UdpFlowKey) :
    b.udpFlows.lookup flow =
      if flow = new.flow then some ⟨a.streams.length, a.now⟩ else a.udpFlows.lookup flow := by
  rw [h.udpFlows]
  split_ifs with hflow
  · rw [hflow, AList.lookup_insert]
  · rw [AList.lookup_insert_ne hflow]

theorem Opens.stream {new : Stream} (h : Opens a b new) {id : StreamId} {st : Stream}
    (hst : a.streams[id]? = some st) : b.streams[id]? = some st := by
  rw [h.streams, List.getElem?_append_left (List.getElem?_eq_some_iff.1 hst).1]
  exact hst

theorem Opens.flowsOwned {new : Stream} (h : Opens a b new) (hI : a.FlowsOwned) :
    b.FlowsOwned where
  entry flow f hf := by
    rw [h.lookup] at hf
    split_ifs at hf with hflow
    · cases hf
      exact ⟨new, by simp [h.streams], hflow.symm⟩
    · obtain ⟨st, hst, hflow'⟩ := hI.entry flow f hf
      exact ⟨st, h.stream hst, hflow'⟩
  owner id st hst hopen := by
    rw [h.streams] at hst
    rcases Nat.lt_or_ge id a.streams.length with hlt | hge
    · rw [List.getElem?_append_left hlt] at hst
      obtain ⟨st', touched, hst', hlookup⟩ := hI.owner id st hst hopen
      obtain rfl := Option.some.inj (hst.symm.trans hst')
      refine ⟨st, touched, h.stream hst, ?_⟩
      rw [h.lookup, if_neg]
      · exact hlookup
      · intro hflow
        exact h.unused (hflow ▸ AList.lookup_isSome.1 (by rw [hlookup]; rfl))
    · rw [List.getElem?_append_right hge] at hst
      rw [List.getElem?_singleton] at hst
      split_ifs at hst with hzero
      cases hst
      obtain rfl : id = a.streams.length := Nat.le_antisymm (Nat.sub_eq_zero_iff_le.1 hzero) hge
      exact ⟨new, a.now, by simp [h.streams], by rw [h.lookup, if_pos rfl]⟩

theorem Small.flowsOwned (h : Small π Q s e a b) (hI : a.FlowsOwned) : b.FlowsOwned := by
  rcases h.flows hI with hkeeps | ⟨-, new, hopens⟩
  · exact hkeeps.flowsOwned hI
  · exact hopens.flowsOwned hI

theorem Changes.flowsOwned (h : Changes π Q s e a b) (hI : a.FlowsOwned) : b.FlowsOwned :=
  h.preserves (fun _ _ hstep => hstep.flowsOwned) hI

theorem init_flowsOwned (setup : Setup) : (init setup).FlowsOwned := by
  have hempty : ∀ b : Actor, b.streams = [] → b.udpFlows = ∅ → b.FlowsOwned := by
    intro b hstreams hflows
    refine ⟨?_, ?_⟩
    · intro flow f hf
      rw [hflows] at hf
      cases hf
    · intro id st hst
      rw [hstreams] at hst
      cases hst
  unfold init addPeer
  dsimp only
  split
  · split_ifs <;> exact hempty _ rfl rfl
  · exact hempty _ rfl rfl

/-! ### Stale handles -/

/-- A stream that owns no entry, with the datagrams it may still read. -/
structure Stale (a : Actor) (id : StreamId) (queue : List Bytes) : Prop where
  unowned : ¬a.Owns id
  stream : ∃ st, a.streams[id]? = some st ∧ st.queue <:+ queue

theorem Small.stale (h : Small π Q s e a b) (hI : a.FlowsOwned) {id : StreamId}
    {queue : List Bytes} (hstale : a.Stale id queue) : b.Stale id queue := by
  obtain ⟨hunowned, st, hst, hqueue⟩ := hstale
  rcases h.flows hI with hkeeps | ⟨-, new, hopens⟩
  · obtain ⟨st', hst', -, -, hadded⟩ := hkeeps.stream id st hst
    exact ⟨fun howns => hunowned (hkeeps.owns howns),
      st', hst', (hadded.resolve_left hunowned).trans hqueue⟩
  · refine ⟨?_, st, hopens.stream hst, hqueue⟩
    rintro ⟨st', touched, hst', hlookup⟩
    obtain rfl := Option.some.inj ((hopens.stream hst).symm.trans hst')
    rw [hopens.lookup] at hlookup
    split_ifs at hlookup with hflow
    · -- the new entry belongs to the new stream
      cases hlookup
      exact absurd (List.getElem?_eq_some_iff.1 hst).1 (Nat.lt_irrefl _)
    · exact hunowned ⟨st, touched, hst, hlookup⟩

/-- The entry of a key, if there is one, is a stream's. -/
def EntryIs (a : Actor) (flow : UdpFlowKey) (id : StreamId) : Prop :=
  ∀ f, a.udpFlows.lookup flow = some f → f.stream = id

theorem step_entryIs (hwired : a.Wired) (hI : a.FlowsOwned) (e : Event) {flow : UdpFlowKey}
    {f : UdpFlow} (hf : a.udpFlows.lookup flow = some f) (hopen : a.isCancelled f.stream = false) :
    (step π a e).EntryIs flow f.stream := by
  have hchanges := step_changes (Q := AnyPoll) hwired
    (pollsMeet_of_forall (π := π) (fun _ _ => trivial) a e)
  by_cases he : OpensFlows e
  · -- the entry stays, since nothing cancels its stream
    have hstays : (step π a e).isCancelled f.stream = false ∧
        ∃ touched, (step π a e).udpFlows.lookup flow = some ⟨f.stream, touched⟩ := by
      generalize step π a e = b at hchanges ⊢
      induction hchanges with
      | refl => exact ⟨hopen, f.touched, hf⟩
      | @tail b c hbefore hstep ih =>
        obtain ⟨hopen, touched, hlookup⟩ := ih
        rcases hstep.flows (Changes.flowsOwned hbefore hI) with hkeeps | ⟨-, new, hopens⟩
        · have hopen' : c.isCancelled f.stream = false := (hkeeps.calm he _).trans hopen
          rcases hkeeps.kept _ _ hlookup with hgone | hkept
          · rw [hopen'] at hgone
            cases hgone
          · exact ⟨hopen', hkept⟩
        · obtain ⟨st, hst, -⟩ := (Changes.flowsOwned hbefore hI).entry _ _ hlookup
          refine ⟨?_, touched, ?_⟩
          · rw [isCancelled, hopens.stream hst, ← hst]
            exact hopen
          · rw [hopens.lookup, if_neg]
            · exact hlookup
            · rintro rfl
              exact hopens.unused (AList.lookup_isSome.1 (by rw [hlookup]; rfl))
    obtain ⟨-, touched, hlookup⟩ := hstays
    intro f' hf'
    rw [hlookup] at hf'
    cases hf'
    rfl
  · -- no entry is made
    generalize step π a e = b at hchanges ⊢
    induction hchanges with
    | refl =>
      intro f' hf'
      rw [hf] at hf'
      cases hf'
      rfl
    | @tail b c hbefore hstep ih =>
      intro f' hf'
      rcases hstep.flows (Changes.flowsOwned hbefore hI) with hkeeps | ⟨hopens, -⟩
      · obtain ⟨touched, hlookup⟩ := hkeeps.entry _ _ hf'
        exact ih ⟨f'.stream, touched⟩ hlookup
      · exact absurd hopens he

/-! ### Deliveries -/

/-- What a stream has received came in datagrams of its own flow. -/
def DeliveredRight (π : Platform) (a : Actor) (id : StreamId) (payload : Bytes) : Prop :=
  ∃ st, a.streams[id]? = some st ∧ a.ReceivedUdp π st.flow payload

theorem Small.receivedUdp (h : Small π Q s e a b) {flow : UdpFlowKey} {payload : Bytes}
    (hreceived : a.ReceivedUdp π flow payload) : b.ReceivedUdp π flow payload := by
  obtain ⟨key, packet, ip, repr, hmem, hrest⟩ := hreceived
  exact ⟨key, packet, ip, repr, h.trace_prefix.subset hmem, hrest⟩

theorem Small.deliveredRight (h : Small π Q s e a b) (hI : a.FlowsOwned) {id : StreamId}
    {payload : Bytes} (hd : DeliveredRight π a id payload) : DeliveredRight π b id payload := by
  obtain ⟨st, hst, hreceived⟩ := hd
  rcases h.flows hI with hkeeps | ⟨-, new, hopens⟩
  · obtain ⟨st', hst', hflow, -⟩ := hkeeps.stream id st hst
    exact ⟨st', hst', hflow ▸ h.receivedUdp hreceived⟩
  · exact ⟨st, hopens.stream hst, h.receivedUdp hreceived⟩

theorem run_flowsOwned (setup : Setup) (es : List Event) : (run π (init setup) es).FlowsOwned :=
  run_invariant (init_flowsOwned setup) (fun _ _ _ _ h => h.flowsOwned) es

theorem run_deliveredRight (setup : Setup) (es : List Event) {id : StreamId} {payload : Bytes}
    (h : .deliver id payload ∈ (run π (init setup) es).trace) :
    DeliveredRight π (run π (init setup) es) id payload := by
  let I (a : Actor) : Prop := a.FlowsOwned ∧ ∀ id payload, .deliver id payload ∈ a.trace →
    DeliveredRight π a id payload
  have hI : I (run π (init setup) es) := by
    refine run_invariant (I := I) ⟨init_flowsOwned setup, ?_⟩ ?_ es
    · intro id payload hmem
      rw [init_trace] at hmem
      cases hmem
    · rintro s e a b hstep ⟨hflows, ha⟩
      refine ⟨hstep.flowsOwned hflows, fun id payload hmem => ?_⟩
      rcases hstep.mem_trace hmem with hold | horigin
      · exact hstep.deliveredRight hflows (ha id payload hold)
      · refine hstep.deliveredRight hflows ?_
        cases horigin with
        | send h => exact h.elim
        | act h => exact h.elim
        | link _ _ h => exact h.elim
        | deliver h =>
          obtain ⟨flow, touched, hlookup, hreceived⟩ := h.delivered
          obtain ⟨st, hst, rfl⟩ := hflows.entry _ _ hlookup
          exact ⟨st, hst, hreceived⟩
  exact hI.2 id payload h

/-! ### Inert handles -/

/-- Handles of streams that do not own their entry have no effect. -/
structure Inert (π : Platform) (a : Actor) : Prop where
  /-- A command to send emits a packet only for the owner of the entry. -/
  send : ∀ id bytes result,
    (step π a (.command (.sendUdp id bytes result))).outgoing = a.outgoing ∨ a.Owns id
  /-- Datagrams reach streams of their own flow only. -/
  deliver : ∀ id payload, .deliver id payload ∈ a.trace → DeliveredRight π a id payload
  /-- A stream that owns no entry gets nothing more, and never owns one again. -/
  stale : ∀ e id st, a.streams[id]? = some st → ¬a.Owns id → (step π a e).Stale id st.queue
  /-- An entry whose stream is open is not replaced. -/
  replace : ∀ e flow f, a.udpFlows.lookup flow = some f → a.isCancelled f.stream = false →
    (step π a e).EntryIs flow f.stream
  size : a.udpFlows.size ≤ maxConnections

theorem outgoing_sendUdp (h : a.FlowsOwned) (id : StreamId) (bytes : Bytes) (result : ReplyId) :
    (step π a (.command (.sendUdp id bytes result))).outgoing = a.outgoing ∨ a.Owns id := by
  simp only [step, command]
  split
  · rename_i st hst
    simp only [answer, act, udpOutput]
    by_cases hcancelled : a.isCancelled id = true
    · rw [if_pos hcancelled]
      exact .inl rfl
    · refine .inr (h.owner id st hst ?_)
      rw [isCancelled, hst] at hcancelled
      simpa using hcancelled
  · exact .inl rfl

/-- **Stale handles of datagram streams are inert** in every state a run reaches. -/
theorem run_inert (π : Platform) (setup : Setup) (es : List Event) :
    Inert π (run π (init setup) es) := by
  have hflows := run_flowsOwned (π := π) setup es
  have hwired := run_wired (π := π) setup es
  refine ⟨fun id bytes result => outgoing_sendUdp hflows id bytes result,
    fun id payload h => run_deliveredRight setup es h, ?_, ?_, ?_⟩
  · intro e id st hst hunowned
    refine (step_changes (Q := AnyPoll) hwired (pollsMeet_of_forall (fun _ _ => trivial) _ e)).preserves
      (I := fun b => b.FlowsOwned ∧ b.Stale id st.queue) ?_ ⟨hflows, hunowned, st, hst, ?_⟩ |>.2
    · exact fun _ _ hstep ⟨hI, hstale⟩ => ⟨hstep.flowsOwned hI, hstep.stale hI hstale⟩
    · exact List.suffix_refl _
  · exact fun e flow f hf hopen => step_entryIs hwired hflows e hf hopen
  · exact (run_bounded π setup es).1.udpFlows

end Tailcat.Runtime.Actor
