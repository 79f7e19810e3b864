import Tailcat.Runtime.Changes

/-!
# Links, sockets and pipes

Every link has a socket and a pipe of its own (`Wired`).  So the round of one link leaves the
connections of the others alone, and what `pollLinks` does is a sequence of rounds and of removals of
connections that are over (`pollLinks_changes`).

The program keeps links in a vector, sockets in a set of slots and pipes behind two ends, and
`pollLinks` goes over the vector from the end, removing as it goes.  The invariant is that no two
links share a socket or a pipe and that every link has both.  From it follows that a round writes
back to its own places (`connAt_putConn`) and that a removal moves only links that were polled
already (`connAt_removeLink_lt`).

`Goes` collects what a round does to its connection: the flow stays, the socket keeps its tuple, and
what is recorded is of this link.  Opening a connection takes a free slot and a new pipe, so it
keeps the invariant too (`Wired.openLink`).
-/

namespace Tailcat.Runtime

/-! ### A round of one connection -/

/-- Handing a connection over and refusing it is all that a round does for others. -/
def Act.OfLink : Act → Prop
  | .answer .. | .serve .. => True
  | _ => False

namespace Conn

/-- What holds of every part of a round. -/
structure Goes (c c' : Conn) : Prop where
  handle : c'.link.socket = c.link.socket
  flow : c'.link.flow = c.link.flow
  pipe : c'.link.pipe = c.link.pipe
  /-- A handler is taken, never set. -/
  handler : ∀ h, c'.link.handler = some h → c.link.handler = some h
  /-- The program never opens a socket again, and never makes one listen. -/
  closed : c.socket.state = .closed → c'.socket.state = .closed
  listen : c.socket.state = .listen → c'.socket.state = .listen ∨ c'.socket.state = .closed
  tuple : c'.socket.tuple = c.socket.tuple
  acts : ∃ new, c'.acts = c.acts ++ new ∧ ∀ x ∈ new, x.OfLink

namespace Goes

variable {c c' c'' : Conn}

theorem refl (c : Conn) : Goes c c :=
  ⟨rfl, rfl, rfl, fun _ h => h, id, .inl, rfl, [], by simp, by simp⟩

theorem trans (h : Goes c c') (h' : Goes c' c'') : Goes c c'' := by
  obtain ⟨new, hnew, hof⟩ := h.acts
  obtain ⟨new', hnew', hof'⟩ := h'.acts
  refine ⟨h'.handle.trans h.handle, h'.flow.trans h.flow, h'.pipe.trans h.pipe,
    fun x hx => h.handler x (h'.handler x hx), h'.closed ∘ h.closed, ?_, h'.tuple.trans h.tuple,
    new ++ new', by rw [hnew', hnew, List.append_assoc], ?_⟩
  · intro hlisten
    rcases h.listen hlisten with hlisten' | hclosed
    · exact h'.listen hlisten'
    · exact .inr (h'.closed hclosed)
  · intro x hx
    exact (List.mem_append.1 hx).elim (hof x) (hof' x)

/-- A part of a round that only moves bytes or closes the socket. -/
theorem quiet (hhandle : c'.link.socket = c.link.socket) (hflow : c'.link.flow = c.link.flow)
    (hpipe : c'.link.pipe = c.link.pipe) (hhandler : c'.link.handler = c.link.handler)
    (hstate : c'.socket.state = c.socket.state ∨ c'.socket.state = .closed ∨
      c'.socket = c.socket.close)
    (htuple : c'.socket.tuple = c.socket.tuple) (hacts : c'.acts = c.acts) : Goes c c' := by
  refine ⟨hhandle, hflow, hpipe, fun h hh => hhandler ▸ hh, ?_, ?_, htuple,
    [], by rw [hacts, List.append_nil], by simp⟩
  · intro hclosed
    rcases hstate with h | h | h
    · exact h.trans hclosed
    · exact h
    · rw [h, Socket.close, hclosed]
      exact hclosed
  · intro hlisten
    rcases hstate with h | h | h
    · exact .inl (h.trans hlisten)
    · exact .inr h
    · rw [h, Socket.close, hlisten]
      exact .inr rfl

end Goes

theorem tuple_close (s : Socket) : s.close.tuple = s.tuple := by
  unfold Socket.close
  split <;> rfl

variable (w : Surroundings)

theorem handOver_goes (c : Conn) : Goes c (c.handOver w) := by
  unfold handOver
  split_ifs with hready
  · dsimp only
    split
    · split_ifs
      · exact .quiet rfl rfl rfl rfl (.inr (.inl rfl)) rfl rfl
      · exact ⟨rfl, rfl, rfl, fun _ h => h, id, .inl, rfl, _, rfl, by simp [Act.OfLink]⟩
    · exact ⟨rfl, rfl, rfl, fun _ h => (nomatch h), id, .inl, rfl, _, rfl, by simp [Act.OfLink]⟩
    · exact .quiet rfl rfl rfl rfl (.inl rfl) rfl rfl
  · exact .refl c

theorem giveUp_goes (c : Conn) : Goes c (c.giveUp w) := by
  unfold giveUp
  dsimp only
  split_ifs
  · exact .quiet rfl rfl rfl rfl (.inr (.inl rfl)) rfl rfl
  · exact .quiet rfl rfl rfl rfl (.inr (.inl rfl)) rfl rfl
  · exact .quiet rfl rfl rfl rfl (.inr (.inl rfl)) rfl rfl
  · exact .refl c

theorem upload_goes (c : Conn) : Goes c (c.upload w) := by
  unfold upload
  split_ifs
  · dsimp only
    split
    · exact .quiet rfl rfl rfl rfl (.inr (.inr rfl)) (tuple_close _) rfl
    · exact .quiet rfl rfl rfl rfl (.inl rfl) rfl rfl
    · exact .quiet rfl rfl rfl rfl (.inr (.inl rfl)) rfl rfl
    · exact .quiet rfl rfl rfl rfl (.inl rfl) rfl rfl
  · exact .refl c

theorem download_goes (c : Conn) : Goes c (c.download w) := by
  unfold download
  split_ifs
  · dsimp only
    split <;> exact .quiet rfl rfl rfl rfl (.inl rfl) rfl rfl
  · exact .refl c

theorem finish_goes (c : Conn) : Goes c c.finish := by
  unfold finish
  split_ifs
  · exact .quiet rfl rfl rfl rfl (.inl rfl) rfl rfl
  · exact .refl c

theorem refuse_goes (c : Conn) : Goes c c.refuse := by
  unfold refuse
  split
  · split_ifs
    · exact ⟨rfl, rfl, rfl, fun _ h => h, id, .inl, rfl, _, rfl, by simp [Act.OfLink]⟩
    · exact .refl c
  · exact .refl c

theorem poll_goes (c : Conn) : Goes c (c.poll w) :=
  (((((handOver_goes w c).trans (giveUp_goes w _)).trans (upload_goes w _)).trans
    (download_goes w _)).trans (finish_goes _)).trans (refuse_goes _)

theorem isOver_acts (c : Conn) (acts : List Act) : ({ c with acts } : Conn).isOver = c.isOver := rfl

end Conn

namespace Actor

variable {π : Platform} {Q : Actor → PollAction → Prop} {s a b : Actor} {e : Event}

/-! ### The connection at an index -/

theorem connAt_eq_some {index : ℕ} {c : Conn} : a.connAt index = some c ↔
    a.links[index]? = some c.link ∧ a.sockets.get c.link.socket = some c.socket ∧
      a.pipes[c.link.pipe]? = some c.pipe ∧ c.acts = [] := by
  unfold connAt conn
  constructor
  · intro h
    obtain ⟨link, hlink, h⟩ := Option.bind_eq_some_iff.1 h
    obtain ⟨socket, hsocket, h⟩ := Option.bind_eq_some_iff.1 h
    obtain ⟨pipe, hpipe, h⟩ := Option.bind_eq_some_iff.1 h
    cases h
    exact ⟨hlink, hsocket, hpipe, rfl⟩
  · rintro ⟨hlink, hsocket, hpipe, hacts⟩
    obtain ⟨link, socket, pipe, acts⟩ := c
    obtain rfl : acts = [] := hacts
    simp only at hlink hsocket hpipe
    simp [hlink, hsocket, hpipe]

theorem lt_of_connAt {index : ℕ} {c : Conn} (h : a.connAt index = some c) :
    index < a.links.length :=
  (List.getElem?_eq_some_iff.1 (connAt_eq_some.1 h).1).1

/-- Every link has a socket and a pipe of its own. -/
structure Wired (a : Actor) : Prop where
  handles : (a.links.map (·.socket)).Nodup
  pipes : (a.links.map (·.pipe)).Nodup
  socket : ∀ link ∈ a.links, (a.sockets.get link.socket).isSome
  pipe : ∀ link ∈ a.links, link.pipe < a.pipes.length

namespace Wired

theorem connAt_isSome (h : a.Wired) {index : ℕ} (hindex : index < a.links.length) :
    ∃ c, a.connAt index = some c := by
  have hmem := List.getElem_mem hindex
  obtain ⟨socket, hsocket⟩ := Option.isSome_iff_exists.1 (h.socket _ hmem)
  have hpipe := List.getElem?_eq_getElem (h.pipe _ hmem)
  exact ⟨{ link := _, socket, pipe := _ },
    connAt_eq_some.2 ⟨List.getElem?_eq_getElem hindex, hsocket, hpipe, rfl⟩⟩

/-- Different links have different sockets. -/
theorem handle_ne (h : a.Wired) {i j : ℕ} {l l' : Link} (hl : a.links[i]? = some l)
    (hl' : a.links[j]? = some l') (hij : i ≠ j) : l.socket ≠ l'.socket := by
  intro heq
  have hi : (a.links.map (·.socket))[i]? = some l.socket := by simp [hl]
  have hj : (a.links.map (·.socket))[j]? = some l.socket := by simp [hl', heq]
  exact hij ((List.getElem?_inj (by simpa using (List.getElem?_eq_some_iff.1 hl).1) h.handles).1
    (hi.trans hj.symm))

/-- Different links have different pipes. -/
theorem pipe_ne (h : a.Wired) {i j : ℕ} {l l' : Link} (hl : a.links[i]? = some l)
    (hl' : a.links[j]? = some l') (hij : i ≠ j) : l.pipe ≠ l'.pipe := by
  intro heq
  have hi : (a.links.map (·.pipe))[i]? = some l.pipe := by simp [hl]
  have hj : (a.links.map (·.pipe))[j]? = some l.pipe := by simp [hl', heq]
  exact hij ((List.getElem?_inj (by simpa using (List.getElem?_eq_some_iff.1 hl).1) h.pipes).1
    (hi.trans hj.symm))

end Wired

/-! ### Putting a connection back -/

theorem connAt_putConn {index i : ℕ} {c c' : Conn} (h : a.Wired) (hc : a.connAt index = some c)
    (hgoes : c.Goes c') :
    (a.putConn index c').connAt i =
      if i = index then some { c' with acts := [] } else a.connAt i := by
  obtain ⟨hlink, hsocket, hpipe, -⟩ := connAt_eq_some.1 hc
  have hlt := lt_of_connAt hc
  split_ifs with hi
  · subst hi
    refine connAt_eq_some.2 ⟨?_, ?_, ?_, rfl⟩
    · simp [putConn, hlt]
    · simp [putConn, Slots.get_update, hgoes.handle, hsocket]
    · have := (List.getElem?_eq_some_iff.1 hpipe).1
      simp [putConn, hgoes.pipe, this]
  · have hl : (a.putConn index c').links[i]? = a.links[i]? := List.getElem?_set_ne (Ne.symm hi)
    unfold connAt
    rw [hl]
    refine Option.bind_congr fun link hlink' => ?_
    have hhandle : link.socket ≠ c'.link.socket := hgoes.handle ▸ h.handle_ne hlink' hlink hi
    have hpipe' : c'.link.pipe ≠ link.pipe := hgoes.pipe ▸ (h.pipe_ne hlink' hlink hi).symm
    simp only [conn, putConn, Slots.get_update, if_neg hhandle, List.getElem?_set_ne hpipe']

theorem Wired.putConn {index : ℕ} {c c' : Conn} (h : a.Wired) (hc : a.connAt index = some c)
    (hgoes : c.Goes c') : (a.putConn index c').Wired := by
  obtain ⟨hlink, hsocket, hpipe, -⟩ := connAt_eq_some.1 hc
  have hset : ∀ {β : Type} (f : Link → β), f c'.link = f c.link →
      (a.links.set index c'.link).map f = a.links.map f := by
    intro β f hf
    rw [List.map_set, hf]
    refine List.ext_getElem? fun i => ?_
    rw [List.getElem?_set]
    split_ifs with hi hlt
    · subst hi
      simp [hlink]
    · exact (List.getElem?_eq_none (by omega)).symm
    · rfl
  have hmem : ∀ link ∈ a.links.set index c'.link, link = c'.link ∨ link ∈ a.links :=
    fun link hmem => (List.mem_or_eq_of_mem_set hmem).symm
  refine ⟨?_, ?_, ?_, ?_⟩
  · show ((a.links.set index c'.link).map (·.socket)).Nodup
    rw [hset _ hgoes.handle]
    exact h.handles
  · show ((a.links.set index c'.link).map (·.pipe)).Nodup
    rw [hset _ hgoes.pipe]
    exact h.pipes
  · intro link hl
    simp only [Actor.putConn, Slots.get_update]
    have : (a.sockets.get link.socket).isSome := by
      rcases hmem link hl with rfl | hl
      · rw [hgoes.handle, hsocket]
        rfl
      · exact h.socket link hl
    split_ifs
    · rwa [Option.isSome_map]
    · exact this
  · intro link hl
    simp only [Actor.putConn, List.length_set]
    rcases hmem link hl with rfl | hl
    · rw [hgoes.pipe]
      exact (List.getElem?_eq_some_iff.1 hpipe).1
    · exact h.pipe link hl

/-! ### Removing a connection -/

theorem removeLink_of_connAt {index : ℕ} {c : Conn} (hc : a.connAt index = some c) :
    a.removeLink index = { a with
      links := swapRemove a.links index
      sockets := a.sockets.remove c.link.socket
      pipes := a.pipes.modify c.link.pipe fun p =>
        if c.link.app then p.dropApp.dropLink else p.dropLink
      trace := a.trace ++ [.remove c.link c.socket] } := by
  unfold removeLink
  rw [hc]

theorem connAt_removeLink_lt {index i : ℕ} {c : Conn} (h : a.Wired)
    (hc : a.connAt index = some c) (hi : i < index) :
    (a.removeLink index).connAt i = a.connAt i := by
  obtain ⟨hlink, hsocket, hpipe, -⟩ := connAt_eq_some.1 hc
  rw [removeLink_of_connAt hc]
  have hl := getElem?_swapRemove_lt (lt_of_connAt hc) hi
  unfold connAt
  rw [hl]
  refine Option.bind_congr fun link hlink' => ?_
  have hhandle : link.socket ≠ c.link.socket := h.handle_ne hlink' hlink (Nat.ne_of_lt hi)
  have hpipe' : c.link.pipe ≠ link.pipe := (h.pipe_ne hlink' hlink (Nat.ne_of_lt hi)).symm
  simp only [conn, Slots.get_remove, if_neg hhandle, List.getElem?_modify, if_neg hpipe']
  simp

theorem Wired.removeLink {index : ℕ} {c : Conn} (h : a.Wired) (hc : a.connAt index = some c) :
    (a.removeLink index).Wired := by
  obtain ⟨hlink, -⟩ := connAt_eq_some.1 hc
  have hlt := lt_of_connAt hc
  have hperm := swapRemove_perm hlt
  rw [removeLink_of_connAt hc]
  have hsub := List.eraseIdx_sublist a.links index
  have hother : ∀ link ∈ swapRemove a.links index, link ∈ a.links ∧ link.socket ≠ c.link.socket := by
    intro link hl
    obtain ⟨i, hi, hne, rfl⟩ := List.mem_eraseIdx_iff_getElem.1 (hperm.mem_iff.1 hl)
    exact ⟨List.getElem_mem hi, h.handle_ne (List.getElem?_eq_getElem hi) hlink hne⟩
  refine ⟨?_, ?_, ?_, ?_⟩
  · exact ((hperm.map _).nodup_iff).2 ((hsub.map _).nodup h.handles)
  · exact ((hperm.map _).nodup_iff).2 ((hsub.map _).nodup h.pipes)
  · intro link hl
    obtain ⟨hmem, hne⟩ := hother link hl
    rw [Slots.get_remove, if_neg hne]
    exact h.socket link hmem
  · intro link hl
    simpa using h.pipe link (hother link hl).1

/-! ### Every change keeps the wiring -/

theorem Wired.openLink {socket : Socket} {flow : TcpFlow} {connected : Option ReplyId}
    {handler : Option Handler} (h : a.Wired) :
    (a.openLink socket flow connected handler).Wired := by
  have hnew : ∀ link ∈ a.links, link.socket ≠ a.sockets.free := by
    intro link hl heq
    have hsome := h.socket link hl
    rw [heq, Slots.get_free] at hsome
    cases hsome
  refine ⟨?_, ?_, ?_, ?_⟩
  · simp only [Actor.openLink, Slots.add_fst, List.map_append, List.map_cons, List.map_nil]
    refine List.nodup_append.2 ⟨h.handles, List.nodup_singleton _, ?_⟩
    intro x hx y hy
    obtain ⟨link, hl, rfl⟩ := List.mem_map.1 hx
    rw [List.mem_singleton.1 hy]
    exact hnew link hl
  · simp only [Actor.openLink, List.map_append, List.map_cons, List.map_nil]
    refine List.nodup_append.2 ⟨h.pipes, List.nodup_singleton _, ?_⟩
    intro x hx y hy
    obtain ⟨link, hl, rfl⟩ := List.mem_map.1 hx
    rw [List.mem_singleton.1 hy]
    exact Nat.ne_of_lt (h.pipe link hl)
  · intro link hl
    simp only [Actor.openLink, Slots.get_add]
    split_ifs with heq
    · rfl
    · rcases List.mem_append.1 hl with hl | hl
      · exact h.socket link hl
      · rw [List.mem_singleton.1 hl] at heq
        exact absurd (Slots.add_fst _ _) heq
  · intro link hl
    simp only [Actor.openLink, List.length_append, List.length_singleton]
    rcases List.mem_append.1 hl with hl | hl
    · exact Nat.lt_succ_of_lt (h.pipe link hl)
    · rw [List.mem_singleton.1 hl]
      exact Nat.lt_succ_self _

/-- The wiring depends on the links, the sockets in use and the number of pipes. -/
theorem Wired.congr (h : a.Wired) (hlinks : b.links = a.links)
    (hsockets : ∀ i, (b.sockets.get i).isSome = (a.sockets.get i).isSome)
    (hpipes : b.pipes.length = a.pipes.length) : b.Wired := by
  refine ⟨hlinks ▸ h.handles, hlinks ▸ h.pipes, ?_, ?_⟩
  · rw [hlinks]
    intro link hl
    rw [hsockets]
    exact h.socket link hl
  · rw [hlinks, hpipes]
    exact h.pipe

theorem isSome_get_update (sockets : SocketSet) (i j : ℕ) (f : Socket → Socket) :
    ((sockets.update i f).get j).isSome = (sockets.get j).isSome := by
  rw [Slots.get_update]
  split_ifs
  · exact Option.isSome_map
  · rfl

theorem isSome_get_pollAction (a : Actor) (action : PollAction) (i : ℕ) :
    ((a.pollAction π action).sockets.get i).isSome = (a.sockets.get i).isSome := by
  unfold pollAction
  split
  · exact isSome_get_update _ _ _ _
  · split
    · rfl
    · dsimp only
      split
      · unfold SocketSet.deliver
        dsimp only
        split
        · split_ifs
          · rfl
          · exact isSome_get_update _ _ _ _
        · rfl
      · rfl
  · rfl

theorem Small.wired (h : Small π Q s e a b) (hI : a.Wired) : b.Wired := by
  cases h with
  | sends h => exact hI.congr (by rw [h.eq]) (by rw [h.eq]; exact fun _ => rfl) (by rw [h.eq])
  | repeatPings h =>
    exact hI.congr (by rw [h.eq]) (by rw [h.eq]; exact fun _ => rfl) (by rw [h.eq])
  | newUdpFlow =>
    rw [newUdpFlow_eq]
    exact hI.congr rfl (fun _ => rfl) rfl
  | lostUdpFlow =>
    rw [newUdpFlow_eq]
    exact hI.congr rfl (fun _ => rfl) rfl
  | removeCancelled =>
    rw [removeCancelled_eq]
    exact hI.congr rfl (fun _ => rfl) rfl
  | deliver =>
    rw [deliver_eq]
    exact hI.congr rfl (fun _ => rfl) rfl
  | udpOutput =>
    rw [udpOutput_eq]
    exact hI.congr rfl (fun _ => rfl) rfl
  | expireUdp =>
    rw [expireUdp_eq]
    exact hI.congr rfl (fun _ => rfl) rfl
  | openSyn => exact hI.openLink
  | dialled => exact hI.openLink
  | poll =>
    refine hI.congr ?_ (isSome_get_pollAction a _) ?_
    · rw [pollAction_eq]
    · rw [pollAction_eq]
  | pollLink _ hc => exact hI.putConn hc (Conn.poll_goes _ _)
  | removeLink hc => exact hI.removeLink hc
  | app => exact hI.congr rfl (fun _ => rfl) (List.length_modify _ _ _)
  | _ => exact hI.congr rfl (fun _ => rfl) rfl

theorem Changes.wired (h : Changes π Q s e a b) (hI : a.Wired) : b.Wired :=
  h.preserves (fun _ _ hstep => hstep.wired) hI

/-! ### All rounds -/

/-- What holds after the rounds of the links before an index. -/
structure Rounds (π : Platform) (Q : Actor → PollAction → Prop) (s : Actor) (e : Event) (a : Actor)
    (n : ℕ) (p : List ℕ × Actor) : Prop where
  changes : Changes π Q s e a p.2
  length : p.2.links.length = a.links.length
  sorted : p.1.Pairwise (· < ·)
  ended : ∀ i ∈ p.1, i < n ∧ ∃ c, p.2.connAt i = some c ∧ c.isOver = true

theorem rounds {first second : List PollAction} (he : e = .tick first second) (h : a.Wired) {n : ℕ}
    (hn : n ≤ a.links.length) :
    Rounds π Q s e a n ((List.range n).foldl (fun (remove, a) index =>
      let (ended, a) := a.pollLink π index
      (if ended then remove ++ [index] else remove, a)) ([], a)) := by
  induction n with
  | zero => exact ⟨.refl, rfl, .nil, by simp⟩
  | succ n ih =>
    have hr := ih (by omega)
    rw [List.range_succ, List.foldl_append, List.foldl_cons, List.foldl_nil]
    generalize (List.range n).foldl _ ([], a) = p at hr ⊢
    obtain ⟨remove, b⟩ := p
    have hwired : b.Wired := hr.changes.wired h
    -- a round changes the own link only, so the next one is as it was
    obtain ⟨c, hc⟩ := hwired.connAt_isSome
      (show n < b.links.length by have := hr.length; simp only at this; omega)
    have hgoes := Conn.poll_goes (b.surroundings π) c
    have hround : b.pollLink π n = ((c.poll (b.surroundings π)).isOver,
        b.putConn n (c.poll (b.surroundings π))) := by
      unfold pollLink
      rw [hc]
    have hat : ∀ i, (b.pollLink π n).2.connAt i = if i = n then
        some { c.poll (b.surroundings π) with acts := [] } else b.connAt i := by
      intro i
      rw [hround]
      exact connAt_putConn hwired hc hgoes
    have hlength : (b.pollLink π n).2.links.length = a.links.length := by
      rw [hround]
      simpa [Actor.putConn] using hr.length
    refine ⟨hr.changes.tail ?_, hlength, ?_, ?_⟩
    · show Small π Q s e b (b.pollLink π n).2
      rw [hround]
      exact .pollLink he hc
    · dsimp only
      split_ifs
      · refine List.pairwise_append.2 ⟨hr.sorted, List.pairwise_singleton _ _, ?_⟩
        intro i hi j hj
        rw [List.mem_singleton.1 hj]
        exact (hr.ended i hi).1
      · exact hr.sorted
    · have hold : ∀ i ∈ remove, i < n + 1 ∧
          ∃ c, (b.pollLink π n).2.connAt i = some c ∧ c.isOver = true := by
        intro i hi
        obtain ⟨hlt, c', hc', hover⟩ := hr.ended i hi
        refine ⟨by omega, c', ?_, hover⟩
        rw [hat, if_neg (Nat.ne_of_lt hlt)]
        exact hc'
      intro i hi
      dsimp only at hi
      split_ifs at hi with hover
      · rcases List.mem_append.1 hi with hi | hi
        · exact hold i hi
        · rw [List.mem_singleton.1 hi]
          refine ⟨Nat.lt_succ_self n, _, by rw [hat, if_pos rfl], ?_⟩
          rw [hround] at hover
          dsimp only at hover
          rw [Conn.isOver_acts]
          exact hover
      · exact hold i hi

/-- Links are removed from the last to the first, so each is still where it was found. -/
theorem removals (h : a.Wired) {remove : List ℕ} (hsorted : remove.Pairwise (· > ·))
    (hover : ∀ i ∈ remove, ∃ c, a.connAt i = some c ∧ c.isOver = true) :
    Changes π Q s e a (remove.foldl removeLink a) := by
  induction remove generalizing a with
  | nil => exact .refl
  | cons i remove ih =>
    obtain ⟨hfirst, hrest⟩ := List.pairwise_cons.1 hsorted
    obtain ⟨c, hc, hcover⟩ := hover i (by simp)
    refine .head (.removeLink hc hcover) (ih (h.removeLink hc) hrest ?_)
    intro j hj
    rw [connAt_removeLink_lt h hc (hfirst j hj)]
    exact hover j (by simp [hj])

theorem pollLinks_changes {first second : List PollAction} (he : e = .tick first second)
    (h : a.Wired) : Changes π Q s e a (a.pollLinks π) := by
  have hr := rounds (π := π) (Q := Q) (s := s) he h (Nat.le_refl a.links.length)
  refine hr.changes.trans (removals (hr.changes.wired h) ?_ ?_)
  · exact List.pairwise_reverse.2 hr.sorted
  · intro i hi
    exact (hr.ended i (List.mem_reverse.1 hi)).2

end Actor

end Tailcat.Runtime
