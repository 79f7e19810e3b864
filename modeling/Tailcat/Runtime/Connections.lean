import Tailcat.Runtime.StepChanges

/-!
# What holds of every connection

A property of connections that holds of new ones and lasts through the rounds of `pollLinks`, the
steps of the network stack and the operations of the application holds of every connection after
every change (`Small.allConns`).

A connection is what the actor has of it in several places: a link, a socket and a pipe (`Conn`).
`ConnChange` says what a small change of the actor does to all of them at once, and `oldLinks` that
nothing but the removal of a connection takes a link away.

A rule (`ConnRule`) has one field for each thing that can happen to a connection.  To show that a
property lasts it is enough to give the fields; the bookkeeping of indices, which move when a link
is removed, is done here once.  A rule may rely on an invariant of the whole actor (`K`), which has
to be given for the run.
-/

namespace Tailcat.Runtime.Actor

open Net

variable {π : Platform} {Q : Actor → PollAction → Prop} {s a b : Actor} {e : Event}

/-! ### Changes of the connections -/

/-- What a change does to the connections. -/
inductive ConnChange (π : Platform) (Q : Actor → PollAction → Prop) (s : Actor) (e : Event) :
    Actor → Actor → Prop
  | same {a b : Actor} (hlinks : b.links = a.links) (hsockets : b.sockets = a.sockets)
      (hpipes : b.pipes = a.pipes) : ConnChange π Q s e a b
  | accepted {a : Actor} {flow : TcpFlow} {handler : Handler} {socket : Socket} (he : Receives e)
      (hsyn : a.ReceivedSyn π flow) (hhandler : a.TakenBy flow handler)
      (hnew : ∀ link ∈ a.links, link.flow ≠ flow)
      (hsocket : ({} : Socket).listen flow.1 = some socket) :
      ConnChange π Q s e a (a.openLink socket flow none (some handler))
  | dialled {target : SocketAddr} {result : ReplyId} {socket : Socket}
      (he : e = .command (.dial target result)) (hopen : s.isClosed result = false)
      (hlength : s.links.length < maxConnections)
      (hsocket : ({} : Socket).connect ⟨nat64Addr target.ip, target.port⟩
        ⟨s.localAddr, s.nextPort⟩ = some socket) :
      ConnChange π Q s e s.advancePort (s.advancePort.openLink socket
        (⟨s.localAddr, s.nextPort⟩, ⟨nat64Addr target.ip, target.port⟩) (some result) none)
  | polled {a : Actor} {action : PollAction} (h : Q a action) :
      ConnChange π Q s e a (a.pollAction π action)
  | round {a : Actor} {index : ℕ} {c : Conn} (hc : a.connAt index = some c) :
      ConnChange π Q s e a (a.putConn index (c.poll (a.surroundings π)))
  | removed {a : Actor} {index : ℕ} {c : Conn} (hc : a.connAt index = some c)
      (hover : c.isOver = true) : ConnChange π Q s e a (a.removeLink index)
  | app {a : Actor} {pipe : PipeId} {op : AppOp} (h : a.appHolds pipe = true) :
      ConnChange π Q s e a { a with pipes := a.pipes.modify pipe (·.app op) }

theorem Small.conns (h : Small π Q s e a b) : ConnChange π Q s e a b := by
  cases h with
  | sends h => exact .same (by rw [h.eq]) (by rw [h.eq]) (by rw [h.eq])
  | repeatPings h => exact .same (by rw [h.eq]) (by rw [h.eq]) (by rw [h.eq])
  | newUdpFlow => rw [newUdpFlow_eq]; exact .same rfl rfl rfl
  | lostUdpFlow => rw [newUdpFlow_eq]; exact .same rfl rfl rfl
  | removeCancelled => rw [removeCancelled_eq]; exact .same rfl rfl rfl
  | deliver => rw [deliver_eq]; exact .same rfl rfl rfl
  | udpOutput => rw [udpOutput_eq]; exact .same rfl rfl rfl
  | expireUdp => rw [expireUdp_eq]; exact .same rfl rfl rfl
  | openSyn he _ hsyn hhandler hnew _ hsocket => exact .accepted he hsyn hhandler hnew hsocket
  | dialled he hopen hlength hsocket => exact .dialled he hopen hlength hsocket
  | poll h => exact .polled h
  | pollLink _ hc => exact .round hc
  | removeLink hc hover => exact .removed hc hover
  | app h => exact .app h
  | _ => exact .same rfl rfl rfl

/-- A link of an old pipe is an old link. -/
theorem Small.oldLinks (h : Small π Q s e a b) : a.pipes.length ≤ b.pipes.length ∧
    ∀ link ∈ b.links, link.pipe < a.pipes.length →
      ∃ old ∈ a.links, old.pipe = link.pipe ∧ old.flow = link.flow := by
  have hadded : ∀ {a : Actor} {socket flow connected handler},
      a.pipes.length ≤ (a.openLink socket flow connected handler).pipes.length ∧
      ∀ link ∈ (a.openLink socket flow connected handler).links, link.pipe < a.pipes.length →
        ∃ old ∈ a.links, old.pipe = link.pipe ∧ old.flow = link.flow := by
    intro a socket flow connected handler
    refine ⟨by simp [openLink], fun link hlink hlt => ?_⟩
    rcases List.mem_append.1 hlink with hlink | hlink
    · exact ⟨link, hlink, rfl, rfl⟩
    · rw [List.mem_singleton.1 hlink] at hlt
      exact absurd hlt (Nat.lt_irrefl _)
  cases h.conns with
  | same hlinks _ hpipes =>
    exact ⟨Nat.le_of_eq (by rw [hpipes]), fun link hlink _ => ⟨link, hlinks ▸ hlink, rfl, rfl⟩⟩
  | accepted => exact hadded
  | dialled => exact hadded
  | polled => rw [pollAction_eq]; exact ⟨le_refl _, fun link hlink _ => ⟨link, hlink, rfl, rfl⟩⟩
  | @round _ index c hc =>
    have hgoes := Conn.poll_goes (a.surroundings π) c
    refine ⟨by simp [putConn], fun link hlink _ => ?_⟩
    rcases List.mem_or_eq_of_mem_set hlink with hlink | rfl
    · exact ⟨link, hlink, rfl, rfl⟩
    · exact ⟨c.link, List.mem_of_getElem? (connAt_eq_some.1 hc).1, hgoes.pipe.symm,
        hgoes.flow.symm⟩
  | removed hc =>
    rw [removeLink_of_connAt hc]
    refine ⟨by simp, fun link hlink _ => ?_⟩
    exact ⟨link, mem_of_mem_swapRemove (lt_of_connAt hc) hlink, rfl, rfl⟩
  | app =>
    exact ⟨Nat.le_of_eq (List.length_modify _ _ _).symm, fun link hlink _ => ⟨link, hlink, rfl, rfl⟩⟩

/-! ### A property of every connection -/

/-- Every connection has the property. -/
def AllConns (P : Actor → Conn → Prop) (a : Actor) : Prop :=
  ∀ index c, a.connAt index = some c → P a c

/-- The network stack gives the first packet, a SYN, to the connection that listens for it. -/
structure TakesSyn (π : Platform) (a : Actor) (flow : TcpFlow) (c : Conn) : Prop where
  packet : ∃ packet rest, a.incoming = packet :: rest ∧ synOf π packet = some flow
  listener : a.sockets.listener flow.1 = some c.link.socket
  conn : ∃ index, a.connAt index = some c

theorem TakesSyn.listensOn {flow : TcpFlow} {c : Conn} (h : TakesSyn π a flow c) :
    c.socket.listensOn flow.1 = true := by
  obtain ⟨index, hc⟩ := h.conn
  obtain ⟨socket, hget, hlistens⟩ := Slots.get_of_find h.listener
  cases (connAt_eq_some.1 hc).2.1.symm.trans hget
  exact hlistens

/-- A connection for a SYN. -/
def accepting (a : Actor) (flow : TcpFlow) (handler : Handler) (socket : Socket) : Conn where
  link := { socket := a.sockets.free, flow, pipe := a.pipes.length, handler := some handler,
            started := a.now }
  socket
  pipe := {}

/-- A connection for a dial. -/
def dialling (a : Actor) (flow : TcpFlow) (result : ReplyId) (socket : Socket) : Conn where
  link := { socket := a.sockets.free, flow, pipe := a.pipes.length, connected := some result,
            started := a.now }
  socket
  pipe := {}

/-- What has to be shown of a property of connections, where `K` is known of the states. -/
structure ConnRule (π : Platform) (Q : Actor → PollAction → Prop) (K : Actor → Prop)
    (P : Actor → Conn → Prop) : Prop where
  lasts : ∀ s e a b c, Small π Q s e a b → P a c → P b c
  poll : ∀ a w c, c.acts = [] → P a c → P a { c.poll w with acts := [] }
  progress : ∀ a c p, P a c → P a { c with socket := c.socket.progress p }
  syn : ∀ a flow c, Q a (.ingress false) → TakesSyn π a flow c → P a c →
    P a { c with socket := c.socket.acceptSyn flow.1 flow.2 }
  app : ∀ a c op, c.link.app = false → P a c → P a { c with pipe := c.pipe.app op }
  accept : ∀ a flow handler socket, K a → a.ReceivedSyn π flow → a.TakenBy flow handler →
    ({} : Socket).listen flow.1 = some socket → P a (a.accepting flow handler socket)
  dial : ∀ a flow result socket, ({} : Socket).connect flow.2 flow.1 = some socket →
    P a (a.dialling flow result socket)

/-! ### Connections after each change -/

theorem connAt_congr (hlinks : b.links = a.links) (hsockets : b.sockets = a.sockets)
    (hpipes : b.pipes = a.pipes) (index : ℕ) : b.connAt index = a.connAt index := by
  unfold connAt conn
  rw [hlinks, hsockets, hpipes]

theorem connAt_openLink {socket : Socket} {flow : TcpFlow} {connected : Option ReplyId}
    {handler : Option Handler} (h : a.Wired) {index : ℕ} {c : Conn}
    (hc : (a.openLink socket flow connected handler).connAt index = some c) :
    a.connAt index = some c ∨ c = {
      link := { socket := a.sockets.free, flow, pipe := a.pipes.length, connected, handler,
                started := a.now }
      socket
      pipe := {} } := by
  obtain ⟨hlink, hsocket, hpipe, hacts⟩ := connAt_eq_some.1 hc
  simp only [openLink, Slots.add_fst] at hlink hsocket hpipe
  rw [Slots.get_add] at hsocket
  obtain ⟨link, csocket, pipe, acts⟩ := c
  dsimp only at hlink hsocket hpipe hacts
  subst hacts
  rcases Nat.lt_or_ge index a.links.length with hlt | hge
  · rw [List.getElem?_append_left hlt] at hlink
    have hmem := List.mem_of_getElem? hlink
    have hfree : link.socket ≠ a.sockets.free := by
      intro heq
      have hsome := h.socket link hmem
      rw [heq, Slots.get_free] at hsome
      cases hsome
    rw [if_neg hfree] at hsocket
    rw [List.getElem?_append_left (h.pipe link hmem)] at hpipe
    exact .inl (connAt_eq_some.2 ⟨hlink, hsocket, hpipe, rfl⟩)
  · rw [List.getElem?_append_right hge, List.getElem?_singleton] at hlink
    split_ifs at hlink
    cases hlink
    rw [if_pos rfl] at hsocket
    cases hsocket
    simp only [List.getElem?_append_right (Nat.le_refl _), Nat.sub_self, List.getElem?_cons_zero,
      Option.some.injEq] at hpipe
    subst hpipe
    exact .inr rfl

/-- A change of the sockets is one of the connections' sockets. -/
theorem connAt_update {h : ℕ} {f : Socket → Socket} {index : ℕ} {c : Conn}
    (hc : b.connAt index = some c) (hlinks : b.links = a.links) (hpipes : b.pipes = a.pipes)
    (hsockets : b.sockets = a.sockets.update h f) :
    ∃ c', a.connAt index = some c' ∧
      c = if c'.link.socket = h then { c' with socket := f c'.socket } else c' := by
  obtain ⟨hlink, hsocket, hpipe, hacts⟩ := connAt_eq_some.1 hc
  obtain ⟨link, socket, pipe, acts⟩ := c
  dsimp only at hlink hsocket hpipe hacts
  subst hacts
  rw [hlinks] at hlink
  rw [hpipes] at hpipe
  rw [hsockets, Slots.get_update] at hsocket
  split_ifs at hsocket with heq
  · obtain ⟨socket', hsocket', rfl⟩ := Option.map_eq_some_iff.1 hsocket
    refine ⟨{ link, socket := socket', pipe }, connAt_eq_some.2 ⟨hlink, ?_, hpipe, rfl⟩, ?_⟩
    · exact hsocket'
    · rw [if_pos heq]
  · refine ⟨{ link, socket, pipe }, connAt_eq_some.2 ⟨hlink, hsocket, hpipe, rfl⟩, ?_⟩
    rw [if_neg heq]

theorem connAt_app {pipe : PipeId} {op : AppOp} {index : ℕ} {c : Conn}
    (hholds : a.appHolds pipe = true)
    (hc : connAt { a with pipes := a.pipes.modify pipe (·.app op) } index = some c) :
    ∃ c', a.connAt index = some c' ∧
      (c = c' ∨ c'.link.app = false ∧ c = { c' with pipe := c'.pipe.app op }) := by
  obtain ⟨hlink, hsocket, hpipe, hacts⟩ := connAt_eq_some.1 hc
  obtain ⟨link, socket, cpipe, acts⟩ := c
  dsimp only at hlink hsocket hpipe hacts
  subst hacts
  rw [List.getElem?_modify] at hpipe
  obtain ⟨pipe', hpipe', rfl⟩ := Option.map_eq_some_iff.1 hpipe
  refine ⟨{ link, socket, pipe := pipe' }, connAt_eq_some.2 ⟨hlink, hsocket, hpipe', rfl⟩, ?_⟩
  by_cases heq : pipe = link.pipe
  · refine .inr ⟨?_, by simp [heq]⟩
    simp only [appHolds, Bool.not_eq_true', List.any_eq_false, Bool.and_eq_true,
      decide_eq_true_eq, not_and] at hholds
    have hother := hholds link (List.mem_of_getElem? hlink)
    cases happ : link.app with
    | false => rfl
    | true => exact absurd heq.symm (hother happ)
  · exact .inl (by simp [heq])

theorem connAt_removeLink {index i : ℕ} {c c' : Conn} (h : a.Wired)
    (hc : a.connAt index = some c) (hc' : (a.removeLink index).connAt i = some c') :
    ∃ j, a.connAt j = some c' := by
  obtain ⟨hlink, hsocket, hpipe, hacts⟩ := connAt_eq_some.1 hc'
  rw [removeLink_of_connAt hc] at hlink hsocket hpipe
  dsimp only at hlink hsocket hpipe
  have hlt := lt_of_connAt hc
  obtain ⟨j, hj, hne, hget⟩ := List.mem_eraseIdx_iff_getElem.1
    ((swapRemove_perm hlt).mem_iff.1 (List.mem_of_getElem? hlink))
  have hat : a.links[j]? = some c'.link := by rw [List.getElem?_eq_getElem hj, hget]
  have hlink' := (connAt_eq_some.1 hc).1
  refine ⟨j, connAt_eq_some.2 ⟨hat, ?_, ?_, hacts⟩⟩
  · rwa [Slots.get_remove, if_neg (h.handle_ne hat hlink' hne)] at hsocket
  · rw [List.getElem?_modify] at hpipe
    simpa [(h.pipe_ne hat hlink' hne).symm] using hpipe

theorem connAt_ingress {ignored : Bool} {index : ℕ} {c : Conn}
    (hc : (a.pollAction π (.ingress ignored)).connAt index = some c) :
    ∃ i c', a.connAt i = some c' ∧ (c = c' ∨ ∃ flow, TakesSyn π a flow c' ∧ ignored = false ∧
      c = { c' with socket := c'.socket.acceptSyn flow.1 flow.2 }) := by
  unfold pollAction at hc
  dsimp only at hc
  split at hc
  · exact ⟨index, c, hc, .inl rfl⟩
  · rename_i packet rest hincoming
    split at hc
    · rename_i localEnd remote hsyn
      cases hlistener : a.sockets.listener localEnd with
      | none =>
        simp only [SocketSet.deliver, hlistener] at hc
        exact ⟨index, c, hc, .inl rfl⟩
      | some h =>
        simp only [SocketSet.deliver, hlistener] at hc
        split_ifs at hc with hignored
        · exact ⟨index, c, hc, .inl rfl⟩
        · obtain ⟨c', hc', rfl⟩ := connAt_update (a := a)
            (f := (·.acceptSyn localEnd remote)) hc rfl rfl rfl
          refine ⟨index, c', hc', ?_⟩
          split_ifs with heq
          · refine .inr ⟨(localEnd, remote), ⟨⟨packet, rest, hincoming, hsyn⟩, ?_, index, hc'⟩,
              by simpa using hignored, rfl⟩
            rw [heq]
            exact hlistener
          · exact .inl rfl
    · exact ⟨index, c, hc, .inl rfl⟩

/-- **What new connections have, and rounds, the network stack and the application preserve, all
connections have.** -/
theorem Small.allConns {K : Actor → Prop} {P : Actor → Conn → Prop} (rule : ConnRule π Q K P)
    (hw : a.Wired) (hK : K a) (h : Small π Q s e a b) (hI : a.AllConns P) : b.AllConns P := by
  -- a step may also change what the property is told of the actor
  have hlasts := fun index c (hc : P a c) (_ : b.connAt index = some c) => rule.lasts s e a b c h hc
  cases h.conns with
  | same hlinks hsockets hpipes =>
    intro index c hc
    refine hlasts index c (hI index c ?_) hc
    rwa [connAt_congr hlinks hsockets hpipes] at hc
  | @accepted _ flow handler socket _ hsyn hhandler hnew hsocket =>
    intro index c hc
    refine hlasts index c ?_ hc
    rcases connAt_openLink hw hc with hold | rfl
    · exact hI index c hold
    · exact rule.accept a flow handler socket hK hsyn hhandler hsocket
  | @dialled target result socket he _ _ hsocket =>
    intro index c hc
    refine hlasts index c ?_ hc
    rcases connAt_openLink hw hc with hold | rfl
    · exact hI index c hold
    · exact rule.dial _ _ result socket hsocket
  | @polled _ action hQ =>
    intro index c hc
    refine hlasts index c ?_ hc
    cases action with
    | progress socket p =>
      obtain ⟨c', hc', rfl⟩ := connAt_update (a := a) (f := (·.progress p)) hc rfl rfl rfl
      split_ifs
      · exact rule.progress a c' p (hI index c' hc')
      · exact hI index c' hc'
    | emit packet => exact hI index c hc
    | ingress ignored =>
      obtain ⟨i, c', hc', rfl | ⟨flow, htakes, hi, rfl⟩⟩ := connAt_ingress hc
      · exact hI i c hc'
      · subst hi
        exact rule.syn a flow c' hQ htakes (hI i c' hc')
  | @round _ i c hc =>
    intro index c' hc'
    refine hlasts index c' ?_ hc'
    rw [connAt_putConn hw hc (Conn.poll_goes _ _)] at hc'
    split_ifs at hc'
    · cases hc'
      exact rule.poll a _ c (connAt_eq_some.1 hc).2.2.2 (hI i c hc)
    · exact hI index c' hc'
  | @removed _ i c hc hover =>
    intro index c' hc'
    refine hlasts index c' ?_ hc'
    obtain ⟨j, hj⟩ := connAt_removeLink hw hc hc'
    exact hI j c' hj
  | @app _ pipe op hholds =>
    intro index c hc
    refine hlasts index c ?_ hc
    obtain ⟨c', hc', rfl | ⟨happ, rfl⟩⟩ := connAt_app hholds hc
    · exact hI index c hc'
    · exact rule.app a c' op happ (hI index c' hc')

end Tailcat.Runtime.Actor
