import Tailcat.Runtime.Connections
import Tailcat.Runtime.Isolation

/-!
# Who a connection is attributed to

A handler is started with the flow its link was opened for, but it is the network stack that decides
which of the sockets that listen on a port takes a SYN.  As long as the first of them is the one
that was opened for it (`ownSyn`), a handler is told the identity and the endpoints its socket is
connected to (`run_attributed`); a socket whose connection was reset right after the SYN listens on,
and takes another client's SYN (`stale_listener`).

A SYN opens a link and a socket that listens before it is given to the network stack, which hands it
to the first of its sockets that listens there.  Which one that is depends on the sockets there are,
so `ownSyn` is a condition on the state before the stack takes the packet; the invariant is that a
socket which is connected has the ends of its link's flow.
-/

namespace Tailcat.Runtime

open Net

namespace Conn

variable (w : Surroundings)

/-- A handler is started once, with what is known of the link. -/
theorem mem_acts_handOver {c : Conn} {handler : Handler} {pipe : PipeId} {info : ConnectionInfo}
    {tuple : Option TcpFlow} (h : .serve handler pipe info tuple ∈ (c.handOver w).acts)
    (hacts : c.acts = []) :
    (c.socket.state = .established ∨ c.socket.state = .closeWait) ∧
      c.link.handler = some handler ∧ pipe = c.link.pipe ∧ info = c.info w ∧
      tuple = c.socket.tuple := by
  unfold handOver at h
  split_ifs at h with hready
  · dsimp only at h
    rw [hacts] at h
    split at h
    · split_ifs at h <;> simp_all
    · rename_i handler' hhandler
      cases List.mem_singleton.1 h
      exact ⟨hready.1, hhandler, rfl, rfl, rfl⟩
    · cases h
  · rw [hacts] at h
    cases h

theorem acts_giveUp (c : Conn) : (c.giveUp w).acts = c.acts := by
  unfold giveUp
  dsimp only
  split_ifs <;> rfl

theorem acts_upload (c : Conn) : (c.upload w).acts = c.acts := by
  unfold upload
  split_ifs
  · dsimp only
    split <;> rfl
  · rfl

theorem acts_download (c : Conn) : (c.download w).acts = c.acts := by
  unfold download
  split_ifs
  · dsimp only
    split <;> rfl
  · rfl

theorem acts_finish (c : Conn) : c.finish.acts = c.acts := by
  unfold finish
  split_ifs <;> rfl

theorem mem_acts_refuse {c : Conn} {handler : Handler} {pipe : PipeId} {info : ConnectionInfo}
    {tuple : Option TcpFlow} (h : .serve handler pipe info tuple ∈ c.refuse.acts) :
    .serve handler pipe info tuple ∈ c.acts := by
  unfold refuse at h
  split at h
  · split_ifs at h
    · simpa using h
    · exact h
  · exact h

theorem mem_acts_poll {c : Conn} {handler : Handler} {pipe : PipeId} {info : ConnectionInfo}
    {tuple : Option TcpFlow} (h : .serve handler pipe info tuple ∈ (c.poll w).acts)
    (hacts : c.acts = []) :
    (c.socket.state = .established ∨ c.socket.state = .closeWait) ∧
      c.link.handler = some handler ∧ pipe = c.link.pipe ∧ info = c.info w ∧
      tuple = c.socket.tuple := by
  unfold poll at h
  have hfirst := mem_acts_refuse h
  rw [acts_finish, acts_download, acts_upload, acts_giveUp] at hfirst
  exact mem_acts_handOver w hfirst hacts

end Conn

namespace Actor

variable {π : Platform} {Q : Actor → PollAction → Prop} {s a b : Actor} {e : Event}

/-! ### The condition -/

/-- The socket that takes a SYN was opened for it. -/
def ownSyn (π : Platform) (a : Actor) : PollAction → Bool
  | .ingress false =>
    match a.incoming with
    | [] => true
    | packet :: _ =>
      match synOf π packet with
      | none => true
      | some flow =>
        match a.sockets.listener flow.1 with
        | none => true
        | some h => a.links.all fun link => link.socket ≠ h || link.flow = flow
  | _ => true

/-- Along an event, SYNs are taken by the sockets opened for them. -/
abbrev OwnSyns (π : Platform) : Actor → Event → Prop := PollsMeet π fun a x => ownSyn π a x = true

theorem flow_of_ownSyn {flow : TcpFlow} {c : Conn} (h : ownSyn π a (.ingress false) = true)
    (htakes : TakesSyn π a flow c) : c.link.flow = flow := by
  obtain ⟨packet, rest, hincoming, hsyn⟩ := htakes.packet
  obtain ⟨index, hc⟩ := htakes.conn
  have hmem := List.mem_of_getElem? (connAt_eq_some.1 hc).1
  simp only [ownSyn, hincoming, hsyn, htakes.listener] at h
  simpa using List.all_eq_true.1 h _ hmem

/-! ### Connections -/

/-- A socket that is connected is connected to the sides of its link's flow, and a handler waits only
for a peer. -/
structure Attributed (a : Actor) (c : Conn) : Prop where
  tuple : c.socket.state ≠ .closed → c.socket.state ≠ .listen → c.socket.tuple = some c.link.flow
  peer : c.link.handler ≠ none → ∃ key ∈ a.peers, tcAddrForKey key = c.link.flow.2.addr

theorem tuple_progress {socket : Socket} {p : Progress} {flow : TcpFlow}
    (h : socket.state ≠ .closed → socket.state ≠ .listen → socket.tuple = some flow)
    (hclosed : (socket.progress p).state ≠ .closed) (hlisten : (socket.progress p).state ≠ .listen) :
    (socket.progress p).tuple = some flow := by
  unfold Socket.progress at hclosed hlisten ⊢
  split_ifs at hclosed hlisten ⊢ with hallows hgone
  · exact absurd hgone (not_or.2 ⟨hlisten, hclosed⟩)
  · exact h hallows.not_closed hallows.not_listening
  · exact h hclosed hlisten

theorem peer_of_receivedSyn {flow : TcpFlow} (hsources : a.SourcesChecked π)
    (h : a.ReceivedSyn π flow) : ∃ key ∈ a.peers, tcAddrForKey key = flow.2.addr := by
  obtain ⟨key, packet, ip, tcp, hmem, hip, -, -, rfl⟩ := h
  obtain ⟨hkey, hsource, -⟩ := hsources.source key packet hmem
  exact ⟨key, hkey, Subtype.ext (hsource.symm.trans (srcAddr_newChecked hip).symm)⟩

theorem attributed_rule : ConnRule π (fun a x => ownSyn π a x = true) (SourcesChecked π)
    Attributed where
  lasts s e a b c hstep hc := ⟨hc.tuple, fun hhandler => by
    obtain ⟨key, hkey, haddr⟩ := hc.peer hhandler
    exact ⟨key, hstep.extends.peers key hkey, haddr⟩⟩
  poll _ w c _ hc := by
    have hgoes := Conn.poll_goes w c
    refine ⟨fun hclosed hlisten => ?_, fun hhandler => ?_⟩
    · have hclosed' : c.socket.state ≠ .closed := fun h => hclosed (hgoes.closed h)
      have hlisten' : c.socket.state ≠ .listen := fun h =>
        (hgoes.listen h).elim hlisten hclosed
      show (c.poll w).socket.tuple = some (c.poll w).link.flow
      rw [hgoes.tuple, hgoes.flow]
      exact hc.tuple hclosed' hlisten'
    · obtain ⟨handler, hhandler⟩ := Option.ne_none_iff_exists'.1 hhandler
      rw [show (c.poll w).link.flow = c.link.flow from hgoes.flow]
      exact hc.peer (by rw [hgoes.handler handler hhandler]; simp)
  progress a c p hc := ⟨tuple_progress hc.tuple, hc.peer⟩
  syn a flow c hown htakes hc := by
    obtain rfl := flow_of_ownSyn hown htakes
    exact ⟨fun _ _ => rfl, hc.peer⟩
  app _ _ _ _ hc := ⟨hc.tuple, hc.peer⟩
  accept a flow handler socket hsources hsyn _ hsocket := by
    unfold Socket.listen at hsocket
    split_ifs at hsocket
    cases hsocket
    exact ⟨fun _ hlisten => absurd rfl hlisten, fun _ => peer_of_receivedSyn hsources hsyn⟩
  dial a flow result socket hsocket := by
    unfold Socket.connect at hsocket
    split_ifs at hsocket
    cases hsocket
    exact ⟨fun _ _ => rfl, fun h => absurd rfl h⟩

/-! ### Handlers -/

/-- A handler was told the peer and the endpoints its socket was connected to. -/
def RightlyTold (a : Actor) (info : ConnectionInfo) (tuple : Option TcpFlow) : Prop :=
  ∃ flow, tuple = some flow ∧ info.localAddr = .new (.v6 flow.1.addr) flow.1.port ∧
    info.remoteAddr = .new (.v6 flow.2.addr) flow.2.port ∧ info.peerKey ∈ a.peers ∧
    tcAddrForKey info.peerKey = flow.2.addr

theorem rightlyTold_info {c : Conn} (hattributed : Attributed a c)
    (hready : c.socket.state = .established ∨ c.socket.state = .closeWait)
    (hhandler : c.link.handler ≠ none) :
    RightlyTold a (c.info (a.surroundings π)) c.socket.tuple := by
  obtain ⟨key, hkey, haddr⟩ := hattributed.peer hhandler
  refine ⟨c.link.flow, hattributed.tuple ?_ ?_, rfl, rfl, ?_⟩
  · rcases hready with h | h <;> rw [h] <;> simp
  · rcases hready with h | h <;> rw [h] <;> simp
  · have hfound : (a.peers.keys.find? fun key => tcAddrForKey key = c.link.flow.2.addr).isSome :=
      List.find?_isSome.2 ⟨key, hkey, by simpa using haddr⟩
    obtain ⟨found, hfound⟩ := Option.isSome_iff_exists.1 hfound
    have hinfo : (c.info (a.surroundings π)).peerKey = found := by
      show ((a.peers.keys.find? fun key => tcAddrForKey key = c.link.flow.2.addr).getD Key.zero) = _
      rw [hfound]
      rfl
    rw [hinfo]
    exact ⟨List.mem_of_find?_eq_some hfound, by simpa using List.find?_some hfound⟩

/-- Handlers were told right, and connections are as they are attributed. -/
structure WellAttributed (π : Platform) (a : Actor) : Prop where
  wired : a.Wired
  sources : a.SourcesChecked π
  conns : a.AllConns Attributed
  told : ∀ handler pipe info tuple, .serve handler pipe info tuple ∈ a.trace →
    a.RightlyTold info tuple

theorem Small.wellAttributed (h : Small π (fun a x => ownSyn π a x = true) s e a b)
    (hI : a.WellAttributed π) : b.WellAttributed π := by
  refine ⟨h.wired hI.wired, h.sourcesChecked hI.sources,
    h.allConns attributed_rule hI.wired hI.sources hI.conns, fun handler pipe info tuple hmem => ?_⟩
  have hlasts : a.RightlyTold info tuple → b.RightlyTold info tuple := by
    rintro ⟨flow, htuple, hlocal, hremote, hkey, haddr⟩
    exact ⟨flow, htuple, hlocal, hremote, h.extends.peers _ hkey, haddr⟩
  rcases h.mem_trace hmem with hold | horigin
  · exact hlasts (hI.told handler pipe info tuple hold)
  · refine hlasts ?_
    cases horigin with
    | send h => exact h.elim
    | act h => exact h.elim
    | @link _ index c hc hx =>
      obtain ⟨hready, hhandler, -, rfl, rfl⟩ :=
        Conn.mem_acts_poll _ hx (connAt_eq_some.1 hc).2.2.2
      exact rightlyTold_info (hI.conns index c hc) hready (by rw [hhandler]; simp)

theorem run_wellAttributed (setup : Setup) (config : ServerConfig) (es : List Event)
    (h : Transition.Along (step π) (OwnSyns π) (init (setup.serving config)) es) :
    (run π (init (setup.serving config)) es).WellAttributed π := by
  have h0 : (init (setup.serving config)).WellAttributed π := by
    refine ⟨init_wired _, init_sourcesChecked setup config, ?_, ?_⟩
    · intro index c hc
      have hlt := lt_of_connAt hc
      cases hlt
    · intro handler pipe info tuple hmem
      rw [init_trace] at hmem
      cases hmem
  exact run_preserves (Q := fun a x => ownSyn π a x = true) h0 (fun _ _ h => h)
    (fun _ _ _ _ _ _ hstep _ hI => hstep.wellAttributed hI) h

/-- **Identity attribution**: in every run of a server in which SYNs are taken by the sockets that
were opened for them, every handler is told the peer and the endpoints its socket is connected
to. -/
theorem run_attributed (setup : Setup) (config : ServerConfig) (es : List Event)
    (h : Transition.Along (step π) (OwnSyns π) (init (setup.serving config)) es) :
    ∀ handler pipe info tuple,
      .serve handler pipe info tuple ∈ (run π (init (setup.serving config)) es).trace →
      (run π (init (setup.serving config)) es).RightlyTold info tuple :=
  (run_wellAttributed setup config es h).told

/-- The handlers started so far: the peer each was told, and the sides its socket is connected to. -/
def served (a : Actor) : List (Key × Option TcpFlow) :=
  a.trace.filterMap fun
    | .serve _ _ info tuple => some (info.peerKey, tuple)
    | _ => none

open Sample in
/-- A client connects, and the service is told so. -/
theorem run_attributed_sample :
    let config : ServerConfig := { onTcp := some fun _ => some "service" }
    let es := [registration (keyOf 2) (keyOf 130), .tick [] [],
      tunnelled (keyOf 2) (tcpSegment (inside (keyOf 2) 1000, inside (keyOf 1) 80) 2),
      .tick [.ingress false, .progress 0 { state := .established }] []]
    let a := run sample (init ((serverSetup {}).serving config)) es
    a.served = [(keyOf 2, some (⟨tcAddrForKey (keyOf 1), 80⟩, ⟨tcAddrForKey (keyOf 2), 1000⟩))] ∧
      ∀ handler pipe info tuple, .serve handler pipe info tuple ∈ a.trace →
        a.RightlyTold info tuple :=
  ⟨by decide +kernel, run_attributed (serverSetup {}) _ _ (by decide +kernel)⟩

open Sample in
/-- A client resets its connection right after the SYN, and the socket listens on.  It takes the SYN
of another client, and the service is told it talks to the first one. -/
theorem stale_listener :
    let config : ServerConfig := { onTcp := some fun _ => some "service" }
    let a := run sample (init ((serverSetup {}).serving config)) [
      registration (keyOf 2) (keyOf 130), .tick [] [],
      registration (keyOf 3) (keyOf 131), .tick [] [],
      tunnelled (keyOf 2) (tcpSegment (inside (keyOf 2) 1000, inside (keyOf 1) 80) 2),
      .tick [.ingress false] [],
      -- the reset
      tunnelled (keyOf 2) (tcpSegment (inside (keyOf 2) 1000, inside (keyOf 1) 80) 4),
      .tick [.ingress false, .progress 0 { state := .listen }] [],
      tunnelled (keyOf 3) (tcpSegment (inside (keyOf 3) 2000, inside (keyOf 1) 80) 2),
      .tick [.ingress false, .progress 0 { state := .established }] []]
    a.DistinctPrefixes ∧ a.served =
      [(keyOf 2, some (⟨tcAddrForKey (keyOf 1), 80⟩, ⟨tcAddrForKey (keyOf 3), 2000⟩))] := by
  decide +kernel

end Actor

end Tailcat.Runtime
