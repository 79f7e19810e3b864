import Tailcat.Runtime.Connections
import Tailcat.Runtime.Trace

/-!
# The bytes of a connection

The program moves bytes between a socket and a pipe in both directions, and either direction may end
first.  A connection is *faithful* if each side has received the first bytes the other has sent, and
sees their end after all of them (`Conn.Faithful`).

* `Conn.Carries` : the invariant of a round of `pollLinks`, in either direction.
* `run_faithful` : all connections are faithful, and those whose links were removed have delivered
  everything.

What was moved is counted by the channels on both sides (`Tailcat.Channel`), so faithful means that
the bytes passed on one side are the first ones accepted on the other.  A round takes as much as
there is room for, so the bytes that have left one side and not reached the other are part of the
invariant.  A link is removed when its connection is over; what its pipe has got by then is all that
the socket had received, unless the application has dropped its end.
-/

namespace Tailcat.Runtime

/-! ### One connection -/

/-- Each side has received the first bytes the other has sent, and sees their end after all of
them. -/
structure Conn.Faithful (c : Conn) : Prop where
  /-- The bytes enqueued on the socket are the first of those the application has written. -/
  sent : c.socket.tx.log <+: c.pipe.up.data.log
  /-- The socket is closed once the application has shut down and all it wrote was enqueued. -/
  closed : c.link.writeClosed = true →
    c.pipe.up.closed = true ∧ c.socket.tx.log = c.pipe.up.data.log
  /-- The bytes put into the pipe are the first of those the socket has received. -/
  received : c.pipe.down.data.log <+: c.socket.rx.log
  /-- An application that sees the end has read all of them. -/
  atEnd : c.pipe.down.AtEnd → c.pipe.appDropped = true ∨ c.pipe.down.data.passed = c.socket.rx.log

/-- How far the two directions of a connection are. -/
structure Conn.Carries (c : Conn) : Prop where
  /-- What was read from the application was enqueued. -/
  sent : c.socket.tx.log = c.pipe.up.data.passed
  closed : c.link.writeClosed = true → c.pipe.up.AtEnd
  /-- The application has its end once the connection was established. -/
  handed : c.link.app = false → 1 ≤ c.socket.state.phase
  received : c.pipe.down.data.log <+: c.socket.rx.passed
  /-- What was read from the socket was delivered to an application that is there. -/
  delivered : c.pipe.appDropped = false → c.pipe.down.data.log = c.socket.rx.passed
  dropped : c.pipe.appDropped = true → c.pipe.down.closed = true
  /-- The application is told the end once nothing is left and nothing more will arrive. -/
  done : c.pipe.down.closed = true → c.pipe.appDropped = true ∨
    c.socket.rx.pending = [] ∧ c.socket.state.phase = 2
  readClosed : c.link.readClosed = true → c.pipe.down.closed = true

namespace Conn

variable {c : Conn}

theorem Carries.faithful (h : c.Carries) : c.Faithful := by
  refine ⟨?_, fun hclosed => ?_, h.received.trans (Channel.passed_prefix _), fun hend => ?_⟩
  · rw [h.sent]
    exact Channel.passed_prefix _
  · obtain ⟨hpending, hshut⟩ := h.closed hclosed
    exact ⟨hshut, h.sent.trans (Channel.passed_of_pending hpending)⟩
  · obtain ⟨hpending, hshut⟩ := hend
    rcases h.done hshut with hdropped | ⟨hrx, -⟩
    · exact .inl hdropped
    · cases happ : c.pipe.appDropped with
      | true => exact .inl rfl
      | false =>
        right
        rw [Channel.passed_of_pending hpending, h.delivered happ, Channel.passed_of_pending hrx]

/-- A connection that is over has delivered everything to an application that is there. -/
theorem Carries.over (h : c.Carries) (hover : c.isOver = true) :
    c.pipe.appDropped = true ∨ c.pipe.down.data.log = c.socket.rx.log := by
  have hrest : c.pipe.appDropped = true ∨ c.socket.rx.pending = [] := by
    simp only [isOver, Bool.and_eq_true, Bool.or_eq_true, Bool.not_eq_true'] at hover
    rcases hover.2 with hempty | hclosed
    · right
      by_contra hne
      simp [Socket.canRecv, Socket.mayRecv, hne] at hempty
    · exact (h.done (h.readClosed hclosed)).imp_right And.left
  cases happ : c.pipe.appDropped with
  | true => exact .inl rfl
  | false =>
    have hpending := hrest.resolve_left (by simp [happ])
    exact .inr (by rw [h.delivered happ, Channel.passed_of_pending hpending])

end Conn

/-! ### What the socket does -/

theorem State.phase_le (s : State) : s.phase ≤ 2 := by cases s <;> decide

theorem Socket.phase_close (s : Socket) : s.state.phase ≤ s.close.state.phase := by
  unfold Socket.close
  split <;> simp_all [State.phase]

theorem Socket.rx_close (s : Socket) : s.close.rx = s.rx := by
  unfold Socket.close
  split <;> rfl

theorem Socket.tx_close (s : Socket) : s.close.tx = s.tx := by
  unfold Socket.close
  split <;> rfl

namespace Conn

variable {c : Conn}

/-- A socket that keeps its bytes may go on to a later phase. -/
theorem Carries.socket (h : c.Carries) {s : Socket} (hrx : s.rx = c.socket.rx)
    (htx : s.tx = c.socket.tx) (hphase : c.socket.state.phase ≤ s.state.phase) :
    { c with socket := s }.Carries where
  sent := htx ▸ h.sent
  closed := h.closed
  handed happ := Nat.le_trans (h.handed happ) hphase
  received := hrx ▸ h.received
  delivered := hrx ▸ h.delivered
  dropped := h.dropped
  done hshut := by
    refine (h.done hshut).imp_right fun hdone => ⟨hrx ▸ hdone.1, ?_⟩
    have hle := State.phase_le s.state
    have := hdone.2
    dsimp only
    omega
  readClosed := h.readClosed

theorem Carries.abort (h : c.Carries) : { c with socket := c.socket.abort }.Carries :=
  h.socket rfl rfl (State.phase_le _)

theorem Carries.progress (h : c.Carries) (p : Progress) :
    { c with socket := c.socket.progress p }.Carries := by
  by_cases hallows : c.socket.Allows p
  · rw [Socket.progress, if_pos hallows]
    refine ⟨h.sent, h.closed, fun happ => Nat.le_trans (h.handed happ) hallows.forward, ?_, ?_, h.dropped,
      fun hshut => ?_, h.readClosed⟩
    · rw [Channel.passed_push]
      exact h.received
    · rw [Channel.passed_push]
      exact h.delivered
    · refine (h.done hshut).imp_right ?_
      rintro ⟨hpending, hphase⟩
      -- the remote side is done, so nothing arrives any more
      have hnothing : p.received = [] := by
        by_contra hne
        have := hallows.arrives hne
        omega
      have hforward := hallows.forward
      have hle := State.phase_le p.state
      refine ⟨?_, by dsimp only; omega⟩
      rw [hnothing, Channel.pending_push, hpending]
      rfl
  · rwa [Socket.progress, if_neg hallows]

theorem Carries.acceptSyn (h : c.Carries) (hlisten : c.socket.state = .listen)
    (flow : Net.IpEndpoint × Net.IpEndpoint) :
    { c with socket := c.socket.acceptSyn flow.1 flow.2 }.Carries :=
  h.socket rfl rfl (by rw [hlisten]; exact Nat.zero_le _)

/-! ### What the application does -/

theorem Carries.dropApp (h : c.Carries) : { c with pipe := c.pipe.dropApp }.Carries where
  sent := h.sent
  closed hclosed := ⟨(h.closed hclosed).1, rfl⟩
  handed := h.handed
  received := h.received
  delivered hfalse := (nomatch hfalse)
  dropped _ := rfl
  done _ := .inl rfl
  readClosed _ := rfl

/-- The application's writes do not reach what was read before. -/
theorem passed_pollWrite (d : Duct) (bytes : Bytes) :
    (d.pollWrite bytes).2.data.passed = d.data.passed ∧ (d.pollWrite bytes).2.closed = d.closed ∧
      (d.closed = true → (d.pollWrite bytes).2 = d) := by
  unfold Duct.pollWrite
  split_ifs with hclosed
  · exact ⟨rfl, rfl, fun _ => rfl⟩
  · dsimp only
    split_ifs
    · exact ⟨rfl, rfl, fun _ => rfl⟩
    · exact ⟨Channel.passed_push _ _, rfl, fun h => absurd h hclosed⟩

theorem log_pollRead (d : Duct) (n : ℕ) :
    (d.pollRead n).2.data.log = d.data.log ∧ (d.pollRead n).2.closed = d.closed := by
  unfold Duct.pollRead
  split_ifs <;> exact ⟨rfl, rfl⟩

theorem Carries.app (h : c.Carries) (op : AppOp) : { c with pipe := c.pipe.app op }.Carries := by
  cases op with
  | write bytes =>
    simp only [Pipe.app]
    split_ifs
    · exact h
    · obtain ⟨hpassed, -, hsame⟩ := passed_pollWrite c.pipe.up bytes
      refine ⟨h.sent.trans hpassed.symm, fun hclosed => ?_, h.handed, h.received, h.delivered,
        h.dropped, h.done, h.readClosed⟩
      dsimp only
      rw [hsame (h.closed hclosed).2]
      exact h.closed hclosed
  | read n =>
    simp only [Pipe.app]
    split_ifs
    · exact h
    · obtain ⟨hlog, hshut⟩ := log_pollRead c.pipe.down n
      refine ⟨h.sent, h.closed, h.handed, ?_, ?_, ?_, ?_, ?_⟩
      · exact hlog ▸ h.received
      · exact hlog ▸ h.delivered
      · exact hshut ▸ h.dropped
      · exact hshut ▸ h.done
      · exact hshut ▸ h.readClosed
  | shutdown =>
    simp only [Pipe.app]
    split_ifs
    · exact h
    · exact ⟨h.sent, fun hclosed => ⟨(h.closed hclosed).1, rfl⟩, h.handed, h.received, h.delivered,
        h.dropped, h.done, h.readClosed⟩
  | drop => exact h.dropApp

/-! ### What a round does -/

variable (w : Surroundings)

theorem Carries.handOver (h : c.Carries) : (c.handOver w).Carries := by
  unfold Conn.handOver
  split_ifs with hready
  · have hphase : 1 ≤ c.socket.state.phase := by
      rcases hready.1 with hstate | hstate <;> rw [hstate] <;> decide
    have handed : ∀ connected handler acts,
        { c with link := { c.link with app := false, connected, handler }, acts }.Carries :=
      fun _ _ _ => ⟨h.sent, h.closed, fun _ => hphase, h.received, h.delivered, h.dropped, h.done,
        h.readClosed⟩
    dsimp only
    split
    · split_ifs
      · exact (handed none c.link.handler c.acts).abort.dropApp
      · exact handed none c.link.handler _
    · exact handed c.link.connected none _
    · exact (handed c.link.connected c.link.handler c.acts).dropApp
  · exact h

theorem Carries.giveUp (h : c.Carries) : (c.giveUp w).Carries := by
  have hfirst : (if c.link.connected.any (· ∈ w.closedReplies) then
      { c with socket := c.socket.abort } else c).Carries := by
    split_ifs
    · exact h.abort
    · exact h
  unfold Conn.giveUp
  generalize (if c.link.connected.any (· ∈ w.closedReplies) then
      { c with socket := c.socket.abort } else c) = c' at hfirst
  dsimp only
  split_ifs
  · exact hfirst.abort
  · exact hfirst

/-- What moving bytes to the socket comes to. -/
inductive Uploads (c : Conn) : Conn → Prop
  | nothing : Uploads c c
  | ends (hend : c.pipe.up.AtEnd) : Uploads c
      { c with link := { c.link with writeClosed := true }, socket := c.socket.close }
  | moves {n : ℕ} (hopen : c.link.writeClosed = false)
      (hroom : n ≤ bufferSize - c.socket.sendQueue) : Uploads c
      { c with
        pipe := { c.pipe with up := { c.pipe.up with data := c.pipe.up.data.pop n } }
        socket := c.socket.sendSlice (c.pipe.up.data.pending.take n) }

theorem upload_uploads (c : Conn) : Uploads c (c.upload w) := by
  unfold Conn.upload
  split_ifs with hready
  · obtain ⟨hsend, hopen, -, -⟩ := hready
    have hpos : 0 < min (bufferSize - c.socket.sendQueue) chunkSize := by
      simp only [Socket.canSend, Bool.and_eq_true, decide_eq_true_eq] at hsend
      exact Nat.lt_min.2 ⟨Nat.sub_pos_of_lt hsend.2, by decide⟩
    have hle := Nat.min_le_left (bufferSize - c.socket.sendQueue) chunkSize
    generalize min (bufferSize - c.socket.sendQueue) chunkSize = available at hpos hle
    dsimp only
    unfold Duct.pollRead
    split_ifs with hpending hclosed
    · -- there is room for at least one byte, so what was read is not the end
      have hne : c.pipe.up.data.pending.take available ≠ [] := by
        simp only [ne_eq, List.take_eq_nil_iff, not_or]
        exact ⟨by omega, hpending⟩
      split
      · rename_i hread
        exact absurd (Poll.ready.inj (Prod.mk.inj hread).1) hne
      · rename_i hread
        obtain ⟨hdata, rfl⟩ := Prod.mk.inj hread
        cases hdata
        exact .moves (by simpa using hopen) hle
      · rename_i hread
        cases (Prod.mk.inj hread).1
      · rename_i hread
        cases (Prod.mk.inj hread).1
    · exact .ends ⟨not_not.1 hpending, hclosed⟩
    · exact .nothing
  · exact .nothing

theorem Carries.upload (h : c.Carries) : (c.upload w).Carries := by
  have huploads := upload_uploads w c
  generalize c.upload w = c' at huploads
  cases huploads with
  | nothing => exact h
  | ends hend =>
    have hclosed := h.socket (s := c.socket.close) (Socket.rx_close _) (Socket.tx_close _) (Socket.phase_close _)
    exact ⟨hclosed.sent, fun _ => hend, hclosed.handed, hclosed.received, hclosed.delivered,
      hclosed.dropped, hclosed.done, hclosed.readClosed⟩
  | @moves n hopen hroom =>
    have hall : (c.pipe.up.data.pending.take n).take (bufferSize - c.socket.sendQueue) =
        c.pipe.up.data.pending.take n := by
      rw [List.take_take, Nat.min_eq_right hroom]
    refine ⟨?_, fun hclosed => ?_, h.handed, h.received, h.delivered, h.dropped, h.done,
      h.readClosed⟩
    · simp only [Socket.sendSlice, Channel.log_push, hall, Channel.passed_pop, h.sent]
    · exact absurd (hopen.symm.trans hclosed) Bool.false_ne_true

/-- What moving bytes to the application comes to. -/
inductive Downloads (c : Conn) : Conn → Prop
  | nothing : Downloads c c
  | moves {n : ℕ} (hopen : c.pipe.down.closed = false) : Downloads c
      { c with
        pipe := { c.pipe with
          down := { c.pipe.down with data := c.pipe.down.data.push (c.socket.rx.pending.take n) } }
        socket := c.socket.consume n }
  | discards {n : ℕ} (hshut : c.pipe.down.closed = true) (hrest : c.socket.rx.pending ≠ []) :
      Downloads c
        { c with link := { c.link with readClosed := true }, socket := c.socket.consume n }

theorem download_downloads (c : Conn) : Downloads c (c.download w) := by
  unfold Conn.download
  split_ifs with hready
  · obtain ⟨hrecv, -, -⟩ := hready
    have hrest : c.socket.rx.pending ≠ [] := by
      simp only [Socket.canRecv, Bool.and_eq_true, decide_eq_true_eq] at hrecv
      exact hrecv.2
    dsimp only
    unfold Duct.pollWrite
    split_ifs with hshut
    · exact .discards hshut hrest
    · dsimp only
      split_ifs with hroom
      · exact .nothing
      · generalize hdata : c.offered w = data
        have htake : data.take (bufferSize - c.pipe.down.data.pending.length) =
            c.socket.rx.pending.take
              (min data.length (bufferSize - c.pipe.down.data.pending.length)) := by
          rw [← hdata, offered, List.take_take, List.length_take]
          rw [List.take_eq_take_iff]
          omega
        rw [htake]
        exact .moves (by simpa using hshut)
  · exact .nothing

theorem Carries.download (h : c.Carries) : (c.download w).Carries := by
  have hdownloads := download_downloads w c
  generalize c.download w = c' at hdownloads
  cases hdownloads with
  | nothing => exact h
  | @moves n hopen =>
    have happ : c.pipe.appDropped = false := by
      by_contra hne
      have := h.dropped (by simpa using hne)
      rw [hopen] at this
      cases this
    have hlog : c.pipe.down.data.log ++ c.socket.rx.pending.take n = (c.socket.rx.pop n).passed := by
      rw [h.delivered happ, Channel.passed_pop]
    refine ⟨h.sent, h.closed, h.handed, ?_, fun _ => hlog, h.dropped, fun hshut => ?_,
      h.readClosed⟩
    · exact hlog ▸ List.prefix_refl _
    · exact absurd (hopen.symm.trans hshut) Bool.false_ne_true
  | @discards n hshut hrest =>
    have happ : c.pipe.appDropped = true :=
      (h.done hshut).resolve_right fun hdone => hrest hdone.1
    refine ⟨h.sent, h.closed, h.handed, ?_, fun hfalse => ?_, h.dropped, fun _ => .inl happ,
      fun _ => hshut⟩
    · simp only [Socket.consume, Channel.passed_pop]
      exact h.received.trans (List.prefix_append _ _)
    · exact absurd (hfalse.symm.trans happ) Bool.false_ne_true

theorem Carries.finish (h : c.Carries) : c.finish.Carries := by
  unfold Conn.finish
  split_ifs with hready
  · obtain ⟨hmay, -, happ⟩ := hready
    have hdone : c.socket.rx.pending = [] ∧ c.socket.state.phase = 2 := by
      simp only [Socket.mayRecv, Bool.not_eq_true', Bool.or_eq_false_iff, decide_eq_false_iff_not,
        not_not] at hmay
      have hphase := h.handed (by simpa using happ)
      refine ⟨hmay.2, ?_⟩
      cases hstate : c.socket.state <;> simp_all [State.phase]
    exact ⟨h.sent, h.closed, h.handed, h.received, h.delivered, fun _ => rfl,
      fun _ => .inr hdone, fun _ => rfl⟩
  · exact h

theorem Carries.refuse (h : c.Carries) : c.refuse.Carries := by
  unfold Conn.refuse
  split
  · split_ifs
    · exact ⟨h.sent, h.closed, h.handed, h.received, h.delivered, h.dropped, h.done, h.readClosed⟩
    · exact h
  · exact h

theorem Carries.poll (h : c.Carries) : (c.poll w).Carries :=
  (((((h.handOver w).giveUp w).upload w).download w).finish).refuse

end Conn

/-! ### After the link was removed -/

/-- What remains of a connection whose link was removed. -/
structure Ended (link : Link) (socket : Socket) (pipe : Pipe) : Prop where
  sent : socket.tx.log <+: pipe.up.data.log
  closed : link.writeClosed = true → socket.tx.log = pipe.up.data.log
  received : pipe.down.data.log <+: socket.rx.log
  /-- Everything the socket has received is in the pipe of an application that is there. -/
  delivered : pipe.appDropped = true ∨ pipe.down.data.log = socket.rx.log
  shut : pipe.up.closed = true ∧ pipe.down.closed = true

theorem Conn.Carries.ended {c : Conn} (h : c.Carries) (hover : c.isOver = true) :
    Ended c.link c.socket (if c.link.app then c.pipe.dropApp.dropLink else c.pipe.dropLink) := by
  have hfaithful := h.faithful
  have hdrop : Ended c.link c.socket c.pipe.dropLink :=
    ⟨hfaithful.sent, fun hclosed => (hfaithful.closed hclosed).2, hfaithful.received,
      h.over hover, rfl, rfl⟩
  split_ifs
  · exact ⟨hdrop.sent, hdrop.closed, hdrop.received, .inl rfl, rfl, rfl⟩
  · exact hdrop

namespace Ended

variable {link : Link} {socket : Socket} {pipe : Pipe}

theorem faithful (h : Ended link socket pipe) : Conn.Faithful { link, socket, pipe } := by
  refine ⟨h.sent, fun hclosed => ⟨h.shut.1, h.closed hclosed⟩, h.received, fun hend => ?_⟩
  exact h.delivered.imp_right fun hlog => (Channel.passed_of_pending hend.1).trans hlog

theorem app (h : Ended link socket pipe) (op : AppOp) : Ended link socket (pipe.app op) := by
  cases op with
  | write bytes =>
    simp only [Pipe.app]
    split_ifs
    · exact h
    · rwa [(Conn.passed_pollWrite pipe.up bytes).2.2 h.shut.1]
  | read n =>
    simp only [Pipe.app]
    split_ifs
    · exact h
    · obtain ⟨hlog, hshut⟩ := Conn.log_pollRead pipe.down n
      exact ⟨h.sent, h.closed, hlog ▸ h.received, hlog ▸ h.delivered, h.shut.1,
        hshut ▸ h.shut.2⟩
  | shutdown =>
    simp only [Pipe.app]
    split_ifs
    · exact h
    · exact ⟨h.sent, h.closed, h.received, h.delivered, rfl, h.shut.2⟩
  | drop => exact ⟨h.sent, h.closed, h.received, .inl rfl, rfl, rfl⟩

end Ended

/-! ### All connections -/

namespace Actor

variable {π : Platform} {Q : Actor → PollAction → Prop} {s a b : Actor} {e : Event}

/-- The removal of a link is recorded when it is made. -/
theorem Small.mem_trace_remove (h : Small π Q s e a b) {link : Link} {socket : Socket}
    (hx : .remove link socket ∈ b.trace) : .remove link socket ∈ a.trace ∨
      ∃ index c, a.connAt index = some c ∧ c.isOver = true ∧ link = c.link ∧
        socket = c.socket ∧ b = a.removeLink index := by
  cases h with
  | sends h => exact .inl ((h.mem_trace hx).resolve_right id)
  | repeatPings h => exact .inl ((h.mem_trace hx).resolve_right id)
  | act h =>
    refine .inl ((List.mem_append.1 hx).resolve_right fun hx => ?_)
    rw [← List.mem_singleton.1 hx] at h
    exact h
  | probed => exact .inl ((List.mem_append.1 hx).resolve_right (by simp))
  | direct => exact .inl ((List.mem_append.1 hx).resolve_right (by simp))
  | deliver =>
    refine .inl ((mem_trace_deliver hx).resolve_right ?_)
    rintro ⟨stream, touched, -, h⟩
    cases h
  | newUdpFlow => rw [newUdpFlow_eq] at hx; exact .inl hx
  | lostUdpFlow => rw [newUdpFlow_eq] at hx; exact .inl hx
  | removeCancelled => rw [removeCancelled_eq] at hx; exact .inl hx
  | udpOutput => rw [udpOutput_eq] at hx; exact .inl hx
  | expireUdp => rw [expireUdp_eq] at hx; exact .inl hx
  | poll => rw [pollAction_eq] at hx; exact .inl hx
  | @pollLink _ index c _ _ _ hc =>
    obtain ⟨new, hnew, hof⟩ := (Conn.poll_goes (a.surroundings π) c).acts
    rw [(connAt_eq_some.1 hc).2.2.2, List.nil_append] at hnew
    unfold putConn at hx
    rw [hnew] at hx
    exact .inl ((List.mem_append.1 hx).resolve_right fun hx => hof _ hx)
  | @removeLink _ index c hc hover =>
    rw [removeLink_of_connAt hc] at hx
    refine (List.mem_append.1 hx).imp_right fun hx => ?_
    cases List.mem_singleton.1 hx
    exact ⟨index, c, hc, hover, rfl, rfl, rfl⟩
  | _ => exact .inl hx

/-- The pipe of a removed link is left to its application. -/
theorem Small.pipe_of_removed (h : Small π Q s e a b) {pipe : PipeId} {p : Pipe}
    (hp : a.pipes[pipe]? = some p) (hgone : ∀ link ∈ a.links, link.pipe ≠ pipe) :
    b.pipes[pipe]? = some p ∨ ∃ op, b.pipes[pipe]? = some (p.app op) := by
  have hlt := (List.getElem?_eq_some_iff.1 hp).1
  cases h.conns with
  | same _ _ hpipes => rw [hpipes]; exact .inl hp
  | accepted => exact .inl ((List.getElem?_append_left hlt).trans hp)
  | dialled => exact .inl ((List.getElem?_append_left hlt).trans hp)
  | polled => rw [pollAction_eq]; exact .inl hp
  | @round _ index c hc =>
    have hgoes := Conn.poll_goes (a.surroundings π) c
    have hne := hgone _ (List.mem_of_getElem? (connAt_eq_some.1 hc).1)
    rw [← hgoes.pipe] at hne
    exact .inl ((List.getElem?_set_ne hne).trans hp)
  | @removed _ index c hc =>
    have hne := hgone _ (List.mem_of_getElem? (connAt_eq_some.1 hc).1)
    rw [removeLink_of_connAt hc]
    left
    simp [hne, hp]
  | @app _ pipe' op =>
    by_cases heq : pipe' = pipe
    · subst heq
      right
      exact ⟨op, by simp [hp]⟩
    · left
      simp [heq, hp]

/-- Every pipe is accounted for: it has a link, or its link was removed and everything was
delivered. -/
structure Accounted (a : Actor) : Prop where
  wired : a.Wired
  conns : a.AllConns fun _ c => c.Carries
  removed : ∀ link socket, .remove link socket ∈ a.trace →
    (∀ other ∈ a.links, other.pipe ≠ link.pipe) ∧
      ∃ pipe, a.pipes[link.pipe]? = some pipe ∧ Ended link socket pipe
  pipes : ∀ pipe < a.pipes.length, (∃ link ∈ a.links, link.pipe = pipe) ∨
    ∃ link socket, .remove link socket ∈ a.trace ∧ link.pipe = pipe

theorem Small.removed (h : Small π Q s e a b) (hI : a.Accounted) {link : Link} {socket : Socket}
    (hx : .remove link socket ∈ b.trace) : (∀ other ∈ b.links, other.pipe ≠ link.pipe) ∧
      ∃ pipe, b.pipes[link.pipe]? = some pipe ∧ Ended link socket pipe := by
  rcases h.mem_trace_remove hx with hold | ⟨index, c, hc, hover, rfl, rfl, rfl⟩
  · obtain ⟨hgone, pipe, hpipe, hended⟩ := hI.removed link socket hold
    refine ⟨fun other hother heq => ?_, ?_⟩
    · have hlt := (List.getElem?_eq_some_iff.1 hpipe).1
      obtain ⟨old, hmem, hold, -⟩ := h.oldLinks.2 other hother (heq ▸ hlt)
      exact hgone old hmem (hold.trans heq)
    · rcases h.pipe_of_removed hpipe hgone with hsame | ⟨op, happ⟩
      · exact ⟨pipe, hsame, hended⟩
      · exact ⟨pipe.app op, happ, hended.app op⟩
  · obtain ⟨hlink, -, hpipe, -⟩ := connAt_eq_some.1 hc
    have hlt := lt_of_connAt hc
    rw [removeLink_of_connAt hc]
    refine ⟨fun other hother => ?_, _, ?_, (hI.conns index c hc).ended hover⟩
    · obtain ⟨i, hi, hne, rfl⟩ := List.mem_eraseIdx_iff_getElem.1
        ((swapRemove_perm hlt).mem_iff.1 hother)
      exact hI.wired.pipe_ne (List.getElem?_eq_getElem hi) hlink hne
    · simp [hpipe]

end Actor

end Tailcat.Runtime
