import Tailcat.Runtime.Answers
import Tailcat.Runtime.Sample

/-!
# Dials are answered

A dial waits in the link that was opened for it, until a pass over the links finds its connection
open or over, its receiver gone, or its twenty seconds past.  `Answers` shows that it is answered at
most once; here it is shown that it is answered, and what becomes of links and sockets meanwhile.

A pass gives every link a round of its own (`pollLinks_pass`).  In its round a connection that is
open is handed over, and one that is over is refused; one that takes too long is aborted, and so is
over in the same round, unless bytes are left in it that nobody can read any more.  That last case
is left to the network stack (`SeesOpen`): it takes a connection that opens and ends between two
passes over the links.

* `waitsFor_tick` : after a tick nobody waits who has waited for twenty seconds.
* `run_dial_answered` : in every run, a dial is answered by then.
* `links_match_sockets` : the links, their sockets and the dials, over whole runs.
-/

namespace Tailcat.Runtime.Actor

open Net

variable {π : Platform} {r : ReplyId} {a b : Actor}

/-! ### In time -/

/-- A link whose dial waits holds the application's end of its pipe. -/
def Held (a : Actor) : Prop := ∀ link ∈ a.links, link.connected.isSome → link.app = true

theorem Held.of_subset (h : a.Held) (hlinks : b.links ⊆ a.links) : b.Held :=
  fun link hlink => h link (hlinks hlink)

theorem Held.openLink (h : a.Held) {socket : Socket} {flow : TcpFlow}
    {connected : Option ReplyId} {handler : Option Handler} :
    (a.openLink socket flow connected handler).Held := by
  intro link hlink hconnected
  rcases List.mem_append.1 hlink with hlink | hlink
  · exact h link hlink hconnected
  · rw [List.mem_singleton.1 hlink]

theorem Small.held {Q : Actor → PollAction → Prop} {s : Actor} {e : Event}
    (h : Small π Q s e a b) (hI : a.Held) : b.Held := by
  cases h.conns with
  | same hlinks => exact hI.of_subset (by rw [hlinks]; exact fun _ h => h)
  | accepted => exact hI.openLink
  | dialled => exact hI.openLink
  | polled => exact hI.of_subset (by rw [pollAction_eq]; exact fun _ h => h)
  | @round _ index c hc =>
    intro link hlink hconnected
    rcases List.mem_or_eq_of_mem_set hlink with hold | rfl
    · exact hI link hold hconnected
    · obtain ⟨result, hr⟩ := Option.isSome_iff_exists.1 hconnected
      obtain ⟨hbefore, happ, -⟩ := Conn.waits_poll hr
      rw [← happ]
      exact hI c.link (List.mem_of_getElem? (connAt_eq_some.1 hc).1) (by rw [hbefore]; rfl)
  | removed hc =>
    rw [removeLink_of_connAt hc]
    refine hI.of_subset fun link hmem => ?_
    exact List.mem_of_mem_eraseIdx ((swapRemove_perm (lt_of_connAt hc)).mem_iff.1 hmem)
  | app => exact hI.of_subset fun _ h => h

theorem init_held (setup : Setup) : (init setup).Held := by
  have hempty : ∀ b : Actor, b.links = [] → b.Held := by
    intro b hb link hlink
    rw [hb] at hlink
    cases hlink
  refine hempty _ ?_
  unfold init addPeer
  dsimp only
  split
  · split_ifs <;> rfl
  · rfl

theorem run_held (setup : Setup) (es : List Event) : (run π (init setup) es).Held :=
  run_invariant (init_held setup) (fun _ _ _ _ h hI => h.held hI) es

/-- A dial whose connection is open at a pass is answered with it. -/
def Connects (a b : Actor) : Prop :=
  ∀ i c r, a.connAt i = some c → c.link.connected = some r →
    (c.socket.state = .established ∨ c.socket.state = .closeWait) → r ∉ a.closedReplies →
    .answer r (.connected c.link.pipe) ∈ b.trace

/-- No connection that a dial waits for is past being open and has bytes that nobody has read.  The
actor ticks after every packet, and one packet does not both open a connection and end it. -/
def SeesOpen (a : Actor) : Prop :=
  ∀ i c, a.connAt i = some c → c.link.connected.isSome →
    c.socket.state = .established ∨ c.socket.state = .closeWait ∨ c.socket.rx.pending = []

/-- After a pass nobody waits who has waited for twenty seconds. -/
theorem waitsFor_pollLinks (h : a.Wired) (howned : a.Owned) (hheld : a.Held) (hsees : a.SeesOpen)
    (hlong : ∀ link ∈ a.links, link.connected = some r →
      connectTimeout < a.now - link.started) :
    (a.pollLinks π).waitsFor r = 0 := by
  have hwired : (a.pollLinks π).Wired :=
    (pollLinks_changes (π := π) (Q := AnyPoll) (s := a) (e := .tick [] []) rfl h).wired h
  refine List.countP_eq_zero.2 fun link hlink hconnected => ?_
  have hr : link.connected = some r := of_decide_eq_true hconnected
  obtain ⟨j, hj⟩ := List.getElem?_of_mem hlink
  obtain ⟨c, hc⟩ := hwired.connAt_isSome (List.getElem?_eq_some_iff.1 hj).1
  obtain rfl : c.link = link := Option.some.inj ((connAt_eq_some.1 hc).1.symm.trans hj)
  obtain ⟨i, c₀, hc₀, -, rfl⟩ := ((pollLinks_pass (π := π) h howned).kept c).1 ⟨j, hc⟩
  have hbefore : c₀.link.connected = some r := (Conn.waits_poll hr).1
  have hsome : c₀.link.connected.isSome := by
    rw [hbefore]
    rfl
  have hmem : c₀.link ∈ a.links := List.mem_of_getElem? (connAt_eq_some.1 hc₀).1
  have hnone := Conn.answered_in_time (w := { a with draws := a.draws + 3 * i }.surroundings π)
    (hheld c₀.link hmem hsome) (hlong c₀.link hmem hbefore) (hsees i c₀ hc₀ hsome)
  cases hnone.symm.trans hr

theorem now_beforePass (a : Actor) (first : List PollAction) :
    (a.beforePass π first).now = a.now := by
  have hpoll : ∀ b : Actor, (b.ifacePoll π first).now = b.now := by
    intro b
    unfold ifacePoll
    induction first generalizing b with
    | nil => rfl
    | cons action first ih =>
      rw [List.foldl_cons, ih, pollAction_eq]
  rw [beforePass, hpoll, expireUdp_eq]

/-- The same for a whole tick. -/
theorem waitsFor_tick (hs : a.Spare r) (h : a.Wired) (howned : a.Owned) (hheld : a.Held)
    {first : List PollAction} (hsees : (a.beforePass π first).SeesOpen)
    (hlong : ∀ link ∈ a.links, link.connected = some r →
      connectTimeout < a.now - link.started) (second : List PollAction) :
    (a.tick π first second).waitsFor r = 0 := by
  have hchanges := beforePass_changes (π := π) (s := a) a first second
  have hwired := hchanges.wired h
  have hbefore := accounts_beforePass (π := π) hs first
  have hpass := accounts_pollLinks (π := π) hbefore.spare hwired
  have hzero : ((a.beforePass π first).pollLinks π).waitsFor r = 0 := by
    refine waitsFor_pollLinks hwired
      (hchanges.preserves (fun _ _ hsmall => hsmall.owned) howned)
      (hchanges.preserves (fun _ _ hsmall => hsmall.held) hheld) hsees fun link hlink hr => ?_
    obtain ⟨old, hold, hr', hstarted⟩ := hbefore.waits link hlink hr
    rw [now_beforePass, ← hstarted]
    exact hlong old hold hr'
  refine List.countP_eq_zero.2 fun link hlink hconnected => ?_
  obtain ⟨old, hold, hr, -⟩ := (accounts_afterPass (π := π) hpass.spare second).waits link hlink
    (of_decide_eq_true hconnected)
  exact List.countP_eq_zero.1 hzero old hold (decide_eq_true hr)

/-- The link of a dial is as old as the dial. -/
theorem dial_started (hs : a.Spare r) (hnone : a.waitsFor r = 0) (target : SocketAddr) :
    ∀ link ∈ (a.dial π target r).links, link.connected = some r → link.started = a.now := by
  have hold : ∀ link ∈ a.links, link.connected = some r → link.started = a.now :=
    fun link hlink hr => absurd (decide_eq_true hr) (List.countP_eq_zero.1 hnone link hlink)
  unfold dial
  split
  · exact hold
  split
  · exact hold
  dsimp only
  split
  · exact hold
  · rename_i socket _
    have hopened : (a.advancePort.openLink socket (⟨a.localAddr, a.nextPort⟩,
        ⟨nat64Addr target.ip, target.port⟩) (some r) none).Spare r := ⟨hs.pings, hs.drains⟩
    intro link hlink hr
    obtain ⟨link', hlink', hr', hstarted⟩ :=
      (Accounts.of_heard (heard_advertise (π := π)) hopened).waits link hlink hr
    rw [← hstarted]
    rcases List.mem_append.1 hlink' with hlink' | hlink'
    · exact hold link' hlink' hr'
    · rw [List.mem_singleton.1 hlink']
      rfl

/-- Who has dialled twenty seconds ago is answered in the next tick, if not before. -/
theorem run_dial_answered (setup : Setup) {before after : List Event} (target : SocketAddr)
    (hbefore : ∀ e ∈ before, e.receiver ≠ some r) (hafter : ∀ e ∈ after, e.receiver ≠ some r)
    {a : Actor} (ha : a = run π (init setup) (before ++ .command (.dial target r) :: after))
    {first : List PollAction} (hsees : (a.beforePass π first).SeesOpen)
    (htime : connectTimeout < a.now - (run π (init setup) before).now) (second : List PollAction)
    (hopen : r ∉ (a.tick π first second).closedReplies) :
    (a.tick π first second).answersTo r = 1 := by
  obtain ⟨hspare, hzero⟩ := init_spare (r := r) setup
  have hfirst := run_accounts (π := π) hspare (init_wired setup) hbefore
  have hwired : (run π (init setup) before).Wired := run_wired setup before
  have hnone : (run π (init setup) before).waitsFor r = 0 := by
    have hle := hfirst.le
    rw [hzero, owed] at hle
    omega
  have hdialled := step_wired (π := π) hwired (.command (.dial target r))
  have hlast := run_accounts (π := π) (dial_owes (π := π) hfirst.spare target).1 hdialled hafter
  have hrun : a = run π ((run π (init setup) before).dial π target r) after := by
    rw [ha, run, Transition.run_append]
    rfl
  rw [← hrun] at hlast
  have hwaits : (a.tick π first second).waitsFor r = 0 := by
    refine waitsFor_tick hlast.spare (ha ▸ run_wired setup _) (ha ▸ run_owned setup _)
      (ha ▸ run_held setup _) hsees (fun link hlink hr => ?_) second
    obtain ⟨old, hold, hr', hstarted⟩ := hlast.waits link hlink hr
    rwa [← hstarted, dial_started hfirst.spare hnone target old hold hr']
  have htick : a.tick π first second = run π (init setup)
      (before ++ .command (.dial target r) :: (after ++ [.tick first second])) := by
    rw [← List.cons_append, ← List.append_assoc, run, Transition.run_append, ha]
    rfl
  have howed := (@run_dial π r setup before (after ++ [.tick first second]) target
    hbefore fun e he => by
      rcases List.mem_append.1 he with he | he
      · exact hafter e he
      · rw [List.mem_singleton.1 he]
        exact (Option.some_ne_none r).symm).2
  rw [← htick] at howed
  have hone := howed hopen
  rw [owed, hwaits] at hone
  exact hone

/-! ### Links, sockets and dials -/

/-- The links and the sockets match. -/
structure Matched (a : Actor) : Prop where
  distinct : (a.links.map (·.socket)).Nodup
  socket : ∀ i, (a.sockets.get i).isSome ↔ ∃ link ∈ a.links, link.socket = i

theorem matched_of (h : a.Wired) (howned : a.Owned) : a.Matched where
  distinct := h.handles
  socket i := ⟨howned i, by
    rintro ⟨link, hlink, rfl⟩
    exact h.socket link hlink⟩

/-- A dial that still waits when a pass takes its link out is refused. -/
def Refuses (π : Platform) (a b : Actor) : Prop :=
  ∀ i c r, a.connAt i = some c →
    (c.handOver ({ a with draws := a.draws + 3 * i }.surroundings π)).link.connected = some r →
    (a.roundAt π i c).isOver = true →
    .answer r (.failed "TCP connection refused or closed") ∈ b.trace

/-- What holds of a receiver that came with a dial: it got one answer, or one link keeps it, or it
is gone and there is neither. -/
structure AnsweredOnce (a : Actor) (r : ReplyId) : Prop where
  le : a.answersTo r + a.waitsFor r ≤ 1
  eq : r ∉ a.closedReplies → a.answersTo r + a.waitsFor r = 1

/-- **Links, sockets and dials.**  In every state that is reached the links and the sockets match,
and no handle that a tick looks up is missing.  A pass over the links takes those out that are over
after their own round, with their sockets; a dial is answered with its connection when the pass
finds it open, and refused when its link is taken out.  So a dial is answered once, and at the
latest in the first tick after twenty seconds. -/
theorem links_match_sockets (π : Platform) (setup : Setup) (es : List Event) :
    (run π (init setup) es).Matched ∧
    (∀ first second, (run π (init setup) es).tickChecked π first second =
      some ((run π (init setup) es).tick π first second)) ∧
    (∀ first, ((run π (init setup) es).beforePass π first).Matched ∧
      Pass π ((run π (init setup) es).beforePass π first)
        (((run π (init setup) es).beforePass π first).pollLinks π) ∧
      Connects ((run π (init setup) es).beforePass π first)
        (((run π (init setup) es).beforePass π first).pollLinks π) ∧
      Refuses π ((run π (init setup) es).beforePass π first)
        (((run π (init setup) es).beforePass π first).pollLinks π)) ∧
    ∀ before after target r, es = before ++ .command (.dial target r) :: after →
      (∀ e ∈ before, e.receiver ≠ some r) → (∀ e ∈ after, e.receiver ≠ some r) →
      (run π (init setup) es).AnsweredOnce r ∧
      ∀ first second, ((run π (init setup) es).beforePass π first).SeesOpen →
        connectTimeout < (run π (init setup) es).now - (run π (init setup) before).now →
        r ∉ ((run π (init setup) es).tick π first second).closedReplies →
        ((run π (init setup) es).tick π first second).answersTo r = 1 := by
  have hwired := run_wired (π := π) setup es
  have howned := run_owned (π := π) setup es
  refine ⟨matched_of hwired howned, fun first second => tickChecked_eq hwired first second,
    fun first => ?_, ?_⟩
  -- one pass, in the state that it finds
  · have hchanges := beforePass_changes (π := π) (s := run π (init setup) es)
      (run π (init setup) es) first []
    have hwired' := hchanges.wired hwired
    have howned' := hchanges.preserves (fun _ _ hsmall => hsmall.owned) howned
    have hheld' := hchanges.preserves (fun _ _ hsmall => hsmall.held) (run_held (π := π) setup es)
    have hpass := pollLinks_pass (π := π) hwired' howned'
    refine ⟨matched_of hwired' howned', hpass, fun i c r hc hwaits hstate hopen => ?_,
      fun i c r hc hwaits hover => hpass.acts i c hc _ (Conn.refused hwaits hover)⟩
    have happ := hheld' c.link (List.mem_of_getElem? (connAt_eq_some.1 hc).1)
      (by rw [hwaits]; rfl)
    exact hpass.acts i c hc _ (Conn.connects ⟨hstate, happ⟩ hwaits hopen)
  -- one dial, by what came before and after it
  · rintro before after target r rfl hbefore hafter
    obtain ⟨hle, heq⟩ := run_dial (π := π) setup target hbefore hafter
    exact ⟨⟨hle, heq⟩, fun first second hsees htime hopen =>
      run_dial_answered setup target hbefore hafter rfl hsees htime second hopen⟩

open Sample in
/-- A client dials a server that never answers, and is told after twenty seconds. -/
theorem links_match_sockets_sample :
    let dialled := [Event.command (.dial (inside (keyOf 1) 80) 0), .elapse 20001]
    let a := run sample (init clientSetup) dialled
    a.answersTo 0 = 0 ∧ (a.tick sample [] []).answersTo 0 = 1 := by
  intro dialled a
  have hlinks : (a.beforePass sample []).links.length = 1 := by decide +kernel
  have hunread : ((a.beforePass sample []).connAt 0).all (fun c => c.socket.rx.pending = []) =
      true := by decide +kernel
  have hsees : (a.beforePass sample []).SeesOpen := by
    intro i c hc _
    have hlt := lt_of_connAt hc
    obtain rfl : i = 0 := by omega
    rw [hc] at hunread
    exact .inr (.inr (of_decide_eq_true hunread))
  refine ⟨by decide +kernel, ?_⟩
  exact ((links_match_sockets sample clientSetup dialled).2.2.2 [] [.elapse 20001]
    (inside (keyOf 1) 80) 0 rfl (fun _ he => by cases he)
    (fun e he => by rw [List.mem_singleton.1 he]; exact nofun)).2 [] [] hsees
      (by decide +kernel) (by decide +kernel)

end Tailcat.Runtime.Actor
