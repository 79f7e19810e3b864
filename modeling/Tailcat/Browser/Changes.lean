import Tailcat.Browser.Engine

/-!
# What an event does to the connections of the browser

`Change` lists what the engine does to its links and sockets, and `step_changes` says that no call
fails and that every event is a sequence of such changes, as long as each link has a socket
(`Linked`).

The engine indexes its set of sockets by the handles of links, and in the source an absent handle is
a panic; here it is the result `none`.  `Linked` excludes it: a link is added with its socket, and a
socket is removed with its link.

`Change` has one constructor for each thing that can happen: a connection is accepted or dialled, a
socket or a link is changed in place, a connection is removed, everything is cleared.  What the
relay, the peers and the timers do besides changes no connection (`Alike`).  The lemmas go through
the functions of the engine in the order of the source; the modules on handles and on four-tuples
use `step_changes` alone.
-/

namespace Tailcat.Browser.Engine

open Tailcat.Net Tailcat.Runtime Transition

variable {π : Platform} {s e e' e'' : Engine} {ev : Event}

/-! ### Changes -/

/-- The record of a new socket: its handle, its generation and its number. -/
def openedBy : Act → Option (ℕ × ℕ × ℕ)
  | .opened handle generation socket => some (handle, generation, socket)
  | _ => none

/-- The sockets that were created. -/
def opened (e : Engine) : List (ℕ × ℕ × ℕ) := e.trace.filterMap openedBy

theorem opened_act (e : Engine) (x : Act) :
    (e.act x).opened = e.opened ++ (openedBy x).toList := by
  simp only [opened, act, List.filterMap_append]
  cases x <;> rfl

/-- The states have the same connections. -/
structure Alike (e e' : Engine) : Prop where
  localAddr : e'.localAddr = e.localAddr
  links : e'.links.entries.Perm e.links.entries
  sockets : e'.sockets = e.sockets
  nextGeneration : e'.nextGeneration = e.nextGeneration
  issued : e'.issued = e.issued
  opened : e'.opened = e.opened

/-- What the program does with a socket keeps its number, and a closed socket stays closed. -/
structure Keeps (x y : Socket) : Prop where
  id : y.id = x.id
  closed : x.state = .closed → y.state = .closed

/-- A change the engine makes while it processes the event `ev`, found in the state `s`. -/
inductive Change (s : Engine) (ev : Event) : Engine → Engine → Prop
  | alike {e e' : Engine} (h : Alike e e') : Change s ev e e'
  | accepted {e : Engine} {flow : TcpFlow} {socket : Socket} (hnew : e.duplicate flow = some false)
      (hsocket : e.tcpSocket.listen ⟨e.localAddr, flow.1.port⟩ = some socket) :
      Change s ev e (e.addLink socket flow flow.1.port false).2
  | dialled {destination : Ipv6Addr} {port nextPort : Port} {socket : Socket}
      (he : ev = .dial destination port) (hlength : s.links.size < maxConnections)
      (hsocket : s.tcpSocket.connect ⟨destination, port⟩ ⟨s.localAddr, s.nextPort⟩ = some socket) :
      Change s ev { s with nextPort } ({ s with nextPort }.addLink socket
        (⟨s.localAddr, s.nextPort⟩, ⟨destination, port⟩) port true).2
  | socket {e : Engine} {handle : ℕ} {f : Socket → Socket}
      (h : ∀ x, e.sockets.get handle = some x → Keeps x (f x)) :
      Change s ev e { e with sockets := e.sockets.update handle f }
  | link {e : Engine} {handle : ℕ} {f : Link → Link}
      (h : ∀ link, e.links.lookup handle = some link →
        (f link).generation = link.generation ∧ (f link).flow = link.flow) :
      Change s ev e { e with links := e.links.adjust handle f }
  | removed (e : Engine) (handle : ℕ) :
      Change s ev e { e with
        links := e.links.erase handle, sockets := e.sockets.remove handle }
  | cleared (e : Engine) : Change s ev e { e with links := ∅, sockets := ∅ }

/-- A sequence of changes. -/
abbrev Changes (s : Engine) (ev : Event) : Engine → Engine → Prop :=
  Relation.ReflTransGen (Change s ev)

/-- Every link has a socket. -/
def Linked (e : Engine) : Prop :=
  ∀ handle link, e.links.lookup handle = some link → (e.sockets.get handle).isSome

theorem Alike.refl (e : Engine) : Alike e e := ⟨rfl, .refl _, rfl, rfl, rfl, rfl⟩

theorem Alike.trans {m : Engine} (h : Alike e m) (h' : Alike m e'') : Alike e e'' :=
  ⟨h'.localAddr.trans h.localAddr, h'.links.trans h.links, h'.sockets.trans h.sockets,
    h'.nextGeneration.trans h.nextGeneration, h'.issued.trans h.issued, h'.opened.trans h.opened⟩

theorem Alike.lookup (h : Alike e e') (handle : ℕ) :
    e'.links.lookup handle = e.links.lookup handle :=
  AList.perm_lookup h.links

theorem Linked.alike (hI : e.Linked) (h : Alike e e') : e'.Linked := by
  intro handle link hlink
  rw [h.lookup] at hlink
  rw [h.sockets]
  exact hI handle link hlink

theorem isSome_get_update (sockets : SocketSet) (i j : ℕ) (f : Socket → Socket) :
    ((sockets.update i f).get j).isSome = (sockets.get j).isSome := by
  rw [Slots.get_update]
  split_ifs
  · exact Option.isSome_map
  · rfl

theorem Linked.addLink (hI : e.Linked) (socket : Socket) (flow : TcpFlow) (port : Port)
    (notified : Bool) : (e.addLink socket flow port notified).2.Linked := by
  intro handle link hlink
  have hlink' : (e.links.insert (e.sockets.add socket).1 _).lookup handle = some link := hlink
  show ((e.sockets.add socket).2.get handle).isSome
  rw [Slots.get_add]
  rw [Slots.add_fst] at hlink'
  split_ifs with heq
  · rfl
  · rw [AList.lookup_insert_ne heq] at hlink'
    exact hI handle link hlink'

theorem Change.linked (h : Change s ev e e') (hI : e.Linked) : e'.Linked := by
  cases h with
  | alike h => exact hI.alike h
  | accepted => exact hI.addLink _ _ _ _
  | dialled => exact Linked.addLink (fun handle link hlink => hI handle link hlink) _ _ _ _
  | socket =>
    intro handle link hlink
    rw [isSome_get_update]
    exact hI handle link hlink
  | @link _ handle' f _ =>
    intro handle link hlink
    rw [Table.lookup_adjust] at hlink
    split_ifs at hlink with heq
    · subst heq
      obtain ⟨old, hold, -⟩ := Option.map_eq_some_iff.1 hlink
      exact hI handle old hold
    · exact hI handle link hlink
  | removed _ handle' =>
    intro handle link hlink
    by_cases heq : handle = handle'
    · subst heq
      have := (AList.lookup_erase handle e.links).symm.trans hlink
      cases this
    · have hlink' := (AList.lookup_erase_ne heq).symm.trans hlink
      rw [Slots.get_remove, if_neg heq]
      exact hI handle link hlink'
  | cleared =>
    intro handle link hlink
    cases hlink

namespace Changes

theorem single (h : Change s ev e e') : Changes s ev e e' := Relation.ReflTransGen.single h

theorem linked (h : Changes s ev e e') (hI : e.Linked) : e'.Linked := by
  induction h with
  | refl => exact hI
  | tail _ hstep ih => exact hstep.linked ih

theorem alike (h : Alike e e') : Changes s ev e e' := single (.alike h)

end Changes

/-- What follows a computation that leads from `e` by changes. -/
theorem leads_bind {o : Option Engine} {f : Engine → Option Engine} (hI : e.Linked)
    (h : Yields o (Changes s ev e))
    (hf : ∀ e', e'.Linked → Yields (f e') (Changes s ev e')) :
    Yields (o.bind f) (Changes s ev e) :=
  h.bind fun e' he' => (hf e' (Changes.linked he' hI)).mono fun _ h' => he'.trans h'

/-- A loop whose rounds lead from state to state by changes. -/
theorem leads_foldlM {α : Type} {f : Engine → α → Option Engine} {l : List α} (hI : e.Linked)
    (hf : ∀ e', ∀ x ∈ l, e'.Linked → Yields (f e' x) (Changes s ev e')) :
    Yields (l.foldlM f e) (Changes s ev e) :=
  Yields.foldlM (I := Changes s ev e) .refl fun e' x hx he' =>
    (hf e' x hx (Changes.linked he' hI)).mono fun _ h' => he'.trans h'

/-! ### What leaves the connections alone -/

theorem alike_act (e : Engine) {x : Act} (h : openedBy x = none) : Alike e (e.act x) :=
  ⟨rfl, .refl _, rfl, rfl, rfl, by rw [opened_act, h]; simp⟩

theorem alike_draw (e : Engine) : Alike e e.draw := ⟨rfl, .refl _, rfl, rfl, rfl, rfl⟩

theorem alike_send (e : Engine) (kind : UInt8) (body : Bytes) : Alike e (e.send π kind body) := by
  unfold send
  split_ifs
  · exact (alike_draw e).trans (alike_act _ rfl)
  · exact alike_draw e

theorem alike_packet (e : Engine) (key : Key) (b : Bytes) : Alike e (e.packet π key b) :=
  alike_send e _ _

theorem alike_addPeer (e : Engine) (key disco : Key) : Alike e (e.addPeer key disco) := by
  unfold addPeer
  split_ifs
  · exact .refl e
  · exact ⟨rfl, .refl _, rfl, rfl, rfl, rfl⟩

theorem alike_pushIncoming (e : Engine) (packet : Bytes) : Alike e (e.pushIncoming packet) := by
  unfold pushIncoming
  split_ifs
  · exact ⟨rfl, .refl _, rfl, rfl, rfl, rfl⟩
  · exact .refl e

theorem alike_meowPacket (e : Engine) (source : Key) (data : Bytes) :
    Alike e (e.meowPacket π source data) := by
  unfold meowPacket
  dsimp only
  split_ifs
  · exact (alike_addPeer e _ _).trans (alike_packet _ _ _)
  · exact alike_addPeer e _ _
  · exact .refl e
  · exact ⟨rfl, .refl _, rfl, rfl, rfl, rfl⟩
  · exact .refl e

theorem alike_discoPacket (e : Engine) (source : Key) (data : Bytes) :
    Alike e (e.discoPacket π source data) := by
  unfold discoPacket
  split
  · exact .refl e
  · split_ifs
    · exact .refl e
    · split
      · exact .refl e
      · split_ifs
        · exact .refl e
        · dsimp only
          split
          · exact (alike_draw e).trans (alike_packet _ _ _)
          · exact alike_draw e

theorem alike_meowTimer (e : Engine) : Alike e (e.meowTimer π) := by
  unfold meowTimer
  split
  · split_ifs
    · exact Alike.trans (m := { e with lastMeow := e.now }) ⟨rfl, .refl _, rfl, rfl, rfl, rfl⟩
        (alike_packet _ _ _)
    · exact .refl e
  · exact .refl e

theorem alike_heartbeat (e : Engine) : Alike e (e.heartbeat π) := by
  unfold heartbeat
  split_ifs
  · exact Alike.trans (m := { e with lastHeartbeat := e.now }) ⟨rfl, .refl _, rfl, rfl, rfl, rfl⟩
      ((alike_draw _).trans (alike_send _ _ _))
  · exact .refl e

theorem alike_egress (e : Engine) (packet : Bytes) : Alike e (e.egress π packet) := by
  unfold egress
  split_ifs
  · exact .refl e
  · split
    · exact .refl e
    · split
      · exact (alike_draw e).trans (alike_packet _ _ _)
      · exact alike_draw e

theorem alike_tunnelTimer (e : Engine) (key : Key) : Alike e (e.tunnelTimer π key) := by
  unfold tunnelTimer
  split
  · exact (alike_draw e).trans (alike_packet _ _ _)
  · exact alike_draw e

theorem alike_foldl {α : Type} {f : Engine → α → Engine} (hf : ∀ e x, Alike e (f e x))
    (l : List α) (e : Engine) : Alike e (l.foldl f e) := by
  induction l generalizing e with
  | nil => exact .refl e
  | cons x l ih => exact (hf e x).trans (ih _)

theorem alike_timers (e : Engine) : Alike e (e.timers π) := by
  unfold timers
  split_ifs
  · exact Alike.trans (m := { e with lastTimers := e.now }) ⟨rfl, .refl _, rfl, rfl, rfl, rfl⟩
      (alike_foldl (fun e key => alike_tunnelTimer e key) _ _)
  · exact .refl e

theorem alike_drainOutgoing (e : Engine) :
    Alike e (e.outgoing.foldl (egress π) { e with outgoing := [] }) :=
  Alike.trans (m := { e with outgoing := [] }) ⟨rfl, .refl _, rfl, rfl, rfl, rfl⟩
    (alike_foldl (fun e packet => alike_egress e packet) _ _)

/-! ### Packets -/

theorem isSome_of_mem_entries (hI : e.Linked) {entry : (_ : ℕ) × Link}
    (h : entry ∈ e.links.entries) : (e.sockets.get entry.1).isSome :=
  hI entry.1 entry.2 (AList.mem_lookup_iff.2 h)

theorem isSome_of_mem_keys (hI : e.Linked) {handle : ℕ} (h : handle ∈ e.links.keys) :
    (e.sockets.get handle).isSome := by
  obtain ⟨entry, hentry, rfl⟩ := List.mem_map.1 h
  exact isSome_of_mem_entries hI hentry

/-- A search does not fail if no test does. -/
theorem isSome_anyM {α : Type} {f : α → Option Bool} {l : List α}
    (h : ∀ x ∈ l, (f x).isSome) : (l.anyM f).isSome := by
  induction l with
  | nil => rfl
  | cons x l ih =>
    obtain ⟨b, hb⟩ := Option.isSome_iff_exists.1 (h x (by simp))
    rw [List.anyM_cons, hb]
    cases b with
    | true => rfl
    | false => exact ih fun y hy => h y (by simp [hy])

theorem isSome_allM {α : Type} {f : α → Option Bool} {l : List α}
    (h : ∀ x ∈ l, (f x).isSome) : (l.allM f).isSome := by
  induction l with
  | nil => rfl
  | cons x l ih =>
    obtain ⟨b, hb⟩ := Option.isSome_iff_exists.1 (h x (by simp))
    rw [List.allM_cons, hb]
    cases b with
    | false => rfl
    | true => exact ih fun y hy => h y (by simp [hy])

theorem isSome_duplicate (hI : e.Linked) (flow : TcpFlow) : (e.duplicate flow).isSome := by
  refine isSome_anyM fun entry hentry => ?_
  split_ifs
  · rw [Option.isSome_map]
    exact isSome_of_mem_entries hI hentry
  · rfl

theorem openSyn_changes (hI : e.Linked) (flow : TcpFlow) :
    Yields (e.openSyn flow) (Changes s ev e) := by
  obtain ⟨found, hfound⟩ := Option.isSome_iff_exists.1 (isSome_duplicate hI flow)
  unfold openSyn
  rw [hfound]
  show Yields (if !found ∧ e.links.size < maxConnections then _ else _) _
  split_ifs with hnew
  · split
    · rename_i socket hsocket
      have hfalse : found = false := by simpa using hnew.1
      exact .ofSome (.single (.accepted (hfalse ▸ hfound) hsocket))
    · exact .ofSome .refl
  · exact .ofSome .refl

theorem receiveIp_changes (hI : e.Linked) (packet : Bytes) :
    Yields (e.receiveIp π packet) (Changes s ev e) := by
  unfold receiveIp
  split
  · exact .ofSome .refl
  · split
    · exact .ofSome .refl
    · split
      · exact .ofSome .refl
      · split
        · split
          · exact .ofSome .refl
          · exact leads_bind hI (openSyn_changes hI _) fun e' _ =>
              .ofSome (.alike (alike_pushIncoming e' packet))
        · exact .ofSome (.alike (alike_pushIncoming e packet))

theorem receive_changes (hI : e.Linked) (source : Key) (data : Bytes) :
    Yields (e.receive π source data) (Changes s ev e) := by
  unfold receive
  split_ifs
  · exact .ofSome (.alike (alike_meowPacket e source data))
  · exact .ofSome (.alike (alike_discoPacket e source data))
  · refine (leads_foldlM (hI.alike (alike_draw e)) fun e' x _ he' => ?_).mono fun _ h =>
      (Changes.alike (alike_draw e)).trans h
    cases x with
    | writeToNetwork b => exact .ofSome (.alike (alike_packet e' source b))
    | writeToTunnelV6 b =>
      simp only [tunnelWrite]
      split_ifs
      · exact receiveIp_changes he' b
      · exact .ofSome .refl
  · exact .ofSome .refl

theorem frame_changes (hI : e.Linked) (kind : UInt8) (body : Bytes) :
    Yields (e.frame π kind body) (Changes s ev e) := by
  unfold frame
  split_ifs
  · exact receive_changes hI _ _
  · exact .ofSome (.alike (alike_send e _ _))
  · exact .ofSome (.alike ⟨rfl, .refl _, rfl, rfl, rfl, rfl⟩)
  · exact .ofSome .refl

theorem frames_changes (n : ℕ) (hI : e.Linked) :
    Yields (frames π n e) fun result => Changes s ev e result.2 := by
  induction n generalizing e with
  | zero => exact .ofSome .refl
  | succ n ih =>
    have hws : ∀ ws, Alike e { e with ws } := fun _ => ⟨rfl, .refl _, rfl, rfl, rfl, rfl⟩
    unfold frames
    split
    · exact .ofSome (.alike (hws _))
    · exact .ofSome (.alike (hws _))
    · rename_i kind body ws _
      have hI' := hI.alike (hws ws)
      have hframe : Yields ({ e with ws }.frame π kind body) (Changes s ev { e with ws }) :=
        frame_changes hI' kind body
      refine hframe.bind fun e' he' => ?_
      exact (ih (Changes.linked he' hI')).mono fun _ h =>
        ((Changes.alike (hws ws)).trans he').trans h

/-! ### Ticks -/

theorem keeps_progress (x : Socket) (p : Progress) : Keeps x (x.progress p) := by
  unfold Socket.progress
  split_ifs with hallows
  · exact ⟨rfl, fun hclosed => absurd hclosed hallows.not_closed⟩
  · exact ⟨rfl, fun hclosed => absurd hclosed hallows.not_closed⟩
  · exact ⟨rfl, id⟩

theorem keeps_close (x : Socket) : Keeps x x.close := by
  refine ⟨?_, fun hclosed => ?_⟩
  · unfold Socket.close
    split <;> rfl
  · rw [Socket.close, hclosed]
    exact hclosed

theorem pollAction_changes (e : Engine) (action : Actor.PollAction) :
    Changes s ev e (e.pollAction π action) := by
  unfold pollAction
  split
  · exact .single (.socket fun x _ => keeps_progress x _)
  · split
    · exact .refl
    · rename_i packet incoming _
      have hincoming : Alike e { e with incoming } := ⟨rfl, .refl _, rfl, rfl, rfl, rfl⟩
      split_ifs
      · exact .refl
      · dsimp only
        split
        · rename_i localEnd remote _
          refine (Changes.alike hincoming).trans ?_
          rcases SocketSet.deliver_cases e.sockets localEnd remote _ with hsame | ⟨h, x, hx, hlisten, hupdate⟩
          · rw [hsame]
          · rw [hupdate]
            refine .single (.socket fun y hy => ⟨rfl, fun hclosed => ?_⟩)
            -- a socket that takes a SYN listens, so it is not closed
            cases hx.symm.trans hy
            rw [hlisten] at hclosed
            cases hclosed
        · exact .alike hincoming
  · split_ifs
    · exact .alike ⟨rfl, .refl _, rfl, rfl, rfl, rfl⟩
    · exact .refl

theorem foldl_pollAction_changes (actions : List Actor.PollAction) (e : Engine) :
    Changes s ev e (actions.foldl (pollAction π) e) := by
  induction actions generalizing e with
  | nil => exact .refl
  | cons action actions ih => exact (pollAction_changes e action).trans (ih _)

/-- A visit keeps the identity of the link, and a closed socket stays closed. -/
theorem visit_keeps (now contiguous : ℕ) (link : Link) (socket : Socket) :
    ((visit now contiguous link socket).1.generation = link.generation ∧
      (visit now contiguous link socket).1.flow = link.flow) ∧
      Keeps socket (visit now contiguous link socket).2.1 := by
  have hread : Keeps socket (if link.appClosed ∧ socket.canRecv then
      socket.consume (1 + contiguous % socket.rx.pending.length) else socket) := by
    split_ifs <;> exact ⟨rfl, id⟩
  unfold visit
  generalize (if link.appClosed ∧ socket.canRecv then
      socket.consume (1 + contiguous % socket.rx.pending.length) else socket) = x at hread
  dsimp only
  refine ⟨⟨?_, ?_⟩, ?_⟩
  · split_ifs <;> rfl
  · split_ifs <;> rfl
  · generalize (if (!link.notified && (decide (x.state = .established) ||
        decide (x.state = .closeWait))) = true then { link with notified := true } else link) = l
    split_ifs
    · exact ⟨hread.id, fun _ => rfl⟩
    · exact hread

/-- What holds while the links are visited, with `l` still to come. -/
structure Visiting (s : Engine) (ev : Event) (e : Engine) (l : List ((_ : ℕ) × Link))
    (v : List Accepted × List ℕ × Engine) : Prop where
  changes : Changes s ev e v.2.2
  keys : v.2.2.links.keys = e.links.keys
  same : ∀ handle link, v.2.2.links.lookup handle = some link →
    ∃ old, e.links.lookup handle = some old ∧ link.generation = old.generation ∧
      link.flow = old.flow
  nodup : v.2.1.Nodup
  visited : ∀ handle ∈ v.2.1, handle ∉ l.map (·.1) ∧ (v.2.2.sockets.get handle).isSome

theorem visitLink_visiting (hI : e.Linked) {entry : (_ : ℕ) × Link} {l : List ((_ : ℕ) × Link)}
    (hentry : entry ∈ e.links.entries) (hnodup : ((entry :: l).map (·.1)).Nodup)
    {v : List Accepted × List ℕ × Engine} (hv : Visiting s ev e (entry :: l) v) :
    Yields (visitLink π v entry) (Visiting s ev e l) := by
  obtain ⟨accepted, removed, e'⟩ := v
  obtain ⟨handle, link⟩ := entry
  obtain ⟨hchanges, hkeys, hsame, hremoved, hvisited⟩ := hv
  dsimp only at hchanges hkeys hsame hremoved hvisited
  have hlookup : e.links.lookup handle = some link := AList.mem_lookup_iff.2 hentry
  have hfresh : handle ∉ l.map (·.1) := (List.nodup_cons.1 hnodup).1
  have hlinked := Changes.linked hchanges hI
  have hmem : handle ∈ e'.links.keys := hkeys ▸ AList.mem_keys.1 (AList.lookup_isSome.1 (by
    rw [hlookup]
    rfl))
  -- a link that is still to be visited has its socket
  obtain ⟨socket, hsocket⟩ := Option.isSome_iff_exists.1 (isSome_of_mem_keys hlinked hmem)
  obtain ⟨⟨hgeneration, hflow⟩, hkeeps⟩ := visit_keeps e'.now (π.contiguous e'.draws) link socket
  have hvisit : visitLink π (accepted, removed, e') ⟨handle, link⟩ = some (afterVisit
      (accepted, removed, e') handle (visit e'.now (π.contiguous e'.draws) link socket)) := by
    unfold visitLink
    dsimp only
    rw [hsocket]
    rfl
  rw [hvisit]
  generalize visit e'.now (π.contiguous e'.draws) link socket = r at hgeneration hflow hkeeps ⊢
  obtain ⟨link', socket', accepts⟩ := r
  dsimp only at hgeneration hflow hkeeps ⊢
  have hpresent : ∀ i, ((e'.sockets.update handle fun _ => socket').get i).isSome =
      (e'.sockets.get i).isSome := fun i => isSome_get_update _ _ _ _
  -- the changes, the keys, the links of the start, and what is to be removed
  refine .ofSome ⟨?_, ?_, ?_, ?_, ?_⟩
  · refine ((hchanges.trans (Changes.alike (alike_draw e'))).tail ?_).tail (.socket (e := { e'.draw with
      links := e'.links.adjust handle fun _ => link' }) (f := fun _ => socket') fun x hx => ?_)
    · refine .link fun current hcurrent => ?_
      obtain ⟨old, hold, hg, hf⟩ := hsame handle current hcurrent
      cases hold.symm.trans hlookup
      exact ⟨hgeneration.trans hg.symm, hflow.trans hf.symm⟩
    · cases hsocket.symm.trans hx
      exact hkeeps
  · exact (Table.keys_adjust _ _ _).trans hkeys
  · intro i current hcurrent
    simp only [afterVisit] at hcurrent
    rw [Table.lookup_adjust] at hcurrent
    split_ifs at hcurrent with heq
    · subst heq
      obtain ⟨_, -, rfl⟩ := Option.map_eq_some_iff.1 hcurrent
      exact ⟨link, hlookup, hgeneration, hflow⟩
    · exact hsame i current hcurrent
  · simp only [afterVisit]
    split_ifs
    · refine List.nodup_append.2 ⟨hremoved, List.nodup_singleton _, ?_⟩
      intro i hi j hj heq
      subst heq
      rw [List.mem_singleton.1 hj] at hi
      exact (hvisited handle hi).1 (List.mem_cons_self ..)
    · exact hremoved
  · have hold : ∀ i ∈ removed, i ∉ l.map (·.1) ∧
        ((e'.sockets.update handle fun _ => socket').get i).isSome := fun i hi =>
      ⟨fun hmem => (hvisited i hi).1 (List.mem_cons_of_mem _ hmem),
        (hpresent i).trans (hvisited i hi).2⟩
    intro i hi
    simp only [afterVisit] at hi ⊢
    split_ifs at hi
    · rcases List.mem_append.1 hi with hi | hi
      · exact hold i hi
      · rw [List.mem_singleton.1 hi]
        exact ⟨hfresh, (hpresent handle).trans (by rw [hsocket]; rfl)⟩
    · exact hold i hi

theorem visiting_foldlM (hI : e.Linked) (l : List ((_ : ℕ) × Link))
    (hl : ∀ entry ∈ l, entry ∈ e.links.entries) (hnodup : (l.map (·.1)).Nodup)
    {v : List Accepted × List ℕ × Engine} (hv : Visiting s ev e l v) :
    Yields (l.foldlM (visitLink π) v) (Visiting s ev e []) := by
  induction l generalizing v with
  | nil => exact .ofSome hv
  | cons entry l ih =>
    rw [List.foldlM_cons]
    refine (visitLink_visiting hI (hl entry (by simp)) hnodup hv).bind fun v' hv' => ?_
    exact ih (fun x hx => hl x (by simp [hx])) (List.nodup_cons.1 hnodup).2 hv'

theorem removals_changes (removed : List ℕ) (hnodup : removed.Nodup)
    (hpresent : ∀ handle ∈ removed, (e.sockets.get handle).isSome) :
    Yields (removed.foldlM removeLink e) (Changes s ev e) := by
  induction removed generalizing e with
  | nil => exact .ofSome .refl
  | cons handle removed ih =>
    obtain ⟨hfresh, hrest⟩ := List.nodup_cons.1 hnodup
    obtain ⟨socket, hsocket⟩ := Option.isSome_iff_exists.1 (hpresent handle (by simp))
    rw [List.foldlM_cons]
    have hremove : removeLink e handle = some { e with
        links := e.links.erase handle, sockets := e.sockets.remove handle } := by
      unfold removeLink
      rw [hsocket]
      rfl
    rw [hremove]
    refine (ih hrest fun i hi => ?_).mono fun _ h => .head (.removed e handle) h
    have hne : i ≠ handle := fun heq => hfresh (heq ▸ hi)
    rw [Slots.get_remove, if_neg hne]
    exact hpresent i (by simp [hi])

theorem visitLinks_changes (hI : e.Linked) :
    Yields (e.visitLinks π) fun result => Changes s ev e result.2 := by
  have hvisit : Yields (e.links.entries.foldlM (visitLink π) ([], [], e)) (Visiting s ev e []) :=
    visiting_foldlM hI e.links.entries (fun _ h => h) e.links.nodupKeys
      ⟨.refl, rfl, fun _ link hlink => ⟨link, hlink, rfl, rfl⟩, .nil, by simp⟩
  unfold visitLinks
  refine hvisit.bind fun v hv => ?_
  obtain ⟨accepted, removed, e'⟩ := v
  have hremove : Yields (removed.foldlM removeLink e') (Changes s ev e') :=
    removals_changes removed hv.nodup fun handle hmem => (hv.visited handle hmem).2
  exact hremove.bind fun e'' he'' => .ofSome (hv.changes.trans he'')

/-! ### Closing -/

theorem abortSocket_changes {handle : ℕ} (h : (e.sockets.get handle).isSome) :
    Yields (e.abortSocket handle) fun e' => Changes s ev e e' ∧ e'.links = e.links := by
  obtain ⟨socket, hsocket⟩ := Option.isSome_iff_exists.1 h
  refine ⟨{ e with sockets := e.sockets.update handle (·.abort) }, ?_, ?_, rfl⟩
  · unfold abortSocket
    rw [hsocket]
    rfl
  · exact .single (.socket fun x _ => ⟨rfl, fun _ => rfl⟩)

theorem close_changes (hI : e.Linked) : Yields e.close (Changes s ev e) := by
  have hstart : Alike e { e with closed := true, ws := { e.ws with closed := true } } :=
    ⟨rfl, .refl _, rfl, rfl, rfl, rfl⟩
  have habort : Yields (e.links.keys.foldlM abortSocket
      { e with closed := true, ws := { e.ws with closed := true } })
      fun e' => Changes s ev e e' ∧ e'.links = e.links := by
    refine Yields.foldlM ⟨Changes.alike hstart, rfl⟩ fun e' handle hmem he' => ?_
    have hlinked := Changes.linked he'.1 hI
    have habort : Yields (e'.abortSocket handle) fun e'' => Changes s ev e' e'' ∧ e''.links = e'.links :=
      abortSocket_changes (isSome_of_mem_keys hlinked (he'.2 ▸ hmem))
    refine habort.mono fun e'' he'' => ?_
    exact ⟨he'.1.trans he''.1, he''.2.trans he'.2⟩
  unfold close
  refine habort.bind fun e' he' => .ofSome ?_
  refine (he'.1.tail (.cleared e')).trans (Changes.alike ?_)
  exact ⟨rfl, .refl _, rfl, rfl, rfl, rfl⟩

theorem closeDrained_changes (hI : e.Linked) : Yields e.closeDrained (Changes s ev e) := by
  unfold closeDrained
  split_ifs
  · have hdrained : e.drained.isSome := by
      refine isSome_allM fun handle hmem => ?_
      rw [Option.isSome_map]
      exact isSome_of_mem_keys hI hmem
    obtain ⟨drained, hdrained⟩ := Option.isSome_iff_exists.1 hdrained
    rw [hdrained]
    cases drained with
    | false => exact .ofSome .refl
    | true =>
      have hsince : ∀ t, Alike e { e with drainedAt := some t } :=
        fun _ => ⟨rfl, .refl _, rfl, rfl, rfl, rfl⟩
      show Yields (if _ then _ else _) _
      split_ifs
      · exact (close_changes (hI.alike (hsince _))).mono fun _ h =>
          (Changes.alike (hsince _)).trans h
      · exact .ofSome (.alike (hsince _))
  · exact .ofSome .refl

theorem tick_changes (hI : e.Linked) (actions : List Actor.PollAction) :
    Yields (e.tick π actions) fun result => Changes s ev e result.2 := by
  unfold tick
  have hframes : Yields (frames π 512 e) fun result => Changes s ev e result.2 :=
    frames_changes 512 hI
  refine hframes.bind fun r hr => ?_
  obtain ⟨result, e'⟩ := r
  cases result with
  | error err => exact .ofSome hr
  | ok _ =>
    have hI' := Changes.linked hr hI
    have hpolled : Changes s ev e' (actions.foldl (pollAction π) ((e'.meowTimer π).heartbeat π)) :=
      (Changes.alike ((alike_meowTimer e').trans (alike_heartbeat _))).trans
        (foldl_pollAction_changes actions _)
    dsimp only
    generalize actions.foldl (pollAction π) ((e'.meowTimer π).heartbeat π) = e₁ at hpolled
    have hsent : Changes s ev e'
        ((e₁.outgoing.foldl (egress π) { e₁ with outgoing := [] }).timers π) :=
      hpolled.trans (Changes.alike ((alike_drainOutgoing e₁).trans (alike_timers _)))
    generalize (e₁.outgoing.foldl (egress π) { e₁ with outgoing := [] }).timers π = e₂ at hsent
    have hvisit : Yields (e₂.visitLinks π) fun result => Changes s ev e₂ result.2 :=
      visitLinks_changes (Changes.linked hsent hI')
    refine hvisit.bind fun v hv => ?_
    obtain ⟨accepted, e₃⟩ := v
    have hall := (hr.trans hsent).trans hv
    have hdrained : Yields e₃.closeDrained (Changes s ev e₃) :=
      closeDrained_changes (Changes.linked hall hI)
    exact hdrained.bind fun e₄ he₄ => .ofSome (hall.trans he₄)

/-! ### Calls of the page -/

theorem alike_setConn (e : Engine) (i : ℕ) (conn : BrowserConn) : Alike e (e.setConn i conn) :=
  ⟨rfl, .refl _, rfl, rfl, rfl, rfl⟩

theorem isSome_of_liveHandle (hI : e.Linked) {handle generation : ℕ}
    (h : e.liveHandle handle generation = true) : (e.sockets.get handle).isSome := by
  obtain ⟨link, hlink, -⟩ := (Option.any_eq_true _ _).1 h
  exact hI handle link hlink

theorem isSome_of_live (hI : e.Linked) {conn : BrowserConn} (h : e.live conn = true) :
    (e.sockets.get conn.handle).isSome :=
  isSome_of_liveHandle hI (Bool.and_eq_true_iff.1 h).2

theorem closeSocket_changes {handle : ℕ} (h : (e.sockets.get handle).isSome) :
    Yields (e.closeSocket handle) fun e' => Changes s ev e e' ∧ e'.links = e.links := by
  obtain ⟨socket, hsocket⟩ := Option.isSome_iff_exists.1 h
  refine ⟨{ e with sockets := e.sockets.update handle (·.close) }, ?_, ?_, rfl⟩
  · unfold closeSocket
    rw [hsocket]
    rfl
  · exact .single (.socket fun x _ => keeps_close x)

/-- The outcomes of one round of a read. -/
inductive Reads (e : Engine) (conn : BrowserConn) : Option Answer × Engine → Prop
  | ends : Reads e conn (some .null, e)
  | waits : Reads e conn (none, e)
  | takes {socket : Socket} {data : Bytes} (hlive : e.live conn = true)
      (hsocket : e.sockets.get conn.handle = some socket) (hdata : data <+: socket.rx.pending) :
      Reads e conn (some (.bytes data),
        { e with sockets := e.sockets.update conn.handle (·.consume data.length) })

theorem readOnce_reads (hI : e.Linked) (conn : BrowserConn) :
    Yields (e.readOnce conn) (Reads e conn) := by
  unfold readOnce
  split_ifs with hgone
  · exact .ofSome .ends
  · have hlive : e.live conn = true := by simpa using hgone
    obtain ⟨socket, hsocket⟩ := Option.isSome_iff_exists.1 (isSome_of_live hI hlive)
    rw [hsocket]
    show Yields (if socket.canRecv then _ else _) _
    split_ifs
    · exact .ofSome (.takes hlive hsocket (List.take_prefix _ _))
    · exact .ofSome .ends
    · exact .ofSome .waits

theorem readOnce_changes (hI : e.Linked) (conn : BrowserConn) :
    Yields (e.readOnce conn) fun result => Changes s ev e result.2 := by
  refine (readOnce_reads hI conn).mono fun r hr => ?_
  cases hr with
  | ends => exact .refl
  | waits => exact .refl
  | takes => exact .single (.socket fun x _ => ⟨rfl, id⟩)

/-- A call on a connection ends. -/
theorem alike_answer (e : Engine) (i : ℕ) (conn : BrowserConn) (x : Answer) :
    Alike e ((e.setConn i conn).act (.answer i x)) :=
  (alike_setConn e i conn).trans (alike_act _ rfl)

theorem resumeRead_changes (hI : e.Linked) (i : ℕ) : Yields (e.resumeRead i) (Changes s ev e) := by
  unfold resumeRead
  split
  · rename_i conn _
    split_ifs
    · have hread : Yields (e.readOnce conn) fun result => Changes s ev e result.2 :=
        readOnce_changes hI conn
      refine hread.bind fun r hr => ?_
      obtain ⟨result, e'⟩ := r
      cases result with
      | none => exact .ofSome hr
      | some x => exact .ofSome (hr.trans (Changes.alike (alike_answer e' i _ x)))
    · exact .ofSome .refl
  · exact .ofSome .refl

theorem read_changes (hI : e.Linked) (i : ℕ) : Yields (e.read i) (Changes s ev e) := by
  unfold read
  split
  · split_ifs
    · exact .ofSome (.alike (alike_act e rfl))
    · have hset := alike_setConn e i
      exact (resumeRead_changes (hI.alike (hset _)) i).mono fun _ h =>
        (Changes.alike (hset _)).trans h
  · exact .ofSome .refl

/-- The outcomes of one round of a write. -/
inductive Writes (e : Engine) (conn : BrowserConn) : (Bytes ⊕ Answer) × Engine → Prop
  | done : Writes e conn (.inr .done, e)
  | fails (error : String) : Writes e conn (.inr (.failed error), e)
  | waits (data : Bytes) : Writes e conn (.inl data, e)
  | puts {data : Bytes} {result : Bytes ⊕ Answer} (hlive : e.live conn = true)
      (hresult : ∀ x, result = .inr x → x = .done) : Writes e conn (result,
        { e with sockets := e.sockets.update conn.handle (·.sendSlice data) })

theorem writeOnce_writes (hI : e.Linked) (conn : BrowserConn) (data : Bytes) :
    Yields (e.writeOnce conn data) (Writes e conn) := by
  unfold writeOnce
  split_ifs with hdata hgone
  · exact .ofSome .done
  · exact .ofSome (.fails _)
  · have hlive : e.live conn = true := by simpa using hgone
    obtain ⟨socket, hsocket⟩ := Option.isSome_iff_exists.1 (isSome_of_live hI hlive)
    rw [hsocket]
    show Yields (if !socket.maySend then _ else _) _
    split
    · exact .ofSome (.fails _)
    · split
      · refine .ofSome (.puts hlive fun x hx => ?_)
        split_ifs at hx
        exact (Sum.inr.inj hx).symm
      · exact .ofSome (.waits data)

theorem writeOnce_changes (hI : e.Linked) (conn : BrowserConn) (data : Bytes) :
    Yields (e.writeOnce conn data) fun result => Changes s ev e result.2 := by
  refine (writeOnce_writes hI conn data).mono fun r hr => ?_
  cases hr with
  | done => exact .refl
  | fails => exact .refl
  | waits => exact .refl
  | puts => exact .single (.socket fun x _ => ⟨rfl, id⟩)

theorem resumeWrite_changes (hI : e.Linked) (i : ℕ) :
    Yields (e.resumeWrite i) (Changes s ev e) := by
  unfold resumeWrite
  split
  · rename_i conn _
    split
    · rename_i data _
      have hwrite : Yields (e.writeOnce conn data) fun result => Changes s ev e result.2 :=
        writeOnce_changes hI conn data
      refine hwrite.bind fun r hr => ?_
      obtain ⟨result, e'⟩ := r
      cases result with
      | inl rest => exact .ofSome (hr.trans (Changes.alike (alike_setConn e' i _)))
      | inr x => exact .ofSome (hr.trans (Changes.alike (alike_answer e' i _ x)))
    · exact .ofSome .refl
  · exact .ofSome .refl

theorem write_changes (hI : e.Linked) (i : ℕ) (data : Bytes) :
    Yields (e.write i data) (Changes s ev e) := by
  unfold write
  split
  · split_ifs
    · exact .ofSome (.alike (alike_act e rfl))
    · have hset := alike_setConn e i
      exact (resumeWrite_changes (hI.alike (hset _)) i).mono fun _ h =>
        (Changes.alike (hset _)).trans h
  · exact .ofSome .refl

theorem closeWrite_changes (hI : e.Linked) (i : ℕ) : Yields (e.closeWrite i) (Changes s ev e) := by
  unfold closeWrite
  split
  · rename_i conn _
    split_ifs with hwriting hlive
    · exact .ofSome (.alike (alike_act e rfl))
    · have hclose : Yields (e.closeSocket conn.handle) fun e' =>
          Changes s ev e e' ∧ e'.links = e.links := closeSocket_changes (isSome_of_live hI hlive)
      exact hclose.bind fun e' he' => .ofSome (he'.1.trans (Changes.alike (alike_act e' rfl)))
    · exact .ofSome (.alike (alike_act e rfl))
  · exact .ofSome .refl

theorem markClosed_change (e : Engine) (handle : ℕ) : Change s ev e (e.markClosed handle) :=
  .link fun _ _ => ⟨rfl, rfl⟩

theorem closeConn_changes (hI : e.Linked) (i : ℕ) : Yields (e.closeConn i) (Changes s ev e) := by
  unfold closeConn
  split
  · rename_i conn _
    split_ifs with hlive
    · have hclose : Yields (e.closeSocket conn.handle) fun e' =>
          Changes s ev e e' ∧ e'.links = e.links := closeSocket_changes (isSome_of_live hI hlive)
      refine hclose.bind fun e' he' => ?_
      obtain ⟨link, hlink, -⟩ := (Option.any_eq_true _ _).1 (Bool.and_eq_true_iff.1 hlive).2
      rw [← he'.2] at hlink
      rw [hlink]
      refine .ofSome ((he'.1.tail (markClosed_change e' conn.handle)).trans (Changes.alike ?_))
      split_ifs
      · exact ⟨rfl, .refl _, rfl, rfl, rfl, rfl⟩
      · exact .refl _
    · exact .ofSome .refl
  · exact .ofSome .refl

theorem dial_cases (e : Engine) (destination : Ipv6Addr) (port : Port) :
    (∃ err, e.dial destination port = (.error err, e)) ∨
      ∃ socket nextPort result, e.links.size < maxConnections ∧
        e.tcpSocket.connect ⟨destination, port⟩ ⟨e.localAddr, e.nextPort⟩ = some socket ∧
        e.dial destination port = (.ok result, ({ e with nextPort }.addLink socket
          (⟨e.localAddr, e.nextPort⟩, ⟨destination, port⟩) port true).2) := by
  unfold dial
  by_cases hlength : maxConnections ≤ e.links.size
  · rw [if_pos hlength]
    exact .inl ⟨_, rfl⟩
  · rw [if_neg hlength]
    dsimp only
    split
    · exact .inl ⟨_, rfl⟩
    · rename_i socket hsocket
      exact .inr ⟨socket, _, _, Nat.lt_of_not_le hlength, hsocket, rfl⟩

theorem dialConn_changes (e : Engine) (destination : Ipv6Addr) (port : Port) :
    Changes e (.dial destination port) e (e.dialConn destination port) := by
  unfold dialConn
  rcases dial_cases e destination port with ⟨err, hdial⟩ | ⟨socket, nextPort, result, hlength,
    hsocket, hdial⟩
  · rw [hdial]
    exact .alike (alike_act e rfl)
  · rw [hdial]
    have hstart : Alike e { e with nextPort } := ⟨rfl, .refl _, rfl, rfl, rfl, rfl⟩
    refine ((Changes.alike hstart).tail (.dialled rfl hlength hsocket)).trans (Changes.alike ?_)
    exact ⟨rfl, .refl _, rfl, rfl, rfl, rfl⟩

theorem alike_endDial (e : Engine) (i : ℕ) (d : Dialing) (x : Answer) :
    Alike e (e.endDial i d x) :=
  Alike.trans (m := { e with dials := e.dials.set i { d with ended := true } })
    ⟨rfl, .refl _, rfl, rfl, rfl, rfl⟩ (alike_act _ rfl)

theorem resumeDial_changes (hI : e.Linked) (i : ℕ) : Yields (e.resumeDial i) (Changes s ev e) := by
  have hclose : ∀ d x, Yields (e.close.bind fun e => some (e.endDial i d x)) (Changes s ev e) :=
    fun d x => leads_bind hI (close_changes hI) fun e' _ => .ofSome (.alike (alike_endDial e' i d x))
  unfold resumeDial
  split
  · rename_i d _
    split
    · exact .ofSome .refl
    split
    · exact .ofSome (.alike (alike_endDial e i d _))
    · rename_i hgone
      have hlive : e.liveHandle d.handle d.generation = true := by
        simp only [Bool.or_eq_true, Bool.not_eq_true', not_or, Bool.not_eq_false] at hgone
        exact hgone.2
      obtain ⟨socket, hsocket⟩ := Option.isSome_iff_exists.1 (isSome_of_liveHandle hI hlive)
      rw [hsocket]
      show Yields (if socket.state = .established ∨ socket.state = .closeWait then _ else _) _
      split_ifs
      · refine .ofSome (.alike (Alike.trans (m := { e with conns := e.conns ++ [_] })
          ⟨rfl, .refl _, rfl, rfl, rfl, rfl⟩ (alike_endDial _ i d _)))
      · exact hclose d _
      · exact hclose d _
      · exact .ofSome .refl
  · exact .ofSome .refl

/-! ### The loop of the engine -/

theorem pageOp_changes (hI : e.Linked) (op : PageOp) : Yields (e.pageOp op) (Changes s ev e) := by
  cases op with
  | closeConn i => exact closeConn_changes hI i
  | closeEngine => exact close_changes hI

theorem callbackFailed_changes (hI : e.Linked) (handle : ℕ) :
    Yields (e.callbackFailed handle) (Changes s ev e) := by
  unfold callbackFailed
  split
  · rename_i link hlink
    have hmark : Change s ev e (e.markClosed handle) := markClosed_change e handle
    have hclose : Yields ((e.markClosed handle).closeSocket handle) fun e' =>
        Changes s ev (e.markClosed handle) e' ∧ e'.links = (e.markClosed handle).links :=
      closeSocket_changes (hI handle link hlink)
    exact hclose.mono fun _ h => (Changes.single hmark).trans h.1
  · exact .ofSome .refl

theorem alike_giveConn (e : Engine) (handle generation : ℕ) (port : Port) :
    Alike e (e.giveConn handle generation port) :=
  Alike.trans (m := { e with conns := e.conns ++ [_] }) ⟨rfl, .refl _, rfl, rfl, rfl, rfl⟩
    (alike_act _ rfl)

theorem notify_changes (hI : e.Linked) (accepted : Accepted × Callback) :
    Yields (e.notify accepted) (Changes s ev e) := by
  obtain ⟨⟨handle, generation, port⟩, callback⟩ := accepted
  unfold notify
  dsimp only
  split
  · exact .ofSome .refl
  · have hgive := alike_giveConn e handle generation port
    have hI' := hI.alike hgive
    have hops : Yields (callback.ops.foldlM pageOp (e.giveConn handle generation port))
        (Changes s ev (e.giveConn handle generation port)) :=
      leads_foldlM hI' fun e' op _ he' => pageOp_changes he' op
    refine (leads_bind hI' hops fun e' he' => ?_).mono fun _ h => (Changes.alike hgive).trans h
    split_ifs
    · exact callbackFailed_changes he' handle
    · exact .ofSome .refl

theorem round_changes (hI : e.Linked) (actions : List Actor.PollAction)
    (callbacks : ℕ → Callback) : Yields (e.round π actions callbacks) (Changes s ev e) := by
  unfold round
  split_ifs
  · exact .ofSome .refl
  · have htick : Yields (e.tick π actions) fun result => Changes s ev e result.2 :=
      tick_changes hI actions
    refine htick.bind fun r hr => ?_
    obtain ⟨result, e'⟩ := r
    have hI' := Changes.linked hr hI
    cases result with
    | error err => exact (close_changes hI').mono fun _ h => hr.trans h
    | ok accepted =>
      dsimp only
      split_ifs
      · exact (leads_foldlM hI' fun e'' x _ he'' => notify_changes he'' x).mono fun _ h =>
          hr.trans h
      · exact .ofSome hr

/-- **No call fails, and every event is a sequence of changes.** -/
theorem step_changes (hI : e.Linked) (ev : Event) : Yields (step π e ev) (Changes e ev e) := by
  cases ev with
  | elapse d => exact .ofSome (.alike ⟨rfl, .refl _, rfl, rfl, rfl, rfl⟩)
  | message data => exact .ofSome (.alike ⟨rfl, .refl _, rfl, rfl, rfl, rfl⟩)
  | disconnected => exact .ofSome (.alike ⟨rfl, .refl _, rfl, rfl, rfl, rfl⟩)
  | reconnected bytes =>
    simp only [step]
    split_ifs
    · exact .ofSome .refl
    · exact .ofSome (.alike ⟨rfl, .refl _, rfl, rfl, rfl, rfl⟩)
  | round actions callbacks => exact round_changes hI actions callbacks
  | dial destination port => exact .ofSome (dialConn_changes e destination port)
  | resumeDial i => exact resumeDial_changes hI i
  | read i => exact read_changes hI i
  | resumeRead i => exact resumeRead_changes hI i
  | write i data => exact write_changes hI i data
  | resumeWrite i => exact resumeWrite_changes hI i
  | closeWrite i => exact closeWrite_changes hI i
  | closeConn i => exact closeConn_changes hI i
  | closeEngine => exact close_changes hI
  | reorder links peers =>
    simp only [step]
    split_ifs with hperm
    · exact .ofSome (.alike ⟨rfl, hperm.1, rfl, rfl, rfl, rfl⟩)
    · exact .ofSome .refl

theorem init_links (setup : Setup) : (init setup).links = ∅ := by
  unfold init addPeer
  dsimp only
  split
  · split_ifs <;> rfl
  · rfl

theorem init_linked (setup : Setup) : (init setup).Linked := by
  intro handle link hlink
  rw [init_links] at hlink
  cases hlink

/-- What the changes of each event preserve, if it meets a condition, holds after every run, which
does not fail. -/
theorem run_invariant {I : Engine → Prop} {P : Engine → Event → Prop} {setup : Setup}
    {es : List Event} (h0 : I (init setup))
    (hI : ∀ s ev e e', P s ev → Change s ev e e' → e.Linked → I e → I e')
    (h : AlongM (step π) P (init setup) es) : Yields (run π (init setup) es) I := by
  refine (runM_invariant (I := fun e => e.Linked ∧ I e) (fun e ev he hP => ?_)
    ⟨init_linked setup, h0⟩ h).mono fun _ h => h.2
  refine (step_changes he.1 ev).mono fun e' he' => ?_
  induction he' with
  | refl => exact he
  | tail _ hchange ih => exact ⟨hchange.linked ih.1, hI _ _ _ _ hP hchange ih.1 ih.2⟩

end Tailcat.Browser.Engine
