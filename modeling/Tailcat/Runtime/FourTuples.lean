import Mathlib.Logic.Function.Iterate
import Tailcat.Runtime.Connections
import Tailcat.Runtime.Trace
import Tailcat.Runtime.Sample

/-!
# Four-tuples

A segment belongs to the connection with its two addresses and ports, so no two sockets in use may
have the same ones.  A SYN opens no second connection of its flow, but a dial takes the next source
port without a look at the connections there are, and the counter wraps: the flows are distinct as
long as no dial comes back to a port that is still in use for its target (`distinctFlows_of_freshDials`),
and `dial_reuses_port` is a run where one does.

The first result is an invariant with a condition on the dials of the run; the second is the run
that shows the condition to be needed.  It takes as many dials as there are source ports, most of
which are refused at once and so leave nothing behind.
-/

namespace Tailcat.Runtime

open Net

/-! ### Distinct flows -/

/-- The socket at a handle is there and not closed. -/
def SocketSet.isOpen (sockets : SocketSet) (handle : ℕ) : Bool :=
  (sockets.get handle).any fun socket => socket.state ≠ .closed

/-- The flows of the links whose sockets are not closed are distinct. -/
def DistinctFlows (sockets : SocketSet) (links : List (ℕ × TcpFlow)) : Prop :=
  ((links.filter fun link => sockets.isOpen link.1).map (·.2)).Nodup

instance (sockets : SocketSet) (links : List (ℕ × TcpFlow)) :
    Decidable (DistinctFlows sockets links) :=
  inferInstanceAs (Decidable (List.Nodup _))

theorem distinctFlows_iff {sockets : SocketSet} {links : List (ℕ × TcpFlow)} :
    DistinctFlows sockets links ↔ links.Pairwise fun l l' =>
      sockets.isOpen l.1 = true → sockets.isOpen l'.1 = true → l.2 ≠ l'.2 := by
  rw [DistinctFlows, List.Nodup, List.pairwise_map, List.pairwise_filter]

namespace DistinctFlows

variable {sockets sockets' : SocketSet} {links links' : List (ℕ × TcpFlow)}

/-- Links may be removed and reordered, and sockets closed. -/
theorem sub (h : DistinctFlows sockets links) (hlinks : links'.Subperm links)
    (hopen : ∀ l ∈ links', sockets'.isOpen l.1 = true → sockets.isOpen l.1 = true) :
    DistinctFlows sockets' links' := by
  rw [distinctFlows_iff] at h ⊢
  obtain ⟨kept, hperm, hsub⟩ := hlinks
  have hkept := h.sublist hsub
  have hsymm : ∀ ⦃l l' : ℕ × TcpFlow⦄,
      (sockets.isOpen l.1 = true → sockets.isOpen l'.1 = true → l.2 ≠ l'.2) →
        sockets.isOpen l'.1 = true → sockets.isOpen l.1 = true → l'.2 ≠ l.2 :=
    fun l l' hne hl' hl heq => hne hl hl' heq.symm
  have hall := (hperm.pairwise_iff fun hne => hsymm hne).1 hkept
  exact hall.imp_of_mem fun hl hl' hne ho ho' => hne (hopen _ hl ho) (hopen _ hl' ho')

/-- A link is added whose flow no link with an open socket has. -/
theorem add (h : DistinctFlows sockets links) (socket : Socket) {flow : TcpFlow}
    (hused : ∀ l ∈ links, (sockets.get l.1).isSome)
    (hfresh : ∀ l ∈ links, sockets.isOpen l.1 = true → l.2 ≠ flow) :
    DistinctFlows (sockets.add socket).2 (links ++ [(sockets.free, flow)]) := by
  have hold : ∀ l ∈ links, (SocketSet.isOpen (sockets.add socket).2 l.1) = sockets.isOpen l.1 := by
    intro l hl
    obtain ⟨x, hx⟩ := Option.isSome_iff_exists.1 (hused l hl)
    rw [SocketSet.isOpen, SocketSet.isOpen, Slots.get_add_of_get hx, hx]
  rw [distinctFlows_iff] at h ⊢
  refine List.pairwise_append.2 ⟨?_, List.pairwise_singleton _ _, ?_⟩
  · refine h.imp_of_mem fun hl hl' hne ho ho' => hne ?_ ?_
    · rwa [← hold _ hl]
    · rwa [← hold _ hl']
  · intro l hl l' hl' ho _
    rw [List.mem_singleton.1 hl']
    exact hfresh l hl (hold l hl ▸ ho)

end DistinctFlows

/-- A link is added whose flow a link with an open socket has. -/
theorem not_distinctFlows_add {sockets : SocketSet} {links : List (ℕ × TcpFlow)} {socket : Socket}
    (handle : ℕ) {flow : TcpFlow} (hmem : (handle, flow) ∈ links)
    (hopen : sockets.isOpen handle = true) (hsocket : socket.state ≠ .closed) :
    ¬DistinctFlows (sockets.add socket).2 (links ++ [(sockets.free, flow)]) := by
  intro h
  obtain ⟨x, hx, hstate⟩ := (Option.any_eq_true _ _).1 hopen
  have hold : (SocketSet.isOpen (sockets.add socket).2 handle) = true := by
    rw [SocketSet.isOpen, Slots.get_add_of_get hx]
    exact hstate
  have hnew : (SocketSet.isOpen (sockets.add socket).2 sockets.free) = true := by
    rw [SocketSet.isOpen, Slots.get_add, if_pos rfl]
    simpa using hsocket
  have hpair := (List.pairwise_append.1 (distinctFlows_iff.1 h)).2.2
  exact hpair _ hmem _ (List.mem_singleton_self _) hold hnew rfl

/-! ### The actor -/

namespace Actor

variable {π : Platform} {s a b : Actor} {e : Event}

/-- The handles of the sockets of the links, with the links' flows. -/
def flows (a : Actor) : List (ℕ × TcpFlow) := a.links.map fun link => (link.socket, link.flow)

/-- The flow of the connection an event dials. -/
def dialledFlow (a : Actor) : Event → Option TcpFlow
  | .command (.dial target result) =>
    let source : IpEndpoint := ⟨a.localAddr, a.nextPort⟩
    let target : IpEndpoint := ⟨nat64Addr target.ip, target.port⟩
    if a.isClosed result = false ∧ a.links.length < maxConnections ∧
        (({} : Socket).connect target source).isSome then some (source, target)
    else none
  | _ => none

/-- A dialled connection has a flow that no connection in use has. -/
def FreshDials (a : Actor) (e : Event) : Prop :=
  ∀ flow ∈ a.dialledFlow e, ∀ l ∈ a.flows, a.sockets.isOpen l.1 = true → l.2 ≠ flow

instance (a : Actor) (e : Event) : Decidable (a.FreshDials e) :=
  inferInstanceAs (Decidable (∀ flow ∈ a.dialledFlow e, _))

theorem isSome_of_mem_flows (h : a.Wired) {l : ℕ × TcpFlow} (hl : l ∈ a.flows) :
    (a.sockets.get l.1).isSome := by
  obtain ⟨link, hlink, rfl⟩ := List.mem_map.1 hl
  exact h.socket link hlink

theorem flows_openLink (socket : Socket) (flow : TcpFlow) (connected : Option ReplyId)
    (handler : Option Handler) :
    (a.openLink socket flow connected handler).flows = a.flows ++ [(a.sockets.free, flow)] := by
  simp only [flows, openLink, List.map_append, List.map_cons, List.map_nil, Slots.add_fst]

theorem isOpen_update {sockets : SocketSet} {h : ℕ} {f : Socket → Socket}
    (hf : ∀ x, sockets.get h = some x → x.state = .closed → (f x).state = .closed) {h' : ℕ}
    (hopen : (SocketSet.isOpen (sockets.update h f) h') = true) : sockets.isOpen h' = true := by
  rw [SocketSet.isOpen, Slots.get_update] at hopen
  split_ifs at hopen with heq
  · subst heq
    obtain ⟨y, hy, hne⟩ := (Option.any_eq_true _ _).1 hopen
    obtain ⟨x, hx, rfl⟩ := Option.map_eq_some_iff.1 hy
    rw [SocketSet.isOpen, hx]
    simp only [ne_eq, decide_not, Option.any_some, Bool.not_eq_true', decide_eq_false_iff_not]
      at hne ⊢
    exact fun hclosed => hne (hf x hx hclosed)
  · exact hopen

/-- The network stack opens no closed socket again. -/
theorem isOpen_pollAction (a : Actor) (action : PollAction) {h : ℕ}
    (hopen : (a.pollAction π action).sockets.isOpen h = true) : a.sockets.isOpen h = true := by
  unfold pollAction at hopen
  split at hopen
  · exact isOpen_update (fun x _ hclosed => Socket.closed_progress hclosed _) hopen
  · split at hopen
    · exact hopen
    · dsimp only at hopen
      split at hopen
      · rename_i localEnd remote _
        rcases SocketSet.deliver_cases a.sockets localEnd remote _ with
          hsame | ⟨h', x, hx, hlisten, hupdate⟩
        · rwa [hsame] at hopen
        · rw [hupdate] at hopen
          refine isOpen_update (fun y hy hclosed => ?_) hopen
          -- a socket that takes a SYN listens, so it is not closed
          cases hx.symm.trans hy
          rw [hlisten] at hclosed
          cases hclosed
      · exact hopen
  · exact hopen

theorem flows_putConn {index : ℕ} {c c' : Conn} (hc : a.connAt index = some c)
    (hgoes : c.Goes c') : (a.putConn index c').flows = a.flows := by
  have hlink := (connAt_eq_some.1 hc).1
  simp only [flows, putConn, List.map_set, hgoes.handle, hgoes.flow]
  refine List.ext_getElem? fun i => ?_
  rw [List.getElem?_set]
  split_ifs with heq hlt
  · subst heq
    simp [hlink]
  · exact (List.getElem?_eq_none (by omega)).symm
  · rfl

theorem Small.distinctFlows {Q : Actor → PollAction → Prop} (h : Small π Q s e a b) (hw : a.Wired)
    (hfresh : s.FreshDials e) (hI : DistinctFlows a.sockets a.flows) :
    DistinctFlows b.sockets b.flows := by
  cases h.conns with
  | same hlinks hsockets =>
    rw [hsockets, Actor.flows, hlinks]
    exact hI
  -- a SYN of a flow that has a link opens none
  | accepted _ _ _ hnew =>
    rw [flows_openLink]
    refine hI.add _ (fun l hl => isSome_of_mem_flows hw hl) fun l hl _ => ?_
    obtain ⟨link, hlink, rfl⟩ := List.mem_map.1 hl
    exact hnew link hlink
  -- a dial does not look; that the flow is unused is the condition
  | @dialled target result socket he hopen hlength hsocket =>
    rw [flows_openLink]
    refine hI.add _ (fun l hl => isSome_of_mem_flows hw hl) (hfresh _ ?_)
    rw [he, dialledFlow, if_pos ⟨hopen, hlength, by rw [hsocket]; rfl⟩]
    rfl
  -- a socket that is closed does not open again
  | @polled _ action =>
    refine hI.sub ?_ fun l _ ho => isOpen_pollAction a action ho
    rw [pollAction_eq]
    exact List.Subperm.refl _
  | @round _ index c hc =>
    have hgoes := Conn.poll_goes (a.surroundings π) c
    obtain ⟨-, hsocket, -, -⟩ := connAt_eq_some.1 hc
    rw [flows_putConn hc hgoes]
    refine hI.sub (List.Subperm.refl _) fun l _ ho => isOpen_update (fun x hx hclosed => ?_) ho
    rw [hgoes.handle] at hx
    cases hsocket.symm.trans hx
    exact hgoes.closed hclosed
  | @removed _ index c hc =>
    have hlt := lt_of_connAt hc
    rw [removeLink_of_connAt hc]
    refine hI.sub ?_ fun l _ ho => ?_
    · exact ((swapRemove_perm hlt).map _).subperm.trans
        ((List.eraseIdx_sublist a.links index).map _).subperm
    · rw [SocketSet.isOpen, Slots.get_remove] at ho
      split_ifs at ho
      · cases ho
      · exact ho
  | app => exact hI

/-- **Four-tuples**: in every run whose dials take flows that are not in use, the flows of the
connections in use are distinct. -/
theorem distinctFlows_of_freshDials {setup : Setup} {es : List Event}
    (h : Transition.Along (step π) FreshDials (init setup) es) :
    DistinctFlows (run π (init setup) es).sockets (run π (init setup) es).flows := by
  have hI : (run π (init setup) es).Wired ∧
      DistinctFlows (run π (init setup) es).sockets (run π (init setup) es).flows := by
    refine run_preserves (P := FreshDials) (Q := AnyPoll)
      (I := fun a => a.Wired ∧ DistinctFlows a.sockets a.flows) ?_
      (fun a e _ => pollsMeet_of_forall (fun _ _ => trivial) a e)
      (fun s e a b hP _ hsmall _ ha => ⟨hsmall.wired ha.1, hsmall.distinctFlows ha.1 hP ha.2⟩) h
    refine ⟨init_wired setup, ?_⟩
    rw [flows, init_links]
    exact List.nodup_nil
  exact hI.2

/-! ### A port that comes back -/

/-- The states have the same connections. -/
def SameConns (a b : Actor) : Prop := b.links = a.links ∧ b.sockets = a.sockets

theorem SameConns.trans (h : SameConns a b) {c : Actor} (h' : SameConns b c) : SameConns a c :=
  ⟨h'.1.trans h.1, h'.2.trans h.2⟩

theorem sameConns_foldl {α : Type} {f : Actor → α → Actor} (hf : ∀ a x, SameConns a (f a x))
    (l : List α) (a : Actor) : SameConns a (l.foldl f a) := by
  induction l generalizing a with
  | nil => exact ⟨rfl, rfl⟩
  | cons x l ih => exact (hf a x).trans (ih _)

theorem sameConns_probe (a : Actor) (key : Key) (endpoint : SocketAddr) :
    SameConns a (a.probe π key endpoint) := by
  unfold probe
  split_ifs
  · exact ⟨rfl, rfl⟩
  · dsimp only
    split
    · exact ⟨rfl, rfl⟩
    · simp only [sealDisco]
      split
      · rename_i heq
        obtain ⟨-, rfl⟩ := Prod.mk.inj heq
        exact ⟨rfl, rfl⟩
      · rename_i heq
        obtain ⟨-, rfl⟩ := Prod.mk.inj heq
        split_ifs <;> exact ⟨rfl, rfl⟩

theorem sameConns_sealAndRelay (a : Actor) (key : Key) (peer : Peer) (data : Bytes) :
    SameConns a (a.sealAndRelay π key peer data) := by
  unfold sealAndRelay
  simp only [sealDisco]
  split
  · rename_i heq
    obtain ⟨-, rfl⟩ := Prod.mk.inj heq
    unfold relaySend
    split_ifs <;> exact ⟨rfl, rfl⟩
  · rename_i heq
    obtain ⟨-, rfl⟩ := Prod.mk.inj heq
    exact ⟨rfl, rfl⟩

theorem sameConns_advertise (a : Actor) : SameConns a (a.advertise π) := by
  refine SameConns.trans (b := { a with lastAdvertise := a.now }) ⟨rfl, rfl⟩
    (sameConns_foldl (fun a key => ?_) _ _)
  unfold advertiseTo
  split
  · exact ⟨rfl, rfl⟩
  · exact (sameConns_sealAndRelay a key _ _).trans
      (sameConns_foldl (fun a endpoint => sameConns_probe a key endpoint) _ _)

/-- The source port after another one. -/
def nextOf (port : Port) : Port := if port = 65535 then 32768 else port + 1

/-- The counter reaches its last port. -/
theorem toNat_iterate_nextOf (port : Port) {n : ℕ} (h : port.toNat + n ≤ 65535) :
    (nextOf^[n] port).toNat = port.toNat + n := by
  induction n with
  | zero => rfl
  | succ n ih =>
    have hn := ih (by omega)
    rw [Function.iterate_succ_apply', nextOf, if_neg fun heq => ?_, UInt16.toNat_add, hn]
    · simp only [UInt16.reduceToNat]
      omega
    · rw [heq] at hn
      simp only [UInt16.reduceToNat] at hn
      omega

/-- Dials that are refused because nothing can be sent to port 0 still use up source ports. -/
theorem run_refused {target : SocketAddr} (result : ReplyId) (hport : target.port = 0) (n : ℕ)
    {a : Actor} (hopen : a.isClosed result = false) (hlength : a.links.length < maxConnections) :
    ∃ trace, run π a (List.replicate n (.command (.dial target result))) =
      { a with nextPort := nextOf^[n] a.nextPort, trace } := by
  induction n generalizing a with
  | zero => exact ⟨a.trace, rfl⟩
  | succ n ih =>
    have hdial : step π a (.command (.dial target result)) =
        a.advancePort.answer result (.failed "TCP connect: Unaddressable") := by
      show a.dial π target result = _
      rw [dial, hopen, if_neg (by simp), if_neg (by omega)]
      simp only [Socket.connect, hport, true_or, if_true]
    rw [List.replicate_succ, run, Transition.run_cons, hdial]
    exact ih (a := a.advancePort.answer result _) hopen hlength

/-- A dial with a free result and room for a link opens a link from the next source port. -/
theorem conns_dial (target : SocketAddr) (result : ReplyId) {socket : Socket}
    (hopen : a.isClosed result = false) (hlength : a.links.length < maxConnections)
    (hsocket : ({} : Socket).connect ⟨nat64Addr target.ip, target.port⟩
      ⟨a.localAddr, a.nextPort⟩ = some socket) :
    (step π a (.command (.dial target result))).flows =
        a.flows ++ [(a.sockets.free,
          (⟨a.localAddr, a.nextPort⟩, ⟨nat64Addr target.ip, target.port⟩))] ∧
      (step π a (.command (.dial target result))).sockets = (a.sockets.add socket).2 := by
  have hdial : step π a (.command (.dial target result)) =
      (a.advancePort.openLink socket
        (⟨a.localAddr, a.nextPort⟩, ⟨nat64Addr target.ip, target.port⟩) (some result)
          none).advertise π := by
    show a.dial π target result = _
    rw [dial, hopen, if_neg (by simp), if_neg (by omega)]
    simp only [hsocket]
  obtain ⟨hlinks, hsockets⟩ := sameConns_advertise (π := π) (a.advancePort.openLink socket
    (⟨a.localAddr, a.nextPort⟩, ⟨nat64Addr target.ip, target.port⟩) (some result) none)
  rw [hdial, hsockets, flows, hlinks]
  exact ⟨flows_openLink _ _ _ _, rfl⟩

open Sample in
/-- A client dials a target twice, and in between makes dials that are refused until the counter is
back where it was. -/
theorem flows_redial {n : ℕ} (hn : nextOf^[n] 32769 = 32768) :
    let target : SocketAddr := inside (keyOf 1) 80
    let dial (target : SocketAddr) (result : ReplyId) : Event := .command (.dial target result)
    let a := run sample (init clientSetup)
      (dial target 0 :: List.replicate n (dial (inside (keyOf 1) 0) 1) ++ [dial target 2])
    a.flows.map (·.2) = List.replicate 2
        (⟨tcAddrForKey (keyOf 2), 32768⟩, ⟨tcAddrForKey (keyOf 1), 80⟩) ∧
      ¬DistinctFlows a.sockets a.flows := by
  intro target dial a
  obtain ⟨first, hfirst⟩ : ∃ first, first = step sample (init clientSetup) (dial target 0) := ⟨_, rfl⟩
  have hstart : first.flows = [(0, (⟨tcAddrForKey (keyOf 2), 32768⟩, ⟨tcAddrForKey (keyOf 1), 80⟩))] ∧
      first.closedReplies = [] ∧ first.nextPort = 32769 ∧
      first.localAddr = tcAddrForKey (keyOf 2) ∧
      (first.sockets.isOpen 0) = true := by
    rw [hfirst]
    decide +kernel
  obtain ⟨hflows, hclosed, hnext, haddr, hused⟩ := hstart
  -- the refused dials change nothing but the counter and the record
  have hlength : first.links.length < maxConnections := by
    have := congrArg List.length hflows
    rw [flows, List.length_map] at this
    rw [this]
    decide
  obtain ⟨trace, hrefused⟩ := run_refused (π := sample) 1
    (show (inside (keyOf 1) 0).port = 0 from rfl) n (a := first) (by rw [isClosed, hclosed]; rfl) hlength
  rw [hnext, hn] at hrefused
  have hconnect : (({} : Socket).connect ⟨nat64Addr target.ip, target.port⟩
      ⟨first.localAddr, 32768⟩).isSome := by
    rw [haddr]
    decide +kernel
  obtain ⟨socket, hsocket⟩ := Option.isSome_iff_exists.1 hconnect
  have hlast : a = step sample { first with nextPort := 32768, trace } (dial target 2) := by
    rw [← hrefused, hfirst]
    simp only [a, run, Transition.run, List.foldl_append, List.foldl_cons, List.foldl_nil, dial]
  obtain ⟨hlinks, hsockets⟩ := conns_dial (π := sample)
    (a := { first with nextPort := 32768, trace }) target 2
    (by rw [isClosed, hclosed]; rfl) hlength hsocket
  have hflow : ((⟨first.localAddr, 32768⟩, ⟨nat64Addr target.ip, target.port⟩) : TcpFlow) =
      (⟨tcAddrForKey (keyOf 2), 32768⟩, ⟨tcAddrForKey (keyOf 1), 80⟩) := by
    rw [haddr]
    decide +kernel
  -- so the second dial takes the source port of the first
  have hboth : a.flows = first.flows ++ [(first.sockets.free,
      (⟨tcAddrForKey (keyOf 2), 32768⟩, ⟨tcAddrForKey (keyOf 1), 80⟩))] := by
    rw [hlast, hlinks, ← hflow]
    rfl
  constructor
  · rw [hboth, hflows]
    rfl
  · rw [hboth, hlast, hsockets]
    refine not_distinctFlows_add 0 ?_ hused (by rw [Socket.connect_state hsocket]; nofun)
    rw [hflows]
    exact List.mem_singleton_self _

open Sample in
/-- A client dials, makes as many dials that are refused as there are other source ports, and dials
the same target again: the second connection has the flow of the first. -/
theorem dial_reuses_port :
    let target : SocketAddr := inside (keyOf 1) 80
    let dial (target : SocketAddr) (result : ReplyId) : Event := .command (.dial target result)
    let a := run sample (init clientSetup)
      (dial target 0 :: List.replicate 32767 (dial (inside (keyOf 1) 0) 1) ++ [dial target 2])
    a.flows.map (·.2) = List.replicate 2
        (⟨tcAddrForKey (keyOf 2), 32768⟩, ⟨tcAddrForKey (keyOf 1), 80⟩) ∧
      ¬DistinctFlows a.sockets a.flows := by
  have hlast : nextOf^[32766] 32769 = 65535 := by
    rw [← UInt16.toNat_inj]
    exact toNat_iterate_nextOf 32769 (n := 32766) (by decide)
  refine flows_redial (n := 32767) ?_
  rw [Function.iterate_succ_apply' nextOf 32766, hlast]
  rfl

end Actor

end Tailcat.Runtime
