import Tailcat.Browser.Changes
import Tailcat.Runtime.FourTuples

/-!
# Four-tuples in the browser

The engine dials from a counter as the native actor does, and takes a SYN only if no open socket has
its flow; `run_distinctFlows` is the result for both programs.

Two open connections have different flows as long as every dial takes a flow that is not in use
(`FreshDials`); the counter of local ports wraps after 32768 dials, and then a dial can take the
flow of a connection that is still open (`Runtime.FourTuples` has such a run of the actor).  The SYN
of a peer needs no such condition: the engine looks for an open socket of its flow first and then
opens no other.

The invariant is `DistinctFlows`, the same as for the actor, over the pairs of handle and flow of
the links.  It is kept by each `Change` of an event, so that the run follows from `Browser.Changes`
without opening the engine again.
-/

namespace Tailcat.Browser.Engine

open Tailcat.Net Tailcat.Runtime Transition

variable {π : Platform} {s e e' : Engine} {ev : Event}

/-- The handles of the sockets of the links, with the links' flows. -/
def flows (e : Engine) : List (ℕ × TcpFlow) :=
  e.links.entries.map fun entry => (entry.1, entry.2.flow)

/-- The flow of the connection an event dials. -/
def dialledFlow (e : Engine) : Event → Option TcpFlow
  | .dial destination port =>
    let source : IpEndpoint := ⟨e.localAddr, e.nextPort⟩
    let target : IpEndpoint := ⟨destination, port⟩
    if e.links.size < maxConnections ∧ (e.tcpSocket.connect target source).isSome then
      some (source, target)
    else none
  | _ => none

/-- A dialled connection has a flow that no connection in use has. -/
def FreshDials (e : Engine) (ev : Event) : Prop :=
  ∀ flow ∈ e.dialledFlow ev, ∀ l ∈ e.flows, e.sockets.isOpen l.1 = true → l.2 ≠ flow

instance (e : Engine) (ev : Event) : Decidable (e.FreshDials ev) :=
  inferInstanceAs (Decidable (∀ flow ∈ e.dialledFlow ev, _))

theorem isSome_of_mem_flows (hI : e.Linked) {l : ℕ × TcpFlow} (hl : l ∈ e.flows) :
    (e.sockets.get l.1).isSome := by
  obtain ⟨entry, hentry, rfl⟩ := List.mem_map.1 hl
  exact isSome_of_mem_entries hI hentry

/-- A new link is one more flow, at a handle that was free. -/
theorem flows_addLink (hI : e.Linked) (socket : Socket) (flow : TcpFlow) (port : Port)
    (notified : Bool) :
    (e.addLink socket flow port notified).2.flows = (e.sockets.free, flow) :: e.flows := by
  have hfree : e.sockets.free ∉ e.links := by
    intro hmem
    have hget := isSome_of_mem_keys hI (AList.mem_keys.1 hmem)
    rw [Slots.get_free] at hget
    cases hget
  simp only [flows, addLink, act, Slots.add_fst, AList.entries_insert_of_notMem hfree,
    List.map_cons]

theorem distinctFlows_addLink (hI : e.Linked) (h : DistinctFlows e.sockets e.flows)
    {socket : Socket} {flow : TcpFlow} {port : Port} {notified : Bool}
    (hfresh : ∀ l ∈ e.flows, e.sockets.isOpen l.1 = true → l.2 ≠ flow) :
    DistinctFlows (e.addLink socket flow port notified).2.sockets
      (e.addLink socket flow port notified).2.flows := by
  rw [flows_addLink hI]
  have hadd := h.add socket (fun l hl => isSome_of_mem_flows hI hl) hfresh
  exact hadd.sub (List.perm_append_singleton _ _).symm.subperm fun _ _ ho => ho

/-- A search that finds nothing has tested every element. -/
theorem eq_false_of_anyM {α : Type} {f : α → Option Bool} {l : List α}
    (h : l.anyM f = some false) : ∀ x ∈ l, f x = some false := by
  induction l with
  | nil => exact nofun
  | cons x l ih =>
    rw [List.anyM_cons] at h
    obtain ⟨found, hfound, hrest⟩ := Option.bind_eq_some_iff.1 h
    cases found with
    | true => cases hrest
    | false =>
      intro y hy
      rcases List.mem_cons.1 hy with rfl | hy
      · exact hfound
      · exact ih hrest y hy

/-- A SYN opens a link only if no open socket has its flow. -/
theorem ne_of_duplicate {flow : TcpFlow} (h : e.duplicate flow = some false) {l : ℕ × TcpFlow}
    (hl : l ∈ e.flows) (hopen : e.sockets.isOpen l.1 = true) : l.2 ≠ flow := by
  obtain ⟨entry, hentry, rfl⟩ := List.mem_map.1 hl
  intro heq
  have hentry' := eq_false_of_anyM h entry hentry
  rw [if_pos heq] at hentry'
  obtain ⟨socket, hsocket, hclosed⟩ := Option.map_eq_some_iff.1 hentry'
  rw [SocketSet.isOpen, hsocket, Option.any_some] at hopen
  exact Bool.false_ne_true (hclosed.symm.trans hopen)

theorem flows_alike (h : Alike e e') : e'.flows.Perm e.flows := h.links.map _

/-- A link may change, but not its flow. -/
theorem flows_adjust {handle : ℕ} {f : Link → Link}
    (h : ∀ link, e.links.lookup handle = some link →
      (f link).generation = link.generation ∧ (f link).flow = link.flow) :
    ({ e with links := e.links.adjust handle f } : Engine).flows = e.flows := by
  simp only [flows, Table.adjust, List.map_map]
  refine List.map_congr_left fun entry hentry => ?_
  simp only [Function.comp_apply]
  split_ifs with heq
  · subst heq
    rw [(h entry.2 (AList.mem_lookup_iff.2 hentry)).2]
  · rfl

theorem Change.distinctFlows (h : Change s ev e e') (hw : e.Linked) (hfresh : s.FreshDials ev)
    (hI : DistinctFlows e.sockets e.flows) : DistinctFlows e'.sockets e'.flows := by
  cases h with
  | alike h =>
    rw [h.sockets]
    exact hI.sub (flows_alike h).subperm fun _ _ ho => ho
  | accepted hnew _ => exact distinctFlows_addLink hw hI fun l hl ho => ne_of_duplicate hnew hl ho
  | @dialled _ _ nextPort _ he hlength hsocket =>
    refine distinctFlows_addLink (e := { s with nextPort }) hw hI (hfresh _ ?_)
    rw [he, dialledFlow, if_pos ⟨hlength, by rw [hsocket]; rfl⟩]
    rfl
  | socket h =>
    refine hI.sub (List.Subperm.refl _) fun l _ ho => ?_
    exact Actor.isOpen_update (fun x hx hclosed => (h x hx).closed hclosed) ho
  | link h =>
    rw [flows_adjust h]
    exact hI
  | removed _ handle =>
    refine hI.sub (((List.kerase_sublist _ _).map _).subperm) fun l _ ho => ?_
    rw [SocketSet.isOpen, Slots.get_remove] at ho
    split_ifs at ho
    · cases ho
    · exact ho
  | cleared => exact List.nodup_nil

/-- **Four-tuples**: in every run of the native actor or of the browser's engine whose dials take
flows that are not in use, the flows of the connections in use are distinct. -/
theorem run_distinctFlows (π : Platform) :
    (∀ setup es, Along (Actor.step π) Actor.FreshDials (Actor.init setup) es →
      DistinctFlows (Actor.run π (Actor.init setup) es).sockets
        (Actor.run π (Actor.init setup) es).flows) ∧
    ∀ setup es, AlongM (step π) FreshDials (init setup) es →
      ∃ e, run π (init setup) es = some e ∧ DistinctFlows e.sockets e.flows := by
  refine ⟨fun setup es h => Actor.distinctFlows_of_freshDials h, fun setup es h => ?_⟩
  refine run_invariant (I := fun e => DistinctFlows e.sockets e.flows) ?_
    (fun s ev e e' hfresh hchange hw hI => hchange.distinctFlows hw hfresh hI) h
  rw [flows, init_links]
  exact List.nodup_nil

open Sample in
/-- Both programs dial one server twice. -/
theorem distinctFlows_dials :
    let twice (target : SocketAddr) : List Actor.Event :=
      [.command (.dial target 0), .command (.dial target 1)]
    let a := Actor.run sample (Actor.init clientSetup) (twice (inside (keyOf 1) 80))
    let setup : Setup :=
      ⟨privateKey 2, some (keyOf 1, keyOf 129), false, 100000⟩
    DistinctFlows a.sockets a.flows ∧
      ∃ e, run sample (init setup) (List.replicate 2 (.dial (tcAddrForKey (keyOf 1)) 80)) =
        some e ∧ DistinctFlows e.sockets e.flows := by
  refine ⟨(run_distinctFlows sample).1 clientSetup _ (by decide +kernel),
    (run_distinctFlows sample).2 _ _ ⟨by decide +kernel, fun e he => ⟨?_, fun _ _ => trivial⟩⟩⟩
  cases he
  decide +kernel

end Tailcat.Browser.Engine
