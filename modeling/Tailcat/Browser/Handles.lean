import Tailcat.Browser.Changes

/-!
# Handles and generations

The handle of a removed socket is used again, but its generation is not.  So a connection of the page
whose generation is still the one at its handle has the socket it was created with, and the calls of
the others leave all sockets alone.

The record of a run lists each connection with its handle, its generation and the number of its
socket.  The invariant says that every link has the socket it is listed with, and that neither a
generation nor a socket is listed twice; it is kept by each of the changes that an event consists of
(`Change`).  Of a call on a connection it is shown besides which socket it can touch and what it can
read, call by call (`OnConn`).

* `Handled` : the invariant that ties links, sockets and generations together.
* `step_onConn` : a call on a connection touches the socket at its live handle only.
* `run_handles` : after every run, which never fails, handles do not alias.

Generations are natural numbers here and have 64 bits in the program.  They count the connections, as
`run_handles` says too, so the two are the same in every run with fewer than `2 ^ 64 - 1` of them.
-/

namespace Tailcat.Browser.Engine

open Tailcat.Net Tailcat.Runtime Transition

variable {π : Platform} {s e e' : Engine} {ev : Event}

/-! ### The sockets of live handles -/

/-- A live handle has the socket that was created together with its generation, and each generation
was given to one socket. -/
structure Handled (e : Engine) : Prop where
  live : ∀ handle link, e.links.lookup handle = some link →
    ∃ x, e.sockets.get handle = some x ∧ (handle, link.generation, x.id) ∈ e.opened
  bound : ∀ o ∈ e.opened, o.2.1 < e.nextGeneration ∧ o.2.2 < e.issued
  counted : e.nextGeneration = e.opened.length + 1
  generations : (e.opened.map (·.2.1)).Nodup
  sockets : (e.opened.map (·.2.2)).Nodup

theorem opened_addLink (e : Engine) (socket : Socket) (flow : TcpFlow) (port : Port)
    (notified : Bool) : (e.addLink socket flow port notified).2.opened =
      e.opened ++ [(e.sockets.free, e.nextGeneration, socket.id)] := by
  unfold addLink
  dsimp only
  rw [opened_act, Slots.add_fst]
  rfl

theorem nodup_concat {α β : Type} {f : α → β} {l : List α} {x : α} (h : (l.map f).Nodup)
    (hx : ∀ y ∈ l, f y ≠ f x) : ((l ++ [x]).map f).Nodup := by
  rw [List.map_append]
  refine List.nodup_append.2 ⟨h, List.nodup_singleton _, ?_⟩
  intro z hz w hw
  obtain ⟨y, hy, rfl⟩ := List.mem_map.1 hz
  rw [List.mem_singleton.1 hw]
  exact hx y hy

theorem Handled.addLink (hI : e.Handled) {socket : Socket} (hid : socket.id = e.issued)
    (flow : TcpFlow) (port : Port) (notified : Bool) :
    (e.addLink socket flow port notified).2.Handled := by
  refine ⟨?_, ?_, ?_, ?_, ?_⟩
  · intro handle link hlink
    have hlink' : (e.links.insert (e.sockets.add socket).1 _).lookup handle = some link := hlink
    rw [opened_addLink]
    show ∃ x, (e.sockets.add socket).2.get handle = some x ∧ _
    rw [Slots.add_fst] at hlink'
    rw [Slots.get_add]
    split_ifs with heq
    · subst heq
      rw [AList.lookup_insert, Option.some.injEq] at hlink'
      subst hlink'
      exact ⟨socket, rfl, by simp⟩
    · rw [AList.lookup_insert_ne heq] at hlink'
      obtain ⟨x, hx, hmem⟩ := hI.live handle link hlink'
      exact ⟨x, hx, List.mem_append_left _ hmem⟩
  · intro o ho
    rw [opened_addLink] at ho
    show o.2.1 < e.nextGeneration + 1 ∧ o.2.2 < e.issued + 1
    rcases List.mem_append.1 ho with ho | ho
    · have := hI.bound o ho
      omega
    · rw [List.mem_singleton.1 ho]
      dsimp only
      omega
  · rw [opened_addLink, List.length_append, List.length_singleton]
    exact congrArg (· + 1) hI.counted
  · rw [opened_addLink]
    exact nodup_concat hI.generations fun o ho => Nat.ne_of_lt (hI.bound o ho).1
  · rw [opened_addLink]
    refine nodup_concat hI.sockets fun o ho => Nat.ne_of_lt ?_
    rw [hid]
    exact (hI.bound o ho).2

/-- A change of the sockets and links that keeps numbers and generations. -/
theorem Handled.congr (hI : e.Handled) (hopened : e'.opened = e.opened)
    (hgeneration : e'.nextGeneration = e.nextGeneration) (hissued : e'.issued = e.issued)
    (hlive : ∀ handle link, e'.links.lookup handle = some link →
      ∃ old x y, e.links.lookup handle = some old ∧ link.generation = old.generation ∧
        e.sockets.get handle = some x ∧ e'.sockets.get handle = some y ∧ y.id = x.id) :
    e'.Handled := by
  refine ⟨fun handle link hlink => ?_, ?_, ?_, hopened ▸ hI.generations, hopened ▸ hI.sockets⟩
  · obtain ⟨old, x, y, hold, hgen, hx, hy, hid⟩ := hlive handle link hlink
    obtain ⟨x', hx', hmem⟩ := hI.live handle old hold
    cases hx.symm.trans hx'
    exact ⟨y, hy, by rwa [hopened, hgen, hid]⟩
  · rw [hopened, hgeneration, hissued]
    exact hI.bound
  · rw [hopened, hgeneration]
    exact hI.counted

theorem Change.handled (h : Change s ev e e') (hI : e.Handled) : e'.Handled := by
  have hsame : ∀ handle link, e.links.lookup handle = some link →
      ∃ x, e.sockets.get handle = some x := fun handle link hlink => by
    obtain ⟨x, hx, -⟩ := hI.live handle link hlink
    exact ⟨x, hx⟩
  cases h with
  | alike h =>
    refine hI.congr h.opened h.nextGeneration h.issued fun handle link hlink => ?_
    rw [h.lookup] at hlink
    rw [h.sockets]
    obtain ⟨x, hx⟩ := hsame handle link hlink
    exact ⟨link, x, x, hlink, rfl, hx, hx, rfl⟩
  -- a new link has a new socket and a new generation
  | accepted _ hsocket =>
    refine hI.addLink ?_ _ _ _
    unfold Socket.listen at hsocket
    split_ifs at hsocket
    cases hsocket
    rfl
  | dialled _ _ hsocket =>
    refine hI.addLink ?_ _ _ _
    unfold Socket.connect at hsocket
    split_ifs at hsocket
    cases hsocket
    rfl
  -- whatever happens to a socket, it stays the same one
  | @socket _ handle' f hkeeps =>
    refine hI.congr rfl rfl rfl fun handle link hlink => ?_
    obtain ⟨x, hx⟩ := hsame handle link hlink
    by_cases heq : handle = handle'
    · subst heq
      exact ⟨link, x, f x, hlink, rfl, hx, by simp [Slots.get_update, hx], (hkeeps x hx).id⟩
    · exact ⟨link, x, x, hlink, rfl, hx, by simp [Slots.get_update, heq, hx], rfl⟩
  | @link _ handle' f hkeeps =>
    refine hI.congr rfl rfl rfl fun handle link hlink => ?_
    dsimp only at hlink
    rw [Table.lookup_adjust] at hlink
    split_ifs at hlink with heq
    · subst heq
      obtain ⟨old, hold, rfl⟩ := Option.map_eq_some_iff.1 hlink
      obtain ⟨x, hx⟩ := hsame handle old hold
      exact ⟨old, x, x, hold, (hkeeps old hold).1, hx, hx, rfl⟩
    · obtain ⟨x, hx⟩ := hsame handle link hlink
      exact ⟨link, x, x, hlink, rfl, hx, hx, rfl⟩
  | removed _ handle' =>
    refine hI.congr rfl rfl rfl fun handle link hlink => ?_
    by_cases heq : handle = handle'
    · subst heq
      cases (AList.lookup_erase handle e.links).symm.trans hlink
    · have hold := (AList.lookup_erase_ne heq).symm.trans hlink
      obtain ⟨x, hx⟩ := hsame handle link hold
      exact ⟨link, x, x, hold, rfl, hx, by simp [Slots.get_remove, heq, hx], rfl⟩
  | cleared => exact hI.congr rfl rfl rfl fun handle link hlink => (nomatch hlink)

/-! ### What a call of the page touches -/

/-- The connection an event is a call on. -/
def Event.conn : Event → Option ℕ
  | .read i | .resumeRead i | .write i _ | .resumeWrite i | .closeWrite i | .closeConn i => some i
  | _ => none

/-- A call on a connection touches no socket but the one at its live handle, and reads from no
other. -/
structure OnConn (e : Engine) (i : ℕ) (e' : Engine) : Prop where
  sockets : ∀ handle, e'.sockets.get handle = e.sockets.get handle ∨
    ∃ conn, e.conns[i]? = some conn ∧ e.live conn = true ∧ handle = conn.handle
  answers : ∃ new, e'.trace = e.trace ++ new ∧ ∀ b, .answer i (.bytes b) ∈ new →
    ∃ conn x, e.conns[i]? = some conn ∧ e.live conn = true ∧
      e.sockets.get conn.handle = some x ∧ b <+: x.rx.pending

namespace OnConn

variable {i : ℕ} {conn : BrowserConn}

/-- A call that touches no socket and reads nothing. -/
theorem quiet (hsockets : e'.sockets = e.sockets)
    (htrace : e'.trace = e.trace ∨ ∃ x, e'.trace = e.trace ++ [.answer i x] ∧ ∀ b, x ≠ .bytes b) :
    OnConn e i e' := by
  refine ⟨fun handle => .inl (by rw [hsockets]), ?_⟩
  rcases htrace with hsame | ⟨x, hnew, hx⟩
  · exact ⟨[], by rw [hsame, List.append_nil], by simp⟩
  · refine ⟨_, hnew, fun b hb => ?_⟩
    cases List.mem_singleton.1 hb
    exact absurd rfl (hx b)

/-- A call that changes the socket of its own connection. -/
theorem update {f : Socket → Socket} (hconn : e.conns[i]? = some conn)
    (hlive : e.live conn = true) (hsockets : e'.sockets = e.sockets.update conn.handle f)
    (htrace : e'.trace = e.trace ∨ ∃ x, e'.trace = e.trace ++ [.answer i x] ∧ ∀ b, x = .bytes b →
      ∃ socket, e.sockets.get conn.handle = some socket ∧ b <+: socket.rx.pending) :
    OnConn e i e' := by
  refine ⟨fun handle => ?_, ?_⟩
  · by_cases heq : handle = conn.handle
    · exact .inr ⟨conn, hconn, hlive, heq⟩
    · left
      rw [hsockets, Slots.get_update, if_neg heq]
  · rcases htrace with hsame | ⟨x, hnew, hx⟩
    · exact ⟨[], by rw [hsame, List.append_nil], by simp⟩
    · refine ⟨_, hnew, fun b hb => ?_⟩
      cases List.mem_singleton.1 hb
      obtain ⟨socket, hsocket, hpre⟩ := hx b rfl
      exact ⟨conn, socket, hconn, hlive, hsocket, hpre⟩

/-- The flags of a connection do not matter. -/
theorem ofSetConn {conn' : BrowserConn} (h : OnConn (e.setConn i conn') i e')
    (hconn : e.conns[i]? = some conn) (hhandle : conn'.handle = conn.handle)
    (hgeneration : conn'.generation = conn.generation) : OnConn e i e' := by
  have hlt := (List.getElem?_eq_some_iff.1 hconn).1
  have hset : (e.setConn i conn').conns[i]? = some conn' := by simp [setConn, hlt]
  have hlive : (e.setConn i conn').live conn' = e.live conn := by
    show (!e.closed && e.liveHandle conn'.handle conn'.generation) = _
    rw [hhandle, hgeneration]
    rfl
  have hback : ∀ c, (e.setConn i conn').conns[i]? = some c → (e.setConn i conn').live c = true →
      e.live conn = true ∧ c.handle = conn.handle := by
    intro c hc hclive
    cases hset.symm.trans hc
    exact ⟨hlive ▸ hclive, hhandle⟩
  refine ⟨fun handle => ?_, ?_⟩
  · refine (h.sockets handle).imp_right ?_
    rintro ⟨c, hc, hclive, rfl⟩
    obtain ⟨hl, hh⟩ := hback c hc hclive
    exact ⟨conn, hconn, hl, hh⟩
  · obtain ⟨new, hnew, hread⟩ := h.answers
    refine ⟨new, hnew, fun b hb => ?_⟩
    obtain ⟨c, x, hc, hclive, hx, hpre⟩ := hread b hb
    obtain ⟨hl, hh⟩ := hback c hc hclive
    exact ⟨conn, x, hconn, hl, hh ▸ hx, hpre⟩

end OnConn

theorem resumeRead_onConn (hI : e.Linked) (i : ℕ) : Yields (e.resumeRead i) (OnConn e i) := by
  unfold resumeRead
  split
  · rename_i conn hconn
    split
    · refine (readOnce_reads hI conn).bind fun r hr => ?_
      cases hr with
      | ends => exact .ofSome (.quiet rfl (.inr ⟨_, rfl, nofun⟩))
      | waits => exact .ofSome (.quiet rfl (.inl rfl))
      | takes hlive hsocket hdata =>
        refine .ofSome (.update hconn hlive rfl (.inr ⟨_, rfl, fun b hb => ?_⟩))
        cases hb
        exact ⟨_, hsocket, hdata⟩
    · exact .ofSome (.quiet rfl (.inl rfl))
  · exact .ofSome (.quiet rfl (.inl rfl))

theorem read_onConn (hI : e.Linked) (i : ℕ) : Yields (e.read i) (OnConn e i) := by
  unfold read
  split
  · rename_i conn hconn
    split
    · exact .ofSome (.quiet rfl (.inr ⟨_, rfl, nofun⟩))
    · exact (resumeRead_onConn (hI.alike (alike_setConn e i _)) i).mono fun _ h =>
        h.ofSetConn hconn rfl rfl
  · exact .ofSome (.quiet rfl (.inl rfl))

theorem resumeWrite_onConn (hI : e.Linked) (i : ℕ) : Yields (e.resumeWrite i) (OnConn e i) := by
  unfold resumeWrite
  split
  · rename_i conn hconn
    split
    · rename_i data _
      refine (writeOnce_writes hI conn data).bind fun r hr => ?_
      cases hr with
      | done => exact .ofSome (.quiet rfl (.inr ⟨_, rfl, nofun⟩))
      | fails => exact .ofSome (.quiet rfl (.inr ⟨_, rfl, nofun⟩))
      | waits => exact .ofSome (.quiet rfl (.inl rfl))
      | @puts _ result hlive hresult =>
        cases result with
        | inl rest => exact .ofSome (.update hconn hlive rfl (.inl rfl))
        | inr x =>
          refine .ofSome (.update hconn hlive rfl (.inr ⟨x, rfl, fun b hb => ?_⟩))
          cases hb.symm.trans (hresult x rfl)
    · exact .ofSome (.quiet rfl (.inl rfl))
  · exact .ofSome (.quiet rfl (.inl rfl))

theorem write_onConn (hI : e.Linked) (i : ℕ) (data : Bytes) :
    Yields (e.write i data) (OnConn e i) := by
  unfold write
  split
  · rename_i conn hconn
    split
    · exact .ofSome (.quiet rfl (.inr ⟨_, rfl, nofun⟩))
    · exact (resumeWrite_onConn (hI.alike (alike_setConn e i _)) i).mono fun _ h =>
        h.ofSetConn hconn rfl rfl
  · exact .ofSome (.quiet rfl (.inl rfl))

theorem closeSocket_yields {handle : ℕ} (h : (e.sockets.get handle).isSome) :
    Yields (e.closeSocket handle) fun e' =>
      e' = { e with sockets := e.sockets.update handle (·.close) } := by
  obtain ⟨socket, hsocket⟩ := Option.isSome_iff_exists.1 h
  unfold closeSocket
  rw [hsocket]
  exact .ofSome rfl

theorem closeWrite_onConn (hI : e.Linked) (i : ℕ) : Yields (e.closeWrite i) (OnConn e i) := by
  unfold closeWrite
  split
  · rename_i conn hconn
    split
    · exact .ofSome (.quiet rfl (.inr ⟨_, rfl, nofun⟩))
    · split
      · rename_i hlive
        refine (closeSocket_yields (isSome_of_live hI hlive)).bind fun e' he' => ?_
        subst he'
        exact .ofSome (.update hconn hlive rfl (.inr ⟨_, rfl, nofun⟩))
      · exact .ofSome (.quiet rfl (.inr ⟨_, rfl, nofun⟩))
  · exact .ofSome (.quiet rfl (.inl rfl))

theorem closeConn_onConn (hI : e.Linked) (i : ℕ) : Yields (e.closeConn i) (OnConn e i) := by
  unfold closeConn
  split
  · rename_i conn hconn
    split
    · rename_i hlive
      refine (closeSocket_yields (isSome_of_live hI hlive)).bind fun e' he' => ?_
      subst he'
      obtain ⟨link, hlink, -⟩ := (Option.any_eq_true _ _).1 (Bool.and_eq_true_iff.1 hlive).2
      dsimp only
      rw [hlink]
      refine .ofSome (.update (f := (·.close)) hconn hlive ?_ (.inl ?_))
      · split_ifs <;> rfl
      · split_ifs <;> rfl
    · exact .ofSome (.quiet rfl (.inl rfl))
  · exact .ofSome (.quiet rfl (.inl rfl))

theorem step_onConn (hI : e.Linked) {i : ℕ} (h : ev.conn = some i) :
    Yields (step π e ev) (OnConn e i) := by
  cases ev with
  | read j => cases h; exact read_onConn hI i
  | resumeRead j => cases h; exact resumeRead_onConn hI i
  | write j data => cases h; exact write_onConn hI i data
  | resumeWrite j => cases h; exact resumeWrite_onConn hI i
  | closeWrite j => cases h; exact closeWrite_onConn hI i
  | closeConn j => cases h; exact closeConn_onConn hI i
  | _ => cases h

/-! ### Runs -/

theorem Handled.liveHandle (hI : e.Handled) {handle generation : ℕ}
    (h : e.liveHandle handle generation = true) :
    ∃ x, e.sockets.get handle = some x ∧ (handle, generation, x.id) ∈ e.opened := by
  obtain ⟨link, hlink, hgeneration⟩ := (Option.any_eq_true _ _).1 h
  obtain ⟨x, hx, hmem⟩ := hI.live handle link hlink
  exact ⟨x, hx, of_decide_eq_true hgeneration ▸ hmem⟩

theorem Handled.linked (hI : e.Handled) : e.Linked := by
  intro handle link hlink
  obtain ⟨x, hx, -⟩ := hI.live handle link hlink
  rw [hx]
  rfl

theorem init_handled (setup : Setup) : (init setup).Handled := by
  have hopened : (init setup).opened = [] := by
    unfold opened init addPeer
    dsimp only
    split
    · split_ifs <;> rfl
    · rfl
  have hfirst : (init setup).nextGeneration = 1 := by
    unfold init addPeer
    dsimp only
    split
    · split_ifs <;> rfl
    · rfl
  refine ⟨fun handle link hlink => ?_, ?_, ?_, ?_, ?_⟩
  · rw [init_links] at hlink
    cases hlink
  · rw [hopened]
    exact nofun
  · rw [hopened, hfirst]
    rfl
  · rw [hopened]
    exact .nil
  · rw [hopened]
    exact .nil

/-- **Handles never alias**: no run fails; after it a live handle has the socket that was created
together with its generation, and each generation has one socket, counting from 1; and a call on a
connection touches no socket but its own, while its handle is live and the engine is open. -/
theorem run_handles (π : Platform) (setup : Setup) (es : List Event) :
    ∃ e, run π (init setup) es = some e ∧
      (∀ handle generation, e.liveHandle handle generation = true →
        ∃ x, e.sockets.get handle = some x ∧ (handle, generation, x.id) ∈ e.opened) ∧
      ((e.opened.map (·.2.1)).Nodup ∧ (e.opened.map (·.2.2)).Nodup) ∧
      (e.nextGeneration = e.opened.length + 1 ∧ ∀ o ∈ e.opened, o.2.1 ≤ e.opened.length) ∧
      ∀ ev i, ev.conn = some i → ∃ e', step π e ev = some e' ∧
        (∀ handle x, e.sockets.get handle = some x → e'.sockets.get handle = some x ∨
          ∃ conn, e.conns[i]? = some conn ∧ e.closed = false ∧ handle = conn.handle ∧
            e.liveHandle conn.handle conn.generation = true ∧
            (handle, conn.generation, x.id) ∈ e.opened) ∧
        ∃ new, e'.trace = e.trace ++ new ∧ ∀ b, .answer i (.bytes b) ∈ new →
          ∃ conn x, e.conns[i]? = some conn ∧ e.closed = false ∧
            e.liveHandle conn.handle conn.generation = true ∧
            e.sockets.get conn.handle = some x ∧
            (conn.handle, conn.generation, x.id) ∈ e.opened ∧ b <+: x.rx.pending := by
  obtain ⟨e, he, hI⟩ := run_invariant (π := π) (I := Handled) (P := fun _ _ => True)
    (init_handled setup) (fun _ _ _ _ _ hchange _ hI => hchange.handled hI)
    (AlongM.of_forall (fun _ _ => trivial) _ es)
  have hown : ∀ conn x, e.live conn = true → e.sockets.get conn.handle = some x →
      e.closed = false ∧ e.liveHandle conn.handle conn.generation = true ∧
        (conn.handle, conn.generation, x.id) ∈ e.opened := by
    intro conn x hlive hx
    obtain ⟨hclosed, hhandle⟩ := Bool.and_eq_true_iff.1 hlive
    obtain ⟨y, hy, hmem⟩ := hI.liveHandle hhandle
    cases hx.symm.trans hy
    exact ⟨by simpa using hclosed, hhandle, hmem⟩
  refine ⟨e, he, fun handle generation h => hI.liveHandle h, ⟨hI.generations, hI.sockets⟩,
    ⟨hI.counted, fun o ho => ?_⟩, fun ev i hconn => ?_⟩
  · have := (hI.bound o ho).1
    rw [hI.counted] at this
    omega
  obtain ⟨e', he', hsockets, new, hnew, hread⟩ := step_onConn (π := π) hI.linked hconn
  refine ⟨e', he', fun handle x hx => ?_, new, hnew, fun b hb => ?_⟩
  · rcases hsockets handle with hsame | ⟨conn, hconn, hlive, rfl⟩
    · exact .inl (hsame.trans hx)
    · obtain ⟨hclosed, hhandle, hmem⟩ := hown conn x hlive hx
      exact .inr ⟨conn, hconn, hclosed, rfl, hhandle, hmem⟩
  · obtain ⟨conn, x, hconn, hlive, hx, hpre⟩ := hread b hb
    obtain ⟨hclosed, hhandle, hmem⟩ := hown conn x hlive hx
    exact ⟨conn, x, hconn, hclosed, hhandle, hx, hmem, hpre⟩

end Tailcat.Browser.Engine
