import Tailcat.Runtime.Connections

/-!
# A pass over the links

A pass gives every link a round, by its index, and then takes out those whose connection is over,
from the last to the first.  The handle of a socket that is removed is the next one to be given out.

* `Small.owned` : every socket is that of a link, as every link has a socket (`Wired`).
* `tickChecked_eq` : no handle that is looked up in a tick is missing.
* `pollLinks_pass` : the connections that are over after their own round are taken out, the others
  stay as their own round left them.
-/

namespace Tailcat.Runtime.Actor

variable {π : Platform} {Q : Actor → PollAction → Prop} {s a b : Actor} {e : Event}

/-! ### Every socket has a link -/

/-- Every socket is that of a link. -/
def Owned (a : Actor) : Prop := ∀ i, (a.sockets.get i).isSome → ∃ link ∈ a.links, link.socket = i

theorem Owned.congr (h : a.Owned) (hlinks : b.links = a.links)
    (hsockets : ∀ i, (b.sockets.get i).isSome = (a.sockets.get i).isSome) : b.Owned := by
  intro i hi
  rw [hsockets] at hi
  rw [hlinks]
  exact h i hi

theorem Owned.openLink (h : a.Owned) {socket : Socket} {flow : TcpFlow}
    {connected : Option ReplyId} {handler : Option Handler} :
    (a.openLink socket flow connected handler).Owned := by
  intro i hi
  simp only [Actor.openLink, Slots.get_add] at hi ⊢
  by_cases hfree : i = a.sockets.free
  · exact ⟨_, List.mem_append_right _ List.mem_cons_self, (Slots.add_fst _ _).trans hfree.symm⟩
  · rw [if_neg hfree] at hi
    obtain ⟨link, hlink, heq⟩ := h i hi
    exact ⟨link, List.mem_append_left _ hlink, heq⟩

theorem Owned.putConn (h : a.Owned) {index : ℕ} {c c' : Conn} (hc : a.connAt index = some c)
    (hgoes : c.Goes c') : (a.putConn index c').Owned := by
  intro i hi
  simp only [Actor.putConn, isSome_get_update] at hi
  obtain ⟨link, hlink, rfl⟩ := h i hi
  obtain ⟨j, hj⟩ := List.getElem?_of_mem hlink
  by_cases hindex : index = j
  · subst hindex
    obtain rfl : c.link = link := Option.some.inj ((connAt_eq_some.1 hc).1.symm.trans hj)
    exact ⟨c'.link, List.mem_of_getElem? (List.getElem?_set_self (lt_of_connAt hc)), hgoes.handle⟩
  · exact ⟨link, List.mem_of_getElem? ((List.getElem?_set_ne hindex).trans hj), rfl⟩

theorem Owned.removeLink (h : a.Owned) {index : ℕ} {c : Conn} (hc : a.connAt index = some c) :
    (a.removeLink index).Owned := by
  rw [removeLink_of_connAt hc]
  intro i hi
  simp only [Slots.get_remove] at hi ⊢
  have hne : i ≠ c.link.socket := by
    rintro rfl
    rw [if_pos rfl] at hi
    cases hi
  rw [if_neg hne] at hi
  obtain ⟨link, hlink, rfl⟩ := h i hi
  obtain ⟨j, hj, rfl⟩ := List.getElem_of_mem hlink
  have hother : j ≠ index := by
    rintro rfl
    have hat := (connAt_eq_some.1 hc).1
    rw [List.getElem?_eq_getElem hj] at hat
    exact hne (congrArg Link.socket (Option.some.inj hat))
  refine ⟨a.links[j], ?_, rfl⟩
  exact (swapRemove_perm (lt_of_connAt hc)).mem_iff.2
    (List.mem_eraseIdx_iff_getElem.2 ⟨j, hj, hother, rfl⟩)

theorem Small.owned (h : Small π Q s e a b) (hI : a.Owned) : b.Owned := by
  cases h.conns with
  | same hlinks hsockets => exact hI.congr hlinks fun i => by rw [hsockets]
  | accepted => exact hI.openLink
  | dialled => exact hI.openLink
  | polled => exact hI.congr (by rw [pollAction_eq]) fun i => isSome_get_pollAction _ _ i
  | round hc => exact hI.putConn hc (Conn.poll_goes _ _)
  | removed hc => exact hI.removeLink hc
  | app => exact hI.congr rfl fun _ => rfl

theorem init_owned (setup : Setup) : (init setup).Owned := by
  have hempty : ∀ b : Actor, b.sockets = ∅ → b.Owned := by
    intro b hb i hi
    rw [hb] at hi
    cases hi
  refine hempty _ ?_
  unfold init addPeer
  dsimp only
  split
  · split_ifs <;> rfl
  · rfl

theorem run_owned (setup : Setup) (es : List Event) : (run π (init setup) es).Owned :=
  run_invariant (init_owned setup) (fun _ _ _ _ h hI => h.owned hI) es

/-! ### One connection is removed -/

/-- A connection is at one index only. -/
theorem Wired.index_unique (h : a.Wired) {i j : ℕ} {c : Conn} (hi : a.connAt i = some c)
    (hj : a.connAt j = some c) : i = j := by
  by_contra hne
  exact h.handle_ne (connAt_eq_some.1 hi).1 (connAt_eq_some.1 hj).1 hne rfl

/-- The other connections stay. -/
theorem exists_connAt_removeLink (h : a.Wired) {index : ℕ} {c₀ : Conn}
    (hc₀ : a.connAt index = some c₀) (c : Conn) :
    (∃ i, (a.removeLink index).connAt i = some c) ↔ ∃ i ≠ index, a.connAt i = some c := by
  have hlt := lt_of_connAt hc₀
  have hlink₀ := (connAt_eq_some.1 hc₀).1
  rw [removeLink_of_connAt hc₀]
  constructor
  · rintro ⟨i, hi⟩
    obtain ⟨hlink, hsocket, hpipe, hacts⟩ := connAt_eq_some.1 hi
    dsimp only at hlink hsocket hpipe
    obtain ⟨j, hj, hne, hget⟩ := List.mem_eraseIdx_iff_getElem.1
      ((swapRemove_perm hlt).mem_iff.1 (List.mem_of_getElem? hlink))
    have hat : a.links[j]? = some c.link := by rw [List.getElem?_eq_getElem hj, hget]
    refine ⟨j, hne, connAt_eq_some.2 ⟨hat, ?_, ?_, hacts⟩⟩
    · rwa [Slots.get_remove, if_neg (h.handle_ne hat hlink₀ hne)] at hsocket
    · rw [List.getElem?_modify] at hpipe
      simpa [(h.pipe_ne hat hlink₀ hne).symm] using hpipe
  · rintro ⟨j, hne, hj⟩
    obtain ⟨hat, hsocket, hpipe, hacts⟩ := connAt_eq_some.1 hj
    have hmem : c.link ∈ swapRemove a.links index := by
      refine (swapRemove_perm hlt).mem_iff.2 (List.mem_eraseIdx_iff_getElem.2 ?_)
      obtain ⟨hjlt, hget⟩ := List.getElem?_eq_some_iff.1 hat
      exact ⟨j, hjlt, hne, hget⟩
    obtain ⟨i, hi⟩ := List.getElem?_of_mem hmem
    refine ⟨i, connAt_eq_some.2 ⟨hi, ?_, ?_, hacts⟩⟩
    · dsimp only
      rw [Slots.get_remove, if_neg (h.handle_ne hat hlink₀ hne)]
      exact hsocket
    · dsimp only
      rw [List.getElem?_modify, hpipe]
      simp [(h.pipe_ne hat hlink₀ hne).symm]

/-- Connections are removed from the last to the first: those at other indices stay. -/
theorem removals_kept (h : a.Wired) {remove : List ℕ} (hsorted : remove.Pairwise (· > ·))
    (hlt : ∀ i ∈ remove, i < a.links.length) :
    (remove.foldl removeLink a).Wired ∧
      ∀ c, (∃ i, (remove.foldl removeLink a).connAt i = some c) ↔
        ∃ i ∉ remove, a.connAt i = some c := by
  induction remove generalizing a with
  | nil => exact ⟨h, fun c => by simp⟩
  | cons index rest ih =>
    obtain ⟨hfirst, hrest⟩ := List.pairwise_cons.1 hsorted
    obtain ⟨c₀, hc₀⟩ := h.connAt_isSome (hlt index List.mem_cons_self)
    -- what comes before the removed connection is still where it was
    have hsame : ∀ j ∈ rest, (a.removeLink index).connAt j = a.connAt j := fun j hj =>
      connAt_removeLink_lt h hc₀ (hfirst j hj)
    have hwired := h.removeLink hc₀
    have hlt' : ∀ i ∈ rest, i < (a.removeLink index).links.length := by
      intro i hi
      obtain ⟨c, hc⟩ := h.connAt_isSome (hlt i (List.mem_cons_of_mem _ hi))
      exact lt_of_connAt ((hsame i hi).trans hc)
    obtain ⟨hwired', hkept⟩ := ih hwired hrest hlt'
    refine ⟨hwired', fun c => (hkept c).trans ?_⟩
    have hiff := exists_connAt_removeLink h hc₀ c
    constructor
    · rintro ⟨k, hk, hc⟩
      obtain ⟨j, hne, hj⟩ := hiff.1 ⟨k, hc⟩
      refine ⟨j, fun hmem => ?_, hj⟩
      rcases List.mem_cons.1 hmem with rfl | hmem
      · exact hne rfl
      · obtain rfl := hwired.index_unique hc ((hsame j hmem).trans hj)
        exact hk hmem
    · rintro ⟨j, hmem, hj⟩
      obtain ⟨hne, hj'⟩ := not_or.1 (fun h => hmem (List.mem_cons.2 h))
      obtain ⟨k, hc⟩ := hiff.2 ⟨j, hne, hj⟩
      refine ⟨k, fun hk => ?_, hc⟩
      obtain rfl := h.index_unique hj ((hsame k hk).symm.trans hc)
      exact hj' hk

/-! ### All rounds -/

/-- The round of the connection at an index: each round before it has drawn three outcomes. -/
def roundAt (π : Platform) (a : Actor) (i : ℕ) (c : Conn) : Conn :=
  c.poll ({ a with draws := a.draws + 3 * i }.surroundings π)

/-- The connection at an index is over after its round. -/
def endsAt (π : Platform) (a : Actor) (i : ℕ) : Bool :=
  (a.connAt i).any fun c => (a.roundAt π i c).isOver

/-- What the connection at an index has done in its round. -/
def actsAt (π : Platform) (a : Actor) (i : ℕ) : List Act :=
  ((a.connAt i).map fun c => (a.roundAt π i c).acts).getD []

/-- The links before an index have had their rounds. -/
structure Polled (π : Platform) (a : Actor) (n : ℕ) (p : List ℕ × Actor) : Prop where
  same : SameButLinks a p.2
  wired : p.2.Wired
  draws : p.2.draws = a.draws + 3 * n
  length : p.2.links.length = a.links.length
  connAt : ∀ i, p.2.connAt i =
    if i < n then (a.connAt i).map fun c => { a.roundAt π i c with acts := [] } else a.connAt i
  remove : p.1 = (List.range n).filter (a.endsAt π)
  trace : p.2.trace = a.trace ++ (List.range n).flatMap (a.actsAt π)

theorem surroundings_of_same (h : SameButLinks a b) {n : ℕ} (hdraws : b.draws = a.draws + n) :
    b.surroundings π = { a with draws := a.draws + n }.surroundings π := by
  rw [h]
  simp only [surroundings, hdraws]

theorem polled (h : a.Wired) {n : ℕ} (hn : n ≤ a.links.length) :
    Polled π a n ((List.range n).foldl (fun (remove, a) index =>
      let (ended, a) := a.pollLink π index
      (if ended then remove ++ [index] else remove, a)) ([], a)) := by
  induction n with
  | zero => exact ⟨rfl, h, rfl, rfl, fun i => by simp, rfl, by simp⟩
  | succ n ih =>
    have hp := ih (by omega)
    rw [List.range_succ, List.foldl_append, List.foldl_cons, List.foldl_nil]
    generalize (List.range n).foldl _ ([], a) = p at hp ⊢
    obtain ⟨remove, b⟩ := p
    obtain ⟨hsame, hwired, hdraws, hlength, hat, hremove, htrace⟩ := hp
    dsimp only at hsame hwired hdraws hlength hat hremove htrace
    obtain ⟨c, hc⟩ := h.connAt_isSome (show n < a.links.length by omega)
    have hb : b.connAt n = some c := by rw [hat, if_neg (Nat.lt_irrefl n), hc]
    have hgoes := Conn.poll_goes (b.surroundings π) c
    -- what the round sees of its surroundings has not changed since the pass began
    have hround : c.poll (b.surroundings π) = a.roundAt π n c := by
      rw [surroundings_of_same hsame hdraws]
      rfl
    rw [hround] at hgoes
    have hpoll : b.pollLink π n = ((a.roundAt π n c).isOver, b.putConn n (a.roundAt π n c)) := by
      unfold pollLink
      rw [hb]
      dsimp only
      rw [hround]
    dsimp only
    rw [hpoll]
    have hends : a.endsAt π n = (a.roundAt π n c).isOver := by
      rw [endsAt, hc, Option.any_some]
    refine ⟨hsame.trans rfl, hwired.putConn hb hgoes, ?_, ?_, fun i => ?_, ?_, ?_⟩
    · show b.draws + 3 = _
      rw [hdraws]
      omega
    · show (b.links.set n _).length = _
      rw [List.length_set, hlength]
    · rw [connAt_putConn hwired hb hgoes]
      by_cases hi : i = n
      · subst hi
        rw [if_pos rfl, if_pos (Nat.lt_succ_self i), hc]
        rfl
      · rw [if_neg hi, hat]
        by_cases hlt : i < n
        · rw [if_pos hlt, if_pos (by omega)]
        · rw [if_neg hlt, if_neg (by omega)]
    · dsimp only
      rw [List.range_succ, List.filter_append, List.filter_singleton, hends, ← hremove]
      cases (a.roundAt π n c).isOver with
      | true => rfl
      | false => exact (List.append_nil _).symm
    · show b.trace ++ _ = _
      rw [List.range_succ, List.flatMap_append, List.flatMap_singleton, htrace, List.append_assoc,
        actsAt, hc]
      rfl

/-! ### A whole pass -/

/-- What a pass does: each connection has its own round, and those that are over after it are taken
out. -/
structure Pass (π : Platform) (a b : Actor) : Prop where
  /-- A connection keeps its socket and its pipe in its round. -/
  own : ∀ i c, a.connAt i = some c → (a.roundAt π i c).link.socket = c.link.socket ∧
    (a.roundAt π i c).link.pipe = c.link.pipe
  /-- Those stay that are not over, as their own round left them. -/
  kept : ∀ c, (∃ i, b.connAt i = some c) ↔ ∃ i c₀, a.connAt i = some c₀ ∧
    (a.roundAt π i c₀).isOver = false ∧ c = { a.roundAt π i c₀ with acts := [] }
  /-- The socket of one that is over is free. -/
  removed : ∀ i c, a.connAt i = some c → (a.roundAt π i c).isOver = true →
    b.sockets.get c.link.socket = none
  /-- What was done in all rounds is recorded. -/
  acts : ∀ i c, a.connAt i = some c → ∀ x ∈ (a.roundAt π i c).acts, x ∈ b.trace

theorem trace_removeLink (a : Actor) (index : ℕ) :
    a.trace <+: (a.removeLink index).trace := by
  unfold removeLink
  split
  · exact List.prefix_append _ _
  · exact List.prefix_refl _

theorem trace_removals (a : Actor) (remove : List ℕ) :
    a.trace <+: (remove.foldl removeLink a).trace := by
  induction remove generalizing a with
  | nil => exact List.prefix_refl _
  | cons index remove ih => exact (trace_removeLink a index).trans (ih (a.removeLink index))

theorem sorted_ends (a : Actor) (n : ℕ) :
    ((List.range n).filter (a.endsAt π)).reverse.Pairwise (· > ·) :=
  List.pairwise_reverse.2 (List.pairwise_lt_range.sublist List.filter_sublist)

/-- **One pass over the links.** -/
theorem pollLinks_pass (h : a.Wired) (howned : a.Owned) : Pass π a (a.pollLinks π) := by
  have howned' : (a.pollLinks π).Owned :=
    (pollLinks_changes (Q := AnyPoll) (s := a) (e := .tick [] []) rfl h).preserves
      (fun _ _ hsmall => hsmall.owned) howned
  have hp := polled (π := π) h (Nat.le_refl a.links.length)
  unfold pollLinks pollRounds at howned' ⊢
  generalize (List.range a.links.length).foldl _ ([], a) = p at hp howned' ⊢
  obtain ⟨remove, b⟩ := p
  obtain ⟨-, hwired, -, hlength, hat, hremove, htrace⟩ := hp
  dsimp only at hwired hlength hat hremove htrace howned' ⊢
  have hrange : ∀ i ∈ remove, i < a.links.length ∧ a.endsAt π i = true := by
    intro i hi
    rw [hremove] at hi
    exact ⟨List.mem_range.1 (List.mem_filter.1 hi).1, (List.mem_filter.1 hi).2⟩
  obtain ⟨hwired', hkept⟩ := removals_kept hwired (hremove ▸ sorted_ends a _)
    (fun i hi => hlength ▸ (hrange i (List.mem_reverse.1 hi)).1)
  have hround : ∀ i c, a.connAt i = some c →
      b.connAt i = some { a.roundAt π i c with acts := [] } := by
    intro i c hc
    rw [hat, if_pos (lt_of_connAt hc), hc]
    rfl
  have hends : ∀ i c, a.connAt i = some c → a.endsAt π i = (a.roundAt π i c).isOver := by
    intro i c hc
    rw [endsAt, hc, Option.any_some]
  have hkept' : ∀ c, (∃ i, (remove.reverse.foldl removeLink b).connAt i = some c) ↔
      ∃ i c₀, a.connAt i = some c₀ ∧ (a.roundAt π i c₀).isOver = false ∧
        c = { a.roundAt π i c₀ with acts := [] } := by
    intro c
    rw [hkept c]
    constructor
    · rintro ⟨i, hi, hc⟩
      have hlt : i < a.links.length := hlength ▸ lt_of_connAt hc
      obtain ⟨c₀, hc₀⟩ := h.connAt_isSome hlt
      refine ⟨i, c₀, hc₀, ?_, Option.some.inj (hc.symm.trans (hround i c₀ hc₀))⟩
      rw [← hends i c₀ hc₀, ← Bool.not_eq_true]
      intro hend
      refine hi (List.mem_reverse.2 ?_)
      rw [hremove]
      exact List.mem_filter.2 ⟨List.mem_range.2 hlt, hend⟩
    · rintro ⟨i, c₀, hc₀, hover, rfl⟩
      refine ⟨i, fun hi => ?_, hround i c₀ hc₀⟩
      have hend := (hrange i (List.mem_reverse.1 hi)).2
      rw [hends i c₀ hc₀, hover] at hend
      cases hend
  have hgoes : ∀ (i : ℕ) (c : Conn), c.Goes (a.roundAt π i c) := fun _ c => Conn.poll_goes _ c
  refine ⟨fun i c _ => ⟨(hgoes i c).handle, (hgoes i c).pipe⟩, hkept', ?_, ?_⟩
  · intro i c hc hover
    by_contra hsome
    -- the socket would be that of a link that stays, whose own round left it its own socket
    obtain ⟨link, hlink, hsocket⟩ := howned' c.link.socket (Option.isSome_iff_ne_none.2 hsome)
    obtain ⟨k, hk, hget⟩ := List.getElem_of_mem hlink
    obtain ⟨c', hc'⟩ := hwired'.connAt_isSome hk
    obtain ⟨j, c₀, hc₀, hstays, rfl⟩ := (hkept' c').1 ⟨k, hc'⟩
    have hlink' := (connAt_eq_some.1 hc').1
    rw [List.getElem?_eq_getElem hk, hget] at hlink'
    have hsame : c₀.link.socket = c.link.socket := by
      rw [← (hgoes j c₀).handle, ← hsocket]
      exact congrArg Link.socket (Option.some.inj hlink').symm
    have hij : j = i := by
      by_contra hne
      exact h.handle_ne (connAt_eq_some.1 hc₀).1 (connAt_eq_some.1 hc).1 hne hsame
    subst hij
    obtain rfl := Option.some.inj (hc₀.symm.trans hc)
    rw [hover] at hstays
    cases hstays
  · intro i c hc x hx
    refine (trace_removals b _).subset ?_
    rw [htrace]
    refine List.mem_append_right _ (List.mem_flatMap.2 ⟨i, List.mem_range.2 (lt_of_connAt hc), ?_⟩)
    rw [actsAt, hc]
    exact hx

/-! ### No handle is missing -/

/-- `pollLinks`, where a missing handle is a panic. -/
def pollLinksChecked (π : Platform) (a : Actor) : Option Actor := do
  let (remove, a) ← (List.range a.links.length).foldlM (fun (remove, a) index =>
    if (a.connAt index).isSome then
      let (ended, a) := a.pollLink π index
      some (if ended then remove ++ [index] else remove, a)
    else none) ([], a)
  remove.reverse.foldlM (fun a index =>
    if (a.connAt index).isSome then some (a.removeLink index) else none) a

/-- The handles of all links are there. -/
def handlesThere (a : Actor) : Bool :=
  a.links.all fun link => (a.sockets.get link.socket).isSome

/-- `tick`, where a missing handle is a panic. -/
def tickChecked (π : Platform) (a : Actor) (first second : List PollAction) : Option Actor := do
  let a := a.expireUdp
  let a ← (a.ifacePoll π first).pollLinksChecked π
  let a := (a.ifacePoll π second).drainOutgoing π
  let a := (a.timers π).advertiseTimer π
  if a.handlesThere then some a.drainTimer else none

theorem roundsChecked_eq (h : a.Wired) {n : ℕ} (hn : n ≤ a.links.length) :
    (List.range n).foldlM (fun (remove, a) index =>
      if (a.connAt index).isSome then
        let (ended, a) := a.pollLink π index
        some (if ended then remove ++ [index] else remove, a)
      else none) (([], a) : List ℕ × Actor) =
    some ((List.range n).foldl (fun (remove, a) index =>
      let (ended, a) := a.pollLink π index
      (if ended then remove ++ [index] else remove, a)) ([], a)) := by
  induction n with
  | zero => rfl
  | succ n ih =>
    have hp := polled (π := π) h (show n ≤ a.links.length by omega)
    rw [List.range_succ, List.foldlM_append, ih (by omega), List.foldl_append]
    generalize (List.range n).foldl _ ([], a) = p at hp ⊢
    obtain ⟨c, hc⟩ := hp.wired.connAt_isSome (show n < p.2.links.length by
      rw [hp.length]
      omega)
    have hsome : (p.2.connAt n).isSome = true := by
      rw [hc]
      rfl
    simp only [Option.bind_eq_bind, Option.bind_some, List.foldlM_cons, List.foldlM_nil, hsome,
      if_true, List.foldl_cons, List.foldl_nil]
    rfl

theorem removalsChecked_eq (h : a.Wired) {remove : List ℕ} (hsorted : remove.Pairwise (· > ·))
    (hlt : ∀ i ∈ remove, i < a.links.length) :
    remove.foldlM (fun a index =>
      if (a.connAt index).isSome then some (a.removeLink index) else none) a =
    some (remove.foldl removeLink a) := by
  induction remove generalizing a with
  | nil => rfl
  | cons index rest ih =>
    obtain ⟨hfirst, hrest⟩ := List.pairwise_cons.1 hsorted
    obtain ⟨c, hc⟩ := h.connAt_isSome (hlt index List.mem_cons_self)
    have hsome : (a.connAt index).isSome = true := by
      rw [hc]
      rfl
    rw [List.foldlM_cons, if_pos hsome, List.foldl_cons]
    refine ih (h.removeLink hc) hrest fun i hi => ?_
    obtain ⟨c', hc'⟩ := h.connAt_isSome (hlt i (List.mem_cons_of_mem _ hi))
    exact lt_of_connAt ((connAt_removeLink_lt h hc (hfirst i hi)).trans hc')

theorem pollLinksChecked_eq (h : a.Wired) : a.pollLinksChecked π = some (a.pollLinks π) := by
  have hp := polled (π := π) h (Nat.le_refl a.links.length)
  unfold pollLinksChecked pollLinks pollRounds
  rw [roundsChecked_eq h (Nat.le_refl _)]
  generalize (List.range a.links.length).foldl _ ([], a) = p at hp ⊢
  have hlt : ∀ i ∈ p.1.reverse, i < p.2.links.length := by
    intro i hi
    rw [List.mem_reverse, hp.remove] at hi
    rw [hp.length]
    exact List.mem_range.1 (List.mem_filter.1 hi).1
  exact removalsChecked_eq hp.wired (hp.remove ▸ sorted_ends a _) hlt

theorem Wired.handlesThere (h : a.Wired) : a.handlesThere = true :=
  List.all_eq_true.2 h.socket

/-- The state a tick polls the links in. -/
def beforePass (π : Platform) (a : Actor) (first : List PollAction) : Actor :=
  a.expireUdp.ifacePoll π first

theorem ifacePoll_any (b : Actor) (actions : List PollAction) :
    Changes π AnyPoll s e b (b.ifacePoll π actions) :=
  ifacePoll_changes (.of_forall (fun _ _ => trivial) _ _)

theorem beforePass_changes (a : Actor) (first second : List PollAction) :
    Changes π AnyPoll s (.tick first second) a (a.beforePass π first) :=
  .head (.expireUdp rfl) (ifacePoll_any _ _)

/-- No handle that a tick looks up is missing. -/
theorem tickChecked_eq (h : a.Wired) (first second : List PollAction) :
    a.tickChecked π first second = some (a.tick π first second) := by
  have hchanges := beforePass_changes (π := π) (s := a) a first second
  have hbefore := hchanges.wired h
  have hpass := pollLinks_changes (π := π) (Q := AnyPoll) (s := a) (e := .tick first second) rfl
    hbefore
  have hsecond := (hpass.trans (ifacePoll_any _ second)).trans (drainOutgoing_changes _)
  have hdone := Changes.wired ((hsecond.trans (timers_changes _)).trans (advertiseTimer_changes _))
    hbefore
  unfold beforePass at hbefore hdone
  unfold tickChecked tick
  dsimp only
  rw [pollLinksChecked_eq hbefore]
  simp only [Option.bind_eq_bind, Option.bind_some]
  rw [if_pos hdone.handlesThere]

end Tailcat.Runtime.Actor
