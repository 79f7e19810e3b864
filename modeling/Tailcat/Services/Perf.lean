import Tailcat.Lib.Transition
import Tailcat.Bytes
import Mathlib.Logic.Function.Basic

/-!
# The performance server

A test begins with a `hello` on a control connection, which gets the one slot for a test and an
identifier.  Data streams name the identifier and an index, and are handed to the test through a
channel whose sender is in the slot.  A guard of the control connection clears the slot.

`tests_isolated` : whatever connections do and wherever they stop, there is one test at a time, the
slot belongs to it until it ends, and it gets its own data streams.

A connection is a task that can stop at any of its awaits (`Event.stop`), and the guard acts when it
does.  So the steps are those between two awaits, of any connections in any order, and the invariant
relates the slot to the phase of the one connection whose test it is.  An identifier is drawn at
random, and that it is drawn once is not assumed: a test's own streams are those that name its
identifier.
-/

namespace Tailcat.Services.Perf

open Transition

/-! ### Parameters -/

/-- What a client wants to measure. -/
structure Params where
  proto : String
  dir : String
  duration : ℕ := 0
  bytes : ℕ := 0
  streams : ℕ
  length : ℕ
  bitrate : ℕ := 0
  interval : ℕ := 0
  deriving DecidableEq, Repr

/-- `Params::validate`. -/
def Params.validate (p : Params) : Except String Unit :=
  if !(p.proto = "tcp" || p.proto = "udp") || !(p.dir = "up" || p.dir = "down" || p.dir = "both") then
    .error "unknown protocol or direction"
  else if p.streams = 0 ∨ 128 < p.streams then .error "streams must be between 1 and 128"
  else if p.bytes = 0 ∧ (p.duration = 0 ∨ 600000000000 < p.duration) then
    .error "duration must be positive and at most ten minutes"
  else if p.length = 0 ∨ 2 ^ 20 < p.length ∨
      (p.proto = "udp" ∧ ¬(32 ≤ p.length ∧ p.length ≤ 65507)) then
    .error "invalid data length"
  else if p.interval ≠ 0 ∧ p.interval < 100000000 then .error "interval must be at least 100ms"
  else .ok ()

/-! ### The server -/

/-- A data stream, and the test and the index that it names. -/
structure Data where
  udp : Bool
  stream : ℕ
  id : String
  index : ℕ
  deriving DecidableEq, Repr

/-- The slot for a test; the sender of the channel stands for the connection that receives. -/
structure Active where
  id : String
  proto : String
  owner : ℕ
  deriving DecidableEq, Repr

/-- How far a control connection is. -/
inductive Phase
  /-- The first message is not there yet. -/
  | reading
  /-- An error is being written. -/
  | rejecting (error : String)
  /-- The identifier is being written. -/
  | greeting (id : String) (params : Params)
  /-- The data streams are awaited. -/
  | collecting (id : String) (params : Params) (slots : List (Option Data)) (count : ℕ)
  /-- The start of the test is being written. -/
  | readying (id : String) (params : Params) (data : List Data)
  | running (id : String) (params : Params) (data : List Data)
  | done
  deriving DecidableEq, Repr

/-- What the server reads in the first message of a connection. -/
structure Message where
  type : Option String
  id : Option String := none
  stream : Option ℕ := none
  params : Except String Params := .error "missing field"

/-- What happens, with what the system and the random generator choose. -/
inductive Event
  /-- A connection has its first message; the bytes are for an identifier. -/
  | first (conn : ℕ) (message : Message) (random : Bytes)
  /-- A datagram stream has its first datagram. -/
  | datagram (stream : ℕ) (bytes : Bytes)
  /-- What a connection writes is written. -/
  | written (conn : ℕ)
  /-- A connection receives from its channel. -/
  | receive (conn : ℕ)
  /-- The test of a connection has a result. -/
  | finish (conn : ℕ)
  /-- A connection fails, times out or is dropped. -/
  | stop (conn : ℕ)

/-- The server and its connections. -/
structure World where
  active : Option Active := none
  phases : ℕ → Phase := fun _ => .reading
  /-- The channels of the connections. -/
  queues : ℕ → List (ℕ × Data) := fun _ => []

/-- `hex::encode`. -/
def hexEncode (b : Bytes) : String :=
  String.ofList (b.flatMap fun c => [Nat.digitChar (c.toNat / 16), Nat.digitChar (c.toNat % 16)])

/-- The values of a list without gaps. -/
def unwrapAll {α : Type} : List (Option α) → Option (List α)
  | [] => some []
  | none :: _ => none
  | some a :: l => (unwrapAll l).map (a :: ·)

/-- A control connection that is past the busy check. -/
def Phase.IsTest : Phase → Prop
  | .greeting _ _ | .collecting _ _ _ _ | .readying _ _ _ | .running _ _ _ => True
  | _ => False

instance (p : Phase) : Decidable p.IsTest := by
  cases p <;> unfold Phase.IsTest <;> infer_instance

/-- A connection is in another phase. -/
def World.enter (w : World) (conn : ℕ) (phase : Phase) : World :=
  { w with phases := Function.update w.phases conn phase }

/-- A connection ends; the guard of a test clears the slot. -/
def World.leave (w : World) (conn : ℕ) : World :=
  { active := if (w.phases conn).IsTest then none else w.active
    phases := Function.update w.phases conn .done
    queues := Function.update w.queues conn [] }

/-- `attach`. -/
def World.attach (w : World) (id : String) (index : ℕ) (data : Data) : World :=
  match w.active with
  | some a =>
    if a.id = id && (a.proto = "udp" : Bool) == data.udp && (w.queues a.owner).length < 128 then
      { w with queues := Function.update w.queues a.owner (w.queues a.owner ++ [(index, data)]) }
    else w
  | none => w

/-- `handle_tcp` with the first message. -/
def World.handle (w : World) (conn : ℕ) (m : Message) (random : Bytes) : World :=
  if m.type = some "stream" then
    let id := m.id.getD ""
    let index := m.stream.getD 0
    (w.attach id index { udp := false, stream := conn, id, index }).leave conn
  else if m.type ≠ some "hello" then w.leave conn
  else
    match do
      let p ← m.params
      p.validate
      pure p with
    | .error e => w.enter conn (.rejecting e)
    | .ok params =>
      if w.active.isSome then w.enter conn (.rejecting "the server is busy with another test")
      else
        let id := hexEncode random
        { w.enter conn (.greeting id params) with
          active := some { id, proto := params.proto, owner := conn }
          queues := Function.update w.queues conn [] }

/-- A test has received a data stream. -/
def World.accept (w : World) (conn : ℕ) (id : String) (params : Params)
    (slots : List (Option Data)) (count : ℕ) (index : ℕ) (data : Data) : World :=
  if slots[index]? = some none then
    let slots := slots.set index (some data)
    if count + 1 < params.streams then w.enter conn (.collecting id params slots (count + 1))
    else
      match unwrapAll slots with
      | some data => w.enter conn (.readying id params data)
      | none => w.leave conn
  else w

/-- One event. -/
def World.step (w : World) : Event → World
  | .first conn m random => if w.phases conn = .reading then w.handle conn m random else w
  | .datagram stream bytes =>
    if 32 ≤ bytes.length then
      let id := hexEncode (bytes.take 8)
      let index := ofBeBytes16 (bytes.getD 8 0) (bytes.getD 9 0)
      w.attach id index { udp := true, stream, id, index }
    else w
  | .written conn =>
    match w.phases conn with
    | .rejecting _ => w.leave conn
    | .greeting id params =>
      w.enter conn (.collecting id params (List.replicate params.streams none) 0)
    | .readying id params data => w.enter conn (.running id params data)
    | _ => w
  | .receive conn =>
    match w.phases conn, w.queues conn with
    | .collecting id params slots count, (index, data) :: queue =>
      ({ w with queues := Function.update w.queues conn queue }).accept conn id params slots count
        index data
    | _, _ => w
  | .finish conn =>
    match w.phases conn with
    | .running _ _ _ => w.leave conn
    | _ => w
  | .stop conn => w.leave conn

/-! ### What a test has -/

/-- The identifier, the parameters and the data streams of a test. -/
structure Test where
  id : String
  params : Params
  slots : List (Option Data)

/-- The test of a control connection. -/
def Phase.test : Phase → Option Test
  | .greeting id params => some ⟨id, params, []⟩
  | .collecting id params slots _ => some ⟨id, params, slots⟩
  | .readying id params data | .running id params data => some ⟨id, params, data.map some⟩
  | _ => none

/-- A data stream names a test and an index of it, and is of its kind. -/
structure Belongs (id : String) (proto : String) (index : ℕ) (d : Data) : Prop where
  id : d.id = id
  index : d.index = index
  udp : d.udp = (proto = "udp" : Bool)

/-- What the server promises of its connections. -/
structure Isolated (w : World) : Prop where
  /-- There is one test at a time. -/
  one : ∀ i j, (w.phases i).IsTest → (w.phases j).IsTest → i = j
  /-- The slot is that of the test, if there is one. -/
  active : ∀ i, (w.phases i).IsTest ↔ ∃ a, w.active = some a ∧ a.owner = i
  /-- A test has the data streams that name it, one for each of its indices. -/
  streams : ∀ conn t, (w.phases conn).test = some t → ∀ index d, t.slots[index]? = some (some d) →
    Belongs t.id t.params.proto index d ∧ index < t.params.streams

/-- A test that goes on is the test it was, with the data streams that it had. -/
structure Test.Keeps (t t' : Test) : Prop where
  id : t'.id = t.id
  params : t'.params = t.params
  slots : ∀ (index : ℕ) (d : Data), t.slots[index]? = some (some d) →
    t'.slots[index]? = some (some d)

/-- What the server promises of an event, from the state before it to that after it. -/
structure KeepsSlot (w w' : World) : Prop where
  /-- A connection that is rejected does not touch the slot, neither then nor when it ends. -/
  rejected : ∀ conn error, w'.phases conn ≠ w.phases conn →
    w.phases conn = .rejecting error ∨ w'.phases conn = .rejecting error → w'.active = w.active
  /-- The slot keeps its test, and is cleared when the test ends. -/
  cleared : ∀ a, w.active = some a →
    w'.active = if (w'.phases a.owner).IsTest then some a else none
  kept : ∀ conn (t t' : Test), (w.phases conn).test = some t → (w'.phases conn).test = some t' →
    t.Keeps t'

/-! ### The invariant -/

/-- What a test has is its own. -/
structure Test.Own (t : Test) : Prop where
  length : t.slots.length ≤ t.params.streams
  belongs : ∀ index d, t.slots[index]? = some (some d) → Belongs t.id t.params.proto index d

/-- What holds in every run. -/
structure Inv (w : World) : Prop where
  slot : ∀ i, (w.phases i).IsTest ↔ ∃ a, w.active = some a ∧ a.owner = i
  named : ∀ a, w.active = some a → ∀ t, (w.phases a.owner).test = some t →
    t.id = a.id ∧ t.params.proto = a.proto
  /-- What is on its way to a test is its own, too. -/
  queued : ∀ a, w.active = some a → ∀ x ∈ w.queues a.owner, Belongs a.id a.proto x.1 x.2
  own : ∀ i t, (w.phases i).test = some t → t.Own

variable {w : World} {conn : ℕ} {phase : Phase}

theorem isTest_iff (p : Phase) : p.IsTest ↔ ∃ t, p.test = some t := by
  cases p <;> simp [Phase.IsTest, Phase.test]

theorem unwrapAll_eq_some {α : Type} {l : List (Option α)} {as : List α}
    (h : unwrapAll l = some as) : as.map some = l := by
  induction l generalizing as with
  | nil =>
    cases h
    rfl
  | cons o l ih =>
    cases o with
    | none => cases h
    | some a =>
      obtain ⟨as', has, rfl⟩ := Option.map_eq_some_iff.1 h
      rw [List.map_cons, ih has]

theorem enter_phases (w : World) (conn : ℕ) (phase : Phase) (i : ℕ) :
    (w.enter conn phase).phases i = if i = conn then phase else w.phases i := by
  simp only [World.enter, Function.update_apply]

theorem leave_phases (w : World) (conn i : ℕ) :
    (w.leave conn).phases i = if i = conn then .done else w.phases i := by
  simp only [World.leave, Function.update_apply]

/-- No one else has the slot of a test. -/
theorem Inv.owner (hI : Inv w) (h : (w.phases conn).IsTest) {a : Active} (ha : w.active = some a) :
    a.owner = conn := by
  obtain ⟨a', ha', howner⟩ := (hI.slot conn).1 h
  cases ha.symm.trans ha'
  exact howner

/-- A control connection goes on with the test that it is, or without one. -/
structure Phase.GoesOn (p p' : Phase) : Prop where
  isTest : p'.IsTest ↔ p.IsTest
  test : ∀ t', p'.test = some t' → t'.Own ∧ ∃ t, p.test = some t ∧ t.Keeps t'

theorem Inv.enter (hI : Inv w) (h : (w.phases conn).GoesOn phase) : Inv (w.enter conn phase) := by
  refine ⟨fun i => ?_, fun a ha t ht => ?_, hI.queued, fun i t ht => ?_⟩
  · rw [enter_phases]
    split_ifs with hi
    · rw [h.isTest, ← hi]
      exact hI.slot i
    · exact hI.slot i
  · rw [enter_phases] at ht
    split_ifs at ht with hi
    · obtain ⟨-, t', ht', hkeeps⟩ := h.test t ht
      rw [hkeeps.id, hkeeps.params]
      exact hI.named a ha t' (hi ▸ ht')
    · exact hI.named a ha t ht
  · rw [enter_phases] at ht
    split_ifs at ht
    · exact (h.test t ht).1
    · exact hI.own i t ht

/-- A connection that ends leaves the slot empty if it was its own. -/
theorem Inv.leave (hI : Inv w) (conn : ℕ) : Inv (w.leave conn) := by
  -- a slot that is still taken is another connection's
  have hactive : ∀ {a}, (w.leave conn).active = some a →
      w.active = some a ∧ ¬(w.phases conn).IsTest ∧ a.owner ≠ conn := by
    intro a ha
    simp only [World.leave] at ha
    split_ifs at ha with htest
    refine ⟨ha, htest, ?_⟩
    rintro rfl
    exact htest ((hI.slot _).2 ⟨a, ha, rfl⟩)
  refine ⟨fun i => ?_, fun a ha t ht => ?_, fun a ha x hx => ?_, fun i t ht => ?_⟩
  · rw [leave_phases]
    split_ifs with hi
    · refine iff_of_false id ?_
      rintro ⟨a, ha, rfl⟩
      exact (hactive ha).2.2 hi
    · rw [hI.slot i]
      constructor
      · rintro ⟨a, ha, rfl⟩
        refine ⟨a, ?_, rfl⟩
        simp only [World.leave]
        rw [if_neg, ha]
        intro htest
        exact hi (hI.owner htest ha)
      · rintro ⟨a, ha, howner⟩
        exact ⟨a, (hactive ha).1, howner⟩
  · obtain ⟨ha', -, hne⟩ := hactive ha
    rw [leave_phases, if_neg hne] at ht
    exact hI.named a ha' t ht
  · obtain ⟨ha', -, hne⟩ := hactive ha
    simp only [World.leave, Function.update_of_ne hne] at hx
    exact hI.queued a ha' x hx
  · rw [leave_phases] at ht
    split_ifs at ht
    · cases ht
    · exact hI.own i t ht

/-- A data stream is sent to the test that it names. -/
theorem Inv.attach (hI : Inv w) (data : Data) : Inv (w.attach data.id data.index data) := by
  unfold World.attach
  split
  · rename_i a ha
    split_ifs with h
    · simp only [Bool.and_eq_true, decide_eq_true_eq, beq_iff_eq] at h
      refine ⟨hI.slot, hI.named, fun a' ha' x hx => ?_, hI.own⟩
      obtain rfl : a = a' := Option.some.inj (ha.symm.trans ha')
      simp only [Function.update_self, List.mem_append, List.mem_singleton] at hx
      rcases hx with hx | rfl
      · exact hI.queued a ha x hx
      · exact ⟨h.1.1.symm, rfl, h.1.2.symm⟩
    · exact hI
  · exact hI

theorem Test.Keeps.refl (t : Test) : t.Keeps t := ⟨rfl, rfl, fun _ _ h => h⟩

/-- What goes on in the channels alone keeps the slot. -/
theorem KeepsSlot.ofQueues {w' : World} (hI : Inv w) (hactive : w'.active = w.active)
    (hphases : w'.phases = w.phases) : KeepsSlot w w' := by
  refine ⟨fun conn error hne _ => hactive, fun a ha => ?_, fun conn t t' ht ht' => ?_⟩
  · rw [hactive, hphases, if_pos ((hI.slot _).2 ⟨a, ha, rfl⟩), ha]
  · rw [hphases, ht] at ht'
    cases ht'
    exact .refl t

/-- What went on in the channels before does not matter to the slot. -/
theorem KeepsSlot.afterQueues {w₁ w' : World} (h : KeepsSlot w₁ w')
    (hactive : w₁.active = w.active) (hphases : w₁.phases = w.phases) : KeepsSlot w w' := by
  obtain ⟨hrejected, hcleared, hkept⟩ := h
  rw [hphases] at hrejected hkept
  rw [hactive] at hrejected hcleared
  exact ⟨hrejected, hcleared, hkept⟩

theorem KeepsSlot.enter (hI : Inv w) (h : (w.phases conn).GoesOn phase) :
    KeepsSlot w (w.enter conn phase) := by
  refine ⟨fun conn error hne _ => rfl, fun a ha => ?_, fun i t t' ht ht' => ?_⟩
  · rw [if_pos]
    · exact ha
    · exact ((hI.enter h).slot _).2 ⟨a, ha, rfl⟩
  · rw [enter_phases] at ht'
    split_ifs at ht' with hi
    · obtain ⟨-, t₀, ht₀, hkeeps⟩ := h.test t' ht'
      rw [hi, ht₀] at ht
      cases ht
      exact hkeeps
    · cases ht.symm.trans ht'
      exact .refl t

theorem KeepsSlot.leave (hI : Inv w) (conn : ℕ) : KeepsSlot w (w.leave conn) := by
  refine ⟨fun i error hne hphase => ?_, fun a ha => ?_, fun i t t' ht ht' => ?_⟩
  · simp only [leave_phases] at hne hphase
    split_ifs at hne hphase with hi
    · subst hi
      rcases hphase with hphase | hphase
      · exact if_neg (by rw [hphase]; exact id)
      · cases hphase
    · exact absurd rfl hne
  · rw [leave_phases]
    have htest := (hI.slot a.owner).2 ⟨a, ha, rfl⟩
    split_ifs with hi h
    · exact absurd h id
    · exact if_pos (hi ▸ htest)
    · refine (if_neg ?_).trans ha
      intro h
      exact hi (hI.owner h ha)
  · rw [leave_phases] at ht'
    split_ifs at ht' with hi
    · cases ht'
    · cases ht.symm.trans ht'
      exact .refl t

/-! ### The steps -/

/-- The slot is still right after a step, and it was kept. -/
structure Fine (w w' : World) : Prop where
  inv : Inv w'
  keeps : KeepsSlot w w'

theorem Fine.same (hI : Inv w) : Fine w w := ⟨hI, .ofQueues hI rfl rfl⟩

theorem Fine.enter (hI : Inv w) (h : (w.phases conn).GoesOn phase) :
    Fine w (w.enter conn phase) := ⟨hI.enter h, .enter hI h⟩

theorem Fine.leave (hI : Inv w) (conn : ℕ) : Fine w (w.leave conn) :=
  ⟨hI.leave conn, .leave hI conn⟩

theorem attach_active (w : World) (id : String) (index : ℕ) (data : Data) :
    (w.attach id index data).active = w.active := by
  unfold World.attach
  split
  · split_ifs
    · rfl
    · rfl
  · rfl

theorem attach_phases (w : World) (id : String) (index : ℕ) (data : Data) :
    (w.attach id index data).phases = w.phases := by
  unfold World.attach
  split
  · split_ifs
    · rfl
    · rfl
  · rfl

/-- A test gets the slot that no one has. -/
theorem Fine.begin (hI : Inv w) (hphase : w.phases conn = .reading) (hfree : w.active = none)
    (id : String) (params : Params) :
    Fine w { w.enter conn (.greeting id params) with
      active := some { id, proto := params.proto, owner := conn }
      queues := Function.update w.queues conn [] } := by
  -- the slot is free, so no connection has a test
  have hidle : ∀ i, ¬(w.phases i).IsTest := by
    intro i h
    obtain ⟨a, ha, -⟩ := (hI.slot i).1 h
    exact Option.some_ne_none a (ha.symm.trans hfree)
  have hnone : ∀ i t, (w.phases i).test ≠ some t := by
    intro i t h
    exact hidle i ((isTest_iff _).2 ⟨t, h⟩)
  constructor
  · refine ⟨fun i => ?_, fun a ha t ht => ?_, fun a ha x hx => ?_, fun i t ht => ?_⟩
    · simp only [enter_phases, Option.some.injEq, exists_eq_left']
      split_ifs with hi
      · exact iff_of_true trivial hi.symm
      · exact iff_of_false (hidle i) (Ne.symm hi)
    · obtain rfl := Option.some.inj ha
      simp only [enter_phases, if_true] at ht
      obtain rfl := Option.some.inj ht
      exact ⟨rfl, rfl⟩
    · obtain rfl := Option.some.inj ha
      simp only [Function.update_self, List.not_mem_nil] at hx
    · simp only [enter_phases] at ht
      split_ifs at ht
      · obtain rfl := Option.some.inj ht
        exact ⟨Nat.zero_le _, fun _ _ h => by cases h⟩
      · exact absurd ht (hnone i t)
  · refine ⟨fun i error hne h => ?_, fun a ha => ?_, fun i t t' ht => ?_⟩
    · simp only [enter_phases] at hne h
      split_ifs at hne h with hi
      · rw [hi, hphase] at h
        rcases h with h | h
        · cases h
        · cases h
      · exact absurd rfl hne
    · cases ha.symm.trans hfree
    · exact absurd ht (hnone i t)

/-- A connection without a test goes on without one. -/
theorem goesOn_rejecting {p : Phase} (h : p = .reading) (error : String) :
    p.GoesOn (.rejecting error) := by
  subst h
  exact ⟨Iff.rfl, fun t ht => by cases ht⟩

theorem Fine.handle (hI : Inv w) (hphase : w.phases conn = .reading) (m : Message)
    (random : Bytes) : Fine w (w.handle conn m random) := by
  unfold World.handle
  split
  · have hattach := hI.attach
      { udp := false, stream := conn, id := m.id.getD "", index := m.stream.getD 0 }
    exact ⟨hattach.leave conn,
      (KeepsSlot.leave hattach conn).afterQueues (attach_active ..) (attach_phases ..)⟩
  · split
    · exact .leave hI conn
    · split
      · exact .enter hI (goesOn_rejecting hphase _)
      · split
        · exact .enter hI (goesOn_rejecting hphase _)
        · rename_i hfree
          exact .begin hI hphase (Option.not_isSome_iff_eq_none.1 hfree) _ _

/-- A data stream that belongs to a test and whose index is free becomes one of its streams. -/
theorem Test.Own.set {t : Test} (h : t.Own) {index : ℕ} {d : Data}
    (hd : Belongs t.id t.params.proto index d) :
    Test.Own { t with slots := t.slots.set index (some d) } := by
  refine ⟨by simpa using h.length, fun i d' hd' => ?_⟩
  rw [List.getElem?_set] at hd'
  split_ifs at hd' with hi
  · obtain rfl := Option.some.inj (Option.some.inj hd')
    exact hi ▸ hd
  · exact h.belongs i d' hd'

theorem Test.Keeps.set {t : Test} {index : ℕ} (hfree : t.slots[index]? = some none) (d : Data) :
    t.Keeps { t with slots := t.slots.set index (some d) } := by
  refine ⟨rfl, rfl, fun i d' hd' => ?_⟩
  rw [List.getElem?_set_ne]
  · exact hd'
  · rintro rfl
    cases hfree.symm.trans hd'

/-- A test has received a data stream that belongs to it. -/
theorem Fine.accept (hI : Inv w) {id : String} {params : Params} {slots : List (Option Data)}
    {count index : ℕ} {d : Data} (hphase : w.phases conn = .collecting id params slots count)
    (hd : Belongs id params.proto index d) :
    Fine w (w.accept conn id params slots count index d) := by
  have htest : (w.phases conn).test = some ⟨id, params, slots⟩ := by rw [hphase]; rfl
  have hgoes : ∀ (p : Phase), p.test = some ⟨id, params, slots.set index (some d)⟩ →
      slots[index]? = some none → (w.phases conn).GoesOn p := by
    intro p hp hfree
    refine ⟨iff_of_true ((isTest_iff p).2 ⟨_, hp⟩) ((isTest_iff _).2 ⟨_, htest⟩), fun t' ht' => ?_⟩
    obtain rfl := Option.some.inj (hp.symm.trans ht')
    exact ⟨(hI.own conn _ htest).set hd, _, htest, .set hfree d⟩
  unfold World.accept
  split
  · rename_i hfree
    split
    · exact .enter hI (hgoes _ rfl hfree)
    · dsimp only
      split
      · rename_i data hdata
        refine .enter hI (hgoes _ ?_ hfree)
        rw [Phase.test, unwrapAll_eq_some hdata]
      · exact .leave hI conn
  · exact .same hI

/-- A connection that receives takes what is at the head of its channel. -/
theorem Inv.pop (hI : Inv w) {x : ℕ × Data} {queue : List (ℕ × Data)}
    (hqueue : w.queues conn = x :: queue) :
    Inv { w with queues := Function.update w.queues conn queue } := by
  refine ⟨hI.slot, hI.named, fun a ha y hy => hI.queued a ha y ?_, hI.own⟩
  by_cases howner : a.owner = conn
  · simp only [howner, Function.update_self] at hy
    rw [howner, hqueue]
    exact List.mem_cons_of_mem x hy
  · simpa only [Function.update_of_ne howner] using hy

theorem Fine.receive (hI : Inv w) (conn : ℕ) : Fine w (w.step (.receive conn)) := by
  simp only [World.step]
  split
  · rename_i id params slots count index d queue hphase hqueue
    have htest : (w.phases conn).IsTest := by rw [hphase]; trivial
    obtain ⟨a, ha, rfl⟩ := (hI.slot conn).1 htest
    obtain ⟨hid, hproto⟩ := hI.named a ha ⟨id, params, slots⟩ (by rw [hphase]; rfl)
    have hd : Belongs id params.proto index d := by
      have hq := hI.queued a ha (index, d) (by rw [hqueue]; exact List.mem_cons_self)
      rwa [← hid, ← hproto] at hq
    obtain ⟨hinv, hkeeps⟩ := Fine.accept (hI.pop hqueue) hphase hd
    exact ⟨hinv, hkeeps.afterQueues rfl rfl⟩
  · exact .same hI

theorem Fine.written (hI : Inv w) (conn : ℕ) : Fine w (w.step (.written conn)) := by
  simp only [World.step]
  split
  · exact .leave hI conn
  · rename_i id params hphase
    refine .enter hI ⟨iff_of_true trivial (by rw [hphase]; trivial), fun t ht => ?_⟩
    obtain rfl := Option.some.inj ht
    refine ⟨⟨by simp, fun index d hd => ?_⟩, ⟨id, params, []⟩, by rw [hphase]; rfl, rfl, rfl,
      fun index d hd => by cases hd⟩
    simp only [List.getElem?_replicate] at hd
    split_ifs at hd
    cases hd
  · rename_i id params data hphase
    refine .enter hI ⟨iff_of_true trivial (by rw [hphase]; trivial), fun t ht => ?_⟩
    have htest : (w.phases conn).test = some t := by
      rw [hphase]
      exact ht
    exact ⟨hI.own conn t htest, t, htest, .refl t⟩
  · exact .same hI

theorem Fine.step (hI : Inv w) (e : Event) : Fine w (w.step e) := by
  cases e with
  | first conn m random =>
    simp only [World.step]
    split
    · rename_i hphase
      exact .handle hI hphase m random
    · exact .same hI
  | datagram stream bytes =>
    simp only [World.step]
    split
    · have hattach := hI.attach
        { udp := true, stream, id := hexEncode (bytes.take 8),
          index := ofBeBytes16 (bytes.getD 8 0) (bytes.getD 9 0) }
      exact ⟨hattach, .ofQueues hI (attach_active ..) (attach_phases ..)⟩
    · exact .same hI
  | written conn => exact .written hI conn
  | receive conn => exact .receive hI conn
  | finish conn =>
    simp only [World.step]
    split
    · exact .leave hI conn
    · exact .same hI
  | stop conn => exact .leave hI conn

theorem inv_init : Inv {} := by
  refine ⟨fun i => iff_of_false id ?_, ?_, ?_, ?_⟩
  · rintro ⟨a, ha, -⟩
    cases ha
  · intro a ha
    cases ha
  · intro a ha
    cases ha
  · intro i t ht
    cases ht

theorem Inv.isolated (hI : Inv w) : Isolated w := by
  refine ⟨fun i j hi hj => ?_, hI.slot, fun i t ht index d hd => ?_⟩
  · obtain ⟨a, ha, rfl⟩ := (hI.slot i).1 hi
    exact hI.owner hj ha
  · obtain ⟨hlength, hbelongs⟩ := hI.own i t ht
    obtain ⟨hlt, -⟩ := List.getElem?_eq_some_iff.1 hd
    exact ⟨hbelongs index d hd, Nat.lt_of_lt_of_le hlt hlength⟩

/-- **After every run there is one test at a time, which has the slot and its own data streams; the
next event neither takes the slot from it, nor leaves the slot taken when the test ends.** -/
theorem tests_isolated (es : List Event) (e : Event) :
    Isolated (run World.step {} es) ∧
      KeepsSlot (run World.step {} es) ((run World.step {} es).step e) := by
  have hI : Inv (run World.step {} es) :=
    invariant (I := Inv) (fun _ e hI => (Fine.step hI e).inv) inv_init es
  exact ⟨hI.isolated, (Fine.step hI e).keeps⟩

/-- While a test awaits its data streams, the next one is rejected, and a stream of it is received
once. -/
example :
    let p : Params := { proto := "tcp", dir := "up", bytes := 1, streams := 1, length := 1 }
    let hello : Message := { type := some "hello", params := .ok p }
    let stream : Message := { type := some "stream", id := some "0102", stream := some 0 }
    let w := run World.step {} [.first 0 hello [1, 2], .written 0, .first 1 hello [3, 4],
      .first 2 stream [], .first 3 stream [], .receive 0, .receive 0]
    w.phases 0 = .readying "0102" p [{ udp := false, stream := 2, id := "0102", index := 0 }] ∧
      w.phases 1 = .rejecting "the server is busy with another test" := by
  decide +kernel

end Tailcat.Services.Perf
