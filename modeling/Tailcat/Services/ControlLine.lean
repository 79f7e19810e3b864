import Tailcat.Lib.Lines
import Tailcat.Lib.Transition
import Tailcat.Bytes

/-!
# Control lines of a performance test

`read_message` collects a line from whatever its reader has buffered, and keeps what it has of a
line in `pending` while it awaits more.  It awaits nothing else, so a future of it that is dropped
was awaiting a read.  The parser of a line is a parameter.

`control_lines_survive` : the results of the calls are those of the lines of the stream, however the
reads cut it and whichever futures are dropped, and what follows a message is unread.

What a future leaves behind when it is dropped is the reader, with its buffer and `pending`.  The
events are the calls, the chunks that are read and the drops, in any order, and the invariant is
that what is left (`pending`, the buffer and the rest of the stream) has the outcomes that are still
to come.  Progress is part of the result: a call that is not dropped returns once enough was read.
-/

namespace Tailcat.Services.ControlLine

open Transition

/-- The end of a line. -/
def newline : UInt8 := 10

/-- The length of the longest line. -/
def lineLimit : ℕ := 65536

/-- The capacity of a `BufReader`. -/
def capacity : ℕ := 8192

/-- `ControlReader`, with what its `BufReader` has buffered. -/
structure ControlReader where
  buffer : Bytes := []
  pending : Bytes := []
  deriving DecidableEq, Repr

/-- The result of a call of `read_message`. -/
inductive Outcome (V E : Type)
  /-- A line, parsed. -/
  | message (value : Except E V)
  /-- `performance control line is too long`. -/
  | tooLong
  /-- `performance control connection closed`. -/
  | closed
  deriving DecidableEq

section ReadMessage

variable {V E : Type} (parse : Bytes → Except E V)

/-- A round of `read_message` with something in the buffer: it returns, or awaits a read. -/
def ControlReader.round (c : ControlReader) : ControlReader × Option (Outcome V E) :=
  let n := ((c.buffer.findIdx? (· = newline)).map (· + 1)).getD c.buffer.length
  if lineLimit < c.pending.length + n then (c, some .tooLong)
  else
    let pending := c.pending ++ c.buffer.take n
    let buffer := c.buffer.drop n
    if c.buffer[n - 1]? = some newline then
      ({ buffer, pending := [] }, some (.message (parse pending)))
    else ({ buffer, pending }, none)

/-- A call that has returned. -/
structure Returned (V E : Type) where
  outcome : Outcome V E
  /-- What is unread in the reader. -/
  unread : Bytes

/-- A reader, its stream and the calls of `read_message`. -/
structure World (V E : Type) where
  reader : ControlReader := {}
  /-- What is still to be read of the stream. -/
  input : Bytes
  /-- A call awaits a read. -/
  waiting : Bool := false
  returned : List (Returned V E) := []

/-- What the caller and the connection do. -/
inductive Event
  /-- `read_message` is called and polled. -/
  | call
  /-- The read that is awaited gives so many bytes and one, or what there is. -/
  | read (more : ℕ)
  /-- The future is dropped. -/
  | drop
  deriving DecidableEq, Repr

/-- A call returns. -/
def World.finish (w : World V E) (reader : ControlReader) (outcome : Outcome V E) : World V E :=
  { w with
    reader
    waiting := false
    returned := w.returned ++ [{ outcome, unread := reader.buffer ++ w.input }] }

/-- A call is polled, with something in the buffer. -/
def World.poll (w : World V E) : World V E :=
  match w.reader.round parse with
  | (reader, some outcome) => w.finish reader outcome
  | (reader, none) => { w with reader, waiting := true }

/-- The read that is awaited brings so many bytes. -/
def World.buffered (w : World V E) (n : ℕ) : World V E :=
  { w with
    reader.buffer := w.input.take n
    input := w.input.drop n
    waiting := false }

/-- One event. -/
def World.step (w : World V E) : Event → World V E
  | .call =>
    if w.waiting then w
    else if w.reader.buffer = [] then { w with waiting := true }
    else w.poll parse
  | .read more =>
    if w.waiting then
      let w := w.buffered (min (more + 1) capacity)
      if w.reader.buffer = [] then w.finish w.reader .closed else w.poll parse
    else w
  | .drop => { w with waiting := false }

end ReadMessage

/-! ### What the stream says -/

section Reference

variable {V E : Type} (parse : Bytes → Except E V)

/-- The result of a call, by the lines and the tail of the stream; a line that is too long is never
got over. -/
def outcomeOf : List Bytes → Bytes → ℕ → Outcome V E
  | [], tail, _ => if lineLimit < tail.length then .tooLong else .closed
  | line :: lines, tail, k =>
    if lineLimit < line.length then .tooLong
    else
      match k with
      | 0 => .message (parse line)
      | k + 1 => outcomeOf lines tail k

/-- The lines of a stream. -/
def linesOf (stream : Bytes) : List Bytes := (Lines.split newline stream).1

/-- What follows the last line. -/
def tailOf (stream : Bytes) : Bytes := (Lines.split newline stream).2

/-- The result of a call on a stream. -/
def expected (stream : Bytes) (k : ℕ) : Outcome V E :=
  outcomeOf parse (linesOf stream) (tailOf stream) k

/-- What follows some lines of a stream. -/
def following (stream : Bytes) (k : ℕ) : Bytes :=
  ((linesOf stream).drop k).flatten ++ tailOf stream

/-- The calls have returned what the stream says, and a call that is not dropped returns. -/
structure Faithful (stream : Bytes) (w : World V E) : Prop where
  outcomes : ∀ k r, w.returned[k]? = some r → r.outcome = expected parse stream k
  unread : ∀ k r value, w.returned[k]? = some r → r.outcome = .message value →
    r.unread = following stream (k + 1)
  returns : ∀ sizes : List ℕ, w.input.length < sizes.length →
    w.returned.length < (run (World.step parse) w (.call :: sizes.map .read)).returned.length

end Reference

variable {V E : Type} {parse : Bytes → Except E V} {stream : Bytes} {w : World V E}

/-! ### The outcomes of a stream -/

theorem flatten_linesOf (s : Bytes) : (linesOf s).flatten ++ tailOf s = s := Lines.split_flatten s

theorem linesOf_line {s : Bytes} (h : newline ∉ s) (rest : Bytes) :
    linesOf (s ++ newline :: rest) = (s ++ [newline]) :: linesOf rest ∧
      tailOf (s ++ newline :: rest) = tailOf rest := by
  unfold linesOf tailOf
  rw [Lines.split_line h]
  exact ⟨rfl, rfl⟩

/-- What has no end of a line in it and is too long for one is part of a line that is too long. -/
theorem expected_tooLong {s : Bytes} (h : newline ∉ s) (hlong : lineLimit < s.length)
    (rest : Bytes) (k : ℕ) : expected parse (s ++ rest) k = .tooLong := by
  unfold expected linesOf tailOf
  rw [Lines.split_append h]
  cases Lines.split newline rest with
  | mk lines tail =>
    cases lines with
    | nil =>
      have hlt : lineLimit < (s ++ tail).length := by
        rw [List.length_append]
        omega
      simp only [outcomeOf, if_pos hlt]
    | cons line lines =>
      have hlt : lineLimit < (s ++ line).length := by
        rw [List.length_append]
        omega
      simp only [outcomeOf, if_pos hlt]

theorem expected_long_line {s : Bytes} (h : newline ∉ s) (hlong : lineLimit < s.length + 1)
    (rest : Bytes) (k : ℕ) : expected parse (s ++ newline :: rest) k = .tooLong := by
  obtain ⟨hlines, htail⟩ := linesOf_line h rest
  have hlt : lineLimit < (s ++ [newline]).length := by simpa using hlong
  rw [expected, hlines, htail]
  simp only [outcomeOf, if_pos hlt]

theorem expected_closed {s : Bytes} (h : newline ∉ s) (hshort : s.length ≤ lineLimit) (k : ℕ) :
    expected parse s k = .closed := by
  unfold expected linesOf tailOf
  rw [Lines.split_of_notMem h]
  simp only [outcomeOf, if_neg (Nat.not_lt.2 hshort)]

/-! ### One round -/

/-- What a round makes of the buffer. -/
inductive Rounds (parse : Bytes → Except E V) (c : ControlReader) (input : Bytes) : Prop
  /-- The line is too long, whatever is still to be read. -/
  | tooLong (h : c.round parse = (c, some .tooLong))
      (hexpected : ∀ k, expected parse (c.pending ++ (c.buffer ++ input)) k = .tooLong)
  /-- A line is complete. -/
  | message (s rest : Bytes) (hs : newline ∉ s) (hshort : s.length + 1 ≤ lineLimit)
      (hleft : c.pending ++ c.buffer = s ++ newline :: rest)
      (h : c.round parse =
        ({ buffer := rest, pending := [] }, some (.message (parse (s ++ [newline])))))
  /-- More of it is awaited. -/
  | waits (hs : newline ∉ c.pending ++ c.buffer)
      (hshort : (c.pending ++ c.buffer).length ≤ lineLimit)
      (h : c.round parse = ({ buffer := [], pending := c.pending ++ c.buffer }, none))

/-- The first end of a line in a buffer, or none. -/
theorem findIdx?_newline (buffer : Bytes) :
    (newline ∉ buffer ∧ buffer.findIdx? (· = newline) = none) ∨
      ∃ s rest, buffer = s ++ newline :: rest ∧ newline ∉ s ∧
        buffer.findIdx? (· = newline) = some s.length := by
  by_cases h : newline ∈ buffer
  · right
    obtain ⟨s, rest, rfl, hs⟩ := List.eq_append_cons_of_mem h
    refine ⟨s, rest, rfl, hs, ?_⟩
    have hnone : s.findIdx? (· = newline) = none := by
      rw [List.findIdx?_eq_none_iff]
      intro x hx
      simp only [decide_eq_false_iff_not]
      rintro rfl
      exact hs hx
    rw [List.findIdx?_append, hnone, List.findIdx?_cons]
    simp
  · refine .inl ⟨h, ?_⟩
    rw [List.findIdx?_eq_none_iff]
    intro x hx
    simp only [decide_eq_false_iff_not]
    rintro rfl
    exact h hx

theorem round_spec (parse : Bytes → Except E V) (c : ControlReader) (input : Bytes)
    (hpending : newline ∉ c.pending) : Rounds parse c input := by
  obtain ⟨hnone, hfind⟩ | ⟨s, rest, hbuf, hs, hfind⟩ := findIdx?_newline c.buffer
  · -- there is no end of a line in the buffer, so all of it is taken
    have hs : newline ∉ c.pending ++ c.buffer := by
      simp only [List.mem_append, not_or]
      exact ⟨hpending, hnone⟩
    by_cases hlong : lineLimit < c.pending.length + c.buffer.length
    · refine .tooLong ?_ fun k => ?_
      · simp [ControlReader.round, hfind, hlong]
      · rw [← List.append_assoc]
        exact expected_tooLong hs (by rwa [List.length_append]) input k
    · refine .waits hs (by rw [List.length_append]; omega) ?_
      have hdone : c.buffer[c.buffer.length - 1]? ≠ some newline := by
        intro h
        exact hnone (List.mem_of_getElem? h)
      simp [ControlReader.round, hfind, hlong, hdone]
  · have hline : newline ∉ c.pending ++ s := by
      simp only [List.mem_append, not_or]
      exact ⟨hpending, hs⟩
    by_cases hlong : lineLimit < c.pending.length + (s.length + 1)
    · refine .tooLong ?_ fun k => ?_
      · simp [ControlReader.round, hfind, hlong]
      · rw [hbuf, List.append_assoc, ← List.append_assoc]
        exact expected_long_line hline (by rw [List.length_append]; omega) _ k
    · refine .message (c.pending ++ s) rest hline (by rw [List.length_append]; omega) ?_ ?_
      · rw [hbuf, List.append_assoc]
      · have hdone : c.buffer[s.length]? = some newline := by
          rw [hbuf]
          simp
        have htake : c.buffer.take (s.length + 1) = s ++ [newline] := by
          rw [hbuf]
          simp [List.take_append, List.take_of_length_le]
        have hdrop : c.buffer.drop (s.length + 1) = rest := by
          rw [hbuf]
          simp [List.drop_append]
        simp [ControlReader.round, hfind, hlong, hdone, htake, hdrop]

/-! ### All rounds -/

/-- What the reader has not returned of the stream. -/
def World.left (w : World V E) : Bytes := w.reader.pending ++ (w.reader.buffer ++ w.input)

/-- What holds between the events. -/
structure Inv (parse : Bytes → Except E V) (stream : Bytes) (w : World V E) : Prop where
  /-- The outcomes to come are those of what is left. -/
  rest : ∀ k, expected parse stream (w.returned.length + k) = expected parse w.left k
  /-- What is left begins with a line, unless no more message comes. -/
  lines : (linesOf w.left = (linesOf stream).drop w.returned.length ∧
      tailOf w.left = tailOf stream) ∨
    ∀ k value, expected parse stream (w.returned.length + k) ≠ .message value
  pending : newline ∉ w.reader.pending
  short : w.reader.pending.length ≤ lineLimit
  waiting : w.waiting = true → w.reader.buffer = []
  outcomes : ∀ k r, w.returned[k]? = some r → r.outcome = expected parse stream k
  unread : ∀ k r value, w.returned[k]? = some r → r.outcome = .message value →
    r.unread = following stream (k + 1)

theorem inv_start (parse : Bytes → Except E V) (stream : Bytes) :
    Inv parse stream { input := stream } where
  rest k := by
    change expected parse stream (0 + k) = expected parse stream k
    rw [Nat.zero_add]
  lines := .inl ⟨rfl, rfl⟩
  pending := by simp
  short := Nat.zero_le _
  waiting := by simp
  outcomes := by simp
  unread := by simp

theorem getElem?_concat_cases {α : Type} {l : List α} {a x : α} {k : ℕ}
    (h : (l ++ [a])[k]? = some x) : l[k]? = some x ∨ k = l.length ∧ x = a := by
  obtain hlt | rfl | hgt := Nat.lt_trichotomy k l.length
  · rw [List.getElem?_append_left hlt] at h
    exact .inl h
  · rw [List.getElem?_concat_length] at h
    exact .inr ⟨rfl, (Option.some.inj h).symm⟩
  · rw [List.getElem?_eq_none (by rw [List.length_append]; exact hgt)] at h
    cases h

/-- A call that finds the reader stuck returns the same as all that follow. -/
theorem Inv.stuck (h : Inv parse stream w) {outcome : Outcome V E}
    (hmessage : ∀ value, outcome ≠ .message value)
    (hexpected : ∀ k, expected parse w.left k = outcome) :
    Inv parse stream (w.finish w.reader outcome) := by
  have hcome : ∀ k, expected parse stream (w.returned.length + k) = outcome := by
    intro k
    rw [h.rest, hexpected]
  refine ⟨fun k => ?_, .inr fun k value => ?_, h.pending, h.short, (fun hw => by cases hw),
    fun k r hr => ?_, fun k r value hr hvalue => ?_⟩
  · rw [show (w.finish w.reader outcome).left = w.left from rfl, hexpected]
    simp only [World.finish, List.length_append, List.length_singleton, Nat.add_assoc]
    exact hcome _
  · simp only [World.finish, List.length_append, List.length_singleton, Nat.add_assoc]
    rw [hcome]
    exact hmessage value
  · obtain hr | ⟨rfl, rfl⟩ := getElem?_concat_cases hr
    · exact h.outcomes k r hr
    · exact (hcome 0).symm
  · obtain hr | ⟨rfl, rfl⟩ := getElem?_concat_cases hr
    · exact h.unread k r value hr hvalue
    · exact absurd hvalue (hmessage value)

/-- A call that finds a line returns it, and leaves what follows it. -/
theorem Inv.message (h : Inv parse stream w) {s rest : Bytes} (hs : newline ∉ s)
    (hshort : s.length + 1 ≤ lineLimit) (hleft : w.left = s ++ newline :: (rest ++ w.input)) :
    Inv parse stream (w.finish { buffer := rest, pending := [] }
      (.message (parse (s ++ [newline])))) := by
  obtain ⟨hlines, htail⟩ := linesOf_line hs (rest ++ w.input)
  rw [← hleft] at hlines htail
  have hlong : ¬lineLimit < (s ++ [newline]).length := by
    rw [List.length_append, List.length_singleton]
    omega
  -- the line is the next one of the stream
  have hnow : expected parse stream w.returned.length = .message (parse (s ++ [newline])) := by
    have hrest := h.rest 0
    rw [Nat.add_zero, expected, expected, hlines] at hrest
    rw [expected, hrest]
    simp only [outcomeOf, if_neg hlong]
  -- and the lines after it are those of the rest
  have hdrop : linesOf (rest ++ w.input) = (linesOf stream).drop (w.returned.length + 1) ∧
      tailOf (rest ++ w.input) = tailOf stream := by
    obtain ⟨hdrop, htail'⟩ | hnone := h.lines
    · rw [hlines] at hdrop
      rw [← List.drop_drop, ← hdrop, ← htail, htail']
      exact ⟨rfl, rfl⟩
    · exact absurd hnow (hnone 0 _)
  refine ⟨fun k => ?_, .inl ?_, by simp [World.finish], Nat.zero_le _, (fun hw => by cases hw),
    fun k r hr => ?_, fun k r value hr hvalue => ?_⟩
  · have hrest := h.rest (k + 1)
    rw [expected, expected, hlines, htail] at hrest
    simp only [outcomeOf, if_neg hlong] at hrest
    simp only [World.finish, List.length_append, List.length_singleton, Nat.add_assoc]
    rw [Nat.add_comm 1 k]
    exact hrest
  · simp only [World.finish, List.length_append, List.length_singleton]
    exact hdrop
  · obtain hr | ⟨rfl, rfl⟩ := getElem?_concat_cases hr
    · exact h.outcomes k r hr
    · exact hnow.symm
  · obtain hr | ⟨rfl, rfl⟩ := getElem?_concat_cases hr
    · exact h.unread k r value hr hvalue
    · change rest ++ w.input = _
      rw [following, ← hdrop.1, ← hdrop.2, flatten_linesOf]

theorem Inv.poll (h : Inv parse stream w) :
    Inv parse stream (w.poll parse) := by
  unfold World.poll
  cases round_spec parse w.reader w.input h.pending with
  | tooLong hround hexpected =>
    rw [hround]
    exact h.stuck (by simp) hexpected
  | message s rest hs hshort hleft hround =>
    rw [hround]
    refine h.message hs hshort ?_
    rw [World.left, ← List.append_assoc, hleft, List.append_assoc]
    rfl
  | waits hs hshort hround =>
    rw [hround]
    have hleft : ({ w with
        reader := { buffer := [], pending := w.reader.pending ++ w.reader.buffer }
        waiting := true } : World V E).left = w.left := by
      simp [World.left]
    exact ⟨fun k => by rw [hleft]; exact h.rest k, by rw [hleft]; exact h.lines, hs, hshort,
      fun _ => rfl, h.outcomes, h.unread⟩

theorem Inv.left_read (h : Inv parse stream w) (hwaiting : w.waiting = true) (n : ℕ) :
    (w.buffered n).left = w.left := by
  simp only [World.left, World.buffered, h.waiting hwaiting, List.take_append_drop,
    List.nil_append]

theorem Inv.read (h : Inv parse stream w) (hwaiting : w.waiting = true) (n : ℕ) :
    Inv parse stream (w.buffered n) := by
  have hleft := h.left_read hwaiting n
  refine ⟨fun k => ?_, ?_, h.pending, h.short, (fun hw => by cases hw), h.outcomes, h.unread⟩
  · rw [hleft]
    exact h.rest k
  · rw [hleft]
    exact h.lines

theorem Inv.step (h : Inv parse stream w) (e : Event) : Inv parse stream (w.step parse e) := by
  cases e with
  | call =>
    simp only [World.step]
    split
    · exact h
    · split
      · rename_i hempty
        exact ⟨h.rest, h.lines, h.pending, h.short, fun _ => hempty, h.outcomes, h.unread⟩
      · exact h.poll
  | read more =>
    simp only [World.step]
    split
    · rename_i hwaiting
      have hread := h.read hwaiting (min (more + 1) capacity)
      split
      · rename_i hempty
        refine hread.stuck (by simp) fun k => ?_
        have hinput : w.input = [] := by
          obtain hzero | hnil := List.take_eq_nil_iff.1 hempty
          · simp [capacity] at hzero
          · exact hnil
        have hleft : w.left = w.reader.pending := by
          simp [World.left, h.waiting hwaiting, hinput]
        rw [h.left_read hwaiting, hleft]
        exact expected_closed h.pending h.short k
      · exact hread.poll
    · exact h
  | drop =>
    exact ⟨h.rest, h.lines, h.pending, h.short, (fun hw => by cases hw), h.outcomes, h.unread⟩

/-! ### A call returns -/

variable (parse) in
theorem returned_le_poll (w : World V E) :
    w.returned.length ≤ (w.poll parse).returned.length ∧
      ((w.poll parse).waiting = false → w.returned.length < (w.poll parse).returned.length) ∧
      (w.poll parse).input = w.input := by
  unfold World.poll
  split
  · simp [World.finish]
  · simp

/-- No call is taken back. -/
theorem returned_le_step (w : World V E) (e : Event) :
    w.returned.length ≤ (w.step parse e).returned.length := by
  cases e with
  | call =>
    simp only [World.step]
    split
    · exact Nat.le_refl _
    · split
      · exact Nat.le_refl _
      · exact (returned_le_poll parse w).1
  | read more =>
    simp only [World.step]
    split
    · split
      · simp [World.finish, World.buffered]
      · exact (returned_le_poll parse (w.buffered _)).1
    · exact Nat.le_refl _
  | drop => exact Nat.le_refl _

theorem returned_le_run (w : World V E) (es : List Event) :
    w.returned.length ≤ (run (World.step parse) w es).returned.length := by
  induction es generalizing w with
  | nil => exact Nat.le_refl _
  | cons e es ih => exact Nat.le_trans (returned_le_step w e) (ih _)

/-- A call that awaits a read returns after enough of them. -/
theorem returns_of_waiting (hwaiting : w.waiting = true) {sizes : List ℕ}
    (hlength : w.input.length < sizes.length) :
    w.returned.length < (run (World.step parse) w (sizes.map .read)).returned.length := by
  induction sizes generalizing w with
  | nil => simp at hlength
  | cons more sizes ih =>
    rw [List.map_cons, run_cons]
    simp only [World.step, if_pos hwaiting]
    split
    · refine Nat.lt_of_lt_of_le ?_ (returned_le_run _ _)
      simp [World.finish, World.buffered]
    · rename_i hbuffer
      obtain ⟨hle, hreturned, hinput⟩ :=
        returned_le_poll parse (w.buffered (min (more + 1) capacity))
      cases hpoll : ((w.buffered (min (more + 1) capacity)).poll parse).waiting with
      | false => exact Nat.lt_of_lt_of_le (hreturned hpoll) (returned_le_run _ _)
      | true =>
        -- the read was not empty, so less is still to be read
        refine Nat.lt_of_le_of_lt hle (ih hpoll ?_)
        rw [hinput]
        have hne : w.input ≠ [] := by
          intro hnil
          exact hbuffer (by simp [World.buffered, hnil])
        have hpos := List.length_pos_iff.2 hne
        simp only [World.buffered, List.length_drop, capacity]
        simp only [List.length_cons] at hlength
        omega

theorem returns_of_call (w : World V E) {sizes : List ℕ}
    (hlength : w.input.length < sizes.length) :
    w.returned.length <
      (run (World.step parse) w (.call :: sizes.map .read)).returned.length := by
  rw [run_cons]
  simp only [World.step]
  split
  · rename_i hwaiting
    exact returns_of_waiting hwaiting hlength
  · split
    · exact returns_of_waiting (w := { w with waiting := true }) rfl hlength
    · obtain ⟨hle, hreturned, hinput⟩ := returned_le_poll parse w
      cases hpoll : (w.poll parse).waiting with
      | false => exact Nat.lt_of_lt_of_le (hreturned hpoll) (returned_le_run _ _)
      | true =>
        refine Nat.lt_of_le_of_lt hle (returns_of_waiting hpoll ?_)
        rw [hinput]
        exact hlength

/-- **However the reads cut the stream and whichever calls are dropped, the calls that return do so
with what the lines of the stream say, one line after another; what follows a message is unread; and
a call that is not dropped returns.** -/
theorem control_lines_survive {V E : Type} (parse : Bytes → Except E V) (stream : Bytes)
    (es : List Event) :
    Faithful parse stream (run (World.step parse) { input := stream } es) := by
  have hinv : Inv parse stream (run (World.step parse) { input := stream } es) :=
    invariant (I := Inv parse stream) (fun _ e h => h.step e) (inv_start parse stream) es
  exact ⟨hinv.outcomes, hinv.unread, fun _ hlength => returns_of_call _ hlength⟩

/-- A line that is cut in two, with a call dropped between the reads. -/
example :
    let parse : Bytes → Except Unit Bytes := .ok
    let w := run (World.step parse) { input := [1, 2, 10, 3] }
      [.call, .read 0, .drop, .call, .read 5]
    w.returned.map (fun r => (r.outcome, r.unread)) = [(.message (.ok [1, 2, 10]), [3])] := by
  decide +kernel

end Tailcat.Services.ControlLine
