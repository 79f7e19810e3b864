import Tailcat.Derp.Upgrade

/-!
# Frames over WebSocket messages

A browser receives the frames of a relay in WebSocket messages, cut at arbitrary places.  `Ws`
is its queue: `Ws.onMessage` is the message handler, with its limit of 8 MiB, and `Ws.nextFrame`
takes the next complete frame off the queue, if there is one.

`Ws.nextFrame` and `readFrame` are two implementations of one framing (`Ws.nextFrame_eq`,
`readFrame_eq`), so they agree on every stream (`frames_agree`).

The events of a run are messages and calls, in any order.  The stream is the concatenation of the
messages, and what the calls return is compared with what the reader of a TCP connection returns for
the same bytes, errors included.  Both are instances of the decoder of `Lib.Decoder`: the work of
putting cuts and polls in order is done there.  A queue that has been closed answers the same as an
empty one, which is why the runs of the theorem are those that stay open.
-/

namespace Tailcat.Derp

open ItemStream

/-- The receiving side of a WebSocket connection to a relay. -/
structure Ws where
  /-- The bytes received and not yet consumed. -/
  bytes : Bytes
  /-- The connection is closed, or closing after too much data. -/
  closed : Bool
  deriving DecidableEq, Repr

namespace Ws

/-- A connection on which nothing has been received. -/
def empty : Ws := ⟨[], false⟩

/-- The most bytes the queue may hold. -/
def maxQueue : ℕ := 8 * 2 ^ 20

/-- The message handler. -/
def onMessage (ws : Ws) (data : Bytes) : Ws :=
  if ws.closed then ws
  else if ws.bytes.length + data.length > maxQueue then { ws with closed := true }
  else { ws with bytes := ws.bytes ++ data }

/-- The error of `nextFrame` for a length above the limit. -/
def frameError : DerpError := .message "DERP frame exceeds size limit"

/-- The next complete frame of the queue. -/
def nextFrame : Ws → Except DerpError (Option Frame) × Ws
  | ⟨kind :: a :: b :: c :: d :: rest, closed⟩ =>
    let length := ofBeBytes32 a b c d
    if length > 1048640 then
      (.error frameError, ⟨kind :: a :: b :: c :: d :: rest, closed⟩)
    else if (kind :: a :: b :: c :: d :: rest).length < 5 + length then
      (.ok none, ⟨kind :: a :: b :: c :: d :: rest, closed⟩)
    else (.ok (some (kind, rest.take length)), ⟨rest.drop length, closed⟩)
  | ws => (.ok none, ws)

/-- What happens at the queue: a message arrives, or the program asks for a frame. -/
inductive Event where
  /-- A WebSocket message. -/
  | message (data : Bytes)
  /-- A call of `nextFrame`. -/
  | call

/-- The bytes of the messages, one after the other: the stream before it was split. -/
def stream : List Event → Bytes
  | [] => []
  | .message data :: evs => data ++ stream evs
  | .call :: evs => stream evs

/-- Run a list of events: the results of the calls, and the connection afterwards. -/
def run (ws : Ws) : List Event → List (Except DerpError (Option Frame)) × Ws
  | [] => ([], ws)
  | .message data :: evs => run (ws.onMessage data) evs
  | .call :: evs => (ws.nextFrame.1 :: (run ws.nextFrame.2 evs).1, (run ws.nextFrame.2 evs).2)

/-- The frames among the results of calls. -/
def frames : List (Except DerpError (Option Frame)) → List Frame :=
  List.filterMap fun r => match r with
    | .ok f => f
    | .error _ => none

/-! ### The queue runs the framing -/

/-- The result of a poll of the framing as `nextFrame` reports it. -/
def report : Except ℕ (Option Frame) → Except DerpError (Option Frame)
  | .ok f => .ok f
  | .error _ => .error frameError

theorem nextFrame_cons {kind a b c d : UInt8} {n : ℕ} (h : ofBeBytes32 a b c d = n)
    (rest : Bytes) (closed : Bool) :
    nextFrame ⟨kind :: a :: b :: c :: d :: rest, closed⟩ =
      if n > maxFrame then (.error frameError, ⟨kind :: a :: b :: c :: d :: rest, closed⟩)
      else if rest.length < n then (.ok none, ⟨kind :: a :: b :: c :: d :: rest, closed⟩)
      else (.ok (some (kind, rest.take n)), ⟨rest.drop n, closed⟩) := by
  have hlen : (kind :: a :: b :: c :: d :: rest).length < 5 + n ↔ rest.length < n := by
    simp only [List.length_cons]
    omega
  rw [nextFrame, h, maxFrame]
  simp only [hlen]

/-- `nextFrame` is the framing, with the queue left alone unless a frame is complete. -/
theorem nextFrame_eq (bytes : Bytes) (closed : Bool) :
    nextFrame ⟨bytes, closed⟩ = match decodeFrame bytes with
      | .item f rest => (.ok (some f), ⟨rest, closed⟩)
      | .starved => (.ok none, ⟨bytes, closed⟩)
      | .bad _ => (.error frameError, ⟨bytes, closed⟩) := by
  match bytes with
  | [] => rfl
  | [_] => rfl
  | [_, _] => rfl
  | [_, _, _] => rfl
  | [_, _, _, _] => rfl
  | kind :: a :: b :: c :: d :: rest =>
    obtain ⟨n, hn⟩ : ∃ n, ofBeBytes32 a b c d = n := ⟨_, rfl⟩
    rw [nextFrame_cons hn, decodeFrame_cons hn]
    split_ifs <;> rfl

/-- `nextFrame` is a poll of the framing. -/
theorem nextFrame_poll (ws : Ws) :
    ws.nextFrame = (report (frameDecoder.poll ws.bytes).1,
      { ws with bytes := (frameDecoder.poll ws.bytes).2 }) := by
  obtain ⟨bytes, closed⟩ := ws
  simp only [nextFrame_eq, Decoder.poll, frameDecoder_decode]
  cases decodeFrame bytes with
  | item f rest => rfl
  | starved => rfl
  | bad n => rfl

theorem nextFrame_closed (ws : Ws) : ws.nextFrame.2.closed = ws.closed := by
  rw [nextFrame_poll]

theorem closed_of_run {ws : Ws} {evs : List Event} (h : ws.closed = true) :
    (ws.run evs).2.closed = true := by
  induction evs generalizing ws with
  | nil => exact h
  | cons ev evs ih =>
    cases ev with
    | message data => exact ih (by simp [onMessage, h])
    | call => exact ih (by rw [nextFrame_closed, h])

/-- A message is queued whole when the connection is still open afterwards. -/
theorem onMessage_open {ws : Ws} {data : Bytes} (h : (ws.onMessage data).closed = false) :
    ws.onMessage data = { ws with bytes := ws.bytes ++ data } := by
  unfold onMessage at h ⊢
  split_ifs at h ⊢ with hc hq
  · exact absurd (hc.symm.trans h) (by decide)
  · rfl

/-- The framing's view of an event. -/
def Event.toFraming : Event → Decoder.Event UInt8
  | .message data => .feed data
  | .call => .poll

theorem fed_toFraming (evs : List Event) : Decoder.fed (evs.map Event.toFraming) = stream evs := by
  induction evs with
  | nil => rfl
  | cons ev evs ih =>
    cases ev with
    | message data => simp only [List.map_cons, Event.toFraming, Decoder.fed, stream, ih]
    | call => simp only [List.map_cons, Event.toFraming, Decoder.fed, stream, ih]

/-- **The browser's queue refines the framing**, as long as its limit is not reached. -/
theorem run_eq {ws : Ws} {evs : List Event} (h : (ws.run evs).2.closed = false) :
    ws.run evs =
      ((frameDecoder.run ws.bytes (evs.map Event.toFraming)).1.map report,
        { ws with bytes := (frameDecoder.run ws.bytes (evs.map Event.toFraming)).2 }) := by
  induction evs generalizing ws with
  | nil => rfl
  | cons ev evs ih =>
    cases ev with
    | message data =>
      have hopen : (ws.onMessage data).closed = false := by
        by_contra hc
        rw [run, closed_of_run (by simpa using hc)] at h
        cases h
      rw [run, ih h, onMessage_open hopen]
      rfl
    | call =>
      have hrun := @ih ws.nextFrame.2 h
      simp only [run, List.map_cons, Event.toFraming, Decoder.run, hrun]
      rw [nextFrame_poll]

theorem frames_map_report (rs : List (Except ℕ (Option Frame))) :
    frames (rs.map report) = Decoder.items rs := by
  induction rs with
  | nil => rfl
  | cons r rs ih =>
    simp only [frames, Decoder.items] at ih ⊢
    cases r with
    | ok f => cases f <;> simp [report, ih]
    | error n => simp [report, ih]

theorem run_calls_open {ws : Ws} (h : ws.closed = false) (n : ℕ) :
    (ws.run (List.replicate n .call)).2.closed = false := by
  induction n generalizing ws with
  | zero => exact h
  | succ n ih =>
    rw [List.replicate_succ, run]
    exact ih (by rw [nextFrame_closed, h])

theorem run_append (ws : Ws) (evs evs' : List Event) :
    ws.run (evs ++ evs') =
      ((ws.run evs).1 ++ ((ws.run evs).2.run evs').1, ((ws.run evs).2.run evs').2) := by
  induction evs generalizing ws with
  | nil => rfl
  | cons ev evs ih =>
    cases ev with
    | message data => exact ih _
    | call => simp only [List.cons_append, run, ih]

theorem stream_calls (evs : List Event) (n : ℕ) :
    stream (evs ++ List.replicate n .call) = stream evs := by
  induction evs with
  | nil =>
    induction n with
    | zero => rfl
    | succ n ih => exact ih
  | cons ev evs ih =>
    cases ev with
    | message data => simp only [List.cons_append, stream, ih]
    | call => exact ih

/-- After at least as many calls as there are frames in the queue, none is left. -/
theorem run_calls {ws : Ws} (hopen : ws.closed = false) {n : ℕ}
    (hn : (readFrames ws.bytes).1.length ≤ n) :
    (readFrames (ws.run (List.replicate n .call)).2.bytes).1 = [] := by
  have hmap : (List.replicate n Event.call).map Event.toFraming = List.replicate n .poll := by
    simp [Event.toFraming]
  rw [readFrames_eq] at hn
  rw [run_eq (run_calls_open hopen n), hmap, readFrames_eq]
  exact congrArg Prod.fst (Decoder.run_polls hn).2

end Ws

/-! ### The two decoders agree -/

/-- Whatever the messages and the calls, the frames taken so far followed by those still in the
queue are the frames of the stream. -/
theorem readFrames_stream {evs : List Ws.Event} (h : (Ws.empty.run evs).2.closed = false) :
    readFrames (Ws.stream evs) =
      (Ws.frames (Ws.empty.run evs).1 ++ (readFrames (Ws.empty.run evs).2.bytes).1,
        (readFrames (Ws.empty.run evs).2.bytes).2) := by
  have hrun := Decoder.drain_run (d := frameDecoder) [] (evs.map Ws.Event.toFraming)
  rw [List.nil_append, Ws.fed_toFraming] at hrun
  rw [Ws.run_eq h]
  simp only [readFrames_eq, hrun, Ws.frames_map_report, Ws.empty]

/-- What `nextFrame` answers when the frames are used up: nothing yet, or an error exactly where
`readFrame` reports a length above the limit. -/
def Ws.stopsLike (r : Except DerpError (Option Frame)) (e : DerpError) : Prop :=
  (r = .ok none ∧ e = .unexpectedEof) ∨
    (r = .error Ws.frameError ∧ ∃ n > maxFrame, e = frameTooLarge n)

/-- A queue without complete frames: `nextFrame` answers as `readFrame` does. -/
theorem stopsLike_of_drained {ws : Ws} (h : (readFrames ws.bytes).1 = []) :
    Ws.stopsLike ws.nextFrame.1 (readFrames ws.bytes).2 := by
  obtain ⟨bytes, closed⟩ := ws
  rw [readFrames_eq] at h ⊢
  rw [Ws.nextFrame_eq]
  cases hd : decodeFrame bytes with
  | item f rest => rw [Decoder.drain_item (d := frameDecoder) hd] at h; cases h
  | starved => exact .inl ⟨rfl, by rw [Decoder.drain_starved (d := frameDecoder) hd]; rfl⟩
  | bad n =>
    obtain ⟨-, -, -, -, -, -, -, -, hmax⟩ := decodeFrame_bad.1 hd
    exact .inr ⟨rfl, n, hmax, by rw [Decoder.drain_bad (d := frameDecoder) hd]; rfl⟩

/-- A result that is not a frame shows that the frames are used up. -/
theorem drained_of_nextFrame {ws : Ws} (h : ∀ f, ws.nextFrame.1 ≠ .ok (some f)) :
    (readFrames ws.bytes).1 = [] := by
  obtain ⟨bytes, closed⟩ := ws
  rw [readFrames_eq]
  rw [Ws.nextFrame_eq] at h
  cases hd : decodeFrame bytes with
  | item f rest => rw [hd] at h; exact absurd rfl (h f)
  | starved => rw [Decoder.drain_starved (d := frameDecoder) hd]
  | bad n => rw [Decoder.drain_bad (d := frameDecoder) hd]

/-- Once the queue holds no complete frame, the calls have returned the frames of the stream,
and the next call reports how the stream ends. -/
theorem agree_of_drained {evs : List Ws.Event} (h : (Ws.empty.run evs).2.closed = false)
    (hd : (readFrames (Ws.empty.run evs).2.bytes).1 = []) :
    Ws.frames (Ws.empty.run evs).1 = (readFrames (Ws.stream evs)).1 ∧
      Ws.stopsLike (Ws.empty.run evs).2.nextFrame.1 (readFrames (Ws.stream evs)).2 := by
  rw [readFrames_stream h, hd, List.append_nil]
  exact ⟨rfl, stopsLike_of_drained hd⟩

/-- **Framing, and agreement of the two decoders.**  The frames written are the frames read,
directly or after the upgrade response.  However a stream is split into messages between calls,
the calls return its frames in order; once they return something else, or after enough calls,
they have returned all of them, and they stop with an error exactly where `readFrame` finds a
length above the limit.  A call that returns nothing changes nothing. -/
theorem frames_agree (fs : List Frame) (hfs : ∀ f ∈ fs, f.2.length ≤ maxFrame)
    (response : Bytes) (hresponse : readHttpUpgrade response = .ok [])
    (evs : List Ws.Event) (hcap : (Ws.empty.run evs).2.closed = false) :
    (∃ wire, writeFrames fs = .ok wire ∧ readFrames wire = (fs, .unexpectedEof) ∧
      readHttpUpgrade (response ++ wire) = .ok wire) ∧
    Ws.frames (Ws.empty.run evs).1 <+: (readFrames (Ws.stream evs)).1 ∧
    ((∀ f, (Ws.empty.run evs).2.nextFrame.1 ≠ .ok (some f)) →
      Ws.frames (Ws.empty.run evs).1 = (readFrames (Ws.stream evs)).1 ∧
        Ws.stopsLike (Ws.empty.run evs).2.nextFrame.1 (readFrames (Ws.stream evs)).2) ∧
    (∀ n ≥ (readFrames (Ws.stream evs)).1.length,
      Ws.frames (Ws.empty.run (evs ++ List.replicate n .call)).1 =
          (readFrames (Ws.stream evs)).1 ∧
        Ws.stopsLike (Ws.empty.run (evs ++ List.replicate n .call)).2.nextFrame.1
          (readFrames (Ws.stream evs)).2) ∧
    (∀ ws : Ws, ws.nextFrame.1 = .ok none → ws.nextFrame.2 = ws) := by
  refine ⟨⟨_, writeFrames_eq hfs, readFrames_writeFrames hfs, readHttpUpgrade_append hresponse _⟩,
    ?_, fun h => agree_of_drained hcap (drained_of_nextFrame h), fun n hn => ?_, fun ws h => ?_⟩
  · rw [readFrames_stream hcap]
    exact List.prefix_append _ _
  · have hopen : (Ws.empty.run (evs ++ List.replicate n .call)).2.closed = false := by
      rw [Ws.run_append]
      exact Ws.run_calls_open hcap n
    have hleft : (readFrames (Ws.empty.run evs).2.bytes).1.length ≤ n := by
      rw [readFrames_stream hcap, List.length_append] at hn
      omega
    have hagree := agree_of_drained hopen (by rw [Ws.run_append]; exact Ws.run_calls hcap hleft)
    rwa [Ws.stream_calls] at hagree
  · rw [Ws.nextFrame_poll] at h ⊢
    have hp : (frameDecoder.poll ws.bytes).1 = .ok none := by
      cases hr : (frameDecoder.poll ws.bytes).1 with
      | ok f => rw [hr] at h; exact congrArg _ (Except.ok.inj h)
      | error n => rw [hr] at h; cases h
    rw [Decoder.poll_none hp]

/-- The agreement for one frame whose header is split over two messages, and a round trip of it
behind an upgrade response. -/
theorem frames_agree_split :
    (∃ wire, writeFrames [(4, [7, 8])] = .ok wire ∧
      readFrames wire = ([(4, [7, 8])], .unexpectedEof)) ∧
    Ws.frames (Ws.empty.run [.message [4, 0, 0], .call, .message [0, 2, 7], .message [8, 9],
      .call, .call]).1 = (readFrames [4, 0, 0, 0, 2, 7, 8, 9]).1 := by
  have h := frames_agree [(4, [7, 8])] (by decide)
    (ascii "HTTP/1.1 101 Switching Protocols\r\nUpgrade: DERP\r\nConnection: Upgrade\r\n\r\n")
    (by decide +kernel)
    [.message [4, 0, 0], .call, .message [0, 2, 7], .message [8, 9], .call, .call]
    (by decide +kernel)
  obtain ⟨⟨wire, hw, hr, -⟩, -, hall, -⟩ := h
  have hnone : (Ws.empty.run [.message [4, 0, 0], .call, .message [0, 2, 7], .message [8, 9],
      .call, .call]).2.nextFrame.1 = .ok none := by decide +kernel
  exact ⟨⟨wire, hw, hr⟩, (hall (by simp [hnone])).1⟩

end Tailcat.Derp
