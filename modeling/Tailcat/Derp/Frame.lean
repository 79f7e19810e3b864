import Tailcat.Bytes
import Tailcat.Lib.Decoder

/-!
# DERP frames

A DERP frame is a kind byte, a big-endian 32-bit length and that many bytes of body.
`writeFrame` and `readFrame` are the two directions on a byte stream; `readFrames` is the loop of
the reader task, which reads frames until `readFrame` fails.

`frameDecoder` is the framing by itself, as a decoder that may have to wait for more bytes.
`readFrame_eq` says that `readFrame` is that decoder with the end of the stream reported as an
error, and `readFrames_writeFrames` is the round trip.
-/

namespace Tailcat.Derp

open ItemStream

/-- Why reading from or writing to a relay stream fails. -/
inductive DerpError where
  /-- The stream ended (`io::ErrorKind::UnexpectedEof`). -/
  | unexpectedEof
  /-- An error raised by the code itself, with its text. -/
  | message (text : String)
  deriving DecidableEq, Repr

/-- The largest body of a frame, `(1 << 20) + 64`. -/
def maxFrame : ℕ := 1048640

/-- A frame: its kind and its body. -/
abbrev Frame := UInt8 × Bytes

/-- The error of `readFrame` and `writeFrame` for a body of `length` bytes. -/
def frameTooLarge (length : ℕ) : DerpError := .message s!"DERP frame too large: {length}"

/-! ### Reading and writing -/

/-- `AsyncReadExt::read_u8`. -/
def readU8 : Bytes → Except DerpError (UInt8 × Bytes)
  | b :: reader => .ok (b, reader)
  | [] => .error .unexpectedEof

/-- `AsyncReadExt::read_u32`. -/
def readU32 : Bytes → Except DerpError (ℕ × Bytes)
  | a :: b :: c :: d :: reader => .ok (ofBeBytes32 a b c d, reader)
  | _ => .error .unexpectedEof

/-- `AsyncReadExt::read_exact` into a buffer of `length` bytes. -/
def readExact (length : ℕ) (reader : Bytes) : Except DerpError (Bytes × Bytes) :=
  if reader.length < length then .error .unexpectedEof
  else .ok (reader.take length, reader.drop length)

/-- Read one frame from a stream: the frame, and the rest of the stream. -/
def readFrame (reader : Bytes) : Except DerpError (Frame × Bytes) := do
  let (kind, reader) ← readU8 reader
  let (length, reader) ← readU32 reader
  if length > maxFrame then throw (frameTooLarge length)
  let (body, reader) ← readExact length reader
  return ((kind, body), reader)

/-- The bytes written for one frame. -/
def writeFrame (kind : UInt8) (body : Bytes) : Except DerpError Bytes :=
  if body.length > maxFrame then .error (frameTooLarge body.length)
  else .ok (kind :: beBytes32 body.length ++ body)

/-- The bytes written for a list of frames, one after the other. -/
def writeFrames : List Frame → Except DerpError Bytes
  | [] => .ok []
  | f :: fs => do
    let frame ← writeFrame f.1 f.2
    let rest ← writeFrames fs
    return frame ++ rest

/-- At most `n` rounds of the reader task. -/
def readFramesN : ℕ → Bytes → List Frame × DerpError
  | 0, _ => ([], .unexpectedEof)
  | n + 1, reader =>
    match readFrame reader with
    | .ok (frame, reader) => (frame :: (readFramesN n reader).1, (readFramesN n reader).2)
    | .error e => ([], e)

/-- The reader task on a stream: the frames it delivers, and the error it stops on.  A frame
takes at least five bytes, so the rounds suffice (`readFrames_eq`). -/
def readFrames (reader : Bytes) : List Frame × DerpError := readFramesN (reader.length + 1) reader

/-! ### The framing -/

/-- One frame from the front of the bytes received so far, which may be too few; a length
above the limit is an error as soon as the header is complete. -/
def decodeFrame : Bytes → Outcome UInt8 Frame ℕ
  | kind :: a :: b :: c :: d :: rest =>
    if ofBeBytes32 a b c d > maxFrame then .bad (ofBeBytes32 a b c d)
    else if rest.length < ofBeBytes32 a b c d then .starved
    else .item (kind, rest.take (ofBeBytes32 a b c d)) (rest.drop (ofBeBytes32 a b c d))
  | _ => .starved

theorem decodeFrame_item {bs rest : Bytes} {f : Frame} :
    decodeFrame bs = .item f rest ↔ ∃ a b c d, bs = f.1 :: a :: b :: c :: d :: (f.2 ++ rest) ∧
      f.2.length = ofBeBytes32 a b c d ∧ f.2.length ≤ maxFrame := by
  constructor
  · intro h
    unfold decodeFrame at h
    split at h
    · rename_i kind a b c d tail
      split_ifs at h with hmax hlen
      cases h
      refine ⟨a, b, c, d, by simp, ?_, ?_⟩ <;> simp <;> omega
    · cases h
  · rintro ⟨a, b, c, d, rfl, hlen, hmax⟩
    rw [decodeFrame, ← hlen, if_neg (by omega), if_neg (by simp)]
    simp

theorem decodeFrame_bad {bs : Bytes} {n : ℕ} :
    decodeFrame bs = .bad n ↔ ∃ k a b c d rest, bs = k :: a :: b :: c :: d :: rest ∧
      n = ofBeBytes32 a b c d ∧ maxFrame < n := by
  constructor
  · intro h
    unfold decodeFrame at h
    split at h
    · rename_i kind a b c d tail
      split_ifs at h with hmax hlen
      cases h
      exact ⟨kind, a, b, c, d, tail, rfl, rfl, hmax⟩
    · cases h
  · rintro ⟨k, a, b, c, d, rest, rfl, rfl, hmax⟩
    rw [decodeFrame, if_pos hmax]

theorem decodeFrame_cons {kind a b c d : UInt8} {n : ℕ} (h : ofBeBytes32 a b c d = n)
    (rest : Bytes) :
    decodeFrame (kind :: a :: b :: c :: d :: rest) =
      if n > maxFrame then .bad n
      else if rest.length < n then .starved
      else .item (kind, rest.take n) (rest.drop n) := by
  rw [decodeFrame, h]

/-- The framing as a decoder: what it answers does not depend on the bytes that follow. -/
def frameDecoder : Decoder UInt8 Frame ℕ where
  decode := decodeFrame
  item_append := by
    intro xs f rest h ys
    obtain ⟨a, b, c, d, rfl, hlen, hmax⟩ := decodeFrame_item.1 h
    exact decodeFrame_item.2 ⟨a, b, c, d, by simp, hlen, hmax⟩
  bad_append := by
    intro xs n h ys
    obtain ⟨k, a, b, c, d, rest, rfl, rfl, hmax⟩ := decodeFrame_bad.1 h
    exact decodeFrame_bad.2 ⟨k, a, b, c, d, rest ++ ys, rfl, rfl, hmax⟩
  item_length := by
    intro xs f rest h
    obtain ⟨a, b, c, d, rfl, -, -⟩ := decodeFrame_item.1 h
    simp only [List.length_cons, List.length_append]
    omega

theorem frameDecoder_decode (bs : Bytes) : frameDecoder.decode bs = decodeFrame bs := rfl

/-- The error on which a stream ends: the bytes run out, or a length is above the limit. -/
def stopError : Option ℕ → DerpError
  | none => .unexpectedEof
  | some length => frameTooLarge length

theorem readFrame_cons {kind : UInt8} {reader rest : Bytes} {n : ℕ}
    (h : readU32 reader = .ok (n, rest)) :
    readFrame (kind :: reader) =
      if n > maxFrame then .error (frameTooLarge n)
      else if rest.length < n then .error .unexpectedEof
      else .ok ((kind, rest.take n), rest.drop n) := by
  simp only [readFrame, readU8, h, readExact, bind, Except.bind]
  split_ifs <;> rfl

/-- `readFrame` is the framing, with the end of the stream reported as an error. -/
theorem readFrame_eq (reader : Bytes) :
    readFrame reader = match decodeFrame reader with
      | .item f rest => .ok (f, rest)
      | .starved => .error .unexpectedEof
      | .bad n => .error (frameTooLarge n) := by
  match reader with
  | [] => rfl
  | [_] => rfl
  | [_, _] => rfl
  | [_, _, _] => rfl
  | [_, _, _, _] => rfl
  | kind :: a :: b :: c :: d :: rest =>
    obtain ⟨n, hn⟩ : ∃ n, ofBeBytes32 a b c d = n := ⟨_, rfl⟩
    have hu : readU32 (a :: b :: c :: d :: rest) = .ok (n, rest) := by rw [readU32, hn]
    rw [readFrame_cons hu, decodeFrame_cons hn]
    split_ifs <;> rfl

theorem readFramesN_eq (n : ℕ) (reader : Bytes) (h : reader.length < n) :
    readFramesN n reader =
      ((frameDecoder.drain reader).1, stopError (frameDecoder.drain reader).2) := by
  induction n generalizing reader with
  | zero => omega
  | succ n ih =>
    rw [readFramesN, readFrame_eq]
    cases hd : decodeFrame reader with
    | item f rest =>
      have hlt : rest.length < reader.length := frameDecoder.item_length hd
      rw [Decoder.drain_item (d := frameDecoder) hd]
      simp only [ih rest (by omega)]
    | starved => rw [Decoder.drain_starved (d := frameDecoder) hd]; rfl
    | bad n => rw [Decoder.drain_bad (d := frameDecoder) hd]; rfl

/-- The reader task delivers the items of the framing. -/
theorem readFrames_eq (reader : Bytes) :
    readFrames reader =
      ((frameDecoder.drain reader).1, stopError (frameDecoder.drain reader).2) :=
  readFramesN_eq _ _ (Nat.lt_succ_self _)

/-! ### The round trip -/

/-- The bytes of a frame, without the check of its length. -/
def encodeFrame (f : Frame) : Bytes := f.1 :: beBytes32 f.2.length ++ f.2

theorem writeFrames_eq {frames : List Frame} (h : ∀ f ∈ frames, f.2.length ≤ maxFrame) :
    writeFrames frames = .ok (frames.flatMap encodeFrame) := by
  induction frames with
  | nil => rfl
  | cons f fs ih =>
    have hf := h f List.mem_cons_self
    rw [writeFrames, writeFrame, if_neg (by omega), ih fun g hg => h g (List.mem_cons_of_mem _ hg)]
    rfl

theorem decodeFrame_encodeFrame {f : Frame} (h : f.2.length ≤ maxFrame) (ys : Bytes) :
    decodeFrame (encodeFrame f ++ ys) = .item f ys := by
  have hlt : f.2.length < 2 ^ 32 := Nat.lt_of_le_of_lt h (by decide)
  refine decodeFrame_item.2 ⟨_, _, _, _, ?_, (ofBeBytes32_beBytes32 hlt).symm, h⟩
  simp [encodeFrame, beBytes32]

/-- **Frames round trip.**  What `writeFrame` writes for a list of frames is read back as that
list, and nothing is left over. -/
theorem readFrames_writeFrames {frames : List Frame} (h : ∀ f ∈ frames, f.2.length ≤ maxFrame) :
    readFrames (frames.flatMap encodeFrame) = (frames, .unexpectedEof) := by
  have hdrain : frameDecoder.drain (frames.flatMap encodeFrame) = (frames, none) :=
    Decoder.drain_flatMap frames (fun f hf ys => decodeFrame_encodeFrame (h f hf) ys) rfl
  rw [readFrames_eq, hdrain]
  rfl

end Tailcat.Derp
