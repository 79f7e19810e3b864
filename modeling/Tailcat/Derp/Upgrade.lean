import Tailcat.Derp.Frame
import Tailcat.Text

/-!
# The HTTP upgrade before the frames

Over TLS the frames follow an HTTP response that accepts the upgrade to DERP.
`readHttpUpgrade` reads that response one byte at a time, up to its first blank line, and checks
the status and the `Upgrade` header.

`readHttpUpgrade_append` : the response is all it reads; the bytes after it are left untouched.

The source reads a byte at a time because a buffered reader would take bytes of the first frame with
it.  That reason is the theorem: whatever follows the blank line is handed on as it is.  The limit
of 16 KiB is checked before a byte is read, so a response of that length without a blank line is
refused.  The header lines are compared without regard to case, and of the status line only the code
counts.
-/

namespace Tailcat.Derp

/-- The end of the headers. -/
def headerEnd : Bytes := [0x0D, 0x0A, 0x0D, 0x0A]

/-- The most bytes of headers that are read. -/
def maxHeaders : ℕ := 16384

/-- Read up to and including the first blank line: the headers, after those already read, and
the rest of the stream. -/
def readHeaders (headers : Bytes) (reader : Bytes) : Except DerpError (Bytes × Bytes) :=
  if headerEnd.isSuffixOf headers then .ok (headers, reader)
  else if headers.length ≥ maxHeaders then .error (.message "DERP HTTP headers too large")
  else match reader with
    | [] => .error .unexpectedEof
    | b :: reader => readHeaders (headers ++ [b]) reader

/-- A header line that upgrades to DERP. -/
def isUpgradeLine (line : List Char) : Bool :=
  match splitOnce ':' line with
  | some (name, value) =>
    eqIgnoreAsciiCase name "upgrade".toList && eqIgnoreAsciiCase (trim value) "derp".toList
  | none => false

/-- Check a complete response. -/
def checkUpgrade (headers : Bytes) : Except DerpError Unit :=
  match fromUtf8 headers with
  | none => .error (.message "invalid DERP HTTP response")
  | some text =>
    let status := (lines text).headD []
    if (splitWhitespace status)[1]? ≠ some "101".toList then
      .error (.message s!"DERP HTTP upgrade rejected: {String.ofList status}")
    else if ((lines text).drop 1).any isUpgradeLine then .ok ()
    else .error (.message "DERP HTTP response lacks Upgrade: DERP")

/-- Read the response to the upgrade request: the rest of the stream if it accepts. -/
def readHttpUpgrade (reader : Bytes) : Except DerpError Bytes := do
  let (headers, reader) ← readHeaders [] reader
  checkUpgrade headers
  return reader

theorem readHeaders_append {headers reader h rest : Bytes}
    (hr : readHeaders headers reader = .ok (h, rest)) (ys : Bytes) :
    readHeaders headers (reader ++ ys) = .ok (h, rest ++ ys) := by
  induction reader generalizing headers with
  | nil =>
    rw [readHeaders.eq_def] at hr
    split_ifs at hr with hend
    cases hr
    rw [readHeaders.eq_def, if_pos hend, List.nil_append]
  | cons b reader ih =>
    rw [readHeaders.eq_def] at hr
    split_ifs at hr with hend hlen
    · cases hr
      rw [readHeaders.eq_def, if_pos hend]
    · rw [List.cons_append, readHeaders.eq_def, if_neg hend, if_neg hlen]
      exact ih hr

/-- **The response is all that is read.** -/
theorem readHttpUpgrade_append {reader rest : Bytes} (h : readHttpUpgrade reader = .ok rest)
    (ys : Bytes) : readHttpUpgrade (reader ++ ys) = .ok (rest ++ ys) := by
  simp only [readHttpUpgrade, bind, Except.bind] at h ⊢
  cases hr : readHeaders [] reader with
  | error e => simp [hr] at h
  | ok p =>
    obtain ⟨headers, tail⟩ := p
    rw [readHeaders_append hr ys]
    simp only [hr] at h ⊢
    cases hc : checkUpgrade headers with
    | error e => simp [hc] at h
    | ok u =>
      simp only [hc, pure, Except.pure, Except.ok.injEq] at h ⊢
      rw [h]

end Tailcat.Derp
