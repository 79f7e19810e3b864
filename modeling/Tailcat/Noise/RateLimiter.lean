import Tailcat.Net.Addr
import Tailcat.Noise.Handshake

/-!
# Handshakes under load

A handshake message is processed only if its first MAC shows that its sender knows the public key of
this end, and, past a number of messages each second, only if its second MAC shows that the sender
can be reached at its address (`noise/rate_limiter.rs`).

* `verifyPacket_ok` : a handshake message is let through only with a first MAC for this end, and
  only with a valid cookie or below the limit.
* `passed_le` : of the messages without a valid cookie, at most the limit pass in a second.

The count goes back to zero at most once a second, and each time lets one limit's worth of messages
through (`Paced`); the bound is the number of times that fit between the start and the end.  A
message with a valid cookie is let through even then: its sender has shown where it is.
-/

namespace Tailcat.Noise

open Net

/-- The time for which a cookie is derived from one number, in seconds. -/
def cookieRefresh : ℕ := 128

/-- The time between resets, in seconds. -/
def resetPeriod : ℕ := 1

/-- `RateLimiter`; times are in nanoseconds. -/
structure RateLimiter where
  nonceKey : Bytes
  secretKey : Bytes
  startTime : ℕ
  nonceCtr : ℕ := 0
  mac1Key : Bytes
  cookieKey : Bytes
  limit : ℕ
  /-- Handshake messages since the last reset. -/
  count : ℕ := 0
  lastReset : ℕ
  deriving DecidableEq, Repr

/-- What the packet is refused with: an error, or a datagram to send back. -/
inductive Refusal
  | err (e : WireGuardError)
  | writeToNetwork (datagram : Bytes)
  deriving DecidableEq, Repr

/-- The source of a packet, as a cookie is made for it. -/
def addrBytes : IpAddr → Bytes
  | .v4 ip => ip.1 ++ List.replicate 12 0
  | .v6 ip => ip.1

/-- Keyed BLAKE2s with 24 bytes is one more function from the library. -/
structure LimiterPrimitives extends Primitives where
  mac24 : Bytes → Bytes → Bytes

/-- The functions from libraries for small runs. -/
def sampleLimiter : LimiterPrimitives := ⟨samplePrimitives, fun _ message => message.take 24⟩

namespace RateLimiter

variable (P : LimiterPrimitives)

/-- `RateLimiter::new`, with random keys. -/
def new (publicKey : Bytes) (limit : ℕ) (nonceKey secretKey : Bytes) (now : ℕ) : RateLimiter where
  nonceKey := nonceKey
  secretKey := secretKey
  startTime := now
  mac1Key := P.hash labelMac1 publicKey
  cookieKey := P.hash labelCookie publicKey
  limit := limit
  lastReset := now

/-- `reset_count`. -/
def resetCount (r : RateLimiter) (now : ℕ) : RateLimiter :=
  if (now - r.lastReset) / 1000000000 ≥ resetPeriod then { r with count := 0, lastReset := now }
  else r

/-- `current_cookie`. -/
def currentCookie (r : RateLimiter) (addr : IpAddr) (now : ℕ) : Bytes :=
  let curCounter := (now - r.startTime) / 1000000000 / cookieRefresh
  P.mac16 r.secretKey (leBytes64 curCounter ++ addrBytes addr)

/-- `nonce`. -/
def nonce (r : RateLimiter) : Bytes × RateLimiter :=
  (P.mac24 r.nonceKey (leBytes64 r.nonceCtr), { r with nonceCtr := (r.nonceCtr + 1) % u64 })

/-- One more handshake message. -/
def counted (r : RateLimiter) : RateLimiter := { r with count := (r.count + 1) % u64 }

/-- `is_under_load`. -/
def isUnderLoad (r : RateLimiter) : Bool × RateLimiter := (r.count ≥ r.limit, r.counted)

/-- `format_cookie_reply`; the buffer is large enough. -/
def formatCookieReply (r : RateLimiter) (idx : ℕ) (cookie mac1 : Bytes) : Bytes × RateLimiter :=
  let (nonce, r) := r.nonce P
  (leBytes32 cookieReply ++ leBytes32 idx ++ nonce ++
    P.xaead.sealInPlace r.cookieKey nonce mac1 cookie, r)

/-- The index of the sender of a handshake message. -/
def senderOf : Packet → Option ℕ
  | .handshakeInit p => some p.senderIdx
  | .handshakeResponse p => some p.senderIdx
  | _ => none

/-- The parts of a handshake message: what the first MAC signs, and the two MACs. -/
def signed (src : Bytes) : Bytes := src.take (src.length - 32)
def firstMac (src : Bytes) : Bytes := (src.drop (src.length - 32)).take 16
def secondMac (src : Bytes) : Bytes := src.drop (src.length - 16)

/-- The second MAC shows that the sender got the cookie for its address. -/
def provesAddress (r : RateLimiter) (addr : IpAddr) (src : Bytes) (now : ℕ) : Bool :=
  P.mac16 (r.currentCookie P addr now) (signed src ++ firstMac src) = secondMac src

/-- The checks of `verify_packet` on a handshake message: what it is refused with, if it is. -/
def verifyMacs (r : RateLimiter) (senderIdx : ℕ) (srcAddr : Option IpAddr) (src : Bytes)
    (now : ℕ) : Option Refusal × RateLimiter :=
  if P.mac16 r.mac1Key (signed src) ≠ firstMac src then (some (.err .invalidMac), r)
  else
    let (underLoad, r) := r.isUnderLoad
    if underLoad then
      match srcAddr with
      | none => (some (.err .underLoad), r)
      | some addr =>
        if r.provesAddress P addr src now then (none, r)
        else
          let (reply, r) :=
            r.formatCookieReply P senderIdx (r.currentCookie P addr now) (firstMac src)
          (some (.writeToNetwork reply), r)
    else (none, r)

/-- `verify_packet`: only handshake messages have MACs, and are limited. -/
def verifyPacket (r : RateLimiter) (srcAddr : Option IpAddr) (src : Bytes) (now : ℕ) :
    Except Refusal Packet × RateLimiter :=
  match parseIncomingPacket src with
  | .error e => (.error (.err e), r)
  | .ok packet =>
    match senderOf packet with
    | none => (.ok packet, r)
    | some senderIdx =>
      match r.verifyMacs P senderIdx srcAddr src now with
      | (some refusal, r) => (.error refusal, r)
      | (none, r) => (.ok packet, r)

/-! ### What passes -/

/-- What stays as it is. -/
structure Same (r r' : RateLimiter) : Prop where
  secretKey : r'.secretKey = r.secretKey
  startTime : r'.startTime = r.startTime
  mac1Key : r'.mac1Key = r.mac1Key
  limit : r'.limit = r.limit

theorem Same.refl (r : RateLimiter) : Same r r := ⟨rfl, rfl, rfl, rfl⟩

variable {P} {r r' : RateLimiter} {srcAddr : Option IpAddr} {src : Bytes} {now senderIdx : ℕ}
  {packet : Packet} {refusal : Option Refusal}

/-- **The MACs of one handshake message**: it counts if the first is valid, and passes if it is also
below the limit or proves its address. -/
theorem verifyMacs_cases (h : r.verifyMacs P senderIdx srcAddr src now = (refusal, r')) :
    Same r r' ∧ r'.lastReset = r.lastReset ∧
      ((refusal ≠ none ∧ r'.count = r.count ∧ P.mac16 r.mac1Key (signed src) ≠ firstMac src) ∨
        (r'.count = (r.count + 1) % u64 ∧ P.mac16 r.mac1Key (signed src) = firstMac src ∧
          (refusal = none ↔ r.count < r.limit ∨
            ∃ addr, srcAddr = some addr ∧ r.provesAddress P addr src now = true))) := by
  unfold verifyMacs at h
  split at h
  · next hmac =>
    cases h
    exact ⟨.refl r, rfl, .inl ⟨by simp, rfl, hmac⟩⟩
  · next hmac =>
    have hmac' : P.mac16 r.mac1Key (signed src) = firstMac src := not_not.1 hmac
    have hsame : Same r r.counted := ⟨rfl, rfl, rfl, rfl⟩
    by_cases hlt : r.count < r.limit
    · have hload : r.isUnderLoad = (false, r.counted) := by simp [isUnderLoad, hlt]
      rw [hload] at h
      cases h
      exact ⟨hsame, rfl, .inr ⟨rfl, hmac', by simp [hlt]⟩⟩
    · have hload : r.isUnderLoad = (true, r.counted) := by simpa [isUnderLoad] using hlt
      rw [hload] at h
      cases haddr : srcAddr with
      | none =>
        rw [haddr] at h
        cases h
        exact ⟨hsame, rfl, .inr ⟨rfl, hmac', by simp [hlt]⟩⟩
      | some addr =>
        rw [haddr] at h
        by_cases hproves : r.provesAddress P addr src now = true
        · have hproves' : r.counted.provesAddress P addr src now = true := hproves
          simp only [hproves', if_true] at h
          cases h
          refine ⟨hsame, rfl, .inr ⟨rfl, hmac', ?_⟩⟩
          exact ⟨fun _ => .inr ⟨addr, rfl, hproves⟩, fun _ => rfl⟩
        · have hproves' : ¬ r.counted.provesAddress P addr src now = true := hproves
          simp only [hproves', if_true] at h
          cases h
          refine ⟨⟨rfl, rfl, rfl, rfl⟩, rfl, .inr ⟨rfl, hmac', by simp, ?_⟩⟩
          rintro (hless | ⟨addr', heq, hproves''⟩)
          · exact absurd hless hlt
          · cases heq
            exact absurd hproves'' hproves

/-- **What is let through**: a packet that is no handshake message, or one whose first MAC is for
this end, below the limit or with a proof of its address. -/
theorem verifyPacket_ok (h : r.verifyPacket P srcAddr src now = (.ok packet, r')) :
    parseIncomingPacket src = .ok packet ∧
      (senderOf packet = none ∧ r' = r ∨
        P.mac16 r.mac1Key (signed src) = firstMac src ∧ r'.count = (r.count + 1) % u64 ∧
          (r.count < r.limit ∨
            ∃ addr, srcAddr = some addr ∧ r.provesAddress P addr src now = true)) := by
  unfold verifyPacket at h
  cases hparse : parseIncomingPacket src with
  | error e =>
    rw [hparse] at h
    cases h
  | ok q =>
    rw [hparse] at h
    simp only at h
    cases hsender : senderOf q with
    | none =>
      rw [hsender] at h
      cases h
      exact ⟨rfl, .inl ⟨hsender, rfl⟩⟩
    | some senderIdx =>
      rw [hsender] at h
      simp only at h
      cases hmacs : r.verifyMacs P senderIdx srcAddr src now with
      | mk refusal r'' =>
        rw [hmacs] at h
        cases refusal with
        | some refusal => cases h
        | none =>
          cases h
          obtain ⟨-, -, ⟨hne, -⟩ | ⟨hcount, hmac, hpass⟩⟩ := verifyMacs_cases hmacs
          · exact absurd rfl hne
          · exact ⟨rfl, .inr ⟨hmac, hcount, hpass.1 rfl⟩⟩

/-! ### Messages in a second -/

/-- What happens to the limiter. -/
inductive Event
  | datagram (srcAddr : Option IpAddr) (src : Bytes)
  | reset

/-- A handshake message passes that does not prove its address. -/
def passesUnproven (P : LimiterPrimitives) (r : RateLimiter) (srcAddr : Option IpAddr) (src : Bytes)
    (now : ℕ) : Bool :=
  match (r.verifyPacket P srcAddr src now).1 with
  | .ok packet => (senderOf packet).isSome &&
      !(srcAddr.any fun addr => r.provesAddress P addr src now)
  | .error _ => false

/-- One event at its time: the limiter, and the messages that have passed without a proof. -/
def step (P : LimiterPrimitives) (s : RateLimiter × ℕ) : ℕ × Event → RateLimiter × ℕ
  | (now, .reset) => (s.1.resetCount now, s.2)
  | (now, .datagram srcAddr src) => ((s.1.verifyPacket P srcAddr src now).2,
      s.2 + if passesUnproven P s.1 srcAddr src now then 1 else 0)

/-- After so many events, the last at the time: each reset lets a limit's worth of messages through,
and resets are a second apart. -/
structure Paced (limit start n now : ℕ) (s : RateLimiter × ℕ) : Prop where
  limited : s.1.limit = limit
  started : start ≤ s.1.lastReset
  last : s.1.lastReset ≤ now
  count : s.1.count ≤ n
  passed : ∃ resets, start + resets * 1000000000 ≤ s.1.lastReset ∧
    s.2 + (limit - s.1.count) ≤ limit * (resets + 1)

/-- One datagram: a message that passes without a proof counts, and was below the limit. -/
theorem verifyPacket_counts (r : RateLimiter) (srcAddr : Option IpAddr) (src : Bytes) (now : ℕ) :
    (r.verifyPacket P srcAddr src now).2.limit = r.limit ∧
      (r.verifyPacket P srcAddr src now).2.lastReset = r.lastReset ∧
      ((r.verifyPacket P srcAddr src now).2.count = r.count ∧
          passesUnproven P r srcAddr src now = false ∨
        (r.verifyPacket P srcAddr src now).2.count = (r.count + 1) % u64 ∧
          (passesUnproven P r srcAddr src now = true → r.count < r.limit)) := by
  unfold passesUnproven verifyPacket
  cases hparse : parseIncomingPacket src with
  | error e => exact ⟨rfl, rfl, .inl ⟨rfl, rfl⟩⟩
  | ok q =>
    simp only
    cases hsender : senderOf q with
    | none => exact ⟨rfl, rfl, .inl ⟨rfl, by simp [hsender]⟩⟩
    | some senderIdx =>
      simp only
      cases hmacs : r.verifyMacs P senderIdx srcAddr src now with
      | mk refusal r'' =>
        obtain ⟨hsame, hlast, hcases⟩ := verifyMacs_cases hmacs
        cases refusal with
        | some refusal =>
          refine ⟨hsame.limit, hlast, ?_⟩
          rcases hcases with ⟨-, hcount, -⟩ | ⟨hcount, -, -⟩
          · exact .inl ⟨hcount, rfl⟩
          · exact .inr ⟨hcount, fun h => by cases h⟩
        | none =>
          refine ⟨hsame.limit, hlast, ?_⟩
          rcases hcases with ⟨hne, -⟩ | ⟨hcount, -, hpass⟩
          · exact absurd rfl hne
          · refine .inr ⟨hcount, fun h => ?_⟩
            rcases hpass.1 rfl with hlt | ⟨addr, rfl, hproves⟩
            · exact hlt
            · simp [hproves] at h

theorem Paced.step {limit start n later : ℕ} {s : RateLimiter × ℕ} {e : Event}
    (h : Paced limit start n now s) (hle : now ≤ later) (hn : n + 1 < u64) :
    Paced limit start (n + 1) later (RateLimiter.step P s (later, e)) := by
  obtain ⟨resets, hresets, hpassed⟩ := h.passed
  have hcount := h.count
  have hlast := h.last
  cases e with
  | reset =>
    simp only [RateLimiter.step, resetCount]
    split
    · next hperiod =>
      -- a second has passed since the last reset
      have hsecond : s.1.lastReset + 1000000000 ≤ later := by
        simp only [resetPeriod, ge_iff_le] at hperiod
        omega
      have hnext : start + (resets + 1) * 1000000000 ≤ later :=
        calc start + (resets + 1) * 1000000000
            = start + resets * 1000000000 + 1000000000 := by rw [Nat.succ_mul, Nat.add_assoc]
          _ ≤ s.1.lastReset + 1000000000 := Nat.add_le_add_right hresets _
          _ ≤ later := hsecond
      have hroom : s.2 + (limit - 0) ≤ limit * (resets + 1 + 1) := by
        rw [Nat.mul_succ limit (resets + 1)]
        omega
      exact
        { limited := h.limited, started := (h.started.trans hlast).trans hle, last := le_refl later
          count := Nat.zero_le _, passed := ⟨resets + 1, hnext, hroom⟩ }
    · exact ⟨h.limited, h.started, hlast.trans hle, hcount.trans (Nat.le_succ n), resets, hresets,
        hpassed⟩
  | datagram srcAddr src =>
    obtain ⟨hlimit, hreset, hcases⟩ := verifyPacket_counts (P := P) s.1 srcAddr src later
    simp only [RateLimiter.step]
    refine ⟨hlimit.trans h.limited, hreset ▸ h.started, hreset ▸ hlast.trans hle, ?_, resets,
      hreset ▸ hresets, ?_⟩
    · rcases hcases with ⟨hsame, -⟩ | ⟨hmore, -⟩
      · rw [hsame]
        omega
      · rw [hmore, Nat.mod_eq_of_lt (by omega)]
        omega
    · rcases hcases with ⟨hsame, hproof⟩ | ⟨hmore, hbelow⟩
      · rw [hsame, hproof]
        simpa using hpassed
      · rw [hmore, Nat.mod_eq_of_lt (by omega)]
        have hlimited := h.limited
        by_cases hpasses : passesUnproven P s.1 srcAddr src later = true
        · have hlt := hbelow hpasses
          rw [if_pos hpasses]
          omega
        · rw [if_neg hpasses]
          omega

theorem Paced.run {limit start n : ℕ} {s : RateLimiter × ℕ} {es : List (ℕ × Event)}
    (h : Paced limit start n now s) (hafter : ∀ e ∈ es, now ≤ e.1)
    (hordered : es.Pairwise fun e e' => e.1 ≤ e'.1) (hn : n + es.length < u64) {finish : ℕ}
    (hnow : now ≤ finish) (hfinish : ∀ e ∈ es, e.1 ≤ finish) :
    Paced limit start (n + es.length) finish (Transition.run (RateLimiter.step P) s es) := by
  induction es generalizing s n now with
  | nil => exact ⟨h.limited, h.started, h.last.trans hnow, h.count, h.passed⟩
  | cons e es ih =>
    obtain ⟨hfirst, hrest⟩ := List.pairwise_cons.1 hordered
    rw [List.length_cons] at hn ⊢
    have hstep := h.step (P := P) (e := e.2) (hafter e (by simp)) (by omega)
    have hall := ih hstep hfirst hrest (by omega) (hfinish e (by simp))
      fun e' he' => hfinish e' (by simp [he'])
    have hsum : n + (es.length + 1) = n + 1 + es.length := by omega
    rw [hsum]
    exact hall

/-- **At most the limit in a second**: whatever datagrams arrive, and however often the count is
reset, the handshake messages that pass without proving their address are at most the limit for each
second since the start, and once more the limit. -/
theorem passed_le (P : LimiterPrimitives) (publicKey nonceKey secretKey : Bytes)
    (limit start finish : ℕ) (es : List (ℕ × Event)) (hstart : start ≤ finish)
    (htimes : ∀ e ∈ es, start ≤ e.1 ∧ e.1 ≤ finish) (hordered : es.Pairwise fun e e' => e.1 ≤ e'.1)
    (hn : es.length < u64) :
    (Transition.run (step P) (.new P publicKey limit nonceKey secretKey start, 0) es).2 ≤
      limit * ((finish - start) / 1000000000 + 1) := by
  have hnew : Paced limit start 0 start
      (RateLimiter.new P publicKey limit nonceKey secretKey start, 0) :=
    ⟨rfl, le_refl _, le_refl _, le_refl _, 0, by simp [new], by simp [new]⟩
  have h := hnew.run (P := P) (fun e he => (htimes e he).1) hordered (by omega) hstart
    fun e he => (htimes e he).2
  obtain ⟨resets, hresets, hpassed⟩ := h.passed
  have hlast := h.last
  have hseconds : resets ≤ (finish - start) / 1000000000 := by omega
  calc _ ≤ limit * (resets + 1) := by omega
    _ ≤ limit * ((finish - start) / 1000000000 + 1) :=
        Nat.mul_le_mul_left limit (Nat.succ_le_succ hseconds)

/-- An initiation for the end with the secret key 2. -/
def sampleMessage : Bytes :=
  match (Handshake.new samplePrimitives [1] (samplePrimitives.publicKey [1])
      (samplePrimitives.publicKey [2]) 256 none ⟨1700000000000000000, 0⟩).formatHandshakeInitiation
        samplePrimitives [3] 5 2048 with
  | (.ok message, _) => message
  | _ => []

/-- Three initiations arrive in a second, then the count is reset, and one more arrives. -/
def sampleLoad : List (ℕ × Event) :=
  [(1200000000, .datagram none sampleMessage), (1300000000, .datagram none sampleMessage),
    (1400000000, .datagram none sampleMessage), (2000000000, .reset),
    (2100000000, .datagram none sampleMessage)]

theorem run_sampleLoad : (Transition.run (step sampleLimiter)
    (.new sampleLimiter (samplePrimitives.publicKey [2]) 2 [8] [9] 1000000000, 0)
      sampleLoad).2 = 3 := by
  decide +kernel

/-- With a limit of 2 the third of four initiations is refused. -/
theorem passed_le_sample :
    let passed := (Transition.run (step sampleLimiter)
      (.new sampleLimiter (samplePrimitives.publicKey [2]) 2 [8] [9] 1000000000, 0)
        sampleLoad).2
    passed = 3 ∧ passed ≤ 2 * ((2100000000 - 1000000000) / 1000000000 + 1) :=
  ⟨run_sampleLoad, passed_le sampleLimiter (samplePrimitives.publicKey [2]) [8] [9] 2 1000000000
    2100000000 sampleLoad (by decide) (by simp [sampleLoad]) (by simp [sampleLoad]) (by decide)⟩

end RateLimiter

end Tailcat.Noise
