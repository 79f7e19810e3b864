import Mathlib.Data.List.Basic

/-!
# Decoders of item streams

A `Decoder` takes one item off the front of a list of symbols.  It answers `item` with the
symbols left over, `starved` when the symbols do not make up an item yet, and `bad` when no
continuation can.  Its three laws say that an answer other than `starved` does not depend on
what follows, and that an item uses up at least one symbol.

* `Decoder.drain` decodes a complete stream: all the items, and the error it stops on.
* `Decoder.run` is the incremental use of a decoder: symbols are fed to a queue in arbitrary
  chunks, between arbitrary polls for the next item.
* `Decoder.drain_run` : whatever the chunks and the polls, the items polled so far followed by
  the items still in the queue are the items of the stream fed so far.
* `Decoder.run_polls` : polling often enough takes everything there is.
-/

namespace ItemStream

/-- What a decoder makes of the symbols it is given. -/
inductive Outcome (α β ε : Type*) where
  /-- An item, and the symbols after it. -/
  | item (b : β) (rest : List α)
  /-- The symbols end before the item does. -/
  | starved
  /-- No continuation of the symbols starts with an item. -/
  | bad (e : ε)

/-- A decoder of one item from the front of a list of symbols. -/
structure Decoder (α β ε : Type*) where
  /-- Decode one item. -/
  decode : List α → Outcome α β ε
  /-- An item does not depend on what follows it. -/
  item_append : ∀ {xs b rest}, decode xs = .item b rest →
    ∀ ys, decode (xs ++ ys) = .item b (rest ++ ys)
  /-- An error does not depend on what follows it. -/
  bad_append : ∀ {xs e}, decode xs = .bad e → ∀ ys, decode (xs ++ ys) = .bad e
  /-- An item takes at least one symbol. -/
  item_length : ∀ {xs b rest}, decode xs = .item b rest → rest.length < xs.length

namespace Decoder

variable {α β ε : Type*} (d : Decoder α β ε)

/-! ### Decoding a complete stream -/

/-- At most `n` items of a stream, and the error the decoder stopped on, if any. -/
def drainN : ℕ → List α → List β × Option ε
  | 0, _ => ([], none)
  | n + 1, xs =>
    match d.decode xs with
    | .item b rest => (b :: (drainN n rest).1, (drainN n rest).2)
    | .starved => ([], none)
    | .bad e => ([], some e)

/-- All the items of a stream, and the error the decoder stopped on, if any. -/
def drain (xs : List α) : List β × Option ε := d.drainN (xs.length + 1) xs

variable {d}

/-- The bound does not matter once it exceeds the number of symbols. -/
theorem drainN_congr {n m : ℕ} {xs : List α} (hn : xs.length < n) (hm : xs.length < m) :
    d.drainN n xs = d.drainN m xs := by
  induction n generalizing m xs with
  | zero => omega
  | succ n ih =>
    obtain _ | m := m
    · omega
    · simp only [drainN]
      cases hd : d.decode xs with
      | item b rest =>
        have hlt := d.item_length hd
        have hrest : d.drainN n rest = d.drainN m rest := ih (by omega) (by omega)
        simp only [hrest]
      | starved => rfl
      | bad e => rfl

theorem drain_item {xs rest : List α} {b : β} (h : d.decode xs = .item b rest) :
    d.drain xs = (b :: (d.drain rest).1, (d.drain rest).2) := by
  have hn : d.drainN xs.length rest = d.drain rest :=
    drainN_congr (d.item_length h) (Nat.lt_succ_self _)
  rw [drain, drainN, h]
  simp only [hn]

theorem drain_starved {xs : List α} (h : d.decode xs = .starved) : d.drain xs = ([], none) := by
  rw [drain, drainN, h]

theorem drain_bad {xs : List α} {e : ε} (h : d.decode xs = .bad e) :
    d.drain xs = ([], some e) := by
  rw [drain, drainN, h]

/-- Decoding a concatenation of encodings, each of which decodes to its item. -/
theorem drain_flatMap {enc : β → List α} (bs : List β)
    (h : ∀ b ∈ bs, ∀ ys, d.decode (enc b ++ ys) = .item b ys) (h0 : d.decode [] = .starved) :
    d.drain (bs.flatMap enc) = (bs, none) := by
  induction bs with
  | nil => exact drain_starved h0
  | cons b bs ih =>
    rw [List.flatMap_cons, drain_item (h b List.mem_cons_self _),
      ih fun c hc => h c (List.mem_cons_of_mem _ hc)]

/-! ### Incremental decoding -/

/-- What happens at the queue of an incremental decoder. -/
inductive Event (α : Type*) where
  /-- A chunk of symbols arrives. -/
  | feed (xs : List α)
  /-- The next item is asked for. -/
  | poll

/-- The symbols that arrive in a list of events. -/
def fed : List (Event α) → List α
  | [] => []
  | .feed xs :: evs => xs ++ fed evs
  | .poll :: evs => fed evs

variable (d)

/-- Ask for the next item: the answer, and the queue afterwards. -/
def poll (q : List α) : Except ε (Option β) × List α :=
  match d.decode q with
  | .item b rest => (.ok (some b), rest)
  | .starved => (.ok none, q)
  | .bad e => (.error e, q)

/-- Run a list of events: the answers to the polls, and the queue afterwards. -/
def run (q : List α) : List (Event α) → List (Except ε (Option β)) × List α
  | [] => ([], q)
  | .feed xs :: evs => run (q ++ xs) evs
  | .poll :: evs => ((d.poll q).1 :: (run (d.poll q).2 evs).1, (run (d.poll q).2 evs).2)

/-- The items among the answers to polls. -/
def items : List (Except ε (Option β)) → List β :=
  List.filterMap fun r => match r with
    | .ok b => b
    | .error _ => none

variable {d}

/-- **Chunking and polling lose nothing, invent nothing and keep the order.**  The items polled
so far, followed by what is still in the queue, are the items of the whole stream. -/
theorem drain_run (q : List α) (evs : List (Event α)) :
    d.drain (q ++ fed evs) =
      (items (d.run q evs).1 ++ (d.drain (d.run q evs).2).1, (d.drain (d.run q evs).2).2) := by
  induction evs generalizing q with
  | nil => simp [fed, run, items]
  | cons ev evs ih =>
    cases ev with
    | feed xs =>
      rw [fed, run, ← List.append_assoc]
      exact ih (q ++ xs)
    | poll =>
      rw [fed, run, poll]
      cases hd : d.decode q with
      | item b rest =>
        rw [drain_item (d.item_append hd _), ih rest]
        simp [items]
      | starved => rw [ih q]; simp [items]
      | bad e => rw [ih q]; simp [items]

/-- **Polling often enough takes everything.**  The items are those of the queue, and what is
left in the queue decodes to nothing but the error, if there is one. -/
theorem run_polls {n : ℕ} {q : List α} (h : (d.drain q).1.length ≤ n) :
    items (d.run q (List.replicate n .poll)).1 = (d.drain q).1 ∧
      d.drain (d.run q (List.replicate n .poll)).2 = ([], (d.drain q).2) := by
  induction n generalizing q with
  | zero =>
    have h0 : (d.drain q).1 = [] := List.length_eq_zero_iff.1 (by omega)
    exact ⟨by simp [run, items, h0], by simp [run, ← h0]⟩
  | succ n ih =>
    rw [List.replicate_succ, run, poll]
    cases hd : d.decode q with
    | item b rest =>
      rw [drain_item hd] at h ⊢
      obtain ⟨h1, h2⟩ := ih (q := rest) (by simpa using h)
      exact ⟨by simpa [items] using h1, h2⟩
    | starved =>
      have hq := drain_starved hd
      obtain ⟨h1, h2⟩ := ih (q := q) (by simp [hq])
      exact ⟨by simpa [items] using h1, h2⟩
    | bad e =>
      have hq := drain_bad hd
      obtain ⟨h1, h2⟩ := ih (q := q) (by simp [hq])
      exact ⟨by simpa [items] using h1, h2⟩

/-- A poll that answers "not yet" leaves the queue alone. -/
theorem poll_none {q : List α} (h : (d.poll q).1 = .ok none) : (d.poll q).2 = q := by
  rw [poll] at h ⊢
  cases hd : d.decode q with
  | item b rest => rw [hd] at h; simp at h
  | starved => rfl
  | bad e => rfl

end Decoder

end ItemStream
