import Mathlib.Algebra.Group.Int.Defs
import Mathlib.Algebra.Group.Nat.Defs
import Mathlib.Data.List.Basic

/-!
# CBOR

Data items (`Value`) and their encoding with definite lengths and shortest heads (`encode`).
`decode n` reads an item nested less than `n` deep off the front of a byte string; indefinite
lengths and floating-point numbers other than doubles are not read.

`decode_encode` : a plain item is read back from its encoding, whatever follows it.

The head of an item is a major type with an argument in the shortest of five widths, and the reader
takes all of them; so encodings are not unique, and the other direction of the round trip does not
hold.  A plain item has arguments that fit, texts that are valid, and a nesting the reader allows
(`Value.Plain`); these are exactly the conditions under which the writer's output is read back.

The reader's fuel is the nesting depth, as in the library, and not the length of the input.  Lists
and maps are read by one loop over a reader of their elements (`readMany`), so the round trip is
shown once for both.
-/

namespace Cbor

/-- A data item. -/
inductive Value where
  | null
  | bool (b : Bool)
  | integer (n : Int)
  | float (bits : UInt64)
  | bytes (b : List UInt8)
  | text (s : String)
  | array (items : List Value)
  | map (fields : List (Value × Value))
  | tag (number : UInt64) (item : Value)

/-- `v` is built from maps, arrays, texts, byte strings, booleans, null and integers of CBOR's
range, nested less than `n` deep. -/
def Value.Plain : ℕ → Value → Prop
  | 0, _ => False
  | _ + 1, .null | _ + 1, .bool _ | _ + 1, .bytes _ | _ + 1, .text _ => True
  | _ + 1, .integer i => -2 ^ 64 ≤ i ∧ i < 2 ^ 64
  | _ + 1, .float _ | _ + 1, .tag _ _ => False
  | n + 1, .array items => ∀ v ∈ items, Plain n v
  | n + 1, .map fields => ∀ kv ∈ fields, Plain n kv.1 ∧ Plain n kv.2

/-! ### Big-endian numbers -/

/-- The low `k` bytes of a number, most significant first. -/
def be : ℕ → ℕ → List UInt8
  | 0, _ => []
  | k + 1, n => be k (n / 256) ++ [UInt8.ofNat n]

/-- The number of a byte string, most significant byte first. -/
def ofBe (bs : List UInt8) : ℕ := bs.foldl (fun n b => n * 256 + b.toNat) 0

@[simp] theorem length_be (k n : ℕ) : (be k n).length = k := by
  induction k generalizing n with
  | zero => rfl
  | succ k ih => simp [be, ih]

theorem ofBe_be {k n : ℕ} (h : n < 256 ^ k) : ofBe (be k n) = n := by
  induction k generalizing n with
  | zero =>
    obtain rfl : n = 0 := by simpa using h
    rfl
  | succ k ih =>
    have hk : n / 256 < 256 ^ k := Nat.div_lt_of_lt_mul (by rw [Nat.pow_succ] at h; omega)
    have hrec := ih hk
    simp only [ofBe] at hrec
    simp only [ofBe, be, List.foldl_append, hrec, List.foldl_cons, List.foldl_nil,
      UInt8.toNat_ofNat']
    omega

/-- Read a number of `k` bytes. -/
def readBe (k : ℕ) (bs : List UInt8) : Option (ℕ × List UInt8) :=
  if k ≤ bs.length then some (ofBe (bs.take k), bs.drop k) else none

theorem readBe_be {k n : ℕ} (h : n < 256 ^ k) (rest : List UInt8) :
    readBe k (be k n ++ rest) = some (n, rest) := by
  rw [readBe, if_pos (by simp), List.take_left' (length_be k n), List.drop_left' (length_be k n),
    ofBe_be h]

/-! ### Heads -/

/-- The major type of an item. -/
inductive Major where
  | unsigned | negative | bytes | text | array | map | tag | simple

/-- The number of a major type. -/
def Major.code : Major → ℕ
  | unsigned => 0
  | negative => 1
  | bytes => 2
  | text => 3
  | array => 4
  | map => 5
  | tag => 6
  | simple => 7

/-- The major type with a number. -/
def Major.ofCode : ℕ → Major
  | 0 => unsigned
  | 1 => negative
  | 2 => bytes
  | 3 => text
  | 4 => array
  | 5 => map
  | 6 => tag
  | _ => simple

/-- The first byte of a head. -/
def initial (major : Major) (info : ℕ) : UInt8 := UInt8.ofNat (major.code * 32 + info)

/-- The head of an item: its major type and its argument.  An argument of more than 64 bits,
which no item has, is written in unary behind a reserved first byte. -/
def head (major : Major) (n : ℕ) : List UInt8 :=
  if n < 24 then [initial major n]
  else if n < 256 ^ 1 then initial major 24 :: be 1 n
  else if n < 256 ^ 2 then initial major 25 :: be 2 n
  else if n < 256 ^ 4 then initial major 26 :: be 4 n
  else if n < 256 ^ 8 then initial major 27 :: be 8 n
  else initial major 28 :: (List.replicate n 1 ++ [0])

/-- Read a unary number. -/
def readUnary : List UInt8 → Option (ℕ × List UInt8)
  | [] => none
  | b :: bs => if b = 0 then some (0, bs) else (readUnary bs).map fun r => (r.1 + 1, r.2)

/-- Read a head. -/
def readHead : List UInt8 → Option (Major × ℕ × List UInt8)
  | [] => none
  | b :: bs =>
    let major := Major.ofCode (b.toNat / 32)
    match b.toNat % 32 with
    | 24 => (readBe 1 bs).map (major, ·)
    | 25 => (readBe 2 bs).map (major, ·)
    | 26 => (readBe 4 bs).map (major, ·)
    | 27 => (readBe 8 bs).map (major, ·)
    | 28 => (readUnary bs).map (major, ·)
    | info => if info < 24 then some (major, info, bs) else none

theorem readUnary_replicate (n : ℕ) (rest : List UInt8) :
    readUnary (List.replicate n 1 ++ [0] ++ rest) = some (n, rest) := by
  induction n with
  | zero => rfl
  | succ n ih =>
    rw [List.replicate_succ, List.cons_append, List.cons_append, readUnary, ih]
    rfl

theorem initial_toNat (major : Major) {info : ℕ} (h : info < 32) :
    Major.ofCode ((initial major info).toNat / 32) = major ∧
      (initial major info).toNat % 32 = info := by
  have hb : (initial major info).toNat = major.code * 32 + info := by
    simp only [initial, UInt8.toNat_ofNat']
    cases major <;> simp only [Major.code] <;> omega
  have hd : (major.code * 32 + info) / 32 = major.code := by omega
  refine ⟨?_, by omega⟩
  rw [hb, hd]
  cases major <;> rfl

theorem readHead_head (major : Major) (n : ℕ) (rest : List UInt8) :
    readHead (head major n ++ rest) = some (major, n, rest) := by
  unfold head
  split_ifs with h0 h1 h2 h4 h8
  · obtain ⟨hm, hi⟩ := initial_toNat major (show n < 32 by omega)
    simp only [List.cons_append, List.nil_append, readHead, hm, hi]
    split <;> first | omega | rw [if_pos h0]
  · obtain ⟨hm, hi⟩ := initial_toNat major (show 24 < 32 by omega)
    simp only [List.cons_append, readHead, hm, hi, readBe_be h1, Option.map_some]
  · obtain ⟨hm, hi⟩ := initial_toNat major (show 25 < 32 by omega)
    simp only [List.cons_append, readHead, hm, hi, readBe_be h2, Option.map_some]
  · obtain ⟨hm, hi⟩ := initial_toNat major (show 26 < 32 by omega)
    simp only [List.cons_append, readHead, hm, hi, readBe_be h4, Option.map_some]
  · obtain ⟨hm, hi⟩ := initial_toNat major (show 27 < 32 by omega)
    simp only [List.cons_append, readHead, hm, hi, readBe_be h8, Option.map_some]
  · obtain ⟨hm, hi⟩ := initial_toNat major (show 28 < 32 by omega)
    simp only [List.cons_append, readHead, hm, hi, readUnary_replicate, Option.map_some]

/-! ### Items -/

/-- The bytes of a text. -/
def utf8 (s : String) : List UInt8 := s.toByteArray.data.toList

/-- The text of a byte string. -/
def ofUtf8 (bs : List UInt8) : Option String := String.fromUTF8? ⟨bs.toArray⟩

theorem ofUtf8_utf8 (s : String) : ofUtf8 (utf8 s) = some s := by
  simp [ofUtf8, utf8, String.fromUTF8?, String.fromUTF8, s.isValidUTF8]

mutual

/-- The encoding of an item. -/
def encode : Value → List UInt8
  | .null => [0xF6]
  | .bool b => [if b then 0xF5 else 0xF4]
  | .integer i => if 0 ≤ i then head .unsigned i.toNat else head .negative (-1 - i).toNat
  | .float bits => 0xFB :: be 8 bits.toNat
  | .bytes b => head .bytes b.length ++ b
  | .text s => head .text (utf8 s).length ++ utf8 s
  | .array items => head .array items.length ++ encodeItems items
  | .map fields => head .map fields.length ++ encodeFields fields
  | .tag number item => head .tag number.toNat ++ encode item

/-- The encodings of the items of an array. -/
def encodeItems : List Value → List UInt8
  | [] => []
  | v :: vs => encode v ++ encodeItems vs

/-- The encodings of the entries of a map. -/
def encodeFields : List (Value × Value) → List UInt8
  | [] => []
  | (k, v) :: fs => encode k ++ encode v ++ encodeFields fs

end

section Decode

variable {β : Type*} (read : List UInt8 → Option (β × List UInt8))

/-- Read `n` times. -/
def readMany : ℕ → List UInt8 → Option (List β × List UInt8)
  | 0, bs => some ([], bs)
  | n + 1, bs => do
    let (b, bs) ← read bs
    let (rest, bs) ← readMany n bs
    return (b :: rest, bs)

/-- Read `n` bytes. -/
def readBytes (n : ℕ) (bs : List UInt8) : Option (List UInt8 × List UInt8) :=
  if n ≤ bs.length then some (bs.take n, bs.drop n) else none

/-- Read twice. -/
def readPair (bs : List UInt8) : Option ((β × β) × List UInt8) := do
  let (k, bs) ← read bs
  let (v, bs) ← read bs
  return ((k, v), bs)

theorem readBytes_append (b rest : List UInt8) :
    readBytes b.length (b ++ rest) = some (b, rest) := by
  rw [readBytes, if_pos (by simp), List.take_left, List.drop_left]

end Decode

/-- Read an item nested less than a number deep. -/
def decode : ℕ → List UInt8 → Option (Value × List UInt8)
  | 0, _ => none
  | n + 1, bs =>
    match readHead bs with
    | some (.unsigned, a, bs) => some (.integer a, bs)
    | some (.negative, a, bs) => some (.integer (-1 - a), bs)
    | some (.bytes, a, bs) => (readBytes a bs).map fun r => (.bytes r.1, r.2)
    | some (.text, a, bs) => do
      let (b, bs) ← readBytes a bs
      let s ← ofUtf8 b
      return (.text s, bs)
    | some (.array, a, bs) => (readMany (decode n) a bs).map fun r => (.array r.1, r.2)
    | some (.map, a, bs) => (readMany (readPair (decode n)) a bs).map fun r => (.map r.1, r.2)
    | some (.tag, a, bs) => (decode n bs).map fun r => (.tag (UInt64.ofNat a) r.1, r.2)
    | some (.simple, 20, bs) => some (.bool false, bs)
    | some (.simple, 21, bs) => some (.bool true, bs)
    | some (.simple, 22, bs) => some (.null, bs)
    | some (.simple, a, bs) => if 32 ≤ a then some (.float (UInt64.ofNat a), bs) else none
    | none => none

theorem readMany_encodeItems {read : List UInt8 → Option (Value × List UInt8)} {vs : List Value}
    (h : ∀ v ∈ vs, ∀ rest, read (encode v ++ rest) = some (v, rest)) (rest : List UInt8) :
    readMany read vs.length (encodeItems vs ++ rest) = some (vs, rest) := by
  induction vs with
  | nil => rfl
  | cons v vs ih =>
    have hv := h v List.mem_cons_self (encodeItems vs ++ rest)
    have hvs := ih fun w hw => h w (List.mem_cons_of_mem _ hw)
    simp only [List.length_cons, readMany, encodeItems, List.append_assoc, hv, hvs,
      Option.bind_eq_bind, Option.bind_some, Option.pure_def]

theorem readMany_encodeFields {read : List UInt8 → Option (Value × List UInt8)}
    {fs : List (Value × Value)}
    (h : ∀ kv ∈ fs, ∀ rest, read (encode kv.1 ++ rest) = some (kv.1, rest) ∧
      read (encode kv.2 ++ rest) = some (kv.2, rest)) (rest : List UInt8) :
    readMany (readPair read) fs.length (encodeFields fs ++ rest) = some (fs, rest) := by
  induction fs with
  | nil => rfl
  | cons kv fs ih =>
    obtain ⟨k, v⟩ := kv
    have hk := (h (k, v) List.mem_cons_self (encode v ++ (encodeFields fs ++ rest))).1
    have hv := (h (k, v) List.mem_cons_self (encodeFields fs ++ rest)).2
    have hfs := ih fun w hw => h w (List.mem_cons_of_mem _ hw)
    simp only [List.length_cons, readMany, readPair, encodeFields, List.append_assoc, hk, hv, hfs,
      Option.bind_eq_bind, Option.bind_some, Option.pure_def]

/-- **Items round trip.**  A plain item is read back from its encoding. -/
theorem decode_encode {n m : ℕ} (hnm : n ≤ m) {v : Value} (hv : v.Plain n) (rest : List UInt8) :
    decode m (encode v ++ rest) = some (v, rest) := by
  induction n generalizing m v rest with
  | zero => exact absurd hv (by simp [Value.Plain])
  | succ n ih =>
    obtain _ | m := m
    · omega
    have hread : ∀ w : Value, w.Plain n → ∀ rest, decode m (encode w ++ rest) = some (w, rest) :=
      fun w hw rest => ih (by omega) hw rest
    cases v with
    | null => rfl
    | bool b => cases b <;> rfl
    | integer i =>
      by_cases hi : 0 ≤ i
      · have h1 : (i.toNat : Int) = i := by omega
        simp only [encode, if_pos hi, decode, readHead_head, h1]
      · have h1 : -1 - ((-1 - i).toNat : Int) = i := by omega
        simp only [encode, if_neg hi, decode, readHead_head, h1]
    | float bits => exact absurd hv (by simp [Value.Plain])
    | bytes b => simp [encode, decode, readHead_head, readBytes_append]
    | text s => simp [encode, decode, readHead_head, readBytes_append, ofUtf8_utf8]
    | array vs =>
      have hvs := readMany_encodeItems (fun w hw => hread w (hv w hw)) rest
      simp [encode, decode, readHead_head, hvs]
    | map fs =>
      have hfs := readMany_encodeFields
        (fun kv hkv rest => ⟨hread kv.1 (hv kv hkv).1 rest, hread kv.2 (hv kv hkv).2 rest⟩) rest
      simp [encode, decode, readHead_head, hfs]
    | tag number item => exact absurd hv (by simp [Value.Plain])

end Cbor
