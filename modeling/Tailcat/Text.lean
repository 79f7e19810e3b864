import Tailcat.Bytes
import Mathlib.Data.Char
import Mathlib.Data.List.TakeWhile

/-!
# Text as the Rust standard library reads it

The functions of `str` and `char` the program uses, on lists of characters: `from_utf8`, `lines`,
`split_whitespace`, `split_once`, `trim` and `eq_ignore_ascii_case`.  White space is the Unicode
property `White_Space`, as for `char::is_whitespace`.

Text is a list of characters here and bytes where it comes from a network.  `fromUtf8` is the strict
decoder, which refuses overlong forms and surrogates, and it gives back every text that was encoded
(`fromUtf8_utf8`); `fromUtf8Lossy` puts one replacement character for each longest part of a
sequence that cannot be continued, as the standard library does.

The lemmas on splitting and trimming are those that the parsers of the program need: that a text
without the separator is one part, that the parts of a concatenation are the parts of both, and that
trimming removes nothing but white space.
-/

namespace Tailcat

/-! ### UTF-8 -/

/-- `b` is a continuation byte. -/
def isContinuation (b : UInt8) : Bool := 0x80 ≤ b.toNat && b.toNat ≤ 0xBF

/-- The low six bits of a continuation byte. -/
def continuationBits (b : UInt8) : ℕ := b.toNat % 64

/-- `str::from_utf8`: the characters of a well-formed UTF-8 byte string, overlong forms,
surrogates and numbers above `U+10FFFF` being rejected. -/
def fromUtf8 : Bytes → Option (List Char)
  | [] => some []
  | a :: rest =>
    if a.toNat < 0x80 then
      (fromUtf8 rest).map (Char.ofNat a.toNat :: ·)
    else if 0xC2 ≤ a.toNat ∧ a.toNat ≤ 0xDF then
      match rest with
      | b :: rest =>
        if isContinuation b then
          (fromUtf8 rest).map (Char.ofNat ((a.toNat - 0xC0) * 64 + continuationBits b) :: ·)
        else none
      | _ => none
    else if 0xE0 ≤ a.toNat ∧ a.toNat ≤ 0xEF then
      match rest with
      | b :: c :: rest =>
        let n := (a.toNat - 0xE0) * 4096 + continuationBits b * 64 + continuationBits c
        if isContinuation b && isContinuation c && 0x800 ≤ n && !(0xD800 ≤ n && n ≤ 0xDFFF) then
          (fromUtf8 rest).map (Char.ofNat n :: ·)
        else none
      | _ => none
    else if 0xF0 ≤ a.toNat ∧ a.toNat ≤ 0xF4 then
      match rest with
      | b :: c :: d :: rest =>
        let n := (a.toNat - 0xF0) * 262144 + continuationBits b * 4096 +
          continuationBits c * 64 + continuationBits d
        if isContinuation b && isContinuation c && isContinuation d && 0x10000 ≤ n &&
            n ≤ 0x10FFFF then
          (fromUtf8 rest).map (Char.ofNat n :: ·)
        else none
      | _ => none
    else none

/-- The bytes of a text. -/
def utf8 (s : List Char) : Bytes := s.flatMap String.utf8EncodeChar

/-- A byte that may be the second of a sequence with this first byte. -/
def isSecond (a b : UInt8) : Bool :=
  let low := if a = 0xE0 then 0xA0 else if a = 0xF0 then 0x90 else 0x80
  let high := if a = 0xED then 0x9F else if a = 0xF4 then 0x8F else 0xBF
  low ≤ b.toNat && b.toNat ≤ high

/-- The number of bytes of a sequence that begins with this byte, if one may. -/
def sequenceLength (a : UInt8) : Option ℕ :=
  if a.toNat < 0x80 then some 1
  else if 0xC2 ≤ a.toNat ∧ a.toNat ≤ 0xDF then some 2
  else if 0xE0 ≤ a.toNat ∧ a.toNat ≤ 0xEF then some 3
  else if 0xF0 ≤ a.toNat ∧ a.toNat ≤ 0xF4 then some 4
  else none

/-- The number of bytes at the front of `a :: rest` that begin a sequence, at least one. -/
def sequencePrefix (a : UInt8) (rest : Bytes) : ℕ :=
  match sequenceLength a, rest with
  | some (n + 2), b :: rest =>
    if isSecond a b then 2 + ((rest.take n).takeWhile isContinuation).length else 1
  | _, _ => 1

/-- `String::from_utf8_lossy`, of at most `n` sequences: where no sequence is complete, the bytes
that begin one are replaced together. -/
def fromUtf8LossyN : ℕ → Bytes → List Char
  | 0, _ => []
  | _, [] => []
  | n + 1, a :: rest =>
    let length := sequencePrefix a rest
    let char := (fromUtf8 ((a :: rest).take length)).bind List.head?
    char.getD (Char.ofNat 0xFFFD) :: fromUtf8LossyN n ((a :: rest).drop length)

/-- `String::from_utf8_lossy`. -/
def fromUtf8Lossy (b : Bytes) : List Char := fromUtf8LossyN b.length b

/-- A character whose bytes are all ASCII is one of them. -/
theorem toNat_of_ascii {c : Char} (h : ∀ b ∈ String.utf8EncodeChar c, b.toNat < 128) :
    ∃ b, String.utf8EncodeChar c = [b] ∧ b.toNat = c.toNat := by
  simp only [String.utf8EncodeChar] at h ⊢
  split_ifs at h ⊢ with h1 h2 h3
  · refine ⟨_, rfl, ?_⟩
    have hc : c.val.toNat = c.toNat := rfl
    simp only [UInt8.toNat_ofNat']
    omega
  all_goals
    -- the first byte of a longer sequence is not ASCII
    have hfirst := h _ List.mem_cons_self
    simp only [UInt8.toNat_ofNat'] at hfirst
    omega

/-- The bytes of a character are read back. -/
theorem fromUtf8_utf8EncodeChar (c : Char) (rest : Bytes) :
    fromUtf8 (String.utf8EncodeChar c ++ rest) = (fromUtf8 rest).map (c :: ·) := by
  have hvalid : c.toNat < 0xD800 ∨ 0xDFFF < c.toNat ∧ c.toNat < 0x110000 := c.valid
  have hval : c.val.toNat = c.toNat := rfl
  have hchar : ∀ n, n = c.toNat → Char.ofNat n = c := by
    rintro _ rfl
    exact Char.ofNat_toNat c
  have hbyte : ∀ n, n < 256 → (UInt8.ofNat n).toNat = n := fun n hn => by
    rw [UInt8.toNat_ofNat', Nat.mod_eq_of_lt hn]
  -- one case for each length of the sequence
  simp only [String.utf8EncodeChar, hval]
  split_ifs with h1 h2 h3
  all_goals simp only [List.cons_append, List.nil_append]
  all_goals rw [fromUtf8.eq_def]
  all_goals simp (disch := omega) only [hbyte, isContinuation, continuationBits]
  · rw [if_pos (by omega), hchar _ rfl]
  · rw [if_neg (by omega), if_pos (by omega), if_pos (by simp; omega), hchar _ (by omega)]
  · rw [if_neg (by omega), if_neg (by omega), if_pos (by omega), if_pos (by simp; omega),
      hchar _ (by omega)]
  · rw [if_neg (by omega), if_neg (by omega), if_neg (by omega), if_pos (by omega),
      if_pos (by simp; omega), hchar _ (by omega)]

/-- A text is read back from its bytes. -/
theorem fromUtf8_utf8 (s : List Char) : fromUtf8 (utf8 s) = some s := by
  induction s with
  | nil => simp [utf8, fromUtf8]
  | cons c s ih =>
    rw [utf8, List.flatMap_cons, fromUtf8_utf8EncodeChar, ← utf8, ih, Option.map_some]

/-! ### White space and case -/

/-- `char::is_whitespace`. -/
def isWhitespace (c : Char) : Bool :=
  let n := c.toNat
  (9 ≤ n && n ≤ 13) || n == 0x20 || n == 0x85 || n == 0xA0 || n == 0x1680 ||
    (0x2000 ≤ n && n ≤ 0x200A) || n == 0x2028 || n == 0x2029 || n == 0x202F || n == 0x205F ||
    n == 0x3000

/-- `char::to_ascii_lowercase`. -/
def toAsciiLowercase (c : Char) : Char :=
  if 65 ≤ c.toNat ∧ c.toNat ≤ 90 then Char.ofNat (c.toNat + 32) else c

/-- `str::eq_ignore_ascii_case`. -/
def eqIgnoreAsciiCase (s t : List Char) : Bool :=
  s.map toAsciiLowercase == t.map toAsciiLowercase

/-- `str::trim`. -/
def trim (s : List Char) : List Char :=
  ((s.dropWhile isWhitespace).reverse.dropWhile isWhitespace).reverse

/-! ### Numbers -/

/-- The hexadecimal digits of a number, sixteen of them. -/
def hex16 (n : UInt64) : List Char :=
  let digits := Nat.toDigits 16 n.toNat
  List.replicate (16 - digits.length) '0' ++ digits

/-! ### Splitting -/

/-- `str::split` at a separator character: there is always at least one part. -/
def splitOn (sep : Char) : List Char → List (List Char)
  | [] => [[]]
  | c :: cs =>
    if c = sep then [] :: splitOn sep cs
    else match splitOn sep cs with
      | [] => [[c]]
      | part :: parts => (c :: part) :: parts

/-- A line without the carriage return it may end with. -/
def stripCarriageReturn (line : List Char) : List Char :=
  if line.getLast? = some '\r' then line.dropLast else line

/-- `str::lines`: the parts between line feeds, without a final empty part. -/
def lines (s : List Char) : List (List Char) :=
  let parts := splitOn '\n' s
  let parts := if parts.getLast? = some [] then parts.dropLast else parts
  parts.map stripCarriageReturn

/-- `str::split_whitespace`: the non-empty parts between white space. -/
def splitWhitespace (s : List Char) : List (List Char) :=
  (splitOn ' ' (s.map fun c => if isWhitespace c then ' ' else c)).filter fun part => part ≠ []

/-- `str::split_once` at a separator character. -/
def splitOnce (sep : Char) : List Char → Option (List Char × List Char)
  | [] => none
  | c :: cs =>
    if c = sep then some ([], cs) else (splitOnce sep cs).map fun p => (c :: p.1, p.2)

/-- `str::rsplit_once` at a separator character. -/
def rsplitOnce (sep : Char) (s : List Char) : Option (List Char × List Char) :=
  (splitOnce sep s.reverse).map fun p => (p.2.reverse, p.1.reverse)

/-! ### Parts -/

theorem splitOn_of_notMem {sep : Char} {s : List Char} (h : sep ∉ s) : splitOn sep s = [s] := by
  induction s with
  | nil => rfl
  | cons d s ih =>
    have hd : d ≠ sep := fun heq => h (by simp [heq])
    rw [splitOn, if_neg hd, ih fun hmem => h (by simp [hmem])]

theorem splitOn_ne_nil (sep : Char) (s : List Char) : splitOn sep s ≠ [] := by
  cases s with
  | nil => exact nofun
  | cons d s =>
    rw [splitOn]
    split_ifs
    · exact nofun
    · cases splitOn sep s <;> exact nofun

/-- A separator ends a part. -/
theorem splitOn_append (sep : Char) (s t : List Char) :
    splitOn sep (s ++ sep :: t) = splitOn sep s ++ splitOn sep t := by
  induction s with
  | nil => simp [splitOn]
  | cons d s ih =>
    rw [List.cons_append, splitOn, splitOn, ih]
    split_ifs
    · rfl
    · cases hs : splitOn sep s with
      | nil => exact absurd hs (splitOn_ne_nil sep s)
      | cons part parts => rfl

/-- After a final separator there is one more part, without text. -/
theorem splitOn_concat (sep : Char) (s : List Char) :
    splitOn sep (s ++ [sep]) = splitOn sep s ++ [[]] := splitOn_append sep s []

/-- The parts of a text are made of its characters. -/
theorem mem_of_mem_splitOn {sep d : Char} {s part : List Char} (hpart : part ∈ splitOn sep s)
    (hd : d ∈ part) : d ∈ s := by
  induction s generalizing part with
  | nil =>
    rw [splitOn, List.mem_singleton] at hpart
    rwa [hpart] at hd
  | cons e s ih =>
    rw [splitOn] at hpart
    split_ifs at hpart
    · rcases List.mem_cons.1 hpart with rfl | hpart
      · cases hd
      · exact List.mem_cons_of_mem e (ih hpart hd)
    · split at hpart
      · rw [List.mem_singleton] at hpart
        rw [hpart, List.mem_singleton] at hd
        rw [hd]
        exact List.mem_cons_self
      · rename_i first parts hs
        rcases List.mem_cons.1 hpart with rfl | hpart
        · rcases List.mem_cons.1 hd with rfl | hd
          · exact List.mem_cons_self
          · exact List.mem_cons_of_mem e (ih (by rw [hs]; exact List.mem_cons_self) hd)
        · exact List.mem_cons_of_mem e (ih (by rw [hs]; exact List.mem_cons_of_mem _ hpart) hd)

/-- No part has the separator in it. -/
theorem notMem_of_mem_splitOn {sep : Char} {s part : List Char} (h : part ∈ splitOn sep s) :
    sep ∉ part := by
  induction s generalizing part with
  | nil =>
    rw [splitOn, List.mem_singleton] at h
    rw [h]
    exact List.not_mem_nil
  | cons d s ih =>
    rw [splitOn] at h
    split_ifs at h with hd
    · rcases List.mem_cons.1 h with rfl | h
      · exact List.not_mem_nil
      · exact ih h
    · split at h
      · rw [List.mem_singleton.1 h, List.mem_singleton]
        exact Ne.symm hd
      · rename_i first parts hs
        rcases List.mem_cons.1 h with rfl | h
        · rw [List.mem_cons, not_or]
          exact ⟨Ne.symm hd, ih (by rw [hs]; exact List.mem_cons_self)⟩
        · exact ih (by rw [hs]; exact List.mem_cons_of_mem _ h)

/-! ### Trimming -/

section

variable {sep : Char} {s t : List Char}

/-- `trim` takes white space away at the front. -/
theorem trim_append_left (hs : ∀ c ∈ s, isWhitespace c = true) (t : List Char) :
    trim (s ++ t) = trim t := by
  rw [trim, trim, List.dropWhile_append_of_pos hs]

/-- `trim` takes white space away at the end. -/
theorem trim_append_right (s : List Char) (ht : ∀ c ∈ t, isWhitespace c = true) :
    trim (s ++ t) = trim s := by
  have hreverse : ∀ c ∈ t.reverse, isWhitespace c = true := fun c hc => ht c (List.mem_reverse.1 hc)
  rw [trim, trim, List.dropWhile_append]
  split_ifs with h
  · rw [List.isEmpty_iff.1 h, List.dropWhile_eq_nil_iff.2 ht]
  · rw [List.reverse_append, List.dropWhile_append_of_pos hreverse]

/-- A text is its trimmed part, between white space. -/
theorem exists_trim (s : List Char) : ∃ before after, s = before ++ trim s ++ after ∧
    (∀ c ∈ before, isWhitespace c = true) ∧ ∀ c ∈ after, isWhitespace c = true := by
  refine ⟨s.takeWhile isWhitespace,
    ((s.dropWhile isWhitespace).reverse.takeWhile isWhitespace).reverse, ?_, ?_, ?_⟩
  · rw [trim, List.append_assoc, ← List.reverse_append, List.takeWhile_append_dropWhile,
      List.reverse_reverse, List.takeWhile_append_dropWhile]
  · exact fun c hc => List.mem_takeWhile_imp hc
  · exact fun c hc => List.mem_takeWhile_imp (List.mem_reverse.1 hc)

/-- A text before the first separator belongs to the first part. -/
theorem map_trim_splitOn_append_left (hsep : sep ∉ s) (hs : ∀ c ∈ s, isWhitespace c = true)
    (t : List Char) : (splitOn sep (s ++ t)).map trim = (splitOn sep t).map trim := by
  induction s with
  | nil => rfl
  | cons c s ih =>
    obtain ⟨hc, hsep⟩ := not_or.1 (mt List.mem_cons.2 hsep)
    rw [← ih hsep fun d hd => hs d (List.mem_cons_of_mem c hd), List.cons_append, splitOn,
      if_neg (Ne.symm hc)]
    cases hparts : splitOn sep (s ++ t) with
    | nil => exact absurd hparts (splitOn_ne_nil sep _)
    | cons part parts =>
      have htrim : trim (c :: part) = trim part :=
        trim_append_left (s := [c]) (fun d hd => hs d (List.mem_singleton.1 hd ▸ List.mem_cons_self))
          part
      rw [List.map_cons, List.map_cons, htrim]

/-- A text after the last separator belongs to the last part. -/
theorem splitOn_append_right (s : List Char) (hsep : sep ∉ t) :
    ∃ init last, splitOn sep s = init ++ [last] ∧ splitOn sep (s ++ t) = init ++ [last ++ t] := by
  induction s with
  | nil => exact ⟨[], [], rfl, splitOn_of_notMem hsep⟩
  | cons c s ih =>
    obtain ⟨init, last, hs, hst⟩ := ih
    rw [List.cons_append, splitOn, splitOn, hs, hst]
    split_ifs
    · exact ⟨[] :: init, last, rfl, rfl⟩
    · cases init with
      | nil => exact ⟨[], c :: last, rfl, rfl⟩
      | cons part init => exact ⟨(c :: part) :: init, last, rfl, rfl⟩

/-- A text may be trimmed before it is split into parts that are. -/
theorem map_trim_splitOn_trim (hsep : isWhitespace sep = false) (s : List Char) :
    (splitOn sep (trim s)).map trim = (splitOn sep s).map trim := by
  obtain ⟨before, after, heq, hbefore, hafter⟩ := exists_trim s
  have hnot (t : List Char) (ht : ∀ c ∈ t, isWhitespace c = true) : sep ∉ t := fun hmem =>
    absurd (ht sep hmem) (by rw [hsep]; exact Bool.false_ne_true)
  obtain ⟨init, last, hs, hst⟩ := splitOn_append_right (trim s) (hnot after hafter)
  conv_rhs => rw [heq, List.append_assoc,
    map_trim_splitOn_append_left (hnot before hbefore) hbefore, hst]
  rw [hs, List.map_append, List.map_append, List.map_singleton, List.map_singleton,
    trim_append_right last hafter]

end

end Tailcat
