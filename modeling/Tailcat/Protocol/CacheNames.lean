import Tailcat.Lib.PrefixCode
import Tailcat.Lib.UnixPath
import Tailcat.Protocol.DiskCache

/-!
# The names of the cache files

The names that `cache_paths` forms from a URL are those of two files in the cache directory, and of
no other URL (`cachePath_unambiguous`).  A byte of a URL is written as itself, as `+`, or as three
characters of which the first is `%`; the first character tells how many there are, so no byte's
text begins another's (`escaping`).

The directory is the same for all URLs, so a collision would let one server's map be read for
another's.  The names are shown to be single components without a separator, that is, files of this
directory and of no other, for every URL: the characters that a name can have are those that the
escape writes (`isFileChar`), and the two endings are as long as each other and different.  What
remains is that the escape is injective, and that is the property of a prefix code.
-/

namespace Tailcat.Protocol

open UnixPath

/-! ### Escaping -/

/-- A letter, a digit or one of `-_.~+%`. -/
def isFileChar (c : Char) : Bool := c.isAlphanum || ['-', '_', '.', '~', '+', '%'].contains c

/-- The value of a hexadecimal digit in upper case. -/
def digitValue (c : Char) : ℕ := if c.isDigit then c.toNat - 48 else c.toNat - 55

/-- The byte that `escapeByte` writes as a text. -/
def unescape : List Char → UInt8
  | ['+'] => 32
  | ['%', high, low] => UInt8.ofNat (16 * digitValue high + digitValue low)
  | [c] => UInt8.ofNat c.toNat
  | _ => 0

/-- What the text of a byte is like. -/
structure EscapedByte (b : UInt8) (text : List Char) : Prop where
  unescape : unescape text = b
  length : text.length = if text.head? = some '%' then 3 else 1
  chars : text.all isFileChar = true

theorem escapedByte (b : UInt8) : EscapedByte b (escapeByte b) := by
  have htable : ∀ n < 256, unescape (escapeByte (UInt8.ofNat n)) = UInt8.ofNat n ∧
      (escapeByte (UInt8.ofNat n)).length =
        (if (escapeByte (UInt8.ofNat n)).head? = some '%' then 3 else 1) ∧
      (escapeByte (UInt8.ofNat n)).all isFileChar = true := by
    decide +kernel
  have hb := htable b.toNat b.toNat_lt
  rw [UInt8.ofNat_toNat] at hb
  exact ⟨hb.1, hb.2.1, hb.2.2⟩

/-- The texts of bytes are a code. -/
def escaping : PrefixCode UInt8 Char where
  word := escapeByte
  word_ne_nil b h := by
    have hlength := (escapedByte b).length
    rw [h] at hlength
    exact absurd hlength (by decide)
  eq_of_prefix {a b} h := by
    -- the first character is the same, so the length is
    have hhead : (escapeByte a).head? = (escapeByte b).head? := by
      obtain ⟨rest, hrest⟩ := h
      have hne : escapeByte a ≠ [] := by
        intro hnil
        have hlength := (escapedByte a).length
        rw [hnil] at hlength
        exact absurd hlength (by decide)
      rw [← hrest, List.head?_append_of_ne_nil _ hne]
    have hlength : (escapeByte a).length = (escapeByte b).length := by
      rw [(escapedByte a).length, (escapedByte b).length, hhead]
    rw [← (escapedByte a).unescape, h.eq_of_length hlength, (escapedByte b).unescape]

/-! ### Names -/

/-- The kinds of files. -/
inductive CacheFile where
  | json
  | etag
  deriving DecidableEq

/-- The ending of a name. -/
def CacheFile.ending : CacheFile → List Char
  | .json => ".json".toList
  | .etag => ".etag".toList

/-- The name of a file of the cache. -/
def cacheName (url : String) : CacheFile → String
  | .json => (cachePaths (utf8 url.toList)).1
  | .etag => (cachePaths (utf8 url.toList)).2

/-- The path of a file of the cache. -/
def cachePath (dir : Bytes) (url : String) (kind : CacheFile) : Bytes :=
  join 47 dir (utf8 (cacheName url kind).toList)

theorem utf8_injective : Function.Injective utf8 := by
  intro s t h
  have hread := congrArg fromUtf8 h
  rw [fromUtf8_utf8, fromUtf8_utf8] at hread
  exact Option.some.inj hread

theorem toList_cacheName (url : String) (kind : CacheFile) : (cacheName url kind).toList =
    "derpmap-".toList ++ escaping.encode (utf8 url.toList) ++ kind.ending := by
  cases kind
  · exact toList_cachePaths_fst _
  · exact toList_cachePaths_snd _

theorem CacheFile.length_ending (kind : CacheFile) : kind.ending.length = 5 := by
  cases kind <;> decide +kernel

theorem CacheFile.ending_injective : Function.Injective CacheFile.ending := by
  intro kind kind' h
  cases kind <;> cases kind'
  · rfl
  · exact absurd h (by decide +kernel)
  · exact absurd h (by decide +kernel)
  · rfl

/-- A name is that of one file of one URL. -/
theorem cacheName_inj {url url' : String} {kind kind' : CacheFile} :
    cacheName url kind = cacheName url' kind' ↔ url = url' ∧ kind = kind' := by
  constructor
  · intro h
    have hchars := congrArg String.toList h
    rw [toList_cacheName, toList_cacheName] at hchars
    obtain ⟨hstem, hending⟩ := List.append_inj' hchars
      (by rw [CacheFile.length_ending, CacheFile.length_ending])
    have hescaped := escaping.encode_injective (List.append_cancel_left hstem)
    exact ⟨String.toList_injective (utf8_injective hescaped), CacheFile.ending_injective hending⟩
  · rintro ⟨rfl, rfl⟩
    rfl

/-- The characters of a name. -/
theorem isFileChar_of_mem_cacheName {url : String} {kind : CacheFile} {c : Char}
    (h : c ∈ (cacheName url kind).toList) : isFileChar c = true := by
  have hstem : "derpmap-".toList.all isFileChar = true := by decide +kernel
  have hending : kind.ending.all isFileChar = true := by cases kind <;> decide +kernel
  rw [toList_cacheName, List.mem_append, List.mem_append, PrefixCode.encode] at h
  rcases h with (h | h) | h
  · exact List.all_eq_true.1 hstem c h
  · obtain ⟨b, -, hc⟩ := List.mem_flatMap.1 h
    exact List.all_eq_true.1 (escapedByte b).chars c hc
  · exact List.all_eq_true.1 hending c h

/-! ### Paths -/

/-- An ASCII byte in the bytes of a text is one of its characters. -/
theorem mem_of_mem_utf8 {b : UInt8} {s : List Char} (hb : b.toNat < 128) (h : b ∈ utf8 s) :
    Char.ofNat b.toNat ∈ s := by
  obtain ⟨c, hc, hbyte⟩ := List.mem_flatMap.1 h
  have hval : c.val.toNat = c.toNat := rfl
  have heq : b.toNat = c.toNat := by
    simp only [String.utf8EncodeChar, hval] at hbyte
    split_ifs at hbyte
    all_goals simp only [List.mem_cons, List.not_mem_nil, or_false] at hbyte
    · rw [hbyte, UInt8.toNat_ofNat']
      omega
    -- the bytes of a longer sequence are not ASCII
    · rcases hbyte with rfl | rfl <;> simp only [UInt8.toNat_ofNat'] at hb <;> omega
    · rcases hbyte with rfl | rfl | rfl <;> simp only [UInt8.toNat_ofNat'] at hb <;> omega
    · rcases hbyte with rfl | rfl | rfl | rfl <;> simp only [UInt8.toNat_ofNat'] at hb <;> omega
  rw [heq, Char.ofNat_toNat]
  exact hc

/-- A name is that of a file in a directory. -/
theorem isName_cacheName (url : String) (kind : CacheFile) :
    IsName 47 46 (utf8 (cacheName url kind).toList) := by
  have hslash : (47 : UInt8) ∉ utf8 (cacheName url kind).toList := by
    intro h
    exact absurd (isFileChar_of_mem_cacheName (mem_of_mem_utf8 (by decide) h)) (by decide)
  have hstem : utf8 "derpmap-".toList = 100 :: utf8 "erpmap-".toList := by decide +kernel
  have hhead : (utf8 (cacheName url kind).toList).head? = some 100 := by
    rw [toList_cacheName, utf8, List.flatMap_append, List.flatMap_append, ← utf8, hstem]
    rfl
  refine ⟨hslash, ?_, ?_, ?_⟩
  all_goals
    intro h
    rw [h] at hhead
    exact absurd hhead (by decide)

/-- **The names of cache files are unambiguous**: a path is that of one file of one URL, and has
one component more than the directory, of letters, digits and `-_.~+%`. -/
theorem cachePath_unambiguous (dir : Bytes) (url url' : String) (kind kind' : CacheFile) :
    (components 47 46 (cachePath dir url kind) = components 47 46 (cachePath dir url' kind') ↔
      url = url' ∧ kind = kind') ∧
    components 47 46 (cachePath dir url kind) =
      components 47 46 dir ++ [.normal (utf8 (cacheName url kind).toList)] ∧
    ∀ c ∈ (cacheName url kind).toList, isFileChar c = true := by
  have hpath (url : String) (kind : CacheFile) : components 47 46 (cachePath dir url kind) =
      components 47 46 dir ++ [.normal (utf8 (cacheName url kind).toList)] :=
    components_join dir (isName_cacheName url kind)
  refine ⟨?_, hpath url kind, fun c => isFileChar_of_mem_cacheName⟩
  rw [hpath, hpath, List.append_right_inj, List.cons.injEq, Component.normal.injEq, ← cacheName_inj]
  constructor
  · rintro ⟨h, -⟩
    exact String.toList_injective (utf8_injective h)
  · intro h
    exact ⟨by rw [h], rfl⟩

end Tailcat.Protocol
