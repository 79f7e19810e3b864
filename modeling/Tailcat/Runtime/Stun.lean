import Tailcat.Runtime.Discovery
import Tailcat.Lib.Tlv

/-!
# STUN responses

`parseStun` reads the own address out of a STUN response: a header of twenty bytes, which declares
how many bytes of attributes follow, and the attributes.  It never reads beyond the datagram
(`readStun_eq`), but it does read beyond what the header declares: it is the decoder of the declared
bytes exactly if no address attribute that it comes to overhangs them.

* `decodeStun` : the decoder of the declared bytes.
* `stun_parsed` : when `parseStun` is that decoder, and that it inverts the encoding.
* `overhanging_address` : a response where it is not.

The parser and the decoder are written independently: the parser walks over the datagram with an
index, as the source does, and the decoder takes the declared bytes first.  Both come down to the
search of `Lib.Tlv`, on the whole rest of the datagram or on a part of it; so they differ exactly
where an attribute is complete in the one and cut off in the other.
-/

namespace Tailcat.Runtime

open Net Tlv

variable {data : Bytes} {offset fuel : ℕ}

/-! ### The decoder of the declared bytes -/

/-- The number of bytes a STUN response declares. -/
def stunLength (data : Bytes) : ℕ := 20 + ofBeBytes16 (data.getD 2 0) (data.getD 3 0)

/-- The address in an attribute, if it is a mapped address of IPv4. -/
def mappedAddress (kind : ℕ) (b : Bytes) : Option SocketAddr :=
  if kind = 0x20 ∧ 8 ≤ b.length ∧ b.getD 1 0 = 1 then
    some (.v4 ⟨[b.getD 4 0 ^^^ 0x21, b.getD 5 0 ^^^ 0x12, b.getD 6 0 ^^^ 0xa4, b.getD 7 0 ^^^ 0x42],
      rfl⟩ (UInt16.ofNat (ofBeBytes16 (b.getD 2 0) (b.getD 3 0)) ^^^ 0x2112))
  else none

/-- The own address in a STUN response, by its declared bytes. -/
def decodeStun (data : Bytes) : Option SocketAddr :=
  if data.length < stunLength data then none
  else findAttribute mappedAddress ((data.take (stunLength data)).drop 20)

/-- A STUN response with some attributes, whose header is filled up with `id`. -/
def encodeStun (id : Bytes) (attributes : List Attribute) : Bytes :=
  let body := attributes.flatMap Attribute.bytes
  [1, 1] ++ beBytes16 body.length ++ id ++ body

/-! ### Bounds -/

/-- Two bytes of the datagram as a number; without a result if there are none. -/
def u16At (data : Bytes) (offset : ℕ) : Option ℕ := do
  let a ← data[offset]?
  let b ← data[offset + 1]?
  return ofBeBytes16 a b

/-- The address in an attribute's bytes, each of which has to be there. -/
def readAddress (b : Bytes) : Option SocketAddr := do
  let port ← u16At b 2
  let b₄ ← b[4]?
  let b₅ ← b[5]?
  let b₆ ← b[6]?
  let b₇ ← b[7]?
  return .v4 ⟨[b₄ ^^^ 0x21, b₅ ^^^ 0x12, b₆ ^^^ 0xa4, b₇ ^^^ 0x42], rfl⟩
    (UInt16.ofNat port ^^^ 0x2112)

/-- The attribute is an address of IPv4, if all that is looked at for it is there. -/
def readKind (kind : ℕ) (b : Bytes) : Option Bool :=
  if kind = 0x20 ∧ 8 ≤ b.length then do
    let family ← b[1]?
    return family = 1
  else return false

/-- `stunAttribute` where every byte that is read has to be there and the attributes have to end. -/
def readAttribute (data : Bytes) (length : ℕ) : (fuel offset : ℕ) → Option (Option SocketAddr)
  | 0, _ => none
  | fuel + 1, offset =>
    if offset + 4 ≤ length then
      (u16At data offset).bind fun kind =>
        (u16At data (offset + 2)).bind fun size =>
          if offset + 4 + size ≤ data.length then
            let b := slice data (offset + 4) (offset + 4 + size)
            (readKind kind b).bind fun found =>
              if found then (readAddress b).map some
              else readAttribute data length fuel (offset + 4 + (size + 3) / 4 * 4)
          else some none
    else some none

/-- `parseStun` where every byte that is read has to be there and the attributes have to end. -/
def readStun (data : Bytes) : Option (Option SocketAddr) :=
  match u16At data 2 with
  | none => some none
  | some size =>
    if data.length < 20 + size then some none else readAttribute data (20 + size) data.length 20

theorem getElem?_eq_getD {b : Bytes} {i : ℕ} (h : i < b.length) : b[i]? = some (b.getD i 0) := by
  rw [List.getD_eq_getElem?_getD, List.getElem?_eq_getElem h]
  rfl

theorem u16At_eq {b : Bytes} {i : ℕ} (h : i + 1 < b.length) :
    u16At b i = some (ofBeBytes16 (b.getD i 0) (b.getD (i + 1) 0)) := by
  simp only [u16At, getElem?_eq_getD h, getElem?_eq_getD (Nat.lt_of_succ_lt h)]
  rfl

theorem readAddress_eq {b : Bytes} (h : 8 ≤ b.length) :
    readAddress b = some (.v4 ⟨[b.getD 4 0 ^^^ 0x21, b.getD 5 0 ^^^ 0x12, b.getD 6 0 ^^^ 0xa4,
      b.getD 7 0 ^^^ 0x42], rfl⟩
      (UInt16.ofNat (ofBeBytes16 (b.getD 2 0) (b.getD 3 0)) ^^^ 0x2112)) := by
  simp only [readAddress, u16At_eq (show 2 + 1 < b.length by omega),
    getElem?_eq_getD (show 4 < b.length by omega), getElem?_eq_getD (show 5 < b.length by omega),
    getElem?_eq_getD (show 6 < b.length by omega), getElem?_eq_getD (show 7 < b.length by omega)]
  rfl

theorem readKind_eq (kind : ℕ) (b : Bytes) :
    readKind kind b = some (decide (kind = 0x20 ∧ 8 ≤ b.length ∧ b.getD 1 0 = 1)) := by
  unfold readKind
  split_ifs with h
  · rw [getElem?_eq_getD (show 1 < b.length by omega)]
    simp [h]
  · simp only [pure, Option.some.injEq]
    symm
    simp only [decide_eq_false_iff_not]
    exact fun hall => h ⟨hall.1, hall.2.1⟩

theorem length_slice {lo hi : ℕ} (hlo : lo ≤ hi) (hhi : hi ≤ data.length) :
    (slice data lo hi).length = hi - lo := by
  simp only [slice, List.length_take, List.length_drop]
  omega

theorem readAttribute_eq {length : ℕ} (hlength : length ≤ data.length) (hfuel : 0 < fuel)
    (hend : length ≤ fuel + offset) :
    readAttribute data length fuel offset = some (stunAttribute data length fuel offset) := by
  induction fuel generalizing offset with
  | zero => omega
  | succ fuel ih =>
    unfold readAttribute stunAttribute
    by_cases hhead : offset + 4 ≤ length
    · rw [if_pos hhead, if_pos hhead, u16At_eq (show offset + 1 < data.length by omega),
        u16At_eq (show offset + 2 + 1 < data.length by omega)]
      simp only [Option.bind_some]
      generalize ofBeBytes16 (data.getD (offset + 2) 0) (data.getD (offset + 3) 0) = size
      by_cases hfits : offset + 4 + size ≤ data.length
      · rw [if_pos hfits, if_pos hfits]
        have hsize := length_slice (Nat.le_add_right (offset + 4) size) hfits
        rw [Nat.add_sub_cancel_left] at hsize
        rw [readKind_eq, hsize]
        simp only [Option.bind_some, decide_eq_true_eq]
        split_ifs with hfound
        · rw [readAddress_eq (by omega), Option.map_some]
        · exact ih (by omega) (by omega)
      · rw [if_neg hfits, if_neg hfits]
    · rw [if_neg hhead, if_neg hhead]

/-- Every byte that is read is there, and the attributes end. -/
theorem readStun_eq (data : Bytes) : readStun data = some (parseStun data) := by
  unfold readStun parseStun
  by_cases hshort : data.length < 4
  · have hnone : data.length < 20 + ofBeBytes16 (data.getD 2 0) (data.getD 3 0) := by omega
    rw [if_pos hnone]
    split
    · rfl
    · rw [if_pos (by omega)]
  · rw [u16At_eq (show 2 + 1 < data.length by omega)]
    dsimp only
    split_ifs with hlength
    · rfl
    · exact readAttribute_eq (Nat.le_of_not_lt hlength) (by omega) (by omega)

/-! ### Attribute by attribute -/

/-- The type of the attribute at an offset. -/
def kindAt (data : Bytes) (offset : ℕ) : ℕ :=
  ofBeBytes16 (data.getD offset 0) (data.getD (offset + 1) 0)

/-- The length of the attribute at an offset. -/
def sizeAt (data : Bytes) (offset : ℕ) : ℕ :=
  ofBeBytes16 (data.getD (offset + 2) 0) (data.getD (offset + 3) 0)

/-- The attribute at an offset is a mapped address of IPv4. -/
def AddressAt (data : Bytes) (offset : ℕ) : Prop :=
  kindAt data offset = 0x20 ∧ 8 ≤ sizeAt data offset ∧ data.getD (offset + 5) 0 = 1

/-- The offsets of the attributes that are looked at, while they fit into the declared bytes and none
is an address. -/
inductive ComesTo (data : Bytes) : ℕ → Prop
  | first : ComesTo data 20
  | next {offset : ℕ} (h : ComesTo data offset) (hhead : offset + 4 ≤ stunLength data)
      (hfits : offset + 4 + sizeAt data offset ≤ stunLength data)
      (hother : ¬AddressAt data offset) :
      ComesTo data (offset + 4 + padded (sizeAt data offset))

/-- An address that is come to ends beyond the declared bytes, but within the datagram. -/
def Overhangs (data : Bytes) : Prop :=
  ∃ offset, ComesTo data offset ∧ offset + 4 ≤ stunLength data ∧ AddressAt data offset ∧
    stunLength data < offset + 4 + sizeAt data offset ∧
    offset + 4 + sizeAt data offset ≤ data.length

theorem getD_slice {lo hi i : ℕ} (h : lo + i < hi) :
    (slice data lo hi).getD i 0 = data.getD (lo + i) 0 := by
  simp only [slice, List.getD_eq_getElem?_getD]
  rw [List.getElem?_take_of_lt (by omega), List.getElem?_drop]

/-- The value of the attribute at an offset. -/
def valueAt (data : Bytes) (offset : ℕ) : Bytes :=
  slice data (offset + 4) (offset + 4 + sizeAt data offset)

theorem length_valueAt (h : offset + 4 + sizeAt data offset ≤ data.length) :
    (valueAt data offset).length = sizeAt data offset := by
  rw [valueAt, length_slice (Nat.le_add_right _ _) h, Nat.add_sub_cancel_left]

theorem mappedAddress_of_addressAt (h : offset + 4 + sizeAt data offset ≤ data.length)
    (haddress : AddressAt data offset) :
    ∃ address, mappedAddress (kindAt data offset) (valueAt data offset) = some address := by
  obtain ⟨hkind, hsize, hfamily⟩ := haddress
  have hvalue : (valueAt data offset).getD 1 0 = 1 := by
    rw [valueAt, getD_slice (by omega)]
    exact hfamily
  exact ⟨_, if_pos ⟨hkind, by rw [length_valueAt h]; exact hsize, hvalue⟩⟩

theorem mappedAddress_of_other (h : offset + 4 + sizeAt data offset ≤ data.length)
    (hother : ¬AddressAt data offset) :
    mappedAddress (kindAt data offset) (valueAt data offset) = none := by
  refine if_neg fun hall => hother ?_
  obtain ⟨hkind, hsize, hfamily⟩ := hall
  rw [length_valueAt h] at hsize
  rw [valueAt, getD_slice (by omega)] at hfamily
  exact ⟨hkind, hsize, hfamily⟩

/-- The attribute at an offset decides, or the next one does. -/
theorem stunAttribute_succ {length : ℕ} (hhead : offset + 4 ≤ length)
    (hfits : offset + 4 + sizeAt data offset ≤ data.length) :
    stunAttribute data length (fuel + 1) offset =
      (mappedAddress (kindAt data offset) (valueAt data offset)).or
        (stunAttribute data length fuel (offset + 4 + padded (sizeAt data offset))) := by
  have hsize := length_valueAt hfits
  rw [stunAttribute, if_pos hhead]
  refine (if_pos hfits).trans ?_
  rw [mappedAddress, hsize]
  by_cases hfound : kindAt data offset = 0x20 ∧ 8 ≤ sizeAt data offset ∧
      (valueAt data offset).getD 1 0 = 1
  · rw [if_pos hfound]
    exact if_pos hfound
  · rw [if_neg hfound]
    exact if_neg hfound

/-- The declared bytes from an offset on. -/
def declaredFrom (data : Bytes) (offset : ℕ) : Bytes := (data.take (stunLength data)).drop offset

theorem declaredFrom_eq (hlength : stunLength data ≤ data.length)
    (hhead : offset + 4 ≤ stunLength data) :
    declaredFrom data offset = data.getD offset 0 :: data.getD (offset + 1) 0 ::
      data.getD (offset + 2) 0 :: data.getD (offset + 3) 0 :: declaredFrom data (offset + 4) := by
  have hdrop : ∀ i, i < stunLength data →
      declaredFrom data i = data.getD i 0 :: declaredFrom data (i + 1) := by
    intro i hi
    have hlt : i < (data.take (stunLength data)).length := by
      rw [List.length_take]
      omega
    unfold declaredFrom
    rw [List.drop_eq_getElem_cons hlt, List.getElem_take, List.getD_eq_getElem?_getD,
      List.getElem?_eq_getElem (by omega)]
    rfl
  rw [hdrop offset (by omega), hdrop (offset + 1) (by omega), hdrop (offset + 2) (by omega),
    hdrop (offset + 3) (by omega)]

theorem length_declaredFrom (offset : ℕ) (hlength : stunLength data ≤ data.length) :
    (declaredFrom data offset).length = stunLength data - offset := by
  rw [declaredFrom, List.length_drop, List.length_take, Nat.min_eq_left hlength]

/-- The decoder of the declared bytes fails at an attribute that does not fit. -/
theorem findAttribute_of_cut (hlength : stunLength data ≤ data.length)
    (hhead : offset + 4 ≤ stunLength data)
    (hcut : stunLength data < offset + 4 + sizeAt data offset) :
    findAttribute mappedAddress (declaredFrom data offset) = none := by
  have hshort : (declaredFrom data (offset + 4)).length < sizeAt data offset := by
    rw [length_declaredFrom _ hlength]
    omega
  rw [declaredFrom_eq hlength hhead, findAttribute]
  exact if_pos hshort

theorem findAttribute_of_fits (hlength : stunLength data ≤ data.length)
    (hhead : offset + 4 ≤ stunLength data)
    (hfits : offset + 4 + sizeAt data offset ≤ stunLength data) :
    findAttribute mappedAddress (declaredFrom data offset) =
      (mappedAddress (kindAt data offset) (valueAt data offset)).or
        (findAttribute mappedAddress
          (declaredFrom data (offset + 4 + padded (sizeAt data offset)))) := by
  have hlong : ¬(declaredFrom data (offset + 4)).length < sizeAt data offset := by
    rw [length_declaredFrom _ hlength]
    omega
  have hvalue : (declaredFrom data (offset + 4)).take (sizeAt data offset) =
      valueAt data offset := by
    rw [declaredFrom, valueAt, slice, Nat.add_sub_cancel_left, List.drop_take, List.take_take,
      Nat.min_eq_left (by omega)]
  have hrest : (declaredFrom data (offset + 4)).drop (padded (sizeAt data offset)) =
      declaredFrom data (offset + 4 + padded (sizeAt data offset)) := by
    rw [declaredFrom, declaredFrom, List.drop_drop]
  rw [declaredFrom_eq hlength hhead, findAttribute]
  rw [show ofBeBytes16 (data.getD (offset + 2) 0) (data.getD (offset + 3) 0) = sizeAt data offset
    from rfl, if_neg hlong, hvalue, hrest, kindAt]
  cases mappedAddress (ofBeBytes16 (data.getD offset 0) (data.getD (offset + 1) 0))
    (valueAt data offset) <;> rfl

theorem findAttribute_of_end (hlength : stunLength data ≤ data.length)
    (hend : stunLength data < offset + 4) :
    findAttribute mappedAddress (declaredFrom data offset) = none := by
  refine findAttribute_of_short _ ?_
  rw [length_declaredFrom _ hlength]
  omega

theorem stunAttribute_of_end {length : ℕ} (hend : length < offset + 4) :
    stunAttribute data length fuel offset = none := by
  cases fuel with
  | zero => rfl
  | succ fuel =>
    unfold stunAttribute
    exact if_neg (Nat.not_le.2 hend)

/-! ### When the two agree -/

/-- From an attribute on that is come to, the two agree if none overhangs. -/
theorem stunAttribute_of_fit (hlength : stunLength data ≤ data.length) (hnot : ¬Overhangs data)
    (hcomes : ComesTo data offset) (hend : stunLength data ≤ fuel + offset) :
    stunAttribute data (stunLength data) fuel offset =
      findAttribute mappedAddress (declaredFrom data offset) := by
  induction fuel generalizing offset with
  | zero => rw [stunAttribute_of_end (by omega), findAttribute_of_end hlength (by omega)]
  | succ fuel ih =>
    have hpadded := le_padded (sizeAt data offset)
    by_cases hhead : offset + 4 ≤ stunLength data
    · by_cases hfits : offset + 4 + sizeAt data offset ≤ stunLength data
      · have hdata := Nat.le_trans hfits hlength
        rw [stunAttribute_succ hhead hdata, findAttribute_of_fits hlength hhead hfits]
        by_cases haddress : AddressAt data offset
        · obtain ⟨address, hmapped⟩ := mappedAddress_of_addressAt hdata haddress
          rw [hmapped]
          rfl
        · rw [mappedAddress_of_other hdata haddress, Option.none_or, Option.none_or]
          exact ih (.next hcomes hhead hfits haddress) (by omega)
      · rw [findAttribute_of_cut hlength hhead (Nat.lt_of_not_le hfits)]
        by_cases hdata : offset + 4 + sizeAt data offset ≤ data.length
        · -- it does not overhang, so it is not an address, and the next one is beyond the end
          have hother : ¬AddressAt data offset := fun haddress =>
            hnot ⟨offset, hcomes, hhead, haddress, Nat.lt_of_not_le hfits, hdata⟩
          rw [stunAttribute_succ hhead hdata, mappedAddress_of_other hdata hother, Option.none_or]
          exact stunAttribute_of_end (by omega)
        · rw [stunAttribute, if_pos hhead]
          exact if_neg hdata
    · rw [stunAttribute_of_end (Nat.lt_of_not_le hhead),
        findAttribute_of_end hlength (Nat.lt_of_not_le hhead)]

/-- Both come to the attributes that are come to. -/
theorem ComesTo.both (hlength : stunLength data ≤ data.length) (h : ComesTo data offset) :
    ∃ fuel, stunLength data ≤ fuel + offset ∧
      stunAttribute data (stunLength data) data.length 20 =
        stunAttribute data (stunLength data) fuel offset ∧
      findAttribute mappedAddress (declaredFrom data 20) =
        findAttribute mappedAddress (declaredFrom data offset) := by
  induction h with
  | first => exact ⟨data.length, by omega, rfl, rfl⟩
  | @next offset hcomes hhead hfits hother ih =>
    obtain ⟨fuel, hfuel, hcode, hdecoder⟩ := ih
    obtain ⟨fuel, rfl⟩ : ∃ n, fuel = n + 1 := Nat.exists_eq_succ_of_ne_zero (by omega)
    have hpadded := le_padded (sizeAt data offset)
    have hdata := Nat.le_trans hfits hlength
    refine ⟨fuel, by omega, hcode.trans ?_, hdecoder.trans ?_⟩
    · rw [stunAttribute_succ hhead hdata, mappedAddress_of_other hdata hother, Option.none_or]
    · rw [findAttribute_of_fits hlength hhead hfits, mappedAddress_of_other hdata hother,
        Option.none_or]

theorem parseStun_eq_decodeStun_iff (data : Bytes) :
    parseStun data = decodeStun data ↔ ¬Overhangs data := by
  by_cases hlength : stunLength data ≤ data.length
  · have hparse : parseStun data = stunAttribute data (stunLength data) data.length 20 :=
      if_neg (Nat.not_lt.2 hlength)
    have hdecode : decodeStun data = findAttribute mappedAddress (declaredFrom data 20) :=
      if_neg (Nat.not_lt.2 hlength)
    rw [hparse, hdecode]
    refine ⟨?_, fun hnot => stunAttribute_of_fit hlength hnot .first (by omega)⟩
    rintro heq ⟨offset, hcomes, hhead, haddress, hcut, hdata⟩
    obtain ⟨fuel, hfuel, hcode, hdecoder⟩ := hcomes.both hlength
    obtain ⟨fuel, rfl⟩ : ∃ n, fuel = n + 1 := Nat.exists_eq_succ_of_ne_zero (by omega)
    obtain ⟨address, hmapped⟩ := mappedAddress_of_addressAt hdata haddress
    rw [hcode, hdecoder, findAttribute_of_cut hlength hhead hcut, stunAttribute_succ hhead hdata,
      hmapped] at heq
    cases heq
  · have hshort : data.length < stunLength data := Nat.lt_of_not_le hlength
    refine iff_of_true ?_ ?_
    · rw [decodeStun, if_pos hshort]
      exact if_pos hshort
    · rintro ⟨offset, -, -, -, hcut, hdata⟩
      omega

/-! ### Encodings -/

variable {id rest : Bytes} {attributes : List Attribute}

theorem stunLength_encodeStun (hsize : (attributes.flatMap Attribute.bytes).length < 2 ^ 16) :
    stunLength (encodeStun id attributes ++ rest) =
      20 + (attributes.flatMap Attribute.bytes).length := by
  simp only [stunLength, encodeStun, beBytes16, List.cons_append, List.nil_append,
    List.getD_cons_succ, List.getD_cons_zero]
  rw [ofBeBytes16_beBytes16 hsize]

theorem length_encodeStun (hid : id.length = 16) : (encodeStun id attributes).length =
    20 + (attributes.flatMap Attribute.bytes).length := by
  simp only [encodeStun, List.length_append, length_beBytes16, List.length_cons, List.length_nil,
    hid]

/-- The declared bytes of an encoding are the encodings of its attributes. -/
theorem declaredFrom_encodeStun (hid : id.length = 16)
    (hsize : (attributes.flatMap Attribute.bytes).length < 2 ^ 16) (rest : Bytes) :
    declaredFrom (encodeStun id attributes ++ rest) 20 = attributes.flatMap Attribute.bytes := by
  rw [declaredFrom, stunLength_encodeStun hsize, ← length_encodeStun hid, List.take_left]
  have hhead :
      ([1, 1] ++ beBytes16 (attributes.flatMap Attribute.bytes).length ++ id).length = 20 := by
    simp [hid]
  rw [encodeStun, List.drop_append_of_le_length (by omega), ← hhead, List.drop_length,
    List.nil_append]

/-- Where an attribute's encoding is, its length is read, and the rest follows it. -/
theorem encoded_next (hlength : stunLength data ≤ data.length)
    (hhead : offset + 4 ≤ stunLength data) {later : List Attribute}
    (hlater : declaredFrom data offset = later.flatMap Attribute.bytes) :
    offset + 4 + sizeAt data offset ≤ stunLength data ∧ ∃ later' : List Attribute,
      declaredFrom data (offset + 4 + padded (sizeAt data offset)) =
        later'.flatMap Attribute.bytes := by
  have hcount := length_declaredFrom offset hlength
  cases later with
  | nil =>
    rw [hlater, List.flatMap_nil, List.length_nil] at hcount
    omega
  | cons a later =>
    rw [declaredFrom_eq hlength hhead, List.flatMap_cons, Attribute.bytes, beBytes16,
      beBytes16] at hlater
    simp only [List.append_assoc, List.cons_append, List.nil_append, List.cons.injEq] at hlater
    obtain ⟨-, -, hs₀, hs₁, htail⟩ := hlater
    have hsize : sizeAt data offset = a.value.length := by
      rw [sizeAt, hs₀, hs₁, ofBeBytes16_beBytes16 a.size_lt]
    refine ⟨?_, later, ?_⟩
    · have hcount' := length_declaredFrom (offset + 4) hlength
      rw [htail, List.length_append] at hcount'
      omega
    · have hdrop : declaredFrom data (offset + 4 + padded (sizeAt data offset)) =
          (declaredFrom data (offset + 4)).drop (padded (sizeAt data offset)) := by
        rw [declaredFrom, declaredFrom, List.drop_drop]
      rw [hdrop, htail, hsize, ← a.aligned, ← List.append_assoc, ← List.length_append,
        List.drop_left]

/-- No attribute of an encoding overhangs. -/
theorem not_overhangs_of_encoded (hlength : stunLength data ≤ data.length)
    (hfirst : declaredFrom data 20 = attributes.flatMap Attribute.bytes) : ¬Overhangs data := by
  have hencoded : ∀ {offset}, ComesTo data offset →
      ∃ later : List Attribute, declaredFrom data offset = later.flatMap Attribute.bytes := by
    intro offset hcomes
    induction hcomes with
    | first => exact ⟨attributes, hfirst⟩
    | next _ hhead _ _ ih =>
      obtain ⟨later, hlater⟩ := ih
      exact (encoded_next hlength hhead hlater).2
  rintro ⟨offset, hcomes, hhead, -, hcut, -⟩
  obtain ⟨later, hlater⟩ := hencoded hcomes
  exact absurd (encoded_next hlength hhead hlater).1 (Nat.not_le.2 hcut)

/-- The parser inverts the encoding, whatever follows it. -/
theorem parseStun_encodeStun (hid : id.length = 16)
    (hsize : (attributes.flatMap Attribute.bytes).length < 2 ^ 16) (rest : Bytes) :
    parseStun (encodeStun id attributes ++ rest) =
      attributes.findSome? fun a => mappedAddress a.kind.toNat a.value := by
  have hlength : stunLength (encodeStun id attributes ++ rest) ≤
      (encodeStun id attributes ++ rest).length := by
    rw [stunLength_encodeStun hsize, List.length_append, length_encodeStun hid]
    omega
  have hfirst := declaredFrom_encodeStun hid hsize rest
  rw [(parseStun_eq_decodeStun_iff _).2 (not_overhangs_of_encoded hlength hfirst), decodeStun,
    if_neg (Nat.not_lt.2 hlength)]
  have hnil : ([] : Bytes).length < 4 := by decide
  have hfind := findAttribute_flatMap mappedAddress attributes hnil
  rw [List.append_nil] at hfind
  rw [← hfind, ← hfirst]
  rfl

/-! ### The results -/

/-- What there is to say of the parsing of a datagram. -/
structure StunParsed (data : Bytes) : Prop where
  /-- No byte is read that is not there, and the parser comes to an end. -/
  bounded : readStun data = some (parseStun data)
  /-- It is the decoder of the declared bytes exactly if no address overhangs them. -/
  decodes : parseStun data = decodeStun data ↔ ¬Overhangs data
  /-- Bytes after the declared ones change nothing exactly as long as no address overhangs. -/
  beyond : stunLength data ≤ data.length →
    ((∀ rest, parseStun (data.take (stunLength data) ++ rest) =
        parseStun (data.take (stunLength data))) ↔
      ∀ rest, ¬Overhangs (data.take (stunLength data) ++ rest))

theorem stunLength_take (hlength : stunLength data ≤ data.length) (rest : Bytes) :
    stunLength (data.take (stunLength data) ++ rest) = stunLength data := by
  have hlow : 20 ≤ stunLength data := Nat.le_add_right _ _
  have hget : ∀ i, i < 20 → (data.take (stunLength data) ++ rest).getD i 0 = data.getD i 0 := by
    intro i hi
    rw [List.getD_eq_getElem?_getD, List.getD_eq_getElem?_getD,
      List.getElem?_append_left (by rw [List.length_take]; omega),
      List.getElem?_take_of_lt (by omega)]
  simp only [stunLength] at hget ⊢
  rw [hget 2 (by omega), hget 3 (by omega)]

/-- The decoder looks only at the declared bytes. -/
theorem decodeStun_take (hlength : stunLength data ≤ data.length) (rest : Bytes) :
    decodeStun (data.take (stunLength data) ++ rest) = decodeStun data := by
  have hcount : (data.take (stunLength data)).length = stunLength data := by
    rw [List.length_take, Nat.min_eq_left hlength]
  have hlong : ¬(data.take (stunLength data) ++ rest).length < stunLength data := by
    rw [List.length_append, hcount]
    omega
  have htake : (data.take (stunLength data) ++ rest).take (stunLength data) =
      data.take (stunLength data) := List.take_left' hcount
  rw [decodeStun, decodeStun, stunLength_take hlength, htake, if_neg hlong,
    if_neg (Nat.not_lt.2 hlength)]

theorem stunParsed (data : Bytes) : StunParsed data := by
  refine ⟨readStun_eq data, parseStun_eq_decodeStun_iff data, fun hlength => ?_⟩
  have hexact : ¬Overhangs (data.take (stunLength data)) := by
    rintro ⟨offset, -, -, -, hcut, hdata⟩
    have hsame := stunLength_take hlength []
    rw [List.append_nil] at hsame
    rw [hsame] at hcut
    rw [List.length_take] at hdata
    omega
  have hdecode := decodeStun_take hlength []
  rw [List.append_nil] at hdecode
  rw [(parseStun_eq_decodeStun_iff _).2 hexact, hdecode]
  refine forall_congr' fun rest => ?_
  rw [← decodeStun_take hlength rest]
  exact parseStun_eq_decodeStun_iff _

/-- **STUN responses**: `parseStun` reads within every datagram; it is the decoder of the declared
bytes, unaffected by what follows them, exactly if no address attribute overhangs them; and it
inverts the encoding of attributes. -/
theorem stun_parsed (data : Bytes) : StunParsed data ∧
    ∀ (id : Bytes) (attributes : List Attribute) (rest : Bytes), id.length = 16 →
      (attributes.flatMap Attribute.bytes).length < 2 ^ 16 →
      parseStun (encodeStun id attributes ++ rest) =
        attributes.findSome? fun a => mappedAddress a.kind.toNat a.value :=
  ⟨stunParsed data, fun _ _ rest hid hsize => parseStun_encodeStun hid hsize rest⟩

/-- The response declares four bytes of attributes, the head of an address, which follows it in the
datagram. -/
theorem overhanging_address :
    let declared : Bytes := [1, 1, 0, 4] ++ List.replicate 16 0 ++ [0, 0x20, 0, 8]
    let rest : Bytes := [0, 1, 0x21, 0x12, 0x21, 0x12, 0xa4, 0x43]
    parseStun (declared ++ rest) = some (.v4 ⟨[0, 0, 0, 1], rfl⟩ 0) ∧
      decodeStun (declared ++ rest) = none ∧ parseStun declared = none := by
  intro declared rest
  refine ⟨by decide +kernel, ?_, by decide +kernel⟩
  have hcut : findAttribute mappedAddress (declaredFrom (declared ++ rest) 20) = none :=
    findAttribute_of_cut (by decide +kernel) (by decide +kernel) (by decide +kernel)
  rw [decodeStun, if_neg (by decide +kernel)]
  exact hcut

end Tailcat.Runtime
