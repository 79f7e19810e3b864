import Tailcat.Bytes
import Tailcat.Lib.Cbor
import Mathlib.Data.List.Basic

/-!
# CBOR values as the address codec reads them

An address is a CBOR map with text keys; the functions `readInt`, `readString`, `readBool`,
`readArray` and `readKey` read one entry of such a map, an absent or null entry being the default.
The last entry of a name counts (`lookup`).

`lookup_push` says what an entry appended to a map changes; it is all the round trip of addresses
uses about maps.
-/

namespace Tailcat

/-- A 32-byte key. -/
abbrev Key := { b : Bytes // b.length = 32 }

namespace Key

/-- The all-zero key. -/
def zero : Key := ⟨List.replicate 32 0, rfl⟩

/-- `<[u8; 32]>::try_from` of a byte slice. -/
def ofBytes? (b : Bytes) : Option Key := if h : b.length = 32 then some ⟨b, h⟩ else none

@[simp] theorem ofBytes?_val (k : Key) : ofBytes? k.1 = some k := by
  simp [ofBytes?, k.2]

end Key

namespace Protocol

open Cbor (Value)

/-- The fields of a CBOR map, in order. -/
abbrev Fields := List (Value × Value)

/-- `Value::as_text`. -/
def asText : Value → Option String
  | .text s => some s
  | _ => none

/-! ### Reading a map -/

/-- The fields of a map. -/
def asMap : Value → Except String Fields
  | .map m => .ok m
  | _ => .error "expected CBOR map"

/-- The value of a name: its last entry counts. -/
def lookup (fields : Fields) (name : String) : Option Value :=
  fields.reverse.findSome? fun kv => if asText kv.1 = some name then some kv.2 else none

/-- `i64::try_from` of a CBOR integer. -/
def i64TryFrom (n : Int) : Except String Int64 :=
  if -2 ^ 63 ≤ n ∧ n < 2 ^ 63 then .ok (Int64.ofInt n) else .error "integer out of range"

/-- `i32::try_from` of an `i64`, with the text of the error. -/
def i32TryFrom (context : String) (n : Int64) : Except String Int32 :=
  if -2 ^ 31 ≤ n.toInt ∧ n.toInt < 2 ^ 31 then .ok (Int32.ofInt n.toInt) else .error context

/-- Read an integer field. -/
def readInt (fields : Fields) (name : String) : Except String Int64 :=
  match lookup fields name with
  | none | some .null => .ok 0
  | some (.integer i) => i64TryFrom i
  | _ => .error s!"{name} must be an integer"

/-- Read a text field. -/
def readString (fields : Fields) (name : String) : Except String String :=
  match lookup fields name with
  | none | some .null => .ok ""
  | some (.text s) => .ok s
  | _ => .error s!"{name} must be text"

/-- Read a Boolean field. -/
def readBool (fields : Fields) (name : String) : Except String Bool :=
  match lookup fields name with
  | none | some .null => .ok false
  | some (.bool b) => .ok b
  | _ => .error s!"{name} must be a boolean"

/-- Read an array field. -/
def readArray (fields : Fields) (name : String) : Except String (List Value) :=
  match lookup fields name with
  | none | some .null => .ok []
  | some (.array a) => .ok a
  | _ => .error s!"{name} must be an array"

/-- Read a key field. -/
def readKey (fields : Fields) (name : String) : Except String (Option Key) :=
  match lookup fields name with
  | none | some .null => .ok none
  | some (.bytes b) =>
    match Key.ofBytes? b with
    | some key => .ok (some key)
    | none => .error s!"invalid public key length {b.length}, want 32"
  | _ => .error s!"{name} must be a 32-byte CBOR byte string"

/-! ### Building a map -/

/-- An entry with a text key. -/
def field (name : String) (value : Value) : Value × Value := (.text name, value)

/-- Append an entry. -/
def push (fields : Fields) (name : String) (value : Value) : Fields := fields ++ [field name value]

/-- Append a text field unless the text is empty. -/
def pushString (fields : Fields) (name text : String) : Fields :=
  if text ≠ "" then push fields name (.text text) else fields

/-- Append an integer field unless the number is zero. -/
def pushInt (fields : Fields) (name : String) (number : Int64) : Fields :=
  if number ≠ 0 then push fields name (.integer number.toInt) else fields

@[simp] theorem lookup_nil (name : String) : lookup [] name = none := rfl

/-- An appended entry hides the earlier ones of its name, and no others. -/
@[simp] theorem lookup_push (fields : Fields) (n name : String) (v : Value) :
    lookup (push fields n v) name = if n = name then some v else lookup fields name := by
  simp only [lookup, push, field, List.reverse_append, List.reverse_cons, List.reverse_nil,
    List.nil_append, List.singleton_append, List.findSome?_cons, asText, Option.some.injEq]
  split_ifs <;> rfl

@[simp] theorem lookup_pushString (fields : Fields) (n name text : String) :
    lookup (pushString fields n text) name =
      if n = name ∧ text ≠ "" then some (.text text) else lookup fields name := by
  unfold pushString
  split_ifs <;> simp_all

@[simp] theorem lookup_pushInt (fields : Fields) (n name : String) (i : Int64) :
    lookup (pushInt fields n i) name =
      if n = name ∧ i ≠ 0 then some (.integer i.toInt) else lookup fields name := by
  unfold pushInt
  split_ifs <;> simp_all

theorem i64TryFrom_toInt (i : Int64) : i64TryFrom i.toInt = .ok i := by
  have h1 := i.le_toInt
  have h2 := i.toInt_lt
  rw [i64TryFrom, if_pos ⟨h1, h2⟩, Int64.ofInt_toInt]

theorem i32TryFrom_toInt64 (context : String) (i : Int32) :
    i32TryFrom context i.toInt64 = .ok i := by
  have h1 := i.le_toInt
  have h2 := i.toInt_lt
  rw [i32TryFrom, Int32.toInt_toInt64, if_pos ⟨h1, h2⟩, Int32.ofInt_toInt]

end Protocol

end Tailcat
