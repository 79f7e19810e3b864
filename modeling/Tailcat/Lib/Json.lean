import Mathlib.Algebra.Group.Int.Defs
import Mathlib.Data.List.Basic
import Mathlib.Order.Basic

/-!
# JSON

Documents (`Value`, with whole numbers only), objects as maps sorted by key (`insert`), and typed
readers of documents: an `Option` each, a member of an object being read by `field`, with a
default for an absent one.  Members no reader asks for do not matter.

`get?_insert` says what an insertion changes; it is all that readers see of an object.

Only what a program's own documents need is here: a document is a value and not its text, and a
reader answers `none` where a library would report an error, whatever the error.  An absent member
and one that is null are different unless the reader says otherwise (`nullable`), and a member with
a value of the wrong type makes the whole object unreadable even if it has a default.
-/

namespace Json

/-- A document. -/
inductive Value where
  | null
  | bool (b : Bool)
  | number (n : Int)
  | string (s : String)
  | array (items : List Value)
  | object (members : List (String × Value))

/-- The members of an object, sorted by key. -/
abbrev Members := List (String × Value)

/-! ### Objects -/

/-- Set a member. -/
def insert : Members → String → Value → Members
  | [], key, v => [(key, v)]
  | (k, w) :: m, key, v =>
    if key = k then (key, v) :: m
    else if key < k then (key, v) :: (k, w) :: m
    else (k, w) :: insert m key v

/-- The member of a key. -/
def get? : Members → String → Option Value
  | [], _ => none
  | (k, w) :: m, key => if key = k then some w else get? m key

@[simp] theorem get?_nil (key : String) : get? [] key = none := rfl

theorem get?_insert (m : Members) (key key' : String) (v : Value) :
    get? (insert m key v) key' = if key' = key then some v else get? m key' := by
  induction m with
  | nil => rfl
  | cons kw m ih =>
    obtain ⟨k, w⟩ := kw
    rw [insert]
    split_ifs with h1 h2 h3 h3 h3 <;> simp_all [get?]

/-! ### Readers -/

section Readers

variable {α : Type*}

/-- Read a text. -/
def text : Value → Option String
  | .string s => some s
  | _ => none

/-- Read a Boolean. -/
def boolean : Value → Option Bool
  | .bool b => some b
  | _ => none

/-- Read a 64-bit integer. -/
def i64 : Value → Option Int64
  | .number n => if -2 ^ 63 ≤ n ∧ n < 2 ^ 63 then some (Int64.ofInt n) else none
  | _ => none

/-- Read a 32-bit integer. -/
def i32 : Value → Option Int32
  | .number n => if -2 ^ 31 ≤ n ∧ n < 2 ^ 31 then some (Int32.ofInt n) else none
  | _ => none

/-- Read a value or null. -/
def nullable (read : Value → Option α) : Value → Option (Option α)
  | .null => some none
  | v => (read v).map some

/-- Read a sequence. -/
def sequence (read : Value → Option α) : Value → Option (List α)
  | .array items => items.mapM read
  | _ => none

/-- Read a member of an object, absent members being a default. -/
def field (m : Members) (key : String) (read : Value → Option α) (default : α) : Option α :=
  match get? m key with
  | none => some default
  | some v => read v

theorem i64_number (n : Int64) : i64 (.number n.toInt) = some n := by
  have h1 := n.le_toInt
  have h2 := n.toInt_lt
  rw [i64, if_pos ⟨h1, h2⟩, Int64.ofInt_toInt]

end Readers

end Json
