import BurnerTelemetry.Decimal.Binary64

/-!
The values of a configuration document. A table remembers how it came to be, which decides how
the rest of the document may still add to it; so does an array.
-/
namespace BurnerTelemetry.Toml

inductive Origin where
  /-- Written between braces, and complete. -/
  | inline
  /-- Opened by a header of its own. -/
  | header
  /-- Implied by the header of a table within it. -/
  | implied
  /-- Made by a dotted key. -/
  | dotted
  deriving DecidableEq, Repr

inductive Value where
  | boolean (b : Bool)
  | integer (i : Int)
  | float (f : Decimal.Binary64)
  | text (s : String)
  /-- A date, a time or both, kept as its text. -/
  | moment (s : String)
  /-- An array of tables made by headers is open to more of them. -/
  | array (isOpen : Bool) (items : List Value)
  | table (origin : Origin) (fields : List (String × Value))
  deriving Repr

/-- The fields of a table, in the order in which they were made. -/
abbrev Fields := List (String × Value)

namespace Fields

def find? (fields : Fields) (key : String) : Option Value :=
  match fields with
  | [] => none
  | (k, v) :: rest => if k = key then some v else find? rest key

/-- Gives a key its value, at its old place if it has one. -/
def put (fields : Fields) (key : String) (v : Value) : Fields :=
  match fields with
  | [] => [(key, v)]
  | (k, old) :: rest => if k = key then (k, v) :: rest else (k, old) :: put rest key v

@[simp] theorem find?_put_self (fields : Fields) (key : String) (v : Value) :
    find? (put fields key v) key = some v := by
  induction fields with
  | nil => simp [put, find?]
  | cons field rest ih =>
    obtain ⟨k, old⟩ := field
    by_cases h : k = key <;> simp [put, find?, h, ih]

/-- Gives a value to a key that has none. -/
def add? (fields : Fields) (key : String) (v : Value) : Option Fields :=
  match find? fields key with
  | none => some (fields ++ [(key, v)])
  | some _ => none

end Fields

/-- The fields of a table; no other value has any. -/
def Value.fields : Value → Fields
  | .table _ fields => fields
  | _ => []

end BurnerTelemetry.Toml
