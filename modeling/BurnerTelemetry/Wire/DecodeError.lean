/-!
Why bytes are not a status message.
-/
namespace BurnerTelemetry.Wire

/-- A field of a status message that has a range of its own. -/
inductive Quantity where
  | flame | fan | temperature
  deriving DecidableEq, Repr

/-- What is wrong with a line that starts like a status line. -/
inductive LineFault where
  | unterminated
  | notText
  | missingField
  | misnamedField
  | notANumber
  | trailingFields
  deriving DecidableEq, Repr

inductive DecodeError where
  | tooShort (length needed : Nat)
  | noFrame
  | outOfRange (quantity : Quantity) (value low high : Int)
  | lineTooLong (length : Nat)
  | malformedLine (fault : LineFault)
  | noLine
  deriving DecidableEq, Repr

def Quantity.name : Quantity → String
  | .flame => "flame"
  | .fan => "fan_speed"
  | .temperature => "temperature"

def LineFault.description : LineFault → String
  | .unterminated => "missing line terminator"
  | .notText => "not ASCII"
  | .missingField => "missing field"
  | .misnamedField => "unexpected field name"
  | .notANumber => "field is not a number"
  | .trailingFields => "trailing fields"

def DecodeError.message : DecodeError → String
  | .tooShort length needed => s!"Buffer too short: {length} bytes, need at least {needed}"
  | .noFrame => "No valid frame found in buffer"
  | .outOfRange quantity value low high =>
    s!"{quantity.name} value {value} is out of range [{low}, {high}]"
  | .lineTooLong length => s!"Text line too long: {length} bytes"
  | .malformedLine fault => s!"Malformed text line: {fault.description}"
  | .noLine => "Input is not a text line"

/-- Refuses a value outside its range, both ends included in the range. -/
def Quantity.check (quantity : Quantity) (low high value : Int) : Except DecodeError Unit :=
  if low ≤ value ∧ value ≤ high then .ok () else .error (.outOfRange quantity value low high)

end BurnerTelemetry.Wire
