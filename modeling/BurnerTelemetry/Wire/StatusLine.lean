import BurnerTelemetry.Text.Blank
import BurnerTelemetry.Text.Fields
import BurnerTelemetry.Text.Numeral
import BurnerTelemetry.Text.Utf8
import BurnerTelemetry.Wire.DecodeError
import BurnerTelemetry.Wire.Sighting

/-!
The status line `F:<flame>,S:<fan>,T:<temperature>` with a line feed behind it, and possibly a
carriage return before that. A line starts at the first `F:` of the bytes, whatever stands in
front, and ends at the first line feed after it. The burner marks faulty sensors by negative
temperatures, so a line may hold them.
-/
namespace BurnerTelemetry.Wire.StatusLine

/-- Bytes of this length or more are refused unread. -/
def sizeLimit : Nat := 256

def lineFeed : UInt8 := 10

def carriageReturn : UInt8 := 13

/-- The offset of the first `F:`. -/
def startIndex? (bytes : Bytes) : Option Nat := Bytes.pairIndex? 70 58 bytes

/-- The offset of the first line feed at or after `start`. -/
def endIndex? (bytes : Bytes) (start : Nat) : Option Nat :=
  ((bytes.drop start).findIdx? (fun b => b == lineFeed)).map (fun i => start + i)

/-- The bytes from `start` up to `stop`, without one carriage return at their end. -/
def between (bytes : Bytes) (start stop : Nat) : Bytes :=
  let line := (bytes.take stop).drop start
  if line.getLast? = some carriageReturn then line.dropLast else line

/-- The number in a field: its one-letter name, a colon, and the number between blanks. -/
def fieldValue (name : Char) (field : List Char) : Except LineFault Int :=
  match field with
  | letter :: ':' :: number =>
    if letter = name then
      match Text.Numeral.integerWithin? (UInt32.size / 2) (Text.trim number) with
      | some value => .ok value
      | none => .error .notANumber
    else .error .misnamedField
  | _ => .error .misnamedField

/-- The number in the first field of a list, and the fields behind it. -/
def takeField (name : Char) : List (List Char) → Except LineFault (Int × List (List Char))
  | [] => .error .missingField
  | field :: rest => (fieldValue name field).map (fun value => (value, rest))

/-- The three numbers of a line, flame, fan and temperature. -/
def numbers (line : List Char) : Except LineFault (Int × Int × Int) := do
  let (flame, rest) ← takeField 'F' (Text.splitAt ',' line)
  let (fan, rest) ← takeField 'S' rest
  let (temperature, rest) ← takeField 'T' rest
  if rest.isEmpty then return (flame, fan, temperature) else throw .trailingFields

/-- The reading of three numbers; the first one out of range is named. -/
def ofNumbers (flame fan temperature : Int) : Except DecodeError Reading := do
  Quantity.flame.check 0 1 flame
  Quantity.fan.check 0 Reading.fanLimit fan
  Quantity.temperature.check Reading.lineTemperatureFloor Reading.temperatureLimit temperature
  return ⟨flame == 1, UInt8.ofInt fan, Int16.ofInt temperature, 0, true⟩

/-- The reading of a line without its end. -/
def ofLine (line : Bytes) : Except DecodeError Reading :=
  match Text.Utf8.decode? line with
  | none => .error (.malformedLine .notText)
  | some text =>
    match numbers text.toList with
    | .error fault => .error (.malformedLine fault)
    | .ok (flame, fan, temperature) => ofNumbers flame fan temperature

/-- The first line of the bytes, if it is a good one. -/
def locate (bytes : Bytes) : Except DecodeError Sighting :=
  if sizeLimit ≤ bytes.length then .error (.lineTooLong bytes.length)
  else
    match startIndex? bytes with
    | none => .error .noLine
    | some start =>
      match endIndex? bytes start with
      | none => .error (.malformedLine .unterminated)
      | some stop => (ofLine (between bytes start stop)).map (fun r => ⟨r, start, stop + 1⟩)

/-- The reading of the first line. -/
def read (bytes : Bytes) : Except DecodeError Reading :=
  (locate bytes).map (fun s => s.reading)

theorem endIndex?_bounds {bytes : Bytes} {start stop : Nat}
    (h : endIndex? bytes start = some stop) : start ≤ stop ∧ stop < bytes.length := by
  simp only [endIndex?, Option.map_eq_some_iff] at h
  obtain ⟨i, hi, rfl⟩ := h
  have := (List.findIdx?_eq_some_iff_getElem.1 hi).1
  simp only [List.length_drop] at this
  omega

/-- A line that was located ends within the bytes and is not empty. -/
theorem locate_bounds {bytes : Bytes} {s : Sighting} (h : locate bytes = .ok s) :
    s.start < s.stop ∧ s.stop ≤ bytes.length := by
  unfold locate at h
  split at h
  · cases h
  split at h
  · cases h
  split at h
  · cases h
  · rename_i start _ _ stop he
    have := endIndex?_bounds he
    cases hr : ofLine (between bytes start stop) with
    | error e => rw [hr] at h; cases h
    | ok r =>
      rw [hr] at h
      cases h
      exact ⟨by simp only; omega, by simp only; omega⟩

end BurnerTelemetry.Wire.StatusLine
