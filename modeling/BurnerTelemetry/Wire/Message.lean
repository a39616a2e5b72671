import BurnerTelemetry.Wire.Frame
import BurnerTelemetry.Wire.StatusLine

/-!
A status message in either form. Frames go first; the bytes are tried as a line when they hold no
acceptable frame.
-/
namespace BurnerTelemetry.Wire.Message

/-- The first acceptable frame, or else the first line. Bytes that do not look like a line keep
the fault of the search for a frame. -/
def locate (bytes : Bytes) : Except DecodeError Sighting :=
  if bytes.length < Frame.size then .error (.tooShort bytes.length Frame.size)
  else
    match Frame.locate bytes with
    | .ok s => .ok s
    | .error frameFault =>
      match StatusLine.locate bytes with
      | .ok s => .ok s
      | .error .noLine => .error frameFault
      | .error e => .error e

def read (bytes : Bytes) : Except DecodeError Reading :=
  (locate bytes).map (fun s => s.reading)

/-- The reading and whether there is one; without one it is the invalid reading, never a
partly filled one. -/
def readOrInvalid (bytes : Bytes) : Reading × Bool :=
  match read bytes with
  | .ok r => (r, true)
  | .error _ => (.invalid, false)

end BurnerTelemetry.Wire.Message
