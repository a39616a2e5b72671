/-!
One status record of the burner, and the limits that its fields keep on the wire.
-/
namespace BurnerTelemetry

/-- A status record. It is `valid` only when some message was decoded into it. -/
structure Reading where
  flame : Bool
  fan : UInt8
  temperature : Int16
  errorCode : UInt8
  valid : Bool
  deriving DecidableEq, Repr

namespace Reading

/-- The highest fan speed, in percent. -/
def fanLimit : Nat := 100

/-- The highest temperature of either wire format, in degrees Celsius. -/
def temperatureLimit : Nat := 500

/-- The lowest temperature of the line format; frames have no negative ones. -/
def lineTemperatureFloor : Int := -50

/-- The safe record that stands for a message nobody could decode. -/
def invalid : Reading := ⟨false, 0, 0, 0, false⟩

/-- The record of a burner that has fallen silent: everything off, and valid. -/
def silent : Reading := { invalid with valid := true }

/-- The burner reports a fault. -/
def hasFault (r : Reading) : Bool := r.errorCode != 0

@[simp] theorem invalid_valid : invalid.valid = false := rfl
@[simp] theorem silent_valid : silent.valid = true := rfl

end Reading

end BurnerTelemetry
