import BurnerTelemetry.Reading

/-!
A reading together with where its message stands in the bytes it was found in.
-/
namespace BurnerTelemetry.Wire

/-- The message of `reading` runs from offset `start` up to, not including, `stop`. -/
structure Sighting where
  reading : Reading
  start : Nat
  stop : Nat
  deriving DecidableEq, Repr

/-- The bytes of the message itself. -/
def Sighting.length (s : Sighting) : Nat := s.stop - s.start

end BurnerTelemetry.Wire
