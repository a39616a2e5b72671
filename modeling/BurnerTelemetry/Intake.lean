import BurnerTelemetry.ByteRing
import BurnerTelemetry.ReadingLink
import BurnerTelemetry.Wire.Reassembly

/-!
The decoding side: bytes wait in the ring until they are drained through the reassembly window
into the link.
-/
namespace BurnerTelemetry

structure Intake where
  ring : ByteRing
  reassembly : Wire.Reassembly
  deriving DecidableEq, Repr

namespace Intake

/-- The most bytes that are handed to the window at a time. -/
def pieceSize : Nat := 64

def empty : Intake := ⟨ByteRing.empty, Wire.Reassembly.empty⟩

/-- Takes in bytes from the line. -/
def push (i : Intake) (bytes : Bytes) : Intake := { i with ring := i.ring.pushAll bytes }

/-- The messages that a drain finds. -/
def found (i : Intake) : List Wire.Sighting :=
  (i.reassembly.receiveAll (i.ring.readPieces pieceSize).1).1

/-- Decodes all that waits in the ring and sends each reading over the link. Answers how many the
link took, and raises the signal if it took any. -/
def drain (i : Intake) (l : ReadingLink) : Nat × Intake × ReadingLink :=
  let (pieces, ring) := i.ring.readPieces pieceSize
  let (found, reassembly) := i.reassembly.receiveAll pieces
  let (sent, link) := l.sendAll (found.map (fun s => s.reading))
  (sent, ⟨ring, reassembly⟩, if sent = 0 then link else link.signal)

end Intake

end BurnerTelemetry
