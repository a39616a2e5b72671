import BurnerTelemetry.Wire.Frame

/-!
A simulated burner. It lights, runs and shuts down in a cycle of sixty messages, every other one
a frame and the rest status lines.
-/
namespace BurnerTelemetry

structure Simulator where
  tick : UInt32
  deriving DecidableEq, Repr

namespace Simulator

/-- The number of messages in a cycle. -/
def cycle : Nat := 60

def initial : Simulator := ⟨0⟩

/-- The flame burns from the fifth message of a cycle to the forty-fourth. -/
def flame (phase : Nat) : Bool := decide (5 ≤ phase ∧ phase < 45)

/-- The fan speeds up, runs unevenly, and slows down. -/
def fan (phase : Nat) : Nat :=
  if phase < 5 then 20 * phase
  else if phase < 45 then 60 + 5 * (phase % 5)
  else 100 - 6 * (phase - 45)

/-- The burner warms while the flame burns, up to 180 degrees. -/
def temperature (phase : Nat) : Nat :=
  if flame phase then min (20 + 4 * (phase - 5)) 180 else 20

/-- The status line of a status, in plain decimal. -/
def line (flame : Bool) (fan temperature : Nat) : Bytes :=
  s!"F:{flame.toNat},S:{fan},T:{temperature}\n".toList.map (fun c => UInt8.ofNat c.toNat)

/-- The message of a phase of the cycle. -/
def message (phase : Nat) : Bytes :=
  if phase % 2 = 0 then
    (Wire.Frame.ofStatus (flame phase) 0 (UInt8.ofNat (fan phase))
      (UInt16.ofNat (temperature phase))).toBytes
  else line (flame phase) (fan phase) (temperature phase)

def next (s : Simulator) : Bytes × Simulator := (message (s.tick.toNat % cycle), ⟨s.tick + 1⟩)

/-- The next messages, as many as asked for. -/
def messages (s : Simulator) : Nat → List Bytes
  | 0 => []
  | n + 1 => s.next.1 :: s.next.2.messages n

/-- The first bytes of the stream of messages; no message is shorter than a frame. -/
def stream (s : Simulator) (count : Nat) : Bytes :=
  (s.messages (count / Wire.Frame.size + 1)).flatten.take count

end Simulator

end BurnerTelemetry
