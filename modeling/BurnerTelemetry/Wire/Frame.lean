import BurnerTelemetry.Bytes
import BurnerTelemetry.Wire.DecodeError
import BurnerTelemetry.Wire.Sighting

/-!
The six-byte status frame: a start mark, flags, fan speed, temperature with its high byte first,
an end mark. Bit 0 of the flags is the flame, the other seven are the error code. Every offset is
a possible start, so noise or a faulty frame never hides a good frame behind it.
-/
namespace BurnerTelemetry.Wire

structure Frame where
  flags : UInt8
  fan : UInt8
  temperature : UInt16
  deriving DecidableEq, Repr

namespace Frame

def startMark : UInt8 := 0xAA

def endMark : UInt8 := 0x55

/-- The length of a frame in bytes. -/
def size : Nat := 6

/-- The frame of a status; an error code has seven bits and loses the eighth. -/
def ofStatus (flame : Bool) (errorCode fan : UInt8) (temperature : UInt16) : Frame :=
  ⟨errorCode <<< 1 ||| (if flame then 1 else 0), fan, temperature⟩

def toBytes (f : Frame) : Bytes :=
  [startMark, f.flags, f.fan, Bytes.highHalf f.temperature, Bytes.lowHalf f.temperature, endMark]

@[simp] theorem length_toBytes (f : Frame) : f.toBytes.length = size := rfl

/-- Checks the fan speed, then the temperature. -/
def toReading (f : Frame) : Except DecodeError Reading :=
  if Reading.fanLimit < f.fan.toNat then
    .error (.outOfRange .fan f.fan.toNat 0 Reading.fanLimit)
  else if Reading.temperatureLimit < f.temperature.toNat then
    .error (.outOfRange .temperature f.temperature.toNat 0 Reading.temperatureLimit)
  else
    .ok ⟨f.flags &&& 1 != 0, f.fan, f.temperature.toInt16, (f.flags >>> 1) &&& 0x7F, true⟩

/-- The frame that stands at the front of the bytes, if the two marks are in place. -/
def atFront? : Bytes → Option Frame
  | first :: flags :: fan :: high :: low :: last :: _ =>
    if first = startMark ∧ last = endMark then some ⟨flags, fan, Bytes.joinHalves high low⟩ else none
  | _ => none

/-- The first acceptable frame, with offsets counted from `start`. Without one the answer is the
fault of the last marked frame, or `fault` when no marks are in place either. -/
def locateFrom (start : Nat) (fault : DecodeError) : Bytes → Except DecodeError Sighting
  | [] => .error fault
  | b :: rest =>
    match atFront? (b :: rest) with
    | none => locateFrom (start + 1) fault rest
    | some frame =>
      match frame.toReading with
      | .ok reading => .ok ⟨reading, start, start + size⟩
      | .error e => locateFrom (start + 1) e rest

/-- The first acceptable frame in the bytes. -/
def locate (bytes : Bytes) : Except DecodeError Sighting :=
  if bytes.length < size then .error (.tooShort bytes.length size)
  else locateFrom 0 .noFrame bytes

/-- The reading of the first acceptable frame. -/
def read (bytes : Bytes) : Except DecodeError Reading :=
  (locate bytes).map (fun s => s.reading)

/-- A marked frame with a field out of range stands at the front. -/
def isFaultyAtFront (bytes : Bytes) : Bool :=
  match atFront? bytes with
  | none => false
  | some frame => frame.toReading.toOption.isNone

/-- The number of offsets at which a marked frame has a field out of range. -/
def faultyCount : Bytes → Nat
  | [] => 0
  | b :: rest => (if isFaultyAtFront (b :: rest) then 1 else 0) + faultyCount rest

@[simp] theorem faultyCount_nil : faultyCount [] = 0 := rfl

theorem locateFrom_stop {start : Nat} {fault : DecodeError} {bytes : Bytes} {s : Sighting}
    (h : locateFrom start fault bytes = .ok s) : s.stop = s.start + size ∧ start ≤ s.start := by
  fun_induction locateFrom start fault bytes with
  | case1 => cases h
  | case2 start fault b rest hb ih => exact ⟨(ih h).1, by have := (ih h).2; omega⟩
  | case3 start fault b rest frame hb reading hr => cases h; exact ⟨rfl, Nat.le_refl _⟩
  | case4 start fault b rest frame hb e hr ih => exact ⟨(ih h).1, by have := (ih h).2; omega⟩

/-- A frame that was located is six bytes long. -/
theorem locate_stop {bytes : Bytes} {s : Sighting} (h : locate bytes = .ok s) :
    s.stop = s.start + size := by
  unfold locate at h
  split at h
  · cases h
  · exact (locateFrom_stop h).1

end Frame

end BurnerTelemetry.Wire
