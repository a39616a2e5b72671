import BurnerTelemetry.Reading

/-!
The three published attributes of a burner, and the sets of those that changed. A change of value
is what raises the version; the time of the last update is not an attribute.
-/
namespace BurnerTelemetry.Attribute

/-- A set of attributes. -/
structure Changes where
  flame : Bool
  fan : Bool
  temperature : Bool
  deriving DecidableEq, Repr

namespace Changes

def none : Changes := ⟨false, false, false⟩

def isEmpty (c : Changes) : Bool := !(c.flame || c.fan || c.temperature)

def count (c : Changes) : Nat := c.flame.toNat + c.fan.toNat + c.temperature.toNat

def union (c d : Changes) : Changes :=
  ⟨c.flame || d.flame, c.fan || d.fan, c.temperature || d.temperature⟩

@[simp] theorem isEmpty_none : none.isEmpty = true := rfl
@[simp] theorem union_none (c : Changes) : c.union none = c := by simp [union, none]
@[simp] theorem none_union (c : Changes) : none.union c = c := by simp [union, none]

theorem isEmpty_iff (c : Changes) : c.isEmpty = true ↔ c = none := by
  rcases c with ⟨a, b, c⟩
  cases a <;> cases b <;> cases c <;> decide

theorem union_assoc (c d e : Changes) : (c.union d).union e = c.union (d.union e) := by
  simp [union, Bool.or_assoc]

end Changes

structure Snapshot where
  flame : Bool
  /-- The fan speed in percent. -/
  fan : UInt8
  /-- The temperature in degrees Celsius, never negative. -/
  temperature : UInt16
  /-- When the attributes were last written, in milliseconds. -/
  updatedAt : UInt64
  version : UInt32
  deriving DecidableEq, Repr

namespace Snapshot

/-- Everything off, at the given time. -/
def initial (now : UInt64) : Snapshot := ⟨false, 0, 0, now, 0⟩

/-- The attributes of a reading. A fan speed or temperature beyond its limit becomes the limit,
and a negative temperature, which marks a faulty sensor, becomes zero. -/
def ofReading (r : Reading) (now : UInt64) (version : UInt32) : Snapshot where
  flame := r.flame
  fan := UInt8.ofNat (min r.fan.toNat Reading.fanLimit)
  temperature := UInt16.ofNat (min r.temperature.toInt.toNat Reading.temperatureLimit)
  updatedAt := now
  version := version

/-- The temperature in hundredths of a degree. -/
def centidegrees (s : Snapshot) : Nat := 100 * s.temperature.toNat

/-- The attributes in which two snapshots differ. -/
def changesSince (s previous : Snapshot) : Changes :=
  ⟨s.flame != previous.flame, s.fan != previous.fan, s.temperature != previous.temperature⟩

/-- The snapshot that a reading leaves behind; its version is raised if an attribute changed. -/
def update (previous : Snapshot) (r : Reading) (now : UInt64) : Snapshot :=
  let next := ofReading r now previous.version
  if (next.changesSince previous).isEmpty then next
  else { next with version := previous.version + 1 }

@[simp] theorem changesSince_self (s : Snapshot) : s.changesSince s = Changes.none := by
  simp [changesSince, Changes.none]

theorem changesSince_update (previous : Snapshot) (r : Reading) (now : UInt64) :
    (previous.update r now).changesSince previous =
      (ofReading r now previous.version).changesSince previous := by
  unfold update
  simp only
  split <;> rfl

end Snapshot

end BurnerTelemetry.Attribute
