import BurnerTelemetry.Attribute.Snapshot

/-!
What a write leaves behind: the values of its reading, cut to their limits, the time of the write,
and a version that is one higher if some value is another than before.
-/
namespace BurnerTelemetry.Attribute

/-- The changes of many writes, and of one more. -/
theorem Changes.foldr_union_concat (many : List Changes) (one : Changes) :
    (many ++ [one]).foldr union none = (many.foldr union none).union one := by
  induction many with
  | nil => exact (union_none one).trans (none_union one).symm
  | cons first rest ih => rw [List.cons_append, List.foldr_cons, ih, ← union_assoc, List.foldr_cons]

namespace Snapshot

theorem fan_ofReading (r : Reading) (now : UInt64) (version : UInt32) :
    (ofReading r now version).fan.toNat = min r.fan.toNat Reading.fanLimit := by
  have hlimit : min r.fan.toNat Reading.fanLimit ≤ 100 := Nat.min_le_right _ _
  exact UInt8.toNat_ofNat_of_lt' (Nat.lt_of_le_of_lt hlimit (by decide))

theorem temperature_ofReading (r : Reading) (now : UInt64) (version : UInt32) :
    (ofReading r now version).temperature.toNat =
      min r.temperature.toInt.toNat Reading.temperatureLimit := by
  have hlimit : min r.temperature.toInt.toNat Reading.temperatureLimit ≤ 500 :=
    Nat.min_le_right _ _
  exact UInt16.toNat_ofNat_of_lt' (Nat.lt_of_le_of_lt hlimit (by decide))

/-- A write changes nothing in the values of its reading but their version. -/
theorem update_eq (previous : Snapshot) (r : Reading) (now : UInt64) :
    previous.update r now = ofReading r now (previous.update r now).version := by
  unfold update
  simp only
  split
  · rfl
  · rfl

theorem flame_update (previous : Snapshot) (r : Reading) (now : UInt64) :
    (previous.update r now).flame = r.flame := by
  rw [update_eq]
  rfl

theorem fan_update (previous : Snapshot) (r : Reading) (now : UInt64) :
    (previous.update r now).fan.toNat = min r.fan.toNat Reading.fanLimit := by
  rw [update_eq]
  exact fan_ofReading r now _

theorem temperature_update (previous : Snapshot) (r : Reading) (now : UInt64) :
    (previous.update r now).temperature.toNat =
      min r.temperature.toInt.toNat Reading.temperatureLimit := by
  rw [update_eq]
  exact temperature_ofReading r now _

theorem updatedAt_update (previous : Snapshot) (r : Reading) (now : UInt64) :
    (previous.update r now).updatedAt = now := by
  rw [update_eq]
  rfl

/-- The version counts the writes that change something. -/
theorem version_update (previous : Snapshot) (r : Reading) (now : UInt64) :
    (previous.update r now).version =
      if ((previous.update r now).changesSince previous).isEmpty then previous.version
      else previous.version + 1 := by
  rw [changesSince_update]
  unfold update
  simp only
  split
  · rfl
  · rfl

/-- Hundredths of a degree fit their word, whatever the temperature. -/
theorem toInt_centidegrees (s : Snapshot) :
    (Int32.ofNat s.centidegrees).toInt = 100 * s.temperature.toNat := by
  have hrange : s.centidegrees < 2 ^ 31 := by
    have hword := s.temperature.toNat_lt
    rw [centidegrees]
    omega
  rw [Int32.toInt_ofNat_of_lt hrange, centidegrees, Int.natCast_mul]
  rfl

end Snapshot

end BurnerTelemetry.Attribute
