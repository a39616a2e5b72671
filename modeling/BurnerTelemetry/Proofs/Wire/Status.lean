import BurnerTelemetry.Proofs.Wire.Frame
import BurnerTelemetry.Proofs.Wire.StatusLine

/-!
The messages of a burner that works as it should, and what they are decoded to: frames whose
fields are in range, and lines whose numbers are in range and stand in plain decimal.
-/
namespace BurnerTelemetry.Wire

/-- What a burner reports in one message. -/
inductive Status where
  | frame (flame : Bool) (errorCode fan : UInt8) (temperature : UInt16)
  | line (flame : Bool) (fan : Nat) (temperature : Int) (hasReturn : Bool)
  deriving DecidableEq, Repr

namespace Status

/-- The message on the wire. -/
def toBytes : Status → Bytes
  | frame flame errorCode fan temperature =>
    (Frame.ofStatus flame errorCode fan temperature).toBytes
  | line flame fan temperature hasReturn =>
    Text.Utf8.encode (String.ofList (StatusLine.text (if flame then 1 else 0) fan temperature)) ++
      StatusLine.optionalReturn hasReturn ++ [StatusLine.lineFeed]

/-- The fields are in range; only a line has room for a temperature below zero. -/
def WellFormed : Status → Prop
  | frame _ errorCode fan temperature =>
    errorCode.toNat ≤ 127 ∧ fan.toNat ≤ 100 ∧ temperature.toNat ≤ 500
  | line _ fan temperature _ => fan ≤ 100 ∧ -50 ≤ temperature ∧ temperature ≤ 500

instance (m : Status) : Decidable m.WellFormed := by
  cases m <;> unfold WellFormed <;> infer_instance

/-- The record that the message stands for; a line has no error code. -/
def reading : Status → Reading
  | frame flame errorCode fan temperature => ⟨flame, fan, temperature.toInt16, errorCode, true⟩
  | line flame fan temperature _ =>
    ⟨flame, UInt8.ofNat fan, Int16.ofInt temperature, 0, true⟩

/-- A message takes far less than the window holds. -/
theorem length_toBytes_le {m : Status} (h : m.WellFormed) :
    Frame.size ≤ m.toBytes.length ∧ m.toBytes.length ≤ 19 := by
  cases m with
  | frame flame errorCode fan temperature =>
    rw [toBytes, Frame.length_toBytes]
    exact ⟨Nat.le_refl _, by decide⟩
  | line flame fan temperature hasReturn =>
    obtain ⟨hfan, htemp⟩ := h
    have hflame : (0 : Int) ≤ (if flame then 1 else 0) ∧ (if flame then 1 else 0 : Int) ≤ 1 := by
      cases flame <;> decide
    have htext : (StatusLine.text (if flame then 1 else 0) fan temperature).length ≤ 17 :=
      StatusLine.length_text_le hflame (by omega) htemp
    have hreturn : (StatusLine.optionalReturn hasReturn).length ≤ 1 := by
      cases hasReturn <;> decide
    have hlow : 8 ≤ (Text.Utf8.encode (String.ofList
        (StatusLine.text (if flame then 1 else 0) fan temperature))).length :=
      StatusLine.length_of_ofLine (StatusLine.ofLine_text hfan htemp)
    simp only [toBytes, List.length_append, List.length_singleton, Frame.size] at hlow ⊢
    rw [StatusLine.encode_text, List.length_map] at hlow ⊢
    omega

end Status

end BurnerTelemetry.Wire
