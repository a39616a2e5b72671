import BurnerTelemetry.Proofs.Attribute.Snapshot
import BurnerTelemetry.Proofs.Wire.Status

/-!
The attributes that messages are promoted to. Which attributes are published after some messages,
how often they changed and which of them ever did are functions of the messages alone.
-/
namespace BurnerTelemetry

open Attribute (Changes Snapshot)
open Wire (Status)

/-- The three attributes without their history. -/
structure Attributes where
  flame : Bool
  fan : UInt8
  temperature : UInt16
  deriving DecidableEq, Repr

namespace Attributes

/-- Everything off. -/
def zero : Attributes := ⟨false, 0, 0⟩

/-- The attributes in which two messages differ. -/
def changesSince (a previous : Attributes) : Changes :=
  ⟨a.flame != previous.flame, a.fan != previous.fan, a.temperature != previous.temperature⟩

theorem isEmpty_changesSince (a previous : Attributes) :
    (a.changesSince previous).isEmpty = true ↔ a = previous := by
  rw [Changes.isEmpty_iff]
  constructor
  · intro h
    obtain ⟨flame, fan, temperature⟩ := a
    obtain ⟨flame', fan', temperature'⟩ := previous
    simp only [changesSince, Changes.none, Changes.mk.injEq, bne_eq_false_iff_eq] at h
    obtain ⟨rfl, rfl, rfl⟩ := h
    rfl
  · rintro rfl
    simp [changesSince, Changes.none]

end Attributes

/-- What a message is promoted to: a temperature below zero is raised to zero. -/
def Wire.Status.attributes : Status → Attributes
  | frame flame _ fan temperature => ⟨flame, fan, temperature⟩
  | line flame fan temperature _ => ⟨flame, UInt8.ofNat fan, UInt16.ofNat temperature.toNat⟩

/-- The error code of a message; a line has none. -/
def Wire.Status.errorCode : Status → UInt8
  | frame _ errorCode _ _ => errorCode
  | line _ _ _ _ => 0

namespace Attributes

/-- The attributes after some messages. -/
def after (previous : Attributes) : List Status → Attributes
  | [] => previous
  | m :: rest => after m.attributes rest

/-- The number of messages that change an attribute. -/
def changeCount (previous : Attributes) : List Status → Nat
  | [] => 0
  | m :: rest => (if m.attributes = previous then 0 else 1) + changeCount m.attributes rest

/-- The attributes that some message changes. -/
def changed (previous : Attributes) : List Status → Changes
  | [] => Changes.none
  | m :: rest => (m.attributes.changesSince previous).union (changed m.attributes rest)

theorem after_concat (previous : Attributes) (messages : List Status) (m : Status) :
    after previous (messages ++ [m]) = m.attributes := by
  induction messages generalizing previous with
  | nil => rfl
  | cons n rest ih => exact ih n.attributes

theorem changeCount_concat (previous : Attributes) (messages : List Status) (m : Status) :
    changeCount previous (messages ++ [m]) =
      changeCount previous messages + if m.attributes = after previous messages then 0 else 1 := by
  induction messages generalizing previous with
  | nil => exact Nat.add_comm _ 0
  | cons n rest ih =>
    rw [List.cons_append, changeCount, changeCount, ih, Nat.add_assoc]
    rfl

theorem changed_concat (previous : Attributes) (messages : List Status) (m : Status) :
    changed previous (messages ++ [m]) =
      (changed previous messages).union (m.attributes.changesSince (after previous messages)) := by
  induction messages generalizing previous with
  | nil => simp [changed, after]
  | cons n rest ih => simp only [List.cons_append, changed, after, ih, Changes.union_assoc]

end Attributes

namespace Attribute.Snapshot

def attributes (s : Snapshot) : Attributes := ⟨s.flame, s.fan, s.temperature⟩

theorem changesSince_eq (s previous : Snapshot) :
    s.changesSince previous = s.attributes.changesSince previous.attributes := rfl

/-- A snapshot has the attributes of the message that it was made of. -/
theorem attributes_ofReading {m : Status} (h : m.WellFormed) (now : UInt64) (version : UInt32) :
    (ofReading m.reading now version).attributes = m.attributes := by
  cases m with
  | frame flame errorCode fan temperature =>
    obtain ⟨_, hfan, htemp⟩ := h
    have hsmall : temperature.toNat < 2 ^ 15 := Nat.lt_of_le_of_lt htemp (by decide)
    have hword : temperature.toInt16 = Int16.ofNat temperature.toNat := by
      rw [← UInt16.toInt16_ofNat', UInt16.ofNat_toNat]
    have hdegrees : temperature.toInt16.toInt.toNat = temperature.toNat := by
      rw [hword, Int16.toInt_ofNat_of_lt hsmall, Int.toNat_natCast]
    have hpercent : min fan.toNat Reading.fanLimit = fan.toNat := Nat.min_eq_left hfan
    have hbound : min temperature.toNat Reading.temperatureLimit = temperature.toNat :=
      Nat.min_eq_left htemp
    simp only [attributes, ofReading, Status.reading, Status.attributes, hdegrees, hpercent,
      hbound, UInt8.ofNat_toNat, UInt16.ofNat_toNat]
  | line flame fan temperature hasReturn =>
    obtain ⟨hfan, hlow, hhigh⟩ := h
    have hdegrees : (Int16.ofInt temperature).toInt = temperature :=
      Int16.toInt_ofInt_of_le (by omega) (by omega)
    have hbyte : (UInt8.ofNat fan).toNat = fan := UInt8.toNat_ofNat_of_lt' (by
      simp only [UInt8.size]
      omega)
    have hpercent : min fan Reading.fanLimit = fan := Nat.min_eq_left hfan
    have hlimit : temperature.toNat ≤ Reading.temperatureLimit := Int.toNat_le.2 hhigh
    have hbound : min temperature.toNat Reading.temperatureLimit = temperature.toNat :=
      Nat.min_eq_left hlimit
    simp only [attributes, ofReading, Status.reading, Status.attributes, hdegrees, hbyte,
      hpercent, hbound]

theorem attributes_update (previous : Snapshot) {m : Status} (h : m.WellFormed) (now : UInt64) :
    (previous.update m.reading now).attributes = m.attributes := by
  rw [update_eq]
  exact attributes_ofReading h now _

/-- The version counts the messages that change an attribute. -/
theorem version_update_message (previous : Snapshot) {m : Status} (h : m.WellFormed)
    (now : UInt64) :
    (previous.update m.reading now).version =
      previous.version + UInt32.ofNat (if m.attributes = previous.attributes then 0 else 1) := by
  have hsame : ((previous.update m.reading now).changesSince previous).isEmpty = true ↔
      m.attributes = previous.attributes := by
    rw [changesSince_eq, attributes_update previous h, Attributes.isEmpty_changesSince]
  rw [version_update]
  by_cases heq : m.attributes = previous.attributes
  · rw [if_pos (hsame.2 heq), if_pos heq]
    exact (UInt32.add_zero _).symm
  · rw [if_neg (fun hempty => heq (hsame.1 hempty)), if_neg heq]
    rfl

end Attribute.Snapshot

end BurnerTelemetry
