import BurnerTelemetry.Decimal.Shortest
import BurnerTelemetry.Settings
import BurnerTelemetry.Settings.Environment
import BurnerTelemetry.Settings.Layer
import BurnerTelemetry.Toml.Document

/-!
Settings from a document and the environment. Unknown names are passed over and missing ones
take their default; a value of another kind is converted where it has a meaning as the kind that
is asked for.
-/
namespace BurnerTelemetry.Settings

open Toml (Fields Value)

/-- The greatest natural number a setting can hold, as a bound for numbers with a point. -/
def greatestNatural : Nat := UInt64.size - 1

/-- A natural number below `bound`. Switches count as 1 and 0, a number with a point goes to the
nearest whole one, and text is read as either. -/
def natural? (bound : Nat) (v : Value) : Option Nat :=
  let n : Option Nat := match v with
    | .boolean b => some b.toNat
    | .integer i => if 0 ≤ i then some i.toNat else none
    | .float f => some (f.toNatWithin greatestNatural)
    | .text s | .moment s =>
      if lower s ∈ ["true", "on", "yes"] then some 1
      else if lower s ∈ ["false", "off", "no"] then some 0
      else Text.Numeral.natural? (s.toList.map lowerChar)
    | .array _ _ | .table _ _ => none
  n.filter (fun n => decide (n < bound))

/-- A text; any value but an array or a table has one. -/
def text? : Value → Option String
  | .boolean b => some (if b then "true" else "false")
  | .integer i => some (toString i)
  | .float f => some f.render
  | .text s | .moment s => some s
  | .array _ _ | .table _ _ => none

/-- The value of a field, read by `read?`, or its default. -/
def fieldOr (fields : Fields) (name : String) (read? : Value → Option α) (default : α) :
    Option α :=
  match fields.find? name with
  | none => some default
  | some v => read? v

def word32? (v : Value) : Option UInt32 := (natural? UInt32.size v).map UInt32.ofNat

def word64? (v : Value) : Option UInt64 := (natural? UInt64.size v).map UInt64.ofNat

def word16? (v : Value) : Option UInt16 := (natural? UInt16.size v).map UInt16.ofNat

/-- The fields of a section: a table, or an array of their values in the order of their names.
Values behind the last name are passed over. -/
def sectionFields? (names : List String) : Value → Option Fields
  | .table _ fields => some fields
  | .array _ items => some (names.zip items)
  | _ => none

def serial? (v : Value) : Option SerialSettings := do
  let fields ← sectionFields? ["device", "baud_rate", "mock_interval_ms"] v
  let device ← fieldOr fields "device" text? Settings.default.serial.device
  let baudRate ← fieldOr fields "baud_rate" word32? Settings.default.serial.baudRate
  let interval ← fieldOr fields "mock_interval_ms" word64? Settings.default.serial.simulatorInterval
  return ⟨device, baudRate, interval⟩

/-- A target, which has no defaults. -/
def target? (v : Value) : Option TargetSettings := do
  let fields ← sectionFields? ["address", "port"] v
  let address ← text? (← fields.find? "address")
  let port ← word16? (← fields.find? "port")
  return ⟨address, port⟩

def targets? : Value → Option (List TargetSettings)
  | .array _ items => items.mapM target?
  | _ => none

def report? (v : Value) : Option ReportSettings := do
  let fields ← sectionFields? ["bind", "interval_ms", "targets"] v
  let bind ← fieldOr fields "bind" text? Settings.default.report.bind
  let interval ← fieldOr fields "interval_ms" word64? Settings.default.report.interval
  let targets ← fieldOr fields "targets" targets? Settings.default.report.targets
  return ⟨bind, interval, targets⟩

/-- The settings of a tree. -/
def ofTree? (tree : Value) : Option Settings := do
  let fields := tree.fields
  let serial ← fieldOr fields "serial" serial? Settings.default.serial
  let report ← fieldOr fields "report" report? Settings.default.report
  let staleTimeout ← fieldOr fields "stale_timeout_ms" word64? Settings.default.staleTimeout
  let logLevel ← fieldOr fields "log_level" text? Settings.default.logLevel
  let idlePoll ← fieldOr fields "idle_poll_us" word64? Settings.default.idlePoll
  return ⟨serial, report, staleTimeout, logLevel, idlePoll⟩

/-- The settings of layers, a later one overriding the ones before it. -/
def ofLayers (layers : List Fields) : Except SettingsError Settings :=
  match ofTree? (layers.foldl addLayer (tableOf [])) with
  | none => .error .unreadable
  | some settings => settings.validate

/-- The settings of a document alone. -/
def ofDocument (text : String) : Except SettingsError Settings :=
  match Toml.document? text with
  | none => .error .unreadable
  | some fields => ofLayers [fields]

/-- Where settings may be found besides the environment. -/
inductive File where
  | none
  /-- A file was named and is not there. -/
  | missing
  | text (s : String)
  deriving DecidableEq, Repr

/-- The settings of a file, overridden by those of the environment. -/
def load (file : File) (environment : List (String × String)) : Except SettingsError Settings :=
  match file with
  | .none => ofLayers [ofEnvironment environment]
  | .missing => .error .unreadable
  | .text s =>
    match Toml.document? s with
    | none => .error .unreadable
    | some fields => ofLayers [fields, ofEnvironment environment]

end BurnerTelemetry.Settings
