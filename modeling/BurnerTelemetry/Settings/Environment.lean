import BurnerTelemetry.Decimal.Reading
import BurnerTelemetry.Settings.Path
import BurnerTelemetry.Toml.Value

/-!
Settings in the environment. A variable whose name starts with the prefix, in any case, holds one
setting; two underscores stand between the levels of its path. Its text is taken for a boolean, a
whole number or a number where it looks like one.
-/
namespace BurnerTelemetry.Settings

/-- The first part of the names of variables that hold settings. -/
def environmentPrefix : String := "VIKING_BRIDGE"

/-- Text with a dot for every two underscores. -/
def dotted : List Char → List Char
  | '_' :: '_' :: rest => '.' :: dotted rest
  | c :: rest => c :: dotted rest
  | [] => []

/-- The path of the setting that a variable of this name holds. -/
def variablePath? (name : String) : Option String :=
  let start := (lower environmentPrefix).toList ++ ['_', '_']
  let name := (lower name).toList
  if start.isPrefixOf name then some (String.ofList (dotted (name.drop start.length))) else none

/-- The value of a variable. -/
def variableValue (text : String) : Toml.Value :=
  let chars := text.toList
  if lower text = "true" then .boolean true
  else if lower text = "false" then .boolean false
  else
    match Text.Numeral.integerWithin? (UInt64.size / 2) chars with
    | some i => .integer i
    | none =>
      match Decimal.ofChars? chars with
      | some f => .float f
      | none => .text text

/-- The settings of an environment. -/
def ofEnvironment (environment : List (String × String)) : Toml.Fields :=
  environment.filterMap (fun v => (variablePath? v.1).map (fun path => (path, variableValue v.2)))

end BurnerTelemetry.Settings
