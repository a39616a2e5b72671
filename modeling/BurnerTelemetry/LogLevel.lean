import BurnerTelemetry.Text.Numeral
import BurnerTelemetry.Text.Quoted

/-!
How much is logged. A level is named in any case or given by its number, from 1 for errors alone
to 5 for everything.
-/
namespace BurnerTelemetry

inductive LogLevel where
  | error | warn | info | debug | trace
  deriving DecidableEq, Repr

namespace LogLevel

/-- The levels in ascending order of what they show. -/
def all : List LogLevel := [error, warn, info, debug, trace]

def name : LogLevel → String
  | error => "error"
  | warn => "warn"
  | info => "info"
  | debug => "debug"
  | trace => "trace"

/-- The level of a number from 1 to 5. -/
def ofNat? : Nat → Option LogLevel
  | 0 => none
  | n + 1 => all[n]?

/-- The level of a name or a number. -/
def ofString? (s : String) : Option LogLevel :=
  let numbered : Option LogLevel := do ofNat? (← Text.Numeral.naturalBelow? UInt64.size s.toList)
  numbered.orElse (fun _ =>
    all.find? (fun level => s.toList.map Char.toLower == level.name.toList))

/-- What is said of a text that is no level. -/
def unknownMessage (s : String) : String :=
  s!"invalid configuration: unknown log level {Text.quote s}"

end LogLevel

end BurnerTelemetry
