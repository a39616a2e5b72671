/-!
The command line: the name of a settings file, given by `--config` or `-c` or by the environment,
and the requests for help and for the version. The value of an option may be attached to it or
follow it; one that follows is settled when the next option comes or the line ends.
-/
namespace BurnerTelemetry

/-- Why a command line does not start the program. -/
inductive UsageError where
  | helpRequested
  | versionRequested
  | unknownArgument
  /-- The option lacks its value, or has an empty one. -/
  | invalidValue
  /-- A flag was given a value. -/
  | tooManyValues
  /-- The option was given twice. -/
  | repeatedOption
  deriving DecidableEq, Repr

namespace CommandLine

/-- What has been read of a command line. -/
structure State where
  config : Option String
  /-- The option was given and is not settled; its value may still have to come. -/
  pending : Option (Option String)
  deriving DecidableEq, Repr

/-- Gives the option its value, once and not empty. -/
def accept (s : State) (value : String) : Except UsageError State :=
  if s.config.isSome then .error .repeatedOption
  else if value = "" then .error .invalidValue
  else .ok ⟨some value, none⟩

/-- Settles an option that was given. -/
def settle (s : State) : Except UsageError State :=
  match s.pending with
  | none => .ok s
  | some none => .error .invalidValue
  | some (some value) => accept s value

/-- The option, with the value attached to it if there is one. -/
def option (s : State) (attached : Option String) : Except UsageError State := do
  let settled ← settle s
  match attached with
  | some value => accept settled value
  | none => return { settled with pending := some none }

/-- A flag that ends the reading of the line, once what was given before is in order. -/
def request (s : State) (e : UsageError) : Except UsageError State := do
  let _ ← settle s
  throw e

/-- An argument with two dashes in front: a name, and behind an equals sign a value. -/
def long (s : State) (body : List Char) : Except UsageError State :=
  let name := String.ofList (body.takeWhile (fun c => c != '='))
  let attached : Option String := match body.dropWhile (fun c => c != '=') with
    | [] => none
    | _ :: value => some (String.ofList value)
  if name = "config" then option s attached
  else if name = "help" ∨ name = "version" then
    if attached.isSome then .error .tooManyValues
    else request s (if name = "help" then .helpRequested else .versionRequested)
  else .error .unknownArgument

/-- The value attached to a short option, whose equals sign may be left out. -/
def attachedTo : List Char → Option String
  | [] => none
  | '=' :: value => some (String.ofList value)
  | value => some (String.ofList value)

/-- Letters behind one dash. The first one decides: the option takes the rest as its value, and
the flags end the line. -/
def short (s : State) : List Char → Except UsageError State
  | 'c' :: rest => option s (attachedTo rest)
  | 'h' :: _ => request s .helpRequested
  | 'V' :: _ => request s .versionRequested
  | _ => .error .unknownArgument

/-- An argument without a dash, or a lone dash: the value that an option waits for. -/
def plain (s : State) (arg : String) : Except UsageError State :=
  match s.pending with
  | some none => .ok { s with pending := some (some arg) }
  | _ => .error .unknownArgument

/-- One argument. -/
def argument (s : State) (arg : String) : Except UsageError State :=
  match arg.toList with
  | '-' :: '-' :: body => long s body
  | '-' :: c :: rest => short s (c :: rest)
  | _ => plain s arg

/-- The arguments one after another. Nothing may follow two dashes alone. -/
def arguments (s : State) : List String → Except UsageError State
  | [] => settle s
  | arg :: rest =>
    if arg = "--" then if rest.isEmpty then settle s else .error .unknownArgument
    else
      match argument s arg with
      | .ok next => arguments next rest
      | .error e => .error e

/-- The settings file that a command line names, the first argument being the name of the
program. The environment counts only where the option is not given. -/
def parse (args : List String) (fallback : Option String) : Except UsageError (Option String) := do
  let s ← arguments ⟨none, none⟩ args.tail
  match s.config, fallback with
  | some value, _ => return some value
  | none, none => return none
  | none, some value => if value = "" then throw .invalidValue else return some value

end CommandLine

end BurnerTelemetry
