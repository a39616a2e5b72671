import BurnerTelemetry.CommandLine
import BurnerTelemetry.LogLevel
import BurnerTelemetry.Relay
import BurnerTelemetry.Settings.Load
import BurnerTelemetry.Simulator

/-!
The program: it reads its settings, relays what the serial line brings until the line is closed,
and prints every report as its destination and its bytes in hexadecimal. The serial line is used
as the system has set it up.
-/
namespace BurnerTelemetry.Program

def usage : String :=
  "Viking Bio burner to smart-home attribute bridge\n\n" ++
  "Usage: viking-bridge [OPTIONS]\n\n" ++
  "Options:\n" ++
  "  -c, --config <CONFIG>  TOML configuration file [env: VIKING_BRIDGE_CONFIG=]\n" ++
  "  -h, --help             Print help\n" ++
  "  -V, --version          Print version"

def version : String := "viking-bridge 0.1.0"

/-- What is said of a command line that cannot be used. -/
def complaint : UsageError → String
  | .helpRequested => usage
  | .versionRequested => version
  | .unknownArgument => "error: unexpected argument found"
  | .invalidValue => "error: a value is required for --config but none was supplied"
  | .tooManyValues => "error: unexpected value found; no more were expected"
  | .repeatedOption => "error: --config cannot be used more than once"

/-- The names of the variables that may hold settings, behind the prefix. -/
def settingNames : List String :=
  ["SERIAL", "SERIAL__DEVICE", "SERIAL__BAUD_RATE", "SERIAL__MOCK_INTERVAL_MS", "REPORT",
    "REPORT__BIND", "REPORT__INTERVAL_MS", "REPORT__TARGETS", "STALE_TIMEOUT_MS", "LOG_LEVEL",
    "IDLE_POLL_US"]

/-- The variables of the environment that hold settings. -/
def settingVariables : IO (List (String × String)) :=
  settingNames.filterMapM (fun suffix => do
    let name := Settings.environmentPrefix ++ "__" ++ suffix
    return (← IO.getEnv name).map (fun value => (name, value)))

/-- The text of the settings file. -/
def settingsFile : Option String → IO Settings.File
  | none => return .none
  | some path =>
    try
      return .text (← IO.FS.readFile path)
    catch _ => return .missing

/-- The source of the bytes of the line: the simulator or the device. No bytes are the end. -/
def openLine (s : SerialSettings) : IO (IO Bytes) := do
  if s.isSimulator then
    let simulator ← IO.mkRef Simulator.initial
    return do
      IO.sleep (UInt32.ofNat (max 1 s.simulatorInterval.toNat))
      simulator.modifyGet (fun s => s.next)
  else
    let device ← IO.FS.Handle.mk s.device .read
    return do return (← device.read (USize.ofNat Intake.pieceSize)).toList

def hex (b : UInt8) : String :=
  String.ofList [Nat.digitChar (b.toNat / 16), Nat.digitChar (b.toNat % 16)]

def deliver (attempts : List Attempt) : IO Unit := do
  for attempt in attempts do
    IO.println s!"{attempt.destination.render} {String.join (attempt.payload.map hex)}"
  (← IO.getStdout).flush

/-- Goes through one event and delivers its reports. -/
def happen (relay : Relay) (event : Relay.Event) : IO Relay := do
  let (attempts, next) := relay.step event
  deliver attempts
  return next

/-- Relays until the line is closed. Rounds go on while the line is silent. -/
partial def serve (s : Settings) (start : Nat) (line : IO Bytes)
    (waiting : Task (Except IO.Error Bytes)) (relay : Relay) : IO Unit := do
  let relay := relay.atTime (UInt64.ofNat ((← IO.monoMsNow) - start))
  if ← IO.hasFinished waiting then
    let bytes ← IO.ofExcept waiting.get
    let relay ← happen relay (.push bytes)
    let relay ← happen relay .drain
    let relay ← happen relay .round
    if bytes.isEmpty then return
    else serve s start line (← IO.asTask line) relay
  else
    let relay ← happen relay .round
    IO.sleep (UInt32.ofNat (max 1 (s.idlePollNanoseconds / 1000000)))
    serve s start line waiting relay

/-- Runs the program on its settings. -/
def start (s : Settings) : IO UInt32 := do
  let refuse (message : String) : IO UInt32 := do
    IO.eprintln s!"Error: {message}"
    return 1
  match LogLevel.ofString? s.logLevel, Relay.ofSettings s with
  | none, _ => refuse (LogLevel.unknownMessage s.logLevel)
  | _, .error e => refuse (SessionError.targetRejected e).message
  | some _, .ok relay =>
    try
      let line ← openLine s.serial
      serve s (← IO.monoMsNow) line (← IO.asTask line) relay
      return 0
    catch e => refuse (SessionError.lineFailed (toString e)).message

/-- Reads the command line and the settings, and runs the program. -/
def run (args : List String) : IO UInt32 := do
  match CommandLine.parse ("viking-bridge" :: args) (← IO.getEnv "VIKING_BRIDGE_CONFIG") with
  | .error .helpRequested => IO.println usage; return 0
  | .error .versionRequested => IO.println version; return 0
  | .error e => IO.eprintln (complaint e); return 2
  | .ok path =>
    match Settings.load (← settingsFile path) (← settingVariables) with
    | .error e => IO.eprintln s!"Error: {e.message}"; return 1
    | .ok settings => start settings

end BurnerTelemetry.Program

def main (args : List String) : IO UInt32 := BurnerTelemetry.Program.run args
