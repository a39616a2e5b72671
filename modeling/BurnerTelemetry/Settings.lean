/-!
The settings of the relay, their defaults, and what they must keep to.
-/
namespace BurnerTelemetry

/-- The serial line to the burner: 9600 baud, eight data bits, one stop bit, no parity. -/
structure LineFormat where
  baudRate : UInt32
  dataBits : UInt8
  stopBits : UInt8
  parity : Bool
  deriving DecidableEq, Repr

def LineFormat.burner : LineFormat := ⟨9600, 8, 1, false⟩

/-- The name of the built-in simulator in place of a serial device. -/
def simulatorDevice : String := "mock"

structure SerialSettings where
  device : String
  baudRate : UInt32
  /-- The time between two messages of the simulator, in milliseconds. -/
  simulatorInterval : UInt64
  deriving DecidableEq, Repr

structure TargetSettings where
  address : String
  port : UInt16
  deriving DecidableEq, Repr

structure ReportSettings where
  /-- The local address that reports are sent from. -/
  bind : String
  /-- The least time between two reports to one target, in milliseconds. -/
  interval : UInt64
  targets : List TargetSettings
  deriving DecidableEq, Repr

structure Settings where
  serial : SerialSettings
  report : ReportSettings
  /-- The time without a reading after which the attributes are cleared, in milliseconds. -/
  staleTimeout : UInt64
  logLevel : String
  /-- The time the reporting side rests when nothing waits, in microseconds. -/
  idlePoll : UInt64
  deriving DecidableEq, Repr

inductive SettingsError where
  /-- The settings cannot be read, or one of them has no value of its kind. -/
  | unreadable
  | zeroBaudRate
  | zeroIdlePoll
  | zeroStaleTimeout
  deriving DecidableEq, Repr

def SettingsError.message : SettingsError → String
  | unreadable => "configuration error"
  | zeroBaudRate => "invalid configuration: serial.baud_rate must be non-zero"
  | zeroIdlePoll => "invalid configuration: idle_poll_us must be non-zero"
  | zeroStaleTimeout => "invalid configuration: stale_timeout_ms must be non-zero"

/-- The device is the simulator, in whatever case its name is written. -/
def SerialSettings.isSimulator (s : SerialSettings) : Bool :=
  s.device.toList.map Char.toLower == simulatorDevice.toList

namespace Settings

def default : Settings where
  serial := ⟨simulatorDevice, LineFormat.burner.baudRate, 1000⟩
  report := ⟨"0.0.0.0:0", 0, []⟩
  staleTimeout := 30000
  logLevel := "info"
  idlePoll := 100

/-- Refuses settings with a zero that would stop the relay. -/
def validate (s : Settings) : Except SettingsError Settings :=
  if s.serial.baudRate = 0 then .error .zeroBaudRate
  else if s.idlePoll = 0 then .error .zeroIdlePoll
  else if s.staleTimeout = 0 then .error .zeroStaleTimeout
  else .ok s

/-- The idle time in nanoseconds. -/
def idlePollNanoseconds (s : Settings) : Nat := 1000 * s.idlePoll.toNat

end Settings

end BurnerTelemetry
