import BurnerTelemetry.Attribute.Snapshot
import BurnerTelemetry.Tlv.Cursor
import BurnerTelemetry.Tlv.Encoder

/-!
The report of changed attributes to a subscriber: an array with one structure per attribute, which
holds the version of the attributes, the path of the attribute, and its value.
-/
namespace BurnerTelemetry.Attribute

/-- The value of one attribute. -/
inductive Value where
  | onOff (on : Bool)
  | level (percent : UInt8)
  | centidegrees (value : Int32)
  deriving DecidableEq, Repr

/-- One attribute in a report. -/
structure Entry where
  version : UInt32
  endpoint : UInt8
  cluster : UInt32
  attributeId : UInt32
  value : Value
  deriving DecidableEq, Repr

inductive ReportFault where
  | unexpectedContainer
  | expectedEntry
  | noVersion
  | noEndpoint
  | noCluster
  | noAttribute
  | expectedStop
  | notALevel
  | unexpectedValue
  | endOfReport
  deriving DecidableEq, Repr

inductive ReportError where
  | malformed (fault : ReportFault)
  | unreadable (error : Tlv.ReadError)
  deriving DecidableEq, Repr

def ReportFault.description : ReportFault → String
  | unexpectedContainer => "unexpected container"
  | expectedEntry => "expected report structure"
  | noVersion => "data version"
  | noEndpoint => "endpoint"
  | noCluster => "cluster"
  | noAttribute => "attribute"
  | expectedStop => "expected end of container"
  | notALevel => "level value"
  | unexpectedValue => "unexpected attribute value"
  | endOfReport => "unexpected end of report"

def ReportError.message : ReportError → String
  | malformed fault => s!"malformed attribute report: {fault.description}"
  | unreadable error => error.message

/-- The endpoint that holds the burner's clusters. -/
def endpoint : UInt8 := 1

/-- The attribute reported in every cluster. -/
def reportedId : UInt32 := 0

def onOffCluster : UInt32 := 0x0006

def levelCluster : UInt32 := 0x0008

def temperatureCluster : UInt32 := 0x0402

/-- The cluster in which a value is reported. -/
def Value.cluster : Value → UInt32
  | onOff _ => onOffCluster
  | level _ => levelCluster
  | centidegrees _ => temperatureCluster

/-- The item of a value under its tag. -/
def Value.item : Value → Tlv.Item
  | onOff on => .boolean 2 on
  | level percent => .unsigned 2 percent.toUInt32
  | centidegrees value => .signed 2 value

namespace Report

/-- The values of the named attributes: flame, fan, temperature. -/
def values (s : Snapshot) (changes : Changes) : List Value :=
  (if changes.flame then [.onOff s.flame] else []) ++
  (if changes.fan then [.level s.fan] else []) ++
  (if changes.temperature then [.centidegrees (Int32.ofNat s.centidegrees)] else [])

/-- The entries of the named attributes. -/
def entries (s : Snapshot) (changes : Changes) : List Entry :=
  (values s changes).map (fun v => ⟨s.version, endpoint, v.cluster, reportedId, v⟩)

/-- The items of one entry. -/
def entryItems (e : Entry) : List Tlv.Item :=
  [.start 0 .struct, .start 1 .struct, .unsigned 0 e.version,
    .start 1 .struct, .unsigned 0 e.endpoint.toUInt32, .unsigned 2 e.cluster,
    .unsigned 3 e.attributeId, .stop,
    e.value.item, .stop, .stop]

/-- The items of a report. -/
def items (entries : List Entry) : List Tlv.Item :=
  .start 1 .array :: entries.flatMap entryItems ++ [.stop]

/-- Writes the report of the named attributes. What was written before a fault stays written. -/
def encode (s : Snapshot) (changes : Changes) (e : Tlv.Encoder) :
    Except Tlv.WriteError Unit × Tlv.Encoder :=
  e.putAll (items (entries s changes))

/-- What a cursor answered, item by item; behind a fault there is nothing. -/
abbrev Visits := List (Except Tlv.ReadError Tlv.Item)

/-- The next item of a report, which must have one. -/
def takeItem : Visits → Except ReportError (Tlv.Item × Visits)
  | [] => .error (.malformed .endOfReport)
  | .error e :: _ => .error (.unreadable e)
  | .ok item :: rest => .ok (item, rest)

/-- A next item of which `read?` makes a value. -/
def takeWith (fault : ReportFault) (read? : Tlv.Item → Option α) (v : Visits) :
    Except ReportError (α × Visits) := do
  let (item, rest) ← takeItem v
  match read? item with
  | some a => return (a, rest)
  | none => throw (.malformed fault)

/-- The start of a container under a tag. -/
def takeStart (container : Tlv.Container) (tag : UInt8) : Visits → Except ReportError (Unit × Visits) :=
  takeWith .unexpectedContainer (fun item => if item = .start tag container then some () else none)

def takeStop : Visits → Except ReportError (Unit × Visits) :=
  takeWith .expectedStop (fun item => if item = .stop then some () else none)

def takeWord (fault : ReportFault) : Visits → Except ReportError (UInt32 × Visits) :=
  takeWith fault (fun item =>
    match item with
    | .unsigned _ v => some v
    | _ => none)

def takeOctet (fault : ReportFault) : Visits → Except ReportError (UInt8 × Visits) :=
  takeWith fault (fun item => (item.unsignedBelow? 256).map UInt8.ofNat)

/-- The value of the attribute of a cluster. -/
def takeValue (cluster : UInt32) (v : Visits) : Except ReportError (Value × Visits) :=
  if cluster = levelCluster then
    (takeOctet .notALevel v).map (fun (n, rest) => (.level n, rest))
  else
    takeWith .unexpectedValue (fun item =>
      match item with
      | .boolean _ on => if cluster = onOffCluster then some (.onOff on) else none
      | .signed _ n => if cluster = temperatureCluster then some (.centidegrees n) else none
      | _ => none) v

/-- One entry, whose outer start has been taken. -/
def takeEntry (v : Visits) : Except ReportError (Entry × Visits) := do
  let ((), v) ← takeStart .struct 1 v
  let (version, v) ← takeWord .noVersion v
  let ((), v) ← takeStart .struct 1 v
  let (endpoint, v) ← takeOctet .noEndpoint v
  let (cluster, v) ← takeWord .noCluster v
  let (attributeId, v) ← takeWord .noAttribute v
  let ((), v) ← takeStop v
  let (value, v) ← takeValue cluster v
  let ((), v) ← takeStop v
  let ((), v) ← takeStop v
  return (⟨version, endpoint, cluster, attributeId, value⟩, v)

theorem takeWith_length {fault : ReportFault} {read? : Tlv.Item → Option α} {v rest : Visits}
    {a : α} (h : takeWith fault read? v = .ok (a, rest)) : rest.length < v.length := by
  unfold takeWith at h
  cases v with
  | nil => cases h
  | cons first more =>
    cases first with
    | error e => cases h
    | ok item =>
      simp only [takeItem, bind, Except.bind, pure, Except.pure] at h
      split at h <;> cases h
      simp

theorem takeValue_length {cluster : UInt32} {v rest : Visits} {value : Value}
    (h : takeValue cluster v = .ok (value, rest)) : rest.length < v.length := by
  unfold takeValue at h
  split at h
  · cases ho : takeOctet .notALevel v with
    | error e => rw [ho] at h; cases h
    | ok p => rw [ho] at h; cases h; exact takeWith_length ho
  · exact takeWith_length h

theorem bind_ok {x : Except ε α} {f : α → Except ε β} {b : β} (h : x >>= f = .ok b) :
    ∃ a, x = .ok a ∧ f a = .ok b := by
  cases x with
  | error e => cases h
  | ok a => exact ⟨a, rfl, h⟩

theorem takeEntry_length {v rest : Visits} {entry : Entry}
    (h : takeEntry v = .ok (entry, rest)) : rest.length < v.length := by
  unfold takeEntry at h
  obtain ⟨⟨_, v1⟩, h1, h⟩ := bind_ok h
  obtain ⟨⟨_, v2⟩, h2, h⟩ := bind_ok h
  obtain ⟨⟨_, v3⟩, h3, h⟩ := bind_ok h
  obtain ⟨⟨_, v4⟩, h4, h⟩ := bind_ok h
  obtain ⟨⟨_, v5⟩, h5, h⟩ := bind_ok h
  obtain ⟨⟨_, v6⟩, h6, h⟩ := bind_ok h
  obtain ⟨⟨_, v7⟩, h7, h⟩ := bind_ok h
  obtain ⟨⟨_, v8⟩, h8, h⟩ := bind_ok h
  obtain ⟨⟨_, v9⟩, h9, h⟩ := bind_ok h
  obtain ⟨⟨_, v10⟩, h10, h⟩ := bind_ok h
  cases h
  have := takeWith_length h1
  have := takeWith_length h2
  have := takeWith_length h3
  have := takeWith_length h4
  have := takeWith_length h5
  have := takeWith_length h6
  have := takeWith_length h7
  have := takeValue_length h8
  have := takeWith_length h9
  have := takeWith_length h10
  omega

/-- The entries up to the stop of the array; what stands behind it is not looked at. -/
def takeEntries (v : Visits) : Except ReportError (List Entry) :=
  match _h : takeItem v with
  | .error e => .error e
  | .ok (.stop, _) => .ok []
  | .ok (.start _ .struct, rest) =>
    match _hr : takeEntry rest with
    | .error e => .error e
    | .ok (entry, rest) => (takeEntries rest).map (fun entries => entry :: entries)
  | .ok _ => .error (.malformed .expectedEntry)
  termination_by v.length
  decreasing_by
    have := takeEntry_length _hr
    cases v with
    | nil => cases _h
    | cons first more =>
      cases first with
      | error e => cases _h
      | ok item => cases _h; simp only [List.length_cons]; omega

/-- The entries of a report. -/
def decode (bytes : Bytes) : Except ReportError (List Entry) := do
  let ((), v) ← takeStart .array 1 ((Tlv.Cursor.start bytes).walk.map (fun visit => visit.1))
  takeEntries v

end Report

end BurnerTelemetry.Attribute
