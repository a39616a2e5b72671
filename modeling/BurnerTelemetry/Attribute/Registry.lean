import BurnerTelemetry.Attribute.Snapshot
import BurnerTelemetry.Text.Blank
import BurnerTelemetry.Text.DottedQuad
import BurnerTelemetry.Text.Quoted

/-!
Who gets reports. A subscriber keeps the attributes that changed since the last report to it, so
a slow one misses no attribute. There is room for four; a handle names a subscriber for good.
-/
namespace BurnerTelemetry.Attribute

structure Destination where
  address : Text.DottedQuad
  port : UInt16
  deriving DecidableEq, Repr

def Destination.render (d : Destination) : String := s!"{d.address.render}:{d.port.toNat}"

structure Subscriber where
  handle : UInt32
  destination : Destination
  /-- The time of the last report. -/
  reportedAt : Option UInt64
  /-- The attributes that changed since then. -/
  pending : Changes
  deriving DecidableEq, Repr

/-- Something to report, and the last report at least `interval` ago. A clock that went back
counts as no time at all. -/
def Subscriber.isDue (s : Subscriber) (now interval : UInt64) : Bool :=
  !s.pending.isEmpty &&
    match s.reportedAt with
    | none => true
    | some last => decide (interval.toNat ≤ now.toNat - last.toNat)

inductive RegistryError where
  | full
  | invalidAddress (address : String)
  | zeroPort
  deriving DecidableEq, Repr

structure Registry where
  subscribers : List Subscriber
  /-- The handle that is given out next. -/
  nextHandle : UInt32
  deriving DecidableEq, Repr

namespace Registry

/-- The number of subscribers there is room for. -/
def capacity : Nat := 4

def empty : Registry := ⟨[], 0⟩

/-- The destination of an address, blanks around it ignored, and a port. The port is checked
first. -/
def destination (address : String) (port : UInt16) : Except RegistryError Destination :=
  if port = 0 then .error .zeroPort
  else
    match Text.DottedQuad.ofChars? (Text.trim address.toList) with
    | none => .error (.invalidAddress address)
    | some quad => .ok ⟨quad, port⟩

/-- The handle of a destination, which is registered unless it is known. -/
def add (r : Registry) (address : String) (port : UInt16) :
    Except RegistryError (UInt32 × Registry) :=
  match destination address port with
  | .error e => .error e
  | .ok d =>
    match r.subscribers.find? (fun s => decide (s.destination = d)) with
    | some known => .ok (known.handle, r)
    | none =>
      if r.subscribers.length < capacity then
        .ok (r.nextHandle,
          ⟨r.subscribers ++ [⟨r.nextHandle, d, none, Changes.none⟩], r.nextHandle + 1⟩)
      else .error .full

/-- Takes the element at `i` out and puts the last one in its place. -/
def swapRemove (l : List α) (i : Nat) : List α :=
  match l.getLast? with
  | some last => (l.set i last).dropLast
  | none => l

/-- Removes a subscriber and tells whether the handle was known. -/
def remove (r : Registry) (handle : UInt32) : Bool × Registry :=
  match r.subscribers.findIdx? (fun s => s.handle == handle) with
  | some i => (true, { r with subscribers := swapRemove r.subscribers i })
  | none => (false, r)

/-- Adds changes to what every subscriber is still to be told. -/
def noteChanges (r : Registry) (changes : Changes) : Registry :=
  if changes.isEmpty then r
  else { r with
    subscribers := r.subscribers.map (fun s => { s with pending := s.pending.union changes }) }

/-- The subscribers that are due, in the order of the registry. -/
def due (r : Registry) (now interval : UInt64) : List Subscriber :=
  r.subscribers.filter (fun s => s.isDue now interval)

/-- Nothing is left to tell the subscriber since the report at `now`. -/
def markReported (r : Registry) (handle : UInt32) (now : UInt64) : Registry :=
  { r with
    subscribers := r.subscribers.modify (r.subscribers.findIdx (fun s => s.handle == handle))
      (fun s => { s with reportedAt := some now, pending := Changes.none }) }

end Registry

def RegistryError.message : RegistryError → String
  | full => s!"report target registry is full ({Registry.capacity} targets)"
  | invalidAddress address => s!"invalid IPv4 address: {Text.quote address}"
  | zeroPort => "report target port must be non-zero"

end BurnerTelemetry.Attribute
