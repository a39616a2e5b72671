import BurnerTelemetry.Attribute.Registry

/-!
The current attributes, their subscribers and the clock. When no valid reading has come for a
while the attributes are cleared, once, until the next one comes.
-/
namespace BurnerTelemetry.Attribute

structure Store where
  snapshot : Snapshot
  registry : Registry
  /-- The time in milliseconds. -/
  now : UInt64
  /-- The attributes were cleared, and no valid reading has come since. -/
  isStale : Bool
  deriving DecidableEq, Repr

/-- Why a reading does not reach the attributes. -/
inductive ApplyError where
  | invalidReading
  deriving DecidableEq, Repr

def ApplyError.message : ApplyError → String
  | invalidReading => "reading is marked invalid"

namespace Store

def startingAt (now : UInt64) : Store := ⟨Snapshot.initial now, Registry.empty, now, false⟩

/-- Writes the attributes of a reading, notes the changes for every subscriber and answers
them. -/
def write (s : Store) (r : Reading) : Changes × Store :=
  let next := s.snapshot.update r s.now
  let changes := next.changesSince s.snapshot
  (changes, { s with snapshot := next, registry := s.registry.noteChanges changes })

/-- Takes in a reading, if it is valid. -/
def apply (s : Store) (r : Reading) : Except ApplyError (Changes × Store) :=
  if r.valid then .ok ({ s with isStale := false }.write r) else .error .invalidReading

/-- The time since the last update, nothing if the clock went back. -/
def age (s : Store) : Nat := s.now.toNat - s.snapshot.updatedAt.toNat

/-- Clears the attributes when the last update is at least `timeout` ago. -/
def expire? (s : Store) (timeout : UInt64) : Option (Changes × Store) :=
  if s.isStale || decide (s.age < timeout.toNat) then none
  else some ({ s with isStale := true }.write Reading.silent)

def setClock (s : Store) (now : UInt64) : Store := { s with now }

/-- Moves the clock on; it wraps at the word size. -/
def advance (s : Store) (elapsed : UInt64) : Store := { s with now := s.now + elapsed }

def subscribe (s : Store) (address : String) (port : UInt16) :
    Except RegistryError (UInt32 × Store) :=
  (s.registry.add address port).map (fun (handle, registry) => (handle, { s with registry }))

def unsubscribe (s : Store) (handle : UInt32) : Bool × Store :=
  let (known, registry) := s.registry.remove handle
  (known, { s with registry })

def noteChanges (s : Store) (changes : Changes) : Store :=
  { s with registry := s.registry.noteChanges changes }

def markReported (s : Store) (handle : UInt32) (now : UInt64) : Store :=
  { s with registry := s.registry.markReported handle now }

end Store

end BurnerTelemetry.Attribute
