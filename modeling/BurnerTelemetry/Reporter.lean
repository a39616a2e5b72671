import BurnerTelemetry.Attribute.Report
import BurnerTelemetry.Attribute.Store
import BurnerTelemetry.ReadingLink

/-!
The reporting side. A round takes every reading that waits, applies the valid ones in order, runs
the stale rule once, and then makes one attempt to report to each subscriber that is due. A
report that is refused stays due. All reports are written in the same buffer, each over what the
ones before it left there.
-/
namespace BurnerTelemetry

open Attribute (Destination Snapshot Store Subscriber)

/-- What the reporter has done since its start. -/
structure Tally where
  applied : Nat
  sent : Nat
  failed : Nat
  /-- Valid readings with an error code. -/
  faults : Nat
  deriving DecidableEq, Repr

/-- The size of the buffer that reports are written in. -/
def Reporter.bufferSize : Nat := 256

abbrev Reporter.Buffer := { bytes : Bytes // bytes.length = bufferSize }

structure Reporter where
  store : Store
  /-- The least time between two reports to one subscriber. -/
  interval : UInt64
  staleTimeout : UInt64
  /-- What the reports so far were written in. -/
  buffer : Reporter.Buffer
  tally : Tally
  deriving DecidableEq, Repr

/-- A report that was handed over for delivery. -/
structure Attempt where
  handle : UInt32
  destination : Destination
  payload : Bytes
  accepted : Bool
  deriving DecidableEq, Repr

/-- What a round did. -/
structure Round where
  applied : Nat
  attempts : List Attempt
  reporter : Reporter
  link : ReadingLink
  deriving DecidableEq, Repr

namespace Reporter

def Buffer.zeros : Buffer := ⟨List.replicate bufferSize 0, List.length_replicate⟩

def ofStore (store : Store) (interval staleTimeout : UInt64) : Reporter :=
  ⟨store, interval, staleTimeout, Buffer.zeros, ⟨0, 0, 0, 0⟩⟩

/-- Takes in a reading and tells whether it was applied. -/
def absorb (r : Reporter) (reading : Reading) : Bool × Reporter :=
  match r.store.apply reading with
  | .error _ => (false, r)
  | .ok (_, store) =>
    (true, { r with
      store
      tally.applied := r.tally.applied + 1
      tally.faults := r.tally.faults + (if reading.hasFault then 1 else 0) })

/-- Takes in readings one after another and counts those applied. -/
def absorbAll (r : Reporter) : List Reading → Nat × Reporter
  | [] => (0, r)
  | reading :: rest =>
    let (isApplied, next) := r.absorb reading
    let (applied, final) := next.absorbAll rest
    ((if isApplied then 1 else 0) + applied, final)

/-- Clears the attributes if they are due to be cleared. -/
def expire (r : Reporter) : Reporter :=
  match r.store.expire? r.staleTimeout with
  | some (_, store) => { r with store }
  | none => r

/-- Writes the report of the named attributes from the front of a buffer, whatever it holds: the
bytes of the report, and the buffer behind it. -/
def payload (buffer : Buffer) (s : Snapshot) (changes : Attribute.Changes) :
    Except Tlv.WriteError Bytes × Buffer :=
  let start := Tlv.Encoder.ofBuffer buffer.val
  let done := Attribute.Report.encode s changes start
  (done.1.bind fun _ => done.2.finish,
    ⟨done.2.buffer, (start.length_buffer_putAll _).trans buffer.property⟩)

/-- Reports to one subscriber what is pending for it. -/
def reportTo (r : Reporter) (refuses : Destination → Bool) (s : Subscriber) :
    Option Attempt × Reporter :=
  match payload r.buffer r.store.snapshot s.pending with
  | (.error _, buffer) => (none, { r with buffer, tally.failed := r.tally.failed + 1 })
  | (.ok bytes, buffer) =>
    if refuses s.destination then
      (some ⟨s.handle, s.destination, bytes, false⟩,
        { r with buffer, tally.failed := r.tally.failed + 1 })
    else
      (some ⟨s.handle, s.destination, bytes, true⟩,
        { r with
          buffer
          store := r.store.markReported s.handle r.store.now
          tally.sent := r.tally.sent + 1 })

/-- Reports to subscribers one after another. -/
def reportToAll (r : Reporter) (refuses : Destination → Bool) :
    List Subscriber → List Attempt × Reporter
  | [] => ([], r)
  | s :: rest =>
    let (attempt, next) := r.reportTo refuses s
    let (attempts, final) := next.reportToAll refuses rest
    (attempt.toList ++ attempts, final)

/-- Reports to every subscriber that is due. -/
def reportDue (r : Reporter) (refuses : Destination → Bool) : List Attempt × Reporter :=
  r.reportToAll refuses (r.store.registry.due r.store.now r.interval)

/-- One round. `refuses` tells which destinations take no report in it. -/
def round (r : Reporter) (l : ReadingLink) (refuses : Destination → Bool) : Round :=
  let (readings, link) := l.receiveAll
  let (applied, absorbed) := r.absorbAll readings
  let (attempts, reporter) := absorbed.expire.reportDue refuses
  let accepted := attempts.countP (fun a => a.accepted)
  ⟨applied, attempts, reporter, link.recordMessages (UInt32.ofNat accepted)⟩

end Reporter

end BurnerTelemetry
