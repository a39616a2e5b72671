import BurnerTelemetry.Intake
import BurnerTelemetry.Reporter
import BurnerTelemetry.Settings

/-!
The whole relay, from the serial line to the subscribers, and the sessions it goes through. What
comes in at one time is drained before more comes; the reporting side has its last round when the
line is closed.
-/
namespace BurnerTelemetry

open Attribute (Destination)

structure Relay where
  intake : Intake
  link : ReadingLink
  reporter : Reporter
  deriving DecidableEq, Repr

/-- Why a session has no outcome. -/
inductive SessionError where
  | targetRejected (error : Attribute.RegistryError)
  | lineFailed (reason : String)
  deriving DecidableEq, Repr

def SessionError.message : SessionError → String
  | targetRejected error => s!"report target rejected: {error.message}"
  | lineFailed reason => s!"I/O error: {reason}"

/-- How the serial line ends. -/
inductive LineEnd where
  | closed
  | failed (reason : String)
  /-- The relay was told to stop while the line was open. -/
  | interrupted
  deriving DecidableEq, Repr

/-- The outcome of a session. -/
structure Outcome where
  /-- The bytes counted when the line was closed; an open line counts none. -/
  bytesRead : Nat
  relay : Relay
  attempts : List Attempt
  deriving DecidableEq, Repr

namespace Relay

inductive Event where
  | push (bytes : Bytes)
  | drain
  | round
  deriving DecidableEq, Repr

/-- One event; every destination takes its reports. -/
def step (r : Relay) : Event → List Attempt × Relay
  | .push bytes => ([], { r with intake := r.intake.push bytes })
  | .drain =>
    let (_, intake, link) := r.intake.drain r.link
    ([], { r with intake, link })
  | .round =>
    let done := r.reporter.round r.link (fun _ => false)
    (done.attempts, { r with reporter := done.reporter, link := done.link })

/-- Events one after another, with all reports that were made. -/
def run (r : Relay) : List Event → List Attempt × Relay
  | [] => ([], r)
  | event :: rest =>
    let (attempts, next) := r.step event
    let (later, final) := next.run rest
    (attempts ++ later, final)

theorem run_append (r : Relay) (a b : List Event) :
    r.run (a ++ b) = ((r.run a).1 ++ ((r.run a).2.run b).1, ((r.run a).2.run b).2) := by
  induction a generalizing r with
  | nil => rfl
  | cons event rest ih => simp [run, ih, List.append_assoc]

/-- Subscribes targets in order; the first that is rejected ends it. -/
def subscribeAll (store : Attribute.Store) :
    List TargetSettings → Except Attribute.RegistryError Attribute.Store
  | [] => .ok store
  | t :: rest =>
    match store.subscribe t.address t.port with
    | .ok (_, next) => subscribeAll next rest
    | .error e => .error e

/-- The relay of some settings, at time zero. -/
def ofSettings (s : Settings) : Except Attribute.RegistryError Relay :=
  (subscribeAll (Attribute.Store.startingAt 0) s.report.targets).map (fun store =>
    ⟨Intake.empty, ReadingLink.empty, Reporter.ofStore store s.report.interval s.staleTimeout⟩)

/-- The relay when the clock shows `now`. -/
def atTime (r : Relay) (now : UInt64) : Relay :=
  { r with reporter.store := r.reporter.store.setClock now }

/-- The events of a session in which the line brings these chunks. -/
def sessionEvents (chunks : List Bytes) : List Event :=
  chunks.flatMap (fun chunk => [.push chunk, .drain]) ++ [.drain, .round]

/-- A session from its settings to the end of the line. -/
def session (s : Settings) (chunks : List Bytes) (lineEnd : LineEnd) :
    Except SessionError Outcome :=
  match ofSettings s with
  | .error e => .error (.targetRejected e)
  | .ok relay =>
    let (attempts, final) := relay.run (sessionEvents chunks)
    match lineEnd with
    | .closed => .ok ⟨chunks.flatten.length, final, attempts⟩
    | .failed reason => .error (.lineFailed reason)
    | .interrupted => .ok ⟨0, final, attempts⟩

/-- The entries of all accepted reports, oldest first. -/
def delivered (attempts : List Attempt) : List (Destination × Attribute.Entry) :=
  (attempts.filter (fun a => a.accepted)).flatMap (fun a =>
    match Attribute.Report.decode a.payload with
    | .ok entries => entries.map (fun e => (a.destination, e))
    | .error _ => [])

/-- Earlier in the order of destinations, as text, and then of clusters. -/
def precedes (a b : Destination × Attribute.Entry) : Bool :=
  decide (a.1.render < b.1.render) ||
    (a.1.render == b.1.render && decide (a.2.cluster ≤ b.2.cluster))

/-- The last entry that each destination has been told of each cluster. -/
def latest (attempts : List Attempt) : List (Destination × Attribute.Entry) :=
  let keep (told : List (Destination × Attribute.Entry)) (d : Destination × Attribute.Entry) :=
    told.filter (fun t => !(t.1 == d.1 && t.2.cluster == d.2.cluster)) ++ [d]
  ((delivered attempts).foldl keep []).mergeSort precedes

end Relay

end BurnerTelemetry
