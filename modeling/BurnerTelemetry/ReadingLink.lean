import BurnerTelemetry.HandoffQueue
import BurnerTelemetry.Reading

/-!
The link that hands readings from the side that decodes them to the side that reports them: a
queue of eight, a wake signal, and counters that wrap. A reading that finds the queue full is
lost and counted; one that finds nobody to read it is lost uncounted.
-/
namespace BurnerTelemetry

structure LinkStats where
  messagesProcessed : UInt32
  readingsProcessed : UInt32
  readingsDropped : UInt32
  deriving DecidableEq, Repr

inductive SendError where
  | full
  | disconnected
  deriving DecidableEq, Repr

def SendError.message : SendError → String
  | .full => "cross-core queue is full"
  | .disconnected => "protocol core is not running"

structure ReadingLink where
  queue : HandoffQueue Reading 8
  signalled : Bool
  stats : LinkStats
  deriving DecidableEq, Repr

namespace ReadingLink

/-- The number of readings that can wait. -/
def capacity : Nat := 8

def empty : ReadingLink := ⟨HandoffQueue.empty, false, ⟨0, 0, 0⟩⟩

/-- The readings that wait, oldest first. -/
def toList (l : ReadingLink) : List Reading := l.queue.toList

def pending (l : ReadingLink) : Nat := l.queue.size

def send (l : ReadingLink) (r : Reading) : Except SendError Unit × ReadingLink :=
  if l.queue.hasReader then
    match l.queue.push r with
    | .ok queue => (.ok (), { l with queue })
    | .error _ =>
      (.error .full,
        { l with stats.readingsDropped := l.stats.readingsDropped + 1 })
  else (.error .disconnected, l)

/-- Takes the oldest reading and counts it. -/
def receive (l : ReadingLink) : Option Reading × ReadingLink :=
  match l.queue.pop with
  | (some r, queue) =>
    (some r, { l with queue, stats.readingsProcessed := l.stats.readingsProcessed + 1 })
  | (none, queue) => (none, { l with queue })

/-- Sends readings one after another and counts those that the queue takes. -/
def sendAll (l : ReadingLink) : List Reading → Nat × ReadingLink
  | [] => (0, l)
  | r :: rest =>
    match l.send r with
    | (.ok (), next) => let (sent, final) := next.sendAll rest; (sent + 1, final)
    | (.error _, next) => next.sendAll rest

/-- Takes up to this many readings, oldest first. -/
def receiveUpTo (l : ReadingLink) : Nat → List Reading × ReadingLink
  | 0 => ([], l)
  | n + 1 =>
    match l.receive with
    | (some r, next) => let (rest, final) := next.receiveUpTo n; (r :: rest, final)
    | (none, next) => ([], next)

/-- Takes every reading that waits. -/
def receiveAll (l : ReadingLink) : List Reading × ReadingLink := l.receiveUpTo l.pending

def recordMessages (l : ReadingLink) (count : UInt32) : ReadingLink :=
  { l with stats.messagesProcessed := l.stats.messagesProcessed + count }

def signal (l : ReadingLink) : ReadingLink := { l with signalled := true }

/-- Lowers the signal and tells whether it was raised. -/
def takeSignal (l : ReadingLink) : Bool × ReadingLink := (l.signalled, { l with signalled := false })

/-- A wait ends with the signal lowered, whether it was raised or the time ran out. -/
def wait (l : ReadingLink) : ReadingLink := { l with signalled := false }

def dropSender (l : ReadingLink) : ReadingLink := { l with queue := l.queue.dropWriter }

def dropReceiver (l : ReadingLink) : ReadingLink := { l with queue := l.queue.dropReader }

end ReadingLink

end BurnerTelemetry
