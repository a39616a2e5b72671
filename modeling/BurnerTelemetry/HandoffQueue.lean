/-!
A bounded queue with one writer and one reader. Both count what they have moved in 64-bit words
that wrap, and a value lives in the slot of its number modulo the capacity. A full queue refuses
a value and hands it back.
-/
namespace BurnerTelemetry

structure HandoffQueue (α : Type) (capacity : Nat) where
  slots : Vector (Option α) capacity
  /-- Values accepted so far. -/
  written : UInt64
  /-- Values taken so far. -/
  taken : UInt64
  hasWriter : Bool
  hasReader : Bool
  deriving DecidableEq, Repr

namespace HandoffQueue

variable {α : Type} {capacity : Nat}

def empty : HandoffQueue α capacity := ⟨Vector.replicate capacity none, 0, 0, true, true⟩

/-- The number of values that wait. -/
def size (q : HandoffQueue α capacity) : Nat := (q.written - q.taken).toNat

def isEmpty (q : HandoffQueue α capacity) : Bool := q.size == 0

def isFull (q : HandoffQueue α capacity) : Bool := decide (capacity ≤ q.size)

/-- The value in a slot that has been written. -/
def slot? (q : HandoffQueue α capacity) (i : Nat) : Option α := q.slots[i]?.join

/-- The values that wait, oldest first. -/
def toList (q : HandoffQueue α capacity) : List α :=
  (List.range q.size).filterMap (fun i => q.slot? ((q.taken.toNat + i) % capacity))

/-- Appends a value; the error hands it back. -/
def push (q : HandoffQueue α capacity) (a : α) : Except α (HandoffQueue α capacity) :=
  if q.isFull then .error a
  else .ok { q with
    slots := q.slots.setIfInBounds (q.written.toNat % capacity) (some a)
    written := q.written + 1 }

/-- Takes the oldest value. -/
def pop (q : HandoffQueue α capacity) : Option α × HandoffQueue α capacity :=
  if q.written = q.taken then (none, q)
  else (q.slot? (q.taken.toNat % capacity), { q with taken := q.taken + 1 })

def dropWriter (q : HandoffQueue α capacity) : HandoffQueue α capacity :=
  { q with hasWriter := false }

def dropReader (q : HandoffQueue α capacity) : HandoffQueue α capacity :=
  { q with hasReader := false }

@[simp] theorem size_empty : (empty : HandoffQueue α capacity).size = 0 := by simp [size, empty]
@[simp] theorem size_dropWriter (q : HandoffQueue α capacity) : q.dropWriter.size = q.size := rfl
@[simp] theorem size_dropReader (q : HandoffQueue α capacity) : q.dropReader.size = q.size := rfl

end HandoffQueue

end BurnerTelemetry
