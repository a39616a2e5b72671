import BurnerTelemetry.Wire.Message

/-!
Readings out of a stream that arrives in arbitrary pieces. A bounded window keeps the bytes that
may still become part of a message. Whatever leaves it is a message that was read, a line that
was refused, or the older part of a window that filled up without holding a message.
-/
namespace BurnerTelemetry.Wire

structure Reassembly where
  window : Bytes
  /-- Bytes that were thrown away. -/
  lost : Nat
  /-- Readings that were handed on. -/
  decoded : Nat
  /-- Lines and marked frames that left the window with a fault. -/
  refused : Nat
  deriving DecidableEq, Repr

namespace Reassembly

/-- The number of bytes the window holds. -/
def windowSize : Nat := 128

/-- The bytes kept when the window overflows, which may be the front of a frame. -/
def keptOnOverflow : Nat := Frame.size - 1

def empty : Reassembly := ⟨[], 0, 0, 0⟩

/-- What the window allows next. -/
inductive Step where
  | accept (sighting : Sighting)
  /-- The first line is complete and no message; this many bytes go. -/
  | refuse (count : Nat)
  | wait
  deriving DecidableEq, Repr

/-- The offset of the last `F:` at `start` or behind it. -/
def lastStart? (bytes : Bytes) (start : Nat) : Option Nat :=
  (Bytes.lastPairIndex? 70 58 (bytes.drop start)).map (fun i => start + i)

/-- How much to drop for a refused first line. When another `F:` precedes its line feed the line
was cut short, and what follows the last such `F:` may still be a good line. -/
def refusalLength? (window : Bytes) : Option Nat := do
  let start ← StatusLine.startIndex? window
  let stop ← StatusLine.endIndex? window start
  return (lastStart? (window.take stop) (start + 1)).getD (stop + 1)

/-- The message that ends first is accepted, a frame when both end together. Without a message a
complete line is refused, and an incomplete one is waited for. -/
def nextStep (window : Bytes) : Step :=
  match Frame.locate window, StatusLine.locate window with
  | .ok frame, .ok line => .accept (if line.stop < frame.stop then line else frame)
  | .ok frame, .error _ => .accept frame
  | .error _, .ok line => .accept line
  | .error _, .error .noLine => .wait
  | .error _, .error (.malformedLine .unterminated) => .wait
  | .error _, .error _ =>
    match refusalLength? window with
    | some count => .refuse count
    | none => .wait

/-- Drops bytes at the front, and counts the faulty frames that go with them. -/
def dropFront (r : Reassembly) (count : Nat) : Reassembly :=
  { r with
    window := r.window.drop count
    refused := r.refused + Frame.faultyCount (r.window.take count) }

@[simp] theorem window_dropFront (r : Reassembly) (count : Nat) :
    (r.dropFront count).window = r.window.drop count := rfl

@[simp] theorem lost_dropFront (r : Reassembly) (count : Nat) :
    (r.dropFront count).lost = r.lost := rfl

@[simp] theorem decoded_dropFront (r : Reassembly) (count : Nat) :
    (r.dropFront count).decoded = r.decoded := rfl

def accept (r : Reassembly) (s : Sighting) : Reassembly :=
  { r.dropFront s.stop with decoded := r.decoded + 1 }

def refuse (r : Reassembly) (count : Nat) : Reassembly :=
  let dropped := r.dropFront count
  { dropped with lost := r.lost + count, refused := dropped.refused + 1 }

@[simp] theorem window_accept (r : Reassembly) (s : Sighting) :
    (r.accept s).window = r.window.drop s.stop := rfl

@[simp] theorem window_refuse (r : Reassembly) (count : Nat) :
    (r.refuse count).window = r.window.drop count := rfl

theorem lastStart?_bounds {bytes : Bytes} {start i : Nat} (h : lastStart? bytes start = some i) :
    start ≤ i ∧ i < bytes.length := by
  obtain ⟨j, hj, rfl⟩ := Option.map_eq_some_iff.1 h
  have := Bytes.lastPairIndex?_lt hj
  simp only [List.length_drop] at this
  omega

theorem refusalLength?_bounds {window : Bytes} {count : Nat}
    (h : refusalLength? window = some count) : 0 < count ∧ count ≤ window.length := by
  simp only [refusalLength?, Option.bind_eq_bind, Option.bind_eq_some_iff, pure,
    Option.some.injEq] at h
  obtain ⟨start, _, stop, hstop, rfl⟩ := h
  have hb := StatusLine.endIndex?_bounds hstop
  cases hl : lastStart? (window.take stop) (start + 1) with
  | none => simp only [Option.getD_none]; omega
  | some i =>
    have hi := lastStart?_bounds hl
    simp only [List.length_take] at hi
    simp only [Option.getD_some]
    omega

/-- An accepted message is not empty. -/
theorem nextStep_accept {window : Bytes} {s : Sighting} (h : nextStep window = .accept s) :
    0 < s.stop := by
  unfold nextStep at h
  split at h
  · rename_i frame line hf hl
    have := Frame.locate_stop hf
    have := (StatusLine.locate_bounds hl).1
    simp only [Step.accept.injEq] at h
    split at h <;> subst h <;> simp only [Frame.size] at * <;> omega
  · rename_i frame _ hf _
    have := Frame.locate_stop hf
    cases h
    simp only [Frame.size] at *
    omega
  · rename_i _ line _ hl
    have := (StatusLine.locate_bounds hl).1
    cases h
    omega
  · cases h
  · cases h
  · split at h <;> cases h

theorem nextStep_refuse {window : Bytes} {count : Nat} (h : nextStep window = .refuse count) :
    0 < count ∧ count ≤ window.length := by
  unfold nextStep at h
  split at h <;> try cases h
  split at h
  · rename_i hc
    cases h
    exact refusalLength?_bounds hc
  · cases h

/-- Takes every message that the window holds, oldest first. -/
def settle (r : Reassembly) : List Sighting × Reassembly :=
  if Frame.size ≤ r.window.length then
    match _h : nextStep r.window with
    | .accept s =>
      let (later, final) := (r.accept s).settle
      (s :: later, final)
    | .refuse count => (r.refuse count).settle
    | .wait => ([], r)
  else ([], r)
  termination_by r.window.length
  decreasing_by
    · have := nextStep_accept _h
      simp only [window_accept, List.length_drop, Frame.size] at *
      omega
    · have := nextStep_refuse _h
      simp only [window_refuse, List.length_drop, Frame.size] at *
      omega

/-- Gives up the older bytes of a window that holds no message. -/
def shed (r : Reassembly) : Reassembly :=
  let count := r.window.length - keptOnOverflow
  { r.dropFront count with lost := r.lost + count }

def isFull (r : Reassembly) : Bool := decide (windowSize ≤ r.window.length)

/-- A full window first yields its messages, and its older bytes if it is full even then. -/
def makeRoom (r : Reassembly) : List Sighting × Reassembly :=
  if r.isFull then
    let (found, settled) := r.settle
    (found, if settled.isFull then settled.shed else settled)
  else ([], r)

/-- Takes in one byte without looking for messages unless the window is full. -/
def push (r : Reassembly) (b : UInt8) : List Sighting × Reassembly :=
  let (found, roomy) := r.makeRoom
  (found, { roomy with window := roomy.window ++ [b] })

/-- Takes in bytes one after another. -/
def pushAll (r : Reassembly) : Bytes → List Sighting × Reassembly
  | [] => ([], r)
  | b :: rest =>
    let (found, next) := r.push b
    let (later, final) := next.pushAll rest
    (found ++ later, final)

/-- Takes in a piece of the stream and yields the messages that it completes. -/
def receive (r : Reassembly) (piece : Bytes) : List Sighting × Reassembly :=
  let (found, filled) := r.pushAll piece
  let (later, final) := filled.settle
  (found ++ later, final)

/-- Takes in one piece after another. -/
def receiveAll (r : Reassembly) : List Bytes → List Sighting × Reassembly
  | [] => ([], r)
  | piece :: rest =>
    let (found, next) := r.receive piece
    let (later, final) := next.receiveAll rest
    (found ++ later, final)

end Reassembly

end BurnerTelemetry.Wire
