import BurnerTelemetry.Bytes

/-!
The ring of bytes between the serial line and the decoder. A full ring refuses a byte and counts
it; what it holds is never overwritten.
-/
namespace BurnerTelemetry

structure ByteRing where
  slots : Vector UInt8 256
  /-- The slot that is written next. -/
  head : Nat
  /-- The slot that is read next. -/
  tail : Nat
  count : Nat
  /-- Bytes accepted, modulo the word size. -/
  received : UInt32
  /-- Bytes refused, modulo the word size. -/
  dropped : UInt32
  deriving DecidableEq, Repr

namespace ByteRing

/-- The number of bytes the ring holds when it is full. -/
def capacity : Nat := 256

def empty : ByteRing := ⟨Vector.replicate 256 0, 0, 0, 0, 0, 0⟩

/-- The slot after this one; the first comes after the last. -/
def following (slot : Nat) : Nat := (slot + 1) % capacity

def slot (r : ByteRing) (i : Nat) : UInt8 := r.slots[i]?.getD 0

/-- The bytes held, oldest first. -/
def toList (r : ByteRing) : Bytes :=
  (List.range r.count).map (fun i => r.slot ((r.tail + i) % capacity))

def isFull (r : ByteRing) : Bool := r.count == capacity

def isAvailable (r : ByteRing) : Bool := decide (0 < r.count)

def isEmpty (r : ByteRing) : Bool := !r.isAvailable

/-- Writes a byte without counting it, unless the ring is full. -/
def store? (r : ByteRing) (b : UInt8) : Option ByteRing :=
  if r.isFull then none
  else some { r with
    slots := r.slots.setIfInBounds r.head b
    head := following r.head
    count := r.count + 1 }

/-- Takes in one byte. -/
def push (r : ByteRing) (b : UInt8) : ByteRing :=
  match r.store? b with
  | some stored => { stored with received := stored.received + 1 }
  | none => { r with dropped := r.dropped + 1 }

/-- Writes as many of the bytes as find room, and tells how many did. -/
def storeAll (r : ByteRing) : Bytes → Nat × ByteRing
  | [] => (0, r)
  | b :: rest =>
    match r.store? b with
    | some stored => let (n, final) := stored.storeAll rest; (n + 1, final)
    | none => r.storeAll rest

/-- Takes in a block of bytes and counts it in one go. -/
def pushAll (r : ByteRing) (bytes : Bytes) : ByteRing :=
  let (stored, final) := r.storeAll bytes
  { final with
    received := final.received + UInt32.ofNat stored
    dropped := final.dropped + UInt32.ofNat (bytes.length - stored) }

/-- Takes out this many bytes, which the ring must hold. -/
def takeOut (r : ByteRing) : Nat → Bytes × ByteRing
  | 0 => ([], r)
  | n + 1 =>
    let (rest, final) := { r with tail := following r.tail, count := r.count - 1 }.takeOut n
    (r.slot r.tail :: rest, final)

/-- Takes out the oldest bytes, `limit` of them or all there are. -/
def read (r : ByteRing) (limit : Nat) : Bytes × ByteRing := r.takeOut (min limit r.count)

theorem count_takeOut (r : ByteRing) (n : Nat) : (r.takeOut n).2.count = r.count - n := by
  induction n generalizing r with
  | zero => rfl
  | succ n ih => simp only [takeOut, ih]; omega

/-- Takes out all bytes, oldest first, in pieces of `size` bytes and a last one that may be
shorter. -/
def readPieces (r : ByteRing) (size : Nat) : List Bytes × ByteRing :=
  if _h : 0 < size ∧ 0 < r.count then
    let (pieces, final) := (r.read size).2.readPieces size
    ((r.read size).1 :: pieces, final)
  else ([], r)
  termination_by r.count
  decreasing_by
    simp only [read, count_takeOut]
    omega

@[simp] theorem toList_empty : empty.toList = [] := rfl
@[simp] theorem length_toList (r : ByteRing) : r.toList.length = r.count := by simp [toList]

end ByteRing

end BurnerTelemetry
