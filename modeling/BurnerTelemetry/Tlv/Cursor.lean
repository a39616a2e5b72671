import BurnerTelemetry.Bytes
import BurnerTelemetry.Text.Utf8
import BurnerTelemetry.Tlv.Control

/-!
Reading items from bytes that nobody vouches for. The first fault is reported once and ends the
stream: from then on the cursor stands still and says that there is nothing more.
-/
namespace BurnerTelemetry.Tlv

/-- A number in two's complement, least significant byte first. -/
def signedOfBytes (bytes : Bytes) : Int32 :=
  Int32.ofInt (Int.bmod (Bytes.toNatLE bytes) (1 <<< (8 * bytes.length)))

/-- Splits off the given number of bytes. -/
def takeBytes (offset count : Nat) (bytes : Bytes) : Except ReadError Bytes :=
  if count ≤ bytes.length then .ok (bytes.take count) else .error (.truncated offset)

/-- The width in the low bits of a first byte. -/
def readWidth (raw : UInt8) (control : Control) : Except ReadError Width :=
  match Width.ofCode? control.low with
  | some width => .ok width
  | none => .error (.invalidWidth raw)

/-- The text behind its tag, with the number of bytes it takes. -/
def readText (raw : UInt8) (control : Control) (offset : Nat) (bytes : Bytes) :
    Except ReadError (String × Nat) := do
  let width ← readWidth raw control
  if width = .one then
    match bytes with
    | [] => throw (.truncated offset)
    | length :: rest =>
      if rest.length < length.toNat then throw (.textExceedsBytes length.toNat rest.length)
      else
        match Text.Utf8.decode? (rest.take length.toNat) with
        | some s => return (s, 1 + length.toNat)
        | none => throw (.invalidText offset)
  else throw (.invalidWidth raw)

/-- The item of a tag and what stands behind it, with the number of bytes it takes there. -/
def readTagged (raw : UInt8) (control : Control) (offset depth : Nat) (tag : UInt8)
    (bytes : Bytes) : Except ReadError (Item × Nat) :=
  match control.kind with
  | .unsigned => do
    let width ← readWidth raw control
    let value ← takeBytes offset width.bytes bytes
    return (.unsigned tag (UInt32.ofNat (Bytes.toNatLE value)), width.bytes)
  | .signed => do
    let width ← readWidth raw control
    let value ← takeBytes offset width.bytes bytes
    return (.signed tag (signedOfBytes value), width.bytes)
  | .boolean =>
    if control.low = 0 then .ok (.boolean tag false, 0)
    else if control.low = 1 then .ok (.boolean tag true, 0)
    else .error (.invalidWidth raw)
  | .text => do
    let (s, size) ← readText raw control offset bytes
    return (.text tag s, size)
  | .array => if depthLimit ≤ depth then .error .nestingTooDeep else .ok (.start tag .array, 0)
  | .struct => if depthLimit ≤ depth then .error .nestingTooDeep else .ok (.start tag .struct, 0)
  | .stop => .error (.unsupportedTagForm raw)

/-- The item at the front of the bytes with its size. The bytes stand at `offset`, inside `depth`
open containers. -/
def readItem (offset depth : Nat) : Bytes → Except ReadError (Item × Nat)
  | [] => .error (.truncated offset)
  | raw :: rest => do
    let control ← Control.ofByte raw
    if control.kind = .stop then
      if control.tagForm ≠ .anonymous ∨ control.low ≠ 0 then throw (.unsupportedTagForm raw)
      else if depth = 0 then throw (.unbalancedStop offset)
      else return (.stop, 1)
    else if control.tagForm ≠ .context then throw (.unsupportedTagForm raw)
    else
      match rest with
      | [] => throw (.truncated offset)
      | tag :: body => do
        let (item, size) ← readTagged raw control offset depth tag body
        return (item, 2 + size)

theorem readItem_size_pos {offset depth : Nat} {bytes : Bytes} {item : Item} {size : Nat}
    (h : readItem offset depth bytes = .ok (item, size)) : 0 < size := by
  unfold readItem at h
  split at h
  · cases h
  · rename_i raw rest
    cases hc : Control.ofByte raw with
    | error e => rw [hc] at h; cases h
    | ok control =>
      rw [hc] at h
      simp only [bind, Except.bind] at h
      split at h
      · split at h
        · cases h
        · split at h <;> cases h
          decide
      · split at h
        · cases h
        · split at h
          · cases h
          · rename_i tag body
            cases ht : readTagged raw control offset depth tag body with
            | error e => rw [ht] at h; cases h
            | ok v => rw [ht] at h; cases h; omega

structure Cursor where
  bytes : Bytes
  /-- The offset of the next item. -/
  position : Nat
  /-- The number of open containers. -/
  depth : Nat
  failed : Bool
  deriving DecidableEq, Repr

namespace Cursor

/-- Stands in front of the first item. -/
def start (bytes : Bytes) : Cursor := ⟨bytes, 0, 0, false⟩

/-- There is nothing more to read. -/
def isEnd (c : Cursor) : Bool := c.failed || decide (c.bytes.length ≤ c.position)

/-- The bytes that are left to read. -/
def left (c : Cursor) : Nat := if c.failed then 0 else c.bytes.length - c.position

theorem left_pos_of_not_isEnd {c : Cursor} (h : c.isEnd = false) :
    c.failed = false ∧ c.position < c.bytes.length := by
  simpa [isEnd] using h

/-- Steps over the next item. There is none at the end, and a fault makes this the end. -/
def next (c : Cursor) : Except ReadError (Option Item) × Cursor :=
  if c.isEnd then (.ok none, c)
  else
    match readItem c.position c.depth (c.bytes.drop c.position) with
    | .ok (item, size) =>
      (.ok (some item), { c with position := c.position + size, depth := item.depthAfter c.depth })
    | .error e => (.error e, { c with failed := true })

/-- What `next` would answer. -/
def peek (c : Cursor) : Except ReadError (Option Item) := c.next.1

theorem left_next_lt {c : Cursor} (h : c.isEnd = false) : c.next.2.left < c.left := by
  have hc := left_pos_of_not_isEnd h
  unfold next
  rw [if_neg (by simp [h])]
  split
  · rename_i item size hr
    have := readItem_size_pos hr
    simp only [left, hc.1, Bool.false_eq_true, ↓reduceIte]
    omega
  · simp only [left, hc.1, Bool.false_eq_true, ↓reduceIte]
    omega

/-- Steps over items until no more than `depth` containers are open. -/
def leave (c : Cursor) (depth : Nat) : Except ReadError Unit × Cursor :=
  if c.depth ≤ depth then (.ok (), c)
  else if _h : c.isEnd = true then (.error (.truncated c.position), c)
  else
    match c.next.1 with
    | .error e => (.error e, c.next.2)
    | .ok _ => c.next.2.leave depth
  termination_by c.left
  decreasing_by exact left_next_lt (by simpa using _h)

/-- Steps over the next item, and over all that stands in it if it starts a container. -/
def skip (c : Cursor) : Except ReadError Unit × Cursor :=
  match c.next with
  | (.error e, after) => (.error e, after)
  | (.ok (some (.start _ _)), after) => after.leave (after.depth - 1)
  | (.ok _, after) => (.ok (), after)

/-- What `next` answers until the end, a fault included, with the cursor after each answer. -/
def walk (c : Cursor) : List (Except ReadError Item × Cursor) :=
  if _h : c.isEnd = true then []
  else
    match c.next.1 with
    | .ok none => []
    | .ok (some item) => (.ok item, c.next.2) :: c.next.2.walk
    | .error e => (.error e, c.next.2) :: c.next.2.walk
  termination_by c.left
  decreasing_by
    all_goals exact left_next_lt (by simpa using _h)

end Cursor

end BurnerTelemetry.Tlv
