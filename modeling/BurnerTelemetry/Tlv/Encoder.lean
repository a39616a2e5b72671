import BurnerTelemetry.Bytes
import BurnerTelemetry.Text.Utf8
import BurnerTelemetry.Tlv.Control

/-!
Writing items into a buffer of fixed size. An item is written whole or not at all: a refused item
leaves the buffer, the space in use and the open containers as they were. Numbers take the
narrowest width, least significant byte first.
-/
namespace BurnerTelemetry.Tlv

/-- The bytes of a text behind its tag: its length in one byte, then the text. -/
def textPayload (s : String) : Bytes :=
  UInt8.ofNat s.utf8ByteSize :: Text.Utf8.encode s

/-- The written form of an item. -/
def Item.toBytes : Item → Bytes
  | .signed tag v =>
    let width := Width.ofSigned v
    Control.toByte ⟨.signed, .context, width.code⟩ :: tag ::
      Bytes.ofNatLE width.bytes v.toUInt32.toNat
  | .unsigned tag v =>
    let width := Width.ofUnsigned v
    Control.toByte ⟨.unsigned, .context, width.code⟩ :: tag ::
      Bytes.ofNatLE width.bytes v.toNat
  | .boolean tag v => [Control.toByte ⟨.boolean, .context, if v then 1 else 0⟩, tag]
  | .text tag s => Control.toByte ⟨.text, .context, Width.one.code⟩ :: tag :: textPayload s
  | .start tag container => [Control.toByte ⟨container.kind, .context, 0⟩, tag]
  | .stop => [stopByte]

/-- The number of bytes of the written form. -/
def Item.size (item : Item) : Nat := item.toBytes.length

structure Encoder where
  buffer : Bytes
  /-- The number of bytes written. -/
  used : Nat
  /-- The open containers, innermost first. -/
  containers : List Container
  deriving DecidableEq, Repr

namespace Encoder

/-- Starts at the front of a buffer, whatever it holds. -/
def ofBuffer (buffer : Bytes) : Encoder := ⟨buffer, 0, []⟩

/-- Starts in a buffer of zeros. -/
def ofCapacity (capacity : Nat) : Encoder := ofBuffer (List.replicate capacity 0)

def remaining (e : Encoder) : Nat := e.buffer.length - e.used

def depth (e : Encoder) : Nat := e.containers.length

/-- The bytes written so far. -/
def written (e : Encoder) : Bytes := e.buffer.take e.used

/-- The items of an array go under tag 0. -/
def tagFault? (e : Encoder) (tag : UInt8) : Option WriteError :=
  if e.containers.head? = some .array ∧ tag ≠ 0 then some (.arrayItemTag tag) else none

/-- What forbids an item at this place, whatever the space. -/
def placeFault? (e : Encoder) : Item → Option WriteError
  | .text tag s =>
    if textLimit < s.utf8ByteSize then some (.textTooLong s.utf8ByteSize) else e.tagFault? tag
  | .start tag _ => if depthLimit ≤ e.depth then some .nestingTooDeep else e.tagFault? tag
  | .stop => if e.depth = 0 then some .noOpenContainer else none
  | .signed tag _ | .unsigned tag _ | .boolean tag _ => e.tagFault? tag

/-- What forbids an item: its place, then the space it needs. -/
def fault? (e : Encoder) (item : Item) : Option WriteError :=
  match e.placeFault? item with
  | some fault => some fault
  | none => if e.remaining < item.size then some (.overflow item.size e.remaining) else none

/-- The open containers behind an item. -/
def containersAfter (containers : List Container) : Item → List Container
  | .start _ container => container :: containers
  | .stop => containers.tail
  | _ => containers

/-- Writes an item that nothing forbids. -/
def write (e : Encoder) (item : Item) : Encoder where
  buffer := e.buffer.take e.used ++ item.toBytes ++ e.buffer.drop (e.used + item.size)
  used := e.used + item.size
  containers := containersAfter e.containers item

/-- Writes an item, or tells why not. -/
def put (e : Encoder) (item : Item) : Except WriteError Encoder :=
  match e.fault? item with
  | some fault => .error fault
  | none => .ok (e.write item)

theorem put_ok_iff {e next : Encoder} {item : Item} :
    e.put item = .ok next ↔
      e.placeFault? item = none ∧ item.size ≤ e.remaining ∧ next = e.write item := by
  unfold put fault?
  cases hp : e.placeFault? item with
  | some fault => simp
  | none =>
    by_cases hs : e.remaining < item.size
    · simp [hs, Nat.not_le_of_lt hs]
    · simp [hs, Nat.le_of_not_lt hs, eq_comm]

theorem size_pos (item : Item) : 0 < item.size := by
  cases item <;> exact Nat.succ_pos _

/-- An item finds room only behind bytes that the buffer has. -/
theorem used_le_of_room {e : Encoder} {item : Item} (hroom : item.size ≤ e.remaining) :
    e.used + item.size ≤ e.buffer.length := by
  have hsize := size_pos item
  simp only [remaining] at hroom
  omega

theorem length_buffer_write {e : Encoder} {item : Item}
    (h : e.used + item.size ≤ e.buffer.length) :
    (e.write item).buffer.length = e.buffer.length := by
  simp only [write, List.length_append, List.length_take, List.length_drop, Item.size] at h ⊢
  omega

theorem length_buffer_put {e next : Encoder} {item : Item} (h : e.put item = .ok next) :
    next.buffer.length = e.buffer.length := by
  obtain ⟨_, hroom, rfl⟩ := put_ok_iff.1 h
  exact length_buffer_write (used_le_of_room hroom)

/-- Writes items until one is refused; those before it stay written. -/
def putAll (e : Encoder) : List Item → Except WriteError Unit × Encoder
  | [] => (.ok (), e)
  | item :: rest =>
    match e.put item with
    | .ok next => next.putAll rest
    | .error fault => (.error fault, e)

/-- Whatever is written, the buffer keeps its size. -/
theorem length_buffer_putAll (e : Encoder) (items : List Item) :
    (e.putAll items).2.buffer.length = e.buffer.length := by
  induction items generalizing e with
  | nil => rfl
  | cons item rest ih =>
    unfold putAll
    cases hput : e.put item with
    | error fault => rfl
    | ok next => exact (ih next).trans (length_buffer_put hput)

/-- The bytes of a stream whose containers are all stopped. -/
def finish (e : Encoder) : Except WriteError Bytes :=
  if e.depth = 0 then .ok e.written else .error (.unclosedContainers e.depth)

end Encoder

end BurnerTelemetry.Tlv
