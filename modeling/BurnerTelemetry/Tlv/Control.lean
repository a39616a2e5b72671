import BurnerTelemetry.Tlv.Error

/-!
The first byte of an item: its kind in the three high bits, the form of its tag in the next two,
and in the three low bits a width or, for a boolean, the value.
-/
namespace BurnerTelemetry.Tlv

inductive Kind where
  | signed | unsigned | boolean | text | stop | array | struct
  deriving DecidableEq, Repr

def Kind.code : Kind → UInt8
  | signed => 0
  | unsigned => 1
  | boolean => 2
  | text => 4
  | stop => 5
  | array => 6
  | struct => 7

def Kind.ofCode? (code : UInt8) : Option Kind :=
  [signed, unsigned, boolean, text, stop, array, struct].find? (fun k => k.code == code)

def Kind.isContainer : Kind → Bool
  | array | struct => true
  | _ => false

@[simp] theorem Kind.ofCode?_code (k : Kind) : Kind.ofCode? k.code = some k := by cases k <;> rfl

def Container.kind : Container → Kind
  | .array => .array
  | .struct => .struct

def Item.kind : Item → Kind
  | .signed _ _ => .signed
  | .unsigned _ _ => .unsigned
  | .boolean _ _ => .boolean
  | .text _ _ => .text
  | .start _ container => container.kind
  | .stop => .stop

/-- The form of a tag. Only end marks go without one. -/
inductive TagForm where
  | anonymous | context
  deriving DecidableEq, Repr

def TagForm.code : TagForm → UInt8
  | anonymous => 0
  | context => 1

def TagForm.ofCode? (code : UInt8) : Option TagForm :=
  [anonymous, context].find? (fun f => f.code == code)

@[simp] theorem TagForm.ofCode?_code (f : TagForm) : TagForm.ofCode? f.code = some f := by
  cases f <;> rfl

/-- The width of a number, or of the length of a text. -/
inductive Width where
  | one | two | four
  deriving DecidableEq, Repr

namespace Width

def code : Width → UInt8
  | one => 0
  | two => 1
  | four => 2

def ofCode? (code : UInt8) : Option Width :=
  [one, two, four].find? (fun w => w.code == code)

@[simp] theorem ofCode?_code (w : Width) : ofCode? w.code = some w := by cases w <;> rfl

def bytes : Width → Nat
  | one => 1
  | two => 2
  | four => 4

/-- The narrowest width that holds an unsigned value. -/
def ofUnsigned (v : UInt32) : Width :=
  if v.toNat < 256 then one else if v.toNat < 65536 then two else four

/-- The narrowest width that holds a signed value in two's complement. -/
def ofSigned (v : Int32) : Width :=
  if -128 ≤ v.toInt ∧ v.toInt < 128 then one
  else if -32768 ≤ v.toInt ∧ v.toInt < 32768 then two
  else four

end Width

/-- The three parts of the first byte of an item. -/
structure Control where
  kind : Kind
  tagForm : TagForm
  low : UInt8
  deriving DecidableEq, Repr

namespace Control

def toByte (c : Control) : UInt8 := c.kind.code <<< 5 ||| c.tagForm.code <<< 3 ||| c.low

/-- Checks the kind, then the form of the tag. -/
def ofByte (raw : UInt8) : Except ReadError Control :=
  match Kind.ofCode? (raw >>> 5) with
  | none => .error (.unknownKind raw)
  | some kind =>
    match TagForm.ofCode? ((raw >>> 3) &&& 3) with
    | none => .error (.unsupportedTagForm raw)
    | some tagForm => .ok ⟨kind, tagForm, raw &&& 7⟩

end Control

/-- The byte that stops the innermost container. -/
def stopByte : UInt8 := Control.toByte ⟨.stop, .anonymous, 0⟩

example : stopByte = 0xA0 := by decide

end BurnerTelemetry.Tlv
