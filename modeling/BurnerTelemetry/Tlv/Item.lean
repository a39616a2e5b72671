/-!
The items of a tag-length-value stream: numbers, booleans and texts under a one-byte tag, and the
start and stop marks of containers. A stop mark has no tag.
-/
namespace BurnerTelemetry.Tlv

inductive Container where
  | array
  | struct
  deriving DecidableEq, Repr

inductive Item where
  | signed (tag : UInt8) (value : Int32)
  | unsigned (tag : UInt8) (value : UInt32)
  | boolean (tag : UInt8) (value : Bool)
  | text (tag : UInt8) (value : String)
  | start (tag : UInt8) (container : Container)
  | stop
  deriving DecidableEq, Repr

/-- The number of containers that may be open at a time. -/
def depthLimit : Nat := 8

/-- The number of bytes a text may have. -/
def textLimit : Nat := 255

namespace Item

def tag? : Item → Option UInt8
  | signed t _ | unsigned t _ | boolean t _ | text t _ | start t _ => some t
  | stop => none

/-- The value of an unsigned number below `bound`. -/
def unsignedBelow? (bound : Nat) : Item → Option Nat
  | unsigned _ v => if v.toNat < bound then some v.toNat else none
  | _ => none

/-- The value of a signed number below `bound` and not below its negative. -/
def signedWithin? (bound : Nat) : Item → Option Int
  | signed _ v => if -(bound : Int) ≤ v.toInt ∧ v.toInt < bound then some v.toInt else none
  | _ => none

def boolean? : Item → Option Bool
  | boolean _ v => some v
  | _ => none

def text? : Item → Option String
  | text _ v => some v
  | _ => none

/-- The number of open containers behind an item, from the number in front of it. -/
def depthAfter (depth : Nat) : Item → Nat
  | start _ _ => depth + 1
  | stop => depth - 1
  | _ => depth

end Item

end BurnerTelemetry.Tlv
