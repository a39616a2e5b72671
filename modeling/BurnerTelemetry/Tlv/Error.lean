import BurnerTelemetry.Text.Numeral
import BurnerTelemetry.Tlv.Item

/-!
Why an item is not written, and why bytes are no item.
-/
namespace BurnerTelemetry.Tlv

inductive WriteError where
  | overflow (needed remaining : Nat)
  | textTooLong (size : Nat)
  | nestingTooDeep
  | noOpenContainer
  | unclosedContainers (count : Nat)
  | arrayItemTag (tag : UInt8)
  deriving DecidableEq, Repr

inductive ReadError where
  | truncated (offset : Nat)
  | textExceedsBytes (declared remaining : Nat)
  | unknownKind (octet : UInt8)
  | unsupportedTagForm (octet : UInt8)
  | invalidWidth (octet : UInt8)
  | invalidText (offset : Nat)
  | nestingTooDeep
  | unbalancedStop (offset : Nat)
  deriving DecidableEq, Repr

def nestingMessage : String := s!"container nesting deeper than {depthLimit}"

def WriteError.message : WriteError → String
  | overflow needed remaining => s!"buffer overflow: need {needed} bytes, {remaining} remaining"
  | textTooLong size => s!"string of {size} bytes exceeds the 255-byte limit"
  | nestingTooDeep => nestingMessage
  | noOpenContainer => "no open container to close"
  | unclosedContainers count => s!"{count} container(s) still open"
  | arrayItemTag tag => s!"array element carries tag {tag.toNat}, expected 0"

def octetText (octet : UInt8) : String := "0x" ++ Text.Numeral.upperHex octet

def ReadError.message : ReadError → String
  | truncated offset => s!"element truncated at offset {offset}"
  | textExceedsBytes declared remaining =>
    s!"declared length {declared} exceeds remaining {remaining} bytes"
  | unknownKind octet => s!"unknown element type in control octet {octetText octet}"
  | unsupportedTagForm octet => s!"unsupported tag control in control octet {octetText octet}"
  | invalidWidth octet => s!"invalid width in control octet {octetText octet}"
  | invalidText offset => s!"string at offset {offset} is not valid UTF-8"
  | nestingTooDeep => nestingMessage
  | unbalancedStop offset => s!"end of container at offset {offset} with none open"

end BurnerTelemetry.Tlv
