import BurnerTelemetry.Text.Fields
import BurnerTelemetry.Text.Numeral

/-!
Network addresses of four bytes as four decimal numbers between dots. A number has one to three
digits and no leading zero, so each address has one written form.
-/
namespace BurnerTelemetry.Text

structure DottedQuad where
  a : UInt8
  b : UInt8
  c : UInt8
  d : UInt8
  deriving DecidableEq, Repr

namespace DottedQuad

/-- A byte in decimal, without leading zeros. -/
def byte? (s : List Char) : Option UInt8 :=
  if s.length ≤ 3 ∧ (s.length = 1 ∨ s.head? ≠ some '0') then
    match Numeral.unsigned? s with
    | some n => if n < 256 then some (UInt8.ofNat n) else none
    | none => none
  else none

def ofChars? (s : List Char) : Option DottedQuad :=
  match (splitAt '.' s).map byte? with
  | [some a, some b, some c, some d] => some ⟨a, b, c, d⟩
  | _ => none

def render (q : DottedQuad) : String :=
  s!"{q.a.toNat}.{q.b.toNat}.{q.c.toNat}.{q.d.toNat}"

example : ofChars? "192.168.0.1".toList = some ⟨192, 168, 0, 1⟩ := by decide
example : ofChars? "192.168.00.1".toList = none := by decide
example : ofChars? "1.2.3".toList = none ∧ ofChars? "1.2.3.256".toList = none := by decide

end DottedQuad

end BurnerTelemetry.Text
