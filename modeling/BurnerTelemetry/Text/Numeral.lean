/-!
Numbers in decimal text: an optional sign and at least one of the ten ASCII digits, with nothing
before, between or after them. A reader for a bounded type is the plain one cut to its range.
-/
namespace BurnerTelemetry.Text.Numeral

def digitValue (c : Char) : Nat := c.toNat - '0'.toNat

/-- The value of a row of digits, most significant first. -/
def value (digits : List Char) : Nat := digits.foldl (fun n c => 10 * n + digitValue c) 0

/-- A row of at least one digit, without a sign. -/
def unsigned? (s : List Char) : Option Nat :=
  if s ≠ [] ∧ s.all Char.isDigit = true then some (value s) else none

/-- A natural number, which may carry a plus sign. -/
def natural? : List Char → Option Nat
  | '+' :: s => unsigned? s
  | s => unsigned? s

/-- A whole number, which may carry either sign. -/
def integer? : List Char → Option Int
  | '-' :: s => (unsigned? s).map (fun n => -(n : Int))
  | s => (natural? s).map (fun n => (n : Int))

/-- A natural number below `bound`. -/
def naturalBelow? (bound : Nat) (s : List Char) : Option Nat :=
  (natural? s).filter (fun n => decide (n < bound))

/-- A whole number below `bound` and not below its negative, as two's complement has them. -/
def integerWithin? (bound : Nat) (s : List Char) : Option Int :=
  (integer? s).filter (fun i => decide (-(bound : Int) ≤ i ∧ i < bound))

/-- The digit of a value below sixteen, in upper case. -/
def upperHexDigit (n : Nat) : Char := Char.ofNat (if n < 10 then 48 + n else 55 + n)

/-- A byte in two upper-case hexadecimal digits. -/
def upperHex (b : UInt8) : String :=
  String.ofList [upperHexDigit (b.toNat / 16), upperHexDigit (b.toNat % 16)]

example : integer? ['-', '0', '7'] = some (-7) := by decide
example : integer? ['+'] = none ∧ natural? ['-', '1'] = none := by decide
example : integerWithin? 128 ['1', '2', '8'] = none := by decide

end BurnerTelemetry.Text.Numeral
