import BurnerTelemetry.Decimal.Binary64
import BurnerTelemetry.Text.Numeral

/-!
Binary numbers in decimal text: digits with a point anywhere among them or none, then a power of
ten, or the name of an infinity or of no number at all, in any case. A sign may stand in front.
-/
namespace BurnerTelemetry.Decimal

/-- A sign, true if negative, and what follows it; without one a number is positive. -/
def splitSign : List Char → Bool × List Char
  | '-' :: rest => (true, rest)
  | '+' :: rest => (false, rest)
  | s => (false, s)

/-- The whole number behind the letter of a power of ten. -/
def exponent? (s : List Char) : Option Int := Text.Numeral.integer? s

/-- The number of a row of digits before the point, one behind it, and a power of ten. At least
one of the rows has a digit. -/
def ofParts (negative : Bool) (whole fraction : List Char) (exponent : Int) : Option Binary64 :=
  (Text.Numeral.unsigned? (whole ++ fraction)).map (fun digits =>
    ofDecimal negative digits (exponent - fraction.length))

/-- The part in front of the first character that satisfies `p`, and the part behind it. -/
def cut? (p : Char → Bool) (s : List Char) : List Char × Option (List Char) :=
  match s.dropWhile (fun c => !p c) with
  | [] => (s, none)
  | _ :: rest => (s.takeWhile (fun c => !p c), some rest)

/-- A number without a sign. -/
def unsigned? (negative : Bool) (s : List Char) : Option Binary64 :=
  let name := String.ofList (s.map Char.toLower)
  if name = "inf" ∨ name = "infinity" then some (.infinite negative)
  else if name = "nan" then some .nan
  else do
    let (mantissa, power) := cut? (fun c => c == 'e' || c == 'E') s
    let exponent ← match power with
      | some digits => exponent? digits
      | none => some 0
    let (whole, fraction) := cut? (fun c => c == '.') mantissa
    ofParts negative whole (fraction.getD []) exponent

def ofChars? (s : List Char) : Option Binary64 :=
  let (negative, rest) := splitSign s
  unsigned? negative rest

example : ofChars? "1.".toList = ofChars? "1".toList := by decide
example : ofChars? ".".toList = none ∧ ofChars? "1e".toList = none := by decide
example : ofChars? "-.5e1".toList = some (ofDecimal true 5 0) := by decide

end BurnerTelemetry.Decimal
