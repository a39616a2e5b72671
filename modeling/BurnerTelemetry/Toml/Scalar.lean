import BurnerTelemetry.Decimal.Reading
import BurnerTelemetry.Toml.Lexeme
import BurnerTelemetry.Toml.Moment
import BurnerTelemetry.Toml.Value

/-!
The values that are one unbroken word: booleans, numbers, dates and times. A word ends where a
character comes that none of them has.
-/
namespace BurnerTelemetry.Toml

/-- The digits of a number in which single underscores may stand between two digits. -/
def digits? (isDigit : Char → Bool) : List Char → Option (List Char)
  | [] => none
  | [c] => if isDigit c then some [c] else none
  | c :: '_' :: rest => if isDigit c then (digits? isDigit rest).map (c :: ·) else none
  | c :: rest => if isDigit c then (digits? isDigit rest).map (c :: ·) else none

/-- Digits that start with zero only if that is all. -/
def wholeDigits? (s : List Char) : Option (List Char) :=
  (digits? Char.isDigit s).filter (fun digits => digits.length == 1 || digits.head? != some '0')

/-- A whole number of 64 bits in two's complement. -/
def within64? (i : Int) : Option Int :=
  if Int64.minValue.toInt ≤ i ∧ i ≤ Int64.maxValue.toInt then some i else none

/-- The value of digits in a base that is a power of two. -/
def inBase? (base : Nat) (s : List Char) : Option Int := do
  let isDigit (c : Char) : Bool := (hexValue? c).any (fun d => decide (d < base))
  let digits ← digits? isDigit s
  let values ← digits.mapM hexValue?
  let value : Nat := values.foldl (fun n d => base * n + d) 0
  within64? value

def integer? (s : List Char) : Option Int :=
  match s with
  | '0' :: 'x' :: rest => inBase? 16 rest
  | '0' :: 'o' :: rest => inBase? 8 rest
  | '0' :: 'b' :: rest => inBase? 2 rest
  | s => do
    let (negative, rest) := Decimal.splitSign s
    let digits ← wholeDigits? rest
    let value : Int := Text.Numeral.value digits
    within64? (if negative then -value else value)

/-- The power of ten of a number. -/
def power? (s : List Char) : Option Int := do
  let (negative, rest) := Decimal.splitSign s
  let digits ← digits? Char.isDigit rest
  let value : Int := Text.Numeral.value digits
  return if negative then -value else value

/-- A number with a point or a power of ten or both, or the name of one that is not finite. One
that is too great to be finite is refused. -/
def float? (s : List Char) : Option Decimal.Binary64 :=
  let (negative, rest) := Decimal.splitSign s
  if rest = ['i', 'n', 'f'] then some (.infinite negative)
  else if rest = ['n', 'a', 'n'] then some .nan
  else do
    let (mantissa, power) := Decimal.cut? (fun c => c == 'e' || c == 'E') rest
    let (whole, fraction) := Decimal.cut? (fun c => c == '.') mantissa
    let whole ← wholeDigits? whole
    let fraction ← match fraction, power with
      | none, none => none
      | none, some _ => some []
      | some digits, _ => digits? Char.isDigit digits
    let exponent ← match power with
      | none => some 0
      | some digits => power? digits
    let value ← Decimal.ofParts negative whole fraction exponent
    if value = .infinite false then none else return value

/-- The value of a word. -/
def scalar? (word : List Char) : Option Value :=
  if word = ['t', 'r', 'u', 'e'] then some (.boolean true)
  else if word = ['f', 'a', 'l', 's', 'e'] then some (.boolean false)
  else
    match Moment.ofChars? word with
    | some text => some (.moment text)
    | none =>
      match float? word with
      | some f => some (.float f)
      | none => (integer? word).map .integer

/-- A character that may stand in a word. -/
def isWordChar (c : Char) : Bool :=
  c.isAlphanum || c == '_' || c == '-' || c == '+' || c == '.' || c == ':'

/-- The word at the front. A date and a time behind one blank make one word. -/
def word (s : List Char) : List Char × List Char :=
  let first := s.takeWhile isWordChar
  match (Moment.date? first), s.dropWhile isWordChar with
  | some (_, []), ' ' :: rest =>
    let second := rest.takeWhile isWordChar
    if (Moment.time? second).isSome then (first ++ ' ' :: second, rest.dropWhile isWordChar)
    else (first, ' ' :: rest)
  | _, rest => (first, rest)

/-- A value that is one word. -/
def scalar (s : List Char) : Option (Value × List Char) :=
  (scalar? (word s).1).map (fun v => (v, (word s).2))

end BurnerTelemetry.Toml
