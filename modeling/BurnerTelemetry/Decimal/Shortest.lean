import BurnerTelemetry.Decimal.Binary64

/-!
The decimal with the fewest digits that reads back as a given binary number, and its positional
text. The numbers that round to a significand lie between the midpoints to its neighbours, and
the midpoints belong to them when the significand is even. The coarsest power of ten with a
multiple in there gives the digits; of two such multiples the nearer one, and the greater of two
equally near.
-/
namespace BurnerTelemetry.Decimal

/-- The multiple of `10 ^ k` that reads back as `significand * 2 ^ exponent`, if there is one.
All lengths are in quarters of the gap between numbers of this exponent, over a common
denominator. -/
def multipleOf? (significand : Nat) (exponent k : Int) (isEven isLeastOfBinade : Bool) :
    Option Nat :=
  let (up, down) := powerRatio 2 (exponent - 2)
  let (tensUp, tensDown) := powerRatio 10 k
  let unit := up * tensDown
  let grid := down * tensUp
  let quarters := 4 * significand
  let low := (quarters - if isLeastOfBinade then 1 else 2) * unit
  let high := (quarters + 2) * unit
  let within (n : Nat) : Bool :=
    if isEven then decide (low ≤ n * grid ∧ n * grid ≤ high)
    else decide (low < n * grid ∧ n * grid < high)
  let below := quarters * unit / grid
  let rest := quarters * unit % grid
  match within below, within (below + 1) with
  | true, true => some (if 2 * rest < grid then below else below + 1)
  | true, false => some below
  | false, true => some (below + 1)
  | false, false => none

/-- The fewest digits of a positive number and the power of ten they are multiplied by. -/
def shortest (significand : Nat) (exponent : Int) : Nat × Int :=
  let isEven := significand % 2 == 0
  let isLeast := significand == 1 <<< (significandBits - 1) && decide (leastExponent < exponent)
  let found := (List.range 653).findSome? (fun (i : Nat) =>
    let k : Int := 309 - (i : Int)
    (multipleOf? significand exponent k isEven isLeast).map (fun n => (n, k)))
  found.getD (0, 0)

/-- The text of `digits * 10 ^ k` without an exponent. -/
def positional (digits : Nat) (k : Int) : List Char :=
  let text := Nat.toDigits 10 digits
  let places := (-k).toNat
  if 0 ≤ k then text ++ List.replicate k.toNat '0'
  else if places < text.length then
    text.take (text.length - places) ++ '.' :: text.drop (text.length - places)
  else '0' :: '.' :: List.replicate (places - text.length) '0' ++ text

/-- The text of a number: its shortest decimal without an exponent, and no point in a whole
number. -/
def Binary64.render : Binary64 → String
  | .finite negative s e =>
    let (digits, k) := if s = 0 then (0, 0) else shortest s e
    String.ofList ((if negative then ['-'] else []) ++ positional digits k)
  | .infinite negative => if negative then "-inf" else "inf"
  | .nan => "NaN"

end BurnerTelemetry.Decimal
