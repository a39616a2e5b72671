/-!
Binary floating-point numbers of 64 bits as exact integers: a significand below `2 ^ 53` times a
power of two. A decimal becomes the nearest such number, and of two equally near ones the one with
an even significand.
-/
namespace BurnerTelemetry.Decimal

inductive Binary64 where
  | finite (negative : Bool) (significand : Nat) (exponent : Int)
  | infinite (negative : Bool)
  | nan
  deriving DecidableEq, Repr

/-- The number of bits of a significand. -/
def significandBits : Nat := 53

/-- The exponent of the least numbers, which have fewer bits. -/
def leastExponent : Int := -1074

/-- The exponent of the greatest numbers. -/
def greatestExponent : Int := 971

/-- `base ^ e` as a numerator and a denominator, one of them 1. -/
def powerRatio (base : Nat) (e : Int) : Nat × Nat := (base.pow e.toNat, base.pow (-e).toNat)

/-- The quotient rounded to the nearest whole number, a half to the even one. -/
def roundHalfEven (numerator denominator : Nat) : Nat :=
  let quotient := numerator / denominator
  let twice := 2 * (numerator % denominator)
  if twice < denominator then quotient
  else if denominator < twice then quotient + 1
  else quotient + quotient % 2

/-- The greatest `k` with `2 ^ k` at most the quotient of two positive numbers. -/
def floorLog2 (numerator denominator : Nat) : Int :=
  let k : Int := (Nat.log2 numerator : Int) - Nat.log2 denominator
  let (up, down) := powerRatio 2 k
  if denominator * up ≤ numerator * down then k else k - 1

/-- The number nearest to a positive quotient. -/
def nearest (negative : Bool) (numerator denominator : Nat) : Binary64 :=
  let e := max (floorLog2 numerator denominator - (significandBits - 1)) leastExponent
  let (up, down) := powerRatio 2 e
  let s := roundHalfEven (numerator * down) (denominator * up)
  let (s, e) := if s = 1 <<< significandBits then (1 <<< (significandBits - 1), e + 1) else (s, e)
  if greatestExponent < e then .infinite negative else .finite negative s e

/-- The number nearest to `digits * 10 ^ exponent`. Beyond `10 ^ 310` and below `10 ^ -330` the
size alone decides. -/
def ofDecimal (negative : Bool) (digits : Nat) (exponent : Int) : Binary64 :=
  let magnitude := ((Nat.toDigits 10 digits).length : Int) + exponent
  if digits = 0 ∨ magnitude < -330 then .finite negative 0 leastExponent
  else if 310 < magnitude then .infinite negative
  else
    let (up, down) := powerRatio 10 exponent
    nearest negative (digits * up) down

/-- The nearest whole number from 0 to `limit`, a half away from zero; no number counts as 0. -/
def Binary64.toNatWithin (limit : Nat) : Binary64 → Nat
  | .finite negative s e =>
    let (up, down) := powerRatio 2 e
    if negative then 0 else min ((2 * s * up + down) / (2 * down)) limit
  | .infinite negative => if negative then 0 else limit
  | .nan => 0

example : ofDecimal false 1 (-1) = .finite false 7205759403792794 (-56) := by decide
example : ofDecimal false 9007199254740993 0 = .finite false 4503599627370496 1 := by decide
example : (ofDecimal false 25 (-1)).toNatWithin 10 = 3 := by decide

end BurnerTelemetry.Decimal
