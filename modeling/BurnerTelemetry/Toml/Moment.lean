import BurnerTelemetry.Text.Numeral

/-!
Dates and times of day in a document. A moment is a date, a time, or a date and a time, to which
the distance from universal time may be added. Its text is written anew: with a `T` between date
and time, without needless zeros behind the seconds.
-/
namespace BurnerTelemetry.Toml.Moment

def isLeapYear (year : Nat) : Bool :=
  (year % 4 == 0 && year % 100 != 0) || year % 400 == 0

def monthLength (year month : Nat) : Nat :=
  if month = 2 then if isLeapYear year then 29 else 28
  else if month = 4 ∨ month = 6 ∨ month = 9 ∨ month = 11 then 30
  else 31

/-- A number of exactly `count` digits. -/
def fixed? (count : Nat) (s : List Char) : Option (Nat × List Char) :=
  if (s.take count).length = count then
    (Text.Numeral.unsigned? (s.take count)).map (fun n => (n, s.drop count))
  else none

def expect? (c : Char) : List Char → Option (List Char)
  | d :: rest => if c = d then some rest else none
  | [] => none

/-- A number with zeros in front to a width. -/
def padded (width n : Nat) : List Char :=
  let digits := Nat.toDigits 10 n
  List.replicate (width - digits.length) '0' ++ digits

/-- A date, written as it is read, and what follows it. -/
def date? (s : List Char) : Option (List Char × List Char) := do
  let (year, rest) ← fixed? 4 s
  let rest ← expect? '-' rest
  let (month, rest) ← fixed? 2 rest
  let rest ← expect? '-' rest
  let (day, rest) ← fixed? 2 rest
  if 1 ≤ month ∧ month ≤ 12 ∧ 1 ≤ day ∧ day ≤ monthLength year month then
    return (padded 4 year ++ '-' :: padded 2 month ++ '-' :: padded 2 day, rest)
  else none

/-- The parts of a second behind the point, to nine digits and without zeros at their end. -/
def fraction? : List Char → Option (List Char × List Char)
  | '.' :: rest =>
    match rest.takeWhile Char.isDigit with
    | [] => none
    | digits =>
      let kept := ((digits.take 9).reverse.dropWhile (fun c => c == '0')).reverse
      some (if kept.isEmpty then [] else '.' :: kept, rest.dropWhile Char.isDigit)
  | s => some ([], s)

def time? (s : List Char) : Option (List Char × List Char) := do
  let (hour, rest) ← fixed? 2 s
  let rest ← expect? ':' rest
  let (minute, rest) ← fixed? 2 rest
  let rest ← expect? ':' rest
  let (second, rest) ← fixed? 2 rest
  let (fraction, rest) ← fraction? rest
  if hour ≤ 23 ∧ minute ≤ 59 ∧ second ≤ 60 then
    return (padded 2 hour ++ ':' :: padded 2 minute ++ ':' :: padded 2 second ++ fraction, rest)
  else none

/-- The distance from universal time. None at all is written with a plus sign. -/
def offset? : List Char → Option (List Char × List Char)
  | [] => some ([], [])
  | sign :: rest =>
    if sign = 'Z' ∨ sign = 'z' then some (['Z'], rest)
    else if sign = '+' ∨ sign = '-' then do
      let (hour, rest) ← fixed? 2 rest
      let rest ← expect? ':' rest
      let (minute, rest) ← fixed? 2 rest
      if hour ≤ 23 ∧ minute ≤ 59 then
        let sign := if hour = 0 ∧ minute = 0 then '+' else sign
        return (sign :: padded 2 hour ++ ':' :: padded 2 minute, rest)
      else none
    else none

/-- What stands between a date and a time. -/
def isDivider (c : Char) : Bool := c == 'T' || c == 't' || c == ' '

/-- The text of a moment that takes up the whole input. -/
def ofChars? (s : List Char) : Option String :=
  let text : Option (List Char × List Char) :=
    match date? s with
    | some (date, []) => some (date, [])
    | some (date, divider :: rest) =>
      if isDivider divider then do
        let (time, rest) ← time? rest
        let (offset, rest) ← offset? rest
        return (date ++ 'T' :: time ++ offset, rest)
      else none
    | none => time? s
  match text with
  | some (written, []) => some (String.ofList written)
  | _ => none

example : ofChars? "1979-05-27 07:32:00.500z".toList = some "1979-05-27T07:32:00.5Z" := by
  decide +kernel
example : ofChars? "1979-05-27t00:00:00-00:00".toList = some "1979-05-27T00:00:00+00:00" := by
  decide +kernel
example : ofChars? "2023-02-29".toList = none := by decide

end BurnerTelemetry.Toml.Moment
