import BurnerTelemetry.Text.Numeral

/-!
Paths into a tree of settings, such as `report.targets[0].port`. Names count in lower case, so
the case in which one is written does not matter.
-/
namespace BurnerTelemetry.Settings

/-- The lower case of a character, as far as it is an ASCII letter. The Kelvin sign has one. -/
def lowerChar (c : Char) : Char := if c = '\u212a' then 'k' else c.toLower

def lower (s : String) : String := String.ofList (s.toList.map lowerChar)

inductive Step where
  | name (s : String)
  /-- A place in an array; a negative one counts from its end. -/
  | index (i : Int)
  deriving DecidableEq, Repr

/-- A character of a name. -/
def isNameChar (c : Char) : Bool := c.isAlphanum || c == ' ' || c == '_' || c == '-'

/-- A name at the front of a text. -/
def takeName? (s : List Char) : Option (String × List Char) :=
  match s.takeWhile isNameChar with
  | [] => none
  | name => some (lower (String.ofList name), s.dropWhile isNameChar)

def skipSpaces (s : List Char) : List Char := s.dropWhile (fun c => c == ' ' || c == '\t')

/-- The whole number of 64 bits between spaces. It carries no plus sign. -/
def index? (s : List Char) : Option Int :=
  match (skipSpaces (skipSpaces s).reverse).reverse with
  | '+' :: _ => none
  | digits => Text.Numeral.integerWithin? (UInt64.size / 2) digits

/-- A place in brackets, whose opening bracket has been taken. -/
def takeIndex? (s : List Char) : Option (Int × List Char) :=
  match s.dropWhile (fun c => c != ']') with
  | _ :: rest => (index? (s.takeWhile (fun c => c != ']'))).map (fun i => (i, rest))
  | [] => none

/-- The steps behind the first name. -/
def steps? (s : List Char) : Option (List Step) :=
  match s with
  | [] => some []
  | '.' :: more =>
    match takeName? more with
    | some (name, rest) =>
      if rest.length ≤ more.length then (steps? rest).map (Step.name name :: ·) else none
    | none => none
  | '[' :: more =>
    match takeIndex? more with
    | some (i, rest) =>
      if rest.length ≤ more.length then (steps? rest).map (Step.index i :: ·) else none
    | none => none
  | _ => none
  termination_by s.length
  decreasing_by
    all_goals simp only [List.length_cons]; omega

/-- The first name of a path and the steps behind it. A text that is no path is a name as a
whole. -/
def pathOf (s : String) : String × List Step :=
  let path : Option (String × List Step) := do
    let (name, rest) ← takeName? s.toList
    let steps ← steps? rest
    return (name, steps)
  path.getD (lower s, [])

example : pathOf "Report.targets[0].port" =
    ("report", [.name "targets", .index 0, .name "port"]) := by decide +kernel
example : pathOf "serial[ -1\t]" = ("serial", [.index (-1)]) := by decide +kernel
example : pathOf "a[9223372036854775808]" = ("a[9223372036854775808]", []) := by decide +kernel
example : pathOf "report." = ("report.", []) := by decide +kernel

end BurnerTelemetry.Settings
