import BurnerTelemetry.Text.Numeral

/-!
The pieces of a document below its values: blanks, ends of lines, comments, quoted text and keys.
A reader takes them off the front of the text and answers the rest.
-/
namespace BurnerTelemetry.Toml

/-- Takes a value off the front of a text. -/
abbrev Reader (α : Type) := List Char → Option (α × List Char)

def isSpace (c : Char) : Bool := c == ' ' || c == '\t'

/-- A character that may stand in a comment or a quoted text of one line. -/
def isPlain (c : Char) : Bool := c == '\t' || (decide (0x20 ≤ c.toNat) && c.toNat != 0x7F)

def skipSpaces (s : List Char) : List Char := s.dropWhile isSpace

/-- What follows the end of a line, if one stands at the front. -/
def lineEnd? : List Char → Option (List Char)
  | '\n' :: rest => some rest
  | '\r' :: '\n' :: rest => some rest
  | _ => none

/-- Skips a comment up to the end of its line. -/
def skipComment : List Char → List Char
  | '#' :: rest => rest.dropWhile isPlain
  | s => s

/-- What follows the rest of a line in which nothing but blanks and a comment may stand. -/
def endLine? (s : List Char) : Option (List Char) :=
  match skipComment (skipSpaces s) with
  | [] => some []
  | rest => lineEnd? rest

/-- Skips blanks, ends of lines and comments; `inComment` if the text starts within one. -/
def skipFiller (inComment : Bool) : List Char → List Char
  | '\r' :: '\n' :: rest => skipFiller false rest
  | c :: rest =>
    if c = '\n' then skipFiller false rest
    else if inComment then if isPlain c then skipFiller true rest else c :: rest
    else if c = '#' then skipFiller true rest
    else if isSpace c then skipFiller false rest
    else c :: rest
  | [] => []

/-- Skips blanks and ends of lines. -/
def skipBlankLines : List Char → List Char
  | '\r' :: '\n' :: rest => skipBlankLines rest
  | c :: rest => if c = '\n' ∨ isSpace c = true then skipBlankLines rest else c :: rest
  | [] => []

theorem length_skipBlankLines (s : List Char) : (skipBlankLines s).length ≤ s.length := by
  fun_induction skipBlankLines s <;> simp_all <;> omega

def hexValue? (c : Char) : Option Nat :=
  if '0' ≤ c ∧ c ≤ '9' then some (c.toNat - 48)
  else if 'a' ≤ c ∧ c ≤ 'f' then some (c.toNat - 87)
  else if 'A' ≤ c ∧ c ≤ 'F' then some (c.toNat - 55)
  else none

/-- The character of a code point in `count` hexadecimal digits. -/
def codePoint? (count : Nat) (s : List Char) : Option Char := do
  let digits ← (s.take count).mapM hexValue?
  let n := digits.foldl (fun n d => 16 * n + d) 0
  if digits.length = count ∧ n.isValidChar then return Char.ofNat n else none

/-- The character that a letter behind a backslash stands for. -/
def escapeLetter? : Char → Option Char
  | 'b' => some '\x08'
  | 't' => some '\t'
  | 'n' => some '\n'
  | 'f' => some '\x0c'
  | 'r' => some '\r'
  | '"' => some '"'
  | '\\' => some '\\'
  | _ => none

/-- The character of an escape, whose backslash has been taken, and the number of characters it
is written with. -/
def escape? : List Char → Option (Char × Nat)
  | 'u' :: rest => (codePoint? 4 rest).map (fun c => (c, 5))
  | 'U' :: rest => (codePoint? 8 rest).map (fun c => (c, 9))
  | c :: _ => (escapeLetter? c).map (fun c => (c, 1))
  | [] => none

/-- Puts a character in front of a text that was read. -/
def push (c : Char) (p : List Char × List Char) : List Char × List Char := (c :: p.1, p.2)

/-- The text in double quotes, whose opening quote has been taken. -/
def basicBody : Reader (List Char)
  | [] => none
  | '"' :: rest => some ([], rest)
  | '\\' :: rest =>
    match escape? rest with
    | some (c, size) => (basicBody (rest.drop size)).map (push c)
    | none => none
  | c :: rest => if isPlain c then (basicBody rest).map (push c) else none
  termination_by s => s.length
  decreasing_by
    all_goals simp only [List.length_cons, List.length_drop]; omega

/-- The text in single quotes, which has no escapes. -/
def literalBody : Reader (List Char)
  | [] => none
  | '\'' :: rest => some ([], rest)
  | c :: rest => if isPlain c then (literalBody rest).map (push c) else none

/-- The rest behind a closing row of three quotes. Up to two more belong to the text. -/
def closing (quote : Char) : List Char → List Char × List Char
  | a :: b :: rest =>
    if a = quote then if b = quote then ([quote, quote], rest) else ([quote], b :: rest)
    else ([], a :: b :: rest)
  | [a] => if a = quote then ([quote], []) else ([], [a])
  | [] => ([], [])

/-- The text between rows of three double quotes. A backslash at the end of a line joins it to
the next text below. -/
def basicLines : Reader (List Char)
  | [] => none
  | '"' :: '"' :: '"' :: rest => some (closing '"' rest)
  | '\\' :: rest =>
    match lineEnd? (skipSpaces rest) with
    | some _ => basicLines (skipBlankLines rest)
    | none =>
      match escape? rest with
      | some (c, size) => (basicLines (rest.drop size)).map (push c)
      | none => none
  | '\r' :: '\n' :: rest => (basicLines rest).map (push '\n')
  | c :: rest => if c = '\n' ∨ isPlain c = true then (basicLines rest).map (push c) else none
  termination_by s => s.length
  decreasing_by
    · have := length_skipBlankLines rest
      simp only [List.length_cons]; omega
    · simp only [List.length_cons, List.length_drop]; omega
    · simp only [List.length_cons]; omega
    · simp only [List.length_cons]; omega

/-- The text between rows of three single quotes. -/
def literalLines : Reader (List Char)
  | [] => none
  | '\'' :: '\'' :: '\'' :: rest => some (closing '\'' rest)
  | '\r' :: '\n' :: rest => (literalLines rest).map (push '\n')
  | c :: rest => if c = '\n' ∨ isPlain c = true then (literalLines rest).map (push c) else none

/-- A line end directly behind the opening quotes is no part of the text. -/
def skipFirstLineEnd (s : List Char) : List Char := (lineEnd? s).getD s

def asString (p : List Char × List Char) : String × List Char := (String.ofList p.1, p.2)

/-- A text in any of the four kinds of quotes. -/
def quoted : Reader String
  | '"' :: '"' :: '"' :: rest => (basicLines (skipFirstLineEnd rest)).map asString
  | '\'' :: '\'' :: '\'' :: rest => (literalLines (skipFirstLineEnd rest)).map asString
  | '"' :: rest => (basicBody rest).map asString
  | '\'' :: rest => (literalBody rest).map asString
  | _ => none

/-- A character of a key without quotes. -/
def isBare (c : Char) : Bool := c.isAlphanum || c == '_' || c == '-'

/-- One part of a key. -/
def keyPart : Reader String
  | '"' :: rest => (basicBody rest).map asString
  | '\'' :: rest => (literalBody rest).map asString
  | s =>
    match s.takeWhile isBare with
    | [] => none
    | part => some (String.ofList part, s.dropWhile isBare)

/-- The parts of a key between dots, and what follows the blanks behind it. -/
def key (s : List Char) : Option (List String × List Char) :=
  match keyPart (skipSpaces s) with
  | none => none
  | some (part, rest) =>
    match skipSpaces rest with
    | '.' :: more =>
      if more.length < s.length then (key more).map (fun p => (part :: p.1, p.2)) else none
    | rest => some ([part], rest)
  termination_by s.length

end BurnerTelemetry.Toml
