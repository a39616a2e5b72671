import BurnerTelemetry.Toml.Scalar

/-!
Documents: lines with a key and a value, under headers that open tables and arrays of tables. A
key is given a value once. A table is opened by a header once; the header of a table within it
may come first, and dotted keys may build up a table that no header opens.
-/
namespace BurnerTelemetry.Toml

/-- A key in its parts, the last one apart, with its value. -/
structure Assignment where
  path : List String
  key : String
  value : Value
  deriving Repr

namespace Fields

/-- Changes the last of the tables of an array. -/
def changeLast? (f : Fields → Option Fields) : List Value → Option (List Value)
  | [] => none
  | [last] => (f last.fields).map (fun fields => [.table .header fields])
  | first :: rest => (changeLast? f rest).map (first :: ·)

/-- Gives a value to a dotted key. A table takes values, as `takes` tells, from the header that
opened it, and from dotted keys if a dotted key made it. -/
def assign? (path : List String) (key : String) (v : Value) (takes : Bool) (fields : Fields) :
    Option Fields :=
  match path with
  | [] => if takes then fields.add? key v else none
  | part :: rest =>
    match fields.find? part with
    | none => (assign? rest key v true []).map (fun sub => fields.put part (.table .dotted sub))
    | some (.table .dotted sub) =>
      (assign? rest key v true sub).map (fun sub => fields.put part (.table .dotted sub))
    | some (.table .implied sub) =>
      (assign? rest key v false sub).map (fun sub => fields.put part (.table .implied sub))
    | some (.array true items) =>
      (changeLast? (assign? rest key v false) items).map (fun items =>
        fields.put part (.array true items))
    | some _ => none

/-- Gives its value to the key of an assignment in the table that is open. -/
def assignIn? (fields : Fields) (a : Assignment) : Option Fields :=
  fields.assign? a.path a.key a.value true

/-- Gives their values to the keys of assignments in order. -/
def assignAll? (fields : Fields) (as : List Assignment) : Option Fields :=
  as.foldlM assignIn? fields

/-- Changes the table at the end of a path, which is implied where there is none. -/
def changeAt? (f : Fields → Option Fields) (path : List String) (fields : Fields) :
    Option Fields :=
  match path with
  | [] => f fields
  | part :: rest =>
    match fields.find? part with
    | none => (changeAt? f rest []).map (fun sub => fields.put part (.table .implied sub))
    | some (.table .inline _) => none
    | some (.table origin sub) =>
      (changeAt? f rest sub).map (fun sub => fields.put part (.table origin sub))
    | some (.array true items) =>
      (changeLast? (changeAt? f rest) items).map (fun items =>
        fields.put part (.array true items))
    | some _ => none

end Fields

/-- A header with the assignments below it. -/
structure Section where
  isArray : Bool
  path : List String
  key : String
  assignments : List Assignment
  deriving Repr

namespace Section

/-- Opens the table of a section within the table it belongs to. -/
def openTable? (s : Section) (fields : Fields) : Option Fields :=
  match fields.find? s.key with
  | none => do
    let own ← Fields.assignAll? [] s.assignments
    return fields.put s.key (.table .header own)
  | some (.table .implied sub) => do
    let own ← Fields.assignAll? sub s.assignments
    return fields.put s.key (.table .header own)
  | some _ => none

/-- Adds the table of a section to an array of tables. -/
def openElement? (s : Section) (fields : Fields) : Option Fields := do
  let own ← Fields.assignAll? [] s.assignments
  match fields.find? s.key with
  | none => return fields.put s.key (.array true [.table .header own])
  | some (.array true items) =>
    return fields.put s.key (.array true (items ++ [.table .header own]))
  | some _ => none

/-- Adds a section to a document. -/
def addTo? (fields : Fields) (s : Section) : Option Fields :=
  fields.changeAt? (if s.isArray then s.openElement? else s.openTable?) s.path

end Section

/-- The number of parts a key may have, and the number of brackets that may be open. -/
def nestingLimit : Nat := 79

/-- A key, an equals sign and a value. -/
def assignment (value : Reader Value) (s : List Char) : Option (Assignment × List Char) :=
  match key s with
  | some (parts, '=' :: rest) =>
    match parts.getLast? with
    | some last =>
      if parts.length ≤ nestingLimit then
        (value (skipSpaces rest)).map (fun p => (⟨parts.dropLast, last, p.1⟩, p.2))
      else none
    | none => none
  | _ => none

/-- The items of an array, whose opening bracket has been taken. Lines may end anywhere between
them, and a comma may follow the last. -/
def arrayItems (value : Reader Value) (s : List Char) : Option (List Value × List Char) :=
  match skipFiller false s with
  | ']' :: rest => some ([], rest)
  | front =>
    match value front with
    | none => none
    | some (v, rest) =>
      match skipFiller false rest with
      | ']' :: rest => some ([v], rest)
      | ',' :: rest =>
        if rest.length < s.length then
          (arrayItems value rest).map (fun p => (v :: p.1, p.2))
        else none
      | _ => none
  termination_by s.length

/-- The assignments of an inline table from the first one on. -/
def inlineAssignments (value : Reader Value) (s : List Char) :
    Option (List Assignment × List Char) :=
  match assignment value s with
  | none => none
  | some (a, rest) =>
    match skipSpaces rest with
    | '\x7d' :: rest => some ([a], rest)
    | ',' :: rest =>
      if rest.length < s.length then
        (inlineAssignments value rest).map (fun p => (a :: p.1, p.2))
      else none
    | _ => none
  termination_by s.length

/-- The fields of an inline table, whose opening brace has been taken. It stands on one line, and
no comma follows the last field. -/
def inlineFields (value : Reader Value) (s : List Char) : Option (Fields × List Char) :=
  match skipSpaces s with
  | '\x7d' :: rest => some ([], rest)
  | _ => do
    let (assignments, rest) ← inlineAssignments value s
    let fields ← Fields.assignAll? [] assignments
    return (fields, rest)

/-- A value within which so many more brackets may be open. -/
def value : Nat → Reader Value
  | 0, s => scalarOrText s
  | depth + 1, s =>
    match s with
    | '[' :: rest => (arrayItems (value depth) rest).map (fun p => (.array false p.1, p.2))
    | '\x7b' :: rest => (inlineFields (value depth) rest).map (fun p => (.table .inline p.1, p.2))
    | s => scalarOrText s
where
  /-- A value without brackets. -/
  scalarOrText (s : List Char) : Option (Value × List Char) :=
    match s with
    | '"' :: _ | '\'' :: _ => (quoted s).map (fun p => (.text p.1, p.2))
    | _ => scalar s

/-- The key of a header, and what follows the closing brackets. -/
def header (isArray : Bool) (s : List Char) : Option (Section × List Char) :=
  match key s with
  | none => none
  | some (parts, rest) =>
    let closed := match isArray, rest with
      | true, ']' :: ']' :: rest => some rest
      | false, ']' :: rest => some rest
      | _, _ => none
    match closed, parts.getLast? with
    | some rest, some last =>
      if parts.length ≤ nestingLimit then some (⟨isArray, parts.dropLast, last, []⟩, rest)
      else none
    | _, _ => none

/-- A line that is not empty: a header or an assignment. -/
def statement (s : List Char) : Option ((Section ⊕ Assignment) × List Char) :=
  match s with
  | '[' :: '[' :: rest => (header true rest).map (fun p => (.inl p.1, p.2))
  | '[' :: rest => (header false rest).map (fun p => (.inl p.1, p.2))
  | s => (assignment (value nestingLimit) s).map (fun p => (.inr p.1, p.2))

/-- Puts a statement in front of those that follow it: the assignments above the first header, and
the sections. -/
def prepend : Section ⊕ Assignment → List Assignment × List Section →
    List Assignment × List Section
  | .inl s, (above, sections) => ([], { s with assignments := above } :: sections)
  | .inr a, (above, sections) => (a :: above, sections)

/-- The statements of a document, one a line. -/
def statements (s : List Char) : Option (List Assignment × List Section) :=
  match skipFiller false s with
  | [] => some ([], [])
  | front =>
    match statement front with
    | none => none
    | some (first, rest) =>
      match endLine? rest with
      | none => none
      | some rest =>
        if rest.length < s.length then (statements rest).map (prepend first) else none
  termination_by s.length

/-- The table that a document describes. A byte order mark may stand at its front. -/
def document? (text : String) : Option Fields := do
  let s := match text.toList with
    | '\ufeff' :: rest => rest
    | s => s
  let (above, sections) ← statements s
  let top ← Fields.assignAll? [] above
  sections.foldlM Section.addTo? top

end BurnerTelemetry.Toml
