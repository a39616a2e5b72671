import BurnerTelemetry.Settings.Path
import BurnerTelemetry.Toml.Value

/-!
Settings in layers. A later layer overrides an earlier one value by value; its tables are merged
into those that are there, and any other value replaces what is there.
-/
namespace BurnerTelemetry.Settings

open Toml (Fields Value)

/-- A table of settings. -/
def tableOf (fields : Fields) : Value := .table .header fields

/-- Gives a field its value; what is no table becomes one. -/
def putField (name : String) (v : Value) (tree : Value) : Value :=
  tableOf (tree.fields.put name v)

mutual

/-- Puts a value under a name of a tree. -/
def merge (name : String) (v : Value) (tree : Value) : Value :=
  match v with
  | .table _ fields =>
    putField (lower name)
      (mergeAll fields ((tree.fields.find? (lower name)).getD (tableOf []))) tree
  | v => putField (lower name) v tree

/-- Puts the fields of a table into a tree. -/
def mergeAll (fields : Fields) (tree : Value) : Value :=
  match fields with
  | [] => tree
  | (name, v) :: rest => mergeAll rest (merge name v tree)

end

def itemsOf : Value → List Value
  | .array _ items => items
  | _ => []

/-- The place in an array of some length that an index names. -/
def placeOf (i : Int) (length : Nat) : Nat := if 0 ≤ i then i.toNat else length - i.natAbs

/-- An array with room for an index, filled up with empty tables. -/
def roomFor (place : Nat) (items : List Value) : List Value :=
  items ++ List.replicate (place + 1 - items.length) (tableOf [])

/-- Puts a value at the end of a path, making the tables and arrays on the way to it. -/
def place (name : String) (steps : List Step) (v : Value) (tree : Value) : Value :=
  match steps with
  | [] => merge name v tree
  | step :: rest =>
    putField name (placeStep step rest v ((tree.fields.find? name).getD (tableOf []))) tree
where
  /-- Puts a value at the end of the steps from `step` on. -/
  placeStep (step : Step) (rest : List Step) (v : Value) (tree : Value) : Value :=
    match step, rest with
    | .name name, [] => merge name v tree
    | .name name, next :: rest =>
      putField name (placeStep next rest v ((tree.fields.find? name).getD (tableOf []))) tree
    | .index i, rest =>
      let items := itemsOf tree
      let slot := placeOf i items.length
      let items := roomFor slot items
      match rest with
      | [] => .array false (items.set slot v)
      | next :: rest =>
        .array false (items.set slot (placeStep next rest v (items[slot]?.getD (tableOf []))))

/-- Adds a layer, whose names are paths, to a tree. -/
def addLayer (tree : Value) (layer : Fields) : Value :=
  layer.foldl (fun tree field =>
    let (name, steps) := pathOf field.1
    place name steps field.2 tree) tree

end BurnerTelemetry.Settings
