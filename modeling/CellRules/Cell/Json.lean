/-
CellRules.Cell.Json — cells in data files.

A cell is an object of its kind and its value. Main definitions: `Cell.toJson`, `Cell.ofJson?`.
-/
import CellRules.Cell.Basic
import CellRules.Json.Decode

namespace CellRules.Cell

open Calendar

/-- An object of a kind and a value. -/
def tagged (kind : String) (value : Json) : Json :=
  .object [("type", .string kind), ("value", value)]

def toJson : Cell → Json
  | null => .object [("type", .string "null")]
  | bool b => tagged "bool" (.bool b)
  | int i => tagged "int" (.int i.toInt)
  | float x => tagged "float" (Json.option .number (Number.data? x))
  | text s => tagged "text" (.string s)
  | date d => tagged "date" (.string d.text)
  | moment m => tagged "date_time" (.string m.exactText)

/-- The value of a cell of a kind. Only a cell without a value may have none. -/
def ofTagged? (kind : String) (value : Option Json) : Option Cell :=
  if kind == "null" then
    match value with
    | none | some .null => some null
    | _ => none
  else value.bind fun v =>
    if kind == "bool" then v.bool?.map bool
    else if kind == "int" then v.int64?.map fun i => int (Int64.ofInt i)
    else if kind == "float" then v.float?.map float
    else if kind == "text" then v.string?.map text
    else if kind == "date" then (v.string?.bind Date.ofDataText?).map date
    else if kind == "date_time" then (v.string?.bind Moment.ofDataText?).map moment
    else none

def ofJson? (j : Json) : Option Cell :=
  match j.record? false ["type", "value"] with
  | some [some kind, value] => kind.variant?.bind fun kind => ofTagged? kind value
  | _ => none

end CellRules.Cell
