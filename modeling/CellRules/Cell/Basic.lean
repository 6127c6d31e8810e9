/-
CellRules.Cell.Basic — the value of a cell.

Cells of one column need not be of one kind: a number may be held as a number or as text. Rules
therefore look at a cell through its text, its number and its moment.
-/
import CellRules.Calendar.Notation
import CellRules.Number.Written

namespace CellRules

open Calendar

/-- The value of a cell. -/
inductive Cell where
  | null
  | bool (b : Bool)
  | int (i : Int64)
  | float (x : Float)
  | text (s : String)
  | date (d : Date)
  | moment (m : Moment)
  deriving BEq, Repr, Inhabited

namespace Cell

def isNull : Cell → Bool
  | null => true
  | _ => false

/-- No value, or a text of white space. -/
def isBlank : Cell → Bool
  | null => true
  | text s => Text.isBlank s
  | _ => false

/-- The value as text; no value is the empty text, a moment loses its fraction. -/
def toText : Cell → String
  | null => ""
  | bool b => if b then "true" else "false"
  | int i => toString i.toInt
  | float x => Number.plain x
  | text s => s
  | date d => d.text
  | moment m => m.text

/-- The value as a number, if it is one or is the text of one. -/
def number? : Cell → Option Float
  | int i => some (Number.ofInt i.toInt)
  | float x => some x
  | text s => Number.ofNumeral? (Text.trim s)
  | _ => none

/-- The value as a moment, if it is a day, a moment, or the text of one. -/
def moment? : Cell → Option Moment
  | date d => some d.midnight
  | moment m => some m
  | text s => Moment.ofText? s
  | _ => none

end Cell

end CellRules
