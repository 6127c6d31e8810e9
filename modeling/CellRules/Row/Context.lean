/-
CellRules.Row.Context — one row as a rule sees it.

A context holds the row's index and the values of its columns in order, and names the column whose
cell is being judged. Setting a column again replaces its value and keeps its place.
-/
import CellRules.Cell.Basic
import CellRules.Problem

namespace CellRules

/-- One row as a rule sees it. `pending` is the value just typed into the judged column, if it was
given with the column. -/
structure RowContext where
  row : Nat
  values : List (String × Cell)
  column : Option String
  pending : Option Cell
  deriving BEq, Repr

namespace RowContext

/-- A row without columns. -/
def empty (row : Nat) : RowContext := ⟨row, [], none, none⟩

/-- The pairs with the value of a column set: in place if the column is there, else at the end. -/
def setIn (column : String) (cell : Cell) : List (String × Cell) → List (String × Cell)
  | [] => [(column, cell)]
  | (name, old) :: rest =>
    if name = column then (name, cell) :: rest else (name, old) :: setIn column cell rest

/-- Sets the value of a column. -/
def set (ctx : RowContext) (column : String) (cell : Cell) : RowContext :=
  { ctx with values := setIn column cell ctx.values }

/-- The row with these values, set in order. -/
def ofValues (row : Nat) (values : List (String × Cell)) : RowContext :=
  values.foldl (fun ctx (column, cell) => ctx.set column cell) (empty row)

/-- Makes a column the judged one, with the value just typed into it. -/
def withPending (ctx : RowContext) (column : String) (cell : Cell) : RowContext :=
  { ctx.set column cell with column := some column, pending := some cell }

/-- The value of a column, if the row has it. -/
def get? (ctx : RowContext) (column : String) : Option Cell :=
  (ctx.values.find? (·.1 == column)).map (·.2)

/-- Makes a column the judged one. The row must have it. -/
def focus (ctx : RowContext) (column : String) : Except Problem RowContext :=
  if (ctx.get? column).isSome then .ok { ctx with column := some column, pending := none }
  else .error (.columnNotFound column ctx.row)

/-- The text of a column, empty for a column the row does not have. -/
def textOf (ctx : RowContext) (column : String) : String :=
  ((ctx.get? column).map Cell.toText).getD ""

/-- The row has the column and its cell is not blank. -/
def hasValue (ctx : RowContext) (column : String) : Bool :=
  (ctx.get? column).any fun cell => !cell.isBlank

/-- The value of a column unless it is blank. -/
def filled? (ctx : RowContext) (column : String) : Option Cell :=
  (ctx.get? column).filter fun cell => !cell.isBlank

/-- The value being judged: the one just typed, else the one the judged column holds. -/
def current? (ctx : RowContext) : Option Cell :=
  ctx.pending.or (ctx.column.bind ctx.get?)

/-- The names of the columns in order. -/
def columns (ctx : RowContext) : List String := ctx.values.map (·.1)

end RowContext

end CellRules
