/-
CellRules.Grid.Basic — a table of cells.

A grid has named columns and rows of cells. A column is found by its name, the first one if a name
is repeated.
-/
import CellRules.Row.Context

namespace CellRules

/-- A table of cells. Every row has a cell for each column. -/
structure Grid where
  columns : List String
  rows : List (List Cell)
  deriving BEq, Repr

namespace Grid

/-- A grid without rows. -/
def empty (columns : List String) : Grid := ⟨columns, []⟩

/-- The place of a column. -/
def position? (g : Grid) (column : String) : Option Nat := g.columns.findIdx? (· == column)

/-- A row of the given values; columns without one are null, values of unknown columns are
dropped. -/
def rowOf (g : Grid) (values : List (String × Cell)) : List Cell :=
  values.foldl
    (fun cells (column, cell) => match g.position? column with
      | some position => cells.set position cell
      | none => cells)
    (g.columns.map fun _ => .null)

/-- Adds a row at the end. -/
def push (g : Grid) (values : List (String × Cell)) : Grid :=
  { g with rows := g.rows ++ [g.rowOf values] }

/-- Changes one cell. -/
def set (g : Grid) (row : Nat) (column : String) (cell : Cell) : Except Problem Grid :=
  match g.position? column with
  | none => .error (.columnNotFound column row)
  | some position =>
    match g.rows[row]? with
    | none => .error (.rowOutOfRange row g.rows.length)
    | some cells => .ok { g with rows := g.rows.set row (cells.set position cell) }

/-- The cell of a row and a column, if the grid has both. -/
def get? (g : Grid) (row : Nat) (column : String) : Option Cell := do
  let position ← g.position? column
  let cells ← g.rows[row]?
  cells[position]?

def hasColumn (g : Grid) (column : String) : Bool := (g.position? column).isSome

/-- The cells of a row as a context. -/
def contextOf (g : Grid) (row : Nat) (cells : List Cell) : RowContext :=
  .ofValues row (g.columns.zip cells)

end Grid

end CellRules
