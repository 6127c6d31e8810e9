/-
CellRules.Grid.Source — where rules read rows from.

A source answers for single cells, for a row and for all rows. `Source.ofCells` reads rows cell by
cell; `Grid.source` reads them whole.
-/
import CellRules.Grid.Basic

namespace CellRules

/-- Where rules read rows from. -/
structure Source where
  columns : List String
  rowCount : Nat
  cell : Nat → String → Except Problem (Option Cell)
  row : Nat → Except Problem RowContext
  allRows : Except Problem (List RowContext)

namespace Source

/-- Reads a row cell by cell; a cell that is not there is null. -/
def rowOfCells (columns : List String) (rowCount : Nat)
    (cell : Nat → String → Except Problem (Option Cell)) (row : Nat) : Except Problem RowContext :=
  if rowCount ≤ row then .error (.rowOutOfRange row rowCount)
  else columns.foldlM
    (fun ctx column => (cell row column).map fun value => ctx.set column (value.getD .null))
    (.empty row)

/-- A source that knows cells only; rows are read cell by cell. -/
def ofCells (columns : List String) (rowCount : Nat)
    (cell : Nat → String → Except Problem (Option Cell)) : Source where
  columns
  rowCount
  cell
  row := rowOfCells columns rowCount cell
  allRows := (List.range rowCount).mapM (rowOfCells columns rowCount cell)

end Source

namespace Grid

/-- The cell of a row and a column. The row must be there, the column need not. -/
def cell (g : Grid) (row : Nat) (column : String) : Except Problem (Option Cell) :=
  match g.rows[row]? with
  | none => .error (.rowOutOfRange row g.rows.length)
  | some cells => .ok ((g.position? column).bind fun position => cells[position]?)

/-- One row as a context. -/
def row (g : Grid) (row : Nat) : Except Problem RowContext :=
  match g.rows[row]? with
  | none => .error (.rowOutOfRange row g.rows.length)
  | some cells => .ok (g.contextOf row cells)

/-- All rows as contexts. -/
def contexts (g : Grid) : List RowContext :=
  g.rows.zipIdx.map fun (cells, row) => g.contextOf row cells

/-- The grid as a source. -/
def source (g : Grid) : Source where
  columns := g.columns
  rowCount := g.rows.length
  cell := g.cell
  row := g.row
  allRows := .ok g.contexts

end Grid

end CellRules
