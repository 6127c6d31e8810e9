/-
CellRules.Check.Unique — a text that no other row has.

Texts are compared trimmed and with their case; blank cells are never duplicates. Rows with the text
are looked up in the index of the column.
-/
import CellRules.Row.Dataset
import CellRules.Verdict

namespace CellRules.Check

/-- What is said of a text that other rows have too, if there are any. -/
def uniqueAmong (column text : String) (others : List Nat) : Verdict :=
  if others.isEmpty then .success
  else .error (column ++ " '" ++ Text.trim text ++ "' must be unique (also in row " ++
    ", ".intercalate (others.map toString) ++ ")")

/-- No other row has the cell's text in the column. The index of the column is only asked for if the
cell is not blank. -/
def uniqueIn (column : String) (ctx : RowContext) (rows : IndexedRows) : Verdict × IndexedRows :=
  match ctx.filled? column with
  | none => (.success, rows)
  | some cell =>
    let (index, rows) := rows.index column
    (uniqueAmong column cell.toText ((index.rowsWith cell.toText).filter (· != ctx.row)), rows)

/-- No other row of the dataset has the cell's text in the column. -/
def unique (column : String) (ctx : RowContext) (rows : Dataset) : Verdict :=
  (uniqueIn column ctx rows.unasked).1

/-- The check of a cell that is not blank, by the index of the column. -/
theorem unique_filled {column : String} {ctx : RowContext} {rows : Dataset} {cell : Cell}
    (h : ctx.filled? column = some cell) :
    unique column ctx rows = uniqueAmong column cell.toText
      (((rows.index column).rowsWith cell.toText).filter (· != ctx.row)) := by
  simp only [unique, uniqueIn, h]
  rfl

theorem unique_blank {column : String} {ctx : RowContext} {rows : Dataset}
    (h : ctx.filled? column = none) : unique column ctx rows = .success := by
  simp only [unique, uniqueIn, h]

end CellRules.Check
