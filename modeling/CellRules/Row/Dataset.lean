/-
CellRules.Row.Dataset — all rows at one moment, as cross-row checks see them.

A dataset is a list of rows, each with its own index; the indices need not be the places in the
list. A column index finds rows by the trimmed text of a column, blank cells left out; it is built
when it is first asked for and kept. Main statement: what was kept before makes no difference to the
index (`IndexedRows.index_fst`).
-/
import CellRules.Ascending
import CellRules.Row.Context

namespace CellRules

/-- All rows at one moment. -/
structure Dataset where
  rows : List RowContext
  deriving BEq, Repr

namespace Dataset

/-- No rows. -/
def empty : Dataset := ⟨[]⟩

/-- The row with an index: the one at that place if it has the index, else the first that has. -/
def row? (d : Dataset) (row : Nat) : Option RowContext :=
  match d.rows[row]? with
  | some ctx => if ctx.row = row then some ctx else d.rows.find? (·.row == row)
  | none => d.rows.find? (·.row == row)

/-- The rows with another index. -/
def others (d : Dataset) (row : Nat) : List RowContext := d.rows.filter (·.row != row)

end Dataset

/-- The trimmed text of a column, unless its cell is blank. -/
def RowContext.key? (ctx : RowContext) (column : String) : Option String :=
  (ctx.filled? column).map fun cell => Text.trim cell.toText

/-- The texts of a column, each with the indices of its rows in the order of the rows. -/
structure ColumnIndex where
  groups : List (String × List Nat) := []

namespace ColumnIndex

/-- The groups with a row entered under a text: behind the rows of that text if there are any, else
as a new group. -/
def enterIn (text : String) (row : Nat) : List (String × List Nat) → List (String × List Nat)
  | [] => [(text, [row])]
  | (key, rows) :: rest =>
    if key = text then (key, rows ++ [row]) :: rest else (key, rows) :: enterIn text row rest

/-- Enters a row under the text of its cell, unless the cell is blank. -/
def enter (column : String) (index : ColumnIndex) (ctx : RowContext) : ColumnIndex :=
  match ctx.key? column with
  | some text => ⟨enterIn text ctx.row index.groups⟩
  | none => index

/-- The index of the rows of a dataset. -/
def build (d : Dataset) (column : String) : ColumnIndex := d.rows.foldl (enter column) {}

/-- The rows whose text is the trimmed `text`. -/
def rowsWith (index : ColumnIndex) (text : String) : List Nat :=
  ((index.groups.find? (·.1 == Text.trim text)).map (·.2)).getD []

/-- The number of different texts. -/
def distinct (index : ColumnIndex) : Nat := index.groups.length

end ColumnIndex

/-- A dataset that keeps the indices of the columns it was asked for. -/
structure IndexedRows where
  rows : Dataset
  built : List (String × ColumnIndex) := []
  built_eq : ∀ entry ∈ built, entry.2 = ColumnIndex.build rows entry.1 := by
    exact nofun

/-- The index of a column: the one that was kept, or one that is built now and kept. -/
def IndexedRows.index (s : IndexedRows) (column : String) : ColumnIndex × IndexedRows :=
  match s.built.find? (·.1 == column) with
  | some entry => (entry.2, s)
  | none =>
    let index := ColumnIndex.build s.rows column
    (index,
      { s with
        built := s.built ++ [(column, index)]
        built_eq := fun entry hentry => by
          rcases List.mem_append.mp hentry with hkept | hnew
          · exact s.built_eq entry hkept
          · rw [List.mem_singleton.mp hnew] })

/-- The index of a column does not depend on the indices that were kept. -/
theorem IndexedRows.index_fst (s : IndexedRows) (column : String) :
    (s.index column).1 = ColumnIndex.build s.rows column := by
  unfold index
  split
  · rename_i entry hfound
    have hcolumn : entry.1 = column := by simpa using List.find?_some hfound
    rw [← hcolumn]
    exact s.built_eq entry (List.mem_of_find?_eq_some hfound)
  · rfl

/-- Asking for an index leaves the rows as they are. -/
theorem IndexedRows.rows_index (s : IndexedRows) (column : String) :
    (s.index column).2.rows = s.rows := by
  unfold index
  split <;> rfl

/-- The dataset before it was asked for an index. -/
def Dataset.unasked (d : Dataset) : IndexedRows := { rows := d }

@[simp] theorem Dataset.rows_unasked (d : Dataset) : d.unasked.rows = d := rfl

/-- The rows of a column by their texts. -/
def Dataset.index (d : Dataset) (column : String) : ColumnIndex := (d.unasked.index column).1

end CellRules
