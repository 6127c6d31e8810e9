/-
CellRules.Row.Json — row contexts in data files.

The members stand in the order index, values, judged column, value just typed. Reading takes the
values as they are: it does not look for repeated columns.
-/
import CellRules.Cell.Json
import CellRules.Row.Context

namespace CellRules.RowContext

/-- A column and its value, as an array of two. -/
def valueToJson (value : String × Cell) : Json := .array [.string value.1, value.2.toJson]

def valueOfJson? : Json → Option (String × Cell)
  | .array [column, cell] => do some (← column.string?, ← Cell.ofJson? cell)
  | _ => none

def toJson (ctx : RowContext) : Json :=
  .object
    [("row_index", .nat ctx.row),
     ("values", .array (ctx.values.map valueToJson)),
     ("current_column", Json.option .string ctx.column),
     ("pending_value", Json.option Cell.toJson ctx.pending)]

def ofJson? (j : Json) : Option RowContext :=
  match j.record? false ["row_index", "values", "current_column", "pending_value"] with
  | some [row, values, column, pending] => do
    some
      { row := ← row.bind Json.nat64?
        values := ← values.bind (Json.list? valueOfJson?)
        column := ← (column.getD .null).optional? Json.string?
        pending := ← (pending.getD .null).optional? Cell.ofJson? }
  | _ => none

end CellRules.RowContext
