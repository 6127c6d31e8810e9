/-
CellRules.Check.Required — cells that must not be blank.
-/
import CellRules.Row.Context
import CellRules.Verdict

namespace CellRules.Check

/-- The judged cell is not blank. -/
def required (ctx : RowContext) : Verdict :=
  if ctx.current?.any fun cell => !cell.isBlank then .success
  else
    match ctx.column with
    | some column => .error (column ++ " is required")
    | none => .error "Value is required"

/-- None of the columns is blank. -/
def requiredFields (columns : List String) (ctx : RowContext) : Verdict :=
  let missing := columns.filter fun column => !ctx.hasValue column
  if missing.isEmpty then .success
  else .error ("Required fields missing: " ++ ", ".intercalate missing)

end CellRules.Check
