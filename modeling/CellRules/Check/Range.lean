/-
CellRules.Check.Range — numbers between two bounds.
-/
import CellRules.Row.Context
import CellRules.Verdict

namespace CellRules.Check

/-- The cell, unless blank, is a number between the bounds, both included. -/
def inRange (column : String) (min max : Float) (ctx : RowContext) : Verdict :=
  match ctx.filled? column with
  | none => .success
  | some cell =>
    match cell.number? with
    | none => .error (column ++ " must be a number")
    | some x =>
      if min ≤ x && x ≤ max then .success
      else .error (column ++ " must be between " ++ Number.plain min ++ " and " ++ Number.plain max)

end CellRules.Check
