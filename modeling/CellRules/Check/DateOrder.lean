/-
CellRules.Check.DateOrder — two dates of a row in order.
-/
import CellRules.Row.Context
import CellRules.Verdict

namespace CellRules.Check

/-- Where both columns hold a moment, the first one does not come after the second. -/
def startBeforeEnd (start finish : String) (ctx : RowContext) : Verdict :=
  match (ctx.get? start).bind Cell.moment?, (ctx.get? finish).bind Cell.moment? with
  | some a, some b =>
    if a.notAfter b then .success else .error (start ++ " must be on or before " ++ finish)
  | _, _ => .success

end CellRules.Check
