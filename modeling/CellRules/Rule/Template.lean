/-
CellRules.Rule.Template — messages with places to fill in.

A template may name the rule, the judged column, the judged value and the row. The places are filled
in one after the other, so what was put in earlier is searched for the later ones.
-/
import CellRules.Row.Context
import CellRules.Text.Substitute

namespace CellRules

/-- A message with places to fill in, and the rule whose message it is. -/
structure Template where
  rule : String
  text : String
  deriving DecidableEq, Repr

namespace Template

/-- What the places are filled with, in the order they are filled. -/
def substitutions (t : Template) (ctx : RowContext) : List (String × String) :=
  [("{rule}", t.rule),
   ("{column}", ctx.column.getD ""),
   ("{value}", (ctx.current?.map Cell.toText).getD ""),
   ("{row}", toString ctx.row)]

/-- The message for a row. -/
def render (t : Template) (ctx : RowContext) : String :=
  (t.substitutions ctx).foldl (fun text (mark, value) => Text.substitute mark value text) t.text

end Template

end CellRules
