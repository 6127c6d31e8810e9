/-
CellRules.Rule.Guard — when a rule applies.

A guard looks at a row and says whether the rule runs; it may break down instead and say how. Two
guards combine from left to right: the second is not asked where the first one settles the matter,
a breakdown included.
-/
import CellRules.Row.Context
import CellRules.Text.Lower
import CellRules.Text.Substitute

namespace CellRules

/-- Whether a rule applies to a row, or how the guard broke down. -/
abbrev Guard := RowContext → Except String Bool

namespace Guard

/-- Both guards hold. -/
def both (first second : Guard) : Guard := fun ctx =>
  match first ctx with
  | .ok true => second ctx
  | settled => settled

/-- One of the guards holds. -/
def either (first second : Guard) : Guard := fun ctx =>
  match first ctx with
  | .ok false => second ctx
  | settled => settled

/-- A text without outer white space and without case. -/
def folded (s : String) : String := Text.lower (Text.trim s)

/-- The column has a certain text, outer white space and case not counted. -/
def equals (column value : String) : Guard := fun ctx =>
  .ok (folded (ctx.textOf column) == folded value)

/-- The column is not blank. -/
def hasValue (column : String) : Guard := fun ctx => .ok (ctx.hasValue column)

/-- The column is blank or absent. -/
def isEmpty (column : String) : Guard := fun ctx => .ok (!ctx.hasValue column)

/-- The text of the column holds a fragment, case not counted. -/
def holds (column fragment : String) : Guard := fun ctx =>
  .ok (Text.contains (Text.lower (ctx.textOf column)) (Text.lower fragment))

end Guard

end CellRules
