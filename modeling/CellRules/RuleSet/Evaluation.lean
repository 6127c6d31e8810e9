/-
CellRules.RuleSet.Evaluation — judging one cell by its rules.

The rules of the column run in order of priority on one view of the row and of the rows. In the mode
that stops, the first error leaves out the rules after it. Other rows are read only if some rule
looks at them.
-/
import CellRules.RuleSet.Basic

namespace CellRules.RuleSet

/-- The mode leaves out the rules after this outcome. -/
def stopsAt (s : RuleSet) (o : Outcome) : Bool :=
  s.mode == .stopOnFirstError && o.verdict.isError

/-- Runs rules in order: their outcomes, and whether some were left out. -/
def runRules (s : RuleSet) (ctx : RowContext) (rows : Dataset) :
    List Rule → Work (List Outcome × Bool)
  | [] => pure ([], false)
  | r :: rest => do
    let outcome ← r.evaluate ctx rows
    if s.stopsAt outcome then
      if rest.isEmpty then pure ([outcome], false)
      else do
        Work.write
          (.stoppedAtError s.name r.name ctx.row (ctx.column.getD "") rest.length)
        pure ([outcome], true)
    else do
      let (outcomes, halted) ← s.runRules ctx rows rest
      pure (outcome :: outcomes, halted)

/-- Judges a row's cell in the column it is focused on by some rules. -/
def judge (s : RuleSet) (rules : List Rule) (ctx : RowContext) (rows : Dataset) :
    Work CellReport := do
  let (outcomes, halted) ← s.runRules ctx rows rules
  pure (.ofOutcomes ctx.row (ctx.column.getD "") outcomes halted)

/-- Judges the cell that a context is focused on. -/
def evaluateContext (s : RuleSet) (ctx : RowContext) (rows : Dataset) : Work CellReport :=
  match ctx.column with
  | none => .done (.error (.configuration "context has no current column"))
  | some column => s.judge (s.rulesFor column) ctx rows

/-- What judging a cell reads: the row focused on the column, and the rows if some rule looks at
them. -/
def readCell (rules : List Rule) (source : Source) (row : Nat) (column : String) :
    Except Problem (RowContext × Dataset) := do
  let ctx ← (← source.row row).focus column
  if rules.any (·.needsRows) then
    pure (ctx, ⟨← source.allRows⟩)
  else pure (ctx, .empty)

/-- Judges a cell and gives the rows it was judged among. A column without rules is not read. -/
def evaluateCellAmong (s : RuleSet) (source : Source) (row : Nat) (column : String) :
    Work (CellReport × Dataset) :=
  let rules := s.rulesFor column
  if rules.isEmpty then pure (.ofOutcomes row column [] false, .empty)
  else do
    let (ctx, rows) ← Work.ofExcept (readCell rules source row column)
    let report ← s.judge rules ctx rows
    pure (report, rows)

/-- Judges a cell. -/
def evaluateCell (s : RuleSet) (source : Source) (row : Nat) (column : String) :
    Work CellReport := do
  let (report, _) ← s.evaluateCellAmong source row column
  pure report

end CellRules.RuleSet
