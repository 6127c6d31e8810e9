/-
CellRules.RuleSet.AllRows — judging every cell of every row.

A run over all rows looks at the rows once, at its beginning, and judges each row's cells of the
target columns that are there. It may do so in batches; `gather` puts the reports of the batches
into the order of the rows, whatever the order in which the batches ended.
-/
import CellRules.Report.Basic
import CellRules.RuleSet.Evaluation

namespace CellRules.RuleSet

/-- What a run over all rows goes by: its columns, and the rows as they were at its beginning. -/
structure Survey where
  columns : List String
  rows : Dataset

/-- Writes events in order. -/
def writeAll : List Event → Work Unit
  | [] => pure ()
  | event :: events => .log event (writeAll events)

/-- Looks at the columns and the rows. -/
def survey (s : RuleSet) (source : Source) : Work Survey := do
  let known := fun column => source.columns.contains column
  writeAll ((s.targets.filter fun column => !known column).map (.columnSkipped s.name))
  let columns := s.targets.filter known
  let rows ← Work.ofExcept source.allRows
  Work.write (.allRowsStarted s.name rows.length columns.length s.throttle.usesBatches)
  pure ⟨columns, ⟨rows⟩⟩

/-- Judges cells, each a row and a column of it, one after the other. -/
def judgeCells (s : RuleSet) (rows : Dataset) : List (RowContext × String) → Work (List CellReport)
  | [] => pure []
  | (ctx, column) :: cells => do
    let focused ← Work.ofExcept (ctx.focus column)
    let report ← s.judge (s.rulesFor column) focused rows
    let reports ← s.judgeCells rows cells
    pure (report :: reports)

/-- The cells of some rows, row by row. -/
def cellsOf (columns : List String) (rows : List RowContext) : List (RowContext × String) :=
  rows.flatMap fun ctx => columns.map (ctx, ·)

/-- Judges the cells of some of the rows. -/
def judgeRows (s : RuleSet) (v : Survey) (batch : List RowContext) : Work (List CellReport) :=
  s.judgeCells v.rows (cellsOf v.columns batch)

/-- Cuts a list into pieces of a size, at least one, the last piece being what is left. -/
def chunks (size : Nat) : List α → List (List α)
  | [] => []
  | a :: as => (a :: as.take (size - 1)) :: chunks size (as.drop (size - 1))
  termination_by as => as.length

/-- The batches of a run: one of all rows, or as many as the batch size asks for. -/
def batches (s : RuleSet) (v : Survey) : List (Work (List CellReport)) :=
  if s.throttle.usesBatches then
    (chunks s.throttle.batchSize v.rows.rows).map (s.judgeRows v)
  else [s.judgeRows v v.rows.rows]

/-- The row of the first report of a batch. -/
def firstRow? (batch : List CellReport) : Option Nat := batch.head?.map (·.row)

/-- The order of batches by their first row, batches without one first. -/
def batchLE (a b : List CellReport) : Bool :=
  match firstRow? a, firstRow? b with
  | none, _ => true
  | some _, none => false
  | some i, some j => i ≤ j

/-- The reports of the batches in the order of the rows. -/
def gather (batches : List (List CellReport)) : List CellReport :=
  (batches.mergeSort batchLE).flatten

/-- The event at the end of a run. -/
def doneEvent (s : RuleSet) (r : Report) : Event :=
  .allRowsDone s.name r.metrics.cells r.metrics.invalidCells r.metrics.faults

end CellRules.RuleSet
