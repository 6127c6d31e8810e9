/-
CellRules.Run.Alone — a run over all rows by itself.

Nothing else runs beside it, so it needs no slots. Its batches still overlap: while one sleeps the
others go on, and time moves when all of them sleep.
-/
import CellRules.Run.Pool
import CellRules.Run.Timeline
import CellRules.RuleSet.AllRows

namespace CellRules

/-- A pool with a clock and a log. -/
structure LonePool (α : Type) where
  pool : Pool α
  now : Nat := 0
  events : List Event := []

/-- The strands of a pool as the tasks of a machine, and `none` as the whole of them. -/
def LonePool.machine (α : Type) : Machine (LonePool α) (Option Nat) where
  step? s task := do
    let (pool, _, events) ← s.pool.step? s.now false (.ofLimit 0) (← task)
    some { s with pool, events := s.events ++ events }
  able s := (s.pool.able s.now false (.ofLimit 0)).map some
  due? s task := task.bind s.pool.due?
  setNow s now := { s with now }
  whole _ := none
  inFront _ := true

/-- Runs a pool to its end. -/
def Pool.runAlone (p : Pool α) : List Event × Except Problem (List α) :=
  let m := LonePool.machine α
  let t := (Timeline.notice m { state := { pool := p } }).runUntil m (some none)
    (·.pool.result?.isSome) Timeline.patience
  (t.state.events, t.state.pool.result?.getD (.error .cancelled))

namespace RuleSet

/-- Judges every cell of every row. -/
def evaluateAll (s : RuleSet) (source : Source) : List Event × Except Problem (List CellReport) :=
  match (s.survey source).events, (s.survey source).answer with
  | events, .error p => (events, .error p)
  | events, .ok v =>
    let (more, answer) := (Pool.start false s.throttle.limit (s.batches v)).runAlone
    (events ++ more, answer.map gather)

/-- The report of judging every cell of every row. -/
def validateAll (s : RuleSet) (source : Source) (timestamp : String) :
    List Event × Except Problem Report :=
  match s.evaluateAll source with
  | (events, .error p) => (events, .error p)
  | (events, .ok cells) =>
    let report := Report.ofCells s.name timestamp source.rowCount cells
    (events ++ [s.doneEvent report], .ok report)

end RuleSet

end CellRules
