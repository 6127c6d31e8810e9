/-
CellRules.Watch.Call — the course of a call.

Whoever tells of an edit waits until evaluations are asked for, or, where nothing is done in the
background, until the cells are judged: the edited column, those whose rules read it, and after
each of them its peers in other rows. Whoever asks for all rows waits for the report; every cell's
verdict is delivered before.
-/
import CellRules.Watch.Basic

namespace CellRules.Watch

/-- The columns of a row to judge after an edit of one: it and those whose rules read it, where
there are rules. -/
def Setup.editTargets (u : Setup) (column : String) : List String :=
  (column :: u.ruleSet.dependents column).filter fun c => !(u.ruleSet.rulesFor c).isEmpty

namespace Call

/-- Moves a call to another stage. -/
def goTo (s : State) (c : Call) (stage : CallStage) : State :=
  { s with calls := s.calls.map fun d => if d.id = c.id then { c with stage } else d }

/-- Begins to judge a cell for one who waits. -/
def begin (u : Setup) (s : State) (c : Call) (edited : String) (job : Job) (todo : List Job) :
    State :=
  let work := u.ruleSet.evaluateCellAmong (s.source u) job.key.row job.key.column
  goTo (s.count fun c => { c with scheduled := c.scheduled + 1 }) c
    (.editing edited todo (some (job, .working work)))

/-- Deals with the answer of judging a cell. One that was cancelled is left out; a problem ends the
call. -/
def settle (u : Setup) (s : State) (c : Call) (edited : String) (job : Job) (todo : List Job) :
    Except Problem Judgement → State
  | .ok (report, rows) =>
    let s := s.deliver u report
    if job.spreads then
      let peers := s.peers u job.key [edited] rows
      let found := peers.map fun key => ({ key, spreads := false } : Job)
      goTo (s.notePeers u job.key [edited] rows) c (.editing edited (found ++ todo) none)
    else goTo s c (.editing edited todo none)
  | .error .cancelled => goTo (s.abandoned u job.key) c (.editing edited todo none)
  | .error problem => goTo (s.failed u job.key problem) c (.edited (.error problem))

/-- The pool that judges all rows. -/
def poolFor (u : Setup) (v : RuleSet.Survey) : Pool (List CellReport) :=
  .start u.ruleSet.throttle.usesBatches u.ruleSet.throttle.limit (u.ruleSet.batches v)

/-- Ends a run over all rows with its report. -/
def conclude (u : Setup) (s : State) (c : Call) (cells : List CellReport) : State :=
  let report := Report.ofCells u.ruleSet.name u.timestamp (s.source u).rowCount cells
  goTo (s.write [u.ruleSet.doneEvent report]) c (.reported (.ok report))

/-- One step of a call; nothing if it has to wait. While all rows are judged, the strands of its
pool take the steps. -/
def step? (u : Setup) (s : State) (c : Call) : Option State :=
  match c.stage with
  | .editing _ [] none => some (goTo s c (.edited (.ok ())))
  | .editing edited (job :: todo) none =>
    some <| if u.ruleSet.throttle.background then
        goTo (s.schedule u job.key [edited]) c (.editing edited todo none)
      else begin u s c edited job todo
  | .editing edited todo (some (job, work)) =>
    (work.step? s.now s.closed).map fun
      | .goesOn events next => goTo (s.write events) c (.editing edited todo (some (job, next)))
      | .ends answer => settle u s c edited job todo answer
  | .called =>
    some <| goTo s c <| if s.closed then .reported (.error .schedulerClosed)
      else .surveying (.working (u.ruleSet.survey (s.source u)))
  | .surveying work =>
    (work.step? s.now s.closed).map fun
      | .goesOn events next => goTo (s.write events) c (.surveying next)
      | .ends (.ok v) => goTo s c (.judging (poolFor u v))
      | .ends (.error problem) => goTo s c (.reported (.error problem))
  | .judging pool =>
    pool.result?.map fun
      | .ok batches =>
        let cells := RuleSet.gather batches
        goTo s c (.delivering cells cells)
      | .error problem => goTo s c (.reported (.error problem))
  | .delivering (cell :: todo) cells => some (goTo (s.deliver u cell) c (.delivering todo cells))
  | .delivering [] cells => some (conclude u s c cells)
  | .edited _ | .reported _ => none

/-- The call can take a step. -/
def canStep (s : State) (c : Call) : Bool :=
  match c.stage with
  | .editing _ _ (some (_, work)) => work.canStep s.now s.closed
  | .surveying work => work.canStep s.now s.closed
  | .judging pool => pool.result?.isSome
  | .edited _ | .reported _ => false
  | _ => true

/-- The time to which the call waits, if it waits for one. -/
def due? (c : Call) : Option Nat :=
  match c.stage with
  | .editing _ _ (some (_, work)) => work.due?
  | .surveying work => work.due?
  | _ => none

/-- The pool of a call that judges all rows. -/
def pool? (c : Call) : Option (Pool (List CellReport)) :=
  match c.stage with
  | .judging pool => some pool
  | _ => none

/-- One step of a strand of the call's pool. -/
def stepStrand? (s : State) (c : Call) (strand : Nat) : Option State :=
  c.pool?.bind fun pool =>
    (pool.step? s.now s.closed s.limiter strand).map fun (pool, limiter, events) =>
      goTo ({ s with limiter }.write events) c (.judging pool)

end Call

end CellRules.Watch
