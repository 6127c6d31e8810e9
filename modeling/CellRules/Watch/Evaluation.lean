/-
CellRules.Watch.Evaluation — the course of one evaluation.

An evaluation sets its alarm, waits for its cell to rest, takes a slot, reads the grid and judges
the cell. Then it gives the slot back, delivers its report unless a newer one of the cell was
delivered or it was cancelled, asks for evaluations of the cells concerned in other rows, and
finishes.
-/
import CellRules.Watch.Basic

namespace CellRules.Watch.Evaluation

/-- The evaluation was told to stop, or the watch is closed. -/
def stopped (s : State) (e : Evaluation) : Bool := e.cancelled || s.closed

/-- Finishes an evaluation that got no slot. -/
def giveUp (u : Setup) (s : State) (e : Evaluation) : State :=
  ((s.dropEvaluation e).finish e.key e.generation).abandoned u e.key

/-- The cell has rested: the evaluation begins if it is still the newest one of the cell. -/
def rise (s : State) (e : Evaluation) : State :=
  match s.ledger.begin? e.key e.generation with
  | some (fanOut, ledger) => { s with ledger }.setStage e (.entering fanOut)
  | none => s.dropEvaluation e

/-- Begins to judge the cell by the grid as it is. -/
def start (u : Setup) (s : State) (e : Evaluation) (fanOut : List String) : State :=
  s.setStage e <|
    .running (.working (u.ruleSet.evaluateCellAmong (s.source u) e.key.row e.key.column)) fanOut

/-- Claims the delivery of its report, unless a newer evaluation of the cell has reported. -/
def claim? (s : State) (e : Evaluation) : Option State :=
  (s.ledger.claim? e.key e.generation).map fun ledger => { s with ledger }

/-- Leaves out a report that comes too late. -/
def leaveOut (u : Setup) (s : State) (e : Evaluation) : State :=
  ((s.count fun c => { c with stale := c.stale + 1 }).note u
    (.staleDiscarded e.key.row e.key.column e.generation)).setStage e (.spreading [])

/-- Chooses the cells of other rows that follow a cell that was reported. -/
def choose (u : Setup) (s : State) (e : Evaluation) (fanOut : List String) (rows : Dataset) :
    State :=
  (s.notePeers u e.key fanOut rows).setStage e (.spreading (s.peers u e.key fanOut rows))

/-- Deals with the answer of judging the cell. -/
def settle (u : Setup) (s : State) (e : Evaluation) (fanOut : List String) :
    Except Problem Judgement → State
  | .ok (report, rows) =>
    if stopped s e then (s.abandoned u e.key).setStage e (.spreading [])
    else match claim? s e with
      | some s => choose u (s.deliver u report) e fanOut rows
      | none => leaveOut u s e
  | .error .cancelled => (s.abandoned u e.key).setStage e (.spreading [])
  | .error problem => (s.failed u e.key problem).setStage e (.spreading [])

/-- One step of an evaluation; nothing if it has to wait. -/
def step? (u : Setup) (s : State) (e : Evaluation) : Option State :=
  match e.stage with
  | .asked =>
    some <| if stopped s e then s.dropEvaluation e
      else s.setStage e (.armed (s.now + u.ruleSet.throttle.debounce))
  | .armed due =>
    if stopped s e then some (s.dropEvaluation e)
    else if due ≤ s.now then some (rise s e)
    else none
  | .entering fanOut =>
    some <| if stopped s e then giveUp u s e
      else match s.limiter.join with
        | (.slot, _, limiter) => start u { s with limiter } e fanOut
        | (.waiting, ticket, limiter) => { s with limiter }.setStage e (.inLine ticket fanOut)
        | (.closed, _, _) => giveUp u s e
  | .inLine ticket fanOut =>
    let left := { s with limiter := s.limiter.leave ticket }
    if stopped s e then some (giveUp u left e)
    else match s.limiter.attempt ticket with
      | .slot => some (start u { s with limiter := s.limiter.takeUp ticket } e fanOut)
      | .waiting => none
      | .closed => some (giveUp u left e)
  | .running work fanOut =>
    (work.step? s.now (stopped s e)).map fun
      | .goesOn events next => (s.write events).setStage e (.running next fanOut)
      | .ends answer => { s with limiter := s.limiter.release }.setStage e (.settled answer fanOut)
  | .settled answer fanOut => some (settle u s e fanOut answer)
  | .spreading (key :: keys) => some ((s.schedule u key []).setStage e (.spreading keys))
  | .spreading [] => some ((s.dropEvaluation e).finish e.key e.generation)

/-- Takes a slot that is at hand. An evaluation waits for a slot and for word to stop at once, and
where both are there it may heed either: `step?` heeds the word. -/
def takeSlot? (u : Setup) (s : State) (e : Evaluation) : Option State :=
  match e.stage with
  | .entering fanOut =>
    match s.limiter.join with
    | (.slot, _, limiter) => some (start u { s with limiter } e fanOut)
    | _ => none
  | .inLine ticket fanOut =>
    if s.limiter.attempt ticket = .slot then
      some (start u { s with limiter := s.limiter.takeUp ticket } e fanOut)
    else none
  | _ => none

/-- The evaluation can take a step. -/
def canStep (s : State) (e : Evaluation) : Bool :=
  match e.stage with
  | .armed due => stopped s e || due ≤ s.now
  | .inLine ticket _ => stopped s e || s.limiter.attempt ticket != .waiting
  | .running work _ => work.canStep s.now (stopped s e)
  | _ => true

/-- The time to which the evaluation waits, if it waits for one. -/
def due? (e : Evaluation) : Option Nat :=
  match e.stage with
  | .armed due => some due
  | .running work _ => work.due?
  | _ => none

end CellRules.Watch.Evaluation
