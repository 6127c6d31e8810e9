/-
CellRules.Watch.Basic — judging a grid while it is edited.

A watch looks after a grid that people edit. Each edited cell, and each cell whose rules read it, is
judged again when it has rested for a while; cells of other rows follow where the edit may change
what is said about them. The verdicts are delivered in order.

The state of a watch holds everything that is under way: evaluations of single cells, and calls of
those who wait for an answer.
-/
import CellRules.RuleSet.AllRows
import CellRules.Run.Pool
import CellRules.Run.Sink
import CellRules.Text.Truncate
import CellRules.Watch.Ledger

namespace CellRules.Watch

/-- What a watch goes by. `view` says how rules read the grid, and `timestamp` is the time written
into reports. -/
structure Setup where
  ruleSet : RuleSet
  settings : LogSettings := .standard
  view : Grid → Source
  timestamp : String := ""

/-- What happened to the evaluations asked for. -/
structure Stats where
  scheduled : Nat := 0
  /-- Replaced by a newer one before they began. -/
  coalesced : Nat := 0
  /-- Reports delivered. -/
  evaluated : Nat := 0
  /-- Given up after they began. -/
  cancelled : Nat := 0
  /-- Finished after a newer one of the cell was delivered. -/
  stale : Nat := 0
  /-- Rules that broke down, in delivered reports. -/
  faults : Nat := 0
  /-- Ended by a problem. -/
  errors : Nat := 0
  deriving DecidableEq, Repr

/-- Judging one cell gives its report and the rows it was judged among. -/
abbrev Judgement := CellReport × Dataset

/-- Where an evaluation of a cell stands. -/
inductive Stage where
  /-- It has not set its alarm. -/
  | asked
  /-- It waits for its cell to rest. -/
  | armed (due : Nat)
  /-- It has begun and asks for a slot. -/
  | entering (fanOut : List String)
  | inLine (ticket : Ticket) (fanOut : List String)
  /-- It has a slot. -/
  | running (work : Running Judgement) (fanOut : List String)
  /-- It has given its slot back. -/
  | settled (answer : Except Problem Judgement) (fanOut : List String)
  /-- Its report is dealt with, and it asks for evaluations of other cells. -/
  | spreading (peers : List CellKey)

/-- An evaluation of a cell that was asked for and has not finished. -/
structure Evaluation where
  generation : Nat
  key : CellKey
  /-- A newer evaluation of the cell has taken its place. -/
  cancelled : Bool := false
  stage : Stage := .asked

/-- A cell to judge. After an edited cell its peers in other rows follow. -/
structure Job where
  key : CellKey
  spreads : Bool
  deriving DecidableEq, Repr

/-- Where a call stands. -/
inductive CallStage where
  /-- Telling of an edited column: the cells to ask for, or to judge at once. -/
  | editing (edited : String) (todo : List Job) (current : Option (Job × Running Judgement))
  | edited (answer : Except Problem Unit)
  /-- Judging all rows: not begun, looking at the rows, judging them, delivering. -/
  | called
  | surveying (work : Running RuleSet.Survey)
  | judging (pool : Pool (List CellReport))
  | delivering (todo cells : List CellReport)
  | reported (answer : Except Problem Report)

/-- A call of someone who waits for the answer. -/
structure Call where
  id : Nat
  stage : CallStage

/-- The state of a watch. -/
structure State where
  now : Nat := 0
  grid : Grid
  limiter : Limiter
  ledger : Ledger := {}
  /-- The cells whose last delivered verdict is a failure. -/
  flagged : List CellKey := []
  nextGeneration : Nat := 0
  stats : Stats := {}
  /-- How often those who wait for rest were told of it. -/
  rests : Nat := 0
  closed : Bool := false
  /-- The evaluations that have not finished, the oldest first. -/
  evaluations : List Evaluation := []
  calls : List Call := []
  /-- The verdicts delivered, with their times. -/
  deliveries : List (Nat × Delivery) := []
  events : List Event := []

namespace State

/-- A watch over a grid at its beginning. -/
def start (u : Setup) (grid : Grid) : State :=
  { grid, limiter := .ofLimit u.ruleSet.throttle.limit }

/-- What was delivered. -/
def sink (s : State) : Sink := ⟨s.deliveries.map (·.2)⟩

/-- How rules read the grid as it is. -/
def source (u : Setup) (s : State) : Source := u.view s.grid

def write (s : State) (events : List Event) : State := { s with events := s.events ++ events }

/-- Writes an event about the running of the watch, if such events are wanted. -/
def note (u : Setup) (s : State) (event : Event) : State :=
  if u.settings.schedulerEvents then s.write [event] else s

def count (s : State) (f : Stats → Stats) : State := { s with stats := f s.stats }

/-- Changes an evaluation. -/
def setEvaluation (s : State) (e : Evaluation) : State :=
  { s with
    evaluations := s.evaluations.map fun f => if f.generation = e.generation then e else f }

/-- Moves an evaluation to another stage. -/
def setStage (s : State) (e : Evaluation) (stage : Stage) : State :=
  s.setEvaluation { e with stage }

/-- Drops an evaluation. -/
def dropEvaluation (s : State) (e : Evaluation) : State :=
  { s with evaluations := s.evaluations.filter (·.generation != e.generation) }

/-- Tells the evaluation of a generation that a newer one has taken its place. -/
def cancel (s : State) (generation : Nat) : State :=
  { s with
    evaluations := s.evaluations.map fun e =>
      if e.generation = generation then { e with cancelled := true } else e }

/-! ## Asking for evaluations -/

/-- What becomes of the newest evaluation of a cell when another one is asked for. -/
def supersede (u : Setup) (s : State) (key : CellKey) : Option Request → State
  | none => s.note u (.timerArmed key.row key.column u.ruleSet.throttle.debounce)
  | some old => match old.phase with
    | .pending =>
      ((s.cancel old.generation).count fun c => { c with coalesced := c.coalesced + 1 }).note u
        (.timerRearmed key.row key.column)
    | .running =>
      if u.ruleSet.throttle.cancelSuperseded then
        (s.cancel old.generation).note u (.supersededCancelled key.row key.column)
      else s.note u (.editedWhileRunning key.row key.column)

/-- Draws a generation. -/
def draw (s : State) : State := { s with nextGeneration := s.nextGeneration + 1 }

/-- Enters the evaluation of a generation into the ledger, as the newest one of its cell. -/
def enter (s : State) (key : CellKey) (generation : Nat) (fanOut : List String) : State :=
  { s with ledger := s.ledger.request key generation fanOut }

/-- Lets an evaluation that was entered begin, once it is counted and the one whose place it took
has been told. -/
def launch (u : Setup) (s : State) (key : CellKey) (generation : Nat) (previous : Option Request) :
    State :=
  let s := s.count fun c => { c with scheduled := c.scheduled + 1 }
  let s := s.supersede u key previous
  { s with evaluations := s.evaluations ++ [({ generation, key } : Evaluation)] }

/-- Asks for an evaluation of a cell, unless the watch is closed. -/
def schedule (u : Setup) (s : State) (key : CellKey) (fanOut : List String) : State :=
  if s.closed then s
  else (s.draw.enter key s.nextGeneration fanOut).launch u key s.nextGeneration
    (s.ledger.current? key)

/-! ## Delivering reports -/

/-- The flagged cells after a verdict on one. -/
def flagWith (key : CellKey) (fails : Bool) (flagged : List CellKey) : List CellKey :=
  if fails then if key ∈ flagged then flagged else flagged ++ [key]
  else flagged.filter (· != key)

/-- The events of a delivery. -/
def deliveryEvents (u : Setup) (r : CellReport) : List Event :=
  (if u.settings.ruleDetails then
    r.outcomes.map fun o => .outcomeDelivered o.rule o.status r.row r.column
  else []) ++
  if r.verdict.isError then
    [.cellFailed u.ruleSet.name r.row r.column
      (Text.truncate u.settings.fieldLimit r.verdict.message)]
  else if u.settings.debugEnabled then [.cellDelivered r.row r.column r.passes]
  else []

/-- Hands a report to the sink. -/
def hand (s : State) (r : CellReport) : State :=
  { s with deliveries := s.deliveries ++ [(s.now, ⟨r.row, r.column, r.verdict⟩)] }

/-- Counts a report that the sink has, and flags its cell if it is a failure. -/
def record (u : Setup) (s : State) (r : CellReport) : State :=
  { s with
    stats := { s.stats with
      evaluated := s.stats.evaluated + 1
      faults := s.stats.faults + r.faultCount }
    flagged := flagWith ⟨r.row, r.column⟩ r.verdict.fails s.flagged
    events := s.events ++ deliveryEvents u r }

/-- Delivers a report. -/
def deliver (u : Setup) (s : State) (r : CellReport) : State := (s.hand r).record u r

@[simp] theorem deliveries_deliver (u : Setup) (s : State) (r : CellReport) :
    (s.deliver u r).deliveries = s.deliveries ++ [(s.now, ⟨r.row, r.column, r.verdict⟩)] := rfl

@[simp] theorem evaluated_deliver (u : Setup) (s : State) (r : CellReport) :
    (s.deliver u r).stats.evaluated = s.stats.evaluated + 1 := rfl

/-- An evaluation finishes. When none is left, those who wait for rest are told. -/
def finish (s : State) (key : CellKey) (generation : Nat) : State :=
  let ledger := s.ledger.finish key generation
  { s with ledger, rests := if ledger.isEmpty then s.rests + 1 else s.rests }

/-- Counts an evaluation that was given up. -/
def abandoned (u : Setup) (s : State) (key : CellKey) : State :=
  (s.count fun c => { c with cancelled := c.cancelled + 1 }).note u
    (.evaluationAbandoned key.row key.column)

/-- Counts an evaluation that a problem ended. -/
def failed (u : Setup) (s : State) (key : CellKey) (p : Problem) : State :=
  (s.count fun c => { c with errors := c.errors + 1 }).write
    [.evaluationFailed u.ruleSet.name key.row key.column p.message]

/-- The rows whose cells in the column of a judged cell an edit of some columns concerns: those that
the rules name by the rows at that time, and those whose last verdict was a failure. -/
def peerRows (u : Setup) (s : State) (key : CellKey) (edited : List String) (rows : Dataset) :
    List Nat :=
  let flagged := (s.flagged.filter (·.column == key.column)).map (·.row)
  let spreading := edited.filter fun c => (u.ruleSet.crossRowTargets c).contains key.column
  (Ascending.ofList (spreading.flatMap fun c =>
    u.ruleSet.crossRowPeers key.row c key.column rows ++ flagged)).filter (· != key.row)

/-- The cells to judge again after a judged cell, among the rows that are still there. -/
def peers (u : Setup) (s : State) (key : CellKey) (edited : List String) (rows : Dataset) :
    List CellKey :=
  ((s.peerRows u key edited rows).filter (· < (s.source u).rowCount)).map (⟨·, key.column⟩)

/-- Writes how many rows an edit concerns, if there are any. -/
def notePeers (u : Setup) (s : State) (key : CellKey) (edited : List String) (rows : Dataset) :
    State :=
  let found := s.peerRows u key edited rows
  if found.isEmpty then s else s.note u (.peersScheduled key.row key.column found.length)

end State

end CellRules.Watch
