/-
CellRules.Watch.Move — what can happen to a watch.

From outside, the grid changes, edits are told, all rows are asked for, and the watch is closed.
From inside, evaluations, calls and the strands of their pools take steps. In which order they do
is left open, and so is whether an evaluation that is told to stop notices that or a slot at hand
first: `State.move?` says what each move leads to, and when it is possible.
-/
import CellRules.Watch.Call
import CellRules.Watch.Evaluation

namespace CellRules.Watch

/-- Who takes a step: an evaluation by its generation, a call, or a strand of a call's pool. -/
inductive Task where
  | evaluation (generation : Nat)
  | call (id : Nat)
  | strand (call id : Nat)
  deriving DecidableEq, Repr

/-- Something that happens to a watch. -/
inductive Move where
  | setCell (row : Nat) (column : String) (cell : Cell)
  | pushRow (values : List (String × Cell))
  /-- Someone tells that a cell was edited. -/
  | edit (row : Nat) (column : String)
  /-- Someone asks for all rows. -/
  | validateAll
  | shutDown
  | step (task : Task)
  /-- An evaluation takes a slot, told to stop or not. -/
  | takeSlot (generation : Nat)
  /-- Time passes. -/
  | pass (millis : Nat)

namespace State

def evaluation? (s : State) (generation : Nat) : Option Evaluation :=
  s.evaluations.find? (·.generation == generation)

def call? (s : State) (id : Nat) : Option Call := s.calls.find? (·.id == id)

/-- The number of the next call. -/
def nextCall (s : State) : Nat := s.calls.length

/-- Adds a call. -/
def addCall (s : State) (stage : CallStage) : State :=
  { s with calls := s.calls ++ [{ id := s.nextCall, stage }] }

/-- Someone tells that a cell was edited. A closed watch refuses. -/
def tellEdit (u : Setup) (s : State) (row : Nat) (column : String) : State :=
  s.addCall <|
    if s.closed then .edited (.error .schedulerClosed)
    else .editing column ((u.editTargets column).map fun c => ⟨⟨row, c⟩, true⟩) none

/-! ### Closing -/

/-- Tells everybody to stop. -/
def tellAll (s : State) : State := { s with closed := true }

/-- Gives out no more slots; nobody waits for one. -/
def barSlots (s : State) : State := { s with limiter := s.limiter.close }

/-- Forgets what is pending. -/
def forget (s : State) : State := { s with ledger := {} }

/-- Tells those who wait for rest, and writes how many cells were pending. -/
def announce (u : Setup) (s : State) (abandoned : Nat) : State :=
  { s with
    rests := s.rests + 1
    events := s.events ++ [.shutDown u.ruleSet.name abandoned] }

/-- Closes the watch: nothing is pending any more, which those who wait for rest are told, and nobody
waits for a slot. -/
def shutDown (u : Setup) (s : State) : State :=
  s.tellAll.barSlots.forget.announce u s.ledger.size

/-! ### Steps and moves -/

/-- One step of a task; nothing if it has to wait or is not there. -/
def step? (u : Setup) (s : State) : Task → Option State
  | .evaluation generation => (s.evaluation? generation).bind (Evaluation.step? u s)
  | .call id => (s.call? id).bind (Call.step? u s)
  | .strand id strand => (s.call? id).bind fun c => c.stepStrand? s strand

/-- What a move leads to, if it is possible. -/
def move? (u : Setup) (s : State) : Move → Option State
  | .setCell row column cell =>
    (s.grid.set row column cell).toOption.map fun grid => { s with grid }
  | .pushRow values => some { s with grid := s.grid.push values }
  | .edit row column => some (s.tellEdit u row column)
  | .validateAll => some (s.addCall .called)
  | .shutDown => some (s.shutDown u)
  | .step task => s.step? u task
  | .takeSlot generation => (s.evaluation? generation).bind (Evaluation.takeSlot? u s)
  | .pass millis => some { s with now := s.now + millis }

/-- What some moves lead to, if each is possible. -/
def moveAll? (u : Setup) (s : State) (moves : List Move) : Option State :=
  moves.foldlM (fun s move => s.move? u move) s

end State

/-! ## Waiting for rest -/

/-- Where one stands who waits until no cell is pending. -/
inductive Waiter where
  | comes
  /-- Every word of rest after so many is heard. -/
  | listens (since : Nat)
  /-- Cells were pending, and there was no word of rest yet. -/
  | blocked (since : Nat)
  | done
  deriving DecidableEq, Repr

/-- One step of one who waits; nothing if it has to wait. It listens BEFORE it looks at the ledger,
so it hears of a rest that comes between the two. -/
def Waiter.step? (s : State) : Waiter → Option Waiter
  | .comes => some (.listens s.rests)
  | .listens since => some (if s.ledger.isEmpty then .done else .blocked since)
  | .blocked since => if since < s.rests then some .comes else none
  | .done => none

end CellRules.Watch
