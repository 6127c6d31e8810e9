/-
CellRules.Watch.Session — a watch run in one time.

A session runs what can go on at a time before time moves on, each task in the order in which it
became ready. Whoever edits, asks or waits gets the answer together with the session after it.
-/
import CellRules.Run.Timeline
import CellRules.Watch.Move

namespace CellRules.Watch

namespace State

/-- The tasks that can take a step: calls with the strands of their pools, and evaluations. -/
def able (s : State) : List Task :=
  (s.calls.flatMap fun c =>
    (c.pool?.elim [] fun pool => (pool.able s.now s.closed s.limiter).map (.strand c.id)) ++
    if c.canStep s then [.call c.id] else []) ++
  (s.evaluations.filter (Evaluation.canStep s)).map fun e => .evaluation e.generation

/-- The time to which a task waits, if it waits for one. -/
def due? (s : State) : Task → Option Nat
  | .evaluation generation => (s.evaluation? generation).bind Evaluation.due?
  | .call id => (s.call? id).bind Call.due?
  | .strand id strand => ((s.call? id).bind Call.pool?).bind (·.due? strand)

end State

/-- A strand is a part of the call whose pool it belongs to. -/
def Task.whole : Task → Task
  | .strand id _ => .call id
  | task => task

/-- The task is a call. -/
def Task.isCall : Task → Bool
  | .call _ => true
  | _ => false

/-- The tasks of a watch as a machine. Calls are in front of evaluations. -/
def machine (u : Setup) : Machine State Task where
  step? := State.step? u
  able := State.able
  due? := State.due?
  setNow s now := { s with now }
  whole := Task.whole
  inFront := Task.isCall

/-- A watch and what is ready to run in it. -/
structure Session where
  setup : Setup
  timeline : Timeline State Task

namespace Session

def state (w : Session) : State := w.timeline.state

/-- Begins to watch a grid. The throttle must be valid. -/
def start (u : Setup) (grid : Grid) : Except Problem Session :=
  u.ruleSet.throttle.validate.map fun _ => { setup := u, timeline := { state := .start u grid } }

/-- Changes the state from outside. -/
def change (w : Session) (f : State → State) : Session :=
  { w with timeline := { w.timeline with state := f w.state } }

def run (w : Session) (f : Machine State Task → Timeline State Task → Timeline State Task) :
    Session :=
  { w with timeline := f (machine w.setup) w.timeline }

/-- Runs everything that can run at this time. -/
def settle (w : Session) : Session := w.run Timeline.quiesce

/-- Lets time pass; what is due at the end of it happens. -/
def advance (w : Session) (millis : Nat) : Session :=
  w.run fun m t => t.runTo m (w.state.now + millis) Timeline.patience

/-- Runs until the state is as wanted, or nothing is left to run, for one who waits for a call or
for none. -/
def runUntil (w : Session) (awaited : Option Task) (wanted : State → Bool) : Session :=
  w.run fun m t => (t.notice m).runUntil m awaited wanted Timeline.patience

/-- Lets one who waits for rest go on until it is done, or nothing is left to run. -/
def waitWith (w : Session) : Nat → Waiter → Session
  | 0, _ => w
  | _, .done => w
  | fuel + 1, waiter =>
    let w := w.runUntil none fun s => (waiter.step? s).isSome
    match waiter.step? w.state with
    | some next => w.waitWith fuel next
    | none => w

/-- Waits until no cell is pending. -/
def waitIdle (w : Session) : Session := w.waitWith Timeline.patience .comes

/-- Closes the watch. The evaluations learn of it, the newest first. -/
def shutDown (w : Session) : Session :=
  (w.change (·.shutDown w.setup)).run fun m t =>
    (t.state.evaluations.reverse.map (.evaluation ·.generation)).foldl (Timeline.wake m none) t

/-- The stage of a call. -/
def stage? (s : State) (id : Nat) : Option CallStage := (s.call? id).map (·.stage)

/-- What a call that told of an edit answered. -/
def edited? (s : State) (id : Nat) : Option (Except Problem Unit) :=
  match stage? s id with
  | some (.edited answer) => some answer
  | _ => none

/-- What a call for all rows answered. -/
def reported? (s : State) (id : Nat) : Option (Except Problem Report) :=
  match stage? s id with
  | some (.reported answer) => some answer
  | _ => none

/-- Runs until a call has its answer, for one who waits for that call itself or for what it
leaves behind. -/
def await (answer? : State → Nat → Option (Except Problem α)) (awaited : Option Task) (id : Nat)
    (w : Session) : Except Problem α × Session :=
  let w := w.runUntil awaited fun s => (answer? s id).isSome
  ((answer? w.state id).getD (.error .cancelled), w)

/-- Tells that a cell was edited. -/
def edit (w : Session) (row : Nat) (column : String) : Except Problem Unit × Session :=
  let id := w.state.nextCall
  (w.change (·.tellEdit w.setup row column)).await edited? (some (.call id)) id

/-- Asks for all rows without waiting: the call to wait for. -/
def startAll (w : Session) : Nat × Session :=
  (w.state.nextCall, w.change (·.addCall .called))

/-- Waits for the report of a call for all rows that was started. -/
def join (w : Session) (id : Nat) : Except Problem Report × Session := w.await reported? none id

/-- Asks for all rows and waits for the report. -/
def validateAll (w : Session) : Except Problem Report × Session :=
  let (id, w) := w.startAll
  w.await reported? (some (.call id)) id

end Session

end CellRules.Watch
