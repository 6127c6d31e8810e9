/-
CellRules.Watch.Threads — a watch whose tasks run beside each other.

`State.move?` takes a whole step at a time. Where tasks run on threads of their own, another task
may come between the pieces of a step: after a look whether the watch is closed, after a generation
is drawn, after an evaluation is entered into the ledger, after the delivery of a report is claimed
or the sink has it. Closing comes in pieces too. `Threads` keeps for each task how far it has come,
and `Threads.turn?` takes one piece.

The pieces are those of which the steps are made (`State.draw`, `State.enter`, `State.launch`,
`Evaluation.claim?`, `State.hand`, `State.record`, `State.tellAll` and so on). Each of them changes
at most one thing that other tasks look at: the ledger, the flagged cells, the sink, the slots, who
is told to stop. What nobody decides by, such as counting or noting an event, goes with the piece
before it. Those who wait for rest are told with the piece that empties the ledger, and the cells
that follow a report are chosen in one piece. Evaluations claim, hand and record one at a time.
-/
import CellRules.Watch.Move

namespace CellRules.Watch

/-- Who is to follow once a cell is reported: cells of other rows, on account of some edited columns
and as the rows were when the cell was judged. -/
structure Following where
  key : CellKey
  edited : List String
  rows : Dataset

/-- Where a task stands within a step. -/
inductive Position where
  /-- It found the watch open and is about to ask for an evaluation. -/
  | asks (key : CellKey) (fanOut : List String)
  /-- It has drawn the generation of that evaluation. -/
  | drawn (key : CellKey) (fanOut : List String) (generation : Nat)
  /-- It has entered that evaluation in the place of another one, and is about to tell that one and
  to let this one begin. `told` says whether this one was told to stop in the meantime. -/
  | entered (key : CellKey) (generation : Nat) (previous : Option Request) (told : Bool)
  /-- An evaluation whom nobody had told to stop is about to claim the delivery of its report. -/
  | admitted (report : CellReport) (next : Following)
  | claimed (report : CellReport) (next : Following)
  /-- The sink has the report on the cell. -/
  | handed (key : CellKey) (report : CellReport) (next : Option Following)
  /-- The report is recorded. -/
  | recorded (next : Following)
  /-- A call found the watch open and is about to look at all rows. -/
  | looks

/-- How far a closing has come. -/
inductive Closer where
  /-- All are told to stop. -/
  | told
  /-- No slots are given out. -/
  | barred
  /-- What was pending is forgotten: so many cells. -/
  | forgot (abandoned : Nat)
  /-- The closing is over. -/
  | done
  deriving DecidableEq, Repr

/-- A watch, the tasks that stand within a step, and the closings that have begun. -/
structure Threads where
  state : State
  midway : List (Task × Position) := []
  closers : List Closer := []

/-- What may come next. -/
inductive Turn where
  /-- A task takes the next piece of its step; or what comes from outside, of which closing is
  only begun. -/
  | move (m : Move)
  /-- The alarm of an evaluation rings. It heeds the alarm although it may be told to stop. -/
  | ring (generation : Nat)
  /-- A closing goes on. -/
  | close (closer : Nat)

/-! ## How steps begin -/

/-- The evaluation is about to look whether it has a place in the ledger: it has waited for its
alarm, or need not wait at all. -/
def Evaluation.rings (u : Setup) (s : State) (e : Evaluation) : Bool :=
  match e.stage with
  | .asked => u.ruleSet.throttle.debounce == 0
  | .armed due => due ≤ s.now
  | _ => false

/-- The first piece of a step that is taken in pieces, and where the evaluation stands after it. -/
def Evaluation.open? (s : State) (e : Evaluation) : Option (State × Position) :=
  match e.stage with
  | .spreading (key :: keys) =>
    if s.closed then none else some (s.setStage e (.spreading keys), .asks key [])
  | .settled (.ok (report, rows)) fanOut =>
    if e.stopped s then none
    else some (s.setStage e (.spreading []), .admitted report ⟨e.key, fanOut, rows⟩)
  | _ => none

/-- The first piece of a step that is taken in pieces, and where the call stands after it. -/
def Call.open? (u : Setup) (s : State) (c : Call) : Option (State × Position) :=
  match c.stage with
  | .editing edited (job :: todo) none =>
    if u.ruleSet.throttle.background && !s.closed then
      some (goTo s c (.editing edited todo none), .asks job.key [edited])
    else none
  | .editing edited todo (some (job, work)) =>
    match work.step? s.now s.closed with
    | some (.ends (.ok (report, rows))) =>
      some (goTo (s.hand report) c (.editing edited todo none),
        .handed job.key report (if job.spreads then some ⟨job.key, [edited], rows⟩ else none))
    | _ => none
  | .called => if s.closed then none else some (s, .looks)
  | .delivering (cell :: todo) cells =>
    some (goTo (s.hand cell) c (.delivering todo cells), .handed ⟨cell.row, cell.column⟩ cell none)
  | _ => none

/-- The first piece of the next step of a task, if that step is taken in pieces. -/
def State.open? (u : Setup) (s : State) : Task → Option (State × Position)
  | .evaluation generation => (s.evaluation? generation).bind fun e => e.open? s
  | .call id => (s.call? id).bind fun c => c.open? u s
  | .strand _ _ => none

/-! ## How steps go on -/

/-- The newest evaluation of a cell is told to stop when another one takes its place: one that waits,
and one that runs where superseded ones are given up. -/
def Setup.tells (u : Setup) (r : Request) : Bool :=
  r.phase == .pending || u.ruleSet.throttle.cancelSuperseded

/-- A task that has entered an evaluation learns that it is told to stop. -/
def Position.tell (generation : Nat) : Position → Position
  | .entered key g previous told => .entered key g previous (told || g == generation)
  | position => position

/-- Evaluations claim the delivery of a report, hand it on and record it one at a time. -/
def Position.holds : Task × Position → Bool
  | (.evaluation _, .claimed _ _) | (.evaluation _, .handed _ _ _) => true
  | _ => false

/-- A task goes on to the cells that follow the one it reported. -/
def State.follow (u : Setup) (s : State) (next : Following) : Task → State
  | .evaluation generation => match s.evaluation? generation with
    | some e => e.choose u s next.edited next.rows
    | none => s
  | .call id => match s.call? id with
    | some c => match c.stage with
      | .editing edited todo current =>
        let found := (s.peers u next.key next.edited next.rows).map fun key =>
          ({ key, spreads := false } : Job)
        Call.goTo (s.notePeers u next.key next.edited next.rows) c
          (.editing edited (found ++ todo) current)
      | _ => s
    | none => s
  | .strand _ _ => s

namespace Threads

/-- A watch in which no task stands within a step. -/
def whole (s : State) : Threads := { state := s }

/-- Where a task stands within its step. -/
def position? (t : Threads) (task : Task) : Option Position :=
  (t.midway.find? (·.1 == task)).map (·.2)

/-- A task comes to the end of its step. -/
def leave (t : Threads) (task : Task) : Threads :=
  { t with midway := t.midway.filter (·.1 != task) }

/-- A task takes its stand within a step. -/
def stand (t : Threads) (task : Task) (position : Position) : Threads :=
  { t with midway := (task, position) :: (t.leave task).midway }

/-- The state of the watch is another one. -/
def withState (t : Threads) (s : State) : Threads := { t with state := s }

/-- An evaluation has claimed a delivery and not recorded it. -/
def locked (t : Threads) : Bool := t.midway.any Position.holds

/-- Lets an evaluation that was entered begin. The one whose place it took may be told to stop
before it has begun itself. -/
def launch (u : Setup) (t : Threads) (key : CellKey) (generation : Nat) (previous : Option Request)
    (told : Bool) : Threads :=
  let s := t.state.launch u key generation previous
  { t with
    state := if told then s.cancel generation else s
    midway := match previous with
      | some old =>
        if u.tells old then t.midway.map fun (task, p) => (task, p.tell old.generation)
        else t.midway
      | none => t.midway }

/-- An evaluation that holds a report claims its delivery. -/
def claim (u : Setup) (t : Threads) (e : Evaluation) (report : CellReport) (next : Following) :
    Threads :=
  let task := Task.evaluation e.generation
  match e.claim? t.state with
  | some s => (t.stand task (.claimed report next)).withState s
  | none => (t.leave task).withState (e.leaveOut u t.state)

/-- A task takes the next piece of its step; nothing if it has to wait. -/
def goOn? (u : Setup) (t : Threads) (task : Task) : Position → Option Threads
  | .asks key fanOut =>
    some ((t.stand task (.drawn key fanOut t.state.nextGeneration)).withState t.state.draw)
  | .drawn key fanOut generation =>
    some ((t.stand task (.entered key generation (t.state.ledger.current? key) false)).withState
      (t.state.enter key generation fanOut))
  | .entered key generation previous told =>
    some ((t.leave task).launch u key generation previous told)
  | .admitted report next => match task with
    | .evaluation generation =>
      if t.locked then none
      else (t.state.evaluation? generation).map fun e => t.claim u e report next
    | .call _ | .strand _ _ => none
  | .claimed report next =>
    some ((t.stand task (.handed next.key report (some next))).withState (t.state.hand report))
  | .handed _ report next =>
    some <| match next with
      | some next => (t.stand task (.recorded next)).withState (t.state.record u report)
      | none => (t.leave task).withState (t.state.record u report)
  | .recorded next => some ((t.leave task).withState (t.state.follow u next task))
  | .looks => match task with
    | .call id => (t.state.call? id).map fun c =>
      (t.leave task).withState <|
        Call.goTo t.state c (.surveying (.working (u.ruleSet.survey (t.state.source u))))
    | .evaluation _ | .strand _ _ => none

/-- A task takes one piece of its step, or the whole step where that is one piece. -/
def step? (u : Setup) (t : Threads) (task : Task) : Option Threads :=
  match t.position? task with
  | some p => t.goOn? u task p
  | none => match t.state.open? u task with
    | some (s, p) => some ((t.stand task p).withState s)
    | none => (t.state.step? u task).map t.withState

/-- An evaluation takes a slot that is at hand, told to stop or not. -/
def takeSlot? (u : Setup) (t : Threads) (generation : Nat) : Option Threads :=
  if (t.position? (.evaluation generation)).isSome then none
  else (t.state.move? u (.takeSlot generation)).map t.withState

/-- An evaluation looks whether it has a place in the ledger, told to stop or not. -/
def ring? (u : Setup) (t : Threads) (generation : Nat) : Option Threads :=
  if (t.position? (.evaluation generation)).isSome then none
  else (t.state.evaluation? generation).bind fun e =>
    if e.rings u t.state then some (t.withState (e.rise t.state)) else none

/-- A closing goes on by one piece. -/
def close? (u : Setup) (t : Threads) (closer : Nat) : Option Threads :=
  (t.closers[closer]?).bind fun
    | .told => some { t with state := t.state.barSlots, closers := t.closers.set closer .barred }
    | .barred =>
      some { t with
        state := t.state.forget
        closers := t.closers.set closer (.forgot t.state.ledger.size) }
    | .forgot abandoned =>
      some { t with
        state := t.state.announce u abandoned
        closers := t.closers.set closer .done }
    | .done => none

/-- What a turn leads to, if it is possible. -/
def turn? (u : Setup) (t : Threads) : Turn → Option Threads
  | .move (.step task) => t.step? u task
  | .move (.takeSlot generation) => t.takeSlot? u generation
  | .move .shutDown =>
    some { t with state := t.state.tellAll, closers := t.closers ++ [.told] }
  | .move m => (t.state.move? u m).map t.withState
  | .ring generation => t.ring? u generation
  | .close closer => t.close? u closer

end Threads

end CellRules.Watch
