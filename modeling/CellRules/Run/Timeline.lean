/-
CellRules.Run.Timeline — running many tasks in one time.

A machine has a state, a clock in it, and tasks that take steps and sometimes have to wait. A task
stands alone or is a part of another one, its whole; the parts of a whole go on one after the other
when the whole has its turn.

* `Timeline.ready` holds the tasks that can go on, in the order in which they became ready, and
  `Timeline.turns` the wholes that are to run, in the order in which their first part did.
* `Timeline.runRound` gives turns: to the wholes in front, then to the others.
* When nobody is to run, time moves to the next alarm (`Timeline.moveTo`); alarms of one time wake
  their tasks in the order in which they were set.
* `Timeline.runUntil` runs for somebody who waits for one of the wholes in front: that one has its
  turn before each round.
-/

namespace CellRules

/-- Tasks that take steps on a state. -/
structure Machine (σ ω : Type) where
  /-- One step of a task; nothing if it has to wait. -/
  step? : σ → ω → Option σ
  /-- The tasks that can take a step, the oldest first. -/
  able : σ → List ω
  /-- The time to which a task waits, if it waits for one. -/
  due? : σ → ω → Option Nat
  setNow : σ → Nat → σ
  /-- The task that a task is a part of; itself if it stands alone. -/
  whole : ω → ω
  /-- The whole has its turns before the others. -/
  inFront : ω → Bool

/-- A state, who is ready to go on in it, and the alarms in the order they were set. -/
structure Timeline (σ ω : Type) where
  state : σ
  ready : List ω := []
  turns : List ω := []
  alarms : List (Nat × ω) := []

namespace Timeline

variable {σ ω : Type} [DecidableEq ω]

/-- More steps than any run takes. -/
def patience : Nat := 1000000000000

/-- So many turns are given in front, and then so many to the others, before it begins anew. -/
def roundSize : Nat := 61

/-! ## Becoming ready -/

/-- A line with one at its end, unless that one is in it. -/
def joinLine (o : ω) (line : List ω) : List ω := if o ∈ line then line else line ++ [o]

/-- A task can go on. Its whole is to run, unless that is the one that runs. -/
def wake (m : Machine σ ω) (running : Option ω) (t : Timeline σ ω) (task : ω) : Timeline σ ω :=
  let t := { t with ready := joinLine task t.ready }
  if some (m.whole task) = running then t
  else { t with turns := joinLine (m.whole task) t.turns }

/-- Notices who can go on and is not known to be ready. -/
def notice (m : Machine σ ω) (t : Timeline σ ω) : Timeline σ ω :=
  ((m.able t.state).filter (· ∉ t.ready)).foldl (wake m none) t

/-- Notices who can go on after a step of a task, apart from itself. -/
def noticeAfter (m : Machine σ ω) (task : ω) (t : Timeline σ ω) : Timeline σ ω :=
  ((m.able t.state).filter fun o => o ≠ task ∧ o ∉ t.ready).foldl (wake m (m.whole task)) t

/-! ## Running at one time -/

/-- Lets a task take steps until it has to wait. -/
def goOn (m : Machine σ ω) (task : ω) : Nat → Timeline σ ω → Timeline σ ω
  | 0, t => t
  | fuel + 1, t =>
    match m.step? t.state task with
    | some state => goOn m task fuel (noticeAfter m task { t with state })
    | none => t

/-- Sets the alarm of a task that waits for a time. -/
def setAlarm (m : Machine σ ω) (task : ω) (t : Timeline σ ω) : Timeline σ ω :=
  match m.due? t.state task with
  | some due =>
    if t.alarms.contains (due, task) then t else { t with alarms := t.alarms ++ [(due, task)] }
  | none => t

/-- Lets the ready parts of a whole go on until all have to wait. -/
def runParts (m : Machine σ ω) (whole : ω) : Nat → Timeline σ ω → Timeline σ ω
  | 0, t => t
  | fuel + 1, t =>
    match t.ready.find? (m.whole · = whole) with
    | some task =>
      let t := goOn m task patience { t with ready := t.ready.erase task }
      runParts m whole fuel (setAlarm m task t)
    | none => t

/-- The turn of a whole. -/
def turn (m : Machine σ ω) (whole : ω) (t : Timeline σ ω) : Timeline σ ω :=
  runParts m whole patience { t with turns := t.turns.erase whole }

/-- Gives turns to wholes of one kind, at most so many. -/
def turnsOf (m : Machine σ ω) (kind : ω → Bool) : Nat → Timeline σ ω → Timeline σ ω
  | 0, t => t
  | fuel + 1, t =>
    match t.turns.find? kind with
    | some whole => turnsOf m kind fuel (turn m whole t)
    | none => t

/-- A round of turns: first in front, then the others. The one that is waited for is left out. -/
def runRound (m : Machine σ ω) (awaited : Option ω) (t : Timeline σ ω) : Timeline σ ω :=
  let t := turnsOf m (fun o => m.inFront o && some o != awaited) roundSize t
  turnsOf m (!m.inFront ·) roundSize t

/-- Rounds until nobody is to run. -/
def rounds (m : Machine σ ω) : Nat → Timeline σ ω → Timeline σ ω
  | 0, t => t
  | fuel + 1, t => if t.turns.isEmpty then t else rounds m fuel (runRound m none t)

/-- Runs everything that can run at this time. -/
def quiesce (m : Machine σ ω) (t : Timeline σ ω) : Timeline σ ω := rounds m patience (notice m t)

/-! ## Moving time -/

/-- Drops alarms of tasks that no longer wait for them. -/
def liveAlarms (m : Machine σ ω) (t : Timeline σ ω) : List (Nat × ω) :=
  t.alarms.filter fun (due, task) => m.due? t.state task == some due

/-- The time of the next alarm. -/
def nextAlarm? (m : Machine σ ω) (t : Timeline σ ω) : Option Nat :=
  match liveAlarms m t with
  | [] => none
  | (due, _) :: rest => some (rest.foldl (fun time (due, _) => min time due) due)

/-- Moves time on and wakes the tasks whose alarms are due. -/
def moveTo (m : Machine σ ω) (time : Nat) (t : Timeline σ ω) : Timeline σ ω :=
  let alarms := liveAlarms m t
  ((alarms.filter (·.1 ≤ time)).map (·.2)).foldl (wake m none)
    { t with
      state := m.setNow t.state time
      alarms := alarms.filter fun alarm => !(alarm.1 ≤ time) }

/-- The turn of the one that is waited for, if it is to run. -/
def turnOfAwaited (m : Machine σ ω) (awaited : Option ω) (t : Timeline σ ω) : Timeline σ ω :=
  match awaited with
  | some whole => if whole ∈ t.turns then turn m whole t else t
  | none => t

/-- Runs until the state is as wanted, which is looked at before each round, or nothing is left to
run. Who else is to run then stays so. -/
def runUntil (m : Machine σ ω) (awaited : Option ω) (wanted : σ → Bool) :
    Nat → Timeline σ ω → Timeline σ ω
  | 0, t => t
  | fuel + 1, t =>
    let t := turnOfAwaited m awaited t
    if wanted t.state then t
    else
      let t := runRound m awaited t
      if !t.turns.isEmpty || wanted t.state then runUntil m awaited wanted fuel t
      else match nextAlarm? m t with
        | some time => runUntil m awaited wanted fuel (moveTo m time t)
        | none => t

/-- Runs until a time, what is due at that time included. -/
def runTo (m : Machine σ ω) (time : Nat) : Nat → Timeline σ ω → Timeline σ ω
  | 0, t => t
  | fuel + 1, t =>
    let t := quiesce m t
    match nextAlarm? m t with
    | some due =>
      if due ≤ time then runTo m time fuel (moveTo m due t)
      else quiesce m (moveTo m time t)
    | none => quiesce m (moveTo m time t)

end Timeline

end CellRules
