/-
CellRules.Proofs.Watch.History — runs of a watch, and what an onlooker sees of them.

A run is ANY sequence of possible moves: who takes the next step, when time passes, when the grid
changes and whether one who is told to stop still takes a slot is left open, so a statement about all
runs is one about every interleaving.

What a run did is told by its history, a list of happenings in the order they were seen. A happening
is read off the states before and after a move (`seen`): a verdict was delivered if the deliveries
grew, an evaluation was asked for if the count of generations did. A move shows at most one.

* `Run u s h s'` — some moves lead from `s` to `s'`, and `h` was seen on the way.
* `Moment u s h mid x h' s'` — a run from `s` to `s'` during which `x` was seen in the state `mid`.
* `[x, y].Sublist h` says that `y` was seen after `x`.
-/
import CellRules.Watch.Move

namespace CellRules.Watch

/-- Something that an onlooker sees at a move. Evaluations are known by their generation, calls by
their number. -/
inductive Happening where
  /-- A cell of the grid was written. -/
  | wrote (row : Nat) (column : String)
  /-- A row was added. -/
  | pushed
  /-- A call told of an edit, and the watch was open. -/
  | told (call row : Nat) (column : String)
  /-- A call asked for all rows. -/
  | calledAll (call : Nat)
  | closed
  /-- A task asked for an evaluation of a cell on account of some edited columns. -/
  | asked (asker : Task) (key : CellKey) (generation : Nat) (fanOut : List String)
  /-- An evaluation found its cell at rest and took over these edited columns. -/
  | began (key : CellKey) (generation : Nat) (fanOut : List String)
  /-- A task read the grid to judge a cell. -/
  | read (reader : Task) (key : CellKey)
  /-- A run over all rows looked at them. -/
  | surveyed (call : Nat)
  /-- A task delivered its report on a cell. -/
  | reported (reporter : Task) (key : CellKey) (verdict : Verdict)
  /-- A task gave up a cell, or its report came too late to be delivered. -/
  | dropped (task : Task) (key : CellKey)
  /-- A task that nobody had told to stop met a problem. -/
  | failed (task : Task) (key : CellKey) (problem : Problem)
  deriving DecidableEq, Repr

/-- Somebody asks for all rows. -/
def Happening.asksAll : Happening → Bool
  | .calledAll _ => true
  | _ => false

/-- An evaluation that was not told to stop meets a problem. -/
def Happening.isProblem : Happening → Bool
  | .failed (.evaluation _) _ _ => true
  | _ => false

/-- What was delivered at a move. -/
def State.newDelivery? (s s' : State) : Option Delivery :=
  (s'.deliveries[s.deliveries.length]?).map (·.2)

/-- Where the evaluation of a generation stands, if it has not finished. -/
def State.stageOf? (s : State) (generation : Nat) : Option Stage :=
  (s.evaluation? generation).map (·.stage)

/-- Where a call stands. -/
def State.callStage? (s : State) (id : Nat) : Option CallStage := (s.call? id).map (·.stage)

/-- What is seen when an evaluation takes a step. -/
def Evaluation.seen (s : State) (e : Evaluation) (s' : State) : Option Happening :=
  let task := Task.evaluation e.generation
  match e.stage with
  | .asked | .running _ _ | .spreading [] => none
  | .armed _ => match s'.stageOf? e.generation with
    | some (.entering fanOut) => some (.began e.key e.generation fanOut)
    | _ => none
  | .entering _ | .inLine _ _ => match s'.stageOf? e.generation with
    | some (.running _ _) => some (.read task e.key)
    | none => some (.dropped task e.key)
    | _ => none
  | .settled answer _ => match s.newDelivery? s', answer with
    | some d, _ => some (.reported task e.key d.verdict)
    | none, .ok _ => some (.dropped task e.key)
    | none, .error p =>
      some (if e.stopped s then .dropped task e.key else .failed task e.key p)
  | .spreading (key :: _) =>
    if s.nextGeneration < s'.nextGeneration then some (.asked task key s.nextGeneration [])
    else none

/-- What is seen when a call takes a step. -/
def Call.seen (s : State) (c : Call) (s' : State) : Option Happening :=
  let task := Task.call c.id
  match c.stage with
  | .editing edited (job :: _) none =>
    if s.nextGeneration < s'.nextGeneration then
      some (.asked task job.key s.nextGeneration [edited])
    else match s'.callStage? c.id with
      | some (.editing _ _ (some _)) => some (.read task job.key)
      | _ => none
  | .editing _ _ (some (job, _)) => match s.newDelivery? s', s'.callStage? c.id with
    | some d, _ => some (.reported task job.key d.verdict)
    | none, some (.edited (.error p)) => some (.failed task job.key p)
    | none, some (.editing _ _ none) => some (.dropped task job.key)
    | none, _ => none
  | .called => match s'.callStage? c.id with
    | some (.surveying _) => some (.surveyed c.id)
    | _ => none
  | .delivering _ _ =>
    (s.newDelivery? s').map fun d => .reported task ⟨d.row, d.column⟩ d.verdict
  | _ => none

/-- What is seen at a move, by the states before and after it. -/
def seen (s : State) (move : Move) (s' : State) : Option Happening :=
  match move with
  | .setCell row column _ => some (.wrote row column)
  | .pushRow _ => some .pushed
  | .edit row column => if s.closed then none else some (.told s.nextCall row column)
  | .validateAll => some (.calledAll s.nextCall)
  | .shutDown => some .closed
  | .pass _ | .step (.strand _ _) => none
  | .step (.evaluation generation) | .takeSlot generation =>
    (s.evaluation? generation).bind fun e => e.seen s s'
  | .step (.call id) => (s.call? id).bind fun c => c.seen s s'

/-! ## Runs -/

/-- Moves lead from one state to another, and this was seen on the way. -/
inductive Run (u : Setup) (s : State) : List Happening → State → Prop
  | rest : Run u s [] s
  | move {h : List Happening} {s' s'' : State} (m : Move) :
      Run u s h s' → s'.move? u m = some s'' → Run u s (h ++ (seen s' m s'').toList) s''

/-- A move leads from one state to the other, and shows this. -/
def Step (u : Setup) (s : State) (x : Option Happening) (s' : State) : Prop :=
  ∃ m, s.move? u m = some s' ∧ seen s m s' = x

variable {u : Setup} {s s' s'' mid : State} {h h' : List Happening} {x : Happening}
  {y : Option Happening} {m : Move}

theorem Run.step (run : Run u s h s') (hstep : Step u s' y s'') :
    Run u s (h ++ y.toList) s'' := by
  obtain ⟨m, hm, rfl⟩ := hstep
  exact run.move m hm

theorem Run.trans (first : Run u s h s') (second : Run u s' h' s'') : Run u s (h ++ h') s'' := by
  induction second with
  | rest => simpa using first
  | move m _ hm ih => rw [← List.append_assoc]; exact .move m ih hm

theorem Run.one (hm : s.move? u m = some s') : Run u s (seen s m s').toList s' := by
  simpa using Run.move m .rest hm

/-- A task takes some steps. -/
def Task.steps (n : Nat) (task : Task) : List Move := List.replicate n (.step task)

/-- The run that some moves make, with what is seen of it, if each is possible. -/
def State.record? (u : Setup) (s : State) : List Move → Option (List Happening × State)
  | [] => some ([], s)
  | m :: moves =>
    (s.move? u m).bind fun s' =>
      (s'.record? u moves).map fun (h, s'') => ((seen s m s').toList ++ h, s'')

theorem Run.of_record? {moves : List Move} (hr : s.record? u moves = some (h, s')) :
    Run u s h s' := by
  induction moves generalizing s h with
  | nil =>
    simp only [State.record?, Option.some.injEq, Prod.mk.injEq] at hr
    obtain ⟨rfl, rfl⟩ := hr
    exact .rest
  | cons m moves ih =>
    simp only [State.record?, Option.bind_eq_some_iff, Option.map_eq_some_iff] at hr
    obtain ⟨mid, hm, ⟨h₂, s₂⟩, hrest, heq⟩ := hr
    obtain ⟨rfl, rfl⟩ := Prod.mk.inj heq
    exact (Run.one hm).trans (ih hrest)

/-! ## Moments of a run -/

/-- In the state `mid` of a run from `s` to `s'` the happening `x` was seen, after `h` and before
`h'`. -/
structure Moment (u : Setup) (s : State) (h : List Happening) (mid : State) (x : Happening)
    (h' : List Happening) (s' : State) : Prop where
  before : Run u s h mid
  after : ∃ next, Step u mid (some x) next ∧ Run u next h' s'

/-- A moment of a run is one of every longer run. -/
theorem Moment.extend (hm : Moment u s h mid x h' s') (hstep : Step u s' y s'') :
    Moment u s h mid x (h' ++ y.toList) s'' := by
  obtain ⟨next, hnext, hafter⟩ := hm.after
  exact ⟨hm.before, next, hnext, hafter.step hstep⟩

theorem Moment.later {h'' : List Happening} (hm : Moment u s h mid x h' s')
    (run : Run u s' h'' s'') : Moment u s h mid x (h' ++ h'') s'' := by
  obtain ⟨next, hnext, hafter⟩ := hm.after
  exact ⟨hm.before, next, hnext, hafter.trans run⟩

/-- What happens from a moment on. -/
theorem Moment.rest (hm : Moment u s h mid x h' s') : Run u mid (x :: h') s' := by
  obtain ⟨next, hnext, hafter⟩ := hm.after
  simpa using (Run.rest.step hnext).trans hafter

/-- What a step shows is the last moment of the run so far. -/
theorem Moment.last (hrun : Run u s h mid) (hstep : Step u mid (some x) s') :
    Moment u s h mid x [] s' :=
  ⟨hrun, s', hstep, .rest⟩

/-- Every happening of a run was seen in some state of it. -/
theorem Run.moment {h₁ h₂ : List Happening} (run : Run u s h s') (hx : h = h₁ ++ x :: h₂) :
    ∃ mid, Moment u s h₁ mid x h₂ s' := by
  induction run generalizing h₂ with
  | rest => simp at hx
  | @move h s₁ s₂ m hrun hm ih =>
    have hstep : Step u s₁ (seen s₁ m s₂) s₂ := ⟨m, hm, rfl⟩
    generalize hseen : seen s₁ m s₂ = y at hx hstep
    cases y with
    | none =>
      obtain ⟨mid, hmoment⟩ := ih (show h = h₁ ++ x :: h₂ by simpa using hx)
      exact ⟨mid, by simpa using hmoment.extend hstep⟩
    | some y =>
      rw [Option.toList_some] at hx
      rcases List.eq_nil_or_concat h₂ with rfl | ⟨h₃, z, rfl⟩
      · obtain ⟨rfl, hy⟩ := List.append_inj' hx rfl
        obtain rfl : y = x := by simpa using hy
        exact ⟨s₁, .last hrun hstep⟩
      · rw [List.concat_eq_append, ← List.cons_append, ← List.append_assoc] at hx
        obtain ⟨rfl, hy⟩ := List.append_inj' hx rfl
        obtain rfl : y = z := by simpa using hy
        obtain ⟨mid, hmoment⟩ := ih rfl
        exact ⟨mid, by simpa using hmoment.extend hstep⟩

/-! ## Order in a history -/

/-- Longer histories keep the order of what was seen. -/
theorem sublist_append_of_sublist {l : List Happening} (hl : l.Sublist h) (h' : List Happening) :
    l.Sublist (h ++ h') :=
  hl.trans (List.sublist_append_left h h')

/-- What is seen last is seen after everything before. -/
theorem sublist_concat {l : List Happening} (hl : l.Sublist h) (x : Happening) :
    (l ++ [x]).Sublist (h ++ [x]) :=
  hl.append (List.Sublist.refl [x])

end CellRules.Watch
