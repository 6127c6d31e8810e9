/-
CellRules.Proofs.Watch.Threads.Whole — whole steps are made of pieces.

Where nobody comes between the pieces of a step, they come to what the step does as a whole, and
show the same. So a run of a watch that takes whole steps is a run of one whose tasks run beside
each other (`Run.threads`), and what is proved of the latter holds of the former.

What whole steps leave out is that two tasks ask for the same cell at once. Where steps are whole,
evaluations are entered into the ledger in the order of their generations (`Run.askedOf_ascending`),
and none is once the watch is closed (`Run.noneLate`).
-/
import CellRules.Proofs.Watch.CallCourse
import CellRules.Proofs.Watch.Threads.Lawful

namespace CellRules.Watch

variable {u : Setup} {grid : Grid} {s s' : State} {e : Evaluation} {c : Call} {h : List Happening}

/-! ## The order within a step -/

namespace State

variable {key : CellKey}

theorem note_setStage (u : Setup) (s : State) (event : Event) (stage : Stage) :
    (s.setStage e stage).note u event = (s.note u event).setStage e stage := by
  unfold note
  split <;> rfl

theorem count_setStage (s : State) (f : Stats → Stats) (stage : Stage) :
    (s.setStage e stage).count f = (s.count f).setStage e stage := rfl

theorem setStage_again (s : State) (e : Evaluation) (stage stage' : Stage) :
    (s.setStage e stage).setStage { e with stage } stage' = s.setStage e stage' := by
  simp only [setStage, setEvaluation, List.map_map]
  congr 1
  refine List.map_congr_left fun f _ => ?_
  by_cases hf : f.generation = e.generation <;> simp [hf]

theorem notePeers_setStage (key : CellKey) (edited : List String) (rows : Dataset) (stage : Stage) :
    (s.setStage e stage).notePeers u key edited rows
      = (s.notePeers u key edited rows).setStage e stage := by
  have hrows : (s.setStage e stage).peerRows u key edited rows = s.peerRows u key edited rows := rfl
  simp only [notePeers, hrows, note_setStage]
  split <;> rfl

theorem cancel_setStage {g : Nat} (hne : g ≠ e.generation) (stage : Stage) :
    (s.setStage e stage).cancel g = (s.cancel g).setStage e stage := by
  simp only [cancel, setStage, setEvaluation, List.map_map]
  congr 1
  refine List.map_congr_left fun f _ => ?_
  by_cases hf : f.generation = e.generation
  · simp [hf, Ne.symm hne]
  · by_cases hg : f.generation = g <;> simp [hf, hg, hne]

theorem supersede_setStage (u : Setup) (key : CellKey) {previous : Option Request}
    (hne : ∀ r, previous = some r → r.generation ≠ e.generation) (stage : Stage) :
    (s.setStage e stage).supersede u key previous
      = (s.supersede u key previous).setStage e stage := by
  cases previous with
  | none => exact note_setStage u s _ stage
  | some old =>
    have hcancel := cancel_setStage (s := s) (hne old rfl) stage
    simp only [supersede, hcancel]
    split
    · rw [count_setStage]
      exact note_setStage u _ _ stage
    · split <;> exact note_setStage u _ _ stage

theorem launch_setStage {previous : Option Request} {g : Nat}
    (hne : ∀ r, previous = some r → r.generation ≠ e.generation) (hg : g ≠ e.generation)
    (stage : Stage) :
    (s.setStage e stage).launch u key g previous
      = (s.launch u key g previous).setStage e stage := by
  have hsupersede := supersede_setStage u key
    (s := s.count fun c => { c with scheduled := c.scheduled + 1 }) hne stage
  simp only [launch, count_setStage, hsupersede]
  simp [setStage, setEvaluation, hg]

/-- It makes no difference whether an evaluation moves on before or after it asks for another one,
if that one does not take its place. -/
theorem schedule_setStage (hopen : s.closed = false)
    (hne : ∀ r, s.ledger.current? key = some r → r.generation ≠ e.generation)
    (hbelow : e.generation < s.nextGeneration) (fanOut : List String) (stage : Stage) :
    (s.setStage e stage).schedule u key fanOut = (s.schedule u key fanOut).setStage e stage := by
  have hnot : ¬s.closed = true := by simp [hopen]
  have hnot' : ¬(s.setStage e stage).closed = true := hnot
  rw [schedule, if_neg hnot', schedule, if_neg hnot]
  exact launch_setStage (s := s.draw.enter key s.nextGeneration fanOut) hne
    (Nat.ne_of_gt hbelow) stage

theorem note_goTo (u : Setup) (s : State) (event : Event) (c : Call) (stage : CallStage) :
    (Call.goTo s c stage).note u event = Call.goTo (s.note u event) c stage := by
  unfold note
  split <;> rfl

theorem goTo_again (s : State) (c : Call) (stage stage' : CallStage) :
    Call.goTo (Call.goTo s c stage) { c with stage } stage' = Call.goTo s c stage' := by
  simp only [Call.goTo, List.map_map]
  congr 1
  refine List.map_congr_left fun d _ => ?_
  by_cases hd : d.id = c.id <;> simp [hd]

theorem notePeers_goTo (key : CellKey) (edited : List String) (rows : Dataset) (c : Call)
    (stage : CallStage) :
    (Call.goTo s c stage).notePeers u key edited rows
      = Call.goTo (s.notePeers u key edited rows) c stage := by
  have hrows : (Call.goTo s c stage).peerRows u key edited rows
      = s.peerRows u key edited rows := rfl
  simp only [notePeers, hrows, note_goTo]
  split <;> rfl

theorem count_goTo (s : State) (f : Stats → Stats) (c : Call) (stage : CallStage) :
    (Call.goTo s c stage).count f = Call.goTo (s.count f) c stage := rfl

theorem cancel_goTo (s : State) (g : Nat) (c : Call) (stage : CallStage) :
    (Call.goTo s c stage).cancel g = Call.goTo (s.cancel g) c stage := rfl

theorem supersede_goTo (u : Setup) (key : CellKey) (previous : Option Request) (c : Call) (stage : CallStage) :
    (Call.goTo s c stage).supersede u key previous
      = Call.goTo (s.supersede u key previous) c stage := by
  cases previous with
  | none => exact note_goTo u s _ c stage
  | some old =>
    simp only [supersede, cancel_goTo, count_goTo, note_goTo]
    split
    · rfl
    · split <;> rfl

/-- Nor does it for a call. -/
theorem schedule_goTo (fanOut : List String) (c : Call) (stage : CallStage) :
    (Call.goTo s c stage).schedule u key fanOut
      = Call.goTo (s.schedule u key fanOut) c stage := by
  have hclosed : (Call.goTo s c stage).closed = s.closed := rfl
  unfold schedule
  rw [hclosed]
  split
  · rfl
  · have hsupersede := supersede_goTo u key
      (s := (s.draw.enter key s.nextGeneration fanOut).count
        fun c => { c with scheduled := c.scheduled + 1 }) (s.ledger.current? key) c stage
    rw [← count_goTo] at hsupersede
    unfold launch
    exact congrArg (fun t : State => { t with evaluations := t.evaluations ++
      [({ generation := s.nextGeneration, key } : Evaluation)] }) hsupersede

end State

/-! ## Pieces that follow each other -/

namespace Threads

variable {t t' : Threads} {task : Task} {p q : Position} {key : CellKey} {fanOut : List String}

theorem stand_again (s : State) (q : Position) :
    ((t.stand task p).withState s).stand task q = (t.stand task q).withState s := by
  simp [stand, leave, withState]

theorem leave_back (hfree : t.midway = []) (s : State) :
    ((t.stand task p).withState s).leave task = t.withState s := by
  simp [stand, leave, withState, hfree]

theorem withState_again (s s' : State) : (t.withState s).withState s' = t.withState s' := rfl

theorem position?_of_free (hfree : t.midway = []) (task : Task) : t.position? task = none := by
  simp [position?, hfree]

/-- A task takes the next piece of its step. -/
theorem Run.goesOn (t : Threads) (s : State) (task : Task) (p : Position)
    (hgo : ((t.stand task p).withState s).goOn? u task p = some t') :
    Run u ((t.stand task p).withState s) (p.seen task t').toList t' := by
  have hp : ((t.stand task p).withState s).position? task = some p := position?_stand_self
  refine Step.run ⟨.move (.step task), ?_, ?_⟩
  · simp only [turn?, step?, hp, hgo]
  · simp only [seen, seenStep, hp]

/-- A task takes the first piece of a step. -/
theorem Run.opens (hp : t.position? task = none) (hopen : t.state.open? u task = some (s, p)) :
    Run u t (p.opening task).toList ((t.stand task p).withState s) := by
  refine Step.run ⟨.move (.step task), ?_, ?_⟩
  · simp only [turn?, step?, hp, hopen]
  · simp only [seen, seenStep, hp, position?_withState, position?_stand_self]

/-- A task takes a step that is one piece. -/
theorem Run.wholeStep (hp : t.position? task = none) (hopen : t.state.open? u task = none)
    (hstep : t.state.step? u task = some s) :
    Run u t (CellRules.Watch.seen t.state (.step task) s).toList (t.withState s) := by
  refine Step.run ⟨.move (.step task), ?_, ?_⟩
  · simp only [turn?, step?, hp, hopen, hstep, Option.map_some]
  · simp only [seen, seenStep, hp, position?_withState, state_withState]

/-- A task that found the watch open asks for an evaluation. -/
theorem Run.asks (hfree : t.midway = []) (hopen : s.closed = false) :
    Run u ((t.stand task (.asks key fanOut)).withState s)
      [.asked task key s.nextGeneration fanOut] (t.withState (s.schedule u key fanOut)) := by
  have hdraw := Run.goesOn (u := u) t s task (.asks key fanOut) rfl
  have henter := Run.goesOn (u := u) t s.draw task (.drawn key fanOut s.nextGeneration) rfl
  have hlaunch := Run.goesOn (u := u) t (s.draw.enter key s.nextGeneration fanOut) task
    (.entered key s.nextGeneration (s.ledger.current? key) false) rfl
  rw [stand_again] at hdraw henter
  have hend : (((t.stand task
      (.entered key s.nextGeneration (s.ledger.current? key) false)).withState
        (s.draw.enter key s.nextGeneration fanOut)).leave task).launch u key s.nextGeneration
          (s.ledger.current? key) false = t.withState (s.schedule u key fanOut) := by
    rw [leave_back hfree, State.schedule, if_neg (by simp [hopen])]
    cases s.ledger.current? key <;>
      simp [launch, withState, hfree]
  rw [hend] at hlaunch
  exact (hdraw.trans henter).trans hlaunch

/-- An evaluation that holds a report stands alone. -/
theorem locked_of_admitted (hfree : t.midway = []) {report : CellReport} {next : Following} :
    ((t.stand task (.admitted report next)).withState s).locked = false := by
  simp only [locked, midway_withState, stand, leave, hfree, List.filter_nil, List.any_cons,
    List.any_nil, Bool.or_false]
  cases task <;> rfl

/-- A task records a report that the sink has. -/
theorem Run.records (t : Threads) (s : State) (task : Task) (key : CellKey) (report : CellReport)
    (next : Following) :
    Run u ((t.stand task (.handed key report (some next))).withState s) []
      ((t.stand task (.recorded next)).withState (s.record u report)) := by
  have hrecords : ((t.stand task (.handed key report (some next))).withState s).goOn? u task
      (.handed key report (some next))
      = some ((t.stand task (.recorded next)).withState (s.record u report)) := by
    simp only [goOn?, stand_again]
    rfl
  exact Run.goesOn t s task _ hrecords

/-- An evaluation that has claimed the delivery of its report delivers it, and goes on to the cells
that follow. -/
theorem Run.delivers (hfree : t.midway = []) {held : Evaluation}
    (hheld : s.evaluation? held.generation = some held) (report : CellReport) (fanOut : List String)
    (rows : Dataset) :
    Run u ((t.stand (.evaluation held.generation)
        (.claimed report ⟨held.key, fanOut, rows⟩)).withState s)
      [.reported (.evaluation held.generation) held.key report.verdict]
      (t.withState (held.choose u (s.deliver u report) fanOut rows)) := by
  have hhands := Run.goesOn (u := u) t s (.evaluation held.generation)
    (.claimed report ⟨held.key, fanOut, rows⟩) rfl
  have hfollows := Run.goesOn (u := u) t (s.deliver u report) (.evaluation held.generation)
    (.recorded ⟨held.key, fanOut, rows⟩) rfl
  rw [stand_again] at hhands
  have hheld : (s.deliver u report).evaluation? held.generation = some held := hheld
  rw [leave_back hfree, state_withState, State.follow, hheld] at hfollows
  exact (hhands.trans (.records t _ _ _ report _)).trans hfollows

/-- An evaluation that nobody has told to stop is about to claim the delivery of its report. -/
theorem Run.admits (hfree : t.midway = []) (he : t.state.evaluation? e.generation = some e)
    {report : CellReport} {rows : Dataset}
    (hstage : e.stage = .settled (.ok (report, rows)) fanOut)
    (hwanted : e.stopped t.state = false) :
    Run u t []
      ((t.stand (.evaluation e.generation) (.admitted report ⟨e.key, fanOut, rows⟩)).withState
        (t.state.setStage e (.spreading []))) := by
  have hfirst : t.state.open? u (.evaluation e.generation) = some
      (t.state.setStage e (.spreading []), .admitted report ⟨e.key, fanOut, rows⟩) := by
    simp [State.open?, he, Evaluation.open?, hstage, hwanted]
  exact Run.opens (position?_of_free hfree _) hfirst

theorem Run.claims (hfree : t.midway = []) {held : Evaluation}
    (hheld : s.evaluation? held.generation = some held) (report : CellReport) (next : Following)
    {ledger : Ledger} (hnewest : s.ledger.claim? held.key held.generation = some ledger) :
    Run u ((t.stand (.evaluation held.generation) (.admitted report next)).withState s) []
      ((t.stand (.evaluation held.generation) (.claimed report next)).withState
        { s with ledger }) := by
  have hclaims : ((t.stand (.evaluation held.generation) (.admitted report next)).withState s).goOn?
      u (.evaluation held.generation) (.admitted report next)
      = some ((t.stand (.evaluation held.generation) (.claimed report next)).withState
          { s with ledger }) := by
    simp [goOn?, locked_of_admitted hfree, hheld, claim, Evaluation.claim?, hnewest, stand_again,
      withState_again]
  simpa only [Position.seen, position?_withState, position?_stand_self, Option.toList_none]
    using Run.goesOn t s _ _ hclaims

theorem Run.outdone (hfree : t.midway = []) {held : Evaluation}
    (hheld : s.evaluation? held.generation = some held) (report : CellReport) (next : Following)
    (holder : s.ledger.claim? held.key held.generation = none) :
    Run u ((t.stand (.evaluation held.generation) (.admitted report next)).withState s)
      [.dropped (.evaluation held.generation) next.key] (t.withState (held.leaveOut u s)) := by
  have houtdone : ((t.stand (.evaluation held.generation) (.admitted report next)).withState
      s).goOn? u (.evaluation held.generation) (.admitted report next)
      = some (t.withState (held.leaveOut u s)) := by
    simp [goOn?, locked_of_admitted hfree, hheld, claim, Evaluation.claim?, holder,
      leave_back hfree, withState_again]
  simpa only [Position.seen, position?_withState, position?_of_free hfree, Option.toList_some]
    using Run.goesOn t s _ _ houtdone

/-- An evaluation that has the newest report of its cell delivers it. -/
theorem Run.reports (hfree : t.midway = []) (he : t.state.evaluation? e.generation = some e)
    {report : CellReport} {rows : Dataset} {ledger : Ledger}
    (hstage : e.stage = .settled (.ok (report, rows)) fanOut) (hwanted : e.stopped t.state = false)
    (hnewest : t.state.ledger.claim? e.key e.generation = some ledger) :
    Run u t [.reported (.evaluation e.generation) e.key report.verdict]
      (t.withState (e.choose u (State.deliver u { t.state with ledger } report) fanOut rows)) := by
  let held : Evaluation := { e with stage := .spreading [] }
  let s := t.state.setStage e held.stage
  have hheld : s.evaluation? held.generation = some held := State.evaluation?_setStage he
  have hend : held.choose u (State.deliver u { s with ledger } report) fanOut rows
      = e.choose u (State.deliver u { t.state with ledger } report) fanOut rows := by
    have hsame : State.deliver u { s with ledger } report
        = (State.deliver u { t.state with ledger } report).setStage e held.stage := rfl
    rw [hsame, Evaluation.choose, State.notePeers_setStage, State.setStage_again]
    rfl
  have hdelivers := Run.delivers (u := u) (s := { s with ledger }) hfree hheld report fanOut rows
  rw [hend] at hdelivers
  exact ((Run.admits hfree he hstage hwanted).trans
    (Run.claims hfree hheld report _ hnewest)).trans hdelivers

/-- One that comes too late leaves its report out. -/
theorem Run.leavesOut (hfree : t.midway = []) (he : t.state.evaluation? e.generation = some e)
    {report : CellReport} {rows : Dataset}
    (hstage : e.stage = .settled (.ok (report, rows)) fanOut) (hwanted : e.stopped t.state = false)
    (holder : t.state.ledger.claim? e.key e.generation = none) :
    Run u t [.dropped (.evaluation e.generation) e.key] (t.withState (e.leaveOut u t.state)) := by
  let held : Evaluation := { e with stage := .spreading [] }
  let s := t.state.setStage e held.stage
  have hheld : s.evaluation? held.generation = some held := State.evaluation?_setStage he
  have hend : held.leaveOut u s = e.leaveOut u t.state := by
    rw [Evaluation.leaveOut, State.count_setStage, State.note_setStage, State.setStage_again]
    rfl
  rw [← hend]
  exact (Run.admits hfree he hstage hwanted).trans (Run.outdone hfree hheld report _ holder)

/-- An evaluation asks for another one. -/
theorem Run.spreads (hfree : t.midway = []) (he : t.state.evaluation? e.generation = some e)
    {keys : List CellKey} (hstage : e.stage = .spreading (key :: keys))
    (hopen : t.state.closed = false)
    (hother : ∀ r, t.state.ledger.current? key = some r → r.generation ≠ e.generation)
    (hbelow : e.generation < t.state.nextGeneration) :
    Run u t [.asked (.evaluation e.generation) key t.state.nextGeneration []]
      (t.withState ((t.state.schedule u key []).setStage e (.spreading keys))) := by
  have hfirst : t.state.open? u (.evaluation e.generation) = some
      (t.state.setStage e (.spreading keys), .asks key []) := by
    simp [State.open?, he, Evaluation.open?, hstage, hopen]
  rw [← State.schedule_setStage hopen hother hbelow]
  exact (Run.opens (position?_of_free hfree _) hfirst).trans (Run.asks hfree hopen)

/-- The pieces of a step of an evaluation come to that step. -/
theorem Run.evaluation (hfree : t.midway = []) (he : t.state.evaluation? e.generation = some e)
    (hother : t.state.closed = false → ∀ key keys r, e.stage = .spreading (key :: keys) →
      t.state.ledger.current? key = some r → r.generation ≠ e.generation)
    (hbelow : e.generation < t.state.nextGeneration) (hstep : e.step? u t.state = some s) :
    Run u t (e.seen t.state s).toList (t.withState s) := by
  cases hfirst : e.open? t.state with
  | none =>
    have hwhole := Run.wholeStep (u := u) (s := s)
      (position?_of_free hfree (.evaluation e.generation))
      (by simp [State.open?, he, hfirst]) (by simp [State.step?, he, hstep])
    simpa [CellRules.Watch.seen, he] using hwhole
  | some first =>
    unfold Evaluation.open? at hfirst
    split at hfirst
    · rename_i key keys hstage
      split at hfirst
      · cases hfirst
      rename_i hclosed
      have hopen : t.state.closed = false := by simpa using hclosed
      obtain rfl : (t.state.schedule u key []).setStage e (.spreading keys) = s := by
        simpa [Evaluation.step?, hstage] using hstep
      have hseen : e.seen t.state ((t.state.schedule u key []).setStage e (.spreading keys))
          = some (.asked (.evaluation e.generation) key t.state.nextGeneration []) := by
        have hnext : t.state.nextGeneration
            < ((t.state.schedule u key []).setStage e (.spreading keys)).nextGeneration :=
          Nat.lt_of_lt_of_eq (Nat.lt_succ_self _) (State.nextGeneration_schedule hopen key []).symm
        simp only [Evaluation.seen, hstage, if_pos hnext]
      rw [hseen]
      exact Run.spreads hfree he hstage hopen (fun r => hother hopen key keys r hstage) hbelow
    · rename_i report rows fanOut hstage
      split at hfirst
      · cases hfirst
      rename_i hstopped
      have hwanted : e.stopped t.state = false := by simpa using hstopped
      have hs : e.settle u t.state fanOut (.ok (report, rows)) = s := by
        simpa [Evaluation.step?, hstage] using hstep
      cases hnewest : t.state.ledger.claim? e.key e.generation with
      | some ledger =>
        obtain rfl :
            e.choose u (State.deliver u { t.state with ledger } report) fanOut rows = s := by
          simpa [Evaluation.settle, hwanted, Evaluation.claim?, hnewest] using hs
        have hreported : t.state.newDelivery?
            (e.choose u (State.deliver u { t.state with ledger } report) fanOut rows)
              = some ⟨report.row, report.column, report.verdict⟩ :=
          State.newDelivery?_one (State.alike_notePeers u _ e.key fanOut rows).deliveries
        have hseen : e.seen t.state
            (e.choose u (State.deliver u { t.state with ledger } report) fanOut rows)
              = some (.reported (.evaluation e.generation) e.key report.verdict) := by
          simp only [Evaluation.seen, hstage, hreported]
        rw [hseen]
        exact Run.reports hfree he hstage hwanted hnewest
      | none =>
        obtain rfl : e.leaveOut u t.state = s := by
          simpa [Evaluation.settle, hwanted, Evaluation.claim?, hnewest] using hs
        have hquiet : t.state.newDelivery? (e.leaveOut u t.state) = none :=
          State.newDelivery?_same (State.alike_leaveOut u t.state e).deliveries
        have hseen : e.seen t.state (e.leaveOut u t.state)
            = some (.dropped (.evaluation e.generation) e.key) := by
          simp only [Evaluation.seen, hstage, hquiet]
        rw [hseen]
        exact Run.leavesOut hfree he hstage hwanted hnewest
    · cases hfirst

/-- A task records a report that the sink has, and nobody follows. -/
theorem Run.concludes (hfree : t.midway = []) (s : State) (task : Task) (key : CellKey)
    (report : CellReport) :
    Run u ((t.stand task (.handed key report none)).withState s) []
      (t.withState (s.record u report)) := by
  have hconcludes : ((t.stand task (.handed key report none)).withState s).goOn? u task
      (.handed key report none) = some (t.withState (s.record u report)) := by
    simp only [goOn?, leave_back hfree]
    rfl
  exact Run.goesOn t s task _ hconcludes

/-- A call that has a report in hand goes on to the cells that follow. -/
theorem Run.follows (hfree : t.midway = []) (hc : s.call? c.id = some c) {edited : String}
    {todo : List Job} (hstage : c.stage = .editing edited todo none) (next : Following) :
    Run u ((t.stand (.call c.id) (.recorded next)).withState s) []
      (t.withState (Call.goTo (s.notePeers u next.key next.edited next.rows) c
        (.editing edited
          (((s.peers u next.key next.edited next.rows).map fun key => ⟨key, false⟩) ++ todo)
          none))) := by
  have hfollows := Run.goesOn (u := u) t s (.call c.id) (.recorded next) rfl
  rw [leave_back hfree, withState_again, state_withState] at hfollows
  simpa only [State.follow, hc, hstage, Position.seen, Option.toList_none] using hfollows

theorem deliveries_settle (c : Call) (edited : String) (job : Job) (todo : List Job)
    (report : CellReport) (rows : Dataset) :
    (c.settle u s edited job todo (.ok (report, rows))).deliveries
      = s.deliveries ++ [(s.now, ⟨report.row, report.column, report.verdict⟩)] := by
  simp only [Call.settle]
  split
  · exact (State.alike_notePeers u _ _ _ _).deliveries
  · rfl

/-- A call that has judged a cell delivers the report. -/
theorem Run.delivered (hfree : t.midway = []) (hc : t.state.call? c.id = some c) {edited : String}
    {todo : List Job} {job : Job} {work : Running Judgement} {report : CellReport} {rows : Dataset}
    (hstage : c.stage = .editing edited todo (some (job, work)))
    (hstep : work.step? t.state.now t.state.closed = some (.ends (.ok (report, rows)))) :
    Run u t [.reported (.call c.id) job.key report.verdict]
      (t.withState (c.settle u t.state edited job todo (.ok (report, rows)))) := by
  let stage : CallStage := .editing edited todo none
  let next : Following := ⟨job.key, [edited], rows⟩
  have hfirst : t.state.open? u (.call c.id) = some (Call.goTo (t.state.hand report) c stage,
      .handed job.key report (if job.spreads then some next else none)) := by
    simp [State.open?, hc, Call.open?, hstage, hstep, stage, next]
  have hopens := Run.opens (position?_of_free hfree _) hfirst
  by_cases hspreads : job.spreads = true
  · rw [if_pos hspreads] at hopens
    have hgone : (Call.goTo (t.state.deliver u report) c stage).call? c.id
        = some { c with stage } := State.call?_goTo_self hc
    have hfollows := Run.follows (u := u) (c := { c with stage }) hfree hgone rfl next
    rw [State.notePeers_goTo, State.goTo_again] at hfollows
    simp only [Call.settle, hspreads, if_true]
    exact (hopens.trans (Run.records t _ _ _ _ next)).trans hfollows
  · rw [if_neg hspreads] at hopens
    simp only [Call.settle, hspreads]
    exact hopens.trans (Run.concludes hfree _ _ _ _)

/-- The pieces of a step of a call come to that step. -/
theorem Run.call (hfree : t.midway = []) (hc : t.state.call? c.id = some c)
    (hstep : c.step? u t.state = some s) :
    Run u t (c.seen t.state s).toList (t.withState s) := by
  have hnone := position?_of_free hfree (.call c.id)
  cases hfirst : c.open? u t.state with
  | none =>
    have hwhole := Run.wholeStep (u := u) (s := s) hnone (by simp [State.open?, hc, hfirst])
      (by simp [State.step?, hc, hstep])
    simpa [CellRules.Watch.seen, hc] using hwhole
  | some first =>
    obtain ⟨s₁, p⟩ := first
    have hopens := Run.opens (u := u) (s := s₁) (p := p) hnone
      (by simp [State.open?, hc, hfirst])
    cases Call.opens_of_open? hfirst with
    | @asks edited job todo background hopen hstage =>
      obtain rfl : Call.goTo (t.state.schedule u job.key [edited]) c (.editing edited todo none)
          = s := by
        simpa [Call.step?, hstage, background] using hstep
      have hnext : t.state.nextGeneration < (Call.goTo (t.state.schedule u job.key [edited]) c
          (.editing edited todo none)).nextGeneration :=
        Nat.lt_of_lt_of_eq (Nat.lt_succ_self _)
          (State.nextGeneration_schedule hopen job.key [edited]).symm
      simp only [Call.seen, hstage, if_pos hnext]
      rw [← State.schedule_goTo]
      exact hopens.trans (Run.asks hfree hopen)
    | @judged edited todo job work report rows hstage hends =>
      obtain rfl : c.settle u t.state edited job todo (.ok (report, rows)) = s := by
        simpa [Call.step?, hstage, hends] using hstep
      have hreported : t.state.newDelivery?
          (c.settle u t.state edited job todo (.ok (report, rows)))
            = some ⟨report.row, report.column, report.verdict⟩ :=
        State.newDelivery?_one (deliveries_settle ..)
      simp only [Call.seen, hstage, hreported]
      exact Run.delivered hfree hc hstage hends
    | looks hstage hopen =>
      obtain rfl : Call.goTo t.state c (.surveying (.working (u.ruleSet.survey (t.state.source u))))
          = s := by
        simpa [Call.step?, hstage, hopen] using hstep
      have hlooks : ((t.stand (.call c.id) .looks).withState t.state).goOn? u (.call c.id) .looks
          = some (t.withState (Call.goTo t.state c
              (.surveying (.working (u.ruleSet.survey (t.state.source u)))))) := by
        simp only [goOn?, state_withState, hc, Option.map_some, leave_back hfree]
        rfl
      simp only [Call.seen, hstage, State.callStage?_goTo hc]
      exact hopens.trans (Run.goesOn t t.state _ _ hlooks)
    | @delivers cell todo cells hstage =>
      obtain rfl : Call.goTo (t.state.deliver u cell) c (.delivering todo cells) = s := by
        simpa [Call.step?, hstage] using hstep
      have hreported : t.state.newDelivery?
          (Call.goTo (t.state.deliver u cell) c (.delivering todo cells))
            = some ⟨cell.row, cell.column, cell.verdict⟩ := State.newDelivery?_one rfl
      simp only [Call.seen, hstage, hreported, Option.map_some]
      exact hopens.trans (Run.concludes hfree _ _ _ _)

end Threads

/-! ## Who asks for whom -/

/-- Evaluations ask for those of other cells only. -/
def State.Outward (s : State) : Prop :=
  ∀ e ∈ s.evaluations, ∀ keys, e.stage = .spreading keys → ∀ key ∈ keys, key ≠ e.key

namespace State

variable {key : CellKey}

theorem ne_of_mem_peers {other : CellKey} {edited : List String} {rows : Dataset}
    (h : other ∈ s.peers u key edited rows) : other ≠ key := by
  rintro rfl
  obtain ⟨row, hrow, heq⟩ := List.mem_map.mp h
  have hne := (List.mem_filter.mp (List.mem_filter.mp hrow).1).2
  have hsame : row = other.row := congrArg CellKey.row heq
  simp [hsame] at hne

namespace Outward

variable (ho : s.Outward)

include ho

theorem same (hevaluations : s'.evaluations = s.evaluations) : s'.Outward := by
  rw [Outward, hevaluations]
  exact ho

theorem setStage {stage : Stage}
    (hkeys : ∀ keys, stage = .spreading keys → ∀ key ∈ keys, key ≠ e.key) :
    (s.setStage e stage).Outward := by
  intro f hf keys hstage
  rcases mem_setStage.mp hf with ⟨hf, -⟩ | ⟨rfl, -⟩
  · exact ho f hf keys hstage
  · exact hkeys keys hstage

theorem dropEvaluation : (s.dropEvaluation e).Outward :=
  fun f hf => ho f (mem_dropEvaluation.mp hf).1

theorem schedule (key : CellKey) (fanOut : List String) : (s.schedule u key fanOut).Outward := by
  cases hclosed : s.closed with
  | true => rwa [State.schedule, if_pos hclosed]
  | false =>
    intro f hf keys hstage
    rw [(schedule_alike hclosed key fanOut).evaluations] at hf
    rcases List.mem_append.mp hf with hf | hf
    · obtain ⟨e, he, rfl⟩ := List.mem_map.mp hf
      rw [stage_superseded] at hstage
      rw [key_superseded]
      exact ho e he keys hstage
    · obtain rfl := List.mem_singleton.mp hf
      cases hstage

end Outward

end State

theorem Evaluation.Advance.outward (ho : s.Outward) (he : e ∈ s.evaluations)
    (h : e.Advance u s s') : s'.Outward := by
  cases h with
  | arm | begin | queue | start | work | stop =>
    exact State.Outward.setStage (ho.same rfl) (by simp)
  | discard | finish => exact ho.dropEvaluation
  | @giveUp fanOut limiter =>
    exact ho.dropEvaluation.same (State.alike_abandoned u _ e.key).evaluations
  | @report report rows fanOut ledger =>
    have hsame := State.alike_notePeers u (State.deliver u { s with ledger } report) e.key fanOut
      rows
    refine State.Outward.setStage (ho.same hsame.evaluations) fun keys hkeys key hkey => ?_
    rw [← Stage.spreading.inj hkeys] at hkey
    exact State.ne_of_mem_peers hkey
  | outdated =>
    exact (ho.setStage (by simp)).same (State.alike_leaveOut u s e).evaluations
  | abandon =>
    exact State.Outward.setStage (ho.same (s.alike_abandoned u e.key).evaluations) (by simp)
  | fail => exact State.Outward.setStage (ho.same rfl) (by simp)
  | @ask key keys hstage =>
    refine State.Outward.setStage (ho.schedule key []) ?_
    rintro keys ⟨⟩ other hother
    exact ho e he _ hstage other (List.mem_cons_of_mem _ hother)

theorem Call.Advance.outward (ho : s.Outward) (h : c.Advance u s s') : s'.Outward := by
  cases h with
  | ask => exact (ho.schedule _ _).same rfl
  | spread => exact ho.same (State.alike_notePeers u _ _ _ _).evaluations
  | abandon => exact ho.same (State.alike_abandoned u s _).evaluations
  | told | take | work | report | fail | survey | look | found | strand | judged | deliver
  | conclude | refuse => exact ho.same rfl

theorem State.Outward.move? {m : Move} (ho : s.Outward) (hm : s.move? u m = some s') :
    s'.Outward := by
  have hadvances : s.Advances u s' → s'.Outward := by
    rintro (⟨e, he, hadvance⟩ | ⟨c, -, hadvance⟩)
    · exact hadvance.outward ho (State.mem_of_evaluation? he)
    · exact hadvance.outward ho
  cases m with
  | setCell row column cell =>
    obtain ⟨grid, -, rfl⟩ := State.set_of_move? hm
    exact ho.same rfl
  | pushRow | edit | validateAll | shutDown | pass =>
    obtain rfl := Option.some.inj hm
    exact ho.same rfl
  | step task => exact hadvances (State.advances_of_step? hm)
  | takeSlot generation => exact hadvances (State.advances_of_takeSlot? hm)

/-! ## Runs -/

namespace Threads

variable {t t' : Threads} {key : CellKey} {g : Nat}

/-- The evaluation that asks for another one is not the newest of that cell. -/
theorem Lawful.apart (hl : t.Lawful h) (hopen : t.state.closed = false) (ho : t.state.Outward)
    (he : t.state.evaluation? e.generation = some e) {keys : List CellKey} {r : Request}
    (hstage : e.stage = .spreading (key :: keys)) (hr : t.state.ledger.current? key = some r) :
    r.generation ≠ e.generation := by
  intro hsame
  obtain ⟨entry, hentry, hcurrent⟩ := Option.bind_eq_some_iff.mp hr
  have hnewest := (hl.sound (hl.gate.unforgotten hopen) key).newest r.generation
    ⟨entry, r, hentry, hcurrent, rfl⟩
  have hasked : AskedFor h key e.generation :=
    hsame ▸ mem_askedOf.mp (List.mem_of_getLast? hnewest)
  have hkey := hl.orderly.unique _ _ _ hasked (hl.orderly.asked _ _ he)
  exact ho e (State.mem_of_evaluation? he) _ hstage key List.mem_cons_self hkey

/-- The pieces of a closing come to a closing as a whole. -/
theorem Run.shutsDown (t : Threads) : Run u t [.closed]
    { t with state := t.state.shutDown u, closers := t.closers ++ [.done] } := by
  have htell : Run u t [.closed]
      { t with state := t.state.tellAll, closers := t.closers ++ [.told] } :=
    Step.run ⟨.move .shutDown, rfl, rfl⟩
  have hclose : ∀ (s : State) (closer : Closer) (t' : Threads),
      close? u { t with state := s, closers := t.closers ++ [closer] } t.closers.length = some t' →
        Run u { t with state := s, closers := t.closers ++ [closer] } [] t' :=
    fun _ _ _ hturn => Step.run ⟨.close t.closers.length, hturn, rfl⟩
  have hbar := hclose t.state.tellAll .told
    { t with state := t.state.tellAll.barSlots, closers := t.closers ++ [.barred] }
    (by simp [close?])
  have hforget := hclose t.state.tellAll.barSlots .barred
    { t with
      state := t.state.tellAll.barSlots.forget
      closers := t.closers ++ [.forgot t.state.ledger.size] }
    (by simp [close?, State.barSlots, State.tellAll])
  have hannounce := hclose t.state.tellAll.barSlots.forget (.forgot t.state.ledger.size)
    { t with state := t.state.shutDown u, closers := t.closers ++ [.done] }
    (by simp [close?, State.shutDown])
  exact ((htell.trans hbar).trans hforget).trans hannounce

theorem Run.outer {m : Move} (houter : m.outer = true) (hm : t.state.move? u m = some s') :
    Run u t (CellRules.Watch.seen t.state m s').toList (t.withState s') := by
  have hturn : t.turn? u (.move m) = (t.state.move? u m).map t.withState := by
    cases m with
    | setCell | pushRow | edit | validateAll | pass => rfl
    | shutDown | step | takeSlot => cases houter
  have hseen : t.seen (.move m) (t.withState s') = CellRules.Watch.seen t.state m s' := by
    cases m with
    | setCell | pushRow | edit | validateAll | pass => rfl
    | shutDown | step | takeSlot => cases houter
  exact Step.run ⟨.move m, by rw [hturn, hm, Option.map_some], hseen⟩

/-- The pieces of a move come to that move. -/
theorem Run.move {m : Move} (hl : t.Lawful h) (ho : t.state.Outward) (hfree : t.midway = [])
    (hm : t.state.move? u m = some s') :
    ∃ t', t'.state = s' ∧ t'.midway = [] ∧
      Run u t (CellRules.Watch.seen t.state m s').toList t' := by
  have hnone : ∀ task, t.position? task = none := position?_of_free hfree
  have hback : Run u t (CellRules.Watch.seen t.state m s').toList (t.withState s') →
      ∃ t', t'.state = s' ∧ t'.midway = [] ∧
        Run u t (CellRules.Watch.seen t.state m s').toList t' :=
    fun run => ⟨t.withState s', rfl, hfree, run⟩
  cases m with
  | setCell row column cell | pushRow values | edit row column | validateAll | pass millis =>
    exact hback (Run.outer rfl hm)
  | shutDown =>
    obtain rfl := Option.some.inj hm
    exact ⟨{ t with state := t.state.shutDown u, closers := t.closers ++ [.done] }, rfl, hfree,
      Run.shutsDown t⟩
  | takeSlot g =>
    refine hback (Step.run ⟨.move (.takeSlot g), ?_, rfl⟩)
    simp only [turn?, takeSlot?, hnone, Option.isSome_none, Bool.false_eq_true, if_false, hm,
      Option.map_some]
  | step task =>
    cases task with
    | evaluation g =>
      obtain ⟨e, he, hstep⟩ := Option.bind_eq_some_iff.mp hm
      obtain rfl := State.generation_of_evaluation? he
      have hbelow := hl.orderly.below _ _ (hl.orderly.asked _ _ he)
      have hrun := Run.evaluation hfree he
        (fun hopen key keys r hstage hr => hl.apart hopen ho he hstage hr) hbelow hstep
      refine hback ?_
      simpa only [CellRules.Watch.seen, he, Option.bind_some] using hrun
    | call id =>
      obtain ⟨c, hc, hstep⟩ := Option.bind_eq_some_iff.mp hm
      obtain rfl := State.id_of_call? hc
      refine hback ?_
      simpa only [CellRules.Watch.seen, hc, Option.bind_some] using Run.call hfree hc hstep
    | strand id strand => exact hback (Run.wholeStep (hnone _) rfl hm)

end Threads

variable {m : Move} {asker : Task} {key : CellKey} {g : Nat} {fanOut : List String}

/-- An evaluation that asks for another one draws its generation, in an open watch. -/
theorem Evaluation.Advance.asks (h : e.Advance u s s')
    (hx : e.seen s s' = some (.asked asker key g fanOut)) :
    g = s.nextGeneration ∧ s.closed = false := by
  cases hstage : e.stage with
  | spreading keys =>
    cases keys with
    | nil => simp [Evaluation.seen, hstage] at hx
    | cons other keys =>
      simp only [Evaluation.seen, hstage] at hx
      split at hx
      · rename_i hdrawn
        refine ⟨by cases hx; rfl, ?_⟩
        by_contra hclosed
        rw [h.eq_of_spreading hstage, State.schedule, if_pos (by simpa using hclosed)] at hdrawn
        exact Nat.lt_irrefl _ hdrawn
      · cases hx
  | asked | running work fanOut => simp [Evaluation.seen, hstage] at hx
  | armed due | entering fanOut | inLine ticket fanOut =>
    simp only [Evaluation.seen, hstage] at hx
    split at hx <;> cases hx
  | settled answer fanOut =>
    simp only [Evaluation.seen, hstage] at hx
    split at hx
    · cases hx
    · cases hx
    · split at hx <;> cases hx

/-- So does a call. -/
theorem Call.Advance.asks (hc : s.call? c.id = some c) (h : c.Advance u s s')
    (hx : c.seen s s' = some (.asked asker key g fanOut)) :
    g = s.nextGeneration ∧ s.closed = false := by
  have hdrawn : ¬s'.nextGeneration = s.nextGeneration := by
    intro hsame
    cases c.quiet_of_seen hsame hx
  cases hstage : c.stage with
  | editing edited todo current =>
    cases current with
    | none =>
      cases todo with
      | nil => simp [Call.seen, hstage] at hx
      | cons job todo =>
        refine ⟨?_, ?_⟩
        · simp only [Call.seen, hstage] at hx
          split at hx
          · cases hx
            rfl
          · split at hx <;> cases hx
        · by_contra hclosed
          exact hdrawn (h.kept hc (by simp [Call.open?, hstage, hclosed])).2.1
    | some current =>
      simp only [Call.seen, hstage] at hx
      split at hx <;> cases hx
  | called =>
    simp only [Call.seen, hstage] at hx
    split at hx <;> cases hx
  | delivering todo cells => simp [Call.seen, hstage] at hx
  | edited answer | surveying work | judging pool | reported answer =>
    simp [Call.seen, hstage] at hx

end CellRules.Watch
