/-
CellRules.Proofs.Watch.OneSnapshot — what a report of all rows counts in a watch.

A call for all rows looks at the grid in one step and makes its report in a later one, and in
between the grid may be edited. In every run, in the background or not, open or closed, the steps of
the call lead from the look to the report (`AllRowsStep`), so that what it judged at each stage is
what it saw at the look (`BorneOut`): the batches answer for the rows of that time, and only the number
of rows is read when the report is made. `report_of_one_snapshot_iff` says what follows for the
counts, here and for a run by itself.
-/
import CellRules.Proofs.RuleSet.OneSnapshot
import CellRules.Proofs.Watch.AllRows
import CellRules.Proofs.Watch.Clock
import Mathlib.Data.List.Induction

namespace CellRules.Watch

variable {u : Setup} {grid : Grid} {s s' t looked ended : State} {c d : Call} {m : Move}
  {moves between after : List Move} {id : Nat} {stage : CallStage} {report : Report}

/-! ## The grid of a run -/

/-- The edit of the grid that a move makes. -/
def Move.edit? : Move → Option Grid.Edit
  | .setCell row column cell => some (.set row column cell)
  | .pushRow values => some (.push values)
  | _ => none

/-- The edits of the grid that some moves make. -/
def editsOf (moves : List Move) : List Grid.Edit := moves.filterMap Move.edit?

theorem State.moveAll?_append (s : State) (moves after : List Move) :
    s.moveAll? u (moves ++ after) = (s.moveAll? u moves).bind (·.moveAll? u after) :=
  List.foldlM_append

theorem State.grid_move? (hm : s.move? u m = some s') :
    s'.grid = s.grid.takeAll (editsOf [m]) := by
  cases m with
  | setCell row column cell =>
    obtain ⟨g, hset, rfl⟩ := set_of_move? hm
    show g = s.grid.take (.set row column cell)
    rw [Grid.take, hset]
    rfl
  | step task => exact (advances_of_step? hm).spares.grid
  | takeSlot generation => exact (advances_of_takeSlot? hm).spares.grid
  | _ =>
    obtain rfl := Option.some.inj hm
    rfl

/-- The grid of a run is the one that its edits make. -/
theorem State.grid_moveAll? (hrun : s.moveAll? u moves = some s') :
    s'.grid = s.grid.takeAll (editsOf moves) := by
  induction moves generalizing s with
  | nil =>
    obtain rfl := Option.some.inj hrun
    rfl
  | cons m moves ih =>
    simp only [moveAll?, List.foldlM_cons, Option.bind_eq_bind, Option.bind_eq_some_iff] at hrun
    obtain ⟨mid, hm, hrest⟩ := hrun
    have hsplit : editsOf (m :: moves) = editsOf [m] ++ editsOf moves := by
      rw [← List.singleton_append]
      exact List.filterMap_append
    rw [ih hrest, grid_move? hm, ← Grid.takeAll_append, hsplit]

/-! ## Steps of a call for all rows -/

/-- How a call for all rows may go on to judge and to report. -/
inductive AllRowsStep (u : Setup) (s : State) : CallStage → CallStage → Prop where
  | look : AllRowsStep u s .called (.surveying (.working (u.ruleSet.survey (s.source u))))
  | goesOn {work next : Running RuleSet.Survey} (kept : next.rest.answer = work.rest.answer) :
    AllRowsStep u s (.surveying work) (.surveying next)
  | found {work : Running RuleSet.Survey} {v : RuleSet.Survey} (answer : work.rest.answer = .ok v) :
    AllRowsStep u s (.surveying work) (.judging (Call.poolFor u v))
  | judged {pool : Pool (List CellReport)} {batches : List (List CellReport)}
    (result : pool.result? = some (.ok batches)) : AllRowsStep u s (.judging pool)
      (.delivering (RuleSet.gather batches) (RuleSet.gather batches))
  | deliver {cell : CellReport} {todo cells : List CellReport} :
    AllRowsStep u s (.delivering (cell :: todo) cells) (.delivering todo cells)
  | conclude {cells : List CellReport} : AllRowsStep u s (.delivering [] cells)
    (.reported (.ok (.ofCells u.ruleSet.name u.timestamp (s.source u).rowCount cells)))

/-- A stage at which nothing of a look is left: of a call for all rows that has not looked or was
refused, or of a call that tells of an edit. -/
def CallStage.Blank : CallStage → Prop
  | .editing _ _ _ | .edited _ | .called | .reported (.error _) => True
  | .surveying _ | .judging _ | .delivering _ _ | .reported (.ok _) => False

/-- A call moves to a stage of its own, and the other calls stay where they are. -/
theorem Call.Advance.allRows (h : c.Advance u s s') :
    ∃ t stage, t.calls = s.calls ∧ s'.calls = (goTo t c stage).calls ∧
      (stage.Blank ∨ AllRowsStep u s c.stage stage ∨
        ∃ pool next l events strand, c.stage = .judging pool ∧ stage = .judging next ∧
          pool.step? s.now s.closed s.limiter strand = some (next, l, events)) := by
  cases h with
  | told | take | work | report | fail | refuse => exact ⟨s, _, rfl, rfl, .inl trivial⟩
  | @ask edited job =>
    exact ⟨s.schedule u job.key [edited], _, (Evaluation.apart_schedule job.key [edited]).calls, rfl, .inl trivial⟩
  | @spread edited _ job _ report rows =>
    exact ⟨(s.deliver u report).notePeers u job.key [edited] rows, _,
      (State.alike_notePeers u _ _ _ _).calls, rfl, .inl trivial⟩
  | @abandon _ _ job =>
    exact ⟨s.abandoned u job.key, _, (s.alike_abandoned u job.key).calls, rfl, .inl trivial⟩
  | survey hstage => exact ⟨s, _, rfl, rfl, .inr (.inl (hstage ▸ .look))⟩
  | look hstage hstep =>
    exact ⟨s, _, rfl, rfl, .inr (.inl (hstage ▸ .goesOn (Running.answer_of_goesOn hstep)))⟩
  | found hstage hstep =>
    have hanswer := (Running.answer_or_cancelled hstep).resolve_right (by simp)
    exact ⟨s, _, rfl, rfl, .inr (.inl (hstage ▸ .found hanswer.symm))⟩
  | strand hstage hstep =>
    exact ⟨s, _, rfl, rfl, .inr (.inr ⟨_, _, _, _, _, hstage, rfl, hstep⟩)⟩
  | judged hstage hresult => exact ⟨s, _, rfl, rfl, .inr (.inl (hstage ▸ .judged hresult))⟩
  | deliver hstage => exact ⟨s, _, rfl, rfl, .inr (.inl (hstage ▸ .deliver))⟩
  | conclude hstage => exact ⟨s, _, rfl, rfl, .inr (.inl (hstage ▸ .conclude))⟩

/-- Where a call stands after a move: where it stood, at the beginning, or where a step of its own,
or of a strand of its pool, has led. -/
theorem State.stage_of_move? (hm : s.move? u m = some s') (hd : d ∈ s'.calls) :
    d ∈ s.calls ∨ d.stage.Blank ∨ ∃ c, s.call? c.id = some c ∧ d.id = c.id ∧
      ((m = .step (.call c.id) ∧ AllRowsStep u s c.stage d.stage) ∨
        ∃ pool next l events strand, c.stage = .judging pool ∧ d.stage = .judging next ∧
          pool.step? s.now s.closed s.limiter strand = some (next, l, events)) := by
  cases m with
  | setCell row column cell =>
    obtain ⟨g, -, rfl⟩ := set_of_move? hm
    exact .inl hd
  | edit | validateAll =>
    obtain rfl := Option.some.inj hm
    rcases List.mem_append.mp hd with hd | hd
    · exact .inl hd
    · obtain rfl := List.mem_singleton.mp hd
      refine .inr (.inl ?_)
      first | trivial | (split <;> trivial)
  | step task =>
    cases task with
    | evaluation generation =>
      obtain ⟨e, -, -, hadvance⟩ := evaluation_of_step? hm
      exact .inl (hadvance.apart.calls ▸ hd)
    | call other =>
      obtain ⟨c, rfl, hc, hadvance⟩ := call_of_step? hm
      obtain ⟨t, stage, ht, hcalls, hstage⟩ := hadvance.allRows
      rw [hcalls] at hd
      rcases mem_goTo.mp hd with ⟨hd, -⟩ | ⟨rfl, -⟩
      · exact .inl (ht ▸ hd)
      · exact .inr (hstage.imp_right fun hown => ⟨c, hc, rfl, hown.imp_left fun h => ⟨rfl, h⟩⟩)
    | strand other strand =>
      obtain ⟨c, -, hc, pool, next, limiter, events, hstage, hstep, rfl⟩ :=
        call_of_strand? (u := u) hm
      rcases mem_goTo.mp hd with ⟨hd, -⟩ | ⟨rfl, -⟩
      · exact .inl hd
      · exact .inr (.inr ⟨c, hc, rfl, .inr ⟨pool, next, limiter, events, strand, hstage, rfl, hstep⟩⟩)
  | takeSlot generation =>
    obtain ⟨e, -, -, hadvance⟩ := evaluation_of_takeSlot? hm
    exact .inl (hadvance.apart.calls ▸ hd)
  | _ =>
    obtain rfl := Option.some.inj hm
    exact .inl hd

/-! ## From the look to the report -/

/-- After some moves the call looked at the grid, in this state, and these moves came since. -/
def LookedAt (u : Setup) (grid : Grid) (moves : List Move) (id : Nat) (looked : State)
    (between : List Move) : Prop :=
  ∃ before, moves = before ++ .step (.call id) :: between ∧
    (State.start u grid).moveAll? u before = some looked ∧
    looked.callStage? id = some .called

/-- After some moves the call made its report, in this state, of these cells. It looked at the grid
before. -/
def MadeReport (u : Setup) (grid : Grid) (moves : List Move) (id : Nat) (looked : State)
    (between : List Move) (ended : State) (cells : List CellReport) : Prop :=
  ∃ first after, moves = first ++ .step (.call id) :: after ∧
    LookedAt u grid first id looked between ∧
    (State.start u grid).moveAll? u first = some ended ∧
    ended.callStage? id = some (.delivering [] cells)

/-- The stage of a call for all rows is borne out by the moves: what it judges or has judged is what
it saw at its look. -/
def BorneOut (u : Setup) (grid : Grid) (moves : List Move) (c : Call) : Prop :=
  match c.stage with
  | .surveying work => ∃ looked between, LookedAt u grid moves c.id looked between ∧
      work.rest.answer = (u.ruleSet.survey (looked.source u)).answer
  | .judging pool => ∃ looked between v, LookedAt u grid moves c.id looked between ∧
      (u.ruleSet.survey (looked.source u)).answer = .ok v ∧ pool.Sound (u.ruleSet.batches v)
  | .delivering _ cells => ∃ looked between v, LookedAt u grid moves c.id looked between ∧
      (u.ruleSet.survey (looked.source u)).answer = .ok v ∧ Gathers u v cells
  | .reported (.ok report) => ∃ looked between ended cells v,
      MadeReport u grid moves c.id looked between ended cells ∧
      (u.ruleSet.survey (looked.source u)).answer = .ok v ∧ Gathers u v cells ∧
      report = .ofCells u.ruleSet.name u.timestamp (ended.source u).rowCount cells
  | .editing _ _ _ | .edited _ | .called | .reported (.error _) => True

theorem LookedAt.extend (h : LookedAt u grid moves id looked between) (m : Move) :
    LookedAt u grid (moves ++ [m]) id looked (between ++ [m]) := by
  obtain ⟨before, rfl, hrun, hstage⟩ := h
  exact ⟨before, by simp, hrun, hstage⟩

theorem MadeReport.extend {cells : List CellReport}
    (h : MadeReport u grid moves id looked between ended cells) (m : Move) :
    MadeReport u grid (moves ++ [m]) id looked between ended cells := by
  obtain ⟨first, after, rfl, hrest⟩ := h
  exact ⟨first, after ++ [m], by simp, hrest⟩

/-- A call that stays where it is is borne out by more moves too. -/
theorem BorneOut.extend (h : BorneOut u grid moves c) (m : Move) : BorneOut u grid (moves ++ [m]) c := by
  unfold BorneOut at h ⊢
  split at h
  · obtain ⟨looked, between, hlook, hrest⟩ := h
    exact ⟨looked, _, hlook.extend m, hrest⟩
  · obtain ⟨looked, between, v, hlook, hrest⟩ := h
    exact ⟨looked, _, v, hlook.extend m, hrest⟩
  · obtain ⟨looked, between, v, hlook, hrest⟩ := h
    exact ⟨looked, _, v, hlook.extend m, hrest⟩
  · obtain ⟨looked, between, ended, cells, v, hmade, hrest⟩ := h
    exact ⟨looked, between, ended, cells, v, hmade.extend m, hrest⟩
  all_goals trivial

theorem borneOut_of_blank (h : c.stage.Blank) : BorneOut u grid moves c := by
  unfold BorneOut
  unfold CallStage.Blank at h
  split <;> simp_all

/-- What a step of the call makes of its stage is borne out by the moves and the step. -/
theorem AllRowsStep.borneOut (h : AllRowsStep u s c.stage d.stage) (hid : d.id = c.id)
    (hrun : (State.start u grid).moveAll? u moves = some s) (hc : s.call? c.id = some c)
    (hborne : BorneOut u grid moves c) : BorneOut u grid (moves ++ [.step (.call c.id)]) d := by
  have hstage : s.callStage? c.id = some c.stage := by
    rw [State.callStage?, hc]
    rfl
  obtain ⟨id, stage⟩ := c
  obtain ⟨_, stage'⟩ := d
  subst hid
  cases h with
  | look => exact ⟨s, [], ⟨moves, rfl, hrun, hstage⟩, rfl⟩
  | goesOn hkept =>
    obtain ⟨looked, between, hlook, hanswer⟩ := hborne
    exact ⟨looked, _, hlook.extend _, hkept.trans hanswer⟩
  | found hanswer =>
    obtain ⟨looked, between, hlook, hsame⟩ := hborne
    exact ⟨looked, _, _, hlook.extend _, hsame.symm.trans hanswer, Pool.sound_start _ _ _⟩
  | judged hresult =>
    obtain ⟨looked, between, v, hlook, hanswer, hsound⟩ := hborne
    exact ⟨looked, _, v, hlook.extend _, hanswer, _, hsound.result hresult, rfl⟩
  | deliver =>
    obtain ⟨looked, between, v, hlook, hrest⟩ := hborne
    exact ⟨looked, _, v, hlook.extend _, hrest⟩
  | conclude =>
    obtain ⟨looked, between, v, hlook, hanswer, hgathers⟩ := hborne
    exact ⟨looked, between, s, _, v, ⟨moves, [], rfl, hlook, hrun, hstage⟩, hanswer, hgathers, rfl⟩

/-- In every run each call is borne out by the moves. -/
theorem borneOut_of_run (hrun : (State.start u grid).moveAll? u moves = some s) :
    ∀ c ∈ s.calls, BorneOut u grid moves c := by
  induction moves using List.reverseRec generalizing s with
  | nil =>
    obtain rfl := Option.some.inj hrun
    exact fun c hc => by cases hc
  | append_singleton moves m ih =>
    rw [State.moveAll?_append, Option.bind_eq_some_iff] at hrun
    obtain ⟨mid, hmid, hm⟩ := hrun
    have hmove : mid.move? u m = some s := by simpa [State.moveAll?] using hm
    intro d hd
    rcases State.stage_of_move? hmove hd with hd | hblank | ⟨c, hc, hid, hstep⟩
    · exact (ih hmid d hd).extend m
    · exact borneOut_of_blank hblank
    · have hborne := ih hmid c (State.mem_of_call? hc)
      rcases hstep with ⟨rfl, hstep⟩ | ⟨pool, next, l, events, strand, hstage, hstage', hstep⟩
      · exact hstep.borneOut hid hmid hc hborne
      · rw [BorneOut, hstage] at hborne
        rw [BorneOut, hstage', hid]
        obtain ⟨looked, between, v, hlook, hanswer, hsound⟩ := hborne
        exact ⟨looked, _, v, hlook.extend m, hanswer, hsound.step hstep⟩

/-! ## What the report counts -/

/-- Between the look and the report the grid becomes what the moves in between make of it. -/
theorem MadeReport.grid_eq {cells : List CellReport}
    (h : MadeReport u grid moves id looked between ended cells) :
    ended.grid = looked.grid.takeAll (editsOf between) := by
  obtain ⟨first, after, -, ⟨before, rfl, hbefore, -⟩, hrun, -⟩ := h
  rw [State.moveAll?_append, hbefore, Option.bind_some] at hrun
  have hgrid := State.grid_moveAll? hrun
  -- the look itself edits nothing
  rwa [editsOf, List.filterMap_cons_none rfl] at hgrid

/-- A report of all rows counts a cell for each row that its run looked at and each target column
that is there, and as many rows as the grid has in the end: those of the look, and one more for each
that was pushed since. So it describes one grid exactly if no row was pushed. This holds of a run of
the rule set by itself, and in a watch of every call for all rows, whatever else is under way. -/
theorem report_of_one_snapshot_iff (u : Setup) :
    (∀ (looked : Grid) (edits : List Grid.Edit) (report : Report),
      u.ruleSet.LoneReport u.timestamp looked edits report →
      u.ruleSet.Describes u.timestamp looked edits report ∧
        (u.ruleSet.OneSnapshot looked report ↔ Grid.pushes edits = 0) ∧
        (report.metrics.cells = report.metrics.rows * (u.ruleSet.columnsIn looked.source).length ↔
          Grid.pushes edits = 0 ∨ u.ruleSet.columnsIn looked.source = [])) ∧
    ∀ (grid : Grid) (moves : List Move) (s : State) (c : Call) (report : Report),
      u.view = Grid.source → (State.start u grid).moveAll? u moves = some s → c ∈ s.calls →
      c.stage = .reported (.ok report) →
      ∃ looked between ended cells, MadeReport u grid moves c.id looked between ended cells ∧
        u.ruleSet.Describes u.timestamp looked.grid (editsOf between) report ∧
        (u.ruleSet.OneSnapshot looked.grid report ↔ Grid.pushes (editsOf between) = 0) ∧
        (report.metrics.cells
            = report.metrics.rows * (u.ruleSet.columnsIn looked.grid.source).length ↔
          Grid.pushes (editsOf between) = 0 ∨ u.ruleSet.columnsIn looked.grid.source = []) := by
  constructor
  · intro looked edits report hreport
    have hdescribes := hreport.describes
    exact ⟨hdescribes, hdescribes.oneSnapshot_iff, hdescribes.cells_eq_iff⟩
  · intro grid moves s c report hview hrun hc hstage
    have hborne := borneOut_of_run hrun c hc
    rw [BorneOut, hstage] at hborne
    obtain ⟨looked, between, ended, cells, v, hmade, hlook, ⟨batches, hperm, rfl⟩, rfl⟩ := hborne
    rw [State.source, hview] at hlook ⊢
    have hdescribes : u.ruleSet.Describes u.timestamp looked.grid (editsOf between)
        (.ofCells u.ruleSet.name u.timestamp ended.grid.source.rowCount
          (RuleSet.gather batches)) := by
      rw [hmade.grid_eq]
      exact RuleSet.describes_of_inOrder (RuleSet.inOrder_of_batches hlook hperm)
    exact ⟨looked, between, ended, _, hmade, hdescribes, hdescribes.oneSnapshot_iff,
      hdescribes.cells_eq_iff⟩

/-! ## A look-up that takes a second -/

def lookUpRule : Rule where
  name := "Code_lookup"
  description := none
  targets := ["Code"]
  dependencies := []
  guard := none
  validators := [.delayed fun _ => .after 1000 (.ok .success)]
  scopes := []
  severity := .error
  priority := 0
  message := ""

def lookUpWatch : Setup where
  ruleSet := { name := "orders", rules := [lookUpRule], throttle := .interactive }
  view := Grid.source

/-- One row, with a code. -/
def oneCode : Grid := ⟨["Code"], [[.text "a"]]⟩

/-- All rows are asked for, and a move comes while the code is looked up. -/
def movesAround (m : Move) : List Move :=
  List.flatten
    [[.validateAll], Task.steps 3 (.call 0), Task.steps 3 (.strand 0 0), [m, .pass 1000],
      Task.steps 3 (.strand 0 0), Task.steps 3 (.call 0)]

/-- The report that a call has made. -/
def State.report? (s : State) (id : Nat) : Option Report :=
  match s.callStage? id with
  | some (.reported (.ok report)) => some report
  | _ => none

/-- A report that was made is the end of a call. -/
theorem State.exists_call_of_report? (h : s.report? id = some report) :
    ∃ c ∈ s.calls, c.stage = .reported (.ok report) := by
  unfold report? at h
  split at h
  · rename_i stage
    obtain rfl := Option.some.inj h
    obtain ⟨c, hc, hstage⟩ := Option.map_eq_some_iff.mp stage
    exact ⟨c, mem_of_call? hc, hstage⟩
  · cases h

/-- A code that is set while it is looked up: the report is of the one row, whose look-up it was. -/
theorem report_of_one_snapshot_iff_set :
    ∃ s c report looked between ended cells,
      (State.start lookUpWatch oneCode).moveAll? lookUpWatch
        (movesAround (.setCell 0 "Code" (.text "b"))) = some s ∧
      c ∈ s.calls ∧ c.stage = .reported (.ok report) ∧
      MadeReport lookUpWatch oneCode (movesAround (.setCell 0 "Code" (.text "b"))) c.id looked
        between ended cells ∧
      (lookUpWatch.ruleSet.OneSnapshot looked.grid report ↔
        Grid.pushes (editsOf between) = 0) ∧
      report.metrics.rows = 1 ∧ report.metrics.cells = 1 := by
  have hmetrics : (((State.start lookUpWatch oneCode).moveAll? lookUpWatch
      (movesAround (.setCell 0 "Code" (.text "b")))).bind fun s =>
        (s.report? 0).map fun r => (r.metrics.rows, r.metrics.cells)) = some (1, 1) := by
    decide +kernel
  obtain ⟨s, hrun, hmetrics⟩ := Option.bind_eq_some_iff.mp hmetrics
  obtain ⟨report, hreport, hcounts⟩ := Option.map_eq_some_iff.mp hmetrics
  obtain ⟨c, hc, hstage⟩ := State.exists_call_of_report? hreport
  obtain ⟨looked, between, ended, cells, hmade, -, hone, -⟩ :=
    (report_of_one_snapshot_iff lookUpWatch).2 oneCode _ s c report rfl hrun hc hstage
  exact ⟨s, c, report, looked, between, ended, cells, hrun, hc, hstage, hmade, hone,
    congrArg Prod.fst hcounts, congrArg Prod.snd hcounts⟩

/-- A row that is pushed while the only one is looked up: the report counts two rows, and the one
cell of the one that it looked at. -/
theorem pushed_row_is_counted :
    ∃ s c report,
      (State.start lookUpWatch oneCode).moveAll? lookUpWatch
        (movesAround (.pushRow [("Code", .text "b")])) = some s ∧
      c ∈ s.calls ∧ c.stage = .reported (.ok report) ∧
      report.metrics.rows = 2 ∧ report.metrics.cells = 1 ∧
      ¬ lookUpWatch.ruleSet.OneSnapshot oneCode report := by
  have hmetrics : (((State.start lookUpWatch oneCode).moveAll? lookUpWatch
      (movesAround (.pushRow [("Code", .text "b")]))).bind fun s =>
        (s.report? 0).map fun r => (r.metrics.rows, r.metrics.cells)) = some (2, 1) := by
    decide +kernel
  obtain ⟨s, hrun, hmetrics⟩ := Option.bind_eq_some_iff.mp hmetrics
  obtain ⟨report, hreport, hcounts⟩ := Option.map_eq_some_iff.mp hmetrics
  obtain ⟨c, hc, hstage⟩ := State.exists_call_of_report? hreport
  have hrows : report.metrics.rows = 2 := congrArg Prod.fst hcounts
  refine ⟨s, c, report, hrun, hc, hstage, hrows, congrArg Prod.snd hcounts, fun hone => ?_⟩
  have hsame := hone.1
  rw [hrows] at hsame
  cases hsame

end CellRules.Watch
