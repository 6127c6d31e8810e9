/-
CellRules.Proofs.Watch.AtRest — a watch that has come to rest, and the looks behind its verdicts.

All rows were judged first; then cells were written, each write was told of, and all came to rest
(`AtRest`). The report that stands on a cell was made by a look at the grid (`LastLook`): that of the
newest evaluation of the cell, or, where none was asked for, that of the run over all rows. Either
way nothing was asked for the cell since (`AtRest.exists_lastLook`).
-/
import CellRules.Proofs.RuleSet.AllRows
import CellRules.Proofs.Watch.Freshest
import CellRules.Proofs.Watch.Telling

namespace CellRules.Watch

/-- The happening is of an edit: a write, a new row, or a call that tells of one. -/
def Happening.ofEdit : Happening → Bool
  | .wrote _ _ | .pushed | .told _ _ _ => true
  | _ => false

/-- The run over all rows ended well. -/
def CallStage.concluded : CallStage → Bool
  | .reported (.ok _) => true
  | _ => false

theorem CallStage.exists_of_concluded {stage : CallStage} (hs : stage.concluded = true) :
    ∃ report, stage = .reported (.ok report) := by
  unfold concluded at hs
  split at hs
  · exact ⟨_, rfl⟩
  · cases hs

/-- Edited cells are judged in the background, each column by rules of its own, and the grid has
every column that is judged. -/
structure Setup.Judges (u : Setup) (grid : Grid) : Prop where
  background : u.ruleSet.throttle.background = true
  view : u.view = Grid.source
  rules : u.ruleSet.OneColumn
  regular : grid.Regular
  columns : ∀ column ∈ u.ruleSet.targets, column ∈ grid.columns

/-- All rows were judged before anything else happened. Since then cells were written, each write
was told of, and all calls and evaluations have come to rest. -/
structure AtRest (u : Setup) (grid : Grid) (h₀ h₁ : List Happening) (s₀ s : State) : Prop where
  judging : Run u (.start u grid) h₀ s₀
  judged : s₀.calls ≠ [] ∧ ∀ c ∈ s₀.calls, c.stage.concluded = true
  untouched : ∀ x ∈ h₀, x.ofEdit = false
  editing : Run u s₀ h₁ s
  edits : ∀ x ∈ h₁, x.asksAll = false ∧ x ≠ .pushed
  told : ∀ k row column k', h₁ = k ++ .wrote row column :: k' → ∃ id, .told id row column ∈ k'
  returned : ∀ c ∈ s.calls, c.stage.telling = false
  idle : s.ledger.isEmpty = true
  isOpen : s.closed = false

/-- The merged verdict that the rules give on a cell of the grid as it is. -/
def State.verdictOn (u : Setup) (s : State) (key : CellKey) : Except Problem Verdict :=
  (u.ruleSet.evaluateCell (s.source u) key.row key.column).answer.map (·.verdict)

/-- The last report on a cell was made by a look at the grid in the state `at₀`, with the verdict
that the rules gave there. These were seen since the look, and these after the report. -/
structure LastLook (u : Setup) (grid : Grid) (h : List Happening) (s : State) (key : CellKey)
    (v : Verdict) (at₀ : State) (since after : List Happening) : Prop where
  look : ∃ before between reporter, h = before ++ lookOf key reporter :: since ∧
    since = between ++ .reported reporter key v :: after ∧
    Moment u (.start u grid) before at₀ (lookOf key reporter) since s
  last : ∀ reporter w, .reported reporter key w ∉ after
  verdict : at₀.verdictOn u key = .ok v

variable {u : Setup} {grid : Grid} {s s₀ at₀ : State} {h h₀ h₁ before since after : List Happening}
  {x : Happening} {key : CellKey} {v : Verdict} {row : Nat} {column : String}

theorem LastLook.lastReport (hl : LastLook u grid h s key v at₀ since after) :
    ∃ reporter, LastReport h key reporter v := by
  obtain ⟨before, between, reporter, rfl, rfl, -⟩ := hl.look
  exact ⟨reporter, before ++ lookOf key reporter :: between, after, by simp, hl.last⟩

/-! ## Grids and views -/

namespace Setup.Judges

/-- Rows of a grid have their index. -/
theorem faithful (hj : u.Judges grid) : u.Faithful := by
  intro g row ctx hrow
  rw [hj.view] at hrow
  by_cases hlt : row < g.rows.length
  · rw [Grid.row_source hlt] at hrow
    obtain rfl := Except.ok.inj hrow
    exact Grid.row_contextAt
  · simp [Grid.source, Grid.row, hlt] at hrow

theorem verdictOn (hj : u.Judges grid) (hregular : s.grid.Regular)
    (hrow : key.row < s.grid.rows.length) (hcolumn : key.column ∈ s.grid.columns) :
    s.verdictOn u key = (u.ruleSet.reportOn s.grid key.row key.column).map (·.verdict) := by
  rw [State.verdictOn, State.source, hj.view,
    u.ruleSet.answer_evaluateCell hregular hrow hcolumn]

theorem judging (hj : u.Judges grid) (hregular : s.grid.Regular)
    (hrow : key.row < s.grid.rows.length) (hcolumn : key.column ∈ s.grid.columns) :
    (s.judging u key).answer = (u.ruleSet.reportOn s.grid key.row key.column).map
      (·, if (u.ruleSet.rulesFor key.column).any (·.needsRows) then ⟨s.grid.contexts⟩
        else .empty) := by
  rw [State.judging, State.source, hj.view,
    u.ruleSet.answer_evaluateCellAmong hregular hrow hcolumn]

end Setup.Judges

/-! ## A watch at rest -/

namespace AtRest

theorem run (hr : AtRest u grid h₀ h₁ s₀ s) : Run u (.start u grid) (h₀ ++ h₁) s :=
  hr.judging.trans hr.editing

theorem not_pushed (hr : AtRest u grid h₀ h₁ s₀ s) : .pushed ∉ h₀ ++ h₁ := by
  intro hmem
  rcases List.mem_append.mp hmem with hmem | hmem
  · cases hr.untouched _ hmem
  · exact (hr.edits _ hmem).2 rfl

/-- Each write was told of afterwards. -/
theorem told_of_wrote (hr : AtRest u grid h₀ h₁ s₀ s) {k k' : List Happening}
    (hx : h₀ ++ h₁ = k ++ .wrote row column :: k') : ∃ id, .told id row column ∈ k' := by
  rcases List.append_eq_append_iff.mp hx with ⟨m, -, hm⟩ | ⟨m, hm, hrest⟩
  · exact hr.told m row column k' hm
  · cases m with
    | nil => exact hr.told [] row column k' hrest.symm
    | cons y m =>
      obtain ⟨rfl, -⟩ := List.cons.inj hrest
      cases hr.untouched (.wrote row column) (by rw [hm]; simp)

/-- From a moment on, cells keep their value unless they are written; the grid keeps its shape. -/
theorem kept (hj : u.Judges grid) (hr : AtRest u grid h₀ h₁ s₀ s)
    (hm : Moment u (.start u grid) before at₀ x since s) (hx : h₀ ++ h₁ = before ++ x :: since) :
    at₀.grid.Regular ∧ at₀.grid.columns = grid.columns ∧
      at₀.grid.rows.length = grid.rows.length ∧ s.grid.Regular ∧
      s.grid.columns = grid.columns ∧ s.grid.rows.length = grid.rows.length ∧
      ∀ row column, .wrote row column ∉ x :: since →
        s.grid.get? row column = at₀.grid.get? row column := by
  have hpushed := hr.not_pushed
  rw [hx, List.mem_append, not_or] at hpushed
  have hopen := hm.rest.open hr.isOpen
  obtain ⟨hregular, hcolumns, hlength, -⟩ :=
    Run.cell_kept hj.background .rest hm.before hopen hj.regular hpushed.1
  obtain ⟨hregular', hcolumns', hlength', hcells⟩ :=
    Run.cell_kept hj.background hm.before hm.rest hr.isOpen hregular hpushed.2
  exact ⟨hregular, hcolumns, hlength, hregular', hcolumns'.trans hcolumns,
    hlength'.trans hlength, hcells⟩

/-- The text of a cell that was not written since a moment is what it was. -/
theorem textAt_kept (hj : u.Judges grid) (hr : AtRest u grid h₀ h₁ s₀ s)
    (hm : Moment u (.start u grid) before at₀ x since s) (hx : h₀ ++ h₁ = before ++ x :: since)
    (hnot : .wrote row column ∉ x :: since) :
    s.grid.textAt column row = at₀.grid.textAt column row := by
  obtain ⟨-, -, -, -, -, -, hcells⟩ := hr.kept hj hm hx
  rw [Grid.textAt, Grid.textAt, hcells row column hnot]

/-- Nothing is asked for while all rows are judged. -/
theorem not_asked (hj : u.Judges grid) (hr : AtRest u grid h₀ h₁ s₀ s) (key : CellKey) (g : Nat) :
    ¬AskedFor h₀ key g := by
  intro hasked
  obtain ⟨id, row, column, hmem⟩ :=
    hr.judging.told_of_asked hj.background (hr.editing.open hr.isOpen) hasked
  cases hr.untouched _ hmem

/-- After all rows were judged, reports are those of evaluations. -/
theorem reports (hj : u.Judges grid) (hr : AtRest u grid h₀ h₁ s₀ s) {reporter : Task}
    (hmem : .reported reporter key v ∈ h₁) : ∃ g, reporter = .evaluation g := by
  refine (Run.reports_of_evaluations hj.background hr.judging hr.editing hr.isOpen
    (fun c hc => ?_) fun id hcalled => ?_).2 reporter key v hmem
  · obtain ⟨report, hstage⟩ := CallStage.exists_of_concluded (hr.judged.2 c hc)
    rw [hstage]
    rfl
  · cases (hr.edits _ hcalled).1

/-! ## The look behind the verdict that stands -/

/-- The reports of a run over all rows are those on the grid as it was at the look, and there is one
on every cell that is judged. -/
theorem gathered (hj : u.Judges grid) (hr : AtRest u grid h₀ h₁ s₀ s)
    (hm : Moment u (.start u grid) before at₀ x since s) (hx : h₀ ++ h₁ = before ++ x :: since)
    {survey : RuleSet.Survey} {cells : List CellReport}
    (hanswer : (u.ruleSet.survey (at₀.source u)).answer = .ok survey)
    (hcells : Gathers u survey cells) :
    (∀ cell ∈ cells, u.ruleSet.reportOn at₀.grid cell.row cell.column = .ok cell) ∧
      ∀ row column, row < grid.rows.length → column ∈ u.ruleSet.targets →
        ∃ cell ∈ cells, u.ruleSet.reportOn at₀.grid row column = .ok cell := by
  obtain ⟨hregular, hcolumns, hlength, -⟩ := hr.kept hj hm hx
  rw [State.source, hj.view, RuleSet.answer_survey] at hanswer
  obtain rfl := Except.ok.inj hanswer
  obtain ⟨batches, hbatches, rfl⟩ := hcells
  obtain ⟨hsound, hall⟩ := RuleSet.reportOn_gather hregular
    (fun c hc => by simpa using (List.mem_filter.mp hc).2) hbatches
  refine ⟨hsound, fun row column hrow hcolumn => hall row column (hlength ▸ hrow) ?_⟩
  rw [List.mem_filter, hcolumns]
  exact ⟨hcolumn, by simpa using hj.columns column hcolumn⟩

/-- What the rules report on the grid as it was at a moment is their verdict there. -/
theorem verdictOn_of_reportOn (hj : u.Judges grid) (hr : AtRest u grid h₀ h₁ s₀ s)
    (hm : Moment u (.start u grid) before at₀ x since s) (hx : h₀ ++ h₁ = before ++ x :: since)
    (hrow : key.row < grid.rows.length) (hcolumn : key.column ∈ u.ruleSet.targets)
    {report : CellReport} (hreport : u.ruleSet.reportOn at₀.grid key.row key.column = .ok report) :
    at₀.verdictOn u key = .ok report.verdict := by
  obtain ⟨hregular, hcolumns, hlength, -⟩ := hr.kept hj hm hx
  rw [hj.verdictOn hregular (hlength ▸ hrow) (hcolumns ▸ hj.columns _ hcolumn), hreport]
  rfl

/-- What is judged at a moment is the report on the grid as it was, with all its rows if a rule looks
at other rows. -/
theorem report_of_judged (hj : u.Judges grid) (hr : AtRest u grid h₀ h₁ s₀ s)
    (hm : Moment u (.start u grid) before at₀ x since s) (hx : h₀ ++ h₁ = before ++ x :: since)
    {answer : Except Problem Judgement} (hanswer : (at₀.judging u key).answer = answer)
    (hrow : key.row < grid.rows.length) (hcolumn : key.column ∈ u.ruleSet.targets) :
    ∃ report rows, answer = .ok (report, rows) ∧
      u.ruleSet.reportOn at₀.grid key.row key.column = .ok report ∧
      ((u.ruleSet.rulesFor key.column).any (·.needsRows) = true → rows = ⟨at₀.grid.contexts⟩) := by
  obtain ⟨hregular, hcolumns, hlength, -⟩ := hr.kept hj hm hx
  obtain ⟨report, hreport⟩ := u.ruleSet.reportOn_ok at₀.grid key.row key.column
  rw [hj.judging hregular (hlength ▸ hrow) (hcolumns ▸ hj.columns _ hcolumn), hreport] at hanswer
  exact ⟨report, _, hanswer.symm, hreport, fun hneeds => if_pos hneeds⟩

/-- Once an evaluation of a cell was asked for, the cell is reported by evaluations. -/
theorem reports_of_asked (hj : u.Judges grid) (hr : AtRest u grid h₀ h₁ s₀ s) {g : Nat}
    (hx : h₀ ++ h₁ = before ++ x :: since) (hasked : AskedFor before key g) {reporter : Task}
    (hmem : .reported reporter key v ∈ since) : ∃ g, reporter = .evaluation g := by
  have hlate : .reported reporter key v ∈ h₁ := by
    rcases List.append_eq_append_iff.mp hx with ⟨k, -, rfl⟩ | ⟨k, rfl, hrest⟩
    · exact List.mem_append_right _ (List.mem_cons_of_mem _ hmem)
    · cases k with
      | nil =>
        rw [← List.nil_append h₁, ← hrest]
        exact List.mem_cons_of_mem _ hmem
      | cons y k => exact absurd (hasked.append _) (hr.not_asked hj key g)
  exact hr.reports hj hlate

/-- A cell that no evaluation was asked for stands as it was when all rows were judged. -/
theorem lastLook_of_not_asked (hj : u.Judges grid) (hr : AtRest u grid h₀ h₁ s₀ s)
    (hrow : key.row < grid.rows.length) (hcolumn : key.column ∈ u.ruleSet.targets)
    (hnone : ∀ g, ¬AskedFor (h₀ ++ h₁) key g) :
    ∃ report at₀ since after,
      LastLook u grid (h₀ ++ h₁) s key report.verdict at₀ since after ∧
        u.ruleSet.reportOn at₀.grid key.row key.column = .ok report := by
  have hopen := hr.editing.open hr.isOpen
  -- the run over all rows reported the cell
  obtain ⟨reporter, v, l₁, l₂, hl, hlast⟩ :
      ∃ reporter v, LastReport (h₀ ++ h₁) key reporter v := by
    obtain ⟨c, hc⟩ := List.exists_mem_of_ne_nil _ hr.judged.1
    obtain ⟨report, hstage⟩ := CallStage.exists_of_concluded (hr.judged.2 c hc)
    obtain ⟨survey, cells, ⟨b, mid, m, hb, hm, -, hanswer, -⟩, hcells, hdelivered⟩ :=
      hr.judging.delivered_of_concluded hj.background hopen hc hstage
    obtain ⟨cell, hmem, hok⟩ := (hr.gathered hj (hm.later hr.editing) (by simp [hb]) hanswer
      hcells).2 key.row key.column hrow hcolumn
    have hreported := hdelivered cell hmem
    obtain ⟨hcellRow, hcellColumn⟩ := RuleSet.reportOn_key hok
    rw [reportOf, hcellRow, hcellColumn] at hreported
    exact exists_lastReport (List.mem_append_left h₁ hreported)
  have hnot : ∀ g, reporter ≠ .evaluation g := by
    rintro g rfl
    refine hnone g ((hr.run.lawful hj.background hr.isOpen).chronicle.reportedAsked key g ⟨v, ?_⟩)
    rw [hl]
    simp
  obtain ⟨id, at₁, survey, delivered, rfl, hmoment, ⟨b, mid, m, rfl, hm, -, hanswer, -⟩, cell,
      cells, hcells, hmem, rfl, rfl⟩ :=
    hr.run.surveyed_of_reported hj.background hr.isOpen hl hnot
  have hlook := hm.later hmoment.rest
  have hx : h₀ ++ h₁ = b ++ .surveyed id ::
      (m ++ .reported (.call id) ⟨cell.row, cell.column⟩ cell.verdict :: l₂) := by
    simpa using hl
  have hreport := (hr.gathered hj hlook hx hanswer hcells).1 cell hmem
  exact ⟨cell, mid, _, l₂, ⟨⟨b, m, .call id, hx, rfl, hlook⟩, hlast,
    hr.verdictOn_of_reportOn hj hlook hx hrow hcolumn hreport⟩, hreport⟩

/-- The report that stands on a cell was made by a look of the newest evaluation, if there is one. -/
theorem lastLook_of_newest (hj : u.Judges grid) (hr : AtRest u grid h₀ h₁ s₀ s)
    (hrow : key.row < grid.rows.length) (hcolumn : key.column ∈ u.ruleSet.targets) {g : Nat}
    (hnewest : Newest (h₀ ++ h₁) key g) :
    ∃ report at₀ since after,
      LastLook u grid (h₀ ++ h₁) s key report.verdict at₀ since after ∧
        u.ruleSet.reportOn at₀.grid key.row key.column = .ok report ∧
        ∀ g, ¬AskedFor since key g := by
  have hidle : s.ledger.find? key = none := Ledger.find?_of_isEmpty hr.idle
  rcases hr.run.newest_reported hj.background hr.isOpen hidle hnewest with
    hfailed | ⟨l₁, at₁, l₂, fanOut, report, rows, hl, hmoment, hreading, hlater⟩
  · obtain ⟨fanOut, p, b, mid, m, hx, hm, -, hanswer⟩ :=
      hr.run.reading_of_failed hj.background hr.isOpen hfailed
    obtain ⟨report, rows, hok, -⟩ := hr.report_of_judged hj hm hx hanswer hrow hcolumn
    cases hok
  obtain ⟨b, mid, m, rfl, hm, hbegan, hanswer⟩ := hreading
  have hlook := hm.later hmoment.rest
  have hx : h₀ ++ h₁ = b ++ .read (.evaluation g) key ::
      (m ++ .reported (.evaluation g) key report.verdict :: l₂) := by
    simpa using hl
  obtain ⟨report', rows', hok, hreport, -⟩ :=
    hr.report_of_judged hj hlook hx hanswer hrow hcolumn
  obtain ⟨rfl, -⟩ := Prod.mk.inj (Except.ok.inj hok)
  refine ⟨report, mid, _, l₂, ⟨⟨b, m, .evaluation g, hx, rfl, hlook⟩, fun reporter w hmem => ?_,
    hr.verdictOn_of_reportOn hj hlook hx hrow hcolumn hreport⟩, hreport, fun g' hasked => ?_⟩
  · obtain ⟨g', rfl⟩ := hr.reports_of_asked hj hl (hbegan.askedFor.append _) hmem
    exact hlater g' ⟨w, hmem⟩
  · have hle := hnewest.2 g' (by
      obtain ⟨asker, fanOut, hmem⟩ := hasked
      exact ⟨asker, fanOut, by rw [hx]; simp [hmem]⟩)
    have hrun := hr.run
    rw [hx] at hrun
    obtain ⟨asker, columns, hmem⟩ := hasked
    have hlt := hrun.asked_ascending hj.background hr.isOpen hbegan.askedFor
      ⟨asker, columns, List.mem_cons_of_mem _ hmem⟩
    omega

/-- There is a look behind the verdict that stands, and nothing was asked for the cell since. -/
theorem exists_lastLook (hj : u.Judges grid) (hr : AtRest u grid h₀ h₁ s₀ s)
    (hrow : key.row < grid.rows.length) (hcolumn : key.column ∈ u.ruleSet.targets) :
    ∃ report at₀ since after,
      LastLook u grid (h₀ ++ h₁) s key report.verdict at₀ since after ∧
        u.ruleSet.reportOn at₀.grid key.row key.column = .ok report ∧
        ∀ g, ¬AskedFor since key g := by
  by_cases hasked : ∃ g, AskedFor (h₀ ++ h₁) key g
  · obtain ⟨g, hg⟩ := hasked
    obtain ⟨newest, hnewest⟩ := hr.run.exists_newest hj.background hr.isOpen hg
    exact hr.lastLook_of_newest hj hrow hcolumn hnewest
  · have hnone : ∀ g, ¬AskedFor (h₀ ++ h₁) key g := fun g hg => hasked ⟨g, hg⟩
    obtain ⟨report, at₀, since, after, hlook, hreport⟩ :=
      hr.lastLook_of_not_asked hj hrow hcolumn hnone
    refine ⟨report, at₀, since, after, hlook, hreport, fun g ⟨asker, columns, hmem⟩ => ?_⟩
    obtain ⟨before, between, reporter, hx, -⟩ := hlook.look
    exact hnone g ⟨asker, columns, by rw [hx]; simp [hmem]⟩

end AtRest

end CellRules.Watch
