/-
CellRules.Proofs.RuleSet.AllRows — what a run over all rows of a grid finds.

Every row and every target column that is there get their report, and nothing else does; the reports
are those of judging each cell alone. The batches of a run leave out no row (`flatten_chunks`), and
gathering them leaves out no batch.
-/
import CellRules.Proofs.RuleSet.Locality

namespace CellRules.RuleSet

variable {s : RuleSet} {g : Grid} {row : Nat} {column : String} {report : CellReport}

theorem answer_writeAll (events : List Event) : (writeAll events).answer = .ok () := by
  induction events with
  | nil => rfl
  | cons event events ih => exact ih

/-- A look at a grid sees all its rows, and the target columns that are there. -/
theorem answer_survey (s : RuleSet) (g : Grid) :
    (s.survey g.source).answer =
      .ok ⟨s.targets.filter fun column => g.columns.contains column, ⟨g.contexts⟩⟩ := by
  unfold survey
  rw [answer_seq, answer_writeAll]
  rfl

/-- The cells of rows of a grid are judged one by one. -/
theorem answer_judgeCells (hg : g.Regular) {cells : List (RowContext × String)}
    (hcells : ∀ ctx column, (ctx, column) ∈ cells →
      ∃ row, row < g.rows.length ∧ ctx = g.contextAt row ∧ column ∈ g.columns)
    {reports : List CellReport} (h : (s.judgeCells ⟨g.contexts⟩ cells).answer = .ok reports) :
    (∀ report ∈ reports, s.reportOn g report.row report.column = .ok report) ∧
      ∀ row column, (g.contextAt row, column) ∈ cells →
        ∃ report ∈ reports, s.reportOn g row column = .ok report := by
  induction cells generalizing reports with
  | nil =>
    obtain rfl := Except.ok.inj h
    exact ⟨nofun, nofun⟩
  | cons cell cells ih =>
    obtain ⟨ctx, column⟩ := cell
    obtain ⟨row, hrow, rfl, hcolumn⟩ := hcells ctx column (by simp)
    obtain ⟨report, hreport⟩ := s.reportOn_ok g row column
    rw [judgeCells, answer_seq, Grid.focus_contextAt hg hrow hcolumn] at h
    change ((s.judge _ _ _) >>= _).answer = _ at h
    rw [answer_seq, show (s.judge _ _ _).answer = _ from hreport] at h
    simp only [Except.bind, answer_seq] at h
    cases hrest : (s.judgeCells ⟨g.contexts⟩ cells).answer with
    | error p =>
      rw [hrest] at h
      cases h
    | ok rest =>
      rw [hrest] at h
      obtain rfl := Except.ok.inj h
      obtain ⟨hall, hevery⟩ := ih (fun ctx c hmem => hcells ctx c (by simp [hmem])) hrest
      obtain ⟨hkeyRow, hkeyColumn⟩ := reportOn_key hreport
      constructor
      · intro r hr
        rcases List.mem_cons.mp hr with rfl | hr
        · rw [hkeyRow, hkeyColumn]
          exact hreport
        · exact hall r hr
      · intro other c hmem
        rcases List.mem_cons.mp hmem with heq | hmem
        · obtain ⟨hctx, rfl⟩ := Prod.mk.inj heq
          have hother : other = row := by
            have hrows := congrArg RowContext.row hctx
            rwa [Grid.row_contextAt, Grid.row_contextAt] at hrows
          exact ⟨report, by simp, hother ▸ hreport⟩
        · obtain ⟨r, hr, hok⟩ := hevery other c hmem
          exact ⟨r, by simp [hr], hok⟩

/-- Judging cells of rows of a grid always comes to reports. -/
theorem judgeCells_ok (hg : g.Regular) {cells : List (RowContext × String)}
    (hcells : ∀ ctx column, (ctx, column) ∈ cells →
      ∃ row, row < g.rows.length ∧ ctx = g.contextAt row ∧ column ∈ g.columns) :
    ∃ reports, (s.judgeCells ⟨g.contexts⟩ cells).answer = .ok reports := by
  induction cells with
  | nil => exact ⟨[], rfl⟩
  | cons cell cells ih =>
    obtain ⟨ctx, column⟩ := cell
    obtain ⟨row, hrow, rfl, hcolumn⟩ := hcells ctx column (by simp)
    obtain ⟨report, hreport⟩ := s.reportOn_ok g row column
    obtain ⟨rest, hrest⟩ := ih fun ctx c hmem => hcells ctx c (by simp [hmem])
    refine ⟨report :: rest, ?_⟩
    rw [judgeCells, answer_seq, Grid.focus_contextAt hg hrow hcolumn]
    change ((s.judge _ _ _) >>= _).answer = _
    rw [answer_seq, show (s.judge _ _ _).answer = _ from hreport]
    simp only [Except.bind, answer_seq, hrest]
    rfl

/-- The pieces of a list make up the list. -/
theorem flatten_chunks {α : Type} (size : Nat) (l : List α) : (chunks size l).flatten = l := by
  induction l using chunks.induct size with
  | case1 => rw [chunks]; rfl
  | case2 a as ih => rw [chunks, List.flatten_cons, ih, List.cons_append, List.take_append_drop]

/-- A report is gathered if it is in a batch. -/
theorem mem_gather {batches : List (List CellReport)} :
    report ∈ gather batches ↔ ∃ batch ∈ batches, report ∈ batch := by
  simp [gather, List.mem_flatten, List.mem_mergeSort]

/-- The batches of a survey are made of its rows, and every row is in one. -/
theorem mem_batches {v : Survey} {work : Work (List CellReport)} :
    work ∈ s.batches v → ∃ batch, work = s.judgeRows v batch ∧ ∀ ctx ∈ batch, ctx ∈ v.rows.rows := by
  unfold batches
  split
  · intro h
    obtain ⟨batch, hbatch, rfl⟩ := List.mem_map.mp h
    refine ⟨batch, rfl, fun ctx hctx => ?_⟩
    rw [← flatten_chunks s.throttle.batchSize v.rows.rows]
    exact List.mem_flatten.mpr ⟨batch, hbatch, hctx⟩
  · intro h
    obtain rfl := List.mem_singleton.mp h
    exact ⟨_, rfl, fun ctx hctx => hctx⟩

theorem exists_batch {v : Survey} {ctx : RowContext} (h : ctx ∈ v.rows.rows) :
    ∃ batch, s.judgeRows v batch ∈ s.batches v ∧ ctx ∈ batch ∧
      ∀ other ∈ batch, other ∈ v.rows.rows := by
  unfold batches
  split
  · rw [← flatten_chunks s.throttle.batchSize v.rows.rows] at h
    obtain ⟨batch, hbatch, hctx⟩ := List.mem_flatten.mp h
    refine ⟨batch, List.mem_map.mpr ⟨batch, hbatch, rfl⟩, hctx, fun other hother => ?_⟩
    rw [← flatten_chunks s.throttle.batchSize v.rows.rows]
    exact List.mem_flatten.mpr ⟨batch, hbatch, hother⟩
  · exact ⟨_, List.mem_singleton.mpr rfl, h, fun _ hother => hother⟩

/-- The cells of rows of a grid are in rows of the grid. -/
theorem mem_cellsOf {columns : List String} (hcolumns : ∀ column ∈ columns, column ∈ g.columns)
    {batch : List RowContext} (hbatch : ∀ ctx ∈ batch, ctx ∈ g.contexts) {ctx : RowContext}
    (h : (ctx, column) ∈ cellsOf columns batch) :
    ∃ row, row < g.rows.length ∧ ctx = g.contextAt row ∧ column ∈ g.columns := by
  obtain ⟨ctx', hctx, hpair⟩ := List.mem_flatMap.mp h
  obtain ⟨c, hc, heq⟩ := List.mem_map.mp hpair
  obtain ⟨rfl, rfl⟩ := Prod.mk.inj heq
  have hrow := hbatch ctx' hctx
  rw [Grid.contexts_eq, List.mem_map] at hrow
  obtain ⟨row, hlt, rfl⟩ := hrow
  exact ⟨row, List.mem_range.mp hlt, rfl, hcolumns c hc⟩

/-- Every batch of a look at a grid comes to reports. -/
theorem batches_ok (hg : g.Regular) {columns : List String}
    (hcolumns : ∀ column ∈ columns, column ∈ g.columns) {work : Work (List CellReport)}
    (h : work ∈ s.batches ⟨columns, ⟨g.contexts⟩⟩) : ∃ reports, work.answer = .ok reports := by
  obtain ⟨batch, rfl, hbatch⟩ := mem_batches h
  exact judgeCells_ok hg fun _ _ => mem_cellsOf hcolumns hbatch

/-- What the batches of a look at a grid answer, gathered: the reports on all cells of all rows and
of the columns of the look. -/
theorem reportOn_gather (hg : g.Regular) {columns : List String}
    (hcolumns : ∀ column ∈ columns, column ∈ g.columns) {batches : List (List CellReport)}
    (h : (batches.map Except.ok).Perm
      ((s.batches ⟨columns, ⟨g.contexts⟩⟩).map Work.answer)) :
    (∀ report ∈ gather batches, s.reportOn g report.row report.column = .ok report) ∧
      ∀ row column, row < g.rows.length → column ∈ columns →
        ∃ report ∈ gather batches, s.reportOn g row column = .ok report := by
  constructor
  · intro report hreport
    obtain ⟨batch, hbatch, hmem⟩ := mem_gather.mp hreport
    obtain ⟨work, hwork, hanswer⟩ :=
      List.mem_map.mp (h.mem_iff.mp (List.mem_map.mpr ⟨batch, hbatch, rfl⟩))
    obtain ⟨rows, rfl, hrows⟩ := mem_batches hwork
    exact (answer_judgeCells hg (fun _ _ => mem_cellsOf hcolumns hrows) hanswer).1 report hmem
  · intro row column hrow hcolumn
    have hctx : g.contextAt row ∈ g.contexts := by
      rw [Grid.contexts_eq]
      exact List.mem_map.mpr ⟨row, List.mem_range.mpr hrow, rfl⟩
    obtain ⟨rows, hwork, hmem, hrows⟩ :=
      exists_batch (s := s) (v := ⟨columns, ⟨g.contexts⟩⟩) hctx
    obtain ⟨batch, hbatch, hanswer⟩ :=
      List.mem_map.mp (h.mem_iff.mpr (List.mem_map.mpr ⟨_, hwork, rfl⟩))
    have hcell : (g.contextAt row, column) ∈ cellsOf columns rows :=
      List.mem_flatMap.mpr ⟨_, hmem, List.mem_map.mpr ⟨column, hcolumn, rfl⟩⟩
    obtain ⟨report, hreport, hok⟩ :=
      (answer_judgeCells hg (fun _ _ => mem_cellsOf hcolumns hrows) hanswer.symm).2 row column
        hcell
    exact ⟨report, mem_gather.mpr ⟨batch, hbatch, hreport⟩, hok⟩

end CellRules.RuleSet
