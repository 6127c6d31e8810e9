/-
CellRules.Proofs.RuleSet.OneSnapshot — what a report of all rows counts.

A run over all rows looks at the rows at its beginning and judges the cells of these. It counts the
rows when it makes its report, and by then there may be more of them. `Describes` says what the
report of a run is by the grid that it looked at and the edits until its report, and `oneSnapshot_iff`
that it describes one grid exactly if no row came in between.

A run by itself begins its batches once it has looked, and they go on between the edits in whatever
order (`Underway`); where nobody edits, that is `validateAll` (`loneReport_of_validateAll`).
-/
import CellRules.Proofs.Grid.Growing
import CellRules.Proofs.RuleSet.OneByOne

namespace CellRules

/-! ## Rows that come -/

namespace Grid

variable {g g' : Grid}

/-- The edit adds a row. -/
def Edit.isPush : Edit → Bool
  | .push _ => true
  | .set _ _ _ => false

/-- How many rows the edits add. -/
def pushes (edits : List Edit) : Nat := edits.countP Edit.isPush

theorem length_rows_take (g : Grid) (edit : Edit) :
    (g.take edit).rows.length = g.rows.length + pushes [edit] := by
  cases edit with
  | push values => exact List.length_append
  | set row column cell =>
    rw [take]
    cases hset : g.set row column cell with
    | error problem => rfl
    | ok grid => exact length_set hset

/-- Edits add rows by pushing them only. -/
theorem length_rows_takeAll (g : Grid) (edits : List Edit) :
    (g.takeAll edits).rows.length = g.rows.length + pushes edits := by
  induction edits generalizing g with
  | nil => rfl
  | cons edit edits ih =>
    have hcount : pushes (edit :: edits) = pushes [edit] + pushes edits := by
      rw [← List.singleton_append]
      exact List.countP_append
    show ((g.take edit).takeAll edits).rows.length = _
    rw [ih, length_rows_take, hcount, Nat.add_assoc]

end Grid

/-! ## What a report counts -/

/-- A report counts its cells, and has the number of rows that it was given. -/
theorem Report.metrics_ofCells (ruleSet timestamp : String) (rows : Nat)
    (cells : List CellReport) :
    (ofCells ruleSet timestamp rows cells).metrics.rows = rows ∧
      (ofCells ruleSet timestamp rows cells).metrics.cells = cells.length := by
  have hfold : ∀ r : Report, (cells.foldl add r).metrics.rows = r.metrics.rows ∧
      (cells.foldl add r).metrics.cells = r.metrics.cells + cells.length := by
    induction cells with
    | nil => exact fun _ => ⟨rfl, rfl⟩
    | cons cell cells ih =>
      intro r
      obtain ⟨hrows, hcells⟩ := ih (r.add cell)
      refine ⟨hrows, ?_⟩
      rw [List.foldl_cons, hcells, List.length_cons]
      show r.metrics.cells + 1 + cells.length = _
      omega
  obtain ⟨hrows, hcells⟩ := hfold { ruleSet, timestamp, metrics := { rows } }
  exact ⟨hrows, hcells.trans (Nat.zero_add _)⟩

namespace RuleSet

variable {s : RuleSet} {source : Source} {cells : List CellReport} {looked : Grid}
  {edits : List Grid.Edit} {report : Report} {timestamp : String} {v : Survey}
  {batches : List (List CellReport)} {pool : Pool (List CellReport)}

/-- The reports of a run are one for each row and target column that is there. -/
theorem length_inOrder (hsource : source.RowByRow) (h : s.inOrder source = .ok cells) :
    cells.length = source.rowCount * (s.columnsIn source).length := by
  rw [← List.length_map (f := keyOf), keys_of_inOrder hsource h, cellsIn, List.length_flatMap]
  simp

/-- What a report says whose run looked at a grid, which was edited until the report was made: the
cells of the rows at the look, and the number of rows at the end. -/
structure Describes (s : RuleSet) (timestamp : String) (looked : Grid) (edits : List Grid.Edit)
    (report : Report) : Prop where
  made : ∃ cells, s.inOrder looked.source = .ok cells ∧
    report = .ofCells s.name timestamp (looked.takeAll edits).source.rowCount cells
  cells : report.metrics.cells = looked.rows.length * (s.columnsIn looked.source).length
  rows : report.metrics.rows = looked.rows.length + Grid.pushes edits

/-- The report counts the rows of the grid that it describes, and a cell for each of them and each
target column. -/
def OneSnapshot (s : RuleSet) (looked : Grid) (report : Report) : Prop :=
  report.metrics.rows = looked.rows.length ∧
    report.metrics.cells = report.metrics.rows * (s.columnsIn looked.source).length

theorem describes_of_inOrder (hcells : s.inOrder looked.source = .ok cells) :
    s.Describes timestamp looked edits
      (.ofCells s.name timestamp (looked.takeAll edits).source.rowCount cells) := by
  obtain ⟨hrows, hcount⟩ :=
    Report.metrics_ofCells s.name timestamp (looked.takeAll edits).source.rowCount cells
  exact ⟨⟨cells, hcells, rfl⟩, hcount.trans (length_inOrder looked.rowByRow_source hcells),
    hrows.trans (looked.length_rows_takeAll edits)⟩

/-- What the batches of a run answer, gathered, are the reports of the rows at its look. -/
theorem inOrder_of_batches (hlook : (s.survey looked.source).answer = .ok v)
    (h : (batches.map Except.ok).Perm ((s.batches v).map Work.answer)) :
    s.inOrder looked.source = .ok (gather batches) := by
  rw [inOrder, hlook]
  exact answer_of_batches (ascending_survey looked.rowByRow_source.ascending hlook) h

theorem Describes.oneSnapshot_iff (h : s.Describes timestamp looked edits report) :
    s.OneSnapshot looked report ↔ Grid.pushes edits = 0 := by
  rw [OneSnapshot, h.cells, h.rows]
  constructor
  · rintro ⟨hrows, -⟩
    omega
  · intro hnone
    rw [hnone]
    exact ⟨rfl, rfl⟩

/-- Where rows came, the numbers disagree unless there is no column to judge. -/
theorem Describes.cells_eq_iff (h : s.Describes timestamp looked edits report) :
    report.metrics.cells = report.metrics.rows * (s.columnsIn looked.source).length ↔
      Grid.pushes edits = 0 ∨ s.columnsIn looked.source = [] := by
  rw [h.cells, h.rows, Nat.add_mul, ← List.length_eq_zero_iff, ← Nat.mul_eq_zero]
  omega

/-! ## Runs by themselves -/

/-- The batches of a run that has looked are under way, and these edits were made since. -/
inductive Underway (s : RuleSet) (v : Survey) : List Grid.Edit → Pool (List CellReport) → Prop where
  | begun : Underway s v [] (s.pool false v)
  | edited {edits : List Grid.Edit} {pool : Pool (List CellReport)} (edit : Grid.Edit) :
    Underway s v edits pool → Underway s v (edits ++ [edit]) pool
  | goesOn {edits : List Grid.Edit} {pool next : Pool (List CellReport)} :
    Underway s v edits pool → pool.Next next → Underway s v edits next

/-- Edits make no difference to the batches. -/
theorem Underway.sound (h : s.Underway v edits pool) : pool.Sound (s.batches v) := by
  induction h with
  | begun => exact Pool.sound_start _ _ _
  | edited _ _ ih => exact ih
  | goesOn _ hnext ih =>
    obtain ⟨now, id, l, l', events, -, hstep⟩ := hnext
    exact ih.step hstep

/-- A run by itself looks at a grid, and makes its report when all its batches have ended. -/
def LoneReport (s : RuleSet) (timestamp : String) (looked : Grid) (edits : List Grid.Edit)
    (report : Report) : Prop :=
  ∃ v pool batches, (s.survey looked.source).answer = .ok v ∧ s.Underway v edits pool ∧
    pool.result? = some (.ok batches) ∧
    report = .ofCells s.name timestamp (looked.takeAll edits).source.rowCount (gather batches)

theorem LoneReport.describes (h : s.LoneReport timestamp looked edits report) :
    s.Describes timestamp looked edits report := by
  obtain ⟨v, pool, batches, hlook, hunderway, hresult, rfl⟩ := h
  exact describes_of_inOrder (inOrder_of_batches hlook (hunderway.sound.result hresult))

/-- What a run reports beside which nothing happens is such a report. -/
theorem loneReport_of_validateAll (h : (s.validateAll looked.source timestamp).2 = .ok report) :
    s.LoneReport timestamp looked [] report := by
  rw [validateAll] at h
  split at h
  · cases h
  · rename_i events cells hcells
    have hmay := mayAnswer_of_evaluateAll (congrArg Prod.snd hcells)
    unfold MayAnswer at hmay
    split at hmay
    · cases hmay
    · rename_i v hlook
      obtain ⟨result, ⟨pool, hrun, hresult⟩, hanswer⟩ := hmay
      cases result with
      | error problem => cases hanswer
      | ok batches =>
        obtain rfl := Except.ok.inj hanswer
        obtain rfl := Except.ok.inj h
        have hunderway : s.Underway v [] pool := by
          clear hresult
          induction hrun with
          | refl => exact .begun
          | tail _ hnext ih => exact ih.goesOn hnext
        exact ⟨v, pool, batches, hlook, hunderway, hresult, rfl⟩

end RuleSet

end CellRules
