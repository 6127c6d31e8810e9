/-
CellRules.Proofs.RuleSet.OneByOne — a run over all rows is the judging of each cell.

A run over all rows reads all rows once and shows them to every rule. Judging one cell reads its row
by the index and shows the rules other rows only if some rule of the column looks at them. Where
all rows are the rows read one by one, both come to the same report (`answer_evaluateCell_of_mem`).
The reports of a run are on the rows in order, and in each row on the target columns that are there,
in order (`keys_of_inOrder`).

`allRows_one_by_one` says both of whatever a run over all rows may answer, and so of what it answers
by itself.
-/
import CellRules.Proofs.RuleSet.Batches
import Mathlib.Data.Prod.Lex
import Mathlib.Data.String.Basic

namespace CellRules

/-! ## Sets in order -/

section Ascending

variable {α : Type} [LinearOrder α] [DecidableEq α] [DecidableLT α]

theorem Ascending.pairwise_insert {a : α} {set : List α} (h : set.Pairwise (· < ·)) :
    (insert a set).Pairwise (· < ·) := by
  induction set with
  | nil => exact List.pairwise_singleton _ _
  | cons b bs ih =>
    obtain ⟨hb, hbs⟩ := List.pairwise_cons.mp h
    rw [insert]
    split
    · exact h
    · rename_i hne
      split
      · rename_i hlt
        refine List.pairwise_cons.mpr ⟨fun c hc => ?_, h⟩
        rcases List.mem_cons.mp hc with rfl | hc
        · exact hlt
        · exact lt_trans hlt (hb c hc)
      · rename_i hle
        refine List.pairwise_cons.mpr ⟨fun c hc => ?_, ih hbs⟩
        rcases mem_insert.mp hc with rfl | hc
        · exact lt_of_le_of_ne (not_lt.mp hle) (Ne.symm hne)
        · exact hb c hc

/-- Sets are listed in ascending order, each member once. -/
theorem Ascending.pairwise_ofList (items : List α) : (ofList items).Pairwise (· < ·) := by
  have hadd : ∀ set : List α, set.Pairwise (· < ·) → (addAll set items).Pairwise (· < ·) := by
    induction items with
    | nil => exact fun _ h => h
    | cons item items ih => exact fun set h => ih (insert item set) (pairwise_insert h)
  exact hadd [] .nil

end Ascending

namespace RuleSet

variable {s : RuleSet} {source : Source} {cells : List CellReport} {rows : List RowContext}
  {report : CellReport}

/-! ## Reports in order -/

/-- The row and the column that a report is on. -/
def keyOf (report : CellReport) : Nat × String := (report.row, report.column)

/-- The target columns that a source has. -/
def columnsIn (s : RuleSet) (source : Source) : List String :=
  s.targets.filter fun column => source.columns.contains column

/-- The cells that a run over all rows of a source judges. -/
def cellsIn (s : RuleSet) (source : Source) : List (Nat × String) :=
  (List.range source.rowCount).flatMap fun row => (s.columnsIn source).map (row, ·)

theorem mem_cellsIn {row : Nat} {column : String} : (row, column) ∈ s.cellsIn source ↔
    row < source.rowCount ∧ column ∈ s.targets ∧ column ∈ source.columns := by
  simp [cellsIn, columnsIn]

/-- They come row by row, and column by column in each, none twice. -/
theorem pairwise_cellsIn (s : RuleSet) (source : Source) :
    (s.cellsIn source).Pairwise (Prod.Lex (· < ·) (· < ·)) := by
  refine List.pairwise_flatMap.mpr ⟨fun row _ => ?_, ?_⟩
  · rw [List.pairwise_map]
    have hcolumns : (s.columnsIn source).Pairwise (· < ·) :=
      (Ascending.pairwise_ofList _).filter _
    exact hcolumns.imp fun h => .right row h
  · refine List.pairwise_lt_range.imp fun {i j} hlt x hx y hy => ?_
    obtain ⟨_, -, rfl⟩ := List.mem_map.mp hx
    obtain ⟨_, -, rfl⟩ := List.mem_map.mp hy
    exact .left _ _ hlt

/-- The reports of one row after the other are those on the cells of all rows. -/
theorem inOrder_eq_ok (h : s.inOrder source = .ok cells) : ∃ rows, source.allRows = .ok rows ∧
    (cellsOf (s.columnsIn source) rows).mapM (s.reportAmong ⟨rows⟩) = .ok cells := by
  rw [inOrder, answer_survey_source] at h
  cases hall : source.allRows with
  | error problem => simp [hall, Except.map, Except.bind] at h
  | ok rows =>
    rw [hall] at h
    simp only [Except.map, Except.bind, answer_judgeRows] at h
    exact ⟨rows, rfl, h⟩

/-- What a report among rows says of its cell. -/
theorem reportAmong_ok {among : Dataset} {cell : RowContext × String}
    (h : s.reportAmong among cell = .ok report) : keyOf report = (cell.1.row, cell.2) ∧
      ∃ ctx, cell.1.focus cell.2 = .ok ctx ∧
        (s.judge (s.rulesFor cell.2) ctx among).answer = .ok report := by
  cases hfocus : cell.1.focus cell.2 with
  | error problem => simp [reportAmong, hfocus, Except.bind] at h
  | ok ctx =>
    simp only [reportAmong, hfocus, Except.bind] at h
    obtain ⟨hrow, hcolumn⟩ := report_of_judge h
    obtain ⟨-, rfl⟩ := focus_ok hfocus
    exact ⟨Prod.ext hrow hcolumn, _, rfl, h⟩

/-- The reports of one row after the other are on the cells of the run, in order. -/
theorem keys_of_inOrder (hsource : source.RowByRow) (h : s.inOrder source = .ok cells) :
    cells.map keyOf = s.cellsIn source := by
  obtain ⟨rows, hall, hcells⟩ := inOrder_eq_ok h
  have hkeys : cells.map keyOf
      = (cellsOf (s.columnsIn source) rows).map fun cell => (cell.1.row, cell.2) := by
    rw [← List.forall₂_eq_eq_eq, List.forall₂_map_left_iff, List.forall₂_map_right_iff]
    refine List.Forall₂.flip ((mapM_eq_ok.mp hcells).imp fun cell report hreport => ?_)
    exact (reportAmong_ok hreport).1
  rw [hkeys, cellsIn, ← hsource.indices hall, cellsOf, List.map_flatMap, List.flatMap_map]
  simp [Function.comp_def]

/-! ## Cells by themselves -/

/-- Judging a cell by itself comes to what its rules say of its row among all rows. -/
theorem answer_evaluateCell_of_mem (hsource : source.RowByRow) (hall : source.allRows = .ok rows)
    {raw ctx : RowContext} (hraw : raw ∈ rows) {column : String} (hcolumn : column ∈ s.targets)
    (hfocus : raw.focus column = .ok ctx)
    (h : (s.judge (s.rulesFor column) ctx ⟨rows⟩).answer = .ok report) :
    (s.evaluateCell source raw.row column).answer = .ok report := by
  have hrules : ¬ (s.rulesFor column).isEmpty := by
    obtain ⟨r, hr⟩ := exists_mem_rulesFor hcolumn
    rw [List.isEmpty_iff]
    exact List.ne_nil_of_mem hr
  have hread : readCell (s.rulesFor column) source raw.row column = .ok (ctx,
      if (s.rulesFor column).any (·.needsRows) then ⟨rows⟩ else .empty) := by
    simp only [readCell, hsource.row_of_mem hall hraw, bind, Except.bind, hfocus, hall]
    split <;> rfl
  rw [evaluateCell, answer_seq, answer_judging, if_neg hrules, hread]
  -- rules that do not look at other rows are shown none
  cases hneeds : (s.rulesFor column).any (·.needsRows) with
  | true => simp [Except.bind, h, Except.map, Work.answer, pure]
  | false =>
    rw [judge_of_not_needsRows hneeds ⟨rows⟩ .empty] at h
    simp [Except.bind, h, Except.map, Work.answer, pure]

/-- A run over all rows that answers with reports has one on each cell of a target column that is
there, in the order of the rows and then of the columns, and judging the cell by itself comes to the
same report. -/
theorem allRows_one_by_one {limited : Bool} (hsource : source.RowByRow)
    (h : s.MayAnswer limited source (.ok cells)) :
    (∀ row column, (row, column) ∈ cells.map keyOf ↔
        row < source.rowCount ∧ column ∈ s.targets ∧ column ∈ source.columns) ∧
      (cells.map keyOf).Pairwise (Prod.Lex (· < ·) (· < ·)) ∧
      ∀ report ∈ cells,
        (s.evaluateCell source report.row report.column).answer = .ok report := by
  have hcells := inOrder_of_mayAnswer hsource.ascending h
  rw [keys_of_inOrder hsource hcells]
  refine ⟨fun row column => mem_cellsIn, s.pairwise_cellsIn source, ?_⟩
  obtain ⟨rows, hall, hreports⟩ := inOrder_eq_ok hcells
  refine forall_of_mapM_ok hreports fun ⟨raw, column⟩ hcell report hreport => ?_
  obtain ⟨ctx₀, hraw, hpairs⟩ := List.mem_flatMap.mp hcell
  obtain ⟨column₀, hcolumn, hpair⟩ := List.mem_map.mp hpairs
  obtain ⟨rfl, rfl⟩ := Prod.mk.inj hpair
  obtain ⟨hkey, ctx, hfocus, hjudge⟩ := reportAmong_ok hreport
  obtain ⟨hrow, hcolumn'⟩ := Prod.mk.inj hkey
  rw [hrow, hcolumn']
  exact answer_evaluateCell_of_mem hsource hall hraw (List.mem_filter.mp hcolumn).1 hfocus hjudge

/-- The contacts are judged in names and addresses, and not in phones. -/
theorem allRows_one_by_one_contacts : ∃ cells,
    (contacts.evaluateAll threeContacts.source).2 = .ok cells ∧ cells.length = 6 ∧
      (∀ row column, (row, column) ∈ cells.map keyOf ↔
        row < 3 ∧ column ∈ ["Email", "Name", "Phone"] ∧ column ∈ ["Name", "Email"]) ∧
      (cells.map keyOf).Pairwise (Prod.Lex (· < ·) (· < ·)) ∧
      ∀ report ∈ cells, (contacts.evaluateCell threeContacts.source report.row
        report.column).answer = .ok report := by
  have hlength : (contacts.evaluateAll threeContacts.source).2.toOption.map List.length
      = some 6 := by
    decide +kernel
  have htargets : contacts.targets = ["Email", "Name", "Phone"] := by decide +kernel
  cases hall : (contacts.evaluateAll threeContacts.source).2 with
  | error problem => simp [hall, Except.toOption] at hlength
  | ok cells =>
    refine ⟨cells, rfl, by simpa [hall, Except.toOption] using hlength, ?_⟩
    have hevery := allRows_one_by_one threeContacts.rowByRow_source (mayAnswer_of_evaluateAll hall)
    rw [htargets] at hevery
    exact hevery

end RuleSet

end CellRules
