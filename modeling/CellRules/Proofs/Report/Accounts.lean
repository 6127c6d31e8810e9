/-
CellRules.Proofs.Report.Accounts — a report accounts for its cells.

A report takes in one cell after the other: it counts cells by their merged verdicts, rules by the
status of their outcomes, and lists the outcomes that fail. That these counts agree is due to how a
rule ends: it skips and passes with the success only, and one that fails or breaks down has a verdict
that fails (`Outcome.Sound`, `sound_of_evaluate`). Since the verdict of a cell is merged from its
outcomes, a cell is an error exactly if one of them is (`CellReport.Sound.isError_iff`). What a report
counts of any cells is `Counts`, kept by each cell it takes in; of cells that were evaluated it
accounts for every outcome (`report_accounts`).
-/
import CellRules.Proofs.RuleSet.Batches
import CellRules.Proofs.RuleSet.RunOrder

namespace CellRules

variable {r : Rule} {o : Outcome} {ctx : RowContext} {rows : Dataset} {cell : CellReport}
  {cells : List CellReport} {report : Report}

/-! ## Outcomes -/

/-- The verdict of an outcome is as its status says. -/
def Outcome.Sound (o : Outcome) : Prop :=
  match o.status with
  | .passed | .skipped => o.verdict = .success
  | .failed => o.verdict.fails = true
  | .faulted => o.verdict.isError = true

/-- The outcomes that fail are those of rules that failed or broke down. -/
theorem Outcome.Sound.fails_iff (h : o.Sound) :
    o.fails = true ↔ o.status = .failed ∨ o.status = .faulted := by
  unfold Sound at h
  cases hstatus : o.status <;> simp only [hstatus] at h
  case passed | skipped => simp [Outcome.fails, Verdict.fails, h, Verdict.success]
  case failed => simp [Outcome.fails, h]
  case faulted => simp [Outcome.fails, (Bool.and_eq_true_iff.mp h).1]

/-- Checks end in an outcome that is as its status says. -/
theorem Rule.sound_of_runValidators {vs : List Validator}
    (h : (r.runValidators ctx rows vs).answer = .ok o) : o.Sound := by
  induction vs with
  | nil =>
    obtain rfl := Except.ok.inj h
    exact rfl
  | cons v vs ih =>
    simp only [runValidators, Work.answer, answer_runValidator] at h
    cases hanswer : v.answer ctx rows with
    | error detail =>
      rw [hanswer] at h
      obtain rfl := Except.ok.inj h
      exact rfl
    | ok w =>
      simp only [hanswer] at h
      cases hpasses : w.passes with
      | true => exact ih (by simpa [hpasses] using h)
      | false =>
        simp only [hpasses, Bool.false_eq_true, if_false] at h
        obtain rfl := Except.ok.inj h
        simp [Outcome.Sound, Verdict.fails, hpasses]

/-- However a rule ends, its outcome is as its status says. -/
theorem Rule.sound_of_evaluate (h : (r.evaluate ctx rows).answer = .ok o) : o.Sound := by
  unfold evaluate at h
  split at h
  · exact sound_of_runValidators h
  · split at h
    · exact sound_of_runValidators h
    · obtain rfl := Except.ok.inj h
      exact rfl
    · obtain rfl := Except.ok.inj h
      exact rfl

/-! ## Reports on cells -/

theorem Severity.eq_error_of_le {level : Severity} (h : .error ≤ level) : level = .error := by
  revert h
  cases level <;> decide

/-- The outcomes of a cell are as their status says, and its verdict is merged from theirs. -/
structure CellReport.Sound (cell : CellReport) : Prop where
  outcomes : ∀ o ∈ cell.outcomes, o.Sound
  merged : Merged cell.verdict cell.outcomes

/-- A cell is an error exactly if an outcome is. -/
theorem CellReport.Sound.isError_iff (h : cell.Sound) :
    cell.verdict.isError = true ↔ ∃ o ∈ cell.outcomes, o.verdict.isError = true := by
  simp only [Verdict.isError, Bool.and_eq_true, beq_iff_eq]
  constructor
  · rintro ⟨hfails, hlevel⟩
    obtain ⟨o, ho, hofails, hsame⟩ := h.merged.reached hfails
    exact ⟨o, ho, hofails, hsame.trans hlevel⟩
  · rintro ⟨o, ho, hofails, hlevel⟩
    have hfails := h.merged.fails_iff.mpr ⟨o, ho, hofails⟩
    have hle := h.merged.worst o ho hofails
    rw [hlevel] at hle
    exact ⟨hfails, Severity.eq_error_of_le hle⟩

/-- Judging a cell by any rules makes a sound report. -/
theorem RuleSet.sound_of_judge {s : RuleSet} {rules : List Rule}
    (h : (s.judge rules ctx rows).answer = .ok cell) : cell.Sound := by
  obtain ⟨outcomes, houtcomes⟩ := exists_outcomes ctx rows rules
  rw [judge, answer_seq, answer_runRules houtcomes] at h
  obtain rfl := Except.ok.inj h
  refine ⟨fun o ho => ?_, merged_merge _⟩
  obtain ⟨i, hi, rfl⟩ := List.getElem_of_mem (List.mem_of_mem_take ho)
  obtain ⟨-, hall⟩ := List.forall₂_iff_get.mp houtcomes
  exact Rule.sound_of_evaluate (hall i (by rwa [houtcomes.length_eq]) hi)

theorem CellReport.sound_empty (row : Nat) (column : String) (halted : Bool) :
    (CellReport.ofOutcomes row column [] halted).Sound :=
  ⟨nofun, merged_merge []⟩

/-- Work that is not cancelled in time answers what it answers if nobody cancels. -/
theorem Work.answer_of_runUntil {α : Type} {w : Work α} {cancelAt : Option Nat} {now : Nat} {a : α}
    (h : (w.runUntil cancelAt now).2 = .ok a) : w.answer = .ok a := by
  induction w generalizing now with
  | done answer => exact h
  | log event rest ih => exact ih h
  | wait millis rest ih =>
    rw [runUntil] at h
    split at h
    · cases h
    · exact ih h
  | checkpoint rest ih =>
    rw [runUntil] at h
    split at h
    · cases h
    · exact ih h

/-- A report that some rule set makes: on the cell of a context, on a cell of a source, or in a run
over all rows of a source; cancelled too late or not at all, and the batches of the run in whatever
order. -/
inductive CellReport.Evaluated : CellReport → Prop
  | ofContext {s : RuleSet} {ctx : RowContext} {rows : Dataset} {cancelAt : Option Nat} {now : Nat}
      {cell : CellReport} (h : ((s.evaluateContext ctx rows).runUntil cancelAt now).2 = .ok cell) :
      Evaluated cell
  | ofCell {s : RuleSet} {source : Source} {row : Nat} {column : String} {cancelAt : Option Nat}
      {now : Nat} {cell : CellReport}
      (h : ((s.evaluateCell source row column).runUntil cancelAt now).2 = .ok cell) :
      Evaluated cell
  | ofAllRows {s : RuleSet} {limited : Bool} {source : Source} {v : RuleSet.Survey}
      {p : Pool (List CellReport)} {batches : List (List CellReport)} {cell : CellReport}
      (hsurvey : (s.survey source).answer = .ok v)
      (hrun : Relation.ReflTransGen Pool.Goes (s.pool limited v) p)
      (hresult : p.result? = some (.ok batches)) (hcell : cell ∈ RuleSet.gather batches) :
      Evaluated cell

theorem RuleSet.sound_of_evaluateContext {s : RuleSet}
    (h : (s.evaluateContext ctx rows).answer = .ok cell) : cell.Sound := by
  unfold evaluateContext at h
  split at h
  · cases h
  · exact sound_of_judge h

theorem RuleSet.sound_of_evaluateCell {s : RuleSet} {source : Source} {row : Nat} {column : String}
    (h : (s.evaluateCell source row column).answer = .ok cell) : cell.Sound := by
  rw [evaluateCell, answer_seq, answer_judging] at h
  split at h
  · obtain rfl := Except.ok.inj h
    exact CellReport.sound_empty ..
  · cases hread : readCell (s.rulesFor column) source row column with
    | error problem =>
      rw [hread] at h
      cases h
    | ok read =>
      obtain ⟨ctx, rows⟩ := read
      obtain ⟨judged, hjudged⟩ := s.judge_ok (s.rulesFor column) ctx rows
      simp only [hread, Except.bind, hjudged, Except.map] at h
      obtain rfl := Except.ok.inj h
      exact sound_of_judge hjudged

theorem RuleSet.sound_of_reportAmong {s : RuleSet} {place : RowContext × String}
    (h : s.reportAmong rows place = .ok cell) : cell.Sound := by
  unfold reportAmong at h
  cases hfocus : place.1.focus place.2 with
  | error problem =>
    rw [hfocus] at h
    cases h
  | ok ctx =>
    rw [hfocus] at h
    exact sound_of_judge h

/-- However the batches of a run take turns, the reports that it gathers are sound. -/
theorem RuleSet.sound_of_goes {s : RuleSet} {limited : Bool} {v : Survey}
    {p : Pool (List CellReport)} {batches : List (List CellReport)}
    (hrun : Relation.ReflTransGen Pool.Goes (s.pool limited v) p)
    (hresult : p.result? = some (.ok batches)) (hcell : cell ∈ gather batches) : cell.Sound := by
  obtain ⟨batch, hbatch, hmem⟩ := mem_gather.mp hcell
  have hperm := Pool.perm_of_goes hrun hresult
  obtain ⟨work, hwork, hanswer⟩ :=
    List.mem_map.mp (hperm.mem_iff.mp (List.mem_map_of_mem hbatch))
  obtain ⟨rows, rfl, -⟩ := mem_batches hwork
  rw [answer_judgeRows] at hanswer
  exact forall_of_mapM_ok hanswer (fun _ _ _ => sound_of_reportAmong) cell hmem

/-- Every report that is made is sound. -/
theorem CellReport.Evaluated.sound (h : cell.Evaluated) : cell.Sound := by
  cases h with
  | ofContext h => exact RuleSet.sound_of_evaluateContext (Work.answer_of_runUntil h)
  | ofCell h => exact RuleSet.sound_of_evaluateCell (Work.answer_of_runUntil h)
  | ofAllRows _ hrun hresult hcell => exact RuleSet.sound_of_goes hrun hresult hcell

/-! ## Counting -/

/-- The outcomes of some cells, cell by cell in the order in which the rules ran. -/
def outcomesOf (cells : List CellReport) : List Outcome := cells.flatMap (·.outcomes)

/-- The issues of a cell: its outcomes that fail, in order. -/
def issuesOf (cell : CellReport) : List Issue :=
  (cell.outcomes.filter Outcome.fails).map (Issue.ofOutcome cell.row cell.column)

/-- What a report counts and lists of any cells that it has taken in. -/
structure Counts (cells : List CellReport) (report : Report) : Prop where
  cellCount : report.metrics.cells = cells.length
  invalidCells : report.metrics.invalidCells = cells.countP (·.verdict.fails)
  evaluated : report.metrics.rulesEvaluated = (outcomesOf cells).countP (·.status != .skipped)
  skipped : report.metrics.rulesSkipped = (outcomesOf cells).countP (·.status == .skipped)
  failed : report.metrics.rulesFailed = (outcomesOf cells).countP (·.fails)
  faults : report.metrics.faults
    = (outcomesOf cells).countP fun o => o.status == .faulted && o.fails
  issues : report.issues = cells.flatMap issuesOf

/-- Of two tests one of which is the other's negation, just one counts each member. -/
theorem countP_add_countP_of_not {α : Type} {p q : α → Bool} (h : ∀ a, q a = !p a) (l : List α) :
    l.countP p + l.countP q = l.length := by
  rw [List.length_eq_countP_add_countP p]
  congr 1
  exact List.countP_congr fun a _ => by simp [h]

theorem outcomesOf_concat (cells : List CellReport) (cell : CellReport) :
    outcomesOf (cells ++ [cell]) = outcomesOf cells ++ cell.outcomes := by
  simp [outcomesOf]

/-- The rules of a cell that were skipped are those that were not evaluated. -/
theorem CellReport.skippedCount_eq (cell : CellReport) :
    cell.skippedCount = cell.outcomes.countP (·.status == .skipped) := by
  have hall := countP_add_countP_of_not (p := fun o : Outcome => o.status != .skipped)
    (q := fun o => o.status == .skipped) (fun _ => (Bool.not_not _).symm) cell.outcomes
  unfold skippedCount evaluatedCount
  omega

/-- A report keeps count with each cell that it takes in. -/
theorem Counts.add (h : Counts cells report) (cell : CellReport) :
    Counts (cells ++ [cell]) (report.add cell) where
  cellCount := by
    rw [List.length_append, List.length_singleton, ← h.cellCount]
    rfl
  invalidCells := by
    rw [List.countP_append, ← h.invalidCells, List.countP_singleton]
    show _ + _ = _
    cases hpasses : cell.verdict.passes <;> simp [CellReport.passes, Verdict.fails, hpasses]
  evaluated := by
    rw [outcomesOf_concat, List.countP_append, ← h.evaluated]
    rfl
  skipped := by
    rw [outcomesOf_concat, List.countP_append, ← h.skipped, ← cell.skippedCount_eq]
    rfl
  failed := by
    rw [outcomesOf_concat, List.countP_append, ← h.failed, List.countP_eq_length_filter]
    rfl
  faults := by
    rw [outcomesOf_concat, List.countP_append, ← h.faults, ← List.countP_filter]
    rfl
  issues := by
    rw [List.flatMap_append, ← h.issues, List.flatMap_singleton]
    rfl

theorem counts_ofCells (ruleSet timestamp : String) (rows : Nat) (cells : List CellReport) :
    Counts cells (Report.ofCells ruleSet timestamp rows cells) := by
  induction cells using List.reverseRec with
  | nil => exact ⟨rfl, rfl, rfl, rfl, rfl, rfl, rfl⟩
  | append_singleton cells cell ih =>
    have hadd : Report.ofCells ruleSet timestamp rows (cells ++ [cell])
        = (Report.ofCells ruleSet timestamp rows cells).add cell := by
      simp [Report.ofCells]
    rw [hadd]
    exact ih.add cell

/-! ## Accounts -/

/-- A report accounts for its cells. -/
structure Accounts (cells : List CellReport) (report : Report) : Prop where
  cellCount : report.metrics.cells = cells.length
  /-- The cells whose merged verdict fails; what is left are those whose verdict passes. -/
  invalidCells : report.metrics.invalidCells = cells.countP (·.verdict.fails)
  invalidCells_le : report.metrics.invalidCells ≤ report.metrics.cells
  validCells : report.metrics.cells - report.metrics.invalidCells = cells.countP (·.verdict.passes)
  rules : report.metrics.rulesEvaluated + report.metrics.rulesSkipped = (outcomesOf cells).length
  failed : report.metrics.rulesFailed = report.issues.length
  failed_le : report.metrics.rulesFailed ≤ report.metrics.rulesEvaluated
  faults : report.metrics.faults = (outcomesOf cells).countP (·.status == .faulted)
  faults_le : report.metrics.faults ≤ report.metrics.rulesFailed
  fails_iff : ∀ o ∈ outcomesOf cells, o.fails = true ↔ o.status = .failed ∨ o.status = .faulted
  /-- The outcomes that fail, in the order of the cells and of the rules. -/
  issues : report.issues = cells.flatMap fun cell =>
    (cell.outcomes.filter (·.verdict.fails)).map fun o =>
      ⟨cell.row, cell.column, o.rule, o.verdict.severity, o.verdict.message⟩
  valid : report.isValid = true ↔ ∀ cell ∈ cells, cell.verdict.isError = false

theorem length_issues (cells : List CellReport) :
    (cells.flatMap issuesOf).length = (outcomesOf cells).countP (·.fails) := by
  induction cells with
  | nil => rfl
  | cons cell cells ih =>
    have hissues : (issuesOf cell).length = cell.outcomes.countP (·.fails) := by
      rw [issuesOf, List.length_map, List.countP_eq_length_filter]
    rw [List.flatMap_cons, List.length_append, ih, hissues, ← List.countP_append]
    rfl

/-- An issue is an error exactly if some cell is, as cells are as bad as their worst outcome. -/
theorem isValid_iff (hsound : ∀ cell ∈ cells, cell.Sound)
    (hissues : report.issues = cells.flatMap issuesOf) :
    report.isValid = true ↔ ∀ cell ∈ cells, cell.verdict.isError = false := by
  have hcell : ∀ cell ∈ cells, (issuesOf cell).any (·.severity == .error) = cell.verdict.isError := by
    intro cell hmem
    rw [Bool.eq_iff_iff, (hsound cell hmem).isError_iff]
    simp [issuesOf, Issue.ofOutcome, Verdict.isError, Outcome.fails]
  rw [Report.isValid, Report.hasErrors, hissues, Bool.not_eq_true', List.any_flatMap,
    List.any_eq_false]
  constructor
  · intro h cell hmem
    rw [← hcell cell hmem]
    exact Bool.eq_false_iff.mpr (h cell hmem)
  · intro h cell hmem
    rw [hcell cell hmem, h cell hmem]
    exact Bool.false_ne_true

/-- The report of cells that were evaluated, by whatever rule sets, accounts for them: its counts are
those of the cells and of their outcomes, no count exceeds the one that it is a part of, its issues
are the outcomes that fail, and it is valid exactly if the merged verdict of no cell is an error. -/
theorem report_accounts (ruleSet timestamp : String) (rows : Nat)
    (h : ∀ cell ∈ cells, cell.Evaluated) :
    Accounts cells (Report.ofCells ruleSet timestamp rows cells) := by
  have hsound : ∀ cell ∈ cells, cell.Sound := fun cell hcell => (h cell hcell).sound
  have houtcomes : ∀ o ∈ outcomesOf cells, o.Sound := by
    intro o ho
    obtain ⟨cell, hcell, hmem⟩ := List.mem_flatMap.mp ho
    exact (hsound cell hcell).outcomes o hmem
  have hc := counts_ofCells ruleSet timestamp rows cells
  have hfaults : (outcomesOf cells).countP (fun o => o.status == .faulted && o.fails)
      = (outcomesOf cells).countP (·.status == .faulted) := by
    refine List.countP_congr fun o ho => ?_
    have hfails : o.status = .faulted → o.fails = true :=
      fun hfaulted => (houtcomes o ho).fails_iff.mpr (.inr hfaulted)
    simpa using hfails
  refine ⟨hc.cellCount, hc.invalidCells, ?_, ?_, ?_, ?_, ?_, ?_, ?_,
    fun o ho => (houtcomes o ho).fails_iff, hc.issues, ?_⟩
  · rw [hc.invalidCells, hc.cellCount]
    exact List.countP_le_length
  · have hall := countP_add_countP_of_not (p := fun cell : CellReport => cell.verdict.fails)
      (q := fun cell => cell.verdict.passes) (fun cell => by simp [Verdict.fails]) cells
    rw [hc.invalidCells, hc.cellCount]
    omega
  · rw [hc.evaluated, hc.skipped]
    exact countP_add_countP_of_not (fun _ => (Bool.not_not _).symm) _
  · rw [hc.failed, hc.issues, length_issues]
  · rw [hc.failed, hc.evaluated]
    refine List.countP_mono_left fun o ho hfails => ?_
    rcases (houtcomes o ho).fails_iff.mp hfails with hstatus | hstatus <;> simp [hstatus]
  · rw [hc.faults, hfaults]
  · rw [hc.faults, hc.failed]
    refine List.countP_mono_left fun o _ hboth => ?_
    exact (Bool.and_eq_true_iff.mp hboth).2
  · exact isValid_iff hsound hc.issues

/-! ## A count of stock -/

/-- A rule about counts, with or without a guard, that always answers the same. -/
def countRule (name : String) (priority : Int) (guard : Option Guard) (answer : Answer) : Rule :=
  ⟨name, none, ["Count"], [], guard, [.prompt fun _ => answer], [], .error, priority, ""⟩

/-- Rules about counts: one warns, one breaks down, and one is for rows with a remark. -/
def stock : RuleSet :=
  { name := "stock"
    rules := [countRule "whole" 0 none (.ok (.failure .warning "not whole")),
      countRule "known" 1 none (.error "no list"),
      countRule "remarked" 2 (some (Guard.hasValue "Remark")) (.ok .success)] }

/-- What they say about a count without a remark. -/
def stockReport : CellReport :=
  .ofOutcomes 3 "Count"
    [⟨"whole", .failed, .failure .warning "not whole"⟩,
      ⟨"known", .faulted, .error "Rule 'known' failed to execute: no list"⟩, .skip "remarked"] false

/-- The report of a count and of a column without rules: of two rules that fail one is a fault, and
one is skipped. -/
theorem report_accounts_stock :
    let cells := [stockReport, .ofOutcomes 3 "Shelf" [] false]
    let report := Report.ofCells "stock" "" 4 cells
    (∀ cell ∈ cells, cell.Evaluated) ∧ Accounts cells report ∧
      report.metrics = ⟨4, 2, 1, 2, 1, 2, 1, 0⟩ ∧ report.isValid = false := by
  intro cells report
  have hrules : stock.rulesFor "Count" = stock.rules := by
    simp [RuleSet.rulesFor, stock, countRule, Rule.appliesTo, List.mergeSort,
      List.MergeSort.Internal.splitInTwo]
  have hcount : ((stock.evaluateContext ⟨3, [("Count", .null)], some "Count", none⟩ .empty).runUntil
      none 0).2 = .ok stockReport := by
    rw [RuleSet.evaluateContext]
    simp only [hrules]
    rfl
  have hshelf : ((stock.evaluateCell (Source.ofCells [] 0 fun _ _ => .ok none) 3 "Shelf").runUntil
      none 0).2 = .ok (.ofOutcomes 3 "Shelf" [] false) := by
    have hnone : stock.rulesFor "Shelf" = [] := by
      simp [RuleSet.rulesFor, stock, countRule, Rule.appliesTo]
    simp only [RuleSet.evaluateCell, RuleSet.evaluateCellAmong, hnone]
    rfl
  have hcells : ∀ cell ∈ cells, cell.Evaluated := by
    intro cell hcell
    rcases List.mem_pair.mp hcell with rfl | rfl
    · exact .ofContext hcount
    · exact .ofCell hshelf
  exact ⟨hcells, report_accounts "stock" "" 4 hcells, by decide +kernel, by decide +kernel⟩

end CellRules
