/-
CellRules.Proofs.RuleSet.Locality — on what the report on a cell of a grid depends.

`reportOn g row column` is the report that the rules of a column make on a cell of a grid. It is what
judging the cell answers, alone (`answer_evaluateCellAmong`) as in a run over all rows
(`answer_judgeCells`). It stays the same from one grid to another as long as the columns that the
rules heed do in that row and, where they look at other rows, the column of the others does
(`reportOn_agree`); a report that passes stays as long as no other row gets the text of the cell.
-/
import CellRules.Proofs.Grid.Reading
import CellRules.Proofs.Merging
import CellRules.Proofs.Rule.Heeding
import CellRules.Proofs.RuleSet.Judging
import CellRules.RuleSet.AllRows

namespace CellRules

namespace RuleSet

variable {s : RuleSet} {rules : List Rule} {a b ctx : RowContext} {rows rows' : Dataset}
  {g g' : Grid} {row : Nat} {column target : String} {report : CellReport}

/-! ## Rules on a row -/

/-- What running rules answers, by the outcome of the first. -/
theorem answer_runRules_cons {r : Rule} {o : Outcome} (hr : (r.evaluate ctx rows).answer = .ok o) :
    (s.runRules ctx rows (r :: rules)).answer =
      if s.stopsAt o then .ok ([o], !rules.isEmpty)
      else (s.runRules ctx rows rules).answer.map fun (outcomes, halted) =>
        (o :: outcomes, halted) := by
  rw [runRules, answer_seq, hr]
  simp only [Except.bind]
  split
  · split
    · rename_i hempty
      rw [hempty]
      rfl
    · rename_i hmore
      rw [Bool.not_eq_true] at hmore
      rw [hmore]
      rfl
  · rw [answer_seq]
    cases (s.runRules ctx rows rules).answer <;> rfl

theorem runRules_ok (s : RuleSet) (ctx : RowContext) (rows : Dataset) (rules : List Rule) :
    ∃ outcomes, (s.runRules ctx rows rules).answer = .ok outcomes := by
  induction rules with
  | nil => exact ⟨_, rfl⟩
  | cons r rules ih =>
    obtain ⟨o, ho⟩ := r.evaluate_ok ctx rows
    obtain ⟨rest, hrest⟩ := ih
    rw [answer_runRules_cons ho, hrest]
    split <;> exact ⟨_, rfl⟩

/-- Judging always comes to a report. -/
theorem judge_ok (s : RuleSet) (rules : List Rule) (ctx : RowContext) (rows : Dataset) :
    ∃ report, (s.judge rules ctx rows).answer = .ok report := by
  obtain ⟨outcomes, ho⟩ := s.runRules_ok ctx rows rules
  rw [judge, answer_seq, ho]
  exact ⟨_, rfl⟩

/-- The outcomes of rules are the same if each of them is. -/
theorem runRules_same {outcomes : List Outcome} {halted : Bool}
    (hsame : ∀ r ∈ rules, ∀ o ∈ outcomes, (r.evaluate a rows).answer = .ok o →
      (r.evaluate b rows').answer = .ok o)
    (ho : (s.runRules a rows rules).answer = .ok (outcomes, halted)) :
    (s.runRules b rows' rules).answer = .ok (outcomes, halted) := by
  induction rules generalizing outcomes halted with
  | nil => exact ho
  | cons r rules ih =>
    obtain ⟨o, hr⟩ := r.evaluate_ok a rows
    have hone : o ∈ outcomes → (r.evaluate b rows').answer = .ok o := fun hmem =>
      hsame r (by simp) o hmem hr
    rw [answer_runRules_cons hr] at ho
    split at ho
    · rename_i hstops
      obtain ⟨rfl, rfl⟩ := Prod.mk.inj (Except.ok.inj ho)
      rw [answer_runRules_cons (hone (by simp)), if_pos hstops]
    · rename_i hstops
      obtain ⟨⟨rest, halted'⟩, hrest⟩ := s.runRules_ok a rows rules
      rw [hrest] at ho
      obtain ⟨rfl, rfl⟩ := Prod.mk.inj (Except.ok.inj ho)
      have hrest' := ih (fun q hq o' ho' => hsame q (by simp [hq]) o' (by simp [ho'])) hrest
      rw [answer_runRules_cons (hone (by simp)), if_neg hstops, hrest']
      rfl

/-- The report on a cell is the same if each outcome is. -/
theorem judge_same (hrow : a.row = b.row) (hcolumn : a.column = b.column)
    (hsame : ∀ r ∈ rules, ∀ o ∈ report.outcomes, (r.evaluate a rows).answer = .ok o →
      (r.evaluate b rows').answer = .ok o)
    (h : (s.judge rules a rows).answer = .ok report) :
    (s.judge rules b rows').answer = .ok report := by
  obtain ⟨⟨outcomes, halted⟩, ho⟩ := s.runRules_ok a rows rules
  rw [judge, answer_seq, ho] at h
  obtain rfl := Except.ok.inj h
  rw [judge, answer_seq, runRules_same hsame ho, hrow, hcolumn]
  rfl

/-- A report passes exactly if all its outcomes do. -/
theorem passes_of_judge (h : (s.judge rules ctx rows).answer = .ok report) :
    report.verdict.passes = true ↔ ∀ o ∈ report.outcomes, o.verdict.passes = true := by
  obtain ⟨⟨outcomes, halted⟩, ho⟩ := s.runRules_ok ctx rows rules
  rw [judge, answer_seq, ho] at h
  obtain rfl := Except.ok.inj h
  change (Verdict.merge (outcomes.map Outcome.verdict)).passes = true ↔ _
  rw [Verdict.passes_merge, List.forall_mem_map]
  rfl

/-- The report on a cell is the same if the duplicates are, or if it passes and no duplicate turns up
where there was none. -/
theorem judge_agree
    (hrules : ∀ r ∈ rules, ∃ columns, r.Heeds columns target ∧ a.AgreeOn columns b)
    (hrow : a.row = b.row) (hcolumn : a.column = b.column)
    (h : (s.judge rules a rows).answer = .ok report)
    (hsame : Check.unique target a rows = Check.unique target b rows' ∨
      (report.verdict.passes = true ∧
        (Check.unique target a rows = .success → Check.unique target b rows' = .success))) :
    (s.judge rules b rows').answer = .ok report := by
  refine judge_same hrow hcolumn (fun r hr o ho hanswer => ?_) h
  obtain ⟨columns, hheeds, hagree⟩ := hrules r hr
  exact hheeds.evaluate_agree hagree hanswer <| hsame.imp_right fun hkept =>
    ⟨(passes_of_judge h).mp hkept.1 o ho, hkept.2⟩

/-- Rules without checks among rows do not look at them. -/
theorem judge_of_not_needsRows (h : rules.any (·.needsRows) = false) (rows rows' : Dataset) :
    s.judge rules ctx rows = s.judge rules ctx rows' := by
  have hrun : s.runRules ctx rows rules = s.runRules ctx rows' rules := by
    induction rules with
    | nil => rfl
    | cons r rules ih =>
      rw [List.any_cons, Bool.or_eq_false_iff] at h
      simp only [runRules, r.evaluate_of_not_needsRows h.1 rows rows', ih h.2]
  rw [judge, judge, hrun]

/-! ## Cells of a grid -/

/-- The report that the rules of a column make on a cell of a grid. -/
def reportOn (s : RuleSet) (g : Grid) (row : Nat) (column : String) : Except Problem CellReport :=
  (s.judge (s.rulesFor column) (g.focused row column) ⟨g.contexts⟩).answer

theorem reportOn_ok (s : RuleSet) (g : Grid) (row : Nat) (column : String) :
    ∃ report, s.reportOn g row column = .ok report :=
  s.judge_ok _ _ _

/-- The report names the cell. -/
theorem reportOn_key (h : s.reportOn g row column = .ok report) :
    report.row = row ∧ report.column = column := by
  obtain ⟨hrow, hcolumn⟩ := report_of_judge h
  exact ⟨hrow.trans Grid.row_contextAt, hcolumn⟩

/-- Judging a cell of a grid makes its report, and gives the rows if some rule looks at them. -/
theorem answer_evaluateCellAmong (s : RuleSet) (hg : g.Regular) (hrow : row < g.rows.length)
    (hcolumn : column ∈ g.columns) :
    (s.evaluateCellAmong g.source row column).answer =
      (s.reportOn g row column).map
        (·, if (s.rulesFor column).any (·.needsRows) then ⟨g.contexts⟩ else .empty) := by
  rw [answer_judging]
  split
  · rename_i hempty
    rw [List.isEmpty_iff] at hempty
    have hrow' : (g.focused row column).row = row := Grid.row_contextAt
    simp only [reportOn, hempty, judge, answer_seq, runRules, Work.answer, pure, Except.bind,
      List.any_nil, Bool.false_eq_true, if_false, hrow']
    rfl
  · have hread : readCell (s.rulesFor column) g.source row column
        = .ok (g.focused row column,
            if (s.rulesFor column).any (·.needsRows) then ⟨g.contexts⟩ else .empty) := by
      simp only [readCell, Grid.row_source hrow, bind, Except.bind,
        Grid.focus_contextAt hg hrow hcolumn]
      split <;> rfl
    rw [hread]
    change (s.judge _ _ _).answer.map _ = _
    split
    · rfl
    · rename_i hneeds
      rw [judge_of_not_needsRows (by simpa using hneeds) .empty ⟨g.contexts⟩]
      rfl

theorem answer_evaluateCell (s : RuleSet) (hg : g.Regular) (hrow : row < g.rows.length)
    (hcolumn : column ∈ g.columns) :
    (s.evaluateCell g.source row column).answer = s.reportOn g row column := by
  rw [evaluateCell, answer_seq, s.answer_evaluateCellAmong hg hrow hcolumn]
  cases s.reportOn g row column <;> rfl

theorem mem_rulesFor {r : Rule} :
    r ∈ s.rulesFor column ↔ r ∈ s.rules ∧ r.appliesTo column = true := by
  rw [rulesFor, List.mem_mergeSort, List.mem_filter]

/-- A column that is judged has rules. -/
theorem exists_mem_rulesFor (h : column ∈ s.targets) : ∃ r, r ∈ s.rulesFor column := by
  rw [targets, Ascending.mem_ofList, List.mem_flatMap] at h
  obtain ⟨r, hmem, hr⟩ := h
  exact ⟨r, mem_rulesFor.mpr ⟨hmem, by simpa [Rule.appliesTo] using hr⟩⟩

/-- A rule of one column that judges a column is about that one. -/
theorem heeds_of_mem_rulesFor {r : Rule} {columns : Set String}
    (hr : r ∈ s.rulesFor column) (hheeds : ∃ target, r.Heeds columns target) :
    r.Heeds columns column := by
  obtain ⟨target, hheeds⟩ := hheeds
  have hcolumn : column = target := by
    simpa [Rule.appliesTo, hheeds.targets] using (mem_rulesFor.mp hr).2
  exact hcolumn ▸ hheeds

theorem OneColumn.heeds (hs : s.OneColumn) {r : Rule} (hr : r ∈ s.rulesFor column) :
    r.Heeds Set.univ column :=
  heeds_of_mem_rulesFor hr (hs r (mem_rulesFor.mp hr).1)

theorem NamesColumns.heeds (hs : s.NamesColumns) {r : Rule} (hr : r ∈ s.rulesFor column) :
    r.Heeds r.columns column :=
  heeds_of_mem_rulesFor hr (hs r (mem_rulesFor.mp hr).1)

/-- The report on a cell is the same on another grid if what its rules heed is in that row and, where
the rules look at other rows, its column is in these. Where it passes, it is enough that every row
that has the text of the cell had it before. -/
theorem reportOn_agree (hg : g.Regular) (hg' : g'.Regular)
    (hrows : g'.rows.length = g.rows.length) (hcell : g'.get? row column = g.get? row column)
    (hown : ∀ r ∈ s.rulesFor column, ∃ columns, r.Heeds columns column ∧
      ∀ c ∈ columns, g'.get? row c = g.get? row c)
    (hothers : (s.rulesFor column).any (·.needsRows) = true →
      (∀ other, other ≠ row → g'.get? other column = g.get? other column) ∨
      (report.verdict.passes = true ∧ ∀ other, other ≠ row → other < g'.rows.length →
        g'.textAt column row ≠ none → g'.textAt column other = g'.textAt column row →
        g.textAt column other = g.textAt column row))
    (h : s.reportOn g row column = .ok report) : s.reportOn g' row column = .ok report := by
  have hrow : (g.focused row column).row = (g'.focused row column).row :=
    Grid.row_contextAt.trans Grid.row_contextAt.symm
  have hrules : ∀ r ∈ s.rulesFor column, ∃ columns, r.Heeds columns column ∧
      (g.focused row column).AgreeOn columns (g'.focused row column) := by
    intro r hr
    obtain ⟨columns, hheeds, hsame⟩ := hown r hr
    refine ⟨columns, hheeds, hrow, rfl, rfl, fun c hc => ?_⟩
    rw [Grid.get?_focused hg, Grid.get?_focused hg']
    rcases hc with hc | hc
    · exact (hsame c hc).symm
    · obtain rfl := Option.some.inj hc
      exact hcell.symm
  unfold reportOn at h ⊢
  cases hneeds : (s.rulesFor column).any (·.needsRows) with
  | false =>
    rw [judge_of_not_needsRows hneeds _ .empty] at h ⊢
    cases hempty : s.rulesFor column with
    | nil =>
      rw [hempty] at h
      rw [← h]
      simp only [judge, runRules, hrow]
      rfl
    | cons r rest =>
      rw [← hempty]
      obtain ⟨columns, -, hagree⟩ := hrules r (by simp [hempty])
      exact judge_agree hrules hrow rfl h (.inl (hagree.unique (.inr rfl)))
  | true =>
    refine judge_agree hrules hrow rfl h ?_
    rcases hothers hneeds with hsame | ⟨hpasses, hnone⟩
    · exact .inl (Grid.unique_congr hg hg' hrows hcell hsame).symm
    · refine .inr ⟨hpasses, fun hunique =>
        (Grid.unique_eq_success hg').mpr fun other hne hother htext heq => ?_⟩
      refine (Grid.unique_eq_success hg).mp hunique other hne (hrows ▸ hother) ?_
        (hnone other hne hother htext heq)
      rw [Grid.textAt, ← hcell]
      exact htext

/-! ## What an edit concerns -/

/-- A column depends on another one if one of its rules does. -/
theorem mem_dependents {edited : String} :
    target ∈ s.dependents edited ↔
      target ≠ edited ∧ ∃ r ∈ s.rulesFor target, r.dependsOn edited = true := by
  simp only [dependents, Ascending.mem_ofList, List.mem_filter, List.mem_flatMap, mem_rulesFor,
    Rule.appliesTo, List.contains_iff_mem, bne_iff_ne]
  constructor
  · rintro ⟨⟨r, ⟨hr, hdepends⟩, htarget⟩, hne⟩
    exact ⟨hne, r, ⟨hr, htarget⟩, hdepends⟩
  · rintro ⟨hne, r, ⟨hr, htarget⟩, hdepends⟩
    exact ⟨⟨r, ⟨hr, hdepends⟩, htarget⟩, hne⟩

/-- The rows that a scope brings in for duplicates in the edited column have its text. -/
theorem mem_scopeRows_sameValue {edited : String} {other : Nat} :
    other ∈ scopeRows rows row edited (.sameValue column) ↔ column = edited ∧
      ∃ changed key, rows.row? row = some changed ∧ changed.key? column = some key ∧
        ∃ x ∈ rows.rows, x.row = other ∧ x.key? column = some key := by
  by_cases hcolumn : column = edited
  · subst hcolumn
    cases hchanged : rows.row? row with
    | none => simp [scopeRows, hchanged]
    | some changed =>
      cases hcell : changed.filled? column with
      | none => simp [scopeRows, hchanged, hcell, RowContext.key?]
      | some cell => simp [scopeRows, hchanged, hcell, RowContext.key?, Dataset.mem_rowsWith]
  · simp [scopeRows, hcolumn]

/-- Another row is concerned if some scope of a rule of the target brings it in. -/
theorem mem_crossRowPeers {edited : String} {other : Nat} :
    other ∈ s.crossRowPeers row edited target rows ↔ other ≠ row ∧
      ∃ r ∈ s.rulesFor target, r.spansRowsOn edited = true ∧
        ∃ scope ∈ r.scopes, other ∈ scopeRows rows row edited scope := by
  simp only [crossRowPeers, List.mem_filter, Ascending.mem_ofList, List.mem_flatMap, mem_rulesFor,
    Bool.and_eq_true, bne_iff_ne]
  constructor
  · rintro ⟨⟨r, ⟨hr, happlies, hspans⟩, hscope⟩, hne⟩
    exact ⟨hne, r, ⟨hr, happlies⟩, hspans, hscope⟩
  · rintro ⟨hne, r, ⟨hr, happlies⟩, hspans, hscope⟩
    exact ⟨⟨r, ⟨hr, happlies, hspans⟩, hscope⟩, hne⟩

/-- A cell whose rules name a column is judged again after an edit of it. -/
theorem OneColumn.mem_dependents (hs : s.OneColumn) {r : Rule} {c : String}
    (hr : r ∈ s.rulesFor column) (hc : c ∈ r.columns) :
    column = c ∨ column ∈ s.dependents c := by
  by_cases hcolumn : column = c
  · exact .inl hcolumn
  refine .inr (RuleSet.mem_dependents.mpr ⟨hcolumn, r, hr, ?_⟩)
  rw [Rule.columns, (hs.heeds hr).targets] at hc
  simpa [Rule.dependsOn, Ne.symm hcolumn] using hc

/-- A rule that looks at other rows makes an edit of its column concern them. -/
theorem OneColumn.spans (hs : s.OneColumn) (hneeds : (s.rulesFor column).any (·.needsRows) = true) :
    ∃ r ∈ s.rulesFor column, .sameValue column ∈ r.scopes ∧ r.spansRowsOn column = true := by
  obtain ⟨r, hr, hrows⟩ := List.any_eq_true.mp hneeds
  have hscope := (hs.heeds hr).scopes hrows
  exact ⟨r, hr, hscope, List.any_eq_true.mpr ⟨_, hscope, beq_self_eq_true column⟩⟩

theorem OneColumn.mem_crossRowTargets (hs : s.OneColumn)
    (hneeds : (s.rulesFor column).any (·.needsRows) = true) :
    column ∈ s.crossRowTargets column := by
  obtain ⟨r, hr, -, hspans⟩ := hs.spans hneeds
  rw [crossRowTargets, Ascending.mem_ofList, List.mem_flatMap]
  refine ⟨r, List.mem_filter.mpr ⟨(mem_rulesFor.mp hr).1, hspans⟩, ?_⟩
  simp [(hs.heeds hr).targets]

/-- The rows with the text of an edited cell are concerned. -/
theorem OneColumn.mem_crossRowPeers (hs : s.OneColumn) (hg : g.Regular)
    (hneeds : (s.rulesFor column).any (·.needsRows) = true) {other : Nat}
    (hrow : row < g.rows.length) (hother : other < g.rows.length) (hne : other ≠ row)
    (htext : g.textAt column row ≠ none) (hsame : g.textAt column other = g.textAt column row) :
    other ∈ s.crossRowPeers row column column ⟨g.contexts⟩ := by
  obtain ⟨r, hr, hscope, hspans⟩ := hs.spans hneeds
  obtain ⟨key, hkey⟩ := Option.ne_none_iff_exists'.mp htext
  refine RuleSet.mem_crossRowPeers.mpr ⟨hne, r, hr, hspans, _, hscope, ?_⟩
  refine mem_scopeRows_sameValue.mpr ⟨rfl, _, key, Grid.row?_contexts hrow, ?_, g.contextAt other,
    ?_, Grid.row_contextAt, ?_⟩
  · exact (Grid.key?_contextAt hg).trans hkey
  · rw [Grid.contexts_eq]
    exact List.mem_map.mpr ⟨other, List.mem_range.mpr hother, rfl⟩
  · exact (Grid.key?_contextAt hg).trans (hsame.trans hkey)

end RuleSet

end CellRules
