/-
CellRules.Proofs.RuleSet.Verified — rule sets whose columns were found in the grid.

A rule set that is built for a grid has its columns looked up in it once, by name (`verifyColumns`).
The only other place where a column can be missing is the focusing of a row, and a grid that had a
column has it in every row for good (`Grid.Full.focus_contextAt`, `Grid.Grows`). So judging comes to
reports, cell by cell (`judging_ok`) and over all rows (`allRows_ok`), whatever the rules do: how
they break down is in the reports.
-/
import CellRules.Proofs.Grid.Growing
import CellRules.Proofs.RuleSet.Keeping
import CellRules.Proofs.RuleSet.OneByOne

namespace CellRules

/-- Asking one after the other comes to answers if each one does. -/
theorem exists_mapM_ok {ε α β : Type} {f : α → Except ε β} {l : List α}
    (h : ∀ a ∈ l, ∃ b, f a = .ok b) : ∃ answers, l.mapM f = .ok answers := by
  induction l with
  | nil => exact ⟨[], rfl⟩
  | cons a l ih =>
    obtain ⟨b, hb⟩ := h a (by simp)
    obtain ⟨answers, hanswers⟩ := ih fun a ha => h a (by simp [ha])
    exact ⟨b :: answers, mapM_eq_ok.mpr (.cons hb (mapM_eq_ok.mp hanswers))⟩

namespace RuleSet

variable {s : RuleSet} {known : String → Bool} {g : Grid} {row : Nat} {column : String}
  {problem : Problem}

/-! ## Looking columns up -/

/-- Every column that a rule names is one of these. -/
def NamesOnly (s : RuleSet) (columns : List String) : Prop :=
  ∀ r ∈ s.rules, ∀ column ∈ r.targets ++ r.dependencies, column ∈ columns

/-- A problem with the columns names a rule, and a column of it that is not there. -/
theorem verifyColumns_eq_error (h : s.verifyColumns known = .error problem) :
    ∃ r ∈ s.rules, ∃ column ∈ r.targets ++ r.dependencies, known column = false ∧
      problem = .unknownColumn r.name column := by
  unfold verifyColumns at h
  split at h
  · rename_i rule column hfound
    obtain ⟨r, hr, hmissing⟩ := List.exists_of_findSome?_eq_some hfound
    obtain ⟨missing, hfind, heq⟩ := Option.map_eq_some_iff.mp hmissing
    obtain ⟨rfl, rfl⟩ := Prod.mk.inj heq
    refine ⟨r, hr, missing, List.mem_of_find?_eq_some hfind, ?_, (Except.error.inj h).symm⟩
    simpa using List.find?_some hfind
  · cases h

/-- There is none exactly if all columns are there. -/
theorem verifyColumns_eq_ok : s.verifyColumns known = .ok () ↔
    ∀ r ∈ s.rules, ∀ column ∈ r.targets ++ r.dependencies, known column = true := by
  have hnone : s.verifyColumns known = .ok () ↔
      s.rules.findSome? (fun r => (missingColumn? known r).map (r.name, ·)) = none := by
    unfold verifyColumns
    split <;> (rename_i hfound; simp [hfound])
  simp only [hnone, List.findSome?_eq_none_iff, Option.map_eq_none_iff, missingColumn?,
    List.find?_eq_none, Bool.not_eq_true', Bool.not_eq_false]

theorem namesOnly_of_verifyColumns (h : s.verifyColumns g.hasColumn = .ok ()) :
    s.NamesOnly g.columns := fun r hr column hcolumn =>
  Grid.hasColumn_iff.mp (verifyColumns_eq_ok.mp h r hr column hcolumn)

/-- Columns that rules judge are named by them. -/
theorem NamesOnly.of_mem_targets {columns : List String} (hs : s.NamesOnly columns)
    (h : column ∈ s.targets) : column ∈ columns := by
  rw [targets, Ascending.mem_ofList, List.mem_flatMap] at h
  obtain ⟨r, hr, hcolumn⟩ := h
  exact hs r hr column (List.mem_append_left _ hcolumn)

theorem mem_targets_of_mem_rulesFor {r : Rule} (h : r ∈ s.rulesFor column) :
    column ∈ s.targets := by
  obtain ⟨hr, happlies⟩ := mem_rulesFor.mp h
  rw [targets, Ascending.mem_ofList, List.mem_flatMap]
  exact ⟨r, hr, by simpa [Rule.appliesTo] using happlies⟩

/-! ## Judging -/

/-- A cell of a row that is there is judged, in whatever column: one without rules is not read, and
one with rules is a column of the grid. -/
theorem judging_ok (hs : s.NamesOnly g.columns) (hg : g.Full) (hrow : row < g.rows.length)
    (column : String) :
    ∃ report rows, (s.evaluateCellAmong g.source row column).answer = .ok (report, rows) ∧
      report.row = row ∧ report.column = column := by
  obtain ⟨⟨report, rows⟩, hanswer⟩ :
      ∃ judgement, (s.evaluateCellAmong g.source row column).answer = .ok judgement := by
    rw [answer_judging]
    cases hrules : s.rulesFor column with
    | nil => exact ⟨_, rfl⟩
    | cons r rules =>
      have hcolumn : column ∈ g.columns :=
        hs.of_mem_targets (mem_targets_of_mem_rulesFor (hrules ▸ List.mem_cons_self))
      have hread : readCell (r :: rules) g.source row column = .ok (g.focused row column,
          if (r :: rules).any (·.needsRows) then ⟨g.contexts⟩ else .empty) := by
        simp only [readCell, Grid.row_source hrow, bind, Except.bind,
          hg.focus_contextAt hrow hcolumn]
        split <;> rfl
      obtain ⟨report, hreport⟩ := s.judge_ok (r :: rules) (g.focused row column)
        (if (r :: rules).any (·.needsRows) then ⟨g.contexts⟩ else .empty)
      simp only [List.isEmpty_cons, Bool.false_eq_true, if_false, hread, Except.bind, hreport]
      exact ⟨_, rfl⟩
  exact ⟨report, rows, hanswer, report_of_judging (g.rowByRow_source.index row) hanswer⟩

/-- One row after the other comes to a report on each row and target column. -/
theorem inOrder_ok (hs : s.NamesOnly g.columns) (hg : g.Full) :
    ∃ cells, s.inOrder g.source = .ok cells ∧
      cells.map keyOf = (List.range g.rows.length).flatMap fun row => s.targets.map (row, ·) := by
  have hcolumns : s.columnsIn g.source = s.targets :=
    List.filter_eq_self.mpr fun column hcolumn => by
      simpa [Grid.source] using hs.of_mem_targets hcolumn
  have hreports : ∀ cell ∈ cellsOf s.targets g.contexts,
      ∃ report, s.reportAmong ⟨g.contexts⟩ cell = .ok report := by
    intro cell hcell
    obtain ⟨raw, hraw, hpair⟩ := List.mem_flatMap.mp hcell
    obtain ⟨column, hcolumn, rfl⟩ := List.mem_map.mp hpair
    rw [Grid.contexts_eq] at hraw
    obtain ⟨row, hrow, rfl⟩ := List.mem_map.mp hraw
    simp only [reportAmong, Except.bind,
      hg.focus_contextAt (List.mem_range.mp hrow) (hs.of_mem_targets hcolumn)]
    exact s.judge_ok _ _ _
  obtain ⟨cells, hcells⟩ := exists_mapM_ok hreports
  have hall : s.inOrder g.source = .ok cells := by
    rw [inOrder, answer_survey_source]
    change (s.judgeRows ⟨s.columnsIn g.source, ⟨g.contexts⟩⟩ g.contexts).answer = _
    rw [answer_judgeRows, hcolumns]
    exact hcells
  refine ⟨cells, hall, ?_⟩
  rw [keys_of_inOrder g.rowByRow_source hall, cellsIn, hcolumns]
  rfl

/-- If one row after the other comes to reports, so does a run over all rows with room for a batch,
however its batches take their turns. -/
theorem answers_of_inOrder {source : Source} {cells : List CellReport}
    (hroom : s.throttle.limit ≠ 0) (hsource : source.Ascending) (h : s.inOrder source = .ok cells)
    (limited : Bool) :
    s.Answers limited source (· = .ok cells) := by
  rw [inOrder] at h
  rw [Answers]
  cases hsurvey : (s.survey source).answer with
  | error problem =>
    rw [hsurvey] at h
    cases h
  | ok v =>
    rw [hsurvey] at h
    refine (Pool.underway_start _ hroom _).ends.mono fun result hcomes => ?_
    have hsame := gather_of_comes (ascending_survey hsource hsurvey) hcomes
    rw [show (s.judgeRows v v.rows.rows).answer = .ok cells from h] at hsame
    cases hresult : result.map gather with
    | error problem =>
      rw [hresult] at hsame
      cases hsame
    | ok found =>
      rw [hresult] at hsame
      exact congrArg Except.ok (Option.some.inj hsame)

/-- A run over all rows leaves out no target column, and comes to a report on each of its cells. -/
theorem allRows_ok (hs : s.NamesOnly g.columns) (hg : g.Full) (hroom : s.throttle.limit ≠ 0) :
    (∀ event ∈ (s.survey g.source).events, ∀ set column, event ≠ .columnSkipped set column) ∧
      ∀ limited, s.Answers limited g.source fun answer => ∃ cells, answer = .ok cells ∧
        cells.length = g.rows.length * s.targets.length ∧
        cells.map keyOf = (List.range g.rows.length).flatMap fun row => s.targets.map (row, ·) := by
  constructor
  · have hskipped : (s.targets.filter fun column => !g.source.columns.contains column) = [] :=
      List.filter_eq_nil_iff.mpr fun column hcolumn => by
        simpa [Grid.source] using hs.of_mem_targets hcolumn
    intro event hevent set column
    rw [survey, hskipped] at hevent
    rw [List.mem_singleton.mp hevent]
    simp
  · intro limited
    obtain ⟨cells, hcells, hkeys⟩ := inOrder_ok hs hg
    have hlength : cells.length = g.rows.length * s.targets.length := by
      have hcount := congrArg List.length hkeys
      simpa [List.length_flatMap] using hcount
    have hanswers := answers_of_inOrder hroom g.rowByRow_source.ascending hcells limited
    unfold Answers at hanswers ⊢
    cases hsurvey : (s.survey g.source).answer with
    | error problem =>
      rw [hsurvey] at hanswers
      cases hanswers
    | ok v =>
      rw [hsurvey] at hanswers
      exact Pool.Ends.mono hanswers fun result hresult => ⟨cells, hresult, hlength, hkeys⟩

end RuleSet

/-! ## Building for a grid -/

namespace SetDraft

variable {d : SetDraft} {s : RuleSet} {known : String → Bool}

/-- A rule set is built for columns if it is built and its columns are among them. -/
theorem buildFor_eq_ok : (d.buildFor known).answer = .ok s ↔
    d.build.answer = .ok s ∧ s.verifyColumns known = .ok () := by
  rw [buildFor, RuleSet.answer_seq]
  cases hbuild : d.build.answer with
  | error problem =>
    constructor
    · rintro ⟨⟩
    · rintro ⟨⟨⟩, -⟩
  | ok built =>
    simp only [Except.bind, RuleSet.answer_seq, Work.ofExcept, Work.answer]
    cases hverify : built.verifyColumns known with
    | error problem =>
      constructor
      · rintro ⟨⟩
      · rintro ⟨hs, hok⟩
        obtain rfl := Except.ok.inj hs
        rw [hverify] at hok
        cases hok
    | ok _ =>
      refine ⟨fun hs => ?_, And.left⟩
      obtain rfl := Except.ok.inj hs
      exact ⟨rfl, hverify⟩

/-- A rule set that was built has room for an evaluation. -/
theorem limit_of_build (h : d.build.answer = .ok s) : s.throttle.limit ≠ 0 := by
  unfold build at h
  split at h
  · rename_i empty hset
    obtain ⟨rfl, hlimit⟩ := RuleSet.setThrottle_ok hset
    obtain ⟨rules, -, -, -, rfl⟩ := addRules_eq_ok.mp h
    exact hlimit
  · cases h

end SetDraft

end CellRules
