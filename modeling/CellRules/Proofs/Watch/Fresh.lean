/-
CellRules.Proofs.Watch.Fresh — verdicts that are out of date only by edits that were not told.

A verdict was made by a look at a grid. It is still the one that the rules give if what they look at
has not changed; if another row has, it is enough that the verdict passes and that row does not have
the text of the cell (`Sight`). As long as a write has not been told of, nobody can be asked to know
of it, so `Fresh` leaves out the untold ones: the verdict on a cell may be anything if a column that
its rules name was written, and says nothing of the rows whose column was.

Once nothing is untold, a fresh verdict is that of the grid as it is (`Fresh.upToDate`).
-/
import CellRules.Proofs.RuleSet.AllRows
import CellRules.Proofs.Watch.Delivery

namespace CellRules.Watch

variable {u : Setup} {s s' : State} {untold more rest : Nat → String → Prop} {key : CellKey}
  {g grid : Grid} {report : CellReport} {row : Nat} {column edited : String} {cell : Cell}

/-- The verdict that stands on a cell was made on a grid `g`. In the columns that its rules name the
row is as it was; each other row has its column as it was, or was written there and nobody told, or
makes no duplicate of a cell that passes. -/
structure Sight (u : Setup) (s : State) (untold : Nat → String → Prop) (key : CellKey) (g : Grid)
    (report : CellReport) : Prop where
  regular : g.Regular
  length : s.grid.rows.length = g.rows.length
  made : u.ruleSet.reportOn g key.row key.column = .ok report
  stands : s.sink.latest? key.row key.column = some report.verdict
  own : ∀ r ∈ u.ruleSet.rulesFor key.column, ∀ c ∈ r.columns,
    s.grid.get? key.row c = g.get? key.row c
  others : (u.ruleSet.rulesFor key.column).any (·.needsRows) = true →
    ∀ row, row ≠ key.row → row < s.grid.rows.length →
      s.grid.get? row key.column = g.get? row key.column ∨ untold row key.column ∨
        (report.verdict.passes = true ∧ (s.grid.textAt key.column key.row ≠ none →
          s.grid.textAt key.column row ≠ s.grid.textAt key.column key.row))

/-- The verdict that stands on a cell is out of date at most by edits that were not told: its row was
written in a column that its rules name, or nothing else has changed what they say. -/
def Fresh (u : Setup) (s : State) (untold : Nat → String → Prop) (key : CellKey) : Prop :=
  (∃ r ∈ u.ruleSet.rulesFor key.column, ∃ c ∈ r.columns, untold key.row c) ∨
    ∃ g report, Sight u s untold key g report

/-- Where no other row is written untold, the report of the look is that on the grid as it is. -/
theorem Sight.reportOn (hs : u.ruleSet.NamesColumns) (hgrid : s.grid.Regular)
    (hkey : key.column ∈ u.ruleSet.targets) (h : Sight u s untold key g report)
    (htold : ∀ row, ¬untold row key.column) :
    u.ruleSet.reportOn s.grid key.row key.column = .ok report := by
  have hcell : s.grid.get? key.row key.column = g.get? key.row key.column := by
    obtain ⟨r, hr⟩ := RuleSet.exists_mem_rulesFor hkey
    exact h.own r hr key.column (hs.heeds hr).mem_columns
  refine RuleSet.reportOn_agree h.regular hgrid h.length hcell
    (fun r hr => ⟨r.columns, hs.heeds hr, h.own r hr⟩) (fun hneeds => ?_) h.made
  have hothers : ∀ row, row ≠ key.row → row < s.grid.rows.length →
      s.grid.get? row key.column = g.get? row key.column ∨ (report.verdict.passes = true ∧
        (s.grid.textAt key.column key.row ≠ none →
          s.grid.textAt key.column row ≠ s.grid.textAt key.column key.row)) := fun row hne hrow =>
    (h.others hneeds row hne hrow).imp_right (·.resolve_left (htold row))
  by_cases hpasses : report.verdict.passes = true
  · refine .inr ⟨hpasses, fun row hne hrow htext hsame => ?_⟩
    rcases hothers row hne hrow with hkept | ⟨-, hother⟩
    · rwa [Grid.textAt, Grid.textAt, hkept, hcell] at hsame
    · exact absurd hsame (hother htext)
  · refine .inl fun row hne => ?_
    by_cases hrow : row < s.grid.rows.length
    · exact (hothers row hne hrow).resolve_right fun hpass => hpasses hpass.1
    · rw [Grid.get?_of_length_le (Nat.le_of_not_lt hrow),
        Grid.get?_of_length_le (h.length ▸ Nat.le_of_not_lt hrow)]

namespace Fresh

/-- Once all is told, a fresh verdict is the one that the rules give on the grid as it is. -/
theorem upToDate (hs : u.ruleSet.NamesColumns) (hgrid : s.grid.Regular)
    (hkey : key.column ∈ u.ruleSet.targets) (h : Fresh u s untold key)
    (htold : ∀ row column, ¬untold row column) :
    ∃ report, u.ruleSet.reportOn s.grid key.row key.column = .ok report ∧
      s.sink.latest? key.row key.column = some report.verdict := by
  rcases h with ⟨r, -, c, -, huntold⟩ | ⟨g, report, hsight⟩
  · exact absurd huntold (htold _ _)
  · exact ⟨report, hsight.reportOn hs hgrid hkey fun row => htold row _, hsight.stands⟩

/-- A verdict on the grid as it is is fresh. -/
theorem of_reportOn (hgrid : s.grid.Regular)
    (hreport : u.ruleSet.reportOn s.grid key.row key.column = .ok report)
    (hstands : s.sink.latest? key.row key.column = some report.verdict) : Fresh u s untold key :=
  .inr ⟨s.grid, report, hgrid, rfl, hreport, hstands, fun _ _ _ _ => rfl,
    fun _ _ _ _ => .inl rfl⟩

/-- A verdict stays fresh while the grid is as it is and no other verdict is delivered on the cell. -/
theorem same (h : Fresh u s untold key) (hgrid : s'.grid = s.grid)
    (hsink : s'.sink.latest? key.row key.column = s.sink.latest? key.row key.column)
    (hmore : ∀ row column, untold row column → more row column) : Fresh u s' more key := by
  rcases h with ⟨r, hr, c, hc, huntold⟩ | ⟨g, report, hsight⟩
  · exact .inl ⟨r, hr, c, hc, hmore _ _ huntold⟩
  · refine .inr ⟨g, report, hsight.regular, hgrid ▸ hsight.length, hsight.made,
      hsink.trans hsight.stands, hgrid ▸ hsight.own, ?_⟩
    rw [hgrid]
    exact fun hneeds row hne hrow =>
      (hsight.others hneeds row hne hrow).imp_right (Or.imp_left (hmore _ _))

/-- A verdict stays fresh when a cell is written of which nobody has told. -/
theorem write (hs : u.ruleSet.NamesColumns) (hkey : key.column ∈ u.ruleSet.targets)
    (h : Fresh u s untold key) (hset : s.grid.set row column cell = .ok s'.grid)
    (hsink : s'.sink.latest? key.row key.column = s.sink.latest? key.row key.column)
    (hmore : ∀ row column, untold row column → more row column) (hwritten : more row column) :
    Fresh u s' more key := by
  rcases h with ⟨r, hr, c, hc, huntold⟩ | ⟨g, report, hsight⟩
  · exact .inl ⟨r, hr, c, hc, hmore _ _ huntold⟩
  by_cases hown : key.row = row ∧ ∃ r ∈ u.ruleSet.rulesFor key.column, column ∈ r.columns
  · obtain ⟨rfl, r, hr, hc⟩ := hown
    exact .inl ⟨r, hr, column, hc, hwritten⟩
  have hkept : ∀ r ∈ u.ruleSet.rulesFor key.column, ∀ c ∈ r.columns,
      s'.grid.get? key.row c = s.grid.get? key.row c := by
    intro r hr c hc
    refine Grid.get?_set_of_ne hset ?_
    by_contra hboth
    rw [not_or, not_not, not_not] at hboth
    exact hown ⟨hboth.1, r, hr, hboth.2 ▸ hc⟩
  have hcell : s'.grid.textAt key.column key.row = s.grid.textAt key.column key.row := by
    obtain ⟨r, hr⟩ := RuleSet.exists_mem_rulesFor hkey
    rw [Grid.textAt, Grid.textAt, hkept r hr key.column (hs.heeds hr).mem_columns]
  refine .inr ⟨g, report, hsight.regular, (Grid.length_set hset).trans hsight.length,
    hsight.made, hsink.trans hsight.stands,
    fun r hr c hc => (hkept r hr c hc).trans (hsight.own r hr c hc),
    fun hneeds other hne hother => ?_⟩
  by_cases hat : other = row ∧ key.column = column
  · obtain ⟨rfl, hcolumn⟩ := hat
    exact .inr (.inl (hcolumn ▸ hwritten))
  have hsame : s'.grid.get? other key.column = s.grid.get? other key.column := by
    refine Grid.get?_set_of_ne hset ?_
    by_contra hboth
    rw [not_or, not_not, not_not] at hboth
    exact hat hboth
  have htext : s'.grid.textAt key.column other = s.grid.textAt key.column other := by
    rw [Grid.textAt, Grid.textAt, hsame]
  rw [hsame, htext, hcell]
  exact (hsight.others hneeds other hne (Grid.length_set hset ▸ hother)).imp_right
    (Or.imp_left (hmore _ _))

/-- When an edit is told, a cell is concerned whose rules name the column in that row, and a cell of
the same column in another row; all others are fresh as before. -/
theorem told (h : Fresh u s untold key)
    (hrest : ∀ r c, untold r c → rest r c ∨ (r = row ∧ c = edited)) :
    (key.row = row ∧ ∃ r ∈ u.ruleSet.rulesFor key.column, edited ∈ r.columns) ∨
      (key.column = edited ∧ key.row ≠ row ∧ row < s.grid.rows.length) ∨ Fresh u s rest key := by
  rcases h with ⟨r, hr, c, hc, huntold⟩ | ⟨g, report, hsight⟩
  · rcases hrest _ _ huntold with hkept | ⟨hrow, rfl⟩
    · exact .inr (.inr (.inl ⟨r, hr, c, hc, hkept⟩))
    · exact .inl ⟨hrow, r, hr, hc⟩
  by_cases hpeer : key.column = edited ∧ key.row ≠ row ∧ row < s.grid.rows.length
  · exact .inr (.inl hpeer)
  refine .inr (.inr (.inr ⟨g, report, { hsight with others := fun hneeds other hne hother => ?_ }⟩))
  refine (hsight.others hneeds other hne hother).imp_right (Or.imp_left fun huntold => ?_)
  refine (hrest _ _ huntold).resolve_right fun ⟨hrow, hcolumn⟩ => ?_
  subst hrow
  exact hpeer ⟨hcolumn, hne.symm, hother⟩

/-- Of an edit of another row nothing is left to be told where the cell passes and does not have the
text of the edited one. -/
theorem unconcerned (h : Fresh u s (fun r c => rest r c ∨ (r = row ∧ c = edited)) key)
    (hne : key.row ≠ row)
    (hpasses : (u.ruleSet.rulesFor key.column).any (·.needsRows) = true →
      (∀ v, s.sink.latest? key.row key.column = some v → v.passes = true) ∧
        (s.grid.textAt key.column key.row ≠ none →
          s.grid.textAt key.column row ≠ s.grid.textAt key.column key.row)) :
    Fresh u s rest key := by
  rcases h with ⟨r, hr, c, hc, huntold⟩ | ⟨g, report, hsight⟩
  · exact .inl ⟨r, hr, c, hc, huntold.resolve_right fun hat => hne hat.1⟩
  refine .inr ⟨g, report, { hsight with others := fun hneeds other hother hlt => ?_ }⟩
  obtain ⟨hpass, htext⟩ := hpasses hneeds
  rcases hsight.others hneeds other hother hlt with hkept | (huntold | ⟨rfl, -⟩) | hpassed
  · exact .inl hkept
  · exact .inr (.inl huntold)
  · exact .inr (.inr ⟨hpass _ hsight.stands, htext⟩)
  · exact .inr (.inr hpassed)

end Fresh

end CellRules.Watch
