/-
CellRules.Proofs.RuleSet.Judging — the answer of judging a cell.

What judging a cell answers, if nobody cancels, is a plain function of what it read: `answer_judging`
takes the work apart into the reading and the rules. Reports name the cell they are on
(`report_of_judge`), for every way in which the rules may end.
-/
import CellRules.RuleSet.Evaluation

namespace CellRules.RuleSet

variable {s : RuleSet} {rules : List Rule} {source : Source} {row : Nat} {column : String}
  {ctx raw : RowContext} {rows : Dataset} {report : CellReport}

/-- The answer of work followed by more. -/
theorem answer_seq {α β : Type} (w : Work α) (f : α → Work β) :
    (w >>= f).answer = w.answer.bind fun a => (f a).answer :=
  w.answer_bind f

/-- A context is focused on a column that it has. -/
theorem focus_ok (h : raw.focus column = .ok ctx) :
    (raw.get? column).isSome = true ∧ ctx = { raw with column := some column, pending := none } := by
  unfold RowContext.focus at h
  split at h
  · rename_i hsome
    exact ⟨hsome, (Except.ok.inj h).symm⟩
  · cases h

/-- Judging reads the row by its index, and all rows if some rule looks at them. -/
theorem readCell_ok (h : readCell rules source row column = .ok (ctx, rows)) :
    ∃ raw, source.row row = .ok raw ∧ raw.focus column = .ok ctx ∧
      if rules.any (·.needsRows) then source.allRows = .ok rows.rows else rows = .empty := by
  unfold readCell at h
  cases hraw : source.row row with
  | error p => simp [hraw, bind, Except.bind] at h
  | ok raw =>
    simp only [hraw, bind, Except.bind] at h
    cases hfocus : raw.focus column with
    | error p => simp [hfocus] at h
    | ok focused =>
      simp only [hfocus] at h
      refine ⟨raw, rfl, ?_⟩
      split at h
      · rename_i hneeds
        rw [if_pos hneeds]
        cases hall : source.allRows with
        | error p => simp [hall] at h
        | ok all =>
          simp only [hall, pure, Except.pure, Except.ok.injEq, Prod.mk.injEq] at h
          obtain ⟨rfl, rfl⟩ := h
          exact ⟨hfocus, rfl⟩
      · rename_i hneeds
        rw [if_neg hneeds]
        simp only [pure, Except.pure, Except.ok.injEq, Prod.mk.injEq] at h
        obtain ⟨rfl, rfl⟩ := h
        exact ⟨hfocus, rfl⟩

/-- A report names the row and the column that were judged. -/
theorem report_of_judge (h : (s.judge rules ctx rows).answer = .ok report) :
    report.row = ctx.row ∧ report.column = ctx.column.getD "" := by
  rw [judge, answer_seq] at h
  cases ho : (s.runRules ctx rows rules).answer with
  | error p =>
    rw [ho] at h
    cases h
  | ok outcome =>
    rw [ho] at h
    obtain rfl := Except.ok.inj h
    exact ⟨rfl, rfl⟩

/-- The answer of judging a cell, by what is read. -/
theorem answer_judging (s : RuleSet) (source : Source) (row : Nat) (column : String) :
    (s.evaluateCellAmong source row column).answer =
      if (s.rulesFor column).isEmpty then .ok (.ofOutcomes row column [] false, .empty)
      else (readCell (s.rulesFor column) source row column).bind fun (ctx, rows) =>
        (s.judge (s.rulesFor column) ctx rows).answer.map (·, rows) := by
  unfold evaluateCellAmong
  dsimp only
  split
  · rfl
  · rw [answer_seq]
    change (readCell (s.rulesFor column) source row column).bind _ = _
    congr 1
    funext ⟨ctx, rows⟩
    rw [answer_seq]
    cases (s.judge (s.rulesFor column) ctx rows).answer <;> rfl

/-- Judging a cell reports on its column, and on the row that was read. -/
theorem key_of_judging (h : (s.evaluateCellAmong source row column).answer = .ok (report, rows)) :
    report.column = column ∧
      (report.row = row ∨ ∃ raw, source.row row = .ok raw ∧ report.row = raw.row) := by
  rw [answer_judging] at h
  split at h
  · obtain ⟨rfl, -⟩ := Prod.mk.inj (Except.ok.inj h)
    exact ⟨rfl, .inl rfl⟩
  · cases hread : readCell (s.rulesFor column) source row column with
    | error p =>
      rw [hread] at h
      cases h
    | ok read =>
      obtain ⟨ctx, rows₀⟩ := read
      rw [hread] at h
      change (s.judge (s.rulesFor column) ctx rows₀).answer.map (·, rows₀) = _ at h
      cases hj : (s.judge (s.rulesFor column) ctx rows₀).answer with
      | error p =>
        rw [hj] at h
        cases h
      | ok judged =>
        rw [hj] at h
        obtain ⟨rfl, -⟩ := Prod.mk.inj (Except.ok.inj h)
        obtain ⟨raw, hraw, hfocus, -⟩ := readCell_ok hread
        obtain ⟨-, rfl⟩ := focus_ok hfocus
        obtain ⟨hrow', hcolumn⟩ := report_of_judge hj
        exact ⟨hcolumn, .inr ⟨raw, hraw, hrow'⟩⟩

/-- Judging a cell reports on that cell, if rows are read by their index. -/
theorem report_of_judging (hrow : ∀ raw, source.row row = .ok raw → raw.row = row)
    (h : (s.evaluateCellAmong source row column).answer = .ok (report, rows)) :
    report.row = row ∧ report.column = column := by
  obtain ⟨hcolumn, hreport | ⟨raw, hraw, hreport⟩⟩ := key_of_judging h
  · exact ⟨hreport, hcolumn⟩
  · exact ⟨hreport.trans (hrow raw hraw), hcolumn⟩

end CellRules.RuleSet
