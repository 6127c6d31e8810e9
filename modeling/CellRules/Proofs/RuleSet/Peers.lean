/-
CellRules.Proofs.RuleSet.Peers — which verdicts of other rows the edit of a cell can change.

After an edit the rows that are peers are judged again (`RuleSet.crossRowPeers`), and those whose
verdict was a failure. The peers are found by the NEW value alone: the rows that have its text in a
column with a check for duplicates, and all rows for a check that looks at them in its own way.
`crossRowPeers_complete` says that this leaves nothing out. A duplicate that goes away leaves from a
failure; the passing checks of a rule can only be ended by a duplicate that turns up
(`ChangedAt.unique_success`) or by what the rule's own columns hold (`ChangedAt.sameBeside`); and where
all checks that passed go on to, neither guards nor the checks before nor the mode matter
(`Rule.evaluate_same`).
-/
import CellRules.Proofs.RuleSet.Dependence
import Mathlib.Data.List.Nodup

namespace CellRules

variable {columns : Set String} {old new : Dataset} {row : Nat} {column edited target : String}
  {a b raw ctx : RowContext} {r : Rule}

/-! ## Rows of which one cell has changed -/

namespace RowContext.SameIn

theorem refl (a : RowContext) : a.SameIn columns a := ⟨rfl, rfl, rfl, fun _ _ => rfl⟩

theorem mono {fewer : Set String} (h : a.SameIn columns b) (hsub : fewer ⊆ columns) :
    a.SameIn fewer b :=
  ⟨h.row, h.column, h.pending, fun c hc => h.values c (hsub hc)⟩

theorem key? (h : a.SameIn columns b) (hc : column ∈ columns) : a.key? column = b.key? column := by
  rw [RowContext.key?, RowContext.key?, RowContext.filled?, RowContext.filled?, h.values column hc]

end RowContext.SameIn

/-- Where indices are different, a row is found by its index. -/
theorem Dataset.row?_eq_some {rows : Dataset} (hnodup : (rows.rows.map (·.row)).Nodup)
    (hraw : raw ∈ rows.rows) : rows.row? raw.row = some raw := by
  have hunique : ∀ x ∈ rows.rows, x.row = raw.row → x = raw := fun x hx hrow =>
    List.inj_on_of_nodup_map hnodup hx hraw hrow
  have hfind : rows.rows.find? (·.row == raw.row) = some raw := by
    cases hfound : rows.rows.find? (·.row == raw.row) with
    | none => simpa using List.find?_eq_none.mp hfound raw hraw
    | some x =>
      have hrow := List.find?_some hfound
      rw [hunique x (List.mem_of_find?_eq_some hfound) (beq_iff_eq.mp hrow)]
  unfold row?
  split
  · rename_i x hx
    split
    · rename_i hrow
      rw [hunique x (List.mem_of_getElem? hx) hrow]
    · exact hfind
  · exact hfind

/-- The rows before and after a change of a row in a column: different indices, and everything else
as it was. -/
structure Dataset.ChangedAt (row : Nat) (column : String) (old new : Dataset) : Prop where
  rows : List.Forall₂
    (fun x y => if x.row = row then x.SameIn {c | c ≠ column} y else x = y) old.rows new.rows
  distinct : (new.rows.map (·.row)).Nodup

namespace Dataset.ChangedAt

/-- Each row was there before, the changed one with what it has in the other columns. -/
theorem before (h : old.ChangedAt row edited new) {y : RowContext} (hy : y ∈ new.rows) :
    ∃ x ∈ old.rows, x.row = y.row ∧ x.SameIn {c | c ≠ edited} y ∧ (y.row ≠ row → x = y) := by
  obtain ⟨x, hx, hxy⟩ : ∃ x ∈ old.rows,
      if x.row = row then x.SameIn {c | c ≠ edited} y else x = y := by
    have hrows := h.rows
    generalize old.rows = l at hrows ⊢
    generalize new.rows = l' at hrows hy
    induction hrows with
    | nil => cases hy
    | @cons x z l l' hxz _ ih =>
      rcases List.mem_cons.mp hy with rfl | hy
      · exact ⟨x, by simp, hxz⟩
      · obtain ⟨x', hx', hxy⟩ := ih hy
        exact ⟨x', by simp [hx'], hxy⟩
  split at hxy
  · rename_i hrow
    exact ⟨x, hx, hxy.row, hxy, fun hne => absurd (hxy.row.symm.trans hrow) hne⟩
  · subst hxy
    exact ⟨x, hx, rfl, .refl x, fun _ => rfl⟩

/-- Another row sees no change of the rows in columns other than the edited one. -/
theorem sameBeside (h : old.ChangedAt row edited new) {other : Nat} (hother : other ≠ row)
    (hunread : edited ∉ columns) : old.SameBeside other columns new := by
  refine h.rows.imp fun x y hxy => ?_
  split at hxy
  · rename_i hrow
    rw [if_neg (hrow.trans_ne hother.symm)]
    exact hxy.mono fun c hc heq => hunread (heq ▸ hc)
  · subst hxy
    split
    · rfl
    · exact .refl x

/-- A duplicate that turns up is the edited cell, and then the cell is a peer's. -/
theorem unique_success (h : old.ChangedAt row edited new) (hraw : raw ∈ new.rows)
    (hother : raw.row ≠ row)
    (hpeer : raw.row ∉ RuleSet.scopeRows new row edited (.sameValue column))
    (hunique : Check.unique column raw old = .success) :
    Check.unique column raw new = .success := by
  rw [Check.unique_eq_success] at hunique ⊢
  intro y hy hne hkey hsame
  obtain ⟨x, hx, hrow, hsameIn, heq⟩ := h.before hy
  by_cases hchanged : y.row = row ∧ column = edited
  · obtain ⟨rfl, rfl⟩ := hchanged
    obtain ⟨key, hkey⟩ := Option.ne_none_iff_exists'.mp hkey
    exact hpeer (RuleSet.mem_scopeRows_sameValue.mpr
      ⟨rfl, y, key, row?_eq_some h.distinct hy, hsame.trans hkey, raw, hraw, rfl, hkey⟩)
  · refine hunique x hx (hrow.trans_ne hne) hkey ?_
    rw [← hsame]
    by_cases hy' : y.row = row
    · exact hsameIn.key? fun hcolumn => hchanged ⟨hy', hcolumn⟩
    · rw [heq hy']

end Dataset.ChangedAt

/-! ## Verdicts on other rows -/

/-- An outcome that passes stays if no scope of the rule that the edit concerns brings in the row. -/
theorem Rule.NotesScopes.evaluate_kept (hr : r.NotesScopes) (h : old.ChangedAt row edited new)
    (hraw : raw ∈ new.rows) (hother : raw.row ≠ row) (hfocus : raw.focus target = .ok ctx)
    (hpeer : ∀ scope ∈ r.scopes, r.scopeSpans edited scope = true →
      raw.row ∉ RuleSet.scopeRows new row edited scope)
    {o : Outcome} (ho : (r.evaluate ctx old).answer = .ok o) (hpasses : o.verdict.passes = true) :
    (r.evaluate ctx new).answer = .ok o := by
  obtain ⟨-, rfl⟩ := RuleSet.focus_ok hfocus
  refine evaluate_same (fun _ _ => rfl) (fun v hv => ?_) ho
  cases hr v hv with
  | prompt judge => exact .inl rfl
  | delayed start => exact .inl rfl
  | unique style column hscope =>
    refine .inr ⟨hpasses, fun w hw hpass => ?_⟩
    obtain rfl := Except.ok.inj hw
    rw [Style.passes_apply] at hpass
    have hunique : Check.unique column raw old = .success := Check.unique_of_passes hpass
    have hkept : Check.unique column raw new = .success :=
      h.unique_success hraw hother (fun hmem => hpeer _ hscope ?_ hmem) hunique
    · exact congrArg (fun v => Except.ok (style.apply _ v)) (hkept.trans hunique.symm)
    · exact beq_iff_eq.mpr (RuleSet.mem_scopeRows_sameValue.mp hmem).1
  | among check hreads hscope =>
    refine .inl (hreads _ old new (h.sameBeside hother fun hread => ?_))
    -- a check that looks at the edited column brings in all rows
    refine hpeer .allRows hscope ?_ (List.mem_map.mpr ⟨raw, hraw, rfl⟩)
    simp only [scopeSpans, appliesTo, dependsOn, Bool.or_eq_true, List.contains_iff_mem]
    exact hread

/-- The checks among rows that the rule was given look at other rows in the rule's columns only. -/
def Rule.KeepsToColumns (r : Rule) : Prop :=
  ∃ name steps, (Draft.ofSteps name steps).build = .ok r ∧
    ∀ check, .judgeAmong check ∈ steps → ReadsOthersIn r.columns check

/-- If the edit of a cell changes the verdict on a cell of another row, then that row is a peer by
the rows as they are after the edit, or its verdict was a failure before. -/
theorem RuleSet.crossRowPeers_complete {s : RuleSet} (hs : ∀ r ∈ s.rules, r.KeepsToColumns)
    (h : old.ChangedAt row edited new) (hraw : raw ∈ new.rows) (hother : raw.row ≠ row)
    (hfocus : raw.focus target = .ok ctx) (hdiff : s.verdict ctx old ≠ s.verdict ctx new) :
    raw.row ∈ s.crossRowPeers row edited target new ∨
      ∃ v, s.verdict ctx old = .ok v ∧ v.fails = true := by
  have hcolumn : ctx.column = some target := by
    obtain ⟨-, rfl⟩ := focus_ok hfocus
    rfl
  obtain ⟨report, hreport⟩ := s.judge_ok (s.rulesFor target) ctx old
  have hverdict : s.verdict ctx old = .ok report.verdict := by
    rw [verdict, evaluateContext_focused hcolumn, hreport]
    rfl
  rw [or_iff_not_imp_right]
  intro hpassed
  have hpasses : report.verdict.passes = true := by
    by_contra hfails
    exact hpassed ⟨_, hverdict, by simpa [Verdict.fails] using hfails⟩
  by_contra hpeer
  apply hdiff
  have hkept : (s.judge (s.rulesFor target) ctx new).answer = .ok report := by
    refine judge_same rfl rfl (fun r hr o ho hanswer => ?_) hreport
    obtain ⟨name, steps, hbuild, hsteps⟩ := hs r (mem_rulesFor.mp hr).1
    refine (Draft.build_notesScopes hbuild hsteps).evaluate_kept h hraw hother hfocus
      (fun scope hscope hspans hmem => hpeer ?_) hanswer ((passes_of_judge hreport).mp hpasses o ho)
    exact mem_crossRowPeers.mpr
      ⟨hother, r, hr, List.any_eq_true.mpr ⟨scope, hscope, hspans⟩, scope, hscope, hmem⟩
  rw [hverdict, verdict, evaluateContext_focused hcolumn, hkept]
  rfl

/-! ## Labels -/

/-- No other row is labelled void. -/
def noneVoid (ctx : RowContext) (rows : Dataset) : Answer :=
  .ok (.ofCheck ((rows.others ctx.row).all (·.textOf "Label" != "void")) .warning "A label is void")

/-- Where no row is labelled void, all may be used. -/
def labels : RuleSet where
  name := "labels"
  rules :=
    (Draft.ofSteps "Label_use" [.forColumn "Label", .judgeAmong noneVoid]).build.toOption.toList

theorem noneVoid_readsOthersIn (h : "Label" ∈ columns) : ReadsOthersIn columns noneVoid := by
  intro ctx rows rows' hsame
  have hall : ∀ l l' : List RowContext,
      List.Forall₂ (fun x y => if x.row = ctx.row then x = y else x.SameIn columns y) l l' →
      (l.filter (·.row != ctx.row)).all (·.textOf "Label" != "void")
        = (l'.filter (·.row != ctx.row)).all (·.textOf "Label" != "void") := by
    intro l l' hrows
    induction hrows with
    | nil => rfl
    | @cons x y _ _ hxy _ ih =>
      split at hxy
      · rename_i hrow
        subst hxy
        simpa [hrow] using ih
      · rename_i hrow
        have hrow' : y.row ≠ ctx.row := hxy.row ▸ hrow
        have htext : x.textOf "Label" = y.textOf "Label" := by
          rw [RowContext.textOf, RowContext.textOf, hxy.values _ h]
        rw [List.filter_cons_of_pos (by simpa using hrow),
          List.filter_cons_of_pos (by simpa using hrow'), List.all_cons, List.all_cons, ih, htext]
  unfold noneVoid Dataset.others
  rw [hall _ _ hsame]

theorem labels_keepToColumns : ∀ r ∈ labels.rules, r.KeepsToColumns := by
  intro r hr
  have hbuild : (Draft.ofSteps "Label_use" [.forColumn "Label", .judgeAmong noneVoid]).build
      = .ok r := by
    rw [labels, Option.mem_toList] at hr
    revert hr
    cases (Draft.ofSteps "Label_use" [.forColumn "Label", .judgeAmong noneVoid]).build with
    | error p => exact nofun
    | ok q => exact fun hr => congrArg Except.ok (Option.some.inj hr)
  refine ⟨_, _, hbuild, fun check hcheck => ?_⟩
  obtain rfl : check = noneVoid := by simpa using hcheck
  exact noneVoid_readsOthersIn (.inl (by rw [(Draft.build_ok hbuild).targets]; decide))

/-- A row with a label. -/
def labelled (row : Nat) (label : String) : RowContext :=
  { RowContext.empty row with values := [("Label", .text label)] }

/-- The second row is labelled void, which ends the use of the first. -/
theorem RuleSet.crossRowPeers_complete_labels :
    0 ∈ labels.crossRowPeers 1 "Label" "Label" ⟨[labelled 0 "a", labelled 1 "void"]⟩ ∨ ∃ v,
      labels.verdict { labelled 0 "a" with column := some "Label" }
        ⟨[labelled 0 "a", labelled 1 "b"]⟩ = .ok v ∧ v.fails = true := by
  have hchanged : Dataset.ChangedAt 1 "Label" ⟨[labelled 0 "a", labelled 1 "b"]⟩
      ⟨[labelled 0 "a", labelled 1 "void"]⟩ := by
    refine ⟨.cons rfl (.cons ⟨rfl, rfl, rfl, fun c hc => ?_⟩ .nil), by decide⟩
    simp [labelled, RowContext.get?, Ne.symm hc]
  have hrow : labelled 0 "a" ∈ [labelled 0 "a", labelled 1 "void"] := by simp
  refine RuleSet.crossRowPeers_complete labels_keepToColumns hchanged hrow (by decide) (by rfl)
    fun heq => ?_
  exact absurd (congrArg Except.toOption heq) (by decide +kernel)

end CellRules
