/-
CellRules.Proofs.RuleSet.Dependence — which verdicts of a row the edit of a column can change.

After an edit of a column the cells of its dependents are judged again (`RuleSet.dependents`): the
targets of the rules that have it as a dependency. For rules of named steps that is enough for every
rule that does not judge the edited column itself, since all that such a rule reads is noted. What a
rule judges it does not note as read. So a rule of several columns, such as that of two dates in
order, reads one of its columns when it judges another, and an edit of the one can change the verdict
on the other without making it a dependent (`Unnoted`).

`mem_dependents_iff_not_unnoted` says that this is the only gap; `date_order_unnoted` is one.
-/
import CellRules.Proofs.RuleSet.Locality
import CellRules.Proofs.Rule.Noting

namespace CellRules.RuleSet

variable {s : RuleSet} {a b : RowContext} {rows rows' : Dataset} {edited target : String}

/-- The merged verdict on the cell that a context is focused on. -/
def verdict (s : RuleSet) (ctx : RowContext) (rows : Dataset) : Except Problem Verdict :=
  (s.evaluateContext ctx rows).answer.map (·.verdict)

/-- The verdict on a focused context is that of the rules of its column. -/
theorem evaluateContext_focused {ctx : RowContext} (hcolumn : ctx.column = some target) :
    s.evaluateContext ctx rows = s.judge (s.rulesFor target) ctx rows := by
  simp only [evaluateContext, hcolumn]

/-- Where the verdicts on two views of a cell differ, some outcome does. -/
theorem exists_outcome_of_verdict_ne (hrow : a.row = b.row) (hcolumn : a.column = b.column)
    (htarget : a.column = some target) (hdiff : s.verdict a rows ≠ s.verdict b rows') :
    ∃ r ∈ s.rulesFor target, (r.evaluate a rows).answer ≠ (r.evaluate b rows').answer := by
  by_contra hnone
  push Not at hnone
  apply hdiff
  rw [verdict, verdict, evaluateContext_focused htarget,
    evaluateContext_focused (hcolumn ▸ htarget)]
  obtain ⟨report, hreport⟩ := s.judge_ok (s.rulesFor target) a rows
  have hsame := judge_same hrow hcolumn (fun r hr o _ ho => (hnone r hr).symm.trans ho) hreport
  rw [hreport, hsame]

/-- No rule of the target has the edited column as a dependency, and one of them that judges the
edited column as well comes to another outcome on the target. -/
structure Unnoted (s : RuleSet) (edited target : String) (a b : RowContext) (rows : Dataset) :
    Prop where
  noDependency : ∀ r ∈ s.rulesFor target, r.dependsOn edited = false
  judged : ∃ r ∈ s.rulesFor target, r.appliesTo edited = true ∧
    (r.evaluate a rows).answer ≠ (r.evaluate b rows).answer

/-- If two views of a row that differ in one column only get different verdicts on another column,
then that column is a dependent of the first EXACTLY if the change was not left unnoted. -/
theorem mem_dependents_iff_not_unnoted (hs : ∀ r ∈ s.rules, r.Named)
    (hagree : a.AgreeOn {c | c ≠ edited} b) (htarget : a.column = some target)
    (hne : target ≠ edited) (hdiff : s.verdict a rows ≠ s.verdict b rows) :
    target ∈ s.dependents edited ↔ ¬s.Unnoted edited target a b rows := by
  constructor
  · intro hmem hunnoted
    obtain ⟨-, r, hr, hdepends⟩ := mem_dependents.mp hmem
    rw [hunnoted.noDependency r hr] at hdepends
    cases hdepends
  · intro hnoted
    by_contra hmem
    have hnone : ∀ r ∈ s.rulesFor target, r.dependsOn edited = false := fun r hr =>
      Bool.eq_false_iff.mpr fun hdepends => hmem (mem_dependents.mpr ⟨hne, r, hr, hdepends⟩)
    obtain ⟨r, hr, houtcome⟩ :=
      exists_outcome_of_verdict_ne hagree.row hagree.column htarget hdiff
    refine hnoted ⟨hnone, r, hr, ?_, houtcome⟩
    -- a rule that neither judges nor notes the edited column does not see the edit
    by_contra hjudged
    have hunread : edited ∉ r.columns := by
      rintro (hmem | hmem)
      · exact hjudged (by simpa [Rule.appliesTo] using hmem)
      · simpa [Rule.dependsOn, hmem] using hnone r hr
    have hcolumns : r.columns ⊆ {c | c ≠ edited} := fun c hc heq => hunread (heq ▸ hc)
    exact houtcome
      ((hs r (mem_rulesFor.mp hr).1).notesReads.evaluate_agree (hagree.mono hcolumns))

/-! ## Two dates in order -/

def ordersDraft : SetDraft := .ofSteps "orders" [.dateRange "Start" "End"]

/-- Orders do not end before they start. -/
def orders : RuleSet := ordersDraft.build.answer.toOption.getD { name := "" }

theorem orders_named : ∀ r ∈ orders.rules, r.Named := by
  have hbuilt : ordersDraft.build.answer = .ok orders := by
    cases h : ordersDraft.build.answer with
    | ok s => simp [orders, h, Except.toOption]
    | error p =>
      have hok : ordersDraft.build.answer.toOption.isSome = true := by decide +kernel
      simp [h, Except.toOption] at hok
  exact SetDraft.build_named hbuilt (by simp [SetStep.Named])

/-- An order that ends on the tenth of June, focused on its end, by the day of June that it starts. -/
def orderFrom (day : Nat) (hday : Calendar.IsDay 2024 6 day) : RowContext where
  row := 0
  values := [("Start", .date ⟨2024, 6, day, hday⟩), ("End", .date ⟨2024, 6, 10, by decide⟩)]
  column := some "End"
  pending := none

theorem orderFrom_agree (first second : Nat) (hfirst : Calendar.IsDay 2024 6 first)
    (hsecond : Calendar.IsDay 2024 6 second) :
    (orderFrom first hfirst).AgreeOn {c | c ≠ "Start"} (orderFrom second hsecond) := by
  refine ⟨rfl, rfl, rfl, fun c hc => ?_⟩
  have hne : c ≠ "Start" := by
    rcases hc with hc | hc
    · exact hc
    · rw [← Option.some.inj hc]
      decide
  simp [orderFrom, RowContext.get?, hne.symm]

/-- An order that starts in time becomes one that starts late. -/
theorem orders_verdicts :
    orders.verdict (orderFrom 1 (by decide)) .empty = .ok .success ∧
      orders.verdict (orderFrom 11 (by decide)) .empty =
        .ok (.error "Start must be on or before End") := by
  have hok : ∀ {x : Except Problem Verdict} {v : Verdict}, x.toOption = some v → x = .ok v := by
    intro x v h
    cases x with
    | error p => cases h
    | ok w => rw [Option.some.inj h]
  exact ⟨hok (by decide +kernel), hok (by decide +kernel)⟩

/-- The edit of the start is left unnoted for the end. -/
theorem mem_dependents_iff_not_unnoted_orders :
    orders.Unnoted "Start" "End" (orderFrom 1 (by decide)) (orderFrom 11 (by decide)) .empty := by
  have hdiff : orders.verdict (orderFrom 1 (by decide)) .empty ≠
      orders.verdict (orderFrom 11 (by decide)) .empty := by
    rw [orders_verdicts.1, orders_verdicts.2]
    decide
  by_contra hnoted
  have hmem := (mem_dependents_iff_not_unnoted orders_named (orderFrom_agree 1 11 _ _) rfl
    (by decide) hdiff).mpr hnoted
  exact absurd hmem (by decide +kernel)

/-- Editing the start of an order changes the verdict on its end, which is no dependent of the start:
the rule judges both and so does not note that it reads the one for the other. -/
theorem date_order_unnoted :
    (∀ r ∈ orders.rules, r.Named) ∧
      (orderFrom 1 (by decide)).AgreeOn {c | c ≠ "Start"} (orderFrom 11 (by decide)) ∧
      orders.verdict (orderFrom 1 (by decide)) .empty = .ok .success ∧
      orders.verdict (orderFrom 11 (by decide)) .empty =
        .ok (.error "Start must be on or before End") ∧
      "End" ∉ orders.dependents "Start" :=
  ⟨orders_named, orderFrom_agree 1 11 _ _, orders_verdicts.1, orders_verdicts.2,
    by decide +kernel⟩

end CellRules.RuleSet
