/-
CellRules.Proofs.RuleSet.RunOrder — which rules run on a cell, and which of their outcomes are kept.

The rules of a column run by priority and, within one priority, as they were added
(`RuleSet.RunOrder`). Each gives the outcome that it gives alone, whatever the others do. The mode
only decides how many are kept: all, or those up to the first error (`CutAtError`). What is kept is
merged at the severity of the worst failure (`Merged`).
-/
import CellRules.Proofs.Ranked
import CellRules.Proofs.RuleSet.Locality
import Mathlib.Data.List.TakeDrop

namespace CellRules

/-! ## Up to the first error -/

/-- The last of some outcomes is a failure at the level of errors. -/
def EndsInError (outcomes : List Outcome) : Prop :=
  ∃ o, outcomes.getLast? = some o ∧ o.verdict.isError = true

/-- Of some outcomes, those up to the first error: the shortest beginning that ends in an error, or
all of them if there is none. -/
structure CutAtError (outcomes kept : List Outcome) : Prop where
  beginning : kept <+: outcomes
  ends : EndsInError kept ∨ (kept = outcomes ∧ ∀ o ∈ outcomes, o.verdict.isError = false)
  shortest : ∀ other, other <+: outcomes → EndsInError other → kept <+: other

/-- Taking the outcomes up to the first error cuts there. -/
theorem cutAtError_take (outcomes : List Outcome) :
    CutAtError outcomes (outcomes.take (outcomes.findIdx (·.verdict.isError) + 1)) where
  beginning := List.take_prefix ..
  ends := by
    by_cases hfound : outcomes.findIdx (·.verdict.isError) < outcomes.length
    · refine .inl ⟨_, ?_, List.findIdx_getElem (w := hfound)⟩
      rw [List.getLast?_take, if_neg (by omega), Nat.add_sub_cancel, List.getElem?_eq_getElem hfound]
      rfl
    · have hnone := List.findIdx_eq_length.mp (le_antisymm List.findIdx_le_length (not_lt.mp hfound))
      exact .inr ⟨List.take_of_length_le (by omega), hnone⟩
  shortest := by
    rintro other ⟨rest, rfl⟩ ⟨o, hlast, herror⟩
    have hfound : other.findIdx (·.verdict.isError) < other.length :=
      List.findIdx_lt_length_of_exists ⟨o, List.mem_of_getLast? hlast, herror⟩
    rw [List.findIdx_append, if_pos hfound, List.take_append_of_le_length hfound]
    exact List.take_prefix ..

/-! ## Merging -/

/-- A verdict merged from those of some outcomes: it fails if one of them does, and at the severity of
the worst failure. -/
structure Merged (verdict : Verdict) (outcomes : List Outcome) : Prop where
  fails_iff : verdict.fails = true ↔ ∃ o ∈ outcomes, o.fails = true
  reached : verdict.fails = true →
    ∃ o ∈ outcomes, o.fails = true ∧ o.verdict.severity = verdict.severity
  worst : ∀ o ∈ outcomes, o.fails = true → o.verdict.severity ≤ verdict.severity

theorem merged_merge (outcomes : List Outcome) :
    Merged (Verdict.merge (outcomes.map Outcome.verdict)) outcomes := by
  have hfails : (Verdict.merge (outcomes.map Outcome.verdict)).fails = true ↔
      ∃ o ∈ outcomes, o.fails = true := by
    have hpasses := (@Verdict.passes_merge (outcomes.map Outcome.verdict)).not
    simpa [Verdict.fails, Outcome.fails] using hpasses
  refine ⟨hfails, fun h => ?_, fun o ho hfail => ?_⟩
  · obtain ⟨hmem, -⟩ := Verdict.worst_eq_some (Verdict.severity_merge h)
    simpa [Outcome.fails, and_assoc] using hmem
  · have h := hfails.mpr ⟨o, ho, hfail⟩
    refine (Verdict.worst_eq_some (Verdict.severity_merge h)).2 _ (List.mem_map_of_mem ?_)
    exact List.mem_filter.mpr ⟨List.mem_map_of_mem ho, hfail⟩

namespace RuleSet

variable {s : RuleSet} {ctx : RowContext} {rows : Dataset} {column : String} {rules : List Rule}
  {outcomes : List Outcome}

/-! ## The run -/

/-- The rules of a column in the order in which they run: all that judge it, by priority, and as they
were added within one priority. -/
structure RunOrder (s : RuleSet) (column : String) (rules : List Rule) : Prop where
  all : rules.Perm (s.rules.filter (·.appliesTo column))
  ascending : rules.Pairwise fun a b => a.priority ≤ b.priority
  ties : ∀ priority, rules.filter (·.priority = priority) =
    (s.rules.filter (·.appliesTo column)).filter (·.priority = priority)

theorem runOrder_rulesFor (s : RuleSet) (column : String) :
    s.RunOrder column (s.rulesFor column) where
  all := List.mergeSort_perm ..
  ascending := Ranked.pairwise_sort _
  ties := Ranked.filter_sort _

/-- Running rules keeps the outcomes up to the first one that the mode stops at, and says whether
there are more. -/
theorem answer_runRules
    (h : List.Forall₂ (fun r o => (r.evaluate ctx rows).answer = .ok o) rules outcomes) :
    (s.runRules ctx rows rules).answer =
      .ok (outcomes.take (outcomes.findIdx s.stopsAt + 1),
        decide (outcomes.findIdx s.stopsAt + 1 < outcomes.length)) := by
  induction h with
  | nil => rfl
  | @cons r o rules outcomes ho hrest ih =>
    rw [answer_runRules_cons ho, ih, List.findIdx_cons]
    cases hstops : s.stopsAt o with
    | true =>
      have hmore : (!rules.isEmpty) = decide (0 < outcomes.length) := by
        rw [← hrest.length_eq]
        cases rules <;> simp
      simp [hmore]
    | false => simp [Except.map]

/-- Every rule has an outcome. -/
theorem exists_outcomes (ctx : RowContext) (rows : Dataset) (rules : List Rule) : ∃ outcomes,
    List.Forall₂ (fun r o => (r.evaluate ctx rows).answer = .ok o) rules outcomes := by
  induction rules with
  | nil => exact ⟨[], .nil⟩
  | cons r rules ih =>
    obtain ⟨o, ho⟩ := r.evaluate_ok ctx rows
    obtain ⟨outcomes, hrest⟩ := ih
    exact ⟨o :: outcomes, .cons ho hrest⟩

/-- The rules of a column run in order, each as it would alone. The mode that runs all keeps every
outcome; the mode that stops keeps those up to the first error, and says so if these are not all.
What is kept is merged. -/
theorem evaluateContext_runOrder (s : RuleSet) (rows : Dataset) (h : ctx.column = some column) :
    ∃ rules outcomes, s.RunOrder column rules ∧
      List.Forall₂ (fun r o => (r.evaluate ctx rows).answer = .ok o) rules outcomes ∧
      ∀ mode, ∃ report, ((s.setMode mode).evaluateContext ctx rows).answer = .ok report ∧
        report.row = ctx.row ∧ report.column = column ∧
        (match mode with
        | .processAll => report.outcomes = outcomes ∧ report.halted = false
        | .stopOnFirstError => CutAtError outcomes report.outcomes ∧
          (report.halted = true ↔ report.outcomes ≠ outcomes)) ∧
        Merged report.verdict report.outcomes := by
  obtain ⟨outcomes, houtcomes⟩ := exists_outcomes ctx rows (s.rulesFor column)
  refine ⟨s.rulesFor column, outcomes, s.runOrder_rulesFor column, houtcomes, fun mode => ?_⟩
  have hjudge : ((s.setMode mode).evaluateContext ctx rows).answer =
      .ok (.ofOutcomes ctx.row column
        (outcomes.take (outcomes.findIdx (s.setMode mode).stopsAt + 1))
        (decide (outcomes.findIdx (s.setMode mode).stopsAt + 1 < outcomes.length))) := by
    simp only [evaluateContext, h]
    have hrules : (s.setMode mode).rulesFor column = s.rulesFor column := rfl
    rw [hrules, judge, answer_seq, answer_runRules houtcomes, h]
    rfl
  refine ⟨_, hjudge, rfl, rfl, ?_, merged_merge _⟩
  cases mode with
  | processAll =>
    have hnone : outcomes.findIdx (s.setMode .processAll).stopsAt = outcomes.length :=
      List.findIdx_eq_length.mpr fun _ _ => rfl
    simp only [CellReport.ofOutcomes, hnone]
    exact ⟨List.take_of_length_le (by omega), decide_eq_false (by omega)⟩
  | stopOnFirstError =>
    have hstops : (s.setMode .stopOnFirstError).stopsAt = (·.verdict.isError) := rfl
    simp only [CellReport.ofOutcomes, hstops]
    refine ⟨cutAtError_take outcomes, ?_⟩
    rw [decide_eq_true_iff, ne_eq, List.take_eq_self_iff, not_le]

/-! ## Codes -/

/-- A rule about codes that always answers the same. -/
def codeRule (name : String) (priority : Int) (answer : Answer) : Rule :=
  ⟨name, none, ["Code"], [], none, [.prompt fun _ => answer], [], .error, priority, ""⟩

/-- Rules about codes: the one added last comes first, and then one breaks down. -/
def codes : RuleSet :=
  { name := "codes"
    rules := [codeRule "found" 1 (.error "no catalogue"), codeRule "fresh" 1 (.ok .success),
      codeRule "plain" 0 (.ok (.failure .warning "not plain"))]
    mode := .stopOnFirstError }

/-- What they say about a code: a warning, a fault, and that there are more rules. -/
def codesReport : CellReport :=
  .ofOutcomes 0 "Code"
    [⟨"plain", .failed, .failure .warning "not plain"⟩,
      ⟨"found", .faulted, .error "Rule 'found' failed to execute: no catalogue"⟩] true

/-- The rules about codes stop at the fault, which makes the whole an error. -/
theorem evaluateContext_runOrder_codes :
    let ctx : RowContext := ⟨0, [("Code", .null)], some "Code", none⟩
    (codes.evaluateContext ctx .empty).answer = .ok codesReport ∧
      Merged codesReport.verdict codesReport.outcomes ∧
      ∃ outcomes, CutAtError outcomes codesReport.outcomes ∧ codesReport.outcomes ≠ outcomes := by
  intro ctx
  have hrules : codes.rulesFor "Code" = [codeRule "plain" 0 (.ok (.failure .warning "not plain")),
      codeRule "found" 1 (.error "no catalogue"), codeRule "fresh" 1 (.ok .success)] := by
    simp [rulesFor, codes, codeRule, Rule.appliesTo, List.mergeSort,
      List.MergeSort.Internal.splitInTwo]
  have hanswer : (codes.evaluateContext ctx .empty).answer = .ok codesReport := by
    rw [evaluateContext]
    simp only [ctx, hrules]
    rfl
  obtain ⟨-, outcomes, -, -, hmodes⟩ := evaluateContext_runOrder codes .empty (rfl : ctx.column = _)
  obtain ⟨report, hreport, -, -, ⟨hcut, hhalted⟩, hmerged⟩ := hmodes .stopOnFirstError
  obtain rfl : codesReport = report := Except.ok.inj (hanswer.symm.trans hreport)
  exact ⟨hanswer, hmerged, outcomes, hcut, hhalted.mp rfl⟩

end RuleSet

end CellRules
