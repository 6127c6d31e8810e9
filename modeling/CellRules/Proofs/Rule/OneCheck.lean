/-
CellRules.Proofs.Rule.OneCheck — rules whose steps add one check.

Most rules are made for one check; the other steps say where it is made, when, and in which words. Of
such a rule the outcome can be read off the check: it fails a cell exactly if its guard lets it run and
the check does not pass, in whatever order the steps stand (`Draft.status_of_onlyChecks`).
-/
import CellRules.Proofs.Rule.Meaning

namespace CellRules

variable {check : RowContext → Verdict} {rule : String} {steps : List Step} {step : Step} {d : Draft}
  {r : Rule} {ctx : RowContext} {rows : Dataset} {vs : List Validator} {passes : Bool}

/-- The step adds a check to the rule. -/
def Step.addsCheck : Step → Bool
  | .judge _ | .judgeLater _ | .judgeAmong _ | .satisfies _ | .required | .requiredFields _
  | .inRange _ _ _ | .startBeforeEnd _ _ | .unique _ | .email | .phone => true
  | _ => false

/-- The steps add no check but a named one of the row. -/
def Step.OnlyChecks (check : RowContext → Verdict) (steps : List Step) : Prop :=
  ∀ step ∈ steps, step.addsCheck = true → ∃ names, step.check? = some (names, check)

/-- The guard lets the rule run, if there is one. -/
def Rule.Admits (r : Rule) (ctx : RowContext) : Prop :=
  ∀ guard, r.guard = some guard → guard ctx = .ok true

/-! ## The checks of a rule -/

namespace Draft

theorem validators_apply (h : step.addsCheck = false) :
    (d.apply step).validators = d.validators := by
  cases step <;> cases h <;> rfl

/-- The checks of a draft are those that it had and the one that its steps add. -/
theorem validators_foldl (hs : Step.OnlyChecks check steps) :
    ∀ v ∈ (steps.foldl Draft.apply d).validators,
      v ∈ d.validators ∨ v = (true, .prompt fun ctx => .ok (check ctx)) := by
  induction steps generalizing d with
  | nil => exact fun v hv => .inl hv
  | cons step steps ih =>
    intro v hv
    obtain ⟨hstep, hrest⟩ := List.forall_mem_cons.mp hs
    rcases ih hrest v hv with hkept | hadded
    · cases hadds : step.addsCheck with
      | false => exact .inl (validators_apply hadds ▸ hkept)
      | true =>
        obtain ⟨names, hcheck⟩ := hstep hadds
        rw [apply_check? hcheck] at hkept
        exact (List.mem_append.mp hkept).imp_right List.mem_singleton.mp
    · exact .inr hadded

/-- Every validator of the rule passes exactly if the check does. -/
theorem answer_of_onlyChecks (hr : (ofSteps rule steps).build = .ok r)
    (hs : Step.OnlyChecks check steps) :
    ∀ v ∈ r.validators, ∃ w, v.answer ctx rows = .ok w ∧ w.passes = (check ctx).passes := by
  intro v hv
  obtain ⟨styled, w, hmem, rfl⟩ := (build_ok hr).validators v hv
  rcases validators_foldl (d := { name := rule }) hs _ hmem with hnone | hcheck
  · cases hnone
  · obtain ⟨rfl, rfl⟩ := Prod.mk.inj hcheck
    exact ⟨_, Validator.answer_restyle (.prompt _) _ ctx rows, Style.passes_apply ..⟩

theorem validators_ne_nil (hr : d.build = .ok r) : r.validators ≠ [] := by
  obtain ⟨-, -, hvalidators, rfl⟩ := build_eq_ok.mp hr
  intro hnone
  have hlength := congrArg List.length hnone
  simp only [ordered, List.length_mergeSort, List.length_map, List.length_nil] at hlength
  exact hvalidators (List.length_eq_zero_iff.mp hlength)

end Draft

/-! ## The outcome -/

namespace Rule

/-- Validators that pass or fail as one: the first of them settles the outcome. -/
theorem status_runValidators
    (hvs : ∀ v ∈ vs, ∃ w, v.answer ctx rows = .ok w ∧ w.passes = passes) (hne : vs ≠ []) :
    ∃ o, (r.runValidators ctx rows vs).answer = .ok o ∧
      o.status = if passes then .passed else .failed := by
  induction vs with
  | nil => exact absurd rfl hne
  | cons v vs ih =>
    obtain ⟨⟨w, hw, hpasses⟩, hrest⟩ := List.forall_mem_cons.mp hvs
    simp only [runValidators, Work.answer, answer_runValidator, hw, hpasses]
    cases passes with
    | false => exact ⟨_, rfl, rfl⟩
    | true =>
      cases vs with
      | nil => exact ⟨_, rfl, rfl⟩
      | cons v vs => exact ih hrest (List.cons_ne_nil v vs)

/-- A rule that its guard lets run runs its validators; another one neither passes nor fails. -/
theorem answer_evaluate (r : Rule) (ctx : RowContext) (rows : Dataset) :
    (r.Admits ctx ∧ (r.evaluate ctx rows).answer
        = (r.runValidators ctx rows r.validators).answer) ∨
      (¬ r.Admits ctx ∧ ∃ o, (r.evaluate ctx rows).answer = .ok o ∧
        (o.status = .skipped ∨ o.status = .faulted)) := by
  unfold evaluate Admits
  cases r.guard with
  | none => exact .inl ⟨nofun, rfl⟩
  | some guard =>
    have hadmits : (∀ other, some guard = some other → other ctx = .ok true) ↔
        guard ctx = .ok true := by simp
    rw [hadmits]
    cases hanswer : guard ctx with
    | error detail => exact .inr ⟨nofun, ⟨_, .faulted, _⟩, by simp only [hanswer]; rfl, .inr rfl⟩
    | ok holds =>
      cases holds with
      | false => exact .inr ⟨nofun, .skip r.name, by simp only [hanswer]; rfl, .inl rfl⟩
      | true => exact .inl ⟨rfl, by simp only [hanswer]⟩

end Rule

/-- A rule whose steps add one check fails a cell exactly if its guard lets it run and the check does
not pass. -/
theorem Draft.status_of_onlyChecks (hr : (ofSteps rule steps).build = .ok r)
    (hs : Step.OnlyChecks check steps) (ctx : RowContext) (rows : Dataset) :
    ∃ o, (r.evaluate ctx rows).answer = .ok o ∧
      (o.status = .failed ↔ r.Admits ctx ∧ (check ctx).passes = false) := by
  rcases r.answer_evaluate ctx rows with ⟨hadmits, hsame⟩ | ⟨hnot, o, ho, hstatus⟩
  · obtain ⟨o, ho, hstatus⟩ :=
      Rule.status_runValidators (r := r) (answer_of_onlyChecks hr hs) (validators_ne_nil hr)
    refine ⟨o, hsame.trans ho, ?_⟩
    rw [hstatus, and_iff_right hadmits]
    cases (check ctx).passes <;> simp
  · refine ⟨o, ho, iff_of_false ?_ fun h => hnot h.1⟩
    rcases hstatus with h | h <;> rw [h] <;> nofun

end CellRules
