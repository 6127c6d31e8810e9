/-
CellRules.Proofs.Rule.Meaning — what the steps of a rule mean.

The steps that make a rule can be read off as they stand, without making it: conditions are asked
from left to right, checks are asked by stage and within a stage as they were added, the first that
does not pass settles the outcome, and the last severity and message given word the failures of all
checks that have no words of their own (`Meaning.outcome`). A rule that could be built gives just
that outcome (`Rule.evaluate_eq_meaning`), wherever in the steps its severity, its message and its
conditions stand.

The proof follows the making of the rule: what a draft holds after some steps is what is read off
them (`answer_guard_foldl`, `findings_foldl`, `words_ofSteps`), putting the checks in order is taking
them stage after stage (`Draft.ordered_eq`), and running them looks for the first that does not pass
(`Rule.answer_runValidators_map`).
-/
import CellRules.Proofs.Ranked
import CellRules.Proofs.Rule.Noting

namespace CellRules

/-! ## Reading steps -/

namespace Meaning

/-- How a condition goes with those before it. -/
inductive Joining where
  | replace
  | conjoin
  | disjoin

/-- The condition that a step puts before the checks. -/
def condition? : Step → Option (Joining × Guard)
  | .guardBy guard => some (.replace, guard)
  | .andGuard guard => some (.conjoin, guard)
  | .orGuard guard => some (.disjoin, guard)
  | step => step.guard?.map fun (_, guard) => (.replace, guard)

/-- Asks the condition of a step, if the answer so far leaves the matter open. -/
def consult (ctx : RowContext) (sofar : Option (Except String Bool)) (step : Step) :
    Option (Except String Bool) :=
  match condition? step, sofar with
  | none, _ => sofar
  | some (.replace, guard), _ | some (_, guard), none => some (guard ctx)
  | some (.conjoin, guard), some (.ok true) => some (guard ctx)
  | some (.disjoin, guard), some (.ok false) => some (guard ctx)
  | some _, some settled => some settled

/-- What a check says, the stage it is asked at, and whether a failure keeps its own words. -/
structure Finding where
  stage : Stage
  own : Bool
  answer : Answer

/-- What the check of a step says of a row among others. -/
def finding? (rule : String) (ctx : RowContext) (rows : Dataset) : Step → Option Finding
  | .judge check => some ⟨.sync, true, check ctx⟩
  | .judgeLater start => some ⟨.async, true, match start ctx with
    | .broken detail => .error detail
    | .after _ answer => answer⟩
  | .judgeAmong check => some ⟨.crossRow, true, check ctx rows⟩
  | .satisfies condition => some ⟨.sync, false, match condition ctx with
    | .ok true => .ok .success
    | .ok false => .ok ⟨false, .error, "Rule '" ++ rule ++ "' failed"⟩
    | .error detail => .error detail⟩
  | .unique column => some ⟨.crossRow, false, .ok (Check.unique column ctx rows)⟩
  | step => step.check?.map fun (_, check) => ⟨.sync, false, .ok (check ctx)⟩

def level? : Step → Option Severity
  | .severity level => some level
  | _ => none

def message? : Step → Option String
  | .message text => some text
  | _ => none

/-- The last of what some steps give, or what stands if none gives it. -/
def last (given? : σ → Option β) (standing : β) (steps : List σ) : β :=
  (steps.filterMap given?).getLast?.getD standing

/-- A failure in the rule's words: at its severity, with its message unless that is blank. -/
def words (rule : String) (steps : List Step) (ctx : RowContext) (v : Verdict) : Verdict :=
  let message := last message? "" steps
  .failure (last level? .error steps)
    (if Text.isBlank message then v.message else Template.render ⟨rule, message⟩ ctx)

/-- Stage after stage, each in the order given. -/
def inStages (stage : α → Stage) (l : List α) : List α :=
  l.filter (stage · = .sync) ++ l.filter (stage · = .async) ++ l.filter (stage · = .crossRow)

/-- The check does not pass. -/
def Finding.settles (f : Finding) : Bool :=
  match f.answer with
  | .ok v => !v.passes
  | .error _ => true

/-- The outcome of a rule that broke down. -/
def broken (rule detail : String) : Outcome :=
  ⟨rule, .faulted, ⟨false, .error, "Rule '" ++ rule ++ "' failed to execute: " ++ detail⟩⟩

/-- The outcome of the first check that does not pass, or of none. -/
def settled (rule : String) (words : Verdict → Verdict) : Option Finding → Outcome
  | none => ⟨rule, .passed, .success⟩
  | some ⟨_, _, .error detail⟩ => broken rule detail
  | some ⟨_, own, .ok v⟩ => ⟨rule, .failed, if own then v else words v⟩

/-- What the rule of some steps makes of a row among others. -/
def outcome (rule : String) (steps : List Step) (ctx : RowContext) (rows : Dataset) : Outcome :=
  match steps.foldl (consult ctx) none with
  | some (.ok false) => ⟨rule, .skipped, .success⟩
  | some (.error detail) => broken rule detail
  | none | some (.ok true) =>
    settled rule (words rule steps ctx)
      ((inStages Finding.stage (steps.filterMap (finding? rule ctx rows))).find? (·.settles))

end Meaning

open Meaning

variable {α β : Type} {rule detail : String} {steps : List Step} {step : Step} {d : Draft}
  {r : Rule} {ctx : RowContext} {rows : Dataset}

/-! ## What a draft holds -/

/-- A field that some steps set holds what the last of them gave. -/
theorem Meaning.last_foldl {σ δ : Type} {apply : δ → σ → δ} (field : δ → β) (given? : σ → Option β)
    (hset : ∀ d step, field (apply d step) = (given? step).getD (field d)) (d : δ)
    (steps : List σ) : field (steps.foldl apply d) = last given? (field d) steps := by
  induction steps generalizing d with
  | nil => rfl
  | cons step steps ih =>
    rw [List.foldl_cons, ih, hset]
    cases hgiven : given? step <;> simp [last, hgiven, List.getLast?_cons]

namespace Draft

/-- What the guard says after a step is what it said before, with the condition of the step. -/
theorem answer_guard_apply :
    consult ctx (d.guard.map (· ctx)) step = (d.apply step).guard.map (· ctx) := by
  cases step with
  | andGuard guard | orGuard guard =>
    simp only [consult, condition?, Draft.apply, Draft.combineGuard]
    cases d.guard with
    | none => rfl
    | some first =>
      simp only [Option.map_some, Guard.both, Guard.either]
      cases first ctx with
      | error detail => rfl
      | ok holds => cases holds <;> rfl
  | _ => rfl

theorem answer_guard_foldl : steps.foldl (consult ctx) (d.guard.map (· ctx)) =
    (steps.foldl Draft.apply d).guard.map (· ctx) :=
  List.foldl_hom (fun d : Draft => d.guard.map (· ctx)) fun _ _ => answer_guard_apply

theorem name_apply : (d.apply step).name = d.name := by
  cases step <;> rfl

theorem name_foldl : (steps.foldl Draft.apply d).name = d.name := by
  induction steps generalizing d with
  | nil => rfl
  | cons step steps ih => rw [List.foldl_cons, ih, name_apply]

/-- What a validator of a draft says, before it is reworded. -/
def finding (ctx : RowContext) (rows : Dataset) (v : Bool × Validator) : Finding :=
  ⟨v.2.stage, !v.1, v.2.answer ctx rows⟩

theorem rule_named (rule rest : String) :
    "Rule " ++ Problem.named rule ++ rest = "Rule '" ++ rule ++ ("'" ++ rest) := by
  have hquote : "Rule '" = "Rule " ++ "'" := rfl
  simp only [Problem.named, hquote, String.append_assoc]

/-- The words of a failure that names its rule are never blank, so they stay. -/
theorem error_rule_named (rule rest : String) :
    Verdict.error ("Rule " ++ Problem.named rule ++ rest) =
      ⟨false, .error, "Rule '" ++ rule ++ ("'" ++ rest)⟩ := by
  have hblank : Text.isBlank ("Rule " ++ Problem.named rule ++ rest) = false := by
    simp [Text.isBlank, Text.isSpace]
  rw [Verdict.error, Verdict.failure, hblank, rule_named]
  rfl

/-- A step adds its check behind those before it. -/
theorem findings_apply : (d.apply step).validators.map (finding ctx rows) =
    d.validators.map (finding ctx rows) ++ (finding? d.name ctx rows step).toList := by
  have hcheck : ∀ {names check}, step.check? = some (names, check) →
      (d.apply step).validators.map (finding ctx rows) =
        d.validators.map (finding ctx rows) ++ [⟨.sync, false, .ok (check ctx)⟩] := by
    intro names check hnamed
    rw [apply_check? hnamed]
    simp [withCheck, withStyled, reading, finding, Validator.stage, Validator.answer]
  cases step with
  | judge _ | judgeAmong _ | unique _ =>
    simp [Draft.apply, withOwn, withStyled, withScope, reading, finding, finding?, Validator.stage,
      Validator.answer]
  | judgeLater start =>
    cases hstart : start ctx <;>
      simp [Draft.apply, withOwn, finding, finding?, Validator.stage, Validator.answer, hstart]
  | satisfies condition =>
    have hsaid : conditionCheck d.name condition ctx = match condition ctx with
        | .ok true => .ok .success
        | .ok false => .ok ⟨false, .error, "Rule '" ++ d.name ++ "' failed"⟩
        | .error detail => .error detail := by
      simp only [conditionCheck]
      cases condition ctx with
      | error detail => rfl
      | ok holds =>
        cases holds with
        | true => rfl
        | false => exact congrArg Except.ok (error_rule_named d.name " failed")
    simp [Draft.apply, withStyled, finding, finding?, Validator.stage, Validator.answer, hsaid]
  | required | requiredFields _ | inRange _ _ _ | startBeforeEnd _ _ | email | phone =>
    exact hcheck rfl
  | _ => simp [finding?, Step.check?, Draft.apply, reading, combineGuard]

theorem findings_foldl : (steps.foldl Draft.apply d).validators.map (finding ctx rows) =
    d.validators.map (finding ctx rows) ++ steps.filterMap (finding? d.name ctx rows) := by
  induction steps generalizing d with
  | nil => simp
  | cons step steps ih =>
    rw [List.foldl_cons, ih, findings_apply, name_apply, List.append_assoc]
    cases hstep : finding? d.name ctx rows step <;> simp [hstep]

/-- The style of a rule words its failures by the last severity and the last message given. -/
theorem words_ofSteps {v : Verdict} (hv : v.passes = false) :
    (ofSteps rule steps).style.apply ctx v = words rule steps ctx v := by
  have hlevel : (ofSteps rule steps).severity = last level? .error steps :=
    last_foldl Draft.severity level? (fun _ step => by cases step <;> rfl) { name := rule } steps
  have hmessage : (ofSteps rule steps).message.getD "" = last message? "" steps :=
    last_foldl (fun d : Draft => d.message.getD "") message?
      (fun _ step => by cases step <;> rfl) { name := rule } steps
  have hname : (ofSteps rule steps).name = rule := name_foldl
  unfold Style.apply words
  simp only [style, hlevel, hmessage, hname, hv, Bool.false_eq_true, if_false]
  cases Text.isBlank (last message? "" steps) <;> rfl

/-- What is there of a draft that can be built. -/
theorem build_eq_ok : d.build = .ok r ↔
    Text.isBlank d.name = false ∧ d.targets ≠ [] ∧ d.validators ≠ [] ∧ r =
      { name := d.name
        description := d.description
        targets := d.targets
        dependencies :=
          Ascending.addAll d.dependencies (d.reads.filter fun c => !d.targets.contains c)
        guard := d.guard
        validators := d.ordered
        scopes := d.scopes
        severity := d.severity
        priority := d.priority
        message := d.message.getD "" } := by
  constructor
  · intro h
    unfold build at h
    split at h
    · cases h
    split at h
    · cases h
    split at h
    · cases h
    rename_i hname htargets hvalidators
    exact ⟨by simpa using hname, by simpa using htargets, by simpa using hvalidators,
      (Except.ok.inj h).symm⟩
  · rintro ⟨hname, htargets, hvalidators, rfl⟩
    simp [build, hname, htargets, hvalidators]

/-! ## Stage after stage -/

/-- A validator in the words that the rule gives it. -/
def reworded (d : Draft) (v : Bool × Validator) : Validator :=
  if v.1 then v.2.restyle d.style else v.2

theorem stage_reworded (v : Bool × Validator) : (d.reworded v).stage = v.2.stage := by
  obtain ⟨styled, v⟩ := v
  cases styled with
  | false => rfl
  | true => cases v <;> rfl

end Draft

theorem Meaning.map_inStages {stage : β → Stage} {f : α → β} (l : List α) :
    inStages stage (l.map f) = (inStages (stage ∘ f) l).map f := by
  simp only [inStages, List.filter_map, List.map_append]
  rfl

/-- Sorting validators by stage is taking them stage after stage. -/
theorem Meaning.sort_eq_inStages (vs : List Validator) :
    (vs.mergeSort fun a b => a.stage.rank ≤ b.stage.rank) = inStages Validator.stage vs := by
  have hwithin : ∀ s, (vs.filter (·.stage = s)).Pairwise fun a b => a.stage.rank ≤ b.stage.rank := by
    intro s
    rw [List.pairwise_filter]
    refine List.pairwise_of_forall fun a b ha hb => ?_
    rw [of_decide_eq_true ha, of_decide_eq_true hb]
  have hrank : ∀ k s, (vs.filter (·.stage = s)).filter (·.stage.rank = k) =
      if k = s.rank then vs.filter (·.stage.rank = k) else [] := by
    intro k s
    rw [List.filter_filter]
    split
    · refine List.filter_congr fun v _ => ?_
      subst k
      cases s <;> cases v.stage <;> rfl
    · rename_i hk
      rw [List.filter_eq_nil_iff]
      intro v _ hv
      simp only [Bool.and_eq_true, decide_eq_true_eq] at hv
      exact hk (hv.1.symm.trans (congrArg Stage.rank hv.2))
  refine Ranked.eq_of_filter (Ranked.pairwise_sort vs) ?_ fun k => ?_
  · simp only [inStages, List.pairwise_append, List.mem_append, List.mem_filter, decide_eq_true_eq]
    refine ⟨⟨hwithin _, hwithin _, ?_⟩, hwithin _, ?_⟩
    · rintro a ⟨-, ha⟩ b ⟨-, hb⟩
      simp [ha, hb, Stage.rank]
    · rintro a (⟨-, ha⟩ | ⟨-, ha⟩) b ⟨-, hb⟩ <;> simp [ha, hb, Stage.rank]
  · rw [Ranked.filter_sort]
    simp only [inStages, List.filter_append, hrank]
    rcases k with _ | _ | _ | k
    · simp [Stage.rank]
    · simp [Stage.rank]
    · simp [Stage.rank]
    · have hnone : vs.filter (·.stage.rank = k + 3) = [] := by
        rw [List.filter_eq_nil_iff]
        intro v _
        cases v.stage <;> simp [Stage.rank]
      simp [hnone]

theorem Draft.ordered_eq :
    d.ordered = (inStages (·.2.stage) d.validators).map d.reworded := by
  have hstage : Validator.stage ∘ d.reworded = (·.2.stage) := funext stage_reworded
  rw [← hstage, ← map_inStages, ← sort_eq_inStages]
  rfl

/-! ## The outcome -/

theorem Meaning.faulted_eq :
    (⟨rule, .faulted, Rule.faultVerdict rule detail⟩ : Outcome) = broken rule detail := by
  have hwords := Draft.error_rule_named rule (" failed to execute: " ++ detail)
  rw [← String.append_assoc] at hwords
  rw [Rule.faultVerdict, hwords, broken]
  have hquote : "' failed to execute: " = "'" ++ " failed to execute: " := rfl
  simp only [hquote, String.append_assoc]

/-- Running validators looks for the first that does not pass. -/
theorem Rule.answer_runValidators_map {reword : Verdict → Verdict}
    (hreword : ∀ v, v.passes = false → d.style.apply ctx v = reword v)
    (vs : List (Bool × Validator)) :
    (r.runValidators ctx rows (vs.map d.reworded)).answer =
      .ok (settled r.name reword ((vs.map (Draft.finding ctx rows)).find? (·.settles))) := by
  induction vs with
  | nil => rfl
  | cons v vs ih =>
    obtain ⟨styled, v⟩ := v
    simp only [List.map_cons, runValidators, Work.answer, answer_runValidator, List.find?_cons]
    cases hanswer : v.answer ctx rows with
    | error detail =>
      have hsaid : (d.reworded (styled, v)).answer ctx rows = .error detail := by
        cases styled with
        | true => exact (v.answer_restyle d.style ctx rows).trans (by rw [hanswer]; rfl)
        | false => exact hanswer
      simp [hsaid, Draft.finding, Finding.settles, hanswer, settled, faulted_eq]
    | ok w =>
      have hsaid : (d.reworded (styled, v)).answer ctx rows =
          .ok (if styled then d.style.apply ctx w else w) := by
        cases styled with
        | true => exact (v.answer_restyle d.style ctx rows).trans (by rw [hanswer]; rfl)
        | false => exact hanswer
      have hpasses : (if styled then d.style.apply ctx w else w).passes = w.passes := by
        cases styled with
        | true => exact Style.passes_apply d.style ctx w
        | false => rfl
      cases hw : w.passes with
      | true => simp [hsaid, hpasses, hw, Draft.finding, Finding.settles, hanswer, ih]
      | false =>
        have hsettles : (Draft.finding ctx rows (styled, v)).settles = true := by
          simp [Draft.finding, Finding.settles, hanswer, hw]
        have hsettled : settled r.name reword (some (Draft.finding ctx rows (styled, v))) =
            ⟨r.name, .failed, if styled then d.style.apply ctx w else w⟩ := by
          cases styled <;> simp [settled, Draft.finding, hanswer, hreword w hw]
        simp only [hsaid, hpasses, hw, hsettles, hsettled, Bool.false_eq_true, if_false]

/-- A rule that could be built gives the outcome that its steps mean. -/
theorem Rule.evaluate_eq_meaning (h : (Draft.ofSteps rule steps).build = .ok r)
    (ctx : RowContext) (rows : Dataset) :
    (r.evaluate ctx rows).answer = .ok (outcome rule steps ctx rows) := by
  obtain ⟨-, -, -, hr⟩ := Draft.build_eq_ok.mp h
  have hname : r.name = rule := by rw [hr]; exact Draft.name_foldl
  have hguard : r.guard.map (· ctx) = steps.foldl (consult ctx) none := by
    rw [hr]
    exact (Draft.answer_guard_foldl (d := { name := rule })).symm
  have hfindings : (Draft.ofSteps rule steps).validators.map (Draft.finding ctx rows) =
      steps.filterMap (finding? rule ctx rows) :=
    Draft.findings_foldl (d := { name := rule })
  have hchecks : (r.runValidators ctx rows r.validators).answer =
      .ok (settled rule (words rule steps ctx)
        ((inStages Finding.stage (steps.filterMap (finding? rule ctx rows))).find?
          (·.settles))) := by
    have hordered : r.validators = (Draft.ofSteps rule steps).ordered := by rw [hr]
    rw [hordered, Draft.ordered_eq, Rule.answer_runValidators_map fun v => Draft.words_ofSteps,
      hname, ← hfindings, map_inStages]
    rfl
  subst hname
  rw [evaluate, outcome, ← hguard]
  cases r.guard with
  | none => exact hchecks
  | some guard =>
    simp only [Option.map_some]
    cases guard ctx with
    | error detail => exact congrArg Except.ok faulted_eq
    | ok holds =>
      cases holds with
      | true => exact hchecks
      | false => rfl

/-- Steps whose first condition would break down but is replaced, whose last one would but is not
asked, and whose severity and message stand behind the check that they word. -/
def Meaning.scatteredSteps : List Step :=
  [.guardBy fun _ => .error "replaced", .guardBy fun _ => .ok true,
    .orGuard fun _ => .error "not asked", .judgeAmong fun _ _ => .error "too late", .required,
    .message "{column} of {row}", .severity .warning, .forColumn "Code"]

/-- A code that is missing settles the outcome before the check among rows is asked. -/
theorem Rule.evaluate_eq_meaning_scattered :
    ∃ r, (Draft.ofSteps "code" scatteredSteps).build = .ok r ∧
      (r.evaluate ⟨3, [("Code", .null)], some "Code", none⟩ .empty).answer =
        .ok ⟨"code", .failed, ⟨false, .warning, "Code of 3"⟩⟩ := by
  obtain ⟨r, hr⟩ : ∃ r, (Draft.ofSteps "code" scatteredSteps).build = .ok r := ⟨_, rfl⟩
  refine ⟨r, hr, ?_⟩
  rw [evaluate_eq_meaning hr]
  exact congrArg Except.ok (by decide +kernel)

end CellRules
