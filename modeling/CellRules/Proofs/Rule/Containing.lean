/-
CellRules.Proofs.Rule.Containing — rules that run where a text contains a fragment.

A rule may ask that the text of a column contain a fragment, case not counted: both are put in lower
case, each by itself, and then one is looked for in the other. Where the fragment stands in the text
as it is, that finds it unless a capital sigma in it is a final one in the text and not in the
fragment, or the other way round. A rule whose last condition this is then runs
(`Guard.LetsRun`). Fragments with a sigma that an edge leaves open are just those for which some
text contains the fragment and the rule is skipped (`Guard.letsRun_of_contains_iff`).
-/
import CellRules.Proofs.Rule.OneCheck
import CellRules.Proofs.Text.Lower

namespace CellRules

open Meaning

variable {rule column fragment : String} {earlier later : List Step}
  {sofar : Option (Except String Bool)} {r : Rule} {ctx : RowContext} {rows : Dataset}
  {vs : List Validator} {o : Outcome}

/-- The condition that a column contains a fragment is met, and a rule that has it as its last
condition is not skipped. -/
structure Guard.LetsRun (column fragment : String) (ctx : RowContext) : Prop where
  met : Guard.holds column fragment ctx = .ok true
  runs : ∀ rule earlier later r, (∀ step ∈ later, condition? step = none) →
    (Draft.ofSteps rule (earlier ++ .columnContains column fragment :: later)).build = .ok r →
      ∀ rows, ∃ o, (r.evaluate ctx rows).answer = .ok o ∧ o.status ≠ .skipped

/-! ## The last condition -/

theorem Meaning.foldl_consult_of_none (h : ∀ step ∈ later, condition? step = none) :
    later.foldl (consult ctx) sofar = sofar := by
  induction later with
  | nil => rfl
  | cons step later ih =>
    obtain ⟨hstep, hlater⟩ := List.forall_mem_cons.mp h
    have hconsult : consult ctx sofar step = sofar := by
      unfold consult
      rw [hstep]
    rw [List.foldl_cons, hconsult, ih hlater]

/-- What a rule asks of a row is what its last condition asks, if that replaces those before it. -/
theorem Draft.guard_of_columnContains (ctx : RowContext)
    (hlater : ∀ step ∈ later, condition? step = none)
    (hr : (ofSteps rule (earlier ++ .columnContains column fragment :: later)).build = .ok r) :
    r.guard.map (· ctx) = some (Guard.holds column fragment ctx) := by
  obtain ⟨-, -, -, rfl⟩ := build_eq_ok.mp hr
  have hfold : (earlier ++ .columnContains column fragment :: later).foldl (consult ctx) none
      = some (Guard.holds column fragment ctx) := by
    rw [List.foldl_append, List.foldl_cons, foldl_consult_of_none hlater]
    rfl
  exact (answer_guard_foldl (d := { name := rule })).symm.trans hfold

/-- Validators do not skip the rule. -/
theorem Rule.status_runValidators_ne_skipped
    (h : (r.runValidators ctx rows vs).answer = .ok o) : o.status ≠ .skipped := by
  induction vs with
  | nil =>
    cases h
    simp
  | cons v vs ih =>
    simp only [runValidators, Work.answer, answer_runValidator] at h
    split at h
    · split at h
      · exact ih h
      · cases h
        simp
    · cases h
      simp

theorem Rule.answer_evaluate_skip (hguard : r.guard.map (· ctx) = some (.ok false)) :
    (r.evaluate ctx rows).answer = .ok (.skip r.name) := by
  obtain ⟨guard, hg, hanswer⟩ := Option.map_eq_some_iff.mp hguard
  unfold evaluate
  simp only [hg, hanswer]
  rfl

theorem Guard.LetsRun.of_contains_lower
    (h : Text.contains (Text.lower (ctx.textOf column)) (Text.lower fragment) = true) :
    LetsRun column fragment ctx := by
  have hmet : Guard.holds column fragment ctx = .ok true := congrArg Except.ok h
  refine ⟨hmet, fun rule earlier later r hlater hr rows => ?_⟩
  have hguard := Draft.guard_of_columnContains ctx hlater hr
  have hadmits : r.Admits ctx := by
    intro guard hg
    rw [hg, hmet] at hguard
    exact Option.some.inj hguard
  rcases r.answer_evaluate ctx rows with ⟨-, hsame⟩ | ⟨hnot, -⟩
  · obtain ⟨o, ho⟩ := r.runValidators_ok ctx rows r.validators
    exact ⟨o, hsame.trans ho, Rule.status_runValidators_ne_skipped ho⟩
  · exact absurd hadmits hnot

/-! ## Fragments that the text contains -/

/-- A rule runs where the text has the fragment between characters that do not bend it. -/
theorem Guard.LetsRun.of_not_bends {before after : List Char}
    (htext : (ctx.textOf column).toList = before ++ fragment.toList ++ after)
    (hbends : ¬ Text.Bends before.reverse fragment.toList after) : LetsRun column fragment ctx :=
  .of_contains_lower (Text.contains_lower_of_not_bends htext hbends)

theorem Guard.LetsRun.of_not_loose (hloose : ¬ Text.Loose fragment.toList)
    (hcontains : Text.contains (ctx.textOf column) fragment = true) :
    LetsRun column fragment ctx := by
  obtain ⟨before, after, htext⟩ := Text.contains_iff.mp hcontains
  exact .of_not_bends htext fun hbends => hloose hbends.loose

/-- With a fragment that has no capital sigma a rule runs wherever the text contains it. -/
theorem Guard.LetsRun.of_no_sigma (hsigma : '\u03A3' ∉ fragment.toList)
    (hcontains : Text.contains (ctx.textOf column) fragment = true) :
    LetsRun column fragment ctx :=
  .of_not_loose (Text.not_loose_of_not_mem hsigma) hcontains

theorem RowContext.textOf_singleton (row : Nat) (column text : String) :
    (RowContext.mk row [(column, .text text)] none none).textOf column = text := by
  simp [textOf, get?, Cell.toText]

/-- A rule with the condition runs wherever the text contains the fragment exactly if no sigma in the
fragment is left open by an edge. With any fragment it runs where the text has the fragment between
characters that do not bend it. -/
theorem Guard.letsRun_of_contains_iff (column fragment : String) :
    ((∀ ctx, Text.contains (ctx.textOf column) fragment = true → LetsRun column fragment ctx) ↔
        ¬ Text.Loose fragment.toList) ∧
      ∀ ctx before after, (ctx.textOf column).toList = before ++ fragment.toList ++ after →
        ¬ Text.Bends before.reverse fragment.toList after → LetsRun column fragment ctx := by
  refine ⟨⟨?_, fun hloose ctx => .of_not_loose hloose⟩, fun ctx before after => .of_not_bends⟩
  intro hall hloose
  obtain ⟨text, hcontains, hmissed⟩ := Text.exists_not_contains_lower hloose
  have htext := RowContext.textOf_singleton 0 column text
  have hmet := (hall _ (htext.symm ▸ hcontains)).met
  rw [Guard.holds, htext, hmissed] at hmet
  cases hmet

/-- A row with an address, whose cell to judge is empty. -/
def RowContext.ofAddress (text : String) : RowContext :=
  ⟨0, [("Address", .text text), ("X", .text "")], some "X", none⟩

/-- Of two sigmas the first is final in the fragment and in the text, and no edge reaches them. A
street alone ends in a sigma that the next letter would reach; the comma behind it keeps it final. -/
theorem Guard.letsRun_of_contains_iff_street :
    ¬ Text.Loose "ΟΔΟΣ ΣΑ".toList ∧
      LetsRun "Address" "ΟΔΟΣ ΣΑ" (.ofAddress "Η ΟΔΟΣ ΣΑΣ") ∧
      Text.Loose "ΟΔΟΣ".toList ∧
      LetsRun "Address" "ΟΔΟΣ" (.ofAddress "Η ΟΔΟΣ, Α") := by
  have hloose : ¬ Text.Loose "ΟΔΟΣ ΣΑ".toList := by decide +kernel
  have hbends : ¬ Text.Bends "Η ".toList.reverse "ΟΔΟΣ".toList ", Α".toList := by decide +kernel
  exact ⟨hloose, (letsRun_of_contains_iff _ _).1.mpr hloose _ (by decide +kernel),
    by decide +kernel, (letsRun_of_contains_iff _ _).2 _ _ _ (by decide +kernel) hbends⟩

/-- The text contains the fragment, whose sigma is final, and goes on with a letter behind it: the
condition is not met, and the rule is skipped although the cell it judges is empty. -/
theorem Guard.final_sigma_not_found :
    Text.contains ((RowContext.ofAddress "ΑΣΑ").textOf "Address") "ΑΣ" = true ∧
      Guard.holds "Address" "ΑΣ" (.ofAddress "ΑΣΑ") = .ok false ∧
      ∃ r, (Draft.ofSteps "r" [.forColumn "X", .columnContains "Address" "ΑΣ", .required]).build
          = .ok r ∧
        (r.evaluate (.ofAddress "ΑΣΑ") .empty).answer = .ok (.skip "r") := by
  have hmissed : Guard.holds "Address" "ΑΣ" (.ofAddress "ΑΣΑ") = .ok false :=
    congrArg Except.ok (by decide +kernel)
  exact ⟨by decide +kernel, hmissed, _, rfl, Rule.answer_evaluate_skip (congrArg some hmissed)⟩

end CellRules
