/-
CellRules.Proofs.RuleSet.Hasty — what is said of a cell though judging it was told to stop.

A rule looks whether it is told to stop before each of its checks, and not before it runs its guard.
Told to stop before it begins, it gives up unless the guard settles its outcome or there is nothing
to check (`Rule.Hasty`, `cutShort_evaluate`). So there is a report on a cell only if all rules that
it speaks of are of that kind (`hasty_of_cutShort`).
-/
import CellRules.Proofs.Run.Heading
import CellRules.RuleSet.Evaluation

namespace CellRules

/-- The rule has its outcome before it looks whether it is told to stop. -/
def Rule.Hasty (r : Rule) (ctx : RowContext) : Prop :=
  (∃ guard, r.guard = some guard ∧ guard ctx ≠ .ok true) ∨ r.validators = []

variable {r : Rule} {rules : List Rule} {ctx : RowContext} {rows : Dataset} {s : RuleSet}
  {source : Source} {row : Nat} {column : String} {report : CellReport}

/-- The first check is not run. -/
theorem Rule.cutShort_runValidators (vs : List Validator) :
    (r.runValidators ctx rows vs).cutShort =
      if vs.isEmpty then .ok ⟨r.name, .passed, .success⟩ else .error .cancelled := by
  cases vs <;> rfl

/-- A rule that is told to stop gives up, unless it is hasty. -/
theorem Rule.cutShort_evaluate :
    (r.evaluate ctx rows).cutShort = .error .cancelled ↔ ¬r.Hasty ctx := by
  have hchecks : (r.runValidators ctx rows r.validators).cutShort = .error .cancelled ↔
      r.validators ≠ [] := by
    rw [cutShort_runValidators]
    split <;> simp_all
  unfold Rule.evaluate Rule.Hasty
  split
  · rename_i hguard
    simp [hchecks, hguard]
  · rename_i guard hguard
    split
    · rename_i htrue
      simp [hchecks, hguard, htrue]
    · rename_i hfalse
      simp [hguard, hfalse, Work.cutShort, pure]
    · rename_i hbroken
      simp [hguard, hbroken, Rule.fault, Work.cutShort, pure]

namespace RuleSet

theorem cutShort_seq {α β : Type} (w : Work α) (f : α → Work β) :
    (w >>= f).cutShort = w.cutShort.bind fun a => (f a).cutShort :=
  w.cutShort_bind f

/-- The rules that have an outcome are hasty, and there is one of the first rule. -/
theorem hasty_of_runRules {outcomes : List Outcome} {halted : Bool}
    (h : (s.runRules ctx rows rules).cutShort = .ok (outcomes, halted)) :
    (outcomes = [] → rules = []) ∧ ∀ r ∈ rules.take outcomes.length, r.Hasty ctx := by
  induction rules generalizing outcomes halted with
  | nil => simp
  | cons r rest ih =>
    rw [runRules, cutShort_seq] at h
    cases houtcome : (r.evaluate ctx rows).cutShort with
    | error p =>
      rw [houtcome] at h
      cases h
    | ok outcome =>
      have hhasty : r.Hasty ctx := Classical.byContradiction fun hnot => by
        rw [Rule.cutShort_evaluate.mpr hnot] at houtcome
        cases houtcome
      rw [houtcome] at h
      change (ite _ _ _ : Work _).cutShort = _ at h
      split at h
      · -- the mode leaves out the other rules
        have hone : outcomes = [outcome] := by
          split at h
          · exact (Prod.mk.inj (Except.ok.inj h)).1.symm
          · exact (Prod.mk.inj (Except.ok.inj h)).1.symm
        subst hone
        simpa using hhasty
      · rw [cutShort_seq] at h
        cases hrest : (s.runRules ctx rows rest).cutShort with
        | error p =>
          rw [hrest] at h
          cases h
        | ok more =>
          obtain ⟨outcomes', halted'⟩ := more
          rw [hrest] at h
          obtain ⟨rfl, -⟩ := Prod.mk.inj (Except.ok.inj h)
          refine ⟨nofun, fun r' hr' => ?_⟩
          rw [List.length_cons, List.take_succ_cons] at hr'
          rcases List.mem_cons.mp hr' with rfl | hr'
          · exact hhasty
          · exact (ih hrest).2 r' hr'

/-- Whoever is told to stop before judging a cell still reports on it only if there are no rules for
its column, or if those are hasty that the report speaks of. -/
theorem hasty_of_cutShort
    (h : (s.evaluateCellAmong source row column).cutShort = .ok (report, rows)) :
    s.rulesFor column = [] ∨ ∃ ctx,
      readCell (s.rulesFor column) source row column = .ok (ctx, rows) ∧ report.outcomes ≠ [] ∧
        ∀ r ∈ (s.rulesFor column).take report.outcomes.length, r.Hasty ctx := by
  unfold evaluateCellAmong at h
  dsimp only at h
  split at h
  · rename_i hnone
    exact .inl (List.isEmpty_iff.mp hnone)
  · rename_i hsome
    right
    rw [cutShort_seq] at h
    cases hread : readCell (s.rulesFor column) source row column with
    | error p =>
      rw [hread] at h
      cases h
    | ok read =>
      obtain ⟨ctx, rows'⟩ := read
      rw [hread] at h
      change (s.judge (s.rulesFor column) ctx rows' >>= fun report =>
        pure (report, rows')).cutShort = _ at h
      rw [judge, cutShort_seq, cutShort_seq] at h
      cases hrun : (s.runRules ctx rows' (s.rulesFor column)).cutShort with
      | error p =>
        rw [hrun] at h
        cases h
      | ok result =>
        obtain ⟨outcomes, halted⟩ := result
        rw [hrun] at h
        obtain ⟨rfl, rfl⟩ := Prod.mk.inj (Except.ok.inj h)
        obtain ⟨hfirst, hhasty⟩ := hasty_of_runRules hrun
        exact ⟨ctx, rfl, fun hnone => hsome (List.isEmpty_iff.mpr (hfirst hnone)), hhasty⟩

end RuleSet

end CellRules
