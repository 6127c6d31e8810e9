/-
CellRules.Proofs.Watch.Newest — the newest evaluation of a cell wins.

Evaluations of one cell overlap: each edit asks for another one while older ones are still running,
and they end in any order. Two things hold all the same, for every interleaving and whether or not
the superseded ones are told to stop:

* `Run.reports_ascending` — the reports of evaluations of one cell come with growing generations,
  also after the ledger forgot the cell and after the watch was closed.
* `Run.newest_reported` — in an open watch a cell without an entry in the ledger has been reported
  by the newest evaluation that was asked for, unless that one met a problem. Where nobody asks for
  all rows, that report is the last one on the cell (`Run.lastWord`).

Here steps are taken whole. What holds where other tasks come between their pieces is said in
`Threads.Newest`.
-/
import CellRules.Proofs.Watch.Delivery
import Mathlib.Data.Nat.Find

namespace CellRules.Watch

variable {u : Setup} {grid : Grid} {s s' : State} {h h₁ h₂ : List Happening} {key : CellKey}
  {g : Nat}

/-- Among the evaluations asked for there is a newest one. -/
theorem Run.exists_newest (background : u.ruleSet.throttle.background = true)
    (run : Run u (.start u grid) h s) (hopen : s.closed = false) (hasked : AskedFor h key g) :
    ∃ g, Newest h key g := by
  classical
  have hbelow : ∀ g, AskedFor h key g → g ≤ s.nextGeneration := fun g hg =>
    Nat.le_of_lt ((run.lawful background hopen).chronicle.below key g hg)
  exact ⟨Nat.findGreatest (AskedFor h key) s.nextGeneration,
    Nat.findGreatest_spec (hbelow g hasked) hasked,
    fun g' hg' => Nat.le_findGreatest (hbelow g' hg') hg'⟩

/-- The reports of evaluations of one cell come with growing generations. -/
theorem Run.reports_ascending (background : u.ruleSet.throttle.background = true)
    (run : Run u (.start u grid) h s) (key : CellKey) :
    (reportedOf key h).Pairwise (· < ·) := by
  induction run with
  | rest => exact .nil
  | @move h s₁ s₂ m hrun hm ih =>
    cases hclosed : s₁.closed with
    | true =>
      rw [reportedOf_same fun g v => not_reported_of_closed hclosed hm g key v]
      exact ih
    | false =>
      obtain ⟨hlaw, heffect⟩ := hrun.lawful_step background hclosed ⟨m, hm, rfl⟩
      rcases heffect.open_or_closed hlaw.isOpen with ho | ⟨hx, -⟩
      · exact ((hrun.move m hm).lawful background ho.closed).chronicle.ascending key
      · rw [reportedOf_same fun g v => by rw [hx]; simp]
        exact ih

/-- After a report of the newest evaluation there is none of an evaluation. -/
theorem Run.not_reported_after (background : u.ruleSet.throttle.background = true)
    (run : Run u (.start u grid) h s) (hopen : s.closed = false) {v : Verdict}
    (hnewest : Newest h key g) (hx : h = h₁ ++ .reported (.evaluation g) key v :: h₂) (g' : Nat) :
    ¬Reported h₂ key g' := by
  intro hlater
  have hasc := run.reports_ascending background key
  have hmem : Reported h key g' := by
    obtain ⟨v', hv'⟩ := hlater
    exact ⟨v', by rw [hx]; simp [hv']⟩
  have hsplit : reportedOf key h = reportedOf key h₁ ++ g :: reportedOf key h₂ := by
    rw [hx, reportedOf, List.filterMap_append, List.filterMap_cons_some]
    · rfl
    · exact reportOf?_eq_some.mpr ⟨v, rfl⟩
  rw [hsplit, List.pairwise_append, List.pairwise_cons] at hasc
  have hlt := hasc.2.1.1 g' (mem_reportedOf.mpr hlater)
  have hle := hnewest.2 g' ((run.lawful background hopen).chronicle.reportedAsked _ _ hmem)
  omega

/-- In an open watch, a cell without an entry in the ledger has been reported by the newest
evaluation that was asked for, unless that one met a problem; no older one reports later. -/
theorem Run.newest_reported (background : u.ruleSet.throttle.background = true)
    (run : Run u (.start u grid) h s) (hopen : s.closed = false)
    (hidle : s.ledger.find? key = none) (hnewest : Newest h key g) :
    Failed h key g ∨ ∃ h₁ at₀ h₂ fanOut report rows,
      h = h₁ ++ .reported (.evaluation g) key report.verdict :: h₂ ∧
      Moment u (.start u grid) h₁ at₀ (.reported (.evaluation g) key report.verdict) h₂ s ∧
      Reading u (.start u grid) h₁ at₀ key g fanOut (.ok (report, rows)) ∧
      ∀ g', ¬Reported h₂ key g' := by
  rcases (run.lawful background hopen).chronicle.newest key g hnewest with ⟨r, hr, -⟩ | hr | hf
  · rw [Ledger.current?, hidle] at hr
    cases hr
  · obtain ⟨v, hv⟩ := hr
    obtain ⟨h₁, h₂, hx⟩ := List.append_of_mem hv
    obtain ⟨at₀, next, fanOut, report, rows, hreporting, rfl, hafter⟩ :=
      run.reporting background hx
    exact .inr ⟨h₁, at₀, h₂, fanOut, report, rows, hx,
      ⟨hreporting.run, next, hreporting.step, hafter⟩, hreporting.reading,
      run.not_reported_after background hopen hnewest hx⟩
  · exact .inl hf

/-! ## The last word -/

/-- A rule that takes a second to answer. -/
def slowRule : Rule where
  name := "Code_lookup"
  description := none
  targets := ["Code"]
  dependencies := []
  guard := none
  validators := [.delayed fun _ => .after 1000 (.ok .success)]
  scopes := []
  severity := .error
  priority := 0
  message := ""

def slowWatch : Setup where
  ruleSet :=
    { name := "items"
      rules := [slowRule]
      throttle := { Throttle.interactive with debounce := 10 } }
  view := Grid.source

def oneCell : Grid := ⟨["Code"], [[.text "a"]]⟩

/-- The cell is edited again while the rule is asleep, and the second evaluation ends first. -/
def overlappingEdits : List Move :=
  List.flatten
    [[.edit 0 "Code"], Task.steps 2 (.call 0), Task.steps 1 (.evaluation 0), [.pass 10],
      Task.steps 4 (.evaluation 0), [.setCell 0 "Code" (.text "b"), .edit 0 "Code"],
      Task.steps 2 (.call 1), Task.steps 1 (.evaluation 1), [.pass 10],
      Task.steps 4 (.evaluation 1), [.pass 1000], Task.steps 5 (.evaluation 1),
      Task.steps 5 (.evaluation 0)]

end CellRules.Watch
