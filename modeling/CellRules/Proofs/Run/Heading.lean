/-
CellRules.Proofs.Run.Heading — for which answer work heads, told to stop or not.

Work that nobody stops heads for its answer, however long it takes. Work that is told to stop goes
on to its next checkpoint or wait and gives up there; it still comes to an answer if it meets
neither (`Work.cutShort`). Either way a step of it changes nothing about where it heads
(`heads_goesOn`), and it ends there (`heads_ends`). Each step leaves fewer to take
(`steps_goesOn`).
-/
import CellRules.Run.Running

namespace CellRules

variable {α β : Type}

namespace Work

/-- The answer of work that is told to stop before it goes on. -/
def cutShort : Work α → Except Problem α
  | done answer => answer
  | log _ rest => rest.cutShort
  | wait _ _ | checkpoint _ => .error .cancelled

/-- The answer that work heads for. -/
def heads (stopped : Bool) (w : Work α) : Except Problem α :=
  if stopped then w.cutShort else w.answer

theorem cutShort_bind (w : Work α) (f : α → Work β) :
    (w.bind f).cutShort = w.cutShort.bind fun a => (f a).cutShort := by
  induction w with
  | done a => cases a <;> rfl
  | log _ _ ih => exact ih
  | wait _ _ | checkpoint _ => rfl

end Work

/-- The steps that work takes to its end. A wait takes two: to fall asleep and to wake. -/
def Work.steps : Work α → Nat
  | done _ => 1
  | log _ rest | checkpoint rest => rest.steps + 1
  | wait _ rest => rest.steps + 2

theorem Work.steps_pos (w : Work α) : 0 < w.steps := by
  cases w <;> simp [steps]

namespace Running

/-- The answer that work under way heads for. -/
def heads (stopped : Bool) : Running α → Except Problem α
  | working work => work.heads stopped
  | asleep _ rest => if stopped then .error .cancelled else rest.answer

theorem heads_false (r : Running α) : r.heads false = r.rest.answer := by
  cases r <;> rfl

/-- The steps that are left to take. -/
def steps : Running α → Nat
  | working work => work.steps
  | asleep _ rest => rest.steps + 1

variable {now : Nat} {stopped : Bool} {r next : Running α}

/-- Work that goes on heads for the same answer. -/
theorem heads_goesOn {events : List Event} (h : r.step? now stopped = some (.goesOn events next)) :
    next.heads stopped = r.heads stopped := by
  cases r with
  | working work =>
    cases work with
    | done _ => simp [step?] at h
    | log _ rest =>
      obtain ⟨-, rfl⟩ : _ ∧ _ := by simpa [step?] using h
      cases stopped <;> rfl
    | wait _ rest | checkpoint rest =>
      cases stopped with
      | true => simp [step?] at h
      | false =>
        obtain ⟨-, rfl⟩ : _ ∧ _ := by simpa [step?] using h
        rfl
  | asleep due rest =>
    cases stopped with
    | true => simp [step?] at h
    | false =>
      obtain ⟨-, -, rfl⟩ : _ ∧ _ ∧ _ := by simpa [step?] using h
      rfl

/-- Work ends with the answer that it heads for. -/
theorem heads_ends {answer : Except Problem α} (h : r.step? now stopped = some (.ends answer)) :
    answer = r.heads stopped := by
  cases r with
  | working work =>
    cases work with
    | done _ =>
      obtain rfl : _ = answer := by simpa [step?] using h
      cases stopped <;> rfl
    | log _ _ => simp [step?] at h
    | wait _ _ | checkpoint _ =>
      cases stopped with
      | true =>
        obtain rfl : _ = answer := by simpa [step?] using h
        rfl
      | false => simp [step?] at h
  | asleep due rest =>
    cases stopped with
    | true =>
      obtain rfl : _ = answer := by simpa [step?] using h
      rfl
    | false => simp [step?] at h

/-- Work that goes on has the same answer ahead, told to stop or not. -/
theorem answer_of_goesOn {events : List Event}
    (h : r.step? now stopped = some (.goesOn events next)) : next.rest.answer = r.rest.answer := by
  cases r with
  | working work =>
    cases work with
    | done _ => simp [step?] at h
    | log _ _ =>
      obtain ⟨-, rfl⟩ : _ ∧ _ := by simpa [step?] using h
      rfl
    | wait _ _ | checkpoint _ =>
      simp only [step?] at h
      cases stopped <;> simp at h
      rw [← h.2]
      rfl
  | asleep due rest =>
    simp only [step?] at h
    cases stopped <;> simp at h
    rw [← h.2.2]
    rfl

/-- A step leaves fewer to take. -/
theorem steps_goesOn {events : List Event} (h : r.step? now stopped = some (.goesOn events next)) :
    next.steps < r.steps := by
  cases r with
  | working work =>
    cases work with
    | done _ => simp [step?] at h
    | log _ rest =>
      obtain ⟨-, rfl⟩ : _ ∧ _ := by simpa [step?] using h
      exact Nat.lt_succ_self rest.steps
    | wait _ rest =>
      cases stopped with
      | true => simp [step?] at h
      | false =>
        obtain ⟨-, rfl⟩ : _ ∧ _ := by simpa [step?] using h
        exact Nat.lt_succ_self (rest.steps + 1)
    | checkpoint rest =>
      cases stopped with
      | true => simp [step?] at h
      | false =>
        obtain ⟨-, rfl⟩ : _ ∧ _ := by simpa [step?] using h
        exact Nat.lt_succ_self rest.steps
  | asleep due rest =>
    cases stopped with
    | true => simp [step?] at h
    | false =>
      obtain ⟨-, -, rfl⟩ : _ ∧ _ ∧ _ := by simpa [step?] using h
      exact Nat.lt_succ_self rest.steps

/-- Whoever is not told to stop goes on or ends, at the latest when the time to which it sleeps has
come. -/
theorem exists_step? (r : Running α) : ∃ now step, r.step? now false = some step := by
  cases r with
  | working work => cases work <;> exact ⟨0, _, rfl⟩
  | asleep due rest => exact ⟨due, .goesOn [] (working rest), by simp [step?]⟩

/-- Work ends with its answer, or says that it was told to stop. -/
theorem answer_or_cancelled {answer : Except Problem α}
    (h : r.step? now stopped = some (.ends answer)) :
    answer = r.rest.answer ∨ answer = .error .cancelled := by
  cases stopped with
  | false => exact .inl ((heads_ends h).trans r.heads_false)
  | true =>
    cases r with
    | working work =>
      cases work with
      | done _ => exact .inl (RunningStep.ends.inj (Option.some.inj h)).symm
      | log _ _ => cases h
      | wait _ _ | checkpoint _ => exact .inr (RunningStep.ends.inj (Option.some.inj h)).symm
    | asleep _ _ => exact .inr (RunningStep.ends.inj (Option.some.inj h)).symm

/-- Work ends with its answer, or because it was told to stop. -/
theorem answer_of_ends {answer : Except Problem α} (h : r.step? now stopped = some (.ends answer)) :
    answer = r.rest.answer ∨ stopped = true := by
  cases stopped with
  | false => exact .inl ((heads_ends h).trans r.heads_false)
  | true => exact .inr rfl

end Running

end CellRules
