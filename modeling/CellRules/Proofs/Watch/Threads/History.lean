/-
CellRules.Proofs.Watch.Threads.History — runs of a watch whose tasks run beside each other.

A run is ANY sequence of possible turns, so a statement about all runs is one about every way in
which the pieces of steps, of calls and of closings may come between each other. An onlooker sees the
same happenings as in a watch that takes whole steps: an evaluation is asked for when it enters the
ledger, and a verdict is reported when the sink gets it.

* `Threads.Run u t h t'` — some turns lead from `t` to `t'`, and `h` was seen on the way.
* `Threads.Moment u t h mid x h' t'` — a run from `t` to `t'` during which `x` was seen at a turn
  from `mid`.
-/
import CellRules.Proofs.Watch.History
import CellRules.Watch.Threads

namespace CellRules.Watch

/-- What is seen when a task takes the next piece of its step. -/
def Position.seen (task : Task) (after : Threads) : Position → Option Happening
  | .drawn key fanOut generation => some (.asked task key generation fanOut)
  | .admitted _ next => match after.position? task with
    | some _ => none
    | none => some (.dropped task next.key)
  | .claimed report next => some (.reported task next.key report.verdict)
  | .looks => match task with
    | .call id => some (.surveyed id)
    | .evaluation _ | .strand _ _ => none
  | .asks _ _ | .entered _ _ _ _ | .handed _ _ _ | .recorded _ => none

/-- What is seen when a task takes the first piece of a step. -/
def Position.opening (task : Task) : Position → Option Happening
  | .handed key report _ => some (.reported task key report.verdict)
  | _ => none

/-- A task takes some pieces of its steps. -/
def Task.turns (n : Nat) (task : Task) : List Turn := List.replicate n (.move (.step task))

namespace Threads

/-- What is seen when a task takes a piece of its step, or a whole step. -/
def seenStep (t : Threads) (task : Task) (t' : Threads) : Option Happening :=
  match t.position? task with
  | some p => p.seen task t'
  | none => match t'.position? task with
    | some p => p.opening task
    | none => CellRules.Watch.seen t.state (.step task) t'.state

/-- What is seen at a turn, by the states before and after it. -/
def seen (t : Threads) (turn : Turn) (t' : Threads) : Option Happening :=
  match turn with
  | .move (.step task) => t.seenStep task t'
  | .move m => CellRules.Watch.seen t.state m t'.state
  | .ring generation => (t.state.evaluation? generation).bind fun e =>
    match t'.state.stageOf? generation with
    | some (.entering fanOut) => some (.began e.key generation fanOut)
    | _ => none
  | .close _ => none

/-- Turns lead from one state to another, and this was seen on the way. -/
inductive Run (u : Setup) (t : Threads) : List Happening → Threads → Prop
  | rest : Run u t [] t
  | turn {h : List Happening} {t' t'' : Threads} (turn : Turn) :
      Run u t h t' → t'.turn? u turn = some t'' → Run u t (h ++ (t'.seen turn t'').toList) t''

variable {u : Setup} {t t' t'' mid : Threads} {h h' : List Happening} {x : Happening}
  {y : Option Happening}

/-- A turn leads from one state to the other, and shows this. -/
def Step (u : Setup) (t : Threads) (x : Option Happening) (t' : Threads) : Prop :=
  ∃ turn, t.turn? u turn = some t' ∧ t.seen turn t' = x

theorem Run.step (run : Run u t h t') (hstep : Step u t' y t'') : Run u t (h ++ y.toList) t'' := by
  obtain ⟨turn, hturn, rfl⟩ := hstep
  exact run.turn turn hturn

theorem Run.trans (first : Run u t h t') (second : Run u t' h' t'') : Run u t (h ++ h') t'' := by
  induction second with
  | rest => simpa using first
  | turn turn _ hturn ih => rw [← List.append_assoc]; exact .turn turn ih hturn

theorem Step.run (hstep : Step u t y t') : Run u t y.toList t' := by
  simpa using Run.rest.step hstep

/-- The run that some turns make, with what is seen of it, if each is possible. -/
def record? (u : Setup) (t : Threads) : List Turn → Option (List Happening × Threads)
  | [] => some ([], t)
  | turn :: turns =>
    (t.turn? u turn).bind fun t' =>
      (t'.record? u turns).map fun (h, t'') => ((t.seen turn t').toList ++ h, t'')

theorem Run.of_record? {turns : List Turn} (hr : t.record? u turns = some (h, t')) :
    Run u t h t' := by
  induction turns generalizing t h with
  | nil =>
    simp only [record?, Option.some.injEq, Prod.mk.injEq] at hr
    obtain ⟨rfl, rfl⟩ := hr
    exact .rest
  | cons turn turns ih =>
    simp only [record?, Option.bind_eq_some_iff, Option.map_eq_some_iff] at hr
    obtain ⟨mid, hturn, ⟨h₂, t₂⟩, hrest, heq⟩ := hr
    obtain ⟨rfl, rfl⟩ := Prod.mk.inj heq
    exact (Step.run ⟨turn, hturn, rfl⟩).trans (ih hrest)

/-- At a turn from `mid`, in a run from `t` to `t'`, the happening `x` was seen, after `h` and before
`h'`. -/
structure Moment (u : Setup) (t : Threads) (h : List Happening) (mid : Threads) (x : Happening)
    (h' : List Happening) (t' : Threads) : Prop where
  before : Run u t h mid
  after : ∃ next, Step u mid (some x) next ∧ Run u next h' t'

/-- A moment of a run is one of every longer run. -/
theorem Moment.extend (hm : Moment u t h mid x h' t') (hstep : Step u t' y t'') :
    Moment u t h mid x (h' ++ y.toList) t'' := by
  obtain ⟨next, hnext, hafter⟩ := hm.after
  exact ⟨hm.before, next, hnext, hafter.step hstep⟩

/-- What a turn shows is the last moment of the run so far. -/
theorem Moment.last (hrun : Run u t h mid) (hstep : Step u mid (some x) t') :
    Moment u t h mid x [] t' :=
  ⟨hrun, t', hstep, .rest⟩

theorem Moment.later {h'' : List Happening} (hm : Moment u t h mid x h' t')
    (run : Run u t' h'' t'') : Moment u t h mid x (h' ++ h'') t'' := by
  obtain ⟨next, hnext, hafter⟩ := hm.after
  exact ⟨hm.before, next, hnext, hafter.trans run⟩

/-- Every happening of a run was seen at some turn of it. -/
theorem Run.moment {h₁ h₂ : List Happening} (run : Run u t h t') (hx : h = h₁ ++ x :: h₂) :
    ∃ mid, Moment u t h₁ mid x h₂ t' := by
  induction run generalizing h₂ with
  | rest => simp at hx
  | @turn h t₁ t₂ turn hrun hturn ih =>
    have hstep : Step u t₁ (t₁.seen turn t₂) t₂ := ⟨turn, hturn, rfl⟩
    generalize hseen : t₁.seen turn t₂ = y at hx hstep
    cases y with
    | none =>
      obtain ⟨mid, hmoment⟩ := ih (show h = h₁ ++ x :: h₂ by simpa using hx)
      exact ⟨mid, by simpa using hmoment.extend hstep⟩
    | some y =>
      rw [Option.toList_some] at hx
      rcases List.eq_nil_or_concat h₂ with rfl | ⟨h₃, z, rfl⟩
      · obtain ⟨rfl, hy⟩ := List.append_inj' hx rfl
        obtain rfl : y = x := by simpa using hy
        exact ⟨t₁, .last hrun hstep⟩
      · rw [List.concat_eq_append, ← List.cons_append, ← List.append_assoc] at hx
        obtain ⟨rfl, hy⟩ := List.append_inj' hx rfl
        obtain rfl : y = z := by simpa using hy
        obtain ⟨mid, hmoment⟩ := ih rfl
        exact ⟨mid, by simpa using hmoment.extend hstep⟩

end Threads

end CellRules.Watch
