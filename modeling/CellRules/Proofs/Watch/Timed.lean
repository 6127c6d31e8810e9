/-
CellRules.Proofs.Watch.Timed — runs in which it matters when things happen.

A history tells what was seen and in which order. Where clock and counters matter too, a run is told
by its sightings: each happening with the time at which it was seen. Which moves are possible at
which state may be restricted further (`allowed`): a grid that keeps its number of rows, or tasks
that do not dawdle.

* `TimedRun u allowed s k s'` — allowed moves lead from `s` to `s'`, and `k` was sighted on the way.
* `TimedRun.run` — it is a run, with the happenings of `k` as its history.
-/
import CellRules.Proofs.Watch.History

namespace CellRules.Watch

/-- Something that an onlooker sees at a time. -/
structure Sighting where
  time : Nat
  happening : Happening
  /-- How many waiting evaluations were counted as replaced at the move. -/
  coalesced : Nat
  deriving DecidableEq, Repr

/-- What is sighted at a move. -/
def sighted (s : State) (m : Move) (s' : State) : List Sighting :=
  (seen s m s').toList.map fun x => ⟨s.now, x, s'.stats.coalesced - s.stats.coalesced⟩

/-- What was seen, without the times. -/
def happenings (k : List Sighting) : List Happening := k.map (·.happening)

/-- Allowed moves lead from one state to another, and this was sighted on the way. -/
inductive TimedRun (u : Setup) (allowed : State → Move → Bool) (s : State) :
    List Sighting → State → Prop
  | rest : TimedRun u allowed s [] s
  | move {k : List Sighting} {s' s'' : State} (m : Move) :
      TimedRun u allowed s k s' → allowed s' m = true → s'.move? u m = some s'' →
        TimedRun u allowed s (k ++ sighted s' m s'') s''

variable {u : Setup} {allowed : State → Move → Bool} {s s' s'' : State} {k k' : List Sighting}
  {m : Move}

theorem happenings_append (k k' : List Sighting) :
    happenings (k ++ k') = happenings k ++ happenings k' :=
  List.map_append

theorem happenings_sighted (s : State) (m : Move) (s' : State) :
    happenings (sighted s m s') = (seen s m s').toList := by
  unfold happenings sighted
  cases seen s m s' <;> rfl

/-- Times and kinds of moves apart, it is a run. -/
theorem TimedRun.run (run : TimedRun u allowed s k s') : Run u s (happenings k) s' := by
  induction run with
  | rest => exact .rest
  | move m _ _ hm ih =>
    rw [happenings_append, happenings_sighted]
    exact ih.move m hm

theorem TimedRun.trans (first : TimedRun u allowed s k s') (second : TimedRun u allowed s' k' s'') :
    TimedRun u allowed s (k ++ k') s'' := by
  induction second with
  | rest => simpa using first
  | move m _ hallowed hm ih =>
    rw [← List.append_assoc]
    exact ih.move m hallowed hm

/-- The run that some moves make, with what is sighted of it, if each is possible and allowed. -/
def State.timed? (u : Setup) (allowed : State → Move → Bool) (s : State) :
    List Move → Option (List Sighting × State)
  | [] => some ([], s)
  | m :: moves =>
    if allowed s m then
      (s.move? u m).bind fun mid =>
        (mid.timed? u allowed moves).map fun (k, last) => (sighted s m mid ++ k, last)
    else none

theorem TimedRun.of_timed? {moves : List Move}
    (ho : s.timed? u allowed moves = some (k, s')) : TimedRun u allowed s k s' := by
  induction moves generalizing s k with
  | nil =>
    simp only [State.timed?, Option.some.injEq, Prod.mk.injEq] at ho
    obtain ⟨rfl, rfl⟩ := ho
    exact .rest
  | cons m moves ih =>
    rw [State.timed?] at ho
    split at ho
    · rename_i hallowed
      simp only [Option.bind_eq_some_iff, Option.map_eq_some_iff] at ho
      obtain ⟨mid, hm, ⟨k₂, s₂⟩, hrest, heq⟩ := ho
      obtain ⟨rfl, rfl⟩ := Prod.mk.inj heq
      have hfirst : TimedRun u allowed s (sighted s m mid) mid := by
        simpa using TimedRun.move m .rest hallowed hm
      exact hfirst.trans (ih hrest)
    · cases ho

end CellRules.Watch
