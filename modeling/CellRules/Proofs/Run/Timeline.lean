/-
CellRules.Proofs.Run.Timeline — what a timeline keeps.

A timeline changes the state of its machine in two ways only: a task takes a step, or time moves.
Whom it wakes, whose turn it is and which alarms are set is beside the state. What steps and time
keep (`Machine.Keeps`) a timeline therefore keeps, for however long it runs (`Keeps.runUntil`). One
lemma for each of the loops of a timeline leads there.

So what a pool comes to that runs by itself is among what its strands may come to
(`Pool.mayEnd_of_runAlone`).
-/
import CellRules.Proofs.Run.Ending
import CellRules.Run.Alone

namespace CellRules

variable {σ ω : Type} {m : Machine σ ω} {kept : σ → Prop}

/-- Steps of tasks keep it, and time does. -/
structure Machine.Keeps (m : Machine σ ω) (kept : σ → Prop) : Prop where
  step : ∀ {s s' : σ} {task : ω}, kept s → m.step? s task = some s' → kept s'
  time : ∀ {s : σ} (now : Nat), kept s → kept (m.setNow s now)

variable [DecidableEq ω]

namespace Timeline

/-! ## Waking changes no state -/

variable {t : Timeline σ ω}

theorem state_wake (m : Machine σ ω) (running : Option ω) (t : Timeline σ ω) (task : ω) :
    (wake m running t task).state = t.state := by
  unfold wake
  dsimp only
  split <;> rfl

theorem state_foldl_wake (m : Machine σ ω) (running : Option ω) (tasks : List ω)
    (t : Timeline σ ω) : (tasks.foldl (wake m running) t).state = t.state := by
  induction tasks generalizing t with
  | nil => rfl
  | cons task tasks ih => rw [List.foldl_cons, ih, state_wake]

theorem state_notice (m : Machine σ ω) (t : Timeline σ ω) : (notice m t).state = t.state :=
  state_foldl_wake _ _ _ _

theorem state_setAlarm (m : Machine σ ω) (task : ω) (t : Timeline σ ω) :
    (setAlarm m task t).state = t.state := by
  unfold setAlarm
  split
  · split <;> rfl
  · rfl

end Timeline

/-! ## Running keeps what steps and time keep -/

namespace Machine.Keeps

open Timeline

theorem goOn (hm : m.Keeps kept) (task : ω) (fuel : Nat) (t : Timeline σ ω) (ht : kept t.state) :
    kept (goOn m task fuel t).state := by
  induction fuel generalizing t with
  | zero => exact ht
  | succ fuel ih =>
    rw [Timeline.goOn]
    split
    · rename_i s hstep
      refine ih _ ?_
      rw [noticeAfter, state_foldl_wake]
      exact hm.step ht hstep
    · exact ht

theorem runParts (hm : m.Keeps kept) (whole : ω) (fuel : Nat) (t : Timeline σ ω)
    (ht : kept t.state) : kept (runParts m whole fuel t).state := by
  induction fuel generalizing t with
  | zero => exact ht
  | succ fuel ih =>
    rw [Timeline.runParts]
    split
    · refine ih _ ?_
      rw [state_setAlarm]
      exact hm.goOn _ _ _ ht
    · exact ht

theorem turn (hm : m.Keeps kept) (whole : ω) (t : Timeline σ ω) (ht : kept t.state) :
    kept (turn m whole t).state :=
  hm.runParts whole patience _ ht

theorem turnsOf (hm : m.Keeps kept) (kind : ω → Bool) (fuel : Nat) (t : Timeline σ ω)
    (ht : kept t.state) : kept (turnsOf m kind fuel t).state := by
  induction fuel generalizing t with
  | zero => exact ht
  | succ fuel ih =>
    rw [Timeline.turnsOf]
    split
    · exact ih _ (hm.turn _ t ht)
    · exact ht

theorem runRound (hm : m.Keeps kept) (awaited : Option ω) (t : Timeline σ ω) (ht : kept t.state) :
    kept (runRound m awaited t).state :=
  hm.turnsOf _ _ _ (hm.turnsOf _ _ t ht)

theorem turnOfAwaited (hm : m.Keeps kept) (awaited : Option ω) (t : Timeline σ ω)
    (ht : kept t.state) : kept (turnOfAwaited m awaited t).state := by
  unfold Timeline.turnOfAwaited
  split
  · split
    · exact hm.turn _ t ht
    · exact ht
  · exact ht

theorem moveTo (hm : m.Keeps kept) (time : Nat) (t : Timeline σ ω) (ht : kept t.state) :
    kept (moveTo m time t).state := by
  rw [Timeline.moveTo, state_foldl_wake]
  exact hm.time time ht

/-- Whoever is waited for, and for however long, what steps and time keep is kept. -/
theorem runUntil (hm : m.Keeps kept) (awaited : Option ω) (wanted : σ → Bool) (fuel : Nat)
    (t : Timeline σ ω) (ht : kept t.state) : kept (runUntil m awaited wanted fuel t).state := by
  induction fuel generalizing t with
  | zero => exact ht
  | succ fuel ih =>
    have hturn := hm.turnOfAwaited awaited t ht
    have hround := hm.runRound awaited _ hturn
    rw [Timeline.runUntil]
    dsimp only
    split
    · exact hturn
    · split
      · exact ih _ hround
      · split
        · exact ih _ (hm.moveTo _ _ hround)
        · exact hround

end Machine.Keeps

/-! ## Pools by themselves -/

/-- By itself a pool takes the steps of its strands, and no others. -/
theorem LonePool.keeps_reached {α : Type} (p : Pool α) :
    (LonePool.machine α).Keeps fun s => Relation.ReflTransGen Pool.Next p s.pool where
  step {s s' task} hs h := by
    simp only [LonePool.machine, Option.bind_eq_bind, Option.bind_eq_some_iff] at h
    obtain ⟨id, -, ⟨pool, l, events⟩, hstep, h⟩ := h
    obtain rfl := Option.some.inj h
    exact hs.tail ⟨_, id, _, l, events, rfl, hstep⟩
  time _ hs := hs

/-- What a pool comes to by itself it may come to. -/
theorem Pool.mayEnd_of_runAlone {α : Type} {p : Pool α} {answers : List α}
    (h : p.runAlone.2 = .ok answers) : p.MayEnd (.ok answers) := by
  let begun := Timeline.notice (LonePool.machine α) { state := { pool := p } }
  have hbegun : Relation.ReflTransGen Pool.Next p begun.state.pool := by
    rw [Timeline.state_notice]
  refine ⟨_, (LonePool.keeps_reached p).runUntil (some none) (·.pool.result?.isSome)
    Timeline.patience begun hbegun, ?_⟩
  rw [Pool.runAlone] at h
  exact (Option.getD_eq_iff.mp h).resolve_right fun hnone => by cases hnone.2

end CellRules
