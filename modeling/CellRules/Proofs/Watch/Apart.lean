/-
CellRules.Proofs.Watch.Apart — what evaluations and calls leave to each other.

Whether the watch is open or closed: an evaluation leaves the calls alone, a call that goes on
leaves the other calls where they are, and neither closes anything (`Advances.apart`). So a closed
watch stays closed (`closed_move?`), and the calls of every run are in order (`Tidy`): numbered as
they came, and the strands of their pools too.
-/
import CellRules.Proofs.Watch.CallCourse

namespace CellRules.Watch

variable {u : Setup} {s s' t : State} {c : Call} {stage : CallStage} {x : Option Happening}
  {m : Move} {ms : List Move}

/-- Calls are as they were, and so is whether the watch is closed and slots are given out. -/
structure State.Apart (s t : State) : Prop where
  closed : s.closed = t.closed
  slots : s.limiter.closed = t.limiter.closed
  calls : s.calls = t.calls

theorem State.Apart.refl (s : State) : s.Apart s := ⟨rfl, rfl, rfl⟩

theorem State.Alike.apart (h : s.Alike t) : s.Apart t := ⟨h.closed, h.limiterClosed, h.calls⟩

/-! ## Evaluations -/

namespace Evaluation

variable {e : Evaluation}

theorem apart_schedule (key : CellKey) (fanOut : List String) :
    (s.schedule u key fanOut).Apart s := by
  by_cases hopen : s.closed = false
  · have halike := State.schedule_alike (u := u) hopen key fanOut
    exact ⟨halike.closed, halike.limiterClosed, halike.calls⟩
  · rw [State.schedule, if_pos (by simpa using hopen)]
    exact .refl s

/-- Evaluations leave calls alone, and close nothing. -/
theorem Advance.apart (h : e.Advance u s s') : s'.Apart s := by
  cases h with
  | arm | discard | begin | work | finish => exact ⟨rfl, rfl, rfl⟩
  | queue _ hjoin =>
    have hkeep := s.limiter.closed_join
    rw [hjoin] at hkeep
    exact ⟨rfl, hkeep, rfl⟩
  | start hgets => exact ⟨rfl, hgets.closed_eq, rfl⟩
  | @giveUp _ limiter hleaves =>
    have hleft := alike_giveUp u { s with limiter } e
    exact ⟨hleft.closed, hleft.limiterClosed.trans hleaves.closed_eq, hleft.calls⟩
  | stop => exact ⟨rfl, s.limiter.closed_release, rfl⟩
  | @report report rows fanOut ledger =>
    have hpeers := State.alike_notePeers u (({ s with ledger } : State).deliver u report) e.key
      fanOut rows
    exact ⟨hpeers.closed, hpeers.limiterClosed, hpeers.calls⟩
  | outdated =>
    have hnote := State.alike_note u (s.count fun c => { c with stale := c.stale + 1 })
      (.staleDiscarded e.key.row e.key.column e.generation)
    exact ⟨hnote.closed, hnote.limiterClosed, hnote.calls⟩
  | abandon =>
    have habandoned := s.alike_abandoned u e.key
    exact ⟨habandoned.closed, habandoned.limiterClosed, habandoned.calls⟩
  | @fail p =>
    have hfailed := s.alike_failed u e.key p
    exact ⟨hfailed.closed, hfailed.limiterClosed, hfailed.calls⟩
  | @ask key =>
    have hasked : (s.schedule u key []).Apart s := apart_schedule key []
    exact ⟨hasked.closed, hasked.slots, hasked.calls⟩

/-- An evaluation of a closed watch delivers nothing and asks for nothing; at most it finishes. -/
theorem Advance.still (hclosed : s.closed = true) (h : e.Advance u s s') :
    s'.deliveries = s.deliveries ∧
      (s'.ledger = s.ledger ∨ s'.ledger = s.ledger.finish e.key e.generation) := by
  have hstopped : e.stopped s = true := by simp [stopped, hclosed]
  cases h with
  | begin _ hwanted | report _ hwanted | outdated _ hwanted =>
    exact absurd (hstopped.symm.trans hwanted) (by decide)
  | arm | discard | queue | start | work | stop => exact ⟨rfl, .inl rfl⟩
  | @giveUp _ limiter =>
    have hleft := alike_giveUp u { s with limiter } e
    exact ⟨hleft.deliveries, .inr hleft.ledger⟩
  | abandon =>
    have habandoned := s.alike_abandoned u e.key
    exact ⟨habandoned.deliveries, .inl habandoned.ledger⟩
  | fail => exact ⟨rfl, .inl rfl⟩
  | ask =>
    rw [State.schedule, if_pos hclosed]
    exact ⟨rfl, .inl rfl⟩
  | finish => exact ⟨rfl, .inr rfl⟩

end Evaluation

/-! ## Calls -/

/-- There are rules for the cell. -/
def Job.Ruled (u : Setup) (job : Job) : Prop := u.ruleSet.rulesFor job.key.column ≠ []

/-- What holds of every stage: there are rules for the cells of an edit, a call judges one of them
only where nothing is done in the background, and pools are in order. -/
def CallStage.Proper (u : Setup) : CallStage → Prop
  | .editing _ todo none => ∀ job ∈ todo, job.Ruled u
  | .editing _ todo (some (job, _)) =>
    u.ruleSet.throttle.background = false ∧ ∀ next ∈ job :: todo, next.Ruled u
  | .judging pool => pool.Orderly u.ruleSet.throttle.limit
  | _ => True

/-- The call moves to another stage; the other calls stay where they are and nothing is closed. -/
def Call.Moves (u : Setup) (s : State) (c : Call) (s' : State) : Prop :=
  ∃ t stage, t.Apart s ∧ s'.Alike (Call.goTo t c stage) ∧
    (c.stage.Proper u → stage.Proper u)

theorem CallCourse.moves (h : CallCourse u s c x s') : c.Moves u s s' := by
  cases h with
  | @deliver _ cell _ _ _ hs => exact ⟨s.deliver u cell, _, ⟨rfl, rfl, rfl⟩, hs, fun _ => trivial⟩
  | found _ _ hs =>
    exact ⟨s, _, .refl s, hs, fun _ => Pool.orderly_start _ _ _⟩
  | strand hstage hpool hs =>
    refine ⟨s, _, .refl s, hs, fun hproper => ?_⟩
    rw [hstage] at hproper
    exact hproper.step? hpool
  | told _ hs | survey _ _ hs | look _ _ hs | judged _ _ hs | conclude _ hs | refuse _ hs =>
    exact ⟨s, _, .refl s, hs, fun _ => trivial⟩

theorem EditCourse.moves (h : EditCourse u s c s') : c.Moves u s s' := by
  cases h with
  | take hatOnce hstage hs =>
    refine ⟨s, _, .refl s, hs, fun hproper => ?_⟩
    rw [hstage] at hproper
    exact ⟨hatOnce, hproper⟩
  | work hstage _ hs =>
    refine ⟨s, _, .refl s, hs, fun hproper => ?_⟩
    rw [hstage] at hproper
    exact hproper
  | @judged _ job todo _ report _ hstage _ hs =>
    refine ⟨s.deliver u report, _, ⟨rfl, rfl, rfl⟩, hs, fun hproper next hnext => ?_⟩
    rw [hstage] at hproper
    rcases List.mem_append.mp hnext with hnext | hnext
    · rw [Job.Ruled, State.column_of_followers hnext]
      exact hproper.2 job (by simp)
    · exact hproper.2 next (by simp [hnext])
  | failed hstage _ hafter hs =>
    refine ⟨s, _, .refl s, hs, fun hproper => ?_⟩
    rw [hstage] at hproper
    rcases hafter with rfl | rfl
    · exact fun next hnext => hproper.2 next (by simp [hnext])
    · trivial

/-- Whatever step a call takes, it moves. -/
theorem Call.Advance.moves (hc : s.call? c.id = some c) (h : c.Advance u s s') : c.Moves u s s' := by
  rcases h.split hc with ⟨-, edited, job, todo, hstage, rfl⟩ | hedit | hcall
  · refine ⟨_, .editing edited todo none, Evaluation.apart_schedule job.key [edited], .refl _,
      fun hproper next hnext => ?_⟩
    rw [hstage] at hproper
    exact hproper next (by simp [hnext])
  · exact hedit.moves
  · exact hcall.moves

/-- What goes on in the watch leaves the calls alone or moves one of them, and closes nothing. -/
theorem State.Advances.apart (h : s.Advances u s') :
    s'.Apart s ∨ ∃ c, s.call? c.id = some c ∧ c.Moves u s s' := by
  rcases h with ⟨e, -, hadvance⟩ | ⟨c, hc, hadvance⟩
  · exact .inl hadvance.apart
  · exact .inr ⟨c, hc, hadvance.moves hc⟩

theorem State.Advances.closed (h : s.Advances u s') : s'.closed = s.closed := by
  rcases h.apart with hapart | ⟨c, -, t, stage, hapart, halike, -⟩
  · exact hapart.closed
  · exact halike.closed.trans hapart.closed

theorem State.Advances.slots (h : s.Advances u s') : s'.limiter.closed = s.limiter.closed := by
  rcases h.apart with hapart | ⟨c, -, t, stage, hapart, halike, -⟩
  · exact hapart.slots
  · exact halike.limiterClosed.trans hapart.slots

/-! ## Moves -/

/-- A closed watch stays closed. -/
theorem State.closed_move? (hm : s.move? u m = some s') (hclosed : s.closed = true) :
    s'.closed = true := by
  cases m with
  | setCell row column cell =>
    simp only [move?, Option.map_eq_some_iff] at hm
    obtain ⟨grid, -, rfl⟩ := hm
    exact hclosed
  | step task => exact (advances_of_step? hm).closed.trans hclosed
  | takeSlot generation => exact (advances_of_takeSlot? hm).closed.trans hclosed
  | _ =>
    obtain rfl := Option.some.inj hm
    first | rfl | exact hclosed

theorem State.open_of_move? (hm : s.move? u m = some s') (hopen : s'.closed = false) :
    s.closed = false := by
  cases h : s.closed with
  | false => rfl
  | true => rw [closed_move? hm h] at hopen; cases hopen

/-- What each of some moves keeps, all of them do. -/
theorem State.keeps_moveAll? {p : State → Prop} (hms : s.moveAll? u ms = some s')
    (hkeep : ∀ m ∈ ms, ∀ s s' : State, s.move? u m = some s' → p s → p s') (hs : p s) : p s' := by
  induction ms generalizing s with
  | nil =>
    obtain rfl := Option.some.inj hms
    exact hs
  | cons m ms ih =>
    simp only [moveAll?, List.foldlM_cons, Option.bind_eq_bind, Option.bind_eq_some_iff] at hms
    obtain ⟨mid, hm, hrest⟩ := hms
    exact ih hrest (fun next hnext => hkeep next (List.mem_cons_of_mem m hnext))
      (hkeep m List.mem_cons_self s mid hm hs)

/-- Calls are numbered as they came and at proper stages. -/
structure State.Tidy (u : Setup) (s : State) : Prop where
  ids : s.Numbered
  stages : ∀ c ∈ s.calls, c.stage.Proper u

namespace State.Tidy

theorem start (u : Setup) (grid : Grid) : (State.start u grid).Tidy u where
  ids := rfl
  stages _ hc := by cases hc

theorem congr (h : s.Tidy u) (hcalls : s'.calls = s.calls) : s'.Tidy u where
  ids := h.ids.congr hcalls
  stages := by
    rw [hcalls]
    exact h.stages

theorem goTo (h : s.Tidy u) (c : Call) (hstage : stage.Proper u) :
    (Call.goTo s c stage).Tidy u where
  ids := h.ids.goTo c stage
  stages d hd := by
    rcases mem_goTo.mp hd with ⟨hd, -⟩ | ⟨rfl, -⟩
    · exact h.stages d hd
    · exact hstage

theorem addCall (h : s.Tidy u) (hstage : stage.Proper u) : (s.addCall stage).Tidy u where
  ids := h.ids.addCall stage
  stages d hd := by
    rcases List.mem_append.mp hd with hd | hd
    · exact h.stages d hd
    · obtain rfl := List.mem_singleton.mp hd
      exact hstage

theorem advances (h : s.Tidy u) (hs : s.Advances u s') : s'.Tidy u := by
  rcases hs.apart with hapart | ⟨c, hc, t, stage, hapart, halike, hstage⟩
  · exact h.congr hapart.calls
  · exact ((h.congr hapart.calls).goTo c
      (hstage (h.stages c (mem_of_call? hc)))).congr halike.calls

/-- Every move keeps the calls in order. -/
theorem move? (h : s.Tidy u) (hm : s.move? u m = some s') : s'.Tidy u := by
  cases m with
  | setCell row column cell =>
    simp only [State.move?, Option.map_eq_some_iff] at hm
    obtain ⟨grid, -, rfl⟩ := hm
    exact h.congr rfl
  | pushRow _ | pass _ =>
    obtain rfl := Option.some.inj hm
    exact h.congr rfl
  | edit row column =>
    obtain rfl := Option.some.inj hm
    refine h.addCall ?_
    split
    · trivial
    · intro job hjob
      obtain ⟨target, htarget, rfl⟩ := List.mem_map.mp hjob
      simpa [Job.Ruled] using (List.mem_filter.mp htarget).2
  | validateAll =>
    obtain rfl := Option.some.inj hm
    exact h.addCall trivial
  | shutDown =>
    obtain rfl := Option.some.inj hm
    exact ⟨h.ids, h.stages⟩
  | step task => exact h.advances (advances_of_step? hm)
  | takeSlot generation => exact h.advances (advances_of_takeSlot? hm)

/-- The calls of every run are in order. -/
theorem moveAll? (h : s.Tidy u) (hms : s.moveAll? u ms = some s') : s'.Tidy u :=
  keeps_moveAll? hms (fun _ _ _ _ hm hs => hs.move? hm) h

end State.Tidy

end CellRules.Watch
