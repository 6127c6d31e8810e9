/-
CellRules.Proofs.Watch.Effect — all that a move can do to an open watch.

Where edited cells are judged in the background, a call never judges one itself: it asks for
evaluations, or judges all rows. `Effect` gathers how calls (`CallCourse`) and evaluations (`Course`)
may go on with what comes from outside. `move?_effect` reads the list off `State.move?` ONCE.

Only evaluations and edits touch the ledger; the rest leaves it alone (`CallCourse.kept`,
`Outside.kept`). Turned round, the list says where an evaluation comes from that is there after a
step (`Effect.origin`).
-/
import CellRules.Proofs.Watch.Apart

namespace CellRules.Watch

variable {u : Setup} {s s' t : State} {c : Call} {stage : CallStage} {x : Option Happening}

/-- Nothing is closed, and no call judges an edited cell itself. -/
structure State.Open (s : State) : Prop where
  closed : s.closed = false
  slots : s.limiter.closed = false
  background : ∀ c ∈ s.calls, ∀ edited todo job, c.stage ≠ .editing edited todo (some job)

theorem State.open_start (u : Setup) (grid : Grid) : (start u grid).Open :=
  ⟨rfl, rfl, fun _ hc => by cases hc⟩

/-- What may come from outside, apart from closing the watch. -/
inductive Outside (u : Setup) (s : State) : Option Happening → State → Prop
  | write {s' : State} {row : Nat} {column : String} {cell : Cell} {grid : Grid}
      (set : s.grid.set row column cell = .ok grid) (state : s'.Alike { s with grid }) :
      Outside u s (some (.wrote row column)) s'
  | push {s' : State} {values : List (String × Cell)}
      (state : s'.Alike { s with grid := s.grid.push values }) : Outside u s (some .pushed) s'
  | tell {s' : State} {row : Nat} {column : String}
      (state : s'.Alike (s.addCall
        (.editing column ((u.editTargets column).map fun c => ⟨⟨row, c⟩, true⟩) none))) :
      Outside u s (some (.told s.nextCall row column)) s'
  | askAll {s' : State} (state : s'.Alike (s.addCall .called)) :
      Outside u s (some (.calledAll s.nextCall)) s'
  | wait {s' : State} (state : s'.Alike s) : Outside u s none s'

/-- What a move may do to an open watch whose edited cells are judged in the background. -/
inductive Effect (u : Setup) (s : State) : Option Happening → State → Prop
  | course {e : Evaluation} {x : Option Happening} {s' : State}
      (known : s.evaluation? e.generation = some e) (course : Course u s e x s') : Effect u s x s'
  | ask {c : Call} {edited : String} {job : Job} {todo : List Job} {s' : State}
      (known : s.call? c.id = some c) (stage : c.stage = .editing edited (job :: todo) none)
      (state : s'.Alike
        (Call.goTo (s.schedule u job.key [edited]) c (.editing edited todo none))) :
      Effect u s (some (.asked (.call c.id) job.key s.nextGeneration [edited])) s'
  | call {c : Call} {x : Option Happening} {s' : State} (known : s.call? c.id = some c)
      (course : CallCourse u s c x s') : Effect u s x s'
  | outside {x : Option Happening} {s' : State} (outside : Outside u s x s') : Effect u s x s'
  | close {s' : State} (state : s' = s.shutDown u) : Effect u s (some .closed) s'

/-- What comes from outside leaves evaluations and ledger alone. -/
theorem Outside.kept {x : Option Happening} (h : Outside u s x s') :
    s'.evaluations = s.evaluations ∧ s'.nextGeneration = s.nextGeneration ∧
      s'.ledger = s.ledger := by
  cases h with
  | write _ hs | push hs | tell hs | askAll hs | wait hs =>
    exact ⟨hs.evaluations.trans rfl, hs.nextGeneration.trans rfl, hs.ledger.trans rfl⟩

/-! ## Moves -/

/-- A write changes one cell of the grid. -/
theorem State.set_of_move? {row : Nat} {column : String} {cell : Cell}
    (hm : s.move? u (.setCell row column cell) = some s') :
    ∃ grid, s.grid.set row column cell = .ok grid ∧ s' = { s with grid } := by
  simp only [move?, Option.map_eq_some_iff] at hm
  obtain ⟨grid, hset, rfl⟩ := hm
  cases h : s.grid.set row column cell with
  | error p => simp [h, Except.toOption] at hset
  | ok g =>
    simp only [h, Except.toOption, Option.some.injEq] at hset
    subst hset
    exact ⟨_, rfl, rfl⟩

/-- In an open watch whose edited cells are judged in the background, a move does one of the things
in `Effect`. -/
theorem State.move?_effect (background : u.ruleSet.throttle.background = true)
    (hs : s.Open) {m : Move} (hm : s.move? u m = some s') : Effect u s (seen s m s') s' := by
  obtain ⟨hopen, hslots, hback⟩ := hs
  cases m with
  | setCell row column cell =>
    obtain ⟨grid, hset, rfl⟩ := set_of_move? hm
    exact .outside (.write hset (.refl _))
  | pushRow values =>
    simp only [move?, Option.some.injEq] at hm
    subst hm
    exact .outside (.push (.refl _))
  | edit row column =>
    simp only [move?, tellEdit, hopen, Bool.false_eq_true, if_false, Option.some.injEq] at hm
    subst hm
    simp only [seen, hopen, Bool.false_eq_true, if_false]
    exact .outside (.tell (.refl _))
  | validateAll =>
    simp only [move?, Option.some.injEq] at hm
    subst hm
    exact .outside (.askAll (.refl _))
  | shutDown =>
    simp only [move?, Option.some.injEq] at hm
    exact .close hm.symm
  | pass millis =>
    simp only [move?, Option.some.injEq] at hm
    subst hm
    exact .outside (.wait ⟨rfl, rfl, rfl, rfl, rfl, rfl, rfl, rfl, rfl⟩)
  | step task =>
    cases task with
    | evaluation generation =>
      obtain ⟨e, rfl, he, hadvance⟩ := evaluation_of_step? hm
      simp only [seen, he, Option.bind_some]
      exact .course he (hadvance.course hopen hslots he)
    | call id =>
      obtain ⟨c, rfl, hc, hadvance⟩ := call_of_step? hm
      simp only [seen, hc, Option.bind_some]
      have hmem := mem_of_call? hc
      rcases hadvance.split hc with ⟨-, edited, job, todo, hstage, rfl⟩ | hedit | hcall
      · have hnext : s.nextGeneration < (Call.goTo (s.schedule u job.key [edited]) c
            (.editing edited todo none)).nextGeneration := by
          simp [Call.goTo, nextGeneration_schedule hopen]
        simp only [Call.seen, hstage, if_pos hnext]
        exact .ask hc hstage (.refl _)
      · cases hedit with
        | take hatOnce => rw [background] at hatOnce; cases hatOnce
        | work hstage | judged hstage | failed hstage => exact absurd hstage (hback c hmem _ _ _)
      · exact .call hc hcall
    | strand id strand =>
      obtain ⟨c, hc, hcourse⟩ := course_of_strand hm
      exact .call hc hcourse
  | takeSlot generation =>
    obtain ⟨e, rfl, he, hadvance⟩ := evaluation_of_takeSlot? hm
    simp only [seen, he, Option.bind_some]
    exact .course he (hadvance.course hopen hslots he)

/-! ## Where evaluations come from -/

section Origin

variable {e f : Evaluation} {key : CellKey}

namespace State

/-- Asking for an evaluation changes no generation and no key. -/
theorem generation_superseded (f : Evaluation) :
    (s.superseded u key f).generation = f.generation := by
  unfold superseded
  split <;> rfl

theorem key_superseded (f : Evaluation) : (s.superseded u key f).key = f.key := by
  unfold superseded
  split <;> rfl

theorem stage_superseded (f : Evaluation) : (s.superseded u key f).stage = f.stage := by
  unfold superseded
  split <;> rfl

theorem wanted_of_superseded (hwanted : (s.superseded u key f).cancelled = false) :
    f.cancelled = false := by
  unfold superseded at hwanted
  split at hwanted
  · cases hwanted
  · exact hwanted

/-- Of all evaluations, the one that moves on is there at its new stage only. -/
theorem eq_of_setStage {stage : Stage}
    (hevaluations : s'.evaluations = (t.setStage e stage).evaluations) (hf : f ∈ s'.evaluations)
    (hg : f.generation = e.generation) : f = { e with stage } := by
  rw [hevaluations] at hf
  exact (mem_setStage.mp hf).elim (fun hother => absurd hg hother.2) (·.1)

/-- One that goes is not there. -/
theorem ne_of_dropEvaluation (hevaluations : s'.evaluations = (t.dropEvaluation e).evaluations)
    (hf : f ∈ s'.evaluations) : f.generation ≠ e.generation := by
  rw [hevaluations] at hf
  exact (mem_dropEvaluation.mp hf).2

end State

/-- Where an evaluation comes from that is there after a step. -/
inductive Origin (u : Setup) (s : State) (x : Option Happening) (s' : State) (f : Evaluation) : Prop
  /-- It stands where it stood, and was perhaps told to stop. -/
  | stood {e : Evaluation} (mem : e ∈ s.evaluations) (generation : f.generation = e.generation)
      (key : f.key = e.key) (stage : f.stage = e.stage)
      (wanted : f.cancelled = false → e.cancelled = false) : Origin u s x s' f
  /-- The step was its own. -/
  | moved {e : Evaluation} (mem : e ∈ s.evaluations) (generation : f.generation = e.generation)
      (course : Course u s e x s') : Origin u s x s' f
  /-- It was just asked for. -/
  | asked (generation : f.generation = s.nextGeneration) (stage : f.stage = .asked) :
      Origin u s x s' f

/-- Whoever is there after a step was there before, or was just asked for. -/
theorem Effect.origin (hopen : s.closed = false) (hopen' : s'.closed = false)
    (heffect : Effect u s x s') (hf : f ∈ s'.evaluations) : Origin u s x s' f := by
  have hstood : f ∈ s.evaluations → Origin u s x s' f := fun hf => .stood hf rfl rfl rfl id
  have hasking : ∀ {key : CellKey} {fanOut : List String},
      f ∈ (s.schedule u key fanOut).evaluations → Origin u s x s' f := by
    intro key fanOut hf
    rw [(State.schedule_alike (u := u) hopen key fanOut).evaluations] at hf
    rcases List.mem_append.mp hf with hf | hf
    · obtain ⟨e, he, rfl⟩ := List.mem_map.mp hf
      exact .stood he (State.generation_superseded e) (State.key_superseded e)
        (State.stage_superseded e) State.wanted_of_superseded
    · rw [List.mem_singleton] at hf
      subst hf
      exact .asked rfl rfl
  cases heffect with
  | @course e _ _ hknown hcourse =>
    by_cases hg : f.generation = e.generation
    · exact .moved (State.mem_of_evaluation? hknown) hg hcourse
    have hset : ∀ {t : State} {stage : Stage}, s'.evaluations = (t.setStage e stage).evaluations →
        f ∈ t.evaluations := by
      intro t stage hevaluations
      rw [hevaluations] at hf
      exact (State.mem_setStage.mp hf).elim (·.1) fun hown => absurd (by rw [hown.1]) hg
    cases hcourse with
    | spread _ hs => exact hasking (hset hs.evaluations)
    | discard _ _ hs | giveUp _ _ hs | finish _ hs =>
      rw [hs.evaluations] at hf
      exact hstood (State.mem_dropEvaluation.mp hf).1
    | arm _ hs | begin _ _ _ hs | queue _ hs | read _ hs | work _ _ hs | stop _ _ hs
    | report _ _ _ hs | ignore _ _ hs | fail _ _ hs => exact hstood (hset (t := s) hs.evaluations)
  | ask hknown hstage hs => exact hasking (hs.evaluations ▸ hf)
  | call hknown hcourse => exact hstood (hcourse.kept.1 ▸ hf)
  | outside hout => exact hstood (hout.kept.1 ▸ hf)
  | close hclosed =>
    subst hclosed
    cases hopen'

end Origin

/-! ## Closed watches -/

namespace Evaluation

variable {e : Evaluation}

/-- An evaluation of a closed watch makes no report. -/
theorem Advance.not_reported (hclosed : s.closed = true) (h : e.Advance u s s') (reporter : Task)
    (key : CellKey) (v : Verdict) : e.seen s s' ≠ some (.reported reporter key v) := by
  intro hseen
  have hquiet : s.newDelivery? s' = none := State.newDelivery?_same (h.still hclosed).1
  cases hstage : e.stage with
  | settled answer fanOut =>
    simp only [seen, hstage, hquiet] at hseen
    split at hseen
    · rename_i h
      cases h
    · cases hseen
    · split at hseen <;> cases hseen
  | spreading keys =>
    cases keys with
    | nil => simp [seen, hstage] at hseen
    | cons key keys =>
      simp only [seen, hstage] at hseen
      split at hseen <;> cases hseen
  | asked | running _ _ => simp [seen, hstage] at hseen
  | armed _ | entering _ | inLine _ _ =>
    simp only [seen, hstage] at hseen
    split at hseen <;> cases hseen

end Evaluation

/-- An evaluation calls for nothing, and reports in its own name. -/
theorem Evaluation.seen_self {s s' : State} {e : Evaluation} {y : Happening}
    (hy : e.seen s s' = some y) :
    (∀ id, y ≠ .calledAll id) ∧
      ∀ reporter key v, y = .reported reporter key v → reporter = .evaluation e.generation := by
  cases hstage : e.stage with
  | asked | running work fanOut => simp [seen, hstage] at hy
  | armed due | entering fanOut | inLine ticket fanOut =>
    simp only [seen, hstage] at hy
    split at hy <;> cases hy <;> exact ⟨by simp, by simp⟩
  | settled answer fanOut =>
    simp only [seen, hstage] at hy
    split at hy
    · cases hy
      exact ⟨by simp, fun _ _ _ heq => by cases heq; rfl⟩
    · cases hy
      exact ⟨by simp, by simp⟩
    · split at hy <;> cases hy <;> exact ⟨by simp, by simp⟩
  | spreading keys =>
    cases keys with
    | nil => simp [seen, hstage] at hy
    | cons key keys =>
      simp only [seen, hstage] at hy
      split at hy <;> cases hy
      exact ⟨by simp, by simp⟩

/-- So does a call. -/
theorem Call.seen_self {s s' : State} {c : Call} {y : Happening} (hy : c.seen s s' = some y) :
    (∀ id, y ≠ .calledAll id) ∧
      ∀ reporter key v, y = .reported reporter key v → reporter = .call c.id := by
  cases hstage : c.stage with
  | editing edited todo current =>
    cases current with
    | none =>
      cases todo with
      | nil => simp [seen, hstage] at hy
      | cons job todo =>
        simp only [seen, hstage] at hy
        split at hy
        · cases hy
          exact ⟨by simp, by simp⟩
        · split at hy <;> cases hy
          exact ⟨by simp, by simp⟩
    | some current =>
      simp only [seen, hstage] at hy
      split at hy <;> cases hy
      · exact ⟨by simp, fun _ _ _ heq => by cases heq; rfl⟩
      · exact ⟨by simp, by simp⟩
      · exact ⟨by simp, by simp⟩
  | called =>
    simp only [seen, hstage] at hy
    split at hy <;> cases hy
    exact ⟨by simp, by simp⟩
  | delivering todo cells =>
    simp only [seen, hstage, Option.map_eq_some_iff] at hy
    obtain ⟨d, -, rfl⟩ := hy
    exact ⟨by simp, fun _ _ _ heq => by cases heq; rfl⟩
  | edited answer | surveying work | judging pool | reported answer => simp [seen, hstage] at hy

/-- A closed watch delivers no report of an evaluation. -/
theorem not_reported_of_closed (hclosed : s.closed = true) {m : Move}
    (hm : s.move? u m = some s') (generation : Nat) (key : CellKey) (v : Verdict) :
    seen s m s' ≠ some (.reported (.evaluation generation) key v) := by
  intro hseen
  cases m with
  | step task =>
    cases task with
    | evaluation g =>
      obtain ⟨e, rfl, he, hadvance⟩ := State.evaluation_of_step? hm
      simp only [seen, he, Option.bind_some] at hseen
      exact hadvance.not_reported hclosed _ _ _ hseen
    | call id =>
      simp only [seen, Option.bind_eq_some_iff] at hseen
      obtain ⟨c, -, hseen⟩ := hseen
      cases (c.seen_self hseen).2 _ _ _ rfl
    | strand id strand => cases hseen
  | takeSlot _ =>
    obtain ⟨e, -, hread⟩ := State.seen_takeSlot hm
    cases hread.symm.trans hseen
  | edit row column =>
    simp only [seen] at hseen
    split at hseen <;> cases hseen
  | _ => cases hseen

/-! ## Runs of an open watch -/

/-- A call that goes on by one of these stages judges no edited cell. -/
theorem State.Open.goTo (ho : s.Open) (hcalls : t.calls = s.calls) (hclosed : t.closed = s.closed)
    (hslots : t.limiter.closed = s.limiter.closed)
    (hstage : ∀ edited todo job, stage ≠ .editing edited todo (some job))
    (hs : s'.Alike (Call.goTo t c stage)) : s'.Open := by
  refine ⟨hs.closed.trans (hclosed.trans ho.closed),
    hs.limiterClosed.trans (hslots.trans ho.slots), fun d hd => ?_⟩
  rw [hs.calls] at hd
  rcases mem_goTo.mp hd with ⟨hd, -⟩ | ⟨rfl, -⟩
  · rw [hcalls] at hd
    exact ho.background d hd
  · exact hstage

/-- A call is added. -/
theorem State.Open.addCall (ho : s.Open)
    (hstage : ∀ edited todo job, stage ≠ .editing edited todo (some job))
    (hs : s'.Alike (s.addCall stage)) : s'.Open := by
  refine ⟨hs.closed.trans ho.closed, hs.limiterClosed.trans ho.slots, fun d hd => ?_⟩
  rw [hs.calls] at hd
  rcases List.mem_append.mp hd with hd | hd
  · exact ho.background d hd
  · rw [List.mem_singleton] at hd
    subst hd
    exact hstage

/-- Nothing is done to calls or slots. -/
theorem State.Open.same (ho : s.Open) (hcalls : s'.calls = s.calls)
    (hclosed : s'.closed = s.closed) (hslots : s'.limiter.closed = s.limiter.closed) : s'.Open :=
  ⟨hclosed.trans ho.closed, hslots.trans ho.slots, by rw [hcalls]; exact ho.background⟩

/-- Evaluations leave calls alone. -/
theorem Course.calls {e : Evaluation} (hopen : s.closed = false) (h : Course u s e x s') :
    s'.calls = s.calls := by
  cases h with
  | @spread _ key keys _ hs =>
    exact hs.calls.trans (State.schedule_alike (u := u) hopen key []).calls
  | arm _ hs | discard _ _ hs | begin _ _ _ hs | queue _ hs | read _ hs | giveUp _ _ hs
  | work _ _ hs | stop _ _ hs | report _ _ _ hs | ignore _ _ hs | fail _ _ hs | finish _ hs =>
    exact hs.calls.trans rfl

theorem Course.open {e : Evaluation} (ho : s.Open) (h : Course u s e x s') : s'.Open := by
  have hcalls := h.calls ho.closed
  cases h with
  | @spread _ key keys _ hs =>
    have hask := State.schedule_alike (u := u) ho.closed key []
    exact ho.same hcalls (hs.closed.trans hask.closed) (hs.limiterClosed.trans hask.limiterClosed)
  | arm _ hs | discard _ _ hs | begin _ _ _ hs | queue _ hs | read _ hs | giveUp _ _ hs
  | work _ _ hs | stop _ _ hs | report _ _ _ hs | ignore _ _ hs | fail _ _ hs | finish _ hs =>
    exact ho.same hcalls (hs.closed.trans rfl) (hs.limiterClosed.trans rfl)

theorem CallCourse.open (ho : s.Open) (h : CallCourse u s c x s') : s'.Open := by
  cases h with
  | @deliver _ cell _ _ _ hs => exact ho.goTo (t := s.deliver u cell) rfl rfl rfl (by simp) hs
  | told _ hs | survey _ _ hs | look _ _ hs | found _ _ hs | strand _ _ hs | judged _ _ hs
  | conclude _ hs | refuse _ hs => exact ho.goTo (t := s) rfl rfl rfl (by simp) hs

theorem Outside.open (ho : s.Open) (h : Outside u s x s') : s'.Open := by
  cases h with
  | tell hs | askAll hs => exact ho.addCall (by simp) hs
  | write _ hs | push hs | wait hs =>
    exact ho.same (hs.calls.trans rfl) (hs.closed.trans rfl) (hs.limiterClosed.trans rfl)

/-- A move leaves the watch open or closes it. -/
theorem Effect.open_or_closed (ho : s.Open) (h : Effect u s x s') :
    s'.Open ∨ (x = some .closed ∧ s'.closed = true) := by
  cases h with
  | course _ hc => exact .inl (hc.open ho)
  | @ask c edited job todo _ hc hstage hs =>
    have hask := State.schedule_alike (u := u) ho.closed job.key [edited]
    exact .inl (ho.goTo hask.calls hask.closed hask.limiterClosed (by simp) hs)
  | call _ hc => exact .inl (hc.open ho)
  | outside hc => exact .inl (hc.open ho)
  | close hs =>
    subst hs
    exact .inr ⟨rfl, rfl⟩

theorem Effect.open (ho : s.Open) (h : Effect u s x s') (hopen : s'.closed = false) : s'.Open :=
  (h.open_or_closed ho).resolve_right fun hclosed => by
    rw [hclosed.2] at hopen
    cases hopen

/-- Whatever holds at the start and is kept by every effect holds at the end of every run that did
not close the watch. -/
theorem Run.induction_open (background : u.ruleSet.throttle.background = true)
    {motive : List Happening → State → Prop} (ho : s.Open) (rest : motive [] s)
    (step : ∀ h s₁ y s₂, Run u s h s₁ → s₁.Open → s₂.Open → Step u s₁ y s₂ →
      Effect u s₁ y s₂ → motive h s₁ → motive (h ++ y.toList) s₂)
    {h : List Happening} (run : Run u s h s') (hopen : s'.closed = false) :
    s'.Open ∧ motive h s' := by
  induction run with
  | rest => exact ⟨ho, rest⟩
  | @move h s₁ s₂ m hrun hm ih =>
    obtain ⟨ho₁, hmotive⟩ := ih (State.open_of_move? hm hopen)
    have heffect := State.move?_effect background ho₁ hm
    have ho₂ := heffect.open ho₁ hopen
    exact ⟨ho₂, step h s₁ _ s₂ hrun ho₁ ho₂ ⟨m, hm, rfl⟩ heffect hmotive⟩

end CellRules.Watch
