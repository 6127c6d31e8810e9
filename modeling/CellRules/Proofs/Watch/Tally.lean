/-
CellRules.Proofs.Watch.Tally — every step is booked.

A watch counts what is asked for and how it ends. The counters are raised in many places, along
branches that depend on stages, on the ledger and on the answers of rules. What they have in common
is said once: `Tallied s asked ended rows s'` says that between `s` and `s'` some evaluations were
asked for, some ended in one way each, some reports of runs over all rows were delivered, and
NOTHING else happened to the counters or to those under way.

* `State.unsettled` — the evaluations that are armed, queued or running, those that a call makes
  itself included.
* `Evaluation.Advance.tallied`, `Call.Advance.tallied` — what one that goes on asks for, and the at
  most one evaluation that it ends.
-/
import CellRules.Proofs.Watch.Chronicle

namespace CellRules.Watch

variable {u : Setup} {s s' t : State} {e : Evaluation} {c : Call} {key : CellKey}

/-- How an evaluation that was asked for ends. Each way has its counter. -/
inductive End where
  | coalesced
  | evaluated
  | stale
  | cancelled
  | errors
  deriving DecidableEq, Repr

/-- The counter of an end. -/
def Stats.of (c : Stats) : End → Nat
  | .coalesced => c.coalesced
  | .evaluated => c.evaluated
  | .stale => c.stale
  | .cancelled => c.cancelled
  | .errors => c.errors

/-- Nothing was asked for, and of the counters of ends this one was raised. -/
structure Stats.Raised (c : Stats) (k : End) (c' : Stats) : Prop where
  scheduled : c'.scheduled = c.scheduled
  counted : ∀ j, c'.of j = c.of j + if k = j then 1 else 0

/-- The evaluation is armed, queued or running. -/
def Evaluation.unsettled (e : Evaluation) : Bool := decide e.live && e.reporting

/-- The call judges an edited cell itself. -/
def Call.judgesCell (c : Call) : Bool :=
  match c.stage with
  | .editing _ _ (some _) => true
  | _ => false

/-- The tasks of those in a list who are busy. -/
def tasksOf {α : Type} (busy : α → Bool) (task : α → Task) (l : List α) : List Task :=
  (l.filter busy).map task

/-- The evaluations that have not ended, by the tasks that make them. -/
def State.unsettled (s : State) : List Task :=
  tasksOf Evaluation.unsettled (.evaluation ·.generation) s.evaluations ++
    tasksOf Call.judgesCell (.call ·.id) s.calls

/-- From `s` to `s'` these evaluations were asked for, these ended, each in its way, and so many
reports of runs over all rows were delivered. -/
structure Tallied (s : State) (asked : List Task) (ended : List (Task × End)) (rows : Nat)
    (s' : State) : Prop where
  scheduled : s'.stats.scheduled = s.stats.scheduled + asked.length
  counted : ∀ k, s'.stats.of k =
    s.stats.of k + ended.countP (·.2 == k) + if k = .evaluated then rows else 0
  unsettled : (s.unsettled ++ asked).Perm (ended.map (·.1) ++ s'.unsettled)

namespace Tallied

variable {asked asked' : List Task} {ended ended' : List (Task × End)} {rows rows' : Nat}

theorem trans (h : Tallied s asked ended rows t) (h' : Tallied t asked' ended' rows' s') :
    Tallied s (asked ++ asked') (ended ++ ended') (rows + rows') s' where
  scheduled := by rw [h'.scheduled, h.scheduled, List.length_append, Nat.add_assoc]
  counted k := by
    rw [h'.counted, h.counted, List.countP_append]
    split <;> omega
  unsettled := by
    have hfirst := h.unsettled.append_right asked'
    have hthen := h'.unsettled.append_left (ended.map (·.1))
    simp only [List.append_assoc, List.map_append] at hfirst hthen ⊢
    exact hfirst.trans hthen

/-- Nothing is counted, and nobody comes or ends. -/
theorem quiet (hstats : s'.stats = s.stats) (hsame : s.unsettled.Perm s'.unsettled) :
    Tallied s [] [] 0 s' where
  scheduled := by rw [hstats]; rfl
  counted k := by rw [hstats]; simp
  unsettled := by simpa using hsame

/-- Evaluations, calls and counters stay as they are. -/
theorem same (hstats : s'.stats = s.stats) (hevaluations : s'.evaluations = s.evaluations)
    (hcalls : s'.calls = s.calls) : Tallied s [] [] 0 s' :=
  .quiet hstats (by rw [State.unsettled, State.unsettled, hevaluations, hcalls])

/-- What was booked up to a state, where nothing is booked from it on. -/
theorem andThen (h : Tallied s asked ended rows t) (h' : Tallied t [] [] 0 s') :
    Tallied s asked ended rows s' := by
  simpa using h.trans h'

/-- One evaluation ends. -/
theorem ends {task : Task} {k : End} (hraised : s.stats.Raised k s'.stats)
    (hended : s.unsettled.Perm (task :: s'.unsettled)) : Tallied s [] [(task, k)] 0 s' where
  scheduled := hraised.scheduled
  counted j := by simp [hraised.counted]
  unsettled := by simpa using hended

end Tallied

/-! ## What is not counted -/

namespace State

theorem stats_note (u : Setup) (s : State) (event : Event) : (s.note u event).stats = s.stats := by
  unfold note
  split <;> rfl

theorem stats_notePeers (u : Setup) (s : State) (key : CellKey) (edited : List String)
    (rows : Dataset) : (s.notePeers u key edited rows).stats = s.stats := by
  unfold notePeers
  dsimp only
  split
  · rfl
  · exact stats_note u s _

theorem raised_deliver (u : Setup) (s : State) (report : CellReport) :
    s.stats.Raised .evaluated (s.deliver u report).stats :=
  ⟨rfl, fun j => by cases j <;> rfl⟩

theorem raised_outdated (u : Setup) (s : State) (event : Event) :
    s.stats.Raised .stale ((s.count fun c => { c with stale := c.stale + 1 }).note u event).stats := by
  rw [stats_note]
  exact ⟨rfl, fun j => by cases j <;> rfl⟩

theorem raised_abandoned (u : Setup) (s : State) (key : CellKey) :
    s.stats.Raised .cancelled (s.abandoned u key).stats := by
  rw [abandoned, stats_note]
  exact ⟨rfl, fun j => by cases j <;> rfl⟩

theorem raised_failed (u : Setup) (s : State) (key : CellKey) (p : Problem) :
    s.stats.Raised .errors (s.failed u key p).stats :=
  ⟨rfl, fun j => by cases j <;> rfl⟩

/-- Asking for an evaluation counts it, and one that waits and is replaced. -/
theorem stats_schedule (hopen : s.closed = false) (key : CellKey) (fanOut : List String) :
    (s.schedule u key fanOut).stats =
      { s.stats with
        scheduled := s.stats.scheduled + 1
        coalesced := s.stats.coalesced +
          if (s.ledger.current? key).any (·.phase == .pending) then 1 else 0 } := by
  have hnot : ¬s.closed = true := by simp [hopen]
  rw [schedule, if_neg hnot]
  cases hr : s.ledger.current? key with
  | none => exact stats_note u _ _
  | some r =>
    dsimp only [launch, supersede]
    cases hp : r.phase with
    | pending =>
      simp only [Option.any_some, hp, beq_self_eq_true, if_true]
      exact stats_note u _ _
    | running =>
      simp only [Option.any_some, hp]
      split <;> exact stats_note u _ _

end State

/-! ## Who is under way -/

section

variable {α β : Type} {a : α} {l l' : List α} (busy : α → Bool) (task : α → Task)

theorem tasksOf_cons (a : α) (l : List α) :
    tasksOf busy task (a :: l) = (if busy a then [task a] else []) ++ tasksOf busy task l := by
  unfold tasksOf
  cases h : busy a <;> simp [h]

theorem tasksOf_append (l l' : List α) :
    tasksOf busy task (l ++ l') = tasksOf busy task l ++ tasksOf busy task l' := by
  simp [tasksOf]

variable [DecidableEq β] {f : α → β}

/-- Taking one with its own name out of a list. -/
theorem tasksOf_filter (hl : (l.map f).Nodup) (ha : a ∈ l) :
    (tasksOf busy task l).Perm
      ((if busy a then [task a] else []) ++ tasksOf busy task (l.filter (f · != f a))) := by
  rw [← tasksOf_cons]
  exact ((perm_cons_filter hl ha).filter _).map _

/-- Putting another one in the place of one with its own name. -/
theorem tasksOf_replace (hl : (l.map f).Nodup) (ha : a ∈ l) (b : α) :
    (tasksOf busy task (l.map fun c => if f c = f a then b else c)).Perm
      ((if busy b then [task b] else []) ++ tasksOf busy task (l.filter (f · != f a))) := by
  rw [← tasksOf_cons]
  exact ((perm_cons_replace hl ha b).filter _).map _

end

namespace State

theorem unsettled_congr (hevaluations : s'.evaluations = s.evaluations)
    (hcalls : s'.calls = s.calls) : s'.unsettled = s.unsettled := by
  rw [unsettled, unsettled, hevaluations, hcalls]

namespace Orderly

variable (ho : s.Orderly) (he : e ∈ s.evaluations)

include ho

theorem nodup : (s.evaluations.map (·.generation)).Nodup := by
  rw [List.Nodup, List.pairwise_map]
  exact ho.ascending.imp fun hlt => Nat.ne_of_lt hlt

include he

/-- Those under way are the evaluation, if it is, and those that are left without it. -/
theorem unsettled_drop :
    s.unsettled.Perm
      ((if e.unsettled then [.evaluation e.generation] else []) ++
        (s.dropEvaluation e).unsettled) := by
  rw [State.unsettled, State.unsettled, ← List.append_assoc]
  exact (tasksOf_filter _ _ ho.nodup he).append_right _

theorem unsettled_setStage (stage : Stage) :
    (s.setStage e stage).unsettled.Perm
      ((if ({ e with stage } : Evaluation).unsettled then [.evaluation e.generation] else []) ++
        (s.dropEvaluation e).unsettled) := by
  rw [State.unsettled, State.unsettled, ← List.append_assoc]
  exact (tasksOf_replace _ _ ho.nodup he { e with stage }).append_right _

/-- An evaluation that stays under way, or had ended, moves on. -/
theorem tallied_setStage (stage : Stage)
    (hsame : ({ e with stage } : Evaluation).unsettled = e.unsettled) :
    Tallied s [] [] 0 (s.setStage e stage) := by
  refine .quiet rfl ((ho.unsettled_drop he).trans ?_)
  rw [← hsame]
  exact (ho.unsettled_setStage he stage).symm

/-- An evaluation that had ended goes. -/
theorem tallied_drop (hended : e.unsettled = false) : Tallied s [] [] 0 (s.dropEvaluation e) :=
  .quiet rfl (by simpa [hended] using ho.unsettled_drop he)

/-- An evaluation that was under way ends and goes. -/
theorem ends_drop (hun : e.unsettled = true) :
    s.unsettled.Perm (.evaluation e.generation :: (s.dropEvaluation e).unsettled) := by
  simpa [hun] using ho.unsettled_drop he

/-- An evaluation that was under way ends, and asks for other cells. -/
theorem ends_spreading (hun : e.unsettled = true) (keys : List CellKey) :
    s.unsettled.Perm (.evaluation e.generation :: (s.setStage e (.spreading keys)).unsettled) := by
  have hleft := ho.unsettled_setStage he (.spreading keys)
  have hended : ({ e with stage := .spreading keys } : Evaluation).unsettled = false := by
    simp [Evaluation.unsettled, Evaluation.reporting]
  rw [hended] at hleft
  exact (ho.ends_drop he hun).trans (hleft.symm.cons _)

end Orderly

end State

/-! ## Asking for an evaluation -/

theorem Evaluation.reporting_of_not_begun (h : e.stage.begun = false) : e.reporting = true := by
  unfold reporting
  cases hstage : e.stage with
  | spreading keys => rw [hstage] at h; cases h
  | _ => rfl

/-- One that has begun and has yet to deal with its report is under way, told to stop or not. -/
theorem Evaluation.unsettled_of_begun (hbegun : e.stage.begun = true) :
    e.unsettled = e.reporting := by
  simp [unsettled, live, hbegun]

theorem Evaluation.unsettled_of_stage {stage : Stage} (hstage : e.stage = stage)
    (hbegun : stage.begun = true)
    (hreporting : ({ e with stage } : Evaluation).reporting = true) : e.unsettled = true := by
  subst hstage
  exact (unsettled_of_begun hbegun).trans hreporting

/-- One that asks for other cells has ended. -/
theorem Evaluation.unsettled_of_spreading {keys : List CellKey}
    (hstage : e.stage = .spreading keys) : e.unsettled = false := by
  simp [unsettled, reporting, hstage]

theorem Evaluation.unsettled_of_not_begun (hbegun : e.stage.begun = false) :
    e.unsettled = !e.cancelled := by
  simp [unsettled, live, hbegun, reporting_of_not_begun hbegun]

namespace State.Orderly

variable (ho : s.Orderly)

include ho

/-- The newest evaluation of a cell is under way, and nobody told it to stop. -/
theorem exists_newest {r : Request} (hr : s.ledger.current? key = some r) :
    ∃ e ∈ s.evaluations, e.generation = r.generation ∧ e.cancelled = false ∧
      e.stage.begun = (r.phase == .running) := by
  obtain ⟨c, hc, hcur⟩ := Ledger.current?_eq_some.mp hr
  obtain ⟨e, he, -, hstanding⟩ := mem_standingsOf.mp ((ho.fits key).current c r hc hcur)
  obtain ⟨hg, hcancelled, hbegun⟩ := Standing.mk.inj hstanding
  exact ⟨e, he, hg, hcancelled, hbegun⟩

/-- Where no evaluation waits for the cell to rest, nobody ends when another one is asked for. -/
theorem unsettled_superseded
    (hnone : (s.ledger.current? key).any (·.phase == .pending) = false) :
    tasksOf Evaluation.unsettled (.evaluation ·.generation)
        (s.evaluations.map (s.superseded u key))
      = tasksOf Evaluation.unsettled (.evaluation ·.generation) s.evaluations := by
  have hkept : ∀ e ∈ s.evaluations, (s.superseded u key e).unsettled = e.unsettled := by
    intro e he
    unfold superseded
    split
    · rename_i hstops
      unfold stops at hstops
      cases hr : s.ledger.current? key with
      | none => simp [hr] at hstops
      | some r =>
        simp only [hr, Option.any_some, Bool.and_eq_true, beq_iff_eq] at hstops hnone
        obtain ⟨d, hd, hg, -, hbegun⟩ := ho.exists_newest hr
        obtain rfl := ho.eq_of_generation hd he (hstops.1.symm.trans hg.symm)
        -- the newest one runs, so it stays under way although it is told to stop
        have hrunning : e.stage.begun = true := by
          rw [hbegun]
          cases hp : r.phase with
          | pending => simp [hp] at hnone
          | running => rfl
        rw [Evaluation.unsettled_of_begun hrunning]
        exact Evaluation.unsettled_of_begun hrunning
    · rfl
  have hfilter : s.evaluations.filter (Evaluation.unsettled ∘ s.superseded u key)
      = s.evaluations.filter Evaluation.unsettled := List.filter_congr hkept
  rw [tasksOf, tasksOf, List.filter_map, List.map_map, hfilter]
  exact List.map_congr_left fun e _ => congrArg Task.evaluation (generation_superseded e)

/-- An evaluation that waits for its cell to rest ends when another one is asked for. -/
theorem unsettled_coalesced {r : Request} (hr : s.ledger.current? key = some r)
    (hpending : r.phase = .pending) :
    (tasksOf Evaluation.unsettled (.evaluation ·.generation) s.evaluations).Perm
      (.evaluation r.generation :: tasksOf Evaluation.unsettled (.evaluation ·.generation)
        (s.evaluations.map (s.superseded u key))) := by
  obtain ⟨old, hold, hg, hwanted, hbegun⟩ := ho.exists_newest hr
  rw [hpending] at hbegun
  have hmap : s.evaluations.map (s.superseded u key) = s.evaluations.map fun f =>
      if f.generation = old.generation then { old with cancelled := true } else f := by
    refine List.map_congr_left fun f hf => ?_
    by_cases hfg : f.generation = old.generation
    · obtain rfl := ho.eq_of_generation hold hf hfg
      simp [superseded, stops, hr, hg, hpending]
    · simp [superseded, stops, hr, ← hg, hfg, Ne.symm hfg]
  have hbefore := tasksOf_filter Evaluation.unsettled (.evaluation ·.generation) ho.nodup hold
  have hafter := tasksOf_replace Evaluation.unsettled (.evaluation ·.generation) ho.nodup hold
    { old with cancelled := true }
  rw [Evaluation.unsettled_of_not_begun hbegun, hwanted] at hbefore
  rw [Evaluation.unsettled_of_not_begun (e := { old with cancelled := true }) hbegun] at hafter
  rw [hmap, ← hg]
  exact hbefore.trans (hafter.symm.cons _)

/-- Asking for an evaluation ends at most the one that it replaces. -/
theorem tallied_schedule (hopen : s.closed = false) (key : CellKey) (fanOut : List String) :
    ∃ ended, ended.length ≤ 1 ∧
      Tallied s [.evaluation s.nextGeneration] ended 0 (s.schedule u key fanOut) := by
  have halike := schedule_alike (u := u) hopen key fanOut
  have hstats := stats_schedule (u := u) hopen key fanOut
  have hafter : (s.schedule u key fanOut).unsettled
      = tasksOf Evaluation.unsettled (.evaluation ·.generation)
          (s.evaluations.map (s.superseded u key)) ++
        [Task.evaluation s.nextGeneration] ++ tasksOf Call.judgesCell (.call ·.id) s.calls := by
    rw [unsettled_congr halike.evaluations halike.calls, unsettled, State.asking, tasksOf_append]
    rfl
  have hcome : ∀ l l' : List Task, (l ++ l' ++ [Task.evaluation s.nextGeneration]).Perm
      (l ++ [Task.evaluation s.nextGeneration] ++ l') := fun l l' => by
    rw [List.append_assoc, List.append_assoc]
    exact List.perm_append_comm.append_left l
  cases hpending : (s.ledger.current? key).any (·.phase == .pending) with
  | false =>
    rw [hpending] at hstats
    refine ⟨[], Nat.zero_le 1, by simp [hstats], fun k => ?_, ?_⟩
    · rw [hstats]
      cases k <;> simp [Stats.of]
    · rw [hafter, unsettled, ho.unsettled_superseded hpending]
      exact hcome _ _
  | true =>
    obtain ⟨r, hr, hp⟩ := (Option.any_eq_true _ _).mp hpending
    rw [hpending] at hstats
    refine ⟨[(.evaluation r.generation, .coalesced)], Nat.le_refl 1, by simp [hstats],
      fun k => ?_, ?_⟩
    · rw [hstats]
      cases k <;> simp [Stats.of]
    · rw [hafter, unsettled]
      have hended := ho.unsettled_coalesced (u := u) hr (eq_of_beq hp)
      refine (hcome _ _).trans ?_
      simpa [List.append_assoc] using hended.append_right _

end State.Orderly

/-! ## Evaluations -/

namespace Evaluation

/-- What an evaluation asks for with its next step. -/
def asks (s : State) (e : Evaluation) : List Task :=
  match e.stage with
  | .spreading (_ :: _) => [.evaluation s.nextGeneration]
  | _ => []

variable (ho : s.Orderly) (he : e ∈ s.evaluations)

include ho he

/-- An evaluation that got no slot is counted as given up. -/
theorem tallied_giveUp (hun : e.unsettled = true) {l : Limiter} :
    Tallied s [] [(.evaluation e.generation, .cancelled)] 0
      (e.giveUp u { s with limiter := l }) := by
  have halike := alike_giveUp u { s with limiter := l } e
  have hgone : s.stats.Raised .cancelled (e.giveUp u { s with limiter := l }).stats :=
    State.raised_abandoned u ((({ s with limiter := l } : State).dropEvaluation e).finish e.key
      e.generation) e.key
  refine .ends hgone ?_
  rw [show (e.giveUp u { s with limiter := l }).unsettled = (s.dropEvaluation e).unsettled from
    State.unsettled_congr halike.evaluations halike.calls]
  exact ho.ends_drop he hun

/-- An evaluation that has its answer ends with it: it goes on to ask for other cells only. -/
theorem tallied_ends (hun : e.unsettled = true) {keys : List CellKey} (k : End)
    (hevaluations : t.evaluations = s.evaluations) (hcalls : t.calls = s.calls)
    (hraised : s.stats.Raised k t.stats) :
    Tallied s [] [(.evaluation e.generation, k)] 0 (t.setStage e (.spreading keys)) := by
  refine .ends hraised ?_
  rw [show (t.setStage e (.spreading keys)).unsettled
      = (s.setStage e (.spreading keys)).unsettled from
    State.unsettled_congr
      (by simp only [State.setStage, State.setEvaluation, hevaluations]) hcalls]
  exact ho.ends_spreading he hun keys

/-- An evaluation that has begun goes on, and is under way as before. -/
theorem tallied_goesOn {stage : Stage} (hun : e.unsettled = true) (hbegun : stage.begun = true)
    (hreporting : ({ e with stage } : Evaluation).reporting = true)
    (hevaluations : t.evaluations = s.evaluations) (hcalls : t.calls = s.calls)
    (hstats : t.stats = s.stats) : Tallied s [] [] 0 (t.setStage e stage) := by
  have hmove := ho.tallied_setStage he stage
    ((unsettled_of_begun hbegun).trans (hreporting.trans hun.symm))
  exact hmove.andThen (.same hstats
    (by simp only [State.setStage, State.setEvaluation, hevaluations]) hcalls)

/-- Only an evaluation that was told to stop is discarded, so that none is lost. -/
theorem unsettled_of_discard (hopen : s.closed = false) (hbegun : e.stage.begun = false)
    (hwhy : e.stopped s = true ∨ s.ledger.begin? e.key e.generation = none) :
    e.unsettled = false := by
  rw [stopped_open hopen] at hwhy
  rw [unsettled_of_not_begun hbegun, Bool.not_eq_false']
  rcases hwhy with hcancelled | hnewer
  · exact hcancelled
  · by_contra hwanted
    rw [Bool.not_eq_true] at hwanted
    -- whoever nobody told to stop is the newest of its cell
    obtain ⟨c, r, hc, hr, hg⟩ :=
      (ho.fits e.key).waiting _ (State.standing_mem he) hwanted hbegun
    exact absurd hg (Ledger.begin?_eq_none hnewer r (by rw [Ledger.current?_of_find? hc, hr]))

/-- An evaluation that goes on asks for at most one evaluation and ends at most one: itself, or one
that is replaced. -/
theorem Advance.tallied (hopen : s.closed = false) (h : e.Advance u s s') :
    ∃ ended, ended.length ≤ 1 ∧ Tallied s (e.asks s) ended 0 s' := by
  have hnone : ∀ {t : State}, e.asks s = [] → Tallied s [] [] 0 t →
      ∃ ended, ended.length ≤ 1 ∧ Tallied s (e.asks s) ended 0 t := fun hasks ht =>
    ⟨[], Nat.zero_le 1, hasks ▸ ht⟩
  have hone : ∀ {t : State} {k : End}, e.asks s = [] →
      Tallied s [] [(.evaluation e.generation, k)] 0 t →
      ∃ ended, ended.length ≤ 1 ∧ Tallied s (e.asks s) ended 0 t := fun hasks ht =>
    ⟨[_], Nat.le_refl 1, hasks ▸ ht⟩
  cases h with
  | arm hstage =>
    have hbegun : e.stage.begun = false := by rw [hstage]; rfl
    refine hnone (by simp [asks, hstage]) (ho.tallied_setStage he _ ?_)
    rw [unsettled_of_not_begun hbegun]
    exact unsettled_of_not_begun rfl
  | discard hstage hwhy =>
    have hbegun : e.stage.begun = false := by
      rcases hstage with hstage | ⟨due, hstage⟩ <;> (rw [hstage]; rfl)
    refine hnone ?_ (ho.tallied_drop he (unsettled_of_discard ho he hopen hbegun hwhy))
    rcases hstage with hstage | ⟨due, hstage⟩ <;> simp [asks, hstage]
  | begin hstage hwanted =>
    have hbegun : e.stage.begun = false := by rw [hstage]; rfl
    have hun : e.unsettled = true := by
      rw [stopped_open hopen] at hwanted
      rw [unsettled_of_not_begun hbegun, hwanted]
      rfl
    exact hnone (by simp [asks, hstage]) (tallied_goesOn ho he hun rfl rfl rfl rfl rfl)
  | queue hstage | work hstage | stop hstage =>
    exact hnone (by simp [asks, hstage])
      (tallied_goesOn ho he (unsettled_of_stage hstage rfl rfl) rfl rfl rfl rfl rfl)
  | start hgets =>
    rcases hgets.stage with hstage | ⟨ticket, hstage⟩ <;>
      exact hnone (by simp [asks, hstage])
        (tallied_goesOn ho he (unsettled_of_stage hstage rfl rfl) rfl rfl rfl rfl rfl)
  | giveUp hleaves =>
    rcases hleaves.stage with hstage | ⟨ticket, hstage⟩ <;>
      exact hone (by simp [asks, hstage])
        (tallied_giveUp ho he (unsettled_of_stage hstage rfl rfl))
  | @report report rows fanOut ledger hstage =>
    have hpeers := State.alike_notePeers u (({ s with ledger } : State).deliver u report) e.key
      fanOut rows
    refine hone (by simp [asks, hstage]) (tallied_ends ho he (unsettled_of_stage hstage rfl rfl)
      .evaluated hpeers.evaluations hpeers.calls ?_)
    rw [State.stats_notePeers]
    exact State.raised_deliver u { s with ledger } report
  | outdated hstage =>
    have hnote := State.alike_note u (s.count fun c => { c with stale := c.stale + 1 })
      (.staleDiscarded e.key.row e.key.column e.generation)
    exact hone (by simp [asks, hstage]) (tallied_ends ho he (unsettled_of_stage hstage rfl rfl)
      .stale hnote.evaluations hnote.calls (State.raised_outdated u s _))
  | abandon hstage =>
    have habandoned := s.alike_abandoned u e.key
    exact hone (by simp [asks, hstage]) (tallied_ends ho he (unsettled_of_stage hstage rfl rfl)
      .cancelled habandoned.evaluations habandoned.calls (State.raised_abandoned u s _))
  | fail hstage =>
    exact hone (by simp [asks, hstage])
      (tallied_ends ho he (unsettled_of_stage hstage rfl rfl) .errors rfl rfl
        (State.raised_failed u s _ _))
  | @ask key keys hstage =>
    have hasks : e.asks s = [.evaluation s.nextGeneration] := by simp [asks, hstage]
    obtain ⟨ended, hlength, htallied⟩ := ho.tallied_schedule (u := u) hopen key []
    have hmove := (ho.schedule (u := u) hopen key []).tallied_setStage
      (ho.mem_schedule hopen he hstage) (.spreading keys)
      ((unsettled_of_begun rfl).trans (unsettled_of_spreading hstage).symm)
    exact ⟨ended, hlength, hasks ▸ htallied.andThen hmove⟩
  | finish hstage =>
    exact hnone (by simp [asks, hstage])
      ((ho.tallied_drop he (unsettled_of_spreading hstage)).andThen (.same rfl rfl rfl))

end Evaluation

/-! ## Calls -/

/-- Those under way are the call, if it judges a cell, and others that it leaves alone. -/
theorem State.Numbered.exists_rest (hn : s.Numbered) (hc : c ∈ s.calls) :
    ∃ rest, s.unsettled.Perm ((if c.judgesCell then [.call c.id] else []) ++ rest) ∧
      ∀ stage, (Call.goTo s c stage).unsettled.Perm
        ((if ({ c with stage } : Call).judgesCell then [.call c.id] else []) ++ rest) := by
  have hids : (s.calls.map (·.id)).Nodup := by
    rw [show s.calls.map (·.id) = List.range s.nextCall from hn]
    exact List.nodup_range
  have hfront : ∀ l k r : List Task, (l ++ (k ++ r)).Perm (k ++ (l ++ r)) := fun l k r => by
    rw [← List.append_assoc, ← List.append_assoc]
    exact List.perm_append_comm.append_right r
  refine ⟨tasksOf Evaluation.unsettled (.evaluation ·.generation) s.evaluations ++
    tasksOf Call.judgesCell (.call ·.id) (s.calls.filter (·.id != c.id)), ?_, fun stage => ?_⟩
  · exact ((tasksOf_filter Call.judgesCell (.call ·.id) hids hc).append_left _).trans
      (hfront _ _ _)
  · exact ((tasksOf_replace Call.judgesCell (.call ·.id) hids hc { c with stage }).append_left
      _).trans (hfront _ _ _)

namespace Call

/-- What a call asks for with its next step. -/
def asks (u : Setup) (s : State) (c : Call) : List Task :=
  match c.stage with
  | .editing _ (_ :: _) none =>
    [if u.ruleSet.throttle.background then .evaluation s.nextGeneration else .call c.id]
  | _ => []

/-- The number of reports of a run over all rows that the next step delivers. -/
def rows (c : Call) : Nat :=
  match c.stage with
  | .delivering (_ :: _) _ => 1
  | _ => 0

variable (hn : s.Numbered) (hc : c ∈ s.calls)

include hn hc

/-- The call moves on, and judges a cell as much as before. -/
theorem tallied_goTo (stage : CallStage)
    (hsame : ({ c with stage } : Call).judgesCell = c.judgesCell) :
    Tallied s [] [] 0 (goTo s c stage) := by
  obtain ⟨rest, hbefore, hafter⟩ := hn.exists_rest hc
  refine .quiet rfl (hbefore.trans ?_)
  rw [← hsame]
  exact (hafter stage).symm

/-- The call begins to judge a cell. -/
theorem tallied_begin (edited : String) (job : Job) (todo : List Job)
    (hidle : c.judgesCell = false) : Tallied s [.call c.id] [] 0 (begin u s c edited job todo) := by
  obtain ⟨rest, hbefore, hafter⟩ := hn.exists_rest hc
  have hjudging := hafter (.editing edited todo
    (some (job, .working (u.ruleSet.evaluateCellAmong (s.source u) job.key.row job.key.column))))
  refine ⟨rfl, fun k => by cases k <;> rfl, ?_⟩
  rw [hidle] at hbefore
  exact ((hbefore.append_right _).trans List.perm_append_comm).trans hjudging.symm

/-- The call ends judging a cell, and does not judge it any more. -/
theorem tallied_ends {stage : CallStage} (hbusy : c.judgesCell = true)
    (hidle : ({ c with stage } : Call).judgesCell = false) (k : End)
    (hevaluations : t.evaluations = s.evaluations) (hcalls : t.calls = s.calls)
    (hraised : s.stats.Raised k t.stats) :
    Tallied s [] [(.call c.id, k)] 0 (goTo t c stage) := by
  obtain ⟨rest, hbefore, hafter⟩ := hn.exists_rest hc
  have hleft := hafter stage
  rw [hbusy] at hbefore
  rw [hidle] at hleft
  refine .ends hraised (hbefore.trans (.cons _ ?_))
  rw [show (goTo t c stage).unsettled = (goTo s c stage).unsettled from
    State.unsettled_congr hevaluations (by rw [goTo, goTo, hcalls])]
  exact hleft.symm

/-- Strands judge no edited cell. -/
theorem tallied_strand {pool next : Pool (List CellReport)} (hstage : c.stage = .judging pool)
    (limiter : Limiter) (events : List Event) :
    Tallied s [] [] 0 (goTo (({ s with limiter } : State).write events) c (.judging next)) := by
  have hidle : c.judgesCell = false := by simp [judgesCell, hstage]
  exact (tallied_goTo hn hc (.judging next) hidle.symm).andThen (.same rfl rfl rfl)

/-- A call that goes on asks for at most one evaluation, ends at most one, and delivers at most one
report of a run over all rows. -/
theorem Advance.tallied (ho : s.Orderly) (hopen : s.closed = false) (h : c.Advance u s s') :
    ∃ ended, ended.length ≤ 1 ∧ Tallied s (c.asks u s) ended c.rows s' := by
  have hnone : ∀ {t : State}, c.asks u s = [] → c.rows = 0 → Tallied s [] [] 0 t →
      ∃ ended, ended.length ≤ 1 ∧ Tallied s (c.asks u s) ended c.rows t := fun hasks hrows ht =>
    ⟨[], Nat.zero_le 1, by rw [hasks, hrows]; exact ht⟩
  have hone : ∀ {t : State} {k : End}, c.asks u s = [] → c.rows = 0 →
      Tallied s [] [(.call c.id, k)] 0 t →
      ∃ ended, ended.length ≤ 1 ∧ Tallied s (c.asks u s) ended c.rows t := fun hasks hrows ht =>
    ⟨[_], Nat.le_refl 1, by rw [hasks, hrows]; exact ht⟩
  have hmoves : ∀ {t : State} {before after : CallStage}, c.stage = before →
      ({ c with stage := after } : Call).judgesCell = ({ c with stage := before } : Call).judgesCell →
      t.stats = s.stats → t.evaluations = s.evaluations → t.calls = s.calls →
      Tallied s [] [] 0 (goTo t c after) := by
    rintro t _ after rfl hsame hstats hevaluations hcalls
    exact (tallied_goTo hn hc after hsame).andThen
      (.same hstats hevaluations (by rw [goTo, goTo, hcalls]))
  have hbusy : ∀ {edited : String} {todo : List Job} {current : Job × Running Judgement},
      c.stage = .editing edited todo (some current) → c.judgesCell = true := fun hstage => by
    simp [judgesCell, hstage]
  cases h with
  | told hstage | work hstage | survey hstage | look hstage | found hstage | judged hstage
  | conclude hstage =>
    exact hnone (by simp [asks, hstage]) (by simp [rows, hstage]) (hmoves hstage rfl rfl rfl rfl)
  | @ask edited job todo background hstage =>
    have halike := State.schedule_alike (u := u) hopen job.key [edited]
    obtain ⟨ended, hlength, htallied⟩ := ho.tallied_schedule (u := u) hopen job.key [edited]
    have hmove := tallied_goTo (hn.congr halike.calls) (halike.calls ▸ hc)
      (.editing edited todo none) (by simp [judgesCell, hstage])
    refine ⟨ended, hlength, ?_⟩
    rw [show c.asks u s = [.evaluation s.nextGeneration] by simp [asks, hstage, background],
      show c.rows = 0 by simp [rows, hstage]]
    exact htallied.andThen hmove
  | @take edited job todo atOnce hstage =>
    refine ⟨[], Nat.zero_le 1, ?_⟩
    rw [show c.asks u s = [.call c.id] by simp [asks, hstage, atOnce],
      show c.rows = 0 by simp [rows, hstage]]
    exact tallied_begin hn hc edited job todo (by simp [judgesCell, hstage])
  | @spread edited _ job _ report rows hstage =>
    have hpeers := State.alike_notePeers u (s.deliver u report) job.key [edited] rows
    refine hone (by simp [asks, hstage]) (by simp [Call.rows, hstage])
      (tallied_ends hn hc (hbusy hstage) rfl .evaluated hpeers.evaluations hpeers.calls ?_)
    rw [State.stats_notePeers]
    exact State.raised_deliver u s report
  | report hstage =>
    exact hone (by simp [asks, hstage]) (by simp [rows, hstage])
      (tallied_ends hn hc (hbusy hstage) rfl .evaluated rfl rfl (State.raised_deliver u s _))
  | @abandon _ _ job _ hstage =>
    have habandoned := s.alike_abandoned u job.key
    exact hone (by simp [asks, hstage]) (by simp [rows, hstage])
      (tallied_ends hn hc (hbusy hstage) rfl .cancelled habandoned.evaluations habandoned.calls
        (State.raised_abandoned u s _))
  | fail hstage =>
    exact hone (by simp [asks, hstage]) (by simp [rows, hstage])
      (tallied_ends hn hc (hbusy hstage) rfl .errors rfl rfl (State.raised_failed u s _ _))
  | strand hstage =>
    exact hnone (by simp [asks, hstage]) (by simp [rows, hstage])
      (tallied_strand hn hc hstage _ _)
  | @deliver cell todo cells hstage =>
    have hmove : Tallied s [] [] 0 (goTo s c (.delivering todo cells)) :=
      hmoves hstage rfl rfl rfl rfl
    refine ⟨[], Nat.zero_le 1, ?_⟩
    rw [show c.asks u s = [] by simp [asks, hstage], show c.rows = 1 by simp [rows, hstage]]
    refine ⟨rfl, fun k => by cases k <;> rfl, ?_⟩
    rw [show (goTo (s.deliver u cell) c (.delivering todo cells)).unsettled
        = (goTo s c (.delivering todo cells)).unsettled from
      State.unsettled_congr rfl rfl]
    exact hmove.unsettled
  | refuse hwhy =>
    rcases hwhy with ⟨hstage, -⟩ | ⟨work, hstage, -⟩ | ⟨pool, hstage, -⟩ <;>
      exact hnone (by simp [asks, hstage]) (by simp [rows, hstage]) (hmoves hstage rfl rfl rfl rfl)

end Call

end CellRules.Watch
