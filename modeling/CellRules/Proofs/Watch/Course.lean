/-
CellRules.Proofs.Watch.Course — all that a step of an evaluation can do while the watch is open.

`Course u s e x s'` lists the ways in which the evaluation `e` may go on in `s`, with what is seen
(`x`) and the state afterwards. The state is given up to `State.Alike`: clock, slots, counters and
log are left open, everything else is fixed. `Evaluation.Advance.course` reads the list off what a
step leads to; the invariants of open watches in later modules go through the list.
-/
import CellRules.Proofs.Watch.Advance

namespace CellRules.Watch

/-! ## States that look alike -/

/-- Two states that differ at most in clock, slots, counters and log. -/
structure State.Alike (s t : State) : Prop where
  grid : s.grid = t.grid
  ledger : s.ledger = t.ledger
  flagged : s.flagged = t.flagged
  nextGeneration : s.nextGeneration = t.nextGeneration
  closed : s.closed = t.closed
  evaluations : s.evaluations = t.evaluations
  calls : s.calls = t.calls
  deliveries : s.deliveries = t.deliveries
  limiterClosed : s.limiter.closed = t.limiter.closed

namespace State

variable {u : Setup} {s t r : State}

theorem Alike.refl (s : State) : s.Alike s := ⟨rfl, rfl, rfl, rfl, rfl, rfl, rfl, rfl, rfl⟩

theorem Alike.trans (h : s.Alike t) (h' : t.Alike r) : s.Alike r :=
  ⟨h.grid.trans h'.grid, h.ledger.trans h'.ledger, h.flagged.trans h'.flagged,
    h.nextGeneration.trans h'.nextGeneration, h.closed.trans h'.closed,
    h.evaluations.trans h'.evaluations, h.calls.trans h'.calls,
    h.deliveries.trans h'.deliveries, h.limiterClosed.trans h'.limiterClosed⟩

theorem Alike.sink (h : s.Alike t) : s.sink = t.sink := by
  rw [State.sink, State.sink, h.deliveries]

theorem alike_write (s : State) (events : List Event) : (s.write events).Alike s :=
  ⟨rfl, rfl, rfl, rfl, rfl, rfl, rfl, rfl, rfl⟩

theorem alike_note (u : Setup) (s : State) (event : Event) : (s.note u event).Alike s := by
  unfold note
  split
  · exact s.alike_write _
  · exact .refl s

theorem alike_count (s : State) (f : Stats → Stats) : (s.count f).Alike s :=
  ⟨rfl, rfl, rfl, rfl, rfl, rfl, rfl, rfl, rfl⟩

/-- Those who wait for rest are told or not. -/
theorem alike_finish (s : State) (key : CellKey) (generation : Nat) :
    (s.finish key generation).Alike { s with ledger := s.ledger.finish key generation } :=
  ⟨rfl, rfl, rfl, rfl, rfl, rfl, rfl, rfl, rfl⟩

theorem alike_abandoned (u : Setup) (s : State) (key : CellKey) : (s.abandoned u key).Alike s :=
  (alike_note u _ _).trans (s.alike_count _)

theorem alike_failed (u : Setup) (s : State) (key : CellKey) (p : Problem) :
    (s.failed u key p).Alike s :=
  (alike_write _ _).trans (s.alike_count _)

theorem alike_notePeers (u : Setup) (s : State) (key : CellKey) (edited : List String)
    (rows : Dataset) : (s.notePeers u key edited rows).Alike s := by
  unfold notePeers
  dsimp only
  split
  · exact .refl s
  · exact alike_note u s _

theorem alike_limiter (s : State) {l : Limiter} (h : l.closed = s.limiter.closed) :
    ({ s with limiter := l } : State).Alike s :=
  ⟨rfl, rfl, rfl, rfl, rfl, rfl, rfl, rfl, h⟩

theorem Alike.setStage (h : s.Alike t) (e : Evaluation) (stage : Stage) :
    (s.setStage e stage).Alike (t.setStage e stage) := by
  obtain ⟨h1, h2, h3, h4, h5, h6, h7, h8, h9⟩ := h
  exact ⟨h1, h2, h3, h4, h5, by simp only [State.setStage, setEvaluation, h6], h7, h8, h9⟩

/-! ## The evaluations of a state -/

variable {e f : Evaluation} {stage : Stage} {generation : Nat}

theorem mem_setStage :
    f ∈ (s.setStage e stage).evaluations ↔
      (f ∈ s.evaluations ∧ f.generation ≠ e.generation) ∨
        (f = { e with stage } ∧ ∃ d ∈ s.evaluations, d.generation = e.generation) := by
  simp only [State.setStage, setEvaluation, List.mem_map]
  constructor
  · rintro ⟨d, hd, rfl⟩
    by_cases h : d.generation = e.generation
    · exact .inr ⟨by simp [h], d, hd, h⟩
    · exact .inl ⟨by simpa [h] using hd, by simp [h]⟩
  · rintro (⟨hf, h⟩ | ⟨rfl, d, hd, h⟩)
    · exact ⟨f, hf, by simp [h]⟩
    · exact ⟨d, hd, by simp [h]⟩

theorem mem_dropEvaluation :
    f ∈ (s.dropEvaluation e).evaluations ↔ f ∈ s.evaluations ∧ f.generation ≠ e.generation := by
  simp [dropEvaluation]

theorem evaluation?_setStage (h : s.evaluation? e.generation = some e) :
    (s.setStage e stage).evaluation? e.generation = some { e with stage } := by
  have hsame : (fun f : Evaluation => f.generation == e.generation) ∘
      (fun f => if f.generation = e.generation then { e with stage } else f)
        = fun f => f.generation == e.generation := by
    funext f
    by_cases hf : f.generation = e.generation <;> simp [hf]
  rw [evaluation?] at h ⊢
  simp only [State.setStage, setEvaluation, List.find?_map, hsame, h, Option.map_some, if_true]

theorem stageOf?_setStage (h : s.evaluation? e.generation = some e) :
    (s.setStage e stage).stageOf? e.generation = some stage := by
  rw [stageOf?, evaluation?_setStage h]
  rfl

theorem stageOf?_dropEvaluation : (s.dropEvaluation e).stageOf? e.generation = none := by
  simp [stageOf?, evaluation?, dropEvaluation, List.find?_eq_none]

theorem stageOf?_congr (h : s.evaluations = t.evaluations) :
    s.stageOf? generation = t.stageOf? generation := by
  rw [stageOf?, stageOf?, evaluation?, evaluation?, h]

theorem newDelivery?_same (h : t.deliveries = s.deliveries) : s.newDelivery? t = none := by
  simp [newDelivery?, h]

theorem newDelivery?_one {time : Nat} {d : Delivery}
    (h : t.deliveries = s.deliveries ++ [(time, d)]) : s.newDelivery? t = some d := by
  simp [newDelivery?, h]

/-! ## Asking for an evaluation -/

/-- Asking for an evaluation of `key` tells the evaluation of this generation to stop: it is the
newest of the cell, and it has not begun or the watch gives up what is superseded. -/
def stops (u : Setup) (s : State) (key : CellKey) (generation : Nat) : Bool :=
  (s.ledger.current? key).any fun r =>
    r.generation == generation && (r.phase == .pending || u.ruleSet.throttle.cancelSuperseded)

/-- An evaluation after another one of `key` was asked for. -/
def superseded (u : Setup) (s : State) (key : CellKey) (e : Evaluation) : Evaluation :=
  if s.stops u key e.generation then { e with cancelled := true } else e

/-- The state after an evaluation of `key` was asked for. -/
def asking (u : Setup) (s : State) (key : CellKey) (fanOut : List String) : State :=
  { s with
    nextGeneration := s.nextGeneration + 1
    ledger := s.ledger.request key s.nextGeneration fanOut
    evaluations := s.evaluations.map (s.superseded u key) ++
      [({ generation := s.nextGeneration, key } : Evaluation)] }

theorem supersede_alike (u : Setup) (t : State) (key : CellKey) :
    (t.supersede u key (s.ledger.current? key)).Alike
      { t with evaluations := t.evaluations.map (s.superseded u key) } := by
  have hcancel : ∀ r : Request, s.ledger.current? key = some r →
      (r.phase == .pending || u.ruleSet.throttle.cancelSuperseded) = true →
      t.evaluations.map (s.superseded u key) = (t.cancel r.generation).evaluations := by
    intro r hr hwhy
    refine List.map_congr_left fun e _ => ?_
    by_cases hg : r.generation = e.generation
    · simp [superseded, stops, hr, hwhy, hg]
    · simp [superseded, stops, hr, hg, Ne.symm hg]
  have hkeep : (∀ e : Evaluation, s.stops u key e.generation = false) →
      t.evaluations.map (s.superseded u key) = t.evaluations := by
    intro hno
    exact List.map_id'' (fun e => by simp [superseded, hno]) _
  cases hcur : s.ledger.current? key with
  | none =>
    rw [hkeep fun e => by simp [stops, hcur]]
    exact alike_note u t _
  | some r =>
    simp only [supersede]
    split
    · rename_i hphase
      rw [hcancel r hcur (by simp [hphase])]
      exact (alike_note u _ _).trans (alike_count _ _)
    · rename_i hphase
      split
      · rename_i hgive
        rw [hcancel r hcur (by simp [hgive])]
        exact alike_note u _ _
      · rename_i hgive
        rw [hkeep fun e => by simp [stops, hcur, hphase, hgive]]
        exact alike_note u t _

theorem schedule_alike (hopen : s.closed = false) (key : CellKey) (fanOut : List String) :
    (s.schedule u key fanOut).Alike (s.asking u key fanOut) := by
  have hnot : ¬s.closed = true := by simp [hopen]
  rw [schedule, if_neg hnot]
  have h := supersede_alike (s := s) u
    ((s.draw.enter key s.nextGeneration fanOut).count
      fun c => { c with scheduled := c.scheduled + 1 }) key
  exact ⟨h.grid.trans rfl, h.ledger.trans rfl, h.flagged.trans rfl, h.nextGeneration.trans rfl,
    h.closed.trans rfl, congrArg (· ++ [_]) h.evaluations, h.calls.trans rfl,
    h.deliveries.trans rfl, h.limiterClosed.trans rfl⟩

theorem nextGeneration_schedule (hopen : s.closed = false) (key : CellKey)
    (fanOut : List String) :
    (s.schedule u key fanOut).nextGeneration = s.nextGeneration + 1 :=
  (schedule_alike hopen key fanOut).nextGeneration

end State

/-! ## The course of an evaluation -/

/-- How an evaluation may go on in an open watch: what is seen, and the state afterwards. -/
inductive Course (u : Setup) (s : State) (e : Evaluation) : Option Happening → State → Prop
  | arm {s' : State} {due : Nat} (stage : e.stage = .asked)
      (state : s'.Alike (s.setStage e (.armed due)))
      (alarm : due = s.now + u.ruleSet.throttle.debounce) : Course u s e none s'
  | discard {s' : State} (stage : e.stage = .asked ∨ ∃ due, e.stage = .armed due)
      (why : e.cancelled = true ∨ s.ledger.begin? e.key e.generation = none)
      (state : s'.Alike (s.dropEvaluation e)) : Course u s e none s'
  | begin {s' : State} {due : Nat} {fanOut : List String} {ledger : Ledger}
      (stage : e.stage = .armed due) (wanted : e.cancelled = false)
      (newest : s.ledger.begin? e.key e.generation = some (fanOut, ledger))
      (state : s'.Alike ({ s with ledger }.setStage e (.entering fanOut)))
      (rested : due ≤ s.now) : Course u s e (some (.began e.key e.generation fanOut)) s'
  | queue {s' : State} {ticket : Ticket} {fanOut : List String}
      (stage : e.stage = .entering fanOut)
      (state : s'.Alike (s.setStage e (.inLine ticket fanOut))) : Course u s e none s'
  | read {s' : State} {fanOut : List String}
      (stage : e.stage = .entering fanOut ∨ ∃ ticket, e.stage = .inLine ticket fanOut)
      (state : s'.Alike (s.setStage e (.running (.working
        (u.ruleSet.evaluateCellAmong (s.source u) e.key.row e.key.column)) fanOut))) :
      Course u s e (some (.read (.evaluation e.generation) e.key)) s'
  | giveUp {s' : State} {fanOut : List String}
      (stage : e.stage = .entering fanOut ∨ ∃ ticket, e.stage = .inLine ticket fanOut)
      (why : e.cancelled = true)
      (state : s'.Alike
        { s.dropEvaluation e with ledger := s.ledger.finish e.key e.generation }) :
      Course u s e (some (.dropped (.evaluation e.generation) e.key)) s'
  | work {s' : State} {work next : Running Judgement} {fanOut : List String}
      (stage : e.stage = .running work fanOut) (kept : next.rest.answer = work.rest.answer)
      (state : s'.Alike (s.setStage e (.running next fanOut))) : Course u s e none s'
  | stop {s' : State} {work : Running Judgement} {fanOut : List String}
      {answer : Except Problem Judgement} (stage : e.stage = .running work fanOut)
      (kept : answer = work.rest.answer ∨ e.cancelled = true)
      (state : s'.Alike (s.setStage e (.settled answer fanOut))) : Course u s e none s'
  | report {s' : State} {report : CellReport} {rows : Dataset} {fanOut : List String}
      {ledger : Ledger} (stage : e.stage = .settled (.ok (report, rows)) fanOut)
      (wanted : e.cancelled = false)
      (newest : s.ledger.claim? e.key e.generation = some ledger)
      (state : s'.Alike (({ s with ledger }.deliver u report).setStage e
        (.spreading (({ s with ledger }.deliver u report).peers u e.key fanOut rows)))) :
      Course u s e (some (.reported (.evaluation e.generation) e.key report.verdict)) s'
  | ignore {s' : State} {answer : Except Problem Judgement} {fanOut : List String}
      (stage : e.stage = .settled answer fanOut)
      (why : e.cancelled = true ∨ s.ledger.claim? e.key e.generation = none)
      (state : s'.Alike (s.setStage e (.spreading []))) :
      Course u s e (some (.dropped (.evaluation e.generation) e.key)) s'
  | fail {s' : State} {p : Problem} {fanOut : List String}
      (stage : e.stage = .settled (.error p) fanOut) (wanted : e.cancelled = false)
      (state : s'.Alike (s.setStage e (.spreading []))) :
      Course u s e (some (.failed (.evaluation e.generation) e.key p)) s'
  | spread {s' : State} {key : CellKey} {keys : List CellKey}
      (stage : e.stage = .spreading (key :: keys))
      (state : s'.Alike ((s.schedule u key []).setStage e (.spreading keys))) :
      Course u s e (some (.asked (.evaluation e.generation) key s.nextGeneration [])) s'
  | finish {s' : State} (stage : e.stage = .spreading [])
      (state : s'.Alike
        { s.dropEvaluation e with ledger := s.ledger.finish e.key e.generation }) :
      Course u s e none s'

namespace Evaluation

variable {u : Setup} {s s' : State} {e : Evaluation}

theorem stopped_open (hopen : s.closed = false) : e.stopped s = e.cancelled := by
  simp [stopped, hopen]

theorem alike_giveUp (u : Setup) (s : State) (e : Evaluation) :
    (e.giveUp u s).Alike
      { s.dropEvaluation e with ledger := s.ledger.finish e.key e.generation } :=
  (State.alike_abandoned u _ _).trans (State.alike_finish _ _ _)

/-- Leaving without a slot. -/
theorem seen_giveUp {fanOut : List String} {l : Limiter} (hleaves : e.LeavesLine s fanOut l) :
    (e.giveUp u { s with limiter := l }).Alike
        { s.dropEvaluation e with ledger := s.ledger.finish e.key e.generation } ∧
      e.seen s (e.giveUp u { s with limiter := l })
        = some (.dropped (.evaluation e.generation) e.key) := by
  have halike : (e.giveUp u { s with limiter := l }).Alike
      { s.dropEvaluation e with ledger := s.ledger.finish e.key e.generation } :=
    (alike_giveUp u _ e).trans
      ⟨rfl, rfl, rfl, rfl, rfl, rfl, rfl, rfl, hleaves.closed_eq⟩
  have hgone : (e.giveUp u { s with limiter := l }).stageOf? e.generation = none := by
    rw [State.stageOf?_congr halike.evaluations]
    exact State.stageOf?_dropEvaluation
  refine ⟨halike, ?_⟩
  rcases hleaves.stage with h | ⟨ticket, h⟩ <;> simp [seen, h, hgone]

/-- One that takes a slot is seen to read the grid. -/
theorem seen_start (he : s.evaluation? e.generation = some e) {fanOut : List String} {l : Limiter}
    (hgets : e.GetsSlot s fanOut l) :
    e.seen s (e.start u { s with limiter := l } fanOut)
      = some (.read (.evaluation e.generation) e.key) := by
  have hafter : (e.start u { s with limiter := l } fanOut).stageOf? e.generation
      = some (.running (.working
          (u.ruleSet.evaluateCellAmong (s.source u) e.key.row e.key.column)) fanOut) :=
    State.stageOf?_setStage (s := { s with limiter := l }) he
  rcases hgets.stage with h | ⟨ticket, h⟩ <;> simp [seen, h, hafter]

/-- Where the answer is a problem, the evaluation fails, or nobody waits for the answer any more. -/
theorem course_error (hopen : s.closed = false) {p : Problem} {fanOut : List String} {t : State}
    (hstage : e.stage = .settled (.error p) fanOut) (ht : t.Alike (s.setStage e (.spreading []))) :
    Course u s e (e.seen s t) t := by
  have hquiet : s.newDelivery? t = none := State.newDelivery?_same ht.deliveries
  cases hc : e.cancelled with
  | true =>
    simp only [seen, hstage, hquiet, stopped_open hopen, hc, if_true]
    exact .ignore hstage (.inl hc) ht
  | false =>
    simp only [seen, hstage, hquiet, stopped_open hopen, hc, Bool.false_eq_true, if_false]
    exact .fail hstage hc ht

/-- In an open watch, an evaluation goes on in one of the ways of `Course`. -/
theorem Advance.course (hopen : s.closed = false) (hslots : s.limiter.closed = false)
    (he : s.evaluation? e.generation = some e) (h : e.Advance u s s') :
    Course u s e (e.seen s s') s' := by
  cases h with
  | arm hstage =>
    simp only [seen, hstage]
    exact .arm hstage (.refl _) rfl
  | discard hstage hwhy =>
    rw [stopped_open hopen] at hwhy
    have hseen : e.seen s (s.dropEvaluation e) = none := by
      rcases hstage with h | ⟨due, h⟩ <;> simp [seen, h, State.stageOf?_dropEvaluation]
    rw [hseen]
    exact .discard hstage hwhy (.refl _)
  | @begin due fanOut ledger hstage hwanted hrested hnewest =>
    rw [stopped_open hopen] at hwanted
    have hafter : (({ s with ledger } : State).setStage e (.entering fanOut)).stageOf? e.generation
        = some (.entering fanOut) := State.stageOf?_setStage (s := { s with ledger }) he
    simp only [seen, hstage, hafter]
    exact .begin hstage hwanted hnewest (.refl _) hrested
  | @queue fanOut ticket limiter hstage hjoin =>
    have hkeep := s.limiter.closed_join
    rw [hjoin] at hkeep
    have hafter : (({ s with limiter } : State).setStage e (.inLine ticket fanOut)).stageOf?
        e.generation = some (.inLine ticket fanOut) :=
      State.stageOf?_setStage (s := { s with limiter }) he
    simp only [seen, hstage, hafter]
    exact .queue hstage (State.Alike.setStage (s.alike_limiter hkeep) e _)
  | start hgets =>
    rw [seen_start he hgets]
    exact .read hgets.stage (State.Alike.setStage (s.alike_limiter hgets.closed_eq) e _)
  | giveUp hleaves hwhy =>
    rw [stopped_open hopen, hslots] at hwhy
    obtain ⟨halike, hseen⟩ := seen_giveUp (u := u) hleaves
    rw [hseen]
    exact .giveUp hleaves.stage (hwhy.resolve_right Bool.false_ne_true) halike
  | @work work next events _ hstage hstep =>
    simp only [seen, hstage]
    exact .work hstage (work.answer_of_goesOn hstep)
      (State.Alike.setStage (s.alike_write events) e _)
  | @stop work _ _ hstage hstep =>
    have hkept := work.answer_of_ends hstep
    rw [stopped_open hopen] at hkept
    simp only [seen, hstage]
    exact .stop hstage hkept (State.Alike.setStage (s.alike_limiter s.limiter.closed_release) e _)
  | @report report rows fanOut ledger hstage hwanted hnewest =>
    rw [stopped_open hopen] at hwanted
    have hdone := State.Alike.setStage
      (State.alike_notePeers u (({ s with ledger } : State).deliver u report) e.key fanOut rows)
      e (.spreading ((({ s with ledger } : State).deliver u report).peers u e.key fanOut rows))
    have hseen := State.newDelivery?_one (s := s) (hdone.deliveries.trans rfl)
    simp only [seen, hstage, hseen]
    exact .report hstage hwanted hnewest hdone
  | outdated hstage _ holder =>
    have hstale := State.Alike.setStage
      ((State.alike_note u _ (.staleDiscarded e.key.row e.key.column e.generation)).trans
        (s.alike_count fun c => { c with stale := c.stale + 1 })) e (.spreading [])
    have hquiet := State.newDelivery?_same (s := s) hstale.deliveries
    simp only [seen, hstage, hquiet]
    exact .ignore hstage (.inr holder) hstale
  | abandon hstage hwhy =>
    have habandoned := State.Alike.setStage (s.alike_abandoned u e.key) e (.spreading [])
    rcases hwhy with ⟨hstopped, judgement, rfl⟩ | rfl
    · rw [stopped_open hopen] at hstopped
      have hquiet := State.newDelivery?_same (s := s) habandoned.deliveries
      simp only [seen, hstage, hquiet]
      exact .ignore hstage (.inl hstopped) habandoned
    · exact course_error hopen hstage habandoned
  | @fail p _ hstage =>
    exact course_error hopen hstage (State.Alike.setStage (s.alike_failed u e.key p) e _)
  | @ask key keys hstage =>
    have hnext : s.nextGeneration <
        ((s.schedule u key []).setStage e (.spreading keys)).nextGeneration := by
      simp [State.setStage, State.setEvaluation, State.nextGeneration_schedule hopen]
    simp only [seen, hstage, if_pos hnext]
    exact .spread hstage (.refl _)
  | finish hstage =>
    simp only [seen, hstage]
    exact .finish hstage (State.alike_finish _ _ _)

end Evaluation

/-- Taking a slot shows as reading the grid. -/
theorem State.seen_takeSlot {u : Setup} {s s' : State} {generation : Nat}
    (hm : s.move? u (.takeSlot generation) = some s') :
    ∃ e, s.evaluation? generation = some e ∧
      seen s (.takeSlot generation) s' = some (.read (.evaluation generation) e.key) := by
  obtain ⟨e, he, hslot⟩ := Option.bind_eq_some_iff.mp hm
  obtain rfl := generation_of_evaluation? he
  obtain ⟨fanOut, limiter, hgets, rfl⟩ := e.takeSlot?_eq_some hslot
  refine ⟨e, he, ?_⟩
  simp only [seen, he, Option.bind_some]
  exact e.seen_start he hgets

end CellRules.Watch
