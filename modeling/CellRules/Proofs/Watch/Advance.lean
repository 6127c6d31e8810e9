/-
CellRules.Proofs.Watch.Advance — what a step of an evaluation or a call leads to.

`Evaluation.Advance u s e s'` lists the states to which the evaluation `e` can lead `s`, by a step or
by taking a slot; `Call.Advance u s c s'` lists those to which a call or a strand of its pool can. The
lists are exact and hold whether the watch is open or closed: what was looked at stands in the case.

The lists are read off the functions ONCE (`Evaluation.advance_of_step?` and its like); what every
step keeps is proved of the lists, case by case. `State.Advances` says that an evaluation or a call of
the watch goes on, as it does at every move not made from outside.
-/
import CellRules.Proofs.Run.Pool
import CellRules.Proofs.Watch.History

namespace CellRules.Watch

variable {u : Setup} {s s' : State}

/-! ## Evaluations -/

namespace Evaluation

variable {e : Evaluation}

/-- A slot is at hand, and this is the limiter once it is taken. -/
inductive GetsSlot (s : State) (e : Evaluation) : List String → Limiter → Prop
  | free {fanOut : List String} {ticket : Ticket} {l : Limiter} (stage : e.stage = .entering fanOut)
      (join : s.limiter.join = (.slot, ticket, l)) : GetsSlot s e fanOut l
  | given {fanOut : List String} {ticket : Ticket} (stage : e.stage = .inLine ticket fanOut)
      (attempt : s.limiter.attempt ticket = .slot) :
      GetsSlot s e fanOut (s.limiter.takeUp ticket)

/-- The evaluation has begun and has no slot, and this is the limiter once it is gone. -/
inductive LeavesLine (s : State) (e : Evaluation) : List String → Limiter → Prop
  | entering {fanOut : List String} (stage : e.stage = .entering fanOut) :
      LeavesLine s e fanOut s.limiter
  | inLine {fanOut : List String} {ticket : Ticket} (stage : e.stage = .inLine ticket fanOut) :
      LeavesLine s e fanOut (s.limiter.leave ticket)

namespace GetsSlot

variable {fanOut : List String} {l : Limiter} (h : e.GetsSlot s fanOut l)

include h

theorem stage : e.stage = .entering fanOut ∨ ∃ ticket, e.stage = .inLine ticket fanOut := by
  cases h with
  | free hstage => exact .inl hstage
  | given hstage => exact .inr ⟨_, hstage⟩

theorem closed_eq : l.closed = s.limiter.closed := by
  cases h with
  | free _ hjoin =>
    have hkeep := s.limiter.closed_join
    rwa [hjoin] at hkeep
  | given => rfl

/-- Slots are taken only while they are given out. -/
theorem isOpen : s.limiter.closed = false := by
  cases hclosed : s.limiter.closed with
  | false => rfl
  | true =>
    cases h with
    | free _ hjoin => simp [Limiter.join, hclosed] at hjoin
    | given _ hslot => simp [Limiter.attempt, hclosed] at hslot

end GetsSlot

namespace LeavesLine

variable {fanOut : List String} {l : Limiter} (h : e.LeavesLine s fanOut l)

include h

theorem stage : e.stage = .entering fanOut ∨ ∃ ticket, e.stage = .inLine ticket fanOut := by
  cases h with
  | entering hstage => exact .inl hstage
  | inLine hstage => exact .inr ⟨_, hstage⟩

theorem closed_eq : l.closed = s.limiter.closed := by
  cases h with
  | entering => rfl
  | inLine => exact s.limiter.closed_leave _

end LeavesLine

/-- Where an evaluation may lead. -/
inductive Advance (u : Setup) (s : State) (e : Evaluation) : State → Prop
  | arm (stage : e.stage = .asked) (wanted : e.stopped s = false) :
      Advance u s e (s.setStage e (.armed (s.now + u.ruleSet.throttle.debounce)))
  | discard (stage : e.stage = .asked ∨ ∃ due, e.stage = .armed due)
      (why : e.stopped s = true ∨ s.ledger.begin? e.key e.generation = none) :
      Advance u s e (s.dropEvaluation e)
  | begin {due : Nat} {fanOut : List String} {ledger : Ledger} (stage : e.stage = .armed due)
      (wanted : e.stopped s = false) (rested : due ≤ s.now)
      (newest : s.ledger.begin? e.key e.generation = some (fanOut, ledger)) :
      Advance u s e (({ s with ledger } : State).setStage e (.entering fanOut))
  | queue {fanOut : List String} {ticket : Ticket} {limiter : Limiter}
      (stage : e.stage = .entering fanOut) (join : s.limiter.join = (.waiting, ticket, limiter)) :
      Advance u s e (({ s with limiter } : State).setStage e (.inLine ticket fanOut))
  | start {fanOut : List String} {limiter : Limiter} (gets : e.GetsSlot s fanOut limiter) :
      Advance u s e (e.start u { s with limiter } fanOut)
  | giveUp {fanOut : List String} {limiter : Limiter} (leaves : e.LeavesLine s fanOut limiter)
      (why : e.stopped s = true ∨ s.limiter.closed = true) :
      Advance u s e (e.giveUp u { s with limiter })
  | work {work next : Running Judgement} {events : List Event} {fanOut : List String}
      (stage : e.stage = .running work fanOut)
      (step : work.step? s.now (e.stopped s) = some (.goesOn events next)) :
      Advance u s e ((s.write events).setStage e (.running next fanOut))
  | stop {work : Running Judgement} {answer : Except Problem Judgement} {fanOut : List String}
      (stage : e.stage = .running work fanOut)
      (step : work.step? s.now (e.stopped s) = some (.ends answer)) :
      Advance u s e
        (({ s with limiter := s.limiter.release } : State).setStage e (.settled answer fanOut))
  | report {report : CellReport} {rows : Dataset} {fanOut : List String} {ledger : Ledger}
      (stage : e.stage = .settled (.ok (report, rows)) fanOut) (wanted : e.stopped s = false)
      (newest : s.ledger.claim? e.key e.generation = some ledger) :
      Advance u s e (((({ s with ledger } : State).deliver u report).notePeers u e.key fanOut
        rows).setStage e
          (.spreading ((({ s with ledger } : State).deliver u report).peers u e.key fanOut rows)))
  | outdated {judgement : Judgement} {fanOut : List String}
      (stage : e.stage = .settled (.ok judgement) fanOut) (wanted : e.stopped s = false)
      (older : s.ledger.claim? e.key e.generation = none) :
      Advance u s e (((s.count fun c => { c with stale := c.stale + 1 }).note u
        (.staleDiscarded e.key.row e.key.column e.generation)).setStage e (.spreading []))
  | abandon {answer : Except Problem Judgement} {fanOut : List String}
      (stage : e.stage = .settled answer fanOut)
      (why : (e.stopped s = true ∧ ∃ judgement, answer = .ok judgement) ∨
        answer = .error .cancelled) :
      Advance u s e ((s.abandoned u e.key).setStage e (.spreading []))
  | fail {p : Problem} {fanOut : List String} (stage : e.stage = .settled (.error p) fanOut)
      (failed : p ≠ .cancelled) : Advance u s e ((s.failed u e.key p).setStage e (.spreading []))
  | ask {key : CellKey} {keys : List CellKey} (stage : e.stage = .spreading (key :: keys)) :
      Advance u s e ((s.schedule u key []).setStage e (.spreading keys))
  | finish (stage : e.stage = .spreading []) :
      Advance u s e ((s.dropEvaluation e).finish e.key e.generation)

/-- Taking a slot begins the judging, told to stop or not. -/
theorem takeSlot?_eq_some (ht : e.takeSlot? u s = some s') :
    ∃ fanOut limiter, e.GetsSlot s fanOut limiter ∧ s' = e.start u { s with limiter } fanOut := by
  unfold takeSlot? at ht
  split at ht
  · rename_i fanOut hstage
    split at ht
    · rename_i ticket limiter hjoin
      exact ⟨fanOut, limiter, .free hstage hjoin, (Option.some.inj ht).symm⟩
    · cases ht
  · rename_i ticket fanOut hstage
    split at ht
    · rename_i hslot
      exact ⟨fanOut, _, .given hstage hslot, (Option.some.inj ht).symm⟩
    · cases ht
  · cases ht

theorem advance_of_takeSlot? (ht : e.takeSlot? u s = some s') : e.Advance u s s' := by
  obtain ⟨fanOut, limiter, hgets, rfl⟩ := takeSlot?_eq_some ht
  exact .start hgets

theorem claim?_eq_some {next : State} (h : e.claim? s = some next) :
    ∃ ledger, s.ledger.claim? e.key e.generation = some ledger ∧ next = { s with ledger } := by
  obtain ⟨ledger, hledger, rfl⟩ := Option.map_eq_some_iff.mp h
  exact ⟨ledger, hledger, rfl⟩

theorem claim?_eq_none (h : e.claim? s = none) :
    s.ledger.claim? e.key e.generation = none :=
  Option.map_eq_none_iff.mp h

/-- A settled answer is reported, or it is dropped for one of three reasons. -/
theorem advance_settle {answer : Except Problem Judgement} {fanOut : List String}
    (hstage : e.stage = .settled answer fanOut) : e.Advance u s (e.settle u s fanOut answer) := by
  unfold settle
  split
  · split
    · rename_i hstopped
      exact .abandon hstage (.inl ⟨hstopped, _, rfl⟩)
    · rename_i hwanted
      have hwanted : e.stopped s = false := by simpa using hwanted
      cases hclaim : e.claim? s with
      | some next =>
        obtain ⟨ledger, hnewest, rfl⟩ := claim?_eq_some hclaim
        exact .report hstage hwanted hnewest
      | none => exact .outdated hstage hwanted (claim?_eq_none hclaim)
  · exact .abandon hstage (.inr rfl)
  · rename_i hfailed
    exact .fail hstage hfailed

theorem advance_of_step? (hs : e.step? u s = some s') : e.Advance u s s' := by
  cases hstage : e.stage with
  | asked =>
    simp only [step?, hstage, Option.some.injEq] at hs
    subst hs
    split
    · rename_i hstopped
      exact .discard (.inl hstage) (.inl hstopped)
    · rename_i hwanted
      exact .arm hstage (by simpa using hwanted)
  | armed due =>
    simp only [step?, hstage] at hs
    split at hs
    · rename_i hstopped
      cases hs
      exact .discard (.inr ⟨due, hstage⟩) (.inl hstopped)
    · rename_i hwanted
      split at hs
      · rename_i hrested
        cases hs
        unfold rise
        split
        · rename_i hnewest
          exact .begin hstage (by simpa using hwanted) hrested hnewest
        · rename_i hnone
          exact .discard (.inr ⟨due, hstage⟩) (.inr hnone)
      · cases hs
  | entering fanOut =>
    simp only [step?, hstage, Option.some.injEq] at hs
    subst hs
    split
    · rename_i hstopped
      exact .giveUp (.entering hstage) (.inl hstopped)
    · split
      · rename_i hjoin
        exact .start (.free hstage hjoin)
      · rename_i hjoin
        exact .queue hstage hjoin
      · rename_i hjoin
        refine .giveUp (.entering hstage) (.inr ?_)
        by_contra hopen
        exact s.limiter.join_open (by simpa using hopen) (by rw [hjoin])
  | inLine ticket fanOut =>
    simp only [step?, hstage] at hs
    split at hs
    · rename_i hstopped
      cases hs
      exact .giveUp (.inLine hstage) (.inl hstopped)
    · split at hs
      · rename_i hslot
        cases hs
        exact .start (.given hstage hslot)
      · cases hs
      · rename_i hclosed
        cases hs
        refine .giveUp (.inLine hstage) (.inr ?_)
        by_contra hopen
        exact s.limiter.attempt_open ticket (by simpa using hopen) hclosed
  | running work fanOut =>
    simp only [step?, hstage, Option.map_eq_some_iff] at hs
    obtain ⟨step, hstep, rfl⟩ := hs
    cases step with
    | goesOn events next => exact .work hstage hstep
    | ends answer => exact .stop hstage hstep
  | settled answer fanOut =>
    simp only [step?, hstage, Option.some.injEq] at hs
    exact hs ▸ advance_settle hstage
  | spreading keys =>
    cases keys with
    | nil =>
      simp only [step?, hstage, Option.some.injEq] at hs
      exact hs ▸ .finish hstage
    | cons key keys =>
      simp only [step?, hstage, Option.some.injEq] at hs
      exact hs ▸ .ask hstage

/-- An evaluation that has other cells left to ask for asks for the next one. -/
theorem Advance.eq_of_spreading {key : CellKey} {keys : List CellKey}
    (hstage : e.stage = .spreading (key :: keys)) (h : e.Advance u s s') :
    s' = (s.schedule u key []).setStage e (.spreading keys) := by
  cases h with
  | ask h =>
    cases hstage.symm.trans h
    rfl
  | arm h | begin h | queue h | work h | stop h | report h | outdated h | abandon h | fail h
  | finish h => cases hstage.symm.trans h
  | discard h => rcases h with h | ⟨due, h⟩ <;> cases hstage.symm.trans h
  | start hgets => rcases hgets.stage with h | ⟨ticket, h⟩ <;> cases hstage.symm.trans h
  | giveUp hleaves => rcases hleaves.stage with h | ⟨ticket, h⟩ <;> cases hstage.symm.trans h

end Evaluation

/-! ## Calls -/

namespace Call

variable {c : Call}

/-- Where a call may lead, or a strand of its pool. -/
inductive Advance (u : Setup) (s : State) (c : Call) : State → Prop
  | told {edited : String} (stage : c.stage = .editing edited [] none) :
      Advance u s c (goTo s c (.edited (.ok ())))
  | ask {edited : String} {job : Job} {todo : List Job}
      (background : u.ruleSet.throttle.background = true)
      (stage : c.stage = .editing edited (job :: todo) none) :
      Advance u s c (goTo (s.schedule u job.key [edited]) c (.editing edited todo none))
  | take {edited : String} {job : Job} {todo : List Job}
      (atOnce : u.ruleSet.throttle.background = false)
      (stage : c.stage = .editing edited (job :: todo) none) :
      Advance u s c (begin u s c edited job todo)
  | work {edited : String} {todo : List Job} {job : Job} {work next : Running Judgement}
      {events : List Event} (stage : c.stage = .editing edited todo (some (job, work)))
      (step : work.step? s.now s.closed = some (.goesOn events next)) :
      Advance u s c (goTo (s.write events) c (.editing edited todo (some (job, next))))
  | spread {edited : String} {todo : List Job} {job : Job} {work : Running Judgement}
      {report : CellReport} {rows : Dataset}
      (stage : c.stage = .editing edited todo (some (job, work)))
      (step : work.step? s.now s.closed = some (.ends (.ok (report, rows))))
      (spreads : job.spreads = true) :
      Advance u s c (goTo ((s.deliver u report).notePeers u job.key [edited] rows) c
        (.editing edited ((((s.deliver u report).peers u job.key [edited] rows).map
          fun key => ⟨key, false⟩) ++ todo) none))
  | report {edited : String} {todo : List Job} {job : Job} {work : Running Judgement}
      {report : CellReport} {rows : Dataset}
      (stage : c.stage = .editing edited todo (some (job, work)))
      (step : work.step? s.now s.closed = some (.ends (.ok (report, rows))))
      (last : job.spreads = false) :
      Advance u s c (goTo (s.deliver u report) c (.editing edited todo none))
  | abandon {edited : String} {todo : List Job} {job : Job} {work : Running Judgement}
      (stage : c.stage = .editing edited todo (some (job, work)))
      (step : work.step? s.now s.closed = some (.ends (.error .cancelled))) :
      Advance u s c (goTo (s.abandoned u job.key) c (.editing edited todo none))
  | fail {edited : String} {todo : List Job} {job : Job} {work : Running Judgement} {p : Problem}
      (stage : c.stage = .editing edited todo (some (job, work)))
      (step : work.step? s.now s.closed = some (.ends (.error p))) (failed : p ≠ .cancelled) :
      Advance u s c (goTo (s.failed u job.key p) c (.edited (.error p)))
  | survey (stage : c.stage = .called) (isOpen : s.closed = false) :
      Advance u s c (goTo s c (.surveying (.working (u.ruleSet.survey (s.source u)))))
  | look {work next : Running RuleSet.Survey} {events : List Event}
      (stage : c.stage = .surveying work)
      (step : work.step? s.now s.closed = some (.goesOn events next)) :
      Advance u s c (goTo (s.write events) c (.surveying next))
  | found {work : Running RuleSet.Survey} {v : RuleSet.Survey} (stage : c.stage = .surveying work)
      (step : work.step? s.now s.closed = some (.ends (.ok v))) :
      Advance u s c (goTo s c (.judging (poolFor u v)))
  | strand {pool next : Pool (List CellReport)} {id : Nat} {limiter : Limiter}
      {events : List Event} (stage : c.stage = .judging pool)
      (step : pool.step? s.now s.closed s.limiter id = some (next, limiter, events)) :
      Advance u s c (goTo (({ s with limiter } : State).write events) c (.judging next))
  | judged {pool : Pool (List CellReport)} {batches : List (List CellReport)}
      (stage : c.stage = .judging pool) (result : pool.result? = some (.ok batches)) :
      Advance u s c (goTo s c (.delivering (RuleSet.gather batches) (RuleSet.gather batches)))
  | deliver {cell : CellReport} {todo cells : List CellReport}
      (stage : c.stage = .delivering (cell :: todo) cells) :
      Advance u s c (goTo (s.deliver u cell) c (.delivering todo cells))
  | conclude {cells : List CellReport} (stage : c.stage = .delivering [] cells) :
      Advance u s c (conclude u s c cells)
  | refuse {p : Problem}
      (why : (c.stage = .called ∧ s.closed = true ∧ p = .schedulerClosed) ∨
        (∃ work, c.stage = .surveying work ∧
          work.step? s.now s.closed = some (.ends (.error p))) ∨
        ∃ pool, c.stage = .judging pool ∧ pool.result? = some (.error p)) :
      Advance u s c (goTo s c (.reported (.error p)))

/-- A judged cell is reported, perhaps with others to judge after it, or it is not judged to the
end. -/
theorem advance_settle {edited : String} {todo : List Job} {job : Job} {work : Running Judgement}
    {answer : Except Problem Judgement} (hstage : c.stage = .editing edited todo (some (job, work)))
    (hstep : work.step? s.now s.closed = some (.ends answer)) :
    c.Advance u s (settle u s c edited job todo answer) := by
  unfold settle
  split
  · dsimp only
    split
    · rename_i hspreads
      exact .spread hstage hstep hspreads
    · rename_i hlast
      exact .report hstage hstep (by simpa using hlast)
  · exact .abandon hstage hstep
  · rename_i hfailed
    exact .fail hstage hstep hfailed

theorem advance_of_step? (hs : c.step? u s = some s') : c.Advance u s s' := by
  cases hstage : c.stage with
  | editing edited todo current =>
    cases current with
    | none =>
      cases todo with
      | nil =>
        simp only [step?, hstage, Option.some.injEq] at hs
        exact hs ▸ .told hstage
      | cons job todo =>
        simp only [step?, hstage, Option.some.injEq] at hs
        subst hs
        split
        · rename_i background
          exact .ask background hstage
        · rename_i atOnce
          exact .take (by simpa using atOnce) hstage
    | some current =>
      obtain ⟨job, work⟩ := current
      simp only [step?, hstage, Option.map_eq_some_iff] at hs
      obtain ⟨step, hstep, rfl⟩ := hs
      cases step with
      | goesOn events next => exact .work hstage hstep
      | ends answer => exact advance_settle hstage hstep
  | edited answer => simp [step?, hstage] at hs
  | called =>
    simp only [step?, hstage, Option.some.injEq] at hs
    subst hs
    split
    · rename_i hclosed
      exact .refuse (.inl ⟨hstage, hclosed, rfl⟩)
    · rename_i hopen
      exact .survey hstage (by simpa using hopen)
  | surveying work =>
    simp only [step?, hstage, Option.map_eq_some_iff] at hs
    obtain ⟨step, hstep, rfl⟩ := hs
    cases step with
    | goesOn events next => exact .look hstage hstep
    | ends answer =>
      cases answer with
      | ok v => exact .found hstage hstep
      | error p => exact .refuse (.inr (.inl ⟨work, hstage, hstep⟩))
  | judging pool =>
    simp only [step?, hstage, Option.map_eq_some_iff] at hs
    obtain ⟨result, hresult, rfl⟩ := hs
    cases result with
    | ok batches => exact .judged hstage hresult
    | error p => exact .refuse (.inr (.inr ⟨pool, hstage, hresult⟩))
  | delivering todo cells =>
    cases todo with
    | nil =>
      simp only [step?, hstage, Option.some.injEq] at hs
      exact hs ▸ .conclude hstage
    | cons cell todo =>
      simp only [step?, hstage, Option.some.injEq] at hs
      exact hs ▸ .deliver hstage
  | reported answer => simp [step?, hstage] at hs

theorem stage_of_pool? {pool : Pool (List CellReport)} (h : c.pool? = some pool) :
    c.stage = .judging pool := by
  unfold pool? at h
  split at h
  · rename_i hstage
    rw [hstage, Option.some.inj h]
  · cases h

/-- A strand works on its pool. -/
theorem stepStrand?_eq_some {strand : Nat} (hs : c.stepStrand? s strand = some s') :
    ∃ pool next limiter events, c.stage = .judging pool ∧
      pool.step? s.now s.closed s.limiter strand = some (next, limiter, events) ∧
      s' = goTo (({ s with limiter } : State).write events) c (.judging next) := by
  obtain ⟨pool, hpool, hs⟩ := Option.bind_eq_some_iff.mp hs
  obtain ⟨⟨next, limiter, events⟩, hstep, rfl⟩ := Option.map_eq_some_iff.mp hs
  exact ⟨pool, next, limiter, events, stage_of_pool? hpool, hstep, rfl⟩

end Call

/-! ## Who it is -/

namespace State

variable {e : Evaluation} {c : Call} {id generation : Nat}

theorem generation_of_evaluation? (h : s.evaluation? generation = some e) :
    e.generation = generation := by
  simpa using List.find?_some h

theorem mem_of_evaluation? (h : s.evaluation? generation = some e) : e ∈ s.evaluations :=
  List.mem_of_find?_eq_some h

theorem id_of_call? (h : s.call? id = some c) : c.id = id := by
  simpa using List.find?_some h

theorem mem_of_call? (h : s.call? id = some c) : c ∈ s.calls :=
  List.mem_of_find?_eq_some h

/-- An evaluation that takes a step is one of the watch. -/
theorem evaluation_of_step? (hs : s.step? u (.evaluation generation) = some s') :
    ∃ e, e.generation = generation ∧ s.evaluation? e.generation = some e ∧ e.Advance u s s' := by
  obtain ⟨e, he, hstep⟩ := Option.bind_eq_some_iff.mp hs
  obtain rfl := generation_of_evaluation? he
  exact ⟨e, rfl, he, e.advance_of_step? hstep⟩

theorem evaluation_of_takeSlot? (hm : s.move? u (.takeSlot generation) = some s') :
    ∃ e, e.generation = generation ∧ s.evaluation? e.generation = some e ∧ e.Advance u s s' := by
  obtain ⟨e, he, hslot⟩ := Option.bind_eq_some_iff.mp hm
  obtain rfl := generation_of_evaluation? he
  exact ⟨e, rfl, he, e.advance_of_takeSlot? hslot⟩

/-- A call that takes a step is one of the watch. -/
theorem call_of_step? (hs : s.step? u (.call id) = some s') :
    ∃ c, c.id = id ∧ s.call? c.id = some c ∧ c.Advance u s s' := by
  obtain ⟨c, hc, hstep⟩ := Option.bind_eq_some_iff.mp hs
  obtain rfl := id_of_call? hc
  exact ⟨c, rfl, hc, c.advance_of_step? hstep⟩

theorem call_of_strand? {strand : Nat} (hs : s.step? u (.strand id strand) = some s') :
    ∃ c, c.id = id ∧ s.call? c.id = some c ∧ ∃ pool next limiter events,
      c.stage = .judging pool ∧
      pool.step? s.now s.closed s.limiter strand = some (next, limiter, events) ∧
      s' = Call.goTo (({ s with limiter } : State).write events) c (.judging next) := by
  obtain ⟨c, hc, hstep⟩ := Option.bind_eq_some_iff.mp hs
  obtain rfl := id_of_call? hc
  exact ⟨c, rfl, hc, c.stepStrand?_eq_some hstep⟩

/-- An evaluation or a call of the watch goes on. -/
def Advances (u : Setup) (s s' : State) : Prop :=
  (∃ e, s.evaluation? e.generation = some e ∧ e.Advance u s s') ∨
    ∃ c, s.call? c.id = some c ∧ c.Advance u s s'

theorem advances_of_step? {task : Task} (hs : s.step? u task = some s') : s.Advances u s' := by
  cases task with
  | evaluation generation =>
    obtain ⟨e, -, he, hadvance⟩ := evaluation_of_step? hs
    exact .inl ⟨e, he, hadvance⟩
  | call id =>
    obtain ⟨c, -, hc, hadvance⟩ := call_of_step? hs
    exact .inr ⟨c, hc, hadvance⟩
  | strand id strand =>
    obtain ⟨c, -, hc, pool, next, limiter, events, hstage, hstep, rfl⟩ := call_of_strand? hs
    exact .inr ⟨c, hc, .strand hstage hstep⟩

theorem advances_of_takeSlot? (hm : s.move? u (.takeSlot generation) = some s') :
    s.Advances u s' := by
  obtain ⟨e, -, he, hadvance⟩ := evaluation_of_takeSlot? hm
  exact .inl ⟨e, he, hadvance⟩

end State

end CellRules.Watch
