/-
CellRules.Proofs.Watch.Threads.Turns — what a turn leads to.

`Threads.Effect u t x t'` lists what a turn from `t` to `t'` can do that shows `x`, and `effect_of_turn?`
reads the list off `Threads.turn?` ONCE. A step that an evaluation takes whole is one of `Stride`,
which holds whether the watch is open or closed; told to stop or not, an evaluation may heed its
alarm.
-/
import CellRules.Proofs.Watch.Standing
import CellRules.Proofs.Watch.Threads.History

namespace CellRules.Watch

variable {u : Setup}

/-! ## Where tasks stand -/

namespace Threads

variable {t : Threads} {task other : Task} {p : Position}

@[simp] theorem state_withState (t : Threads) (s : State) : (t.withState s).state = s := rfl

@[simp] theorem midway_withState (t : Threads) (s : State) :
    (t.withState s).midway = t.midway := rfl

@[simp] theorem closers_withState (t : Threads) (s : State) :
    (t.withState s).closers = t.closers := rfl

@[simp] theorem state_leave : (t.leave task).state = t.state := rfl

@[simp] theorem state_stand : (t.stand task p).state = t.state := rfl

@[simp] theorem position?_withState (s : State) :
    (t.withState s).position? task = t.position? task := rfl

@[simp] theorem position?_leave_self : (t.leave task).position? task = none := by
  simp [position?, leave, List.find?_filter]

theorem position?_leave_of_ne (h : other ≠ task) :
    (t.leave task).position? other = t.position? other := by
  have hsame : (fun x : Task × Position => decide (x.1 != task ∧ x.1 == other))
      = fun x => x.1 == other := by
    funext x
    by_cases hx : x.1 = other <;> simp [hx, h]
  rw [position?, leave, position?, List.find?_filter]
  simp only [hsame]

@[simp] theorem position?_stand_self : (t.stand task p).position? task = some p := by
  simp [position?, stand]

theorem position?_stand_of_ne (h : other ≠ task) :
    (t.stand task p).position? other = t.position? other := by
  have hhead : (t.stand task p).position? other = (t.leave task).position? other := by
    simp [position?, stand, Ne.symm h]
  rw [hhead, position?_leave_of_ne h]

/-- Whoever stands somewhere after a task took its stand is that task, or stood there before. -/
theorem position_of_stand {after : Position} (h : (t.stand task p).position? other = some after) :
    (other = task ∧ after = p) ∨ (other ≠ task ∧ t.position? other = some after) := by
  by_cases hne : other = task
  · subst hne
    exact .inl ⟨rfl, Option.some.inj (h.symm.trans position?_stand_self)⟩
  · exact .inr ⟨hne, (position?_stand_of_ne hne).symm.trans h⟩

/-- Whoever stands somewhere after a task came to the end of its step stood there before. -/
theorem position_of_leave {after : Position} (h : (t.leave task).position? other = some after) :
    other ≠ task ∧ t.position? other = some after := by
  by_cases hne : other = task
  · subst hne
    cases position?_leave_self.symm.trans h
  · exact ⟨hne, (position?_leave_of_ne hne).symm.trans h⟩

end Threads

/-! ## Steps that are taken whole -/

/-- What a step does that an evaluation takes whole. -/
inductive Stride (u : Setup) (s : State) (e : Evaluation) : Option Happening → State → Prop
  | arms {due : Nat} {s' : State} (stage : e.stage = .asked)
      (state : s'.Alike (s.setStage e (.armed due))) : Stride u s e none s'
  | begins {fanOut : List String} {ledger : Ledger} {s' : State} (waits : e.stage.begun = false)
      (newest : s.ledger.begin? e.key e.generation = some (fanOut, ledger))
      (state : s'.Alike (({ s with ledger } : State).setStage e (.entering fanOut))) :
      Stride u s e (some (.began e.key e.generation fanOut)) s'
  | drops {s' : State} (waits : e.stage.begun = false)
      (why : e.stopped s = true ∨ s.ledger.begin? e.key e.generation = none)
      (state : s'.Alike (s.dropEvaluation e)) : Stride u s e none s'
  | queues {fanOut : List String} {ticket : Ticket} {s' : State}
      (stage : e.stage = .entering fanOut)
      (state : s'.Alike (s.setStage e (.inLine ticket fanOut))) : Stride u s e none s'
  | reads {fanOut : List String} {s' : State}
      (stage : e.stage = .entering fanOut ∨ ∃ ticket, e.stage = .inLine ticket fanOut)
      (state : s'.Alike (s.setStage e (.running (.working (s.judging u e.key)) fanOut))) :
      Stride u s e (some (.read (.evaluation e.generation) e.key)) s'
  | givesUp {fanOut : List String} {s' : State}
      (stage : e.stage = .entering fanOut ∨ ∃ ticket, e.stage = .inLine ticket fanOut)
      (why : e.stopped s = true ∨ s.limiter.closed = true)
      (state : s'.Alike
        { s.dropEvaluation e with ledger := s.ledger.finish e.key e.generation }) :
      Stride u s e (some (.dropped (.evaluation e.generation) e.key)) s'
  | goesOn {work next : Running Judgement} {fanOut : List String} {s' : State}
      (stage : e.stage = .running work fanOut) (kept : next.rest.answer = work.rest.answer)
      (state : s'.Alike (s.setStage e (.running next fanOut))) : Stride u s e none s'
  | ends {work : Running Judgement} {answer : Except Problem Judgement} {fanOut : List String}
      {s' : State} (stage : e.stage = .running work fanOut)
      (kept : answer = work.rest.answer ∨ answer = .error .cancelled)
      (state : s'.Alike (s.setStage e (.settled answer fanOut))) : Stride u s e none s'
  | abandons {answer : Except Problem Judgement} {fanOut : List String} {s' : State}
      (stage : e.stage = .settled answer fanOut) (stopped : e.stopped s = true)
      (state : s'.Alike (s.setStage e (.spreading []))) :
      Stride u s e (some (.dropped (.evaluation e.generation) e.key)) s'
  | fails {p : Problem} {fanOut : List String} {s' : State}
      (stage : e.stage = .settled (.error p) fanOut)
      (state : s'.Alike (s.setStage e (.spreading []))) :
      Stride u s e (some (.failed (.evaluation e.generation) e.key p)) s'
  | skips {key : CellKey} {keys : List CellKey} {s' : State}
      (stage : e.stage = .spreading (key :: keys)) (closed : s.closed = true)
      (state : s'.Alike (s.setStage e (.spreading keys))) : Stride u s e none s'
  | finishes {s' : State} (stage : e.stage = .spreading [])
      (state : s'.Alike
        { s.dropEvaluation e with ledger := s.ledger.finish e.key e.generation }) :
      Stride u s e none s'

namespace Evaluation

variable {s s' : State} {e : Evaluation}

/-- Where the answer is a problem, the evaluation fails, or nobody waits for the answer any more. -/
theorem stride_error {p : Problem} {fanOut : List String} {t : State}
    (hstage : e.stage = .settled (.error p) fanOut) (ht : t.Alike (s.setStage e (.spreading []))) :
    Stride u s e (e.seen s t) t := by
  have hquiet : s.newDelivery? t = none := State.newDelivery?_same ht.deliveries
  cases hstopped : e.stopped s with
  | true =>
    simp only [seen, hstage, hquiet, hstopped, if_true]
    exact .abandons hstage hstopped ht
  | false =>
    simp only [seen, hstage, hquiet, hstopped, Bool.false_eq_true, if_false]
    exact .fails hstage ht

/-- A step that is taken whole is a stride. -/
theorem Advance.stride (he : s.evaluation? e.generation = some e) (hwhole : e.open? s = none)
    (h : e.Advance u s s') : Stride u s e (e.seen s s') s' := by
  cases h with
  | arm hstage =>
    simp only [seen, hstage]
    exact .arms hstage (.refl _)
  | discard hstage hwhy =>
    have hseen : e.seen s (s.dropEvaluation e) = none := by
      rcases hstage with h | ⟨due, h⟩ <;> simp [seen, h, State.stageOf?_dropEvaluation]
    rw [hseen]
    refine .drops ?_ hwhy (.refl _)
    rcases hstage with h | ⟨due, h⟩ <;> (rw [h]; rfl)
  | @begin due fanOut ledger hstage hwanted hrested hnewest =>
    have hafter : (({ s with ledger } : State).setStage e (.entering fanOut)).stageOf? e.generation
        = some (.entering fanOut) := State.stageOf?_setStage (s := { s with ledger }) he
    simp only [seen, hstage, hafter]
    exact .begins (by rw [hstage]; rfl) hnewest (.refl _)
  | @queue fanOut ticket limiter hstage hjoin =>
    have hkeep := s.limiter.closed_join
    rw [hjoin] at hkeep
    have hafter : (({ s with limiter } : State).setStage e (.inLine ticket fanOut)).stageOf?
        e.generation = some (.inLine ticket fanOut) :=
      State.stageOf?_setStage (s := { s with limiter }) he
    simp only [seen, hstage, hafter]
    exact .queues hstage (State.Alike.setStage (s.alike_limiter hkeep) e _)
  | start hgets =>
    rw [seen_start he hgets]
    exact .reads hgets.stage (State.Alike.setStage (s.alike_limiter hgets.closed_eq) e _)
  | giveUp hleaves hwhy =>
    obtain ⟨halike, hseen⟩ := seen_giveUp (u := u) hleaves
    rw [hseen]
    exact .givesUp hleaves.stage hwhy halike
  | @work work next events _ hstage hstep =>
    simp only [seen, hstage]
    exact .goesOn hstage (work.answer_of_goesOn hstep)
      (State.Alike.setStage (s.alike_write events) e _)
  | @stop work _ _ hstage hstep =>
    simp only [seen, hstage]
    exact .ends hstage (Running.answer_or_cancelled hstep)
      (State.Alike.setStage (s.alike_limiter s.limiter.closed_release) e _)
  | report hstage hwanted | outdated hstage hwanted => simp [open?, hstage, hwanted] at hwhole
  | abandon hstage hwhy =>
    have habandoned := State.Alike.setStage (s.alike_abandoned u e.key) e (.spreading [])
    rcases hwhy with ⟨hstopped, judgement, rfl⟩ | rfl
    · have hquiet := State.newDelivery?_same (s := s) habandoned.deliveries
      simp only [seen, hstage, hquiet]
      exact .abandons hstage hstopped habandoned
    · exact stride_error hstage habandoned
  | @fail p _ hstage =>
    exact stride_error hstage (State.Alike.setStage (s.alike_failed u e.key p) e _)
  | @ask key keys hstage =>
    cases hclosed : s.closed with
    | false => simp [open?, hstage, hclosed] at hwhole
    | true =>
      rw [State.schedule, if_pos hclosed]
      have hsame : (s.setStage e (.spreading keys)).nextGeneration = s.nextGeneration := rfl
      simp only [seen, hstage, hsame, Nat.lt_irrefl, if_false]
      exact .skips hstage hclosed (.refl _)
  | finish hstage =>
    simp only [seen, hstage]
    exact .finishes hstage (State.alike_finish _ _ _)

/-- So is heeding the alarm. -/
theorem stride_rise (he : s.evaluation? e.generation = some e) (hrings : e.rings u s = true) :
    Stride u s e (match (e.rise s).stageOf? e.generation with
      | some (.entering fanOut) => some (.began e.key e.generation fanOut)
      | _ => none) (e.rise s) := by
  have hwaits : e.stage.begun = false := by
    unfold rings at hrings
    split at hrings
    · rename_i h
      rw [h]
      rfl
    · rename_i h
      rw [h]
      rfl
    · cases hrings
  cases hnewest : s.ledger.begin? e.key e.generation with
  | some found =>
    obtain ⟨fanOut, ledger⟩ := found
    have hrise : e.rise s = ({ s with ledger } : State).setStage e (.entering fanOut) := by
      simp [rise, hnewest]
    have hafter : (({ s with ledger } : State).setStage e (.entering fanOut)).stageOf? e.generation
        = some (.entering fanOut) := State.stageOf?_setStage (s := { s with ledger }) he
    rw [hrise, hafter]
    exact .begins hwaits hnewest (.refl _)
  | none =>
    have hrise : e.rise s = s.dropEvaluation e := by simp [rise, hnewest]
    rw [hrise, State.stageOf?_dropEvaluation]
    exact .drops hwaits (.inr hnewest) (.refl _)

end Evaluation

/-! ## Pieces of steps -/

/-- The first piece of a step that a call takes in pieces. -/
inductive Call.Opens (u : Setup) (s : State) (c : Call) : State → Position → Prop
  | asks {edited : String} {job : Job} {todo : List Job}
      (background : u.ruleSet.throttle.background = true) (isOpen : s.closed = false)
      (stage : c.stage = .editing edited (job :: todo) none) :
      Opens u s c (goTo s c (.editing edited todo none)) (.asks job.key [edited])
  | judged {edited : String} {todo : List Job} {job : Job} {work : Running Judgement}
      {report : CellReport} {rows : Dataset}
      (stage : c.stage = .editing edited todo (some (job, work)))
      (step : work.step? s.now s.closed = some (.ends (.ok (report, rows)))) :
      Opens u s c (goTo (s.hand report) c (.editing edited todo none))
        (.handed job.key report (if job.spreads then some ⟨job.key, [edited], rows⟩ else none))
  | looks (stage : c.stage = .called) (isOpen : s.closed = false) : Opens u s c s .looks
  | delivers {cell : CellReport} {todo cells : List CellReport}
      (stage : c.stage = .delivering (cell :: todo) cells) :
      Opens u s c (goTo (s.hand cell) c (.delivering todo cells))
        (.handed ⟨cell.row, cell.column⟩ cell none)

theorem Call.opens_of_open? {s s' : State} {c : Call} {p : Position}
    (h : c.open? u s = some (s', p)) : c.Opens u s s' p := by
  unfold open? at h
  split at h
  · rename_i hstage
    split at h
    · rename_i hwhy
      simp only [Bool.and_eq_true, Bool.not_eq_true'] at hwhy
      obtain ⟨rfl, rfl⟩ := Prod.mk.inj (Option.some.inj h)
      exact .asks hwhy.1 hwhy.2 hstage
    · cases h
  · rename_i hstage
    split at h
    · rename_i hstep
      obtain ⟨rfl, rfl⟩ := Prod.mk.inj (Option.some.inj h)
      exact .judged hstage hstep
    · cases h
  · rename_i hstage
    split at h
    · cases h
    · rename_i hopen
      obtain ⟨rfl, rfl⟩ := Prod.mk.inj (Option.some.inj h)
      exact .looks hstage (by simpa using hopen)
  · rename_i hstage
    obtain ⟨rfl, rfl⟩ := Prod.mk.inj (Option.some.inj h)
    exact .delivers hstage
  · cases h

/-- Those who follow a reported cell are left to the evaluation or the call that reported it. -/
inductive State.Follows (s : State) : Task → State → Prop
  | evaluation {e : Evaluation} {keys : List CellKey} {s' : State}
      (known : s.evaluation? e.generation = some e)
      (state : s'.Alike (s.setStage e (.spreading keys))) : Follows s (.evaluation e.generation) s'
  | call {c : Call} {edited : String} {todo found : List Job}
      {current : Option (Job × Running Judgement)} {s' : State} (known : s.call? c.id = some c)
      (stage : c.stage = .editing edited todo current)
      (state : s'.Alike (Call.goTo s c (.editing edited (found ++ todo) current))) :
      Follows s (.call c.id) s'
  | none {task : Task} : Follows s task s

theorem State.follows (u : Setup) (s : State) (next : Following) (task : Task) :
    s.Follows task (s.follow u next task) := by
  cases task with
  | evaluation generation =>
    simp only [follow]
    split
    · rename_i e he
      obtain rfl := generation_of_evaluation? he
      exact .evaluation he (Alike.setStage (alike_notePeers u s _ _ _) e _)
    · exact .none
  | call id =>
    simp only [follow]
    split
    · rename_i c hc
      obtain rfl := id_of_call? hc
      split
      · rename_i hstage
        exact .call hc hstage (Alike.goTo (alike_notePeers u s _ _ _) c _)
      · exact .none
    · exact .none
  | strand id strand => exact .none

/-! ## Turns -/

/-- What comes from outside, apart from closing the watch. -/
def Move.outer : Move → Bool
  | .setCell _ _ _ | .pushRow _ | .edit _ _ | .validateAll | .pass _ => true
  | .shutDown | .step _ | .takeSlot _ => false

namespace Threads

/-- What a turn can do. -/
inductive Effect (u : Setup) (t : Threads) : Option Happening → Threads → Prop
  | strides {e : Evaluation} {x : Option Happening} {s' : State}
      (known : t.state.evaluation? e.generation = some e)
      (free : t.position? (.evaluation e.generation) = none) (stride : Stride u t.state e x s') :
      Effect u t x (t.withState s')
  | spreads {e : Evaluation} {key : CellKey} {keys : List CellKey}
      (known : t.state.evaluation? e.generation = some e)
      (free : t.position? (.evaluation e.generation) = none)
      (stage : e.stage = .spreading (key :: keys)) (opened : t.state.closed = false) :
      Effect u t none ((t.stand (.evaluation e.generation) (.asks key [])).withState
        (t.state.setStage e (.spreading keys)))
  | admits {e : Evaluation} {report : CellReport} {rows : Dataset} {fanOut : List String}
      (known : t.state.evaluation? e.generation = some e)
      (free : t.position? (.evaluation e.generation) = none)
      (stage : e.stage = .settled (.ok (report, rows)) fanOut)
      (wanted : e.stopped t.state = false) :
      Effect u t none ((t.stand (.evaluation e.generation)
        (.admitted report ⟨e.key, fanOut, rows⟩)).withState (t.state.setStage e (.spreading [])))
  | opens {c : Call} {s : State} {p : Position} (known : t.state.call? c.id = some c)
      (free : t.position? (.call c.id) = none) (first : c.Opens u t.state s p) :
      Effect u t (p.opening (.call c.id)) ((t.stand (.call c.id) p).withState s)
  | draws {task : Task} {key : CellKey} {fanOut : List String}
      (stands : t.position? task = some (.asks key fanOut)) :
      Effect u t none ((t.stand task (.drawn key fanOut t.state.nextGeneration)).withState
        t.state.draw)
  | enters {task : Task} {key : CellKey} {fanOut : List String} {generation : Nat}
      (stands : t.position? task = some (.drawn key fanOut generation)) :
      Effect u t (some (.asked task key generation fanOut))
        ((t.stand task (.entered key generation (t.state.ledger.current? key) false)).withState
          (t.state.enter key generation fanOut))
  | launches {task : Task} {key : CellKey} {generation : Nat} {previous : Option Request}
      {told : Bool} (stands : t.position? task = some (.entered key generation previous told)) :
      Effect u t none ((t.leave task).launch u key generation previous told)
  | claims {e : Evaluation} {report : CellReport} {next : Following} {ledger : Ledger}
      (known : t.state.evaluation? e.generation = some e)
      (stands : t.position? (.evaluation e.generation) = some (.admitted report next))
      (unlocked : t.locked = false)
      (newest : t.state.ledger.claim? e.key e.generation = some ledger) :
      Effect u t none ((t.stand (.evaluation e.generation) (.claimed report next)).withState
        { t.state with ledger })
  | outdone {e : Evaluation} {report : CellReport} {next : Following}
      (known : t.state.evaluation? e.generation = some e)
      (stands : t.position? (.evaluation e.generation) = some (.admitted report next))
      (unlocked : t.locked = false) (older : t.state.ledger.claim? e.key e.generation = none) :
      Effect u t (some (.dropped (.evaluation e.generation) next.key))
        ((t.leave (.evaluation e.generation)).withState (e.leaveOut u t.state))
  | hands {task : Task} {report : CellReport} {next : Following}
      (stands : t.position? task = some (.claimed report next)) :
      Effect u t (some (.reported task next.key report.verdict))
        ((t.stand task (.handed next.key report (some next))).withState (t.state.hand report))
  | records {task : Task} {key : CellKey} {report : CellReport} {next : Following}
      (stands : t.position? task = some (.handed key report (some next))) :
      Effect u t none ((t.stand task (.recorded next)).withState (t.state.record u report))
  | concludes {task : Task} {key : CellKey} {report : CellReport}
      (stands : t.position? task = some (.handed key report none)) :
      Effect u t none ((t.leave task).withState (t.state.record u report))
  | follows {task : Task} {next : Following} (stands : t.position? task = some (.recorded next)) :
      Effect u t none ((t.leave task).withState (t.state.follow u next task))
  | looks {c : Call} (known : t.state.call? c.id = some c)
      (stands : t.position? (.call c.id) = some .looks) :
      Effect u t (some (.surveyed c.id)) ((t.leave (.call c.id)).withState <|
        Call.goTo t.state c (.surveying (.working (u.ruleSet.survey (t.state.source u)))))
  | calls {c : Call} {x : Option Happening} {s' : State} (known : t.state.call? c.id = some c)
      (free : t.position? (.call c.id) = none ∨ ∃ pool, c.stage = .judging pool)
      (whole : c.open? u t.state = none) (seen : x = none ∨ x = c.seen t.state s')
      (advance : c.Advance u t.state s') : Effect u t x (t.withState s')
  | outside {m : Move} {s' : State} (outer : m.outer = true) (move : t.state.move? u m = some s') :
      Effect u t (CellRules.Watch.seen t.state m s') (t.withState s')
  | tellsAll :
      Effect u t (some .closed) { t with state := t.state.tellAll, closers := t.closers ++ [.told] }
  | bars {closer : Nat} (told : t.closers[closer]? = some .told) :
      Effect u t none
        { t with state := t.state.barSlots, closers := t.closers.set closer .barred }
  | forgets {closer : Nat} (barred : t.closers[closer]? = some .barred) :
      Effect u t none { t with
        state := t.state.forget
        closers := t.closers.set closer (.forgot t.state.ledger.size) }
  | announces {closer abandoned : Nat} (forgot : t.closers[closer]? = some (.forgot abandoned)) :
      Effect u t none { t with
        state := t.state.announce u abandoned
        closers := t.closers.set closer .done }

variable {t t' : Threads} {task : Task} {turn : Turn} {x : Option Happening}

/-- A task that stands within a step takes its next piece. -/
theorem effect_of_goOn? {p : Position} (hp : t.position? task = some p)
    (hgo : t.goOn? u task p = some t') : Effect u t (p.seen task t') t' := by
  cases p with
  | asks key fanOut =>
    obtain rfl := Option.some.inj hgo
    exact .draws hp
  | drawn key fanOut generation =>
    obtain rfl := Option.some.inj hgo
    exact .enters hp
  | entered key generation previous told =>
    obtain rfl := Option.some.inj hgo
    exact .launches hp
  | admitted report next =>
    cases task with
    | evaluation generation =>
      simp only [goOn?] at hgo
      split at hgo
      · cases hgo
      rename_i hunlocked
      rw [Bool.not_eq_true] at hunlocked
      obtain ⟨e, he, rfl⟩ := Option.map_eq_some_iff.mp hgo
      obtain rfl := State.generation_of_evaluation? he
      cases hclaim : e.claim? t.state with
      | some s =>
        obtain ⟨ledger, hnewest, rfl⟩ := Evaluation.claim?_eq_some hclaim
        have hafter : t.claim u e report next
            = (t.stand (.evaluation e.generation) (.claimed report next)).withState
                { t.state with ledger } := by
          simp [claim, hclaim]
        rw [hafter]
        simp only [Position.seen, position?_withState, position?_stand_self]
        exact .claims he hp hunlocked hnewest
      | none =>
        have hafter : t.claim u e report next
            = (t.leave (.evaluation e.generation)).withState (e.leaveOut u t.state) := by
          simp [claim, hclaim]
        rw [hafter]
        simp only [Position.seen, position?_withState, position?_leave_self]
        exact .outdone he hp hunlocked (Evaluation.claim?_eq_none hclaim)
    | call id | strand id strand => cases hgo
  | claimed report next =>
    obtain rfl := Option.some.inj hgo
    exact .hands hp
  | handed key report next =>
    cases next with
    | some next =>
      obtain rfl := Option.some.inj hgo
      exact .records hp
    | none =>
      obtain rfl := Option.some.inj hgo
      exact .concludes hp
  | recorded next =>
    obtain rfl := Option.some.inj hgo
    exact .follows hp
  | looks =>
    cases task with
    | call id =>
      obtain ⟨c, hc, rfl⟩ := Option.map_eq_some_iff.mp hgo
      obtain rfl := State.id_of_call? hc
      exact .looks hc hp
    | evaluation generation | strand id strand => cases hgo

/-- A task takes the first piece of a step that is taken in pieces. -/
theorem effect_of_open? {s : State} {p : Position} (hfree : t.position? task = none)
    (hopen : t.state.open? u task = some (s, p)) :
    Effect u t (p.opening task) ((t.stand task p).withState s) := by
  cases task with
  | evaluation generation =>
    obtain ⟨e, he, hfirst⟩ := Option.bind_eq_some_iff.mp hopen
    obtain rfl := State.generation_of_evaluation? he
    unfold Evaluation.open? at hfirst
    split at hfirst
    · rename_i key keys hstage
      split at hfirst
      · cases hfirst
      rename_i hclosed
      obtain ⟨rfl, rfl⟩ := Prod.mk.inj (Option.some.inj hfirst)
      exact .spreads he hfree hstage (by simpa using hclosed)
    · rename_i report rows fanOut hstage
      split at hfirst
      · cases hfirst
      rename_i hstopped
      obtain ⟨rfl, rfl⟩ := Prod.mk.inj (Option.some.inj hfirst)
      exact .admits he hfree hstage (by simpa using hstopped)
    · cases hfirst
  | call id =>
    obtain ⟨c, hc, hfirst⟩ := Option.bind_eq_some_iff.mp hopen
    obtain rfl := State.id_of_call? hc
    exact .opens hc hfree (Call.opens_of_open? hfirst)
  | strand id strand => cases hopen

/-- A task takes a step that is taken whole. -/
theorem effect_of_whole {s' : State} (hfree : t.position? task = none)
    (hwhole : t.state.open? u task = none) (hstep : t.state.step? u task = some s') :
    Effect u t (CellRules.Watch.seen t.state (.step task) s') (t.withState s') := by
  cases task with
  | evaluation generation =>
    obtain ⟨e, rfl, he, hadvance⟩ := State.evaluation_of_step? hstep
    have hwhole : e.open? t.state = none := by simpa [State.open?, he] using hwhole
    simp only [CellRules.Watch.seen, he, Option.bind_some]
    exact .strides he hfree (hadvance.stride he hwhole)
  | call id =>
    obtain ⟨c, rfl, hc, hadvance⟩ := State.call_of_step? hstep
    have hwhole : c.open? u t.state = none := by simpa [State.open?, hc] using hwhole
    simp only [CellRules.Watch.seen, hc, Option.bind_some]
    exact .calls hc (.inl hfree) hwhole (.inr rfl) hadvance
  | strand id strand =>
    obtain ⟨c, rfl, hc, pool, next, limiter, events, hstage, hpool, rfl⟩ :=
      State.call_of_strand? hstep
    exact .calls hc (.inr ⟨pool, hstage⟩) (by simp [Call.open?, hstage]) (.inl rfl)
      (.strand hstage hpool)

theorem effect_of_outer {m : Move} (houter : m.outer = true)
    (hturn : t.turn? u (.move m) = some t') : Effect u t (t.seen (.move m) t') t' := by
  cases m with
  | shutDown | step task | takeSlot generation => cases houter
  | setCell row column cell | pushRow values | edit row column | validateAll | pass millis =>
    simp only [turn?, Option.map_eq_some_iff] at hturn
    obtain ⟨s', hm, rfl⟩ := hturn
    exact .outside rfl hm

/-- A turn does one of the things in `Effect`. -/
theorem effect_of_turn? (hturn : t.turn? u turn = some t') : Effect u t (t.seen turn t') t' := by
  cases turn with
  | move m =>
    cases m with
    | step task =>
      simp only [turn?, step?] at hturn
      cases hp : t.position? task with
      | some p =>
        rw [hp] at hturn
        simp only [seen, seenStep, hp]
        exact effect_of_goOn? hp hturn
      | none =>
        rw [hp] at hturn
        cases hopen : t.state.open? u task with
        | some first =>
          obtain ⟨s, p⟩ := first
          rw [hopen] at hturn
          obtain rfl := Option.some.inj hturn
          simp only [seen, seenStep, hp, position?_withState, position?_stand_self]
          exact effect_of_open? hp hopen
        | none =>
          rw [hopen] at hturn
          obtain ⟨s', hstep, rfl⟩ := Option.map_eq_some_iff.mp hturn
          simp only [seen, seenStep, hp, position?_withState]
          exact effect_of_whole hp hopen hstep
    | takeSlot generation =>
      simp only [turn?, takeSlot?] at hturn
      split at hturn
      · cases hturn
      rename_i hfree
      obtain ⟨s', hm, rfl⟩ := Option.map_eq_some_iff.mp hturn
      obtain ⟨e, he, hslot⟩ := Option.bind_eq_some_iff.mp hm
      obtain rfl := State.generation_of_evaluation? he
      obtain ⟨fanOut, limiter, hgets, rfl⟩ := e.takeSlot?_eq_some hslot
      have hwhole : e.open? t.state = none := by
        rcases hgets.stage with h | ⟨ticket, h⟩ <;> simp [Evaluation.open?, h]
      simp only [seen, CellRules.Watch.seen, state_withState, he, Option.bind_some]
      exact .strides he (by simpa using hfree) ((Evaluation.Advance.start hgets).stride he hwhole)
    | shutDown =>
      obtain rfl := Option.some.inj hturn
      exact .tellsAll
    | setCell row column cell | pushRow values | edit row column | validateAll | pass millis =>
      exact effect_of_outer rfl hturn
  | ring generation =>
    simp only [turn?, ring?] at hturn
    split at hturn
    · cases hturn
    rename_i hfree
    obtain ⟨e, he, hrings⟩ := Option.bind_eq_some_iff.mp hturn
    obtain rfl := State.generation_of_evaluation? he
    split at hrings
    · rename_i hrung
      obtain rfl := Option.some.inj hrings
      simp only [seen, he, Option.bind_some]
      exact .strides he (by simpa using hfree) (e.stride_rise he hrung)
    · cases hrings
  | close closer =>
    obtain ⟨c, hc, hclose⟩ := Option.bind_eq_some_iff.mp hturn
    cases c with
    | told =>
      obtain rfl := Option.some.inj hclose
      exact .bars hc
    | barred =>
      obtain rfl := Option.some.inj hclose
      exact .forgets hc
    | forgot abandoned =>
      obtain rfl := Option.some.inj hclose
      exact .announces hc
    | done => cases hclose

theorem Step.effect (hstep : Step u t x t') : Effect u t x t' := by
  obtain ⟨turn, hturn, rfl⟩ := hstep
  exact effect_of_turn? hturn

end Threads

end CellRules.Watch
