/-
CellRules.Proofs.Watch.CallCourse — all that a step of a call can do.

A call that tells of an edit asks for evaluations of the cells concerned or, where nothing is done
in the background, judges them itself, one job after the other (`EditCourse`). A call for all rows
looks at the rows, judges them and delivers the reports (`CallCourse`). Both lists hold whether the
watch is open or closed: work goes on to the answer that it heads for (`Running.heads`), which is
another one once it is told to stop. `Call.Advance.split` reads them off what a step leads to.
-/
import CellRules.Proofs.Watch.Course

namespace CellRules.Watch

variable {u : Setup} {s s' t : State} {c : Call} {stage : CallStage} {x : Option Happening}

/-! ## The calls of a state -/

namespace State

theorem Alike.goTo (h : s.Alike t) (c : Call) (stage : CallStage) :
    (Call.goTo s c stage).Alike (Call.goTo t c stage) := by
  obtain ⟨h1, h2, h3, h4, h5, h6, h7, h8, h9⟩ := h
  exact ⟨h1, h2, h3, h4, h5, h6, by simp only [Call.goTo, h7], h8, h9⟩

theorem mem_goTo {d : Call} :
    d ∈ (Call.goTo s c stage).calls ↔
      (d ∈ s.calls ∧ d.id ≠ c.id) ∨ (d = { c with stage } ∧ ∃ d ∈ s.calls, d.id = c.id) := by
  simp only [Call.goTo, List.mem_map]
  constructor
  · rintro ⟨d, hd, rfl⟩
    by_cases h : d.id = c.id
    · exact .inr ⟨by simp [h], d, hd, h⟩
    · exact .inl ⟨by simpa [h] using hd, by simp [h]⟩
  · rintro (⟨hd, h⟩ | ⟨rfl, d, hd, h⟩)
    · exact ⟨d, hd, by simp [h]⟩
    · exact ⟨d, hd, by simp [h]⟩

theorem call?_congr {id : Nat} (h : s'.calls = s.calls) : s'.call? id = s.call? id := by
  rw [call?, call?, h]

/-- The call moves on. -/
theorem call?_goTo_self (h : s.call? c.id = some c) :
    (Call.goTo s c stage).call? c.id = some { c with stage } := by
  have hsame : (fun d : Call => d.id == c.id) ∘
      (fun d => if d.id = c.id then { c with stage } else d) = fun d => d.id == c.id := by
    funext d
    by_cases hd : d.id = c.id <;> simp [hd]
  rw [call?] at h ⊢
  rw [Call.goTo, List.find?_map, hsame, h]
  simp

/-- Another call moves on. -/
theorem call?_goTo_of_ne {id : Nat} (hne : id ≠ c.id) :
    (Call.goTo s c stage).call? id = s.call? id := by
  have hsame : (fun d : Call => d.id == id) ∘
      (fun d => if d.id = c.id then { c with stage } else d) = fun d => d.id == id := by
    funext d
    by_cases hd : d.id = c.id <;> simp [hd]
  have hkept : ∀ d, s.calls.find? (·.id == id) = some d →
      (if d.id = c.id then ({ c with stage } : Call) else d) = d := by
    intro d hd
    have hid : d.id = id := by simpa using List.find?_some hd
    rw [if_neg (by rw [hid]; exact hne)]
  rw [call?, Call.goTo, List.find?_map, hsame, call?]
  cases hd : s.calls.find? (·.id == id) with
  | none => rfl
  | some d => exact congrArg some (hkept d hd)

theorem callStage?_goTo (h : s.call? c.id = some c) :
    (Call.goTo s c stage).callStage? c.id = some stage := by
  rw [callStage?, call?_goTo_self h]
  rfl

theorem nextCall_goTo : (Call.goTo s c stage).nextCall = s.nextCall := List.length_map _

theorem nextCall_addCall : (s.addCall stage).nextCall = s.nextCall + 1 := by
  simp [nextCall, addCall]

/-- A call that is there is found beside a new one. -/
theorem call?_addCall {id : Nat} (hc : s.call? id = some c) :
    (s.addCall stage).call? id = some c := by
  rw [call?] at hc ⊢
  rw [addCall, List.find?_append, hc]
  rfl

/-- Calls are numbered as they came. -/
def Numbered (s : State) : Prop := s.calls.map (·.id) = List.range s.nextCall

namespace Numbered

theorem congr (h : s.Numbered) (hcalls : s'.calls = s.calls) : s'.Numbered := by
  rw [Numbered, nextCall, hcalls]
  exact h

theorem goTo (h : s.Numbered) (c : Call) (stage : CallStage) : (Call.goTo s c stage).Numbered := by
  have hids : (Call.goTo s c stage).calls.map (·.id) = s.calls.map (·.id) := by
    rw [Call.goTo, List.map_map]
    refine List.map_congr_left fun d _ => ?_
    by_cases hd : d.id = c.id <;> simp [hd]
  rw [Numbered, hids, nextCall_goTo]
  exact h

theorem addCall (h : s.Numbered) (stage : CallStage) : (s.addCall stage).Numbered := by
  rw [Numbered, nextCall_addCall, State.addCall, List.map_append, h, List.range_succ]
  rfl

theorem lt (h : s.Numbered) (hc : c ∈ s.calls) : c.id < s.nextCall := by
  rw [← List.mem_range, ← h]
  exact List.mem_map.mpr ⟨c, hc, rfl⟩

/-- Calls are known by their number. -/
theorem eq_of_id (h : s.Numbered) {d : Call} (hc : c ∈ s.calls) (hd : d ∈ s.calls)
    (hid : c.id = d.id) : c = d := by
  have hnodup : (s.calls.map (·.id)).Nodup := h ▸ List.nodup_range
  exact List.inj_on_of_nodup_map hnodup hc hd hid

theorem call?_eq (h : s.Numbered) (hc : c ∈ s.calls) : s.call? c.id = some c := by
  cases hfind : s.call? c.id with
  | none => exact absurd (List.find?_eq_none.mp hfind c hc) (by simp)
  | some d => rw [h.eq_of_id (mem_of_call? hfind) hc (id_of_call? hfind)]

end Numbered

end State

/-! ## The course of a call -/

/-- How a call may go on without asking for an evaluation or judging an edited cell: what is seen,
and the state afterwards. -/
inductive CallCourse (u : Setup) (s : State) (c : Call) : Option Happening → State → Prop
  | told {s' : State} {edited : String} (stage : c.stage = .editing edited [] none)
      (state : s'.Alike (Call.goTo s c (.edited (.ok ())))) : CallCourse u s c none s'
  | survey {s' : State} (stage : c.stage = .called) (isOpen : s.closed = false)
      (state : s'.Alike
        (Call.goTo s c (.surveying (.working (u.ruleSet.survey (s.source u)))))) :
      CallCourse u s c (some (.surveyed c.id)) s'
  | look {s' : State} {work next : Running RuleSet.Survey} (stage : c.stage = .surveying work)
      (kept : next.heads s.closed = work.heads s.closed)
      (state : s'.Alike (Call.goTo s c (.surveying next))) : CallCourse u s c none s'
  | found {s' : State} {work : Running RuleSet.Survey} {v : RuleSet.Survey}
      (stage : c.stage = .surveying work) (answer : work.heads s.closed = .ok v)
      (state : s'.Alike (Call.goTo s c (.judging (Call.poolFor u v)))) : CallCourse u s c none s'
  | strand {s' : State} {pool next : Pool (List CellReport)} {id : Nat} {limiter : Limiter}
      {events : List Event} (stage : c.stage = .judging pool)
      (step : pool.step? s.now s.closed s.limiter id = some (next, limiter, events))
      (state : s'.Alike (Call.goTo s c (.judging next))) : CallCourse u s c none s'
  | judged {s' : State} {pool : Pool (List CellReport)} {batches : List (List CellReport)}
      (stage : c.stage = .judging pool) (result : pool.result? = some (.ok batches))
      (state : s'.Alike
        (Call.goTo s c (.delivering (RuleSet.gather batches) (RuleSet.gather batches)))) :
      CallCourse u s c none s'
  | deliver {s' : State} {cell : CellReport} {todo cells : List CellReport}
      (stage : c.stage = .delivering (cell :: todo) cells)
      (state : s'.Alike (Call.goTo (s.deliver u cell) c (.delivering todo cells))) :
      CallCourse u s c
        (some (.reported (.call c.id) ⟨cell.row, cell.column⟩ cell.verdict)) s'
  | conclude {s' : State} {cells : List CellReport} {report : Report}
      (stage : c.stage = .delivering [] cells)
      (state : s'.Alike (Call.goTo s c (.reported (.ok report)))) : CallCourse u s c none s'
  | refuse {s' : State} {p : Problem}
      (why : (c.stage = .called ∧ s.closed = true ∧ p = .schedulerClosed) ∨
        (∃ work, c.stage = .surveying work ∧ work.heads s.closed = .error p) ∨
        ∃ pool, c.stage = .judging pool ∧ pool.result? = some (.error p))
      (state : s'.Alike (Call.goTo s c (.reported (.error p)))) : CallCourse u s c none s'

/-- Judging a cell by the grid as it is. -/
def State.judging (u : Setup) (s : State) (key : CellKey) : Work Judgement :=
  u.ruleSet.evaluateCellAmong (s.source u) key.row key.column

/-- The jobs that follow a judged cell: those of the cells that the edit concerns in other rows. -/
def State.followers (u : Setup) (s : State) (job : Job) (edited : String) (rows : Dataset) :
    List Job :=
  if job.spreads then (s.peers u job.key [edited] rows).map fun key => ⟨key, false⟩ else []

/-- They are in the column of the judged cell. -/
theorem State.column_of_followers {job next : Job} {edited : String} {rows : Dataset}
    (h : next ∈ s.followers u job edited rows) : next.key.column = job.key.column := by
  unfold followers at h
  split at h
  · simp only [peers, List.map_map, List.mem_map] at h
    obtain ⟨row, -, rfl⟩ := h
    rfl
  · cases h

/-- How a call that judges edited cells may go on. -/
inductive EditCourse (u : Setup) (s : State) (c : Call) : State → Prop
  | take {s' : State} {edited : String} {job : Job} {todo : List Job}
      (atOnce : u.ruleSet.throttle.background = false)
      (stage : c.stage = .editing edited (job :: todo) none)
      (state : s'.Alike (Call.goTo s c
        (.editing edited todo (some (job, .working (s.judging u job.key)))))) : EditCourse u s c s'
  | work {s' : State} {edited : String} {job : Job} {todo : List Job}
      {work next : Running Judgement} (stage : c.stage = .editing edited todo (some (job, work)))
      (kept : next.heads s.closed = work.heads s.closed)
      (state : s'.Alike (Call.goTo s c (.editing edited todo (some (job, next))))) :
      EditCourse u s c s'
  | judged {s' : State} {edited : String} {job : Job} {todo : List Job} {work : Running Judgement}
      {report : CellReport} {rows : Dataset}
      (stage : c.stage = .editing edited todo (some (job, work)))
      (answer : work.heads s.closed = .ok (report, rows))
      (state : s'.Alike (Call.goTo (s.deliver u report) c
        (.editing edited ((s.deliver u report).followers u job edited rows ++ todo) none))) :
      EditCourse u s c s'
  | failed {s' : State} {edited : String} {job : Job} {todo : List Job} {work : Running Judgement}
      {p : Problem} {next : CallStage} (stage : c.stage = .editing edited todo (some (job, work)))
      (answer : work.heads s.closed = .error p)
      (after : next = .editing edited todo none ∨ next = .edited (.error p))
      (state : s'.Alike (Call.goTo s c next)) : EditCourse u s c s'

/-- Calls leave evaluations and ledger alone. -/
theorem CallCourse.kept {c : Call} {x : Option Happening} (h : CallCourse u s c x s') :
    s'.evaluations = s.evaluations ∧ s'.nextGeneration = s.nextGeneration ∧
      s'.ledger = s.ledger := by
  cases h with
  | deliver _ hs | told _ hs | survey _ _ hs | look _ _ hs | found _ _ hs | strand _ _ hs
  | judged _ _ hs | conclude _ hs | refuse _ hs =>
    exact ⟨hs.evaluations.trans rfl, hs.nextGeneration.trans rfl, hs.ledger.trans rfl⟩

theorem EditCourse.kept {c : Call} (h : EditCourse u s c s') :
    s'.evaluations = s.evaluations ∧ s'.nextGeneration = s.nextGeneration ∧
      s'.ledger = s.ledger := by
  cases h with
  | take _ _ hs | work _ _ hs | judged _ _ hs | failed _ _ _ hs =>
    exact ⟨hs.evaluations.trans rfl, hs.nextGeneration.trans rfl, hs.ledger.trans rfl⟩

/-- A call leaves the others where they are. -/
theorem CallCourse.call?_of_ne {c : Call} {x : Option Happening} (h : CallCourse u s c x s')
    {id : Nat} (hne : id ≠ c.id) : s'.call? id = s.call? id := by
  cases h with
  | deliver _ hs | told _ hs | survey _ _ hs | look _ _ hs | found _ _ hs | strand _ _ hs
  | judged _ _ hs | conclude _ hs | refuse _ hs =>
    exact (State.call?_congr hs.calls).trans (State.call?_goTo_of_ne hne)

/-- A strand that works leaves the rest of the watch alone. -/
theorem State.alike_strand {pool next : Pool (List CellReport)} {id : Nat} {limiter : Limiter}
    {events : List Event}
    (hstep : pool.step? s.now s.closed s.limiter id = some (next, limiter, events)) :
    (Call.goTo (({ s with limiter } : State).write events) c stage).Alike (Call.goTo s c stage) :=
  Alike.goTo ((alike_write _ events).trans (s.alike_limiter (Pool.closed_step? hstep))) c stage

namespace Call

/-- A call that goes on asks for an evaluation, judges edited cells, or goes on in one of the ways of
`CallCourse`. -/
theorem Advance.split (hc : s.call? c.id = some c) (h : c.Advance u s s') :
    (u.ruleSet.throttle.background = true ∧ ∃ edited job todo,
        c.stage = .editing edited (job :: todo) none ∧
        s' = goTo (s.schedule u job.key [edited]) c (.editing edited todo none)) ∨
      EditCourse u s c s' ∨ CallCourse u s c (c.seen s s') s' := by
  cases h with
  | ask background hstage => exact .inl ⟨background, _, _, _, hstage, rfl⟩
  | take atOnce hstage =>
    exact .inr (.inl (.take atOnce hstage (State.Alike.goTo (s.alike_count _) c _)))
  | @work _ _ _ _ _ events hstage hstep =>
    exact .inr (.inl (.work hstage (Running.heads_goesOn hstep)
      (State.Alike.goTo (s.alike_write events) c _)))
  | @spread edited _ job _ report rows hstage hstep hspreads =>
    refine .inr (.inl (.judged hstage (Running.heads_ends hstep).symm ?_))
    rw [State.followers, if_pos hspreads]
    exact State.Alike.goTo (State.alike_notePeers u _ _ _ _) c _
  | @report edited _ job _ report rows hstage hstep hlast =>
    refine .inr (.inl (.judged hstage (Running.heads_ends hstep).symm ?_))
    rw [State.followers, if_neg (by simp [hlast])]
    exact .refl _
  | @abandon _ _ job _ hstage hstep =>
    exact .inr (.inl (.failed hstage (Running.heads_ends hstep).symm (.inl rfl)
      (State.Alike.goTo (s.alike_abandoned u job.key) c _)))
  | @fail _ _ job _ p hstage hstep =>
    exact .inr (.inl (.failed hstage (Running.heads_ends hstep).symm (.inr rfl)
      (State.Alike.goTo (s.alike_failed u job.key p) c _)))
  | told hstage =>
    have hseen : c.seen s (goTo s c (.edited (.ok ()))) = none := by simp [seen, hstage]
    exact .inr (.inr (hseen ▸ .told hstage (.refl _)))
  | survey hstage hopen =>
    refine .inr (.inr ?_)
    simp only [seen, hstage, State.callStage?_goTo hc]
    exact .survey hstage hopen (.refl _)
  | @look _ _ events hstage hstep =>
    refine .inr (.inr ?_)
    simp only [seen, hstage]
    exact .look hstage (Running.heads_goesOn hstep) (State.Alike.goTo (s.alike_write events) c _)
  | found hstage hstep =>
    refine .inr (.inr ?_)
    simp only [seen, hstage]
    exact .found hstage (Running.heads_ends hstep).symm (.refl _)
  | strand hstage hstep =>
    refine .inr (.inr ?_)
    simp only [seen, hstage]
    exact .strand hstage hstep (State.alike_strand hstep)
  | judged hstage hresult =>
    refine .inr (.inr ?_)
    simp only [seen, hstage]
    exact .judged hstage hresult (.refl _)
  | @deliver cell todo cells hstage =>
    have hnew : s.newDelivery? (goTo (s.deliver u cell) c (.delivering todo cells))
        = some ⟨cell.row, cell.column, cell.verdict⟩ :=
      State.newDelivery?_one (show _ = s.deliveries ++ [(s.now, _)] from rfl)
    refine .inr (.inr ?_)
    simp only [seen, hstage, hnew]
    exact .deliver hstage (.refl _)
  | @conclude cells hstage =>
    have hquiet : s.newDelivery? (Call.conclude u s c cells) = none := State.newDelivery?_same rfl
    refine .inr (.inr ?_)
    simp only [seen, hstage, hquiet]
    exact .conclude hstage (State.Alike.goTo (s.alike_write _) c _)
  | @refuse p hwhy =>
    have hseen : c.seen s (goTo s c (.reported (.error p))) = none := by
      rcases hwhy with ⟨hstage, -, -⟩ | ⟨work, hstage, -⟩ | ⟨pool, hstage, -⟩
      · simp [seen, hstage, State.callStage?_goTo hc]
      · simp [seen, hstage]
      · simp [seen, hstage]
    rw [hseen]
    refine .inr (.inr (.refuse ?_ (.refl _)))
    exact hwhy.imp_right (.imp_left fun ⟨w, hstage, hstep⟩ =>
      ⟨w, hstage, (Running.heads_ends hstep).symm⟩)

end Call

/-- The step of a strand is one of the call that it belongs to. -/
theorem State.course_of_strand {id strand : Nat}
    (hm : s.move? u (.step (.strand id strand)) = some s') :
    ∃ c, s.call? c.id = some c ∧ CallCourse u s c none s' := by
  obtain ⟨c, -, hc, pool, next, limiter, events, hstage, hstep, rfl⟩ := call_of_strand? (u := u) hm
  exact ⟨c, hc, .strand hstage hstep (alike_strand hstep)⟩

end CellRules.Watch
