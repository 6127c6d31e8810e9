/-
CellRules.Proofs.Watch.Clock — what tasks leave to others.

Time passes and cells are written from outside only: whatever task takes a step, clock and grid stay
as they are. Tasks count what they deliver, one by one, and once a watch that judges in the
background is closed they ask for nothing. `State.Spares` says so of the states before and after;
`State.Advances.spares` derives it. Later modules use what it says of moves: `now_move?`,
`evaluated_move?` and `scheduled_move?`.
-/
import CellRules.Proofs.Watch.Effect

namespace CellRules.Watch

variable {u : Setup} {s s' t : State} {m : Move}

/-- Clock and grid are as they were, what was delivered was counted, and nothing was asked for in the
background if the watch is closed. -/
structure State.Spares (u : Setup) (s t : State) : Prop where
  now : t.now = s.now
  grid : t.grid = s.grid
  closed : t.closed = s.closed
  counted : t.stats.evaluated + s.deliveries.length = s.stats.evaluated + t.deliveries.length
  quiet : u.ruleSet.throttle.background = true → s.closed = true →
    t.stats.scheduled = s.stats.scheduled

namespace State.Spares

theorem refl (s : State) : s.Spares u s := ⟨rfl, rfl, rfl, rfl, fun _ _ => rfl⟩

variable (h : s.Spares u t)

include h

/-- Only slots, ledger, evaluations, calls, words of rest and log change. -/
theorem same (hnow : s'.now = t.now) (hgrid : s'.grid = t.grid) (hclosed : s'.closed = t.closed)
    (hstats : s'.stats = t.stats) (hdeliveries : s'.deliveries = t.deliveries) :
    s.Spares u s' where
  now := hnow.trans h.now
  grid := hgrid.trans h.grid
  closed := hclosed.trans h.closed
  counted := by
    rw [hstats, hdeliveries]
    exact h.counted
  quiet hback hwas := by
    rw [hstats]
    exact h.quiet hback hwas

/-- Something else than requests and reports is counted. -/
theorem count {f : Stats → Stats} (hevaluated : (f t.stats).evaluated = t.stats.evaluated)
    (hscheduled : (f t.stats).scheduled = t.stats.scheduled) : s.Spares u (t.count f) where
  now := h.now
  grid := h.grid
  closed := h.closed
  counted := (congrArg (· + s.deliveries.length) hevaluated).trans h.counted
  quiet hback hwas := hscheduled.trans (h.quiet hback hwas)

theorem note (event : Event) : s.Spares u (t.note u event) := by
  unfold State.note
  split
  · exact h.same rfl rfl rfl rfl rfl
  · exact h

theorem notePeers (key : CellKey) (edited : List String) (rows : Dataset) :
    s.Spares u (t.notePeers u key edited rows) := by
  unfold State.notePeers
  dsimp only
  split
  · exact h
  · exact h.note _

theorem abandoned (key : CellKey) : s.Spares u (t.abandoned u key) := (h.count rfl rfl).note _

theorem failed (key : CellKey) (p : Problem) : s.Spares u (t.failed u key p) := by
  have hcounted : s.Spares u (t.count fun c => { c with errors := c.errors + 1 }) :=
    h.count rfl rfl
  exact hcounted.same rfl rfl rfl rfl rfl

/-- A report is delivered and counted. -/
theorem deliver (r : CellReport) : s.Spares u (t.deliver u r) where
  now := h.now
  grid := h.grid
  closed := h.closed
  counted := by
    have hcounted := h.counted
    rw [State.deliveries_deliver, State.evaluated_deliver, List.length_append,
      List.length_singleton]
    omega
  quiet := h.quiet

theorem supersede (key : CellKey) (previous : Option Request) :
    s.Spares u (t.supersede u key previous) := by
  cases previous with
  | none => exact h.note _
  | some old =>
    have hcancel : s.Spares u (t.cancel old.generation) := h.same rfl rfl rfl rfl rfl
    simp only [State.supersede]
    split
    · exact (hcancel.count rfl rfl).note _
    · split
      · exact hcancel.note _
      · exact h.note _

omit h in
/-- Asking for an evaluation counts it only if the watch is open. -/
theorem schedule (s : State) (key : CellKey) (fanOut : List String) :
    s.Spares u (s.schedule u key fanOut) := by
  by_cases hopen : s.closed = false
  · have hnot : ¬s.closed = true := by simp [hopen]
    rw [State.schedule, if_neg hnot]
    have hthen := (refl (u := u) ((s.draw.enter key s.nextGeneration fanOut).count
      fun c => { c with scheduled := c.scheduled + 1 })).supersede key (s.ledger.current? key)
    exact ⟨hthen.now, hthen.grid, hthen.closed, hthen.counted,
      fun _ hclosed => absurd hclosed hnot⟩
  · rw [State.schedule, if_pos (by simpa using hopen)]
    exact refl s

end State.Spares

/-! ## Steps -/

namespace Evaluation

variable {e : Evaluation}

theorem spares_giveUp (h : s.Spares u t) (e : Evaluation) : s.Spares u (e.giveUp u t) := by
  have hgone : s.Spares u ((t.dropEvaluation e).finish e.key e.generation) :=
    h.same rfl rfl rfl rfl rfl
  exact hgone.abandoned e.key

theorem Advance.spares (h : e.Advance u s s') : s.Spares u s' := by
  have hrest : s.Spares u s := .refl s
  have hstage : ∀ {t : State} {stage : Stage}, s.Spares u t → s.Spares u (t.setStage e stage) :=
    fun ht => ht.same rfl rfl rfl rfl rfl
  cases h with
  | arm | discard | begin | queue | start | work | stop | finish =>
    exact hrest.same rfl rfl rfl rfl rfl
  | @giveUp _ limiter =>
    have hleft : s.Spares u { s with limiter } := hrest.same rfl rfl rfl rfl rfl
    exact spares_giveUp hleft e
  | @report report rows fanOut ledger =>
    have hclaimed : s.Spares u { s with ledger } := hrest.same rfl rfl rfl rfl rfl
    exact hstage ((hclaimed.deliver report).notePeers e.key fanOut rows)
  | outdated => exact hstage ((hrest.count rfl rfl).note _)
  | abandon => exact hstage (hrest.abandoned e.key)
  | fail => exact hstage (hrest.failed e.key _)
  | ask => exact hstage (.schedule s _ [])

end Evaluation

namespace Call

variable {c : Call}

theorem spares_goTo (h : s.Spares u t) (c : Call) (stage : CallStage) :
    s.Spares u (goTo t c stage) :=
  h.same rfl rfl rfl rfl rfl

theorem Advance.spares (h : c.Advance u s s') : s.Spares u s' := by
  have hrest : s.Spares u s := .refl s
  have hwrite : ∀ events, s.Spares u (s.write events) := fun _ => hrest.same rfl rfl rfl rfl rfl
  cases h with
  | told | survey | found | judged | refuse => exact spares_goTo hrest c _
  | work | look => exact spares_goTo (hwrite _) c _
  | ask => exact spares_goTo (State.Spares.schedule s _ _) c _
  | take atOnce => exact ⟨rfl, rfl, rfl, rfl, fun h => absurd (h.symm.trans atOnce) (by decide)⟩
  | spread => exact spares_goTo ((hrest.deliver _).notePeers _ _ _) c _
  | report => exact spares_goTo (hrest.deliver _) c _
  | abandon => exact spares_goTo (hrest.abandoned _) c _
  | fail => exact spares_goTo (hrest.failed _ _) c _
  | strand => exact hrest.same rfl rfl rfl rfl rfl
  | deliver => exact spares_goTo (hrest.deliver _) c _
  | conclude => exact spares_goTo (hwrite _) c _

end Call

/-- Whatever goes on in the watch spares clock and grid. -/
theorem State.Advances.spares (h : s.Advances u s') : s.Spares u s' := by
  rcases h with ⟨e, -, hadvance⟩ | ⟨c, -, hadvance⟩
  · exact hadvance.spares
  · exact hadvance.spares

/-! ## Moves -/

/-- How much time passes with a move. -/
def Move.elapsed : Move → Nat
  | .pass millis => millis
  | _ => 0

/-- Time passes as it is told to. -/
theorem State.now_move? (hm : s.move? u m = some s') : s'.now = s.now + m.elapsed := by
  cases m with
  | setCell row column cell =>
    obtain ⟨grid, -, rfl⟩ := set_of_move? hm
    rfl
  | step task => exact (advances_of_step? hm).spares.now
  | takeSlot generation => exact (advances_of_takeSlot? hm).spares.now
  | _ =>
    obtain rfl := Option.some.inj hm
    rfl

/-- Whatever is delivered is counted. -/
theorem State.evaluated_move? (hm : s.move? u m = some s') :
    s'.stats.evaluated + s.deliveries.length = s.stats.evaluated + s'.deliveries.length := by
  cases m with
  | setCell row column cell =>
    obtain ⟨grid, -, rfl⟩ := set_of_move? hm
    rfl
  | step task => exact (advances_of_step? hm).spares.counted
  | takeSlot generation => exact (advances_of_takeSlot? hm).spares.counted
  | _ =>
    obtain rfl := Option.some.inj hm
    rfl

/-- Nothing is counted as asked for in the background by a move after which the watch is closed. -/
theorem State.scheduled_move? (background : u.ruleSet.throttle.background = true)
    (hm : s.move? u m = some s') (hclosed : s'.closed = true) :
    s'.stats.scheduled = s.stats.scheduled := by
  cases m with
  | setCell row column cell =>
    obtain ⟨grid, -, rfl⟩ := set_of_move? hm
    rfl
  | step task =>
    have hspares := (advances_of_step? hm).spares
    exact hspares.quiet background (hspares.closed.symm.trans hclosed)
  | takeSlot generation =>
    have hspares := (advances_of_takeSlot? hm).spares
    exact hspares.quiet background (hspares.closed.symm.trans hclosed)
  | _ =>
    obtain rfl := Option.some.inj hm
    rfl

/-- What a run delivers it counts. -/
theorem Run.evaluated {h : List Happening} (run : Run u s h s') :
    s'.stats.evaluated + s.deliveries.length = s.stats.evaluated + s'.deliveries.length := by
  induction run with
  | rest => rfl
  | move m _ hm ih =>
    have hstep := State.evaluated_move? hm
    omega

/-! ## Closed watches -/

/-- An evaluation of a closed watch neither begins nor asks for others. -/
theorem Evaluation.Advance.seen_of_closed {e : Evaluation} (hclosed : s.closed = true)
    (h : e.Advance u s s') {x : Happening} (hx : e.seen s s' = some x) :
    (∀ asker key g fanOut, x ≠ .asked asker key g fanOut) ∧
      ∀ key g fanOut, x ≠ .began key g fanOut := by
  have hwaits : ∀ {fanOut : List String},
      (e.stage = .entering fanOut ∨ ∃ ticket, e.stage = .inLine ticket fanOut) →
      (∀ asker key g fanOut, x ≠ .asked asker key g fanOut) ∧
        ∀ key g fanOut, x ≠ .began key g fanOut := by
    rintro fanOut (hstage | ⟨ticket, hstage⟩) <;>
      (simp only [seen, hstage] at hx; split at hx <;> cases hx <;> simp)
  cases h with
  | arm hstage | work hstage | stop hstage | finish hstage => simp [seen, hstage] at hx
  | discard hstage =>
    rcases hstage with hstage | ⟨due, hstage⟩ <;>
      simp [seen, hstage, State.stageOf?_dropEvaluation] at hx
  | begin _ hwanted => simp [stopped, hclosed] at hwanted
  | queue hstage => exact hwaits (.inl hstage)
  | start hgets => exact hwaits hgets.stage
  | giveUp hleaves => exact hwaits hleaves.stage
  | report hstage | outdated hstage | abandon hstage | fail hstage =>
    simp only [seen, hstage] at hx
    split at hx
    · cases hx; simp
    · cases hx; simp
    · split at hx <;> cases hx <;> simp
  | ask hstage =>
    simp [seen, hstage, State.schedule, hclosed, State.setStage, State.setEvaluation] at hx

/-- Nor does a call. -/
theorem Call.Advance.seen_of_closed {c : Call} (hclosed : s.closed = true)
    (h : c.Advance u s s') {x : Happening} (hx : c.seen s s' = some x) :
    (∀ asker key g fanOut, x ≠ .asked asker key g fanOut) ∧
      ∀ key g fanOut, x ≠ .began key g fanOut := by
  cases h with
  | told hstage | look hstage | found hstage | strand hstage | judged hstage =>
    simp [seen, hstage] at hx
  | ask _ hstage =>
    rw [State.schedule, if_pos hclosed] at hx
    simp only [seen, hstage, goTo, Nat.lt_irrefl, if_false] at hx
    split at hx <;> cases hx
    simp
  | @take edited job todo _ hstage =>
    have hnext : (begin u s c edited job todo).nextGeneration = s.nextGeneration := rfl
    simp only [seen, hstage, hnext, Nat.lt_irrefl, if_false] at hx
    split at hx <;> cases hx
    simp
  | work hstage | spread hstage | report hstage | abandon hstage | fail hstage =>
    simp only [seen, hstage] at hx
    split at hx <;> cases hx <;> simp
  | survey hstage =>
    simp only [seen, hstage] at hx
    split at hx <;> cases hx
    simp
  | deliver hstage | conclude hstage =>
    simp only [seen, hstage, Option.map_eq_some_iff] at hx
    obtain ⟨d, -, rfl⟩ := hx
    simp
  | refuse hwhy =>
    rcases hwhy with ⟨hstage, -⟩ | ⟨work, hstage, -⟩ | ⟨pool, hstage, -⟩
    · simp only [seen, hstage] at hx
      split at hx <;> cases hx
      simp
    · simp [seen, hstage] at hx
    · simp [seen, hstage] at hx

/-- In a closed watch nobody asks for an evaluation and none begins. -/
theorem Step.seen_of_closed {x : Happening} (hstep : Step u s (some x) s')
    (hclosed : s.closed = true) :
    (∀ asker key g fanOut, x ≠ .asked asker key g fanOut) ∧
      ∀ key g fanOut, x ≠ .began key g fanOut := by
  obtain ⟨m, hm, hx⟩ := hstep
  cases m with
  | edit row column =>
    simp only [seen] at hx
    split at hx <;> cases hx
  | step task =>
    cases task with
    | evaluation generation =>
      obtain ⟨e, rfl, he, hadvance⟩ := State.evaluation_of_step? hm
      simp only [seen, he, Option.bind_some] at hx
      exact hadvance.seen_of_closed hclosed hx
    | call id =>
      obtain ⟨c, rfl, hc, hadvance⟩ := State.call_of_step? hm
      simp only [seen, hc, Option.bind_some] at hx
      exact hadvance.seen_of_closed hclosed hx
    | strand id strand => cases hx
  | takeSlot generation =>
    obtain ⟨e, -, hread⟩ := State.seen_takeSlot hm
    cases hread.symm.trans hx
    simp
  | pass _ => cases hx
  | setCell _ _ _ | pushRow _ | validateAll | shutDown =>
    cases hx
    simp

end CellRules.Watch
