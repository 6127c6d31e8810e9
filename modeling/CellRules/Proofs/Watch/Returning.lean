/-
CellRules.Proofs.Watch.Returning — whoever tells of an edit gets an answer.

Where edited cells are judged at once, a call takes its steps between the moves of others: the grid
is written, rows come, other calls and edits are under way, the watch may even be closed. None of
that moves the call (`call?_move?`), takes a column or a row away (`grows_move?`), or keeps the call
from going on. `Returns` says of a call that, whatever the others do, it comes to its answer, and to
a right one.

Suppose that every cell of the call's jobs is in a row that is there, and that judging such a cell
comes to a report. Then this stays so (`CallStage.Sure`), as followers are in rows that are there
too. Each step of the call brings it nearer to its answer (`CallStage.ahead`): a judged cell may
bring in any number of followers, but only if it was an edited one. So all is well in the end
(`returns_of_sure`).
-/
import CellRules.Proofs.RuleSet.Verified
import CellRules.Proofs.Watch.Clock
import CellRules.Proofs.Watch.Telling
import Mathlib.Data.Prod.Lex

namespace CellRules

/-! ## Work under way -/

namespace Running

variable {α : Type} {r : Running α} {now : Nat} {stopped : Bool}

/-- Told to stop or not, work goes on or ends after some time. -/
theorem exists_step?_later (r : Running α) (now : Nat) (stopped : Bool) :
    ∃ millis step, r.step? (now + millis) stopped = some step := by
  obtain ⟨millis, hable⟩ : ∃ millis, r.canStep (now + millis) stopped = true := by
    cases r with
    | working _ => exact ⟨0, rfl⟩
    | asleep due _ => exact ⟨due, by simp [canStep]⟩
  rw [← isSome_step?] at hable
  exact ⟨millis, Option.isSome_iff_exists.mp hable⟩

end Running

namespace Watch

variable {u : Setup} {s s' : State} {c : Call} {m : Move} {id : Nat} {stage : CallStage}
  {edited : String} {job next : Job} {todo : List Job} {rows : Dataset} {rowCount : Nat}

/-! ## What others do -/

/-- Whatever happens, the grid keeps its columns and its rows. -/
theorem State.grows_move? (hm : s.move? u m = some s') : s.grid.Grows s'.grid := by
  cases m with
  | setCell row column cell =>
    obtain ⟨grid, hset, rfl⟩ := set_of_move? hm
    exact Grid.grows_set hset
  | pushRow values =>
    obtain rfl := Option.some.inj hm
    exact s.grid.grows_push values
  | step task =>
    rw [(advances_of_step? hm).spares.grid]
    exact .refl _
  | takeSlot generation =>
    rw [(advances_of_takeSlot? hm).spares.grid]
    exact .refl _
  | _ =>
    obtain rfl := Option.some.inj hm
    exact .refl _

/-- A call without a pool stays where it is until it takes a step. -/
theorem State.call?_move? (hc : s.call? id = some c) (hpool : c.pool? = none)
    (hne : m ≠ .step (.call id)) (hm : s.move? u m = some s') : s'.call? id = some c := by
  cases m with
  | setCell row column cell =>
    obtain ⟨grid, -, rfl⟩ := set_of_move? hm
    exact hc
  | edit | validateAll =>
    obtain rfl := Option.some.inj hm
    exact call?_addCall hc
  | step task =>
    cases task with
    | evaluation generation =>
      obtain ⟨e, -, -, hadvance⟩ := evaluation_of_step? hm
      rw [call?_congr hadvance.apart.calls, hc]
    | call other =>
      have hother : id ≠ other := fun h => hne (by rw [h])
      obtain ⟨d, rfl, hd, hadvance⟩ := call_of_step? hm
      rcases hadvance.split hd with ⟨-, edited, job, todo, -, rfl⟩ | hedit | hcall
      · rw [call?_goTo_of_ne hother, call?_congr (Evaluation.apart_schedule job.key [edited]).calls,
          hc]
      · obtain ⟨t, stage, hapart, halike, -⟩ := hedit.moves
        rw [call?_congr halike.calls, call?_goTo_of_ne hother, call?_congr hapart.calls, hc]
      · rw [hcall.call?_of_ne hother, hc]
    | strand other strand =>
      obtain ⟨d, rfl, hd, pool, next, limiter, events, hstage, -, rfl⟩ :=
        call_of_strand? (u := u) hm
      have hother : id ≠ d.id := by
        rintro rfl
        obtain rfl := Option.some.inj (hd.symm.trans hc)
        simp [Call.pool?, hstage] at hpool
      exact (call?_goTo_of_ne hother).trans hc
  | takeSlot generation =>
    obtain ⟨e, -, -, hadvance⟩ := evaluation_of_takeSlot? hm
    rw [call?_congr hadvance.apart.calls, hc]
  | _ =>
    obtain rfl := Option.some.inj hm
    exact hc

/-! ## Calls that return -/

/-- The watch goes on, and the call takes no step. -/
def Meanwhile (u : Setup) (id : Nat) (s s' : State) : Prop :=
  ∃ moves, .step (.call id) ∉ moves ∧ s.moveAll? u moves = some s'

/-- Whatever others do, the call comes to an answer, and to a right one: as long as it has none it
can take a step after some time, and it can only take so many. -/
inductive Returns (u : Setup) (id : Nat) (right : Except Problem Unit → Prop) : State → Prop
  | intro {s : State}
      (answer : ∀ s' answer, Meanwhile u id s s' → s'.callStage? id = some (.edited answer) →
        right answer)
      (goes_on : ∀ s', Meanwhile u id s s' → (∃ answer, s'.callStage? id = some (.edited answer)) ∨
        ∃ millis s'', s'.moveAll? u [.pass millis, .step (.call id)] = some s'')
      (next : ∀ s' s'', Meanwhile u id s s' → s'.move? u (.step (.call id)) = some s'' →
        Returns u id right s'') :
      Returns u id right s

/-! ## Calls that are sure of their answer -/

/-- The cells to judge are in rows that are there, and the work on the current one comes to a
report. An answer says that all is well. -/
def CallStage.Sure (rowCount : Nat) : CallStage → Prop
  | .editing _ todo current => (∀ job ∈ todo, job.key.row < rowCount) ∧
      ∀ job work, current = some (job, work) → ∃ judgement, work.rest.answer = .ok judgement
  | .edited answer => answer = .ok ()
  | _ => False

/-- What a call that judges edited cells has ahead: edited cells, then jobs, those that are not begun
twice, then steps of the work on the current one. -/
def CallStage.ahead : CallStage → Nat ×ₗ Nat ×ₗ Nat
  | .editing _ todo current =>
    let jobs := (current.map (·.1)).toList ++ todo
    toLex (jobs.countP (·.spreads),
      toLex (jobs.length + todo.length + 1, (current.map (·.2.steps)).getD 0))
  | _ => toLex (0, toLex (0, 0))

theorem CallStage.Sure.more {more : Nat} (h : stage.Sure rowCount) (hmore : rowCount ≤ more) :
    stage.Sure more := by
  cases stage with
  | editing => exact ⟨fun job hjob => Nat.lt_of_lt_of_le (h.1 job hjob) hmore, h.2⟩
  | edited => exact h
  | _ => exact h.elim

/-- A call, sure of its answer, of a watch over a grid that has all that the rules name. -/
structure Sure (u : Setup) (c : Call) (s : State) : Prop where
  there : s.call? c.id = some c
  full : s.grid.Full
  names : u.ruleSet.NamesOnly s.grid.columns
  stage : c.stage.Sure s.grid.rows.length

namespace Sure

theorem pool? (h : Sure u c s) : c.pool? = none := by
  have hstage := h.stage
  unfold Call.pool?
  split
  · rename_i pool hjudging
    rw [hjudging] at hstage
    exact hstage.elim
  · rfl

/-- Another grid, on which no less is there. -/
theorem grows (h : Sure u c s) (hgrid : s.grid.Grows s'.grid) (hthere : s'.call? c.id = some c) :
    Sure u c s' where
  there := hthere
  full := hgrid.full h.full
  names := hgrid.columns ▸ h.names
  stage := h.stage.more hgrid.rows

/-- Others leave it so. -/
theorem meanwhile (h : Sure u c s) (hmean : Meanwhile u c.id s s') : Sure u c s' := by
  obtain ⟨moves, hothers, hrun⟩ := hmean
  refine State.keeps_moveAll? hrun (fun m hmem t t' hm ht => ?_) h
  have hother : m ≠ .step (.call c.id) := fun heq => hothers (heq ▸ hmem)
  exact ht.grows (State.grows_move? hm) (State.call?_move? ht.there ht.pool? hother hm)

/-- Judging a cell in a row that is there comes to a report. -/
theorem judging (h : Sure u c s) (hview : u.view = Grid.source) {key : CellKey}
    (hrow : key.row < s.grid.rows.length) :
    ∃ judgement, (s.judging u key).answer = .ok judgement := by
  obtain ⟨report, rows, hanswer, -⟩ := RuleSet.judging_ok h.names h.full hrow key.column
  refine ⟨(report, rows), ?_⟩
  rw [State.judging, State.source, hview]
  exact hanswer

end Sure

/-! ## Steps of a call -/

/-- Followers are in rows that are there and bring in no others, and only an edited cell has some. -/
theorem State.row_of_followers (hview : u.view = Grid.source)
    (h : next ∈ s.followers u job edited rows) :
    next.key.row < s.grid.rows.length ∧ next.spreads = false ∧ job.spreads = true := by
  unfold followers at h
  split at h
  · rename_i hspreads
    simp only [peers, source, hview, List.map_map, List.mem_map, List.mem_filter,
      decide_eq_true_eq] at h
    obtain ⟨row, ⟨-, hrow⟩, rfl⟩ := h
    exact ⟨hrow, rfl, hspreads⟩
  · cases h

namespace CallStage

variable {work after : Running Judgement}

theorem ahead_take : (editing edited todo (some (job, work))).ahead
    < (editing edited (job :: todo) none).ahead := by
  rw [ahead, ahead, Prod.Lex.toLex_lt_toLex]
  refine .inr ⟨rfl, ?_⟩
  rw [Prod.Lex.toLex_lt_toLex]
  exact .inl (by simp)

theorem ahead_work (h : after.steps < work.steps) :
    (editing edited todo (some (job, after))).ahead
      < (editing edited todo (some (job, work))).ahead := by
  rw [ahead, ahead, Prod.Lex.toLex_lt_toLex]
  refine .inr ⟨rfl, ?_⟩
  rw [Prod.Lex.toLex_lt_toLex]
  exact .inr ⟨rfl, h⟩

/-- A judged cell may bring in others, but only if it was an edited one, and they are not. -/
theorem ahead_judged {followers : List Job}
    (h : ∀ next ∈ followers, next.spreads = false ∧ job.spreads = true) :
    (editing edited (followers ++ todo) none).ahead
      < (editing edited todo (some (job, work))).ahead := by
  have hnone : followers.countP (·.spreads) = 0 :=
    List.countP_eq_zero.mpr fun next hnext => by simp [(h next hnext).1]
  rw [ahead, ahead, Prod.Lex.toLex_lt_toLex]
  cases hspreads : job.spreads with
  | true => exact .inl (by simp [hnone, hspreads])
  | false =>
    obtain rfl : followers = [] := List.eq_nil_iff_forall_not_mem.mpr fun next hnext => by
      rw [hspreads] at h
      exact absurd (h next hnext).2 (by simp)
    refine .inr ⟨by simp [hspreads], ?_⟩
    rw [Prod.Lex.toLex_lt_toLex]
    exact .inl (by simp)

theorem ahead_cancelled : (editing edited todo none).ahead
    < (editing edited todo (some (job, work))).ahead :=
  ahead_judged (List.forall_mem_nil _)

theorem ahead_told {answer : Except Problem Unit} :
    (CallStage.edited answer).ahead < (editing edited [] none).ahead := by
  simp [ahead, Prod.Lex.toLex_lt_toLex]

end CallStage

/-- What becomes of the report on a cell. -/
theorem Call.settle_ok (hc : s.call? c.id = some c) {report : CellReport} :
    (settle u s c edited job todo (.ok (report, rows))).call? c.id = some ⟨c.id,
      .editing edited ((s.deliver u report).followers u job edited rows ++ todo) none⟩ := by
  unfold settle State.followers
  dsimp only
  split
  · have hkept : ((s.deliver u report).notePeers u job.key [edited] rows).calls = s.calls :=
      (State.alike_notePeers u _ _ _ _).calls.trans rfl
    exact State.call?_goTo_self ((State.call?_congr hkept).trans hc)
  · exact State.call?_goTo_self (s := s.deliver u report) hc

theorem Call.settle_cancelled (hc : s.call? c.id = some c) :
    (settle u s c edited job todo (.error .cancelled)).call? c.id
      = some ⟨c.id, .editing edited todo none⟩ := by
  have hkept : (s.abandoned u job.key).calls = s.calls := (s.alike_abandoned u job.key).calls
  exact State.call?_goTo_self ((State.call?_congr hkept).trans hc)

/-- A step of a call that is sure of its answer brings it nearer to it. -/
theorem Sure.step (h : Sure u c s) (hview : u.view = Grid.source)
    (hatOnce : u.ruleSet.throttle.background = false)
    (hs : s.step? u (.call c.id) = some s') :
    ∃ stage, Sure u { c with stage } s' ∧ stage.ahead < c.stage.ahead := by
  have hgrid : s'.grid = s.grid := (State.advances_of_step? hs).spares.grid
  have hgoes : ∀ stage : CallStage, s'.call? c.id = some { c with stage } →
      stage.Sure s.grid.rows.length → Sure u { c with stage } s' := fun stage hthere hstage =>
    ⟨hthere, hgrid ▸ h.full, hgrid ▸ h.names, hgrid ▸ hstage⟩
  have hsure := h.stage
  simp only [State.step?, h.there, Option.bind_some] at hs
  unfold Call.step? at hs
  split at hs
  · -- nothing is left to judge
    rename_i hstage
    obtain rfl := Option.some.inj hs
    rw [hstage]
    exact ⟨_, hgoes _ (State.call?_goTo_self h.there) rfl, CallStage.ahead_told⟩
  · -- the next job is begun
    rename_i edited job todo hstage
    rw [hstage] at hsure ⊢
    simp only [hatOnce, Bool.false_eq_true, if_false, Option.some.injEq] at hs
    subst hs
    refine ⟨.editing edited todo (some (job, .working (s.judging u job.key))), ?_,
      CallStage.ahead_take⟩
    refine hgoes _ (State.call?_goTo_self (s := s.count _) h.there)
      ⟨fun next hnext => hsure.1 next (by simp [hnext]), fun next work heq => ?_⟩
    obtain ⟨rfl, rfl⟩ := Prod.mk.inj (Option.some.inj heq)
    exact h.judging hview (hsure.1 job (by simp))
  · -- the current job goes on or ends
    rename_i edited todo job work hstage
    rw [hstage] at hsure ⊢
    obtain ⟨hrows, hwork⟩ := hsure
    obtain ⟨⟨report, rows⟩, hanswer⟩ := hwork job work rfl
    obtain ⟨step, hstep, rfl⟩ := Option.map_eq_some_iff.mp hs
    cases step with
    | goesOn events next =>
      refine ⟨.editing edited todo (some (job, next)), ?_,
        CallStage.ahead_work (Running.steps_goesOn hstep)⟩
      refine hgoes _ (State.call?_goTo_self (s := s.write events) h.there)
        ⟨hrows, fun other after heq => ?_⟩
      obtain ⟨rfl, rfl⟩ := Prod.mk.inj (Option.some.inj heq)
      exact ⟨_, (Running.answer_of_goesOn hstep).trans hanswer⟩
    | ends answer =>
      rcases Running.answer_or_cancelled hstep with rfl | rfl
      · rw [hanswer] at hgoes ⊢
        refine ⟨_, hgoes _ (Call.settle_ok h.there) ⟨fun next hnext => ?_, by simp⟩,
          CallStage.ahead_judged fun next hnext => (State.row_of_followers hview hnext).2⟩
        rcases List.mem_append.mp hnext with hnext | hnext
        · exact (State.row_of_followers hview hnext).1
        · exact hrows next hnext
      · exact ⟨_, hgoes _ (Call.settle_cancelled h.there) ⟨hrows, by simp⟩,
          CallStage.ahead_cancelled⟩
  all_goals
    -- no call that judges edited cells, or one that has its answer
    rename_i hstage
    rw [hstage] at hsure
    first | exact hsure.elim | cases hs

/-- As long as it has no answer it can take a step after some time. -/
theorem Sure.goes_on (h : Sure u c s) : (∃ answer, s.callStage? c.id = some (.edited answer)) ∨
    ∃ millis s', s.moveAll? u [.pass millis, .step (.call c.id)] = some s' := by
  have hlater : ∀ millis s', c.step? u { s with now := s.now + millis } = some s' →
      s.moveAll? u [.pass millis, .step (.call c.id)] = some s' := by
    intro millis s' hs
    have hthere : ({ s with now := s.now + millis } : State).call? c.id = some c := h.there
    simp [State.moveAll?, State.move?, State.step?, hthere, hs]
  have hsure := h.stage
  cases hstage : c.stage with
  | editing edited todo current =>
    right
    cases current with
    | none =>
      cases todo with
      | nil => exact ⟨0, _, hlater 0 _ (by rw [Call.step?, hstage])⟩
      | cons job todo => exact ⟨0, _, hlater 0 _ (by rw [Call.step?, hstage])⟩
    | some current =>
      obtain ⟨job, work⟩ := current
      obtain ⟨millis, step, hstep⟩ := work.exists_step?_later s.now s.closed
      exact ⟨millis, _, hlater millis _ (by simp only [Call.step?, hstage, hstep]; rfl)⟩
  | edited answer => exact .inl ⟨answer, by rw [State.callStage?, h.there, Option.map_some, hstage]⟩
  | _ =>
    rw [hstage] at hsure
    exact hsure.elim

/-- A call that is sure of its answer comes to it. -/
theorem returns_of_sure (hview : u.view = Grid.source)
    (hatOnce : u.ruleSet.throttle.background = false) (h : Sure u c s) :
    Returns u c.id (· = .ok ()) s := by
  induction hn : c.stage.ahead using WellFoundedLT.induction generalizing s c with
  | ind n ih =>
    refine .intro (fun s' answer hmean hanswer => ?_) (fun s' hmean => (h.meanwhile hmean).goes_on)
      fun s' s'' hmean hs => ?_
    · have hlater := h.meanwhile hmean
      have hstage : c.stage = .edited answer := by
        rw [State.callStage?, hlater.there] at hanswer
        exact Option.some.inj hanswer
      have hsure := hlater.stage
      rw [hstage] at hsure
      exact hsure
    · obtain ⟨stage, hnext, hless⟩ := (h.meanwhile hmean).step hview hatOnce hs
      exact ih stage.ahead (hn ▸ hless) (c := { c with stage }) hnext rfl

end Watch

end CellRules
