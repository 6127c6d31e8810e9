/-
CellRules.Proofs.Watch.Telling — from the edits of a grid to the evaluations asked for.

The grid of a watch changes by writes alone, so a cell that is not written keeps its value
(`Run.cell_kept`). Whoever tells of an edit has asked for every cell of the row that it concerns by
the time the call returns (`Run.asked_of_told`), and nothing is asked for unless an edit was told
(`Run.told_of_asked`). Without runs over all rows, reports are those of evaluations
(`Run.reports_of_evaluations`).
-/
import CellRules.Proofs.Grid.Reading
import CellRules.Proofs.Watch.AllRows

namespace CellRules.Watch

variable {u : Setup} {grid : Grid} {s s' mid : State} {h h₁ h₂ : List Happening}
  {x : Option Happening} {key : CellKey} {g id : Nat} {row : Nat} {column : String} {c : Call}

/-! ## The grid -/

/-- The grid changes by writes and new rows only. -/
theorem Effect.grid_changes (hopen : s.closed = false) (hopen' : s'.closed = false)
    (heffect : Effect u s x s') :
    s'.grid = s.grid ∨ x = some .pushed ∨
      ∃ row column cell, x = some (.wrote row column) ∧
        s.grid.set row column cell = .ok s'.grid := by
  cases heffect with
  | course hknown hcourse =>
    cases hcourse with
    | @spread _ key keys hstage hs =>
      exact .inl (hs.grid.trans (State.schedule_alike (u := u) hopen key []).grid)
    | arm _ hs | discard _ _ hs | begin _ _ _ hs | queue _ hs | read _ hs | giveUp _ _ hs
    | work _ _ hs | stop _ _ hs | report _ _ _ hs | ignore _ _ hs | fail _ _ hs | finish _ hs =>
      exact .inl (hs.grid.trans rfl)
  | @ask c edited job todo _ hknown hstage hs =>
    exact .inl (hs.grid.trans (State.schedule_alike (u := u) hopen job.key [edited]).grid)
  | call hknown hcourse =>
    cases hcourse with
    | deliver _ hs | told _ hs | survey _ _ hs | look _ _ hs | found _ _ hs | strand _ _ hs
    | judged _ _ hs | conclude _ hs | refuse _ hs => exact .inl (hs.grid.trans rfl)
  | outside hout =>
    cases hout with
    | @write _ row column cell grid hset hs =>
      refine .inr (.inr ⟨row, column, cell, rfl, ?_⟩)
      rw [show s'.grid = grid from hs.grid]
      exact hset
    | push hs => exact .inr (.inl rfl)
    | tell hs | askAll hs | wait hs => exact .inl (hs.grid.trans rfl)
  | close hclosed =>
    subst hclosed
    cases hopen'

/-- As long as no row is added, a grid keeps its columns, its rows, and the cells that nobody
writes. -/
theorem Run.cell_kept (background : u.ruleSet.throttle.background = true)
    (before : Run u (.start u grid) h₁ mid) (after : Run u mid h s) (hopen : s.closed = false)
    (hmid : mid.grid.Regular) (hpushed : .pushed ∉ h) :
    s.grid.Regular ∧ s.grid.columns = mid.grid.columns ∧
      s.grid.rows.length = mid.grid.rows.length ∧
      ∀ row column, .wrote row column ∉ h →
        s.grid.get? row column = mid.grid.get? row column := by
  refine Run.induction_after background
    (motive := fun h s => .pushed ∉ h → s.grid.Regular ∧ s.grid.columns = mid.grid.columns ∧
      s.grid.rows.length = mid.grid.rows.length ∧ ∀ row column, .wrote row column ∉ h →
        s.grid.get? row column = mid.grid.get? row column)
    before (fun _ => ⟨hmid, rfl, rfl, fun _ _ _ => rfl⟩) ?_ after hopen hpushed
  intro h s₁ y s₂ hlaw₁ hlaw₂ heffect ih hpushed
  rw [List.mem_append, not_or] at hpushed
  obtain ⟨hregular, hcolumns, hlength, hcells⟩ := ih hpushed.1
  rcases heffect.grid_changes hlaw₁.isOpen.closed hlaw₂.isOpen.closed with
    hsame | rfl | ⟨row, column, cell, rfl, hset⟩
  · rw [hsame]
    exact ⟨hregular, hcolumns, hlength, fun row column hnone =>
      hcells row column fun hmem => hnone (List.mem_append_left _ hmem)⟩
  · exact absurd (by simp) hpushed.2
  · refine ⟨hregular.set hset, (Grid.columns_set hset).trans hcolumns,
      (Grid.length_set hset).trans hlength, fun other c hnone => ?_⟩
    rw [List.mem_append, not_or] at hnone
    rw [Grid.get?_set_of_ne hset, hcells other c hnone.1]
    by_contra hboth
    rw [not_or, not_not, not_not] at hboth
    obtain ⟨rfl, rfl⟩ := hboth
    exact hnone.2 (by simp)

/-! ## The calls of those who tell -/

/-- The call asks for the evaluations of an edit that it told of. -/
def CallStage.telling : CallStage → Bool
  | .editing _ _ _ => true
  | _ => false

/-- The call is in the midst of a run over all rows. -/
def CallStage.overAll : CallStage → Bool
  | .called | .surveying _ | .judging _ | .delivering _ _ => true
  | _ => false

/-- A call that told of an edit has asked for some of the cells concerned, and is about to ask for
the rest. -/
def Telling (id : Nat) (column : String) (jobs : List Job) (h : List Happening) (s : State) :
    Prop :=
  ∃ c done todo, s.call? id = some c ∧ jobs = done ++ todo ∧
    (∀ job ∈ done, ∃ g, .asked (.call id) job.key g [column] ∈ h) ∧
    (c.stage = .editing column todo none ∨ (todo = [] ∧ ∃ answer, c.stage = .edited answer))

theorem Telling.same {jobs : List Job} (ht : Telling id column jobs h s)
    (hcall : ∀ c, s.call? id = some c → s'.call? id = some c) :
    Telling id column jobs (h ++ x.toList) s' := by
  obtain ⟨c, done, todo, hc, hjobs, hdone, hstage⟩ := ht
  refine ⟨c, done, todo, hcall c hc, hjobs, fun job hjob => ?_, hstage⟩
  obtain ⟨g, hg⟩ := hdone job hjob
  exact ⟨g, List.mem_append_left _ hg⟩

/-- While the call is about to ask for the rest, it has asked for all before. -/
theorem Telling.editing {jobs todo : List Job} {edited : String}
    (ht : Telling c.id column jobs h s) (hknown : s.call? c.id = some c)
    (hstage : c.stage = .editing edited todo none) :
    edited = column ∧ ∃ done, jobs = done ++ todo ∧
      ∀ job ∈ done, ∃ g, .asked (.call c.id) job.key g [column] ∈ h := by
  obtain ⟨d, done, rest, hd, rfl, hdone, hat⟩ := ht
  rw [hknown] at hd
  obtain rfl := Option.some.inj hd
  rcases hat with hat | ⟨-, answer, hat⟩
  · rw [hstage] at hat
    simp only [CallStage.editing.injEq, and_true] at hat
    obtain ⟨rfl, rfl⟩ := hat
    exact ⟨rfl, done, rfl, hdone⟩
  · rw [hstage] at hat
    cases hat

/-- The call is at its edit, or done with it. -/
theorem Telling.stage {jobs : List Job} (ht : Telling c.id column jobs h s)
    (hknown : s.call? c.id = some c) :
    (∃ todo, c.stage = .editing column todo none) ∨ ∃ answer, c.stage = .edited answer := by
  obtain ⟨d, done, todo, hd, -, -, hat⟩ := ht
  rw [hknown] at hd
  obtain rfl := Option.some.inj hd
  exact hat.imp (fun hat => ⟨todo, hat⟩) And.right

theorem Telling.step {jobs : List Job} (hopen : s.closed = false) (hopen' : s'.closed = false)
    (heffect : Effect u s x s') (ht : Telling id column jobs h s) :
    Telling id column jobs (h ++ x.toList) s' := by
  have hcalls : s'.calls = s.calls → Telling id column jobs (h ++ x.toList) s' := fun hcalls =>
    ht.same fun c hc => (State.call?_congr hcalls).trans hc
  cases heffect with
  | course hknown hcourse => exact hcalls (hcourse.calls hopen)
  | @ask d edited job todo _ hknown hstage hs =>
    have hschedule := (State.schedule_alike (u := u) hopen job.key [edited]).calls
    have hknown' : (s.schedule u job.key [edited]).call? d.id = some d :=
      (State.call?_congr hschedule).trans hknown
    by_cases hid : id = d.id
    · subst hid
      obtain ⟨rfl, done, rfl, hdone⟩ := ht.editing hknown hstage
      refine ⟨{ d with stage := .editing edited todo none }, done ++ [job], todo, ?_, by simp,
        fun j hj => ?_, .inl rfl⟩
      · exact (State.call?_congr hs.calls).trans (State.call?_goTo_self hknown')
      · rcases List.mem_append.mp hj with hj | hj
        · obtain ⟨g, hg⟩ := hdone j hj
          exact ⟨g, List.mem_append_left _ hg⟩
        · rw [List.mem_singleton] at hj
          subst hj
          exact ⟨s.nextGeneration, by simp⟩
    · refine ht.same fun c hc => ?_
      rw [State.call?_congr hs.calls, State.call?_goTo_of_ne hid, State.call?_congr hschedule]
      exact hc
  | @call d _ _ hknown hcourse =>
    by_cases hid : id = d.id
    · subst hid
      cases hcourse with
      | told hstage hs =>
        obtain ⟨rfl, done, rfl, hdone⟩ := ht.editing hknown hstage
        refine ⟨{ d with stage := .edited (.ok ()) }, done, [], ?_, rfl, fun j hj => ?_,
          .inr ⟨rfl, _, rfl⟩⟩
        · exact (State.call?_congr hs.calls).trans (State.call?_goTo_self hknown)
        · obtain ⟨g, hg⟩ := hdone j hj
          exact ⟨g, List.mem_append_left _ hg⟩
      | refuse hstage hs =>
        rcases hstage with ⟨hstage, -⟩ | ⟨work, hstage, -⟩ | ⟨pool, hstage, -⟩ <;>
          rcases ht.stage hknown with ⟨_, hat⟩ | ⟨_, hat⟩ <;>
          (rw [hstage] at hat; cases hat)
      | survey hstage | look hstage | found hstage | strand hstage | judged hstage | deliver hstage
      | conclude hstage =>
        rcases ht.stage hknown with ⟨_, hat⟩ | ⟨_, hat⟩ <;> (rw [hstage] at hat; cases hat)
    · exact ht.same fun c hc => (hcourse.call?_of_ne hid).trans hc
  | outside hout =>
    cases hout with
    | write _ hs | push hs | wait hs => exact hcalls hs.calls
    | tell hs | askAll hs =>
      exact ht.same fun c hc => (State.call?_congr hs.calls).trans (State.call?_addCall hc)
  | close hclosed =>
    subst hclosed
    cases hopen'

/-- Whoever told of an edit has asked for all cells of the row that it concerns, unless the call is
still at it. -/
theorem Run.asked_of_told (background : u.ruleSet.throttle.background = true)
    (run : Run u (.start u grid) h s) (hopen : s.closed = false)
    (hx : h = h₁ ++ .told id row column :: h₂)
    (hdone : ∀ c ∈ s.calls, c.stage.telling = false) {target : String}
    (htarget : target ∈ u.editTargets column) :
    ∃ g, .asked (.call id) ⟨row, target⟩ g [column] ∈ h₂ := by
  obtain ⟨mid, hbefore, next, hstep, hafter⟩ := run.moment hx
  have hopen' := hstep.open (hafter.open hopen)
  obtain ⟨-, heffect⟩ := hbefore.lawful_step background hopen' hstep
  have hfirst :
      Telling id column ((u.editTargets column).map fun c => ⟨⟨row, c⟩, true⟩) [] next := by
    cases heffect with
    | course hknown hcourse => cases hcourse
    | call hknown hcourse => cases hcourse
    | outside hout =>
      cases hout with
      | tell hs =>
        refine ⟨⟨mid.nextCall, _⟩, [], _, ?_, rfl, nofun, .inl rfl⟩
        have hids := (hbefore.surveyed_once background hopen').ids
        have hnew : mid.calls.find? (·.id == mid.nextCall) = none := by
          rw [List.find?_eq_none]
          intro d hd hid
          have hmem : d.id ∈ mid.calls.map (·.id) := List.mem_map.mpr ⟨d, hd, rfl⟩
          rw [hids, List.mem_range, beq_iff_eq.mp hid] at hmem
          exact Nat.lt_irrefl _ hmem
        rw [State.call?, hs.calls, State.addCall, List.find?_append, hnew]
        simp
  obtain ⟨c, done, todo, hc, hjobs, hasked, hstage⟩ := Run.induction_after background
    (motive := Telling id column _) (hbefore.step hstep) hfirst
    (fun h s₁ y s₂ hlaw₁ hlaw₂ heffect ht =>
      ht.step hlaw₁.isOpen.closed hlaw₂.isOpen.closed heffect) hafter hopen
  rcases hstage with hstage | ⟨rfl, -⟩
  · have hnot := hdone c (State.mem_of_call? hc)
    rw [hstage] at hnot
    cases hnot
  · rw [List.append_nil] at hjobs
    subst hjobs
    exact hasked _ (List.mem_map.mpr ⟨target, htarget, rfl⟩)

/-! ## Quiet times -/

/-- Where a call stands now, one stood before, unless it is new. -/
theorem Effect.stage_back (hopen : s.closed = false) (hopen' : s'.closed = false)
    (heffect : Effect u s x s') {d : Call} (hd : d ∈ s'.calls) :
    (∃ c ∈ s.calls, (d.stage.overAll = true → c.stage.overAll = true) ∧
        (d.stage.telling = true → c.stage.telling = true)) ∨
      (∃ id row column, x = some (.told id row column) ∧ d.stage.overAll = false) ∨
      ∃ id, x = some (.calledAll id) ∧ d.stage.telling = false := by
  have hsame : s'.calls = s.calls → ∃ c ∈ s.calls,
      (d.stage.overAll = true → c.stage.overAll = true) ∧
        (d.stage.telling = true → c.stage.telling = true) :=
    fun hcalls => ⟨d, hcalls ▸ hd, id, id⟩
  have hgoTo : ∀ {t : State} {c : Call} {stage : CallStage}, s.call? c.id = some c →
      t.calls = s.calls → s'.calls = (Call.goTo t c stage).calls →
      (stage.overAll = true → c.stage.overAll = true) →
      (stage.telling = true → c.stage.telling = true) →
      ∃ c ∈ s.calls, (d.stage.overAll = true → c.stage.overAll = true) ∧
        (d.stage.telling = true → c.stage.telling = true) := by
    intro t c stage hknown ht hcalls hall htelling
    rw [hcalls] at hd
    rcases State.mem_goTo.mp hd with ⟨hd, -⟩ | ⟨rfl, -⟩
    · exact ⟨d, ht ▸ hd, id, id⟩
    · exact ⟨c, State.mem_of_call? hknown, hall, htelling⟩
  cases heffect with
  | course hknown hcourse => exact .inl (hsame (hcourse.calls hopen))
  | @ask c edited job todo _ hknown hstage hs =>
    have hcalls := (State.schedule_alike (u := u) hopen job.key [edited]).calls
    exact .inl (hgoTo hknown hcalls hs.calls nofun fun _ => by rw [hstage]; rfl)
  | call hknown hcourse =>
    left
    cases hcourse with
    | told hstage hs | conclude hstage hs | refuse hstage hs =>
      exact hgoTo hknown rfl hs.calls nofun nofun
    | survey hstage _ hs | look hstage _ hs | found hstage _ hs | strand hstage _ hs
    | judged hstage _ hs =>
      exact hgoTo hknown rfl hs.calls (fun _ => by rw [hstage]; rfl) nofun
    | deliver hstage hs =>
      exact hgoTo (t := s.deliver u _) hknown rfl hs.calls (fun _ => by rw [hstage]; rfl) nofun
  | outside hout =>
    cases hout with
    | write _ hs | push hs | wait hs => exact .inl (hsame hs.calls)
    | @tell _ row column hs =>
      rw [hs.calls] at hd
      rcases List.mem_append.mp hd with hd | hd
      · exact .inl ⟨d, hd, id, id⟩
      · rw [List.mem_singleton] at hd
        subst hd
        exact .inr (.inl ⟨s.nextCall, row, column, rfl, rfl⟩)
    | askAll hs =>
      rw [hs.calls] at hd
      rcases List.mem_append.mp hd with hd | hd
      · exact .inl ⟨d, hd, id, id⟩
      · rw [List.mem_singleton] at hd
        subst hd
        exact .inr (.inr ⟨s.nextCall, rfl, rfl⟩)
  | close hclosed =>
    subst hclosed
    cases hopen'

/-- Nothing is asked for unless an edit was told. -/
theorem Run.told_of_asked (background : u.ruleSet.throttle.background = true)
    (run : Run u (.start u grid) h s) (hopen : s.closed = false) (hasked : AskedFor h key g) :
    ∃ id row column, .told id row column ∈ h := by
  have hquiet := (Run.induction_open background
    (motive := fun h s => (∀ id row column, Happening.told id row column ∉ h) →
      s.evaluations = [] ∧ (∀ c ∈ s.calls, c.stage.telling = false) ∧ ∀ key g, ¬AskedFor h key g)
    (State.open_start u grid)
    (fun _ => ⟨rfl, nofun, fun key g ⟨_, _, hmem⟩ => nomatch hmem⟩) ?_ run hopen).2
  · by_contra hnone
    exact (hquiet fun id row column hmem => hnone ⟨id, row, column, hmem⟩).2.2 key g hasked
  intro h s₁ y s₂ hrun ho₁ ho₂ hstep heffect ih huntold
  have huntold₁ : ∀ id row column, Happening.told id row column ∉ h := fun id row column hmem =>
    huntold id row column (List.mem_append_left _ hmem)
  obtain ⟨hnone, hquiet, hunasked⟩ := ih huntold₁
  have hnot : ∀ key g fanOut asker, y ≠ some (.asked asker key g fanOut) := by
    rintro key g fanOut asker rfl
    cases heffect with
    | course hknown hcourse =>
      have hmem := State.mem_of_evaluation? hknown
      rw [hnone] at hmem
      cases hmem
    | ask hknown hstage hs =>
      have hcalm := hquiet _ (State.mem_of_call? hknown)
      rw [hstage] at hcalm
      cases hcalm
    | call hknown hcourse => cases hcourse
    | outside hout => cases hout
  refine ⟨?_, fun d hd => ?_, fun key g ⟨asker, fanOut, hmem⟩ => ?_⟩
  · cases heffect with
    | course hknown hcourse =>
      have hmem := State.mem_of_evaluation? hknown
      rw [hnone] at hmem
      cases hmem
    | ask hknown hstage hs => exact absurd rfl (hnot _ _ _ _)
    | call hknown hcourse => exact hcourse.kept.1.trans hnone
    | outside hout => exact hout.kept.1.trans hnone
    | close hclosed =>
      subst hclosed
      cases ho₂.closed
  · rcases heffect.stage_back ho₁.closed ho₂.closed hd with
      ⟨c, hc, -, hback⟩ | ⟨id, row, column, rfl, -⟩ | ⟨id, -, hcalm⟩
    · by_contra htelling
      rw [hquiet c hc] at hback
      cases hback (by simpa using htelling)
    · exact absurd (by simp) (huntold id row column)
    · exact hcalm
  · rcases List.mem_append.mp hmem with hmem | hmem
    · exact hunasked key g ⟨asker, fanOut, hmem⟩
    · exact hnot key g fanOut asker (Option.mem_toList.mp hmem)

/-- As long as no run over all rows is under way and none is asked for, nobody looks at all rows, and
reports are those of evaluations. -/
theorem Run.reports_of_evaluations (background : u.ruleSet.throttle.background = true)
    (before : Run u (.start u grid) h₁ mid) (after : Run u mid h s) (hopen : s.closed = false)
    (hmid : ∀ c ∈ mid.calls, c.stage.overAll = false) (hnone : ∀ id, .calledAll id ∉ h) :
    (∀ id, .surveyed id ∉ h) ∧ ∀ reporter key v, .reported reporter key v ∈ h →
      ∃ g, reporter = .evaluation g := by
  refine (Run.induction_after background
    (motive := fun h s => (∀ id, Happening.calledAll id ∉ h) →
      (∀ c ∈ s.calls, c.stage.overAll = false) ∧ (∀ id, .surveyed id ∉ h) ∧
        ∀ reporter key v, .reported reporter key v ∈ h → ∃ g, reporter = .evaluation g)
    before (fun _ => ⟨hmid, nofun, nofun⟩) ?_ after hopen hnone).2
  intro h s₁ y s₂ hlaw₁ hlaw₂ heffect ih hnone
  obtain ⟨hquiet, hlooks, hreports⟩ := ih fun id hmem => hnone id (List.mem_append_left _ hmem)
  have hseen : (∀ id, y ≠ some (.surveyed id)) ∧ ∀ reporter key v,
      y = some (.reported reporter key v) → ∃ g, reporter = .evaluation g := by
    cases heffect with
    | course hknown hcourse =>
      refine ⟨fun id hy => ?_, fun reporter key v hy => ?_⟩ <;> (subst hy; cases hcourse)
      exact ⟨_, rfl⟩
    | ask => exact ⟨by simp, by simp⟩
    | call hknown hcourse =>
      have hcalm := hquiet _ (State.mem_of_call? hknown)
      cases hcourse with
      | survey hstage | deliver hstage =>
        rw [hstage] at hcalm
        cases hcalm
      | _ => exact ⟨by simp, by simp⟩
    | outside hout => cases hout <;> exact ⟨by simp, by simp⟩
    | close => exact ⟨by simp, by simp⟩
  refine ⟨fun d hd => ?_, fun id hmem => ?_, fun reporter key v hmem => ?_⟩
  · rcases heffect.stage_back hlaw₁.isOpen.closed hlaw₂.isOpen.closed hd with
      ⟨c, hc, hback, -⟩ | ⟨id, row, column, -, hcalm⟩ | ⟨id, rfl, -⟩
    · by_contra hover
      rw [hquiet c hc] at hback
      cases hback (by simpa using hover)
    · exact hcalm
    · exact absurd (by simp) (hnone id)
  · rcases List.mem_append.mp hmem with hmem | hmem
    · exact hlooks id hmem
    · exact hseen.1 id (Option.mem_toList.mp hmem)
  · rcases List.mem_append.mp hmem with hmem | hmem
    · exact hreports reporter key v hmem
    · exact hseen.2 reporter key v (Option.mem_toList.mp hmem)

end CellRules.Watch
