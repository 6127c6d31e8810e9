/-
CellRules.Proofs.Watch.UpToDate — where edits are told in turn, no verdict stays behind.

All rows are judged, and then cells are written and told of, one after the other. At every moment at
most one call is without its answer, and what it has yet to do (`Ahead`) accounts for every cell that
is not fresh: for an edit these are its jobs (`Underway`), for a run over all rows the reports that
it has yet to deliver. Each step of a call keeps that (`EditCourse.ahead`, `CallCourse.ahead`), and
so does each move (`Keeping.step`). A call that has its answer leaves nothing but fresh verdicts.

`settled_in_turn` reads it off for rule sets made of common checks on one column.
-/
import CellRules.Proofs.Watch.InTurn

namespace CellRules.Watch

variable {u : Setup} {grid : Grid} {s s₀ s' t : State} {c : Call} {m : Move} {ms : List Move}
  {stage : CallStage} {untold : Nat → String → Prop} {row : Nat} {column : String}
  {key : CellKey} {x : Option Happening}

/-- What a call at this stage has yet to do accounts for every cell that is not fresh. -/
def Ahead (u : Setup) (s : State) (untold : Nat → String → Prop) : CallStage → Prop
  | .editing edited todo none => ∃ row, Underway u s untold row edited todo
  | .editing edited todo (some (job, work)) =>
    work.rest.answer = (s.judging u job.key).answer ∧
      ∃ row, Underway u s untold row edited (job :: todo)
  | .called => True
  | .surveying work => work.rest.answer = (u.ruleSet.survey (s.source u)).answer
  | .judging pool => pool.problem = none ∧ ∃ v,
      (u.ruleSet.survey (s.source u)).answer = .ok v ∧ pool.Sound (u.ruleSet.batches v)
  | .delivering todo _ =>
    (∀ cell ∈ todo, u.ruleSet.reportOn s.grid cell.row cell.column = .ok cell) ∧
      ∀ key, Judged u s key → Fresh u s untold key ∨
        ∃ cell ∈ todo, cell.row = key.row ∧ cell.column = key.column
  | .edited _ | .reported _ => ∀ key, Judged u s key → Fresh u s untold key

theorem Ahead.fresh (h : Ahead u s untold stage) (hover : stage.over = true)
    (hkey : Judged u s key) : Fresh u s untold key := by
  cases stage with
  | edited _ | reported _ => exact h key hkey
  | _ => cases hover

theorem Ahead.of_over (hover : stage.over = true)
    (h : ∀ key, Judged u s key → Fresh u s untold key) : Ahead u s untold stage := by
  cases stage with
  | edited _ | reported _ => exact h
  | _ => cases hover

/-- While grid and sink stay as they are, so does what a call has yet to do. -/
theorem Ahead.same (h : Ahead u s untold stage) (hgrid : s'.grid = s.grid)
    (hsink : s'.sink = s.sink) : Ahead u s' untold stage := by
  have hfresh : ∀ {key : CellKey}, Fresh u s untold key → Fresh u s' untold key :=
    fun h => h.same hgrid (by rw [hsink]) fun _ _ => id
  have hsource : s'.source u = s.source u := by rw [State.source, State.source, hgrid]
  cases stage with
  | editing edited todo current =>
    cases current with
    | none => exact h.imp fun _ hrow => hrow.same hgrid hsink
    | some current =>
      refine ⟨?_, h.2.imp fun _ hrow => hrow.same hgrid hsink⟩
      rw [State.judging, hsource]
      exact h.1
  | edited _ | reported _ => exact fun key hkey => hfresh (h key (hkey.same hgrid))
  | called => trivial
  | surveying work => exact h.trans (by rw [hsource])
  | judging pool => exact ⟨h.1, hsource ▸ h.2⟩
  | delivering todo cells =>
    refine ⟨?_, fun key hkey => (h.2 key (hkey.same hgrid)).imp_left hfresh⟩
    rw [hgrid]
    exact h.1

/-! ## The steps of a call -/

/-- A step of a call leaves the grid alone, and what the call has yet to do afterwards accounts for
every cell that is not fresh. -/
structure GoesOn (u : Setup) (s : State) (untold : Nat → String → Prop) (c : Call) (s' : State)
    (t : State) (stage : CallStage) : Prop where
  state : s'.Alike (Call.goTo t c stage)
  calls : t.calls = s.calls
  grid : t.grid = s.grid
  ahead : Ahead u t untold stage

/-- Judging the cells of an edit accounts for every cell at each step. -/
theorem EditCourse.ahead (hj : u.JudgesAtOnce grid) (hs : SameShape grid s)
    (hopen : s.closed = false) (hflags : s.FlagsFailures) (h : Ahead u s untold c.stage)
    (hcourse : EditCourse u s c s') : ∃ t stage, GoesOn u s untold c s' t stage := by
  cases hcourse with
  | take _ hstage hs' =>
    rw [hstage] at h
    exact ⟨s, _, hs', rfl, rfl, rfl, h⟩
  | work hstage hkept hs' =>
    rw [hstage] at h
    rw [hopen, Running.heads_false, Running.heads_false] at hkept
    exact ⟨s, _, hs', rfl, rfl, hkept.trans h.1, h.2⟩
  | @judged edited job todo work report rows hstage hanswer hs' =>
    rw [hstage] at h
    rw [hopen, Running.heads_false] at hanswer
    obtain ⟨hwork, row, hunderway⟩ := h
    exact ⟨s.deliver u report, _, hs', rfl, rfl, row,
      hunderway.judged hj hs hflags (hwork.symm.trans hanswer)⟩
  | @failed edited job todo work p next hstage hanswer hafter hs' =>
    rw [hstage] at h
    rw [hopen, Running.heads_false] at hanswer
    obtain ⟨hwork, row, hunderway⟩ := h
    have hfresh : ∀ key, Judged u s key → Fresh u s untold key := fun _ hkey =>
      hunderway.failed hj hs (hwork.symm.trans hanswer) hkey
    refine ⟨s, next, hs', rfl, rfl, ?_⟩
    rcases hafter with rfl | rfl
    · exact ⟨row, fun job hmem => hunderway.columns job (by simp [hmem]),
        fun job hmem => hunderway.rows job (by simp [hmem]), fun key hkey => .inl (hfresh key hkey)⟩
    · exact hfresh

namespace Setup.JudgesAtOnce

/-- A look at the rows finds all columns that are judged. -/
theorem survey (hj : u.JudgesAtOnce grid) {v : RuleSet.Survey}
    (h : (u.ruleSet.survey (s.source u)).answer = .ok v) :
    v = ⟨u.ruleSet.targets.filter fun column => s.grid.columns.contains column,
      ⟨s.grid.contexts⟩⟩ := by
  rw [State.source, hj.view, RuleSet.answer_survey] at h
  exact (Except.ok.inj h).symm

/-- The reports of all batches are those on the grid as it is, and there is one on every cell. -/
theorem gathered (hj : u.JudgesAtOnce grid) (hs : SameShape grid s) {v : RuleSet.Survey}
    {batches : List (List CellReport)} (hv : (u.ruleSet.survey (s.source u)).answer = .ok v)
    (h : (batches.map Except.ok).Perm ((u.ruleSet.batches v).map Work.answer)) :
    (∀ cell ∈ RuleSet.gather batches,
        u.ruleSet.reportOn s.grid cell.row cell.column = .ok cell) ∧
      ∀ key, Judged u s key → ∃ cell ∈ RuleSet.gather batches,
        cell.row = key.row ∧ cell.column = key.column := by
  obtain rfl := hj.survey hv
  obtain ⟨hsound, hall⟩ := RuleSet.reportOn_gather hs.regular
    (fun c hc => by simpa using (List.mem_filter.mp hc).2) h
  refine ⟨hsound, fun key hkey => ?_⟩
  obtain ⟨cell, hmem, hok⟩ := hall key.row key.column hkey.1 (List.mem_filter.mpr ⟨hkey.2, by
    simpa [hs.columns] using hj.columns _ hkey.2⟩)
  exact ⟨cell, hmem, RuleSet.reportOn_key hok⟩

/-- Judging all rows comes to its reports. -/
theorem not_refused (hj : u.JudgesAtOnce grid) (hopen : s.closed = false) {p : Problem}
    (h : Ahead u s untold c.stage)
    (hwhy : (c.stage = .called ∧ s.closed = true ∧ p = .schedulerClosed) ∨
      (∃ work, c.stage = .surveying work ∧ work.heads s.closed = .error p) ∨
      ∃ pool, c.stage = .judging pool ∧ pool.result? = some (.error p)) : False := by
  rcases hwhy with ⟨-, hclosed, -⟩ | ⟨work, hstage, hanswer⟩ | ⟨pool, hstage, hresult⟩
  · simp [hopen] at hclosed
  · rw [hstage] at h
    rw [hopen, Running.heads_false] at hanswer
    have hsurvey := h.symm.trans hanswer
    rw [State.source, hj.view, RuleSet.answer_survey] at hsurvey
    cases hsurvey
  · rw [hstage] at h
    simp only [Pool.result?, h.1] at hresult
    split at hresult <;> cases hresult

end Setup.JudgesAtOnce

/-- Judging all rows accounts for every cell at each step. -/
theorem CallCourse.ahead (hj : u.JudgesAtOnce grid) (hs : SameShape grid s)
    (hopen : s.closed = false) (hslots : s.limiter.closed = false) (h : Ahead u s untold c.stage)
    (hcourse : CallCourse u s c x s') : ∃ t stage, GoesOn u s untold c s' t stage := by
  cases hcourse with
  | told hstage hs' =>
    rw [hstage] at h
    obtain ⟨row, hunderway⟩ := h
    exact ⟨s, _, hs', rfl, rfl, fun _ hkey => hunderway.fresh hkey⟩
  | survey hstage _ hs' => exact ⟨s, _, hs', rfl, rfl, rfl⟩
  | look hstage hkept hs' =>
    rw [hstage] at h
    rw [hopen, Running.heads_false, Running.heads_false] at hkept
    exact ⟨s, _, hs', rfl, rfl, hkept.trans h⟩
  | found hstage hanswer hs' =>
    rw [hstage] at h
    rw [hopen, Running.heads_false] at hanswer
    exact ⟨s, _, hs', rfl, rfl, rfl, _, h.symm.trans hanswer, Pool.sound_start _ _ _⟩
  | strand hstage hpool hs' =>
    rw [hstage] at h
    rw [hopen] at hpool
    obtain ⟨hnone, v, hv, hsound⟩ := h
    refine ⟨s, _, hs', rfl, rfl, hsound.problem_step? hnone (fun work hwork => ?_) hslots hpool,
      v, hv, hsound.step hpool⟩
    rw [hj.survey hv] at hwork
    exact RuleSet.batches_ok hs.regular
      (fun c hc => by simpa using (List.mem_filter.mp hc).2) hwork
  | judged hstage hresult hs' =>
    rw [hstage] at h
    obtain ⟨-, v, hv, hsound⟩ := h
    obtain ⟨hreports, hall⟩ := hj.gathered hs hv (hsound.result hresult)
    exact ⟨s, _, hs', rfl, rfl, hreports, fun key hkey => .inr (hall key hkey)⟩
  | @deliver _ cell todo cells hstage hs' =>
    rw [hstage] at h
    obtain ⟨hreports, hall⟩ := h
    refine ⟨s.deliver u cell, _, hs', rfl, rfl, fun d hd => hreports d (by simp [hd]),
      fun key hkey => ?_⟩
    by_cases hcell : cell.row = key.row ∧ cell.column = key.column
    · have hreport := hreports cell (by simp)
      rw [hcell.1, hcell.2] at hreport
      exact .inl (.of_reportOn hs.regular hreport (by rw [State.latest?_deliver, if_pos hcell]))
    · refine (hall key hkey).imp (fun hfresh => ?_) fun ⟨d, hd, hdkey⟩ => ⟨d, ?_, hdkey⟩
      · exact hfresh.same rfl (by rw [State.latest?_deliver, if_neg hcell]) fun _ _ => id
      · exact (List.mem_cons.mp hd).resolve_left fun heq => hcell (heq ▸ hdkey)
  | conclude hstage hs' =>
    rw [hstage] at h
    exact ⟨s, _, hs', rfl, rfl, fun key hkey => (h.2 key hkey).resolve_right (by simp)⟩
  | refuse hwhy hs' => exact (hj.not_refused hopen h hwhy).elim

/-- A call that goes on has no answer yet. -/
theorem EditCourse.not_over (h : EditCourse u s c s') : c.stage.over = false := by
  cases h with
  | take _ hstage | work hstage | judged hstage | failed hstage => rw [hstage]; rfl

theorem CallCourse.not_over (h : CallCourse u s c x s') : c.stage.over = false := by
  cases h with
  | told hstage | survey hstage | look hstage | found hstage | strand hstage | judged hstage
  | deliver hstage | conclude hstage => rw [hstage]; rfl
  | refuse hwhy =>
    rcases hwhy with ⟨hstage, -⟩ | ⟨_, hstage, -⟩ | ⟨_, hstage, -⟩ <;> (rw [hstage]; rfl)

/-! ## The moves of a run -/

/-- The watch is calm, the grid has its shape, and one call is ahead of all the others, which are
over. -/
structure Keeping (u : Setup) (grid : Grid) (untold : Nat → String → Prop) (s : State) : Prop where
  calm : Calm s
  shape : SameShape grid s
  call : ∃ c ∈ s.calls, (∀ d ∈ s.calls, d.id ≠ c.id → d.stage.over = true) ∧
    Ahead u s untold c.stage

namespace Keeping

/-- The call that goes on is the one that is ahead. -/
theorem ahead_of_not_over (h : Keeping u grid untold s) (hc : c ∈ s.calls)
    (hover : c.stage.over = false) :
    (∀ d ∈ s.calls, d.id ≠ c.id → d.stage.over = true) ∧ Ahead u s untold c.stage := by
  obtain ⟨d, hd, hothers, hahead⟩ := h.call
  have hid : c.id = d.id := by
    by_contra hne
    rw [hothers c hc hne] at hover
    cases hover
  obtain rfl := h.calm.ids.eq_of_id hc hd hid
  exact ⟨hothers, hahead⟩

/-- When all calls are over, every cell is fresh. -/
theorem fresh (h : Keeping u grid untold s) (hover : ∀ c ∈ s.calls, c.stage.over = true)
    (hkey : Judged u s key) : Fresh u s untold key := by
  obtain ⟨c, hc, -, hahead⟩ := h.call
  exact hahead.fresh (hover c hc) hkey

theorem goTo (h : Keeping u grid untold s) (hcalm : Calm s') (hc : c ∈ s.calls)
    (hothers : ∀ d ∈ s.calls, d.id ≠ c.id → d.stage.over = true)
    (hgoes : ∃ t stage, GoesOn u s untold c s' t stage) : Keeping u grid untold s' := by
  obtain ⟨t, stage, hstate, hcalls, hgrid, hahead⟩ := hgoes
  have hmem : ∀ d, d ∈ s'.calls ↔ (d ∈ s.calls ∧ d.id ≠ c.id) ∨
      (d = { c with stage } ∧ ∃ d ∈ s.calls, d.id = c.id) := fun d => by
    rw [hstate.calls, State.mem_goTo, hcalls]
  refine ⟨hcalm, h.shape.same (hstate.grid.trans hgrid), { c with stage },
    (hmem _).mpr (.inr ⟨rfl, c, hc, rfl⟩), fun d hd hne => ?_, hahead.same hstate.grid hstate.sink⟩
  exact ((hmem d).mp hd).elim (fun hkept => hothers d hkept.1 hne) fun hnew =>
    absurd (congrArg Call.id hnew.1) hne

/-- A new call comes when all others are over. -/
theorem addCall {more : Nat → String → Prop} (h : Keeping u grid untold s) (hcalm : Calm s')
    (hover : ∀ c ∈ s.calls, c.stage.over = true) (hs : s'.Alike (s.addCall stage))
    (hahead : Ahead u s more stage) : Keeping u grid more s' := by
  have hcalls : s'.calls = s.calls ++ [⟨s.nextCall, stage⟩] := hs.calls
  refine ⟨hcalm, h.shape.same hs.grid, ⟨s.nextCall, stage⟩, by simp [hcalls], fun d hd hne => ?_,
    hahead.same hs.grid hs.sink⟩
  rw [hcalls] at hd
  exact (List.mem_append.mp hd).elim (hover d) fun hnew =>
    absurd (congrArg Call.id (List.mem_singleton.mp hnew)) hne

/-- Every move keeps it, made in turn, unless it adds rows or closes the watch. -/
theorem step (hj : u.JudgesAtOnce grid) (h : Keeping u grid (Untold ms) s)
    (hplace : m.inPlace = true) (hturn : m.isOutside = true → ∀ c ∈ s.calls, c.stage.over = true)
    (hprompt : Prompt u s m s') : Keeping u grid (Untold (ms ++ [m])) s' := by
  have hcalm : Calm s' := h.calm.step (by rintro rfl; cases hplace) hprompt
  cases hprompt with
  | @write _ row column cell g hset hs =>
    have hover := hturn rfl
    have hgrid : s.grid.set row column cell = .ok s'.grid := hset.trans (by rw [hs.grid])
    have hsink : s'.sink = s.sink := hs.sink
    have hcalls : s'.calls = s.calls := hs.calls
    obtain ⟨c, hc, -, -⟩ := h.call
    refine ⟨hcalm, ⟨h.shape.regular.set hgrid, (Grid.columns_set hgrid).trans h.shape.columns,
      (Grid.length_set hgrid).trans h.shape.length⟩, c, hcalls ▸ hc,
      fun d hd _ => hover d (hcalls ▸ hd), .of_over (hover c hc) fun key hkey => ?_⟩
    have hkey' : Judged u s key := ⟨Grid.length_set hgrid ▸ hkey.1, hkey.2⟩
    exact (h.fresh hover hkey').write hj.rules hkey.2 hgrid (by rw [hsink])
      (fun r c huntold => untold_concat.mpr (.inr ⟨huntold, nofun⟩))
      (untold_concat.mpr (.inl ⟨cell, rfl⟩))
  | push _ => cases hplace
  | @tell _ row column hs =>
    have hover := hturn rfl
    refine h.addCall hcalm hover hs ⟨row, .told hj (fun _ hkey => h.fresh hover hkey) ?_⟩
    intro r c huntold
    by_cases hat : r = row ∧ c = column
    · exact .inr hat
    · refine .inl (untold_concat.mpr (.inr ⟨huntold, fun heq => hat ?_⟩))
      obtain ⟨rfl, rfl⟩ := Move.edit.inj heq
      exact ⟨rfl, rfl⟩
  | askAll hs => exact h.addCall hcalm (hturn rfl) hs trivial
  | close _ => cases hplace
  | wait hs =>
    obtain ⟨c, hc, hothers, hahead⟩ := h.call
    rw [untold_concat_of_inside rfl]
    exact ⟨hcalm, h.shape.same hs.grid, c, hs.calls ▸ hc, fun d hd => hothers d (hs.calls ▸ hd),
      hahead.same hs.grid hs.sink⟩
  | edit hknown hcourse =>
    obtain ⟨hothers, hahead⟩ := h.ahead_of_not_over (State.mem_of_call? hknown) hcourse.not_over
    rw [untold_concat_of_inside rfl]
    exact h.goTo hcalm (State.mem_of_call? hknown) hothers
      (hcourse.ahead hj h.shape h.calm.isOpen h.calm.flags hahead)
  | call hknown hcourse =>
    obtain ⟨hothers, hahead⟩ := h.ahead_of_not_over (State.mem_of_call? hknown) hcourse.not_over
    rw [untold_concat_of_inside rfl]
    exact h.goTo hcalm (State.mem_of_call? hknown) hothers
      (hcourse.ahead hj h.shape h.calm.isOpen h.calm.slots hahead)

end Keeping

/-- After all rows were asked for, every run keeps it in which the moves from outside are made in
turn, and none adds rows or closes the watch. -/
theorem InTurn.keeping (hj : u.JudgesAtOnce grid)
    (hfirst : (State.start u grid).move? u .validateAll = some s₀) (run : InTurn u s₀ ms s)
    (hplace : ∀ m ∈ ms, m.inPlace = true) : Keeping u grid (Untold ms) s := by
  induction run with
  | rest =>
    obtain rfl := Option.some.inj hfirst
    exact ⟨(Calm.start u grid).addCall _, ⟨hj.regular, rfl, rfl⟩, ⟨0, .called⟩, by
      simp [State.addCall, State.start, State.nextCall], fun d hd hne => by
      simp_all [State.addCall, State.start, State.nextCall], trivial⟩
  | @move ms s₁ s₂ m before turn step ih =>
    have h := ih fun m hm => hplace m (by simp [hm])
    exact h.step hj (hplace m (by simp)) turn
      (State.move?_prompt hj.atOnce h.calm.isOpen h.calm.alone step)

/-- Once every write was told of and all calls are over, the latest verdict on every cell is the one
that its rules give on the grid as it is. -/
theorem InTurn.upToDate (hj : u.JudgesAtOnce grid)
    (hfirst : (State.start u grid).move? u .validateAll = some s₀) (run : InTurn u s₀ ms s)
    (hplace : ∀ m ∈ ms, m.inPlace = true) (htold : ∀ row column, ¬Untold ms row column)
    (hover : ∀ c ∈ s.calls, c.stage.over = true) (hrow : key.row < grid.rows.length)
    (hcolumn : key.column ∈ u.ruleSet.targets) :
    ∃ v, s.sink.latest? key.row key.column = some v ∧ s.verdictOn u key = .ok v := by
  have h := run.keeping hj hfirst hplace
  have hkey : Judged u s key := ⟨h.shape.length ▸ hrow, hcolumn⟩
  obtain ⟨report, hreport, hstands⟩ :=
    (h.fresh hover hkey).upToDate hj.rules h.shape.regular hcolumn htold
  refine ⟨report.verdict, hstands, ?_⟩
  rw [hj.verdictOn h.shape hkey, hreport]
  rfl

/-- Where edited cells are judged at once by common checks on one column, in either mode: after all
rows were judged, and cells were written and told of in any number and order, the latest verdict on
every cell is the one that its rules give on the grid as it is. -/
theorem settled_in_turn {name : String} {steps : List SetStep}
    (hset : (SetDraft.ofSteps name steps).build.answer = .ok u.ruleSet)
    (hshort : ∀ step ∈ steps, step.isShort = true)
    (hatOnce : u.ruleSet.throttle.background = false) (hview : u.view = Grid.source)
    (hgrid : grid.Regular) (hcolumns : ∀ column ∈ u.ruleSet.targets, column ∈ grid.columns)
    (hfirst : (State.start u grid).move? u .validateAll = some s₀) (hrun : InTurn u s₀ ms s)
    (hplace : ∀ m ∈ ms, m.inPlace = true) (htold : ∀ row column, ¬Untold ms row column)
    (hover : ∀ c ∈ s.calls, c.stage.over = true) (hrow : row < grid.rows.length)
    (hcolumn : column ∈ u.ruleSet.targets) :
    ∃ v, s.sink.latest? row column = some v ∧ s.verdictOn u ⟨row, column⟩ = .ok v := by
  have hj : u.JudgesAtOnce grid :=
    ⟨hatOnce, hview, SetDraft.build_namesColumns hset hshort, hgrid, hcolumns⟩
  have hkey : (⟨row, column⟩ : CellKey).row < grid.rows.length := hrow
  exact hrun.upToDate hj hfirst hplace htold hover hkey hcolumn

/-- Codes must differ, and one of them asks for a name. -/
def shortSteps : List SetStep :=
  [.throttle .synchronous, .unique "Code", .requiredWhen "Name" "Code" "c"]

def promptWatch (ruleSet : RuleSet) : Setup := { ruleSet, view := Grid.source }

def items : Grid := ⟨["Code", "Name"], [[.text "a", .text "x"], [.text "b", .text ""]]⟩

/-- All rows are judged. Then row 1 gets the code of row 0, and after that the one that asks for a
name. -/
def promptEdits : List Move :=
  List.flatten
    [Task.steps 3 (.call 0), Task.steps 8 (.strand 0 0), Task.steps 6 (.call 0),
      [.setCell 1 "Code" (.text "a"), .edit 1 "Code"], Task.steps 12 (.call 1),
      [.setCell 1 "Code" (.text "c"), .edit 1 "Code"], Task.steps 13 (.call 2)]

/-- Row 0 was a duplicate for a while, and its verdict is that of the grid as it is. -/
theorem settled_in_turn_items :
    ∃ ruleSet s₀ s v, (SetDraft.ofSteps "items" shortSteps).build.answer = .ok ruleSet ∧
      (State.start (promptWatch ruleSet) items).move? (promptWatch ruleSet) .validateAll = some s₀ ∧
      InTurn (promptWatch ruleSet) s₀ promptEdits s ∧
      s.sink.latest? 0 "Code" = some v ∧ s.verdictOn (promptWatch ruleSet) ⟨0, "Code"⟩ = .ok v := by
  have hevaluated : ((SetDraft.ofSteps "items" shortSteps).build.answer.toOption.bind fun ruleSet =>
      ((State.start (promptWatch ruleSet) items).move? (promptWatch ruleSet) .validateAll).bind
        fun s₀ => (s₀.takeTurns? (promptWatch ruleSet) promptEdits).map fun s =>
          (ruleSet.throttle.background, ruleSet.targets, s.calls.all (·.stage.over)))
      = some (false, ["Code", "Name"], true) := by
    decide +kernel
  obtain ⟨ruleSet, hset, hrest⟩ := Option.bind_eq_some_iff.mp hevaluated
  obtain ⟨s₀, hfirst, hrest⟩ := Option.bind_eq_some_iff.mp hrest
  obtain ⟨s, hturns, heq⟩ := Option.map_eq_some_iff.mp hrest
  simp only [Prod.mk.injEq, List.all_eq_true] at heq
  obtain ⟨hatOnce, htargets, hover⟩ := heq
  have hbuilt : (SetDraft.ofSteps "items" shortSteps).build.answer = .ok ruleSet := by
    cases hanswer : (SetDraft.ofSteps "items" shortSteps).build.answer with
    | error p =>
      rw [hanswer] at hset
      cases hset
    | ok r =>
      rw [hanswer] at hset
      rw [Option.some.inj hset]
  have hrun := InTurn.rest.of_takeTurns? hturns
  have hsettled : ∃ v, s.sink.latest? 0 "Code" = some v ∧
      s.verdictOn (promptWatch ruleSet) ⟨0, "Code"⟩ = .ok v :=
    settled_in_turn hbuilt (by simp [shortSteps, SetStep.isShort]) hatOnce rfl
      ⟨by decide, by decide⟩ (by rw [promptWatch, htargets]; decide) hfirst hrun (by decide)
      (by simp [promptEdits, Task.steps, untold_cons, not_untold_nil]) hover (by decide)
      (by rw [promptWatch, htargets]; decide)
  obtain ⟨v, hlatest, hverdict⟩ := hsettled
  exact ⟨ruleSet, s₀, s, v, hbuilt, hfirst, hrun, hlatest, hverdict⟩

end CellRules.Watch
