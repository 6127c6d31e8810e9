/-
CellRules.Proofs.Watch.Closed — what calls still come to in a watch that was closed.

The calls that are under way when a watch is closed are told to stop; but a call looks whether it is
told only where its work has a checkpoint or waits, so it may still come to reports:

* those that it has in hand, or to which the work it has begun comes without looking
  (`CallStage.Gives`);
* those on the cells that it goes on to judge, where no rule looks either (`Call.Begins`).

A step of a call delivers only such reports and comes to no others afterwards (`Lessens`). Where no
rule is hasty and every call waits there are none (`CallStage.Waits.not_gives`, `Call.Begins.hasty`).
-/
import CellRules.Proofs.RuleSet.AllRows
import CellRules.Proofs.RuleSet.Hasty
import CellRules.Proofs.Watch.Apart

namespace CellRules

/-- What is delivered of a report. -/
def CellReport.delivery (r : CellReport) : Delivery := ⟨r.row, r.column, r.verdict⟩

namespace Watch

variable {u : Setup} {s s' : State} {c : Call} {stage : CallStage} {x : Option Happening}
  {report : CellReport}

/-! ## What a call still reports -/

/-- The reports that a call, told to stop, comes to with what it has begun. -/
inductive CallStage.Gives (u : Setup) : CallStage → CellReport → Prop
  | inHand {todo cells : List CellReport} {report : CellReport} (mem : report ∈ todo) :
      Gives u (.delivering todo cells) report
  | judged {pool : Pool (List CellReport)} {batch : List CellReport} {report : CellReport}
      (ends : pool.ComesTo batch) (mem : report ∈ batch) : Gives u (.judging pool) report
  | surveyed {work : Running RuleSet.Survey} {v : RuleSet.Survey} {batch : List CellReport}
      {report : CellReport} (survey : work.heads true = .ok v)
      (ends : (Call.poolFor u v).ComesTo batch) (mem : report ∈ batch) :
      Gives u (.surveying work) report
  | underWay {edited : String} {todo : List Job} {job : Job} {work : Running Judgement}
      {report : CellReport} {rows : Dataset} (answer : work.heads true = .ok (report, rows)) :
      Gives u (.editing edited todo (some (job, work))) report

/-- The call goes on to judge another cell, which comes to the report though it is told to stop. -/
def Call.Begins (u : Setup) (s : State) (c : Call) (report : CellReport) : Prop :=
  u.ruleSet.throttle.background = false ∧ ∃ edited job todo rows,
    c.stage = .editing edited (job :: todo) none ∧
      (s.judging u job.key).cutShort = .ok (report, rows)

/-- The call was refused, or will be with its next step. -/
def CallStage.refused : CallStage → Bool
  | .called | .edited (.error .schedulerClosed) | .reported (.error .schedulerClosed) => true
  | _ => false

/-! ## Steps of a closed watch -/

/-- The call goes on, delivers reports that it comes to, and comes to no others afterwards but that on
a cell which it begins to judge. One that is refused delivers none. -/
structure Lessens (u : Setup) (s : State) (c : Call) (s' : State) (stage : CallStage)
    (said : List CellReport) : Prop where
  calls : s'.calls = (Call.goTo s c stage).calls
  ledger : s'.ledger = s.ledger
  sink : s'.sink.deliveries = s.sink.deliveries ++ said.map CellReport.delivery
  now : ∀ report ∈ said, c.stage.Gives u report
  later : ∀ report, stage.Gives u report → c.stage.Gives u report ∨ c.Begins u s report
  refused : c.stage.refused = true → stage.refused = true ∧ said = []

namespace Lessens

/-- A step that delivers nothing. -/
theorem quiet (hs : s'.Alike (Call.goTo s c stage))
    (later : ∀ report, stage.Gives u report → c.stage.Gives u report ∨ c.Begins u s report)
    (refused : c.stage.refused = true → stage.refused = true) : Lessens u s c s' stage [] where
  calls := hs.calls
  ledger := hs.ledger
  sink := by rw [hs.sink, List.map_nil, List.append_nil]; rfl
  now := nofun
  later := later
  refused h := ⟨refused h, rfl⟩

/-- A step that delivers a report. -/
theorem saying (hs : s'.Alike (Call.goTo (s.deliver u report) c stage))
    (now : c.stage.Gives u report)
    (later : ∀ report, stage.Gives u report → c.stage.Gives u report ∨ c.Begins u s report)
    (refused : c.stage.refused = false) : Lessens u s c s' stage [report] where
  calls := hs.calls
  ledger := hs.ledger
  sink := by
    rw [hs.sink]
    exact List.map_append
  now r hr := by rwa [List.mem_singleton.mp hr]
  later := later
  refused h := by rw [refused] at h; cases h

end Lessens

theorem CallCourse.lessens (hclosed : s.closed = true) (hslots : s.limiter.closed = true)
    (hproper : c.stage.Proper u) (h : CallCourse u s c x s') :
    ∃ stage said, Lessens u s c s' stage said := by
  cases h with
  | told hstage hs => exact ⟨_, [], .quiet hs nofun (by simp [hstage, CallStage.refused])⟩
  | survey _ hopen => exact absurd (hopen.symm.trans hclosed) nofun
  | look hstage hkept hs =>
    rw [hclosed] at hkept
    refine ⟨_, [], .quiet hs (fun report hgives => .inl ?_) (by simp [hstage, CallStage.refused])⟩
    cases hgives with
    | surveyed hsurvey hends hmem =>
      rw [hstage]
      exact .surveyed (hkept.symm.trans hsurvey) hends hmem
  | found hstage hanswer hs =>
    rw [hclosed] at hanswer
    refine ⟨_, [], .quiet hs (fun report hgives => .inl ?_) (by simp [hstage, CallStage.refused])⟩
    cases hgives with
    | judged hends hmem =>
      rw [hstage]
      exact .surveyed hanswer hends hmem
  | strand hstage hpool hs =>
    rw [hstage] at hproper
    rw [hclosed] at hpool
    refine ⟨_, [], .quiet hs (fun report hgives => .inl ?_) (by simp [hstage, CallStage.refused])⟩
    cases hgives with
    | judged hends hmem =>
      rw [hstage]
      have hadvance := Pool.step?_advance (fun _ => hslots) hpool
      exact .judged (hends.of_advance hproper.toNumbered hadvance) hmem
  | judged hstage hresult hs =>
    refine ⟨_, [], .quiet hs (fun report hgives => .inl ?_) (by simp [hstage, CallStage.refused])⟩
    cases hgives with
    | inHand hmem =>
      rw [hstage]
      obtain ⟨batch, hbatch, hmem⟩ := RuleSet.mem_gather.mp hmem
      exact .judged (.of_result hresult hbatch) hmem
  | deliver hstage hs =>
    refine ⟨_, [_], .saying hs ?_ (fun report hgives => .inl ?_)
      (by simp [hstage, CallStage.refused])⟩
    · rw [hstage]
      exact .inHand (by simp)
    · cases hgives with
      | inHand hmem =>
        rw [hstage]
        exact .inHand (by simp [hmem])
  | conclude hstage hs => exact ⟨_, [], .quiet hs nofun (by simp [hstage, CallStage.refused])⟩
  | refuse hwhy hs =>
    refine ⟨_, [], .quiet hs nofun fun hrefused => ?_⟩
    rcases hwhy with ⟨-, -, rfl⟩ | ⟨_, hstage, -⟩ | ⟨_, hstage, -⟩
    · rfl
    · simp [hstage, CallStage.refused] at hrefused
    · simp [hstage, CallStage.refused] at hrefused

theorem EditCourse.lessens (hclosed : s.closed = true) (h : EditCourse u s c s') :
    ∃ stage said, Lessens u s c s' stage said := by
  cases h with
  | @take edited job todo hatOnce hstage hs =>
    refine ⟨_, [], .quiet hs (fun report hgives => .inr ?_) (by simp [hstage, CallStage.refused])⟩
    cases hgives with
    | underWay hanswer =>
      exact ⟨hatOnce, edited, job, todo, _, hstage, hanswer⟩
  | work hstage hkept hs =>
    rw [hclosed] at hkept
    refine ⟨_, [], .quiet hs (fun report hgives => .inl ?_) (by simp [hstage, CallStage.refused])⟩
    cases hgives with
    | underWay hanswer =>
      rw [hstage]
      exact .underWay (hkept.symm.trans hanswer)
  | judged hstage hanswer hs =>
    rw [hclosed] at hanswer
    refine ⟨_, [_], .saying hs ?_ nofun (by simp [hstage, CallStage.refused])⟩
    rw [hstage]
    exact .underWay hanswer
  | failed hstage _ hafter hs =>
    refine ⟨_, [], .quiet hs (fun report hgives => ?_) (by simp [hstage, CallStage.refused])⟩
    rcases hafter with rfl | rfl <;> cases hgives

/-- Whatever step a call takes in a closed watch. -/
theorem Call.Advance.lessens (hclosed : s.closed = true) (hslots : s.limiter.closed = true)
    (hc : s.call? c.id = some c) (hproper : c.stage.Proper u) (h : c.Advance u s s') :
    ∃ stage said, Lessens u s c s' stage said := by
  rcases h.split hc with ⟨-, edited, job, todo, hstage, rfl⟩ | hedit | hcall
  · -- nothing is asked for any more
    rw [State.schedule, if_pos hclosed]
    exact ⟨_, [], .quiet (.refl _) (fun _ hgives => by cases hgives)
      (by simp [hstage, CallStage.refused])⟩
  · exact hedit.lessens hclosed
  · exact hcall.lessens hclosed hslots hproper

/-! ## Where closing lets nothing through -/

/-- The call waits in a check or in line, or it is between two cells. -/
def CallStage.Waits : CallStage → Prop
  | .editing _ _ (some (_, work)) => ∃ due rest, work = .asleep due rest
  | .judging pool => ∃ strand ∈ pool.strands,
      (∃ due rest, strand.progress = .running (.asleep due rest)) ∨
        ∃ ticket work, strand.progress = .inLine ticket work
  | .surveying _ | .delivering _ _ => False
  | _ => True

/-- A call that waits gives no report. -/
theorem CallStage.Waits.not_gives (h : stage.Waits) : ¬stage.Gives u report := by
  intro hgives
  cases hgives with
  | inHand | surveyed => exact h
  | underWay hanswer =>
    obtain ⟨due, rest, rfl⟩ := h
    cases hanswer
  | @judged pool _ _ hends =>
    obtain ⟨strand, hstrand, hwaits⟩ := h
    obtain ⟨b, hb⟩ := hends.all _
      (List.mem_append_left _ (List.mem_map_of_mem hstrand))
    rcases hwaits with ⟨due, rest, hprogress⟩ | ⟨ticket, work, hprogress⟩ <;>
      (rw [hprogress] at hb; cases hb)

/-- Where no rule is hasty, a call that is told to stop goes on to no report. -/
theorem Call.Begins.hasty (h : c.Begins u s report) (hproper : c.stage.Proper u) :
    ∃ r ∈ u.ruleSet.rules, ∃ ctx, r.Hasty ctx := by
  obtain ⟨-, edited, job, todo, rows, hstage, hanswer⟩ := h
  rw [hstage] at hproper
  have hruled : job.Ruled u := hproper job (by simp)
  obtain hnone | ⟨ctx, -, hspoken, hhasty⟩ := RuleSet.hasty_of_cutShort hanswer
  · exact absurd hnone hruled
  · obtain ⟨r, hr⟩ := List.exists_mem_of_ne_nil
      ((u.ruleSet.rulesFor job.key.column).take report.outcomes.length)
      (by simp [List.take_eq_nil_iff, hspoken]; exact hruled)
    exact ⟨r, (RuleSet.mem_rulesFor.mp (List.mem_of_mem_take hr)).1, ctx, hhasty r hr⟩

end Watch

end CellRules
