/-
CellRules.Proofs.Watch.BothModes — judging at once and judging in the background agree.

Whoever tells of an edit where edited cells are judged at once judges them one after the other: the
edited row, and after each of its cells those that follow (`AtOnce`). Where they are judged in the
background, timers and slots decide who is next (`InBackground`). Either way the edit reaches the
same cells, and `edit_alone_same_in_both_modes` compares what they come to: the verdicts delivered,
how often each cell is judged, and the counters.
-/
import CellRules.Proofs.Watch.InBackground

namespace CellRules.Watch

variable {u : Setup} {grid : Grid} {s s' s₀ : State} {h h₀ : List Happening} {x : Option Happening}
  {c : Call} {m : Move} {key : CellKey} {row : Nat} {column edited : String} {job : Job}
  {rows : Dataset}

/-! ## Judging at once -/

/-- The cell is one of the edited row, after which others follow, or it is one of those. -/
def Job.SpreadsAt (row : Nat) (job : Job) : Prop := job.spreads = decide (job.key.row = row)

/-- The job is in hand, and its work heads for the report on the grid of `s₀`. -/
def Job.OnCourse (u : Setup) (s₀ : State) (row : Nat) (job : Job) (work : Running Judgement) :
    Prop :=
  job.SpreadsAt row ∧ ∃ report rows, work.rest.answer = .ok (report, rows) ∧
    (s₀.judging u job.key).answer = .ok (report, rows)

/-- The call has its answer, or it judges the cells that the edit reaches, one of them in hand or
none. -/
def CallStage.Judges (u : Setup) (s₀ : State) (row : Nat) (column : String) (stage : CallStage) :
    Prop :=
  stage.over = true ∨ ∃ todo current, stage = .editing column todo current ∧
    (∀ job ∈ todo, job.SpreadsAt row) ∧
      ∀ job work, current = some (job, work) → job.OnCourse u s₀ row work

/-- An edit told in `s₀` is on its way in a watch that judges edited cells at once. -/
structure AtOnce (u : Setup) (s₀ : State) (row : Nat) (column : String) (h : List Happening)
    (s : State) : Prop extends Reaching u s₀ row column h s where
  calls : ∀ c ∈ s.calls, c.stage.Judges u s₀ row column

/-- In a run of a watch that judges at once, no evaluation is ever under way. -/
theorem Run.calm (atOnce : u.ruleSet.throttle.background = false)
    (run : Run u (.start u grid) h s) (hopen : s.closed = false) : Calm s := by
  induction run with
  | rest => exact .start u grid
  | @move h s₁ s₂ m _ hm ih =>
    have hcalm := ih (State.open_of_move? hm hopen)
    refine hcalm.step ?_ (State.move?_prompt atOnce hcalm.isOpen hcalm.alone hm)
    rintro rfl
    obtain rfl := Option.some.inj hm
    cases hopen

/-- The jobs that follow are those of the cells that follow. -/
theorem State.followers_eq (hjob : job.SpreadsAt row) :
    s.followers u job column rows =
      (s.peers u job.key (editedAt row column job.key) rows).map fun key => ⟨key, false⟩ := by
  unfold followers editedAt
  rw [hjob]
  by_cases hrow : job.key.row = row <;> simp [hrow, peers_nil]

/-- After the cells of other rows, no others follow. -/
theorem flatMap_trail_of_ne {keys : List CellKey} (hrows : ∀ k ∈ keys, k.row ≠ row) :
    ((keys.map fun key => (⟨key, false⟩ : Job)).flatMap fun job =>
      job.key :: s₀.trail u row column job.key) = keys := by
  rw [List.flatMap_map]
  induction keys with
  | nil => rfl
  | cons k keys ih =>
    rw [List.flatMap_cons, State.trail_of_ne (hrows k (by simp)),
      ih fun k' hk' => hrows k' (List.mem_cons_of_mem _ hk')]
    rfl

namespace AtOnce

variable (hb : AtOnce u s₀ row column h s) (hknown : s.call? c.id = some c)

include hb

/-- A call that tells of an edit judges what the edit reaches. -/
theorem editing (hc : c ∈ s.calls) {edited : String} {todo : List Job}
    {current : Option (Job × Running Judgement)} (hstage : c.stage = .editing edited todo current) :
    edited = column ∧ (∀ job ∈ todo, job.SpreadsAt row) ∧
      ∀ job work, current = some (job, work) → job.OnCourse u s₀ row work := by
  rcases hb.calls c hc with hover | ⟨_, _, hat, hrest⟩
  · rw [hstage] at hover
    cases hover
  · obtain ⟨rfl, rfl, rfl⟩ := CallStage.editing.inj (hstage.symm.trans hat)
    exact ⟨rfl, hrest⟩

/-- A call goes on, the others stay as they are. -/
theorem callsMoved {t : State} {stage : CallStage} (hcalls : s'.calls = (Call.goTo t c stage).calls)
    (ht : t.calls = s.calls)
    (hstage : stage.Judges u s₀ row column) : ∀ c ∈ s'.calls, c.stage.Judges u s₀ row column := by
  intro d hd
  rw [hcalls] at hd
  rcases State.mem_goTo.mp hd with ⟨hd, -⟩ | ⟨rfl, -⟩
  · exact hb.calls d (ht ▸ hd)
  · exact hstage

include hknown

/-- A call does for some cells what it owes, and goes on; nothing is reported. -/
theorem movedOn (hn : s.Numbered) {before stage : CallStage} (hstage : c.stage = before)
    (hs : s'.Alike (Call.goTo s c stage)) (hquiet : deeds .report x.toList = [])
    (hpaid : ∀ d trail, (deeds d x.toList ++ stage.owes trail d).Perm (before.owes trail d))
    (hjudges : stage.Judges u s₀ row column) : AtOnce u s₀ row column (h ++ x.toList) s' := by
  refine ⟨hb.toReaching.goes hs.grid hs.flagged hs.deliveries hquiet fun d => ?_,
    hb.callsMoved hs.calls rfl hjudges⟩
  rw [State.owes_congr hs.evaluations hs.calls]
  refine hn.owes_goTo (State.mem_of_call? hknown) ?_
  rw [hstage]
  exact hpaid d _

/-- A cell in hand is judged: it is reported, and the cells that follow are taken on. -/
theorem reported (hn : s.Numbered) {todo : List Job} {work : Running Judgement}
    {report : CellReport} (hstage : c.stage = .editing column todo (some (job, work)))
    (hrows : ∀ job ∈ todo, job.SpreadsAt row) (hjob : job.SpreadsAt row)
    (hanswer : (s₀.judging u job.key).answer = .ok (report, rows))
    (hs : s'.Alike (Call.goTo (s.deliver u report) c
      (.editing column ((s.deliver u report).followers u job column rows ++ todo) none))) :
    AtOnce u s₀ row column (h ++ [.reported (.call c.id) job.key report.verdict]) s' := by
  have hmem := State.mem_of_call? hknown
  have hfollow := hb.toReaching.perm_trail (fun k hk => by
    refine List.mem_append_right _ (List.mem_flatMap.mpr ⟨c, hmem, ?_⟩)
    rw [hstage]
    exact List.mem_append_left _ hk) hanswer
  have hothers : ∀ k ∈ (s.deliver u report).peers u job.key (editedAt row column job.key) rows,
      k.row ≠ row := fun k hk => (State.of_mem_trail (hfollow.mem_iff.mp hk)).2.1
  rw [State.followers_eq hjob] at hs
  refine ⟨hb.toReaching.reports hanswer hs.grid hs.flagged hs.deliveries fun d => ?_, ?_⟩
  · rw [State.owes_congr hs.evaluations hs.calls]
    have hdelivered : (s.deliver u report).owes (s₀.trail u row column) d
        = s.owes (s₀.trail u row column) d := rfl
    rw [← hdelivered]
    refine State.Numbered.owes_goTo (s := s.deliver u report) hn hmem ?_
    rw [hstage, CallStage.owes, CallStage.owes, List.flatMap_append, flatMap_trail_of_ne hothers,
      ← List.append_assoc]
    refine List.Perm.append_right _ ?_
    cases d with
    | ask | look => exact hfollow
    | report => exact hfollow.cons _
  · refine hb.callsMoved hs.calls rfl
      (.inr ⟨_, none, rfl, fun j hj => ?_, fun _ _ hnone => by cases hnone⟩)
    rcases List.mem_append.mp hj with hj | hj
    · obtain ⟨k, hk, rfl⟩ := List.mem_map.mp hj
      exact (decide_eq_false (hothers k hk)).symm
    · exact hrows j hj

/-- Whatever a call that judges edited cells does brings the edit on its way. -/
theorem edit (hn : s.Numbered) (hopen : s.closed = false) (hcourse : EditCourse u s c s')
    (hjudged : ∀ key ∈ deeds .look (c.seen s s').toList,
      ∃ report rows, (s₀.judging u key).answer = .ok (report, rows)) :
    AtOnce u s₀ row column (h ++ (c.seen s s').toList) s' := by
  have hmem := State.mem_of_call? hknown
  have hstageOf : ∀ {t : State} {stage : CallStage}, s'.calls = (Call.goTo t c stage).calls →
      t.calls = s.calls → s'.callStage? c.id = some stage := by
    intro t stage hcalls ht
    rw [State.callStage?, State.call?_congr hcalls, ← State.callStage?,
      State.callStage?_goTo ((State.call?_congr ht).trans hknown)]
  cases hcourse with
  | @take edited job todo atOnce hstage hs =>
    obtain ⟨rfl, hrows, -⟩ := hb.editing hmem hstage
    have hseen : c.seen s s' = some (.read (.call c.id) job.key) := by
      have hnext : s'.nextGeneration = s.nextGeneration := hs.nextGeneration
      simp [Call.seen, hstage, hnext, hstageOf hs.calls rfl]
    rw [hseen] at hjudged ⊢
    obtain ⟨report, rows, hanswer⟩ := hjudged job.key (List.mem_singleton.mpr rfl)
    refine hb.movedOn hknown hn hstage hs rfl (fun d _ => by cases d <;> exact .refl _)
      (.inr ⟨todo, _, rfl, fun j hj => hrows j (List.mem_cons_of_mem _ hj), ?_⟩)
    rintro _ _ ⟨⟩
    refine ⟨hrows job List.mem_cons_self, report, rows, ?_, hanswer⟩
    rw [State.judging_congr hb.grid]
    exact hanswer
  | @work edited job todo work next hstage hkept hs =>
    obtain ⟨rfl, hrows, hcurrent⟩ := hb.editing hmem hstage
    obtain ⟨hjob, report, rows, hanswer, hanswer₀⟩ := hcurrent job work rfl
    have hseen : c.seen s s' = none := by
      have hquiet : s.newDelivery? s' = none := State.newDelivery?_same hs.deliveries
      simp [Call.seen, hstage, hquiet, hstageOf hs.calls rfl]
    rw [hseen]
    refine hb.movedOn hknown hn hstage hs rfl (fun _ _ => .refl _) (.inr ⟨todo, _, rfl, hrows, ?_⟩)
    rintro _ _ ⟨⟩
    rw [hopen, Running.heads_false, Running.heads_false] at hkept
    exact ⟨hjob, report, rows, hkept.trans hanswer, hanswer₀⟩
  | @judged edited job todo work report rows hstage hanswer hs =>
    obtain ⟨rfl, hrows, hcurrent⟩ := hb.editing hmem hstage
    obtain ⟨hjob, report₀, rows₀, hrest, hanswer₀⟩ := hcurrent job work rfl
    rw [hopen, Running.heads_false, hrest] at hanswer
    obtain ⟨rfl, rfl⟩ := Prod.mk.inj (Except.ok.inj hanswer.symm)
    have hseen : c.seen s s' = some (.reported (.call c.id) job.key report.verdict) := by
      have hnew : s.newDelivery? s' = some ⟨report.row, report.column, report.verdict⟩ :=
        State.newDelivery?_one hs.deliveries
      simp [Call.seen, hstage, hnew]
    rw [hseen]
    exact hb.reported hknown hn hstage hrows hjob hanswer₀ hs
  | @failed edited job todo work p next hstage hanswer _ _ =>
    obtain ⟨-, -, hcurrent⟩ := hb.editing hmem hstage
    obtain ⟨-, _, _, hrest, -⟩ := hcurrent job work rfl
    rw [hopen, Running.heads_false, hrest] at hanswer
    cases hanswer

end AtOnce

/-- While nothing comes from outside, every move brings the edit on its way. -/
theorem AtOnce.step (hb : AtOnce u s₀ row column h s)
    (atOnce : u.ruleSet.throttle.background = false) (hcalm : Calm s)
    (hm : s.move? u m = some s') (halone : ∀ y ∈ (seen s m s').toList, y.fromOutside = false)
    (hjudged : ∀ key ∈ deeds .look (seen s m s').toList,
      ∃ report rows, (s₀.judging u key).answer = .ok (report, rows)) :
    AtOnce u s₀ row column (h ++ (seen s m s').toList) s' := by
  have hcall : ∀ {c : Call} {x : Option Happening}, s.call? c.id = some c →
      CallCourse u s c x s' → x = none ∧ AtOnce u s₀ row column h s' := by
    intro c x hknown hcourse
    have hmem := State.mem_of_call? hknown
    obtain ⟨hnone, ⟨edited, hstage⟩, hs⟩ := hcourse.answers (by
      rcases hb.calls c hmem with hover | ⟨_, _, hat, -⟩
      · exact .inl hover
      · exact .inr (by rw [hat]; rfl))
    exact ⟨hnone, hb.toReaching.answers hcalm.ids hmem hstage hs,
      hb.callsMoved hs.calls rfl (.inl rfl)⟩
  cases m with
  | pass millis =>
    obtain rfl := Option.some.inj hm
    rw [show seen s (.pass millis) _ = none from rfl, Option.toList_none, List.append_nil]
    exact ⟨hb.toReaching.still ⟨rfl, rfl, rfl, rfl, rfl, rfl, rfl, rfl, rfl⟩, hb.calls⟩
  | step task =>
    cases task with
    | evaluation generation =>
      simp [State.move?, State.step?, State.evaluation?, hcalm.alone] at hm
    | call id =>
      obtain ⟨c, rfl, hc, hadvance⟩ := State.call_of_step? hm
      simp only [seen, hc, Option.bind_some] at hjudged ⊢
      rcases hadvance.split hc with ⟨background, -⟩ | hedit | hcourse
      · rw [atOnce] at background
        cases background
      · exact hb.edit hc hcalm.ids hcalm.isOpen hedit hjudged
      · obtain ⟨hnone, hnext⟩ := hcall hc hcourse
        rw [hnone, Option.toList_none, List.append_nil]
        exact hnext
    | strand id strand =>
      obtain ⟨c, hc, hcourse⟩ := State.course_of_strand hm
      rw [show seen s (.step (.strand id strand)) s' = none from rfl, Option.toList_none,
        List.append_nil]
      exact (hcall hc hcourse).2
  | takeSlot generation => simp [State.move?, State.evaluation?, hcalm.alone] at hm
  | edit row column =>
    simp only [seen, hcalm.isOpen, Bool.false_eq_true, if_false] at halone
    cases halone _ (List.mem_singleton.mpr rfl)
  | setCell | pushRow | validateAll | shutDown => cases halone _ (List.mem_singleton.mpr rfl)

/-- An edit in a watch that judges edited cells at once reaches what it is to reach, and in the end
nothing is owed any more. -/
theorem EditAlone.reached_at_once (atOnce : u.ruleSet.throttle.background = false)
    (hedit : EditAlone u grid row column s₀ h s) :
    Reaching u s₀ row column h s ∧ ∀ d, s.owes (s₀.trail u row column) d = [] := by
  obtain ⟨h₀, before, told⟩ := hedit.told
  have halone := (before.calm atOnce hedit.idle.isOpen).alone
  have hlast : AtOnce u s₀ row column h s := by
    refine hedit.induction ⟨.start hedit.idle (by rw [halone]; exact fun _ he => by cases he),
      fun c hc => (hedit.idle.calls hc).imp_right fun hstage => ?_⟩ ?_
    · refine ⟨_, none, hstage, fun job hjob => ?_, fun _ _ hnone => by cases hnone⟩
      obtain ⟨c, -, rfl⟩ := List.mem_map.mp hjob
      exact (decide_eq_true rfl).symm
    · intro h₁ h₂ s₁ m s₂ hrun hopen₁ hopen₂ hm halone hjudged hb
      exact hb.step atOnce (hrun.calm atOnce hopen₁) hm halone hjudged
  have hlone := ((told.trans hedit.editing).calm atOnce hedit.rest.isOpen).alone
  exact ⟨hlast.toReaching, fun d => State.owes_of_idle
    (by rw [hlone]; exact fun _ he => by cases he) hedit.rest.answered⟩

/-! ## Both modes -/

variable {grid' : Grid} {t t₀ : State} {k : List Happening} {pace pace' : Throttle}

/-- An edit that stays alone comes to the same in both modes. Two idle watches look after the same
grid with the same cells flagged; one judges edited cells in the background, at whatever pace, the
other at once. Both deliver the same verdicts, as often. Both ask for, judge and report the same
cells, each once, and count as many evaluations asked for and reported. -/
theorem edit_alone_same_in_both_modes (background : pace.background = true)
    (atOnce : pace'.background = false)
    (later : EditAlone (u.throttled pace) grid row column s₀ h s)
    (now : EditAlone (u.throttled pace') grid' row column t₀ k t) (sameGrid : t₀.grid = s₀.grid)
    (sameFlags : ∀ key, key ∈ t₀.flagged ↔ key ∈ s₀.flagged) :
    (∃ new new', s.sink.deliveries = s₀.sink.deliveries ++ new ∧
        t.sink.deliveries = t₀.sink.deliveries ++ new' ∧ new'.Perm new) ∧
      (∀ d, (deeds d h).Nodup ∧ (deeds d k).Perm (deeds d h)) ∧
      ∃ n, s.stats.scheduled = s₀.stats.scheduled + n ∧
        s.stats.evaluated = s₀.stats.evaluated + n ∧
        t.stats.scheduled = t₀.stats.scheduled + n ∧
        t.stats.evaluated = t₀.stats.evaluated + n := by
  obtain ⟨hreach, hdone⟩ := later.reached_in_background background
  obtain ⟨hreach', hdone'⟩ := now.reached_at_once atOnce
  obtain ⟨⟨new, hsink, hnew⟩, hdeeds, hscheduled, hevaluated⟩ := later.outcome hreach hdone
  obtain ⟨⟨new', hsink', hnew'⟩, hdeeds', hscheduled', hevaluated'⟩ := now.outcome hreach' hdone'
  -- the pace is of no account, and neither is which of the two states the edit is told in
  have hreached : (t₀.reached (u.throttled pace') row column).Perm
      (s₀.reached (u.throttled pace) row column) := by
    rw [State.reached_throttled, State.reached_throttled]
    exact State.perm_reached sameGrid sameFlags
  have hverdicts : t₀.deliveryOn? (u.throttled pace') = s₀.deliveryOn? (u.throttled pace) := by
    funext key
    rw [State.deliveryOn?_throttled, State.deliveryOn?_throttled, State.deliveryOn?,
      State.judging_congr sameGrid, ← State.deliveryOn?]
  rw [hverdicts] at hnew'
  rw [hreached.length_eq] at hscheduled' hevaluated'
  refine ⟨⟨new, new', hsink, hsink', ?_⟩, fun d => ⟨?_, ?_⟩, _, hscheduled, hevaluated,
    hscheduled', hevaluated'⟩
  · exact (List.map_perm_map_iff fun _ _ => Option.some.inj).mp
      ((hnew'.trans (hreached.map _)).trans hnew.symm)
  · exact (hdeeds d).nodup_iff.mpr (State.nodup_reached _ _ _ _)
  · exact ((hdeeds' d).trans hreached).trans (hdeeds d).symm

/-! ## A code that clashes -/

/-- An edit that stays alone and ends by these moves, if each is possible. -/
def State.editAlone? (u : Setup) (s : State) (row : Nat) (column : String) (moves : List Move) :
    Option (List Happening × State) :=
  ((s.tellEdit u row column).record? u moves).filter fun (h, s') =>
    decide (s.Idle ∧ s'.Idle) && h.all (!·.fromOutside) &&
      (deeds .look h).all fun key => (s.judging u key).answer.isOk

theorem EditAlone.of_editAlone? {moves : List Move} (before : ∃ h₀, Run u (.start u grid) h₀ s₀)
    (hedit : s₀.editAlone? u row column moves = some (h, s)) :
    EditAlone u grid row column s₀ h s := by
  obtain ⟨hrecord, hchecked⟩ := Option.filter_eq_some_iff.mp hedit
  simp only [Bool.and_eq_true, decide_eq_true_eq, List.all_eq_true, Bool.not_eq_true'] at hchecked
  obtain ⟨⟨⟨hidle, hrest⟩, halone⟩, hjudged⟩ := hchecked
  refine ⟨before, hidle, .of_record? hrecord, halone, fun key hkey => ?_, hrest⟩
  cases hanswer : (s₀.judging u key).answer with
  | ok judgement => exact ⟨judgement.1, judgement.2, rfl⟩
  | error p =>
    have hok := hjudged key hkey
    rw [hanswer] at hok
    cases hok

/-- Two rows have the same code. -/
def sameCodes : Grid := ⟨["Code", "Kind"], [[.text "b", .text "x"], [.text "b", .text "x"]]⟩

/-- In the background, a call asks for the evaluation of one of the codes, and that one for the
other. -/
def laterSteps (call first : Nat) : List Move :=
  List.flatten
    [Task.steps 2 (.call call), Task.steps 1 (.evaluation first), [.pass 10],
      Task.steps 4 (.evaluation first), [.pass 1000], Task.steps 7 (.evaluation first),
      Task.steps 1 (.evaluation (first + 1)), [.pass 10], Task.steps 4 (.evaluation (first + 1)),
      [.pass 1000], Task.steps 6 (.evaluation (first + 1))]

/-- The call judges both codes itself. -/
def nowSteps (call : Nat) : List Move :=
  List.flatten
    [Task.steps 3 (.call call), [.pass 1000], Task.steps 7 (.call call), [.pass 1000],
      Task.steps 5 (.call call)]

/-- The code of row 0 is edited, and when all is idle that of row 1: what is seen of the second
edit, with the states before and after it. -/
def editBoth (u : Setup) (steps steps' : List Move) : Option (State × List Happening × State) :=
  ((State.start u sameCodes).editAlone? u 0 "Code" steps).bind fun (_, s) =>
    (s.editAlone? u 1 "Code" steps').map (s, ·)

theorem EditAlone.of_editBoth {steps steps' : List Move}
    (hedits : editBoth u steps steps' = some (s₀, h, s)) :
    (∃ h₀, EditAlone u sameCodes 0 "Code" (.start u sameCodes) h₀ s₀) ∧
      EditAlone u sameCodes 1 "Code" s₀ h s := by
  obtain ⟨⟨h₀, mid⟩, hfirst, hsecond⟩ := Option.bind_eq_some_iff.mp hedits
  obtain ⟨last, hlast, heq⟩ := Option.map_eq_some_iff.mp hsecond
  obtain ⟨rfl, rfl⟩ := Prod.mk.inj heq
  have first := EditAlone.of_editAlone? ⟨[], .rest⟩ hfirst
  have told := Run.rest.step (first.idle.tells u 0 "Code")
  exact ⟨⟨h₀, first⟩, .of_editAlone? ⟨_, told.trans first.editing⟩ hlast⟩

/-- After the first edit both codes are flagged, in both modes. The second one has both judged again:
two more evaluations are asked for and reported, with the same verdicts. -/
theorem edit_alone_same_in_both_modes_same_codes :
    ∃ u v s₀ h s t₀ k t, u.ruleSet.throttle.background = true ∧
      v.ruleSet.throttle.background = false ∧
      EditAlone u sameCodes 1 "Code" s₀ h s ∧ EditAlone v sameCodes 1 "Code" t₀ k t ∧
      s₀.flagged = [⟨0, "Code"⟩, ⟨1, "Code"⟩] ∧ t₀.flagged = s₀.flagged ∧
      (s.stats.scheduled, s.stats.evaluated) = (4, 4) ∧
      (∃ new new', s.sink.deliveries = s₀.sink.deliveries ++ new ∧
        t.sink.deliveries = t₀.sink.deliveries ++ new' ∧ new'.Perm new) := by
  have hlater : (editBoth (impatientWatch.throttled { Throttle.interactive with debounce := 10 })
      (laterSteps 0 0) (laterSteps 1 2)).map
        (fun p => (p.1.flagged, p.2.2.stats.scheduled, p.2.2.stats.evaluated))
          = some ([⟨0, "Code"⟩, ⟨1, "Code"⟩], 4, 4) := by
    decide +kernel
  have hnow : (editBoth (impatientWatch.throttled .synchronous) (nowSteps 0) (nowSteps 1)).map
      (fun p => p.1.flagged) = some [⟨0, "Code"⟩, ⟨1, "Code"⟩] := by
    decide +kernel
  obtain ⟨⟨s₀, h, s⟩, hs, heq⟩ := Option.map_eq_some_iff.mp hlater
  obtain ⟨⟨t₀, k, t⟩, ht, hflagged'⟩ := Option.map_eq_some_iff.mp hnow
  obtain ⟨hflagged, hcounted⟩ := Prod.mk.inj heq
  obtain ⟨⟨_, first⟩, later⟩ := EditAlone.of_editBoth hs
  obtain ⟨⟨_, first'⟩, now⟩ := EditAlone.of_editBoth ht
  have hgrid : s₀.grid = sameCodes := (first.reached_in_background rfl).1.grid
  have hgrid' : t₀.grid = sameCodes := (first'.reached_at_once rfl).1.grid
  have hsame : t₀.flagged = s₀.flagged := hflagged'.trans hflagged.symm
  exact ⟨_, _, s₀, h, s, t₀, k, t, rfl, rfl, later, now, hflagged, hsame, hcounted,
    (edit_alone_same_in_both_modes rfl rfl later now (hgrid'.trans hgrid.symm)
      fun key => by rw [hsame]).1⟩

end CellRules.Watch
