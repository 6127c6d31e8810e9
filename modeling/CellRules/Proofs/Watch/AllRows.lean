/-
CellRules.Proofs.Watch.AllRows — what a run over all rows delivers.

A run over all rows looks at the rows ONCE, judges them in its pool, and delivers every cell at the
end, without a look at the ledger. `Run.surveyed_of_reported` finds the look at the rows before each
of its reports; `Run.delivered_of_concluded` says that a run that ended well has reported every cell
that it gathered.

* `Surveyed u s₀ h s id answer done` — the call looked at the rows in a state of the run whose
  survey gives `answer`, and has since delivered the cells `done`.
* `Gathers u v cells` — the cells are those of the answers of all batches of a survey, gathered.
-/
import CellRules.Proofs.Watch.Biography

namespace CellRules.Watch

/-- The report on a cell, as a call for all rows delivers it. -/
def reportOf (id : Nat) (cell : CellReport) : Happening :=
  .reported (.call id) ⟨cell.row, cell.column⟩ cell.verdict

/-- The call looked at the rows in a state whose survey gives the answer, and has delivered some
cells since. -/
def Surveyed (u : Setup) (s₀ : State) (h : List Happening) (s : State) (id : Nat)
    (answer : Except Problem RuleSet.Survey) (delivered : List CellReport) : Prop :=
  ∃ h₁ mid h₂, h = h₁ ++ .surveyed id :: h₂ ∧ Moment u s₀ h₁ mid (.surveyed id) h₂ s ∧
    Happening.calledAll id ∈ h₁ ∧ (u.ruleSet.survey (mid.source u)).answer = answer ∧
    (delivered.map (reportOf id)).Sublist h₂

/-- The cells of all batches of a survey, in order. -/
def Gathers (u : Setup) (v : RuleSet.Survey) (cells : List CellReport) : Prop :=
  ∃ batches, (batches.map Except.ok).Perm ((u.ruleSet.batches v).map Work.answer) ∧
    cells = RuleSet.gather batches

variable {u : Setup} {grid : Grid} {s₀ s s' mid : State} {h h₁ h₂ : List Happening}
  {x : Option Happening} {key : CellKey} {id : Nat} {c : Call}
  {answer : Except Problem RuleSet.Survey} {delivered : List CellReport}

theorem Surveyed.extend (hs : Surveyed u s₀ h s id answer delivered) (hstep : Step u s x s') :
    Surveyed u s₀ (h ++ x.toList) s' id answer delivered := by
  obtain ⟨h₁, mid, h₂, rfl, hmoment, hcalled, hanswer, hdone⟩ := hs
  exact ⟨h₁, mid, h₂ ++ x.toList, by simp, hmoment.extend hstep, hcalled, hanswer,
    sublist_append_of_sublist hdone _⟩

theorem Surveyed.deliver (hs : Surveyed u s₀ h s id answer delivered) {cell : CellReport}
    (hstep : Step u s (some (reportOf id cell)) s') :
    Surveyed u s₀ (h ++ [reportOf id cell]) s' id answer (delivered ++ [cell]) := by
  obtain ⟨h₁, mid, h₂, rfl, hmoment, hcalled, hanswer, hdone⟩ := hs
  refine ⟨h₁, mid, h₂ ++ [reportOf id cell], by simp, ?_, hcalled, hanswer, ?_⟩
  · exact hmoment.extend hstep
  · rw [List.map_append]
    exact sublist_concat hdone _

theorem Surveyed.mem (hs : Surveyed u s₀ h s id answer delivered) : .surveyed id ∈ h := by
  obtain ⟨h₁, mid, h₂, rfl, -⟩ := hs
  simp

/-- The stage of a call is borne out by the history. -/
def CallTold (u : Setup) (s₀ : State) (h : List Happening) (s : State) (c : Call) : Prop :=
  match c.stage with
  | .editing _ _ _ | .edited _ | .reported (.error _) => True
  | .called => Happening.calledAll c.id ∈ h
  | .surveying work => Surveyed u s₀ h s c.id work.rest.answer []
  | .judging pool => ∃ v, Surveyed u s₀ h s c.id (.ok v) [] ∧ pool.Sound (u.ruleSet.batches v)
  | .delivering todo cells => ∃ v delivered, Surveyed u s₀ h s c.id (.ok v) delivered ∧
      Gathers u v cells ∧ cells = delivered ++ todo
  | .reported (.ok _) => ∃ v cells, Surveyed u s₀ h s c.id (.ok v) cells ∧ Gathers u v cells

theorem CallTold.extend (hc : CallTold u s₀ h s c) (hstep : Step u s x s') :
    CallTold u s₀ (h ++ x.toList) s' c := by
  unfold CallTold at hc ⊢
  split
  · trivial
  · trivial
  · trivial
  · rename_i hstage
    rw [hstage] at hc
    exact List.mem_append_left _ hc
  · rename_i hstage
    rw [hstage] at hc
    exact hc.extend hstep
  · rename_i hstage
    rw [hstage] at hc
    obtain ⟨v, hs, hpool⟩ := hc
    exact ⟨v, hs.extend hstep, hpool⟩
  · rename_i hstage
    rw [hstage] at hc
    obtain ⟨v, delivered, hs, hrest⟩ := hc
    exact ⟨v, delivered, hs.extend hstep, hrest⟩
  · rename_i hstage
    rw [hstage] at hc
    obtain ⟨v, cells, hs, hrest⟩ := hc
    exact ⟨v, cells, hs.extend hstep, hrest⟩

theorem CallCourse.callsTold (hstep : Step u s x s') (hrun : Run u s₀ h s)
    (hopen : s.closed = false) (hknown : s.call? c.id = some c)
    (htold : ∀ d ∈ s.calls, CallTold u s₀ h s d) (hcourse : CallCourse u s c x s') :
    ∀ d ∈ s'.calls, CallTold u s₀ (h ++ x.toList) s' d := by
  have htc := htold c (State.mem_of_call? hknown)
  have hgoTo : ∀ {t : State} {stage : CallStage}, t.calls = s.calls →
      s'.calls = (Call.goTo t c stage).calls →
      CallTold u s₀ (h ++ x.toList) s' { c with stage } →
      ∀ d ∈ s'.calls, CallTold u s₀ (h ++ x.toList) s' d := by
    intro t stage ht hcalls hnew d hd
    rw [hcalls] at hd
    rcases State.mem_goTo.mp hd with ⟨hd, -⟩ | ⟨rfl, -⟩
    · exact (htold d (ht ▸ hd)).extend hstep
    · exact hnew
  cases hcourse with
  | told hstage hs => exact hgoTo rfl hs.calls trivial
  | survey hstage _ hs =>
    refine hgoTo rfl hs.calls ?_
    rw [CallTold, hstage] at htc
    exact ⟨h, s, [], rfl, .last hrun hstep, htc, rfl, by simp⟩
  | look hstage hkept hs =>
    refine hgoTo rfl hs.calls ?_
    rw [CallTold, hstage] at htc
    have hext := htc.extend hstep
    rw [hopen, Running.heads_false, Running.heads_false] at hkept
    rwa [← hkept] at hext
  | found hstage hanswer hs =>
    refine hgoTo rfl hs.calls ?_
    rw [CallTold, hstage] at htc
    have hext := htc.extend hstep
    rw [hopen, Running.heads_false] at hanswer
    rw [hanswer] at hext
    exact ⟨_, hext, Pool.sound_start _ _ _⟩
  | strand hstage hpool hs =>
    refine hgoTo rfl hs.calls ?_
    rw [CallTold, hstage] at htc
    obtain ⟨v, hsurvey, hsound⟩ := htc
    rw [hopen] at hpool
    exact ⟨v, hsurvey.extend hstep, hsound.step hpool⟩
  | judged hstage hresult hs =>
    refine hgoTo rfl hs.calls ?_
    rw [CallTold, hstage] at htc
    obtain ⟨v, hsurvey, hsound⟩ := htc
    exact ⟨v, [], hsurvey.extend hstep, ⟨_, hsound.result hresult, rfl⟩, rfl⟩
  | @deliver _ cell todo cells hstage hs =>
    refine hgoTo (t := s.deliver u cell) rfl hs.calls ?_
    rw [CallTold, hstage] at htc
    obtain ⟨v, delivered, hsurvey, hgathers, hcells⟩ := htc
    exact ⟨v, delivered ++ [cell], hsurvey.deliver hstep, hgathers, by simp [hcells]⟩
  | conclude hstage hs =>
    refine hgoTo rfl hs.calls ?_
    rw [CallTold, hstage] at htc
    obtain ⟨v, delivered, hsurvey, hgathers, hcells⟩ := htc
    rw [List.append_nil] at hcells
    subst hcells
    exact ⟨v, _, hsurvey.extend hstep, hgathers⟩
  | refuse hstage hs => exact hgoTo rfl hs.calls trivial

theorem Effect.callsTold (hstep : Step u s x s') (hrun : Run u s₀ h s)
    (hopen : s.closed = false) (hopen' : s'.closed = false)
    (htold : ∀ d ∈ s.calls, CallTold u s₀ h s d) (heffect : Effect u s x s') :
    ∀ d ∈ s'.calls, CallTold u s₀ (h ++ x.toList) s' d := by
  have hsame : s'.calls = s.calls → ∀ d ∈ s'.calls, CallTold u s₀ (h ++ x.toList) s' d := by
    intro hcalls d hd
    exact (htold d (hcalls ▸ hd)).extend hstep
  cases heffect with
  | @course e _ _ hknown hcourse => exact hsame (hcourse.calls hopen)
  | @ask c edited job todo _ hknown hstage hs =>
    have halike := State.schedule_alike (u := u) hopen job.key [edited]
    intro d hd
    rw [hs.calls] at hd
    rcases State.mem_goTo.mp hd with ⟨hd, -⟩ | ⟨rfl, -⟩
    · exact (htold d (halike.calls ▸ hd)).extend hstep
    · trivial
  | call hknown hcourse => exact hcourse.callsTold hstep hrun hopen hknown htold
  | outside hout =>
    cases hout with
    | write _ hs | push hs | wait hs => exact hsame (hs.calls.trans rfl)
    | tell hs =>
      intro d hd
      rw [hs.calls] at hd
      rcases List.mem_append.mp hd with hd | hd
      · exact (htold d hd).extend hstep
      · rw [List.mem_singleton] at hd
        subst hd
        trivial
    | askAll hs =>
      intro d hd
      rw [hs.calls] at hd
      rcases List.mem_append.mp hd with hd | hd
      · exact (htold d hd).extend hstep
      · rw [List.mem_singleton] at hd
        subst hd
        exact List.mem_append_right _ (by simp)
  | close hclosed =>
    subst hclosed
    cases hopen'

/-- In an open watch the stage of every call is borne out by the history. -/
theorem Run.callsTold (background : u.ruleSet.throttle.background = true)
    (run : Run u (.start u grid) h s) (hopen : s.closed = false) :
    ∀ c ∈ s.calls, CallTold u (.start u grid) h s c :=
  (Run.induction_open background
    (motive := fun h s => ∀ c ∈ s.calls, CallTold u (.start u grid) h s c)
    (State.open_start u grid) (fun _ hc => by cases hc)
    (fun _ _ _ _ hrun ho₁ ho₂ hstep heffect htold =>
      heffect.callsTold hstep hrun ho₁.closed ho₂.closed htold) run hopen).2

/-- In a watch that was not closed, a report that is not one of an evaluation is one of a run over
all rows. It has the look at the rows before it and is one of the reports that were gathered. -/
theorem Run.surveyed_of_reported (background : u.ruleSet.throttle.background = true)
    (run : Run u (.start u grid) h s) (hopen : s.closed = false) {reporter : Task} {v : Verdict}
    (hx : h = h₁ ++ .reported reporter key v :: h₂) (hnot : ∀ g, reporter ≠ .evaluation g) :
    ∃ id at₀ survey delivered, reporter = .call id ∧
      Moment u (.start u grid) h₁ at₀ (.reported reporter key v) h₂ s ∧
      Surveyed u (.start u grid) h₁ at₀ id (.ok survey) delivered ∧
      ∃ cell cells, Gathers u survey cells ∧ cell ∈ cells ∧ key = ⟨cell.row, cell.column⟩ ∧
        v = cell.verdict := by
  obtain ⟨at₀, hbefore, next, hstep, hafter⟩ := run.moment hx
  have hopen' := hstep.open (hafter.open hopen)
  obtain ⟨hlaw, heffect⟩ := hbefore.lawful_step background hopen' hstep
  cases heffect with
  | @course e _ _ hknown hcourse =>
    cases hcourse with
    | report => exact absurd rfl (hnot e.generation)
  | @call c _ _ hknown hcourse =>
    have htold := hbefore.callsTold background hopen' c (State.mem_of_call? hknown)
    cases hcourse with
    | @deliver _ cell todo cells hstage hs =>
      rw [CallTold, hstage] at htold
      obtain ⟨survey, delivered, hsurvey, hgathers, hcells⟩ := htold
      exact ⟨c.id, at₀, survey, delivered, rfl, ⟨hbefore, next, hstep, hafter⟩, hsurvey, cell,
        cells, hgathers, by simp [hcells], rfl, rfl⟩
  | outside hout => cases hout

/-- A run over all rows that ended well has reported every cell that it gathered. -/
theorem Run.delivered_of_concluded (background : u.ruleSet.throttle.background = true)
    (run : Run u (.start u grid) h s) (hopen : s.closed = false) (hc : c ∈ s.calls)
    {report : Report} (hstage : c.stage = .reported (.ok report)) :
    ∃ survey cells, Surveyed u (.start u grid) h s c.id (.ok survey) cells ∧
      Gathers u survey cells ∧ ∀ cell ∈ cells, reportOf c.id cell ∈ h := by
  have htold := run.callsTold background hopen c hc
  rw [CallTold, hstage] at htold
  obtain ⟨survey, cells, hsurvey, hgathers⟩ := htold
  refine ⟨survey, cells, hsurvey, hgathers, fun cell hcell => ?_⟩
  obtain ⟨h₁, mid, h₂, rfl, -, -, -, hdone⟩ := hsurvey
  exact List.mem_append_right _ (List.mem_cons_of_mem _
    (hdone.subset (List.mem_map.mpr ⟨cell, hcell, rfl⟩)))

/-- A look at the rows was asked for. -/
theorem Surveyed.calledAll (hs : Surveyed u s₀ h s id answer delivered) : .calledAll id ∈ h := by
  obtain ⟨h₁, mid, h₂, rfl, -, hcalled, -⟩ := hs
  exact List.mem_append_left _ hcalled

/-! ## One look at the rows -/

/-- Calls are numbered in order, and one that has looked at the rows is past its beginning. -/
structure OneLook (h : List Happening) (s : State) : Prop where
  ids : s.calls.map (·.id) = List.range s.nextCall
  below : ∀ id, Happening.surveyed id ∈ h → id < s.nextCall
  past : ∀ c ∈ s.calls, c.stage = .called → Happening.surveyed c.id ∉ h
  once : ∀ id, h.count (.surveyed id) ≤ 1

/-- Without a look at the rows, it is enough that calls keep their numbers and none begins anew. -/
theorem OneLook.quiet (ho : OneLook h s) (hx : ∀ id, x ≠ some (.surveyed id))
    (hids : s'.calls.map (·.id) = List.range s'.nextCall) (hmore : s.nextCall ≤ s'.nextCall)
    (hcalled : ∀ d ∈ s'.calls, d.stage = .called → d ∈ s.calls ∨ d.id = s.nextCall) :
    OneLook (h ++ x.toList) s' := by
  have hnot : ∀ id, Happening.surveyed id ∉ x.toList := fun id hid =>
    hx id (Option.mem_toList.mp hid)
  have hold : ∀ id, Happening.surveyed id ∈ h ++ x.toList → Happening.surveyed id ∈ h :=
    fun id hid => (List.mem_append.mp hid).resolve_right (hnot id)
  refine ⟨hids, fun id hid => ?_, fun d hd hstage hid => ?_, fun id => ?_⟩
  · exact Nat.lt_of_lt_of_le (ho.below id (hold id hid)) hmore
  · rcases hcalled d hd hstage with hd | hnew
    · exact ho.past d hd hstage (hold d.id hid)
    · have hlt := ho.below d.id (hold d.id hid)
      omega
  · rw [List.count_append, List.count_eq_zero_of_not_mem (hnot id), Nat.add_zero]
    exact ho.once id

theorem OneLook.same (ho : OneLook h s) (hx : ∀ id, x ≠ some (.surveyed id))
    (hcalls : s'.calls = s.calls) : OneLook (h ++ x.toList) s' :=
  ho.quiet hx (State.Numbered.congr ho.ids hcalls) (by simp [State.nextCall, hcalls])
    fun d hd _ => .inl (hcalls ▸ hd)

theorem OneLook.goTo {stage : CallStage} (ho : OneLook h s) (hx : ∀ id, x ≠ some (.surveyed id))
    (hcalls : s'.calls = (Call.goTo s c stage).calls) (hstage : stage ≠ .called) :
    OneLook (h ++ x.toList) s' := by
  have hlength : s'.nextCall = s.nextCall := by
    rw [State.nextCall, hcalls]
    exact State.nextCall_goTo
  refine ho.quiet hx ((State.Numbered.goTo ho.ids c stage).congr hcalls)
    (Nat.le_of_eq hlength.symm) ?_
  intro d hd hcalled
  rw [hcalls] at hd
  rcases State.mem_goTo.mp hd with ⟨hd, -⟩ | ⟨rfl, -⟩
  · exact .inl hd
  · exact absurd hcalled hstage

theorem OneLook.addCall {stage : CallStage} (ho : OneLook h s)
    (hx : ∀ id, x ≠ some (.surveyed id)) (hcalls : s'.calls = (s.addCall stage).calls) :
    OneLook (h ++ x.toList) s' := by
  have hlength : s'.nextCall = s.nextCall + 1 := by
    rw [State.nextCall, hcalls]
    exact State.nextCall_addCall
  refine ho.quiet hx ((State.Numbered.addCall ho.ids stage).congr hcalls) (by omega)
    fun d hd _ => ?_
  rw [hcalls] at hd
  rcases List.mem_append.mp hd with hd | hd
  · exact .inl hd
  · rw [List.mem_singleton] at hd
    subst hd
    exact .inr rfl

/-- The look at the rows itself. -/
theorem OneLook.survey {work : Running RuleSet.Survey} (ho : OneLook h s)
    (hknown : s.call? c.id = some c) (hstage : c.stage = .called)
    (hcalls : s'.calls = (Call.goTo s c (.surveying work)).calls) :
    OneLook (h ++ [.surveyed c.id]) s' := by
  have hmem := State.mem_of_call? hknown
  have hfirst := ho.past c hmem hstage
  have hquiet := ho.goTo (x := none) (by simp) hcalls (by simp)
  rw [Option.toList_none, List.append_nil] at hquiet
  have hid : c.id < s'.nextCall := by
    rw [State.nextCall, hcalls]
    exact Nat.lt_of_lt_of_eq (State.Numbered.lt ho.ids hmem) State.nextCall_goTo.symm
  refine ⟨hquiet.ids, fun id hid' => ?_, fun d hd hcalled hid' => ?_, fun id => ?_⟩
  · rcases List.mem_append.mp hid' with h' | h'
    · exact hquiet.below id h'
    · simp only [List.mem_singleton, Happening.surveyed.injEq] at h'
      rw [h']
      exact hid
  · rcases List.mem_append.mp hid' with h' | h'
    · exact hquiet.past d hd hcalled h'
    · simp only [List.mem_singleton, Happening.surveyed.injEq] at h'
      rw [hcalls] at hd
      rcases State.mem_goTo.mp hd with ⟨-, hne⟩ | ⟨rfl, -⟩
      · exact hne h'
      · cases hcalled
  · rw [List.count_append]
    by_cases hc : id = c.id
    · subst hc
      rw [List.count_eq_zero_of_not_mem hfirst]
      simp
    · have hzero : [Happening.surveyed c.id].count (.surveyed id) = 0 := by
        rw [List.count_eq_zero]
        simpa using hc
      rw [hzero, Nat.add_zero]
      exact ho.once id

theorem Effect.oneLook (hopen : s.closed = false) (hopen' : s'.closed = false)
    (ho : OneLook h s) (heffect : Effect u s x s') : OneLook (h ++ x.toList) s' := by
  cases heffect with
  | course hknown hcourse =>
    refine ho.same (fun id hx => ?_) (hcourse.calls hopen)
    subst hx
    cases hcourse
  | @ask c edited job todo _ hknown hstage hs =>
    have halike := State.schedule_alike (u := u) hopen job.key [edited]
    have hcalls : s'.calls = (Call.goTo s c (.editing edited todo none)).calls := by
      rw [hs.calls, Call.goTo, halike.calls]
      rfl
    exact ho.goTo (by simp) hcalls (by simp)
  | call hknown hcourse =>
    cases hcourse with
    | survey hstage _ hs => exact ho.survey hknown hstage hs.calls
    | deliver hstage hs => exact ho.goTo (by simp) hs.calls (by simp)
    | told hstage hs | look hstage hkept hs | found hstage hanswer hs | strand hstage hpool hs
    | judged hstage hresult hs | conclude hstage hs | refuse hstage hs =>
      exact ho.goTo (by simp) hs.calls (by simp)
  | outside hout =>
    cases hout with
    | write hset hs => exact ho.same (by simp) hs.calls
    | push hs => exact ho.same (by simp) hs.calls
    | wait hs => exact ho.same (by simp) hs.calls
    | tell hs => exact ho.addCall (by simp) hs.calls
    | askAll hs => exact ho.addCall (by simp) hs.calls
  | close hclosed =>
    subst hclosed
    cases hopen'

/-- In a watch that was not closed a call looks at the rows at most once. -/
theorem Run.surveyed_once (background : u.ruleSet.throttle.background = true)
    (run : Run u (.start u grid) h s) (hopen : s.closed = false) : OneLook h s := by
  refine (Run.induction_open background (motive := OneLook) (State.open_start u grid)
    ⟨rfl, nofun, nofun, fun _ => Nat.zero_le 1⟩ ?_ run hopen).2
  exact fun _ _ _ _ _ ho₁ ho₂ _ heffect ho => heffect.oneLook ho₁.closed ho₂.closed ho

end CellRules.Watch
