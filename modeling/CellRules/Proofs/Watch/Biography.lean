/-
CellRules.Proofs.Watch.Biography — what an evaluation did before it reported.

A report is judged by the grid as it was when the evaluation got its slot, however long the rules
take afterwards. `Reading u s₀ h s key g fanOut answer` says that the evaluation `g` of a cell was
asked for, began with the edited columns `fanOut`, and then read the grid in a state of the run whose
rules give `answer`; `Effect.told` carries it from the reading to the report.

* `Reading` — asked for, begun, read: in this order, in the run so far.
* `Told u s₀ h s e` — the stage of the evaluation `e` is borne out by the history.
* `Lawful` — all that holds in an open watch that was started on a grid.
* `Run.reporting` — every report of an evaluation has its reading before it.
-/
import CellRules.Proofs.Watch.Chronicle

namespace CellRules.Watch

variable {u : Setup} {s₀ s s' mid : State} {h h₁ h₂ : List Happening} {x : Option Happening}
  {key : CellKey} {g : Nat} {fanOut : List String} {e : Evaluation}
  {answer : Except Problem Judgement}

/-- The evaluation was asked for and then began, with these edited columns. -/
def Began (h : List Happening) (key : CellKey) (generation : Nat) (fanOut : List String) : Prop :=
  ∃ h₁ h₂, h = h₁ ++ .began key generation fanOut :: h₂ ∧ AskedFor h₁ key generation

/-- The evaluation was asked for, began, and then read the grid in a state by which the answer is
this. -/
def Reading (u : Setup) (s₀ : State) (h : List Happening) (s : State) (key : CellKey)
    (generation : Nat) (fanOut : List String) (answer : Except Problem Judgement) : Prop :=
  ∃ h₁ mid h₂, h = h₁ ++ .read (.evaluation generation) key :: h₂ ∧
    Moment u s₀ h₁ mid (.read (.evaluation generation) key) h₂ s ∧
    Began h₁ key generation fanOut ∧ (mid.judging u key).answer = answer

theorem Began.append (hb : Began h key g fanOut) (h' : List Happening) :
    Began (h ++ h') key g fanOut := by
  obtain ⟨h₁, h₂, rfl, ha⟩ := hb
  exact ⟨h₁, h₂ ++ h', by simp, ha⟩

theorem Began.askedFor (hb : Began h key g fanOut) : AskedFor h key g := by
  obtain ⟨h₁, h₂, rfl, ha⟩ := hb
  exact ha.append _

theorem Reading.began (hr : Reading u s₀ h s key g fanOut answer) : Began h key g fanOut := by
  obtain ⟨h₁, mid, h₂, rfl, -, hb, -⟩ := hr
  exact hb.append _

theorem Reading.extend (hr : Reading u s₀ h s key g fanOut answer) (hstep : Step u s x s') :
    Reading u s₀ (h ++ x.toList) s' key g fanOut answer := by
  obtain ⟨h₁, mid, h₂, rfl, hmoment, hb, hanswer⟩ := hr
  exact ⟨h₁, mid, h₂ ++ x.toList, by simp, hmoment.extend hstep, hb, hanswer⟩

/-- What was read stays read. -/
theorem Reading.later {h' : List Happening} (hr : Reading u s₀ h s key g fanOut answer)
    (run : Run u s h' s') : Reading u s₀ (h ++ h') s' key g fanOut answer := by
  induction run with
  | rest => simpa using hr
  | move m _ hm ih =>
    rw [← List.append_assoc]
    exact ih.extend ⟨m, hm, rfl⟩

/-- The stage of an evaluation is borne out by the history. -/
def Told (u : Setup) (s₀ : State) (h : List Happening) (s : State) (e : Evaluation) : Prop :=
  match e.stage with
  | .asked | .armed _ | .spreading _ => True
  | .entering fanOut | .inLine _ fanOut => Began h e.key e.generation fanOut
  | .running work fanOut => Reading u s₀ h s e.key e.generation fanOut work.rest.answer
  | .settled answer fanOut => Began h e.key e.generation fanOut ∧
      (e.cancelled = false → Reading u s₀ h s e.key e.generation fanOut answer)

theorem Told.extend {f : Evaluation} (ht : Told u s₀ h s e) (hm : Step u s x s')
    (hg : f.generation = e.generation) (hk : f.key = e.key)
    (hstage : f.stage = e.stage) (hc : f.cancelled = false → e.cancelled = false) :
    Told u s₀ (h ++ x.toList) s' f := by
  unfold Told at ht ⊢
  rw [hstage, hg, hk]
  cases hs : e.stage with
  | asked | armed _ | spreading _ => trivial
  | entering _ | inLine _ _ =>
    rw [hs] at ht
    exact ht.append _
  | running _ _ =>
    rw [hs] at ht
    exact ht.extend hm
  | settled _ _ =>
    rw [hs] at ht
    exact ⟨ht.1.append _, fun hf => (ht.2 (hc hf)).extend hm⟩

/-- A step bears out the stage it leads to. -/
theorem Effect.told (hm : Step u s x s') (hrun : Run u s₀ h s) (hchronicle : Chronicle h s)
    (hopen : s.closed = false) (hopen' : s'.closed = false)
    (htold : ∀ f ∈ s.evaluations, Told u s₀ h s f) (heffect : Effect u s x s') :
    ∀ f ∈ s'.evaluations, Told u s₀ (h ++ x.toList) s' f := by
  intro f hf
  cases heffect.origin hopen hopen' hf with
  | asked _ hstage =>
    rw [Told, hstage]
    trivial
  | stood he hg hkey hstage hwanted => exact (htold _ he).extend hm hg hkey hstage hwanted
  | @moved e he hg hcourse =>
    have hte := htold e he
    cases hcourse with
    | discard _ _ hs | giveUp _ _ hs | finish _ hs =>
      exact absurd hg (State.ne_of_dropEvaluation hs.evaluations hf)
    | arm _ hs | report _ _ _ hs | ignore _ _ hs | fail _ _ hs | spread _ hs =>
      rw [State.eq_of_setStage hs.evaluations hf hg]
      trivial
    | begin hstage hwanted hb hs =>
      rw [State.eq_of_setStage hs.evaluations hf hg]
      exact ⟨h, [], by simp, hchronicle.asked e he⟩
    | queue hstage hs =>
      rw [State.eq_of_setStage hs.evaluations hf hg]
      rw [Told, hstage] at hte
      exact hte.append _
    | @read _ fanOut hstage hs =>
      rw [State.eq_of_setStage hs.evaluations hf hg]
      have hb : Began h e.key e.generation fanOut := by
        rw [Told] at hte
        rcases hstage with hstage | ⟨ticket, hstage⟩
        · rwa [hstage] at hte
        · rwa [hstage] at hte
      exact ⟨h, s, [], rfl, .last hrun hm, hb, rfl⟩
    | work hstage hkept hs =>
      rw [State.eq_of_setStage hs.evaluations hf hg]
      rw [Told, hstage] at hte
      have hext := hte.extend hm
      rwa [← hkept] at hext
    | stop hstage hkept hs =>
      rw [State.eq_of_setStage hs.evaluations hf hg]
      rw [Told, hstage] at hte
      refine ⟨hte.began.append _, fun hwanted => ?_⟩
      rcases hkept with rfl | hcancelled
      · exact hte.extend hm
      · exact absurd (hwanted.symm.trans hcancelled) (by simp)

/-! ## Runs from the start -/

/-- All that holds in an open watch whose run so far was `h`. -/
structure Lawful (u : Setup) (grid : Grid) (h : List Happening) (s : State) : Prop where
  isOpen : s.Open
  orderly : s.Orderly
  chronicle : Chronicle h s
  told : ∀ e ∈ s.evaluations, Told u (.start u grid) h s e

variable {grid : Grid}

/-- The laws hold at the end of every run that did not close the watch. -/
theorem Run.lawful (background : u.ruleSet.throttle.background = true)
    (run : Run u (.start u grid) h s) (hopen : s.closed = false) : Lawful u grid h s := by
  obtain ⟨ho, hord, hc, htold⟩ := Run.induction_open background
    (motive := fun h s => s.Orderly ∧ Chronicle h s ∧
      ∀ e ∈ s.evaluations, Told u (.start u grid) h s e)
    (State.open_start u grid)
    ⟨State.orderly_start u grid, chronicle_start u grid, fun _ he => by cases he⟩
    (fun h s₁ y s₂ hrun ho₁ ho₂ hstep heffect ⟨hord, hc, htold⟩ =>
      ⟨heffect.orderly hord ho₂.closed ho₁.closed,
        heffect.chronicle hord ho₁.closed ho₂.closed hc,
        heffect.told hstep hrun hc ho₁.closed ho₂.closed htold⟩) run hopen
  exact ⟨ho, hord, hc, htold⟩

/-- Before a step that leaves the watch open the laws held, and the step did one of the things in
`Effect`. -/
theorem Run.lawful_step (background : u.ruleSet.throttle.background = true)
    (run : Run u (.start u grid) h s) (hopen : s.closed = false) (hstep : Step u s x s') :
    Lawful u grid h s ∧ Effect u s x s' := by
  have hlaw := run.lawful background hopen
  obtain ⟨m, hm, rfl⟩ := hstep
  exact ⟨hlaw, State.move?_effect background hlaw.isOpen hm⟩

theorem Step.open (hstep : Step u s x s') (hopen : s'.closed = false) : s.closed = false := by
  obtain ⟨m, hm, -⟩ := hstep
  exact State.open_of_move? hm hopen

theorem Run.open (run : Run u s h s') (hopen : s'.closed = false) : s.closed = false := by
  induction run with
  | rest => exact hopen
  | move m _ hm ih => exact ih (State.open_of_move? hm hopen)

/-- What holds at some point of a run, and is kept by every later effect, holds at its end. -/
theorem Run.induction_after (background : u.ruleSet.throttle.background = true)
    (before : Run u (.start u grid) h₁ mid) {motive : List Happening → State → Prop}
    (rest : motive [] mid)
    (step : ∀ h s₁ y s₂, Lawful u grid (h₁ ++ h) s₁ → Lawful u grid (h₁ ++ h ++ y.toList) s₂ →
      Effect u s₁ y s₂ → motive h s₁ → motive (h ++ y.toList) s₂)
    (after : Run u mid h s) (hopen : s.closed = false) : motive h s := by
  have hmid := before.lawful background (after.open hopen)
  refine (Run.induction_open background hmid.isOpen rest ?_ after hopen).2
  intro h s₁ y s₂ hrun ho₁ ho₂ hstep heffect hmotive
  have hlaw₁ := (before.trans hrun).lawful background ho₁.closed
  have hlaw₂ := ((before.trans hrun).step hstep).lawful background ho₂.closed
  exact step h s₁ y s₂ hlaw₁ hlaw₂ heffect hmotive

/-- What is seen at some moment of a run is seen by an effect on a lawful state. -/
theorem Run.effect_of_mem (background : u.ruleSet.throttle.background = true) {y : Happening}
    (run : Run u (.start u grid) h s) (hopen : s.closed = false) (hy : h = h₁ ++ y :: h₂) :
    ∃ mid next, Lawful u grid h₁ mid ∧ Effect u mid (some y) next ∧
      Run u (.start u grid) (h₁ ++ [y]) next ∧ Run u next h₂ s := by
  obtain ⟨mid, hbefore, next, hstep, hafter⟩ := run.moment hy
  obtain ⟨hlaw, heffect⟩ :=
    hbefore.lawful_step background (hstep.open (hafter.open hopen)) hstep
  exact ⟨mid, next, hlaw, heffect, hbefore.step hstep, hafter⟩

/-! ## Asked for in order -/

/-- What is asked for later has the greater generation. -/
theorem Run.asked_ascending (background : u.ruleSet.throttle.background = true)
    (run : Run u (.start u grid) (h₁ ++ h₂) s) (hopen : s.closed = false) {other : CellKey}
    {g' : Nat} (hfirst : AskedFor h₁ key g) (hlater : AskedFor h₂ other g') : g < g' := by
  obtain ⟨asker, fanOut, hmem⟩ := hlater
  obtain ⟨k₁, k₂, rfl⟩ := List.append_of_mem hmem
  obtain ⟨mid, next, hlaw, heffect, -⟩ :=
    run.effect_of_mem background hopen (List.append_assoc h₁ k₁ _).symm
  have hlt := hlaw.chronicle.below key g (hfirst.append _)
  cases heffect with
  | course hknown hcourse =>
    cases hcourse
    exact hlt
  | ask hknown hstage hs => exact hlt
  | call hknown hcourse => cases hcourse
  | outside hout => cases hout

/-- Who reads the grid for an evaluation was asked to. -/
theorem Run.asked_of_read (background : u.ruleSet.throttle.background = true)
    (run : Run u (.start u grid) h s) (hopen : s.closed = false)
    (hread : .read (.evaluation g) key ∈ h) : AskedFor h key g := by
  obtain ⟨h₁, h₂, rfl⟩ := List.append_of_mem hread
  obtain ⟨mid, next, hlaw, heffect, -⟩ := run.effect_of_mem background hopen rfl
  cases heffect with
  | @course e _ _ hknown hcourse =>
    have hasked := hlaw.chronicle.asked e (State.mem_of_evaluation? hknown)
    cases hcourse
    exact hasked.append _
  | call hknown hcourse => cases hcourse
  | outside hout => cases hout

/-! ## The report -/

/-- The evaluation delivers its report in the state `at₀`, which it leads to `next`. -/
structure Reporting (u : Setup) (grid : Grid) (h : List Happening) (at₀ : State) (key : CellKey)
    (generation : Nat) (fanOut : List String) (report : CellReport) (rows : Dataset)
    (next : State) : Prop where
  run : Run u (.start u grid) h at₀
  lawful : Lawful u grid h at₀
  reading : Reading u (.start u grid) h at₀ key generation fanOut (.ok (report, rows))
  step : Step u at₀ (some (.reported (.evaluation generation) key report.verdict)) next
  known : ∃ e, at₀.evaluation? e.generation = some e ∧ e.generation = generation ∧ e.key = key ∧
    ∃ ledger, at₀.ledger.claim? key generation = some ledger ∧
      next.Alike (({ at₀ with ledger }.deliver u report).setStage e
        (.spreading (({ at₀ with ledger } : State).deliver u report |>.peers u key fanOut rows)))

/-- Every report of an evaluation has its reading before it. -/
theorem Run.reporting (background : u.ruleSet.throttle.background = true)
    (run : Run u (.start u grid) h s) {v : Verdict}
    (hx : h = h₁ ++ .reported (.evaluation g) key v :: h₂) :
    ∃ at₀ next fanOut report rows, Reporting u grid h₁ at₀ key g fanOut report rows next ∧
      report.verdict = v ∧ Run u next h₂ s := by
  obtain ⟨at₀, hbefore, next, hstep, hafter⟩ := run.moment hx
  have hopen : at₀.closed = false := by
    cases hclosed : at₀.closed with
    | false => rfl
    | true =>
      obtain ⟨m, hm, hseen⟩ := hstep
      exact absurd hseen (not_reported_of_closed hclosed hm g key v)
  obtain ⟨hlaw, heffect⟩ := hbefore.lawful_step background hopen hstep
  cases heffect with
  | @course e _ _ hknown hcourse =>
    have htold := hlaw.told e (State.mem_of_evaluation? hknown)
    cases hcourse with
    | @report _ report rows fanOut ledger hstage hwanted hclaim hs =>
      rw [Told, hstage] at htold
      exact ⟨at₀, next, fanOut, report, rows,
        ⟨hbefore, hlaw, htold.2 hwanted, hstep, e, hknown, rfl, rfl, ledger, hclaim, hs⟩, rfl,
        hafter⟩
  | call hknown hcourse => cases hcourse
  | outside hout => cases hout

/-- An evaluation meets a problem only if judging the cell did. -/
theorem Run.reading_of_failed (background : u.ruleSet.throttle.background = true)
    (run : Run u (.start u grid) h s) (hopen : s.closed = false) (hfailed : Failed h key g) :
    ∃ fanOut p, Reading u (.start u grid) h s key g fanOut (.error p) := by
  obtain ⟨p, hmem⟩ := hfailed
  obtain ⟨h₁, h₂, rfl⟩ := List.append_of_mem hmem
  obtain ⟨mid, hmoment⟩ := run.moment rfl
  obtain ⟨next, hstep, hafter⟩ := hmoment.after
  obtain ⟨hlaw, heffect⟩ :=
    hmoment.before.lawful_step background (hstep.open (hafter.open hopen)) hstep
  cases heffect with
  | @course e _ _ hknown hcourse =>
    have htold := hlaw.told e (State.mem_of_evaluation? hknown)
    cases hcourse with
    | @fail _ p fanOut hstage hwanted hs =>
      rw [Told, hstage] at htold
      exact ⟨fanOut, p, (htold.2 hwanted).later hmoment.rest⟩
  | call hknown hcourse => cases hcourse
  | outside hout => cases hout

end CellRules.Watch
