/-
CellRules.Proofs.Watch.Threads.Reported — what stands behind a report when tasks run beside each other.

* `Threads.Reading` — an evaluation was asked for, began, and then read the grid; nothing that comes
  between its pieces takes that away.
* `Run.reporting` — every report of an evaluation has its reading before it.
* `Run.sink_deliveries` — where edited cells are judged in the background and nobody asks for all
  rows, the sink holds the reports of the history in order, and evaluations made them all.
-/
import CellRules.Proofs.Watch.Delivery
import CellRules.Proofs.Watch.Threads.Lawful

namespace CellRules.Watch

variable {u : Setup}

namespace Threads

variable {t₀ t t' : Threads} {h h₁ h₂ : List Happening} {x : Option Happening} {key : CellKey}
  {g : Nat} {fanOut : List String} {e : Evaluation} {answer : Except Problem Judgement}

/-- The evaluation was asked for, began, and then read the grid in a state by which the answer is
this. -/
def Reading (u : Setup) (t₀ : Threads) (h : List Happening) (t : Threads) (key : CellKey)
    (generation : Nat) (fanOut : List String) (answer : Except Problem Judgement) : Prop :=
  ∃ h₁ mid h₂, h = h₁ ++ .read (.evaluation generation) key :: h₂ ∧
    Moment u t₀ h₁ mid (.read (.evaluation generation) key) h₂ t ∧
    Began h₁ key generation fanOut ∧ (mid.state.judging u key).answer = answer

theorem Reading.began (hr : Reading u t₀ h t key g fanOut answer) : Began h key g fanOut := by
  obtain ⟨h₁, mid, h₂, rfl, -, hb, -⟩ := hr
  exact hb.append _

theorem Reading.extend (hr : Reading u t₀ h t key g fanOut answer) (hstep : Step u t x t') :
    Reading u t₀ (h ++ x.toList) t' key g fanOut answer := by
  obtain ⟨h₁, mid, h₂, rfl, hmoment, hb, hanswer⟩ := hr
  exact ⟨h₁, mid, h₂ ++ x.toList, by simp, hmoment.extend hstep, hb, hanswer⟩

/-! ## Stages and positions -/

/-- The stage of an evaluation is borne out by the history. -/
def Told (u : Setup) (t₀ : Threads) (h : List Happening) (t : Threads) (e : Evaluation) : Prop :=
  match e.stage with
  | .asked | .armed _ | .spreading _ => True
  | .entering fanOut | .inLine _ fanOut => Began h e.key e.generation fanOut
  | .running work fanOut => Reading u t₀ h t e.key e.generation fanOut work.rest.answer
  | .settled answer fanOut =>
    answer = .error .cancelled ∨ Reading u t₀ h t e.key e.generation fanOut answer

/-- So are stages and positions. -/
structure Borne (u : Setup) (t₀ : Threads) (h : List Happening) (t : Threads) : Prop where
  stages : ∀ g e, t.state.evaluation? g = some e → Told u t₀ h t e
  positions : ∀ g report next, (t.position? (.evaluation g) = some (.admitted report next) ∨
      t.position? (.evaluation g) = some (.claimed report next)) →
    ∃ fanOut rows, Reading u t₀ h t next.key g fanOut (.ok (report, rows))

theorem Told.extend {f : Evaluation} (ht : Told u t₀ h t e) (hm : Step u t x t')
    (hg : f.generation = e.generation) (hk : f.key = e.key) (hstage : f.stage = e.stage) :
    Told u t₀ (h ++ x.toList) t' f := by
  unfold Told at ht ⊢
  rw [hstage, hg, hk]
  cases hs : e.stage with
  | asked | armed _ | spreading _ => trivial
  | entering _ | inLine _ _ =>
    rw [hs] at ht
    exact ht.append _
  | running _ _ =>
    rw [hs] at ht
    exact ht.extend hm
  | settled _ _ =>
    rw [hs] at ht
    exact ht.imp id fun hr => hr.extend hm

/-- A step that is taken whole bears out the stage it leads to. -/
theorem Told.stride {s' : State} {stage : Stage} (ht : Told u t₀ h t e) (hrun : Run u t₀ h t)
    (hasked : AskedFor h e.key e.generation) (hm : Step u t x (t.withState s'))
    (hstride : Stride u t.state e x s')
    (hown : s'.evaluation? e.generation = some { e with stage })
    (hknown : t.state.evaluation? e.generation = some e) :
    Told u t₀ (h ++ x.toList) (t.withState s') { e with stage } := by
  have hstage : ∀ {r : State} {next : Stage}, r.evaluation? e.generation = some e →
      s'.Alike (r.setStage e next) → stage = next := by
    intro r next hr state
    have hset := (State.evaluation?_congr state.evaluations e.generation).trans
      (State.evaluation?_setStage hr)
    exact congrArg Evaluation.stage (Option.some.inj (hown.symm.trans hset))
  have hgone : s'.evaluations = (t.state.dropEvaluation e).evaluations → False := by
    intro hdropped
    cases hown.symm.trans ((State.evaluation?_congr hdropped _).trans
      State.evaluation?_dropEvaluation_self)
  unfold Told at ht
  cases hstride with
  | arms _ state | abandons _ _ state | fails _ state | skips _ _ state =>
    rw [hstage hknown state]
    trivial
  | @begins fanOut ledger _ _ _ state =>
    rw [hstage (r := { t.state with ledger }) hknown state]
    exact ⟨h, [], by simp, hasked⟩
  | drops _ _ state => exact (hgone state.evaluations).elim
  | givesUp _ _ state | finishes _ state => exact (hgone state.evaluations).elim
  | queues hs state =>
    rw [hstage hknown state]
    rw [hs] at ht
    exact ht.append _
  | @reads fanOut _ hs state =>
    rw [hstage hknown state]
    have hb : Began h e.key e.generation fanOut := by
      rcases hs with hs | ⟨ticket, hs⟩
      · rwa [hs] at ht
      · rwa [hs] at ht
    exact ⟨h, t, [], rfl, .last hrun hm, hb, rfl⟩
  | goesOn hs hkept state =>
    rw [hstage hknown state]
    rw [hs] at ht
    have hext := ht.extend hm
    rwa [← hkept] at hext
  | ends hs hkept state =>
    rw [hstage hknown state]
    rw [hs] at ht
    rcases hkept with rfl | rfl
    · exact .inr (ht.extend hm)
    · exact .inl rfl

/-! ## Every turn keeps them borne out -/

/-- A turn that leads to no stage and no position that would have to be borne out anew. -/
theorem Borne.keep (hb : Borne u t₀ h t) (hm : Step u t x t')
    (hstages : ∀ g e', t'.state.evaluation? g = some e' → Told u t₀ (h ++ x.toList) t' e' ∨
      ∃ e, t.state.evaluation? g = some e ∧ e'.key = e.key ∧ e'.stage = e.stage)
    (hpositions : ∀ g report next, (t'.position? (.evaluation g) = some (.admitted report next) ∨
        t'.position? (.evaluation g) = some (.claimed report next)) →
      (t.position? (.evaluation g) = some (.admitted report next) ∨
        t.position? (.evaluation g) = some (.claimed report next)) ∨
      ∃ fanOut rows, Reading u t₀ h t next.key g fanOut (.ok (report, rows))) :
    Borne u t₀ (h ++ x.toList) t' where
  stages g e' he' := by
    rcases hstages g e' he' with htold | ⟨e, he, hkey, hstage⟩
    · exact htold
    · have hg : e'.generation = e.generation :=
        (State.generation_of_evaluation? he').trans (State.generation_of_evaluation? he).symm
      exact (hb.stages g e he).extend hm hg hkey hstage
  positions g report next hp := by
    rcases hpositions g report next hp with hold | ⟨fanOut, rows, hr⟩
    · obtain ⟨fanOut, rows, hr⟩ := hb.positions g report next hold
      exact ⟨fanOut, rows, hr.extend hm⟩
    · exact ⟨fanOut, rows, hr.extend hm⟩

section Keep

variable (hb : Borne u t₀ h t) (hm : Step u t x t')

include hb hm

/-- A turn that leaves stages alone. -/
theorem Borne.still (hevaluations : ∀ g, t'.state.evaluation? g = t.state.evaluation? g)
    (hpositions : ∀ g report next, (t'.position? (.evaluation g) = some (.admitted report next) ∨
        t'.position? (.evaluation g) = some (.claimed report next)) →
      t.position? (.evaluation g) = some (.admitted report next) ∨
        t.position? (.evaluation g) = some (.claimed report next)) :
    Borne u t₀ (h ++ x.toList) t' :=
  hb.keep hm (fun g e' he' => .inr ⟨e', (hevaluations g).symm.trans he', rfl, rfl⟩)
    fun g report next hp => .inl (hpositions g report next hp)

/-- A turn with which one evaluation goes on to other cells. -/
theorem Borne.spread {keys : List CellKey} (he : t.state.evaluation? e.generation = some e)
    (hevaluations : ∀ g, t'.state.evaluation? g
      = (t.state.setStage e (.spreading keys)).evaluation? g)
    (hpositions : ∀ g report next, (t'.position? (.evaluation g) = some (.admitted report next) ∨
        t'.position? (.evaluation g) = some (.claimed report next)) →
      (t.position? (.evaluation g) = some (.admitted report next) ∨
        t.position? (.evaluation g) = some (.claimed report next)) ∨
      ∃ fanOut rows, Reading u t₀ h t next.key g fanOut (.ok (report, rows))) :
    Borne u t₀ (h ++ x.toList) t' := by
  refine hb.keep hm (fun g e' he' => ?_) hpositions
  rw [hevaluations] at he'
  by_cases hg : g = e.generation
  · subst hg
    obtain rfl := Option.some.inj ((State.evaluation?_setStage he).symm.trans he')
    exact .inl trivial
  · exact .inr ⟨e', (State.evaluation?_setStage_of_ne hg _).symm.trans he', rfl, rfl⟩

end Keep

/-- A stand that is not one before a report is nobody's delivery. -/
theorem delivery_of_stand {task : Task} {p : Position} {s' : State} (hnext : p.next? = none)
    (g : Nat) (report : CellReport) (next : Following)
    (hp : ((t.stand task p).withState s').position? (.evaluation g)
        = some (.admitted report next) ∨
      ((t.stand task p).withState s').position? (.evaluation g) = some (.claimed report next)) :
    t.position? (.evaluation g) = some (.admitted report next) ∨
      t.position? (.evaluation g) = some (.claimed report next) := by
  rcases hp with hp | hp <;> rcases position_of_stand hp with ⟨-, rfl⟩ | ⟨-, hold⟩
  · cases hnext
  · exact .inl hold
  · cases hnext
  · exact .inr hold

theorem delivery_of_leave {task : Task} {s' : State} (g : Nat) (report : CellReport)
    (next : Following)
    (hp : ((t.leave task).withState s').position? (.evaluation g) = some (.admitted report next) ∨
      ((t.leave task).withState s').position? (.evaluation g) = some (.claimed report next)) :
    t.position? (.evaluation g) = some (.admitted report next) ∨
      t.position? (.evaluation g) = some (.claimed report next) :=
  hp.imp (fun hp => (position_of_leave hp).2) fun hp => (position_of_leave hp).2

/-- An evaluation that begins has nothing to bear out yet. -/
theorem Borne.launch {task : Task} {previous : Option Request} {told : Bool} (ho : t.Orderly h)
    (hb : Borne u t₀ h t) (hm : Step u t x ((t.leave task).launch u key g previous told))
    (hp : t.position? task = some (.entered key g previous told)) :
    Borne u t₀ (h ++ x.toList) ((t.leave task).launch u key g previous told) := by
  obtain ⟨-, hgone⟩ := ho.entered task key g previous told hp
  refine hb.keep hm (fun n e' he' => ?_) fun n report next hp' => .inl ?_
  · by_cases hng : n = g
    · subst hng
      obtain ⟨f, hf, -, hstage, -⟩ := evaluation?_launch_self (u := u) (t := t.leave task)
        key previous told hgone
      obtain rfl := Option.some.inj (he'.symm.trans hf)
      left
      rw [Told, hstage]
      trivial
    · cases he : t.state.evaluation? n with
      | none =>
        cases he'.symm.trans (evaluation?_launch_of_ne (t := t.leave task) _ _ _ he hng)
      | some e =>
        obtain ⟨f, hf, hkey, hstage, -⟩ := evaluation?_launch_of_some (u := u) (t := t.leave task)
          (g := g) key previous told he
        obtain rfl := Option.some.inj (he'.symm.trans hf)
        exact .inr ⟨e, rfl, hkey, hstage⟩
  · have hold : ∀ {p : Position}, p.numbered = false →
        ((t.leave task).launch u key g previous told).position? (.evaluation n) = some p →
        (t.leave task).position? (.evaluation n) = some p := by
      intro p hplain hp'
      rcases position_of_launch hp' with hold | ⟨_, _, _, _, _, -, rfl, -⟩
      · exact hold
      · cases hplain
    exact delivery_of_leave n report next (hp'.imp (hold rfl) (hold rfl))

/-- Every turn keeps stages and positions borne out. -/
theorem Effect.borne (ho : t.Orderly h) (hrun : Run u t₀ h t) (hb : Borne u t₀ h t)
    (hm : Step u t x t') : Borne u t₀ (h ++ x.toList) t' := by
  cases hm.effect with
  | @strides e _ s' hknown _ hstride =>
    refine hb.keep hm (fun g e' he' => ?_) fun _ _ _ hp => .inl hp
    by_cases hg : g = e.generation
    · subst hg
      rcases hstride.own hknown with hgone | ⟨stage, hown⟩
      · cases hgone.symm.trans he'
      · obtain rfl := Option.some.inj (hown.symm.trans he')
        exact .inl ((hb.stages _ e hknown).stride hrun (ho.asked _ e hknown) hm hstride hown hknown)
    · exact .inr ⟨e', (hstride.others hg).symm.trans he', rfl, rfl⟩
  | spreads hknown =>
    exact hb.spread hm hknown (fun _ => rfl) fun g report next hp =>
      .inl (delivery_of_stand rfl g report next hp)
  | @admits e report rows fanOut hknown _ hstage _ =>
    refine hb.spread hm hknown (fun _ => rfl) fun g report' next hp => ?_
    rcases hp with hp | hp <;> rcases position_of_stand hp with ⟨heq, hp⟩ | ⟨-, hold⟩
    · cases hp
      cases heq
      have htold := hb.stages _ e hknown
      rw [Told, hstage] at htold
      exact .inr ⟨fanOut, rows, htold.resolve_left (by simp)⟩
    · exact .inl (.inl hold)
    · cases hp
    · exact .inl (.inr hold)
  | opens _ _ hfirst =>
    exact hb.still hm (State.evaluation?_congr hfirst.kept.1) (delivery_of_stand hfirst.position.2)
  | draws | enters | hands | records =>
    exact hb.still hm (fun _ => rfl) (delivery_of_stand rfl)
  | launches hp => exact Borne.launch ho hb hm hp
  | @claims e report next ledger _ hp =>
    refine hb.still hm (fun _ => rfl) fun g report' next' hp' => ?_
    rcases hp' with hp' | hp' <;> rcases position_of_stand hp' with ⟨heq, hp'⟩ | ⟨-, hold⟩
    · cases hp'
    · exact .inl hold
    · cases hp'
      cases heq
      exact .inl hp
    · exact .inr hold
  | @outdone e _ _ hknown =>
    exact hb.spread hm hknown
      (State.evaluation?_congr (State.alike_leaveOut u t.state e).evaluations)
      fun g report next hp => .inl (delivery_of_leave g report next hp)
  | concludes | looks => exact hb.still hm (fun _ => rfl) delivery_of_leave
  | @follows task next hp =>
    have hfollows := t.state.follows u next task
    refine hb.keep hm (fun g e' he' => ?_) fun g report next hp =>
      .inl (delivery_of_leave g report next hp)
    by_cases hg : .evaluation g = task
    · subst hg
      obtain ⟨e, he, -⟩ := hfollows.back he'
      rcases hfollows.own he with hstill | ⟨keys, hgoes⟩
      · obtain rfl := Option.some.inj (hstill.symm.trans he')
        exact .inr ⟨_, he, rfl, rfl⟩
      · obtain rfl := Option.some.inj (hgoes.symm.trans he')
        exact .inl trivial
    · exact .inr ⟨e', (hfollows.others hg).symm.trans he', rfl, rfl⟩
  | calls hknown _ hwhole _ hadvance =>
    exact hb.still hm (State.evaluation?_congr (hadvance.kept hknown hwhole).1) fun _ _ _ => id
  | outside houter hmove =>
    exact hb.still hm (State.evaluation?_congr (Move.kept_of_outer houter hmove).1)
      fun _ _ _ => id
  | tellsAll | bars | forgets | announces => exact hb.still hm (fun _ => rfl) fun _ _ _ => id

theorem Run.borne (run : Run u t₀ h t) (ho : t₀.Orderly []) (hb : Borne u t₀ [] t₀) :
    Borne u t₀ h t := by
  induction run with
  | rest => exact hb
  | turn turn hrun hturn ih => exact Effect.borne (hrun.orderly ho) hrun ih ⟨turn, hturn, rfl⟩

/-! ## Reports -/

/-- Nobody reports as an evaluation but one that has claimed the delivery. -/
theorem Effect.claimed {v : Verdict} (heffect : Effect u t x t')
    (hx : x = some (.reported (.evaluation g) key v)) :
    ∃ report next, t.position? (.evaluation g) = some (.claimed report next) ∧ next.key = key ∧
      report.verdict = v := by
  cases heffect with
  | strides _ _ hstride => cases hstride.quiet _ hx
  | @opens c s p =>
    cases p with
    | handed => cases hx
    | asks | drawn | entered | admitted | claimed | recorded | looks => cases hx
  | hands hp =>
    cases hx
    exact ⟨_, _, hp, rfl, rfl⟩
  | calls hknown _ hwhole hseen hadvance =>
    rcases hseen with rfl | rfl
    · cases hx
    · cases Call.quiet_of_seen (hadvance.kept hknown hwhole).2.1 hx
  | outside houter => cases Move.quiet_of_outer houter _ hx
  | spreads | admits | draws | enters | launches | claims | outdone | records | concludes | follows
  | looks | tellsAll | bars | forgets | announces => cases hx

theorem borne_start (u : Setup) (grid : Grid) :
    Borne u (whole (.start u grid)) [] (whole (.start u grid)) where
  stages g e he := by cases he
  positions g report next hp := by rcases hp with hp | hp <;> cases hp

/-- Every report of an evaluation has its reading before it. -/
theorem Run.reporting {grid : Grid} (run : Run u (whole (.start u grid)) h t) {v : Verdict}
    (hx : h = h₁ ++ .reported (.evaluation g) key v :: h₂) :
    ∃ mid fanOut report rows,
      Moment u (whole (.start u grid)) h₁ mid (.reported (.evaluation g) key v) h₂ t ∧
      Reading u (whole (.start u grid)) h₁ mid key g fanOut (.ok (report, rows)) ∧
      report.verdict = v := by
  obtain ⟨mid, hmoment⟩ := run.moment hx
  obtain ⟨next, hstep, -⟩ := hmoment.after
  obtain ⟨report, following, hp, rfl, hv⟩ := hstep.effect.claimed rfl
  obtain ⟨fanOut, rows, hreading⟩ := (hmoment.before.borne (orderly_whole _ rfl)
    (borne_start u grid)).positions g report following (.inr hp)
  exact ⟨mid, fanOut, report, rows, hmoment, hreading, hv⟩

/-! ## Calls that only ask for evaluations -/

end Threads

/-- The call asks for evaluations, and reports nothing itself. -/
def CallStage.asksOnly : CallStage → Bool
  | .editing _ _ none | .edited _ => true
  | .editing _ _ (some _) | .called | .surveying _ | .judging _ | .delivering _ _ | .reported _ =>
    false

/-- Where edited cells are judged in the background, telling of an edit is asking for evaluations. -/
theorem Call.Advance.asksOnly {s s' : State} {c : Call}
    (background : u.ruleSet.throttle.background = true) (hstage : c.stage.asksOnly = true)
    (hwhole : c.open? u s = none) (h : c.Advance u s s') :
    ∃ stage, stage.asksOnly = true ∧ s'.Alike (goTo s c stage) ∧
      (c.seen s s').toList.filterMap Happening.delivery? = [] := by
  cases h with
  | told hs => exact ⟨_, rfl, .refl _, by simp [seen, hs]⟩
  | @ask edited job todo _ hs =>
    have hclosed : s.closed = true := by
      by_contra hopen
      simp [open?, hs, background, hopen] at hwhole
    rw [State.schedule, if_pos hclosed]
    refine ⟨_, rfl, .refl _, ?_⟩
    simp only [seen, hs]
    split
    · rfl
    · split <;> rfl
  | take atOnce => cases background.symm.trans atOnce
  | work hs | spread hs | report hs | abandon hs | fail hs | survey hs | look hs | found hs
  | strand hs | judged hs | deliver hs | conclude hs =>
    rw [hs] at hstage
    cases hstage
  | refuse hwhy =>
    rcases hwhy with ⟨hs, -⟩ | ⟨_, hs, -⟩ | ⟨_, hs, -⟩
    all_goals
      rw [hs] at hstage
      cases hstage

/-- An evaluation that takes a whole step leaves calls alone and delivers nothing. -/
theorem Stride.delivers_nothing {s s' : State} {e : Evaluation} {x : Option Happening}
    (h : Stride u s e x s') : s'.calls = s.calls ∧ s'.deliveries = s.deliveries ∧
      x.toList.filterMap Happening.delivery? = [] := by
  cases h with
  | arms _ hs | begins _ _ hs | drops _ _ hs | queues _ hs | reads _ hs | givesUp _ _ hs
  | goesOn _ _ hs | ends _ _ hs | abandons _ _ hs | fails _ hs | skips _ _ hs | finishes _ hs =>
    exact ⟨hs.calls, hs.deliveries, rfl⟩

/-- What comes from outside delivers nothing. -/
theorem Move.delivers_nothing_of_outer {s s' : State} {m : Move} (houter : m.outer = true)
    (hm : s.move? u m = some s') : s'.deliveries = s.deliveries ∧
      (CellRules.Watch.seen s m s').toList.filterMap Happening.delivery? = [] := by
  cases m with
  | setCell row column cell =>
    obtain ⟨grid, -, rfl⟩ := State.set_of_move? hm
    exact ⟨rfl, rfl⟩
  | edit row column =>
    obtain rfl := Option.some.inj hm
    refine ⟨rfl, ?_⟩
    simp only [CellRules.Watch.seen]
    split <;> rfl
  | pushRow values | validateAll | pass millis =>
    obtain rfl := Option.some.inj hm
    exact ⟨rfl, rfl⟩
  | shutDown | step task | takeSlot generation => cases houter

namespace Threads

variable {t t' : Threads} {h : List Happening} {x : Option Happening} {key : CellKey} {g : Nat}

/-- All calls do, and none is about to look at all rows. -/
structure AsksOnly (t : Threads) : Prop where
  calls : ∀ c ∈ t.state.calls, c.stage.asksOnly = true
  looks : ∀ task, t.position? task ≠ some .looks

theorem AsksOnly.goTo {s s' : State} {c : Call} {stage : CallStage}
    (h : ∀ d ∈ s.calls, d.stage.asksOnly = true) (hstage : stage.asksOnly = true)
    (hs : s'.Alike (Call.goTo s c stage)) : ∀ d ∈ s'.calls, d.stage.asksOnly = true := by
  intro d hd
  rw [hs.calls] at hd
  rcases State.mem_goTo.mp hd with ⟨hd, -⟩ | ⟨rfl, -⟩
  · exact h d hd
  · exact hstage

/-- A call that only asks begins a step with asking. -/
theorem AsksOnly.opens {c : Call} {s : State} {p : Position} (h : t.AsksOnly)
    (hknown : t.state.call? c.id = some c) (hfirst : c.Opens u t.state s p) :
    ∃ stage key fanOut, stage.asksOnly = true ∧ s = Call.goTo t.state c stage ∧
      p = .asks key fanOut := by
  have hstage := h.calls c (State.mem_of_call? hknown)
  cases hfirst with
  | asks => exact ⟨_, _, _, rfl, rfl, rfl⟩
  | judged hs | looks hs | delivers hs =>
    rw [hs] at hstage
    cases hstage

theorem Effect.asksOnly (background : u.ruleSet.throttle.background = true) (h : t.AsksOnly)
    (hx : ∀ y, x = some y → y.asksAll = false) (heffect : Effect u t x t') : t'.AsksOnly := by
  have hstand : ∀ {task : Task} {p : Position} {s : State}, p ≠ .looks →
      ∀ other, ((t.stand task p).withState s).position? other ≠ some .looks := by
    intro task p s hne other hp
    rcases position_of_stand hp with ⟨-, rfl⟩ | ⟨-, hold⟩
    · exact hne rfl
    · exact h.looks other hold
  have hleave : ∀ {task : Task} {s : State} (other),
      ((t.leave task).withState s).position? other ≠ some .looks :=
    fun other hp => h.looks other (position_of_leave hp).2
  have hsame : ∀ {s' : State}, s'.calls = t.state.calls →
      ∀ c ∈ s'.calls, c.stage.asksOnly = true := fun hcalls c hc => h.calls c (hcalls ▸ hc)
  cases heffect with
  | strides _ _ hstride => exact ⟨hsame hstride.delivers_nothing.1, h.looks⟩
  | spreads | admits | draws | enters | claims | hands | records =>
    exact ⟨hsame rfl, hstand (by simp)⟩
  | opens hknown _ hfirst =>
    obtain ⟨stage, key, fanOut, hstage, rfl, rfl⟩ := h.opens hknown hfirst
    exact ⟨AsksOnly.goTo h.calls hstage (.refl _), hstand (by simp)⟩
  | @launches task key g previous told =>
    refine ⟨hsame (alike_launch (u := u) (t.leave task) key g previous told).calls,
      fun other hp => ?_⟩
    rcases position_of_launch hp with hold | ⟨_, _, _, _, _, -, hno, -⟩
    · exact hleave (s := t.state) other hold
    · cases hno
  | @outdone e => exact ⟨hsame (State.alike_leaveOut u t.state e).calls, hleave⟩
  | concludes => exact ⟨hsame rfl, hleave⟩
  | @follows task next =>
    refine ⟨?_, hleave⟩
    change ∀ c ∈ (t.state.follow u next task).calls, _
    generalize t.state.follow u next task = s', t.state.follows u next task = hfollows
    cases hfollows with
    | evaluation _ hs => exact hsame hs.calls
    | @call c edited todo found current _ hknown hs hstate =>
      have hstage := h.calls c (State.mem_of_call? hknown)
      rw [hs] at hstage
      refine AsksOnly.goTo h.calls ?_ hstate
      cases current with
      | none => rfl
      | some current => cases hstage
    | none => exact h.calls
  | looks _ hp => exact absurd hp (h.looks _)
  | calls hknown _ hwhole _ hadvance =>
    obtain ⟨stage, hstage, hs, -⟩ := hadvance.asksOnly background
      (h.calls _ (State.mem_of_call? hknown)) hwhole
    exact ⟨AsksOnly.goTo h.calls hstage hs, h.looks⟩
  | @outside m _ houter hm =>
    refine ⟨?_, h.looks⟩
    cases m with
    | setCell row column cell =>
      obtain ⟨grid, -, rfl⟩ := State.set_of_move? hm
      exact h.calls
    | pushRow values | pass millis =>
      obtain rfl := Option.some.inj hm
      exact h.calls
    | edit row column =>
      obtain rfl := Option.some.inj hm
      intro c hc
      rcases List.mem_append.mp hc with hc | hc
      · exact h.calls c hc
      · obtain rfl := List.mem_singleton.mp hc
        dsimp only
        split <;> rfl
    | validateAll => cases hx _ rfl
    | shutDown | step task | takeSlot generation => cases houter
  | tellsAll | bars | forgets | announces => exact ⟨hsame rfl, h.looks⟩

/-- What is delivered is what evaluations report. -/
theorem Effect.sink_deliveries (background : u.ruleSet.throttle.background = true)
    (hview : u.Faithful) (h : t.AsksOnly) {t₀ : Threads} {k : List Happening}
    (ho : t.Orderly k) (hb : Borne u t₀ k t) (heffect : Effect u t x t') :
    t'.state.sink.deliveries
      = t.state.sink.deliveries ++ x.toList.filterMap Happening.delivery? := by
  have hsame : ∀ {s' : State}, s'.deliveries = t.state.deliveries →
      x.toList.filterMap Happening.delivery? = [] →
      s'.sink.deliveries
        = t.state.sink.deliveries ++ x.toList.filterMap Happening.delivery? := by
    intro s' hdeliveries hx
    rw [State.sink, State.sink, hdeliveries, hx, List.append_nil]
  cases heffect with
  | strides _ _ hstride =>
    obtain ⟨-, hdeliveries, hx⟩ := hstride.delivers_nothing
    exact hsame hdeliveries hx
  | spreads | admits | draws | enters | claims | records | concludes | looks | tellsAll | bars
  | forgets | announces => exact hsame rfl rfl
  | opens hknown _ hfirst =>
    obtain ⟨stage, key, fanOut, -, rfl, rfl⟩ := h.opens hknown hfirst
    exact hsame rfl rfl
  | @launches task key g previous told =>
    exact hsame (alike_launch (u := u) (t.leave task) key g previous told).deliveries rfl
  | @outdone e => exact hsame (State.alike_leaveOut u t.state e).deliveries rfl
  | @hands task report next hp =>
    obtain ⟨g, rfl⟩ := ho.reporting task _ hp (by simp [Position.next?])
    obtain ⟨fanOut, rows, _, mid, _, -, -, -, hanswer⟩ := hb.positions g report next (.inr hp)
    have hkey := State.report_of_judging hview hanswer
    rw [← hkey]
    simp [State.sink, State.hand, Happening.delivery?]
  | @follows task next => exact hsame (t.state.follows u next task).deliveries rfl
  | calls hknown _ hwhole hseen hadvance =>
    obtain ⟨stage, -, hs, hnone⟩ := hadvance.asksOnly background
      (h.calls _ (State.mem_of_call? hknown)) hwhole
    refine hsame hs.deliveries ?_
    rcases hseen with rfl | rfl
    · rfl
    · exact hnone
  | outside houter hm =>
    obtain ⟨hdeliveries, hx⟩ := Move.delivers_nothing_of_outer houter hm
    exact hsame hdeliveries hx

/-- Evaluations report, and nobody else. -/
theorem Effect.reporter (background : u.ruleSet.throttle.background = true) (h : t.AsksOnly)
    {k : List Happening} (ho : t.Orderly k) (heffect : Effect u t x t') {task : Task} {v : Verdict}
    (hx : x = some (.reported task key v)) : ∃ g, task = .evaluation g := by
  have hdelivers : x.toList.filterMap Happening.delivery? ≠ [] := by
    rw [hx]
    simp [Happening.delivery?]
  cases heffect with
  | strides _ _ hstride => exact absurd hstride.delivers_nothing.2.2 hdelivers
  | opens hknown _ hfirst =>
    obtain ⟨stage, key, fanOut, -, rfl, rfl⟩ := h.opens hknown hfirst
    cases hx
  | hands hp =>
    cases hx
    exact ho.reporting _ _ hp (by simp [Position.next?])
  | calls hknown _ hwhole hseen hadvance =>
    obtain ⟨stage, -, -, hnone⟩ := hadvance.asksOnly background
      (h.calls _ (State.mem_of_call? hknown)) hwhole
    rcases hseen with rfl | rfl
    · cases hx
    · exact absurd hnone hdelivers
  | outside houter hm => exact absurd (Move.delivers_nothing_of_outer houter hm).2 hdelivers
  | spreads | admits | draws | enters | launches | claims | outdone | records | concludes | follows
  | looks | tellsAll | bars | forgets | announces => cases hx

/-- Where edited cells are judged in the background and nobody asks for all rows, calls only ask for
evaluations. -/
theorem Run.asksOnly {grid : Grid} (background : u.ruleSet.throttle.background = true)
    (run : Run u (whole (.start u grid)) h t) (hx : ∀ y ∈ h, y.asksAll = false) : t.AsksOnly := by
  induction run with
  | rest =>
    constructor
    · intro c hc
      cases hc
    · intro task hp
      cases hp
  | turn turn hrun hturn ih =>
    refine (effect_of_turn? hturn).asksOnly background
      (ih fun y hy => hx y (List.mem_append_left _ hy)) fun y hy => hx y ?_
    exact List.mem_append_right _ (by simp [hy])

/-- Then every report is one of an evaluation. -/
theorem Run.reporter {grid : Grid} (background : u.ruleSet.throttle.background = true)
    (run : Run u (whole (.start u grid)) h t) (hx : ∀ y ∈ h, y.asksAll = false) {task : Task}
    {v : Verdict} (hreported : .reported task key v ∈ h) : ∃ g, task = .evaluation g := by
  obtain ⟨h₁, h₂, rfl⟩ := List.append_of_mem hreported
  obtain ⟨mid, hbefore, next, hstep, -⟩ := run.moment rfl
  exact hstep.effect.reporter background
    (hbefore.asksOnly background fun y hy => hx y (List.mem_append_left _ hy))
    (hbefore.orderly (orderly_whole _ rfl)) rfl

/-- And the sink of a faithful view holds the reports of the history in order. -/
theorem Run.sink_deliveries {grid : Grid} (background : u.ruleSet.throttle.background = true)
    (hview : u.Faithful) (run : Run u (whole (.start u grid)) h t)
    (hx : ∀ y ∈ h, y.asksAll = false) :
    t.state.sink.deliveries = h.filterMap Happening.delivery? := by
  induction run with
  | rest => rfl
  | turn turn hrun hturn ih =>
    have hx₁ := fun y hy => hx y (List.mem_append_left _ hy)
    rw [(effect_of_turn? hturn).sink_deliveries background hview (hrun.asksOnly background hx₁)
      (hrun.orderly (orderly_whole _ rfl))
      (hrun.borne (orderly_whole _ rfl) (borne_start u grid)), ih hx₁, List.filterMap_append]

end Threads

end CellRules.Watch
