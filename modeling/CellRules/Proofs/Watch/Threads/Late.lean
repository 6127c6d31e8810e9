/-
CellRules.Proofs.Watch.Threads.Late — closing a watch is final, but for what was under way.

What may still be reported when a closing has returned (`Threads.MayReport`) is reported in some run
(`MayReport.delivers`): work that meets no checkpoint goes on to its answer (`delivers_of_editing`,
`delivers_of_surveying`), a pool all of whose pieces come to an answer ends, strand by strand
(`delivers_of_pool`), and who has claimed a delivery makes it. What may still be pending is pending in
some run (`MayBePending.comes`). Together with what `Closing` says of every run that is
`closed_is_final`.
-/
import CellRules.Proofs.Watch.Threads.Closed

namespace CellRules.Watch

variable {u : Setup} {s : State} {id : Nat} {c : Call} {d : Delivery} {report : CellReport}
  {pool : Pool (List CellReport)} {stage stage' : CallStage}

/-- A call that stands within a step comes to a report only if the sink has another one of it. -/
theorem Position.Suits.handed_of_gives {p : Position} (h : p.Suits u stage)
    (hgives : stage.Gives u report) : ∃ key r, p = .handed key r none := by
  have hbetween : ¬stage.Between := by
    rintro ⟨edited, todo, rfl⟩
    cases hgives
  cases p with
  | handed key r next =>
    cases next with
    | none => exact ⟨key, r, rfl⟩
    | some next => exact absurd h.1 hbetween
  | recorded => exact absurd h.1 hbetween
  | asks | drawn | entered => exact absurd h hbetween
  | looks =>
    obtain rfl : stage = .called := h
    cases hgives
  | admitted | claimed => exact absurd h id

namespace Threads

variable {t₀ t t' mid : Threads} {h : List Happening} {key : CellKey} {task : Task}

/-! ## Runs that deliver something -/

/-- Some run delivers this. -/
def Delivers (u : Setup) (t : Threads) (d : Delivery) : Prop :=
  ∃ h t', Run u t h t' ∧
    ∃ late, t'.state.sink.deliveries = t.state.sink.deliveries ++ late ∧ d ∈ late

theorem Run.of_step? (hstep : t.step? u task = some t') :
    Run u t (t.seen (.move (.step task)) t').toList t' :=
  Step.run ⟨.move (.step task), hstep, rfl⟩

/-- What is delivered after a run. -/
theorem Delivers.after (more : List Delivery) (run : Run u t h mid)
    (hsink : mid.state.sink.deliveries = t.state.sink.deliveries ++ more)
    (hd : mid.Delivers u d) : t.Delivers u d := by
  obtain ⟨h', t', run', late, hlate, hmem⟩ := hd
  exact ⟨h ++ h', t', run.trans run', more ++ late, by rw [hlate, hsink, List.append_assoc],
    List.mem_append_right _ hmem⟩

/-- What is delivered after a step that delivers nothing. -/
theorem Delivers.of_step (hstep : t.step? u task = some mid)
    (hsink : mid.state.deliveries = t.state.deliveries) (hd : mid.Delivers u d) : t.Delivers u d :=
  hd.after [] (Run.of_step? hstep) (by rw [State.sink, hsink, List.append_nil]; rfl)

/-- What a step delivers. -/
theorem Delivers.now (hstep : t.step? u task = some mid)
    (hsink : mid.state.deliveries = t.state.deliveries ++ [(t.state.now, d)]) : t.Delivers u d :=
  ⟨_, mid, Run.of_step? hstep, [d], by rw [State.sink, hsink, List.map_append]; rfl,
    List.mem_singleton_self _⟩

/-! ## Calls between two steps -/

/-- The call is at this stage, and neither it nor a strand of its pool stands within a step. -/
structure Ready (t : Threads) (id : Nat) (stage : CallStage) : Prop where
  known : t.state.call? id = some ⟨id, stage⟩
  free : t.position? (.call id) = none
  strands : ∀ strand, t.position? (.strand id strand) = none

namespace Ready

variable (hr : t.Ready id stage)

include hr

theorem goTo (hcalls : s.calls = t.state.calls) :
    (t.withState (Call.goTo s ⟨id, stage⟩ stage')).Ready id stage' where
  known := State.call?_goTo_self (c := ⟨id, stage⟩) ((State.call?_congr hcalls).trans hr.known)
  free := hr.free
  strands := hr.strands

/-- A step that the call takes whole. -/
theorem step? (hwhole : (Call.mk id stage).open? u t.state = none)
    (hstep : (Call.mk id stage).step? u t.state = some s) :
    t.step? u (.call id) = some (t.withState s) := by
  simp [Threads.step?, hr.free, State.open?, State.step?, hr.known, hwhole, hstep]

/-- A step of a strand of the call's pool. -/
theorem strand? {i : Nat} (hstep : (Call.mk id stage).stepStrand? t.state i = some s) :
    t.step? u (.strand id i) = some (t.withState s) := by
  simp [Threads.step?, hr.strands, State.open?, State.step?, hr.known, hstep]

/-- The first piece of a step that the call takes in pieces. -/
theorem open? {p : Position} (hopen : (Call.mk id stage).open? u t.state = some (s, p)) :
    t.step? u (.call id) = some ((t.stand (.call id) p).withState s) := by
  simp [Threads.step?, hr.free, State.open?, hr.known, hopen]

end Ready

/-- A call of which the sink has a report records it and goes on. -/
theorem Delivers.of_handed (hp : t.position? (.call id) = some (.handed key report none))
    (hknown : t.state.call? id = some ⟨id, stage⟩)
    (hstrands : ∀ strand, t.position? (.strand id strand) = none)
    (hthen : ∀ t : Threads, t.Ready id stage → t.Delivers u d) : t.Delivers u d := by
  have hstep : t.step? u (.call id)
      = some ((t.leave (.call id)).withState (t.state.record u report)) := by
    simp [step?, hp, goOn?]
  refine .of_step hstep rfl (hthen _ ⟨hknown, position?_leave_self, fun strand => ?_⟩)
  exact (position?_leave_of_ne (by simp)).trans (hstrands strand)

/-- A call that has reports in hand delivers them. -/
theorem delivers_of_delivering {todo cells : List CellReport}
    (hr : t.Ready id (.delivering todo cells)) (hmem : report ∈ todo) :
    t.Delivers u report.delivery := by
  induction todo generalizing t with
  | nil => cases hmem
  | cons cell todo ih =>
    have hstep := hr.open? (u := u) (s := Call.goTo (t.state.hand cell)
      ⟨id, .delivering (cell :: todo) cells⟩ (.delivering todo cells)) rfl
    rcases List.mem_cons.mp hmem with rfl | hmem
    · exact .now hstep rfl
    · -- it records the report, and goes on to the next one
      refine Delivers.after [cell.delivery] (Run.of_step? hstep) List.map_append
        (.of_handed position?_stand_self ?_ (fun strand => ?_) fun _ hr => ih hr hmem)
      · exact State.call?_goTo_self (c := ⟨id, .delivering (cell :: todo) cells⟩) hr.known
      · exact (position?_stand_of_ne (by simp)).trans (hr.strands strand)

/-- A call whose judging meets no checkpoint delivers its report. -/
theorem delivers_of_editing {edited : String} {todo : List Job} {job : Job} {w : Work Judgement}
    {rows : Dataset} (hr : t.Ready id (.editing edited todo (some (job, .working w))))
    (hanswer : w.cutShort = .ok (report, rows)) : t.Delivers u report.delivery := by
  induction w generalizing t with
  | done answer =>
    obtain rfl : answer = .ok (report, rows) := hanswer
    have hopen : ∃ s p, (Call.mk id (.editing edited todo
        (some (job, .working (.done (.ok (report, rows))))))).open? u t.state = some (s, p) ∧
        s.deliveries = t.state.deliveries ++ [(t.state.now, report.delivery)] := by
      simp only [Call.open?, Running.step?, Option.some.injEq, Prod.mk.injEq]
      exact ⟨_, _, ⟨rfl, rfl⟩, rfl⟩
    obtain ⟨s, p, hopen, hsink⟩ := hopen
    exact .now (hr.open? hopen) hsink
  | log event rest ih =>
    refine .of_step (hr.step? (s := Call.goTo (t.state.write [event])
      ⟨id, .editing edited todo (some (job, .working (.log event rest)))⟩
      (.editing edited todo (some (job, .working rest)))) ?_ ?_) rfl (ih (hr.goTo rfl) hanswer)
    · simp [Call.open?, Running.step?]
    · simp [Call.step?, Running.step?]
  | wait | checkpoint => cases hanswer

/-- A call whose look at the rows meets no checkpoint goes on to judge them. -/
theorem delivers_of_surveying {w : Work RuleSet.Survey} {v : RuleSet.Survey}
    (hr : t.Ready id (.surveying (.working w))) (hanswer : w.cutShort = .ok v)
    (hthen : ∀ t : Threads, t.Ready id (.judging (Call.poolFor u v)) → t.Delivers u d) :
    t.Delivers u d := by
  induction w generalizing t with
  | done answer =>
    obtain rfl : answer = .ok v := hanswer
    refine .of_step (hr.step? (s := Call.goTo t.state ⟨id, .surveying (.working (.done (.ok v)))⟩
      (.judging (Call.poolFor u v))) rfl ?_) rfl (hthen _ (hr.goTo rfl))
    simp [Call.step?, Running.step?]
  | log event rest ih =>
    refine .of_step (hr.step? (s := Call.goTo (t.state.write [event])
      ⟨id, .surveying (.working (.log event rest))⟩ (.surveying (.working rest))) rfl ?_) rfl
      (ih (hr.goTo rfl) hanswer)
    simp [Call.step?, Running.step?]
  | wait | checkpoint => cases hanswer

/-! ## Pools that come to their end -/

/-- A strand under way that meets no checkpoint ends. -/
theorem delivers_of_running {b : Strand (List CellReport)} {w : Work (List CellReport)}
    {answer : List CellReport} (l : Limiter) (hr : t.Ready id (.judging pool))
    (hstrand : pool.strand? b.id = some b) (hprogress : b.progress = .running (.working w))
    (hanswer : w.cutShort = .ok answer)
    (hthen : ∀ t : Threads, t.Ready id (.judging (pool.finish b l answer).1) → t.Delivers u d) :
    t.Delivers u d := by
  induction w generalizing t pool b with
  | done result =>
    obtain rfl : result = .ok answer := hanswer
    refine .of_step (hr.strand? (i := b.id) (s := Call.goTo
        ({ t.state with limiter := (pool.finish b t.state.limiter answer).2 }.write [])
        ⟨id, .judging pool⟩ (.judging (pool.finish b t.state.limiter answer).1)) ?_) rfl
      (hthen _ (hr.goTo rfl))
    simp [Call.stepStrand?, Call.pool?, Pool.step?, hstrand, hprogress, Running.step?]
  | log event rest ih =>
    refine .of_step (hr.strand? (i := b.id) (s := Call.goTo (t.state.write [event])
        ⟨id, .judging pool⟩
        (.judging (pool.update { b with progress := .running (.working rest) }))) ?_) rfl
      (ih (b := { b with progress := .running (.working rest) }) (hr.goTo rfl)
        (Pool.strand?_update hstrand rfl) rfl hanswer fun t' hr' => hthen t' ?_)
    · simp [Call.stepStrand?, Call.pool?, Pool.step?, hstrand, hprogress, Running.step?]
    · rwa [Pool.finish_update (t := b) (by rfl)] at hr'
  | wait | checkpoint => cases hanswer

/-- A strand that heads for an answer although it is told to stop ends. -/
theorem delivers_of_strand {b : Strand (List CellReport)} {answer : List CellReport} (l : Limiter)
    (hr : t.Ready id (.judging pool)) (hstrand : pool.strand? b.id = some b)
    (hheads : b.progress.heads pool.usesSlots true = .ok answer)
    (hthen : ∀ t : Threads, t.Ready id (.judging (pool.finish b l answer).1) → t.Delivers u d) :
    t.Delivers u d := by
  cases hprogress : b.progress with
  | fresh work =>
    rw [hprogress] at hheads
    cases hslots : pool.usesSlots with
    | true => simp [Progress.heads, hslots] at hheads
    | false =>
      have hanswer : work.cutShort = .ok answer := by
        simpa [Progress.heads, hslots, Work.heads] using hheads
      refine .of_step (hr.strand? (i := b.id) (s := Call.goTo (t.state.write [])
          ⟨id, .judging pool⟩ (.judging (pool.update
            { b with holds := false, progress := .running (.working work) }))) ?_) rfl
        (delivers_of_running
          (b := { b with holds := false, progress := .running (.working work) }) l
          (hr.goTo rfl) (Pool.strand?_update hstrand rfl) rfl hanswer fun t' hr' => hthen t' ?_)
      · simp [Call.stepStrand?, Call.pool?, Pool.step?, hstrand, hprogress, hslots]
      · rwa [Pool.finish_update (t := b) (by rfl)] at hr'
  | inLine ticket work =>
    rw [hprogress] at hheads
    cases hheads
  | running work =>
    rw [hprogress] at hheads
    cases work with
    | working w => exact delivers_of_running l hr hstrand hprogress hheads hthen
    | asleep due rest => cases hheads

/-- A pool that comes to a batch although it is told to stop ends, and its reports are delivered. -/
theorem delivers_of_pool {size : Nat} {batch : List CellReport} (hroom : size ≠ 0)
    (hr : t.Ready id (.judging pool)) (hpool : pool.Orderly size) (hends : pool.ComesTo batch)
    (hmem : report ∈ batch) : t.Delivers u report.delivery := by
  -- the answers to come are fewer each time that a strand has ended
  induction hn : (pool.toCome true).length using Nat.strongRecOn generalizing t pool with
  | ind n ih =>
    cases hstrands : pool.strands with
    | nil =>
      have hqueue : pool.queue = [] :=
        (hpool.busy hstrands).resolve_right (by rw [hpool.room]; exact hroom)
      have hresult : pool.result? = some (.ok pool.answers) := by
        simp [Pool.result?, hends.unbroken, hstrands, hqueue]
      have hbatch : batch ∈ pool.answers := by
        simpa [Pool.toCome, Pool.ahead, hstrands, hqueue] using hends.mem
      refine .of_step (hr.step? (s := Call.goTo t.state ⟨id, .judging pool⟩
          (.delivering (RuleSet.gather pool.answers) (RuleSet.gather pool.answers))) rfl ?_) rfl
        (delivers_of_delivering (hr.goTo rfl) (RuleSet.mem_gather.mpr ⟨batch, hbatch, hmem⟩))
      simp [Call.step?, hresult]
    | cons b strands =>
      have hmine : b ∈ pool.strands := by simp [hstrands]
      have hfirst : pool.strand? b.id = some b := by simp [Pool.strand?, hstrands]
      obtain ⟨answer, hheads⟩ := hends.all (b.progress.heads pool.usesSlots true)
        (List.mem_append_left _ (List.mem_map.mpr ⟨b, hmine, rfl⟩))
      obtain ⟨hends', hless⟩ := hends.finish hpool.toNumbered hmine hheads t.state.limiter
      refine delivers_of_strand t.state.limiter hr hfirst hheads fun t' hr' => ?_
      have hadvance : Pool.Advance true true pool (pool.finish b t.state.limiter answer).1 :=
        .ends hmine hheads
      exact ih _ (hn ▸ hless) hr' (hpool.advance hadvance) hends' rfl

/-! ## What may still be reported is reported -/

/-- A call between two steps that comes to a report with what it has begun makes it. -/
theorem Ready.delivers (hr : t.Ready id stage) (hroom : u.ruleSet.throttle.limit ≠ 0)
    (hproper : stage.Proper u) (hgives : stage.Gives u report) : t.Delivers u report.delivery := by
  cases hgives with
  | inHand hmem => exact delivers_of_delivering hr hmem
  | judged hends hmem => exact delivers_of_pool hroom hr hproper hends hmem
  | @surveyed work v _ _ hsurvey hends hmem =>
    cases work with
    | working w =>
      exact delivers_of_surveying hr hsurvey fun t' hr' =>
        delivers_of_pool hroom hr' (Pool.orderly_start _ _ _) hends hmem
    | asleep due rest => cases hsurvey
  | @underWay edited todo job work _ rows hanswer =>
    cases work with
    | working w => exact delivers_of_editing hr hanswer
    | asleep due rest => cases hanswer

/-- Who has claimed a delivery makes it. -/
theorem delivers_of_claimed {next : Following} (hp : t.position? task = some (.claimed report next)) :
    t.Delivers u report.delivery := by
  have hstep : t.step? u task = some ((t.stand task (.handed next.key report (some next))).withState
      (t.state.hand report)) := by
    simp [step?, hp, goOn?]
  exact .now hstep rfl

/-- What may still be reported when a closing has returned, some run delivers. -/
theorem MayReport.delivers (hroom : u.ruleSet.throttle.limit ≠ 0)
    (hclosed : t₀.state.closed = true) (hslots : t₀.state.limiter.closed = true) (ht : t₀.Tidy u)
    (hmay : MayReport u t₀ report) : t₀.Delivers u report.delivery := by
  -- what is delivered from where a run has come to
  have hafter : ∀ {h t}, Run u t₀ h t → t.Delivers u report.delivery →
      t₀.Delivers u report.delivery := by
    intro h t run hd
    obtain ⟨-, -, -, hcl⟩ := run.closing hclosed hslots ht
    obtain ⟨late, hlate, -⟩ := hcl.said
    exact hd.after _ run hlate
  cases hmay with
  | @gives c _ hc hgives =>
    have hproper := ht.calls.stages c hc
    have hknown : t₀.state.call? c.id = some ⟨c.id, c.stage⟩ := ht.calls.ids.call?_eq hc
    cases hp : t₀.position? (.call c.id) with
    | none => exact (Ready.mk hknown hp (ht.strands c.id)).delivers hroom hproper hgives
    | some p =>
      obtain ⟨d, hd, hsuits⟩ := ht.stands c.id p hp
      obtain rfl := Option.some.inj (hknown.symm.trans hd)
      obtain ⟨key, r, rfl⟩ := hsuits.handed_of_gives hgives
      exact .of_handed hp hknown (ht.strands _) fun t' hr' => hr'.delivers hroom hproper hgives
  | @begins c _ h t run hbefore hknown hfree hbegins =>
    obtain ⟨-, -, ht, -⟩ := run.closing hclosed hslots ht
    obtain ⟨hatOnce, edited, job, todo, rows, hstage, hanswer⟩ := hbegins
    obtain ⟨id, stage⟩ := c
    subst hstage
    have hr : t.Ready id (.editing edited (job :: todo) none) := ⟨hknown, hfree, ht.strands id⟩
    refine hafter run (.of_step (hr.step? (s := Call.begin u t.state
      ⟨id, .editing edited (job :: todo) none⟩ edited job todo) ?_ ?_) rfl
      (delivers_of_editing (hr.goTo rfl) hanswer))
    · simp [Call.open?, hatOnce]
    · simp [Call.step?, hatOnce]
  | @looks id _ h t hstood run hp hgives =>
    obtain ⟨-, -, ht, -⟩ := run.closing hclosed hslots ht
    obtain ⟨⟨i, stage⟩, hc, rfl : stage = .called⟩ := ht.stands id _ hp
    obtain rfl : i = id := State.id_of_call? hc
    have hstep : t.step? u (.call i) = some ((t.leave (.call i)).withState (Call.goTo t.state
        ⟨i, .called⟩ (.surveying (.working (u.ruleSet.survey (t.state.source u)))))) := by
      simp [step?, hp, goOn?, hc]
    have hr : ((t.leave (.call i)).withState (Call.goTo t.state ⟨i, .called⟩
        (.surveying (.working (u.ruleSet.survey (t.state.source u)))))).Ready i
          (.surveying (.working (u.ruleSet.survey (t.state.source u)))) :=
      ⟨State.call?_goTo_self (c := ⟨i, .called⟩) hc, position?_leave_self, fun strand =>
        (position?_leave_of_ne (by simp)).trans (ht.strands i strand)⟩
    exact hafter run (.of_step hstep rfl (hr.delivers hroom trivial hgives))
  | claimed hstood => exact delivers_of_claimed hstood
  | @claims e _ next h t ledger hstood run hp hknown hunlocked hnewest =>
    have hclaim : t.claim u e report next = (t.stand (.evaluation e.generation)
        (.claimed report next)).withState { t.state with ledger } := by
      simp [claim, Evaluation.claim?, hnewest]
    have hstep : t.step? u (.evaluation e.generation) = some (t.claim u e report next) := by
      simp [step?, hp, goOn?, hunlocked, hknown]
    rw [hclaim] at hstep
    exact hafter run (.of_step hstep rfl (delivers_of_claimed position?_stand_self))

/-- What may still be pending when a closing has returned, is pending in some run. -/
theorem MayBePending.comes (hmay : t₀.MayBePending key) :
    ∃ h t, Run u t₀ h t ∧ t.state.ledger.contains key = true := by
  have hdrawn : ∀ {t : Threads} {task : Task} {fanOut : List String} {g : Nat},
      t.position? task = some (.drawn key fanOut g) →
      ∃ h t', Run u t h t' ∧ t'.state.ledger.contains key = true := by
    intro t task fanOut g hp
    have hstep : t.step? u task = some ((t.stand task (.entered key g
        (t.state.ledger.current? key) false)).withState (t.state.enter key g fanOut)) := by
      simp [step?, hp, goOn?]
    exact ⟨_, _, Run.of_step? hstep, Ledger.contains_request.mpr (.inl rfl)⟩
  cases hmay with
  | pending hthere => exact ⟨[], t₀, .rest, hthere⟩
  | drawn hp => exact hdrawn hp
  | @asks task fanOut hp =>
    have hstep : t₀.step? u task = some ((t₀.stand task (.drawn key fanOut
        t₀.state.nextGeneration)).withState t₀.state.draw) := by
      simp [step?, hp, goOn?]
    obtain ⟨h, t, run, hthere⟩ := hdrawn (t := (t₀.stand task (.drawn key fanOut
      t₀.state.nextGeneration)).withState t₀.state.draw) position?_stand_self
    exact ⟨_, t, (Run.of_step? hstep).trans run, hthere⟩

/-! ## Closing is final -/

/-- The call is refused: it has that answer, or comes to it with its next step. -/
def Refused (u : Setup) (t : Threads) (c : Call) : Prop :=
  c.stage = .edited (.error .schedulerClosed) ∨ c.stage = .reported (.error .schedulerClosed) ∨
    c.stage = .called ∧ t.step? u (.call c.id)
      = some (t.withState (Call.goTo t.state c (.reported (.error .schedulerClosed))))

theorem refused_of_closed (hclosed : t.state.closed = true)
    (hknown : t.state.call? c.id = some c) (hfree : t.position? (.call c.id) = none)
    (hstage : c.stage.refused = true) : t.Refused u c := by
  unfold CallStage.refused at hstage
  split at hstage
  · rename_i hcalled
    refine .inr (.inr ⟨hcalled, ?_⟩)
    simp [step?, hfree, State.open?, State.step?, hknown, Call.open?, Call.step?, hcalled, hclosed]
  · rename_i hedited
    exact .inl hedited
  · rename_i hreported
    exact .inr (.inl hreported)
  · cases hstage

end Threads

/-- Once a closing has returned, only those cells are pending that were pending then or of which a
task that had found the watch open has yet to enter an evaluation; whoever calls is refused; and
what is delivered nonetheless are reports of calls that come to them though they are told to stop,
and of evaluations that were about to claim their delivery or had claimed it. Each of these cells is
pending in some run, and each of these reports is delivered in some run. -/
theorem closed_is_final {grid : Grid} {h₀ : List Happening} {t₀ : Threads}
    (before : Threads.Run u (.whole (.start u grid)) h₀ t₀) (returned : .done ∈ t₀.closers) :
    (∀ h t, Threads.Run u t₀ h t →
      (∀ key, t.state.ledger.contains key = true → t₀.MayBePending key) ∧
        (∀ c ∈ t.state.calls, t₀.state.nextCall ≤ c.id → t.Refused u c) ∧
          ∃ late : List CellReport,
            t.state.sink.deliveries = t₀.state.sink.deliveries ++ late.map CellReport.delivery ∧
              ∀ report ∈ late, Threads.MayReport u t₀ report) ∧
    (∀ key, t₀.MayBePending key →
      ∃ h t, Threads.Run u t₀ h t ∧ t.state.ledger.contains key = true) ∧
    (u.ruleSet.throttle.validate = .ok () → ∀ report, Threads.MayReport u t₀ report →
      t₀.Delivers u report.delivery) := by
  obtain ⟨hclosed, hslots⟩ := before.shut returned
  have ht := before.tidy (Threads.tidy_start u grid)
  refine ⟨fun h t after => ?_, fun key hmay => hmay.comes, fun haccepted report hmay => ?_⟩
  · obtain ⟨hclosed, -, ht, hcl⟩ := after.closing hclosed hslots ht
    refine ⟨hcl.pending, fun c hc hid => ?_, hcl.said⟩
    obtain ⟨hstage, hfree⟩ := hcl.later c hc hid
    exact Threads.refused_of_closed hclosed (ht.calls.ids.call?_eq hc) hfree hstage
  · have hroom : u.ruleSet.throttle.limit ≠ 0 := fun hnone => by
      simp [Throttle.validate, hnone] at haccepted
    exact hmay.delivers hroom hclosed hslots ht

/-- A code is looked up, which takes a second. -/
def codeRule : Rule where
  name := "Code_lookup"
  description := none
  targets := ["Code"]
  dependencies := []
  guard := none
  validators := [.delayed fun _ => .after 1000 (.ok .success)]
  scopes := []
  severity := .error
  priority := 0
  message := ""

/-- One code asks for a name. -/
def nameRule : Rule where
  name := "Name_required"
  description := none
  targets := ["Name"]
  dependencies := ["Code"]
  guard := some fun ctx => .ok (ctx.textOf "Code" == "c")
  validators := [.prompt fun ctx => .ok (Check.required ctx)]
  scopes := []
  severity := .error
  priority := 0
  message := ""

def closedWatch : Setup where
  ruleSet := { name := "orders", rules := [codeRule, nameRule], throttle := .synchronous }
  view := Grid.source

def orderRow : Grid := ⟨["Code", "Name"], [[.text "a", .text ""]]⟩

/-- The code is edited, looking it up has begun, and the watch is closed. -/
def untilClosed : List Turn :=
  List.flatten [[.move (.edit 0 "Code")], Task.turns 3 (.call 0), [.move .shutDown],
    List.replicate 3 (.close 0)]

/-- The call goes on, and others come. -/
def afterClosed : List Turn :=
  List.flatten [Task.turns 5 (.call 0), [.move (.edit 0 "Name"), .move .validateAll],
    Task.turns 1 (.call 2)]

/-- When the closing has returned the call sleeps, and nothing was delivered. -/
theorem closedWatch_run : ∃ h₀ t₀ h t,
    Threads.Run closedWatch (.whole (.start closedWatch orderRow)) h₀ t₀ ∧ .done ∈ t₀.closers ∧
      Threads.Run closedWatch t₀ h t ∧ (t₀.state.call? 0).bind Call.due? = some 1000 ∧
      t₀.state.sink.deliveries = [] ∧ t.state.sink.deliveries = [⟨0, "Name", .success⟩] := by
  have hrun : ((Threads.whole (.start closedWatch orderRow)).record? closedWatch untilClosed).bind
      (fun p => (p.2.record? closedWatch afterClosed).map fun q =>
        (p.2.closers, (p.2.state.call? 0).bind Call.due?, p.2.state.sink.deliveries,
          q.2.state.sink.deliveries))
        = some ([.done], some 1000, [], [⟨0, "Name", .success⟩]) := by
    decide +kernel
  obtain ⟨⟨h₀, t₀⟩, hbefore, hrest⟩ := Option.bind_eq_some_iff.mp hrun
  obtain ⟨⟨h, t⟩, hafter, hseen⟩ := Option.map_eq_some_iff.mp hrest
  simp only [Prod.mk.injEq] at hseen
  obtain ⟨hclosers, hseen⟩ := hseen
  exact ⟨h₀, t₀, h, t, .of_record? hbefore, by simp [hclosers], .of_record? hafter, hseen⟩

/-- Looking the code up is given up. The name is judged all the same: its rule looks at its guard
first, and the report comes after the watch was closed. -/
theorem reported_after_closing : ∃ h₀ t₀ h t,
    Threads.Run closedWatch (.whole (.start closedWatch orderRow)) h₀ t₀ ∧ .done ∈ t₀.closers ∧
      Threads.Run closedWatch t₀ h t ∧ (t₀.state.call? 0).bind Call.due? = some 1000 ∧
      t.state.sink.deliveries ≠ t₀.state.sink.deliveries := by
  obtain ⟨h₀, t₀, h, t, hbefore, hreturned, hafter, hsleeps, hnone, hname⟩ := closedWatch_run
  exact ⟨h₀, t₀, h, t, hbefore, hreturned, hafter, hsleeps, by simp [hnone, hname]⟩

/-- The report on the name is one that the call might still make. -/
theorem closed_is_final_orderRow : ∃ h₀ t₀ h t,
    Threads.Run closedWatch (.whole (.start closedWatch orderRow)) h₀ t₀ ∧ .done ∈ t₀.closers ∧
      Threads.Run closedWatch t₀ h t ∧
      (∀ key, t.state.ledger.contains key = true → t₀.MayBePending key) ∧
      (∀ c ∈ t.state.calls, t₀.state.nextCall ≤ c.id → t.Refused closedWatch c) ∧
      closedWatch.ruleSet.throttle.validate = .ok () ∧
      ∃ report, Threads.MayReport closedWatch t₀ report ∧
        report.delivery = ⟨0, "Name", .success⟩ ∧ t₀.Delivers closedWatch report.delivery := by
  obtain ⟨h₀, t₀, h, t, hbefore, hreturned, hafter, -, hnone, hname⟩ := closedWatch_run
  have haccepted : closedWatch.ruleSet.throttle.validate = .ok () := rfl
  obtain ⟨hfinal, -, hmade⟩ := closed_is_final hbefore hreturned
  obtain ⟨hpending, hrefused, late, hlate, hmay⟩ := hfinal h t hafter
  rw [hnone, hname, List.nil_append] at hlate
  obtain ⟨report, hreport, hdelivery⟩ := List.mem_map.mp (hlate ▸ List.mem_singleton_self _)
  exact ⟨h₀, t₀, h, t, hbefore, hreturned, hafter, hpending, hrefused, haccepted, report,
    hmay report hreport, hdelivery, hmade haccepted report (hmay report hreport)⟩

end CellRules.Watch
