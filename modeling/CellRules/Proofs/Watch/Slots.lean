/-
CellRules.Proofs.Watch.Slots — as many slots are in use as there are, and none is lost.

`State.holding` lists the evaluations and batches that have a slot, from the moment at which it is
given to them. In every state that a watch can come to, open or closed, and whoever of those that
are told to stop still takes a slot that is at hand:

* The slots that are free and those who have one are as many as the throttle says, and whoever
  judges has one (`length_holding`, `Balanced.holding_of_judges`).
* Slots are given in the order in which the tasks came to the line (`Balanced.inTurn`).
* One that is told to stop while it waits leaves at once, and its slot goes to the next in line
  (`Evaluation.gives_way`); one that already runs has no slot after some steps of its own
  (`Evaluation.gives_up`).
-/
import CellRules.Proofs.Watch.Deals
import CellRules.Proofs.Watch.Newest

namespace CellRules

/-- The strand has a slot: it holds one, or was given one that it has not taken up. -/
def Strand.hasSlot {α : Type} (l : Limiter) (t : Strand α) : Bool :=
  t.holds || t.tickets.any (· ∈ l.served)

end CellRules

namespace CellRules.Watch

variable {u : Setup} {s s' : State} {e : Evaluation} {task other : Task} {ticket : Ticket}

/-- The evaluation has a slot: it judges its cell, or was given one that it has not taken up. -/
def Stage.hasSlot (l : Limiter) : Stage → Bool
  | .inLine ticket _ => ticket ∈ l.served
  | .running _ _ => true
  | _ => false

/-- The batches of a call that are under way. -/
def CallStage.strands : CallStage → List (Strand (List CellReport))
  | .judging pool => pool.strands
  | _ => []

namespace State

/-- The evaluations and batches that have a slot. -/
def holding (s : State) : List Task :=
  ((s.evaluations.filter (·.stage.hasSlot s.limiter)).map fun e => .evaluation e.generation) ++
    s.calls.flatMap fun c => (c.stage.strands.filter (·.hasSlot s.limiter)).map (.strand c.id ·.id)

/-- The task judges cells by the rules. -/
inductive Judges (s : State) : Task → Prop
  | evaluation {e : Evaluation} {work : Running Judgement} {fanOut : List String}
      (mem : e ∈ s.evaluations) (stage : e.stage = .running work fanOut) :
      Judges s (.evaluation e.generation)
  | batch {c : Call} {t : Strand (List CellReport)} {work : Running (List CellReport)}
      (mem : c ∈ s.calls) (strand : t ∈ c.stage.strands) (runs : t.progress = .running work) :
      Judges s (.strand c.id t.id)
  | edit {c : Call} {edited : String} {todo : List Job} {job : Job} {work : Running Judgement}
      (mem : c ∈ s.calls) (stage : c.stage = .editing edited todo (some (job, work))) :
      Judges s (.call c.id)

/-- What a watch may come to, whatever happens. -/
def Reaches (u : Setup) : State → State → Prop := Relation.ReflTransGen (Goes u)

theorem Reaches.of_moveAll? {ms : List Move} (h : s.moveAll? u ms = some s') : Reaches u s s' :=
  State.keeps_moveAll? h (fun _ _ _ _ hm hrun => hrun.tail ⟨_, hm⟩) .refl

theorem Balanced.reaches (h : s.Balanced u) (hrun : Reaches u s s') :
    s'.Balanced u ∧ s.Passes s' := by
  induction hrun with
  | refl => exact ⟨h, (Same.deals (.refl s) h.distinct rfl).toPasses⟩
  | tail _ hgoes ih =>
    obtain ⟨hbalanced, hpasses⟩ := ih
    obtain ⟨hbalanced', hdeals⟩ := hbalanced.goes hgoes
    exact ⟨hbalanced', hpasses.trans hdeals.toPasses⟩

/-! ## How many have a slot -/

/-- Those of a list that have a slot, by their slots and the tickets that were served. -/
theorem length_filter_slots {α : Type} {l : List α} {has : α → Bool} {slots : α → Nat}
    {tickets : α → List Ticket} {served : Ticket → Bool}
    (h : ∀ a ∈ l, (has a).toNat = slots a + (tickets a).countP served) :
    (l.filter has).length = (l.map slots).sum + (l.flatMap tickets).countP served := by
  induction l with
  | nil => rfl
  | cons a l ih =>
    have hrest := ih fun b hb => h b (List.mem_cons_of_mem _ hb)
    have hmine := h a List.mem_cons_self
    rw [List.map_cons, List.sum_cons, List.flatMap_cons, List.countP_append, List.filter_cons]
    cases hhas : has a with
    | true =>
      rw [hhas] at hmine
      simp only [if_true, List.length_cons, Bool.toNat_true] at hmine ⊢
      omega
    | false =>
      rw [hhas] at hmine
      simp only [Bool.false_eq_true, if_false, Bool.toNat_false] at hmine ⊢
      omega

theorem toNat_hasSlot (l : Limiter) (stage : Stage) :
    (stage.hasSlot l).toNat = stage.slots + stage.tickets.countP (· ∈ l.served) := by
  cases stage with
  | inLine ticket fanOut =>
    by_cases h : ticket ∈ l.served <;> simp [Stage.hasSlot, Stage.slots, Stage.tickets, h]
  | _ => rfl

theorem toNat_hasSlot_strand {p : Pool (List CellReport)} (hf : p.Fair)
    {t : Strand (List CellReport)} (ht : t ∈ p.strands) (l : Limiter) :
    (t.hasSlot l).toNat = t.slots + t.tickets.countP (· ∈ l.served) := by
  cases hholds : t.holds with
  | true =>
    obtain ⟨work, hwork⟩ := hf.holds t ht hholds
    simp [Strand.hasSlot, Strand.slots, Strand.tickets, hholds, hwork]
  | false =>
    cases hprogress : t.progress with
    | inLine ticket work =>
      by_cases h : ticket ∈ l.served <;>
        simp [Strand.hasSlot, Strand.slots, Strand.tickets, hholds, hprogress, h]
    | _ => simp [Strand.hasSlot, Strand.slots, Strand.tickets, hholds, hprogress]

/-- Those who have a slot took one up or have a ticket that was served. -/
theorem length_holding (hfair : ∀ c ∈ s.calls, c.stage.Fair u) :
    s.holding.length = s.held + s.tickets.countP (· ∈ s.limiter.served) := by
  have hbatches : ∀ calls : List Call, (∀ c ∈ calls, c.stage.Fair u) →
      (calls.flatMap fun c => (c.stage.strands.filter (·.hasSlot s.limiter)).map
          (Task.strand c.id ·.id)).length
        = (calls.map (·.stage.slots)).sum
          + (calls.flatMap (·.stage.tickets)).countP (· ∈ s.limiter.served) := by
    intro calls hcalls
    induction calls with
    | nil => rfl
    | cons c calls ih =>
      have hrest := ih fun d hd => hcalls d (List.mem_cons_of_mem _ hd)
      have hmine : (c.stage.strands.filter (·.hasSlot s.limiter)).length
          = c.stage.slots + c.stage.tickets.countP (· ∈ s.limiter.served) := by
        have hfair := hcalls c List.mem_cons_self
        cases hstage : c.stage with
        | judging pool =>
          rw [hstage] at hfair
          exact length_filter_slots fun t ht => toNat_hasSlot_strand hfair.1 ht _
        | _ => rfl
      rw [List.flatMap_cons, List.length_append, List.length_map, hmine, hrest, List.map_cons,
        List.sum_cons, List.flatMap_cons, List.countP_append]
      omega
  have hevaluations := length_filter_slots (l := s.evaluations)
    fun e _ => toNat_hasSlot s.limiter e.stage
  rw [holding, List.length_append, List.length_map, hevaluations, hbatches s.calls hfair,
    State.held, State.tickets, List.countP_append]
  omega

theorem mem_holding :
    task ∈ s.holding ↔
      (∃ e ∈ s.evaluations, e.stage.hasSlot s.limiter = true ∧ .evaluation e.generation = task) ∨
        ∃ c ∈ s.calls, ∃ t ∈ c.stage.strands, t.hasSlot s.limiter = true ∧
          .strand c.id t.id = task := by
  simp [holding, and_assoc]

/-- Who has a slot took one up, or was given one. -/
theorem occupies_or_given (h : task ∈ s.holding) :
    s.Occupies task ∨ ∃ ticket, s.Queued task ticket ∧ ticket ∈ s.limiter.served := by
  rcases mem_holding.mp h with ⟨e, he, hhas, rfl⟩ | ⟨c, hc, t, ht, hhas, rfl⟩
  · cases hstage : e.stage with
    | inLine ticket fanOut =>
      rw [hstage] at hhas
      exact .inr ⟨ticket, .evaluation he (by simp [hstage, Stage.tickets]), of_decide_eq_true hhas⟩
    | running work fanOut => exact .inl (.evaluation he (by simp [hstage, Stage.slots]))
    | _ => simp [hstage, Stage.hasSlot] at hhas
  · cases hstage : c.stage with
    | judging pool =>
      rw [hstage] at ht
      rcases Bool.or_eq_true_iff.mp hhas with hholds | hserved
      · exact .inl (.batch hc hstage ht (by simp [Strand.slots, hholds]))
      · obtain ⟨ticket, hticket, hgiven⟩ := List.any_eq_true.mp hserved
        exact .inr ⟨ticket, .batch hc hstage ht hticket, by simpa using hgiven⟩
    | _ => simp [hstage, CallStage.strands] at ht

theorem holding_of_occupies (h : s.Occupies task) : task ∈ s.holding := by
  rw [mem_holding]
  cases h with
  | @evaluation e he hhas =>
    refine .inl ⟨e, he, ?_, rfl⟩
    cases hstage : e.stage with
    | running => rfl
    | _ => simp [hstage, Stage.slots] at hhas
  | @batch c pool t hc hstage ht hhas =>
    refine .inr ⟨c, hc, t, by rwa [hstage], ?_, rfl⟩
    cases hholds : t.holds with
    | true => simp [Strand.hasSlot, hholds]
    | false => simp [Strand.slots, hholds] at hhas

theorem holding_of_given (h : s.Queued task ticket) (hgiven : ticket ∈ s.limiter.served) :
    task ∈ s.holding := by
  rw [mem_holding]
  cases h with
  | @evaluation e _ he hhas =>
    refine .inl ⟨e, he, ?_, rfl⟩
    cases hstage : e.stage with
    | inLine =>
      rw [hstage] at hhas
      obtain rfl := List.mem_singleton.mp hhas
      simpa [Stage.hasSlot] using hgiven
    | _ => simp [hstage, Stage.tickets] at hhas
  | @batch c pool t _ hc hstage ht hhas =>
    refine .inr ⟨c, hc, t, by rwa [hstage], ?_, rfl⟩
    exact Bool.or_eq_true_iff.mpr
      (.inr (List.any_eq_true.mpr ⟨ticket, hhas, by simpa using hgiven⟩))

/-- Each of them is listed once. -/
theorem Balanced.nodup_holding (h : s.Balanced u) : s.holding.Nodup := by
  have hcalls : s.calls.Pairwise fun c d => c.id ≠ d.id := by
    have hids : (s.calls.map (·.id)).Nodup := h.tidy.ids ▸ List.nodup_range
    exact List.pairwise_map.mp hids
  rw [holding, List.nodup_append]
  refine ⟨?_, List.nodup_flatMap.mpr ⟨fun c hc => ?_, hcalls.imp fun {c d} hne => ?_⟩,
    fun a ha b hb hab => ?_⟩
  · have hsub : ((s.evaluations.filter (·.stage.hasSlot s.limiter)).map (·.generation)).Nodup :=
      h.distinct.nodup.sublist (List.filter_sublist.map _)
    have hnames := hsub.map (f := Task.evaluation) fun _ _ heq => Task.evaluation.inj heq
    rwa [List.map_map] at hnames
  · have hids : (c.stage.strands.map (·.id)).Nodup := by
      have hproper := h.tidy.stages c hc
      cases hstage : c.stage with
      | judging pool =>
        rw [hstage] at hproper
        exact hproper.toNumbered.ids
      | _ => exact .nil
    have hsub : ((c.stage.strands.filter (·.hasSlot s.limiter)).map (·.id)).Nodup :=
      hids.sublist (List.filter_sublist.map _)
    have hnames := hsub.map (f := Task.strand c.id) fun _ _ heq => (Task.strand.inj heq).2
    rwa [List.map_map] at hnames
  · refine List.disjoint_left.mpr fun _ hmem hmem' => ?_
    obtain ⟨t, -, rfl⟩ := List.mem_map.mp hmem
    obtain ⟨t', -, heq⟩ := List.mem_map.mp hmem'
    exact hne (Task.strand.inj heq).1.symm
  · obtain ⟨e, -, rfl⟩ := List.mem_map.mp ha
    obtain ⟨c, -, hb⟩ := List.mem_flatMap.mp hb
    obtain ⟨t, -, rfl⟩ := List.mem_map.mp hb
    cases hab

/-! ## First come, first served -/

/-- The other task has no slot, and no place in line before this ticket. -/
structure Behind (s : State) (ticket : Ticket) (other : Task) : Prop where
  empty : other ∉ s.holding
  later : ∀ otherTicket, s.Queued other otherTicket → [ticket, otherTicket].Sublist s.limiter.line

/-- Who comes later gets no slot as long as the earlier one waits. -/
theorem Balanced.inTurn (h : s.Balanced u) (hwaits : ticket ∈ s.limiter.line)
    (hbehind : s.Behind ticket other) (hrun : Reaches u s s') (hother : other ∈ s'.holding) :
    ticket ∉ s'.limiter.line := by
  have hline := (List.pairwise_append.mp h.inOrder.ascending).2.1
  have hnew : ticket < s.limiter.nextTicket :=
    h.inOrder.below ticket (List.mem_append_right _ hwaits)
  -- as long as the place is kept, the other task has no slot, and places only behind this one
  have hkept : ticket ∈ s'.limiter.line →
      other ∉ s'.holding ∧ ∀ place, s'.Queued other place → ticket < place := by
    clear hother
    induction hrun with
    | refl =>
      refine fun _ => ⟨hbehind.empty, fun place hplace => ?_⟩
      simpa using hline.sublist (hbehind.later place hplace)
    | @tail x y hrun hgoes ih =>
      obtain ⟨hx, hpasses⟩ := h.reaches hrun
      obtain ⟨hy, hdeals⟩ := hx.goes hgoes
      intro hplace
      have hnext : ticket < x.limiter.nextTicket := Nat.lt_of_lt_of_le hnew hpasses.follows.next
      have hbefore : ticket ∈ x.limiter.line :=
        (hdeals.follows.line ticket hplace).resolve_right (Nat.not_le.mpr hnext)
      obtain ⟨hempty, hlater⟩ := ih hbefore
      have hlater' : ∀ place, y.Queued other place → ticket < place := fun place hqueued =>
        (hdeals.queued hqueued).elim (hlater place) (Nat.lt_of_lt_of_le hnext)
      refine ⟨fun hhas => ?_, hlater'⟩
      rcases occupies_or_given hhas with htaken | ⟨place, hqueued, hgiven⟩
      · rcases hdeals.taken htaken with htaken | ⟨place, hqueued, hgiven⟩ | hfree
        · exact hempty (holding_of_occupies htaken)
        · exact hempty (holding_of_given hqueued hgiven)
        · have hfull := hx.accounts.queue (List.ne_nil_of_mem hbefore)
          omega
      · have hfirst := (List.pairwise_append.mp hy.inOrder.ascending).2.2 place hgiven ticket hplace
        exact Nat.lt_asymm hfirst (hlater' place hqueued)
  exact fun hplace => (hkept hplace).1 hother

end State

/-! ## Those who are told to stop -/

end CellRules.Watch

namespace CellRules.Limiter

variable {l l' : Limiter} {ticket : Ticket}

/-- A place in line, or a slot that was given, is given up: the slot goes to the next in line, or is
free if nobody waits. The others keep their places and slots. -/
structure GivesWay (l : Limiter) (ticket : Ticket) (l' : Limiter) : Prop where
  gone : ticket ∉ l'.waiters
  kept : ∀ other ∈ l.waiters, other ≠ ticket → other ∈ l'.waiters
  place : ticket ∉ l.served →
    l'.line = l.line.filter (· != ticket) ∧ l'.served = l.served ∧ l'.free = l.free
  passed : ticket ∈ l.served → ∀ next line, l.line = next :: line →
    l'.line = line ∧ next ∈ l'.served ∧ l'.free = l.free
  freed : ticket ∈ l.served → l.line = [] → l'.line = [] ∧ l'.free = l.free + 1

theorem givesWay_leave (hdistinct : l.waiters.Nodup) (ticket : Ticket) :
    l.GivesWay ticket (l.leave ticket) := by
  by_cases hgiven : ticket ∈ l.served
  · have hleave : l.leave ticket = (l.takeUp ticket).release := if_pos hgiven
    have hperm := (waiters_takeUp hdistinct hgiven).1
    have hothers := (l.takeUp ticket).waiters_release
    rw [hleave]
    refine ⟨fun hmem => ?_, fun other hmem hne => ?_, (absurd hgiven ·), fun _ next line hline => ?_,
      fun _ hline => ?_⟩
    · exact (List.nodup_cons.mp (hperm.nodup_iff.mp hdistinct)).1 (hothers.mem_iff.mp hmem)
    · exact hothers.mem_iff.mpr ((List.mem_cons.mp (hperm.mem_iff.mp hmem)).resolve_left hne)
    · simp [release, takeUp, hline]
    · simp [release, takeUp, hline]
  · have hleave : l.leave ticket = { l with line := l.line.filter (· != ticket) } := if_neg hgiven
    rw [hleave]
    refine ⟨?_, fun other hmem hne => ?_, fun _ => ⟨rfl, rfl, rfl⟩, (absurd · hgiven),
      (absurd · hgiven)⟩
    · simp [waiters, hgiven]
    · simpa [waiters, hne] using hmem

end CellRules.Limiter

namespace CellRules.Watch

variable {u : Setup} {s s' : State} {e : Evaluation} {ticket : Ticket} {fanOut : List String}

theorem State.Distinct.evaluation?_eq (hd : s.Distinct) (he : e ∈ s.evaluations) :
    s.evaluation? e.generation = some e := by
  cases hfind : s.evaluation? e.generation with
  | none => exact absurd (List.find?_eq_none.mp hfind e he) (by simp)
  | some f =>
    rw [List.inj_on_of_nodup_map hd.nodup (mem_of_evaluation? hfind) he
      (generation_of_evaluation? hfind)]

theorem State.moveAll?_steps_succ {task : Task} {n : Nat} {t : State}
    (h : s.move? u (.step task) = some t) (hrun : t.moveAll? u (Task.steps n task) = some s') :
    s.moveAll? u (Task.steps (n + 1) task) = some s' := by
  rw [Task.steps, List.replicate_succ, State.moveAll?, List.foldlM_cons, h]
  exact hrun

namespace Evaluation

/-- One that is told to stop while it waits gives its place up at once. -/
theorem gives_way (h : s.Balanced u) (he : e ∈ s.evaluations) (hstage : e.stage = .inLine ticket fanOut)
    (hstopped : e.stopped s = true) :
    ∃ s', s.step? u (.evaluation e.generation) = some s' ∧
      (∀ f ∈ s'.evaluations, f.generation ≠ e.generation) ∧
      s.limiter.GivesWay ticket s'.limiter := by
  have hstep : s.step? u (.evaluation e.generation)
      = some (e.giveUp u { s with limiter := s.limiter.leave ticket }) := by
    simp [State.step?, h.distinct.evaluation?_eq he, step?, hstage, hstopped]
  have hlimiter : (e.giveUp u { s with limiter := s.limiter.leave ticket }).limiter
      = s.limiter.leave ticket := State.limiter_abandoned u _ _
  refine ⟨_, hstep, fun f hf => ?_, ?_⟩
  · rw [(alike_giveUp u _ e).evaluations] at hf
    exact (State.mem_dropEvaluation.mp hf).2
  · rw [hlimiter]
    exact Limiter.givesWay_leave h.accounts.distinct ticket

/-- One whose stage needs no slot has none. -/
theorem not_holding (h : ∀ f ∈ s.evaluations, f.generation = e.generation →
    f.stage.hasSlot s.limiter = false) : .evaluation e.generation ∉ s.holding := by
  rw [State.mem_holding]
  rintro (⟨f, hf, hhas, heq⟩ | ⟨c, -, t, -, -, heq⟩)
  · rw [h f hf (Task.evaluation.inj heq)] at hhas
    cases hhas
  · cases heq

/-- An evaluation at a stage that needs no slot has none. -/
theorem not_holding_setStage {stage : Stage} (hstage : ∀ l, stage.hasSlot l = false) :
    .evaluation e.generation ∉ (s.setStage e stage).holding := by
  refine not_holding fun f hf hid => ?_
  rw [State.eq_of_setStage rfl hf hid]
  exact hstage _

/-- Work that is told to stop ends after some steps, and its slot is given back. -/
theorem stops_running (h : s.Balanced u) (he : e ∈ s.evaluations) {work : Running Judgement}
    (hstage : e.stage = .running work fanOut) (hstopped : e.stopped s = true) :
    ∃ n s', s.moveAll? u (Task.steps n (.evaluation e.generation)) = some s' ∧
      .evaluation e.generation ∉ s'.holding := by
  induction hsteps : work.steps using Nat.strongRecOn generalizing s e work with
  | ind steps ih =>
    subst hsteps
    have hable : (work.step? s.now true).isSome = true := by
      rw [Running.isSome_step?]
      cases work <;> rfl
    obtain ⟨step, hstep⟩ := Option.isSome_iff_exists.mp hable
    have hfind := h.distinct.evaluation?_eq he
    cases step with
    | goesOn events next =>
      have hmove : s.move? u (.step (.evaluation e.generation))
          = some ((s.write events).setStage e (.running next fanOut)) := by
        simp [State.move?, State.step?, hfind, Evaluation.step?, hstage, hstopped, hstep]
      obtain ⟨n, s', hrun, hempty⟩ := ih next.steps (Running.steps_goesOn hstep)
        (h.goes ⟨_, hmove⟩).1 (State.mem_setStage.mpr (.inr ⟨rfl, e, he, rfl⟩)) rfl hstopped rfl
      exact ⟨n + 1, s', State.moveAll?_steps_succ hmove hrun, hempty⟩
    | ends answer =>
      have hmove : s.move? u (.step (.evaluation e.generation))
          = some (({ s with limiter := s.limiter.release } : State).setStage e
              (.settled answer fanOut)) := by
        simp [State.move?, State.step?, hfind, Evaluation.step?, hstage, hstopped, hstep]
      exact ⟨1, _, State.moveAll?_steps_succ hmove rfl, not_holding_setStage fun _ => rfl⟩

/-- One that is told to stop has no slot after some steps of its own, for which it waits neither for
time nor for others. -/
theorem gives_up (h : s.Balanced u) (he : e ∈ s.evaluations) (hstopped : e.stopped s = true) :
    ∃ n s', s.moveAll? u (Task.steps n (.evaluation e.generation)) = some s' ∧
      .evaluation e.generation ∉ s'.holding := by
  have hempty : (∀ l, e.stage.hasSlot l = false) →
      ∃ n s', s.moveAll? u (Task.steps n (.evaluation e.generation)) = some s' ∧
        .evaluation e.generation ∉ s'.holding := by
    intro hnone
    refine ⟨0, s, rfl, not_holding fun f hf hid => ?_⟩
    rw [List.inj_on_of_nodup_map h.distinct.nodup hf he hid]
    exact hnone _
  cases hstage : e.stage with
  | inLine ticket fanOut =>
    obtain ⟨s', hstep, hgone, -⟩ := gives_way h he hstage hstopped
    exact ⟨1, s', State.moveAll?_steps_succ hstep rfl,
      not_holding fun f hf hid => absurd hid (hgone f hf)⟩
  | running work fanOut => exact stops_running h he hstage hstopped
  | asked | armed | entering | settled | spreading => exact hempty fun _ => by rw [hstage]; rfl

end Evaluation

/-! ## Bounded concurrency -/

namespace State

theorem exists_queued_of_mem (h : ticket ∈ s.tickets) : ∃ task, s.Queued task ticket := by
  rcases List.mem_append.mp h with h | h
  · obtain ⟨e, he, hhas⟩ := List.mem_flatMap.mp h
    exact ⟨_, .evaluation he hhas⟩
  · obtain ⟨c, hc, hhas⟩ := List.mem_flatMap.mp h
    cases hstage : c.stage with
    | judging pool =>
      rw [hstage] at hhas
      obtain ⟨t, ht, hticket⟩ := List.mem_flatMap.mp hhas
      exact ⟨_, .batch hc hstage ht hticket⟩
    | _ => simp [hstage, CallStage.tickets] at hhas

theorem mem_tickets_of_queued {task : Task} (h : s.Queued task ticket) : ticket ∈ s.tickets := by
  cases h with
  | evaluation he hhas =>
    exact List.mem_append_left _ (List.mem_flatMap.mpr ⟨_, he, hhas⟩)
  | @batch c pool t _ hc hstage ht hhas =>
    refine List.mem_append_right _ (List.mem_flatMap.mpr ⟨c, hc, ?_⟩)
    rw [hstage]
    exact List.mem_flatMap.mpr ⟨t, ht, hhas⟩

/-- Where edits are judged in the background and all rows in batches, whoever judges has a slot. -/
theorem Balanced.holding_of_judges (h : s.Balanced u) (hbackground : u.ruleSet.throttle.background = true)
    (hbatched : u.ruleSet.throttle.batched = true) {task : Task} (hjudges : s.Judges task) :
    task ∈ s.holding := by
  have hbatches : u.ruleSet.throttle.usesBatches = true := by
    simp [Throttle.usesBatches, hbackground, hbatched]
  cases hjudges with
  | evaluation he hstage => exact holding_of_occupies (.evaluation he (by simp [hstage, Stage.slots]))
  | @batch c t work hc ht hruns =>
    cases hstage : c.stage with
    | judging pool =>
      have hfair := h.fair c hc
      rw [hstage] at ht hfair
      have hholds : t.holds = true := (hfair.1.runs t ht work hruns).trans (hfair.2.trans hbatches)
      exact holding_of_occupies (.batch hc hstage ht (by simp [Strand.slots, hholds]))
    | _ => simp [hstage, CallStage.strands] at ht
  | edit hc hstage =>
    have hproper := h.tidy.stages _ hc
    rw [hstage] at hproper
    have hatOnce : u.ruleSet.throttle.background = false := hproper.1
    rw [hbackground] at hatOnce
    cases hatOnce

/-- As many slots are in use as are not free, whoever judges has one, and slots go to those who wait
in the order in which they came. -/
structure Bounded (u : Setup) (s : State) : Prop where
  limit : s.limiter.limit = u.ruleSet.throttle.limit
  nodup : s.holding.Nodup
  account : s.limiter.free + s.holding.length = u.ruleSet.throttle.limit
  judges : ∀ task, s.Judges task → task ∈ s.holding
  /-- Nobody waits while a slot is free. -/
  queue : s.limiter.line ≠ [] → s.limiter.free = 0
  /-- The line is that of evaluations and batches, and as long as slots are given out it has all. -/
  owned : ∀ ticket ∈ s.limiter.waiters, ∃ task, s.Queued task ticket
  waiting : s.limiter.closed = false → ∀ task ticket, s.Queued task ticket → ticket ∈ s.limiter.waiters
  inTurn : ∀ ticket ∈ s.limiter.line, ∀ other, s.Behind ticket other →
    ∀ s', Reaches u s s' → other ∈ s'.holding → ticket ∉ s'.limiter.line
  gives_way : ∀ e ∈ s.evaluations, ∀ ticket fanOut, e.stage = .inLine ticket fanOut →
    e.stopped s = true → ∃ s', s.step? u (.evaluation e.generation) = some s' ∧
      (∀ f ∈ s'.evaluations, f.generation ≠ e.generation) ∧
      s.limiter.GivesWay ticket s'.limiter
  gives_up : ∀ e ∈ s.evaluations, e.stopped s = true →
    ∃ n s', s.moveAll? u (Task.steps n (.evaluation e.generation)) = some s' ∧
      .evaluation e.generation ∉ s'.holding

end State

/-- Concurrency is bounded, and no slot is lost. -/
theorem slots_bounded {grid : Grid} (hbackground : u.ruleSet.throttle.background = true)
    (hbatched : u.ruleSet.throttle.batched = true)
    (h : State.Reaches u (.start u grid) s) : s.Bounded u := by
  have hs : s.Balanced u := ((State.Balanced.start u grid).reaches h).1
  exact
    { limit := hs.limit
      nodup := hs.nodup_holding
      account := by
        have hlength := State.length_holding hs.fair
        have haccount := hs.accounts.account
        rw [hs.accounts.countP_served] at hlength
        omega
      judges := fun _ => hs.holding_of_judges hbackground hbatched
      queue := hs.accounts.queue
      owned := fun ticket hticket => State.exists_queued_of_mem (hs.accounts.known ticket hticket)
      waiting := fun hopen _ _ hqueued =>
        hs.accounts.waiting hopen _ (State.mem_tickets_of_queued hqueued)
      inTurn := fun ticket hticket other hbehind s' hrun => hs.inTurn hticket hbehind hrun
      gives_way := fun e he ticket fanOut => Evaluation.gives_way hs he
      gives_up := fun e => Evaluation.gives_up hs }

/-- There is one slot, and evaluations that are superseded are told to stop. -/
def narrowWatch : Setup where
  ruleSet :=
    { name := "items"
      rules := [slowRule]
      throttle :=
        { Throttle.interactive with debounce := 10, limit := 1, cancelSuperseded := true } }
  view := Grid.source

def twoCells : Grid := ⟨["Code"], [[.text "a"], [.text "b"]]⟩

/-- Row 0 is looked into, row 1 and then all rows wait in line, and row 1 is edited again before the
slot comes free: it is given to an evaluation that was told to stop. -/
def crowd : List Move :=
  List.flatten
    [[.edit 0 "Code"], Task.steps 2 (.call 0), Task.steps 1 (.evaluation 0), [.edit 1 "Code"],
      Task.steps 2 (.call 1), Task.steps 1 (.evaluation 1), [.pass 10],
      Task.steps 4 (.evaluation 0), Task.steps 2 (.evaluation 1), [.validateAll],
      Task.steps 3 (.call 2), Task.steps 1 (.strand 2 0), [.edit 1 "Code"],
      Task.steps 1 (.call 3), [.pass 1000], Task.steps 4 (.evaluation 0)]

theorem slots_bounded_crowd :
    ∃ s, (State.start narrowWatch twoCells).moveAll? narrowWatch crowd = some s ∧
      s.holding = [.evaluation 1] ∧ s.limiter.line = [1] ∧ s.Bounded narrowWatch := by
  have hlook : ((State.start narrowWatch twoCells).moveAll? narrowWatch crowd).map
      (fun s => (s.holding, s.limiter.line)) = some ([.evaluation 1], [1]) := by
    decide +kernel
  obtain ⟨s, hs, heq⟩ := Option.map_eq_some_iff.mp hlook
  obtain ⟨hholding, hline⟩ := Prod.mk.inj heq
  exact ⟨s, hs, hholding, hline, slots_bounded rfl rfl (State.Reaches.of_moveAll? hs)⟩

end CellRules.Watch
