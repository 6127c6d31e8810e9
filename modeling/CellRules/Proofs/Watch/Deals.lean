/-
CellRules.Proofs.Watch.Deals — evaluations and batches share the slots of a watch.

Evaluations and the batches of all runs over all rows deal with one limiter. `State.tickets` and
`State.held` are the tickets of all who wait and the slots that are taken up. Whatever happens to
a watch, open or closed, is a trade of one of them with the limiter, the end of a pool, or nothing
that concerns slots (`Deals`): the account of the slots is kept, the line stays in order, and nobody
gets another ticket. That holds too of one who is told to stop and still takes a slot at hand.
-/
import CellRules.Proofs.Run.Account
import CellRules.Proofs.Watch.Apart
import CellRules.Proofs.Watch.Standing

namespace CellRules.Watch

variable {u : Setup} {s s' t : State} {e : Evaluation} {c : Call} {m : Move}

/-! ## Who has tickets and slots -/

/-- The ticket of an evaluation in line. -/
def Stage.tickets : Stage → List Ticket
  | .inLine ticket _ => [ticket]
  | _ => []

/-- The slot of an evaluation that judges its cell. -/
def Stage.slots : Stage → Nat
  | .running _ _ => 1
  | _ => 0

/-- The tickets of the batches of a call that are in line. -/
def CallStage.tickets : CallStage → List Ticket
  | .judging pool => pool.tickets
  | _ => []

/-- The slots of the batches of a call. -/
def CallStage.slots : CallStage → Nat
  | .judging pool => pool.held
  | _ => 0

namespace State

/-- The tickets of all who wait. -/
def tickets (s : State) : List Ticket :=
  s.evaluations.flatMap (·.stage.tickets) ++ s.calls.flatMap (·.stage.tickets)

/-- The slots that are taken up. -/
def held (s : State) : Nat :=
  (s.evaluations.map (·.stage.slots)).sum + (s.calls.map (·.stage.slots)).sum

/-- The task waits for a slot with this ticket, or was given one that it has not taken up. -/
inductive Queued (s : State) : Task → Ticket → Prop
  | evaluation {e : Evaluation} {ticket : Ticket} (mem : e ∈ s.evaluations)
      (has : ticket ∈ e.stage.tickets) : Queued s (.evaluation e.generation) ticket
  | batch {c : Call} {pool : Pool (List CellReport)} {t : Strand (List CellReport)}
      {ticket : Ticket} (mem : c ∈ s.calls) (stage : c.stage = .judging pool)
      (strand : t ∈ pool.strands) (has : ticket ∈ t.tickets) : Queued s (.strand c.id t.id) ticket

/-- The task has taken up a slot. -/
inductive Occupies (s : State) : Task → Prop
  | evaluation {e : Evaluation} (mem : e ∈ s.evaluations) (has : e.stage.slots ≠ 0) :
      Occupies s (.evaluation e.generation)
  | batch {c : Call} {pool : Pool (List CellReport)} {t : Strand (List CellReport)}
      (mem : c ∈ s.calls) (stage : c.stage = .judging pool) (strand : t ∈ pool.strands)
      (has : t.slots ≠ 0) : Occupies s (.strand c.id t.id)

/-- Evaluations are known by their generations, and new ones get new generations. -/
structure Distinct (s : State) : Prop where
  nodup : (s.evaluations.map (·.generation)).Nodup
  below : ∀ e ∈ s.evaluations, e.generation < s.nextGeneration

/-- What becomes of the slots and of those who wait for them. -/
structure Passes (s s' : State) : Prop where
  distinct : s'.Distinct
  follows : s.limiter.Follows s'.limiter
  accounts : ∀ {limit : Nat}, s.limiter.Accounts limit s.tickets s.held →
    s'.limiter.Accounts limit s'.tickets s'.held
  /-- Who waits, waited before with this ticket, or has come. -/
  queued : ∀ {task : Task} {ticket : Ticket}, s'.Queued task ticket →
    s.Queued task ticket ∨ s.limiter.nextTicket ≤ ticket

/-- What one step does to the slots and to those who wait for them. -/
structure Deals (s s' : State) : Prop extends Passes s s' where
  /-- Who has taken up a slot, had it, was given it, or found it free. -/
  taken : ∀ {task : Task}, s'.Occupies task →
    s.Occupies task ∨ (∃ ticket, s.Queued task ticket ∧ ticket ∈ s.limiter.served) ∨
      0 < s.limiter.free

theorem Passes.trans (h : s.Passes t) (h' : t.Passes s') : s.Passes s' where
  distinct := h'.distinct
  follows := h.follows.trans h'.follows
  accounts haccounts := h'.accounts (h.accounts haccounts)
  queued hqueued := (h'.queued hqueued).elim h.queued
    fun hnew => .inr (Nat.le_trans h.follows.next hnew)

/-- Nobody trades: who waits and who has a slot is as before. -/
structure Rests (s s' : State) : Prop where
  distinct : s'.Distinct
  limiter : s'.limiter = s.limiter
  tickets : s'.tickets = s.tickets
  held : s'.held = s.held
  queued : ∀ {task : Task} {ticket : Ticket}, s'.Queued task ticket → s.Queued task ticket
  occupies : ∀ {task : Task}, s'.Occupies task → s.Occupies task

namespace Rests

theorem deals (h : s.Rests s') : s.Deals s' where
  distinct := h.distinct
  follows := h.limiter ▸ .refl s.limiter
  accounts haccounts := by
    rw [h.limiter, h.tickets, h.held]
    exact haccounts
  queued hqueued := .inl (h.queued hqueued)
  taken htaken := .inl (h.occupies htaken)

/-- Nobody trades at first. -/
theorem trans (h : s.Rests t) (h' : t.Deals s') : s.Deals s' where
  toPasses := h.deals.toPasses.trans h'.toPasses
  taken htaken := by
    rw [← h.limiter]
    rcases h'.taken htaken with htaken | ⟨ticket, hqueued, hgiven⟩ | hfree
    · exact .inl (h.occupies htaken)
    · exact .inr (.inl ⟨ticket, h.queued hqueued, hgiven⟩)
    · exact .inr (.inr hfree)

end Rests

/-! ## States with the same evaluations and calls -/

/-- Two states with the same evaluations and calls. -/
structure Same (s t : State) : Prop where
  evaluations : s.evaluations = t.evaluations
  calls : s.calls = t.calls
  nextGeneration : s.nextGeneration = t.nextGeneration

theorem Same.refl (s : State) : s.Same s := ⟨rfl, rfl, rfl⟩

theorem Same.trans (h : s.Same t) (h' : t.Same s') : s.Same s' :=
  ⟨h.evaluations.trans h'.evaluations, h.calls.trans h'.calls,
    h.nextGeneration.trans h'.nextGeneration⟩

theorem Alike.same (h : s.Alike t) : s.Same t := ⟨h.evaluations, h.calls, h.nextGeneration⟩

theorem Same.tickets (h : s.Same t) : s.tickets = t.tickets := by
  rw [State.tickets, State.tickets, h.evaluations, h.calls]

theorem Same.held (h : s.Same t) : s.held = t.held := by
  rw [State.held, State.held, h.evaluations, h.calls]

theorem Same.queued (h : s.Same t) {task : Task} {ticket : Ticket} (hqueued : s.Queued task ticket) :
    t.Queued task ticket := by
  cases hqueued with
  | evaluation hmem hhas => exact .evaluation (h.evaluations ▸ hmem) hhas
  | batch hmem hstage hstrand hhas => exact .batch (h.calls ▸ hmem) hstage hstrand hhas

theorem Same.occupies (h : s.Same t) {task : Task} (htaken : s.Occupies task) :
    t.Occupies task := by
  cases htaken with
  | evaluation hmem hhas => exact .evaluation (h.evaluations ▸ hmem) hhas
  | batch hmem hstage hstrand hhas => exact .batch (h.calls ▸ hmem) hstage hstrand hhas

theorem Distinct.same (hd : s.Distinct) (h : s'.Same s) : s'.Distinct where
  nodup := h.evaluations ▸ hd.nodup
  below e he := by
    rw [h.nextGeneration]
    exact hd.below e (h.evaluations ▸ he)

/-- Who has tickets and slots is left alone. -/
theorem Same.deals (h : s'.Same s) (hd : s.Distinct) (hlimiter : s'.limiter = s.limiter) :
    s.Deals s' :=
  Rests.deals ⟨hd.same h, hlimiter, h.tickets, h.held, h.queued, h.occupies⟩

@[simp]
theorem limiter_note (u : Setup) (s : State) (event : Event) :
    (s.note u event).limiter = s.limiter := by
  unfold note
  split <;> rfl

@[simp]
theorem limiter_abandoned (u : Setup) (s : State) (key : CellKey) :
    (s.abandoned u key).limiter = s.limiter :=
  limiter_note u _ _

@[simp]
theorem limiter_notePeers (u : Setup) (s : State) (key : CellKey) (edited : List String)
    (rows : Dataset) : (s.notePeers u key edited rows).limiter = s.limiter := by
  unfold notePeers
  dsimp only
  split
  · rfl
  · exact limiter_note u s _

theorem limiter_supersede (u : Setup) (s : State) (key : CellKey) (previous : Option Request) :
    (s.supersede u key previous).limiter = s.limiter := by
  unfold supersede
  split
  · exact limiter_note u s _
  · split
    · exact limiter_note u _ _
    · split <;> exact limiter_note u _ _

@[simp]
theorem limiter_schedule (u : Setup) (s : State) (key : CellKey) (fanOut : List String) :
    (s.schedule u key fanOut).limiter = s.limiter := by
  unfold schedule
  split
  · rfl
  · exact limiter_supersede u _ _ _

/-! ## Evaluations trade -/

/-- An evaluation goes on or leaves. -/
theorem Distinct.deals (hd : s.Distinct) (he : e ∈ s.evaluations) (after : List Evaluation)
    (hafter : s'.evaluations.Perm (after ++ s.evaluations.filter (·.generation != e.generation)))
    (hsame : (after.map (·.generation)).Sublist [e.generation]) (hcalls : s'.calls = s.calls)
    (hnext : s'.nextGeneration = s.nextGeneration)
    (htrade : s.limiter.Trade e.stage.tickets e.stage.slots s'.limiter
      (after.flatMap (·.stage.tickets)) (after.map (·.stage.slots)).sum) : s.Deals s' := by
  have hbefore := perm_cons_filter hd.nodup he
  have hgeneration : ∀ f ∈ after, f.generation = e.generation := fun f hf =>
    List.mem_singleton.mp (hsame.subset (List.mem_map.mpr ⟨f, hf, rfl⟩))
  refine ⟨⟨⟨?_, fun f hf => ?_⟩, htrade.follows, fun {limit} haccounts => ?_,
    fun hqueued => ?_⟩, fun htaken => ?_⟩
  · have hsub : ((after ++ s.evaluations.filter (·.generation != e.generation)).map
        (·.generation)).Sublist
        ((e :: s.evaluations.filter (·.generation != e.generation)).map (·.generation)) := by
      rw [List.map_append, List.map_cons]
      exact hsame.append_right _
    exact (hafter.map _).nodup_iff.mpr (((hbefore.map _).nodup_iff.mp hd.nodup).sublist hsub)
  · rw [hnext]
    rcases List.mem_append.mp (hafter.mem_iff.mp hf) with hf | hf
    · rw [hgeneration f hf]
      exact hd.below e he
    · exact hd.below f (List.mem_filter.mp hf).1
  · have hmine := hbefore.flatMap_right (·.stage.tickets)
    have hheld := (hbefore.map (·.stage.slots)).sum_nat
    have hmine' := hafter.flatMap_right (·.stage.tickets)
    have hheld' := (hafter.map (·.stage.slots)).sum_nat
    rw [List.flatMap_cons] at hmine
    rw [List.map_cons, List.sum_cons] at hheld
    rw [List.flatMap_append] at hmine'
    rw [List.map_append, List.sum_append] at hheld'
    rw [State.tickets, State.held, hheld, Nat.add_assoc] at haccounts
    rw [State.tickets, State.held, hcalls, hheld', Nat.add_assoc]
    have htraded := haccounts.perm (hmine.append_right _)
    rw [List.append_assoc] at htraded
    refine (htrade.accounts htraded).perm ?_
    rw [← List.append_assoc]
    exact (hmine'.append_right _).symm
  · cases hqueued with
    | @evaluation f _ hf hhas =>
      rcases List.mem_append.mp (hafter.mem_iff.mp hf) with hf | hf
      · rw [hgeneration f hf]
        exact (htrade.tickets _ (List.mem_flatMap.mpr ⟨f, hf, hhas⟩)).imp_left (.evaluation he)
      · exact .inl (.evaluation (List.mem_filter.mp hf).1 hhas)
    | batch hmem hstage hstrand hhas => exact .inl (.batch (hcalls ▸ hmem) hstage hstrand hhas)
  · cases htaken with
    | @evaluation f hf hhas =>
      rcases List.mem_append.mp (hafter.mem_iff.mp hf) with hf | hf
      · rw [hgeneration f hf]
        have hslots : (after.map (·.stage.slots)).sum ≠ 0 := fun hzero =>
          hhas (List.sum_eq_zero_iff_forall_eq_nat.mp hzero _ (List.mem_map.mpr ⟨f, hf, rfl⟩))
        rcases htrade.taken hslots with hmine | ⟨ticket, hticket, hgiven⟩ | hfree
        · exact .inl (.evaluation he hmine)
        · exact .inr (.inl ⟨ticket, .evaluation he hticket, hgiven⟩)
        · exact .inr (.inr hfree)
      · exact .inl (.evaluation (List.mem_filter.mp hf).1 hhas)
    | batch hmem hstage hstrand hhas => exact .inl (.batch (hcalls ▸ hmem) hstage hstrand hhas)

/-- An evaluation goes on. -/
theorem Distinct.goesTo (hd : s.Distinct) (he : e ∈ s.evaluations) (ht : t.Same s)
    {next : Evaluation} (hid : next.generation = e.generation)
    (htrade : s.limiter.Trade e.stage.tickets e.stage.slots t.limiter
      next.stage.tickets next.stage.slots) : s.Deals (t.setEvaluation next) := by
  refine hd.deals he [next] ?_ ?_ ht.calls ht.nextGeneration ?_
  · have hperm := perm_cons_replace hd.nodup he next
    rw [← hid, ← ht.evaluations] at hperm
    rw [← hid, ← ht.evaluations]
    exact hperm
  · simp [hid]
  · simpa [setEvaluation] using htrade

/-- An evaluation leaves. -/
theorem Distinct.leaves (hd : s.Distinct) (he : e ∈ s.evaluations)
    (hs : s'.Same (s.dropEvaluation e))
    (htrade : s.limiter.Trade e.stage.tickets e.stage.slots s'.limiter [] 0) : s.Deals s' :=
  hd.deals he [] (hs.evaluations ▸ .refl _) (List.nil_sublist _) hs.calls
    hs.nextGeneration htrade

/-- Asking for an evaluation leaves the others at their stages. -/
theorem kept_schedule (he : e ∈ s.evaluations) (key : CellKey) (fanOut : List String) :
    ∃ f ∈ (s.schedule u key fanOut).evaluations,
      f.generation = e.generation ∧ f.stage = e.stage := by
  cases hopen : s.closed with
  | true =>
    rw [State.schedule, if_pos hopen]
    exact ⟨e, he, rfl, rfl⟩
  | false =>
    rw [(schedule_alike hopen key fanOut).evaluations]
    exact ⟨s.superseded u key e, List.mem_append_left _ (List.mem_map.mpr ⟨e, he, rfl⟩),
      generation_superseded e, stage_superseded e⟩

/-- Asking for an evaluation concerns no slots. -/
theorem Distinct.schedule (hd : s.Distinct) (key : CellKey) (fanOut : List String) :
    s.Rests (s.schedule u key fanOut) := by
  cases hopen : s.closed with
  | true =>
    rw [State.schedule, if_pos hopen]
    exact ⟨hd, rfl, rfl, rfl, id, id⟩
  | false =>
    have hsame := (schedule_alike (u := u) hopen key fanOut).same
    have hdistinct : (s.asking u key fanOut).Distinct := by
      have hids : (s.asking u key fanOut).evaluations.map (·.generation)
          = s.evaluations.map (·.generation) ++ [s.nextGeneration] := by
        simp [asking, Function.comp_def, generation_superseded]
      refine ⟨?_, fun f hf => ?_⟩
      · rw [hids, List.nodup_append]
        refine ⟨hd.nodup, List.nodup_singleton _, fun id hid other hother heq => ?_⟩
        obtain ⟨f, hf, rfl⟩ := List.mem_map.mp hid
        have hlt := hd.below f hf
        rw [heq, List.mem_singleton.mp hother] at hlt
        exact Nat.lt_irrefl _ hlt
      · have hmem : f.generation ∈ (s.asking u key fanOut).evaluations.map (·.generation) :=
          List.mem_map.mpr ⟨f, hf, rfl⟩
        rw [hids] at hmem
        rcases List.mem_append.mp hmem with hmem | hmem
        · obtain ⟨d, hdmem, heq⟩ := List.mem_map.mp hmem
          rw [← heq]
          exact Nat.lt_succ_of_lt (hd.below d hdmem)
        · rw [List.mem_singleton.mp hmem]
          exact Nat.lt_succ_self _
    refine ⟨hdistinct.same hsame, limiter_schedule u s key fanOut, ?_, ?_, fun hqueued => ?_,
      fun htaken => ?_⟩
    · rw [hsame.tickets]
      simp [State.tickets, asking, List.flatMap_map, stage_superseded, Stage.tickets]
    · rw [hsame.held]
      simp [State.held, asking, Function.comp_def, stage_superseded, Stage.slots]
    · cases hsame.queued hqueued with
      | evaluation hf hhas =>
        rcases List.mem_append.mp hf with hf | hf
        · obtain ⟨f, hmem, rfl⟩ := List.mem_map.mp hf
          rw [stage_superseded] at hhas
          rw [generation_superseded]
          exact .evaluation hmem hhas
        · obtain rfl := List.mem_singleton.mp hf
          cases hhas
      | batch hmem hstage hstrand hhas => exact .batch hmem hstage hstrand hhas
    · cases hsame.occupies htaken with
      | evaluation hf hhas =>
        rcases List.mem_append.mp hf with hf | hf
        · obtain ⟨f, hmem, rfl⟩ := List.mem_map.mp hf
          rw [stage_superseded] at hhas
          rw [generation_superseded]
          exact .evaluation hmem hhas
        · obtain rfl := List.mem_singleton.mp hf
          exact absurd rfl hhas
      | batch hmem hstage hstrand hhas => exact .batch hmem hstage hstrand hhas

end State

namespace Evaluation

/-- Whoever gets a slot took a free one or one that it was given. -/
theorem GetsSlot.trade {fanOut : List String} {l : Limiter} (h : e.GetsSlot s fanOut l) :
    s.limiter.Trade e.stage.tickets e.stage.slots l [] 1 := by
  cases h with
  | free hstage hjoin => exact hstage ▸ Limiter.trade_join_slot hjoin
  | given hstage hslot => exact hstage ▸ Limiter.trade_attempt hslot

theorem LeavesLine.trade {fanOut : List String} {l : Limiter} (h : e.LeavesLine s fanOut l) :
    s.limiter.Trade e.stage.tickets e.stage.slots l [] 0 := by
  cases h with
  | entering hstage =>
    rw [hstage]
    exact .rests [] 0
  | inLine hstage =>
    rw [hstage]
    exact .leaves _

/-- Whatever an evaluation does, it trades with the limiter or concerns no slots. -/
theorem Advance.deals (hd : s.Distinct) (he : e ∈ s.evaluations) (h : e.Advance u s s') :
    s.Deals s' := by
  have hquiet : ∀ {stage : Stage}, e.stage = stage → stage.tickets = [] → stage.slots = 0 →
      s.limiter.Trade e.stage.tickets e.stage.slots s.limiter [] 0 := by
    rintro stage rfl htickets hslots
    rw [htickets, hslots]
    exact .rests [] 0
  cases h with
  | arm hstage => exact hd.goesTo he (.refl s) rfl (hquiet hstage rfl rfl)
  | discard hstage =>
    refine hd.leaves he (.refl _) ?_
    rcases hstage with hstage | ⟨due, hstage⟩ <;> exact hquiet hstage rfl rfl
  | @begin _ _ ledger hstage =>
    exact hd.goesTo he (t := { s with ledger }) ⟨rfl, rfl, rfl⟩ rfl (hquiet hstage rfl rfl)
  | @queue _ _ limiter hstage hjoin =>
    exact hd.goesTo he (t := { s with limiter }) ⟨rfl, rfl, rfl⟩ rfl
      (hstage ▸ Limiter.trade_join_waiting hjoin)
  | @start _ limiter hgets =>
    exact hd.goesTo he (t := { s with limiter }) ⟨rfl, rfl, rfl⟩ rfl hgets.trade
  | @giveUp _ limiter hleaves =>
    have hgone := (alike_giveUp u { s with limiter } e).same
    have hlimiter : (e.giveUp u { s with limiter }).limiter = limiter :=
      State.limiter_abandoned u _ _
    refine hd.leaves he (hgone.trans ⟨rfl, rfl, rfl⟩) ?_
    rw [hlimiter]
    exact hleaves.trade
  | work hstage =>
    refine hd.goesTo he (s.alike_write _).same rfl ?_
    rw [hstage]
    exact .rests [] 1
  | stop hstage =>
    refine hd.goesTo he (t := { s with limiter := s.limiter.release }) ⟨rfl, rfl, rfl⟩ rfl ?_
    rw [hstage]
    exact .gives
  | @report report rows fanOut ledger hstage =>
    refine hd.goesTo he ((State.alike_notePeers u (({ s with ledger } : State).deliver u report) e.key
      fanOut rows).same.trans ⟨rfl, rfl, rfl⟩) rfl ?_
    rw [State.limiter_notePeers]
    exact hquiet hstage rfl rfl
  | outdated hstage =>
    refine hd.goesTo he ((State.alike_note u _ _).same.trans (s.alike_count _).same) rfl ?_
    rw [State.limiter_note]
    exact hquiet hstage rfl rfl
  | abandon hstage =>
    refine hd.goesTo he (s.alike_abandoned u e.key).same rfl ?_
    rw [State.limiter_abandoned]
    exact hquiet hstage rfl rfl
  | fail hstage =>
    exact hd.goesTo he (s.alike_failed u e.key _).same rfl (hquiet hstage rfl rfl)
  | @ask key _ hstage =>
    have hasked := hd.schedule (u := u) key []
    obtain ⟨f, hf, hid, hkept⟩ := State.kept_schedule (u := u) he key []
    refine hasked.trans (hasked.distinct.goesTo hf (.refl _) hid.symm ?_)
    rw [hkept, hstage]
    exact .rests [] 0
  | finish hstage => exact hd.leaves he ⟨rfl, rfl, rfl⟩ (hquiet hstage rfl rfl)

end Evaluation

/-! ## Calls trade -/

/-- Batches use slots where the setup says so, and only batches that run have one. -/
def CallStage.Fair (u : Setup) : CallStage → Prop
  | .judging pool => pool.Fair ∧ pool.usesSlots = u.ruleSet.throttle.usesBatches
  | _ => True

namespace State

/-- A call goes on, and its batches trade with the limiter. -/
theorem Distinct.call (hd : s.Distinct) (hids : s.Numbered) (hc : c ∈ s.calls) {stage : CallStage}
    (hcalls : s'.calls = (Call.goTo s c stage).calls) (hevaluations : s'.evaluations = s.evaluations)
    (hnext : s'.nextGeneration = s.nextGeneration) (hfollows : s.limiter.Follows s'.limiter)
    (haccounts : ∀ {limit : Nat} {others : List Ticket} {taken : Nat},
      s.limiter.Accounts limit (c.stage.tickets ++ others) (c.stage.slots + taken) →
        s'.limiter.Accounts limit (stage.tickets ++ others) (stage.slots + taken))
    (hqueued : ∀ pool', stage = .judging pool' → ∀ t' ∈ pool'.strands, ∀ ticket ∈ t'.tickets,
      (∃ pool, c.stage = .judging pool ∧ ∃ t ∈ pool.strands, t.id = t'.id ∧ ticket ∈ t.tickets) ∨
        s.limiter.nextTicket ≤ ticket)
    (htaken : ∀ pool', stage = .judging pool' → ∀ t' ∈ pool'.strands, t'.slots ≠ 0 →
      (∃ pool, c.stage = .judging pool ∧ ∃ t ∈ pool.strands, t.id = t'.id ∧
        (t.slots ≠ 0 ∨ ∃ ticket ∈ t.tickets, ticket ∈ s.limiter.served)) ∨ 0 < s.limiter.free) :
    s.Deals s' := by
  have hnodup : (s.calls.map (·.id)).Nodup := hids ▸ List.nodup_range
  have hbefore := perm_cons_filter hnodup hc
  have hafter : (Call.goTo s c stage).calls.Perm
      ({ c with stage } :: s.calls.filter (·.id != c.id)) :=
    perm_cons_replace hnodup hc { c with stage }
  refine ⟨⟨⟨hevaluations ▸ hd.nodup, fun f hf => ?_⟩, hfollows, fun {limit} htotal => ?_,
    fun {task ticket} h => ?_⟩, fun {task} h => ?_⟩
  · rw [hnext]
    exact hd.below f (hevaluations ▸ hf)
  · have hmine := (hbefore.flatMap_right (·.stage.tickets)).append_left
      (s.evaluations.flatMap (·.stage.tickets))
    have hheld := (hbefore.map (·.stage.slots)).sum_nat
    have hmine' := (hafter.flatMap_right (·.stage.tickets)).append_left
      (s.evaluations.flatMap (·.stage.tickets))
    have hheld' := (hafter.map (·.stage.slots)).sum_nat
    rw [List.flatMap_cons] at hmine hmine'
    rw [List.map_cons, List.sum_cons] at hheld hheld'
    have htraded := htotal.perm (hmine.trans (List.perm_append_comm_assoc _ _ _))
    rw [State.held, hheld, Nat.add_left_comm] at htraded
    rw [State.tickets, State.held, hevaluations, hcalls, hheld', Nat.add_left_comm]
    exact (haccounts htraded).perm (hmine'.trans (List.perm_append_comm_assoc _ _ _)).symm
  · cases h with
    | evaluation hmem hhas => exact .inl (.evaluation (hevaluations ▸ hmem) hhas)
    | batch hmem hstage hstrand hhas =>
      rw [hcalls] at hmem
      rcases mem_goTo.mp hmem with ⟨hmem, -⟩ | ⟨rfl, -⟩
      · exact .inl (.batch hmem hstage hstrand hhas)
      · refine (hqueued _ hstage _ hstrand ticket hhas).imp_left ?_
        rintro ⟨pool, hpool, t, ht, hid, hticket⟩
        rw [← hid]
        change s.Queued (.strand c.id t.id) ticket
        exact .batch hc hpool ht hticket
  · cases h with
    | evaluation hmem hhas => exact .inl (.evaluation (hevaluations ▸ hmem) hhas)
    | batch hmem hstage hstrand hhas =>
      rw [hcalls] at hmem
      rcases mem_goTo.mp hmem with ⟨hmem, -⟩ | ⟨rfl, -⟩
      · exact .inl (.batch hmem hstage hstrand hhas)
      · rcases htaken _ hstage _ hstrand hhas with ⟨pool, hpool, t, ht, hid, hmine⟩ | hfree
        · rw [← hid]
          rcases hmine with hslots | ⟨ticket, hticket, hgiven⟩
          · exact .inl (.batch (c := c) hc hpool ht hslots)
          · exact .inr (.inl ⟨ticket, .batch (c := c) hc hpool ht hticket, hgiven⟩)
        · exact .inr (.inr hfree)

/-- A call goes on that has no batches, neither before nor after. -/
theorem Distinct.quietCall (hd : s.Distinct) (hids : s.Numbered) (hc : c ∈ s.calls)
    {stage : CallStage} (hcalls : s'.calls = (Call.goTo s c stage).calls)
    (hevaluations : s'.evaluations = s.evaluations) (hnext : s'.nextGeneration = s.nextGeneration)
    (hlimiter : s'.limiter = s.limiter) (hbefore : c.stage.tickets = [] ∧ c.stage.slots = 0)
    (hafter : stage.tickets = [] ∧ stage.slots = 0) : s.Deals s' := by
  refine hd.call hids hc hcalls hevaluations hnext (hlimiter ▸ .refl _) (fun haccounts => ?_)
    (fun pool hpool t ht ticket hticket => ?_) fun pool hpool t ht hslots => ?_
  · rw [hlimiter, hafter.1, hafter.2, ← hbefore.1, ← hbefore.2]
    exact haccounts
  · obtain rfl := hpool
    have hmem : ticket ∈ pool.tickets := List.mem_flatMap.mpr ⟨t, ht, hticket⟩
    have hnone : pool.tickets = [] := hafter.1
    rw [hnone] at hmem
    cases hmem
  · obtain rfl := hpool
    have hnone : pool.held = 0 := hafter.2
    exact absurd (List.sum_eq_zero_iff_forall_eq_nat.mp hnone _
      (List.mem_map.mpr ⟨t, ht, rfl⟩)) hslots

end State

namespace Call

/-- A pool that has ended has no strand. -/
theorem strands_of_ended {pool : Pool (List CellReport)} (hf : pool.Fair)
    (h : pool.result? ≠ none) : pool.strands = [] := by
  cases hproblem : pool.problem with
  | some problem => exact hf.broken (by simp [hproblem])
  | none =>
    by_contra hstrands
    simp [Pool.result?, hproblem, hstrands] at h

theorem slots_of_ended {pool : Pool (List CellReport)} (hf : pool.Fair) (h : pool.result? ≠ none) :
    pool.tickets = [] ∧ pool.held = 0 := by
  simp [Pool.tickets, Pool.held, strands_of_ended hf h]

/-- The strands of a pool trade with the limiter. -/
theorem deals_strand (hd : s.Distinct) (hids : s.Numbered) (hc : c ∈ s.calls)
    {pool pool' : Pool (List CellReport)} (hstage : c.stage = .judging pool) {limiter : Limiter}
    (hdeals : pool.Deals s.limiter pool' limiter) (events : List Event) :
    s.Deals (goTo ({ s with limiter }.write events) c (.judging pool')) := by
  refine hd.call hids hc rfl rfl rfl hdeals.follows (fun haccounts => ?_) (fun next hnext => ?_)
    fun next hnext => ?_
  · rw [hstage] at haccounts
    exact hdeals.accounts haccounts
  · cases hnext
    exact fun t' ht' ticket hticket => (hdeals.tickets t' ht' ticket hticket).imp_left
      fun h => ⟨pool, hstage, h⟩
  · cases hnext
    exact fun t' ht' hslots => (hdeals.taken t' ht' hslots).imp_left fun h => ⟨pool, hstage, h⟩

/-- A call trades with the limiter by the strands of its pool; at the beginning and at the end of a
pool there are none. -/
theorem Advance.deals (hd : s.Distinct) (hids : s.Numbered) (hc : c ∈ s.calls)
    (hproper : c.stage.Proper u) (hfair : c.stage.Fair u) (h : c.Advance u s s') : s.Deals s' := by
  have hquiet : ∀ {t : State} {before after : CallStage}, t.Same s → t.limiter = s.limiter →
      c.stage = before → before.tickets = [] ∧ before.slots = 0 →
      after.tickets = [] ∧ after.slots = 0 → s.Deals (goTo t c after) := by
    rintro t _ after ht hlimiter rfl hbefore hafter
    exact hd.quietCall hids hc (by rw [goTo, goTo, ht.calls]) ht.evaluations ht.nextGeneration
      hlimiter hbefore hafter
  cases h with
  | told hstage | take _ hstage | work hstage | report hstage | fail hstage | survey hstage
  | look hstage | deliver hstage | conclude hstage =>
    exact hquiet ⟨rfl, rfl, rfl⟩ rfl hstage ⟨rfl, rfl⟩ ⟨rfl, rfl⟩
  | @ask edited job _ _ hstage =>
    have hasked := hd.schedule (u := u) job.key [edited]
    have hcalls := (Evaluation.apart_schedule (u := u) (s := s) job.key [edited]).calls
    refine hasked.trans (hasked.distinct.quietCall (hids.congr hcalls) (hcalls ▸ hc) rfl rfl rfl rfl
      ?_ ⟨rfl, rfl⟩)
    rw [hstage]
    exact ⟨rfl, rfl⟩
  | spread hstage =>
    exact hquiet ((State.alike_notePeers u _ _ _ _).same.trans ⟨rfl, rfl, rfl⟩)
      (State.limiter_notePeers u _ _ _ _) hstage ⟨rfl, rfl⟩ ⟨rfl, rfl⟩
  | abandon hstage =>
    exact hquiet (s.alike_abandoned u _).same (State.limiter_abandoned u s _) hstage ⟨rfl, rfl⟩
      ⟨rfl, rfl⟩
  | found hstage =>
    exact hquiet (.refl s) rfl hstage ⟨rfl, rfl⟩ ⟨Pool.tickets_refill _, Pool.held_refill _⟩
  | strand hstage hstep =>
    rw [hstage] at hproper hfair
    exact deals_strand hd hids hc hstage (hfair.1.step hproper.toNumbered hstep) _
  | judged hstage hresult =>
    rw [hstage] at hfair
    exact hquiet (.refl s) rfl hstage (slots_of_ended hfair.1 (by simp [hresult])) ⟨rfl, rfl⟩
  | refuse hwhy =>
    rcases hwhy with ⟨hstage, -⟩ | ⟨work, hstage, -⟩ | ⟨pool, hstage, hresult⟩
    · exact hquiet (.refl s) rfl hstage ⟨rfl, rfl⟩ ⟨rfl, rfl⟩
    · exact hquiet (.refl s) rfl hstage ⟨rfl, rfl⟩ ⟨rfl, rfl⟩
    · rw [hstage] at hfair
      exact hquiet (.refl s) rfl hstage (slots_of_ended hfair.1 (by simp [hresult])) ⟨rfl, rfl⟩

/-- Its new stage is fair. -/
theorem Advance.fair (hfair : ∀ d ∈ s.calls, d.stage.Fair u) (hc : c ∈ s.calls)
    (hproper : c.stage.Proper u) (h : c.Advance u s s') : ∀ d ∈ s'.calls, d.stage.Fair u := by
  have hgoes : ∀ {t : State} {stage : CallStage}, t.calls = s.calls → stage.Fair u →
      ∀ d ∈ (goTo t c stage).calls, d.stage.Fair u := by
    intro t stage ht hstage d hd
    rcases State.mem_goTo.mp hd with ⟨hd, -⟩ | ⟨rfl, -⟩
    · exact hfair d (ht ▸ hd)
    · exact hstage
  cases h with
  | told | take | work | report | fail | survey | look | judged | deliver | conclude | refuse =>
    exact hgoes rfl trivial
  | ask => exact hgoes (Evaluation.apart_schedule _ _).calls trivial
  | spread => exact hgoes (State.alike_notePeers u _ _ _ _).calls trivial
  | abandon => exact hgoes (s.alike_abandoned u _).calls trivial
  | found => exact hgoes rfl ⟨Pool.fair_start _ _ _, rfl⟩
  | strand hstage hstep =>
    have hmine := hfair c hc
    rw [hstage] at hmine hproper
    have hdeals := hmine.1.step hproper.toNumbered hstep
    exact hgoes rfl ⟨hdeals.fair, hdeals.usesSlots.trans hmine.2⟩

end Call

/-! ## Whatever happens -/

/-- Something happens to a watch. -/
def State.Goes (u : Setup) (s s' : State) : Prop := ∃ m, s.move? u m = some s'

/-- How a watch stands to its limiter, open or closed. -/
structure State.Balanced (u : Setup) (s : State) : Prop where
  tidy : s.Tidy u
  distinct : s.Distinct
  fair : ∀ c ∈ s.calls, c.stage.Fair u
  inOrder : s.limiter.InOrder
  limit : s.limiter.limit = u.ruleSet.throttle.limit
  accounts : s.limiter.Accounts u.ruleSet.throttle.limit s.tickets s.held

namespace State.Balanced

theorem start (u : Setup) (grid : Grid) : (State.start u grid).Balanced u where
  tidy := .start u grid
  distinct := ⟨.nil, fun _ he => by cases he⟩
  fair _ hc := by cases hc
  inOrder := ⟨.nil, fun _ h => by cases h⟩
  limit := rfl
  accounts := .ofLimit _

theorem passes (h : s.Balanced u) (htidy : s'.Tidy u) (hfair : ∀ c ∈ s'.calls, c.stage.Fair u)
    (hdeals : s.Passes s') : s'.Balanced u where
  tidy := htidy
  distinct := hdeals.distinct
  fair := hfair
  inOrder := hdeals.follows.inOrder h.inOrder
  limit := hdeals.follows.limit.trans h.limit
  accounts := hdeals.accounts h.accounts

/-- The line after no more slots are given out. -/
theorem close (h : s.Balanced u) : s.Deals (s.shutDown u) where
  distinct := ⟨h.distinct.nodup, h.distinct.below⟩
  follows := .close s.limiter
  accounts haccounts := haccounts.close
  queued hqueued := .inl (Same.queued (s := s.shutDown u) (t := s) ⟨rfl, rfl, rfl⟩ hqueued)
  taken htaken := .inl (Same.occupies (s := s.shutDown u) (t := s) ⟨rfl, rfl, rfl⟩ htaken)

/-- A call comes that has no batches. -/
theorem addCall (h : s.Balanced u) {stage : CallStage}
    (hnone : stage.tickets = [] ∧ stage.slots = 0) (hpool : ∀ pool, stage ≠ .judging pool) :
    s.Deals (s.addCall stage) := by
  refine Rests.deals ⟨⟨h.distinct.nodup, h.distinct.below⟩, rfl, ?_, ?_, fun hqueued => ?_,
    fun htaken => ?_⟩
  · simp [State.tickets, State.addCall, hnone.1]
  · simp [State.held, State.addCall, hnone.2]
  · cases hqueued with
    | evaluation hmem hhas => exact .evaluation hmem hhas
    | batch hmem hstage hstrand hhas =>
      rcases List.mem_append.mp hmem with hmem | hmem
      · exact .batch hmem hstage hstrand hhas
      · obtain rfl := List.mem_singleton.mp hmem
        exact absurd hstage (hpool _)
  · cases htaken with
    | evaluation hmem hhas => exact .evaluation hmem hhas
    | batch hmem hstage hstrand hhas =>
      rcases List.mem_append.mp hmem with hmem | hmem
      · exact .batch hmem hstage hstrand hhas
      · obtain rfl := List.mem_singleton.mp hmem
        exact absurd hstage (hpool _)

/-- An evaluation or a call goes on. -/
theorem advances (h : s.Balanced u) (hs : s.Advances u s') :
    s.Deals s' ∧ ∀ c ∈ s'.calls, c.stage.Fair u := by
  rcases hs with ⟨e, he, hadvance⟩ | ⟨c, hc, hadvance⟩
  · exact ⟨hadvance.deals h.distinct (mem_of_evaluation? he), hadvance.apart.calls ▸ h.fair⟩
  · have hmem := mem_of_call? hc
    have hproper := h.tidy.stages c hmem
    exact ⟨hadvance.deals h.distinct h.tidy.ids hmem hproper (h.fair c hmem),
      hadvance.fair h.fair hmem hproper⟩

/-- A move inside or outside. -/
theorem move? (h : s.Balanced u) (hm : s.move? u m = some s') :
    s.Deals s' ∧ ∀ c ∈ s'.calls, c.stage.Fair u := by
  have hadded : ∀ stage : CallStage, stage.tickets = [] ∧ stage.slots = 0 →
      (∀ pool, stage ≠ .judging pool) → stage.Fair u →
      s.Deals (s.addCall stage) ∧ ∀ c ∈ (s.addCall stage).calls, c.stage.Fair u := by
    intro stage hnone hpool hfair
    refine ⟨h.addCall hnone hpool, fun c hc => ?_⟩
    rcases List.mem_append.mp hc with hc | hc
    · exact h.fair c hc
    · rw [List.mem_singleton.mp hc]
      exact hfair
  cases m with
  | setCell row column cell =>
    simp only [State.move?, Option.map_eq_some_iff] at hm
    obtain ⟨grid, -, rfl⟩ := hm
    exact ⟨Same.deals ⟨rfl, rfl, rfl⟩ h.distinct rfl, h.fair⟩
  | pushRow _ | pass _ =>
    obtain rfl := Option.some.inj hm
    exact ⟨Same.deals ⟨rfl, rfl, rfl⟩ h.distinct rfl, h.fair⟩
  | edit row column =>
    obtain rfl := Option.some.inj hm
    unfold tellEdit
    split
    · exact hadded _ ⟨rfl, rfl⟩ (fun _ h => by cases h) trivial
    · exact hadded _ ⟨rfl, rfl⟩ (fun _ h => by cases h) trivial
  | validateAll =>
    obtain rfl := Option.some.inj hm
    exact hadded _ ⟨rfl, rfl⟩ (fun _ h => by cases h) trivial
  | shutDown =>
    obtain rfl := Option.some.inj hm
    exact ⟨h.close, h.fair⟩
  | step task => exact h.advances (advances_of_step? hm)
  | takeSlot generation => exact h.advances (advances_of_takeSlot? hm)

/-- Whatever happens, the account of the slots is kept. -/
theorem goes (h : s.Balanced u) (hs : s.Goes u s') : s'.Balanced u ∧ s.Deals s' := by
  obtain ⟨m, hm⟩ := hs
  obtain ⟨hdeals, hfair⟩ := h.move? hm
  exact ⟨h.passes (h.tidy.move? hm) hfair hdeals.toPasses, hdeals⟩

end State.Balanced

end CellRules.Watch
