/-
CellRules.Proofs.Watch.Conserved — no evaluation is lost, and none is counted twice.

Whether edited cells are judged in the background or at once: every evaluation that was asked for is
under way or has ended in exactly one of five ways, each with its counter. The reports that a run
over all rows delivers are counted with the others, but nobody asked for them one by one, so they
stand on the side of what was asked for.

* `requests h`, `allRowsReports h` — what was asked for by a history, and what runs over all rows
  delivered.
* `State.Orderly.move?` — the ledger fits the evaluations in either mode.
* `Booked.step` — what a move shows is what it books.
* `evaluations_conserved` — the balance in every state of a run, and what each step does to it.
-/
import CellRules.Proofs.Watch.Newest
import CellRules.Proofs.Watch.Tally

namespace CellRules.Watch

variable {u : Setup} {grid : Grid} {s s' : State} {h : List Happening} {x : Option Happening}
  {m : Move} {e : Evaluation} {c : Call}

/-- The evaluation that is asked for: one in the background, or one that a call makes itself. -/
def Happening.request? : Happening → Option Task
  | .asked _ _ generation _ => some (.evaluation generation)
  | .read (.call id) _ => some (.call id)
  | _ => none

/-- The evaluations asked for, in order. -/
def requests (h : List Happening) : List Task := h.filterMap Happening.request?

/-- By this history, a run over all rows delivered the report. -/
def Happening.ofAllRows (h : List Happening) : Happening → Bool
  | .reported (.call id) _ _ => decide (.calledAll id ∈ h)
  | _ => false

/-- The number of reports that runs over all rows delivered. -/
def allRowsReports (h : List Happening) : Nat := h.countP (·.ofAllRows h)

/-! ## What a step shows is what it books -/

namespace Evaluation

theorem Advance.requests_seen (hopen : s.closed = false) (h : e.Advance u s s') :
    requests (e.seen s s').toList = e.asks s := by
  have hwaits : ∀ {fanOut : List String},
      (e.stage = .entering fanOut ∨ ∃ ticket, e.stage = .inLine ticket fanOut) →
      requests (e.seen s s').toList = e.asks s := by
    rintro fanOut (hstage | ⟨ticket, hstage⟩) <;>
      (simp only [seen, asks, hstage]; split <;> rfl)
  cases h with
  | arm hstage | work hstage | stop hstage | finish hstage => simp [seen, asks, hstage, requests]
  | discard hstage =>
    rcases hstage with hstage | ⟨due, hstage⟩
    · simp [seen, asks, hstage, requests]
    · simp only [seen, asks, hstage]
      split <;> rfl
  | begin hstage =>
    simp only [seen, asks, hstage]
    split <;> rfl
  | queue hstage => exact hwaits (.inl hstage)
  | start hgets => exact hwaits hgets.stage
  | giveUp hleaves => exact hwaits hleaves.stage
  | report hstage | outdated hstage | abandon hstage | fail hstage =>
    simp only [seen, asks, hstage]
    split
    · rfl
    · rfl
    · split <;> rfl
  | @ask key keys hstage =>
    have hnext : s.nextGeneration <
        ((s.schedule u key []).setStage e (.spreading keys)).nextGeneration := by
      simp [State.setStage, State.setEvaluation, State.nextGeneration_schedule hopen]
    simp only [seen, asks, hstage, if_pos hnext]
    rfl

/-- An evaluation reports in its own name. -/
theorem ofAllRows_seen (h : List Happening) :
    (e.seen s s').toList.countP (·.ofAllRows h) = 0 := by
  cases hstage : e.stage with
  | asked | running work fanOut => simp [seen, hstage]
  | armed due | entering fanOut | inLine ticket fanOut =>
    simp only [seen, hstage]
    split <;> rfl
  | settled answer fanOut =>
    simp only [seen, hstage]
    split
    · rfl
    · rfl
    · split <;> rfl
  | spreading keys =>
    cases keys with
    | nil => simp [seen, hstage]
    | cons key keys =>
      simp only [seen, hstage]
      split <;> rfl

end Evaluation

/-- The call is one for all rows. -/
def CallStage.forAllRows : CallStage → Bool
  | .editing _ _ _ | .edited _ => false
  | _ => true

namespace Call

theorem Advance.requests_seen (hopen : s.closed = false) (hc : s.call? c.id = some c)
    (h : c.Advance u s s') : requests (c.seen s s').toList = c.asks u s := by
  cases h with
  | told hstage | look hstage | found hstage | strand hstage | judged hstage =>
    simp [seen, asks, hstage, requests]
  | @ask edited job todo background hstage =>
    have hnext : s.nextGeneration < (goTo (s.schedule u job.key [edited]) c
        (.editing edited todo none)).nextGeneration := by
      simp [goTo, State.nextGeneration_schedule hopen]
    simp only [seen, asks, hstage, background, if_true, if_pos hnext]
    rfl
  | @take edited job todo atOnce hstage =>
    have hstays : (begin u s c edited job todo).nextGeneration = s.nextGeneration := rfl
    have hafter : (begin u s c edited job todo).callStage? c.id
        = some (.editing edited todo (some (job, .working
          (u.ruleSet.evaluateCellAmong (s.source u) job.key.row job.key.column)))) :=
      State.callStage?_goTo hc
    simp only [seen, asks, hstage, atOnce, Bool.false_eq_true, if_false, hstays, Nat.lt_irrefl,
      hafter]
    rfl
  | work hstage | spread hstage | report hstage | abandon hstage | fail hstage | survey hstage =>
    simp only [seen, asks, hstage]
    split <;> rfl
  | deliver hstage | conclude hstage =>
    simp only [seen, asks, hstage]
    generalize s.newDelivery? _ = delivered
    cases delivered <;> rfl
  | refuse hwhy =>
    rcases hwhy with ⟨hstage, -⟩ | ⟨work, hstage, -⟩ | ⟨pool, hstage, -⟩
    · simp only [seen, asks, hstage]
      split <;> rfl
    · simp [seen, asks, hstage, requests]
    · simp [seen, asks, hstage, requests]

/-- What a run over all rows delivers is seen as its report; a call that tells of an edit delivers
no such report. -/
theorem Advance.ofAllRows_seen (hkind : c.stage.forAllRows = true ↔ .calledAll c.id ∈ h)
    (hadvance : c.Advance u s s') : (c.seen s s').toList.countP (·.ofAllRows h) = c.rows := by
  cases hadvance with
  | told hstage | look hstage | found hstage | strand hstage | judged hstage =>
    simp [seen, rows, hstage]
  | ask _ hstage | take _ hstage =>
    simp only [seen, rows, hstage]
    split
    · rfl
    · split <;> rfl
  | work hstage | spread hstage | report hstage | abandon hstage | fail hstage =>
    have hnot : .calledAll c.id ∉ h := by simpa [hstage, CallStage.forAllRows] using hkind
    simp only [seen, Call.rows, hstage]
    split
    · simp [Happening.ofAllRows, hnot]
    · rfl
    · rfl
    · rfl
  | survey hstage =>
    simp only [seen, rows, hstage]
    split <;> rfl
  | @deliver cell todo cells hstage =>
    have hcalled : .calledAll c.id ∈ h := hkind.mp (by rw [hstage]; rfl)
    have hnew : s.newDelivery? (goTo (s.deliver u cell) c (.delivering todo cells))
        = some ⟨cell.row, cell.column, cell.verdict⟩ :=
      State.newDelivery?_one (show _ = s.deliveries ++ [(s.now, _)] from rfl)
    simp [seen, rows, hstage, hnew, Happening.ofAllRows, hcalled]
  | @conclude cells hstage =>
    have hquiet : s.newDelivery? (Call.conclude u s c cells) = none := State.newDelivery?_same rfl
    simp [seen, rows, hstage, hquiet]
  | refuse hwhy =>
    rcases hwhy with ⟨hstage, -⟩ | ⟨work, hstage, -⟩ | ⟨pool, hstage, -⟩
    · simp only [seen, rows, hstage]
      split <;> rfl
    · simp [seen, rows, hstage]
    · simp [seen, rows, hstage]

end Call

/-- Only a call for all rows is seen as one, and whoever reports in the name of a call is one. -/
theorem seen_calls (hn : s.Numbered) {y : Happening} (hy : seen s m s' = some y) :
    (∀ id, y = .calledAll id → m = .validateAll ∧ id = s.nextCall) ∧
      ∀ id key v, y = .reported (.call id) key v → id < s.nextCall := by
  have hevaluation : ∀ {generation : Nat},
      (s.evaluation? generation).bind (·.seen s s') = some y →
      (∀ id, y = .calledAll id → m = .validateAll ∧ id = s.nextCall) ∧
        ∀ id key v, y = .reported (.call id) key v → id < s.nextCall := by
    intro generation hy
    obtain ⟨e, -, hy⟩ := Option.bind_eq_some_iff.mp hy
    obtain ⟨hcalled, hreported⟩ := e.seen_self hy
    exact ⟨fun id h => absurd h (hcalled id), fun id key v h => nomatch hreported _ key v h⟩
  cases m with
  | step task =>
    cases task with
    | evaluation generation => exact hevaluation hy
    | call id =>
      simp only [seen, Option.bind_eq_some_iff] at hy
      obtain ⟨c, hc, hy⟩ := hy
      obtain ⟨hcalled, hreported⟩ := c.seen_self hy
      refine ⟨fun id h => absurd h (hcalled id), fun id key v h => ?_⟩
      cases hreported _ key v h
      exact hn.lt (State.mem_of_call? hc)
    | strand id strand => cases hy
  | takeSlot generation => exact hevaluation hy
  | validateAll =>
    obtain rfl := Option.some.inj hy
    exact ⟨fun id h => ⟨rfl, by cases h; rfl⟩, by simp⟩
  | edit row column =>
    simp only [seen] at hy
    split at hy <;> cases hy
    exact ⟨by simp, by simp⟩
  | setCell _ _ _ | pushRow _ | shutDown =>
    obtain rfl := Option.some.inj hy
    exact ⟨by simp, by simp⟩
  | pass _ => cases hy

/-! ## Calls keep their kind -/

theorem CallCourse.kind (hcourse : CallCourse u s c x s') :
    ∃ stage, s'.calls = (Call.goTo s c stage).calls ∧
      stage.forAllRows = c.stage.forAllRows := by
  cases hcourse with
  | told hstage hs | survey hstage _ hs | look hstage _ hs | found hstage _ hs | strand hstage _ hs
  | judged hstage _ hs | deliver hstage hs | conclude hstage hs =>
    exact ⟨_, hs.calls.trans rfl, by rw [hstage]; rfl⟩
  | refuse hwhy hs =>
    refine ⟨_, hs.calls.trans rfl, ?_⟩
    rcases hwhy with ⟨hstage, -⟩ | ⟨work, hstage, -⟩ | ⟨pool, hstage, -⟩ <;> (rw [hstage]; rfl)

theorem EditCourse.kind (hcourse : EditCourse u s c s') :
    ∃ stage, s'.calls = (Call.goTo s c stage).calls ∧
      stage.forAllRows = c.stage.forAllRows := by
  cases hcourse with
  | take _ hstage hs | work hstage _ hs | judged hstage _ hs =>
    exact ⟨_, hs.calls.trans rfl, by rw [hstage]; rfl⟩
  | failed hstage _ hafter hs =>
    refine ⟨_, hs.calls.trans rfl, ?_⟩
    rw [hstage]
    rcases hafter with rfl | rfl <;> rfl

/-- Calls are left alone, or one of them goes on as what it is. -/
theorem State.Advances.kind (h : s.Advances u s') :
    s'.calls = s.calls ∨ ∃ c ∈ s.calls, ∃ stage, s'.calls = (Call.goTo s c stage).calls ∧
      stage.forAllRows = c.stage.forAllRows := by
  rcases h with ⟨e, -, hadvance⟩ | ⟨c, hc, hadvance⟩
  · exact .inl hadvance.apart.calls
  · refine .inr ⟨c, mem_of_call? hc, ?_⟩
    rcases hadvance.split hc with ⟨-, edited, job, todo, hstage, rfl⟩ | hedit | hcall
    · refine ⟨.editing edited todo none, ?_, by rw [hstage]; rfl⟩
      rw [Call.goTo, Call.goTo, (Evaluation.apart_schedule job.key [edited]).calls]
    · exact hedit.kind
    · exact hcall.kind

/-- A call that is there after a move was there before, as what it is, or is the one that came. -/
theorem State.calls_move? (hm : s.move? u m = some s') :
    s.nextCall ≤ s'.nextCall ∧ (m = .validateAll → s.nextCall < s'.nextCall) ∧
      ∀ d ∈ s'.calls, (∃ c ∈ s.calls, c.id = d.id ∧ c.stage.forAllRows = d.stage.forAllRows) ∨
        (d.id = s.nextCall ∧ (d.stage.forAllRows = true ↔ m = .validateAll)) := by
  have hsame : s'.calls = s.calls → m ≠ .validateAll →
      s.nextCall ≤ s'.nextCall ∧ (m = .validateAll → s.nextCall < s'.nextCall) ∧
      ∀ d ∈ s'.calls, (∃ c ∈ s.calls, c.id = d.id ∧ c.stage.forAllRows = d.stage.forAllRows) ∨
        (d.id = s.nextCall ∧ (d.stage.forAllRows = true ↔ m = .validateAll)) := by
    intro hcalls hm
    refine ⟨by rw [nextCall, nextCall, hcalls], fun h => absurd h hm, fun d hd => ?_⟩
    exact .inl ⟨d, hcalls ▸ hd, rfl, rfl⟩
  have hadd : ∀ stage, s' = s.addCall stage → (stage.forAllRows = true ↔ m = .validateAll) →
      s.nextCall ≤ s'.nextCall ∧ (m = .validateAll → s.nextCall < s'.nextCall) ∧
      ∀ d ∈ s'.calls, (∃ c ∈ s.calls, c.id = d.id ∧ c.stage.forAllRows = d.stage.forAllRows) ∨
        (d.id = s.nextCall ∧ (d.stage.forAllRows = true ↔ m = .validateAll)) := by
    rintro stage rfl hkind
    refine ⟨by rw [nextCall_addCall]; omega, fun _ => by rw [nextCall_addCall]; omega,
      fun d hd => ?_⟩
    rcases List.mem_append.mp hd with hd | hd
    · exact .inl ⟨d, hd, rfl, rfl⟩
    · obtain rfl := List.mem_singleton.mp hd
      exact .inr ⟨rfl, hkind⟩
  have hgoes : s.Advances u s' → m ≠ .validateAll →
      s.nextCall ≤ s'.nextCall ∧ (m = .validateAll → s.nextCall < s'.nextCall) ∧
      ∀ d ∈ s'.calls, (∃ c ∈ s.calls, c.id = d.id ∧ c.stage.forAllRows = d.stage.forAllRows) ∨
        (d.id = s.nextCall ∧ (d.stage.forAllRows = true ↔ m = .validateAll)) := by
    intro hadvances hm
    rcases hadvances.kind with hcalls | ⟨c, hc, stage, hcalls, hkind⟩
    · exact hsame hcalls hm
    · refine ⟨?_, fun h => absurd h hm, fun d hd => ?_⟩
      · rw [show s'.nextCall = (Call.goTo s c stage).nextCall by rw [nextCall, hcalls]; rfl,
          nextCall_goTo]
      · rw [hcalls] at hd
        rcases mem_goTo.mp hd with ⟨hd, -⟩ | ⟨rfl, -⟩
        · exact .inl ⟨d, hd, rfl, rfl⟩
        · exact .inl ⟨c, hc, rfl, hkind.symm⟩
  cases m with
  | setCell row column cell =>
    simp only [move?, Option.map_eq_some_iff] at hm
    obtain ⟨grid, -, rfl⟩ := hm
    exact hsame rfl (by simp)
  | pushRow _ | pass _ | shutDown =>
    obtain rfl := Option.some.inj hm
    exact hsame rfl (by simp)
  | edit row column =>
    refine hadd _ (Option.some.inj hm).symm ?_
    split <;> simp [CallStage.forAllRows]
  | validateAll => exact hadd _ (Option.some.inj hm).symm ⟨fun _ => rfl, fun _ => rfl⟩
  | step task => exact hgoes (advances_of_step? hm) (by simp)
  | takeSlot generation => exact hgoes (advances_of_takeSlot? hm) (by simp)

/-- The history knows the calls: those for all rows, and those that made reports. -/
structure Known (h : List Happening) (s : State) : Prop where
  called : ∀ id, .calledAll id ∈ h → id < s.nextCall
  reported : ∀ id key v, .reported (.call id) key v ∈ h → id < s.nextCall
  kinds : ∀ c ∈ s.calls, (c.stage.forAllRows = true ↔ .calledAll c.id ∈ h)

theorem Known.move? (hk : Known h s) (hn : s.Numbered) (hm : s.move? u m = some s') :
    Known (h ++ (seen s m s').toList) s' := by
  obtain ⟨hle, hlt, hback⟩ := State.calls_move? hm
  have hshown : ∀ {y : Happening}, y ∈ (seen s m s').toList → seen s m s' = some y :=
    fun hy => Option.mem_toList.mp hy
  refine ⟨fun id hid => ?_, fun id key v hid => ?_, fun d hd => ?_⟩
  · rcases List.mem_append.mp hid with hid | hid
    · exact Nat.lt_of_lt_of_le (hk.called id hid) hle
    · obtain ⟨hall, rfl⟩ := (seen_calls hn (hshown hid)).1 id rfl
      exact hlt hall
  · rcases List.mem_append.mp hid with hid | hid
    · exact Nat.lt_of_lt_of_le (hk.reported id key v hid) hle
    · exact Nat.lt_of_lt_of_le ((seen_calls hn (hshown hid)).2 id key v rfl) hle
  · rw [List.mem_append]
    rcases hback d hd with ⟨c, hc, hid, hkind⟩ | ⟨hid, hkind⟩
    · -- an old call is not the one that is called for now
      have hnot : .calledAll d.id ∉ (seen s m s').toList := fun hmem => by
        have hnew := ((seen_calls hn (hshown hmem)).1 d.id rfl).2
        have hold := hn.lt hc
        omega
      rw [← hkind, hk.kinds c hc, hid]
      exact ⟨.inl, fun hmem => hmem.resolve_right hnot⟩
    · rw [hkind, hid]
      constructor
      · rintro rfl
        exact .inr (by simp [seen])
      · rintro (hmem | hmem)
        · exact absurd (hk.called _ hmem) (Nat.lt_irrefl _)
        · exact ((seen_calls hn (hshown hmem)).1 _ rfl).1

/-- What runs over all rows delivered before and what a move delivers for them. -/
theorem Known.allRowsReports_append (hk : Known h s) (hn : s.Numbered) :
    allRowsReports (h ++ (seen s m s').toList)
      = allRowsReports h + (seen s m s').toList.countP (·.ofAllRows h) := by
  rw [allRowsReports, List.countP_append]
  congr 1
  · refine List.countP_congr fun y hy => ?_
    unfold Happening.ofAllRows
    split
    · rename_i id key v
      have hnot : .calledAll id ∉ (seen s m s').toList := fun hmem => by
        have hnew := ((seen_calls hn (Option.mem_toList.mp hmem)).1 id rfl).2
        have hold := hk.reported id key v hy
        omega
      simp [hnot]
    · rfl
  · refine List.countP_congr fun y hy => ?_
    rw [Option.mem_toList] at hy
    unfold Happening.ofAllRows
    split
    · simp [hy]
    · rfl

/-! ## The ledger fits in either mode -/

/-- Whatever goes on keeps the order, wherever edited cells are judged. -/
theorem State.Orderly.advances (ho : s.Orderly) (hopen : s.closed = false)
    (hslots : s.limiter.closed = false) (h : s.Advances u s') : s'.Orderly := by
  rcases h with ⟨e, he, hadvance⟩ | ⟨c, hc, hadvance⟩
  · exact (hadvance.course hopen hslots he).orderly ho hopen he
  · rcases hadvance.split hc with ⟨-, edited, job, todo, -, rfl⟩ | hedit | hcall
    · exact (ho.schedule (u := u) hopen job.key [edited]).congr rfl rfl rfl
    · exact ho.congr hedit.kept.1 hedit.kept.2.1 hedit.kept.2.2
    · exact ho.congr hcall.kept.1 hcall.kept.2.1 hcall.kept.2.2

theorem State.Orderly.move? (ho : s.Orderly) (hopen : s.closed = false)
    (hslots : s.limiter.closed = false) (hm : s.move? u m = some s') (hopen' : s'.closed = false) :
    s'.Orderly := by
  cases m with
  | setCell row column cell =>
    simp only [State.move?, Option.map_eq_some_iff] at hm
    obtain ⟨grid, -, rfl⟩ := hm
    exact ho.congr rfl rfl rfl
  | pushRow _ | edit _ _ | validateAll | pass _ =>
    obtain rfl := Option.some.inj hm
    exact ho.congr rfl rfl rfl
  | shutDown =>
    obtain rfl := Option.some.inj hm
    cases hopen'
  | step task => exact ho.advances hopen hslots (advances_of_step? hm)
  | takeSlot generation => exact ho.advances hopen hslots (advances_of_takeSlot? hm)

/-- A watch that stays open goes on giving out slots. -/
theorem State.slots_move? (hslots : s.limiter.closed = false) (hm : s.move? u m = some s')
    (hopen' : s'.closed = false) : s'.limiter.closed = false := by
  cases m with
  | setCell row column cell =>
    simp only [State.move?, Option.map_eq_some_iff] at hm
    obtain ⟨grid, -, rfl⟩ := hm
    exact hslots
  | pushRow _ | edit _ _ | validateAll | pass _ =>
    obtain rfl := Option.some.inj hm
    exact hslots
  | shutDown =>
    obtain rfl := Option.some.inj hm
    cases hopen'
  | step task => exact (advances_of_step? hm).slots.trans hslots
  | takeSlot generation => exact (advances_of_takeSlot? hm).slots.trans hslots

/-! ## The books of a run -/

/-- What holds in an open watch whose run so far was `h`, wherever edited cells are judged. -/
structure Booked (u : Setup) (h : List Happening) (s : State) : Prop where
  isOpen : s.closed = false
  slots : s.limiter.closed = false
  orderly : s.Orderly
  tidy : s.Tidy u
  known : Known h s

/-- A move asks for what it shows, ends at most one evaluation, and delivers what it shows. -/
theorem Booked.tallied_move? (hb : Booked u h s) (hm : s.move? u m = some s')
    (hopen' : s'.closed = false) :
    ∃ ended, ended.length ≤ 1 ∧ Tallied s (requests (seen s m s').toList) ended
      ((seen s m s').toList.countP (·.ofAllRows h)) s' := by
  have hopen := hb.isOpen
  have hadd : ∀ stage, ({ id := s.nextCall, stage } : Call).judgesCell = false →
      Tallied s [] [] 0 (s.addCall stage) := fun stage hidle => by
    refine .quiet rfl ?_
    rw [State.unsettled, State.unsettled, State.addCall, tasksOf_append]
    simp [tasksOf, hidle]
  have hevaluation : ∀ {e : Evaluation}, s.evaluation? e.generation = some e → e.Advance u s s' →
      ∃ ended, ended.length ≤ 1 ∧
        Tallied s (requests ((s.evaluation? e.generation).bind (·.seen s s')).toList) ended
          (((s.evaluation? e.generation).bind (·.seen s s')).toList.countP (·.ofAllRows h)) s' := by
    intro e he hadvance
    rw [he, Option.bind_some, hadvance.requests_seen hopen, e.ofAllRows_seen h]
    exact hadvance.tallied hb.orderly (State.mem_of_evaluation? he) hopen
  cases m with
  | setCell row column cell =>
    simp only [State.move?, Option.map_eq_some_iff] at hm
    obtain ⟨grid, -, rfl⟩ := hm
    exact ⟨[], Nat.zero_le 1, .same rfl rfl rfl⟩
  | pushRow _ | pass _ =>
    obtain rfl := Option.some.inj hm
    exact ⟨[], Nat.zero_le 1, .same rfl rfl rfl⟩
  | edit row column =>
    obtain rfl := Option.some.inj hm
    simp only [seen, State.tellEdit, hopen, Bool.false_eq_true, if_false]
    exact ⟨[], Nat.zero_le 1, hadd _ rfl⟩
  | validateAll =>
    obtain rfl := Option.some.inj hm
    exact ⟨[], Nat.zero_le 1, hadd .called rfl⟩
  | shutDown =>
    obtain rfl := Option.some.inj hm
    cases hopen'
  | step task =>
    cases task with
    | evaluation generation =>
      obtain ⟨e, rfl, he, hadvance⟩ := State.evaluation_of_step? hm
      exact hevaluation he hadvance
    | call id =>
      obtain ⟨c, rfl, hc, hadvance⟩ := State.call_of_step? hm
      have hmem := State.mem_of_call? hc
      simp only [seen, hc, Option.bind_some]
      rw [hadvance.requests_seen hopen hc, hadvance.ofAllRows_seen (hb.known.kinds c hmem)]
      exact hadvance.tallied hb.tidy.ids hmem hb.orderly hopen
    | strand id strand =>
      obtain ⟨c, -, hc, pool, next, limiter, events, hstage, -, rfl⟩ :=
        State.call_of_strand? (u := u) hm
      exact ⟨[], Nat.zero_le 1,
        c.tallied_strand hb.tidy.ids (State.mem_of_call? hc) hstage limiter events⟩
  | takeSlot generation =>
    obtain ⟨e, rfl, he, hadvance⟩ := State.evaluation_of_takeSlot? hm
    exact hevaluation he hadvance

/-- Every open state of a run is booked, and so is all that was asked for on the way. -/
theorem Run.booked (run : Run u (.start u grid) h s) (hopen : s.closed = false) :
    Booked u h s ∧
      ∃ ended, Tallied (.start u grid) (requests h) ended (allRowsReports h) s := by
  induction run with
  | rest =>
    exact ⟨⟨rfl, rfl, State.orderly_start u grid, .start u grid, nofun, nofun, nofun⟩, [],
      .same rfl rfl rfl⟩
  | @move h s₁ s₂ m _ hm ih =>
    obtain ⟨hb, ended, hbefore⟩ := ih (State.open_of_move? hm hopen)
    obtain ⟨now, -, hnow⟩ := hb.tallied_move? hm hopen
    refine ⟨⟨hopen, State.slots_move? hb.slots hm hopen,
      hb.orderly.move? hb.isOpen hb.slots hm hopen, hb.tidy.move? hm,
      hb.known.move? hb.tidy.ids hm⟩, ended ++ now, ?_⟩
    rw [requests, List.filterMap_append, hb.known.allRowsReports_append hb.tidy.ids]
    exact hbefore.trans hnow

/-- Every end is counted once. -/
theorem length_eq_sum_ends (ended : List (Task × End)) :
    ended.length = ended.countP (·.2 == .coalesced) + ended.countP (·.2 == .evaluated) +
      ended.countP (·.2 == .stale) + ended.countP (·.2 == .cancelled) +
      ended.countP (·.2 == .errors) := by
  induction ended with
  | nil => rfl
  | cons e ended ih =>
    obtain ⟨task, k⟩ := e
    simp only [List.countP_cons, List.length_cons, ih]
    cases k <;> simp <;> omega

/-- What was asked for is balanced by the ends and by what is under way. -/
theorem Tallied.balance {ended : List (Task × End)}
    (htallied : Tallied (.start u grid) (requests h) ended (allRowsReports h) s) :
    s.stats.scheduled + allRowsReports h =
      s.stats.coalesced + s.stats.evaluated + s.stats.stale + s.stats.cancelled + s.stats.errors +
        s.unsettled.length := by
  have hlength : (requests h).length = ended.length + s.unsettled.length := by
    simpa [State.unsettled, State.start, tasksOf] using htallied.unsettled.length_eq
  have hscheduled : s.stats.scheduled = (requests h).length := by
    simpa [State.start] using htallied.scheduled
  have hcoalesced : s.stats.coalesced = ended.countP (·.2 == .coalesced) := by
    simpa [Stats.of, State.start] using htallied.counted .coalesced
  have hevaluated : s.stats.evaluated = ended.countP (·.2 == .evaluated) + allRowsReports h := by
    simpa [Stats.of, State.start] using htallied.counted .evaluated
  have hstale : s.stats.stale = ended.countP (·.2 == .stale) := by
    simpa [Stats.of, State.start] using htallied.counted .stale
  have hcancelled : s.stats.cancelled = ended.countP (·.2 == .cancelled) := by
    simpa [Stats.of, State.start] using htallied.counted .cancelled
  have herrors : s.stats.errors = ended.countP (·.2 == .errors) := by
    simpa [Stats.of, State.start] using htallied.counted .errors
  have hsum := length_eq_sum_ends ended
  omega

/-- Evaluations are conserved, wherever edited cells are judged and however a run goes: what was
asked for, and what runs over all rows delivered, has ended in one of five ways or is under way.
Each evaluation asked for is one of those that ended, each in ONE way, or of those under way; and
every step ends at most one evaluation and raises the counter of its end only. -/
theorem evaluations_conserved (run : Run u (.start u grid) h s) (hopen : s.closed = false) :
    s.stats.scheduled + allRowsReports h =
        s.stats.coalesced + s.stats.evaluated + s.stats.stale + s.stats.cancelled + s.stats.errors +
          s.unsettled.length ∧
      (∃ ended, Tallied (.start u grid) (requests h) ended (allRowsReports h) s) ∧
      ∀ m s', s.move? u m = some s' → s'.closed = false →
        ∃ ended, ended.length ≤ 1 ∧ Tallied s (requests (seen s m s').toList) ended
          ((seen s m s').toList.countP (·.ofAllRows h)) s' := by
  obtain ⟨hbooked, ended, htallied⟩ := run.booked hopen
  exact ⟨htallied.balance, ⟨ended, htallied⟩, fun m s' hm hopen' => hbooked.tallied_move? hm hopen'⟩

/-- The second of two edits is reported first, the first one comes too late, and a third one has just
been told: three evaluations, one reported, one stale, one under way. -/
theorem evaluations_conserved_overlapping :
    ∃ h s, Run slowWatch (.start slowWatch oneCell) h s ∧ s.closed = false ∧
      s.stats.scheduled = 3 ∧ s.stats.evaluated = 1 ∧ s.stats.stale = 1 ∧
      s.unsettled = [.evaluation 2] ∧
      s.stats.scheduled + allRowsReports h =
        s.stats.coalesced + s.stats.evaluated + s.stats.stale + s.stats.cancelled + s.stats.errors +
          s.unsettled.length := by
  have hrecord : ((State.start slowWatch oneCell).record? slowWatch
      (overlappingEdits ++ [.edit 0 "Code", .step (.call 2)])).map
        (fun p => (p.2.closed, p.2.stats.scheduled, p.2.stats.evaluated, p.2.stats.stale,
          p.2.unsettled)) = some (false, 3, 1, 1, [.evaluation 2]) := by
    decide +kernel
  obtain ⟨⟨h, s⟩, hs, heq⟩ := Option.map_eq_some_iff.mp hrecord
  simp only [Prod.mk.injEq] at heq
  obtain ⟨hopen, hscheduled, hevaluated, hstale, hunsettled⟩ := heq
  have run := Run.of_record? hs
  exact ⟨h, s, run, hopen, hscheduled, hevaluated, hstale, hunsettled,
    (evaluations_conserved run hopen).1⟩

end CellRules.Watch
