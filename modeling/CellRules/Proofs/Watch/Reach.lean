/-
CellRules.Proofs.Watch.Reach — how far one edit reaches.

An edit reaches the edited cell, the cells of its row whose rules read it, and after each of them the
cells of other rows that it concerns. Those of other rows are found when the cell of the edited row
is reported, by the cells that are flagged THEN; and yet the edit and the state in which it was told
settle which they are (`State.reached`): nothing that the edit reaches in a column is reported
before the cell of the edited row is (`Reaching.perm_trail`).

For each cell that is reached three things are done: it is asked for, the grid is read, its report is
delivered (`Deed`). In every state, what was done and what is still owed is a permutation of all
cells that are reached (`Reaching.balance`), whoever takes the steps and in whatever order.
-/
import CellRules.Proofs.RuleSet.Batches
import CellRules.Proofs.Watch.Conserved
import CellRules.Proofs.Watch.FanOut
import CellRules.Proofs.Watch.InTurn

namespace CellRules.Watch

/-- What is done for a cell that an edit reaches. -/
inductive Deed where
  | ask
  | look
  | report
  deriving DecidableEq, Repr

/-- The cell for which something is done. Who judges at once asks for a cell by reading it. -/
def Happening.deed? : Deed → Happening → Option CellKey
  | .ask, .asked _ key _ _ => some key
  | .ask, .read (.call _) key => some key
  | .look, .read _ key => some key
  | .report, .reported _ key _ => some key
  | _, _ => none

/-- The cells for which something was done, in order. -/
def deeds (d : Deed) (h : List Happening) : List CellKey := h.filterMap (·.deed? d)

/-- The edited columns on whose account cells of other rows follow a cell, after an edit in a row:
only the cells of that row are followed. -/
def editedAt (row : Nat) (column : String) (key : CellKey) : List String :=
  if key.row = row then [column] else []

namespace State

/-- The cells of other rows that follow a cell once it is reported, after an edit told in `s`. -/
def trail (u : Setup) (s : State) (row : Nat) (column : String) (key : CellKey) : List CellKey :=
  match (s.judging u key).answer with
  | .ok (report, rows) => (s.deliver u report).peers u key (editedAt row column key) rows
  | .error _ => []

/-- All cells that an edit told in `s` reaches. -/
def reached (u : Setup) (s : State) (row : Nat) (column : String) : List CellKey :=
  (u.editTargets column).flatMap fun c => ⟨row, c⟩ :: s.trail u row column ⟨row, c⟩

/-- The verdict on a cell, as it is delivered. -/
def deliveryOn? (u : Setup) (s : State) (key : CellKey) : Option Delivery :=
  match (s.judging u key).answer with
  | .ok (report, _) => some ⟨report.row, report.column, report.verdict⟩
  | .error _ => none

end State

variable {u : Setup} {s s' s₀ t₀ : State} {h : List Happening} {x : Option Happening}
  {key other : CellKey} {row : Nat} {column : String} {edited : List String} {rows : Dataset}
  {report : CellReport}

theorem deeds_append (d : Deed) (h h' : List Happening) :
    deeds d (h ++ h') = deeds d h ++ deeds d h' :=
  List.filterMap_append

/-- As many evaluations were asked for as cells. -/
theorem length_requests (h : List Happening) : (requests h).length = (deeds .ask h).length := by
  induction h with
  | nil => rfl
  | cons y h ih =>
    rw [requests, deeds, List.filterMap_cons, List.filterMap_cons]
    cases y with
    | asked => exact congrArg (· + 1) ih
    | read reader key =>
      cases reader with
      | call id => exact congrArg (· + 1) ih
      | _ => exact ih
    | _ => exact ih

/-! ## Peers -/

namespace State

theorem nodup_peers (key : CellKey) (edited : List String) (rows : Dataset) :
    (s.peers u key edited rows).Nodup := by
  have hrows : ((s.peerRows u key edited rows).filter (· < (s.source u).rowCount)).Nodup :=
    (((Ascending.pairwise_ofList _).filter _).filter _).imp fun hlt => Nat.ne_of_lt hlt
  exact hrows.map fun _ _ heq => congrArg CellKey.row heq

theorem peers_nil (u : Setup) (s : State) (key : CellKey) (rows : Dataset) :
    s.peers u key [] rows = [] := rfl

/-- The cells that an edit concerns depend on the grid, and on the flagged cells of the column. -/
theorem perm_peers (hgrid : s'.grid = s.grid)
    (hflagged : ∀ row, (⟨row, key.column⟩ : CellKey) ∈ s'.flagged ↔
      (⟨row, key.column⟩ : CellKey) ∈ s.flagged) :
    (s'.peers u key edited rows).Perm (s.peers u key edited rows) := by
  refine (List.perm_ext_iff_of_nodup (nodup_peers _ _ _) (nodup_peers _ _ _)).mpr ?_
  rintro ⟨row, target⟩
  by_cases hcolumn : target = key.column
  · subst hcolumn
    rw [mem_peers, mem_peers, source, source, hgrid]
    simp only [hflagged]
  · have hnot : ∀ s : State, (⟨row, target⟩ : CellKey) ∉ s.peers u key edited rows :=
      fun s hmem => hcolumn (exists_of_mem_peers hmem).1
    exact iff_of_false (hnot s') (hnot s)

end State

/-! ## The cells that are reached -/

/-- The columns that an edit concerns are listed once. -/
theorem Setup.nodup_editTargets (u : Setup) (column : String) : (u.editTargets column).Nodup := by
  have hdependents : (u.ruleSet.dependents column).Nodup :=
    (Ascending.pairwise_ofList _).imp fun hlt => ne_of_lt hlt
  have hother : column ∉ u.ruleSet.dependents column := by
    rw [RuleSet.dependents, Ascending.mem_ofList, List.mem_filter]
    simp
  exact (List.nodup_cons.mpr ⟨hother, hdependents⟩).filter _

namespace State

theorem judging_congr (hgrid : s'.grid = s.grid) (key : CellKey) :
    s'.judging u key = s.judging u key := by
  rw [judging, judging, source, source, hgrid]

theorem trail_of_ok (hanswer : (s.judging u key).answer = .ok (report, rows)) :
    s.trail u row column key
      = (s.deliver u report).peers u key (editedAt row column key) rows := by
  rw [trail, hanswer]

/-- The cells that follow a cell are in its column, in other rows than the edited one. -/
theorem of_mem_trail (h : other ∈ s.trail u row column key) :
    other.column = key.column ∧ other.row ≠ row ∧ key.row = row := by
  unfold trail at h
  split at h
  · obtain ⟨hcolumn, hne, c, hc, -⟩ := exists_of_mem_peers h
    unfold editedAt at hc
    split at hc
    · rename_i hrow
      exact ⟨hcolumn, hrow ▸ hne, hrow⟩
    · cases hc
  · cases h

/-- No cells follow those of other rows. -/
theorem trail_of_ne (hrow : key.row ≠ row) : s.trail u row column key = [] :=
  List.eq_nil_iff_forall_not_mem.mpr fun _ hmem => hrow (of_mem_trail hmem).2.2

theorem nodup_trail : (s.trail u row column key).Nodup := by
  unfold trail
  split
  · exact nodup_peers _ _ _
  · exact .nil

/-- The cells that follow a cell of the edited row, those flagged being the same in its column. -/
theorem perm_trail (hgrid : s'.grid = s.grid)
    (hflagged : ∀ row, (⟨row, key.column⟩ : CellKey) ∈ s'.flagged ↔
      (⟨row, key.column⟩ : CellKey) ∈ s.flagged) :
    (s'.trail u row column key).Perm (s.trail u row column key) := by
  unfold trail
  rw [judging_congr hgrid]
  split
  · rename_i report rows _
    refine perm_peers hgrid fun r => ?_
    change _ ∈ flagWith _ _ s'.flagged ↔ _ ∈ flagWith _ _ s.flagged
    rw [mem_flagWith, mem_flagWith, hflagged]
  · exact .nil

theorem mem_reached :
    key ∈ s.reached u row column ↔
      ∃ c ∈ u.editTargets column, key = ⟨row, c⟩ ∨ key ∈ s.trail u row column ⟨row, c⟩ := by
  simp only [reached, List.mem_flatMap, List.mem_cons]

/-- An edit reaches each cell once. -/
theorem nodup_reached (u : Setup) (s : State) (row : Nat) (column : String) :
    (s.reached u row column).Nodup := by
  have hcolumn : ∀ {c : String} {key : CellKey},
      key ∈ (⟨row, c⟩ : CellKey) :: s.trail u row column ⟨row, c⟩ → key.column = c := by
    intro c key hmem
    rcases List.mem_cons.mp hmem with rfl | hmem
    · rfl
    · exact (of_mem_trail hmem).1
  refine List.nodup_flatMap.mpr ⟨fun c _ => List.nodup_cons.mpr ⟨?_, nodup_trail⟩, ?_⟩
  · exact fun hmem => (of_mem_trail hmem).2.1 rfl
  · exact (u.nodup_editTargets column).imp fun hne key hmem hmem' =>
      hne ((hcolumn hmem).symm.trans (hcolumn hmem'))

/-- What is reached in a column is the cell of the edited row and those that follow it. -/
theorem mem_trail_of_reached (hkey : key ∈ s.reached u row column) (hrow : key.row = row)
    (hother : other ∈ s.reached u row column) (hcolumn : other.column = key.column) :
    other ∈ key :: s.trail u row column key := by
  obtain ⟨c, -, hkey⟩ := mem_reached.mp hkey
  obtain ⟨c', -, hother⟩ := mem_reached.mp hother
  obtain rfl : key = ⟨row, c⟩ := hkey.resolve_right fun hmem => (of_mem_trail hmem).2.1 hrow
  have hsame : other.column = c' := by
    rcases hother with rfl | hmem
    · rfl
    · exact (of_mem_trail hmem).1
  obtain rfl : c' = c := hsame.symm.trans hcolumn
  exact List.mem_cons.mpr hother

/-- An edit reaches the same cells from every state with the same grid and the same cells flagged. -/
theorem perm_reached (hgrid : s'.grid = s.grid) (hflagged : ∀ key, key ∈ s'.flagged ↔ key ∈ s.flagged) :
    (s'.reached u row column).Perm (s.reached u row column) :=
  List.Perm.flatMap_left _ fun _ _ => (perm_trail hgrid fun _ => hflagged _).cons _

end State

/-! ## The pace does not matter -/

/-- The same watch at another pace. -/
def Setup.throttled (u : Setup) (t : Throttle) : Setup :=
  { u with ruleSet := { u.ruleSet with throttle := t } }

namespace State

theorem judging_throttled (u : Setup) (t : Throttle) (s : State) (key : CellKey) :
    s.judging (u.throttled t) key = s.judging u key :=
  u.ruleSet.evaluateCellAmong_throttle t _ _ _

theorem trail_throttled (u : Setup) (t : Throttle) (s : State) (row : Nat) (column : String)
    (key : CellKey) : s.trail (u.throttled t) row column key = s.trail u row column key := by
  unfold trail
  rw [judging_throttled]
  rfl

theorem reached_throttled (u : Setup) (t : Throttle) (s : State) (row : Nat) (column : String) :
    s.reached (u.throttled t) row column = s.reached u row column := by
  unfold reached
  simp only [trail_throttled]
  rfl

theorem deliveryOn?_throttled (u : Setup) (t : Throttle) (s : State) (key : CellKey) :
    s.deliveryOn? (u.throttled t) key = s.deliveryOn? u key := by
  rw [deliveryOn?, deliveryOn?, judging_throttled]

end State

/-! ## What is owed -/

/-- The cells for which something is still owed by an evaluation at this stage. -/
def Stage.owes (d : Deed) (key : CellKey) (trail : List CellKey) : Stage → List CellKey
  | .spreading keys => keys
  | .running _ _ | .settled _ _ => if d = .report then key :: trail else trail
  | _ => if d = .ask then trail else key :: trail

/-- One that is told to stop owes nothing. -/
def Evaluation.owes (trail : CellKey → List CellKey) (d : Deed) (e : Evaluation) : List CellKey :=
  if e.cancelled then [] else e.stage.owes d e.key (trail e.key)

/-- The cells for which something is still owed by a call that tells of an edit. -/
def CallStage.owes (trail : CellKey → List CellKey) (d : Deed) : CallStage → List CellKey
  | .editing _ todo none => todo.flatMap fun job => job.key :: trail job.key
  | .editing _ todo (some (job, _)) =>
    (if d = .report then job.key :: trail job.key else trail job.key) ++
      todo.flatMap fun job => job.key :: trail job.key
  | _ => []

/-- The cells for which something is still owed. -/
def State.owes (trail : CellKey → List CellKey) (d : Deed) (s : State) : List CellKey :=
  s.evaluations.flatMap (·.owes trail d) ++ s.calls.flatMap (·.stage.owes trail d)

variable {trail : CellKey → List CellKey} {d : Deed} {e : Evaluation} {c : Call} {l : List CellKey}

namespace State

theorem owes_congr (hevaluations : s'.evaluations = s.evaluations) (hcalls : s'.calls = s.calls) :
    s'.owes trail d = s.owes trail d := by
  rw [owes, owes, hevaluations, hcalls]

namespace Orderly

variable (ho : s.Orderly) (he : e ∈ s.evaluations)

include ho he

variable (trail d) in
/-- What is owed is owed by the evaluation or by the others. -/
theorem owes_drop :
    (s.owes trail d).Perm (e.owes trail d ++ (s.dropEvaluation e).owes trail d) := by
  rw [State.owes, State.owes, ← List.append_assoc, ← List.flatMap_cons]
  exact ((perm_cons_filter ho.nodup he).flatMap_right _).append_right _

variable (trail d) in
theorem owes_setStage (stage : Stage) :
    ((s.setStage e stage).owes trail d).Perm
      (({ e with stage } : Evaluation).owes trail d ++ (s.dropEvaluation e).owes trail d) := by
  rw [State.owes, State.owes, ← List.append_assoc, ← List.flatMap_cons]
  exact ((perm_cons_replace ho.nodup he { e with stage }).flatMap_right _).append_right _

/-- An evaluation does for some cells what it owes, and moves on. -/
theorem owes_moved {stage : Stage}
    (hpaid : (l ++ ({ e with stage } : Evaluation).owes trail d).Perm (e.owes trail d)) :
    (l ++ (s.setStage e stage).owes trail d).Perm (s.owes trail d) := by
  refine ((ho.owes_setStage trail d he stage).append_left l).trans ?_
  rw [← List.append_assoc]
  exact (hpaid.append_right _).trans (ho.owes_drop trail d he).symm

/-- An evaluation that owes nothing goes. -/
theorem owes_dropped (hnothing : e.owes trail d = []) :
    ((s.dropEvaluation e).owes trail d).Perm (s.owes trail d) := by
  have hleft := ho.owes_drop trail d he
  rw [hnothing, List.nil_append] at hleft
  exact hleft.symm

end Orderly

/-- A call does for some cells what it owes, and moves on. -/
theorem Numbered.owes_goTo (hn : s.Numbered) (hc : c ∈ s.calls) {stage : CallStage}
    (hpaid : (l ++ stage.owes trail d).Perm (c.stage.owes trail d)) :
    (l ++ (Call.goTo s c stage).owes trail d).Perm (s.owes trail d) := by
  have hids : (s.calls.map (·.id)).Nodup := by
    rw [show s.calls.map (·.id) = List.range s.nextCall from hn]
    exact List.nodup_range
  have hbefore := (perm_cons_filter hids hc).flatMap_right (·.stage.owes trail d)
  have hafter := (perm_cons_replace hids hc { c with stage }).flatMap_right (·.stage.owes trail d)
  rw [List.flatMap_cons] at hbefore hafter
  have hcalls : (l ++ (Call.goTo s c stage).calls.flatMap (·.stage.owes trail d)).Perm
      (s.calls.flatMap (·.stage.owes trail d)) := by
    refine (hafter.append_left l).trans ?_
    rw [← List.append_assoc]
    exact (hpaid.append_right _).trans hbefore.symm
  unfold State.owes
  refine List.perm_append_comm_assoc _ _ _ |>.trans ?_
  exact hcalls.append_left _

/-- Who asks for a cell of which no evaluation is entered tells nobody to stop. -/
theorem evaluations_schedule (hopen : s.closed = false) (hfree : s.ledger.find? key = none)
    (fanOut : List String) :
    (s.schedule u key fanOut).evaluations =
      s.evaluations ++ [({ generation := s.nextGeneration, key } : Evaluation)] := by
  have hnone : s.ledger.current? key = none := by rw [Ledger.current?, hfree]; rfl
  have hsame : s.evaluations.map (s.superseded u key) = s.evaluations :=
    List.map_id'' (fun e => by simp [superseded, stops, hnone]) _
  rw [(schedule_alike hopen key fanOut).evaluations, asking, hsame]

variable (trail d) in
/-- Who asks for such a cell owes it everything else. -/
theorem owes_schedule (hopen : s.closed = false) (hfree : s.ledger.find? key = none)
    (fanOut : List String) :
    ((s.schedule u key fanOut).owes trail d).Perm
      ((if d = .ask then trail key else key :: trail key) ++ s.owes trail d) := by
  rw [owes, evaluations_schedule hopen hfree, (schedule_alike hopen key fanOut).calls,
    List.flatMap_append, List.append_assoc, List.flatMap_singleton]
  exact List.perm_append_comm_assoc _ _ _

/-- Nothing is owed by evaluations that are told to stop and by calls that are over. -/
theorem owes_of_idle (hevaluations : ∀ e ∈ s.evaluations, e.cancelled = true)
    (hcalls : ∀ c ∈ s.calls, c.stage.over = true) : s.owes trail d = [] := by
  have hover : ∀ stage : CallStage, stage.over = true → stage.owes trail d = [] := by
    rintro ⟨⟩ h <;> first | rfl | cases h
  rw [owes, List.append_eq_nil_iff, List.flatMap_eq_nil_iff, List.flatMap_eq_nil_iff]
  exact ⟨fun e he => if_pos (hevaluations e he), fun c hc => hover _ (hcalls c hc)⟩

end State

/-! ## An edit on its way -/

/-- An edit that was told in `s₀` is on its way, and `h` was seen since: nobody wrote to the grid,
what was done and what is owed are all cells that it reaches, other columns are flagged as before,
and the verdicts delivered are those on the cells that were reported. -/
structure Reaching (u : Setup) (s₀ : State) (row : Nat) (column : String) (h : List Happening)
    (s : State) : Prop where
  grid : s.grid = s₀.grid
  balance : ∀ d,
    (deeds d h ++ s.owes (s₀.trail u row column) d).Perm (s₀.reached u row column)
  flagged : ∀ key, (∀ k ∈ deeds .report h, k.column ≠ key.column) →
    (key ∈ s.flagged ↔ key ∈ s₀.flagged)
  delivered : s.sink.deliveries.map some =
    s₀.sink.deliveries.map some ++ (deeds .report h).map (s₀.deliveryOn? u)

namespace Reaching

variable (hr : Reaching u s₀ row column h s)

include hr

/-- What is done is no longer owed. -/
theorem balance_step
    (hpaid : (deeds d x.toList ++ s'.owes (s₀.trail u row column) d).Perm
      (s.owes (s₀.trail u row column) d)) :
    (deeds d (h ++ x.toList) ++ s'.owes (s₀.trail u row column) d).Perm
      (s₀.reached u row column) := by
  rw [deeds_append, List.append_assoc]
  exact (hpaid.append_left _).trans (hr.balance d)

/-- Something is done, but nothing is reported. -/
theorem goes (hgrid : s'.grid = s.grid) (hflagged : s'.flagged = s.flagged)
    (hdeliveries : s'.deliveries = s.deliveries) (hquiet : deeds .report x.toList = [])
    (hpaid : ∀ d, (deeds d x.toList ++ s'.owes (s₀.trail u row column) d).Perm
      (s.owes (s₀.trail u row column) d)) : Reaching u s₀ row column (h ++ x.toList) s' where
  grid := hgrid.trans hr.grid
  balance d := hr.balance_step (hpaid d)
  flagged key hnone := by
    rw [deeds_append, hquiet, List.append_nil] at hnone
    rw [hflagged]
    exact hr.flagged key hnone
  delivered := by
    rw [deeds_append, hquiet, List.append_nil, State.sink, hdeliveries]
    exact hr.delivered

/-- Time passes, slots change hands, or something is counted. -/
theorem still (hs : s'.Alike s) : Reaching u s₀ row column h s' := by
  have hgoes := hr.goes (x := none) hs.grid hs.flagged hs.deliveries rfl fun d => ?_
  · simpa using hgoes
  · rw [State.owes_congr hs.evaluations hs.calls]
    exact .refl _

/-- A call that has nothing to do any more answers. -/
theorem answers {edited : String} (hn : s.Numbered) (hc : c ∈ s.calls)
    (hstage : c.stage = .editing edited [] none)
    (hs : s'.Alike (Call.goTo s c (.edited (.ok ())))) : Reaching u s₀ row column h s' := by
  have hgoes := hr.goes (x := none) hs.grid hs.flagged hs.deliveries rfl fun d => ?_
  · simpa using hgoes
  · rw [State.owes_congr hs.evaluations hs.calls]
    exact hn.owes_goTo hc (by rw [hstage]; exact .refl _)

/-- A cell is reported. -/
theorem reports {task : Task} {v : Verdict}
    (hanswer : (s₀.judging u key).answer = .ok (report, rows)) (hgrid : s'.grid = s.grid)
    (hflagged : s'.flagged = (s.deliver u report).flagged)
    (hdeliveries : s'.deliveries = (s.deliver u report).deliveries)
    (hpaid : ∀ d, (deeds d [.reported task key v] ++ s'.owes (s₀.trail u row column) d).Perm
      (s.owes (s₀.trail u row column) d)) :
    Reaching u s₀ row column (h ++ [.reported task key v]) s' where
  grid := hgrid.trans hr.grid
  balance d := hr.balance_step (x := some (.reported task key v)) (hpaid d)
  flagged k hnone := by
    rw [deeds_append, List.forall_mem_append] at hnone
    obtain ⟨hbefore, hnow⟩ := hnone
    have hother : k ≠ ⟨report.row, report.column⟩ := by
      rintro rfl
      exact hnow key (List.mem_singleton.mpr rfl) (RuleSet.key_of_judging hanswer).1.symm
    rw [hflagged]
    change k ∈ State.flagWith _ _ s.flagged ↔ _
    rw [State.mem_flagWith, if_neg hother]
    exact hr.flagged k hbefore
  delivered := by
    have hsink : s'.sink.deliveries
        = s.sink.deliveries ++ [⟨report.row, report.column, report.verdict⟩] := by
      rw [State.sink, hdeliveries]
      simp [State.sink]
    have hdelivery : s₀.deliveryOn? u key
        = some ⟨report.row, report.column, report.verdict⟩ := by
      rw [State.deliveryOn?, hanswer]
    rw [hsink, List.map_append, hr.delivered, deeds_append, List.map_append, List.append_assoc]
    exact congrArg _ (congrArg _ (congrArg (· :: []) hdelivery.symm))

/-- What is still to be asked for was not asked for. -/
theorem not_asked (howed : key ∈ s.owes (s₀.trail u row column) .ask) : key ∉ deeds .ask h := by
  have hnodup := (hr.balance .ask).nodup_iff.mpr (State.nodup_reached u s₀ row column)
  exact fun hmem => (List.nodup_append.mp hnodup).2.2 key hmem key howed rfl

/-- The cells that follow a cell when it is reported are those that follow it from the start: until
then nothing that the edit reaches in its column was reported. -/
theorem perm_trail
    (howed : ∀ k ∈ key :: s₀.trail u row column key, k ∈ s.owes (s₀.trail u row column) .report)
    (hanswer : (s₀.judging u key).answer = .ok (report, rows)) :
    ((s.deliver u report).peers u key (editedAt row column key) rows).Perm
      (s₀.trail u row column key) := by
  have hanswer' : (s.judging u key).answer = .ok (report, rows) := by
    rw [State.judging_congr hr.grid, hanswer]
  rw [← State.trail_of_ok hanswer']
  by_cases hrow : key.row = row
  · have hnodup := (hr.balance .report).nodup_iff.mpr (State.nodup_reached u s₀ row column)
    have hreached : ∀ k, k ∈ deeds .report h ∨ k ∈ s.owes (s₀.trail u row column) .report →
        k ∈ s₀.reached u row column := fun k hk =>
      (hr.balance .report).mem_iff.mp (List.mem_append.mpr hk)
    refine State.perm_trail hr.grid fun r => hr.flagged _ fun k hk hcolumn => ?_
    have hlate := State.mem_trail_of_reached (hreached key (.inr (howed key (by simp)))) hrow
      (hreached k (.inl hk)) hcolumn
    exact (List.nodup_append.mp hnodup).2.2 k hk k (howed k hlate) rfl
  · rw [State.trail_of_ne hrow, State.trail_of_ne hrow]

/-- When nothing is owed any more, everything was done once for each cell that the edit reaches. -/
theorem perm_deeds (hdone : ∀ d, s.owes (s₀.trail u row column) d = []) (d : Deed) :
    (deeds d h).Perm (s₀.reached u row column) := by
  have hbalance := hr.balance d
  rwa [hdone, List.append_nil] at hbalance

end Reaching

/-- A call that has its answer takes no step, and one that tells of an edit answers, unless it judges
cells or asks for them. -/
theorem CallCourse.answers (hcourse : CallCourse u s c x s')
    (hstage : c.stage.over = true ∨ c.stage.telling = true) :
    x = none ∧ (∃ edited, c.stage = .editing edited [] none) ∧
      s'.Alike (Call.goTo s c (.edited (.ok ()))) := by
  cases hcourse with
  | told hat hs => exact ⟨rfl, ⟨_, hat⟩, hs⟩
  | refuse hwhy _ =>
    rcases hwhy with ⟨hat, -⟩ | ⟨_, hat, -⟩ | ⟨_, hat, -⟩ <;>
      (rw [hat] at hstage; rcases hstage with h | h <;> cases h)
  | survey hat | look hat | found hat | strand hat | judged hat | deliver hat | conclude hat =>
    rw [hat] at hstage
    rcases hstage with h | h <;> cases h

/-! ## Edits that stay alone -/

/-- It comes from someone outside. -/
def Happening.fromOutside : Happening → Bool
  | .wrote _ _ | .pushed | .told _ _ _ | .calledAll _ | .closed => true
  | _ => false

/-- The watch is open, no cell is pending, and every call has its answer. -/
structure State.Idle (s : State) : Prop where
  isOpen : s.closed = false
  pending : s.ledger.isEmpty = true
  answered : ∀ c ∈ s.calls, c.stage.over = true

instance : DecidablePred State.Idle := fun s =>
  decidable_of_iff (s.closed = false ∧ s.ledger.isEmpty = true ∧ ∀ c ∈ s.calls, c.stage.over = true)
    ⟨fun ⟨hopen, hpending, hover⟩ => ⟨hopen, hpending, hover⟩,
      fun ⟨hopen, hpending, hover⟩ => ⟨hopen, hpending, hover⟩⟩

/-- An idle watch takes note of an edit. -/
theorem State.Idle.tells (hidle : s.Idle) (u : Setup) (row : Nat) (column : String) :
    Step u s (some (.told s.nextCall row column)) (s.tellEdit u row column) :=
  ⟨.edit row column, rfl, by simp [seen, hidle.isOpen]⟩

/-- An idle watch over a grid is told of an edit in `s₀`, and nothing else comes from outside until
it is idle again. Every cell that is read in the meantime is judged without a problem. -/
structure EditAlone (u : Setup) (grid : Grid) (row : Nat) (column : String) (s₀ : State)
    (h : List Happening) (s : State) : Prop where
  before : ∃ h₀, Run u (.start u grid) h₀ s₀
  idle : s₀.Idle
  editing : Run u (s₀.tellEdit u row column) h s
  alone : ∀ y ∈ h, y.fromOutside = false
  judged : ∀ key ∈ deeds .look h, ∃ report rows, (s₀.judging u key).answer = .ok (report, rows)
  rest : s.Idle

/-- Whoever tells of the edit has the cells of the row to come, and all other calls are over. -/
theorem State.Idle.calls (hidle : s.Idle) (hc : c ∈ (s.tellEdit u row column).calls) :
    c.stage.over = true ∨
      c.stage = .editing column ((u.editTargets column).map fun c => ⟨⟨row, c⟩, true⟩) none := by
  simp only [State.tellEdit, hidle.isOpen, Bool.false_eq_true, if_false, State.addCall] at hc
  rcases List.mem_append.mp hc with hc | hc
  · exact .inl (hidle.answered c hc)
  · obtain rfl := List.mem_singleton.mp hc
    exact .inr rfl

/-- A call that has just told of the edit owes all that it reaches, and nobody else owes anything. -/
theorem Reaching.start (hidle : s₀.Idle) (hevaluations : ∀ e ∈ s₀.evaluations, e.cancelled = true) :
    Reaching u s₀ row column [] (s₀.tellEdit u row column) where
  grid := rfl
  balance d := by
    have hjobs : (s₀.tellEdit u row column).owes (s₀.trail u row column) d
        = s₀.owes (s₀.trail u row column) d ++ s₀.reached u row column := by
      simp only [State.tellEdit, hidle.isOpen, Bool.false_eq_true, if_false, State.addCall,
        State.owes, List.flatMap_append, List.append_assoc, List.flatMap_singleton,
        CallStage.owes, List.flatMap_map, State.reached]
    rw [hjobs, State.owes_of_idle hevaluations hidle.answered]
    exact .refl _
  flagged _ _ := .rfl
  delivered := (List.append_nil _).symm

namespace EditAlone

variable {grid : Grid} (hedit : EditAlone u grid row column s₀ h s)

include hedit

/-- The run up to the edit and the telling of it. -/
theorem told : ∃ h₀, Run u (.start u grid) h₀ s₀ ∧
    Run u (.start u grid) (h₀ ++ [.told s₀.nextCall row column]) (s₀.tellEdit u row column) := by
  obtain ⟨h₀, before⟩ := hedit.before
  exact ⟨h₀, before, before.step (hedit.idle.tells u row column)⟩

/-- What holds once the edit is told, and is kept by every move that does not come from outside and
reads only cells that are judged without a problem, holds in the end. -/
theorem induction {motive : List Happening → State → Prop}
    (rest : motive [] (s₀.tellEdit u row column))
    (step : ∀ h₁ h₂ s₁ m s₂, Run u (.start u grid) h₁ s₁ → s₁.closed = false →
      s₂.closed = false → s₁.move? u m = some s₂ →
      (∀ y ∈ (seen s₁ m s₂).toList, y.fromOutside = false) →
      (∀ key ∈ deeds .look (seen s₁ m s₂).toList,
        ∃ report rows, (s₀.judging u key).answer = .ok (report, rows)) →
      motive h₂ s₁ → motive (h₂ ++ (seen s₁ m s₂).toList) s₂) : motive h s := by
  obtain ⟨h₀, -, told⟩ := hedit.told
  obtain ⟨-, -, editing, halone, hjudged, hrest⟩ := hedit
  have hopen := hrest.isOpen
  clear hrest
  induction editing with
  | rest => exact rest
  | @move h s₁ s₂ m hrun hm ih =>
    have hopen₁ := State.open_of_move? hm hopen
    refine step _ h s₁ m s₂ (told.trans hrun) hopen₁ hopen hm
      (fun y hy => halone y (List.mem_append_right _ hy)) (fun key hkey => hjudged key ?_)
      (ih (fun y hy => halone y (List.mem_append_left _ hy)) (fun key hkey => hjudged key ?_) hopen₁)
    · rw [deeds_append]
      exact List.mem_append_right _ hkey
    · rw [deeds_append]
      exact List.mem_append_left _ hkey

/-- What an edit comes to that went its way to the end: the verdicts delivered are those on the cells
that it reaches, everything was done once for each of them, and the counters say how many they are. -/
theorem outcome (hr : Reaching u s₀ row column h s)
    (hdone : ∀ d, s.owes (s₀.trail u row column) d = []) :
    (∃ new, s.sink.deliveries = s₀.sink.deliveries ++ new ∧
        (new.map some).Perm ((s₀.reached u row column).map (s₀.deliveryOn? u))) ∧
      (∀ d, (deeds d h).Perm (s₀.reached u row column)) ∧
      s.stats.scheduled = s₀.stats.scheduled + (s₀.reached u row column).length ∧
      s.stats.evaluated = s₀.stats.evaluated + (s₀.reached u row column).length := by
  obtain ⟨h₀, before, told⟩ := hedit.told
  obtain ⟨-, hidle, editing, -, -, hrest⟩ := hedit
  have hdeeds := hr.perm_deeds hdone
  obtain ⟨old, new, hsink, hold, hnew⟩ := List.map_eq_append_iff.mp hr.delivered
  obtain rfl : old = s₀.sink.deliveries :=
    List.map_injective_iff.mpr (fun _ _ => Option.some.inj) hold
  have hreported : new.length = (s₀.reached u row column).length := by
    rw [← (hdeeds .report).length_eq, ← List.length_map some, hnew, List.length_map]
  refine ⟨⟨new, hsink, hnew ▸ (hdeeds .report).map _⟩, hdeeds, ?_, ?_⟩
  · obtain ⟨-, _, hbefore⟩ := before.booked hidle.isOpen
    obtain ⟨-, _, hafter⟩ := (told.trans editing).booked hrest.isOpen
    have hasked := (length_requests h).trans (hdeeds .ask).length_eq
    have hrequests : (requests (h₀ ++ [.told s₀.nextCall row column] ++ h)).length
        = (requests h₀).length + (requests h).length := by
      simp [requests, List.filterMap_cons, Happening.request?]
    have hcounted := hafter.scheduled
    rw [hrequests, hasked, ← Nat.add_assoc, ← hbefore.scheduled] at hcounted
    exact hcounted
  · have hcounted := editing.evaluated
    have hlength := congrArg List.length hsink
    rw [State.sink, State.sink, List.length_append, List.length_map, List.length_map,
      hreported] at hlength
    change s.stats.evaluated + s₀.deliveries.length
      = s₀.stats.evaluated + s.deliveries.length at hcounted
    omega

end EditAlone

end CellRules.Watch
