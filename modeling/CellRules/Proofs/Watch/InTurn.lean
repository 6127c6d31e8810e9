/-
CellRules.Proofs.Watch.InTurn — edits told one after the other, and judged at once.

Where edited cells are judged at once, whoever tells of an edit waits until the edited cell, its
dependents and the peers of each are judged. If nobody writes or calls in the meantime (`InTurn`), a
cell is at every moment fresh, or it has a job to come, or it waits for the edited cell of its column
to be judged, whose peers follow (`Underway.cells`). A step keeps that (`Underway.judged`), and when
the call has its answer there are no jobs left.

`settled_in_turn` puts it together: after all rows were judged and any number of edits, each told of
in the end, the latest verdict on every cell is the one that its rules give on the grid as it is.
-/
import CellRules.Proofs.Watch.AtRest
import CellRules.Proofs.Watch.Fresh
import CellRules.Proofs.Watch.Prompt
import CellRules.Proofs.Watch.Spread

namespace CellRules.Watch

/-- The call has its answer. -/
def CallStage.over : CallStage → Bool
  | .edited _ | .reported _ => true
  | _ => false

/-- The move is made by someone outside. -/
def Move.isOutside : Move → Bool
  | .step _ | .takeSlot _ | .pass _ => false
  | _ => true

/-- The move neither adds rows nor closes the watch. -/
def Move.inPlace : Move → Bool
  | .pushRow _ | .shutDown => false
  | _ => true

/-- Moves of which those from outside are made in turn: whoever calls has the answer before anything
else comes from outside. -/
inductive InTurn (u : Setup) (s : State) : List Move → State → Prop
  | rest : InTurn u s [] s
  | move {ms : List Move} {s' s'' : State} (m : Move) (before : InTurn u s ms s')
      (turn : m.isOutside = true → ∀ c ∈ s'.calls, c.stage.over = true)
      (step : s'.move? u m = some s'') : InTurn u s (ms ++ [m]) s''

/-- What some moves lead to, if they are made in turn and each is possible. -/
def State.takeTurns? (u : Setup) (s : State) : List Move → Option State
  | [] => some s
  | m :: ms =>
    if m.isOutside && !s.calls.all (·.stage.over) then none
    else (s.move? u m).bind fun s' => s'.takeTurns? u ms

/-- The cell was written and nobody has told of it since. -/
def Untold (ms : List Move) (row : Nat) (column : String) : Prop :=
  ∃ k cell k', ms = k ++ .setCell row column cell :: k' ∧ .edit row column ∉ k'

/-- The cell is one of the grid, and it is judged. -/
def Judged (u : Setup) (s : State) (key : CellKey) : Prop :=
  key.row < s.grid.rows.length ∧ key.column ∈ u.ruleSet.targets

variable {u : Setup} {grid : Grid} {s s₀ s' : State} {c : Call} {m : Move} {ms ms₀ : List Move}
  {untold : Nat → String → Prop} {row : Nat} {column edited : String} {cell : Cell}
  {job : Job} {jobs todo : List Job} {key : CellKey} {report : CellReport} {rows : Dataset}

theorem InTurn.of_takeTurns? (run : InTurn u s₀ ms₀ s) (h : s.takeTurns? u ms = some s') :
    InTurn u s₀ (ms₀ ++ ms) s' := by
  induction ms generalizing ms₀ s with
  | nil =>
    obtain rfl := Option.some.inj h
    rwa [List.append_nil]
  | cons m ms ih =>
    rw [State.takeTurns?] at h
    split at h
    · cases h
    · rename_i hturn
      obtain ⟨s₁, hstep, hrest⟩ := Option.bind_eq_some_iff.mp h
      have hnext := ih (run.move m (fun hm c hc => ?_) hstep) hrest
      · rwa [List.append_assoc] at hnext
      · have hall : s.calls.all (·.stage.over) = true := by simpa [hm] using hturn
        exact List.all_eq_true.mp hall c hc

theorem not_untold_nil : ¬Untold [] row column := by
  rintro ⟨k, cell, k', h, -⟩
  simp at h

/-- The first of some moves is an untold write, or one of the others is. -/
theorem untold_cons : Untold (m :: ms) row column ↔
    (∃ cell, m = .setCell row column cell ∧ .edit row column ∉ ms) ∨ Untold ms row column := by
  constructor
  · rintro ⟨k, cell, k', h, hnot⟩
    cases k with
    | nil =>
      obtain ⟨rfl, rfl⟩ := List.cons.inj h
      exact .inl ⟨cell, rfl, hnot⟩
    | cons m k =>
      obtain ⟨rfl, rfl⟩ := List.cons.inj h
      exact .inr ⟨k, cell, k', rfl, hnot⟩
  · rintro (⟨cell, rfl, hnot⟩ | ⟨k, cell, k', rfl, hnot⟩)
    · exact ⟨[], cell, ms, rfl, hnot⟩
    · exact ⟨m :: k, cell, k', rfl, hnot⟩

/-- A write is untold until someone tells of it. -/
theorem untold_concat : Untold (ms ++ [m]) row column ↔
    (∃ cell, m = .setCell row column cell) ∨ (Untold ms row column ∧ m ≠ .edit row column) := by
  constructor
  · rintro ⟨k, cell, k', h, hnot⟩
    rcases List.eq_nil_or_concat k' with rfl | ⟨k'', last, rfl⟩
    · obtain ⟨-, hm⟩ := List.append_inj' h rfl
      exact .inl ⟨cell, by simpa using hm⟩
    · rw [List.concat_eq_append, ← List.cons_append, ← List.append_assoc] at h
      obtain ⟨rfl, hm⟩ := List.append_inj' h rfl
      obtain rfl : m = last := by simpa using hm
      rw [List.concat_eq_append, List.mem_append, not_or] at hnot
      exact .inr ⟨⟨k, cell, k'', rfl, hnot.1⟩, fun heq => hnot.2 (by simp [heq])⟩
  · rintro (⟨cell, rfl⟩ | ⟨⟨k, cell, k', rfl, hnot⟩, hm⟩)
    · exact ⟨ms, cell, [], rfl, nofun⟩
    · refine ⟨k, cell, k' ++ [m], by simp, fun hmem => ?_⟩
      rcases List.mem_append.mp hmem with hmem | hmem
      · exact hnot hmem
      · exact hm (List.mem_singleton.mp hmem).symm

theorem untold_concat_of_inside (hm : m.isOutside = false) : Untold (ms ++ [m]) = Untold ms := by
  funext row column
  refine propext (untold_concat.trans ⟨?_, fun h => .inr ⟨h, ?_⟩⟩)
  · rintro (⟨cell, rfl⟩ | ⟨h, -⟩)
    · cases hm
    · exact h
  · rintro rfl
    cases hm

/-! ## Watches that judge at once -/

/-- Edited cells are judged at once, each column by rules that name what they look at, and the grid
has every column that is judged. -/
structure Setup.JudgesAtOnce (u : Setup) (grid : Grid) : Prop where
  atOnce : u.ruleSet.throttle.background = false
  view : u.view = Grid.source
  rules : u.ruleSet.NamesColumns
  regular : grid.Regular
  columns : ∀ column ∈ u.ruleSet.targets, column ∈ grid.columns

/-- The grid has its columns and its number of rows. -/
structure SameShape (grid : Grid) (s : State) : Prop where
  regular : s.grid.Regular
  columns : s.grid.columns = grid.columns
  length : s.grid.rows.length = grid.rows.length

/-- Cells are judged again only in columns that have rules. -/
theorem Setup.mem_targets (h : column ∈ u.editTargets edited) :
    column ∈ u.ruleSet.targets := by
  obtain ⟨r, hr⟩ := List.exists_mem_of_ne_nil (u.ruleSet.rulesFor column)
    (by simpa using (List.mem_filter.mp h).2)
  obtain ⟨hr, happlies⟩ := RuleSet.mem_rulesFor.mp hr
  rw [RuleSet.targets, Ascending.mem_ofList, List.mem_flatMap]
  exact ⟨r, hr, by simpa [Rule.appliesTo] using happlies⟩

/-- The edited column and those whose rules read it are judged again. -/
theorem Setup.mem_editTargets (hcolumn : column ∈ u.ruleSet.targets)
    (h : column = edited ∨ column ∈ u.ruleSet.dependents edited) :
    column ∈ u.editTargets edited := by
  obtain ⟨r, hr⟩ := RuleSet.exists_mem_rulesFor hcolumn
  refine List.mem_filter.mpr ⟨List.mem_cons.mpr h, ?_⟩
  simpa [List.isEmpty_iff] using List.ne_nil_of_mem hr

namespace Setup.JudgesAtOnce

/-- Judging a cell of the grid makes its report, and gives the rows if some rule looks at them. -/
theorem judging (hj : u.JudgesAtOnce grid) (hs : SameShape grid s) (hkey : Judged u s key) :
    ∃ report rows, (s.judging u key).answer = .ok (report, rows) ∧
      u.ruleSet.reportOn s.grid key.row key.column = .ok report ∧
      ((u.ruleSet.rulesFor key.column).any (·.needsRows) = true → rows = ⟨s.grid.contexts⟩) := by
  obtain ⟨report, hreport⟩ := u.ruleSet.reportOn_ok s.grid key.row key.column
  refine ⟨report, if (u.ruleSet.rulesFor key.column).any (·.needsRows) then ⟨s.grid.contexts⟩
    else .empty, ?_, hreport, fun hneeds => if_pos hneeds⟩
  rw [State.judging, State.source, hj.view, u.ruleSet.answer_evaluateCellAmong hs.regular hkey.1
    (hs.columns ▸ hj.columns _ hkey.2), hreport]
  rfl

theorem verdictOn (hj : u.JudgesAtOnce grid) (hs : SameShape grid s) (hkey : Judged u s key) :
    s.verdictOn u key = (u.ruleSet.reportOn s.grid key.row key.column).map (·.verdict) := by
  rw [State.verdictOn, State.source, hj.view, u.ruleSet.answer_evaluateCell hs.regular hkey.1
    (hs.columns ▸ hj.columns _ hkey.2)]

/-- A cell of a row that the grid does not have cannot be judged. -/
theorem not_judged (hj : u.JudgesAtOnce grid) (hcolumn : key.column ∈ u.ruleSet.targets)
    (hrow : s.grid.rows.length ≤ key.row) : (s.judging u key).answer ≠ .ok (report, rows) := by
  intro h
  obtain ⟨r, hr⟩ := RuleSet.exists_mem_rulesFor hcolumn
  rw [State.judging, RuleSet.answer_judging, if_neg (by simpa using List.ne_nil_of_mem hr)] at h
  have hread : RuleSet.readCell (u.ruleSet.rulesFor key.column) (s.source u) key.row key.column
      = .error (.rowOutOfRange key.row s.grid.rows.length) := by
    rw [State.source, hj.view, RuleSet.readCell]
    simp [Grid.source, Grid.row, hrow, bind, Except.bind]
  rw [hread] at h
  cases h

end Setup.JudgesAtOnce

/-! ## A call that tells of an edit -/

/-- The cell is in the edited column of another row. It is out of date at most by the edit of that
row, whose cell is to be judged and spreads. -/
structure Waits (u : Setup) (s : State) (untold : Nat → String → Prop) (row : Nat)
    (edited : String) (jobs : List Job) (key : CellKey) : Prop where
  column : key.column = edited
  other : key.row ≠ row
  inside : row < s.grid.rows.length
  job : ⟨⟨row, edited⟩, true⟩ ∈ jobs
  fresh : Fresh u s (fun r c => untold r c ∨ (r = row ∧ c = edited)) key

/-- Where a call stands that tells of an edit and has these jobs to come: they are jobs of cells that
are judged, in that row and in others of the grid, and every cell is fresh, has a job, or waits. -/
structure Underway (u : Setup) (s : State) (untold : Nat → String → Prop) (row : Nat)
    (edited : String) (jobs : List Job) : Prop where
  columns : ∀ job ∈ jobs, job.key.column ∈ u.ruleSet.targets
  rows : ∀ job ∈ jobs, job.key.row = row ∨
    (row < s.grid.rows.length ∧ job.key.row < s.grid.rows.length)
  cells : ∀ key, Judged u s key → Fresh u s untold key ∨ (∃ job ∈ jobs, job.key = key) ∨
    Waits u s untold row edited jobs key

theorem SameShape.same (h : SameShape grid s) (hgrid : s'.grid = s.grid) : SameShape grid s' :=
  ⟨hgrid ▸ h.regular, hgrid ▸ h.columns, hgrid ▸ h.length⟩

theorem Judged.same (h : Judged u s' key) (hgrid : s'.grid = s.grid) : Judged u s key := by
  rw [Judged, ← hgrid]
  exact h

/-- A cell of the edited column that does not follow the edited cell is not concerned by its edit. -/
theorem Waits.fresh_of_not_peer (hj : u.JudgesAtOnce grid) (hs : SameShape grid s)
    (hflags : s.FlagsFailures) (hkey : Judged u s key) (h : Waits u s untold row edited jobs key)
    (hrows : (u.ruleSet.rulesFor edited).any (·.needsRows) = true → rows = ⟨s.grid.contexts⟩)
    (hnot : key ∉ s.peers u ⟨row, edited⟩ [edited] rows) : Fresh u s untold key := by
  obtain rfl := h.column
  refine h.fresh.unconcerned h.other fun hneeds => ?_
  have hone := hj.rules.oneColumn
  have hcount : key.row < (s.source u).rowCount := by
    rw [State.source, hj.view]
    exact hkey.1
  rw [hrows hneeds] at hnot
  have hwhy : key.row ∉ u.ruleSet.crossRowPeers row key.column key.column ⟨s.grid.contexts⟩ ∧
      key ∉ s.flagged := by
    rw [← not_or]
    exact fun hwhy => hnot (State.mem_peers.mpr ⟨h.other, hcount, key.column, by simp,
      hone.mem_crossRowTargets hneeds, hwhy⟩)
  refine ⟨fun v hv => ?_, fun htext hsame => hwhy.1 ?_⟩
  · by_contra hfails
    exact hwhy.2 ((hflags key).mpr ⟨v, hv, by simpa [Verdict.fails] using hfails⟩)
  · exact hone.mem_crossRowPeers hs.regular hneeds h.inside hkey.1 h.other (hsame ▸ htext)
      hsame.symm

/-- The cells that follow a judged one are in rows of the grid and in the column of that one. -/
theorem State.mem_followers (hview : u.view = Grid.source) {job' : Job}
    (h : job' ∈ s.followers u job edited rows) :
    job'.key.column = job.key.column ∧ job'.key.row < s.grid.rows.length := by
  refine ⟨column_of_followers h, ?_⟩
  unfold followers at h
  split at h
  · obtain ⟨key, hkey, rfl⟩ := List.mem_map.mp h
    obtain ⟨row, hrow, rfl⟩ := List.mem_map.mp hkey
    rw [List.mem_filter, State.source, hview] at hrow
    exact of_decide_eq_true hrow.2
  · cases h

namespace Underway

/-- While grid and sink stay as they are, so does a call that has the same jobs. -/
theorem same (h : Underway u s untold row edited jobs) (hgrid : s'.grid = s.grid)
    (hsink : s'.sink = s.sink) : Underway u s' untold row edited jobs := by
  have hfresh : ∀ {untold : Nat → String → Prop} {key : CellKey}, Fresh u s untold key →
      Fresh u s' untold key := fun h => h.same hgrid (by rw [hsink]) fun _ _ => id
  refine ⟨h.columns, hgrid ▸ h.rows, fun key hkey => ?_⟩
  exact (h.cells key (hkey.same hgrid)).imp hfresh (.imp_right fun hwaits =>
    { hwaits with inside := hgrid ▸ hwaits.inside, fresh := hfresh hwaits.fresh })

/-- Whoever tells of an edit when all is fresh begins with the cells that the edit concerns. -/
theorem told (hj : u.JudgesAtOnce grid) {rest : Nat → String → Prop}
    (hfresh : ∀ key, Judged u s key → Fresh u s untold key)
    (hrest : ∀ r c, untold r c → rest r c ∨ (r = row ∧ c = edited)) :
    Underway u s rest row edited ((u.editTargets edited).map fun c => ⟨⟨row, c⟩, true⟩) := by
  have hjob : ∀ {c : String}, c ∈ u.ruleSet.targets → c = edited ∨ c ∈ u.ruleSet.dependents edited →
      ⟨⟨row, c⟩, true⟩ ∈ (u.editTargets edited).map fun c => (⟨⟨row, c⟩, true⟩ : Job) :=
    fun hcolumn hwhy => List.mem_map.mpr ⟨_, Setup.mem_editTargets hcolumn hwhy, rfl⟩
  refine ⟨fun job hmem => ?_, fun job hmem => ?_, fun key hkey => ?_⟩
  · obtain ⟨c, hc, rfl⟩ := List.mem_map.mp hmem
    exact Setup.mem_targets hc
  · obtain ⟨c, -, rfl⟩ := List.mem_map.mp hmem
    exact .inl rfl
  · rcases (hfresh key hkey).told hrest with ⟨rfl, r, hr, hc⟩ | ⟨rfl, hother, hinside⟩ | hfresh'
    · exact .inr (.inl ⟨_, hjob hkey.2 (hj.rules.oneColumn.mem_dependents hr hc), rfl⟩)
    · refine .inr (.inr ⟨rfl, hother, hinside, hjob hkey.2 (.inl rfl), ?_⟩)
      exact (hfresh key hkey).same rfl rfl hrest
    · exact .inl hfresh'

/-- Once a cell is judged and reported, the cells that waited for it follow. -/
theorem judged (hj : u.JudgesAtOnce grid) (hs : SameShape grid s) (hflags : s.FlagsFailures)
    (h : Underway u s untold row edited (job :: todo))
    (hanswer : (s.judging u job.key).answer = .ok (report, rows)) :
    Underway u (s.deliver u report) untold row edited
      ((s.deliver u report).followers u job edited rows ++ todo) := by
  have hcolumn := h.columns job (by simp)
  have hjob : Judged u s job.key := ⟨by
    by_contra hbeyond
    exact hj.not_judged hcolumn (Nat.le_of_not_lt hbeyond) hanswer, hcolumn⟩
  have hrow : row < s.grid.rows.length :=
    (h.rows job (by simp)).elim (fun hat => hat ▸ hjob.1) (·.1)
  obtain ⟨_, _, hok, hreport, hrows⟩ := hj.judging hs hjob
  obtain ⟨rfl, rfl⟩ := Prod.mk.inj (Except.ok.inj (hanswer.symm.trans hok))
  obtain ⟨hreportRow, hreportColumn⟩ := RuleSet.reportOn_key hreport
  have hstands : (s.deliver u report).sink.latest? job.key.row job.key.column
      = some report.verdict := by
    rw [State.latest?_deliver, if_pos ⟨hreportRow, hreportColumn⟩]
  have hother : ∀ {untold : Nat → String → Prop} {key : CellKey}, key ≠ job.key →
      Fresh u s untold key → Fresh u (s.deliver u report) untold key := by
    intro untold key hne hfresh
    refine hfresh.same rfl ?_ fun _ _ => id
    rw [State.latest?_deliver, if_neg]
    rw [hreportRow, hreportColumn]
    rintro ⟨hrow, hcolumn⟩
    exact hne (by rw [CellKey.mk.injEq]; exact ⟨hrow.symm, hcolumn.symm⟩)
  refine ⟨fun job' hmem => ?_, fun job' hmem => ?_, fun key hkey => ?_⟩
  · rcases List.mem_append.mp hmem with hmem | hmem
    · rw [(State.mem_followers hj.view hmem).1]
      exact hcolumn
    · exact h.columns job' (by simp [hmem])
  · rcases List.mem_append.mp hmem with hmem | hmem
    · exact .inr ⟨hrow, (State.mem_followers hj.view hmem).2⟩
    · exact h.rows job' (by simp [hmem])
  by_cases hsame : key = job.key
  · subst hsame
    exact .inl (.of_reportOn hs.regular hreport hstands)
  rcases h.cells key hkey with hfresh | ⟨job', hmem, rfl⟩ | hwaits
  · exact .inl (hother hsame hfresh)
  · refine .inr (.inl ⟨job', List.mem_append_right _ ?_, rfl⟩)
    exact (List.mem_cons.mp hmem).resolve_left fun heq => hsame (heq ▸ rfl)
  have hwaits' : ∀ jobs : List Job, ⟨⟨row, edited⟩, true⟩ ∈ jobs →
      Waits u (s.deliver u report) untold row edited jobs key := fun _ hmem =>
    { hwaits with job := hmem, fresh := hother hsame hwaits.fresh }
  rcases List.mem_cons.mp hwaits.job with heq | hmem
  · -- the edited cell itself: the cell follows, or the edit does not concern it
    subst heq
    by_cases hpeer : key ∈ (s.deliver u report).peers u ⟨row, edited⟩ [edited] rows
    · refine .inr (.inl ⟨⟨key, false⟩, List.mem_append_left _ ?_, rfl⟩)
      exact List.mem_map.mpr ⟨key, hpeer, rfl⟩
    · exact .inl ((hwaits' [⟨⟨row, edited⟩, true⟩] (by simp)).fresh_of_not_peer hj
        (hs.same rfl) (hflags.deliver report) hkey hrows hpeer)
  · exact .inr (.inr (hwaits' _ (List.mem_append_right _ hmem)))

/-- Judging breaks down only where the edited row is not in the grid, and nothing is judged there. -/
theorem failed (hj : u.JudgesAtOnce grid) (hs : SameShape grid s)
    (h : Underway u s untold row edited (job :: todo)) {p : Problem}
    (hanswer : (s.judging u job.key).answer = .error p) (hkey : Judged u s key) :
    Fresh u s untold key := by
  have hbeyond : s.grid.rows.length ≤ job.key.row := by
    by_contra hinside
    obtain ⟨_, _, hok, -⟩ := hj.judging hs ⟨Nat.lt_of_not_le hinside, h.columns job (by simp)⟩
    cases hok.symm.trans hanswer
  have hrow : s.grid.rows.length ≤ row := by
    rcases h.rows job (by simp) with hat | ⟨-, hinside⟩
    · exact hat ▸ hbeyond
    · omega
  rcases h.cells key hkey with hfresh | ⟨job', hmem, rfl⟩ | hwaits
  · exact hfresh
  · rcases h.rows job' hmem with hat | ⟨hinside, -⟩
    · have hlt := hkey.1
      omega
    · omega
  · have hinside := hwaits.inside
    omega

/-- Without jobs, every cell is fresh. -/
theorem fresh (h : Underway u s untold row edited []) (hkey : Judged u s key) :
    Fresh u s untold key := by
  rcases h.cells key hkey with hfresh | ⟨job, hmem, -⟩ | hwaits
  · exact hfresh
  · cases hmem
  · cases hwaits.job

end Underway

end CellRules.Watch
