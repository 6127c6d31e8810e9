/-
CellRules.Proofs.Watch.Settled — what stands on every cell when a watch comes to rest.

The row of a cell is as it was at the look behind its verdict, in the columns that its rules name
(`AtRest.not_written`): an edit of one asks for the cell. Other rows may have changed since. An edit
of another row reaches the cell by the rows that the evaluation of THAT row saw and by the failures
known when it reports, and a report that was under way in the meantime is in neither.

`settled_iff_not_overlooked` says that this is all there is: the verdict that stands is the one that
the rules give on the grid as it is, unless a write was overlooked. `stale_after_two_edits` is a run
of two edits in which one is.
-/
import CellRules.Proofs.Watch.AtRest
import CellRules.Proofs.Watch.Spread
import Mathlib.Data.List.Infix

namespace CellRules.Watch

/-- The row of the cell was written in a column that some rule reads without naming it. -/
def UnnamedWritten (u : Setup) (key : CellKey) (since : List Happening) : Prop :=
  ∃ r ∈ u.ruleSet.rulesFor key.column, ¬r.Heeds r.columns key.column ∧
    ∃ c, c ∉ r.columns ∧ .wrote key.row c ∈ since

/-- The rules of the cell look at other rows, another row was written in its column, and no
evaluation that took over this column there and read the grid after the last write of it has
reported later than the cell was reported. -/
def PeerUnseen (u : Setup) (h : List Happening) (key : CellKey) (since after : List Happening) :
    Prop :=
  (u.ruleSet.rulesFor key.column).any (·.needsRows) = true ∧
    ∃ row k k', row ≠ key.row ∧ since = k ++ .wrote row key.column :: k' ∧
      .wrote row key.column ∉ k' ∧ ∀ g w, Took h ⟨row, key.column⟩ g key.column →
        .read (.evaluation g) ⟨row, key.column⟩ ∈ k' →
        .reported (.evaluation g) ⟨row, key.column⟩ w ∉ after

/-- Since the look behind the last report on the cell, a write was overlooked, and the rules do not
give the same verdict any more. -/
def Overlooked (u : Setup) (grid : Grid) (h : List Happening) (s : State) (key : CellKey) : Prop :=
  ∃ v at₀ since after, LastLook u grid h s key v at₀ since after ∧
    (UnnamedWritten u key since ∨ PeerUnseen u h key since after) ∧
    at₀.verdictOn u key ≠ s.verdictOn u key

variable {u : Setup} {grid : Grid} {s s₀ at₀ : State} {h h₀ h₁ since after : List Happening}
  {x : Happening} {key : CellKey} {v : Verdict} {row : Nat} {column : String}

/-- What occurs in a list occurs there for the last time. -/
theorem exists_last_split (hx : x ∈ h) : ∃ k k', h = k ++ x :: k' ∧ x ∉ k' := by
  obtain ⟨k, k', heq, hnot⟩ := List.eq_append_cons_of_mem (List.mem_reverse.mpr hx)
  refine ⟨k'.reverse, k.reverse, ?_, by simpa using hnot⟩
  rw [← List.reverse_reverse h, heq]
  simp

namespace AtRest

/-! ## What was written since -/

/-- The row of the cell was not written since the look, in the columns that its rules name. -/
theorem not_written (hj : u.Judges grid) (hr : AtRest u grid h₀ h₁ s₀ s)
    (hlook : LastLook u grid (h₀ ++ h₁) s key v at₀ since after)
    (hquiet : ∀ g, ¬AskedFor since key g) {r : Rule} (hrule : r ∈ u.ruleSet.rulesFor key.column)
    (hc : column ∈ r.columns) : .wrote key.row column ∉ since := by
  intro hmem
  obtain ⟨k, k', rfl⟩ := List.append_of_mem hmem
  obtain ⟨before, between, reporter, hx, -⟩ := hlook.look
  have hwrote : h₀ ++ h₁ = (before ++ lookOf key reporter :: k) ++ .wrote key.row column :: k' := by
    simpa using hx
  obtain ⟨id, htold⟩ := hr.told_of_wrote hwrote
  obtain ⟨m, m', rfl⟩ := List.append_of_mem htold
  have htarget : key.column ∈ u.editTargets column := by
    refine List.mem_filter.mpr ⟨List.mem_cons.mpr (hj.rules.mem_dependents hrule hc), ?_⟩
    simpa [List.isEmpty_iff] using List.ne_nil_of_mem hrule
  have htelling : h₀ ++ h₁ = (before ++ lookOf key reporter :: k ++ .wrote key.row column :: m) ++
      .told id key.row column :: m' := by
    simpa using hx
  obtain ⟨g, hg⟩ := hr.run.asked_of_told hj.background hr.isOpen htelling hr.returned htarget
  exact hquiet g ⟨.call id, [column], by simp [hg]⟩

/-- An evaluation of another row that took over the column and did not ask for the cell had no reason
to: the cell was no peer on what it had read, and was not known to fail when it reported. -/
theorem not_spread (hj : u.Judges grid) (hr : AtRest u grid h₀ h₁ s₀ s) {at₁ next : State} {g : Nat}
    {fanOut : List String} {report : CellReport} {rows : Dataset}
    (hreporting : Reporting u grid h at₁ ⟨row, key.column⟩ g fanOut report rows next)
    (hx : h₀ ++ h₁ = h ++ .reported (.evaluation g) ⟨row, key.column⟩ report.verdict :: after)
    (hafter : Run u next after s) (hquiet : ∀ g, ¬AskedFor after key g)
    (hrow : key.row < grid.rows.length)
    (hneeds : (u.ruleSet.rulesFor key.column).any (·.needsRows) = true) (hne : row ≠ key.row)
    (htook : Took (h₀ ++ h₁) ⟨row, key.column⟩ g key.column) :
    key.row ∉ u.ruleSet.crossRowPeers row key.column key.column rows ∧ key ∉ next.flagged := by
  rw [← not_or]
  intro hwhy
  have hbegan : .began ⟨row, key.column⟩ g fanOut ∈ h₀ ++ h₁ := by
    rw [hx]
    exact List.mem_append_left _ hreporting.reading.began.mem
  have hopen := hafter.open hr.isOpen
  have hlength : next.grid.rows.length = grid.rows.length := by
    refine (Run.cell_kept hj.background .rest (hreporting.run.step hreporting.step) hopen hj.regular
      fun hpushed => hr.not_pushed ?_).2.2.1
    rw [hx]
    simpa [or_assoc] using Or.inl hpushed
  have hbound : key.row < (next.source u).rowCount := by
    rw [State.source, hj.view]
    change key.row < next.grid.rows.length
    rw [hlength]
    exact hrow
  obtain ⟨n, hn⟩ := Run.spreads hj.background hreporting hafter hr.isOpen
    (Ledger.find?_of_isEmpty hr.idle)
    (hr.run.mem_fanOut_of_took hj.background hr.isOpen hbegan htook)
    (hj.rules.mem_crossRowTargets hneeds) hne.symm hbound hwhy
  exact hquiet n ⟨.evaluation g, [], hn⟩

/-- An evaluation that took over the column in another row and reported after the last report on the
cell found it to pass, and did not see the text of its own row in the cell. -/
theorem not_peer (hj : u.Judges grid) (hr : AtRest u grid h₀ h₁ s₀ s)
    (hlook : LastLook u grid (h₀ ++ h₁) s key v at₀ since after)
    (hquiet : ∀ g, ¬AskedFor since key g) (hrow : key.row < grid.rows.length)
    (hneeds : (u.ruleSet.rulesFor key.column).any (·.needsRows) = true) (hne : row ≠ key.row)
    {g : Nat} {w : Verdict} (htook : Took (h₀ ++ h₁) ⟨row, key.column⟩ g key.column)
    (hreported : .reported (.evaluation g) ⟨row, key.column⟩ w ∈ after) :
    v.passes = true ∧ ∃ k k' mid report rows,
      h₀ ++ h₁ = k ++ .read (.evaluation g) ⟨row, key.column⟩ :: k' ∧
      Moment u (.start u grid) k mid (.read (.evaluation g) ⟨row, key.column⟩) k' s ∧
      (mid.judging u ⟨row, key.column⟩).answer = .ok (report, rows) ∧
      key.row ∉ u.ruleSet.crossRowPeers row key.column key.column rows := by
  obtain ⟨a₁, a₂, rfl⟩ := List.append_of_mem hreported
  obtain ⟨before, between, reporter, hx, rfl, -⟩ := hlook.look
  have hsplit : h₀ ++ h₁ = (before ++ lookOf key reporter :: between ++
      .reported reporter key v :: a₁) ++ .reported (.evaluation g) ⟨row, key.column⟩ w :: a₂ := by
    simpa using hx
  obtain ⟨at₁, next, fanOut, report, rows, hreporting, rfl, hafter⟩ :=
    hr.run.reporting hj.background hsplit
  obtain ⟨hpeer, hflagged⟩ := hr.not_spread hj hreporting hsplit hafter
    (fun n ⟨asker, columns, hn⟩ => hquiet n ⟨asker, columns, by simp [hn]⟩) hrow hneeds hne htook
  constructor
  · have hrunNext := hreporting.run.step hreporting.step
    have hopen := hafter.open hr.isOpen
    have hstands : LastReport (before ++ lookOf key reporter :: between ++
        .reported reporter key v :: a₁) key reporter v :=
      ⟨before ++ lookOf key reporter :: between, a₁, rfl, fun q w hmem =>
        hlook.last q w (List.mem_append_left _ hmem)⟩
    have hsink := (hstands.concat fun heq => hne (congrArg CellKey.row heq)).latest?
      (hrunNext.sink_deliveries hj.background hj.faithful hopen)
    by_contra hfails
    refine hflagged ((hrunNext.flagged hj.background hopen key).mpr ⟨v, hsink, ?_⟩)
    simpa [Verdict.fails] using hfails
  · obtain ⟨k, mid, m, hk, hm, -, hanswer⟩ := hreporting.reading
    have hrest := hm.later ((Run.rest.step hreporting.step).trans hafter)
    refine ⟨k, _, mid, report, rows, ?_, hrest, hanswer, hpeer⟩
    rw [hsplit, hk]
    simp

/-- Where another row was written and that was not overlooked, the cell passes, and the row does not
have the text of the cell. -/
theorem text_ne (hj : u.Judges grid) (hr : AtRest u grid h₀ h₁ s₀ s)
    (hlook : LastLook u grid (h₀ ++ h₁) s key v at₀ since after)
    (hquiet : ∀ g, ¬AskedFor since key g) (hrow : key.row < grid.rows.length)
    (hcolumn : key.column ∈ u.ruleSet.targets)
    (hneeds : (u.ruleSet.rulesFor key.column).any (·.needsRows) = true)
    (hseen : ¬PeerUnseen u (h₀ ++ h₁) key since after) (hne : row ≠ key.row)
    (hwrote : .wrote row key.column ∈ since) :
    v.passes = true ∧ (row < grid.rows.length → s.grid.textAt key.column key.row ≠ none →
      s.grid.textAt key.column row ≠ s.grid.textAt key.column key.row) := by
  obtain ⟨k, k', hk, hlast⟩ := exists_last_split hwrote
  obtain ⟨g, w, htook, hread, hreported⟩ : ∃ g w, Took (h₀ ++ h₁) ⟨row, key.column⟩ g key.column ∧
      .read (.evaluation g) ⟨row, key.column⟩ ∈ k' ∧
      .reported (.evaluation g) ⟨row, key.column⟩ w ∈ after := by
    by_contra hnone
    exact hseen ⟨hneeds, row, k, k', hne, hk, hlast, fun g w htook hread hreported =>
      hnone ⟨g, w, htook, hread, hreported⟩⟩
  obtain ⟨hpasses, m, m', mid, report, rows, hx, hmoment, hanswer, hnot⟩ :=
    hr.not_peer hj hlook hquiet hrow hneeds hne htook hreported
  refine ⟨hpasses, fun hlt htext hsame => hnot ?_⟩
  obtain ⟨hregular, -, hlength, -⟩ := hr.kept hj hmoment hx
  -- what was seen after the reading was seen after the last write
  have hlater : ∀ y ∈ m', y ∈ k' := by
    obtain ⟨before, between, reporter, hl, -⟩ := hlook.look
    obtain ⟨q, q', rfl⟩ := List.append_of_mem hread
    have hread' : h₀ ++ h₁ = (before ++ lookOf key reporter :: k ++ .wrote row key.column :: q) ++
        .read (.evaluation g) ⟨row, key.column⟩ :: q' := by
      rw [hl, hk]
      simp
    obtain ⟨-, rfl⟩ := hr.run.read_unique hj.background hr.isOpen hx hread'
    intro y hy
    simp [hy]
  have hsince : ∀ y ∈ m', y ∈ since := fun y hy => by
    rw [hk]
    simp [hlater y hy]
  obtain ⟨r, hr', -⟩ := List.any_eq_true.mp hneeds
  have htextRow : s.grid.textAt key.column row = mid.grid.textAt key.column row := by
    refine hr.textAt_kept hj hmoment hx fun hmem => ?_
    rcases List.mem_cons.mp hmem with h | h
    · cases h
    · exact hlast (hlater _ h)
  have htextKey : s.grid.textAt key.column key.row = mid.grid.textAt key.column key.row := by
    refine hr.textAt_kept hj hmoment hx fun hmem => ?_
    rcases List.mem_cons.mp hmem with h | h
    · cases h
    · exact hr.not_written hj hlook hquiet hr' (hj.rules.heeds hr').mem_columns (hsince _ h)
  obtain ⟨_, _, hok, -, hrows⟩ := hr.report_of_judged hj hmoment hx hanswer hlt hcolumn
  obtain ⟨rfl, rfl⟩ := Prod.mk.inj (Except.ok.inj hok)
  rw [hrows hneeds]
  rw [htextRow, htextKey] at hsame
  refine hj.rules.mem_crossRowPeers hregular hneeds (hlength ▸ hlt) (hlength ▸ hrow) hne.symm ?_
    hsame.symm
  rwa [hsame, ← htextKey]

/-- If no write was overlooked, the report that stands is that on the grid as it is. -/
theorem same_report (hj : u.Judges grid) (hr : AtRest u grid h₀ h₁ s₀ s) {report : CellReport}
    (hlook : LastLook u grid (h₀ ++ h₁) s key report.verdict at₀ since after)
    (hquiet : ∀ g, ¬AskedFor since key g) (hrow : key.row < grid.rows.length)
    (hcolumn : key.column ∈ u.ruleSet.targets) (hnamed : ¬UnnamedWritten u key since)
    (hseen : ¬PeerUnseen u (h₀ ++ h₁) key since after)
    (hreport : u.ruleSet.reportOn at₀.grid key.row key.column = .ok report) :
    u.ruleSet.reportOn s.grid key.row key.column = .ok report := by
  obtain ⟨before, between, reporter, hx, -, hmoment⟩ := hlook.look
  obtain ⟨hregular, -, hlength, hregular', -, hlength', hkept⟩ := hr.kept hj hmoment hx
  have hcells : ∀ row column, .wrote row column ∉ since →
      s.grid.get? row column = at₀.grid.get? row column := by
    intro row column hnot
    refine hkept row column fun hmem => ?_
    rcases List.mem_cons.mp hmem with h | h
    · cases reporter <;> cases h
    · exact hnot h
  have hnames : ∀ r ∈ u.ruleSet.rulesFor key.column, ∀ c ∈ r.columns,
      s.grid.get? key.row c = at₀.grid.get? key.row c := fun r hrule c hc =>
    hcells key.row c (hr.not_written hj hlook hquiet hrule hc)
  have hcell : s.grid.get? key.row key.column = at₀.grid.get? key.row key.column := by
    obtain ⟨r, hrule⟩ := RuleSet.exists_mem_rulesFor hcolumn
    exact hnames r hrule key.column (hj.rules.heeds hrule).mem_columns
  refine RuleSet.reportOn_agree hregular hregular' (hlength'.trans hlength.symm) hcell
    (fun r hrule => ?_) (fun hneeds => ?_) hreport
  · by_cases hheeds : r.Heeds r.columns key.column
    · exact ⟨r.columns, hheeds, hnames r hrule⟩
    · -- a rule that reads more than it names: its row was not written at all
      refine ⟨Set.univ, hj.rules.heeds hrule, fun c _ => ?_⟩
      by_cases hc : c ∈ r.columns
      · exact hnames r hrule c hc
      · exact hcells key.row c fun hmem => hnamed ⟨r, hrule, hheeds, c, hc, hmem⟩
  · by_cases hwritten : ∃ row, row ≠ key.row ∧ .wrote row key.column ∈ since
    · obtain ⟨row, hne, hwrote⟩ := hwritten
      refine .inr ⟨(hr.text_ne hj hlook hquiet hrow hcolumn hneeds hseen hne hwrote).1,
        fun other hother hlt htext hsame => ?_⟩
      by_cases hwrote' : .wrote other key.column ∈ since
      · exact absurd hsame ((hr.text_ne hj hlook hquiet hrow hcolumn hneeds hseen hother
          hwrote').2 (hlength' ▸ hlt) htext)
      · rw [Grid.textAt, Grid.textAt, hcells other key.column hwrote', hcell] at hsame
        exact hsame
    · exact .inl fun other hother => hcells other key.column fun hmem =>
        hwritten ⟨other, hother, hmem⟩

end AtRest

/-- After all rows were judged, and cells were written and told of in any number and order, each
cell that is judged has been reported, and the latest verdict on it is the one that its rules give on
the grid as it is EXACTLY if no write was overlooked. -/
theorem settled_iff_not_overlooked (hj : u.Judges grid) (hr : AtRest u grid h₀ h₁ s₀ s)
    (hrow : key.row < grid.rows.length) (hcolumn : key.column ∈ u.ruleSet.targets) :
    ∃ v w, s.sink.latest? key.row key.column = some v ∧ s.verdictOn u key = .ok w ∧
      (v = w ↔ ¬Overlooked u grid (h₀ ++ h₁) s key) := by
  have hlatest : ∀ {v : Verdict} {at₀ : State} {since after : List Happening},
      LastLook u grid (h₀ ++ h₁) s key v at₀ since after →
      s.sink.latest? key.row key.column = some v := by
    intro v at₀ since after hlook
    obtain ⟨reporter, hlast⟩ := hlook.lastReport
    exact hlast.latest? (hr.run.sink_deliveries hj.background hj.faithful hr.isOpen)
  obtain ⟨report, at₀, since, after, hlook, hreport, hquiet⟩ := hr.exists_lastLook hj hrow hcolumn
  obtain ⟨final, hfinal⟩ := u.ruleSet.reportOn_ok s.grid key.row key.column
  obtain ⟨before, between, reporter, hx, -, hmoment⟩ := hlook.look
  obtain ⟨-, -, -, hregular, hcolumns, hlength, -⟩ := hr.kept hj hmoment hx
  have hverdict : s.verdictOn u key = .ok final.verdict := by
    rw [hj.verdictOn hregular (hlength ▸ hrow) (hcolumns ▸ hj.columns _ hcolumn), hfinal]
    rfl
  refine ⟨report.verdict, final.verdict, hlatest hlook, hverdict, ?_, fun hnot => ?_⟩
  · rintro heq ⟨v, at₁, since', after', hlook', -, hchanged⟩
    have hv := (hlatest hlook).symm.trans (hlatest hlook')
    exact hchanged (by rw [hlook'.verdict, hverdict, ← heq, Option.some.inj hv])
  · by_contra hne
    have hwhy : ¬(UnnamedWritten u key since ∨ PeerUnseen u (h₀ ++ h₁) key since after) :=
      fun hwhy => hnot ⟨report.verdict, at₀, since, after, hlook, hwhy, fun heq =>
        hne (Except.ok.inj (hlook.verdict.symm.trans (heq.trans hverdict)))⟩
    rw [not_or] at hwhy
    have hsame := hr.same_report hj hlook hquiet hrow hcolumn hwhy.1 hwhy.2 hreport
    exact hne (congrArg CellReport.verdict (Except.ok.inj (hsame.symm.trans hfinal)))

/-! ## Two edits that cross -/

/-- The codes of a column must differ. For one of them a second goes by before the check. -/
def awaitedRule : Rule where
  name := "Code_lookup"
  description := none
  targets := ["Code"]
  dependencies := []
  guard := none
  validators :=
    [.delayed fun ctx => .after (if ctx.textOf "Code" = "a" then 1000 else 0) (.ok .success),
      .crossRow fun ctx rows => .ok ((Style.mk .error none).apply ctx (Check.unique "Code" ctx rows))]
  scopes := [.sameValue "Code"]
  severity := .error
  priority := 0
  message := ""

def awaitingWatch : Setup where
  ruleSet :=
    { name := "items"
      rules := [awaitedRule]
      throttle := { Throttle.interactive with debounce := 10, batched := false } }
  view := Grid.source

def codes : Grid := ⟨["Code"], [[.text "a"], [.text "b"]]⟩

theorem awaitingWatch_judges : awaitingWatch.Judges codes where
  background := rfl
  view := rfl
  rules := by
    intro r hr
    obtain rfl := List.mem_singleton.mp hr
    refine ⟨"Code", rfl, nofun, fun v hv => ?_, fun _ => by decide⟩
    rcases List.mem_cons.mp hv with rfl | hv
    · refine .delayed fun a b h => ?_
      have htext : a.textOf "Code" = b.textOf "Code" := by
        rw [RowContext.textOf, RowContext.textOf, h.values "Code" (.inl trivial)]
      rw [htext]
    · obtain rfl := List.mem_singleton.mp hv
      exact .unique ⟨.error, none⟩
  regular := ⟨by decide, by decide⟩
  columns := by decide

/-- All rows are judged. -/
def judgeAll : List Move :=
  List.flatten
    [[.validateAll], Task.steps 3 (.call 0), Task.steps 3 (.strand 0 0), [.pass 1000],
      Task.steps 7 (.strand 0 0), Task.steps 4 (.call 0)]

/-- Row 1 gets the code of row 0, and while that is looked into, row 0 gets another one. -/
def crossingEdits : List Move :=
  List.flatten
    [[.setCell 1 "Code" (.text "a"), .edit 1 "Code"], Task.steps 2 (.call 1),
      Task.steps 1 (.evaluation 0), [.pass 10], Task.steps 4 (.evaluation 0),
      [.setCell 0 "Code" (.text "c"), .edit 0 "Code"], Task.steps 2 (.call 2),
      Task.steps 1 (.evaluation 1), [.pass 10], Task.steps 8 (.evaluation 1), [.pass 1000],
      Task.steps 7 (.evaluation 0), Task.steps 1 (.evaluation 2), [.pass 10],
      Task.steps 8 (.evaluation 2)]

def judgeAllHistory : List Happening :=
  [.calledAll 0, .surveyed 0, .reported (.call 0) ⟨0, "Code"⟩ .success,
    .reported (.call 0) ⟨1, "Code"⟩ .success]

def crossingHistory : List Happening :=
  [.wrote 1 "Code", .told 1 1 "Code", .asked (.call 1) ⟨1, "Code"⟩ 0 ["Code"],
    .began ⟨1, "Code"⟩ 0 ["Code"], .read (.evaluation 0) ⟨1, "Code"⟩, .wrote 0 "Code",
    .told 2 0 "Code", .asked (.call 2) ⟨0, "Code"⟩ 1 ["Code"], .began ⟨0, "Code"⟩ 1 ["Code"],
    .read (.evaluation 1) ⟨0, "Code"⟩, .reported (.evaluation 1) ⟨0, "Code"⟩ .success,
    .reported (.evaluation 0) ⟨1, "Code"⟩ (.error "Code 'a' must be unique (also in row 0)"),
    .asked (.evaluation 0) ⟨0, "Code"⟩ 2 [], .began ⟨0, "Code"⟩ 2 [],
    .read (.evaluation 2) ⟨0, "Code"⟩, .reported (.evaluation 2) ⟨0, "Code"⟩ .success]

/-- How two runs, one after the other, leave the calls, the ledger and the code of row 1. -/
structure Outlook where
  judged : Bool
  returned : Bool
  idle : Bool
  delivered : Option Verdict
  actual : Option Verdict
  deriving DecidableEq

def outlook (s₀ s : State) : Outlook where
  judged := !s₀.calls.isEmpty && s₀.calls.all (·.stage.concluded)
  returned := s.calls.all fun c => !c.stage.telling
  idle := s.ledger.isEmpty && !s.closed
  delivered := s.sink.latest? 1 "Code"
  actual := (s.verdictOn awaitingWatch ⟨1, "Code"⟩).toOption

/-- A duplicate that is none any more. -/
def staleDuplicate : Outlook :=
  ⟨true, true, true, some (.error "Code 'a' must be unique (also in row 0)"), some .success⟩

theorem crossing_atRest :
    ∃ s₀ s, AtRest awaitingWatch codes judgeAllHistory crossingHistory s₀ s ∧
      outlook s₀ s = staleDuplicate := by
  have hrecord : ((State.start awaitingWatch codes).record? awaitingWatch judgeAll).bind
      (fun p => (p.2.record? awaitingWatch crossingEdits).map fun q =>
        (p.1, q.1, outlook p.2 q.2))
        = some (judgeAllHistory, crossingHistory, staleDuplicate) := by
    decide +kernel
  obtain ⟨⟨h₀, s₀⟩, hfirst, hrest⟩ := Option.bind_eq_some_iff.mp hrecord
  obtain ⟨⟨h₁, s⟩, hthen, heq⟩ := Option.map_eq_some_iff.mp hrest
  simp only [Prod.mk.injEq] at heq
  obtain ⟨rfl, rfl, houtlook⟩ := heq
  have hfacts := houtlook
  simp only [outlook, staleDuplicate, Outlook.mk.injEq, Bool.and_eq_true, List.all_eq_true,
    Bool.not_eq_true'] at hfacts
  obtain ⟨⟨hsome, hjudged⟩, hreturned, ⟨hidle, hopen⟩, -⟩ := hfacts
  refine ⟨s₀, s, ?_, houtlook⟩
  exact
    { judging := Run.of_record? hfirst
      judged := ⟨by simpa using hsome, hjudged⟩
      untouched := by decide
      editing := Run.of_record? hthen
      edits := by decide
      told := fun k row column k' hk => by
        have hmem : .wrote row column :: k' ∈ crossingHistory.tails :=
          (List.mem_tails _ _).mpr ⟨k, hk.symm⟩
        simp only [crossingHistory, List.tails, List.mem_cons, List.cons.injEq,
          Happening.wrote.injEq] at hmem
        rcases hmem with ⟨⟨rfl, rfl⟩, rfl⟩ | hmem
        · exact ⟨1, by simp⟩
        · simp at hmem
          obtain ⟨⟨rfl, rfl⟩, rfl⟩ := hmem
          exact ⟨2, by simp⟩
      returned := hreturned
      idle := hidle
      isOpen := hopen }

/-- The second edit is overlooked. -/
theorem settled_iff_not_overlooked_crossing :
    ∃ s₀ s, AtRest awaitingWatch codes judgeAllHistory crossingHistory s₀ s ∧
      Overlooked awaitingWatch codes (judgeAllHistory ++ crossingHistory) s ⟨1, "Code"⟩ := by
  obtain ⟨s₀, s, hrest, houtlook⟩ := crossing_atRest
  simp only [outlook, staleDuplicate, Outlook.mk.injEq] at houtlook
  obtain ⟨-, -, -, hdelivered, hactual⟩ := houtlook
  refine ⟨s₀, s, hrest, ?_⟩
  have hrow : (⟨1, "Code"⟩ : CellKey).row < codes.rows.length := by decide
  obtain ⟨v, w, hlatest, hverdict, hiff⟩ :=
    settled_iff_not_overlooked awaitingWatch_judges hrest hrow (by decide)
  by_contra hnot
  obtain rfl := hiff.mpr hnot
  rw [hdelivered] at hlatest
  rw [hverdict] at hactual
  obtain rfl := Option.some.inj hlatest
  cases hactual

/-- At rest, the code of row 1 is left with the verdict that row 0 has it, too, though row 0 has
another code: its evaluation had read row 0 before that was edited and reported after the evaluation
of row 0, which spreads to neither duplicates that are gone nor failures yet to come. -/
theorem stale_after_two_edits :
    ∃ h₀ h₁ s₀ s, awaitingWatch.Judges codes ∧ AtRest awaitingWatch codes h₀ h₁ s₀ s ∧
      s.sink.latest? 1 "Code" = some (.error "Code 'a' must be unique (also in row 0)") ∧
      s.verdictOn awaitingWatch ⟨1, "Code"⟩ = .ok .success := by
  obtain ⟨s₀, s, hrest, houtlook⟩ := crossing_atRest
  simp only [outlook, staleDuplicate, Outlook.mk.injEq] at houtlook
  obtain ⟨-, -, -, hdelivered, hactual⟩ := houtlook
  refine ⟨_, _, s₀, s, awaitingWatch_judges, hrest, hdelivered, ?_⟩
  cases hverdict : s.verdictOn awaitingWatch ⟨1, "Code"⟩ with
  | error p =>
    rw [hverdict] at hactual
    cases hactual
  | ok w =>
    rw [hverdict] at hactual
    exact congrArg _ (Option.some.inj hactual)

end CellRules.Watch
