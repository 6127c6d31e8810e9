/-
CellRules.Proofs.Watch.Verified — a rule set that was built for a grid never misses a column of it.

The columns that the rules name are looked up once, when the rule set is built for the grid. Rows
are added and cells are set afterwards, rules break down, and a watch is told of edits while more of
them come. No cell is ever refused for its column (`NeverMisses`): each can be judged, a run over all
rows leaves none out, and whoever tells of an edit and waits is told that all is well. A rule set
that cannot be built for the grid is refused by the name of a column that is not there.
-/
import CellRules.Proofs.Watch.Returning

namespace CellRules

open Watch

/-- No column is missing for the rule set in the grid: not for a cell, not for a run over all rows,
and not where edited cells are judged at once. -/
structure NeverMisses (s : RuleSet) (g : Grid) : Prop where
  cell : ∀ row column, row < g.rows.length → ∃ report,
    (s.evaluateCell g.source row column).answer = .ok report ∧
      report.row = row ∧ report.column = column
  /-- No target column is left out. -/
  skipsNone : ∀ event ∈ (s.survey g.source).events, ∀ set column, event ≠ .columnSkipped set column
  /-- However the batches take their turns, every row has its report on every target column. -/
  allRows : ∀ limited, s.Answers limited g.source fun answer => ∃ cells, answer = .ok cells ∧
    cells.length = g.rows.length * s.targets.length ∧
    cells.map RuleSet.keyOf = (List.range g.rows.length).flatMap fun row => s.targets.map (row, ·)
  /-- Whatever has happened to a watch that is open, and whatever happens next. -/
  edit : ∀ (u : Setup) (moves : List Move) (t : State) (row : Nat) (column : String),
    u.ruleSet = s → u.view = Grid.source → s.throttle.background = false →
    (State.start u g).moveAll? u moves = some t → t.closed = false →
    row < t.grid.rows.length → Returns u t.nextCall (· = .ok ()) (t.tellEdit u row column)

namespace Watch

variable {u : Setup} {s s' t : State} {moves : List Move}

/-- Through all moves the grid keeps its columns and its rows. -/
theorem State.grows_moveAll? (hrun : s.moveAll? u moves = some s') : s.grid.Grows s'.grid :=
  keeps_moveAll? (p := fun t => s.grid.Grows t.grid) hrun
    (fun _ _ _ _ hm hgrows => hgrows.trans (grows_move? hm)) (.refl s.grid)

/-- Whoever tells of an edit in a row that is there is sure of the answer. -/
theorem sure_tellEdit (hids : t.Numbered) (hopen : t.closed = false) (hg : t.grid.Full)
    (hnames : u.ruleSet.NamesOnly t.grid.columns) {row : Nat} (hrow : row < t.grid.rows.length)
    (column : String) : Sure u
      ⟨t.nextCall, .editing column ((u.editTargets column).map fun c => ⟨⟨row, c⟩, true⟩) none⟩
      (t.tellEdit u row column) := by
  rw [State.tellEdit, if_neg (by simp [hopen])]
  refine ⟨?_, hg, hnames, fun job hjob => ?_, by simp⟩
  · exact (hids.addCall _).call?_eq (List.mem_append_right _ (List.mem_singleton.mpr rfl))
  · obtain ⟨target, -, rfl⟩ := List.mem_map.mp hjob
    exact hrow

end Watch

/-- Where the columns are and every row is full, none is missing. -/
theorem neverMisses_of_namesOnly {s : RuleSet} {g : Grid} (hnames : s.NamesOnly g.columns)
    (hg : g.Full) (hroom : s.throttle.limit ≠ 0) : NeverMisses s g where
  cell row column hrow := by
    obtain ⟨report, rows, hanswer, hkey⟩ := RuleSet.judging_ok hnames hg hrow column
    refine ⟨report, ?_, hkey⟩
    rw [RuleSet.evaluateCell, RuleSet.answer_seq, hanswer]
    rfl
  skipsNone := (RuleSet.allRows_ok hnames hg hroom).1
  allRows := (RuleSet.allRows_ok hnames hg hroom).2
  edit u moves t row column hset hview hatOnce hrun hopen hrow := by
    subst hset
    have hgrows : g.Grows t.grid := State.grows_moveAll? hrun
    have hids : t.Numbered := ((State.Tidy.start u g).moveAll? hrun).ids
    have hsure := sure_tellEdit hids hopen (hgrows.full hg) (hgrows.columns ▸ hnames) hrow column
    exact returns_of_sure hview hatOnce hsure

/-- A rule set that was built for a grid never misses a column of it, whatever rows are added and
cells set afterwards and however its rules break down. Where its columns are not there, one of them
is named, with a rule that names it. -/
theorem verified_never_misses (d : SetDraft) (columns : List String) (before : List Grid.Edit) :
    (∀ s, (d.buildFor ((Grid.empty columns).takeAll before).hasColumn).answer = .ok s →
      ∀ after, NeverMisses s ((Grid.empty columns).takeAll (before ++ after))) ∧
    ∀ (s : RuleSet) known problem, s.verifyColumns known = .error problem →
      ∃ r ∈ s.rules, ∃ column ∈ r.targets ++ r.dependencies, known column = false ∧
        problem = .unknownColumn r.name column := by
  refine ⟨fun s hbuild after => ?_, fun s known problem h => RuleSet.verifyColumns_eq_error h⟩
  obtain ⟨hbuilt, hverified⟩ := SetDraft.buildFor_eq_ok.mp hbuild
  have hfull := ((Grid.empty columns).grows_takeAll (before ++ after)).full
    (Grid.full_empty columns)
  have hgrows := ((Grid.empty columns).takeAll before).grows_takeAll after
  rw [← Grid.takeAll_append] at hgrows
  have hnames := RuleSet.namesOnly_of_verifyColumns hverified
  exact neverMisses_of_namesOnly (hgrows.columns ▸ hnames) hfull (SetDraft.limit_of_build hbuilt)

/-! ## Orders whose rules break down -/

/-- No two orders have one code, and a guard that breaks down is asked about the status. -/
def orderSteps : List SetStep :=
  [.unique "Code",
    .draft (Draft.ofSteps "status"
      [.forColumn "Status", .dependsOn "Code", .guardBy fun _ => .error "broken", .required]),
    .throttle .synchronous]

/-- A column name is repeated. -/
def orderColumns : List String := ["Code", "Status", "Code"]

/-- An order comes, another one with its code and with a value that no column takes, and cells are
set, one of them in a row that is not there. -/
def orderEdits : List Grid.Edit :=
  [.push [("Code", .text "A")], .push [("Code", .text "A"), ("Size", .text "L")],
    .set 0 "Status" (.text "open"), .set 9 "Code" .null]

/-- The watch over orders. -/
def orderWatch (s : RuleSet) : Setup := { ruleSet := s, view := Grid.source }

/-- The orders are judged, and whoever tells of the code of the second one is told that all is well.
A grid of codes alone would have been refused. -/
theorem verified_never_misses_orders :
    let g := (Grid.empty orderColumns).takeAll orderEdits
    ∃ s, ((SetDraft.ofSteps "orders" orderSteps).buildFor
        (Grid.empty orderColumns).hasColumn).answer = .ok s ∧
      g.rows.length = 2 ∧ s.targets = ["Code", "Status"] ∧ NeverMisses s g ∧
      Returns (orderWatch s) 0 (· = .ok ())
        ((State.start (orderWatch s) g).tellEdit (orderWatch s) 1 "Code") ∧
      s.verifyColumns (· == "Code") = .error (.unknownColumn "status" "Status") ∧
      ∃ r ∈ s.rules, ∃ column ∈ r.targets ++ r.dependencies, (column == "Code") = false ∧
        Problem.unknownColumn "status" "Status" = .unknownColumn r.name column := by
  intro g
  obtain ⟨s, hbuild, htargets, hatOnce, hmissing⟩ : ∃ s,
      ((SetDraft.ofSteps "orders" orderSteps).buildFor (Grid.empty orderColumns).hasColumn).answer
        = .ok s ∧ s.targets = ["Code", "Status"] ∧ s.throttle.background = false ∧
      s.verifyColumns (· == "Code") = .error (.unknownColumn "status" "Status") :=
    ⟨_, rfl, by decide +kernel, rfl, rfl⟩
  obtain ⟨hnever, hnamed⟩ :=
    verified_never_misses (SetDraft.ofSteps "orders" orderSteps) orderColumns []
  have horders : NeverMisses s g := hnever s hbuild orderEdits
  have hrow : 1 < g.rows.length := by decide
  exact ⟨s, hbuild, rfl, htargets, horders,
    horders.edit (orderWatch s) [] _ 1 "Code" rfl rfl hatOnce rfl rfl hrow,
    hmissing, hnamed s _ _ hmissing⟩

end CellRules
