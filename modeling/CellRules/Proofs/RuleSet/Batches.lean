/-
CellRules.Proofs.RuleSet.Batches — batches make no difference.

`inOrder` is what judging one row after the other answers. A run over all rows comes to the very
same reports, however its rows are cut into batches, however long each batch takes, in whatever
order the batches end, and with or without slots:

* Judging rows in pieces is judging them (`answer_judgeRows_flatten`).
* Batches are sorted by the row of their first report. No two have the same one unless neither has a
  report, so sorting gives back the order of the rows (`gather_of_perm`).
* The batches of a run are a pool, which always ends (`Pool.Underway.ends`), and whose batches do
  not lock each other out of the slots (`Pool.neverStuck_start`).

`batched_run_agrees` puts these together.
-/
import CellRules.Proofs.Grid.RowByRow
import CellRules.Proofs.RuleSet.AllRows
import CellRules.Proofs.Run.Slots
import CellRules.Proofs.Run.Timeline

namespace CellRules.RuleSet

variable {s : RuleSet} {v : Survey} {source : Source} {rows : Dataset}
  {batches : List (List CellReport)} {answer : Except Problem (List CellReport)}

/-! ## Judging rows in pieces -/

/-- What judging a cell of a row among others answers. -/
def reportAmong (s : RuleSet) (rows : Dataset) (cell : RowContext × String) :
    Except Problem CellReport :=
  (cell.1.focus cell.2).bind fun ctx => (s.judge (s.rulesFor cell.2) ctx rows).answer

theorem answer_judgeCells_eq (s : RuleSet) (rows : Dataset) (cells : List (RowContext × String)) :
    (s.judgeCells rows cells).answer = cells.mapM (s.reportAmong rows) := by
  induction cells with
  | nil => rfl
  | cons cell cells ih =>
    obtain ⟨ctx, column⟩ := cell
    rw [judgeCells, answer_seq, List.mapM_cons, reportAmong, ← ih]
    change (ctx.focus column).bind _ = _
    cases ctx.focus column with
    | error problem => rfl
    | ok focused =>
      simp only [Except.bind, answer_seq]
      cases (s.judge (s.rulesFor column) focused rows).answer with
      | error problem => rfl
      | ok report => cases (s.judgeCells rows cells).answer <;> rfl

theorem answer_judgeRows (s : RuleSet) (v : Survey) (batch : List RowContext) :
    (s.judgeRows v batch).answer = (cellsOf v.columns batch).mapM (s.reportAmong v.rows) :=
  s.answer_judgeCells_eq v.rows _

/-- Rows in two pieces are judged one piece after the other. -/
theorem answer_judgeRows_append (s : RuleSet) (v : Survey) (first second : List RowContext) :
    (s.judgeRows v (first ++ second)).answer = (s.judgeRows v first).answer.bind fun reports =>
      (s.judgeRows v second).answer.map (reports ++ ·) := by
  simp only [answer_judgeRows, cellsOf, List.flatMap_append, List.mapM_append]
  rfl

/-- Rows in many pieces have the reports of all pieces in order. -/
theorem answer_judgeRows_flatten {pieces : List (List RowContext)}
    {reports : List RowContext → List CellReport}
    (h : ∀ piece ∈ pieces, (s.judgeRows v piece).answer = .ok (reports piece)) :
    (s.judgeRows v pieces.flatten).answer = .ok (pieces.flatMap reports) := by
  induction pieces with
  | nil => rfl
  | cons piece pieces ih =>
    rw [List.flatten_cons, answer_judgeRows_append, h piece (by simp),
      ih fun piece hpiece => h piece (by simp [hpiece])]
    rfl

/-- Rows that come to reports do so in every piece. -/
theorem exists_reports {pieces : List (List RowContext)} {all : List CellReport}
    (h : (s.judgeRows v pieces.flatten).answer = .ok all) :
    ∀ piece ∈ pieces, ∃ reports, (s.judgeRows v piece).answer = .ok reports := by
  induction pieces generalizing all with
  | nil => exact nofun
  | cons piece pieces ih =>
    rw [List.flatten_cons, answer_judgeRows_append] at h
    cases hfirst : (s.judgeRows v piece).answer with
    | error problem => simp [hfirst, Except.bind] at h
    | ok reports =>
      cases hrest : (s.judgeRows v pieces.flatten).answer with
      | error problem => simp [hfirst, hrest, Except.bind, Except.map] at h
      | ok rest =>
        intro other hother
        rcases List.mem_cons.mp hother with rfl | hother
        · exact ⟨reports, hfirst⟩
        · exact ih hrest other hother

/-- The first report of some rows is on the first of them, if there are columns. -/
theorem firstRow?_of_judgeRows {column : String} {columns : List String} {ctx : RowContext}
    {batch : List RowContext} {reports : List CellReport} (hcolumns : v.columns = column :: columns)
    (h : (s.judgeRows v (ctx :: batch)).answer = .ok reports) :
    firstRow? reports = some ctx.row := by
  have hcells : cellsOf v.columns (ctx :: batch)
      = (ctx, column) :: (columns.map (ctx, ·) ++ cellsOf v.columns batch) := by
    simp [cellsOf, hcolumns]
  rw [answer_judgeRows, hcells, mapM_eq_ok, List.forall₂_cons_left_iff] at h
  obtain ⟨report, rest, hreport, -, rfl⟩ := h
  cases hfocus : ctx.focus column with
  | error problem => simp [reportAmong, hfocus, Except.bind] at hreport
  | ok focused =>
    simp only [reportAmong, hfocus, Except.bind] at hreport
    rw [firstRow?, List.head?_cons, Option.map_some, (report_of_judge hreport).1,
      (focus_ok hfocus).2]

theorem reports_of_no_columns {batch : List RowContext} {reports : List CellReport}
    (hcolumns : v.columns = []) (h : (s.judgeRows v batch).answer = .ok reports) :
    reports = [] := by
  have hcells : cellsOf v.columns batch = [] := by simp [cellsOf, hcolumns]
  rw [answer_judgeRows, hcells] at h
  exact (Except.ok.inj h).symm

/-! ## The order of batches -/

theorem batchLE_trans (a b c : List CellReport) (hab : batchLE a b = true)
    (hbc : batchLE b c = true) : batchLE a c = true := by
  unfold batchLE at *
  cases ha : firstRow? a <;> cases hb : firstRow? b <;> cases hc : firstRow? c <;>
    simp_all
  omega

theorem batchLE_total (a b : List CellReport) : (batchLE a b || batchLE b a) = true := by
  unfold batchLE
  cases firstRow? a <;> cases firstRow? b <;> simp
  omega

/-- The reports of one batch begin in an earlier row than those of another. -/
def Before (a b : List CellReport) : Prop :=
  ∃ i j, firstRow? a = some i ∧ firstRow? b = some j ∧ i < j

theorem Before.batchLE {a b : List CellReport} (h : Before a b) :
    batchLE a b = true ∧ batchLE b a = false := by
  obtain ⟨i, j, ha, hb, hlt⟩ := h
  simp only [RuleSet.batchLE, ha, hb, decide_eq_true_eq, decide_eq_false_iff_not]
  omega

/-- Gathering puts batches back into their order. -/
theorem gather_of_perm {ordered : List (List CellReport)} (hperm : batches.Perm ordered)
    (hordered : ordered.Pairwise fun a b => a = b ∨ Before a b) :
    gather batches = ordered.flatten := by
  have hle : ordered.Pairwise fun a b => batchLE a b = true := by
    refine hordered.imp fun {a b} h => ?_
    rcases h with rfl | h
    · simpa using batchLE_total a a
    · exact h.batchLE.1
  have hsymm : Std.Symm fun a b : List CellReport => a = b ∨ Before a b ∨ Before b a :=
    ⟨fun _ _ h => h.imp Eq.symm Or.symm⟩
  have hone : ∀ a ∈ ordered, ∀ b ∈ ordered, a = b ∨ Before a b ∨ Before b a :=
    List.Pairwise.forall_of_forall (fun _ _ => .inl rfl) (hordered.imp (Or.imp_right Or.inl))
  have hanti : ∀ a b, a ∈ batches.mergeSort batchLE → b ∈ ordered →
      batchLE a b = true → batchLE b a = true → a = b := by
    intro a b ha hb hab hba
    rcases hone a (hperm.mem_iff.mp (List.mem_mergeSort.mp ha)) b hb with heq | h | h
    · exact heq
    · simp [h.batchLE.2] at hba
    · simp [h.batchLE.2] at hab
  have hsorted : batches.mergeSort batchLE = ordered :=
    List.Perm.eq_of_pairwise hanti (List.pairwise_mergeSort batchLE_trans batchLE_total batches)
      hle ((List.mergeSort_perm batches batchLE).trans hperm)
  rw [gather, hsorted]

/-! ## The batches of a survey -/

theorem chunk_ne_nil {α : Type} (size : Nat) (l : List α) :
    ∀ chunk ∈ chunks size l, chunk ≠ [] := by
  induction l using chunks.induct size with
  | case1 => simp [chunks]
  | case2 a as ih =>
    rw [chunks]
    intro chunk hchunk
    rcases List.mem_cons.mp hchunk with rfl | hchunk
    · exact List.cons_ne_nil _ _
    · exact ih chunk hchunk

/-- Batches are pieces of the rows, in order. -/
theorem exists_pieces (s : RuleSet) (v : Survey) : ∃ pieces : List (List RowContext),
    s.batches v = pieces.map (s.judgeRows v) ∧ pieces.flatten = v.rows.rows ∧
      pieces.Pairwise fun a b => a ≠ [] ∧ b ≠ [] := by
  unfold batches
  split
  · refine ⟨chunks s.throttle.batchSize v.rows.rows, rfl, flatten_chunks _ _, ?_⟩
    have hne := chunk_ne_nil s.throttle.batchSize v.rows.rows
    exact List.pairwise_of_forall_mem_list fun a ha b hb => ⟨hne a ha, hne b hb⟩
  · exact ⟨[v.rows.rows], rfl, by simp, List.pairwise_singleton _ _⟩

/-- Pieces of ascending rows have their reports in order. -/
theorem pairwise_reports {pieces : List (List RowContext)}
    {reports : List RowContext → List CellReport}
    (hrows : (pieces.flatten.map (·.row)).Pairwise (· < ·))
    (hne : pieces.Pairwise fun a b => a ≠ [] ∧ b ≠ [])
    (h : ∀ piece ∈ pieces, (s.judgeRows v piece).answer = .ok (reports piece)) :
    (pieces.map reports).Pairwise fun a b => a = b ∨ Before a b := by
  rw [List.pairwise_map, List.pairwise_flatten] at hrows
  refine List.pairwise_map.mpr ((hne.and hrows.2).imp_of_mem fun {a b} ha hb hab => ?_)
  obtain ⟨⟨hane, hbne⟩, hless⟩ := hab
  cases hcolumns : v.columns with
  | nil =>
    left
    rw [reports_of_no_columns hcolumns (h a ha), reports_of_no_columns hcolumns (h b hb)]
  | cons column columns =>
    right
    obtain ⟨x, xs, rfl⟩ := List.exists_cons_of_ne_nil hane
    obtain ⟨y, ys, rfl⟩ := List.exists_cons_of_ne_nil hbne
    exact ⟨x.row, y.row, firstRow?_of_judgeRows hcolumns (h _ ha),
      firstRow?_of_judgeRows hcolumns (h _ hb), hless x (by simp) y (by simp)⟩

/-- Whatever the order in which batches end, gathered they are the reports of one row after the
other. -/
theorem answer_of_batches (hrows : (v.rows.rows.map (·.row)).Pairwise (· < ·))
    (h : (batches.map Except.ok).Perm ((s.batches v).map Work.answer)) :
    (s.judgeRows v v.rows.rows).answer = .ok (gather batches) := by
  obtain ⟨pieces, hpieces, hflatten, hne⟩ := s.exists_pieces v
  rw [hpieces, List.map_map] at h
  have hok : ∀ piece, ∃ reports, piece ∈ pieces → (s.judgeRows v piece).answer = .ok reports := by
    intro piece
    by_cases hpiece : piece ∈ pieces
    · obtain ⟨reports, -, hreports⟩ := List.mem_map.mp
        (h.mem_iff.mpr (List.mem_map.mpr ⟨piece, hpiece, rfl⟩))
      exact ⟨reports, fun _ => hreports.symm⟩
    · exact ⟨[], fun hmem => absurd hmem hpiece⟩
  choose reports hreports using hok
  have hanswers : pieces.map (Work.answer ∘ s.judgeRows v)
      = (pieces.map reports).map Except.ok := by
    rw [List.map_map]
    exact List.map_congr_left hreports
  have hperm : batches.Perm (pieces.map reports) := by
    have hoptions := (hanswers ▸ h).filterMap Except.toOption
    simpa [List.filterMap_map, Function.comp_def, Except.toOption] using hoptions
  rw [← hflatten] at hrows ⊢
  rw [answer_judgeRows_flatten hreports, gather_of_perm hperm (pairwise_reports hrows hne hreports),
    List.flatMap]

/-! ## Runs over all rows -/

/-- A look at a source sees all its rows, and the target columns that are there. -/
theorem answer_survey_source (s : RuleSet) (source : Source) :
    (s.survey source).answer = source.allRows.map fun rows =>
      ⟨s.targets.filter fun column => source.columns.contains column, ⟨rows⟩⟩ := by
  unfold survey
  rw [answer_seq, answer_writeAll]
  simp only [Except.bind, answer_seq]
  change source.allRows.bind _ = _
  cases source.allRows <;> rfl

/-- The reports on all cells, one row after the other. -/
def inOrder (s : RuleSet) (source : Source) : Except Problem (List CellReport) :=
  (s.survey source).answer.bind fun v => (s.judgeRows v v.rows.rows).answer

/-- The batches of a run side by side. They take slots if there are any and the run is split. -/
def pool (s : RuleSet) (limited : Bool) (v : Survey) : Pool (List CellReport) :=
  .start (limited && s.throttle.usesBatches) s.throttle.limit (s.batches v)

/-- A run over all rows may come to an answer if its batches take their turns in some order. -/
def MayAnswer (s : RuleSet) (limited : Bool) (source : Source)
    (answer : Except Problem (List CellReport)) : Prop :=
  match (s.survey source).answer with
  | .error problem => answer = .error problem
  | .ok v => ∃ result, (s.pool limited v).MayEnd result ∧ answer = result.map gather

/-- A run over all rows comes to a right answer, in whatever order its batches take their turns. -/
def Answers (s : RuleSet) (limited : Bool) (source : Source)
    (right : Except Problem (List CellReport) → Prop) : Prop :=
  match (s.survey source).answer with
  | .error problem => right (.error problem)
  | .ok v => (s.pool limited v).Ends fun result => right (result.map gather)

/-- What a run by itself answers is what some turns of its batches lead to. -/
theorem mayAnswer_of_evaluateAll {cells : List CellReport}
    (h : (s.evaluateAll source).2 = .ok cells) : s.MayAnswer false source (.ok cells) := by
  unfold MayAnswer
  unfold evaluateAll at h
  cases hsurvey : (s.survey source).answer with
  | error problem => simp [hsurvey] at h
  | ok v =>
    simp only [hsurvey] at h
    cases hpool : (Pool.start false s.throttle.limit (s.batches v)).runAlone.2 with
    | error problem => simp [hpool, Except.map] at h
    | ok batches =>
      rw [hpool] at h
      exact ⟨.ok batches, Pool.mayEnd_of_runAlone hpool, h.symm⟩

/-- A run that is not split comes to what its one batch answers. -/
theorem gather_of_comes_one {work : Work (List CellReport)}
    {result : Except Problem (List (List CellReport))} (h : Pool.Comes [work] result) :
    result.map gather = work.answer := by
  cases h with
  | all hperm =>
    rw [List.map_singleton, List.perm_singleton] at hperm
    obtain ⟨batch, rfl, hbatch⟩ := List.map_eq_singleton_iff.mp hperm
    rw [← hbatch]
    simp [Except.map, gather]
  | broken hmem hproblem =>
    rw [List.mem_singleton.mp hmem] at hproblem
    rw [hproblem]
    rfl

/-- What the batches of a run come to is what one row after the other does, if it does. -/
theorem gather_of_comes {result : Except Problem (List (List CellReport))}
    (hrows : (v.rows.rows.map (·.row)).Pairwise (· < ·)) (h : Pool.Comes (s.batches v) result) :
    (result.map gather).toOption = (s.judgeRows v v.rows.rows).answer.toOption := by
  cases h with
  | all hperm =>
    rw [answer_of_batches hrows hperm]
    rfl
  | @broken work problem hmem hproblem =>
    obtain ⟨pieces, hpieces, hflatten, -⟩ := s.exists_pieces v
    rw [hpieces] at hmem
    obtain ⟨piece, hpiece, rfl⟩ := List.mem_map.mp hmem
    cases hall : (s.judgeRows v v.rows.rows).answer with
    | error problem => rfl
    | ok all =>
      obtain ⟨reports, hreports⟩ := exists_reports (hflatten ▸ hall) piece hpiece
      cases hreports.symm.trans hproblem

/-- A throttle decides only how a rule set works, not what it finds. -/
theorem runRules_throttle (s : RuleSet) (t : Throttle) (ctx : RowContext) (rows : Dataset)
    (rules : List Rule) :
    ({ s with throttle := t }).runRules ctx rows rules = s.runRules ctx rows rules := by
  induction rules with
  | nil => rfl
  | cons r rules ih =>
    simp only [runRules, ih]
    rfl

theorem judge_throttle (s : RuleSet) (t : Throttle) (rules : List Rule) (ctx : RowContext)
    (rows : Dataset) :
    ({ s with throttle := t }).judge rules ctx rows = s.judge rules ctx rows := by
  unfold judge
  rw [runRules_throttle]

theorem evaluateCellAmong_throttle (s : RuleSet) (t : Throttle) (source : Source) (row : Nat)
    (column : String) :
    ({ s with throttle := t }).evaluateCellAmong source row column
      = s.evaluateCellAmong source row column := by
  unfold evaluateCellAmong
  simp only [judge_throttle]
  rfl

theorem inOrder_throttle (s : RuleSet) (t : Throttle) (source : Source) :
    ({ s with throttle := t }).inOrder source = s.inOrder source := by
  have hreport : ∀ rows, ({ s with throttle := t }).reportAmong rows = s.reportAmong rows := by
    intro rows
    funext cell
    unfold reportAmong
    simp only [judge_throttle]
    rfl
  simp only [inOrder, answer_survey_source, answer_judgeRows, hreport]
  rfl

/-- A throttle that is set is valid. -/
theorem setThrottle_ok {t : Throttle} {s' : RuleSet} (h : s.setThrottle t = .ok s') :
    s' = { s with throttle := t } ∧ t.limit ≠ 0 := by
  unfold setThrottle at h
  cases hvalid : t.validate with
  | error problem => simp [hvalid, Except.map] at h
  | ok valid =>
    rw [hvalid] at h
    refine ⟨(Except.ok.inj h).symm, fun hzero => ?_⟩
    simp [Throttle.validate, hzero] at hvalid

/-- The rows of a survey of a source are in order if the source's are. -/
theorem ascending_survey (hsource : source.Ascending)
    (h : (s.survey source).answer = .ok v) : (v.rows.rows.map (·.row)).Pairwise (· < ·) := by
  rw [answer_survey_source] at h
  cases hall : source.allRows with
  | error problem => simp [hall, Except.map] at h
  | ok rows =>
    rw [hall] at h
    obtain rfl := Except.ok.inj h
    exact hsource rows hall

/-- A run that may come to reports comes to those of one row after the other. -/
theorem inOrder_of_mayAnswer {limited : Bool} {cells : List CellReport}
    (hsource : source.Ascending) (h : s.MayAnswer limited source (.ok cells)) :
    s.inOrder source = .ok cells := by
  unfold MayAnswer at h
  rw [inOrder]
  split at h
  · cases h
  · rename_i v hsurvey
    obtain ⟨result, hmay, hcells⟩ := h
    cases result with
    | error problem => cases hcells
    | ok batches =>
      obtain rfl := Except.ok.inj hcells
      rw [hsurvey]
      exact answer_of_batches (ascending_survey hsource hsurvey) hmay.perm

/-- A run over all rows, in batches or not, comes to the reports that one without batches comes to,
in whatever order its batches take their turns, and to a problem if that one does. If its batches
have slots to themselves, one of them can always go on. -/
theorem batched_run_agrees {s batched single : RuleSet} {t u : Throttle}
    (hbatched : s.setThrottle t = .ok batched) (hsingle : s.setThrottle u = .ok single)
    (hu : u.usesBatches = false) {source : Source} (hsource : source.Ascending)
    (limited limited' : Bool) :
    single.Answers limited' source (· = s.inOrder source) ∧
      batched.Answers limited source (·.toOption = (s.inOrder source).toOption) ∧
      ∀ v limit, limit ≠ 0 → (batched.pool limited v).NeverStuck (.ofLimit limit) := by
  obtain ⟨rfl, hroom⟩ := setThrottle_ok hbatched
  obtain ⟨rfl, hroom'⟩ := setThrottle_ok hsingle
  refine ⟨?_, ?_, fun v limit hlimit => Pool.neverStuck_start _ hroom hlimit _⟩
  · rw [← s.inOrder_throttle u, Answers, inOrder]
    cases hsurvey : (({ s with throttle := u }).survey source).answer with
    | error problem => rfl
    | ok v =>
      have hone : ({ s with throttle := u }).batches v
          = [({ s with throttle := u }).judgeRows v v.rows.rows] := by
        simp [batches, hu]
      refine (Pool.underway_start _ hroom' _).ends.mono fun result hcomes => ?_
      exact gather_of_comes_one (hone ▸ hcomes)
  · rw [← s.inOrder_throttle t, Answers, inOrder]
    cases hsurvey : (({ s with throttle := t }).survey source).answer with
    | error problem => rfl
    | ok v =>
      refine (Pool.underway_start _ hroom _).ends.mono fun result hcomes => ?_
      exact gather_of_comes (ascending_survey hsource hsurvey) hcomes

/-! ## Contacts in pairs -/

/-- Looking a name up takes the longer the earlier its row. -/
def lookUp (ctx : RowContext) : Promise :=
  .after (90 - 40 * ctx.row) (.ok (.ofCheck (ctx.hasValue "Name") .warning "No such name"))

/-- No two contacts have one address, every name is looked up, and every contact has a phone. -/
def contacts : RuleSet where
  name := "contacts"
  rules := [Draft.ofSteps "Email_unique" [.forColumn "Email", .unique "Email"],
    Draft.ofSteps "Name_lookup" [.forColumn "Name", .judgeLater lookUp],
    Draft.ofSteps "Phone_required" [.forColumn "Phone", .required]].filterMap (·.build.toOption)

/-- Two batches at a time, of two rows each. -/
def inPairs : Throttle := { Throttle.interactive with limit := 2, batchSize := 2 }

/-- Three contacts without phones, the first and the last of them with one address. -/
def threeContacts : Grid where
  columns := ["Name", "Email"]
  rows := [[.text "Ann", .text "a@b.com"], [.text "Bob", .text "c@d.com"],
    [.null, .text "a@b.com"]]

/-- The batch of the last contact is through first. -/
theorem batched_run_agrees_contacts :
    (({ contacts with throttle := .synchronous }).Answers false threeContacts.source
        (· = contacts.inOrder threeContacts.source) ∧
      ({ contacts with throttle := inPairs }).Answers true threeContacts.source
        (·.toOption = (contacts.inOrder threeContacts.source).toOption) ∧
      ∀ v limit, limit ≠ 0 →
        (({ contacts with throttle := inPairs }).pool true v).NeverStuck (.ofLimit limit)) ∧
      ((contacts.inOrder threeContacts.source).toOption.map fun cells =>
          cells.map fun cell => (cell.row, cell.column, cell.verdict.passes))
        = some [(0, "Email", false), (0, "Name", true), (1, "Email", true), (1, "Name", true),
          (2, "Email", false), (2, "Name", false)] := by
  have hbatched : contacts.setThrottle inPairs = .ok { contacts with throttle := inPairs } := rfl
  have hsingle : contacts.setThrottle .synchronous
      = .ok { contacts with throttle := .synchronous } := rfl
  exact ⟨batched_run_agrees hbatched hsingle rfl threeContacts.rowByRow_source.ascending true false,
    by decide +kernel⟩

end CellRules.RuleSet
