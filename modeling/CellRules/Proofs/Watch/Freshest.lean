/-
CellRules.Proofs.Watch.Freshest — reports of evaluations beside runs over all rows.

Evaluations of a cell are ordered against each other by their generations. A run over all rows is
ordered against NOTHING: it looks at the rows at its beginning and delivers every cell at its end,
without a look at the ledger. So what was just reported for an edited cell may be replaced by a
verdict on what the cell held before.

`freshest_report_wins_iff` says exactly when the report that stands at rest is out of date: when it
is that of a run over all rows that looked at the rows before the newest evaluation of the cell was
asked for. `stale_after_all_rows` is such a run.
-/
import CellRules.Check.Required
import CellRules.Proofs.Watch.Threads.Newest

namespace CellRules.Watch

/-- Where a task looks at the grid for its report on a cell. -/
def lookOf (key : CellKey) : Task → Happening
  | .evaluation generation => .read (.evaluation generation) key
  | .call id | .strand id _ => .surveyed id

/-- The task looked at the grid after the evaluation of the cell was asked for. -/
def LookedAfter (h : List Happening) (key : CellKey) (generation : Nat) (reporter : Task) : Prop :=
  ∃ h₁ h₂, h = h₁ ++ lookOf key reporter :: h₂ ∧ AskedFor h₁ key generation

/-- The call looked at the rows before the evaluation of the cell was asked for. -/
def SurveyedBefore (h : List Happening) (key : CellKey) (generation : Nat) (id : Nat) : Prop :=
  ∃ h₁ h₂, h = h₁ ++ .surveyed id :: h₂ ∧ AskedFor h₂ key generation

variable {u : Setup} {grid : Grid} {s s' : State} {h h₁ h₂ h₃ : List Happening} {key : CellKey}
  {g : Nat} {reporter : Task} {v : Verdict}

/-! ## Once seen -/

/-- What is seen once splits the history in one way. -/
theorem split_unique {x : Happening} (honce : h.count x ≤ 1) {k₁ k₂ : List Happening}
    (hh : h = h₁ ++ x :: h₂) (hk : h = k₁ ++ x :: k₂) : h₁ = k₁ ∧ h₂ = k₂ := by
  have hcount : h₁.count x + h₂.count x = 0 := by
    rw [hh, List.count_append, List.count_cons_self] at honce
    omega
  have hfirst : x ∉ h₁ := List.not_mem_of_count_eq_zero (by omega)
  have hlast : x ∉ h₂ := List.not_mem_of_count_eq_zero (by omega)
  obtain ⟨heq₁, -, heq₂⟩ :=
    (List.append_cons_inj_of_notMem hfirst hlast).mp (hh.symm.trans hk)
  exact ⟨heq₁, heq₂⟩

/-! ## The last report -/

/-- A cell that was reported has a last report. -/
theorem exists_lastReport (hmem : .reported reporter key v ∈ h) :
    ∃ reporter v, LastReport h key reporter v := by
  induction h generalizing reporter v with
  | nil => cases hmem
  | cons x h ih =>
    by_cases hlater : ∃ reporter v, Happening.reported reporter key v ∈ h
    · obtain ⟨r, w, hlater⟩ := hlater
      obtain ⟨reporter, v, h₁, h₂, rfl, hlast⟩ := ih hlater
      exact ⟨reporter, v, x :: h₁, h₂, rfl, hlast⟩
    · rcases List.mem_cons.mp hmem with rfl | hmem
      · exact ⟨reporter, v, [], h, rfl, fun r w hw => hlater ⟨r, w, hw⟩⟩
      · exact absurd ⟨reporter, v, hmem⟩ hlater

/-- Who reports is an evaluation or a call. -/
theorem Run.reported_by (background : u.ruleSet.throttle.background = true)
    (run : Run u (.start u grid) h s) (hopen : s.closed = false)
    (hx : h = h₁ ++ .reported reporter key v :: h₂) :
    (∃ g, reporter = .evaluation g) ∨ ∃ id, reporter = .call id := by
  by_cases hreporter : ∃ g, reporter = .evaluation g
  · exact .inl hreporter
  · obtain ⟨id, -, -, -, hid, -⟩ :=
      run.surveyed_of_reported background hopen hx fun g hg => hreporter ⟨g, hg⟩
    exact .inr ⟨id, hid⟩

/-- The look at the grid comes before the report. -/
theorem Run.look_before (background : u.ruleSet.throttle.background = true)
    (run : Run u (.start u grid) h s) (hopen : s.closed = false)
    (hx : h = h₁ ++ .reported reporter key v :: h₂) : lookOf key reporter ∈ h₁ := by
  by_cases hreporter : ∃ g, reporter = .evaluation g
  · obtain ⟨g, rfl⟩ := hreporter
    obtain ⟨at₀, next, fanOut, report, rows, hreporting, -, -⟩ := run.reporting background hx
    obtain ⟨k₁, mid, k₂, rfl, -⟩ := hreporting.reading
    simp [lookOf]
  · obtain ⟨id, at₀, survey, delivered, rfl, -, hsurvey, -⟩ :=
      run.surveyed_of_reported background hopen hx fun g hg => hreporter ⟨g, hg⟩
    exact hsurvey.mem

/-- Of two reports of evaluations the later one is of the newer evaluation; if that one read the
grid first nevertheless, it was asked for before the older one read. -/
theorem Run.reports_ordered (background : u.ruleSet.throttle.background = true)
    (run : Run u (.start u grid) h s) (hopen : s.closed = false) {g₁ g₂ : Nat} {v₁ v₂ : Verdict}
    (hx : h = h₁ ++ .reported (.evaluation g₁) key v₁ :: h₂ ++
      .reported (.evaluation g₂) key v₂ :: h₃) :
    g₁ < g₂ ∧ ∀ k₁ k₂, h = k₁ ++ .read (.evaluation g₁) key :: k₂ →
      .read (.evaluation g₂) key ∈ k₁ → AskedFor k₁ key g₂ := by
  constructor
  · have hasc := run.reports_ascending background key
    have hsplit : reportedOf key h
        = reportedOf key h₁ ++ g₁ :: (reportedOf key h₂ ++ g₂ :: reportedOf key h₃) := by
      simp [hx, reportedOf, Happening.reportOf?]
    rw [hsplit, List.pairwise_append, List.pairwise_cons] at hasc
    exact hasc.2.1.1 g₂ (by simp)
  · intro k₁ k₂ hk hread
    obtain ⟨mid, hbefore, next, hstep, hafter⟩ := run.moment hk
    exact hbefore.asked_of_read background (hstep.open (hafter.open hopen)) hread

/-- Of the evaluations, the newest one reports last. -/
theorem Run.newest_of_lastReport (background : u.ruleSet.throttle.background = true)
    (run : Run u (.start u grid) h s) (hopen : s.closed = false) (hnewest : Newest h key g)
    (hreported : Reported h key g) {g' : Nat} (hlast : LastReport h key (.evaluation g') v) :
    g' = g := by
  obtain ⟨l₁, l₂, hl, hnone⟩ := hlast
  obtain ⟨w, hw⟩ := hreported
  have hle : g' ≤ g := hnewest.2 g' <|
    (run.lawful background hopen).chronicle.reportedAsked key g' ⟨v, by rw [hl]; simp⟩
  rw [hl] at hw
  rcases List.mem_append.mp hw with hfirst | hw
  · obtain ⟨m₁, m₂, rfl⟩ := List.append_of_mem hfirst
    have hsplit : h = m₁ ++ .reported (.evaluation g) key w :: m₂ ++
        .reported (.evaluation g') key v :: l₂ := by
      simpa using hl
    have hlt := (run.reports_ordered background hopen hsplit).1
    omega
  · rcases List.mem_cons.mp hw with heq | hw
    · simp only [Happening.reported.injEq, Task.evaluation.injEq] at heq
      exact heq.1.symm
    · exact absurd hw (hnone _ _)

/-- A run over all rows looked at the rows after an evaluation was asked for, or before it. -/
theorem Run.lookedAfter_call_iff (background : u.ruleSet.throttle.background = true)
    (run : Run u (.start u grid) h s) (hopen : s.closed = false) (hasked : AskedFor h key g)
    {id : Nat} (hsurveyed : .surveyed id ∈ h) :
    LookedAfter h key g (.call id) ↔ ¬SurveyedBefore h key g id := by
  constructor
  · rintro ⟨k₁, k₂, hk, hbefore⟩ ⟨m₁, m₂, hm, asker, columns, hafter⟩
    obtain ⟨rfl, rfl⟩ := split_unique ((run.surveyed_once background hopen).once id) hk hm
    rw [hk] at run
    -- it would have been asked for twice
    exact Nat.lt_irrefl g <| run.asked_ascending background hopen hbefore
      ⟨asker, columns, List.mem_cons_of_mem _ hafter⟩
  · intro hnot
    obtain ⟨k₁, k₂, hk⟩ := List.append_of_mem hsurveyed
    obtain ⟨asker, columns, hmem⟩ := hasked
    rw [hk] at hmem
    rcases List.mem_append.mp hmem with hmem | hmem
    · exact ⟨k₁, k₂, hk, asker, columns, hmem⟩
    · refine absurd ⟨k₁, k₂, hk, asker, columns, ?_⟩ hnot
      simpa using hmem

/-- Reports beside runs over all rows. Every report has its look at the grid before it, and reports
of evaluations come with growing generations. One that was made by an older look than one before it
is that of a run over all rows or follows one, or the evaluation before had not read the grid when
it was superseded. And the report that stands on a cell at rest was made by a look at the grid after
the newest evaluation was asked for EXACTLY if it is not that of a run over all rows that looked at
the rows before. Where tasks come between the pieces of each other's steps, a report of a smaller
generation follows only if its evaluation was asked for after the other one was reported. -/
theorem freshest_report_wins_iff (background : u.ruleSet.throttle.background = true)
    (run : Run u (.start u grid) h s) (hopen : s.closed = false)
    (sound : ∀ x ∈ h, x.isProblem = false) :
    (∀ key h₁ reporter v h₂, h = h₁ ++ .reported reporter key v :: h₂ →
        lookOf key reporter ∈ h₁) ∧
      (∀ key, (reportedOf key h).Pairwise (· < ·)) ∧
      (∀ key h₁ r₁ v₁ h₂ r₂ v₂ h₃,
        h = h₁ ++ .reported r₁ key v₁ :: h₂ ++ .reported r₂ key v₂ :: h₃ →
        ∀ k₁ k₂, h = k₁ ++ lookOf key r₁ :: k₂ → lookOf key r₂ ∈ k₁ →
          (∃ id, r₁ = .call id ∨ r₂ = .call id) ∨
            ∃ g₁ g₂, r₁ = .evaluation g₁ ∧ r₂ = .evaluation g₂ ∧ g₁ < g₂ ∧ AskedFor k₁ key g₂) ∧
      (∀ key g, s.ledger.find? key = none → Newest h key g →
        ∃ reporter v, LastReport h key reporter v ∧
          (u.Faithful → s.sink.latest? key.row key.column = some v) ∧
          (LookedAfter h key g reporter ↔
            ¬∃ id, reporter = .call id ∧ SurveyedBefore h key g id)) ∧
      ∀ k t, Threads.Run u (.whole (.start u grid)) k t → ∀ key, Threads.NoneLate key k →
        ∀ k₁ g₁ v₁ k₂ g₂ v₂ k₃,
          k = k₁ ++ .reported (.evaluation g₁) key v₁ :: k₂ ++
            .reported (.evaluation g₂) key v₂ :: k₃ →
          g₁ < g₂ ∨ AskedFor k₂ key g₂ := by
  refine ⟨fun key h₁ reporter v h₂ hx => run.look_before background hopen hx,
    run.reports_ascending background, ?_, fun key g hidle hnewest => ?_,
    fun k t hthreads key hlate _ _ _ _ _ _ _ hk => hthreads.later_report hlate hk⟩
  · intro key h₁ r₁ v₁ h₂ r₂ v₂ h₃ hx k₁ k₂ hk hlook
    rcases run.reported_by background hopen (by simpa using hx) with ⟨g₁, rfl⟩ | ⟨id, rfl⟩
    · rcases run.reported_by background hopen hx with ⟨g₂, rfl⟩ | ⟨id, rfl⟩
      · obtain ⟨hlt, hasked⟩ := run.reports_ordered background hopen hx
        exact .inr ⟨g₁, g₂, rfl, rfl, hlt, hasked k₁ k₂ hk hlook⟩
      · exact .inl ⟨id, .inr rfl⟩
    · exact .inl ⟨id, .inl rfl⟩
  rcases run.newest_reported background hopen hidle hnewest with
    ⟨p, hp⟩ | ⟨h₁, at₀, h₂, fanOut, report, rows, hx, -, hreading, hlater⟩
  · cases sound _ hp
  have hreported : Reported h key g := ⟨report.verdict, by rw [hx]; simp⟩
  obtain ⟨reporter, v, hlast⟩ : ∃ reporter v, LastReport h key reporter v :=
    exists_lastReport hreported.choose_spec
  refine ⟨reporter, v, hlast,
    fun hview => hlast.latest? (run.sink_deliveries background hview hopen), ?_⟩
  have ⟨l₁, l₂, hl, _⟩ := hlast
  rcases run.reported_by background hopen hl with ⟨g', rfl⟩ | ⟨id, rfl⟩
  · -- an evaluation that reports last is the newest one, which reads after it was asked for
    obtain rfl := run.newest_of_lastReport background hopen hnewest hreported hlast
    obtain ⟨k₁, mid, k₂, rfl, -, hbegan, -⟩ := hreading
    refine iff_of_true ⟨k₁, k₂ ++ .reported (.evaluation g') key report.verdict :: h₂,
      by rw [hx]; simp [lookOf], hbegan.askedFor⟩ ?_
    rintro ⟨id, hid, -⟩
    cases hid
  · have hsurveyed : .surveyed id ∈ h := by
      rw [hl]
      exact List.mem_append_left _ (run.look_before background hopen hl)
    rw [run.lookedAfter_call_iff background hopen hnewest.1 hsurveyed]
    simp

/-! ## An edit while all rows are judged -/

/-- The cells of a column must not be blank, which takes a second to find out. -/
def slowRequiredRule : Rule where
  name := "Code_required"
  description := none
  targets := ["Code"]
  dependencies := []
  guard := none
  validators := [.delayed fun ctx => .after 1000 (.ok (Check.required ctx))]
  scopes := []
  severity := .error
  priority := 0
  message := ""

def lateWatch : Setup where
  ruleSet :=
    { name := "items"
      rules := [slowRequiredRule]
      throttle := { Throttle.interactive with debounce := 10, batched := false } }
  view := Grid.source

def lateGrid : Grid := ⟨["Code"], [[.text ""], [.text "b"]]⟩

/-- The blank cell is filled while the run over all rows waits for the slow rule. -/
def lateMoves : List Move :=
  List.flatten
    [[.validateAll], Task.steps 3 (.call 0), Task.steps 3 (.strand 0 0),
      [.setCell 0 "Code" (.text "a"), .edit 0 "Code"], Task.steps 2 (.call 1),
      Task.steps 1 (.evaluation 0), [.pass 10], Task.steps 4 (.evaluation 0), [.pass 1000],
      Task.steps 4 (.strand 0 0), Task.steps 5 (.evaluation 0), [.pass 1000],
      Task.steps 3 (.strand 0 0), Task.steps 4 (.call 0)]

def lateHistory : List Happening :=
  [.calledAll 0, .surveyed 0, .wrote 0 "Code", .told 1 0 "Code",
    .asked (.call 1) ⟨0, "Code"⟩ 0 ["Code"], .began ⟨0, "Code"⟩ 0 ["Code"],
    .read (.evaluation 0) ⟨0, "Code"⟩, .reported (.evaluation 0) ⟨0, "Code"⟩ .success,
    .reported (.call 0) ⟨0, "Code"⟩ (.error "Code is required"),
    .reported (.call 0) ⟨1, "Code"⟩ .success]

theorem late_run :
    ∃ s, Run lateWatch (.start lateWatch lateGrid) lateHistory s ∧ s.closed = false ∧
      s.ledger.isEmpty = true ∧ s.sink.latest? 0 "Code" = some (.error "Code is required") ∧
      ((lateWatch.ruleSet.evaluateCell (s.source lateWatch) 0 "Code").answer.map
        (·.verdict)).toOption = some .success := by
  have hrecord : ((State.start lateWatch lateGrid).record? lateWatch lateMoves).map
      (fun p => (p.1, p.2.closed, p.2.ledger.isEmpty, p.2.sink.latest? 0 "Code",
        ((lateWatch.ruleSet.evaluateCell (p.2.source lateWatch) 0 "Code").answer.map
          (·.verdict)).toOption))
        = some (lateHistory, false, true, some (.error "Code is required"), some .success) := by
    decide +kernel
  obtain ⟨⟨h, s⟩, hs, heq⟩ := Option.map_eq_some_iff.mp hrecord
  simp only [Prod.mk.injEq] at heq
  obtain ⟨rfl, hopen, hempty, hlatest, hfinal⟩ := heq
  exact ⟨s, Run.of_record? hs, hopen, hempty, hlatest, hfinal⟩

theorem freshest_report_wins_iff_late :
    ∃ s reporter v, Run lateWatch (.start lateWatch lateGrid) lateHistory s ∧
      LastReport lateHistory ⟨0, "Code"⟩ reporter v ∧
      (LookedAfter lateHistory ⟨0, "Code"⟩ 0 reporter ↔
        ¬∃ id, reporter = .call id ∧ SurveyedBefore lateHistory ⟨0, "Code"⟩ 0 id) := by
  obtain ⟨s, run, hopen, hempty, -⟩ := late_run
  have hnewest : Newest lateHistory ⟨0, "Code"⟩ 0 := by
    refine ⟨⟨.call 1, ["Code"], by decide⟩, ?_⟩
    rintro g ⟨asker, fanOut, ha⟩
    simp [lateHistory] at ha
    omega
  obtain ⟨-, -, -, hrest, -⟩ := freshest_report_wins_iff rfl run hopen (by decide)
  obtain ⟨reporter, v, hlast, -, hiff⟩ := hrest _ 0 (Ledger.find?_of_isEmpty hempty) hnewest
  exact ⟨s, reporter, v, run, hlast, hiff⟩

/-- No report on a cell was made by an older look at the grid than a report before it. -/
def InLookOrder (h : List Happening) : Prop :=
  ∀ key h₁ r₁ v₁ h₂ r₂ v₂ h₃,
    h = h₁ ++ .reported r₁ key v₁ :: h₂ ++ .reported r₂ key v₂ :: h₃ →
    ∀ k₁ k₂, h = k₁ ++ lookOf key r₁ :: k₂ → lookOf key r₂ ∉ k₁

/-- A filled cell is left with the verdict that it is blank: the run over all rows delivers it after
the evaluation that the edit asked for. -/
theorem stale_after_all_rows :
    ∃ h s, Run lateWatch (.start lateWatch lateGrid) h s ∧ s.closed = false ∧
      s.ledger.isEmpty = true ∧ (∀ x ∈ h, x.isProblem = false) ∧ ¬InLookOrder h ∧
      s.sink.latest? 0 "Code" = some (.error "Code is required") ∧
      ((lateWatch.ruleSet.evaluateCell (s.source lateWatch) 0 "Code").answer.map
        (·.verdict)).toOption = some .success := by
  obtain ⟨s, run, hopen, hempty, hlatest, hfinal⟩ := late_run
  refine ⟨lateHistory, s, run, hopen, hempty, by decide, fun horder => ?_, hlatest, hfinal⟩
  exact horder ⟨0, "Code"⟩ (lateHistory.take 7) (.evaluation 0) .success [] (.call 0)
    (.error "Code is required") [.reported (.call 0) ⟨1, "Code"⟩ .success] rfl
    (lateHistory.take 6) (lateHistory.drop 7) rfl (by decide)

end CellRules.Watch
