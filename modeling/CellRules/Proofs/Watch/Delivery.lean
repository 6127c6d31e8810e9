/-
CellRules.Proofs.Watch.Delivery — the sink, the flagged cells and the history agree.

Reports are known in the history by the cell that was asked for; the sink knows them by the row and
the column that the REPORT names. Both are the same if the view is faithful: a row that is read by
its index has that index. Then the sink holds the reports of the history in order
(`Run.sink_deliveries`), and the latest verdict on a cell is that of its last report
(`LastReport.latest?`). That the flagged cells are those whose latest verdict fails holds for every
view (`Run.flagged`).
-/
import CellRules.Proofs.RuleSet.Judging
import CellRules.Proofs.Watch.AllRows

namespace CellRules.Watch

/-- The row that is read for an index has that index. -/
def Setup.Faithful (u : Setup) : Prop :=
  ∀ grid row ctx, (u.view grid).row row = .ok ctx → ctx.row = row

/-- The report is the last one on the cell. -/
def LastReport (h : List Happening) (key : CellKey) (reporter : Task) (verdict : Verdict) : Prop :=
  ∃ h₁ h₂, h = h₁ ++ .reported reporter key verdict :: h₂ ∧
    ∀ reporter verdict, Happening.reported reporter key verdict ∉ h₂

/-- What a report hands to the sink. -/
def Happening.delivery? : Happening → Option Delivery
  | .reported _ key verdict => some ⟨key.row, key.column, verdict⟩
  | _ => none

variable {u : Setup} {grid : Grid} {s s' : State} {h h₁ h₂ : List Happening}
  {x : Option Happening} {key : CellKey} {v : Verdict}

/-! ## The cell of a report -/

/-- Judging a cell of a faithful view reports on that cell. -/
theorem State.report_of_judging (hview : u.Faithful) {report : CellReport} {rows : Dataset}
    (h : (s.judging u key).answer = .ok (report, rows)) :
    (⟨report.row, report.column⟩ : CellKey) = key := by
  obtain ⟨hrow, hcolumn⟩ := RuleSet.report_of_judging (fun raw hraw => hview _ _ raw hraw) h
  rw [hrow, hcolumn]

/-- Reports of a faithful view name the cell they were asked for. -/
theorem Reading.report_key (hview : u.Faithful) {s₀ : State} {g : Nat} {fanOut : List String}
    {report : CellReport} {rows : Dataset}
    (hr : Reading u s₀ h s key g fanOut (.ok (report, rows))) :
    (⟨report.row, report.column⟩ : CellKey) = key := by
  obtain ⟨_, mid, _, -, -, -, hanswer⟩ := hr
  exact State.report_of_judging hview hanswer

/-! ## The sink -/

/-- A step hands to the sink what its report says. -/
theorem Effect.sink_deliveries (hview : u.Faithful) (hlaw : Lawful u grid h s)
    (hopen' : s'.closed = false) (heffect : Effect u s x s') :
    s'.sink.deliveries = s.sink.deliveries ++ x.toList.filterMap Happening.delivery? := by
  have hopen := hlaw.isOpen.closed
  have hsame : s'.deliveries = s.deliveries → x.toList.filterMap Happening.delivery? = [] →
      s'.sink.deliveries = s.sink.deliveries ++ x.toList.filterMap Happening.delivery? := by
    intro hdeliveries hx
    rw [State.sink, State.sink, hdeliveries, hx, List.append_nil]
  cases heffect with
  | @course e _ _ hknown hcourse =>
    have htold := hlaw.told e (State.mem_of_evaluation? hknown)
    cases hcourse with
    | @report _ report rows fanOut ledger hstage hwanted hclaim hs =>
      rw [Told, hstage] at htold
      have hkey := Reading.report_key hview (htold.2 hwanted)
      have hdeliveries : s'.deliveries
          = s.deliveries ++ [(s.now, ⟨report.row, report.column, report.verdict⟩)] :=
        hs.deliveries
      rw [State.sink, State.sink, hdeliveries, ← hkey]
      simp [Happening.delivery?]
    | @spread _ key keys hstage hs =>
      exact hsame (hs.deliveries.trans (State.schedule_alike (u := u) hopen key []).deliveries) rfl
    | arm _ hs | discard _ _ hs | begin _ _ _ hs | queue _ hs | read _ hs | giveUp _ _ hs
    | work _ _ hs | stop _ _ hs | ignore _ _ hs | fail _ _ hs | finish _ hs =>
      exact hsame (hs.deliveries.trans rfl) rfl
  | @ask c edited job todo _ hknown hstage hs =>
    have halike := State.schedule_alike (u := u) hopen job.key [edited]
    exact hsame (hs.deliveries.trans halike.deliveries) rfl
  | call hknown hcourse =>
    cases hcourse with
    | @deliver _ cell todo cells hstage hs =>
      have hdeliveries : s'.deliveries
          = s.deliveries ++ [(s.now, ⟨cell.row, cell.column, cell.verdict⟩)] := hs.deliveries
      rw [State.sink, State.sink, hdeliveries]
      simp [Happening.delivery?]
    | told _ hs | survey _ _ hs | look _ _ hs | found _ _ hs | strand _ _ hs | judged _ _ hs
    | conclude _ hs | refuse _ hs => exact hsame (hs.deliveries.trans rfl) rfl
  | outside hout =>
    cases hout with
    | write _ hs | push hs | tell hs | askAll hs | wait hs =>
      exact hsame (hs.deliveries.trans rfl) rfl
  | close hclosed =>
    subst hclosed
    cases hopen'

/-- The sink of a faithful view holds the reports of the history in order. -/
theorem Run.sink_deliveries (background : u.ruleSet.throttle.background = true)
    (hview : u.Faithful) (run : Run u (.start u grid) h s) (hopen : s.closed = false) :
    s.sink.deliveries = h.filterMap Happening.delivery? := by
  refine (Run.induction_open background
    (motive := fun h s => s.sink.deliveries = h.filterMap Happening.delivery?)
    (State.open_start u grid) rfl ?_ run hopen).2
  intro h s₁ y s₂ hrun ho₁ ho₂ _ heffect ih
  rw [heffect.sink_deliveries hview (hrun.lawful background ho₁.closed) ho₂.closed, ih,
    List.filterMap_append]

/-- A report on another cell leaves the last report on this one. -/
theorem LastReport.concat {reporter r : Task} {k : CellKey} {w : Verdict}
    (hlast : LastReport h key reporter v) (hne : k ≠ key) :
    LastReport (h ++ [.reported r k w]) key reporter v := by
  obtain ⟨h₁, h₂, rfl, hnone⟩ := hlast
  refine ⟨h₁, h₂ ++ [.reported r k w], by simp, fun q u hmem => ?_⟩
  rcases List.mem_append.mp hmem with hmem | hmem
  · exact hnone q u hmem
  · simp only [List.mem_singleton, Happening.reported.injEq] at hmem
    exact hne hmem.2.1.symm

/-- The latest verdict on a cell is that of its last report. -/
theorem LastReport.latest? {reporter : Task} (hlast : LastReport h key reporter v)
    (hsink : s.sink.deliveries = h.filterMap Happening.delivery?) :
    s.sink.latest? key.row key.column = some v := by
  obtain ⟨h₁, h₂, rfl, hrest⟩ := hlast
  have hnone : (h₂.filterMap Happening.delivery?).filter
      (fun d => d.row == key.row && d.column == key.column) = [] := by
    rw [List.filter_eq_nil_iff]
    intro d hd
    obtain ⟨y, hy, hyd⟩ := List.mem_filterMap.mp hd
    cases y with
    | reported reporter k v' =>
      obtain rfl := Option.some.inj hyd
      intro hkey
      rw [Bool.and_eq_true, beq_iff_eq, beq_iff_eq] at hkey
      have hk : k = key := by
        obtain ⟨row, column⟩ := k
        obtain ⟨rfl, rfl⟩ := hkey
        rfl
      subst hk
      exact hrest reporter v' hy
    | _ => cases hyd
  rw [Sink.latest?, Sink.forCell, hsink, List.filterMap_append, List.filterMap_cons]
  simp [Happening.delivery?, hnone]

/-! ## Flagged cells -/

theorem State.mem_flagWith {other : CellKey} {fails : Bool} {flagged : List CellKey} :
    other ∈ flagWith key fails flagged ↔
      if other = key then fails = true else other ∈ flagged := by
  unfold flagWith
  cases fails with
  | true =>
    by_cases h : key ∈ flagged
    · by_cases ho : other = key
      · simp [h, ho]
      · simp [h, ho]
    · by_cases ho : other = key
      · simp [h, ho]
      · simp [h, ho]
  | false =>
    by_cases ho : other = key
    · simp [ho]
    · simp [ho]

/-- The flagged cells are those whose latest verdict fails. -/
def State.FlagsFailures (s : State) : Prop :=
  ∀ key : CellKey,
    key ∈ s.flagged ↔ ∃ v, s.sink.latest? key.row key.column = some v ∧ v.fails = true

/-- A report is the latest on its cell. -/
theorem State.latest?_deliver (u : Setup) (s : State) (r : CellReport) (row : Nat)
    (column : String) : (s.deliver u r).sink.latest? row column =
      if r.row = row ∧ r.column = column then some r.verdict else s.sink.latest? row column := by
  have hsink : (s.deliver u r).sink.deliveries
      = s.sink.deliveries ++ [⟨r.row, r.column, r.verdict⟩] := by
    simp [sink]
  rw [Sink.latest?, Sink.forCell, hsink, List.filter_append, List.filter_singleton]
  by_cases hcell : r.row = row ∧ r.column = column
  · simp [hcell]
  · have hfalse : (r.row == row && r.column == column) = false := by simpa using hcell
    simp only [hcell, hfalse, if_false, cond_false, List.append_nil]
    rfl

theorem State.FlagsFailures.deliver (hs : s.FlagsFailures) (r : CellReport) :
    (s.deliver u r).FlagsFailures := by
  intro key
  have hflagged : (s.deliver u r).flagged = flagWith ⟨r.row, r.column⟩ r.verdict.fails s.flagged :=
    rfl
  rw [hflagged, mem_flagWith, latest?_deliver]
  by_cases hkey : key = ⟨r.row, r.column⟩
  · subst hkey
    simp
  · have hother : ¬(r.row = key.row ∧ r.column = key.column) := by
      rintro ⟨hrow, hcolumn⟩
      exact hkey (by rw [hrow, hcolumn])
    rw [if_neg hkey, if_neg hother]
    exact hs key

theorem Effect.flagged (hs : s.FlagsFailures) (hopen : s.closed = false)
    (hopen' : s'.closed = false) (heffect : Effect u s x s') : s'.FlagsFailures := by
  have hsame : ∀ {t : State}, t.FlagsFailures → s'.flagged = t.flagged →
      s'.deliveries = t.deliveries → s'.FlagsFailures := by
    intro t ht hflagged hdeliveries
    rw [State.FlagsFailures, hflagged, State.sink, hdeliveries]
    exact ht
  cases heffect with
  | course hknown hcourse =>
    cases hcourse with
    | @report _ report rows fanOut ledger hstage hwanted hclaim hs' =>
      have hdelivered := State.FlagsFailures.deliver (u := u) (s := { s with ledger }) hs report
      exact hsame hdelivered hs'.flagged hs'.deliveries
    | @spread _ key keys hstage hs' =>
      have halike := State.schedule_alike (u := u) hopen key []
      exact hsame hs (hs'.flagged.trans halike.flagged) (hs'.deliveries.trans halike.deliveries)
    | arm _ hs' | discard _ _ hs' | begin _ _ _ hs' | queue _ hs' | read _ hs' | giveUp _ _ hs'
    | work _ _ hs' | stop _ _ hs' | ignore _ _ hs' | fail _ _ hs' | finish _ hs' =>
      exact hsame hs (hs'.flagged.trans rfl) (hs'.deliveries.trans rfl)
  | @ask c edited job todo _ hknown hstage hs' =>
    have halike := State.schedule_alike (u := u) hopen job.key [edited]
    exact hsame hs (hs'.flagged.trans halike.flagged) (hs'.deliveries.trans halike.deliveries)
  | call hknown hcourse =>
    cases hcourse with
    | @deliver _ cell todo cells hstage hs' =>
      exact hsame (hs.deliver (u := u) cell) hs'.flagged hs'.deliveries
    | told _ hs' | survey _ _ hs' | look _ _ hs' | found _ _ hs' | strand _ _ hs' | judged _ _ hs'
    | conclude _ hs' | refuse _ hs' =>
      exact hsame hs (hs'.flagged.trans rfl) (hs'.deliveries.trans rfl)
  | outside hout =>
    cases hout with
    | write _ hs' | push hs' | tell hs' | askAll hs' | wait hs' =>
      exact hsame hs (hs'.flagged.trans rfl) (hs'.deliveries.trans rfl)
  | close hclosed =>
    subst hclosed
    cases hopen'

/-- In an open watch the flagged cells are those whose latest verdict fails. -/
theorem Run.flagged (background : u.ruleSet.throttle.background = true)
    (run : Run u (.start u grid) h s) (hopen : s.closed = false) : s.FlagsFailures := by
  refine (Run.induction_open background (motive := fun _ s => s.FlagsFailures)
    (State.open_start u grid) (fun key => ?_) ?_ run hopen).2
  · simp [State.start, State.sink, Sink.latest?, Sink.forCell]
  · exact fun _ _ _ _ _ ho₁ ho₂ _ heffect hs => heffect.flagged hs ho₁.closed ho₂.closed

end CellRules.Watch
