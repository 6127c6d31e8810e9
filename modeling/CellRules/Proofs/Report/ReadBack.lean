/-
CellRules.Proofs.Report.ReadBack — a report that was written as JSON is read again.

The text over several lines and the compact one are texts of one value (`ofText?_jsonText`), and
what that value says is decoded from it as any other data (`Shown.ofJson?`): the counts and the
issues one by one, and the members that the options leave out as absent. What it says of the whole
report, the status and the number of issues, does not depend on the part that is shown
(`shown_recovered`).
-/
import CellRules.Proofs.Json.RoundTrip
import CellRules.Report.Data

namespace CellRules

open Json Number

variable {unread : Prop}

/-! ## Issues and counts -/

theorem Issue.sound_toJson (i : Issue) : Sound unread i.toJson :=
  .object (by simpa [members] using ⟨sound_nat _, .string _, .string _, .string _, .string _⟩)

/-- An issue whose row has an index of sixty-four bits is decoded from what it is encoded as. -/
theorem Issue.ofJson?_toJson {i : Issue} (h : i.row < twoTo 64) : ofJson? i.toJson = some i := by
  have hrecord : i.toJson.record? false members
      = some [some (.nat i.row), some (.string i.column), some (.string i.rule),
        some i.severity.toJson, some (.string i.message)] := rfl
  have hseverity : Severity.ofJson? i.severity.toJson = some i.severity :=
    Severity.ofWord?_word i.severity
  simp [ofJson?, hrecord, nat64?_nat h, hseverity, string?]

theorem Metrics.sound_toJson (m : Metrics) : Sound unread m.toJson := by
  refine .object fun member hmember => ?_
  obtain ⟨count, -, rfl⟩ := List.mem_map.mp hmember
  exact sound_nat _

/-- Counts of sixty-four bits are decoded from what they are encoded as. -/
theorem Metrics.ofJson?_toJson {m : Metrics} (h : ∀ count ∈ m.members, count.2 < twoTo 64) :
    ofJson? m.toJson = some m := by
  have hrecord : m.toJson.record? false ((members {}).map (·.1))
      = some (m.members.map fun count => some (.nat count.2)) := rfl
  have hcounts : (m.members.map fun count => some (Json.nat count.2)).mapM
      (fun v => v.bind Json.nat64?) = some (m.members.map (·.2)) := by
    rw [mapM_eq_some, List.forall₂_map_left_iff, List.forall₂_map_right_iff]
    exact List.forall₂_same.mpr fun count hcount => nat64?_nat (h count hcount)
  simp only [ofJson?, hrecord, Option.bind_eq_bind, Option.bind_some, hcounts]
  rfl

namespace Report

variable {r : Report} {o : Options} {pretty : Bool}

/-! ## What a report shows -/

/-- What a report shows. What the options leave out is absent. -/
structure Shown where
  status : String
  ruleSet : String
  timestamp : Option String
  metrics : Option Metrics
  issues : List Issue
  /-- The number of all issues, whether they are shown or not. -/
  total : Nat
  deriving DecidableEq, Repr

/-- What the report shows under the options. -/
def shown (r : Report) (o : Options) : Shown where
  status := if ∃ issue ∈ r.issues, issue.severity = .error then "failed" else "passed"
  ruleSet := r.ruleSet
  timestamp := if o.timestamp then some r.timestamp else none
  metrics := if o.metrics then some r.metrics else none
  issues :=
    if o.issues then
      r.issues.take (min (o.maxIssues.getD r.issues.length) r.issues.length)
    else []
  total := r.issues.length

/-- A member that may be absent. -/
def memberOr? {α : Type} (decode : Json → Option α) : Option Json → Option (Option α) :=
  withDefault? none fun v => (decode v).map some

def Shown.members : List String :=
  ["status", "rule_set_name", "timestamp", "metrics", "issues", "total_issues"]

def Shown.ofJson? (j : Json) : Option Shown :=
  match j.record? false members with
  | some [status, ruleSet, timestamp, metrics, issues, total] => do
    some
      { status := ← status.bind Json.string?
        ruleSet := ← ruleSet.bind Json.string?
        timestamp := ← memberOr? Json.string? timestamp
        metrics := ← memberOr? Metrics.ofJson? metrics
        issues := ← issues.bind (Json.list? Issue.ofJson?)
        total := ← total.bind Json.nat64? }
  | _ => none

/-- The counts of the report, the indexes of its rows and the number of its issues are numbers of
sixty-four bits. -/
structure Counted (r : Report) : Prop where
  metrics : ∀ count ∈ r.metrics.members, count.2 < twoTo 64
  rows : ∀ issue ∈ r.issues, issue.row < twoTo 64
  issues : r.issues.length < twoTo 64

theorem statusWord_eq (r : Report) : r.statusWord = (r.shown o).status := by
  have herror : r.hasErrors = true ↔ ∃ issue ∈ r.issues, issue.severity = .error := by
    simp [hasErrors]
  by_cases h : ∃ issue ∈ r.issues, issue.severity = .error
  · simp [statusWord, isValid, shown, herror.mpr h, h]
  · have hnone : r.hasErrors = false := Bool.eq_false_iff.mpr (mt herror.mp h)
    simp [statusWord, isValid, shown, hnone, h]

theorem visible_eq (r : Report) (o : Options) : o.visible r = (r.shown o).issues := by
  cases hmax : o.maxIssues with
  | none => simp [Options.visible, shown, hmax]
  | some max => simp [Options.visible, shown, hmax, List.take_eq_take_min]

theorem mem_of_visible {issue : Issue} (h : issue ∈ o.visible r) : issue ∈ r.issues := by
  rw [visible_eq, shown] at h
  dsimp only at h
  split at h
  · exact List.mem_of_mem_take h
  · cases h

/-! ## The value -/

theorem sound_memberIf {condition : Bool} {name : String} {v : Json} (hv : Sound unread v) :
    ∀ m ∈ memberIf condition name v, Sound unread m.2 := by
  intro m hm
  cases condition with
  | false => cases hm
  | true =>
    rw [List.mem_singleton.mp hm]
    exact hv

theorem sound_toJson (r : Report) (o : Options) : Sound unread (r.toJson o) := by
  have hissues : ∀ v ∈ (o.visible r).map Issue.toJson, Sound unread v :=
    List.forall_mem_map.mpr fun issue _ => issue.sound_toJson
  refine .object ?_
  simp only [List.forall_mem_append, List.forall_mem_cons]
  exact ⟨⟨⟨⟨.string _, .string _, nofun⟩, sound_memberIf (.string _)⟩,
    sound_memberIf r.metrics.sound_toJson⟩, .array hissues, sound_nat _, nofun⟩

/-- Either text of a report is read as the value that it is the text of. -/
theorem ofText?_jsonText (r : Report) (o : Options) (pretty : Bool) :
    ofText? (r.jsonText o pretty) = some (r.toJson o) := by
  cases pretty with
  | false => exact ofText?_compact (r.sound_toJson o)
  | true => exact ofText?_pretty (r.sound_toJson o)

/-- A member that is there under a condition is found under this condition. -/
theorem record?_toJson (r : Report) (o : Options) :
    (r.toJson o).record? false Shown.members
      = some [some (.string r.statusWord), some (.string r.ruleSet),
        if o.timestamp then some (.string r.timestamp) else none,
        if o.metrics then some r.metrics.toJson else none,
        some (.array ((o.visible r).map Issue.toJson)), some (.nat r.issues.length)] := by
  rw [toJson]
  cases o.timestamp <;> cases o.metrics <;> rfl

theorem memberOr?_if {α : Type} {decode : Json → Option α} {v : Json} {a : α}
    (h : decode v = some a) (condition : Bool) :
    memberOr? decode (if condition then some v else none)
      = some (if condition then some a else none) := by
  cases condition with
  | false => rfl
  | true => simp [memberOr?, withDefault?, h]

theorem list?_visible (hrows : ∀ issue ∈ r.issues, issue.row < twoTo 64) :
    (Json.array ((o.visible r).map Issue.toJson)).list? Issue.ofJson? = some (o.visible r) := by
  rw [list?, mapM_eq_some, List.forall₂_map_left_iff]
  exact List.forall₂_same.mpr fun issue hissue =>
    Issue.ofJson?_toJson (hrows issue (mem_of_visible hissue))

/-- What a report shows is decoded from its value. -/
theorem Counted.ofJson?_toJson (h : r.Counted) (o : Options) :
    Shown.ofJson? (r.toJson o) = some (r.shown o) := by
  have hstring : Json.string? (.string r.timestamp) = some r.timestamp := rfl
  have htimestamp := memberOr?_if hstring o.timestamp
  have hmetrics := memberOr?_if (Metrics.ofJson?_toJson h.metrics) o.metrics
  have hissues := list?_visible (o := o) h.rows
  simp only [Shown.ofJson?, record?_toJson, htimestamp, hmetrics, hissues, nat64?_nat h.issues,
    Json.string?, Option.bind_eq_bind, Option.bind_some]
  rw [statusWord_eq (o := o), visible_eq]
  rfl

/-- The text of a report over several lines and its compact text are read as one value, and if the
counts of the report are numbers of sixty-four bits, that value says what the report shows: how it
ends, by whatever issue; its name; the timestamp and the counts if they are shown; the first of its
issues in order, as many as are shown; and how many there are. -/
theorem shown_recovered (r : Report) (o : Options) :
    ∃ j, ofText? (r.jsonText o true) = some j ∧ ofText? (r.jsonText o false) = some j ∧
      (r.Counted → Shown.ofJson? j = some (r.shown o)) :=
  ⟨r.toJson o, r.ofText?_jsonText o true, r.ofText?_jsonText o false, fun h => h.ofJson?_toJson o⟩

/-- A report of an error in the last row that there can be, behind a warning. -/
def hiddenError : Report where
  ruleSet := "say \"hi\"\n"
  timestamp := "2024-01-01T00:00:00+00:00"
  metrics := { rows := 18446744073709551615, cells := 3, invalidCells := 2, millis := 7 }
  issues := [⟨0, "Age", "low|high", .warning, "odd \\ \x01"⟩,
    ⟨18446744073709551615, "Name", "", .error, "é𝄞"⟩]

/-- Only the warning is shown, and no timestamp. -/
theorem shown_recovered_hiddenError :
    let o : Options := { maxIssues := some 1, timestamp := false }
    hiddenError.Counted ∧ ∃ j, ofText? (hiddenError.jsonText o true) = some j ∧
      ofText? (hiddenError.jsonText o false) = some j ∧
      Shown.ofJson? j = some ⟨"failed", "say \"hi\"\n", none, some hiddenError.metrics,
        [⟨0, "Age", "low|high", .warning, "odd \\ \x01"⟩], 2⟩ := by
  intro o
  have hcounted : hiddenError.Counted := ⟨by decide, by decide, by decide⟩
  obtain ⟨j, hpretty, hcompact, hshown⟩ := shown_recovered hiddenError o
  exact ⟨hcounted, j, hpretty, hcompact, hshown hcounted⟩

end Report

end CellRules
