/-
CellRules.Proofs.Merging — one verdict for many.

Merging looks at the failures only (`merge_congr`): none of them make a success, and some make a
failure at the worst of their severities whose message joins theirs in order. A verdict that was made,
by a check or by merging, is a success in one way only, and a failure with a message
(`Made.lawful`). For such verdicts the joined message is never blank and so never replaced, merged
verdicts can be merged again, and where the list is cut first makes no difference
(`merge_homomorphism`).
-/
import CellRules.Verdict

namespace CellRules

/-! ## The worst of some severities -/

theorem Severity.max_spec (a b : Severity) :
    a ≤ max a b ∧ b ≤ max a b ∧ (max a b = a ∨ max a b = b) := by
  cases a <;> cases b <;> decide

theorem Severity.max_assoc (a b c : Severity) : max (max a b) c = max a (max b c) := by
  cases a <;> cases b <;> cases c <;> decide

namespace Verdict

variable {v : Verdict} {verdicts xs ys zs passing : List Verdict}

/-- The worst of some severities is one of them, and none is above it. -/
theorem worst_eq_some {severities : List Severity} {level : Severity}
    (h : worst severities = some level) : level ∈ severities ∧ ∀ s ∈ severities, s ≤ level := by
  cases severities with
  | nil => cases h
  | cons first rest =>
    obtain rfl := Option.some.inj h
    clear h
    induction rest generalizing first with
    | nil =>
      refine ⟨List.mem_singleton_self _, fun s hs => ?_⟩
      rw [List.mem_singleton.mp hs]
      exact Nat.le_refl _
    | cons next rest ih =>
      obtain ⟨hmem, habove⟩ := ih (max first next)
      obtain ⟨hfirst, hnext, hpick⟩ := Severity.max_spec first next
      have hmax := habove _ List.mem_cons_self
      refine ⟨?_, fun s hs => ?_⟩
      · rcases List.mem_cons.mp hmem with heq | hrest
        · rw [List.foldl_cons, heq]
          rcases hpick with hpick | hpick <;> simp [hpick]
        · simp [hrest]
      · rcases List.mem_cons.mp hs with rfl | hs
        · exact Nat.le_trans hfirst hmax
        · rcases List.mem_cons.mp hs with rfl | hs
          · exact Nat.le_trans hnext hmax
          · exact habove s (by simp [hs])

theorem foldl_max (first next : Severity) (rest : List Severity) :
    rest.foldl max (max first next) = max first (rest.foldl max next) := by
  induction rest generalizing next with
  | nil => rfl
  | cons other rest ih => rw [List.foldl_cons, Severity.max_assoc, ih, List.foldl_cons]

/-! ## Merging looks at the failures -/

/-- The severity and the message of merged failures, the first of them by itself. -/
theorem merge_of_failures {failures : List Verdict} (h : verdicts.filter fails = v :: failures) :
    merge verdicts
      = failure ((failures.map severity).foldl max v.severity)
          (separator.intercalate ((v :: failures).map message)) := by
  simp only [merge, h, List.map_cons, worst]

theorem merge_of_no_failure (h : verdicts.filter fails = []) : merge verdicts = success := by
  simp [merge, h, worst]

/-- Verdicts with the same failures in the same order are merged into the same. -/
theorem merge_congr (h : xs.filter fails = ys.filter fails) : merge xs = merge ys := by
  simp only [merge, h]

/-- Merged verdicts pass exactly if all of them do. -/
theorem passes_merge : (merge verdicts).passes = true ↔ ∀ v ∈ verdicts, v.passes = true := by
  cases hfailures : verdicts.filter fails with
  | nil =>
    rw [merge_of_no_failure hfailures]
    rw [List.filter_eq_nil_iff] at hfailures
    simpa [success, fails] using hfailures
  | cons v failures =>
    rw [merge_of_failures hfailures]
    have hv : v ∈ verdicts.filter fails := by
      rw [hfailures]
      simp
    obtain ⟨hmem, hfails⟩ := List.mem_filter.mp hv
    simp only [failure, Bool.false_eq_true, false_iff]
    intro hall
    simp [fails, hall v hmem] at hfails

theorem severity_merge (h : (merge verdicts).fails = true) :
    worst ((verdicts.filter fails).map severity) = some (merge verdicts).severity := by
  cases hfailures : verdicts.filter fails with
  | nil =>
    rw [merge_of_no_failure hfailures] at h
    cases h
  | cons v failures =>
    rw [merge_of_failures hfailures]
    rfl

/-- Merged failures are as bad as the worst of them. -/
theorem worst_merge (h : (merge verdicts).fails = true) :
    (∃ v ∈ verdicts, v.fails = true ∧ v.severity = (merge verdicts).severity) ∧
      ∀ v ∈ verdicts, v.fails = true → v.severity ≤ (merge verdicts).severity := by
  obtain ⟨hmem, habove⟩ := worst_eq_some (severity_merge h)
  constructor
  · obtain ⟨v, hv, hseverity⟩ := List.mem_map.mp hmem
    obtain ⟨hv, hfails⟩ := List.mem_filter.mp hv
    exact ⟨v, hv, hfails, hseverity⟩
  · intro v hv hfails
    exact habove _ (List.mem_map_of_mem (List.mem_filter.mpr ⟨hv, hfails⟩))

/-! ## Verdicts that are made -/

/-- Verdicts that checks make, and those that are merged from such verdicts. -/
inductive Made : Verdict → Prop
  | success : Made .success
  | failure (severity : Severity) (message : String) : Made (.failure severity message)
  | ofCheck (condition : Bool) (severity : Severity) (message : String) :
      Made (.ofCheck condition severity message)
  | merge (verdicts : List Verdict) (h : ∀ v ∈ verdicts, Made v) : Made (merge verdicts)

/-- The verdict is the success, or a failure whose message is not blank. -/
structure Lawful (v : Verdict) : Prop where
  passed : v.passes = true → v = success
  failed : v.fails = true → Text.isBlank v.message = false

theorem lawful_success : Lawful success where
  passed _ := rfl
  failed := nofun

theorem lawful_failure (severity : Severity) (message : String) :
    Lawful (failure severity message) where
  passed := nofun
  failed _ := by
    unfold failure
    split
    · show Text.isBlank defaultMessage = false
      decide
    · simpa using ‹¬ Text.isBlank message = true›

theorem lawful_ofCheck (condition : Bool) (severity : Severity) (message : String) :
    Lawful (ofCheck condition severity message) := by
  cases condition with
  | true => exact lawful_success
  | false => exact lawful_failure severity message

/-- The verdicts that are made are the lawful ones. -/
theorem made_iff_lawful : Made v ↔ Lawful v := by
  constructor
  · intro hmade
    induction hmade with
    | success => exact lawful_success
    | failure severity message => exact lawful_failure severity message
    | ofCheck condition severity message => exact lawful_ofCheck condition severity message
    | merge verdicts _ _ =>
      cases hfailures : verdicts.filter fails with
      | nil =>
        rw [merge_of_no_failure hfailures]
        exact lawful_success
      | cons v failures =>
        rw [merge_of_failures hfailures]
        exact lawful_failure ..
  · intro hlawful
    cases hpasses : v.passes with
    | true =>
      rw [hlawful.passed hpasses]
      exact .success
    | false =>
      have hmessage := hlawful.failed (by simp [fails, hpasses])
      have hfailure : failure v.severity v.message = v := by
        rw [failure_of_not_blank hmessage, ← hpasses]
      rw [← hfailure]
      exact .failure ..

/-! ## Messages of failures -/

theorem isBlank_append (s t : String) :
    Text.isBlank (s ++ t) = (Text.isBlank s && Text.isBlank t) := by
  simp [Text.isBlank]

/-- Joined messages are not blank if the first is not. -/
theorem intercalate_not_blank {message : String} {messages : List String}
    (h : Text.isBlank message = false) :
    Text.isBlank (separator.intercalate (message :: messages)) = false := by
  cases messages with
  | nil => rwa [String.intercalate_singleton]
  | cons next messages =>
    rw [String.intercalate_cons_cons, isBlank_append, isBlank_append, h]
    rfl

/-- The message of merged failures joins theirs in order, and is not replaced. -/
theorem merge_of_lawful {failures : List Verdict} (hlawful : ∀ v ∈ verdicts, Lawful v)
    (h : verdicts.filter fails = v :: failures) :
    merge verdicts
      = ⟨false, (failures.map severity).foldl max v.severity,
          separator.intercalate ((v :: failures).map message)⟩ := by
  have hv : v ∈ verdicts.filter fails := by
    rw [h]
    exact List.mem_cons_self
  obtain ⟨hmem, hfails⟩ := List.mem_filter.mp hv
  rw [merge_of_failures h, failure_of_not_blank]
  exact intercalate_not_blank ((hlawful v hmem).failed hfails)

/-! ## Merging twice -/

/-- Merging one lawful verdict gives it back. -/
theorem merge_singleton (h : Lawful v) : merge [v] = v := by
  cases hpasses : v.passes with
  | true =>
    rw [merge_of_no_failure (by simp [fails, hpasses]), h.passed hpasses]
  | false =>
    have hfilter : [v].filter fails = [v] := by simp [fails, hpasses]
    rw [merge_of_lawful (by simpa using h) hfilter]
    simp [← hpasses]

/-- Merging the verdicts of two parts gives the verdict of the whole. -/
theorem merge_append (hxs : ∀ v ∈ xs, Lawful v) (hys : ∀ v ∈ ys, Lawful v) :
    merge (xs ++ ys) = merge [merge xs, merge ys] := by
  have hlawful : ∀ {zs : List Verdict}, (∀ v ∈ zs, Lawful v) → Lawful (merge zs) :=
    fun h => made_iff_lawful.mp (.merge _ fun v hv => made_iff_lawful.mpr (h v hv))
  cases hx : xs.filter fails with
  | nil =>
    have hsame : merge [merge xs, merge ys] = merge [merge ys] :=
      merge_congr (by simp [merge_of_no_failure hx, List.filter_cons, fails, success])
    rw [hsame, merge_singleton (hlawful hys)]
    exact merge_congr (by rw [List.filter_append, hx, List.nil_append])
  | cons x fx =>
    cases hy : ys.filter fails with
    | nil =>
      have hsame : merge [merge xs, merge ys] = merge [merge xs] :=
        merge_congr (by simp [merge_of_no_failure hy, List.filter_cons, fails, success])
      rw [hsame, merge_singleton (hlawful hxs)]
      exact merge_congr (by rw [List.filter_append, hy, List.append_nil])
    | cons y fy =>
      have hboth : ∀ v ∈ xs ++ ys, Lawful v := fun v hv =>
        (List.mem_append.mp hv).elim (hxs v) (hys v)
      have hfilter : (xs ++ ys).filter fails = x :: (fx ++ y :: fy) := by
        rw [List.filter_append, hx, hy, List.cons_append]
      have hmerged : [merge xs, merge ys].filter fails = [merge xs, merge ys] := by
        rw [merge_of_lawful hxs hx, merge_of_lawful hys hy]
        rfl
      rw [merge_of_lawful hboth hfilter, merge_of_lawful (by simp [hlawful hxs, hlawful hys]) hmerged,
        merge_of_lawful hxs hx, merge_of_lawful hys hy]
      congr 1
      · simp [foldl_max]
      · rw [← List.cons_append, List.map_append, String.intercalate_append_of_ne_nil (by simp) (by simp)]
        simp [String.intercalate_cons_cons, String.intercalate_singleton]

/-! ## Verdicts that pass -/

/-- The third list is made of the other two, each in its order. -/
inductive Interleaved : List Verdict → List Verdict → List Verdict → Prop
  | nil : Interleaved [] [] []
  | left (x : Verdict) {xs ys zs : List Verdict} (h : Interleaved xs ys zs) :
      Interleaved (x :: xs) ys (x :: zs)
  | right (y : Verdict) {xs ys zs : List Verdict} (h : Interleaved xs ys zs) :
      Interleaved xs (y :: ys) (y :: zs)

/-- Verdicts that pass, put in anywhere, leave the failures as they are. -/
theorem Interleaved.filter_fails (h : Interleaved xs passing zs)
    (hpassing : ∀ v ∈ passing, v.passes = true) : zs.filter fails = xs.filter fails := by
  induction h with
  | nil => rfl
  | left x h ih => rw [List.filter_cons, List.filter_cons, ih hpassing]
  | right y h ih =>
    have hy : y.fails = false := by simp [fails, hpassing y]
    rw [List.filter_cons, hy]
    exact ih fun v hv => hpassing v (List.mem_cons_of_mem y hv)

/-- Verdicts that were made are merged part by part: the verdict of the whole is that of the verdicts
of the parts. It passes exactly if all members do, and is then the success. Otherwise it is as bad as
the worst failure, and its message joins those of the failures in order; that is not blank and not
replaced. Verdicts that pass make no difference wherever they stand. -/
theorem merge_homomorphism (hxs : ∀ v ∈ xs, Made v) (hys : ∀ v ∈ ys, Made v) :
    merge (xs ++ ys) = merge [merge xs, merge ys] ∧
      ((merge xs).passes = true ↔ ∀ v ∈ xs, v.passes = true) ∧
      ((merge xs).passes = true → merge xs = success) ∧
      ((merge xs).fails = true →
        ((∃ v ∈ xs, v.fails = true ∧ v.severity = (merge xs).severity) ∧
          ∀ v ∈ xs, v.fails = true → v.severity ≤ (merge xs).severity) ∧
        (merge xs).message = "; ".intercalate ((xs.filter fails).map message) ∧
        Text.isBlank (merge xs).message = false) ∧
      ∀ passing whole, (∀ v ∈ passing, v.passes = true) → Interleaved xs passing whole →
        merge whole = merge xs := by
  have hlawful : ∀ v ∈ xs, Lawful v := fun v hv => made_iff_lawful.mp (hxs v hv)
  have hmerged : Lawful (merge xs) := made_iff_lawful.mp (.merge xs hxs)
  refine ⟨?_, passes_merge, hmerged.passed, ?_, ?_⟩
  · exact merge_append hlawful fun v hv => made_iff_lawful.mp (hys v hv)
  · intro hfails
    refine ⟨worst_merge hfails, ?_, hmerged.failed hfails⟩
    cases hfailures : xs.filter fails with
    | nil =>
      rw [merge_of_no_failure hfailures] at hfails
      cases hfails
    | cons v failures =>
      rw [merge_of_lawful hlawful hfailures]
      rfl
  · intro passing whole hpassing hwhole
    exact merge_congr (hwhole.filter_fails hpassing)

/-- Messages that hold the separator, a blank message, and a success between the failures: merged in
two parts they give what they give at once. -/
theorem merge_homomorphism_contacts :
    let xs := [failure .info "a; b", success, failure .warning " "]
    let ys := [merge [failure .error "c"], success]
    (∀ v ∈ xs, Made v) ∧ (∀ v ∈ ys, Made v) ∧
      merge [merge xs, merge ys] = ⟨false, .error, "a; b; Validation failed; c"⟩ ∧
      merge (xs ++ ys) = merge [merge xs, merge ys] := by
  intro xs ys
  have hxs : ∀ v ∈ xs, Made v := by
    simp only [xs, List.forall_mem_cons]
    exact ⟨.failure .info "a; b", .success, .failure .warning " ", nofun⟩
  have hys : ∀ v ∈ ys, Made v := by
    simp only [ys, List.forall_mem_cons]
    refine ⟨.merge _ ?_, .success, nofun⟩
    simp only [List.forall_mem_cons]
    exact ⟨.failure .error "c", nofun⟩
  obtain ⟨hparts, -⟩ := merge_homomorphism hxs hys
  exact ⟨hxs, hys, by decide +kernel, hparts⟩

end Verdict

end CellRules
