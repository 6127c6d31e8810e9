/-
CellRules.Proofs.Rule.Heeding — what a rule looks at.

A rule HEEDS some columns if it looks at nothing else: its guard and its checks give the same on two
views of a row that agree on these columns, and it looks at other rows only for duplicates in the
column that it judges. Then an outcome can change only if one of the columns does, or if the
duplicates do (`Rule.Heeds.evaluate_agree`); and an outcome that passes stays as long as no duplicate
turns up. A rule whose checks are functions of their row heeds ALL columns.

A rule names the columns that it judges and reads (`Rule.columns`). Rules made of named steps heed
these alone (`Draft.build_heeds`): what the steps read is noted as a dependency. What a check reads
that a step brings along cannot be noted, and is up to whoever writes it.
-/
import CellRules.Rule.Evaluation
import CellRules.RuleSet.Draft
import Mathlib.Data.Set.Basic

namespace CellRules

/-- Two views of a row that agree on some columns and on the cell being judged. -/
structure RowContext.AgreeOn (columns : Set String) (a b : RowContext) : Prop where
  row : a.row = b.row
  column : a.column = b.column
  pending : a.pending = b.pending
  values : ∀ c, c ∈ columns ∨ a.column = some c → a.get? c = b.get? c

namespace RowContext.AgreeOn

variable {columns more : Set String} {a b : RowContext} {column : String} {rows : Dataset}

/-- Views that agree on some columns agree on fewer. -/
theorem mono (h : a.AgreeOn more b) (hsub : columns ⊆ more) : a.AgreeOn columns b where
  row := h.row
  column := h.column
  pending := h.pending
  values c hc := h.values c (hc.imp_left (@hsub c))

theorem current? (h : a.AgreeOn columns b) : a.current? = b.current? := by
  have hjudged : a.column.bind a.get? = b.column.bind b.get? := by
    rw [← h.column]
    cases hc : a.column with
    | none => rfl
    | some c => exact h.values c (.inr hc)
  rw [RowContext.current?, RowContext.current?, h.pending, hjudged]

theorem filled? (h : a.AgreeOn columns b) (hc : column ∈ columns ∨ a.column = some column) :
    a.filled? column = b.filled? column := by
  rw [RowContext.filled?, RowContext.filled?, h.values column hc]

/-- A view has the same duplicates as another that agrees on the column. -/
theorem unique (h : a.AgreeOn columns b) (hc : column ∈ columns ∨ a.column = some column) :
    Check.unique column a rows = Check.unique column b rows := by
  simp only [Check.unique, Check.uniqueIn, h.filled? hc, h.row]

theorem render (h : a.AgreeOn columns b) (t : Template) : t.render a = t.render b := by
  simp only [Template.render, Template.substitutions, h.column, h.current?, h.row]

theorem styled (h : a.AgreeOn columns b) (style : Style) (v : Verdict) :
    style.apply a v = style.apply b v := by
  unfold Style.apply
  cases style.template with
  | none => rfl
  | some t => simp only [h.render t]

end RowContext.AgreeOn

/-! ## Checks -/

/-- Rewording keeps what passes. -/
theorem Style.passes_apply (style : Style) (ctx : RowContext) (v : Verdict) :
    (style.apply ctx v).passes = v.passes := by
  unfold Style.apply
  cases h : v.passes with
  | true => simp [h]
  | false => rfl

/-- A cell without duplicates passes in one way only. -/
theorem Check.unique_of_passes {column : String} {ctx : RowContext} {rows : Dataset}
    (h : (Check.unique column ctx rows).passes = true) :
    Check.unique column ctx rows = .success := by
  cases hcell : ctx.filled? column with
  | none => exact Check.unique_blank hcell
  | some cell =>
    rw [Check.unique_filled hcell, Check.uniqueAmong] at h ⊢
    split at h
    · rename_i hempty
      rw [if_pos hempty]
    · cases h

/-- The check looks at the named columns of the row only, and at other rows only for duplicates of
the target column. -/
inductive Validator.Heeds (columns : Set String) (target : String) : Validator → Prop
  | prompt {judge : RowContext → Answer}
      (agree : ∀ a b, a.AgreeOn columns b → judge a = judge b) : Heeds columns target (.prompt judge)
  | delayed {start : RowContext → Promise}
      (agree : ∀ a b, a.AgreeOn columns b → start a = start b) :
      Heeds columns target (.delayed start)
  | unique (style : Style) :
      Heeds columns target
        (.crossRow fun ctx rows => .ok (style.apply ctx (Check.unique target ctx rows)))

/-- The columns that the rule judges and reads. -/
def Rule.columns (r : Rule) : Set String := {c | c ∈ r.targets ∨ c ∈ r.dependencies}

/-- What the check answers, sooner or later. -/
def Validator.answer (ctx : RowContext) (rows : Dataset) : Validator → Answer
  | .prompt judge => judge ctx
  | .crossRow judge => judge ctx rows
  | .delayed start => match start ctx with
    | .broken detail => .error detail
    | .after _ answer => answer

variable {columns more : Set String} {target : String} {v : Validator} {vs : List Validator}
  {r : Rule} {a b ctx : RowContext} {rows rows' : Dataset} {o : Outcome}

/-- The same duplicates make the same answer. -/
theorem Validator.Heeds.answer_agree (hv : v.Heeds columns target) (h : a.AgreeOn columns b)
    (hsame : Check.unique target a rows = Check.unique target b rows') :
    v.answer a rows = v.answer b rows' := by
  cases hv with
  | prompt agree => exact agree a b h
  | delayed agree => simp only [Validator.answer, agree a b h]
  | unique style => simp only [Validator.answer, hsame, h.styled style]

/-- A check that passes goes on to, as long as no duplicate turns up where there was none. -/
theorem Validator.Heeds.answer_passes (hv : v.Heeds columns target) (h : a.AgreeOn columns b)
    (hunique : Check.unique target a rows = .success → Check.unique target b rows' = .success)
    {w : Verdict}
    (hw : v.answer a rows = .ok w) (hpasses : w.passes = true) : v.answer b rows' = .ok w := by
  cases hv with
  | prompt agree => exact (agree a b h).symm.trans hw
  | delayed agree =>
    rw [← hw]
    simp only [Validator.answer, agree a b h]
  | unique style =>
    simp only [Validator.answer, Except.ok.injEq] at hw ⊢
    subst hw
    rw [Style.passes_apply] at hpasses
    have hnone := Check.unique_of_passes hpasses
    rw [hunique hnone, hnone, h.styled style]

/-! ## Rules -/

namespace Rule

/-- What running one check answers. -/
theorem answer_runValidator (next : Work Outcome) :
    (r.runValidator ctx rows next v).answer = match v.answer ctx rows with
      | .ok w => if w.passes then next.answer else .ok ⟨r.name, .failed, w⟩
      | .error detail => .ok ⟨r.name, .faulted, faultVerdict r.name detail⟩ := by
  have hsettle : ∀ stage answer, (r.settle ctx stage next answer).answer = match answer with
      | .ok w => if w.passes then next.answer else .ok ⟨r.name, .failed, w⟩
      | .error detail => .ok ⟨r.name, .faulted, faultVerdict r.name detail⟩ := by
    intro stage answer
    cases answer with
    | error detail => rfl
    | ok w =>
      cases hw : w.passes with
      | true => simp [settle, hw]
      | false => simp [settle, hw, Work.answer, pure]
  cases v with
  | prompt judge => exact hsettle .sync _
  | crossRow judge => exact hsettle .crossRow _
  | delayed start =>
    simp only [runValidator, Validator.answer]
    cases hstart : start ctx with
    | broken detail => rfl
    | after millis answer =>
      cases millis with
      | zero => exact hsettle .async answer
      | succ millis => exact hsettle .async answer

/-- The rule judges one column, and looks at nothing but some columns of the row and at duplicates in
the one that it judges. -/
structure Heeds (r : Rule) (columns : Set String) (target : String) : Prop where
  targets : r.targets = [target]
  guard : ∀ guard, r.guard = some guard → ∀ a b, a.AgreeOn columns b → guard a = guard b
  validators : ∀ v ∈ r.validators, v.Heeds columns target
  scopes : r.needsRows = true → .sameValue target ∈ r.scopes

theorem Heeds.mem_columns (hr : r.Heeds columns target) : target ∈ r.columns := by
  simp [Rule.columns, hr.targets]

/-- The outcome of some checks is the same if their answers are, or if it passes and those that pass
answer the same. -/
theorem runValidators_same
    (hvs : ∀ v ∈ vs, v.answer a rows = v.answer b rows' ∨
      (o.verdict.passes = true ∧
        ∀ w, v.answer a rows = .ok w → w.passes = true → v.answer b rows' = .ok w))
    (ho : (r.runValidators a rows vs).answer = .ok o) :
    (r.runValidators b rows' vs).answer = .ok o := by
  induction vs with
  | nil => exact ho
  | cons v vs ih =>
    have hrest := ih fun w hw => hvs w (by simp [hw])
    simp only [runValidators, Work.answer, answer_runValidator] at ho ⊢
    rcases hvs v (by simp) with hsame | ⟨hpasses, hkept⟩
    · rw [← hsame]
      cases hw : v.answer a rows with
      | error detail =>
        rw [hw] at ho
        exact ho
      | ok w =>
        simp only [hw] at ho ⊢
        split at ho
        · rename_i hp
          rw [if_pos hp]
          exact hrest ho
        · rename_i hp
          rw [if_neg hp]
          exact ho
    · cases hw : v.answer a rows with
      | error detail =>
        rw [hw] at ho
        obtain rfl := Except.ok.inj ho
        cases hpasses
      | ok w =>
        simp only [hw] at ho
        split at ho
        · rename_i hp
          rw [hkept w hw hp]
          simp only [hp, if_true]
          exact hrest ho
        · rename_i hp
          obtain rfl := Except.ok.inj ho
          exact absurd hpasses hp

/-- The outcome of a rule is the same if its guard says the same and its checks answer the same, or
if it passes and those that pass answer the same. -/
theorem evaluate_same (hguard : ∀ guard, r.guard = some guard → guard a = guard b)
    (hvs : ∀ v ∈ r.validators, v.answer a rows = v.answer b rows' ∨
      (o.verdict.passes = true ∧
        ∀ w, v.answer a rows = .ok w → w.passes = true → v.answer b rows' = .ok w))
    (ho : (r.evaluate a rows).answer = .ok o) : (r.evaluate b rows').answer = .ok o := by
  have hchecks : (r.runValidators a rows r.validators).answer = .ok o →
      (r.runValidators b rows' r.validators).answer = .ok o := runValidators_same hvs
  unfold evaluate at ho ⊢
  cases hg : r.guard with
  | none =>
    simp only [hg] at ho ⊢
    exact hchecks ho
  | some guard =>
    simp only [hg] at ho ⊢
    rw [← hguard guard hg]
    cases hanswer : guard a with
    | error detail =>
      rw [hanswer] at ho
      exact ho
    | ok holds =>
      cases holds with
      | true =>
        rw [hanswer] at ho
        exact hchecks ho
      | false =>
        rw [hanswer] at ho
        exact ho

/-- The outcome of a rule is the same on views that agree on what it heeds if the duplicates are, or
if it passes and no duplicate turns up where there was none. -/
theorem Heeds.evaluate_agree (hr : r.Heeds columns target) (h : a.AgreeOn columns b)
    (ho : (r.evaluate a rows).answer = .ok o)
    (hsame : Check.unique target a rows = Check.unique target b rows' ∨
      (o.verdict.passes = true ∧
        (Check.unique target a rows = .success → Check.unique target b rows' = .success))) :
    (r.evaluate b rows').answer = .ok o := by
  refine evaluate_same (fun guard hguard => hr.guard guard hguard a b h) (fun v hv => ?_) ho
  have hheeds := hr.validators v hv
  exact hsame.imp (hheeds.answer_agree h) fun hkept =>
    ⟨hkept.1, fun _ hw hpasses => hheeds.answer_passes h hkept.2 hw hpasses⟩

/-- Some checks always come to an outcome. -/
theorem runValidators_ok (r : Rule) (ctx : RowContext) (rows : Dataset) (vs : List Validator) :
    ∃ o, (r.runValidators ctx rows vs).answer = .ok o := by
  induction vs with
  | nil => exact ⟨_, rfl⟩
  | cons v vs ih =>
    simp only [runValidators, Work.answer, answer_runValidator]
    split
    · split
      · exact ih
      · exact ⟨_, rfl⟩
    · exact ⟨_, rfl⟩

/-- A rule always comes to an outcome; breakdowns are outcomes, too. -/
theorem evaluate_ok (r : Rule) (ctx : RowContext) (rows : Dataset) :
    ∃ o, (r.evaluate ctx rows).answer = .ok o := by
  unfold evaluate
  split
  · exact runValidators_ok r ctx rows _
  · split
    · exact runValidators_ok r ctx rows _
    · exact ⟨_, rfl⟩
    · exact ⟨_, rfl⟩

/-- A rule without checks among rows does not look at them. -/
theorem evaluate_of_not_needsRows (hr : r.needsRows = false) (rows rows' : Dataset) :
    r.evaluate ctx rows = r.evaluate ctx rows' := by
  have hchecks : ∀ vs : List Validator, (∀ v ∈ vs, v.stage ≠ .crossRow) →
      r.runValidators ctx rows vs = r.runValidators ctx rows' vs := by
    intro vs hvs
    induction vs with
    | nil => rfl
    | cons v vs ih =>
      have hrest := ih fun w hw => hvs w (by simp [hw])
      cases v with
      | crossRow judge => exact absurd rfl (hvs (.crossRow judge) (by simp))
      | prompt judge => simp only [runValidators, runValidator, hrest]
      | delayed start => simp only [runValidators, runValidator, hrest]
  have hnone : ∀ v ∈ r.validators, v.stage ≠ .crossRow := by
    simpa [needsRows] using hr
  unfold evaluate
  rw [hchecks _ hnone]

end Rule

/-! ## Rules made by steps -/

theorem Validator.Heeds.mono (hv : v.Heeds columns target) (hsub : columns ⊆ more) :
    v.Heeds more target := by
  cases hv with
  | prompt agree => exact .prompt fun a b h => agree a b (h.mono hsub)
  | delayed agree => exact .delayed fun a b h => agree a b (h.mono hsub)
  | unique style => exact .unique style

/-- Rewording looks at nothing but the judged cell. -/
theorem Validator.Heeds.restyle (hv : v.Heeds columns target) (hstage : v.stage ≠ .crossRow)
    (style : Style) : (v.restyle style).Heeds columns target := by
  have hstyled : ∀ a b : RowContext, a.AgreeOn columns b → style.apply a = style.apply b :=
    fun a b h => funext (h.styled style)
  cases hv with
  | prompt agree =>
    refine .prompt fun a b h => ?_
    rw [agree a b h, hstyled a b h]
  | delayed agree =>
    refine .delayed fun a b h => ?_
    rw [agree a b h, hstyled a b h]
  | unique style' => exact absurd rfl hstage

/-- The guard that a step names, beside the column that it reads. -/
def Step.guard? : Step → Option (String × Guard)
  | .columnEquals column value => some (column, Guard.equals column value)
  | .columnHasValue column => some (column, Guard.hasValue column)
  | .columnIsEmpty column => some (column, Guard.isEmpty column)
  | .columnContains column fragment => some (column, Guard.holds column fragment)
  | _ => none

/-- The check of the row that a step names, beside the columns that it reads other than the judged
one. -/
def Step.check? : Step → Option (List String × (RowContext → Verdict))
  | .required => some ([], Check.required)
  | .requiredFields columns => some (columns, Check.requiredFields columns)
  | .inRange column min max => some ([column], Check.inRange column min max)
  | .startBeforeEnd start finish => some ([start, finish], Check.startBeforeEnd start finish)
  | .email => some ([], Draft.ofColumn Check.email)
  | .phone => some ([], Draft.ofColumn Check.phone)
  | _ => none

/-- A named guard looks at its column only. -/
theorem Step.guard?_agree {step : Step} {column : String} {guard : Guard}
    (hs : step.guard? = some (column, guard)) (h : a.get? column = b.get? column) :
    guard a = guard b := by
  cases step <;> cases hs <;>
    simp only [Guard.equals, Guard.hasValue, Guard.isEmpty, Guard.holds, RowContext.textOf,
      RowContext.hasValue, h]

/-- A check of the form of the judged cell looks at that cell. -/
theorem Draft.ofColumn_agree (h : a.AgreeOn columns b) (form : String → Bool) (expected : String) :
    ofColumn (Check.textForm form expected) a = ofColumn (Check.textForm form expected) b := by
  unfold ofColumn
  rw [← h.column]
  cases hc : a.column with
  | none => rfl
  | some c => simp only [Check.textForm, RowContext.filled?, h.values c (.inr hc)]

/-- A named check looks at the columns that it reads and at the judged cell only. -/
theorem Step.check?_agree {step : Step} {names : List String} {check : RowContext → Verdict}
    (hs : step.check? = some (names, check)) (hnames : ∀ c ∈ names, c ∈ columns)
    (h : a.AgreeOn columns b) : check a = check b := by
  cases step <;> cases hs
  case required => simp only [Check.required, h.current?, h.column]
  case requiredFields =>
    have hvalue : ∀ c ∈ names, a.hasValue c = b.hasValue c := fun c hc => by
      rw [RowContext.hasValue, RowContext.hasValue, h.values c (.inl (hnames c hc))]
    have hmissing : (names.filter fun c => !a.hasValue c) = names.filter fun c => !b.hasValue c :=
      List.filter_congr fun c hc => by rw [hvalue c hc]
    simp only [Check.requiredFields, hmissing]
  case inRange column min max =>
    simp only [Check.inRange, h.filled? (.inl (hnames column (by simp)))]
  case startBeforeEnd start finish =>
    simp only [Check.startBeforeEnd, h.values start (.inl (hnames start (by simp))),
      h.values finish (.inl (hnames finish (by simp)))]
  case email => exact Draft.ofColumn_agree h Check.isEmail "a valid email address"
  case phone => exact Draft.ofColumn_agree h Check.isPhoneNumber "a valid phone number"

/-- A step that names a guard notes the column and replaces the guard. -/
theorem Draft.apply_guard? {d : Draft} {step : Step} {column : String} {guard : Guard}
    (hs : step.guard? = some (column, guard)) :
    d.apply step = { d.reading [column] with guard := some guard } := by
  cases step <;> cases hs <;> rfl

/-- A step that names a check of the row notes its columns and adds it. -/
theorem Draft.apply_check? {d : Draft} {step : Step} {names : List String}
    {check : RowContext → Verdict} (hs : step.check? = some (names, check)) :
    d.apply step = (d.reading names).withCheck check := by
  cases step <;> cases hs <;> rfl

/-- What a step brings along looks at some columns only, and the step is about one target. -/
def Step.Heeds (columns : Set String) (target : String) : Step → Prop
  | .forColumn column | .unique column => column = target
  | .forColumns targets => ∀ column ∈ targets, column = target
  | .guardBy guard | .andGuard guard | .orGuard guard | .satisfies guard =>
    ∀ a b, a.AgreeOn columns b → guard a = guard b
  | .judge check => ∀ a b, a.AgreeOn columns b → check a = check b
  | .judgeLater start => ∀ a b, a.AgreeOn columns b → start a = start b
  | .judgeAmong _ => False
  | _ => True

namespace Draft

/-- What the draft looks at so far: some columns, those that its named steps read, and duplicates in
the target column. -/
structure Heeds (d : Draft) (columns : Set String) (target : String) : Prop where
  targets : d.targets = [] ∨ d.targets = [target]
  guard : ∀ guard, d.guard = some guard →
    ∀ a b, a.AgreeOn (columns ∪ {c | c ∈ d.reads}) b → guard a = guard b
  validators : ∀ styled v, (styled, v) ∈ d.validators → ∀ style,
    (if styled then v.restyle style else v).Heeds (columns ∪ {c | c ∈ d.reads}) target
  scopes : ∀ styled v, (styled, v) ∈ d.validators → v.stage = .crossRow →
    .sameValue target ∈ d.scopes

variable {d : Draft}

theorem heeds_empty (name : String) : ({ name } : Draft).Heeds columns target where
  targets := .inl rfl
  guard _ h := by cases h
  validators _ _ h := by cases h
  scopes _ _ h := by cases h

theorem Heeds.reading (hd : d.Heeds columns target) (names : List String) :
    (d.reading names).Heeds columns target := by
  have hsub : columns ∪ {c | c ∈ d.reads} ⊆ columns ∪ {c | c ∈ (d.reading names).reads} :=
    Set.union_subset_union_right _ fun c hc => Ascending.mem_addAll.mpr (.inl hc)
  exact
    { targets := hd.targets
      guard := fun guard hguard a b h => hd.guard guard hguard a b (h.mono hsub)
      validators := fun styled v hv style => (hd.validators styled v hv style).mono hsub
      scopes := hd.scopes }

theorem Heeds.guarded (hd : d.Heeds columns target) {guard : Guard}
    (hguard : ∀ a b, a.AgreeOn (columns ∪ {c | c ∈ d.reads}) b → guard a = guard b) :
    ({ d with guard := some guard } : Draft).Heeds columns target where
  targets := hd.targets
  guard g hg := by
    obtain rfl := Option.some.inj hg
    exact hguard
  validators := hd.validators
  scopes := hd.scopes

/-- A condition beside the guard so far. -/
theorem Heeds.combineGuard (hd : d.Heeds columns target) {combine : Guard → Guard → Guard}
    (hcombine : ∀ (first second : Guard) (a b : RowContext), first a = first b →
      second a = second b → combine first second a = combine first second b)
    {guard : Guard} (hguard : ∀ a b, a.AgreeOn columns b → guard a = guard b) :
    (d.combineGuard combine guard).Heeds columns target := by
  have hguard' : ∀ a b, a.AgreeOn (columns ∪ {c | c ∈ d.reads}) b → guard a = guard b := fun a b h =>
    hguard a b (h.mono Set.subset_union_left)
  refine hd.guarded fun a b h => ?_
  cases hfirst : d.guard with
  | none => exact hguard' a b h
  | some first => exact hcombine first guard a b (hd.guard first hfirst a b h) (hguard' a b h)

/-- A check of the row, with or without words of its own. -/
theorem Heeds.withCheck (hd : d.Heeds columns target) {styled : Bool}
    (hv : v.Heeds (columns ∪ {c | c ∈ d.reads}) target) (hstage : v.stage ≠ .crossRow) :
    ({ d with validators := d.validators ++ [(styled, v)] } : Draft).Heeds columns target where
  targets := hd.targets
  guard := hd.guard
  validators styled' w hw style := by
    rcases List.mem_append.mp hw with hw | hw
    · exact hd.validators styled' w hw style
    · obtain ⟨rfl, rfl⟩ := Prod.mk.inj (List.mem_singleton.mp hw)
      split
      · exact hv.restyle hstage style
      · exact hv
  scopes styled' w hw hcross := by
    rcases List.mem_append.mp hw with hw | hw
    · exact hd.scopes styled' w hw hcross
    · obtain ⟨rfl, rfl⟩ := Prod.mk.inj (List.mem_singleton.mp hw)
      exact absurd hcross hstage

/-- The check for duplicates in the target column. -/
theorem Heeds.withUnique (hd : d.Heeds columns target) :
    ((d.withScope (.sameValue target)).withStyled
      (.crossRow fun ctx rows => .ok (Check.unique target ctx rows))).Heeds columns target where
  targets := hd.targets
  guard := hd.guard
  validators styled w hw style := by
    rcases List.mem_append.mp hw with hw | hw
    · exact hd.validators styled w hw style
    · obtain ⟨rfl, rfl⟩ := Prod.mk.inj (List.mem_singleton.mp hw)
      exact .unique style
  scopes _ _ _ _ := by simp [withScope, withStyled]

/-- A check of the row that a step names. -/
theorem Heeds.named (hd : d.Heeds columns target) {step : Step} {names : List String}
    {check : RowContext → Verdict} (hs : step.check? = some (names, check)) :
    (d.apply step).Heeds columns target := by
  rw [apply_check? hs]
  refine (hd.reading names).withCheck (.prompt fun a b h => ?_) (by simp [Validator.stage])
  rw [Step.check?_agree hs (fun c hc => .inr (Ascending.mem_addAll.mpr (.inr hc))) h]

/-- A guard that a step names. -/
theorem Heeds.namedGuard (hd : d.Heeds columns target) {step : Step} {column : String}
    {guard : Guard} (hs : step.guard? = some (column, guard)) :
    (d.apply step).Heeds columns target := by
  rw [apply_guard? hs]
  refine (hd.reading [column]).guarded fun a b h => Step.guard?_agree hs ?_
  exact h.values column (.inl (.inr (Ascending.mem_addAll.mpr (.inr (by simp)))))

/-- A set of one target gets no other. -/
theorem addAll_target {set items : List String} (hset : set = [] ∨ set = [target])
    (hitems : ∀ c ∈ items, c = target) :
    Ascending.addAll set items = [] ∨ Ascending.addAll set items = [target] := by
  induction items generalizing set with
  | nil => exact hset
  | cons c items ih =>
    obtain rfl := hitems c (by simp)
    refine ih (.inr ?_) fun d hd => hitems d (by simp [hd])
    rcases hset with rfl | rfl <;> simp [Ascending.insert]

/-- One step keeps to what it names. -/
theorem Heeds.apply (hd : d.Heeds columns target) {step : Step}
    (hs : step.Heeds columns target) : (d.apply step).Heeds columns target := by
  have hown : ∀ {w : Validator}, w.Heeds columns target →
      w.Heeds (columns ∪ {c | c ∈ d.reads}) target :=
    fun hw => hw.mono Set.subset_union_left
  have htargets : ∀ targets : List String, (∀ c ∈ targets, c = target) →
      Ascending.addAll d.targets targets = [] ∨ Ascending.addAll d.targets targets = [target] :=
    fun targets => addAll_target hd.targets
  cases step with
  | forColumn column =>
    exact { hd with targets := htargets [column] fun c hc => (List.mem_singleton.mp hc).trans hs }
  | forColumns targets => exact { hd with targets := htargets targets hs }
  | dependsOn _ | description _ | severity _ | priority _ | message _ => exact { hd with }
  | guardBy guard =>
    exact hd.guarded fun a b h => hs a b (h.mono Set.subset_union_left)
  | andGuard guard =>
    refine hd.combineGuard (fun first second a b h₁ h₂ => ?_) hs
    simp only [Guard.both, h₁, h₂]
  | orGuard guard =>
    refine hd.combineGuard (fun first second a b h₁ h₂ => ?_) hs
    simp only [Guard.either, h₁, h₂]
  | columnEquals _ _ | columnHasValue _ | columnIsEmpty _ | columnContains _ _ =>
    exact hd.namedGuard rfl
  | judge check => exact hd.withCheck (hown (.prompt hs)) (by simp [Validator.stage])
  | judgeLater start => exact hd.withCheck (hown (.delayed hs)) (by simp [Validator.stage])
  | judgeAmong check => exact hs.elim
  | satisfies condition =>
    refine hd.withCheck (hown (.prompt fun a b h => ?_)) (by simp [Validator.stage])
    simp only [conditionCheck, hs a b h]
  | required | requiredFields _ | inRange _ _ _ | startBeforeEnd _ _ | email | phone =>
    exact hd.named rfl
  | unique column =>
    obtain rfl : column = target := hs
    exact (hd.reading [column]).withUnique

/-- Some steps keep to what they name. -/
theorem Heeds.applyAll (hd : d.Heeds columns target) {steps : List Step}
    (hs : ∀ step ∈ steps, step.Heeds columns target) :
    (steps.foldl Draft.apply d).Heeds columns target := by
  induction steps generalizing d with
  | nil => exact hd
  | cons step steps ih =>
    exact ih (hd.apply (hs step (by simp))) fun s hmem => hs s (by simp [hmem])

/-- What a rule has of its draft. What was noted as read is judged or a dependency. -/
structure Built (d : Draft) (r : Rule) : Prop where
  nonempty : d.targets ≠ []
  targets : r.targets = d.targets
  guard : r.guard = d.guard
  scopes : r.scopes = d.scopes
  reads : {c | c ∈ d.reads} ⊆ r.columns
  validators : ∀ v ∈ r.validators, ∃ styled w, (styled, w) ∈ d.validators ∧
    v = if styled then w.restyle d.style else w

theorem build_ok (h : d.build = .ok r) : d.Built r := by
  unfold build at h
  split at h
  · cases h
  split at h
  · cases h
  rename_i htargets
  split at h
  · cases h
  obtain rfl := Except.ok.inj h
  refine ⟨by simpa using htargets, rfl, rfl, rfl, fun c hc => ?_, fun v hv => ?_⟩
  · rw [Rule.columns, Set.mem_ofPred_eq, Ascending.mem_addAll, List.mem_filter]
    by_cases hmem : c ∈ d.targets
    · exact .inl hmem
    · exact .inr (.inr ⟨hc, by simpa using hmem⟩)
  · rw [ordered, List.mem_mergeSort, List.mem_map] at hv
    obtain ⟨⟨styled, w⟩, hmem, rfl⟩ := hv
    exact ⟨styled, w, hmem, rfl⟩

/-- A rule made of steps that keep to some columns looks at nothing but these and those it names. -/
theorem build_heeds {name : String} {steps : List Step} {r : Rule}
    (hr : (ofSteps name steps).build = .ok r) (hs : ∀ step ∈ steps, step.Heeds columns target) :
    r.Heeds (columns ∪ r.columns) target := by
  have hd : (ofSteps name steps).Heeds columns target := (heeds_empty name).applyAll hs
  generalize ofSteps name steps = d at hr hd
  have hb := build_ok hr
  have htarget : d.targets = [target] := hd.targets.resolve_left hb.nonempty
  have hsub : columns ∪ {c | c ∈ d.reads} ⊆ columns ∪ r.columns :=
    Set.union_subset_union_right _ hb.reads
  exact
    { targets := hb.targets.trans htarget
      guard := fun guard hguard a b h => hd.guard guard (hb.guard ▸ hguard) a b (h.mono hsub)
      validators := fun v hv => by
        obtain ⟨styled, w, hmem, rfl⟩ := hb.validators v hv
        exact (hd.validators styled w hmem d.style).mono hsub
      scopes := fun hneeds => by
        obtain ⟨v, hv, hstage⟩ := List.any_eq_true.mp hneeds
        obtain ⟨styled, w, hmem, rfl⟩ := hb.validators v hv
        rw [hb.scopes]
        refine hd.scopes styled w hmem ?_
        have hkept : (if styled then w.restyle d.style else w).stage = w.stage := by
          split
          · cases w <;> rfl
          · rfl
        rw [← hkept]
        exact beq_iff_eq.mp hstage }

end Draft

/-! ## Rule sets made by steps -/

namespace SetDraft

variable {entries : List (Except Problem Rule)} {d : SetDraft} {s s' : RuleSet} {step : SetStep}
  {steps : List SetStep}

/-- The rules that a step adds. -/
def added (step : SetStep) : List (Except Problem Rule) :=
  (({ name := "" } : SetDraft).apply step).rules

theorem rules_apply : (d.apply step).rules = d.rules ++ added step := by
  cases step <;> first | rfl | exact (List.append_nil _).symm

/-- The rules of a draft are those that its steps add. -/
theorem mem_rules_foldl {entry : Except Problem Rule} :
    entry ∈ (steps.foldl apply d).rules ↔ entry ∈ d.rules ∨ ∃ step ∈ steps, entry ∈ added step := by
  induction steps generalizing d with
  | nil => simp
  | cons step steps ih =>
    rw [List.foldl_cons, ih, rules_apply, List.mem_append]
    simp [or_assoc]

/-- Adding rules brings in no others. -/
theorem mem_rules_of_addRules (h : (addRules s entries).answer = .ok s') (hr : r ∈ s'.rules) :
    r ∈ s.rules ∨ .ok r ∈ entries := by
  induction entries generalizing s with
  | nil =>
    obtain rfl := Except.ok.inj h
    exact .inl hr
  | cons entry entries ih =>
    cases entry with
    | error p => cases h
    | ok q =>
      rw [addRules] at h
      cases hadd : s.add q with
      | error p =>
        rw [hadd] at h
        cases h
      | ok next =>
        rw [hadd] at h
        rcases ih h with hr | hr
        · unfold RuleSet.add at hadd
          split at hadd
          · cases hadd
          · obtain rfl := Except.ok.inj hadd
            rcases List.mem_append.mp hr with hr | hr
            · exact .inl hr
            · exact .inr (by simp [List.mem_singleton.mp hr])
        · exact .inr (List.mem_cons_of_mem _ hr)

/-- The rules of a rule set are those that the steps add it is made by. -/
theorem mem_added_of_build {name : String} (h : (ofSteps name steps).build.answer = .ok s)
    (hr : r ∈ s.rules) : ∃ step ∈ steps, .ok r ∈ added step := by
  rw [build] at h
  split at h
  · rename_i empty hempty
    have hnone : empty.rules = [] := by
      simp only [RuleSet.setThrottle, Except.map] at hempty
      split at hempty
      · cases hempty
      · obtain rfl := Except.ok.inj hempty
        rfl
    rcases mem_rules_of_addRules h hr with hr | hr
    · rw [hnone] at hr
      cases hr
    · exact (mem_rules_foldl.mp hr).resolve_left nofun
  · cases h

end SetDraft

/-- The column that a common check in short form judges, if it judges one. -/
def SetStep.column? : SetStep → Option String
  | .required column | .email column | .range column _ _ | .unique column
  | .requiredWhen column _ _ => some column
  | _ => none

/-- The common checks on one column look at nothing but the columns they name. -/
theorem SetDraft.heeds_of_added {step : SetStep} (hs : step.column? = some target)
    (hr : .ok r ∈ added step) : r.Heeds r.columns target := by
  have hadd : ∀ {name : String} {steps : List Step},
      .ok r ∈ [(Draft.ofSteps name steps).build] → (∀ step ∈ steps, step.Heeds ∅ target) →
      r.Heeds r.columns target := by
    intro name steps hr hsteps
    have hheeds := Draft.build_heeds (List.mem_singleton.mp hr).symm hsteps
    rwa [Set.empty_union] at hheeds
  cases step with
  | required column | email column | range column min max | unique column
  | requiredWhen column condition value =>
    obtain rfl := Option.some.inj hs
    exact hadd hr (by simp [Step.Heeds])
  | draft _ | rule _ | dateRange _ _ | mode _ | throttle _ => cases hs

theorem Rule.Heeds.mono (hr : r.Heeds columns target) (hsub : columns ⊆ more) :
    r.Heeds more target where
  targets := hr.targets
  guard guard hguard a b h := hr.guard guard hguard a b (h.mono hsub)
  validators v hv := (hr.validators v hv).mono hsub
  scopes := hr.scopes

/-- Every rule judges one column, by the columns of the row that it names and by duplicates in the one
that it judges. -/
def RuleSet.NamesColumns (s : RuleSet) : Prop := ∀ r ∈ s.rules, ∃ target, r.Heeds r.columns target

/-- The step adds a common check on one column, or no rule. -/
def SetStep.isShort : SetStep → Bool
  | .draft _ | .rule _ | .dateRange _ _ => false
  | _ => true

/-- The rules of a rule set made of common checks on one column name what they look at. -/
theorem SetDraft.build_namesColumns {name : String} {steps : List SetStep} {s : RuleSet}
    (h : (ofSteps name steps).build.answer = .ok s) (hs : ∀ step ∈ steps, step.isShort = true) :
    s.NamesColumns := by
  intro r hr
  obtain ⟨step, hstep, hadded⟩ := mem_added_of_build h hr
  have hshort := hs step hstep
  cases step with
  | required column | email column | range column _ _ | unique column
  | requiredWhen column _ _ => exact ⟨column, heeds_of_added rfl hadded⟩
  | draft _ | rule _ | dateRange _ _ => cases hshort
  | mode _ | throttle _ => cases hadded

/-- Every rule judges one column, by its row and by duplicates in that column. -/
def RuleSet.OneColumn (s : RuleSet) : Prop := ∀ r ∈ s.rules, ∃ target, r.Heeds Set.univ target

theorem RuleSet.NamesColumns.oneColumn {s : RuleSet} (hs : s.NamesColumns) : s.OneColumn :=
  fun r hr => (hs r hr).imp fun _ hheeds => hheeds.mono (Set.subset_univ _)

/-- What the step adds are rules of one column. -/
def SetStep.OneColumn : SetStep → Prop
  | .draft d => ∀ r, d.build = .ok r → ∃ target, r.Heeds Set.univ target
  | .rule r => ∃ target, r.Heeds Set.univ target
  | .dateRange _ _ => False
  | _ => True

namespace SetDraft

variable {step : SetStep} {steps : List SetStep}

theorem oneColumn_of_added (hs : step.OneColumn) (hr : .ok r ∈ added step) :
    ∃ target, r.Heeds Set.univ target := by
  have hshort : ∀ {target : String}, step.column? = some target →
      ∃ target, r.Heeds Set.univ target := fun hcolumn =>
    ⟨_, (heeds_of_added hcolumn hr).mono (Set.subset_univ _)⟩
  cases step with
  | required column | email column | range column _ _ | unique column
  | requiredWhen column _ _ => exact hshort rfl
  | draft draft => exact hs r (List.mem_singleton.mp hr).symm
  | rule q =>
    obtain rfl := Except.ok.inj (List.mem_singleton.mp hr)
    exact hs
  | dateRange _ _ => exact hs.elim
  | mode _ | throttle _ => cases hr

/-- A rule set made of common checks on one column, and of further rules of one column, has rules
of one column only. -/
theorem build_oneColumn {name : String} {s : RuleSet}
    (h : (ofSteps name steps).build.answer = .ok s) (hs : ∀ step ∈ steps, step.OneColumn) :
    s.OneColumn := by
  intro r hr
  obtain ⟨step, hstep, hadded⟩ := mem_added_of_build h hr
  exact oneColumn_of_added (hs step hstep) hadded

end SetDraft

end CellRules
