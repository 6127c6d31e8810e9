/-
CellRules.Proofs.Watch.Fate — what becomes of an evaluation that has begun.

An evaluation that has begun ends in one of three ways: it reports, it is dropped, or it meets a
problem. It is dropped only if a newer evaluation of its cell was asked for WHILE it was under way,
and either superseded evaluations are told to stop or the newer one has reported first.

* `Effect.underWay` — what one step may do to an evaluation under way.
* `Fate u key g h s` — what became of the evaluation `g` of a cell by the history `h` since it
  began. `Run.fate` follows it from its beginning.
-/
import CellRules.Proofs.Watch.Biography

namespace CellRules.Watch

/-- The evaluation was given up, or its report came too late to be delivered. -/
def Dropped (h : List Happening) (key : CellKey) (generation : Nat) : Prop :=
  Happening.dropped (.evaluation generation) key ∈ h

/-- The evaluation has begun and has yet to deal with its report. -/
def Evaluation.underWay (e : Evaluation) : Bool := e.stage.begun && e.reporting

/-- The step ends the evaluation of the cell: it reports, is dropped or meets a problem. -/
inductive Ends (key : CellKey) (generation : Nat) : Happening → Prop
  | reported (verdict : Verdict) :
      Ends key generation (.reported (.evaluation generation) key verdict)
  | dropped : Ends key generation (.dropped (.evaluation generation) key)
  | failed (problem : Problem) : Ends key generation (.failed (.evaluation generation) key problem)

variable {u : Setup} {grid : Grid} {s s' : State} {h h₁ h₂ : List Happening}
  {x : Option Happening} {key : CellKey} {g : Nat} {e f : Evaluation}

/-- Only one evaluation ends in a step. -/
theorem Ends.unique {y : Happening} {other : CellKey} {g' : Nat} (hy : Ends key g y)
    (hy' : Ends other g' y) : g = g' := by
  cases hy <;> cases hy' <;> rfl

/-- The stages in order. -/
def Stage.rank : Stage → Nat
  | .asked => 0
  | .armed _ => 1
  | .entering _ => 2
  | .inLine _ _ => 3
  | .running _ _ => 4
  | .settled _ _ => 5
  | .spreading _ => 6

theorem Evaluation.reporting_of_rank {e f : Evaluation} (hle : e.stage.rank ≤ f.stage.rank)
    (hf : f.reporting = true) : e.reporting = true := by
  unfold reporting at hf ⊢
  cases he : e.stage with
  | spreading keys =>
    cases hfs : f.stage with
    | spreading _ =>
      rw [hfs] at hf
      cases hf
    | _ => simp [he, hfs, Stage.rank] at hle
  | _ => rfl

/-! ## One step -/

theorem State.underWay_superseded : (s.superseded u key e).underWay = e.underWay := by
  rw [Evaluation.underWay, stage_superseded, Evaluation.reporting, stage_superseded]
  rfl

/-- An evaluation never goes back: before a step it stood no further, or was just asked for. -/
theorem Effect.evaluation_back (hopen : s.closed = false) (hopen' : s'.closed = false)
    (heffect : Effect u s x s') (hf : f ∈ s'.evaluations) :
    f.generation = s.nextGeneration ∨
      ∃ e ∈ s.evaluations, e.generation = f.generation ∧ e.stage.rank ≤ f.stage.rank := by
  cases heffect.origin hopen hopen' hf with
  | asked hg _ => exact .inl hg
  | stood he hg _ hstage _ => exact .inr ⟨_, he, hg.symm, Nat.le_of_eq (hstage ▸ rfl)⟩
  | @moved e he hg hcourse =>
    refine .inr ⟨e, he, hg.symm, ?_⟩
    cases hcourse with
    | discard _ _ hs | giveUp _ _ hs | finish _ hs =>
      exact absurd hg (State.ne_of_dropEvaluation hs.evaluations hf)
    | read hstage hs =>
      rw [State.eq_of_setStage hs.evaluations hf hg]
      rcases hstage with hstage | ⟨ticket, hstage⟩ <;> simp [hstage, Stage.rank]
    | arm hstage hs | begin hstage _ _ hs | queue hstage hs | work hstage _ hs | stop hstage _ hs
    | report hstage _ _ hs | ignore hstage _ hs | fail hstage _ hs | spread hstage hs =>
      rw [State.eq_of_setStage hs.evaluations hf hg]
      simp [hstage, Stage.rank]

/-- Who has come as far as some stage stays there or goes on. -/
theorem Run.rank_kept (background : u.ruleSet.throttle.background = true) {mid : State} {n : Nat}
    (before : Run u (.start u grid) h₁ mid) (after : Run u mid h₂ s) (hopen : s.closed = false)
    (hasked : AskedFor h₁ key g)
    (hmid : ∀ e ∈ mid.evaluations, e.generation = g → n ≤ e.stage.rank) :
    ∀ e ∈ s.evaluations, e.generation = g → n ≤ e.stage.rank := by
  refine Run.induction_after background
    (motive := fun _ s => ∀ e ∈ s.evaluations, e.generation = g → n ≤ e.stage.rank)
    before hmid ?_ after hopen
  intro h s₁ y s₂ hlaw₁ hlaw₂ heffect hrank f hf hg
  have hbelow := hlaw₁.chronicle.below key g (hasked.append h)
  rcases heffect.evaluation_back hlaw₁.isOpen.closed hlaw₂.isOpen.closed hf with
    hnew | ⟨e, he, heg, hle⟩
  · omega
  · exact Nat.le_trans (hrank e he (heg.trans hg)) hle

/-- An evaluation takes the step itself, or stays at its stage. If it stays, it is told at most that
a newer one was asked for. -/
theorem Effect.steps_or_stays (ho : s.Orderly) (hopen : s.closed = false)
    (hopen' : s'.closed = false) (heffect : Effect u s x s') (he : e ∈ s.evaluations) :
    Course u s e x s' ∨
      (e ∈ s'.evaluations ∧ ∀ y, x = some y → ¬Ends e.key e.generation y) ∨
      ∃ asker key fanOut, x = some (.asked asker key s.nextGeneration fanOut) ∧
        s.superseded u key e ∈ s'.evaluations := by
  cases heffect with
  | @course d _ _ hknown hcourse =>
    have hd := State.mem_of_evaluation? hknown
    by_cases hg : d.generation = e.generation
    · obtain rfl := ho.eq_of_generation he hd hg
      exact .inl hcourse
    have hset : ∀ {stage : Stage}, s'.evaluations = (s.setStage d stage).evaluations →
        e ∈ s'.evaluations := by
      intro stage hevaluations
      rw [hevaluations]
      exact State.mem_setStage.mpr (.inl ⟨he, Ne.symm hg⟩)
    have hdrop : s'.evaluations = (s.dropEvaluation d).evaluations → e ∈ s'.evaluations := by
      intro hevaluations
      rw [hevaluations]
      exact State.mem_dropEvaluation.mpr ⟨he, Ne.symm hg⟩
    have hother : ∀ {y : Happening}, Ends d.key d.generation y →
        ∀ z, some y = some z → ¬Ends e.key e.generation z := by
      rintro y hy z hz hends
      obtain rfl := Option.some.inj hz
      exact hg (hy.unique hends)
    refine .inr ?_
    cases hcourse with
    | discard _ _ hs | finish _ hs => exact .inl ⟨hdrop hs.evaluations, by simp⟩
    | giveUp _ _ hs => exact .inl ⟨hdrop hs.evaluations, hother .dropped⟩
    | arm _ hs | queue _ hs | work _ _ hs | stop _ _ hs => exact .inl ⟨hset hs.evaluations, by simp⟩
    | begin _ _ _ hs | read _ hs =>
      refine .inl ⟨hset hs.evaluations, ?_⟩
      rintro y hy hends
      obtain rfl := Option.some.inj hy
      cases hends
    | report _ _ _ hs => exact .inl ⟨hset hs.evaluations, hother (.reported _)⟩
    | ignore _ _ hs => exact .inl ⟨hset hs.evaluations, hother .dropped⟩
    | fail _ _ hs => exact .inl ⟨hset hs.evaluations, hother (.failed _)⟩
    | @spread _ key keys hstage hs =>
      refine .inr ⟨_, key, _, rfl, ?_⟩
      rw [hs.evaluations]
      refine State.mem_setStage.mpr (.inl ⟨?_, ?_⟩)
      · rw [(State.schedule_alike (u := u) hopen key []).evaluations]
        exact List.mem_append_left _ (List.mem_map.mpr ⟨e, he, rfl⟩)
      · rw [State.generation_superseded]
        exact Ne.symm hg
  | @ask c edited job todo _ hknown hstage hs =>
    refine .inr (.inr ⟨_, job.key, _, rfl, ?_⟩)
    rw [hs.evaluations]
    have halike := State.schedule_alike (u := u) hopen job.key [edited]
    exact halike.evaluations ▸ List.mem_append_left _ (List.mem_map.mpr ⟨e, he, rfl⟩)
  | call hknown hcourse =>
    refine .inr (.inl ⟨hcourse.kept.1 ▸ he, ?_⟩)
    rintro y rfl hends
    cases hcourse <;> cases hends
  | outside hout =>
    refine .inr (.inl ⟨hout.kept.1 ▸ he, ?_⟩)
    rintro y rfl hends
    cases hout <;> cases hends
  | close hclosed =>
    subst hclosed
    cases hopen'

/-- Who ends was under way or had yet to begin. -/
theorem Effect.reporting_of_ends {y : Happening} (heffect : Effect u s (some y) s')
    (hends : Ends key g y) :
    ∃ e ∈ s.evaluations, e.generation = g ∧ e.key = key ∧ e.reporting = true := by
  cases heffect with
  | @course e _ _ hknown hcourse =>
    have he := State.mem_of_evaluation? hknown
    cases hcourse with
    | giveUp hstage hwhy hs =>
      cases hends
      refine ⟨e, he, rfl, rfl, ?_⟩
      rcases hstage with hstage | ⟨ticket, hstage⟩ <;> simp [Evaluation.reporting, hstage]
    | report hstage hwanted hclaim hs =>
      cases hends
      exact ⟨e, he, rfl, rfl, by simp [Evaluation.reporting, hstage]⟩
    | ignore hstage hwhy hs =>
      cases hends
      exact ⟨e, he, rfl, rfl, by simp [Evaluation.reporting, hstage]⟩
    | fail hstage hwanted hs =>
      cases hends
      exact ⟨e, he, rfl, rfl, by simp [Evaluation.reporting, hstage]⟩
    | _ => cases hends
  | ask hknown hstage hs => cases hends
  | call hknown hcourse => cases hcourse <;> cases hends
  | outside hout => cases hout <;> cases hends
  | close hclosed => cases hends

/-- An evaluation under way is told to stop only for a newer one of its cell, where superseded ones
are given up. -/
theorem State.Orderly.cancelled_superseded (ho : s.Orderly) (he : e ∈ s.evaluations)
    (hbegun : e.stage.begun = true) (hc : (s.superseded u key e).cancelled = true) :
    e.cancelled = true ∨ (u.ruleSet.throttle.cancelSuperseded = true ∧ key = e.key) := by
  unfold superseded at hc
  split at hc
  · rename_i hstops
    have hkey : e.key = key := by
      by_contra hne
      rw [ho.not_stops he hne] at hstops
      cases hstops
    subst hkey
    refine .inr ⟨?_, rfl⟩
    unfold stops at hstops
    cases hr : s.ledger.current? e.key with
    | none => simp [hr] at hstops
    | some r =>
      simp only [hr, Option.any_some, Bool.and_eq_true, beq_iff_eq, Bool.or_eq_true] at hstops
      obtain ⟨c, hfind, hcur⟩ := Ledger.current?_eq_some.mp hr
      have hfits := ho.fits e.key
      rw [hfind] at hfits
      have hphase := (hfits.begun_of_current (ho.pairwise_standingsOf _) hcur (standing_mem he)
        hstops.1.symm).2
      refine hstops.2.resolve_left fun hpending => ?_
      rw [hpending, Evaluation.standing, hbegun] at hphase
      cases hphase
  · exact .inl hc

/-- An evaluation under way goes on or ends. It is told to stop only when a newer evaluation of its
cell is asked for and superseded ones are given up; and it is dropped only if it was told to stop,
or a newer one has delivered its report. -/
theorem Effect.underWay (ho : s.Orderly) (hopen : s.closed = false) (hopen' : s'.closed = false)
    (heffect : Effect u s x s') (he : e ∈ s.evaluations) (hunder : e.underWay = true) :
    (∃ f ∈ s'.evaluations, f.generation = e.generation ∧ f.key = e.key ∧ f.underWay = true ∧
        (∀ y, x = some y → ¬Ends e.key e.generation y) ∧
        (f.cancelled = true → e.cancelled = true ∨
          (u.ruleSet.throttle.cancelSuperseded = true ∧
            ∃ asker fanOut, x = some (.asked asker e.key s.nextGeneration fanOut)))) ∨
      (∃ y, x = some y ∧ Ends e.key e.generation y ∧
        (∀ f ∈ s'.evaluations, f.generation = e.generation → f.reporting = false) ∧
        (y = .dropped (.evaluation e.generation) e.key →
          e.cancelled = true ∨ s.ledger.claim? e.key e.generation = none)) := by
  obtain ⟨hbegun, hreporting⟩ : e.stage.begun = true ∧ e.reporting = true := by
    simpa [Evaluation.underWay] using hunder
  rcases heffect.steps_or_stays ho hopen hopen' he with
    hcourse | ⟨hmem, hx⟩ | ⟨asker, key, fanOut, rfl, hmem⟩
  · have hset : ∀ {stage : Stage}, s'.evaluations = (s.setStage e stage).evaluations →
        { e with stage } ∈ s'.evaluations := by
      intro stage hevaluations
      rw [hevaluations]
      exact State.mem_setStage.mpr (.inr ⟨rfl, e, he, rfl⟩)
    have honly : ∀ {stage : Stage}, s'.evaluations = (s.setStage e stage).evaluations →
        ({ e with stage } : Evaluation).reporting = false →
        ∀ f ∈ s'.evaluations, f.generation = e.generation → f.reporting = false := by
      intro stage hevaluations hrep f hf hfg
      rwa [State.eq_of_setStage hevaluations hf hfg]
    cases hcourse with
    | arm hstage hs | begin hstage _ _ hs =>
      rw [hstage] at hbegun
      cases hbegun
    | discard hstage hwhy hs =>
      rcases hstage with hstage | ⟨due, hstage⟩ <;> (rw [hstage] at hbegun; cases hbegun)
    | queue hstage hs => exact .inl ⟨_, hset hs.evaluations, rfl, rfl, rfl, by simp, .inl⟩
    | read hstage hs =>
      refine .inl ⟨_, hset hs.evaluations, rfl, rfl, rfl, ?_, .inl⟩
      rintro y hy hends
      obtain rfl := Option.some.inj hy
      cases hends
    | work hstage hkept hs => exact .inl ⟨_, hset hs.evaluations, rfl, rfl, rfl, by simp, .inl⟩
    | stop hstage hkept hs => exact .inl ⟨_, hset hs.evaluations, rfl, rfl, rfl, by simp, .inl⟩
    | giveUp hstage hwhy hs =>
      refine .inr ⟨_, rfl, .dropped, fun f hf hfg => ?_, fun _ => .inl hwhy⟩
      exact absurd hfg (State.ne_of_dropEvaluation hs.evaluations hf)
    | report hstage hwanted hclaim hs =>
      exact .inr ⟨_, rfl, .reported _, honly hs.evaluations rfl, by simp⟩
    | ignore hstage hwhy hs =>
      exact .inr ⟨_, rfl, .dropped, honly hs.evaluations rfl, fun _ => hwhy⟩
    | fail hstage hwanted hs =>
      exact .inr ⟨_, rfl, .failed _, honly hs.evaluations rfl, by simp⟩
    | spread hstage hs => simp [Evaluation.reporting, hstage] at hreporting
    | finish hstage hs => simp [Evaluation.reporting, hstage] at hreporting
  · exact .inl ⟨e, hmem, rfl, rfl, hunder, hx, .inl⟩
  · refine .inl ⟨_, hmem, State.generation_superseded e, State.key_superseded e,
      State.underWay_superseded.trans hunder, ?_, fun hc => ?_⟩
    · rintro y hy hends
      obtain rfl := Option.some.inj hy
      cases hends
    · rcases ho.cancelled_superseded he hbegun hc with hc | ⟨hgives, rfl⟩
      · exact .inl hc
      · exact .inr ⟨hgives, asker, fanOut, rfl⟩

/-! ## From its beginning to its end -/

/-- What became of an evaluation by the history since it began: it is under way, or it ended, once.
If it was dropped, a newer evaluation of its cell was asked for in the meantime. -/
inductive Fate (u : Setup) (key : CellKey) (g : Nat) (h : List Happening) (s : State) : Prop
  | underWay (e : Evaluation) (mem : e ∈ s.evaluations) (generation : e.generation = g)
      (cell : e.key = key) (underWay : e.underWay = true) (none : ∀ y ∈ h, ¬Ends key g y)
      (told : e.cancelled = true → u.ruleSet.throttle.cancelSuperseded = true ∧
        ∃ newer, g < newer ∧ AskedFor h key newer)
  | ended (y : Happening) (mem : y ∈ h) (ends : Ends key g y)
      (once : ∀ z ∈ h, Ends key g z → z = y)
      (gone : ∀ f ∈ s.evaluations, f.generation = g → f.reporting = false)
      (overtaken : y = .dropped (.evaluation g) key → ∃ newer, g < newer ∧ AskedFor h key newer ∧
        (u.ruleSet.throttle.cancelSuperseded = true ∨ Reported h key newer))

/-- What was asked for and reported before an evaluation began is older. -/
theorem Lawful.older_of_begins (hlaw : Lawful u grid h s) {fanOut : List String}
    {ledger : Ledger} (hb : s.ledger.begin? key g = some (fanOut, ledger)) {g' : Nat}
    (ha : AskedFor h key g') : g' ≤ g := by
  obtain ⟨c, phase, hfind, hcur, -⟩ := Ledger.begin?_eq_some.mp hb
  exact (hlaw.chronicle.remembers key c hfind).newest _ hcur g' ha

/-- One step of the fate of an evaluation. -/
theorem Fate.step {past : List Happening} (hlaw : Lawful u grid (past ++ h) s)
    (hlaw' : Lawful u grid (past ++ h ++ x.toList) s') (hasked : AskedFor past key g)
    (holder : ∀ g', AskedFor past key g' ∨ Reported past key g' → g' ≤ g) (heffect : Effect u s x s')
    (hfate : Fate u key g h s) : Fate u key g (h ++ x.toList) s' := by
  have hopen := hlaw.isOpen.closed
  have hopen' := hlaw'.isOpen.closed
  have hbelow : g < s.nextGeneration := hlaw.chronicle.below key g (hasked.append h)
  cases hfate with
  | underWay e hmem hg hcell hunder hnone htold =>
    subst hg hcell
    rcases heffect.underWay hlaw.orderly hopen hopen' hmem hunder with
      ⟨f, hf, hfg, hfk, hfu, hx, hfc⟩ | ⟨y, rfl, hends, hgone, hdropped⟩
    · refine .underWay f hf hfg hfk hfu (fun y hy hends => ?_) fun hc => ?_
      · rcases List.mem_append.mp hy with hy | hy
        · exact hnone y hy hends
        · exact hx y (Option.mem_toList.mp hy) hends
      · rcases hfc hc with hc | ⟨hgives, asker, fanOut, rfl⟩
        · obtain ⟨hgives, newer, hlt, ha⟩ := htold hc
          exact ⟨hgives, newer, hlt, ha.append _⟩
        · exact ⟨hgives, s.nextGeneration, hbelow, asker, fanOut, by simp⟩
    · refine .ended y (by simp) hends (fun z hz hz' => ?_) hgone fun hy => ?_
      · rcases List.mem_append.mp hz with hz | hz
        · exact absurd hz' (hnone z hz)
        · simpa using hz
      · rcases hdropped hy with hc | hclaim
        · obtain ⟨hgives, newer, hlt, ha⟩ := htold hc
          exact ⟨newer, hlt, ha.append _, .inl hgives⟩
        · -- a newer report was delivered, and both it and its evaluation came after the beginning
          have hbegun : e.stage.begun = true := by
            simp only [Evaluation.underWay, Bool.and_eq_true] at hunder
            exact hunder.1
          obtain ⟨c, hfind⟩ :=
            (hlaw.orderly.fits e.key).known _ (State.standing_mem hmem) hbegun
          obtain ⟨d, hd, hlt⟩ := Ledger.claim?_eq_none hclaim hfind
          have hreported := ((hlaw.chronicle.remembers e.key c hfind).delivered d hd).1
          obtain ⟨asker, fanOut, ha⟩ := hlaw.chronicle.reportedAsked e.key d hreported
          obtain ⟨v, hv⟩ := hreported
          refine ⟨d, hlt, AskedFor.append ⟨asker, fanOut, ?_⟩ _, .inr (Reported.append ⟨v, ?_⟩ _)⟩
          · refine (List.mem_append.mp ha).resolve_left fun hearly => ?_
            have hle := holder d (.inl ⟨asker, fanOut, hearly⟩)
            omega
          · refine (List.mem_append.mp hv).resolve_left fun hearly => ?_
            have hle := holder d (.inr ⟨v, hearly⟩)
            omega
  | ended y hmem hends honce hgone hover =>
    refine .ended y (List.mem_append_left _ hmem) hends (fun z hz hz' => ?_) (fun f hf hfg => ?_)
      fun hy => ?_
    · rcases List.mem_append.mp hz with hz | hz
      · exact honce z hz hz'
      · obtain rfl := Option.mem_toList.mp hz
        obtain ⟨e, he, heg, -, hrep⟩ := heffect.reporting_of_ends hz'
        rw [hgone e he heg] at hrep
        cases hrep
    · cases hrep : f.reporting with
      | false => rfl
      | true =>
        rcases heffect.evaluation_back hopen hopen' hf with hnew | ⟨e, he, heg, hle⟩
        · omega
        · have herep := Evaluation.reporting_of_rank hle hrep
          rw [hgone e he (heg.trans hfg)] at herep
          cases herep
    · obtain ⟨newer, hlt, ha, hwhy⟩ := hover hy
      exact ⟨newer, hlt, ha.append _, hwhy.imp id (·.append _)⟩

/-- An evaluation begins if it waited and is the newest of its cell. -/
theorem Effect.of_began {fanOut : List String}
    (heffect : Effect u s (some (.began key g fanOut)) s') :
    ∃ e ∈ s.evaluations, ∃ due ledger, e.generation = g ∧ e.key = key ∧ e.stage = .armed due ∧
      e.cancelled = false ∧ s.ledger.begin? key g = some (fanOut, ledger) ∧
      s'.Alike ({ s with ledger }.setStage e (.entering fanOut)) := by
  cases heffect with
  | @course e _ _ hknown hcourse =>
    cases hcourse with
    | @begin _ due _ ledger hstage hwanted hb hs =>
      exact ⟨e, State.mem_of_evaluation? hknown, due, ledger, rfl, rfl, hstage, hwanted, hb, hs⟩
  | call hknown hcourse => cases hcourse
  | outside hout => cases hout

/-- An evaluation begins once. -/
theorem Run.began_once (background : u.ruleSet.throttle.background = true)
    (run : Run u (.start u grid) h s) (hopen : s.closed = false) {fanOut : List String}
    (hx : h = h₁ ++ .began key g fanOut :: h₂) (other : CellKey) (columns : List String) :
    .began other g columns ∉ h₂ := by
  intro hmem
  obtain ⟨k₁, k₂, rfl⟩ := List.append_of_mem hmem
  obtain ⟨mid, next, hlaw, heffect, hbefore, hafter⟩ := run.effect_of_mem background hopen hx
  obtain ⟨e, he, due, ledger, rfl, rfl, -, -, -, hs⟩ := heffect.of_began
  have hasked := (hlaw.chronicle.asked e he).append [.began e.key e.generation fanOut]
  obtain ⟨later, hlater, next', hstep, hrest⟩ := hafter.moment rfl
  have hopen' := hstep.open (hrest.open hopen)
  have hrank := Run.rank_kept (n := 2) background hbefore hlater hopen' hasked fun f hf hg => by
    rw [State.eq_of_setStage hs.evaluations hf hg]
    exact Nat.le_refl 2
  obtain ⟨f, hf, due', -, hfg, -, hstage, -⟩ :=
    ((hbefore.trans hlater).lawful_step background hopen' hstep).2.of_began
  have hle := hrank f hf hfg
  rw [hstage] at hle
  exact absurd hle (by simp [Stage.rank])

/-- An evaluation takes over one list of columns. -/
theorem Run.began_unique (background : u.ruleSet.throttle.background = true)
    (run : Run u (.start u grid) h s) (hopen : s.closed = false) {fanOut columns : List String}
    (hfirst : .began key g fanOut ∈ h) (hsecond : .began key g columns ∈ h) : fanOut = columns := by
  obtain ⟨k₁, k₂, rfl⟩ := List.append_of_mem hfirst
  rcases List.mem_append.mp hsecond with hearly | hlate
  · obtain ⟨m₁, m₂, rfl⟩ := List.append_of_mem hearly
    refine absurd ?_ (run.began_once background hopen (List.append_assoc m₁ _ _) key fanOut)
    simp
  · rcases List.mem_cons.mp hlate with heq | hlate
    · cases heq
      rfl
    · exact absurd hlate (run.began_once background hopen rfl key columns)

/-- Who reads the grid for an evaluation has just got its slot, and works from then on. -/
theorem Effect.of_read (heffect : Effect u s (some (.read (.evaluation g) key)) s') :
    ∃ e ∈ s.evaluations, e.generation = g ∧ e.key = key ∧ e.stage.rank < 4 ∧
      ∀ f ∈ s'.evaluations, f.generation = g → 4 ≤ f.stage.rank := by
  cases heffect with
  | @course e _ _ hknown hcourse =>
    cases hcourse with
    | read hstage hs =>
      refine ⟨e, State.mem_of_evaluation? hknown, rfl, rfl, ?_, fun f hf hg => ?_⟩
      · rcases hstage with hstage | ⟨ticket, hstage⟩ <;> simp [hstage, Stage.rank]
      · rw [State.eq_of_setStage hs.evaluations hf hg]
        exact Nat.le_refl 4
  | call hknown hcourse => cases hcourse
  | outside hout => cases hout

/-- An evaluation reads the grid once. -/
theorem Run.read_once (background : u.ruleSet.throttle.background = true)
    (run : Run u (.start u grid) h s) (hopen : s.closed = false)
    (hx : h = h₁ ++ .read (.evaluation g) key :: h₂) (other : CellKey) :
    .read (.evaluation g) other ∉ h₂ := by
  intro hmem
  obtain ⟨k₁, k₂, rfl⟩ := List.append_of_mem hmem
  obtain ⟨mid, next, hlaw, heffect, hbefore, hafter⟩ := run.effect_of_mem background hopen hx
  obtain ⟨e, he, rfl, rfl, -, hrank⟩ := heffect.of_read
  have hasked := (hlaw.chronicle.asked e he).append [.read (.evaluation e.generation) e.key]
  obtain ⟨later, hlater, next', hstep, hrest⟩ := hafter.moment rfl
  have hopen' := hstep.open (hrest.open hopen)
  obtain ⟨f, hf, hfg, -, hlt, -⟩ :=
    ((hbefore.trans hlater).lawful_step background hopen' hstep).2.of_read
  have hle := Run.rank_kept background hbefore hlater hopen' hasked hrank f hf hfg
  omega

/-- What comes before and after a reading is determined by the history. -/
theorem Run.read_unique (background : u.ruleSet.throttle.background = true)
    (run : Run u (.start u grid) h s) (hopen : s.closed = false)
    (hx : h = h₁ ++ .read (.evaluation g) key :: h₂) {k₁ k₂ : List Happening}
    (hk : h = k₁ ++ .read (.evaluation g) key :: k₂) : h₁ = k₁ ∧ h₂ = k₂ := by
  have hlast := run.read_once background hopen hx key
  have hfirst : .read (.evaluation g) key ∉ h₁ := by
    intro hmem
    obtain ⟨m₁, m₂, rfl⟩ := List.append_of_mem hmem
    exact run.read_once background hopen (hx.trans (List.append_assoc m₁ _ _)) key (by simp)
  obtain ⟨heq₁, -, heq₂⟩ :=
    (List.append_cons_inj_of_notMem hfirst hlast).mp (hx.symm.trans hk)
  exact ⟨heq₁, heq₂⟩

/-- An evaluation that has begun is followed to its end. -/
theorem Run.fate (background : u.ruleSet.throttle.background = true)
    (run : Run u (.start u grid) h s) (hopen : s.closed = false) {fanOut : List String}
    (hx : h = h₁ ++ .began key g fanOut :: h₂) : Fate u key g h₂ s := by
  obtain ⟨mid, next, hlaw, heffect, hbefore, hafter⟩ := run.effect_of_mem background hopen hx
  obtain ⟨e, he, due, ledger, rfl, rfl, hstage, hwanted, hb, hs⟩ := heffect.of_began
  have hasked : AskedFor (h₁ ++ [.began e.key e.generation fanOut]) e.key e.generation :=
    (hlaw.chronicle.asked e he).append _
  have holder : ∀ g', AskedFor (h₁ ++ [.began e.key e.generation fanOut]) e.key g' ∨
      Reported (h₁ ++ [.began e.key e.generation fanOut]) e.key g' → g' ≤ e.generation := by
    rintro g' (⟨asker, columns, ha⟩ | ⟨v, hv⟩)
    · exact hlaw.older_of_begins hb ⟨asker, columns, by simpa using ha⟩
    · exact hlaw.older_of_begins hb (hlaw.chronicle.reportedAsked _ _ ⟨v, by simpa using hv⟩)
  refine Run.induction_after background (motive := Fate u e.key e.generation) hbefore ?_ ?_
    hafter hopen
  · refine .underWay { e with stage := .entering fanOut } ?_ rfl rfl rfl (by simp) ?_
    · rw [hs.evaluations]
      exact State.mem_setStage.mpr (.inr ⟨rfl, e, he, rfl⟩)
    · intro hc
      exact absurd (hwanted.symm.trans hc) (by simp)
  · intro h' s₁ y s₂ hlaw₁ hlaw₂ heffect' hfate
    exact hfate.step hlaw₁ hlaw₂ hasked holder heffect'

end CellRules.Watch
