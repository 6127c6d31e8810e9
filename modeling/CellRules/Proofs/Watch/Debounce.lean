/-
CellRules.Proofs.Watch.Debounce — a cell is judged once it has rested.

Each request for an evaluation of a cell replaces the one that waits and sets the alarm anew. So a
burst of requests, none of which waits for the alarm of the one before, leads to ONE evaluation: that
of the last request, which begins when the cell has rested, with the columns of them all.

* `Ask`, `Start` — the requests for a cell and the beginnings of its evaluations, with their times.
* `Burst u key punctual k s` — what the requests of a burst have come to so far: none was made, the
  last one waits, or its evaluation has begun. `Burst.step` takes it from one state to the next.
* `burst_evaluated_once` — what a burst on a cell at rest leads to.
-/
import CellRules.Proofs.Watch.Clock
import CellRules.Proofs.Watch.Newest
import CellRules.Proofs.Watch.Spread
import CellRules.Proofs.Watch.Tally
import CellRules.Proofs.Watch.Timed
import Mathlib.Data.List.Chain

namespace CellRules.Watch

/-! ## Requests and beginnings with their times -/

/-- A request for an evaluation of a cell. -/
structure Ask where
  time : Nat
  generation : Nat
  fanOut : List String
  /-- How many waiting evaluations were counted as replaced by it. -/
  coalesced : Nat
  deriving DecidableEq, Repr

/-- The beginning of an evaluation of a cell. -/
structure Start where
  time : Nat
  generation : Nat
  fanOut : List String
  deriving DecidableEq, Repr

def Sighting.ask? (key : CellKey) (y : Sighting) : Option Ask :=
  match y.happening with
  | .asked _ k generation fanOut =>
    if k = key then some ⟨y.time, generation, fanOut, y.coalesced⟩ else none
  | _ => none

def Sighting.start? (key : CellKey) (y : Sighting) : Option Start :=
  match y.happening with
  | .began k generation fanOut => if k = key then some ⟨y.time, generation, fanOut⟩ else none
  | _ => none

/-- The requests for a cell. -/
def asksOf (key : CellKey) (k : List Sighting) : List Ask := k.filterMap (·.ask? key)

/-- The beginnings of evaluations of a cell. -/
def startsOf (key : CellKey) (k : List Sighting) : List Start := k.filterMap (·.start? key)

variable {u : Setup} {grid : Grid} {s s' s₀ : State} {h h₀ h₁ h₂ : List Happening}
  {allowed : State → Move → Bool} {k : List Sighting} {m : Move} {x : Option Happening}
  {key : CellKey} {g : Nat} {fanOut : List String} {e : Evaluation} {punctual : Prop}

theorem mem_asksOf {a : Ask} :
    a ∈ asksOf key k ↔
      ∃ asker, ⟨a.time, .asked asker key a.generation a.fanOut, a.coalesced⟩ ∈ k := by
  rw [asksOf, List.mem_filterMap]
  constructor
  · rintro ⟨⟨time, x, coalesced⟩, hy, ha⟩
    cases x with
    | asked asker k g fanOut =>
      simp only [Sighting.ask?, Option.ite_none_right_eq_some, Option.some.injEq] at ha
      obtain ⟨rfl, rfl⟩ := ha
      exact ⟨asker, hy⟩
    | _ => cases ha
  · rintro ⟨asker, hy⟩
    exact ⟨_, hy, by simp [Sighting.ask?]⟩

theorem mem_startsOf {b : Start} :
    b ∈ startsOf key k ↔
      ∃ coalesced, ⟨b.time, .began key b.generation b.fanOut, coalesced⟩ ∈ k := by
  rw [startsOf, List.mem_filterMap]
  constructor
  · rintro ⟨⟨time, x, coalesced⟩, hy, hb⟩
    cases x with
    | began k g fanOut =>
      simp only [Sighting.start?, Option.ite_none_right_eq_some, Option.some.injEq] at hb
      obtain ⟨rfl, rfl⟩ := hb
      exact ⟨coalesced, hy⟩
    | _ => cases hb
  · rintro ⟨coalesced, hy⟩
    exact ⟨_, hy, by simp [Sighting.start?]⟩

/-- A request is one of the history. -/
theorem askedFor_iff_mem_asksOf :
    AskedFor (happenings k) key g ↔ ∃ a ∈ asksOf key k, a.generation = g := by
  simp only [AskedFor, happenings, List.mem_map]
  constructor
  · rintro ⟨asker, fanOut, ⟨time, x, coalesced⟩, hy, rfl⟩
    exact ⟨⟨time, g, fanOut, coalesced⟩, mem_asksOf.mpr ⟨asker, hy⟩, rfl⟩
  · rintro ⟨a, ha, rfl⟩
    obtain ⟨asker, hy⟩ := mem_asksOf.mp ha
    exact ⟨asker, a.fanOut, _, hy, rfl⟩

theorem began_iff_mem_startsOf :
    .began key g fanOut ∈ happenings k ↔
      ∃ b ∈ startsOf key k, b.generation = g ∧ b.fanOut = fanOut := by
  simp only [happenings, List.mem_map]
  constructor
  · rintro ⟨⟨time, x, coalesced⟩, hy, rfl⟩
    exact ⟨⟨time, g, fanOut⟩, mem_startsOf.mpr ⟨coalesced, hy⟩, rfl, rfl⟩
  · rintro ⟨b, hb, rfl, rfl⟩
    obtain ⟨coalesced, hy⟩ := mem_startsOf.mp hb
    exact ⟨_, hy, rfl⟩

/-- What was sighted was sighted by now. -/
theorem TimedRun.time_le (run : TimedRun u allowed s k s') : ∀ y ∈ k, y.time ≤ s'.now := by
  induction run with
  | rest => simp
  | move m _ _ hm ih =>
    intro y hy
    rw [State.now_move? hm]
    rcases List.mem_append.mp hy with hy | hy
    · exact Nat.le_trans (ih y hy) (Nat.le_add_right _ _)
    · obtain ⟨x, -, rfl⟩ := List.mem_map.mp hy
      exact Nat.le_add_right _ _

/-! ## What a request counts -/

/-- Whoever asks for an evaluation counts what a request counts. -/
theorem State.stats_of_asked (background : u.ruleSet.throttle.background = true) (ho : s.Open)
    {asker : Task} (hm : s.move? u m = some s')
    (hx : seen s m s' = some (.asked asker key g fanOut)) :
    s'.stats = (s.schedule u key fanOut).stats := by
  cases m with
  | step task =>
    cases task with
    | evaluation generation =>
      obtain ⟨e, rfl, he, hadvance⟩ := evaluation_of_step? hm
      simp only [seen, he, Option.bind_some] at hx
      have hcourse := hadvance.course ho.closed ho.slots he
      rw [hx] at hcourse
      cases hcourse with
      | spread hstage =>
        rw [hadvance.eq_of_spreading hstage]
        rfl
    | call id =>
      obtain ⟨c, rfl, hc, hadvance⟩ := call_of_step? hm
      simp only [seen, hc, Option.bind_some] at hx
      have hmem := mem_of_call? hc
      rcases hadvance.split hc with ⟨-, edited, job, todo, hstage, rfl⟩ | hedit | hcourse
      · have hnext : s.nextGeneration < (Call.goTo (s.schedule u job.key [edited]) c
            (.editing edited todo none)).nextGeneration := by
          simp [Call.goTo, nextGeneration_schedule ho.closed]
        simp only [Call.seen, hstage, if_pos hnext, Option.some.injEq, Happening.asked.injEq] at hx
        obtain ⟨-, rfl, -, rfl⟩ := hx
        rfl
      · cases hedit with
        | take hatOnce => rw [background] at hatOnce; cases hatOnce
        | work hstage | judged hstage | failed hstage =>
          exact absurd hstage (ho.background c hmem _ _ _)
      · rw [hx] at hcourse
        cases hcourse
    | strand id strand => cases hx
  | takeSlot generation =>
    obtain ⟨e, -, hread⟩ := seen_takeSlot hm
    cases hread.symm.trans hx
  | edit row column =>
    simp only [seen] at hx
    split at hx <;> cases hx
  | _ => cases hx

/-! ## Who has begun -/

/-- An evaluation that has begun had begun before the step, or begins with it. -/
theorem Effect.begun_back (hopen : s.closed = false) (hopen' : s'.closed = false)
    (heffect : Effect u s x s') (he : e ∈ s'.evaluations) (hbegun : e.stage.begun = true) :
    (∃ fanOut, x = some (.began e.key e.generation fanOut)) ∨
      ∃ d ∈ s.evaluations, d.generation = e.generation ∧ d.key = e.key ∧ d.stage.begun = true := by
  cases heffect.origin hopen hopen' he with
  | asked _ hstage =>
    rw [hstage] at hbegun
    cases hbegun
  | stood hd hg hkey hstage _ => exact .inr ⟨_, hd, hg.symm, hkey.symm, hstage ▸ hbegun⟩
  | @moved d hd hg hcourse =>
    have hback : ∀ {t : State} {stage : Stage}, s'.evaluations = (t.setStage d stage).evaluations →
        (stage.begun = true → d.stage.begun = true) → ∃ d ∈ s.evaluations,
          d.generation = e.generation ∧ d.key = e.key ∧ d.stage.begun = true := by
      intro t stage hevaluations hbefore
      obtain rfl := State.eq_of_setStage hevaluations he hg
      exact ⟨d, hd, rfl, rfl, hbefore hbegun⟩
    cases hcourse with
    | discard _ _ hs | giveUp _ _ hs | finish _ hs =>
      exact absurd hg (State.ne_of_dropEvaluation hs.evaluations he)
    | arm _ hs => exact .inr (hback hs.evaluations nofun)
    | begin _ _ _ hs =>
      obtain rfl := State.eq_of_setStage hs.evaluations he hg
      exact .inl ⟨_, rfl⟩
    | read hstage hs =>
      refine .inr (hback hs.evaluations fun _ => ?_)
      rcases hstage with hstage | ⟨ticket, hstage⟩ <;> (rw [hstage]; rfl)
    | queue hstage hs | work hstage _ hs | stop hstage _ hs | report hstage _ _ hs
    | ignore hstage _ hs | fail hstage _ hs | spread hstage hs =>
      exact .inr (hback hs.evaluations fun _ => by rw [hstage]; rfl)

/-- In a cell without an entry nobody has begun, so who has begun later began since. -/
theorem Run.began_since (background : u.ruleSet.throttle.background = true)
    (before : Run u (.start u grid) h₀ s₀) (idle : s₀.ledger.find? key = none)
    (after : Run u s₀ h s) (hopen : s.closed = false) :
    ∀ e ∈ s.evaluations, e.key = key → e.stage.begun = true →
      ∃ fanOut, .began key e.generation fanOut ∈ h := by
  refine Run.induction_after background
    (motive := fun h s => ∀ e ∈ s.evaluations, e.key = key → e.stage.begun = true →
      ∃ fanOut, .began key e.generation fanOut ∈ h) before ?_ ?_ after hopen
  · rintro e he rfl hbegun
    have hfits := (before.lawful background (after.open hopen)).orderly.fits e.key
    obtain ⟨c, hc⟩ := hfits.known _ (State.standing_mem he) hbegun
    rw [idle] at hc
    cases hc
  · intro h s₁ y s₂ hlaw₁ hlaw₂ heffect ih e he hkey hbegun
    rcases heffect.begun_back hlaw₁.isOpen.closed hlaw₂.isOpen.closed he hbegun with
      ⟨fanOut, rfl⟩ | ⟨d, hd, hg, hk, hdbegun⟩
    · rw [hkey]
      exact ⟨fanOut, by simp⟩
    · obtain ⟨fanOut, hmem⟩ := ih d hd (hk.trans hkey) hdbegun
      rw [hg] at hmem
      exact ⟨fanOut, List.mem_append_left _ hmem⟩

/-! ## One step of a burst -/

/-- The evaluation, asked for at some time, waits for its alarm, which is no earlier than the cell
has rested. Where nobody is late it is no later either. -/
def Evaluation.WaitsSince (u : Setup) (s : State) (punctual : Prop) (asked : Nat)
    (e : Evaluation) : Prop :=
  match e.stage with
  | .asked => asked ≤ s.now ∧ (punctual → s.now = asked)
  | .armed due => asked + u.ruleSet.throttle.debounce ≤ due ∧
      (punctual → due = asked + u.ruleSet.throttle.debounce ∧ s.now ≤ due)
  | _ => False

/-- No time passes before an evaluation of the cell has set its alarm, nor past its alarm before it
goes on. -/
def Move.onTime (key : CellKey) (s : State) : Move → Bool
  | .pass millis => s.evaluations.all fun e => e.key != key || e.cancelled || match e.stage with
    | .asked => millis == 0
    | .armed due => s.now + millis ≤ due
    | _ => true
  | _ => true

/-- The columns are those of the requests. -/
def ColumnsOf (asks : List Ask) (fanOut : List String) : Prop :=
  ∀ column, column ∈ fanOut ↔ ∃ a ∈ asks, column ∈ a.fanOut

/-- What the requests of a burst have come to, if the cell was at rest before. -/
inductive Burst (u : Setup) (key : CellKey) (punctual : Prop) (k : List Sighting) (s : State) :
    Prop
  | calm (asks : asksOf key k = []) (starts : startsOf key k = [])
      (entry : s.ledger.find? key = none)
  | waits (earlier : List Ask) (last : Ask) (e : Evaluation) (fanOut : List String)
      (asks : asksOf key k = earlier ++ [last]) (starts : startsOf key k = [])
      (mem : e ∈ s.evaluations) (cell : e.key = key) (newest : e.generation = last.generation)
      (wanted : e.cancelled = false) (alarm : e.WaitsSince u s punctual last.time)
      (entry : s.ledger.current? key = some ⟨last.generation, .pending, fanOut⟩)
      (columns : ColumnsOf (asksOf key k) fanOut)
  | begun (earlier : List Ask) (last : Ask) (start : Start)
      (asks : asksOf key k = earlier ++ [last]) (starts : startsOf key k = [start])
      (newest : start.generation = last.generation)
      (rested : last.time + u.ruleSet.throttle.debounce ≤ start.time)
      (sharp : punctual → start.time = last.time + u.ruleSet.throttle.debounce)
      (columns : ColumnsOf (asksOf key k) start.fanOut)
      (entry : ∀ r, s.ledger.current? key = some r → r.phase = .running)

/-! ### What is sighted of the cell -/

theorem asksOf_append (k k' : List Sighting) : asksOf key (k ++ k') = asksOf key k ++ asksOf key k' :=
  List.filterMap_append

theorem startsOf_append (k k' : List Sighting) :
    startsOf key (k ++ k') = startsOf key k ++ startsOf key k' :=
  List.filterMap_append

theorem asksOf_sighted {asker : Task} (hx : seen s m s' = some (.asked asker key g fanOut)) :
    asksOf key (sighted s m s') = [⟨s.now, g, fanOut, s'.stats.coalesced - s.stats.coalesced⟩] := by
  simp [asksOf, sighted, hx, Sighting.ask?]

theorem startsOf_sighted (hx : seen s m s' = some (.began key g fanOut)) :
    startsOf key (sighted s m s') = [⟨s.now, g, fanOut⟩] := by
  simp [startsOf, sighted, hx, Sighting.start?]

/-- Nobody asks for the cell at the move. -/
theorem asksOf_sighted_of_ne
    (hx : ∀ asker g fanOut, seen s m s' ≠ some (.asked asker key g fanOut)) :
    asksOf key (sighted s m s') = [] := by
  rw [List.eq_nil_iff_forall_not_mem]
  intro a ha
  obtain ⟨asker, hy⟩ := mem_asksOf.mp ha
  obtain ⟨x, hmem, heq⟩ := List.mem_map.mp hy
  obtain ⟨-, rfl, -⟩ := Sighting.mk.inj heq
  exact hx _ _ _ (Option.mem_toList.mp hmem)

/-- No evaluation of the cell begins at the move. -/
theorem startsOf_sighted_of_ne (hx : ∀ g fanOut, seen s m s' ≠ some (.began key g fanOut)) :
    startsOf key (sighted s m s') = [] := by
  rw [List.eq_nil_iff_forall_not_mem]
  intro b hb
  obtain ⟨coalesced, hy⟩ := mem_startsOf.mp hb
  obtain ⟨x, hmem, heq⟩ := List.mem_map.mp hy
  obtain ⟨-, rfl, -⟩ := Sighting.mk.inj heq
  exact hx _ _ (Option.mem_toList.mp hmem)

/-! ### Asking -/

/-- The columns of one more request come on top. -/
theorem ColumnsOf.concat {asks : List Ask} (hc : ColumnsOf asks fanOut) (a : Ask) :
    ColumnsOf (asks ++ [a]) (Ascending.addAll a.fanOut fanOut) := by
  intro column
  rw [Ascending.mem_addAll, hc column]
  simp only [List.mem_append, List.mem_singleton, or_and_right, exists_or, exists_eq_left]
  exact or_comm

/-- Whoever asks has the cell wait anew. -/
theorem Effect.of_asked (ho : s.Orderly) (hopen : s.closed = false) {asker : Task}
    (heffect : Effect u s (some (.asked asker key g fanOut)) s') :
    g = s.nextGeneration ∧ s'.ledger = s.ledger.request key g fanOut ∧
      ({ generation := g, key } : Evaluation) ∈ s'.evaluations := by
  cases heffect with
  | @course e _ _ hknown hcourse =>
    have hbelow := ho.below e (State.mem_of_evaluation? hknown)
    cases hcourse with
    | @spread _ _ keys hstage hs =>
      have halike := State.schedule_alike (u := u) hopen key []
      refine ⟨rfl, hs.ledger.trans halike.ledger, ?_⟩
      rw [hs.evaluations]
      refine State.mem_setStage.mpr (.inl ⟨?_, Nat.ne_of_gt hbelow⟩)
      rw [halike.evaluations]
      exact List.mem_append_right _ List.mem_cons_self
  | @ask c edited job todo _ hknown hstage hs =>
    have halike := State.schedule_alike (u := u) hopen job.key [edited]
    refine ⟨rfl, hs.ledger.trans halike.ledger, ?_⟩
    rw [hs.evaluations]
    exact halike.evaluations ▸ List.mem_append_right _ List.mem_cons_self
  | call hknown hcourse => cases hcourse
  | outside hout => cases hout

/-- The newest evaluation of a cell waits on, whatever happens apart from its beginning and another
request for the cell. -/
theorem Effect.waits_on (ho : s.Orderly) (hopen : s.closed = false)
    (hopen' : s'.closed = false) (heffect : Effect u s (x) s')
    (hm : s.move? u m = some s') (he : e ∈ s.evaluations) (hwanted : e.cancelled = false)
    (hnewest : ∃ r, s.ledger.current? e.key = some r ∧ r.generation = e.generation)
    (hasks : ∀ asker g fanOut, x ≠ some (.asked asker e.key g fanOut))
    (hbegins : ∀ g fanOut, x ≠ some (.began e.key g fanOut))
    (hpunctual : punctual → m.onTime e.key s = true) {asked : Nat}
    (hw : e.WaitsSince u s punctual asked) :
    ∃ f ∈ s'.evaluations, f.generation = e.generation ∧ f.key = e.key ∧ f.cancelled = false ∧
      f.WaitsSince u s' punctual asked := by
  by_cases hpass : ∃ millis, m = .pass millis
  · obtain ⟨millis, rfl⟩ := hpass
    obtain rfl := Option.some.inj hm
    refine ⟨e, he, rfl, rfl, hwanted, ?_⟩
    have hnotLate : punctual → (match e.stage with
        | .asked => millis == 0
        | .armed due => s.now + millis ≤ due
        | _ => true) = true := by
      intro hp
      simpa [hwanted] using List.all_eq_true.mp (hpunctual hp) e he
    unfold Evaluation.WaitsSince at hw ⊢
    cases hstage : e.stage with
    | asked =>
      simp only [hstage, beq_iff_eq] at hw hnotLate ⊢
      exact ⟨hw.1.trans (Nat.le_add_right _ _), fun hp => by rw [hnotLate hp, hw.2 hp]; rfl⟩
    | armed due =>
      simp only [hstage, decide_eq_true_eq] at hw hnotLate ⊢
      exact ⟨hw.1, fun hp => ⟨(hw.2 hp).1, hnotLate hp⟩⟩
    | _ => simp only [hstage] at hw
  have hnow : s'.now = s.now := by
    rw [State.now_move? hm]
    cases m with
    | pass millis => exact absurd ⟨millis, rfl⟩ hpass
    | _ => rfl
  have hstays : e.WaitsSince u s' punctual asked := by
    unfold Evaluation.WaitsSince at hw ⊢
    rwa [hnow]
  rcases heffect.steps_or_stays ho hopen hopen' he with
    hcourse | ⟨hmem, -⟩ | ⟨asker, key, fanOut, hx, hmem⟩
  · unfold Evaluation.WaitsSince at hw
    cases hcourse with
    | @arm _ due hstage hs hdue =>
      rw [hstage] at hw
      refine ⟨{ e with stage := .armed due }, ?_, rfl, rfl, hwanted, ?_⟩
      · rw [hs.evaluations]
        exact State.mem_setStage.mpr (.inr ⟨rfl, e, he, rfl⟩)
      · dsimp only [Evaluation.WaitsSince]
        rw [hdue, hnow]
        exact ⟨Nat.add_le_add_right hw.1 _, fun hp => ⟨by rw [hw.2 hp], Nat.le_add_right _ _⟩⟩
    | discard hstage hwhy hs =>
      obtain ⟨r, hr, hg⟩ := hnewest
      rcases hwhy with hcancelled | hnone
      · rw [hwanted] at hcancelled
        cases hcancelled
      · exact absurd hg (Ledger.begin?_eq_none hnone r hr)
    | begin => exact absurd rfl (hbegins _ _)
    | read hstage | giveUp hstage =>
      rcases hstage with hstage | ⟨ticket, hstage⟩ <;> simp only [hstage] at hw
    | queue hstage | work hstage | stop hstage | report hstage | ignore hstage | fail hstage
    | spread hstage | finish hstage => simp only [hstage] at hw
  · exact ⟨e, hmem, rfl, rfl, hwanted, hstays⟩
  · have hne : e.key ≠ key := fun hkey => hasks _ _ _ (hkey ▸ hx)
    rw [State.superseded, ho.not_stops he hne] at hmem
    exact ⟨e, hmem, rfl, rfl, hwanted, hstays⟩

namespace Burst

variable (hb : Burst u key punctual k s)

include hb

/-- Who asks soon enough asks before an evaluation of the burst begins. -/
theorem not_begun {a : Ask} (htimes : ∀ y ∈ k, y.time ≤ a.time)
    (hchain : (asksOf key k ++ [a]).IsChain fun a b =>
      b.time < a.time + u.ruleSet.throttle.debounce) : startsOf key k = [] := by
  cases hb with
  | calm _ hcalm => exact hcalm
  | waits _ _ _ _ _ hnone => exact hnone
  | begun earlier last start hwas hone hnewest hrested =>
    rw [hwas, List.append_assoc] at hchain
    have hsoon := (List.isChain_cons_cons.mp hchain.right_of_append).1
    obtain ⟨coalesced, hstart⟩ := mem_startsOf.mp (hone ▸ List.mem_singleton_self start)
    have hpast := htimes _ hstart
    dsimp only at hpast
    omega

/-- Another request of the burst: the evaluation that waits is replaced, and the columns are kept. -/
theorem asked (ho : s.Orderly) (hopen : s.closed = false) {asker : Task}
    (hnone : startsOf key k = [])
    (hx : seen s m s' = some (.asked asker key g fanOut)) (hnow : s'.now = s.now)
    (heffect : Effect u s (some (.asked asker key g fanOut)) s') :
    Burst u key punctual (k ++ sighted s m s') s' := by
  obtain ⟨-, hledger, hmem⟩ := heffect.of_asked ho hopen
  have hasks : asksOf key (k ++ sighted s m s') = asksOf key k ++ asksOf key (sighted s m s') :=
    asksOf_append k _
  rw [asksOf_sighted hx] at hasks
  have hstarts : startsOf key (k ++ sighted s m s') = [] := by
    rw [startsOf_append, startsOf_sighted_of_ne (by simp [hx]), hnone, List.append_nil]
  have halarm : ∀ time, time = s.now →
      ({ generation := g, key } : Evaluation).WaitsSince u s' punctual time := by
    rintro time rfl
    exact ⟨Nat.le_of_eq hnow.symm, fun _ => hnow⟩
  cases hb with
  | calm hwas _ hentry =>
    refine .waits _ _ _ fanOut hasks hstarts hmem rfl rfl rfl (halarm _ rfl) ?_ ?_
    · rw [hledger, Ledger.current?_of_find? Ledger.find?_request_self, hentry]
      rfl
    · rw [hasks, hwas]
      intro column
      simp
  | waits earlier last e columns hwas _ he hcell hnewest hwanted hwaits hentry hcolumns =>
    refine .waits _ _ _ (Ascending.addAll fanOut columns) hasks hstarts hmem rfl rfl rfl
      (halarm _ rfl) ?_ ?_
    · obtain ⟨c, hfind, hcur⟩ := Ledger.current?_eq_some.mp hentry
      rw [hledger, Ledger.current?_of_find? Ledger.find?_request_self, hfind]
      simp [CellState.request, hcur]
    · rw [hasks]
      exact hcolumns.concat _
  | begun _ _ start _ hone =>
    rw [hnone] at hone
    cases hone

/-- A request counts an evaluation as replaced unless it is the first one. -/
theorem coalesced (hopen : s.closed = false) (hnone : startsOf key k = []) :
    (s.schedule u key fanOut).stats.coalesced - s.stats.coalesced
      = if (asksOf key k).isEmpty then 0 else 1 := by
  rw [State.stats_schedule hopen]
  cases hb with
  | calm hwas _ hentry => simp [hwas, Ledger.current?, hentry]
  | waits earlier last e columns hwas _ _ _ _ _ _ hentry => simp [hwas, hentry]
  | begun _ _ start _ hone =>
    rw [hnone] at hone
    cases hone

/-- The evaluation of the cell that begins is that of the last request, and it begins on time. -/
theorem began (ho : s.Orderly) (hx : seen s m s' = some (.began key g fanOut))
    (heffect : Effect u s (some (.began key g fanOut)) s') :
    Burst u key punctual (k ++ sighted s m s') s' := by
  have hasks : asksOf key (k ++ sighted s m s') = asksOf key k := by
    rw [asksOf_append, asksOf_sighted_of_ne (by simp [hx]), List.append_nil]
  have hstarts : startsOf key (k ++ sighted s m s')
      = startsOf key k ++ startsOf key (sighted s m s') :=
    startsOf_append k _
  rw [startsOf_sighted hx] at hstarts
  cases heffect with
  | @course f _ _ hknown hcourse =>
    have hf := State.mem_of_evaluation? hknown
    cases hcourse with
    | @begin _ due _ ledger hstage hactive hbegin hs hdue =>
      obtain ⟨c, phase, hfind, hcur, rfl⟩ := Ledger.begin?_eq_some.mp hbegin
      have hcurrent := (Ledger.current?_of_find? hfind).trans hcur
      cases hb with
      | calm hnone hcalm hentry =>
        rw [hentry] at hfind
        cases hfind
      | waits earlier last e columns hwas hnone he hcell hnewest hwanted hwaits hentry hcolumns =>
        obtain ⟨hg, -, rfl⟩ := Request.mk.inj (Option.some.inj (hcurrent.symm.trans hentry))
        obtain rfl := ho.eq_of_generation he hf (hg.trans hnewest.symm)
        rw [Evaluation.WaitsSince, hstage] at hwaits
        refine .begun _ _ _ (hasks.trans hwas) (hstarts.trans (by rw [hnone]; rfl)) hg
          (Nat.le_trans hwaits.1 hdue) (fun hpunctual => ?_) (hasks ▸ hcolumns) fun r hr => ?_
        · obtain ⟨hsharp, hnotLate⟩ := hwaits.2 hpunctual
          exact (Nat.le_antisymm hnotLate hdue).trans hsharp
        · rw [hs.ledger] at hr
          change (s.ledger.set f.key _).current? f.key = some r at hr
          rw [Ledger.current?_of_find? Ledger.find?_set_self] at hr
          exact Option.some.inj hr ▸ rfl
      | begun earlier last start hwas hone hnewest hrested hsharp hcolumns hentry =>
        -- the newest evaluation of the cell has begun already
        obtain rfl : phase = .running := hentry _ hcurrent
        have hfits := ho.fits f.key
        rw [hfind] at hfits
        have hphase := (hfits.begun_of_current (ho.pairwise_standingsOf _) hcur
          (State.standing_mem hf) rfl).2
        rw [Evaluation.standing, hstage] at hphase
        cases hphase
  | call hknown hcourse => cases hcourse
  | outside hout => cases hout

/-- Whatever else happens, the burst stands as it did. -/
theorem others (ho : s.Orderly) (hopen : s.closed = false) (hopen' : s'.closed = false)
    (hbegun : ∀ e ∈ s.evaluations, e.key = key → e.stage.begun = true →
      ∃ fanOut, .began key e.generation fanOut ∈ happenings k)
    (hasks : ∀ asker g fanOut, seen s m s' ≠ some (.asked asker key g fanOut))
    (hbegins : ∀ g fanOut, seen s m s' ≠ some (.began key g fanOut))
    (hpunctual : punctual → m.onTime key s = true)
    (hm : s.move? u m = some s') (heffect : Effect u s (seen s m s') s') :
    Burst u key punctual (k ++ sighted s m s') s' := by
  have hsame : asksOf key (k ++ sighted s m s') = asksOf key k := by
    rw [asksOf_append, asksOf_sighted_of_ne hasks, List.append_nil]
  have hstill : startsOf key (k ++ sighted s m s') = startsOf key k := by
    rw [startsOf_append, startsOf_sighted_of_ne hbegins, List.append_nil]
  have hentry : s'.ledger.find? key = s.ledger.find? key ∨
      ∃ e ∈ s.evaluations, e.key = key ∧ e.stage.begun = true ∧
        (s'.ledger.current? key = s.ledger.current? key ∨ s'.ledger.current? key = none) := by
    rcases heffect.entry hopen hopen' key with
      hfind | ⟨asker, columns, hx, -⟩ | ⟨g, columns, hx, -⟩ | ⟨e, he, hkey, hstage, hcur⟩
    · exact .inl hfind
    · exact absurd hx (hasks _ _ _)
    · exact absurd hx (hbegins _ _)
    · exact .inr ⟨e, he, hkey, hstage, hcur.imp id And.left⟩
  -- before an evaluation of the burst began, nobody of the cell has
  have hquiet : startsOf key k = [] → s'.ledger.find? key = s.ledger.find? key := by
    intro hnone
    refine hentry.resolve_right ?_
    rintro ⟨e, he, hkey, hstage, -⟩
    obtain ⟨columns, hmem⟩ := hbegun e he hkey hstage
    obtain ⟨b, hb, -⟩ := began_iff_mem_startsOf.mp hmem
    rw [hnone] at hb
    cases hb
  cases hb with
  | calm hnone hcalm hidle =>
    exact .calm (hsame.trans hnone) (hstill.trans hcalm) ((hquiet hcalm).trans hidle)
  | waits earlier last e columns hwas hnone he hcell hnewest hwanted hwaits hcurrent hcolumns =>
    subst hcell
    obtain ⟨f, hf, hfg, hfk, hfwanted, hfwaits⟩ := heffect.waits_on ho hopen hopen' hm he hwanted
      ⟨_, hcurrent, hnewest.symm⟩ hasks hbegins hpunctual hwaits
    refine .waits earlier last f columns (hsame.trans hwas) (hstill.trans hnone) hf hfk
      (hfg.trans hnewest) hfwanted hfwaits ?_ (hsame ▸ hcolumns)
    rw [Ledger.current?, hquiet hnone, ← Ledger.current?, hcurrent]
  | begun earlier last start hwas hone hnewest hrested hsharp hcolumns hrunning =>
    refine .begun earlier last start (hsame.trans hwas) (hstill.trans hone) hnewest hrested hsharp
      (hsame ▸ hcolumns) fun r hr => ?_
    rcases hentry with hfind | ⟨-, -, -, -, hcur | hcur⟩
    · exact hrunning r (by rwa [Ledger.current?, ← hfind])
    · exact hrunning r (hcur ▸ hr)
    · rw [hcur] at hr
      cases hr

end Burst

/-! ## The whole burst -/

/-- The first request finds no evaluation waiting, and each of the others replaces one. -/
def CoalesceRest : List Ask → Prop
  | [] => True
  | first :: rest => first.coalesced = 0 ∧ ∀ a ∈ rest, a.coalesced = 1

theorem CoalesceRest.concat {asks : List Ask} (hc : CoalesceRest asks) {a : Ask}
    (ha : a.coalesced = if asks.isEmpty then 0 else 1) : CoalesceRest (asks ++ [a]) := by
  cases asks with
  | nil => exact ⟨ha, by simp⟩
  | cons first rest =>
    refine ⟨hc.1, fun b hb => ?_⟩
    rcases List.mem_append.mp hb with hb | hb
    · exact hc.2 b hb
    · rw [List.mem_singleton.mp hb]
      exact ha

/-- A burst on a cell at rest stands in one of the ways of `Burst`, and its requests are counted. -/
theorem TimedRun.burst (background : u.ruleSet.throttle.background = true)
    (before : Run u (.start u grid) h₀ s₀) (idle : s₀.ledger.find? key = none)
    (after : TimedRun u allowed s₀ k s) (hopen : s.closed = false)
    (hpunctual : punctual → ∀ s m, allowed s m = true → m.onTime key s = true)
    (hchain : (asksOf key k).IsChain fun a b =>
      b.time < a.time + u.ruleSet.throttle.debounce) :
    Burst u key punctual k s ∧ CoalesceRest (asksOf key k) := by
  induction after with
  | rest => exact ⟨.calm rfl rfl idle, trivial⟩
  | @move k s₁ s₂ m hrun hallowed hm ih =>
    have hopen₁ := State.open_of_move? hm hopen
    have hasks : asksOf key (k ++ sighted s₁ m s₂)
        = asksOf key k ++ asksOf key (sighted s₁ m s₂) := asksOf_append k _
    obtain ⟨hb, hcoalesce⟩ := ih hopen₁ (hasks ▸ hchain).left_of_append
    obtain ⟨hlaw, heffect⟩ := (before.trans hrun.run).lawful_step background hopen₁ ⟨m, hm, rfl⟩
    have ho := hlaw.orderly
    by_cases hask : ∃ asker g fanOut, seen s₁ m s₂ = some (.asked asker key g fanOut)
    · obtain ⟨asker, g, fanOut, hx⟩ := hask
      have hnow : s₂.now = s₁.now := by
        rw [State.now_move? hm]
        cases m with
        | pass millis => cases hx
        | _ => rfl
      rw [hasks, asksOf_sighted hx] at hchain ⊢
      have hnone := hb.not_begun hrun.time_le hchain
      rw [hx] at heffect
      refine ⟨hb.asked ho hopen₁ hnone hx hnow heffect, hcoalesce.concat ?_⟩
      rw [State.stats_of_asked background hlaw.isOpen hm hx]
      exact hb.coalesced hopen₁ hnone
    have hsame : asksOf key (k ++ sighted s₁ m s₂) = asksOf key k := by
      rw [hasks, asksOf_sighted_of_ne fun asker g fanOut hx => hask ⟨asker, g, fanOut, hx⟩,
        List.append_nil]
    rw [hsame]
    refine ⟨?_, hcoalesce⟩
    by_cases hbegin : ∃ g fanOut, seen s₁ m s₂ = some (.began key g fanOut)
    · obtain ⟨g, fanOut, hx⟩ := hbegin
      rw [hx] at heffect
      exact hb.began ho hx heffect
    · exact hb.others ho hopen₁ hopen (Run.began_since background before idle hrun.run hopen₁)
        (fun asker g fanOut hx => hask ⟨asker, g, fanOut, hx⟩)
        (fun g fanOut hx => hbegin ⟨g, fanOut, hx⟩) (fun hp => hpunctual hp _ _ hallowed) hm heffect

/-- Later requests have greater generations. -/
theorem TimedRun.asks_ascending (background : u.ruleSet.throttle.background = true)
    (before : Run u (.start u grid) h₀ s₀) (after : TimedRun u allowed s₀ k s)
    (hopen : s.closed = false) :
    (asksOf key k).Pairwise (·.generation < ·.generation) := by
  induction after with
  | rest => exact .nil
  | @move k s₁ s₂ m hrun hallowed hm ih =>
    have hopen₁ := State.open_of_move? hm hopen
    obtain ⟨hlaw, heffect⟩ := (before.trans hrun.run).lawful_step background hopen₁ ⟨m, hm, rfl⟩
    rw [asksOf_append, List.pairwise_append]
    by_cases hask : ∃ asker g fanOut, seen s₁ m s₂ = some (.asked asker key g fanOut)
    · obtain ⟨asker, g, fanOut, hx⟩ := hask
      rw [hx] at heffect
      obtain ⟨rfl, -⟩ := heffect.of_asked hlaw.orderly hopen₁
      rw [asksOf_sighted hx]
      refine ⟨ih hopen₁, List.pairwise_singleton _ _, fun a ha b hb => ?_⟩
      rw [List.mem_singleton.mp hb]
      obtain ⟨asker', fanOut', hmem⟩ := askedFor_iff_mem_asksOf.mpr ⟨a, ha, rfl⟩
      exact hlaw.chronicle.below key _ ⟨asker', fanOut', List.mem_append_right _ hmem⟩
    · rw [asksOf_sighted_of_ne fun asker g fanOut hx => hask ⟨asker, g, fanOut, hx⟩]
      exact ⟨ih hopen₁, .nil, by simp⟩

/-- Who reads the grid or reports for a cell has begun. -/
theorem Effect.begun_of (hdoes : x = some (.read (.evaluation g) key) ∨
      ∃ v, x = some (.reported (.evaluation g) key v)) (heffect : Effect u s x s') :
    ∃ e ∈ s.evaluations, e.generation = g ∧ e.key = key ∧ e.stage.begun = true := by
  rcases hdoes with rfl | ⟨v, rfl⟩
  · cases heffect with
    | @course e _ _ hknown hcourse =>
      cases hcourse with
      | read hstage =>
        refine ⟨e, State.mem_of_evaluation? hknown, rfl, rfl, ?_⟩
        rcases hstage with hstage | ⟨ticket, hstage⟩ <;> (rw [hstage]; rfl)
    | call hknown hcourse => cases hcourse
    | outside hout => cases hout
  · cases heffect with
    | @course e _ _ hknown hcourse =>
      cases hcourse with
      | report hstage =>
        exact ⟨e, State.mem_of_evaluation? hknown, rfl, rfl, by rw [hstage]; rfl⟩
    | call hknown hcourse => cases hcourse
    | outside hout => cases hout

/-- If the cell was at rest, who reads the grid or reports for it was asked for, and has begun
since. -/
theorem Run.began_before (background : u.ruleSet.throttle.background = true)
    (before : Run u (.start u grid) h₀ s₀) (idle : s₀.ledger.find? key = none)
    (after : Run u s₀ h s) (hopen : s.closed = false) {y : Happening}
    (hdoes : y = .read (.evaluation g) key ∨ ∃ v, y = .reported (.evaluation g) key v)
    (hy : h = h₁ ++ y :: h₂) :
    AskedFor (h₀ ++ h₁) key g ∧ ∃ fanOut, .began key g fanOut ∈ h₁ := by
  obtain ⟨mid, hmid, next, hstep, hrest⟩ := after.moment hy
  have hopen' := hstep.open (hrest.open hopen)
  obtain ⟨hlaw, heffect⟩ := (before.trans hmid).lawful_step background hopen' hstep
  obtain ⟨e, he, rfl, rfl, hbegun⟩ := heffect.begun_of (by simpa using hdoes)
  exact ⟨hlaw.chronicle.asked e he,
    Run.began_since background before idle hmid hopen' e he rfl hbegun⟩

theorem State.Orderly.evaluation?_eq (ho : s.Orderly) (he : e ∈ s.evaluations) :
    s.evaluation? e.generation = some e := by
  cases hfind : s.evaluation? e.generation with
  | none => exact absurd (List.find?_eq_none.mp hfind e he) (by simp)
  | some f =>
    rw [ho.eq_of_generation he (mem_of_evaluation? hfind) (generation_of_evaluation? hfind)]

/-- The newest evaluation of a cell begins when its alarm is due. -/
theorem State.begins_at (hopen : s.closed = false) (hknown : s.evaluation? e.generation = some e)
    {due : Nat} (hstage : e.stage = .armed due) (hdue : due ≤ s.now) (hwanted : e.cancelled = false)
    {ledger : Ledger} (hb : s.ledger.begin? e.key e.generation = some (fanOut, ledger)) :
    ∃ s', Run u s [.began e.key e.generation fanOut] s' := by
  have hstep : s.move? u (.step (.evaluation e.generation))
      = some ({ s with ledger }.setStage e (.entering fanOut)) := by
    simp [move?, step?, hknown, Evaluation.step?, hstage, Evaluation.stopped, hwanted, hopen, hdue,
      Evaluation.rise, hb]
  have hafter : (({ s with ledger } : State).setStage e (.entering fanOut)).stageOf? e.generation
      = some (.entering fanOut) := stageOf?_setStage (s := { s with ledger }) hknown
  have hseen : seen s (.step (.evaluation e.generation))
      (({ s with ledger } : State).setStage e (.entering fanOut))
        = some (.began e.key e.generation fanOut) := by
    simp [seen, hknown, Evaluation.seen, hstage, hafter]
  have run := Run.one hstep
  rw [hseen] at run
  exact ⟨_, run⟩

/-- As long as it waits for its alarm it can begin, in time. -/
theorem State.begins_later (hopen : s.closed = false)
    (hknown : s.evaluation? e.generation = some e) {due : Nat} (hstage : e.stage = .armed due)
    (hwanted : e.cancelled = false) {ledger : Ledger}
    (hb : s.ledger.begin? e.key e.generation = some (fanOut, ledger)) :
    ∃ s', Run u s [.began e.key e.generation fanOut] s' := by
  obtain ⟨s', run⟩ := begins_at (u := u) (s := { s with now := s.now + due }) hopen hknown hstage
    (Nat.le_add_left _ _) hwanted hb
  exact ⟨s', (Run.one (m := .pass due) rfl).trans run⟩

/-- So can one that has yet to set its alarm. -/
theorem State.begins_of_waits (hopen : s.closed = false) {asked : Nat}
    (hw : e.WaitsSince u s punctual asked) (hknown : s.evaluation? e.generation = some e)
    (hwanted : e.cancelled = false) {ledger : Ledger}
    (hb : s.ledger.begin? e.key e.generation = some (fanOut, ledger)) :
    ∃ s', Run u s [.began e.key e.generation fanOut] s' := by
  cases hstage : e.stage with
  | armed due => exact begins_later hopen hknown hstage hwanted hb
  | asked =>
    have hstep : s.move? u (.step (.evaluation e.generation))
        = some (s.setStage e (.armed (s.now + u.ruleSet.throttle.debounce))) := by
      simp [move?, step?, hknown, Evaluation.step?, hstage, Evaluation.stopped, hwanted, hopen]
    have hquiet : seen s (.step (.evaluation e.generation))
        (s.setStage e (.armed (s.now + u.ruleSet.throttle.debounce))) = none := by
      simp [seen, hknown, Evaluation.seen, hstage]
    obtain ⟨s', run⟩ := begins_later (u := u)
      (s := s.setStage e (.armed (s.now + u.ruleSet.throttle.debounce)))
      (e := { e with stage := .armed (s.now + u.ruleSet.throttle.debounce) }) hopen
      (evaluation?_setStage hknown) rfl hwanted hb
    have hfirst := Run.one hstep
    rw [hquiet] at hfirst
    exact ⟨s', hfirst.trans run⟩
  | _ => simp [Evaluation.WaitsSince, hstage] at hw

/-- What a burst of requests, the last one of which is `last`, leads to. -/
structure EvaluatedOnce (u : Setup) (allowed : State → Move → Bool) (key : CellKey)
    (k : List Sighting) (last : Ask) (s : State) : Prop where
  /-- At most one evaluation of the cell begins: that of the last request, with the columns of all
  requests, and not before the cell has rested. Where no evaluation of the cell is late it begins at
  that very time. -/
  begins : ∀ start ∈ startsOf key k, startsOf key k = [start] ∧
    start.generation = last.generation ∧ ColumnsOf (asksOf key k) start.fanOut ∧
    last.time + u.ruleSet.throttle.debounce ≤ start.time ∧
    ((∀ s m, allowed s m = true → m.onTime key s = true) →
      start.time = last.time + u.ruleSet.throttle.debounce)
  /-- As long as none has begun, the cell is in the ledger, and that evaluation can begin. -/
  waits : startsOf key k = [] → s.ledger.find? key ≠ none ∧ ∃ fanOut s',
    ColumnsOf (asksOf key k) fanOut ∧ Run u s [.began key last.generation fanOut] s'
  /-- Only that evaluation reads the grid for the cell, after all requests. -/
  reads : ∀ k₁ g k₂, happenings k = k₁ ++ .read (.evaluation g) key :: k₂ →
    g = last.generation ∧ ∀ g', ¬AskedFor k₂ key g'
  /-- Only that evaluation reports on the cell. -/
  reports : ∀ g, Reported (happenings k) key g → g = last.generation
  /-- Once the cell is at rest again the evaluation has begun, and reported once or met a problem. -/
  atRest : s.ledger.find? key = none → startsOf key k ≠ [] ∧
    (Failed (happenings k) key last.generation ∨
      reportedOf key (happenings k) = [last.generation])
  coalesced : CoalesceRest (asksOf key k)

/-- A list that grows and has but one value has it once. -/
theorem eq_singleton_of_pairwise_lt {l : List Nat} {n : Nat} (hl : l.Pairwise (· < ·))
    (hall : ∀ x ∈ l, x = n) (hmem : n ∈ l) : l = [n] := by
  match l, hl with
  | [], _ => cases hmem
  | [x], _ => rw [hall x List.mem_cons_self]
  | x :: y :: rest, hl =>
    have hlt := (List.pairwise_cons.mp hl).1 y List.mem_cons_self
    rw [hall x (by simp), hall y (by simp)] at hlt
    exact absurd hlt (Nat.lt_irrefl n)

/-- The last request is the newest. -/
theorem TimedRun.newest (background : u.ruleSet.throttle.background = true)
    (before : Run u (.start u grid) h₀ s₀) (after : TimedRun u allowed s₀ k s)
    (hopen : s.closed = false) {earlier : List Ask} {last : Ask}
    (requests : asksOf key k = earlier ++ [last]) : Newest (happenings k) key last.generation := by
  refine ⟨askedFor_iff_mem_asksOf.mpr ⟨last, by simp [requests], rfl⟩, fun g hg => ?_⟩
  obtain ⟨a, ha, rfl⟩ := askedFor_iff_mem_asksOf.mp hg
  have hascending : (asksOf key k).Pairwise (·.generation < ·.generation) :=
    after.asks_ascending background before hopen
  rw [requests] at ha hascending
  rcases List.mem_append.mp ha with ha | ha
  · exact Nat.le_of_lt ((List.pairwise_append.mp hascending).2.2 a ha last (by simp))
  · rw [List.mem_singleton.mp ha]

/-- If the cell is at rest, the newest of the evaluations asked for since some time has reported
since then, or met a problem. -/
theorem Run.ended_since (background : u.ruleSet.throttle.background = true)
    (before : Run u (.start u grid) h₀ s₀) (after : Run u s₀ h s) (hopen : s.closed = false)
    (hnewest : Newest h key g) (hrest : s.ledger.find? key = none) :
    Failed h key g ∨ Reported h key g := by
  have run := before.trans after
  have hearlier : ∀ g', AskedFor h₀ key g' → g' < g := fun g' hearly =>
    run.asked_ascending background hopen hearly hnewest.1
  have hoverall : Newest (h₀ ++ h) key g := by
    obtain ⟨asker, columns, hmem⟩ := hnewest.1
    refine ⟨⟨asker, columns, List.mem_append_right _ hmem⟩, ?_⟩
    rintro g' ⟨asker', columns', hmem'⟩
    rcases List.mem_append.mp hmem' with hmem' | hmem'
    · exact Nat.le_of_lt (hearlier g' ⟨asker', columns', hmem'⟩)
    · exact hnewest.2 g' ⟨asker', columns', hmem'⟩
  -- it was asked for since then, so neither came before
  have hlate : ¬AskedFor h₀ key g := fun hearly => Nat.lt_irrefl g (hearlier g hearly)
  have hopen₀ := after.open hopen
  rcases (run.lawful background hopen).chronicle.newest key g hoverall with
    ⟨r, hr, -⟩ | ⟨v, hv⟩ | ⟨p, hp⟩
  · rw [Ledger.current?, hrest] at hr
    cases hr
  · refine .inr ⟨v, (List.mem_append.mp hv).resolve_left fun hearly => hlate ?_⟩
    exact (before.lawful background hopen₀).chronicle.reportedAsked key g ⟨v, hearly⟩
  · refine .inl ⟨p, (List.mem_append.mp hp).resolve_left fun hearly => hlate ?_⟩
    obtain ⟨columns, q, hreading⟩ := before.reading_of_failed background hopen₀ ⟨p, hearly⟩
    exact hreading.began.askedFor

/-- An evaluation that reads the grid for the newest request reads it after all requests. -/
theorem Run.not_asked_after (background : u.ruleSet.throttle.background = true)
    (run : Run u (.start u grid) (h₀ ++ h) s) (hopen : s.closed = false) (hnewest : Newest h key g)
    {y : Happening} (hy : h = h₁ ++ y :: h₂) (hearly : AskedFor (h₀ ++ h₁) key g) (g' : Nat) :
    ¬AskedFor h₂ key g' := by
  rintro ⟨asker, columns, hmem⟩
  have hrun : Run u (.start u grid) ((h₀ ++ h₁) ++ y :: h₂) s := by
    rw [List.append_assoc, ← hy]
    exact run
  have hlt : g < g' := hrun.asked_ascending background hopen hearly
    ⟨asker, columns, List.mem_cons_of_mem _ hmem⟩
  have hle := hnewest.2 g' ⟨asker, columns, by simp [hy, hmem]⟩
  omega

/-- A burst of requests for a cell at rest, each of which comes before the cell has rested since the
one before, whatever else goes on, leads to one evaluation. -/
theorem burst_evaluated_once (background : u.ruleSet.throttle.background = true)
    (before : Run u (.start u grid) h₀ s₀) (idle : s₀.ledger.find? key = none)
    (after : TimedRun u allowed s₀ k s) (hopen : s.closed = false) {earlier : List Ask} {last : Ask}
    (requests : asksOf key k = earlier ++ [last])
    (soon : (asksOf key k).IsChain fun a b => b.time < a.time + u.ruleSet.throttle.debounce) :
    EvaluatedOnce u allowed key k last s := by
  obtain ⟨hb, hcoalesce⟩ : Burst u key (∀ s m, allowed s m = true → m.onTime key s = true) k s ∧
      CoalesceRest (asksOf key k) :=
    TimedRun.burst background before idle after hopen id soon
  have run := before.trans after.run
  have hnewest := after.newest background before hopen requests
  have hlast : ∀ {earlier' last'}, asksOf key k = earlier' ++ [last'] → last' = last := by
    intro earlier' last' h
    exact List.singleton_inj.mp (List.append_inj' (h.symm.trans requests) rfl).2
  have hbegins : ∀ start ∈ startsOf key k, startsOf key k = [start] ∧
      start.generation = last.generation ∧ ColumnsOf (asksOf key k) start.fanOut ∧
      last.time + u.ruleSet.throttle.debounce ≤ start.time ∧
      ((∀ s m, allowed s m = true → m.onTime key s = true) →
        start.time = last.time + u.ruleSet.throttle.debounce) := by
    intro start hstart
    cases hb with
    | calm hwas => simp [requests] at hwas
    | waits _ _ _ _ _ hnone => simp [hnone] at hstart
    | begun earlier' last' start' hasks hone hg hrested hsharp hcolumns =>
      obtain rfl := hlast hasks
      obtain rfl : start = start' := by simpa [hone] using hstart
      exact ⟨hone, hg, hcolumns, hrested, hsharp⟩
  have hwaits : startsOf key k = [] → s.ledger.find? key ≠ none ∧ ∃ fanOut s',
      ColumnsOf (asksOf key k) fanOut ∧ Run u s [.began key last.generation fanOut] s' := by
    intro hnone
    cases hb with
    | calm hwas => simp [requests] at hwas
    | waits earlier' last' e fanOut hasks _ he hcell hg hwanted hwaits hentry hcolumns =>
      obtain rfl := hlast hasks
      subst hcell
      obtain ⟨c, hfind, hcur⟩ := Ledger.current?_eq_some.mp hentry
      have hbegin := Ledger.begin?_eq_some.mpr ⟨c, _, hfind, hg ▸ hcur, rfl⟩
      have hknown := (run.lawful background hopen).orderly.evaluation?_eq he
      obtain ⟨s', hrun⟩ := State.begins_of_waits hopen hwaits hknown hwanted hbegin
      exact ⟨by simp [hfind], fanOut, s', hcolumns, hg ▸ hrun⟩
    | begun _ _ start _ hone => simp [hone] at hnone
  have honly : ∀ {g fanOut}, .began key g fanOut ∈ happenings k → g = last.generation := by
    intro g fanOut hmem
    obtain ⟨start, hstart, rfl, -⟩ := began_iff_mem_startsOf.mp hmem
    exact (hbegins start hstart).2.1
  have hreports : ∀ g, Reported (happenings k) key g → g = last.generation := by
    rintro g ⟨v, hv⟩
    obtain ⟨h₁, h₂, hsplit⟩ := List.append_of_mem hv
    obtain ⟨-, fanOut, hmem⟩ :=
      Run.began_before background before idle after.run hopen (.inr ⟨v, rfl⟩) hsplit
    exact honly (hsplit ▸ List.mem_append_left _ hmem)
  refine ⟨hbegins, hwaits, fun k₁ g k₂ hsplit => ?_, hreports, fun hrest =>
    ⟨fun hnone => (hwaits hnone).1 hrest, ?_⟩, hcoalesce⟩
  · obtain ⟨hearly, fanOut, hmem⟩ :=
      Run.began_before background before idle after.run hopen (.inl rfl) hsplit
    obtain rfl := honly (hsplit ▸ List.mem_append_left _ hmem)
    exact ⟨rfl, run.not_asked_after background hopen hnewest hsplit hearly⟩
  · refine (Run.ended_since background before after.run hopen hnewest hrest).imp id fun hreported => ?_
    have hascending := (run.reports_ascending background key).sublist
      ((List.sublist_append_right h₀ (happenings k)).filterMap _)
    exact eq_singleton_of_pairwise_lt hascending
      (fun g hg => hreports g (mem_reportedOf.mp hg)) (mem_reportedOf.mpr hreported)

/-- The cell is edited twice, the second time before it has rested, and judged once. -/
def restlessEdits : List Move :=
  List.flatten
    [[.setCell 0 "Code" (.text "b"), .edit 0 "Code"], Task.steps 2 (.call 0),
      Task.steps 1 (.evaluation 0), [.pass 9], [.setCell 0 "Code" (.text "c"), .edit 0 "Code"],
      Task.steps 2 (.call 1), Task.steps 1 (.evaluation 1), [.pass 10], Task.steps 4 (.evaluation 1),
      [.pass 1000], Task.steps 5 (.evaluation 1)]

def restlessAsks : List Ask := [⟨0, 0, ["Code"], 0⟩, ⟨9, 1, ["Code"], 1⟩]

theorem burst_evaluated_once_restless :
    ∃ k s, TimedRun slowWatch (fun s m => m.onTime ⟨0, "Code"⟩ s) (.start slowWatch oneCell) k s ∧
      asksOf ⟨0, "Code"⟩ k = restlessAsks ∧ startsOf ⟨0, "Code"⟩ k = [⟨19, 1, ["Code"]⟩] ∧
      s.ledger.find? ⟨0, "Code"⟩ = none ∧
      EvaluatedOnce slowWatch (fun s m => m.onTime ⟨0, "Code"⟩ s) ⟨0, "Code"⟩ k
        ⟨9, 1, ["Code"], 1⟩ s := by
  have hobserved : ((State.start slowWatch oneCell).timed? slowWatch
      (fun s m => m.onTime ⟨0, "Code"⟩ s) restlessEdits).map
        (fun p => (asksOf ⟨0, "Code"⟩ p.1, startsOf ⟨0, "Code"⟩ p.1, p.2.closed,
          p.2.ledger.find? ⟨0, "Code"⟩))
        = some (restlessAsks, [⟨19, 1, ["Code"]⟩], false, none) := by
    decide +kernel
  obtain ⟨⟨k, s⟩, hs, heq⟩ := Option.map_eq_some_iff.mp hobserved
  obtain ⟨hasks, hstarts, hopen, hidle⟩ : asksOf ⟨0, "Code"⟩ k = restlessAsks ∧
      startsOf ⟨0, "Code"⟩ k = [⟨19, 1, ["Code"]⟩] ∧ s.closed = false ∧
      s.ledger.find? ⟨0, "Code"⟩ = none := by simpa using heq
  have run := TimedRun.of_timed? hs
  have hrequests : asksOf ⟨0, "Code"⟩ k = [⟨0, 0, ["Code"], 0⟩] ++ [⟨9, 1, ["Code"], 1⟩] := hasks
  refine ⟨k, s, run, hasks, hstarts, hidle,
    burst_evaluated_once rfl .rest rfl run hopen hrequests ?_⟩
  rw [hasks]
  decide

end CellRules.Watch
