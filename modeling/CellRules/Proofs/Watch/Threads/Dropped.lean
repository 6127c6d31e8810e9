/-
CellRules.Proofs.Watch.Threads.Dropped — why an evaluation is dropped.

When another evaluation takes the place of one that waits for its alarm, that one is told to stop,
and it never begins, whatever comes between. One that has begun is told to stop only where
superseded ones are given up. So `Spared` holds where they are not: whoever is told to stop has not
begun.

`Run.dropped` says for which reasons an evaluation is dropped in a watch that nobody closes: another
one was entered after it and superseded ones are given up, or one with a greater generation has
reported.
-/
import CellRules.Proofs.Watch.Threads.Lawful

namespace CellRules.Watch

variable {u : Setup} {grid : Grid}

/-- An evaluation that begins is the newest one that the ledger knows of its cell. -/
theorem Stride.newest_of_begun {s s' : State} {e e' : Evaluation} {x : Option Happening}
    (h : Stride u s e x s') (he : s.evaluation? e.generation = some e)
    (he' : s'.evaluation? e.generation = some e') (hbegun : e'.stage.begun = true) :
    e.stage.begun = true ∨ ∃ found, s.ledger.begin? e.key e.generation = some found := by
  cases h with
  | begins _ hnewest => exact .inr ⟨_, hnewest⟩
  | arms _ state =>
    rw [State.evaluation?_congr state.evaluations, State.evaluation?_setStage he] at he'
    obtain rfl := Option.some.inj he'
    cases hbegun
  | drops _ _ state =>
    rw [State.evaluation?_congr state.evaluations, State.evaluation?_dropEvaluation_self] at he'
    cases he'
  | reads hstage | givesUp hstage =>
    rcases hstage with hstage | ⟨ticket, hstage⟩ <;> (rw [hstage]; exact .inl rfl)
  | queues hstage | goesOn hstage | ends hstage | abandons hstage | fails hstage | skips hstage
  | finishes hstage =>
    rw [hstage]
    exact .inl rfl

/-- What a call drops is its own. -/
theorem Call.seen_ne_dropped {s s' : State} {c : Call} {g : Nat} {key : CellKey} :
    c.seen s s' ≠ some (.dropped (.evaluation g) key) := by
  unfold seen
  dsimp only
  repeat' split
  all_goals simp

theorem Move.seen_ne_dropped {s s' : State} {m : Move} {g : Nat} {key : CellKey}
    (houter : m.outer = true) : seen s m s' ≠ some (.dropped (.evaluation g) key) := by
  cases m with
  | edit row column =>
    simp only [seen]
    split <;> simp
  | setCell | pushRow | validateAll | pass => simp [seen]
  | shutDown | step | takeSlot => cases houter

namespace Threads

variable {t t' : Threads} {h h₁ h₂ : List Happening} {x : Option Happening} {key : CellKey}
  {g : Nat} {e : Evaluation} {task : Task}

/-! ## Who is told to stop -/

/-- Whoever is told to stop has not begun, nor has one in whose place another was entered while it
waited. -/
structure Spared (t : Threads) : Prop where
  cancelled : ∀ g e, t.state.evaluation? g = some e → e.cancelled = true → e.stage.begun = false
  previous : ∀ task key g r told, t.position? task = some (.entered key g (some r) told) →
    r.phase = .pending → ∀ e, t.state.evaluation? r.generation = some e → e.stage.begun = false

/-- An evaluation that has begun does not wait, as far as its cell is concerned. -/
theorem place_begun (he : t.state.evaluation? e.generation = some e)
    (hbegun : e.stage.begun = true) : ((t.docket h e.key).place e.generation).begun = true := by
  have hplace : (t.docket h e.key).place e.generation = t.stands e := placeOf_of_evaluation he
  have hstage : e.stage.place.begun = true := by
    cases hcase : e.stage <;> first | rfl | (rw [hcase] at hbegun; cases hbegun)
  rw [hplace, stands]
  cases t.position? (.evaluation e.generation) with
  | none => exact hstage
  | some p =>
    cases p with
    | admitted | claimed => rfl
    | asks | drawn | entered | handed | recorded | looks => exact hstage

/-- Nobody is told to stop on the way to `s`, and whoever begins is the one of its cell that was asked
for last. -/
def BeginsLast (t : Threads) (h : List Happening) (s : State) : Prop :=
  ∀ g e', s.evaluation? g = some e' →
    ∃ e, t.state.evaluation? g = some e ∧ e'.cancelled = e.cancelled ∧
      (e'.stage.begun = true → e.stage.begun = true ∨ (askedOf e.key h).getLast? = some g)

namespace BeginsLast

variable {s : State}

/-- No evaluation moves. -/
theorem of_same (hsame : ∀ g, s.evaluation? g = t.state.evaluation? g) : t.BeginsLast h s :=
  fun g e' he' => ⟨e', (hsame g).symm.trans he', rfl, .inl⟩

/-- An evaluation that has begun goes to another stage. -/
theorem of_begun (he : t.state.evaluation? e.generation = some e) (hbegun : e.stage.begun = true)
    (hothers : ∀ g, g ≠ e.generation → s.evaluation? g = t.state.evaluation? g)
    (hown : ∃ stage, s.evaluation? e.generation = some { e with stage }) : t.BeginsLast h s := by
  intro g e' he'
  by_cases hg : g = e.generation
  · subst hg
    obtain ⟨stage, hown⟩ := hown
    obtain rfl := Option.some.inj (he'.symm.trans hown)
    exact ⟨e, he, rfl, fun _ => .inl hbegun⟩
  · exact ⟨e', (hothers g hg).symm.trans he', rfl, .inl⟩

/-- One that begins is the newest one that the ledger knows. -/
theorem of_stride (he : t.state.evaluation? e.generation = some e)
    (hcounted : (t.docket h e.key).Counted) (hstride : Stride u t.state e x s) :
    t.BeginsLast h s := by
  intro g e' he'
  by_cases hg : g = e.generation
  · subst hg
    rcases hstride.own he with hnone | ⟨stage, hown⟩
    · cases he'.symm.trans hnone
    · have hsame : e'.cancelled = e.cancelled := by
        rw [Option.some.inj (he'.symm.trans hown)]
      refine ⟨e, he, hsame, fun hbegun => ?_⟩
      refine (hstride.newest_of_begun he he' hbegun).imp id fun ⟨found, hbegins⟩ => ?_
      obtain ⟨c, phase, hc, hcur, -⟩ := Ledger.begin?_eq_some.mp hbegins
      exact hcounted.newest _ ⟨c, _, hc, hcur, rfl⟩
  · exact ⟨e', (hstride.others hg).symm.trans he', rfl, .inl⟩

end BeginsLast

namespace Spared

variable (hs : t.Spared) (ho : t.Orderly h)

include hs ho

theorem keep (hw : t.Wanted h) (hbegins : t.BeginsLast h t'.state)
    (hpositions : ∀ task key g previous told,
      t'.position? task = some (.entered key g previous told) →
      t.position? task = some (.entered key g previous told)) : t'.Spared where
  cancelled g e' he' hcancelled := by
    obtain ⟨e, he, hsame, hbegins⟩ := hbegins g e' he'
    rw [hsame] at hcancelled
    by_contra hbegun
    rcases hbegins (by simpa using hbegun) with hold | hlast
    · cases hold.symm.trans (hs.cancelled g e he hcancelled)
    · exact hw.cancelled g e he hcancelled hlast
  previous task key g r told hp hphase e' he' := by
    obtain ⟨e, he, -, hbegins⟩ := hbegins _ e' he'
    have hp := hpositions _ _ _ _ _ hp
    by_contra hbegun
    rcases hbegins (by simpa using hbegun) with hold | hlast
    · cases hold.symm.trans (hs.previous task key g r told hp hphase e he)
    · obtain ⟨hasked, hnot⟩ := hw.previous task key g r told hp
      rw [← ho.unique _ _ _ hasked (ho.asked _ _ he)] at hlast
      exact hnot hlast

/-- Another evaluation is entered. The one whose place it takes is known to wait if it is told to
stop on that account. -/
theorem enter (hcounted : (t.docket h key).Counted) {fanOut : List String} :
    ((t.stand task (.entered key g (t.state.ledger.current? key) false)).withState
      (t.state.enter key g fanOut)).Spared where
  cancelled := hs.cancelled
  previous other k n r told hp hphase e he := by
    rcases position_of_stand hp with ⟨-, heq⟩ | ⟨-, hold⟩
    · injection heq with hkey _ hr _
      subst hkey
      obtain ⟨c, hc, hcur⟩ := Ledger.current?_eq_some.mp hr.symm
      have hlast := hcounted.newest r.generation ⟨c, r, hc, hcur, rfl⟩
      have hsame := ho.unique _ _ _ (mem_askedOf.mp (List.mem_of_getLast? hlast)) (ho.asked _ _ he)
      have hwaits := hcounted.pending c r hc hcur hphase
      have hg : e.generation = r.generation := State.generation_of_evaluation? he
      by_contra hbegun
      rw [hsame, ← hg, place_begun (hg ▸ he) (by simpa using hbegun)] at hwaits
      cases hwaits
    · exact hs.previous other k n r told hold hphase e he

/-- Where superseded ones are not given up, the one whose place it took is told to stop only if it
waits. -/
theorem launch (patient : u.ruleSet.throttle.cancelSuperseded = false) {previous : Option Request}
    {told : Bool} (hp : t.position? task = some (.entered key g previous told)) :
    ((t.leave task).launch u key g previous told).Spared := by
  have hgone := (ho.entered task key g previous told hp).2
  have hnone : ((t.leave task).launch u key g previous told).position? task = none :=
    position_launch_none position?_leave_self
  have hback : ∀ {other p}, ((t.leave task).launch u key g previous told).position? other = some p →
      (t.leave task).position? other = t.position? other := by
    rintro other p hp'
    refine position?_leave_of_ne ?_
    rintro rfl
    cases hnone.symm.trans hp'
  -- where the evaluations come from that are there now
  have hstage : ∀ n e',
      ((t.leave task).launch u key g previous told).state.evaluation? n = some e' →
      e'.stage.begun = false ∨ ∃ e, t.state.evaluation? n = some e ∧ e'.stage = e.stage ∧
        (e'.cancelled = true → e.cancelled = true ∨
          ∃ old, previous = some old ∧ n = old.generation ∧ u.tells old = true) := by
    intro n e' he'
    by_cases hng : n = g
    · subst hng
      obtain ⟨e, he, -, hasked, -⟩ := evaluation?_launch_self (u := u) (t := t.leave task)
        key previous told hgone
      obtain rfl := Option.some.inj (he'.symm.trans he)
      rw [hasked]
      exact .inl rfl
    · cases he : t.state.evaluation? n with
      | none =>
        cases he'.symm.trans (evaluation?_launch_of_ne (t := t.leave task) _ _ _ he hng)
      | some e =>
        obtain ⟨f, hf, -, hsame, hwhy⟩ := evaluation?_launch_of_some (u := u) (t := t.leave task)
          (g := g) key previous told he
        obtain rfl := Option.some.inj (he'.symm.trans hf)
        refine .inr ⟨e, rfl, hsame, fun hc => (hwhy hc).imp id fun h => ?_⟩
        exact h.resolve_left fun ⟨_, h⟩ => hng h
  constructor
  · intro n e' he' hcancelled
    rcases hstage n e' he' with hwaits | ⟨e, he, hsame, hwhy⟩
    · exact hwaits
    rw [hsame]
    rcases hwhy hcancelled with hold | ⟨r, rfl, rfl, htells⟩
    · exact hs.cancelled n e he hold
    · have hphase : r.phase = .pending := by simpa [Setup.tells, patient] using htells
      exact hs.previous task key g r told hp hphase e he
  · intro other k n r is hp' hphase e' he'
    have hold : ∃ was, t.position? other = some (.entered k n (some r) was) := by
      rcases position_of_launch hp' with hsame | ⟨k', n', old', was, is', hwas, heq, -⟩
      · exact ⟨is, (hback hp').symm.trans hsame⟩
      · cases heq
        exact ⟨was, (hback hp').symm.trans hwas⟩
    obtain ⟨was, hold⟩ := hold
    rcases hstage _ e' he' with hwaits | ⟨e, he, hsame, -⟩
    · exact hwaits
    · rw [hsame]
      exact hs.previous other k n r was hold hphase e he

/-- Every turn keeps it while the watch is open. -/
theorem step (patient : u.ruleSet.throttle.cancelSuperseded = false) (hw : t.Wanted h)
    (hcounted : ∀ key, (t.docket h key).Counted) (heffect : Effect u t x t') : t'.Spared := by
  cases heffect with
  | strides hknown _ hstride =>
    exact hs.keep ho hw (.of_stride hknown (hcounted _) hstride) fun _ _ _ _ _ => id
  | spreads hknown _ hstage | admits hknown _ hstage =>
    exact hs.keep ho hw (.of_begun hknown (by rw [hstage]; rfl)
      (fun g hg => State.evaluation?_setStage_of_ne hg _)
      ⟨_, State.evaluation?_setStage hknown⟩) (entered_of_stand (by simp))
  | @opens c s p _ _ hfirst =>
    refine hs.keep ho hw (.of_same (State.evaluation?_congr hfirst.kept.1)) (entered_of_stand ?_)
    rintro key g previous told rfl
    cases hfirst.position.1
  | enters => exact hs.enter ho (hcounted _)
  | launches hp => exact hs.launch ho patient hp
  | @outdone e _ _ hknown hp =>
    obtain ⟨f, keys, hf, hstage, -⟩ := ho.spreading _ _ hp
    obtain rfl := Option.some.inj (hknown.symm.trans hf)
    exact hs.keep ho hw (.of_begun hknown (by rw [hstage]; rfl)
      (fun g hg => State.evaluation?_leaveOut_of_ne hg)
      ⟨_, State.evaluation?_leaveOut_self hknown⟩) entered_of_leave
  | @follows task next hp =>
    have hfollows := t.state.follows u next task
    cases task with
    | evaluation g =>
      obtain ⟨e, keys, he, hstage, -⟩ := ho.spreading g _ hp
      obtain rfl := State.generation_of_evaluation? he
      refine hs.keep ho hw (.of_begun he (by rw [hstage]; rfl)
        (fun g hg => hfollows.others (by simpa using hg)) ?_) entered_of_leave
      exact (hfollows.own he).elim (fun h => ⟨e.stage, h⟩) fun ⟨keys, h⟩ => ⟨_, h⟩
    | call id | strand id strand =>
      exact hs.keep ho hw (.of_same fun g => hfollows.others (by simp)) entered_of_leave
  | calls hknown _ hwhole hseen hadvance =>
    exact hs.keep ho hw (.of_same (State.evaluation?_congr (hadvance.kept hknown hwhole).1))
      fun _ _ _ _ _ => id
  | outside houter hm =>
    exact hs.keep ho hw (.of_same (State.evaluation?_congr (Move.kept_of_outer houter hm).1))
      fun _ _ _ _ _ => id
  | draws | claims | hands | records =>
    exact hs.keep ho hw (.of_same fun _ => rfl) (entered_of_stand (by simp))
  | concludes | looks => exact hs.keep ho hw (.of_same fun _ => rfl) entered_of_leave
  | tellsAll | bars | forgets | announces =>
    exact hs.keep ho hw (.of_same fun _ => rfl) fun _ _ _ _ _ => id

end Spared

theorem spared_start (u : Setup) (grid : Grid) : (whole (.start u grid)).Spared := by
  constructor
  · intro g e he
    cases he
  · intro task key g r told hp
    cases hp

/-- Where superseded evaluations are not given up, whoever is told to stop in an open watch has not
begun. -/
theorem Run.spared (run : Run u (whole (.start u grid)) h t)
    (patient : u.ruleSet.throttle.cancelSuperseded = false) (hopen : t.state.closed = false) :
    t.Spared := by
  induction run with
  | rest => exact spared_start u grid
  | turn turn hrun hturn ih =>
    have heffect := effect_of_turn? hturn
    have hopen₀ := heffect.open hopen
    have hl := hrun.lawful (lawful_start u grid)
    exact (ih hopen₀).step hl.orderly patient (hl.wanted hopen₀)
      (fun key => (hl.sound (hl.gate.unforgotten hopen₀) key).toCounted) heffect

/-! ## Why an evaluation is dropped -/

/-- Another evaluation of the cell was entered after it and superseded ones are given up, or one
with a greater generation has reported. -/
def Outrun (u : Setup) (h : List Happening) (key : CellKey) (g : Nat) : Prop :=
  (u.ruleSet.throttle.cancelSuperseded = true ∧ (askedOf key h).getLast? ≠ some g) ∨
    ∃ newer, g < newer ∧ Reported h key newer

/-- An evaluation that is told to stop once it has begun. -/
theorem Lawful.outrun_of_stopped (hl : t.Lawful h) (hopen : t.state.closed = false)
    (hspared : u.ruleSet.throttle.cancelSuperseded = false → t.Spared)
    (he : t.state.evaluation? e.generation = some e) (hbegun : e.stage.begun = true)
    (hstopped : e.stopped t.state = true) : Outrun u h e.key e.generation := by
  refine .inl ⟨?_, (hl.wanted hopen).not_last he hopen hstopped⟩
  by_contra hpatient
  have hcancelled : e.cancelled = true := by simpa [Evaluation.stopped, hopen] using hstopped
  have hwaits := (hspared (by simpa using hpatient)).cancelled _ e he hcancelled
  cases hbegun.symm.trans hwaits

/-- One whose report comes too late. -/
theorem Lawful.outrun_of_outdone (hl : t.Lawful h) (hopen : t.state.closed = false)
    (he : t.state.evaluation? e.generation = some e) {report : CellReport} {next : Following}
    (hp : t.position? (.evaluation e.generation) = some (.admitted report next))
    (hunlocked : t.locked = false) (holder : t.state.ledger.claim? e.key e.generation = none) :
    Outrun u h e.key e.generation := by
  have hsound := hl.sound (hl.gate.unforgotten hopen) e.key
  have hbegun : ((t.docket h e.key).place e.generation).begun = true := by
    rw [placeOf_admitted he hp]
    rfl
  obtain ⟨c, hc⟩ := Option.ne_none_iff_exists'.mp (hsound.kept _ hbegun)
  obtain ⟨newer, hnewer, hlt⟩ := Ledger.claim?_eq_none holder hc
  have hlast := hsound.last c newer hc hnewer (not_claimed_of_unlocked hunlocked)
  have hmem : newer ∈ (t.docket h e.key).reported := List.mem_of_getLast? hlast
  rw [reported_docket] at hmem
  exact .inr ⟨newer, hlt, mem_reportedOf.mp hmem⟩

theorem Effect.outrun (hl : t.Lawful h) (hopen : t.state.closed = false)
    (hspared : u.ruleSet.throttle.cancelSuperseded = false → t.Spared)
    (heffect : Effect u t x t') (hx : x = some (.dropped (.evaluation g) key)) :
    Outrun u h key g := by
  cases heffect with
  | strides hknown _ hstride =>
    cases hstride with
    | givesUp hstage hwhy =>
      cases hx
      have hstopped := hwhy.resolve_right (by simp [hl.gate.slots hopen])
      refine hl.outrun_of_stopped hopen hspared hknown ?_ hstopped
      rcases hstage with hstage | ⟨ticket, hstage⟩ <;> (rw [hstage]; rfl)
    | abandons hstage hstopped =>
      cases hx
      exact hl.outrun_of_stopped hopen hspared hknown (by rw [hstage]; rfl) hstopped
    | arms | begins | drops | queues | reads | goesOn | ends | fails | skips | finishes => cases hx
  | @outdone e report next hknown hp hunlocked holder =>
    cases hx
    obtain ⟨f, keys, hf, -, hnext⟩ := hl.orderly.spreading _ _ hp
    obtain rfl := Option.some.inj (hknown.symm.trans hf)
    rw [hnext next rfl]
    exact hl.outrun_of_outdone hopen hknown hp hunlocked holder
  | @opens c s p => cases p <;> cases hx
  | @calls c _ s' _ _ _ hseen =>
    rcases hseen with rfl | rfl
    · cases hx
    · exact absurd hx Call.seen_ne_dropped
  | @outside m s' houter => exact absurd hx (Move.seen_ne_dropped houter)
  | spreads | admits | draws | enters | launches | claims | hands | records | concludes | follows
  | looks | tellsAll | bars | forgets | announces => cases hx

/-- In a watch that nobody closes, an evaluation is dropped only if another one of its cell was
entered after it and superseded ones are given up, or one with a greater generation has reported. -/
theorem Run.dropped (run : Run u (whole (.start u grid)) h t) (hopen : .closed ∉ h)
    (hx : h = h₁ ++ .dropped (.evaluation g) key :: h₂) : Outrun u h₁ key g := by
  obtain ⟨mid, hbefore, next, hstep, -⟩ := run.moment hx
  have hl := hbefore.lawful (lawful_start u grid)
  have hmid : mid.state.closed = false := by
    rcases hl.gate with ⟨-, hmid, -⟩ | ⟨hclosers, -⟩
    · exact hmid
    · refine absurd ?_ hopen
      rw [hx]
      exact List.mem_append_left _ (hl.shut hclosers)
  exact hstep.effect.outrun hl hmid (fun hpatient => hbefore.spared hpatient hmid) rfl

end Threads

end CellRules.Watch
