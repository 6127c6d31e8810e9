/-
CellRules.Proofs.Watch.Threads.Cells — the docket of a cell, read off a watch.

`Threads.docket t h key` is what a watch, after a run that showed `h`, knows of one cell. Every turn
leaves the docket of a cell alone or takes it one `Docket.Step` further, until somebody who closes the
watch forgets its entry (`Effect.docket`). So what is proved of dockets holds of every run.
-/
import CellRules.Proofs.Watch.Threads.Docket
import CellRules.Proofs.Watch.Threads.Order

namespace CellRules.Watch

variable {u : Setup}

/-! ## Where evaluations stand -/

/-- What a happening is to a cell. -/
def Happening.note? (key : CellKey) : Happening → Option Note
  | .asked _ k generation _ => if k = key then some (.asked generation) else none
  | .reported (.evaluation generation) k _ => if k = key then some (.reported generation) else none
  | _ => none

/-- What was noted of a cell. -/
def notesOf (key : CellKey) (h : List Happening) : List Note := h.filterMap (·.note? key)

/-- The generations of the evaluations of a cell, in the order in which they were asked for. -/
def askedOf (key : CellKey) (h : List Happening) : List Nat :=
  (notesOf key h).filterMap Note.asked?

/-- Where an evaluation stands by its stage. -/
def Stage.place : Stage → Place
  | .asked | .armed _ => .waiting
  | .entering _ | .inLine _ _ | .running _ _ | .settled _ _ => .working
  | .spreading _ => .leaving

theorem Stage.place_of_waits {stage : Stage} (h : stage.begun = false) : stage.place = .waiting := by
  cases stage <;> first | rfl | cases h

/-- Where an evaluation stands that is about to be reported. -/
def Position.place? : Position → Option Place
  | .admitted _ _ => some .admitted
  | .claimed _ _ => some .claimed
  | _ => none

namespace Threads

/-- Where an evaluation stands that has begun to wait for its alarm. -/
def stands (t : Threads) (e : Evaluation) : Place :=
  ((t.position? (.evaluation e.generation)).bind Position.place?).getD e.stage.place

/-- A task has entered an evaluation of the cell, and not let it begin. -/
def Unlaunched (t : Threads) (key : CellKey) (g : Nat) : Prop :=
  ∃ task previous told, t.position? task = some (.entered key g previous told)

open Classical in
/-- Where an evaluation of a cell stands. -/
noncomputable def placeOf (t : Threads) (key : CellKey) (g : Nat) : Place :=
  match t.state.evaluation? g with
  | some e => if e.key = key then t.stands e else .away
  | none => if t.Unlaunched key g then .waiting else .away

/-- The docket of a cell. -/
noncomputable def docket (t : Threads) (h : List Happening) (key : CellKey) : Docket where
  entry := t.state.ledger.find? key
  place := t.placeOf key
  log := notesOf key h

variable {t t' : Threads} {h : List Happening} {x : Option Happening} {key : CellKey} {g : Nat}
  {e : Evaluation} {task : Task}

theorem placeOf_of_evaluation (he : t.state.evaluation? e.generation = some e) :
    t.placeOf e.key e.generation = t.stands e := by
  simp [placeOf, he]

theorem placeOf_of_other (he : t.state.evaluation? g = some e) (hne : e.key ≠ key) :
    t.placeOf key g = .away := by
  simp [placeOf, he, hne]

theorem placeOf_unlaunched (hnone : t.state.evaluation? g = none) (hu : t.Unlaunched key g) :
    t.placeOf key g = .waiting := by
  simp [placeOf, hnone, hu]

theorem placeOf_away (hnone : t.state.evaluation? g = none) (hu : ¬t.Unlaunched key g) :
    t.placeOf key g = .away := by
  simp [placeOf, hnone, hu]

/-- One that is under way was entered, and is let begin by nobody else. -/
theorem Orderly.not_unlaunched (ho : t.Orderly h) (he : t.state.evaluation? g = some e) :
    ¬t.Unlaunched key g := by
  rintro ⟨task, previous, told, hp⟩
  cases he.symm.trans (ho.entered task key g previous told hp).2

/-- Who stands where it stood, and was entered as much as before. -/
theorem placeOf_congr (hevaluation : t'.state.evaluation? g = t.state.evaluation? g)
    (hposition : ∀ e, t.state.evaluation? g = some e → t'.stands e = t.stands e)
    (hentered : t.state.evaluation? g = none → (t'.Unlaunched key g ↔ t.Unlaunched key g)) :
    t'.placeOf key g = t.placeOf key g := by
  unfold placeOf
  rw [hevaluation]
  cases he : t.state.evaluation? g with
  | none =>
    by_cases hu : t.Unlaunched key g
    · simp [hu, (hentered he).mpr hu]
    · simp [hu, (hentered he).not.mpr hu]
  | some e => simp only [hposition e he]

/-- A task that enters nothing, and lets nothing begin. -/
def Plain (t : Threads) (task : Task) : Prop :=
  ∀ key g previous told, t.position? task ≠ some (.entered key g previous told)

theorem unlaunched_congr (hothers : ∀ other, other ≠ task → t'.position? other = t.position? other)
    (hplain : t.Plain task) (hplain' : t'.Plain task) :
    t'.Unlaunched key g ↔ t.Unlaunched key g := by
  constructor
  · rintro ⟨other, previous, told, hp⟩
    have hne : other ≠ task := by
      rintro rfl
      exact hplain' _ _ _ _ hp
    exact ⟨other, previous, told, (hothers other hne).symm.trans hp⟩
  · rintro ⟨other, previous, told, hp⟩
    have hne : other ≠ task := by
      rintro rfl
      exact hplain _ _ _ _ hp
    exact ⟨other, previous, told, (hothers other hne).trans hp⟩

theorem Plain.of_free (h : t.position? task = none) : t.Plain task := by
  simp [Plain, h]

theorem Plain.of_position {p : Position} (h : t.position? task = some p)
    (hp : ∀ key g previous told, p ≠ .entered key g previous told) : t.Plain task := by
  intro key g previous told h'
  exact hp key g previous told (Option.some.inj (h.symm.trans h'))

/-- Whoever is not the task that moves stays where it is. -/
theorem placeOf_others (hothers : ∀ other, other ≠ task → t'.position? other = t.position? other)
    (hplain : t.Plain task) (hplain' : t'.Plain task) (hg : .evaluation g ≠ task)
    (hevaluation : t'.state.evaluation? g = t.state.evaluation? g) :
    t'.placeOf key g = t.placeOf key g := by
  refine placeOf_congr hevaluation (fun e he => ?_)
    fun _ => unlaunched_congr hothers hplain hplain'
  obtain rfl := State.generation_of_evaluation? he
  rw [stands, stands, hothers _ hg]

/-- An evaluation moves, or is over. -/
structure Moves (t : Threads) (e : Evaluation) (p : Place) (t' : Threads) : Prop where
  known : t.state.evaluation? e.generation = some e
  others : ∀ other, other ≠ .evaluation e.generation → t'.position? other = t.position? other
  plain : t.Plain (.evaluation e.generation)
  plain' : t'.Plain (.evaluation e.generation)
  evaluations : ∀ g, g ≠ e.generation → t'.state.evaluation? g = t.state.evaluation? g
  own : (t'.state.evaluation? e.generation = none ∧ p = .away) ∨
    ∃ e', t'.state.evaluation? e.generation = some e' ∧ e'.generation = e.generation ∧
      e'.key = e.key ∧ t'.stands e' = p

namespace Moves

variable {p : Place} (hm : t.Moves e p t') (ho : t.Orderly h)

include hm

theorem unlaunched : t'.Unlaunched key g ↔ t.Unlaunched key g :=
  unlaunched_congr hm.others hm.plain hm.plain'

theorem placeOf_of_ne (hg : g ≠ e.generation) : t'.placeOf key g = t.placeOf key g :=
  placeOf_others hm.others hm.plain hm.plain' (by simpa using hg) (hm.evaluations g hg)

include ho

theorem placeOf_self : t'.placeOf e.key e.generation = p := by
  rcases hm.own with ⟨hnone, rfl⟩ | ⟨e', he', hgeneration, hkey, rfl⟩
  · exact placeOf_away hnone (hm.unlaunched.not.mpr (ho.not_unlaunched hm.known))
  · rw [← hgeneration] at he' ⊢
    rw [← hkey]
    exact placeOf_of_evaluation he'

theorem placeOf_other (hkey : e.key ≠ key) : t'.placeOf key g = t.placeOf key g := by
  by_cases hg : g = e.generation
  · subst hg
    rw [placeOf_of_other hm.known hkey]
    rcases hm.own with ⟨hnone, -⟩ | ⟨e', he', -, hsame, -⟩
    · exact placeOf_away hnone (hm.unlaunched.not.mpr (ho.not_unlaunched hm.known))
    · exact placeOf_of_other he' (hsame ▸ hkey)
  · exact hm.placeOf_of_ne hg

/-- The docket of its cell. -/
theorem docket_self (x : Option Happening) : t'.docket (h ++ x.toList) e.key =
    { (t.docket h e.key).goes e.generation p with
      entry := t'.state.ledger.find? e.key
      log := notesOf e.key (h ++ x.toList) } := by
  have hplace : t'.placeOf e.key = Function.update (t.placeOf e.key) e.generation p := by
    funext g
    by_cases hg : g = e.generation
    · rw [hg, hm.placeOf_self ho, Function.update_self]
    · rw [hm.placeOf_of_ne hg, Function.update_of_ne hg]
  rw [docket, hplace]
  rfl

/-- The dockets of other cells. -/
theorem docket_other {x : Option Happening} (hkey : e.key ≠ key)
    (hentry : t'.state.ledger.find? key = t.state.ledger.find? key)
    (hlog : notesOf key (h ++ x.toList) = notesOf key h) :
    t'.docket (h ++ x.toList) key = t.docket h key := by
  have hplace : t'.placeOf key = t.placeOf key := funext fun g => hm.placeOf_other ho hkey
  rw [docket, docket, hentry, hplace, hlog]

end Moves

/-! ## Dockets follow the turns -/

theorem mem_askedOf : g ∈ askedOf key h ↔ AskedFor h key g := by
  refine (Docket.mem_asked (d := { log := notesOf key h })).trans ⟨fun hg => ?_, ?_⟩
  · obtain ⟨y, hy, hnote⟩ := List.mem_filterMap.mp hg
    cases y with
    | asked asker k n fanOut =>
      simp only [Happening.note?] at hnote
      split at hnote
      · rename_i hk
        cases hnote
        exact ⟨asker, fanOut, hk ▸ hy⟩
      · cases hnote
    | reported reporter k v =>
      cases reporter with
      | evaluation n =>
        simp only [Happening.note?] at hnote
        split at hnote <;> cases hnote
      | call id | strand id strand => cases hnote
    | wrote | pushed | told | calledAll | closed | began | read | surveyed | dropped | failed =>
      cases hnote
  · rintro ⟨asker, fanOut, hy⟩
    exact List.mem_filterMap.mpr ⟨_, hy, by simp [Happening.note?]⟩

theorem reported_docket (t : Threads) (h : List Happening) (key : CellKey) :
    (t.docket h key).reported = reportedOf key h := by
  change (notesOf key h).filterMap Note.reported? = _
  rw [notesOf, List.filterMap_filterMap, reportedOf]
  congr 1
  funext y
  cases y with
  | reported reporter k v =>
    cases reporter with
    | evaluation n =>
      simp only [Happening.note?, Happening.reportOf?]
      split <;> rfl
    | call id | strand id strand => rfl
  | asked asker k n fanOut =>
    simp only [Happening.note?, Happening.reportOf?]
    split <;> rfl
  | wrote | pushed | told | calledAll | closed | began | read | surveyed | dropped | failed => rfl

theorem notesOf_concat (key : CellKey) (h : List Happening) (y : Happening) :
    notesOf key (h ++ [y]) = notesOf key h ++ (y.note? key).toList := by
  rw [notesOf, List.filterMap_append, notesOf]
  cases hy : y.note? key <;> simp [hy]

theorem notesOf_quiet (hx : ∀ y, x = some y → y.quiet = true) :
    notesOf key (h ++ x.toList) = notesOf key h := by
  cases x with
  | none => simp
  | some y =>
    have hnone : y.note? key = none := by
      have hy := hx y rfl
      cases y with
      | asked => cases hy
      | reported reporter k v => cases reporter <;> first | rfl | cases hy
      | wrote | pushed | told | calledAll | closed | began | read | surveyed | dropped | failed =>
        rfl
    simp [notesOf_concat, hnone]

end Threads

namespace Docket

variable {d d' : Docket} {g : Nat} {p : Place} {strict : Bool}

theorem goes_same (h : d.place g = p) : d.goes g p = d := by
  subst h
  rw [goes, Function.update_eq_self]

/-- A docket stays as it is or goes one step further. -/
def Follows (strict : Bool) (d d' : Docket) : Prop := d' = d ∨ Step strict d d'

end Docket

namespace Threads

variable {t t' : Threads} {h : List Happening} {x : Option Happening} {key : CellKey} {g : Nat}
  {e : Evaluation} {task : Task} {strict : Bool} {s' : State}

/-- No evaluation that nobody waits for any more is the one that was asked for last. -/
structure Wanted (t : Threads) (h : List Happening) : Prop where
  cancelled : ∀ g e, t.state.evaluation? g = some e → e.cancelled = true →
    (askedOf e.key h).getLast? ≠ some g
  told : ∀ task key g previous, t.position? task = some (.entered key g previous true) →
    (askedOf key h).getLast? ≠ some g
  previous : ∀ task key g r told, t.position? task = some (.entered key g (some r) told) →
    AskedFor h key r.generation ∧ (askedOf key h).getLast? ≠ some r.generation

/-- A watch is closed by those who close it, and gives out slots while nobody does. -/
def Gate (t : Threads) : Prop :=
  (t.closers = [] ∧ t.state.closed = false ∧ t.state.limiter.closed = false) ∨
    (t.closers ≠ [] ∧ t.state.closed = true)

theorem Gate.slots (hg : t.Gate) (hopen : t.state.closed = false) :
    t.state.limiter.closed = false := by
  rcases hg with ⟨-, -, hslots⟩ | ⟨-, hclosed⟩
  · exact hslots
  · cases hopen.symm.trans hclosed

/-- The dockets when an evaluation moves: that of its cell takes a step, and the others stay. -/
theorem Moves.follows {p : Place} (hm : t.Moves e p t') (ho : t.Orderly h)
    (hentries : ∀ key, e.key ≠ key → t'.state.ledger.find? key = t.state.ledger.find? key)
    (hlogs : ∀ key, e.key ≠ key → notesOf key (h ++ x.toList) = notesOf key h)
    (hown : (t.docket h e.key).Follows strict
      { (t.docket h e.key).goes e.generation p with
        entry := t'.state.ledger.find? e.key
        log := notesOf e.key (h ++ x.toList) }) (key : CellKey) :
    (t.docket h key).Follows strict (t'.docket (h ++ x.toList) key) := by
  by_cases hkey : e.key = key
  · subst hkey
    rw [hm.docket_self ho x]
    exact hown
  · exact .inl (hm.docket_other ho hkey (hentries key hkey) (hlogs key hkey))

section Stride

variable (ho : t.Orderly h) (hknown : t.state.evaluation? e.generation = some e)
  (hfree : t.position? (.evaluation e.generation) = none)

include hknown hfree

omit hknown in
theorem stands_free : t.stands e = e.stage.place := by
  simp [stands, hfree]

theorem place_free : (t.docket h e.key).place e.generation = e.stage.place :=
  (placeOf_of_evaluation hknown).trans (stands_free hfree)

/-- An evaluation goes to another stage with a step that it takes whole. -/
theorem Moves.of_setStage {r : State} {stage : Stage} (hr : r.evaluations = t.state.evaluations)
    (state : s'.Alike (r.setStage e stage)) : t.Moves e stage.place (t.withState s') where
  known := hknown
  others _ _ := rfl
  plain := .of_free hfree
  plain' := .of_free (t := t.withState s') hfree
  evaluations g hg := by
    rw [state_withState, State.evaluation?_congr state.evaluations,
      State.evaluation?_setStage_of_ne hg, State.evaluation?_congr hr]
  own := by
    refine .inr ⟨{ e with stage }, ?_, rfl, rfl, stands_free (t := t.withState s') hfree⟩
    rw [state_withState, State.evaluation?_congr state.evaluations]
    exact State.evaluation?_setStage ((State.evaluation?_congr hr _).trans hknown)

/-- An evaluation is over with a step that it takes whole. -/
theorem Moves.of_drop (hevaluations : s'.evaluations = (t.state.dropEvaluation e).evaluations) :
    t.Moves e .away (t.withState s') where
  known := hknown
  others _ _ := rfl
  plain := .of_free hfree
  plain' := .of_free (t := t.withState s') hfree
  evaluations g hg := (State.evaluation?_congr hevaluations g).trans
    (State.evaluation?_dropEvaluation_of_ne hg)
  own := .inl ⟨(State.evaluation?_congr hevaluations _).trans
    State.evaluation?_dropEvaluation_self, rfl⟩

omit hfree in
/-- One that was told to stop is not the one asked for last. -/
theorem Wanted.not_last (hw : t.Wanted h) (hopen : t.state.closed = false)
    (hstopped : e.stopped t.state = true) : (askedOf e.key h).getLast? ≠ some e.generation := by
  have hcancelled : e.cancelled = true := by simpa [Evaluation.stopped, hopen] using hstopped
  exact hw.cancelled _ e hknown hcancelled

include ho

/-- A step that an evaluation takes whole. -/
theorem docket_stride (hw : t.state.closed = false → t.Wanted h) (hg : t.Gate)
    (hstrict : strict = true → s'.closed = false ∧ ∀ y, x = some y → y.isProblem = false)
    (hstride : Stride u t.state e x s') (key : CellKey) :
    (t.docket h key).Follows strict ((t.withState s').docket (h ++ x.toList) key) := by
  have hlogs : ∀ key, notesOf key (h ++ x.toList) = notesOf key h :=
    fun key => notesOf_quiet hstride.quiet
  have hfollows : ∀ {p : Place} {entry : Option CellState}, t.Moves e p (t.withState s') →
      s'.ledger.find? e.key = entry →
      (t.docket h e.key).Follows strict { (t.docket h e.key).goes e.generation p with entry } →
      (t.docket h key).Follows strict ((t.withState s').docket (h ++ x.toList) key) := by
    rintro p entry hm rfl hown
    refine hm.follows ho (fun key hkey => hstride.find?_of_ne hkey) (fun key _ => hlogs key) ?_ key
    rw [hlogs]
    exact hown
  -- a step to a stage of the same place
  have hstill : ∀ {stage : Stage}, s'.Alike (t.state.setStage e stage) →
      e.stage.place = stage.place →
      (t.docket h key).Follows strict ((t.withState s').docket (h ++ x.toList) key) := by
    intro stage state hsame
    refine hfollows (.of_setStage hknown hfree rfl state) (by rw [state.ledger]) (.inl ?_)
    exact Docket.goes_same ((place_free hknown hfree).trans hsame)
  -- the entry of its cell once it is over
  have hleft : s'.ledger = t.state.ledger.finish e.key e.generation →
      s'.ledger.find? e.key = (t.docket h e.key).entry.bind
        fun c => Ledger.leftAfter c e.generation := by
    intro hledger
    rw [hledger]
    exact Ledger.find?_finish
  have hplace := place_free (h := h) hknown hfree
  cases hstride with
  | arms hstage state | queues hstage state => exact hstill state (by rw [hstage]; rfl)
  | reads hstage state =>
    exact hstill state (by rcases hstage with hstage | ⟨ticket, hstage⟩ <;> (rw [hstage]; rfl))
  | goesOn hstage _ state | ends hstage _ state | skips hstage _ state =>
    exact hstill state (by rw [hstage]; rfl)
  | @begins fanOut ledger _ hwaits hnewest state =>
    obtain ⟨c, phase, hc, hcur, rfl⟩ := Ledger.begin?_eq_some.mp hnewest
    have hentry : s'.ledger.find? e.key = some { c with
        current := some ⟨e.generation, .running, []⟩ } := by
      rw [state.ledger]
      exact Ledger.find?_set_self
    refine hfollows (.of_setStage (r := { t.state with ledger := t.state.ledger.set e.key { c with
      current := some ⟨e.generation, .running, []⟩ } }) hknown hfree rfl state) hentry (.inr ?_)
    exact .begin (hplace.trans (Stage.place_of_waits hwaits)) hc hcur
  | drops hwaits hwhy state =>
    refine hfollows (.of_drop hknown hfree state.evaluations) (by rw [state.ledger]) (.inr ?_)
    refine .drop (hplace.trans (Stage.place_of_waits hwaits)) fun hs hnewest => ?_
    have hopen := state.closed.symm.trans (hstrict hs).1
    have hnone := hwhy.resolve_left fun hstopped =>
      Wanted.not_last hknown (hw hopen) hopen hstopped hnewest
    rintro ⟨c, r, hc, hr, hg⟩
    exact Ledger.begin?_eq_none hnone r (Ledger.current?_eq_some.mpr ⟨c, hc, hr⟩) hg
  | givesUp hstage hwhy state =>
    refine hfollows (.of_drop hknown hfree state.evaluations) (hleft state.ledger) (.inr ?_)
    refine .giveUp (hplace.trans ?_) fun hs => ?_
    · rcases hstage with hstage | ⟨ticket, hstage⟩ <;> (rw [hstage]; rfl)
    · have hopen := state.closed.symm.trans (hstrict hs).1
      refine Wanted.not_last hknown (hw hopen) hopen (hwhy.resolve_right fun hbarred => ?_)
      cases hbarred.symm.trans (hg.slots hopen)
  | abandons hstage hstopped state =>
    refine hfollows (.of_setStage hknown hfree rfl state) (by rw [state.ledger]) (.inr ?_)
    refine .spoil (hplace.trans (by rw [hstage]; rfl)) fun hs => ?_
    have hopen := state.closed.symm.trans (hstrict hs).1
    exact Wanted.not_last hknown (hw hopen) hopen hstopped
  | fails hstage state =>
    refine hfollows (.of_setStage hknown hfree rfl state) (by rw [state.ledger]) (.inr ?_)
    refine .spoil (hplace.trans (by rw [hstage]; rfl)) fun hs => ?_
    cases (hstrict hs).2 _ rfl
  | finishes hstage state =>
    refine hfollows (.of_drop hknown hfree state.evaluations) (hleft state.ledger) (.inr ?_)
    exact .finish (hplace.trans (by rw [hstage]; rfl))

end Stride

/-! ## Pieces of steps -/

/-- Nothing is done to the ledger, and nobody moves as the cell is concerned. -/
theorem docket_still (hledger : t'.state.ledger = t.state.ledger)
    (hlog : notesOf key (h ++ x.toList) = notesOf key h)
    (hplace : ∀ g, t'.placeOf key g = t.placeOf key g) :
    t'.docket (h ++ x.toList) key = t.docket h key := by
  rw [docket, docket, hledger, hlog, funext hplace]

/-- An evaluation takes its stand within a step. -/
theorem Moves.stands {p : Position} {place : Place}
    (hknown : t.state.evaluation? e.generation = some e) (hplain : t.Plain (.evaluation e.generation))
    (hothers : ∀ g, g ≠ e.generation → s'.evaluation? g = t.state.evaluation? g)
    (hnumbered : ∀ key g previous told, p ≠ .entered key g previous told)
    (hown : ∃ e', s'.evaluation? e.generation = some e' ∧ e'.generation = e.generation ∧
      e'.key = e.key ∧ p.place?.getD e'.stage.place = place) :
    t.Moves e place ((t.stand (.evaluation e.generation) p).withState s') where
  known := hknown
  others _ hne := position?_stand_of_ne hne
  plain := hplain
  plain' key g previous told hp :=
    hnumbered key g previous told (Option.some.inj (position?_stand_self.symm.trans hp))
  evaluations := hothers
  own := by
    obtain ⟨e', he', hgeneration, hkey, hplace⟩ := hown
    refine .inr ⟨e', he', hgeneration, hkey, ?_⟩
    have hp : ((t.stand (.evaluation e.generation) p).withState s').position?
        (.evaluation e'.generation) = some p := by
      rw [hgeneration]
      exact position?_stand_self
    rw [Threads.stands, hp]
    exact hplace

/-- An evaluation leaves its step. -/
theorem Moves.leaves {place : Place} (hknown : t.state.evaluation? e.generation = some e)
    (hplain : t.Plain (.evaluation e.generation))
    (hothers : ∀ g, g ≠ e.generation → s'.evaluation? g = t.state.evaluation? g)
    (hown : ∃ e', s'.evaluation? e.generation = some e' ∧ e'.generation = e.generation ∧
      e'.key = e.key ∧ e'.stage.place = place) :
    t.Moves e place ((t.leave (.evaluation e.generation)).withState s') where
  known := hknown
  others _ hne := position?_leave_of_ne hne
  plain := hplain
  plain' key g previous told hp := by cases position?_leave_self.symm.trans hp
  evaluations := hothers
  own := by
    obtain ⟨e', he', hgeneration, hkey, hplace⟩ := hown
    refine .inr ⟨e', he', hgeneration, hkey, ?_⟩
    have hp : ((t.leave (.evaluation e.generation)).withState s').position?
        (.evaluation e'.generation) = none := by
      rw [hgeneration]
      exact position?_leave_self
    rw [Threads.stands, hp]
    exact hplace

/-- Where an evaluation stands that goes on to other cells. -/
theorem stands_spreading {keys : List CellKey} (hstage : e.stage = .spreading keys)
    (hplace : ∀ p, t.position? (.evaluation e.generation) = some p → p.place? = none) :
    t.stands e = .leaving := by
  rw [stands, hstage]
  cases hp : t.position? (.evaluation e.generation) with
  | none => rfl
  | some p => simp [hplace p hp, Stage.place]

theorem placeOf_admitted {report : CellReport} {next : Following}
    (hknown : t.state.evaluation? e.generation = some e)
    (hp : t.position? (.evaluation e.generation) = some (.admitted report next)) :
    (t.docket h e.key).place e.generation = .admitted := by
  refine (placeOf_of_evaluation hknown).trans ?_
  rw [stands, hp]
  rfl

/-- As long as nobody holds a delivery, nobody has claimed one. -/
theorem not_claimed_of_unlocked (hunlocked : t.locked = false) (g : Nat) :
    (t.docket h key).place g ≠ .claimed := by
  intro hclaimed
  change t.placeOf key g = .claimed at hclaimed
  unfold placeOf at hclaimed
  split at hclaimed
  · rename_i e he
    split at hclaimed
    · cases hp : t.position? (.evaluation e.generation) with
      | none =>
        rw [stands, hp] at hclaimed
        cases hstage : e.stage <;> simp [hstage, Stage.place] at hclaimed
      | some p =>
        rw [stands, hp] at hclaimed
        cases p with
        | claimed report next =>
          obtain ⟨q, hq, hqp⟩ := Option.map_eq_some_iff.mp hp
          have hmem := List.mem_of_find?_eq_some hq
          have hfound := List.find?_some hq
          simp only [beq_iff_eq] at hfound
          have hlocked : t.locked = true := by
            rw [locked, List.any_eq_true]
            refine ⟨q, hmem, ?_⟩
            obtain ⟨task, position⟩ := q
            cases hqp
            cases hfound
            rfl
          cases hunlocked.symm.trans hlocked
        | admitted => cases hclaimed
        | asks | drawn | entered | handed | recorded | looks =>
          cases hstage : e.stage <;> simp [hstage, Stage.place, Position.place?] at hclaimed
    · cases hclaimed
  · split at hclaimed <;> cases hclaimed

section Pieces

variable (ho : t.Orderly h)

include ho

/-- An evaluation that goes on to other cells takes a piece of its step. -/
theorem placeOf_spreading {p : Position} (hp : t.position? (.evaluation g) = some p)
    (hplace : p.place? = none)
    (hgoes : ∀ e keys, t.state.evaluation? g = some e → e.stage = .spreading keys →
      ∃ e' keys', t'.state.evaluation? g = some e' ∧ e'.key = e.key ∧ e'.stage = .spreading keys')
    (hp' : ∀ p', t'.position? (.evaluation g) = some p' → p'.place? = none) (key : CellKey) :
    t'.placeOf key g = t.placeOf key g := by
  obtain ⟨e, keys, he, hstage, -⟩ := ho.spreading g p hp
  obtain ⟨e', keys', he', hkey, hstage'⟩ := hgoes e keys he hstage
  have hg := State.generation_of_evaluation? he
  have hg' := State.generation_of_evaluation? he'
  have hstands : t.stands e = .leaving := by
    refine stands_spreading hstage fun q hq => ?_
    rw [hg, hp] at hq
    obtain rfl := Option.some.inj hq
    exact hplace
  have hstands' : t'.stands e' = .leaving :=
    stands_spreading hstage' fun q hq => hp' q (by rwa [hg'] at hq)
  simp only [placeOf, he, he', hkey, hstands, hstands']

/-- A task takes a piece of its step that is nothing to any cell. -/
theorem placeOf_piece (hothers : ∀ other, other ≠ task → t'.position? other = t.position? other)
    (hplain : t.Plain task) (hplain' : t'.Plain task)
    (hevaluations : ∀ g, .evaluation g ≠ task → t'.state.evaluation? g = t.state.evaluation? g)
    {p : Position} (hp : t.position? task = some p) (hplace : p.place? = none)
    (hgoes : ∀ g, task = .evaluation g → ∀ e keys, t.state.evaluation? g = some e →
      e.stage = .spreading keys →
      ∃ e' keys', t'.state.evaluation? g = some e' ∧ e'.key = e.key ∧ e'.stage = .spreading keys')
    (hp' : ∀ p', t'.position? task = some p' → p'.place? = none) (key : CellKey) (g : Nat) :
    t'.placeOf key g = t.placeOf key g := by
  by_cases hg : .evaluation g = task
  · subst hg
    exact placeOf_spreading ho hp hplace (hgoes g rfl) hp' key
  · exact placeOf_others hothers hplain hplain' hg (hevaluations g hg)

/-- A task goes from one stand to another, which are nothing to any cell. -/
theorem docket_stand {p p' : Position} (hp : t.position? task = some p)
    (hplain : ∀ key g previous told, p ≠ .entered key g previous told) (hplace : p.place? = none)
    (hplain' : ∀ key g previous told, p' ≠ .entered key g previous told)
    (hplace' : p'.place? = none) (hevaluations : s'.evaluations = t.state.evaluations)
    (hledger : s'.ledger = t.state.ledger) (key : CellKey) :
    ((t.stand task p').withState s').docket (h ++ (none : Option Happening).toList) key
      = t.docket h key := by
  have hstands : ((t.stand task p').withState s').position? task = some p' := position?_stand_self
  have hsame : ∀ g, s'.evaluation? g = t.state.evaluation? g := State.evaluation?_congr hevaluations
  have hothers : ∀ other, other ≠ task →
      ((t.stand task p').withState s').position? other = t.position? other :=
    fun _ hne => position?_stand_of_ne hne
  refine docket_still hledger (by simp) (placeOf_piece ho hothers (.of_position hp hplain)
    (.of_position hstands hplain') (fun g _ => hsame g) hp hplace
    (fun g _ e keys he hstage => ⟨e, keys, (hsame g).trans he, rfl, hstage⟩) (fun q hq => ?_) key)
  obtain rfl := Option.some.inj (hq.symm.trans hstands)
  exact hplace'

/-- A task comes to the end of its step, where it stood as nothing to any cell. -/
theorem docket_leave {p : Position} (hp : t.position? task = some p)
    (hplain : ∀ key g previous told, p ≠ .entered key g previous told) (hplace : p.place? = none)
    (hevaluations : ∀ g, .evaluation g ≠ task → s'.evaluation? g = t.state.evaluation? g)
    (hgoes : ∀ g, task = .evaluation g → ∀ e keys, t.state.evaluation? g = some e →
      e.stage = .spreading keys →
      ∃ e' keys', s'.evaluation? g = some e' ∧ e'.key = e.key ∧ e'.stage = .spreading keys')
    (hledger : s'.ledger = t.state.ledger) (hx : ∀ y, x = some y → y.quiet = true)
    (key : CellKey) :
    ((t.leave task).withState s').docket (h ++ x.toList) key = t.docket h key := by
  have hothers : ∀ other, other ≠ task →
      ((t.leave task).withState s').position? other = t.position? other :=
    fun _ hne => position?_leave_of_ne hne
  refine docket_still hledger (notesOf_quiet hx) (placeOf_piece ho hothers (.of_position hp hplain)
    (.of_free position?_leave_self) hevaluations hp hplace hgoes (fun q hq => ?_) key)
  cases position?_leave_self.symm.trans hq

/-! ### An evaluation is entered -/

variable {fanOut : List String} {asker : Task}

omit ho in
/-- Who has entered an evaluation: those who had, and now this task. -/
theorem unlaunched_enter {previous : Option Request} {s : State} {n : Nat} {other : CellKey}
    (hp : t.position? asker = some (.drawn key fanOut g)) :
    ((t.stand asker (.entered key g previous false)).withState s).Unlaunched other n ↔
      t.Unlaunched other n ∨ key = other ∧ g = n := by
  constructor
  · rintro ⟨task, old, told, htask⟩
    rcases position_of_stand htask with ⟨-, heq⟩ | ⟨-, hold⟩
    · cases heq
      exact .inr ⟨rfl, rfl⟩
    · exact .inl ⟨task, old, told, hold⟩
  · rintro (⟨task, old, told, htask⟩ | ⟨rfl, rfl⟩)
    · have hne : task ≠ asker := by
        rintro rfl
        cases hp.symm.trans htask
      exact ⟨task, old, told, (position?_stand_of_ne hne).trans htask⟩
    · exact ⟨asker, previous, false, position?_stand_self⟩

omit ho in
/-- Whoever is not the one that is entered stays where it is. -/
theorem placeOf_enter_of_ne {previous : Option Request} {s : State} {n : Nat}
    (hp : t.position? asker = some (.drawn key fanOut g))
    (hevaluations : ∀ n, s.evaluation? n = t.state.evaluation? n) {other : CellKey}
    (hne : ¬(key = other ∧ g = n)) :
    ((t.stand asker (.entered key g previous false)).withState s).placeOf other n
      = t.placeOf other n := by
  refine placeOf_congr (hevaluations n) (fun e he => ?_)
    fun _ => (unlaunched_enter hp).trans (or_iff_left hne)
  obtain rfl := State.generation_of_evaluation? he
  by_cases hasker : .evaluation e.generation = asker
  · subst hasker
    have hown : ((t.stand (.evaluation e.generation) (.entered key g previous false)).withState
        s).position? (.evaluation e.generation) = some (.entered key g previous false) :=
      position?_stand_self
    rw [stands, stands, hp, hown]
    rfl
  · have hsame : ((t.stand asker (.entered key g previous false)).withState s).position?
        (.evaluation e.generation) = t.position? (.evaluation e.generation) :=
      position?_stand_of_ne hasker
    rw [stands, stands, hsame]

/-- An evaluation that was just entered waits. -/
theorem docket_enter (hp : t.position? asker = some (.drawn key fanOut g)) (other : CellKey) :
    (t.docket h other).Follows strict
      (((t.stand asker (.entered key g (t.state.ledger.current? key) false)).withState
        (t.state.enter key g fanOut)).docket (h ++ [.asked asker key g fanOut]) other) := by
  have hothers : ∀ {n}, ¬(key = other ∧ g = n) →
      ((t.stand asker (.entered key g (t.state.ledger.current? key) false)).withState
        (t.state.enter key g fanOut)).placeOf other n = t.placeOf other n :=
    fun hne => placeOf_enter_of_ne hp (fun _ => rfl) hne
  by_cases hkey : key = other
  · subst hkey
    right
    have hplace : ((t.stand asker (.entered key g (t.state.ledger.current? key) false)).withState
        (t.state.enter key g fanOut)).placeOf key = Function.update (t.placeOf key) g .waiting := by
      funext n
      by_cases hng : n = g
      · subst hng
        rw [Function.update_self]
        exact placeOf_unlaunched (ho.gone_of_drawn hp) ((unlaunched_enter hp).mpr (.inr ⟨rfl, rfl⟩))
      · rw [hothers fun h => hng h.2.symm, Function.update_of_ne hng]
    have hlog : notesOf key (h ++ [.asked asker key g fanOut]) = notesOf key h ++ [.asked g] := by
      simp [notesOf_concat, Happening.note?]
    have hafter : ((t.stand asker (.entered key g (t.state.ledger.current? key) false)).withState
        (t.state.enter key g fanOut)).docket (h ++ [.asked asker key g fanOut]) key =
        { (t.docket h key).goes g .waiting with
          entry := some (((t.docket h key).entry.getD {}).request g fanOut)
          log := (t.docket h key).log ++ [.asked g] } := by
      rw [docket, hplace, hlog, state_withState, State.enter, Ledger.find?_request_self]
      rfl
    rw [hafter]
    exact .ask fanOut fun hasked => (ho.drawn asker key fanOut g hp).2 key (mem_askedOf.mp hasked)
  · left
    have hplace : ((t.stand asker (.entered key g (t.state.ledger.current? key) false)).withState
        (t.state.enter key g fanOut)).placeOf other = t.placeOf other :=
      funext fun n => hothers fun h => hkey h.1
    have hlog : notesOf other (h ++ [.asked asker key g fanOut]) = notesOf other h := by
      simp [notesOf_concat, Happening.note?, hkey]
    rw [docket, docket, hplace, hlog, state_withState, State.enter,
      Ledger.find?_request_of_ne (Ne.symm hkey)]

/-! ### An evaluation begins -/

variable {previous : Option Request} {told : Bool}

omit ho in
/-- Another one was entered by somebody before if and only if it was afterwards. -/
theorem unlaunched_launch (hp : t.position? task = some (.entered key g previous told))
    (other : CellKey) {n : Nat} (hne : n ≠ g) :
    ((t.leave task).launch u key g previous told).Unlaunched other n ↔ t.Unlaunched other n := by
  constructor
  · rintro ⟨task', previous', told', hp'⟩
    obtain ⟨-, p₀, hp₀, hstood⟩ := stood_of_launch hp'
    obtain ⟨was, rfl⟩ := hstood.entered _ _ _ _ rfl
    exact ⟨task', previous', was, hp₀⟩
  · rintro ⟨task', previous', told', hp'⟩
    have htask : task' ≠ task := by
      rintro rfl
      cases hp.symm.trans hp'
      exact hne rfl
    have hstood := (position?_leave_of_ne htask).trans hp'
    rcases position?_launch (u := u) (t.leave task) key g previous told task' with hsame |
      ⟨r, -, htold⟩
    · exact ⟨task', _, _, hsame.trans hstood⟩
    · exact ⟨task', previous', told' || n == r.generation, by rw [htold, hstood]; rfl⟩

omit ho in
/-- Who stands about to be reported stands there still. -/
theorem place_launch (hp : t.position? task = some (.entered key g previous told)) (other : Task) :
    (((t.leave task).launch u key g previous told).position? other).bind Position.place?
      = (t.position? other).bind Position.place? := by
  by_cases hother : other = task
  · have hnone : ((t.leave task).launch u key g previous told).position? task = none :=
      position_launch_none position?_leave_self
    rw [hother, hnone, hp]
    rfl
  · rcases position?_launch (u := u) (t.leave task) key g previous told other with hsame |
      ⟨r, -, htold⟩
    · rw [hsame, position?_leave_of_ne hother]
    · rw [htold, position?_leave_of_ne hother]
      cases t.position? other with
      | none => rfl
      | some p => cases p <;> rfl

/-- The one that begins waits. -/
theorem placeOf_launch_self (hp : t.position? task = some (.entered key g previous told))
    (other : CellKey) :
    ((t.leave task).launch u key g previous told).placeOf other g = t.placeOf other g := by
  obtain ⟨-, hgone⟩ := ho.entered task key g previous told hp
  obtain ⟨e, he, hkey, hstage, -⟩ := evaluation?_launch_self (u := u) (t := t.leave task)
    key previous told hgone
  by_cases hother : key = other
  · subst hother
    have hunplaced : (t.position? (.evaluation g)).bind Position.place? = none := by
      cases hp' : t.position? (.evaluation g) with
      | none => rfl
      | some p =>
        obtain ⟨f, -, hf, -⟩ := ho.spreading g p hp'
        cases hgone.symm.trans hf
    have hwaits : ((t.leave task).launch u key g previous told).stands e = .waiting := by
      rw [stands, State.generation_of_evaluation? he, place_launch hp, hunplaced, hstage]
      rfl
    rw [placeOf_unlaunched hgone ⟨task, previous, told, hp⟩]
    simp only [placeOf, he, hkey, if_true, hwaits]
  · rw [placeOf_of_other he (hkey ▸ hother)]
    refine (placeOf_away hgone ?_).symm
    rintro ⟨task', previous', told', hp'⟩
    obtain rfl := ho.enteredOnce task' task other key g previous' previous told' told hp' hp
    cases hp.symm.trans hp'
    exact hother rfl

/-- One that was entered waits once it has begun, and nobody else moves. -/
theorem placeOf_launch (hp : t.position? task = some (.entered key g previous told))
    (other : CellKey) (n : Nat) :
    ((t.leave task).launch u key g previous told).placeOf other n = t.placeOf other n := by
  by_cases hng : n = g
  · rw [hng]
    exact placeOf_launch_self ho hp other
  have hstill := unlaunched_launch (u := u) hp other hng
  cases he : t.state.evaluation? n with
  | none =>
    have he' := evaluation?_launch_of_ne (u := u) (t := t.leave task) key previous told he hng
    by_cases hu : t.Unlaunched other n
    · rw [placeOf_unlaunched he hu, placeOf_unlaunched he' (hstill.mpr hu)]
    · rw [placeOf_away he hu, placeOf_away he' (hstill.not.mpr hu)]
  | some e =>
    obtain ⟨e', he', hkey, hstage, -⟩ := evaluation?_launch_of_some (u := u) (t := t.leave task)
      (g := g) key previous told he
    have hstands : ((t.leave task).launch u key g previous told).stands e' = t.stands e := by
      rw [stands, stands, State.generation_of_evaluation? he, State.generation_of_evaluation? he',
        hstage, place_launch hp]
    simp only [placeOf, he, he', hkey, hstands]

/-! ### A report is delivered -/

/-- An evaluation that goes on to the next cell is over with its own. -/
theorem docket_spreads {k : CellKey} {keys : List CellKey}
    (hknown : t.state.evaluation? e.generation = some e)
    (hfree : t.position? (.evaluation e.generation) = none)
    (hstage : e.stage = .spreading (k :: keys)) (key : CellKey) :
    (t.docket h key).Follows strict (((t.stand (.evaluation e.generation) (.asks k [])).withState
      (t.state.setStage e (.spreading keys))).docket (h ++ (none : Option Happening).toList)
        key) := by
  have hm : t.Moves e .leaving ((t.stand (.evaluation e.generation) (.asks k [])).withState
      (t.state.setStage e (.spreading keys))) :=
    .stands hknown (.of_free hfree) (fun g hg => State.evaluation?_setStage_of_ne hg _) (by simp)
      ⟨_, State.evaluation?_setStage hknown, rfl, rfl, rfl⟩
  refine hm.follows ho (fun _ _ => rfl) (fun _ _ => by simp) (.inl ?_) key
  rw [Option.toList_none, List.append_nil]
  exact Docket.goes_same ((place_free hknown hfree).trans (by rw [hstage]; rfl))

/-- An evaluation that nobody told to stop is about to claim its delivery. -/
theorem docket_admits {report : CellReport} {rows : Dataset} {fanOut : List String}
    (hknown : t.state.evaluation? e.generation = some e)
    (hfree : t.position? (.evaluation e.generation) = none)
    (hstage : e.stage = .settled (.ok (report, rows)) fanOut) (key : CellKey) :
    (t.docket h key).Follows strict (((t.stand (.evaluation e.generation)
      (.admitted report ⟨e.key, fanOut, rows⟩)).withState
        (t.state.setStage e (.spreading []))).docket (h ++ (none : Option Happening).toList)
          key) := by
  have hm : t.Moves e .admitted ((t.stand (.evaluation e.generation)
      (.admitted report ⟨e.key, fanOut, rows⟩)).withState (t.state.setStage e (.spreading []))) :=
    .stands hknown (.of_free hfree) (fun g hg => State.evaluation?_setStage_of_ne hg _) (by simp)
      ⟨_, State.evaluation?_setStage hknown, rfl, rfl, rfl⟩
  refine hm.follows ho (fun _ _ => rfl) (fun _ _ => by simp) (.inr ?_) key
  rw [Option.toList_none, List.append_nil]
  exact .allow ((place_free hknown hfree).trans (by rw [hstage]; rfl))

/-- It claims the delivery. -/
theorem docket_claims {report : CellReport} {next : Following} {ledger : Ledger}
    (hknown : t.state.evaluation? e.generation = some e)
    (hp : t.position? (.evaluation e.generation) = some (.admitted report next))
    (hunlocked : t.locked = false)
    (hnewest : t.state.ledger.claim? e.key e.generation = some ledger) (key : CellKey) :
    (t.docket h key).Follows strict (((t.stand (.evaluation e.generation)
      (.claimed report next)).withState { t.state with ledger }).docket
        (h ++ (none : Option Happening).toList) key) := by
  obtain ⟨c, hc, holder, rfl⟩ := Ledger.claim?_eq_some.mp hnewest
  have hm : t.Moves e .claimed ((t.stand (.evaluation e.generation)
      (.claimed report next)).withState { t.state with
        ledger := t.state.ledger.set e.key { c with delivered := some e.generation } }) :=
    .stands hknown (.of_position hp (by simp)) (fun _ _ => rfl) (by simp)
      ⟨e, hknown, rfl, rfl, rfl⟩
  refine hm.follows ho (fun _ hkey => Ledger.find?_set_of_ne (Ne.symm hkey)) (fun _ _ => by simp)
    (.inr ?_) key
  rw [Option.toList_none, List.append_nil, state_withState, Ledger.find?_set_self]
  exact .claim (placeOf_admitted hknown hp) (not_claimed_of_unlocked hunlocked) hc holder

/-- It comes too late. -/
theorem docket_outdone {report : CellReport} {next : Following}
    (hknown : t.state.evaluation? e.generation = some e)
    (hp : t.position? (.evaluation e.generation) = some (.admitted report next))
    (hunlocked : t.locked = false) (holder : t.state.ledger.claim? e.key e.generation = none)
    (hx : ∀ y, x = some y → y.quiet = true) (key : CellKey) :
    (t.docket h key).Follows strict (((t.leave (.evaluation e.generation)).withState
      (e.leaveOut u t.state)).docket (h ++ x.toList) key) := by
  have hm : t.Moves e .leaving
      ((t.leave (.evaluation e.generation)).withState (e.leaveOut u t.state)) :=
    .leaves hknown (.of_position hp (by simp)) (fun g hg => State.evaluation?_leaveOut_of_ne hg)
      ⟨_, State.evaluation?_leaveOut_self hknown, rfl, rfl, rfl⟩
  have hledger : (e.leaveOut u t.state).ledger = t.state.ledger :=
    (State.alike_leaveOut u t.state e).ledger
  refine hm.follows ho (fun _ _ => by rw [state_withState, hledger])
    (fun _ _ => notesOf_quiet hx) (.inr ?_) key
  rw [notesOf_quiet hx, state_withState, hledger]
  exact .outdo (placeOf_admitted hknown hp) (not_claimed_of_unlocked hunlocked)
    fun c hc => Ledger.claim?_eq_none holder hc

/-- It hands its report to the sink. -/
theorem docket_hands {report : CellReport} {next : Following}
    (hp : t.position? task = some (.claimed report next)) (key : CellKey) :
    (t.docket h key).Follows strict (((t.stand task
      (.handed next.key report (some next))).withState (t.state.hand report)).docket
        (h ++ [.reported task next.key report.verdict]) key) := by
  obtain ⟨g, rfl⟩ := ho.reporting task _ hp (by simp [Position.next?])
  obtain ⟨e, keys, he, hstage, hnext⟩ := ho.spreading g _ hp
  obtain rfl := State.generation_of_evaluation? he
  rw [hnext next rfl]
  have hm : t.Moves e .leaving ((t.stand (.evaluation e.generation)
      (.handed e.key report (some next))).withState (t.state.hand report)) :=
    .stands he (.of_position hp (by simp)) (fun _ _ => rfl) (by simp)
      ⟨e, he, rfl, rfl, by rw [hstage]; rfl⟩
  have hplace : (t.docket h e.key).place e.generation = .claimed := by
    refine (placeOf_of_evaluation he).trans ?_
    rw [stands, hp]
    rfl
  refine hm.follows (x := some _) ho (fun _ _ => rfl) (fun other hkey => ?_) (.inr ?_) key
  · simp [notesOf_concat, Happening.note?, hkey]
  · have hlog : notesOf e.key (h ++ [.reported (.evaluation e.generation) e.key report.verdict])
        = notesOf e.key h ++ [.reported e.generation] := by
      simp [notesOf_concat, Happening.note?]
    rw [Option.toList_some, hlog]
    exact .hand hplace

end Pieces

/-! ## Turns -/

/-- Nobody who closes the watch has forgotten what was pending. -/
def Unforgotten (t : Threads) : Prop := ∀ c ∈ t.closers, c = .told ∨ c = .barred

/-- Every turn leaves the docket of a cell as it is, takes it one step further, or forgets its
entry. -/
theorem Effect.docket (strict : Bool) (ho : t.Orderly h)
    (hw : t.state.closed = false → t.Wanted h) (hg : t.Gate)
    (hstrict : strict = true → t'.state.closed = false ∧ ∀ y, x = some y → y.isProblem = false)
    (heffect : Effect u t x t') (key : CellKey) :
    (t.docket h key).Follows strict (t'.docket (h ++ x.toList) key) ∨ (¬t'.Unforgotten ∧
      t'.docket (h ++ x.toList) key = { t.docket h key with entry := none }) := by
  cases heffect with
  | strides hknown hfree hstride =>
    exact .inl (docket_stride ho hknown hfree hw hg hstrict hstride key)
  | spreads hknown hfree hstage => exact .inl (docket_spreads ho hknown hfree hstage key)
  | admits hknown hfree hstage => exact .inl (docket_admits ho hknown hfree hstage key)
  | @opens c s p _ hfree hfirst =>
    obtain ⟨hevaluations, -, hledger, -⟩ := hfirst.kept
    have hplain' : ∀ key g previous told, p ≠ .entered key g previous told := by
      rintro key g previous told rfl
      cases hfirst.position.1
    refine .inl (.inl (docket_still hledger (notesOf_quiet fun y hy => ?_) fun g =>
      placeOf_others (fun _ hne => position?_stand_of_ne hne) (.of_free hfree)
        (.of_position (t := (t.stand (.call c.id) p).withState s) position?_stand_self hplain')
        (by simp) (State.evaluation?_congr hevaluations g)))
    cases p with
    | handed => cases hy; rfl
    | asks | drawn | entered | admitted | claimed | recorded | looks => cases hy
  | draws hp | records hp =>
    exact .inl (.inl (docket_stand ho hp (by simp) rfl (by simp) rfl rfl rfl key))
  | enters hp => exact .inl (docket_enter ho hp key)
  | launches hp =>
    exact .inl (.inl (docket_still (alike_launch ..).ledger (by simp) (placeOf_launch ho hp key)))
  | claims hknown hp hunlocked hnewest =>
    exact .inl (docket_claims ho hknown hp hunlocked hnewest key)
  | outdone hknown hp hunlocked holder =>
    exact .inl (docket_outdone ho hknown hp hunlocked holder (fun y hy => by cases hy; rfl) key)
  | hands hp => exact .inl (docket_hands ho hp key)
  | concludes hp =>
    exact .inl (.inl (docket_leave ho hp (by simp) rfl (fun _ _ => rfl)
      (fun g _ e keys he hstage => ⟨e, keys, he, rfl, hstage⟩) rfl (by simp) key))
  | @follows task next hp =>
    have hfollows := t.state.follows u next task
    refine .inl (.inl (docket_leave ho hp (by simp) rfl (fun g hg => hfollows.others hg)
      (fun g htask e keys he hstage => ?_) hfollows.ledger (by simp) key))
    subst htask
    rcases hfollows.own he with hsame | ⟨keys', hsame⟩
    · exact ⟨e, keys, hsame, rfl, hstage⟩
    · exact ⟨_, keys', hsame, rfl, rfl⟩
  | looks _ hp =>
    exact .inl (.inl (docket_leave ho hp (by simp) rfl (fun _ _ => rfl) (by simp) rfl
      (fun y hy => by cases hy; rfl) key))
  | calls hknown _ hwhole hseen hadvance =>
    obtain ⟨hevaluations, hgeneration, hledger⟩ := hadvance.kept hknown hwhole
    refine .inl (.inl (docket_still hledger (notesOf_quiet fun y hy => ?_) fun g =>
      placeOf_congr (State.evaluation?_congr hevaluations g) (fun _ _ => rfl) fun _ => .rfl))
    rcases hseen with rfl | rfl
    · cases hy
    · exact Call.quiet_of_seen hgeneration hy
  | outside houter hm =>
    obtain ⟨hevaluations, -, hledger⟩ := Move.kept_of_outer houter hm
    exact .inl (.inl (docket_still hledger (notesOf_quiet (Move.quiet_of_outer houter)) fun g =>
      placeOf_congr (State.evaluation?_congr hevaluations g) (fun _ _ => rfl) fun _ => .rfl))
  | tellsAll | bars | announces =>
    exact .inl (.inl (docket_still rfl (notesOf_quiet fun y hy => by cases hy <;> rfl) fun g =>
      placeOf_congr rfl (fun _ _ => rfl) fun _ => .rfl))
  | @forgets closer hbarred =>
    have hlt := (List.getElem?_eq_some_iff.mp hbarred).1
    refine .inr ⟨fun hearly => ?_, ?_⟩
    · rcases hearly _ (List.mem_set hlt _) with hearly | hearly <;> cases hearly
    · rw [Option.toList_none, List.append_nil]
      rfl

end Threads

end CellRules.Watch
