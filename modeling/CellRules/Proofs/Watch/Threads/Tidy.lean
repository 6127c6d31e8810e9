/-
CellRules.Proofs.Watch.Threads.Tidy — calls are in order when tasks run beside each other.

Calls are numbered as they came and at proper stages, the strands of their pools take whole steps, and
a call that stands within a step is at the stage where that step left it (`Position.Suits`). Every
turn keeps that (`Effect.tidy`).
-/
import CellRules.Proofs.Watch.Apart
import CellRules.Proofs.Watch.Threads.Reported

namespace CellRules.Watch

variable {u : Setup}

/-- The call is between two cells of an edit. -/
def CallStage.Between (stage : CallStage) : Prop := ∃ edited todo, stage = .editing edited todo none

/-- A call that stands there is at such a stage. One that goes on to other cells reported a cell for
which there are rules. -/
def Position.Suits (u : Setup) (stage : CallStage) : Position → Prop
  | .looks => stage = .called
  | .asks _ _ | .drawn _ _ _ | .entered _ _ _ _ => stage.Between
  | .handed _ _ none => stage.Between ∨ ∃ todo cells, stage = .delivering todo cells
  | .handed _ _ (some next) | .recorded next =>
    stage.Between ∧ u.ruleSet.rulesFor next.key.column ≠ []
  | .admitted _ _ | .claimed _ _ => False

theorem Position.not_suits_judging {pool : Pool (List CellReport)} {p : Position} :
    ¬p.Suits u (.judging pool) := by
  intro h
  cases p with
  | looks => cases h
  | asks | drawn | entered =>
    obtain ⟨_, _, h⟩ := h
    cases h
  | handed key report next =>
    cases next with
    | none => obtain ⟨_, _, h⟩ | ⟨_, _, h⟩ := h <;> cases h
    | some next =>
      obtain ⟨⟨_, _, h⟩, -⟩ := h
      cases h
  | recorded next =>
    obtain ⟨⟨_, _, h⟩, -⟩ := h
    cases h
  | admitted | claimed => exact h

namespace State

variable {s s' : State} {c : Call} {m : Move} {id : Nat}

/-- What comes from outside leaves calls that are there where they are. -/
theorem call?_of_outer (houter : m.outer = true) (hm : s.move? u m = some s')
    (hc : s.call? id = some c) : s'.call? id = some c := by
  cases m with
  | setCell row column cell =>
    obtain ⟨grid, -, rfl⟩ := set_of_move? hm
    exact hc
  | edit row column | validateAll =>
    obtain rfl := Option.some.inj hm
    exact call?_addCall hc
  | pushRow values | pass millis =>
    obtain rfl := Option.some.inj hm
    exact hc
  | shutDown | step task | takeSlot generation => cases houter

theorem Follows.calls_of_evaluation {g : Nat} (h : s.Follows (.evaluation g) s') :
    s'.calls = s.calls := by
  cases h with
  | evaluation _ state => exact state.calls
  | none => rfl

/-- A call goes on to cells of the same column. -/
theorem follow_call (next : Following) (hc : s.call? id = some c) {edited : String}
    {todo : List Job} {current : Option (Job × Running Judgement)}
    (hstage : c.stage = .editing edited todo current) :
    ∃ found : List Job, (∀ job ∈ found, job.key.column = next.key.column) ∧
      (s.follow u next (.call id)).Alike (Call.goTo s c (.editing edited (found ++ todo) current)) := by
  refine ⟨(s.peers u next.key next.edited next.rows).map fun key => ⟨key, false⟩, ?_, ?_⟩
  · intro job hjob
    obtain ⟨key, hkey, rfl⟩ := List.mem_map.mp hjob
    obtain ⟨row, -, rfl⟩ := List.mem_map.mp hkey
    rfl
  · simp only [follow, hc, hstage]
    exact Alike.goTo (alike_notePeers u s _ _ _) c _

end State

namespace Threads

variable {t₀ t t' : Threads} {x : Option Happening} {c : Call} {stage : CallStage}

structure Tidy (u : Setup) (t : Threads) : Prop where
  calls : t.state.Tidy u
  strands : ∀ id strand, t.position? (.strand id strand) = none
  stands : ∀ id p, t.position? (.call id) = some p →
    ∃ c, t.state.call? id = some c ∧ p.Suits u c.stage

/-- Calls that stand within a step go on as far as their stage allows. -/
def GoesOn (u : Setup) (t t' : Threads) : Prop :=
  ∀ task p, (∀ g, task ≠ .evaluation g) → t'.position? task = some p →
    ∃ p₀, t.position? task = some p₀ ∧ ∀ stage, p₀.Suits u stage → p.Suits u stage

namespace GoesOn

variable {task : Task} {p₀ p : Position} {s : State}

theorem of_same (hsame : ∀ task, t'.position? task = t.position? task) : t.GoesOn u t' :=
  fun task p _ hp => ⟨p, (hsame task).symm.trans hp, fun _ => id⟩

/-- A task goes on within its step. -/
theorem stand (hp₀ : t.position? task = some p₀)
    (hsuits : ∀ stage, p₀.Suits u stage → p.Suits u stage) :
    t.GoesOn u ((t.stand task p).withState s) := by
  intro other p' _ hp'
  rcases position_of_stand hp' with ⟨rfl, rfl⟩ | ⟨-, hold⟩
  · exact ⟨p₀, hp₀, hsuits⟩
  · exact ⟨p', hold, fun _ => id⟩

/-- Where evaluations stand is nothing to calls. -/
theorem stand_evaluation {g : Nat} : t.GoesOn u ((t.stand (.evaluation g) p).withState s) := by
  intro other p' hother hp'
  rcases position_of_stand hp' with ⟨rfl, -⟩ | ⟨-, hold⟩
  · exact absurd rfl (hother g)
  · exact ⟨p', hold, fun _ => id⟩

/-- A task comes to the end of its step. -/
theorem leave : t.GoesOn u ((t.leave task).withState s) :=
  fun _ p' _ hp' => ⟨p', (position_of_leave hp').2, fun _ => id⟩

theorem launch {key : CellKey} {g : Nat} {previous : Option Request} {told : Bool} :
    t.GoesOn u ((t.leave task).launch u key g previous told) := by
  intro other p' hother hp'
  rcases position_of_launch hp' with hold | ⟨k, n, old, was, is, hwas, rfl, -⟩
  · exact leave (s := t.state) other p' hother hold
  · exact ⟨_, (position_of_leave hwas).2, fun _ => id⟩

end GoesOn

namespace Tidy

variable (h : t.Tidy u)

include h

/-- No call moves. -/
theorem keep (hcalls : t'.state.calls = t.state.calls) (hback : t.GoesOn u t') : t'.Tidy u where
  calls := h.calls.congr hcalls
  strands id strand := by
    by_contra hsome
    obtain ⟨p, hp⟩ := Option.ne_none_iff_exists'.mp hsome
    obtain ⟨p₀, hp₀, -⟩ := hback _ p (by simp) hp
    cases (h.strands id strand).symm.trans hp₀
  stands id p hp := by
    obtain ⟨p₀, hp₀, hsuits⟩ := hback _ p (by simp) hp
    obtain ⟨c, hc, hstands⟩ := h.stands id p₀ hp₀
    exact ⟨c, (State.call?_congr hcalls).trans hc, hsuits _ hstands⟩

/-- A call moves on. -/
theorem goTo (hknown : t.state.call? c.id = some c)
    (hcalls : t'.state.calls = (Call.goTo t.state c stage).calls) (hproper : stage.Proper u)
    (hown : ∀ p, t'.position? (.call c.id) = some p → p.Suits u stage)
    (hothers : ∀ task, task ≠ .call c.id → t'.position? task = t.position? task) : t'.Tidy u where
  calls := (h.calls.goTo c hproper).congr hcalls
  strands id strand := (hothers _ (by simp)).trans (h.strands id strand)
  stands id p hp := by
    by_cases hid : id = c.id
    · subst hid
      exact ⟨_, (State.call?_congr hcalls).trans (State.call?_goTo_self hknown), hown p hp⟩
    · rw [hothers _ (by simpa using hid)] at hp
      obtain ⟨d, hd, hsuits⟩ := h.stands id p hp
      exact ⟨d, (State.call?_congr hcalls).trans ((State.call?_goTo_of_ne hid).trans hd), hsuits⟩

/-- A call that has had its report recorded goes on to the cells that follow from it. -/
theorem follows {id : Nat} {next : Following} (hp : t.position? (.call id) = some (.recorded next)) :
    ((t.leave (.call id)).withState (t.state.follow u next (.call id))).Tidy u := by
  obtain ⟨c, hc, ⟨edited, todo, hstage⟩, hruled⟩ := h.stands id _ hp
  obtain rfl := State.id_of_call? hc
  have hproper := h.calls.stages c (State.mem_of_call? hc)
  rw [hstage] at hproper
  obtain ⟨found, hfound, hs⟩ := State.follow_call (u := u) next hc hstage
  refine h.goTo hc hs.calls (fun job hjob => ?_) (fun p hp => ?_)
    fun _ hne => position?_leave_of_ne hne
  · rcases List.mem_append.mp hjob with hjob | hjob
    · rw [Job.Ruled, hfound job hjob]
      exact hruled
    · exact hproper job hjob
  · cases position?_leave_self.symm.trans hp

/-- A call takes a whole step. -/
theorem advance {s' : State} (hknown : t.state.call? c.id = some c)
    (hfree : t.position? (.call c.id) = none ∨ ∃ pool, c.stage = .judging pool)
    (hadvance : c.Advance u t.state s') : (t.withState s').Tidy u := by
  obtain ⟨s, stage, hapart, hs, hproper⟩ := hadvance.moves hknown
  refine h.goTo hknown (hs.calls.trans (by rw [Call.goTo, Call.goTo, hapart.calls]))
    (hproper (h.calls.stages _ (State.mem_of_call? hknown))) (fun p hp => ?_) fun _ _ => rfl
  rcases hfree with hfree | ⟨pool, hstage⟩
  · cases hfree.symm.trans hp
  · obtain ⟨d, hd, hsuits⟩ := h.stands _ p hp
    obtain rfl := Option.some.inj (hknown.symm.trans hd)
    rw [hstage] at hsuits
    exact absurd hsuits Position.not_suits_judging

end Tidy

theorem tidy_start (u : Setup) (grid : Grid) : (whole (.start u grid)).Tidy u where
  calls := .start u grid
  strands _ _ := rfl
  stands id p hp := by cases hp

/-- A call that takes the first piece of a step. -/
theorem Tidy.opens {s : State} {p : Position} (h : t.Tidy u)
    (hknown : t.state.call? c.id = some c) (hfirst : c.Opens u t.state s p) :
    ((t.stand (.call c.id) p).withState s).Tidy u := by
  have hproper := h.calls.stages c (State.mem_of_call? hknown)
  have hown : ∀ {stage : CallStage}, p.Suits u stage →
      ∀ p', ((t.stand (.call c.id) p).withState s).position? (.call c.id) = some p' →
        p'.Suits u stage := by
    intro stage hsuits p' hp'
    obtain rfl := Option.some.inj (position?_stand_self.symm.trans hp')
    exact hsuits
  have hothers : ∀ task, task ≠ .call c.id →
      ((t.stand (.call c.id) p).withState s).position? task = t.position? task :=
    fun _ hne => position?_stand_of_ne hne
  cases hfirst with
  | asks _ _ hstage =>
    rw [hstage] at hproper
    exact h.goTo hknown rfl (fun job hjob => hproper job (List.mem_cons_of_mem _ hjob))
      (hown ⟨_, _, rfl⟩) hothers
  | @judged edited todo job work report rows hstage _ =>
    rw [hstage] at hproper
    refine h.goTo hknown rfl (fun next hnext => hproper.2 next (List.mem_cons_of_mem _ hnext))
      (hown ?_) hothers
    cases job.spreads with
    | true => exact ⟨⟨_, _, rfl⟩, hproper.2 job List.mem_cons_self⟩
    | false => exact .inl ⟨_, _, rfl⟩
  | looks hstage =>
    refine ⟨h.calls, fun id strand => (hothers _ (by simp)).trans (h.strands id strand),
      fun id p hp => ?_⟩
    rcases position_of_stand hp with ⟨hid, rfl⟩ | ⟨-, hold⟩
    · obtain rfl := Task.call.inj hid
      exact ⟨c, hknown, hstage⟩
    · exact h.stands id p hold
  | delivers => exact h.goTo hknown rfl trivial (hown (.inr ⟨_, _, rfl⟩)) hothers

/-- Every turn keeps calls in order. -/
theorem Effect.tidy (h : t.Tidy u) (heffect : Effect u t x t') : t'.Tidy u := by
  cases heffect with
  | strides _ _ hstride => exact h.keep hstride.delivers_nothing.1 (.of_same fun _ => rfl)
  | spreads | admits | claims => exact h.keep rfl .stand_evaluation
  | opens hknown _ hfirst => exact h.opens hknown hfirst
  | draws hp | enters hp | records hp => exact h.keep rfl (.stand hp fun _ => id)
  | @launches task key g previous told =>
    exact h.keep (alike_launch (u := u) (t.leave task) key g previous told).calls .launch
  | @outdone e => exact h.keep (State.alike_leaveOut u t.state e).calls .leave
  | hands hp => exact h.keep rfl (.stand hp fun _ => False.elim)
  | concludes => exact h.keep rfl .leave
  | @follows task next hp =>
    cases task with
    | evaluation g =>
      exact h.keep (State.follows u t.state next (.evaluation g)).calls_of_evaluation .leave
    | call id => exact h.follows hp
    | strand id strand => cases (h.strands id strand).symm.trans hp
  | looks hknown _ =>
    refine h.goTo hknown rfl trivial (fun p hp => ?_) fun _ hne => position?_leave_of_ne hne
    cases position?_leave_self.symm.trans hp
  | calls hknown hfree _ _ hadvance => exact h.advance hknown hfree hadvance
  | outside houter hm =>
    refine ⟨h.calls.move? hm, h.strands, fun id p hp => ?_⟩
    obtain ⟨c, hc, hsuits⟩ := h.stands id p hp
    exact ⟨c, State.call?_of_outer houter hm hc, hsuits⟩
  | tellsAll | bars | forgets | announces => exact h.keep rfl (.of_same fun _ => rfl)

/-- Every run keeps calls in order. -/
theorem Run.tidy {h : List Happening} (run : Run u t h t') (ht : t.Tidy u) : t'.Tidy u := by
  induction run with
  | rest => exact ht
  | turn _ _ hturn ih => exact (effect_of_turn? hturn).tidy ih

end Threads

end CellRules.Watch
