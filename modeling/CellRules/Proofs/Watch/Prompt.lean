/-
CellRules.Proofs.Watch.Prompt — all that a move can do where edited cells are judged at once.

Such a watch has no evaluations under way: whoever tells of an edit judges the cells, one job after
the other. `Prompt` gathers how these calls go on (`EditCourse`) with the runs over all rows, which
go on as everywhere (`CallCourse`), and with what comes from outside. `move?_prompt` reads the list
off `State.move?` ONCE.

`Calm` is what all of that leaves as it is: nothing is closed, no evaluation is under way, calls are
known by their number, and the flagged cells are those whose latest verdict fails.
-/
import CellRules.Proofs.Watch.Delivery

namespace CellRules.Watch

variable {u : Setup} {s s' t : State} {c : Call} {stage : CallStage} {m : Move}

/-- What a move may do to an open watch that judges edited cells at once. -/
inductive Prompt (u : Setup) (s : State) : Move → State → Prop
  | write {s' : State} {row : Nat} {column : String} {cell : Cell} {grid : Grid}
      (set : s.grid.set row column cell = .ok grid) (state : s'.Alike { s with grid }) :
      Prompt u s (.setCell row column cell) s'
  | push {s' : State} {values : List (String × Cell)}
      (state : s'.Alike { s with grid := s.grid.push values }) : Prompt u s (.pushRow values) s'
  | tell {s' : State} {row : Nat} {column : String}
      (state : s'.Alike (s.addCall
        (.editing column ((u.editTargets column).map fun c => ⟨⟨row, c⟩, true⟩) none))) :
      Prompt u s (.edit row column) s'
  | askAll {s' : State} (state : s'.Alike (s.addCall .called)) : Prompt u s .validateAll s'
  | close {s' : State} (state : s' = s.shutDown u) : Prompt u s .shutDown s'
  | wait {s' : State} {millis : Nat} (state : s'.Alike s) : Prompt u s (.pass millis) s'
  | edit {c : Call} {s' : State} {task : Task} (known : s.call? c.id = some c)
      (course : EditCourse u s c s') : Prompt u s (.step task) s'
  | call {c : Call} {x : Option Happening} {s' : State} {task : Task}
      (known : s.call? c.id = some c) (course : CallCourse u s c x s') : Prompt u s (.step task) s'

/-- In an open watch that judges edited cells at once and has no evaluation under way, a move does
one of the things in `Prompt`. -/
theorem State.move?_prompt (atOnce : u.ruleSet.throttle.background = false)
    (hopen : s.closed = false) (hnone : s.evaluations = []) (hm : s.move? u m = some s') :
    Prompt u s m s' := by
  cases m with
  | setCell row column cell =>
    obtain ⟨grid, hset, rfl⟩ := set_of_move? hm
    exact .write hset (.refl _)
  | pushRow values =>
    obtain rfl := Option.some.inj hm
    exact .push (.refl _)
  | edit row column =>
    simp only [move?, tellEdit, hopen, Bool.false_eq_true, if_false, Option.some.injEq] at hm
    subst hm
    exact .tell (.refl _)
  | validateAll =>
    obtain rfl := Option.some.inj hm
    exact .askAll (.refl _)
  | shutDown => exact .close (Option.some.inj hm).symm
  | pass millis =>
    obtain rfl := Option.some.inj hm
    exact .wait ⟨rfl, rfl, rfl, rfl, rfl, rfl, rfl, rfl, rfl⟩
  | step task =>
    cases task with
    | evaluation generation => simp [move?, step?, evaluation?, hnone] at hm
    | call id =>
      obtain ⟨c, rfl, hc, hadvance⟩ := call_of_step? hm
      rcases hadvance.split hc with ⟨background, -⟩ | hedit | hcall
      · rw [atOnce] at background
        cases background
      · exact .edit hc hedit
      · exact .call hc hcall
    | strand id strand =>
      obtain ⟨c, hc, hcourse⟩ := course_of_strand hm
      exact .call hc hcourse
  | takeSlot generation => simp [move?, evaluation?, hnone] at hm

/-! ## What such a watch keeps -/

/-- Nothing is closed, no evaluation is under way, calls are numbered as they came, and the flagged
cells are those whose latest verdict fails. -/
structure Calm (s : State) : Prop where
  isOpen : s.closed = false
  slots : s.limiter.closed = false
  alone : s.evaluations = []
  flags : s.FlagsFailures
  ids : s.Numbered

namespace Calm

theorem start (u : Setup) (grid : Grid) : Calm (.start u grid) where
  isOpen := rfl
  slots := rfl
  alone := rfl
  flags key := by simp [State.start, State.sink, Sink.latest?, Sink.forCell]
  ids := rfl

theorem alike (h : Calm t) (hs : s.Alike t) : Calm s where
  isOpen := hs.closed.trans h.isOpen
  slots := hs.limiterClosed.trans h.slots
  alone := hs.evaluations.trans h.alone
  flags key := by
    rw [hs.flagged, State.sink, hs.deliveries]
    exact h.flags key
  ids := h.ids.congr hs.calls

theorem goTo (h : Calm s) (c : Call) (stage : CallStage) : Calm (Call.goTo s c stage) where
  isOpen := h.isOpen
  slots := h.slots
  alone := h.alone
  flags := h.flags
  ids := h.ids.goTo c stage

theorem addCall (h : Calm s) (stage : CallStage) : Calm (s.addCall stage) where
  isOpen := h.isOpen
  slots := h.slots
  alone := h.alone
  flags := h.flags
  ids := h.ids.addCall stage

theorem deliver (h : Calm s) (u : Setup) (r : CellReport) : Calm (s.deliver u r) :=
  ⟨h.isOpen, h.slots, h.alone, h.flags.deliver r, h.ids⟩

theorem withGrid (h : Calm s) (grid : Grid) : Calm { s with grid } :=
  ⟨h.isOpen, h.slots, h.alone, h.flags, h.ids⟩

theorem courseOfEdit (h : Calm s) (hcourse : EditCourse u s c s') : Calm s' := by
  cases hcourse with
  | @judged _ _ _ _ report _ _ _ hs => exact ((h.deliver u report).goTo c _).alike hs
  | take _ _ hs | work _ _ hs | failed _ _ _ hs => exact (h.goTo c _).alike hs

theorem courseOfCall {x : Option Happening} (h : Calm s) (hcourse : CallCourse u s c x s') :
    Calm s' := by
  cases hcourse with
  | @deliver _ cell _ _ _ hs => exact ((h.deliver u cell).goTo c _).alike hs
  | told _ hs | survey _ _ hs | look _ _ hs | found _ _ hs | strand _ _ hs | judged _ _ hs
  | conclude _ hs | refuse _ hs => exact (h.goTo c _).alike hs

/-- All that does not close the watch keeps it so. -/
theorem step (h : Calm s) (hm : m ≠ .shutDown) (hprompt : Prompt u s m s') : Calm s' := by
  cases hprompt with
  | @write _ _ _ _ grid _ hs => exact (h.withGrid grid).alike hs
  | @push _ values hs => exact (h.withGrid (s.grid.push values)).alike hs
  | tell hs | askAll hs => exact (h.addCall _).alike hs
  | close _ => exact absurd rfl hm
  | wait hs => exact h.alike hs
  | edit _ hcourse => exact h.courseOfEdit hcourse
  | call _ hcourse => exact h.courseOfCall hcourse

end Calm

end CellRules.Watch
