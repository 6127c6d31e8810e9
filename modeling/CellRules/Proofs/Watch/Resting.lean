/-
CellRules.Proofs.Watch.Resting — nobody misses a word of rest.

One who waits until no cell is pending listens, looks at the ledger, and is blocked if cells are
pending; between any two of these steps the watch may move on as it likes. It hears every word of
rest given since it began to listen, so it cannot be blocked for good as long as no move empties the
ledger without such a word.

* `State.Calms s t` — on the way from `s` to `t` there was word of rest if the ledger was emptied.
  Every move is such a way (`State.calms_move?`).
* `Waiting u s w t v` — somebody who waits came from `w` to `v` while the watch came from `s` to `t`.
* `Waiting.not_stuck` — who is blocked over an empty ledger has been told.
* `Waiting.leaves`, `Waiting.held` — who came to wait leaves over an empty ledger, and is held only
  over one that is not.
-/
import CellRules.Proofs.Watch.Apart
import CellRules.Proofs.Watch.Ledger
import Mathlib.Logic.Relation

namespace CellRules.Watch

variable {u : Setup} {s s' t : State} {m : Move}

/-- Words of rest are not taken back, and there was one if the ledger is empty only at the end. -/
structure State.Calms (s t : State) : Prop where
  rests : s.rests ≤ t.rests
  word : t.ledger.isEmpty = true → s.ledger.isEmpty = true ∨ s.rests < t.rests

namespace State

theorem Calms.trans (h : s.Calms s') (h' : s'.Calms t) : s.Calms t where
  rests := Nat.le_trans h.rests h'.rests
  word hempty := by
    rcases h'.word hempty with hmid | hlt
    · exact (h.word hmid).imp_right fun hlt => Nat.lt_of_lt_of_le hlt h'.rests
    · exact .inr (Nat.lt_of_le_of_lt h.rests hlt)

/-- Ledger and words of rest stay as they are. -/
theorem Calms.same (hledger : t.ledger = s.ledger) (hrests : t.rests = s.rests) : s.Calms t where
  rests := Nat.le_of_eq hrests.symm
  word hempty := .inl (hledger ▸ hempty)

/-- The ledger is not empty afterwards. -/
theorem Calms.busy (hledger : t.ledger.isEmpty = false) (hrests : t.rests = s.rests) :
    s.Calms t where
  rests := Nat.le_of_eq hrests.symm
  word hempty := by rw [hledger] at hempty; cases hempty

/-- Whoever empties the ledger by finishing gives the word. -/
theorem calms_finish (s : State) (key : CellKey) (generation : Nat) :
    s.Calms (s.finish key generation) where
  rests := by
    unfold finish
    dsimp only
    split
    · exact Nat.le_succ _
    · exact Nat.le_refl _
  word hempty := by
    have hledger : (s.ledger.finish key generation).isEmpty = true := hempty
    right
    simp [finish, hledger]

/-! ## What gives no word of rest -/

theorem rests_note (u : Setup) (s : State) (event : Event) : (s.note u event).rests = s.rests := by
  unfold note
  split <;> rfl

theorem rests_abandoned (u : Setup) (s : State) (key : CellKey) :
    (s.abandoned u key).rests = s.rests :=
  rests_note u _ _

theorem rests_notePeers (u : Setup) (s : State) (key : CellKey) (edited : List String)
    (rows : Dataset) : (s.notePeers u key edited rows).rests = s.rests := by
  unfold notePeers
  dsimp only
  split
  · rfl
  · exact rests_note u s _

theorem rests_supersede (u : Setup) (s : State) (key : CellKey) (previous : Option Request) :
    (s.supersede u key previous).rests = s.rests := by
  cases previous with
  | none => exact rests_note u s _
  | some old =>
    simp only [supersede]
    split
    · exact rests_note u _ _
    · split <;> exact rests_note u _ _

/-- Asking for an evaluation makes a cell pending, unless the watch is closed. -/
theorem calms_schedule (u : Setup) (s : State) (key : CellKey) (fanOut : List String) :
    s.Calms (s.schedule u key fanOut) := by
  by_cases hopen : s.closed = false
  · refine .busy ?_ ?_
    · rw [(schedule_alike hopen key fanOut).ledger]
      exact Ledger.isEmpty_set _ _ _
    · rw [schedule, if_neg (by simp [hopen])]
      exact rests_supersede u _ _ _
  · rw [schedule, if_pos (by simpa using hopen)]
    exact .same rfl rfl

end State

/-! ## Steps -/

namespace Evaluation

variable {e : Evaluation}

theorem calms_giveUp (u : Setup) (s : State) (e : Evaluation) : s.Calms (e.giveUp u s) := by
  have hdrop : s.Calms (s.dropEvaluation e) := .same rfl rfl
  have hquiet := State.alike_abandoned u ((s.dropEvaluation e).finish e.key e.generation) e.key
  exact (hdrop.trans (State.calms_finish _ _ _)).trans
    (.same hquiet.ledger (State.rests_abandoned u _ _))

/-- Whatever an evaluation does, it gives word of rest if it empties the ledger. -/
theorem Advance.calms (h : e.Advance u s s') : s.Calms s' := by
  cases h with
  | arm | discard | queue | start | work | stop | fail => exact .same rfl rfl
  | begin _ _ _ hnewest =>
    obtain ⟨c, phase, -, -, rfl⟩ := Ledger.begin?_eq_some.mp hnewest
    exact .busy (Ledger.isEmpty_set _ _ _) rfl
  | @giveUp _ limiter =>
    have hleft : s.Calms { s with limiter } := .same rfl rfl
    exact hleft.trans (calms_giveUp u _ e)
  | @report report rows fanOut ledger _ _ hnewest =>
    have hbusy : ledger.isEmpty = false := by
      obtain ⟨c, -, -, rfl⟩ := Ledger.claim?_eq_some.mp hnewest
      exact Ledger.isEmpty_set _ _ _
    have hpeers := State.alike_notePeers u (({ s with ledger } : State).deliver u report) e.key
      fanOut rows
    exact .busy ((congrArg Ledger.isEmpty hpeers.ledger).trans hbusy)
      (State.rests_notePeers u _ _ _ _)
  | outdated =>
    have hnote := State.alike_note u (s.count fun c => { c with stale := c.stale + 1 })
      (.staleDiscarded e.key.row e.key.column e.generation)
    exact .same hnote.ledger (State.rests_note u _ _)
  | abandon =>
    exact .same (s.alike_abandoned u e.key).ledger (State.rests_abandoned u s e.key)
  | ask => exact (State.calms_schedule u s _ []).trans (.same rfl rfl)
  | finish =>
    have hgone : s.Calms (s.dropEvaluation e) := .same rfl rfl
    exact hgone.trans (State.calms_finish _ _ _)

end Evaluation

namespace Call

variable {c : Call}

theorem calms_goTo (h : s.Calms t) (c : Call) (stage : CallStage) : s.Calms (goTo t c stage) :=
  h.trans (.same rfl rfl)

/-- Calls make cells pending at most. -/
theorem Advance.calms (h : c.Advance u s s') : s.Calms s' := by
  cases h with
  | ask => exact calms_goTo (State.calms_schedule u s _ _) c _
  | @spread edited _ job _ report rows =>
    have hpeers := State.alike_notePeers u (s.deliver u report) job.key [edited] rows
    have hreported : s.Calms ((s.deliver u report).notePeers u job.key [edited] rows) :=
      .same hpeers.ledger (State.rests_notePeers u (s.deliver u report) job.key [edited] rows)
    exact calms_goTo hreported c _
  | @abandon _ _ job =>
    have hgiven : s.Calms (s.abandoned u job.key) :=
      .same (s.alike_abandoned u job.key).ledger (State.rests_abandoned u s job.key)
    exact calms_goTo hgiven c _
  | told | take | work | report | fail | survey | look | found | strand | judged | deliver | conclude
  | refuse => exact .same rfl rfl

end Call

theorem State.Advances.calms (h : s.Advances u s') : s.Calms s' := by
  rcases h with ⟨e, -, hadvance⟩ | ⟨c, -, hadvance⟩
  · exact hadvance.calms
  · exact hadvance.calms

/-- Every move that empties the ledger gives word of rest, and none takes one back. -/
theorem State.calms_move? (hm : s.move? u m = some s') : s.Calms s' := by
  cases m with
  | setCell row column cell =>
    simp only [move?, Option.map_eq_some_iff] at hm
    obtain ⟨grid, -, rfl⟩ := hm
    exact .same rfl rfl
  | pushRow _ | edit _ _ | validateAll | pass _ =>
    obtain rfl := Option.some.inj hm
    exact .same rfl rfl
  | shutDown =>
    obtain rfl := Option.some.inj hm
    exact ⟨Nat.le_succ _, fun _ => .inr (Nat.lt_succ_self _)⟩
  | step task => exact (advances_of_step? hm).calms
  | takeSlot generation => exact (advances_of_takeSlot? hm).calms

/-! ## Waiting -/

/-- One who waits came from one place to another while the watch moved on. -/
inductive Waiting (u : Setup) (s : State) (w : Waiter) : State → Waiter → Prop
  | rest : Waiting u s w s w
  | move {t t' : State} {v : Waiter} (m : Move) :
      Waiting u s w t v → t.move? u m = some t' → Waiting u s w t' v
  | step {t : State} {v v' : Waiter} :
      Waiting u s w t v → v.step? t = some v' → Waiting u s w t v'

/-- What is so for one who waits: it has heard of no word of rest that was not given, and if it is
blocked over an empty ledger there was one that it has yet to hear of. -/
def Waiter.Alert (s : State) : Waiter → Prop
  | .listens since => since ≤ s.rests
  | .blocked since => since ≤ s.rests ∧ (s.ledger.isEmpty = true → since < s.rests)
  | .comes | .done => True

/-- The watch moves on. -/
theorem Waiter.Alert.calms {w : Waiter} (h : w.Alert s) (hcalms : s.Calms t) : w.Alert t := by
  cases w with
  | comes | done => trivial
  | listens since => exact Nat.le_trans h hcalms.rests
  | blocked since =>
    refine ⟨Nat.le_trans h.1 hcalms.rests, fun hempty => ?_⟩
    rcases hcalms.word hempty with hbefore | hlt
    · exact Nat.lt_of_lt_of_le (h.2 hbefore) hcalms.rests
    · exact Nat.lt_of_le_of_lt h.1 hlt

/-- The one who waits moves on. -/
theorem Waiter.Alert.step {w w' : Waiter} (h : w.Alert s) (hs : w.step? s = some w') :
    w'.Alert s := by
  cases w with
  | comes =>
    obtain rfl := Option.some.inj hs
    exact Nat.le_refl _
  | listens since =>
    obtain rfl := Option.some.inj hs
    split
    · trivial
    · rename_i hbusy
      exact ⟨h, fun hempty => absurd hempty hbusy⟩
  | blocked since =>
    simp only [Waiter.step?] at hs
    split at hs
    · obtain rfl := Option.some.inj hs
      trivial
    · cases hs
  | done => cases hs

theorem Waiting.alert {w v : Waiter} (h : Waiting u s w t v) (hw : w.Alert s) : v.Alert t := by
  induction h with
  | rest => exact hw
  | move m _ hm ih => exact ih.calms (State.calms_move? hm)
  | step _ hs ih => exact ih.step hs

/-- Whoever came to wait for rest is never blocked over an empty ledger. -/
theorem Waiting.not_stuck {since : Nat} (h : Waiting u s .comes t (.blocked since))
    (hempty : t.ledger.isEmpty = true) : (Waiter.blocked since).step? t = some .comes := by
  have halert := h.alert (show (Waiter.comes).Alert s from trivial)
  simp [Waiter.step?, halert.2 hempty]

/-- By steps of its own, with the watch as it is, the one who waits comes to the end. -/
def Waiter.Leaves (s : State) (w : Waiter) : Prop :=
  Relation.ReflTransGen (fun v v' : Waiter => v.step? s = some v') w .done

theorem Waiter.Alert.leaves {w : Waiter} (h : w.Alert s) (hempty : s.ledger.isEmpty = true) :
    w.Leaves s := by
  have hlistens : ∀ since, (Waiter.listens since).Leaves s := fun since =>
    .single (by simp [Waiter.step?, hempty])
  have hcomes : (Waiter.comes).Leaves s := .head rfl (hlistens s.rests)
  cases w with
  | comes => exact hcomes
  | listens since => exact hlistens since
  | blocked since => exact .head (by simp [Waiter.step?, h.2 hempty]) hcomes
  | done => exact .refl

/-- Whoever came to wait for rest leaves if the ledger is empty. -/
theorem Waiting.leaves {w : Waiter} (h : Waiting u s .comes t w)
    (hempty : t.ledger.isEmpty = true) : w.Leaves t :=
  (h.alert (show (Waiter.comes).Alert s from trivial)).leaves hempty

/-- Whoever came to wait for rest and cannot go on has left, or is blocked while cells are pending. -/
theorem Waiting.held {w : Waiter} (h : Waiting u s .comes t w) (hheld : w.step? t = none) :
    w = .done ∨ (∃ since, w = .blocked since) ∧ t.ledger.isEmpty = false := by
  cases w with
  | comes | listens since => cases hheld
  | blocked since =>
    refine .inr ⟨⟨since, rfl⟩, ?_⟩
    cases hempty : t.ledger.isEmpty with
    | false => rfl
    | true => cases hheld.symm.trans (h.not_stuck hempty)
  | done => exact .inl rfl

/-- Whoever leaves found the ledger empty. -/
theorem Waiter.isEmpty_of_done {w : Waiter} (hs : w.step? s = some .done) :
    s.ledger.isEmpty = true := by
  cases w with
  | listens since =>
    simp only [Waiter.step?, Option.some.injEq] at hs
    split at hs
    · assumption
    · cases hs
  | blocked since =>
    simp only [Waiter.step?] at hs
    split at hs <;> cases hs
  | comes | done => cases hs

end CellRules.Watch
