/-
CellRules.Proofs.Watch.Threads.Closed — what goes on after a closing has returned, when tasks run
beside each other.

A task that stands within a step when the closing returns goes on with it: one that found the watch
open still enters its evaluation (`Threads.MayBePending`), and one that was to claim the delivery of a
report or has claimed it still delivers it (`Threads.MayReport`). So do calls under way, as long as
they come to reports though they are told to stop. `Threads.Closing` says that there is nothing else,
and every turn keeps that (`Effect.closing`), so it holds of every run.
-/
import CellRules.Proofs.Watch.Closed
import CellRules.Proofs.Watch.Threads.Tidy

namespace CellRules.Watch

variable {u : Setup}

/-- A step that an evaluation takes whole makes no cell pending. -/
theorem Stride.pending {s s' : State} {e : Evaluation} {x : Option Happening} {key : CellKey}
    (h : Stride u s e x s') (hpending : s'.ledger.contains key = true) :
    s.ledger.contains key = true := by
  cases h with
  | begins _ hnewest hs =>
    rw [hs.ledger] at hpending
    exact (Ledger.contains_begin? hnewest).symm.trans hpending
  | givesUp _ _ hs | finishes _ hs =>
    rw [hs.ledger] at hpending
    exact Ledger.contains_of_finish hpending
  | arms _ hs | drops _ _ hs | queues _ hs | reads _ hs | goesOn _ _ hs | ends _ _ hs
  | abandons _ _ hs | fails _ hs | skips _ _ hs =>
    rw [hs.ledger] at hpending
    exact hpending

namespace Threads

variable {t₀ t t' : Threads} {k : List Happening} {x : Option Happening} {key : CellKey}
  {report : CellReport}

/-! ## Closing the watch -/

/-- Whoever closes the watch tells all to stop first, and bars the slots next. -/
def Barred (t : Threads) : Prop := ∀ c ∈ t.closers, c ≠ .told → t.state.limiter.closed = true

/-- A closed watch stays closed. -/
theorem Effect.closed (heffect : Effect u t x t') (hclosed : t.state.closed = true) :
    t'.state.closed = true := by
  by_contra hopen
  exact absurd (heffect.open (by simpa using hopen)) (by simp [hclosed])

/-- Slots stay barred. -/
theorem Effect.slots (heffect : Effect u t x t') (hslots : t.state.limiter.closed = true) :
    t'.state.limiter.closed = true := by
  rcases heffect.gates with ⟨-, -, hsame⟩ | ⟨-, -, hkeep⟩
  · exact hsame.trans hslots
  · exact hkeep hslots

theorem Barred.step (h : t.Barred) (heffect : Effect u t x t') : t'.Barred := by
  -- a closer that goes on stood past the slots, or bars them now
  have hset : ∀ {i : Nat} {before after : Closer}, t.closers[i]? = some before → before ≠ .told →
      ∀ c ∈ t.closers.set i after, c ≠ .told → t.state.limiter.closed = true := by
    intro i before after hbefore hpast c hc hne
    rcases List.mem_or_eq_of_mem_set hc with hc | rfl
    · exact h c hc hne
    · exact h before (List.mem_of_getElem? hbefore) hpast
  have hkeep := heffect.slots
  cases heffect with
  | tellsAll =>
    intro c hc hne
    rcases List.mem_append.mp hc with hc | hc
    · exact h c hc hne
    · exact absurd (List.mem_singleton.mp hc) hne
  | bars => exact fun _ _ _ => rfl
  | forgets hbarred => exact hset hbarred (by simp)
  | announces hforgot => exact hset hforgot (by simp)
  | strides | spreads | admits | opens | draws | enters | launches | claims | outdone | hands
  | records | concludes | follows | looks | calls | outside =>
    exact fun c hc hne => hkeep (h c hc hne)

/-- Once a closing has returned the watch is closed and the slots are barred. -/
theorem Run.shut {grid : Grid} (run : Run u (whole (.start u grid)) k t)
    (hreturned : .done ∈ t.closers) : t.state.closed = true ∧ t.state.limiter.closed = true := by
  have hbarred : t.Barred := by
    clear hreturned
    induction run with
    | rest => exact fun _ hc => by cases hc
    | turn _ _ hturn ih => exact ih.step (effect_of_turn? hturn)
  refine ⟨?_, hbarred _ hreturned (by simp)⟩
  rcases (run.lawful (lawful_start u grid)).gate with ⟨hnone, -⟩ | ⟨-, hclosed⟩
  · rw [hnone] at hreturned
    cases hreturned
  · exact hclosed

/-- A cell is pending from when an evaluation of it is entered. -/
theorem Effect.pending (heffect : Effect u t x t') (h : t'.state.ledger.contains key = true) :
    t.state.ledger.contains key = true ∨
      ∃ task fanOut generation, t.position? task = some (.drawn key fanOut generation) := by
  cases heffect with
  | strides _ _ hstride => exact .inl (hstride.pending h)
  | opens _ _ hfirst => exact .inl (hfirst.kept.2.2.1 ▸ h)
  | @enters task other fanOut generation hp =>
    rcases Ledger.contains_request.mp h with rfl | hold
    · exact .inr ⟨task, fanOut, generation, hp⟩
    · exact .inl hold
  | @launches task other g previous told =>
    exact .inl ((alike_launch (u := u) (t.leave task) other g previous told).ledger ▸ h)
  | claims _ _ _ hnewest => exact .inl ((Ledger.contains_claim? hnewest).symm.trans h)
  | @outdone e => exact .inl ((State.alike_leaveOut u t.state e).ledger ▸ h)
  | @follows task next => exact .inl ((t.state.follows u next task).ledger ▸ h)
  | calls hknown _ hwhole _ hadvance => exact .inl ((hadvance.kept hknown hwhole).2.2 ▸ h)
  | outside houter hm => exact .inl ((Move.kept_of_outer houter hm).2.2 ▸ h)
  | forgets => cases h
  | spreads | admits | draws | hands | records | concludes | looks | tellsAll | bars | announces =>
    exact .inl h

/-- Where nobody stood, nobody stands after another task went on within its step. -/
theorem none_of_stand {task other : Task} {p₀ p : Position} {s : State}
    (hp₀ : t.position? task = some p₀) (hnone : t.position? other = none) :
    ((t.stand task p).withState s).position? other = none := by
  refine (position?_stand_of_ne ?_).trans hnone
  rintro rfl
  cases hnone.symm.trans hp₀

/-- Where nobody stood, nobody stands after another task came to the end of its step. -/
theorem none_of_leave {task other : Task} {s : State} (hnone : t.position? other = none) :
    ((t.leave task).withState s).position? other = none := by
  by_contra hsome
  obtain ⟨p, hp⟩ := Option.ne_none_iff_exists'.mp hsome
  cases hnone.symm.trans (position_of_leave hp).2

/-! ## What is still pending, and still reported -/

/-- The cell is pending when the closing has returned, or a task that found the watch open before has
yet to enter an evaluation of it. -/
inductive MayBePending (t₀ : Threads) (key : CellKey) : Prop
  | pending (there : t₀.state.ledger.contains key = true)
  | asks {task : Task} {fanOut : List String} (stands : t₀.position? task = some (.asks key fanOut))
  | drawn {task : Task} {fanOut : List String} {generation : Nat}
      (stands : t₀.position? task = some (.drawn key fanOut generation))

/-- The report may still be delivered after `t₀`: by a call that comes to it though it is told to
stop, or by an evaluation that was not told to stop before and gets to claim its delivery. -/
inductive MayReport (u : Setup) (t₀ : Threads) : CellReport → Prop
  | gives {c : Call} {report : CellReport} (there : c ∈ t₀.state.calls)
      (gives : c.stage.Gives u report) : MayReport u t₀ report
  | begins {c : Call} {report : CellReport} {k : List Happening} {t : Threads} (run : Run u t₀ k t)
      (before : c.id < t₀.state.nextCall) (known : t.state.call? c.id = some c)
      (free : t.position? (.call c.id) = none) (begins : c.Begins u t.state report) :
      MayReport u t₀ report
  | looks {id : Nat} {report : CellReport} {k : List Happening} {t : Threads}
      (stood : t₀.position? (.call id) = some .looks) (run : Run u t₀ k t)
      (stands : t.position? (.call id) = some .looks)
      (gives : (CallStage.surveying (.working (u.ruleSet.survey (t.state.source u)))).Gives u report) :
      MayReport u t₀ report
  | claimed {task : Task} {report : CellReport} {next : Following}
      (stood : t₀.position? task = some (.claimed report next)) : MayReport u t₀ report
  | claims {e : Evaluation} {report : CellReport} {next : Following} {k : List Happening}
      {t : Threads} {ledger : Ledger}
      (stood : t₀.position? (.evaluation e.generation) = some (.admitted report next))
      (run : Run u t₀ k t)
      (stands : t.position? (.evaluation e.generation) = some (.admitted report next))
      (known : t.state.evaluation? e.generation = some e) (unlocked : t.locked = false)
      (newest : t.state.ledger.claim? e.key e.generation = some ledger) : MayReport u t₀ report

end Threads

/-- Where a task may stand after `t₀`. -/
def Position.Late (u : Setup) (t₀ : Threads) (task : Task) : Position → Prop
  | .asks key _ | .drawn key _ _ => t₀.MayBePending key
  | .admitted report next => t₀.position? task = some (.admitted report next)
  | .claimed report _ => Threads.MayReport u t₀ report
  | .looks => t₀.position? task = some .looks
  | .entered _ _ _ _ | .handed _ _ _ | .recorded _ => True

namespace Threads

/-- What has come of the watch after `t₀`. -/
structure Closing (u : Setup) (t₀ t : Threads) : Prop where
  grown : t₀.state.nextCall ≤ t.state.nextCall
  /-- Later calls are refused. -/
  later : ∀ c ∈ t.state.calls, t₀.state.nextCall ≤ c.id →
    c.stage.refused = true ∧ t.position? (.call c.id) = none
  earlier : ∀ c ∈ t.state.calls, ∀ report, c.stage.Gives u report → MayReport u t₀ report
  positions : ∀ task p, t.position? task = some p → p.Late u t₀ task
  pending : ∀ key, t.state.ledger.contains key = true → t₀.MayBePending key
  said : ∃ late : List CellReport,
    t.state.sink.deliveries = t₀.state.sink.deliveries ++ late.map CellReport.delivery ∧
      ∀ report ∈ late, MayReport u t₀ report

theorem closing_self (t₀ : Threads) (ht : t₀.Tidy u) : Closing u t₀ t₀ where
  grown := Nat.le_refl _
  later c hc hid := absurd hid (Nat.not_le_of_lt (ht.calls.ids.lt hc))
  earlier c hc report hgives := .gives hc hgives
  positions task p hp := by
    cases p with
    | asks => exact .asks hp
    | drawn => exact .drawn hp
    | claimed => exact .claimed hp
    | admitted | looks => exact hp
    | entered | handed | recorded => trivial
  pending key hkey := .pending hkey
  said := ⟨[], by simp, nofun⟩

namespace Closing

variable {c : Call} {stage : CallStage} (h : Closing u t₀ t)

include h

/-- A call that still comes to something came before the closing returned. -/
theorem before (hc : c ∈ t.state.calls) (hstage : c.stage.refused = false) :
    c.id < t₀.state.nextCall := by
  by_contra hlate
  cases hstage.symm.trans (h.later c hc (Nat.le_of_not_lt hlate)).1

/-- More is delivered. -/
theorem say {s : State} (said : List CellReport)
    (hsink : s.sink.deliveries = t.state.sink.deliveries ++ said.map CellReport.delivery)
    (hsaid : ∀ report ∈ said, MayReport u t₀ report) :
    ∃ late : List CellReport,
      s.sink.deliveries = t₀.state.sink.deliveries ++ late.map CellReport.delivery ∧
        ∀ report ∈ late, MayReport u t₀ report := by
  obtain ⟨late, hlate, hmay⟩ := h.said
  refine ⟨late ++ said, by rw [hsink, hlate, List.map_append, List.append_assoc], ?_⟩
  exact fun report hreport => (List.mem_append.mp hreport).elim (hmay report) (hsaid report)

/-- No call moves, and nothing is delivered. -/
theorem keep (hcalls : t'.state.calls = t.state.calls)
    (hpending : ∀ key, t'.state.ledger.contains key = true → t₀.MayBePending key)
    (hsink : t'.state.deliveries = t.state.deliveries)
    (hpositions : ∀ task p, t'.position? task = some p → p.Late u t₀ task)
    (hfree : ∀ id, t₀.state.nextCall ≤ id → t.position? (.call id) = none →
      t'.position? (.call id) = none) :
    Closing u t₀ t' where
  grown := h.grown.trans_eq (by rw [State.nextCall, State.nextCall, hcalls])
  later c hc hid := (h.later c (hcalls ▸ hc) hid).imp id (hfree c.id hid)
  earlier c hc := h.earlier c (hcalls ▸ hc)
  positions := hpositions
  pending := hpending
  said := by rw [State.sink, hsink]; exact h.said

/-- A call moves on. -/
theorem goTo (said : List CellReport) (hknown : t.state.call? c.id = some c)
    (hcalls : t'.state.calls = (Call.goTo t.state c stage).calls)
    (hpending : ∀ key, t'.state.ledger.contains key = true → t₀.MayBePending key)
    (hsink : t'.state.sink.deliveries = t.state.sink.deliveries ++ said.map CellReport.delivery)
    (hsaid : ∀ report ∈ said, MayReport u t₀ report)
    (hstage : ∀ report, stage.Gives u report → MayReport u t₀ report)
    (hrefused : t.position? (.call c.id) = none → c.stage.refused = true → stage.refused = true)
    (hpositions : ∀ task p, t'.position? task = some p → p.Late u t₀ task)
    (hfree : ∀ id, t₀.state.nextCall ≤ id → t.position? (.call id) = none →
      t'.position? (.call id) = none) :
    Closing u t₀ t' where
  grown := h.grown.trans_eq
    (State.nextCall_goTo.symm.trans (congrArg List.length hcalls).symm)
  later d hd hid := by
    rw [hcalls] at hd
    rcases State.mem_goTo.mp hd with ⟨hd, -⟩ | ⟨rfl, -⟩
    · exact (h.later d hd hid).imp id (hfree d.id hid)
    · obtain ⟨hstage, hnone⟩ := h.later c (State.mem_of_call? hknown) hid
      exact ⟨hrefused hnone hstage, hfree c.id hid hnone⟩
  earlier d hd := by
    rw [hcalls] at hd
    rcases State.mem_goTo.mp hd with ⟨hd, -⟩ | ⟨rfl, -⟩
    · exact h.earlier d hd
    · exact hstage
  positions := hpositions
  pending := hpending
  said := h.say said hsink hsaid

/-- A task goes on within its step. -/
theorem late_of_stand {task other : Task} {p p' : Position} {s : State} (hlate : p.Late u t₀ task)
    (hp' : ((t.stand task p).withState s).position? other = some p') : p'.Late u t₀ other := by
  rcases position_of_stand hp' with ⟨rfl, rfl⟩ | ⟨-, hold⟩
  · exact hlate
  · exact h.positions other p' hold

/-- A task comes to the end of its step. -/
theorem late_of_leave {task other : Task} {p' : Position} {s : State}
    (hp' : ((t.leave task).withState s).position? other = some p') : p'.Late u t₀ other :=
  h.positions other p' (position_of_leave hp').2

/-- A task goes on within its step, no call moves, and nothing is delivered. -/
theorem stand {task : Task} {p₀ p : Position} {s : State} (hp₀ : t.position? task = some p₀)
    (hlate : p.Late u t₀ task) (hcalls : s.calls = t.state.calls)
    (hpending : ∀ key, s.ledger.contains key = true → t₀.MayBePending key)
    (hsink : s.deliveries = t.state.deliveries) :
    Closing u t₀ ((t.stand task p).withState s) :=
  h.keep hcalls hpending hsink (fun _ _ => h.late_of_stand hlate) fun _ _ => none_of_stand hp₀

/-- A task comes to the end of its step, no call moves, and nothing is delivered. -/
theorem leave {task : Task} {s : State} (hcalls : s.calls = t.state.calls)
    (hpending : ∀ key, s.ledger.contains key = true → t₀.MayBePending key)
    (hsink : s.deliveries = t.state.deliveries) :
    Closing u t₀ ((t.leave task).withState s) :=
  h.keep hcalls hpending hsink (fun _ _ => h.late_of_leave) fun _ _ => none_of_leave

/-- A call that had found the watch open before, or has reports in hand, takes the first piece of a
step. -/
theorem opens {s : State} {p : Position} (hclosed : t.state.closed = true)
    (hknown : t.state.call? c.id = some c) (hfirst : c.Opens u t.state s p)
    (hpending : ∀ key, s.ledger.contains key = true → t₀.MayBePending key) :
    Closing u t₀ ((t.stand (.call c.id) p).withState s) := by
  have hmem := State.mem_of_call? hknown
  -- the call came before the closing returned
  have hearly : ∀ {p : Position} {s : State}, c.stage.refused = false →
      ∀ id, t₀.state.nextCall ≤ id → t.position? (.call id) = none →
        ((t.stand (.call c.id) p).withState s).position? (.call id) = none := by
    intro p s hstage id hid hnone
    refine (position?_stand_of_ne ?_).trans hnone
    rintro ⟨⟩
    exact absurd (h.before hmem hstage) (Nat.not_lt_of_le hid)
  cases hfirst with
  | asks _ hopen | looks _ hopen => cases hopen.symm.trans hclosed
  | @judged edited todo job work report rows hstage hstep =>
    have hgives : c.stage.Gives u report := by
      rw [hstage]
      exact .underWay (hclosed ▸ (work.heads_ends hstep).symm)
    refine h.goTo [report] hknown rfl hpending List.map_append (fun r hr => ?_)
      (fun _ hgives => by cases hgives)
      (by simp [hstage, CallStage.refused]) (fun _ _ => h.late_of_stand trivial)
      (hearly (by simp [hstage, CallStage.refused]))
    rw [List.mem_singleton.mp hr]
    exact h.earlier c hmem report hgives
  | @delivers cell todo cells hstage =>
    have hgives : ∀ r ∈ cell :: todo, MayReport u t₀ r := by
      intro r hr
      refine h.earlier c hmem r ?_
      rw [hstage]
      exact .inHand hr
    refine h.goTo [cell] hknown rfl hpending List.map_append (fun r hr => ?_)
      (fun r hr => ?_) (by simp [hstage, CallStage.refused]) (fun _ _ => h.late_of_stand trivial)
      (hearly (by simp [hstage, CallStage.refused]))
    · rw [List.mem_singleton.mp hr]
      exact hgives cell List.mem_cons_self
    · cases hr with
      | inHand hmem => exact hgives r (List.mem_cons_of_mem _ hmem)

/-- A task that has had its report recorded looks for what follows from it. -/
theorem follows {task : Task} {next : Following} (ht : t.Tidy u)
    (hp : t.position? task = some (.recorded next))
    (hpending : ∀ key, (t.state.follow u next task).ledger.contains key = true →
      t₀.MayBePending key) :
    Closing u t₀ ((t.leave task).withState (t.state.follow u next task)) := by
  cases task with
  | evaluation g =>
    have hfollows := State.follows u t.state next (.evaluation g)
    exact h.leave hfollows.calls_of_evaluation hpending hfollows.deliveries
  | call id =>
    obtain ⟨c, hc, ⟨edited, todo, hstage⟩, -⟩ := ht.stands id _ hp
    obtain rfl := State.id_of_call? hc
    obtain ⟨found, -, hs⟩ := State.follow_call (u := u) next hc hstage
    refine h.goTo [] hc hs.calls hpending ?_ (by simp) (fun _ hgives => by cases hgives)
      (fun _ hrefused => by simp [hstage, CallStage.refused] at hrefused)
      (fun _ _ => h.late_of_leave) fun _ _ => none_of_leave
    rw [List.map_nil, List.append_nil]
    exact congrArg Sink.deliveries hs.sink
  | strand id strand => cases (ht.strands id strand).symm.trans hp

/-- A call takes a whole step. -/
theorem calls {s' : State} (hclosed : t.state.closed = true)
    (hslots : t.state.limiter.closed = true) (ht : t.Tidy u) (run : Run u t₀ k t)
    (hknown : t.state.call? c.id = some c)
    (hfree : t.position? (.call c.id) = none ∨ ∃ pool, c.stage = .judging pool)
    (hadvance : c.Advance u t.state s')
    (hpending : ∀ key, s'.ledger.contains key = true → t₀.MayBePending key) :
    Closing u t₀ (t.withState s') := by
  have hmem := State.mem_of_call? hknown
  obtain ⟨stage, said, hl⟩ := hadvance.lessens hclosed hslots hknown (ht.calls.stages c hmem)
  refine h.goTo said hknown hl.calls hpending hl.sink
    (fun r hr => h.earlier c hmem r (hl.now r hr)) (fun r hgives => ?_)
    (fun _ hrefused => (hl.refused hrefused).1) h.positions fun _ _ => id
  rcases hl.later r hgives with hold | hbegins
  · exact h.earlier c hmem r hold
  · obtain ⟨-, edited, job, todo, rows, hstage, -⟩ := id hbegins
    refine .begins run (h.before hmem (by simp [hstage, CallStage.refused])) hknown
      (hfree.resolve_right ?_) hbegins
    rintro ⟨pool, hpool⟩
    cases hstage.symm.trans hpool

/-- What comes from outside makes calls that are refused. -/
theorem outside {m : Move} {s' : State} (hclosed : t.state.closed = true) (ht : t.Tidy u)
    (houter : m.outer = true) (hm : t.state.move? u m = some s') :
    Closing u t₀ (t.withState s') := by
  have hcall : ∀ stage : CallStage, stage.refused = true → (∀ report, ¬stage.Gives u report) →
      Closing u t₀ (t.withState (t.state.addCall stage)) := by
    intro stage hrefused hnone
    refine ⟨?_, fun d hd hid => ?_, fun d hd => ?_, h.positions, h.pending, h.said⟩
    · rw [state_withState, State.nextCall_addCall]
      exact Nat.le_succ_of_le h.grown
    · rcases List.mem_append.mp hd with hd | hd
      · exact h.later d hd hid
      · obtain rfl := List.mem_singleton.mp hd
        refine ⟨hrefused, ?_⟩
        -- nobody stood there before
        cases hp : t.position? (.call t.state.nextCall) with
        | none => exact hp
        | some p =>
          obtain ⟨d, hd, -⟩ := ht.stands _ p hp
          have hlt := ht.calls.ids.lt (State.mem_of_call? hd)
          rw [State.id_of_call? hd] at hlt
          exact absurd hlt (Nat.lt_irrefl _)
    · rcases List.mem_append.mp hd with hd | hd
      · exact h.earlier d hd
      · obtain rfl := List.mem_singleton.mp hd
        exact fun report hgives => absurd hgives (hnone report)
  have hsame : ∀ s' : State, s'.calls = t.state.calls → s'.ledger = t.state.ledger →
      s'.deliveries = t.state.deliveries → Closing u t₀ (t.withState s') :=
    fun s' hcalls hledger hsink =>
      h.keep hcalls (fun key hkey => h.pending key (hledger ▸ hkey)) hsink h.positions fun _ _ => id
  cases m with
  | setCell row column cell =>
    obtain ⟨grid, -, rfl⟩ := State.set_of_move? hm
    exact hsame _ rfl rfl rfl
  | pushRow values | pass millis =>
    obtain rfl := Option.some.inj hm
    exact hsame _ rfl rfl rfl
  | edit row column =>
    obtain rfl := Option.some.inj hm
    rw [State.tellEdit, if_pos hclosed]
    exact hcall _ rfl fun _ hgives => by cases hgives
  | validateAll =>
    obtain rfl := Option.some.inj hm
    exact hcall _ rfl fun _ hgives => by cases hgives
  | shutDown | step task | takeSlot generation => cases houter

end Closing

/-- Every turn after a closing has returned. -/
theorem Effect.closing (hclosed : t.state.closed = true) (hslots : t.state.limiter.closed = true)
    (ht : t.Tidy u) (run : Run u t₀ k t) (h : Closing u t₀ t) (heffect : Effect u t x t') :
    Closing u t₀ t' := by
  have hpending : ∀ key, t'.state.ledger.contains key = true → t₀.MayBePending key := by
    intro key hkey
    rcases heffect.pending hkey with hold | ⟨task, fanOut, g, hp⟩
    · exact h.pending key hold
    · exact h.positions task _ hp
  cases heffect with
  | strides _ _ hstride =>
    obtain ⟨hcalls, hdeliveries, -⟩ := hstride.delivers_nothing
    exact h.keep hcalls hpending hdeliveries h.positions fun _ _ => id
  | spreads _ _ _ hopen => cases hopen.symm.trans hclosed
  | admits _ _ _ hwanted => exact absurd hwanted (by simp [Evaluation.stopped, hclosed])
  | opens hknown _ hfirst => exact h.opens hclosed hknown hfirst hpending
  | draws hp =>
    have hlate := h.positions _ _ hp
    exact h.stand hp hlate rfl hpending rfl
  | enters hp => exact h.stand hp trivial rfl hpending rfl
  | @launches task key g previous told hp =>
    have hsame := alike_launch (u := u) (t.leave task) key g previous told
    refine h.keep hsame.calls hpending hsame.deliveries (fun other p' hp' => ?_)
      fun id _ hnone => position_launch_none (none_of_leave (s := t.state) hnone)
    rcases position_of_launch hp' with hold | ⟨_, _, _, _, _, -, rfl, -⟩
    · exact h.late_of_leave (s := t.state) hold
    · trivial
  | claims hknown hp hunlocked hnewest =>
    exact h.stand hp (.claims (h.positions _ _ hp) run hp hknown hunlocked hnewest) rfl hpending rfl
  | @outdone e =>
    have hout := State.alike_leaveOut u t.state e
    exact h.leave hout.calls hpending hout.deliveries
  | @hands task report next hp =>
    refine ⟨h.grown, fun c hc hid => (h.later c hc hid).imp id (none_of_stand hp), h.earlier,
      fun _ _ => h.late_of_stand trivial, hpending,
      h.say [report] List.map_append fun r hr => ?_⟩
    rw [List.mem_singleton.mp hr]
    exact h.positions _ _ hp
  | records hp => exact h.stand hp trivial rfl hpending rfl
  | concludes => exact h.leave rfl hpending rfl
  | follows hp => exact h.follows ht hp hpending
  | looks hknown hp =>
    exact h.goTo [] hknown rfl hpending (by simp [State.sink, Call.goTo]) (by simp)
      (fun r hgives => .looks (h.positions _ _ hp) run hp hgives)
      (fun hnone => by cases hnone.symm.trans hp) (fun _ _ => h.late_of_leave)
      fun _ _ => none_of_leave
  | calls hknown hfree _ _ hadvance =>
    exact h.calls hclosed hslots ht run hknown hfree hadvance hpending
  | outside houter hm => exact h.outside hclosed ht houter hm
  | tellsAll | bars | forgets | announces =>
    exact h.keep rfl hpending rfl h.positions fun _ _ => id

/-- Every run after a closing has returned. -/
theorem Run.closing (hclosed : t₀.state.closed = true) (hslots : t₀.state.limiter.closed = true)
    (ht : t₀.Tidy u) (run : Run u t₀ k t) :
    t.state.closed = true ∧ t.state.limiter.closed = true ∧ t.Tidy u ∧ Closing u t₀ t := by
  induction run with
  | rest => exact ⟨hclosed, hslots, ht, closing_self t₀ ht⟩
  | turn _ run hturn ih =>
    obtain ⟨hclosed, hslots, ht, h⟩ := ih
    have heffect := effect_of_turn? hturn
    exact ⟨heffect.closed hclosed, heffect.slots hslots, heffect.tidy ht,
      heffect.closing hclosed hslots ht run h⟩

/-! ## Where closing lets nothing through -/

/-- Where no task stands within a step when the closing returns, no cell becomes pending any more;
and if besides no rule is hasty and every call waits, nothing is delivered either. -/
theorem closed_is_silent (hclosed : t₀.state.closed = true)
    (hslots : t₀.state.limiter.closed = true) (ht : t₀.Tidy u) (hwhole : t₀.midway = [])
    (run : Run u t₀ k t) :
    (∀ key, t.state.ledger.contains key = true → t₀.state.ledger.contains key = true) ∧
      ((∀ r ∈ u.ruleSet.rules, ∀ ctx, ¬r.Hasty ctx) → (∀ c ∈ t₀.state.calls, c.stage.Waits) →
        t.state.sink.deliveries = t₀.state.sink.deliveries) := by
  have hnobody : ∀ task p, t₀.position? task ≠ some p := by
    intro task p hp
    simp [position?, hwhole] at hp
  obtain ⟨-, -, -, h⟩ := run.closing hclosed hslots ht
  refine ⟨fun key hthere => ?_, fun hpatient hwaits => ?_⟩
  · cases h.pending key hthere with
    | pending hthere => exact hthere
    | asks hstood | drawn hstood => exact absurd hstood (hnobody _ _)
  have hnothing : ∀ report, ¬MayReport u t₀ report := by
    intro report hmay
    cases hmay with
    | gives hc hgives => exact (hwaits _ hc).not_gives hgives
    | begins run _ hknown _ hbegins =>
      obtain ⟨-, -, ht, -⟩ := run.closing hclosed hslots ht
      obtain ⟨r, hr, ctx, hhasty⟩ := hbegins.hasty (ht.calls.stages _ (State.mem_of_call? hknown))
      exact hpatient r hr ctx hhasty
    | looks hstood | claimed hstood | claims hstood => exact hnobody _ _ hstood
  obtain ⟨late, hlate, hmay⟩ := h.said
  cases late with
  | nil => simpa using hlate
  | cons report rest => exact absurd (hmay report List.mem_cons_self) (hnothing report)

end Threads

end CellRules.Watch
