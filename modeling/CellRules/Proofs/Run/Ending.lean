/-
CellRules.Proofs.Run.Ending — a pool that nobody stops comes to its end.

The strands of a pool take their steps in any order, at any time, and with whatever slots others
leave them (`Pool.Next`). However they take turns, the pool ends (`Pool.Ends`):

* Each step leaves fewer to take (`Next.steps_lt`).
* As long as the pool has not ended some strand can go on, once its time has come and it is given a
  slot (`Underway.goes_on`).
* When it has ended, it has the answers of all its pieces, or the problem of one (`Comes`).

So a pool comes to one list of answers, up to their order, if every piece has one, and to a problem
otherwise (`Underway.ends`).
-/
import CellRules.Proofs.Run.Pool
import Mathlib.Algebra.GroupWithZero.Nat
import Mathlib.Logic.Relation

namespace CellRules.Pool

variable {α : Type} {p p' : Pool α} {pieces : List (Work α)} {t : Strand α} {size : Nat}
  {right : Except Problem (List α) → Prop} {result : Except Problem (List α)}

/-- A strand takes a step that nobody stops, at any time and with any slots, as long as slots are
given out at all. -/
def Next (p p' : Pool α) : Prop :=
  ∃ now id l l' events, l.closed = false ∧ p.step? now false l id = some (p', l', events)

/-- A strand takes a step, and may find that somebody wants it to stop or that no slots are given
out. -/
def Goes (p p' : Pool α) : Prop :=
  ∃ now cancelled id l l' events, p.step? now cancelled l id = some (p', l', events)

/-- However the strands take turns, the pool comes to a result, and to a right one. -/
inductive Ends (right : Except Problem (List α) → Prop) : Pool α → Prop
  | intro {p : Pool α} (result : ∀ result, p.result? = some result → right result)
      (goes_on : p.result? = none → ∃ p', p.Next p') (next : ∀ p', p.Next p' → Ends right p') :
      Ends right p

/-- Some run of the strands comes to a result. -/
def MayEnd (p : Pool α) (result : Except Problem (List α)) : Prop :=
  ∃ p', Relation.ReflTransGen Next p p' ∧ p'.result? = some result

/-- A result that the pieces may come to: the answers of all of them, or the problem of one. -/
inductive Comes (pieces : List (Work α)) : Except Problem (List α) → Prop
  | all {answers : List α} (perm : (answers.map Except.ok).Perm (pieces.map Work.answer)) :
      Comes pieces (.ok answers)
  | broken {work : Work α} {problem : Problem} (mem : work ∈ pieces)
      (answer : work.answer = .error problem) : Comes pieces (.error problem)

/-! ## Runs that may happen and runs that must -/

theorem Ends.mono {right' : Except Problem (List α) → Prop} (h : p.Ends right)
    (hright : ∀ result, right result → right' result) : p.Ends right' := by
  induction h with
  | intro hresult hgoes _ ih =>
    exact .intro (fun result hr => hright result (hresult result hr)) hgoes ih

/-- A run that ends well, whoever wants it to stop too late, has come to the answers of all
pieces. -/
theorem perm_of_goes {usesSlots : Bool} {room : Nat} {answers : List α}
    (hrun : Relation.ReflTransGen Goes (start usesSlots room pieces) p)
    (hresult : p.result? = some (.ok answers)) :
    (answers.map Except.ok).Perm (pieces.map Work.answer) := by
  have hsound : Sound pieces p := by
    clear hresult
    induction hrun with
    | refl => exact sound_start usesSlots room pieces
    | tail _ hgoes ih =>
      obtain ⟨now, cancelled, id, l, l', events, hstep⟩ := hgoes
      exact ih.step hstep
  exact hsound.result hresult

theorem Next.goes (h : Next p p') : Goes p p' := by
  obtain ⟨now, id, l, l', events, -, hstep⟩ := h
  exact ⟨now, false, id, l, l', events, hstep⟩

/-- A run that ends well has come to the answers of all pieces. -/
theorem MayEnd.perm {usesSlots : Bool} {room : Nat} {answers : List α}
    (h : (start usesSlots room pieces).MayEnd (.ok answers)) :
    (answers.map Except.ok).Perm (pieces.map Work.answer) := by
  obtain ⟨p', hrun, hresult⟩ := h
  exact perm_of_goes (Relation.ReflTransGen.mono (fun _ _ hnext => Next.goes hnext) _ _ hrun) hresult

/-! ## The steps that are left -/

/-- The steps that are left to take. -/
def steps (p : Pool α) : Nat := (p.ahead Progress.steps).sum

theorem steps_without (hp : p.Numbered) (ht : t ∈ p.strands) :
    p.steps = t.progress.steps + (p.without t).steps := by
  rw [steps, (hp.perm_ahead ht Progress.steps).sum_nat, List.sum_cons]
  rfl

/-- Each step leaves fewer to take. -/
theorem Next.steps_lt (hp : p.Numbered) (h : p.Next p') : p'.steps < p.steps := by
  obtain ⟨now, id, l, l', events, -, hstep⟩ := h
  cases step?_advance (by simp) hstep with
  | @moves t next ht hid _ hless =>
    rw [steps_without hp ht, steps, (hp.perm_ahead_update ht hid Progress.steps).sum_nat,
      List.sum_cons]
    exact Nat.add_lt_add_right hless _
  | @ends t l answer ht =>
    have hleft : (p.finish t l answer).1.steps = (p.without t).steps :=
      congrArg List.sum (ahead_refill Progress.steps _)
    have hpos := t.progress.steps_pos
    rw [hleft, steps_without hp ht]
    omega
  | @breaks t l problem ht =>
    have hnone : (p.fail l problem).1.steps = 0 := rfl
    have hpos := t.progress.steps_pos
    rw [hnone, steps_without hp ht]
    omega

/-- Every strand can take a step, once its time has come and, if it waits in line, it was given a
slot. -/
theorem exists_step? (hp : p.Numbered) (ht : t ∈ p.strands) {l : Limiter} (hopen : l.closed = false)
    (hgiven : ∀ ticket work, t.progress = .inLine ticket work → ticket ∈ l.served) :
    ∃ now p' l' events, p.step? now false l t.id = some (p', l', events) := by
  have hfind := hp.strand?_eq ht
  have hstep : ∃ now, (p.step? now false l t.id).isSome = true := by
    cases hprogress : t.progress with
    | fresh work =>
      refine ⟨0, ?_⟩
      cases hslots : p.usesSlots with
      | false => simp [step?, hfind, hprogress, hslots]
      | true =>
        by_cases hfree : 0 < l.free <;>
          simp [step?, hfind, hprogress, hslots, Limiter.join, hopen, hfree]
    | inLine ticket work =>
      have hserved := hgiven ticket work hprogress
      exact ⟨0, by simp [step?, hfind, hprogress, Limiter.attempt, hopen, hserved]⟩
    | running work =>
      obtain ⟨now, step, hstep⟩ := work.exists_step?
      exact ⟨now, by simp [step?, hfind, hprogress, hstep]⟩
  obtain ⟨now, hsome⟩ := hstep
  obtain ⟨⟨p', l', events⟩, hstep⟩ := Option.isSome_iff_exists.mp hsome
  exact ⟨now, p', l', events, hstep⟩

/-- Slots may be such that a strand goes on. -/
theorem exists_next (hp : p.Numbered) (ht : t ∈ p.strands) : ∃ p', p.Next p' := by
  obtain ⟨given, hgiven⟩ : ∃ given : List Ticket,
      ∀ ticket work, t.progress = .inLine ticket work → ticket ∈ given := by
    cases t.progress with
    | inLine ticket work =>
      refine ⟨[ticket], fun other _ h => ?_⟩
      cases h
      exact List.mem_singleton.mpr rfl
    | fresh | running => exact ⟨[], fun _ _ h => by cases h⟩
  obtain ⟨now, p', l', events, hstep⟩ :=
    exists_step? hp ht (l := { Limiter.ofLimit 1 with served := given }) rfl hgiven
  exact ⟨p', now, t.id, _, l', events, rfl, hstep⟩

/-! ## Pools under way -/

/-- A pool with room on its way to a result that its pieces may come to. -/
structure Underway (pieces : List (Work α)) (p : Pool α) : Prop where
  sound : Sound pieces p
  orderly : Orderly p.room p
  room : p.room ≠ 0
  broken : ∀ problem, p.problem = some problem →
    p.strands = [] ∧ Comes pieces (.error problem)

theorem underway_start (usesSlots : Bool) {room : Nat} (hroom : room ≠ 0)
    (pieces : List (Work α)) : Underway pieces (start usesSlots room pieces) where
  sound := sound_start usesSlots room pieces
  orderly := orderly_start usesSlots room pieces
  room := hroom
  broken _ h := by cases h

theorem Underway.problem_of_mem (hp : Underway pieces p) (ht : t ∈ p.strands) :
    p.problem = none := by
  cases hproblem : p.problem with
  | none => rfl
  | some problem =>
    rw [(hp.broken problem hproblem).1] at ht
    cases ht

theorem Underway.next (hp : Underway pieces p) (h : p.Next p') : Underway pieces p' := by
  obtain ⟨now, id, l, l', events, hopen, hstep⟩ := h
  have hadvance := step?_advance (by simp) hstep
  have hroom : p'.room = p.room := (hp.orderly.advance hadvance).room
  refine ⟨hp.sound.step hstep, hroom ▸ hp.orderly.advance hadvance, hroom ▸ hp.room, ?_⟩
  intro problem hproblem
  cases hadvance with
  | moves ht | ends ht =>
    have hnone : some problem = none := hproblem.symm.trans (hp.problem_of_mem ht)
    cases hnone
  | breaks ht hheads =>
    obtain rfl := Option.some.inj hproblem
    obtain ⟨work, hwork, hanswer⟩ := hp.sound.exists_piece (hp.problem_of_mem ht) ht
    exact ⟨rfl, .broken hwork (hanswer.trans (hheads hopen))⟩

/-- As long as the pool has not ended some strand can go on. -/
theorem Underway.goes_on (hp : Underway pieces p) (h : p.result? = none) :
    ∃ p', p.Next p' := by
  cases hstrands : p.strands with
  | cons t strands => exact exists_next hp.orderly.toNumbered (t := t) (by simp [hstrands])
  | nil =>
    have hqueue : p.queue = [] := (hp.orderly.busy hstrands).resolve_right hp.room
    cases hproblem : p.problem <;> simp [result?, hproblem, hstrands, hqueue] at h

/-- What the pool ends with is what its pieces come to. -/
theorem Underway.comes (hp : Underway pieces p) (h : p.result? = some result) :
    Comes pieces result := by
  cases result with
  | ok answers => exact .all (hp.sound.result h)
  | error problem =>
    unfold result? at h
    split at h
    · rename_i hproblem
      cases h
      exact (hp.broken problem hproblem).2
    · split at h <;> cases h

/-- However the strands take turns, the pool comes to the answers of all pieces, or to the problem
of one. -/
theorem Underway.ends (hp : Underway pieces p) : p.Ends (Comes pieces) := by
  induction hn : p.steps using Nat.strongRecOn generalizing p with
  | ind n ih =>
    refine .intro (fun result hresult => hp.comes hresult) hp.goes_on fun p' hnext => ?_
    exact ih p'.steps (hn ▸ hnext.steps_lt hp.orderly.toNumbered) (hp.next hnext) rfl

end CellRules.Pool
