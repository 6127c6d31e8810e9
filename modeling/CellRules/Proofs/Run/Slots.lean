/-
CellRules.Proofs.Run.Slots — strands that share slots do not lock each other out.

A pool bounds how many pieces are under way, and slots bound how many of these run. `Shares limit p l`
says how the two stand to each other after every step of a strand: who waits in line or was given a
slot is a strand that has not taken one up, each of the slots is free, given, or held by a strand
that runs, and nobody waits while a slot is free.

If all strands waited for slots, all slots would be free, and nobody would wait. So with slots that
nobody else takes some strand can always go on until the pool has ended (`neverStuck_start`).
-/
import CellRules.Proofs.Run.Account

namespace CellRules

variable {α : Type}

namespace Pool

variable {p p' : Pool α} {l l' : Limiter} {t : Strand α} {pieces : List (Work α)} {limit : Nat}

/-- How a pool and so many slots, which nobody else takes, stand to each other. -/
structure Shares (limit : Nat) (p : Pool α) (l : Limiter) : Prop where
  numbered : p.Numbered
  opened : l.closed = false
  /-- Whoever has a ticket is a strand in line. -/
  waiters : l.waiters.Perm p.tickets
  nodup : l.waiters.Nodup
  below : ∀ ticket ∈ l.waiters, ticket < l.nextTicket
  /-- Each slot is free, given or held. -/
  account : l.free + l.served.length + p.held = limit
  /-- Nobody waits while a slot is free. -/
  queue : l.line ≠ [] → l.free = 0
  /-- Only strands that run hold slots. -/
  holds : ∀ t ∈ p.strands, t.holds = true → ∃ work, t.progress = .running work

theorem shares_start (usesSlots : Bool) (room : Nat) (pieces : List (Work α)) (limit : Nat) :
    Shares limit (start usesSlots room pieces) (.ofLimit limit) where
  numbered := (heads_start false usesSlots room pieces).toNumbered
  opened := rfl
  waiters := by
    rw [start, tickets_refill]
    exact .refl _
  nodup := .nil
  below _ h := by cases h
  account := by
    rw [start, held_refill]
    rfl
  queue h := absurd rfl h
  holds t ht hholds := by
    obtain ⟨⟨work, id⟩, -, rfl⟩ := List.mem_map.mp ht
    cases hholds

/-! ## Steps keep the account -/

theorem Shares.accounts (hs : Shares limit p l) : l.Accounts limit p.tickets p.held where
  nodup := hs.waiters.nodup_iff.mp hs.nodup
  below ticket hticket := hs.below ticket (hs.waiters.mem_iff.mpr hticket)
  distinct := hs.nodup
  known _ hticket := hs.waiters.mem_iff.mp hticket
  waiting _ _ hticket := hs.waiters.mem_iff.mpr hticket
  emptied hclosed := by
    rw [hs.opened] at hclosed
    cases hclosed
  account := hs.account
  queue := hs.queue

/-- As long as slots are given out, those who wait are those who have a ticket. -/
theorem Fair.shares (hf : p.Fair) (hp : p.Numbered) (hopen : l.closed = false)
    (haccounts : l.Accounts limit p.tickets p.held) : Shares limit p l where
  numbered := hp
  opened := hopen
  waiters := (List.perm_ext_iff_of_nodup haccounts.distinct haccounts.nodup).mpr fun ticket =>
    ⟨haccounts.known ticket, haccounts.waiting hopen ticket⟩
  nodup := haccounts.distinct
  below ticket hticket := haccounts.below ticket (haccounts.known ticket hticket)
  account := haccounts.account
  queue := haccounts.queue
  holds := hf.holds

/-- A step of a strand keeps the account. -/
theorem Shares.step (hs : Shares limit p l) (hf : p.Fair) {now id : Nat} {events : List Event}
    (h : p.step? now false l id = some (p', l', events)) : p'.Fair ∧ Shares limit p' l' := by
  have hdeals := hf.step hs.numbered h
  have haccounts := hs.accounts
  rw [← List.append_nil p.tickets, ← Nat.add_zero p.held] at haccounts
  have hafter := hdeals.accounts haccounts
  rw [List.append_nil, Nat.add_zero] at hafter
  exact ⟨hdeals.fair, hdeals.fair.shares (hs.numbered.advance (step?_advance (by simp) h))
    ((closed_step? h).trans hs.opened) hafter⟩

/-! ## Some strand can go on -/

/-- A strand takes a step, with slots that nobody else takes. -/
def Turn (x y : Pool α × Limiter) : Prop :=
  ∃ now id events, x.1.step? now false x.2 id = some (y.1, y.2, events)

/-- With slots that nobody else takes some strand can go on, until the pool has ended. -/
def NeverStuck (p : Pool α) (l : Limiter) : Prop :=
  ∀ p' l', Relation.ReflTransGen Turn (p, l) (p', l') → p'.result? = none →
    ∃ y, Turn (p', l') y

/-- If all strands waited in line, all slots would be free, and nobody would wait. -/
theorem Shares.exists_turn (hs : Shares limit p l) (hlimit : limit ≠ 0)
    (hstrands : p.strands ≠ []) : ∃ y, Turn (p, l) y := by
  by_contra hstuck
  have hwaits : ∀ t ∈ p.strands, ∃ ticket work, t.progress = .inLine ticket work ∧
      ticket ∉ l.served := by
    intro t ht
    by_contra hnot
    obtain ⟨now, p', l', events, hstep⟩ := exists_step? hs.numbered ht hs.opened
      fun ticket work hprogress => by_contra fun hserved => hnot ⟨ticket, work, hprogress, hserved⟩
    exact hstuck ⟨(p', l'), now, t.id, events, hstep⟩
  have hnobody : l.served = [] := by
    rw [List.eq_nil_iff_forall_not_mem]
    intro ticket hserved
    have hticket := hs.waiters.mem_iff.mp (List.mem_append_right l.line hserved)
    obtain ⟨t, ht, hmem⟩ := List.mem_flatMap.mp hticket
    obtain ⟨ticket', work, hprogress, hnot⟩ := hwaits t ht
    rw [Strand.tickets, hprogress, List.mem_singleton] at hmem
    exact hnot (hmem ▸ hserved)
  have hheld : p.held = 0 := by
    rw [held, List.sum_eq_zero_iff_forall_eq_nat]
    intro slots hslots
    obtain ⟨t, ht, rfl⟩ := List.mem_map.mp hslots
    obtain ⟨ticket, work, hprogress, -⟩ := hwaits t ht
    cases hholds : t.holds with
    | false => simp [Strand.slots, hholds]
    | true =>
      obtain ⟨running, hrunning⟩ := hs.holds t ht hholds
      cases hprogress.symm.trans hrunning
  have hline : l.line ≠ [] := by
    obtain ⟨t, strands, hcons⟩ := List.exists_cons_of_ne_nil hstrands
    obtain ⟨ticket, work, hprogress, hnot⟩ := hwaits t (by simp [hcons])
    have hticket : ticket ∈ p.tickets :=
      List.mem_flatMap.mpr ⟨t, by simp [hcons], by simp [Strand.tickets, hprogress]⟩
    have hwaiter := hs.waiters.mem_iff.mpr hticket
    rw [Limiter.waiters, hnobody, List.append_nil] at hwaiter
    exact List.ne_nil_of_mem hwaiter
  have haccount := hs.account
  rw [hs.queue hline, hnobody, hheld] at haccount
  exact hlimit haccount.symm

/-- A pool with room and with slots of its own is never stuck. -/
theorem neverStuck_start (usesSlots : Bool) {room limit : Nat} (hroom : room ≠ 0)
    (hlimit : limit ≠ 0) (pieces : List (Work α)) :
    (start usesSlots room pieces).NeverStuck (.ofLimit limit) := by
  have hkept : ∀ y, Relation.ReflTransGen Turn (start usesSlots room pieces, .ofLimit limit) y →
      Underway pieces y.1 ∧ y.1.Fair ∧ Shares limit y.1 y.2 := by
    intro y hrun
    induction hrun with
    | refl =>
      exact ⟨underway_start usesSlots hroom pieces, fair_start usesSlots room pieces,
        shares_start usesSlots room pieces limit⟩
    | @tail y z _ hturn ih =>
      obtain ⟨hunder, hf, hs⟩ := ih
      obtain ⟨now, id, events, hstep⟩ := hturn
      exact ⟨hunder.next ⟨now, id, y.2, z.2, events, hs.opened, hstep⟩, hs.step hf hstep⟩
  intro p l hrun hnone
  obtain ⟨hunder, -, hs⟩ := hkept (p, l) hrun
  obtain ⟨p', now, id, l', l'', events, -, hstep⟩ := hunder.goes_on hnone
  obtain ⟨t, hfind, -⟩ := step?_takes hstep
  exact hs.exists_turn hlimit (List.ne_nil_of_mem (mem_of_strand? hfind))

end Pool

end CellRules
