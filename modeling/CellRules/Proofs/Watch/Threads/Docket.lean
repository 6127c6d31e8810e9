/-
CellRules.Proofs.Watch.Threads.Docket — what the ledger promises for one cell.

A `Docket` is all that matters about one cell: its entry in the ledger, where each of its evaluations
stands, and in which order evaluations were asked for and reported. `Docket.Step` says how it
changes, in pieces. Evaluations are asked for in ANY order of their generations, since a generation is
drawn before the evaluation enters the ledger.

The entry remembers who was reported last. It is kept while an evaluation of the cell is under way or
is the newest one, and it forgets nothing while it is kept (`Sound.remembers`). So a report follows
another one only if it is of a newer evaluation, or of one that was asked for after the other was
reported (`Sound.order`).

Where nobody gives up the evaluation that was asked for last (`strict`), it is not lost
(`Lasting`): once it is through, the last report is its own or that of one with a greater
generation (`Lasting.last_reported`).
-/
import CellRules.Proofs.Watch.Standing
import Mathlib.Logic.Function.Basic
import Mathlib.Data.List.Nodup

namespace CellRules.Watch

/-- Where an evaluation stands, as the entry of its cell is concerned. -/
inductive Place where
  /-- It was not asked for, or is over. -/
  | away
  /-- It has not begun. -/
  | waiting
  | working
  /-- It is about to claim the delivery of its report. -/
  | admitted
  /-- It has claimed that, and the sink has no report yet. -/
  | claimed
  /-- It was reported or given up, and has not finished. -/
  | leaving
  deriving DecidableEq

/-- It has begun and not finished. -/
def Place.begun : Place → Bool
  | .away | .waiting => false
  | .working | .admitted | .claimed | .leaving => true

/-- It may still be reported, and has not claimed that. -/
def Place.ahead : Place → Bool
  | .waiting | .working | .admitted => true
  | .away | .claimed | .leaving => false

/-- What is noted of a cell: that an evaluation was asked for, or that one was reported. -/
inductive Note where
  | asked (generation : Nat)
  | reported (generation : Nat)
  deriving DecidableEq

def Note.asked? : Note → Option Nat
  | .asked generation => some generation
  | .reported _ => none

def Note.reported? : Note → Option Nat
  | .asked _ => none
  | .reported generation => some generation

/-- The entry of a cell, its evaluations, and what was noted of them. -/
structure Docket where
  entry : Option CellState := none
  place : Nat → Place := fun _ => .away
  log : List Note := []

namespace Docket

/-- The evaluations asked for, in this order. -/
def asked (d : Docket) : List Nat := d.log.filterMap Note.asked?

/-- The evaluations reported, in this order. -/
def reported (d : Docket) : List Nat := d.log.filterMap Note.reported?

/-- An evaluation moves to another place. -/
def goes (d : Docket) (g : Nat) (place : Place) : Docket :=
  { d with place := Function.update d.place g place }

/-- The evaluation is the newest one of the cell by its entry. -/
def IsCurrent (d : Docket) (g : Nat) : Prop :=
  ∃ c r, d.entry = some c ∧ c.current = some r ∧ r.generation = g

/-- How the docket of a cell changes. Where `strict` is set, the evaluation that was asked for last
is not given up. -/
inductive Step (strict : Bool) (d : Docket) : Docket → Prop
  | ask {g : Nat} (fanOut : List String) (fresh : g ∉ d.asked) :
      Step strict d { d.goes g .waiting with
        entry := some ((d.entry.getD {}).request g fanOut)
        log := d.log ++ [.asked g] }
  | begin {g : Nat} {c : CellState} {phase : Phase} {fanOut : List String}
      (stands : d.place g = .waiting) (entry : d.entry = some c)
      (current : c.current = some ⟨g, phase, fanOut⟩) :
      Step strict d { d.goes g .working with
        entry := some { c with current := some ⟨g, .running, []⟩ } }
  | drop {g : Nat} (stands : d.place g = .waiting)
      (may : strict = true → d.asked.getLast? = some g → ¬d.IsCurrent g) :
      Step strict d (d.goes g .away)
  | giveUp {g : Nat} (stands : d.place g = .working)
      (may : strict = true → d.asked.getLast? ≠ some g) :
      Step strict d { d.goes g .away with entry := d.entry.bind fun c => Ledger.leftAfter c g }
  | spoil {g : Nat} (stands : d.place g = .working)
      (may : strict = true → d.asked.getLast? ≠ some g) : Step strict d (d.goes g .leaving)
  | allow {g : Nat} (stands : d.place g = .working) : Step strict d (d.goes g .admitted)
  | claim {g : Nat} {c : CellState} (stands : d.place g = .admitted)
      (alone : ∀ other, d.place other ≠ .claimed) (entry : d.entry = some c)
      (newest : ∀ seen, c.delivered = some seen → seen ≤ g) :
      Step strict d { d.goes g .claimed with entry := some { c with delivered := some g } }
  | outdo {g : Nat} (stands : d.place g = .admitted) (alone : ∀ other, d.place other ≠ .claimed)
      (older : ∀ c, d.entry = some c → ∃ seen, c.delivered = some seen ∧ g < seen) :
      Step strict d (d.goes g .leaving)
  | hand {g : Nat} (stands : d.place g = .claimed) :
      Step strict d { d.goes g .leaving with log := d.log ++ [.reported g] }
  | finish {g : Nat} (stands : d.place g = .leaving) :
      Step strict d { d.goes g .away with entry := d.entry.bind fun c => Ledger.leftAfter c g }

variable {strict : Bool} {d d' : Docket} {g : Nat} {c : CellState}

theorem place_goes_self (p : Place) : (d.goes g p).place g = p := Function.update_self ..

theorem place_goes_of_ne {other : Nat} (h : other ≠ g) (p : Place) :
    (d.goes g p).place other = d.place other := Function.update_of_ne h ..

theorem place_of_goes {f : Nat} {p place : Place} (h : (d.goes g p).place f = place)
    (hp : p ≠ place) : f ≠ g ∧ d.place f = place := by
  by_cases hfg : f = g
  · rw [hfg, place_goes_self] at h
    exact absurd h hp
  · exact ⟨hfg, by rwa [place_goes_of_ne hfg] at h⟩

theorem asked_of_asked (d : Docket) (g : Nat) :
    (d.log ++ [Note.asked g]).filterMap Note.asked? = d.asked ++ [g] := by
  simp [asked, Note.asked?]

theorem asked_of_reported (d : Docket) (g : Nat) :
    (d.log ++ [Note.reported g]).filterMap Note.asked? = d.asked := by
  simp [asked, Note.asked?]

theorem reported_of_asked (d : Docket) (g : Nat) :
    (d.log ++ [Note.asked g]).filterMap Note.reported? = d.reported := by
  simp [reported, Note.reported?]

theorem reported_of_reported (d : Docket) (g : Nat) :
    (d.log ++ [Note.reported g]).filterMap Note.reported? = d.reported ++ [g] := by
  simp [reported, Note.reported?]

/-! ## The entry knows who is under way -/

/-- The number of evaluations that have begun and are not the newest. -/
def older (d : Docket) (current : Option Request) : Nat :=
  d.asked.countP fun g => (d.place g).begun && !current.any (·.generation == g)

/-- The entry knows the evaluation that was asked for last as the newest one, and counts the others
that have begun. -/
structure Counted (d : Docket) : Prop where
  nodup : d.asked.Nodup
  known : ∀ g, d.place g ≠ .away → g ∈ d.asked
  kept : ∀ g, (d.place g).begun = true → d.entry ≠ none
  newest : ∀ g, d.IsCurrent g → d.asked.getLast? = some g
  pending : ∀ c r, d.entry = some c → c.current = some r → r.phase = .pending →
    (d.place r.generation).begun = false
  count : ∀ c, d.entry = some c → d.older c.current ≤ c.superseded

/-- One element of a list is counted apart from the others. -/
theorem countP_apart {l : List Nat} (hl : l.Nodup) (hg : g ∈ l) (p : Nat → Bool) :
    l.countP p = l.countP (fun f => p f && f != g) + if p g then 1 else 0 := by
  have hperm : l.Perm (g :: l.filter (· != g)) :=
    perm_cons_filter (f := id) (by rwa [List.map_id]) hg
  rw [hperm.countP_eq, List.countP_cons, List.countP_filter]

/-- An evaluation that is as much under way as before makes no difference. -/
theorem Counted.goes (h : d.Counted) {p : Place} (hold : d.place g ≠ .away)
    (hbegun : p.begun = (d.place g).begun) {entry : Option CellState}
    (hentry : entry.map (fun c => (c.current, c.superseded))
      = d.entry.map (fun c => (c.current, c.superseded))) (log : List Note)
    (hlog : log.filterMap Note.asked? = d.asked) :
    ({ d.goes g p with entry, log } : Docket).Counted := by
  have hasked : ({ d.goes g p with entry, log } : Docket).asked = d.asked := hlog
  have hsame : ∀ f, ((d.goes g p).place f).begun = (d.place f).begun := by
    intro f
    by_cases hf : f = g
    · rw [hf, place_goes_self, hbegun]
    · rw [place_goes_of_ne hf]
  have hback : ∀ c, entry = some c → ∃ c₀, d.entry = some c₀ ∧ c₀.current = c.current ∧
      c₀.superseded = c.superseded := by
    rintro c rfl
    cases hd : d.entry with
    | none => simp [hd] at hentry
    | some c₀ =>
      simp only [hd, Option.map_some, Option.some.injEq, Prod.mk.injEq] at hentry
      exact ⟨c₀, rfl, hentry.1.symm, hentry.2.symm⟩
  refine ⟨hasked ▸ h.nodup, fun f hf => ?_, fun f hf => ?_, ?_, ?_, ?_⟩
  · rw [hasked]
    by_cases hfg : f = g
    · exact hfg ▸ h.known g hold
    · exact h.known f (by rwa [← place_goes_of_ne hfg p])
  · have hkept := h.kept f (by rw [← hsame]; exact hf)
    rintro (rfl : entry = none)
    cases hd : d.entry with
    | none => exact hkept hd
    | some c => simp [hd] at hentry
  · rintro f ⟨c, r, hc, hr, rfl⟩
    obtain ⟨c₀, hc₀, hcur, -⟩ := hback c hc
    rw [hasked]
    exact h.newest _ ⟨c₀, r, hc₀, hcur.trans hr, rfl⟩
  · intro c r hc hr hphase
    obtain ⟨c₀, hc₀, hcur, -⟩ := hback c hc
    rw [hsame]
    exact h.pending c₀ r hc₀ (hcur.trans hr) hphase
  · intro c hc
    obtain ⟨c₀, hc₀, hcur, hsuper⟩ := hback c hc
    have hcount := h.count c₀ hc₀
    rw [hcur, hsuper] at hcount
    refine le_of_eq_of_le ?_ hcount
    rw [older, older, hasked]
    exact List.countP_congr fun f _ => by simp only [hsame]

/-- One that begins is the newest one. -/
theorem Counted.begin (h : d.Counted) {phase : Phase} {fanOut : List String}
    (hstands : d.place g = .waiting) (hentry : d.entry = some c)
    (hcur : c.current = some ⟨g, phase, fanOut⟩) :
    ({ d.goes g .working with
      entry := some { c with current := some ⟨g, .running, []⟩ } } : Docket).Counted where
  nodup := h.nodup
  known f hf := by
    by_cases hfg : f = g
    · exact hfg ▸ h.known g (by simp [hstands])
    · exact h.known f (by rwa [← place_goes_of_ne hfg .working])
  kept _ _ := by simp
  newest f hf := by
    obtain ⟨c', r, hc', hr, rfl⟩ := hf
    cases hc'
    cases hr
    exact h.newest g ⟨c, _, hentry, hcur, rfl⟩
  pending c' r hc' hr hphase := by
    cases hc'
    cases hr
    cases hphase
  count c' hc' := by
    cases hc'
    refine le_of_eq_of_le ?_ (h.count c hentry)
    rw [older, older, hcur]
    refine List.countP_congr fun f _ => ?_
    by_cases hfg : f = g
    · simp [hfg]
    · simp [Ne.symm hfg, place_goes_of_ne hfg]

/-- A running evaluation whose place is taken is counted as an older one. -/
theorem Counted.begun_le_request (h : d.Counted) (fanOut : List String) :
    d.asked.countP (fun f => (d.place f).begun)
      ≤ ((d.entry.getD {}).request g fanOut).superseded := by
  cases hentry : d.entry with
  | none =>
    have hzero : d.asked.countP (fun f => (d.place f).begun) = 0 := by
      rw [List.countP_eq_zero]
      exact fun f _ hf => h.kept f hf hentry
    rw [hzero]
    exact Nat.zero_le _
  | some c =>
    have hle := h.count c hentry
    rw [Option.getD_some, CellState.request]
    cases hr : c.current with
    | none => simpa [older, hr] using hle
    | some r =>
      have hlast := h.newest r.generation ⟨c, r, hentry, hr, rfl⟩
      have hapart := countP_apart h.nodup (List.mem_of_getLast? hlast) fun f => (d.place f).begun
      have hsame : d.older c.current
          = d.asked.countP fun f => (d.place f).begun && f != r.generation := by
        refine List.countP_congr fun f _ => ?_
        by_cases hf : f = r.generation
        · simp [hr, hf]
        · simp [hr, hf, Ne.symm hf]
      rw [hsame] at hle
      cases hphase : r.phase with
      | pending =>
        have hwaits := h.pending c r hentry hr hphase
        simp only [hwaits, Bool.false_eq_true, if_false, Nat.add_zero] at hapart
        simp only [hphase]
        omega
      | running =>
        have hone : (if (d.place r.generation).begun = true then 1 else 0) ≤ 1 := by
          split <;> omega
        simp only [hphase]
        omega

/-- Another evaluation takes the place of the newest one. -/
theorem Counted.ask (h : d.Counted) (fanOut : List String) (hfresh : g ∉ d.asked) :
    ({ d.goes g .waiting with
      entry := some ((d.entry.getD {}).request g fanOut)
      log := d.log ++ [.asked g] } : Docket).Counted := by
  have haway : d.place g = .away := by
    by_contra hplace
    exact hfresh (h.known g hplace)
  have hasked : ({ d.goes g .waiting with
      entry := some ((d.entry.getD {}).request g fanOut)
      log := d.log ++ [.asked g] } : Docket).asked = d.asked ++ [g] := asked_of_asked d g
  have hsame : ∀ f, ((d.goes g .waiting).place f).begun = (d.place f).begun := by
    intro f
    by_cases hf : f = g
    · rw [hf, place_goes_self, haway]
      rfl
    · rw [place_goes_of_ne hf]
  obtain ⟨r, hr, hg, hphase⟩ := Fits.current_request (d.entry.getD {}) g fanOut
  refine ⟨?_, fun f hf => ?_, fun _ _ => by simp, ?_, ?_, ?_⟩
  · rw [hasked, List.nodup_append]
    exact ⟨h.nodup, List.nodup_singleton g,
      by simpa using fun f hf => ne_of_mem_of_not_mem hf hfresh⟩
  · rw [hasked]
    by_cases hfg : f = g
    · simp [hfg]
    · exact List.mem_append_left _ (h.known f (by rwa [← place_goes_of_ne hfg .waiting]))
  · rintro f ⟨c', r', hc', hr', rfl⟩
    cases hc'
    rw [hr] at hr'
    cases hr'
    rw [hasked, hg]
    simp
  · intro c' r' hc' hr' _
    cases hc'
    rw [hr] at hr'
    cases hr'
    rw [hg, hsame, haway]
    rfl
  · intro c' hc'
    cases hc'
    have hcount : (d.asked ++ [g]).countP (fun f =>
        ((d.goes g .waiting).place f).begun && !(some r).any (·.generation == f))
          = d.asked.countP fun f => (d.place f).begun := by
      rw [List.countP_append, List.countP_singleton]
      simp only [Option.any_some, hg, beq_self_eq_true, Bool.not_true, Bool.and_false,
        Bool.false_eq_true, if_false, Nat.add_zero]
      refine List.countP_congr fun f hf => ?_
      simp [hsame, Ne.symm (ne_of_mem_of_not_mem hf hfresh)]
    rw [older, hasked, hr, hcount]
    exact h.begun_le_request fanOut

/-- One that finishes puts no other in the place of the newest. -/
theorem current_of_finish {r : Request} (hr : (c.finish g).current = some r) :
    c.current = some r := by
  unfold CellState.finish at hr
  split at hr
  · cases hr
  · exact hr

theorem begun_away (d : Docket) (g f : Nat) :
    ((d.goes g .away).place f).begun = ((d.place f).begun && f != g) := by
  by_cases hf : f = g
  · simp [hf, place_goes_self, Place.begun]
  · simp [place_goes_of_ne hf, hf]

/-- When one that has begun finishes, the entry still counts those that stay. -/
theorem Counted.older_finish (h : d.Counted) (hbegun : (d.place g).begun = true)
    (hc : d.entry = some c) : (d.goes g .away).older (c.finish g).current
      ≤ (c.finish g).superseded := by
  have hasked : g ∈ d.asked := h.known g fun hnone => by simp [hnone, Place.begun] at hbegun
  have hle := h.count c hc
  have hapart := countP_apart h.nodup hasked fun f =>
    (d.place f).begun && !c.current.any (·.generation == f)
  unfold CellState.finish
  split
  · -- the newest one, which was not counted
    rename_i hcur
    simp only [hcur, Bool.not_true, Bool.and_false, Bool.false_eq_true, if_false,
      Nat.add_zero] at hapart
    refine le_of_eq_of_le ?_ (le_of_eq_of_le hapart.symm hle)
    refine List.countP_congr fun f _ => ?_
    simp only [begun_away, Option.any_none, Bool.not_false, Bool.and_true]
    cases hr : c.current with
    | none => simp [hr] at hcur
    | some r =>
      have hg : r.generation = g := by simpa [hr] using hcur
      by_cases hf : f = g
      · simp [hf, hg]
      · simp [hf, hg, Ne.symm hf]
  · -- an older one, which was
    rename_i hcur
    rw [Bool.not_eq_true] at hcur
    simp only [hcur, hbegun, Bool.not_false, Bool.and_self, if_true] at hapart
    have hsame : (d.goes g .away).older c.current
        = d.asked.countP fun f =>
          ((d.place f).begun && !c.current.any (·.generation == f)) && f != g := by
      refine List.countP_congr fun f _ => ?_
      simp only [begun_away]
      cases (d.place f).begun <;> simp [Bool.and_comm]
    rw [hsame]
    exact Nat.le_sub_one_of_lt (Nat.lt_of_succ_le (le_of_eq_of_le hapart.symm hle))

/-- When one that has begun finishes, the entry is kept as long as another one is under way. -/
theorem Counted.kept_finish (h : d.Counted) (hbegun : (d.place g).begun = true) {f : Nat}
    (hf : ((d.goes g .away).place f).begun = true) :
    (d.entry.bind fun c => Ledger.leftAfter c g) ≠ none := by
  intro hnone
  have hf' : (d.place f).begun = true ∧ f ≠ g := by simpa [begun_away] using hf
  cases hc : d.entry with
  | none => exact h.kept f hf'.1 hc
  | some c =>
    have hleft : Ledger.leftAfter c g = none := by simpa [hc] using hnone
    obtain ⟨hcur, hzero⟩ := Ledger.leftAfter_eq_none.mp hleft
    have hle := h.older_finish hbegun hc
    rw [hcur, hzero] at hle
    have hpos : 0 < (d.goes g .away).older none :=
      List.countP_pos_iff.mpr
        ⟨f, h.known f fun hnone => by simp [hnone, Place.begun] at hf', by simp [begun_away, hf']⟩
    omega

/-- An evaluation that has begun finishes. -/
theorem Counted.finish (h : d.Counted) (hbegun : (d.place g).begun = true) :
    ({ d.goes g .away with
      entry := d.entry.bind fun c => Ledger.leftAfter c g } : Docket).Counted := by
  have hasked : g ∈ d.asked := h.known g fun hnone => by simp [hnone, Place.begun] at hbegun
  have hback : ∀ c', (d.entry.bind fun c => Ledger.leftAfter c g) = some c' →
      ∃ c, d.entry = some c ∧ c' = c.finish g := by
    intro c' hc'
    obtain ⟨c, hc, hleft⟩ := Option.bind_eq_some_iff.mp hc'
    exact ⟨c, hc, (Ledger.leftAfter_eq_some hleft).1⟩
  refine ⟨h.nodup, fun f hf => ?_, fun f => h.kept_finish hbegun, ?_, ?_, ?_⟩
  · by_cases hfg : f = g
    · exact hfg ▸ hasked
    · exact h.known f (by rwa [← place_goes_of_ne hfg .away])
  · rintro f ⟨c', r, hc', hr, rfl⟩
    obtain ⟨c, hc, rfl⟩ := hback c' hc'
    exact h.newest _ ⟨c, r, hc, (current_of_finish hr), rfl⟩
  · intro c' r hc' hr hphase
    obtain ⟨c, hc, rfl⟩ := hback c' hc'
    have hwaits := h.pending c r hc (current_of_finish hr) hphase
    simp [begun_away, hwaits]
  · intro c' hc'
    obtain ⟨c, hc, rfl⟩ := hback c' hc'
    exact h.older_finish hbegun hc

theorem Counted.step (h : d.Counted) (hstep : Step strict d d') : d'.Counted := by
  cases hstep with
  | ask fanOut hfresh => exact h.ask fanOut hfresh
  | begin hstands hentry hcur => exact h.begin hstands hentry hcur
  | giveUp hstands | finish hstands => exact h.finish (by rw [hstands]; rfl)
  | drop hstands | spoil hstands | allow hstands | outdo hstands =>
    exact h.goes (by simp [hstands]) (by rw [hstands]; rfl) rfl d.log rfl
  | claim hstands _ hentry =>
    exact h.goes (by simp [hstands]) (by rw [hstands]; rfl) (by simp [hentry]) d.log rfl
  | hand hstands =>
    exact h.goes (by simp [hstands]) (by rw [hstands]; rfl) rfl _ (asked_of_reported d _)

/-! ## The entry remembers who was reported -/

/-- The entry is kept on account of the evaluation. -/
def Lives (d : Docket) (g : Nat) : Prop := (d.place g).begun = true ∨ d.IsCurrent g

/-- The entry says that an evaluation was reported which is as new as this one. -/
def Delivered (d : Docket) (g : Nat) : Prop :=
  ∃ c seen, d.entry = some c ∧ c.delivered = some seen ∧ g ≤ seen

/-- One evaluation at a time claims a delivery; the entry remembers who did last, as long as it is
kept; and a report follows another one only if it is of a newer evaluation, or of one that was asked
for after the other was reported. -/
structure Sound (d : Docket) : Prop extends Counted d where
  settled : ∀ g ∈ d.reported, g ∈ d.asked ∧ (d.place g = .leaving ∨ d.place g = .away)
  alone : ∀ g g', d.place g = .claimed → d.place g' = .claimed → g = g'
  held : ∀ g, d.place g = .claimed → ∃ c, d.entry = some c ∧ c.delivered = some g
  last : ∀ c seen, d.entry = some c → c.delivered = some seen →
    (∀ g, d.place g ≠ .claimed) → d.reported.getLast? = some seen
  remembers : ∀ g, d.Lives g → ∀ l₁ l₂, d.log = l₁ ++ .asked g :: l₂ →
    ∀ g', .reported g' ∈ l₂ → d.Delivered g'
  order : ∀ l₁ g₁ l₂ g₂ l₃, d.log = l₁ ++ .reported g₁ :: l₂ ++ .reported g₂ :: l₃ →
    g₁ < g₂ ∨ .asked g₂ ∈ l₂

theorem mem_asked : g ∈ d.asked ↔ .asked g ∈ d.log := by
  simp only [asked, List.mem_filterMap]
  constructor
  · rintro ⟨n, hn, hg⟩
    cases n with
    | asked f => cases hg; exact hn
    | reported f => cases hg
  · exact fun h => ⟨_, h, rfl⟩

theorem mem_reported : g ∈ d.reported ↔ .reported g ∈ d.log := by
  simp only [reported, List.mem_filterMap]
  constructor
  · rintro ⟨n, hn, hg⟩
    cases n with
    | asked f => cases hg
    | reported f => cases hg; exact hn
  · exact fun h => ⟨_, h, rfl⟩

theorem sound_empty : ({} : Docket).Sound where
  nodup := .nil
  known _ h := absurd rfl h
  kept _ h := by cases h
  newest := by rintro _ ⟨_, _, h, -⟩; cases h
  pending _ _ h := by cases h
  count _ h := by cases h
  settled _ h := by cases h
  alone _ _ h := by cases h
  held _ h := by cases h
  last _ _ h := by cases h
  remembers _ _ _ _ h := by simp at h
  order _ _ _ _ _ h := by simp at h

theorem Counted.entry_of_lives (h : d.Counted) (hg : d.Lives g) : ∃ c, d.entry = some c := by
  rcases hg with hbegun | ⟨c, r, hc, -⟩
  · exact Option.ne_none_iff_exists'.mp (h.kept g hbegun)
  · exact ⟨c, hc⟩

/-- An evaluation that claims nothing moves on, and nothing is noted: what was delivered stays known
as long as the entry is kept. -/
theorem Sound.goes (h : d.Sound) (hcounted : d'.Counted) {p : Place}
    (hplace : d'.place = (d.goes g p).place) (hlog : d'.log = d.log) (hp : p ≠ .claimed)
    (hstands : d.place g ≠ .claimed) (hover : g ∈ d.reported → p = .leaving ∨ p = .away)
    (hlives : ∀ f, d'.Lives f → d.Lives f)
    (hentry : ∀ c', d'.entry = some c' → ∃ c, d.entry = some c ∧ c'.delivered = c.delivered) :
    d'.Sound := by
  have hclaimed : ∀ f, d'.place f = .claimed ↔ d.place f = .claimed := by
    intro f
    rw [hplace]
    by_cases hfg : f = g
    · rw [hfg, place_goes_self]
      exact iff_of_false hp hstands
    · rw [place_goes_of_ne hfg]
  refine ⟨hcounted, fun f hf => ?_, fun f f' hf hf' => ?_, fun f hf => ?_,
    fun c' seen hc' hseen hnone => ?_, fun f hf l₁ l₂ hl g' hg' => ?_, ?_⟩
  · rw [reported, hlog] at hf
    obtain ⟨hasked, hplace'⟩ := h.settled f hf
    refine ⟨by rw [asked, hlog]; exact hasked, ?_⟩
    rw [hplace]
    by_cases hfg : f = g
    · rw [hfg, place_goes_self]
      exact hover (hfg ▸ hf)
    · rw [place_goes_of_ne hfg]
      exact hplace'
  · exact h.alone f f' ((hclaimed f).mp hf) ((hclaimed f').mp hf')
  · obtain ⟨c', hc'⟩ := hcounted.entry_of_lives (.inl (by rw [hf]; rfl : (d'.place f).begun = true))
    obtain ⟨c, hc, hsame⟩ := hentry c' hc'
    obtain ⟨c₀, hc₀, hseen⟩ := h.held f ((hclaimed f).mp hf)
    obtain rfl : c = c₀ := Option.some.inj (hc.symm.trans hc₀)
    exact ⟨c', hc', hsame.trans hseen⟩
  · obtain ⟨c, hc, hsame⟩ := hentry c' hc'
    rw [reported, hlog]
    exact h.last c seen hc (hsame ▸ hseen) fun f hf => hnone f ((hclaimed f).mpr hf)
  · rw [hlog] at hl
    obtain ⟨c', hc'⟩ := hcounted.entry_of_lives hf
    obtain ⟨c, hc, hsame⟩ := hentry c' hc'
    obtain ⟨c₀, seen, hc₀, hseen, hle⟩ := h.remembers f (hlives f hf) l₁ l₂ hl g' hg'
    obtain rfl : c = c₀ := Option.some.inj (hc.symm.trans hc₀)
    exact ⟨c', seen, hc', hsame.trans hseen, hle⟩
  · rw [hlog]
    exact h.order

/-- A note stands at the end of a log or before the note that came last. -/
theorem split_concat {l l₁ l₂ : List Note} {n m : Note} (hl : l ++ [n] = l₁ ++ m :: l₂) :
    (m = n ∧ l₂ = [] ∧ l = l₁) ∨ ∃ l₃, l₂ = l₃ ++ [n] ∧ l = l₁ ++ m :: l₃ := by
  rcases List.eq_nil_or_concat l₂ with rfl | ⟨l₃, k, rfl⟩
  · obtain ⟨hl, hm⟩ := List.append_inj' hl rfl
    exact .inl ⟨(List.cons.inj hm).1.symm, rfl, hl⟩
  · rw [List.concat_eq_append, ← List.cons_append, ← List.append_assoc] at hl
    obtain ⟨hl, hk⟩ := List.append_inj' hl rfl
    exact .inr ⟨l₃, by rw [(List.cons.inj hk).1, List.concat_eq_append], hl⟩

theorem delivered_request (c : CellState) (g : Nat) (fanOut : List String) :
    (c.request g fanOut).delivered = c.delivered := by
  unfold CellState.request
  dsimp only
  split
  · rfl
  · split <;> rfl

theorem delivered_finish (c : CellState) (g : Nat) : (c.finish g).delivered = c.delivered := by
  unfold CellState.finish
  split <;> rfl

theorem delivered_of_leftAfter {c' : CellState}
    (h : (d.entry.bind fun c => Ledger.leftAfter c g) = some c') :
    ∃ c, d.entry = some c ∧ c'.delivered = c.delivered := by
  obtain ⟨c, hc, hleft⟩ := Option.bind_eq_some_iff.mp h
  obtain ⟨rfl, -⟩ := Ledger.leftAfter_eq_some hleft
  exact ⟨c, hc, delivered_finish c g⟩

/-- Those that live after one has moved on lived before. -/
theorem lives_of_goes {entry : Option CellState} {p : Place} {f : Nat}
    (hbegun : p.begun = true → d.Lives g)
    (hcurrent : ∀ f, (∃ c r, entry = some c ∧ c.current = some r ∧ r.generation = f) →
      d.IsCurrent f) (hf : ({ d.goes g p with entry } : Docket).Lives f) : d.Lives f := by
  rcases hf with hf | hf
  · by_cases hfg : f = g
    · subst hfg
      exact hbegun (by simpa [goes] using hf)
    · exact .inl (by rwa [← place_goes_of_ne hfg p])
  · exact .inr (hcurrent f hf)

theorem Sound.leave (h : d.Sound) (hbegun : (d.place g).begun = true)
    (hunclaimed : d.place g ≠ .claimed) :
    ({ d.goes g .away with
      entry := d.entry.bind fun c => Ledger.leftAfter c g } : Docket).Sound := by
  refine h.goes (h.toCounted.finish hbegun) rfl rfl (by simp) hunclaimed (fun _ => .inr rfl)
    (fun f => lives_of_goes (by simp [Place.begun]) ?_) fun c' => delivered_of_leftAfter
  rintro f ⟨c', r, hc', hr, hg⟩
  obtain ⟨c, hc, hleft⟩ := Option.bind_eq_some_iff.mp hc'
  obtain ⟨rfl, -⟩ := Ledger.leftAfter_eq_some hleft
  exact ⟨c, r, hc, current_of_finish hr, hg⟩

/-- A report that is about to be handed on follows only reports that are older, or that came before
its evaluation was asked for. -/
theorem Sound.older_of_claimed (h : d.Sound) (hstands : d.place g = .claimed) {l₁ l₂ : List Note}
    {f : Nat} (hl : d.log = l₁ ++ .reported f :: l₂) : f < g ∨ .asked g ∈ l₂ := by
  have hbegun : (d.place g).begun = true := by rw [hstands]; rfl
  obtain ⟨k₁, k₂, hk⟩ := List.append_of_mem (mem_asked.mp (h.known g (by simp [hstands])))
  have hne : f ≠ g := by
    rintro rfl
    have hover := (h.settled f (mem_reported.mpr (by rw [hl]; simp))).2
    simp [hstands] at hover
  by_cases hlater : .reported f ∈ k₂
  · obtain ⟨c, seen, hc, hseen, hle⟩ := h.remembers g (.inl hbegun) k₁ k₂ hk f hlater
    obtain ⟨c₀, hc₀, hheld⟩ := h.held g hstands
    obtain rfl : c = c₀ := Option.some.inj (hc.symm.trans hc₀)
    obtain rfl : seen = g := Option.some.inj (hseen.symm.trans hheld)
    exact .inl (Nat.lt_of_le_of_ne hle hne)
  · right
    rw [hl] at hk
    rcases List.append_eq_append_iff.mp hk with ⟨as, rfl, has⟩ | ⟨bs, rfl, hbs⟩
    · cases as with
      | nil => cases has
      | cons a as =>
        obtain ⟨rfl, rfl⟩ := List.cons.inj has
        simp
    · cases bs with
      | nil => cases hbs
      | cons b bs =>
        obtain ⟨rfl, rfl⟩ := List.cons.inj hbs
        exact absurd (by simp) hlater

/-- Another evaluation is asked for. -/
theorem Sound.ask (h : d.Sound) (fanOut : List String) (hfresh : g ∉ d.asked) :
    ({ d.goes g .waiting with
      entry := some ((d.entry.getD {}).request g fanOut)
      log := d.log ++ [.asked g] } : Docket).Sound := by
  have hcounted := h.toCounted.ask fanOut hfresh
  have hne : ∀ f, f ∈ d.asked → f ≠ g := fun f hf => ne_of_mem_of_not_mem hf hfresh
  have hclaimed : ∀ f, (d.goes g .waiting).place f = .claimed → d.place f = .claimed :=
    fun f hf => (place_of_goes hf (by simp)).2
  refine ⟨hcounted, fun f hf => ?_, fun f f' hf hf' => ?_, fun f hf => ?_,
    fun c' seen hc' hseen hnone => ?_, fun f hf l₁ l₂ hl g' hg' => ?_,
    fun l₁ g₁ l₂ g₂ l₃ hl => ?_⟩
  · obtain ⟨hasked, hplace⟩ := h.settled f (by rwa [reported, reported_of_asked] at hf)
    refine ⟨mem_asked.mpr (List.mem_append_left _ (mem_asked.mp hasked)), ?_⟩
    change (d.goes g .waiting).place f = _ ∨ (d.goes g .waiting).place f = _
    rwa [place_goes_of_ne (hne f hasked)]
  · exact h.alone f f' (hclaimed f hf) (hclaimed f' hf')
  · obtain ⟨c, hc, hseen⟩ := h.held f (hclaimed f hf)
    exact ⟨_, rfl, by rw [delivered_request, hc, Option.getD_some, hseen]⟩
  · cases hc'
    rw [delivered_request] at hseen
    rw [reported, reported_of_asked]
    cases hc : d.entry with
    | none =>
      rw [hc] at hseen
      cases hseen
    | some c =>
      refine h.last c seen hc (by simpa [hc] using hseen) fun f hf => ?_
      have hasked := h.known f (by simp [hf])
      exact hnone f ((place_goes_of_ne (hne f hasked) .waiting).trans hf)
  · rcases split_concat hl with ⟨-, rfl, -⟩ | ⟨l₃, rfl, hlog⟩
    · cases hg'
    have hg' : Note.reported g' ∈ l₃ := by simpa using hg'
    have hasked : f ∈ d.asked := mem_asked.mpr (by rw [hlog]; simp)
    have hlives : d.Lives f := by
      rcases hf with hf | ⟨c, r, hc, hr, hrf⟩
      · exact .inl (by rwa [← place_goes_of_ne (hne f hasked) .waiting])
      · obtain ⟨r', hr', hg, -⟩ := Fits.current_request (d.entry.getD {}) g fanOut
        cases hc
        rw [hr'] at hr
        cases hr
        exact absurd (hrf.symm.trans hg) (hne f hasked)
    obtain ⟨c, seen, hc, hseen, hle⟩ := h.remembers f hlives l₁ l₃ hlog g' hg'
    exact ⟨_, seen, rfl, by rw [delivered_request, hc, Option.getD_some, hseen], hle⟩
  · rcases split_concat hl with ⟨hn, -, -⟩ | ⟨l₄, rfl, hlog⟩
    · cases hn
    · exact h.order l₁ g₁ l₂ g₂ l₄ hlog

/-- An evaluation claims the delivery of its report. -/
theorem Sound.claim (h : d.Sound) (hstands : d.place g = .admitted)
    (halone : ∀ other, d.place other ≠ .claimed) (hentry : d.entry = some c)
    (hnewest : ∀ seen, c.delivered = some seen → seen ≤ g)
    (hcounted : ({ d.goes g .claimed with
      entry := some { c with delivered := some g } } : Docket).Counted) :
    ({ d.goes g .claimed with entry := some { c with delivered := some g } } : Docket).Sound := by
  have honly : ∀ f, (d.goes g .claimed).place f = .claimed → f = g := by
    intro f hf
    by_contra hfg
    rw [place_goes_of_ne hfg] at hf
    exact halone f hf
  refine ⟨hcounted, fun f hf => ?_, fun f f' hf hf' => (honly f hf).trans (honly f' hf').symm,
    fun f hf => ?_, fun c' seen hc' hseen hnone => ?_, fun f hf l₁ l₂ hl g' hg' => ?_, h.order⟩
  · obtain ⟨hasked, hplace⟩ := h.settled f hf
    refine ⟨hasked, ?_⟩
    have hfg : f ≠ g := by
      rintro rfl
      simp [hstands] at hplace
    change (d.goes g .claimed).place f = _ ∨ (d.goes g .claimed).place f = _
    rwa [place_goes_of_ne hfg]
  · rw [honly f hf]
    exact ⟨_, rfl, rfl⟩
  · exact absurd (place_goes_self .claimed) (hnone g)
  · have hlives : d.Lives f := by
      refine lives_of_goes (fun _ => .inl (by rw [hstands]; rfl)) ?_ hf
      rintro f ⟨c', r, hc', hr, hrf⟩
      cases hc'
      exact ⟨c, r, hentry, hr, hrf⟩
    obtain ⟨c₀, seen, hc₀, hseen, hle⟩ := h.remembers f hlives l₁ l₂ hl g' hg'
    obtain rfl : c = c₀ := Option.some.inj (hentry.symm.trans hc₀)
    exact ⟨_, g, rfl, rfl, Nat.le_trans hle (hnewest seen hseen)⟩

/-- The sink gets a report whose delivery was claimed. -/
theorem Sound.hand (h : d.Sound) (hstands : d.place g = .claimed)
    (hcounted : ({ d.goes g .leaving with log := d.log ++ [.reported g] } : Docket).Counted) :
    ({ d.goes g .leaving with log := d.log ++ [.reported g] } : Docket).Sound := by
  have hnone : ∀ f, (d.goes g .leaving).place f ≠ .claimed := by
    intro f hf
    obtain ⟨hfg, hf⟩ := place_of_goes hf (by simp)
    exact hfg (h.alone f g hf hstands)
  obtain ⟨c, hc, hseen⟩ := h.held g hstands
  refine ⟨hcounted, fun f hf => ?_, fun f f' hf => absurd hf (hnone f),
    fun f hf => absurd hf (hnone f), fun c' seen hc' hseen' _ => ?_,
    fun f hf l₁ l₂ hl g' hg' => ?_, fun l₁ g₁ l₂ g₂ l₃ hl => ?_⟩
  · rw [reported, reported_of_reported] at hf
    rw [asked, asked_of_reported]
    change f ∈ d.asked ∧ ((d.goes g .leaving).place f = _ ∨ (d.goes g .leaving).place f = _)
    by_cases hfg : f = g
    · subst hfg
      exact ⟨h.known f (by simp [hstands]), .inl (place_goes_self _)⟩
    · rw [place_goes_of_ne hfg]
      exact h.settled f (by simpa [hfg] using hf)
  · obtain rfl : c = c' := Option.some.inj (hc.symm.trans hc')
    obtain rfl : g = seen := Option.some.inj (hseen.symm.trans hseen')
    rw [reported, reported_of_reported]
    simp
  · have hlives : d.Lives f :=
      lives_of_goes (fun _ => .inl (by rw [hstands]; rfl)) (fun _ hf => hf) hf
    rcases split_concat hl with ⟨hn, -, -⟩ | ⟨l₃, rfl, hlog⟩
    · cases hn
    · rcases List.mem_append.mp hg' with hg' | hg'
      · exact h.remembers f hlives l₁ l₃ hlog g' hg'
      · obtain rfl : g' = g := by simpa using hg'
        exact ⟨c, g', hc, hseen, Nat.le_refl g'⟩
  · rcases split_concat hl with ⟨hn, -, hlog⟩ | ⟨l₄, rfl, hlog⟩
    · cases hn
      exact h.older_of_claimed hstands hlog
    · exact h.order l₁ g₁ l₂ g₂ l₄ hlog

theorem Sound.step (h : d.Sound) (hstep : Step strict d d') : d'.Sound := by
  have hcounted := h.toCounted.step hstep
  have hnot : ∀ g, d.place g ≠ .leaving → d.place g ≠ .away → g ∉ d.reported :=
    fun g hleaving haway hg => (h.settled g hg).2.elim hleaving haway
  have hcurrent : ∀ f, (∃ c r, d.entry = some c ∧ c.current = some r ∧ r.generation = f) →
      d.IsCurrent f := fun _ hf => hf
  have hsame : ∀ c', d.entry = some c' → ∃ c, d.entry = some c ∧ c'.delivered = c.delivered :=
    fun c hc => ⟨c, hc, rfl⟩
  cases hstep with
  | drop hstands =>
    exact h.goes hcounted rfl rfl (by simp) (by simp [hstands]) (fun _ => .inr rfl)
      (fun f => lives_of_goes (by simp [Place.begun]) hcurrent) hsame
  | spoil hstands | outdo hstands =>
    exact h.goes hcounted rfl rfl (by simp) (by simp [hstands]) (fun _ => .inl rfl)
      (fun f => lives_of_goes (fun _ => .inl (by rw [hstands]; rfl)) hcurrent) hsame
  | @allow g hstands =>
    exact h.goes hcounted rfl rfl (by simp) (by simp [hstands])
      (fun hg => absurd hg (hnot g (by simp [hstands]) (by simp [hstands])))
      (fun f => lives_of_goes (fun _ => .inl (by rw [hstands]; rfl)) hcurrent) hsame
  | giveUp hstands | finish hstands =>
    exact h.leave (by rw [hstands]; rfl) (by simp [hstands])
  | @begin g c phase fanOut hstands hentry hcur =>
    have hnewest : d.IsCurrent g := ⟨c, _, hentry, hcur, rfl⟩
    refine h.goes hcounted rfl rfl (by simp) (by simp [hstands])
      (fun hg => absurd hg (hnot g (by simp [hstands]) ?_))
      (fun f => lives_of_goes (fun _ => .inr hnewest) ?_) ?_
    · simp [hstands]
    · rintro f ⟨c', r, hc', hr, rfl⟩
      cases hc'
      cases hr
      exact hnewest
    · rintro c' hc'
      cases hc'
      exact ⟨c, hentry, rfl⟩
  | ask fanOut hfresh => exact h.ask fanOut hfresh
  | claim hstands halone hentry hnewest => exact h.claim hstands halone hentry hnewest hcounted
  | hand hstands => exact h.hand hstands hcounted

/-! ## The evaluation asked for last is not lost -/

/-- The evaluation is through: what is remembered and what was reported last is as new as it. -/
structure Through (d : Docket) (g : Nat) : Prop where
  delivered : ∀ c, d.entry = some c → ∃ seen, c.delivered = some seen ∧ g ≤ seen
  reported : (∃ f, d.place f = .claimed) ∨ ∃ f, d.reported.getLast? = some f ∧ g ≤ f

/-- The evaluation that was asked for last is under way as the newest one, or through. -/
def Lasting (d : Docket) : Prop :=
  ∀ g, d.asked.getLast? = some g →
    ((d.place g).ahead = true ∧ d.IsCurrent g) ∨ d.Through g

theorem lasting_empty : ({} : Docket).Lasting := fun _ h => by cases h

/-- An evaluation that has claimed nothing moves on. -/
theorem Through.goes {f : Nat} {p : Place} (h : d.Through g)
    (hplace : d'.place = (d.goes f p).place) (hlog : d'.log = d.log)
    (hstands : d.place f ≠ .claimed)
    (hentry : ∀ c', d'.entry = some c' → ∃ c, d.entry = some c ∧ c'.delivered = c.delivered) :
    d'.Through g where
  delivered c' hc' := by
    obtain ⟨c, hc, hsame⟩ := hentry c' hc'
    rw [hsame]
    exact h.delivered c hc
  reported := by
    rw [Docket.reported, hlog]
    refine h.reported.imp ?_ id
    rintro ⟨k, hk⟩
    have hne : k ≠ f := by
      rintro rfl
      exact hstands hk
    exact ⟨k, by rw [hplace, place_goes_of_ne hne, hk]⟩

/-- The newest evaluation stays the newest when another one leaves. -/
theorem IsCurrent.leave {f : Nat} (h : d.IsCurrent g) (hne : g ≠ f) :
    ({ d.goes f .away with
      entry := d.entry.bind fun c => Ledger.leftAfter c f } : Docket).IsCurrent g := by
  obtain ⟨c, r, hc, hr, rfl⟩ := h
  have hcurrent : (c.finish f).current = some r := by
    simp [CellState.finish, hr, hne]
  refine ⟨c.finish f, r, ?_, hcurrent, rfl⟩
  simp [hc, Ledger.leftAfter, CellState.isIdle, hcurrent]

/-- Another evaluation moves on while the one asked for last is under way. -/
theorem Lasting.keep {f : Nat} {p : Place} (h : d.Lasting) (hlast : d.asked.getLast? = some g)
    (hplace : d'.place = (d.goes f p).place)
    (hother : (d.place g).ahead = true → d.IsCurrent g → f ≠ g)
    (hcurrent : f ≠ g → d.IsCurrent g → d'.IsCurrent g) (hthrough : d.Through g → d'.Through g) :
    ((d'.place g).ahead = true ∧ d'.IsCurrent g) ∨ d'.Through g := by
  rcases h g hlast with ⟨hahead, hcur⟩ | hdone
  · have hne := hother hahead hcur
    refine .inl ⟨?_, hcurrent hne hcur⟩
    rwa [hplace, place_goes_of_ne hne.symm]
  · exact .inr (hthrough hdone)

/-- One whose report comes too late is through: what was reported before is newer, and was reported
last. -/
theorem Through.of_outdone (hd : d.Sound) (hcur : d.IsCurrent g)
    (halone : ∀ other, d.place other ≠ .claimed)
    (holder : ∀ c, d.entry = some c → ∃ seen, c.delivered = some seen ∧ g < seen) {p : Place} :
    (d.goes g p).Through g := by
  obtain ⟨c, r, hc, -, -⟩ := hcur
  obtain ⟨seen, hseen, hlt⟩ := holder c hc
  refine ⟨fun c' hc' => ?_, .inr ⟨seen, hd.last c seen hc hseen halone, Nat.le_of_lt hlt⟩⟩
  obtain rfl : c = c' := Option.some.inj (hc.symm.trans hc')
  exact ⟨seen, hseen, Nat.le_of_lt hlt⟩

/-- Whoever is through is so after another one claims a delivery. -/
theorem Through.claim {f : Nat} (h : d.Through g) (hentry : d.entry = some c)
    (hnewest : ∀ seen, c.delivered = some seen → seen ≤ f) :
    ({ d.goes f .claimed with
      entry := some { c with delivered := some f } } : Docket).Through g := by
  refine ⟨fun c' hc' => ?_, .inl ⟨f, place_goes_self _⟩⟩
  cases hc'
  obtain ⟨seen, hseen, hle⟩ := h.delivered c hentry
  exact ⟨f, rfl, Nat.le_trans hle (hnewest seen hseen)⟩

/-- Whoever is through is so after the sink gets a report. -/
theorem Through.hand {f : Nat} (hd : d.Sound) (h : d.Through g) (hstands : d.place f = .claimed) :
    ({ d.goes f .leaving with log := d.log ++ [.reported f] } : Docket).Through g := by
  obtain ⟨c, hc, hheld⟩ := hd.held f hstands
  obtain ⟨seen, hseen, hle⟩ := h.delivered c hc
  obtain rfl : seen = f := Option.some.inj (hseen.symm.trans hheld)
  refine ⟨h.delivered, .inr ⟨seen, ?_, hle⟩⟩
  rw [Docket.reported, reported_of_reported, List.getLast?_concat]

theorem Lasting.step (hd : d.Sound) (h : d.Lasting) (hstep : Step true d d') : d'.Lasting := by
  have hsame : ∀ c', d.entry = some c' → ∃ c, d.entry = some c ∧ c'.delivered = c.delivered :=
    fun c hc => ⟨c, hc, rfl⟩
  intro g hlast
  cases hstep with
  | @ask f fanOut hfresh =>
    rw [asked, asked_of_asked, List.getLast?_concat, Option.some.injEq] at hlast
    subst hlast
    obtain ⟨r, hr, hg, -⟩ := Fits.current_request (d.entry.getD {}) f fanOut
    exact .inl ⟨by simp [goes, Place.ahead], _, r, rfl, hr, hg⟩
  | @begin f c phase fanOut hstands hentry hcur =>
    have hnewest : d.IsCurrent f := ⟨c, _, hentry, hcur, rfl⟩
    obtain rfl : f = g := Option.some.inj ((hd.newest f hnewest).symm.trans hlast)
    exact .inl ⟨by simp [goes, Place.ahead], _, _, rfl, rfl, rfl⟩
  | @drop f hstands hmay =>
    refine h.keep hlast rfl (fun _ hcur => ?_) (fun _ => id)
      fun hdone => hdone.goes rfl rfl (by simp [hstands]) hsame
    rintro rfl
    exact hmay rfl hlast hcur
  | @spoil f hstands hmay =>
    refine h.keep hlast rfl (fun _ _ => ?_) (fun _ => id)
      fun hdone => hdone.goes rfl rfl (by simp [hstands]) hsame
    rintro rfl
    exact hmay rfl hlast
  | @giveUp f hstands hmay =>
    refine h.keep hlast rfl (fun _ _ => ?_) (fun hne hcur => hcur.leave hne.symm)
      fun hdone => hdone.goes rfl rfl (by simp [hstands]) fun c' => delivered_of_leftAfter
    rintro rfl
    exact hmay rfl hlast
  | @finish f hstands =>
    refine h.keep hlast rfl (fun hahead _ => ?_) (fun hne hcur => hcur.leave hne.symm)
      fun hdone => hdone.goes rfl rfl (by simp [hstands]) fun c' => delivered_of_leftAfter
    rintro rfl
    simp [hstands, Place.ahead] at hahead
  | @allow f hstands =>
    rcases h g hlast with ⟨hahead, hcur⟩ | hdone
    · refine .inl ⟨?_, hcur⟩
      by_cases hne : g = f
      · simp [goes, hne, Place.ahead]
      · rwa [place_goes_of_ne hne]
    · exact .inr (hdone.goes rfl rfl (by simp [hstands]) hsame)
  | @outdo f hstands halone holder =>
    by_cases hne : f = g
    · subst hne
      rcases h f hlast with ⟨-, hcur⟩ | hdone
      · exact .inr (.of_outdone hd hcur halone holder)
      · exact .inr (hdone.goes rfl rfl (by simp [hstands]) hsame)
    · exact h.keep hlast rfl (fun _ _ => hne) (fun _ => id)
        fun hdone => hdone.goes rfl rfl (by simp [hstands]) hsame
  | @claim f c hstands halone hentry hnewest =>
    by_cases hne : f = g
    · subst hne
      refine .inr ⟨fun c' hc' => ?_, .inl ⟨f, place_goes_self _⟩⟩
      cases hc'
      exact ⟨f, rfl, Nat.le_refl f⟩
    · refine h.keep hlast rfl (fun _ _ => hne) ?_ fun hdone => hdone.claim hentry hnewest
      rintro - ⟨c₀, r, hc₀, hr, hrg⟩
      obtain rfl : c = c₀ := Option.some.inj (hentry.symm.trans hc₀)
      exact ⟨_, r, rfl, hr, hrg⟩
  | @hand f hstands =>
    rw [asked, asked_of_reported] at hlast
    refine h.keep hlast rfl (fun hahead _ => ?_) (fun _ => id) fun hdone => hdone.hand hd hstands
    rintro rfl
    simp [hstands, Place.ahead] at hahead

/-- The entry was forgotten, and nothing is asked for any more: whoever has claimed a delivery is
the last to be reported. -/
structure Spent (d : Docket) : Prop where
  entry : d.entry = none
  alone : ∀ g g', d.place g = .claimed → d.place g' = .claimed → g = g'
  order : ∀ l₁ g₁ l₂ g₂ l₃, d.log = l₁ ++ .reported g₁ :: l₂ ++ .reported g₂ :: l₃ →
    g₁ < g₂ ∨ .asked g₂ ∈ l₂
  older : ∀ g, d.place g = .claimed → ∀ l₁ f l₂, d.log = l₁ ++ .reported f :: l₂ →
    f < g ∨ .asked g ∈ l₂

theorem Sound.spent (h : d.Sound) : ({ d with entry := none } : Docket).Spent :=
  ⟨rfl, h.alone, h.order, fun _ hg _ _ _ hl => h.older_of_claimed hg hl⟩

theorem Spent.forget (h : d.Spent) : ({ d with entry := none } : Docket).Spent :=
  ⟨rfl, h.alone, h.order, h.older⟩

/-- One that claims nothing moves on. -/
theorem Spent.goes (h : d.Spent) {p : Place} (hp : p ≠ .claimed) {entry : Option CellState}
    (hentry : entry = none) : ({ d.goes g p with entry } : Docket).Spent := by
  have hback : ∀ f, (d.goes g p).place f = .claimed → d.place f = .claimed :=
    fun f hf => (place_of_goes hf hp).2
  exact ⟨hentry, fun f f' hf hf' => h.alone f f' (hback f hf) (hback f' hf'), h.order,
    fun f hf => h.older f (hback f hf)⟩

theorem Spent.step (h : d.Spent) (hstep : Step strict d d') (hasked : d'.asked = d.asked) :
    d'.Spent := by
  have hnone : ∀ {g}, (d.entry.bind fun c => Ledger.leftAfter c g) = none := by simp [h.entry]
  cases hstep with
  | @ask g =>
    rw [asked, asked_of_asked] at hasked
    simpa using congrArg List.length hasked
  | begin _ hentry | claim _ _ hentry => cases h.entry.symm.trans hentry
  | drop | spoil | allow | outdo => exact h.goes (by simp) h.entry
  | giveUp | finish => exact h.goes (by simp) hnone
  | @hand g hstands =>
    have hgone : ∀ f, (d.goes g .leaving).place f ≠ .claimed := by
      intro f hf
      obtain ⟨hfg, hf⟩ := place_of_goes hf (by simp)
      exact hfg (h.alone f g hf hstands)
    refine ⟨h.entry, fun f f' hf => absurd hf (hgone f), fun l₁ g₁ l₂ g₂ l₃ hl => ?_,
      fun f hf => absurd hf (hgone f)⟩
    rcases split_concat hl with ⟨hn, -, hlog⟩ | ⟨l₄, rfl, hlog⟩
    · cases hn
      exact h.older g hstands l₁ g₁ l₂ hlog
    · exact h.order l₁ g₁ l₂ g₂ l₄ hlog

end Docket

end CellRules.Watch
