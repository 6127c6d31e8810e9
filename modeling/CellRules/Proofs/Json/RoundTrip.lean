/-
CellRules.Proofs.Json.RoundTrip — a value that was written is read again.

A value has a text if its numerals are numerals and no part of it is unreadable (`Sound False`). What
is read is of this kind, but for tokens without a value (`sound_of_ofText?`), and the text of such a
value, written compactly or over several lines, is read as the value again (`ofText?_compact`,
`ofText?_pretty`).

The writer puts the parts of a value one behind the other, with white space between some of them. So
for each kind of part there is a statement that reading takes it off the front of what follows:
characters (`codePoints?_escaped`), strings (`string?_quoted`), numerals (`numeral?_append`), and
values, items and members together, by induction on the bound of the reader (`read_written`). Each
character that is written pays for two steps of the reader.
-/
import CellRules.Json.Writer
import CellRules.Proofs.Json.Numeral
import Mathlib.Data.List.Forall2

namespace CellRules.Json

open Grammar Number

/-! ## Values with a text -/

/-- The numerals of a value are numerals, and a part of it is unreadable only if parts may be. -/
inductive Sound (unread : Prop) : Json → Prop
  | null : Sound unread .null
  | bool (b : Bool) : Sound unread (.bool b)
  | number {numeral : String} (h : Numeral numeral.toList) : Sound unread (.number numeral)
  | string (s : String) : Sound unread (.string s)
  | array {items : List Json} (h : ∀ v ∈ items, Sound unread v) : Sound unread (.array items)
  | object {members : List (String × Json)} (h : ∀ m ∈ members, Sound unread m.2) :
      Sound unread (.object members)
  | unreadable (h : unread) : Sound unread .unreadable

variable {pretty : Bool} {level fuel : Nat} {unread : Prop} {j v : Json} {vs items : List Json}
  {members : List (String × Json)} {cs gap rest : List Char}

theorem sound_int (i : Int) : Sound unread (.int i) := .number (numeral_int i)

theorem sound_nat (n : Nat) : Sound unread (.nat n) := sound_int n

theorem Sound.option {α : Type} {f : α → Json} {a : Option α} (h : ∀ x ∈ a, Sound unread (f x)) :
    Sound unread (Json.option f a) := by
  cases a with
  | none => exact .null
  | some x => exact h x rfl

/-- Items are decoded exactly if each one is. -/
theorem mapM_eq_some {α β : Type} {f : α → Option β} {as : List α} {bs : List β} :
    as.mapM f = some bs ↔ List.Forall₂ (fun a b => f a = some b) as bs := by
  induction as generalizing bs with
  | nil => cases bs <;> simp
  | cons a as ih =>
    rw [List.mapM_cons]
    cases ha : f a with
    | none => cases bs <;> simp [ha]
    | some b =>
      cases has : as.mapM f with
      | none => cases bs <;> simp [ha, has, ← ih]
      | some rest => cases bs <;> simp [ha, has, ← ih]

theorem exists_of_mapM_eq_some {α β : Type} {f : α → Option β} {as : List α} {bs : List β}
    (h : as.mapM f = some bs) {b : β} (hb : b ∈ bs) : ∃ a ∈ as, f a = some b := by
  have hall := mapM_eq_some.mp h
  clear h
  induction hall with
  | nil => cases hb
  | cons ha _ ih =>
    rcases List.mem_cons.mp hb with rfl | hb
    · exact ⟨_, List.mem_cons_self, ha⟩
    · obtain ⟨a, hmem, ha⟩ := ih hb
      exact ⟨a, List.mem_cons_of_mem _ hmem, ha⟩

/-! ## White space -/

theorem skipGap_append (hgap : ∀ c ∈ gap, isGap c = true) (cs : List Char) :
    skipGap (gap ++ cs) = skipGap cs :=
  List.dropWhile_append_of_pos hgap

theorem skipGap_cons {c : Char} (hc : isGap c = false) (cs : List Char) :
    skipGap (c :: cs) = c :: cs := by
  simp [skipGap, hc]

theorem isGap_lineBreak (pretty : Bool) (level : Nat) :
    ∀ c ∈ lineBreak pretty level, isGap c = true := by
  intro c hc
  cases pretty with
  | false => cases hc
  | true =>
    rcases List.mem_cons.mp hc with rfl | hspace
    · rfl
    · rw [List.eq_of_mem_replicate hspace]
      rfl

theorem follows_lineBreak (hrest : Follows rest) : Follows (lineBreak pretty level ++ rest) := by
  cases pretty with
  | false => exact hrest
  | true => exact stops_cons.mpr rfl

/-! ## Strings -/

theorem hexValues?_hexDigit :
    ∀ n < 0x20, hexValues? '0' '0' (hexDigit (n / 16)) (hexDigit (n % 16)) = some n := by
  decide

/-- A character that is not escaped is read as it stands. -/
theorem codePoints?_cons {c : Char} (hquote : c ≠ '"') (hslash : c ≠ '\\') (hspace : 0x20 ≤ c.toNat)
    (rest : List Char) :
    codePoints? (c :: rest) = (codePoints? rest).map fun (ns, rest) => (c.toNat :: ns, rest) := by
  have hplain : ¬ (c.toNat < 0x20 || c == '\\') = true := by
    simpa [hslash] using hspace
  rw [codePoints?, if_neg hplain]
  · exact hquote
  · exact fun _ _ _ _ _ hc => absurd hc hslash
  · exact fun _ _ hc => absurd hc hslash

theorem codePoints?_short {e : Char} {n : Nat} (h : shortEscape? e = some n) (hu : e ≠ 'u')
    (rest : List Char) :
    codePoints? ('\\' :: e :: rest)
      = (codePoints? rest).map fun (ns, rest) => (n :: ns, rest) := by
  rw [codePoints?, h, Option.map_eq_bind]
  · rfl
  · exact fun _ _ _ _ _ he => absurd he hu

theorem codePoints?_hex {a b c d : Char} {n : Nat} (h : hexValues? a b c d = some n)
    (rest : List Char) :
    codePoints? ('\\' :: 'u' :: a :: b :: c :: d :: rest)
      = (codePoints? rest).map fun (ns, rest) => (n :: ns, rest) := by
  rw [codePoints?, h, Option.map_eq_bind]
  rfl

/-- The way a character stands in a string is read as its code point. -/
theorem codePoints?_escaped (c : Char) (rest : List Char) :
    codePoints? (escaped c ++ rest)
      = (codePoints? rest).map fun (ns, rest) => (c.toNat :: ns, rest) := by
  unfold escaped
  split_ifs with hquote hslash hline hreturn htab hback hform hspace
  · rw [eq_of_beq hquote]; exact codePoints?_short rfl (by decide) rest
  · rw [eq_of_beq hslash]; exact codePoints?_short rfl (by decide) rest
  · rw [eq_of_beq hline]; exact codePoints?_short rfl (by decide) rest
  · rw [eq_of_beq hreturn]; exact codePoints?_short rfl (by decide) rest
  · rw [eq_of_beq htab]; exact codePoints?_short rfl (by decide) rest
  · rw [eq_of_beq hback]; exact codePoints?_short rfl (by decide) rest
  · rw [eq_of_beq hform]; exact codePoints?_short rfl (by decide) rest
  · exact codePoints?_hex (hexValues?_hexDigit _ hspace) rest
  · exact codePoints?_cons (by simpa using hquote) (by simpa using hslash) (by omega) rest

/-- A string up to its closing quote is read as its code points. -/
theorem codePoints?_flatMap (cs rest : List Char) :
    codePoints? (cs.flatMap escaped ++ '"' :: rest) = some (cs.map Char.toNat, rest) := by
  induction cs with
  | nil => rw [List.flatMap_nil, List.nil_append, codePoints?]; rfl
  | cons c cs ih => rw [List.flatMap_cons, List.append_assoc, codePoints?_escaped, ih]; rfl

/-- A character is not half a pair. -/
theorem not_surrogate (c : Char) : c.toNat < 0xD800 ∨ 0xDFFF < c.toNat :=
  c.valid.imp id (·.1)

theorem joinPairs?_cons (c : Char) (ns : List Nat) :
    joinPairs? (c.toNat :: ns) = (joinPairs? ns).map (c :: ·) := by
  have hnot := not_surrogate c
  cases ns with
  | nil => simp [joinPairs?]; omega
  | cons n ns =>
    rw [joinPairs?, if_neg (by simp; omega), if_neg (by simp; omega), Char.ofNat_toNat]

theorem joinPairs?_map_toNat (cs : List Char) : joinPairs? (cs.map Char.toNat) = some cs := by
  induction cs with
  | nil => rfl
  | cons c cs ih => rw [List.map_cons, joinPairs?_cons, ih]; rfl

/-- A string that was written is read again. -/
theorem string?_quoted (s : String) (rest : List Char) :
    ∃ body, quoted s ++ rest = '"' :: body ∧ Grammar.string? body = some (some s, rest) := by
  refine ⟨s.toList.flatMap escaped ++ '"' :: rest, by simp [quoted], ?_⟩
  simp only [Grammar.string?, codePoints?_flatMap, Option.map_some, joinPairs?_map_toNat,
    String.ofList_toList]

/-! ## Values -/

theorem value?_gap (hgap : ∀ c ∈ gap, isGap c = true) (fuel : Nat) (cs : List Char) :
    value? fuel (gap ++ cs) = value? fuel cs := by
  cases fuel with
  | zero => rfl
  | succ fuel => rw [value?, value?, skipGap_append hgap]

theorem items?_gap (hgap : ∀ c ∈ gap, isGap c = true) (fuel : Nat) (cs : List Char) :
    items? fuel (gap ++ cs) = items? fuel cs := by
  cases fuel with
  | zero => rfl
  | succ fuel => rw [items?, items?, value?_gap hgap]

theorem members?_gap (hgap : ∀ c ∈ gap, isGap c = true) (fuel : Nat) (cs : List Char) :
    members? fuel (gap ++ cs) = members? fuel cs := by
  cases fuel with
  | zero => rfl
  | succ fuel => rw [members?, members?, skipGap_append hgap]

theorem isGap_of_digit {c : Char} (hc : c.isDigit = true ∨ c = '-') : isGap c = false := by
  rw [Bool.eq_false_iff]
  intro hgap
  simp only [isGap, Bool.or_eq_true, beq_iff_eq] at hgap
  rcases hgap with ((rfl | rfl) | rfl) | rfl <;> rcases hc with hc | hc <;> cases hc

theorem value?_numeral {numeral : String} (h : Numeral numeral.toList) (hrest : Follows rest)
    (fuel : Nat) : value? (fuel + 1) (numeral.toList ++ rest) = some (.number numeral, rest) := by
  have hread := numeral?_append h hrest
  obtain ⟨c, tail, heq, hc⟩ := h.exists_cons
  rw [heq, List.cons_append] at hread ⊢
  rw [value?, skipGap_cons (isGap_of_digit hc)]
  split
  case h_7 => simp only [hread, Option.map_some, ← heq, String.ofList_toList]
  all_goals
    rename_i hhead
    rw [(List.cons.inj hhead).1] at hc
    rcases hc with hc | hc <;> cases hc

theorem value?_array {c : Char} {tail body : List Char} (hgap : ∀ c ∈ gap, isGap c = true)
    (hbody : body = c :: tail) (hc : isGap c = false) (hend : c ≠ ']') (fuel : Nat) :
    value? (fuel + 1) ('[' :: (gap ++ body))
      = (items? fuel body).map fun (items, rest) => (.array items, rest) := by
  rw [value?, skipGap_cons rfl]
  simp only [skipGap_append hgap]
  rw [hbody, skipGap_cons hc]
  split
  · rename_i heq
    exact absurd (List.cons.inj heq).1 hend
  · rfl

theorem value?_object {tail body : List Char} (hgap : ∀ c ∈ gap, isGap c = true)
    (hbody : body = '"' :: tail) (fuel : Nat) :
    value? (fuel + 1) ('\x7b' :: (gap ++ body))
      = (members? fuel body).map fun (members, rest) => (ofMembers members, rest) := by
  rw [value?, skipGap_cons rfl]
  simp only [skipGap_append hgap, hbody, skipGap_cons (rfl : isGap '"' = false)]
  rfl

/-- The text of a value starts with neither a gap nor the end of an array. -/
theorem exists_write_cons (pretty : Bool) (level : Nat) (hj : Sound unread j) :
    ∃ c tail, write pretty level j = c :: tail ∧ isGap c = false ∧ c ≠ ']' := by
  cases hj with
  | null | unreadable => exact ⟨'n', _, rfl, rfl, by decide⟩
  | bool b => cases b <;> exact ⟨_, _, rfl, rfl, by decide⟩
  | number h =>
    obtain ⟨c, tail, heq, hc⟩ := h.exists_cons
    refine ⟨c, tail, heq, isGap_of_digit hc, ?_⟩
    rintro rfl
    rcases hc with hc | hc <;> cases hc
  | string s => exact ⟨'"', _, rfl, rfl, by decide⟩
  | @array items => cases items <;> exact ⟨'[', _, rfl, rfl, by decide⟩
  | @object members => cases members <;> exact ⟨'\x7b', _, rfl, rfl, by decide⟩

theorem ofMembers_some (members : List (String × Json)) :
    ofMembers (members.map fun (name, v) => (some name, v)) = .object members := by
  have hall : (members.map fun (name, v) => (some name, v)).mapM
      (fun (m : Option String × Json) => m.1.map (·, m.2)) = some members := by
    rw [mapM_eq_some, List.forall₂_map_left_iff]
    exact List.forall₂_same.mpr fun _ _ => rfl
  simp only [ofMembers, hall]

/-- With so many steps a reader reads what the writer wrote. -/
structure ReadsBack (pretty : Bool) (fuel : Nat) : Prop where
  value {j : Json} (level : Nat) (rest : List Char) (hj : Sound False j) (hrest : Follows rest)
    (hfuel : 2 * (write pretty level j).length ≤ fuel) :
    value? fuel (write pretty level j ++ rest) = some (j, rest)
  items {v : Json} {vs : List Json} (level outer : Nat) (rest : List Char)
    (hsound : ∀ x ∈ v :: vs, Sound False x)
    (hfuel : 2 * (write pretty level v ++ writeItems pretty level vs).length + 3 ≤ fuel) :
    items? fuel (write pretty level v ++ writeItems pretty level vs ++
      lineBreak pretty outer ++ ']' :: rest) = some (v :: vs, rest)
  members {name : String} {v : Json} {ms : List (String × Json)} (level outer : Nat)
    (rest : List Char) (hsound : ∀ m ∈ (name, v) :: ms, Sound False m.2)
    (hfuel : 2 * (quoted name ++ colon pretty ++ write pretty level v ++
      writeMembers pretty level ms).length + 3 ≤ fuel) :
    members? fuel (quoted name ++ colon pretty ++ write pretty level v ++
      writeMembers pretty level ms ++ lineBreak pretty outer ++ '\x7d' :: rest)
        = some (((name, v) :: ms).map fun (name, v) => (some name, v), rest)

theorem ReadsBack.value_succ (h : ReadsBack pretty fuel) (hj : Sound False j)
    (hrest : Follows rest) (hfuel : 2 * (write pretty level j).length ≤ fuel + 1) :
    value? (fuel + 1) (write pretty level j ++ rest) = some (j, rest) := by
  cases hj with
  | null => rfl
  | unreadable h => exact h.elim
  | bool b => cases b <;> rfl
  | number hn => exact value?_numeral hn hrest fuel
  | string s =>
    obtain ⟨body, heq, hread⟩ := string?_quoted s rest
    rw [write, heq, value?, skipGap_cons rfl]
    simp only [hread, Option.map_some, ofString]
  | @array items hitems =>
    cases items with
    | nil => rfl
    | cons v vs =>
      have hread := h.items (level + 1) level rest hitems (by
        simp only [write, List.length_append, List.length_cons] at hfuel ⊢
        omega)
      obtain ⟨c, tail, hv, hc, hend⟩ :=
        exists_write_cons pretty (level + 1) (hitems v List.mem_cons_self)
      have htext : write pretty level (.array (v :: vs)) ++ rest
          = '[' :: (lineBreak pretty (level + 1) ++ (write pretty (level + 1) v ++
            writeItems pretty (level + 1) vs ++ lineBreak pretty level ++ ']' :: rest)) := by
        simp [write]
      rw [htext, value?_array (isGap_lineBreak pretty _) (by simp [hv]; rfl) hc hend, hread]
      rfl
  | @object members hmembers =>
    cases members with
    | nil => rfl
    | cons m ms =>
      obtain ⟨name, v⟩ := m
      have hread := h.members (level + 1) level rest hmembers (by
        simp only [write, List.length_append, List.length_cons] at hfuel ⊢
        omega)
      have htext : write pretty level (.object ((name, v) :: ms)) ++ rest
          = '\x7b' :: (lineBreak pretty (level + 1) ++ (quoted name ++ colon pretty ++
            write pretty (level + 1) v ++ writeMembers pretty (level + 1) ms ++
            lineBreak pretty level ++ '\x7d' :: rest)) := by
        simp [write]
      rw [htext, value?_object (isGap_lineBreak pretty _) (by rfl)]
      simp only [hread, Option.map_some, ofMembers_some]

theorem ReadsBack.items_succ (h : ReadsBack pretty fuel) {outer : Nat}
    (hsound : ∀ x ∈ v :: vs, Sound False x)
    (hfuel : 2 * (write pretty level v ++ writeItems pretty level vs).length + 3 ≤ fuel + 1) :
    items? (fuel + 1) (write pretty level v ++ writeItems pretty level vs ++
      lineBreak pretty outer ++ ']' :: rest) = some (v :: vs, rest) := by
  rw [List.length_append] at hfuel
  cases vs with
  | nil =>
    have hread := h.value level (lineBreak pretty outer ++ ']' :: rest)
      (hsound v List.mem_cons_self) (follows_lineBreak (stops_cons.mpr rfl)) (by omega)
    rw [items?, writeItems, List.append_nil, List.append_assoc, hread]
    simp only [skipGap_append (isGap_lineBreak pretty outer), skipGap_cons (rfl : isGap ']' = false)]
  | cons w ws =>
    rw [writeItems, List.length_cons, List.length_append, List.length_append] at hfuel
    have hread := h.value level (writeItems pretty level (w :: ws) ++
        lineBreak pretty outer ++ ']' :: rest)
      (hsound v List.mem_cons_self) (by rw [writeItems]; exact stops_cons.mpr rfl) (by omega)
    have hrest := h.items level outer rest
      (fun x hx => hsound x (List.mem_cons_of_mem v hx)) (by rw [List.length_append]; omega)
    have htext : lineBreak pretty level ++ write pretty level w ++ writeItems pretty level ws ++
        lineBreak pretty outer ++ ']' :: rest
          = lineBreak pretty level ++ (write pretty level w ++ writeItems pretty level ws ++
            lineBreak pretty outer ++ ']' :: rest) := by
      simp only [List.append_assoc]
    rw [items?, List.append_assoc, List.append_assoc, ← List.append_assoc (writeItems ..), hread,
      writeItems]
    simp only [List.cons_append, skipGap_cons (rfl : isGap ',' = false)]
    rw [htext, items?_gap (isGap_lineBreak pretty level), hrest]
    rfl

theorem exists_colon (pretty : Bool) :
    ∃ gap, colon pretty = ':' :: gap ∧ ∀ c ∈ gap, isGap c = true := by
  cases pretty with
  | false => exact ⟨[], rfl, nofun⟩
  | true => exact ⟨[' '], rfl, fun c hc => by rw [List.mem_singleton.mp hc]; rfl⟩

theorem ReadsBack.members_succ (h : ReadsBack pretty fuel) {name : String} {outer : Nat}
    (hsound : ∀ m ∈ (name, v) :: members, Sound False m.2)
    (hfuel : 2 * (quoted name ++ colon pretty ++ write pretty level v ++
      writeMembers pretty level members).length + 3 ≤ fuel + 1) :
    members? (fuel + 1) (quoted name ++ colon pretty ++ write pretty level v ++
      writeMembers pretty level members ++ lineBreak pretty outer ++ '\x7d' :: rest)
        = some (((name, v) :: members).map fun (name, v) => (some name, v), rest) := by
  obtain ⟨gap, hcolon, hgap⟩ := exists_colon pretty
  have htext : quoted name ++ colon pretty ++ write pretty level v ++
      writeMembers pretty level members ++ lineBreak pretty outer ++ '\x7d' :: rest
        = quoted name ++ (':' :: (gap ++ (write pretty level v ++
          (writeMembers pretty level members ++ lineBreak pretty outer ++ '\x7d' :: rest)))) := by
    simp [hcolon]
  obtain ⟨body, hquoted, hname⟩ := string?_quoted name (':' :: (gap ++ (write pretty level v ++
    (writeMembers pretty level members ++ lineBreak pretty outer ++ '\x7d' :: rest))))
  rw [htext, hquoted, members?, skipGap_cons rfl]
  simp only [hname, skipGap_cons (rfl : isGap ':' = false), value?_gap hgap]
  rw [List.length_append, List.length_append] at hfuel
  have hv : Sound False v := hsound (name, v) List.mem_cons_self
  cases members with
  | nil =>
    have hread := h.value level (lineBreak pretty outer ++ '\x7d' :: rest)
      hv (follows_lineBreak (stops_cons.mpr rfl)) (by omega)
    simp only [writeMembers, List.nil_append, hread, skipGap_append (isGap_lineBreak pretty outer),
      skipGap_cons (rfl : isGap '\x7d' = false)]
    rfl
  | cons m ms =>
    obtain ⟨next, w⟩ := m
    have hread := h.value level (writeMembers pretty level ((next, w) :: ms) ++
        lineBreak pretty outer ++ '\x7d' :: rest)
      hv (by rw [writeMembers]; exact stops_cons.mpr rfl) (by omega)
    simp only [writeMembers, List.length_cons, List.length_append] at hfuel
    have hrest := h.members level outer rest
      (fun m hm => hsound m (List.mem_cons_of_mem _ hm)) (by
        simp only [List.length_append]
        omega)
    have htext : lineBreak pretty level ++ quoted next ++ colon pretty ++ write pretty level w ++
        writeMembers pretty level ms ++ lineBreak pretty outer ++ '\x7d' :: rest
          = lineBreak pretty level ++ (quoted next ++ colon pretty ++ write pretty level w ++
            writeMembers pretty level ms ++ lineBreak pretty outer ++ '\x7d' :: rest) := by
      simp only [List.append_assoc]
    rw [hread]
    simp only [writeMembers, List.cons_append, skipGap_cons (rfl : isGap ',' = false)]
    rw [htext, members?_gap (isGap_lineBreak pretty level), hrest]
    rfl

/-- However many steps there are: a reader reads what the writer wrote. -/
theorem readsBack (pretty : Bool) (fuel : Nat) : ReadsBack pretty fuel := by
  induction fuel with
  | zero =>
    refine ⟨fun level _ hj _ hfuel => ?_, fun _ _ _ _ hfuel => ?_, fun _ _ _ _ hfuel => ?_⟩
    · -- No value is written as nothing, so each one pays for a step.
      obtain ⟨c, tail, hwrite, -⟩ := exists_write_cons pretty level hj
      rw [hwrite, List.length_cons] at hfuel
      omega
    · omega
    · omega
  | succ fuel ih =>
    exact ⟨fun _ _ => ih.value_succ, fun _ _ _ => ih.items_succ, fun _ _ _ => ih.members_succ⟩

theorem ofText?_write (hj : Sound False j) : ofText? (String.ofList (write pretty 0 j)) = some j := by
  have hread := (readsBack pretty _).value 0 [] hj stops_nil
    (Nat.le_add_right (2 * (write pretty 0 j).length) 2)
  rw [List.append_nil] at hread
  simp [ofText?, hread, skipGap]

/-- The compact text of a value is read as the value. -/
theorem ofText?_compact (hj : Sound False j) : ofText? (compact j) = some j := ofText?_write hj

/-- The text of a value over several lines is read as the value. -/
theorem ofText?_pretty (hj : Sound False j) : ofText? (Json.pretty j) = some j := ofText?_write hj

/-! ## What is read -/

/-- With so many steps a reader reads sound values. -/
structure ReadsSound (fuel : Nat) : Prop where
  value {v : Json} {cs rest : List Char} (h : value? fuel cs = some (v, rest)) : Sound True v
  items {vs : List Json} {cs rest : List Char} (h : items? fuel cs = some (vs, rest)) :
    ∀ v ∈ vs, Sound True v
  members {ms : List (Option String × Json)} {cs rest : List Char}
    (h : members? fuel cs = some (ms, rest)) : ∀ m ∈ ms, Sound True m.2

theorem sound_ofMembers {ms : List (Option String × Json)} (h : ∀ m ∈ ms, Sound True m.2) :
    Sound True (ofMembers ms) := by
  unfold ofMembers
  split
  · rename_i members hall
    refine .object fun m hm => ?_
    obtain ⟨source, hsource, hnamed⟩ := exists_of_mapM_eq_some hall hm
    obtain ⟨name, -, rfl⟩ := Option.map_eq_some_iff.mp hnamed
    exact h source hsource
  · exact .unreadable trivial

theorem ReadsSound.value_succ (ih : ReadsSound fuel) (h : value? (fuel + 1) cs = some (v, rest)) :
    Sound True v := by
  unfold value? at h
  split at h
  · obtain ⟨rfl, rfl⟩ := Prod.mk.inj (Option.some.inj h)
    exact .null
  · obtain ⟨rfl, rfl⟩ := Prod.mk.inj (Option.some.inj h)
    exact .bool true
  · obtain ⟨rfl, rfl⟩ := Prod.mk.inj (Option.some.inj h)
    exact .bool false
  · obtain ⟨⟨s, _⟩, -, heq⟩ := Option.map_eq_some_iff.mp h
    obtain ⟨rfl, rfl⟩ := Prod.mk.inj heq
    cases s with
    | none => exact .unreadable trivial
    | some s => exact .string s
  · split at h
    · obtain ⟨rfl, rfl⟩ := Prod.mk.inj (Option.some.inj h)
      exact .array nofun
    · obtain ⟨⟨items, _⟩, hread, heq⟩ := Option.map_eq_some_iff.mp h
      obtain ⟨rfl, rfl⟩ := Prod.mk.inj heq
      exact .array (ih.items hread)
  · split at h
    · obtain ⟨rfl, rfl⟩ := Prod.mk.inj (Option.some.inj h)
      exact .object nofun
    · obtain ⟨⟨members, _⟩, hread, heq⟩ := Option.map_eq_some_iff.mp h
      obtain ⟨rfl, rfl⟩ := Prod.mk.inj heq
      exact sound_ofMembers (ih.members hread)
  · obtain ⟨⟨numeral, _⟩, hread, heq⟩ := Option.map_eq_some_iff.mp h
    obtain ⟨rfl, rfl⟩ := Prod.mk.inj heq
    refine .number ?_
    rw [String.toList_ofList]
    exact (numeral_of_numeral? hread).1

theorem ReadsSound.items_succ (ih : ReadsSound fuel)
    (h : items? (fuel + 1) cs = some (vs, rest)) : ∀ v ∈ vs, Sound True v := by
  unfold items? at h
  split at h
  · cases h
  · rename_i v tail hvalue
    have hv := ih.value hvalue
    split at h
    · obtain ⟨⟨more, _⟩, hread, heq⟩ := Option.map_eq_some_iff.mp h
      obtain ⟨rfl, rfl⟩ := Prod.mk.inj heq
      exact List.forall_mem_cons.mpr ⟨hv, ih.items hread⟩
    · obtain ⟨rfl, rfl⟩ := Prod.mk.inj (Option.some.inj h)
      exact List.forall_mem_cons.mpr ⟨hv, nofun⟩
    · cases h

theorem ReadsSound.members_succ (ih : ReadsSound fuel) {ms : List (Option String × Json)}
    (h : members? (fuel + 1) cs = some (ms, rest)) : ∀ m ∈ ms, Sound True m.2 := by
  unfold members? at h
  split at h
  · split at h
    · cases h
    · split at h
      · split at h
        · cases h
        · rename_i v tail hvalue
          have hv := ih.value hvalue
          split at h
          · obtain ⟨⟨more, _⟩, hread, heq⟩ := Option.map_eq_some_iff.mp h
            obtain ⟨rfl, rfl⟩ := Prod.mk.inj heq
            exact List.forall_mem_cons.mpr ⟨hv, ih.members hread⟩
          · obtain ⟨rfl, rfl⟩ := Prod.mk.inj (Option.some.inj h)
            exact List.forall_mem_cons.mpr ⟨hv, nofun⟩
          · cases h
      · cases h
  · cases h

theorem readsSound (fuel : Nat) : ReadsSound fuel := by
  induction fuel with
  | zero => exact ⟨nofun, nofun, nofun⟩
  | succ fuel ih => exact ⟨ih.value_succ, ih.items_succ, ih.members_succ⟩

/-- The numerals of a value that is read are numerals. -/
theorem sound_of_ofText? {text : String} (h : ofText? text = some j) : Sound True j := by
  unfold ofText? at h
  simp only at h
  split at h
  · rename_i v rest hvalue
    split at h
    · obtain rfl := Option.some.inj h
      exact (readsSound _).value hvalue
    · cases h
  · cases h

end CellRules.Json
