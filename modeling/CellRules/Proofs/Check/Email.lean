/-
CellRules.Proofs.Check.Email — which texts are email addresses.

The pattern of an address lets a label be a letter or digit, or two of them with up to sixty-one
letters, digits and hyphens between. These are the labels of at most sixty-three characters whose
hyphens stand at neither end (`spells_label`); a domain is labels with single dots between, and an
address is a mailbox, an at-sign and a domain (`spells_address`). So a cell is found to hold an address
exactly if its text is one with white space around it, and a rule made for that check fails exactly
the cells whose text is neither blank nor such a text (`isEmail_iff_padded_address`).
-/
import CellRules.Check.Email
import CellRules.Proofs.Cell.Blank
import CellRules.Proofs.Rule.OneCheck
import CellRules.Proofs.Text.Blank
import CellRules.Proofs.Text.Pattern

namespace CellRules.Check

open Text Text.Pattern

/-! ## The grammar -/

/-- A label of a domain: up to sixty-three ASCII letters, digits and hyphens, no hyphen at an end. -/
structure IsLabel (cs : List Char) : Prop where
  length_pos : 1 ≤ cs.length
  length_le : cs.length ≤ 63
  chars : ∀ c ∈ cs, c.isAlphanum = true ∨ c = '-'
  head : cs.head? ≠ some '-'
  last : cs.getLast? ≠ some '-'

/-- The characters that a mailbox may have beside ASCII letters and digits. -/
def mailboxMarks : List Char :=
  ['.', '!', '#', '$', '%', '&', '\'', '*', '+', '/', '=', '?', '^', '_', '`', '\x7b', '|', '\x7d',
    '~', '-']

/-- A mailbox: ASCII letters, digits and some marks. -/
structure IsMailbox (cs : List Char) : Prop where
  ne_nil : cs ≠ []
  chars : ∀ c ∈ cs, c.isAlphanum = true ∨ c ∈ mailboxMarks

/-- A domain: labels with single dots between, at least one. -/
def IsDomain (cs : List Char) : Prop :=
  ∃ labels : List (List Char), labels ≠ [] ∧ (∀ label ∈ labels, IsLabel label) ∧
    cs = ['.'].intercalate labels

/-- An address: a mailbox, an at-sign and a domain. -/
def IsAddress (cs : List Char) : Prop :=
  ∃ mailbox domain, IsMailbox mailbox ∧ IsDomain domain ∧ cs = mailbox ++ '@' :: domain

variable {c : Char} {cs : List Char}

/-! ## Labels -/

/-- A character that stands inside a label. -/
theorem inner_iff : (isAlnum c || c == '-') = true ↔ c.isAlphanum = true ∨ c = '-' := by
  simp [isAlnum]

theorem alnum_iff : isAlnum c = true ↔ (c.isAlphanum = true ∨ c = '-') ∧ c ≠ '-' := by
  constructor
  · intro h
    refine ⟨.inl h, ?_⟩
    rintro rfl
    cases h
  · rintro ⟨h | h, hne⟩
    · exact h
    · exact absurd h hne

/-- A label as the pattern puts it together. -/
theorem spells_label_parts : label.Spells cs ↔ ∃ first, isAlnum first = true ∧
    (cs = [first] ∨ ∃ inner last, inner.length ≤ 61 ∧
      (∀ c ∈ inner, (isAlnum c || c == '-') = true) ∧ isAlnum last = true ∧
      cs = first :: (inner ++ [last])) := by
  simp [label, spells_upTo_one, and_assoc]

/-- The pattern of a label describes the labels. -/
theorem spells_label : label.Spells cs ↔ IsLabel cs := by
  simp only [spells_label_parts, inner_iff, alnum_iff]
  constructor
  · rintro ⟨first, ⟨hfirst, hne⟩, rfl | ⟨inner, last, hlength, hinner, ⟨hlast, hne'⟩, rfl⟩⟩
    · exact
        { length_pos := Nat.le_refl 1
          length_le := by simp
          chars := by simpa using hfirst
          head := by simpa using hne
          last := by simpa using hne }
    · exact
        { length_pos := by simp
          length_le := by simp; omega
          chars := by
            simp only [List.forall_mem_cons, List.forall_mem_append]
            exact ⟨hfirst, hinner, hlast, List.forall_mem_nil _⟩
          head := by simpa using hne
          last := by simpa [List.getLast?_cons] using hne' }
  · intro h
    obtain ⟨hpos, hle, hchars, hhead, hlast⟩ := h
    cases cs with
    | nil => cases hpos
    | cons first rest =>
      rw [List.forall_mem_cons] at hchars
      refine ⟨first, ⟨hchars.1, by simpa using hhead⟩, ?_⟩
      -- A label of more than one character has a last one, and an inner part before it.
      rcases List.eq_nil_or_concat' rest with rfl | ⟨inner, last, rfl⟩
      · exact .inl rfl
      · rw [List.forall_mem_append, List.forall_mem_singleton] at hchars
        refine .inr ⟨inner, last, ?_, hchars.2.1, ⟨hchars.2.2, ?_⟩, rfl⟩
        · simp at hle
          omega
        · simpa [List.getLast?_cons] using hlast

/-! ## Domains and addresses -/

/-- Labels with dots between are a label, and labels with a dot before each. -/
theorem intercalate_dots (first : List Char) (labels : List (List Char)) :
    ['.'].intercalate (first :: labels) = first ++ (labels.map ('.' :: ·)).flatten := by
  induction labels generalizing first with
  | nil => simp [List.intercalate]
  | cons label labels ih =>
    have hmore : ['.'].intercalate (first :: label :: labels)
        = first ++ ('.' :: ['.'].intercalate (label :: labels)) := by
      simp [List.intercalate]
    rw [hmore, ih]
    simp

/-- Labels with a dot before each. -/
theorem spells_dotted : (many (.row [.char '.', label])).Spells cs ↔
    ∃ labels : List (List Char), (∀ label ∈ labels, IsLabel label) ∧
      cs = (labels.map ('.' :: ·)).flatten := by
  have hpart : ∀ part, (row [.char '.', label]).Spells part ↔
      ∃ label, IsLabel label ∧ part = '.' :: label := by
    simp [spells_label]
  simp only [spells_many, hpart]
  constructor
  · rintro ⟨parts, hparts, rfl⟩
    induction parts with
    | nil => exact ⟨[], nofun, rfl⟩
    | cons part parts ih =>
      obtain ⟨⟨label, hlabel, rfl⟩, hrest⟩ := List.forall_mem_cons.mp hparts
      obtain ⟨labels, hlabels, hflat⟩ := ih hrest
      refine ⟨label :: labels, List.forall_mem_cons.mpr ⟨hlabel, hlabels⟩, ?_⟩
      rw [List.flatten_cons, hflat, List.map_cons, List.flatten_cons]
  · rintro ⟨labels, hlabels, rfl⟩
    refine ⟨_, fun part hpart => ?_, rfl⟩
    obtain ⟨label, hmem, rfl⟩ := List.mem_map.mp hpart
    exact ⟨label, hlabels label hmem, rfl⟩

/-- A label and labels with a dot before each are a domain. -/
theorem isDomain_iff : IsDomain cs ↔ ∃ first rest, label.Spells first ∧
    (many (.row [.char '.', label])).Spells rest ∧ cs = first ++ rest := by
  simp only [spells_label, spells_dotted]
  constructor
  · rintro ⟨labels, hne, hlabels, rfl⟩
    obtain ⟨first, rest, rfl⟩ := List.exists_cons_of_ne_nil hne
    obtain ⟨hfirst, hrest⟩ := List.forall_mem_cons.mp hlabels
    exact ⟨first, _, hfirst, ⟨rest, hrest, rfl⟩, intercalate_dots first rest⟩
  · rintro ⟨first, _, hfirst, ⟨rest, hrest, rfl⟩, rfl⟩
    exact ⟨first :: rest, List.cons_ne_nil first rest, List.forall_mem_cons.mpr ⟨hfirst, hrest⟩,
      (intercalate_dots first rest).symm⟩

theorem isMailbox_iff :
    IsMailbox cs ↔ cs ≠ [] ∧ ∀ c ∈ cs, isMailboxChar c = true := by
  have hchar : ∀ c, isMailboxChar c = true ↔ c.isAlphanum = true ∨ c ∈ mailboxMarks := fun c => by
    rw [isMailboxChar, Bool.or_eq_true, List.contains_iff_mem]
    rfl
  simp only [hchar]
  exact ⟨fun h => ⟨h.ne_nil, h.chars⟩, fun h => ⟨h.1, h.2⟩⟩

/-- The pattern of an address describes the addresses. -/
theorem spells_address : address.Spells cs ↔ IsAddress cs := by
  simp only [IsAddress, isMailbox_iff, isDomain_iff, address, spells_row_cons, spells_row_nil,
    spells_oneOrMore_one, spells_char]
  constructor
  · rintro ⟨mailbox, _, hmailbox, ⟨_, _, rfl, ⟨first, _, hfirst, ⟨rest, _, hrest, rfl, rfl⟩, rfl⟩,
      rfl⟩, rfl⟩
    exact ⟨mailbox, _, hmailbox, ⟨first, rest, hfirst, hrest, rfl⟩, by simp⟩
  · rintro ⟨mailbox, _, hmailbox, ⟨first, rest, hfirst, hrest, rfl⟩, rfl⟩
    exact ⟨mailbox, _, hmailbox, ⟨_, _, rfl, ⟨first, _, hfirst, ⟨rest, _, hrest, rfl, rfl⟩, rfl⟩,
      rfl⟩, by simp⟩

/-! ## White space -/

theorem not_space_of_alphanum (hc : c.isAlphanum = true) : isSpace c = false := by
  have hrange : (0x41 ≤ c.toNat ∧ c.toNat ≤ 0x5A) ∨ (0x61 ≤ c.toNat ∧ c.toNat ≤ 0x7A) ∨
      (0x30 ≤ c.toNat ∧ c.toNat ≤ 0x39) := by
    delta Char.isAlphanum Char.isAlpha Char.isUpper Char.isLower Char.isDigit at hc
    simpa [UInt32.le_iff_toNat_le, or_assoc] using hc
  simp [isSpace]
  omega

theorem IsLabel.not_space (h : IsLabel cs) : ∀ c ∈ cs, isSpace c = false := by
  intro c hc
  rcases h.chars c hc with hc | rfl
  · exact not_space_of_alphanum hc
  · rfl

theorem IsDomain.not_space (h : IsDomain cs) : ∀ c ∈ cs, isSpace c = false := by
  obtain ⟨labels, hne, hlabels, rfl⟩ := h
  obtain ⟨first, rest, rfl⟩ := List.exists_cons_of_ne_nil hne
  obtain ⟨hfirst, hrest⟩ := List.forall_mem_cons.mp hlabels
  rw [intercalate_dots, List.forall_mem_append]
  refine ⟨hfirst.not_space, fun c hc => ?_⟩
  obtain ⟨_, hdotted, hc⟩ := List.mem_flatten.mp hc
  obtain ⟨label, hlabel, rfl⟩ := List.mem_map.mp hdotted
  rcases List.mem_cons.mp hc with rfl | hc
  · rfl
  · exact (hrest label hlabel).not_space c hc

theorem IsMailbox.not_space (h : IsMailbox cs) : ∀ c ∈ cs, isSpace c = false := by
  have hmarks : mailboxMarks.all (fun c => !isSpace c) = true := by decide
  intro c hc
  rcases h.chars c hc with hc | hc
  · exact not_space_of_alphanum hc
  · simpa using List.all_eq_true.mp hmarks c hc

/-- There is no white space in an address. -/
theorem IsAddress.not_space (h : IsAddress cs) : ∀ c ∈ cs, isSpace c = false := by
  obtain ⟨mailbox, domain, hmailbox, hdomain, rfl⟩ := h
  rw [List.forall_mem_append, List.forall_mem_cons]
  exact ⟨hmailbox.not_space, rfl, hdomain.not_space⟩

/-! ## The check -/

/-- A text is found to be an address exactly if it is one with white space around it. -/
theorem isEmail_iff {text : String} : isEmail text = true ↔ Padded IsAddress text.toList := by
  rw [isEmail, fits_iff, spells_address]
  exact padded_iff fun _ h => .of_forall h.not_space

/-- A check of the form of the judged cell does not pass exactly if the text of the cell is not
blank and not of the form. -/
theorem passes_ofColumn_textForm (form : String → Bool) (expected : String) (ctx : RowContext) :
    (Draft.ofColumn (textForm form expected) ctx).passes = false ↔
      ∃ column cell, ctx.column = some column ∧ ctx.get? column = some cell ∧
        Text.isBlank cell.toText = false ∧ form cell.toText = false := by
  simp only [Cell.isBlank_toText, Draft.ofColumn]
  cases ctx.column with
  | none => simp [Verdict.success]
  | some column =>
    cases hcell : ctx.get? column with
    | none => simp [textForm, RowContext.filled?, hcell, Verdict.success]
    | some cell =>
      have hpasses : (textForm form expected column ctx).passes
          = (cell.isBlank || form cell.toText) := by
        rw [textForm, RowContext.filled?, hcell]
        cases hblank : cell.isBlank <;> cases hform : form cell.toText <;>
          simp [Option.filter, hblank, hform, Verdict.success, Verdict.error, Verdict.failure]
      simp [hpasses, hcell]

/-- A text is found to be an email address exactly if it is a mailbox, an at-sign and a domain, with
white space around it or not. A rule that is made for this check, whatever it judges and whenever,
fails a cell exactly if its guard lets it run and the text of the cell is neither blank nor such a
text. -/
theorem isEmail_iff_padded_address :
    (∀ text : String, isEmail text = true ↔ Padded IsAddress text.toList) ∧
      ∀ (rule : String) (steps : List Step) (r : Rule),
        (Draft.ofSteps rule steps).build = .ok r →
        (∀ step ∈ steps, step.addsCheck = true → step = .email) →
        ∀ (ctx : RowContext) (rows : Dataset), ∃ o, (r.evaluate ctx rows).answer = .ok o ∧
          (o.status = .failed ↔ r.Admits ctx ∧
            ∃ column cell, ctx.column = some column ∧ ctx.get? column = some cell ∧
              Text.isBlank cell.toText = false ∧ ¬ Padded IsAddress cell.toText.toList) := by
  refine ⟨fun _ => isEmail_iff, fun rule steps r hr hsteps ctx rows => ?_⟩
  have hchecks : Step.OnlyChecks (Draft.ofColumn email) steps := fun step hstep hadds =>
    ⟨[], by rw [hsteps step hstep hadds]; rfl⟩
  have hform : ∀ s : String, isEmail s = false ↔ ¬ Padded IsAddress s.toList := fun s => by
    rw [← isEmail_iff, Bool.not_eq_true]
  obtain ⟨o, ho, hstatus⟩ := Draft.status_of_onlyChecks hr hchecks ctx rows
  refine ⟨o, ho, hstatus.trans (and_congr_right fun _ => ?_)⟩
  simp only [← hform]
  exact passes_ofColumn_textForm isEmail "a valid email address" ctx

/-- The steps of a rule for the mail of whoever has a name, worded behind the check. -/
def mailSteps : List Step :=
  [.columnHasValue "Name", .email, .severity .warning, .forColumn "Mail"]

/-- A domain whose first label is one character too long. -/
def longMail : String := String.ofList ("ann@".toList ++ List.replicate 64 'a' ++ ".org".toList)

/-- Such a domain is no domain, and the rule fails the cell. -/
theorem isEmail_iff_padded_address_long : ∃ r, (Draft.ofSteps "mail" mailSteps).build = .ok r ∧
    ∃ o, (r.evaluate ⟨3, [("Name", .text "Ann"), ("Mail", .text longMail)], some "Mail", none⟩
      .empty).answer = .ok o ∧ o.status = .failed := by
  obtain ⟨htext, hrule⟩ := isEmail_iff_padded_address
  obtain ⟨o, ho, hstatus⟩ := hrule "mail" mailSteps _ rfl (by simp [mailSteps, Step.addsCheck])
    ⟨3, [("Name", .text "Ann"), ("Mail", .text longMail)], some "Mail", none⟩ .empty
  refine ⟨_, rfl, o, ho, hstatus.mpr ⟨fun guard hguard => ?_, "Mail", .text longMail, rfl, rfl, ?_,
    fun haddress => ?_⟩⟩
  · obtain rfl := Option.some.inj hguard
    rfl
  · decide +kernel
  · have hemail : isEmail longMail = true := (htext longMail).mpr haddress
    have hnot : isEmail longMail = false := by decide +kernel
    rw [hnot] at hemail
    cases hemail

end CellRules.Check
