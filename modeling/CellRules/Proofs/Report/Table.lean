/-
CellRules.Proofs.Report.Table — the table of the issues read as a table.

A table is read line by line, and a line is cut into cells at its pipes. What ends a line is said by
`LineEnds`, the line feed being one of these characters; a pipe behind an odd number of backslashes
is escaped, and no cut. Writing a text into a cell takes line feeds out and puts a backslash before
each pipe. So a pipe that was escaped in the text no longer is (`pipesFrom_tableChar`), and any
other character that ends lines still does (`countP_tableChar`): with each of the former an issue
has a cell more, with each of the latter a line more. Without them, and only without them, the table
has one line of six cells for each issue (`tabulates_iff`).
-/
import CellRules.Proofs.Number.Digits
import CellRules.Report.Markdown
import Mathlib.Algebra.GroupWithZero.Nat
import Mathlib.Data.List.Forall2

namespace CellRules

/-- The texts of an issue. -/
def Issue.texts (i : Issue) : List String := [i.column, i.rule, i.message]

/-- The characters of the texts of an issue. -/
def Issue.characters (i : Issue) : List Char := i.texts.flatMap String.toList

namespace Report

variable {ends : Char → Bool} {escaped : Bool} {slashes : Nat} {cs rest : List Char}
  {cell : String} {cells : List String} {issue : Issue} {issues : List Issue}

/-! ## Reading a table -/

/-- The character is printed in ASCII. -/
def isPrinted (c : Char) : Bool := 0x20 ≤ c.toNat && c.toNat ≤ 0x7E

/-- Characters that end lines: the line feed, and others that are not printed in ASCII. -/
structure LineEnds (ends : Char → Bool) : Prop where
  lineFeed : ends '\n' = true
  notPrinted : ∀ c, isPrinted c = true → ends c = false

/-- The lines of a text in which every line has an end. -/
def linesAt (ends : Char → Bool) (text : String) : List (List Char) :=
  (text.toList.splitOnP ends).dropLast

/-- The number of backslashes behind a character, if there were so many before it. -/
def slashesAfter (slashes : Nat) (c : Char) : Nat := if c == '\\' then slashes + 1 else 0

/-- The number of pipes in the characters that are escaped, or that are not. A pipe is escaped behind
an odd number of backslashes; `slashes` of them stand before the characters. -/
def pipesFrom (escaped : Bool) (slashes : Nat) : List Char → Nat
  | [] => 0
  | c :: cs =>
    (if c == '|' && (slashes % 2 == 1) == escaped then 1 else 0) +
      pipesFrom escaped (slashesAfter slashes c) cs

/-- The number of pipes in a text that are escaped. -/
def escapedPipes (text : String) : Nat := pipesFrom true 0 text.toList

/-- The parts of a line between the pipes that are not escaped. -/
def splitAtPipes (slashes : Nat) : List Char → List (List Char)
  | [] => [[]]
  | c :: cs =>
    if c == '|' && (slashes % 2 == 1) == false then
      [] :: splitAtPipes (slashesAfter slashes c) cs
    else (splitAtPipes (slashesAfter slashes c) cs).modifyHead (c :: ·)

/-- The line has these cells between its outer pipes. -/
def HasCells (cells : List (List Char)) (line : List Char) : Prop :=
  splitAtPipes 0 line = [] :: cells ++ [[]]

/-- A text between spaces. -/
def padded (s : String) : List Char := ' ' :: s.toList ++ [' ']

/-- The lines are a table of the issues: one line for each, with six cells, its number, its severity,
its row, its column, its rule and its message. -/
def Tabulates (issues : List Issue) (lines : List (List Char)) : Prop :=
  List.Forall₂ (fun (place : Issue × Nat) line =>
      HasCells [padded (toString (place.2 + 1)), padded place.1.severity.word,
        padded (toString place.1.row), padded (tableCell place.1.column),
        padded (tableCell place.1.rule), padded (tableCell place.1.message)] line)
    issues.zipIdx lines

/-! ## Lines -/

theorem LineEnds.pipe (hends : LineEnds ends) : ends '|' = false := hends.notPrinted _ rfl

theorem LineEnds.slash (hends : LineEnds ends) : ends '\\' = false := hends.notPrinted _ rfl

theorem LineEnds.space (hends : LineEnds ends) : ends ' ' = false := hends.notPrinted _ rfl

theorem LineEnds.of_le (hline : ends '\n' = true)
    (h : ∀ c, ends c = true → c = '\n' ∨ c = '\r') : LineEnds ends where
  lineFeed := hline
  notPrinted c hprinted := by
    refine Bool.eq_false_iff.mpr fun hc => ?_
    rcases h c hc with rfl | rfl <;> cases hprinted

theorem splitOnP_of_printed (hends : LineEnds ends) (h : cs.all isPrinted = true) :
    cs.splitOnP ends = [cs] :=
  List.splitOnP_eq_singleton fun c hc => hends.notPrinted c (List.all_eq_true.mp h c hc)

theorem length_splitOnP (ends : Char → Bool) (cs : List Char) :
    (cs.splitOnP ends).length = cs.countP ends + 1 := by
  induction cs with
  | nil => rfl
  | cons c cs ih =>
    rw [List.splitOnP_cons_eq_if_modifyHead, List.countP_cons]
    split
    · rw [List.length_cons, ih]
    · rw [List.length_modifyHead, ih, Nat.add_zero]

theorem unlines_nil : unlines [] = "" := rfl

theorem unlines_cons (line : String) (lines : List String) :
    unlines (line :: lines) = line ++ "\n" ++ unlines lines := by
  simp [unlines]

theorem unlines_append (lines more : List String) :
    unlines (lines ++ more) = unlines lines ++ unlines more := by
  simp [unlines]

/-- The lines of a text are those that each line it was written with has come to. -/
theorem linesAt_unlines (hends : LineEnds ends) (lines : List String) :
    linesAt ends (unlines lines) = lines.flatMap fun line => line.toList.splitOnP ends := by
  induction lines with
  | nil => rfl
  | cons line lines ih =>
    have hline : (unlines (line :: lines)).toList
        = line.toList ++ '\n' :: (unlines lines).toList := by
      simp [unlines_cons]
    rw [linesAt, hline, List.splitOnP_append_cons _ _ hends.lineFeed,
      List.dropLast_append_of_ne_nil (List.splitOnP_ne_nil ends _), List.flatMap_cons, ← ih]
    rfl

/-! ## Pipes -/

theorem length_splitAtPipes (slashes : Nat) (cs : List Char) :
    (splitAtPipes slashes cs).length = pipesFrom false slashes cs + 1 := by
  induction cs generalizing slashes with
  | nil => rfl
  | cons c cs ih =>
    rw [splitAtPipes, pipesFrom]
    split
    · rw [List.length_cons, ih]
      omega
    · rw [List.length_modifyHead, ih]
      omega

/-- A space ends what backslashes before it may escape. -/
theorem pipesFrom_append_space (escaped : Bool) (slashes : Nat) (cs rest : List Char) :
    pipesFrom escaped slashes (cs ++ ' ' :: rest)
      = pipesFrom escaped slashes cs + pipesFrom escaped 0 rest := by
  induction cs generalizing slashes with
  | nil => simp [pipesFrom, slashesAfter]
  | cons c cs ih => rw [List.cons_append, pipesFrom, pipesFrom, ih, Nat.add_assoc]

/-- Characters without pipes that are not escaped belong to one cell. -/
theorem splitAtPipes_append_space (hcs : pipesFrom false slashes cs = 0) (rest : List Char) :
    splitAtPipes slashes (cs ++ ' ' :: '|' :: rest) = (cs ++ [' ']) :: splitAtPipes 0 rest := by
  induction cs generalizing slashes with
  | nil => simp [splitAtPipes, slashesAfter]
  | cons c cs ih =>
    rw [pipesFrom, Nat.add_eq_zero_iff] at hcs
    have hnot : ¬ (c == '|' && (slashes % 2 == 1) == false) = true := by
      intro hpipe
      rw [if_pos hpipe] at hcs
      exact absurd hcs.1 Nat.one_ne_zero
    rw [List.cons_append, splitAtPipes, if_neg hnot, ih hcs.2]
    rfl

theorem pipesFrom_eq_zero (hcs : '|' ∉ cs) : pipesFrom escaped slashes cs = 0 := by
  induction cs generalizing slashes with
  | nil => rfl
  | cons c cs ih =>
    rw [List.mem_cons, not_or] at hcs
    rw [pipesFrom, ih hcs.2, if_neg (by simp [Ne.symm hcs.1])]

/-- In a table cell just the pipes are not escaped that were. -/
theorem pipesFrom_tableChar (slashes : Nat) (cs : List Char) :
    pipesFrom false slashes (cs.flatMap tableChar) = pipesFrom true slashes cs := by
  induction cs generalizing slashes with
  | nil => rfl
  | cons c cs ih =>
    rw [List.flatMap_cons, pipesFrom]
    by_cases hpipe : c = '|'
    · -- The backslash that is put before the pipe turns its count around.
      subst hpipe
      have hparity : ((slashes + 1) % 2 == 1) = !(slashes % 2 == 1) := by
        rcases Nat.mod_two_eq_zero_or_one slashes with h | h <;> simp [Nat.add_mod, h]
      simp [tableChar, pipesFrom, slashesAfter, ih, hparity]
    · by_cases hline : c = '\n'
      · subst hline
        simp [tableChar, pipesFrom, slashesAfter, ih]
      · simp [tableChar, hpipe, hline, pipesFrom, ih]

/-- In a table cell all characters end lines that did, but for the line feed. -/
theorem countP_tableChar (hends : LineEnds ends) (cs : List Char) :
    (cs.flatMap tableChar).countP ends = cs.countP fun c => ends c && c != '\n' := by
  induction cs with
  | nil => rfl
  | cons c cs ih =>
    rw [List.flatMap_cons, List.countP_append, ih, List.countP_cons, Nat.add_comm]
    congr 1
    by_cases hc : c = '|'
    · simp [hc, tableChar, hends.pipe, hends.slash]
    · by_cases hline : c = '\n'
      · simp [hline, tableChar, hends.space]
      · simp [hc, hline, tableChar, List.countP_cons]

/-! ## Rows -/

theorem toList_tableRow (hcells : cells ≠ []) :
    (tableRow cells).toList = '|' :: cells.flatMap fun cell => padded cell ++ ['|'] := by
  have hjoin : ∀ cells : List String, cells ≠ [] →
      ' ' :: (" | ".intercalate cells).toList ++ [' ', '|']
        = cells.flatMap fun cell => padded cell ++ ['|'] := by
    intro cells
    induction cells with
    | nil => exact fun h => absurd rfl h
    | cons cell rest ih =>
      intro _
      cases rest with
      | nil => simp [padded]
      | cons next rest =>
        rw [List.flatMap_cons, ← ih (List.cons_ne_nil _ _), String.intercalate_cons_cons]
        simp [padded]
  rw [← hjoin cells hcells]
  simp [tableRow]

theorem pipesFrom_padded (cell : String) (rest : List Char) :
    pipesFrom false 0 (padded cell ++ ['|'] ++ rest)
      = pipesFrom false 0 cell.toList + 1 + pipesFrom false 0 rest := by
  have hshape : padded cell ++ ['|'] ++ rest
      = [] ++ ' ' :: (cell.toList ++ ' ' :: ('|' :: rest)) := by
    simp [padded]
  rw [hshape, pipesFrom_append_space, pipesFrom_append_space, pipesFrom]
  simp [pipesFrom, slashesAfter, Nat.add_assoc]

theorem pipesFrom_cells (cells : List String) :
    pipesFrom false 0 (cells.flatMap fun cell => padded cell ++ ['|'])
      = cells.length + (cells.map fun cell => pipesFrom false 0 cell.toList).sum := by
  induction cells with
  | nil => rfl
  | cons cell cells ih =>
    rw [List.flatMap_cons, pipesFrom_padded, ih, List.length_cons, List.map_cons, List.sum_cons]
    omega

/-- Beside the parts that a row was written with, it has one for each pipe in them that is not
escaped. -/
theorem length_splitAtPipes_tableRow (hcells : cells ≠ []) :
    (splitAtPipes 0 (tableRow cells).toList).length
      = cells.length + 2 + (cells.map fun cell => pipesFrom false 0 cell.toList).sum := by
  rw [length_splitAtPipes, toList_tableRow hcells, pipesFrom]
  have hrow := pipesFrom_cells cells
  simp only [slashesAfter] at *
  simp [hrow]
  omega

theorem splitAtPipes_padded (hcell : pipesFrom false 0 cell.toList = 0) (rest : List Char) :
    splitAtPipes 0 (padded cell ++ ['|'] ++ rest) = padded cell :: splitAtPipes 0 rest := by
  have hshape : padded cell ++ ['|'] ++ rest = (' ' :: cell.toList) ++ ' ' :: '|' :: rest := by
    simp [padded]
  have hpadded : pipesFrom false 0 (' ' :: cell.toList) = 0 := by
    simpa [pipesFrom, slashesAfter] using hcell
  rw [hshape, splitAtPipes_append_space hpadded]
  rfl

theorem hasCells_tableRow (hcells : cells ≠ [])
    (hpipes : ∀ cell ∈ cells, pipesFrom false 0 cell.toList = 0) :
    HasCells (cells.map padded) (tableRow cells).toList := by
  have hsplit : ∀ cells : List String, (∀ cell ∈ cells, pipesFrom false 0 cell.toList = 0) →
      splitAtPipes 0 (cells.flatMap fun cell => padded cell ++ ['|'])
        = cells.map padded ++ [[]] := by
    intro cells
    induction cells with
    | nil => exact fun _ => rfl
    | cons cell cells ih =>
      intro h
      obtain ⟨hcell, hrest⟩ := List.forall_mem_cons.mp h
      rw [List.flatMap_cons, splitAtPipes_padded hcell, ih hrest]
      rfl
  rw [HasCells, toList_tableRow hcells, splitAtPipes, if_pos (by decide), List.cons_append,
    ← hsplit cells hpipes]
  rfl

/-! ## Rows of issues -/

/-- The text is printed in ASCII and has no pipe. -/
def isPlain (s : String) : Bool := s.toList.all fun c => isPrinted c && c != '|'

theorem isPlain_toString (n : Nat) : isPlain (toString n) = true := by
  refine List.all_eq_true.mpr fun c hc => ?_
  have hdigit : c.isDigit = true := (Number.digits_toDigits n).isDigit c (Nat.toList_repr ▸ hc)
  have hrange : 0x30 ≤ c.toNat ∧ c.toNat ≤ 0x39 := by
    simpa [Char.isDigit, UInt32.le_iff_toNat_le] using hdigit
  have hprinted : isPrinted c = true := by
    simp only [isPrinted, Bool.and_eq_true, decide_eq_true_eq]
    omega
  have hpipe : c ≠ '|' := by
    rintro rfl
    cases hdigit
  simp [hprinted, hpipe]

theorem isPlain_word (severity : Severity) : isPlain severity.word = true := by
  cases severity <;> rfl

/-- A plain text has no pipes that could be counted, and ends no lines. -/
theorem pipesFrom_of_isPlain {s : String} (h : isPlain s = true) :
    pipesFrom escaped slashes s.toList = 0 :=
  pipesFrom_eq_zero fun hmem => by simpa using List.all_eq_true.mp h '|' hmem

theorem countP_of_isPlain {s : String} (hends : LineEnds ends) (h : isPlain s = true) :
    s.toList.countP ends = 0 := by
  refine List.countP_eq_zero.mpr fun c hc => ?_
  have hplain := List.all_eq_true.mp h c hc
  rw [Bool.and_eq_true] at hplain
  rw [hends.notPrinted c hplain.1]
  exact Bool.false_ne_true

theorem toList_tableCell (s : String) : (tableCell s).toList = s.toList.flatMap tableChar :=
  String.toList_ofList

theorem issueCells_ne_nil (issue : Issue) (index : Nat) : issueCells issue index ≠ [] :=
  List.cons_ne_nil _ _

/-- The pipes of an issue's row that cut it, besides those between its cells, are those that are
escaped in its texts. -/
theorem pipesFrom_issueCells (issue : Issue) (index : Nat) :
    (issueCells issue index).map (fun cell => pipesFrom false 0 cell.toList)
      = [0, 0, 0] ++ issue.texts.map escapedPipes := by
  simp only [issueCells, Issue.texts, List.map_cons, List.map_nil,
    pipesFrom_of_isPlain (isPlain_toString _), pipesFrom_of_isPlain (isPlain_word _),
    toList_tableCell, pipesFrom_tableChar]
  rfl

theorem countP_padded (hends : LineEnds ends) (cell : String) :
    (padded cell ++ ['|']).countP ends = cell.toList.countP ends := by
  simp [padded, hends.pipe, hends.space]

/-- The characters of an issue's row that end lines are those in its texts that do, but for line
feeds. -/
theorem countP_issueRow (hends : LineEnds ends) (issue : Issue) (index : Nat) :
    (tableRow (issueCells issue index)).toList.countP ends
      = issue.characters.countP fun c => ends c && c != '\n' := by
  rw [toList_tableRow (issueCells_ne_nil issue index),
    List.countP_cons_of_neg (by simp [hends.pipe])]
  simp only [issueCells, List.flatMap_cons, List.flatMap_nil, List.append_nil, List.countP_append,
    countP_padded hends, countP_of_isPlain hends (isPlain_toString _),
    countP_of_isPlain hends (isPlain_word _), toList_tableCell, countP_tableChar hends,
    Issue.characters, Issue.texts, Nat.zero_add]

/-- The rows of the table of some issues. -/
def issueRows (issues : List Issue) : List String :=
  issues.zipIdx.map fun (issue, index) => tableRow (issueCells issue index)

/-- The lines of the rows are one for each issue, and one for each character in the texts of the
issues that ends a line and is no line feed. -/
theorem length_linesAt_issueRows (hends : LineEnds ends) (issues : List Issue) :
    (linesAt ends (unlines (issueRows issues))).length
      = issues.length +
        (issues.flatMap Issue.characters).countP fun c => ends c && c != '\n' := by
  have hall : ∀ places : List (Issue × Nat),
      ((places.map fun (issue, index) => tableRow (issueCells issue index)).flatMap
        fun line => line.toList.splitOnP ends).length
          = places.length + ((places.map (·.1)).flatMap Issue.characters).countP
            fun c => ends c && c != '\n' := by
    intro places
    induction places with
    | nil => rfl
    | cons place places ih =>
      rw [List.map_cons, List.flatMap_cons, List.length_append, length_splitOnP, ih,
        countP_issueRow hends, List.map_cons, List.flatMap_cons, List.countP_append,
        List.length_cons]
      omega
  rw [linesAt_unlines hends, issueRows, hall, List.length_zipIdx, List.zipIdx_map_fst]

/-- A text that adds neither a line nor a cell: no pipe in it is escaped, and no character but the
line feed ends a line. -/
structure Tame (ends : Char → Bool) (text : String) : Prop where
  pipes : escapedPipes text = 0
  lines : ∀ c ∈ text.toList, ends c = true → c = '\n'

theorem tame_iff {text : String} : Tame ends text ↔
    (escapedPipes text == 0 && text.toList.all fun c => !ends c || c == '\n') = true := by
  simp only [Bool.and_eq_true, beq_iff_eq, List.all_eq_true, Bool.or_eq_true, Bool.not_eq_true']
  constructor
  · intro h
    exact ⟨h.pipes, fun c hc => (Bool.eq_false_or_eq_true (ends c)).symm.imp_right (h.lines c hc)⟩
  · rintro ⟨hpipes, hlines⟩
    exact ⟨hpipes, fun c hc hends => (hlines c hc).resolve_left (by simp [hends])⟩

instance {text : String} : Decidable (Tame ends text) := decidable_of_iff _ tame_iff.symm

theorem countP_characters_eq_zero_iff :
    ((issues.flatMap Issue.characters).countP fun c => ends c && c != '\n') = 0
      ↔ ∀ issue ∈ issues, ∀ text ∈ issue.texts, ∀ c ∈ text.toList, ends c = true → c = '\n' := by
  simp only [List.countP_eq_zero, List.mem_flatMap, Issue.characters, Bool.and_eq_true,
    bne_iff_ne, ne_eq, not_and, not_not]
  constructor
  · intro h issue hissue text htext c hc
    exact h c ⟨issue, hissue, text, htext, hc⟩
  · rintro h c ⟨issue, hissue, text, htext, hc⟩
    exact h issue hissue text htext c hc

/-- Where no text ends a line, the lines are the rows. -/
theorem linesAt_issueRows (hends : LineEnds ends)
    (h : ∀ issue ∈ issues, ∀ text ∈ issue.texts, ∀ c ∈ text.toList, ends c = true → c = '\n') :
    linesAt ends (unlines (issueRows issues)) = (issueRows issues).map String.toList := by
  have hrow : ∀ line ∈ issueRows issues, line.toList.splitOnP ends = [line.toList] := by
    intro line hline
    obtain ⟨⟨issue, index⟩, hplace, rfl⟩ := List.mem_map.mp hline
    have hissue : issue ∈ issues := List.fst_mem_of_mem_zipIdx hplace
    refine List.splitOnP_eq_singleton fun c hc => ?_
    have hcount : (tableRow (issueCells issue index)).toList.countP ends = 0 := by
      rw [countP_issueRow hends, ← List.flatMap_singleton Issue.characters issue]
      exact countP_characters_eq_zero_iff.mpr (by simpa using h issue hissue)
    exact Bool.eq_false_iff.mpr (List.countP_eq_zero.mp hcount c hc)
  rw [linesAt_unlines hends, List.flatMap_congr hrow]
  exact List.flatMap_pure_eq_map _ _

theorem map_padded_issueCells (issue : Issue) (index : Nat) :
    (issueCells issue index).map padded
      = [padded (toString (index + 1)), padded issue.severity.word, padded (toString issue.row),
        padded (tableCell issue.column), padded (tableCell issue.rule),
        padded (tableCell issue.message)] := rfl

/-- A row has its six cells with what is outside of the outer pipes, and one for each pipe that is
escaped in its texts. -/
theorem length_splitAtPipes_issueRow (issue : Issue) (index : Nat) :
    (splitAtPipes 0 (tableRow (issueCells issue index)).toList).length
      = 6 + 2 + (issue.texts.map escapedPipes).sum := by
  rw [length_splitAtPipes_tableRow (issueCells_ne_nil issue index), pipesFrom_issueCells]
  simp [issueCells]

/-- A row has its six cells exactly if no pipe in its texts is escaped. -/
theorem hasCells_issueRow_iff (issue : Issue) (index : Nat) :
    HasCells ((issueCells issue index).map padded) (tableRow (issueCells issue index)).toList
      ↔ ∀ text ∈ issue.texts, escapedPipes text = 0 := by
  constructor
  · intro h
    have hlength := length_splitAtPipes_issueRow issue index
    rw [h] at hlength
    simp [issueCells, Issue.texts] at hlength ⊢
    omega
  · intro h
    refine hasCells_tableRow (issueCells_ne_nil issue index) fun cell hcell => ?_
    have hmap := pipesFrom_issueCells issue index
    have hmem : pipesFrom false 0 cell.toList ∈ [0, 0, 0] ++ issue.texts.map escapedPipes :=
      hmap ▸ List.mem_map_of_mem hcell
    rcases List.mem_append.mp hmem with hzero | htext
    · simpa using hzero
    · obtain ⟨text, htext, heq⟩ := List.mem_map.mp htext
      rw [← heq, h text htext]

/-- The rows are a table exactly if all texts of the issues are tame. -/
theorem tabulates_issueRows_iff (hends : LineEnds ends) (issues : List Issue) :
    Tabulates issues (linesAt ends (unlines (issueRows issues)))
      ↔ ∀ issue ∈ issues, ∀ text ∈ issue.texts, Tame ends text := by
  have hrows : Tabulates issues ((issueRows issues).map String.toList)
      ↔ ∀ issue ∈ issues, ∀ text ∈ issue.texts, escapedPipes text = 0 := by
    rw [Tabulates, issueRows, List.map_map, List.forall₂_map_right_iff, List.forall₂_same]
    simp only [Function.comp_apply, ← map_padded_issueCells, hasCells_issueRow_iff]
    constructor
    · intro h issue hissue
      obtain ⟨index, hindex⟩ := List.mem_iff_getElem?.mp hissue
      exact h (issue, index) (List.mem_zipIdx_iff_getElem?.mpr hindex)
    · exact fun h place hplace => h place.1 (List.fst_mem_of_mem_zipIdx hplace)
  constructor
  · intro h
    have hlength := h.length_eq
    rw [List.length_zipIdx, length_linesAt_issueRows hends] at hlength
    have hlines : ∀ issue ∈ issues, ∀ text ∈ issue.texts, ∀ c ∈ text.toList,
        ends c = true → c = '\n' := countP_characters_eq_zero_iff.mp (by omega)
    rw [linesAt_issueRows hends hlines] at h
    exact fun issue hissue text htext =>
      ⟨hrows.mp h issue hissue text htext, hlines issue hissue text htext⟩
  · intro h
    rw [linesAt_issueRows hends fun issue hissue text htext => (h issue hissue text htext).lines]
    exact hrows.mpr fun issue hissue text htext => (h issue hissue text htext).pipes

/-! ## The document -/

/-- The table of the issues stands between a heading and the end, or a line without characters. -/
theorem exists_markdownText {r : Report} {o : Options} (hshown : o.visible r ≠ []) (level : Nat) :
    ∃ front back,
      r.markdownText o level
        = front ++ "# Issues\n\n" ++ unlines (issueTable (o.visible r)) ++ back ∧
      (back = "" ∨ ∃ note, back = "\n" ++ note) := by
  have hsome : (!(o.visible r).isEmpty) = true := by simpa using hshown
  have hdocument : ∃ before heading hidden, r.markdownText o level
      = unlines (before ++ (["", heading ++ "# Issues", ""] ++ issueTable (o.visible r) ++
        linesIf (0 < o.hiddenCount r) ["", hidden])) := by
    rw [markdownText, markdownIssues, hsome]
    exact ⟨_, _, _, rfl⟩
  obtain ⟨before, heading, hidden, hdocument⟩ := hdocument
  refine ⟨unlines (before ++ [""]) ++ heading, unlines (linesIf (0 < o.hiddenCount r) ["", hidden]),
    ?_, ?_⟩
  · rw [hdocument]
    simp only [unlines_append, unlines_cons, unlines_nil, String.append_assoc, String.append_empty]
    rfl
  · by_cases h : 0 < o.hiddenCount r
    · refine .inr ⟨unlines [hidden], ?_⟩
      rw [linesIf, if_pos (decide_eq_true h), unlines_cons]
      rfl
    · refine .inl ?_
      rw [linesIf, if_neg (by simpa using h), unlines_nil]

/-- The table has two lines above those of its rows. -/
theorem linesAt_issueTable (hends : LineEnds ends) (issues : List Issue) :
    linesAt ends (unlines (issueTable issues))
      = "| # | Severity | Row | Column | Rule | Message |".toList ::
        "|---|----------|-----|--------|------|---------|".toList ::
          linesAt ends (unlines (issueRows issues)) := by
  have hnames : "| # | Severity | Row | Column | Rule | Message |".toList.all isPrinted = true := by
    decide +kernel
  have hrule : "|---|----------|-----|--------|------|---------|".toList.all isPrinted = true := by
    decide +kernel
  have htable : issueTable issues
      = "| # | Severity | Row | Column | Rule | Message |" ::
        "|---|----------|-----|--------|------|---------|" :: issueRows issues := rfl
  rw [htable, linesAt_unlines hends, List.flatMap_cons, List.flatMap_cons,
    splitOnP_of_printed hends hnames, splitOnP_of_printed hends hrule, linesAt_unlines hends]
  rfl

/-- The issues that a document shows stand in a table behind a heading, up to the end or a line
without characters. Below its head the table has a line for each issue, and one more for each
character in the texts of the issues that ends lines and is no line feed. As it is written, the line
of an issue has its six cells, and one more for each pipe that is escaped in its texts. So each issue
has one line with its number, severity, row, column, rule and message exactly if all its texts are
tame. -/
theorem tabulates_iff (hends : LineEnds ends) (r : Report) (o : Options) (level : Nat)
    (hshown : o.visible r ≠ []) :
    ∃ front back rows,
      r.markdownText o level
        = front ++ "# Issues\n\n" ++ unlines (issueTable (o.visible r)) ++ back ∧
      (back = "" ∨ ∃ note, back = "\n" ++ note) ∧
      linesAt ends (unlines (issueTable (o.visible r)))
        = "| # | Severity | Row | Column | Rule | Message |".toList ::
          "|---|----------|-----|--------|------|---------|".toList :: rows ∧
      rows.length = (o.visible r).length +
        ((o.visible r).flatMap Issue.characters).countP (fun c => ends c && c != '\n') ∧
      (∀ issue index, (splitAtPipes 0 (tableRow (issueCells issue index)).toList).length
        = 6 + 2 + (issue.texts.map escapedPipes).sum) ∧
      (Tabulates (o.visible r) rows ↔
        ∀ issue ∈ o.visible r, ∀ text ∈ issue.texts, Tame ends text) := by
  obtain ⟨front, back, htext, hback⟩ := exists_markdownText hshown level
  exact ⟨front, back, _, htext, hback, linesAt_issueTable hends _, length_linesAt_issueRows hends _,
    length_splitAtPipes_issueRow, tabulates_issueRows_iff hends _⟩

/-- The characters that end lines in Markdown. -/
def markdownEnds (c : Char) : Bool := c == '\n' || c == '\r'

theorem lineEnds_markdown : LineEnds markdownEnds :=
  .of_le rfl fun c hc => by simpa [markdownEnds] using hc

/-- An issue whose texts have pipes, one of them behind two backslashes, and line feeds. -/
def pipedIssue : Issue := ⟨7, "a|b", "x\\\\|y", .warning, "one\ntwo ||"⟩

/-- Such an issue has a line of six cells in the report that shows it and hides the next one. -/
theorem tabulates_iff_piped :
    let r : Report := ⟨"rules", "", {}, [pipedIssue, pipedIssue]⟩
    let o : Options := { maxIssues := some 1 }
    o.visible r ≠ [] ∧ ∃ front back rows,
      r.markdownText o 2 = front ++ "# Issues\n\n" ++ unlines (issueTable (o.visible r)) ++ back ∧
      linesAt markdownEnds (unlines (issueTable (o.visible r)))
        = "| # | Severity | Row | Column | Rule | Message |".toList ::
          "|---|----------|-----|--------|------|---------|".toList :: rows ∧
      rows.length = 1 ∧ Tabulates [pipedIssue] rows := by
  intro r o
  have hshown : o.visible r ≠ [] := List.cons_ne_nil _ _
  obtain ⟨front, back, rows, htext, -, hlines, hlength, -, htable⟩ :=
    tabulates_iff lineEnds_markdown r o 2 hshown
  have htame : ∀ text ∈ pipedIssue.texts, Tame markdownEnds text := by decide +kernel
  exact ⟨hshown, front, back, rows, htext, hlines, hlength.trans (by decide +kernel),
    htable.mpr fun issue hissue => List.mem_singleton.mp hissue ▸ htame⟩

/-! ## Texts that break the table -/

/-- An issue whose message has a pipe behind a backslash. -/
def slashedIssue : Issue := ⟨0, "A", "r", .error, "a\\|b"⟩

/-- An issue whose message has a carriage return. -/
def returnedIssue : Issue := ⟨0, "A", "r", .error, "a\rb"⟩

/-- A pipe that was escaped cuts the message in two, and a carriage return cuts the line. -/
theorem escaped_pipe_adds_a_cell :
    (Report.mk "n" "t" {} [slashedIssue]).markdownText { metrics := false, timestamp := false } 2
        = "## ❌ Grid Validation Report - FAILED\n\n**Rule set:** n\n\n### Issues\n\n" ++
          "| # | Severity | Row | Column | Rule | Message |\n" ++
          "|---|----------|-----|--------|------|---------|\n" ++
          "| 1 | error | 0 | A | r | a\\\\|b |\n" ∧
      splitAtPipes 0 "| 1 | error | 0 | A | r | a\\\\|b |".toList
        = ["", " 1 ", " error ", " 0 ", " A ", " r ", " a\\\\", "b ", ""].map String.toList ∧
      ¬ Tabulates [slashedIssue]
        ((linesAt (· == '\n') (unlines (issueTable [slashedIssue]))).drop 2) ∧
      ((linesAt markdownEnds (unlines (issueTable [returnedIssue]))).drop 2).length = 2 := by
  refine ⟨by decide +kernel, by decide +kernel, fun h => ?_, by decide +kernel⟩
  have hends : LineEnds (· == '\n') := .of_le rfl fun c hc => .inl (by simpa using hc)
  rw [linesAt_issueTable hends, List.drop_succ_cons, List.drop_succ_cons, List.drop_zero,
    tabulates_issueRows_iff hends] at h
  have hpipes := (h slashedIssue (by simp) "a\\|b" (by simp [slashedIssue, Issue.texts])).pipes
  revert hpipes
  decide +kernel

end Report

end CellRules
