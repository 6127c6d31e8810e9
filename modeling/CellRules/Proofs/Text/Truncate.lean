/-
CellRules.Proofs.Text.Truncate — a text is cut at the last boundary that fits.

A position in the bytes of a text is a boundary of characters exactly if the text is in two parts
there, so the boundaries are the sizes of the prefixes of its characters. What is kept of a text that
is cut is a prefix within the limit, and each prefix within the limit is a prefix of it
(`prefix_prefixWithin`). The size of what is kept can also be found without taking characters along:
it is the last of the positions at which characters start that is within the limit
(`bytes_prefixWithin`).
-/
import CellRules.Text.Truncate
import Mathlib.Algebra.GroupWithZero.Nat
import Mathlib.Data.List.Infix

namespace CellRules.Text

variable {room limit : Nat} {cs ds : List Char} {text : String}

/-! ## Sizes in bytes -/

/-- The bytes that characters take. -/
def bytes (cs : List Char) : Nat := (cs.map Char.utf8Size).sum

@[simp] theorem bytes_nil : bytes [] = 0 := rfl

@[simp] theorem bytes_cons (c : Char) (cs : List Char) :
    bytes (c :: cs) = c.utf8Size + bytes cs := by
  simp [bytes]

theorem utf8ByteSize_ofList (cs : List Char) : (String.ofList cs).utf8ByteSize = bytes cs := by
  induction cs with
  | nil => rfl
  | cons c cs ih => rw [String.ofList_cons, String.utf8ByteSize_append, ih, bytes_cons]; simp

theorem utf8ByteSize_eq (text : String) : text.utf8ByteSize = bytes text.toList := by
  rw [← utf8ByteSize_ofList, String.ofList_toList]

/-- A longer prefix takes more bytes. -/
theorem bytes_le_of_prefix (h : cs <+: ds) : bytes cs ≤ bytes ds := by
  obtain ⟨rest, rfl⟩ := h
  simp [bytes]

/-! ## What is kept -/

theorem prefixWithin_prefix (room : Nat) (cs : List Char) : prefixWithin room cs <+: cs := by
  induction cs generalizing room with
  | nil => exact List.prefix_rfl
  | cons c cs ih =>
    rw [prefixWithin]
    split
    · exact List.cons_prefix_cons.mpr ⟨rfl, ih _⟩
    · exact List.nil_prefix

theorem bytes_prefixWithin_le (room : Nat) (cs : List Char) :
    bytes (prefixWithin room cs) ≤ room := by
  induction cs generalizing room with
  | nil => exact Nat.zero_le room
  | cons c cs ih =>
    rw [prefixWithin]
    split
    · have := ih (room - c.utf8Size)
      rw [bytes_cons]
      omega
    · exact Nat.zero_le room

/-- Whatever prefix fits is a prefix of what is kept. -/
theorem prefix_prefixWithin (h : ds <+: cs) (hfits : bytes ds ≤ room) :
    ds <+: prefixWithin room cs := by
  induction cs generalizing room ds with
  | nil => rwa [prefixWithin]
  | cons c cs ih =>
    cases ds with
    | nil => exact List.nil_prefix
    | cons d ds =>
      obtain ⟨rfl, hrest⟩ := List.cons_prefix_cons.mp h
      rw [bytes_cons] at hfits
      rw [prefixWithin, if_pos (by omega)]
      exact List.cons_prefix_cons.mpr ⟨rfl, ih hrest (by omega)⟩

/-! ## Where characters start -/

/-- The positions in bytes at which the characters start, the first one at `start`. -/
def startsFrom (start : Nat) : List Char → List Nat
  | [] => []
  | c :: cs => start :: startsFrom (start + c.utf8Size) cs

/-- The last position within the limit at which a character of the text starts; the beginning of a
text without characters. -/
def lastStart (limit : Nat) (text : String) : Nat :=
  ((startsFrom 0 text.toList).takeWhile (· ≤ limit)).getLast?.getD 0

/-- Of characters that do not all fit, those that are kept end at the last position within the room
at which one starts. -/
theorem bytes_prefixWithin (start : Nat) (hlong : room < bytes cs) :
    start + bytes (prefixWithin room cs)
      = ((startsFrom start cs).takeWhile (· ≤ start + room)).getLast?.getD start := by
  induction cs generalizing room start with
  | nil => exact absurd hlong (Nat.not_lt_zero room)
  | cons c cs ih =>
    rw [startsFrom, List.takeWhile_cons_of_pos (by simp), prefixWithin]
    split
    · rename_i hfits
      rw [bytes_cons] at hlong
      have hend : start + c.utf8Size + (room - c.utf8Size) = start + room := by omega
      rw [bytes_cons, ← Nat.add_assoc, ih (start + c.utf8Size) (by omega), hend]
      -- The next character starts within the room, so the last one that does is not this one.
      cases cs with
      | nil =>
        rw [bytes_nil] at hlong
        omega
      | cons d ds =>
        rw [startsFrom, List.takeWhile_cons_of_pos (by simp; omega), List.getLast?_cons_cons]
        simp [List.getLast?_cons]
    · rename_i hbeyond
      have hnone : (startsFrom (start + c.utf8Size) cs).takeWhile (· ≤ start + room) = [] := by
        cases cs with
        | nil => rfl
        | cons d ds => exact List.takeWhile_cons_of_neg (by simp; omega)
      rw [hnone]
      rfl

/-! ## The cut -/

/-- The boundaries of a text are the sizes of its prefixes. -/
theorem exists_prefix_of_isValid {position : String.Pos.Raw} (h : position.IsValid text) :
    ∃ cs, cs <+: text.toList ∧ position.byteIdx = bytes cs := by
  obtain ⟨before, after, rfl, rfl⟩ := String.Pos.Raw.isValid_iff_exists_append.mp h
  refine ⟨before.toList, ?_, utf8ByteSize_eq before⟩
  rw [String.toList_append]
  exact List.prefix_append before.toList after.toList

/-- A text within the limit is left as it is. Of a longer one what comes before the mark is a part of
it from its beginning to a boundary of characters, the last one within the limit, which is the last
position within the limit at which a character starts. -/
theorem truncate_at_last_boundary (limit : Nat) (text : String) :
    (text.utf8ByteSize ≤ limit → truncate limit text = text) ∧
      (limit < text.utf8ByteSize → ∃ cut rest, text = cut ++ rest ∧
        truncate limit text = cut ++ "...(truncated)" ∧
        cut.rawEndPos.IsValid text ∧ cut.utf8ByteSize ≤ limit ∧
        (∀ position : String.Pos.Raw, position.IsValid text → position.byteIdx ≤ limit →
          position.byteIdx ≤ cut.utf8ByteSize) ∧
        cut.utf8ByteSize = lastStart limit text) := by
  refine ⟨fun h => if_pos h, fun hlong => ?_⟩
  obtain ⟨rest, hrest⟩ := prefixWithin_prefix limit text.toList
  have htext : text = String.ofList (prefixWithin limit text.toList) ++ String.ofList rest := by
    rw [← String.ofList_append, hrest, String.ofList_toList]
  refine ⟨_, _, htext, if_neg (by omega), ?_, ?_, ?_, ?_⟩
  · exact String.Pos.Raw.isValid_iff_exists_append.mpr ⟨_, _, htext, rfl⟩
  · rw [utf8ByteSize_ofList]
    exact bytes_prefixWithin_le limit text.toList
  · intro position hvalid hwithin
    obtain ⟨cs, hprefix, hsize⟩ := exists_prefix_of_isValid hvalid
    rw [utf8ByteSize_ofList, hsize]
    exact bytes_le_of_prefix (prefix_prefixWithin hprefix (by omega))
  · have hcut := bytes_prefixWithin 0 (utf8ByteSize_eq text ▸ hlong)
    rw [Nat.zero_add, Nat.zero_add] at hcut
    rw [utf8ByteSize_ofList, hcut]
    rfl

/-- Characters of one to four bytes: the limit falls into the last of them, and into the first. -/
theorem truncate_at_last_boundary_mixed :
    "zé漢𝄞".utf8ByteSize = 10 ∧ truncate 10 "zé漢𝄞" = "zé漢𝄞" ∧
      (∃ cut rest, "zé漢𝄞" = cut ++ rest ∧ truncate 9 "zé漢𝄞" = cut ++ "...(truncated)" ∧
        cut.utf8ByteSize = 6) ∧
      truncate 9 "zé漢𝄞" = "zé漢...(truncated)" ∧ truncate 2 "漢é" = "...(truncated)" := by
  have hsize : "zé漢𝄞".utf8ByteSize = 10 := by decide
  obtain ⟨cut, rest, htext, hcut, -, -, -, hlast⟩ :=
    (truncate_at_last_boundary 9 "zé漢𝄞").2 (by rw [hsize]; decide)
  refine ⟨hsize, (truncate_at_last_boundary 10 "zé漢𝄞").1 (by rw [hsize]), ?_, by decide +kernel,
    by decide +kernel⟩
  exact ⟨cut, rest, htext, hcut, by rw [hlast]; decide +kernel⟩

end CellRules.Text
