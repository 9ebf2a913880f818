import RichText.Json.Quoted
import RichText.Proofs.Numerals
import RichText.Proofs.Surrogates

/-!
# Written strings are read back

A string of JSON is a list of code units, and every such list can be written: its characters as
themselves or by an escape, a surrogate without partner by its number.  Reading gives the same code
units (`readString?_writeInside`), whatever stands behind the string.

Both sides go piece by piece through `Utf16.split`.  Splitting loses nothing
(`Utf16.flatMap_pieceUnits`), so it is enough that each piece is read back as its own code units
(`readString?_writePiece`).
-/

namespace RichText

namespace Json

open Utf16 (pieceUnits)

/-! ## Escapes -/

lemma fourDigits?_digits (unit : CodeUnit) (rest : Text) :
    fourDigits? (digit (unit.toNat / 0x1000 % 16) :: digit (unit.toNat / 0x100 % 16) ::
      digit (unit.toNat / 0x10 % 16) :: digit (unit.toNat % 16) :: rest) = some (unit, rest) := by
  have small := unit.toNat_lt
  have value : ((unit.toNat / 0x1000 % 16 * 16 + unit.toNat / 0x100 % 16) * 16 +
      unit.toNat / 0x10 % 16) * 16 + unit.toNat % 16 = unit.toNat := by omega
  have digits (n : Nat) : digitValue? 16 (digit (n % 16)) = some (n % 16) :=
    Numeral.digitValue?_digit (Nat.le_refl 16) (Nat.mod_lt _ (by decide))
  simp [fourDigits?, Numeral.digits?, Numeral.digitsOnto?, digits, value]

lemma readString?_escape {text after : Text} {unit : CodeUnit}
    (escape : readEscape? text = some (unit, after)) :
    readString? ('\\' :: text) =
      (readString? after).map fun (units, end_) => (unit :: units, end_) := by
  rw [readString?, if_neg (by decide), if_pos rfl]
  split
  · rename_i none
    cases escape.symm.trans none
  · rename_i found
    cases escape.symm.trans found
    rfl

lemma readString?_unitEscape (unit : CodeUnit) (rest : Text) :
    readString? (unitEscape unit ++ rest) =
      (readString? rest).map fun (units, after) => (unit :: units, after) :=
  readString?_escape (fourDigits?_digits unit rest)

/-- The escapes that are written are escapes of what they are written for, all narrow. -/
lemma readEscape?_writtenEscapes {c : Char} {escape : Text} (member : (c, escape) ∈ writtenEscapes)
    (rest : Text) :
    ∃ letter, escape = ['\\', letter] ∧ c.toNat < 0x10000 ∧
      readEscape? (letter :: rest) = some (.ofNat c.toNat, rest) := by
  simp only [writtenEscapes, List.mem_cons, Prod.mk.injEq, List.not_mem_nil, or_false] at member
  rcases member with ⟨rfl, rfl⟩ | ⟨rfl, rfl⟩ | ⟨rfl, rfl⟩ | ⟨rfl, rfl⟩ | ⟨rfl, rfl⟩ | ⟨rfl, rfl⟩ |
    ⟨rfl, rfl⟩ <;> exact ⟨_, rfl, by decide, rfl⟩

/-- A character written in a string is read as its code units. -/
lemma readString?_writeChar (c : Char) (rest : Text) :
    readString? (writeChar c ++ rest) =
      (readString? rest).map fun (units, after) => (Utf16.encodeChar c ++ units, after) := by
  unfold writeChar
  split
  · rename_i escape found
    obtain ⟨before, behind, whole, -⟩ := List.lookup_eq_some_iff.1 found
    have member : (c, escape) ∈ writtenEscapes := by rw [whole]; simp
    obtain ⟨letter, rfl, narrow, read⟩ := readEscape?_writtenEscapes member rest
    rw [Utf16.encodeChar, if_pos narrow]
    exact readString?_escape read
  · rename_i unescaped
    split
    · rename_i control
      have narrow : c.toNat < 0x10000 := by
        have : c.toNat < 32 := control
        omega
      rw [Utf16.encodeChar, if_pos narrow]
      exact readString?_unitEscape _ rest
    · rename_i visible
      have quote : c ≠ '\x22' := by
        rintro rfl
        exact absurd unescaped (by decide)
      have backslash : c ≠ '\\' := by
        rintro rfl
        exact absurd unescaped (by decide)
      rw [List.singleton_append, readString?, if_neg quote, if_neg backslash, if_neg visible]

/-- What is written of a piece of a string. -/
def writePiece : CodeUnit ⊕ Char → Text
  | .inl unit => unitEscape unit
  | .inr c => writeChar c

/-- A piece of a string is read as its code units. -/
lemma readString?_writePiece (piece : CodeUnit ⊕ Char) (rest : Text) :
    readString? (writePiece piece ++ rest) =
      (readString? rest).map fun (units, after) => (pieceUnits piece ++ units, after) := by
  cases piece with
  | inl unit => exact readString?_unitEscape unit rest
  | inr c => exact readString?_writeChar c rest

/-- The inside of a string and its second quotation mark. -/
def writeInside (units : List CodeUnit) : Text :=
  (Utf16.split units).flatMap writePiece ++ ['\x22']

lemma writeString_eq (units : List CodeUnit) : writeString units = '\x22' :: writeInside units := rfl

/-- **A written string is read back.** -/
lemma readString?_writeInside (units : List CodeUnit) (rest : Text) :
    readString? (writeInside units ++ rest) = some (units, rest) := by
  have pieces (all : List (CodeUnit ⊕ Char)) :
      readString? (all.flatMap writePiece ++ ['\x22'] ++ rest) =
        some (all.flatMap pieceUnits, rest) := by
    induction all with
    | nil => simp [readString?]
    | cons piece others ih =>
      rw [List.flatMap_cons, List.append_assoc, List.append_assoc, readString?_writePiece,
        ← List.append_assoc, ih]
      simp
  rw [writeInside, pieces, Utf16.flatMap_pieceUnits]

end Json

end RichText
