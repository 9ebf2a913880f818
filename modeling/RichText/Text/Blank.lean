import RichText.Text.Basic

/-!
# Blank characters and trimming

The blank characters are those with the Unicode property `White_Space`, and trimming removes
them from the ends of a text.  The zero-width characters (U+200B, U+FEFF) do not have the
property, the no-break spaces do.
-/

namespace RichText

/-- The ranges of `White_Space`, both ends included, in ascending order. -/
def blankRanges : List (Nat × Nat) :=
  [(0x09, 0x0D), (0x20, 0x20), (0x85, 0x85), (0xA0, 0xA0), (0x1680, 0x1680), (0x2000, 0x200A),
   (0x2028, 0x2029), (0x202F, 0x202F), (0x205F, 0x205F), (0x3000, 0x3000)]

/-- Whether a character has the property `White_Space`. -/
def isBlank (c : Char) : Bool :=
  blankRanges.any fun range => decide (range.1 ≤ c.toNat) && decide (c.toNat ≤ range.2)

namespace Text

/-- The text from its first character that is not blank. -/
def trimStart (text : Text) : Text := text.dropWhile isBlank

/-- The text up to its last character that is not blank. -/
def trimEnd (text : Text) : Text := (text.reverse.dropWhile isBlank).reverse

/-- The text without the blank characters at its ends. -/
def trim (text : Text) : Text := trimEnd (trimStart text)

/-- The blank characters a text starts with. -/
def indent (text : Text) : Text := text.takeWhile isBlank

@[simp] theorem trim_nil : trim [] = [] := rfl

@[simp] theorem indent_append_trimStart (text : Text) : indent text ++ trimStart text = text :=
  List.takeWhile_append_dropWhile

theorem trimStart_length_le (text : Text) : (trimStart text).length ≤ text.length :=
  (List.dropWhile_sublist isBlank).length_le

end Text

end RichText
