import RichText.Text.Basic

/-!
# ASCII classes

Letter case and punctuation matter to markup in the ASCII range only: tag names are compared
without ASCII case, and an escape makes ASCII punctuation literal.  Characters outside the range
are neither letters nor punctuation here and keep their case.
-/

namespace RichText

/-- An ASCII letter. -/
def isLetter (c : Char) : Bool :=
  (decide ('a' ≤ c) && decide (c ≤ 'z')) || (decide ('A' ≤ c) && decide (c ≤ 'Z'))

/-- An ASCII digit. -/
def isDigit (c : Char) : Bool := decide ('0' ≤ c) && decide (c ≤ '9')

/-- One of the thirty-two ASCII punctuation marks: the printing ASCII characters that are
neither letters, digits nor the space. -/
def isPunctuation (c : Char) : Bool :=
  decide ('!' ≤ c) && decide (c ≤ '~') && !isLetter c && !isDigit c

namespace Text

/-- The text with ASCII capitals made small. -/
def lower (text : Text) : Text := text.map Char.toLower

@[simp] theorem length_lower (text : Text) : (lower text).length = text.length := by
  simp [lower]

end Text

end RichText
