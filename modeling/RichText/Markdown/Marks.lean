import RichText.Text.Basic

/-!
# Marks of Markdown

The marks that reading and writing share.
-/

namespace RichText.Markdown

/-- The mark around a code block. -/
def fence : Text := ['\x60', '\x60', '\x60']

/-- The mark that ends a block quote. -/
def quoteEnd : Text := ['<', '<']

/-- The target of a custom emoji, less its document. -/
def emojiTarget : Text := "emoji/".toList

/-- The length of the mark of a quoted line, a `>` and a space that may follow it, at the start
of a text that has it. -/
def quoteMarkLength (text : Text) : Nat := if text[1]? = some ' ' then 2 else 1

theorem quoteMarkLength_pos (text : Text) : 0 < quoteMarkLength text := by
  unfold quoteMarkLength; split <;> decide

end RichText.Markdown
