import RichText.Entity
import RichText.Markdown.Marks
import RichText.Settings
import RichText.Target

/-!
# Links in Markdown

A link is written as its text in brackets and its target in parentheses.  What kind of link it is
shows when its text is known: a target may repeat the text, alone or as an e-mail address, mention
a user or give the document of a custom emoji.
-/

namespace RichText.Markdown

/-- A link whose text is being read. -/
structure LinkText where
  /-- The index of the closing bracket. -/
  textEnd : Nat
  /-- The index behind the closing parenthesis. -/
  stop : Nat
  target : Text
  deriving DecidableEq, Repr, Inhabited

/-- The kind of a link with a given target around a given text.  Custom emoji that are not
recognised are no link at all. -/
def linkKind? (settings : Settings) (target text : Text) : Option Kind :=
  if Text.after? mailTarget target = some text then some .email
  else if target = text then some .url
  else
    match mentionedUser? target with
    | some userId => some (.mentionName userId)
    | none =>
      let documentId? := (Text.after? emojiTarget target).bind
        (Numeral.signed? Identifier.least Identifier.greatest)
      match documentId? with
      | some documentId => if settings.customEmoji then some (.customEmoji documentId) else none
      | none => some (.textUrl target)

end RichText.Markdown
