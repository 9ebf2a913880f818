import RichText.Text.Numeral
import RichText.Bounds

/-!
# Targets of links

Most links lead to the address that is their target.  Some targets mean something else in every
dialect: an e-mail address, or a user who is mentioned.
-/

namespace RichText

/-- The target of a link that mentions a user, less the user's identifier. -/
def mentionTarget : Text := "tg://user?id=".toList

/-- The target of a link to an e-mail address, less the address. -/
def mailTarget : Text := "mailto:".toList

/-- The user a link target mentions. -/
def mentionedUser? (target : Text) : Option Int := do
  Numeral.signed? Identifier.least Identifier.greatest (← Text.after? mentionTarget target)

end RichText
