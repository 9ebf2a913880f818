/-!
# Settings

The settings of one reading or writing of markup.
-/

namespace RichText

/-- The settings of one reading or writing. -/
structure Settings where
  /-- Whether custom emoji are recognised and written.  When they are not, their markup yields no
  entity, and their entities are written as the plain text they cover. -/
  customEmoji : Bool := true
  deriving DecidableEq, Repr, Inhabited

/-- The settings under which custom emoji are neither recognised nor written. -/
def Settings.withoutCustomEmoji : Settings := ⟨false⟩

end RichText
