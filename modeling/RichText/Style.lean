import RichText.Nesting
import RichText.Settings
import RichText.Target

/-!
# Styles

A markup dialect decides how each kind of formatting is written around a text that is already
markup, and how plain text and link targets are escaped.  A style is these decisions; which
of them an entity calls for is the same in every dialect.
-/

namespace RichText

/-- What a markup dialect writes.  Values are markup already. -/
structure Style where
  bold : Text → Text
  italic : Text → Text
  underline : Text → Text
  strike : Text → Text
  spoiler : Text → Text
  code : Text → Text
  /-- A code block without a language. -/
  codeBlock : Text → Text
  /-- A code block with its language second. -/
  codeBlockIn : Text → Text → Text
  blockquote : Text → Text
  /-- A link with its target second, which is escaped already. -/
  link : Text → Text → Text
  /-- A custom emoji with its document second. -/
  emoji : Text → Int → Text
  /-- Escapes plain text so that it cannot be taken for markup. -/
  plain : Text → Text
  /-- Escapes the target of a link. -/
  target : Text → Text
  /-- Whether a value is exactly one custom emoji. -/
  isEmoji : Text → Bool

namespace Style

/-- Writes an entity around `value`.  The covered text is `raw`; a link without a target of its
own points to it.  Formatting that would enclose a custom emoji and nothing else is left out. -/
def wrap (style : Style) (settings : Settings) (entity : Entity) (value raw : Text) : Text :=
  let format (formatted : Text) := if style.isEmoji value then value else formatted
  match entity.kind with
  | .bold => format (style.bold value)
  | .italic => format (style.italic value)
  | .underline => format (style.underline value)
  | .strike => format (style.strike value)
  | .spoiler => format (style.spoiler value)
  | .code => format (style.code value)
  | .blockquote => format (style.blockquote value)
  | .pre language =>
    if language.isEmpty then style.codeBlock value else style.codeBlockIn value language
  | .mentionName userId => style.link value (mentionTarget ++ Numeral.ofInt userId)
  | .textUrl url => style.link value (style.target url)
  | .url => style.link value (style.target raw)
  | .email => style.link value (style.target (mailTarget ++ raw))
  | .customEmoji documentId =>
    if settings.customEmoji then style.emoji value documentId else value

/-- The writer of a style under the given settings. -/
def writer (style : Style) (settings : Settings) : Writer := ⟨style.plain, style.wrap settings⟩

/-- Writes a text with entities in a style. -/
def write (style : Style) (settings : Settings) (text : Text) (entities : List Entity) : Text :=
  (style.writer settings).write text entities

end Style

end RichText
