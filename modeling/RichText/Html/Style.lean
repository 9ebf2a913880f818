import RichText.Style
import RichText.Html.Reference
import RichText.Text.Ascii

/-!
# Writing HTML

The tags written for each kind of formatting.  Text and link targets are escaped, so that what is
written holds no tags but these.
-/

namespace RichText.Html

/-- Writes a value between a start tag and the end tag of one name. -/
def element (name value : Text) : Text :=
  ['<'] ++ name ++ ['>'] ++ value ++ ['<', '/'] ++ name ++ ['>']

/-- The start of the tag of a custom emoji, up to its document. -/
def emojiOpening : Text := "<emoji document_id=".toList

/-- The end tag of a custom emoji. -/
def emojiClosing : Text := "</emoji>".toList

/-- Whether a value is one custom emoji: its tag, with a document of digits only that may be
quoted, then text without tags, then the end tag. -/
def isEmojiElement (value : Text) : Bool :=
  match Text.after? emojiOpening value with
  | none => false
  | some rest =>
    let rest := Text.dropHead ['\x22'] rest
    let behind := Text.dropHead ['\x22'] (rest.dropWhile isDigit)
    let inside? := (Text.after? ['>'] behind).bind (Text.before? emojiClosing)
    rest.head?.any isDigit && inside?.any (!·.contains '<')

/-- The style of HTML. -/
def style : Style where
  bold := element "strong".toList
  italic := element "em".toList
  underline := element ['u']
  strike := element "del".toList
  spoiler := element "tg-spoiler".toList
  code := element "code".toList
  codeBlock := element "pre".toList
  codeBlockIn value language :=
    "<pre><code class=\"language-".toList ++ escape true language ++ "\">".toList ++ value ++
      "</code></pre>".toList
  blockquote := element "blockquote".toList
  link value target := "<a href=\"".toList ++ target ++ "\">".toList ++ value ++ "</a>".toList
  emoji value documentId :=
    emojiOpening ++ Numeral.ofInt documentId ++ ['>'] ++ value ++ emojiClosing
  plain := escape false
  target := escape true
  isEmoji := isEmojiElement

end RichText.Html
