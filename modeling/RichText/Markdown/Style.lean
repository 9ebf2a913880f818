import RichText.Style
import RichText.Markdown.Marks
import RichText.Text.Ascii

/-!
# Writing Markdown

The delimiters written for each kind of formatting.  Text and link targets are escaped, so that
what is written holds no delimiters but these.
-/

namespace RichText.Markdown

/-- The characters that are escaped wherever they stand. -/
def alwaysEscaped : List Char := ['\\', '*', '_', '~', '|', '+', '\x60', '[', ']', '<']

/-- Escapes a text, `lineStart` telling whether a line starts with it.  At the start of a line `>`
is escaped too. -/
def quoteFrom (lineStart : Bool) : Text → Text
  | [] => []
  | c :: rest =>
    let escapes := alwaysEscaped.contains c || (c == '>' && lineStart)
    (if escapes then ['\\', c] else [c]) ++ quoteFrom (c == '\n') rest

/-- Escapes a text that starts a line. -/
def quote (text : Text) : Text := quoteFrom true text

/-- The characters that are escaped in the target of a link. -/
def escapedInTargets : List Char := ['\\', '(', ')', '[', ']']

/-- Escapes the target of a link. -/
def escapeTarget (target : Text) : Text :=
  target.flatMap fun c => if escapedInTargets.contains c then ['\\', c] else [c]

/-- Writes a value between two equal marks. -/
def between (mark value : Text) : Text := mark ++ value ++ mark

/-- Marks every line of a value but the first as quoted. -/
def continueQuote (value : Text) : Text :=
  value.flatMap fun c => if c = '\n' then ['\n', '>', ' '] else [c]

/-- Writes a link. -/
def link (value target : Text) : Text := ['['] ++ value ++ [']', '('] ++ target ++ [')']

/-- Whether a value is one custom emoji: in brackets a text without closing bracket, then a target
with a document of digits only. -/
def isEmojiLink (value : Text) : Bool :=
  match value with
  | '[' :: rest =>
    let behind := rest.dropWhile (· ≠ ']')
    let documentId? :=
      (Text.after? ([']', '('] ++ emojiTarget) behind).bind (Text.before? [')'])
    documentId?.any fun digits => !digits.isEmpty && digits.all isDigit
  | _ => false

/-- The style of Markdown. -/
def style : Style where
  bold := between ['*', '*']
  italic := between ['_', '_']
  underline := between ['+', '+']
  strike := between ['~', '~']
  spoiler := between ['|', '|']
  code := between ['\x60']
  codeBlock value := fence ++ ['\n'] ++ value ++ fence
  codeBlockIn value language := fence ++ quote language ++ ['\n'] ++ value ++ fence
  blockquote value := ['>', ' '] ++ continueQuote value ++ quoteEnd
  link := link
  emoji value documentId := link value (emojiTarget ++ Numeral.ofInt documentId)
  plain := quote
  target := escapeTarget
  isEmoji := isEmojiLink

end RichText.Markdown
