import RichText.Html.Style
import RichText.Html.Reader
import RichText.Markdown.Style
import RichText.Markdown.Reader

/-!
# Dialects

The two dialects of markup, which are chosen by name.  A dialect reads every text as a message and
writes every message, so that naming a dialect is the only thing that can go wrong.
-/

namespace RichText

/-- A dialect of markup. -/
inductive Dialect where
  | html
  | markdown
  deriving DecidableEq, Repr, Inhabited

/-- The refusal of a name that no dialect has. -/
structure UnknownDialect where
  name : Text
  deriving DecidableEq, Repr

/-- What is said of a name that no dialect has. -/
def UnknownDialect.message (refusal : UnknownDialect) : Text :=
  "unknown markup syntax `".toList ++ refusal.name ++
    "` (expected `html` or `markdown`)".toList

namespace Dialect

/-- The dialect used when none is named. -/
def standard : Dialect := html

/-- The full name of a dialect. -/
def name : Dialect → Text
  | html => "html".toList
  | markdown => "markdown".toList

/-- The names of the dialects, each with a short one. -/
def names : List (Text × Dialect) :=
  [("html".toList, html), ("htm".toList, html), ("markdown".toList, markdown),
   ("md".toList, markdown)]

/-- The dialect of a name, whatever its case and the blanks around it. -/
def ofName (name : Text) : Except UnknownDialect Dialect :=
  match names.lookup (Text.lower (Text.trim name)) with
  | some dialect => .ok dialect
  | none => .error ⟨name⟩

@[simp] theorem ofName_name (dialect : Dialect) : ofName dialect.name = .ok dialect := by
  cases dialect <;> rfl

/-- What a dialect writes. -/
def style : Dialect → Style
  | html => Html.style
  | markdown => Markdown.style

/-- The message that markup stands for, its text without blank ends. -/
def read (dialect : Dialect) (settings : Settings) (markup : Text) : Message :=
  match dialect with
  | html => Html.read settings markup
  | markdown => Markdown.read settings markup

/-- The markup of a message. -/
def write (dialect : Dialect) (settings : Settings) (message : Message) : Text :=
  dialect.style.write settings message.text message.entities

end Dialect

end RichText
