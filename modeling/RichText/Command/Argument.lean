import RichText.Text.Basic

/-!
# Arguments of the command

The words of a command line are grouped into arguments: options, of which one takes a value, and
other words.  Grouping does not ask whether an argument may stand where it stands.
-/

namespace RichText.Command

/-- An argument as it is written. -/
inductive Argument where
  /-- A choice of dialect by name; the name is either part of the word or the next word. -/
  | choose (name : Text) (attached : Bool)
  /-- A choice of dialect that no name follows. -/
  | chooseNothing
  | html
  | markdown
  | withoutCustomEmoji
  | version
  | help
  /-- An option that does not exist, or one that takes no value and has one. -/
  | unknown (written : Text)
  /-- The mark behind which every word is an operand. -/
  | separator
  /-- Any other word, and the words behind it as they are written. -/
  | word (word : Text) (behind : List Text)
  /-- A word behind the separator. -/
  | operand (word : Text)
  deriving DecidableEq, Repr, Inhabited

namespace Argument

/-- The options that take no value, by their names. -/
def switches : List (Text × Argument) :=
  [("--html".toList, html), ("--markdown".toList, markdown), ("--md".toList, markdown),
   ("--no-custom-emoji".toList, withoutCustomEmoji), ("--version".toList, version),
   ("--help".toList, help)]

/-- The option that chooses a dialect. -/
def choice : Text := "--syntax".toList

/-- Whether a word is written like an option.  A lone dash is not. -/
def looksLikeOption : Text → Bool
  | '-' :: _ :: _ => true
  | _ => false

/-- The argument that a word written like an option is, if it takes no further word. -/
def ofOption (written : Text) : Argument :=
  match Text.after? (choice ++ ['=']) written with
  | some name => choose name true
  | none =>
    match switches.lookup written with
    | some argument => argument
    | none =>
      -- short options may be run together, and the first ends the reading
      match written with
      | '-' :: 'V' :: _ => version
      | '-' :: 'h' :: _ => help
      | _ => unknown written

/-- Groups the words of a command line. -/
def group : List Text → List Argument
  | [] => []
  | written :: rest =>
    if written = ['-', '-'] then separator :: rest.map operand
    else if written = choice then
      match rest with
      | [] => [chooseNothing]
      | name :: others =>
        if looksLikeOption name then chooseNothing :: group (name :: others)
        else choose name false :: group others
    else if looksLikeOption written then ofOption written :: group rest
    else word written rest :: group rest

end Argument

end RichText.Command
