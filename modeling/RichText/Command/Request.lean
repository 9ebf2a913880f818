import RichText.Command.Argument
import RichText.Dialect

/-!
# Requests

What a command line asks for: to read markup or to write it, in which dialect and from where, or
something about the program itself.

Options may stand before the action and behind it, and the two sides are read alike; an option
may stand once on each.  Arguments are taken in order, so that a question about the program is
answered if nothing before it is wrong.  The name of a dialect is looked at when its side goes on,
which for the last one before the action is when the other side has been read.  The word that asks
for help ends the line: the words behind it, options or not, are what help is asked for.
-/

namespace RichText.Command

/-- What can be done with a message. -/
inductive Action where
  /-- Reads markup and writes the message as a document. -/
  | read
  /-- Reads a document and writes the message as markup. -/
  | write
  deriving DecidableEq, Repr, Inhabited

/-- The word for an action. -/
def Action.name : Action → Text
  | .read => "parse".toList
  | .write => "unparse".toList

/-- The action of a word. -/
def Action.ofWord? (word : Text) : Option Action :=
  [Action.read, Action.write].find? (·.name = word)

/-- The word that asks for help. -/
def helpWord : Text := "help".toList

/-- The first of the words behind the one that asks for help that has no place there: they may name
one action or help itself. -/
def strayTopic? : List Text → Option Text
  | [] => none
  | topic :: others =>
    if topic = helpWord ∨ (Action.ofWord? topic).isSome then others.head? else some topic

/-- What is wrong with a command line. -/
inductive UsageError where
  | unknownOption (written : Text)
  | missingName
  | unknownDialect (refusal : UnknownDialect)
  | repeated
  | conflicting
  | unexpectedWord (word : Text)
  | emptyName
  | missingAction
  deriving DecidableEq, Repr

/-- What is said of a wrong command line, in this program's own words but for the refusal of a
dialect. -/
def UsageError.message : UsageError → Text
  | .unknownOption written => "unknown option ".toList ++ written
  | .missingName => "the name of a syntax is missing".toList
  | .unknownDialect refusal => refusal.message
  | .repeated => "an option is given twice".toList
  | .conflicting => "two options exclude each other".toList
  | .unexpectedWord word => "unexpected argument ".toList ++ word
  | .emptyName => "the name of a file is empty".toList
  | .missingAction => "a command is missing".toList

/-- A message to read or to write. -/
structure Job where
  action : Action
  dialect : Dialect
  settings : Settings
  /-- The file to read from, or the standard input. -/
  file? : Option Text
  deriving DecidableEq, Repr

/-- What a command line asks for. -/
inductive Request where
  | job (job : Job)
  /-- The version of the program, or of one of its actions. -/
  | version (action? : Option Action)
  | help
  deriving DecidableEq, Repr

/-! ## The options of one side -/

/-- The options on one side of the action. -/
structure Flags where
  dialect? : Option Dialect := none
  /-- The name of a dialect that has not been looked at. -/
  pending? : Option Text := none
  html : Bool := false
  markdown : Bool := false
  withoutCustomEmoji : Bool := false
  deriving DecidableEq, Repr, Inhabited

namespace Flags

/-- Looks up a dialect. -/
def lookUp (name : Text) : Except UsageError Dialect :=
  (Dialect.ofName name).mapError UsageError.unknownDialect

/-- Looks at the name of a dialect if one waits. -/
def settle (flags : Flags) : Except UsageError Flags :=
  match flags.pending? with
  | none => .ok flags
  | some name => do
    let dialect ← lookUp name
    if flags.dialect?.isSome then .error .repeated
    else .ok { flags with dialect? := some dialect, pending? := none }

/-- Gives a switch, which may not have been given. -/
def switch (given : Flags → Bool) (give : Flags → Flags) (flags : Flags) :
    Except UsageError Flags := do
  let flags ← flags.settle
  if given flags then .error .repeated else .ok (give flags)

/-- The options of a side that has been read, completed by the surroundings' dialect. -/
def complete (surrounding? : Option Text) (flags : Flags) : Except UsageError Flags := do
  let flags ← flags.settle
  if flags.dialect?.isNone then
    if let some name := surrounding? then
      let _ ← lookUp name
  if flags.html && flags.markdown then .error .conflicting else .ok flags

end Flags

/-! ## Whole command lines -/

/-- A command line read so far. -/
structure Line where
  before : Flags := {}
  action? : Option Action := none
  behind : Flags := {}
  file? : Option Text := none
  deriving DecidableEq, Repr, Inhabited

/-- Why the arguments are not read to the end. -/
inductive Stop where
  | refused (error : UsageError)
  | answered (request : Request)
  deriving DecidableEq, Repr

namespace Line

/-- The options of the side being read. -/
def current (line : Line) : Flags := if line.action?.isSome then line.behind else line.before

/-- Replaces the options of the side being read. -/
def setCurrent (line : Line) (flags : Flags) : Line :=
  if line.action?.isSome then { line with behind := flags } else { line with before := flags }

/-- Changes the options of the side being read. -/
def change (line : Line) (step : Flags → Except UsageError Flags) : Except Stop Line :=
  match step line.current with
  | .ok flags => .ok (line.setCurrent flags)
  | .error error => .error (.refused error)

/-- Answers a question about the program, if all names of dialects before it are right. -/
def answer (line : Line) (request : Request) : Except Stop Line := do
  let _ ← line.change Flags.settle
  .error (.answered request)

/-- Takes the name of a file. -/
def takeFile (line : Line) (name : Text) : Except Stop Line := do
  let line ← line.change Flags.settle
  if line.file?.isSome then .error (.refused (.unexpectedWord name))
  else if name.isEmpty then .error (.refused .emptyName)
  else .ok { line with file? := some name }

/-- Takes an argument. -/
def take (line : Line) : Argument → Except Stop Line
  | .choose name attached =>
    line.change fun flags => do
      let flags ← flags.settle
      let chosen := { flags with pending? := some name }
      if attached then chosen.settle else .ok chosen
  | .chooseNothing => .error (.refused .missingName)
  | .html => line.change (Flags.switch Flags.html fun flags => { flags with html := true })
  | .markdown =>
    line.change (Flags.switch Flags.markdown fun flags => { flags with markdown := true })
  | .withoutCustomEmoji =>
    line.change
      (Flags.switch Flags.withoutCustomEmoji fun flags => { flags with withoutCustomEmoji := true })
  | .version => line.answer (.version line.action?)
  | .help => line.answer .help
  | .unknown written => .error (.refused (.unknownOption written))
  | .separator =>
    if line.action?.isSome then .ok line else .error (.refused .missingAction)
  | .operand word => line.takeFile word
  | .word word behind =>
    if line.action?.isSome then line.takeFile word
    else
      match Action.ofWord? word with
      | some action => .ok { line with action? := some action }
      | none =>
        if word = helpWord then
          match strayTopic? behind with
          | none => .error (.answered .help)
          | some stray => .error (.refused (.unexpectedWord stray))
        else .error (.refused (.unexpectedWord word))

/-- The dialect of a line.  A switch counts more than a name, `--html` more than `--markdown`, a
name behind the action more than one before it, and any of these more than the surroundings. -/
def dialect (surrounding? : Option Dialect) (before behind : Flags) : Dialect :=
  if before.html || behind.html then .html
  else if before.markdown || behind.markdown then .markdown
  else (behind.dialect? <|> before.dialect? <|> surrounding?).getD .standard

/-- What a line that has been read to its end asks for. -/
def finish (surrounding? : Option Text) (line : Line) : Except UsageError Request := do
  let behind ← line.behind.complete surrounding?
  let before ← line.before.complete surrounding?
  let some action := line.action? | .error .missingAction
  let named? := surrounding?.bind fun name => (Dialect.ofName name).toOption
  .ok (.job
    { action
      dialect := dialect named? before behind
      settings := ⟨!(before.withoutCustomEmoji || behind.withoutCustomEmoji)⟩
      file? := line.file? })

end Line

/-- What a list of words asks for, where the surroundings may name a dialect. -/
def Request.ofWords (surrounding? : Option Text) (words : List Text) : Except UsageError Request :=
  match (Argument.group words).foldlM Line.take {} with
  | .ok line => line.finish surrounding?
  | .error (.answered request) => .ok request
  | .error (.refused error) => .error error

end RichText.Command
