import RichText.Dialect

/-!
# Editing a message

A message is edited in steps: read from markup, set, added to, stripped, written out and read
back.  Some steps also answer with something about the message.
-/

namespace RichText

/-- A step of editing. -/
inductive Edit where
  /-- Replaces the message by the one that markup stands for. -/
  | read (dialect : Dialect) (markup : Text)
  /-- Replaces the message. -/
  | set (message : Message)
  /-- Adds an entity behind the others. -/
  | addEntity (entity : Entity)
  /-- Adds text behind the text; the entities stay as they are. -/
  | addText (text : Text)
  /-- Removes the blank ends of the text. -/
  | trim
  /-- Asks which text each entity covers. -/
  | cover
  /-- Asks for the markup of the message. -/
  | write (dialect : Dialect)
  /-- Replaces the message by what its own markup is read as. -/
  | cycle (dialect : Dialect)
  /-- Makes the markup of the message its text. -/
  | quote (dialect : Dialect)
  deriving DecidableEq, Repr

/-- What a step answers. -/
inductive Answer where
  | nothing
  | texts (texts : List Text)
  | markup (markup : Text)
  deriving DecidableEq, Repr

namespace Message

/-- The message after a step, and what the step answers. -/
def edit (settings : Settings) (message : Message) : Edit → Message × Answer
  | .read dialect markup => (dialect.read settings markup, .nothing)
  | .set message => (message, .nothing)
  | .addEntity entity => ({ message with entities := message.entities ++ [entity] }, .nothing)
  | .addText text => ({ message with text := message.text ++ text }, .nothing)
  | .trim => (message.trim, .nothing)
  | .cover => (message, .texts message.covered)
  | .write dialect => (message, .markup (dialect.write settings message))
  | .cycle dialect =>
    let markup := dialect.write settings message
    (dialect.read settings markup, .markup markup)
  | .quote dialect => (⟨dialect.write settings message, []⟩, .nothing)

/-- The message after each of a list of steps, with what the step answers. -/
def edits (settings : Settings) (message : Message) : List Edit → List (Message × Answer)
  | [] => []
  | step :: steps =>
    let after := message.edit settings step
    after :: edits settings after.1 steps

end Message

end RichText
