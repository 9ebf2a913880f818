import RichText.Entity
import RichText.Text.Blank
import RichText.Text.Utf16

/-!
# Messages

A message is a text with the entities that apply to it.  Two questions are asked of it: which
characters each entity covers, and what is left of both once the blank ends are trimmed off the
text.
-/

namespace RichText

/-- A text and the entities that apply to it. -/
structure Message where
  text : Text
  entities : List Entity
  deriving DecidableEq, Repr, Inhabited

namespace Entity

/-- The text an entity covers, of a text given by its code units.  A negative offset counts as
zero, a negative length too, and nothing is covered past the end. -/
def covered (units : List CodeUnit) (entity : Entity) : Text :=
  let start := entity.offset.toNat
  Utf16.slice units start (start + entity.length.toNat)

/-- What is left of an entity when `skipped` units go from the front of its text and `kept`
remain: nothing if it was empty or lies in what goes, else the part of it that remains, moved to
its new place. -/
def clip? (skipped kept : Int) (entity : Entity) : Option Entity :=
  if entity.length ≤ 0 then none
  else if entity.stop ≤ skipped then none
  else
    let moved :=
      if skipped ≤ entity.offset then { entity with offset := entity.offset - skipped }
      else { entity with offset := 0, length := entity.stop - skipped }
    if moved.stop ≤ kept then some moved
    else if kept ≤ moved.offset then none
    else some { moved with length := kept - moved.offset }

end Entity

namespace Message

/-- No text and no entities. -/
def empty : Message := ⟨[], []⟩

/-- The text each entity covers, in the order of the entities. -/
def covered (message : Message) : List Text :=
  let units := Utf16.encode message.text
  message.entities.map (·.covered units)

/-- The message with the blank ends of its text removed and the entities fitted to what is
left. -/
def trim (message : Message) : Message :=
  let text := message.text.trim
  let skipped := Utf16.length message.text.indent
  let kept := Utf16.length text
  ⟨text, message.entities.filterMap (Entity.clip? skipped kept)⟩

@[simp] theorem text_trim (message : Message) : message.trim.text = message.text.trim := rfl

end Message

end RichText
