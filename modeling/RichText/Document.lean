import RichText.Json.Printer
import RichText.Json.Reader
import RichText.Message

/-!
# Documents

A document is a message as JSON: an object with the text and the list of entities, each entity an
object with its offset, its length, the name of its kind and what the kind carries.

Reading is strict about what it takes and lenient about the rest.  Every member that is needed has
to be there once, with a value of its type and in range; members that mean nothing are passed
over.  A document may also be an array of the text and the entities, without the names, and so may
a kind on its own; the kind of an entity may be given by its number.
-/

namespace RichText

open Json (Value)

/-- The members of an object. -/
abbrev Members := List (List CodeUnit × Value)

/-! ## Kinds -/

namespace Kind

/-- What a kind carries, as members. -/
def carried : Kind → List (Text × Value)
  | pre language => [("language".toList, .ofText language)]
  | textUrl target => [("url".toList, .ofText target)]
  | mentionName userId => [("user_id".toList, .ofInt userId)]
  | customEmoji documentId => [("document_id".toList, .ofInt documentId)]
  | _ => []

/-- A kind as members. -/
def toMembers (kind : Kind) : List (Text × Value) :=
  ("type".toList, .ofText kind.name) :: kind.carried

/-- A kind as JSON. -/
def toJson (kind : Kind) : Value := .ofMembers kind.toMembers

end Kind

namespace Members

/-- The value of a member that has to be there once. -/
def only? (key : String) (members : Members) : Option Value :=
  match Value.occurrences key.toList members with
  | [value] => some value
  | _ => none

/-- The text of a member. -/
def text? (key : String) (members : Members) : Option Text := (only? key members).bind Value.toText?

/-- The whole number of a member. -/
def int? (key : String) (members : Members) : Option Int := (only? key members).bind Value.toInt?

/-- The position of a member. -/
def position? (key : String) (members : Members) : Option Int :=
  (int? key members).filter fun n => decide (Position.InRange n)

end Members

namespace Kind

/-- What a kind carries besides its name: nothing, or one value under a key. -/
inductive Shape where
  | plain (kind : Kind)
  | carrying (key : String) (read : Value → Option Kind)

/-- The identifier that a value is. -/
def identifier? (value : Value) : Option Int :=
  value.toInt?.filter fun n => decide (Identifier.InRange n)

/-- The shapes of the kinds with their names, in the order of their numbers. -/
def shapes : List (Text × Shape) :=
  [("bold".toList, .plain bold),
   ("italic".toList, .plain italic),
   ("underline".toList, .plain underline),
   ("strike".toList, .plain strike),
   ("spoiler".toList, .plain spoiler),
   ("code".toList, .plain code),
   ("pre".toList, .carrying "language" fun value => value.toText?.map pre),
   ("blockquote".toList, .plain blockquote),
   ("text_url".toList, .carrying "url" fun value => value.toText?.map textUrl),
   ("url".toList, .plain url),
   ("email".toList, .plain email),
   ("mention_name".toList, .carrying "user_id" fun value => (identifier? value).map mentionName),
   ("custom_emoji".toList,
    .carrying "document_id" fun value => (identifier? value).map customEmoji)]

namespace Shape

/-- The kind of a shape among members, which carry the rest of it under its key. -/
def ofMembers? (members : Members) : Shape → Option Kind
  | plain kind => some kind
  | carrying key read => (members.only? key).bind read

/-- The kind of a shape with exactly the given values. -/
def ofItems? (items : List Value) : Shape → Option Kind
  | plain kind => if items.isEmpty then some kind else none
  | carrying _ read =>
    match items with
    | [value] => read value
    | _ => none

end Shape

/-- The kind with a given name among members that carry the rest of it. -/
def ofName? (name : Text) (members : Members) : Option Kind :=
  (shapes.lookup name).bind (Shape.ofMembers? members)

/-- The kind with a given number among members that carry the rest of it. -/
def ofNumber? (number : Int) (members : Members) : Option Kind :=
  if number < 0 then none else shapes[number.toNat]?.bind fun (_, shape) => shape.ofMembers? members

/-- The kind that members describe; it may be named or numbered. -/
def ofMembers? (members : Members) : Option Kind := do
  match ← members.only? "type" with
  | .number (.integer number) => ofNumber? number members
  | tag => ofName? (← tag.toText?) members

/-- The kind that a value on its own describes; it has to be named.  In an array the name comes
first. -/
def ofJson? : Value → Option Kind
  | .object members => do ofName? (← Members.text? "type" members) members
  | .array (name :: items) => do (shapes.lookup (← name.toText?)).bind (Shape.ofItems? items)
  | _ => none

end Kind

/-! ## Entities -/

namespace Entity

/-- An entity as JSON. -/
def toJson (entity : Entity) : Value :=
  .ofMembers (("offset".toList, .ofInt entity.offset) :: ("length".toList, .ofInt entity.length) ::
    entity.kind.toMembers)

/-- The entity that an object describes.  Its other members need only be sound. -/
def ofJson? : Value → Option Entity
  | .object members => do
    if !(Value.object members).isSound then none
    let offset ← Members.position? "offset" members
    let length ← Members.position? "length" members
    some ⟨offset, length, ← Kind.ofMembers? members⟩
  | _ => none

end Entity

/-! ## Messages -/

namespace Message

/-- How deeply arrays and objects may be nested down to the inside of an entity. -/
def greatestDepth : Nat := 127

/-- The members of a document. -/
def toMembers (message : Message) : List (Text × Value) :=
  [("text".toList, .ofText message.text),
   ("entities".toList, .array (message.entities.map Entity.toJson))]

/-- A message as JSON. -/
def toJson (message : Message) : Value := .ofMembers message.toMembers

/-- The entity that an item of a document's list describes; two levels of nesting lie around
it. -/
def entityIn? (item : Value) : Option Entity :=
  if item.depth + 2 ≤ greatestDepth then Entity.ofJson? item else none

/-- The entities that a value describes. -/
def entitiesIn? (value : Value) : Option (List Entity) := do
  (← value.toItems?).mapM entityIn?

/-- The message that a value describes.  In an object the list of entities may be left out, in an
array too; nothing may follow it there. -/
def ofJson? : Value → Option Message
  | .object members => do
    if members.any fun (key, _) => Utf16.hasLone key then none
    let text ← Members.text? "text" members
    match Value.occurrences "entities".toList members with
    | [] => some ⟨text, []⟩
    | [entities] => some ⟨text, ← entitiesIn? entities⟩
    | _ => none
  | .array [text] => text.toText?.map fun text => ⟨text, []⟩
  | .array [text, entities] => do some ⟨← text.toText?, ← entitiesIn? entities⟩
  | _ => none

/-- Writes a message as a document. -/
def toDocument (message : Message) : Text := message.toJson.write .indented

/-- The message that a document describes. -/
def ofDocument? (document : Text) : Option Message := (Value.read? document).bind ofJson?

end Message

end RichText
