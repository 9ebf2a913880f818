import RichText.Text.Basic
import RichText.Bounds

/-!
# Entities

An entity gives a meaning to a stretch of a message: bold type, a link, a mention, a custom
emoji.  Its offset and length count UTF-16 code units.  Nothing ties an entity to a text, so
offsets may be negative and stretches may reach past the end; every consumer says what it makes
of such entities.
-/

namespace RichText

/-- What a stretch of text means. -/
inductive Kind where
  | bold
  | italic
  | underline
  | strike
  | spoiler
  | code
  /-- A code block; the language is empty when none is known. -/
  | pre (language : Text)
  | blockquote
  /-- Text that points to an address of its own. -/
  | textUrl (url : Text)
  /-- Text that is itself an address. -/
  | url
  /-- Text that is itself an e-mail address. -/
  | email
  /-- A mention of a user who may have no user name. -/
  | mentionName (userId : Int)
  /-- An emoji whose picture is a document; the covered text stands in for it. -/
  | customEmoji (documentId : Int)
  deriving DecidableEq, Repr, Inhabited

namespace Kind

/-- The name of a kind, which leaves out what the kind carries. -/
def name : Kind → Text
  | bold => "bold".toList
  | italic => "italic".toList
  | underline => "underline".toList
  | strike => "strike".toList
  | spoiler => "spoiler".toList
  | code => "code".toList
  | pre _ => "pre".toList
  | blockquote => "blockquote".toList
  | textUrl _ => "text_url".toList
  | url => "url".toList
  | email => "email".toList
  | mentionName _ => "mention_name".toList
  | customEmoji _ => "custom_emoji".toList

/-- The identifiers a kind carries are in range. -/
def Fits : Kind → Prop
  | mentionName userId => Identifier.InRange userId
  | customEmoji documentId => Identifier.InRange documentId
  | _ => True

instance : (kind : Kind) → Decidable kind.Fits
  | mentionName _ | customEmoji _ => inferInstanceAs (Decidable (Identifier.InRange _))
  | bold | italic | underline | strike | spoiler | code | pre _ | blockquote | textUrl _ | url
  | email => inferInstanceAs (Decidable True)

end Kind

/-- A kind and the stretch of text it applies to, in code units. -/
structure Entity where
  offset : Int
  length : Int
  kind : Kind
  deriving DecidableEq, Repr, Inhabited

namespace Entity

/-- One past the last code unit covered, held within the range of positions. -/
def stop (entity : Entity) : Int := Position.clamp (entity.offset + entity.length)

/-- An entity all of whose numbers are in range. -/
def Fits (entity : Entity) : Prop :=
  Position.InRange entity.offset ∧ Position.InRange entity.length ∧ entity.kind.Fits

instance (entity : Entity) : Decidable entity.Fits := inferInstanceAs (Decidable (_ ∧ _ ∧ _))

end Entity

/-! ## Entities under construction -/

/-- An entity whose end has not been reached.  The offset stays; the length grows with the text
that is appended, and the kind may be revised until the end. -/
structure OpenEntity where
  offset : Int
  length : Int
  kind : Kind
  deriving DecidableEq, Repr, Inhabited

namespace OpenEntity

/-- An empty entity at `offset`. -/
def start (offset : Int) (kind : Kind) : OpenEntity := ⟨offset, 0, kind⟩

/-- Covers `units` more code units, as far as positions reach. -/
def grow (units : Int) (draft : OpenEntity) : OpenEntity :=
  { draft with length := Position.clamp (draft.length + units) }

/-- Replaces the kind. -/
def setKind (kind : Kind) (draft : OpenEntity) : OpenEntity := { draft with kind }

/-- Whether the draft is a code block, the one kind that has a language. -/
def isPre (draft : OpenEntity) : Bool := draft.kind matches .pre _

/-- Gives a code block its language; other drafts have none and stay as they are. -/
def setLanguage (language : Text) (draft : OpenEntity) : OpenEntity :=
  if draft.isPre then { draft with kind := .pre language } else draft

/-- The finished entity. -/
def close (draft : OpenEntity) : Entity := ⟨draft.offset, draft.length, draft.kind⟩

@[simp] theorem close_start (offset : Int) (kind : Kind) :
    (start offset kind).close = ⟨offset, 0, kind⟩ := rfl

@[simp] theorem offset_grow (units : Int) (draft : OpenEntity) :
    (draft.grow units).offset = draft.offset := rfl

@[simp] theorem kind_grow (units : Int) (draft : OpenEntity) :
    (draft.grow units).kind = draft.kind := rfl

@[simp] theorem offset_setLanguage (language : Text) (draft : OpenEntity) :
    (draft.setLanguage language).offset = draft.offset := by
  unfold setLanguage; split <;> rfl

@[simp] theorem length_setLanguage (language : Text) (draft : OpenEntity) :
    (draft.setLanguage language).length = draft.length := by
  unfold setLanguage; split <;> rfl

end OpenEntity

end RichText
