import RichText.Gathering
import RichText.Style
import RichText.Html.Lexeme
import RichText.Message

/-!
# Reading HTML

The tokens of a source are taken in order.  Text is gathered, a start tag that means an entity
starts one under the tag's name, and an end tag ends the entity under its name.  Nothing is
refused: an unknown tag leaves its content behind, an end tag without a start is passed over, and
a tag within another of the same name starts nothing.

The open tags are kept beside the started entities, because a link to an e-mail address replaces
the text within it by the address.  End tags close the innermost open tag whatever its name.
-/

namespace RichText.Html

/-- A tag that has not been closed. -/
structure OpenTag where
  name : Text
  /-- The text written in place of each run of character data directly within the tag. -/
  substitute? : Option Text
  deriving DecidableEq, Repr, Inhabited

/-- How far a source has been read. -/
structure Reading where
  gathered : Gathering Text
  /-- The open tags, innermost first. -/
  openTags : List OpenTag

/-! ## The meaning of tags -/

/-- The tags that mean a kind by their name alone. -/
def formattingTags : List (Text × Kind) :=
  [("strong".toList, .bold), ("b".toList, .bold), ("em".toList, .italic), ("i".toList, .italic),
   ("tg-spoiler".toList, .spoiler), ("u".toList, .underline), ("del".toList, .strike),
   ("s".toList, .strike), ("blockquote".toList, .blockquote), ("code".toList, .code),
   ("pre".toList, .pre [])]

/-- The name of link tags. -/
def anchorTag : Text := ['a']

/-- The name of code tags. -/
def codeTag : Text := "code".toList

/-- The name of code block tags. -/
def preTag : Text := "pre".toList

/-- The name of custom emoji tags. -/
def emojiTag : Text := "emoji".toList

/-- The kind of a link with a given target, and the text that replaces its content.  Whether the
target is the link's own text is not known before the link ends. -/
def linkMeaning (target : Text) : Kind × Option Text :=
  match Text.after? mailTarget target with
  | some address => (.email, some address)
  | none =>
    match mentionedUser? target with
    | some userId => (.mentionName userId, none)
    | none => (.textUrl target, none)

/-- The kind that a start tag means, if it means one, and the text that replaces its content. -/
def meaning? (settings : Settings) (name : Text) (attributes : List Attribute) :
    Option (Kind × Option Text) :=
  if name = anchorTag then
    (Attribute.valueOf? "href".toList attributes).map linkMeaning
  else if name = emojiTag then
    if settings.customEmoji then do
      let written ← Attribute.valueOf? "document_id".toList attributes
      let documentId ←
        Numeral.signed? Identifier.least Identifier.greatest (Text.trim written)
      some (.customEmoji documentId, none)
    else none
  else (formattingTags.lookup name).map fun kind => (kind, none)

theorem kind_linkMeaning (target : Text) : (linkMeaning target).1 = .email ∨
    (∃ userId, (linkMeaning target).1 = .mentionName userId) ∨
      (linkMeaning target).1 = .textUrl target := by
  unfold linkMeaning
  split
  · exact .inl rfl
  · split
    · exact .inr (.inl ⟨_, rfl⟩)
    · exact .inr (.inr rfl)

/-- A tag means a link to its target, a custom emoji whose document it names, or what its name is
listed with. -/
theorem meaning?_eq_some {settings : Settings} {name : Text} {attributes : List Attribute}
    {kind : Kind} {substitute? : Option Text}
    (h : meaning? settings name attributes = some (kind, substitute?)) :
    (name = anchorTag ∧ ∃ target, Attribute.valueOf? "href".toList attributes = some target ∧
        linkMeaning target = (kind, substitute?)) ∨
      (name = emojiTag ∧ ∃ written documentId, kind = .customEmoji documentId ∧
        Numeral.signed? Identifier.least Identifier.greatest written = some documentId) ∨
      (name, kind) ∈ formattingTags := by
  unfold meaning? at h
  split at h
  · rename_i anchor
    obtain ⟨target, href, found⟩ := Option.map_eq_some_iff.1 h
    exact .inl ⟨anchor, target, href, found⟩
  · split at h
    · rename_i emoji
      split at h
      · simp only [Option.bind_eq_bind, Option.bind_eq_some_iff, Option.some.injEq,
          Prod.mk.injEq] at h
        obtain ⟨written, -, documentId, number, same, -⟩ := h
        exact .inr (.inl ⟨emoji, Text.trim written, documentId, same.symm, number⟩)
      · cases h
    · obtain ⟨formatting, found, same⟩ := Option.map_eq_some_iff.1 h
      cases same
      obtain ⟨front, back, whole, -⟩ := List.lookup_eq_some_iff.1 found
      exact .inr (.inr (by rw [whole]; simp))

/-- The language that a code tag names for the code block around it. -/
def namedLanguage? (attributes : List Attribute) : Option Text := do
  Text.after? "language-".toList (← Attribute.valueOf? "class".toList attributes)

namespace Reading

/-- Nothing read. -/
def start : Reading := ⟨.empty, []⟩

/-- Takes a start tag.  A code tag within a code block only names the block's language. -/
def startTag (settings : Settings) (name : Text) (attributes : List Attribute)
    (reading : Reading) : Reading :=
  if name = codeTag ∧ reading.gathered.isOpen preTag then
    let gathered :=
      match namedLanguage? attributes with
      | some language => reading.gathered.revise preTag (·.setLanguage language)
      | none => reading.gathered
    ⟨gathered, ⟨name, none⟩ :: reading.openTags⟩
  else
    match meaning? settings name attributes with
    | some (kind, substitute?) =>
      ⟨reading.gathered.start name kind, ⟨name, substitute?⟩ :: reading.openTags⟩
    | none => ⟨reading.gathered, ⟨name, none⟩ :: reading.openTags⟩

/-- What a start tag does to what is gathered: it gives a code block its language, or starts what it
means, or leaves all as it is. -/
theorem gathered_startTag (settings : Settings) (name : Text) (attributes : List Attribute)
    (reading : Reading) :
    (∃ language, (reading.startTag settings name attributes).gathered =
        reading.gathered.revise preTag (·.setLanguage language)) ∨
      (∃ kind substitute?, meaning? settings name attributes = some (kind, substitute?) ∧
        (reading.startTag settings name attributes).gathered =
          reading.gathered.start name kind) ∨
      (reading.startTag settings name attributes).gathered = reading.gathered := by
  unfold startTag
  split
  · simp only
    split
    · exact .inl ⟨_, rfl⟩
    · exact .inr (.inr rfl)
  · split
    · rename_i means
      exact .inr (.inl ⟨_, _, means, rfl⟩)
    · exact .inr (.inr rfl)

/-- The text to write for a run of character data. -/
def replaced (text : Text) (reading : Reading) : Text :=
  (reading.openTags.head?.bind OpenTag.substitute?).getD text

/-- Takes a run of character data. -/
def text (text : Text) (reading : Reading) : Reading :=
  { reading with gathered := reading.gathered.append (reading.replaced text) }

/-- Makes the open link a plain address if its text is its target. -/
def resolveLink (gathered : Gathering Text) : Gathering Text :=
  match gathered.draft? anchorTag, gathered.covered? anchorTag with
  | some ⟨_, _, .textUrl url⟩, some text =>
    if url = text then gathered.revise anchorTag (·.setKind .url) else gathered
  | _, _ => gathered

/-- A link that is resolved is a plain address, or stays as it is. -/
theorem resolveLink_cases (gathered : Gathering Text) :
    resolveLink gathered = gathered.revise anchorTag (·.setKind .url) ∨
      resolveLink gathered = gathered := by
  unfold resolveLink
  split
  · split
    · exact .inl rfl
    · exact .inr rfl
  · exact .inr rfl

/-- Takes an end tag. -/
def endTag (name : Text) (reading : Reading) : Reading :=
  let gathered := if name = anchorTag then resolveLink reading.gathered else reading.gathered
  ⟨gathered.finish name, reading.openTags.tail⟩

/-- Takes a token. -/
def take (settings : Settings) (reading : Reading) : Token → Reading
  | .startTag name attributes selfClosing =>
    let opened := reading.startTag settings name attributes
    if selfClosing then opened.endTag name else opened
  | .endTag name => reading.endTag name
  | .text text => reading.text text

/-- Takes all tokens of a source. -/
def ofSource (settings : Settings) (source : Text) : Reading :=
  ((Lexeme.readAll source).filterMap Lexeme.token?).foldl (take settings) start

end Reading

/-- The message that HTML stands for.  Entities are listed in the order their tags close; those
whose tags never close are none. -/
def read (settings : Settings) (source : Text) : Message :=
  let gathered := (Reading.ofSource settings source).gathered
  Message.trim ⟨gathered.text, gathered.entities⟩

end RichText.Html
