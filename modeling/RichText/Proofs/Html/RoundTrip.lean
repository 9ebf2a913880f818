import Mathlib.Tactic.Lemma
import RichText.Html.Reader
import RichText.Proofs.Gatherings
import RichText.Proofs.Html.EmojiElements
import RichText.Proofs.Trimming

/-!
# Written HTML is read back

What the writer of HTML makes of a message is read as that message, if its entities are
`Distinct`: they lie on characters and are nested, no entity is within another whose tags would
hide its own, and each link has a target that the reader cannot take for another kind of link.
The entities come back in the order in which they end (`read_write_of_distinct`).

The tokens of a forest are followed one span at a time.  The tags of a span start and end one
entity (`take_span`), and so reading a forest adds the text of its stretch and its entities, and
leaves the open tags as they were (`tokensGrow_of_matches`).
-/

namespace RichText

/-- The kinds whose tags cannot stand within each other. -/
inductive TagClass where
  | bold
  | italic
  | underline
  | strike
  | spoiler
  | blockquote
  | code
  | link
  | emoji
  deriving DecidableEq, Repr

/-- The class of a kind. -/
def Kind.tagClass : Kind → TagClass
  | bold => .bold
  | italic => .italic
  | underline => .underline
  | strike => .strike
  | spoiler => .spoiler
  | blockquote => .blockquote
  | code | pre _ => .code
  | textUrl _ | url | email | mentionName _ => .link
  | customEmoji _ => .emoji

namespace Html

/-- The names of the tags of a class. -/
def tagNames : TagClass → List Text
  | .bold => ["strong".toList]
  | .italic => ["em".toList]
  | .underline => [['u']]
  | .strike => ["del".toList]
  | .spoiler => ["tg-spoiler".toList]
  | .blockquote => ["blockquote".toList]
  | .code => [codeTag, preTag]
  | .link => [anchorTag]
  | .emoji => [emojiTag]

/-- A link over a text whose target is read as its own kind. -/
def TargetKept : Kind → Text → Prop
  | .textUrl url, raw =>
    url ≠ raw ∧ Text.after? mailTarget url = none ∧ mentionedUser? url = none
  | .url, raw => Text.after? mailTarget raw = none ∧ mentionedUser? raw = none
  | _, _ => True

instance : (kind : Kind) → (raw : Text) → Decidable (TargetKept kind raw)
  | .textUrl _, _ => inferInstanceAs (Decidable (_ ∧ _ ∧ _))
  | .url, _ => inferInstanceAs (Decidable (_ ∧ _))
  | .bold, _ | .italic, _ | .underline, _ | .strike, _ | .spoiler, _ | .code, _ | .pre _, _
  | .blockquote, _ | .email, _ | .mentionName _, _ | .customEmoji _, _ =>
    inferInstanceAs (Decidable True)

/-- An entity whose tags may enclose those of another: the classes differ, an e-mail address
encloses nothing, and formatting does not enclose a custom emoji and nothing else. -/
def MayEnclose (outer inner : Entity) : Prop :=
  outer.kind.tagClass ≠ inner.kind.tagClass ∧ outer.kind ≠ .email ∧
    ¬ (outer.kind.isFormatting = true ∧ inner.kind.tagClass = .emoji ∧
      outer.offset = inner.offset ∧ outer.length = inner.length)

instance (outer inner : Entity) : Decidable (MayEnclose outer inner) :=
  inferInstanceAs (Decidable (_ ∧ _ ∧ _))

lemma tagNames_disjoint {first second : TagClass} (h : first ≠ second) :
    ∀ name ∈ tagNames first, name ∉ tagNames second := by
  revert h
  cases first <;> cases second <;> decide

/-! ## Single tokens -/

namespace Reading

variable {settings : Settings} {reading : Reading}

/-- A start tag with a meaning starts an entity, unless it only names a language. -/
lemma take_startTag {name : Text} {attributes : List Attribute} {kind : Kind}
    {substitute? : Option Text}
    (apart : name ≠ codeTag ∨ reading.gathered.draft? preTag = none)
    (means : meaning? settings name attributes = some (kind, substitute?)) :
    take settings reading (.startTag name attributes false) =
      ⟨reading.gathered.start name kind, ⟨name, substitute?⟩ :: reading.openTags⟩ := by
  have noLanguage : ¬ (name = codeTag ∧ reading.gathered.isOpen preTag = true) := by
    rintro ⟨code, isOpen⟩
    rcases apart with other | free
    · exact other code
    · simp [Gathering.isOpen, free] at isOpen
  simp only [take, startTag, noLanguage, if_false, means, Bool.false_eq_true]

lemma take_endTag {name : Text} (other : name ≠ anchorTag) (gathered : Gathering Text)
    (tag : OpenTag) (tags : List OpenTag) :
    take settings ⟨gathered, tag :: tags⟩ (.endTag name) = ⟨gathered.finish name, tags⟩ := by
  simp [take, endTag, other]

/-- An open link is made an address if its target is what it covers, and is left as it is
otherwise. -/
lemma resolveLink_of_open {gathered : Gathering Text} {draft : OpenEntity} {piece : Text}
    (isOpen : gathered.draft? anchorTag = some draft)
    (covers : gathered.covered? anchorTag = some piece) :
    resolveLink gathered =
      if draft.kind = .textUrl piece then gathered.revise anchorTag (·.setKind .url)
      else gathered := by
  obtain ⟨offset, length, kind⟩ := draft
  unfold resolveLink
  rw [isOpen, covers]
  cases kind with
  | textUrl url => simp only [Kind.textUrl.injEq]
  | _ => simp

/-- Ending a link makes it an address if its target is its text, and leaves it as it is
otherwise. -/
lemma resolveLink_eq {before after : Gathering Text} {kind : Kind} {piece : Text}
    {new : List Entity} (sound : before.Sound) (free : before.draft? anchorTag = none)
    (grows : Gathering.Grows (before.start anchorTag kind) after piece new) :
    resolveLink after =
      if kind = .textUrl piece then after.revise anchorTag (·.setKind .url) else after :=
  resolveLink_of_open (grows.draft?_started sound free) (grows.covered?_started sound free)

/-! ## The tags of an entity -/

/-- The tags start an entity under `key`, as the kind `first`, and their end tags end it as the
kind `kind`, whatever is read between them that covers `raw`.  Directly within the tags text is
replaced only for an e-mail address, by the address itself. -/
def Wraps (settings : Settings) (reading : Reading) (tags : List Tag) (key : Text)
    (first kind : Kind) (raw : Text) : Prop :=
  ∃ opened : List OpenTag,
    (tags.map Tag.token).foldl (take settings) reading =
      ⟨reading.gathered.start key first, opened ++ reading.openTags⟩ ∧
    opened.head?.map OpenTag.substitute? = some (if kind = .email then some raw else none) ∧
    ∀ after new, Gathering.Grows (reading.gathered.start key first) after raw new →
      ∃ final, (tags.reverse.map Tag.endToken).foldl (take settings)
          ⟨after, opened ++ reading.openTags⟩ = ⟨final, reading.openTags⟩ ∧
        Gathering.Grows reading.gathered final raw (new ++
          [⟨Utf16.unitCount reading.gathered.text, Utf16.unitCount raw, kind⟩])

/-- A tag that means a kind and nothing else. -/
lemma wraps_tag {name : Text} {attributes : List Attribute} {kind : Kind} (raw : Text)
    (means : meaning? settings name attributes = some (kind, none)) (mail : kind ≠ .email)
    (other : name ≠ anchorTag) (apart : name ≠ codeTag ∨ reading.gathered.draft? preTag = none)
    (sound : reading.gathered.Sound) (free : reading.gathered.draft? name = none) :
    Wraps settings reading [⟨name, attributes⟩] name kind kind raw := by
  refine ⟨[⟨name, none⟩], take_startTag apart means, by simp [mail], ?_⟩
  intro after new grows
  have ended : take settings ⟨after, [⟨name, none⟩] ++ reading.openTags⟩ (.endTag name) =
      ⟨after.finish name, reading.openTags⟩ := take_endTag other after ⟨name, none⟩ reading.openTags
  exact ⟨after.finish name, ended, grows.finish sound free⟩

/-- A link whose target is read as its own kind. -/
lemma wraps_linkTag {kind first : Kind} {raw target : Text} {substitute? : Option Text}
    (means : linkMeaning target = (first, substitute?))
    (substitute : substitute? = if kind = .email then some raw else none)
    (resolved : kind = if first = .textUrl raw then .url else first)
    (sound : reading.gathered.Sound) (free : reading.gathered.draft? anchorTag = none) :
    Wraps settings reading [linkTag target] anchorTag first kind raw := by
  refine ⟨[⟨anchorTag, substitute?⟩], ?_, by simp [substitute], ?_⟩
  · have meant : meaning? settings anchorTag [⟨"href".toList, some target⟩] =
        some (first, substitute?) := by
      show (some target).map linkMeaning = _
      rw [Option.map_some, means]
    exact take_startTag (.inl (by decide)) meant
  · intro after new grows
    have ended : take settings ⟨after, [⟨anchorTag, substitute?⟩] ++ reading.openTags⟩
        (linkTag target).endToken =
          ⟨(resolveLink after).finish anchorTag, reading.openTags⟩ := rfl
    refine ⟨_, ended, ?_⟩
    rw [resolveLink_eq sound free grows, resolved]
    split
    · exact grows.finish_revised .url sound free
    · exact grows.finish sound free

/-- A code block with a language, whose code tag only names the language. -/
lemma wraps_languageTags {language : Text} (raw : Text) (sound : reading.gathered.Sound)
    (code : reading.gathered.draft? codeTag = none)
    (pre : reading.gathered.draft? preTag = none) :
    Wraps settings reading
      [bareTag preTag, ⟨codeTag, [⟨"class".toList, some ("language-".toList ++ language)⟩]⟩]
      preTag (.pre language) (.pre language) raw := by
  have named : namedLanguage?
      [⟨"class".toList, some ("language-".toList ++ language)⟩] = some language :=
    Text.after?_append "language-".toList language
  have started : (reading.gathered.start preTag (.pre [])).isOpen preTag = true := by
    rw [Gathering.isOpen, Gathering.draft?_start, if_pos rfl]
    rfl
  have revised : (reading.gathered.start preTag (.pre [])).revise preTag
      (·.setLanguage language) = reading.gathered.start preTag (.pre language) :=
    Gathering.revise_start pre rfl
  refine ⟨[⟨codeTag, none⟩, ⟨preTag, none⟩], ?_, by simp, ?_⟩
  · have outer : take settings reading (bareTag preTag).token =
        ⟨reading.gathered.start preTag (.pre []), ⟨preTag, none⟩ :: reading.openTags⟩ :=
      take_startTag (.inl (by decide)) rfl
    rw [List.map_cons, List.foldl_cons, outer]
    simp only [List.map_cons, List.map_nil, List.foldl_cons, List.foldl_nil, Tag.token, take,
      startTag, started, and_self, if_true, named, revised, Bool.false_eq_true, if_false]
    rfl
  · intro after new grows
    have inner : take settings ⟨after, [⟨codeTag, none⟩, ⟨preTag, none⟩] ++ reading.openTags⟩
        (.endTag codeTag) = ⟨after, ⟨preTag, none⟩ :: reading.openTags⟩ := by
      have free : after.draft? codeTag = none := by
        refine grows.draft?_eq_none ?_
        rw [Gathering.draft?_start, if_neg (by decide), code]
      have ended : take settings ⟨after, ⟨codeTag, none⟩ :: ⟨preTag, none⟩ :: reading.openTags⟩
          (.endTag codeTag) = ⟨after.finish codeTag, ⟨preTag, none⟩ :: reading.openTags⟩ :=
        take_endTag (by decide) after _ _
      rwa [Gathering.finish_of_free free] at ended
    have outer : take settings ⟨after, ⟨preTag, none⟩ :: reading.openTags⟩ (.endTag preTag) =
        ⟨after.finish preTag, reading.openTags⟩ := take_endTag (by decide) _ _ _
    refine ⟨after.finish preTag, ?_, grows.finish sound pre⟩
    show take settings (take settings _ (.endTag codeTag)) (.endTag preTag) = _
    rw [inner, outer]

lemma linkMeaning_mention {userId : Int} (fits : Identifier.InRange userId) :
    linkMeaning (mentionTarget ++ Numeral.ofInt userId) = (.mentionName userId, none) := by
  have noMail : Text.after? mailTarget (mentionTarget ++ Numeral.ofInt userId) = none := rfl
  simp only [linkMeaning, noMail, mentionedUser?_mention fits]

lemma meaning?_emoji {settings : Settings} (enabled : settings.customEmoji = true)
    {documentId : Int} (fits : Identifier.InRange documentId) :
    meaning? settings "emoji".toList [⟨documentKey, some (Numeral.ofInt documentId)⟩] =
      some (.customEmoji documentId, none) := by
  have written : Attribute.valueOf? "document_id".toList
      [⟨documentKey, some (Numeral.ofInt documentId)⟩] = some (Numeral.ofInt documentId) := rfl
  have name : ("emoji".toList = anchorTag) = False := by simp [anchorTag]
  have emoji : ("emoji".toList = emojiTag) = True := eq_true rfl
  have value : Numeral.signed? Identifier.least Identifier.greatest
      (Text.trim (Numeral.ofInt documentId)) = some documentId := by
    rw [Numeral.trim_ofInt]
    exact Numeral.signed?_ofInt fits
  simp only [meaning?, name, emoji, if_false, if_true, enabled, written, Option.bind_eq_bind,
    Option.bind_some, value]

/-- **The tags of an entity start and end it.** -/
lemma wraps_tagsOf (enabled : settings.customEmoji = true) {kind : Kind} {raw : Text}
    (fits : kind.Fits) (kept : TargetKept kind raw) (sound : reading.gathered.Sound)
    (free : ∀ name ∈ tagNames kind.tagClass, reading.gathered.draft? name = none) :
    ∃ key ∈ tagNames kind.tagClass, ∃ first,
      Wraps settings reading (tagsOf settings kind raw) key first kind raw := by
  cases kind with
  | bold | italic | underline | strike | spoiler | blockquote =>
    refine ⟨_, List.mem_cons_self, _, wraps_tag raw rfl ?_ ?_ (.inl ?_) sound
      (free _ List.mem_cons_self)⟩ <;> decide
  | code =>
    refine ⟨codeTag, List.mem_cons_self, _, wraps_tag raw rfl ?_ ?_ (.inr (free preTag ?_)) sound
      (free codeTag List.mem_cons_self)⟩ <;> decide
  | pre language =>
    have code := free codeTag List.mem_cons_self
    have member : preTag ∈ [codeTag, preTag] := by decide
    have pre := free preTag member
    refine ⟨preTag, member, .pre language, ?_⟩
    by_cases empty : language = []
    · subst empty
      exact wraps_tag raw rfl (by decide) (by decide) (.inl (by decide)) sound pre
    · have filled : language.isEmpty = false := by simpa using empty
      simp only [tagsOf, filled, Bool.false_eq_true, if_false]
      exact wraps_languageTags raw sound code pre
  | textUrl url =>
    obtain ⟨own, noMail, noMention⟩ := kept
    refine ⟨anchorTag, List.mem_cons_self, .textUrl url, wraps_linkTag ?_ rfl ?_ sound
      (free _ List.mem_cons_self)⟩
    · simp [linkMeaning, noMail, noMention]
    · simp [own]
  | url =>
    obtain ⟨noMail, noMention⟩ := kept
    refine ⟨anchorTag, List.mem_cons_self, .textUrl raw, wraps_linkTag ?_ rfl (by simp) sound
      (free _ List.mem_cons_self)⟩
    simp [linkMeaning, noMail, noMention]
  | email =>
    refine ⟨anchorTag, List.mem_cons_self, .email, wraps_linkTag ?_ rfl (by simp) sound
      (free _ List.mem_cons_self)⟩
    simp only [linkMeaning, Text.after?_append, if_true]
  | mentionName userId =>
    exact ⟨anchorTag, List.mem_cons_self, .mentionName userId,
      wraps_linkTag (linkMeaning_mention fits) rfl (by simp) sound (free _ List.mem_cons_self)⟩
  | customEmoji documentId =>
    refine ⟨emojiTag, List.mem_cons_self, .customEmoji documentId, ?_⟩
    simp only [tagsOf, enabled, if_true]
    exact wraps_tag raw (meaning?_emoji enabled fits) (by simp) (by decide) (.inl (by decide))
      sound (free _ List.mem_cons_self)

/-! ## The tokens of a forest -/

/-- A run of character data, if there is one, that no other follows is gathered as it stands, where
nothing replaces it. -/
lemma foldl_join_text {piece : Text} {tokens : List Token}
    (noText : piece ≠ [] → ∀ more, tokens.head? ≠ some (.text more))
    (literal : piece ≠ [] → reading.replaced piece = piece) :
    (Token.join (.text piece) tokens).foldl (take settings) reading =
      tokens.foldl (take settings) ⟨reading.gathered.append piece, reading.openTags⟩ := by
  by_cases empty : piece = []
  · subst empty
    rfl
  · rw [Token.join_text_of_ne empty (noText empty), List.foldl_cons, take, text, literal empty]

lemma foldr_join_tokens (tags : List Tag) (tokens : List Token) :
    (tags.map Tag.token).foldr Token.join tokens = tags.map Tag.token ++ tokens ∧
      (tags.map Tag.endToken).foldr Token.join tokens = tags.map Tag.endToken ++ tokens := by
  induction tags with
  | nil => exact ⟨rfl, rfl⟩
  | cons tag tags ih =>
    constructor
    · rw [List.map_cons, List.foldr_cons, ih.1]
      rfl
    · rw [List.map_cons, List.foldr_cons, ih.2]
      rfl

lemma head?_tokens {tags : List Tag} (filled : tags ≠ []) (tokens : List Token) (piece : Text) :
    (tags.map Tag.token ++ tokens).head? ≠ some (.text piece) ∧
      (tags.map Tag.endToken ++ tokens).head? ≠ some (.text piece) := by
  cases tags with
  | nil => exact absurd rfl filled
  | cons tag tags => simp [Tag.token, Tag.endToken]

/-- A span on characters whose entity is read as its own kind. -/
structure Kept (text : Text) (span : Span) : Prop where
  start : Utf16.Between text span.start
  stop : Utf16.Between text span.stop
  fits : span.entity.kind.Fits
  target : TargetKept span.entity.kind (Utf16.slice (Utf16.encode text) span.start span.stop)

/-- Formatting is kept where nothing but a custom emoji would be missing it. -/
lemma spanTags_eq {text : Text} (enabled : settings.customEmoji = true) {span : Span}
    {inner : Forest} (stretch : span.entity.offset = span.start)
    (length : span.entity.offset + span.entity.length = span.stop)
    (encloses : ∀ enclosed ∈ inner.spans, MayEnclose span.entity enclosed.entity)
    (hinner : Forest.Matches MayEnclose span.start span.stop inner) (kept : Kept text span)
    (hspans : ∀ enclosed ∈ inner.spans, Kept text enclosed) :
    spanTags settings (Utf16.encode text) span inner =
      tagsOf settings span.entity.kind (Utf16.slice (Utf16.encode text) span.start span.stop) := by
  refine spanTags_eq_tagsOf enabled hinner.within kept.start kept.stop
    (fun enclosed member => ⟨(hspans enclosed member).start, (hspans enclosed member).stop⟩) ?_
  rintro enclosed member formatting ⟨documentId, kind⟩ ⟨hstart, hstop⟩
  obtain ⟨enclosedOffset, enclosedLength⟩ := hinner.place member
  refine (encloses enclosed member).2.2 ⟨formatting, ?_, by omega, by omega⟩
  rw [kind]
  rfl

/-- Directly within an entity text is literal, but for the address of an e-mail, within which there
is nothing else. -/
lemma literal_within {opened openTags : List OpenTag} {span : Span} {inner : Forest} {raw : Text}
    (encloses : ∀ enclosed ∈ inner.spans, MayEnclose span.entity enclosed.entity)
    (substitute : opened.head?.map OpenTag.substitute? =
      some (if span.entity.kind = .email then some raw else none)) :
    (opened ++ openTags).head?.bind OpenTag.substitute? = none ∨
      inner = .nil ∧ (opened ++ openTags).head?.bind OpenTag.substitute? = some raw := by
  have inside : (opened ++ openTags).head?.bind OpenTag.substitute? =
      if span.entity.kind = .email then some raw else none := by
    cases opened with
    | nil => simp at substitute
    | cons tag opened => simpa using substitute
  by_cases mail : span.entity.kind = .email
  · refine .inr ⟨?_, by rw [inside, if_pos mail]⟩
    cases inner with
    | nil => rfl
    | cons enclosed _ _ => exact absurd mail (encloses enclosed List.mem_cons_self).2.1
  · exact .inl (by rw [inside, if_neg mail])

/-- The names for an entity are free within one that may enclose it, if they were in front. -/
lemma free_within {gathered : Gathering Text} {outer inner : Entity} {key : Text}
    (may : MayEnclose outer inner) (hkey : key ∈ tagNames outer.kind.tagClass) (kind : Kind)
    (free : ∀ name ∈ tagNames inner.kind.tagClass, gathered.draft? name = none) :
    ∀ name ∈ tagNames inner.kind.tagClass, (gathered.start key kind).draft? name = none := by
  intro name hname
  have differ : name ≠ key := by
    rintro rfl
    exact tagNames_disjoint may.1 name hkey hname
  rw [Gathering.draft?_start, if_neg differ]
  exact free name hname

/-- Wherever the names for its spans are free, a forest is read with the text of its stretch and
its entities in the order in which they end. -/
def TokensGrow (settings : Settings) (text : Text) (position limit : Nat) (forest : Forest) :
    Prop :=
  ∀ reading : Reading, reading.gathered.Sound →
    reading.gathered.text = Utf16.upTo position text →
    (∀ span ∈ forest.spans, ∀ name ∈ tagNames span.entity.kind.tagClass,
      reading.gathered.draft? name = none) →
    (reading.openTags.head?.bind OpenTag.substitute? = none ∨ forest = .nil ∧
      reading.openTags.head?.bind OpenTag.substitute? =
        some (Utf16.slice (Utf16.encode text) position limit)) →
    ∃ after, Gathering.Grows reading.gathered after
        (Utf16.slice (Utf16.encode text) position limit) forest.closings ∧
      ∀ tokens : List Token, (∀ piece, tokens.head? ≠ some (.text piece)) →
        ((tokensOf settings (Utf16.encode text) position limit forest).foldr Token.join
            tokens).foldl (take settings) reading =
          tokens.foldl (take settings) ⟨after, reading.openTags⟩

/-- **The tags of a span add its entity** behind those of the spans inside it. -/
lemma take_span {text raw : Text} (enabled : settings.customEmoji = true) {span : Span}
    {inner : Forest} (offset : span.entity.offset = span.start)
    (length : span.entity.offset + span.entity.length = span.stop) (order : span.start ≤ span.stop)
    (encloses : ∀ enclosed ∈ inner.spans, MayEnclose span.entity enclosed.entity)
    (kept : Kept text span) (covered : raw = Utf16.slice (Utf16.encode text) span.start span.stop)
    (inside : TokensGrow settings text span.start span.stop inner) (sound : reading.gathered.Sound)
    (read : reading.gathered.text = Utf16.upTo span.start text)
    (free : ∀ name ∈ tagNames span.entity.kind.tagClass, reading.gathered.draft? name = none)
    (freeInner : ∀ enclosed ∈ inner.spans, ∀ name ∈ tagNames enclosed.entity.kind.tagClass,
      reading.gathered.draft? name = none) :
    ∃ after, Gathering.Grows reading.gathered after raw (inner.closings ++ [span.entity]) ∧
      ∀ tokens : List Token,
        ((tagsOf settings span.entity.kind raw).map Tag.token ++
          (tokensOf settings (Utf16.encode text) span.start span.stop inner).foldr Token.join
            ((tagsOf settings span.entity.kind raw).reverse.map Tag.endToken ++ tokens)).foldl
              (take settings) reading =
          tokens.foldl (take settings) ⟨after, reading.openTags⟩ := by
  subst covered
  obtain ⟨key, hkey, kind, opened, opens, substitute, closes⟩ :=
    @wraps_tagsOf settings reading enabled _ _ kept.fits kept.target sound free
  obtain ⟨within, grows, foldInner⟩ := inside
    ⟨reading.gathered.start key kind, opened ++ reading.openTags⟩ (sound.start key kind)
    (by rw [Gathering.text_start, read])
    (fun enclosed member =>
      free_within (encloses enclosed member) hkey kind (freeInner enclosed member))
    (literal_within encloses substitute)
  obtain ⟨after, ends, growsSpan⟩ := closes within _ grows
  have place := Forest.entity_of_span offset length kept.start kept.stop order span.entity.kind
  rw [← read] at place
  rw [place] at growsSpan
  refine ⟨after, growsSpan, fun tokens => ?_⟩
  have behind (piece : Text) := (head?_tokens (List.reverse_ne_nil_iff.2
    (tagsOf_ne_nil enabled span.entity.kind
      (Utf16.slice (Utf16.encode text) span.start span.stop))) tokens piece).2
  rw [List.foldl_append, opens, foldInner _ behind, List.foldl_append, ends]

/-- **Reading a forest** adds the text of its stretch and its entities in the order in which they
end. -/
lemma tokensGrow_of_matches {text : Text} (enabled : settings.customEmoji = true)
    (short : Gathering.Short text) {forest : Forest} {position limit : Nat}
    (hforest : forest.Matches MayEnclose position limit)
    (hspans : ∀ span ∈ forest.spans, Kept text span) :
    TokensGrow settings text position limit forest := by
  induction forest generalizing position limit with
  | nil =>
    intro reading sound read _ literal
    have room := short.upTo_append_slice hforest
    rw [← read] at room
    refine ⟨_, .append sound room, fun tokens noText =>
      foldl_join_text (fun _ => noText) fun _ => ?_⟩
    rcases literal with plain | ⟨-, address⟩
    · rw [replaced, plain, Option.getD_none]
    · rw [replaced, address, Option.getD_some]
  | cons span inner after ihInner ihAfter =>
    intro reading sound read free literal
    obtain ⟨first, filled, offset, length, encloses, hinner, hafter⟩ := hforest
    have plain := literal.resolve_right (by simp)
    have kept := hspans span List.mem_cons_self
    have keptInner (enclosed : Span) (member : enclosed ∈ inner.spans) : Kept text enclosed :=
      hspans enclosed (by simp [member])
    have keptAfter (behind : Span) (member : behind ∈ after.spans) : Kept text behind :=
      hspans behind (by simp [member])
    -- the gap before the span
    have room := short.upTo_append_slice first
    rw [← read] at room
    have gap := Gathering.Grows.append sound room
    have readGap := gap.text
    rw [read, Utf16.upTo_append_slice first] at readGap
    -- the span, and what is inside
    obtain ⟨met, growsSpan, foldSpan⟩ := @take_span settings
      ⟨reading.gathered.append (Utf16.slice (Utf16.encode text) position span.start),
        reading.openTags⟩ text _ enabled span inner offset length filled.le encloses kept rfl
      (ihInner hinner keptInner) gap.sound readGap
      (fun name member => gap.draft?_eq_none (free span List.mem_cons_self name member))
      (fun enclosed member name hname =>
        gap.draft?_eq_none (free enclosed (by simp [member]) name hname))
    -- what is behind the span
    have readSpan : met.text = Utf16.upTo span.stop text := by
      rw [growsSpan.text, readGap, Utf16.upTo_append_slice filled.le]
    obtain ⟨last, growsAfter, foldAfter⟩ := ihAfter hafter keptAfter ⟨met, reading.openTags⟩
      growsSpan.sound readSpan
      (fun behind member name hname => growsSpan.draft?_eq_none
        (gap.draft?_eq_none (free behind (by simp [member]) name hname)))
      (.inl plain)
    have grows := gap.stretch first (filled.le.trans hafter.within.le)
      (Gathering.Grows.stretch filled.le hafter.within.le growsSpan growsAfter)
    rw [List.nil_append, List.append_assoc] at grows
    refine ⟨last, grows, fun tokens noText => ?_⟩
    have tags := spanTags_eq enabled offset length encloses hinner kept keptInner
    have nonempty := tagsOf_ne_nil enabled span.entity.kind
      (Utf16.slice (Utf16.encode text) span.start span.stop)
    have literalGap : reading.replaced (Utf16.slice (Utf16.encode text) position span.start) =
        Utf16.slice (Utf16.encode text) position span.start := by
      rw [replaced, plain, Option.getD_none]
    simp only [tokensOf, tags, List.cons_append, List.append_assoc, List.foldr_cons,
      List.foldr_append]
    rw [(foldr_join_tokens _ _).1, (foldr_join_tokens _ _).2,
      foldl_join_text (fun _ piece => (head?_tokens nonempty _ piece).1) fun _ => literalGap,
      foldSpan, foldAfter tokens noText]

lemma ofSource_eq {source : Text} {tokens : List Token} (h : Tokenizes source tokens) :
    ofSource settings source = tokens.foldl (take settings) start := by
  have same := congrArg (List.filterMap id) h
  rw [List.filterMap_map, List.filterMap_map, Function.id_comp, Function.id_comp,
    List.filterMap_some] at same
  rw [ofSource, same]

end Reading

/-! ## The message -/

/-- Entities over a text that written HTML keeps apart. -/
structure Distinct (text : Text) (entities : List Entity) : Prop where
  nested : WellNested (Utf16.unitCount text) entities
  between : ∀ entity ∈ entities, Utf16.Between text entity.offset.toNat ∧
    Utf16.Between text (entity.offset + entity.length).toNat
  mayEnclose : entities.Pairwise fun outer inner =>
    outer.Encloses inner → MayEnclose outer inner
  fits : ∀ entity ∈ entities, entity.kind.Fits
  target : ∀ entity ∈ entities, TargetKept entity.kind (entity.covered (Utf16.encode text))

lemma Distinct.kept {text : Text} {entities : List Entity} (h : Distinct text entities) :
    ∀ span ∈ (Forest.ofEntities (Utf16.unitCount text) entities).spans,
      Reading.Kept text span := by
  intro span member
  have entity := Forest.entity_mem_of_mem_spans member
  obtain ⟨offset, stop⟩ := (Forest.matches_ofEntities h.nested h.mayEnclose).place member
  obtain ⟨low, positive, -⟩ := h.nested.liesIn _ entity
  have start : span.entity.offset.toNat = span.start := by omega
  have ends : span.start + span.entity.length.toNat = span.stop := by omega
  have hbetween := h.between _ entity
  have htarget := h.target _ entity
  rw [stop, start, Int.toNat_natCast] at hbetween
  simp only [Entity.covered, start, ends] at htarget
  exact ⟨hbetween.1, hbetween.2, h.fits _ entity, htarget⟩

/-- **Written HTML is read back.**  A trimmed text with entities kept apart comes back, each entity
once and in the order in which they end. -/
theorem read_write_of_distinct {text : Text} {entities : List Entity} (trimmed : text.trim = text)
    (short : Gathering.Short text) (h : Distinct text entities) :
    read {} (style.write {} text entities) = ⟨text, closingOrder entities⟩ ∧
      (closingOrder entities).Perm entities := by
  refine ⟨?_, perm_closingOrder entities⟩
  have size := Utf16.length_encode text
  have hmatches := Forest.matches_ofEntities h.nested h.mayEnclose
  have hclosings := Forest.closings_eq hmatches
  rw [Forest.spans_ofEntities h.nested] at hclosings
  have source := tokenizes_message {} text entities
  rw [size] at source
  obtain ⟨after, grows, fold⟩ := Reading.tokensGrow_of_matches rfl short hmatches h.kept .start
    Gathering.sound_empty (by simp [Reading.start]) (fun _ _ _ _ => rfl) (.inl rfl)
  have gathered : (Reading.ofSource {} (style.write {} text entities)).gathered = after := by
    rw [Reading.ofSource_eq source, Token.merge, fold [] (by simp)]
    rfl
  have sliced : Utf16.slice (Utf16.encode text) 0 (Utf16.unitCount text) = text := by
    rw [← size, Utf16.slice_all]
  have htext : after.text = text := by
    rw [grows.text, sliced]
    rfl
  have hentities : after.entities = closingOrder entities := by
    rw [grows.entities, hclosings]
    rfl
  rw [read, gathered, htext, hentities]
  refine Message.trim_eq_self trimmed short fun entity member => ?_
  exact h.nested.liesIn entity ((perm_closingOrder entities).mem_iff.1 member)

/-- A link around hostile text, in bold type. -/
theorem read_write_link_in_bold :
    Distinct "<🏆>\"".toList [⟨0, 5, .bold⟩, ⟨1, 2, .textUrl "\"&amp;".toList⟩] ∧
      read {} (style.write {} "<🏆>\"".toList
          [⟨0, 5, .bold⟩, ⟨1, 2, .textUrl "\"&amp;".toList⟩]) =
        ⟨"<🏆>\"".toList, [⟨1, 2, .textUrl "\"&amp;".toList⟩, ⟨0, 5, .bold⟩]⟩ := by
  have distinct :
      Distinct "<🏆>\"".toList [⟨0, 5, .bold⟩, ⟨1, 2, .textUrl "\"&amp;".toList⟩] :=
    ⟨by decide, by decide, by decide, by simp [Kind.Fits], by decide⟩
  exact ⟨distinct, (read_write_of_distinct (by decide) (by decide) distinct).1⟩

/-- An address that is a link to mail is read as mail, even where nothing else stands in the
way. -/
theorem url_to_mail_not_read_back :
    (Text.trim "mailto:a".toList = "mailto:a".toList ∧ Gathering.Short "mailto:a".toList ∧
      WellNested (Utf16.unitCount "mailto:a".toList) [⟨0, 8, .url⟩] ∧
      (∀ entity ∈ ([⟨0, 8, .url⟩] : List Entity),
        Utf16.Between "mailto:a".toList entity.offset.toNat ∧
        Utf16.Between "mailto:a".toList (entity.offset + entity.length).toNat) ∧
      (([⟨0, 8, .url⟩] : List Entity).Pairwise fun outer inner =>
        outer.Encloses inner → MayEnclose outer inner) ∧
      ∀ entity ∈ ([⟨0, 8, .url⟩] : List Entity),
        entity.kind.Fits ∧ ∀ url, entity.kind ≠ .textUrl url) ∧
    read {} (style.write {} "mailto:a".toList [⟨0, 8, .url⟩]) ≠
      ⟨"mailto:a".toList, closingOrder [⟨0, 8, .url⟩]⟩ := by
  have mail : read {} (style.write {} "mailto:a".toList [⟨0, 8, .url⟩]) =
      ⟨['a'], [⟨0, 1, .email⟩]⟩ := by decide +kernel
  refine ⟨⟨by decide, by decide, by decide, by decide, by decide, ?_⟩, ?_⟩
  · simp [Kind.Fits]
  · rw [mail]
    decide

end Html

end RichText
