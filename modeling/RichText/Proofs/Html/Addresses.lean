import Mathlib.Tactic.Lemma
import RichText.Proofs.Html.RoundTrip

/-!
# Text within links to mail

The reader of HTML replaces each run of text that stands directly within a link to an e-mail address
by the address, and leaves all other text alone.  So the text of a message comes back from what is
written for it, whatever its entities, if its links to mail are `Addressed`: the text that stands
directly within one, and not within an entity nested in it, is the address
(`text_read_of_addressed`).

The tokens of a forest are followed as in the reading of entities, but for two things: only the
gathered text and the open tags matter, and formatting may have been left out around a custom
emoji, beside which there is no text.
-/

namespace RichText

/-- The stretches of text in front of, between and behind the outermost spans of a forest. -/
def Forest.gaps (units : List CodeUnit) (position limit : Nat) : Forest → List Text
  | nil => [Utf16.slice units position limit]
  | cons span _ after =>
    Utf16.slice units position span.start :: gaps units span.stop limit after

namespace Html

/-- The address that a link over a text is read with, if it is a link to mail. -/
def mailAddress? (raw : Text) : Kind → Option Text
  | .textUrl url => Text.after? mailTarget url
  | .url => Text.after? mailTarget raw
  | .email => some raw
  | _ => none

/-- Directly within links to mail stands nothing but their address. -/
def Addressed (units : List CodeUnit) : Forest → Prop
  | .nil => True
  | .cons span inner after =>
    (∀ address ∈ mailAddress? (Utf16.slice units span.start span.stop) span.entity.kind,
        ∀ gap ∈ inner.gaps units span.start span.stop, gap = [] ∨ gap = address) ∧
      Addressed units inner ∧ Addressed units after

instance decidableAddressed (units : List CodeUnit) :
    (forest : Forest) → Decidable (Addressed units forest)
  | .nil => inferInstanceAs (Decidable True)
  | .cons _ inner after =>
    have := decidableAddressed units inner
    have := decidableAddressed units after
    inferInstanceAs (Decidable (_ ∧ _ ∧ _))

/-- The address of mail that a start tag leads to, if it is the tag of such a link. -/
def Tag.address? (tag : Tag) : Option Text :=
  if tag.name = anchorTag then
    (Attribute.valueOf? "href".toList tag.attributes).bind (Text.after? mailTarget)
  else none

variable {settings : Settings} {text : Text} {position limit : Nat} {forest : Forest}

/-! ## Beside custom emoji -/

/-- There is no text beside a custom emoji. -/
lemma gaps_of_isEmojiElement (enabled : settings.customEmoji = true)
    (h : isEmojiElement
      (forest.write (style.writer settings) (Utf16.encode text) position limit) = true) :
    ∀ gap ∈ forest.gaps (Utf16.encode text) position limit, gap = [] := by
  obtain ⟨span, inner, rfl, before, behind, -⟩ := span_of_isEmojiElement enabled h
  intro gap member
  simp only [Forest.gaps, List.mem_cons, List.not_mem_nil, or_false] at member
  rcases member with rfl | rfl
  · exact before
  · exact behind

/-- Where custom emoji are written, only formatting around one is written without tags. -/
lemma isEmojiElement_of_spanTags (enabled : settings.customEmoji = true) {span : Span}
    {inner : Forest} (h : spanTags settings (Utf16.encode text) span inner = []) :
    isEmojiElement (inner.write (style.writer settings) (Utf16.encode text) span.start
      span.stop) = true := by
  rw [spanTags] at h
  split at h
  · rename_i dropped
    exact (Bool.and_eq_true _ _ ▸ dropped).2
  · exact absurd h (tagsOf_ne_nil enabled _ _)

/-- A custom emoji starts with a tag. -/
lemma head?_of_isEmojiElement (enabled : settings.customEmoji = true) (tokens : List Token)
    (piece : Text) (h : isEmojiElement
      (forest.write (style.writer settings) (Utf16.encode text) position limit) = true) :
    ((tokensOf settings (Utf16.encode text) position limit forest).foldr Token.join
      tokens).head? ≠ some (.text piece) := by
  induction forest generalizing position limit tokens with
  | nil =>
    obtain ⟨_, _, absurdity, -⟩ := span_of_isEmojiElement enabled h
    cases absurdity
  | cons span inner after ihInner _ =>
    obtain ⟨_, _, whole, before, -, -⟩ := span_of_isEmojiElement enabled h
    obtain ⟨rfl, rfl, rfl⟩ := Forest.cons.inj whole
    simp only [tokensOf, before, List.cons_append, List.append_assoc, List.foldr_cons,
      List.foldr_append]
    rw [(Reading.foldr_join_tokens _ _).1]
    by_cases bare : spanTags settings (Utf16.encode text) span inner = []
    · rw [bare]
      exact ihInner _ (isEmojiElement_of_spanTags enabled bare)
    · exact (Reading.head?_tokens bare _ piece).1

namespace Reading

variable {reading : Reading}

/-! ## The tags of a span -/

/-- What a start tag leaves open. -/
def opened (settings : Settings) (tag : Tag) : OpenTag :=
  ⟨tag.name, (meaning? settings tag.name tag.attributes).bind Prod.snd⟩

/-- A start tag is left open, and adds no text. -/
lemma take_token (settings : Settings) (tag : Tag) (reading : Reading) :
    ∃ after : Gathering Text, after.text = reading.gathered.text ∧
      take settings reading tag.token = ⟨after, opened settings tag :: reading.openTags⟩ := by
  have step : take settings reading tag.token =
      reading.startTag settings tag.name tag.attributes := rfl
  rw [step, startTag, opened]
  split
  · rename_i code
    have noLink : meaning? settings codeTag tag.attributes = some (.code, none) := rfl
    rw [code.1, noLink]
    split
    · exact ⟨_, Gathering.text_revise _ _ _, rfl⟩
    · exact ⟨_, rfl, rfl⟩
  · split
    · rename_i kind substitute? means
      rw [means]
      exact ⟨_, Gathering.text_start _ _ _, rfl⟩
    · rename_i means
      rw [means]
      exact ⟨_, rfl, rfl⟩

/-- Start tags are left open, the last one innermost. -/
lemma take_tokens (settings : Settings) (tags : List Tag) (reading : Reading) :
    ∃ after : Gathering Text, after.text = reading.gathered.text ∧
      (tags.map Tag.token).foldl (take settings) reading =
        ⟨after, (tags.map (opened settings)).reverse ++ reading.openTags⟩ := by
  induction tags generalizing reading with
  | nil => exact ⟨_, rfl, rfl⟩
  | cons tag tags ih =>
    obtain ⟨met, same, first⟩ := take_token settings tag reading
    obtain ⟨after, further, rest⟩ := ih ⟨met, opened settings tag :: reading.openTags⟩
    refine ⟨after, further.trans same, ?_⟩
    rw [List.map_cons, List.foldl_cons, first, rest]
    simp

lemma text_resolveLink (gathered : Gathering Text) :
    (resolveLink gathered).text = gathered.text := by
  rcases resolveLink_cases gathered with revised | same
  · rw [revised, Gathering.text_revise]
  · rw [same]

/-- End tags close as many tags, and add no text. -/
lemma take_endTokens (settings : Settings) {inside : List OpenTag} {tags : List Tag}
    (size : inside.length = tags.length) (gathered : Gathering Text) (openTags : List OpenTag) :
    ∃ after : Gathering Text, after.text = gathered.text ∧
      (tags.map Tag.endToken).foldl (take settings) ⟨gathered, inside ++ openTags⟩ =
        ⟨after, openTags⟩ := by
  induction tags generalizing inside gathered with
  | nil =>
    obtain rfl := List.length_eq_zero_iff.1 size
    exact ⟨gathered, rfl, rfl⟩
  | cons tag tags ih =>
    cases inside with
    | nil => simp at size
    | cons innermost inside =>
      have step : take settings ⟨gathered, innermost :: inside ++ openTags⟩ tag.endToken =
          ⟨(if tag.name = anchorTag then resolveLink gathered else gathered).finish tag.name,
            inside ++ openTags⟩ := rfl
      obtain ⟨after, same, rest⟩ := ih (by simpa using size)
        ((if tag.name = anchorTag then resolveLink gathered else gathered).finish tag.name)
      refine ⟨after, ?_, ?_⟩
      · rw [same, Gathering.text_finish]
        split
        · exact text_resolveLink gathered
        · rfl
      · rw [List.map_cons, List.foldl_cons, step, rest]

lemma snd_linkMeaning (target : Text) : (linkMeaning target).2 = Text.after? mailTarget target := by
  unfold linkMeaning
  split
  · rename_i address mail
    exact mail.symm
  · rename_i none
    split <;> exact none.symm

/-- Text directly within a tag is replaced by the address of mail that the tag leads to. -/
lemma substitute?_opened (settings : Settings) (tag : Tag) :
    (opened settings tag).substitute? = tag.address? := by
  by_cases anchor : tag.name = anchorTag
  · rw [opened, meaning?, Tag.address?, if_pos anchor, if_pos anchor, Option.bind_map,
      Function.comp_def]
    simp only [snd_linkMeaning]
  · rw [opened, Tag.address?, if_neg anchor, Option.bind_eq_none_iff]
    rintro ⟨kind, substitute?⟩ means
    rw [meaning?, if_neg anchor] at means
    split at means
    · split at means
      · simp only [Option.bind_eq_bind, Option.bind_eq_some_iff, Option.some.injEq,
          Prod.mk.injEq] at means
        obtain ⟨_, -, _, -, -, none⟩ := means
        exact none.symm
      · cases means
    · obtain ⟨_, -, same⟩ := Option.map_eq_some_iff.1 means
      cases same
      rfl

lemma substitute?_linkTag (settings : Settings) (target : Text) :
    (opened settings (linkTag target)).substitute? = Text.after? mailTarget target := by
  rw [substitute?_opened]
  rfl

/-- Text directly within the tags of an entity is replaced in links to mail alone. -/
lemma substitute?_tagsOf (enabled : settings.customEmoji = true) (kind : Kind) (raw : Text)
    (openTags : List OpenTag) :
    (((tagsOf settings kind raw).map (opened settings)).reverse ++
      openTags).head?.bind OpenTag.substitute? = mailAddress? raw kind := by
  cases kind with
  | bold | italic | underline | strike | spoiler | code | blockquote => rfl
  | pre language =>
    simp only [tagsOf]
    split <;> rfl
  | textUrl url => exact substitute?_linkTag settings url
  | url => exact substitute?_linkTag settings raw
  | email =>
    refine (substitute?_linkTag settings _).trans ?_
    rw [Text.after?_append]
    rfl
  | mentionName userId => exact substitute?_linkTag settings _
  | customEmoji documentId =>
    have own : tagsOf settings (.customEmoji documentId) raw =
        [⟨"emoji".toList, [⟨documentKey, some (Numeral.ofInt documentId)⟩]⟩] := if_pos enabled
    rw [own]
    exact substitute?_opened settings _

/-! ## The text of a forest -/

/-- Wherever its gaps stay as they are, a forest is read with its text, and leaves open the tags
that were. -/
def KeepsText (settings : Settings) (text : Text) (position limit : Nat) (forest : Forest) :
    Prop :=
  ∀ (reading : Reading) (tokens : List Token),
    (∀ gap ∈ forest.gaps (Utf16.encode text) position limit,
      gap = [] ∨ reading.replaced gap = gap) →
    ((∀ piece, tokens.head? ≠ some (.text piece)) ∨
      ∀ gap ∈ forest.gaps (Utf16.encode text) position limit, gap = []) →
    ∃ after : Gathering Text, after.text = reading.gathered.text ++
        forest.plainText (Utf16.encode text) position limit ∧
      ((tokensOf settings (Utf16.encode text) position limit forest).foldr Token.join
          tokens).foldl (take settings) reading =
        tokens.foldl (take settings) ⟨after, reading.openTags⟩

/-- **A span is read with the text inside it**, whether it is written with its tags or without. -/
lemma keepsText_span (enabled : settings.customEmoji = true) {span : Span} {inner : Forest}
    (addressed : ∀ address ∈ mailAddress? (Utf16.slice (Utf16.encode text) span.start span.stop)
        span.entity.kind,
      ∀ gap ∈ inner.gaps (Utf16.encode text) span.start span.stop, gap = [] ∨ gap = address)
    (inside : KeepsText settings text span.start span.stop inner) (reading : Reading)
    (tokens : List Token) :
    ∃ after : Gathering Text, after.text = reading.gathered.text ++
        inner.plainText (Utf16.encode text) span.start span.stop ∧
      ((spanTags settings (Utf16.encode text) span inner).map Tag.token ++
        (tokensOf settings (Utf16.encode text) span.start span.stop inner).foldr Token.join
          ((spanTags settings (Utf16.encode text) span inner).reverse.map Tag.endToken ++
            tokens)).foldl (take settings) reading =
        tokens.foldl (take settings) ⟨after, reading.openTags⟩ := by
  by_cases bare : spanTags settings (Utf16.encode text) span inner = []
  · have none := gaps_of_isEmojiElement enabled (isEmojiElement_of_spanTags enabled bare)
    obtain ⟨after, grown, fold⟩ := inside reading tokens
      (fun gap member => .inl (none gap member)) (.inr none)
    rw [bare]
    exact ⟨after, grown, fold⟩
  · have own : spanTags settings (Utf16.encode text) span inner =
        tagsOf settings span.entity.kind
          (Utf16.slice (Utf16.encode text) span.start span.stop) := by
      rw [spanTags] at bare ⊢
      split at bare
      · exact absurd rfl bare
      · rename_i kept
        exact if_neg kept
    obtain ⟨tags, htags⟩ : ∃ tags, tags = spanTags settings (Utf16.encode text) span inner :=
      ⟨_, rfl⟩
    rw [← htags] at bare own ⊢
    obtain ⟨opening, same, starts⟩ := take_tokens settings tags reading
    have literal : ∀ gap ∈ inner.gaps (Utf16.encode text) span.start span.stop, gap = [] ∨
        Reading.replaced gap ⟨opening, (tags.map (opened settings)).reverse ++ reading.openTags⟩ =
          gap := by
      intro gap member
      rw [Reading.replaced, own, substitute?_tagsOf enabled]
      cases mail : mailAddress? (Utf16.slice (Utf16.encode text) span.start span.stop)
          span.entity.kind with
      | none => exact .inr rfl
      | some address => exact (addressed address mail gap member).imp id Eq.symm
    obtain ⟨met, grown, middle⟩ := inside _ (tags.reverse.map Tag.endToken ++ tokens) literal
      (.inl fun piece => (head?_tokens (List.reverse_ne_nil_iff.2 bare) tokens piece).2)
    obtain ⟨after, kept, ends⟩ := @take_endTokens settings (tags.map (opened settings)).reverse
      tags.reverse (by simp) met reading.openTags
    refine ⟨after, by rw [kept, grown, same], ?_⟩
    rw [List.foldl_append, starts, middle, List.foldl_append, ends]

/-- **An addressed forest is read with its text.** -/
lemma keepsText_of_addressed (enabled : settings.customEmoji = true)
    (addressed : Addressed (Utf16.encode text) forest) :
    KeepsText settings text position limit forest := by
  induction forest generalizing position limit with
  | nil =>
    intro reading tokens literal apart
    refine ⟨reading.gathered.append (Utf16.slice (Utf16.encode text) position limit),
      Gathering.text_append _ _, foldl_join_text (fun filled => ?_) fun filled => ?_⟩
    · exact apart.resolve_right fun none => filled (none _ List.mem_cons_self)
    · exact (literal _ List.mem_cons_self).resolve_left filled
  | cons span inner after ihInner ihAfter =>
    intro reading tokens literal apart
    obtain ⟨direct, addressedInner, addressedAfter⟩ := addressed
    have literalAfter (gap : Text)
        (member : gap ∈ after.gaps (Utf16.encode text) span.stop limit) :=
      literal gap (List.mem_cons_of_mem _ member)
    obtain ⟨rest, hrest⟩ : ∃ rest, rest = (tokensOf settings (Utf16.encode text) span.stop limit
      after).foldr Token.join tokens := ⟨_, rfl⟩
    -- the span, behind the gap before it
    obtain ⟨met, grownSpan, middle⟩ := keepsText_span enabled direct (ihInner addressedInner)
      ⟨reading.gathered.append (Utf16.slice (Utf16.encode text) position span.start),
        reading.openTags⟩ rest
    -- what is behind the span
    obtain ⟨last, grown, fold⟩ := ihAfter addressedAfter ⟨met, reading.openTags⟩ tokens literalAfter
      (apart.imp id fun none gap member => none gap (List.mem_cons_of_mem _ member))
    refine ⟨last, ?_, ?_⟩
    · rw [grown, grownSpan, Gathering.text_append, Forest.plainText]
      simp only [List.append_assoc]
    · simp only [tokensOf, List.cons_append, List.append_assoc, List.foldr_cons,
        List.foldr_append]
      rw [(foldr_join_tokens _ _).1, (foldr_join_tokens _ _).2, ← hrest,
        foldl_join_text (fun _ piece => ?_) fun filled =>
          (literal _ List.mem_cons_self).resolve_left filled, middle, hrest, fold]
      by_cases bare : spanTags settings (Utf16.encode text) span inner = []
      · rw [bare]
        exact head?_of_isEmojiElement enabled _ piece (isEmojiElement_of_spanTags enabled bare)
      · exact (head?_tokens bare _ piece).1

end Reading

/-! ## The message -/

/-- **The text comes back** from what is written for it, whatever its entities, if directly within
links to mail stands nothing but their address. -/
theorem text_read_of_addressed {text : Text} {entities : List Entity}
    (addressed : Addressed (Utf16.encode text)
      (Forest.ofEntities (Utf16.unitCount text) entities)) :
    (read {} (style.write {} text entities)).text = text.trim := by
  have size := Utf16.length_encode text
  have source := tokenizes_message {} text entities
  rw [size] at source
  obtain ⟨after, grown, fold⟩ :=
    @Reading.keepsText_of_addressed {} text 0 (Utf16.unitCount text) _ rfl addressed .start []
      (fun gap _ => .inr rfl) (.inl (by simp))
  have gathered : (Reading.ofSource {} (style.write {} text entities)).gathered = after := by
    rw [Reading.ofSource_eq source, Token.merge, fold]
    rfl
  have within : (Forest.ofEntities (Utf16.unitCount text) entities).Within 0
      (Utf16.unitCount text) := Forest.within_nest (Nat.zero_le _) _
  have whole : Utf16.slice (Utf16.encode text) 0 (Utf16.unitCount text) = text := by
    rw [← size, Utf16.slice_all]
  rw [read, Message.text_trim, gathered, grown, Forest.plainText_eq_slice within, whole]
  rfl

/-- An address in bold type, the two listed as they end, with a link to mail over its own address
behind it. -/
theorem text_read_of_addressed_in_bold :
    Addressed (Utf16.encode "to a@b c".toList)
      (Forest.ofEntities (Utf16.unitCount "to a@b c".toList)
        [⟨3, 3, .email⟩, ⟨0, 6, .bold⟩, ⟨7, 1, .textUrl "mailto:c".toList⟩]) ∧
    (read {} (style.write {} "to a@b c".toList
      [⟨3, 3, .email⟩, ⟨0, 6, .bold⟩, ⟨7, 1, .textUrl "mailto:c".toList⟩])).text =
        Text.trim "to a@b c".toList := by
  have sorted : Forest.byOffset
      [⟨3, 3, .email⟩, ⟨0, 6, .bold⟩, ⟨7, 1, .textUrl "mailto:c".toList⟩] =
        [(⟨0, 6, .bold⟩, 1), (⟨3, 3, .email⟩, 0), (⟨7, 1, .textUrl "mailto:c".toList⟩, 2)] := by
    simp [Forest.byOffset, List.mergeSort]
  have nesting : Forest.ofEntities (Utf16.unitCount "to a@b c".toList)
      [⟨3, 3, .email⟩, ⟨0, 6, .bold⟩, ⟨7, 1, .textUrl "mailto:c".toList⟩] =
      .cons ⟨1, ⟨0, 6, .bold⟩, 0, 6⟩ (.cons ⟨0, ⟨3, 3, .email⟩, 3, 6⟩ .nil .nil)
        (.cons ⟨2, ⟨7, 1, .textUrl "mailto:c".toList⟩, 7, 8⟩ .nil .nil) := by
    rw [Forest.ofEntities, sorted]
    decide +kernel
  have addressed : Addressed (Utf16.encode "to a@b c".toList)
      (Forest.ofEntities (Utf16.unitCount "to a@b c".toList)
        [⟨3, 3, .email⟩, ⟨0, 6, .bold⟩, ⟨7, 1, .textUrl "mailto:c".toList⟩]) := by
    rw [nesting]
    decide
  exact ⟨addressed, text_read_of_addressed addressed⟩

/-- The text of a link to mail that is not its address is not read back. -/
theorem text_of_mail_link_not_read_back :
    (WellNested (Utf16.unitCount "write me".toList) [⟨0, 8, .textUrl "mailto:a@b".toList⟩] ∧
      ∀ entity ∈ ([⟨0, 8, .textUrl "mailto:a@b".toList⟩] : List Entity),
        Utf16.Between "write me".toList entity.offset.toNat ∧
        Utf16.Between "write me".toList (entity.offset + entity.length).toNat) ∧
    (read {} (style.write {} "write me".toList
      [⟨0, 8, .textUrl "mailto:a@b".toList⟩])).text ≠ Text.trim "write me".toList := by
  have address : read {} (style.write {} "write me".toList
      [⟨0, 8, .textUrl "mailto:a@b".toList⟩]) = ⟨"a@b".toList, [⟨0, 3, .email⟩]⟩ := by
    decide +kernel
  refine ⟨⟨by decide, by decide⟩, ?_⟩
  rw [address]
  decide

end Html

end RichText
