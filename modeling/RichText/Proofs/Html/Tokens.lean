import RichText.Html.Style
import RichText.Proofs.Forests
import RichText.Proofs.Html.Constructs
import RichText.Proofs.Html.Tags

/-!
# The tokens of written HTML

What the writer of HTML makes of a text and its entities is read back as the tokens that were
meant, whatever the text and the entities hold: `tokensOf` lists them over a forest, runs of
character data next to each other count as one (`Token.join`), and `Tokenizes` says that a source
is read as a list of tokens with nothing skipped.

From this follows that writing lets nothing in but its own tags
(`write_admits_own_tags_only`): they are balanced, each is a tag of an entity with its value
intact, and the character data is the text.
-/

namespace RichText.Html

namespace Token

/-- Puts a token before others.  Character data joins a run that it stands before, and none at all
is no token. -/
def join : Token → List Token → List Token
  | .text piece, tokens =>
    if piece = [] then tokens
    else
      match tokens with
      | .text more :: rest => .text (piece ++ more) :: rest
      | _ => .text piece :: tokens
  | token, tokens => token :: tokens

/-- Joins the runs of character data that stand next to each other. -/
def merge (tokens : List Token) : List Token := tokens.foldr join []

/-- Reading the tokens with the elements of `names` open leaves none open: each end tag has the
name of the innermost open element, and no tag closes itself. -/
def Balanced (names : List Text) : List Token → Prop
  | [] => names = []
  | .startTag name _ selfClosing :: rest => selfClosing = false ∧ Balanced (name :: names) rest
  | .endTag name :: rest =>
    match names with
    | [] => False
    | innermost :: outer => innermost = name ∧ Balanced outer rest
  | .text _ :: rest => Balanced names rest

/-- The character data among tokens. -/
def data (tokens : List Token) : Text :=
  tokens.flatMap fun
    | .text piece => piece
    | _ => []

/-- The start tags among tokens. -/
def tags (tokens : List Token) : List Tag :=
  tokens.filterMap fun
    | .startTag name attributes _ => some ⟨name, attributes⟩
    | _ => none

/-! ## Joining changes nothing but the runs -/

@[simp] lemma join_startTag (name : Text) (attributes : List Attribute) (selfClosing : Bool)
    (tokens : List Token) : join (.startTag name attributes selfClosing) tokens =
      .startTag name attributes selfClosing :: tokens := rfl

@[simp] lemma join_endTag (name : Text) (tokens : List Token) :
    join (.endTag name) tokens = .endTag name :: tokens := rfl

lemma join_text_text {piece : Text} (filled : piece ≠ []) (more : Text) (tokens : List Token) :
    join (.text piece) (.text more :: tokens) = .text (piece ++ more) :: tokens := if_neg filled

lemma join_text_of_ne {piece : Text} (filled : piece ≠ []) {tokens : List Token}
    (h : ∀ more, tokens.head? ≠ some (.text more)) :
    join (.text piece) tokens = .text piece :: tokens := by
  simp only [join, filled, if_false]
  split
  · rename_i more rest
    exact absurd rfl (h more)
  · rfl

lemma balanced_join (names : List Text) (token : Token) (tokens : List Token) :
    Balanced names (join token tokens) ↔ Balanced names (token :: tokens) := by
  unfold join
  split
  · split
    · rfl
    · split <;> rfl
  · rfl

lemma balanced_merge (names : List Text) (tokens : List Token) :
    Balanced names (merge tokens) ↔ Balanced names tokens := by
  induction tokens generalizing names with
  | nil => rfl
  | cons token tokens ih =>
    rw [merge, List.foldr_cons, ← merge, balanced_join]
    cases token with
    | startTag name attributes selfClosing => simp only [Balanced, ih]
    | endTag name => cases names <;> simp only [Balanced, ih]
    | text piece => simp only [Balanced, ih]

lemma data_join (token : Token) (tokens : List Token) :
    data (join token tokens) = data (token :: tokens) := by
  unfold join
  split
  · split
    · rename_i empty
      simp [data, empty]
    · split <;> simp [data]
  · rfl

lemma data_merge (tokens : List Token) : data (merge tokens) = data tokens := by
  induction tokens with
  | nil => rfl
  | cons token tokens ih =>
    rw [merge, List.foldr_cons, ← merge, data_join]
    simp only [data, List.flatMap_cons] at ih ⊢
    rw [ih]

lemma tags_join (token : Token) (tokens : List Token) :
    tags (join token tokens) = tags (token :: tokens) := by
  unfold join
  split
  · split
    · rfl
    · split <;> rfl
  · rfl

lemma tags_merge (tokens : List Token) : tags (merge tokens) = tags tokens := by
  induction tokens with
  | nil => rfl
  | cons token tokens ih =>
    rw [merge, List.foldr_cons, ← merge, tags_join, ← List.singleton_append,
      ← List.singleton_append (l := tokens)]
    simp only [tags, List.filterMap_append] at ih ⊢
    rw [ih]

end Token

/-! ## Sources and their tokens -/

/-- The source is read as these tokens, and nothing of it is skipped. -/
def Tokenizes (source : Text) (tokens : List Token) : Prop :=
  (Lexeme.readAll source).map Lexeme.token? = tokens.map some

lemma Tokenizes.nil : Tokenizes [] [] := by
  rw [Tokenizes, Lexeme.readAll_nil]
  rfl

lemma Tokenizes.construct {piece rest : Text} {token : Token} {tokens : List Token}
    (h : Tokenizes rest tokens) {size : Nat} (length : piece.length = size + 1)
    (read : Lexeme.constructAt? (piece ++ rest) = some (some token, size)) :
    Tokenizes (piece ++ rest) (token :: tokens) := by
  cases piece with
  | nil => simp at length
  | cons c piece =>
    rw [List.length_cons, Nat.add_right_cancel_iff] at length
    have left : (piece ++ rest).drop size = rest := by rw [← length, List.drop_left]
    rw [Tokenizes, List.cons_append, Lexeme.readAll]
    rw [List.cons_append] at read
    simp only [read, left, List.map_cons]
    rw [h]

lemma Tokenizes.startTag {tag : Tag} (plain : tag.Plain) {rest : Text} {tokens : List Token}
    (h : Tokenizes rest tokens) : Tokenizes (tag.source ++ rest) (tag.token :: tokens) :=
  h.construct (by simp [Tag.source]) (plain.constructAt?_source rest)

lemma Tokenizes.endTag {tag : Tag} (plain : tag.Plain) {rest : Text} {tokens : List Token}
    (h : Tokenizes rest tokens) : Tokenizes (tag.endSource ++ rest) (tag.endToken :: tokens) :=
  h.construct (by simp [Tag.endSource]) (plain.constructAt?_endSource rest)

/-- A text, however it is written, makes one run with the character data behind it. -/
lemma readAll_spelled_append {piece written : Text} (spelled : Spelled piece written)
    (filled : piece ≠ []) (rest : Text) :
    Lexeme.readAll (written ++ rest) =
      ⟨written ++ rest.take (Lexeme.textLength rest),
        some (.text (piece ++ unescape (rest.take (Lexeme.textLength rest))))⟩ ::
        Lexeme.readAll (rest.drop (Lexeme.textLength rest)) := by
  have angle := angle_notMem_spelled spelled
  cases written with
  | nil =>
    have none := unescape_spelled spelled
    rw [unescape_nil] at none
    exact absurd none.symm filled
  | cons c written =>
    rw [List.mem_cons, not_or] at angle
    have size : Lexeme.textLength (written ++ rest) =
        written.length + Lexeme.textLength rest := Lexeme.textLength_append angle.2 rest
    have source : c :: (written ++ rest).take (written.length + Lexeme.textLength rest) =
        c :: written ++ rest.take (Lexeme.textLength rest) := by
      rw [List.take_length_add_append, List.cons_append]
    rw [List.cons_append, Lexeme.readAll]
    simp only [Lexeme.constructAt?_cons_of_ne (Ne.symm angle.1), size, source,
      unescape_spelled_append spelled, List.drop_length_add_append]

/-- **A text is read as character data however it is written**, and joins the run behind it. -/
lemma Tokenizes.spelled {piece written : Text} (spelled : Spelled piece written) {rest : Text}
    {tokens : List Token} (h : Tokenizes rest tokens) :
    Tokenizes (written ++ rest) (Token.join (.text piece) tokens) := by
  by_cases empty : piece = []
  · subst empty
    cases spelled
    simpa [Token.join] using h
  rw [Tokenizes, readAll_spelled_append spelled empty, List.map_cons]
  cases rest with
  | nil =>
    obtain rfl : tokens = [] := by simpa [Tokenizes] using h
    rw [Token.join_text_of_ne empty (by simp)]
    simp [Lexeme.textLength]
  | cons c behind =>
    cases read : Lexeme.constructAt? (c :: behind) with
    | some construct =>
      obtain ⟨token?, size⟩ := construct
      have none : Lexeme.textLength (c :: behind) = 0 := by simp [Lexeme.textLength, read]
      have noText : ∀ more, tokens.head? ≠ some (.text more) := by
        intro more head
        rw [Tokenizes, Lexeme.readAll] at h
        simp only [read, List.map_cons] at h
        have same := congrArg List.head? h
        rw [List.head?_cons, List.head?_map, head, Option.map_some, Option.some.injEq] at same
        subst same
        exact Lexeme.constructAt?_ne_text more read
      rw [none, List.take_zero, List.drop_zero, unescape_nil, List.append_nil, List.append_nil,
        h, Token.join_text_of_ne empty noText, List.map_cons]
    | none =>
      have size : Lexeme.textLength (c :: behind) = Lexeme.textLength behind + 1 := by
        simp [Lexeme.textLength, read]
      rw [Tokenizes, Lexeme.readAll] at h
      simp only [read, List.map_cons] at h
      cases tokens with
      | nil => simp at h
      | cons token tokens =>
        rw [List.map_cons, List.cons.injEq, Option.some.injEq] at h
        obtain ⟨head, further⟩ := h
        rw [← head, Token.join_text_text empty, size, List.take_succ_cons, List.drop_succ_cons,
          further, List.map_cons]

lemma Tokenizes.text (piece : Text) {rest : Text} {tokens : List Token}
    (h : Tokenizes rest tokens) :
    Tokenizes (escape false piece ++ rest) (Token.join (.text piece) tokens) :=
  h.spelled (spelled_escape false piece)

/-! ## The tags of an entity -/

/-- A tag without attributes. -/
def bareTag (name : Text) : Tag := ⟨name, []⟩

/-- The tag of a link. -/
def linkTag (target : Text) : Tag := ⟨['a'], [⟨"href".toList, some target⟩]⟩

/-- The tags written for an entity that covers `raw`, the outer one first. -/
def tagsOf (settings : Settings) (kind : Kind) (raw : Text) : List Tag :=
  match kind with
  | .bold => [bareTag "strong".toList]
  | .italic => [bareTag "em".toList]
  | .underline => [bareTag ['u']]
  | .strike => [bareTag "del".toList]
  | .spoiler => [bareTag "tg-spoiler".toList]
  | .code => [bareTag "code".toList]
  | .pre language =>
    if language.isEmpty then [bareTag "pre".toList]
    else
      [bareTag "pre".toList,
        ⟨"code".toList, [⟨"class".toList, some ("language-".toList ++ language)⟩]⟩]
  | .blockquote => [bareTag "blockquote".toList]
  | .textUrl url => [linkTag url]
  | .url => [linkTag raw]
  | .email => [linkTag (mailTarget ++ raw)]
  | .mentionName userId => [linkTag (mentionTarget ++ Numeral.ofInt userId)]
  | .customEmoji documentId =>
    if settings.customEmoji then
      [⟨"emoji".toList, [⟨documentKey, some (Numeral.ofInt documentId)⟩]⟩]
    else []

lemma plain_bareTag {name : Text} (plain : Tag.PlainName name)
    (marks : Lexeme.Unmarked name) : (bareTag name).Plain :=
  ⟨plain, marks, fun _ member => absurd member List.not_mem_nil⟩

lemma plain_tag {name : Text} (bare : (bareTag name).Plain) {attr : Attribute}
    (plain : attr.Plain) : Tag.Plain ⟨name, [attr]⟩ :=
  ⟨bare.name, bare.marks, fun _ member => List.mem_singleton.1 member ▸ plain⟩

lemma plain_quoted {key : Text} (plain : Attribute.PlainKey key) (marks : Lexeme.Unmarked key)
    (quoted : key ≠ documentKey) (value : Text) : Attribute.Plain ⟨key, some value⟩ :=
  ⟨plain, marks, rfl, fun document => absurd document quoted⟩

lemma plain_linkTag (target : Text) : (linkTag target).Plain :=
  plain_tag (plain_bareTag (by decide) (by decide))
    (plain_quoted (by decide) (by decide) (by decide) target)

lemma plain_document (documentId : Int) :
    Attribute.Plain ⟨documentKey, some (Numeral.ofInt documentId)⟩ :=
  ⟨show Attribute.PlainKey documentKey by decide,
    show Lexeme.Unmarked documentKey by decide, rfl, fun _ =>
    ⟨by simpa using Numeral.ofInt_ne_nil documentId, Numeral.ofInt_characters documentId⟩⟩

/-- Every tag written is read as it was written. -/
lemma plain_of_mem_tagsOf {settings : Settings} {kind : Kind} {raw : Text} {tag : Tag}
    (h : tag ∈ tagsOf settings kind raw) : tag.Plain := by
  cases kind with
  | bold | italic | underline | strike | spoiler | code | blockquote =>
    obtain rfl := List.mem_singleton.1 h
    exact plain_bareTag (by decide) (by decide)
  | textUrl | url | email | mentionName =>
    obtain rfl := List.mem_singleton.1 h
    exact plain_linkTag _
  | pre language =>
    have block : (bareTag "pre".toList).Plain := plain_bareTag (by decide) (by decide)
    simp only [tagsOf] at h
    split at h
    · obtain rfl := List.mem_singleton.1 h
      exact block
    · rcases List.mem_cons.1 h with rfl | inner
      · exact block
      · obtain rfl := List.mem_singleton.1 inner
        exact plain_tag (plain_bareTag (by decide) (by decide))
          (plain_quoted (by decide) (by decide) (by decide) _)
  | customEmoji documentId =>
    simp only [tagsOf] at h
    split at h
    · obtain rfl := List.mem_singleton.1 h
      exact plain_tag (plain_bareTag (by decide) (by decide)) (plain_document documentId)
    · simp at h

/-! ## What is written for an entity -/

lemma source_bareTag (name : Text) : (bareTag name).source = ['<'] ++ name ++ ['>'] := by
  simp [bareTag, Tag.source, Tag.inside]

lemma source_tag (name : Text) (attr : Attribute) :
    Tag.source ⟨name, [attr]⟩ = ['<'] ++ name ++ attr.source ++ ['>'] := by
  simp [Tag.source, Tag.inside]

lemma source_linkTag (target : Text) :
    (linkTag target).source = "<a href=\"".toList ++ escape true target ++ "\">".toList := by
  have quoted : (⟨"href".toList, some target⟩ : Attribute).key ≠ documentKey :=
    show "href".toList ≠ documentKey by decide
  rw [linkTag, source_tag, Attribute.source_of_quoted quoted]
  simp

lemma element_eq (name value : Text) :
    element name value = (bareTag name).source ++ value ++ (bareTag name).endSource := by
  simp [element, bareTag, Tag.source, Tag.inside, Tag.endSource]

lemma link_eq (target value : Text) :
    style.link value (escape true target) =
      (linkTag target).source ++ value ++ (linkTag target).endSource := by
  rw [source_linkTag]
  simp [style, linkTag, Tag.endSource]

lemma source_emojiTag (digits : Text) :
    Tag.source ⟨"emoji".toList, [⟨documentKey, some digits⟩]⟩ =
      emojiOpening ++ digits ++ ['>'] := by
  have document : (⟨documentKey, some digits⟩ : Attribute).key = documentKey := rfl
  have opening : emojiOpening = ['<'] ++ "emoji".toList ++ (' ' :: documentKey ++ ['=']) := rfl
  rw [source_tag, Attribute.source_of_document document, Option.getD_some, opening]
  simp only [List.append_assoc]

lemma emoji_eq (value : Text) (documentId : Int) :
    style.emoji value documentId =
      Tag.source ⟨"emoji".toList, [⟨documentKey, some (Numeral.ofInt documentId)⟩]⟩ ++ value ++
        Tag.endSource ⟨"emoji".toList, [⟨documentKey, some (Numeral.ofInt documentId)⟩]⟩ := by
  have closing (attr : Attribute) : emojiClosing = Tag.endSource ⟨"emoji".toList, [attr]⟩ := rfl
  rw [source_emojiTag, ← closing]
  rfl

lemma escape_mention (userId : Int) :
    escape true (mentionTarget ++ Numeral.ofInt userId) =
      mentionTarget ++ Numeral.ofInt userId := by
  refine escape_eq_self fun c member => ?_
  have target : (mentionTarget.all fun c => !(['&', '<', '>', '\x22'].contains c)) = true := by
    decide
  rcases List.mem_append.1 member with inTarget | digit
  · simpa using List.all_eq_true.1 target c inTarget
  · have mark := Attribute.digit_notMem (Numeral.ofInt_characters userId c digit)
    simp only [List.mem_cons, not_or] at mark ⊢
    exact ⟨mark.1, mark.2.2.2.2.1, mark.2.2.2.2.2.1, mark.2.2.1, List.not_mem_nil⟩

/-- **What is written for an entity**: its tags around the value, unless the entity is formatting
around a custom emoji. -/
lemma wrap_eq (settings : Settings) (entity : Entity) (value raw : Text) :
    style.wrap settings entity value raw =
      if entity.kind.isFormatting && isEmojiElement value then value
      else
        (tagsOf settings entity.kind raw).flatMap Tag.source ++ value ++
          (tagsOf settings entity.kind raw).reverse.flatMap Tag.endSource := by
  obtain ⟨offset, length, kind⟩ := entity
  cases kind with
  | bold | italic | underline | strike | spoiler | code | blockquote =>
    simp [Style.wrap, style, Kind.isFormatting, tagsOf, element_eq]
  | textUrl | url | email =>
    simp only [Style.wrap, Kind.isFormatting, tagsOf, Bool.false_and, Bool.false_eq_true, if_false]
    simpa [style] using link_eq _ value
  | mentionName userId =>
    simp only [Style.wrap, Kind.isFormatting, tagsOf, Bool.false_and, Bool.false_eq_true, if_false]
    have link := link_eq (mentionTarget ++ Numeral.ofInt userId) value
    rw [escape_mention] at link
    simpa using link
  | pre language =>
    simp only [Style.wrap, Kind.isFormatting, tagsOf, Bool.false_and, Bool.false_eq_true, if_false]
    split
    · have block : style.codeBlock value = element "pre".toList value := rfl
      rw [block, element_eq]
      simp
    · have quoted : (⟨"class".toList, some ("language-".toList ++ language)⟩ : Attribute).key ≠
          documentKey := show "class".toList ≠ documentKey by decide
      have literal : escape true "language-".toList = "language-".toList := by decide
      have inner := source_tag "code".toList ⟨"class".toList, some ("language-".toList ++ language)⟩
      rw [Attribute.source_of_quoted quoted, Option.getD_some, escape_append, literal] at inner
      simp only [List.flatMap_cons, inner, source_bareTag, List.reverse_cons]
      simp [style, Tag.endSource, bareTag]
  | customEmoji documentId =>
    simp only [Style.wrap, Kind.isFormatting, tagsOf, Bool.false_and, Bool.false_eq_true, if_false]
    split
    · simpa only [List.flatMap_cons, List.flatMap_nil, List.append_nil, List.reverse_singleton]
        using emoji_eq value documentId
    · simp

/-! ## The tokens of a forest -/

/-- The tags that a span is written with: those of its entity, but none for formatting around a
custom emoji. -/
def spanTags (settings : Settings) (units : List CodeUnit) (span : Span) (inner : Forest) :
    List Tag :=
  let value := inner.write (style.writer settings) units span.start span.stop
  if span.entity.kind.isFormatting && isEmojiElement value then []
  else tagsOf settings span.entity.kind (Utf16.slice units span.start span.stop)

/-- The tokens that a forest is written for, its gaps one by one. -/
def tokensOf (settings : Settings) (units : List CodeUnit) (position limit : Nat) :
    Forest → List Token
  | .nil => [.text (Utf16.slice units position limit)]
  | .cons span inner after =>
    let tags := spanTags settings units span inner
    .text (Utf16.slice units position span.start) ::
      (tags.map Tag.token ++ tokensOf settings units span.start span.stop inner ++
        tags.reverse.map Tag.endToken) ++ tokensOf settings units span.stop limit after

variable {settings : Settings} {units : List CodeUnit} {text : Text}

/-- A span is written as its tags around what is inside it. -/
lemma wrap_eq_spanTags (span : Span) (inner : Forest) :
    style.wrap settings span.entity
        (inner.write (style.writer settings) units span.start span.stop)
        (Utf16.slice units span.start span.stop) =
      (spanTags settings units span inner).flatMap Tag.source ++
        inner.write (style.writer settings) units span.start span.stop ++
          (spanTags settings units span inner).reverse.flatMap Tag.endSource := by
  rw [wrap_eq, spanTags]
  split
  · simp
  · rfl

lemma plain_of_mem_spanTags {span : Span} {inner : Forest} {tag : Tag}
    (h : tag ∈ spanTags settings units span inner) : tag.Plain := by
  rw [spanTags] at h
  split at h
  · simp at h
  · exact plain_of_mem_tagsOf h

lemma Tokenizes.startTags {tags : List Tag} (plain : ∀ tag ∈ tags, tag.Plain) {rest : Text}
    {tokens : List Token} (h : Tokenizes rest tokens) :
    Tokenizes (tags.flatMap Tag.source ++ rest)
      ((tags.map Tag.token).foldr Token.join tokens) := by
  induction tags with
  | nil => exact h
  | cons tag tags ih =>
    rw [List.flatMap_cons, List.append_assoc]
    exact (ih fun other member => plain other (List.mem_cons_of_mem _ member)).startTag
      (plain tag List.mem_cons_self)

lemma Tokenizes.endTags {tags : List Tag} (plain : ∀ tag ∈ tags, tag.Plain) {rest : Text}
    {tokens : List Token} (h : Tokenizes rest tokens) :
    Tokenizes (tags.flatMap Tag.endSource ++ rest)
      ((tags.map Tag.endToken).foldr Token.join tokens) := by
  induction tags with
  | nil => exact h
  | cons tag tags ih =>
    rw [List.flatMap_cons, List.append_assoc]
    exact (ih fun other member => plain other (List.mem_cons_of_mem _ member)).endTag
      (plain tag List.mem_cons_self)

/-- **A written forest is read as its tokens**, before whatever follows it. -/
lemma tokenizes_write (forest : Forest) (position limit : Nat) {rest : Text}
    {tokens : List Token} (h : Tokenizes rest tokens) :
    Tokenizes (forest.write (style.writer settings) (Utf16.encode text) position limit ++ rest)
      ((tokensOf settings (Utf16.encode text) position limit forest).foldr Token.join tokens) := by
  have gap (start stop : Nat) :
      Forest.writeGap (style.writer settings) (Utf16.encode text) start stop =
        escape false (Utf16.slice (Utf16.encode text) start stop) :=
    Forest.writeGap_eq rfl text start stop
  induction forest generalizing position limit rest tokens with
  | nil =>
    rw [Forest.write, gap]
    exact h.text _
  | cons span inner after ihInner ihAfter =>
    have plain (tag : Tag) (member : tag ∈ spanTags settings (Utf16.encode text) span inner) :
        tag.Plain := plain_of_mem_spanTags member
    have behind := ihAfter span.stop limit h
    have closed := behind.endTags fun tag member => plain tag (List.mem_reverse.1 member)
    have opened := (ihInner span.start span.stop closed).startTags plain
    have whole := opened.text (Utf16.slice (Utf16.encode text) position span.start)
    have wrap : (style.writer settings).wrap = style.wrap settings := rfl
    rw [Forest.write, gap, wrap, wrap_eq_spanTags]
    simpa only [tokensOf, List.append_assoc, List.foldr_cons, List.foldr_append,
      List.cons_append] using whole

lemma tokenizes_message (settings : Settings) (text : Text) (entities : List Entity) :
    Tokenizes (style.write settings text entities)
      (Token.merge (tokensOf settings (Utf16.encode text) 0 (Utf16.encode text).length
        (Forest.ofEntities (Utf16.encode text).length entities))) := by
  rw [Style.write, Writer.write_eq, ← List.append_nil (Forest.write ..)]
  exact tokenizes_write _ 0 _ Tokenizes.nil

/-! ## What the tokens of a forest are -/

namespace Token

lemma balanced_tokens_append (tags : List Tag) (names : List Text) (tokens : List Token) :
    Balanced names (tags.map Tag.token ++ tokens) ↔
      Balanced ((tags.map Tag.name).reverse ++ names) tokens := by
  induction tags generalizing names with
  | nil => rfl
  | cons tag tags ih =>
    simp only [List.map_cons, List.cons_append, Tag.token, Balanced, true_and, ih,
      List.reverse_cons, List.append_assoc, List.nil_append]

lemma balanced_endTokens_append (tags : List Tag) (names : List Text) (tokens : List Token) :
    Balanced (tags.map Tag.name ++ names) (tags.map Tag.endToken ++ tokens) ↔
      Balanced names tokens := by
  induction tags with
  | nil => rfl
  | cons tag tags ih =>
    simp only [List.map_cons, List.cons_append, Tag.endToken, Balanced, true_and, ih]

/-- **The tags of a forest are balanced.** -/
lemma balanced_tokensOf (forest : Forest) (position limit : Nat) (names : List Text)
    (tokens : List Token) :
    Balanced names (tokensOf settings units position limit forest ++ tokens) ↔
      Balanced names tokens := by
  induction forest generalizing position limit names tokens with
  | nil => rfl
  | cons span inner after ihInner ihAfter =>
    simp only [tokensOf, List.cons_append, List.append_assoc, Balanced]
    rw [balanced_tokens_append, ihInner, ← List.map_reverse, balanced_endTokens_append, ihAfter]

lemma data_append (front back : List Token) : data (front ++ back) = data front ++ data back :=
  List.flatMap_append

lemma tags_append (front back : List Token) : tags (front ++ back) = tags front ++ tags back :=
  List.filterMap_append

lemma data_tags (list : List Tag) :
    data (list.map Tag.token) = [] ∧ data (list.map Tag.endToken) = [] := by
  constructor <;> simp [data, Tag.token, Tag.endToken, List.flatMap_map]

lemma tags_tokens (list : List Tag) :
    tags (list.map Tag.token) = list ∧ tags (list.map Tag.endToken) = [] := by
  constructor <;> simp [tags, Tag.token, Tag.endToken, List.filterMap_map, Function.comp_def]

/-- **The character data of a forest is the text of its gaps.** -/
lemma data_tokensOf (forest : Forest) (position limit : Nat) :
    data (tokensOf settings units position limit forest) =
      forest.plainText units position limit := by
  induction forest generalizing position limit with
  | nil => simp [tokensOf, data, Forest.plainText]
  | cons span inner after ihInner ihAfter =>
    have run (piece : Text) (tokens : List Token) :
        data (.text piece :: tokens) = piece ++ data tokens := rfl
    simp only [tokensOf, List.cons_append, run, data_append, data_tags, ihInner, ihAfter,
      Forest.plainText, List.nil_append, List.append_assoc]

/-- **The tags of a forest are those of its spans**, an outer one before those inside it. -/
lemma tags_tokensOf (forest : Forest) (position limit : Nat) :
    tags (tokensOf settings units position limit forest) =
      forest.nodes.flatMap fun node => spanTags settings units node.1 node.2 := by
  induction forest generalizing position limit with
  | nil => rfl
  | cons span inner after ihInner ihAfter =>
    have run (piece : Text) (tokens : List Token) : tags (.text piece :: tokens) = tags tokens :=
      rfl
    simp only [tokensOf, List.cons_append, run, tags_append, tags_tokens, List.nil_append,
      Forest.nodes, List.flatMap_cons, List.flatMap_append, ihInner, ihAfter, List.append_assoc]

lemma spanTags_sublist (span : Span) (inner : Forest) :
    (spanTags settings units span inner).Sublist
      (tagsOf settings span.entity.kind (Utf16.slice units span.start span.stop)) := by
  rw [spanTags]
  split
  · exact List.nil_sublist _
  · exact List.Sublist.refl _

lemma flatMap_spanTags_sublist (nodes : List (Span × Forest)) :
    (nodes.flatMap fun node => spanTags settings units node.1 node.2).Sublist
      ((nodes.map Prod.fst).flatMap fun span =>
        tagsOf settings span.entity.kind (Utf16.slice units span.start span.stop)) := by
  induction nodes with
  | nil => exact List.nil_sublist _
  | cons node nodes ih => exact (spanTags_sublist node.1 node.2).append ih

end Token

/-- **Writing lets no markup in.**  Whatever the text and the entities hold, what is written is
read as tokens with nothing skipped.  Their tags are balanced and are tags of the entities, with
the values that were meant, each at most once and in the order of the nesting; their character data
is the text.  No entity goes without its tags but formatting around nothing but what looks like a
custom emoji. -/
theorem write_admits_own_tags_only (settings : Settings) (text : Text) (entities : List Entity) :
    let forest := Forest.ofEntities (Utf16.encode text).length entities
    let tagsIn (span : Span) :=
      tagsOf settings span.entity.kind (Utf16.slice (Utf16.encode text) span.start span.stop)
    ∃ tokens : List Token, Tokenizes (style.write settings text entities) tokens ∧
      Token.Balanced [] tokens ∧ Token.data tokens = text ∧
      (∀ span ∈ forest.spans, span.entity ∈ entities) ∧
      (Token.tags tokens).Sublist (forest.spans.flatMap tagsIn) ∧
      Token.tags tokens = forest.nodes.flatMap fun (span, inner) =>
        if span.entity.kind.isFormatting && isEmojiElement
            (inner.write (style.writer settings) (Utf16.encode text) span.start span.stop) then []
        else tagsIn span := by
  intro forest tagsIn
  have within : Forest.Within 0 (Utf16.encode text).length forest :=
    Forest.within_nest (Nat.zero_le _) _
  have tags := @Token.tags_tokensOf settings (Utf16.encode text) forest 0
    (Utf16.encode text).length
  refine ⟨_, tokenizes_message settings text entities, ?_, ?_, ?_, ?_, ?_⟩
  · rw [Token.balanced_merge, ← List.append_nil (tokensOf _ _ _ _ _), Token.balanced_tokensOf]
    rfl
  · rw [Token.data_merge, Token.data_tokensOf, Forest.plainText_eq_slice within,
      Utf16.slice_all]
  · exact fun span member => Forest.entity_mem_of_mem_spans member
  · rw [Token.tags_merge, tags, ← Forest.map_fst_nodes]
    exact Token.flatMap_spanTags_sublist _
  · rw [Token.tags_merge, tags]
    rfl

-- a target that would end its tag and start another, over a link that starts with a custom emoji
example : style.write {} "<b c".toList
    [⟨0, 4, .textUrl "\x22><i>".toList⟩, ⟨0, 2, .bold⟩, ⟨0, 2, .customEmoji 5⟩] =
    "<a href=\x22&quot;&gt;&lt;i&gt;\x22><emoji document_id=5>&lt;b</emoji> c</a>".toList :=
  (Writer.write_of_inOrder (by decide)).trans (by decide +kernel)

end RichText.Html
