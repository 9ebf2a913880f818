import RichText.Dialect
import RichText.Proofs.Html.EmojiElements
import RichText.Proofs.Markdown.EmojiLinks

/-!
# Formatting over a custom emoji

Formatting that would hold a custom emoji and nothing else is left out, which a dialect tells by the
look of what is written inside.  Neither dialect knows every custom emoji by its look.  A negative
document is not known in either, and in Markdown a text with a closing bracket is not, although the
bracket is escaped.  Formatting over any other emoji is left out, and formatting over these is written
around them (`Dialect.write_over_emoji`).
-/

namespace RichText

variable {text : Text} {size : Nat} {outer emoji : Entity}

namespace Forest

/-- An entity that lies in a text is one span of it. -/
lemma nest_single (h : emoji.LiesIn size) (position index : Nat)
    (first : (position : Int) ≤ emoji.offset) :
    nest position size [(emoji, index)] = cons
      ⟨index, emoji, emoji.offset.toNat, emoji.offset.toNat + emoji.length.toNat⟩ nil nil := by
  obtain ⟨low, filled, high⟩ := h
  rw [nest, if_neg (by omega)]
  simp only [startingBefore, List.filter_nil, nest_nil, cons.injEq, Span.mk.injEq, and_true,
    true_and]
  omega

/-- Of two entities with one stretch the first is around the other. -/
lemma nest_over (h : emoji.LiesIn size) (offset : outer.offset = emoji.offset)
    (length : outer.length = emoji.length) :
    nest 0 size [(outer, 0), (emoji, 1)] = cons
      ⟨0, outer, emoji.offset.toNat, emoji.offset.toNat + emoji.length.toNat⟩
      (cons ⟨1, emoji, emoji.offset.toNat, emoji.offset.toNat + emoji.length.toNat⟩ nil nil)
      nil := by
  obtain ⟨low, filled, high⟩ := h
  have start : min emoji.offset.toNat size = emoji.offset.toNat := by omega
  have stop : min (emoji.offset.toNat + emoji.length.toNat) size =
      emoji.offset.toNat + emoji.length.toNat := by omega
  have inside : startingBefore (emoji.offset.toNat + emoji.length.toNat) [(emoji, 1)] =
      [(emoji, 1)] := List.filter_cons_of_pos (by simp only [decide_eq_true_eq]; omega)
  rw [nest, offset, length, if_neg (by omega)]
  simp only [start, stop, inside]
  rw [nest_single ⟨low, filled, by omega⟩ _ _ (by omega), nest, if_pos (by omega), nest_nil]

end Forest

namespace Writer

/-- What is written for the stretch of an entity, with the rest of the text around it. -/
def around (writer : Writer) (text : Text) (entity : Entity) (value : Text) : Text :=
  Forest.writeGap writer (Utf16.encode text) 0 entity.offset.toNat ++ value ++
    Forest.writeGap writer (Utf16.encode text) (entity.offset.toNat + entity.length.toNat)
      (Utf16.unitCount text)

lemma around_inj {writer : Writer} {value other : Text} :
    writer.around text emoji value = writer.around text emoji other ↔ value = other := by
  rw [around, around, List.append_cancel_right_eq, List.append_cancel_left_eq]

variable (writer : Writer)

lemma writeGap_self (units : List CodeUnit) (position : Nat) :
    Forest.writeGap writer units position position = [] := if_neg (Nat.lt_irrefl position)

lemma writeGap_covered (units : List CodeUnit) (filled : 0 < emoji.length) :
    Forest.writeGap writer units emoji.offset.toNat
      (emoji.offset.toNat + emoji.length.toNat) = writer.plain (emoji.covered units) :=
  if_pos (by omega)

/-- An entity by itself is written around the text that it covers. -/
lemma write_single (h : emoji.LiesIn (Utf16.unitCount text)) :
    writer.write text [emoji] = writer.around text emoji
      (writer.wrap emoji (writer.plain (emoji.covered (Utf16.encode text)))
        (emoji.covered (Utf16.encode text))) := by
  have alone : WellNested (Utf16.unitCount text) [emoji] := ⟨by simpa using h, by simp⟩
  simp only [write_eq, Forest.ofEntities, Forest.byOffset_of_inOrder alone.sorted, List.zipIdx_cons,
    List.zipIdx_nil, Utf16.length_encode, Forest.nest_single h 0 0 h.1, Forest.write,
    writeGap_covered writer _ h.2.1]
  rfl

/-- Another one with its stretch, listed before it, is written around the entity. -/
lemma write_over (h : emoji.LiesIn (Utf16.unitCount text)) (offset : outer.offset = emoji.offset)
    (length : outer.length = emoji.length) :
    writer.write text [outer, emoji] = writer.around text emoji
      (writer.wrap outer
        (writer.wrap emoji (writer.plain (emoji.covered (Utf16.encode text)))
          (emoji.covered (Utf16.encode text)))
        (emoji.covered (Utf16.encode text))) := by
  have both : WellNested (Utf16.unitCount text) [outer, emoji] := by
    refine ⟨?_, ?_⟩
    · simpa [Entity.LiesIn, offset, length] using h
    · simp [Entity.Encloses, offset, length]
  simp only [write_eq, Forest.ofEntities, Forest.byOffset_of_inOrder both.sorted, List.zipIdx_cons,
    List.zipIdx_nil, Utf16.length_encode, Nat.zero_add, Forest.nest_over h offset length,
    Forest.write, writeGap_covered writer _ h.2.1, writeGap_self, List.nil_append, List.append_nil]
  rfl

end Writer

/-! ## Formatting that is left out -/

namespace Markdown

lemma length_le_continueQuote (value : Text) : value.length ≤ (continueQuote value).length := by
  induction value with
  | nil => exact Nat.le_refl 0
  | cons c rest ih =>
    have step : continueQuote (c :: rest) =
        (if c = '\n' then ['\n', '>', ' '] else [c]) ++ continueQuote rest := rfl
    rw [step, List.length_append, List.length_cons]
    split <;> simp only [List.length_cons] <;> omega

/-- Marks add to what they are written around. -/
lemma Marks.length_lt_write (marks : Marks) (value : Text) :
    value.length < (marks.write value).length := by
  cases marks with
  | quote =>
    have lines := length_le_continueQuote value
    simp only [write, inQuote, if_true, List.length_append, List.length_cons]
    omega
  | _ =>
    simp [write, between, fence, blockInside, Markdown.link]
    try omega

end Markdown

namespace Dialect

/-- Formatting is left out where what it would be written around looks like a custom emoji, and
nowhere else. -/
lemma wrap_eq_self_iff (dialect : Dialect) {entity : Entity}
    (formatting : entity.kind.isFormatting = true) (value raw : Text) :
    dialect.style.wrap {} entity value raw = value ↔ dialect.style.isEmoji value = true := by
  cases dialect with
  | html =>
    have test : html.style.isEmoji = Html.isEmojiElement := rfl
    show Html.style.wrap {} entity value raw = value ↔ _
    rw [Html.wrap_eq, formatting, Bool.true_and, test]
    refine ⟨fun same => ?_, fun emoji => if_pos emoji⟩
    by_contra other
    rw [if_neg other] at same
    obtain ⟨tag, tags, htags⟩ := List.exists_cons_of_ne_nil
      (@Html.tagsOf_ne_nil {} rfl entity.kind raw)
    have lengths := congrArg List.length same
    rw [htags, List.flatMap_cons] at lengths
    simp only [Html.Tag.source, List.length_append, List.length_cons] at lengths
    omega
  | markdown =>
    have test : markdown.style.isEmoji = Markdown.isEmojiLink := rfl
    show Markdown.style.wrap {} entity value raw = value ↔ _
    rw [Markdown.wrap_eq, Markdown.bare_eq rfl, formatting, Bool.true_and, test]
    refine ⟨fun same => ?_, fun emoji => if_pos emoji⟩
    by_contra other
    rw [if_neg other] at same
    have longer := (Markdown.marksOf raw entity.kind).length_lt_write value
    rw [same] at longer
    exact Nat.lt_irrefl _ longer

/-- **Which custom emoji look like one**: those with a document that is not negative and, in
Markdown, with a text that has no closing bracket. -/
lemma isEmoji_emoji (dialect : Dialect) (piece : Text) (documentId : Int) :
    dialect.style.isEmoji (dialect.style.emoji (dialect.style.plain piece) documentId) = true ↔
      0 ≤ documentId ∧ (dialect = markdown → ']' ∉ piece) := by
  cases dialect with
  | html => exact (Html.isEmojiElement_emoji piece documentId).trans ⟨fun h => ⟨h, nofun⟩, And.left⟩
  | markdown => exact (Markdown.isEmojiLink_emoji piece documentId).trans (by simp)

/-- **Formatting over a custom emoji is left out just if the emoji looks like one**, which it does
in either dialect if its document is not negative and, in Markdown, its text has no closing
bracket. -/
theorem write_over_emoji (dialect : Dialect) (documentId : Int) :
    (∀ piece : Text,
      dialect.style.isEmoji (dialect.style.emoji (dialect.style.plain piece) documentId) = true ↔
        0 ≤ documentId ∧ (dialect = markdown → ']' ∉ piece)) ∧
    ∀ (text : Text) (emoji : Entity) (formatting : Kind),
      emoji.kind = .customEmoji documentId → emoji.LiesIn (Utf16.unitCount text) →
      formatting.isFormatting = true →
      (dialect.write {} ⟨text, [{ emoji with kind := formatting }, emoji]⟩ =
          dialect.write {} ⟨text, [emoji]⟩ ↔
        0 ≤ documentId ∧ (dialect = markdown → ']' ∉ emoji.covered (Utf16.encode text))) := by
  refine ⟨fun piece => dialect.isEmoji_emoji piece documentId, ?_⟩
  intro text emoji formatting kind liesIn isFormatting
  have placeholder (value raw : Text) : (dialect.style.writer {}).wrap emoji value raw =
      dialect.style.emoji value documentId := by
    simp only [Style.writer, Style.wrap, kind]
    rfl
  have plain : (dialect.style.writer {}).plain = dialect.style.plain := rfl
  have wrap : (dialect.style.writer {}).wrap = dialect.style.wrap {} := rfl
  have around := @Writer.write_over text { emoji with kind := formatting } emoji
    (dialect.style.writer {}) liesIn rfl rfl
  rw [write, write, Style.write, Style.write, Writer.write_single _ liesIn,
    around, Writer.around_inj, placeholder, plain, wrap, dialect.wrap_eq_self_iff isFormatting,
    dialect.isEmoji_emoji]

/-- Bold type is written around a custom emoji with a negative document, and in Markdown around one
over a closing bracket. -/
theorem write_over_emoji_kept :
    (Entity.LiesIn (Utf16.unitCount ['a']) ⟨0, 1, .customEmoji (-5)⟩ ∧
      Entity.LiesIn (Utf16.unitCount [']']) ⟨0, 1, .customEmoji 5⟩ ∧
      Kind.bold.isFormatting = true) ∧
    (∀ dialect : Dialect,
      dialect.write {} ⟨['a'], [⟨0, 1, .bold⟩, ⟨0, 1, .customEmoji (-5)⟩]⟩ ≠
        dialect.write {} ⟨['a'], [⟨0, 1, .customEmoji (-5)⟩]⟩) ∧
    html.write {} ⟨[']'], [⟨0, 1, .bold⟩, ⟨0, 1, .customEmoji 5⟩]⟩ =
      html.write {} ⟨[']'], [⟨0, 1, .customEmoji 5⟩]⟩ ∧
    markdown.write {} ⟨[']'], [⟨0, 1, .bold⟩, ⟨0, 1, .customEmoji 5⟩]⟩ ≠
      markdown.write {} ⟨[']'], [⟨0, 1, .customEmoji 5⟩]⟩ := by
  have negative : Entity.LiesIn (Utf16.unitCount ['a']) ⟨0, 1, .customEmoji (-5)⟩ := by decide
  have bracket : Entity.LiesIn (Utf16.unitCount [']']) ⟨0, 1, .customEmoji 5⟩ := by decide
  have covers : Entity.covered (Utf16.encode [']']) ⟨0, 1, .customEmoji 5⟩ = [']'] := by decide
  refine ⟨⟨negative, bracket, rfl⟩, fun dialect same => ?_, ?_, fun same => ?_⟩
  · have known := ((dialect.write_over_emoji (-5)).2 _ _ .bold rfl negative rfl).1 same
    exact absurd known.1 (by decide)
  · exact ((html.write_over_emoji 5).2 _ _ .bold rfl bracket rfl).2 ⟨by decide, nofun⟩
  · have known := ((markdown.write_over_emoji 5).2 _ _ .bold rfl bracket rfl).1 same
    rw [covers] at known
    exact known.2 rfl List.mem_cons_self

end Dialect

end RichText
