import Mathlib.Data.List.Count
import Mathlib.Tactic.Lemma
import RichText.Proofs.Html.Tokens

/-!
# What looks like a custom emoji

The writer of HTML leaves formatting out where its content looks like one custom emoji, which it
tells by the source alone (`isEmojiElement`).  That test takes nothing else for one: what is written
for a stretch looks like a custom emoji only if a custom emoji covers the whole stretch
(`exists_emoji_of_isEmojiElement`).  It misses those with a negative document
(`isEmojiElement_emoji`).

The source of an emoji has two angle brackets `<`, one at its start and one in its end tag, and
text has none, so that there is no room for anything beside it.
-/

namespace RichText.Html

/-! ## Sources with two brackets -/

/-- What looks like a custom emoji starts with its opening and ends with its end tag, with no
bracket between. -/
lemma isEmojiElement_shape {value : Text} (h : isEmojiElement value = true) :
    emojiOpening <+: value ∧ ∃ front, value = front ++ emojiClosing ∧ front.count '<' = 1 := by
  unfold isEmojiElement at h
  split at h
  · simp at h
  · rename_i rest hrest
    simp only [Bool.and_eq_true, Option.any_eq_true] at h
    obtain ⟨-, inside, hinside, noBracket⟩ := h
    obtain ⟨closed, hclosed, hbefore⟩ := Option.bind_eq_some_iff.1 hinside
    have whole := Text.eq_append_of_after? hrest
    refine ⟨⟨rest, whole.symm⟩, ?_⟩
    obtain ⟨first, hfirst, hopen⟩ := Text.dropHead_append ['\x22'] rest
    obtain ⟨second, hsecond, hclose⟩ := Text.dropHead_append ['\x22']
      ((Text.dropHead ['\x22'] rest).dropWhile isDigit)
    have mark := Text.eq_append_of_after? hclosed
    have stop := Text.eq_append_of_before? hbefore
    have digits : ((Text.dropHead ['\x22'] rest).takeWhile isDigit).count '<' = 0 := by
      refine List.count_eq_zero.2 fun member => ?_
      have digit := List.all_eq_true.1 List.all_takeWhile _ member
      exact absurd digit (by decide)
    have quotes {taken : Text} (h : taken = [] ∨ taken = ['\x22']) : taken.count '<' = 0 := by
      rcases h with rfl | rfl <;> decide
    have opening : emojiOpening.count '<' = 1 := by decide
    have angle : ['>'].count '<' = 0 := by decide
    have inner : inside.count '<' = 0 := List.count_eq_zero.2 (by simpa using noBracket)
    refine ⟨emojiOpening ++ (first ++ ((Text.dropHead ['\x22'] rest).takeWhile isDigit ++
      (second ++ (['>'] ++ inside)))), ?_, ?_⟩
    · calc value = emojiOpening ++ (first ++ Text.dropHead ['\x22'] rest) := by
            rw [← hopen, whole]
        _ = emojiOpening ++ (first ++ ((Text.dropHead ['\x22'] rest).takeWhile isDigit ++
              (second ++ (['>'] ++ (inside ++ emojiClosing))))) := by
            rw [← stop, ← mark, ← hclose, List.takeWhile_append_dropWhile]
        _ = _ := by simp only [List.append_assoc]
    · simp only [List.count_append, opening, quotes hfirst, digits, quotes hsecond, angle, inner,
        Nat.add_zero]

/-- The text behind the last bracket is determined. -/
lemma eq_of_last_bracket {front other back rest : Text} (hback : '<' ∉ back) (hrest : '<' ∉ rest)
    (h : front ++ '<' :: back = other ++ '<' :: rest) : back = rest := by
  rcases List.append_eq_append_iff.1 h with ⟨between, -, same⟩ | ⟨between, -, same⟩
  · cases between with
    | nil => exact (List.cons.inj same).2
    | cons c between =>
      refine absurd ?_ hback
      rw [(List.cons.inj same).2]
      simp
  · cases between with
    | nil => exact (List.cons.inj same).2.symm
    | cons c between =>
      refine absurd ?_ hrest
      rw [(List.cons.inj same).2]
      simp

/-- There is no room behind the end tag of the emoji that fills a source with two brackets. -/
lemma eq_nil_of_behind_emoji {front other behind : Text} (hfront : front.count '<' = 1)
    (hother : 0 < other.count '<')
    (h : other ++ emojiClosing ++ behind = front ++ emojiClosing) : behind = [] := by
  have closing : emojiClosing = '<' :: "/emoji>".toList := rfl
  have one : emojiClosing.count '<' = 1 := by decide
  have plain : '<' ∉ "/emoji>".toList := by decide
  have brackets := congrArg (List.count '<') h
  simp only [List.count_append, hfront, one] at brackets
  have none : '<' ∉ behind := List.count_eq_zero.1 (by omega)
  rw [closing, List.append_assoc, List.cons_append] at h
  have same := eq_of_last_bracket (fun member => ?_) plain h
  · simpa using same
  · rcases List.mem_append.1 member with inTag | inBehind
    · exact plain inTag
    · exact none inBehind

/-- **A custom emoji looks like one**, whatever its text, unless its document is negative. -/
lemma isEmojiElement_emoji (piece : Text) (documentId : Int) :
    isEmojiElement (style.emoji (style.plain piece) documentId) = true ↔ 0 ≤ documentId := by
  have placeholder : style.emoji (style.plain piece) documentId = emojiOpening ++
      (Numeral.ofInt documentId ++ '>' :: (escape false piece ++ emojiClosing)) := by
    simp [style]
  rw [placeholder, isEmojiElement, Text.after?_append]
  cases documentId with
  | negSucc n =>
    have signed : Numeral.ofInt (.negSucc n) = '-' :: Numeral.ofNat (n + 1) := rfl
    simp only [signed, List.cons_append, Text.dropHead_of_ne (show '-' ≠ '\x22' by decide)]
    exact ⟨fun h => absurd h (by simp [isDigit]), fun h => absurd h (by omega)⟩
  | ofNat n =>
    have digits := Numeral.ofNat_digits n
    have unsigned : Numeral.ofInt (.ofNat n) = Numeral.ofNat n := rfl
    obtain ⟨first, rest, filled⟩ := List.exists_cons_of_ne_nil (Numeral.ofNat_ne_nil n)
    have digit : isDigit first = true := digits first (by rw [filled]; exact List.mem_cons_self)
    have noQuote : first ≠ '\x22' := by
      rintro rfl
      cases digit
    have behind : (Numeral.ofNat n ++ '>' :: (escape false piece ++ emojiClosing)).dropWhile
        isDigit = '>' :: (escape false piece ++ emojiClosing) :=
      Text.dropWhile_row digits (by rintro _ ⟨⟩; rfl)
    have opened : Text.after? ['>'] ('>' :: (escape false piece ++ emojiClosing)) =
        some (escape false piece ++ emojiClosing) := Text.after?_append ['>'] _
    have unquoted := Text.dropHead_of_ne noQuote
      (rest ++ '>' :: (escape false piece ++ emojiClosing))
    rw [← List.cons_append, ← filled] at unquoted
    simp only [unsigned, unquoted, behind, Text.dropHead_of_ne (show '>' ≠ '\x22' by decide), opened,
      Option.bind_some, Text.before?_append, Option.any_some]
    simp [filled, digit, (angle_notMem_escape false piece).1]

/-! ## What is written for a stretch -/

lemma tagsOf_ne_nil {settings : Settings} (enabled : settings.customEmoji = true) (kind : Kind)
    (raw : Text) : tagsOf settings kind raw ≠ [] := by
  cases kind with
  | pre language =>
    simp only [tagsOf]
    split <;> simp
  | customEmoji documentId => simp [tagsOf, enabled]
  | _ => simp [tagsOf]

/-- Only a custom emoji is written with a tag that starts as its own does. -/
lemma isEmoji_of_source {settings : Settings} {kind : Kind} {raw : Text} {tag : Tag}
    {tags : List Tag} {rest : Text} (h : tagsOf settings kind raw = tag :: tags)
    (starts : emojiOpening <+: tag.source ++ rest) :
    ∃ documentId, kind = .customEmoji documentId := by
  have short : ['<', 'e', 'm', 'o'] <+: tag.source ++ rest :=
    List.IsPrefix.trans ⟨"ji document_id=".toList, rfl⟩ starts
  cases kind with
  | customEmoji documentId => exact ⟨documentId, rfl⟩
  | bold | italic | underline | strike | spoiler | code | blockquote =>
    simp only [tagsOf, List.cons.injEq] at h
    rw [← h.1, source_bareTag] at short
    simp at short
  | textUrl | url | email | mentionName =>
    simp only [tagsOf, List.cons.injEq] at h
    rw [← h.1, source_linkTag] at short
    simp at short
  | pre language =>
    have first : tag = bareTag "pre".toList := by
      simp only [tagsOf] at h
      split at h
      · exact (List.cons.inj h).1.symm
      · exact (List.cons.inj h).1.symm
    rw [first, source_bareTag] at short
    simp at short

variable {settings : Settings} {text : Text}

lemma eq_nil_of_escape_eq_nil {piece : Text} (h : escape false piece = []) : piece = [] := by
  have back := unescape_escape false piece
  rwa [h, unescape_nil, eq_comm] at back

/-- Where custom emoji are written, only an empty stretch without spans is written as nothing. -/
lemma eq_nil_of_write_eq_nil (enabled : settings.customEmoji = true) {forest : Forest}
    {position limit : Nat}
    (h : forest.write (style.writer settings) (Utf16.encode text) position limit = []) :
    forest = .nil ∧ Utf16.slice (Utf16.encode text) position limit = [] := by
  cases forest with
  | nil =>
    rw [Forest.write, Forest.writeGap_eq rfl] at h
    exact ⟨rfl, eq_nil_of_escape_eq_nil h⟩
  | cons span inner after =>
    have wrap : (style.writer settings).wrap = style.wrap settings := rfl
    rw [Forest.write, wrap, List.append_eq_nil_iff, List.append_eq_nil_iff, wrap_eq] at h
    have nothing := h.1.2
    split at nothing
    · rename_i dropped
      rw [nothing, Bool.and_eq_true] at dropped
      obtain ⟨-, front, whole, -⟩ := isEmojiElement_shape dropped.2
      exact absurd (List.append_eq_nil_iff.1 whole.symm).2 (by decide)
    · obtain ⟨tag, tags, htags⟩ := List.exists_cons_of_ne_nil
        (tagsOf_ne_nil enabled span.entity.kind
          (Utf16.slice (Utf16.encode text) span.start span.stop))
      rw [htags] at nothing
      simp [Tag.source] at nothing

lemma eq_nil_of_bracket_first {gap rest : Text}
    (starts : emojiOpening <+: escape false gap ++ rest) : gap = [] := by
  cases hescape : escape false gap with
  | nil => exact eq_nil_of_escape_eq_nil hescape
  | cons c written =>
    have opening : emojiOpening = '<' :: "emoji document_id=".toList := rfl
    rw [hescape, opening, List.cons_append, List.cons_prefix_cons] at starts
    refine absurd ?_ (angle_notMem_escape false gap).1
    rw [hescape, starts.1]
    exact List.mem_cons_self

/-- A stretch that looks like a custom emoji is one span, with no text beside it: the emoji, or
formatting around a stretch that looks like one. -/
lemma span_of_isEmojiElement (enabled : settings.customEmoji = true) {forest : Forest}
    {position limit : Nat}
    (h : isEmojiElement
      (forest.write (style.writer settings) (Utf16.encode text) position limit) = true) :
    ∃ span inner, forest = .cons span inner .nil ∧
      Utf16.slice (Utf16.encode text) position span.start = [] ∧
      Utf16.slice (Utf16.encode text) span.stop limit = [] ∧
      (span.entity.kind.isFormatting = true ∧ isEmojiElement (inner.write (style.writer settings)
          (Utf16.encode text) span.start span.stop) = true ∨
        ∃ documentId, span.entity.kind = .customEmoji documentId) := by
  have gap (start stop : Nat) :
      Forest.writeGap (style.writer settings) (Utf16.encode text) start stop =
        escape false (Utf16.slice (Utf16.encode text) start stop) :=
    Forest.writeGap_eq rfl text start stop
  obtain ⟨starts, front, whole, brackets⟩ := isEmojiElement_shape h
  cases forest with
  | nil =>
    obtain ⟨rest, starts⟩ := starts
    refine absurd ?_ (angle_notMem_escape false (Utf16.slice (Utf16.encode text) position limit)).1
    rw [← gap, ← Forest.write, ← starts]
    exact List.mem_append_left _ List.mem_cons_self
  | cons span inner after =>
    have wrap : (style.writer settings).wrap = style.wrap settings := rfl
    rw [Forest.write, gap, wrap] at starts whole
    have first : Utf16.slice (Utf16.encode text) position span.start = [] := by
      rw [List.append_assoc] at starts
      exact eq_nil_of_bracket_first starts
    rw [first, escape_nil, List.nil_append] at starts whole
    -- whether it is written with its tags or without, nothing fits behind the span
    have last {other : Text} (hother : 0 < other.count '<')
        (written : style.wrap settings span.entity
          (inner.write (style.writer settings) (Utf16.encode text) span.start span.stop)
          (Utf16.slice (Utf16.encode text) span.start span.stop) = other ++ emojiClosing) :
        after = .nil ∧ Utf16.slice (Utf16.encode text) span.stop limit = [] := by
      rw [written] at whole
      exact eq_nil_of_write_eq_nil enabled (eq_nil_of_behind_emoji brackets hother whole)
    rw [wrap_eq] at starts last
    split at starts
    · rename_i dropped
      rw [if_pos dropped] at last
      rw [Bool.and_eq_true] at dropped
      obtain ⟨-, other, hvalue, hother⟩ := isEmojiElement_shape dropped.2
      obtain ⟨rfl, behind⟩ := last (by omega) hvalue
      exact ⟨span, inner, rfl, first, behind, .inl dropped⟩
    · rename_i kept
      rw [if_neg kept] at last
      obtain ⟨tag, tags, htags⟩ := List.exists_cons_of_ne_nil
        (tagsOf_ne_nil enabled span.entity.kind
          (Utf16.slice (Utf16.encode text) span.start span.stop))
      rw [htags, List.flatMap_cons, List.append_assoc, List.append_assoc,
        List.append_assoc] at starts
      obtain ⟨documentId, kind⟩ := isEmoji_of_source htags starts
      have own : tagsOf settings span.entity.kind
          (Utf16.slice (Utf16.encode text) span.start span.stop) =
            [⟨"emoji".toList, [⟨documentKey, some (Numeral.ofInt documentId)⟩]⟩] := by
        rw [kind]
        exact if_pos enabled
      rw [own] at last
      have bracket : 0 < (Tag.source ⟨"emoji".toList,
          [⟨documentKey, some (Numeral.ofInt documentId)⟩]⟩).count '<' :=
        List.count_pos_iff.2 List.mem_cons_self
      obtain ⟨rfl, behind⟩ := last (by
        rw [List.count_append, List.flatMap_singleton]
        omega) rfl
      exact ⟨span, inner, rfl, first, behind, .inr ⟨documentId, kind⟩⟩

/-- **What looks like a custom emoji is one.** -/
lemma exists_emoji_of_isEmojiElement (enabled : settings.customEmoji = true) {forest : Forest}
    {position limit : Nat} (within : Forest.Within position limit forest)
    (hposition : Utf16.Between text position) (hlimit : Utf16.Between text limit)
    (hspans : ∀ span ∈ forest.spans,
      Utf16.Between text span.start ∧ Utf16.Between text span.stop)
    (h : isEmojiElement
      (forest.write (style.writer settings) (Utf16.encode text) position limit) = true) :
    ∃ span ∈ forest.spans, (∃ documentId, span.entity.kind = .customEmoji documentId) ∧
      span.start = position ∧ span.stop = limit := by
  induction forest generalizing position limit with
  | nil =>
    obtain ⟨_, _, absurdity, -⟩ := span_of_isEmojiElement enabled h
    cases absurdity
  | cons span inner after ihInner _ =>
    obtain ⟨_, _, whole, before, behind, emoji⟩ := span_of_isEmojiElement enabled h
    obtain ⟨rfl, rfl, rfl⟩ := Forest.cons.inj whole
    obtain ⟨hfirst, hinner, hafter⟩ := within
    obtain ⟨hstart, hstop⟩ := hspans span List.mem_cons_self
    have first := (Utf16.slice_eq_nil_iff hposition hstart hfirst).1 before
    have last := (Utf16.slice_eq_nil_iff hstop hlimit hafter).1 behind
    rcases emoji with ⟨-, inside⟩ | own
    · obtain ⟨found, member, kind, start, stop⟩ := ihInner hinner hstart hstop
        (fun enclosed member => hspans enclosed (by simp [member])) inside
      exact ⟨found, by simp [member], kind, by omega, by omega⟩
    · exact ⟨span, List.mem_cons_self, own, first.symm, last⟩

/-- A span has the tags of its entity, if it is not formatting around a custom emoji that covers as
much. -/
lemma spanTags_eq_tagsOf (enabled : settings.customEmoji = true) {span : Span} {inner : Forest}
    (within : inner.Within span.start span.stop)
    (start : Utf16.Between text span.start) (stop : Utf16.Between text span.stop)
    (hspans : ∀ enclosed ∈ inner.spans,
      Utf16.Between text enclosed.start ∧ Utf16.Between text enclosed.stop)
    (smaller : ∀ enclosed ∈ inner.spans, span.entity.kind.isFormatting = true →
      (∃ documentId, enclosed.entity.kind = .customEmoji documentId) →
        ¬ (enclosed.start = span.start ∧ enclosed.stop = span.stop)) :
    spanTags settings (Utf16.encode text) span inner =
      tagsOf settings span.entity.kind (Utf16.slice (Utf16.encode text) span.start span.stop) := by
  refine if_neg fun dropped => ?_
  rw [Bool.and_eq_true] at dropped
  obtain ⟨formatting, emoji⟩ := dropped
  obtain ⟨enclosed, member, kind, same⟩ :=
    exists_emoji_of_isEmojiElement enabled within start stop hspans emoji
  exact smaller enclosed member formatting kind same

end RichText.Html
