import Mathlib.Tactic.Lemma
import RichText.Proofs.Markdown.Arrangement
import RichText.Proofs.Markdown.EmojiLinks

/-!
# Marks that are left in the text

A mark that is not read for what it is does not go away: it is read as text.  The `ink` of a text,
which is how many of its characters are not blank, tells it, as every mark has some and trimming
takes none away.

Whatever the nesting, replaying it adds at least the ink of its stretch (`ink_replay`).  Code that
encloses marks adds more, and so does a block quote that starts where no line does.  A nesting that
adds no more can be said (`sayable_of_ink_le`), and so a text that comes back shows that its nesting
can (`sayable_of_text_read`), if the marks are read one by one at all.
-/

namespace RichText.Markdown

/-! ## Ink -/

/-- How many characters of a text are not blank. -/
def ink (text : Text) : Nat := text.countP fun c => !isBlank c

@[simp] lemma ink_append (front back : Text) : ink (front ++ back) = ink front + ink back :=
  List.countP_append

lemma ink_trim (text : Text) : ink text.trim = ink text := by
  have kept (text : Text) : ink (text.dropWhile isBlank) = ink text := by
    have none : ink (text.takeWhile isBlank) = 0 := by
      refine List.countP_eq_zero.2 fun c member => ?_
      simp [List.mem_takeWhile_imp member]
    conv_rhs => rw [← List.takeWhile_append_dropWhile (p := isBlank) (l := text)]
    rw [ink_append, none, Nat.zero_add]
  have back (text : Text) : ink text.reverse = ink text := List.countP_reverse
  rw [Text.trim, Text.trimEnd, Text.trimStart, back, kept, back, kept]

lemma ink_le_inQuote (quoted : Bool) (value : Text) : ink value ≤ ink (inQuote quoted value) := by
  induction value with
  | nil => rw [inQuote_nil]
  | cons c rest ih =>
    have here : ink [c] ≤ ink (inQuote quoted [c]) := by
      by_cases line : c = '\n'
      · rw [line]
        exact Nat.zero_le _
      · rw [inQuote_cons_of_ne line, inQuote_nil]
    rw [inQuote_cons, ink_append, ← List.singleton_append, ink_append]
    omega

variable {settings : Settings} {text raw value : Text} {quoted fresh : Bool}
  {depth position limit : Nat} {trail : Trail} {forest : Forest} {kind : Kind}

/-! ## The ink of what is written -/

lemma ink_lt_around {front : Text} (hfront : Whole front) (inky : 0 < ink (unescape front))
    (whole : Whole value) (back : Text) :
    ink (unescape value) < ink (unescape (front ++ value ++ back)) := by
  rw [List.append_assoc, unescape_append hfront, unescape_append whole, ink_append, ink_append]
  omega

/-- **Marks have ink.** -/
lemma ink_lt_write (whole : Whole value) (raw : Text) (kind : Kind) :
    ink (unescape value) < ink (unescape ((marksOf raw kind).write value)) := by
  have plain {c : Char} (h : c ≠ '\\') : Whole [c] := .plain (by simpa using h) .nil
  cases kind with
  | bold | italic | underline | strike | spoiler =>
    exact ink_lt_around ((plain (by decide)).append (plain (by decide))) (by decide) whole _
  | code => exact ink_lt_around (plain (by decide)) (by decide) whole _
  | pre language =>
    have named : Whole (quote language ++ ['\n']) :=
      (free_quoteFrom (by simp) true language).append (plain (by decide))
    have parts : blockInside language value = quote language ++ ['\n'] ++ value := by
      simp [blockInside]
    have inside : ink (unescape value) ≤ ink (unescape (blockInside language value)) := by
      rw [parts, unescape_append named, ink_append]
      exact Nat.le_add_left _ _
    refine Nat.lt_of_le_of_lt inside (ink_lt_around ?_ (by decide) ?_ _)
    · exact (plain (by decide)).append ((plain (by decide)).append (plain (by decide)))
    · rw [parts]
      exact named.append whole
  | blockquote =>
    have inside := ink_le_inQuote true (unescape value)
    rw [← unescape_inQuote whole] at inside
    exact Nat.lt_of_le_of_lt inside (ink_lt_around ((plain (by decide)).append (plain (by decide)))
      (by decide) (free_inQuote (by simp) whole true) _)
  | textUrl | url | email | mentionName | customEmoji =>
    have link (target : Text) : Markdown.link value target =
        ['['] ++ value ++ ([']', '('] ++ target ++ [')']) := by simp [Markdown.link]
    rw [marksOf, Marks.write, link]
    exact ink_lt_around (plain (by decide)) (by decide) whole _

lemma slice_cons {span : Span} {inner after : Forest}
    (within : (Forest.cons span inner after).Within position limit) :
    Utf16.slice (Utf16.encode text) position limit =
      Utf16.slice (Utf16.encode text) position span.start ++
        (covered text span ++ Utf16.slice (Utf16.encode text) span.stop limit) := by
  obtain ⟨first, hinner, hafter⟩ := within
  rw [covered, Utf16.slice_append hinner.le hafter.le,
    Utf16.slice_append first (hinner.le.trans hafter.le)]

/-- Undoing the escapes of what is written for a span and what is around it. -/
lemma ink_written_cons (span : Span) (inner after : Forest) :
    ink (unescape (written settings text position limit (.cons span inner after))) =
      ink (Utf16.slice (Utf16.encode text) position span.start) +
        (ink (unescape (style.wrap settings span.entity
            (written settings text span.start span.stop inner) (covered text span))) +
          ink (unescape (written settings text span.stop limit after))) := by
  have whole : Whole (style.wrap settings span.entity
      (written settings text span.start span.stop inner) (covered text span)) := by
    rw [wrap_eq]
    split
    · exact (balanced_written inner _ _).whole
    · exact (balanced_write _ (balanced_written inner _ _)).whole
  rw [written_cons, ← wrap_eq, List.append_assoc, unescape_append (balanced_quote _).whole,
    unescape_append whole, quote, unescape_quoteFrom, ink_append, ink_append]

lemma ink_le_wrap (settings : Settings) (raw : Text) (whole : Whole value) (entity : Entity) :
    ink (unescape value) ≤ ink (unescape (style.wrap settings entity value raw)) := by
  rw [wrap_eq]
  split
  · exact Nat.le_refl _
  · exact (ink_lt_write whole raw entity.kind).le

lemma ink_le_written (settings : Settings) (text : Text) (within : forest.Within position limit) :
    ink (Utf16.slice (Utf16.encode text) position limit) ≤
      ink (unescape (written settings text position limit forest)) := by
  induction forest generalizing position limit with
  | nil => rw [written_nil, quote, unescape_quoteFrom]
  | cons span inner after ihInner ihAfter =>
    have least : ink (covered text span) ≤ _ := ihInner within.2.1
    have balanced : Balanced (written settings text span.start span.stop inner) :=
      balanced_written inner _ _
    have wrapped := ink_le_wrap settings (covered text span) balanced.whole span.entity
    have further := ihAfter within.2.2
    rw [slice_cons within, ink_written_cons, ink_append, ink_append]
    omega

/-- The spans that are written as what is inside them are formatting around what looks like a custom
emoji. -/
def Formats (settings : Settings) (forest : Forest) : Prop :=
  ∀ span ∈ forest.spans, ∀ value, bare settings span.entity.kind value =
    (span.entity.kind.isFormatting && isEmojiLink value)

lemma Formats.inner {span : Span} {inner after : Forest}
    (h : Formats settings (.cons span inner after)) : Formats settings inner :=
  fun enclosed member => h enclosed (by simp [member])

lemma Formats.after {span : Span} {inner after : Forest}
    (h : Formats settings (.cons span inner after)) : Formats settings after :=
  fun following member => h following (by simp [member])

/-- **Where there are marks, there is more ink.** -/
lemma ink_lt_written (formats : Formats settings forest) (within : forest.Within position limit)
    (marked : forest ≠ .nil) :
    ink (Utf16.slice (Utf16.encode text) position limit) <
      ink (unescape (written settings text position limit forest)) := by
  induction forest generalizing position limit with
  | nil => exact absurd rfl marked
  | cons span inner after ihInner _ =>
    have further := ink_le_written settings text within.2.2
    have wrapped : ink (covered text span) < ink (unescape (style.wrap settings span.entity
        (written settings text span.start span.stop inner) (covered text span))) := by
      rw [wrap_eq]
      split
      · rename_i isBare
        rw [formats span List.mem_cons_self, Bool.and_eq_true] at isBare
        refine ihInner formats.inner within.2.1 ?_
        rintro rfl
        rw [written_nil, isEmojiLink_quote] at isBare
        exact Bool.false_ne_true isBare.2
      · exact Nat.lt_of_le_of_lt (ink_le_written settings text within.2.1)
          (ink_lt_write (balanced_written inner _ _).whole _ _)
    rw [slice_cons within, ink_written_cons, ink_append, ink_append]
    omega

/-! ## The ink of what is read -/

lemma text_enclose (key : Delimiter) (kind : Kind) (piece : Text) (trail : Trail) :
    (trail.enclose key kind piece).gathered.text = trail.gathered.text ++ piece := by
  rw [Trail.enclose, Trail.mark, Gathering.text_finish, Gathering.text_append,
    Gathering.text_start]

lemma ink_le_code (quoted : Bool) (value : Text) (trail : Trail) :
    ink trail.gathered.text + ink (unescape value) ≤
      ink (trail.code quoted value).gathered.text := by
  rw [Trail.code, text_enclose, ink_append, Trail.verbatim]
  exact Nat.add_le_add_left (ink_le_inQuote _ _) _

lemma ink_le_block {language : Text} (line : '\n' ∉ language) (quoted : Bool) (value : Text)
    (trail : Trail) : ink trail.gathered.text + ink (unescape value) ≤
      ink (trail.block quoted (blockInside language value)).gathered.text := by
  have whole : Whole (quote language) := free_quoteFrom (by simp) true language
  have inside : unescape (blockInside language value) = language ++ '\n' :: unescape value := by
    rw [blockInside, unescape_append whole, quote, unescape_quoteFrom, unescape_cons (by decide)]
  have below : ∃ marks, trail.verbatim quoted (blockInside language value) =
      language ++ '\n' :: (marks ++ inQuote (quoted && !trail.quoting) (unescape value)) := by
    rw [Trail.verbatim, inside, inQuote_append, inQuote_of_notMem line, inQuote_cons]
    cases quoted && !trail.quoting with
    | false => exact ⟨[], rfl⟩
    | true => exact ⟨['>', ' '], rfl⟩
  obtain ⟨marks, same⟩ := below
  have := ink_le_inQuote (quoted && !trail.quoting) (unescape value)
  rw [Trail.block, text_enclose, same, splitBlock, splitLine?_append line, Option.getD_some,
    ink_append, ink_append]
  omega

/-- The mark of a block quote has ink where no line starts. -/
lemma ink_quoteStart (trail : Trail) :
    ink trail.quoteStart.gathered.text =
      ink trail.gathered.text + if trail.lineStart then 0 else 1 := by
  unfold Trail.quoteStart
  split
  · exact congrArg ink (Gathering.text_start _ _ _)
  · rw [Trail.mark, Gathering.text_appendChar, Gathering.text_appendChar, List.append_assoc,
      ink_append]
    rfl

lemma ink_le_quoteStop (trail : Trail) :
    ink trail.gathered.text ≤ ink trail.quoteStop.gathered.text := by
  unfold Trail.quoteStop
  split
  · exact (congrArg ink (Gathering.text_finish _ _)).ge
  · rw [Trail.mark, Gathering.text_appendChar, Gathering.text_appendChar, List.append_assoc,
      ink_append]
    exact Nat.le_add_right _ _

/-- **Marks take no ink away**, if what is read inside them adds as much as is written there. -/
lemma ink_le_around {inside : Bool → Nat → Trail → Trail} {least : Nat}
    (line : ∀ language, kind = .pre language → '\n' ∉ language)
    (code : least ≤ ink (unescape value))
    (adds : ∀ quoted depth trail, ink trail.gathered.text + least ≤
      ink (inside quoted depth trail).gathered.text) :
    ink trail.gathered.text + least ≤
      ink ((marksOf raw kind).around settings quoted depth kind value inside trail).gathered.text := by
  cases hmarks : marksOf raw kind with
  | doubled c delimiter =>
    have switched (trail : Trail) : (trail.mark (Reading.switch delimiter kind)).gathered.text =
        trail.gathered.text := text_switch delimiter kind _
    rw [Marks.around, switched, ← switched trail]
    exact adds _ _ _
  | code =>
    have := ink_le_code quoted value trail
    exact Nat.le_trans (Nat.add_le_add_left code _) this
  | block language =>
    have := ink_le_block (line language (marksOf_eq_block hmarks)) quoted value trail
    exact Nat.le_trans (Nat.add_le_add_left code _) this
  | quote =>
    have started := ink_quoteStart trail
    have stopped := ink_le_quoteStop (inside true depth trail.quoteStart)
    have := adds true depth trail.quoteStart
    rw [Marks.around]
    omega
  | link target =>
    have started : (trail.linkStart depth).gathered.text = trail.gathered.text :=
      Gathering.text_start _ _ _
    rw [Marks.around, text_linkStop, ← started]
    exact adds _ _ _

lemma ink_le_span (settings : Settings) {span : Span} {inner : Forest}
    (within : inner.Within span.start span.stop)
    (line : ∀ language, span.entity.kind = .pre language → '\n' ∉ language)
    (inside : ∀ quoted depth trail, ink trail.gathered.text + ink (covered text span) ≤
      ink (replay settings text quoted depth span.start span.stop inner trail).gathered.text)
    (quoted : Bool) (depth : Nat) (trail : Trail) :
    ink trail.gathered.text + ink (covered text span) ≤
      ink (replaySpan settings text quoted depth span inner trail).gathered.text := by
  unfold replaySpan
  dsimp only
  split
  · exact inside quoted depth trail
  · exact ink_le_around line (ink_le_written settings text within) inside

/-- **No ink is lost**, whatever is replayed on whatever trail. -/
lemma ink_replay (settings : Settings) (text : Text) (within : forest.Within position limit)
    (line : ∀ span ∈ forest.spans, ∀ language, span.entity.kind = .pre language →
      '\n' ∉ language) (quoted : Bool) (depth : Nat) (trail : Trail) :
    ink trail.gathered.text + ink (Utf16.slice (Utf16.encode text) position limit) ≤
      ink (replay settings text quoted depth position limit forest trail).gathered.text := by
  induction forest generalizing quoted depth position limit trail with
  | nil => rw [replay, text_typeAll, ink_append]
  | cons span inner after ihInner ihAfter =>
    have inside := ihInner within.2.1 fun enclosed member => line enclosed (by simp [member])
    have behind := ihAfter within.2.2 (fun following member => line following (by simp [member]))
      quoted depth (replaySpan settings text quoted depth span inner
        (trail.typeAll quoted (Utf16.slice (Utf16.encode text) position span.start)))
    have middle := ink_le_span settings within.2.1 (line span List.mem_cons_self) inside quoted depth
      (trail.typeAll quoted (Utf16.slice (Utf16.encode text) position span.start))
    rw [text_typeAll, ink_append] at middle
    rw [replay_cons, slice_cons within, ink_append, ink_append]
    omega

/-! ## Where a line starts -/

lemma lineStart_around (marks : Marks) (inside : Bool → Nat → Trail → Trail) :
    (marks.around settings quoted depth kind value inside trail).lineStart = false := by
  cases marks with
  | quote =>
    rw [Marks.around]
    unfold Trail.quoteStop
    split <;> rfl
  | _ => rfl

/-- No line starts behind a span, if none does behind a custom emoji. -/
lemma lineStart_replaySpan {span : Span} {inner : Forest}
    (formats : bare settings span.entity.kind (written settings text span.start span.stop inner) =
      (span.entity.kind.isFormatting &&
        isEmojiLink (written settings text span.start span.stop inner)))
    (inside : isEmojiLink (written settings text span.start span.stop inner) = true →
      ∀ trail, (replay settings text quoted depth span.start span.stop inner trail).lineStart =
        false) (trail : Trail) :
    (replaySpan settings text quoted depth span inner trail).lineStart = false := by
  unfold replaySpan
  dsimp only
  split
  · rename_i isBare
    rw [formats, Bool.and_eq_true] at isBare
    exact inside isBare.2 trail
  · exact lineStart_around _ _

/-- No line starts behind what looks like a custom emoji. -/
lemma lineStart_of_isEmojiLink (formats : Formats settings forest)
    (emoji : isEmojiLink (written settings text position limit forest) = true) (trail : Trail) :
    (replay settings text quoted depth position limit forest trail).lineStart = false := by
  induction forest generalizing position limit trail with
  | nil =>
    rw [written_nil, isEmojiLink_quote] at emoji
    cases emoji
  | cons span inner after ihInner _ =>
    obtain ⟨-, behind, -⟩ := span_of_isEmojiLink (formats span List.mem_cons_self _) emoji
    cases after with
    | cons next _ _ =>
      exact absurd behind (written_cons_ne_nil (formats.after next List.mem_cons_self _) _)
    | nil =>
      rw [written_nil, quote_eq_nil] at behind
      rw [replay_cons, replay, behind]
      exact lineStart_replaySpan (formats span List.mem_cons_self _)
        (fun inside => ihInner formats.inner inside) _

/-! ## No more ink than there was -/

/-- Marks that add no more ink than there is inside them are read for what they are. -/
lemma around_of_ink_le {inside : Bool → Nat → Trail → Trail} {least : Nat}
    (line : ∀ language, kind = .pre language → '\n' ∉ language)
    (adds : ∀ quoted depth trail, ink trail.gathered.text + least ≤
      ink (inside quoted depth trail).gathered.text)
    (noMore : ink ((marksOf raw kind).around settings quoted depth kind value inside
      trail).gathered.text ≤ ink trail.gathered.text + least) :
    (kind.isCode = true → ink (unescape value) ≤ least) ∧
      (kind = .blockquote → trail.lineStart = true) ∧
      (kind.isCode = false → ∃ quoted depth before, before.lineStart = false ∧
        ink (inside quoted depth before).gathered.text ≤ ink before.gathered.text + least) := by
  cases hmarks : marksOf raw kind with
  | doubled c delimiter =>
    have switched (trail : Trail) : (trail.mark (Reading.switch delimiter kind)).gathered.text =
        trail.gathered.text := text_switch delimiter kind _
    have formatting : kind.isCode = false ∧ kind ≠ .blockquote := by
      cases kind <;> simp [marksOf] at hmarks <;> simp [Kind.isCode]
    rw [hmarks, Marks.around, switched, ← switched trail] at noMore
    exact ⟨by simp [formatting.1], fun quote => absurd quote formatting.2,
      fun _ => ⟨_, _, _, rfl, noMore⟩⟩
  | code =>
    obtain rfl := marksOf_eq_code hmarks
    have := ink_le_code quoted value trail
    rw [hmarks, Marks.around] at noMore
    exact ⟨fun _ => by omega, by simp, by simp [Kind.isCode]⟩
  | block language =>
    obtain rfl := marksOf_eq_block hmarks
    have := ink_le_block (line language rfl) quoted value trail
    rw [hmarks, Marks.around] at noMore
    exact ⟨fun _ => by omega, by simp, by simp [Kind.isCode]⟩
  | quote =>
    obtain rfl := marksOf_eq_quote hmarks
    have started := ink_quoteStart trail
    have stopped := ink_le_quoteStop (inside true depth trail.quoteStart)
    have := adds true depth trail.quoteStart
    rw [hmarks, Marks.around] at noMore
    have starts : trail.lineStart = true := by
      by_contra noLine
      rw [if_neg noLine] at started
      omega
    rw [if_pos starts] at started
    have mark : trail.quoteStart.lineStart = false := by
      unfold Trail.quoteStart
      split <;> rfl
    exact ⟨by simp [Kind.isCode], fun _ => starts,
      fun _ => ⟨true, depth, trail.quoteStart, mark, by omega⟩⟩
  | link target =>
    have started : (trail.linkStart depth).gathered.text = trail.gathered.text :=
      Gathering.text_start _ _ _
    have other : kind.isCode = false ∧ kind ≠ .blockquote := by
      cases kind <;> simp [marksOf] at hmarks <;> simp [Kind.isCode]
    rw [hmarks, Marks.around, text_linkStop, ← started] at noMore
    exact ⟨by simp [other.1], fun quote => absurd quote other.2, fun _ => ⟨_, _, _, rfl, noMore⟩⟩

/-- A block quote before which a line starts is behind text or in a `fresh` stretch, if elsewhere
lines start only before what looks like a custom emoji. -/
lemma fresh_or_text {span : Span} {inner after : Forest}
    (formats : Formats settings (.cons span inner after))
    (shown : bare settings span.entity.kind
      (written settings text span.start span.stop inner) = false)
    (isQuote : span.entity.kind = .blockquote)
    (stale : fresh = false → trail.lineStart = true →
      isEmojiLink (written settings text position limit (.cons span inner after)) = true)
    (starts : (trail.typeAll quoted
      (Utf16.slice (Utf16.encode text) position span.start)).lineStart = true) :
    fresh = true ∨ Utf16.slice (Utf16.encode text) position span.start ≠ [] := by
  by_contra nothingBefore
  rw [not_or, not_ne_iff, Bool.not_eq_true] at nothingBefore
  rw [nothingBefore.2] at starts
  obtain ⟨-, -, ⟨formatting, inside⟩ | ⟨isLink, -⟩⟩ := span_of_isEmojiLink
    (formats span List.mem_cons_self _) (stale nothingBefore.1 starts)
  · rw [formats span List.mem_cons_self, formatting, inside] at shown
    cases shown
  · rw [isQuote] at isLink
    cases isLink

/-- Where a line starts behind what was typed, one starts in the text. -/
lemma startsLine_of_lineStart {start : Nat} (first : position ≤ start)
    (opens : Utf16.slice (Utf16.encode text) position start = [] → StartsLine text position)
    (starts : (trail.typeAll quoted
      (Utf16.slice (Utf16.encode text) position start)).lineStart = true) :
    StartsLine text start := by
  have parts := Utf16.upTo_append_slice first text
  rw [StartsLine, ← parts]
  rcases List.eq_nil_or_concat (Utf16.slice (Utf16.encode text) position start) with
    empty | ⟨front, c, gap⟩
  · rw [empty, List.append_nil]
    exact opens empty
  · have ends : c = '\n' := by
      rw [gap, Trail.typeAll, List.concat_eq_append, List.foldl_append, List.foldl_cons,
        List.foldl_nil, Trail.type] at starts
      split at starts
      · cases starts
      · exact eq_of_beq starts
    rw [gap, List.concat_eq_append, ← List.append_assoc, List.getLast?_concat, ends]
    rfl

/-- **A nesting that leaves no mark in the text can be said.** -/
lemma sayable_of_ink_le (formats : Formats settings forest)
    (within : forest.Within position limit)
    (line : ∀ span ∈ forest.spans, ∀ language, span.entity.kind = .pre language →
      '\n' ∉ language)
    (opens : fresh = true → StartsLine text position)
    (stale : fresh = false → trail.lineStart = true →
      isEmojiLink (written settings text position limit forest) = true)
    (noMore : ink (replay settings text quoted depth position limit forest trail).gathered.text ≤
      ink trail.gathered.text + ink (Utf16.slice (Utf16.encode text) position limit)) :
    Sayable settings text fresh position forest := by
  induction forest generalizing fresh quoted depth position limit trail with
  | nil => trivial
  | cons span inner after ihInner ihAfter =>
    have lineSpan := line span List.mem_cons_self
    have lineInner (enclosed : Span) (member : enclosed ∈ inner.spans) :=
      line enclosed (by simp [member])
    have lineAfter (following : Span) (member : following ∈ after.spans) :=
      line following (by simp [member])
    have adds := ink_replay settings text within.2.1 lineInner
    obtain ⟨before, hbefore⟩ : ∃ before, before =
      trail.typeAll quoted (Utf16.slice (Utf16.encode text) position span.start) := ⟨_, rfl⟩
    have gap : ink before.gathered.text = ink trail.gathered.text +
        ink (Utf16.slice (Utf16.encode text) position span.start) := by
      rw [hbefore, text_typeAll, ink_append]
    have middle := ink_le_span settings within.2.1 lineSpan adds quoted depth before
    have behind := ink_replay settings text within.2.2 lineAfter quoted depth
      (replaySpan settings text quoted depth span inner before)
    rw [replay_cons, ← hbefore, slice_cons within, ink_append, ink_append] at noMore
    -- each part adds what it has to, and so none adds more
    have exactSpan : ink (replaySpan settings text quoted depth span inner before).gathered.text ≤
        ink before.gathered.text + ink (covered text span) := by omega
    have noLine := @lineStart_replaySpan settings text quoted depth span inner
      (formats span List.mem_cons_self _)
      (fun emoji => lineStart_of_isEmojiLink formats.inner emoji) before
    have exactAfter : ink (replay settings text quoted depth span.stop limit after
        (replaySpan settings text quoted depth span inner before)).gathered.text ≤
          ink (replaySpan settings text quoted depth span inner before).gathered.text +
            ink (Utf16.slice (Utf16.encode text) span.stop limit) := by omega
    have sayableAfter : Sayable settings text false span.stop after :=
      ihAfter formats.after within.2.2 lineAfter (by simp)
        (fun _ starts => absurd (noLine.symm.trans starts) Bool.false_ne_true) exactAfter
    unfold replaySpan at exactSpan
    dsimp only at exactSpan
    split at exactSpan
    · rename_i isBare
      have emoji := isBare
      rw [formats span List.mem_cons_self, Bool.and_eq_true] at emoji
      refine ⟨lineSpan, fun shown => absurd (shown.symm.trans isBare) Bool.false_ne_true, ?_,
        sayableAfter⟩
      exact ihInner formats.inner within.2.1 lineInner (by simp) (fun _ _ => emoji.2) exactSpan
    · rename_i shown
      obtain ⟨code, quote, other⟩ := around_of_ink_le lineSpan adds exactSpan
      have alone (isCode : span.entity.kind.isCode = true) : inner = .nil := by
        by_contra marked
        exact Nat.not_lt.2 (code isCode) (ink_lt_written formats.inner within.2.1 marked)
      rw [hbefore] at quote
      refine ⟨lineSpan, fun shown => ⟨alone, fun isQuote => ?_⟩, ?_, sayableAfter⟩
      · have known := fresh_or_text formats shown isQuote stale (quote isQuote)
        exact ⟨known, startsLine_of_lineStart within.1
          (fun empty => opens (known.resolve_right (not_not_intro empty))) (quote isQuote)⟩
      · cases isCode : span.entity.kind.isCode with
        | true =>
          rw [alone isCode]
          trivial
        | false =>
          obtain ⟨_, _, inside, noLine, exactInside⟩ := other isCode
          exact ihInner formats.inner within.2.1 lineInner (by simp)
            (fun _ starts => absurd (noLine.symm.trans starts) Bool.false_ne_true) exactInside

/-- **A text that comes back shows that its nesting can be said**, if its marks are read one by
one. -/
lemma sayable_of_text_read {entities : List Entity}
    (formats : Formats settings (Forest.ofEntities (Utf16.unitCount text) entities))
    (line : ∀ entity ∈ entities, ∀ language, entity.kind = .pre language → '\n' ∉ language)
    (isSealed : Sealed settings text false (Forest.ofEntities (Utf16.unitCount text) entities))
    (same : (read settings (style.write settings text entities)).text = text) :
    Sayable settings text true 0 (Forest.ofEntities (Utf16.unitCount text) entities) := by
  have within : (Forest.ofEntities (Utf16.unitCount text) entities).Within 0
      (Utf16.unitCount text) := Forest.within_nest (Nat.zero_le _) _
  have inks := congrArg ink same
  rw [read, Message.text_trim, ink_trim, write_eq_written, gathered_ofSource isSealed] at inks
  refine sayable_of_ink_le formats within
    (fun span member => line span.entity (Forest.entity_mem_of_mem_spans member))
    (fun _ => by rw [StartsLine, Utf16.upTo_zero]; rfl) (fun stale => absurd stale (by decide))
    (Nat.le_of_eq (inks.trans ?_))
  rw [← Utf16.length_encode, Utf16.slice_all, Gathering.text_empty]
  exact (Nat.zero_add _).symm

end RichText.Markdown
