import Mathlib.Data.List.Basic
import Mathlib.Tactic.Lemma
import RichText.Proofs.Markdown.Replay

/-!
# What looks like a custom emoji

The writer of Markdown leaves formatting out where its content looks like one custom emoji, which
it tells by the source alone (`isEmojiLink`).  What looks so is not always one: any link will do
whose target is that of a custom emoji, such as an address `emoji/5` or one with more digits than
a document can have.  Nor does a custom emoji always look like one (`isEmojiLink_emoji`).

`holdsEmoji` says on the nesting itself when this happens: a stretch is covered by such a link, and
by nothing else but formatting around it, and what the link covers holds no closing bracket, no
link and no code block whose language has a closing bracket (`isEmojiLink_written`).
-/

namespace RichText.Markdown

/-! ## The source of one link -/

/-- Whether a target is that of a custom emoji, whatever the number of its digits. -/
def isEmojiTarget (target : Text) : Bool :=
  (Text.after? emojiTarget target).any fun digits => !digits.isEmpty && digits.all isDigit

lemma isEmojiTarget_iff {target : Text} : isEmojiTarget target = true ↔
    ∃ digits, target = emojiTarget ++ digits ∧ digits ≠ [] ∧ digits.all isDigit = true := by
  rw [isEmojiTarget, Option.any_eq_true]
  constructor
  · rintro ⟨digits, after, numeral⟩
    rw [Bool.and_eq_true, Bool.not_eq_true', List.isEmpty_eq_false_iff] at numeral
    exact ⟨digits, Text.eq_append_of_after? after, numeral⟩
  · rintro ⟨digits, rfl, numeral⟩
    refine ⟨digits, Text.after?_append _ _, ?_⟩
    rwa [Bool.and_eq_true, Bool.not_eq_true', List.isEmpty_eq_false_iff]

/-- The target of a custom emoji has nothing to escape, and no parenthesis. -/
lemma plain_of_isEmojiTarget {target : Text} (h : isEmojiTarget target = true) :
    ∀ c ∈ target, c ∉ escapedInTargets := by
  obtain ⟨digits, rfl, -, numeral⟩ := isEmojiTarget_iff.1 h
  intro c member marked
  simp only [escapedInTargets, List.mem_cons, List.not_mem_nil, or_false] at marked
  rcases List.mem_append.1 member with inHead | inDigits
  · revert inHead
    rcases marked with rfl | rfl | rfl | rfl | rfl <;> decide
  · have digit := List.all_eq_true.1 numeral c inDigits
    revert digit
    rcases marked with rfl | rfl | rfl | rfl | rfl <;> decide

lemma isEmojiTarget_escapeTarget (target : Text) :
    isEmojiTarget (escapeTarget target) = isEmojiTarget target := by
  rw [Bool.eq_iff_iff]
  constructor
  · intro h
    have plain := escapeTarget_of_forall (plain_of_isEmojiTarget h)
    have same := congrArg unescape plain
    rw [unescape_escapeTarget, unescape_escapeTarget] at same
    rwa [same] at h
  · intro h
    rwa [escapeTarget_of_forall (plain_of_isEmojiTarget h)]

lemma link_append (value target rest : Text) :
    link value target ++ rest = '[' :: (value ++ ']' :: '(' :: (target ++ ')' :: rest)) := by
  simp [link]

/-- What looks like a custom emoji is a link. -/
lemma exists_link_of_isEmojiLink {value : Text} (h : isEmojiLink value = true) :
    ∃ label target, value = link label target ∧ ']' ∉ label ∧ isEmojiTarget target = true := by
  unfold isEmojiLink at h
  split at h
  · rename_i rest
    obtain ⟨digits, found, numeral⟩ := (Option.any_eq_true _ _).1 h
    obtain ⟨behind, hbehind, hdigits⟩ := Option.bind_eq_some_iff.1 found
    have start := Text.eq_append_of_after? hbehind
    have stop := Text.eq_append_of_before? hdigits
    have parts := @List.takeWhile_append_dropWhile _ (· ≠ ']') rest
    obtain ⟨label, hlabel⟩ : ∃ label, label = rest.takeWhile (· ≠ ']') := ⟨_, rfl⟩
    rw [start, stop, ← hlabel] at parts
    refine ⟨label, emojiTarget ++ digits, ?_, ?_, ?_⟩
    · rw [← List.append_nil (link _ _), link_append, ← parts]
      simp
    · intro member
      rw [hlabel] at member
      have other := List.all_eq_true.1 List.all_takeWhile ']' member
      simp at other
    · rw [isEmojiTarget, Text.after?_append]
      exact numeral
  · simp at h

/-- **A link looks like a custom emoji by its target**, if nothing stands behind it and no bracket
in its text. -/
lemma isEmojiLink_link_append {value target rest : Text} :
    isEmojiLink (link value target ++ rest) = true ↔
      rest = [] ∧ ']' ∉ value ∧ isEmojiTarget target = true := by
  constructor
  · intro h
    obtain ⟨label, other, same, noBracket, emoji⟩ := exists_link_of_isEmojiLink h
    have plain := plain_of_isEmojiTarget emoji
    have noStop : ')' ∉ other := fun member => plain ')' member (by decide)
    have noBehind : ']' ∉ '(' :: (other ++ [')']) := by
      have inTarget : ']' ∉ other := fun member => plain ']' member (by decide)
      simp [inTarget]
    -- the first closing bracket and the first closing parenthesis are where they seem to be
    rw [← List.append_nil (link label other), link_append, link_append] at same
    obtain ⟨rfl, -, behind⟩ :=
      (List.append_cons_inj_of_notMem noBracket noBehind).1 (List.cons.inj same).2.symm
    obtain ⟨rfl, -, rfl⟩ :=
      (List.append_cons_inj_of_notMem noStop List.not_mem_nil).1 (List.cons.inj behind).2
    exact ⟨rfl, noBracket, emoji⟩
  · rintro ⟨rfl, noBracket, emoji⟩
    obtain ⟨digits, rfl, filled, numeral⟩ := isEmojiTarget_iff.1 emoji
    have label : (value ++ ']' :: '(' :: (emojiTarget ++ digits ++ [')'])).dropWhile (· ≠ ']') =
        [']', '('] ++ emojiTarget ++ (digits ++ [')']) := by
      rw [List.dropWhile_append_of_pos, List.dropWhile_cons_of_neg (by simp)]
      · simp
      · intro c member
        simpa using fun same : c = ']' => noBracket (same ▸ member)
    rw [link_append]
    simp only [isEmojiLink, label, Text.after?_append, Option.bind_some, Text.before?_append,
      Option.any_some, numeral, Bool.and_true, Bool.not_eq_true', List.isEmpty_eq_false_iff]
    exact filled

/-! ## Brackets in what is written -/

variable {settings : Settings} {text : Text} {position limit : Nat}

/-- The marks have no closing bracket. -/
def Marks.unbracketed : Marks → Bool
  | .link _ => false
  | .block language => !language.contains ']'
  | _ => true

/-- Neither the text of a stretch nor the marks within it have a closing bracket. -/
def unbracketed (text : Text) (position limit : Nat) (forest : Forest) : Bool :=
  !(Utf16.slice (Utf16.encode text) position limit).contains ']' &&
    forest.spans.all fun span => (marksOf (covered text span) span.entity.kind).unbracketed

lemma bracket_mem_quoteFrom (lineStart : Bool) (piece : Text) :
    ']' ∈ quoteFrom lineStart piece ↔ ']' ∈ piece := by
  induction piece generalizing lineStart with
  | nil => rfl
  | cons c rest ih =>
    rw [quoteFrom, List.mem_append, ih, List.mem_cons]
    split <;> simp

lemma bracket_mem_inQuote (quoted : Bool) (value : Text) :
    ']' ∈ inQuote quoted value ↔ ']' ∈ value := by
  induction value with
  | nil => rw [inQuote_nil]
  | cons c rest ih =>
    by_cases marked : c = '\n' ∧ quoted = true
    · obtain ⟨rfl, rfl⟩ := marked
      rw [inQuote_cons, List.mem_append, ih, inQuote_line]
      simp
    · have single : inQuote quoted [c] = [c] := by
        by_cases line : c = '\n'
        · rw [Bool.eq_false_iff.2 fun isQuote => marked ⟨line, isQuote⟩, inQuote_false]
        · rw [inQuote_cons_of_ne line, inQuote_nil]
      rw [inQuote_cons, single, List.mem_append, ih, List.mem_singleton, List.mem_cons]

lemma bracket_notMem_write {raw value : Text} (kind : Kind) :
    ']' ∉ (marksOf raw kind).write value ↔
      (marksOf raw kind).unbracketed = true ∧ ']' ∉ value := by
  cases hmarks : marksOf raw kind with
  | doubled c delimiter =>
    have plain := (Reading.doubled?_eq_some (marksOf_doubled hmarks)).1
    simp only [List.mem_cons, List.not_mem_nil, or_false, not_or] at plain
    simp [Marks.write, Marks.unbracketed, between, Ne.symm plain.2.2.2.2.2.2]
  | code => simp [Marks.write, Marks.unbracketed, between]
  | block language =>
    simp [Marks.write, Marks.unbracketed, fence, blockInside, quote, bracket_mem_quoteFrom]
  | quote => simp [Marks.write, Marks.unbracketed, quoteEnd, bracket_mem_inQuote]
  | link target => simp [Marks.write, Marks.unbracketed, link]

lemma unbracketed_of_isFormatting {raw : Text} {kind : Kind} (h : kind.isFormatting = true) :
    (marksOf raw kind).unbracketed = true := by
  cases kind <;> simp [Kind.isFormatting] at h <;> rfl

lemma unbracketed_cons {span : Span} {inner after : Forest} (first : position ≤ span.start)
    (hinner : inner.Within span.start span.stop) (hafter : after.Within span.stop limit) :
    unbracketed text position limit (.cons span inner after) = true ↔
      ']' ∉ Utf16.slice (Utf16.encode text) position span.start ∧
        ((marksOf (covered text span) span.entity.kind).unbracketed = true ∧
          unbracketed text span.start span.stop inner = true) ∧
        unbracketed text span.stop limit after = true := by
  have parts := @Utf16.slice_append text _ _ _ first (hinner.le.trans hafter.le)
  rw [← @Utf16.slice_append text _ _ _ hinner.le hafter.le] at parts
  simp only [unbracketed, ← parts, Forest.spans_cons, List.all_cons, List.all_append,
    Bool.and_eq_true, Bool.not_eq_true', List.contains_eq_mem, decide_eq_false_iff_not,
    List.mem_append, not_or]
  tauto

/-- **Closing brackets in what is written** are those of the text and of the marks. -/
lemma bracket_notMem_written (enabled : settings.customEmoji = true) {forest : Forest}
    (within : forest.Within position limit) :
    ']' ∉ written settings text position limit forest ↔
      unbracketed text position limit forest = true := by
  induction forest generalizing position limit with
  | nil =>
    rw [written_nil, quote, bracket_mem_quoteFrom]
    simp [unbracketed]
  | cons span inner after ihInner ihAfter =>
    obtain ⟨first, hinner, hafter⟩ := within
    rw [written_cons, unbracketed_cons first hinner hafter, List.mem_append,
      List.mem_append, not_or, not_or, quote, bracket_mem_quoteFrom, ihAfter hafter, and_assoc]
    refine and_congr_right' (and_congr_left' ?_)
    split
    · rename_i dropped
      rw [bare_eq enabled, Bool.and_eq_true] at dropped
      rw [unbracketed_of_isFormatting dropped.1, ihInner hinner]
      simp
    · rw [bracket_notMem_write, ihInner hinner]

/-- **A custom emoji does not always look like one**: its document must not be negative, and its
text must be free of closing brackets, although these are escaped. -/
lemma isEmojiLink_emoji (piece : Text) (documentId : Int) :
    isEmojiLink (style.emoji (style.plain piece) documentId) = true ↔
      0 ≤ documentId ∧ ']' ∉ piece := by
  have placeholder : style.emoji (style.plain piece) documentId =
      link (quote piece) (emojiTarget ++ Numeral.ofInt documentId) ++ [] := (List.append_nil _).symm
  rw [placeholder, isEmojiLink_link_append, isEmojiTarget, Text.after?_append, quote,
    bracket_mem_quoteFrom, ← Numeral.all_isDigit_ofInt]
  simp [Numeral.ofInt_ne_nil, and_comm]

/-! ## Stretches that look like a custom emoji -/

/-- A link over a text has the target of a custom emoji. -/
def Marks.isEmoji : Marks → Bool
  | .link target => isEmojiTarget target
  | _ => false

/-- The stretch holds a link to a custom emoji with a text free of brackets, with formatting around
it and nothing else. -/
def holdsEmoji (text : Text) (position limit : Nat) : Forest → Bool
  | .cons span inner .nil =>
    span.start == position && span.stop == limit &&
      (span.entity.kind.isFormatting && holdsEmoji text span.start span.stop inner ||
        (marksOf (covered text span) span.entity.kind).isEmoji &&
          unbracketed text span.start span.stop inner)
  | _ => false

lemma head?_quoteFrom_ne (lineStart : Bool) (piece : Text) :
    (quoteFrom lineStart piece).head? ≠ some '[' := by
  cases piece with
  | nil => simp [quoteFrom]
  | cons c rest =>
    rw [quoteFrom]
    split
    · simp
    · rename_i plain
      intro bracket
      have same : c = '[' := by simpa using bracket
      exact plain (by simp [same, alwaysEscaped])

lemma head?_of_isEmojiLink {value : Text} (h : isEmojiLink value = true) :
    value.head? = some '[' := by
  obtain ⟨label, target, rfl, -⟩ := exists_link_of_isEmojiLink h
  simp [link]

lemma isEmojiLink_quote (piece : Text) : isEmojiLink (quote piece) = false :=
  Bool.eq_false_iff.2 fun emoji => head?_quoteFrom_ne true piece (head?_of_isEmojiLink emoji)

lemma marks_of_bracket {raw value rest : Text} {kind : Kind}
    (h : ((marksOf raw kind).write value ++ rest).head? = some '[') :
    ∃ target, marksOf raw kind = .link target := by
  cases hmarks : marksOf raw kind with
  | link target => exact ⟨target, rfl⟩
  | doubled c delimiter =>
    have plain := (Reading.doubled?_eq_some (marksOf_doubled hmarks)).1
    rw [hmarks] at h
    have same : c = '[' := by simpa [Marks.write, between] using h
    exact absurd (by simp [same]) plain
  | code => simp [hmarks, Marks.write, between] at h
  | block language => simp [hmarks, Marks.write, fence] at h
  | quote => simp [hmarks, Marks.write] at h

lemma isFormatting_of_link {raw target : Text} {kind : Kind}
    (h : marksOf raw kind = .link target) : kind.isFormatting = false := by
  cases kind <;> first | rfl | simp [marksOf] at h

/-- A span looks like a custom emoji if it is formatting around what does, or the link of one. -/
lemma isEmojiLink_span {raw value rest : Text} {kind : Kind}
    (formats : bare settings kind value = (kind.isFormatting && isEmojiLink value)) :
    isEmojiLink ((if bare settings kind value then value
        else (marksOf raw kind).write value) ++ rest) = true ↔
      rest = [] ∧ (kind.isFormatting = true ∧ isEmojiLink value = true ∨
        (marksOf raw kind).isEmoji = true ∧ ']' ∉ value) := by
  constructor
  · intro emoji
    split at emoji
    · rename_i dropped
      rw [formats, Bool.and_eq_true] at dropped
      obtain ⟨label, target, rfl, -⟩ := exists_link_of_isEmojiLink dropped.2
      exact ⟨(isEmojiLink_link_append.1 emoji).1, .inl dropped⟩
    · obtain ⟨target, hmarks⟩ := marks_of_bracket (head?_of_isEmojiLink emoji)
      rw [hmarks, Marks.write, isEmojiLink_link_append, isEmojiTarget_escapeTarget] at emoji
      rw [hmarks]
      exact ⟨emoji.1, .inr ⟨emoji.2.2, emoji.2.1⟩⟩
  · rintro ⟨rfl, ⟨formatting, emoji⟩ | ⟨emoji, noBracket⟩⟩
    · rw [formats, formatting, emoji, List.append_nil]
      exact emoji
    · cases hmarks : marksOf raw kind with
      | link target =>
        rw [hmarks] at emoji
        rw [formats, isFormatting_of_link hmarks, Bool.false_and, if_neg Bool.false_ne_true,
          Marks.write, isEmojiLink_link_append, isEmojiTarget_escapeTarget]
        exact ⟨rfl, noBracket, emoji⟩
      | _ => simp [hmarks, Marks.isEmoji] at emoji

/-- A stretch that looks like a custom emoji is one span, with nothing written beside it: formatting
around what looks like one, or the link of one. -/
lemma span_of_isEmojiLink {span : Span} {inner after : Forest}
    (formats : bare settings span.entity.kind (written settings text span.start span.stop inner) =
      (span.entity.kind.isFormatting &&
        isEmojiLink (written settings text span.start span.stop inner)))
    (emoji : isEmojiLink (written settings text position limit (.cons span inner after)) = true) :
    Utf16.slice (Utf16.encode text) position span.start = [] ∧
      written settings text span.stop limit after = [] ∧
      (span.entity.kind.isFormatting = true ∧
          isEmojiLink (written settings text span.start span.stop inner) = true ∨
        (marksOf (covered text span) span.entity.kind).isEmoji = true ∧
          ']' ∉ written settings text span.start span.stop inner) := by
  rw [written_cons, List.append_assoc] at emoji
  have empty : Utf16.slice (Utf16.encode text) position span.start = [] := by
    have head := head?_of_isEmojiLink emoji
    cases hgap : quote (Utf16.slice (Utf16.encode text) position span.start) with
    | nil => exact quote_eq_nil.1 hgap
    | cons c rest =>
      have gap := head?_quoteFrom_ne true (Utf16.slice (Utf16.encode text) position span.start)
      rw [hgap] at head
      rw [← quote, hgap] at gap
      exact absurd head gap
  rw [empty, quote_eq_nil.2 rfl, List.nil_append, isEmojiLink_span formats] at emoji
  exact ⟨empty, emoji⟩

/-- **What looks like a custom emoji holds the link of one.** -/
lemma isEmojiLink_written (enabled : settings.customEmoji = true) {inside : Entity → Entity → Prop}
    {forest : Forest} (hforest : forest.Matches inside position limit)
    (hposition : Utf16.Between text position) (hlimit : Utf16.Between text limit)
    (hspans : ∀ span ∈ forest.spans,
      Utf16.Between text span.start ∧ Utf16.Between text span.stop) :
    isEmojiLink (written settings text position limit forest) = true ↔
      holdsEmoji text position limit forest = true := by
  induction forest generalizing position limit with
  | nil =>
    rw [written_nil, holdsEmoji]
    · refine ⟨fun emoji => ?_, fun absurdity => absurd absurdity Bool.false_ne_true⟩
      exact absurd (head?_of_isEmojiLink emoji) (head?_quoteFrom_ne true _)
    · simp
  | cons span inner after ihInner ihAfter =>
    obtain ⟨first, filled, -, -, -, hinner, hafter⟩ := hforest
    obtain ⟨hstart, hstop⟩ := hspans span List.mem_cons_self
    have insideIt := ihInner hinner hstart hstop
      fun enclosed member => hspans enclosed (by simp [member])
    have noBracket := @bracket_notMem_written settings text _ _ enabled inner hinner.within
    constructor
    · intro emoji
      obtain ⟨empty, behind, holds⟩ := span_of_isEmojiLink (bare_eq enabled _ _) emoji
      rw [insideIt, noBracket] at holds
      have start := (Utf16.slice_eq_nil_iff hposition hstart first).1 empty
      cases after with
      | cons next _ _ => exact absurd behind (written_cons_ne_nil (bare_eq enabled _ _) _)
      | nil =>
        rw [written_nil, quote_eq_nil] at behind
        have stop := (Utf16.slice_eq_nil_iff hstop hlimit hafter).1 behind
        rw [holdsEmoji]
        simpa [start, stop] using holds
    · intro holds
      cases after with
      | cons next _ _ => simp [holdsEmoji] at holds
      | nil =>
        simp only [holdsEmoji, Bool.and_eq_true, beq_iff_eq, Bool.or_eq_true] at holds
        obtain ⟨⟨rfl, rfl⟩, holds⟩ := holds
        rw [written_cons, written_nil, Utf16.slice_of_le (Nat.le_refl _),
          Utf16.slice_of_le (Nat.le_refl _), quote_eq_nil.2 rfl, List.nil_append,
          isEmojiLink_span (bare_eq enabled _ _), insideIt, noBracket]
        exact ⟨rfl, holds⟩

end RichText.Markdown
