import Mathlib.Tactic.Lemma
import RichText.Proofs.Forests
import RichText.Proofs.Markdown.LinkTrails
import RichText.Proofs.Markdown.MarkTrails
import RichText.Proofs.Numerals

/-!
# Reading a written forest

What the writer of Markdown makes of a nesting is read span by span, in the order it was written
in.  `replay` says what that does to the trail of a reading: text is typed, delimiters switch,
code is taken verbatim, a block quote starts where a line does, and a link takes the kind that its
target has.  The reader does just this, whatever was written before and comes behind
(`reads_written`).

It takes no more than that code encloses no backticks and a block quote no other (`Sealed`).  Whether
what is read is what was meant is another question, which the replay answers without a source.
-/

namespace RichText

/-- The kinds that take what they cover verbatim. -/
def Kind.isCode : Kind → Bool
  | code | pre _ => true
  | _ => false

namespace Markdown

/-! ## The marks of a kind -/

/-- What is written around an entity. -/
inductive Marks where
  | doubled (c : Char) (delimiter : Delimiter)
  | code
  | block (language : Text)
  | quote
  | link (target : Text)
  deriving DecidableEq, Repr

/-- The marks of a kind over a text. -/
def marksOf (raw : Text) : Kind → Marks
  | .bold => .doubled '*' .bold
  | .italic => .doubled '_' .italic
  | .underline => .doubled '+' .underline
  | .strike => .doubled '~' .strike
  | .spoiler => .doubled '|' .spoiler
  | .code => .code
  | .pre language => .block language
  | .blockquote => .quote
  | .textUrl url => .link url
  | .url => .link raw
  | .email => .link (mailTarget ++ raw)
  | .mentionName userId => .link (mentionTarget ++ Numeral.ofInt userId)
  | .customEmoji documentId => .link (emojiTarget ++ Numeral.ofInt documentId)

/-- The inside of a code block. -/
def blockInside (language value : Text) : Text := quote language ++ '\n' :: value

/-- Writes marks around a value. -/
def Marks.write (value : Text) : Marks → Text
  | .doubled c _ => between [c, c] value
  | .code => between ['\x60'] value
  | .block language => fence ++ blockInside language value ++ fence
  | .quote => ['>', ' '] ++ inQuote true value ++ quoteEnd
  | .link target => Markdown.link value (escapeTarget target)

/-- The entity is written as its value alone: formatting that would hold nothing but what looks
like a custom emoji, and a custom emoji where they are not written. -/
def bare (settings : Settings) (kind : Kind) (value : Text) : Bool :=
  match kind with
  | .customEmoji _ => !settings.customEmoji
  | _ => kind.isFormatting && isEmojiLink value

/-- Where custom emoji are written only formatting is left out. -/
lemma bare_eq {settings : Settings} (enabled : settings.customEmoji = true) (kind : Kind)
    (value : Text) : bare settings kind value = (kind.isFormatting && isEmojiLink value) := by
  cases kind <;> simp [bare, enabled, Kind.isFormatting]

lemma escapeTarget_of_forall {target : Text} (h : ∀ c ∈ target, c ∉ escapedInTargets) :
    escapeTarget target = target := by
  induction target with
  | nil => rfl
  | cons c rest ih =>
    have plain : escapedInTargets.contains c = false := by
      simpa using h c List.mem_cons_self
    have step : escapeTarget (c :: rest) =
        (if escapedInTargets.contains c then ['\\', c] else [c]) ++ escapeTarget rest := rfl
    rw [step, plain, if_neg (by decide), ih fun d member => h d (List.mem_cons_of_mem _ member)]
    rfl

/-- The targets of mentions and custom emoji hold nothing to escape. -/
lemma escapeTarget_identifier {head : Text} (h : head.all fun c => !escapedInTargets.contains c)
    (n : Int) : escapeTarget (head ++ Numeral.ofInt n) = head ++ Numeral.ofInt n := by
  refine escapeTarget_of_forall fun c member marked => ?_
  rcases List.mem_append.1 member with inHead | inNumeral
  · have plain := List.all_eq_true.1 h c inHead
    rw [List.contains_iff_mem.2 marked] at plain
    exact absurd plain (by decide)
  · have range := toNat_of_digit (Numeral.ofInt_characters n c inNumeral)
    simp only [escapedInTargets, List.mem_cons, List.not_mem_nil, or_false] at marked
    rcases marked with rfl | rfl | rfl | rfl | rfl <;> exact absurd range (by decide)

/-- **An entity is written with its marks**, unless it is bare. -/
lemma wrap_eq (settings : Settings) (entity : Entity) (value raw : Text) :
    style.wrap settings entity value raw =
      if bare settings entity.kind value then value
      else (marksOf raw entity.kind).write value := by
  obtain ⟨offset, length, kind⟩ := entity
  cases kind with
  | bold | italic | underline | strike | spoiler | code | blockquote =>
    simp [Style.wrap, style, bare, Kind.isFormatting, marksOf, Marks.write, inQuote]
  | textUrl | url | email =>
    simp [Style.wrap, style, bare, Kind.isFormatting, marksOf, Marks.write]
  | mentionName userId =>
    have plain := escapeTarget_identifier (by decide : mentionTarget.all _ = true) userId
    simp [Style.wrap, style, bare, Kind.isFormatting, marksOf, Marks.write, plain]
  | customEmoji documentId =>
    have plain := escapeTarget_identifier (by decide : emojiTarget.all _ = true) documentId
    cases enabled : settings.customEmoji <;>
      simp [Style.wrap, style, bare, marksOf, Marks.write, plain, enabled]
  | pre language =>
    simp only [Style.wrap, bare, Kind.isFormatting, marksOf, Marks.write, Bool.false_and,
      Bool.false_eq_true, if_false]
    split
    · rename_i empty
      rw [List.isEmpty_iff.1 empty]
      simp [style, blockInside, quote, quoteFrom]
    · simp [style, blockInside]

/-! ## What is written -/

variable {settings : Settings} {text : Text} {position limit : Nat}

/-- What is written for a forest over a text. -/
def written (settings : Settings) (text : Text) (position limit : Nat) (forest : Forest) : Text :=
  forest.write (style.writer settings) (Utf16.encode text) position limit

/-- The text that a span covers. -/
def covered (text : Text) (span : Span) : Text :=
  Utf16.slice (Utf16.encode text) span.start span.stop

lemma written_nil : written settings text position limit .nil =
    quote (Utf16.slice (Utf16.encode text) position limit) := Forest.writeGap_eq rfl text _ _

lemma written_cons (span : Span) (inner after : Forest) :
    written settings text position limit (.cons span inner after) =
      quote (Utf16.slice (Utf16.encode text) position span.start) ++
        (if bare settings span.entity.kind (written settings text span.start span.stop inner) then
          written settings text span.start span.stop inner
        else (marksOf (covered text span) span.entity.kind).write
          (written settings text span.start span.stop inner)) ++
        written settings text span.stop limit after := by
  have gap : Forest.writeGap (style.writer settings) (Utf16.encode text) position span.start =
      quote (Utf16.slice (Utf16.encode text) position span.start) :=
    Forest.writeGap_eq rfl text _ _
  rw [← wrap_eq, ← gap]
  rfl

lemma isEmojiLink_ne_nil {value : Text} (h : isEmojiLink value = true) : value ≠ [] := by
  rintro rfl
  simp [isEmojiLink] at h

lemma Marks.write_ne_nil (marks : Marks) (value : Text) : marks.write value ≠ [] := by
  cases marks <;> simp [Marks.write, between, fence, Markdown.link]

lemma quote_eq_nil {piece : Text} : quote piece = [] ↔ piece = [] := by
  constructor
  · intro empty
    have back := unescape_quoteFrom true piece
    rwa [show quoteFrom true piece = [] from empty, eq_comm] at back
  · rintro rfl
    rfl

/-- Where custom emoji are written, so is every span. -/
lemma written_cons_ne_nil {span : Span} {inner : Forest}
    (formats : bare settings span.entity.kind (written settings text span.start span.stop inner) =
      (span.entity.kind.isFormatting &&
        isEmojiLink (written settings text span.start span.stop inner))) (after : Forest) :
    written settings text position limit (.cons span inner after) ≠ [] := by
  rw [written_cons]
  split
  · rename_i emoji
    rw [formats, Bool.and_eq_true] at emoji
    simp [isEmojiLink_ne_nil emoji.2]
  · simp [Marks.write_ne_nil]

lemma marksOf_doubled {raw : Text} {kind : Kind} {c : Char} {delimiter : Delimiter}
    (h : marksOf raw kind = .doubled c delimiter) : doubled? c = some (delimiter, kind) := by
  cases kind <;> simp only [marksOf, Marks.doubled.injEq, reduceCtorEq] at h
  all_goals
    obtain ⟨rfl, rfl⟩ := h
    rfl

lemma balanced_of_all {piece : Text} (h : piece.all fun c => c != '\\' && c != '[' && c != ']') :
    Balanced piece := by
  refine balanced_of_free (free_of_forall fun c member => ?_)
  have plain := List.all_eq_true.1 h c member
  simpa [and_assoc] using plain

lemma balanced_quote (piece : Text) : Balanced (quote piece) :=
  balanced_of_free (free_quoteFrom (by simp [alwaysEscaped]) true piece)

/-- Marks around a balanced value leave it balanced. -/
lemma balanced_write {raw value : Text} (kind : Kind) (balanced : Balanced value) :
    Balanced ((marksOf raw kind).write value) := by
  cases hmarks : marksOf raw kind with
  | doubled c delimiter =>
    have mark : Balanced [c, c] := by
      have plain := (Reading.doubled?_eq_some (marksOf_doubled hmarks)).1
      simp only [List.mem_cons, List.not_mem_nil, or_false, not_or] at plain
      exact balanced_of_all (by simp [plain])
    exact (mark.append balanced).append mark
  | code =>
    have mark : Balanced ['\x60'] := balanced_of_all (by decide)
    exact (mark.append balanced).append mark
  | block language =>
    have line : Balanced ('\n' :: value) := (Balanced.plain (by decide)).append balanced
    exact ((balanced_of_all (by decide)).append ((balanced_quote language).append line)).append
      (balanced_of_all (by decide))
  | quote =>
    exact ((balanced_of_all (by decide)).append (balanced.inQuote true)).append
      (balanced_of_all (by decide))
  | link target =>
    have stop : Balanced (escapeTarget target) :=
      balanced_of_free ((free_escapeTarget target).mono (by simp))
    have text : Balanced ('[' :: value ++ [']']) := .brackets balanced
    have written : Markdown.link value (escapeTarget target) =
        '[' :: value ++ [']'] ++ (['('] ++ escapeTarget target ++ [')']) := by
      simp [Markdown.link]
    rw [Marks.write, written]
    exact text.append (((balanced_of_all (by decide)).append stop).append
      (balanced_of_all (by decide)))

/-- **What is written is balanced.** -/
lemma balanced_written (forest : Forest) (position limit : Nat) :
    Balanced (written settings text position limit forest) := by
  induction forest generalizing position limit with
  | nil =>
    rw [written_nil]
    exact balanced_quote _
  | cons span inner after ihInner ihAfter =>
    rw [written_cons]
    refine ((balanced_quote _).append ?_).append (ihAfter _ _)
    split
    · exact ihInner _ _
    · exact balanced_write _ (ihInner _ _)

/-! ## The replay -/

/-- What reading marks around a value does to a trail, within `depth` links, if `inside` is what
reading the value does. -/
def Marks.around (settings : Settings) (quoted : Bool) (depth : Nat) (kind : Kind) (value : Text)
    (inside : Bool → Nat → Trail → Trail) (trail : Trail) : Marks → Trail
  | .doubled _ delimiter =>
    (inside quoted depth (trail.mark (Reading.switch delimiter kind))).mark
      (Reading.switch delimiter kind)
  | .code => trail.code quoted value
  | .block language => trail.block quoted (blockInside language value)
  | .quote => (inside true depth trail.quoteStart).quoteStop
  | .link target =>
    (inside quoted (depth + 1) (trail.linkStart depth)).linkStop settings depth
      (inQuote quoted target)

/-- What reading a written forest does to a trail. -/
def replay (settings : Settings) (text : Text) (quoted : Bool) (depth position limit : Nat) :
    Forest → Trail → Trail
  | .nil, trail => trail.typeAll quoted (Utf16.slice (Utf16.encode text) position limit)
  | .cons span inner after, trail =>
    let value := written settings text span.start span.stop inner
    let inside := fun quoted depth => replay settings text quoted depth span.start span.stop inner
    let before := trail.typeAll quoted (Utf16.slice (Utf16.encode text) position span.start)
    replay settings text quoted depth span.stop limit after
      (if bare settings span.entity.kind value then inside quoted depth before
      else (marksOf (covered text span) span.entity.kind).around settings quoted depth
        span.entity.kind value inside before)

/-- The marks of every span that has some can be told from what they enclose: code encloses
something without backticks, and no block quote is within another, nor any where `quoted`. -/
def Sealed (settings : Settings) (text : Text) (quoted : Bool) : Forest → Prop
  | .nil => True
  | .cons span inner after =>
    let value := written settings text span.start span.stop inner
    (bare settings span.entity.kind value = false →
      (span.entity.kind.isCode = true → Free ['\x60'] value ∧ value ≠ []) ∧
        (span.entity.kind = .blockquote → quoted = false)) ∧
      Sealed settings text (quoted || span.entity.kind == .blockquote) inner ∧
      Sealed settings text quoted after

lemma marksOf_eq_code {raw : Text} {kind : Kind} (h : marksOf raw kind = .code) :
    kind = .code := by
  cases kind <;> first | rfl | simp [marksOf] at h

lemma marksOf_eq_block {raw language : Text} {kind : Kind}
    (h : marksOf raw kind = .block language) : kind = .pre language := by
  cases kind <;> simp [marksOf] at h
  rw [h]

lemma marksOf_eq_quote {raw : Text} {kind : Kind} (h : marksOf raw kind = .quote) :
    kind = .blockquote := by
  cases kind <;> first | rfl | simp [marksOf] at h

lemma inQuote_between {quoted : Bool} {mark : Text} (h : '\n' ∉ mark) (value : Text) :
    inQuote quoted (between mark value) = mark ++ inQuote quoted value ++ mark := by
  rw [between, inQuote_append, inQuote_append, inQuote_of_notMem h]

/-- Marks and their value are read for what they are. -/
lemma reads_around {raw value : Text} {kind : Kind} {inside : Bool → Nat → Trail → Trail}
    {quoted : Bool} {depth : Nat} (balanced : Balanced value)
    (code : kind.isCode = true → Free ['\x60'] value ∧ value ≠ [])
    (quote : kind = .blockquote → quoted = false)
    (reads : ∀ depth, Reads settings depth (quoted || kind == .blockquote)
      (quoted || kind == .blockquote) (inQuote (quoted || kind == .blockquote) value)
      (inside (quoted || kind == .blockquote) depth)) :
    Reads settings depth quoted quoted (inQuote quoted ((marksOf raw kind).write value))
      fun trail => (marksOf raw kind).around settings quoted depth kind value inside trail := by
  cases hmarks : marksOf raw kind with
  | doubled c delimiter =>
    have doubled := marksOf_doubled hmarks
    have plain := (Reading.doubled?_eq_some doubled).1
    have other : kind ≠ .blockquote := by
      rintro rfl
      simp [marksOf] at hmarks
    have toggle := reads_toggle doubled settings depth quoted
    have same : (quoted || kind == .blockquote) = quoted := by simp [other]
    rw [same] at reads
    rw [Marks.write, inQuote_between]
    · exact (toggle.append (reads depth)).append toggle
    · intro member
      simp only [List.mem_cons, List.not_mem_nil, or_false, or_self] at member
      exact plain (by simp [← member])
  | code =>
    obtain rfl := marksOf_eq_code hmarks
    obtain ⟨free, filled⟩ := code rfl
    exact reads_code settings depth quoted free filled
  | block language =>
    obtain rfl := marksOf_eq_block hmarks
    have language : Free ['\x60'] (Markdown.quote language) :=
      free_quoteFrom (by simp [alwaysEscaped]) true language
    exact reads_block settings depth quoted
      (language.append (.plain (by decide) (code rfl).1))
  | quote =>
    obtain rfl := marksOf_eq_quote hmarks
    obtain rfl := quote rfl
    exact ((reads_quoteStart settings depth).append (reads depth)).append
      (reads_quoteStop settings depth)
  | link target =>
    have other : kind ≠ .blockquote := by
      rintro rfl
      simp [marksOf] at hmarks
    have same : (quoted || kind == .blockquote) = quoted := by simp [other]
    rw [same] at reads
    exact reads_link balanced (reads (depth + 1))

/-- Text has no backticks of its own, as they are escaped. -/
lemma sealed_quote {piece : Text} (filled : piece ≠ []) :
    Free ['\x60'] (quote piece) ∧ quote piece ≠ [] :=
  ⟨free_quoteFrom (by simp [alwaysEscaped]) true _, fun empty => filled (quote_eq_nil.1 empty)⟩

/-- What may stand in a block quote may stand elsewhere. -/
lemma Sealed.unquoted {forest : Forest} {quoted : Bool} (h : Sealed settings text true forest) :
    Sealed settings text quoted forest := by
  induction forest generalizing quoted with
  | nil => trivial
  | cons span inner after ihInner ihAfter =>
    obtain ⟨marked, hinner, hafter⟩ := h
    exact ⟨fun shown => (marked shown).imp_right fun quote isQuote =>
        absurd (quote isQuote) (by decide), ihInner hinner, ihAfter hafter⟩

lemma Sealed.of_or {forest : Forest} {quoted more : Bool}
    (h : Sealed settings text (quoted || more) forest) : Sealed settings text quoted forest := by
  cases more with
  | true =>
    rw [Bool.or_true] at h
    exact h.unquoted
  | false =>
    rw [Bool.or_false] at h
    exact h

/-- What reading a written span does to a trail: what its inside does, within the marks of its
entity unless it is bare. -/
def replaySpan (settings : Settings) (text : Text) (quoted : Bool) (depth : Nat) (span : Span)
    (inner : Forest) (trail : Trail) : Trail :=
  let value := written settings text span.start span.stop inner
  let inside := fun quoted depth => replay settings text quoted depth span.start span.stop inner
  if bare settings span.entity.kind value then inside quoted depth trail
  else (marksOf (covered text span) span.entity.kind).around settings quoted depth
    span.entity.kind value inside trail

lemma replay_cons (quoted : Bool) (depth : Nat) (span : Span) (inner after : Forest)
    (trail : Trail) :
    replay settings text quoted depth position limit (.cons span inner after) trail =
      replay settings text quoted depth span.stop limit after
        (replaySpan settings text quoted depth span inner
          (trail.typeAll quoted (Utf16.slice (Utf16.encode text) position span.start))) := rfl

/-- A span is read for what it is if what is inside it is, in any quote and under any links. -/
lemma reads_span {span : Span} {inner : Forest} {quoted : Bool} (depth : Nat)
    (marked : bare settings span.entity.kind
        (written settings text span.start span.stop inner) = false →
      (span.entity.kind.isCode = true →
        Free ['\x60'] (written settings text span.start span.stop inner) ∧
          written settings text span.start span.stop inner ≠ []) ∧
      (span.entity.kind = .blockquote → quoted = false))
    (isSealed : Sealed settings text (quoted || span.entity.kind == .blockquote) inner)
    (inside : ∀ quoted depth, Sealed settings text quoted inner → Reads settings depth quoted quoted
      (inQuote quoted (written settings text span.start span.stop inner))
      (replay settings text quoted depth span.start span.stop inner)) :
    Reads settings depth quoted quoted
      (inQuote quoted (style.wrap settings span.entity
        (written settings text span.start span.stop inner) (covered text span)))
      (replaySpan settings text quoted depth span inner) := by
  unfold replaySpan
  rw [wrap_eq]
  dsimp only
  split
  · exact inside quoted depth isSealed.of_or
  · rename_i shown
    obtain ⟨code, quote⟩ := marked (Bool.eq_false_iff.2 shown)
    exact reads_around (balanced_written inner _ _) code quote fun depth => inside _ depth isSealed

/-- **The reader replays what is written.** -/
lemma reads_written (settings : Settings) (forest : Forest) (quoted : Bool)
    (depth position limit : Nat) (h : Sealed settings text quoted forest) :
    Reads settings depth quoted quoted
      (inQuote quoted (written settings text position limit forest))
      (replay settings text quoted depth position limit forest) := by
  induction forest generalizing quoted depth position limit with
  | nil =>
    rw [written_nil]
    exact reads_quote settings depth quoted _
  | cons span inner after ihInner ihAfter =>
    obtain ⟨marked, hinner, hafter⟩ := h
    have gap := reads_quote settings depth quoted
      (Utf16.slice (Utf16.encode text) position span.start)
    have middle := reads_span depth marked hinner fun quoted depth =>
      ihInner quoted depth span.start span.stop
    have rest := ihAfter quoted depth span.stop limit hafter
    rw [written_cons, ← wrap_eq, inQuote_append, inQuote_append]
    exact (gap.append middle).append rest

/-- Reading what is written for a whole text gathers what the replay does. -/
lemma gathered_ofSource {forest : Forest} {limit : Nat}
    (h : Sealed settings text false forest) :
    (Reading.ofSource settings (written settings text 0 limit forest)).gathered =
      (replay settings text false 0 0 limit forest ⟨.empty, true⟩).gathered := by
  have reads := reads_written settings forest false 0 0 limit h
  rw [inQuote_false] at reads
  exact reads.gathered_ofSource

end Markdown

end RichText
