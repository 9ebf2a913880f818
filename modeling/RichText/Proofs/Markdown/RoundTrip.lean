import Mathlib.Tactic.Lemma
import RichText.Proofs.Markdown.Arrangement
import RichText.Proofs.Markdown.EmojiLinks
import RichText.Proofs.Markdown.Readings

/-!
# Written Markdown is read back

What the writer of Markdown makes of a message is read with its text, if its entities are
`Composed`: they lie on characters and are nested, no entity is within another whose marks would
hide its own, block quotes stand by themselves at the start of lines, and each link has a target
that the reader cannot take for another kind of link.

The entities come back as well, each once and in the order in which they end, but for two
exceptions (`read_write_iff_faithful`).  Formatting is left out around what looks like a custom
emoji, which any link to the address of one does.  And the target of a link in a block quote gains
the mark of a quoted line behind each of its line breaks, which the reader takes off text and code
only.  A nesting without either is `Faithful`.
-/

namespace RichText.Markdown

/-! ## Targets -/

/-- The document of the custom emoji that a target points to. -/
def documentOf? (target : Text) : Option Int :=
  (Text.after? emojiTarget target).bind (Numeral.signed? Identifier.least Identifier.greatest)

/-- A link over a text whose target is read as its own kind. -/
def TargetKept : Kind → Text → Prop
  | .textUrl url, raw => url ≠ raw ∧ url ≠ mailTarget ++ raw ∧ mentionedUser? url = none ∧
      documentOf? url = none
  | .mentionName userId, raw => mentionTarget ++ Numeral.ofInt userId ≠ raw
  | .customEmoji documentId, raw => emojiTarget ++ Numeral.ofInt documentId ≠ raw
  | _, _ => True

instance : (kind : Kind) → (raw : Text) → Decidable (TargetKept kind raw)
  | .textUrl _, _ => inferInstanceAs (Decidable (_ ∧ _ ∧ _ ∧ _))
  | .mentionName _, _ | .customEmoji _, _ => inferInstanceAs (Decidable (_ ≠ _))
  | .bold, _ | .italic, _ | .underline, _ | .strike, _ | .spoiler, _ | .code, _ | .pre _, _
  | .blockquote, _ | .url, _ | .email, _ => inferInstanceAs (Decidable True)

variable {settings : Settings} {raw target other text : Text} {kind : Kind}
  {quoted : Bool} {position limit : Nat} {forest : Forest}

lemma after?_mail_ne (raw : Text) : Text.after? mailTarget raw ≠ some raw := by
  intro same
  have whole := congrArg List.length (Text.eq_append_of_after? same)
  rw [List.length_append] at whole
  have filled : 0 < mailTarget.length := by decide
  omega

/-- A target that is kept is read as the kind it was written for. -/
lemma linkKind?_own (enabled : settings.customEmoji = true)
    (hmarks : marksOf raw kind = .link target) (fits : kind.Fits) (kept : TargetKept kind raw) :
    linkKind? settings target raw = some kind := by
  cases kind <;> simp only [marksOf, Marks.link.injEq, reduceCtorEq] at hmarks
  case textUrl url =>
    obtain ⟨own, noMail, noMention, noEmoji⟩ := kept
    subst hmarks
    have mail : Text.after? mailTarget url ≠ some raw := fun found =>
      noMail (Text.eq_append_of_after? found)
    rw [documentOf?] at noEmoji
    simp only [linkKind?, mail, own, noMention, noEmoji, if_false]
  case url =>
    subst hmarks
    simp only [linkKind?, after?_mail_ne, if_false, if_true]
  case email =>
    subst hmarks
    simp only [linkKind?, Text.after?_append, if_true]
  case mentionName userId =>
    subst hmarks
    have noMail : Text.after? mailTarget (mentionTarget ++ Numeral.ofInt userId) = none := rfl
    have apart : mentionTarget ++ Numeral.ofInt userId ≠ raw := kept
    simp only [linkKind?, noMail, reduceCtorEq, apart, mentionedUser?_mention fits, if_false]
  case customEmoji documentId =>
    subst hmarks
    have noMail : Text.after? mailTarget (emojiTarget ++ Numeral.ofInt documentId) = none := rfl
    have noMention : mentionedUser? (emojiTarget ++ Numeral.ofInt documentId) = none := rfl
    have apart : emojiTarget ++ Numeral.ofInt documentId ≠ raw := kept
    have document : Numeral.signed? Identifier.least Identifier.greatest
        (Numeral.ofInt documentId) = some documentId := Numeral.signed?_ofInt fits
    simp only [linkKind?, noMail, noMention, reduceCtorEq, apart, Text.after?_append,
      Option.bind_some, document, enabled, if_false, if_true]

/-- The kind that a target is read as is written with it, unless the target holds an identifier. -/
lemma marks_of_linkKind? (h : linkKind? settings other raw = some kind)
    (noMention : ∀ userId, kind ≠ .mentionName userId)
    (noEmoji : ∀ documentId, kind ≠ .customEmoji documentId) : marksOf raw kind = .link other := by
  simp only [linkKind?] at h
  repeat' split at h
  all_goals simp only [Option.some.injEq, reduceCtorEq] at h
  all_goals subst h
  · rename_i mail
    rw [marksOf, Text.eq_append_of_after? mail]
  · rename_i same
    rw [marksOf, same]
  · exact absurd rfl (noMention _)
  · exact absurd rfl (noEmoji _)
  · rfl

/-- A target with line breaks is the only one that is read as its kind. -/
lemma target_of_linkKind? (hmarks : marksOf raw kind = .link target) (broken : '\n' ∈ target)
    (h : linkKind? settings other raw = some kind) : other = target := by
  have identifier {head : Text} (plain : '\n' ∉ head) (n : Int) :
      '\n' ∉ head ++ Numeral.ofInt n := by
    intro member
    rcases List.mem_append.1 member with inHead | inNumeral
    · exact plain inHead
    · have range := toNat_of_digit (Numeral.ofInt_characters n _ inNumeral)
      exact absurd range (by decide)
  have same := marks_of_linkKind? h ?_ ?_
  · rw [hmarks] at same
    exact (Marks.link.inj same).symm
  · rintro userId rfl
    rw [← Marks.link.inj hmarks] at broken
    exact identifier (by decide) userId broken
  · rintro documentId rfl
    rw [← Marks.link.inj hmarks] at broken
    exact identifier (by decide) documentId broken

/-- A value with line breaks is written otherwise in a block quote. -/
lemma inQuote_ne (broken : '\n' ∈ target) : inQuote true target ≠ target := by
  have longer (value : Text) :
      (inQuote true value).length = value.length + 2 * value.count '\n' := by
    induction value with
    | nil => rfl
    | cons c rest ih =>
      by_cases line : c = '\n'
      · rw [line, inQuote_cons, inQuote_line, List.length_append, ih, List.count_cons_self]
        simp only [List.length_cons, List.length_nil]
        omega
      · rw [inQuote_cons_of_ne line, List.length_cons, ih, List.count_cons_of_ne line]
        simp only [List.length_cons]
        omega
  intro same
  have breaks := List.count_pos_iff.2 broken
  have size := longer target
  rw [same] at size
  omega

/-! ## Faithful nestings -/

/-- The target of a link stands on one line. -/
def Marks.oneLine : Marks → Bool
  | .link target => !target.contains '\n'
  | _ => true

/-- No formatting holds just what looks like a custom emoji, and no link within a block quote has a
line break in its target. -/
def Faithful (text : Text) (quoted : Bool) : Forest → Prop
  | .nil => True
  | .cons span inner after =>
    (span.entity.kind.isFormatting = true →
        holdsEmoji text span.start span.stop inner = false) ∧
      (quoted = true → (marksOf (covered text span) span.entity.kind).oneLine = true) ∧
      Faithful text (quoted || span.entity.kind == .blockquote) inner ∧ Faithful text quoted after

instance decidableFaithful (text : Text) :
    (quoted : Bool) → (forest : Forest) → Decidable (Faithful text quoted forest)
  | _, .nil => inferInstanceAs (Decidable True)
  | quoted, .cons span inner after =>
    have := decidableFaithful text (quoted || span.entity.kind == .blockquote) inner
    have := decidableFaithful text quoted after
    inferInstanceAs (Decidable (_ ∧ _ ∧ _ ∧ _))

/-- A span on characters whose entity is written with all it has. -/
structure Spelled (text : Text) (span : Span) : Prop where
  start : Utf16.Between text span.start
  stop : Utf16.Between text span.stop
  fits : span.entity.kind.Fits
  language : ∀ language, span.entity.kind = .pre language → language.trim = language
  target : TargetKept span.entity.kind (covered text span)

/-- **The kind of an entity is read back**, but for a link in a block quote whose target has line
breaks. -/
lemma readKind_eq_iff (enabled : settings.customEmoji = true) (fits : kind.Fits)
    (language : ∀ language, kind = .pre language → language.trim = language)
    (kept : TargetKept kind raw) :
    readKind settings quoted raw kind = kind ↔
      (quoted = true → (marksOf raw kind).oneLine = true) := by
  rw [readKind]
  cases hmarks : marksOf raw kind with
  | doubled c delimiter => simp [Marks.oneLine]
  | code => simp [Marks.oneLine]
  | quote => simp [Marks.oneLine]
  | block name =>
    have isBlock := marksOf_eq_block hmarks
    simp only [Marks.oneLine, language name isBlock]
    exact ⟨fun _ _ => trivial, fun _ => isBlock.symm⟩
  | link target =>
    have own := linkKind?_own enabled hmarks fits kept
    simp only [Marks.oneLine, Bool.not_eq_true', List.contains_eq_mem, decide_eq_false_iff_not]
    constructor
    · rintro same rfl broken
      obtain ⟨read, hread⟩ := linkKind?_isSome enabled (inQuote true target) raw
      rw [hread, Option.getD_some] at same
      rw [same] at hread
      exact inQuote_ne broken (target_of_linkKind? hmarks broken hread)
    · intro whole
      have unchanged : inQuote quoted target = target := by
        cases quoted with
        | false => rfl
        | true => exact inQuote_of_notMem (whole rfl)
      rw [unchanged, own, Option.getD_some]

/-! ## The entities that come back -/

lemma length_readings_le (settings : Settings) (text : Text) (quoted : Bool) (forest : Forest) :
    (readings settings text quoted forest).length ≤ forest.closings.length := by
  induction forest generalizing quoted with
  | nil => exact Nat.le_refl _
  | cons span inner after ihInner ihAfter =>
    have behind := ihAfter quoted
    rw [readings, Forest.closings, List.length_append, List.length_append, List.length_cons]
    split
    · have inside := ihInner quoted
      omega
    · have inside := ihInner (quoted || span.entity.kind == .blockquote)
      rw [List.length_append, List.length_singleton]
      omega

/-- Every entity that is read has the place of one that was written. -/
lemma exists_span_of_mem_readings {entity : Entity}
    (h : entity ∈ readings settings text quoted forest) :
    ∃ span ∈ forest.spans, entity.offset = span.entity.offset ∧
      entity.length = span.entity.length := by
  induction forest generalizing quoted with
  | nil => simp [readings] at h
  | cons span inner after ihInner ihAfter =>
    have inside {quoted : Bool} (member : entity ∈ readings settings text quoted inner) :
        ∃ within ∈ (Forest.cons span inner after).spans,
          entity.offset = within.entity.offset ∧ entity.length = within.entity.length := by
      obtain ⟨within, hwithin, place⟩ := ihInner member
      exact ⟨within, by simp [hwithin], place⟩
    rw [readings, List.mem_append] at h
    rcases h with here | behind
    · split at here
      · exact inside here
      · rcases List.mem_append.1 here with within | own
        · exact inside within
        · obtain rfl := List.mem_singleton.1 own
          exact ⟨span, by simp, rfl, rfl⟩
    · obtain ⟨following, hfollowing, place⟩ := ihAfter behind
      exact ⟨following, by simp [hfollowing], place⟩

/-- **Just what is faithful is read back** with all its entities. -/
lemma readings_eq_iff (enabled : settings.customEmoji = true)
    (hforest : forest.Matches MayEnclose position limit)
    (hspans : ∀ span ∈ forest.spans, Spelled text span) :
    readings settings text quoted forest = forest.closings ↔ Faithful text quoted forest := by
  induction forest generalizing quoted position limit with
  | nil => exact ⟨fun _ => trivial, fun _ => rfl⟩
  | cons span inner after ihInner ihAfter =>
    obtain ⟨-, -, -, -, -, hinner, hafter⟩ := hforest
    have spelled := hspans span List.mem_cons_self
    have within (enclosed : Span) (member : enclosed ∈ inner.spans) : Spelled text enclosed :=
      hspans enclosed (by simp [member])
    have inside := @ihInner (quoted || span.entity.kind == .blockquote) _ _ hinner within
    have behind := @ihAfter quoted _ _ hafter
      fun following member => hspans following (by simp [member])
    have kind := @readKind_eq_iff settings (covered text span) span.entity.kind quoted enabled
      spelled.fits spelled.language spelled.target
    have emoji := @isEmojiLink_written settings text _ _ enabled _ inner hinner spelled.start
      spelled.stop fun enclosed member =>
        ⟨(within enclosed member).start, (within enclosed member).stop⟩
    have shorter := length_readings_le settings text
    rw [readings, Forest.closings, Faithful, ← inside, ← behind, ← kind]
    split
    · -- a bare span is missing, and what is behind it cannot make up for it
      rename_i dropped
      rw [bare_eq enabled, Bool.and_eq_true, emoji] at dropped
      constructor
      · intro same
        have sizes := congrArg List.length same
        rw [List.length_append, List.length_append, List.length_cons] at sizes
        have := shorter quoted inner
        have := shorter quoted after
        omega
      · intro faithful
        rw [faithful.1 dropped.1] at dropped
        exact absurd dropped.2 Bool.false_ne_true
    · rename_i kept
      rw [bare_eq enabled, Bool.and_eq_true, emoji, not_and, Bool.not_eq_true] at kept
      constructor
      · intro same
        have sizes := congrArg List.length same
        rw [List.append_assoc, List.length_append, List.length_append, List.length_append,
          List.length_singleton, List.length_cons] at sizes
        have := shorter (quoted || span.entity.kind == .blockquote) inner
        have := shorter quoted after
        rw [List.append_assoc] at same
        obtain ⟨front, back⟩ := List.append_inj same (by omega)
        obtain ⟨own, rest⟩ := List.cons.inj back
        exact ⟨kept, congrArg Entity.kind own, front, rest⟩
      · rintro ⟨-, own, front, rest⟩
        rw [front, own, rest, List.append_assoc]
        rfl

/-! ## The message -/

/-- Entities over a text whose marks written Markdown keeps apart. -/
structure Composed (text : Text) (entities : List Entity) : Prop where
  nested : WellNested (Utf16.unitCount text) entities
  placed : ∀ entity ∈ entities, Placed text entity
  mayEnclose : entities.Pairwise fun outer inner =>
    outer.Encloses inner → MayEnclose outer inner
  stops : ∀ entity ∈ entities, ∀ quote ∈ entities, quote.kind = .blockquote →
    entity.offset + entity.length ≠ quote.offset
  language : ∀ entity ∈ entities, ∀ language, entity.kind = .pre language →
    language.trim = language
  fits : ∀ entity ∈ entities, entity.kind.Fits
  target : ∀ entity ∈ entities, TargetKept entity.kind (entity.covered (Utf16.encode text))

instance (text : Text) (entities : List Entity) : Decidable (Composed text entities) :=
  decidable_of_iff (WellNested (Utf16.unitCount text) entities ∧
      (∀ entity ∈ entities, Placed text entity) ∧
      (entities.Pairwise fun outer inner => outer.Encloses inner → MayEnclose outer inner) ∧
      (∀ entity ∈ entities, ∀ quote ∈ entities, quote.kind = .blockquote →
        entity.offset + entity.length ≠ quote.offset) ∧
      (∀ entity ∈ entities, ∀ language, entity.kind = .pre language → language.trim = language) ∧
      (∀ entity ∈ entities, entity.kind.Fits) ∧
      ∀ entity ∈ entities, TargetKept entity.kind (entity.covered (Utf16.encode text)))
    ⟨fun ⟨nested, placed, mayEnclose, stops, language, fits, target⟩ =>
        ⟨nested, placed, mayEnclose, stops, language, fits, target⟩,
      fun h => ⟨h.nested, h.placed, h.mayEnclose, h.stops, h.language, h.fits, h.target⟩⟩

variable {entities : List Entity}

/-- Composed entities are arranged as they are listed. -/
lemma Composed.arranged (h : Composed text entities) : Arranged text entities := by
  refine ⟨h.placed, ?_⟩
  have apart : entities.Pairwise Apart := by
    apply (List.Pairwise.and_mem.1 (h.nested.nested.and h.mayEnclose)).imp
    rintro first second ⟨hfirst, hsecond, related, implies⟩
    have filled := (h.nested.liesIn first hfirst).2.1
    have before (apart : ¬ MayEnclose first second) : first.Before second :=
      related.resolve_right fun encloses => apart (implies encloses)
    have quote (isQuote : second.kind = .blockquote) : first.Before second :=
      before fun encloses => encloses.2.1 isQuote
    refine ⟨fun code => before fun encloses => ?_, fun isQuote => ?_,
      h.stops first hfirst second hsecond, fun _ => quote⟩
    · rw [encloses.1] at code
      exact Bool.false_ne_true code
    · have behind := quote isQuote
      simp only [Entity.Before] at behind
      omega
  have mapped : (entities.zipIdx.map Prod.fst).Pairwise Apart := by
    rwa [List.zipIdx_map_fst]
  rw [Forest.byOffset_of_inOrder h.nested.sorted]
  exact List.pairwise_map.1 mapped

/-- Composed entities are spelled as the spans of their nesting. -/
lemma Composed.spelled (h : Composed text entities) :
    ∀ span ∈ (Forest.ofEntities (Utf16.unitCount text) entities).spans, Spelled text span := by
  intro span member
  have entity := Forest.entity_mem_of_mem_spans member
  obtain ⟨offset, stop⟩ := (Forest.matches_ofEntities h.nested h.mayEnclose).place member
  obtain ⟨low, positive, -⟩ := h.nested.liesIn _ entity
  have placed := h.placed _ entity
  have start : span.entity.offset.toNat = span.start := by omega
  have ends : span.start + span.entity.length.toNat = span.stop := by omega
  have target := h.target _ entity
  have betweenStart := placed.start
  have betweenStop := placed.stop
  rw [stop, Int.toNat_natCast] at betweenStop
  rw [start] at betweenStart
  simp only [Entity.covered, start, ends] at target
  exact ⟨betweenStart, betweenStop, h.fits _ entity, h.language _ entity, target⟩

/-- **What is written for composed entities is read** with the text and the readings of its
nesting. -/
lemma read_write (trimmed : text.trim = text) (short : Gathering.Short text)
    (h : Composed text entities) :
    read {} (style.write {} text entities) =
      ⟨text, readings {} text false (Forest.ofEntities (Utf16.unitCount text) entities)⟩ := by
  obtain ⟨isSealed, sayable⟩ := @Arranged.sayable {} text entities h.arranged
  have hforest := Forest.matches_ofEntities h.nested h.mayEnclose
  have spelled := h.spelled
  have grows := replayGrows_of_matches rfl short hforest
    (fun span member => ⟨(spelled span member).start, (spelled span member).stop⟩) isSealed true 0
    ⟨.empty, true⟩ sayable (follows_start text) Gathering.sound_empty (fun _ _ _ _ => rfl)
  have sliced : Utf16.slice (Utf16.encode text) 0 (Utf16.unitCount text) = text := by
    rw [← Utf16.length_encode, Utf16.slice_all]
  rw [read, write_eq_written, gathered_ofSource isSealed, grows.text, grows.entities, sliced]
  refine Message.trim_eq_self trimmed short fun entity member => ?_
  obtain ⟨span, hspan, offset, length⟩ := exists_span_of_mem_readings member
  have lies := h.nested.liesIn _ (Forest.entity_mem_of_mem_spans hspan)
  rwa [Entity.LiesIn, offset, length]

/-- **Written Markdown is read back** just if it is faithful.  The text of composed entities comes
back in any case; each of the entities comes back, in the order in which they end, if no formatting
holds just what looks like a custom emoji and no link in a block quote has a target with line
breaks, and otherwise they do not. -/
theorem read_write_iff_faithful (trimmed : text.trim = text) (short : Gathering.Short text)
    (h : Composed text entities) :
    (read {} (style.write {} text entities)).text = text ∧
      (read {} (style.write {} text entities) = ⟨text, closingOrder entities⟩ ↔
        Faithful text false (Forest.ofEntities (Utf16.unitCount text) entities)) ∧
      (closingOrder entities).Perm entities := by
  have hforest := Forest.matches_ofEntities h.nested h.mayEnclose
  have closings := Forest.closings_eq hforest
  rw [Forest.spans_ofEntities h.nested] at closings
  rw [read_write trimmed short h]
  refine ⟨rfl, ?_, perm_closingOrder entities⟩
  rw [Message.mk.injEq, ← closings, readings_eq_iff rfl hforest h.spelled]
  exact and_iff_right rfl

/-- A block quote of a link that holds bold type, and a block of code behind it. -/
theorem read_write_quote_and_block :
    Composed "ab\nc".toList [⟨0, 2, .blockquote⟩, ⟨0, 2, .textUrl "(x)".toList⟩, ⟨1, 1, .bold⟩,
        ⟨3, 1, .pre "rs".toList⟩] ∧
      read {} (style.write {} "ab\nc".toList [⟨0, 2, .blockquote⟩, ⟨0, 2, .textUrl "(x)".toList⟩,
          ⟨1, 1, .bold⟩, ⟨3, 1, .pre "rs".toList⟩]) =
        ⟨"ab\nc".toList, [⟨1, 1, .bold⟩, ⟨0, 2, .textUrl "(x)".toList⟩, ⟨0, 2, .blockquote⟩,
          ⟨3, 1, .pre "rs".toList⟩]⟩ := by
  have composed : Composed "ab\nc".toList [⟨0, 2, .blockquote⟩, ⟨0, 2, .textUrl "(x)".toList⟩,
      ⟨1, 1, .bold⟩, ⟨3, 1, .pre "rs".toList⟩] := by decide
  have nesting : Forest.ofEntities (Utf16.unitCount "ab\nc".toList) [⟨0, 2, .blockquote⟩,
      ⟨0, 2, .textUrl "(x)".toList⟩, ⟨1, 1, .bold⟩, ⟨3, 1, .pre "rs".toList⟩] =
      .cons ⟨0, ⟨0, 2, .blockquote⟩, 0, 2⟩
        (.cons ⟨1, ⟨0, 2, .textUrl "(x)".toList⟩, 0, 2⟩
          (.cons ⟨2, ⟨1, 1, .bold⟩, 1, 2⟩ .nil .nil) .nil)
        (.cons ⟨3, ⟨3, 1, .pre "rs".toList⟩, 3, 4⟩ .nil .nil) := by
    rw [Forest.ofEntities, Forest.byOffset_of_inOrder (by decide)]
    decide +kernel
  obtain ⟨-, faithful, -⟩ := read_write_iff_faithful (by decide) (by decide) composed
  refine ⟨composed, faithful.2 ?_⟩
  rw [nesting]
  decide

/-- Bold type around a link to what looks like the address of a custom emoji is left out. -/
theorem bold_around_emoji_address_not_read_back :
    Composed "emoji/5".toList [⟨0, 7, .bold⟩, ⟨0, 7, .url⟩] ∧
      read {} (style.write {} "emoji/5".toList [⟨0, 7, .bold⟩, ⟨0, 7, .url⟩]) =
        ⟨"emoji/5".toList, [⟨0, 7, .url⟩]⟩ := by
  have written : style.write {} "emoji/5".toList [⟨0, 7, .bold⟩, ⟨0, 7, .url⟩] =
      "[emoji/5](emoji/5)".toList :=
    (Writer.write_of_inOrder (by decide)).trans (by decide +kernel)
  rw [written]
  exact ⟨by decide, by decide +kernel⟩

/-- In a block quote a target with a line break gains the mark of a quoted line. -/
theorem target_on_two_lines_not_read_back :
    Composed "ab c".toList [⟨0, 4, .blockquote⟩, ⟨0, 2, .textUrl "x\ny".toList⟩] ∧
      read {} (style.write {} "ab c".toList
          [⟨0, 4, .blockquote⟩, ⟨0, 2, .textUrl "x\ny".toList⟩]) =
        ⟨"ab c".toList, [⟨0, 2, .textUrl "x\n> y".toList⟩, ⟨0, 4, .blockquote⟩]⟩ := by
  have written : style.write {} "ab c".toList
      [⟨0, 4, .blockquote⟩, ⟨0, 2, .textUrl "x\ny".toList⟩] = "> [ab](x\n> y) c<<".toList :=
    (Writer.write_of_inOrder (by decide)).trans (by decide +kernel)
  rw [written]
  exact ⟨by decide, by decide +kernel⟩

end RichText.Markdown
