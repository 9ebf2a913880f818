import RichText.Proofs.Html.EmojiElements
import RichText.Proofs.WithoutEmoji

/-!
# Writing without custom emoji

Where custom emoji are not written, HTML is written as if the message had none
(`Html.write_without_emoji`).

An entity that is written as its value alone might as well not be there.  Taking its span out of the
nesting leaves those inside it in its place (`Forest.splice`), and the two gaps that met at its ends
become one.  A writer does not see the seam if it writes a text piece by piece (`Writer.Piecewise`),
as that of HTML does and that of Markdown does not, to which a piece that starts with `>` looks like
a line (`Forest.write_splice`).  Of entities that are well nested, splicing some out of the nesting
and leaving them out of the list come to the same (`Forest.splice_nest`).
-/

namespace RichText

variable {drop : Entity → Bool} {full bare : Writer} {text : Text} {position middle limit : Nat}

/-! ## Writers -/

/-- The writer writes two pieces of text as it writes them together. -/
def Writer.Piecewise (writer : Writer) : Prop :=
  ∀ front back, writer.plain (front ++ back) = writer.plain front ++ writer.plain back

/-- The writers agree, but where the one writes its own marks the other has nothing but the value
of the entities that are dropped. -/
structure Writer.Passes (drop : Entity → Bool) (full bare : Writer) : Prop where
  plain : full.plain = bare.plain
  kept : ∀ entity value raw, drop entity = false →
    full.wrap entity value raw = bare.wrap entity value raw
  dropped : ∀ entity value raw, drop entity = true → full.wrap entity value raw = value

namespace Writer.Piecewise

variable {writer : Writer}

lemma plain_nil (piecewise : writer.Piecewise) : writer.plain [] = [] := by
  have lengths := congrArg List.length (piecewise [] [])
  rw [List.append_nil, List.length_append] at lengths
  exact List.eq_nil_of_length_eq_zero (by omega)

/-- Two gaps that meet are one. -/
lemma writeGap_append (piecewise : writer.Piecewise) (first : position ≤ middle)
    (second : middle ≤ limit) :
    Forest.writeGap writer (Utf16.encode text) position middle ++
        Forest.writeGap writer (Utf16.encode text) middle limit =
      Forest.writeGap writer (Utf16.encode text) position limit := by
  simp only [Forest.writeGap_eq piecewise.plain_nil]
  rw [← piecewise, Utf16.slice_append first second]

end Writer.Piecewise

namespace Forest

/-! ## Splicing -/

/-- The spans of the first forest and then those of the second. -/
def append : Forest → Forest → Forest
  | nil, back => back
  | cons span inner after, back => cons span inner (append after back)

/-- The forest without the spans of the entities that are dropped, which leave those inside them in
their place. -/
def splice (drop : Entity → Bool) : Forest → Forest
  | nil => nil
  | cons span inner after =>
    if drop span.entity then append (splice drop inner) (splice drop after)
    else cons span (splice drop inner) (splice drop after)

variable {forest front back : Forest} {writer : Writer}

lemma Within.widen (h : Within middle limit forest) (first : position ≤ middle) :
    Within position limit forest := by
  cases forest with
  | nil => exact first.trans h
  | cons span inner after => exact ⟨first.trans h.1, h.2⟩

lemma Within.append (hfront : Within position middle front) (hback : Within middle limit back) :
    Within position limit (append front back) := by
  induction front generalizing position with
  | nil => exact hback.widen hfront
  | cons span inner after _ ihAfter => exact ⟨hfront.1, hfront.2.1, ihAfter hfront.2.2⟩

lemma Within.splice (h : Within position limit forest) :
    Within position limit (splice drop forest) := by
  induction forest generalizing position limit with
  | nil => exact h
  | cons span inner after ihInner ihAfter =>
    obtain ⟨first, hinner, hafter⟩ := h
    rw [Forest.splice]
    split
    · exact ((ihInner hinner).append (ihAfter hafter)).widen first
    · exact ⟨first, ihInner hinner, ihAfter hafter⟩

/-- Text in front of a forest goes into its first gap. -/
lemma writeGap_append_write (piecewise : writer.Piecewise) (first : position ≤ middle)
    (hback : Within middle limit back) :
    writeGap writer (Utf16.encode text) position middle ++
        back.write writer (Utf16.encode text) middle limit =
      back.write writer (Utf16.encode text) position limit := by
  cases back with
  | nil => exact piecewise.writeGap_append first hback
  | cons span inner after =>
    rw [write, write, ← piecewise.writeGap_append first hback.1, List.append_assoc,
      List.append_assoc, List.append_assoc]

/-- **Forests one behind the other are written one behind the other.** -/
lemma write_append (piecewise : writer.Piecewise) (hfront : Within position middle front)
    (hback : Within middle limit back) :
    (append front back).write writer (Utf16.encode text) position limit =
      front.write writer (Utf16.encode text) position middle ++
        back.write writer (Utf16.encode text) middle limit := by
  induction front generalizing position with
  | nil => exact (writeGap_append_write piecewise hfront hback).symm
  | cons span inner after _ ihAfter =>
    rw [append, write, write, ihAfter hfront.2.2, List.append_assoc _ _ (back.write _ _ _ _)]

/-- **What is written as its value alone might as well be spliced out.** -/
lemma write_splice (piecewise : bare.Piecewise) (passes : Writer.Passes drop full bare)
    (within : Within position limit forest) :
    (splice drop forest).write bare (Utf16.encode text) position limit =
      forest.write full (Utf16.encode text) position limit := by
  have gap (start stop : Nat) : writeGap full (Utf16.encode text) start stop =
      writeGap bare (Utf16.encode text) start stop := by
    rw [writeGap, writeGap, passes.plain]
  induction forest generalizing position limit with
  | nil => exact (gap position limit).symm
  | cons span inner after ihInner ihAfter =>
    obtain ⟨first, hinner, hafter⟩ := within
    rw [splice, write, gap, ← ihInner hinner, ← ihAfter hafter]
    cases dropped : drop span.entity with
    | true =>
      rw [if_pos rfl, passes.dropped _ _ _ dropped,
        writeGap_append_write piecewise first hinner.splice]
      exact write_append piecewise (hinner.splice.widen first) hafter.splice
    | false => rw [if_neg Bool.false_ne_true, passes.kept _ _ _ dropped, write]

/-! ## Nesting fewer entities -/

/-- The stretch that is nested may start anywhere before its first entity. -/
lemma nest_of_le {entities : List (Entity × Nat)}
    (h : ∀ entry ∈ entities, (position : Int) ≤ entry.1.offset ∧ (middle : Int) ≤ entry.1.offset) :
    nest position limit entities = nest middle limit entities := by
  cases entities with
  | nil => rw [nest_nil, nest_nil]
  | cons entry later =>
    have := h entry List.mem_cons_self
    rw [nest, nest, if_neg (by omega), if_neg (by omega)]

/-- **A stretch is nested in two parts** where no entity reaches from the one into the other. -/
lemma nest_eq_append {entities : List (Entity × Nat)} (first : position ≤ middle)
    (second : middle ≤ limit)
    (sorted : entities.Pairwise fun first second => first.1.offset ≤ second.1.offset)
    (apart : ∀ entry ∈ entities, 0 ≤ entry.1.offset ∧ 0 ≤ entry.1.length ∧
      (entry.1.offset < middle → entry.1.offset + entry.1.length ≤ middle)) :
    nest position limit entities =
      append (nest position middle (startingBefore middle entities))
        (nest middle limit entities) := by
  induction entities generalizing position with
  | nil => rw [startingBefore, List.filter_nil, nest_nil, nest_nil, nest_nil, append]
  | cons entry later ih =>
    obtain ⟨entity, index⟩ := entry
    obtain ⟨least, sortedLater⟩ := List.pairwise_cons.1 sorted
    obtain ⟨offset, length, stop⟩ := apart _ List.mem_cons_self
    simp only at least offset length stop
    have apartLater := fun entry member => apart entry (List.mem_cons_of_mem _ member)
    by_cases early : entity.offset.toNat < middle
    · have before : startingBefore middle ((entity, index) :: later) =
          (entity, index) :: startingBefore middle later := List.filter_cons_of_pos (by simpa)
      have passed : nest middle limit ((entity, index) :: later) = nest middle limit later := by
        rw [nest, if_pos (.inr early)]
      rw [before, passed]
      by_cases skipped : entity.offset < 0 ∨ entity.offset.toNat < position
      · rw [nest, if_pos skipped, nest, if_pos skipped, ih first sortedLater apartLater]
      · -- the entity ends in the first part, and what is inside it starts there
        have start : min entity.offset.toNat limit = min entity.offset.toNat middle := by omega
        have ends : min (min entity.offset.toNat middle + entity.length.toNat) limit =
            min (min entity.offset.toNat middle + entity.length.toNat) middle := by omega
        have inside (stop : Nat) (h : stop ≤ middle) :
            startingBefore stop (startingBefore middle later) = startingBefore stop later := by
          rw [startingBefore, startingBefore, startingBefore, List.filter_filter]
          refine List.filter_congr fun entry _ => ?_
          simp only [← Bool.decide_and, decide_eq_decide]
          omega
        rw [nest, if_neg skipped, nest, if_neg skipped]
        simp only [start, ends, append]
        rw [inside _ (by omega), ih (by omega) sortedLater apartLater]
    · have behind : ∀ entry ∈ (entity, index) :: later, entity.offset ≤ entry.1.offset :=
        List.forall_mem_cons.2 ⟨Int.le_refl _, least⟩
      have none : startingBefore middle ((entity, index) :: later) = [] := by
        refine List.filter_eq_nil_iff.2 fun entry member => ?_
        have := behind entry member
        simp only [decide_eq_true_eq]
        omega
      rw [none, nest_nil, append]
      refine nest_of_le fun entry member => ?_
      have := behind entry member
      omega

/-- **Dropped from the list, spliced out of the nesting.** -/
lemma splice_nest {entities : List (Entity × Nat)} (drop : Entity → Bool)
    (bounds : ∀ entry ∈ entities, 0 ≤ entry.1.offset ∧ 0 < entry.1.length ∧
      ((position : Int) ≤ entry.1.offset → entry.1.offset + entry.1.length ≤ limit))
    (nested : entities.Pairwise fun first second =>
      first.1.Before second.1 ∨ first.1.Encloses second.1) :
    splice drop (nest position limit entities) =
      nest position limit (entities.filter fun entry => !drop entry.1) := by
  fun_induction nest position limit entities with
  | case1 => rw [splice, List.filter_nil, nest_nil]
  | case2 position limit entity index later passed ih =>
    rw [ih (fun entry member => bounds entry (List.mem_cons_of_mem _ member))
      (List.pairwise_cons.1 nested).2, List.filter_cons]
    split
    · rw [nest, if_pos passed]
    · rfl
  | case3 position limit entity index later kept start stop ihInner ihAfter =>
    obtain ⟨offset, length, fits⟩ := bounds _ List.mem_cons_self
    simp only at offset length fits
    obtain ⟨related, further⟩ := List.pairwise_cons.1 nested
    have hfits := fits (by omega)
    obtain ⟨hstart : start = _, hstop : stop = _, -⟩ :=
      @span_of_early limit entity offset length (by omega)
    -- those behind start no earlier, and end with the entity if they start within it
    have place (entry : Entity × Nat) (member : entry ∈ later) :
        0 ≤ entry.1.offset ∧ 0 < entry.1.length ∧ entity.offset ≤ entry.1.offset ∧
          (entry.1.offset < stop → entry.1.offset + entry.1.length ≤ stop) ∧
          entry.1.offset + entry.1.length ≤ limit := by
      have := bounds entry (List.mem_cons_of_mem _ member)
      have := related entry member
      simp only [Entity.Before, Entity.Encloses] at this
      omega
    have inner := ihInner (fun entry member => by
        obtain ⟨hlater, early⟩ := List.mem_filter.1 member
        simp only [decide_eq_true_eq] at early
        have := place entry hlater
        omega) (further.filter _)
    have after := ihAfter (fun entry member => by
        have := place entry member
        omega) further
    have fewer : (startingBefore stop later).filter (fun entry => !drop entry.1) =
        startingBefore stop (later.filter fun entry => !drop entry.1) := List.filter_comm ..
    rw [splice, inner, after, fewer]
    cases dropped : drop entity with
    | false =>
      rw [if_neg Bool.false_ne_true, List.filter_cons_of_pos (by simp [dropped]), nest, if_neg kept]
    | true =>
      have placed (entry : Entity × Nat)
          (member : entry ∈ later.filter fun entry => !drop entry.1) :=
        place entry (List.mem_of_mem_filter member)
      have sorted : later.Pairwise fun first second => first.1.offset ≤ second.1.offset := by
        apply (List.Pairwise.and_mem.1 further).imp
        rintro first second ⟨hfirst, -, related⟩
        exact Entity.offset_le (place first hfirst).2.1 related
      rw [if_pos rfl, List.filter_cons_of_neg (by simp [dropped]),
        ← nest_eq_append (by omega) (by omega) (sorted.filter _) fun entry member => by
          have := placed entry member
          omega]
      refine nest_of_le fun entry member => ?_
      have := placed entry member
      omega

end Forest

/-! ## Writing fewer entities -/

lemma WellNested.filter {size : Nat} {entities : List Entity} (h : WellNested size entities)
    (keep : Entity → Bool) : WellNested size (entities.filter keep) :=
  ⟨fun entity member => h.liesIn entity (List.mem_of_mem_filter member), h.nested.filter keep⟩

/-- Well-nested entities are written as they are nested in the order of their list. -/
lemma Writer.write_of_wellNested {writer : Writer} {entities : List Entity}
    (h : WellNested (Utf16.unitCount text) entities) :
    writer.write text entities =
      (Forest.nest 0 (Utf16.unitCount text) (entities.map fun entity => (entity, 0))).write writer
        (Utf16.encode text) 0 (Utf16.unitCount text) := by
  have plain : (entities.map fun entity => (entity, 0)).map Prod.fst = entities := by
    simp [Function.comp_def]
  rw [← Writer.render_eq, plain, Writer.write_of_inOrder h.sorted, Utf16.length_encode]

/-- **Entities that are written as their values alone might as well not be listed.** -/
lemma Writer.write_filter {entities : List Entity} (piecewise : bare.Piecewise)
    (passes : Writer.Passes drop full bare) (h : WellNested (Utf16.unitCount text) entities) :
    full.write text entities = bare.write text (entities.filter fun entity => !drop entity) := by
  rw [Writer.write_of_wellNested h, Writer.write_of_wellNested (h.filter _),
    ← Forest.write_splice piecewise passes (Forest.within_nest (Nat.zero_le _) _),
    Forest.splice_nest, List.filter_map]
  · rfl
  · intro entry member
    obtain ⟨entity, listed, rfl⟩ := List.mem_map.1 member
    obtain ⟨offset, length, fits⟩ := h.liesIn entity listed
    exact ⟨offset, length, fun _ => fits⟩
  · exact List.pairwise_map.2 h.nested

/-! ## Custom emoji -/

lemma Style.passes (style : Style) (settings : Settings) :
    Writer.Passes (·.kind.isCustomEmoji) (style.writer .withoutCustomEmoji)
      (style.writer settings) := by
  refine ⟨rfl, fun entity value raw kept => ?_, fun entity value raw dropped => ?_⟩
  · simp only [Style.writer, Style.wrap]
    cases kind : entity.kind with
    | customEmoji documentId => simp [kind, Kind.isCustomEmoji] at kept
    | _ => rfl
  · simp only [Style.writer, Style.wrap]
    cases kind : entity.kind with
    | customEmoji documentId => rfl
    | _ => simp [kind, Kind.isCustomEmoji] at dropped

/-- The style that leaves no formatting out. -/
def Style.keeping (style : Style) : Style := { style with isEmoji := fun _ => false }

namespace Html

variable {settings : Settings}

lemma piecewise_writer (settings : Settings) : (style.writer settings).Piecewise :=
  escape_append false

/-- Without custom emoji nothing looks like one. -/
lemma isEmojiElement_eq_false (enabled : settings.customEmoji = true) {forest : Forest}
    (none : ∀ span ∈ forest.spans, span.entity.kind.isCustomEmoji = false) :
    isEmojiElement (forest.write (style.writer settings) (Utf16.encode text) position limit) =
      false := by
  refine Bool.eq_false_iff.2 fun emoji => ?_
  induction forest generalizing position limit with
  | nil =>
    obtain ⟨_, _, absurdity, -⟩ := span_of_isEmojiElement enabled emoji
    cases absurdity
  | cons span inner after ihInner _ =>
    obtain ⟨_, _, whole, -, -, ⟨-, inside⟩ | ⟨documentId, kind⟩⟩ :=
      span_of_isEmojiElement enabled emoji
    · obtain ⟨rfl, rfl, rfl⟩ := Forest.cons.inj whole
      exact ihInner (fun enclosed member => none enclosed (by simp [member])) inside
    · obtain ⟨rfl, rfl, rfl⟩ := Forest.cons.inj whole
      have plain := none span List.mem_cons_self
      rw [kind] at plain
      cases plain

/-- Without custom emoji no formatting is left out. -/
lemma write_keeping (enabled : settings.customEmoji = true) {forest : Forest}
    (none : ∀ span ∈ forest.spans, span.entity.kind.isCustomEmoji = false) :
    forest.write (style.keeping.writer settings) (Utf16.encode text) position limit =
      forest.write (style.writer settings) (Utf16.encode text) position limit := by
  induction forest generalizing position limit with
  | nil => rfl
  | cons span inner after ihInner ihAfter =>
    have inside : ∀ enclosed ∈ inner.spans, enclosed.entity.kind.isCustomEmoji = false :=
      fun enclosed member => none enclosed (by simp [member])
    have plain := @isEmojiElement_eq_false text span.start span.stop settings enabled inner inside
    have same (raw : Text) : style.keeping.wrap settings span.entity
        (inner.write (style.writer settings) (Utf16.encode text) span.start span.stop) raw =
          style.wrap settings span.entity
            (inner.write (style.writer settings) (Utf16.encode text) span.start span.stop) raw := by
      have test : style.isEmoji = isEmojiElement := rfl
      simp only [Style.wrap, test, plain]
      rfl
    have wrap (style : Style) : (style.writer settings).wrap = style.wrap settings := rfl
    have gap : Forest.writeGap (style.keeping.writer settings) (Utf16.encode text) position
        span.start = Forest.writeGap (style.writer settings) (Utf16.encode text) position
          span.start := rfl
    rw [Forest.write, Forest.write, ihInner inside,
      ihAfter fun behind member => none behind (by simp [member]), wrap, wrap, same, gap]

/-- **Custom emoji that are not written might as well not be listed**, whatever is around them,
inside them or exactly over them, and of what is listed beside them no formatting is left out. -/
theorem write_without_emoji (message : Message)
    (h : WellNested (Utf16.unitCount message.text) message.entities) :
    Dialect.html.write .withoutCustomEmoji message =
        Dialect.html.write {} message.withoutCustomEmoji ∧
      Dialect.html.write {} message.withoutCustomEmoji =
        style.keeping.write {} message.text message.withoutCustomEmoji.entities := by
  refine ⟨Writer.write_filter (piecewise_writer {}) (style.passes {}) h, ?_⟩
  have none : ∀ span ∈ (Forest.ofEntities (Utf16.encode message.text).length
      message.withoutCustomEmoji.entities).spans, span.entity.kind.isCustomEmoji = false := by
    intro span member
    have listed := (List.mem_filter.1 (Forest.entity_mem_of_mem_spans member)).2
    simpa using listed
  rw [Dialect.write, Style.write, Style.write, Writer.write_eq, Writer.write_eq]
  exact (write_keeping rfl none).symm

/-- Bold type exactly over a custom emoji, spoiler around it and italic type inside, which splits
a character. -/
theorem write_without_emoji_formatted :
    WellNested (Utf16.unitCount "a🏆b".toList)
        [⟨0, 4, .spoiler⟩, ⟨1, 2, .bold⟩, ⟨1, 2, .customEmoji 5⟩, ⟨2, 1, .italic⟩] ∧
      Dialect.html.write .withoutCustomEmoji ⟨"a🏆b".toList,
          [⟨0, 4, .spoiler⟩, ⟨1, 2, .bold⟩, ⟨1, 2, .customEmoji 5⟩, ⟨2, 1, .italic⟩]⟩ =
        Dialect.html.write {} ⟨"a🏆b".toList,
          [⟨0, 4, .spoiler⟩, ⟨1, 2, .bold⟩, ⟨2, 1, .italic⟩]⟩ ∧
      Dialect.html.write .withoutCustomEmoji ⟨"a🏆b".toList,
          [⟨0, 4, .spoiler⟩, ⟨1, 2, .bold⟩, ⟨1, 2, .customEmoji 5⟩, ⟨2, 1, .italic⟩]⟩ =
        "<tg-spoiler>a<strong>🏆<em></em></strong>b</tg-spoiler>".toList := by
  have nested : WellNested (Utf16.unitCount "a🏆b".toList)
      [⟨0, 4, .spoiler⟩, ⟨1, 2, .bold⟩, ⟨1, 2, .customEmoji 5⟩, ⟨2, 1, .italic⟩] := by decide
  obtain ⟨dropped, kept⟩ := write_without_emoji ⟨_, _⟩ nested
  have written : style.keeping.write {} "a🏆b".toList
      [⟨0, 4, .spoiler⟩, ⟨1, 2, .bold⟩, ⟨2, 1, .italic⟩] =
        "<tg-spoiler>a<strong>🏆<em></em></strong>b</tg-spoiler>".toList :=
    (Writer.write_of_inOrder (by decide)).trans (by decide +kernel)
  exact ⟨nested, dropped, dropped.trans (kept.trans written)⟩

end Html

end RichText
