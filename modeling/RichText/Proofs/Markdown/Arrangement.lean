import Mathlib.Tactic.Lemma
import RichText.Proofs.Markdown.Legibility
import RichText.Proofs.Trimming

/-!
# Arrangements that can be said

Which nesting a list of entities has is settled by their offsets, and by their order where offsets
agree.  A list is `Arranged` if code encloses nothing, a block quote starts with a line and
with no other entity before it, and none ends where it starts.  The nesting of such a list is
`Sealed` and `Sayable` (`sayable_nest`), and so its text comes back from what is written
(`text_gathered`).

Only code, which takes its text verbatim, and block quotes, which need a line of their own, depend
on where they stand.  A nesting without the two is sayable wherever its spans start and end
(`sayable_without_code_or_quote`): an entity that does not fit into the text, or crosses another, or
splits a character is nested all the same, and the text comes back
(`text_read_without_code_or_quote`).
-/

namespace RichText

namespace Markdown

/-! ## The conditions -/

/-- An entity between characters that is written legibly by itself. -/
structure Placed (text : Text) (entity : Entity) : Prop where
  liesIn : entity.LiesIn (Utf16.unitCount text)
  start : Utf16.Between text entity.offset.toNat
  stop : Utf16.Between text (entity.offset + entity.length).toNat
  language : ∀ language, entity.kind = .pre language → '\n' ∉ language
  line : entity.kind = .blockquote → StartsLine text entity.offset.toNat

instance (text : Text) (entity : Entity) : Decidable (Placed text entity) :=
  decidable_of_iff (entity.LiesIn (Utf16.unitCount text) ∧
      Utf16.Between text entity.offset.toNat ∧
      Utf16.Between text (entity.offset + entity.length).toNat ∧
      (∀ language, entity.kind = .pre language → '\n' ∉ language) ∧
      (entity.kind = .blockquote → StartsLine text entity.offset.toNat))
    ⟨fun ⟨liesIn, start, stop, language, line⟩ => ⟨liesIn, start, stop, language, line⟩,
      fun h => ⟨h.liesIn, h.start, h.stop, h.language, h.line⟩⟩

/-- Two entities, by offset, that leave each other legible: code encloses nothing, and a block
quote neither starts with another entity nor where one ends, nor lies within another block
quote. -/
structure Apart (first second : Entity) : Prop where
  code : first.kind.isCode = true → first.Before second
  start : second.kind = .blockquote → first.offset ≠ second.offset
  stop : second.kind = .blockquote → first.offset + first.length ≠ second.offset
  quote : first.kind = .blockquote → second.kind = .blockquote → first.Before second

/-- A list of entities whose nesting is written legibly. -/
structure Arranged (text : Text) (entities : List Entity) : Prop where
  placed : ∀ entity ∈ entities, Placed text entity
  apart : (Forest.byOffset entities).Pairwise fun first second => Apart first.1 second.1

variable {settings : Settings} {text : Text}

/-! ## The nesting -/

/-- Block quotes may start within a stretch: not where one is open, nor at its start unless it is
`fresh`. -/
def QuotesFit (quoted fresh : Bool) (position : Nat) (entries : List (Entity × Nat)) : Prop :=
  ∀ entry ∈ entries, entry.1.kind = .blockquote →
    quoted = false ∧ (fresh = false → entry.1.offset.toNat ≠ position)

/-- What starts before an entity ends does not come behind it. -/
lemma not_before_of_mem {entity : Entity} {stop : Nat} {later : List (Entity × Nat)}
    (reaches : stop ≤ (entity.offset + entity.length).toNat)
    (low : ∀ entry ∈ later, 0 ≤ entry.1.offset) {entry : Entity × Nat}
    (member : entry ∈ Forest.startingBefore stop later) :
    entry ∈ later ∧ entry.1.offset.toNat < stop ∧ ¬ entity.Before entry.1 := by
  obtain ⟨hlater, early⟩ := List.mem_filter.1 member
  have before : entry.1.offset.toNat < stop := by simpa using early
  have := low entry hlater
  refine ⟨hlater, before, ?_⟩
  simp only [Entity.Before]
  omega

lemma startingBefore_eq_nil {entity : Entity} {stop : Nat} {later : List (Entity × Nat)}
    (reaches : stop ≤ (entity.offset + entity.length).toNat)
    (low : ∀ entry ∈ later, 0 ≤ entry.1.offset)
    (behind : ∀ entry ∈ later, entity.Before entry.1) :
    Forest.startingBefore stop later = [] := by
  refine List.eq_nil_iff_forall_not_mem.2 fun entry member => ?_
  obtain ⟨hlater, -, overlaps⟩ := not_before_of_mem reaches low member
  exact overlaps (behind entry hlater)

/-- An entity between characters that starts within a stretch has a span between characters, which
covers text and does not outlast the entity. -/
lemma span_between {entity : Entity} {size limit : Nat} (liesIn : entity.LiesIn size)
    (start : Utf16.Between text entity.offset.toNat)
    (stop : Utf16.Between text (entity.offset + entity.length).toNat)
    (hlimit : Utf16.Between text limit) (early : entity.offset.toNat < limit) :
    let first := min entity.offset.toNat limit
    let last := min (first + entity.length.toNat) limit
    first = entity.offset.toNat ∧ last = min (entity.offset + entity.length).toNat limit ∧
      Utf16.Between text first ∧ Utf16.Between text last ∧
      Utf16.slice (Utf16.encode text) first last ≠ [] := by
  intro first last
  obtain ⟨hfirst : first = _, hlast : last = _, order : first < last⟩ :=
    Forest.span_of_early liesIn.1 liesIn.2.1 early
  have hstart : Utf16.Between text first := by rwa [hfirst]
  have hstop : Utf16.Between text last := by
    rw [hlast]
    exact stop.nearer hlimit
  refine ⟨hfirst, hlast, hstart, hstop, fun empty => ?_⟩
  exact absurd ((Utf16.slice_eq_nil_iff hstart hstop order.le).1 empty) order.ne

/-- Block quotes fit within an entity that they are kept apart from. -/
lemma QuotesFit.inner {quoted fresh : Bool} {position stop : Nat} {entity : Entity}
    {later : List (Entity × Nat)} (h : QuotesFit quoted fresh position later)
    (reaches : stop ≤ (entity.offset + entity.length).toNat) (nonneg : 0 ≤ entity.offset)
    (low : ∀ entry ∈ later, 0 ≤ entry.1.offset) (apart : ∀ entry ∈ later, Apart entity entry.1) :
    QuotesFit (quoted || entity.kind == .blockquote) false entity.offset.toNat
      (Forest.startingBefore stop later) := by
  intro entry member quote
  obtain ⟨hlater, -, overlaps⟩ := not_before_of_mem reaches low member
  refine ⟨?_, fun _ same => ?_⟩
  · rw [Bool.or_eq_false_iff, beq_eq_false_iff_ne]
    exact ⟨(h entry hlater quote).1,
      fun outer => overlaps ((apart entry hlater).quote outer quote)⟩
  · have starts := (apart entry hlater).start quote
    have := low entry hlater
    omega

/-- Block quotes fit behind an entity that does not end where they start, nor beyond the limit that
they start before. -/
lemma QuotesFit.after {quoted fresh : Bool} {position stop limit : Nat} {entity : Entity}
    {later : List (Entity × Nat)} (h : QuotesFit quoted fresh position later)
    (ends : stop = min (entity.offset + entity.length).toNat limit)
    (filled : 0 < entity.offset + entity.length)
    (low : ∀ entry ∈ later, 0 ≤ entry.1.offset ∧ entry.1.offset.toNat < limit)
    (apart : ∀ entry ∈ later, Apart entity entry.1) : QuotesFit quoted false stop later := by
  intro entry hlater quote
  refine ⟨(h entry hlater quote).1, fun _ same => ?_⟩
  have apart := (apart entry hlater).stop quote
  have := low entry hlater
  omega

/-- **An arranged nesting is written legibly.** -/
lemma sayable_nest {position limit : Nat} {entries : List (Entity × Nat)}
    (hposition : Utf16.Between text position) (hlimit : Utf16.Between text limit)
    (placed : ∀ entry ∈ entries, Placed text entry.1 ∧ entry.1.offset.toNat < limit)
    (apart : entries.Pairwise fun first second => Apart first.1 second.1) :
    ∀ quoted fresh : Bool, QuotesFit quoted fresh position entries →
      Sealed settings text quoted (Forest.nest position limit entries) ∧
        Sayable settings text fresh position (Forest.nest position limit entries) := by
  fun_induction Forest.nest position limit entries with
  | case1 => exact fun _ _ _ => ⟨trivial, trivial⟩
  | case2 position limit entity index later passed ih =>
    intro quoted fresh quotes
    exact ih hposition hlimit (fun entry member => placed entry (List.mem_cons_of_mem _ member))
      (List.pairwise_cons.1 apart).2 quoted fresh
      fun entry member => quotes entry (List.mem_cons_of_mem _ member)
  | case3 position limit entity index later kept start stop ihInner ihAfter =>
    intro quoted fresh quotes
    obtain ⟨here, early⟩ := placed _ List.mem_cons_self
    obtain ⟨first, further⟩ := List.pairwise_cons.1 apart
    obtain ⟨low, filled, -⟩ := here.liesIn
    simp only at here early low filled
    obtain ⟨hstart : start = _, hstop : stop = _, betweenStart, betweenStop, covers⟩ :=
      span_between here.liesIn here.start here.stop hlimit early
    have reaches : stop ≤ (entity.offset + entity.length).toNat := by omega
    have rest (entry : Entity × Nat) (member : entry ∈ later) :=
      placed entry (List.mem_cons_of_mem _ member)
    have nonneg (entry : Entity × Nat) (member : entry ∈ later) : 0 ≤ entry.1.offset :=
      (rest entry member).1.liesIn.1
    have quotesLater : QuotesFit quoted fresh position later :=
      fun entry member => quotes entry (List.mem_cons_of_mem _ member)
    have quotesInner := quotesLater.inner reaches low nonneg first
    rw [← hstart] at quotesInner
    have inner := ihInner betweenStart betweenStop
      (fun entry member =>
        have within := not_before_of_mem reaches nonneg member
        ⟨(rest entry within.1).1, within.2.1⟩)
      (further.filter _) _ false quotesInner
    have after := ihAfter betweenStop hlimit rest further quoted false
      (quotesLater.after hstop (by omega)
        (fun entry member => ⟨nonneg entry member, (rest entry member).2⟩) first)
    have alone (code : entity.kind.isCode = true) :
        Forest.nest start stop (Forest.startingBefore stop later) = .nil := by
      rw [startingBefore_eq_nil reaches nonneg fun entry member => (first entry member).code code,
        Forest.nest_nil]
    refine ⟨⟨fun _ => ⟨fun code => ?_, fun quote => (quotes _ List.mem_cons_self quote).1⟩,
        inner.1, after.1⟩, here.language, fun _ => ⟨alone, fun quote => ⟨?_, ?_⟩⟩, inner.2,
        after.2⟩
    · rw [alone code, written_nil]
      exact sealed_quote covers
    · cases hfresh : fresh with
      | true => exact .inl rfl
      | false =>
        refine .inr fun empty => ?_
        have := (Utf16.slice_eq_nil_iff hposition betweenStart (by omega)).1 empty
        exact (quotes _ List.mem_cons_self quote).2 hfresh (by simp only; omega)
    · show StartsLine text start
      rw [hstart]
      exact here.line quote

/-- The nesting of arranged entities, over their text. -/
lemma Arranged.sayable {entities : List Entity} (h : Arranged text entities) :
    Sealed settings text false (Forest.ofEntities (Utf16.unitCount text) entities) ∧
      Sayable settings text true 0 (Forest.ofEntities (Utf16.unitCount text) entities) := by
  refine sayable_nest (Utf16.between_zero text) (Utf16.between_unitCount text) ?_ h.apart false
    true (fun _ _ _ => ⟨rfl, fun fresh => by simp at fresh⟩)
  intro entry member
  rw [Forest.byOffset, List.mem_mergeSort] at member
  have placed := h.placed entry.1 (List.mem_of_getElem? (List.mem_zipIdx_iff_getElem?.1 member))
  obtain ⟨low, filled, fits⟩ := placed.liesIn
  exact ⟨placed, by omega⟩

lemma write_eq_written (settings : Settings) (text : Text) (entities : List Entity) :
    style.write settings text entities = written settings text 0 (Utf16.unitCount text)
      (Forest.ofEntities (Utf16.unitCount text) entities) := by
  rw [Style.write, Writer.write_eq, Utf16.length_encode, written]

/-- **What is written for a legible nesting is read with its text**, under any settings. -/
lemma text_gathered (settings : Settings) {entities : List Entity}
    (isSealed : Sealed settings text false (Forest.ofEntities (Utf16.unitCount text) entities))
    (sayable : Sayable settings text true 0 (Forest.ofEntities (Utf16.unitCount text) entities)) :
    (Reading.ofSource settings (style.write settings text entities)).gathered.text = text := by
  have within : (Forest.ofEntities (Utf16.unitCount text) entities).Within 0
      (Utf16.unitCount text) := Forest.within_nest (Nat.zero_le _) _
  have follows := @follows_replay settings text false true 0 0 _ _ _ within isSealed sayable
    (follows_start text)
  rw [write_eq_written, gathered_ofSource isSealed, follows.read, Utf16.upTo_of_le (Nat.le_refl _)]

/-! ## Without code and block quotes -/

/-- Without code and block quotes a nesting is legible. -/
lemma sayable_without_code_or_quote {forest : Forest}
    (plain : ∀ span ∈ forest.spans,
      span.entity.kind.isCode = false ∧ span.entity.kind ≠ .blockquote)
    (quoted fresh : Bool) (position : Nat) :
    Sealed settings text quoted forest ∧ Sayable settings text fresh position forest := by
  induction forest generalizing quoted fresh position with
  | nil => exact ⟨trivial, trivial⟩
  | cons span inner after ihInner ihAfter =>
    obtain ⟨noCode, noQuote⟩ := plain span List.mem_cons_self
    obtain ⟨sealedInner, sayableInner⟩ :=
      ihInner (fun enclosed member => plain enclosed (by simp [member]))
        (quoted || span.entity.kind == .blockquote) false span.start
    obtain ⟨sealedAfter, sayableAfter⟩ :=
      ihAfter (fun following member => plain following (by simp [member])) quoted false
        span.stop
    have noBlock (language : Text) : span.entity.kind ≠ .pre language := by
      intro block
      rw [block] at noCode
      exact Bool.noConfusion noCode
    exact ⟨⟨fun _ => ⟨fun code => absurd code (Bool.eq_false_iff.1 noCode),
          fun quote => absurd quote noQuote⟩, sealedInner, sealedAfter⟩,
      fun language block => absurd block (noBlock language),
      fun _ => ⟨fun code => absurd code (Bool.eq_false_iff.1 noCode),
        fun quote => absurd quote noQuote⟩, sayableInner, sayableAfter⟩

/-- **The text comes back** from what is written for it, whatever its entities and the settings, if
none of them is code or a block quote. -/
theorem text_read_without_code_or_quote (settings : Settings) (text : Text) {entities : List Entity}
    (plain : ∀ entity ∈ entities,
      entity.kind.isCode = false ∧ entity.kind ≠ .blockquote) :
    (read settings (style.write settings text entities)).text = text.trim := by
  obtain ⟨isSealed, sayable⟩ := @sayable_without_code_or_quote settings text
    (Forest.ofEntities (Utf16.unitCount text) entities)
    (fun span member => plain span.entity (Forest.entity_mem_of_mem_spans member))
    false true 0
  rw [read, Message.text_trim, text_gathered settings isSealed sayable]

/-- Entities before the text, behind it, without length, across one another and through a character,
where custom emoji are left out. -/
theorem text_read_without_code_or_quote_astray :
    (∀ entity ∈ ([⟨2, 9, .bold⟩, ⟨-1, 2, .italic⟩, ⟨1, -3, .textUrl ")".toList⟩,
        ⟨9, 1, .url⟩, ⟨0, 3, .customEmoji 5⟩] : List Entity),
      entity.kind.isCode = false ∧ entity.kind ≠ .blockquote) ∧
    (read .withoutCustomEmoji (style.write .withoutCustomEmoji "*😀 ".toList
      [⟨2, 9, .bold⟩, ⟨-1, 2, .italic⟩, ⟨1, -3, .textUrl ")".toList⟩, ⟨9, 1, .url⟩,
        ⟨0, 3, .customEmoji 5⟩])).text = Text.trim "*😀 ".toList := by
  have plain : ∀ entity ∈ ([⟨2, 9, .bold⟩, ⟨-1, 2, .italic⟩, ⟨1, -3, .textUrl ")".toList⟩,
      ⟨9, 1, .url⟩, ⟨0, 3, .customEmoji 5⟩] : List Entity),
      entity.kind.isCode = false ∧ entity.kind ≠ .blockquote := by decide
  exact ⟨plain, text_read_without_code_or_quote _ _ plain⟩

end Markdown

end RichText
