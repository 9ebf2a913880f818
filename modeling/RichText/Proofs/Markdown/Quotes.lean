import RichText.Proofs.Counting
import RichText.Proofs.Markdown.Leftovers

/-!
# Block quotes that are read back

The mark that ends a block quote is always written, so that a quote may end anywhere: in the middle
of a line, on a line break, at the end of the text.  A list of quotes of which each starts a line
comes back with its text, but for one place (`read_write_quotes_iff`): where a quote starts just
behind another.  Its mark then stands behind the mark that ends the other, where no line of the
source starts, and is left in the text.
-/

namespace RichText

namespace Markdown

variable {settings : Settings} {text piece : Text} {quoted fresh : Bool}
  {depth position limit : Nat} {trail : Trail} {forest : Forest} {quotes : List Entity}

/-! ## The quotes -/

/-- Block quotes over a text, one behind the other, each from the start of a line to the end of some
character.  All positions are in range. -/
structure QuotesInLines (text : Text) (quotes : List Entity) : Prop where
  quote : ∀ entity ∈ quotes, entity.kind = .blockquote
  placed : ∀ entity ∈ quotes, Placed text entity
  fits : ∀ entity ∈ quotes, entity.Fits
  apart : quotes.Pairwise Entity.Before

instance (text : Text) (quotes : List Entity) : Decidable (QuotesInLines text quotes) :=
  decidable_of_iff ((∀ entity ∈ quotes, entity.kind = .blockquote) ∧
      (∀ entity ∈ quotes, Placed text entity) ∧ (∀ entity ∈ quotes, entity.Fits) ∧
      quotes.Pairwise Entity.Before)
    ⟨fun ⟨quote, placed, fits, apart⟩ => ⟨quote, placed, fits, apart⟩,
      fun h => ⟨h.quote, h.placed, h.fits, h.apart⟩⟩

/-- A nesting of block quotes none of which holds another, at their places in the text. -/
structure QuoteRow (text : Text) (position limit : Nat) (forest : Forest) : Prop where
  flat : forest.Matches (fun _ _ => False) position limit
  quote : ∀ span ∈ forest.spans, span.entity.kind = .blockquote
  fits : ∀ span ∈ forest.spans, span.entity.Fits
  start : ∀ span ∈ forest.spans, Utf16.Between text span.start ∧ StartsLine text span.start
  stop : ∀ span ∈ forest.spans, Utf16.Between text span.stop

lemma QuotesInLines.wellNested (h : QuotesInLines text quotes) :
    WellNested (Utf16.unitCount text) quotes :=
  ⟨fun entity member => (h.placed entity member).liesIn, h.apart.imp Or.inl⟩

/-- Quotes that lie apart are nested in a row. -/
lemma QuotesInLines.row (h : QuotesInLines text quotes) :
    QuoteRow text 0 (Utf16.unitCount text)
      (Forest.ofEntities (Utf16.unitCount text) quotes) := by
  have flat : (Forest.ofEntities (Utf16.unitCount text) quotes).Matches (fun _ _ => False) 0
      (Utf16.unitCount text) := by
    refine Forest.matches_ofEntities h.wellNested ?_
    refine (List.Pairwise.and_mem.1 h.apart).imp ?_
    rintro first second ⟨-, hsecond, before⟩ encloses
    have filled := (h.placed second hsecond).liesIn.2.1
    simp only [Entity.Before, Entity.Encloses] at before encloses
    omega
  have place {span : Span}
      (member : span ∈ (Forest.ofEntities (Utf16.unitCount text) quotes).spans) :
      Placed text span.entity ∧ span.entity.offset.toNat = span.start ∧
        (span.entity.offset + span.entity.length).toNat = span.stop := by
    obtain ⟨offset, stop⟩ := flat.place member
    exact ⟨h.placed _ (Forest.entity_mem_of_mem_spans member), by omega, by omega⟩
  refine ⟨flat, fun span member => h.quote _ (Forest.entity_mem_of_mem_spans member),
    fun span member => h.fits _ (Forest.entity_mem_of_mem_spans member), fun span member => ?_,
    fun span member => ?_⟩
  · obtain ⟨placed, start, -⟩ := place member
    rw [← start]
    exact ⟨placed.start, placed.line (h.quote _ (Forest.entity_mem_of_mem_spans member))⟩
  · obtain ⟨placed, -, stop⟩ := place member
    rw [← stop]
    exact placed.stop

/-- A row is one quote, which holds nothing, and a row behind it. -/
lemma QuoteRow.head {span : Span} {inner after : Forest}
    (h : QuoteRow text position limit (.cons span inner after)) :
    inner = .nil ∧ position ≤ span.start ∧ span.start < span.stop ∧
      span.entity.kind = .blockquote ∧ QuoteRow text span.stop limit after := by
  obtain ⟨first, filled, -, -, alone, -, hafter⟩ := h.flat
  have empty : inner = .nil := by
    cases inner with
    | nil => rfl
    | cons enclosed _ _ => exact (alone enclosed List.mem_cons_self).elim
  have behind {p : Span → Prop} (all : ∀ member ∈ (Forest.cons span inner after).spans, p member)
      (following : Span) (member : following ∈ after.spans) : p following :=
    all following (by simp [member])
  exact ⟨empty, first, filled, h.quote span List.mem_cons_self,
    ⟨hafter, behind h.quote, behind h.fits, behind h.start, behind h.stop⟩⟩

lemma bare_quote {span : Span} (kind : span.entity.kind = .blockquote) :
    bare settings span.entity.kind (written settings text span.start span.stop .nil) = false := by
  rw [kind, written_nil]
  exact isEmojiLink_quote _

/-- **A row can be said just if no quote starts where another ends**, nor where the stretch starts
if that is not `fresh`. -/
lemma QuoteRow.sayable_iff (h : QuoteRow text position limit forest)
    (between : Utf16.Between text position) :
    Sayable settings text fresh position forest ↔
      (fresh = true ∨ ∀ span ∈ forest.spans, span.start ≠ position) ∧
        (forest.spans.map Span.entity).Pairwise
          fun first second => first.offset + first.length ≠ second.offset := by
  induction forest generalizing fresh position with
  | nil => simp [Sayable]
  | cons span inner after _ ihAfter =>
    obtain ⟨rfl, first, filled, kind, hafter⟩ := h.head
    obtain ⟨offset, stop⟩ := h.flat.place List.mem_cons_self
    obtain ⟨start, line⟩ := h.start span List.mem_cons_self
    have later (following : Span) (member : following ∈ after.spans) :
        span.stop ≤ following.start := by
      have := (hafter.flat.place member).1
      have := (hafter.flat.entity_bounds member).1
      omega
    have gap : Utf16.slice (Utf16.encode text) position span.start ≠ [] ↔
        span.start ≠ position :=
      not_congr ((Utf16.slice_eq_nil_iff between start first).trans eq_comm)
    have behind := @ihAfter false span.stop hafter (h.stop span List.mem_cons_self)
    have touches (following : Span) (member : following ∈ after.spans) :
        following.start ≠ span.stop ↔
          span.entity.offset + span.entity.length ≠ following.entity.offset := by
      have := (hafter.flat.place member).1
      omega
    rw [Forest.spans_cons, Forest.spans_nil, List.nil_append, List.map_cons, List.pairwise_cons]
    constructor
    · rintro ⟨-, marked, -, sayable⟩
      obtain ⟨apart, rest⟩ := behind.1 sayable
      obtain ⟨opens, -⟩ := (marked (bare_quote kind)).2 kind
      refine ⟨opens.imp_right fun filled following member => ?_, ?_, rest⟩
      · rcases List.mem_cons.1 member with rfl | hfollowing
        · exact gap.1 filled
        · have := later following hfollowing
          omega
      · intro entity member
        obtain ⟨following, hfollowing, rfl⟩ := List.mem_map.1 member
        exact (touches following hfollowing).1
          (apart.resolve_left Bool.false_ne_true following hfollowing)
    · rintro ⟨opens, alone, rest⟩
      refine ⟨fun language block => ?_, fun _ => ⟨fun _ => rfl, fun _ => ⟨?_, line⟩⟩, trivial,
        behind.2 ⟨.inr fun following member => ?_, rest⟩⟩
      · rw [kind] at block
        cases block
      · exact opens.imp_right fun apart => gap.2 (apart span List.mem_cons_self)
      · exact (touches following member).2 (alone _ (List.mem_map_of_mem member))

lemma QuoteRow.isSealed (h : QuoteRow text position limit forest) :
    Sealed settings text false forest := by
  induction forest generalizing position with
  | nil => trivial
  | cons span inner after _ ihAfter =>
    obtain ⟨rfl, -, -, kind, hafter⟩ := h.head
    refine ⟨fun _ => ⟨fun code => ?_, fun _ => rfl⟩, trivial, ihAfter hafter⟩
    rw [kind] at code
    cases code

/-! ## One quote -/

/-- Reads what is written for a block quote. -/
def Trail.quote (piece : Text) (trail : Trail) : Trail :=
  (trail.quoteStart.typeAll true piece).quoteStop

lemma QuoteRow.replay_cons {span : Span} {inner after : Forest}
    (h : QuoteRow text position limit (.cons span inner after)) (trail : Trail) :
    replay settings text false depth position limit (.cons span inner after) trail =
      replay settings text false depth span.stop limit after
        ((trail.typeAll false (Utf16.slice (Utf16.encode text) position span.start)).quote
          (covered text span)) := by
  obtain ⟨rfl, -, -, kind, -⟩ := h.head
  rw [replay, if_neg (Bool.eq_false_iff.1 (bare_quote kind)), kind]
  rfl

/-! ## The entities that are read -/

lemma built_quote (built : trail.gathered.Built) (piece : Text) :
    (trail.quote piece).gathered.Built := by
  have started : trail.quoteStart.gathered.Built := by
    unfold Trail.quoteStart
    split
    · exact built.start _ _
    · exact (built.append ['>']).append [' ']
  unfold Trail.quote Trail.quoteStop
  split
  · exact (built_typeAll started true piece).finish _
  · exact ((built_typeAll started true piece).append ['<']).append ['<']

/-- What is open grows by all that is typed. -/
lemma draft?_foldl_appendChar {gathered : Gathering Delimiter} {key : Delimiter} {offset : Int}
    {since : Text} {kind : Kind}
    (isOpen : gathered.draft? key = some ⟨offset, Utf16.length since, kind⟩) (piece : Text) :
    (piece.foldl (fun gathered c => gathered.appendChar c) gathered).draft? key =
      some ⟨offset, Utf16.length (since ++ piece), kind⟩ := by
  induction piece generalizing gathered since with
  | nil => rwa [List.append_nil]
  | cons c rest ih =>
    have grown : (gathered.appendChar c).draft? key =
        some ⟨offset, Utf16.length (since ++ [c]), kind⟩ := by
      rw [Gathering.appendChar, Gathering.draft?_append key (List.cons_ne_nil c []), isOpen,
        ← Utf16.clamp_length_add]
      rfl
    rw [List.foldl_cons, ih grown, List.append_assoc]
    rfl

/-- **A quote that starts a line is listed** over what is written in it. -/
lemma entities_quote (built : trail.gathered.Built) (starts : trail.lineStart = true)
    (closed : trail.quoting = false) (piece : Text) :
    (trail.quote piece).gathered.entities = trail.gathered.entities ++
      [⟨Utf16.length trail.gathered.text, Utf16.length piece, .blockquote⟩] := by
  have free : trail.gathered.draft? .blockquote = none :=
    Option.not_isSome_iff_eq_none.1 (Bool.eq_false_iff.1 closed)
  have started : trail.quoteStart.gathered = trail.gathered.start .blockquote .blockquote := by
    rw [Trail.quoteStart, if_pos starts]
    rfl
  have opened : (trail.gathered.start .blockquote .blockquote).draft? .blockquote =
      some ⟨Utf16.length trail.gathered.text, Utf16.length [], .blockquote⟩ := by
    rw [Gathering.draft?_start, if_pos rfl, free, ← built.counted.units]
    rfl
  have quoting : trail.quoteStart.quoting = true := by
    rw [Trail.quoting, started, Gathering.isOpen, opened]
    rfl
  have typed := gathered_typeAll quoting piece
  rw [started] at typed
  have grown := draft?_foldl_appendChar opened piece
  have isOpen : (trail.quoteStart.typeAll true piece).quoting = true := by
    rw [Trail.quoting, typed, Gathering.isOpen, grown]
    rfl
  have ended : (trail.quote piece).gathered =
      (trail.quoteStart.typeAll true piece).gathered.finish .blockquote := by
    rw [Trail.quote, Trail.quoteStop, if_pos isOpen]
    rfl
  rw [ended, typed, Gathering.entities_finish_of_open grown, entities_foldl_appendChar,
    Gathering.entities_start]
  rfl

lemma QuoteRow.entity_eq (h : QuoteRow text position limit forest) {span : Span}
    (member : span ∈ forest.spans) :
    (⟨Utf16.length (Utf16.upTo span.start text), Utf16.length (covered text span),
      .blockquote⟩ : Entity) = span.entity := by
  obtain ⟨offset, length⟩ := h.flat.place member
  obtain ⟨-, filled, -⟩ := h.flat.entity_bounds member
  obtain ⟨⟨-, reach⟩, ⟨-, size⟩, -⟩ := h.fits span member
  have same := Forest.entity_of_span offset length (h.start span member).1 (h.stop span member)
    (by omega) .blockquote
  have offsets := congrArg Entity.offset same
  have lengths := congrArg Entity.length same
  simp only at offsets lengths
  rw [covered, Utf16.length_eq_min, Utf16.length_eq_min, offsets, lengths, min_eq_left reach,
    min_eq_left size, ← h.quote span member]

/-- **A row that can be said is listed** quote by quote. -/
lemma QuoteRow.entities_replay (h : QuoteRow text position limit forest)
    (sayable : Sayable settings text fresh position forest)
    (follows : Follows text false fresh position trail) (built : trail.gathered.Built) :
    (replay settings text false depth position limit forest trail).gathered.entities =
      trail.gathered.entities ++ forest.spans.map Span.entity := by
  induction forest generalizing fresh position trail with
  | nil =>
    rw [replay, gathered_typeAll follows.quoting, entities_foldl_appendChar]
    exact (List.append_nil _).symm
  | cons span inner after _ ihAfter =>
    obtain ⟨rfl, first, filled, kind, hafter⟩ := h.head
    obtain ⟨-, marked, -, sayableAfter⟩ := sayable
    obtain ⟨nothingBefore, lineStarts⟩ := (marked (bare_quote kind)).2 kind
    have before := follows.typeAll first
    have known : (fresh || !(Utf16.slice (Utf16.encode text) position span.start).isEmpty) =
        true := by
      simpa using nothingBefore
    have starts := before.start known rfl lineStarts
    have typed := built_typeAll built false (Utf16.slice (Utf16.encode text) position span.start)
    have behind : Follows text false false span.stop
        ((trail.typeAll false (Utf16.slice (Utf16.encode text) position span.start)).quote
          (covered text span)) :=
      ((before.quoteStart starts).typeAll filled.le).quoteStop
    have same : (trail.typeAll false
        (Utf16.slice (Utf16.encode text) position span.start)).gathered.entities =
          trail.gathered.entities := by
      rw [gathered_typeAll follows.quoting, entities_foldl_appendChar]
    rw [h.replay_cons, ihAfter hafter sayableAfter behind (built_quote typed _),
      entities_quote typed starts before.quoting, before.read, same,
      h.entity_eq List.mem_cons_self, List.append_assoc]
    rfl

/-! ## The message -/

/-- **Block quotes are read back just if none starts where another ends.**  Apart from that, each
may end anywhere behind its start. -/
theorem read_write_quotes_iff (settings : Settings) (trimmed : text.trim = text)
    (h : QuotesInLines text quotes) :
    read settings (style.write settings text quotes) = ⟨text, quotes⟩ ↔
      quotes.Pairwise fun first second => first.offset + first.length ≠ second.offset := by
  have row := h.row
  have listed := Forest.spans_ofEntities h.wellNested
  have apartIff := @QuoteRow.sayable_iff settings text true 0 _ _ row (Utf16.between_zero text)
  rw [listed] at apartIff
  constructor
  · intro same
    have formats : Formats settings (Forest.ofEntities (Utf16.unitCount text) quotes) := by
      intro span member value
      rw [row.quote span member]
      rfl
    have line (quote : Entity) (member : quote ∈ quotes) (language : Text) :
        quote.kind = .pre language → '\n' ∉ language := by
      simp [h.quote quote member]
    exact (apartIff.1 (sayable_of_text_read formats line row.isSealed
      (congrArg Message.text same))).2
  · intro apart
    have sayable := apartIff.2 ⟨.inl rfl, apart⟩
    have entities := @QuoteRow.entities_replay settings text true 0 0 _ ⟨.empty, true⟩ _ row
      sayable (follows_start text) .empty
    have gathered := @gathered_ofSource settings text _ (Utf16.unitCount text) row.isSealed
    rw [← write_eq_written] at gathered
    rw [← gathered, listed] at entities
    rw [read, text_gathered settings row.isSealed sayable, entities]
    exact Message.trim_eq_self_of_le trimmed fun entity member =>
      ⟨(h.placed entity member).liesIn, (h.fits entity member).1.2, (h.fits entity member).2.1.2⟩

/-- A quote that ends in the middle of a line, one that ends on a line break, and one at the end of
the text. -/
theorem read_write_quotes_behind_text :
    Text.trim "ab\nc\nd\ne".toList = "ab\nc\nd\ne".toList ∧
      QuotesInLines "ab\nc\nd\ne".toList
        [⟨0, 1, .blockquote⟩, ⟨3, 2, .blockquote⟩, ⟨7, 1, .blockquote⟩] ∧
      read {} (style.write {} "ab\nc\nd\ne".toList
          [⟨0, 1, .blockquote⟩, ⟨3, 2, .blockquote⟩, ⟨7, 1, .blockquote⟩]) =
        ⟨"ab\nc\nd\ne".toList,
          [⟨0, 1, .blockquote⟩, ⟨3, 2, .blockquote⟩, ⟨7, 1, .blockquote⟩]⟩ := by
  have trimmed : Text.trim "ab\nc\nd\ne".toList = "ab\nc\nd\ne".toList := by decide
  have inLines : QuotesInLines "ab\nc\nd\ne".toList
      [⟨0, 1, .blockquote⟩, ⟨3, 2, .blockquote⟩, ⟨7, 1, .blockquote⟩] := by decide
  exact ⟨trimmed, inLines, (read_write_quotes_iff {} trimmed inLines).2 (by decide)⟩

/-- Of two quotes that share no text between them the second is not read. -/
theorem quote_behind_quote_not_read_back :
    QuotesInLines "a\nb\nc".toList [⟨0, 2, .blockquote⟩, ⟨2, 2, .blockquote⟩] ∧
      read {} (style.write {} "a\nb\nc".toList [⟨0, 2, .blockquote⟩, ⟨2, 2, .blockquote⟩]) =
        ⟨"a\n> b\nc".toList, [⟨0, 2, .blockquote⟩]⟩ := by
  have written : style.write {} "a\nb\nc".toList [⟨0, 2, .blockquote⟩, ⟨2, 2, .blockquote⟩] =
      "> a\n> <<> b\n> <<c".toList :=
    (Writer.write_of_inOrder (by decide)).trans (by decide +kernel)
  rw [written]
  exact ⟨by decide, by decide +kernel⟩

end Markdown

end RichText
