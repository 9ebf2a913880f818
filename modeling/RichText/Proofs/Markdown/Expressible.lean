import Mathlib.Data.List.Pairwise
import Mathlib.Tactic.Lemma
import RichText.Proofs.Markdown.Arrangement

/-!
# What Markdown can express

A message is `Expressible` if its nesting can be said in Markdown.  Its text comes back from what is
written (`Expressible.text_read`) if the nesting is `Filled` besides: every span covers text, and no
block quote is within another.  So it is for entities between characters whose block quotes are apart
(`filled_ofEntities`).
-/

namespace RichText.Markdown

variable {settings : Settings} {text : Text} {quoted fresh : Bool} {position limit : Nat}
  {forest : Forest} {entities : List Entity}

/-! ## The conditions -/

/-- A message whose nesting Markdown can say. -/
def Expressible (settings : Settings) (message : Message) : Prop :=
  Sayable settings message.text true 0
    (Forest.ofEntities (Utf16.unitCount message.text) message.entities)

/-- Every span covers text, and no block quote is within another, nor any where `quoted`. -/
def Filled (text : Text) (quoted : Bool) : Forest → Prop
  | .nil => True
  | .cons span inner after =>
    covered text span ≠ [] ∧ (span.entity.kind = .blockquote → quoted = false) ∧
      Filled text (quoted || span.entity.kind == .blockquote) inner ∧ Filled text quoted after

/-- Of two block quotes the first ends before the second starts. -/
def QuotesApart (first second : Entity) : Prop :=
  first.kind = .blockquote → second.kind = .blockquote → first.Before second

/-! ## Nestings that are filled -/

/-- **Entities between characters, with their block quotes apart, have a filled nesting.** -/
lemma filled_nest {entries : List (Entity × Nat)} (hlimit : Utf16.Between text limit)
    (placed : ∀ entry ∈ entries, entry.1.LiesIn (Utf16.unitCount text) ∧
      Utf16.Between text entry.1.offset.toNat ∧
      Utf16.Between text (entry.1.offset + entry.1.length).toNat ∧ entry.1.offset.toNat < limit)
    (apart : entries.Pairwise fun first second => QuotesApart first.1 second.1) (quoted : Bool)
    (free : quoted = true → ∀ entry ∈ entries, entry.1.kind ≠ .blockquote) :
    Filled text quoted (Forest.nest position limit entries) := by
  fun_induction Forest.nest position limit entries generalizing quoted with
  | case1 => trivial
  | case2 position limit entity index later passed ih =>
    exact ih hlimit (fun entry member => placed entry (List.mem_cons_of_mem _ member))
      (List.pairwise_cons.1 apart).2 quoted
      fun isQuoted entry member => free isQuoted entry (List.mem_cons_of_mem _ member)
  | case3 position limit entity index later kept start stop ihInner ihAfter =>
    obtain ⟨liesIn, ownStart, ownStop, early⟩ := placed _ List.mem_cons_self
    obtain ⟨here, further⟩ := List.pairwise_cons.1 apart
    simp only at liesIn ownStart ownStop early
    obtain ⟨-, hstop : stop = _, -, betweenStop, covers⟩ :=
      span_between liesIn ownStart ownStop hlimit early
    have reaches : stop ≤ (entity.offset + entity.length).toNat := by omega
    have rest (entry : Entity × Nat) (member : entry ∈ later) :=
      placed entry (List.mem_cons_of_mem _ member)
    have nonneg (entry : Entity × Nat) (member : entry ∈ later) : 0 ≤ entry.1.offset :=
      (rest entry member).1.1
    have freeLater (isQuoted : quoted = true) (entry : Entity × Nat) (member : entry ∈ later) :=
      free isQuoted entry (List.mem_cons_of_mem _ member)
    -- what is nested in a block quote starts before it ends, so that it is none itself
    have inner := ihInner betweenStop
      (fun entry member =>
        have within := not_before_of_mem reaches nonneg member
        ⟨(rest entry within.1).1, (rest entry within.1).2.1, (rest entry within.1).2.2.1,
          within.2.1⟩)
      (further.filter _) (quoted || entity.kind == .blockquote) ?_
    · exact ⟨covers, fun quote => Bool.eq_false_iff.2 fun isQuoted =>
          free isQuoted _ List.mem_cons_self quote,
        inner, ihAfter hlimit rest further quoted freeLater⟩
    · intro isQuoted entry member
      obtain ⟨hlater, -, overlaps⟩ := not_before_of_mem reaches nonneg member
      rcases Bool.or_eq_true_iff.1 isQuoted with outer | quote
      · exact freeLater outer entry hlater
      · exact fun other => overlaps (here entry hlater (eq_of_beq quote) other)

/-- Block quotes that are apart are apart by offset: whichever is listed first, the one that starts
first ends before the other starts. -/
lemma quotesApart_byOffset (filled : ∀ entity ∈ entities, 0 < entity.length)
    (apart : entities.Pairwise fun first second =>
      QuotesApart first second ∨ QuotesApart second first) :
    (Forest.byOffset entities).Pairwise fun first second => QuotesApart first.1 second.1 := by
  have sooner (first second : Entity) (member : second ∈ entities)
      (either : QuotesApart first second ∨ QuotesApart second first)
      (order : first.offset ≤ second.offset) : QuotesApart first second := by
    intro quote other
    rcases either with before | behind
    · exact before quote other
    · have := behind other quote
      have := filled second member
      simp only [Entity.Before] at *
      omega
  refine Forest.pairwise_byOffset ?_ fun first hfirst second hsecond order => ?_
  · refine (List.Pairwise.and_mem.1 apart).imp ?_
    rintro first second ⟨-, member, either⟩ tie
    exact sooner first second member either (Int.le_of_eq tie)
  · have : Std.Symm fun first second : Entity =>
        QuotesApart first second ∨ QuotesApart second first := ⟨fun _ _ => Or.symm⟩
    refine sooner first second hsecond (apart.forall hfirst hsecond ?_) (Int.le_of_lt order)
    rintro rfl
    exact Int.lt_irrefl _ order

lemma filled_ofEntities (placed : ∀ entity ∈ entities, entity.LiesIn (Utf16.unitCount text) ∧
      Utf16.Between text entity.offset.toNat ∧
      Utf16.Between text (entity.offset + entity.length).toNat)
    (apart : entities.Pairwise fun first second =>
      QuotesApart first second ∨ QuotesApart second first) :
    Filled text false (Forest.ofEntities (Utf16.unitCount text) entities) := by
  have byOffset := quotesApart_byOffset (fun entity member => (placed entity member).1.2.1) apart
  refine filled_nest (Utf16.between_unitCount _) (fun entry member => ?_) byOffset false (by simp)
  rw [Forest.byOffset, List.mem_mergeSort] at member
  obtain ⟨⟨low, filled, fits⟩, start, stop⟩ :=
    placed entry.1 (List.mem_of_getElem? (List.mem_zipIdx_iff_getElem?.1 member))
  exact ⟨⟨low, filled, fits⟩, start, stop, by omega⟩

/-- **What can be said is sealed**, as code encloses nothing but text. -/
lemma Sayable.isSealed {forest : Forest} (h : Sayable settings text fresh position forest)
    (filled : Filled text quoted forest) : Sealed settings text quoted forest := by
  induction forest generalizing fresh quoted position with
  | nil => trivial
  | cons span inner after ihInner ihAfter =>
    obtain ⟨-, marked, sayableInner, sayableAfter⟩ := h
    obtain ⟨covers, quote, filledInner, filledAfter⟩ := filled
    refine ⟨fun shown => ⟨fun code => ?_, quote⟩, ihInner sayableInner filledInner,
      ihAfter sayableAfter filledAfter⟩
    obtain rfl := (marked shown).1 code
    rw [written_nil]
    exact sealed_quote covers

/-! ## The text comes back -/

/-- **What Markdown can express is read with its text**, under any settings. -/
lemma Expressible.text_read {message : Message} (h : Expressible settings message)
    (filled : Filled message.text false
      (Forest.ofEntities (Utf16.unitCount message.text) message.entities)) :
    (read settings (style.write settings message.text message.entities)).text =
      message.text.trim := by
  rw [read, Message.text_trim, text_gathered settings (h.isSealed filled) h]

end RichText.Markdown
