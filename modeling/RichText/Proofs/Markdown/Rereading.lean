import RichText.Proofs.Markdown.Leftovers
import RichText.Proofs.QuoteKeys

/-!
# Reading again what was read

The entities that Markdown is read with are listed in the order they close, and this order does not
always tell which of two that start together is the outer one.  Written as they are listed, a block
quote that starts with bold type is written within it, and not read as a block quote any more.

What was read is written so that its text is read again just if Markdown can express it
(`text_read_again_iff`), in whatever order the entities are listed.  That much is known of every
source whose nesting is `Sealed`, as it is wherever Markdown can express it.

What it takes of the source is little: the languages of its code blocks have one line (`Kinds`),
whatever its length, and its block quotes are apart as long as the text is short enough to be
counted.
-/

namespace RichText

/-! ## Kinds -/

namespace Gathering

/-- What is open and what is listed has a kind of one sort. -/
structure Kinds {κ : Type} [DecidableEq κ] (p : Kind → Prop) (gathering : Gathering κ) : Prop where
  started : ∀ key draft, gathering.draft? key = some draft → p draft.kind
  listed : ∀ entity ∈ gathering.entities, p entity.kind

variable {κ : Type} [DecidableEq κ] {gathering : Gathering κ} {p : Kind → Prop} {kind : Kind}

lemma kinds_empty : (empty : Gathering κ).Kinds p := ⟨by simp, by simp [empty]⟩

lemma Kinds.append (h : gathering.Kinds p) (piece : Text) : (gathering.append piece).Kinds p := by
  refine ⟨fun key draft found => ?_, fun entity member => ?_⟩
  · obtain ⟨old, hold, -, kind⟩ := draft?_append_eq_some found
    rw [kind]
    exact h.started key old hold
  · rw [entities_append] at member
    exact h.listed entity member

lemma Kinds.start (h : gathering.Kinds p) (new : p kind) (key : κ) :
    (gathering.start key kind).Kinds p := by
  refine ⟨fun other draft found => ?_, fun entity member => ?_⟩
  · rcases draft?_start_eq_some found with ⟨-, rfl⟩ | old
    · exact new
    · exact h.started other draft old
  · rw [entities_start] at member
    exact h.listed entity member

lemma Kinds.setKind (h : gathering.Kinds p) (new : p kind) (key : κ) :
    (gathering.revise key (·.setKind kind)).Kinds p := by
  refine ⟨fun other draft found => ?_, h.listed⟩
  obtain ⟨old, hold, ⟨-, rfl⟩ | rfl⟩ := draft?_revise_eq_some found
  · exact new
  · exact h.started other draft hold

lemma Kinds.abandon (h : gathering.Kinds p) (key : κ) : (gathering.abandon key).Kinds p :=
  ⟨fun other draft found => h.started other draft (draft?_abandon_eq_some found).2, h.listed⟩

lemma Kinds.finish (h : gathering.Kinds p) (key : κ) : (gathering.finish key).Kinds p := by
  refine ⟨fun other draft found => h.started other draft (draft?_finish_eq_some found).2,
    fun entity member => ?_⟩
  rw [entities_finish] at member
  rcases List.mem_append.1 member with old | new
  · exact h.listed entity old
  · obtain ⟨draft, isOpen, rfl⟩ := Option.map_eq_some_iff.1 (Option.mem_toList.1 new)
    exact h.started key draft isOpen

end Gathering

namespace Markdown

/-- A language, if there is one, has one line. -/
def OneLine (kind : Kind) : Prop := ∀ language, kind = .pre language → '\n' ∉ language

lemma oneLine_of_isCode {kind : Kind} (verbatim : kind.isCode = false) : OneLine kind := by
  rintro language rfl
  cases verbatim

lemma oneLine_ofSource (settings : Settings) (source : Text) :
    (Reading.ofSource settings source).gathered.Kinds OneLine := by
  have keeps : Keeps settings fun _ gathering => gathering.Kinds OneLine :=
    { append := fun h piece => h.append piece
      start := fun h _ _ verbatim => h.start (oneLine_of_isCode verbatim) _
      finish := fun h _ _ _ => h.finish _
      code := fun h _ _ line piece => ((h.start line _).append piece).finish _
      enter := fun h => h.start (oneLine_of_isCode rfl) _
      leave := fun h _ _ found =>
        (h.setKind (oneLine_of_isCode (isCode_of_isLink (isLink_of_linkKind? found))) _).finish _
      drop := fun h => h.abandon _ }
  exact keeps.ofSource Gathering.kinds_empty source

/-- The languages that are read have one line. -/
lemma oneLine_read (settings : Settings) (source : Text) :
    ∀ entity ∈ (read settings source).entities, OneLine entity.kind := by
  intro entity member
  obtain ⟨old, listed, left⟩ := List.mem_filterMap.1 member
  rw [Entity.kind_of_clip? left]
  exact (oneLine_ofSource settings source).listed old listed

/-! ## Reading again -/

variable {source : Text} {entities : List Entity}

/-- **What was read is read again with its text if Markdown can express it**, in whatever order its
entities are listed: if, in the nesting that is written, code encloses nothing, and block quotes
start with a line and have no marks right before them.  It is enough that positions reach to the end
of the text.

It is not read again with its text if Markdown cannot express it, however long it is, unless its
marks are not read one by one: where code encloses a backtick, as of the target of a link, or a
block quote another. -/
theorem text_read_again_iff (same : entities.Perm (read {} source).entities) :
    (Gathering.Short (Reading.ofSource {} source).gathered.text →
      Expressible {} ⟨(read {} source).text, entities⟩ →
        (read {} (style.write {} (read {} source).text entities)).text = (read {} source).text) ∧
    (Sealed {} (read {} source).text false
        (Forest.ofEntities (Utf16.unitCount (read {} source).text) entities) →
      ((read {} (style.write {} (read {} source).text entities)).text = (read {} source).text ↔
        Expressible {} ⟨(read {} source).text, entities⟩)) := by
  refine ⟨fun short expressible => ?_, fun isSealed => ⟨fun again => ?_, fun expressible => ?_⟩⟩
  · have filled := (quoting_ofSource {} source).filled short same
    exact (expressible.text_read filled).trans (Text.trim_trim _)
  · exact sayable_of_text_read (fun _ _ => bare_eq rfl _)
      (fun entity member => oneLine_read {} source entity (same.mem_iff.1 member)) isSealed again
  · rw [read, Message.text_trim, text_gathered {} isSealed expressible]
    exact Text.trim_trim _

/-- A block quote that starts with bold type is read again if it is listed first, and not if it is
listed as it closes, behind the bold type. -/
theorem text_read_again_quote_first :
    (([⟨0, 3, .blockquote⟩, ⟨0, 1, .bold⟩] : List Entity).Perm
        (read {} "> **b** c".toList).entities ∧
      (read {} (style.write {} (read {} "> **b** c".toList).text
        [⟨0, 3, .blockquote⟩, ⟨0, 1, .bold⟩])).text = (read {} "> **b** c".toList).text) ∧
    (([⟨0, 1, .bold⟩, ⟨0, 3, .blockquote⟩] : List Entity).Perm
        (read {} "> **b** c".toList).entities ∧
      (read {} (style.write {} (read {} "> **b** c".toList).text
        [⟨0, 1, .bold⟩, ⟨0, 3, .blockquote⟩])).text ≠ (read {} "> **b** c".toList).text) := by
  have text : (Reading.ofSource {} "> **b** c".toList).gathered.text = "b c".toList := by decide +kernel
  have short : Gathering.Short (Reading.ofSource {} "> **b** c".toList).gathered.text := by
    rw [text]
    decide
  have readText : (read {} "> **b** c".toList).text = "b c".toList := by decide +kernel
  have closing : ([⟨0, 1, .bold⟩, ⟨0, 3, .blockquote⟩] : List Entity) =
      (read {} "> **b** c".toList).entities := by decide +kernel
  have closes := List.Perm.of_eq closing
  have opens := (List.Perm.swap _ _ _).trans closes
  have units : Utf16.unitCount "b c".toList = 3 := by decide
  have outer : Forest.ofEntities 3 [⟨0, 3, .blockquote⟩, ⟨0, 1, .bold⟩] =
      .cons ⟨0, ⟨0, 3, .blockquote⟩, 0, 3⟩ (.cons ⟨1, ⟨0, 1, .bold⟩, 0, 1⟩ .nil .nil) .nil := by
    rw [Forest.ofEntities, Forest.byOffset_of_inOrder (by decide)]
    decide +kernel
  have inner : Forest.ofEntities 3 [⟨0, 1, .bold⟩, ⟨0, 3, .blockquote⟩] =
      .cons ⟨0, ⟨0, 1, .bold⟩, 0, 1⟩ (.cons ⟨1, ⟨0, 3, .blockquote⟩, 0, 1⟩ .nil .nil) .nil := by
    rw [Forest.ofEntities, Forest.byOffset_of_inOrder (by decide)]
    decide +kernel
  have expressible : Expressible {} ⟨(read {} "> **b** c".toList).text,
      [⟨0, 3, .blockquote⟩, ⟨0, 1, .bold⟩]⟩ := by
    rw [Expressible, readText, units, outer]
    decide +kernel
  have inexpressible : ¬ Expressible {} ⟨(read {} "> **b** c".toList).text,
      [⟨0, 1, .bold⟩, ⟨0, 3, .blockquote⟩]⟩ := by
    rw [Expressible, readText, units, inner]
    decide +kernel
  have isSealed : Sealed {} (read {} "> **b** c".toList).text false
      (Forest.ofEntities (Utf16.unitCount (read {} "> **b** c".toList).text)
        [⟨0, 1, .bold⟩, ⟨0, 3, .blockquote⟩]) := by
    rw [readText, units, inner]
    simp [Sealed, Kind.isCode]
  exact ⟨⟨opens, (text_read_again_iff opens).1 short expressible⟩,
    ⟨closes, fun again => inexpressible (((text_read_again_iff closes).2 isSealed).1 again)⟩⟩

end Markdown

end RichText
