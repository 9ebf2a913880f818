import Mathlib.Data.List.Nodup
import Mathlib.Tactic.Lemma
import RichText.Proofs.Forests

/-!
# What a nesting keeps

Nothing is asked of the entities that are written: they may be listed in any order, cross one
another, start before the text or behind it and split characters.  Whatever they are, the one pass
that writes them follows a forest, the same for every writer, and that forest loses nothing.

* Every entity that does not start before the text is in it once, and no other is.  A span is as
  long as its entity, but for what lies behind the text or behind the span around it
  (`Forest.inPlace_nest`), so that any two spans are nested or disjoint
  (`Forest.Within.nestedOrDisjoint`).  `Writer.exists_nesting` puts this together.
* The gaps between the spans hold the text: a writer that leaves every part as it is writes the text
  and nothing else (`Writer.write_of_transparent`).
-/

namespace RichText

namespace Forest

variable {size position limit : Nat} {forest : Forest}

/-! ## Where spans lie -/

/-- Every span starts where its entity does, or at the end of a text of `size` code units if that
is before, and covers what its entity covers of the text and of the span around it, which ends at
`limit`. -/
def InPlace (size limit : Nat) : Forest → Prop
  | nil => True
  | cons span inner after =>
    span.start = min span.entity.offset.toNat size ∧
      span.stop = min (min (span.start + span.entity.length.toNat) size) limit ∧
      InPlace size span.stop inner ∧ InPlace size limit after

/-- **Spans are where their entities are.**  A span starts before the end of the one around it,
and so none but those behind the text are moved. -/
lemma inPlace_nest {entries : List (Entity × Nat)} (within : limit ≤ size)
    (early : limit = size ∨ ∀ entry ∈ entries, entry.1.offset.toNat < limit) :
    InPlace size limit (nest position limit entries) := by
  fun_induction nest position limit entries with
  | case1 => trivial
  | case2 position limit entity index later passed ih =>
    exact ih within (early.imp_right fun early entry member =>
      early entry (List.mem_cons_of_mem _ member))
  | case3 position limit entity index later kept start stop ihInner ihAfter =>
    have hstop : stop = min (start + entity.length.toNat) limit := rfl
    have first : start = min entity.offset.toNat size := by
      have hstart : start = min entity.offset.toNat limit := rfl
      rcases early with whole | early
      · rw [hstart, whole]
      · have := early _ List.mem_cons_self
        simp only at this
        omega
    have last : stop = min (min (start + entity.length.toNat) size) limit := by omega
    have inner : InPlace size stop (nest start stop (startingBefore stop later)) := by
      refine ihInner (by omega) (.inr fun entry member => ?_)
      simpa using (List.mem_filter.1 member).2
    have after : InPlace size limit (nest stop limit later) :=
      ihAfter within (early.imp_right fun early entry member =>
        early entry (List.mem_cons_of_mem _ member))
    exact ⟨first, last, inner, after⟩

/-- The spans of a forest within a stretch lie in it. -/
lemma Within.bounds (h : Within position limit forest) {span : Span}
    (member : span ∈ forest.spans) :
    position ≤ span.start ∧ span.start ≤ span.stop ∧ span.stop ≤ limit := by
  induction forest generalizing position limit with
  | nil => simp at member
  | cons first inner after ihInner ihAfter =>
    obtain ⟨start, hinner, hafter⟩ := h
    have order := hinner.le
    have last := hafter.le
    rw [spans_cons, List.mem_cons, List.mem_append] at member
    rcases member with rfl | inside | behind
    · exact ⟨start, order, last⟩
    · have := ihInner hinner inside
      omega
    · have := ihAfter hafter behind
      omega

/-- **Any two spans are nested or disjoint.** -/
lemma Within.nestedOrDisjoint (h : Within position limit forest) :
    forest.spans.Pairwise fun first second => first.stop ≤ second.start ∨
      first.start ≤ second.start ∧ second.stop ≤ first.stop := by
  induction forest generalizing position limit with
  | nil => exact .nil
  | cons span inner after ihInner ihAfter =>
    obtain ⟨-, hinner, hafter⟩ := h
    rw [spans_cons, List.pairwise_cons, List.pairwise_append]
    refine ⟨fun second member => ?_, ihInner hinner, ihAfter hafter, fun first inside second
      behind => ?_⟩
    · rcases List.mem_append.1 member with inside | behind
      · obtain ⟨start, -, stop⟩ := hinner.bounds inside
        exact .inr ⟨start, stop⟩
      · exact .inl (hafter.bounds behind).1
    · exact .inl ((hinner.bounds inside).2.2.trans (hafter.bounds behind).1)

/-! ## Which entities have spans -/

lemma getElem?_index {entities : List Entity} {span : Span}
    (member : span ∈ (ofEntities size entities).spans) :
    entities[span.index]? = some span.entity := by
  have entry := mem_of_mem_spans_nest member
  rw [byOffset, List.mem_mergeSort] at entry
  exact List.mem_zipIdx_iff_getElem?.1 entry

/-- The places of a list that have spans, up to their order. -/
lemma indices_perm (size : Nat) (entities : List Entity) :
    ((ofEntities size entities).spans.map Span.index).Perm
      ((entities.zipIdx.filter fun entry => 0 ≤ entry.1.offset).map Prod.snd) := by
  have spans := congrArg (List.map Prod.snd) (spans_nest 0 size (sorted_byOffset entities))
  simp only [List.map_map, Function.comp_def, Nat.zero_le, and_true] at spans
  rw [ofEntities, spans]
  exact ((List.mergeSort_perm _ _).filter _).map _

/-- **Every entity has one span**, unless it starts before the text: then it has none. -/
lemma count_index (size : Nat) (entities : List Entity) (index : Nat) :
    ((ofEntities size entities).spans.map Span.index).count index =
      if (entities[index]?).any (fun entity => 0 ≤ entity.offset) then 1 else 0 := by
  have distinct : ((entities.zipIdx.filter fun entry => 0 ≤ entry.1.offset).map
      Prod.snd).Nodup := by
    refine List.Nodup.sublist (List.filter_sublist.map Prod.snd) ?_
    rw [List.zipIdx_map_snd]
    exact List.nodup_range'
  have occurs : index ∈ (entities.zipIdx.filter fun entry => 0 ≤ entry.1.offset).map Prod.snd ↔
      (entities[index]?).any (fun entity => 0 ≤ entity.offset) = true := by
    simp [List.mem_zipIdx_iff_getElem?, Option.any_eq_true]
  rw [(indices_perm size entities).count_eq, distinct.count]
  simp only [occurs]

/-! ## What is between the spans -/

/-- A writer that leaves every part as it is writes the gaps of a forest. -/
lemma write_eq_plainText {writer : Writer} (plain : ∀ text, writer.plain text = text)
    (wrap : ∀ entity value covered, writer.wrap entity value covered = value) (text : Text)
    (position limit : Nat) (forest : Forest) :
    forest.write writer (Utf16.encode text) position limit =
      plainText (Utf16.encode text) position limit forest := by
  have gap (start stop : Nat) : writeGap writer (Utf16.encode text) start stop =
      Utf16.slice (Utf16.encode text) start stop := by
    rw [writeGap_eq (plain []), plain]
  induction forest generalizing position limit with
  | nil => exact gap position limit
  | cons span inner after ihInner ihAfter =>
    rw [write, plainText, gap, wrap, ihInner, ihAfter]

end Forest

namespace Writer

/-- **What is written follows one forest, whoever writes.**  It has a span for every entity that
does not start before the text, and one only; each span is in the place of its entity, as far as
the text and the span around it reach, and any two are nested or disjoint. -/
theorem exists_nesting (text : Text) (entities : List Entity) :
    ∃ forest : Forest,
      (∀ writer : Writer, writer.write text entities =
        forest.write writer (Utf16.encode text) 0 (Utf16.encode text).length) ∧
      (∀ span ∈ forest.spans, entities[span.index]? = some span.entity) ∧
      (∀ index, (forest.spans.map Span.index).count index =
        if (entities[index]?).any (fun entity => 0 ≤ entity.offset) then 1 else 0) ∧
      forest.InPlace (Utf16.encode text).length (Utf16.encode text).length ∧
      forest.spans.Pairwise fun first second => first.stop ≤ second.start ∨
        first.start ≤ second.start ∧ second.stop ≤ first.stop := by
  refine ⟨.ofEntities (Utf16.encode text).length entities,
    fun writer => writer.write_eq text entities,
    fun span member => Forest.getElem?_index member, Forest.count_index _ entities,
    Forest.inPlace_nest (Nat.le_refl _) (.inl rfl), ?_⟩
  exact (Forest.within_nest (Nat.zero_le _) _).nestedOrDisjoint

/-- **Writing loses no text and adds none.**  A writer that leaves plain text and the inside of
every entity as they are writes the text, whatever the entities. -/
theorem write_of_transparent {writer : Writer} (plain : ∀ text, writer.plain text = text)
    (wrap : ∀ entity value covered, writer.wrap entity value covered = value) (text : Text)
    (entities : List Entity) : writer.write text entities = text := by
  have within : (Forest.ofEntities (Utf16.encode text).length entities).Within 0
      (Utf16.encode text).length := Forest.within_nest (Nat.zero_le _) _
  calc writer.write text entities
      = (Forest.ofEntities (Utf16.encode text).length entities).write writer (Utf16.encode text) 0
          (Utf16.encode text).length := writer.write_eq text entities
    _ = (Forest.ofEntities (Utf16.encode text).length entities).plainText (Utf16.encode text) 0
          (Utf16.encode text).length := Forest.write_eq_plainText plain wrap text _ _ _
    _ = Utf16.slice (Utf16.encode text) 0 (Utf16.encode text).length :=
        Forest.plainText_eq_slice within
    _ = text := Utf16.slice_all text

/-- The writer that leaves every part as it is. -/
def transparent : Writer := ⟨id, fun _ value _ => value⟩

/-- Entities that cross one another, split a character and reach out of the text at either end. -/
theorem write_of_transparent_astray :
    ((∀ text, transparent.plain text = text) ∧
      ∀ entity value covered, transparent.wrap entity value covered = value) ∧
    transparent.write "a😀b".toList
      [⟨2, 9, .bold⟩, ⟨-1, 3, .code⟩, ⟨0, 3, .blockquote⟩, ⟨7, 1, .url⟩] = "a😀b".toList :=
  ⟨⟨fun _ => rfl, fun _ _ _ => rfl⟩,
    write_of_transparent (fun _ => rfl) (fun _ _ _ => rfl) _ _⟩

end Writer

end RichText
