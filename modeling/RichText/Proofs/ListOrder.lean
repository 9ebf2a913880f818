import Mathlib.Algebra.Order.BigOperators.Group.List
import Mathlib.Data.List.Pairwise
import RichText.Dialect
import RichText.Proofs.Conservation
import RichText.Proofs.Html.Weights

/-!
# The order of a list of entities

Entities that are nested or disjoint, no two over the same stretch (`Separable`), have one nesting
in which each lies in its own place.  Those that start apart are sorted into it whatever the order
of their list, but of two that start together the one listed first goes around the other, and if
that is the shorter one, the longer is cut off where it ends.

So a list is nested by what its entities cover just if it is `OuterFirst`
(`Separable.inPlace_iff_outerFirst`), and all such lists of the same entities are written alike,
whoever writes (`Writer.write_of_outerFirst`).  The order in which entities end, which is the one
that readers list them in, has entities that start together the other way round.

In HTML the markup tells the two apart: what is written for a list that is not `OuterFirst` has less
text within its tags (`Html.messageWeight_lt`), and so no such list is written as the others are
(`Html.outerFirst_of_write_eq`).
-/

namespace RichText

/-! ## Lists of nested or disjoint entities -/

namespace Entity

/-- The first entity starts before the second, or with it and ends no earlier. -/
def Precedes (first second : Entity) : Prop :=
  first.offset < second.offset ∨ first.offset = second.offset ∧ second.length ≤ first.length

instance (first second : Entity) : Decidable (first.Precedes second) :=
  inferInstanceAs (Decidable (_ ∨ _ ∧ _))

/-- The entities are disjoint, or one lies in the other. -/
def Nestable (first second : Entity) : Prop :=
  first.Before second ∨ second.Before first ∨ first.Encloses second ∨ second.Encloses first

instance (first second : Entity) : Decidable (first.Nestable second) :=
  inferInstanceAs (Decidable (_ ∨ _ ∨ _ ∨ _))

/-- The entities cover different stretches. -/
def Differs (first second : Entity) : Prop :=
  first.offset ≠ second.offset ∨ first.length ≠ second.length

instance (first second : Entity) : Decidable (first.Differs second) :=
  inferInstanceAs (Decidable (_ ∨ _))

instance : Std.Symm Differs := ⟨fun _ _ differ => differ.imp Ne.symm Ne.symm⟩

end Entity

/-- The entities lie in a text of `size` code units, any two of them are disjoint or nested, and no
two cover the same stretch.  Nothing is said of their order. -/
structure Separable (size : Nat) (entities : List Entity) : Prop where
  liesIn : ∀ entity ∈ entities, entity.LiesIn size
  nestable : entities.Pairwise Entity.Nestable
  differ : entities.Pairwise Entity.Differs

instance (size : Nat) (entities : List Entity) : Decidable (Separable size entities) :=
  decidable_of_iff (_ ∧ _ ∧ _)
    ⟨fun h => ⟨h.1, h.2.1, h.2.2⟩, fun h => ⟨h.liesIn, h.nestable, h.differ⟩⟩

/-- Of the entities that start together the longer are listed first. -/
def OuterFirst (entities : List Entity) : Prop :=
  entities.Pairwise fun first second =>
    first.offset = second.offset → second.length ≤ first.length

instance (entities : List Entity) : Decidable (OuterFirst entities) :=
  inferInstanceAs (Decidable (List.Pairwise _ _))

/-- Entities by offset, and of those that start together the longer first. -/
def outermostFirst (entities : List Entity) : List Entity :=
  entities.mergeSort fun first second => first.Precedes second

variable {size : Nat} {entities listed : List Entity}

lemma perm_outermostFirst (entities : List Entity) : (outermostFirst entities).Perm entities :=
  List.mergeSort_perm _ _

lemma precedes_outermostFirst (entities : List Entity) :
    (outermostFirst entities).Pairwise Entity.Precedes := by
  refine (List.pairwise_mergeSort (fun first second third h further => ?_)
    (fun first second => ?_) entities).imp of_decide_eq_true
  · rw [decide_eq_true_eq, Entity.Precedes] at *
    omega
  · rw [Bool.or_eq_true, decide_eq_true_eq, decide_eq_true_eq, Entity.Precedes, Entity.Precedes]
    omega

lemma outerFirst_outermostFirst (entities : List Entity) : OuterFirst (outermostFirst entities) := by
  refine (precedes_outermostFirst entities).imp fun precedes together => ?_
  rw [Entity.Precedes] at precedes
  omega

namespace Separable

lemma perm (h : Separable size entities) (same : listed.Perm entities) :
    Separable size listed := by
  refine ⟨fun entity member => h.liesIn entity (same.mem_iff.1 member),
    same.symm.pairwise h.nestable fun related => ?_, same.symm.pairwise h.differ (Std.Symm.symm _ _)⟩
  simp only [Entity.Nestable] at *
  tauto

lemma wellNested (h : Separable size listed) (precedes : listed.Pairwise Entity.Precedes) :
    WellNested size listed := by
  refine ⟨h.liesIn, (List.Pairwise.and_mem.1 (precedes.and h.nestable)).imp ?_⟩
  rintro first second ⟨hfirst, hsecond, order, related⟩
  have filled := (h.liesIn first hfirst).2.1
  have other := (h.liesIn second hsecond).2.1
  simp only [Entity.Precedes, Entity.Nestable, Entity.Before, Entity.Encloses] at *
  omega

/-- **By offset there is one list with the longer first.** -/
lemma byOffset_of_outerFirst (h : Separable size entities) (same : listed.Perm entities)
    (outer : OuterFirst listed) :
    (listed.mergeSort fun first second => first.offset ≤ second.offset) =
      outermostFirst entities := by
  have sorted := Forest.pairwise_byOffset (r := Entity.Precedes)
    (outer.imp fun longer together => .inr ⟨together, longer together⟩)
    fun _ _ _ _ before => .inl before
  rw [← List.pairwise_map (f := Prod.fst), Forest.map_fst_byOffset] at sorted
  have whole := (List.mergeSort_perm listed fun first second => first.offset ≤ second.offset).trans
    (same.trans (perm_outermostFirst entities).symm)
  refine List.Perm.eq_of_pairwise (fun first second hfirst hsecond order back => ?_) sorted
    (precedes_outermostFirst entities) whole
  by_contra other
  have differ := h.differ.forall (same.mem_iff.1 (List.mem_mergeSort.1 hfirst))
    ((perm_outermostFirst entities).mem_iff.1 hsecond) other
  simp only [Entity.Precedes, Entity.Differs] at *
  omega

end Separable

/-! ## How such a list is nested -/

namespace Separable

/-- Entities with the longer first have their places. -/
lemma matches_ofEntities (h : Separable size listed) (outer : OuterFirst listed) :
    Forest.Matches Entity.Differs 0 size (Forest.ofEntities size listed) := by
  have canonical := h.perm (perm_outermostFirst listed)
  have nested := (canonical.wellNested (precedes_outermostFirst listed)).nested
  have related := (nested.and canonical.differ).imp
    fun {first second} (⟨related, differ⟩ : (first.Before second ∨ first.Encloses second) ∧ _) =>
      related.imp_right fun encloses => And.intro encloses differ
  rw [← h.byOffset_of_outerFirst (.refl _) outer, ← Forest.map_fst_byOffset] at related
  refine Forest.matches_nest (Nat.zero_le size) (fun entry member => ?_) (List.pairwise_map.1 related)
  rw [Forest.byOffset, List.mem_mergeSort, List.mem_zipIdx_iff_getElem?] at member
  obtain ⟨offset, length, fits⟩ := h.liesIn _ (List.mem_of_getElem? member)
  exact ⟨offset, length, fun _ => fits⟩

lemma entities_spans (h : Separable size listed) :
    (Forest.ofEntities size listed).spans.map Span.entity =
      listed.mergeSort fun first second => first.offset ≤ second.offset := by
  rw [Forest.entities_ofEntities, Forest.map_fst_byOffset]
  refine List.filter_eq_self.2 fun entity member => ?_
  simpa using (h.liesIn entity (List.mem_mergeSort.1 member)).1

/-- **A list is nested by what its entities cover just if the longer come first.** -/
lemma inPlace_iff_outerFirst (h : Separable size listed) :
    (∀ span ∈ (Forest.ofEntities size listed).spans, span.entity.offset = span.start ∧
      span.entity.offset + span.entity.length = span.stop) ↔ OuterFirst listed := by
  refine ⟨fun inPlace => ?_, fun outer span => (h.matches_ofEntities outer).place⟩
  have within := Forest.within_nest (Nat.zero_le size) (Forest.byOffset listed)
  have related : ((Forest.ofEntities size listed).spans.map Span.entity).Pairwise
      fun first second => first.Before second ∨ first.Encloses second := by
    refine List.pairwise_map.2 ((List.Pairwise.and_mem.1 within.nestedOrDisjoint).imp ?_)
    rintro first second ⟨hfirst, hsecond, related⟩
    have := inPlace first hfirst
    have := inPlace second hsecond
    simp only [Entity.Before, Entity.Encloses]
    omega
  rw [h.entities_spans] at related
  refine List.pairwise_iff_forall_sublist.2 fun {first second} pair together => ?_
  -- entities that start together are in list order
  have kept : [first, second].Sublist
      (listed.mergeSort fun first second => decide (first.offset ≤ second.offset)) := by
    refine List.pair_sublist_mergeSort (fun _ _ _ front back => ?_) (fun _ _ => ?_) ?_ pair
    · rw [decide_eq_true_eq] at *
      exact front.trans back
    · rw [Bool.or_eq_true, decide_eq_true_eq, decide_eq_true_eq]
      exact Int.le_total _ _
    · rw [decide_eq_true_eq]
      exact together.le
  have encloses := List.pairwise_iff_forall_sublist.1 related kept
  have filled := (h.liesIn first (pair.subset List.mem_cons_self)).2.1
  simp only [Entity.Before, Entity.Encloses] at encloses
  omega

end Separable

/-! ## What is written for such a list -/

/-- **Lists with the longer first are written alike.** -/
lemma Writer.write_of_outerFirst (writer : Writer) (text : Text) (h : Separable size entities)
    (same : listed.Perm entities) (outer : OuterFirst listed) :
    writer.write text listed = writer.write text (outermostFirst entities) := by
  have sorted := h.byOffset_of_outerFirst same outer
  have again := h.byOffset_of_outerFirst (perm_outermostFirst entities)
    (outerFirst_outermostFirst entities)
  rw [Writer.write, Writer.write, sorted, again]

/-! ## What the markup of HTML tells of the order -/

/-- Entities of a text that split no character. -/
def OnCharacters (text : Text) (entities : List Entity) : Prop :=
  ∀ entity ∈ entities, Utf16.Between text entity.offset.toNat ∧
    Utf16.Between text (entity.offset + entity.length).toNat

instance (text : Text) (entities : List Entity) : Decidable (OnCharacters text entities) :=
  inferInstanceAs (Decidable (∀ entity ∈ entities, _))

/-- A span of entities that lie in the text starts where its entity does and ends no later, and it
splits no character if they do not. -/
lemma Forest.InPlace.place {text : Text} {limit : Nat} {forest : Forest}
    (h : forest.InPlace (Utf16.unitCount text) limit) (between : Utf16.Between text limit)
    (liesIn : ∀ span ∈ forest.spans, span.entity.LiesIn (Utf16.unitCount text))
    (characters : OnCharacters text (forest.spans.map Span.entity)) :
    ∀ span ∈ forest.spans, span.start = span.entity.offset.toNat ∧
      span.stop ≤ span.start + span.entity.length.toNat ∧ Utf16.Between text span.stop := by
  induction forest generalizing limit with
  | nil => simp
  | cons first inner after ihInner ihAfter =>
    obtain ⟨start, stop, hinner, hafter⟩ := h
    simp only [spans_cons, List.forall_mem_cons, List.forall_mem_append, OnCharacters,
      List.map_cons, List.map_append] at liesIn characters ⊢
    obtain ⟨⟨offset, filled, fits⟩, insideIn, behindIn⟩ := liesIn
    obtain ⟨own, insideOn, behindOn⟩ := characters
    have ends : (first.entity.offset + first.entity.length).toNat =
        first.start + first.entity.length.toNat := by omega
    have place : first.start = first.entity.offset.toNat ∧
        first.stop = min (first.entity.offset + first.entity.length).toNat limit := by omega
    have last : Utf16.Between text first.stop := by
      rw [place.2]
      exact own.2.nearer between
    exact ⟨⟨place.1, by omega, last⟩, ihInner hinner last insideIn insideOn,
      ihAfter hafter between behindIn behindOn⟩

/-- Whatever the order of the list, a span starts where its entity does and ends no later. -/
lemma Separable.place_spans {text : Text} (h : Separable (Utf16.unitCount text) listed)
    (characters : OnCharacters text listed) :
    ∀ span ∈ (Forest.ofEntities (Utf16.unitCount text) listed).spans,
      span.start = span.entity.offset.toNat ∧ span.start ≤ span.stop ∧
        span.stop ≤ span.start + span.entity.length.toNat ∧ Utf16.Between text span.stop := by
  intro span member
  have within := Forest.within_nest (Nat.zero_le (Utf16.unitCount text)) (Forest.byOffset listed)
  have inPlace : (Forest.ofEntities (Utf16.unitCount text) listed).InPlace
      (Utf16.unitCount text) (Utf16.unitCount text) :=
    Forest.inPlace_nest (Nat.le_refl _) (.inl rfl)
  obtain ⟨start, stop, between⟩ := inPlace.place (Utf16.between_unitCount text)
    (fun span member => h.liesIn _ (Forest.entity_mem_of_mem_spans member))
    (List.forall_mem_map.2 fun span member =>
      characters _ (Forest.entity_mem_of_mem_spans member)) span member
  exact ⟨start, (within.bounds member).2.1, stop, between⟩

namespace Html

variable {text : Text} {settings : Settings}

/-- What the entities of a list have, added up by the spans of its nesting. -/
lemma sum_entityWeight (h : Separable (Utf16.unitCount text) listed) :
    ((Forest.ofEntities (Utf16.unitCount text) listed).nodes.map fun node =>
        entityWeight settings (Utf16.encode text) node.1.entity).sum =
      (listed.map (entityWeight settings (Utf16.encode text))).sum := by
  have entities := congrArg (List.map (entityWeight settings (Utf16.encode text))) h.entities_spans
  rw [← Forest.map_fst_nodes, List.map_map, List.map_map] at entities
  exact (congrArg List.sum entities).trans ((List.mergeSort_perm listed _).map _).sum_eq

/-- **With the longer first nothing is lost.** -/
lemma messageWeight_of_outerFirst (enabled : settings.customEmoji = true)
    (h : Separable (Utf16.unitCount text) listed) (characters : OnCharacters text listed)
    (outer : OuterFirst listed) :
    messageWeight settings text listed =
      (listed.map (entityWeight settings (Utf16.encode text))).sum := by
  have hmatches := h.matches_ofEntities outer
  have between (span : Span)
      (member : span ∈ (Forest.ofEntities (Utf16.unitCount text) listed).spans) :
      Utf16.Between text span.start ∧ Utf16.Between text span.stop := by
    obtain ⟨offset, stop⟩ := hmatches.place member
    have own := characters span.entity (Forest.entity_mem_of_mem_spans member)
    rwa [stop, offset, Int.toNat_natCast, Int.toNat_natCast] at own
  rw [← sum_entityWeight h, messageWeight]
  refine congrArg List.sum (List.map_congr_left fun node member => ?_)
  obtain ⟨offset, stop⟩ := hmatches.place (Forest.mem_spans_of_mem_nodes member)
  obtain ⟨start, ends⟩ := between _ (Forest.mem_spans_of_mem_nodes member)
  obtain ⟨-, filled, -⟩ := h.liesIn _
    (Forest.entity_mem_of_mem_spans (Forest.mem_spans_of_mem_nodes member))
  obtain ⟨inside, enclosed⟩ := hmatches.of_mem_nodes member
  refine nodeWeight_eq (by omega) (by omega) (spanTags_eq_tagsOf enabled inside.within start ends
    (fun span member => between span (enclosed span member).2) ?_)
  rintro span member - - ⟨sameStart, sameStop⟩
  obtain ⟨spanOffset, spanStop⟩ := inside.place member
  have differ := (enclosed span member).1
  simp only [Entity.Differs] at differ
  omega

/-- **With a shorter first something is lost.** -/
lemma messageWeight_lt (enabled : settings.customEmoji = true)
    (h : Separable (Utf16.unitCount text) listed) (characters : OnCharacters text listed)
    (inner : ¬ OuterFirst listed) :
    messageWeight settings text listed <
      (listed.map (entityWeight settings (Utf16.encode text))).sum := by
  have place := h.place_spans characters
  rw [← h.inPlace_iff_outerFirst] at inner
  obtain ⟨cut, member, off⟩ : ∃ span ∈ (Forest.ofEntities (Utf16.unitCount text) listed).spans,
      ¬ (span.entity.offset = span.start ∧
        span.entity.offset + span.entity.length = span.stop) := by
    by_contra none
    exact inner fun span member => by_contra fun off => none ⟨span, member, off⟩
  obtain ⟨start, order, stop, ends⟩ := place cut member
  have listedIn := Forest.entity_mem_of_mem_spans member
  obtain ⟨low, filled, fits⟩ := h.liesIn _ listedIn
  have own := (characters _ listedIn).2
  rw [show (cut.entity.offset + cut.entity.length).toNat =
    cut.start + cut.entity.length.toNat by omega] at own
  rw [← Forest.map_fst_nodes] at member
  obtain ⟨node, hnode, rfl⟩ := List.mem_map.1 member
  rw [← sum_entityWeight h, messageWeight]
  refine List.sum_lt_sum _ _ (fun other found => ?_) ⟨node, hnode, ?_⟩
  · obtain ⟨otherStart, otherOrder, otherStop, -⟩ := place _ (Forest.mem_spans_of_mem_nodes found)
    exact nodeWeight_le otherStart otherOrder otherStop
  · exact nodeWeight_lt enabled start order (by omega) ends own

/-- **The markup tells whether the longer come first.** -/
lemma outerFirst_of_write_eq (enabled : settings.customEmoji = true)
    (h : Separable (Utf16.unitCount text) entities) (characters : OnCharacters text entities)
    (same : listed.Perm entities)
    (alike : style.write settings text listed =
      style.write settings text (outermostFirst entities)) : OuterFirst listed := by
  by_contra inner
  have perm := perm_outermostFirst entities
  have less := messageWeight_lt enabled (h.perm same)
    (fun entity member => characters entity (same.mem_iff.1 member)) inner
  have whole := messageWeight_of_outerFirst enabled (h.perm perm)
    (fun entity member => characters entity (perm.mem_iff.1 member))
    (outerFirst_outermostFirst entities)
  rw [messageWeight_eq alike, whole, (perm.map _).sum_eq, (same.map _).sum_eq] at less
  exact Nat.lt_irrefl _ less

end Html

namespace Dialect

/-- **Which lists of the same entities are written alike.**  For entities that are nested or disjoint
and cover different stretches, a list is nested by what they cover just if it has the longer first
of those that start together.  All such lists are written alike, in both dialects, and in HTML no
other list is written as they are. -/
theorem write_of_permuted {text : Text} {entities listed : List Entity}
    (h : Separable (Utf16.unitCount text) entities) (same : listed.Perm entities) :
    ((∀ span ∈ (Forest.ofEntities (Utf16.unitCount text) listed).spans,
        span.entity.offset = span.start ∧ span.entity.offset + span.entity.length = span.stop) ↔
      OuterFirst listed) ∧
    (OuterFirst listed → ∀ (dialect : Dialect) (settings : Settings),
      dialect.write settings ⟨text, listed⟩ =
        dialect.write settings ⟨text, outermostFirst entities⟩) ∧
    (OnCharacters text entities →
      (html.write {} ⟨text, listed⟩ = html.write {} ⟨text, outermostFirst entities⟩ ↔
        OuterFirst listed)) := by
  have alike (outer : OuterFirst listed) (dialect : Dialect) (settings : Settings) :
      dialect.write settings ⟨text, listed⟩ =
        dialect.write settings ⟨text, outermostFirst entities⟩ :=
    (dialect.style.writer settings).write_of_outerFirst text h same outer
  exact ⟨(h.perm same).inPlace_iff_outerFirst, alike, fun characters =>
    ⟨Html.outerFirst_of_write_eq rfl h characters same, fun outer => alike outer html {}⟩⟩

example : html.write {} ⟨"b c".toList, [⟨0, 1, .customEmoji 5⟩, ⟨0, 3, .textUrl ['x']⟩]⟩ =
    "<emoji document_id=5><a href=\"x\">b</a></emoji> c".toList :=
  (Writer.write_of_inOrder (by decide)).trans (by decide +kernel)

/-- A link that starts with a custom emoji, italic type behind it and bold type over both, listed
with the longer first and as they end. -/
theorem write_of_permuted_both_ways :
    (Separable (Utf16.unitCount "b🏆c".toList)
        [⟨0, 1, .customEmoji 5⟩, ⟨0, 3, .textUrl ['x']⟩, ⟨3, 1, .italic⟩, ⟨0, 4, .bold⟩] ∧
      ([⟨3, 1, .italic⟩, ⟨0, 4, .bold⟩, ⟨0, 3, .textUrl ['x']⟩, ⟨0, 1, .customEmoji 5⟩] :
          List Entity).Perm
        [⟨0, 1, .customEmoji 5⟩, ⟨0, 3, .textUrl ['x']⟩, ⟨3, 1, .italic⟩, ⟨0, 4, .bold⟩] ∧
      OuterFirst
        [⟨3, 1, .italic⟩, ⟨0, 4, .bold⟩, ⟨0, 3, .textUrl ['x']⟩, ⟨0, 1, .customEmoji 5⟩]) ∧
    ∀ dialect : Dialect,
      dialect.write {} ⟨"b🏆c".toList,
          [⟨3, 1, .italic⟩, ⟨0, 4, .bold⟩, ⟨0, 3, .textUrl ['x']⟩, ⟨0, 1, .customEmoji 5⟩]⟩ =
        dialect.write {} ⟨"b🏆c".toList, outermostFirst
          [⟨0, 1, .customEmoji 5⟩, ⟨0, 3, .textUrl ['x']⟩, ⟨3, 1, .italic⟩, ⟨0, 4, .bold⟩]⟩ ∧
      html.write {} ⟨"b🏆c".toList,
          [⟨0, 1, .customEmoji 5⟩, ⟨0, 3, .textUrl ['x']⟩, ⟨3, 1, .italic⟩, ⟨0, 4, .bold⟩]⟩ ≠
        html.write {} ⟨"b🏆c".toList, outermostFirst
          [⟨0, 1, .customEmoji 5⟩, ⟨0, 3, .textUrl ['x']⟩, ⟨3, 1, .italic⟩, ⟨0, 4, .bold⟩]⟩ := by
  have separable : Separable (Utf16.unitCount "b🏆c".toList)
      [⟨0, 1, .customEmoji 5⟩, ⟨0, 3, .textUrl ['x']⟩, ⟨3, 1, .italic⟩, ⟨0, 4, .bold⟩] := by decide
  have same : ([⟨3, 1, .italic⟩, ⟨0, 4, .bold⟩, ⟨0, 3, .textUrl ['x']⟩, ⟨0, 1, .customEmoji 5⟩] :
        List Entity).Perm
      [⟨0, 1, .customEmoji 5⟩, ⟨0, 3, .textUrl ['x']⟩, ⟨3, 1, .italic⟩, ⟨0, 4, .bold⟩] := by decide
  have outer : OuterFirst
      [⟨3, 1, .italic⟩, ⟨0, 4, .bold⟩, ⟨0, 3, .textUrl ['x']⟩, ⟨0, 1, .customEmoji 5⟩] := by decide
  refine ⟨⟨separable, same, outer⟩, fun dialect =>
    ⟨(write_of_permuted separable same).2.1 outer dialect {}, fun alike => ?_⟩⟩
  have closing := ((write_of_permuted separable (.refl _)).2.2 (by decide)).1 alike
  revert closing
  decide

end Dialect

end RichText
