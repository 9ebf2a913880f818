import Mathlib.Data.List.Sort
import Mathlib.Tactic.Lemma
import RichText.Nesting
import RichText.Proofs.Slices

/-!
# Forests over a text

What a nesting is whatever the entities are, and what it is for entities that are nested already.

* Every nesting stays within the stretch it was made for (`within_nest`), so that its gaps, taken
  in order, hold the text of that stretch and nothing twice (`plainText_eq_slice`).  Every entity
  that does not start before the stretch has one span (`spans_nest`).
* Entities that lie in the text and are nested or disjoint, listed by offset and an outer one
  before those it encloses, are `WellNested`.  Their nesting has each of them once, in their
  order and in its own place (`matches_ofEntities`, `spans_ofEntities`), and they end in the
  order `closingOrder` gives (`closings_eq`).
-/

namespace RichText

namespace Entity

/-- The first entity ends before the second starts. -/
def Before (first second : Entity) : Prop := first.offset + first.length ≤ second.offset

/-- The second entity lies in the stretch of the first. -/
def Encloses (outer inner : Entity) : Prop :=
  outer.offset ≤ inner.offset ∧ inner.offset + inner.length ≤ outer.offset + outer.length

/-- The entity is not empty and lies in a text of `size` code units. -/
def LiesIn (size : Nat) (entity : Entity) : Prop :=
  0 ≤ entity.offset ∧ 0 < entity.length ∧ entity.offset + entity.length ≤ size

instance (first second : Entity) : Decidable (first.Before second) :=
  inferInstanceAs (Decidable (_ ≤ _))

instance (outer inner : Entity) : Decidable (outer.Encloses inner) :=
  inferInstanceAs (Decidable (_ ∧ _))

instance (size : Nat) (entity : Entity) : Decidable (entity.LiesIn size) :=
  inferInstanceAs (Decidable (_ ∧ _ ∧ _))

/-- What comes before an entity, or encloses it, starts no later, if it is not empty. -/
lemma offset_le {first second : Entity} (filled : 0 < first.length)
    (related : first.Before second ∨ first.Encloses second) : first.offset ≤ second.offset := by
  simp only [Before, Encloses] at related
  omega

end Entity

/-- Formatting that carries nothing of its own, and is left out around a custom emoji. -/
def Kind.isFormatting : Kind → Bool
  | bold | italic | underline | strike | spoiler | code | blockquote => true
  | _ => false

/-- The entities lie in a text of `size` code units, any two of them are disjoint or one encloses
the other, and they are listed by offset, an entity before those it encloses. -/
structure WellNested (size : Nat) (entities : List Entity) : Prop where
  liesIn : ∀ entity ∈ entities, entity.LiesIn size
  nested : entities.Pairwise fun first second => first.Before second ∨ first.Encloses second

instance (size : Nat) (entities : List Entity) : Decidable (WellNested size entities) :=
  decidable_of_iff (_ ∧ _) ⟨fun h => ⟨h.1, h.2⟩, fun h => ⟨h.liesIn, h.nested⟩⟩

lemma WellNested.sorted {size : Nat} {entities : List Entity} (h : WellNested size entities) :
    entities.Pairwise fun first second => first.offset ≤ second.offset :=
  (List.Pairwise.and_mem.1 h.nested).imp fun ⟨hfirst, _, related⟩ =>
    Entity.offset_le (h.liesIn _ hfirst).2.1 related

/-- Well-nested entities in the order in which they end.  Of those that end together the one
listed last, which is the innermost, ends first. -/
def closingOrder (entities : List Entity) : List Entity :=
  entities.insertionSort fun first second =>
    first.offset + first.length < second.offset + second.length

lemma perm_closingOrder (entities : List Entity) : (closingOrder entities).Perm entities :=
  List.perm_insertionSort _ entities

namespace Forest

/-! ## Forests within a stretch -/

/-- The spans of the forest follow one another between `position` and `limit`, and the spans
inside each of them between its ends. -/
def Within (position limit : Nat) : Forest → Prop
  | nil => position ≤ limit
  | cons span inner after =>
    position ≤ span.start ∧ Within span.start span.stop inner ∧ Within span.stop limit after

lemma Within.le {position limit : Nat} {forest : Forest} (h : Within position limit forest) :
    position ≤ limit := by
  induction forest generalizing position limit with
  | nil => exact h
  | cons span inner after ihInner ihAfter =>
    obtain ⟨start, hinner, hafter⟩ := h
    exact start.trans ((ihInner hinner).trans (ihAfter hafter))

/-- **A nesting stays within its stretch**, whatever the entities. -/
lemma within_nest {position limit : Nat} (h : position ≤ limit) (entities : List (Entity × Nat)) :
    Within position limit (nest position limit entities) := by
  fun_induction nest position limit entities with
  | case1 => exact h
  | case2 _ _ _ _ _ _ ih => exact ih h
  | case3 position limit entity index later kept start stop ihInner ihAfter =>
    have hstart : start ≤ limit := Nat.min_le_right _ _
    have hstop : start ≤ stop := Nat.le_min.2 ⟨Nat.le_add_right _ _, hstart⟩
    refine ⟨?_, ihInner hstop, ihAfter (Nat.min_le_right _ _)⟩
    show position ≤ min entity.offset.toNat limit
    omega

/-- The text of the gaps of a forest, in order. -/
def plainText (units : List CodeUnit) (position limit : Nat) : Forest → Text
  | nil => Utf16.slice units position limit
  | cons span inner after =>
    Utf16.slice units position span.start ++ plainText units span.start span.stop inner ++
      plainText units span.stop limit after

/-- **The gaps hold the text.**  No character is in two gaps, and none is left out. -/
lemma plainText_eq_slice {text : Text} {position limit : Nat} {forest : Forest}
    (h : Within position limit forest) :
    plainText (Utf16.encode text) position limit forest =
      Utf16.slice (Utf16.encode text) position limit := by
  induction forest generalizing position limit with
  | nil => rfl
  | cons span inner after ihInner ihAfter =>
    obtain ⟨start, hinner, hafter⟩ := h
    rw [plainText, ihInner hinner, ihAfter hafter, Utf16.slice_append start hinner.le,
      Utf16.slice_append (start.trans hinner.le) hafter.le]

/-- A gap is written as its text is, if the empty text is written as nothing. -/
lemma writeGap_eq {writer : Writer} (empty : writer.plain [] = []) (text : Text)
    (start stop : Nat) :
    writeGap writer (Utf16.encode text) start stop =
      writer.plain (Utf16.slice (Utf16.encode text) start stop) := by
  unfold writeGap
  split
  · rfl
  · rw [Utf16.slice_of_le (by omega), empty]

/-- The spans of a forest, each with the forest inside it. -/
def nodes : Forest → List (Span × Forest)
  | nil => []
  | cons span inner after => (span, inner) :: (nodes inner ++ nodes after)

@[simp] lemma map_fst_nodes (forest : Forest) : forest.nodes.map Prod.fst = forest.spans := by
  induction forest with
  | nil => rfl
  | cons span inner after ihInner ihAfter => simp [nodes, ihInner, ihAfter]

lemma mem_spans_of_mem_nodes {forest : Forest} {node : Span × Forest} (h : node ∈ forest.nodes) :
    node.1 ∈ forest.spans := by
  rw [← map_fst_nodes]
  exact List.mem_map_of_mem h

lemma mem_of_mem_spans_nest {position limit : Nat} {entities : List (Entity × Nat)} {span : Span}
    (h : span ∈ (nest position limit entities).spans) : (span.entity, span.index) ∈ entities := by
  fun_induction nest position limit entities with
  | case1 => simp at h
  | case2 _ _ _ _ _ _ ih => exact List.mem_cons_of_mem _ (ih h)
  | case3 position limit entity index later kept start stop ihInner ihAfter =>
    rw [spans_cons, List.mem_cons, List.mem_append] at h
    rcases h with rfl | inside | behind
    · exact List.mem_cons_self
    · exact List.mem_cons_of_mem _ (List.mem_of_mem_filter (ihInner inside))
    · exact List.mem_cons_of_mem _ (ihAfter behind)

lemma entity_mem_of_mem_spans {size : Nat} {entities : List Entity} {span : Span}
    (h : span ∈ (ofEntities size entities).spans) : span.entity ∈ entities := by
  have member := mem_of_mem_spans_nest h
  rw [byOffset, List.mem_mergeSort] at member
  exact (List.mem_zipIdx_iff_getElem?.1 member) |> List.mem_of_getElem?

/-! ## Entities by offset -/

lemma byOffset_total (first second : Entity × Nat) :
    (decide (first.1.offset ≤ second.1.offset) || decide (second.1.offset ≤ first.1.offset)) =
      true := by
  rw [Bool.or_eq_true, decide_eq_true_eq, decide_eq_true_eq]
  exact Int.le_total _ _

lemma byOffset_trans (first second third : Entity × Nat)
    (h : decide (first.1.offset ≤ second.1.offset) = true)
    (further : decide (second.1.offset ≤ third.1.offset) = true) :
    decide (first.1.offset ≤ third.1.offset) = true := by
  rw [decide_eq_true_eq] at *
  exact Int.le_trans h further

lemma sorted_byOffset (entities : List Entity) :
    (byOffset entities).Pairwise fun first second => first.1.offset ≤ second.1.offset :=
  (List.pairwise_mergeSort byOffset_trans byOffset_total entities.zipIdx).imp of_decide_eq_true

/-- The entities at one offset keep their order. -/
lemma filter_byOffset (entities : List Entity) (offset : Int) :
    (byOffset entities).filter (fun entry => entry.1.offset = offset) =
      entities.zipIdx.filter fun entry => entry.1.offset = offset := by
  have together : (entities.zipIdx.filter fun entry => entry.1.offset = offset).Pairwise
      fun first second => decide (first.1.offset ≤ second.1.offset) = true := by
    refine List.pairwise_of_forall_mem_list fun first hfirst second hsecond => ?_
    have same := (List.mem_filter.1 hfirst).2
    have also := (List.mem_filter.1 hsecond).2
    simp only [decide_eq_true_eq] at same also ⊢
    omega
  have sublist := (List.sublist_mergeSort byOffset_trans byOffset_total together
    List.filter_sublist).filter fun entry => entry.1.offset = offset
  rw [List.filter_filter] at sublist
  simp only [Bool.and_self] at sublist
  refine (sublist.eq_of_length ?_).symm
  exact (((List.mergeSort_perm entities.zipIdx _).filter _).length_eq).symm

/-- **Sorting by offset is stable.**  What holds between entities with one offset in list order,
and between any two that start one after the other, holds between all of them by offset. -/
lemma pairwise_byOffset {entities : List Entity} {r : Entity → Entity → Prop}
    (ties : entities.Pairwise fun first second => first.offset = second.offset → r first second)
    (ordered : ∀ first ∈ entities, ∀ second ∈ entities, first.offset < second.offset →
      r first second) :
    (byOffset entities).Pairwise fun first second => r first.1 second.1 := by
  have entry (e : Entity × Nat) (member : e ∈ byOffset entities) : e.1 ∈ entities := by
    rw [byOffset, List.mem_mergeSort] at member
    exact List.mem_of_getElem? (List.mem_zipIdx_iff_getElem?.1 member)
  have mapped : (entities.zipIdx.map Prod.fst).Pairwise fun first second =>
      first.offset = second.offset → r first second := by
    rwa [List.zipIdx_map_fst]
  refine List.pairwise_iff_forall_sublist.2 fun {first second} pair => ?_
  have le := List.pairwise_iff_forall_sublist.1 (sorted_byOffset entities) pair
  have hfirst := entry first (pair.subset (by simp))
  have hsecond := entry second (pair.subset (by simp))
  rcases Int.lt_or_eq_of_le le with lt | same
  · exact ordered _ hfirst _ hsecond lt
  · -- entities that start together are in list order
    have kept := pair.filter fun entry => entry.1.offset = second.1.offset
    rw [filter_byOffset] at kept
    simp only [same, List.filter_cons, decide_true, if_true, List.filter_nil] at kept
    exact List.pairwise_iff_forall_sublist.1 (List.pairwise_map.1 mapped)
      (kept.trans List.filter_sublist) same

/-- A list by offset is the entities that start before a position and then the others. -/
lemma startingBefore_append {entities : List (Entity × Nat)} (stop : Nat)
    (sorted : entities.Pairwise fun first second => first.1.offset ≤ second.1.offset) :
    startingBefore stop entities ++
      entities.filter (fun entry => stop ≤ entry.1.offset.toNat) = entities := by
  induction entities with
  | nil => rfl
  | cons first rest ih =>
    obtain ⟨least, further⟩ := List.pairwise_cons.1 sorted
    by_cases early : first.1.offset.toNat < stop
    · have late : ¬ stop ≤ first.1.offset.toNat := by omega
      simpa [startingBefore, early, late] using ih further
    · have none : startingBefore stop rest = [] := by
        refine List.filter_eq_nil_iff.2 fun entry member => ?_
        have := least entry member
        simp only [decide_eq_true_eq]
        omega
      have all : rest.filter (fun entry => stop ≤ entry.1.offset.toNat) = rest := by
        refine List.filter_eq_self.2 fun entry member => ?_
        have := least entry member
        simp only [decide_eq_true_eq]
        omega
      have late : stop ≤ first.1.offset.toNat := by omega
      have dropped : startingBefore stop (first :: rest) = startingBefore stop rest := by
        simp [startingBefore, early]
      rw [dropped, none, List.filter_cons_of_pos (by simpa using late), all, List.nil_append]

/-- **Nothing is lost in a nesting, and nothing is nested twice.**  By offset, every entity that
starts in the stretch or behind it has one span, in the order of the list. -/
lemma spans_nest {entities : List (Entity × Nat)} (position limit : Nat)
    (sorted : entities.Pairwise fun first second => first.1.offset ≤ second.1.offset) :
    (nest position limit entities).spans.map (fun span => (span.entity, span.index)) =
      entities.filter fun entry => 0 ≤ entry.1.offset ∧ position ≤ entry.1.offset.toNat := by
  fun_induction nest position limit entities with
  | case1 => rfl
  | case2 position limit entity index later passed ih =>
    have out : ¬ (0 ≤ entity.offset ∧ position ≤ entity.offset.toNat) := by omega
    rw [List.filter_cons_of_neg (by simpa using out)]
    exact ih (List.pairwise_cons.1 sorted).2
  | case3 position limit entity index later kept start stop ihInner ihAfter =>
    obtain ⟨least, further⟩ := List.pairwise_cons.1 sorted
    have hstart : start ≤ entity.offset.toNat := Nat.min_le_left _ _
    have inner : (startingBefore stop later).filter (fun entry =>
        0 ≤ entry.1.offset ∧ start ≤ entry.1.offset.toNat) = startingBefore stop later := by
      refine List.filter_eq_self.2 fun entry member => ?_
      have := least entry (List.mem_of_mem_filter member)
      simp only [decide_eq_true_eq] at this ⊢
      omega
    have behind : later.filter (fun entry => 0 ≤ entry.1.offset ∧ stop ≤ entry.1.offset.toNat) =
        later.filter fun entry => stop ≤ entry.1.offset.toNat := by
      refine List.filter_congr fun entry member => ?_
      have := least entry member
      simp only [decide_eq_decide] at this ⊢
      omega
    have all : later.filter (fun entry => 0 ≤ entry.1.offset ∧ position ≤ entry.1.offset.toNat) =
        later := by
      refine List.filter_eq_self.2 fun entry member => ?_
      have := least entry member
      simp only [decide_eq_true_eq] at this ⊢
      omega
    have here : 0 ≤ entity.offset ∧ position ≤ entity.offset.toNat := by omega
    rw [spans_cons, List.map_cons, List.map_append, ihInner (further.filter _), ihAfter further,
      inner, behind, startingBefore_append stop further,
      List.filter_cons_of_pos (by simpa using here), all]

/-- The spans of a nesting are the entities that do not start before the text, by offset. -/
lemma entities_ofEntities (size : Nat) (entities : List Entity) :
    (ofEntities size entities).spans.map Span.entity =
      ((byOffset entities).map Prod.fst).filter (0 ≤ ·.offset) := by
  have firsts := congrArg (List.map Prod.fst) (spans_nest 0 size (sorted_byOffset entities))
  simpa [ofEntities, List.filter_map, Function.comp_def] using firsts

/-! ## Nestings of well-nested entities -/

/-- Every span of the forest is where its entity is and none is empty, and `inside` holds between
the entity of a span and the entity of each span inside it. -/
def Matches (inside : Entity → Entity → Prop) (position limit : Nat) : Forest → Prop
  | nil => position ≤ limit
  | cons span inner after =>
    position ≤ span.start ∧ span.start < span.stop ∧ span.entity.offset = span.start ∧
      span.entity.offset + span.entity.length = span.stop ∧
      (∀ enclosed ∈ inner.spans, inside span.entity enclosed.entity) ∧
      Matches inside span.start span.stop inner ∧ Matches inside span.stop limit after

variable {inside : Entity → Entity → Prop} {position limit : Nat} {forest : Forest}

lemma Matches.within (h : Matches inside position limit forest) :
    Within position limit forest := by
  induction forest generalizing position limit with
  | nil => exact h
  | cons span inner after ihInner ihAfter =>
    obtain ⟨start, -, -, -, -, hinner, hafter⟩ := h
    exact ⟨start, ihInner hinner, ihAfter hafter⟩

lemma Matches.place (h : Matches inside position limit forest) {span : Span}
    (member : span ∈ forest.spans) :
    span.entity.offset = span.start ∧ span.entity.offset + span.entity.length = span.stop := by
  induction forest generalizing position limit with
  | nil => simp at member
  | cons first inner after ihInner ihAfter =>
    obtain ⟨-, -, offset, stop, -, hinner, hafter⟩ := h
    rw [spans_cons, List.mem_cons, List.mem_append] at member
    rcases member with rfl | inside | behind
    · exact ⟨offset, stop⟩
    · exact ihInner hinner inside
    · exact ihAfter hafter behind

/-- What is inside a span of the forest matches, and is of the forest. -/
lemma Matches.of_mem_nodes (h : Matches inside position limit forest) {node : Span × Forest}
    (member : node ∈ forest.nodes) :
    Matches inside node.1.start node.1.stop node.2 ∧
      ∀ enclosed ∈ node.2.spans, inside node.1.entity enclosed.entity ∧ enclosed ∈ forest.spans := by
  induction forest generalizing position limit with
  | nil => simp [nodes] at member
  | cons first inner after ihInner ihAfter =>
    obtain ⟨-, -, -, -, encloses, hinner, hafter⟩ := h
    rw [nodes, List.mem_cons, List.mem_append] at member
    rcases member with rfl | within | behind
    · exact ⟨hinner, fun enclosed member => ⟨encloses enclosed member, by simp [member]⟩⟩
    · obtain ⟨below, spans⟩ := ihInner hinner within
      exact ⟨below, fun enclosed member => (spans enclosed member).imp_right fun found => by
        simp [found]⟩
    · obtain ⟨below, spans⟩ := ihAfter hafter behind
      exact ⟨below, fun enclosed member => (spans enclosed member).imp_right fun found => by
        simp [found]⟩

/-- An entity that starts where the text before a span ends and is as long as the text of the span
is the entity of the span, but for its kind. -/
lemma entity_of_span {text : Text} {span : Span} (offset : span.entity.offset = span.start)
    (length : span.entity.offset + span.entity.length = span.stop)
    (start : Utf16.Between text span.start) (stop : Utf16.Between text span.stop)
    (order : span.start ≤ span.stop) (kind : Kind) :
    (⟨Utf16.unitCount (Utf16.upTo span.start text),
      Utf16.unitCount (Utf16.slice (Utf16.encode text) span.start span.stop), kind⟩ : Entity) =
        { span.entity with kind } := by
  have size := Utf16.unitCount_slice start stop order
  have covers : (Utf16.unitCount (Utf16.slice (Utf16.encode text) span.start span.stop) : Int) =
      span.entity.length := by
    omega
  rw [start.unitCount_upTo, covers, ← offset]

/-- The entities of a forest lie in its stretch. -/
lemma Matches.entity_bounds (h : Matches inside position limit forest) {span : Span}
    (member : span ∈ forest.spans) :
    (position : Int) ≤ span.entity.offset ∧ 0 < span.entity.length ∧
      span.entity.offset + span.entity.length ≤ limit := by
  induction forest generalizing position limit with
  | nil => simp at member
  | cons first inner after ihInner ihAfter =>
    obtain ⟨start, filled, offset, stop, -, hinner, hafter⟩ := h
    have last := hafter.within.le
    rw [spans_cons, List.mem_cons, List.mem_append] at member
    rcases member with rfl | inside | behind
    · omega
    · have := ihInner hinner inside
      omega
    · have := ihAfter hafter behind
      omega

/-- An entity that starts within a stretch has its span where it starts, and as far as it and the
stretch reach. -/
lemma span_of_early {entity : Entity} (low : 0 ≤ entity.offset) (filled : 0 < entity.length)
    (early : entity.offset.toNat < limit) :
    let start := min entity.offset.toNat limit
    let stop := min (start + entity.length.toNat) limit
    start = entity.offset.toNat ∧ stop = min (entity.offset + entity.length).toNat limit ∧
      start < stop := by
  intro start stop
  have hstart : start = entity.offset.toNat := Nat.min_eq_left early.le
  have hstop : stop = min (start + entity.length.toNat) limit := rfl
  omega

/-- Nesting well-nested entities over a stretch: those that start before it are passed over, and
each of the others is in its place. -/
lemma matches_nest {entities : List (Entity × Nat)} (stretch : position ≤ limit)
    (bounds : ∀ entry ∈ entities, 0 ≤ entry.1.offset ∧ 0 < entry.1.length ∧
      ((position : Int) ≤ entry.1.offset → entry.1.offset + entry.1.length ≤ limit))
    (nested : entities.Pairwise fun first second =>
      first.1.Before second.1 ∨ first.1.Encloses second.1 ∧ inside first.1 second.1) :
    Matches inside position limit (nest position limit entities) := by
  fun_induction nest position limit entities with
  | case1 => exact stretch
  | case2 position limit entity index later passed ih =>
    exact ih stretch (fun entry member => bounds entry (List.mem_cons_of_mem _ member))
      (List.pairwise_cons.1 nested).2
  | case3 position limit entity index later kept start stop ihInner ihAfter =>
    obtain ⟨offset, length, fits⟩ := bounds _ List.mem_cons_self
    simp only at offset length fits
    obtain ⟨first, further⟩ := List.pairwise_cons.1 nested
    have hfits := fits (by omega)
    obtain ⟨hstart : start = _, hstop : stop = _, -⟩ :=
      @span_of_early limit entity offset length (by omega)
    have rest (entry : Entity × Nat) (member : entry ∈ later) :=
      bounds entry (List.mem_cons_of_mem _ member)
    -- those that start within the entity are enclosed by it, as the list is well nested
    have enclosed (entry : Entity × Nat) (member : entry ∈ startingBefore stop later) :
        entity.Encloses entry.1 ∧ inside entity entry.1 := by
      obtain ⟨hlater, early⟩ := List.mem_filter.1 member
      simp only [decide_eq_true_eq] at early
      apply (first entry hlater).resolve_left
      simp only [Entity.Before]
      omega
    have matchesInner := ihInner (by omega)
      (fun entry member => by
        have := (enclosed entry member).1
        have := rest entry (List.mem_of_mem_filter member)
        simp only [Entity.Encloses] at *
        omega)
      (further.filter _)
    have matchesAfter := ihAfter (by omega)
      (fun entry member => by
        have := rest entry member
        have := first entry member
        simp only [Entity.Before, Entity.Encloses] at this
        omega)
      further
    have place : position ≤ start ∧ start < stop ∧ entity.offset = start ∧
        entity.offset + entity.length = stop := by omega
    refine ⟨place.1, place.2.1, place.2.2.1, place.2.2.2, ?_, matchesInner, matchesAfter⟩
    intro span member
    exact (enclosed _ (mem_of_mem_spans_nest member)).2

lemma byOffset_of_inOrder {entities : List Entity}
    (h : entities.Pairwise fun first second => first.offset ≤ second.offset) :
    byOffset entities = entities.zipIdx := by
  apply List.mergeSort_of_pairwise
  have mapped : (entities.zipIdx.map Prod.fst).Pairwise
      fun first second => first.offset ≤ second.offset := by
    rwa [List.zipIdx_map_fst]
  simpa using List.pairwise_map.1 mapped

/-- **Every well-nested entity has its place.** -/
lemma matches_ofEntities {size : Nat} {entities : List Entity} (h : WellNested size entities)
    (hinside : entities.Pairwise fun first second =>
      first.Encloses second → inside first second) :
    Matches inside 0 size (ofEntities size entities) := by
  have related : entities.Pairwise fun first second =>
      first.Before second ∨ first.Encloses second ∧ inside first second := by
    apply (h.nested.and hinside).imp
    rintro first second ⟨before | encloses, implies⟩
    · exact .inl before
    · exact .inr ⟨encloses, implies encloses⟩
  have mapped : (entities.zipIdx.map Prod.fst).Pairwise fun first second =>
      first.Before second ∨ first.Encloses second ∧ inside first second := by
    rwa [List.zipIdx_map_fst]
  rw [ofEntities, byOffset_of_inOrder h.sorted]
  refine matches_nest (Nat.zero_le size) (fun entry member => ?_) (List.pairwise_map.1 mapped)
  obtain ⟨offset, length, fits⟩ := h.liesIn _
    (List.mem_of_getElem? (List.mem_zipIdx_iff_getElem?.1 member))
  exact ⟨offset, length, fun _ => fits⟩

/-- The spans of well-nested entities are the entities, in their order. -/
lemma spans_ofEntities {size : Nat} {entities : List Entity} (h : WellNested size entities) :
    (ofEntities size entities).spans.map Span.entity = entities := by
  rw [entities_ofEntities, byOffset_of_inOrder h.sorted, List.zipIdx_map_fst]
  refine List.filter_eq_self.2 fun entity member => ?_
  simpa using (h.liesIn entity member).1

/-! ## The order in which entities end -/

/-- The entities of a forest, each behind those inside it. -/
def closings : Forest → List Entity
  | nil => []
  | cons span inner after => closings inner ++ span.entity :: closings after

/-- What goes behind a list that ends before it does. -/
lemma orderedInsert_append {α : Type} {r : α → α → Prop} [DecidableRel r] {a : α}
    {front : List α} (h : ∀ b ∈ front, ¬ r a b) (back : List α) :
    (front ++ back).orderedInsert r a = front ++ back.orderedInsert r a := by
  induction front with
  | nil => rfl
  | cons b rest ih =>
    rw [List.cons_append, List.orderedInsert_of_not_le r _ (h b List.mem_cons_self),
      ih fun c member => h c (List.mem_cons_of_mem _ member), List.cons_append]

/-- What goes before all of a second list goes into the first. -/
lemma orderedInsert_append_left {α : Type} {r : α → α → Prop} [DecidableRel r] {a : α}
    {back : List α} (h : ∀ b ∈ back, r a b) (front : List α) :
    (front ++ back).orderedInsert r a = front.orderedInsert r a ++ back := by
  induction front with
  | nil =>
    cases back with
    | nil => rfl
    | cons b rest => simp [h b List.mem_cons_self]
  | cons b rest ih =>
    by_cases before : r a b
    · simp [before]
    · simp [before, ih]

/-- Lists of which one lies before the other are sorted apart. -/
lemma insertionSort_append {α : Type} {r : α → α → Prop} [DecidableRel r] {front back : List α}
    (h : ∀ a ∈ front, ∀ b ∈ back, r a b) :
    (front ++ back).insertionSort r = front.insertionSort r ++ back.insertionSort r := by
  induction front with
  | nil => rfl
  | cons a rest ih =>
    have later : ∀ b ∈ back.insertionSort r, r a b := fun b member =>
      h a List.mem_cons_self b ((List.mem_insertionSort r).1 member)
    rw [List.cons_append, List.insertionSort_cons, List.insertionSort_cons,
      ih fun c member => h c (List.mem_cons_of_mem _ member),
      orderedInsert_append_left later]

/-- **Entities end in the closing order.** -/
lemma closings_eq (h : Matches inside position limit forest) :
    closings forest = closingOrder (forest.spans.map Span.entity) := by
  induction forest generalizing position limit with
  | nil => rfl
  | cons span inner after ihInner ihAfter =>
    obtain ⟨-, -, -, stop, -, hinner, hafter⟩ := h
    have inner_le (entity : Entity) (member : entity ∈ inner.spans.map Span.entity) :
        entity.offset + entity.length ≤ span.stop := by
      obtain ⟨enclosed, hmem, rfl⟩ := List.mem_map.1 member
      exact (hinner.entity_bounds hmem).2.2
    have after_gt (entity : Entity) (member : entity ∈ after.spans.map Span.entity) :
        span.stop < entity.offset + entity.length := by
      obtain ⟨behind, hmem, rfl⟩ := List.mem_map.1 member
      have := hafter.entity_bounds hmem
      omega
    rw [closings, ihInner hinner, ihAfter hafter, spans_cons, List.map_cons, List.map_append]
    simp only [closingOrder, List.insertionSort_cons]
    rw [insertionSort_append fun first hfirst second hsecond =>
        lt_of_le_of_lt (inner_le first hfirst) (after_gt second hsecond),
      orderedInsert_append fun entity member => ?_]
    · congr 1
      have behind (entity : Entity) (member : entity ∈ (after.spans.map Span.entity).insertionSort
          fun first second => first.offset + first.length < second.offset + second.length) :
          span.entity.offset + span.entity.length < entity.offset + entity.length := by
        rw [stop]
        exact after_gt entity ((List.mem_insertionSort _).1 member)
      cases hsort : (after.spans.map Span.entity).insertionSort
          fun first second => first.offset + first.length < second.offset + second.length with
      | nil => rfl
      | cons entity rest =>
        exact (if_pos (behind entity (by simp [hsort]))).symm
    · have := inner_le entity ((List.mem_insertionSort _).1 member)
      rw [stop]
      omega

end Forest

/-- Entities that are listed by offset are written in the order of their list. -/
lemma Writer.write_of_inOrder {writer : Writer} {text : Text} {entities : List Entity}
    (h : entities.Pairwise fun first second => first.offset ≤ second.offset) :
    writer.write text entities =
      writer.render (Utf16.encode text) 0 (Utf16.encode text).length entities := by
  rw [write, List.mergeSort_of_pairwise (by simpa using h)]

end RichText
