import RichText.Proofs.WellFormed

/-!
# Counting beyond the greatest position

Positions are held at the end of their range, so in a text that is longer counts are not exact.
They are still those of stretches of the text: what a reader started or listed is as far from the
start of the text, and as long, as some stretch of it, each count held within the range
(`Gathering.Counted`).  This is true of everything that is gathered, however long
(`Gathering.Built.counted`), and it keeps all orders, since a longer text never counts less.

What trimming does to the two ends of an entity is one formula for texts that start with no blank
character and for those that are short (`Entity.ends_of_clip?`).
-/

namespace RichText

/-! ## Lengths -/

namespace Utf16

variable (front back : Text)

lemma length_le_append : length front ≤ length (front ++ back) := by
  rw [length_eq_min, length_eq_min, unitCount_append]
  omega

/-- Held counts add up to the held count of the whole. -/
lemma clamp_length_add : Position.clamp (length front + length back) = length (front ++ back) := by
  rw [length_eq_min, length_eq_min, length_eq_min, unitCount_append]
  simp only [Position.clamp, Position.least, Position.greatest]
  omega

end Utf16

namespace Gathering

variable {κ : Type} [DecidableEq κ] {gathering : Gathering κ} {key : κ} {kind : Kind}
  {draft : OpenEntity} {entity : Entity}

/-- Everything gathered is counted by stretches of the text. -/
structure Counted (gathering : Gathering κ) : Prop where
  units : gathering.units = Utf16.length gathering.text
  draft : ∀ key draft, gathering.draft? key = some draft → ∃ front since : Text,
    gathering.text = front ++ since ∧ draft.offset = Utf16.length front ∧
      draft.length = Utf16.length since
  listed : ∀ entity ∈ gathering.entities, ∃ front middle back : Text,
    gathering.text = front ++ middle ++ back ∧ entity.offset = Utf16.length front ∧
      entity.length = Utf16.length middle

lemma Counted.append (h : gathering.Counted) (piece : Text) :
    (gathering.append piece).Counted := by
  by_cases empty : piece = []
  · subst empty
    exact h
  have filled : piece.isEmpty = false := by simpa using empty
  refine ⟨?_, fun key draft found => ?_, fun entity member => ?_⟩
  · rw [text_append, ← Utf16.clamp_length_add, ← h.units]
    simp only [Gathering.append, filled, Bool.false_eq_true, if_false]
  · rw [draft?_append key empty] at found
    obtain ⟨old, hold, rfl⟩ := Option.map_eq_some_iff.1 found
    obtain ⟨front, since, whole, offset, length⟩ := h.draft key old hold
    refine ⟨front, since ++ piece, by rw [text_append, whole, List.append_assoc], offset, ?_⟩
    rw [← Utf16.clamp_length_add, ← length]
    rfl
  · rw [entities_append] at member
    obtain ⟨front, middle, back, whole, counts⟩ := h.listed entity member
    exact ⟨front, middle, back ++ piece, by rw [text_append, whole, List.append_assoc], counts⟩

lemma Counted.finish (h : gathering.Counted) (key : κ) : (gathering.finish key).Counted := by
  refine ⟨?_, fun other draft found => ?_, fun entity member => ?_⟩
  · rw [units_finish, text_finish, h.units]
  · rw [text_finish]
    exact h.draft other draft (draft?_finish_eq_some found).2
  · rw [entities_finish] at member
    rw [text_finish]
    rcases List.mem_append.1 member with old | new
    · exact h.listed entity old
    · obtain ⟨draft, isOpen, rfl⟩ := Option.map_eq_some_iff.1 (Option.mem_toList.1 new)
      obtain ⟨front, since, whole, counts⟩ := h.draft key draft isOpen
      exact ⟨front, since, [], by rw [List.append_nil, whole], counts⟩

/-- **What readers gather is counted**, however long the text. -/
lemma Built.counted (built : gathering.Built) : gathering.Counted := by
  induction built with
  | empty => exact ⟨rfl, by simp, by simp [Gathering.empty]⟩
  | append built piece ih => exact ih.append piece
  | @start gathering built key kind ih =>
    refine ⟨by rw [units_start, text_start, ih.units], fun other draft found => ?_, ?_⟩
    · rw [text_start]
      rcases draft?_start_eq_some found with ⟨-, rfl⟩ | old
      · exact ⟨gathering.text, [], by rw [List.append_nil], ih.units, rfl⟩
      · exact ih.draft other draft old
    · rw [entities_start, text_start]
      exact ih.listed
  | revise built key offset length ih =>
    refine ⟨ih.units, fun other draft found => ?_, ih.listed⟩
    obtain ⟨old, hold, ⟨-, rfl⟩ | rfl⟩ := draft?_revise_eq_some found
    · rw [offset, length]
      exact ih.draft other old hold
    · exact ih.draft other draft hold
  | abandon built key ih =>
    exact ⟨ih.units, fun other draft found => ih.draft other draft
      (draft?_abandon_eq_some found).2, ih.listed⟩
  | finish built key ih => exact ih.finish key

/-! ## Ends of stretches -/

/-- What is open reaches up to the end of the text. -/
lemma Counted.stop_draft (h : gathering.Counted) (isOpen : gathering.draft? key = some draft) :
    draft.offset ≤ Utf16.length gathering.text ∧
      draft.close.stop = Utf16.length gathering.text := by
  obtain ⟨front, since, whole, offset, length⟩ := h.draft key draft isOpen
  rw [whole, offset, Entity.stop, OpenEntity.close, offset, length, Utf16.clamp_length_add]
  exact ⟨Utf16.length_le_append front since, rfl⟩

lemma Counted.stop_listed (h : gathering.Counted) (member : entity ∈ gathering.entities) :
    0 ≤ entity.offset ∧ entity.offset ≤ entity.stop ∧
      entity.stop ≤ Utf16.length gathering.text := by
  obtain ⟨front, middle, back, whole, offset, length⟩ := h.listed entity member
  rw [whole, Entity.stop, offset, length, Utf16.clamp_length_add]
  exact ⟨Utf16.length_nonneg front, Utf16.length_le_append front middle,
    Utf16.length_le_append (front ++ middle) back⟩

lemma Counted.sum_lt (h : gathering.Counted) (short : Short gathering.text)
    (member : entity ∈ gathering.entities) :
    entity.offset + entity.length < Position.greatest := by
  obtain ⟨front, middle, back, whole, offset, length⟩ := h.listed entity member
  rw [Short, whole, Utf16.unitCount_append, Utf16.unitCount_append] at short
  rw [offset, length, Utf16.length_eq_min, Utf16.length_eq_min]
  omega

/-! ## What starts and ends at once -/

/-- What starts and ends around a piece of text leaves the other keys as the piece does. -/
lemma draft?_enclose (free : gathering.draft? key = none) (kind : Kind) (piece : Text)
    (other : κ) :
    (((gathering.start key kind).append piece).finish key).draft? other =
      (gathering.append piece).draft? other := by
  rw [draft?_finish]
  by_cases empty : piece = []
  · subst empty
    by_cases same : other = key
    · simp [same, append, free]
    · simp [same, append, draft?_start]
  · rw [draft?_append other empty, draft?_append other empty, draft?_start]
    by_cases same : other = key
    · simp [same, free]
    · simp [same]

/-- What starts and ends around a piece of text is listed over it. -/
lemma Counted.entities_enclose (h : gathering.Counted) (free : gathering.draft? key = none)
    (kind : Kind) (piece : Text) :
    (((gathering.start key kind).append piece).finish key).entities = gathering.entities ++
      [⟨Utf16.length gathering.text, Utf16.length piece, kind⟩] := by
  have started : (gathering.start key kind).draft? key = some (.start gathering.units kind) := by
    rw [draft?_start, if_pos rfl, free, Option.getD_none]
  have grown : ((gathering.start key kind).append piece).draft? key =
      some ⟨Utf16.length gathering.text, Utf16.length piece, kind⟩ := by
    by_cases empty : piece = []
    · subst empty
      rw [← h.units]
      exact started
    · have whole := Utf16.clamp_length_add [] piece
      rw [draft?_append key empty, started, Option.map_some, OpenEntity.start, h.units]
      simp only [OpenEntity.grow, Option.some.injEq, OpenEntity.mk.injEq, true_and, and_true]
      exact whole
  rw [entities_finish_of_open grown, entities_append, entities_start]
  rfl

end Gathering

/-! ## Trimming -/

/-- **What trimming leaves of an entity** has the ends it had, moved to the front of what is left
and held within it.  This is so where nothing goes from the front, and where the entity does not
reach beyond the greatest position. -/
lemma Entity.ends_of_clip? {skipped kept : Int} {entity clipped : Entity}
    (left : entity.clip? skipped kept = some clipped) (start : 0 ≤ entity.offset)
    (skips : 0 ≤ skipped) (keeps : 0 ≤ kept) (bound : kept ≤ Position.greatest)
    (exact_ : skipped = 0 ∨ entity.offset + entity.length ≤ Position.greatest) :
    clipped.kind = entity.kind ∧ clipped.offset = max (entity.offset - skipped) 0 ∧
      clipped.stop = min (entity.stop - skipped) kept := by
  simp only [Position.greatest] at bound exact_
  unfold clip? at left
  split at left
  · cases left
  split at left
  · cases left
  rename_i filled past
  simp only [stop, Position.clamp, Position.least, Position.greatest] at left past ⊢
  split at left
  all_goals
    simp only at left
    split at left
    · cases left
      refine ⟨rfl, ?_, ?_⟩ <;> simp only <;> omega
    split at left
    · cases left
    · cases left
      refine ⟨rfl, ?_, ?_⟩ <;> simp only <;> omega

namespace Gathering

variable {κ : Type} [DecidableEq κ] {gathering : Gathering κ}

/-- **Trimming what readers list** keeps the kinds of two entities, and an end of one that lies
before an end of the other still does: in a text that starts with no blank character, however long,
and in every text that is short. -/
lemma Built.pairwise_trim (built : gathering.Built)
    (counts : gathering.text.indent = [] ∨ Short gathering.text)
    {before after : Entity → Entity → Prop} (pairs : gathering.entities.Pairwise before)
    (keeps : ∀ first second left further : Entity, before first second →
      left.kind = first.kind → further.kind = second.kind →
      (first.stop ≤ second.stop → left.stop ≤ further.stop) →
      (first.stop ≤ second.offset → left.stop ≤ further.offset) →
      (second.offset ≤ first.offset → further.offset ≤ left.offset) → after left further) :
    (Message.trim ⟨gathering.text, gathering.entities⟩).entities.Pairwise after := by
  have ends (entity clipped : Entity) (member : entity ∈ gathering.entities)
      (left : entity.clip? (Utf16.length gathering.text.indent)
        (Utf16.length gathering.text.trim) = some clipped) :=
    Entity.ends_of_clip? left (built.counted.stop_listed member).1 (Utf16.length_nonneg _)
      (Utf16.length_nonneg _) (Utf16.length_le_greatest _) <| by
        rcases counts with unindented | short
        · exact .inl (by rw [unindented]; rfl)
        · exact .inr (Int.le_of_lt (built.counted.sum_lt short member))
  simp only [Message.trim]
  rw [List.pairwise_filterMap]
  refine (List.Pairwise.and_mem.1 pairs).imp ?_
  rintro first second ⟨hfirst, hsecond, related⟩ left clipped further clippedFurther
  obtain ⟨kind, start, stop⟩ := ends first left hfirst clipped
  obtain ⟨kindFurther, startFurther, stopFurther⟩ := ends second further hsecond clippedFurther
  exact keeps first second left further related kind kindFurther (by omega) (by omega) (by omega)

end Gathering

end RichText
