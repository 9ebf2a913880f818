import RichText.Proofs.Trimming

/-!
# What trimming leaves of entities

Trimming keeps one stretch of a text, the characters between its blank ends.  Of each entity it
keeps what the entity has in common with that stretch, in the order of the entities, and drops those
that have nothing in common with it (`trim_eq_common`).  Trimming again changes nothing then.

An entity covers the characters that start in its span, wherever its ends fall
(`Entity.covered_eq`), and so what is left of it covers those of them that start in the stretch
(`covered_trim`).  Both results are about all texts whose positions are in range and about entities
that may reach out of the text, or end in the middle of a character.
-/

namespace RichText

/-! ## Which entities are left -/

namespace Message

variable {message : Message}

lemma stretch_lt (short : Gathering.Short message.text) :
    (Utf16.unitCount message.text.indent + Utf16.unitCount message.text.trim : Int) <
      Position.greatest := by
  obtain ⟨back, whole⟩ := message.text.exists_trim
  rw [Gathering.Short, whole, Utf16.unitCount_append, Utf16.unitCount_append] at short
  omega

lemma clip?_eq_common? (short : Gathering.Short message.text) (entity : Entity) :
    entity.clip? (Utf16.length message.text.indent) (Utf16.length message.text.trim) =
      entity.common? (Utf16.unitCount message.text.indent)
        (Utf16.unitCount message.text.trim) := by
  have bound := stretch_lt short
  obtain ⟨back, whole⟩ := message.text.exists_trim
  rw [whole] at short
  obtain ⟨first, second⟩ := short.parts
  rw [first.length_eq, second.length_eq]
  exact Entity.clip?_eq_common? (Int.natCast_nonneg _) (Int.natCast_nonneg _) (.inr bound)

/-- Trimming leaves what the entities have in common with the kept stretch. -/
lemma entities_trim_eq_common (short : Gathering.Short message.text) :
    message.trim.entities = message.entities.filterMap
      (Entity.common? (Utf16.unitCount message.text.indent)
        (Utf16.unitCount message.text.trim)) :=
  List.filterMap_congr fun entity _ => clip?_eq_common? short entity

/-- **Trimming intersects.**  In a short text each entity, whatever its numbers, is left as what it
has in common with the text between the blank ends, or dropped if that is nothing.  No number on the
way there leaves the range of positions if the offset is one, and trimming what is left changes
nothing. -/
theorem trim_eq_common (short : Gathering.Short message.text) :
    message.trim = ⟨message.text.trim, message.entities.filterMap
        (Entity.common? (Utf16.unitCount message.text.indent)
          (Utf16.unitCount message.text.trim))⟩ ∧
      (∀ entity ∈ message.entities, Position.InRange entity.offset →
        entity.clipInRange? (Utf16.length message.text.indent)
            (Utf16.length message.text.trim) =
          some (entity.clip? (Utf16.length message.text.indent)
            (Utf16.length message.text.trim))) ∧
      message.trim.trim = message.trim := by
  refine ⟨?_, fun entity _ inRange => ?_, ?_⟩
  · rw [← entities_trim_eq_common short]
    rfl
  · exact Entity.clipInRange?_eq (Utf16.length_nonneg _) (Utf16.length_le_greatest _) inRange
  · have bound := stretch_lt short
    have kept : Gathering.Short message.text.trim := by
      rw [Gathering.Short]
      omega
    have within : ∀ left ∈ message.trim.entities,
        left.LiesIn (Utf16.unitCount message.text.trim) := by
      intro left member
      rw [entities_trim_eq_common short] at member
      obtain ⟨entity, -, common⟩ := List.mem_filterMap.1 member
      obtain ⟨-, filled, -, start, stop⟩ := Entity.common?_eq_some common
      exact ⟨by omega, filled, by omega⟩
    exact trim_eq_self (Text.trim_trim message.text) kept within

/-- Entities that reach beyond both blank ends and beyond the greatest position, and entities that
have nothing in common with what is left. -/
theorem trim_eq_common_beyond_ends :
    let message : Message := ⟨" \na😀 ".toList,
      [⟨-3, 2147483647, .bold⟩, ⟨3, 2147483647, .code⟩, ⟨-2147483648, 2147483647, .url⟩,
        ⟨0, 2, .italic⟩, ⟨2, 0, .strike⟩, ⟨1, 2, .spoiler⟩]⟩
    Gathering.Short message.text ∧
      message.trim = ⟨"a😀".toList, [⟨0, 3, .bold⟩, ⟨1, 2, .code⟩, ⟨0, 1, .spoiler⟩]⟩ ∧
      (message.trim = ⟨message.text.trim, message.entities.filterMap
          (Entity.common? (Utf16.unitCount message.text.indent)
            (Utf16.unitCount message.text.trim))⟩ ∧
        (∀ entity ∈ message.entities, Position.InRange entity.offset →
          entity.clipInRange? (Utf16.length message.text.indent)
              (Utf16.length message.text.trim) =
            some (entity.clip? (Utf16.length message.text.indent)
              (Utf16.length message.text.trim))) ∧
        message.trim.trim = message.trim) :=
  ⟨by decide, by decide, trim_eq_common (by decide)⟩

end Message

/-! ## What they cover -/

namespace Entity

/-- The position is that of a code unit of the entity. -/
def Spans (entity : Entity) (position : Nat) : Prop :=
  entity.offset ≤ position ∧ position < entity.offset + entity.length

instance (entity : Entity) (position : Nat) : Decidable (entity.Spans position) :=
  inferInstanceAs (Decidable (_ ∧ _))

/-- The characters of a text that start in the span of an entity, with their positions. -/
def characters (text : Text) (entity : Entity) : List (Nat × Char) :=
  (Utf16.located 0 text).filter fun place => entity.Spans place.1

variable {entity left : Entity} {text front middle back : Text}

/-- **An entity covers the characters that start in its span.** -/
lemma covered_eq (start : 0 ≤ entity.offset) :
    entity.covered (Utf16.encode text) = (entity.characters text).map Prod.snd := by
  rw [covered, Utf16.slice_eq_located, characters]
  congr 1
  refine List.filter_congr fun place _ => decide_eq_decide.2 ?_
  rw [Spans]
  omega

/-- **What an entity has in common with the middle of a text** covers there the characters of the
entity that start in the middle. -/
lemma covered_common?
    (h : entity.common? (Utf16.unitCount front) (Utf16.unitCount middle) = some left) :
    left.covered (Utf16.encode middle) =
      ((entity.characters (front ++ middle ++ back)).filter fun place =>
        Utf16.unitCount front ≤ place.1 ∧
          place.1 < Utf16.unitCount front + Utf16.unitCount middle).map Prod.snd := by
  obtain ⟨-, -, -, offset, stop⟩ := common?_eq_some h
  rw [covered_eq (by omega), characters, characters, List.filter_comm, Utf16.located_middle,
    List.filter_map, List.map_map]
  congr 1
  refine List.filter_congr fun place member => decide_eq_decide.2 ?_
  have bounds := Utf16.bounds_of_mem_located member
  simp only [Spans]
  omega

end Entity

namespace Message

/-- The position is that of a code unit between the blank ends of the text. -/
def Retains (message : Message) (position : Nat) : Prop :=
  Utf16.unitCount message.text.indent ≤ position ∧
    position < Utf16.unitCount message.text.indent + Utf16.unitCount message.text.trim

variable {message : Message}

instance (message : Message) (position : Nat) : Decidable (message.Retains position) :=
  inferInstanceAs (Decidable (_ ∧ _))

/-- The entities of which trimming leaves something. -/
def survivors (message : Message) : List Entity :=
  message.entities.filter fun entity =>
    (entity.clip? (Utf16.length message.text.indent) (Utf16.length message.text.trim)).isSome

/-- What a partial function makes of a list, looked at through what it came from. -/
lemma map_filterMap_of_eq {α β γ : Type} {f : α → Option β} {g : β → γ} {h : α → γ} {l : List α}
    (same : ∀ x ∈ l, ∀ y, f x = some y → g y = h x) :
    (l.filterMap f).map g = (l.filter fun x => (f x).isSome).map h := by
  induction l with
  | nil => rfl
  | cons x rest ih =>
    have further := ih fun y member => same y (List.mem_cons_of_mem x member)
    cases found : f x with
    | none =>
      rw [List.filterMap_cons_none found, List.filter_cons_of_neg (by simp [found]), further]
    | some y =>
      rw [List.filterMap_cons_some found, List.filter_cons_of_pos (by simp [found]), List.map_cons,
        List.map_cons, further, same x List.mem_cons_self y found]

/-- **Trimming keeps what entities cover.**  In a short text every entity that does not start before
the text covers the characters that start in its span, and what trimming leaves of it covers those
of them that start between the blank ends. -/
theorem covered_trim (short : Gathering.Short message.text)
    (starts : ∀ entity ∈ message.entities, 0 ≤ entity.offset) :
    message.covered =
        message.entities.map (fun entity => (entity.characters message.text).map Prod.snd) ∧
      message.trim.covered = message.survivors.map fun entity =>
        ((entity.characters message.text).filter fun place =>
          message.Retains place.1).map Prod.snd := by
  obtain ⟨back, whole⟩ := message.text.exists_trim
  refine ⟨List.map_congr_left fun entity member => Entity.covered_eq (starts entity member), ?_⟩
  refine map_filterMap_of_eq fun entity _ left clipped => ?_
  rw [clip?_eq_common? short] at clipped
  have covered := @Entity.covered_common? entity left message.text.indent message.text.trim back
    clipped
  rwa [← whole] at covered

/-- Entities that start or end in the middle of a character, in front of a blank start and behind a
blank end. -/
theorem covered_trim_split_characters :
    let message : Message := ⟨" 😀a😀 ".toList,
      [⟨2, 2, .bold⟩, ⟨0, 2, .code⟩, ⟨0, 1, .italic⟩, ⟨5, 9, .url⟩, ⟨4, 9, .strike⟩]⟩
    (Gathering.Short message.text ∧ ∀ entity ∈ message.entities, 0 ≤ entity.offset) ∧
      message.covered =
        ["a".toList, " 😀".toList, " ".toList, " ".toList, "😀 ".toList] ∧
      message.trim.covered = ["a".toList, "😀".toList, [], "😀".toList] ∧
      (message.covered =
          message.entities.map (fun entity => (entity.characters message.text).map Prod.snd) ∧
        message.trim.covered = message.survivors.map fun entity =>
          ((entity.characters message.text).filter fun place =>
            message.Retains place.1).map Prod.snd) :=
  ⟨⟨by decide, by decide⟩, by decide, by decide, covered_trim (by decide) (by decide)⟩

end Message

end RichText
