import Mathlib.Data.List.DropRight
import Mathlib.Tactic.Lemma
import RichText.Message
import RichText.Proofs.Clipping
import RichText.Proofs.Forests
import RichText.Proofs.Gatherings

/-!
# Trimming

A text without blank ends has nothing to lose, and so trimming a message with such a text leaves
it alone, as long as its entities lie in the text (`trim_eq_self`).  What trimming leaves is trimmed
(`trim_trim`), and an entity that is left covers what is left of its text (`clip?_eq_some`).

A reader gathers text piece by piece, and what it lists covers pieces: an entity that is
`OnCharacters` of a text covers some of its characters and no half of one.  What trimming leaves of
it is on characters of what trimming leaves of the text (`OnCharacters.left`).
-/

namespace RichText

namespace Text

lemma indent_of_trim_eq {text : Text} (h : trim text = text) : indent text = [] := by
  have parts := congrArg List.length (indent_append_trimStart text)
  have shorter : (trim text).length ≤ (trimStart text).length := by
    have := (List.dropWhile_sublist (l := (trimStart text).reverse) isBlank).length_le
    simpa [trim, trimEnd] using this
  rw [h] at shorter
  rw [List.length_append] at parts
  exact List.length_eq_zero_iff.1 (by omega)

/-- What is left has something cut off at either end. -/
lemma exists_trim (text : Text) : ∃ back, text = indent text ++ trim text ++ back := by
  refine ⟨((trimStart text).reverse.takeWhile isBlank).reverse, ?_⟩
  have parts := congrArg List.reverse
    (@List.takeWhile_append_dropWhile _ isBlank (trimStart text).reverse)
  rw [List.reverse_append, List.reverse_reverse] at parts
  rw [List.append_assoc, trim, trimEnd, parts, indent_append_trimStart]

/-- A trimmed text starts with no blank character. -/
lemma trimStart_trim (text : Text) : trimStart (trim text) = trim text := by
  refine List.dropWhile_eq_self_iff.2 fun filled => ?_
  obtain ⟨back, whole⟩ := exists_trim text
  have rest : trimStart text = trim text ++ back := by
    have parts := indent_append_trimStart text
    rw [List.append_assoc] at whole
    exact List.append_cancel_left (parts.trans whole)
  have room : 0 < (trimStart text).length := by
    rw [rest, List.length_append]
    omega
  have first := List.dropWhile_get_zero_not isBlank text room
  have same : (trimStart text)[0] = (trim text)[0] := by
    simp only [rest, List.getElem_append_left filled]
  rw [← same]
  exact first

lemma trimEnd_trim (text : Text) : trimEnd (trim text) = trim text := by
  rw [trim, trimEnd, trimEnd, List.reverse_reverse, List.dropWhile_idempotent]

/-- **Trimming twice is trimming once.** -/
lemma trim_trim (text : Text) : trim (trim text) = trim text := by
  rw [trim, trimStart_trim, trimEnd_trim]

/-- Trimming takes characters out and adds none. -/
lemma trim_sublist (text : Text) : (trim text).Sublist text := by
  obtain ⟨back, whole⟩ := exists_trim text
  have middle : (trim text).Sublist (indent text ++ trim text ++ back) :=
    (List.sublist_append_right (indent text) (trim text)).trans (List.sublist_append_left _ back)
  rwa [← whole] at middle

lemma not_blank_head {text : Text} (kept : text.dropWhile isBlank = text) :
    ∀ c ∈ text.head?, isBlank c = false := by
  intro c first
  obtain ⟨rest, rfl⟩ := List.head?_eq_some_iff.1 first
  exact Bool.eq_false_of_not_eq_true (List.dropWhile_eq_self_iff.1 kept (by simp))

/-- **Trimming leaves no blank ends.** -/
lemma not_blank_of_trim (text : Text) :
    (∀ c ∈ text.trim.head?, isBlank c = false) ∧ ∀ c ∈ text.trim.getLast?, isBlank c = false := by
  refine ⟨not_blank_head (trimStart_trim text), ?_⟩
  have kept := congrArg List.reverse (trimEnd_trim text)
  rw [trimEnd, List.reverse_reverse] at kept
  rw [List.getLast?_eq_head?_reverse]
  exact not_blank_head kept

end Text

namespace Message

/-- An entity that lies in its text is not clipped where nothing goes. -/
lemma clip?_eq_self {text : Text} {entity : Entity} (h : entity.LiesIn (Utf16.unitCount text))
    (offset : entity.offset ≤ Position.greatest) (length : entity.length ≤ Position.greatest) :
    entity.clip? 0 (Utf16.length text) = some entity := by
  obtain ⟨start, filled, within⟩ := h
  simp only [Position.greatest] at offset length
  have stop : entity.stop = min (entity.offset + entity.length) 2147483647 := by
    simp only [Entity.stop, Position.clamp, Position.least, Position.greatest]
    omega
  have kept : Utf16.length text = min (Utf16.unitCount text : Int) 2147483647 :=
    Utf16.length_eq_min text
  have unmoved : { entity with offset := entity.offset - 0 } = entity := by
    simp
  rw [Entity.clip?, if_neg (by omega), if_neg (by omega), if_pos start]
  simp only [unmoved]
  rw [if_pos (by omega)]

lemma clip?_eq_some {entity clipped : Entity} {skipped kept : Nat}
    (fits : entity.offset + entity.length < Position.greatest)
    (h : entity.clip? skipped kept = some clipped) :
    clipped.kind = entity.kind ∧ 0 < clipped.length ∧
      clipped.offset = max (entity.offset - skipped) 0 ∧
      clipped.offset + clipped.length =
        min (entity.offset + entity.length - skipped) kept := by
  rw [Entity.clip?_eq_common? (by omega) (by omega) (.inl (Int.le_of_lt fits))] at h
  obtain ⟨-, filled, kind, start, stop⟩ := Entity.common?_eq_some h
  exact ⟨kind, filled, by omega, stop⟩

/-- **Trimming what is trimmed changes nothing**, however long the text, if the entities lie in it
and within the range of positions. -/
lemma trim_eq_self_of_le {text : Text} {entities : List Entity} (trimmed : text.trim = text)
    (h : ∀ entity ∈ entities, entity.LiesIn (Utf16.unitCount text) ∧
      entity.offset ≤ Position.greatest ∧ entity.length ≤ Position.greatest) :
    Message.trim ⟨text, entities⟩ = ⟨text, entities⟩ := by
  have kept : ∀ entity ∈ entities, entity.clip? 0 (Utf16.length text) = some entity :=
    fun entity member => clip?_eq_self (h entity member).1 (h entity member).2.1
      (h entity member).2.2
  have skipped : Utf16.length [] = 0 := by decide
  simp only [trim, trimmed, Text.indent_of_trim_eq trimmed, skipped]
  congr 1
  rw [List.filterMap_congr kept, List.filterMap_some]

lemma trim_eq_self {text : Text} {entities : List Entity} (trimmed : text.trim = text)
    (short : Gathering.Short text)
    (h : ∀ entity ∈ entities, entity.LiesIn (Utf16.unitCount text)) :
    Message.trim ⟨text, entities⟩ = ⟨text, entities⟩ := by
  refine trim_eq_self_of_le trimmed fun entity member => ?_
  obtain ⟨start, filled, within⟩ := h entity member
  rw [Gathering.Short] at short
  exact ⟨h entity member, by omega, by omega⟩

end Message

/-! ## Entities on characters -/

variable {text front middle back : Text}

namespace Entity

/-- The entity covers characters of the text: those behind some first ones and before some last
ones. -/
def OnCharacters (text : Text) (entity : Entity) : Prop :=
  ∃ front middle back : Text, text = front ++ middle ++ back ∧
    entity.offset = Utf16.unitCount front ∧ entity.length = Utf16.unitCount middle

variable {entity clipped : Entity}

lemma OnCharacters.bounds (h : entity.OnCharacters text) :
    0 ≤ entity.offset ∧ 0 ≤ entity.length ∧
      entity.offset + entity.length ≤ Utf16.unitCount text := by
  obtain ⟨front, middle, back, rfl, offset, length⟩ := h
  rw [Utf16.unitCount_append, Utf16.unitCount_append]
  omega

lemma OnCharacters.append (h : entity.OnCharacters text) (more : Text) :
    entity.OnCharacters (text ++ more) := by
  obtain ⟨front, middle, back, whole, offset, length⟩ := h
  refine ⟨front, middle, back ++ more, ?_, offset, length⟩
  rw [whole, List.append_assoc]

lemma OnCharacters.between (h : entity.OnCharacters text) :
    Utf16.Between text entity.offset.toNat ∧
      Utf16.Between text (entity.offset + entity.length).toNat := by
  obtain ⟨front, middle, back, rfl, offset, length⟩ := h
  have start : entity.offset.toNat = Utf16.unitCount front := by omega
  have stop : (entity.offset + entity.length).toNat = Utf16.unitCount (front ++ middle) := by
    rw [Utf16.unitCount_append]
    omega
  rw [start, stop]
  refine ⟨?_, Utf16.between_append (front ++ middle) back⟩
  rw [List.append_assoc]
  exact Utf16.between_append front (middle ++ back)

/-- What trimming leaves of an entity is where it was. -/
lemma OnCharacters.clip (h : entity.OnCharacters (front ++ middle ++ back))
    (short : Gathering.Short (front ++ middle ++ back))
    (left : entity.clip? (Utf16.unitCount front) (Utf16.unitCount middle) = some clipped) :
    clipped.kind = entity.kind ∧ 0 < clipped.length ∧
      clipped.offset = max (entity.offset - Utf16.unitCount front) 0 ∧
      clipped.offset + clipped.length =
        min (entity.offset + entity.length - Utf16.unitCount front) (Utf16.unitCount middle) := by
  exact Message.clip?_eq_some (Int.lt_of_le_of_lt h.bounds.2.2 short) left

/-- **What trimming leaves of an entity lies in what it leaves of the text**, between
characters. -/
lemma OnCharacters.left (h : entity.OnCharacters (front ++ middle ++ back))
    (short : Gathering.Short (front ++ middle ++ back))
    (left : entity.clip? (Utf16.unitCount front) (Utf16.unitCount middle) = some clipped) :
    clipped.LiesIn (Utf16.unitCount middle) ∧ Utf16.Between middle clipped.offset.toNat ∧
      Utf16.Between middle (clipped.offset + clipped.length).toNat := by
  obtain ⟨low, positive, -⟩ := h.bounds
  obtain ⟨-, filled, offset, stop⟩ := h.clip short left
  obtain ⟨betweenStart, betweenStop⟩ := h.between
  have start : clipped.offset.toNat =
      min (entity.offset.toNat - Utf16.unitCount front) (Utf16.unitCount middle) := by omega
  have last : (clipped.offset + clipped.length).toNat =
      min ((entity.offset + entity.length).toNat - Utf16.unitCount front)
        (Utf16.unitCount middle) := by omega
  refine ⟨⟨by omega, filled, by omega⟩, ?_, ?_⟩
  · rw [start]
    exact betweenStart.middle
  · rw [last]
    exact betweenStop.middle

end Entity

lemma Gathering.Short.parts (short : Short (front ++ middle ++ back)) :
    Short front ∧ Short middle := by
  simp only [Short, Utf16.unitCount_append] at short ⊢
  omega

/-- Trimming a short text clips its entities by what goes from it and what stays. -/
lemma Message.entities_trim {message : Message} (short : Gathering.Short message.text) :
    message.trim.entities = message.entities.filterMap
      (Entity.clip? (Utf16.unitCount message.text.indent)
        (Utf16.unitCount message.text.trim)) := by
  obtain ⟨back, whole⟩ := message.text.exists_trim
  rw [whole] at short
  obtain ⟨first, second⟩ := short.parts
  rw [← first.length_eq, ← second.length_eq]
  rfl

end RichText
