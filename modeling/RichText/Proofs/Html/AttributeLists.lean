import Mathlib.Data.List.TakeWhile
import RichText.Proofs.Html.Tags
import RichText.Proofs.Html.TargetLengths

/-!
# Lists of attributes

Attributes are read turn by turn.  A turn takes one attribute and the separators behind it, which
is one character at least of what is left (`exists_taken`), so that whatever text is read, the turns
come to its end (`exists_turns`).  What they meet is what the text is read as, less the attributes
with an empty key (`Turns.readAll_eq`).

Attributes that are written with their values escaped and in quotation marks are read back as they
are, in order, whatever their values hold and whether they have any (`readAll_written`).
-/

namespace RichText.Html

namespace Attribute

/-! ## Attributes that were written -/

/-- What a key has to be made of to be read as it is written. -/
lemma plainKey_iff {key : Text} :
    PlainKey key ↔ key ≠ [] ∧
      ∀ c ∈ key, c.isUpper = false ∧ isBlank c = false ∧ c ≠ '=' ∧ c ≠ '/' := by
  have small (c : Char) : c.toLower = c ↔ c.isUpper = false := by
    have moved : c.val + ('a'.val - 'A'.val) ≠ c.val := by
      rw [Ne, UInt32.add_eq_left]
      decide
    unfold Char.toLower Char.isUpper
    split
    · rename_i upper
      simp only [Char.ext_iff, moved, false_iff]
      simpa using upper
    · rename_i upper
      simpa using upper
  refine and_congr_right fun _ => forall₂_congr fun c _ => ?_
  rw [endsKey, small, Bool.or_eq_false_iff, Bool.or_eq_false_iff, beq_eq_false_iff_ne,
    beq_eq_false_iff_ne, and_comm, and_assoc]

/-- The separators in front of an attribute do not matter. -/
lemma readAll_congr {text other : Text}
    (h : text.dropWhile isSeparator = other.dropWhile isSeparator) :
    readAll text = readAll other := by
  cases same : other.dropWhile isSeparator with
  | nil => rw [readAll_of_separators same, readAll_of_separators (h.trans same)]
  | cons first rest => rw [readAll_of_dropWhile same, readAll_of_dropWhile (h.trans same)]

/-- Reading an attribute without a value, which ends at the blank behind it. -/
lemma readAll_bare {key rest : Text} (plain : PlainKey key) (behind : rest.head?.all isBlank)
    (apart : (Text.trimStart rest).head? ≠ some '=') :
    readAll (' ' :: key ++ rest) = ⟨key, none⟩ :: readAll rest := by
  cases key with
  | nil => exact absurd rfl plain.1
  | cons first key =>
    obtain ⟨taken, left⟩ := plain.split rest fun c member => by
      simp [endsKey, (Option.all_eq_true _ _).1 behind c member]
    have read : next first (key ++ rest) = (⟨first :: key, none⟩, Text.trimStart rest) := by
      simp only [next, plain.first_apart.2.1, if_false, taken, left, plain.lower_eq]
      split
      · rename_i value equals
        exact absurd (by rw [equals]; rfl) apart
      · rfl
    -- the blanks behind the key are separators
    have blanks : ∀ c ∈ Text.indent rest, isSeparator c = true := fun c member => by
      simp [isSeparator, List.mem_takeWhile_imp member]
    have same : (Text.trimStart rest).dropWhile isSeparator = rest.dropWhile isSeparator := by
      rw [← List.dropWhile_append_of_pos blanks, Text.indent_append_trimStart]
    rw [readAll_of_dropWhile plain.found, read, readAll_congr same]
    rfl

/-- An attribute written out: its key behind a blank and, if it has a value, an equals sign and the
value, escaped and in quotation marks. -/
def written (attr : Attribute) : Text :=
  match attr.value with
  | none => ' ' :: attr.key
  | some value => ' ' :: attr.key ++ '=' :: '\x22' :: (escape true value ++ ['\x22'])

lemma written_eq (attr : Attribute) : ∃ behind, attr.written = ' ' :: attr.key ++ behind := by
  unfold written
  split
  · exact ⟨[], (List.append_nil _).symm⟩
  · exact ⟨_, rfl⟩

/-- What follows a key without a value is the blank before another key, or nothing. -/
lemma behind_written {attributes : List Attribute}
    (plain : ∀ attr ∈ attributes, PlainKey attr.key) :
    (attributes.flatMap written).head?.all isBlank ∧
      (Text.trimStart (attributes.flatMap written)).head? ≠ some '=' := by
  cases attributes with
  | nil => exact ⟨rfl, nofun⟩
  | cons attr others =>
    have key := plain attr List.mem_cons_self
    obtain ⟨behind, starts⟩ := written_eq attr
    obtain ⟨first, more, same⟩ := List.exists_cons_of_ne_nil key.1
    rw [same] at key starts
    obtain ⟨visible, equals, -⟩ := key.first_apart
    have trimmed : Text.trimStart ((attr :: others).flatMap written) =
        first :: (more ++ behind ++ others.flatMap written) := by
      rw [List.flatMap_cons, starts, Text.trimStart]
      simp [visible, show isBlank ' ' = true by decide]
    rw [trimmed, List.flatMap_cons, starts]
    exact ⟨rfl, fun same => equals (Option.some.inj same)⟩

/-- **Written attributes are read back**, whatever their values hold. -/
lemma readAll_written {attributes : List Attribute}
    (plain : ∀ attr ∈ attributes, PlainKey attr.key) :
    readAll (attributes.flatMap written) = attributes := by
  induction attributes with
  | nil => exact readAll_nil
  | cons attr attributes ih =>
    obtain ⟨key, value?⟩ := attr
    have first : PlainKey key := plain _ List.mem_cons_self
    have others (attr : Attribute) (member : attr ∈ attributes) : PlainKey attr.key :=
      plain attr (List.mem_cons_of_mem _ member)
    obtain ⟨behind, apart⟩ := behind_written others
    rw [List.flatMap_cons]
    cases value? with
    | none =>
      have read := readAll_bare first behind apart
      rwa [ih others] at read
    | some value =>
      have read := readAll_quoted first (quote_notMem_escape value) (attributes.flatMap written)
      rw [unescape_escape, ih others] at read
      simpa [written] using read

/-! ## Turns -/

/-- One turn of reading a text that starts with no separator: the attribute at its start, and what
is left of the text behind the separators that follow.  There is no turn at the end. -/
def turn? : Text → Option (Attribute × Text)
  | [] => none
  | first :: rest => some ((next first rest).1, (next first rest).2.dropWhile isSeparator)

/-- A turn takes the first character at least and leaves an end of the text. -/
lemma exists_taken {start left : Text} {attr : Attribute} (h : turn? start = some (attr, left)) :
    ∃ taken ≠ [], start = taken ++ left := by
  cases start with
  | nil => cases h
  | cons first rest =>
    obtain ⟨-, rfl⟩ := Prod.mk.inj (Option.some.inj h)
    obtain ⟨taken, same⟩ : (next first rest).2.dropWhile isSeparator <:+ rest :=
      (List.dropWhile_suffix _).trans (next_within first rest).1
    exact ⟨first :: taken, List.cons_ne_nil first taken, by rw [List.cons_append, same]⟩

lemma length_left_lt {start left : Text} {attr : Attribute} (h : turn? start = some (attr, left)) :
    left.length < start.length := by
  obtain ⟨taken, filled, rfl⟩ := exists_taken h
  rw [List.length_append]
  exact Nat.lt_add_of_pos_left (List.length_pos_iff.2 filled)

/-- The turns from a text to its end, and the attributes that they meet. -/
inductive Turns : Text → List Attribute → Prop
  | ended : Turns [] []
  | turned {start left : Text} {attr : Attribute} {met : List Attribute}
      (h : turn? start = some (attr, left)) (later : Turns left met) : Turns start (attr :: met)

/-- There are no more turns than characters. -/
lemma Turns.length_le {start : Text} {met : List Attribute} (turns : Turns start met) :
    met.length ≤ start.length := by
  induction turns with
  | ended => exact Nat.zero_le _
  | turned h _ ih => exact Nat.lt_of_le_of_lt ih (length_left_lt h)

/-- **The turns come to an end**, whatever text they start from. -/
lemma exists_turns (start : Text) : ∃ met, Turns start met := by
  induction size : start.length using Nat.strong_induction_on generalizing start with
  | _ size ih =>
    cases start with
    | nil => exact ⟨[], .ended⟩
    | cons first rest =>
      have turn : turn? (first :: rest) =
          some ((next first rest).1, (next first rest).2.dropWhile isSeparator) := rfl
      obtain ⟨met, later⟩ := ih _ (size ▸ length_left_lt turn) _ rfl
      exact ⟨_, .turned turn later⟩

/-- What a text is read as is what the turns meet, less what has no key. -/
lemma Turns.readAll_eq {text : Text} {met : List Attribute}
    (turns : Turns (text.dropWhile isSeparator) met) :
    readAll text = met.filter (!·.key.isEmpty) := by
  generalize same : text.dropWhile isSeparator = start at turns
  induction turns generalizing text with
  | ended => exact readAll_of_separators same
  | @turned start left attr met h later ih =>
    cases start with
    | nil => cases h
    | cons first rest =>
      obtain ⟨rfl, rfl⟩ := Prod.mk.inj (Option.some.inj h)
      rw [readAll_of_dropWhile same, ih rfl]
      by_cases empty : (next first rest).1.key.isEmpty <;> simp [empty]

/-! ## The result -/

/-- **Attributes are read back, and reading ends.**  A list of attributes whose keys are in small
letters, without blanks, equals signs and slashes, is read back from what is written for it,
whatever its values hold.  And on every text each turn of the reading takes a character at least, so
that the turns come to the end of the text, and what they meet is what is read. -/
theorem read_back_and_ends :
    (∀ attributes : List Attribute,
        (∀ attr ∈ attributes, attr.key ≠ [] ∧
          ∀ c ∈ attr.key, c.isUpper = false ∧ isBlank c = false ∧ c ≠ '=' ∧ c ≠ '/') →
        readAll (attributes.flatMap written) = attributes) ∧
      (∀ start attr left, turn? start = some (attr, left) →
        ∃ taken ≠ [], start = taken ++ left) ∧
      ∀ text, ∃ met, Turns (text.dropWhile isSeparator) met ∧ met.length ≤ text.length ∧
        readAll text = met.filter (!·.key.isEmpty) := by
  refine ⟨fun attributes keys => ?_, fun start attr left => exists_taken, fun text => ?_⟩
  · exact readAll_written fun attr member => plainKey_iff.2 (keys attr member)
  · obtain ⟨met, turns⟩ := exists_turns (text.dropWhile isSeparator)
    have fewer : met.length ≤ text.length :=
      Nat.le_trans turns.length_le (List.dropWhile_sublist isSeparator).length_le
    exact ⟨met, turns, fewer, turns.readAll_eq⟩

/-- A value that looks like the end of its own quotation and more attributes, keys without values
before it and behind it, one of them a quotation mark, and a key that comes again. -/
theorem read_back_and_ends_of_quotes :
    (∀ attr ∈ [(⟨"hidden".toList, none⟩ : Attribute),
        ⟨"href".toList, some "\" x='1'/ y=&quot;>".toList⟩, ⟨['\x22'], none⟩,
        ⟨"hidden".toList, some []⟩],
      attr.key ≠ [] ∧
        ∀ c ∈ attr.key, c.isUpper = false ∧ isBlank c = false ∧ c ≠ '=' ∧ c ≠ '/') ∧
      readAll " hidden href=\"&quot; x='1'/ y=&amp;quot;&gt;\" \" hidden=\"\"".toList =
        [⟨"hidden".toList, none⟩, ⟨"href".toList, some "\" x='1'/ y=&quot;>".toList⟩,
          ⟨['\x22'], none⟩, ⟨"hidden".toList, some []⟩] := by
  have plain : ∀ attr ∈ [(⟨"hidden".toList, none⟩ : Attribute),
      ⟨"href".toList, some "\" x='1'/ y=&quot;>".toList⟩, ⟨['\x22'], none⟩,
      ⟨"hidden".toList, some []⟩], PlainKey attr.key := by decide
  have keys := fun attr member => plainKey_iff.1 (plain attr member)
  exact ⟨keys, read_back_and_ends.1 _ keys⟩

end Attribute

end RichText.Html
