import RichText.Proofs.Json.Numbers
import RichText.Proofs.Json.Strings

/-!
# Written values are read back

Every value is read back from what is written of it, in any layout that writes nothing but gaps
between the parts of a value (`read?_write`): any nesting, any strings, any numbers, members that
repeat a key.

The main induction (`readValue?_writeAt`) is on the value, with the text behind it left open.  Fuel
is measured by the length of what is written: a value takes at most two steps for each of its
characters, one on the way to the value and one on the way past it in its list.
-/

namespace RichText.Json

/-! ## Gaps -/

lemma skipGap_append {gap : Text} (blank : ∀ c ∈ gap, isGap c = true) (text : Text) :
    skipGap (gap ++ text) = skipGap text :=
  List.dropWhile_append_of_pos blank

lemma skipGap_cons {c : Char} (visible : isGap c = false) (rest : Text) :
    skipGap (c :: rest) = c :: rest := by
  simp [skipGap, visible]

lemma readValue?_append {gap : Text} (blank : ∀ c ∈ gap, isGap c = true) (fuel : Nat)
    (text : Text) : readValue? fuel (gap ++ text) = readValue? fuel text := by
  cases fuel with
  | zero => rfl
  | succ fuel => simp only [readValue?, skipGap_append blank]

lemma readItems?_append {gap : Text} (blank : ∀ c ∈ gap, isGap c = true) (fuel : Nat)
    (text : Text) : readItems? fuel (gap ++ text) = readItems? fuel text := by
  cases fuel with
  | zero => rfl
  | succ fuel => simp only [readItems?, readValue?_append blank]

lemma readMembers?_append {gap : Text} (blank : ∀ c ∈ gap, isGap c = true) (fuel : Nat)
    (text : Text) : readMembers? fuel (gap ++ text) = readMembers? fuel text := by
  cases fuel with
  | zero => rfl
  | succ fuel => simp only [readMembers?, skipGap_append blank]

/-- A layout that writes nothing but gaps. -/
structure Layout.Blank (layout : Layout) : Prop where
  lineBreak : ∀ depth, ∀ c ∈ layout.lineBreak depth, isGap c = true
  colon : ∃ gap, layout.colon = ':' :: gap ∧ ∀ c ∈ gap, isGap c = true

lemma Layout.blank_indented : Layout.indented.Blank where
  lineBreak depth c member := by
    rcases List.mem_cons.1 member with rfl | space
    · rfl
    · obtain rfl := List.eq_of_mem_replicate space
      rfl
  colon := ⟨[' '], rfl, by simp [isGap]⟩

/-! ## Parts of values -/

lemma ends_append {gap rest : Text} (blank : ∀ c ∈ gap, isGap c = true) (ends : Ends rest) :
    Ends (gap ++ rest) := by
  cases gap with
  | nil => exact ends
  | cons c others =>
    have isBlank := blank c List.mem_cons_self
    simp only [isGap, Bool.or_eq_true, beq_iff_eq] at isBlank
    refine ends_cons ?_ _
    rcases isBlank with ((rfl | rfl) | rfl) | rfl <;> decide

lemma readValue?_array (fuel : Nat) {text : Text} (inside : Text) (start : skipGap text = inside)
    (filled : inside.head? ≠ some ']') :
    readValue? (fuel + 1) ('[' :: text) =
      (readItems? fuel inside).map fun (items, after) => (.array items, after) := by
  rw [readValue?, skipGap_cons rfl]
  simp only [start, Char.reduceEq, if_false, if_true]
  split
  · exact absurd rfl filled
  · rfl

lemma readValue?_object (fuel : Nat) {text : Text} (inside : Text) (start : skipGap text = inside)
    (filled : inside.head? ≠ some '\x7D') :
    readValue? (fuel + 1) ('\x7B' :: text) =
      (readMembers? fuel inside).map fun (members, after) => (.object members, after) := by
  rw [readValue?, skipGap_cons rfl]
  simp only [start, Char.reduceEq, if_false, if_true]
  split
  · exact absurd rfl filled
  · rfl

/-- A number shows itself by its first character. -/
lemma readValue?_number (fuel : Nat) (number : Number) {rest : Text} (ends : Ends rest) :
    readValue? (fuel + 1) (number.write ++ rest) = some (.number number, rest) := by
  have read := readNumber?_write number ends
  obtain ⟨first, others, shape, start⟩ := exists_write_eq_cons number
  rw [shape, List.cons_append] at read ⊢
  have range := toNat_of_digit start.symm
  have differs {c : Char} (outside : c.toNat < 45 ∨ 57 < c.toNat) : first ≠ c := by
    rintro rfl
    omega
  have visible : isGap first = false := by
    simp only [isGap, Bool.or_eq_false_iff, beq_eq_false_iff_ne]
    exact ⟨⟨⟨differs (.inl (by decide)), differs (.inl (by decide))⟩,
      differs (.inl (by decide))⟩, differs (.inl (by decide))⟩
  rw [readValue?, skipGap_cons visible]
  simp only [differs (c := '\x22') (.inl (by decide)), differs (c := '[') (.inr (by decide)),
    differs (c := '\x7B') (.inr (by decide)), start, if_false, if_true, read, Option.map_some]

/-- What is written of a value starts with a character that is neither a gap nor closes an
array. -/
lemma exists_writeAt_eq_cons (layout : Layout) (depth : Nat) (value : Value) :
    ∃ first others, value.writeAt layout depth = first :: others ∧ isGap first = false ∧
      first ≠ ']' := by
  match value with
  | .null | .bool true | .bool false | .array [] | .object [] =>
    exact ⟨_, _, rfl, by decide, by decide⟩
  | .string units => exact ⟨_, _, writeString_eq units, by decide, by decide⟩
  | .array (item :: items) | .object ((key, value) :: members) =>
    exact ⟨_, _, by simp only [Value.writeAt, List.append_assoc, List.cons_append]; rfl, by decide,
      by decide⟩
  | .number number =>
    obtain ⟨first, others, shape, start⟩ := exists_write_eq_cons number
    refine ⟨first, others, shape, ?_, ?_⟩
    · have range := toNat_of_digit start.symm
      simp only [isGap, Bool.or_eq_false_iff, beq_eq_false_iff_ne]
      refine ⟨⟨⟨?_, ?_⟩, ?_⟩, ?_⟩ <;> rintro rfl <;> revert range <;> decide
    · rintro rfl
      revert start
      decide

lemma length_writeAt_pos (layout : Layout) (depth : Nat) (value : Value) :
    0 < (value.writeAt layout depth).length := by
  obtain ⟨first, others, shape, -⟩ := exists_writeAt_eq_cons layout depth value
  rw [shape]
  exact Nat.succ_pos _

lemma ends_writeItems (layout : Layout) (depth : Nat) (items : List Value) {rest : Text}
    (ends : Ends rest) : Ends (Value.writeItems layout depth items ++ rest) := by
  cases items with
  | nil => exact ends
  | cons item others => exact ends_cons (by decide) _

lemma ends_writeMembers (layout : Layout) (depth : Nat)
    (members : List (List CodeUnit × Value)) {rest : Text} (ends : Ends rest) :
    Ends (Value.writeMembers layout depth members ++ rest) := by
  cases members with
  | nil => exact ends
  | cons member others => exact ends_cons (by decide) _

/-! ## Whole values -/

variable {layout : Layout}

mutual

/-- **A written value is read back**, whatever does not belong to it stands behind it. -/
theorem readValue?_writeAt (blank : layout.Blank) (depth : Nat) (value : Value) (fuel : Nat)
    (enough : 2 * (value.writeAt layout depth).length ≤ fuel) {rest : Text} (ends : Ends rest) :
    readValue? fuel (value.writeAt layout depth ++ rest) = some (value, rest) := by
  have filled := length_writeAt_pos layout depth value
  obtain ⟨fuel, rfl⟩ : ∃ less, fuel = less + 1 := ⟨fuel - 1, by omega⟩
  match value with
  | .null | .bool true | .bool false | .array [] | .object [] => rfl
  | .number number => exact readValue?_number fuel number ends
  | .string units =>
    rw [Value.writeAt, writeString_eq, List.cons_append, readValue?, skipGap_cons rfl]
    simp only [if_true, readString?_writeInside, Option.map_some]
  | .array (item :: items) =>
    obtain ⟨first, others, shape, visible, notClosed⟩ :=
      exists_writeAt_eq_cons layout (depth + 1) item
    simp only [Value.writeAt, List.length_append, List.length_cons, List.length_nil] at enough
    have read := readItems?_writeItems blank (depth + 1) item items fuel (by omega)
      (blank.lineBreak depth) rest
    simp only [Value.writeAt, List.append_assoc, List.cons_append, List.nil_append]
    rw [readValue?_array fuel (item.writeAt layout (depth + 1) ++ _)
      (by rw [skipGap_append (blank.lineBreak _), shape]; exact skipGap_cons visible _)
      (by simp [shape, notClosed]), read]
    rfl
  | .object ((key, value) :: members) =>
    simp only [Value.writeAt, List.length_append, List.length_cons, List.length_nil] at enough
    have read := readMembers?_writeMembers blank (depth + 1) key value members fuel
      (by omega) (blank.lineBreak depth) rest
    simp only [Value.writeAt, List.append_assoc, List.cons_append, List.nil_append]
    rw [readValue?_object fuel (writeString key ++ _)
      (by rw [skipGap_append (blank.lineBreak _), writeString_eq]; exact skipGap_cons rfl _)
      (by simp [writeString_eq]), read]
    rfl
termination_by fuel

/-- Written items are read back up to the bracket behind them. -/
theorem readItems?_writeItems (blank : layout.Blank) (depth : Nat) (item : Value)
    (items : List Value) (fuel : Nat)
    (enough : 2 * ((item.writeAt layout depth).length +
      (Value.writeItems layout depth items).length) + 1 ≤ fuel)
    {gap : Text} (isBlank : ∀ c ∈ gap, isGap c = true) (rest : Text) :
    readItems? fuel (item.writeAt layout depth ++ (Value.writeItems layout depth items ++
      (gap ++ ']' :: rest))) = some (item :: items, rest) := by
  obtain ⟨fuel, rfl⟩ : ∃ less, fuel = less + 1 := ⟨fuel - 1, by omega⟩
  have ends : Ends (gap ++ ']' :: rest) := ends_append isBlank (ends_cons (by decide) _)
  have first := readValue?_writeAt blank depth item fuel (by omega)
    (ends_writeItems layout depth items ends)
  simp only [readItems?, first, Option.bind_eq_bind, Option.bind_some]
  match items with
  | [] =>
    simp only [Value.writeItems, List.nil_append, skipGap_append isBlank]
    simp only [skipGap_cons (c := ']') rfl]
  | next :: others =>
    simp only [Value.writeItems, List.length_append, List.length_cons, List.length_nil] at enough
    have read := readItems?_writeItems blank depth next others fuel (by omega)
      isBlank rest
    simp only [Value.writeItems, List.append_assoc, List.cons_append, List.nil_append]
    rw [skipGap_cons rfl]
    simp only [readItems?_append (blank.lineBreak depth), read, Option.map_some]
termination_by fuel

/-- Written members are read back up to the brace behind them. -/
theorem readMembers?_writeMembers (blank : layout.Blank) (depth : Nat) (key : List CodeUnit)
    (value : Value) (members : List (List CodeUnit × Value)) (fuel : Nat)
    (enough : 2 * ((value.writeAt layout depth).length +
      (Value.writeMembers layout depth members).length) + 1 ≤ fuel)
    {gap : Text} (isBlank : ∀ c ∈ gap, isGap c = true) (rest : Text) :
    readMembers? fuel (writeString key ++ (layout.colon ++ (value.writeAt layout depth ++
      (Value.writeMembers layout depth members ++ (gap ++ '\x7D' :: rest))))) =
        some ((key, value) :: members, rest) := by
  obtain ⟨fuel, rfl⟩ : ∃ less, fuel = less + 1 := ⟨fuel - 1, by omega⟩
  have ends : Ends (gap ++ '\x7D' :: rest) := ends_append isBlank (ends_cons (by decide) _)
  obtain ⟨space, colon, isSpace⟩ := blank.colon
  have first := readValue?_writeAt blank depth value fuel (by omega)
    (ends_writeMembers layout depth members ends)
  rw [readMembers?, writeString_eq, List.cons_append, skipGap_cons rfl]
  simp only [readString?_writeInside, Option.bind_eq_bind, Option.bind_some, colon,
    List.cons_append, skipGap_cons (c := ':') rfl, readValue?_append isSpace, first]
  match members with
  | [] =>
    simp only [Value.writeMembers, List.nil_append, skipGap_append isBlank]
    simp only [skipGap_cons (c := '\x7D') rfl]
  | (nextKey, next) :: others =>
    simp only [Value.writeMembers, List.length_append, List.length_cons, List.length_nil] at enough
    have read := readMembers?_writeMembers blank depth nextKey next others fuel
      (by omega) isBlank rest
    simp only [Value.writeMembers, List.append_assoc, List.cons_append, List.nil_append]
    rw [skipGap_cons rfl]
    simp only [readMembers?_append (blank.lineBreak depth), read, Option.map_some]
termination_by fuel

end

/-- **What is written of a value describes it**, with a gap behind it or without. -/
lemma read?_write (blank : layout.Blank) (value : Value) {gap : Text}
    (isBlank : ∀ c ∈ gap, isGap c = true) :
    Value.read? (value.write layout ++ gap) = some value := by
  have ends : Ends gap := by simpa using ends_append isBlank ends_nil
  have end_ : skipGap gap = [] := by
    rw [← List.append_nil gap, skipGap_append isBlank]
    rfl
  rw [Value.read?, Value.write, readValue?_writeAt blank 0 value _
    (by simp only [List.length_append]; omega) ends]
  simp [end_]

end RichText.Json
