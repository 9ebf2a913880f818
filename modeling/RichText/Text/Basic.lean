/-!
# Text

A text is the list of its characters.  Everything that reads or writes text recurses on that
list; strings appear only where the program meets its surroundings.
-/

namespace RichText

/-- A text: its Unicode scalar values in reading order. -/
abbrev Text := List Char

namespace Text

/-- What follows `head` in a text that starts with it. -/
def after? (head text : Text) : Option Text :=
  if head.isPrefixOf text then some (text.drop head.length) else none

/-- What stands before `last` in a text that ends with it. -/
def before? (last : Text) (text : Text) : Option Text :=
  (after? last.reverse text.reverse).map List.reverse

/-- Removes `head` from the start of a text that has it there, and leaves any other text alone. -/
def dropHead (head text : Text) : Text := (after? head text).getD text

/-- Splits a text at its first line break, which belongs to neither part. -/
def splitLine? : Text → Option (Text × Text)
  | [] => none
  | c :: rest =>
    if c = '\n' then some ([], rest)
    else (splitLine? rest).map fun (line, below) => (c :: line, below)

/-! ## Small laws -/

@[simp] theorem after?_append (head rest : Text) : after? head (head ++ rest) = some rest := by
  simp [after?, List.isPrefixOf_iff_prefix]

theorem eq_append_of_after? {head text rest : Text} (h : after? head text = some rest) :
    text = head ++ rest := by
  unfold after? at h
  split at h
  · rename_i hp
    obtain ⟨t, rfl⟩ := List.isPrefixOf_iff_prefix.1 hp
    simpa using h
  · cases h

@[simp] theorem before?_append (last text : Text) : before? last (text ++ last) = some text := by
  simp [before?]

theorem eq_append_of_before? {last text front : Text} (h : before? last text = some front) :
    text = front ++ last := by
  obtain ⟨reversed, hafter, rfl⟩ := Option.map_eq_some_iff.1 h
  have whole := congrArg List.reverse (eq_append_of_after? hafter)
  simpa using whole

/-- Removing a head from the start of a text takes the head or nothing. -/
theorem dropHead_append (head text : Text) :
    ∃ taken, (taken = [] ∨ taken = head) ∧ text = taken ++ dropHead head text := by
  cases h : after? head text with
  | none => exact ⟨[], .inl rfl, by simp [dropHead, h]⟩
  | some rest =>
    refine ⟨head, .inr rfl, ?_⟩
    simpa [dropHead, h] using eq_append_of_after? h

theorem dropHead_of_ne {mark c : Char} (h : c ≠ mark) (rest : Text) :
    dropHead [mark] (c :: rest) = c :: rest := by
  simp [dropHead, after?, Ne.symm h]

theorem splitLine?_eq_some {text line below : Text} (h : splitLine? text = some (line, below)) :
    text = line ++ '\n' :: below ∧ '\n' ∉ line := by
  induction text generalizing line with
  | nil => simp [splitLine?] at h
  | cons c rest ih =>
    by_cases hc : c = '\n'
    · simp only [splitLine?, hc, if_true, Option.some.injEq, Prod.mk.injEq] at h
      simp [← h.1, ← h.2, hc]
    · simp only [splitLine?, hc, if_false, Option.map_eq_some_iff, Prod.mk.injEq,
        Prod.exists] at h
      obtain ⟨line', below', hrec, rfl, rfl⟩ := h
      obtain ⟨rfl, hnot⟩ := ih hrec
      simp [hnot, Ne.symm hc]

/-- A row of like characters goes up to what is not like them. -/
theorem takeWhile_row {like : Char → Bool} {row rest : Text} (inside : ∀ c ∈ row, like c = true)
    (stops : ∀ c ∈ rest.head?, like c = false) : (row ++ rest).takeWhile like = row := by
  rw [List.takeWhile_append_of_pos inside]
  cases rest with
  | nil => simp
  | cons c rest => simp [stops c rfl]

theorem dropWhile_row {like : Char → Bool} {row rest : Text} (inside : ∀ c ∈ row, like c = true)
    (stops : ∀ c ∈ rest.head?, like c = false) : (row ++ rest).dropWhile like = rest := by
  rw [List.dropWhile_append_of_pos inside]
  cases rest with
  | nil => rfl
  | cons c rest => simp [stops c rfl]

end Text

end RichText
