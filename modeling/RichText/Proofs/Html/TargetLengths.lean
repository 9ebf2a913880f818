import RichText.Proofs.Html.Constructs
import RichText.Proofs.Html.References

/-!
# Values are shorter than their tags

The value of an attribute stands in its tag as one stretch, which may hold references to characters
(`Attribute.exists_written`).  Decoding them lengthens no text (`byteCount_unescape_le`), and a tag
has more in it than a value, so that no value, whatever it holds, is as long as the tag that it was
read from (`byteCount_value_lt`).
-/

namespace RichText.Html

/-! ## Attributes -/

namespace Attribute

/-- A value stands in a stretch of the text it is split from, and what follows it goes to the end of
the text. -/
lemma splitValue_within (text : Text) :
    (splitValue text).1 <:+: text ∧ (splitValue text).2 <:+ text := by
  unfold splitValue
  split
  · exact ⟨List.infix_refl _, List.suffix_refl _⟩
  · rename_i c body
    split
    · exact ⟨((List.takeWhile_prefix _).isInfix).trans (List.suffix_cons c body).isInfix,
        (List.drop_suffix _ body).trans (List.suffix_cons c body)⟩
    · exact ⟨(List.takeWhile_prefix _).isInfix, List.dropWhile_suffix _⟩

/-- What an attribute holds and what follows it stand behind its first character. -/
lemma next_within (first : Char) (rest : Text) :
    (next first rest).2 <:+ rest ∧ ∀ value, (next first rest).1.value = some value →
      ∃ written, written <:+: rest ∧ value = unescape written := by
  have behindKey : Text.trimStart (rest.dropWhile (!endsKey ·)) <:+ rest :=
    (List.dropWhile_suffix _).trans (List.dropWhile_suffix _)
  have split (value : Text) (inRest : value <:+ rest) :
      (splitValue (Text.trimStart value)).1 <:+: rest ∧
        (splitValue (Text.trimStart value)).2 <:+ rest := by
    have trimmed : Text.trimStart value <:+ rest := (List.dropWhile_suffix _).trans inRest
    exact ⟨(splitValue_within _).1.trans trimmed.isInfix, (splitValue_within _).2.trans trimmed⟩
  unfold next
  by_cases equals : first = '='
  · subst equals
    obtain ⟨written, after⟩ := split rest (List.suffix_refl rest)
    refine ⟨after, fun value held => ⟨_, written, ?_⟩⟩
    exact (Option.some.inj held).symm
  · simp only [equals, if_false]
    split
    · rename_i value found
      have inRest : value <:+ rest := by
        rw [found] at behindKey
        exact (List.suffix_cons '=' value).trans behindKey
      obtain ⟨written, after⟩ := split value inRest
      exact ⟨after, fun value held => ⟨_, written, (Option.some.inj held).symm⟩⟩
    · exact ⟨behindKey, fun value held => by cases held⟩

/-- **A value stands in its tag**, with references in it. -/
lemma exists_written {text : Text} {attr : Attribute} {value : Text} (h : attr ∈ readAll text)
    (held : attr.value = some value) :
    ∃ written, written <:+: text ∧ value = unescape written := by
  -- what is read behind the separators stands in the text
  have behind {text rest : Text} {first : Char}
      (found : text.dropWhile isSeparator = first :: rest) : rest <:+: text := by
    have left := (List.dropWhile_suffix isSeparator (l := text)).isInfix
    rw [found] at left
    exact (List.suffix_cons first rest).isInfix.trans left
  fun_induction readAll text with
  | case1 => cases h
  | case2 text first rest found step empty ih =>
    obtain ⟨written, inside, same⟩ := ih h
    exact ⟨written, inside.trans ((next_within first rest).1.isInfix.trans (behind found)), same⟩
  | case3 text first rest found step filled ih =>
    rcases List.mem_cons.1 h with rfl | later
    · obtain ⟨written, inside, same⟩ := (next_within first rest).2 value held
      exact ⟨written, inside.trans (behind found), same⟩
    · obtain ⟨written, inside, same⟩ := ih later
      exact ⟨written, inside.trans ((next_within first rest).1.isInfix.trans (behind found)), same⟩

lemma mem_of_valueOf? {key : Text} {attributes : List Attribute} {value : Text}
    (h : valueOf? key attributes = some value) :
    ∃ attr ∈ attributes, attr.value = some value := by
  obtain ⟨attr, found, held⟩ := Option.bind_eq_some_iff.1 h
  exact ⟨attr, List.mem_of_find?_eq_some found, held⟩

end Attribute

/-! ## Tags -/

namespace Lexeme

/-- A start tag is read from the characters up to the bracket that ends it. -/
lemma exists_stop {text name : Text} {attributes : List Attribute} {selfClosing : Bool}
    {size : Nat} (h : construct? text = some (some (.startTag name attributes selfClosing), size)) :
    ∃ stop, size = stop + 1 ∧
      startTag (text.take stop) = .startTag name attributes selfClosing := by
  rcases construct?_cases h with ⟨none, -⟩ | ⟨none, -⟩ | ⟨_, _, -, -, token, -⟩ |
    ⟨stop, -, token, rfl⟩
  · cases none
  · cases none
  · cases token
  · exact ⟨stop, rfl, (Option.some.inj token).symm⟩

/-- A start tag in a source is read from what stands behind its opening bracket. -/
lemma exists_inside {source name : Text} {lexeme : Lexeme} {attributes : List Attribute}
    {selfClosing : Bool} (h : lexeme ∈ readAll source)
    (tag : lexeme.token? = some (.startTag name attributes selfClosing)) :
    ∃ inside, ('<' :: inside) <+: lexeme.source ∧
      startTag inside = .startTag name attributes selfClosing := by
  fun_induction readAll source with
  | case1 => cases h
  | case2 c rest token? size found ih =>
    rcases List.mem_cons.1 h with rfl | later
    · obtain rfl : token? = some (.startTag name attributes selfClosing) := tag
      obtain ⟨text, same, construct⟩ := exists_construct found
      obtain ⟨rfl, rfl⟩ := List.cons.inj same
      obtain ⟨stop, rfl, read⟩ := exists_stop construct
      refine ⟨rest.take stop, ?_, read⟩
      exact (List.prefix_cons_inj '<').2 (List.take_prefix_take_left (Nat.le_succ stop))
    · exact ih later
  | case3 c rest found size stretch ih =>
    rcases List.mem_cons.1 h with rfl | later
    · cases tag
    · exact ih later

/-- **A value is shorter than the tag it was read from.** -/
lemma byteCount_value_lt {source name key value : Text} {lexeme : Lexeme}
    {attributes : List Attribute} {selfClosing : Bool} (h : lexeme ∈ readAll source)
    (tag : lexeme.token? = some (.startTag name attributes selfClosing))
    (held : Attribute.valueOf? key attributes = some value) :
    byteCount value < byteCount lexeme.source := by
  obtain ⟨inside, stands, read⟩ := exists_inside h tag
  obtain ⟨attr, member, carries⟩ := Attribute.mem_of_valueOf? held
  obtain ⟨list, place, rfl⟩ : ∃ list, list <:+: inside ∧ attributes = Attribute.readAll list := by
    unfold startTag at read
    simp only [Token.startTag.injEq] at read
    obtain ⟨-, rfl, -⟩ := read
    refine ⟨_, ?_, rfl⟩
    split
    · exact (List.drop_suffix _ _).isInfix.trans (List.dropLast_prefix inside).isInfix
    · exact (List.drop_suffix _ _).isInfix
  obtain ⟨written, within, rfl⟩ := Attribute.exists_written member carries
  calc byteCount (unescape written)
      ≤ byteCount written := byteCount_unescape_le written
    _ ≤ byteCount inside := byteCount_le_of_infix (within.trans place)
    _ < byteCount ('<' :: inside) := Nat.lt_add_of_pos_left ('<').utf8Size_pos
    _ ≤ byteCount lexeme.source := byteCount_le_of_infix stands.isInfix

end Lexeme

end RichText.Html
