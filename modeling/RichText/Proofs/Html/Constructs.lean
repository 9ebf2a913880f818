import Mathlib.Tactic.Lemma
import RichText.Html.Lexeme

/-!
# Where lexemes stand

What a lexeme of a source is can be told from the source behind it.  A construct is the one that is
read there, and takes what was read of the source: it ends with its closing bracket, or it is a
comment that never closes and nothing is left (`IsConstruct`).  A run of character data holds no
bracket at which a construct starts, and goes on up to the next construct or the end (`IsRun`).
Every lexeme of every source is one of the two (`isConstruct_or_isRun`).

What `construct?` may answer is said once, in `construct?_cases`; where constructs end, and that
none of them is character data, follows from it.
-/

namespace RichText.Html.Lexeme

variable {source text rest : Text} {token? : Option Token} {size stop : Nat}

/-! ## Constructs -/

/-- **What a construct may be**: a comment, a declaration, an end tag or a start tag, each with the
place where it ends. -/
lemma construct?_cases (h : construct? text = some (token?, size)) :
    (token? = none ∧ ∃ comment, text = '!' :: '-' :: '-' :: comment ∧
        size = commentLength comment + 3) ∨
      (token? = none ∧ ∃ stop, closeIndex? text = some stop ∧ size = stop + 1) ∨
      (∃ closing stop, text = '/' :: closing ∧ closeIndex? closing = some stop ∧
        token? = some (.endTag (tagName (closing.take stop))) ∧ size = stop + 2) ∨
      ∃ stop, tagEndIndex? none text = some stop ∧ token? = some (startTag (text.take stop)) ∧
        size = stop + 1 := by
  unfold construct? at h
  split at h
  · cases h
  rename_i c rest
  split at h
  · rename_i comment
    obtain ⟨rfl, opening⟩ := comment
    obtain ⟨behind, rfl⟩ := List.isPrefixOf_iff_prefix.1 opening
    cases h
    exact .inl ⟨rfl, behind, rfl, rfl⟩
  split at h
  · obtain ⟨stop, found, same⟩ := Option.map_eq_some_iff.1 h
    cases same
    exact .inr (.inl ⟨rfl, stop, found, rfl⟩)
  split at h
  · rename_i slash
    split at h
    · obtain ⟨stop, found, same⟩ := Option.map_eq_some_iff.1 h
      cases same
      exact .inr (.inr (.inl ⟨rest, stop, by rw [slash], found, rfl, rfl⟩))
    · cases h
  split at h
  · obtain ⟨stop, found, same⟩ := Option.map_eq_some_iff.1 h
    cases same
    exact .inr (.inr (.inr ⟨stop, found, rfl, rfl⟩))
  · cases h

lemma construct?_ne_text (piece : Text) : construct? text ≠ some (some (.text piece), size) := by
  intro read
  rcases construct?_cases read with ⟨none, -⟩ | ⟨none, -⟩ | ⟨_, _, -, -, token, -⟩ |
    ⟨_, -, token, -⟩
  · cases none
  · cases none
  · cases token
  · cases token

lemma exists_construct (h : constructAt? source = some (token?, size)) :
    ∃ text, source = '<' :: text ∧ construct? text = some (token?, size) := by
  cases source with
  | nil => cases h
  | cons c text =>
    rw [constructAt?, Option.ite_none_right_eq_some] at h
    exact ⟨text, by rw [h.1], h.2⟩

lemma constructAt?_ne_text (piece : Text) :
    constructAt? source ≠ some (some (.text piece), size) := fun read =>
  let ⟨_, _, construct⟩ := exists_construct read
  construct?_ne_text piece construct

/-! ## Where constructs end -/

/-- A comment ends with the bracket of its end mark, or takes all that follows. -/
lemma commentLength_cases (text : Text) :
    (∃ stop, commentLength text = stop + 1 ∧ text[stop]? = some '>') ∨
      commentLength text = text.length := by
  fun_induction commentLength text with
  | case1 rest => exact .inl ⟨2, rfl, rfl⟩
  | case2 c rest _ ih =>
    rcases ih with ⟨stop, size, bracket⟩ | whole
    · exact .inl ⟨stop + 1, by rw [size], by rw [List.getElem?_cons_succ, bracket]⟩
    · exact .inr (by rw [whole, List.length_cons])
  | case3 => exact .inr rfl

lemma getElem?_of_closeIndex? (h : closeIndex? text = some stop) : text[stop]? = some '>' := by
  induction text generalizing stop with
  | nil => cases h
  | cons c rest ih =>
    rw [closeIndex?] at h
    split at h
    · rename_i bracket
      cases h
      rw [bracket, List.getElem?_cons_zero]
    split at h
    · cases h
    · obtain ⟨before, found, rfl⟩ := Option.map_eq_some_iff.1 h
      rw [List.getElem?_cons_succ, ih found]

lemma getElem?_of_tagEndIndex? {quote? : Option Char}
    (h : tagEndIndex? quote? text = some stop) : text[stop]? = some '>' := by
  induction text generalizing quote? stop with
  | nil => cases h
  | cons c rest ih =>
    have later {inQuote? : Option Char}
        (found : (tagEndIndex? inQuote? rest).map (· + 1) = some stop) :
        (c :: rest)[stop]? = some '>' := by
      obtain ⟨before, further, rfl⟩ := Option.map_eq_some_iff.1 found
      rw [List.getElem?_cons_succ, ih further]
    cases quote? with
    | some quote => exact later h
    | none =>
      simp only [tagEndIndex?] at h
      split at h
      · exact later h
      split at h
      · rename_i bracket
        cases h
        rw [bracket, List.getElem?_cons_zero]
      split at h
      · cases h
      · exact later h

/-- **Where a construct ends** there is a bracket, unless it is a comment that takes all that
follows. -/
lemma construct?_ends (h : construct? text = some (token?, size)) :
    (∃ stop, size = stop + 1 ∧ text[stop]? = some '>') ∨ token? = none ∧ size = text.length := by
  rcases construct?_cases h with ⟨rfl, comment, rfl, rfl⟩ | ⟨rfl, stop, found, rfl⟩ |
    ⟨closing, stop, rfl, found, -, rfl⟩ | ⟨stop, found, -, rfl⟩
  · rcases commentLength_cases comment with ⟨stop, size, bracket⟩ | whole
    · exact .inl ⟨stop + 3, by rw [size], bracket⟩
    · exact .inr ⟨rfl, by rw [whole]; rfl⟩
  · exact .inl ⟨stop, rfl, getElem?_of_closeIndex? found⟩
  · exact .inl ⟨stop + 1, rfl, by rw [List.getElem?_cons_succ, getElem?_of_closeIndex? found]⟩
  · exact .inl ⟨stop, rfl, getElem?_of_tagEndIndex? found⟩

/-- What a construct takes is there. -/
lemma size_le_of_construct? (h : construct? text = some (token?, size)) : size ≤ text.length := by
  rcases construct?_ends h with ⟨stop, rfl, bracket⟩ | ⟨-, rfl⟩
  · exact (List.getElem?_eq_some_iff.1 bracket).1
  · exact Nat.le_refl _

/-! ## Text between constructs -/

lemma constructAt?_cons_of_ne {c : Char} (h : c ≠ '<') (rest : Text) :
    constructAt? (c :: rest) = none := if_neg h

lemma textLength_append {front : Text} (h : '<' ∉ front) (rest : Text) :
    textLength (front ++ rest) = front.length + textLength rest := by
  induction front with
  | nil => simp
  | cons c front ih =>
    rw [List.mem_cons, not_or] at h
    rw [List.cons_append, textLength, constructAt?_cons_of_ne (Ne.symm h.1), ih h.2,
      List.length_cons]
    simp only [Option.isSome_none, Bool.false_eq_true, if_false]
    omega

/-- No construct starts before the next one. -/
lemma constructAt?_of_lt_textLength {before behind : Text}
    (h : before.length < textLength (before ++ behind)) : constructAt? behind = none := by
  induction before with
  | nil =>
    cases behind with
    | nil => rfl
    | cons c rest =>
      rw [List.nil_append, textLength] at h
      split at h
      · cases h
      · rename_i none
        exact Option.not_isSome_iff_eq_none.1 none
  | cons c before ih =>
    rw [List.cons_append, textLength] at h
    split at h
    · cases h
    · rw [List.length_cons, Nat.add_lt_add_iff_right] at h
      exact ih h

/-- Behind the text before the next construct stands that construct, if there is one. -/
lemma constructAt?_drop_textLength (text : Text) :
    text.drop (textLength text) = [] ∨
      (constructAt? (text.drop (textLength text))).isSome = true := by
  induction text with
  | nil => exact .inl rfl
  | cons c rest ih =>
    rw [textLength]
    split
    · rename_i found
      exact .inr found
    · rwa [List.drop_succ_cons]

/-! ## What lexemes are -/

/-- In front of `rest` the lexeme is the construct that is read behind its opening bracket, all of
it and no more.  Only a comment that nothing follows may have no closing bracket. -/
structure IsConstruct (lexeme : Lexeme) (rest : Text) : Prop where
  read : ∃ inside, lexeme.source = '<' :: inside ∧
    construct? (inside ++ rest) = some (lexeme.token?, inside.length)
  ends : lexeme.source.getLast? = some '>' ∨ lexeme.token? = none ∧ rest = []

/-- In front of `rest` the lexeme is a run of character data: no construct starts at a bracket in
it, and one starts behind it or nothing follows. -/
structure IsRun (lexeme : Lexeme) (rest : Text) : Prop where
  token : lexeme.token? = some (.text (unescape lexeme.source))
  plain : ∀ before after, lexeme.source = before ++ '<' :: after → construct? (after ++ rest) = none
  ends : rest = [] ∨ (constructAt? rest).isSome = true

lemma IsConstruct.token?_ne_text {lexeme : Lexeme} (construct : lexeme.IsConstruct rest)
    (piece : Text) : lexeme.token? ≠ some (.text piece) := by
  obtain ⟨inside, -, read⟩ := construct.read
  intro data
  rw [data] at read
  exact construct?_ne_text piece read

lemma isConstruct_of_construct? (h : construct? text = some (token?, size)) :
    IsConstruct ⟨'<' :: text.take size, token?⟩ (text.drop size) := by
  have there := size_le_of_construct? h
  refine ⟨⟨text.take size, rfl, ?_⟩, ?_⟩
  · rw [List.take_append_drop, h, List.length_take, Nat.min_eq_left there]
  · rcases construct?_ends h with ⟨stop, rfl, bracket⟩ | ⟨none, rfl⟩
    · have last : text.take (stop + 1) = text.take stop ++ ['>'] := by
        rw [List.take_add_one, bracket, Option.toList_some]
      rw [last, ← List.cons_append]
      exact .inl List.getLast?_concat
    · exact .inr ⟨none, List.drop_length⟩

/-- What is read up to the next construct is a run. -/
lemma isRun_of_constructAt?_eq_none {c : Char} (h : constructAt? (c :: text) = none) :
    IsRun ⟨c :: text.take (textLength text),
        some (.text (unescape (c :: text.take (textLength text))))⟩
      (text.drop (textLength text)) := by
  refine ⟨rfl, fun before after split => ?_, constructAt?_drop_textLength text⟩
  have none : constructAt? ('<' :: (after ++ text.drop (textLength text))) = none := by
    cases before with
    | nil =>
      obtain ⟨rfl, behind⟩ := List.cons.inj split
      rwa [← behind, List.take_append_drop]
    | cons d before =>
      have behind : text.take (textLength text) = before ++ '<' :: after :=
        (List.cons.inj split).2
      have sizes := congrArg List.length behind
      have whole : text = before ++ '<' :: (after ++ text.drop (textLength text)) := by
        rw [← List.cons_append, ← List.append_assoc, ← behind, List.take_append_drop]
      refine @constructAt?_of_lt_textLength before _ ?_
      rw [← whole]
      rw [List.length_take, List.length_append, List.length_cons] at sizes
      omega
  rwa [constructAt?, if_pos rfl] at none

/-- **Every lexeme is a construct or a run** in front of the lexemes behind it. -/
lemma isConstruct_or_isRun (source : Text) : ∀ front lexeme back,
    readAll source = front ++ lexeme :: back →
      lexeme.IsConstruct (back.flatMap Lexeme.source) ∨
        lexeme.IsRun (back.flatMap Lexeme.source) := by
  fun_induction readAll source with
  | case1 => simp
  | case2 c rest token? size found ih =>
    intro front lexeme back h
    cases front with
    | nil =>
      obtain ⟨rfl, rfl⟩ := List.cons.inj h
      obtain ⟨text, same, construct⟩ := exists_construct found
      obtain ⟨rfl, rfl⟩ := List.cons.inj same
      rw [source_readAll]
      exact .inl (isConstruct_of_construct? construct)
    | cons first front => exact ih front lexeme back (List.cons.inj h).2
  | case3 c rest found size stretch ih =>
    intro front lexeme back h
    cases front with
    | nil =>
      obtain ⟨rfl, rfl⟩ := List.cons.inj h
      rw [source_readAll]
      exact .inr (isRun_of_constructAt?_eq_none found)
    | cons first front => exact ih front lexeme back (List.cons.inj h).2

lemma length_readAll_le (source : Text) : (readAll source).length ≤ source.length := by
  fun_induction readAll source with
  | case1 => exact Nat.le_refl _
  | case2 c rest token? size found ih =>
    rw [List.length_drop] at ih
    rw [List.length_cons, List.length_cons]
    omega
  | case3 c rest found size stretch ih =>
    rw [List.length_drop] at ih
    rw [List.length_cons, List.length_cons]
    omega

end RichText.Html.Lexeme
